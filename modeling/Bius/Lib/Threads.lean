import Mathlib.Logic.Function.Basic
import Mathlib.Data.List.Nodup
import Mathlib.Data.Set.Basic
import Bius.Lib.Machine

/- Threads over a shared state. A program (`Prog`) takes and releases locks and, in
   between, performs actions: an action is atomic, changes the shared state as `sem`
   says and answers with a value on which the rest of the program depends. `exec`
   runs one program alone. `Sys` is a system of threads: a thread makes a call, whose
   code is a program, runs it step by step in any interleaving with the others, and
   returns; a thread that wants a lock somebody has cannot move. `Prog.Ends` says what
   the results of a program satisfy, and `Sys.ends_inv` that the calls of a system return
   nothing else.

   A discipline says which locks may be held when a lock is taken, which locks an
   action needs, and which answers actions give. `Follows d held p held'` says of a
   program that it keeps to the discipline, never releases a lock it does not hold,
   and turns the locks `held` into `held'`. Where all code is so, the owners of locks
   are known (`Sys.follows_inv`), and if locks are taken in the order of a rank, no set
   of threads waits for itself (`Sys.follows_no_deadlock`). -/
namespace Threads

/-- A program with actions `E`, answers `Ans`, locks `L` and results `ρ`. -/
inductive Prog (E : Type) (Ans : E → Type) (L ρ : Type) where
  | ret (r : ρ)
  | lock (l : L) (k : Prog E Ans L ρ)
  | unlock (l : L) (k : Prog E Ans L ρ)
  | act (e : E) (k : Ans e → Prog E Ans L ρ)

namespace Prog

variable {E : Type} {Ans : E → Type} {L ρ τ σ : Type}

def bind : Prog E Ans L ρ → (ρ → Prog E Ans L τ) → Prog E Ans L τ
  | ret r, f => f r
  | lock l k, f => lock l (k.bind f)
  | unlock l k, f => unlock l (k.bind f)
  | act e k, f => act e (fun a => (k a).bind f)

instance : Monad (Prog E Ans L) where
  pure := ret
  bind := bind

/-- Take a lock. -/
def take (l : L) : Prog E Ans L Unit := lock l (ret ())

/-- Release a lock. -/
def release (l : L) : Prog E Ans L Unit := unlock l (ret ())

/-- Perform an action. -/
def perform (e : E) : Prog E Ans L (Ans e) := act e ret

@[simp] theorem pure_def (r : ρ) : (pure r : Prog E Ans L ρ) = ret r := rfl

@[simp] theorem ret_bind (r : ρ) (f : ρ → Prog E Ans L τ) : (ret r >>= f) = f r := rfl

@[simp] theorem lock_bind (l : L) (k : Prog E Ans L ρ) (f : ρ → Prog E Ans L τ) :
    (lock l k >>= f) = lock l (k >>= f) := rfl

@[simp] theorem unlock_bind (l : L) (k : Prog E Ans L ρ) (f : ρ → Prog E Ans L τ) :
    (unlock l k >>= f) = unlock l (k >>= f) := rfl

@[simp] theorem act_bind (e : E) (k : Ans e → Prog E Ans L ρ) (f : ρ → Prog E Ans L τ) :
    (act e k >>= f) = act e (fun a => k a >>= f) := rfl

@[simp] theorem take_bind (l : L) (f : Unit → Prog E Ans L τ) : (take l >>= f) = lock l (f ()) := rfl

@[simp] theorem release_bind (l : L) (f : Unit → Prog E Ans L τ) : (release l >>= f) = unlock l (f ()) := rfl

@[simp] theorem perform_bind (e : E) (f : Ans e → Prog E Ans L τ) : (perform e >>= f) = act e f := rfl

/-! ## One program alone -/

variable (sem : (e : E) → σ → σ × Ans e)

/-- The state and the result after the whole program, run alone. -/
def exec : Prog E Ans L ρ → σ → σ × ρ
  | ret r, s => (s, r)
  | lock _ k, s => exec k s
  | unlock _ k, s => exec k s
  | act e k, s => exec (k (sem e s).2) (sem e s).1

@[simp] theorem exec_ret (r : ρ) (s : σ) : exec sem (ret r : Prog E Ans L ρ) s = (s, r) := rfl

@[simp] theorem exec_lock (l : L) (k : Prog E Ans L ρ) (s : σ) : exec sem (lock l k) s = exec sem k s := rfl

@[simp] theorem exec_unlock (l : L) (k : Prog E Ans L ρ) (s : σ) : exec sem (unlock l k) s = exec sem k s := rfl

@[simp] theorem exec_act (e : E) (k : Ans e → Prog E Ans L ρ) (s : σ) :
    exec sem (act e k) s = exec sem (k (sem e s).2) (sem e s).1 := rfl

@[simp] theorem exec_bind (p : Prog E Ans L ρ) (f : ρ → Prog E Ans L τ) (s : σ) :
    exec sem (p >>= f) s = exec sem (f (exec sem p s).2) (exec sem p s).1 := by
  induction p generalizing s with
  | ret r => rfl
  | lock l k ih => exact ih s
  | unlock l k ih => exact ih s
  | act e k ih => exact ih (sem e s).2 (sem e s).1

/-- Every action of the program satisfies `V`. -/
def Uses (V : E → Prop) : Prog E Ans L ρ → Prop
  | ret _ => True
  | lock _ k => Uses V k
  | unlock _ k => Uses V k
  | act e k => V e ∧ ∀ a, Uses V (k a)

theorem Uses.bind {V : E → Prop} {p : Prog E Ans L ρ} {f : ρ → Prog E Ans L τ} (hp : Uses V p)
    (hf : ∀ r, Uses V (f r)) : Uses V (p >>= f) := by
  induction p with
  | ret r => exact hf r
  | lock l k ih => exact ih hp
  | unlock l k ih => exact ih hp
  | act e k ih => exact ⟨hp.1, fun a => ih a (hp.2 a)⟩

/-- Every result of the program satisfies `P`, where its actions answer what `can` says. -/
def Ends (can : (e : E) → Ans e → Prop) (P : ρ → Prop) : Prog E Ans L ρ → Prop
  | ret r => P r
  | lock _ k => Ends can P k
  | unlock _ k => Ends can P k
  | act e k => ∀ a, can e a → Ends can P (k a)

theorem Ends.bind {can : (e : E) → Ans e → Prop} {P : ρ → Prop} {Q : τ → Prop} {p : Prog E Ans L ρ}
    {f : ρ → Prog E Ans L τ} (hp : Ends can P p) (hf : ∀ r, P r → Ends can Q (f r)) : Ends can Q (p >>= f) := by
  induction p with
  | ret r => exact hf r hp
  | lock l k ih => exact ih hp
  | unlock l k ih => exact ih hp
  | act e k ih => exact fun a ha => ih a (hp a ha)

/-- Every action the program performs, run alone from `s`, satisfies `V` in the state
    it is performed in. -/
def Along (V : E → σ → Prop) : Prog E Ans L ρ → σ → Prop
  | ret _, _ => True
  | lock _ k, s => Along V k s
  | unlock _ k, s => Along V k s
  | act e k, s => V e s ∧ Along V (k (sem e s).2) (sem e s).1

theorem Uses.along {V : E → Prop} {W : E → σ → Prop} (hVW : ∀ e s, V e → W e s) {p : Prog E Ans L ρ}
    (hp : Uses V p) (s : σ) : Along sem W p s := by
  induction p generalizing s with
  | ret r => trivial
  | lock l k ih => exact ih hp s
  | unlock l k ih => exact ih hp s
  | act e k ih => exact ⟨hVW e s hp.1, ih _ (hp.2 _) _⟩

theorem Along.bind {V : E → σ → Prop} {p : Prog E Ans L ρ} {f : ρ → Prog E Ans L τ} {s : σ}
    (hp : Along sem V p s) (hf : Along sem V (f (exec sem p s).2) (exec sem p s).1) : Along sem V (p >>= f) s := by
  induction p generalizing s with
  | ret r => exact hf
  | lock l k ih => exact ih hp hf
  | unlock l k ih => exact ih hp hf
  | act e k ih => exact ⟨hp.1, ih _ hp.2 hf⟩

theorem Along.and {V W : E → σ → Prop} {p : Prog E Ans L ρ} {s : σ} (hV : Along sem V p s) (hW : Along sem W p s) :
    Along sem (fun e s => V e s ∧ W e s) p s := by
  induction p generalizing s with
  | ret r => trivial
  | lock l k ih => exact ih hV hW
  | unlock l k ih => exact ih hV hW
  | act e k ih => exact ⟨⟨hV.1, hW.1⟩, ih _ hV.2 hW.2⟩

/-- What every action satisfying `V` preserves, a program that performs only these
    preserves. -/
theorem Along.exec_inv {V : E → σ → Prop} {I : σ → Prop} (hI : ∀ e s, V e s → I s → I (sem e s).1)
    {p : Prog E Ans L ρ} {s : σ} (hp : Along sem V p s) (hs : I s) : I (exec sem p s).1 := by
  induction p generalizing s with
  | ret r => exact hs
  | lock l k ih => exact ih hp hs
  | unlock l k ih => exact ih hp hs
  | act e k ih => exact ih _ hp.2 (hI e s hp.1 hs)

end Prog

/-! ## Systems of threads -/

/-- A call in progress: its number, what was called, and what is left of its code. -/
structure Running (E : Type) (Ans : E → Type) (L ρ C : Type) where
  id : Nat
  call : C
  prog : Prog E Ans L ρ

/-- `calls` counts the calls made so far, `done` lists those that have returned, with
    their results. -/
structure Sys (E : Type) (Ans : E → Type) (L ρ C σ : Type) where
  shared : σ
  owner : L → Option Nat
  thread : Nat → Option (Running E Ans L ρ C)
  calls : Nat
  done : List (Nat × C × ρ)

/-- Thread `t` calls `c`, or goes on. -/
inductive Move (C : Type) where
  | call (t : Nat) (c : C)
  | step (t : Nat)

/-- The thread that moves. -/
def Move.thread {C : Type} : Move C → Nat
  | .call t _ => t
  | .step t => t

/-- `before m l`: lock `m` may be held when `l` is taken. `needs e l`: action `e` is
    performed with `l` held. `can e a`: action `e` may answer `a`. -/
structure Discipline (E : Type) (Ans : E → Type) (L : Type) where
  before : L → L → Prop
  needs : E → L → Prop
  can : (e : E) → Ans e → Prop

namespace Sys

variable {E : Type} {Ans : E → Type} {L ρ C σ : Type} [DecidableEq L]

def init (s : σ) : Sys E Ans L ρ C σ := ⟨s, fun _ => none, fun _ => none, 0, []⟩

/-- Thread `t` goes on with `p`. -/
def goOn (s : Sys E Ans L ρ C σ) (t : Nat) (r : Running E Ans L ρ C) (p : Prog E Ans L ρ) : Sys E Ans L ρ C σ :=
  { s with thread := Function.update s.thread t (some { r with prog := p }) }

variable (code : Nat → C → Prog E Ans L ρ) (sem : (e : E) → σ → σ × Ans e)

/-- One step, if it is enabled. -/
def step (s : Sys E Ans L ρ C σ) : Move C → Option (Sys E Ans L ρ C σ)
  | .call t c =>
    match s.thread t with
    | some _ => none
    | none =>
      some { s with
        thread := Function.update s.thread t (some ⟨s.calls, c, code s.calls c⟩)
        calls := s.calls + 1 }
  | .step t =>
    match s.thread t with
    | none => none
    | some r =>
      match r.prog with
      | .ret v =>
        some { s with
          thread := Function.update s.thread t none
          done := s.done ++ [(r.id, r.call, v)] }
      | .lock l k =>
        match s.owner l with
        | some _ => none
        | none => some ({ s with owner := Function.update s.owner l (some t) }.goOn t r k)
      | .unlock l k => some ({ s with owner := Function.update s.owner l none }.goOn t r k)
      | .act e k => some ({ s with shared := (sem e s.shared).1 }.goOn t r (k (sem e s.shared).2))

/-- When a step is enabled, and what it does. -/
inductive Stepped (s : Sys E Ans L ρ C σ) : Move C → Sys E Ans L ρ C σ → Prop where
  | call (t : Nat) (c : C) : s.thread t = none →
      Stepped s (.call t c) { s with
        thread := Function.update s.thread t (some ⟨s.calls, c, code s.calls c⟩)
        calls := s.calls + 1 }
  | ret (t : Nat) (r : Running E Ans L ρ C) (v : ρ) : s.thread t = some r → r.prog = .ret v →
      Stepped s (.step t) { s with
        thread := Function.update s.thread t none
        done := s.done ++ [(r.id, r.call, v)] }
  | lock (t : Nat) (r : Running E Ans L ρ C) (l : L) (k : Prog E Ans L ρ) : s.thread t = some r →
      r.prog = .lock l k → s.owner l = none →
      Stepped s (.step t) ({ s with owner := Function.update s.owner l (some t) }.goOn t r k)
  | unlock (t : Nat) (r : Running E Ans L ρ C) (l : L) (k : Prog E Ans L ρ) : s.thread t = some r →
      r.prog = .unlock l k →
      Stepped s (.step t) ({ s with owner := Function.update s.owner l none }.goOn t r k)
  | act (t : Nat) (r : Running E Ans L ρ C) (e : E) (k : Ans e → Prog E Ans L ρ) : s.thread t = some r →
      r.prog = .act e k →
      Stepped s (.step t) ({ s with shared := (sem e s.shared).1 }.goOn t r (k (sem e s.shared).2))

theorem step_cases {s s' : Sys E Ans L ρ C σ} {m : Move C} (h : step code sem s m = some s') :
    Stepped code sem s m s' := by
  cases m with
  | call t c =>
    simp only [step] at h
    split at h
    · cases h
    · next ht => cases h; exact .call t c ht
  | step t =>
    simp only [step] at h
    split at h
    · cases h
    · next r ht =>
      split at h
      · next v hp => cases h; exact .ret t r v ht hp
      · next l k hp =>
        split at h
        · cases h
        · next ho => cases h; exact .lock t r l k ht hp ho
      · next l k hp => cases h; exact .unlock t r l k ht hp
      · next e k hp => cases h; exact .act t r e k ht hp

theorem step_other {s s' : Sys E Ans L ρ C σ} {m : Move C} (h : step code sem s m = some s') {u : Nat}
    (hu : u ≠ m.thread) : s'.thread u = s.thread u := by
  cases step_cases code sem h with
  | call t c ht => exact Function.update_of_ne hu _ _
  | ret t r v ht hp => exact Function.update_of_ne hu _ _
  | lock t r l k ht hp ho => exact Function.update_of_ne hu _ _
  | unlock t r l k ht hp => exact Function.update_of_ne hu _ _
  | act t r e k ht hp => exact Function.update_of_ne hu _ _

theorem steps_other {ok : Sys E Ans L ρ C σ → Move C → Prop} {s s' : Sys E Ans L ρ C σ} {ms : List (Move C)}
    (h : Machine.Steps (step code sem) ok s ms s') {u : Nat} (hu : ∀ m ∈ ms, u ≠ m.thread) :
      s'.thread u = s.thread u := by
  induction h with
  | nil => rfl
  | cons _ hs _ ih =>
    rw [ih (fun m hm => hu m (by simp [hm])), step_other code sem hs (hu _ (by simp))]

/-! ## Results -/

/-- The result that the call of thread `t` is about to return. -/
def returning (s : Sys E Ans L ρ C σ) (t : Nat) : Option ρ :=
  match s.thread t with
  | some ⟨_, _, .ret v⟩ => some v
  | _ => none

omit [DecidableEq L] in
theorem returning_eq_some {s : Sys E Ans L ρ C σ} {t : Nat} {v : ρ} :
    s.returning t = some v ↔ ∃ r, s.thread t = some r ∧ r.prog = .ret v := by
  unfold returning
  constructor
  · intro h
    split at h
    · next id c w ht =>
      cases h
      exact ⟨_, ht, rfl⟩
    · cases h
  · rintro ⟨⟨id, c, prog⟩, ht, rfl⟩
    rw [ht]

/-- The calls in progress end with results that satisfy `P` of the call. -/
def Heading (can : (e : E) → Ans e → Prop) (P : C → ρ → Prop) (s : Sys E Ans L ρ C σ) : Prop :=
  ∀ t r, s.thread t = some r → r.prog.Ends can (P r.call)

/-- Where the code of every call ends so, it stays that way, and what returns satisfies `P`. -/
theorem Heading.step {can : (e : E) → Ans e → Prop} {P : C → ρ → Prop}
    (hcode : ∀ i c, (code i c).Ends can (P c)) {s s' : Sys E Ans L ρ C σ} {m : Move C} (h : s.Heading can P)
    (hcan : ∀ e, can e (sem e s.shared).2) (hs : step code sem s m = some s') :
      s'.Heading can P ∧ ∀ y ∈ s'.done, y ∈ s.done ∨ P y.2.1 y.2.2 := by
  -- thread `t` goes on with `q`
  have hthread : ∀ (t : Nat) (q : Option (Running E Ans L ρ C)), (∀ r, q = some r → r.prog.Ends can (P r.call)) →
      ∀ u r, Function.update s.thread t q u = some r → r.prog.Ends can (P r.call) := by
    intro t q hq u r hu
    by_cases hut : u = t
    · rw [hut, Function.update_self] at hu
      exact hq r hu
    · rw [Function.update_of_ne hut] at hu
      exact h u r hu
  cases step_cases code sem hs with
  | call t c ht => exact ⟨hthread t _ (fun r hr => by cases hr; exact hcode _ _), fun y hy => Or.inl hy⟩
  | ret t r v ht hp =>
    refine ⟨hthread t none (fun r hr => by cases hr), fun y hy => ?_⟩
    rcases List.mem_append.1 hy with hy | hy
    · exact Or.inl hy
    · have hends := h t r ht
      rw [hp] at hends
      rw [List.mem_singleton.1 hy]
      exact Or.inr hends
  | lock t r l k ht hp ho =>
    have hends := h t r ht
    rw [hp] at hends
    exact ⟨hthread t _ (fun q hq => by cases hq; exact hends), fun y hy => Or.inl hy⟩
  | unlock t r l k ht hp =>
    have hends := h t r ht
    rw [hp] at hends
    exact ⟨hthread t _ (fun q hq => by cases hq; exact hends), fun y hy => Or.inl hy⟩
  | act t r e k ht hp =>
    have hends := h t r ht
    rw [hp] at hends
    exact ⟨hthread t _ (fun q hq => by cases hq; exact hends _ (hcan e)), fun y hy => Or.inl hy⟩

theorem ends_inv {can : (e : E) → Ans e → Prop} {P : C → ρ → Prop} (hcode : ∀ i c, (code i c).Ends can (P c))
    (hcan : ∀ e x, can e (sem e x).2) {ok : Sys E Ans L ρ C σ → Move C → Prop} {x : σ} {s : Sys E Ans L ρ C σ}
    (h : Machine.Reach (step code sem) ok (init x) s) : s.Heading can P ∧ ∀ y ∈ s.done, P y.2.1 y.2.2 := by
  refine h.inv (I := fun s => s.Heading can P ∧ ∀ y ∈ s.done, P y.2.1 y.2.2) ?_
    ⟨fun t r ht => (by cases ht), fun y hy => (by cases hy)⟩
  rintro s m s' ⟨hrun, hdone⟩ - hs
  obtain ⟨hrun', hnew⟩ := hrun.step code sem hcode (fun e => hcan e _) hs
  exact ⟨hrun', fun y hy => (hnew y hy).elim (hdone y) (fun hP => hP)⟩

/-- What is known of the calls that are made is known of those in progress and of those that
    have returned. -/
theorem called_inv {Q : C → Prop} {ok : Sys E Ans L ρ C σ → Move C → Prop}
    (hok : ∀ s t c, ok s (.call t c) → Q c) {x : σ} {s : Sys E Ans L ρ C σ}
    (h : Machine.Reach (step code sem) ok (init x) s) :
    (∀ t r, s.thread t = some r → Q r.call) ∧ ∀ y ∈ s.done, Q y.2.1 := by
  refine h.inv (I := fun s => (∀ t r, s.thread t = some r → Q r.call) ∧ ∀ y ∈ s.done, Q y.2.1) ?_
    ⟨fun t r ht => (by cases ht), fun y hy => (by cases hy)⟩
  rintro s m s' ⟨hrun, hdone⟩ hm hs
  have hthread : ∀ (t : Nat) (q : Option (Running E Ans L ρ C)), (∀ r, q = some r → Q r.call) →
      ∀ u r, Function.update s.thread t q u = some r → Q r.call := by
    intro t q hq u r hu
    by_cases hut : u = t
    · rw [hut, Function.update_self] at hu
      exact hq r hu
    · rw [Function.update_of_ne hut] at hu
      exact hrun u r hu
  cases step_cases code sem hs with
  | call t c ht => exact ⟨hthread t _ (fun r hr => by cases hr; exact hok s t c hm), hdone⟩
  | ret t r v ht hp =>
    refine ⟨hthread t none (fun r hr => by cases hr), fun y hy => ?_⟩
    rcases List.mem_append.1 hy with hy | hy
    · exact hdone y hy
    · rw [List.mem_singleton.1 hy]
      exact hrun t r ht
  | lock t r l k ht hp ho => exact ⟨hthread t _ (fun q hq => by cases hq; exact hrun t r ht), hdone⟩
  | unlock t r l k ht hp => exact ⟨hthread t _ (fun q hq => by cases hq; exact hrun t r ht), hdone⟩
  | act t r e k ht hp => exact ⟨hthread t _ (fun q hq => by cases hq; exact hrun t r ht), hdone⟩

/-! ## The numbers of the calls -/

/-- No two calls have the same number. -/
structure Numbered (s : Sys E Ans L ρ C σ) : Prop where
  running : ∀ t r, s.thread t = some r → r.id < s.calls
  inj : ∀ t u r q, s.thread t = some r → s.thread u = some q → r.id = q.id → t = u
  done : ∀ x ∈ s.done, x.1 < s.calls
  apart : ∀ x ∈ s.done, ∀ t r, s.thread t = some r → r.id ≠ x.1
  nodup : (s.done.map Prod.fst).Nodup

omit [DecidableEq L] in
theorem Numbered.init (x : σ) : Numbered (init x : Sys E Ans L ρ C σ) :=
  ⟨fun _ _ h => by simp [Sys.init] at h, fun _ _ _ _ h => by simp [Sys.init] at h, fun _ h => by simp [Sys.init] at h,
    fun _ h => by simp [Sys.init] at h, List.nodup_nil⟩

omit [DecidableEq L] in
theorem Numbered.goOn {s : Sys E Ans L ρ C σ} (h : Numbered s) {t : Nat} {r : Running E Ans L ρ C}
    (ht : s.thread t = some r) (x : σ) (own : L → Option Nat) (p : Prog E Ans L ρ) :
    Numbered (Sys.goOn { s with shared := x, owner := own } t r p) := by
  have hcall : ∀ u q, (Sys.goOn { s with shared := x, owner := own } t r p).thread u = some q →
      ∃ q', s.thread u = some q' ∧ q'.id = q.id := by
    intro u q hu
    simp only [Sys.goOn, Function.update_apply] at hu
    split at hu
    · next heq => cases hu; subst heq; exact ⟨r, ht, rfl⟩
    · exact ⟨q, hu, rfl⟩
  refine ⟨fun u q hu => ?_, fun u v q q' hu hv heq => ?_, h.done, fun y hy u q hu => ?_, h.nodup⟩
  · obtain ⟨q', hq', hid⟩ := hcall u q hu
    exact hid ▸ h.running u q' hq'
  · obtain ⟨q₁, hq₁, hid₁⟩ := hcall u q hu
    obtain ⟨q₂, hq₂, hid₂⟩ := hcall v q' hv
    exact h.inj u v q₁ q₂ hq₁ hq₂ (by omega)
  · obtain ⟨q', hq', hid⟩ := hcall u q hu
    exact hid ▸ h.apart y hy u q' hq'

theorem Numbered.step {s s' : Sys E Ans L ρ C σ} {m : Move C} (h : Numbered s) (hs : step code sem s m = some s') :
    Numbered s' := by
  cases step_cases code sem hs with
  | call t c ht =>
    refine ⟨fun u q hu => ?_, fun u v q q' hu hv heq => ?_, fun y hy => ?_, fun y hy u q hu => ?_, h.nodup⟩
    · simp only [Function.update_apply] at hu
      split at hu
      · cases hu; exact Nat.lt_succ_self _
      · exact Nat.lt_succ_of_lt (h.running u q hu)
    · simp only [Function.update_apply] at hu hv
      split at hu <;> split at hv
      · next hut hvt => rw [hut, hvt]
      · cases hu
        exact absurd heq (Nat.ne_of_gt (h.running v q' hv))
      · cases hv
        exact absurd heq (Nat.ne_of_lt (h.running u q hu))
      · exact h.inj u v q q' hu hv heq
    · exact Nat.lt_succ_of_lt (h.done y hy)
    · simp only [Function.update_apply] at hu
      split at hu
      · cases hu; exact Nat.ne_of_gt (h.done y hy)
      · exact h.apart y hy u q hu
  | ret t r v ht hp =>
    have hother : ∀ u q, Function.update s.thread t none u = some q → u ≠ t ∧ s.thread u = some q := by
      intro u q hu
      simp only [Function.update_apply] at hu
      split at hu
      · cases hu
      · next hne => exact ⟨hne, hu⟩
    refine ⟨fun u q hu => h.running u q (hother u q hu).2, fun u w q q' hu hw heq =>
      h.inj u w q q' (hother u q hu).2 (hother w q' hw).2 heq, fun y hy => ?_, fun y hy u q hu => ?_, ?_⟩
    · rcases List.mem_append.1 hy with hy | hy
      · exact h.done y hy
      · rw [List.mem_singleton.1 hy]; exact h.running t r ht
    · obtain ⟨hne, hu⟩ := hother u q hu
      rcases List.mem_append.1 hy with hy | hy
      · exact h.apart y hy u q hu
      · rw [List.mem_singleton.1 hy]
        exact fun heq => hne (h.inj u t q r hu ht heq)
    · rw [List.map_append, List.nodup_append]
      refine ⟨h.nodup, by simp, fun i hi j hj heq => ?_⟩
      obtain ⟨y, hy, rfl⟩ := List.mem_map.1 hi
      simp only [List.map_cons, List.map_nil, List.mem_singleton] at hj
      exact h.apart y hy t r ht (by omega)
  | lock t r l k ht hp ho => exact h.goOn ht s.shared _ k
  | unlock t r l k ht hp => exact h.goOn ht s.shared _ k
  | act t r e k ht hp => exact h.goOn ht _ s.owner _

/-! ## Disciplines -/

/-- The program keeps to the discipline, and turns the locks `held` into `held'`. -/
def Follows (d : Discipline E Ans L) : List L → Prog E Ans L ρ → List L → Prop
  | held, .ret _, held' => held = held'
  | held, .lock l k, held' => (∀ m ∈ held, d.before m l) ∧ Follows d (l :: held) k held'
  | held, .unlock l k, held' => l ∈ held ∧ Follows d (held.erase l) k held'
  | held, .act e k, held' => (∀ l, d.needs e l → l ∈ held) ∧ ∀ a, d.can e a → Follows d held (k a) held'

variable (d : Discipline E Ans L)

theorem Follows.ret (held : List L) (r : ρ) : Follows d held (.ret r : Prog E Ans L ρ) held := rfl

theorem Follows.unlock_head {held held' : List L} {l : L} {p : Prog E Ans L ρ} (hp : Follows d held p held') :
    Follows d (l :: held) (.unlock l p) held' :=
  ⟨List.mem_cons_self, by rwa [List.erase_cons_head]⟩

theorem Follows.bind {τ : Type} {held held' held'' : List L} {p : Prog E Ans L ρ} {f : ρ → Prog E Ans L τ}
    (hp : Follows d held p held') (hf : ∀ r, Follows d held' (f r) held'') : Follows d held (p >>= f) held'' := by
  induction p generalizing held with
  | ret r => cases hp; exact hf r
  | lock l k ih => exact ⟨hp.1, ih hp.2⟩
  | unlock l k ih => exact ⟨hp.1, ih hp.2⟩
  | act e k ih => exact ⟨hp.1, fun a ha => ih a (hp.2 a ha)⟩

/-- The locks each thread holds. -/
structure Holding (held : Nat → List L) (s : Sys E Ans L ρ C σ) : Prop where
  owner : ∀ l t, s.owner l = some t ↔ l ∈ held t
  nodup : ∀ t, (held t).Nodup
  idle : ∀ t, s.thread t = none → held t = []
  running : ∀ t r, s.thread t = some r → Follows d (held t) r.prog []

/-- The action that comes next gives an answer that the discipline admits. -/
def Admits (s : Sys E Ans L ρ C σ) : Move C → Prop
  | .call _ _ => True
  | .step t => ∀ r e k, s.thread t = some r → r.prog = .act e k → d.can e (sem e s.shared).2

variable {code sem d}

namespace Holding

variable {held : Nat → List L} {s : Sys E Ans L ρ C σ} {t : Nat} {r : Running E Ans L ρ C}

theorem unlock_owner (hi : Holding d held s) {l : L} {k : Prog E Ans L ρ} (ht : s.thread t = some r)
    (hp : r.prog = .unlock l k) : s.owner l = some t := by
  have hrun := hi.running t r ht
  rw [hp] at hrun
  exact (hi.owner l t).2 hrun.1

end Holding

theorem Holding.step {held : Nat → List L} {s s' : Sys E Ans L ρ C σ} {m : Move C}
    (hcode : ∀ i c, Follows d [] (code i c) []) (hi : Holding d held s)
    (h : step code sem s m = some s') (hok : Admits sem d s m) : ∃ held', Holding d held' s' := by
  -- a step of `t` that leaves the owners of locks alone
  have hsame : ∀ (t : Nat) (x : σ) (q : Option (Running E Ans L ρ C)) (n : Nat) (fin : List (Nat × C × ρ)),
      (q = none → held t = []) → (∀ r, q = some r → Follows d (held t) r.prog []) →
      Holding d held ⟨x, s.owner, Function.update s.thread t q, n, fin⟩ := by
    intro t x q n fin hnone hsome
    refine ⟨hi.owner, hi.nodup, fun u hu => ?_, fun u r hu => ?_⟩
    · by_cases hut : u = t
      · subst hut; exact hnone (by simpa using hu)
      · exact hi.idle u (by simpa [hut] using hu)
    · by_cases hut : u = t
      · subst hut; exact hsome r (by simpa using hu)
      · exact hi.running u r (by simpa [hut] using hu)
  cases step_cases code sem h with
  | call t c ht =>
    refine ⟨held, hsame t _ _ _ _ (fun hq => by cases hq) (fun r hr => ?_)⟩
    cases hr
    rw [hi.idle t ht]
    exact hcode _ _
  | ret t r v ht hp =>
    refine ⟨held, hsame t _ _ _ _ (fun _ => ?_) (fun r hr => by cases hr)⟩
    have := hi.running t r ht
    rw [hp] at this
    exact this
  | act t r e k ht hp =>
    refine ⟨held, hsame t _ _ _ _ (fun hq => by cases hq) (fun r' hr => ?_)⟩
    cases hr
    have hrun := hi.running t r ht
    rw [hp] at hrun
    exact hrun.2 _ (hok r e k ht hp)
  | lock t r l k ht hp ho =>
    have hrun := hi.running t r ht
    rw [hp] at hrun
    have hfree : ∀ u, l ∉ held u := fun u hu => by
      rw [(hi.owner l u).2 hu] at ho; cases ho
    refine ⟨Function.update held t (l :: held t), fun m u => ?_, fun u => ?_, fun u hu => ?_, fun u q hu => ?_⟩
    · by_cases hml : m = l
      · subst hml
        by_cases hut : u = t
        · subst hut; simp [goOn]
        · simp [goOn, hut, Ne.symm hut, hfree u]
      · by_cases hut : u = t
        · subst hut; simp [goOn, hml, hi.owner]
        · simp [goOn, hml, hut, hi.owner]
    · by_cases hut : u = t
      · subst hut; simp [hfree u, hi.nodup u]
      · simp [hut, hi.nodup u]
    · by_cases hut : u = t
      · subst hut; simp [goOn] at hu
      · simpa [hut] using hi.idle u (by simpa [goOn, hut] using hu)
    · by_cases hut : u = t
      · subst hut
        simp only [goOn, Function.update_self, Option.some.injEq] at hu
        subst hu
        simpa using hrun.2
      · simpa [hut] using hi.running u q (by simpa [goOn, hut] using hu)
  | unlock t r l k ht hp =>
    have hrun := hi.running t r ht
    rw [hp] at hrun
    have hheld : l ∈ held t := hrun.1
    have hother : ∀ u, u ≠ t → l ∉ held u := fun u hu hl => by
      have h₁ := (hi.owner l u).2 hl
      rw [(hi.owner l t).2 hheld] at h₁
      exact hu (Option.some.inj h₁).symm
    refine ⟨Function.update held t ((held t).erase l), fun m u => ?_, fun u => ?_, fun u hu => ?_, fun u q hu => ?_⟩
    · by_cases hml : m = l
      · subst hml
        by_cases hut : u = t
        · subst hut; simp [goOn, (hi.nodup u).mem_erase_iff]
        · simp [goOn, hut, hother u hut]
      · by_cases hut : u = t
        · subst hut; simp [goOn, hml, hi.owner, List.mem_erase_of_ne hml]
        · simp [goOn, hml, hut, hi.owner]
    · by_cases hut : u = t
      · subst hut; simpa using (hi.nodup u).erase l
      · simp [hut, hi.nodup u]
    · by_cases hut : u = t
      · subst hut; simp [goOn] at hu
      · simpa [hut] using hi.idle u (by simpa [goOn, hut] using hu)
    · by_cases hut : u = t
      · subst hut
        simp only [goOn, Function.update_self, Option.some.injEq] at hu
        subst hu
        simpa using hrun.2
      · simpa [hut] using hi.running u q (by simpa [goOn, hut] using hu)

/-- Where all code keeps to the discipline, the owners of locks are known in every
    reachable state. -/
theorem follows_inv (hcode : ∀ i c, Follows d [] (code i c) []) {x : σ} {s : Sys E Ans L ρ C σ}
    (h : Machine.Reach (step code sem) (Admits sem d) (init x) s) : ∃ held, Holding d held s := by
  refine h.inv (I := fun s => ∃ held, Holding d held s) ?_ ⟨fun _ => [], ?_⟩
  · rintro s m s' ⟨held, hi⟩ hok hs
    exact hi.step hcode hs hok
  · exact ⟨fun l t => by simp [init], fun _ => List.nodup_nil, fun _ _ => rfl, fun t r hr => by simp [init] at hr⟩

/-- The lock a thread takes next. -/
def wants (s : Sys E Ans L ρ C σ) (t : Nat) : Option L :=
  match s.thread t with
  | some ⟨_, _, .lock l _⟩ => some l
  | _ => none

omit [DecidableEq L] in
theorem wants_eq_some {s : Sys E Ans L ρ C σ} {t : Nat} {l : L} (h : s.wants t = some l) :
    ∃ r k, s.thread t = some r ∧ r.prog = .lock l k := by
  unfold wants at h
  split at h
  · next id c m k ht =>
    cases h
    exact ⟨_, k, ht, rfl⟩
  · cases h

/-- Each thread of the set waits for a lock that a thread of the set owns. -/
def Deadlocked (s : Sys E Ans L ρ C σ) (S : Set Nat) : Prop :=
  S.Nonempty ∧ ∀ t ∈ S, ∃ l u, s.wants t = some l ∧ s.owner l = some u ∧ u ∈ S

/-- Threads that hold their locks in order do not deadlock: along a chain of waiting
    threads the rank of the lock wanted grows. -/
theorem Holding.not_deadlocked {held : Nat → List L} {s : Sys E Ans L ρ C σ} (hi : Holding d held s) {rank : L → Nat}
    (hrank : ∀ m l, d.before m l → rank m < rank l) {N : Nat} (hN : ∀ l, rank l ≤ N) (S : Set Nat) :
      ¬ s.Deadlocked S := by
  rintro ⟨⟨t₀, ht₀⟩, hS⟩
  have hchain : ∀ n, ∃ t ∈ S, ∃ l, s.wants t = some l ∧ n ≤ rank l := by
    intro n
    induction n with
    | zero =>
      obtain ⟨l, -, hl, -, -⟩ := hS t₀ ht₀
      exact ⟨t₀, ht₀, l, hl, Nat.zero_le _⟩
    | succ n ih =>
      obtain ⟨t, ht, l, hl, hn⟩ := ih
      obtain ⟨l', u, hl', ho, hu⟩ := hS t ht
      rw [hl] at hl'; cases hl'
      obtain ⟨l₂, -, hl₂, -, -⟩ := hS u hu
      obtain ⟨r, k, hr, hp⟩ := wants_eq_some hl₂
      have hrun := hi.running u r hr
      rw [hp] at hrun
      have := hrank _ _ (hrun.1 l ((hi.owner l u).1 ho))
      exact ⟨u, hu, l₂, hl₂, by omega⟩
  obtain ⟨t, -, l, -, hn⟩ := hchain (N + 1)
  have := hN l
  omega

theorem follows_no_deadlock (hcode : ∀ i c, Follows d [] (code i c) []) {rank : L → Nat}
    (hrank : ∀ m l, d.before m l → rank m < rank l) {N : Nat} (hN : ∀ l, rank l ≤ N) {x : σ}
    {s : Sys E Ans L ρ C σ} (h : Machine.Reach (step code sem) (Admits sem d) (init x) s) (S : Set Nat) :
      ¬ s.Deadlocked S := by
  obtain ⟨held, hi⟩ := follows_inv hcode h
  exact hi.not_deadlocked hrank hN S

end Sys

end Threads
