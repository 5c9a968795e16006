import Bius.Lib.Machine
import Bius.TeardownEffects

/- The records of a run against the places of the requests, and what `remove_block_device`
   leaves behind. A submission is ended once at most, and one that has been accepted and
   not ended is somewhere (`Ledger`). When `remove_block_device` returns, nobody holds a
   request any more but threads that are about to queue one, so all that was accepted has
   been ended, provided that nothing is queued once its loop has come to the end of the
   pending list (`removal_ends_all`). -/
namespace Bius.Teardown

open Dlist Machine

variable {sema : Nat → Nat → UInt8} {s s' : State} {v v' : View} {t : Tid} {r : Ref} {act : Act}

/-- The records agree with the places. -/
structure Ledger (s : State) (v : View) : Prop where
  unique : (s.ended.map Ended.serial).Nodup
  past : ∀ e ∈ s.ended, e.serial < s.nextSerial
  live : ∀ r, v.place r ≠ .free → (s.req r).serial < s.nextSerial ∧
    ∀ e ∈ s.ended, e.serial ≠ (s.req r).serial
  inj : ∀ r r', v.place r ≠ .free → v.place r' ≠ .free → (s.req r).serial = (s.req r').serial → r = r'
  accepted : ∀ x ∈ s.accepted, (∃ e ∈ s.ended, e.ref = .slot x.1 ∧ e.serial = x.2) ∨
    v.place (.slot x.1) ≠ .free ∧ (s.req (.slot x.1)).serial = x.2 ∧ ∀ u, s.call u ≠ .queueing (.slot x.1)
  released : ∀ e ∈ s.ended, ∀ c, e.who = .release c → s.opened c = false

theorem EndsBy.ref {e : Ended} (h : EndsBy s t r act e) : e.ref = r := by
  cases h <;> rfl

theorem EndsBy.serial {e : Ended} (h : EndsBy s t r act e) : e.serial = (s.req r).serial := by
  cases h <;> rfl

/-- No request is submitted or ended, and those that are somewhere stay somewhere. -/
theorem Ledger.same (h : Ledger s v) (he : Effect s s' v v' t act)
    (hfree : ∀ r, v'.place r = .free ↔ v.place r = .free) (hended : s'.ended = s.ended)
    (hacc : ∀ x ∈ s'.accepted, (∃ e ∈ s'.ended, e.ref = .slot x.1 ∧ e.serial = x.2) ∨
      v'.place (.slot x.1) ≠ .free ∧ (s'.req (.slot x.1)).serial = x.2 ∧
        ∀ u, s'.call u ≠ .queueing (.slot x.1)) : Ledger s' v' := by
  have hsome : ∀ r, v'.place r ≠ .free → v.place r ≠ .free := fun r hr hf => hr ((hfree r).2 hf)
  refine ⟨by rw [hended]; exact h.unique, fun e hmem => ?_, fun r hr => ?_, fun r r' hr hr' heq => ?_, hacc,
    fun e hmem c hwho => ?_⟩
  · rw [hended] at hmem
    exact Nat.lt_of_lt_of_le (h.past e hmem) he.next
  · rw [he.serial r (hsome r hr), hended]
    obtain ⟨h₁, h₂⟩ := h.live r (hsome r hr)
    exact ⟨Nat.lt_of_lt_of_le h₁ he.next, h₂⟩
  · rw [he.serial r (hsome r hr), he.serial r' (hsome r' hr')] at heq
    exact h.inj r r' (hsome r hr) (hsome r' hr') heq
  · rw [hended] at hmem
    exact he.closed c (h.released e hmem c hwho)

theorem ledger_step (h : Ledger s v) (hsound : Sound sema s v) (he : Effect s s' v v' t act) : Ledger s' v' := by
  have hb := hsound.books
  cases he.change with
  | keep hfree hq hacc hended =>
    refine h.same he hfree hended (fun x hx => ?_)
    rw [hacc] at hx
    rcases h.accepted x hx with hdone | ⟨h₁, h₂, h₃⟩
    · exact .inl (by rw [hended]; exact hdone)
    · exact .inr ⟨fun hf => h₁ ((hfree _).1 hf), (he.serial _ h₁).trans h₂, fun u hu => h₃ u ((hq u _).1 hu)⟩
  | insert r ht hfree hq hacc hended =>
    have hplace := (hb.held r t).2 (by rw [ht]; rfl)
    have hne : v.place r ≠ .free := by rw [hplace]; simp
    refine h.same he hfree hended (fun x hx => ?_)
    rw [hacc, List.mem_append] at hx
    rcases hx with hx | hx
    · rcases h.accepted x hx with hdone | ⟨h₁, h₂, h₃⟩
      · exact .inl (by rw [hended]; exact hdone)
      · exact .inr ⟨fun hf => h₁ ((hfree _).1 hf), (he.serial _ h₁).trans h₂,
          fun u hu => h₃ u ((hq u _).1 hu).1⟩
    · cases r with
      | zones k => cases hx
      | slot p =>
        rw [List.mem_singleton.1 hx]
        refine .inr ⟨fun hf => hne ((hfree _).1 hf), he.serial _ hne, fun u hu => ?_⟩
        -- nobody else can be about to queue the request that `t` held
        obtain ⟨hu, hut⟩ := (hq u _).1 hu
        have := (hb.held _ u).2 (by rw [hu]; rfl)
        rw [hplace] at this
        cases this
        exact hut rfl
  | submit r hr _ hfree ht hserial hnext hacc hended =>
    have hcases : ∀ r', v'.place r' ≠ .free → r' = r ∨ r' ≠ r ∧ v.place r' ≠ .free := by
      intro r' hr'
      by_cases heq : r' = r
      · exact .inl heq
      · exact .inr ⟨heq, fun hf => hr' ((hfree r').2 ⟨hf, heq⟩)⟩
    refine ⟨by rw [hended]; exact h.unique, fun e hmem => ?_, fun r' hr' => ?_, fun r₁ r₂ h₁ h₂ heq => ?_,
      fun x hx => ?_, fun e hmem c hwho => he.closed c (h.released e (hended ▸ hmem) c hwho)⟩
    · rw [hended] at hmem
      exact Nat.lt_of_lt_of_le (h.past e hmem) he.next
    · rw [hended]
      rcases hcases r' hr' with rfl | ⟨-, hlive⟩
      · rw [hserial, hnext]
        exact ⟨Nat.lt_succ_self _, fun e hmem => Nat.ne_of_lt (h.past e hmem)⟩
      · rw [he.serial r' hlive]
        obtain ⟨h₁, h₂⟩ := h.live r' hlive
        exact ⟨Nat.lt_of_lt_of_le h₁ he.next, h₂⟩
    · rcases hcases r₁ h₁ with rfl | ⟨-, hlive₁⟩ <;> rcases hcases r₂ h₂ with rfl | ⟨-, hlive₂⟩
      · rfl
      · rw [hserial, he.serial r₂ hlive₂] at heq
        exact absurd (h.live r₂ hlive₂).1 (by omega)
      · rw [hserial, he.serial r₁ hlive₁] at heq
        exact absurd (h.live r₁ hlive₁).1 (by omega)
      · rw [he.serial r₁ hlive₁, he.serial r₂ hlive₂] at heq
        exact h.inj r₁ r₂ hlive₁ hlive₂ heq
    · rw [hacc] at hx
      rcases h.accepted x hx with hdone | ⟨h₁, h₂, h₃⟩
      · exact .inl (by rw [hended]; exact hdone)
      · refine .inr ⟨fun hf => h₁ ((hfree _).1 hf).1, (he.serial _ h₁).trans h₂, fun u hu => ?_⟩
        by_cases hut : u = t
        · rw [hut, ht] at hu
          cases hu
          exact h₁ hr
        · exact h₃ u (he.others u hut ▸ hu)
  | ended r e hby hr hnq hfree hq hacc hended =>
    have hlive : ∀ r', v'.place r' ≠ .free → v.place r' ≠ .free ∧ r' ≠ r := fun r' hr' =>
      ⟨fun hf => hr' ((hfree r').2 (.inl hf)), fun heq => hr' ((hfree r').2 (.inr heq))⟩
    obtain ⟨hlt, hfresh⟩ := h.live r hr
    refine ⟨?_, fun e' hmem => ?_, fun r' hr' => ?_, fun r₁ r₂ h₁ h₂ heq => ?_, fun x hx => ?_,
      fun e' hmem c hwho => he.closed c ?_⟩
    · rw [hended, List.map_append, List.map_singleton, List.nodup_append]
      refine ⟨h.unique, by simp, fun n hn m hm heq => ?_⟩
      obtain ⟨e', hmem, rfl⟩ := List.mem_map.1 hn
      rw [List.mem_singleton.1 hm, hby.serial] at heq
      exact hfresh e' hmem heq
    · rw [hended, List.mem_append, List.mem_singleton] at hmem
      rcases hmem with hmem | rfl
      · exact Nat.lt_of_lt_of_le (h.past e' hmem) he.next
      · rw [hby.serial]
        exact Nat.lt_of_lt_of_le hlt he.next
    · obtain ⟨hne, hrr⟩ := hlive r' hr'
      obtain ⟨h₁, h₂⟩ := h.live r' hne
      rw [he.serial r' hne, hended]
      refine ⟨Nat.lt_of_lt_of_le h₁ he.next, fun e' hmem => ?_⟩
      rcases List.mem_append.1 hmem with hmem | hmem
      · exact h₂ e' hmem
      · rw [List.mem_singleton.1 hmem, hby.serial]
        exact fun heq => hrr (h.inj r' r hne hr heq.symm)
    · obtain ⟨hne₁, -⟩ := hlive r₁ h₁
      obtain ⟨hne₂, -⟩ := hlive r₂ h₂
      rw [he.serial r₁ hne₁, he.serial r₂ hne₂] at heq
      exact h.inj r₁ r₂ hne₁ hne₂ heq
    · rw [hacc] at hx
      rcases h.accepted x hx with ⟨e', hmem, hx'⟩ | ⟨h₁, h₂, h₃⟩
      · exact .inl ⟨e', by rw [hended]; exact List.mem_append_left _ hmem, hx'⟩
      · by_cases heq : Ref.slot x.1 = r
        · exact .inl ⟨e, by rw [hended]; simp, hby.ref.trans heq.symm, hby.serial.trans (heq ▸ h₂)⟩
        · refine .inr ⟨fun hf => ?_, (he.serial _ h₁).trans h₂, fun u hu => h₃ u ((hq u _).1 hu)⟩
          rcases (hfree _).1 hf with hf | hf
          · exact h₁ hf
          · exact heq hf
    · rw [hended, List.mem_append, List.mem_singleton] at hmem
      rcases hmem with hmem | rfl
      · exact h.released e' hmem c hwho
      · cases hby with
        | release c' hcall =>
          cases hwho
          exact hsound.points.closes t c (by rw [hcall]; rfl)
        | _ => cases hwho

/-! ## Runs -/

/-- Nothing has been submitted. -/
def View.init : View := ⟨fun _ => .free, [], fun _ => []⟩

theorem sound_init : Sound sema .init .init := by
  have hring : ∀ n : Node, Ring State.init.links n [] := fun n => ⟨rfl, rfl, by simp⟩
  refine ⟨Points.init, ⟨hring _, fun c _ => hring _, ?_⟩,
    ⟨fun r => ?_, fun c r => ?_, fun c => List.nodup_nil, fun r t => ?_, fun r hr => absurd rfl hr,
      fun p _ => rfl, ?_⟩,
    ⟨fun c hc => absurd rfl hc, fun c ho => (by cases ho), fun t c n ht => ?_, fun t c r ht => (by cases ht),
      fun t c ht => (by cases ht)⟩,
    ⟨fun t ht => (by cases ht), fun t n ht => (by cases ht), fun t n ht => (by cases ht)⟩, rfl⟩
  · rintro c n ⟨t, ht | ⟨ht, -⟩⟩ <;> cases ht
  · simp [View.init, State.Drained, State.init]
  · simp [View.init]
  · simp [View.init, State.init, Point.holds]
  · rintro p ⟨e, he, -⟩
    cases he
  · rcases ht with ht | ht <;> cases ht

theorem ledger_init : Ledger .init .init :=
  ⟨List.nodup_nil, fun _ he => (by cases he), fun _ hr => absurd rfl hr, fun _ _ hr => absurd rfl hr,
    fun _ hx => (by cases hx), fun _ he => (by cases he)⟩

/-- The steps of a run in which nobody is in a hurry. -/
def Calm (s : State) (act : Act) : Prop := Vfs s act ∧ Unhurried s act

/-- Each request is in one place, and the records agree. -/
def Standing (sema : Nat → Nat → UInt8) (s : State) (v : View) : Prop := Sound sema s v ∧ Ledger s v

theorem standing_step (h : Standing sema s v) (hc : Calm s act) (hs : step sema s act = some s') :
    ∃ v' t, Standing sema s' v' ∧ Effect s s' v v' t act := by
  obtain ⟨v', t, h', he⟩ := sound_step h.1 hc.1 hc.2 hs
  exact ⟨v', t, ⟨h', ledger_step h.2 h.1 he⟩, he⟩

/-- **What every run preserves.** -/
theorem standing_reach (h : Reach (step sema) Calm .init s) : ∃ v, Standing sema s v := by
  refine h.inv (I := fun s => ∃ v, Standing sema s v) (fun s act s' hs hc hst => ?_) ⟨_, sound_init, ledger_init⟩
  obtain ⟨v, hv⟩ := hs
  obtain ⟨v', -, hv', -⟩ := standing_step hv hc hst
  exact ⟨v', hv'⟩

/-! ## Removing the device -/

/-- The loop of `remove_block_device` has come to the end of the pending list. -/
def Point.drained : Point → Bool
  | .remAt .pending | .remDel | .removed => true
  | _ => false

/-- Nothing is queued once that loop has come to the end of the pending list. -/
def InTime (s : State) : Act → Prop
  | .insert _ => ∀ u, (s.call u).drained = false
  | _ => True

/-- Nothing is left behind: every block request that was accepted has been ended exactly
    once, and what is still linked on the pending list has been ended by
    `remove_block_device`. -/
structure NothingLeft (s : State) : Prop where
  ended : ∀ x ∈ s.accepted, (s.ended.map Ended.serial).count x.2 = 1 ∧
    ∃ e ∈ s.ended, e.ref = .slot x.1 ∧ e.serial = x.2
  pending : ∃ xs : List Ref, Ring s.links .pending (xs.map .req) ∧
    ∀ r ∈ xs, ∃ e ∈ s.ended, e.ref = r ∧ e.who = .drain

/-- No request is pending when the loop finds the end of the list. -/
theorem Sound.dry (h : Sound sema s v) {n : Node} (ht : s.call t = .remNext n) (hn : s.links.next n = .pending) (r : Ref) :
    v.place r ≠ .pending := by
  intro hr
  obtain ⟨a, b, hab, hlast, ha, -⟩ := h.drain.next t n ht
  have hafter : s.links.next n = ((b.map Node.req) ++ [Node.pending]).head (by simp) := by
    have hpath := h.rings.pend.next
    rw [hab, List.map_append] at hpath
    rw [hlast]
    exact hpath.after
  obtain rfl : b = [] := by
    cases b with
    | nil => rfl
    | cons r' b => rw [hn] at hafter; cases hafter
  have hmem : r ∈ a := by
    have := (h.books.pend_iff r).2 (.inl hr)
    rwa [hab, List.append_nil] at this
  obtain ⟨p, rfl, hd⟩ := ha r hmem
  exact (h.books.loose_not (h.books.drained p hd).2).1 hr

theorem drained_from (hs : step sema s act = some s') {u : Tid} (hu : (s'.call u).drained = true) :
    (s.call u).drained = true ∨ ∃ n, s.call u = .remNext n ∧ s.links.next n = .pending := by
  rcases step_call hs u with heq | hg
  · exact .inl (heq ▸ hu)
  · generalize s.call u = x at hg ⊢
    generalize s'.call u = y at hg hu
    cases hg with
    | insert r => cases r <;> cases hu
    | remNext n =>
      refine .inr ⟨n, rfl, ?_⟩
      cases hn : s.links.next n with
      | pending => rfl
      | _ => rw [hn] at hu; cases hu
    | remOver => exact .inl rfl
    | remDel => exact .inl rfl
    | _ => cases hu

/-- Nothing is pending once the loop has come to the end of the list. -/
def Dry (s : State) (v : View) : Prop := (∃ u, (s.call u).drained = true) → ∀ r, v.place r ≠ .pending

theorem dry_step (h : Sound sema s v) (hdry : Dry s v) (htime : InTime s act) (hs : step sema s act = some s')
    (he : Effect s s' v v' t act) : Dry s' v' := by
  rintro ⟨u, hu⟩ r hr
  have hbefore : ∀ r, v.place r ≠ .pending := by
    rcases drained_from hs hu with hd | ⟨n, hn, hlast⟩
    · exact hdry ⟨u, hd⟩
    · exact h.dry hn hlast
  rcases he.pending r hr with hp | rfl
  · exact hbefore r hp
  · -- a thread that queues is not the one that removes the device
    rcases drained_from hs hu with hd | ⟨n, hn, -⟩
    · rw [htime u] at hd; cases hd
    · obtain ⟨r', ht⟩ : ∃ r', s.call t = .queueing r' := by
        cases step_cases hs with
        | insert _ r' ht => exact ⟨r', ht⟩
      have hut : u ≠ t := by
        rintro rfl
        rw [ht] at hn
        cases hn
      rw [he.others u hut, hn] at hu
      cases hu

/-- While the device is removed, the only requests that are somewhere are pending or about
    to be queued. -/
theorem Sound.removing_place (h : Sound sema s v) (hrem : s.removing = true) (hr : v.place r ≠ .free)
    (hq : ∀ u, s.call u ≠ .queueing r) : v.place r = .pending := by
  have hnone := h.points.removing hrem
  have hattached : ∀ c, s.attached c ≠ true := fun c hc => by rw [hnone c] at hc; cases hc
  cases hp : v.place r with
  | free => exact absurd hp hr
  | pending => rfl
  | waiting c =>
    have hmem := (h.books.wait_iff c r).2 hp
    exact absurd (h.loops.attached c (List.ne_nil_of_mem hmem)) (hattached c)
  | held u =>
    have hholds := (h.books.held r u).1 hp
    cases hu : s.call u with
    | queueing r' =>
      rw [hu] at hholds
      cases hholds
      exact absurd hu (hq u)
    | readTaken c r' => exact absurd (h.points.uses u c (by rw [hu]; rfl)).2 (hattached c)
    | replied c r' reply => exact absurd (h.points.uses u c (by rw [hu]; rfl)).2 (hattached c)
    | relAt c n =>
      rcases h.loops.node u c n (.inr hu) with rfl | ⟨r', -, hatt⟩
      · rw [hu] at hholds; cases hholds
      · exact absurd hatt (hattached c)
    | _ => rw [hu] at hholds; cases hholds

/-- **Nothing is left behind** when `remove_block_device` returns, in any run in which
    nobody is in a hurry and nothing is queued once its loop has come to the end of the
    pending list. -/
theorem removal_ends_all (h : Reach (step sema) (fun s act => Calm s act ∧ InTime s act) .init s)
    (ht : s.call t = .removed) :
    NothingLeft s := by
  obtain ⟨v, ⟨hsound, hledger⟩, hdry⟩ : ∃ v, Standing sema s v ∧ Dry s v := by
    refine h.inv (I := fun s => ∃ v, Standing sema s v ∧ Dry s v) (fun s act s' hv hc hst => ?_)
      ⟨_, ⟨sound_init, ledger_init⟩, fun hu => ?_⟩
    · obtain ⟨v, hv, hdry⟩ := hv
      obtain ⟨v', t, hv', he⟩ := standing_step hv hc.1 hst
      exact ⟨v', hv', dry_step hv.1 hdry hc.2 hst he⟩
    · obtain ⟨u, hu⟩ := hu
      cases hu
  have hrem := hsound.points.removes t (by rw [ht]; rfl)
  have hnone := hdry ⟨t, by rw [ht]; rfl⟩
  refine ⟨fun x hx => ?_, v.pending, hsound.rings.pend, fun r hr => ?_⟩
  · rcases hledger.accepted x hx with ⟨e, he, href, hserial⟩ | ⟨hlive, -, hq⟩
    · refine ⟨List.count_eq_one_of_mem hledger.unique ?_, e, he, href, hserial⟩
      exact hserial ▸ List.mem_map_of_mem he
    · exact absurd (hsound.removing_place hrem hlive hq) (hnone _)
  · rcases (hsound.books.pend_iff r).1 hr with hr | ⟨p, rfl, e, he, hwho, href⟩
    · exact absurd hr (hnone r)
    · exact ⟨e, he, href, hwho⟩

/-- One request is queued; then the only connection is closed, which removes the device. -/
def drainOne : List Act :=
  [.attach 0, .queueRq (.blk 0) 0 0 0 (fun _ => 0), .insert (.blk 0), .release (.user 0) 0, .relNext (.user 0),
    .relEnd (.user 0), .relUnref (.user 0), .remUnlink (.user 0), .remNext (.user 0), .remEnd (.user 0),
    .remNext (.user 0), .remEnd (.user 0), .remDel (.user 0)]

/-- The connection is closed first, and the request is queued when the loop of
    `remove_block_device` has found the pending list empty. -/
def queueLate : List Act :=
  [.attach 0, .release (.user 0) 0, .relNext (.user 0), .relEnd (.user 0), .relUnref (.user 0), .remUnlink (.user 0),
    .remNext (.user 0), .queueRq (.blk 0) 0 0 0 (fun _ => 0), .insert (.blk 0), .remEnd (.user 0), .remDel (.user 0)]

theorem unhurried_insert (ht : ∀ u, u ≠ t → s.call u = .idle) (htr : s.call t = .queueing r)
    (hended : s.ended = []) :
    Unhurried s (.insert t) := by
  intro r' hr'
  refine ⟨fun u c hu => ?_, fun p hp hd => ?_⟩
  · by_cases hut : u = t
    · rw [hut, htr] at hu; cases hu
    · rw [ht u hut] at hu; cases hu
  · obtain ⟨e, he, -⟩ := hd
    rw [hended] at he
    cases he

theorem removal_ends_all_drainOne : ∃ s, Reach (step (fun _ _ => 0)) (fun s act => Calm s act ∧ InTime s act)
    .init s ∧
    s.call (.user 0) = .removed ∧ s.accepted = [(0, 0)] ∧ NothingLeft s := by
  have hplain : ∀ {s : State} {act : Act}, Vfs s act → Unhurried s act → InTime s act → Calm s act ∧
      InTime s act :=
    fun h₁ h₂ h₃ => ⟨⟨h₁, h₂⟩, h₃⟩
  obtain ⟨s, hsteps, hcall, hacc⟩ : ∃ s, Steps (step (fun _ _ => 0)) (fun s act => Calm s act ∧
    InTime s act) .init drainOne s ∧
      s.call (.user 0) = .removed ∧ s.accepted = [(0, 0)] := by
    refine ⟨_, .cons (hplain trivial trivial trivial) rfl (.cons (hplain trivial trivial trivial) rfl
      (.cons (hplain trivial (unhurried_insert (r := .slot 0) (fun u hu => Function.update_of_ne hu _ _) rfl rfl) ?_) rfl
      (.cons (hplain ?_ trivial trivial) rfl (.cons (hplain trivial trivial trivial) rfl
      (.cons (hplain trivial trivial trivial) rfl (.cons (hplain trivial trivial trivial) rfl
      (.cons (hplain trivial trivial trivial) rfl (.cons (hplain trivial trivial trivial) rfl
      -- the loop ends the request, and then finds the end of the list
      (.cons (hplain trivial (fun k hk => nomatch hk) trivial) rfl (.cons (hplain trivial trivial trivial) rfl
      (.cons (hplain trivial (fun k hk => nomatch hk) trivial) rfl (.cons (hplain trivial trivial trivial) rfl
      (.nil _))))))))))))), rfl, rfl⟩
    · intro u
      match u with
      | .user n => rfl
      | .blk 0 => rfl
      | .blk (n + 1) => rfl
    · intro u
      match u with
      | .user n => exact nofun
      | .blk 0 => exact nofun
      | .blk (n + 1) => exact nofun
  exact ⟨s, ⟨_, hsteps⟩, hcall, hacc, removal_ends_all ⟨_, hsteps⟩ hcall⟩

theorem removal_leaves_request : ¬ ∀ (sema : Nat → Nat → UInt8) (s : State) (t : Tid), Reach
    (step sema) Vfs .init s →
    s.call t = .removed → NothingLeft s := by
  intro hall
  obtain ⟨s, hsteps, hcall, hacc, hended⟩ : ∃ s, Steps (step (fun _ _ => 0)) Vfs .init queueLate s ∧
      s.call (.user 0) = .removed ∧ s.accepted = [(0, 0)] ∧ s.ended = [] := by
    exact ⟨_, .cons trivial rfl (.cons (fun u => nofun) rfl (.cons trivial rfl (.cons trivial rfl (.cons trivial rfl
      (.cons trivial rfl (.cons trivial rfl (.cons trivial rfl (.cons trivial rfl (.cons trivial rfl (.cons trivial rfl
      (.nil _))))))))))), rfl, rfl, rfl⟩
  have hleft := (hall _ s (.user 0) ⟨_, hsteps⟩ hcall).ended (0, 0) (by rw [hacc]; simp)
  rw [hended] at hleft
  exact absurd hleft.1 (by decide)

end Bius.Teardown
