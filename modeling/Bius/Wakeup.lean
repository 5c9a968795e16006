import Mathlib.Data.Finset.Card
import Mathlib.Logic.Function.Basic
import Bius.Lib.Machine
import Bius.Lib.WaitQueue

/- Submitters and readers at the wait queue of a device. A submitter
   (`bius_queue_rq`, `bius_report_zones`) adds its request to `pending_requests`
   and then calls `wake_up`. A reader (`bius_dev_read`) looks at the list under
   `pending_lock`, takes its first request if there is one, and otherwise waits
   with `wait_event_interruptible_exclusive`, whose steps are written out here:
   the test before waiting, `prepare_to_wait_event`, the test while enqueued,
   `schedule` and `finish_wait`.

   While a reader sleeps, each pending request has somebody who will see to it: a
   submitter whose `wake_up` is still to come, or an awake reader that the next
   `wake_up` will not hit before the sleeper (`Watched.served`). So there is no
   state in which requests are pending, no wake-up is to come, and everybody
   sleeps (`no_lost_wakeup`). -/
namespace Bius

open WaitQueue

/-- How far a thread is. -/
inductive WaitPoint where
  | outside
  /-- a submitter between its list insertion and `wake_up` -/
  | inserted
  /-- a reader about to take `pending_lock` -/
  | check
  /-- about to test the condition before waiting -/
  | enter
  /-- about to call `prepare_to_wait_event` -/
  | prepare
  /-- enqueued, about to test the condition -/
  | test
  /-- dequeued for a pending signal, about to test the condition -/
  | testSignalled
  /-- the test was false: in `schedule` -/
  | schedule
  /-- the test was true: about to call `finish_wait` -/
  | finish
  deriving DecidableEq

structure Waiting where
  pending : List Nat
  /-- `wait_queue`, the longest-enqueued waiter first -/
  queue : List Nat
  point : Nat → WaitPoint
  signal : Nat → Bool

namespace Waiting

def init : Waiting := ⟨[], [], fun _ => .outside, fun _ => false⟩

def go (s : Waiting) (t : Nat) (x : WaitPoint) : Waiting := { s with point := Function.update s.point t x }

/-- The reader sleeps in the wait queue. -/
def Sleeps (s : Waiting) (t : Nat) : Prop := s.point t = .schedule ∧ t ∈ s.queue ∧ s.signal t = false

/-- The reader is awake inside the wait loop of `bius_dev_read`. -/
def Awake (s : Waiting) (t : Nat) : Prop :=
  match s.point t with
  | .outside | .inserted => False
  | .schedule => t ∉ s.queue ∨ s.signal t = true
  | _ => True

end Waiting

inductive WaitAct where
  /-- a request is added to the list -/
  | insert (t request : Nat)
  | wakeUp (t : Nat)
  /-- a `bius_dev_read` comes to its loop -/
  | arrive (t : Nat)
  | check (t : Nat)
  | enter (t : Nat)
  | prepare (t : Nat)
  | test (t : Nat)
  /-- `schedule` returns -/
  | resume (t : Nat)
  | finish (t : Nat)
  | signal (t : Nat)
  /-- a thread outside handles its signal -/
  | handle (t : Nat)

/-- One step, if it is enabled. -/
def waitStep (s : Waiting) : WaitAct → Option Waiting
  | .insert t r =>
    if s.point t = .outside then some ({ s with pending := s.pending ++ [r] }.go t .inserted) else none
  | .wakeUp t =>
    -- the first waiter is dequeued and made runnable
    if s.point t = .inserted then some ({ s with queue := s.queue.tail }.go t .outside) else none
  | .arrive t => if s.point t = .outside then some (s.go t .check) else none
  | .check t =>
    if s.point t = .check then
      match s.pending with
      | [] => some (s.go t .enter)
      | _ :: rest => some ({ s with pending := rest }.go t .outside)
    else none
  | .enter t =>
    if s.point t = .enter then some (s.go t (if s.pending = [] then .prepare else .check)) else none
  | .prepare t =>
    if s.point t = .prepare then
      if s.signal t then some ({ s with queue := s.queue.erase t }.go t .testSignalled)
      else some ({ s with queue := if t ∈ s.queue then s.queue else s.queue ++ [t] }.go t .test)
    else none
  | .test t =>
    if s.point t = .test then some (s.go t (if s.pending = [] then .schedule else .finish))
    else if s.point t = .testSignalled then some (s.go t (if s.pending = [] then .outside else .finish))
    else none
  | .resume t =>
    if s.point t = .schedule ∧ (t ∉ s.queue ∨ s.signal t = true) then some (s.go t .prepare) else none
  | .finish t =>
    if s.point t = .finish then some ({ s with queue := s.queue.erase t }.go t .check) else none
  | .signal t => some { s with signal := Function.update s.signal t true }
  | .handle t =>
    if s.point t = .outside then some { s with signal := Function.update s.signal t false } else none

/-! ## Who sees to the pending requests -/

namespace Waiting

/-- The thread will see to a pending request, and the next `wake_up` does not hit it
    before `r`. -/
def Serves (s : Waiting) (r t : Nat) : Prop :=
  s.point t = .inserted ∨ s.Awake t ∧ t ∉ ahead s.queue r

/-- While `r` sleeps there is somebody for each pending request. -/
def Served (s : Waiting) (r : Nat) : Prop :=
  ∃ F : Finset Nat, (∀ t ∈ F, s.Serves r t) ∧ s.pending.length ≤ F.card

end Waiting

structure Watched (s : Waiting) : Prop where
  nodup : s.queue.Nodup
  waiters : ∀ t ∈ s.queue, s.point t = .prepare ∨ s.point t = .test ∨ s.point t = .schedule ∨ s.point t = .finish
  served : ∀ r, s.Sleeps r → s.Served r

namespace Waiting

variable {s s' : Waiting} {r t : Nat} {x : WaitPoint}

theorem served_nil (h : s.pending = []) : s.Served r := ⟨∅, by simp, by simp [h]⟩

theorem Served.keep (h : s.Served r) (hlen : s'.pending.length ≤ s.pending.length)
    (hserve : ∀ u, s.Serves r u → s'.Serves r u) : s'.Served r := by
  obtain ⟨F, hF, hcard⟩ := h
  exact ⟨F, fun u hu => hserve u (hF u hu), Nat.le_trans hlen hcard⟩

theorem serves_other (hu : s.Serves r t) (hpoint : s'.point t = s.point t)
    (hsignal : s.signal t = true → s'.signal t = true) (hqueue : t ∉ s.queue → t ∉ s'.queue)
    (hahead : t ∉ ahead s.queue r → t ∉ ahead s'.queue r) : s'.Serves r t := by
  rcases hu with hin | ⟨hawake, hnot⟩
  · exact Or.inl (hpoint.trans hin)
  · refine Or.inr ⟨?_, hahead hnot⟩
    unfold Awake at hawake ⊢
    rw [hpoint]
    split <;> simp_all
    rcases hawake with h | h
    · exact Or.inl (hqueue h)
    · exact Or.inr (hsignal h)

end Waiting

open Waiting

/-- The points at which a reader may be enqueued. -/
def WaitPoint.Waits (x : WaitPoint) : Prop := x = .prepare ∨ x = .test ∨ x = .schedule ∨ x = .finish

section
variable {s : Waiting} {t : Nat} {x : WaitPoint}

theorem Watched.not_mem (h : Watched s) (ht : ¬ (s.point t).Waits) : t ∉ s.queue :=
  fun hmem => ht (h.waiters t hmem)

/-- A reader moves on, and perhaps enqueues or dequeues itself. It stays awake, or
    there is nothing to take. -/
theorem Watched.moveTo (h : Watched s) (ht : s.point t ≠ .inserted) {q : List Nat} (hnodup : q.Nodup)
    (hmem : ∀ u ∈ q, u ≠ t → u ∈ s.queue) (hself : t ∈ q → x.Waits)
    (hahead : ∀ r ∈ s.queue, r ≠ t → ∀ u, u ∉ ahead s.queue r → u ∉ ahead q r)
    (hawake : s.pending = [] ∨ x ≠ .outside ∧ x ≠ .inserted ∧ x ≠ .schedule) :
    Watched ({ s with queue := q }.go t x) := by
  refine ⟨hnodup, fun u hu => ?_, fun r hr => ?_⟩
  · by_cases hut : u = t
    · subst hut
      simpa [go, WaitPoint.Waits] using hself hu
    · simpa [go, hut] using h.waiters u (hmem u hu hut)
  · obtain ⟨hpoint, hrq, hsig⟩ := hr
    rcases hawake with hnil | ⟨hx₁, hx₂, hx₃⟩
    · exact served_nil hnil
    · have hrt : r ≠ t := by
        rintro rfl
        simp only [go, Function.update_self] at hpoint
        exact hx₃ hpoint
      have hr : s.Sleeps r := by
        refine ⟨?_, hmem r hrq hrt, hsig⟩
        simpa [go, hrt] using hpoint
      refine (h.served r hr).keep (Nat.le_refl _) (fun u hu => ?_)
      by_cases hut : u = t
      · subst hut
        rcases hu with hin | ⟨-, hnot⟩
        · exact absurd hin ht
        · refine Or.inr ⟨?_, hahead r hr.2.1 hrt u hnot⟩
          simp only [Awake, go, Function.update_self]
      · exact serves_other hu (by simp [go, hut]) id (fun hq hq' => hq (hmem u hq' hut)) (hahead r hr.2.1 hrt u)

theorem Watched.stay (h : Watched s) (ht : s.point t ≠ .inserted) (hself : t ∈ s.queue → x.Waits)
    (hawake : s.pending = [] ∨ x ≠ .outside ∧ x ≠ .inserted ∧ x ≠ .schedule) : Watched (s.go t x) :=
  h.moveTo ht h.nodup (fun _ hu _ => hu) hself (fun _ _ _ _ hu => hu) hawake

theorem Watched.dequeue (h : Watched s) (ht : s.point t ≠ .inserted)
    (hawake : s.pending = [] ∨ x ≠ .outside ∧ x ≠ .inserted ∧ x ≠ .schedule) :
    Watched ({ s with queue := s.queue.erase t }.go t x) := by
  refine h.moveTo ht (h.nodup.erase t) (fun u hu _ => List.mem_of_mem_erase hu) (fun hmem => ?_)
    (fun r _ hrt u hu hu' => hu (ahead_erase (Ne.symm hrt) u hu')) hawake
  exact absurd hmem h.nodup.not_mem_erase

theorem Watched.inserted (h : Watched s) (ht : s.point t = .outside) (r : Nat) :
    Watched ({ s with pending := s.pending ++ [r] }.go t .inserted) := by
  have hnot : t ∉ s.queue := h.not_mem (by rw [ht]; simp [WaitPoint.Waits])
  refine ⟨h.nodup, fun u hu => ?_, fun w hw => ?_⟩
  · have hut : u ≠ t := fun heq => hnot (heq ▸ hu)
    simpa [go, hut] using h.waiters u hu
  · obtain ⟨hpoint, hwq, hsig⟩ := hw
    have hwt : w ≠ t := fun heq => hnot (heq ▸ hwq)
    obtain ⟨F, hF, hcard⟩ := h.served w ⟨by simpa [go, hwt] using hpoint, hwq, hsig⟩
    have htF : t ∉ F := by
      intro hmem
      rcases hF t hmem with hin | ⟨hawake, -⟩
      · rw [ht] at hin; cases hin
      · rw [Awake, ht] at hawake; exact hawake
    refine ⟨insert t F, fun u hu => ?_, ?_⟩
    · rcases Finset.mem_insert.1 hu with rfl | hu
      · exact Or.inl (by simp [go])
      · have hut : u ≠ t := fun heq => htF (heq ▸ hu)
        exact serves_other (hF u hu) (by simp [go, hut]) id id id
    · rw [Finset.card_insert_of_notMem htF]
      simpa [go] using hcard

theorem Watched.wakeUp (h : Watched s) (ht : s.point t = .inserted) :
    Watched ({ s with queue := s.queue.tail }.go t .outside) := by
  have hnot : t ∉ s.queue := h.not_mem (by rw [ht]; simp [WaitPoint.Waits])
  refine ⟨h.nodup.tail, fun u hu => ?_, fun w hw => ?_⟩
  · have hmem : u ∈ s.queue := List.mem_of_mem_tail hu
    have hut : u ≠ t := fun heq => hnot (heq ▸ hmem)
    simpa [go, hut] using h.waiters u hmem
  · obtain ⟨hpoint, hwq, hsig⟩ := hw
    have hwmem : w ∈ s.queue := List.mem_of_mem_tail hwq
    have hwt : w ≠ t := fun heq => hnot (heq ▸ hwmem)
    obtain ⟨F, hF, hcard⟩ := h.served w ⟨by simpa [go, hwt] using hpoint, hwmem, hsig⟩
    cases hq : s.queue with
    | nil => rw [hq] at hwmem; cases hwmem
    | cons first rest =>
      have hnodup := h.nodup
      rw [hq] at hnodup hwq
      obtain ⟨hfirst, hrest⟩ := List.nodup_cons.1 hnodup
      have hfw : first ≠ w := fun heq => hfirst (heq ▸ hwq)
      have hahead : ahead s.queue w = first :: ahead rest w := by rw [hq, ahead_cons, if_neg hfw]
      have hft : first ≠ t := fun heq => hnot (by rw [hq, heq]; simp)
      have hwaits := h.waiters first (by rw [hq]; simp)
      have hfF : first ∉ F := by
        intro hmem
        rcases hF first hmem with hin | ⟨-, hnot⟩
        · rw [hin] at hwaits; simp at hwaits
        · exact hnot (by rw [hahead]; simp)
      refine ⟨insert first (F.erase t), fun u hu => ?_, ?_⟩
      · rcases Finset.mem_insert.1 hu with rfl | hu
        · refine Or.inr ⟨?_, fun hmem => hfirst (mem_of_mem_ahead hmem)⟩
          simp only [Awake, go, Function.update_of_ne hft]
          rcases hwaits with hp | hp | hp | hp <;> rw [hp] <;> simp [hfirst]
        · obtain ⟨hut, hu⟩ := Finset.mem_erase.1 hu
          refine serves_other (hF u hu) (by simp [go, hut]) id (fun hq' hmem => hq' ?_) (fun hq' hmem => hq' ?_)
          · rw [hq]
            exact List.mem_cons_of_mem _ hmem
          · rw [hahead]
            exact List.mem_cons_of_mem _ hmem
      · have hle := @Finset.pred_card_le_card_erase _ F t _
        rw [Finset.card_insert_of_notMem (fun hmem => hfF (Finset.mem_of_mem_erase hmem))]
        show s.pending.length ≤ _
        omega

theorem Watched.take (h : Watched s) (ht : s.point t = .check) {r : Nat} {rest : List Nat} (hp : s.pending = r :: rest) :
    Watched ({ s with pending := rest }.go t .outside) := by
  have hnot : t ∉ s.queue := h.not_mem (by rw [ht]; simp [WaitPoint.Waits])
  refine ⟨h.nodup, fun u hu => ?_, fun w hw => ?_⟩
  · have hut : u ≠ t := fun heq => hnot (heq ▸ hu)
    simpa [go, hut] using h.waiters u hu
  · obtain ⟨hpoint, hwq, hsig⟩ := hw
    have hwt : w ≠ t := fun heq => hnot (heq ▸ hwq)
    obtain ⟨F, hF, hcard⟩ := h.served w ⟨by simpa [go, hwt] using hpoint, hwq, hsig⟩
    refine ⟨F.erase t, fun u hu => ?_, ?_⟩
    · obtain ⟨hut, hu⟩ := Finset.mem_erase.1 hu
      exact serves_other (hF u hu) (by simp [go, hut]) id id id
    · have hle := @Finset.pred_card_le_card_erase _ F t _
      rw [hp, List.length_cons] at hcard
      show rest.length ≤ _
      omega

/-- A signal wakes its reader up and changes nothing for the others. -/
theorem Watched.signal (h : Watched s) (t : Nat) : Watched { s with signal := Function.update s.signal t true } := by
  refine ⟨h.nodup, h.waiters, fun r hr => ?_⟩
  obtain ⟨hpoint, hrq, hsig⟩ := hr
  have hrt : r ≠ t := by
    rintro rfl
    simp at hsig
  have hold : s.signal r = false := by simpa [hrt] using hsig
  refine (h.served r ⟨hpoint, hrq, hold⟩).keep (Nat.le_refl _)
    (fun u hu => serves_other hu rfl (fun hs => ?_) id id)
  dsimp only
  rw [Function.update_apply]
  split
  · rfl
  · exact hs

theorem Watched.handle (h : Watched s) (ht : s.point t = .outside) :
    Watched { s with signal := Function.update s.signal t false } := by
  refine ⟨h.nodup, h.waiters, fun r hr => ?_⟩
  obtain ⟨hpoint, hrq, hsig⟩ := hr
  have hrt : r ≠ t := by
    rintro rfl
    rw [show s.point r = .outside from ht] at hpoint
    cases hpoint
  have hold : s.signal r = false := by simpa [hrt] using hsig
  refine (h.served r ⟨hpoint, hrq, hold⟩).keep (Nat.le_refl _) (fun u hu => ?_)
  by_cases hut : u = t
  · subst hut
    rcases hu with hin | ⟨hawake, -⟩
    · rw [ht] at hin; cases hin
    · rw [Awake, ht] at hawake; exact hawake.elim
  · exact serves_other hu rfl (fun hs => by simpa [hut] using hs) id id

end

theorem watched_init : Watched Waiting.init := by
  refine ⟨List.nodup_nil, fun t ht => ?_, fun r _ => served_nil rfl⟩
  cases ht

theorem watched_step {s s' : Waiting} {act : WaitAct} (h : Watched s) (hs : waitStep s act = some s') : Watched s' := by
  cases act with
  | insert t r =>
    simp only [waitStep] at hs
    split at hs <;> cases hs
    next ht => exact h.inserted ht r
  | wakeUp t =>
    simp only [waitStep] at hs
    split at hs <;> cases hs
    next ht => exact h.wakeUp ht
  | arrive t =>
    simp only [waitStep] at hs
    split at hs <;> cases hs
    next ht =>
    refine h.stay (by rw [ht]; simp) (fun hmem => absurd hmem (h.not_mem ?_)) (Or.inr (by simp))
    rw [ht]; simp [WaitPoint.Waits]
  | check t =>
    simp only [waitStep] at hs
    split at hs
    · next ht =>
      split at hs
      · next hp =>
        cases hs
        refine h.stay (by rw [ht]; simp) (fun hmem => absurd hmem (h.not_mem ?_)) (Or.inl hp)
        rw [ht]; simp [WaitPoint.Waits]
      · next r rest hp =>
        cases hs
        exact h.take ht hp
    · cases hs
  | enter t =>
    simp only [waitStep] at hs
    split at hs <;> cases hs
    next ht =>
    refine h.stay (by rw [ht]; simp) (fun hmem => absurd hmem (h.not_mem ?_)) (Or.inr ?_)
    · rw [ht]; simp [WaitPoint.Waits]
    · split <;> simp
  | prepare t =>
    simp only [waitStep] at hs
    split at hs
    · next ht =>
      split at hs
      · cases hs
        exact h.dequeue (by rw [ht]; simp) (Or.inr (by simp))
      · cases hs
        by_cases hmem : t ∈ s.queue
        · simp only [if_pos hmem]
          exact h.stay (by rw [ht]; simp) (fun _ => by simp [WaitPoint.Waits]) (Or.inr (by simp))
        · simp only [if_neg hmem]
          refine h.moveTo (by rw [ht]; simp) ?_ (fun u hu hut => ?_) (fun _ => by simp [WaitPoint.Waits])
            (fun r hr _ u hu => by rw [ahead_append hr]; exact hu) (Or.inr (by simp))
          · exact List.nodup_append.2 ⟨h.nodup, by simp, fun a ha b hb hab => hmem (by simp_all)⟩
          · simpa [hut] using hu
    · cases hs
  | test t =>
    simp only [waitStep] at hs
    split at hs
    · next ht =>
      cases hs
      refine h.stay (by rw [ht]; simp) (fun _ => ?_) ?_
      · split <;> simp [WaitPoint.Waits]
      · split
        · next hp => exact Or.inl hp
        · exact Or.inr (by simp)
    · split at hs
      · next ht =>
        cases hs
        refine h.stay (by rw [ht]; simp) (fun hmem => absurd hmem (h.not_mem ?_)) ?_
        · rw [ht]; simp [WaitPoint.Waits]
        · split
          · next hp => exact Or.inl hp
          · exact Or.inr (by simp)
      · cases hs
  | resume t =>
    simp only [waitStep] at hs
    split at hs <;> cases hs
    next ht => exact h.stay (by rw [ht.1]; simp) (fun _ => by simp [WaitPoint.Waits]) (Or.inr (by simp))
  | finish t =>
    simp only [waitStep] at hs
    split at hs <;> cases hs
    next ht => exact h.dequeue (by rw [ht]; simp) (Or.inr (by simp))
  | signal t =>
    cases hs
    exact h.signal t
  | handle t =>
    simp only [waitStep] at hs
    split at hs <;> cases hs
    next ht => exact h.handle ht

/-- **No lost wake-up.** If a request is pending, no submitter has still to call
    `wake_up`, and a reader sleeps, then a reader is awake in its wait loop. -/
theorem no_lost_wakeup {s : Waiting} (h : Machine.Reach waitStep (fun _ _ => True) Waiting.init s)
    (hwake : ∀ t, s.point t ≠ .inserted) (hpending : s.pending ≠ []) {r : Nat} (hr : s.Sleeps r) :
    ∃ t, s.Awake t := by
  have hwatched : Watched s := h.inv (fun _ _ _ hi _ hs => watched_step hi hs) watched_init
  obtain ⟨F, hF, hcard⟩ := hwatched.served r hr
  have hpos : 0 < F.card := Nat.lt_of_lt_of_le (List.length_pos_iff.2 hpending) hcard
  obtain ⟨t, ht⟩ := Finset.card_pos.1 hpos
  rcases hF t ht with hin | ⟨hawake, -⟩
  · exact absurd hin (hwake t)
  · exact ⟨t, hawake⟩

/-- Readers 1 and 2 sleep; submitter 3 adds a request and wakes reader 1 up. -/
def twoSleepers : List WaitAct :=
  [.arrive 1, .check 1, .enter 1, .prepare 1, .test 1, .arrive 2, .check 2, .enter 2, .prepare 2, .test 2,
   .insert 3 7, .wakeUp 3]

theorem no_lost_wakeup_twoSleepers : ∃ s, Machine.run waitStep Waiting.init twoSleepers = some s ∧
    s.pending = [7] ∧ s.Sleeps 2 ∧ ∃ t, s.Awake t := by
  obtain ⟨s, hs⟩ : ∃ s, s = go (go (go (go (go
    (go (go (go (go (go (go (go ⟨[7], [2], fun _ => .outside, fun _ => false⟩
      1 .check) 1 .enter) 1 .prepare) 1 .test) 1 .schedule)
      2 .check) 2 .enter) 2 .prepare) 2 .test) 2 .schedule) 3 .inserted) 3 .outside := ⟨_, rfl⟩
  have hrun : Machine.run waitStep Waiting.init twoSleepers = some s := by
    rw [hs]
    rfl
  have hsleeps : s.Sleeps 2 := by
    rw [hs]
    exact ⟨rfl, List.mem_singleton_self 2, rfl⟩
  have hpending : s.pending = [7] := by
    rw [hs]
    rfl
  have hwoken : ∀ t, s.point t ≠ .inserted := by
    intro t
    rw [hs]
    by_cases h₃ : t = 3
    · rw [h₃]
      decide
    by_cases h₂ : t = 2
    · rw [h₂]
      decide
    by_cases h₁ : t = 1
    · rw [h₁]
      decide
    · have houtside : ∀ (u : Waiting) (v : Nat) (x : WaitPoint), t ≠ v → (u.go v x).point t = u.point t :=
        fun u v x hv => Function.update_of_ne hv _ _
      simp only [houtside _ _ _ h₁, houtside _ _ _ h₂, houtside _ _ _ h₃]
      decide
  exact ⟨s, hrun, hpending, hsleeps, no_lost_wakeup ⟨_, Machine.Steps.of_run hrun⟩ hwoken
    (by rw [hpending]; simp) hsleeps⟩

end Bius
