import Mathlib.Data.List.Nodup
import Bius.Kernel

/- The life of a request, without its data. `Life` keeps of the kernel's state
   which requests are where: filled in by a thread, in `pending_requests`, taken
   by a `bius_dev_read`, in the waiting list of a connection, removed from it by a
   `bius_dev_write`, or done. `Life.Step` lists the moves. `Inv` says that there
   is one place for each request (`loc`) and that lists, threads and counters
   agree with it; every move preserves it (`Inv.step`). -/
namespace Bius

/-- What a thread holds. -/
inductive Hold where
  | nothing
  | filling (p : Ptr)
  | taken (c : Nat) (p : Ptr)
  | replied (c : Nat) (p : Ptr)
  /-- waits for the semaphore of its report-zones request -/
  | waits (p : Ptr)
  deriving DecidableEq

@[ext] structure Life where
  next : Nat
  id : Ptr → Nat
  /-- a block request, given back when it is ended -/
  blk : Ptr → Bool
  sem : Ptr → Nat
  busy : Ptr → Bool
  pending : List Ptr
  waiting : Nat → List Ptr
  sending : Nat → Option Ptr
  hold : Tid → Hold
  queued : List Nat
  taken : List Nat
  ended : List Nat

namespace Life

def init : Life :=
  ⟨0, fun _ => 0, fun _ => true, fun _ => 0, fun _ => false, [], fun _ => [], fun _ => none,
   fun _ => .nothing, [], [], []⟩

/-- A request is ended: a block request is free again, a report-zones request
    raises its semaphore. -/
@[simps] def finish (s : Life) (p : Ptr) : Life :=
  { s with
    busy := if s.blk p then Function.update s.busy p false else s.busy
    sem := if s.blk p then s.sem else Function.update s.sem p (s.sem p + 1)
    ended := s.ended ++ [s.id p] }

@[simps] def setHold (s : Life) (t : Tid) (h : Hold) : Life :=
  { s with hold := Function.update s.hold t h }

@[simps] def setSending (s : Life) (c : Nat) (x : Option Ptr) : Life :=
  { s with sending := Function.update s.sending c x }

@[simps] def setWaiting (s : Life) (c : Nat) (l : List Ptr) : Life :=
  { s with waiting := Function.update s.waiting c l }

/-- The moves of the module. -/
inductive Step : Life → Life → Prop where
  /-- a request is filled in -/
  | issue {s : Life} (t : Tid) (p : Ptr) (blk : Bool) (sem : Nat) :
      s.hold t = .nothing → s.busy p = false → (blk = false → sem = 0) →
      Step s { s with
        next := s.next + 1
        id := Function.update s.id p (s.next + 1)
        blk := Function.update s.blk p blk
        sem := Function.update s.sem p sem
        busy := Function.update s.busy p true
        hold := Function.update s.hold t (.filling p) }
  /-- an unsupported operation is filled in and ended at once -/
  | refuse {s : Life} (p : Ptr) (sem : Nat) : s.busy p = false →
      Step s { s with
        next := s.next + 1
        id := Function.update s.id p (s.next + 1)
        blk := Function.update s.blk p true
        sem := Function.update s.sem p sem
        ended := s.ended ++ [s.next + 1] }
  /-- it enters `pending_requests` -/
  | insert {s : Life} (t : Tid) (p : Ptr) : s.hold t = .filling p →
      Step s { s with
        pending := s.pending ++ [p]
        queued := s.queued ++ [s.id p]
        hold := Function.update s.hold t (if s.blk p then .nothing else .waits p) }
  /-- and leaves it at the head; its payload may be left for later reads -/
  | take {s : Life} (t : Tid) (c : Nat) (p : Ptr) (ps : List Ptr) (x : Option Ptr) :
      s.hold t = .nothing → s.pending = p :: ps → x = s.sending c ∨ x = some p →
      Step s { s with
        pending := ps
        taken := s.taken ++ [s.id p]
        hold := Function.update s.hold t (.taken c p)
        sending := Function.update s.sending c x }
  /-- the payload has been sent -/
  | sent {s : Life} (c : Nat) : Step s (s.setSending c none)
  /-- the command has been sent -/
  | wait {s : Life} (t : Tid) (c : Nat) (p : Ptr) : s.hold t = .taken c p →
      Step s ((s.setWaiting c (s.waiting c ++ [p])).setHold t .nothing)
  /-- the command could not be sent -/
  | fail {s : Life} (t : Tid) (c : Nat) (p : Ptr) : s.hold t = .taken c p →
      Step s (((s.finish p).setSending c none).setHold t .nothing)
  /-- a reply finds its request -/
  | reply {s : Life} (t : Tid) (c : Nat) (p : Ptr) : s.hold t = .nothing → p ∈ s.waiting c →
      Step s (((s.setWaiting c ((s.waiting c).erase p)).setSending c
        (if s.sending c = some p then none else s.sending c)).setHold t (.replied c p))
  /-- and ends it -/
  | complete {s : Life} (t : Tid) (c : Nat) (p : Ptr) : s.hold t = .replied c p →
      Step s ((s.finish p).setHold t .nothing)
  /-- the caller of `bius_report_zones` goes on -/
  | wake {s : Life} (t : Tid) (p : Ptr) : s.hold t = .waits p → 0 < s.sem p →
      Step s ({ s with busy := Function.update s.busy p false }.setHold t .nothing)

/-! ## One place for each request -/

inductive Loc where
  | free
  | filling (t : Tid)
  | pending
  | taken (t : Tid) (c : Nat)
  | waiting (c : Nat)
  | replied (t : Tid) (c : Nat)
  /-- ended, with its caller still to wake up -/
  | ended
  deriving DecidableEq

/-- The request has been issued and not been ended. -/
@[grind] def Loc.Alive : Loc → Prop
  | .free | .ended => False
  | _ => True

/-- The request has entered `pending_requests` and not been ended. -/
@[grind] def Loc.Accepted : Loc → Prop
  | .pending | .taken _ _ | .waiting _ | .replied _ _ => True
  | _ => False

/-- Lists and threads agree with the places. -/
structure Located (loc : Ptr → Loc) (s : Life) : Prop where
  pending : ∀ p, p ∈ s.pending ↔ loc p = .pending
  pendingNodup : s.pending.Nodup
  waiting : ∀ c p, p ∈ s.waiting c ↔ loc p = .waiting c
  waitingNodup : ∀ c, (s.waiting c).Nodup
  filling : ∀ t p, s.hold t = .filling p ↔ loc p = .filling t
  taken : ∀ t c p, s.hold t = .taken c p ↔ loc p = .taken t c
  replied : ∀ t c p, s.hold t = .replied c p ↔ loc p = .replied t c
  busy : ∀ p, s.busy p = true ↔ loc p ≠ .free
  waits : ∀ t p, s.hold t = .waits p → s.blk p = false ∧ loc p ≠ .free ∧ (∀ t', loc p ≠ .filling t') ∧
    (0 < s.sem p ↔ loc p = .ended)
  waitsInj : ∀ t t' p, s.hold t = .waits p → s.hold t' = .waits p → t = t'
  caller : ∀ p, s.blk p = false → loc p ≠ .free → (∃ t, loc p = .filling t) ∨ ∃ t, s.hold t = .waits p
  fresh : ∀ t p, loc p = .filling t → s.blk p = false → s.sem p = 0
  sending : ∀ c p, s.sending c = some p → loc p = .waiting c ∨ ∃ t, loc p = .taken t c

/-- Ids are the order of issue, and `queued`, `taken` and `ended` record what has
    happened. -/
structure Numbered (loc : Ptr → Loc) (s : Life) : Prop where
  ids : ∀ p, loc p ≠ .free → s.id p ≤ s.next
  inj : ∀ p q, loc p ≠ .free → loc q ≠ .free → s.id p = s.id q → p = q
  endedLe : ∀ i, i ∈ s.ended → i ≤ s.next
  endedNodup : s.ended.Nodup
  alive : ∀ p, (loc p).Alive → s.id p ∉ s.ended
  accepted : ∀ i, i ∈ s.queued → i ∈ s.ended ∨ ∃ p, s.id p = i ∧ (loc p).Accepted
  fifo : s.queued = s.taken ++ s.pending.map s.id

/-- There is one place for each request. -/
def Inv (s : Life) : Prop := ∃ loc, Located loc s ∧ Numbered loc s

theorem Inv.init : Inv Life.init := by
  refine ⟨fun _ => .free, ?_, ?_⟩ <;> constructor <;> simp [Life.init, Loc.Alive]

theorem map_update_of_notMem {l : List Ptr} {p : Ptr} (h : p ∉ l) (f : Ptr → Nat) (x : Nat) :
    l.map (Function.update f p x) = l.map f := by
  apply List.map_congr_left
  intro q hq
  exact Function.update_of_ne (fun (he : q = p) => h (he ▸ hq)) x f

theorem Located.free {loc : Ptr → Loc} {s : Life} (h : Located loc s) {p : Ptr} (hp : s.busy p = false) :
    loc p = .free ∧ p ∉ s.pending := by
  have hloc : loc p = .free := by
    by_contra hne
    rw [(h.busy p).2 hne] at hp
    cases hp
  exact ⟨hloc, fun hmem => by rw [(h.pending p).1 hmem] at hloc; cases hloc⟩

theorem Numbered.moved {loc loc' : Ptr → Loc} {s s' : Life} (h : Numbered loc s) (hnext : s'.next = s.next)
    (hid : s'.id = s.id) (hended : s'.ended = s.ended) (hqueued : s'.queued = s.queued)
    (hfifo : s'.queued = s'.taken ++ s'.pending.map s'.id) (hfree : ∀ q, loc' q ≠ .free → loc q ≠ .free)
    (halive : ∀ q, (loc' q).Alive → (loc q).Alive) (hacc : ∀ q, (loc q).Accepted → (loc' q).Accepted) :
      Numbered loc' s' := by
  refine ⟨fun q hq => ?_, fun q r hq hr heq => ?_, fun i hi => ?_, by rw [hended]; exact h.endedNodup, fun q hq => ?_,
    fun i hi => ?_, hfifo⟩
  · rw [hid, hnext]
    exact h.ids q (hfree q hq)
  · rw [hid] at heq
    exact h.inj q r (hfree q hq) (hfree r hr) heq
  · rw [hended] at hi
    rw [hnext]
    exact h.endedLe i hi
  · rw [hid, hended]
    exact h.alive q (halive q hq)
  · rw [hqueued] at hi
    rw [hid, hended]
    exact (h.accepted i hi).imp_right (fun ⟨q, hq, hloc⟩ => ⟨q, hq, hacc q hloc⟩)

theorem Numbered.finish {loc : Ptr → Loc} {s : Life} (h : Numbered loc s) {p : Ptr} (hp : (loc p).Accepted) :
    Numbered (Function.update loc p (if s.blk p then .free else .ended)) (s.finish p) := by
  have hnotFree : loc p ≠ .free := fun hfree => by rw [hfree] at hp; exact hp
  have halive : (loc p).Alive := by cases hl : loc p <;> rw [hl] at hp <;> first | exact trivial | exact hp.elim
  have hdead : ∀ x : Bool, ¬ (if x then Loc.free else Loc.ended).Alive := fun x => by cases x <;> exact fun hx => hx
  have hfree : ∀ q, Function.update loc p (if s.blk p then .free else .ended) q ≠ .free → loc q ≠ .free := by
    intro q hq
    by_cases hqp : q = p
    · rw [hqp]
      exact hnotFree
    · rwa [Function.update_of_ne hqp] at hq
  refine ⟨fun q hq => h.ids q (hfree q hq), fun q r hq hr heq => h.inj q r (hfree q hq) (hfree r hr) heq,
    fun i hi => ?_, ?_, fun q hq => ?_, fun i hi => ?_, h.fifo⟩
  · rcases List.mem_append.1 hi with hi | hi
    · exact h.endedLe i hi
    · rw [List.mem_singleton.1 hi]
      exact h.ids p hnotFree
  · show (s.ended ++ [s.id p]).Nodup
    refine List.nodup_append.2 ⟨h.endedNodup, by simp, fun i hi j hj heq => ?_⟩
    rw [List.mem_singleton.1 hj] at heq
    exact h.alive p halive (heq ▸ hi)
  · have hqp : q ≠ p := by
      rintro rfl
      rw [Function.update_self] at hq
      exact hdead _ hq
    rw [Function.update_of_ne hqp] at hq
    intro hmem
    rcases List.mem_append.1 hmem with hmem | hmem
    · exact h.alive q hq hmem
    · have hq' : loc q ≠ .free := fun hf => by rw [hf] at hq; exact hq
      exact hqp (h.inj q p hq' hnotFree (List.mem_singleton.1 hmem))
  · rcases h.accepted i hi with hmem | ⟨q, hq, hacc⟩
    · exact Or.inl (List.mem_append_left _ hmem)
    · by_cases hqp : q = p
      · refine Or.inl (List.mem_append_right _ ?_)
        rw [← hq, hqp]
        exact List.mem_singleton_self _
      · exact Or.inr ⟨q, hq, by rw [Function.update_of_ne hqp]; exact hacc⟩

/-! Each move takes at most one request from one place to another, and the lists
    and threads follow. -/

section
variable {s : Life}

theorem Inv.issue (h : Inv s) {t : Tid} {p : Ptr} {blk : Bool} {sem : Nat}
    (ht : s.hold t = .nothing) (hp : s.busy p = false) (hsem : blk = false → sem = 0) :
    Inv { s with
      next := s.next + 1
      id := Function.update s.id p (s.next + 1)
      blk := Function.update s.blk p blk
      sem := Function.update s.sem p sem
      busy := Function.update s.busy p true
      hold := Function.update s.hold t (.filling p) } := by
  obtain ⟨loc, h, hn⟩ := h
  obtain ⟨hloc, hnot⟩ := h.free hp
  have hmap := map_update_of_notMem hnot s.id (s.next + 1)
  refine ⟨Function.update loc p (.filling t), ?_, ?_⟩
  · obtain ⟨_, _, _, _, _, _, _, _, _, _, _, _, _⟩ := h
    constructor <;> simp only [Function.update_apply] <;> first | assumption | grind
  · obtain ⟨_, _, _, _, _, _, _⟩ := hn
    constructor <;> simp only [hmap, Function.update_apply] <;> first | assumption | grind

theorem Inv.refuse (h : Inv s) {p : Ptr} {sem : Nat} (hp : s.busy p = false) :
    Inv { s with
      next := s.next + 1
      id := Function.update s.id p (s.next + 1)
      blk := Function.update s.blk p true
      sem := Function.update s.sem p sem
      ended := s.ended ++ [s.next + 1] } := by
  obtain ⟨loc, h, hn⟩ := h
  obtain ⟨hloc, hnot⟩ := h.free hp
  have hmap := map_update_of_notMem hnot s.id (s.next + 1)
  refine ⟨loc, ?_, ?_⟩
  · obtain ⟨_, _, _, _, _, _, _, _, _, _, _, _, _⟩ := h
    constructor <;> simp only [Function.update_apply] <;> first | assumption | grind
  · obtain ⟨_, _, _, _, _, _, _⟩ := hn
    constructor <;> simp only [hmap, Function.update_apply] <;> first | assumption | grind

theorem Inv.insert (h : Inv s) {t : Tid} {p : Ptr} (ht : s.hold t = .filling p) :
    Inv { s with
      pending := s.pending ++ [p]
      queued := s.queued ++ [s.id p]
      hold := Function.update s.hold t (if s.blk p then .nothing else .waits p) } := by
  obtain ⟨loc, h, hn⟩ := h
  have hloc := (h.filling t p).1 ht
  refine ⟨Function.update loc p .pending, ?_, ?_⟩
  · obtain ⟨_, _, _, _, _, _, _, _, _, _, _, _, _⟩ := h
    constructor <;> simp only [Function.update_apply] <;> first | assumption | grind
  · obtain ⟨_, _, _, _, _, _, _⟩ := hn
    constructor <;> simp only [Function.update_apply] <;> first | assumption | grind

theorem Inv.take (h : Inv s) {t : Tid} {c : Nat} {p : Ptr} {ps : List Ptr} {x : Option Ptr}
    (ht : s.hold t = .nothing) (hp : s.pending = p :: ps) (hx : x = s.sending c ∨ x = some p) :
    Inv { s with
      pending := ps
      taken := s.taken ++ [s.id p]
      hold := Function.update s.hold t (.taken c p)
      sending := Function.update s.sending c x } := by
  obtain ⟨loc, h, hn⟩ := h
  have hloc := (h.pending p).1 (by rw [hp]; simp)
  refine ⟨Function.update loc p (.taken t c), ?_, ?_⟩
  · obtain ⟨_, _, _, _, _, _, _, _, _, _, _, _, _⟩ := h
    constructor <;> simp only [Function.update_apply] <;> first | assumption | grind
  · refine hn.moved rfl rfl rfl rfl ?_ ?_ ?_ ?_
    · show s.queued = s.taken ++ [s.id p] ++ ps.map s.id
      rw [hn.fifo, hp, List.map_cons, List.append_assoc, List.singleton_append]
    all_goals
      intro q
      simp only [Function.update_apply]
      grind

theorem Inv.sent (h : Inv s) (c : Nat) :
    Inv (s.setSending c none) := by
  obtain ⟨loc, h, hn⟩ := h
  refine ⟨loc, ?_, ?_⟩
  · obtain ⟨_, _, _, _, _, _, _, _, _, _, _, _, _⟩ := h
    constructor <;> simp only [setSending, Function.update_apply] <;> first | assumption | grind
  · exact hn.moved rfl rfl rfl rfl hn.fifo (fun _ hq => hq) (fun _ hq => hq) (fun _ hq => hq)

theorem Inv.wait (h : Inv s) {t : Tid} {c : Nat} {p : Ptr} (ht : s.hold t = .taken c p) :
    Inv ((s.setWaiting c (s.waiting c ++ [p])).setHold t .nothing) := by
  obtain ⟨loc, h, hn⟩ := h
  have hloc := (h.taken t c p).1 ht
  refine ⟨Function.update loc p (.waiting c), ?_, ?_⟩
  · obtain ⟨_, _, _, _, _, _, _, _, _, _, _, _, _⟩ := h
    constructor <;> simp only [setWaiting, setHold, Function.update_apply] <;> first | assumption | grind
  · refine hn.moved rfl rfl rfl rfl hn.fifo ?_ ?_ ?_ <;>
    · intro q
      simp only [Function.update_apply]
      grind

theorem Inv.fail (h : Inv s) {t : Tid} {c : Nat} {p : Ptr} (ht : s.hold t = .taken c p) :
    Inv (((s.finish p).setSending c none).setHold t .nothing) := by
  obtain ⟨loc, h, hn⟩ := h
  have hloc := (h.taken t c p).1 ht
  refine ⟨Function.update loc p (if s.blk p then .free else .ended), ?_, ?_⟩
  · obtain ⟨_, _, _, _, _, _, _, _, _, _, _, _, _⟩ := h
    constructor <;> simp only [finish, setSending, setHold, Function.update_apply] <;> first | assumption | grind
  · have hacc : (loc p).Accepted := by rw [hloc]; trivial
    exact (hn.finish hacc).moved rfl rfl rfl rfl hn.fifo (fun _ hq => hq) (fun _ hq => hq) (fun _ hq => hq)

theorem Inv.reply (h : Inv s) {t : Tid} {c : Nat} {p : Ptr} (ht : s.hold t = .nothing)
    (hp : p ∈ s.waiting c) :
    Inv (((s.setWaiting c ((s.waiting c).erase p)).setSending c
      (if s.sending c = some p then none else s.sending c)).setHold t (.replied c p)) := by
  obtain ⟨loc, h, hn⟩ := h
  have hloc := (h.waiting c p).1 hp
  refine ⟨Function.update loc p (.replied t c), ?_, ?_⟩
  · obtain ⟨_, _, _, _, _, _, _, _, _, _, _, _, _⟩ := h
    constructor <;> simp only [setWaiting, setSending, setHold, Function.update_apply] <;> first | assumption | grind
  · refine hn.moved rfl rfl rfl rfl hn.fifo ?_ ?_ ?_ <;>
    · intro q
      simp only [Function.update_apply]
      grind

theorem Inv.complete (h : Inv s) {t : Tid} {c : Nat} {p : Ptr} (ht : s.hold t = .replied c p) :
    Inv ((s.finish p).setHold t .nothing) := by
  obtain ⟨loc, h, hn⟩ := h
  have hloc := (h.replied t c p).1 ht
  refine ⟨Function.update loc p (if s.blk p then .free else .ended), ?_, ?_⟩
  · obtain ⟨_, _, _, _, _, _, _, _, _, _, _, _, _⟩ := h
    constructor <;> simp only [finish, setHold, Function.update_apply] <;> first | assumption | grind
  · have hacc : (loc p).Accepted := by rw [hloc]; trivial
    exact (hn.finish hacc).moved rfl rfl rfl rfl hn.fifo (fun _ hq => hq) (fun _ hq => hq) (fun _ hq => hq)

theorem Inv.wake (h : Inv s) {t : Tid} {p : Ptr} (ht : s.hold t = .waits p) (hsem : 0 < s.sem p) :
    Inv ({ s with busy := Function.update s.busy p false }.setHold t .nothing) := by
  obtain ⟨loc, h, hn⟩ := h
  have hloc := (h.waits t p ht).2.2.2.1 hsem
  refine ⟨Function.update loc p .free, ?_, ?_⟩
  · obtain ⟨_, _, _, _, _, _, _, _, _, _, _, _, _⟩ := h
    constructor <;> simp only [setHold, Function.update_apply] <;> first | assumption | grind
  · refine hn.moved rfl rfl rfl rfl hn.fifo ?_ ?_ ?_ <;>
    · intro q
      simp only [Function.update_apply]
      grind

end

/-- Every move preserves the invariant. -/
theorem Inv.step {s s' : Life} (h : Inv s) (hs : Step s s') : Inv s' := by
  cases hs with
  | issue t p blk sem ht hp hsem => exact h.issue ht hp hsem
  | refuse p sem hp => exact h.refuse hp
  | insert t p ht => exact h.insert ht
  | take t c p ps x ht hp hx => exact h.take ht hp hx
  | sent c => exact h.sent c
  | wait t c p ht => exact h.wait ht
  | fail t c p ht => exact h.fail ht
  | reply t c p ht hp => exact h.reply ht hp
  | complete t c p ht => exact h.complete ht
  | wake t p ht hsem => exact h.wake ht hsem

end Life

end Bius
