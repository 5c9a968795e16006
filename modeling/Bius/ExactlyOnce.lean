import Bius.KernelLife

/- What becomes of a request, in the default build and under any replies. Every
   request that has entered `pending_requests` is in one place and once there
   (`Kernel.occurs`), it leaves in the order it entered, and a reply ends the
   request it names exactly when that request waits on the connection it is
   written to (`request_lifecycle`). -/
namespace Bius

/-- The places of a request. -/
inductive Place where
  | pending
  | read (t : Tid)
  | waiting (c : Nat)
  | write (t : Tid)
  | ended
  deriving DecidableEq

/-- How often the request with id `i` is in a place. -/
def Kernel.occurs (s : Kernel) (i : Nat) : Place → Nat
  | .pending => (s.pending.map (fun p => (s.req p).id)).count i
  | .read t =>
    match s.call t with
    | .readTaken _ p => if (s.req p).id = i then 1 else 0
    | _ => 0
  | .waiting c => ((s.conn c).waiting.map (fun p => (s.req p).id)).count i
  | .write t =>
    match s.call t with
    | .replied _ p _ _ => if (s.req p).id = i then 1 else 0
    | _ => 0
  | .ended => (s.ended.map BiusRequest.id).count i

/-- The place that a location of `Life` stands for. -/
def Life.Loc.place : Life.Loc → Option Place
  | .pending => some .pending
  | .taken t _ => some (.read t)
  | .waiting c => some (.waiting c)
  | .replied t _ => some (.write t)
  | _ => none

/-- In a list without repetitions an id that belongs to one member occurs once. -/
theorem count_map_id {l : List Ptr} (hn : l.Nodup) (f : Ptr → Nat) {p : Ptr} (hp : p ∈ l)
    (hinj : ∀ q ∈ l, f q = f p → q = p) : (l.map f).count (f p) = 1 := by
  induction l with
  | nil => cases hp
  | cons q l ih =>
    obtain ⟨hq, hn⟩ := List.nodup_cons.1 hn
    by_cases hqp : q = p
    · subst hqp
      have h0 : (l.map f).count (f q) = 0 := by
        rw [List.count_eq_zero, List.mem_map]
        rintro ⟨x, hx, hfx⟩
        exact hq (hinj x (by simp [hx]) hfx ▸ hx)
      simp [h0]
    · have hf : f q ≠ f p := fun he => hqp (hinj q (by simp) he)
      have hpl : p ∈ l := by
        rcases List.mem_cons.1 hp with rfl | h
        · exact absurd rfl hqp
        · exact h
      rw [List.map_cons, List.count_cons, ih hn hpl (fun x hx => hinj x (by simp [hx]))]
      simp [hf]

section
variable {s : Kernel} {loc : Ptr → Life.Loc} (hl : Life.Located loc s.life)
  (hn : Life.Numbered loc s.life)
include hl

theorem occurs_one {p : Ptr} (hinj : ∀ q, loc q ≠ .free → (s.req q).id = (s.req p).id → q = p) {pl : Place}
    (hp : (loc p).place = some pl) : s.occurs (s.req p).id pl = 1 := by
  cases hloc : loc p with
  | free | filling | ended => rw [hloc] at hp; cases hp
  | pending =>
    rw [hloc] at hp; cases hp
    refine count_map_id hl.pendingNodup (fun p => (s.req p).id) ((hl.pending p).2 hloc)
      (fun q hq he => hinj q ?_ he)
    rw [(hl.pending q).1 hq]; simp
  | taken t c =>
    rw [hloc] at hp; cases hp
    have ht := (hl.taken t c p).2 hloc
    simp only [Kernel.life] at ht
    simp only [Kernel.occurs]
    cases hc : s.call t with
    | readTaken c' q =>
      rw [hc] at ht; simp only [Call.hold, Hold.taken.injEq] at ht
      simp [ht.2]
    | _ => rw [hc] at ht; simp [Call.hold] at ht
  | waiting c =>
    rw [hloc] at hp; cases hp
    refine count_map_id (hl.waitingNodup c) (fun p => (s.req p).id) ((hl.waiting c p).2 hloc)
      (fun q hq he => hinj q ?_ he)
    rw [(hl.waiting c q).1 hq]; simp
  | replied t c =>
    rw [hloc] at hp; cases hp
    have ht := (hl.replied t c p).2 hloc
    simp only [Kernel.life] at ht
    simp only [Kernel.occurs]
    cases hc : s.call t with
    | replied c' q _ _ =>
      rw [hc] at ht; simp only [Call.hold, Hold.replied.injEq] at ht
      simp [ht.2]
    | _ => rw [hc] at ht; simp [Call.hold] at ht

theorem occurs_zero {i : Nat} {pl : Place} (hpl : pl ≠ .ended)
    (h : ∀ p, (loc p).place = some pl → (s.req p).id ≠ i) : s.occurs i pl = 0 := by
  cases pl with
  | ended => exact absurd rfl hpl
  | pending =>
    simp only [Kernel.occurs, List.count_eq_zero, List.mem_map, not_exists, not_and]
    intro p hp
    exact h p (by rw [(hl.pending p).1 hp]; rfl)
  | waiting c =>
    simp only [Kernel.occurs, List.count_eq_zero, List.mem_map, not_exists, not_and]
    intro p hp
    exact h p (by rw [(hl.waiting c p).1 hp]; rfl)
  | read t =>
    simp only [Kernel.occurs]
    split
    · next c p ht =>
      have hloc := (hl.taken t c p).1 (by simp [Kernel.life, ht, Call.hold])
      rw [if_neg (h p (by rw [hloc]; rfl))]
    · rfl
  | write t =>
    simp only [Kernel.occurs]
    split
    · next c p _ _ ht =>
      have hloc := (hl.replied t c p).1 (by simp [Kernel.life, ht, Call.hold])
      rw [if_neg (h p (by rw [hloc]; rfl))]
    · rfl

include hn

omit hl in
theorem place_alive {p : Ptr} {pl : Place} (h : (loc p).place = some pl) :
    loc p ≠ .free ∧ (s.req p).id ∉ s.ended.map BiusRequest.id := by
  have halive : (loc p).Alive := by
    cases hloc : loc p <;> rw [hloc] at h <;> trivial
  refine ⟨fun hf => ?_, hn.alive p halive⟩
  rw [hf] at halive
  exact halive

theorem occurs_unique {i : Nat} (hi : i ∈ s.queued) :
    ∃ pl, s.occurs i pl = 1 ∧ ∀ pl', pl' ≠ pl → s.occurs i pl' = 0 := by
  have hinj : ∀ p q, loc p ≠ .free → loc q ≠ .free → (s.req q).id = (s.req p).id → q = p :=
    fun p q hp hq he => (hn.inj p q hp hq he.symm).symm
  rcases hn.accepted i hi with hend | ⟨p, rfl, hacc⟩
  · -- it has been ended
    refine ⟨.ended, ?_, fun pl hpl => occurs_zero hl hpl (fun p hp he => ?_)⟩
    · exact List.count_eq_one_of_mem hn.endedNodup hend
    · exact (place_alive hn hp).2 (he ▸ hend)
  · obtain ⟨pl, hpl⟩ : ∃ pl, (loc p).place = some pl := by
      cases hloc : loc p <;> rw [hloc] at hacc <;> first | exact ⟨_, rfl⟩ | cases hacc
    obtain ⟨hne, hnot⟩ := place_alive hn hpl
    refine ⟨pl, occurs_one hl (fun q hq => hinj p q hne hq) hpl, fun pl' hne' => ?_⟩
    by_cases hend : pl' = .ended
    · subst hend
      exact List.count_eq_zero.2 hnot
    · refine occurs_zero hl hend (fun q hq he => ?_)
      have hqp := hinj p q hne (place_alive hn hq).1 he
      subst hqp
      rw [hq] at hpl
      cases hpl
      exact hne' rfl

end

/-! ## Replies -/

/-- From `s` to `s'`, thread `t` ends the request `p` and nothing else changes:
    no other request or thread, no list and no sending pointer. -/
structure Kernel.EndsOnly (s s' : Kernel) (t : Tid) (p : Ptr) : Prop where
  ended : s'.ended.map BiusRequest.id = s.ended.map BiusRequest.id ++ [(s.req p).id]
  req : ∀ q, q ≠ p → s'.req q = s.req q
  call : ∀ u, u ≠ t → s'.call u = s.call u
  pending : s'.pending = s.pending
  queued : s'.queued = s.queued
  waiting : ∀ c, (s'.conn c).waiting = (s.conn c).waiting
  sending : ∀ c, (s'.conn c).sending = (s.conn c).sending

theorem writeEnd_endsOnly {cfg : Config} {s s' : Kernel} {t : Tid} {c : Nat} {p : Ptr} {header : U2k}
    {n : Nat} {umem : UMem} (h : s.writeEnd cfg t c p header n umem = some s') : s.EndsOnly s' t p := by
  have hlife := writeEnd_life h
  obtain ⟨hreq, hcall⟩ := writeEnd_frame h
  exact ⟨congrArg Life.ended hlife, hreq, hcall, congrArg Life.pending hlife, congrArg Life.queued hlife,
    fun c => congrFun (congrArg Life.waiting hlife) c, fun c => congrFun (congrArg Life.sending hlife) c⟩

/-- The reply with header `header` on connection `c`, by thread `t`: after its
    section under `waiting_lock` the machine is in `s₁`. A request with that id that
    waits on `c` leaves the list (and the sending pointer) and is in the hands of
    `t`; whatever the other threads do then, nobody touches it before `t` ends it.
    If no such request waits there, the call returns `-EINVAL` and nothing else
    happens. -/
structure Kernel.Replies (s s₁ : Kernel) (t : Tid) (c n : Nat) (header : U2k) : Prop where
  found : ∀ p ∈ (s.conn c).waiting, (s.req p).id = header.id →
    s₁ = (s.setConn c
        { s.conn c with
          waiting := (s.conn c).waiting.erase p
          sending := if (s.conn c).sending = some p then none else (s.conn c).sending }).setCall t
        (.replied c p header (min n sizeofU2k)) ∧
    ∀ acts s₂, Machine.Steps (step ⟨false⟩) (fun _ _ => True) s₁ acts s₂ → s₂.nextRequestId < 2 ^ 64 →
      (∀ act ∈ acts, act.tid ≠ some t) →
      s₂.req p = s.req p ∧
      ∀ umem, ∃ s₃, step ⟨false⟩ s₂ (.writeEnd t umem) = some s₃ ∧ s₂.EndsOnly s₃ t p
  missing : (∀ p ∈ (s.conn c).waiting, (s.req p).id ≠ header.id) →
    s₁ = s.setCall t (.done (.value (-eINVAL)))

/-- **Request lifecycle.** In every state reachable by any interleaving, with any
    replies, every request that has entered `pending_requests` is in one place and
    once there, no request has been ended twice, requests have left the list in the
    order they entered it, and a reply ends the request it names exactly if that
    request waits on the connection it is written to. -/
theorem request_lifecycle {s : Kernel} (h : Machine.Reach (step ⟨false⟩) (fun _ _ => True) Kernel.init s)
    (hid : s.nextRequestId < 2 ^ 64) :
    (∀ i ∈ s.queued, ∃ pl, s.occurs i pl = 1 ∧ ∀ pl', pl' ≠ pl → s.occurs i pl' = 0) ∧
    (∀ i, s.occurs i .ended ≤ 1) ∧
    s.queued = s.taken ++ s.pending.map (fun p => (s.req p).id) ∧
    ∀ t c size n header s₁, step ⟨false⟩ s (.writeStart t c size n header) = some s₁ →
      sizeofU2k ≤ size → 0 < n → s.Replies s₁ t c n header := by
  obtain ⟨loc, hl, hn⟩ := reach_life h hid
  refine ⟨fun i hi => occurs_unique hl hn hi, fun i => ?_, hn.fifo, ?_⟩
  · exact List.nodup_iff_count_le_one.1 hn.endedNodup i
  · intro t c size n header s₁ hs hsize hpos
    have hreach := h.snoc trivial hs
    cases step_cases hs with
    | writeStart t c size n header ht hc =>
      refine ⟨fun p hp hpid => ?_, fun hnot => writeStart_missing hsize hpos hnot⟩
      have hfound := writeStart_found (t := t) hl hn hsize hpos hp hpid
      refine ⟨hfound, fun acts s₂ hrun hid₂ hacts => ?_⟩
      have hcall : (s.writeStart t c size n header).call t = .replied c p header (min n sizeofU2k) := by
        rw [hfound]; simp
      obtain ⟨hcall₂, hreq₂⟩ := replied_steps hreach hrun hid₂ hacts hcall
      refine ⟨by rw [hreq₂, hfound]; rfl, fun umem => ?_⟩
      obtain ⟨s₃, hend⟩ := writeEnd_isSome s₂ t c p header (min n sizeofU2k) umem
      exact ⟨s₃, by simp only [step, hcall₂, hend], writeEnd_endsOnly hend⟩

/-- Two flushes are queued; connection 0 gets the first and has it in its waiting
    list. -/
def twoFlushes : List Act :=
  [.attach 0, .queueRq (.blk 0) 5 ⟨2, 0, 0, [], by decide⟩, .insert (.blk 0), .ret (.blk 0),
   .queueRq (.blk 0) 6 ⟨2, 0, 0, [], by decide⟩, .insert (.blk 0), .readStart (.user 0) 0 56 [],
   .readTake (.user 0), .readSend (.user 0) 56, .ret (.user 0)]

theorem request_lifecycle_twoFlushes : ∃ s, Machine.run (step ⟨false⟩) Kernel.init twoFlushes = some s ∧
    s.queued = [1, 2] ∧ s.taken = [1] ∧ (s.conn 0).waiting = [5] ∧
    (∀ i ∈ s.queued, ∃ pl, s.occurs i pl = 1 ∧ ∀ pl', pl' ≠ pl → s.occurs i pl' = 0) ∧
    ∃ s₁, step ⟨false⟩ s (.writeStart (.user 0) 0 24 24 ⟨1, 0, 0⟩) = some s₁ ∧
      s.Replies s₁ (.user 0) 0 24 ⟨1, 0, 0⟩ := by
  refine ⟨_, rfl, rfl, rfl, rfl, ?_⟩
  have hlife := request_lifecycle ⟨twoFlushes, Machine.Steps.of_run rfl⟩ (by decide)
  exact ⟨hlife.1, _, rfl, hlife.2.2.2 _ _ _ _ _ _ rfl (by decide) (by decide)⟩

end Bius
