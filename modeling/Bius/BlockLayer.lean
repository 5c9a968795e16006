import Bius.RequestSteps

/- The block layer around the kernel machine, as far as the completion of requests
   goes. It hands a request to `bius_queue_rq`, and when that returns a status other
   than `BLK_STS_OK`, `BLK_STS_RESOURCE` or `BLK_STS_DEV_RESOURCE` it completes the
   request itself. `completions` counts for every request how often it has been
   completed since it was last handed to the module, by the module or by the block
   layer.

   A request in flight has not been completed, and while only supported operations
   are submitted the block layer completes nothing itself, so no request is
   completed twice (`completed_once`). An unsupported operation is completed by
   `bius_queue_rq` and once more for its status. -/
namespace Bius

def blkStsResource : Nat := 9
def blkStsDevResource : Nat := 13

/-- The statuses of `queue_rq` with which the block layer does not complete the
    request itself. -/
def leavesToDriver (status : Nat) : Bool :=
  status == blkStsOk || status == blkStsResource || status == blkStsDevResource

structure BlockLayer where
  kernel : Kernel
  /-- the request each thread has handed to `bius_queue_rq` -/
  dispatching : Tid → Option Ptr
  completions : Ptr → Nat

def BlockLayer.init : BlockLayer := ⟨Kernel.init, fun _ => none, fun _ => 0⟩

/-- The block request that a step of the module hands to `blk_mq_end_request`. -/
def Kernel.completes (s : Kernel) (act : Act) (s' : Kernel) : Option Ptr :=
  if s.ended.length < s'.ended.length then
    (act.touches s).filter (fun p => isBlkRequest (s'.req p).type)
  else none

def countCompletion (completions : Ptr → Nat) : Option Ptr → Ptr → Nat
  | some p => Function.update completions p (completions p + 1)
  | none => completions

/-- A step of the module, and what the block layer makes of it. -/
def blkStep (cfg : Config) (b : BlockLayer) (act : Act) : Option BlockLayer :=
  (step cfg b.kernel act).map (fun k =>
    match act with
    | .queueRq t p _ =>
      ⟨k, Function.update b.dispatching t (some p),
        countCompletion (Function.update b.completions p 0) (b.kernel.completes act k)⟩
    | .ret t =>
      match b.kernel.call t, b.dispatching t with
      | .done (.status v), some p =>
        if leavesToDriver v then ⟨k, Function.update b.dispatching t none, b.completions⟩
        else
          ⟨{ k with busy := Function.update k.busy p false }, Function.update b.dispatching t none,
            countCompletion b.completions (some p)⟩
      | _, _ => ⟨k, b.dispatching, b.completions⟩
    | _ => ⟨k, b.dispatching, countCompletion b.completions (b.kernel.completes act k)⟩)

/-- The operation is one that `to_bius_request` knows. -/
def Act.Supported : Act → Prop
  | .queueRq _ _ rq => toBiusRequest rq.op ≠ .invalidOp
  | _ => True

/-! ## What a step ends -/

section
variable {cfg : Config} {s s' : Kernel} {act : Act}

theorem writeEnd_ne_status {t : Tid} {c : Nat} {p : Ptr} {header : U2k} {n : Nat} {umem : UMem}
    (h : s.writeEnd cfg t c p header n umem = some s') (v : Nat) : s'.call t ≠ .done (.status v) := by
  have hfin : ∀ s₁ : Kernel, s₁.finishBlk cfg t c p header n = some s' → s'.call t ≠ .done (.status v) := by
    intro s₁ h₁
    unfold Kernel.finishBlk at h₁
    dsimp only at h₁
    split at h₁
    · rw [Option.map_eq_some_iff] at h₁
      obtain ⟨vmStart, -, rfl⟩ := h₁
      simp
    · cases h₁
      simp
  unfold Kernel.writeEnd at h
  dsimp only at h
  split at h
  · split at h
    · split at h
      · cases h
        simp
      · exact hfin _ h
    · exact hfin _ h
  · split at h
    · cases h
      simp
    · split at h <;>
      · cases h
        simp

/-- A step of a supported operation submits a request, ends the one its thread
    holds, or leaves what is in flight as it is. -/
theorem step_ends (h : step cfg s act = some s') (hsup : act.Supported) :
    (s'.ended = s.ended ∧ ∀ q, s'.busy q = true → s.busy q = true ∨ act.submits = true ∧
      act.touches s = some q) ∨
    ∃ t p, (s.call t).held = some p ∧ act.touches s = some p ∧ act.submits = false ∧
      s'.busy = if isBlkRequest (s.req p).type then Function.update s.busy p false else s.busy := by
  cases step_cases h with
  | queueRq t p rq ht hp =>
    have hne : (initBlkRequest (s.req p) s.newId rq).type ≠ .invalidOp := hsup
    unfold Kernel.queueRq
    dsimp only
    rw [if_neg hne]
    refine Or.inl ⟨rfl, fun q hq => ?_⟩
    rw [Kernel.submit_busy, Function.update_apply] at hq
    split at hq
    · next heq => exact Or.inr ⟨rfl, by rw [heq]; rfl⟩
    · exact Or.inl hq
  | reportZones t p sector n blkz ht hp =>
    cases blkz with
    | none => exact Or.inl ⟨rfl, fun q hq => Or.inl hq⟩
    | some blkz =>
      refine Or.inl ⟨rfl, fun q hq => ?_⟩
      rw [Kernel.reportZones, Kernel.submit_busy, Function.update_apply] at hq
      split at hq
      · next heq => exact Or.inr ⟨rfl, by rw [heq]; rfl⟩
      · exact Or.inl hq
  | zonesWake t p junk cb ht hsem =>
    refine Or.inl ⟨rfl, fun q hq => Or.inl ?_⟩
    dsimp only at hq
    rw [Function.update_apply] at hq
    split at hq
    · cases hq
    · exact hq
  | readStart t c size cuts ht hs =>
    obtain ⟨hended, hbusy, -, -⟩ := readStart_keeps hs
    exact Or.inl ⟨hended, fun q hq => Or.inl (hbusy ▸ hq)⟩
  | readTake t c p ps ht hp hs =>
    obtain ⟨hended, hbusy, -, -⟩ := prepare_keeps hs
    exact Or.inl ⟨hended, fun q hq => Or.inl (by rw [hbusy] at hq; exact hq)⟩
  | readSend t c p n ht =>
    have hheld : (s.call t).held = some p := by rw [ht]; rfl
    unfold Kernel.readSend
    split
    · exact Or.inr ⟨t, p, hheld, hheld, rfl, congrArg Life.busy (life_endBlkRequest (s := s) p blkStsIoerr)⟩
    · exact Or.inl ⟨rfl, fun q hq => Or.inl hq⟩
  | writeStart t c size n header ht hc =>
    obtain ⟨hended, hbusy, -, -⟩ := writeStart_keeps s t c size n header
    exact Or.inl ⟨hended, fun q hq => Or.inl (hbusy ▸ hq)⟩
  | writeEnd t c p header n umem ht hs =>
    have hheld : (s.call t).held = some p := by rw [ht]; rfl
    exact Or.inr ⟨t, p, hheld, hheld, rfl, congrArg Life.busy (writeEnd_life hs)⟩
  | _ => exact Or.inl ⟨rfl, fun q hq => Or.inl hq⟩

/-- `bius_queue_rq` returns `BLK_STS_OK` for a supported operation. -/
theorem step_status (h : step cfg s act = some s') (hsup : act.Supported) {t : Tid} {v : Nat}
    (hv : s'.call t = .done (.status v)) : s.call t = .done (.status v) ∨ v = blkStsOk := by
  by_cases htid : act.tid = some t
  · refine Or.inr ?_
    cases step_cases h with
    | queueRq u p rq ht hp =>
      cases htid
      have hne : (initBlkRequest (s.req p) s.newId rq).type ≠ .invalidOp := hsup
      unfold Kernel.queueRq at hv
      dsimp only at hv
      rw [if_neg hne, Kernel.submit_call, Function.update_self] at hv
      cases hv
    | reportZones u p sector n blkz ht hp =>
      cases htid
      cases blkz <;> simp [Kernel.reportZones] at hv
    | insert u p ht =>
      cases htid
      rw [Kernel.insert_call, Function.update_self] at hv
      split at hv
      · cases hv; rfl
      · cases hv
    | zonesWake u p junk cb ht hsem =>
      cases htid
      dsimp only at hv
      rw [Function.update_self, Kernel.reportZonesEnd] at hv
      dsimp only at hv
      split at hv <;> cases hv
    | readStart u c size cuts ht hs => cases htid; exact absurd hv ((readStart_keeps hs).2.2.2.1 v)
    | readInterrupt u c e ht => cases htid; simp at hv
    | readTake u c p ps ht hp hs =>
      cases htid
      rw [(prepare_keeps hs).2.2.2] at hv
      simp at hv
    | readSend u c p n ht =>
      cases htid
      unfold Kernel.readSend at hv
      split at hv <;> simp at hv
    | writeStart u c size n header ht hc => cases htid; exact absurd hv ((writeStart_keeps s t c size n header).2.2.2.1 v)
    | writeEnd u c p header n umem ht hs =>
      cases htid
      exact absurd hv (writeEnd_ne_status hs v)
    | ret u r ht => cases htid; simp at hv
    | attach | mmap => cases htid
  · exact Or.inl (by rw [← step_call h htid]; exact hv)

end

/-! ## Runs -/

/-- What holds while only supported operations are submitted. -/
structure BlockLayer.Sound (cfg : Config) (b : BlockLayer) : Prop where
  kernel : Machine.Reach (step cfg) (fun _ _ => True) Kernel.init b.kernel
  accepted : ∀ t v, b.kernel.call t = .done (.status v) → v = blkStsOk
  inFlight : ∀ p, b.kernel.busy p = true → isBlkRequest (b.kernel.req p).type = true → b.completions p = 0
  once : ∀ p, b.completions p ≤ 1

theorem sound_init (cfg : Config) : BlockLayer.init.Sound cfg := by
  refine ⟨.refl _, fun t v h => ?_, fun _ _ _ => rfl, fun _ => Nat.zero_le _⟩
  simp [BlockLayer.init, Kernel.init] at h

theorem held_busy {cfg : Config} {s : Kernel} (h : Machine.Reach (step cfg) (fun _ _ => True) Kernel.init s) {t : Tid}
    {p : Ptr} (hp : (s.call t).held = some p) : s.busy p = true := by
  obtain ⟨loc, hl⟩ := reach_located h
  apply (hl.busy p).2
  cases hc : s.call t with
  | readTaken c q =>
    rw [hc] at hp; cases hp
    rw [(hl.taken t c p).1 (by simp [Kernel.life, hc, Call.hold])]
    simp
  | replied c q header n =>
    rw [hc] at hp; cases hp
    rw [(hl.replied t c p).1 (by simp [Kernel.life, hc, Call.hold])]
    simp
  | _ => rw [hc] at hp; cases hp

theorem completes_some {s s' : Kernel} {act : Act} {p : Ptr} (h : s.completes act s' = some p) :
    s'.ended ≠ s.ended ∧ act.touches s = some p ∧ isBlkRequest (s'.req p).type = true := by
  unfold Kernel.completes at h
  split at h
  · next hlt =>
    rw [Option.filter_eq_some_iff] at h
    exact ⟨fun heq => by rw [heq] at hlt; omega, h⟩
  · cases h

theorem BlockLayer.Sound.count {cfg : Config} {b : BlockLayer} (h : b.Sound cfg) {act : Act} {k : Kernel}
    (hs : step cfg b.kernel act = some k) (hsup : act.Supported) {completions : Ptr → Nat}
    (hle : ∀ p, completions p ≤ b.completions p)
    (hnew : ∀ p, act.submits = true → act.touches b.kernel = some p → k.busy p = true →
      isBlkRequest (k.req p).type = true → completions p = 0) (dispatching : Tid → Option Ptr) :
    BlockLayer.Sound cfg ⟨k, dispatching, countCompletion completions (b.kernel.completes act k)⟩ := by
  have htype : ∀ q, b.kernel.busy q = true → (k.req q).type = (b.kernel.req q).type := by
    intro q hq
    have hrw := step_rewritten hs q
    rw [hq] at hrw
    exact hrw.type_eq
  have hcall : ∀ t v, k.call t = .done (.status v) → v = blkStsOk := by
    intro t v hv
    rcases step_status hs hsup hv with hold | hok
    · exact h.accepted t v hold
    · exact hok
  rcases step_ends hs hsup with ⟨hended, hbusy⟩ | ⟨t, p, hheld, htouch, hsub, hbusy⟩
  · have hnone : b.kernel.completes act k = none := by
      by_contra hne
      obtain ⟨q, hq⟩ := Option.ne_none_iff_exists'.1 hne
      exact (completes_some hq).1 hended
    rw [hnone]
    refine ⟨h.kernel.snoc trivial hs, hcall, fun q hq hb => ?_, fun q => Nat.le_trans (hle q) (h.once q)⟩
    rcases hbusy q hq with hold | ⟨hsub, htouch⟩
    · have h0 := h.inFlight q hold (by rw [← htype q hold]; exact hb)
      have := hle q
      simp only [countCompletion]
      omega
    · exact hnew q hsub htouch hq hb
  · -- the request the thread holds is in flight, so it has not been completed yet
    have hp := held_busy h.kernel hheld
    have hq : ∀ q, (q ≠ p ∨ isBlkRequest (b.kernel.req p).type = false) →
        countCompletion completions (b.kernel.completes act k) q = completions q := by
      intro q hq
      cases hc : b.kernel.completes act k with
      | none => rfl
      | some x =>
        obtain ⟨-, hx, hblk⟩ := completes_some hc
        rw [htouch] at hx
        cases hx
        rcases hq with hne | hzones
        · exact Function.update_of_ne hne _ _
        · rw [htype p hp, hzones] at hblk
          cases hblk
    have hone : countCompletion completions (b.kernel.completes act k) p ≤ completions p + 1 := by
      cases hc : b.kernel.completes act k with
      | none => exact Nat.le_succ _
      | some x =>
        obtain ⟨-, hx, -⟩ := completes_some hc
        rw [htouch] at hx
        cases hx
        exact Nat.le_of_eq (Function.update_self _ _ _)
    refine ⟨h.kernel.snoc trivial hs, hcall, fun q hqb hb => ?_, fun q => ?_⟩
    · by_cases hqp : q = p
      · subst hqp
        dsimp only at hqb hb
        rw [htype q hp] at hb
        rw [hbusy, if_pos hb, Function.update_self] at hqb
        cases hqb
      · dsimp only at hqb hb
        have hold : b.kernel.busy q = true := by
          rw [hbusy] at hqb
          split at hqb
          · rwa [Function.update_of_ne hqp] at hqb
          · exact hqb
        have h0 := h.inFlight q hold (by rw [← htype q hold]; exact hb)
        have := hle q
        show countCompletion _ _ q = 0
        rw [hq q (Or.inl hqp)]
        omega
    · show countCompletion _ _ q ≤ 1
      by_cases hqp : q = p
      · subst hqp
        cases hb : isBlkRequest (b.kernel.req q).type with
        | true =>
          have h0 := h.inFlight q hp hb
          have := hle q
          omega
        | false =>
          rw [hq q (Or.inr hb)]
          exact Nat.le_trans (hle q) (h.once q)
      · rw [hq q (Or.inl hqp)]
        exact Nat.le_trans (hle q) (h.once q)

theorem sound_blkStep {cfg : Config} {b b' : BlockLayer} {act : Act} (h : b.Sound cfg) (hsup : act.Supported)
    (hs : blkStep cfg b act = some b') : b'.Sound cfg := by
  rw [blkStep, Option.map_eq_some_iff] at hs
  obtain ⟨k, hk, rfl⟩ := hs
  cases act with
  | queueRq t p rq =>
    refine h.count hk hsup (fun q => ?_) (fun q _ htouch _ _ => ?_) _
    · rw [Function.update_apply]
      split
      · exact Nat.zero_le _
      · exact Nat.le_refl _
    · cases htouch
      exact Function.update_self _ _ _
  | ret t =>
    have hplain : ∀ dispatching, BlockLayer.Sound cfg ⟨k, dispatching, b.completions⟩ := by
      intro dispatching
      have hnone : b.kernel.completes (.ret t) k = none := by
        unfold Kernel.completes
        split <;> rfl
      have hcount := h.count hk hsup (fun q => Nat.le_refl _) (fun q hsub => by cases hsub) dispatching
      rwa [hnone] at hcount
    dsimp only
    split
    · next v p hv hp =>
      rw [h.accepted t v hv]
      exact hplain _
    · exact hplain _
  | reportZones t p sector n blkz =>
    refine h.count hk hsup (fun q => Nat.le_refl _) (fun q _ htouch hq hb => ?_) _
    cases htouch
    cases step_cases hk with
    | reportZones t p sector n blkz ht hp =>
      cases blkz with
      | none =>
        have hfree : b.kernel.busy p = true := hq
        rw [hp] at hfree
        cases hfree
      | some blkz =>
        simp only [Kernel.reportZones, Kernel.submit_req, Function.update_self] at hb
        cases hb
  | _ => exact h.count hk hsup (fun q => Nat.le_refl _) (fun q hsub => by cases hsub) _

/-- The request is in no list of the module. -/
def Kernel.Unlisted (s : Kernel) (p : Ptr) : Prop := p ∉ s.pending ∧ ∀ c, p ∉ (s.conn c).waiting

theorem unlisted_of_free {loc : Ptr → Life.Loc} {s : Kernel} (hl : Life.Located loc s.life) {p : Ptr}
    (hp : s.busy p = false) : s.Unlisted p := by
  obtain ⟨hfree, hpend⟩ := hl.free hp
  refine ⟨hpend, fun c hc => ?_⟩
  rw [(hl.waiting c p).1 hc] at hfree
  cases hfree

theorem queueRq_refused (s : Kernel) (t : Tid) (p : Ptr) {rq : Rq} (hop : toBiusRequest rq.op = .invalidOp) :
    s.queueRq t p rq =
      { s with
        nextRequestId := s.nextRequestId + 1
        req := Function.update s.req p (initBlkRequest (s.req p) s.newId rq)
        call := Function.update s.call t (.done (.status blkStsNotsupp))
        ended := s.ended ++ [{ initBlkRequest (s.req p) s.newId rq with blkResult := blkStsNotsupp }] } := by
  unfold Kernel.queueRq
  exact if_pos hop

/-- **Completed at most once.** In every run that submits only operations that
    `to_bius_request` knows, no request is completed twice. Whatever is submitted
    next, a request for which `bius_queue_rq` returns a status that makes the block
    layer complete it is in no list; and if its operation is unsupported, it has
    been completed twice when the block layer is done with it. -/
theorem completed_once {cfg : Config} {b : BlockLayer}
    (h : Machine.Reach (blkStep cfg) (fun _ act => act.Supported) BlockLayer.init b) :
    (∀ p, b.completions p ≤ 1) ∧
    ∀ t p rq b₁, blkStep cfg b (.queueRq t p rq) = some b₁ →
      (∀ v, b₁.kernel.call t = .done (.status v) → leavesToDriver v = false → b₁.kernel.Unlisted p) ∧
      (toBiusRequest rq.op = .invalidOp → ∃ b₂, blkStep cfg b₁ (.ret t) = some b₂ ∧
        b₂.completions p = 2) := by
  have hsound : b.Sound cfg := h.inv (fun _ _ _ hb hsup hs => sound_blkStep hb hsup hs) (sound_init cfg)
  refine ⟨hsound.once, fun t p rq b₁ hs => ?_⟩
  rw [blkStep, Option.map_eq_some_iff] at hs
  obtain ⟨k, hk, rfl⟩ := hs
  obtain ⟨loc, hl⟩ := reach_located hsound.kernel
  cases step_cases hk with
  | queueRq t p rq ht hp =>
    constructor
    · intro v hv hdriver
      by_cases hop : toBiusRequest rq.op = .invalidOp
      · have hfree := unlisted_of_free hl hp
        rw [queueRq_refused _ _ _ hop]
        exact hfree
      · have hne : (initBlkRequest (b.kernel.req p) b.kernel.newId rq).type ≠ .invalidOp := hop
        unfold Kernel.queueRq at hv
        simp [if_neg hne] at hv
    · intro hop
      have hcompletes : b.kernel.completes (.queueRq t p rq) (b.kernel.queueRq t p rq) = some p := by
        rw [queueRq_refused _ _ _ hop]
        simp [Kernel.completes, Act.touches, initBlkRequest, hop, isBlkRequest]
      have hcall : (b.kernel.queueRq t p rq).call t = .done (.status blkStsNotsupp) := by
        rw [queueRq_refused _ _ _ hop]
        simp
      dsimp only
      rw [hcompletes]
      simp [blkStep, step, hcall, leavesToDriver, blkStsNotsupp, blkStsOk, blkStsResource, blkStsDevResource,
        countCompletion]

/-- A flush is submitted, sent to connection 0 and answered. -/
def oneFlush : List Act :=
  [.attach 0, .queueRq (.blk 0) 5 ⟨2, 0, 0, [], flush_len⟩, .insert (.blk 0), .ret (.blk 0),
   .readStart (.user 0) 0 56 [], .readTake (.user 0), .readSend (.user 0) 56, .ret (.user 0),
   .writeStart (.user 0) 0 24 24 ⟨1, 0, 0⟩, .writeEnd (.user 0) (fun _ => none)]

theorem completed_once_oneFlush : ∃ b, Machine.run (blkStep ⟨false⟩) .init oneFlush = some b ∧
    b.completions 5 = 1 ∧ ∀ p, b.completions p ≤ 1 := by
  refine ⟨_, rfl, rfl, ?_⟩
  refine (@completed_once ⟨false⟩ _ ⟨oneFlush, Machine.Steps.of_run_ok rfl (fun _ act hact => ?_)⟩).1
  simp only [oneFlush, List.mem_cons, List.not_mem_nil, or_false] at hact
  rcases hact with rfl | rfl | rfl | rfl | rfl | rfl | rfl | rfl | rfl | rfl
  · trivial
  · exact (by decide : toBiusRequest 2 ≠ .invalidOp)
  all_goals trivial

/-- A write-zeroes request (operation 9) is refused, and completed twice. -/
theorem completed_twice : ∃ b, Machine.run (blkStep ⟨false⟩) .init
    [.queueRq (.blk 0) 5 ⟨9, 0, 0, [], by decide⟩, .ret (.blk 0)] = some b ∧ b.completions 5 = 2 :=
  ⟨_, rfl, rfl⟩

end Bius
