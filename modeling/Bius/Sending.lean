import Bius.RequestSteps

/- The payload of a write in the default build. `bius_dev_read` keeps in
   `connection->sending` the write whose payload the next reads get. Its `map_data`
   counts what is left of the bio chain (`BiusRequest.Unsent` before the first read,
   `BiusRequest.PartSent` while the pointer is set), whatever userspace reads,
   replies or fails to take. Between the calls of a connection the pointer names a
   write that waits on this connection (`sending_sound`). -/
namespace Bius

/-- Nothing of the request's data has been sent yet. -/
def BiusRequest.Unsent (r : BiusRequest) : Prop :=
  requestMayHaveData r.type = true → r.length = (chainBytes r.bio).length ∧ r.length < 2 ^ 32

/-- `map_data` bytes of a write's data are still to be sent, and there are some. -/
structure BiusRequest.PartSent (r : BiusRequest) : Prop where
  write : requestIsWrite r.type = true
  pos : 0 < r.mapData
  le : r.mapData ≤ r.length
  left : r.mapData = (chainBytes r.bio).length
  small : r.length < 2 ^ 32

/-- The length of a block request is 32 bits wide. -/
def Act.Sized : Act → Prop
  | .queueRq _ _ rq => rq.dataLen < 2 ^ 32
  | _ => True

theorem BiusRequest.PartSent.bio_ne {r : BiusRequest} (h : r.PartSent) : r.bio ≠ [] := by
  intro hnil
  have hleft := h.left
  have hpos := h.pos
  rw [hnil, chainBytes_nil, List.length_nil] at hleft
  omega

theorem BiusRequest.PartSent.send {r : BiusRequest} (h : r.PartSent) (hr : r.mapType = .unmapped) {size : Nat}
    {cuts : List Nat} {res : BiusRequest × Except Int (List UInt8)} (hres : biusSendData r size cuts = some res)
    (hmore : requestIoDone res.1 = false) : res.1.PartSent := by
  have hsmall : r.mapData < 2 ^ 64 := by
    have := h.le
    have := h.small
    omega
  obtain ⟨bio, k, hk, hbio, -, hsend⟩ := biusSendData_spec hr h.left hsmall size cuts
  rw [hsend] at hres
  cases hres
  simp only [requestIoDone, hr, bne_self_eq_false, Bool.false_eq_true, if_false, beq_eq_false_iff_ne] at hmore
  refine ⟨h.write, Nat.pos_of_ne_zero hmore, ?_, ?_, h.small⟩
  · exact Nat.le_trans (Nat.sub_le _ _) h.le
  · show r.mapData - k = (chainBytes bio).length
    rw [hbio, List.length_drop, h.left]

/-- What holds of the payloads in every reachable state. -/
structure Kernel.Payloads (s : Kernel) : Prop where
  unmapped : ∀ p, (s.req p).mapType = .unmapped
  unsent : ∀ p, s.OnTheWay p → (s.req p).Unsent
  sending : ∀ c p, (s.conn c).sending = some p → (s.req p).PartSent

theorem step_unmapped {s s' : Kernel} {act : Act} (h : step ⟨false⟩ s act = some s') {q : Ptr}
    (hq : (s.req q).mapType = .unmapped) : (s'.req q).mapType = .unmapped := by
  have hrw := step_rewritten h q
  generalize s'.req q = r' at hrw ⊢
  cases hrw with
  | mapped vmStart hcfg => cases hcfg
  | sent size cuts res hsend hres =>
    obtain ⟨_, _, hr⟩ := biusSendData_keeps hres
    rw [hr]
    exact hq
  | finished rq mapType pos blkResult hb hlen hmap =>
    rcases hmap with rfl | rfl
    · exact hq
    · rfl
  | queued id rq hb => rfl
  | _ => exact hq

section
variable {s s' : Kernel} {act : Act} {loc : Ptr → Life.Loc} {q : Ptr}

theorem Kernel.Payloads.unsent_step (hs : s.Payloads) (hl : Life.Located loc s.life) (h : step ⟨false⟩ s act = some s')
    (hsize : act.Sized) (hq : s'.OnTheWay q) : (s'.req q).Unsent := by
  refine onTheWay_step hl h (fun t p rq hact hdata => ?_) (fun _ _ _ _ _ hdata => by cases hdata) hs.unsent hq
  subst hact
  exact ⟨rq.len_eq hdata, hsize⟩

/-- While the pointer is set, the payload is sent piece by piece and in no other way. -/
theorem Kernel.Payloads.sending_step (hs : s.Payloads) (hl : Life.Located loc s.life)
    (h : step ⟨false⟩ s act = some s') {c : Nat} (hc : (s'.conn c).sending = some q) : (s'.req q).PartSent := by
  rcases step_sending h hc with hold | ⟨hpend, hwrite, hpos, hreq⟩
  · have hpart := hs.sending c q hold
    have hhome := hl.sending c q hold
    by_cases htouch : act.touches s = some q
    · cases step_cases h with
      | queueRq t p rq ht hp | reportZones t p _ _ _ ht hp =>
        cases htouch
        rw [(hl.free hp).1] at hhome
        simp at hhome
      | readStart t d size cuts ht hread =>
        -- a payload belongs to one connection, so this read is one of `c`
        have hd : (s.conn d).sending = some q := htouch
        have hdc : d = c := by
          rcases hl.sending d q hd with hw | ⟨u, hw⟩ <;> rw [hw] at hhome <;> simpa using hhome
        subst hdc
        unfold Kernel.readStart at hread
        split at hread
        · cases hread
          exact hpart
        · rw [hd] at hread
          rw [Option.map_eq_some_iff] at hread
          obtain ⟨res, hres, rfl⟩ := hread
          cases hdone : requestIoDone res.1 with
          | true =>
            simp only [hdone, if_true] at hc
            split at hc <;> simp at hc
          | false =>
            have hsent := hpart.send (hs.unmapped q) hres hdone
            simp only [Bool.false_eq_true, if_false]
            split <;> simpa using hsent
      | readTake t d p ps ht hp hread =>
        simp only [Act.touches, hp, List.head?_cons, Option.some.injEq] at htouch
        subst htouch
        rw [(hl.pending p).1 (by simp [Kernel.life, hp])] at hhome
        simp at hhome
      | readSend t d p n ht =>
        simp only [Act.touches, ht, Call.held, Option.some.injEq] at htouch
        subst htouch
        have hdc : d = c := by
          rw [(hl.taken t d p).1 (by simp [Kernel.life, ht, Call.hold])] at hhome
          simpa using hhome
        subst hdc
        unfold Kernel.readSend at hc ⊢
        split at hc
        · simp at hc
        · next hn =>
          rw [if_neg hn]
          exact hpart
      | writeEnd t d p header n umem ht hwrite =>
        simp only [Act.touches, ht, Call.held, Option.some.injEq] at htouch
        subst htouch
        rw [(hl.replied t d p).1 (by simp [Kernel.life, ht, Call.hold])] at hhome
        simp at hhome
      | _ => cases htouch
    · rw [step_req h htouch]
      exact hpart
  · obtain ⟨hlen, hsmall⟩ := hs.unsent q (Or.inl hpend) (requestMayHaveData_of_isWrite hwrite)
    rw [hreq]
    exact ⟨hwrite, hpos, Nat.le_refl _, hlen, hsmall⟩

end

theorem reach_payloads {s : Kernel} (h : Machine.Reach (step ⟨false⟩) (fun _ act => act.Sized) Kernel.init s) :
    s.Payloads := by
  refine h.induct ?_ ?_
  · refine ⟨fun _ => rfl, fun p hp => ?_, fun c p hp => by cases hp⟩
    rcases hp with hp | ⟨t, ht⟩
    · cases hp
    · cases ht
  · intro s act s' hr hs hsize hst
    obtain ⟨loc, hl⟩ := reach_located hr
    exact ⟨fun p => step_unmapped hst (hs.unmapped p), fun p hp => hs.unsent_step hl hst hsize hp,
      fun c p hp => hs.sending_step hl hst hp⟩

/-- The connection a thread is inside a call of. -/
def Call.connection : Call → Option Nat
  | .readWait c | .readTaken c _ | .replied c _ _ _ => some c
  | _ => none

/-- **The sending pointer.** In every state in which no call of connection `c` is in
    progress, `c->sending` is NULL or a write that waits for its reply on `c`, has
    not been ended, is not mapped, and has `map_data` bytes left in its bio chain. -/
theorem sending_sound {s : Kernel} (h : Machine.Reach (step ⟨false⟩) (fun _ act => act.Sized) Kernel.init s)
    {c : Nat} (hidle : ∀ t, (s.call t).connection ≠ some c) {p : Ptr} (hp : (s.conn c).sending = some p) :
    requestIsWrite (s.req p).type = true ∧ p ∈ (s.conn c).waiting ∧ s.busy p = true ∧
      (s.req p).mapType = .unmapped ∧ 0 < (s.req p).mapData ∧ (s.req p).mapData ≤ (s.req p).length ∧
      (s.req p).bio ≠ [] ∧ (s.req p).mapData = (chainBytes (s.req p).bio).length := by
  obtain ⟨loc, hl⟩ := reach_located h
  have hs := reach_payloads h
  have hpart := hs.sending c p hp
  have hloc : loc p = .waiting c := by
    rcases hl.sending c p hp with hw | ⟨t, ht⟩
    · exact hw
    · have hhold := (hl.taken t c p).2 ht
      refine absurd ?_ (hidle t)
      simp only [Kernel.life] at hhold
      cases hcall : s.call t with
      | readTaken d q =>
        rw [hcall] at hhold
        cases hhold
        rfl
      | _ => rw [hcall] at hhold; cases hhold
  refine ⟨hpart.write, (hl.waiting c p).2 hloc, (hl.busy p).2 (by rw [hloc]; simp), hs.unmapped p, hpart.pos,
    hpart.le, hpart.bio_ne, hpart.left⟩

/-- A write of four bytes; connection 0 has got its command and the first two of
    them. -/
def halfSent : List Act :=
  [.attach 0, .queueRq (.blk 0) 5 ⟨1, 0, 4, [⟨[⟨16, 0, [1, 2, 3, 4], by decide⟩]⟩], fun _ => rfl⟩,
   .insert (.blk 0), .ret (.blk 0), .readStart (.user 0) 0 56 [], .readTake (.user 0),
   .readSend (.user 0) 56, .ret (.user 0), .readStart (.user 0) 0 2 [], .ret (.user 0)]

theorem sending_sound_halfSent : ∃ s, Machine.run (step ⟨false⟩) Kernel.init halfSent = some s ∧
    (s.conn 0).sending = some 5 ∧ 5 ∈ (s.conn 0).waiting ∧ (s.req 5).mapData = 2 ∧
    (s.req 5).mapData = (chainBytes (s.req 5).bio).length := by
  obtain ⟨s, hrun, hsend, hleft, hcalls⟩ : ∃ s, Machine.run (step ⟨false⟩) Kernel.init halfSent = some s ∧
      (s.conn 0).sending = some 5 ∧ (s.req 5).mapData = 2 ∧ s.call (.user 0) = .idle ∧ s.call (.blk 0) = .idle :=
    ⟨_, rfl, rfl, rfl, rfl, rfl⟩
  have hidle : ∀ t, (s.call t).connection ≠ some 0 := by
    intro t
    have hcall : s.call t = .idle := by
      by_cases htid : t = .user 0 ∨ t = .blk 0
      · rcases htid with rfl | rfl
        · exact hcalls.1
        · exact hcalls.2
      · refine steps_call (Machine.Steps.of_run hrun) (fun act hact hmoves => htid ?_)
        simp only [halfSent, List.mem_cons, List.not_mem_nil, or_false] at hact
        rcases hact with rfl | rfl | rfl | rfl | rfl | rfl | rfl | rfl | rfl | rfl <;> cases hmoves <;> simp
    rw [hcall]
    simp [Call.connection]
  have hsound := sending_sound ⟨halfSent, Machine.Steps.of_run_ok hrun (fun _ act hact => ?_)⟩ hidle hsend
  · exact ⟨s, hrun, hsend, hsound.2.1, hleft, hsound.2.2.2.2.2.2.2⟩
  · simp only [halfSent, List.mem_cons, List.not_mem_nil, or_false] at hact
    rcases hact with rfl | rfl | rfl | rfl | rfl | rfl | rfl | rfl | rfl | rfl
    · trivial
    · exact (by decide : 4 < 2 ^ 32)
    all_goals trivial

end Bius
