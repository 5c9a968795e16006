import Bius.KernelPlaces

/- What the steps of the kernel machine do to one request. `Rewritten` lists every
   show a step makes to the contents of a request (`step_rewritten`), so a
   property of requests that these changes preserve holds of every request in
   every reachable state (`reach_request`). -/
namespace Bius

/-- From `r` to `r'` in one step; `busy` says whether the request was in flight,
    `sending` whether the payload of `r` was being sent. -/
inductive Rewritten (cfg : Config) (busy : Bool) (sending : Prop) (r : BiusRequest) : BiusRequest → Prop where
  | same : Rewritten cfg busy sending r r
  | queued (id : Nat) (rq : Rq) : busy = false → Rewritten cfg busy sending r (initBlkRequest r id rq)
  | zones (id sector nrZones : Nat) (blkz : List UInt8) : busy = false → nrZones ≤ biusMaxZones →
      blkz.length = sizeofBlkZone * nrZones →
      Rewritten cfg busy sending r (initZonesRequest r id sector nrZones blkz)
  /-- the payload is to be sent by the next reads -/
  | later : requestIsWrite r.type = true → (cfg.datamap = true → r.length ≤ biusMapDataThreshold) →
      Rewritten cfg busy sending r { r with mapData := r.length }
  | mapped (vmStart : Nat) : cfg.datamap = true → requestMayHaveData r.type = true →
      biusMapDataThreshold < r.length →
      Rewritten cfg busy sending r (biusMapData r vmStart (rqForEachSegment r.rq)).2
  | sent (size : Nat) (cuts : List Nat) (res : BiusRequest × Except Int (List UInt8)) : sending →
      biusSendData r size cuts = some res → Rewritten cfg busy sending r res.1
  /-- the command could not be sent -/
  | failed : Rewritten cfg busy sending r
      { r with blkResult := blkStsIoerr, sem := if isBlkRequest r.type then r.sem else r.sem + 1 }
  /-- a reply to a block request -/
  | finished (rq : List Bio) (mapType : DataMapType) (pos : Int) (blkResult : Nat) :
      isBlkRequest r.type = true → (chainBytes rq).length = (chainBytes r.rq).length →
      mapType = r.mapType ∨ mapType = .unmapped →
      Rewritten cfg busy sending r { r with rq := rq, mapType := mapType, pos := pos, blkResult := blkResult }
  /-- a reply to a report-zones request -/
  | answered (data : List UInt8) (intResult : Option Int) : isBlkRequest r.type = false →
      Rewritten cfg busy sending r { r with data := data, intResult := intResult, sem := r.sem + 1 }

/-! ## Lengths of what is received -/

theorem receiveVecs_length (umem : UMem) (vs : List BVec) (addr : Nat) :
    ((receiveVecs umem vs addr).1.flatMap BVec.data).length = (vs.flatMap BVec.data).length := by
  induction vs generalizing addr with
  | nil => rfl
  | cons v vs ih =>
    have hfill := copyFromUser_length umem addr v.data.length
    simp only [receiveVecs]
    split
    · simp [BVec.fill, hfill]
    · simp only [List.flatMap_cons, List.length_append, ih, BVec.fill, hfill]

theorem receiveBios_length (umem : UMem) (bios : List Bio) (addr : Nat) :
    (chainBytes (receiveBios umem bios addr).1).length = (chainBytes bios).length := by
  induction bios generalizing addr with
  | nil => rfl
  | cons b bios ih =>
    have hvecs := receiveVecs_length umem b.vecs addr
    simp only [receiveBios]
    split
    · simp only [chainBytes_cons, List.length_append, ih, Bio.bytes, hvecs]
    · simp only [chainBytes_cons, List.length_append, Bio.bytes, hvecs]

theorem biusReceiveData_length (r : BiusRequest) (umem : UMem) (userData : Nat) :
    ∃ rq, (biusReceiveData r umem userData).1 = { r with rq := rq } ∧
      (chainBytes rq).length = (chainBytes r.rq).length := by
  unfold biusReceiveData
  split
  · exact ⟨r.rq, rfl, rfl⟩
  · split
    · exact ⟨r.rq, rfl, rfl⟩
    · exact ⟨_, rfl, receiveBios_length umem r.rq userData⟩

/-! ## One step -/

section
variable {s s' : Kernel} {cfg : Config} {busy : Bool} {sending : Prop}

theorem endBlkRequest_req (s : Kernel) (p : Ptr) (result : Int) :
    (s.endBlkRequest p result).req p =
      { s.req p with
        blkResult := blkStatus result
        sem := if isBlkRequest (s.req p).type then (s.req p).sem else (s.req p).sem + 1 } := by
  unfold Kernel.endBlkRequest
  by_cases hb : isBlkRequest (s.req p).type = true <;> simp [hb]

theorem endRequestInt_req (s : Kernel) {p : Ptr} (hb : isBlkRequest (s.req p).type = false) (result : Int) :
    (s.endRequestInt p result).req p =
      { s.req p with intResult := some (toInt32 result), sem := (s.req p).sem + 1 } := by
  unfold Kernel.endRequestInt
  simp [hb]

theorem prepare_rewritten {c : Nat} {p : Ptr} (h : s.prepare cfg c p = some s') :
    Rewritten cfg busy sending (s.req p) (s'.req p) := by
  unfold Kernel.prepare at h
  split at h
  · next hdata =>
    rw [Bool.and_eq_true, decide_eq_true_eq] at hdata
    split at h
    · next hmap =>
      rw [Bool.and_eq_true, decide_eq_true_eq] at hmap
      rw [Option.map_eq_some_iff] at h
      obtain ⟨vmStart, -, rfl⟩ := h
      have hreq : (s.mapData c p vmStart).req p =
          (biusMapData (s.req p) vmStart (rqForEachSegment (s.req p).rq)).2 := by simp [Kernel.mapData]
      rw [hreq]
      exact .mapped vmStart hmap.1 hdata.1 hmap.2
    · next hmap =>
      split at h
      · next hwrite =>
        cases h
        have hreq : (s.sendLater c p).req p = { s.req p with mapData := (s.req p).length } := by
          simp [Kernel.sendLater]
        rw [hreq]
        refine .later hwrite (fun hcfg => ?_)
        simp only [hcfg, Bool.true_and, decide_eq_true_eq] at hmap
        omega
      · cases h; exact .same
  · cases h; exact .same

theorem finishBlk_req {t : Tid} {c : Nat} {p : Ptr} {header : U2k} {n : Nat}
    (hb : isBlkRequest (s.req p).type = true) (h : s.finishBlk cfg t c p header n = some s') :
    ∃ mapType pos, (mapType = (s.req p).mapType ∨ mapType = .unmapped) ∧
      s'.req p = { s.req p with mapType := mapType, pos := pos, blkResult := blkStatus header.reply } := by
  have hfin : ∀ s₁ : Kernel, isBlkRequest (s₁.req p).type = true → ∃ pos,
      ((Kernel.endBlkRequest (if (s₁.req p).type = .zoneAppend then
          s₁.setReq p { s₁.req p with pos := toInt64 header.userData } else s₁) p header.reply).setCall t
        (.done (.value n))).req p = { s₁.req p with pos := pos, blkResult := blkStatus header.reply } := by
    intro s₁ hb₁
    rw [Kernel.setCall_req, endBlkRequest_req]
    split
    · exact ⟨toInt64 header.userData, by simp [hb₁]⟩
    · exact ⟨(s₁.req p).pos, rfl⟩
  unfold Kernel.finishBlk at h
  dsimp only at h
  split at h
  · rw [Option.map_eq_some_iff] at h
    obtain ⟨vmStart, -, rfl⟩ := h
    have hun : ∃ mapType, (mapType = (s.req p).mapType ∨ mapType = .unmapped) ∧
        (biusUnmapData (s.req p) vmStart).2 = { s.req p with mapType := mapType } := by
      unfold biusUnmapData
      split
      · exact ⟨(s.req p).mapType, Or.inl rfl, rfl⟩
      · exact ⟨.unmapped, Or.inr rfl, rfl⟩
    obtain ⟨mapType, hmt, hun⟩ := hun
    obtain ⟨pos, hpos⟩ := hfin ((s.setReq p (biusUnmapData (s.req p) vmStart).2).setConn c
      { s.conn c with
        ptes := Kernel.mapPtes (s.conn c).ptes (biusUnmapData (s.req p) vmStart).1
        mapper := Kernel.mapMapper none (s.conn c).mapper (biusUnmapData (s.req p) vmStart).1 })
      (by simp [hun, hb])
    refine ⟨mapType, pos, hmt, hpos.trans ?_⟩
    simp [hun]
  · cases h
    obtain ⟨pos, hpos⟩ := hfin s hb
    exact ⟨(s.req p).mapType, pos, Or.inl rfl, hpos⟩

theorem writeEnd_rewritten {t : Tid} {c : Nat} {p : Ptr} {header : U2k} {n : Nat} {umem : UMem}
    (h : s.writeEnd cfg t c p header n umem = some s') :
    Rewritten cfg busy sending (s.req p) (s'.req p) := by
  unfold Kernel.writeEnd at h
  dsimp only at h
  split at h
  · next hb =>
    split at h
    · obtain ⟨rq, hrq, hlen⟩ := biusReceiveData_length (s.req p) umem header.userData
      rw [hrq] at h
      split at h
      · cases h
        rw [Kernel.setCall_req, endBlkRequest_req]
        simpa [hb] using
          Rewritten.finished rq (s.req p).mapType (s.req p).pos (blkStatus blkStsIoerr) hb hlen (Or.inl rfl)
      · obtain ⟨mapType, pos, hmt, hreq⟩ := finishBlk_req (by simpa using hb) h
        simp only [Kernel.setReq_req, Function.update_self] at hreq hmt
        rw [hreq]
        exact .finished rq mapType pos _ hb hlen hmt
    · obtain ⟨mapType, pos, hmt, hreq⟩ := finishBlk_req hb h
      rw [hreq]
      exact .finished (s.req p).rq mapType pos _ hb rfl hmt
  · next hb =>
    rw [Bool.not_eq_true] at hb
    split at h
    · cases h
      rw [Kernel.setCall_req, endRequestInt_req s hb]
      exact .answered (s.req p).data _ hb
    · split at h <;>
      · cases h
        rw [Kernel.setCall_req, endRequestInt_req _ (by simpa using hb)]
        simp only [Kernel.setReq_req, Function.update_self]
        exact .answered _ _ hb

end

theorem step_rewritten {cfg : Config} {s s' : Kernel} {act : Act} (h : step cfg s act = some s') (q : Ptr) :
    Rewritten cfg (s.busy q) (∃ c, (s.conn c).sending = some q) (s.req q) (s'.req q) := by
  by_cases htouch : act.touches s = some q
  · cases step_cases h with
    | queueRq t p rq ht hp =>
      cases htouch
      have hreq : (s.queueRq t q rq).req q = initBlkRequest (s.req q) s.newId rq := by
        unfold Kernel.queueRq
        dsimp only
        split <;> simp
      rw [hreq]
      exact .queued _ rq hp
    | reportZones t p sector n blkz ht hp =>
      cases htouch
      cases blkz with
      | none => exact .same
      | some blkz =>
        simp only [Kernel.reportZones, Kernel.submit_req, Function.update_self]
        exact .zones _ _ _ _ hp (Nat.min_le_right _ _) (Bytes.slice_length _ _ _)
    | readStart t c size cuts ht hs =>
      have hsend : (s.conn c).sending = some q := htouch
      unfold Kernel.readStart at hs
      split at hs
      · cases hs; exact .same
      · rw [hsend] at hs
        rw [Option.map_eq_some_iff] at hs
        obtain ⟨res, hres, rfl⟩ := hs
        dsimp only
        split <;> split <;> simp only [Kernel.setCall_req, Kernel.setConn_req, Kernel.setReq_req,
          Function.update_self] <;> exact .sent size cuts res ⟨c, hsend⟩ hres
    | readTake t c p ps ht hp hs =>
      simp only [Act.touches, hp, List.head?_cons, Option.some.injEq] at htouch
      subst htouch
      exact prepare_rewritten (s := { s with
          pending := ps
          taken := s.taken ++ [(s.req p).id]
          call := Function.update s.call t (.readTaken c p) }) hs
    | readSend t c p n ht =>
      simp only [Act.touches, ht, Call.held, Option.some.injEq] at htouch
      subst htouch
      unfold Kernel.readSend
      split
      · simp only [Kernel.setCall_req, Kernel.setConn_req]
        rw [endBlkRequest_req]
        exact .failed
      · exact .same
    | writeEnd t c p header n umem ht hs =>
      simp only [Act.touches, ht, Call.held, Option.some.injEq] at htouch
      subst htouch
      exact writeEnd_rewritten hs
    | _ => cases htouch
  · rw [step_req h htouch]
    exact .same

/-! ## What the straight-line parts leave alone -/

section
variable {cfg : Config} {s s' : Kernel}

theorem readStart_keeps {t : Tid} {c size : Nat} {cuts : List Nat} (h : s.readStart t c size cuts = some s') :
    s'.ended = s.ended ∧ s'.busy = s.busy ∧ s'.pending = s.pending ∧ (∀ v, s'.call t ≠ .done (.status v)) ∧
      ∀ p, s'.call t ≠ .queueing p := by
  unfold Kernel.readStart at h
  split at h
  · cases h
    exact ⟨rfl, rfl, rfl, by simp, by simp⟩
  · split at h
    · rw [Option.map_eq_some_iff] at h
      obtain ⟨res, -, rfl⟩ := h
      dsimp only
      split <;> split <;> exact ⟨rfl, rfl, rfl, by simp, by simp⟩
    · split at h <;>
      · cases h
        exact ⟨rfl, rfl, rfl, by simp, by simp⟩

theorem prepare_keeps {c : Nat} {p : Ptr} (h : s.prepare cfg c p = some s') :
    s'.ended = s.ended ∧ s'.busy = s.busy ∧ s'.pending = s.pending ∧ s'.call = s.call := by
  unfold Kernel.prepare at h
  split at h
  · split at h
    · rw [Option.map_eq_some_iff] at h
      obtain ⟨vmStart, -, rfl⟩ := h
      exact ⟨rfl, rfl, rfl, rfl⟩
    · split at h <;>
      · cases h
        exact ⟨rfl, rfl, rfl, rfl⟩
  · cases h
    exact ⟨rfl, rfl, rfl, rfl⟩

theorem writeStart_keeps (s : Kernel) (t : Tid) (c size n : Nat) (header : U2k) :
    (s.writeStart t c size n header).ended = s.ended ∧ (s.writeStart t c size n header).busy = s.busy ∧
      (s.writeStart t c size n header).pending = s.pending ∧
      (∀ v, (s.writeStart t c size n header).call t ≠ .done (.status v)) ∧
      ∀ p, (s.writeStart t c size n header).call t ≠ .queueing p := by
  unfold Kernel.writeStart
  split
  · exact ⟨rfl, rfl, rfl, by simp, by simp⟩
  · split
    · exact ⟨rfl, rfl, rfl, by simp, by simp⟩
    · split <;> exact ⟨rfl, rfl, rfl, by simp, by simp⟩

theorem step_pending {act : Act} (h : step cfg s act = some s') :
    s'.pending = s.pending ∨ (∃ t p, s.call t = .queueing p ∧ s'.pending = s.pending ++ [p]) ∨
      ∃ p, act.touches s = some p ∧ s.pending = p :: s'.pending := by
  cases step_cases h with
  | queueRq t p rq ht hp =>
    refine Or.inl ?_
    unfold Kernel.queueRq
    dsimp only
    split <;> rfl
  | reportZones t p sector n blkz ht hp => cases blkz <;> exact Or.inl rfl
  | insert t p ht => exact Or.inr (Or.inl ⟨t, p, ht, rfl⟩)
  | readStart t c size cuts ht hs => exact Or.inl (readStart_keeps hs).2.2.1
  | readTake t c p ps ht hp hs =>
    refine Or.inr (Or.inr ⟨p, by simp [Act.touches, hp], ?_⟩)
    rw [(prepare_keeps hs).2.2.1]
    exact hp
  | readSend t c p n ht =>
    refine Or.inl ?_
    unfold Kernel.readSend
    split <;> rfl
  | writeStart t c size n header ht hc => exact Or.inl (writeStart_keeps s t c size n header).2.2.1
  | writeEnd t c p header n umem ht hs => exact Or.inl (congrArg Life.pending (writeEnd_life hs))
  | _ => exact Or.inl rfl

/-- A thread is about to add a request to the list once it has submitted it. -/
theorem step_queueing {act : Act} (h : step cfg s act = some s') {t : Tid} {q : Ptr} (hq : s'.call t = .queueing q) :
    s.call t = .queueing q ∨ act.submits = true ∧ act.touches s = some q := by
  by_cases htid : act.tid = some t
  · refine Or.inr ?_
    have hhold : (s'.call t).hold = .filling q := by rw [hq]; rfl
    cases step_cases h with
    | queueRq u p rq ht hp =>
      cases htid
      unfold Kernel.queueRq at hq
      dsimp only at hq
      split at hq
      · simp at hq
      · simp only [Kernel.submit_call, Function.update_self, Call.queueing.injEq] at hq
        subst hq
        exact ⟨rfl, rfl⟩
    | reportZones u p sector n blkz ht hp =>
      cases htid
      cases blkz with
      | none => simp [Kernel.reportZones] at hq
      | some blkz =>
        simp only [Kernel.reportZones, Kernel.submit_call, Function.update_self, Call.queueing.injEq] at hq
        subst hq
        exact ⟨rfl, rfl⟩
    | insert u p ht =>
      cases htid
      rw [Kernel.insert_call, Function.update_self] at hq
      split at hq <;> cases hq
    | zonesWake u p junk cb ht hsem => cases htid; simp at hq
    | readStart u c size cuts ht hs => cases htid; exact absurd hq ((readStart_keeps hs).2.2.2.2 q)
    | readInterrupt u c e ht => cases htid; simp at hq
    | readTake u c p ps ht hp hs =>
      cases htid
      rw [(prepare_keeps hs).2.2.2] at hq
      simp at hq
    | readSend u c p n ht =>
      cases htid
      unfold Kernel.readSend at hq
      split at hq <;> simp at hq
    | writeStart u c size n header ht hc =>
      cases htid
      exact absurd hq ((writeStart_keeps s t c size n header).2.2.2.2 q)
    | writeEnd u c p header n umem ht hs =>
      cases htid
      have hnone : (s'.call t).hold = .nothing := by
        have hlife := congrFun (congrArg Life.hold (writeEnd_life hs)) t
        simpa [Kernel.life] using hlife
      rw [hnone] at hhold
      cases hhold
    | ret u r ht => cases htid; simp at hq
    | attach | mmap => cases htid
  · exact Or.inl (by rw [← step_call h htid]; exact hq)

end

/-! ## On the way to `bius_dev_read` -/

/-- The request is filled in, and has not been taken by a `bius_dev_read`. -/
def Kernel.OnTheWay (s : Kernel) (q : Ptr) : Prop := q ∈ s.pending ∨ ∃ t, s.call t = .queueing q

section
variable {cfg : Config} {s s' : Kernel} {act : Act} {loc : Ptr → Life.Loc} {q : Ptr}

theorem Kernel.OnTheWay.located (h : s.OnTheWay q) (hl : Life.Located loc s.life) :
    loc q = .pending ∨ ∃ t, loc q = .filling t := by
  rcases h with hq | ⟨t, ht⟩
  · exact Or.inl ((hl.pending q).1 hq)
  · exact Or.inr ⟨t, (hl.filling t q).1 (by simp [Kernel.life, ht, Call.hold])⟩

/-- What a step leaves on its way was on its way before, or the step has submitted
    it. -/
theorem step_onTheWay (h : step cfg s act = some s') (hq : s'.OnTheWay q) :
    s.OnTheWay q ∨ act.submits = true ∧ act.touches s = some q := by
  rcases hq with hq | ⟨t, ht⟩
  · refine Or.inl ?_
    rcases step_pending h with heq | ⟨t, p, ht, heq⟩ | ⟨p, -, heq⟩
    · exact Or.inl (heq ▸ hq)
    · rw [heq, List.mem_append, List.mem_singleton] at hq
      rcases hq with hq | rfl
      · exact Or.inl hq
      · exact Or.inr ⟨t, ht⟩
    · exact Or.inl (by rw [heq]; exact List.mem_cons_of_mem _ hq)
  · rcases step_queueing h ht with hold | hnew
    · exact Or.inl (Or.inr ⟨t, hold⟩)
    · exact Or.inr hnew

/-- A step that reads or changes a request on its way takes it. -/
theorem touches_onTheWay (hl : Life.Located loc s.life) (h : step cfg s act = some s') (hq : s.OnTheWay q)
    (htouch : act.touches s = some q) : ¬ s'.OnTheWay q := by
  have hheld : ∀ t, (s.call t).held ≠ some q := by
    intro t ht
    have hlocq := hq.located hl
    cases hc : s.call t with
    | readTaken c p =>
      rw [hc] at ht; cases ht
      rw [(hl.taken t c q).1 (by simp [Kernel.life, hc, Call.hold])] at hlocq
      simp at hlocq
    | replied c p header n =>
      rw [hc] at ht; cases ht
      rw [(hl.replied t c q).1 (by simp [Kernel.life, hc, Call.hold])] at hlocq
      simp at hlocq
    | _ => rw [hc] at ht; cases ht
  have hfree : s.busy q = true := by
    apply (hl.busy q).2
    rcases hq.located hl with hlocq | ⟨t, hlocq⟩ <;> rw [hlocq] <;> simp
  cases step_cases h with
  | queueRq t p rq ht hp | reportZones t p _ _ _ ht hp =>
    cases htouch
    rw [hp] at hfree
    cases hfree
  | readStart t c size cuts ht hs =>
    have hlocq := hq.located hl
    rcases hl.sending c q htouch with hw | ⟨u, hw⟩ <;> rw [hw] at hlocq <;> simp at hlocq
  | readTake t c p ps ht hp hs =>
    simp only [Act.touches, hp, List.head?_cons, Option.some.injEq] at htouch
    subst htouch
    have hlocp : loc p = .pending := (hl.pending p).1 (by simp [Kernel.life, hp])
    have hnodup := hl.pendingNodup
    simp only [Kernel.life, hp, List.nodup_cons] at hnodup
    intro hway
    rcases hway with hmem | ⟨u, hu⟩
    · rw [(prepare_keeps hs).2.2.1] at hmem
      exact hnodup.1 hmem
    · rcases step_queueing h hu with hold | hnew
      · rw [(hl.filling u p).1 (by simp [Kernel.life, hold, Call.hold])] at hlocp
        cases hlocp
      · cases hnew.1
  | readSend t c p n ht | writeEnd t c p header n umem ht hs => exact absurd htouch (hheld t)
  | _ => cases htouch

/-- What holds of every request when it is submitted holds of it until it is taken. -/
theorem onTheWay_step {P : BiusRequest → Prop} (hl : Life.Located loc s.life) (h : step cfg s act = some s')
    (hrq : ∀ t p rq, act = .queueRq t p rq → P (initBlkRequest (s.req p) s.newId rq))
    (hzones : ∀ old id sector n blkz, P (initZonesRequest old id sector n blkz))
    (hP : ∀ q, s.OnTheWay q → P (s.req q)) (hq : s'.OnTheWay q) : P (s'.req q) := by
  by_cases htouch : act.touches s = some q
  · have hnot : ¬ s.OnTheWay q := fun hway => touches_onTheWay hl h hway htouch hq
    rcases step_onTheWay h hq with hway | ⟨hsub, -⟩
    · exact absurd hway hnot
    · cases step_cases h with
      | queueRq t p rq ht hp =>
        cases htouch
        have hreq : (s.queueRq t q rq).req q = initBlkRequest (s.req q) s.newId rq := by
          unfold Kernel.queueRq
          dsimp only
          split <;> simp
        rw [hreq]
        exact hrq t q rq rfl
      | reportZones t p sector n blkz ht hp =>
        cases htouch
        cases blkz with
        | none =>
          refine absurd ?_ hnot
          rcases hq with hq | ⟨u, hu⟩
          · exact Or.inl hq
          · refine Or.inr ⟨u, ?_⟩
            simp only [Kernel.reportZones, Kernel.setCall_call, Function.update_apply] at hu
            split at hu
            · cases hu
            · exact hu
        | some blkz =>
          simp only [Kernel.reportZones, Kernel.submit_req, Function.update_self]
          exact hzones _ _ _ _ _
      | _ => cases hsub
  · rw [step_req h htouch]
    rcases step_onTheWay h hq with hway | ⟨-, hnew⟩
    · exact hP q hway
    · exact absurd hnew htouch

end

/-! ## Whole runs -/

theorem Rewritten.type_eq {cfg : Config} {sending : Prop} {r r' : BiusRequest}
    (h : Rewritten cfg true sending r r') : r'.type = r.type := by
  cases h with
  | queued id rq hb => cases hb
  | zones id sector n blkz hb => cases hb
  | mapped vmStart _ _ _ =>
    obtain ⟨_, _, _, hr⟩ := biusMapData_keeps r vmStart (rqForEachSegment r.rq)
    rw [hr]
  | sent size cuts res _ hres =>
    obtain ⟨_, _, hr⟩ := biusSendData_keeps hres
    rw [hr]
  | _ => rfl

/-- Only the payload of a write is ever sent. -/
def Kernel.SendsWrites (s : Kernel) : Prop :=
  ∀ c p, (s.conn c).sending = some p → requestIsWrite (s.req p).type = true

theorem setConn_sending {s : Kernel} {c d : Nat} {k : Connection} {p : Ptr}
    (hk : k.sending = some p → (s.conn c).sending = some p) (h : ((s.setConn c k).conn d).sending = some p) :
    (s.conn d).sending = some p := by
  by_cases hd : d = c
  · subst hd
    exact hk (by simpa using h)
  · simpa [hd] using h

/-- A sending pointer that a step leaves behind was there before, or the step has
    taken a write from the pending list and set it. -/
theorem step_sending {cfg : Config} {s s' : Kernel} {act : Act} (h : step cfg s act = some s') {d : Nat}
    {q : Ptr} (hd : (s'.conn d).sending = some q) :
    (s.conn d).sending = some q ∨ q ∈ s.pending ∧ requestIsWrite (s.req q).type = true ∧ 0 < (s.req q).length ∧
      s'.req q = { s.req q with mapData := (s.req q).length } := by
  cases step_cases h with
  | attach c | mmap c vmStart => exact Or.inl (setConn_sending (by exact id) hd)
  | queueRq t p rq ht hp =>
    refine Or.inl ?_
    unfold Kernel.queueRq at hd
    dsimp only at hd
    split at hd <;> exact hd
  | reportZones t p sector n blkz ht hp => cases blkz <;> exact Or.inl hd
  | readStart t c size cuts ht hs =>
    refine Or.inl ?_
    unfold Kernel.readStart at hs
    split at hs
    · cases hs; exact hd
    · split at hs
      · next p hp =>
        rw [Option.map_eq_some_iff] at hs
        obtain ⟨res, -, rfl⟩ := hs
        dsimp only at hd
        split at hd <;> split at hd <;> first | exact hd | exact setConn_sending (fun hk => by cases hk) hd
      · split at hs <;> cases hs <;> exact hd
  | readTake t c p ps ht hp hs =>
    unfold Kernel.prepare at hs
    split at hs
    · next hdata =>
      rw [Bool.and_eq_true, decide_eq_true_eq] at hdata
      split at hs
      · rw [Option.map_eq_some_iff] at hs
        obtain ⟨vmStart, -, rfl⟩ := hs
        have hold := setConn_sending (k := _) (by exact id) hd
        exact Or.inl hold
      · split at hs
        · next hwrite =>
          cases hs
          by_cases hdc : d = c
          · subst hdc
            simp only [Kernel.sendLater, Kernel.setConn_conn, Function.update_self, Option.some.injEq] at hd
            subst hd
            exact Or.inr ⟨by rw [hp]; simp, hwrite, hdata.2, by simp [Kernel.sendLater]⟩
          · exact Or.inl (by simpa [Kernel.sendLater, hdc] using hd)
        · cases hs; exact Or.inl hd
    · cases hs; exact Or.inl hd
  | readSend t c p n ht =>
    refine Or.inl ?_
    unfold Kernel.readSend at hd
    split at hd
    · exact setConn_sending (fun hk => by cases hk) hd
    · exact setConn_sending (by exact id) hd
  | writeStart t c size n header ht hc =>
    refine Or.inl ?_
    unfold Kernel.writeStart at hd
    split at hd
    · exact hd
    · split at hd
      · exact hd
      · split at hd
        · exact hd
        · refine setConn_sending (fun hk => ?_) hd
          dsimp only at hk
          split at hk
          · cases hk
          · exact hk
  | writeEnd t c p header n umem ht hs =>
    have hsend := congrFun (congrArg Life.sending (writeEnd_life hs)) d
    exact Or.inl (hsend.symm.trans hd)
  | _ => exact Or.inl hd

theorem reach_sendsWrites {cfg : Config} {ok : Kernel → Act → Prop} {s : Kernel}
    (h : Machine.Reach (step cfg) ok Kernel.init s) (hid : s.nextRequestId < 2 ^ 64) : s.SendsWrites := by
  refine h.induct (I := fun s => s.nextRequestId < 2 ^ 64 → s.SendsWrites) (fun _ _ _ hc => by cases hc) ?_
    hid
  intro s act s' hr ih _ hs hid' c p hc
  have hid := Nat.lt_of_le_of_lt (step_life hs hid').next_le hid'
  rcases step_sending hs hc with hold | hnew
  · -- a request whose payload is being sent is in flight, so it keeps its type
    obtain ⟨loc, hl, -⟩ := reach_life hr hid
    have hbusy : s.busy p = true := by
      apply (hl.busy p).2
      rcases hl.sending c p hold with hloc | ⟨t, hloc⟩ <;> rw [hloc] <;> simp
    have hrw := step_rewritten hs p
    rw [hbusy] at hrw
    rw [hrw.type_eq]
    exact ih hid c p hold
  · rw [hnew.2.2.2]
    exact hnew.2.1

/-- A property of requests that every change preserves holds of every request in
    every reachable state. -/
theorem reach_request {cfg : Config} {P : BiusRequest → Prop} (hblank : P .blank)
    (hP : ∀ busy sending r r', (sending → requestIsWrite r.type = true) →
      Rewritten cfg busy sending r r' → P r → P r')
    {ok : Kernel → Act → Prop} {s : Kernel} (h : Machine.Reach (step cfg) ok Kernel.init s)
    (hid : s.nextRequestId < 2 ^ 64) (q : Ptr) : P (s.req q) := by
  refine h.induct (I := fun s => s.nextRequestId < 2 ^ 64 → ∀ q, P (s.req q)) (fun _ _ => hblank) ?_ hid q
  intro s act s' hr ih _ hs hid' q
  have hid := Nat.lt_of_le_of_lt (step_life hs hid').next_le hid'
  refine hP _ _ _ _ ?_ (step_rewritten hs q) (ih hid q)
  rintro ⟨c, hc⟩
  exact reach_sendsWrites hr hid c q hc

end Bius
