import Bius.MapLifetime

/- All requests of a connection are mapped at the start of one window and into one
   set of reserved pages. `windowStores` are the stores into them that a step makes,
   and for which request. A connection that is never given a second request to map
   while one is outstanding has at most one mapped request at any time, and nothing
   is stored for another request meanwhile (`window_kept`). -/
namespace Bius

/-- `bius_dev_read` maps the request's data. -/
def BiusRequest.Maps (r : BiusRequest) : Prop :=
  requestMayHaveData r.type = true ∧ biusMapDataThreshold < r.length

instance (r : BiusRequest) : Decidable r.Maps := inferInstanceAs (Decidable (_ ∧ _))

/-- The connection, the request and the stores of the `bius_map_data` or
    `bius_unmap_data` that a step runs. -/
def windowStores (s : Kernel) : Act → Option (Nat × Ptr × List MapEffect)
  | .readTake t =>
    match s.call t, s.pending with
    | .readWait c, p :: _ =>
      if (s.req p).Maps then
        (s.conn c).vma.map (fun vmStart => (c, p, (biusMapData (s.req p) vmStart (rqForEachSegment (s.req p).rq)).1))
      else none
    | _, _ => none
  | .writeEnd t _ =>
    match s.call t with
    | .replied c p _ _ =>
      if isBlkRequest (s.req p).type then
        (s.conn c).vma.map (fun vmStart => (c, p, (biusUnmapData (s.req p) vmStart).1))
      else none
    | _ => none
  | _ => none

/-- The request has been mapped into the window of `c`, and the reply to it has not
    been processed. -/
structure Kernel.MappedAt (s : Kernel) (c : Nat) (p : Ptr) : Prop where
  blk : isBlkRequest (s.req p).type = true
  mapped : (s.req p).mapType ≠ .unmapped
  held : s.With c p

/-- No request is mapped while another one of the connection is outstanding. -/
def MapsAlone (s : Kernel) : Act → Prop
  | .readTake t =>
    ∀ c p ps, s.call t = .readWait c → s.pending = p :: ps → (s.req p).Maps → ∀ q, ¬ s.MappedAt c q
  | _ => True

/-- A request that has not been taken yet is not mapped. -/
def BiusRequest.Fresh (r : BiusRequest) : Prop := isBlkRequest r.type = true → r.mapType = .unmapped

section
variable {cfg : Config} {s s' : Kernel} {act : Act}

theorem step_held (h : step cfg s act = some s') {t : Tid} {p : Ptr} (hp : (s'.call t).held = some p) :
    s'.call t = s.call t ∨
      (∃ c ps, s'.call t = .readTaken c p ∧ act = .readTake t ∧ s.call t = .readWait c ∧ s.pending = p :: ps) ∨
      ∃ c header n size m, s'.call t = .replied c p header n ∧ act = .writeStart t c size m header ∧
        s.getRequestById (s.conn c).waiting header.id = some p := by
  by_cases htid : act.tid = some t
  · refine Or.inr ?_
    cases step_cases h with
    | queueRq u q rq ht hq =>
      cases htid
      unfold Kernel.queueRq at hp
      dsimp only at hp
      split at hp <;> simp [Call.held] at hp
    | reportZones u q sector n blkz ht hq =>
      cases htid
      cases blkz <;> simp [Kernel.reportZones, Call.held] at hp
    | insert u q ht =>
      cases htid
      rw [Kernel.insert_call, Function.update_self] at hp
      split at hp <;> cases hp
    | zonesWake u q junk cb ht hsem => cases htid; simp [Call.held] at hp
    | readStart u c size cuts ht hs =>
      cases htid
      unfold Kernel.readStart at hs
      split at hs
      · cases hs; simp [Call.held] at hp
      · split at hs
        · rw [Option.map_eq_some_iff] at hs
          obtain ⟨res, -, rfl⟩ := hs
          dsimp only at hp
          split at hp <;> split at hp <;> simp [Call.held] at hp
        · split at hs <;> cases hs <;> simp [Call.held] at hp
    | readInterrupt u c e ht => cases htid; simp [Call.held] at hp
    | readTake u c q ps ht hq hs =>
      cases htid
      have hcall : s'.call t = .readTaken c q := by
        rw [(prepare_keeps hs).2.2.2]
        simp
      rw [hcall] at hp
      cases hp
      exact Or.inl ⟨c, ps, hcall, rfl, ht, hq⟩
    | readSend u c q n ht =>
      cases htid
      unfold Kernel.readSend at hp
      split at hp <;> simp [Call.held] at hp
    | writeStart u c size n header ht hc =>
      cases htid
      unfold Kernel.writeStart at hp ⊢
      split at hp
      · simp [Call.held] at hp
      · next hsize =>
        split at hp
        · simp [Call.held] at hp
        · next hn =>
          split at hp
          · simp [Call.held] at hp
          · next q hq =>
            simp only [Kernel.setCall_call, Function.update_self, Call.held, Option.some.injEq] at hp
            subst hp
            rw [if_neg hsize, if_neg hn]
            exact Or.inr ⟨c, header, min n sizeofU2k, size, n, by simp, rfl, hq⟩
    | writeEnd u c q header n umem ht hs =>
      cases htid
      have hnone : (s'.call t).hold = .nothing := by
        have hlife := congrFun (congrArg Life.hold (writeEnd_life hs)) t
        simpa [Kernel.life] using hlife
      cases hc : s'.call t <;> rw [hc] at hp hnone <;> simp [Call.held, Call.hold] at hp hnone
    | ret u r ht => cases htid; simp [Call.held] at hp
    | attach | mmap => cases htid
  · exact Or.inl (step_call h htid)

theorem step_waiting (h : step cfg s act = some s') {c : Nat} {p : Ptr} (hp : p ∈ (s'.conn c).waiting) :
    p ∈ (s.conn c).waiting ∨ ∃ t, s.call t = .readTaken c p := by
  cases step_cases h with
  | attach d | mmap d vmStart =>
    refine Or.inl ?_
    by_cases hd : c = d
    · subst hd; simpa using hp
    · simpa [hd] using hp
  | queueRq u q rq ht hq =>
    refine Or.inl ?_
    unfold Kernel.queueRq at hp
    dsimp only at hp
    split at hp <;> exact hp
  | reportZones u q sector n blkz ht hq => cases blkz <;> exact Or.inl hp
  | readStart u d size cuts ht hs =>
    refine Or.inl ?_
    unfold Kernel.readStart at hs
    split at hs
    · cases hs; exact hp
    · split at hs
      · rw [Option.map_eq_some_iff] at hs
        obtain ⟨res, -, rfl⟩ := hs
        dsimp only at hp
        by_cases hd : c = d
        · subst hd
          split at hp <;> split at hp <;> simpa using hp
        · split at hp <;> split at hp <;> simpa [hd] using hp
      · split at hs <;> cases hs <;> exact hp
  | readTake u d q ps ht hq hs =>
    refine Or.inl ?_
    rw [(prepare_window hs c 0).1] at hp
    exact hp
  | readSend u d q n ht =>
    unfold Kernel.readSend at hp
    by_cases hd : c = d
    · subst hd
      split at hp
      · exact Or.inl (by simpa [Kernel.endBlkRequest] using hp)
      · simp only [Kernel.setCall_conn, Kernel.setConn_conn, Function.update_self, List.mem_append,
          List.mem_singleton] at hp
        rcases hp with hp | rfl
        · exact Or.inl hp
        · exact Or.inr ⟨u, ht⟩
    · split at hp
      · exact Or.inl (by simpa [hd, Kernel.endBlkRequest] using hp)
      · exact Or.inl (by simpa [hd] using hp)
  | writeStart u d size n header ht hc =>
    refine Or.inl ?_
    rcases writeStart_cases s u d size n header with ⟨v, heq⟩ | ⟨q, hq, heq⟩
    · rw [heq] at hp; exact hp
    · rw [heq] at hp
      by_cases hd : c = d
      · subst hd
        simp only [Kernel.setCall_conn, Kernel.setConn_conn, Function.update_self] at hp
        exact List.mem_of_mem_erase hp
      · simpa [hd] using hp
  | writeEnd u d q header n umem ht hs =>
    have hwait : (s'.conn c).waiting = (s.conn c).waiting := congrFun (congrArg Life.waiting (writeEnd_life hs)) c
    exact Or.inl (hwait ▸ hp)
  | _ => exact Or.inl hp

/-- Who is with a connection after a step was with it before, or has just been
    taken. -/
theorem step_with (h : step cfg s act = some s') {c : Nat} {p : Ptr} (hp : s'.With c p) :
    s.With c p ∨ ∃ t ps, act = .readTake t ∧ s.call t = .readWait c ∧ s.pending = p :: ps := by
  rcases hp with hp | ⟨t, ht⟩ | ⟨t, header, n, ht⟩
  · rcases step_waiting h hp with hold | htaken
    · exact Or.inl (Or.inl hold)
    · exact Or.inl (Or.inr (Or.inl htaken))
  · rcases step_held h (t := t) (p := p) (by rw [ht]; rfl) with hsame | ⟨d, ps, hnew, hact, hwait,
      hpend⟩ | ⟨d, _, _, _, _, hnew, -⟩
    · exact Or.inl (Or.inr (Or.inl ⟨t, hsame ▸ ht⟩))
    · rw [ht] at hnew
      cases hnew
      exact Or.inr ⟨t, ps, hact, hwait, hpend⟩
    · rw [ht] at hnew
      cases hnew
  · rcases step_held h (t := t) (p := p) (by rw [ht]; rfl) with hsame | ⟨d, ps, hnew, -⟩ | ⟨d, _, _, _, _,
      hnew, -, hfound⟩
    · exact Or.inl (Or.inr (Or.inr ⟨t, header, n, hsame ▸ ht⟩))
    · rw [ht] at hnew
      cases hnew
    · rw [ht] at hnew
      cases hnew
      exact Or.inl (Or.inl (getRequestById_some hfound).1)

end

section
variable {s s' : Kernel} {act : Act} {loc : Ptr → Life.Loc}

theorem writeEnd_mapType {cfg : Config} {t : Tid} {c : Nat} {p : Ptr} {header : U2k} {n : Nat} {umem : UMem}
    (h : s.writeEnd cfg t c p header n umem = some s') :
    (s'.req p).mapType = (s.req p).mapType ∨ (s'.req p).mapType = .unmapped := by
  unfold Kernel.writeEnd at h
  dsimp only at h
  split at h
  · next hb =>
    split at h
    · obtain ⟨rq, hrq, -⟩ := biusReceiveData_length (s.req p) umem header.userData
      rw [hrq] at h
      split at h
      · cases h
        rw [Kernel.setCall_req, endBlkRequest_req]
        exact Or.inl (by simp)
      · obtain ⟨mapType, pos, hmt, hreq⟩ := finishBlk_req (by simpa using hb) h
        simp only [Kernel.setReq_req, Function.update_self] at hreq hmt
        rw [hreq]
        exact hmt
    · obtain ⟨mapType, pos, hmt, hreq⟩ := finishBlk_req hb h
      rw [hreq]
      exact hmt
  · next hb =>
    rw [Bool.not_eq_true] at hb
    split at h
    · cases h
      rw [Kernel.setCall_req, endRequestInt_req s hb]
      exact Or.inl rfl
    · split at h <;>
      · cases h
        rw [Kernel.setCall_req, endRequestInt_req _ (by simpa using hb)]
        exact Or.inl (by simp)

/-- Nothing but `bius_dev_read` maps a request, and only one it has just taken. -/
theorem step_mapType (hl : Life.Located loc s.life) (h : step ⟨true⟩ s act = some s') {c : Nat} {p : Ptr}
    (hp : s.With c p) (hm : (s'.req p).mapType ≠ .unmapped) : (s.req p).mapType ≠ .unmapped := by
  intro hunmapped
  have hhome := with_loc hl hp
  by_cases htouch : act.touches s = some p
  · cases step_cases h with
    | queueRq t q rq ht hq | reportZones t q _ _ _ ht hq =>
      cases htouch
      rw [(hl.free hq).1] at hhome
      simp at hhome
    | readStart t d size cuts ht hs =>
      have hsend : (s.conn d).sending = some p := htouch
      unfold Kernel.readStart at hs
      split at hs
      · cases hs
        exact hm hunmapped
      · rw [hsend] at hs
        rw [Option.map_eq_some_iff] at hs
        obtain ⟨res, hres, rfl⟩ := hs
        obtain ⟨_, _, hkeeps⟩ := biusSendData_keeps hres
        apply hm
        dsimp only
        split <;> split <;> simp [hkeeps, hunmapped]
    | readTake t d q ps ht hq hs =>
      simp only [Act.touches, hq, List.head?_cons, Option.some.injEq] at htouch
      subst htouch
      rw [(hl.pending q).1 (by simp [Kernel.life, hq])] at hhome
      simp at hhome
    | readSend t d q n ht =>
      simp only [Act.touches, ht, Call.held, Option.some.injEq] at htouch
      subst htouch
      apply hm
      unfold Kernel.readSend
      split
      · simp only [Kernel.setCall_req, Kernel.setConn_req]
        rw [endBlkRequest_req]
        exact hunmapped
      · exact hunmapped
    | writeEnd t d q header n umem ht hs =>
      simp only [Act.touches, ht, Call.held, Option.some.injEq] at htouch
      subst htouch
      rcases writeEnd_mapType hs with heq | heq
      · exact hm (heq.trans hunmapped)
      · exact hm heq
    | _ => cases htouch
  · rw [step_req h htouch] at hm
    exact hm hunmapped

/-- A request that a step leaves mapped was mapped before, or has just been mapped. -/
theorem step_mappedAt (hl : Life.Located loc s.life) (hfresh : ∀ q, s.OnTheWay q → (s.req q).Fresh)
    (h : step ⟨true⟩ s act = some s') {c : Nat} {p : Ptr} (hp : s'.MappedAt c p) :
    s.MappedAt c p ∨ ∃ t ps, act = .readTake t ∧ s.call t = .readWait c ∧ s.pending = p :: ps ∧
      (s.req p).Maps := by
  rcases step_with h hp.held with hheld | ⟨t, ps, rfl, ht, hpend⟩
  · have hrw := step_rewritten h p
    rw [with_busy hl hheld] at hrw
    exact Or.inl ⟨by rw [← hrw.type_eq]; exact hp.blk, step_mapType hl h hheld hp.mapped, hheld⟩
  · refine Or.inr ⟨t, ps, rfl, ht, hpend, ?_⟩
    cases step_cases h with
    | readTake t d q qs ht' hq hs =>
      rw [ht] at ht'
      cases ht'
      rw [hpend] at hq
      cases hq
      have hunmapped : isBlkRequest (s.req p).type = true → (s.req p).mapType = .unmapped :=
        hfresh p (Or.inl (by rw [hpend]; simp))
      have hblk := hp.blk
      have hm := hp.mapped
      unfold Kernel.prepare at hs
      split at hs
      · next hdata =>
        rw [Bool.and_eq_true, decide_eq_true_eq] at hdata
        split at hs
        · next hlong =>
          rw [Bool.and_eq_true, decide_eq_true_eq] at hlong
          exact ⟨hdata.1, hlong.2⟩
        · split at hs
          · cases hs
            simp only [Kernel.sendLater, Kernel.setConn_req, Kernel.setReq_req, Function.update_self] at hblk hm
            exact absurd (hunmapped hblk) hm
          · cases hs
            exact absurd (hunmapped hblk) hm
      · cases hs
        exact absurd (hunmapped hblk) hm

/-- What holds while requests are mapped one at a time. -/
structure Kernel.OneMapped (s : Kernel) : Prop where
  fresh : ∀ q, s.OnTheWay q → (s.req q).Fresh
  sole : ∀ c p q, s.MappedAt c p → s.MappedAt c q → p = q

theorem oneMapped_step (hl : Life.Located loc s.life) (hs : s.OneMapped) (hok : MapsAlone s act)
    (h : step ⟨true⟩ s act = some s') : s'.OneMapped := by
  constructor
  · intro q hq
    exact onTheWay_step hl h (fun _ _ _ _ _ => rfl) (fun _ _ _ _ _ hb => by cases hb) hs.fresh hq
  · intro c p q hp hq
    rcases step_mappedAt hl hs.fresh h hp with hp | ⟨t, ps, rfl, ht, hpend, hmaps⟩
    · rcases step_mappedAt hl hs.fresh h hq with hq | ⟨t, ps, rfl, ht, hpend, hmaps⟩
      · exact hs.sole c p q hp hq
      · exact absurd hp (hok c q ps ht hpend hmaps p)
    · rcases step_mappedAt hl hs.fresh h hq with hq | ⟨t', ps', heq, ht', hpend', -⟩
      · exact absurd hq (hok c p ps ht hpend hmaps q)
      · rw [hpend] at hpend'
        cases hpend'
        rfl

end

theorem writeEnd_ptes {s s' : Kernel} {cfg : Config} {t : Tid} {c : Nat} {p : Ptr} {header : U2k} {n : Nat} {umem : UMem}
    (hm : (s.req p).mapType = .unmapped) (h : s.writeEnd cfg t c p header n umem = some s') (d : Nat) :
    (s'.conn d).ptes = (s.conn d).ptes := by
  have hfin : ∀ s₁ : Kernel, (s₁.req p).mapType = .unmapped → s₁.finishBlk cfg t c p header n = some s' →
      (s'.conn d).ptes = (s₁.conn d).ptes := by
    intro s₁ hm₁ h₁
    have hconn : ∀ x : Kernel, ((Kernel.endBlkRequest (if (x.req p).type = .zoneAppend then
        x.setReq p { x.req p with pos := toInt64 header.userData } else x) p header.reply).setCall t
          (.done (.value n))).conn = x.conn := by
      intro x
      split <;> rfl
    unfold Kernel.finishBlk at h₁
    dsimp only at h₁
    split at h₁
    · rw [Option.map_eq_some_iff] at h₁
      obtain ⟨vmStart, -, rfl⟩ := h₁
      rw [hconn, show (biusUnmapData (s₁.req p) vmStart).1 = [] by rw [biusUnmapData, if_pos hm₁]]
      by_cases hd : d = c
      · subst hd
        simp [Kernel.mapPtes]
      · simp [hd]
    · cases h₁
      rw [hconn]
  unfold Kernel.writeEnd at h
  dsimp only at h
  split at h
  · split at h
    · obtain ⟨rq, hrq, -⟩ := biusReceiveData_length (s.req p) umem header.userData
      rw [hrq] at h
      split at h
      · cases h
        rfl
      · have hkeep := hfin _ (by simpa using hm) h
        exact hkeep
    · exact hfin s hm h
  · split at h
    · cases h
      rfl
    · split at h <;>
      · cases h
        rfl

/-- **A mapped request keeps its window to itself**, in every run in which no request
    is mapped while another one of the connection is outstanding: from its mapping
    until the reply to it has been processed, a `bius_map_data` or `bius_unmap_data`
    for another request stores nothing into the page table, the bounce pages and the
    lists of the connection. -/
theorem window_kept {s s' : Kernel} {act : Act} (h : Machine.Reach (step ⟨true⟩) MapsAlone Kernel.init s)
    (hok : MapsAlone s act) (hs : step ⟨true⟩ s act = some s') {c : Nat} {p : Ptr} (hp : s.MappedAt c p) {q : Ptr}
    {eff : List MapEffect} (hq : windowStores s act = some (c, q, eff)) (hne : q ≠ p) :
    eff = [] ∧ (s'.conn c).ptes = (s.conn c).ptes := by
  have hone : s.OneMapped := by
    refine h.induct ⟨fun q hq => ?_, fun c p q hp _ => ?_⟩ ?_
    · rcases hq with hq | ⟨t, ht⟩
      · cases hq
      · cases ht
    · rcases hp.held with hw | ⟨t, ht⟩ | ⟨t, _, _, ht⟩
      · cases hw
      · cases ht
      · cases ht
    · intro s act s' hr hi hok hst
      obtain ⟨loc, hl⟩ := reach_located hr
      exact oneMapped_step hl hi hok hst
  cases act with
  | readTake t =>
    simp only [windowStores] at hq
    split at hq
    · next d q' ps ht hpend =>
      split at hq
      · next hmaps =>
        rw [Option.map_eq_some_iff] at hq
        obtain ⟨vmStart, -, heq⟩ := hq
        cases heq
        exact absurd hp (hok c q ps ht hpend hmaps p)
      · cases hq
    · cases hq
  | writeEnd t umem =>
    simp only [windowStores] at hq
    split at hq
    · next d q' header n ht =>
      split at hq
      · next hblk =>
        rw [Option.map_eq_some_iff] at hq
        obtain ⟨vmStart, -, heq⟩ := hq
        cases heq
        have hm : (s.req q).mapType = .unmapped := by
          by_contra hm
          exact hne (hone.sole c q p ⟨hblk, hm, Or.inr (Or.inr ⟨t, header, n, ht⟩)⟩ hp)
        cases step_cases hs with
        | writeEnd t d q' header' n' umem ht' hend =>
          rw [ht] at ht'
          cases ht'
          exact ⟨by rw [biusUnmapData, if_pos hm], writeEnd_ptes hm hend c⟩
      · cases hq
    · cases hq
  | _ => cases hq

theorem pagesRead_mapType :
    (biusMapData (initBlkRequest .blank 1 pagesRead) 0x7f0000000000 (rqForEachSegment pagesRead.bios)).2.mapType =
      .simple := by
  rw [pagesRead_segments]
  simp only [biusMapData, initBlkRequest]
  rfl

/-! ## A flush beside a mapped read -/

theorem steps_with {ok : Kernel → Act → Prop} {s s' : Kernel} {acts : List Act}
    (h : Machine.Steps (step ⟨true⟩) ok s acts s') (hacts : ∀ t, Act.readTake t ∉ acts) {c : Nat} {p : Ptr}
    (hp : s'.With c p) : s.With c p := by
  induction h with
  | nil => exact hp
  | cons _ hst _ ih =>
    rcases step_with hst (ih (fun t ht => hacts t (by simp [ht])) hp) with hold | ⟨t, _, heq, _⟩
    · exact hold
    · exact absurd (by simp [heq]) (hacts t)

theorem mapsAlone_of_quiet {acts : List Act} (hacts : ∀ t, Act.readTake t ∉ acts) (s : Kernel) (act : Act)
    (hact : act ∈ acts) : MapsAlone s act := by
  cases act with
  | readTake t => exact absurd hact (hacts t)
  | _ => trivial

/-- A read is submitted, and connection 0 is about to take it. -/
def beforeRead (rq : Rq) : List Act :=
  [.attach 0, .mmap 0 0x7f0000000000, .queueRq (.blk 0) 5 rq, .insert (.blk 0), .readStart (.user 0) 0 56 []]

/-- Its command is sent; a flush is submitted, and connection 0 is about to take
    it. -/
def beforeFlush : List Act :=
  [.readSend (.user 0) 56, .ret (.user 0), .ret (.blk 0), .queueRq (.blk 0) 6 ⟨2, 0, 0, [], flush_len⟩,
   .insert (.blk 0), .readStart (.user 0) 0 56 []]

/-- The flush is sent and answered. -/
def flushReplied : List Act :=
  [.readSend (.user 0) 56, .ret (.user 0), .writeStart (.user 0) 0 24 24 ⟨2, 0, 0⟩]

theorem flush_run (rq : Rq) (hop : rq.op = 0) (hlen : biusMapDataThreshold < rq.dataLen) :
    ∃ s₁ s₂ s₃ s₄ s₅, Machine.run (step ⟨true⟩) Kernel.init (beforeRead rq) = some s₁ ∧
      step ⟨true⟩ s₁ (.readTake (.user 0)) = some s₂ ∧
        Machine.run (step ⟨true⟩) s₂ beforeFlush = some s₃ ∧
      s₃.pending = [6] ∧ (s₃.req 6).type = .flush ∧ step ⟨true⟩ s₃ (.readTake (.user 0)) = some s₄ ∧
      Machine.run (step ⟨true⟩) s₄ flushReplied = some s₅ ∧ (s₅.conn 0).waiting = [5] ∧
      s₅.req 5 = (biusMapData (initBlkRequest .blank 1 rq) 0x7f0000000000 (rqForEachSegment rq.bios)).2 ∧
      windowStores s₅ (.writeEnd (.user 0) (fun _ => none)) = some (0, 6, []) ∧
      ∃ s₆, step ⟨true⟩ s₅ (.writeEnd (.user 0) (fun _ => none)) = some s₆ := by
  have hty : toBiusRequest rq.op = .read := by rw [hop]; rfl
  have hfl : toBiusRequest 2 = .flush := rfl
  have hpos : 0 < rq.dataLen := Nat.lt_of_le_of_lt (Nat.zero_le _) hlen
  have hkeeps : ∀ r vmStart segs, (biusMapData r vmStart segs).2.id = r.id := by
    intro r vmStart segs
    obtain ⟨_, _, _, heq⟩ := biusMapData_keeps r vmStart segs
    rw [heq]
  simp [beforeRead, beforeFlush, flushReplied, Machine.run, step, Kernel.init, Connection.new, Kernel.queueRq,
    initBlkRequest, hty, hfl, Kernel.newId, Kernel.readStart, Kernel.readTake, Kernel.prepare, requestMayHaveData, hlen,
    hpos, Kernel.readSend, Kernel.mapData, isBlkRequest, sizeofK2u, BiusRequest.blank, windowStores, Kernel.writeStart,
    sizeofU2k, Kernel.getRequestById, hkeeps, biusUnmapData, Kernel.writeEnd, Kernel.finishBlk, blkStsOk]

theorem window_kept_flush : ∃ s s', s.MappedAt 0 5 ∧
    windowStores s (.writeEnd (.user 0) (fun _ => none)) = some (0, 6, []) ∧
    step ⟨true⟩ s (.writeEnd (.user 0) (fun _ => none)) = some s' ∧ (s'.conn 0).ptes = (s.conn 0).ptes := by
  obtain ⟨s₁, s₂, s₃, s₄, s₅, h₁, h₂, h₃, hpend, htype, h₄, h₅, hwait, hreq, hstores, s₆,
    h₆⟩ :=
    flush_run pagesRead rfl (by decide)
  have hmapped : s₅.MappedAt 0 5 := by
    obtain ⟨_, _, _, hkeeps⟩ := biusMapData_keeps (initBlkRequest .blank 1 pagesRead) 0x7f0000000000
      (rqForEachSegment pagesRead.bios)
    refine ⟨by rw [hreq, hkeeps]; rfl, by rw [hreq, pagesRead_mapType]; simp, Or.inl (by rw [hwait]; simp)⟩
  have hq₁ : ∀ t, Act.readTake t ∉ beforeRead pagesRead := by simp [beforeRead]
  have hq₃ : ∀ t, Act.readTake t ∉ beforeFlush := by simp [beforeFlush]
  have hq₅ : ∀ t, Act.readTake t ∉ flushReplied := by simp [flushReplied]
  have hrun₁ := Machine.Steps.of_run_ok h₁ (mapsAlone_of_quiet hq₁)
  have hok₂ : MapsAlone s₁ (.readTake (.user 0)) := by
    intro c p ps _ _ _ q hq
    rcases steps_with hrun₁ hq₁ hq.held with hw | ⟨t, ht⟩ | ⟨t, _, _, ht⟩
    · cases hw
    · cases ht
    · cases ht
  have hok₄ : MapsAlone s₃ (.readTake (.user 0)) := by
    intro c p ps _ hp hmaps
    rw [hpend] at hp
    cases hp
    rw [BiusRequest.Maps, htype] at hmaps
    cases hmaps.1
  have hreach : Machine.Reach (step ⟨true⟩) MapsAlone Kernel.init s₅ := by
    refine ⟨_, hrun₁.append (.cons hok₂ h₂ ((Machine.Steps.of_run_ok h₃ (mapsAlone_of_quiet hq₃)).append
      (.cons hok₄ h₄ (Machine.Steps.of_run_ok h₅ (mapsAlone_of_quiet hq₅)))))⟩
  have hok₆ : MapsAlone s₅ (.writeEnd (.user 0) (fun _ => none)) := trivial
  exact ⟨s₅, s₆, hmapped, hstores, h₆, (window_kept hreach hok₆ h₆ hmapped hstores (by decide)).2⟩

/-! ## Two reads before the first reply -/

theorem otherRead_pos : 0 < (List.replicate 135168 (0 : UInt8)).length := by
  rw [List.length_replicate]
  decide

/-- Another read of 33 pages. -/
def otherRead : Rq where
  op := 0
  sector := 0
  dataLen := 135168
  bios := [⟨[⟨300, 0, List.replicate 135168 0, otherRead_pos⟩]⟩]
  len_eq := fun _ => by
    simp only [chainBytes_cons, chainBytes_nil, Bio.bytes, List.flatMap_cons, List.flatMap_nil,
      List.append_nil, List.length_replicate]

theorem otherRead_segments : rqForEachSegment otherRead.bios = splitPages 300 0 135168 := by
  simp only [rqForEachSegment, otherRead, List.flatMap_cons, List.flatMap_nil, List.append_nil,
    List.length_replicate]

/-- A first read is mapped and its command sent; a second one is pending, and
    connection 0 is about to read it. -/
def twoReads (rq rq' : Rq) : List Act :=
  windowRead rq 56 ++ [.ret (.user 0), .ret (.blk 0), .queueRq (.blk 0) 6 rq', .insert (.blk 0),
    .readStart (.user 0) 0 56 []]

theorem twoReads_run (rq rq' : Rq) (hop : rq.op = 0) (hlen : biusMapDataThreshold < rq.dataLen) (hop' : rq'.op = 0)
    (hlen' : biusMapDataThreshold < rq'.dataLen) :
    ∃ s s', Machine.run (step ⟨true⟩) Kernel.init (twoReads rq rq') = some s ∧
      step ⟨true⟩ s (.readTake (.user 0)) = some s' ∧
      (s.conn 0).waiting = [5] ∧
      s.req 5 = (biusMapData (initBlkRequest .blank 1 rq) 0x7f0000000000 (rqForEachSegment rq.bios)).2 ∧
      windowStores s (.readTake (.user 0)) = some (0, 6,
        (biusMapData (initBlkRequest .blank 2 rq') 0x7f0000000000 (rqForEachSegment rq'.bios)).1) ∧
      (s.conn 0).ptes = Kernel.mapPtes (fun _ => .zero)
        (biusMapData (initBlkRequest .blank 1 rq) 0x7f0000000000 (rqForEachSegment rq.bios)).1 ∧
      (s'.conn 0).ptes = Kernel.mapPtes (s.conn 0).ptes
        (biusMapData (initBlkRequest .blank 2 rq') 0x7f0000000000 (rqForEachSegment rq'.bios)).1 := by
  have hty : toBiusRequest rq.op = .read := by rw [hop]; rfl
  have hty' : toBiusRequest rq'.op = .read := by rw [hop']; rfl
  have hpos : 0 < rq.dataLen := Nat.lt_of_le_of_lt (Nat.zero_le _) hlen
  have hpos' : 0 < rq'.dataLen := Nat.lt_of_le_of_lt (Nat.zero_le _) hlen'
  simp [twoReads, windowRead, Machine.run, step, Kernel.init, Connection.new, Kernel.queueRq, initBlkRequest, hty,
    hty', Kernel.newId, Kernel.readStart, Kernel.readTake, Kernel.prepare, requestMayHaveData, hlen, hpos, hlen', hpos',
    Kernel.readSend, Kernel.mapData, isBlkRequest, sizeofK2u, BiusRequest.blank, windowStores, BiusRequest.Maps]

theorem otherRead_ptes (f : Nat → Frame) : Kernel.mapPtes f
    (biusMapData (initBlkRequest .blank 2 otherRead) 0x7f0000000000 (rqForEachSegment otherRead.bios)).1 0 =
      .data 300 := by
  rw [otherRead_segments]
  simp only [biusMapData, initBlkRequest]
  rfl

/-- The second read is mapped over the first, whose reply is still to come. -/
theorem window_overwritten : ∃ s s', Machine.run (step ⟨true⟩) Kernel.init (twoReads pagesRead otherRead) =
    some s ∧
    step ⟨true⟩ s (.readTake (.user 0)) = some s' ∧ s.MappedAt 0 5 ∧
    (∃ eff, windowStores s (.readTake (.user 0)) = some (0, 6, eff)) ∧
    (s.conn 0).ptes 0 = .data 100 ∧ (s'.conn 0).ptes 0 = .data 300 := by
  obtain ⟨s, s', hrun, hstep, hwait, hreq, hstores, hptes, hptes'⟩ :=
    twoReads_run pagesRead otherRead rfl (by decide) rfl (by decide)
  refine ⟨s, s', hrun, hstep, ⟨?_, ?_, Or.inl (by rw [hwait]; simp)⟩, ⟨_, hstores⟩, ?_, ?_⟩
  · obtain ⟨_, _, _, hkeeps⟩ := biusMapData_keeps (initBlkRequest .blank 1 pagesRead) 0x7f0000000000
      (rqForEachSegment pagesRead.bios)
    rw [hreq, hkeeps]
    rfl
  · rw [hreq, pagesRead_mapType]
    simp
  · rw [hptes]
    exact pagesRead_ptes
  · rw [hptes']
    exact otherRead_ptes _

end Bius
