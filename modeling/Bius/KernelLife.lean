import Bius.Lifecycle

/- The kernel machine moves requests as `Life.Step` says: `Kernel.life` forgets the
   data, and every step of the machine, in either build, is a move of `Life` or
   none (`step_life`), as long as the id counter has not wrapped. So the invariant
   of `Life` holds in every reachable state (`reach_life`). -/
namespace Bius

def Call.hold : Call → Hold
  | .queueing p => .filling p
  | .zonesWait p => .waits p
  | .readTaken c p => .taken c p
  | .replied c p _ _ => .replied c p
  | .idle | .readWait _ | .done _ => .nothing

/-- Where the requests are. -/
def Kernel.life (s : Kernel) : Life where
  next := s.nextRequestId
  id p := (s.req p).id
  blk p := isBlkRequest (s.req p).type
  sem p := (s.req p).sem
  busy := s.busy
  pending := s.pending
  waiting c := (s.conn c).waiting
  sending c := (s.conn c).sending
  hold t := (s.call t).hold
  queued := s.queued
  taken := s.taken
  ended := s.ended.map BiusRequest.id

/-! ## What leaves the life of a request alone -/

/-- A request whose life goes on as before. -/
def BiusRequest.Keeps (r r' : BiusRequest) : Prop := r'.id = r.id ∧ r'.type = r.type ∧ r'.sem = r.sem

theorem biusSendData_keeps {r : BiusRequest} {n : Nat} {cuts : List Nat} {res : BiusRequest × Except Int (List UInt8)}
    (h : biusSendData r n cuts = some res) :
    ∃ bio mapData, res.1 = { r with bio := bio, mapData := mapData } := by
  unfold biusSendData at h
  split at h
  · cases h; exact ⟨r.bio, r.mapData, rfl⟩
  · split at h
    · cases h; exact ⟨r.bio, r.mapData, rfl⟩
    · rw [Option.map_eq_some_iff] at h
      obtain ⟨sent, -, rfl⟩ := h
      exact ⟨sent.bio, sent.mapData, rfl⟩

theorem biusMapData_keeps (r : BiusRequest) (vmStart : Nat) (segs : List Seg) :
    ∃ mapType mapData mappedSize, (biusMapData r vmStart segs).2 =
      { r with mapType := mapType, mapData := mapData, mappedSize := mappedSize } := by
  unfold biusMapData
  split
  · exact ⟨r.mapType, r.mapData, r.mappedSize, rfl⟩
  · dsimp only
    split
    · exact ⟨_, _, _, rfl⟩
    · split
      · exact ⟨_, _, _, rfl⟩
      · exact ⟨_, r.mapData, _, rfl⟩

theorem biusUnmapData_keeps (r : BiusRequest) (vmStart : Nat) :
    ∃ mapType, (biusUnmapData r vmStart).2 = { r with mapType := mapType } := by
  unfold biusUnmapData
  split
  · exact ⟨r.mapType, rfl⟩
  · exact ⟨_, rfl⟩

theorem biusReceiveData_keeps (r : BiusRequest) (umem : UMem) (userData : Nat) :
    ∃ rq, (biusReceiveData r umem userData).1 = { r with rq := rq } := by
  unfold biusReceiveData
  split
  · exact ⟨r.rq, rfl⟩
  · split
    · exact ⟨r.rq, rfl⟩
    · exact ⟨_, rfl⟩

section
variable {s : Kernel}

@[simp] theorem life_setReq {p : Ptr} {r : BiusRequest} (h : (s.req p).Keeps r) :
    (s.setReq p r).life = s.life := by
  obtain ⟨h₁, h₂, h₃⟩ := h
  ext q <;> simp only [Kernel.life, Kernel.setReq]
  · by_cases hq : q = p
    · subst hq; rw [Function.update_self, h₁]
    · rw [Function.update_of_ne hq]
  · by_cases hq : q = p
    · subst hq; rw [Function.update_self, h₂]
    · rw [Function.update_of_ne hq]
  · by_cases hq : q = p
    · subst hq; rw [Function.update_self, h₃]
    · rw [Function.update_of_ne hq]

@[simp] theorem life_setCall (t : Tid) (x : Call) :
    (s.setCall t x).life = s.life.setHold t x.hold := by
  ext u <;> simp only [Kernel.life, Kernel.setCall, Life.setHold, Function.update_apply]
  split <;> rfl

@[simp] theorem life_setConn (c : Nat) (k : Connection) :
    (s.setConn c k).life = (s.life.setWaiting c k.waiting).setSending c k.sending := by
  ext u <;>
    simp only [Kernel.life, Kernel.setConn, Life.setWaiting, Life.setSending, Function.update_apply]
  · split <;> rfl
  · split <;> rfl

theorem Life.setHold_of_eq {l : Life} {t : Tid} {h : Hold} (hh : l.hold t = h) : l.setHold t h = l := by
  ext u <;> simp only [Life.setHold, Function.update_apply]
  split
  · next heq => rw [heq, hh]
  · rfl

@[simp] theorem Life.setWaiting_self (l : Life) (c : Nat) : l.setWaiting c (l.waiting c) = l := by
  ext u <;> simp [Life.setWaiting]

@[simp] theorem Life.setSending_self (l : Life) (c : Nat) : l.setSending c (l.sending c) = l := by
  ext u <;> simp [Life.setSending]

theorem life_onRequestEnd (p : Ptr) : (s.onRequestEnd p).life = s.life.finish p := by
  by_cases hb : isBlkRequest (s.req p).type = true
  · ext q <;> simp [Kernel.life, Kernel.onRequestEnd, Life.finish, hb]
  · ext q <;> simp only [Kernel.life, Kernel.onRequestEnd, Life.finish, hb, Function.update_apply,
      List.map_append, List.map_singleton, Bool.false_eq_true, if_false]
    all_goals
      split
      · next heq => subst heq; rfl
      · rfl

theorem life_endBlkRequest (p : Ptr) (result : Int) :
    (s.endBlkRequest p result).life = s.life.finish p := by
  rw [Kernel.endBlkRequest, life_onRequestEnd, life_setReq]
  exact ⟨rfl, rfl, rfl⟩

theorem life_endRequestInt (p : Ptr) (result : Int) :
    (s.endRequestInt p result).life = s.life.finish p := by
  rw [Kernel.endRequestInt, life_onRequestEnd, life_setReq]
  exact ⟨rfl, rfl, rfl⟩

/-! ## The steps -/

/-- `s'` is as `s` in the eyes of `Life`, or one move further. -/
def LifeStep (l l' : Life) : Prop := l' = l ∨ Life.Step l l'

theorem life_idle {t : Tid} {x : Call} (ht : (s.call t).hold = .nothing) (hx : x.hold = .nothing) :
    (s.setCall t x).life = s.life := by
  rw [life_setCall, hx]
  exact Life.setHold_of_eq ht

theorem submit_life {t : Tid} {p : Ptr} {r : BiusRequest} (ht : (s.call t).hold = .nothing)
    (hp : s.busy p = false) (hid : r.id = s.nextRequestId + 1)
    (hsem : isBlkRequest r.type = false → r.sem = 0) : LifeStep s.life (s.submit t p r).life := by
  have heq : (s.submit t p r).life =
      { s.life with
        next := s.life.next + 1
        id := Function.update s.life.id p (s.life.next + 1)
        blk := Function.update s.life.blk p (isBlkRequest r.type)
        sem := Function.update s.life.sem p r.sem
        busy := Function.update s.life.busy p true
        hold := Function.update s.life.hold t (.filling p) } := by
    ext q <;> simp only [Kernel.life, Kernel.submit, Function.update_apply]
    · split
      · exact hid
      · rfl
    all_goals split <;> rfl
  rw [heq]
  exact Or.inr (.issue t p _ _ ht hp hsem)

theorem queueRq_life {t : Tid} {p : Ptr} {rq : Rq} (ht : (s.call t).hold = .nothing)
    (hp : s.busy p = false) (hid : s.nextRequestId + 1 < 2 ^ 64) :
    LifeStep s.life (s.queueRq t p rq).life := by
  have hnew : s.newId = s.nextRequestId + 1 := Nat.mod_eq_of_lt hid
  have hblk : isBlkRequest (toBiusRequest rq.op) = true := by
    simpa [isBlkRequest] using toBiusRequest_ne_reportZones rq.op
  unfold Kernel.queueRq
  dsimp only
  split
  · have heq : Kernel.life { s with
          nextRequestId := s.nextRequestId + 1
          req := Function.update s.req p (initBlkRequest (s.req p) s.newId rq)
          call := Function.update s.call t (.done (.status blkStsNotsupp))
          ended := s.ended ++ [{ initBlkRequest (s.req p) s.newId rq with blkResult := blkStsNotsupp }] } =
        { s.life with
          next := s.life.next + 1
          id := Function.update s.life.id p (s.life.next + 1)
          blk := Function.update s.life.blk p true
          sem := Function.update s.life.sem p (s.req p).sem
          ended := s.life.ended ++ [s.life.next + 1] } := by
      ext q <;> simp only [Kernel.life, initBlkRequest, Function.update_apply, hnew, List.map_append,
        List.map_singleton]
      · split <;> rfl
      · split
        · exact hblk
        · rfl
      · split <;> rfl
      · split
        · next heq => rw [heq, ht]; rfl
        · rfl
    rw [heq]
    exact Or.inr (.refuse p _ hp)
  · refine submit_life ht hp hnew (fun h => ?_)
    simp only [initBlkRequest, hblk] at h
    cases h

theorem reportZones_life {t : Tid} {p : Ptr} {sector n : Nat} {blkz : Option (Nat → UInt8)}
    (ht : (s.call t).hold = .nothing) (hp : s.busy p = false) (hid : s.nextRequestId + 1 < 2 ^ 64) :
    LifeStep s.life (s.reportZones t p sector n blkz).life := by
  have hnew : s.newId = s.nextRequestId + 1 := Nat.mod_eq_of_lt hid
  unfold Kernel.reportZones
  cases blkz with
  | none => exact Or.inl (life_idle ht rfl)
  | some blkz => exact submit_life ht hp hnew (fun _ => rfl)

theorem insert_life {t : Tid} {p : Ptr} (ht : s.call t = .queueing p) :
    LifeStep s.life (s.insert t p).life := by
  have heq : (s.insert t p).life =
      { s.life with
        pending := s.life.pending ++ [p]
        queued := s.life.queued ++ [s.life.id p]
        hold := Function.update s.life.hold t (if s.life.blk p then .nothing else .waits p) } := by
    ext u <;> simp only [Kernel.life, Kernel.insert, Function.update_apply]
    split
    · by_cases hb : isBlkRequest (s.req p).type = true <;> simp [hb, Call.hold]
    · rfl
  rw [heq]
  exact Or.inr (.insert t p (by simp [Kernel.life, ht, Call.hold]))

theorem readStart_life {s' : Kernel} {t : Tid} {c size : Nat} {cuts : List Nat} (ht : s.call t = .idle)
    (h : s.readStart t c size cuts = some s') : LifeStep s.life s'.life := by
  unfold Kernel.readStart at h
  have hnone : (s.call t).hold = .nothing := by rw [ht]; rfl
  split at h
  · cases h; exact Or.inl (life_idle hnone rfl)
  · split at h
    · next p hp =>
      rw [Option.map_eq_some_iff] at h
      obtain ⟨res, hres, rfl⟩ := h
      obtain ⟨bio, mapData, hr⟩ := biusSendData_keeps hres
      have hk : (s.req p).Keeps res.1 := by rw [hr]; exact ⟨rfl, rfl, rfl⟩
      by_cases hd : requestIoDone res.1 = true
      · -- the payload is complete
        simp only [hd, if_true]
        have hsent := Life.Step.sent (s := s.life) c
        rw [← Life.setHold_of_eq (l := s.life.setSending c none) hnone] at hsent
        refine Or.inr ?_
        split <;>
        · rw [life_setCall, life_setConn, life_setReq hk]
          have hw : ((s.setReq p res.1).conn c).waiting = s.life.waiting c := rfl
          rw [hw, Life.setWaiting_self]
          exact hsent
      · simp only [hd, Bool.false_eq_true, if_false]
        refine Or.inl ?_
        split <;>
        · rw [life_setCall, life_setReq hk]
          exact Life.setHold_of_eq hnone
    · split at h
      · cases h; exact Or.inl (life_idle hnone rfl)
      · cases h; exact Or.inl (life_idle hnone rfl)

/-- What happens between taking a request and sending its command touches only
    its data, the window, and `sending`. -/
theorem prepare_life {s' : Kernel} {cfg : Config} {c : Nat} {p : Ptr}
    (h : s.prepare cfg c p = some s') :
    s'.life = s.life ∨ s'.life = s.life.setSending c (some p) := by
  unfold Kernel.prepare at h
  split at h
  · split at h
    · rw [Option.map_eq_some_iff] at h
      obtain ⟨vmStart, -, rfl⟩ := h
      obtain ⟨_, _, _, hr⟩ := biusMapData_keeps (s.req p) vmStart (rqForEachSegment (s.req p).rq)
      refine Or.inl ?_
      rw [Kernel.mapData, life_setConn, life_setReq (by rw [hr]; exact ⟨rfl, rfl, rfl⟩)]
      exact (congrArg (Life.setSending · c _) (Life.setWaiting_self s.life c)).trans
        (Life.setSending_self s.life c)
    · split at h
      · cases h
        refine Or.inr ?_
        rw [Kernel.sendLater, life_setConn, life_setReq (by exact ⟨rfl, rfl, rfl⟩)]
        exact congrArg (Life.setSending · c _) (Life.setWaiting_self s.life c)
      · cases h; exact Or.inl rfl
  · cases h; exact Or.inl rfl

theorem readTake_life {s' : Kernel} {cfg : Config} {t : Tid} {c : Nat} {p : Ptr} {ps : List Ptr}
    (ht : s.call t = .readWait c) (hp : s.pending = p :: ps)
    (h : Kernel.prepare cfg
        { s with
          pending := ps
          taken := s.taken ++ [(s.req p).id]
          call := Function.update s.call t (.readTaken c p) } c p = some s') : LifeStep s.life s'.life := by
  have hnone : s.life.hold t = .nothing := by simp [Kernel.life, ht, Call.hold]
  have heq : ∀ x, Life.setSending (Kernel.life { s with
        pending := ps
        taken := s.taken ++ [(s.req p).id]
        call := Function.update s.call t (.readTaken c p) }) c x =
      { s.life with
        pending := ps
        taken := s.life.taken ++ [s.life.id p]
        hold := Function.update s.life.hold t (.taken c p)
        sending := Function.update s.life.sending c x } := by
    intro x
    ext u <;> simp only [Kernel.life, Life.setSending, Function.update_apply]
    split <;> rfl
  rcases prepare_life h with h | h
  · rw [h, (Life.setSending_self _ c).symm.trans (heq (s.life.sending c))]
    exact Or.inr (.take t c p ps _ hnone hp (Or.inl rfl))
  · rw [h, heq]
    exact Or.inr (.take t c p ps _ hnone hp (Or.inr rfl))

theorem readSend_life {cfg : Config} {t : Tid} {c : Nat} {p : Ptr} {n : Nat}
    (ht : s.call t = .readTaken c p) : LifeStep s.life (s.readSend cfg t c p n).life := by
  have hold : s.life.hold t = .taken c p := by simp [Kernel.life, ht, Call.hold]
  unfold Kernel.readSend
  split
  · rw [life_setCall, life_setConn, life_endBlkRequest]
    refine Or.inr ?_
    have := Life.Step.fail t c p hold
    rwa [← Life.setWaiting_self (s.life.finish p) c] at this
  · rw [life_setCall, life_setConn]
    refine Or.inr ?_
    have := Life.Step.wait t c p hold
    rwa [← Life.setSending_self (s.life.setWaiting c (s.life.waiting c ++ [p])) c] at this

/-- `get_request_by_id` finds a request of the list, with that id. -/
theorem getRequestById_some {l : List Ptr} {id : Nat} {p : Ptr} (h : s.getRequestById l id = some p) :
    p ∈ l ∧ (s.req p).id = id :=
  ⟨List.mem_of_find?_eq_some h, by simpa using List.find?_some h⟩

theorem writeStart_life {t : Tid} {c size n : Nat} {header : U2k} (ht : s.call t = .idle) :
    LifeStep s.life (s.writeStart t c size n header).life := by
  have hnone : (s.call t).hold = .nothing := by rw [ht]; rfl
  unfold Kernel.writeStart
  split
  · exact Or.inl (life_idle hnone rfl)
  · split
    · exact Or.inl (life_idle hnone rfl)
    · split
      · exact Or.inl (life_idle hnone rfl)
      · next p hp =>
        rw [life_setCall, life_setConn]
        exact Or.inr (.reply t c p hnone (getRequestById_some hp).1)

theorem finishBlk_life {s' : Kernel} {cfg : Config} {t : Tid} {c : Nat} {p : Ptr} {header : U2k} {n : Nat}
    (h : s.finishBlk cfg t c p header n = some s') : s'.life = (s.life.finish p).setHold t .nothing := by
  have hfin : ∀ s₁ : Kernel, s₁.life = s.life →
      ((Kernel.endBlkRequest (if (s₁.req p).type = .zoneAppend then
          s₁.setReq p { s₁.req p with pos := toInt64 header.userData } else s₁) p header.reply).setCall t
        (.done (.value n))).life = (s.life.finish p).setHold t .nothing := by
    intro s₁ h₁
    rw [life_setCall, life_endBlkRequest]
    split
    · rw [life_setReq (by exact ⟨rfl, rfl, rfl⟩), h₁]; rfl
    · rw [h₁]; rfl
  unfold Kernel.finishBlk at h
  dsimp only at h
  split at h
  · rw [Option.map_eq_some_iff] at h
    obtain ⟨vmStart, -, rfl⟩ := h
    obtain ⟨_, hr⟩ := biusUnmapData_keeps (s.req p) vmStart
    apply hfin _
    rw [life_setConn, life_setReq (by rw [hr]; exact ⟨rfl, rfl, rfl⟩)]
    exact (congrArg (Life.setSending · c _) (Life.setWaiting_self s.life c)).trans
      (Life.setSending_self s.life c)
  · cases h
    exact hfin s rfl

theorem writeEnd_life {s' : Kernel} {cfg : Config} {t : Tid} {c : Nat} {p : Ptr} {header : U2k} {n : Nat}
    {umem : UMem} (h : s.writeEnd cfg t c p header n umem = some s') :
    s'.life = (s.life.finish p).setHold t .nothing := by
  unfold Kernel.writeEnd at h
  dsimp only at h
  split at h
  · split at h
    · obtain ⟨_, hr⟩ := biusReceiveData_keeps (s.req p) umem header.userData
      have hk : (s.req p).Keeps (biusReceiveData (s.req p) umem header.userData).1 := by
        rw [hr]; exact ⟨rfl, rfl, rfl⟩
      split at h
      · cases h
        rw [life_setCall, life_endBlkRequest, life_setReq hk]; rfl
      · rw [finishBlk_life h, life_setReq hk]
    · exact finishBlk_life h
  · split at h
    · cases h
      rw [life_setCall, life_endRequestInt]; rfl
    · split at h <;>
      · cases h
        rw [life_setCall, life_endRequestInt, life_setReq (by exact ⟨rfl, rfl, rfl⟩)]; rfl

end

theorem life_setConn_self (s : Kernel) (c : Nat) {k : Connection} (hw : k.waiting = (s.conn c).waiting)
    (hs : k.sending = (s.conn c).sending) : (s.setConn c k).life = s.life := by
  rw [life_setConn, hw, hs]
  exact (congrArg (Life.setSending · c _) (Life.setWaiting_self s.life c)).trans
    (Life.setSending_self s.life c)

/-- The steps that draw an id. -/
def Act.submits : Act → Bool
  | .queueRq _ _ _ | .reportZones _ _ _ _ _ => true
  | _ => false

theorem step_life_of {cfg : Config} {s s' : Kernel} {act : Act} (h : step cfg s act = some s')
    (hid : act.submits = true → s'.nextRequestId < 2 ^ 64) : LifeStep s.life s'.life := by
  cases step_cases h with
  | attach c => exact Or.inl (life_setConn_self s c rfl rfl)
  | mmap c vmStart => exact Or.inl (life_setConn_self s c rfl rfl)
  | queueRq t p rq ht hp =>
    apply queueRq_life (by rw [ht]; rfl) hp
    have hid := hid rfl
    unfold Kernel.queueRq at hid
    dsimp only at hid
    split at hid <;> exact hid
  | reportZones t p sector n blkz ht hp =>
    cases blkz with
    | none => exact Or.inl (life_idle (by rw [ht]; rfl) rfl)
    | some blkz => exact reportZones_life (by rw [ht]; rfl) hp (hid rfl)
  | insert t p ht => exact insert_life ht
  | zonesWake t p junk cb ht hsem =>
    have hwake := Life.Step.wake (s := s.life) t p (by simp [Kernel.life, ht, Call.hold]) hsem
    refine Or.inr ?_
    convert hwake using 1
    ext u <;> simp only [Kernel.life, Life.setHold, Function.update_apply]
    split <;> simp [Call.hold]
  | readStart t c size cuts ht hs => exact readStart_life ht hs
  | readInterrupt t c e ht => exact Or.inl (life_idle (by rw [ht]; rfl) rfl)
  | readTake t c p ps ht hp hs => exact readTake_life ht hp hs
  | readSend t c p n ht => exact readSend_life ht
  | writeStart t c size n header ht hc => exact writeStart_life ht
  | writeEnd t c p header n umem ht hs =>
    rw [writeEnd_life hs]
    exact Or.inr (.complete t c p (by simp [Kernel.life, ht, Call.hold]))
  | ret t r ht => exact Or.inl (life_idle (by rw [ht]; rfl) rfl)

/-- **Refinement.** A step of the machine is a move of `Life` or none. -/
theorem step_life {cfg : Config} {s s' : Kernel} {act : Act} (h : step cfg s act = some s')
    (hid : s'.nextRequestId < 2 ^ 64) : LifeStep s.life s'.life :=
  step_life_of h (fun _ => hid)

theorem LifeStep.next_le {l l' : Life} (h : LifeStep l l') : l.next ≤ l'.next := by
  rcases h with rfl | h
  · exact Nat.le_refl _
  · cases h <;> simp

/-- The invariant holds in every state of every run, up to the point where the id
    counter wraps. -/
theorem reach_life {cfg : Config} {ok : Kernel → Act → Prop} {s : Kernel}
    (h : Machine.Reach (step cfg) ok Kernel.init s) (hid : s.nextRequestId < 2 ^ 64) : s.life.Inv := by
  refine h.inv (I := fun s => s.nextRequestId < 2 ^ 64 → s.life.Inv) (fun s act s' ih _ hs hid' => ?_)
    (fun _ => Life.Inv.init) hid
  have hstep := step_life hs hid'
  have ih := ih (Nat.lt_of_le_of_lt hstep.next_le hid')
  rcases hstep with heq | hmove
  · rw [heq]; exact ih
  · exact ih.step hmove

/-! ## What a step leaves alone -/

/-- The thread that moves. -/
def Act.tid : Act → Option Tid
  | .attach _ | .mmap _ _ => none
  | .queueRq t _ _ | .reportZones t _ _ _ _ | .insert t | .zonesWake t _ _ | .readStart t _ _ _
  | .readInterrupt t _ | .readTake t | .readSend t _ | .writeStart t _ _ _ _ | .writeEnd t _ | .ret t => some t

/-- The request a call holds. -/
def Call.held : Call → Option Ptr
  | .readTaken _ p | .replied _ p _ _ => some p
  | _ => none

/-- The request whose contents a step may change. -/
def Act.touches (s : Kernel) : Act → Option Ptr
  | .queueRq _ p _ | .reportZones _ p _ _ _ => some p
  | .readStart _ c _ _ => (s.conn c).sending
  | .readTake _ => s.pending.head?
  | .readSend t _ | .writeEnd t _ => (s.call t).held
  | _ => none

section
variable {s : Kernel}

theorem onRequestEnd_frame {p q : Ptr} (h : q ≠ p) : (s.onRequestEnd p).req q = s.req q := by
  by_cases hb : isBlkRequest (s.req p).type = true <;> simp [hb, h]

theorem endBlkRequest_frame {p q : Ptr} {result : Int} (h : q ≠ p) :
    (s.endBlkRequest p result).req q = s.req q :=
  (onRequestEnd_frame h).trans (Function.update_of_ne h _ _)

theorem endRequestInt_frame {p q : Ptr} {result : Int} (h : q ≠ p) :
    (s.endRequestInt p result).req q = s.req q :=
  (onRequestEnd_frame h).trans (Function.update_of_ne h _ _)

theorem prepare_frame {s' : Kernel} {cfg : Config} {c : Nat} {p : Ptr} (h : s.prepare cfg c p = some s') :
    (∀ q, q ≠ p → s'.req q = s.req q) ∧ (∀ d, d ≠ c → s'.conn d = s.conn d) ∧ s'.call = s.call := by
  unfold Kernel.prepare at h
  split at h
  · split at h
    · rw [Option.map_eq_some_iff] at h
      obtain ⟨vmStart, -, rfl⟩ := h
      exact ⟨fun q hq => Function.update_of_ne hq _ _, fun d hd => Function.update_of_ne hd _ _, rfl⟩
    · split at h
      · cases h
        exact ⟨fun q hq => Function.update_of_ne hq _ _, fun d hd => Function.update_of_ne hd _ _, rfl⟩
      · cases h
        exact ⟨fun _ _ => rfl, fun _ _ => rfl, rfl⟩
  · cases h
    exact ⟨fun _ _ => rfl, fun _ _ => rfl, rfl⟩

theorem finishBlk_frame {s' : Kernel} {cfg : Config} {t : Tid} {c : Nat} {p : Ptr} {header : U2k} {n : Nat}
    (h : s.finishBlk cfg t c p header n = some s') :
    (∀ q, q ≠ p → s'.req q = s.req q) ∧ (∀ u, u ≠ t → s'.call u = s.call u) := by
  unfold Kernel.finishBlk at h
  dsimp only at h
  have hpos : ∀ (s₁ : Kernel) (q : Ptr), q ≠ p →
      (if (s₁.req p).type = .zoneAppend then
        s₁.setReq p { s₁.req p with pos := toInt64 header.userData } else s₁).req q = s₁.req q := by
    intro s₁ q hq
    split
    · exact Function.update_of_ne hq _ _
    · rfl
  split at h
  · rw [Option.map_eq_some_iff] at h
    obtain ⟨vmStart, -, rfl⟩ := h
    refine ⟨fun q hq => ?_, fun u hu => ?_⟩
    · rw [Kernel.setCall_req, endBlkRequest_frame hq, hpos _ q hq]
      exact Function.update_of_ne hq _ _
    · simp only [Kernel.setCall_call, Function.update_of_ne hu]
      split <;> rfl
  · cases h
    refine ⟨fun q hq => ?_, fun u hu => ?_⟩
    · rw [Kernel.setCall_req, endBlkRequest_frame hq, hpos _ q hq]
    · simp only [Kernel.setCall_call, Function.update_of_ne hu]
      split <;> rfl

theorem writeEnd_frame {s' : Kernel} {cfg : Config} {t : Tid} {c : Nat} {p : Ptr} {header : U2k} {n : Nat}
    {umem : UMem} (h : s.writeEnd cfg t c p header n umem = some s') :
    (∀ q, q ≠ p → s'.req q = s.req q) ∧ (∀ u, u ≠ t → s'.call u = s.call u) := by
  unfold Kernel.writeEnd at h
  dsimp only at h
  split at h
  · split at h
    · split at h
      · cases h
        refine ⟨fun q hq => ?_, fun u hu => Function.update_of_ne hu _ _⟩
        rw [Kernel.setCall_req, endBlkRequest_frame hq]
        exact Function.update_of_ne hq _ _
      · obtain ⟨h₁, h₂⟩ := finishBlk_frame h
        exact ⟨fun q hq => (h₁ q hq).trans (Function.update_of_ne hq _ _), h₂⟩
    · exact finishBlk_frame h
  · split at h
    · cases h
      exact ⟨fun q hq => endRequestInt_frame hq, fun u hu => Function.update_of_ne hu _ _⟩
    · split at h <;>
      · cases h
        refine ⟨fun q hq => ?_, fun u hu => Function.update_of_ne hu _ _⟩
        rw [Kernel.setCall_req, endRequestInt_frame hq]
        exact Function.update_of_ne hq _ _

end

theorem readStart_frame {s s' : Kernel} {t : Tid} {c size : Nat} {cuts : List Nat}
    (h : s.readStart t c size cuts = some s') :
    (∀ q, (s.conn c).sending ≠ some q → s'.req q = s.req q) ∧
    (∀ d, d ≠ c → s'.conn d = s.conn d) ∧ (∀ u, u ≠ t → s'.call u = s.call u) := by
  unfold Kernel.readStart at h
  split at h
  · cases h; exact ⟨fun _ _ => rfl, fun _ _ => rfl, fun u hu => Function.update_of_ne hu _ _⟩
  · split at h
    · next p hp =>
      rw [Option.map_eq_some_iff] at h
      obtain ⟨res, -, rfl⟩ := h
      dsimp only
      refine ⟨fun q hq => ?_, fun d hd => ?_, fun u hu => ?_⟩
      · have hqp : q ≠ p := fun he => hq (by rw [he]; exact hp)
        split <;> split <;> exact Function.update_of_ne hqp _ _
      · split <;> split <;> first | exact Function.update_of_ne hd _ _ | rfl
      · split <;> split <;> exact Function.update_of_ne hu _ _
    · split at h <;>
      · cases h
        exact ⟨fun _ _ => rfl, fun _ _ => rfl, fun u hu => Function.update_of_ne hu _ _⟩

theorem step_req {cfg : Config} {s s' : Kernel} {act : Act} (h : step cfg s act = some s') {q : Ptr}
    (hq : act.touches s ≠ some q) : s'.req q = s.req q := by
  cases step_cases h with
  | queueRq t p rq ht hp =>
    have hqp : q ≠ p := fun he => hq (by rw [he]; rfl)
    unfold Kernel.queueRq
    dsimp only
    split <;> exact Function.update_of_ne hqp _ _
  | reportZones t p sector n blkz ht hp =>
    have hqp : q ≠ p := fun he => hq (by rw [he]; rfl)
    cases blkz with
    | none => rfl
    | some blkz => exact Function.update_of_ne hqp _ _
  | readStart t c size cuts ht hs => exact (readStart_frame hs).1 q hq
  | readTake t c p ps ht hp hs =>
    have hqp : q ≠ p := fun he => hq (by simp [Act.touches, hp, he])
    exact (prepare_frame hs).1 q hqp
  | readSend t c p n ht =>
    have hqp : q ≠ p := fun he => hq (by simp [Act.touches, ht, Call.held, he])
    unfold Kernel.readSend
    split
    · exact endBlkRequest_frame hqp
    · rfl
  | writeStart t c size n header ht hc =>
    unfold Kernel.writeStart
    split
    · rfl
    · split
      · rfl
      · split <;> rfl
  | writeEnd t c p header n umem ht hs =>
    have hqp : q ≠ p := fun he => hq (by simp [Act.touches, ht, Call.held, he])
    exact (writeEnd_frame hs).1 q hqp
  | _ => rfl

theorem step_call {cfg : Config} {s s' : Kernel} {act : Act} (h : step cfg s act = some s') {u : Tid}
    (hu : act.tid ≠ some u) : s'.call u = s.call u := by
  have hne : ∀ t, act.tid = some t → u ≠ t := fun t ht he => hu (by rw [ht, he])
  cases step_cases h with
  | attach | mmap => rfl
  | queueRq t p rq ht hp =>
    unfold Kernel.queueRq
    dsimp only
    split <;> exact Function.update_of_ne (hne t rfl) _ _
  | reportZones t p sector n blkz ht hp =>
    cases blkz <;> exact Function.update_of_ne (hne t rfl) _ _
  | readStart t c size cuts ht hs => exact (readStart_frame hs).2.2 u (hne t rfl)
  | readTake t c p ps ht hp hs =>
    rw [(prepare_frame hs).2.2]
    exact Function.update_of_ne (hne t rfl) _ _
  | readSend t c p n ht =>
    unfold Kernel.readSend
    split <;> exact Function.update_of_ne (hne t rfl) _ _
  | writeStart t c size n header ht hc =>
    unfold Kernel.writeStart
    split
    · exact Function.update_of_ne (hne t rfl) _ _
    · split
      · exact Function.update_of_ne (hne t rfl) _ _
      · split <;> exact Function.update_of_ne (hne t rfl) _ _
  | writeEnd t c p header n umem ht hs => exact (writeEnd_frame hs).2 u (hne t rfl)
  | insert t p ht => exact Function.update_of_ne (hne t rfl) _ _
  | zonesWake t p junk cb ht hsem => exact Function.update_of_ne (hne t rfl) _ _
  | readInterrupt t c e ht => exact Function.update_of_ne (hne t rfl) _ _
  | ret t r ht => exact Function.update_of_ne (hne t rfl) _ _

/-! ## What a reply meets -/

theorem steps_call {cfg : Config} {ok : Kernel → Act → Prop} {s s' : Kernel} {acts : List Act}
    (h : Machine.Steps (step cfg) ok s acts s') {u : Tid} (hu : ∀ act ∈ acts, act.tid ≠ some u) :
    s'.call u = s.call u := by
  induction h with
  | nil => rfl
  | cons _ hst _ ih => exact (ih (fun a ha => hu a (by simp [ha]))).trans (step_call hst (hu _ (by simp)))

theorem touches_loc {cfg : Config} {s s' : Kernel} {act : Act} {loc : Ptr → Life.Loc}
    (hl : Life.Located loc s.life) (h : step cfg s act = some s') {p : Ptr} (hp : act.touches s = some p) :
    loc p = .free ∨ loc p = .pending ∨ (∃ c, loc p = .waiting c) ∨ (∃ t c, loc p = .taken t c) ∨
      ∃ t c, loc p = .replied t c ∧ act.tid = some t := by
  have hheld : ∀ t, (s.call t).held = some p → (∃ c, loc p = .taken t c) ∨ ∃ c, loc p = .replied t c := by
    intro t ht
    cases hc : s.call t with
    | readTaken c q =>
      rw [hc] at ht; cases ht
      exact Or.inl ⟨c, (hl.taken t c p).1 (by simp [Kernel.life, hc, Call.hold])⟩
    | replied c q _ _ =>
      rw [hc] at ht; cases ht
      exact Or.inr ⟨c, (hl.replied t c p).1 (by simp [Kernel.life, hc, Call.hold])⟩
    | _ => rw [hc] at ht; cases ht
  cases step_cases h with
  | queueRq t q rq ht hq | reportZones t q _ _ _ ht hq =>
    cases hp
    exact Or.inl (hl.free hq).1
  | readStart t c size cuts ht hs =>
    rcases hl.sending c p hp with hw | ⟨u, hw⟩
    · exact Or.inr (Or.inr (Or.inl ⟨c, hw⟩))
    · exact Or.inr (Or.inr (Or.inr (Or.inl ⟨u, c, hw⟩)))
  | readTake t c q qs ht hq hs =>
    rw [Act.touches, hq] at hp
    cases hp
    exact Or.inr (Or.inl ((hl.pending p).1 (by simp [Kernel.life, hq])))
  | readSend t c q n ht | writeEnd t c q header n umem ht hs =>
    rcases hheld t hp with ⟨d, hw⟩ | ⟨d, hw⟩
    · exact Or.inr (Or.inr (Or.inr (Or.inl ⟨t, d, hw⟩)))
    · exact Or.inr (Or.inr (Or.inr (Or.inr ⟨t, d, hw, rfl⟩)))
  | _ => cases hp

/-- A request that a `bius_dev_write` has removed from the waiting list is out of
    reach of every other thread. (While a `bius_dev_read` holds it, another read on
    the connection may already send its payload.) -/
theorem replied_step {cfg : Config} {s s' : Kernel} {act : Act} (hi : s.life.Inv)
    (h : step cfg s act = some s') {t : Tid} (ht : act.tid ≠ some t) {c : Nat} {p : Ptr} {header : U2k}
    {n : Nat} (hp : s.call t = .replied c p header n) :
    s'.call t = .replied c p header n ∧ s'.req p = s.req p := by
  refine ⟨(step_call h ht).trans hp, step_req h (fun htouch => ?_)⟩
  obtain ⟨loc, hl, -⟩ := hi
  have hloc : loc p = .replied t c := (hl.replied t c p).1 (by simp [Kernel.life, hp, Call.hold])
  have hmoves := touches_loc hl h htouch
  rw [hloc] at hmoves
  rcases hmoves with hw | hw | ⟨_, hw⟩ | ⟨_, _, hw⟩ | ⟨u, d, hw, hu⟩ <;> cases hw
  exact ht hu

/-- An ended report-zones request is left alone until its caller wakes up. -/
theorem over_step {cfg : Config} {s s' : Kernel} {act : Act} (hi : s.life.Inv)
    (h : step cfg s act = some s') {u : Tid} (hu : act.tid ≠ some u) {p : Ptr}
    (hp : s.call u = .zonesWait p) (hsem : 0 < (s.req p).sem) :
    s'.call u = .zonesWait p ∧ s'.req p = s.req p := by
  refine ⟨(step_call h hu).trans hp, step_req h (fun htouch => ?_)⟩
  obtain ⟨loc, hl, -⟩ := hi
  have hloc : loc p = .ended :=
    (hl.waits u p (by simp [Kernel.life, hp, Call.hold])).2.2.2.1 hsem
  have hmoves := touches_loc hl h htouch
  rw [hloc] at hmoves
  rcases hmoves with hw | hw | ⟨_, hw⟩ | ⟨_, _, hw⟩ | ⟨_, _, hw, _⟩ <;> cases hw

theorem steps_next_le {cfg : Config} {ok : Kernel → Act → Prop} {s s' : Kernel} {acts : List Act}
    (h : Machine.Steps (step cfg) ok s acts s') (hid : s'.nextRequestId < 2 ^ 64) :
    s.nextRequestId ≤ s'.nextRequestId := by
  induction h with
  | nil => exact Nat.le_refl _
  | cons _ hst _ ih =>
    have hle := ih hid
    exact Nat.le_trans (step_life hst (Nat.lt_of_le_of_lt hle hid)).next_le hle

/-- What the steps of the other threads preserve in reachable states, a run of the
    other threads preserves. -/
theorem steps_others {cfg : Config} {ok : Kernel → Act → Prop} {t : Tid} {Q : Kernel → Prop}
    (hQ : ∀ s act s', s.life.Inv → step cfg s act = some s' → act.tid ≠ some t → Q s → Q s')
    {s s' : Kernel} {acts : List Act} (hr : Machine.Reach (step cfg) ok Kernel.init s)
    (h : Machine.Steps (step cfg) ok s acts s') (hid : s'.nextRequestId < 2 ^ 64)
    (ht : ∀ act ∈ acts, act.tid ≠ some t) (hs : Q s) : Q s' := by
  induction h with
  | nil => exact hs
  | cons hok hst hrest ih =>
    have hle := steps_next_le hrest hid
    have hle₀ := (step_life hst (Nat.lt_of_le_of_lt hle hid)).next_le
    have hinv := reach_life hr (Nat.lt_of_le_of_lt hle₀ (Nat.lt_of_le_of_lt hle hid))
    exact ih (hr.snoc hok hst) hid (fun a ha => ht a (by simp [ha])) (hQ _ _ _ hinv hst (ht _ (by simp)) hs)

theorem replied_steps {cfg : Config} {ok : Kernel → Act → Prop} {s s' : Kernel} {acts : List Act}
    (hr : Machine.Reach (step cfg) ok Kernel.init s) (h : Machine.Steps (step cfg) ok s acts s')
    (hid : s'.nextRequestId < 2 ^ 64) {t : Tid} (ht : ∀ act ∈ acts, act.tid ≠ some t) {c : Nat} {p : Ptr}
    {header : U2k} {n : Nat} (hp : s.call t = .replied c p header n) :
    s'.call t = .replied c p header n ∧ s'.req p = s.req p := by
  refine steps_others (Q := fun x => x.call t = .replied c p header n ∧ x.req p = s.req p) ?_ hr h hid ht
    ⟨hp, rfl⟩
  rintro x act x' hi hst hact ⟨hcall, hreq⟩
  obtain ⟨hcall', hreq'⟩ := replied_step hi hst hact hcall
  exact ⟨hcall', hreq'.trans hreq⟩

theorem over_steps {cfg : Config} {ok : Kernel → Act → Prop} {s s' : Kernel} {acts : List Act}
    (hr : Machine.Reach (step cfg) ok Kernel.init s) (h : Machine.Steps (step cfg) ok s acts s')
    (hid : s'.nextRequestId < 2 ^ 64) {u : Tid} (hu : ∀ act ∈ acts, act.tid ≠ some u) {p : Ptr}
    (hp : s.call u = .zonesWait p) (hsem : 0 < (s.req p).sem) :
    s'.call u = .zonesWait p ∧ s'.req p = s.req p := by
  refine steps_others (Q := fun x => x.call u = .zonesWait p ∧ x.req p = s.req p) ?_ hr h hid hu
    ⟨hp, rfl⟩
  rintro x act x' hi hst hact ⟨hcall, hreq⟩
  obtain ⟨hcall', hreq'⟩ := over_step hi hst hact hcall (by rw [hreq]; exact hsem)
  exact ⟨hcall', hreq'.trans hreq⟩

/-- `writeStart` when the kernel has got a header and its request waits on the
    connection. -/
theorem writeStart_found {s : Kernel} {loc : Ptr → Life.Loc} (hl : Life.Located loc s.life)
    (hn : Life.Numbered loc s.life) {t : Tid} {c size n : Nat} {header : U2k} (hsize : sizeofU2k ≤ size)
    (hpos : 0 < n) {p : Ptr} (hp : p ∈ (s.conn c).waiting) (hid : (s.req p).id = header.id) :
    s.writeStart t c size n header =
      (s.setConn c
        { s.conn c with
          waiting := (s.conn c).waiting.erase p
          sending := if (s.conn c).sending = some p then none else (s.conn c).sending }).setCall t
        (.replied c p header (min n sizeofU2k)) := by
  have hfind : s.getRequestById (s.conn c).waiting header.id = some p := by
    cases hf : s.getRequestById (s.conn c).waiting header.id with
    | none =>
      have := List.find?_eq_none.1 hf p hp
      simp [hid] at this
    | some q =>
      obtain ⟨hq, hqid⟩ := getRequestById_some hf
      have hloc : ∀ x ∈ (s.conn c).waiting, loc x ≠ .free := by
        intro x hx
        rw [(hl.waiting c x).1 hx]; simp
      rw [hn.inj q p (hloc q hq) (hloc p hp) (hqid.trans hid.symm)]
  rw [Kernel.writeStart, if_neg (by omega), if_neg (by omega), hfind]

theorem writeStart_missing {s : Kernel} {t : Tid} {c size n : Nat} {header : U2k}
    (hsize : sizeofU2k ≤ size) (hpos : 0 < n) (hnot : ∀ p ∈ (s.conn c).waiting, (s.req p).id ≠ header.id) :
    s.writeStart t c size n header = s.setCall t (.done (.value (-eINVAL))) := by
  have hfind : s.getRequestById (s.conn c).waiting header.id = none :=
    List.find?_eq_none.2 (fun p hp => by simpa using hnot p hp)
  rw [Kernel.writeStart, if_neg (by omega), if_neg (by omega), hfind]

/-- After the reply to a request that waits on the connection, thread `t` holds the
    request; nothing but the connection and that thread has changed. -/
theorem reply_found {cfg : Config} {ok : Kernel → Act → Prop} {s s₁ : Kernel}
    (h : Machine.Reach (step cfg) ok Kernel.init s) (hid : s.nextRequestId < 2 ^ 64) {t : Tid}
    {c size n : Nat} {header : U2k} (hs : step cfg s (.writeStart t c size n header) = some s₁)
    (hsize : sizeofU2k ≤ size) (hpos : 0 < n) {p : Ptr} (hp : p ∈ (s.conn c).waiting)
    (hh : header.id = (s.req p).id) :
    s₁.call t = .replied c p header (min n sizeofU2k) ∧ (∀ u, u ≠ t → s₁.call u = s.call u) ∧
      s₁.req = s.req ∧ s₁.nextRequestId = s.nextRequestId := by
  obtain ⟨loc, hl, hn⟩ := reach_life h hid
  cases step_cases hs with
  | writeStart _ _ _ _ _ _ hc =>
    rw [writeStart_found hl hn hsize hpos hp hh.symm]
    exact ⟨by simp, fun u hu => by simp [hu], rfl, rfl⟩

/-- In the default build a reply that has found its request always gets to its
    end. -/
theorem writeEnd_isSome (s : Kernel) (t : Tid) (c : Nat) (p : Ptr) (header : U2k) (n : Nat) (umem : UMem) :
    ∃ s', s.writeEnd ⟨false⟩ t c p header n umem = some s' := by
  unfold Kernel.writeEnd
  dsimp only
  split
  · split
    · split
      · exact ⟨_, rfl⟩
      · exact ⟨_, rfl⟩
    · exact ⟨_, rfl⟩
  · split
    · exact ⟨_, rfl⟩
    · split <;> exact ⟨_, rfl⟩

end Bius
