import Bius.WindowSharing

/- Userspace may unmap the window at any time (`bius_vm_close`), and need not map it
   at all, while four functions dereference `connection->vma` without looking
   (`derefs`): `bius_map_data` for a long request, `bius_send_command` for a mapped
   one, `bius_copy_in_misaligned_pages`, and `bius_unmap_data` in the reply to every
   block request. The window is there if it is there when a long request is taken
   and when a reply to a block request is written, and stays while the calls that
   need it are in progress (`window_present`). -/
namespace Bius

inductive WinAct where
  | call (act : Act)
  /-- `munmap`, which ends in `bius_vm_close` -/
  | munmap (c : Nat)

def winStep (s : Kernel) : WinAct → Option Kernel
  | .call act => step ⟨true⟩ s act
  | .munmap c =>
    if (s.conn c).vma = none then none
    else some (s.setConn c { s.conn c with vma := none, ptes := fun _ => .zero, mapper := fun _ => none })

/-- The connection whose `vma` the next section of a call dereferences. -/
def derefs (s : Kernel) : Act → Option Nat
  | .readTake t =>
    match s.call t, s.pending with
    | .readWait c, p :: _ => if (s.req p).Maps then some c else none
    | _, _ => none
  | .readSend t _ =>
    match s.call t with
    | .readTaken c p =>
      if isBlkRequest (s.req p).type = true ∧ (s.req p).mapType ≠ .unmapped then some c else none
    | _ => none
  | .writeEnd t umem =>
    match s.call t with
    | .replied c p header _ =>
      if isBlkRequest (s.req p).type = true then
        -- a short read whose data could not be copied is ended before `bius_unmap_data`
        if header.reply = blkStsOk ∧ (s.req p).type = .read ∧ (s.req p).length ≤ biusMapDataThreshold ∧
            (biusReceiveData (s.req p) umem header.userData).2 < 0 then none
        else some c
      else none
    | _ => none
  | _ => none

/-- A long request is taken, and a block request replied to, only through a
    connection with a window; and the window is not unmapped while a call has mapped
    a request and not sent its command, or processes a reply to a block request. -/
def Windowed (s : Kernel) : WinAct → Prop
  | .call (.readTake t) =>
    ∀ c p ps, s.call t = .readWait c → s.pending = p :: ps → (s.req p).Maps → (s.conn c).vma ≠ none
  | .call (.writeStart _ c _ _ header) =>
    ∀ p, s.getRequestById (s.conn c).waiting header.id = some p → isBlkRequest (s.req p).type = true →
      (s.conn c).vma ≠ none
  | .munmap c =>
    ∀ t p, (s.call t = .readTaken c p → isBlkRequest (s.req p).type = true → (s.req p).mapType = .unmapped) ∧
      ∀ header n, s.call t = .replied c p header n → isBlkRequest (s.req p).type = false
  | _ => True

/-- The calls that will need the window have it. -/
structure Kernel.HasWindow (s : Kernel) : Prop where
  placed : s.Placed
  fresh : ∀ q, s.OnTheWay q → (s.req q).Fresh
  taken : ∀ t c p, s.call t = .readTaken c p → isBlkRequest (s.req p).type = true →
    (s.req p).mapType ≠ .unmapped → (s.conn c).vma ≠ none
  replied : ∀ t c p header n, s.call t = .replied c p header n → isBlkRequest (s.req p).type = true →
    (s.conn c).vma ≠ none

theorem setConn_vma {s : Kernel} {c d : Nat} {k : Connection} (hk : k.vma = (s.conn c).vma) :
    ((s.setConn c k).conn d).vma = (s.conn d).vma := by
  by_cases hd : d = c
  · subst hd
    simp [hk]
  · simp [hd]

theorem prepare_vma {cfg : Config} {s s' : Kernel} {c : Nat} {p : Ptr} (h : s.prepare cfg c p = some s') (d : Nat) :
    (s'.conn d).vma = (s.conn d).vma := by
  unfold Kernel.prepare at h
  split at h
  · split at h
    · rw [Option.map_eq_some_iff] at h
      obtain ⟨vmStart, -, rfl⟩ := h
      exact setConn_vma rfl
    · split at h <;> cases h
      · exact setConn_vma rfl
      · rfl
  · cases h
    rfl

theorem finishBlk_vma {cfg : Config} {s s' : Kernel} {t : Tid} {c : Nat} {p : Ptr} {header : U2k} {n : Nat}
    (h : s.finishBlk cfg t c p header n = some s') (d : Nat) : (s'.conn d).vma = (s.conn d).vma := by
  have hconn : ∀ x : Kernel, ((Kernel.endBlkRequest (if (x.req p).type = .zoneAppend then
      x.setReq p { x.req p with pos := toInt64 header.userData } else x) p header.reply).setCall t
        (.done (.value n))).conn = x.conn := by
    intro x
    split <;> rfl
  unfold Kernel.finishBlk at h
  dsimp only at h
  split at h
  · rw [Option.map_eq_some_iff] at h
    obtain ⟨vmStart, -, rfl⟩ := h
    rw [hconn]
    exact setConn_vma (s := s.setReq p (biusUnmapData (s.req p) vmStart).2) rfl
  · cases h
    rw [hconn]

theorem step_vma {s s' : Kernel} {act : Act} (h : step ⟨true⟩ s act = some s') {c : Nat}
    (hc : (s.conn c).vma ≠ none) :
    (s'.conn c).vma ≠ none := by
  suffices hsame : (∃ d vmStart, act = .mmap d vmStart) ∨ (s'.conn c).vma = (s.conn c).vma by
    rcases hsame with ⟨d, vmStart, rfl⟩ | hsame
    · cases step_cases h with
      | mmap d vmStart _ hnone =>
        by_cases hd : c = d
        · subst hd
          exact absurd hnone hc
        · simpa [hd] using hc
    · rwa [hsame]
  cases step_cases h with
  | mmap d vmStart => exact Or.inl ⟨d, vmStart, rfl⟩
  | attach d => exact Or.inr (setConn_vma rfl)
  | queueRq t p rq ht hp =>
    refine Or.inr ?_
    unfold Kernel.queueRq
    dsimp only
    split <;> rfl
  | reportZones t p sector n blkz ht hp => cases blkz <;> exact Or.inr rfl
  | readStart t d size cuts ht hs =>
    refine Or.inr ?_
    unfold Kernel.readStart at hs
    split at hs
    · cases hs
      rfl
    · split at hs
      · next p hp =>
        rw [Option.map_eq_some_iff] at hs
        obtain ⟨res, -, rfl⟩ := hs
        have hset := setConn_vma (s := s.setReq p res.1) (c := d) (d := c)
          (k := { s.conn d with sending := none }) rfl
        dsimp only
        split <;> split <;> first | rfl | exact hset
      · split at hs <;> cases hs <;> rfl
  | readTake t d p ps ht hp hs => exact Or.inr (prepare_vma hs c)
  | readSend t d p n ht =>
    refine Or.inr ?_
    unfold Kernel.readSend
    split
    · exact setConn_vma (s := s.endBlkRequest p blkStsIoerr) rfl
    · exact setConn_vma rfl
  | writeStart t d size n header ht hd =>
    refine Or.inr ?_
    rcases writeStart_cases s t d size n header with ⟨v, heq⟩ | ⟨p, -, heq⟩
    · rw [heq]
      rfl
    · rw [heq]
      exact setConn_vma rfl
  | writeEnd t d p header n umem ht hs =>
    refine Or.inr ?_
    unfold Kernel.writeEnd at hs
    dsimp only at hs
    split at hs
    · split at hs
      · split at hs
        · cases hs
          rfl
        · exact finishBlk_vma hs c
      · exact finishBlk_vma hs c
    · split at hs
      · cases hs
        rfl
      · split at hs <;> cases hs <;> rfl
  | insert | zonesWake | readInterrupt | ret => exact Or.inr rfl

theorem step_heldType {s s' : Kernel} {act : Act} {loc : Ptr → Life.Loc} (hl : Life.Located loc s.life)
    (h : step ⟨true⟩ s act = some s') {c : Nat} {p : Ptr} (hp : s.With c p) : (s'.req p).type = (s.req p).type := by
  have hrw := step_rewritten h p
  rw [with_busy hl hp] at hrw
  exact hrw.type_eq

theorem hasWindow_call {s s' : Kernel} {act : Act} (hs : s.HasWindow) (hok : Windowed s (.call act))
    (h : step ⟨true⟩ s act = some s') : s'.HasWindow := by
  obtain ⟨loc, hl⟩ := hs.placed.located
  refine ⟨placed_step hs.placed h, ?_, ?_, ?_⟩
  · intro q hq
    exact onTheWay_step hl h (fun _ _ _ _ _ => rfl) (fun _ _ _ _ _ hb => by cases hb) hs.fresh hq
  · intro t c p ht hblk hm
    apply step_vma h
    have hmapped : s'.MappedAt c p := ⟨hblk, hm, Or.inr (Or.inl ⟨t, ht⟩)⟩
    rcases step_held h (t := t) (p := p) (by rw [ht]; rfl) with
      hsame | ⟨d, ps, hnew, rfl, hwait, hpend⟩ | ⟨_, _, _, _, _, hnew, -⟩
    · rw [ht] at hsame
      have hwith : s.With c p := Or.inr (Or.inl ⟨t, hsame.symm⟩)
      rw [step_heldType hl h hwith] at hblk
      exact hs.taken t c p hsame.symm hblk (step_mapType hl h hwith hm)
    · rw [ht] at hnew
      cases hnew
      -- a request that was not mapped on its way is mapped now
      rcases step_mappedAt hl hs.fresh h hmapped with hold | ⟨u, qs, heq, hu, hpend', hmaps⟩
      · have hfresh := hs.fresh p (Or.inl (by rw [hpend]; simp)) hold.blk
        exact absurd hfresh hold.mapped
      · exact hok c p ps hwait hpend hmaps
    · rw [ht] at hnew
      cases hnew
  · intro t c p header n ht hblk
    apply step_vma h
    rcases step_held h (t := t) (p := p) (by rw [ht]; rfl) with
      hsame | ⟨_, _, hnew, -⟩ | ⟨d, header', n', size, m, hnew, rfl, hfound⟩
    · rw [ht] at hsame
      have hwith : s.With c p := Or.inr (Or.inr ⟨t, header, n, hsame.symm⟩)
      rw [step_heldType hl h hwith] at hblk
      exact hs.replied t c p header n hsame.symm hblk
    · rw [ht] at hnew
      cases hnew
    · rw [ht] at hnew
      cases hnew
      have hwith : s.With c p := Or.inl (getRequestById_some hfound).1
      rw [step_heldType hl h hwith] at hblk
      exact hok p hfound hblk

theorem hasWindow_munmap {s s' : Kernel} {c : Nat} (hs : s.HasWindow) (hok : Windowed s (.munmap c))
    (h : winStep s (.munmap c) = some s') : s'.HasWindow := by
  simp only [winStep] at h
  split at h
  · cases h
  · cases h
    have hlife : (s.setConn c { s.conn c with vma := none, ptes := fun _ => .zero, mapper := fun _ => none }).life =
        s.life := by
      rw [life_setConn]
      exact (congrArg (Life.setSending · c _) (Life.setWaiting_self s.life c)).trans (Life.setSending_self s.life c)
    -- the other windows stay
    have hvma : ∀ d, d ≠ c → (s.conn d).vma ≠ none →
        ((s.setConn c { s.conn c with vma := none, ptes := fun _ => .zero, mapper := fun _ => none }).conn d).vma ≠
          none := by
      intro d hd hne
      simpa [hd] using hne
    refine ⟨?_, hs.fresh, ?_, ?_⟩
    · unfold Kernel.Placed
      rw [hlife]
      exact hs.placed
    · intro t d p ht hblk hm
      by_cases hd : d = c
      · subst hd
        exact absurd ((hok t p).1 ht hblk) hm
      · exact hvma d hd (hs.taken t d p ht hblk hm)
    · intro t d p header n ht hblk
      by_cases hd : d = c
      · subst hd
        exact absurd (((hok t p).2 header n ht).symm.trans hblk) (by decide)
      · exact hvma d hd (hs.replied t d p header n ht hblk)

theorem reach_hasWindow {s : Kernel} (h : Machine.Reach winStep Windowed Kernel.init s) : s.HasWindow := by
  refine h.inv ?_ ⟨placed_init, fun q hq => ?_, fun t c p ht => ?_, fun t c p header n ht => ?_⟩
  · intro s act s' hi hok hst
    cases act with
    | call act => exact hasWindow_call hi hok hst
    | munmap c => exact hasWindow_munmap hi hok hst
  · rcases hq with hq | ⟨t, ht⟩
    · cases hq
    · cases ht
  · cases ht
  · cases ht

/-- **The window is there when it is used**, in every run in which it is there when a
    long request is taken and when a block request is replied to, and is not unmapped
    in the middle of the calls that need it. -/
theorem window_present {s : Kernel} (h : Machine.Reach winStep Windowed Kernel.init s) {act : Act}
    (hok : Windowed s (.call act)) {c : Nat} (hc : derefs s act = some c) : (s.conn c).vma ≠ none := by
  have hwin := reach_hasWindow h
  cases act with
  | readTake t =>
    simp only [derefs] at hc
    split at hc
    · next d p ps ht hpend =>
      split at hc
      · next hmaps =>
        cases hc
        exact hok c p ps ht hpend hmaps
      · cases hc
    · cases hc
  | readSend t n =>
    simp only [derefs] at hc
    split at hc
    · next d p ht =>
      split at hc
      · next hmapped =>
        cases hc
        exact hwin.taken t c p ht hmapped.1 hmapped.2
      · cases hc
    · cases hc
  | writeEnd t umem =>
    simp only [derefs] at hc
    split at hc
    · next d p header n ht =>
      split at hc
      · next hblk =>
        split at hc
        · cases hc
        · cases hc
          exact hwin.replied t c p header n ht hblk
      · cases hc
    · cases hc
  | _ => cases hc

/-! ## A flush -/

/-- A flush is submitted, and connection 0, which may have a window, is about to take
    it. -/
def flushSubmitted (window : List WinAct) : List WinAct :=
  .call (.attach 0) :: window ++ [.call (.queueRq (.blk 0) 5 ⟨2, 0, 0, [], flush_len⟩), .call (.insert (.blk 0)),
    .call (.readStart (.user 0) 0 56 [])]

def flushSent : List WinAct := [.call (.readSend (.user 0) 56), .call (.ret (.user 0))]

/-- The reply to it. -/
def flushReply : Act := .writeStart (.user 0) 0 24 24 ⟨1, 0, 0⟩

theorem flush_windowed : ∃ s₁ s₂ s₃ s₄,
    Machine.run winStep Kernel.init (flushSubmitted [.call (.mmap 0 0x7f0000000000)]) = some s₁ ∧
      winStep s₁ (.call (.readTake (.user 0))) = some s₂ ∧ s₁.pending = [5] ∧ (s₁.req 5).type = .flush ∧
      Machine.run winStep s₂ flushSent = some s₃ ∧ winStep s₃ (.call flushReply) = some s₄ ∧
      (s₃.conn 0).vma = some 0x7f0000000000 ∧ derefs s₄ (.writeEnd (.user 0) (fun _ => none)) = some 0 := by
  have hfl : toBiusRequest 2 = .flush := rfl
  simp [flushSubmitted, flushSent, flushReply, Machine.run, winStep, step, Kernel.init, Connection.new, Kernel.queueRq,
    initBlkRequest, hfl, Kernel.newId, Kernel.readStart, Kernel.readTake, Kernel.prepare, requestMayHaveData,
    Kernel.readSend, isBlkRequest, sizeofK2u, BiusRequest.blank, derefs, Kernel.writeStart,
    sizeofU2k, Kernel.getRequestById]

theorem window_present_flush : ∃ s, derefs s (.writeEnd (.user 0) (fun _ => none)) = some 0 ∧
    (s.conn 0).vma ≠ none := by
  obtain ⟨s₁, s₂, s₃, s₄, h₁, h₂, hpend, htype, h₃, h₄, hvma, hderefs⟩ := flush_windowed
  have hok₂ : Windowed s₁ (.call (.readTake (.user 0))) := by
    intro c p ps _ hp hmaps
    rw [hpend] at hp
    cases hp
    rw [BiusRequest.Maps, htype] at hmaps
    cases hmaps.1
  have hok₄ : Windowed s₃ (.call flushReply) := by
    intro p _ _
    rw [hvma]
    simp
  have hreach : Machine.Reach winStep Windowed Kernel.init s₄ := by
    refine ⟨_, (Machine.Steps.of_run_ok h₁ ?_).append (.cons hok₂ h₂ ((Machine.Steps.of_run_ok h₃ ?_).append
      (.cons hok₄ h₄ (.nil s₄))))⟩
    · simp [flushSubmitted, Windowed]
    · simp [flushSent, Windowed]
  have hok₅ : Windowed s₄ (.call (.writeEnd (.user 0) (fun _ => none))) := trivial
  exact ⟨s₄, hderefs, window_present hreach hok₅ hderefs⟩

/-- No window was ever mapped, and the reply to a flush looks for it. -/
theorem window_missing : ∃ s, Machine.run winStep Kernel.init (flushSubmitted [] ++ .call (.readTake (.user 0)) ::
      flushSent ++ [.call flushReply]) = some s ∧
    derefs s (.writeEnd (.user 0) (fun _ => none)) = some 0 ∧ (s.conn 0).vma = none := by
  have hfl : toBiusRequest 2 = .flush := rfl
  simp [flushSubmitted, flushSent, flushReply, Machine.run, winStep, step, Kernel.init, Connection.new, Kernel.queueRq,
    initBlkRequest, hfl, Kernel.newId, Kernel.readStart, Kernel.readTake, Kernel.prepare, requestMayHaveData,
    Kernel.readSend, isBlkRequest, sizeofK2u, BiusRequest.blank, derefs, Kernel.writeStart,
    sizeofU2k, Kernel.getRequestById]

end Bius
