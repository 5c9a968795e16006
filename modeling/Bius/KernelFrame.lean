import Bius.MapLifetime
import Bius.Sending

/- What a step of the kernel module leaves alone. A step is made by at most one thread on
   at most one connection: the other connections stay as they are (`step_conn`), and so do
   the requests that wait there or are held by a call there (`step_with_req`). -/
namespace Bius

/-- The connection a step is made on. -/
def Act.connection (s : Kernel) : Act → Option Nat
  | .attach c | .mmap c _ | .readStart _ c _ _ | .writeStart _ c _ _ _ => some c
  | .readTake t | .readSend t _ | .writeEnd t _ => (s.call t).connection
  | _ => none

section
variable {cfg : Config} {s s' : Kernel}

theorem finishBlk_conn {t : Tid} {c : Nat} {p : Ptr} {header : U2k} {n : Nat}
    (h : s.finishBlk cfg t c p header n = some s') {d : Nat} (hd : d ≠ c) : s'.conn d = s.conn d := by
  have hfin : ∀ s₁ : Kernel, (Kernel.setCall (Kernel.endBlkRequest (if (s₁.req p).type = .zoneAppend then
      s₁.setReq p { s₁.req p with pos := toInt64 header.userData } else s₁) p header.reply) t
      (.done (.value n))).conn = s₁.conn := by
    intro s₁
    split <;> rfl
  unfold Kernel.finishBlk at h
  dsimp only at h
  split at h
  · rw [Option.map_eq_some_iff] at h
    obtain ⟨vmStart, -, rfl⟩ := h
    rw [hfin]
    exact Function.update_of_ne hd _ _
  · cases h
    rw [hfin]

theorem writeEnd_conn {t : Tid} {c : Nat} {p : Ptr} {header : U2k} {n : Nat} {umem : UMem}
    (h : s.writeEnd cfg t c p header n umem = some s') {d : Nat} (hd : d ≠ c) : s'.conn d = s.conn d := by
  unfold Kernel.writeEnd at h
  dsimp only at h
  split at h
  · split at h
    · split at h
      · cases h; rfl
      · exact finishBlk_conn h hd
    · exact finishBlk_conn h hd
  · split at h
    · cases h; rfl
    · split at h <;> (cases h; rfl)

theorem step_conn {act : Act} (h : step cfg s act = some s') {d : Nat} (hd : act.connection s ≠ some d) :
    s'.conn d = s.conn d := by
  have hne : ∀ c, act.connection s = some c → d ≠ c := fun c hc he => hd (by rw [hc, he])
  cases step_cases h with
  | attach c | mmap c vmStart => exact Function.update_of_ne (hne c rfl) _ _
  | queueRq t p rq ht hp =>
    unfold Kernel.queueRq
    dsimp only
    split <;> rfl
  | reportZones t p sector n blkz ht hp =>
    cases blkz <;> rfl
  | insert | zonesWake | readInterrupt | ret => rfl
  | readStart t c size cuts ht hs => exact (readStart_frame hs).2.1 d (hne c rfl)
  | readTake t c p ps ht hps hs =>
    exact (prepare_frame hs).2.1 d (hne c (by simp [Act.connection, ht, Call.connection]))
  | readSend t c p n ht =>
    have hdc := hne c (by simp [Act.connection, ht, Call.connection])
    unfold Kernel.readSend
    split
    · exact Function.update_of_ne hdc _ _
    · exact Function.update_of_ne hdc _ _
  | writeStart t c size n header ht hatt =>
    have hdc := hne c rfl
    rcases writeStart_cases s t c size n header with ⟨v, heq⟩ | ⟨p, -, heq⟩
    · rw [heq]; rfl
    · rw [heq]
      exact Function.update_of_ne hdc _ _
  | writeEnd t c p header n umem ht hs =>
    exact writeEnd_conn hs (hne c (by simp [Act.connection, ht, Call.connection]))

/-- A step of another thread on another connection leaves the requests of a connection
    alone. -/
theorem step_with_req {act : Act} {loc : Ptr → Life.Loc} (hl : Life.Located loc s.life) (h : step cfg s act = some s')
    {c : Nat} {p : Ptr} (hw : s.With c p) (hc : act.connection s ≠ some c) : s'.req p = s.req p := by
  refine step_req h (fun htouch => ?_)
  have hloc := with_loc hl hw
  cases step_cases h with
  | queueRq t q rq ht hb | reportZones t q _ _ _ ht hb =>
    cases htouch
    rw [(hl.free hb).1] at hloc
    simp at hloc
  | readStart t d size cuts ht hs =>
    have hdc : d ≠ c := fun he => hc (by rw [he]; rfl)
    rcases hl.sending d p htouch with hd | ⟨u, hd⟩ <;> rw [hd] at hloc <;> simp [hdc] at hloc
  | readTake t d q qs ht hps hs =>
    simp only [Act.touches, hps, List.head?_cons, Option.some.injEq] at htouch
    subst htouch
    rw [(hl.pending q).1 (by simp [Kernel.life, hps])] at hloc
    simp at hloc
  | readSend t d q n ht =>
    have hdc : d ≠ c := fun he => hc (by simp [Act.connection, ht, Call.connection, he])
    simp only [Act.touches, ht, Call.held, Option.some.injEq] at htouch
    subst htouch
    rw [(hl.taken t d q).1 (by simp [Kernel.life, ht, Call.hold])] at hloc
    simp [hdc] at hloc
  | writeEnd t d q header n umem ht hs =>
    have hdc : d ≠ c := fun he => hc (by simp [Act.connection, ht, Call.connection, he])
    simp only [Act.touches, ht, Call.held, Option.some.injEq] at htouch
    subst htouch
    rw [(hl.replied t d q).1 (by simp [Kernel.life, ht, Call.hold])] at hloc
    simp [hdc] at hloc
  | _ => cases htouch

end

end Bius
