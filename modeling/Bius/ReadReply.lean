import Bius.RequestSteps

/- Replies to reads in the default build. `bius_dev_write` compares the 64-bit reply
   with BLK_STS_OK to decide whether data is to be copied, and `end_blk_request`
   takes the same reply as an 8-bit status. `readSound_iff`: a read is reported as
   successful exactly if its data has arrived, unless the two differ. -/
namespace Bius

/-- A read keeps its segments, unmapped and as long as the request says. -/
def ReadSegments (r : BiusRequest) : Prop :=
  r.type = .read → r.mapType = .unmapped ∧ (chainBytes r.rq).length = r.length ∧ (0 < r.length → r.bio ≠ [])

theorem readSegments_rewritten {busy : Bool} {sending : Prop} {r r' : BiusRequest}
    (hw : sending → requestIsWrite r.type = true) (h : Rewritten ⟨false⟩ busy sending r r')
    (hr : ReadSegments r) : ReadSegments r' := by
  cases h with
  | queued id rq _ =>
    intro ht
    have hlen : rq.dataLen = (chainBytes rq.bios).length := by
      apply rq.len_eq
      rw [show toBiusRequest rq.op = .read from ht]; rfl
    refine ⟨rfl, hlen.symm, fun hpos hbio => ?_⟩
    simp only [initBlkRequest] at hpos hbio
    simp [hlen, hbio] at hpos
  | zones id sector n blkz _ _ _ => intro ht; cases ht
  | mapped vmStart hcfg _ _ => cases hcfg
  | sent size cuts res hs hres =>
    obtain ⟨_, _, heq⟩ := biusSendData_keeps hres
    intro ht
    rw [heq] at ht
    have hwrite := hw hs
    rw [show r.type = .read from ht] at hwrite
    cases hwrite
  | finished rq mapType pos blkResult _ hlen hmt =>
    intro ht
    obtain ⟨hm, hl, hbio⟩ := hr ht
    refine ⟨?_, hlen.trans hl, hbio⟩
    rcases hmt with rfl | rfl
    · exact hm
    · rfl
  | _ => exact hr

/-! ## The end of a read -/

/-- A read as it is handed to the block layer after the reply. -/
def readReplied (r : BiusRequest) (header : U2k) (umem : UMem) : BiusRequest :=
  if header.reply = blkStsOk then
    let res := biusReceiveData r umem header.userData
    { res.1 with blkResult := if res.2 < 0 then blkStsIoerr else blkStatus header.reply }
  else { r with blkResult := blkStatus header.reply }

theorem endBlkRequest_ended (s : Kernel) (p : Ptr) (result : Int) :
    (s.endBlkRequest p result).ended = s.ended ++ [{ s.req p with blkResult := blkStatus result }] := by
  simp [Kernel.endBlkRequest]

theorem finishBlk_ended {s s' : Kernel} {t : Tid} {c : Nat} {p : Ptr} {header : U2k} {n : Nat}
    (ht : (s.req p).type ≠ .zoneAppend) (h : s.finishBlk ⟨false⟩ t c p header n = some s') :
    s'.ended = s.ended ++ [{ s.req p with blkResult := blkStatus header.reply }] := by
  simp only [Kernel.finishBlk, Bool.false_eq_true, if_false, if_neg ht, Option.some.injEq] at h
  subst h
  exact endBlkRequest_ended s p header.reply

theorem writeEnd_read {s s' : Kernel} {t : Tid} {c : Nat} {p : Ptr} {header : U2k} {n : Nat} {umem : UMem}
    (ht : (s.req p).type = .read) (h : s.writeEnd ⟨false⟩ t c p header n umem = some s') :
    s'.ended = s.ended ++ [readReplied (s.req p) header umem] := by
  have hb : isBlkRequest (s.req p).type = true := by rw [ht]; rfl
  unfold Kernel.writeEnd at h
  dsimp only at h
  rw [if_pos hb] at h
  unfold readReplied
  by_cases hok : header.reply = blkStsOk
  · obtain ⟨rq, hrq⟩ := biusReceiveData_keeps (s.req p) umem header.userData
    rw [if_pos ⟨hok, ht, fun hcfg => by cases hcfg⟩] at h
    rw [if_pos hok]
    split at h
    · next hneg =>
      cases h
      rw [Kernel.setCall_ended, endBlkRequest_ended]
      simp [hneg, blkStatus, blkStsIoerr]
    · next hneg =>
      rw [finishBlk_ended (by simp [hrq, ht]) h]
      simp [hneg]
  · rw [if_neg (fun hc => hok hc.1)] at h
    rw [if_neg hok, finishBlk_ended (by rw [ht]; simp) h]

/-- The bytes of the segments are those of the user buffer. -/
def Filled (r : BiusRequest) (umem : UMem) (userData length : Nat) : Prop :=
  Readable umem userData length ∧ chainBytes r.rq = Bytes.slice (fun a => (umem a).getD 0) userData length

/-- What the status of a read tells: it is BLK_STS_OK only if every byte has been
    copied, and exactly if the reply was 0 and no copy faulted. -/
def StatusSound (r : BiusRequest) (header : U2k) (umem : UMem) (length : Nat) : Prop :=
  (r.blkResult = blkStsOk → Filled r umem header.userData length) ∧
  (r.blkResult = blkStsOk ↔ header.reply = 0 ∧ Readable umem header.userData length)

theorem readReplied_iff {r : BiusRequest} (hm : r.mapType = .unmapped)
    (hlen : (chainBytes r.rq).length = r.length) (hbio : r.bio ≠ []) (header : U2k) (umem : UMem) :
    StatusSound (readReplied r header umem) header umem r.length ↔
      header.reply = 0 ∨ header.reply % 256 ≠ 0 := by
  have hok := biusReceiveData_ok_iff hbio hm umem header.userData
  have hres := biusReceiveData_result hbio hm umem header.userData
  have hbytes := biusReceiveData_bytes hbio hm umem header.userData
  rw [hlen] at hok hbytes
  unfold StatusSound Filled readReplied
  by_cases h0 : header.reply = blkStsOk
  · simp only [if_pos h0]
    have hzero : header.reply = 0 := h0
    refine ⟨fun _ => Or.inl hzero, fun _ => ?_⟩
    rcases hres with h | h
    · have hread := hok.1 h
      have hstatus : blkStatus 0 = blkStsOk := rfl
      simp [h, hstatus, hzero, hread, hbytes h]
    · have hread : ¬ Readable umem header.userData r.length := fun hc => by
        rw [hok.2 hc] at h
        exact absurd h (by decide)
      simp [h, blkStsIoerr, blkStsOk, hread]
  · have hne : header.reply ≠ 0 := h0
    have hzero : blkStatus header.reply = blkStsOk ↔ header.reply % 256 = 0 := by
      simp only [blkStatus, blkStsOk]
      omega
    simp only [if_neg h0]
    constructor
    · rintro ⟨-, hiff⟩
      exact Or.inr (fun hmod => hne (hiff.1 (hzero.2 hmod)).1)
    · rintro (h | h)
      · exact absurd h hne
      · have hstatus : blkStatus header.reply ≠ blkStsOk := fun hc => h (hzero.1 hc)
        exact ⟨fun hc => absurd hc hstatus, fun hc => absurd hc hstatus, fun hc => absurd hc.1 hne⟩

/-- A course of events: in `s` thread `t` writes the reply `header` on connection
    `c` and hands the request to the block layer as `r`; userspace's memory is
    `umem`, and other threads run in between. -/
def ReadAnswered (s : Kernel) (t : Tid) (c : Nat) (header : U2k) (umem : UMem) (r : BiusRequest) : Prop :=
  ∃ size n s₁ acts s₂ s₃, sizeofU2k ≤ size ∧ 0 < n ∧
    step ⟨false⟩ s (.writeStart t c size n header) = some s₁ ∧
    Machine.Steps (step ⟨false⟩) (fun _ _ => True) s₁ acts s₂ ∧ (∀ act ∈ acts, act.tid ≠ some t) ∧
    s₂.nextRequestId < 2 ^ 64 ∧
    step ⟨false⟩ s₂ (.writeEnd t umem) = some s₃ ∧ s₃.ended = s₂.ended ++ [r]

/-- **A read succeeds only when its data arrived**: after every reply the read can be
    handed to the block layer, and the status that this gets tells the truth about the
    data for every reply but the non-zero multiples of 256. -/
theorem readSound_iff {s : Kernel} (h : Machine.Reach (step ⟨false⟩) (fun _ _ => True) Kernel.init s)
    (hid : s.nextRequestId < 2 ^ 64) {c : Nat} {p : Ptr} (hp : p ∈ (s.conn c).waiting)
    (hread : (s.req p).type = .read) (hpos : 0 < (s.req p).length) {t : Tid} (ht : s.call t = .idle)
    (hc : (s.conn c).attached = true) {header : U2k} (hh : header.id = (s.req p).id) (umem : UMem) :
    (∃ r, ReadAnswered s t c header umem r) ∧
      ((∀ r, ReadAnswered s t c header umem r → StatusSound r header umem (s.req p).length) ↔
        header.reply = 0 ∨ header.reply % 256 ≠ 0) := by
  obtain ⟨hm, hlen, hbio⟩ := reach_request (P := ReadSegments) (fun ht => by cases ht)
    (fun _ _ _ _ => readSegments_rewritten) h hid p hread
  rw [← readReplied_iff hm hlen (hbio hpos) header umem]
  have hends : ReadAnswered s t c header umem (readReplied (s.req p) header umem) := by
    -- the reply and its end may follow each other at once
    have hw : step ⟨false⟩ s (.writeStart t c sizeofU2k sizeofU2k header) =
        some (s.writeStart t c sizeofU2k sizeofU2k header) := by simp [step, ht, hc]
    obtain ⟨hcall₁, -, hreq₁, hid₁⟩ := reply_found h hid hw (Nat.le_refl _) (by decide) hp hh
    obtain ⟨s₃, hend⟩ := writeEnd_isSome (s.writeStart t c sizeofU2k sizeofU2k header) t c p header
      (min sizeofU2k sizeofU2k) umem
    have hended := writeEnd_read (by rw [hreq₁]; exact hread) hend
    rw [hreq₁] at hended
    exact ⟨sizeofU2k, sizeofU2k, _, [], _, s₃, Nat.le_refl _, by decide, hw, .nil _, by simp,
      Nat.lt_of_le_of_lt (Nat.le_of_eq hid₁) hid, by simp only [step, hcall₁, hend], hended⟩
  refine ⟨⟨_, hends⟩, fun hall => hall _ hends, ?_⟩
  rintro hsound r ⟨size, n, s₁, acts, s₂, s₃, hsize, hn, hw, hrun, hacts, hid₂, hend, hended⟩
  obtain ⟨hcall₁, -, hreq₁, -⟩ := reply_found h hid hw hsize hn hp hh
  obtain ⟨hcall₂, hreq₂⟩ := replied_steps (h.snoc trivial hw) hrun hid₂ hacts hcall₁
  cases step_cases hend with
  | writeEnd _ c' p' header' n' _ hcall hend =>
    rw [hcall₂] at hcall
    cases hcall
    have hres := writeEnd_read (by rw [hreq₂, hreq₁]; exact hread) hend
    rw [hended, hreq₂, hreq₁] at hres
    have hr : r = readReplied (s.req p) header umem := by simpa using List.append_cancel_left hres
    rw [hr]
    exact hsound

/-- A read of one sector. -/
def sectorRead : Rq where
  op := 0
  sector := 0
  dataLen := 512
  bios := [⟨[⟨7, 0, List.replicate 512 0, by rw [List.length_replicate]; decide⟩]⟩]
  len_eq := fun _ => by
    simp only [chainBytes_cons, chainBytes_nil, Bio.bytes, List.flatMap_cons, List.flatMap_nil,
      List.append_nil, List.length_replicate]

/-- A read waits for its reply on connection 0. -/
def oneRead : List Act :=
  [.attach 0, .queueRq (.blk 0) 5 sectorRead, .insert (.blk 0), .readStart (.user 0) 0 56 [],
   .readTake (.user 0), .readSend (.user 0) 56, .ret (.user 0)]

theorem readSound_iff_oneRead : ∃ s, Machine.run (step ⟨false⟩) Kernel.init oneRead = some s ∧
    (s.conn 0).waiting = [5] ∧ (s.req 5).type = .read ∧ ∀ umem,
      (∃ r, ReadAnswered s (.user 0) 0 ⟨1, 0, 4096⟩ umem r) ∧
      ∀ r, ReadAnswered s (.user 0) 0 ⟨1, 0, 4096⟩ umem r →
        StatusSound r ⟨1, 0, 4096⟩ umem (s.req 5).length := by
  refine ⟨_, rfl, rfl, rfl, fun umem => ?_⟩
  have hr : Machine.Reach (step ⟨false⟩) (fun _ _ => True) Kernel.init _ :=
    ⟨oneRead, Machine.Steps.of_run rfl⟩
  have hread := @readSound_iff _ hr (by decide) 0 5 (by decide) (by decide) (by decide) (.user 0) (by decide) (by decide)
    ⟨1, 0, 4096⟩ (by decide) umem
  exact ⟨hread.1, hread.2.2 (Or.inl rfl)⟩

/-- The reply 256: nothing is copied, and the block layer is told that the read has
    succeeded. -/
theorem readSound_stale : ∃ s r, Machine.run (step ⟨false⟩) Kernel.init oneRead = some s ∧
    (s.conn 0).waiting = [5] ∧ (s.req 5).type = .read ∧ (s.req 5).length = 512 ∧
    ReadAnswered s (.user 0) 0 ⟨1, 256, 4096⟩ (fun _ => some 7) r ∧ r.blkResult = blkStsOk ∧
    ¬ Filled r (fun _ => some 7) 4096 512 ∧ ¬ StatusSound r ⟨1, 256, 4096⟩ (fun _ => some 7) 512 := by
  refine ⟨_, _, rfl, rfl, rfl, rfl, ⟨24, 24, _, [], _, _, by decide, by decide, rfl, .nil _, by simp, by decide,
    rfl, rfl⟩, rfl, ?_, ?_⟩
  · rintro ⟨-, hbytes⟩
    have hhead := congrArg (fun l : List UInt8 => l[0]?) hbytes
    dsimp only at hhead
    rw [Bytes.slice_getElem? _ _ _ _ (by decide)] at hhead
    exact absurd hhead (by decide)
  · rintro ⟨-, hiff⟩
    exact absurd (hiff.1 rfl).1 (by decide)

end Bius
