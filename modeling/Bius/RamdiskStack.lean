import Bius.StackTurns

/- The whole stack over the ramdisk is a flat byte array (default build). The abstract disk
   is what the completed writes have stored, one after the other (`flatDisk`). A request
   that is outstanding is apart from every outstanding write, so its range of the disk
   holds what the completed writes have stored there, until it is a write itself and its
   data is there.

   What a loop has in hand follows the request: the copy buffer holds the first bytes of a
   write's payload while it is copied in, all of it when the backend is called, the data of
   the disk when a read is answered (`Stack.Holds`). -/
namespace Bius

/-! ## The flat disk -/

/-- What a request stores when it is completed. -/
def BiusRequest.stored (r : BiusRequest) : Option (Nat × List UInt8) :=
  if r.type = .write then some (r.pos.toNat, chainBytes r.rq) else none

/-- A disk of zeros after some requests. -/
def flatDisk (ended : List BiusRequest) : Nat → UInt8 := Bytes.splices (fun _ => 0) (ended.filterMap BiusRequest.stored)

/-- The request covers a byte of the disk. -/
def BiusRequest.Covers (r : BiusRequest) (b : Nat) : Prop := r.pos.toNat ≤ b ∧ b < r.pos.toNat + r.length

/-- A request that completes after those of `before`: it succeeds, and a read has found
    what they have stored. -/
def BiusRequest.Right (before : List BiusRequest) (r : BiusRequest) : Prop :=
  r.blkResult = blkStsOk ∧
    (r.type = .read → chainBytes r.rq = Bytes.slice (flatDisk before) r.pos.toNat r.length)

/-- All of them are right, each after those before it. -/
def AllRight (ended : List BiusRequest) : Prop :=
  ∀ before r after, ended = before ++ r :: after → r.Right before

theorem AllRight.snoc {ended : List BiusRequest} {r : BiusRequest} (h : AllRight ended) (hr : r.Right ended) :
    AllRight (ended ++ [r]) := by
  intro before r' after heq
  rcases List.eq_nil_or_concat after with rfl | ⟨init, last, rfl⟩
  · obtain ⟨rfl, hlast⟩ := List.append_inj' heq rfl
    cases hlast
    exact hr
  · rw [List.concat_eq_append, ← List.cons_append, ← List.append_assoc] at heq
    obtain ⟨hinit, -⟩ := List.append_inj' heq rfl
    exact h before r' init hinit

theorem flatDisk_snoc (ended : List BiusRequest) (r : BiusRequest) :
    flatDisk (ended ++ [r]) =
      if r.type = .write then Bytes.splice (flatDisk ended) r.pos.toNat (chainBytes r.rq) else flatDisk ended := by
  unfold flatDisk Bytes.splices
  rw [List.filterMap_append, List.foldl_append]
  by_cases hw : r.type = .write <;> simp [BiusRequest.stored, hw]

/-! ## One command of the ramdisk -/

section
variable {heap fuel : Nat} {u2k : U2k} {r : BiusRequest} {buffer : Nat} {p : Proc (Nat → UInt8)}

/-- The command of a data request in the default build, with the address of the copy
    buffer. -/
theorem copyInHeader_default (hd : requestMayHaveData r.type = true) :
    copyInHeader buffer (k2uHeader false 0 r) =
      ⟨r.id, r.type, (r.pos % 2 ^ 64).toNat, r.length, buffer, 0, .simple⟩ := by
  simp [k2uHeader, copyInHeader, hd]

theorem ramdisk_reply_read (htype : r.type = .read) :
    makeReply ramdiskOperations (Proc.process heap) fuel u2k (copyInHeader buffer (k2uHeader false 0 r)) p =
      some (⟨Bytes.splice p.mem buffer (Bytes.slice p.dev (r.pos % 2 ^ 64).toNat r.length), p.dev⟩,
        ⟨r.id, blkStsOk, buffer⟩) := by
  rw [copyInHeader_default (by rw [htype]; rfl), htype]
  rfl

theorem ramdisk_reply_write (htype : r.type = .write) :
    makeReply ramdiskOperations (Proc.process heap) fuel u2k (copyInHeader buffer (k2uHeader false 0 r)) p =
      some (⟨p.mem, Bytes.splice p.dev (r.pos % 2 ^ 64).toNat (Bytes.slice p.mem buffer r.length)⟩,
        ⟨r.id, blkStsOk, 0⟩) := by
  rw [copyInHeader_default (by rw [htype]; rfl), htype]
  rfl

end

/-! ## The invariant -/

/-- The ramdisk with the loops' copy buffers. -/
def ramdiskStack (heap fuel : Nat) (buffer : Nat → Nat) : Backend (Proc (Nat → UInt8)) (Proc (Nat → UInt8)) :=
  library ramdiskOperations (Proc.process heap) Proc.umem buffer fuel

/-- `RAMDISK_SIZE`. -/
def ramdiskSize : Nat := 32 * 1024 * 1024 * 1024

/-- Two requests that may be outstanding together. -/
def BiusRequest.Compatible (r r' : BiusRequest) : Prop :=
  r.type = .write ∨ r'.type = .write → r.pos.toNat + r.length ≤ r'.pos.toNat ∨
    r'.pos.toNat + r'.length ≤ r.pos.toNat

/-- A request that the ramdisk is given: a read or a write inside the disk. -/
structure BiusRequest.InsideDisk (r : BiusRequest) : Prop where
  type : r.type = .read ∨ r.type = .write
  pos : 0 ≤ r.pos
  inside : r.pos.toNat + r.length ≤ ramdiskSize

/-- What the process holds of the request `r` when its loop, with the reply `u2k`, is at
    `point`. -/
def Holds (ended : List BiusRequest) (buffer : Nat) (p : Proc (Nat → UInt8)) (r : BiusRequest) (u2k : U2k) :
    Point → Prop
  | .copyIn n => p.load buffer n = (chainBytes r.rq).take n
  | .handling => r.type = .write → p.load buffer r.length = chainBytes r.rq
  | .writing => u2k.reply = blkStsOk ∧
      (r.type = .write → Bytes.slice p.dev r.pos.toNat r.length = chainBytes r.rq) ∧
      (r.type = .read → p.load buffer r.length = Bytes.slice (flatDisk ended) r.pos.toNat r.length)
  | _ => True

/-- The disk is flat, up to the writes in flight. -/
structure Stack.Flat (buffer : Nat → Nat) (s : Stack (Proc (Nat → UInt8))) : Prop where
  inside : ∀ p, s.kernel.busy p = true → (s.kernel.req p).InsideDisk
  apart : ∀ p q, s.kernel.busy p = true → s.kernel.busy q = true → p ≠ q →
    (s.kernel.req p).Compatible (s.kernel.req q)
  right : AllRight s.kernel.ended
  disk : ∀ b, (∀ p, s.kernel.busy p = true → (s.kernel.req p).type = .write → ¬ (s.kernel.req p).Covers b) →
    s.proc.dev b = flatDisk s.kernel.ended b
  holds : ∀ c p point, s.At c p point → Holds s.kernel.ended (buffer c) s.proc (s.kernel.req p) (s.loop c).u2k point

section
variable {r r' : BiusRequest}

theorem BiusRequest.Alike.compatible {q q' : BiusRequest} (h : r.Alike r') (h' : q.Alike q') (hc : r.Compatible q) :
    r'.Compatible q' := by
  unfold BiusRequest.Compatible at *
  rw [h.type, h.pos, h.length, h'.type, h'.pos, h'.length]
  exact hc

theorem BiusRequest.Alike.insideDisk (h : r.Alike r') (hd : r.InsideDisk) : r'.InsideDisk :=
  ⟨by rw [h.type]; exact hd.type, by rw [h.pos]; exact hd.pos, by rw [h.pos, h.length]; exact hd.inside⟩

theorem BiusRequest.Alike.covers (h : r.Alike r') (b : Nat) : r'.Covers b ↔ r.Covers b := by
  unfold BiusRequest.Covers
  rw [h.pos, h.length]

theorem BiusRequest.Alike.holds (h : r.Alike r') {ended : List BiusRequest} {buffer : Nat} {p : Proc (Nat → UInt8)}
    {u2k : U2k} {point : Point} (hh : Holds ended buffer p r u2k point) : Holds ended buffer p r' u2k point := by
  cases point <;> simp only [Holds] at hh ⊢ <;> simpa only [h.type, h.pos, h.length, h.rq] using hh

theorem BiusRequest.InsideDisk.mayHaveData (h : r.InsideDisk) : requestMayHaveData r.type = true := by
  rcases h.type with ht | ht <;> rw [ht] <;> rfl

theorem BiusRequest.InsideDisk.offset (h : r.InsideDisk) : (r.pos % 2 ^ 64).toNat = r.pos.toNat := by
  have hpos := h.pos
  have hin := h.inside
  unfold ramdiskSize at hin
  omega

end

section
variable {buffer : Nat → Nat} {s s' : Stack (Proc (Nat → UInt8))}

theorem Stack.Flat.isBlk (h : s.Flat buffer) (p : Ptr) (hp : s.kernel.busy p = true) :
    isBlkRequest (s.kernel.req p).type = true := isBlkRequest_of_mayHaveData (h.inside p hp).mayHaveData

/-- The range of a request that is compatible with every write in flight holds what the
    completed writes have stored there. -/
theorem Stack.Flat.slice (h : s.Flat buffer) {r : BiusRequest}
    (hr : ∀ p, s.kernel.busy p = true → (s.kernel.req p).type = .write →
      r.pos.toNat + r.length ≤ (s.kernel.req p).pos.toNat ∨
      (s.kernel.req p).pos.toNat + (s.kernel.req p).length ≤ r.pos.toNat) :
    Bytes.slice s.proc.dev r.pos.toNat r.length = Bytes.slice (flatDisk s.kernel.ended) r.pos.toNat r.length := by
  refine Bytes.slice_congr (fun b hb hb' => h.disk b (fun p hp hw hcov => ?_))
  have hapart := hr p hp hw
  unfold BiusRequest.Covers at hcov
  omega

theorem Stack.Flat.kept (h : s.Flat buffer) (hk : s.Kept s')
    (hdisk : ∀ b, (∀ p, s.kernel.busy p = true → (s.kernel.req p).type = .write → ¬ (s.kernel.req p).Covers b) →
      s'.proc.dev b = flatDisk s.kernel.ended b)
    (hholds : ∀ c p point, s'.At c p point →
      Holds s.kernel.ended (buffer c) s'.proc (s.kernel.req p) (s'.loop c).u2k point) : s'.Flat buffer := by
  refine ⟨fun p hp => ?_, fun p q hp hq hne => ?_, ?_, fun b hb => ?_, fun c p point hat => ?_⟩
  · rw [hk.busy] at hp
    exact (hk.req p).insideDisk (h.inside p hp)
  · rw [hk.busy] at hp hq
    exact (hk.req p).compatible (hk.req q) (h.apart p q hp hq hne)
  · rw [hk.ended]
    exact h.right
  · rw [hk.ended]
    refine hdisk b (fun p hp hw hcov => ?_)
    exact hb p (by rw [hk.busy]; exact hp) (by rw [(hk.req p).type]; exact hw) (((hk.req p).covers b).2 hcov)
  · rw [hk.ended]
    exact (hk.req p).holds (hholds c p point hat)

/-- A process that agrees in the copy buffer, and on the disk where a write has put its
    data. -/
theorem Holds.congr {ended : List BiusRequest} {b : Nat} {p p' : Proc (Nat → UInt8)} {r : BiusRequest} {u2k : U2k}
    {point : Point} (h : Holds ended b p r u2k point) (hlen : r.length ≤ biusMaxSizePerCommand)
    (hn : ∀ n, point = .copyIn n → n < r.length) (hmem : ∀ x, b ≤ x → x < b + biusMaxSizePerCommand →
      p'.mem x = p.mem x)
    (hdev : r.type = .write → Bytes.slice p'.dev r.pos.toNat r.length = Bytes.slice p.dev r.pos.toNat r.length) :
    Holds ended b p' r u2k point := by
  have hload : ∀ n, n ≤ biusMaxSizePerCommand → p'.load b n = p.load b n :=
    fun n hn => Bytes.slice_congr (fun x hx hx' => hmem x hx (by omega))
  cases point with
  | copyIn n =>
    have hlt := hn n rfl
    simp only [Holds] at h ⊢
    rw [hload n (by omega)]
    exact h
  | handling =>
    simp only [Holds] at h ⊢
    rw [hload _ hlen]
    exact h
  | writing =>
    obtain ⟨hok, hw, hr⟩ := h
    exact ⟨hok, fun htype => (hdev htype).trans (hw htype), fun htype => (hload _ hlen).trans (hr htype)⟩
  | _ => trivial

/-- The completion of a request that is compatible with it changes nothing for a request in
    hand. -/
theorem Holds.snoc {ended : List BiusRequest} {b : Nat} {p : Proc (Nat → UInt8)} {r q : BiusRequest} {u2k : U2k}
    {point : Point} (h : Holds ended b p r u2k point) (hlen : q.length = (chainBytes q.rq).length) (hc : r.Compatible q) :
    Holds (ended ++ [q]) b p r u2k point := by
  cases point with
  | writing =>
    obtain ⟨hok, hw, hr⟩ := h
    refine ⟨hok, hw, fun htype => (hr htype).trans ?_⟩
    rw [flatDisk_snoc]
    split
    · next hq => exact (Bytes.slice_splice_disjoint _ (by rw [← hlen]; exact hc (Or.inr hq))).symm
    · rfl
  | _ => exact h

/-! ## The steps -/

variable {heap fuel : Nat}

/-- What has arrived in the copy buffer is the beginning of the payload. -/
theorem Stack.Flat.filled (h : s.Flat buffer) {c : Nat} {p : Ptr} {n : Nat} {b : Proc (Nat → UInt8)}
    (hfill : s.Filled (ramdiskStack heap fuel buffer) c p n b) (hn : n ≤ biusMaxSizePerCommand) :
    b.load (buffer c) n = (chainBytes (s.kernel.req p).rq).take n ∧ b.dev = s.proc.dev ∧
      ∀ x, x < buffer c ∨ buffer c + biusMaxSizePerCommand ≤ x → b.mem x = s.proc.mem x := by
  rcases hfill with ⟨rfl, rfl⟩ | ⟨m, bytes, hat, rfl, hbytes, rfl⟩
  · exact ⟨by rw [List.take_zero]; rfl, rfl, fun _ _ => rfl⟩
  · refine ⟨?_, rfl, fun x hx => ?_⟩
    · have hbefore : s.proc.load (buffer c) m = (chainBytes (s.kernel.req p).rq).take m := h.holds c p _ hat
      exact Bytes.slice_splice_take hbefore hbytes
    · apply Bytes.splice_outside _
      show x < buffer c + m ∨ buffer c + m + bytes.length ≤ x
      omega

theorem Stack.Flat.elsewhere (h : s.Flat buffer) (ha : s.Agrees ⟨false⟩ (ramdiskStack heap fuel buffer))
    (hbuf : BuffersApart buffer) {c d : Nat} (hd : d ≠ c) {q : Ptr} {point : Point} (hat : s.At d q point)
    {b : Proc (Nat → UInt8)} (hmem : ∀ x, x < buffer c ∨ buffer c + biusMaxSizePerCommand ≤ x →
      b.mem x = s.proc.mem x)
    (hdev : (s.kernel.req q).type = .write →
      Bytes.slice b.dev (s.kernel.req q).pos.toNat (s.kernel.req q).length =
        Bytes.slice s.proc.dev (s.kernel.req q).pos.toNat (s.kernel.req q).length) :
    Holds s.kernel.ended (buffer d) b (s.kernel.req q) (s.loop d).u2k point := by
  have hin := ha.inHand hat
  have hdata := (h.inside q (ha.at_busy hat)).mayHaveData
  refine (h.holds d q point hat).congr (hin.offered.data hdata).2 (fun n hn => (hin.copyIn n hn).2)
    (fun x hx hx' => ?_) hdev
  have hap := hbuf d c hd
  exact hmem x (by omega)

theorem ramdisk_free (k2u : K2u) (u2k : U2k) (p : Proc (Nat → UInt8)) :
    (ramdiskStack heap fuel buffer).free k2u u2k p = p := by
  show freeZoneInfo ramdiskOperations (Proc.process heap) k2u u2k p = p
  unfold freeZoneInfo
  split <;> rfl

/-- Requests of the kind, apart from what is outstanding; and no read of a payload comes
    back empty. -/
def Stack.Orderly (B : Backend (Proc (Nat → UInt8)) (Proc (Nat → UInt8))) (s : Stack (Proc (Nat → UInt8))) :
    StackAct (Proc (Nat → UInt8)) → Prop
  | .block (.queueRq _ _ rq) =>
    (toBiusRequest rq.op = .read ∨ toBiusRequest rq.op = .write) ∧ rq.dataLen ≤ biusMaxSizePerCommand ∧
      rq.sector * sectorSize + rq.dataLen ≤ ramdiskSize ∧
      ∀ q, s.kernel.busy q = true → toBiusRequest rq.op = .write ∨ (s.kernel.req q).type = .write →
        rq.sector * sectorSize + rq.dataLen ≤ (s.kernel.req q).pos.toNat ∨
          (s.kernel.req q).pos.toNat + (s.kernel.req q).length ≤ rq.sector * sectorSize
  | .block (.reportZones _ _ _ _ _) => False
  | .process _ => False
  | act => s.Admits ⟨false⟩ B act

theorem Stack.Orderly.admits {B : Backend (Proc (Nat → UInt8)) (Proc (Nat → UInt8))}
    {act : StackAct (Proc (Nat → UInt8))} (h : s.Orderly B act) : s.Admits ⟨false⟩ B act := by
  cases act with
  | block act =>
    cases act with
    | queueRq t p rq => exact fun _ => h.2.1
    | _ => trivial
  | read c cuts => exact h
  | _ => trivial

theorem Stack.Orderly.orders {B : Backend (Proc (Nat → UInt8)) (Proc (Nat → UInt8))}
    {act : StackAct (Proc (Nat → UInt8))} (h : s.Orderly B act) : act.Orders := by
  cases act with
  | block act =>
    cases act with
    | queueRq t p rq => rcases h.1 with ht | ht <;> simp [StackAct.Orders, ht]
    | reportZones => exact h
    | _ => trivial
  | _ => trivial

theorem toInt64_offset {n : Nat} (h : n ≤ ramdiskSize) : toInt64 (n : Int) = n := by
  unfold toInt64
  unfold ramdiskSize at h
  omega

theorem Stack.Flat.received (h : s.Flat buffer) (ha : s.Agrees ⟨false⟩ (ramdiskStack heap fuel buffer))
    (hbuf : BuffersApart buffer) (hk : s.Kept s') {c : Nat} {p : Ptr} (ho : s.Others s' c) {n : Nat}
    (hfill : s.Filled (ramdiskStack heap fuel buffer) c p n s'.proc) (hn : n ≤ biusMaxSizePerCommand)
    (hc : ∀ q point, s'.At c q point → q = p ∧
      ((s'.proc.load (buffer c) n = (chainBytes (s.kernel.req p).rq).take n) →
        Holds s.kernel.ended (buffer c) s'.proc (s.kernel.req p) (s'.loop c).u2k point)) : s'.Flat buffer := by
  obtain ⟨hload, hdev, hmem⟩ := h.filled hfill hn
  refine h.kept hk (fun b hb => ?_) (fun d q point hat => ?_)
  · rw [hdev]
    exact h.disk b hb
  · by_cases hd : d = c
    · subst hd
      obtain ⟨rfl, hholds⟩ := hc q point hat
      exact hholds hload
    · obtain ⟨hold, hloop⟩ := ho d hd q point hat
      rw [hloop]
      exact h.elsewhere ha hbuf hd hold hmem (fun _ => by rw [hdev])

theorem Stack.Flat.replied (h : s.Flat buffer) (ha : s.Agrees ⟨false⟩ (ramdiskStack heap fuel buffer))
    (hbuf : BuffersApart buffer) (hk : s.Kept s') {c : Nat} {p : Ptr} (ho : s.Others s' c) (hat : s.At c p .handling)
    (hc : ∀ q point, s'.At c q point → q = p ∧ point = .writing)
    (hleave : (ramdiskStack heap fuel buffer).leave c (s.loop c).k2u (s.loop c).u2k s.proc =
      some (s'.proc, (s'.loop c).u2k)) : s'.Flat buffer := by
  have hbusy := ha.at_busy hat
  have hin := h.inside p hbusy
  have hhand := ha.inHand hat
  obtain ⟨hlen, hmax⟩ := hhand.offered.data hin.mayHaveData
  rw [hhand.k2u (by simp)] at hleave
  change makeReply ramdiskOperations (Proc.process heap) fuel (s.loop c).u2k
    (copyInHeader (buffer c) (k2uHeader false 0 (s.kernel.req p))) s.proc = _ at hleave
  rcases hin.type with htype | htype
  · -- a read: the copy buffer gets what is on the disk
    rw [ramdisk_reply_read htype, hin.offset] at hleave
    obtain ⟨hproc, hu2k⟩ := Prod.mk.inj (Option.some.inj hleave)
    have hmem : ∀ x, x < buffer c ∨ buffer c + biusMaxSizePerCommand ≤ x → s'.proc.mem x = s.proc.mem x := by
      intro x hx
      rw [← hproc]
      exact Bytes.splice_outside _ (by rw [Bytes.slice_length]; omega)
    have hdev : s'.proc.dev = s.proc.dev := by rw [← hproc]
    refine h.kept hk (fun b hb => ?_) (fun d q point hq => ?_)
    · rw [hdev]
      exact h.disk b hb
    · by_cases hd : d = c
      · subst hd
        obtain ⟨rfl, rfl⟩ := hc q point hq
        refine ⟨by rw [← hu2k], fun hw => absurd (htype.symm.trans hw) (by decide), fun _ => ?_⟩
        have hslice := h.slice (r := s.kernel.req q) (fun p' hp' hw' => ?_)
        · rw [← hslice, ← hproc]
          have hread := Bytes.slice_splice s.proc.mem (buffer d)
            (Bytes.slice s.proc.dev (s.kernel.req q).pos.toNat (s.kernel.req q).length)
          rwa [Bytes.slice_length] at hread
        · refine h.apart q p' hbusy hp' (fun heq => ?_) (Or.inr hw')
          rw [← heq, htype] at hw'
          cases hw'
      · obtain ⟨hold, hloop⟩ := ho d hd q point hq
        rw [hloop]
        exact h.elsewhere ha hbuf hd hold hmem (fun _ => by rw [hdev])
  · -- a write: the disk gets what is in the copy buffer
    rw [ramdisk_reply_write htype, hin.offset] at hleave
    obtain ⟨hproc, hu2k⟩ := Prod.mk.inj (Option.some.inj hleave)
    have hpay : Bytes.slice s.proc.mem (buffer c) (s.kernel.req p).length = chainBytes (s.kernel.req p).rq :=
      h.holds c p _ hat htype
    have hdev : s'.proc.dev =
        Bytes.splice s.proc.dev (s.kernel.req p).pos.toNat (chainBytes (s.kernel.req p).rq) := by
      rw [← hproc, ← hpay]
    refine h.kept hk (fun b hb => ?_) (fun d q point hq => ?_)
    · have hnot := hb p hbusy htype
      unfold BiusRequest.Covers at hnot
      rw [hdev, Bytes.splice_outside _ (by omega)]
      exact h.disk b hb
    · by_cases hd : d = c
      · subst hd
        obtain ⟨rfl, rfl⟩ := hc q point hq
        refine ⟨by rw [← hu2k], fun _ => ?_, fun hr => absurd (htype.symm.trans hr) (by decide)⟩
        rw [hdev, hlen]
        exact Bytes.slice_splice _ _ _
      · obtain ⟨hold, hloop⟩ := ho d hd q point hq
        rw [hloop]
        have hqp : q ≠ p := fun heq => hd (ha.at_inj (heq ▸ hold) hat)
        refine h.elsewhere ha hbuf hd hold (fun x _ => by rw [← hproc]) (fun hw => ?_)
        rw [hdev]
        exact Bytes.slice_splice_disjoint _ (by rw [← hlen]; exact h.apart q p (ha.at_busy hold) hbusy hqp (Or.inl hw))

theorem finished_rest {r : BiusRequest} (htype : r.type = .read ∨ r.type = .write) (umem : UMem) (u2k : U2k) :
    ∃ rq, r.finished umem u2k = { r with rq := rq, blkResult := blkStatus u2k.reply } ∧
      (r.type = .write → rq = r.rq) := by
  obtain ⟨rq, hfin, hrq⟩ := finished_keeps r umem u2k
  have happ : r.type ≠ .zoneAppend := by rcases htype with h | h <;> rw [h] <;> decide
  rw [if_neg happ] at hfin
  exact ⟨rq, hfin, fun hw => hrq (by rw [hw]; decide)⟩

theorem Stack.Flat.ended (h : s.Flat buffer) (ha : s.Agrees ⟨false⟩ (ramdiskStack heap fuel buffer)) {c : Nat}
    {p : Ptr} (hat : s.At c p .writing) (hproc : s'.proc = s.proc)
    (hreq : s'.kernel.req = Function.update s.kernel.req p ((s.kernel.req p).finished s.proc.umem (s.loop c).u2k))
    (hbusy : s'.kernel.busy = Function.update s.kernel.busy p false)
    (hended : s'.kernel.ended = s.kernel.ended ++ [s'.kernel.req p])
    (hrest : ∀ d q point, s'.At d q point → q ≠ p ∧ s.At d q point ∧ s'.loop d = s.loop d) : s'.Flat buffer := by
  have hp := ha.at_busy hat
  have hin := h.inside p hp
  have hhand := ha.inHand hat
  obtain ⟨hlen, hmax⟩ := hhand.offered.data hin.mayHaveData
  obtain ⟨hok, hwrite, hread⟩ := h.holds c p _ hat
  obtain ⟨rq, hfin, hrq⟩ := finished_rest hin.type s.proc.umem (s.loop c).u2k
  have hreqp : s'.kernel.req p = (s.kernel.req p).finished s.proc.umem (s.loop c).u2k := by rw [hreq, Function.update_self]
  have hreqq : ∀ q, q ≠ p → s'.kernel.req q = s.kernel.req q := fun q hq => by rw [hreq, Function.update_of_ne hq]
  have hbusyq : ∀ q, s'.kernel.busy q = true → q ≠ p ∧ s.kernel.busy q = true := by
    intro q hq
    rw [hbusy] at hq
    by_cases hqp : q = p
    · rw [hqp, Function.update_self] at hq
      cases hq
    · rw [Function.update_of_ne hqp] at hq
      exact ⟨hqp, hq⟩
  -- a read has found what was on the disk
  have hdone : (s.kernel.req p).type = .read → chainBytes rq =
      Bytes.slice (flatDisk s.kernel.ended) (s.kernel.req p).pos.toNat (s.kernel.req p).length := by
    intro htype
    have hbytes := finished_bytes hhand.offered htype (fun a => rfl : ∀ a, s.proc.umem a = some (s.proc.mem a))
        (hhand.u2k rfl) hok
    rw [hfin] at hbytes
    exact hbytes.trans (hread htype)
  have hrqlen : (chainBytes rq).length = (s.kernel.req p).length := by
    rcases hin.type with htype | htype
    · rw [hdone htype, Bytes.slice_length]
    · rw [hrq htype, hlen]
  rw [hfin] at hreqp
  refine ⟨fun q hq => ?_, fun q q' hq hq' hne => ?_, ?_, fun b hb => ?_, fun d q point hq => ?_⟩
  · obtain ⟨hqp, hq⟩ := hbusyq q hq
    rw [hreqq q hqp]
    exact h.inside q hq
  · obtain ⟨hqp, hq⟩ := hbusyq q hq
    obtain ⟨hqp', hq'⟩ := hbusyq q' hq'
    rw [hreqq q hqp, hreqq q' hqp']
    exact h.apart q q' hq hq' hne
  · rw [hended]
    apply h.right.snoc
    rw [hreqp]
    exact ⟨by rw [hok]; rfl, hdone⟩
  · rw [hended, flatDisk_snoc, hreqp, hproc]
    have hothers : ((s.kernel.req p).type = .write → ¬ (s.kernel.req p).Covers b) →
        s.proc.dev b = flatDisk s.kernel.ended b := by
      intro hnot
      refine h.disk b (fun q hq hw => ?_)
      by_cases hqp : q = p
      · rw [hqp] at hw ⊢
        exact hnot hw
      · have hqb : s'.kernel.busy q = true := by rw [hbusy, Function.update_of_ne hqp]; exact hq
        have hnotq := hb q hqb
        rw [hreqq q hqp] at hnotq
        exact hnotq hw
    split
    · next htype =>
      by_cases hcov : (s.kernel.req p).Covers b
      · -- the data of this write
        obtain ⟨hlo, hhi⟩ := hcov
        obtain ⟨i, rfl⟩ : ∃ i, b = (s.kernel.req p).pos.toNat + i := ⟨b - (s.kernel.req p).pos.toNat, by omega⟩
        have hi : i < (s.kernel.req p).length := by omega
        have hget : (Bytes.slice s.proc.dev (s.kernel.req p).pos.toNat (s.kernel.req p).length)[i]? =
            (chainBytes rq)[i]? := by
          rw [hwrite htype, hrq htype]
        rw [Bytes.slice_getElem? _ _ _ _ hi, List.getElem?_eq_getElem (by omega)] at hget
        have hib : i < (chainBytes rq).length := by omega
        apply (Option.some.inj hget).trans
        exact (Bytes.splice_inside (flatDisk s.kernel.ended) hib).symm
      · unfold BiusRequest.Covers at hcov
        rw [Bytes.splice_outside _ (by dsimp only; omega)]
        exact hothers (fun _ => hcov)
    · next htype => exact hothers (fun hw => absurd hw htype)
  · obtain ⟨hqp, hold, hloop⟩ := hrest d q point hq
    rw [hended, hreqq q hqp, hloop, hproc, hreqp]
    refine (h.holds d q point hold).snoc ?_ (h.apart q p (ha.at_busy hold) hp hqp)
    exact hrqlen.symm

theorem Stack.Flat.submitted (h : s.Flat buffer) (ha : s.Agrees ⟨false⟩ (ramdiskStack heap fuel buffer))
    {t : Tid} {p : Ptr} {rq : Rq} (hok : s.Orderly (ramdiskStack heap fuel buffer) (.block (.queueRq t p rq)))
    (hfree : s.kernel.busy p = false) (hreq : s'.kernel.req = Function.update s.kernel.req p
      (initBlkRequest (s.kernel.req p) s.kernel.newId rq))
    (hbusy : s'.kernel.busy = Function.update s.kernel.busy p true) (hended : s'.kernel.ended = s.kernel.ended)
    (hproc : s'.proc = s.proc) (hrest : ∀ d q point, s'.At d q point → s.At d q point ∧ s'.loop d = s.loop d) :
    s'.Flat buffer := by
  obtain ⟨htype, hmax, hinside, hapart⟩ := hok
  have hreqp : s'.kernel.req p = initBlkRequest (s.kernel.req p) s.kernel.newId rq := by rw [hreq, Function.update_self]
  have hreqq : ∀ q, q ≠ p → s'.kernel.req q = s.kernel.req q := fun q hq => by rw [hreq, Function.update_of_ne hq]
  have hbusyq : ∀ q, q ≠ p → s'.kernel.busy q = true → s.kernel.busy q = true := by
    intro q hqp hq
    rwa [hbusy, Function.update_of_ne hqp] at hq
  have hpos : (initBlkRequest (s.kernel.req p) s.kernel.newId rq).pos = (rq.sector * sectorSize : Nat) :=
    toInt64_offset (by omega)
  have hposn : (initBlkRequest (s.kernel.req p) s.kernel.newId rq).pos.toNat = rq.sector * sectorSize := by
    rw [hpos, Int.toNat_natCast]
  have hnew : ∀ q, q ≠ p → s.kernel.busy q = true →
      (initBlkRequest (s.kernel.req p) s.kernel.newId rq).Compatible (s.kernel.req q) := by
    intro q _ hq hw
    rw [hposn]
    exact hapart q hq hw
  refine ⟨fun q hq => ?_, fun q q' hq hq' hne => ?_,
    by rw [hended]; exact h.right, fun b hb => ?_, fun d q point hat => ?_⟩
  · by_cases hqp : q = p
    · rw [hqp, hreqp]
      exact ⟨htype, by rw [hpos]; omega, by rw [hposn]; exact hinside⟩
    · rw [hreqq q hqp]
      exact h.inside q (hbusyq q hqp hq)
  · by_cases hqp : q = p
    · have hqp' : q' ≠ p := fun he => hne (hqp.trans he.symm)
      rw [hqp, hreqp, hreqq q' hqp']
      exact hnew q' hqp' (hbusyq q' hqp' hq')
    · rw [hreqq q hqp]
      by_cases hqp' : q' = p
      · rw [hqp', hreqp]
        intro hw
        exact (hnew q hqp (hbusyq q hqp hq) hw.symm).symm
      · rw [hreqq q' hqp']
        exact h.apart q q' (hbusyq q hqp hq) (hbusyq q' hqp' hq') hne
  · rw [hended, hproc]
    refine h.disk b (fun q hq hw => ?_)
    have hqp : q ≠ p := fun he => by rw [he, hfree] at hq; cases hq
    have hnot := hb q (by rw [hbusy, Function.update_of_ne hqp]; exact hq)
    rw [hreqq q hqp] at hnot
    exact hnot hw
  · obtain ⟨hold, hloop⟩ := hrest d q point hat
    have hqp : q ≠ p := fun he => by
      have hq := ha.at_busy hold
      rw [he, hfree] at hq
      cases hq
    rw [hended, hreqq q hqp, hloop, hproc]
    exact h.holds d q point hold

theorem Stack.Flat.step (h : s.Flat buffer) (ha : s.Agrees ⟨false⟩ (ramdiskStack heap fuel buffer))
    (hbuf : BuffersApart buffer) {act : StackAct (Proc (Nat → UInt8))}
    (hok : s.Orderly (ramdiskStack heap fuel buffer) act)
    (hs : s.step ⟨false⟩ (ramdiskStack heap fuel buffer) act = some s') : s'.Flat buffer := by
  have hhonest : (ramdiskStack heap fuel buffer).Honest ⟨false⟩ := library_honest (fun _ _ _ _ => rfl)
  have hblk := h.isBlk
  have hlen : ∀ {p}, s.kernel.busy p = true → requestIsWrite (s.kernel.req p).type = true →
      (s.kernel.req p).type = .write := by
    intro p hp hw
    rcases (h.inside p hp).type with ht | ht
    · rw [ht] at hw
      cases hw
    · exact ht
  have ha' := ha.step hhonest hok.admits hs
  cases ha.turn ha' hblk hok.orders hhonest.buffers hs with
  | quiet act hk hproc hat =>
    refine h.kept hk (fun b hb => by rw [hproc]; exact h.disk b hb) (fun c p point hp => ?_)
    obtain ⟨hold, hloop⟩ := hat c p point hp
    rw [hproc, hloop]
    exact h.holds c p point hold
  | submitted t p rq hfree hreq hbusy hended hproc hat =>
    exact h.submitted ha hok hfree hreq hbusy hended hproc hat
  | copying act c p n hk ho hp hoff hat hwrite hn hfill =>
    have hmax := (hoff.data (requestMayHaveData_of_isWrite hwrite)).2
    refine h.received ha hbuf hk ho hfill (by omega) (fun q point hq => ?_)
    obtain ⟨hqp, rfl⟩ := hat q point hq
    exact ⟨hqp, fun hload => hload⟩
  | entered act c p n b hk ho hp hoff hat hle hn hfill hk2u hproc =>
    obtain ⟨hl, hmax⟩ := hoff.data (h.inside p hp).mayHaveData
    change s'.proc = b at hproc
    rw [← hproc] at hfill
    have hnle : n ≤ biusMaxSizePerCommand := Nat.le_trans hle hmax
    refine h.received ha hbuf hk ho hfill hnle (fun q point hq => ?_)
    obtain ⟨hqp, rfl⟩ := hat q point hq
    refine ⟨hqp, fun hload htype => ?_⟩
    rw [hn (by rw [htype]; rfl)] at hload
    rw [hload, hl, List.take_length]
  | replied c p hat hk ho hat' hleave => exact h.replied ha hbuf hk ho hat hat' hleave
  | ended c p hat hproc hreq hbusy hended hat' => exact h.ended ha hat hproc hreq hbusy hended hat'
  | freed c hk ho hat hproc =>
    rw [ramdisk_free] at hproc
    refine h.kept hk (fun b hb => by rw [hproc]; exact h.disk b hb) (fun d p point hp => ?_)
    obtain ⟨hold, hloop⟩ := ho.quiet hat d p point hp
    rw [hproc, hloop]
    exact h.holds d p point hold
  | process a => exact absurd hok (by simp [Stack.Orderly])

end

end Bius
