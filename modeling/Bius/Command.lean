import Bius.Lib.Bytes
import Bius.Request

/- Commands and data crossing the boundary (`kernel/command.h`). A user copy is
   modelled by what it manages to transfer: `copy_to_iter` takes its outcomes from
   a list of cut points (`cuts`; where the list has ended it transfers
   everything), `copy_from_user` stops at the first address userspace cannot read
   (`umem a = none`) and pads the rest of the destination with zeros.

   `biusSendData_spec`: a call sends a prefix of what is left of the request's
   data, leaves the rest, and terminates; if the copies succeed it sends as much
   as fits. `biusReceiveData_ok_iff`: it returns 0 exactly when every byte could
   be read, and then the segments hold the user's bytes. -/
namespace Bius

/-! ## `bius_send_command` -/

/-- The header `bius_send_command` builds. Only the CONFIG_BIUS_DATAMAP build
    fills in the mapping; the fields left out of the initialiser are zero. -/
def k2uHeader (datamap : Bool) (vmStart : Nat) (r : BiusRequest) : K2u :=
  let header : K2u :=
    ⟨r.id, r.type, (r.pos % 2 ^ 64).toNat, r.length, 0, 0, .unmapped⟩
  if datamap && isBlkRequest r.type && r.mapType != .unmapped then
    { header with dataAddress := vmStart, mappingData := r.mapData, dataMapType := r.mapType }
  else header

/-! ## `bius_send_data` -/

/-- `copy_to_iter` of `size` bytes: the next cut, at most all of them. -/
def copyToIter (cuts : List Nat) (size : Nat) : Nat := min (cuts.headD size) size

/-- What the loop of `bius_send_data` leaves: the bio chain, `map_data`, and the
    bytes sent. -/
structure Sent where
  bio : List Bio
  mapData : Nat
  bytes : List UInt8

/-- The loop of `bius_send_data`; `none` when it would dereference a NULL bio. -/
def sendLoop : Nat → List Bio → Nat → Nat → List Nat → List UInt8 → Option Sent
  | 0, _, _, _, _, _ => none
  | fuel + 1, bio, mapData, remain, cuts, sent =>
    if 0 < mapData ∧ 0 < remain then
      match bio with
      | [] => none
      | b :: next =>
        let n := copyToIter cuts (min b.iovec.length remain)
        let b' := b.advance n
        let mapData' := sub64 mapData n
        let sent' := sent ++ b.iovec.take n
        if b'.biSize = 0 then sendLoop fuel next mapData' (remain - n) cuts.tail sent'
        else if n = 0 then some ⟨b' :: next, mapData', sent'⟩
        else sendLoop fuel (b' :: next) mapData' (remain - n) cuts.tail sent'
    else some ⟨bio, mapData, sent⟩

/-- `bius_send_data`: the request afterwards and the bytes sent, or an error. -/
def biusSendData (r : BiusRequest) (remain : Nat) (cuts : List Nat) :
    Option (BiusRequest × Except Int (List UInt8)) :=
  if r.bio = [] then some (r, .ok [])
  else if r.mapType != .unmapped then some (r, .error (-eINVAL))
  else
    (sendLoop (r.bio.length + (chainBytes r.bio).length + 1) r.bio r.mapData remain cuts []).map
      (fun s => ({ r with bio := s.bio, mapData := s.mapData }, .ok s.bytes))

/-- While `map_data` is what is left of the chain, the loop terminates; it has
    sent a prefix of the chain no longer than the buffer and kept the rest. -/
theorem sendLoop_spec : ∀ (fuel : Nat) (bio : List Bio) (mapData remain : Nat) (cuts : List Nat)
    (sent : List UInt8), mapData = (chainBytes bio).length → mapData < 2 ^ 64 →
    bio.length + (chainBytes bio).length < fuel →
    ∃ s k, sendLoop fuel bio mapData remain cuts sent = some s ∧ k ≤ min remain mapData ∧
      s.bytes = sent ++ (chainBytes bio).take k ∧ chainBytes s.bio = (chainBytes bio).drop k ∧
      s.mapData = mapData - k ∧ (cuts = [] → k = min remain mapData)
  | 0, _, _, _, _, _, _, _, hf => by omega
  | fuel + 1, bio, mapData, remain, cuts, sent, hm, hlt, hf => by
    simp only [sendLoop]
    by_cases hgo : 0 < mapData ∧ 0 < remain
    · rw [if_pos hgo]
      match bio with
      | [] => simp at hm; omega
      | b :: next =>
        simp only [chainBytes_cons, List.length_append, List.length_cons] at hm hf
        have hiov := b.iovec_length_le
        simp only [Bio.biSize] at hiov
        obtain ⟨n, hn⟩ : ∃ n, copyToIter cuts (min b.iovec.length remain) = n := ⟨_, rfl⟩
        have hnle : n ≤ min b.iovec.length remain := by rw [← hn]; exact Nat.min_le_right _ _
        have hnb : n ≤ b.bytes.length := by omega
        have hsub : sub64 mapData n = mapData - n := sub64_of_le (by omega) hlt
        have htake : b.iovec.take n = b.bytes.take n := b.iovec_take (by omega)
        have hsize : (b.advance n).biSize = b.bytes.length - n := by simp [Bio.biSize]
        simp only [hn, hsub, htake, hsize]
        by_cases hend : b.bytes.length - n = 0
        · -- the bio is used up: go on with the next one
          have hneq : n = b.bytes.length := by omega
          rw [if_pos hend]
          obtain ⟨s, k, hs, hk, hb, hc, hd, hfull⟩ := sendLoop_spec fuel next (mapData - n) (remain - n)
            cuts.tail (sent ++ b.bytes.take n) (by omega) (by omega) (by omega)
          refine ⟨s, n + k, hs, by omega, ?_, ?_, by omega, ?_⟩
          · rw [hb, hneq, List.take_length, chainBytes_cons, List.take_length_add_append,
              List.append_assoc]
          · rw [hc, hneq, chainBytes_cons, List.drop_length_add_append]
          · intro hcuts
            have := hfull (by rw [hcuts]; rfl)
            omega
        · rw [if_neg hend]
          by_cases h0 : n = 0
          · -- nothing could be copied
            rw [if_pos h0]
            refine ⟨_, 0, rfl, Nat.zero_le _, by simp [h0], by simp [h0], by simp [h0], ?_⟩
            intro hcuts
            have hpos := b.iovec_pos (by simp only [Bio.biSize]; omega)
            rw [hcuts] at hn
            simp only [copyToIter, List.headD_nil, Nat.min_self] at hn
            omega
          · rw [if_neg h0]
            have hadv : (b.advance n).bytes = b.bytes.drop n := b.advance_bytes n
            obtain ⟨s, k, hs, hk, hb, hc, hd, hfull⟩ := sendLoop_spec fuel (b.advance n :: next)
              (mapData - n) (remain - n) cuts.tail (sent ++ b.bytes.take n)
              (by simp only [chainBytes_cons, hadv, List.length_append, List.length_drop]; omega) (by omega)
              (by simp only [chainBytes_cons, hadv, List.length_append, List.length_drop, List.length_cons]; omega)
            have hcat : chainBytes (b :: next) =
                b.bytes.take n ++ chainBytes (b.advance n :: next) := by
              rw [chainBytes_cons, chainBytes_cons, hadv, ← List.append_assoc, List.take_append_drop]
            have htl : (b.bytes.take n).length = n := by rw [List.length_take]; omega
            refine ⟨s, n + k, hs, by omega, ?_, ?_, by omega, ?_⟩
            · rw [hb, hcat, List.append_assoc, List.take_append, htl, Nat.add_sub_cancel_left,
                List.take_of_length_le (by omega : (b.bytes.take n).length ≤ n + k)]
            · rw [hc, hcat, List.drop_append, htl, Nat.add_sub_cancel_left,
                List.drop_eq_nil_of_le (by omega : (b.bytes.take n).length ≤ n + k), List.nil_append]
            · intro hcuts
              have := hfull (by rw [hcuts]; rfl)
              omega
    · rw [if_neg hgo]
      exact ⟨_, 0, rfl, Nat.zero_le _, by simp, by simp, by simp, fun _ => by omega⟩

/-- `bius_send_data` on an unmapped request whose `map_data` is what is left of
    its bio chain. -/
theorem biusSendData_spec {r : BiusRequest} (hr : r.mapType = .unmapped)
    (hm : r.mapData = (chainBytes r.bio).length) (hlt : r.mapData < 2 ^ 64) (remain : Nat)
    (cuts : List Nat) :
    ∃ bio k, k ≤ min remain r.mapData ∧ chainBytes bio = (chainBytes r.bio).drop k ∧
      (cuts = [] → k = min remain r.mapData) ∧
      biusSendData r remain cuts =
        some ({ r with bio := bio, mapData := r.mapData - k }, .ok ((chainBytes r.bio).take k)) := by
  unfold biusSendData
  by_cases hbio : r.bio = []
  · have h0 : r.mapData = 0 := by rw [hm, hbio]; rfl
    refine ⟨[], 0, Nat.zero_le _, by simp [hbio], fun _ => by omega, ?_⟩
    rw [if_pos hbio]
    cases r
    simp_all
  · rw [if_neg hbio, if_neg (by simp [hr])]
    obtain ⟨s, k, hs, hk, hb, hc, hd, hfull⟩ := sendLoop_spec
      (r.bio.length + (chainBytes r.bio).length + 1) r.bio r.mapData remain cuts [] hm hlt (by omega)
    refine ⟨s.bio, k, hk, hc, hfull, ?_⟩
    rw [hs]
    simp [hb, hd]

/-! ## `bius_receive_data` -/

/-- Userspace memory as the kernel can read it. -/
def UMem : Type := Nat → Option UInt8

/-- How many of the `n` bytes from `addr` on are readable before the first that
    is not. -/
def accessible (umem : UMem) (addr : Nat) : Nat → Nat
  | 0 => 0
  | n + 1 => if (umem addr).isSome then accessible umem (addr + 1) n + 1 else 0

/-- `copy_from_user`: the bytes stored at the destination and the number of bytes
    that could not be copied. -/
def copyFromUser (umem : UMem) (addr n : Nat) : List UInt8 × Nat :=
  let k := accessible umem addr n
  (Bytes.slice (fun a => (umem a).getD 0) addr k ++ List.replicate (n - k) 0, n - k)

theorem accessible_le (umem : UMem) (addr n : Nat) : accessible umem addr n ≤ n := by
  induction n generalizing addr with
  | zero => simp [accessible]
  | succ n ih =>
    simp only [accessible]
    split
    · have := ih (addr + 1); omega
    · omega

theorem accessible_eq_iff (umem : UMem) (addr n : Nat) :
    accessible umem addr n = n ↔ ∀ i < n, (umem (addr + i)).isSome := by
  induction n generalizing addr with
  | zero => simp [accessible]
  | succ n ih =>
    simp only [accessible]
    constructor
    · intro h i hi
      split at h
      · next h0 =>
        cases i with
        | zero => exact h0
        | succ i =>
          rw [show addr + (i + 1) = addr + 1 + i by omega]
          exact (ih (addr + 1)).1 (by omega) i (by omega)
      · omega
    · intro h
      rw [if_pos (by simpa using h 0 (by omega))]
      rw [(ih (addr + 1)).2 (fun i hi => by
        rw [show addr + 1 + i = addr + (i + 1) by omega]; exact h (i + 1) (by omega))]

theorem copyFromUser_length (umem : UMem) (addr n : Nat) :
    (copyFromUser umem addr n).1.length = n := by
  have := accessible_le umem addr n
  simp only [copyFromUser, List.length_append, Bytes.slice_length, List.length_replicate]
  omega

theorem copyFromUser_ok_iff (umem : UMem) (addr n : Nat) :
    (copyFromUser umem addr n).2 = 0 ↔ ∀ i < n, (umem (addr + i)).isSome := by
  rw [← accessible_eq_iff]
  have := accessible_le umem addr n
  simp only [copyFromUser]; omega

theorem copyFromUser_bytes {umem : UMem} {addr n : Nat} (h : (copyFromUser umem addr n).2 = 0) :
    (copyFromUser umem addr n).1 = Bytes.slice (fun a => (umem a).getD 0) addr n := by
  have hk : accessible umem addr n = n :=
    (accessible_eq_iff umem addr n).2 ((copyFromUser_ok_iff umem addr n).1 h)
  simp [copyFromUser, hk]

/-- The loop of `bius_receive_data` over segments: the segments afterwards, the
    user address reached, and whether every copy succeeded. -/
def receiveVecs (umem : UMem) : List BVec → Nat → List BVec × Nat × Bool
  | [], addr => ([], addr, true)
  | v :: vs, addr =>
    let c := copyFromUser umem addr v.data.length
    let v' := v.fill c.1 (copyFromUser_length umem addr v.data.length)
    if c.2 > 0 then (v' :: vs, addr, false)
    else
      let rest := receiveVecs umem vs (addr + v.data.length)
      (v' :: rest.1, rest.2.1, rest.2.2)

/-- The same over a bio chain. -/
def receiveBios (umem : UMem) : List Bio → Nat → List Bio × Bool
  | [], _ => ([], true)
  | b :: bios, addr =>
    let got := receiveVecs umem b.vecs addr
    if got.2.2 then
      let rest := receiveBios umem bios got.2.1
      (⟨got.1⟩ :: rest.1, rest.2)
    else (⟨got.1⟩ :: bios, false)

/-- `bius_receive_data`: the request afterwards and the value returned. -/
def biusReceiveData (r : BiusRequest) (umem : UMem) (userData : Nat) : BiusRequest × Int :=
  if r.bio = [] then (r, 0)
  else if r.mapType != .unmapped then (r, -eINVAL)
  else
    let got := receiveBios umem r.rq userData
    ({ r with rq := got.1 }, if got.2 then 0 else - eIO)

/-- Every byte of the range can be read. -/
def Readable (umem : UMem) (addr n : Nat) : Prop := ∀ i < n, (umem (addr + i)).isSome

theorem readable_add {umem : UMem} {addr n k : Nat} :
    Readable umem addr (n + k) ↔ Readable umem addr n ∧ Readable umem (addr + n) k := by
  constructor
  · intro h
    refine ⟨fun i hi => h i (by omega), fun i hi => ?_⟩
    have := h (n + i) (by omega)
    rwa [← Nat.add_assoc] at this
  · rintro ⟨h₁, h₂⟩ i hi
    rcases Nat.lt_or_ge i n with hlt | hge
    · exact h₁ i hlt
    · have := h₂ (i - n) (by omega)
      rwa [show addr + n + (i - n) = addr + i by omega] at this

theorem receiveVecs_spec (umem : UMem) (vs : List BVec) (addr : Nat) :
    ((receiveVecs umem vs addr).2.2 = true ↔ Readable umem addr (vs.flatMap BVec.data).length) ∧
    ((receiveVecs umem vs addr).2.2 = true →
      (receiveVecs umem vs addr).2.1 = addr + (vs.flatMap BVec.data).length ∧
      (receiveVecs umem vs addr).1.flatMap BVec.data =
        Bytes.slice (fun a => (umem a).getD 0) addr (vs.flatMap BVec.data).length) := by
  induction vs generalizing addr with
  | nil => simp [receiveVecs, Readable]
  | cons v vs ih =>
    obtain ⟨ih₁, ih₂⟩ := ih (addr + v.data.length)
    have hok := copyFromUser_ok_iff umem addr v.data.length
    simp only [receiveVecs, List.flatMap_cons, List.length_append]
    by_cases hc : (copyFromUser umem addr v.data.length).2 = 0
    · rw [if_neg (by omega), readable_add]
      refine ⟨?_, fun h => ?_⟩
      · simp only [ih₁]
        exact ⟨fun h => ⟨hok.1 hc, h⟩, fun h => h.2⟩
      · obtain ⟨ha, hb⟩ := ih₂ h
        refine ⟨by simp only [ha]; omega, ?_⟩
        rw [List.flatMap_cons, hb, Bytes.slice_add]
        congr 1
        exact copyFromUser_bytes hc
    · rw [if_pos (by omega), readable_add]
      refine ⟨?_, fun h => by simp at h⟩
      simp only [Bool.false_eq_true, false_iff]
      exact fun h => hc (hok.2 h.1)

theorem receiveBios_spec (umem : UMem) (bios : List Bio) (addr : Nat) :
    ((receiveBios umem bios addr).2 = true ↔ Readable umem addr (chainBytes bios).length) ∧
    ((receiveBios umem bios addr).2 = true →
      chainBytes (receiveBios umem bios addr).1 =
        Bytes.slice (fun a => (umem a).getD 0) addr (chainBytes bios).length) := by
  induction bios generalizing addr with
  | nil => simp [receiveBios, Readable]
  | cons b bios ih =>
    obtain ⟨hv₁, hv₂⟩ := receiveVecs_spec umem b.vecs addr
    simp only [receiveBios, chainBytes_cons, List.length_append, Bio.bytes] at *
    by_cases hv : (receiveVecs umem b.vecs addr).2.2 = true
    · obtain ⟨ha, hb⟩ := hv₂ hv
      obtain ⟨ih₁, ih₂⟩ := ih (addr + (b.vecs.flatMap BVec.data).length)
      rw [if_pos hv, readable_add, ha]
      refine ⟨?_, fun h => ?_⟩
      · simp only [ih₁]
        exact ⟨fun h => ⟨hv₁.1 hv, h⟩, fun h => h.2⟩
      · simp only [chainBytes_cons, Bio.bytes]
        rw [hb, ih₂ h, Bytes.slice_add]
    · rw [if_neg hv, readable_add]
      refine ⟨?_, fun h => by simp at h⟩
      simp only [Bool.false_eq_true, false_iff]
      exact fun h => hv (hv₁.2 h.1)

section
variable {r : BiusRequest} (hb : r.bio ≠ []) (hm : r.mapType = .unmapped) (umem : UMem) (userData : Nat)
include hb hm

/-- `bius_receive_data` succeeds exactly when the user buffer is readable for the
    length of the request's segments. -/
theorem biusReceiveData_ok_iff :
    (biusReceiveData r umem userData).2 = 0 ↔ Readable umem userData (chainBytes r.rq).length := by
  rw [← (receiveBios_spec umem r.rq userData).1]
  simp only [biusReceiveData, if_neg hb, hm, bne_self_eq_false, Bool.false_eq_true, if_false]
  cases (receiveBios umem r.rq userData).2 <;> simp [ eIO]

theorem biusReceiveData_result :
    (biusReceiveData r umem userData).2 = 0 ∨ (biusReceiveData r umem userData).2 < 0 := by
  simp only [biusReceiveData, if_neg hb, hm, bne_self_eq_false, Bool.false_eq_true, if_false]
  cases (receiveBios umem r.rq userData).2 <;> simp [ eIO]

theorem biusReceiveData_bytes (h : (biusReceiveData r umem userData).2 = 0) :
    chainBytes (biusReceiveData r umem userData).1.rq =
      Bytes.slice (fun a => (umem a).getD 0) userData (chainBytes r.rq).length := by
  have hok := (biusReceiveData_ok_iff hb hm umem userData).1 h
  have hs := receiveBios_spec umem r.rq userData
  simp only [biusReceiveData, if_neg hb, hm, bne_self_eq_false, Bool.false_eq_true, if_false]
  exact hs.2 (hs.1.2 hok)

end

end Bius
