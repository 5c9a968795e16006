import Bius.CreateDevice
import Bius.ReportZones

/- The headers of commands and replies as bytes, and what the kernel does when a copy
   between kernel and userspace stops after `k` of them. The receiver then holds the `k`
   bytes that came, and behind them what its variable held before.

   `bius_dev_write` goes on with any header of which a byte has come, and returns 0
   where none has; `bius_dev_read` counts a command as sent of which a byte has been
   copied. `headers_whole_iff` says exactly when that does no harm. -/
namespace Bius

open Bytes

/-! ## The headers -/

/-- The values of `bius_req_t`. -/
def BiusReq.code : BiusReq → Nat
  | .create => 0
  | .connect => 1
  | .read => 2
  | .write => 3
  | .discard => 4
  | .ioctl => 5
  | .flush => 6
  | .reportZones => 9
  | .zoneOpen => 10
  | .zoneClose => 11
  | .zoneFinish => 12
  | .zoneAppend => 13
  | .zoneReset => 15
  | .zoneResetAll => 17
  | .invalidOp => 2 ^ 32 - 1

def BiusReq.ofCode (n : Nat) : Option BiusReq :=
  [.create, .connect, .read, .write, .discard, .ioctl, .flush, .reportZones, .zoneOpen, .zoneClose, .zoneFinish,
    .zoneAppend, .zoneReset, .zoneResetAll, .invalidOp].find? (fun r => r.code == n)

/-- The values of `data_map_type_t`. -/
def DataMapType.code : DataMapType → Nat
  | .unmapped => 0
  | .simple => 1
  | .list => 2

def DataMapType.ofCode (n : Nat) : Option DataMapType :=
  [.unmapped, .simple, .list].find? (fun m => m.code == n)

/-- `struct bius_k2u_header`; the bytes between its fields hold anything. -/
def K2u.bytes (pad₁ pad₂ : Nat) (k2u : K2u) : List UInt8 :=
  le 8 k2u.id ++ (le 4 k2u.opcode.code ++ (le 4 pad₁ ++ (le 8 k2u.offset ++ (le 8 k2u.length ++
    (le 8 k2u.dataAddress ++ (le 8 k2u.mappingData ++ (le 4 k2u.dataMapType.code ++ (le 4 pad₂ ++ []))))))))

/-- The fields that userspace reads. -/
def K2u.ofBytes (bs : List UInt8) : Option K2u :=
  (BiusReq.ofCode (field 8 4 bs)).bind (fun opcode =>
    (DataMapType.ofCode (field 48 4 bs)).map (fun mapType =>
      ⟨field 0 8 bs, opcode, field 16 8 bs, field 24 8 bs, field 32 8 bs, field 40 8 bs, mapType⟩))

/-- Every field is a 64-bit value. -/
structure K2u.Fits (k2u : K2u) : Prop where
  id : k2u.id < 2 ^ 64
  offset : k2u.offset < 2 ^ 64
  length : k2u.length < 2 ^ 64
  dataAddress : k2u.dataAddress < 2 ^ 64
  mappingData : k2u.mappingData < 2 ^ 64

/-- The fields of `struct bius_u2k_header` that `bius_dev_write` reads. -/
def U2k.ofBytes (bs : List UInt8) : U2k := ⟨field 0 8 bs, toInt64 (field 8 8 bs), field 16 8 bs⟩

theorem K2u.bytes_length (pad₁ pad₂ : Nat) (k2u : K2u) : (k2u.bytes pad₁ pad₂).length = sizeofK2u := by
  simp only [K2u.bytes, List.length_append, le_length, List.length_nil, sizeofK2u]

theorem BiusReq.code_lt (r : BiusReq) : r.code < 256 ^ 4 := by
  cases r <;> decide

theorem BiusReq.ofCode_code (r : BiusReq) : BiusReq.ofCode r.code = some r := by
  cases r <;> decide

theorem DataMapType.code_lt (m : DataMapType) : m.code < 256 ^ 4 := by
  cases m <;> decide

theorem DataMapType.ofCode_code (m : DataMapType) : DataMapType.ofCode m.code = some m := by
  cases m <;> decide

theorem K2u.ofBytes_bytes {k2u : K2u} (h : k2u.Fits) (pad₁ pad₂ : Nat) :
    K2u.ofBytes (k2u.bytes pad₁ pad₂) = some k2u := by
  have hword : (2 : Nat) ^ 64 = 256 ^ 8 := by decide
  obtain ⟨hid, hoffset, hlength, haddress, hmapping⟩ := h
  rw [hword] at hid hoffset hlength haddress hmapping
  -- each field behind what stands before it
  have f₀ : field 0 8 (k2u.bytes pad₁ pad₂) = k2u.id := @field_append [] _ 0 8 _ rfl hid
  have f₁ : field 8 4 (k2u.bytes pad₁ pad₂) = k2u.opcode.code :=
    @field_append (le 8 k2u.id) _ 8 4 _ (le_length 8 _) (BiusReq.code_lt _)
  have f₂ : field 16 8 (k2u.bytes pad₁ pad₂) = k2u.offset := by
    have hf := @field_append (le 8 k2u.id ++ (le 4 k2u.opcode.code ++ le 4 pad₁))
      (le 8 k2u.length ++ (le 8 k2u.dataAddress ++
        (le 8 k2u.mappingData ++ (le 4 k2u.dataMapType.code ++ (le 4 pad₂ ++ [])))))
      16 8 k2u.offset (by simp) hoffset
    simpa only [K2u.bytes, List.append_assoc] using hf
  have f₃ : field 24 8 (k2u.bytes pad₁ pad₂) = k2u.length := by
    have hf := @field_append (le 8 k2u.id ++ (le 4 k2u.opcode.code ++ (le 4 pad₁ ++ le 8 k2u.offset)))
      (le 8 k2u.dataAddress ++ (le 8 k2u.mappingData ++ (le 4 k2u.dataMapType.code ++ (le 4 pad₂ ++ []))))
      24 8 k2u.length (by simp) hlength
    simpa only [K2u.bytes, List.append_assoc] using hf
  have f₄ : field 32 8 (k2u.bytes pad₁ pad₂) = k2u.dataAddress := by
    have hf := @field_append (le 8 k2u.id ++ (le 4 k2u.opcode.code ++
        (le 4 pad₁ ++ (le 8 k2u.offset ++ le 8 k2u.length))))
      (le 8 k2u.mappingData ++ (le 4 k2u.dataMapType.code ++ (le 4 pad₂ ++ []))) 32 8 k2u.dataAddress (by simp) haddress
    simpa only [K2u.bytes, List.append_assoc] using hf
  have f₅ : field 40 8 (k2u.bytes pad₁ pad₂) = k2u.mappingData := by
    have hf := @field_append
      (le 8 k2u.id ++ (le 4 k2u.opcode.code ++
        (le 4 pad₁ ++ (le 8 k2u.offset ++ (le 8 k2u.length ++ le 8 k2u.dataAddress)))))
      (le 4 k2u.dataMapType.code ++ (le 4 pad₂ ++ [])) 40 8 k2u.mappingData (by simp) hmapping
    simpa only [K2u.bytes, List.append_assoc] using hf
  have f₆ : field 48 4 (k2u.bytes pad₁ pad₂) = k2u.dataMapType.code := by
    have hf := @field_append (le 8 k2u.id ++ (le 4 k2u.opcode.code ++ (le 4 pad₁ ++ (le 8 k2u.offset ++
      (le 8 k2u.length ++ (le 8 k2u.dataAddress ++ le 8 k2u.mappingData))))))
      (le 4 pad₂ ++ []) 48 4 k2u.dataMapType.code (by simp) (DataMapType.code_lt _)
    simpa only [K2u.bytes, List.append_assoc] using hf
  rw [K2u.ofBytes, f₀, f₁, f₂, f₃, f₄, f₅, f₆, BiusReq.ofCode_code, DataMapType.ofCode_code]
  rfl

/-! ## A connection without a device -/

def eNOENT : Int := 2

/-- `sizeof(struct bius_block_device_options)`. -/
def sizeofOptions : Nat := 56

/-- The offset of `disk_name` in it. -/
def diskNameAt : Nat := 24

section
variable (o : CreateOutcomes) (umem : UMem) (mapped : Nat → Bool) (device c : Nat) (s : Devices)

/-- `handle_initialization` on connection `c`. `device` is what its variable holds
    before, and `none` is a fault. -/
def handleInitialization (header : List UInt8) : Option (Devices × Int) :=
  let userBuffer := field 16 8 header
  if field 8 4 header = BiusReq.create.code then
    let options := copyFromUser umem userBuffer sizeofOptions
    if options.2 ≠ 0 then some (s, - eIO)
    else handleCreate o s mapped device c ((options.1.drop diskNameAt).take diskNameLen)
  else if field 8 4 header = BiusReq.connect.code then
    let nameLength := min diskNameLen (field 12 4 header)
    let diskName := copyFromUser umem userBuffer nameLength
    if diskName.2 ≠ 0 then some (s, - eIO)
    else
      match s.getBlockDevice (diskName.1 ++ List.replicate (diskNameLen - nameLength) 0) with
      | none => some (s, -eNOENT)
      | some d => some ((s.countUp d).store c d, sizeofU2k)
  else some (s, -eINVAL)

/-- `bius_dev_write` of `size` bytes on a connection without a device; `k` bytes of the
    header could be copied. -/
def devWriteInit (size k : Nat) (header : List UInt8) : Option (Devices × Int) :=
  if size < sizeofU2k then some (s, -eINVAL)
  else if k = 0 then some (s, 0)
  else handleInitialization o umem mapped device c s header

/-- `handle_initialization` finds something wrong with the header before it has changed
    anything: another request, an address that cannot be read, or a name that no device
    has. -/
def InitRefused (header : List UInt8) : Prop :=
  let userBuffer := field 16 8 header
  let nameLength := min diskNameLen (field 12 4 header)
  if field 8 4 header = BiusReq.create.code then (copyFromUser umem userBuffer sizeofOptions).2 ≠ 0
  else if field 8 4 header = BiusReq.connect.code then
    (copyFromUser umem userBuffer nameLength).2 ≠ 0 ∨
      s.getBlockDevice ((copyFromUser umem userBuffer nameLength).1 ++ List.replicate (diskNameLen - nameLength) 0) = none
  else True

/-- `handle_initialization` fails and leaves everything as it was exactly if the header
    is refused. -/
theorem handleInitialization_refused_iff (header : List UInt8) :
    (∃ e < 0, handleInitialization o umem mapped device c s header = some (s, e)) ↔ InitRefused umem s header := by
  unfold handleInitialization InitRefused
  by_cases hcreate : field 8 4 header = BiusReq.create.code
  · simp only [if_pos hcreate]
    by_cases hread : (copyFromUser umem (field 16 8 header) sizeofOptions).2 ≠ 0
    · simp only [if_pos hread]
      exact ⟨fun _ => hread, fun _ => ⟨- eIO, by decide, rfl⟩⟩
    · -- from here on it does not fail
      simp only [if_neg hread]
      refine ⟨fun h => ?_, fun h => absurd h hread⟩
      obtain ⟨e, hneg, hres⟩ := h
      rw [handleCreate_ret hres] at hneg
      exact absurd hneg (by decide)
  · simp only [if_neg hcreate]
    by_cases hconnect : field 8 4 header = BiusReq.connect.code
    · simp only [if_pos hconnect]
      by_cases hread : (copyFromUser umem (field 16 8 header) (min diskNameLen (field 12 4 header))).2 ≠ 0
      · simp only [if_pos hread]
        exact ⟨fun _ => .inl hread, fun _ => ⟨- eIO, by decide, rfl⟩⟩
      · simp only [if_neg hread]
        cases hfound : s.getBlockDevice
            ((copyFromUser umem (field 16 8 header) (min diskNameLen (field 12 4 header))).1 ++
              List.replicate (diskNameLen - min diskNameLen (field 12 4 header)) 0) with
        | none => exact ⟨fun _ => .inr rfl, fun _ => ⟨-eNOENT, by decide, rfl⟩⟩
        | some d =>
          refine ⟨fun h => ?_, fun h => ?_⟩
          · obtain ⟨e, hneg, hres⟩ := h
            have hret : (sizeofU2k : Int) = e := congrArg Prod.snd (Option.some.inj hres)
            rw [← hret] at hneg
            exact absurd hneg (by decide)
          · rcases h with h | h
            · exact absurd h hread
            · cases h
    · simp only [if_neg hconnect]
      exact ⟨fun _ => trivial, fun _ => ⟨-eINVAL, by decide, rfl⟩⟩

end

/-! ## The specification -/

/-- A write to a connection without a device, of which `k` bytes of the header come: a
    short header is refused, a whole one is acted on as it was written. `stack` is what
    the header held before. -/
structure InitWhole (o : CreateOutcomes) (umem : UMem) (mapped : Nat → Bool) (device c : Nat) (s : Devices)
    (size k : Nat) (written stack : List UInt8) : Prop where
  short : k < sizeofU2k → ∃ e < 0, devWriteInit o umem mapped device c s size k (overlay k written stack) = some (s, e)
  full : k = sizeofU2k → overlay k written stack = written

/-- A write to an attached connection. Of the whole state a refused header changes only
    what the call returns. -/
structure WriteWhole (cfg : Config) (s : Kernel) (t : Tid) (c size k : Nat) (written stack : List UInt8) : Prop where
  short : k < sizeofU2k → ∃ e < 0, step cfg s (.writeStart t c size k (U2k.ofBytes (overlay k written stack))) =
    some (s.setCall t (.done (.value e)))
  full : k = sizeofU2k → U2k.ofBytes (overlay k written stack) = U2k.ofBytes written

/-- From `s` to `s'` the request `p` is ended with an error. Its caller sees one whatever
    an `int_result` holds that nobody has assigned. -/
def EndsWithError (s s' : Kernel) (p : Ptr) : Prop :=
  ∃ r, s'.ended = s.ended ++ [r] ∧ r.id = (s.req p).id ∧
    if isBlkRequest (s.req p).type then r.blkResult ≠ blkStsOk
    else ∀ junk cb, ∃ calls e, Kernel.reportZonesEnd r junk cb = .zones calls e ∧ e < 0

/-- A read that has taken the request `p`, of whose command `k` bytes are copied: after a
    short copy the request is not recorded as delivered, but ended with an error; and a
    whole command reads as it was written. `buffer` is what userspace's header held
    before. -/
structure ReadWhole (cfg : Config) (s : Kernel) (t : Tid) (c : Nat) (p : Ptr) (k pad₁ pad₂ : Nat)
    (buffer : List UInt8) :
    Prop where
  short : k < sizeofK2u → ∃ s', step cfg s (.readSend t k) = some s' ∧
    (∀ c', p ∉ (s'.conn c').waiting ∧ (s'.conn c').sending ≠ some p) ∧ EndsWithError s s' p
  full : k = sizeofK2u →
    let header := k2uHeader cfg.datamap ((s.conn c).vma.getD 0) (s.req p)
    (∃ s', step cfg s (.readSend t k) = some s' ∧ s'.call t = .done (.header header k)) ∧
      K2u.ofBytes (overlay k (header.bytes pad₁ pad₂) buffer) = some header

/-! ## Writes -/

theorem overlay_header {written stack : List UInt8} (hw : written.length = sizeofU2k) (hs : stack.length = sizeofU2k) :
    overlay sizeofU2k written stack = written := by
  have hall := @overlay_all written stack (hs.trans hw.symm)
  rwa [hw] at hall

theorem initWhole_iff (o : CreateOutcomes) (umem : UMem) (mapped : Nat → Bool) (device c : Nat) (s : Devices)
    {size k : Nat} {written stack : List UInt8} (hsize : sizeofU2k ≤ size) (hk : k ≤ sizeofU2k)
    (hw : written.length = sizeofU2k) (hs : stack.length = sizeofU2k) :
    InitWhole o umem mapped device c s size k written stack ↔
      k = sizeofU2k ∨ 0 < k ∧ InitRefused umem s (overlay k written stack) := by
  have hiff := handleInitialization_refused_iff o umem mapped device c s (overlay k written stack)
  constructor
  · intro hwhole
    by_cases hfull : k = sizeofU2k
    · exact .inl hfull
    · right
      obtain ⟨e, hneg, hres⟩ := hwhole.short (by omega)
      rw [devWriteInit, if_neg (by omega)] at hres
      by_cases hzero : k = 0
      · -- nothing has come: 0 is returned
        rw [if_pos hzero] at hres
        cases hres
        exact absurd hneg (by decide)
      · rw [if_neg hzero] at hres
        exact ⟨Nat.pos_of_ne_zero hzero, hiff.1 ⟨e, hneg, hres⟩⟩
  · intro hgood
    refine ⟨fun hshort => ?_, fun hfull => ?_⟩
    · rcases hgood with hfull | ⟨hpos, hrefused⟩
      · omega
      · obtain ⟨e, hneg, hres⟩ := hiff.2 hrefused
        refine ⟨e, hneg, ?_⟩
        rw [devWriteInit, if_neg (by omega), if_neg (by omega), hres]
    · rw [hfull]
      exact overlay_header hw hs

theorem writeWhole_iff {cfg : Config} {s : Kernel} {t : Tid} {c size k : Nat} {written stack : List UInt8}
    (ht : s.call t = .idle) (hc : (s.conn c).attached = true) (hsize : sizeofU2k ≤ size) (hk : k ≤ sizeofU2k)
    (hw : written.length = sizeofU2k) (hs : stack.length = sizeofU2k) :
    WriteWhole cfg s t c size k written stack ↔
      k = sizeofU2k ∨ 0 < k ∧ ∀ p ∈ (s.conn c).waiting, (s.req p).id ≠ field 0 8 (overlay k written stack) := by
  have hstep : step cfg s (.writeStart t c size k (U2k.ofBytes (overlay k written stack))) =
      some (s.writeStart t c size k (U2k.ofBytes (overlay k written stack))) := by simp [step, ht, hc]
  have hnone : s.getRequestById (s.conn c).waiting (U2k.ofBytes (overlay k written stack)).id = none ↔
      ∀ p ∈ (s.conn c).waiting, (s.req p).id ≠ field 0 8 (overlay k written stack) := by
    simp [Kernel.getRequestById, U2k.ofBytes]
  constructor
  · intro hwhole
    by_cases hfull : k = sizeofU2k
    · exact .inl hfull
    · right
      obtain ⟨e, hneg, hres⟩ := hwhole.short (by omega)
      rw [hstep, Kernel.writeStart, if_neg (by omega)] at hres
      by_cases hzero : k = 0
      · rw [if_pos hzero] at hres
        have hcall := congrArg (fun s => (s.call t)) (Option.some.inj hres)
        simp only [Kernel.setCall_call, Function.update_self] at hcall
        cases hcall
        exact absurd hneg (by decide)
      · rw [if_neg hzero] at hres
        refine ⟨Nat.pos_of_ne_zero hzero, hnone.1 ?_⟩
        cases hfound : s.getRequestById (s.conn c).waiting (U2k.ofBytes (overlay k written stack)).id with
        | none => rfl
        | some p =>
          -- the request has left the waiting list
          rw [hfound] at hres
          have hcall := congrArg (fun s => (s.call t)) (Option.some.inj hres)
          simp only [Kernel.setCall_call, Function.update_self] at hcall
          cases hcall
  · intro hgood
    refine ⟨fun hshort => ?_, fun hfull => ?_⟩
    · rcases hgood with hfull | ⟨hpos, hids⟩
      · omega
      · refine ⟨-eINVAL, by decide, ?_⟩
        rw [hstep, Kernel.writeStart, if_neg (by omega), if_neg (by omega), hnone.2 hids]
    · rw [hfull, overlay_header hw hs]

/-! ## Reads -/

/-- Nobody has assigned the `int_result` of a report-zones request that has not been
    ended. -/
def ZonesUnset (r : BiusRequest) : Prop := r.type = .reportZones → r.sem = 0 → r.intResult = none

theorem zonesUnset_rewritten {cfg : Config} {busy : Bool} {sending : Prop} {r r' : BiusRequest}
    (h : Rewritten cfg busy sending r r') (hr : ZonesUnset r) : ZonesUnset r' := by
  cases h with
  | same => exact hr
  | queued id rq _ => exact fun ht => absurd ht (toBiusRequest_ne_reportZones rq.op)
  | zones id sector n blkz _ _ _ => exact fun _ _ => rfl
  | later => exact hr
  | mapped vmStart _ _ _ =>
    obtain ⟨_, _, _, heq⟩ := biusMapData_keeps r vmStart (rqForEachSegment r.rq)
    rw [heq]
    exact hr
  | sent size cuts res _ hres =>
    obtain ⟨_, _, heq⟩ := biusSendData_keeps hres
    rw [heq]
    exact hr
  | failed =>
    intro ht hsem
    have hb : isBlkRequest r.type = false := by rw [show r.type = .reportZones from ht]; rfl
    simp [hb] at hsem
  | finished rq mapType pos blkResult hb _ _ =>
    intro ht
    rw [show r.type = .reportZones from ht] at hb
    cases hb
  | answered data intResult _ =>
    intro _ hsem
    cases hsem

/-- A request that a read has taken is on no waiting list, and its payload is sent by no
    other connection. -/
theorem taken_apart {cfg : Config} {s : Kernel} (h : Machine.Reach (step cfg) (fun _ _ => True) Kernel.init s)
    (hid : s.nextRequestId < 2 ^ 64) {t : Tid} {c : Nat} {p : Ptr} (ht : s.call t = .readTaken c p) :
    (∀ c', p ∉ (s.conn c').waiting) ∧ (∀ c', c' ≠ c → (s.conn c').sending ≠ some p) ∧
      ((s.req p).type = .reportZones → (s.req p).intResult = none) := by
  obtain ⟨loc, hl, -⟩ := reach_life h hid
  have hloc : loc p = .taken t c := (hl.taken t c p).1 (by simp [Kernel.life, ht, Call.hold])
  refine ⟨fun c' hmem => ?_, fun c' hne hsend => ?_, fun hz => ?_⟩
  · have hwait := (hl.waiting c' p).1 hmem
    rw [hloc] at hwait
    cases hwait
  · rcases hl.sending c' p hsend with hwait | ⟨t', htaken⟩
    · rw [hloc] at hwait
      cases hwait
    · rw [hloc] at htaken
      cases htaken
      exact hne rfl
  · have hblk : s.life.blk p = false := by simp [Kernel.life, hz, isBlkRequest]
    rcases hl.caller p hblk (by rw [hloc]; simp) with ⟨t', hfill⟩ | ⟨t', hwaits⟩
    · rw [hloc] at hfill
      cases hfill
    · have hsem : (s.req p).sem = 0 := by
        have hended := (hl.waits t' p hwaits).2.2.2
        rw [hloc] at hended
        by_contra hpos
        have hbad := hended.1 (Nat.pos_of_ne_zero hpos)
        cases hbad
      exact reach_request (P := ZonesUnset) (fun _ _ => rfl) (fun _ _ _ _ _ => zonesUnset_rewritten) h hid p hz hsem

theorem readWhole_iff {cfg : Config} {s : Kernel} (h : Machine.Reach (step cfg) (fun _ _ => True) Kernel.init s)
    (hid : s.nextRequestId < 2 ^ 64) {t : Tid} {c : Nat} {p : Ptr} (ht : s.call t = .readTaken c p) {k : Nat}
    (hk : k ≤ sizeofK2u) (hfits : (k2uHeader cfg.datamap ((s.conn c).vma.getD 0) (s.req p)).Fits) (pad₁ pad₂ : Nat)
    {buffer : List UInt8} (hb : buffer.length = sizeofK2u) :
    ReadWhole cfg s t c p k pad₁ pad₂ buffer ↔ k = sizeofK2u ∨ k = 0 ∧ isBlkRequest (s.req p).type = true := by
  obtain ⟨hwaiting, hsending, hunset⟩ := taken_apart h hid ht
  have hstep : step cfg s (.readSend t k) = some (s.readSend cfg t c p k) := by simp [step, ht]
  constructor
  · intro hwhole
    by_cases hfull : k = sizeofK2u
    · exact .inl hfull
    · right
      obtain ⟨s', hs', hapart, r, hended, -, herror⟩ := hwhole.short (by omega)
      rw [hstep] at hs'
      cases hs'
      by_cases hzero : k = 0
      · refine ⟨hzero, ?_⟩
        by_contra hzones
        -- `end_blk_request` has not assigned the `int_result`
        have htype : (s.req p).type = .reportZones := by simpa [isBlkRequest] using hzones
        rw [Kernel.readSend, if_pos hzero] at hended
        have hr : r = { s.req p with blkResult := blkStatus blkStsIoerr } := by
          simpa [Kernel.endBlkRequest] using hended.symm
        rw [if_neg hzones] at herror
        obtain ⟨calls, e, hres, hneg⟩ := herror 0 (fun _ => 0)
        rw [hr] at hres
        simp [Kernel.reportZonesEnd, hunset htype, Kernel.zonesLoop] at hres
        omega
      · -- the request is on the waiting list
        refine absurd ?_ (hapart c).1
        rw [Kernel.readSend, if_neg hzero]
        simp
  · intro hgood
    refine ⟨fun hshort => ?_, fun hfull => ?_⟩
    · rcases hgood with hfull | ⟨hzero, hblk⟩
      · omega
      · refine ⟨_, hstep, fun c' => ?_, { s.req p with blkResult := blkStatus blkStsIoerr }, ?_, rfl, ?_⟩
        · rw [Kernel.readSend, if_pos hzero]
          by_cases hc : c' = c
          · subst hc
            simpa [Kernel.endBlkRequest] using hwaiting c'
          · simpa [Kernel.endBlkRequest, hc] using ⟨hwaiting c', hsending c' hc⟩
        · rw [Kernel.readSend, if_pos hzero]
          simp [Kernel.endBlkRequest]
        · rw [if_pos hblk]
          have hioerr : blkStatus blkStsIoerr ≠ blkStsOk := by decide
          exact hioerr
    · have hpos : k ≠ 0 := by
        rw [hfull]
        decide
      refine ⟨⟨_, hstep, ?_⟩, ?_⟩
      · rw [Kernel.readSend, if_neg hpos]
        simp [hfull]
      · have hall := @overlay_all ((k2uHeader cfg.datamap ((s.conn c).vma.getD 0) (s.req p)).bytes pad₁ pad₂) buffer
          (by rw [K2u.bytes_length]; exact hb)
        rw [K2u.bytes_length, ← hfull] at hall
        rw [hall]
        exact K2u.ofBytes_bytes hfits pad₁ pad₂

/-- **When a header that comes in part does no harm.** A write whose header comes whole
    is acted on as written; one of which a part comes is refused exactly if what stands
    in the header then is, and one of which nothing comes returns 0. A command that is
    copied in part is counted as delivered; one of which nothing is copied is ended with
    an error exactly if it is that of a block request. -/
theorem headers_whole_iff {cfg : Config} {s : Kernel} (h : Machine.Reach (step cfg) (fun _ _ => True) Kernel.init s)
    (hid : s.nextRequestId < 2 ^ 64) :
    (∀ o umem mapped device c devices size k written stack, sizeofU2k ≤ size → k ≤ sizeofU2k →
      written.length = sizeofU2k → stack.length = sizeofU2k →
      (InitWhole o umem mapped device c devices size k written stack ↔
        k = sizeofU2k ∨ 0 < k ∧ InitRefused umem devices (overlay k written stack))) ∧
    (∀ t c size k written stack, s.call t = .idle → (s.conn c).attached = true → sizeofU2k ≤ size →
      k ≤ sizeofU2k →
      written.length = sizeofU2k → stack.length = sizeofU2k →
      (WriteWhole cfg s t c size k written stack ↔
        k = sizeofU2k ∨ 0 < k ∧ ∀ p ∈ (s.conn c).waiting, (s.req p).id ≠ field 0 8
          (overlay k written stack))) ∧
    (∀ t c p k pad₁ pad₂ buffer, s.call t = .readTaken c p → k ≤ sizeofK2u →
      (k2uHeader cfg.datamap ((s.conn c).vma.getD 0) (s.req p)).Fits → buffer.length = sizeofK2u →
      (ReadWhole cfg s t c p k pad₁ pad₂ buffer ↔ k = sizeofK2u ∨ k = 0 ∧
        isBlkRequest (s.req p).type = true)) := by
  refine ⟨?_, ?_, ?_⟩
  · intro o umem mapped device c devices size k written stack hsize hk hw hs
    exact initWhole_iff o umem mapped device c devices hsize hk hw hs
  · intro t c size k written stack ht hc hsize hk hw hs
    exact writeWhole_iff ht hc hsize hk hw hs
  · intro t c p k pad₁ pad₂ buffer ht hk hfits hb
    exact readWhole_iff h hid ht hk hfits pad₁ pad₂ hb

/-- A report-zones request has been taken by a read. -/
def zonesTaken : List Act :=
  [.attach 0, .reportZones (.blk 0) 5 0 1 (some (fun _ => 0)), .insert (.blk 0), .readStart (.user 0) 0 56 [],
   .readTake (.user 0)]

/-- The reply 64 to the request with id 1. -/
def replyBytes : List UInt8 := le 8 1 ++ (le 8 64 ++ le 8 0)

set_option maxRecDepth 2048 in
/-- All of the command is copied. And four bytes of a reply come, over a header full of
    sevens: no request has the id that this makes, and the write is refused. -/
theorem headers_whole_iff_zonesTaken :
    (∃ s, Machine.run (step ⟨false⟩) Kernel.init zonesTaken = some s ∧ s.call (.user 0) = .readTaken 0 5 ∧
      ReadWhole ⟨false⟩ s (.user 0) 0 5 56 0 0 (List.replicate 56 0)) ∧
    ∃ s, Machine.run (step ⟨false⟩) Kernel.init oneZone = some s ∧ (s.conn 0).waiting = [5] ∧
      WriteWhole ⟨false⟩ s (.user 0) 0 24 4 replyBytes (List.replicate 24 7) := by
  have hr : Machine.Reach (step ⟨false⟩) (fun _ _ => True) Kernel.init _ := ⟨zonesTaken, Machine.Steps.of_run rfl⟩
  have hr' : Machine.Reach (step ⟨false⟩) (fun _ _ => True) Kernel.init _ := ⟨oneZone, Machine.Steps.of_run rfl⟩
  obtain ⟨-, -, hread⟩ := headers_whole_iff hr (by decide)
  obtain ⟨-, hwrite, -⟩ := headers_whole_iff hr' (by decide)
  refine ⟨⟨_, rfl, by decide, (hread (.user 0) 0 5 56 0 0 (List.replicate 56 0) (by decide) (by decide) ?_
    (by decide)).2
    (.inl rfl)⟩, ⟨_, rfl, by decide, (hwrite (.user 0) 0 24 4 replyBytes (List.replicate 24 7) (by decide) (by decide)
    (by decide) (by decide) (by decide) (by decide)).2 (.inr ⟨by decide, by decide⟩)⟩⟩
  exact ⟨by decide, by decide, by decide, by decide, by decide⟩

set_option maxRecDepth 2048 in
/-- One byte of the reply comes, and the rest of the header happens to be zero: the
    request with id 1 is taken from the waiting list and answered. And four bytes of a
    command are copied: the request waits for its reply. -/
theorem headers_cut_short :
    (∃ s s', Machine.run (step ⟨false⟩) Kernel.init oneZone = some s ∧ (s.conn 0).waiting = [5] ∧
      step ⟨false⟩ s (.writeStart (.user 0) 0 24 1 (U2k.ofBytes (overlay 1 replyBytes (List.replicate 24 0)))) =
        some s' ∧
      (s'.conn 0).waiting = [] ∧ ¬ WriteWhole ⟨false⟩ s (.user 0) 0 24 1 replyBytes (List.replicate 24 0)) ∧
    (∃ s s', Machine.run (step ⟨false⟩) Kernel.init zonesTaken = some s ∧
      step ⟨false⟩ s (.readSend (.user 0) 4) = some s' ∧ (s'.conn 0).waiting = [5] ∧
      ¬ ReadWhole ⟨false⟩ s (.user 0) 0 5 4 0 0 (List.replicate 56 0)) := by
  refine ⟨⟨_, _, rfl, rfl, rfl, by decide, fun hwhole => ?_⟩, ⟨_, _, rfl, rfl, by decide, fun hwhole => ?_⟩⟩
  · rw [writeWhole_iff (by decide) (by decide) (by decide) (by decide) (by decide) (by decide)] at hwhole
    rcases hwhole with hfull | ⟨-, hids⟩
    · cases hfull
    · exact absurd (hids 5 (by decide)) (by decide)
  · obtain ⟨s', hs', hapart, -⟩ := hwhole.short (by decide)
    cases hs'
    exact absurd (hapart 0).1 (by decide)

end Bius
