import Mathlib.Algebra.Group.Nat.Defs
import Mathlib.Algebra.Ring.Int.Defs
import Mathlib.Data.List.Basic

/- The vocabulary the kernel module and the library share (`include/bius`), and
   the request the kernel module keeps for every operation in flight
   (`kernel/request.h`).

   Integers are `Nat` or `Int`; the widths that matter are written out where the
   code narrows a value (`blkStatus`, `toInt32`). The bytes a request's segments
   point to are kept in the segments themselves (`BVec.data`): two segments of
   the model never alias. The anonymous union of `struct bius_request` is kept as
   separate fields: `bio` to `blkResult` is the arm of a block request, `data` to
   `intResult` the arm of a report-zones request, and `intResult = none` says that
   nobody has assigned it. -/
namespace Bius

/-! Sizes and limits (`include/bius/config.h`, `kernel/connection.h`). -/

def pageSize : Nat := 4096
def sectorSize : Nat := 512
def biusMaxSegments : Nat := 256
def biusMaxSizePerCommand : Nat := 128 * 1024 * 1024
def biusPtesPerCommand : Nat := biusMaxSizePerCommand / pageSize
def biusMaxZones : Nat := 128 * 1024
def biusMapDataThreshold : Nat := 128 * 1024
def biusNumReservedPages : Nat := biusMaxSegments + 2

/-- `sizeof(struct blk_zone)`. -/
def sizeofBlkZone : Nat := 64
/-- `sizeof(struct bius_k2u_header)`. -/
def sizeofK2u : Nat := 56
/-- `sizeof(struct bius_u2k_header)`. -/
def sizeofU2k : Nat := 24

/-! Status codes and errors. -/

def blkStsOk : Nat := 0
def blkStsNotsupp : Nat := 1
def blkStsIoerr : Nat := 10

def eIO : Int := 5
def eINVAL : Int := 22
def eNOMEM : Int := 12

/-- A 64-bit value passed as the kernel's `blk_status_t`, an 8-bit type. -/
def blkStatus (reply : Int) : Nat := (reply % 256).toNat

/-- A 64-bit value passed as an `int`. -/
def toInt32 (x : Int) : Int := (x + 2 ^ 31) % 2 ^ 32 - 2 ^ 31

/-- A 64-bit pattern read as a signed value (`loff_t`). -/
def toInt64 (x : Int) : Int := (x + 2 ^ 63) % 2 ^ 64 - 2 ^ 63

/-- An integer converted to a 64-bit unsigned type. -/
def toU64 (x : Int) : Nat := (x % 2 ^ 64).toNat

/-- `unsigned long` subtraction. -/
def sub64 (a b : Nat) : Nat := (a + 2 ^ 64 - b) % 2 ^ 64

theorem sub64_of_le {a b : Nat} (h : b ≤ a) (ha : a < 2 ^ 64) : sub64 a b = a - b := by
  unfold sub64; omega

/-! Request and map types. -/

/-- `bius_req_t`, with `BIUS_INVALID_OP`. -/
inductive BiusReq where
  | create | connect | read | write | discard | ioctl | flush | reportZones
  | zoneOpen | zoneClose | zoneFinish | zoneAppend | zoneReset | zoneResetAll | invalidOp
  deriving DecidableEq, Repr

/-- `to_bius_request`: the block layer's operation numbers (`REQ_OP_READ = 0`,
    `WRITE = 1`, `FLUSH = 2`, `DISCARD = 3`; the zone operations keep theirs). -/
def toBiusRequest : Nat → BiusReq
  | 0 => .read
  | 1 => .write
  | 2 => .flush
  | 3 => .discard
  | 10 => .zoneOpen
  | 11 => .zoneClose
  | 12 => .zoneFinish
  | 13 => .zoneAppend
  | 15 => .zoneReset
  | 17 => .zoneResetAll
  | _ => .invalidOp

def isBlkRequest (type : BiusReq) : Bool := type != .reportZones

def requestMayHaveData (type : BiusReq) : Bool :=
  type == .read || type == .write || type == .zoneAppend

def requestIsWrite (type : BiusReq) : Bool := type == .write || type == .zoneAppend

theorem requestMayHaveData_of_isWrite {type : BiusReq} (h : requestIsWrite type = true) :
    requestMayHaveData type = true := by
  cases type <;> simp_all [requestIsWrite, requestMayHaveData]

theorem toBiusRequest_ne_reportZones (op : Nat) : toBiusRequest op ≠ .reportZones := by
  unfold toBiusRequest; split <;> simp

/-- `data_map_type_t`. -/
inductive DataMapType where
  | unmapped | simple | list
  deriving DecidableEq, Repr

/-- The command the kernel sends (`struct bius_k2u_header`). -/
structure K2u where
  id : Nat
  opcode : BiusReq
  offset : Nat
  length : Nat
  dataAddress : Nat
  mappingData : Nat
  dataMapType : DataMapType
  deriving DecidableEq, Repr

/-- The reply userspace writes (`struct bius_u2k_header`): any 64-bit id, reply
    and address. -/
structure U2k where
  id : Nat
  reply : Int
  userData : Nat
  deriving DecidableEq, Repr

/-! Segments and bios. -/

/-- A segment (`struct bio_vec`): where it starts and the bytes it spans. No
    segment is empty. -/
structure BVec where
  page : Nat
  offset : Nat
  data : List UInt8
  pos : 0 < data.length
  deriving DecidableEq

/-- What is left of a segment after its first `n` bytes. -/
def BVec.drop (v : BVec) (n : Nat) (h : n < v.data.length) : BVec where
  page := v.page + (v.offset + n) / pageSize
  offset := (v.offset + n) % pageSize
  data := v.data.drop n
  pos := by rw [List.length_drop]; omega

/-- The segment after its bytes have been overwritten. -/
def BVec.fill (v : BVec) (bs : List UInt8) (h : bs.length = v.data.length) : BVec :=
  { v with data := bs, pos := h ▸ v.pos }

/-- A bio: the segments its iterator has not passed yet. -/
structure Bio where
  vecs : List BVec
  deriving DecidableEq

/-- The bytes the bio's iterator has yet to pass, in order. -/
def Bio.bytes (b : Bio) : List UInt8 := b.vecs.flatMap BVec.data

/-- `bi_iter.bi_size`. -/
def Bio.biSize (b : Bio) : Nat := b.bytes.length

/-- The bytes of a bio chain. -/
def chainBytes (bios : List Bio) : List UInt8 := bios.flatMap Bio.bytes

@[simp] theorem chainBytes_nil : chainBytes [] = [] := rfl

@[simp] theorem chainBytes_cons (b : Bio) (bios : List Bio) :
    chainBytes (b :: bios) = b.bytes ++ chainBytes bios := rfl

/-- `bio_advance_iter` on the remaining segments. -/
def advanceVecs : List BVec → Nat → List BVec
  | [], _ => []
  | v :: vs, n =>
    if h : n < v.data.length then v.drop n h :: vs else advanceVecs vs (n - v.data.length)

/-- `bio_advance_iter`. -/
def Bio.advance (b : Bio) (n : Nat) : Bio := ⟨advanceVecs b.vecs n⟩

/-- `mp_bio_iter_iovec`: the bytes of the segment the iterator stands at. -/
def Bio.iovec (b : Bio) : List UInt8 :=
  match b.vecs with
  | [] => []
  | v :: _ => v.data

theorem advanceVecs_bytes (vs : List BVec) (n : Nat) :
    (advanceVecs vs n).flatMap BVec.data = (vs.flatMap BVec.data).drop n := by
  induction vs generalizing n with
  | nil => simp [advanceVecs]
  | cons v vs ih =>
    simp only [advanceVecs, List.flatMap_cons]
    split
    · next h =>
      rw [List.flatMap_cons, List.drop_append_of_le_length (Nat.le_of_lt h)]
      rfl
    · next h =>
      rw [ih, List.drop_append, List.drop_eq_nil_of_le (Nat.le_of_not_lt h), List.nil_append]

@[simp] theorem Bio.advance_bytes (b : Bio) (n : Nat) : (b.advance n).bytes = b.bytes.drop n :=
  advanceVecs_bytes b.vecs n

theorem Bio.iovec_take (b : Bio) {n : Nat} (h : n ≤ b.iovec.length) :
    b.iovec.take n = b.bytes.take n := by
  cases hv : b.vecs with
  | nil => simp [Bio.iovec, Bio.bytes, hv]
  | cons v vs =>
    simp only [Bio.iovec, hv] at h
    simp [Bio.iovec, Bio.bytes, hv, List.take_append_of_le_length h]

theorem Bio.iovec_length_le (b : Bio) : b.iovec.length ≤ b.biSize := by
  cases hv : b.vecs with
  | nil => simp [Bio.iovec, hv]
  | cons v vs => simp [Bio.iovec, Bio.biSize, Bio.bytes, hv]

theorem Bio.iovec_pos (b : Bio) (h : 0 < b.biSize) : 0 < b.iovec.length := by
  cases hv : b.vecs with
  | nil => simp [Bio.biSize, Bio.bytes, hv] at h
  | cons v vs => simpa [Bio.iovec, hv] using v.pos

/-- The block layer's request (`struct request`), as far as the module reads it.
    A request that carries data is as long as its bio chain. -/
structure Rq where
  op : Nat
  sector : Nat
  dataLen : Nat
  bios : List Bio
  len_eq : requestMayHaveData (toBiusRequest op) = true → dataLen = (chainBytes bios).length

theorem flush_len : requestMayHaveData (toBiusRequest 2) = true → 0 = (chainBytes []).length := by
  decide

/-- `struct bius_request`. `rq` is the bio chain of the block request it is
    embedded in, with the contents of its segments; `bio` is what `bius_send_data`
    has left of that chain. -/
structure BiusRequest where
  id : Nat
  type : BiusReq
  pos : Int
  length : Nat
  rq : List Bio
  bio : List Bio
  mapData : Nat
  mappedSize : Nat
  mapType : DataMapType
  blkResult : Nat
  data : List UInt8
  sem : Nat
  intResult : Option Int
  deriving DecidableEq

/-- A request nobody has filled in. -/
def BiusRequest.blank : BiusRequest :=
  ⟨0, .invalidOp, 0, 0, [], [], 0, 0, .unmapped, 0, [], 0, none⟩

/-- `request_io_done`. -/
def requestIoDone (r : BiusRequest) : Bool :=
  if r.mapType != .unmapped then true else r.mapData == 0

/-- What `bius_queue_rq` stores in the request of `rq` (the fields of the other
    arm of the union keep their old bits). -/
def initBlkRequest (old : BiusRequest) (id : Nat) (rq : Rq) : BiusRequest :=
  { old with
    id := id
    type := toBiusRequest rq.op
    pos := toInt64 (rq.sector * sectorSize : Nat)
    length := rq.dataLen
    rq := rq.bios
    bio := rq.bios
    mapType := .unmapped }

/-- What `bius_report_zones` stores in its request: `nrZones` zones asked for,
    and a buffer of `sizeof(struct blk_zone)` bytes for each of them. -/
def initZonesRequest (old : BiusRequest) (id sector nrZones : Nat) (blkz : List UInt8) : BiusRequest :=
  { old with
    id := id
    type := .reportZones
    pos := toInt64 (sector * sectorSize : Nat)
    length := nrZones
    data := blkz
    sem := 0
    intResult := none }

end Bius
