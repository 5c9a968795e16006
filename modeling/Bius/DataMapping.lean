import Mathlib.Logic.Function.Basic
import Bius.Lib.Bytes
import Bius.Request

/- The mapped data path (`kernel/data_mapping.c`, built with
   CONFIG_BIUS_DATAMAP). `bius_map_data` and its two companions are straight-line
   code around a few counters: what they store never decides where they store
   next. So each of them is modelled as the list of stores it makes, in program
   order, and `PhysMem.apply` says what one store does to the memory and to the
   page table of the connection's window. The same list serves the results about
   indices, about page-table entries and about bytes.

   The reserved pages of a connection are kept apart from the rest of kernel
   memory: page 0 (`mapping_list`) and page 1 (`reserve_mapping_list`) as 64-bit
   words, numbered from the start of page 0, the bounce pages as bytes. User
   addresses are below 2^47, so adding page sizes to them does not wrap. -/
namespace Bius

/-- A segment as `rq_for_each_segment` yields it: a page frame, an offset into it
    and a length. -/
structure Seg where
  page : Nat
  offset : Nat
  len : Nat
  deriving DecidableEq, Repr

/-- `page_address` of a page frame. -/
def pageAddress (pfn : Nat) : Nat := pfn * pageSize

/-- The single-page pieces of one physically contiguous range, in order: what is
    left of its first page, whole pages, and the rest. -/
def splitPages (page offset len : Nat) : List Seg :=
  let first := min (pageSize - offset) len
  let n := (len - first) / pageSize
  let tail := (len - first) % pageSize
  ⟨page, offset, first⟩ :: (List.range n).map (fun i => ⟨page + 1 + i, 0, pageSize⟩) ++
    (if tail = 0 then [] else [⟨page + 1 + n, 0, tail⟩])

/-- `rq_for_each_segment`. -/
def rqForEachSegment (bios : List Bio) : List Seg :=
  bios.flatMap (fun b => b.vecs.flatMap (fun v => splitPages v.page v.offset v.data.length))

/-- What a page-table entry of the window points to: the zero page (read-only),
    a page of the request, or a reserved page of the connection. -/
inductive Frame where
  | zero
  | data (pfn : Nat)
  | reserved (k : Nat)
  deriving DecidableEq, Repr

/-- One store of `bius_map_data` or `bius_unmap_data`. -/
inductive MapEffect where
  /-- `mapping_list[2 * i] = addr; mapping_list[2 * i + 1] = 0` -/
  | newEntry (i addr : Nat)
  /-- `mapping_list[2 * i - 1] += size` -/
  | growEntry (i size : Nat)
  /-- clear reserved page `k` and, for a write, copy `len` bytes from `addr + off`
      to offset `off` of it -/
  | bounce (k addr off len : Nat) (copy : Bool)
  /-- `set_pte_at` through `connection->ptes[i]` -/
  | setPte (i : Nat) (f : Frame)
  /-- `reserve_mapping_list[k] = addr` -/
  | setSlot (k addr : Nat)
  /-- `mapping_list[2 * i] = mapping_list[2 * i + 1] = 0` -/
  | terminate (i : Nat)
  /-- `flush_tlb_mm_range(mm, start, stop, PAGE_SHIFT, false)` -/
  | flushTlb (start stop : Nat)
  deriving DecidableEq, Repr

/-! ## `bius_map_data` -/

/-- The local variables of `bius_map_data`, `mapping_list[0]` as last stored, and
    the stores made so far. -/
structure MapState where
  listEntryIndex : Nat
  nextReservedPageNum : Nat
  userAddr : Nat
  userPageNum : Nat
  segmentEndAligned : Bool
  mapping0 : Nat
  eff : List MapEffect
  deriving DecidableEq, Repr

def MapState.init (vmStart : Nat) : MapState := ⟨0, 2, vmStart, 0, false, 0, []⟩

/-- A new list entry, unless the segment continues the previous one; then the
    entry grows by the segment's length. -/
def MapState.listEntry (st : MapState) (bvec : Seg) : MapState :=
  let st :=
    if !st.segmentEndAligned || bvec.offset != 0 then
      { st with
        listEntryIndex := st.listEntryIndex + 1
        mapping0 := if st.listEntryIndex = 0 then st.userAddr + bvec.offset else st.mapping0
        eff := st.eff ++ [.newEntry st.listEntryIndex (st.userAddr + bvec.offset)] }
    else st
  { st with eff := st.eff ++ [.growEntry st.listEntryIndex bvec.len] }

/-- The next window page shows a bounce page for `len` bytes at `off` of the
    data page `pfn`. -/
def MapState.mapReserved (st : MapState) (isWrite : Bool) (pfn off len : Nat) : MapState :=
  { st with
    nextReservedPageNum := st.nextReservedPageNum + 1
    userAddr := st.userAddr + pageSize
    userPageNum := st.userPageNum + 1
    eff := st.eff ++
      [.bounce st.nextReservedPageNum (pageAddress pfn) off len isWrite,
       .setPte st.userPageNum (.reserved st.nextReservedPageNum),
       .setSlot st.nextReservedPageNum (pageAddress pfn)] }

/-- The next window page shows the data page `pfn` itself. -/
def MapState.mapPage (st : MapState) (pfn : Nat) : MapState :=
  { st with
    userAddr := st.userAddr + pageSize
    userPageNum := st.userPageNum + 1
    eff := st.eff ++ [.setPte st.userPageNum (.data pfn)] }

/-- `while (remain_size >= PAGE_SIZE)`: `n` whole pages, mapped directly. -/
def MapState.mapPages (st : MapState) (pfn : Nat) : Nat → MapState
  | 0 => st
  | n + 1 => (st.mapPage pfn).mapPages (pfn + 1) n

/-- The body of the loop after a misaligned start: whole pages, then the rest. -/
def MapState.mapRest (st : MapState) (isWrite : Bool) (pfn remain : Nat) : MapState :=
  let n := remain / pageSize
  let st := st.mapPages pfn n
  if remain % pageSize > 0 then
    { st.mapReserved isWrite (pfn + n) 0 (remain % pageSize) with segmentEndAligned := false }
  else { st with segmentEndAligned := true }

/-- The body of the loop for one segment. -/
def mapSegment (isWrite : Bool) (st : MapState) (bvec : Seg) : MapState :=
  let st := st.listEntry bvec
  if bvec.offset ≠ 0 then
    let dataSizeInPage := min (pageSize - bvec.offset) bvec.len
    let st := st.mapReserved isWrite bvec.page bvec.offset dataSizeInPage
    if dataSizeInPage ≠ pageSize - bvec.offset then { st with segmentEndAligned := false }
    else st.mapRest isWrite (bvec.page + 1) (bvec.len - dataSizeInPage)
  else st.mapRest isWrite bvec.page bvec.len

/-- The loop of `bius_map_data`. -/
def mapSegments (isWrite : Bool) (vmStart : Nat) (segs : List Seg) : MapState :=
  segs.foldl (mapSegment isWrite) (MapState.init vmStart)

/-- `bius_map_data`: the stores it makes and the request it leaves. -/
def biusMapData (r : BiusRequest) (vmStart : Nat) (segs : List Seg) : List MapEffect × BiusRequest :=
  if r.mapType != .unmapped then ([], r)
  else
    let st := mapSegments (requestIsWrite r.type) vmStart segs
    if st.listEntryIndex > 1 then
      let size := st.userAddr + pageSize - vmStart
      (st.eff ++ [.setPte st.userPageNum (.reserved 0), .terminate st.listEntryIndex, .flushTlb vmStart size],
       { r with mapType := .list, mapData := st.userAddr, mappedSize := size })
    else
      let size := st.userAddr - vmStart
      if st.listEntryIndex = 1 then
        (st.eff ++ [.flushTlb vmStart size],
         { r with mapType := .simple, mapData := st.mapping0 % pageSize, mappedSize := size })
      else (st.eff ++ [.flushTlb vmStart size], { r with mapType := .unmapped, mappedSize := size })

/-! ## `bius_unmap_data` -/

/-- `bius_unmap_data`. -/
def biusUnmapData (r : BiusRequest) (vmStart : Nat) : List MapEffect × BiusRequest :=
  if r.mapType = .unmapped then ([], r)
  else
    ((List.range (r.mappedSize / pageSize)).map (fun i => .setPte i .zero) ++
       [.flushTlb vmStart r.mappedSize],
     { r with mapType := .unmapped })

/-! ## `bius_copy_in_misaligned_pages` -/

/-- One `memcpy` of the copy-in: `len` bytes from offset `start` of reserved page
    `slot` to offset `start` of the page `reserve_mapping_list[slot]` names. -/
structure CopyIn where
  slot : Nat
  start : Nat
  len : Nat
  deriving DecidableEq, Repr

/-- The copies for entry `i` of the list `w`, starting at bounce page `rp`. The
    offset of the entry is taken from word `i`, as the code has it, while its
    alignment is taken from word `2 * i`. -/
def copyInEntry (w : Nat → Nat) (i rp : Nat) : List CopyIn :=
  let front : List CopyIn :=
    if w (2 * i) % pageSize = 0 then []
    else
      let offset := w i % pageSize
      if (offset + w (2 * i + 1)) % 2 ^ 64 < pageSize then [⟨rp, offset, w (2 * i + 1)⟩]
      else [⟨rp, offset, pageSize - offset⟩]
  let endAligned : Bool :=
    (w (2 * i) + w (2 * i + 1)) % pageSize == 0 ||
    (w (2 * i) % pageSize != 0 && (w i % pageSize + w (2 * i + 1)) % 2 ^ 64 < pageSize)
  if endAligned then front
  else front ++ [⟨rp + front.length, 0, (w i + w (2 * i + 1)) % pageSize⟩]

/-- The loop over the list `w` from entry `i` on; `none` when it has not ended
    within `fuel` entries. -/
def copyInLoop (w : Nat → Nat) : Nat → Nat → Nat → Option (List CopyIn)
  | 0, _, _ => none
  | fuel + 1, i, rp =>
    if w (2 * i) = 0 then some []
    else (copyInLoop w fuel (i + 1) (rp + (copyInEntry w i rp).length)).map (copyInEntry w i rp ++ ·)

/-- The list a simple mapping is copied in by. -/
def simpleMappingList (r : BiusRequest) (vmStart : Nat) : Nat → Nat
  | 0 => vmStart + r.mapData
  | 1 => r.length
  | _ => 0

/-- `bius_copy_in_misaligned_pages`: the copies it makes, where `words` are the
    words of the reserved pages. -/
def biusCopyInMisalignedPages (r : BiusRequest) (vmStart : Nat) (words : Nat → Nat) (fuel : Nat) :
    Option (List CopyIn) :=
  match r.mapType with
  | .unmapped => some []
  | .simple => copyInLoop (simpleMappingList r vmStart) fuel 0 2
  | .list => copyInLoop words fuel 0 2

/-! ## Memory -/

/-- The first word of `reserve_mapping_list`. -/
def reserveBase : Nat := pageSize / 8

/-- Eight bytes as a little-endian word. -/
def leWord (f : Nat → UInt8) : Nat :=
  (List.range 8).foldr (fun j acc => (f j).toNat + 256 * acc) 0

/-- Kernel memory and the page table of the window. -/
structure PhysMem where
  kmem : Nat → UInt8
  words : Nat → Nat
  bounce : Nat → Nat → UInt8
  ptes : Nat → Frame

/-- What one store does. -/
def PhysMem.apply (m : PhysMem) : MapEffect → PhysMem
  | .newEntry i addr =>
    { m with words := Function.update (Function.update m.words (2 * i) addr) (2 * i + 1) 0 }
  | .growEntry i size => { m with words := Function.update m.words (2 * i - 1) (m.words (2 * i - 1) + size) }
  | .bounce k addr off len copy =>
    { m with
      bounce := Function.update m.bounce k
        (if copy then Bytes.splice (fun _ => 0) off (Bytes.slice m.kmem (addr + off) len) else fun _ => 0) }
  | .setPte i f => { m with ptes := Function.update m.ptes i f }
  | .setSlot k addr => { m with words := Function.update m.words (reserveBase + k) addr }
  | .terminate i =>
    { m with words := Function.update (Function.update m.words (2 * i) 0) (2 * i + 1) 0 }
  | .flushTlb _ _ => m

/-- The stores of a call, in order. -/
def PhysMem.applyAll (m : PhysMem) (eff : List MapEffect) : PhysMem := eff.foldl PhysMem.apply m

/-- Word `j` of the reserved pages. Behind the two list pages it is a word of a
    bounce page. -/
def PhysMem.word (m : PhysMem) (j : Nat) : Nat :=
  if j < 2 * reserveBase then m.words j
  else leWord (fun b => m.bounce (j / reserveBase) (j % reserveBase * 8 + b))

/-- What one `memcpy` of the copy-in does. -/
def PhysMem.copyIn (m : PhysMem) (c : CopyIn) : PhysMem :=
  { m with
    kmem := Bytes.splice m.kmem (m.word (reserveBase + c.slot) + c.start)
      (Bytes.slice (m.bounce c.slot) c.start c.len) }

def PhysMem.copyInAll (m : PhysMem) (cs : List CopyIn) : PhysMem := cs.foldl PhysMem.copyIn m

end Bius
