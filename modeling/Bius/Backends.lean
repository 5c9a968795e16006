import Mathlib.Algebra.Ring.Nat
import Bius.DataMapping
import Bius.Libbius
import Bius.ZoneLanded

/- The operations of `examples/ramdisk.c` and of `examples/zoned-ramdisk.c`, and how
   `handle_blk_command` runs them: on the contiguous data of a SIMPLE command, or range
   by range on a LIST command, whose list it reads from the memory of the process while
   the operations write there. `datamapListLoop_eq`: the loop over a list in memory is
   `listRun` over its entries.

   `ListAgrees` compares the two forms of one request. A read fills the ranges one
   behind the other with what it would have put into one (`reads_agree`), so a read
   never tells them apart, and neither does the plain ramdisk (`ramdisk_agrees`). -/
namespace Bius

/-! ## The operations -/

/-- A process that runs a backend: its memory, and the backend's own state. -/
structure Proc (δ : Type) where
  mem : Nat → UInt8
  dev : δ

section
variable {δ : Type}

/-- The `size` bytes at `addr`. -/
def Proc.load (p : Proc δ) (addr size : Nat) : List UInt8 := Bytes.slice p.mem addr size

/-- The 64-bit word at `addr`. -/
def Proc.word (p : Proc δ) (addr : Nat) : Nat := leWord (fun j => p.mem (addr + j))

/-- `operations` of `examples/ramdisk.c`. -/
def ramdiskOperations : BiusOperations (Proc (Nat → UInt8)) where
  read := some fun data offset length p =>
    let res := ramdisk.read p.dev offset length
    (⟨Bytes.splice p.mem data res.2.2, res.1⟩, rawStatus res.2.1)
  write := some fun data offset length p =>
    let res := ramdisk.write p.dev (p.load data length) offset
    (⟨p.mem, res.1⟩, rawStatus res.2)
  discard := some fun offset length p =>
    let res := ramdisk.discard p.dev offset length
    (⟨p.mem, res.1⟩, rawStatus res.2)
  flush := some fun p => (p, blkStsOk)

/-- A call of the zone emulator that only returns a status. -/
def zonedCall (cfg : ZonedConfig) (c : ZoneCall) (p : Proc (Zoned (Nat → UInt8))) :
    Proc (Zoned (Nat → UInt8)) × Nat :=
  let res := callAlone cfg ramdisk p.dev c
  (⟨p.mem, res.1⟩, res.2.status)

/-- `get_zoned_operations`, with the `flush` of `examples/zoned-ramdisk.c`. The
    callback `report_zones`, which `handle_blk_command` does not call, is left out. -/
def zonedOperations (cfg : ZonedConfig) : BiusOperations (Proc (Zoned (Nat → UInt8))) where
  read := some fun data offset length p =>
    let res := callAlone cfg ramdisk p.dev (.read offset length)
    (⟨Bytes.splice p.mem data res.2.bytes, res.1⟩, res.2.status)
  write := some fun data offset length p => zonedCall cfg (.write (p.load data length) offset) p
  flush := some fun p => (p, blkStsOk)
  openZone := some fun offset => zonedCall cfg (.openZone offset)
  closeZone := some fun offset => zonedCall cfg (.closeZone offset)
  finishZone := some fun offset => zonedCall cfg (.finishZone offset)
  appendZone := some fun data offset length out p =>
    let res := callAlone cfg ramdisk p.dev (.append (p.load data length) offset)
    (⟨p.mem, res.1⟩, res.2.status, if out then res.2.position else none)
  resetZone := some fun offset => zonedCall cfg (.resetZone offset)
  resetAllZone := some fun p => zonedCall cfg .resetAllZone p

end

/-! ## The loop over the entries -/

section
variable {σ : Type} (ops : BiusOperations σ) (opcode : BiusReq)

/-- The loop of `handle_blk_command_with_datamap_list` over the entries `es`. -/
def listRun : Nat → Bool → Nat → σ → List (Nat × Nat) → σ × Nat × Nat
  | _, _, out, s, [] => (s, blkStsOk, out)
  | offset, first, out, s, (addr, size) :: es =>
    let res := listCall ops opcode addr offset size first out s
    if res.2.2.2 || res.2.1 != blkStsOk then (res.1, res.2.1, res.2.2.1)
    else listRun (offset + size) false res.2.2.1 res.1 es

variable {ops opcode}

/-- Where the memory of the process holds the entries `es` and the terminator
    throughout (`L`), the loop goes over them. -/
theorem datamapListLoop_eq {word : σ → Nat → Nat} {k2u : K2u} {L : σ → Prop} :
    ∀ (es : List (Nat × Nat)) {fuel i : Nat} (offset : Nat) (first : Bool) (out : Nat) (s : σ), es.length < fuel →
      (∀ s, L s → ∀ j a l, es[j]? = some (a, l) → a ≠ 0 ∧ word s (k2u.mappingData + 16 * (i + j)) = a ∧
        word s (k2u.mappingData + 16 * (i + j) + 8) = l) →
      (∀ s, L s → word s (k2u.mappingData + 16 * (i + es.length)) = 0) →
      (∀ s, L s → ∀ a l, (a, l) ∈ es → ∀ offset first out, L
        (listCall ops k2u.opcode a offset l first out s).1) →
      L s → datamapListLoop ops word k2u fuel i offset first out s = some (listRun ops k2u.opcode offset first out s es)
  | _, 0, _, _, _, _, _, hf, _, _, _, _ => by omega
  | [], fuel + 1, i, offset, first, out, s, _, _, hend, _, hs => by
    have h := hend s hs
    simp only [List.length_nil, Nat.add_zero] at h
    simp only [datamapListLoop, h, if_true, listRun]
  | (a, l) :: es, fuel + 1, i, offset, first, out, s, hf, hent, hend, hkeep, hs => by
    obtain ⟨ha, hw₁, hw₂⟩ := hent s hs 0 a l rfl
    simp only [Nat.add_zero] at hw₁ hw₂
    simp only [datamapListLoop, listRun, hw₁, hw₂, ha, if_false]
    split
    · rfl
    · refine datamapListLoop_eq es _ _ _ _ (by simp only [List.length_cons] at hf; omega) (fun s hs j b k hj => ?_)
        (fun s hs => ?_) (fun s hs b k hb => hkeep s hs b k (List.mem_cons_of_mem _ hb))
        (hkeep s hs a l (by simp) _ _ _)
      · have := hent s hs (j + 1) b k (by simpa using hj)
        rwa [show i + (j + 1) = i + 1 + j by omega] at this
      · have := hend s hs
        rwa [List.length_cons, show i + (es.length + 1) = i + 1 + es.length by omega] at this

end

/-! ## One request in two forms -/

section
variable {δ κ : Type} {p q : Proc δ} {k k' : K2u} {es : List (Nat × Nat)}

/-- The total size of the entries. -/
def entriesSize (es : List (Nat × Nat)) : Nat := (es.map Prod.snd).sum

/-- The bytes in the ranges of the entries. -/
def Proc.gather (p : Proc δ) (es : List (Nat × Nat)) : List UInt8 := es.flatMap (fun e => p.load e.1 e.2)

/-- The LIST command `k` in the process `p` and the SIMPLE command `k'` in the process
    `q` are the same request: the ranges of `k` are not empty, apart from one another and
    from the list, and hold (unless they are to be read into) the data of `k'`. -/
structure TwoForms (p q : Proc δ) (k k' : K2u) (es : List (Nat × Nat)) : Prop where
  list : k.dataMapType = .list
  simple : k'.dataMapType = .simple
  opcode : k'.opcode = k.opcode
  offset : k'.offset = k.offset
  length : k'.length = entriesSize es
  nonempty : es ≠ []
  sectors : ∀ e ∈ es, 0 < e.2 ∧ sectorSize ∣ e.2
  entry : ∀ j a l, es[j]? = some (a, l) →
    a ≠ 0 ∧ p.word (k.mappingData + 16 * j) = a ∧ p.word (k.mappingData + 16 * j + 8) = l
  terminator : p.word (k.mappingData + 16 * es.length) = 0
  apart : es.Pairwise (fun e e' => e.1 + e.2 ≤ e'.1 ∨ e'.1 + e'.2 ≤ e.1)
  listApart : ∀ e ∈ es, e.1 + e.2 ≤ k.mappingData ∨ k.mappingData + 16 * es.length + 8 ≤ e.1
  data : k.opcode ≠ .read → q.load (k'.dataAddress + k'.mappingData) k'.length = p.gather es
  dev : q.dev = p.dev

/-- The two forms of a request end alike: with the same status and the same device, for
    a read with the same bytes in the ranges, and for an append that succeeds with the
    same position. -/
def ListAgrees (ops : BiusOperations (Proc δ)) (device : δ → κ) (fuel : Nat) (p q : Proc δ) (k k' : K2u)
    (es : List (Nat × Nat)) : Prop :=
  ∃ x y, handleBlkCommand ops Proc.word fuel k p = some x ∧ handleBlkCommand ops Proc.word fuel k' q = some y ∧
    x.2.1 = y.2.1 ∧ device x.1.dev = device y.1.dev ∧
    (k.opcode = .read → x.1.gather es = y.1.load (k'.dataAddress + k'.mappingData) k'.length) ∧
    (k.opcode = .zoneAppend → y.2.1 = blkStsOk → x.2.2 = y.2.2)

theorem gather_cons (p : Proc δ) (a l : Nat) (es : List (Nat × Nat)) :
    p.gather ((a, l) :: es) = p.load a l ++ p.gather es := rfl

theorem entriesSize_cons (a l : Nat) (es : List (Nat × Nat)) : entriesSize ((a, l) :: es) = l + entriesSize es := by
  simp [entriesSize]

theorem load_length (p : Proc δ) (a l : Nat) : (p.load a l).length = l := Bytes.slice_length _ _ _

theorem word_congr {p p' : Proc δ} {addr : Nat} (h : ∀ x, addr ≤ x → x < addr + 8 → p'.mem x = p.mem x) :
    p'.word addr = p.word addr := by
  simp only [Proc.word, leWord, List.range, List.range.loop, List.foldr]
  congr 2 <;> grind

/-- The callbacks write only to the range they are given. -/
def WritesInside (ops : BiusOperations (Proc δ)) : Prop :=
  ∀ opcode a offset l first out (p : Proc δ) x, x < a ∨ a + l ≤ x →
    (listCall ops opcode a offset l first out p).1.mem x = p.mem x

theorem TwoForms.handle_list (h : TwoForms p q k k' es) {ops : BiusOperations (Proc δ)} (hops : WritesInside ops)
    {fuel : Nat} (hf : es.length < fuel) :
    handleBlkCommand ops Proc.word fuel k p = some (listRun ops k.opcode k.offset true 0 p es) := by
  rw [handleBlkCommand, if_pos h.list]
  -- the list is where it was as long as only ranges are written to
  refine datamapListLoop_eq (L := fun s => ∀ x, k.mappingData ≤ x → x < k.mappingData + 16 * es.length + 8 →
    s.mem x = p.mem x) es _ _ _ _ hf (fun s hs j a l hj => ?_) (fun s hs => ?_)
      (fun s hs a l he offset first out x hx hx' => ?_)
    (fun _ _ _ => rfl)
  · have hlt := (List.getElem?_eq_some_iff.1 hj).1
    rw [Nat.zero_add, word_congr (fun x hx hx' => hs x (by omega) (by omega)),
      word_congr (fun x hx hx' => hs x (by omega) (by omega))]
    exact h.entry j a l hj
  · rw [Nat.zero_add, word_congr (fun x hx hx' => hs x (by omega) (by omega))]
    exact h.terminator
  · have hap := h.listApart _ he
    dsimp only at hap
    rw [hops _ _ _ _ _ _ _ _ (by omega)]
    exact hs x hx hx'

/-- A SIMPLE command makes the call of a list with one entry. -/
theorem TwoForms.handle_simple (h : TwoForms p q k k' es) (ops : BiusOperations (Proc δ)) (fuel : Nat)
    (hop : k.opcode ∈ [.read, .write, .zoneAppend]) :
    ∃ out, handleBlkCommand ops Proc.word fuel k' q =
        some ((listCall ops k.opcode (k'.dataAddress + k'.mappingData) k.offset k'.length true 0 q).1,
          (listCall ops k.opcode (k'.dataAddress + k'.mappingData) k.offset k'.length true 0 q).2.1, out) ∧
      (k.opcode = .zoneAppend →
        out = (listCall ops k.opcode (k'.dataAddress + k'.mappingData) k.offset k'.length true 0 q).2.2.1) := by
  have hsimple := h.simple
  rw [handleBlkCommand, if_neg (by rw [hsimple]; decide), h.opcode, h.offset]
  simp only [List.mem_cons, List.not_mem_nil, or_false] at hop
  rcases hop with hop | hop | hop <;> rw [hop]
  · cases hr : ops.read <;> simp [listCall, callOr, hr]
  · cases hr : ops.write <;> simp [listCall, callOr, hr]
  · cases hr : ops.appendZone <;> simp [listCall, hr]

/-! ## Reads -/

/-- The callback of a read copies from the disk and changes nothing else. -/
def ReadsDisk (ops : BiusOperations (Proc δ)) (disk : δ → Nat → UInt8) : Prop :=
  ops.read = some fun data offset length p =>
    (⟨Bytes.splice p.mem data (Bytes.slice (disk p.dev) offset length), p.dev⟩, blkStsOk)

section
variable {ops : BiusOperations (Proc δ)} {disk : δ → Nat → UInt8} (hops : ReadsDisk ops disk)
include hops

theorem listCall_read (a offset l : Nat) (first : Bool) (out : Nat) (p : Proc δ) :
    listCall ops .read a offset l first out p =
      (⟨Bytes.splice p.mem a (Bytes.slice (disk p.dev) offset l), p.dev⟩, blkStsOk, out, false) := by
  unfold ReadsDisk at hops
  simp only [listCall, hops]

/-- A read over a list succeeds; the ranges hold the disk from `offset` on, and the rest
    of the memory is as it was. -/
theorem listRun_read (es : List (Nat × Nat)) (offset : Nat) (first : Bool) (out : Nat) (p : Proc δ)
    (hap : es.Pairwise (fun e e' => e.1 + e.2 ≤ e'.1 ∨ e'.1 + e'.2 ≤ e.1)) :
    ∃ mem, listRun ops .read offset first out p es = (⟨mem, p.dev⟩, blkStsOk, out) ∧
      (⟨mem, p.dev⟩ : Proc δ).gather es = Bytes.slice (disk p.dev) offset (entriesSize es) ∧
      ∀ x, (∀ e ∈ es, x < e.1 ∨ e.1 + e.2 ≤ x) → mem x = p.mem x := by
  induction es generalizing offset first p with
  | nil => exact ⟨p.mem, rfl, rfl, fun _ _ => rfl⟩
  | cons e es ih =>
    obtain ⟨a, l⟩ := e
    obtain ⟨hhead, hap⟩ := List.pairwise_cons.1 hap
    rw [listRun, listCall_read hops]
    obtain ⟨mem, hrun, hgather, houtside⟩ := ih (offset + l) false
      ⟨Bytes.splice p.mem a (Bytes.slice (disk p.dev) offset l), p.dev⟩ hap
    refine ⟨mem, hrun, ?_, fun x hx => ?_⟩
    · -- the later ranges do not touch this one
      have hkept : (⟨mem, p.dev⟩ : Proc δ).load a l = Bytes.slice (disk p.dev) offset l := by
        calc Bytes.slice mem a l
            = Bytes.slice (Bytes.splice p.mem a (Bytes.slice (disk p.dev) offset l)) a l := by
              refine Bytes.slice_congr (fun x hx hx' => houtside x (fun e he => ?_))
              have := hhead e he
              dsimp only at this
              omega
          _ = Bytes.slice (disk p.dev) offset l := by
              have := Bytes.slice_splice p.mem a (Bytes.slice (disk p.dev) offset l)
              rwa [Bytes.slice_length] at this
      rw [gather_cons, hkept, hgather, entriesSize_cons, Bytes.slice_add]
    · rw [houtside x (fun e he => hx e (List.mem_cons_of_mem _ he))]
      apply Bytes.splice_outside _
      rw [Bytes.slice_length]
      exact hx (a, l) (by simp)

theorem reads_agree (h : TwoForms p q k k' es) (hin : WritesInside ops) (device : δ → κ) (hop : k.opcode = .read)
    {fuel : Nat} (hf : es.length < fuel) : ListAgrees ops device fuel p q k k' es := by
  obtain ⟨out, hsimple, -⟩ := h.handle_simple ops fuel (by rw [hop]; simp)
  obtain ⟨mem, hrun, hgather, -⟩ := listRun_read hops es k.offset true 0 p h.apart
  rw [hop, listCall_read hops] at hsimple
  rw [← hop] at hrun
  refine ⟨_, _, h.handle_list hin hf, hsimple, ?_, ?_, fun _ => ?_, fun h' => absurd h' (by rw [hop]; decide)⟩
  · rw [hrun]
  · rw [hrun]
    exact congrArg device h.dev.symm
  · rw [hrun]
    show (⟨mem, p.dev⟩ : Proc δ).gather es = Bytes.slice (Bytes.splice q.mem _ _) _ _
    have hread := Bytes.slice_splice q.mem (k'.dataAddress + k'.mappingData)
      (Bytes.slice (disk q.dev) k.offset k'.length)
    rw [Bytes.slice_length] at hread
    rw [hgather, hread, h.dev, h.length]

end

/-! ## The ramdisk -/

theorem ramdisk_readsDisk : ReadsDisk ramdiskOperations id := rfl

theorem ramdisk_writesInside : WritesInside ramdiskOperations := by
  intro opcode a offset l first out p x hx
  cases opcode with
  | read =>
    apply Bytes.splice_outside _
    show x < a ∨ a + (Bytes.slice p.dev offset l).length ≤ x
    rwa [Bytes.slice_length]
  | _ => rfl

/-- A write over a list puts the data of the ranges one behind the other. -/
theorem listRun_ramdisk_write (es : List (Nat × Nat)) (offset : Nat) (first : Bool) (out : Nat)
    (p : Proc (Nat → UInt8)) :
    listRun ramdiskOperations .write offset first out p es =
      (⟨p.mem, Bytes.splice p.dev offset (p.gather es)⟩, blkStsOk, out) := by
  induction es generalizing offset first p with
  | nil => rw [listRun, Proc.gather, List.flatMap_nil, Bytes.splice_nil]
  | cons e es ih =>
    obtain ⟨a, l⟩ := e
    have hcall : listCall ramdiskOperations .write a offset l first out p =
        (⟨p.mem, Bytes.splice p.dev offset (p.load a l)⟩, blkStsOk, out, false) := rfl
    rw [listRun, hcall]
    refine (ih (offset + l) false ⟨p.mem, Bytes.splice p.dev offset (p.load a l)⟩).trans ?_
    have happ := Bytes.splice_append p.dev offset (p.load a l) (p.gather es)
    rw [load_length] at happ
    rw [gather_cons, ← happ]
    rfl

/-- On the plain ramdisk the two forms of a request end alike. -/
theorem ramdisk_agrees {p q : Proc (Nat → UInt8)} (h : TwoForms p q k k' es)
    (hop : k.opcode ∈ [.read, .write, .zoneAppend]) {fuel : Nat} (hf : es.length < fuel) :
    ListAgrees ramdiskOperations id fuel p q k k' es := by
  obtain ⟨out, hsimple, hout⟩ := h.handle_simple ramdiskOperations fuel hop
  have hlist := h.handle_list ramdisk_writesInside hf
  simp only [List.mem_cons, List.not_mem_nil, or_false] at hop
  rcases hop with hop | hop | hop
  · exact reads_agree ramdisk_readsDisk h ramdisk_writesInside id hop hf
  · have hdata := h.data (by rw [hop]; decide)
    rw [hop] at hsimple hlist
    refine ⟨_, _, hlist, hsimple, ?_, ?_, fun h' => absurd h' (by rw [hop]; decide),
      fun h' => absurd h' (by rw [hop]; decide)⟩
    · rw [listRun_ramdisk_write]
      rfl
    · rw [listRun_ramdisk_write, ← hdata, ← h.dev]
      rfl
  · -- the ramdisk has no append
    rw [hop] at hsimple hlist
    obtain ⟨⟨a, l⟩, rest, rfl⟩ := List.exists_cons_of_ne_nil h.nonempty
    refine ⟨_, _, hlist, hsimple, rfl, h.dev.symm, fun h' => absurd h' (by rw [hop]; decide), fun _ hst => ?_⟩
    exact absurd hst (by change ¬ blkStsNotsupp = blkStsOk; decide)

end

end Bius
