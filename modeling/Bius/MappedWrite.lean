import Bius.Command
import Bius.Libbius
import Bius.MapCapacity

/- What userspace sees of a mapped request. `windowByte` and `windowWord` read the
   connection's window through its page table. After `bius_map_data` of a write,
   the window holds the request's bytes at the addresses of its segments
   (`window_segAddrs`), and the library's handler, walking the list page or the
   single range, hands the backend those bytes in order (`mappedWrite_calls`). The
   list page has no room for a terminator when it holds 256 entries: the handler
   then reads it from the next window page, which still shows the zero page
   (`windowWord_end`). -/
namespace Bius

/-! ## Reading through the window -/

/-- The byte at user address `va`. -/
def PhysMem.windowByte (m : PhysMem) (vmStart va : Nat) : UInt8 :=
  let off := (va - vmStart) % pageSize
  match m.ptes ((va - vmStart) / pageSize) with
  | .zero => 0
  | .data pfn => m.kmem (pageAddress pfn + off)
  | .reserved k =>
    if k < 2 then UInt8.ofNat (m.words (k * reserveBase + off / 8) / 256 ^ (off % 8)) else m.bounce k off

/-- The aligned 64-bit word at user address `va`. -/
def PhysMem.windowWord (m : PhysMem) (vmStart va : Nat) : Nat :=
  let off := (va - vmStart) % pageSize
  match m.ptes ((va - vmStart) / pageSize) with
  | .zero => 0
  | .data pfn => leWord (fun j => m.kmem (pageAddress pfn + off + j))
  | .reserved k =>
    if k < 2 then m.words (k * reserveBase + off / 8) else leWord (fun j => m.bounce k (off + j))

/-- The bytes of a segment in kernel memory. -/
def segBytes (kmem : Nat → UInt8) (s : Seg) : List UInt8 :=
  Bytes.slice kmem (pageAddress s.page + s.offset) s.len

/-- The concatenation of a request's segments. -/
def requestBytes (kmem : Nat → UInt8) (segs : List Seg) : List UInt8 := segs.flatMap (segBytes kmem)

/-- A function of the window addresses of the segments is a function of each
    segment's bytes. -/
theorem segAddrs_map {β : Type} (vmStart : Nat) (segs : List Seg) (f : Nat → β) (g : Seg → Nat → β)
    (h : ∀ i s, segs[i]? = some s → ∀ o < s.len, f (vmStart + i * pageSize + s.offset + o) = g s o) :
    (segAddrs vmStart segs).map f = segs.flatMap (fun s => (List.range s.len).map (g s)) := by
  induction segs using List.reverseRecOn with
  | nil => simp [segAddrs]
  | append_singleton segs s ih =>
    have ih := ih (fun i x hx => h i x (by
      rw [List.getElem?_append_left (List.getElem?_eq_some_iff.1 hx).1, hx]))
    rw [segAddrs_snoc, List.map_append, ih, List.flatMap_append]
    congr 1
    rw [List.flatMap_singleton, List.range'_eq_map_range, List.map_map]
    apply List.map_congr_left
    intro o ho
    exact h segs.length s (by simp) o (List.mem_range.1 ho)

theorem segAddrs_length (vmStart : Nat) (segs : List Seg) :
    (segAddrs vmStart segs).length = (segs.map Seg.len).sum := by
  have := congrArg List.length (segAddrs_map vmStart segs (fun _ => ()) (fun _ _ => ())
    (fun _ _ _ _ _ => rfl))
  simpa [List.length_flatMap] using this

theorem entryAddrs_length (es : List (Nat × Nat)) : (entryAddrs es).length = (es.map Prod.snd).sum := by
  simp [entryAddrs, List.length_flatMap]

/-- After the loop of a write, the window shows the request's bytes at the
    addresses of its segments. -/
theorem window_segAddrs {vmStart : Nat} {segs : List Seg} {m m' : PhysMem} (hok : ∀ s ∈ segs, s.Ok)
    (hk : m'.kmem = m.kmem)
    (hpte : ∀ i s, segs[i]? = some s →
      m'.ptes i = if s.full then .data s.page else .reserved (slotOf segs i))
    (hbounce : ∀ i s, segs[i]? = some s → s.full = false → m'.bounce (slotOf segs i) =
      Bytes.splice (fun _ => 0) s.offset (Bytes.slice m.kmem (pageAddress s.page + s.offset) s.len)) :
    (segAddrs vmStart segs).map (m'.windowByte vmStart) = requestBytes m.kmem segs := by
  rw [segAddrs_map vmStart segs (m'.windowByte vmStart)
    (fun s o => m.kmem (pageAddress s.page + s.offset + o))]
  · rfl
  intro i s hi o ho
  obtain ⟨_, hs⟩ := hok s (List.mem_of_getElem? hi)
  have hp := window_page vmStart i (o := s.offset + o) (by omega)
  rw [Nat.add_assoc (vmStart + i * pageSize)]
  simp only [PhysMem.windowByte, hp.1, hp.2, hpte i s hi]
  cases hf : s.full
  · have h2 := (slotOf_lt hi hf).1
    have hlen : o < (Bytes.slice m.kmem (pageAddress s.page + s.offset) s.len).length := by
      rw [Bytes.slice_length]; exact ho
    have hget := Bytes.slice_getElem? m.kmem (pageAddress s.page + s.offset) s.len o ho
    rw [List.getElem?_eq_getElem hlen, Option.some.injEq] at hget
    simp only [Bool.false_eq_true, if_false, if_neg (by omega : ¬ slotOf segs i < 2)]
    rw [hbounce i s hi hf, Bytes.splice_inside _ hlen, hget]
  · simp only [if_true, hk, ← Nat.add_assoc]

/-! ## `bius_map_data` as a whole -/

/-- The first entry starts at the first segment's offset in the window. -/
theorem listEntries_head (vmStart : Nat) (s : Seg) (segs : List Seg) :
    ∃ l es, listEntries vmStart (s :: segs) = (vmStart + s.offset, l) :: es := by
  induction segs using List.reverseRecOn with
  | nil => exact ⟨s.len, [], by simp [listEntries, runs, Runs.add]⟩
  | append_singleton segs t ih =>
    obtain ⟨l, es, ih⟩ := ih
    rw [← List.cons_append]
    simp only [listEntries, runs_snoc, Runs.add] at ih ⊢
    rw [ih]
    split
    · exact ⟨l, es ++ _, rfl⟩
    · cases es with
      | nil => exact ⟨l + t.len, [], rfl⟩
      | cons e es => exact ⟨l, growLast (e :: es) t.len, rfl⟩

section
variable {r : BiusRequest} (hr : r.mapType = .unmapped) (vmStart : Nat) {segs : List Seg}
  (hok : ∀ s ∈ segs, s.Ok)
include hr hok

/-- Several entries: the request becomes a list request, its list is shown in the
    window page after the segments, and the list is terminated. -/
theorem biusMapData_list (hes : 1 < (listEntries vmStart segs).length) :
    (biusMapData r vmStart segs).2 =
      { r with mapType := .list, mapData := vmStart + segs.length * pageSize,
               mappedSize := (segs.length + 1) * pageSize } ∧
    ∀ m : PhysMem, m.applyAll (biusMapData r vmStart segs).1 =
      (m.applyAll (mapSegments (requestIsWrite r.type) vmStart segs).eff).applyAll
        [.setPte segs.length (.reserved 0), .terminate (listEntries vmStart segs).length] := by
  have hc := mapSegments_counters (requestIsWrite r.type) vmStart hok
  have hsz : vmStart + segs.length * pageSize + pageSize - vmStart = (segs.length + 1) * pageSize := by
    rw [Nat.add_mul, Nat.one_mul]; omega
  simp only [biusMapData, hr, bne_self_eq_false, Bool.false_eq_true, if_false, hc.index, hc.addr, hc.page,
    gt_iff_lt, hes, if_true, hsz, applyAll_append, applyAll_cons, applyAll_nil]
  exact ⟨trivial, fun _ => rfl⟩

/-- One entry: the request becomes a simple one, at its first segment's offset. -/
theorem biusMapData_simple (hes : (listEntries vmStart segs).length = 1) :
    (∃ s rest, segs = s :: rest ∧ (biusMapData r vmStart segs).2 =
      { r with mapType := .simple, mapData := (vmStart + s.offset) % pageSize,
               mappedSize := segs.length * pageSize }) ∧
    ∀ m : PhysMem, m.applyAll (biusMapData r vmStart segs).1 =
      m.applyAll (mapSegments (requestIsWrite r.type) vmStart segs).eff := by
  have hc := mapSegments_counters (requestIsWrite r.type) vmStart hok
  obtain ⟨s, rest, rfl⟩ : ∃ s rest, segs = s :: rest := by
    cases segs with
    | nil => simp [listEntries, runs] at hes
    | cons s rest => exact ⟨s, rest, rfl⟩
  obtain ⟨l, es, hhead⟩ := listEntries_head vmStart s rest
  have hfirst := hc.first _ (by rw [hhead]; rfl)
  have hsz : vmStart + (s :: rest).length * pageSize - vmStart = (s :: rest).length * pageSize := by omega
  simp only [biusMapData, hr, bne_self_eq_false, Bool.false_eq_true, if_false, hc.index, hc.addr, hfirst,
    gt_iff_lt, hes, Nat.lt_irrefl, if_true, hsz, applyAll_append, applyAll_cons, applyAll_nil]
  exact ⟨⟨s, rest, rfl, rfl⟩, fun _ => rfl⟩

end

theorem listEntries_ne_nil {vmStart : Nat} {segs : List Seg} (h : 0 < (segs.map Seg.len).sum) :
    listEntries vmStart segs ≠ [] := by
  intro hnil
  have := congrArg List.length (listEntries_addrs vmStart segs)
  rw [hnil, segAddrs_length] at this
  simp [entryAddrs] at this
  omega

/-- The words of the list page and of the page behind it, read through the
    window: the entries, and a zero where they end. -/
theorem windowWord_entry (vmStart : Nat) {n e : Nat} {m : PhysMem} (hpte : m.ptes n = .reserved 0)
    (he : e < reserveBase / 2) :
    m.windowWord vmStart (vmStart + n * pageSize + 16 * e) = m.words (2 * e) ∧
    m.windowWord vmStart (vmStart + n * pageSize + 16 * e + 8) = m.words (2 * e + 1) := by
  have hb : reserveBase / 2 = 256 := by simp [reserveBase, pageSize]
  have h₁ := window_page vmStart n (o := 16 * e) (by simp only [pageSize]; omega)
  have h₂ := window_page vmStart n (o := 16 * e + 8) (by simp only [pageSize]; omega)
  rw [← Nat.add_assoc] at h₂
  have e₁ : 0 * reserveBase + 16 * e / 8 = 2 * e := by omega
  have e₂ : 0 * reserveBase + (16 * e + 8) / 8 = 2 * e + 1 := by omega
  simp only [PhysMem.windowWord, h₁, h₂, hpte, Nat.zero_lt_two, if_true, e₁, e₂, and_self]

theorem windowWord_end (vmStart : Nat) {n e : Nat} {m : PhysMem} (hpte : m.ptes n = .reserved 0)
    (hnext : m.ptes (n + 1) = .zero) (hterm : m.words (2 * e) = 0) (he : e ≤ reserveBase / 2) :
    m.windowWord vmStart (vmStart + n * pageSize + 16 * e) = 0 := by
  rcases Nat.lt_or_ge e (reserveBase / 2) with hlt | hge
  · rw [(windowWord_entry vmStart hpte hlt).1, hterm]
  · -- the list fills its page: the terminator is read from the next window page
    have hb : reserveBase / 2 = 256 := by simp [reserveBase, pageSize]
    have h := window_page vmStart (n + 1) (o := 0) (by simp [pageSize])
    rw [show vmStart + n * pageSize + 16 * e = vmStart + (n + 1) * pageSize + 0 by
      simp only [pageSize]; omega]
    simp only [PhysMem.windowWord, h, hnext]

/-! ## The library's calls -/

/-- A backend that records its write calls (address, offset, size) and accepts
    them all. -/
def recordWrites : BiusOperations (List (Nat × Nat × Nat)) where
  write := some (fun addr offset size calls => (calls ++ [(addr, offset, size)], blkStsOk))

/-- The calls for a list of ranges, from `offset` on. -/
def callsFrom : Nat → List (Nat × Nat) → List (Nat × Nat × Nat)
  | _, [] => []
  | offset, (a, l) :: es => (a, offset, l) :: callsFrom (offset + l) es

theorem callsFrom_offset (offset : Nat) (es : List (Nat × Nat)) (i : Nat) (c : Nat × Nat × Nat)
    (h : (callsFrom offset es)[i]? = some c) :
    c.2.1 = offset + (((callsFrom offset es).take i).map (fun c => c.2.2)).sum := by
  induction es generalizing offset i with
  | nil => simp [callsFrom] at h
  | cons e es ih =>
    obtain ⟨a, l⟩ := e
    cases i with
    | zero =>
      simp only [callsFrom, List.getElem?_cons_zero, Option.some.injEq] at h
      subst h
      simp
    | succ i =>
      simp only [callsFrom, List.getElem?_cons_succ] at h
      have := ih (offset + l) i h
      simp only [callsFrom, List.take_succ_cons, List.map_cons, List.sum_cons]
      omega

theorem callsFrom_sizes (offset : Nat) (es : List (Nat × Nat)) :
    ((callsFrom offset es).map (fun c => c.2.2)).sum = (es.map Prod.snd).sum := by
  induction es generalizing offset with
  | nil => rfl
  | cons e es ih => simp [callsFrom, ih]

theorem callsFrom_flatMap {β : Type} (offset : Nat) (es : List (Nat × Nat)) (f : Nat → β) :
    (callsFrom offset es).flatMap (fun c => (List.range' c.1 c.2.2).map f) = (entryAddrs es).map f := by
  induction es generalizing offset with
  | nil => rfl
  | cons e es ih => simp [callsFrom, ih, entryAddrs]

theorem callsFrom_length (offset : Nat) (es : List (Nat × Nat)) :
    (callsFrom offset es).length = es.length := by
  induction es generalizing offset with
  | nil => rfl
  | cons e es ih => simp [callsFrom, ih]

/-- The list handler makes one call for each entry and stops at the zero behind
    the last. -/
theorem datamapListLoop_calls (word : List (Nat × Nat × Nat) → Nat → Nat) (k2u : K2u)
    (hop : k2u.opcode = .write) : ∀ (es : List (Nat × Nat)) (fuel i offset : Nat) (first : Bool)
      (log : List (Nat × Nat × Nat)), es.length < fuel →
      (∀ s j a l, es[j]? = some (a, l) → a ≠ 0 ∧ word s (k2u.mappingData + 16 * (i + j)) = a ∧
        word s (k2u.mappingData + 16 * (i + j) + 8) = l) →
      (∀ s, word s (k2u.mappingData + 16 * (i + es.length)) = 0) →
      datamapListLoop recordWrites word k2u fuel i offset first 0 log =
        some (log ++ callsFrom offset es, blkStsOk, 0)
  | _, 0, _, _, _, _, hf, _, _ => by omega
  | [], fuel + 1, i, offset, first, log, _, _, hend => by
    have h := hend log
    simp only [List.length_nil, Nat.add_zero] at h
    simp only [datamapListLoop, h, if_true, callsFrom, List.append_nil]
  | (a, l) :: es, fuel + 1, i, offset, first, log, hf, hent, hend => by
    obtain ⟨ha, hw₁, hw₂⟩ := hent log 0 a l rfl
    simp only [Nat.add_zero] at hw₁ hw₂
    have ih := datamapListLoop_calls word k2u hop es fuel (i + 1) (offset + l) false
      (log ++ [(a, offset, l)]) (by simp only [List.length_cons] at hf; omega)
      (fun s j b k hj => by
        have := hent s (j + 1) b k (by simpa using hj)
        rwa [show i + (j + 1) = i + 1 + j by omega] at this)
      (fun s => by
        have := hend s
        rwa [List.length_cons, show i + (es.length + 1) = i + 1 + es.length by omega] at this)
    simp only [datamapListLoop, hw₁, hw₂, ha, if_false, listCall, hop, recordWrites] at ih ⊢
    simp [blkStsOk, callsFrom] at ih ⊢
    exact ih

/-! ## Mapped writes -/

/-- A request the mapped path serves: longer than the threshold, its segments
    inside single pages, within the list page and the bounce pages, and with a
    window page for every segment and the list (`window_of_limits`: the queue
    limits see to that); and the window of the connection, which mmap never places
    at address 0. -/
structure MapLayout (r : BiusRequest) (segs : List Seg) (vmStart : Nat) : Prop where
  unmapped : r.mapType = .unmapped
  long : biusMapDataThreshold < r.length
  ok : ∀ s ∈ segs, s.Ok
  sum : (segs.map Seg.len).sum = r.length
  window : segs.length < biusPtesPerCommand
  entries : (listEntries vmStart segs).length ≤ biusMaxSegments
  bounces : bouncePages segs ≤ biusMaxSegments
  aligned : vmStart % pageSize = 0
  nonzero : 0 < vmStart

theorem pages_le (segs : List Seg) :
    segs.length * pageSize ≤ (segs.map Seg.len).sum + bouncePages segs * pageSize := by
  induction segs with
  | nil => simp
  | cons s segs ih =>
    have hb : bouncePages (s :: segs) = (if s.full then 0 else 1) + bouncePages segs := by
      rw [← List.singleton_append, bouncePages_append, bouncePages_singleton]
    rw [hb, List.length_cons, List.map_cons, List.sum_cons, Nat.add_mul, Nat.add_mul]
    cases hf : s.full
    · simp only [Bool.false_eq_true, if_false]; omega
    · have := (Seg.full_iff.1 hf).2
      simp only [if_true]; omega

/-- At most `BIUS_MAX_SEGMENTS` physical segments of the default size fit the
    window. -/
theorem window_of_limits {segs : List Seg} (hb : bouncePages segs ≤ biusMaxSegments)
    (hl : (segs.map Seg.len).sum ≤ biusMaxSegments * blkMaxSegmentSize) :
    segs.length < biusPtesPerCommand := by
  have h := pages_le segs
  simp only [biusPtesPerCommand, biusMaxSizePerCommand, pageSize, biusMaxSegments, blkMaxSegmentSize] at *
  omega

section
variable {r : BiusRequest} {segs : List Seg} {vmStart : Nat} (h : MapLayout r segs vmStart)
include h

theorem MapLayout.inBounds : ∀ e ∈ (biusMapData r vmStart segs).1, e.InBounds :=
  biusMapData_inBounds h.unmapped vmStart h.ok h.entries h.window h.bounces

theorem MapLayout.entries_pos : 0 < (listEntries vmStart segs).length := by
  have hlong := h.long
  exact List.length_pos_iff.2 (listEntries_ne_nil (by rw [h.sum]; omega))

/-- Memory after `bius_map_data`: as the loop left it, but for the list page, which
    is shown behind the segments and terminated if there is more than one
    entry. -/
theorem MapLayout.memory (m : PhysMem) :
    ∃ m₁, Mapped (requestIsWrite r.type) vmStart segs m m₁ ∧
      (m.applyAll (biusMapData r vmStart segs).1).kmem = m₁.kmem ∧
      (m.applyAll (biusMapData r vmStart segs).1).bounce = m₁.bounce ∧
      (∀ i, i < segs.length → (m.applyAll (biusMapData r vmStart segs).1).ptes i = m₁.ptes i) ∧
      (∀ j, j < 2 * (listEntries vmStart segs).length ∨ reserveBase + 2 ≤ j →
        (m.applyAll (biusMapData r vmStart segs).1).words j = m₁.words j) ∧
      (1 < (listEntries vmStart segs).length →
        (m.applyAll (biusMapData r vmStart segs).1).words (2 * (listEntries vmStart segs).length) = 0 ∧
        (m.applyAll (biusMapData r vmStart segs).1).ptes segs.length = .reserved 0 ∧
        ∀ i, segs.length < i → (m.applyAll (biusMapData r vmStart segs).1).ptes i = m.ptes i) := by
  have hmap := mapSegments_mapped (requestIsWrite r.type) vmStart m h.ok h.entries
  have hbase : reserveBase = 512 := by simp [reserveBase, pageSize]
  have hlen := h.entries
  simp only [biusMaxSegments] at hlen
  refine ⟨_, hmap, ?_⟩
  rcases Nat.lt_or_eq_of_le h.entries_pos with hes | hes
  · rw [(biusMapData_list h.unmapped vmStart h.ok hes).2 m]
    simp only [applyAll_cons, applyAll_nil, PhysMem.apply]
    refine ⟨trivial, trivial, ?_, ?_, fun _ => ⟨?_, ?_, ?_⟩⟩
    · intro i hi
      rw [Function.update_of_ne (by omega)]
    · intro j hj
      rw [Function.update_of_ne (by omega), Function.update_of_ne (by omega)]
    · rw [Function.update_of_ne (by omega), Function.update_self]
    · rw [Function.update_self]
    · intro i hi
      rw [Function.update_of_ne (by omega), hmap.pteRest i (by omega)]
  · rw [(biusMapData_simple h.unmapped vmStart h.ok hes.symm).2 m]
    exact ⟨rfl, rfl, fun _ _ => rfl, fun _ _ => rfl, fun hlt => absurd hlt (by omega)⟩

/-- A single range starts at the first segment's offset and is as long as the
    request. -/
theorem MapLayout.simple (hes : (listEntries vmStart segs).length = 1) :
    ∃ off, listEntries vmStart segs = [(vmStart + off, r.length)] ∧
      (biusMapData r vmStart segs).2 =
        { r with mapType := .simple, mapData := off, mappedSize := segs.length * pageSize } := by
  obtain ⟨⟨s, rest, hsegs, hr'⟩, -⟩ := biusMapData_simple h.unmapped vmStart h.ok hes
  obtain ⟨l, es, hhead⟩ := listEntries_head vmStart s rest
  have hs := h.ok s (by rw [hsegs]; simp)
  have halign := h.aligned
  have hmod : (vmStart + s.offset) % pageSize = s.offset := by
    have := hs.1; have := hs.2
    simp only [pageSize] at *; omega
  refine ⟨s.offset, ?_, by rw [hr', hmod]⟩
  have hl := congrArg List.length (listEntries_addrs vmStart segs)
  rw [segAddrs_length, h.sum, entryAddrs_length] at hl
  rw [← hsegs] at hhead
  rw [hhead] at hes hl ⊢
  have : es = [] := List.eq_nil_of_length_eq_zero (by simpa using hes)
  subst this
  simpa using hl

/-- **Mapped writes.** The library, given the command of a mapped write, calls the
    backend's `write` once for each range; the offsets are consecutive from the
    request's position, the sizes add up to its length, the bytes the window
    shows at the addresses are the request's, and the list ends with a zero. -/
theorem mappedWrite_calls (hw : r.type = .write) {pos : Nat} (hpos : r.pos = pos) (hlt : pos < 2 ^ 63)
    {m : PhysMem} (hz : ∀ i, m.ptes i = .zero) {fuel : Nat} (hfuel : biusMaxSegments < fuel) :
    let r' := (biusMapData r vmStart segs).2
    let m' := m.applyAll (biusMapData r vmStart segs).1
    (∀ e ∈ (biusMapData r vmStart segs).1, e.InBounds) ∧
    ∃ calls, handleBlkCommand recordWrites (fun _ => m'.windowWord vmStart) fuel
        (k2uHeader true vmStart r') [] = some (calls, blkStsOk, 0) ∧
      calls.length = (listEntries vmStart segs).length ∧
      (∀ i c, calls[i]? = some c → c.2.1 = pos + ((calls.take i).map (fun c => c.2.2)).sum) ∧
      (calls.map (fun c => c.2.2)).sum = r.length ∧
      calls.flatMap (fun c => (List.range' c.1 c.2.2).map (m'.windowByte vmStart)) =
        requestBytes m.kmem segs ∧
      (r'.mapType = .list → m'.windowWord vmStart (r'.mapData + 16 * calls.length) = 0) := by
  intro r' m'
  refine ⟨h.inBounds, callsFrom pos (listEntries vmStart segs), ?_⟩
  have hwrite : requestIsWrite r.type = true := by rw [hw]; rfl
  have hoff : ((pos : Int) % 2 ^ 64).toNat = pos := by omega
  have hlen := h.entries
  have hbase : reserveBase = 512 := by simp [reserveBase, pageSize]
  rw [callsFrom_length, callsFrom_sizes, callsFrom_flatMap, ← entryAddrs_length, listEntries_addrs,
    segAddrs_length]
  simp only [biusMaxSegments] at hlen hfuel
  obtain ⟨m₁, hmap, hk, hb, hp, hwords, hlist⟩ := h.memory m
  rw [hwrite] at hmap
  have hbytes : (segAddrs vmStart segs).map (m'.windowByte vmStart) = requestBytes m.kmem segs := by
    refine window_segAddrs h.ok (hk.trans hmap.kmem) (fun i s hi => ?_) (fun i s hi hf => ?_)
    · exact (hp i (List.getElem?_eq_some_iff.1 hi).1).trans (hmap.pte i s hi)
    · exact (congrFun hb _).trans (hmap.bounce i s hi hf)
  suffices hgoal : handleBlkCommand recordWrites (fun _ => m'.windowWord vmStart) fuel
        (k2uHeader true vmStart r') [] =
      some (callsFrom pos (listEntries vmStart segs), blkStsOk, 0) ∧
      (r'.mapType = .list → m'.windowWord vmStart
        (r'.mapData + 16 * (listEntries vmStart segs).length) = 0) from
    ⟨hgoal.1, rfl, callsFrom_offset pos _, h.sum, hbytes, hgoal.2⟩
  rcases Nat.lt_or_eq_of_le h.entries_pos with hes | hes
  · -- a list of ranges
    have hr' := (biusMapData_list h.unmapped vmStart h.ok hes).1
    obtain ⟨hterm, hpte, hrest⟩ := hlist hes
    have hnext : m'.ptes (segs.length + 1) = .zero := by rw [hrest _ (by omega), hz]
    have hend := windowWord_end vmStart hpte hnext hterm (by omega)
    refine ⟨?_, fun _ => ?_⟩
    · have hk : k2uHeader true vmStart r' =
          ⟨r.id, .write, pos, r.length, vmStart, vmStart + segs.length * pageSize, .list⟩ := by
        simp only [r', hr', k2uHeader, hw, hpos, hoff]
        rfl
      rw [hk]
      simp only [handleBlkCommand, if_true]
      have hloop := datamapListLoop_calls (fun _ => m'.windowWord vmStart)
        ⟨r.id, .write, pos, r.length, vmStart, vmStart + segs.length * pageSize, .list⟩ rfl
        (listEntries vmStart segs) fuel 0 pos true [] (by omega) ?_ ?_
      · simpa using hloop
      · intro _ e a l he
        have hlt' := (List.getElem?_eq_some_iff.1 he).1
        have hmem := listEntries_mem h.ok (List.mem_of_getElem? he)
        have hnz := h.nonzero
        obtain ⟨hw₁, hw₂⟩ := windowWord_entry vmStart (e := e) hpte (by omega)
        obtain ⟨he₁, he₂⟩ := hmap.entry e a l he
        simp only [Nat.zero_add]
        exact ⟨by omega, by rw [hw₁, hwords _ (Or.inl (by omega)), he₁],
          by rw [hw₂, hwords _ (Or.inl (by omega)), he₂]⟩
      · intro _
        simpa only [Nat.zero_add] using hend
    · simp only [r', hr']
      exact hend
  · -- a single range
    obtain ⟨off, hent, hr'⟩ := h.simple hes.symm
    refine ⟨?_, fun hl => ?_⟩
    · have hk : k2uHeader true vmStart r' = ⟨r.id, .write, pos, r.length, vmStart, off, .simple⟩ := by
        simp only [r', hr', k2uHeader, hw, hpos, hoff]
        rfl
      rw [hk, hent]
      simp [handleBlkCommand, callOr, recordWrites, callsFrom]
    · simp [r', hr'] at hl

end

/-- A part of a page, 32 whole pages, and the start of another. -/
def sampleSegs : List Seg :=
  ⟨7, 512, 1024⟩ :: (List.range 32).map (fun i => ⟨100 + i, 0, 4096⟩) ++ [⟨300, 0, 512⟩]

/-- A request over them. -/
def sampleRequest (type : BiusReq) : BiusRequest :=
  { BiusRequest.blank with id := 1, type := type, pos := 8192, length := 132608 }

def sampleMem : PhysMem := ⟨fun a => UInt8.ofNat a, fun _ => 0, fun _ _ => 0, fun _ => .zero⟩

theorem sampleLayout (type : BiusReq) : MapLayout (sampleRequest type) sampleSegs 0x7f0000000000 where
  unmapped := rfl
  long := show biusMapDataThreshold < 132608 by decide
  ok := by
    intro s hs
    simp only [sampleSegs, List.cons_append, List.mem_cons, List.mem_append, List.mem_map,
      List.not_mem_nil, or_false] at hs
    rcases hs with rfl | ⟨i, _, rfl⟩ | rfl <;> simp [Seg.Ok, pageSize]
  sum := show (sampleSegs.map Seg.len).sum = 132608 by decide
  window := window_of_limits (by decide) (by decide)
  entries := by decide
  bounces := by decide
  aligned := by decide
  nonzero := by decide

/-- The library hands the sample write to the backend in two calls. -/
theorem mappedWrite_calls_sample :
    ∃ calls : List (Nat × Nat × Nat), calls.length = 2 ∧
      (calls.map (fun c => c.2.2)).sum = 132608 ∧
      calls.flatMap (fun c => (List.range' c.1 c.2.2).map
        ((sampleMem.applyAll (biusMapData (sampleRequest .write) 0x7f0000000000 sampleSegs).1).windowByte
          0x7f0000000000)) = requestBytes sampleMem.kmem sampleSegs := by
  obtain ⟨_, calls, _, hlen, _, hsum, hbytes, _⟩ :=
    mappedWrite_calls (sampleLayout .write) rfl (show (sampleRequest .write).pos = (8192 : Nat) from rfl)
      (by decide) (m := sampleMem) (fun _ => rfl) (show biusMaxSegments < 257 by decide)
  exact ⟨calls, by rw [hlen]; decide, hsum, hbytes⟩

end Bius
