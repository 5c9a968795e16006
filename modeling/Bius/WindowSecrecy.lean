import Bius.MappedWrite

/- What of kernel memory the window shows besides the request. Two runs of
   `bius_map_data` on memories that agree on the bytes of the request's segments
   (`SameRequest`) may be told apart through the window only by the list page: the
   data pages it shows belong to the request, the bounce pages are cleared first,
   but `kmalloc` does not clear the reserved pages, and of the list page only the
   entries and the terminator are stored. It is shown when there is more than one
   run of adjacent segments, and it is filled by 255 of them or more
   (`window_private_iff`). -/
namespace Bius

/-- The window of a connection that has mapped nothing yet; the reserved pages hold
    what was in them when they were allocated. -/
def PhysMem.Opened (m : PhysMem) : Prop := ∀ i, m.ptes i = .zero

/-- The memories agree on the bytes of the request. -/
def SameRequest (segs : List Seg) (m m' : PhysMem) : Prop :=
  ∀ s ∈ segs, segBytes m.kmem s = segBytes m'.kmem s

/-- How many runs of adjacent segments there are: a segment continues the run before
    it if that ended with its page and the segment starts with its own. -/
def segRuns : Bool → List Seg → Nat
  | _, [] => 0
  | aligned, s :: segs => (if !aligned || s.offset != 0 then 1 else 0) + segRuns s.endAligned segs

theorem foldl_add_length (segs : List Seg) (rs : Runs) :
    (segs.foldl Runs.add rs).entries.length = rs.entries.length + segRuns rs.aligned segs := by
  induction segs generalizing rs with
  | nil => simp [segRuns]
  | cons s segs ih =>
    rw [List.foldl_cons, ih]
    simp only [Runs.add, segRuns]
    split
    · rw [List.length_append, List.length_singleton, Nat.add_assoc]
    · rw [growLast_length, Nat.zero_add]

theorem listEntries_length (vmStart : Nat) (segs : List Seg) :
    (listEntries vmStart segs).length = segRuns false segs := by
  rw [listEntries, runs, foldl_add_length]
  simp

/-! ## The list page -/

/-- A store of the loop leaves the list page behind the entries alone. -/
theorem apply_words {e : MapEffect} {n p b j : Nat} (he : e.Within n p b) (hn : 0 < n) (hj : 2 * n ≤ j)
    (hjr : j < reserveBase) (m : PhysMem) : (m.apply e).words j = m.words j := by
  cases e with
  | newEntry i addr =>
    simp only [MapEffect.Within] at he
    simp only [PhysMem.apply]
    rw [Function.update_of_ne (by omega), Function.update_of_ne (by omega)]
  | growEntry i size =>
    simp only [MapEffect.Within] at he
    simp only [PhysMem.apply]
    rw [Function.update_of_ne (by omega)]
  | setSlot k addr =>
    simp only [PhysMem.apply]
    rw [Function.update_of_ne (by omega)]
  | terminate i => exact absurd he id
  | _ => rfl

theorem applyAll_words {eff : List MapEffect} {n p b j : Nat} (heff : ∀ e ∈ eff, e.Within n p b) (hn : 0 < n)
    (hj : 2 * n ≤ j) (hjr : j < reserveBase) (m : PhysMem) : (m.applyAll eff).words j = m.words j := by
  induction eff generalizing m with
  | nil => rfl
  | cons e eff ih =>
    rw [applyAll_cons, ih (fun x hx => heff x (by simp [hx])) (m.apply e), apply_words (heff e (by simp)) hn hj hjr]

section
variable {r : BiusRequest} {segs : List Seg} {vmStart : Nat} (h : MapLayout r segs vmStart)
include h

/-- The list page, where it is shown: the entries, a terminator of two words if it
    has room for one, and behind it what was there before. -/
theorem MapLayout.listPage (hes : 1 < (listEntries vmStart segs).length) (m : PhysMem) (j : Nat) (hj : j < reserveBase) :
    (∀ e a l, (listEntries vmStart segs)[e]? = some (a, l) →
      (j = 2 * e → (m.applyAll (biusMapData r vmStart segs).1).words j = a) ∧
      (j = 2 * e + 1 → (m.applyAll (biusMapData r vmStart segs).1).words j = l)) ∧
    (2 * (listEntries vmStart segs).length ≤ j → j < 2 * (listEntries vmStart segs).length + 2 →
      (m.applyAll (biusMapData r vmStart segs).1).words j = 0) ∧
    (2 * (listEntries vmStart segs).length + 2 ≤ j →
      (m.applyAll (biusMapData r vmStart segs).1).words j = m.words j) := by
  have hmap := mapSegments_mapped (requestIsWrite r.type) vmStart m h.ok h.entries
  have hwithin := mapSegments_within (requestIsWrite r.type) vmStart h.ok
  rw [(biusMapData_list h.unmapped vmStart h.ok hes).2 m]
  simp only [applyAll_cons, applyAll_nil, PhysMem.apply]
  refine ⟨?_, ?_, ?_⟩
  · intro e a l he
    have hlt := (List.getElem?_eq_some_iff.1 he).1
    obtain ⟨haddr, hlen⟩ := hmap.entry e a l he
    constructor
    · intro hje
      rw [Function.update_of_ne (by omega), Function.update_of_ne (by omega), hje, haddr]
    · intro hje
      rw [Function.update_of_ne (by omega), Function.update_of_ne (by omega), hje, hlen]
  · intro hge hlt
    by_cases heq : j = 2 * (listEntries vmStart segs).length
    · subst heq
      rw [Function.update_of_ne (by omega), Function.update_self]
    · have hsucc : j = 2 * (listEntries vmStart segs).length + 1 := by omega
      rw [hsucc, Function.update_self]
  · intro hge
    rw [Function.update_of_ne (by omega), Function.update_of_ne (by omega),
      applyAll_words hwithin (by omega) (by omega) hj]

/-- Behind the segments and the list page the window shows what it showed before. -/
theorem MapLayout.ptesRest (m : PhysMem) {i : Nat} (hi : segs.length ≤ i)
    (hlist : i = segs.length → (listEntries vmStart segs).length = 1) :
    (m.applyAll (biusMapData r vmStart segs).1).ptes i = m.ptes i := by
  have hmap := mapSegments_mapped (requestIsWrite r.type) vmStart m h.ok h.entries
  rcases Nat.lt_or_eq_of_le h.entries_pos with hes | hes
  · rw [(biusMapData_list h.unmapped vmStart h.ok hes).2 m]
    simp only [applyAll_cons, applyAll_nil, PhysMem.apply]
    rw [Function.update_of_ne (fun heq => by have := hlist heq; omega), hmap.pteRest i hi]
  · rw [(biusMapData_simple h.unmapped vmStart h.ok hes.symm).2 m, hmap.pteRest i hi]

theorem MapLayout.segPage {m m' : PhysMem} (hsame : SameRequest segs m m') {i : Nat} {s : Seg} (hi : segs[i]? = some s)
    {o : Nat} (ho : o / pageSize = i) :
    (m.applyAll (biusMapData r vmStart segs).1).windowByte vmStart (vmStart + o) =
      (m'.applyAll (biusMapData r vmStart segs).1).windowByte vmStart (vmStart + o) := by
  obtain ⟨m₁, hm₁, hk, hb, hp, -⟩ := h.memory m
  obtain ⟨m₂, hm₂, hk', hb', hp', -⟩ := h.memory m'
  have hlt := (List.getElem?_eq_some_iff.1 hi).1
  have hbytes := hsame s (List.mem_of_getElem? hi)
  simp only [PhysMem.windowByte, Nat.add_sub_cancel_left, ho]
  rw [hp i hlt, hp' i hlt, hm₁.pte i s hi, hm₂.pte i s hi]
  cases hf : s.full
  · -- a bounce page, cleared before the segment is copied into it
    have h2 := (slotOf_lt hi hf).1
    have hslot : ¬ slotOf segs i < 2 := by omega
    simp only [Bool.false_eq_true, if_false, hslot]
    rw [hb, hb', hm₁.bounce i s hi hf, hm₂.bounce i s hi hf]
    unfold segBytes at hbytes
    rw [hbytes]
  · -- a whole page of the request
    obtain ⟨hoff, hlen⟩ := Seg.full_iff.1 hf
    have hmod : o % pageSize < s.len := by
      rw [hlen]
      exact Nat.mod_lt o (by simp [pageSize])
    simp only [if_true]
    rw [hk, hk', hm₁.kmem, hm₂.kmem]
    unfold segBytes at hbytes
    have hget := congrArg (fun bs => bs[o % pageSize]?) hbytes
    rw [Bytes.slice_getElem? _ _ _ _ hmod, Bytes.slice_getElem? _ _ _ _ hmod, hoff, Nat.add_zero] at hget
    exact Option.some.inj hget

theorem MapLayout.listByte (hes : 1 < (listEntries vmStart segs).length) (m : PhysMem) {o : Nat}
    (ho : o / pageSize = segs.length) :
    (m.applyAll (biusMapData r vmStart segs).1).windowByte vmStart (vmStart + o) =
      UInt8.ofNat ((m.applyAll (biusMapData r vmStart segs).1).words (o % pageSize / 8) / 256 ^ (o % pageSize % 8)) := by
  obtain ⟨_, -, -, -, -, -, hlist⟩ := h.memory m
  simp only [PhysMem.windowByte, Nat.add_sub_cancel_left, ho, (hlist hes).2.1]
  simp

theorem MapLayout.listPage_same (hes : 255 ≤ (listEntries vmStart segs).length) (m m' : PhysMem) {j : Nat}
    (hj : j < reserveBase) :
    (m.applyAll (biusMapData r vmStart segs).1).words j = (m'.applyAll (biusMapData r vmStart segs).1).words j := by
  have hbase : reserveBase = 512 := by simp [reserveBase, pageSize]
  obtain ⟨hentry, hterm, -⟩ := h.listPage (by omega) m j hj
  obtain ⟨hentry', hterm', -⟩ := h.listPage (by omega) m' j hj
  rcases Nat.lt_or_ge j (2 * (listEntries vmStart segs).length) with hlt | hge
  · obtain ⟨e, he⟩ : ∃ e, e = j / 2 := ⟨_, rfl⟩
    obtain ⟨⟨a, l⟩, hel⟩ : ∃ x, (listEntries vmStart segs)[e]? = some x :=
      ⟨_, List.getElem?_eq_getElem (by omega)⟩
    rcases Nat.even_or_odd' j with ⟨q, hq | hq⟩
    · rw [(hentry e a l hel).1 (by omega), (hentry' e a l hel).1 (by omega)]
    · rw [(hentry e a l hel).2 (by omega), (hentry' e a l hel).2 (by omega)]
  · rw [hterm hge (by omega), hterm' hge (by omega)]

end

/-- A memory whose reserved pages are full of `x`. -/
def filledMem (x : Nat) : PhysMem := ⟨fun _ => 0, fun _ => x, fun _ _ => 0, fun _ => .zero⟩

/-- A list page with room behind the terminator shows what it held when it was
    allocated. -/
theorem MapLayout.listPage_leaks {r : BiusRequest} {segs : List Seg} {vmStart : Nat} (h : MapLayout r segs vmStart)
    (hes : 1 < (listEntries vmStart segs).length) (hroom : (listEntries vmStart segs).length < 255) (x : Nat) :
    ((filledMem x).applyAll (biusMapData r vmStart segs).1).windowByte vmStart
      (vmStart + (segs.length * pageSize + 4088)) = UInt8.ofNat x := by
  have hdiv : (segs.length * pageSize + 4088) / pageSize = segs.length := by
    simp only [pageSize]
    omega
  have hmod : (segs.length * pageSize + 4088) % pageSize = 4088 := by
    simp only [pageSize]
    omega
  rw [h.listByte hes (filledMem x) hdiv, hmod,
    (h.listPage hes (filledMem x) (4088 / 8) (by simp [reserveBase, pageSize])).2.2 (by omega)]
  simp [filledMem]

/-- **When the window shows nothing but the request**: exactly when the segments are
    one run of adjacent segments, or the runs are so many that their list fills its
    page. -/
theorem window_private_iff {r : BiusRequest} {segs : List Seg} {vmStart : Nat} (h : MapLayout r segs vmStart) :
    (∀ m m' : PhysMem, m.Opened → m'.Opened → SameRequest segs m m' → ∀ o,
      (m.applyAll (biusMapData r vmStart segs).1).windowByte vmStart (vmStart + o) =
        (m'.applyAll (biusMapData r vmStart segs).1).windowByte vmStart (vmStart + o)) ↔
      segRuns false segs = 1 ∨ 255 ≤ segRuns false segs := by
  have hpos := h.entries_pos
  rw [listEntries_length] at hpos
  constructor
  · intro hall
    by_contra hruns
    have hes : 1 < (listEntries vmStart segs).length := by rw [listEntries_length]; omega
    have hroom : (listEntries vmStart segs).length < 255 := by rw [listEntries_length]; omega
    have hsame : SameRequest segs (filledMem 0) (filledMem 1) := fun s _ => rfl
    have heq := hall (filledMem 0) (filledMem 1) (fun _ => rfl) (fun _ => rfl) hsame (segs.length * pageSize + 4088)
    rw [h.listPage_leaks hes hroom, h.listPage_leaks hes hroom] at heq
    exact absurd heq (by decide)
  · intro hruns m m' hm hm' hsame o
    rcases Nat.lt_trichotomy (o / pageSize) segs.length with hlt | heq | hgt
    · exact h.segPage hsame (List.getElem?_eq_getElem hlt) rfl
    · rcases hruns with hone | hmany
      · rw [← listEntries_length vmStart] at hone
        simp only [PhysMem.windowByte, Nat.add_sub_cancel_left]
        rw [h.ptesRest m (by omega) (fun _ => hone), h.ptesRest m' (by omega) (fun _ => hone), hm, hm']
      · rw [← listEntries_length vmStart] at hmany
        have hj : o % pageSize / 8 < reserveBase := by
          simp only [reserveBase, pageSize]
          omega
        rw [h.listByte (by omega) m heq, h.listByte (by omega) m' heq, h.listPage_same hmany m m' hj]
    · simp only [PhysMem.windowByte, Nat.add_sub_cancel_left]
      rw [h.ptesRest m (by omega) (by omega), h.ptesRest m' (by omega) (by omega), hm, hm']

/-- 33 whole pages. -/
def wholePages : List Seg := (List.range 33).map (fun i => ⟨100 + i, 0, 4096⟩)

def wholeRequest : BiusRequest := { BiusRequest.blank with id := 1, type := .write, pos := 8192, length := 135168 }

theorem wholeLayout : MapLayout wholeRequest wholePages 0x7f0000000000 where
  unmapped := rfl
  long := show biusMapDataThreshold < 135168 by decide
  ok := by
    intro s hs
    obtain ⟨i, _, rfl⟩ := List.mem_map.1 hs
    simp [Seg.Ok, pageSize]
  sum := show (wholePages.map Seg.len).sum = 135168 by decide
  window := window_of_limits (by decide) (by decide)
  entries := by decide
  bounces := by decide
  aligned := by decide
  nonzero := by decide

/-- A write of whole pages shows only its data, and one in two ranges does not. -/
theorem window_private_iff_wholePages :
    (∀ m m' : PhysMem, m.Opened → m'.Opened → SameRequest wholePages m m' → ∀ o,
      (m.applyAll (biusMapData wholeRequest 0x7f0000000000 wholePages).1).windowByte 0x7f0000000000
          (0x7f0000000000 + o) =
        (m'.applyAll (biusMapData wholeRequest 0x7f0000000000 wholePages).1).windowByte 0x7f0000000000
          (0x7f0000000000 + o)) ∧
    ¬ ∀ m m' : PhysMem, m.Opened → m'.Opened → SameRequest sampleSegs m m' → ∀ o,
      (m.applyAll (biusMapData (sampleRequest .write) 0x7f0000000000 sampleSegs).1).windowByte 0x7f0000000000
          (0x7f0000000000 + o) =
        (m'.applyAll (biusMapData (sampleRequest .write) 0x7f0000000000 sampleSegs).1).windowByte 0x7f0000000000
          (0x7f0000000000 + o) := by
  constructor
  · rw [window_private_iff wholeLayout]
    decide
  · rw [window_private_iff (sampleLayout .write)]
    decide

/-- Behind the list of a write in two ranges the window shows a byte of the memory
    that the list page was allocated from. -/
theorem window_leaks : ∃ m m' : PhysMem, m.Opened ∧ m'.Opened ∧ SameRequest sampleSegs m m' ∧
    (m.applyAll (biusMapData (sampleRequest .write) 0x7f0000000000 sampleSegs).1).windowByte 0x7f0000000000
        (0x7f0000000000 + (34 * pageSize + 4088)) = 0 ∧
    (m'.applyAll (biusMapData (sampleRequest .write) 0x7f0000000000 sampleSegs).1).windowByte 0x7f0000000000
        (0x7f0000000000 + (34 * pageSize + 4088)) = 165 := by
  have hes : 1 < (listEntries 0x7f0000000000 sampleSegs).length := by decide
  have hroom : (listEntries 0x7f0000000000 sampleSegs).length < 255 := by decide
  have hlen : sampleSegs.length = 34 := by decide
  have hleak := (sampleLayout .write).listPage_leaks hes hroom
  rw [hlen] at hleak
  exact ⟨filledMem 0, filledMem 165, fun _ => rfl, fun _ => rfl, fun _ _ => rfl, hleak 0, hleak 165⟩

end Bius
