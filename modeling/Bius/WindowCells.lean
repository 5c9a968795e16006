import Bius.Kernel
import Bius.MappedRead

/- The memory behind a window while its request is served (CONFIG_BIUS_DATAMAP build).
   `MappedRead` and `MappedWrite` take a request through the window in one go; here the
   window is read and stored to piece by piece, and the rest of kernel memory changes in
   between. `Backed` is what stays as `bius_map_data` has left it: the page table, the words
   of the two list pages, and zeros around the data in the bounce pages. The data is what
   `windowByte` finds at the addresses of the segments. -/
namespace Bius

/-- A function of the page table that the stores of a call make. -/
theorem applyAll_ptes (m : PhysMem) (eff : List MapEffect) : (m.applyAll eff).ptes = Kernel.mapPtes m.ptes eff := by
  induction eff generalizing m with
  | nil => rfl
  | cons e eff ih =>
    rw [applyAll_cons, ih]
    cases e <;> rfl

theorem windowByte_cell {m : PhysMem} {vmStart va : Nat} {x : Cell} (h : cellOf m.ptes vmStart va = some x) :
    m.windowByte vmStart va = m.read x := by
  simp only [cellOf] at h
  simp only [PhysMem.windowByte]
  generalize m.ptes ((va - vmStart) / pageSize) = f at h ⊢
  cases f with
  | zero => cases h
  | data pfn =>
    cases h
    rfl
  | reserved k =>
    dsimp only at h ⊢
    split at h
    · cases h
    · next hk =>
      cases h
      exact if_neg hk

/-- The window of a request: its page table and its lists are those that `bius_map_data`
    has made of it. -/
structure Backed (r : BiusRequest) (vmStart : Nat) (segs : List Seg) (m : PhysMem) : Prop where
  layout : MapLayout r segs vmStart
  words : ∃ m₀ : PhysMem, m.words = (m₀.applyAll (biusMapData r vmStart segs).1).words
  ptes : m.ptes = Kernel.mapPtes (fun _ => .zero) (biusMapData r vmStart segs).1
  /-- the bounce pages hold nothing but data -/
  around : ∀ k s y, segs[k]? = some s → s.full = false → ¬ (s.offset ≤ y ∧ y < s.offset + s.len) →
    m.bounce (slotOf segs k) y = 0

section
variable {r : BiusRequest} {vmStart : Nat} {segs : List Seg} {m m' : PhysMem}

theorem MapLayout.backed (h : MapLayout r segs vmStart) (hz : m.ptes = fun _ => .zero) :
    Backed r vmStart segs (m.applyAll (biusMapData r vmStart segs).1) := by
  refine ⟨h, ⟨m, rfl⟩, by rw [applyAll_ptes, hz], fun k s y hk hf hy => ?_⟩
  obtain ⟨m₁, hmap, -, hbounce, -⟩ := h.memory m
  rw [hbounce, hmap.bounce k s hk hf]
  split
  · apply Bytes.splice_outside
    rw [Bytes.slice_length]
    omega
  · rfl

theorem MapLayout.kmem_eq (h : MapLayout r segs vmStart) (m : PhysMem) :
    (m.applyAll (biusMapData r vmStart segs).1).kmem = m.kmem := by
  obtain ⟨m₁, hmap, hk, -⟩ := h.memory m
  exact hk.trans hmap.kmem

/-- After the `bius_map_data` of a write the window shows its data. -/
theorem MapLayout.shows_data (h : MapLayout r segs vmStart) (hw : requestIsWrite r.type = true) :
    (segAddrs vmStart segs).map ((m.applyAll (biusMapData r vmStart segs).1).windowByte vmStart) =
      requestBytes m.kmem segs := by
  obtain ⟨m₁, hmap, hk, hb, hp, -⟩ := h.memory m
  rw [hw] at hmap
  apply window_segAddrs h.ok (hk.trans hmap.kmem)
  · intro i s hi
    exact (hp i (List.getElem?_eq_some_iff.1 hi).1).trans (hmap.pte i s hi)
  · intro i s hi hf
    exact (congrFun hb _).trans (hmap.bounce i s hi hf)

theorem Backed.cell (h : Backed r vmStart segs m) {va : Nat} (hva : va ∈ segAddrs vmStart segs) :
    cellOf m.ptes vmStart va = some (segCell vmStart segs va) := by
  have hcell := h.layout.cellOf_eq { m with ptes := fun _ => .zero } hva
  rw [applyAll_ptes] at hcell
  rw [h.ptes]
  exact hcell

theorem Backed.windowByte_eq (h : Backed r vmStart segs m) {va : Nat} (hva : va ∈ segAddrs vmStart segs) :
    m.windowByte vmStart va = m.read (segCell vmStart segs va) :=
  windowByte_cell (h.cell hva)

/-! ## What changes beside it -/

/-- What `bius_map_data` stores depends on the kind of the request alone. -/
theorem biusMapData_stores {r r' : BiusRequest} (hm : r.mapType = .unmapped) (hm' : r'.mapType = .unmapped)
    (ht : r'.type = r.type) (vmStart : Nat) (segs : List Seg) :
    (biusMapData r' vmStart segs).1 = (biusMapData r vmStart segs).1 := by
  simp only [biusMapData, hm, hm', ht, bne_self_eq_false, Bool.false_eq_true, if_false]
  split
  · rfl
  · split <;> rfl

theorem Backed.congr {r' : BiusRequest} (h : Backed r vmStart segs m) (hm : r'.mapType = .unmapped) (ht : r'.type = r.type)
    (hl : r'.length = r.length) (hw : m'.words = m.words) (hp : m'.ptes = m.ptes) (hb : m'.bounce = m.bounce) :
    Backed r' vmStart segs m' := by
  have hstores := biusMapData_stores h.layout.unmapped hm ht vmStart segs
  obtain ⟨m₀, hwords⟩ := h.words
  refine ⟨⟨hm, by rw [hl]; exact h.layout.long, h.layout.ok,
    by rw [hl]; exact h.layout.sum, h.layout.window, h.layout.entries,
    h.layout.bounces, h.layout.aligned, h.layout.nonzero⟩, ⟨m₀, by rw [hw, hwords, hstores]⟩,
      by rw [hp, h.ptes, hstores], ?_⟩
  rw [hb]
  exact h.around

/-- A cell of a segment is in a bounce page or a byte of the segment. -/
theorem segCell_cases (hok : ∀ s ∈ segs, s.Ok) {va : Nat} (hva : va ∈ segAddrs vmStart segs) :
    (∃ k y, segCell vmStart segs va = .bounce k y) ∨
      ∃ a, segCell vmStart segs va = .kmem a ∧ ∃ s ∈ segs, s.Mem a := by
  obtain ⟨i, s, o, hi, ho, rfl⟩ := mem_segAddrs.1 hva
  rw [(segCell_at hok hi ho).1]
  cases hf : s.full with
  | false => exact Or.inl ⟨_, _, rfl⟩
  | true =>
    refine Or.inr ⟨_, rfl, s, List.mem_of_getElem? hi, ?_⟩
    constructor <;> omega

theorem Backed.windowByte_congr {r' : BiusRequest} (h : Backed r vmStart segs m) (h' : Backed r' vmStart segs m')
    (hb : m'.bounce = m.bounce) (hk : ∀ a, (∃ s ∈ segs, s.Mem a) → m'.kmem a = m.kmem a) {va : Nat}
    (hva : va ∈ segAddrs vmStart segs) : m'.windowByte vmStart va = m.windowByte vmStart va := by
  rw [h.windowByte_eq hva, h'.windowByte_eq hva]
  rcases segCell_cases h.layout.ok hva with ⟨k, y, hcell⟩ | ⟨a, hcell, hmem⟩
  · rw [hcell]
    show m'.bounce k y = m.bounce k y
    rw [hb]
  · rw [hcell]
    exact hk a hmem

theorem requestBytes_congr {kmem kmem' : Nat → UInt8} (h : ∀ a, (∃ s ∈ segs, s.Mem a) → kmem' a = kmem a) :
    requestBytes kmem' segs = requestBytes kmem segs := by
  unfold requestBytes
  apply List.flatMap_congr
  intro s hs
  apply Bytes.slice_congr
  intro a hlo hhi
  exact h a ⟨s, hs, hlo, hhi⟩

/-! ## Stores through it -/

theorem Backed.storeAll (h : Backed r vmStart segs m) (hd : SegsDisjoint segs) {addrs : List Nat} {bytes : List UInt8}
    (hsub : ∀ va ∈ addrs, va ∈ segAddrs vmStart segs) (hn : addrs.Nodup) (hlen : addrs.length = bytes.length) :
    Backed r vmStart segs (m.storeAll vmStart (addrs.zip bytes)) ∧
    addrs.map ((m.storeAll vmStart (addrs.zip bytes)).windowByte vmStart) = bytes ∧
    (∀ va ∈ segAddrs vmStart segs, va ∉ addrs →
      (m.storeAll vmStart (addrs.zip bytes)).windowByte vmStart va = m.windowByte vmStart va) ∧
    ∀ a, (∀ s ∈ segs, ¬ s.Mem a) → (m.storeAll vmStart (addrs.zip bytes)).kmem a = m.kmem a := by
  have hmem : ∀ x ∈ addrs.zip bytes, x.1 ∈ addrs := fun x hx => (List.of_mem_zip hx).1
  obtain ⟨hread, hwords⟩ := storeAll_cells vmStart (segCell vmStart segs) (addrs.zip bytes) m
    (fun x hx => h.cell (hsub _ (hmem x hx)))
  have hzip : (addrs.zip bytes).map (fun x => (segCell vmStart segs x.1, x.2)) =
      (addrs.map (segCell vmStart segs)).zip bytes := by
    rw [List.zip_map_left]
    rfl
  rw [hzip] at hread
  have hnodup : (addrs.map (segCell vmStart segs)).Nodup :=
    hn.map_on (fun x hx y hy heq => segCell_injOn h.layout.ok hd (hsub x hx) (hsub y hy) heq)
  -- a cell that no address names keeps its value
  have hout : ∀ x, (∀ va ∈ addrs, segCell vmStart segs va ≠ x) →
      (m.storeAll vmStart (addrs.zip bytes)).read x = m.read x := by
    intro x hx
    rw [hread]
    apply Bytes.updates_of_notMem
    rw [List.map_fst_zip (by simp [hlen])]
    intro hin
    obtain ⟨va, hva, heq⟩ := List.mem_map.1 hin
    exact hx va hva heq
  have hbacked : Backed r vmStart segs (m.storeAll vmStart (addrs.zip bytes)) := by
    refine ⟨h.layout, by rw [hwords]; exact h.words, (storeAll_ptes m vmStart _).trans h.ptes,
      fun k s y hk hf hy => ?_⟩
    refine (hout (.bounce (slotOf segs k) y) (fun va hva heq => ?_)).trans (h.around k s y hk hf hy)
    obtain ⟨j, t, o, hj, ho, rfl⟩ := mem_segAddrs.1 (hsub va hva)
    rw [(segCell_at h.layout.ok hj ho).1] at heq
    cases ht : t.full with
    | true => simp [ht] at heq
    | false =>
      simp only [ht, Bool.false_eq_true, if_false, Cell.bounce.injEq] at heq
      have hjk := slotOf_inj hj ht hk hf heq.1
      subst hjk
      cases hk.symm.trans hj
      omega
  refine ⟨hbacked, ?_, fun va hva hnot => ?_, fun a ha => ?_⟩
  · have hvalues := Bytes.updates_map m.read (addrs.map (segCell vmStart segs)) bytes hnodup (by simpa using hlen)
    calc addrs.map ((m.storeAll vmStart (addrs.zip bytes)).windowByte vmStart)
        = addrs.map (fun va => (m.storeAll vmStart (addrs.zip bytes)).read (segCell vmStart segs va)) :=
          List.map_congr_left (fun va hva => hbacked.windowByte_eq (hsub va hva))
      _ = (addrs.map (segCell vmStart segs)).map
          (Bytes.updates m.read ((addrs.map (segCell vmStart segs)).zip bytes)) := by
          rw [hread, List.map_map]
          rfl
      _ = bytes := hvalues
  · rw [hbacked.windowByte_eq hva, h.windowByte_eq hva]
    apply hout
    intro vb hvb heq
    rw [segCell_injOn h.layout.ok hd (hsub vb hvb) hva heq] at hvb
    exact hnot hvb
  · refine hout (.kmem a) (fun va hva heq => ?_)
    rcases segCell_cases h.layout.ok (hsub va hva) with ⟨k, y, hcell⟩ | ⟨b, hcell, s, hs, hmem⟩
    · rw [hcell] at heq
      cases heq
    · rw [hcell] at heq
      cases heq
      exact ha s hs hmem

/-! ## The end of a read -/

/-- Before the copy-in every byte of the data is in its segment or in its bounce page. -/
theorem Backed.stored (h : Backed r vmStart segs m) : Stored vmStart segs (m.windowByte vmStart) m m := by
  have hslot : ∀ k s, segs[k]? = some s → s.full = false →
      m.words (reserveBase + slotOf segs k) = pageAddress s.page := by
    intro k s hk hf
    obtain ⟨m₀, hwords⟩ := h.words
    obtain ⟨m₁, hmap, -, -, -, hw, -⟩ := h.layout.memory m₀
    rw [hwords, hw _ (Or.inr (by have := (slotOf_lt hk hf).1; omega))]
    exact hmap.slot k s hk hf
  have hbyte : ∀ k s y, segs[k]? = some s → s.offset ≤ y → y < s.offset + s.len →
      m.windowByte vmStart (vmStart + k * pageSize + y) =
        m.read (if s.full then .kmem (pageAddress s.page + y) else .bounce (slotOf segs k) y) := by
    intro k s y hk h₁ h₂
    have hva : vmStart + k * pageSize + y ∈ segAddrs vmStart segs :=
      mem_segAddrs.2 ⟨k, s, y - s.offset, hk, by omega, by omega⟩
    have hcell := (@segCell_at vmStart segs h.layout.ok k s (y - s.offset) hk (by omega)).1
    rw [show s.offset + (y - s.offset) = y by omega] at hcell
    rw [h.windowByte_eq hva, hcell]
  refine ⟨hslot, fun k s y hk hf h₁ h₂ => ?_, h.around, fun _ _ _ => rfl, fun k s y hk hf hy => ?_, fun _ _ => rfl⟩
  · rw [hbyte k s y hk h₁ h₂, hf]
    rfl
  · obtain ⟨hoff, hl⟩ := Seg.full_iff.1 hf
    rw [hbyte k s y hk (by omega) (by omega), hf]
    rfl

/-- **The copy-in of a read**: the segments get what the window has shown, and no other byte
    of kernel memory changes. -/
theorem Backed.copyIn (h : Backed r vmStart segs m) {fuel : Nat} (hfuel : biusMaxSegments < fuel) (hd : SegsDisjoint segs)
    (hexact : CopyInExact vmStart segs) :
    ∃ copies, biusCopyInMisalignedPages (biusMapData r vmStart segs).2 vmStart m.word fuel = some copies ∧
      requestBytes (m.copyInAll copies).kmem segs = (segAddrs vmStart segs).map (m.windowByte vmStart) ∧
      ∀ a, (∀ s ∈ segs, ¬ s.Mem a) → (m.copyInAll copies).kmem a = m.kmem a := by
  obtain ⟨m₀, hwords⟩ := h.words
  have hcov := walkRanges_covers vmStart segs (listWord (listEntries vmStart segs)) (listEntries vmStart segs) 0
    (fun j a l hj => by rw [Nat.zero_add]; exact hexact j a l hj)
  rw [neededRanges_partials h.layout.aligned h.layout.ok] at hcov
  obtain ⟨hdata, hrest⟩ := h.stored.copied h.layout.bounces hcov hd h.layout.ok
  exact ⟨_, h.layout.copyIn_walk hfuel hwords, (requestBytes_eq_iff h.layout.ok).2 hdata, hrest⟩

/-! ## The list -/

/-- The words that the library reads behind the segments: the entries, and then a zero. -/
theorem Backed.list_words (h : Backed r vmStart segs m) (hlist : 1 < (listEntries vmStart segs).length) :
    (∀ e a l, (listEntries vmStart segs)[e]? = some (a, l) →
      m.windowWord vmStart (vmStart + segs.length * pageSize + 16 * e) = a ∧
      m.windowWord vmStart (vmStart + segs.length * pageSize + 16 * e + 8) = l) ∧
    m.windowWord vmStart (vmStart + segs.length * pageSize + 16 * (listEntries vmStart segs).length) = 0 := by
  obtain ⟨m₀, hwords⟩ := h.words
  have hentries := h.layout.entries
  have hbase : reserveBase / 2 = 256 := by simp [reserveBase, pageSize]
  simp only [biusMaxSegments] at hentries
  -- the page table does not depend on the words, nor the words on the page table
  obtain ⟨m₁, hmap, -, -, -, hw, hl⟩ := h.layout.memory m₀
  obtain ⟨-, -, -, -, -, -, hl'⟩ := h.layout.memory { m₀ with ptes := fun _ => .zero }
  obtain ⟨hterm, -, -⟩ := hl hlist
  obtain ⟨-, hpage, hbeyond⟩ := hl' hlist
  rw [applyAll_ptes, ← h.ptes] at hpage hbeyond
  rw [← hwords] at hterm hw
  refine ⟨fun e a l he => ?_, ?_⟩
  · have hlt := (List.getElem?_eq_some_iff.1 he).1
    obtain ⟨hw₁, hw₂⟩ := windowWord_entry vmStart (e := e) hpage (by omega)
    obtain ⟨he₁, he₂⟩ := hmap.entry e a l he
    rw [hw₁, hw₂, hw _ (Or.inl (by omega)), hw _ (Or.inl (by omega))]
    exact ⟨he₁, he₂⟩
  · apply windowWord_end vmStart hpage _ hterm (by omega)
    exact hbeyond _ (Nat.lt_succ_self _)

end

end Bius
