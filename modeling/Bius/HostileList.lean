import Bius.Lib.Machine
import Bius.MappedRead

/- The copy-in of a list request under a userspace that writes what it likes. The
   list page is shown in the window, so between `bius_map_data` and the reply its
   words are whatever userspace stored; the slots of `reserve_mapping_list` are
   not (`stored_slots`), after any history of the connection. Nothing in
   `bius_copy_in_misaligned_pages` compares the list with the request:
   `copyIn_safe_iff` says for which contents the copies stay inside the request
   (`Harmless`), `copyIn_hijacked` is one stored byte that makes them leave it. -/
namespace Bius

/-! ## Histories of a connection -/

/-- What happens to the memory of a connection between its creation and the
    request in question. -/
inductive WindowAct where
  | map (r : BiusRequest) (segs : List Seg)
  | unmap (r : BiusRequest)
  | store (va : Nat) (b : UInt8)
  | copyIn (c : CopyIn)
  /-- the rest of the kernel -/
  | others (kmem : Nat → UInt8)

def windowStep (vmStart : Nat) (m : PhysMem) : WindowAct → Option PhysMem
  | .map r segs => some (m.applyAll (biusMapData r vmStart segs).1)
  | .unmap r => some (m.applyAll (biusUnmapData r vmStart).1)
  | .store va b => some (m.windowStore vmStart va b)
  | .copyIn c => some (m.copyIn c)
  | .others kmem => some { m with kmem := kmem }

/-- Segments are as `rq_for_each_segment` yields them. -/
def WindowAct.Ok : PhysMem → WindowAct → Prop
  | _, .map _ segs => ∀ s ∈ segs, s.Ok
  | _, _ => True

/-- Memory of a connection after any history. -/
def History (vmStart : Nat) (m : PhysMem) : Prop :=
  ∃ m₀, (∀ i, m₀.ptes i = .zero) ∧ Machine.Reach (windowStep vmStart) WindowAct.Ok m₀ m

/-- The page of `reserve_mapping_list` is not in the window. -/
def SlotsHidden (m : PhysMem) : Prop := ∀ i, m.ptes i ≠ .reserved 1

theorem applyAll_hidden {m : PhysMem} {eff : List MapEffect} (hm : SlotsHidden m)
    (h : ∀ i f, MapEffect.setPte i f ∈ eff → f ≠ .reserved 1) : SlotsHidden (m.applyAll eff) := by
  induction eff generalizing m with
  | nil => exact hm
  | cons e eff ih =>
    rw [applyAll_cons]
    refine ih ?_ (fun i f hf => h i f (by simp [hf]))
    cases e with
    | setPte i f =>
      intro j
      simp only [PhysMem.apply, Function.update_apply]
      split
      · exact h i f (by simp)
      · exact hm j
    | _ => exact hm

theorem biusMapData_hidden {m : PhysMem} {r : BiusRequest} {vmStart : Nat} {segs : List Seg}
    (hok : ∀ s ∈ segs, s.Ok) (hm : SlotsHidden m) :
    SlotsHidden (m.applyAll (biusMapData r vmStart segs).1) := by
  by_cases hr : r.mapType = .unmapped
  · refine applyAll_hidden hm (fun i f hf => ?_)
    rcases biusMapData_effects hr vmStart segs hf with he | ⟨_, he⟩ | ⟨_, he⟩ | ⟨_, he⟩
    · intro hf1
      have := ((mapSegments_within _ vmStart hok _ he).2 1 hf1).1
      omega
    · cases he; simp
    · cases he
    · cases he
  · have : (biusMapData r vmStart segs).1 = [] := by simp [biusMapData, hr]
    rw [this]
    exact hm

/-- Stores through the window reach the list page, not the slots behind it. -/
theorem windowStore_words {m : PhysMem} (hm : SlotsHidden m) (vmStart va : Nat) (b : UInt8) {j : Nat}
    (hj : reserveBase ≤ j) : (m.windowStore vmStart va b).words j = m.words j := by
  simp only [PhysMem.windowStore]
  split
  · rfl
  · rfl
  · next k hp =>
    split
    · next hk =>
      have hk0 : k = 0 := by
        rcases Nat.lt_or_ge 0 k with h | h
        · exact absurd (by rw [hp, show k = 1 by omega]) (hm ((va - vmStart) / pageSize))
        · omega
      have hoff : (va - vmStart) % pageSize < pageSize := Nat.mod_lt _ (by simp [pageSize])
      simp only [reserveBase] at hj
      simp only [hk0]
      rw [Function.update_of_ne (by simp only [reserveBase, pageSize] at *; omega)]
    · rfl

theorem storeAll_hidden {m : PhysMem} (hm : SlotsHidden m) (vmStart : Nat) (xs : List (Nat × UInt8)) :
    SlotsHidden (m.storeAll vmStart xs) ∧
    ∀ j, reserveBase ≤ j → (m.storeAll vmStart xs).words j = m.words j := by
  induction xs generalizing m with
  | nil => exact ⟨hm, fun _ _ => rfl⟩
  | cons x xs ih =>
    have hm' : SlotsHidden (m.windowStore vmStart x.1 x.2) := by
      intro i
      rw [windowStore_ptes]
      exact hm i
    obtain ⟨ih₁, ih₂⟩ := ih hm'
    refine ⟨ih₁, fun j hj => ?_⟩
    rw [PhysMem.storeAll, List.foldl_cons, ← PhysMem.storeAll, ih₂ j hj, windowStore_words hm _ _ _ hj]

theorem History.hidden {vmStart : Nat} {m : PhysMem} (h : History vmStart m) : SlotsHidden m := by
  obtain ⟨m₀, hz, hreach⟩ := h
  refine hreach.inv (fun m act m' hm hok hs => ?_) (fun i => by rw [hz]; simp)
  cases act with
  | map r segs => cases hs; exact biusMapData_hidden hok hm
  | unmap r =>
    cases hs
    refine applyAll_hidden hm (fun i f hf => ?_)
    simp only [biusUnmapData] at hf
    split at hf
    · simp at hf
    · simp only [List.mem_append, List.mem_map, List.mem_range, List.mem_singleton, reduceCtorEq,
        or_false] at hf
      obtain ⟨_, _, hf⟩ := hf
      cases hf
      simp
  | store va b =>
    cases hs
    intro i
    rw [windowStore_ptes]
    exact hm i
  | copyIn c => cases hs; exact hm
  | others kmem => cases hs; exact hm

/-! ## What the copies may do -/

/-- The copy-in of a list request stays inside the request: it stops inside the
    list page (or at the terminator `bius_map_data` stored behind a full list
    page), each copy uses a bounce page and a slot the request has, stays inside
    that page, and writes only bytes of the request's segments. -/
def CopyInSafe (r : BiusRequest) (vmStart : Nat) (segs : List Seg) (m : PhysMem) : Prop :=
  ∃ n cs, (∀ i, i < n → m.word (2 * i) ≠ 0) ∧
    biusCopyInMisalignedPages r vmStart m.word (n + 1) = some cs ∧
    (2 * n < reserveBase ∨ (2 * n = reserveBase ∧ (listEntries vmStart segs).length = n)) ∧
    ∀ c ∈ cs, 2 ≤ c.slot ∧ c.slot < 2 + bouncePages segs ∧ c.start + c.len ≤ pageSize ∧
      ∀ a, m.word (reserveBase + c.slot) + c.start ≤ a → a < m.word (reserveBase + c.slot) + c.start + c.len →
        ∃ s ∈ segs, s.Mem a

/-- The list that starts at word `0` and has `n` entries. -/
def entriesOf (w : Nat → Nat) (n : Nat) : List (Nat × Nat) :=
  (List.range n).map (fun i => (w (2 * i), w (2 * i + 1)))

/-- The content `w` of the list page is harmless to the request: it ends within
    the page (or with the page, if the list of the request does), no length
    wraps, its entries have at most as many misaligned ends as the request has
    partly covered pages, and the `q`-th of their ranges covers only bytes of the
    request in the page of the `q`-th of them. -/
structure Harmless (vmStart : Nat) (segs : List Seg) (w : Nat → Nat) (n : Nat) : Prop where
  entries : ∀ i, i < n → w (2 * i) ≠ 0
  ends : w (2 * n) = 0
  fits : 2 * n < reserveBase ∨ (2 * n = reserveBase ∧ (listEntries vmStart segs).length = n)
  noWrap : ∀ i, i < n → NoWrap (w i) (w (2 * i)) (w (2 * i + 1))
  ranges : ∀ q start len : Nat, (walkRanges w 0 (entriesOf w n))[q]? = some (start, len) →
    ∃ (s : Seg) (k : Nat), (partials segs)[q]? = some (s, k) ∧
      ∀ y, start ≤ y → y < start + len → ∃ t ∈ segs, t.Mem (pageAddress s.page + y)

theorem copyInLoop_mem {w : Nat → Nat} : ∀ (j fuel i rp : Nat) (cs : List CopyIn),
    copyInLoop w fuel i rp = some cs → (∀ j', j' ≤ j → w (2 * (i + j')) ≠ 0) →
    ∃ rp', ∀ c ∈ copyInEntry w (i + j) rp', c ∈ cs
  | _, 0, _, _, _, h, _ => by simp [copyInLoop] at h
  | 0, fuel + 1, i, rp, cs, h, hne => by
    have h₀ : w (2 * i) ≠ 0 := hne 0 (Nat.le_refl _)
    rw [copyInLoop, if_neg h₀, Option.map_eq_some_iff] at h
    obtain ⟨cs', -, rfl⟩ := h
    exact ⟨rp, fun c hc => List.mem_append_left _ hc⟩
  | j + 1, fuel + 1, i, rp, cs, h, hne => by
    have h₀ : w (2 * i) ≠ 0 := hne 0 (Nat.zero_le _)
    rw [copyInLoop, if_neg h₀, Option.map_eq_some_iff] at h
    obtain ⟨cs', h', rfl⟩ := h
    obtain ⟨rp', hc⟩ := copyInLoop_mem j fuel (i + 1) _ cs' h' (fun j' hj' => by
      have := hne (j' + 1) (by omega)
      rwa [show i + (j' + 1) = i + 1 + j' by omega] at this)
    rw [show i + (j + 1) = i + 1 + j by omega]
    exact ⟨rp', fun c hcc => List.mem_append_right _ (hc c hcc)⟩

theorem copyInLoop_ends {w : Nat → Nat} : ∀ (n i rp : Nat) (cs : List CopyIn),
    copyInLoop w (n + 1) i rp = some cs → (∀ j, j < n → w (2 * (i + j)) ≠ 0) → w (2 * (i + n)) = 0
  | 0, i, rp, cs, h, _ => by
    rw [Nat.add_zero]
    by_contra hne
    simp [copyInLoop, hne] at h
  | n + 1, i, rp, cs, h, hne => by
    have h₀ : w (2 * i) ≠ 0 := hne 0 (by omega)
    rw [copyInLoop, if_neg h₀, Option.map_eq_some_iff] at h
    obtain ⟨cs', h', -⟩ := h
    have := copyInLoop_ends n (i + 1) _ cs' h' (fun j hj => by
      have := hne (j + 1) (by omega)
      rwa [show i + (j + 1) = i + 1 + j by omega] at this)
    rwa [show i + (n + 1) = i + 1 + n by omega]

theorem copyInEntry_wraps {w : Nat → Nat} {i rp : Nat} (h : ¬ NoWrap (w i) (w (2 * i)) (w (2 * i + 1))) :
    ∃ c ∈ copyInEntry w i rp, pageSize < c.start + c.len := by
  simp only [NoWrap, Classical.not_imp] at h
  obtain ⟨hf, hlt, hge⟩ := h
  refine ⟨⟨rp, w i % pageSize, w (2 * i + 1)⟩, ?_, ?_⟩
  · simp only [copyInEntry, if_neg hf, if_pos hlt]
    split <;> simp
  · by_contra hle
    simp only at hle
    have : w i % pageSize + w (2 * i + 1) = pageSize := by omega
    rw [this] at hlt
    simp [pageSize] at hlt

theorem entriesOf_getElem? {w : Nat → Nat} {n j a l : Nat} (h : (entriesOf w n)[j]? = some (a, l)) :
    j < n ∧ w (2 * j) = a ∧ w (2 * j + 1) = l := by
  simp only [entriesOf, List.getElem?_map, Option.map_eq_some_iff] at h
  obtain ⟨i, hi, he⟩ := h
  obtain ⟨hlt, rfl⟩ := List.getElem?_eq_some_iff.1 hi
  simp only [List.getElem_range, Prod.mk.injEq] at he
  exact ⟨by simpa using hlt, he⟩

/-- Without wrapping lengths, the walk over `n` entries makes their copies. -/
theorem copyInLoop_entriesOf {w : Nat → Nat} {n : Nat} (hne : ∀ i, i < n → w (2 * i) ≠ 0)
    (hend : w (2 * n) = 0) (hw : ∀ i, i < n → NoWrap (w i) (w (2 * i)) (w (2 * i + 1))) :
    copyInLoop w (n + 1) 0 2 = some (slotted 2 (walkRanges w 0 (entriesOf w n))) := by
  have hlen : (entriesOf w n).length = n := by simp [entriesOf]
  refine copyInLoop_ranges (entriesOf w n) (n + 1) 0 2 (by omega) (fun j a l hj => ?_)
    (by rw [hlen, Nat.zero_add]; exact hend)
  obtain ⟨hlt, rfl, rfl⟩ := entriesOf_getElem? hj
  rw [Nat.zero_add]
  exact ⟨hne j hlt, hw j hlt, rfl, rfl⟩

section
variable {r : BiusRequest} {segs : List Seg} {vmStart : Nat} (h : MapLayout r segs vmStart)
  {m : PhysMem} (hm : History vmStart m) (xs : List (Nat × UInt8))
include h hm

/-- Whatever userspace stores, the slots of the request name its partly covered
    pages. -/
theorem stored_slots {q k : Nat} {s : Seg} (hq : (partials segs)[q]? = some (s, k)) :
    ((m.applyAll (biusMapData r vmStart segs).1).storeAll vmStart xs).word (reserveBase + (2 + q)) =
      pageAddress s.page := by
  have hlt := (List.getElem?_eq_some_iff.1 hq).1
  have hfew := h.bounces
  rw [partials_length] at hlt
  obtain ⟨hk, hf⟩ := mem_partials.1 (List.mem_of_getElem? hq)
  obtain ⟨m₁, hmap, -, -, -, hwords, -⟩ := h.memory m
  have hhid : SlotsHidden (m.applyAll (biusMapData r vmStart segs).1) := biusMapData_hidden h.ok hm.hidden
  rw [PhysMem.word, if_pos (by simp only [biusMaxSegments, reserveBase, pageSize] at *; omega),
    (storeAll_hidden hhid vmStart xs).2 _ (by omega), hwords _ (Or.inr (by omega)), ← partials_slot hq]
  exact hmap.slot k s hk hf

/-- **Hostile lists.** After any history and any stores of userspace, the copy-in
    of a list request stays inside the request exactly when the content of the
    list page is harmless to it. -/
theorem copyIn_safe_iff (hlist : (biusMapData r vmStart segs).2.mapType = .list) :
    CopyInSafe (biusMapData r vmStart segs).2 vmStart segs
        ((m.applyAll (biusMapData r vmStart segs).1).storeAll vmStart xs) ↔
      ∃ n, Harmless vmStart segs
        ((m.applyAll (biusMapData r vmStart segs).1).storeAll vmStart xs).word n := by
  have hslots := fun {q k s} => stored_slots h hm xs (q := q) (k := k) (s := s)
  generalize (m.applyAll (biusMapData r vmStart segs).1).storeAll vmStart xs = m₁ at *
  simp only [CopyInSafe, biusCopyInMisalignedPages, hlist]
  constructor
  · rintro ⟨n, cs, hne, hloop, hfits, hcs⟩
    have hend := copyInLoop_ends n 0 2 cs hloop (fun j hj => by rw [Nat.zero_add]; exact hne j hj)
    rw [Nat.zero_add] at hend
    have hw : ∀ i, i < n → NoWrap (m₁.word i) (m₁.word (2 * i)) (m₁.word (2 * i + 1)) := by
      intro i hi
      by_contra hwrap
      obtain ⟨rp, hmem⟩ := copyInLoop_mem i (n + 1) 0 2 cs hloop (fun j hj => by
        rw [Nat.zero_add]; exact hne j (by omega))
      rw [Nat.zero_add] at hmem
      obtain ⟨c, hc, hgt⟩ := @copyInEntry_wraps _ i rp hwrap
      have := (hcs c (hmem c hc)).2.2.1
      omega
    refine ⟨n, hne, hend, hfits, hw, fun q start len hq => ?_⟩
    rw [copyInLoop_entriesOf hne hend hw] at hloop
    cases hloop
    obtain ⟨-, hlt, -, hwrites⟩ := hcs ⟨2 + q, start, len⟩ (List.mem_of_getElem? (by
      rw [slotted_getElem?, hq]; rfl))
    simp only at hlt hwrites
    obtain ⟨⟨s, k⟩, hp⟩ : ∃ x, (partials segs)[q]? = some x :=
      ⟨_, List.getElem?_eq_getElem (by rw [partials_length]; omega)⟩
    refine ⟨s, k, hp, fun y h₁ h₂ => hwrites _ ?_ ?_⟩
    · rw [hslots hp]; omega
    · rw [hslots hp]; omega
  · rintro ⟨n, hn⟩
    refine ⟨n, _, hn.entries, copyInLoop_entriesOf hn.entries hn.ends hn.noWrap, hn.fits, ?_⟩
    intro c hc
    obtain ⟨q, hq⟩ := List.mem_iff_getElem?.1 hc
    rw [slotted_getElem?, Option.map_eq_some_iff] at hq
    obtain ⟨⟨start, len⟩, hr, rfl⟩ := hq
    obtain ⟨s, k, hp, hin⟩ := hn.ranges q start len hr
    have hlt := (List.getElem?_eq_some_iff.1 hp).1
    rw [partials_length] at hlt
    refine ⟨by simp only; omega, by simp only; omega,
      walkRanges_le _ 0 _ (List.mem_of_getElem? hr), fun a h₁ h₂ => ?_⟩
    simp only [hslots hp] at h₁ h₂
    obtain ⟨t, ht, hmem⟩ := hin (a - pageAddress s.page) (by omega) (by omega)
    rw [Nat.add_sub_cancel' (by omega)] at hmem
    exact ⟨t, ht, hmem⟩

end

theorem sampleMem_history (vmStart : Nat) : History vmStart sampleMem :=
  ⟨sampleMem, fun _ => rfl, .refl _⟩

/-- Memory after the agreeing request has been mapped and `xs` stored. -/
def agreeingMem (xs : List (Nat × UInt8)) : PhysMem :=
  (sampleMem.applyAll (biusMapData agreeingRequest 0x7f0000000000 agreeingSegs).1).storeAll 0x7f0000000000 xs

/-- An untouched list whose words agree is harmless. -/
theorem copyIn_safe_iff_untouched :
    CopyInSafe (biusMapData agreeingRequest 0x7f0000000000 agreeingSegs).2 0x7f0000000000 agreeingSegs
      (agreeingMem []) := by
  have hw : (agreeingMem []).word 0 = 0x7f0000000000 ∧ (agreeingMem []).word 1 = 512 ∧
      (agreeingMem []).word 2 = 0x7f0000001200 ∧ (agreeingMem []).word 3 = 134656 ∧
      (agreeingMem []).word 4 = 0 := by decide +kernel
  have hranges : walkRanges (agreeingMem []).word 0 (entriesOf (agreeingMem []).word 2) =
      [(0, 512), (512, 3584)] := by decide +kernel
  have hpartials : partials agreeingSegs = [(⟨7, 0, 512⟩, 0), (⟨8, 512, 3584⟩, 1)] := by decide
  have h7 : (⟨7, 0, 512⟩ : Seg) ∈ agreeingSegs := by decide
  have h8 : (⟨8, 512, 3584⟩ : Seg) ∈ agreeingSegs := by decide
  refine (copyIn_safe_iff agreeingLayout (sampleMem_history _) [] (by decide)).2 ⟨2, ?_, ?_, ?_, ?_, ?_⟩
  · intro i hi
    match i with
    | 0 => exact fun h0 => by have := hw.1.symm.trans h0; omega
    | 1 => exact fun h0 => by have := hw.2.2.1.symm.trans h0; omega
    | i + 2 => omega
  · exact hw.2.2.2.2
  · exact Or.inl (by decide)
  · intro i hi
    apply noWrap_of_le
    match i with
    | 0 => exact (by rw [hw.2.1]; decide : (agreeingMem []).word 1 + pageSize ≤ 2 ^ 64)
    | 1 => exact (by rw [hw.2.2.2.1]; decide : (agreeingMem []).word 3 + pageSize ≤ 2 ^ 64)
    | i + 2 => omega
  · intro q start len hq
    change (walkRanges (agreeingMem []).word 0 (entriesOf (agreeingMem []).word 2))[q]? = _ at hq
    rw [hranges] at hq
    rw [hpartials]
    match q with
    | 0 =>
      cases hq
      exact ⟨_, _, rfl, fun y h₁ h₂ => ⟨_, h7, by simp only [Seg.Mem]; omega⟩⟩
    | 1 =>
      cases hq
      exact ⟨_, _, rfl, fun y h₁ h₂ => ⟨_, h8, by simp only [Seg.Mem]; omega⟩⟩
    | q + 2 => simp at hq

/-- One byte of the list page: the second of the length of entry 0, raised from
    2 to 6. -/
def hijack : List (Nat × UInt8) := [(0x7f0000022009, 6)]

/-- The length of entry 0 is then 1536, and the copy-in overwrites 1024 bytes of
    page 7 that are not the request's. -/
theorem copyIn_hijacked :
    ¬ CopyInSafe (biusMapData agreeingRequest 0x7f0000000000 agreeingSegs).2 0x7f0000000000 agreeingSegs
      (agreeingMem hijack) := by
  rintro ⟨n, cs, hne, hloop, -, hcs⟩
  have hw : (agreeingMem hijack).word 0 = 0x7f0000000000 ∧ (agreeingMem hijack).word 1 = 1536 := by
    decide +kernel
  have hp : (partials agreeingSegs)[0]? = some (⟨7, 0, 512⟩, 0) := by decide
  have hslot := stored_slots agreeingLayout (sampleMem_history 0x7f0000000000) hijack hp
  rw [← agreeingMem] at hslot
  replace hslot : (agreeingMem hijack).word (reserveBase + 2) = pageAddress 7 := hslot
  generalize agreeingMem hijack = m at *
  have hloop : copyInLoop m.word (n + 1) 0 2 = some cs := hloop
  have h₀ : m.word (2 * 0) ≠ 0 := fun h0 => by have := hw.1.symm.trans h0; omega
  have hentry : copyInEntry m.word 0 2 = [⟨2, 0, 1536⟩] := by
    simp [copyInEntry, hw, pageSize]
  rw [copyInLoop, if_neg h₀, Option.map_eq_some_iff] at hloop
  obtain ⟨cs', -, rfl⟩ := hloop
  obtain ⟨-, -, -, hwrites⟩ := hcs ⟨2, 0, 1536⟩ (by rw [hentry]; simp)
  simp only [hslot] at hwrites
  obtain ⟨s, hs, hmem⟩ := hwrites (pageAddress 7 + 1000) (by omega) (by omega)
  have hpages : ∀ s ∈ agreeingSegs, s = ⟨7, 0, 512⟩ ∨ 8 ≤ s.page := by decide
  simp only [Seg.Mem, pageAddress, pageSize] at hmem
  rcases hpages s hs with rfl | hpage
  · simp only at hmem
    omega
  · omega

end Bius
