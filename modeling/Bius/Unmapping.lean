import Bius.MapCapacity
import Bius.MapLifetime

/- `bius_unmap_data` against `bius_map_data`. The one counts pages while it goes over
   the segments (`user_page_num`, beside the address `user_addr`), the other derives the
   number of pages from the byte count `mapped_size`. The loop sets the entries of the
   window one after the other, from the first on (`setPtes_mapSegments`), the list page
   is the next one, and `mapped_size` is that many pages (`biusMapData_pages`); so
   unmapping resets exactly the entries that mapping has set (`unmap_undoes_map`). -/
namespace Bius

/-- The indices of the page-table entries that the stores set, in order. -/
def setPtes (eff : List MapEffect) : List Nat :=
  eff.filterMap (fun e => match e with | .setPte i _ => some i | _ => none)

theorem setPtes_append (xs ys : List MapEffect) : setPtes (xs ++ ys) = setPtes xs ++ setPtes ys :=
  List.filterMap_append

theorem mem_setPtes {eff : List MapEffect} {i : Nat} : i ∈ setPtes eff ↔ ∃ f, .setPte i f ∈ eff := by
  unfold setPtes
  rw [List.mem_filterMap]
  constructor
  · intro h
    obtain ⟨e, he, hi⟩ := h
    cases e with
    | setPte j f =>
      cases hi
      exact ⟨f, he⟩
    | _ => cases hi
  · intro h
    obtain ⟨f, hf⟩ := h
    exact ⟨_, hf, rfl⟩

/-! ## The loop -/

/-- The entries of the window have been set one after the other, up to the page the
    loop stands at. -/
def MapState.InOrder (st : MapState) : Prop := setPtes st.eff = List.range st.userPageNum

section
variable {st : MapState} (h : st.InOrder)
include h

theorem inOrder_next {st' : MapState} {eff : List MapEffect} (heff : st'.eff = st.eff ++ eff)
    (hset : setPtes eff = [st.userPageNum]) (hpage : st'.userPageNum = st.userPageNum + 1) : st'.InOrder := by
  show setPtes st'.eff = List.range st'.userPageNum
  calc setPtes st'.eff = setPtes st.eff ++ setPtes eff := by rw [heff, setPtes_append]
    _ = List.range st.userPageNum ++ [st.userPageNum] := by rw [h, hset]
    _ = List.range st'.userPageNum := by rw [hpage, List.range_succ]

theorem inOrder_listEntry (bvec : Seg) : (st.listEntry bvec).InOrder := by
  have hkept : ∀ st' : MapState, st'.InOrder →
      ({ st' with eff := st'.eff ++ [.growEntry st'.listEntryIndex bvec.len] } : MapState).InOrder := by
    intro st' h'
    show setPtes (st'.eff ++ _) = List.range st'.userPageNum
    rw [setPtes_append, h']
    exact List.append_nil _
  unfold MapState.listEntry
  apply hkept
  split
  · show setPtes (st.eff ++ _) = List.range st.userPageNum
    rw [setPtes_append, h]
    exact List.append_nil _
  · exact h

theorem inOrder_mapReserved (isWrite : Bool) (pfn off len : Nat) : (st.mapReserved isWrite pfn off len).InOrder :=
  inOrder_next h rfl rfl rfl

theorem inOrder_mapPages (pfn n : Nat) : (st.mapPages pfn n).InOrder := by
  induction n generalizing st pfn with
  | zero => exact h
  | succ n ih => exact ih (inOrder_next h rfl rfl rfl) (pfn + 1)

theorem inOrder_mapRest (isWrite : Bool) (pfn remain : Nat) : (st.mapRest isWrite pfn remain).InOrder := by
  have hpages := inOrder_mapPages h pfn (remain / pageSize)
  simp only [MapState.mapRest]
  split
  · exact inOrder_mapReserved hpages isWrite _ _ _
  · exact hpages

theorem inOrder_mapSegment (isWrite : Bool) (bvec : Seg) : (mapSegment isWrite st bvec).InOrder := by
  have hentry := inOrder_listEntry h bvec
  simp only [mapSegment]
  split
  · have hfirst := inOrder_mapReserved hentry isWrite bvec.page bvec.offset (min (pageSize - bvec.offset) bvec.len)
    split
    · exact hfirst
    · exact inOrder_mapRest hfirst isWrite _ _
  · exact inOrder_mapRest hentry isWrite _ _

end

theorem setPtes_mapSegments (isWrite : Bool) (vmStart : Nat) (segs : List Seg) :
    (mapSegments isWrite vmStart segs).InOrder := by
  have hinit : (MapState.init vmStart).InOrder := rfl
  unfold mapSegments
  generalize MapState.init vmStart = st at hinit
  induction segs generalizing st with
  | nil => exact hinit
  | cons seg segs ih => exact ih _ (inOrder_mapSegment hinit isWrite seg)

/-! ## The two functions -/

/-- `bius_map_data` sets the entries of `mapped_size / PAGE_SIZE` whole pages, each
    once. -/
theorem biusMapData_pages {r : BiusRequest} (hr : r.mapType = .unmapped) (vmStart : Nat) (segs : List Seg) :
    ∃ n, (biusMapData r vmStart segs).2.mappedSize = pageSize * n ∧
      setPtes (biusMapData r vmStart segs).1 = List.range n := by
  have hset := setPtes_mapSegments (requestIsWrite r.type) vmStart segs
  have haddr := (placed_mapSegments (requestIsWrite r.type) vmStart segs).addr
  unfold MapState.InOrder at hset
  generalize hst : mapSegments (requestIsWrite r.type) vmStart segs = st at hset haddr
  have hsize : st.userAddr - vmStart = pageSize * st.userPageNum := by
    rw [haddr, Nat.add_sub_cancel_left]
  simp only [biusMapData, hr, bne_self_eq_false, Bool.false_eq_true, if_false, hst]
  split
  · -- the list page comes behind the pages of the data
    refine ⟨st.userPageNum + 1, ?_, ?_⟩
    · show st.userAddr + pageSize - vmStart = _
      rw [haddr, Nat.mul_succ, Nat.add_assoc, Nat.add_sub_cancel_left]
    · rw [setPtes_append, hset, List.range_succ]
      rfl
  · split
    · refine ⟨st.userPageNum, hsize, ?_⟩
      rw [setPtes_append, hset]
      exact List.append_nil _
    · refine ⟨st.userPageNum, hsize, ?_⟩
      rw [setPtes_append, hset]
      exact List.append_nil _

theorem mapPtes_of_not_mem {eff : List MapEffect} {i : Nat} (h : i ∉ setPtes eff) (ptes : Nat → Frame) :
    Kernel.mapPtes ptes eff i = ptes i := by
  rcases mapPtes_cases none eff ptes (fun _ => none) i with ⟨f, hf, -⟩ | ⟨-, hkept, -⟩
  · exact absurd (mem_setPtes.2 ⟨f, hf⟩) h
  · exact hkept

theorem biusUnmapData_mapType (r : BiusRequest) (vmStart : Nat) : (biusUnmapData r vmStart).2.mapType = .unmapped := by
  unfold biusUnmapData
  split
  · next h => exact h
  · rfl

/-- **Unmapping undoes mapping.** For any request whose segments fit the tables, from a
    window whose entries all point to the zero page: `bius_map_data` sets the entries
    of the pages below `mapped_size`, each once, and no other, and `bius_unmap_data`
    leaves the window as it was before. -/
theorem unmap_undoes_map (old : BiusRequest) (id : Nat) (rq : Rq) (vmStart : Nat) (ptes : Nat → Frame)
    (hfits : ∀ e ∈ (biusMapData (initBlkRequest old id rq) vmStart (rqForEachSegment rq.bios)).1, e.InBounds)
    (hzero : ∀ i < biusPtesPerCommand, ptes i = .zero) :
    let map := biusMapData (initBlkRequest old id rq) vmStart (rqForEachSegment rq.bios)
    let unmap := biusUnmapData map.2 vmStart
    (∃ n, map.2.mappedSize = pageSize * n ∧ setPtes map.1 = List.range n) ∧
      (∀ i, map.2.mappedSize ≤ pageSize * i → Kernel.mapPtes ptes map.1 i = ptes i) ∧
      Kernel.mapPtes (Kernel.mapPtes ptes map.1) unmap.1 = ptes ∧ unmap.2.mapType = .unmapped := by
  intro map unmap
  obtain ⟨n, hsize, hset⟩ : ∃ n, map.2.mappedSize = pageSize * n ∧ setPtes map.1 = List.range n :=
    biusMapData_pages rfl vmStart _
  have hpages : map.2.mappedSize / pageSize = n := by rw [hsize, Nat.mul_div_cancel_left n (by decide)]
  have hkept : ∀ i, n ≤ i → Kernel.mapPtes ptes map.1 i = ptes i := by
    intro i hi
    apply mapPtes_of_not_mem
    rw [hset, List.mem_range]
    omega
  have hwindow : ∀ i < n, ptes i = .zero := by
    intro i hi
    obtain ⟨f, hf⟩ := mem_setPtes.1 (show i ∈ setPtes map.1 by rw [hset]; exact List.mem_range.2 hi)
    exact hzero i (hfits _ hf).1
  refine ⟨⟨n, hsize, hset⟩, fun i hi => ?_, ?_, biusUnmapData_mapType _ _⟩
  · rw [hsize] at hi
    exact hkept i (Nat.le_of_mul_le_mul_left hi (by decide))
  · funext i
    by_cases hm : map.2.mapType = .unmapped
    · -- nothing has been mapped
      have hunmap : unmap.1 = [] := by
        show (biusUnmapData map.2 vmStart).1 = []
        rw [biusUnmapData, if_pos hm]
      rw [hunmap]
      show Kernel.mapPtes ptes map.1 i = ptes i
      apply mapPtes_of_not_mem
      intro hi
      obtain ⟨f, hf⟩ := mem_setPtes.1 hi
      exact (biusMapData_setPte hf).1 hm
    · by_cases hi : i < n
      · rw [hwindow i hi]
        by_contra hne
        have hge := (unmapData_ptes hm vmStart _ (fun _ => none) i hne).1
        omega
      · have hunset : i ∉ setPtes unmap.1 := by
          intro hmem
          obtain ⟨f, hf⟩ := mem_setPtes.1 hmem
          change .setPte i f ∈ (biusUnmapData map.2 vmStart).1 at hf
          rw [biusUnmapData, if_neg hm, hpages] at hf
          simp only [List.mem_append, List.mem_map, List.mem_range, List.mem_singleton] at hf
          rcases hf with ⟨j, hj, heq⟩ | heq
          · cases heq
            exact hi hj
          · cases heq
        rw [mapPtes_of_not_mem hunset]
        exact hkept i (by omega)

theorem pagesRead_inBounds :
    ∀ e ∈ (biusMapData (initBlkRequest .blank 1 pagesRead) 0x7f0000000000 (rqForEachSegment pagesRead.bios)).1,
      e.InBounds := by
  rw [pagesRead_segments]
  exact biusMapData_inBounds rfl _ (splitPages_ok (by decide) (by decide)) (by decide) (by decide) (by decide)

theorem unmap_undoes_map_pagesRead :
    let map := biusMapData (initBlkRequest .blank 1 pagesRead) 0x7f0000000000 (rqForEachSegment pagesRead.bios)
    biusMapDataThreshold < pagesRead.dataLen ∧ Kernel.mapPtes (fun _ => .zero) map.1 0 = .data 100 ∧
      Kernel.mapPtes (Kernel.mapPtes (fun _ => .zero) map.1) (biusUnmapData map.2 0x7f0000000000).1 = fun _ => .zero := by
  refine ⟨by decide, pagesRead_ptes, ?_⟩
  exact (unmap_undoes_map .blank 1 pagesRead 0x7f0000000000 (fun _ => .zero) pagesRead_inBounds (fun _ _ => rfl)).2.2.1

end Bius
