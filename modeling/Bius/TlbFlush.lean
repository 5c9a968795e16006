import Bius.Unmapping

/- The flushes of `bius_map_data` and `bius_unmap_data`. Both call `flush_tlb_mm_range`
   with the start of the window and `mapped_size`, where the function expects the end of
   the range. So the range is `[vm_start, mapped_size)`, and what it covers is a matter of
   the address that userspace has given the window: for a window far above `mapped_size`
   the length wraps around to almost 2^64 and everything is flushed, for a window at 0 the
   range is the right one, and in between the last pages are left out.

   How many window pages a request takes is a sum over its segments
   (`Seg.windowPages`), and one more for the list (`mappedPages`). `flushes_changes_iff`
   says for which of them, and for which addresses, every changed page is flushed. -/
namespace Bius

/-! ## `flush_tlb_mm_range` -/

/-- `flush_tlb_mm_range(mm, start, stop, PAGE_SHIFT, false)` leaves no translation of the
    page at `addr`. Ranges of more than `ceiling` pages flush everything. -/
def Invalidates (ceiling start stop addr : Nat) : Prop :=
  ceiling < sub64 stop start / pageSize ∨ start ≤ addr ∧ addr < stop

instance (ceiling start stop addr : Nat) : Decidable (Invalidates ceiling start stop addr) :=
  inferInstanceAs (Decidable (_ ∨ _ ∧ _))

/-- Whatever the entries of the window at `vmStart` have been, after the stores `eff` no
    translation is left that differs from its entry: each page whose entry has changed is
    flushed after the last store to it. -/
def FlushesChanges (ceiling vmStart : Nat) (eff : List MapEffect) : Prop :=
  ∀ (ptes : Nat → Frame) (i : Nat), Kernel.mapPtes ptes eff i ≠ ptes i →
    ∃ before start stop after, eff = before ++ .flushTlb start stop :: after ∧ i ∉ setPtes after ∧
      Invalidates ceiling start stop (vmStart + pageSize * i)

/-- A frame other than a given one. -/
def Frame.other (f : Frame) : Frame := if f = .zero then .data 0 else .zero

theorem Frame.other_ne (f : Frame) : f ≠ f.other := by
  unfold Frame.other
  split
  · next h => rw [h]; simp
  · next h => exact h

/-- Every entry that the stores set may have been a different one before. -/
theorem exists_ptes_changed (eff : List MapEffect) :
    ∃ ptes, ∀ i ∈ setPtes eff, Kernel.mapPtes ptes eff i ≠ ptes i := by
  have hset : ∀ (ptes ptes' : Nat → Frame) (i : Nat), i ∈ setPtes eff →
      Kernel.mapPtes ptes eff i = Kernel.mapPtes ptes' eff i := by
    intro ptes ptes' i hi
    induction eff using List.reverseRecOn with
    | nil => cases hi
    | append_singleton eff e ih =>
      cases e with
      | setPte j f =>
        rw [setPtes_append] at hi
        by_cases hij : i = j
        · simp [Kernel.mapPtes, hij]
        · have hlast : i ∉ setPtes [MapEffect.setPte j f] := by
            simp [setPtes, hij]
          have hmem : i ∈ setPtes eff := (List.mem_append.1 hi).resolve_right hlast
          simpa [Kernel.mapPtes, hij] using ih hmem
      | _ =>
        rw [setPtes_append] at hi
        have hmem : i ∈ setPtes eff := by simpa [setPtes] using hi
        simpa [Kernel.mapPtes] using ih hmem
  refine ⟨fun i => (Kernel.mapPtes (fun _ => .zero) eff i).other, fun i hi => ?_⟩
  rw [hset _ (fun _ => .zero) i hi]
  exact Frame.other_ne _

/-- The flush of `n` pages from `start` on, as the two functions call it: the size of the
    range stands where its end should. -/
def FlushReaches (ceiling start n : Nat) : Prop :=
  n = 0 ∨ start = 0 ∨ ceiling < sub64 (pageSize * n) start / pageSize

instance (ceiling start n : Nat) : Decidable (FlushReaches ceiling start n) := inferInstanceAs (Decidable (_ ∨ _ ∨ _))

/-- Stores to the first `n` entries, and behind them one flush with their size. -/
theorem flushesChanges_iff {ceiling vmStart n : Nat} (ha : pageSize ∣ vmStart) {eff : List MapEffect}
    (hset : setPtes eff = List.range n) (hflush : ∀ start stop, .flushTlb start stop ∉ eff) :
    FlushesChanges ceiling vmStart (eff ++ [.flushTlb vmStart (pageSize * n)]) ↔ FlushReaches ceiling vmStart n := by
  have hsets : setPtes (eff ++ [.flushTlb vmStart (pageSize * n)]) = List.range n := by
    rw [setPtes_append, hset]
    exact List.append_nil _
  constructor
  · intro h
    obtain ⟨ptes, hptes⟩ := exists_ptes_changed (eff ++ [.flushTlb vmStart (pageSize * n)])
    rw [hsets] at hptes
    by_cases hn : n = 0
    · exact Or.inl hn
    · -- the last page is the one that the range misses
      obtain ⟨before, start, stop, after, heq, -, hinv⟩ := h ptes (n - 1) (hptes (n - 1) (List.mem_range.2 (by omega)))
      have hmem : MapEffect.flushTlb start stop ∈ eff ++ [.flushTlb vmStart (pageSize * n)] := by rw [heq]; simp
      rcases List.mem_append.1 hmem with hin | hin
      · exact absurd hin (hflush start stop)
      · cases List.mem_singleton.1 hin
        rcases hinv with hall | ⟨-, hbelow⟩
        · exact Or.inr (Or.inr hall)
        · obtain ⟨k, rfl⟩ := ha
          have hk : k = 0 := by
            rw [← Nat.mul_add] at hbelow
            have hlt : k + (n - 1) < n := Nat.lt_of_mul_lt_mul_left hbelow
            omega
          exact Or.inr (Or.inl (by rw [hk, Nat.mul_zero]))
  · intro h ptes i hi
    have hin : i < n := by
      apply List.mem_range.1
      by_contra hnot
      exact hi (mapPtes_of_not_mem (by rw [hsets]; exact hnot) ptes)
    refine ⟨eff, vmStart, pageSize * n, [], rfl, by simp [setPtes], ?_⟩
    rcases h with hn | hzero | hall
    · omega
    · subst hzero
      refine Or.inr ⟨Nat.zero_le _, ?_⟩
      rw [Nat.zero_add]
      exact Nat.mul_lt_mul_of_pos_left hin (by decide)
    · exact Or.inl hall

/-- For the addresses of a process: the window begins inside of the first `mapped_size`
    bytes of the address space, but not too low. -/
theorem flushReaches_user {ceiling start n : Nat} (hstart : start < 2 ^ 47) (hn : pageSize * n < 2 ^ 63)
    (hceiling : ceiling < 2 ^ 51) : FlushReaches ceiling start n ↔
      ¬ (0 < n ∧ 0 < start ∧ start ≤ pageSize * n ∧ pageSize * n < start + pageSize * (ceiling + 1)) := by
  unfold FlushReaches sub64
  simp only [pageSize] at *
  omega

/-! ## The number of pages -/

/-- The whole pages that `len` bytes need. -/
def pagesFor (len : Nat) : Nat := (len + (pageSize - 1)) / pageSize

/-- The window pages of a segment: one for the rest of its first page, and those of what
    follows. -/
def Seg.windowPages (s : Seg) : Nat :=
  if s.offset = 0 then pagesFor s.len else 1 + pagesFor (s.len - (pageSize - s.offset))

/-- The segment ends where a page ends. -/
def Seg.endsPage (s : Seg) : Bool :=
  if s.offset = 0 then s.len % pageSize == 0
  else decide (pageSize - s.offset ≤ s.len) && (s.len - (pageSize - s.offset)) % pageSize == 0

/-- The list entries of the segments, if the one before them ends where a page ends
    (`aligned`). -/
def entryCount : Bool → List Seg → Nat
  | _, [] => 0
  | aligned, s :: segs => (if !aligned || s.offset != 0 then 1 else 0) + entryCount s.endsPage segs

/-- The pages of the window that a request with these segments takes. -/
def mappedPages (segs : List Seg) : Nat :=
  (segs.map Seg.windowPages).sum + (if 1 < entryCount false segs then 1 else 0)

/-- What the loop counts, from `st` to `st'`. -/
structure MapState.Counts (st st' : MapState) (pages entries : Nat) (aligned : Bool) : Prop where
  page : st'.userPageNum = st.userPageNum + pages
  entry : st'.listEntryIndex = st.listEntryIndex + entries
  ends : st'.segmentEndAligned = aligned

theorem counts_mapPages (st : MapState) (pfn n : Nat) : st.Counts (st.mapPages pfn n) n 0 st.segmentEndAligned := by
  induction n generalizing st pfn with
  | zero => exact ⟨rfl, rfl, rfl⟩
  | succ n ih =>
    obtain ⟨hpage, hentry, hends⟩ := ih (st.mapPage pfn) (pfn + 1)
    refine ⟨?_, hentry, hends⟩
    show ((st.mapPage pfn).mapPages (pfn + 1) n).userPageNum = st.userPageNum + (n + 1)
    rw [hpage]
    simp only [MapState.mapPage]
    omega

theorem counts_mapRest (st : MapState) (isWrite : Bool) (pfn remain : Nat) :
    st.Counts (st.mapRest isWrite pfn remain) (pagesFor remain) 0 (remain % pageSize == 0) := by
  obtain ⟨hpage, hentry, -⟩ := counts_mapPages st pfn (remain / pageSize)
  have hpages : pagesFor remain = remain / pageSize + (if remain % pageSize > 0 then 1 else 0) := by
    unfold pagesFor
    by_cases hrest : remain % pageSize > 0
    · rw [if_pos hrest]
      simp only [pageSize] at *
      omega
    · rw [if_neg hrest]
      simp only [pageSize] at *
      omega
  simp only [MapState.mapRest]
  rw [hpages]
  split
  · next h =>
    refine ⟨?_, hentry, ?_⟩
    · show (st.mapPages pfn (remain / pageSize)).userPageNum + 1 = _
      rw [hpage, Nat.add_assoc]
    · show false = _
      simp only [beq_eq_false_iff_ne.2 (Nat.ne_of_gt h)]
  · next h =>
    refine ⟨hpage, hentry, ?_⟩
    show true = _
    simp [Nat.eq_zero_of_not_pos h]

theorem counts_mapSegment (st : MapState) (isWrite : Bool) (s : Seg) :
    st.Counts (mapSegment isWrite st s) s.windowPages (if !st.segmentEndAligned || s.offset != 0 then 1 else 0)
      s.endsPage := by
  have hpage : (st.listEntry s).userPageNum = st.userPageNum := by
    simp only [MapState.listEntry]
    split <;> rfl
  have hentry : (st.listEntry s).listEntryIndex =
      st.listEntryIndex + (if !st.segmentEndAligned || s.offset != 0 then 1 else 0) := by
    simp only [MapState.listEntry]
    split <;> rfl
  by_cases ho : s.offset = 0
  · obtain ⟨hp, he, hends⟩ := counts_mapRest (st.listEntry s) isWrite s.page s.len
    simp only [mapSegment, ho, ne_eq, not_true_eq_false, if_false]
    refine ⟨?_, ?_, ?_⟩
    · rw [hp, hpage, Seg.windowPages, if_pos ho]
    · rw [he, hentry, ho, Nat.add_zero]
    · rw [hends, Seg.endsPage, if_pos ho]
  · simp only [mapSegment, ho, ne_eq, not_false_eq_true, if_true]
    by_cases hfit : pageSize - s.offset ≤ s.len
    · -- the first page is shown to its end
      rw [Nat.min_eq_left hfit, if_neg (by simp)]
      obtain ⟨hp, he, hends⟩ := counts_mapRest
        ((st.listEntry s).mapReserved isWrite s.page s.offset (pageSize - s.offset))
        isWrite (s.page + 1) (s.len - (pageSize - s.offset))
      refine ⟨?_, ?_, ?_⟩
      · rw [hp, Seg.windowPages, if_neg ho]
        show (st.listEntry s).userPageNum + 1 + _ = _
        rw [hpage, Nat.add_assoc]
      · rw [he]
        show (st.listEntry s).listEntryIndex + 0 = _
        rw [hentry, Nat.add_zero]
      · rw [hends, Seg.endsPage, if_neg ho]
        simp [hfit]
    · -- the segment ends before its first page does
      have hlen : s.len - (pageSize - s.offset) = 0 := by omega
      rw [Nat.min_eq_right (by omega), if_pos (by omega)]
      refine ⟨?_, ?_, ?_⟩
      · show (st.listEntry s).userPageNum + 1 = _
        rw [hpage, Seg.windowPages, if_neg ho, hlen]
        rfl
      · show (st.listEntry s).listEntryIndex = _
        exact hentry
      · show false = _
        rw [Seg.endsPage, if_neg ho]
        simp [hfit]

theorem counts_mapSegments (isWrite : Bool) (vmStart : Nat) (segs : List Seg) :
    (mapSegments isWrite vmStart segs).userPageNum = (segs.map Seg.windowPages).sum ∧
      (mapSegments isWrite vmStart segs).listEntryIndex = entryCount false segs := by
  have hloop : ∀ st : MapState,
      (segs.foldl (mapSegment isWrite) st).userPageNum = st.userPageNum + (segs.map Seg.windowPages).sum ∧
        (segs.foldl (mapSegment isWrite) st).listEntryIndex = st.listEntryIndex + entryCount st.segmentEndAligned
          segs := by
    induction segs with
    | nil => exact fun st => ⟨rfl, rfl⟩
    | cons s segs ih =>
      intro st
      obtain ⟨hpage, hentry, hends⟩ := counts_mapSegment st isWrite s
      obtain ⟨hp, he⟩ := ih (mapSegment isWrite st s)
      refine ⟨?_, ?_⟩
      · rw [List.foldl_cons, hp, hpage, List.map_cons, List.sum_cons, Nat.add_assoc]
      · rw [List.foldl_cons, he, hentry, hends, entryCount, Nat.add_assoc]
  obtain ⟨hp, he⟩ := hloop (MapState.init vmStart)
  exact ⟨hp.trans (Nat.zero_add _), he.trans (Nat.zero_add _)⟩

/-! ## The two functions -/

theorem flushTlb_not_mem_mapSegments (isWrite : Bool) (vmStart : Nat) (segs : List Seg) (start stop : Nat) :
    .flushTlb start stop ∉ (mapSegments isWrite vmStart segs).eff := by
  have hmapPages : ∀ (n pfn : Nat) (st : MapState), .flushTlb start stop ∉ st.eff →
      .flushTlb start stop ∉ (st.mapPages pfn n).eff := by
    intro n
    induction n with
    | zero => exact fun pfn st h => h
    | succ n ih =>
      intro pfn st h
      exact ih (pfn + 1) (st.mapPage pfn) (by simpa [MapState.mapPage] using h)
  have hmapReserved : ∀ (st : MapState) (pfn off len : Nat), .flushTlb start stop ∉ st.eff →
      .flushTlb start stop ∉ (st.mapReserved isWrite pfn off len).eff := by
    intro st pfn off len h
    simpa [MapState.mapReserved] using h
  have hmapRest : ∀ (st : MapState) (pfn remain : Nat), .flushTlb start stop ∉ st.eff →
      .flushTlb start stop ∉ (st.mapRest isWrite pfn remain).eff := by
    intro st pfn remain h
    simp only [MapState.mapRest]
    split
    · exact hmapReserved _ _ _ _ (hmapPages _ _ _ h)
    · exact hmapPages _ _ _ h
  have hstep : ∀ (st : MapState) (s : Seg), .flushTlb start stop ∉ st.eff →
      .flushTlb start stop ∉ (mapSegment isWrite st s).eff := by
    intro st s h
    have hentry : .flushTlb start stop ∉ (st.listEntry s).eff := by
      simp only [MapState.listEntry]
      split <;> simpa using h
    simp only [mapSegment]
    split
    · split
      · exact hmapReserved _ _ _ _ hentry
      · exact hmapRest _ _ _ (hmapReserved _ _ _ _ hentry)
    · exact hmapRest _ _ _ hentry
  have hinit : .flushTlb start stop ∉ (MapState.init vmStart).eff := by simp [MapState.init]
  unfold mapSegments
  generalize MapState.init vmStart = st at hinit
  induction segs generalizing st with
  | nil => exact hinit
  | cons s segs ih => exact ih _ (hstep st s hinit)

/-- `bius_map_data` sets the entries of the first `mappedPages` pages, and flushes with
    their size. -/
theorem biusMapData_flush {r : BiusRequest} (hr : r.mapType = .unmapped) (vmStart : Nat) (segs : List Seg) :
    (biusMapData r vmStart segs).2.mappedSize = pageSize * mappedPages segs ∧
      ∃ eff, (biusMapData r vmStart segs).1 = eff ++ [.flushTlb vmStart (pageSize * mappedPages segs)] ∧
        setPtes eff = List.range (mappedPages segs) ∧ ∀ start stop, .flushTlb start stop ∉ eff := by
  have hset := setPtes_mapSegments (requestIsWrite r.type) vmStart segs
  have haddr := (placed_mapSegments (requestIsWrite r.type) vmStart segs).addr
  obtain ⟨hpages, hentries⟩ := counts_mapSegments (requestIsWrite r.type) vmStart segs
  have hnone := flushTlb_not_mem_mapSegments (requestIsWrite r.type) vmStart segs
  unfold MapState.InOrder at hset
  generalize hst : mapSegments (requestIsWrite r.type) vmStart segs = st at hset haddr hpages hentries hnone
  simp only [biusMapData, hr, bne_self_eq_false, Bool.false_eq_true, if_false, hst, hentries]
  by_cases hlist : 1 < entryCount false segs
  · have hcount : mappedPages segs = st.userPageNum + 1 := by rw [mappedPages, if_pos hlist, hpages]
    have hsize : st.userAddr + pageSize - vmStart = pageSize * mappedPages segs := by
      rw [haddr, hcount, Nat.mul_succ, Nat.add_assoc, Nat.add_sub_cancel_left]
    rw [if_pos hlist, hsize]
    refine ⟨rfl, st.eff ++ [.setPte st.userPageNum (.reserved 0), .terminate (entryCount false segs)], ?_, ?_, ?_⟩
    · simp
    · rw [setPtes_append, hset, hcount, List.range_succ]
      rfl
    · intro start stop hmem
      rcases List.mem_append.1 hmem with hin | hin
      · exact hnone start stop hin
      · simp at hin
  · have hcount : mappedPages segs = st.userPageNum := by rw [mappedPages, if_neg hlist, hpages, Nat.add_zero]
    have hsize : st.userAddr - vmStart = pageSize * mappedPages segs := by
      rw [haddr, hcount, Nat.add_sub_cancel_left]
    rw [if_neg hlist, hsize]
    split
    · exact ⟨rfl, st.eff, rfl, by rw [hset, hcount], hnone⟩
    · exact ⟨rfl, st.eff, rfl, by rw [hset, hcount], hnone⟩

/-- `bius_unmap_data` of a request that is mapped to `n` pages. -/
theorem biusUnmapData_flush {r : BiusRequest} (hr : r.mapType ≠ .unmapped) {n : Nat}
    (hsize : r.mappedSize = pageSize * n) (vmStart : Nat) :
      ∃ eff, (biusUnmapData r vmStart).1 = eff ++ [.flushTlb vmStart (pageSize * n)] ∧
      setPtes eff = List.range n ∧ ∀ start stop, .flushTlb start stop ∉ eff := by
  have hpages : r.mappedSize / pageSize = n := by rw [hsize, Nat.mul_div_cancel_left n (by decide)]
  refine ⟨(List.range n).map (fun i => .setPte i .zero), ?_, ?_, fun start stop => by simp⟩
  · rw [biusUnmapData, if_neg hr, hpages, hsize]
  · unfold setPtes
    rw [List.filterMap_map]
    exact List.filterMap_some

section
variable (ceiling : Nat) (old : BiusRequest) (id : Nat) (rq : Rq)

theorem flushesChanges_map {vmStart : Nat} (ha : pageSize ∣ vmStart) :
    FlushesChanges ceiling vmStart (biusMapData (initBlkRequest old id rq) vmStart (rqForEachSegment rq.bios)).1 ↔
      FlushReaches ceiling vmStart (mappedPages (rqForEachSegment rq.bios)) := by
  obtain ⟨-, eff, heff, hset, hnone⟩ :=
    biusMapData_flush (r := initBlkRequest old id rq) rfl vmStart (rqForEachSegment rq.bios)
  rw [heff]
  exact flushesChanges_iff ha hset hnone

/-- The flush of `bius_unmap_data`, of a request mapped before, maybe at another address. -/
theorem flushesChanges_unmap (vmStart : Nat) {vmStart' : Nat} (ha : pageSize ∣ vmStart') :
    FlushesChanges ceiling vmStart'
        (biusUnmapData (biusMapData (initBlkRequest old id rq) vmStart (rqForEachSegment rq.bios)).2 vmStart').1 ↔
      FlushReaches ceiling vmStart' (mappedPages (rqForEachSegment rq.bios)) := by
  obtain ⟨hsize, eff, heff, hset, -⟩ :=
    biusMapData_flush (r := initBlkRequest old id rq) rfl vmStart (rqForEachSegment rq.bios)
  by_cases hm : (biusMapData (initBlkRequest old id rq) vmStart (rqForEachSegment rq.bios)).2.mapType = .unmapped
  · -- nothing has been mapped, and nothing is unmapped
    have hnothing : mappedPages (rqForEachSegment rq.bios) = 0 := by
      by_contra hn
      have hmem : 0 ∈ setPtes eff := by
        rw [hset]
        exact List.mem_range.2 (Nat.pos_of_ne_zero hn)
      obtain ⟨f, hf⟩ := mem_setPtes.1 hmem
      refine (biusMapData_setPte (r := initBlkRequest old id rq) (i := 0) (f := f) ?_).1 hm
      rw [heff]
      exact List.mem_append_left _ hf
    rw [biusUnmapData, if_pos hm]
    exact ⟨fun _ => Or.inl hnothing, fun _ ptes i hi => absurd rfl hi⟩
  · obtain ⟨eff', heff', hset', hnone'⟩ := biusUnmapData_flush hm hsize vmStart'
    rw [heff']
    exact flushesChanges_iff ha hset' hnone'

theorem unmapped_zero (vmStart vmStart' : Nat) (ptes : Nat → Frame) {i : Nat}
    (hi : i < mappedPages (rqForEachSegment rq.bios)) :
    Kernel.mapPtes ptes
      (biusUnmapData (biusMapData (initBlkRequest old id rq) vmStart (rqForEachSegment rq.bios)).2 vmStart').1 i =
        .zero := by
  obtain ⟨hsize, eff, heff, hset, -⟩ :=
    biusMapData_flush (r := initBlkRequest old id rq) rfl vmStart (rqForEachSegment rq.bios)
  obtain ⟨f, hf⟩ : ∃ f, .setPte i f ∈ eff := mem_setPtes.1 (by rw [hset]; exact List.mem_range.2 hi)
  have hm : (biusMapData (initBlkRequest old id rq) vmStart (rqForEachSegment rq.bios)).2.mapType ≠ .unmapped :=
    (biusMapData_setPte (i := i) (f := f) (by rw [heff]; exact List.mem_append_left _ hf)).1
  by_contra hne
  have hge := (unmapData_ptes hm vmStart' _ (fun _ => none) i hne).1
  rw [hsize, Nat.mul_div_cancel_left _ (by decide)] at hge
  omega

end

/-- **Which changed translations are flushed.** For every request, every page-aligned
    address `vmStart` of the window at which it is mapped and `vmStart'` of the one from
    which it is unmapped: each of the two calls flushes what it has changed exactly when
    the flush of the pages that the request takes reaches them. For the addresses of a
    process it does not where the window begins below `mapped_size` bytes, above 0 and not
    so low that the whole range is flushed. -/
theorem flushes_changes_iff (ceiling : Nat) (old : BiusRequest) (id : Nat) (rq : Rq) {vmStart vmStart' : Nat}
    (ha : pageSize ∣ vmStart) (ha' : pageSize ∣ vmStart') :
    let map := biusMapData (initBlkRequest old id rq) vmStart (rqForEachSegment rq.bios)
    let unmap := biusUnmapData map.2 vmStart'
    (FlushesChanges ceiling vmStart map.1 ↔ FlushReaches ceiling vmStart (mappedPages (rqForEachSegment rq.bios))) ∧
      (FlushesChanges ceiling vmStart' unmap.1 ↔
        FlushReaches ceiling vmStart' (mappedPages (rqForEachSegment rq.bios))) ∧
      ∀ n start, n = mappedPages (rqForEachSegment rq.bios) → start < 2 ^ 47 → pageSize * n < 2 ^ 63 →
        ceiling < 2 ^ 51 →
        (FlushReaches ceiling start n ↔
          ¬ (0 < n ∧ 0 < start ∧ start ≤ pageSize * n ∧ pageSize * n < start + pageSize * (ceiling + 1))) := by
  intro map unmap
  exact ⟨flushesChanges_map ceiling old id rq ha, flushesChanges_unmap ceiling old id rq vmStart ha',
    fun n start _ hstart hn hceiling => flushReaches_user hstart hn hceiling⟩

theorem pagesRead_mappedPages : mappedPages (rqForEachSegment pagesRead.bios) = 33 := by
  rw [pagesRead_segments]
  decide +kernel

theorem flushes_changes_iff_pagesRead :
    let map := biusMapData (initBlkRequest .blank 1 pagesRead) 0x7f0000000000 (rqForEachSegment pagesRead.bios)
    let unmap := biusUnmapData map.2 0x7f0000000000
    FlushesChanges 33 0x7f0000000000 map.1 ∧ FlushesChanges 33 0x7f0000000000 unmap.1 := by
  have hreach : FlushReaches 33 0x7f0000000000 (mappedPages (rqForEachSegment pagesRead.bios)) := by
    rw [pagesRead_mappedPages]
    decide
  have haligned : pageSize ∣ 0x7f0000000000 := by decide
  have h := flushes_changes_iff 33 .blank 1 pagesRead haligned haligned
  exact ⟨h.1.2 hreach, h.2.1.2 hreach⟩

/-- Its window lies at 64 KiB, the lowest address of a process by default, and 33 is the
    usual ceiling. The entry of the last page changes, the flush is one of the 17 pages up
    to 132 KiB, and the page lies behind them, at 192 KiB; the same when it is unmapped. -/
theorem flush_misses_pagesRead :
    let map := biusMapData (initBlkRequest .blank 1 pagesRead) 0x10000 (rqForEachSegment pagesRead.bios)
    let unmap := biusUnmapData map.2 0x10000
    biusMapDataThreshold < pagesRead.dataLen ∧ Kernel.mapPtes (fun _ => .zero) map.1 32 = .data 132 ∧
      Kernel.mapPtes (Kernel.mapPtes (fun _ => .zero) map.1) unmap.1 32 = .zero ∧
      map.2.mappedSize = 135168 ∧ ¬ Invalidates 33 0x10000 135168 (0x10000 + pageSize * 32) ∧
      ¬ FlushesChanges 33 0x10000 map.1 ∧ ¬ FlushesChanges 33 0x10000 unmap.1 := by
  have hmiss : ¬ FlushReaches 33 0x10000 (mappedPages (rqForEachSegment pagesRead.bios)) := by
    rw [pagesRead_mappedPages]
    decide
  obtain ⟨hsize, -⟩ :=
    biusMapData_flush (r := initBlkRequest .blank 1 pagesRead) rfl 0x10000 (rqForEachSegment pagesRead.bios)
  rw [pagesRead_mappedPages] at hsize
  have hpte : Kernel.mapPtes (fun _ => .zero)
      (biusMapData (initBlkRequest .blank 1 pagesRead) 0x10000 (rqForEachSegment pagesRead.bios)).1 32 = .data 132 := by
    rw [pagesRead_segments]
    simp only [biusMapData, initBlkRequest]
    rfl
  have hback := fun ptes => unmapped_zero .blank 1 pagesRead 0x10000 0x10000 ptes (i := 32)
    (by rw [pagesRead_mappedPages]; decide)
  have haligned : pageSize ∣ 0x10000 := by decide
  have hmap := flushesChanges_map 33 .blank 1 pagesRead haligned
  have hunmap := flushesChanges_unmap 33 .blank 1 pagesRead 0x10000 haligned
  refine ⟨by decide, hpte, hback _, hsize, by decide, fun h => hmiss (hmap.1 h), fun h => hmiss (hunmap.1 h)⟩

end Bius
