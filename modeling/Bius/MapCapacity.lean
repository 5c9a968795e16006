import Bius.MapLayout

/- Capacity of the mapping tables (`BIUS_NUM_RESERVED_PAGES`, the list page, and
   `connection->ptes`). A store is in bounds when every table it indexes is long
   enough (`MapEffect.InBounds`). For a request inside the queue limits that
   `create_block_device` sets, the list page and the page-table pointers always
   suffice; the bounce pages suffice exactly when the request covers at most
   `BIUS_MAX_SEGMENTS` pages in part (`biusMapData_inBounds_iff`). A segment that
   starts and ends inside a page takes two of them, so 129 segments are enough
   to run past the reserved pages (`biusMapData_overruns`). -/
namespace Bius

/-- The block layer's default for the largest segment. -/
def blkMaxSegmentSize : Nat := 64 * 1024

/-- The store stays inside the tables: bounce pages below
    `BIUS_NUM_RESERVED_PAGES`, list words below the slots in use (the first two
    slots of `reserve_mapping_list` are free), page-table pointers below
    `BIUS_PTES_PER_COMMAND`. -/
def MapEffect.InBounds : MapEffect → Prop
  | .newEntry i _ => 2 * i + 1 < reserveBase + 2
  | .growEntry i _ => 2 * i - 1 < reserveBase + 2
  | .bounce k _ _ _ _ => k < biusNumReservedPages
  | .setPte i f => i < biusPtesPerCommand ∧ ∀ k, f = .reserved k → k < biusNumReservedPages
  | .setSlot k _ => k < biusNumReservedPages
  | .terminate i => 2 * i + 1 < reserveBase + 2
  | .flushTlb _ _ => True

/-- What the block layer may submit under the limits of `create_block_device`:
    physically contiguous segments, sector-aligned. -/
structure QueueLimits (phys : List Seg) : Prop where
  count : phys.length ≤ biusMaxSegments
  seg : ∀ p ∈ phys, 0 < p.len ∧ p.len ≤ blkMaxSegmentSize ∧ p.offset < pageSize ∧
    p.offset % sectorSize = 0 ∧ p.len % sectorSize = 0
  total : (phys.map Seg.len).sum ≤ biusMaxSizePerCommand

/-- The single-page segments of a list of contiguous ones. -/
def pieces (phys : List Seg) : List Seg := phys.flatMap (fun p => splitPages p.page p.offset p.len)

/-! ## The pieces of a contiguous segment -/

theorem splitPages_ok {page offset len : Nat} (ho : offset < pageSize) (hl : 0 < len) :
    ∀ s ∈ splitPages page offset len, s.Ok := by
  intro s hs
  simp only [splitPages, List.cons_append, List.mem_cons, List.mem_append, List.mem_map] at hs
  rcases hs with rfl | ⟨i, _, rfl⟩ | hs
  · exact ⟨by simp only [Nat.lt_min]; omega, by simp only; omega⟩
  · exact ⟨by simp [pageSize], by simp⟩
  · split at hs
    · simp at hs
    · simp only [List.mem_singleton] at hs
      subst hs
      have := Nat.mod_lt (len - min (pageSize - offset) len) (by simp [pageSize] : pageSize > 0)
      exact ⟨by simp only; omega, by simp only; omega⟩

theorem splitPages_length (page offset len : Nat) (hl : len ≤ blkMaxSegmentSize) :
    (splitPages page offset len).length ≤ 18 := by
  have h : (len - min (pageSize - offset) len) / pageSize ≤ 16 := by
    simp only [blkMaxSegmentSize, pageSize] at *; omega
  simp only [splitPages, List.cons_append, List.length_cons, List.length_append, List.length_map,
    List.length_range]
  split <;> simp <;> omega

/-- Once a segment has ended with its page, segments that start a page add no
    list entry as long as each but the last is a whole page. -/
theorem foldl_add_aligned (rest : List Seg) (rs : Runs) (ha : rs.aligned = true)
    (h₀ : ∀ s ∈ rest, s.offset = 0) (hf : ∀ s ∈ rest.dropLast, s.endAligned = true) :
    (rest.foldl Runs.add rs).entries.length = rs.entries.length := by
  induction rest generalizing rs with
  | nil => rfl
  | cons s rest ih =>
    have h₀s := h₀ s (by simp)
    have hlen : (rs.add s).entries.length = rs.entries.length := by
      simp [Runs.add, ha, h₀s, growLast_length]
    rw [List.foldl_cons]
    cases rest with
    | nil => exact hlen
    | cons t rest =>
      have hs : s.endAligned = true := hf s (by simp [List.dropLast])
      rw [ih (rs.add s) hs (fun x hx => h₀ x (by simp [hx])) (fun x hx => hf x (by simp [List.dropLast, hx])),
        hlen]

/-- The pieces of one contiguous segment add at most one list entry. -/
theorem foldl_add_splitPages (page offset len : Nat) (rs : Runs) (ho : offset < pageSize) :
    ((splitPages page offset len).foldl Runs.add rs).entries.length ≤ rs.entries.length + 1 := by
  have hadd : ∀ s : Seg, (rs.add s).entries.length ≤ rs.entries.length + 1 := by
    intro s
    simp only [Runs.add]
    split
    · simp
    · rw [growLast_length]; omega
  simp only [splitPages, List.cons_append, List.foldl_cons]
  by_cases hfit : pageSize - offset ≤ len
  · -- the first piece ends with its page
    have hmin : min (pageSize - offset) len = pageSize - offset := Nat.min_eq_left hfit
    rw [foldl_add_aligned]
    · exact hadd _
    · simp only [Runs.add, Seg.endAligned, hmin]
      simp only [beq_iff_eq]; omega
    · intro s hs
      simp only [List.mem_append, List.mem_map] at hs
      rcases hs with ⟨i, _, rfl⟩ | hs
      · rfl
      · split at hs
        · simp at hs
        · simp only [List.mem_singleton] at hs
          rw [hs]
    · intro s hs
      have hmem : s ∈ (List.range ((len - min (pageSize - offset) len) / pageSize)).map
          (fun i => (⟨page + 1 + i, 0, pageSize⟩ : Seg)) := by
        split at hs
        · rw [List.append_nil] at hs
          exact List.dropLast_subset _ hs
        · rwa [List.dropLast_concat] at hs
      obtain ⟨i, _, rfl⟩ := List.mem_map.1 hmem
      simp [Seg.endAligned]
  · -- the segment ends inside its first page
    have hmin : min (pageSize - offset) len = len := Nat.min_eq_right (by omega)
    have h0 : len - min (pageSize - offset) len = 0 := by omega
    simp only [h0, Nat.zero_div, Nat.zero_mod, List.range_zero, List.map_nil, List.nil_append, if_true,
      List.foldl_nil]
    exact hadd _

section
variable {phys : List Seg}

theorem pieces_ok (h : QueueLimits phys) : ∀ s ∈ pieces phys, s.Ok := by
  intro s hs
  obtain ⟨p, hp, hs⟩ := List.mem_flatMap.1 hs
  exact splitPages_ok (h.seg p hp).2.2.1 (h.seg p hp).1 s hs

theorem listEntries_pieces (vmStart : Nat) (h : ∀ p ∈ phys, p.offset < pageSize) :
    (listEntries vmStart (pieces phys)).length ≤ phys.length := by
  have key : ∀ (phys : List Seg) (rs : Runs), (∀ p ∈ phys, p.offset < pageSize) →
      ((pieces phys).foldl Runs.add rs).entries.length ≤ rs.entries.length + phys.length := by
    intro phys
    induction phys with
    | nil => intro rs _; simp [pieces]
    | cons p phys ih =>
      intro rs h
      have hp := h p (by simp)
      have h₁ := foldl_add_splitPages p.page p.offset p.len rs hp
      have h₂ := ih ((splitPages p.page p.offset p.len).foldl Runs.add rs) (fun q hq => h q (by simp [hq]))
      simp only [pieces, List.flatMap_cons, List.foldl_append, List.length_cons] at h₂ ⊢
      omega
  simpa [listEntries, runs] using key phys ⟨[], false, vmStart⟩ h

theorem pieces_length (h : ∀ p ∈ phys, p.len ≤ blkMaxSegmentSize) :
    (pieces phys).length ≤ phys.length * 18 := by
  induction phys with
  | nil => simp [pieces]
  | cons p phys ih =>
    have h₁ := splitPages_length p.page p.offset p.len (h p (by simp))
    have h₂ := ih (fun q hq => h q (by simp [hq]))
    simp only [pieces, List.flatMap_cons, List.length_append, List.length_cons] at h₂ ⊢
    omega

end

/-! ## The stores of the loop -/

/-- Where a store of the loop over `segs` may go. -/
def MapEffect.Within (entries pages bounces : Nat) : MapEffect → Prop
  | .newEntry i _ => i < entries
  | .growEntry i _ => i ≤ entries
  | .bounce k _ _ _ _ => k < 2 + bounces
  | .setPte i f => i < pages ∧ ∀ k, f = .reserved k → 2 ≤ k ∧ k < 2 + bounces
  | .setSlot k _ => k < 2 + bounces
  | .terminate _ => False
  | .flushTlb _ _ => False

theorem MapEffect.Within.mono {e : MapEffect} {n n' p p' b b' : Nat} (h : e.Within n p b)
    (hn : n ≤ n') (hp : p ≤ p') (hb : b ≤ b') : e.Within n' p' b' := by
  cases e with
  | setPte i f => exact ⟨Nat.lt_of_lt_of_le h.1 hp, fun k hk => by have := h.2 k hk; omega⟩
  | _ => simp only [MapEffect.Within] at h ⊢ <;> omega

theorem listEntry_within {st : MapState} {s : Seg} {n : Nat} (hn : st.listEntryIndex = n)
    {e : MapEffect} (he : e ∈ (st.listEntry s).eff) :
    e ∈ st.eff ∨ e.Within (if !st.segmentEndAligned || s.offset != 0 then n + 1 else n) 0 0 := by
  simp only [MapState.listEntry] at he
  split at he
  · next hc =>
    rw [if_pos hc]
    simp only [List.mem_append, List.mem_singleton] at he
    rcases he with (he | rfl) | rfl
    · exact Or.inl he
    · exact Or.inr (by simp only [MapEffect.Within]; omega)
    · exact Or.inr (by simp only [MapEffect.Within]; omega)
  · next hc =>
    rw [if_neg hc]
    simp only [List.mem_append, List.mem_singleton] at he
    rcases he with he | rfl
    · exact Or.inl he
    · exact Or.inr (by simp only [MapEffect.Within]; omega)

theorem place_within (s : Seg) (isWrite : Bool) (i : Nat) {k : Nat} (hk : 2 ≤ k) {e : MapEffect}
    (he : e ∈ s.place isWrite i k) :
    e.Within 0 (i + 1) (k + (if s.full then 0 else 1) - 2) := by
  unfold Seg.place at he
  cases hf : s.full
  · simp only [hf, Bool.false_eq_true, if_false, List.mem_cons, List.not_mem_nil, or_false] at he ⊢
    rcases he with rfl | rfl | rfl
    · simp only [MapEffect.Within]; omega
    · exact ⟨by omega, fun j hj => by cases hj; omega⟩
    · simp only [MapEffect.Within]; omega
  · simp only [hf, if_true, List.mem_singleton] at he ⊢
    subst he
    exact ⟨by omega, fun j hj => by cases hj⟩

/-- Every store of the loop goes to an entry, a window page or a bounce page that
    the segments take. -/
theorem mapSegments_within (isWrite : Bool) (vmStart : Nat) {segs : List Seg}
    (hok : ∀ s ∈ segs, s.Ok) : ∀ e ∈ (mapSegments isWrite vmStart segs).eff,
      e.Within (listEntries vmStart segs).length segs.length (bouncePages segs) := by
  induction segs using List.reverseRecOn with
  | nil => intro e he; simp [mapSegments, MapState.init] at he
  | append_singleton segs s ih =>
    have hok' : ∀ x ∈ segs, x.Ok := fun x hx => hok x (by simp [hx])
    have hc := mapSegments_counters isWrite vmStart hok'
    have hlen := listEntries_length_snoc vmStart segs s
    have hb : bouncePages (segs ++ [s]) = bouncePages segs + (if s.full then 0 else 1) := by
      rw [bouncePages_append, bouncePages_singleton]
    intro e he
    rw [mapSegments_snoc, mapSegment_single isWrite _ (hok s (by simp))] at he
    rcases List.mem_append.1 he with he | he
    · rcases listEntry_within hc.index he with he | he
      · exact (ih hok' e he).mono hlen (by simp) (by omega)
      · refine he.mono ?_ (by simp) (by omega)
        simp only [listEntries, runs_snoc, Runs.add, hc.aligned]
        split
        · simp
        · rw [growLast_length]
    · have := place_within s isWrite _ (by rw [hc.reserved]; omega) he
      rw [hc.page, hc.reserved] at this
      exact this.mono (Nat.zero_le _) (by simp) (by omega)

theorem mapSegments_last_bounce (isWrite : Bool) (vmStart : Nat) {segs : List Seg}
    (hok : ∀ s ∈ segs, s.Ok) (h : 0 < bouncePages segs) :
    ∃ addr off len, MapEffect.bounce (1 + bouncePages segs) addr off len isWrite ∈
      (mapSegments isWrite vmStart segs).eff := by
  induction segs using List.reverseRecOn with
  | nil => simp [bouncePages] at h
  | append_singleton segs s ih =>
    have hok' : ∀ x ∈ segs, x.Ok := fun x hx => hok x (by simp [hx])
    have hc := mapSegments_counters isWrite vmStart hok'
    have hsub : ∀ e ∈ (mapSegments isWrite vmStart segs).eff,
        e ∈ ((mapSegments isWrite vmStart segs).listEntry s).eff := by
      intro e he
      simp only [MapState.listEntry]
      split <;> simp [he]
    rw [mapSegments_snoc, mapSegment_single isWrite _ (hok s (by simp))]
    rw [bouncePages_append, bouncePages_singleton] at h ⊢
    cases hf : s.full
    · refine ⟨pageAddress s.page, s.offset, s.len, List.mem_append_right _ ?_⟩
      rw [hc.reserved]
      simp only [Seg.place, hf, Bool.false_eq_true, if_false]
      rw [show 1 + (bouncePages segs + 1) = 2 + bouncePages segs by omega]
      exact List.mem_cons_self ..
    · rw [hf] at h
      obtain ⟨addr, off, len, he⟩ := ih hok' (by simpa using h)
      exact ⟨addr, off, len, List.mem_append_left _ (hsub _ (by simpa using he))⟩

/-! ## `bius_map_data` -/

/-- The stores of `bius_map_data` are those of its loop, then, for a list, the
    list page and the terminator. -/
theorem biusMapData_effects {r : BiusRequest} (hr : r.mapType = .unmapped) (vmStart : Nat)
    (segs : List Seg) {e : MapEffect} (he : e ∈ (biusMapData r vmStart segs).1) :
    let st := mapSegments (requestIsWrite r.type) vmStart segs
    e ∈ st.eff ∨ (1 < st.listEntryIndex ∧ e = .setPte st.userPageNum (.reserved 0)) ∨
      (1 < st.listEntryIndex ∧ e = .terminate st.listEntryIndex) ∨ ∃ size, e = .flushTlb vmStart size := by
  intro st
  simp only [biusMapData, hr, bne_self_eq_false, Bool.false_eq_true, if_false] at he
  split at he
  · next hgt =>
    simp only [List.mem_append, List.mem_cons, List.not_mem_nil, or_false] at he
    rcases he with he | he | he | he
    · exact Or.inl he
    · exact Or.inr (Or.inl ⟨hgt, he⟩)
    · exact Or.inr (Or.inr (Or.inl ⟨hgt, he⟩))
    · exact Or.inr (Or.inr (Or.inr ⟨_, he⟩))
  · split at he <;>
    · simp only [List.mem_append, List.mem_singleton] at he
      rcases he with he | he
      · exact Or.inl he
      · exact Or.inr (Or.inr (Or.inr ⟨_, he⟩))

theorem mem_biusMapData {r : BiusRequest} (hr : r.mapType = .unmapped) (vmStart : Nat)
    (segs : List Seg) {e : MapEffect}
    (he : e ∈ (mapSegments (requestIsWrite r.type) vmStart segs).eff) :
    e ∈ (biusMapData r vmStart segs).1 := by
  simp only [biusMapData, hr, bne_self_eq_false, Bool.false_eq_true, if_false]
  split
  · simp [he]
  · split <;> simp [he]

/-- Single-page segments whose list fits its page, whose window pages have
    page-table pointers and which take at most `BIUS_MAX_SEGMENTS` bounce pages
    are mapped inside the tables. -/
theorem biusMapData_inBounds {r : BiusRequest} (hr : r.mapType = .unmapped) (vmStart : Nat)
    {segs : List Seg} (hok : ∀ s ∈ segs, s.Ok)
    (hlist : (listEntries vmStart segs).length ≤ biusMaxSegments)
    (hpages : segs.length < biusPtesPerCommand) (hb : bouncePages segs ≤ biusMaxSegments) :
    ∀ e ∈ (biusMapData r vmStart segs).1, e.InBounds := by
  intro e he
  have hc := mapSegments_counters (requestIsWrite r.type) vmStart hok
  simp only [biusMaxSegments] at hlist hb
  have hbase : reserveBase = 512 := by simp [reserveBase, pageSize]
  rcases biusMapData_effects hr vmStart segs he with he | ⟨_, rfl⟩ | ⟨_, rfl⟩ | ⟨_, rfl⟩
  · have hw := mapSegments_within _ vmStart hok e he
    cases e with
    | setPte i f =>
      refine ⟨by have := hw.1; omega, fun k hk => ?_⟩
      have := hw.2 k hk
      simp only [biusNumReservedPages, biusMaxSegments]; omega
    | terminate => exact absurd hw (by simp [MapEffect.Within])
    | flushTlb => exact trivial
    | _ =>
      simp only [MapEffect.Within] at hw
      simp only [MapEffect.InBounds, biusNumReservedPages, biusMaxSegments, hbase]; omega
  · refine ⟨by rw [hc.page]; exact hpages, fun k hk => ?_⟩
    cases hk
    simp [biusNumReservedPages]
  · simp only [MapEffect.InBounds, hbase, hc.index]; omega
  · exact trivial

/-- **Capacity.** Within the queue limits, `bius_map_data` stays inside its tables
    exactly when the request covers at most `BIUS_MAX_SEGMENTS` pages in part. -/
theorem biusMapData_inBounds_iff {r : BiusRequest} (hr : r.mapType = .unmapped) (vmStart : Nat)
    {phys : List Seg} (hq : QueueLimits phys) :
    (∀ e ∈ (biusMapData r vmStart (pieces phys)).1, e.InBounds) ↔
      bouncePages (pieces phys) ≤ biusMaxSegments := by
  have hok := pieces_ok hq
  constructor
  · intro h
    by_contra hgt
    obtain ⟨addr, off, len, he⟩ :=
      mapSegments_last_bounce (requestIsWrite r.type) vmStart hok (by omega)
    have := h _ (mem_biusMapData hr vmStart _ he)
    simp only [MapEffect.InBounds, biusNumReservedPages] at this
    omega
  · intro hb
    have hlist := listEntries_pieces vmStart (fun p hp => (hq.seg p hp).2.2.1)
    have hpages := pieces_length (fun p hp => (hq.seg p hp).2.1)
    have hcount := hq.count
    refine biusMapData_inBounds hr vmStart hok (Nat.le_trans hlist hcount) ?_ hb
    simp only [biusMaxSegments, biusPtesPerCommand, biusMaxSizePerCommand, pageSize] at *
    omega

/-- 256 segments of two sectors, each across a page boundary. -/
def crossingSegs : List Seg := (List.range 256).map (fun i => ⟨2 * i, 3584, 1024⟩)

theorem crossingSegs_limits : QueueLimits crossingSegs where
  count := by simp [crossingSegs, biusMaxSegments]
  seg := by
    intro p hp
    obtain ⟨i, _, rfl⟩ := List.mem_map.1 hp
    simp [blkMaxSegmentSize, pageSize, sectorSize]
  total := by decide +kernel

/-- They are within the limits and longer than the mapping threshold, and mapping
    them stores past the reserved pages. -/
theorem biusMapData_overruns :
    QueueLimits crossingSegs ∧ biusMapDataThreshold < (crossingSegs.map Seg.len).sum ∧
    ¬ ∀ e ∈ (biusMapData .blank 0x7f0000000000 (pieces crossingSegs)).1, e.InBounds := by
  have hb : bouncePages (pieces crossingSegs) = 512 := by decide +kernel
  refine ⟨crossingSegs_limits, by decide +kernel, fun h => ?_⟩
  obtain ⟨addr, off, len, he⟩ := mapSegments_last_bounce (requestIsWrite BiusRequest.blank.type)
    0x7f0000000000 (pieces_ok crossingSegs_limits) (by omega)
  have := h _ (mem_biusMapData rfl _ _ he)
  simp only [MapEffect.InBounds, biusNumReservedPages, biusMaxSegments, hb] at this
  omega

/-- Three segments of 48 KiB, misaligned at both ends, are within the limits and fit. -/
theorem biusMapData_inBounds_three :
    QueueLimits [⟨16, 512, 49152⟩, ⟨40, 1024, 49152⟩, ⟨80, 3584, 49152⟩] ∧
    ∀ e ∈ (biusMapData .blank 0x7f0000000000
      (pieces [⟨16, 512, 49152⟩, ⟨40, 1024, 49152⟩, ⟨80, 3584, 49152⟩])).1, e.InBounds := by
  have hq : QueueLimits [⟨16, 512, 49152⟩, ⟨40, 1024, 49152⟩, ⟨80, 3584, 49152⟩] := by
    refine ⟨by decide, ?_, by decide⟩
    simp [blkMaxSegmentSize, pageSize, sectorSize]
  exact ⟨hq, (biusMapData_inBounds_iff rfl _ hq).2 (by decide)⟩

end Bius
