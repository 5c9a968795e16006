import Mathlib.Data.List.Induction
import Mathlib.Tactic.Ring
import Bius.DataMapping

/- What `bius_map_data` computes for a list of single-page segments, in closed
   form. Segment `i` takes window page `i`: a whole page is mapped itself, any
   other segment is shown through the bounce page `slotOf segs i`. The list
   entries are the runs of segments that are adjacent in the window
   (`listEntries`), and they name exactly the window addresses of the segments,
   in order (`listEntries_addrs`). `Mapped` says what the stores of the loop leave
   in memory, and `mapSegments_mapped` that they do. -/
namespace Bius

/-- A segment `rq_for_each_segment` can yield: non-empty and inside one page. -/
def Seg.Ok (s : Seg) : Prop := 0 < s.len ∧ s.offset + s.len ≤ pageSize

/-- The segment is a whole page. -/
def Seg.full (s : Seg) : Bool := s.offset == 0 && s.len == pageSize

/-- The segment ends where its page ends. -/
def Seg.endAligned (s : Seg) : Bool := s.offset + s.len == pageSize

theorem Seg.full_iff {s : Seg} : s.full = true ↔ s.offset = 0 ∧ s.len = pageSize := by
  simp [Seg.full]

theorem Seg.endAligned_iff {s : Seg} : s.endAligned = true ↔ s.offset + s.len = pageSize := by
  simp [Seg.endAligned]

/-- How many bounce pages the segments take. -/
def bouncePages (segs : List Seg) : Nat := segs.countP (fun s => !s.full)

/-- The bounce page of segment `i`, if it takes one. -/
def slotOf (segs : List Seg) (i : Nat) : Nat := 2 + bouncePages (segs.take i)

theorem bouncePages_append (xs ys : List Seg) :
    bouncePages (xs ++ ys) = bouncePages xs + bouncePages ys := by
  simp [bouncePages]

theorem bouncePages_singleton (s : Seg) : bouncePages [s] = if s.full then 0 else 1 := by
  cases h : s.full <;> simp [bouncePages, h]

theorem slotOf_append_left (segs : List Seg) (s : Seg) {i : Nat} (h : i ≤ segs.length) :
    slotOf (segs ++ [s]) i = slotOf segs i := by
  simp [slotOf, List.take_append_of_le_length h]

theorem slotOf_length (segs : List Seg) : slotOf segs segs.length = 2 + bouncePages segs := by
  simp [slotOf]

theorem slotOf_lt {segs : List Seg} {i : Nat} {s : Seg} (hi : segs[i]? = some s)
    (hs : s.full = false) : 2 ≤ slotOf segs i ∧ slotOf segs i < 2 + bouncePages segs := by
  obtain ⟨hlt, rfl⟩ := List.getElem?_eq_some_iff.1 hi
  have hsplit : bouncePages segs =
      bouncePages (segs.take i) + bouncePages [segs[i]] + bouncePages (segs.drop (i + 1)) := by
    conv_lhs => rw [← List.take_append_drop i segs, List.drop_eq_getElem_cons hlt]
    rw [bouncePages_append, ← List.singleton_append, bouncePages_append]; omega
  rw [bouncePages_singleton, hs] at hsplit
  simp only [slotOf]
  constructor
  · omega
  · simp at hsplit; omega

theorem slotOf_lt_slotOf {segs : List Seg} {i j : Nat} {s : Seg} (hi : segs[i]? = some s)
    (hs : s.full = false) (hij : i < j) : slotOf segs i < slotOf segs j := by
  obtain ⟨hlt, rfl⟩ := List.getElem?_eq_some_iff.1 hi
  have hle : bouncePages (segs.take (i + 1)) ≤ bouncePages (segs.take j) := by
    have hsub := List.take_sublist (i + 1) (segs.take j)
    rw [List.take_take, Nat.min_eq_left (by omega)] at hsub
    exact hsub.countP_le
  rw [List.take_succ_eq_append_getElem hlt, bouncePages_append, bouncePages_singleton, hs] at hle
  simp only [slotOf]
  simp at hle; omega

theorem slotOf_inj {segs : List Seg} {i j : Nat} {s t : Seg} (hi : segs[i]? = some s)
    (hs : s.full = false) (hj : segs[j]? = some t) (ht : t.full = false)
    (h : slotOf segs i = slotOf segs j) : i = j := by
  rcases Nat.lt_trichotomy i j with hlt | heq | hlt
  · exact absurd h (Nat.ne_of_lt (slotOf_lt_slotOf hi hs hlt))
  · exact heq
  · exact absurd h.symm (Nat.ne_of_lt (slotOf_lt_slotOf hj ht hlt))

/-- A user address inside window page `i`. -/
theorem window_page (vmStart i : Nat) {o : Nat} (ho : o < pageSize) :
    (vmStart + i * pageSize + o - vmStart) / pageSize = i ∧
    (vmStart + i * pageSize + o - vmStart) % pageSize = o := by
  simp only [pageSize] at *
  omega

/-! ## List entries -/

/-- The last entry, grown by `n` bytes. -/
def growLast : List (Nat × Nat) → Nat → List (Nat × Nat)
  | [], _ => []
  | [(a, l)], n => [(a, l + n)]
  | e :: f :: es, n => e :: growLast (f :: es) n

theorem growLast_snoc (es : List (Nat × Nat)) (a l n : Nat) :
    growLast (es ++ [(a, l)]) n = es ++ [(a, l + n)] := by
  induction es with
  | nil => rfl
  | cons e es ih =>
    cases es with
    | nil => rfl
    | cons f es => simpa [growLast] using ih

theorem growLast_length (es : List (Nat × Nat)) (n : Nat) : (growLast es n).length = es.length := by
  rcases List.eq_nil_or_concat es with rfl | ⟨es, ⟨a, l⟩, rfl⟩
  · rfl
  · simp [growLast_snoc]

/-- The runs of adjacent segments seen so far: the list entries, whether the last
    segment ended with its page, and the window address of the next page. -/
structure Runs where
  entries : List (Nat × Nat)
  aligned : Bool
  addr : Nat

def Runs.add (rs : Runs) (s : Seg) : Runs where
  entries :=
    if !rs.aligned || s.offset != 0 then rs.entries ++ [(rs.addr + s.offset, s.len)]
    else growLast rs.entries s.len
  aligned := s.endAligned
  addr := rs.addr + pageSize

def runs (vmStart : Nat) (segs : List Seg) : Runs := segs.foldl Runs.add ⟨[], false, vmStart⟩

/-- The list entries of the segments: address and length of each run. -/
def listEntries (vmStart : Nat) (segs : List Seg) : List (Nat × Nat) := (runs vmStart segs).entries

/-- The window addresses of the segments, byte by byte, in order. -/
def segAddrs (vmStart : Nat) (segs : List Seg) : List Nat :=
  segs.zipIdx.flatMap (fun x => List.range' (vmStart + x.2 * pageSize + x.1.offset) x.1.len)

/-- The addresses a list of entries names, byte by byte, in order. -/
def entryAddrs (es : List (Nat × Nat)) : List Nat := es.flatMap (fun e => List.range' e.1 e.2)

section
variable (vmStart : Nat) (segs : List Seg) (s : Seg)

theorem runs_snoc : runs vmStart (segs ++ [s]) = (runs vmStart segs).add s := by
  simp [runs]

theorem runs_addr : (runs vmStart segs).addr = vmStart + segs.length * pageSize := by
  induction segs using List.reverseRecOn with
  | nil => simp [runs]
  | append_singleton segs s ih =>
    rw [runs_snoc, Runs.add, ih, List.length_append, List.length_singleton]; ring

theorem segAddrs_snoc : segAddrs vmStart (segs ++ [s]) =
    segAddrs vmStart segs ++ List.range' (vmStart + segs.length * pageSize + s.offset) s.len := by
  simp [segAddrs, List.zipIdx_append]

theorem entryAddrs_snoc (es : List (Nat × Nat)) (a l : Nat) :
    entryAddrs (es ++ [(a, l)]) = entryAddrs es ++ List.range' a l := by
  simp [entryAddrs]

end

/-- While the last segment ended with its page, the last entry ends at the next
    window page. -/
theorem runs_open (vmStart : Nat) (segs : List Seg) (h : (runs vmStart segs).aligned = true) :
    ∃ es a l, (runs vmStart segs).entries = es ++ [(a, l)] ∧
      a + l = vmStart + segs.length * pageSize := by
  induction segs using List.reverseRecOn with
  | nil => simp [runs] at h
  | append_singleton segs s ih =>
    have hend : s.offset + s.len = pageSize := by
      rw [runs_snoc] at h
      exact Seg.endAligned_iff.1 h
    have haddr := runs_addr vmStart segs
    simp only [runs_snoc, Runs.add, List.length_append, List.length_singleton]
    split
    · refine ⟨_, _, _, rfl, ?_⟩
      rw [haddr]
      have : (segs.length + 1) * pageSize = segs.length * pageSize + pageSize := by ring
      omega
    · next hc =>
      simp only [Bool.or_eq_true, Bool.not_eq_true', bne_iff_ne, not_or, Bool.not_eq_false,
        not_not] at hc
      obtain ⟨es, a, l, he, hal⟩ := ih hc.1
      refine ⟨es, a, l + s.len, by rw [he, growLast_snoc], ?_⟩
      have : (segs.length + 1) * pageSize = segs.length * pageSize + pageSize := by ring
      omega

/-- The list entries name the window addresses of the segments, in order. -/
theorem listEntries_addrs (vmStart : Nat) (segs : List Seg) :
    entryAddrs (listEntries vmStart segs) = segAddrs vmStart segs := by
  induction segs using List.reverseRecOn with
  | nil => simp [listEntries, runs, entryAddrs, segAddrs]
  | append_singleton segs s ih =>
    rw [segAddrs_snoc, ← ih]
    simp only [listEntries, runs_snoc, Runs.add, runs_addr]
    split
    · rw [entryAddrs_snoc]
    · next hc =>
      simp only [Bool.or_eq_true, Bool.not_eq_true', bne_iff_ne, not_or, Bool.not_eq_false,
        not_not] at hc
      obtain ⟨es, a, l, he, hal⟩ := runs_open vmStart segs hc.1
      rw [he, growLast_snoc, entryAddrs_snoc, entryAddrs_snoc, List.append_assoc, hc.2, ← hal,
        Nat.add_zero, List.range'_append_1]

theorem listEntries_mem {vmStart : Nat} {segs : List Seg} (hok : ∀ s ∈ segs, s.Ok)
    {a l : Nat} (h : (a, l) ∈ listEntries vmStart segs) : vmStart ≤ a ∧ 0 < l := by
  induction segs using List.reverseRecOn generalizing a l with
  | nil => simp [listEntries, runs] at h
  | append_singleton segs s ih =>
    have hs := hok s (by simp)
    have ih := @ih (fun x hx => hok x (by simp [hx]))
    simp only [listEntries, runs_snoc, Runs.add, runs_addr] at h
    split at h
    · rcases List.mem_append.1 h with h | h
      · exact ih h
      · simp only [List.mem_singleton, Prod.mk.injEq] at h
        obtain ⟨rfl, rfl⟩ := h
        exact ⟨by omega, hs.1⟩
    · next hc =>
      simp only [Bool.or_eq_true, Bool.not_eq_true', bne_iff_ne, not_or, Bool.not_eq_false,
        not_not] at hc
      obtain ⟨es, b, k, he, -⟩ := runs_open vmStart segs hc.1
      rw [he, growLast_snoc] at h
      have hmem : ∀ x ∈ es ++ [(b, k)], x ∈ listEntries vmStart segs := by
        intro x hx; simpa [listEntries, he] using hx
      rcases List.mem_append.1 h with h | h
      · exact ih (hmem _ (by simp [h]))
      · simp only [List.mem_singleton, Prod.mk.injEq] at h
        obtain ⟨rfl, rfl⟩ := h
        have := ih (hmem (a, k) (by simp))
        exact ⟨this.1, by omega⟩

/-! ## One segment -/

/-- The stores that put a segment into window page `i`, through bounce page `k`
    if it is not a whole page. -/
def Seg.place (s : Seg) (isWrite : Bool) (i k : Nat) : List MapEffect :=
  if s.full then [.setPte i (.data s.page)]
  else
    [.bounce k (pageAddress s.page) s.offset s.len isWrite, .setPte i (.reserved k),
     .setSlot k (pageAddress s.page)]

theorem mapRest_page (st : MapState) (isWrite : Bool) (pfn : Nat) :
    st.mapRest isWrite pfn pageSize =
      { st.mapPage pfn with segmentEndAligned := true } := by
  simp [MapState.mapRest, MapState.mapPages, pageSize]

theorem mapRest_part (st : MapState) (isWrite : Bool) (pfn : Nat) {len : Nat} (h₀ : 0 < len)
    (h : len < pageSize) : st.mapRest isWrite pfn len =
      { st.mapReserved isWrite pfn 0 len with segmentEndAligned := false } := by
  simp [MapState.mapRest, MapState.mapPages, Nat.div_eq_of_lt h, Nat.mod_eq_of_lt h, h₀]

theorem mapRest_zero (st : MapState) (isWrite : Bool) (pfn : Nat) :
    st.mapRest isWrite pfn 0 = { st with segmentEndAligned := true } := by
  simp [MapState.mapRest, MapState.mapPages, pageSize]

/-- The loop body on a single-page segment: at most one new entry, one window
    page, and one bounce page unless the segment is a whole page. -/
theorem mapSegment_single (isWrite : Bool) (st : MapState) {s : Seg} (hs : s.Ok) :
    mapSegment isWrite st s =
      { st.listEntry s with
        nextReservedPageNum := st.nextReservedPageNum + (if s.full then 0 else 1)
        userAddr := st.userAddr + pageSize
        userPageNum := st.userPageNum + 1
        segmentEndAligned := s.endAligned
        eff := (st.listEntry s).eff ++ s.place isWrite st.userPageNum st.nextReservedPageNum } := by
  obtain ⟨h₀, h₁⟩ := hs
  have e₁ : (st.listEntry s).nextReservedPageNum = st.nextReservedPageNum := by
    simp only [MapState.listEntry]; split <;> rfl
  have e₂ : (st.listEntry s).userAddr = st.userAddr := by
    simp only [MapState.listEntry]; split <;> rfl
  have e₃ : (st.listEntry s).userPageNum = st.userPageNum := by
    simp only [MapState.listEntry]; split <;> rfl
  unfold mapSegment
  by_cases ho : s.offset = 0
  · rw [if_neg (by simpa using ho)]
    by_cases hl : s.len = pageSize
    · -- a whole page
      have hf : s.full = true := Seg.full_iff.2 ⟨ho, hl⟩
      have he : s.endAligned = true := Seg.endAligned_iff.2 (by omega)
      rw [hl, mapRest_page]
      simp [MapState.mapPage, Seg.place, hf, he, e₁, e₂, e₃]
    · -- only the end is misaligned
      have hf : s.full = false := by simp [Seg.full, hl]
      have he : s.endAligned = false := by simp [Seg.endAligned, ho, hl]
      rw [mapRest_part _ _ _ h₀ (by omega)]
      simp [MapState.mapReserved, Seg.place, hf, he, ho, e₁, e₂, e₃]
  · -- the start is misaligned
    have hf : s.full = false := by simp [Seg.full, ho]
    have hmin : min (pageSize - s.offset) s.len = s.len := Nat.min_eq_right (by omega)
    rw [if_pos (by simpa using ho), hmin]
    by_cases hl : s.len = pageSize - s.offset
    · have he : s.endAligned = true := Seg.endAligned_iff.2 (by omega)
      rw [if_neg (by simpa using hl), Nat.sub_self, mapRest_zero]
      simp [MapState.mapReserved, Seg.place, hf, he, e₁, e₂, e₃]
    · have he : s.endAligned = false := by
        cases h : s.endAligned
        · rfl
        · exact absurd (Seg.endAligned_iff.1 h) (by omega)
      rw [if_pos (by simpa using hl)]
      simp [MapState.mapReserved, Seg.place, hf, he, e₁, e₂, e₃]

/-! ## The whole loop -/

section
variable (isWrite : Bool) (vmStart : Nat)

theorem mapSegments_snoc (segs : List Seg) (s : Seg) :
    mapSegments isWrite vmStart (segs ++ [s]) =
      mapSegment isWrite (mapSegments isWrite vmStart segs) s := by
  simp [mapSegments]

/-- The counters of the loop. -/
structure MapCounters (segs : List Seg) (st : MapState) : Prop where
  index : st.listEntryIndex = (listEntries vmStart segs).length
  reserved : st.nextReservedPageNum = 2 + bouncePages segs
  addr : st.userAddr = vmStart + segs.length * pageSize
  page : st.userPageNum = segs.length
  aligned : st.segmentEndAligned = (runs vmStart segs).aligned
  first : ∀ e, (listEntries vmStart segs).head? = some e → st.mapping0 = e.1

theorem growLast_head? (es : List (Nat × Nat)) (n : Nat) :
    ((growLast es n).head?).map Prod.fst = (es.head?).map Prod.fst := by
  match es with
  | [] => rfl
  | [(a, l)] => rfl
  | e :: f :: es => rfl

theorem mapSegments_counters {segs : List Seg} (hok : ∀ s ∈ segs, s.Ok) :
    MapCounters vmStart segs (mapSegments isWrite vmStart segs) := by
  induction segs using List.reverseRecOn with
  | nil => constructor <;> simp [mapSegments, MapState.init, listEntries, runs, bouncePages]
  | append_singleton segs s ih =>
    have ih := ih (fun x hx => hok x (by simp [hx]))
    have hlen : (segs.length + 1) * pageSize = segs.length * pageSize + pageSize := by ring
    rw [mapSegments_snoc, mapSegment_single isWrite _ (hok s (by simp))]
    constructor
    · simp only [MapState.listEntry, listEntries, runs_snoc, Runs.add, ih.aligned]
      split
      · simp [ih.index, listEntries]
      · simp [ih.index, listEntries, growLast_length]
    · rw [bouncePages_append, bouncePages_singleton, ← Nat.add_assoc, ← ih.reserved]
    · simp only [ih.addr, List.length_append, List.length_singleton]; omega
    · simp [ih.page]
    · simp [runs_snoc, Runs.add]
    · intro e he
      simp only [MapState.listEntry, listEntries, runs_snoc, Runs.add, ih.aligned] at he ⊢
      split
      · next hc =>
        rw [if_pos hc] at he
        cases hes : (runs vmStart segs).entries with
        | nil =>
          have h0 : (mapSegments isWrite vmStart segs).listEntryIndex = 0 := by
            rw [ih.index, listEntries, hes]; rfl
          rw [hes] at he
          simp only [List.nil_append, List.head?_cons, Option.some.injEq] at he
          simp only [h0, if_true, ← he, ih.addr, runs_addr]
        | cons e' es =>
          have h0 : (mapSegments isWrite vmStart segs).listEntryIndex ≠ 0 := by
            rw [ih.index, listEntries, hes]; simp
          rw [hes] at he
          simp only [List.cons_append, List.head?_cons, Option.some.injEq] at he
          subst he
          simp only [h0, if_false]
          exact ih.first e' (by simp [listEntries, hes])
      · next hc =>
        rw [if_neg hc] at he
        have hg := growLast_head? (runs vmStart segs).entries s.len
        rw [he] at hg
        cases hh : (runs vmStart segs).entries.head? with
        | none => rw [hh] at hg; simp at hg
        | some e' =>
          rw [hh] at hg
          simp only [Option.map_some, Option.some.injEq] at hg
          rw [hg]
          exact ih.first e' (by simpa [listEntries] using hh)

end

/-! ## Memory -/

section
variable (m : PhysMem)

@[simp] theorem applyAll_nil : m.applyAll [] = m := rfl

@[simp] theorem applyAll_append (xs ys : List MapEffect) :
    m.applyAll (xs ++ ys) = (m.applyAll xs).applyAll ys := by
  simp [PhysMem.applyAll]

@[simp] theorem applyAll_cons (x : MapEffect) (ys : List MapEffect) :
    m.applyAll (x :: ys) = (m.apply x).applyAll ys := rfl

end

/-- Memory after the loop: the entries of the list, and for every segment its
    page-table entry, its bounce page and its slot of `reserve_mapping_list`. All
    other page-table entries and slots are as before, and so is kernel memory
    outside the reserved pages. -/
structure Mapped (isWrite : Bool) (vmStart : Nat) (segs : List Seg) (m m' : PhysMem) : Prop where
  kmem : m'.kmem = m.kmem
  entry : ∀ e a l, (listEntries vmStart segs)[e]? = some (a, l) →
    m'.words (2 * e) = a ∧ m'.words (2 * e + 1) = l
  pte : ∀ i s, segs[i]? = some s →
    m'.ptes i = if s.full then .data s.page else .reserved (slotOf segs i)
  pteRest : ∀ i, segs.length ≤ i → m'.ptes i = m.ptes i
  slot : ∀ i s, segs[i]? = some s → s.full = false →
    m'.words (reserveBase + slotOf segs i) = pageAddress s.page
  slotRest : ∀ k, k < 2 ∨ 2 + bouncePages segs ≤ k →
    m'.words (reserveBase + k) = m.words (reserveBase + k)
  bounce : ∀ i s, segs[i]? = some s → s.full = false →
    m'.bounce (slotOf segs i) =
      if isWrite then
        Bytes.splice (fun _ => 0) s.offset (Bytes.slice m.kmem (pageAddress s.page + s.offset) s.len)
      else fun _ => 0
  bounceRest : ∀ k, k < 2 ∨ 2 + bouncePages segs ≤ k → m'.bounce k = m.bounce k

/-- Storing one more list entry, or growing the last one, leaves the list as
    `Runs.add` has it and touches nothing else below its terminator. -/
theorem listEntry_words {vmStart : Nat} {segs : List Seg} {st : MapState} {s : Seg} {m : PhysMem}
    (hc : MapCounters vmStart segs st)
    (he : ∀ e a l, (listEntries vmStart segs)[e]? = some (a, l) →
      m.words (2 * e) = a ∧ m.words (2 * e + 1) = l) :
    ∃ eff, (st.listEntry s).eff = st.eff ++ eff ∧
      (m.applyAll eff).kmem = m.kmem ∧ (m.applyAll eff).ptes = m.ptes ∧
      (m.applyAll eff).bounce = m.bounce ∧
      (∀ j, 2 * (listEntries vmStart (segs ++ [s])).length ≤ j → (m.applyAll eff).words j = m.words j) ∧
      ∀ e a l, (listEntries vmStart (segs ++ [s]))[e]? = some (a, l) →
        (m.applyAll eff).words (2 * e) = a ∧ (m.applyAll eff).words (2 * e + 1) = l := by
  simp only [MapState.listEntry, hc.aligned]
  rw [show listEntries vmStart (segs ++ [s]) = ((runs vmStart segs).add s).entries by
    rw [listEntries, runs_snoc]]
  simp only [Runs.add, runs_addr]
  split
  · -- a new entry: two words are stored, then the length is raised from zero
    have hidx := hc.index
    refine ⟨[.newEntry st.listEntryIndex (st.userAddr + s.offset), .growEntry (st.listEntryIndex + 1) s.len],
      by simp, rfl, rfl, rfl, ?_, ?_⟩
    · intro j hj
      simp only [List.length_append, List.length_singleton] at hj
      have hj' : 2 * st.listEntryIndex + 2 ≤ j := by rw [hidx, listEntries]; omega
      simp only [applyAll_cons, applyAll_nil, PhysMem.apply]
      rw [Function.update_of_ne (by omega), Function.update_of_ne (by omega),
        Function.update_of_ne (by omega)]
    · intro e a l hel
      simp only [applyAll_cons, applyAll_nil, PhysMem.apply]
      by_cases hlast : e = (listEntries vmStart segs).length
      · subst hlast
        rw [listEntries, List.getElem?_append_right (Nat.le_refl _)] at hel
        simp only [Nat.sub_self, List.getElem?_cons_zero, Option.some.injEq, Prod.mk.injEq] at hel
        obtain ⟨rfl, rfl⟩ := hel
        rw [← hidx, hc.addr, show 2 * (st.listEntryIndex + 1) - 1 = 2 * st.listEntryIndex + 1 by omega]
        simp [Function.update_of_ne]
      · have hlt : e < (listEntries vmStart segs).length := by
          have := (List.getElem?_eq_some_iff.1 hel).1
          simp only [List.length_append, List.length_singleton] at this
          simp only [listEntries] at hlast ⊢
          omega
        rw [List.getElem?_append_left (by simpa [listEntries] using hlt)] at hel
        have := he e a l (by simpa [listEntries] using hel)
        rw [Function.update_of_ne (by omega), Function.update_of_ne (by omega),
          Function.update_of_ne (by omega), Function.update_of_ne (by omega),
          Function.update_of_ne (by omega), Function.update_of_ne (by omega)]
        exact this
  · next hcond =>
    simp only [Bool.or_eq_true, Bool.not_eq_true', bne_iff_ne, not_or, Bool.not_eq_false,
      not_not] at hcond
    obtain ⟨es, b, k, hes, -⟩ := runs_open vmStart segs hcond.1
    have hidx : st.listEntryIndex = es.length + 1 := by rw [hc.index, listEntries, hes]; simp
    refine ⟨[.growEntry st.listEntryIndex s.len], by simp, rfl, rfl, rfl, ?_, ?_⟩
    · intro j hj
      rw [hes, growLast_snoc, List.length_append, List.length_singleton] at hj
      simp only [applyAll_cons, applyAll_nil, PhysMem.apply]
      rw [Function.update_of_ne (by omega)]
    · intro e a l hel
      rw [hes, growLast_snoc] at hel
      simp only [applyAll_cons, applyAll_nil, PhysMem.apply, hidx]
      by_cases hlast : e = es.length
      · subst hlast
        rw [List.getElem?_append_right (Nat.le_refl _)] at hel
        simp only [Nat.sub_self, List.getElem?_cons_zero, Option.some.injEq, Prod.mk.injEq] at hel
        obtain ⟨rfl, rfl⟩ := hel
        have := he es.length b k (by simp [listEntries, hes])
        rw [Function.update_of_ne (by omega), show 2 * (es.length + 1) - 1 = 2 * es.length + 1 by omega,
          Function.update_self, this.2]
        exact ⟨this.1, rfl⟩
      · have hlt : e < es.length := by
          have := (List.getElem?_eq_some_iff.1 hel).1
          simp only [List.length_append, List.length_singleton] at this
          omega
        rw [List.getElem?_append_left hlt] at hel
        rw [Function.update_of_ne (by omega), Function.update_of_ne (by omega)]
        exact he e a l (by simp [listEntries, hes, List.getElem?_append_left hlt, hel])

theorem listEntries_length_snoc (vmStart : Nat) (segs : List Seg) (s : Seg) :
    (listEntries vmStart segs).length ≤ (listEntries vmStart (segs ++ [s])).length := by
  simp only [listEntries, runs_snoc, Runs.add]
  split
  · simp
  · rw [growLast_length]

/-- What putting a segment into window page `i` through bounce page `k` leaves
    unchanged: kernel memory, the other window pages, the other bounce pages and
    the words outside slot `k`. -/
theorem place_frame (s : Seg) (isWrite : Bool) (i k : Nat) (m : PhysMem) :
    (m.applyAll (s.place isWrite i k)).kmem = m.kmem ∧
    (∀ j, j ≠ i → (m.applyAll (s.place isWrite i k)).ptes j = m.ptes j) ∧
    (∀ j, s.full = true ∨ j ≠ k → (m.applyAll (s.place isWrite i k)).bounce j = m.bounce j) ∧
    ∀ j, s.full = true ∨ j ≠ reserveBase + k →
      (m.applyAll (s.place isWrite i k)).words j = m.words j := by
  unfold Seg.place
  cases hf : s.full
  · simp only [Bool.false_eq_true, if_false, applyAll_cons, applyAll_nil, PhysMem.apply, false_or,
      true_and]
    refine ⟨?_, ?_, ?_⟩
    all_goals
      intro j hj
      rw [Function.update_of_ne hj]
  · simp only [if_true, applyAll_cons, applyAll_nil, PhysMem.apply, true_and, implies_true, and_true]
    intro j hj
    rw [Function.update_of_ne hj]

theorem place_stores (s : Seg) (isWrite : Bool) (i k : Nat) (m : PhysMem) :
    (m.applyAll (s.place isWrite i k)).ptes i = (if s.full then .data s.page else .reserved k) ∧
    (s.full = false →
      (m.applyAll (s.place isWrite i k)).words (reserveBase + k) = pageAddress s.page ∧
      (m.applyAll (s.place isWrite i k)).bounce k =
        if isWrite then
          Bytes.splice (fun _ => 0) s.offset (Bytes.slice m.kmem (pageAddress s.page + s.offset) s.len)
        else fun _ => 0) := by
  unfold Seg.place
  cases hf : s.full <;> simp [PhysMem.apply]

/-- The stores of the loop leave memory as `Mapped` says, provided the list fits
    its page. -/
theorem mapSegments_mapped (isWrite : Bool) (vmStart : Nat) {segs : List Seg} (m : PhysMem)
    (hok : ∀ s ∈ segs, s.Ok) (hlist : (listEntries vmStart segs).length ≤ biusMaxSegments) :
    Mapped isWrite vmStart segs m (m.applyAll (mapSegments isWrite vmStart segs).eff) := by
  induction segs using List.reverseRecOn with
  | nil => constructor <;> simp [mapSegments, MapState.init, listEntries, runs]
  | append_singleton segs s ih =>
    have hok' : ∀ x ∈ segs, x.Ok := fun x hx => hok x (by simp [hx])
    have hlist' := Nat.le_trans (listEntries_length_snoc vmStart segs s) hlist
    have ih := ih hok' hlist'
    have hc := mapSegments_counters isWrite vmStart hok'
    obtain ⟨eff, heff, hk, hp, hb, hw, he⟩ := listEntry_words (s := s) hc ih.entry
    rw [mapSegments_snoc, mapSegment_single isWrite _ (hok s (by simp)), heff]
    simp only [applyAll_append, hc.page, hc.reserved]
    generalize hm₁ : (m.applyAll (mapSegments isWrite vmStart segs).eff) = m₁ at *
    generalize hm₂ : m₁.applyAll eff = m₂ at *
    obtain ⟨fk, fp, fb, fw⟩ := place_frame s isWrite segs.length (2 + bouncePages segs) m₂
    obtain ⟨sp, sslot⟩ := place_stores s isWrite segs.length (2 + bouncePages segs) m₂
    have hlistw : 2 * (listEntries vmStart (segs ++ [s])).length ≤ reserveBase := by
      simp only [biusMaxSegments] at hlist
      simp only [reserveBase, pageSize]; omega
    -- the words of the list lie below every slot
    have hslotw : ∀ j, reserveBase ≤ j → m₂.words j = m₁.words j :=
      fun j hj => hw j (by omega)
    have hnew : slotOf (segs ++ [s]) segs.length = 2 + bouncePages segs := by
      rw [slotOf_append_left _ _ (Nat.le_refl _), slotOf_length]
    have hcases : ∀ {i x}, (segs ++ [s])[i]? = some x →
        (segs[i]? = some x ∧ i < segs.length ∧ slotOf (segs ++ [s]) i = slotOf segs i) ∨
        (i = segs.length ∧ x = s) := by
      intro i x hx
      rcases Nat.lt_or_ge i segs.length with hlt | hge
      · rw [List.getElem?_append_left hlt] at hx
        exact Or.inl ⟨hx, hlt, slotOf_append_left _ _ (Nat.le_of_lt hlt)⟩
      · rw [List.getElem?_append_right hge] at hx
        have hi := (List.getElem?_eq_some_iff.1 hx).1
        simp only [List.length_singleton] at hi
        have hi : i = segs.length := by omega
        subst hi
        simp only [Nat.sub_self, List.getElem?_cons_zero, Option.some.injEq] at hx
        exact Or.inr ⟨rfl, hx.symm⟩
    -- a page that the longer list does not take is not the new segment's
    have hrest : ∀ {k}, k < 2 ∨ 2 + bouncePages (segs ++ [s]) ≤ k →
        (k < 2 ∨ 2 + bouncePages segs ≤ k) ∧ (s.full = true ∨ k ≠ 2 + bouncePages segs) := by
      intro k hk'
      rw [bouncePages_append, bouncePages_singleton] at hk'
      cases hf : s.full
      · rw [hf] at hk'
        simp only [Bool.false_eq_true, if_false] at hk'
        exact ⟨by omega, Or.inr (by omega)⟩
      · exact ⟨by omega, Or.inl rfl⟩
    constructor
    · rw [fk, hk, ih.kmem]
    · intro e a l hel
      have := he e a l hel
      have hlt := (List.getElem?_eq_some_iff.1 hel).1
      rw [fw _ (Or.inr (by omega)), fw _ (Or.inr (by omega))]
      exact this
    · intro i x hx
      rcases hcases hx with ⟨hx', hlt, hslot⟩ | ⟨rfl, rfl⟩
      · rw [fp i (by omega), hp, ih.pte i x hx', hslot]
      · rw [sp, hnew]
    · intro i hi
      simp only [List.length_append, List.length_singleton] at hi
      rw [fp i (by omega), hp, ih.pteRest i (by omega)]
    · intro i x hx hf
      rcases hcases hx with ⟨hx', hlt, hslot⟩ | ⟨rfl, rfl⟩
      · have := slotOf_lt hx' hf
        rw [hslot, fw _ (Or.inr (by omega)), hslotw _ (by omega), ih.slot i x hx' hf]
      · rw [hnew]; exact (sslot hf).1
    · intro k hk'
      obtain ⟨hk', hne⟩ := hrest hk'
      rw [fw _ (hne.imp_right (by omega)), hslotw _ (by omega)]
      exact ih.slotRest k hk'
    · intro i x hx hf
      rcases hcases hx with ⟨hx', hlt, hslot⟩ | ⟨rfl, rfl⟩
      · have := slotOf_lt hx' hf
        rw [hslot, fb _ (Or.inr (by omega)), hb, ih.bounce i x hx' hf]
      · rw [hnew, (sslot hf).2, hk, ih.kmem]
    · intro k hk'
      obtain ⟨hk', hne⟩ := hrest hk'
      rw [fb _ hne, hb, ih.bounceRest k hk']

end Bius
