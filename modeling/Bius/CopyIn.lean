import Mathlib.Data.List.Forall2
import Bius.MapLayout

/- The walk of `bius_copy_in_misaligned_pages` over a list, in closed form. For
   entry `i` it takes the offset from word `i` of the list, where `bius_map_data`
   put it into word `2 * i`; `entryRanges x a l` are the ranges it copies for the
   entry `(a, l)` when the word it looked at is `x`, and `copyInLoop_ranges` that
   it copies these, each from the next bounce page. With `x = a` they are the
   partly covered pages, in order (`neededRanges_partials`). `CopyInExact` says
   when the ranges of the walk do as well. -/
namespace Bius

/-- The ranges (start and length inside a page) copied for the list entry
    `(a, l)` when `x` stands where its address should. -/
def entryRanges (x a l : Nat) : List (Nat × Nat) :=
  (if a % pageSize = 0 then [] else [(x % pageSize, min l (pageSize - x % pageSize))]) ++
  (if (a + l) % pageSize = 0 ∨ (a % pageSize ≠ 0 ∧ x % pageSize + l < pageSize) then []
   else [(0, (x % pageSize + l) % pageSize)])

/-- Copies of the ranges, from bounce page `rp` on. -/
def slotted : Nat → List (Nat × Nat) → List CopyIn
  | _, [] => []
  | rp, (start, len) :: rs => ⟨rp, start, len⟩ :: slotted (rp + 1) rs

@[simp] theorem slotted_length (rp : Nat) (rs : List (Nat × Nat)) :
    (slotted rp rs).length = rs.length := by
  induction rs generalizing rp with
  | nil => rfl
  | cons r rs ih => simp [slotted, ih]

theorem slotted_append (rp : Nat) (xs ys : List (Nat × Nat)) :
    slotted rp (xs ++ ys) = slotted rp xs ++ slotted (rp + xs.length) ys := by
  induction xs generalizing rp with
  | nil => simp [slotted]
  | cons x xs ih => simp [slotted, ih, Nat.add_assoc, Nat.add_comm 1]

/-- The sum of offset and length of an entry does not wrap around to a small
    number. -/
def NoWrap (x a l : Nat) : Prop :=
  a % pageSize ≠ 0 → (x % pageSize + l) % 2 ^ 64 < pageSize → x % pageSize + l < pageSize

theorem noWrap_of_le {x a l : Nat} (h : l + pageSize ≤ 2 ^ 64) : NoWrap x a l := by
  intro _ hlt
  have hx : x % pageSize < pageSize := Nat.mod_lt _ (by simp [pageSize])
  rwa [Nat.mod_eq_of_lt (by omega)] at hlt

theorem copyInEntry_ranges (w : Nat → Nat) (i rp : Nat) (h : NoWrap (w i) (w (2 * i)) (w (2 * i + 1))) :
    copyInEntry w i rp = slotted rp (entryRanges (w i) (w (2 * i)) (w (2 * i + 1))) := by
  have hmod : (w i + w (2 * i + 1)) % pageSize = (w i % pageSize + w (2 * i + 1)) % pageSize := by
    rw [Nat.mod_add_mod]
  unfold copyInEntry entryRanges
  simp only [hmod]
  by_cases hf : w (2 * i) % pageSize = 0
  · by_cases he : (w (2 * i) + w (2 * i + 1)) % pageSize = 0 <;> simp [hf, he, slotted]
  · by_cases hs : w i % pageSize + w (2 * i + 1) < pageSize
    · have hwrap : (w i % pageSize + w (2 * i + 1)) % 2 ^ 64 < pageSize := by
        rwa [Nat.mod_eq_of_lt (by simp only [pageSize] at *; omega)]
      have hmin : min (w (2 * i + 1)) (pageSize - w i % pageSize) = w (2 * i + 1) :=
        Nat.min_eq_left (by omega)
      simp only [hs, hwrap, hmin]
      simp [hf, slotted]
    · have hwrap : ¬ (w i % pageSize + w (2 * i + 1)) % 2 ^ 64 < pageSize := fun hlt => hs (h hf hlt)
      have hmin : min (w (2 * i + 1)) (pageSize - w i % pageSize) = pageSize - w i % pageSize :=
        Nat.min_eq_right (by omega)
      simp only [hs, hwrap, hmin]
      by_cases he : (w (2 * i) + w (2 * i + 1)) % pageSize = 0 <;> simp [hf, he, slotted]

/-- The ranges of a list whose words from entry `i` on are `es`, where the walk
    looks at the words `w`. -/
def walkRanges (w : Nat → Nat) (i : Nat) : List (Nat × Nat) → List (Nat × Nat)
  | [] => []
  | (a, l) :: es => entryRanges (w i) a l ++ walkRanges w (i + 1) es

/-- The walk over a terminated list copies its ranges in order. -/
theorem copyInLoop_ranges {w : Nat → Nat} : ∀ (es : List (Nat × Nat)) (fuel i rp : Nat),
    es.length < fuel →
    (∀ j a l, es[j]? = some (a, l) →
      a ≠ 0 ∧ NoWrap (w (i + j)) a l ∧ w (2 * (i + j)) = a ∧ w (2 * (i + j) + 1) = l) →
    w (2 * (i + es.length)) = 0 →
    copyInLoop w fuel i rp = some (slotted rp (walkRanges w i es))
  | _, 0, _, _, hf, _, _ => by omega
  | [], fuel + 1, i, rp, _, _, hend => by
    simp only [List.length_nil, Nat.add_zero] at hend
    simp [copyInLoop, hend, walkRanges, slotted]
  | (a, l) :: es, fuel + 1, i, rp, hf, hent, hend => by
    obtain ⟨ha, hl, hw₁, hw₂⟩ := hent 0 a l rfl
    simp only [Nat.add_zero] at hw₁ hw₂
    have hentry := copyInEntry_ranges w i rp (by rw [hw₁, hw₂]; exact hl)
    rw [hw₁, hw₂] at hentry
    have ih := copyInLoop_ranges es fuel (i + 1) (rp + (entryRanges (w i) a l).length)
      (by simp only [List.length_cons] at hf; omega)
      (fun j b k hj => by
        have := hent (j + 1) b k (by simpa using hj)
        rwa [show i + (j + 1) = i + 1 + j by omega] at this)
      (by rwa [List.length_cons, show i + (es.length + 1) = i + 1 + es.length by omega] at hend)
    simp only [copyInLoop, hw₁, ha, if_false, hentry, slotted_length, ih, Option.map_some, walkRanges,
      slotted_append]

/-! ## The partly covered pages -/

/-- The segments that take bounce pages, with their places in the list. -/
def partials (segs : List Seg) : List (Seg × Nat) := segs.zipIdx.filter (fun x => !x.1.full)

theorem partials_snoc (segs : List Seg) (s : Seg) :
    partials (segs ++ [s]) = partials segs ++ if s.full then [] else [(s, segs.length)] := by
  cases hf : s.full <;> simp [partials, List.zipIdx_append, hf]

theorem partials_length (segs : List Seg) : (partials segs).length = bouncePages segs := by
  induction segs using List.reverseRecOn with
  | nil => rfl
  | append_singleton segs s ih =>
    rw [partials_snoc, bouncePages_append, bouncePages_singleton, List.length_append, ih]
    cases s.full <;> rfl

theorem mem_partials {segs : List Seg} {s : Seg} {k : Nat} :
    (s, k) ∈ partials segs ↔ segs[k]? = some s ∧ s.full = false := by
  simp [partials, List.mem_zipIdx_iff_getElem?]

theorem partials_slot {segs : List Seg} {q k : Nat} {s : Seg} (h : (partials segs)[q]? = some (s, k)) :
    slotOf segs k = 2 + q := by
  induction segs using List.reverseRecOn with
  | nil => simp [partials] at h
  | append_singleton segs t ih =>
    rw [partials_snoc] at h
    rcases Nat.lt_or_ge q (partials segs).length with hlt | hge
    · rw [List.getElem?_append_left hlt] at h
      have hk := (List.getElem?_eq_some_iff.1 (mem_partials.1 (List.mem_of_getElem? h)).1).1
      rw [slotOf_append_left _ _ (by omega)]
      exact ih h
    · rw [List.getElem?_append_right hge] at h
      cases ht : t.full
      · rw [ht] at h
        cases hd : q - (partials segs).length with
        | zero =>
          rw [hd] at h
          simp only [Bool.false_eq_true, if_false, List.getElem?_cons_zero, Option.some.injEq,
            Prod.mk.injEq] at h
          rw [← h.2, slotOf_append_left _ _ (Nat.le_refl _), slotOf_length, ← partials_length]
          omega
        | succ d => rw [hd] at h; simp at h
      · rw [ht] at h; simp at h

theorem partials_of_slot {segs : List Seg} {q k : Nat} {s : Seg} (hk : segs[k]? = some s)
    (hs : s.full = false) (hq : slotOf segs k = 2 + q) : (partials segs)[q]? = some (s, k) := by
  obtain ⟨p, hp⟩ := List.mem_iff_getElem?.1 (mem_partials.2 ⟨hk, hs⟩)
  have := partials_slot hp
  rwa [show q = p by omega]

/-- The partly covered pages of the list entry `(a, l)`: place in the segments,
    offset and length. -/
def neededRanges (vmStart a l : Nat) : List (Nat × Nat × Nat) :=
  (if a % pageSize = 0 then []
   else [((a - vmStart) / pageSize, a % pageSize, min l (pageSize - a % pageSize))]) ++
  (if (a + l) % pageSize = 0 ∨ (a % pageSize ≠ 0 ∧ a % pageSize + l < pageSize) then []
   else [((a + l - vmStart) / pageSize, 0, (a + l) % pageSize)])

theorem neededRanges_new {vmStart n : Nat} {s : Seg} (hv : vmStart % pageSize = 0) (hs : s.Ok) :
    neededRanges vmStart (vmStart + n * pageSize + s.offset) s.len =
      if s.full then [] else [(n, s.offset, s.len)] := by
  obtain ⟨h₀, h₁⟩ := hs
  have hoff : (vmStart + n * pageSize + s.offset) % pageSize = s.offset % pageSize := by
    simp only [pageSize] at *; omega
  have hend : (vmStart + n * pageSize + s.offset + s.len) % pageSize = (s.offset + s.len) % pageSize := by
    simp only [pageSize] at *; omega
  have hlt : s.offset < pageSize := by omega
  have hpage := (window_page vmStart n hlt).1
  unfold neededRanges
  rw [hoff, hend, Nat.mod_eq_of_lt hlt, hpage]
  by_cases ho : s.offset = 0
  · by_cases hl : s.len = pageSize
    · have hf : s.full = true := Seg.full_iff.2 ⟨ho, hl⟩
      simp [ho, hl, hf]
    · have hf : s.full = false := by simp [Seg.full, hl]
      have hmod : s.len % pageSize = s.len := Nat.mod_eq_of_lt (by omega)
      have hpage' : (vmStart + n * pageSize + s.len - vmStart) / pageSize = n :=
        (window_page vmStart n (by omega)).1
      have hne : s.len ≠ 0 := by omega
      simp [ho, hf, hmod, hpage', hne]
  · have hf : s.full = false := by simp [Seg.full, ho]
    have hmin : min s.len (pageSize - s.offset) = s.len := Nat.min_eq_left (by omega)
    have hskip : (s.offset + s.len) % pageSize = 0 ∨ s.offset + s.len < pageSize := by
      rcases Nat.lt_or_eq_of_le h₁ with h | h
      · exact Or.inr h
      · exact Or.inl (by rw [h, Nat.mod_self])
    simp [ho, hf, hmin, hskip]

/-- A segment that continues an entry, which so far ended with its page. -/
theorem neededRanges_grow {vmStart n a l : Nat} {s : Seg} (hv : vmStart % pageSize = 0) (hs : s.Ok)
    (ho : s.offset = 0) (hl : 0 < l) (hal : a + l = vmStart + n * pageSize) :
    neededRanges vmStart a (l + s.len) =
      neededRanges vmStart a l ++ if s.full then [] else [(n, s.offset, s.len)] := by
  obtain ⟨h₀, h₁⟩ := hs
  have hal' : (a + l) % pageSize = 0 := by simp only [pageSize] at *; omega
  have hend : (a + (l + s.len)) % pageSize = s.len % pageSize := by simp only [pageSize] at *; omega
  have hreach : a % pageSize ≠ 0 → pageSize ≤ a % pageSize + l := by
    intro ha; simp only [pageSize] at *; omega
  have hmin : a % pageSize ≠ 0 →
      min (l + s.len) (pageSize - a % pageSize) = min l (pageSize - a % pageSize) := by
    intro ha; have := hreach ha; omega
  have hskip : ¬ (a % pageSize ≠ 0 ∧ a % pageSize + (l + s.len) < pageSize) := by
    rintro ⟨ha, hlt⟩; have := hreach ha; omega
  have hpage : s.len < pageSize → (a + (l + s.len) - vmStart) / pageSize = n := by
    intro hlt
    rw [← Nat.add_assoc, hal]
    exact (window_page vmStart n hlt).1
  unfold neededRanges
  rw [hal', hend]
  simp only [true_or, if_true, List.append_nil]
  by_cases hfull : s.len = pageSize
  · have hf : s.full = true := Seg.full_iff.2 ⟨ho, hfull⟩
    by_cases ha : a % pageSize = 0
    · simp [ha, hfull, hf]
    · rw [if_neg ha, if_neg ha, hmin ha, if_pos (Or.inl (by rw [hfull, Nat.mod_self]))]
      simp [hf]
  · have hf : s.full = false := by simp [Seg.full, hfull]
    have hmod : s.len % pageSize = s.len := Nat.mod_eq_of_lt (by omega)
    by_cases ha : a % pageSize = 0
    · simp [ha, hmod, hf, ho, hpage (by omega), Nat.ne_of_gt h₀]
    · rw [if_neg ha, hmin ha, hmod, if_neg (by rintro (h | h); exacts [by omega, hskip h])]
      simp [ha, hf, ho, hpage (by omega)]

/-- With the right offsets, the ranges of the list are the partly covered pages. -/
theorem neededRanges_partials {vmStart : Nat} (hv : vmStart % pageSize = 0) {segs : List Seg}
    (hok : ∀ s ∈ segs, s.Ok) :
    (listEntries vmStart segs).flatMap (fun e => neededRanges vmStart e.1 e.2) =
      (partials segs).map (fun x => (x.2, x.1.offset, x.1.len)) := by
  induction segs using List.reverseRecOn with
  | nil => rfl
  | append_singleton segs s ih =>
    have hok' : ∀ x ∈ segs, x.Ok := fun x hx => hok x (by simp [hx])
    have ih := ih hok'
    have hs := hok s (by simp)
    have hnew : (if s.full then [] else [(s, segs.length)]).map
        (fun x : Seg × Nat => (x.2, x.1.offset, x.1.len)) =
        if s.full then [] else [(segs.length, s.offset, s.len)] := by
      cases s.full <;> rfl
    rw [partials_snoc, List.map_append, ← ih, hnew]
    simp only [listEntries, runs_snoc, Runs.add, runs_addr]
    split
    · rw [List.flatMap_append, List.flatMap_singleton, neededRanges_new hv hs]
    · next hc =>
      simp only [Bool.or_eq_true, Bool.not_eq_true', bne_iff_ne, not_or, Bool.not_eq_false,
        not_not] at hc
      obtain ⟨es, a, l, he, hal⟩ := runs_open vmStart segs hc.1
      have hmem : (a, l) ∈ listEntries vmStart segs := by simp [listEntries, he]
      have hl := (listEntries_mem hok' hmem).2
      rw [he, growLast_snoc, List.flatMap_append, List.flatMap_append, List.flatMap_singleton,
        List.flatMap_singleton, neededRanges_grow hv hs hc.2 hl hal, List.append_assoc]

/-! ## When the walk copies what is needed -/

/-- The kernel byte `a` belongs to the segment. -/
def Seg.Mem (s : Seg) (a : Nat) : Prop :=
  pageAddress s.page + s.offset ≤ a ∧ a < pageAddress s.page + s.offset + s.len

/-- The bytes `u` to `v` of the page of segment `k` belong to partly covered
    segments behind it, whose bounce pages are copied later. -/
def CopiedLater (segs : List Seg) (k u v : Nat) : Prop :=
  ∀ s, segs[k]? = some s → ∀ y, u ≤ y → y < v →
    ∃ k' t, k < k' ∧ segs[k']? = some t ∧ t.full = false ∧ t.Mem (pageAddress s.page + y)

/-- The word `x` serves for the address of the list entry `(a, l)`: a misaligned
    start is copied from its own offset, or from a smaller one to the end of the
    page, and a misaligned end is copied to its own length or beyond; and bytes
    copied too much are copied again later. -/
def EntryExact (vmStart : Nat) (segs : List Seg) (x a l : Nat) : Prop :=
  (a % pageSize ≠ 0 →
    x % pageSize = a % pageSize ∨
    x % pageSize < a % pageSize ∧ pageSize ≤ x % pageSize + l ∧
      CopiedLater segs ((a - vmStart) / pageSize) (x % pageSize) (a % pageSize)) ∧
  ((a + l) % pageSize ≠ 0 → a % pageSize = 0 ∨ pageSize ≤ a % pageSize + l →
    (a + l) % pageSize ≤ (x % pageSize + l) % pageSize ∧
      CopiedLater segs ((a + l - vmStart) / pageSize) ((a + l) % pageSize)
        ((x % pageSize + l) % pageSize))

/-- Word `j` of the list. -/
def listWord (es : List (Nat × Nat)) (j : Nat) : Nat :=
  match es[j / 2]? with
  | none => 0
  | some e => if j % 2 = 0 then e.1 else e.2

/-- Word `i` of the list serves for the address of entry `i`, for every entry. -/
def CopyInExact (vmStart : Nat) (segs : List Seg) : Prop :=
  ∀ i a l, (listEntries vmStart segs)[i]? = some (a, l) →
    EntryExact vmStart segs (listWord (listEntries vmStart segs) i) a l

/-- The range `r` serves for the partly covered page `n`. -/
def Covers (segs : List Seg) (r : Nat × Nat) (n : Nat × Nat × Nat) : Prop :=
  r.1 ≤ n.2.1 ∧ n.2.1 + n.2.2 ≤ r.1 + r.2 ∧ CopiedLater segs n.1 r.1 n.2.1 ∧
    CopiedLater segs n.1 (n.2.1 + n.2.2) (r.1 + r.2)

theorem CopiedLater.of_le {segs : List Seg} {k u v : Nat} (h : v ≤ u) : CopiedLater segs k u v :=
  fun _ _ y h₁ h₂ => absurd h₂ (by omega)

section
variable (vmStart : Nat) (segs : List Seg) (x a l : Nat)

/-- A misaligned start is covered exactly under the first half of `EntryExact`. -/
theorem covers_front (k : Nat) :
    Covers segs (x % pageSize, min l (pageSize - x % pageSize))
        (k, a % pageSize, min l (pageSize - a % pageSize)) ↔
      x % pageSize = a % pageSize ∨
      x % pageSize < a % pageSize ∧ pageSize ≤ x % pageSize + l ∧
        CopiedLater segs k (x % pageSize) (a % pageSize) := by
  have hx : x % pageSize < pageSize := Nat.mod_lt _ (by simp [pageSize])
  have hp : a % pageSize < pageSize := Nat.mod_lt _ (by simp [pageSize])
  simp only [Covers]
  constructor
  · rintro ⟨h₁, h₂, h₃, -⟩
    rcases Nat.lt_or_eq_of_le h₁ with hlt | heq
    · exact Or.inr ⟨hlt, by omega, h₃⟩
    · exact Or.inl heq
  · rintro (heq | ⟨hlt, hge, hcl⟩)
    · rw [heq]
      exact ⟨Nat.le_refl _, Nat.le_refl _, .of_le (Nat.le_refl _), .of_le (Nat.le_refl _)⟩
    · exact ⟨by omega, by omega, hcl, .of_le (by omega)⟩

/-- When a misaligned start is covered, the walk looks for a misaligned end
    exactly when there is one. -/
theorem end_iff_end (h : a % pageSize = 0 ∨ x % pageSize = a % pageSize ∨
      x % pageSize < a % pageSize ∧ pageSize ≤ x % pageSize + l) :
    ((a + l) % pageSize = 0 ∨ (a % pageSize ≠ 0 ∧ x % pageSize + l < pageSize)) ↔
    ((a + l) % pageSize = 0 ∨ (a % pageSize ≠ 0 ∧ a % pageSize + l < pageSize)) := by
  rcases h with h | h | h
  · simp [h]
  · rw [h]
  · have h₁ : ¬ x % pageSize + l < pageSize := by omega
    have h₂ : ¬ a % pageSize + l < pageSize := by omega
    simp [h₁, h₂]

theorem entryRanges_length (h : a % pageSize = 0 ∨ x % pageSize = a % pageSize ∨
      x % pageSize < a % pageSize ∧ pageSize ≤ x % pageSize + l) :
    (entryRanges x a l).length = (neededRanges vmStart a l).length := by
  have hiff := end_iff_end x a l h
  unfold entryRanges neededRanges
  rw [List.length_append, List.length_append]
  congr 1
  · split <;> rfl
  · by_cases he : (a + l) % pageSize = 0 ∨ (a % pageSize ≠ 0 ∧ a % pageSize + l < pageSize)
    · rw [if_pos (hiff.2 he), if_pos he]; rfl
    · rw [if_neg (fun h => he (hiff.1 h)), if_neg he]; rfl

/-- An entry is served exactly when its ranges cover its partly covered pages. -/
theorem entryExact_iff :
    EntryExact vmStart segs x a l ↔
      List.Forall₂ (Covers segs) (entryRanges x a l) (neededRanges vmStart a l) := by
  have hend : Covers segs (0, (x % pageSize + l) % pageSize)
        ((a + l - vmStart) / pageSize, 0, (a + l) % pageSize) ↔
      (a + l) % pageSize ≤ (x % pageSize + l) % pageSize ∧
        CopiedLater segs ((a + l - vmStart) / pageSize) ((a + l) % pageSize)
          ((x % pageSize + l) % pageSize) := by
    simp only [Covers, Nat.zero_add, Nat.le_refl, true_and]
    exact ⟨fun h => ⟨h.1, h.2.2⟩, fun h => ⟨h.1, .of_le (Nat.le_refl _), h.2⟩⟩
  unfold EntryExact entryRanges neededRanges
  by_cases ha : a % pageSize = 0
  · rw [if_pos ha, if_pos ha, List.nil_append, List.nil_append]
    by_cases he : (a + l) % pageSize = 0
    · rw [if_pos (Or.inl he), if_pos (Or.inl he)]
      exact iff_of_true ⟨fun h => absurd ha h, fun h => absurd he h⟩ .nil
    · rw [if_neg (by tauto), if_neg (by tauto), List.forall₂_cons, hend]
      exact ⟨fun h => ⟨h.2 he (Or.inl ha), .nil⟩, fun h => ⟨fun h' => absurd ha h', fun _ _ => h.1⟩⟩
  · have hfront := covers_front segs x a l ((a - vmStart) / pageSize)
    by_cases hf : x % pageSize = a % pageSize ∨
        x % pageSize < a % pageSize ∧ pageSize ≤ x % pageSize + l ∧
          CopiedLater segs ((a - vmStart) / pageSize) (x % pageSize) (a % pageSize)
    · have hiff := end_iff_end x a l (by tauto)
      rw [if_neg ha, if_neg ha, List.singleton_append, List.singleton_append, List.forall₂_cons, hfront]
      by_cases he : (a + l) % pageSize = 0 ∨ (a % pageSize ≠ 0 ∧ a % pageSize + l < pageSize)
      · rw [if_pos (hiff.2 he), if_pos he]
        exact iff_of_true ⟨fun _ => hf, fun h₁ h₂ => by omega⟩ ⟨hf, .nil⟩
      · rw [if_neg (fun h => he (hiff.1 h)), if_neg he, List.forall₂_cons, hend]
        exact ⟨fun h => ⟨hf, h.2 (by omega) (by omega), .nil⟩, fun h => ⟨fun _ => hf, fun _ _ => h.2.1⟩⟩
    · -- the first range of the walk misses the start
      refine iff_of_false (fun h => hf (h.1 ha)) (fun h => ?_)
      rw [if_neg ha, if_neg ha, List.singleton_append, List.singleton_append, List.forall₂_cons] at h
      exact hf (hfront.1 h.1)

end

/-- If entries are served, the ranges of the whole walk cover the partly covered
    pages one by one. -/
theorem walkRanges_covers (vmStart : Nat) (segs : List Seg) (w : Nat → Nat) :
    ∀ (es : List (Nat × Nat)) (i : Nat),
    (∀ j a l, es[j]? = some (a, l) → EntryExact vmStart segs (w (i + j)) a l) →
    List.Forall₂ (Covers segs) (walkRanges w i es) (es.flatMap (fun e => neededRanges vmStart e.1 e.2))
  | [], _, _ => by simp [walkRanges]
  | (a, l) :: es, i, h => by
    have h₀ := (entryExact_iff vmStart segs (w i) a l).1 (h 0 a l rfl)
    have ih := walkRanges_covers vmStart segs w es (i + 1) (fun j b k hj => by
      have := h (j + 1) b k (by simpa using hj)
      rwa [show i + (j + 1) = i + 1 + j by omega] at this)
    simp only [walkRanges, List.flatMap_cons]
    exact List.rel_append h₀ ih

/-- Conversely: if the ranges of the walk cover the partly covered pages one by
    one, every entry is served. The walk and the mapping then stay in step, since
    an entry whose start is covered takes as many bounce pages as it should. -/
theorem entryExact_of_covers (vmStart : Nat) (segs : List Seg) (w : Nat → Nat) :
    ∀ (es : List (Nat × Nat)) (i : Nat),
    (∀ (q : Nat) (n : Nat × Nat × Nat),
      (es.flatMap (fun e => neededRanges vmStart e.1 e.2))[q]? = some n →
      ∃ r, (walkRanges w i es)[q]? = some r ∧ Covers segs r n) →
    ∀ j a l, es[j]? = some (a, l) → EntryExact vmStart segs (w (i + j)) a l
  | [], _, _, j, _, _, hj => by simp at hj
  | (b, k) :: es, i, h, j, a, l, hj => by
    simp only [walkRanges, List.flatMap_cons] at h
    have hlen : (entryRanges (w i) b k).length = (neededRanges vmStart b k).length := by
      by_cases hb : b % pageSize = 0
      · exact entryRanges_length vmStart (w i) b k (Or.inl hb)
      · obtain ⟨r, hr, hcov⟩ := h 0 _ (by rw [neededRanges, if_neg hb]; rfl)
        rw [entryRanges, if_neg hb] at hr
        simp only [List.cons_append, List.nil_append, List.getElem?_cons_zero, Option.some.injEq] at hr
        subst hr
        have hfront := (covers_front segs (w i) b k _).1 hcov
        exact entryRanges_length vmStart (w i) b k (by tauto)
    cases j with
    | zero =>
      simp only [List.getElem?_cons_zero, Option.some.injEq, Prod.mk.injEq] at hj
      obtain ⟨rfl, rfl⟩ := hj
      rw [Nat.add_zero, entryExact_iff, List.forall₂_iff_get]
      refine ⟨hlen, fun q h₁ h₂ => ?_⟩
      obtain ⟨r, hr, hcov⟩ := h q ((neededRanges vmStart b k)[q]) (by
        rw [List.getElem?_append_left h₂, List.getElem?_eq_getElem h₂])
      rw [List.getElem?_append_left h₁, List.getElem?_eq_getElem h₁, Option.some.injEq] at hr
      rw [List.get_eq_getElem, List.get_eq_getElem, hr]
      exact hcov
    | succ j =>
      have ih := entryExact_of_covers vmStart segs w es (i + 1) (fun q n hq => by
        have := h ((neededRanges vmStart b k).length + q) n (by
          rw [List.getElem?_append_right (by omega), Nat.add_sub_cancel_left, hq])
        rwa [← hlen, List.getElem?_append_right (by omega), Nat.add_sub_cancel_left] at this)
        j a l (by simpa using hj)
      rwa [show i + (j + 1) = i + 1 + j by omega]

end Bius
