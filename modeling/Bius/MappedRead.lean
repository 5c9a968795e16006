import Mathlib.Algebra.Order.BigOperators.Group.List
import Bius.CopyIn
import Bius.MappedWrite

/- Mapped reads. Userspace stores the data through the window; whole pages receive
   it directly, the rest waits in bounce pages until
   `bius_copy_in_misaligned_pages` copies it to the segments. `Stored` says what
   memory holds before the copies, `copyInAll_byte` that a byte holds afterwards
   what the last copy that writes it read, and `mappedRead_iff` that every data
   arrives exactly when the segments do not overlap and the words the walk looks
   at serve for the addresses of the list entries (`CopyInExact`).
   `mappedRead_overwrites` is a request on which they do not. -/
namespace Bius

/-! ## Storing through the window -/

/-- A byte of kernel memory or of a bounce page. -/
inductive Cell where
  | kmem (a : Nat)
  | bounce (k off : Nat)
  deriving DecidableEq

def PhysMem.read (m : PhysMem) : Cell → UInt8
  | .kmem a => m.kmem a
  | .bounce k off => m.bounce k off

/-- The word `w` with its byte `i` replaced. -/
def setByte (w i : Nat) (b : UInt8) : Nat := w - w / 256 ^ i % 256 * 256 ^ i + b.toNat * 256 ^ i

/-- A user store of `b` at `va`. The zero page is mapped read-only. -/
def PhysMem.windowStore (m : PhysMem) (vmStart va : Nat) (b : UInt8) : PhysMem :=
  let off := (va - vmStart) % pageSize
  match m.ptes ((va - vmStart) / pageSize) with
  | .zero => m
  | .data pfn => { m with kmem := Function.update m.kmem (pageAddress pfn + off) b }
  | .reserved k =>
    if k < 2 then
      let j := k * reserveBase + off / 8
      { m with words := Function.update m.words j (setByte (m.words j) (off % 8) b) }
    else { m with bounce := Function.update m.bounce k (Function.update (m.bounce k) off b) }

def PhysMem.storeAll (m : PhysMem) (vmStart : Nat) (xs : List (Nat × UInt8)) : PhysMem :=
  xs.foldl (fun m x => m.windowStore vmStart x.1 x.2) m

/-- The cell a user address names, for addresses outside the list pages. -/
def cellOf (ptes : Nat → Frame) (vmStart va : Nat) : Option Cell :=
  let off := (va - vmStart) % pageSize
  match ptes ((va - vmStart) / pageSize) with
  | .zero => none
  | .data pfn => some (.kmem (pageAddress pfn + off))
  | .reserved k => if k < 2 then none else some (.bounce k off)

theorem windowStore_cell {m : PhysMem} {vmStart va : Nat} {c : Cell} (b : UInt8)
    (h : cellOf m.ptes vmStart va = some c) :
    (m.windowStore vmStart va b).read = Function.update m.read c b ∧
    (m.windowStore vmStart va b).words = m.words ∧ (m.windowStore vmStart va b).ptes = m.ptes := by
  simp only [cellOf] at h
  simp only [PhysMem.windowStore]
  split at h
  · cases h
  · next hp =>
    cases h
    simp only [and_self, and_true]
    funext c
    cases c with
    | kmem a => simp [PhysMem.read, Function.update_apply]
    | bounce k o => simp [PhysMem.read]
  · next k hp =>
    split at h
    · cases h
    · next hk =>
      cases h
      simp only [if_neg hk, and_self, and_true]
      funext c
      cases c with
      | kmem a => simp [PhysMem.read]
      | bounce k' o =>
        by_cases hkk : k' = k
        · subst hkk; simp [PhysMem.read, Function.update_apply]
        · simp [PhysMem.read, hkk]

theorem windowStore_ptes (m : PhysMem) (vmStart va : Nat) (b : UInt8) :
    (m.windowStore vmStart va b).ptes = m.ptes := by
  simp only [PhysMem.windowStore]
  split
  · rfl
  · rfl
  · split <;> rfl

theorem storeAll_ptes (m : PhysMem) (vmStart : Nat) (xs : List (Nat × UInt8)) :
    (m.storeAll vmStart xs).ptes = m.ptes := by
  induction xs generalizing m with
  | nil => rfl
  | cons x xs ih => exact (ih (m.windowStore vmStart x.1 x.2)).trans (windowStore_ptes m vmStart x.1 x.2)

/-- Stores to cells are stores to cells: nothing else changes. -/
theorem storeAll_cells (vmStart : Nat) (cell : Nat → Cell) (xs : List (Nat × UInt8)) (m : PhysMem)
    (h : ∀ x ∈ xs, cellOf m.ptes vmStart x.1 = some (cell x.1)) :
    (m.storeAll vmStart xs).read = Bytes.updates m.read (xs.map (fun x => (cell x.1, x.2))) ∧
    (m.storeAll vmStart xs).words = m.words := by
  induction xs generalizing m with
  | nil => exact ⟨rfl, rfl⟩
  | cons x xs ih =>
    obtain ⟨h₁, h₂, h₃⟩ := windowStore_cell x.2 (h x (by simp))
    obtain ⟨ih₁, ih₂⟩ := ih (m.windowStore vmStart x.1 x.2) (fun y hy => by
      rw [h₃]; exact h y (by simp [hy]))
    refine ⟨?_, by rw [← h₂]; exact ih₂⟩
    rw [PhysMem.storeAll, List.foldl_cons, ← PhysMem.storeAll, ih₁, h₁]
    rfl

/-! ## The bytes of the segments -/

/-- No byte of kernel memory belongs to two segments. -/
def SegsDisjoint (segs : List Seg) : Prop :=
  ∀ (i j : Nat) (s t : Seg) (a : Nat), segs[i]? = some s → segs[j]? = some t → s.Mem a → t.Mem a → i = j

/-- The cell that receives a store to the window address of a segment's byte. -/
def segCell (vmStart : Nat) (segs : List Seg) (va : Nat) : Cell :=
  let i := (va - vmStart) / pageSize
  let off := (va - vmStart) % pageSize
  match segs[i]? with
  | some s => if s.full then .kmem (pageAddress s.page + off) else .bounce (slotOf segs i) off
  | none => .kmem 0

/-- The byte of kernel memory it stands for. -/
def segAddr (vmStart : Nat) (segs : List Seg) (va : Nat) : Nat :=
  match segs[(va - vmStart) / pageSize]? with
  | some s => pageAddress s.page + (va - vmStart) % pageSize
  | none => 0

theorem mem_segAddrs {vmStart : Nat} {segs : List Seg} {va : Nat} :
    va ∈ segAddrs vmStart segs ↔
      ∃ (i : Nat) (s : Seg) (o : Nat), segs[i]? = some s ∧ o < s.len ∧
        va = vmStart + i * pageSize + (s.offset + o) := by
  simp only [segAddrs, List.mem_flatMap, List.mem_range'_1, Prod.exists, List.mem_zipIdx_iff_getElem?]
  constructor
  · rintro ⟨s, i, hi, hge, hlt⟩
    exact ⟨i, s, va - (vmStart + i * pageSize + s.offset), hi, by omega, by omega⟩
  · rintro ⟨i, s, o, hi, ho, rfl⟩
    exact ⟨s, i, hi, by omega, by omega⟩

section
variable {vmStart : Nat} {segs : List Seg} (hok : ∀ s ∈ segs, s.Ok)
include hok

/-- Where byte `o` of segment `i` is stored, and which byte of memory it is. -/
theorem segCell_at {i : Nat} {s : Seg} {o : Nat} (hi : segs[i]? = some s) (ho : o < s.len) :
    segCell vmStart segs (vmStart + i * pageSize + (s.offset + o)) =
      (if s.full then .kmem (pageAddress s.page + (s.offset + o))
       else .bounce (slotOf segs i) (s.offset + o)) ∧
    segAddr vmStart segs (vmStart + i * pageSize + (s.offset + o)) =
      pageAddress s.page + (s.offset + o) := by
  obtain ⟨_, hs⟩ := hok s (List.mem_of_getElem? hi)
  have hp := window_page vmStart i (o := s.offset + o) (by omega)
  simp only [segCell, segAddr, hp.1, hp.2, hi, and_self]

theorem segAddrs_nodup : (segAddrs vmStart segs).Nodup := by
  have key : ∀ segs : List Seg, (∀ s ∈ segs, s.Ok) → (segAddrs vmStart segs).Nodup ∧
      ∀ va ∈ segAddrs vmStart segs, va < vmStart + segs.length * pageSize := by
    intro segs
    induction segs using List.reverseRecOn with
    | nil => intro _; simp [segAddrs]
    | append_singleton segs s ih =>
      intro hok
      obtain ⟨ih₁, ih₂⟩ := ih (fun x hx => hok x (by simp [hx]))
      have hs := hok s (by simp)
      have hlen : (segs.length + 1) * pageSize = segs.length * pageSize + pageSize := by
        rw [Nat.add_mul, Nat.one_mul]
      rw [segAddrs_snoc, List.length_append, List.length_singleton]
      refine ⟨List.nodup_append.2 ⟨ih₁, List.nodup_range', ?_⟩, ?_⟩
      · rintro va h₁ _ h₂ rfl
        have := ih₂ va h₁
        have := (List.mem_range'_1.1 h₂).1
        omega
      · intro va hva
        rcases List.mem_append.1 hva with h₁ | h₁
        · have := ih₂ va h₁; omega
        · have := (List.mem_range'_1.1 h₁).2
          have := hs.2
          omega
  exact (key segs hok).1

/-- Different bytes of disjoint segments are stored to different cells. -/
theorem segCell_injOn (hd : SegsDisjoint segs) {va vb : Nat} (ha : va ∈ segAddrs vmStart segs)
    (hb : vb ∈ segAddrs vmStart segs) (h : segCell vmStart segs va = segCell vmStart segs vb) :
    va = vb := by
  obtain ⟨i, s, o, hi, ho, rfl⟩ := mem_segAddrs.1 ha
  obtain ⟨j, t, p, hj, hp, rfl⟩ := mem_segAddrs.1 hb
  rw [(segCell_at hok hi ho).1, (segCell_at hok hj hp).1] at h
  cases hs : s.full <;> cases ht : t.full <;> simp only [hs, ht, Bool.false_eq_true, if_false, if_true,
    Cell.bounce.injEq, Cell.kmem.injEq, reduceCtorEq] at h
  · -- two bounce pages
    have hij := slotOf_inj hi hs hj ht h.1
    subst hij
    omega
  · -- two whole pages
    have hij : i = j := hd i j s t (pageAddress s.page + (s.offset + o)) hi hj
      ⟨by omega, by omega⟩ ⟨by omega, by omega⟩
    subst hij
    rw [hi] at hj
    cases hj
    omega

variable (vmStart) in
theorem segAddrs_requestBytes (kmem : Nat → UInt8) :
    (segAddrs vmStart segs).map (fun va => kmem (segAddr vmStart segs va)) = requestBytes kmem segs := by
  rw [segAddrs_map vmStart segs _ (fun s o => kmem (pageAddress s.page + s.offset + o))]
  · rfl
  intro i s hi o ho
  rw [Nat.add_assoc (vmStart + i * pageSize), (segCell_at hok hi ho).2, ← Nat.add_assoc]

/-- The segments concatenate to the stored data exactly when memory holds each
    byte in its segment. -/
theorem requestBytes_eq_iff {kmem : Nat → UInt8} {f : Nat → UInt8} :
    requestBytes kmem segs = (segAddrs vmStart segs).map f ↔
      ∀ k s y, segs[k]? = some s → s.offset ≤ y → y < s.offset + s.len →
        kmem (pageAddress s.page + y) = f (vmStart + k * pageSize + y) := by
  rw [← segAddrs_requestBytes vmStart hok, List.map_inj_left]
  constructor
  · intro h k s y hk h₁ h₂
    have hmem : vmStart + k * pageSize + y ∈ segAddrs vmStart segs :=
      mem_segAddrs.2 ⟨k, s, y - s.offset, hk, by omega, by omega⟩
    have := h _ hmem
    rw [show vmStart + k * pageSize + y = vmStart + k * pageSize + (s.offset + (y - s.offset)) by omega,
      (segCell_at hok hk (by omega)).2] at this
    rw [show pageAddress s.page + y = pageAddress s.page + (s.offset + (y - s.offset)) by omega, this]
    congr 1
    omega
  · intro h va hva
    obtain ⟨k, s, o, hk, ho, rfl⟩ := mem_segAddrs.1 hva
    rw [(segCell_at hok hk ho).2]
    exact h k s (s.offset + o) hk (by omega) (by omega)

end

/-! ## The copies -/

/-- The kernel page that copy `q` of the walk writes to. -/
def PhysMem.target (m : PhysMem) (q : Nat) : Nat := m.word (reserveBase + (2 + q))

/-- Copy `q` of the ranges `rs` writes the kernel byte `a`. -/
def CopyHits (m : PhysMem) (rs : List (Nat × Nat)) (q a : Nat) : Prop :=
  ∃ start len, rs[q]? = some (start, len) ∧ m.target q + start ≤ a ∧ a < m.target q + start + len

theorem copyInAll_kmem (m : PhysMem) (cs : List CopyIn) :
    (m.copyInAll cs).kmem = Bytes.splices m.kmem (cs.map (fun c =>
      (m.word (reserveBase + c.slot) + c.start, Bytes.slice (m.bounce c.slot) c.start c.len))) := by
  induction cs generalizing m with
  | nil => rfl
  | cons c cs ih =>
    rw [PhysMem.copyInAll, List.foldl_cons, ← PhysMem.copyInAll, ih]
    rfl

theorem slotted_getElem? (rp : Nat) (rs : List (Nat × Nat)) (q : Nat) :
    (slotted rp rs)[q]? = (rs[q]?).map (fun r => ⟨rp + q, r.1, r.2⟩) := by
  induction rs generalizing rp q with
  | nil => simp [slotted]
  | cons r rs ih =>
    cases q with
    | zero => simp [slotted]
    | succ q => simp [slotted, ih, Nat.add_assoc, Nat.add_comm 1]

/-- A kernel byte holds what the last copy that writes it read from its bounce
    page. -/
theorem copyInAll_byte (m : PhysMem) (rs : List (Nat × Nat)) (a : Nat) :
    (∃ q, CopyHits m rs q a ∧ (∀ q', q < q' → ¬ CopyHits m rs q' a) ∧
      (m.copyInAll (slotted 2 rs)).kmem a = m.bounce (2 + q) (a - m.target q)) ∨
    (∀ q, ¬ CopyHits m rs q a) ∧ (m.copyInAll (slotted 2 rs)).kmem a = m.kmem a := by
  have hget : ∀ q, ((slotted 2 rs).map (fun c =>
      (m.word (reserveBase + c.slot) + c.start, Bytes.slice (m.bounce c.slot) c.start c.len)))[q]? =
      (rs[q]?).map (fun r => (m.target q + r.1, Bytes.slice (m.bounce (2 + q)) r.1 r.2)) := by
    intro q
    rw [List.getElem?_map, slotted_getElem?, Option.map_map]
    rfl
  -- a copy writes the bytes its write hits
  have hhit : ∀ q w, ((slotted 2 rs).map (fun c =>
      (m.word (reserveBase + c.slot) + c.start, Bytes.slice (m.bounce c.slot) c.start c.len)))[q]? = some w →
      (Bytes.Hits w a ↔ CopyHits m rs q a) := by
    intro q w hw
    rw [hget, Option.map_eq_some_iff] at hw
    obtain ⟨r, hr, rfl⟩ := hw
    simp only [Bytes.Hits, Bytes.slice_length, CopyHits, hr]
    constructor
    · intro h
      exact ⟨r.1, r.2, rfl, h⟩
    · rintro ⟨start, len, h, hle, hlt⟩
      cases h
      exact ⟨hle, hlt⟩
  rw [copyInAll_kmem]
  rcases Bytes.hits_cases ((slotted 2 rs).map (fun c =>
      (m.word (reserveBase + c.slot) + c.start, Bytes.slice (m.bounce c.slot) c.start c.len))) a with
    ⟨q, w, hq, hit, hlast⟩ | hnone
  · refine Or.inl ⟨q, (hhit q w hq).1 hit, fun q' hlt hq' => ?_, ?_⟩
    · obtain ⟨start, len, hr, h⟩ := hq'
      have hw := hget q'
      rw [hr, Option.map_some] at hw
      exact hlast q' _ hlt hw ((hhit q' _ hw).2 ⟨start, len, hr, h⟩)
    · have hval := Bytes.splices_last m.kmem hq hit hlast
      rw [hget, Option.map_eq_some_iff] at hq
      obtain ⟨r, -, rfl⟩ := hq
      simp only [Bytes.Hits, Bytes.slice_length] at hit
      rw [Bytes.slice_getElem? _ _ _ _ (by omega), Option.some.injEq] at hval
      rw [hval]
      congr 1
      omega
  · refine Or.inr ⟨fun q hq => ?_, Bytes.splices_none m.kmem hnone⟩
    obtain ⟨start, len, hr, h⟩ := hq
    have hw := hget q
    rw [hr, Option.map_some] at hw
    exact hnone _ (List.mem_of_getElem? hw) ((hhit q _ hw).2 ⟨start, len, hr, h⟩)

theorem walkRanges_le {w : Nat → Nat} : ∀ (es : List (Nat × Nat)) (i : Nat) (r : Nat × Nat),
    r ∈ walkRanges w i es → r.1 + r.2 ≤ pageSize
  | [], _, r, h => by simp [walkRanges] at h
  | (a, l) :: es, i, r, h => by
    rw [walkRanges, List.mem_append] at h
    rcases h with h | h
    · have hx : w i % pageSize < pageSize := Nat.mod_lt _ (by simp [pageSize])
      have he : (w i % pageSize + l) % pageSize < pageSize := Nat.mod_lt _ (by simp [pageSize])
      rw [entryRanges, List.mem_append] at h
      rcases h with h | h
      · split at h
        · simp at h
        · rw [List.mem_singleton.1 h]; simp only; omega
      · split at h
        · simp at h
        · rw [List.mem_singleton.1 h]; simp only; omega
    · exact walkRanges_le es (i + 1) r h

/-! ## Memory before the copies -/

/-- Memory after `f` has been stored through the window of a mapped read that
    started from `m`: whole pages have their data, the bounce pages hold the data
    of the others and are zero around it, and nothing else has changed. -/
structure Stored (vmStart : Nat) (segs : List Seg) (f : Nat → UInt8) (m m₁ : PhysMem) : Prop where
  slot : ∀ k s, segs[k]? = some s → s.full = false →
    m₁.words (reserveBase + slotOf segs k) = pageAddress s.page
  inside : ∀ k s y, segs[k]? = some s → s.full = false → s.offset ≤ y → y < s.offset + s.len →
    m₁.bounce (slotOf segs k) y = f (vmStart + k * pageSize + y)
  around : ∀ k s y, segs[k]? = some s → s.full = false → ¬ (s.offset ≤ y ∧ y < s.offset + s.len) →
    m₁.bounce (slotOf segs k) y = 0
  stale : ∀ c y, 2 + bouncePages segs ≤ c → m₁.bounce c y = m.bounce c y
  whole : ∀ k s y, segs[k]? = some s → s.full = true → y < pageSize →
    m₁.kmem (pageAddress s.page + y) = f (vmStart + k * pageSize + y)
  rest : ∀ a, (∀ s ∈ segs, s.full = true → ¬ s.Mem a) → m₁.kmem a = m.kmem a

/-- Two addresses inside pages are equal only in the same page at the same
    offset. -/
theorem pageAddress_inj {p q y z : Nat} (hy : y < pageSize) (hz : z < pageSize)
    (h : pageAddress p + y = pageAddress q + z) : p = q ∧ y = z := by
  simp only [pageAddress, pageSize] at *
  omega

section
variable {vmStart : Nat} {segs : List Seg} {f : Nat → UInt8} {m m₁ : PhysMem}
  (hst : Stored vmStart segs f m m₁) (hfew : bouncePages segs ≤ biusMaxSegments)
include hst hfew

theorem Stored.target_eq {q k : Nat} {s : Seg} (hq : (partials segs)[q]? = some (s, k)) :
    m₁.target q = pageAddress s.page := by
  have hq' := (List.getElem?_eq_some_iff.1 hq).1
  rw [partials_length] at hq'
  obtain ⟨hk, hf⟩ := mem_partials.1 (List.mem_of_getElem? hq)
  have hslot := partials_slot hq
  simp only [PhysMem.target, PhysMem.word]
  rw [if_pos (by simp only [biusMaxSegments, reserveBase, pageSize] at *; omega), ← hslot]
  exact hst.slot k s hk hf

/-- A copy that stores a byte other than zero, from bounce pages that were zero
    before, stores a byte of its own segment. -/
theorem Stored.copied_mem (hm : ∀ c y, m.bounce c y = 0) {rs : List (Nat × Nat)} {q a : Nat}
    (hq : CopyHits m₁ rs q a) (hne : m₁.bounce (2 + q) (a - m₁.target q) ≠ 0) :
    ∃ s k, (partials segs)[q]? = some (s, k) ∧ s.Mem a := by
  rcases Nat.lt_or_ge q (partials segs).length with hlt | hge
  · obtain ⟨⟨s, k⟩, hp⟩ : ∃ x, (partials segs)[q]? = some x := ⟨_, List.getElem?_eq_getElem hlt⟩
    obtain ⟨hk, hf⟩ := mem_partials.1 (List.mem_of_getElem? hp)
    refine ⟨s, k, hp, ?_⟩
    have htar := hst.target_eq hfew hp
    obtain ⟨start, len, hr, hle, -⟩ := hq
    rw [htar] at hne hle
    rw [← partials_slot hp] at hne
    by_contra hno
    refine hne (hst.around k s _ hk hf (fun h => hno ?_))
    simp only [Seg.Mem]
    omega
  · rw [partials_length] at hge
    exact absurd (by rw [hst.stale _ _ (by omega), hm]) hne

section
variable {rs : List (Nat × Nat)}
  (hcov : List.Forall₂ (Covers segs) rs ((partials segs).map (fun x => (x.2, x.1.offset, x.1.len))))
include hcov

omit hst hfew in
theorem covers_at {q k : Nat} {s : Seg} (hq : (partials segs)[q]? = some (s, k)) :
    ∃ start len, rs[q]? = some (start, len) ∧ Covers segs (start, len) (k, s.offset, s.len) := by
  obtain ⟨hlen, hget⟩ := List.forall₂_iff_get.1 hcov
  obtain ⟨hlt, heq⟩ := List.getElem?_eq_some_iff.1 hq
  rw [List.length_map] at hlen
  have hq' : q < rs.length := by omega
  have := hget q hq' (by rw [List.length_map]; omega)
  simp only [List.get_eq_getElem, List.getElem_map, heq] at this
  exact ⟨rs[q].1, rs[q].2, List.getElem?_eq_getElem hq', this⟩

/-- The bytes of a partly covered segment are copied from its bounce page. -/
theorem Stored.own_hit {q k a : Nat} {s : Seg} (hq : (partials segs)[q]? = some (s, k)) (ha : s.Mem a) :
    CopyHits m₁ rs q a := by
  obtain ⟨start, len, hr, h₁, h₂, -⟩ := covers_at hcov hq
  refine ⟨start, len, hr, ?_⟩
  rw [hst.target_eq hfew hq]
  simp only [Seg.Mem] at ha
  simp only at h₁ h₂
  omega

/-- A byte that is copied belongs to a partly covered segment, whose own copy is
    this one or a later one. -/
theorem Stored.hits_mem {q a : Nat} (hq : CopyHits m₁ rs q a) :
    ∃ q' s k, q ≤ q' ∧ (partials segs)[q']? = some (s, k) ∧ s.Mem a := by
  obtain ⟨start, len, hr, hle, hlt⟩ := hq
  have hlen := hcov.length_eq
  rw [List.length_map] at hlen
  have hq := (List.getElem?_eq_some_iff.1 hr).1
  obtain ⟨⟨s, k⟩, hp⟩ : ∃ x, (partials segs)[q]? = some x :=
    ⟨_, List.getElem?_eq_getElem (by omega)⟩
  obtain ⟨start', len', hr', -, -, hbefore, hbehind⟩ := covers_at hcov hp
  cases hr.symm.trans hr'
  have hk := (mem_partials.1 (List.mem_of_getElem? hp)).1
  rw [hst.target_eq hfew hp] at hle hlt
  by_cases ha : s.Mem a
  · exact ⟨q, s, k, Nat.le_refl _, hp, ha⟩
  · -- a byte copied too much
    have hlater : ∃ k' t, k < k' ∧ segs[k']? = some t ∧ t.full = false ∧
        t.Mem (pageAddress s.page + (a - pageAddress s.page)) := by
      simp only [Seg.Mem, not_and_or] at ha
      rcases ha with ha | ha
      · exact hbefore s hk _ (by simp only; omega) (by simp only; omega)
      · exact hbehind s hk _ (by simp only; omega) (by simp only; omega)
    obtain ⟨k', t, hkk, hk', hf', hmem⟩ := hlater
    rw [Nat.add_sub_cancel' (by omega)] at hmem
    have h₁ := slotOf_lt_slotOf hk (mem_partials.1 (List.mem_of_getElem? hp)).2 hkk
    have h₂ := partials_slot hp
    exact ⟨slotOf segs k' - 2, t, k', by omega, partials_of_slot hk' hf' (by omega), hmem⟩

variable (hd : SegsDisjoint segs)
include hd

theorem Stored.copied (hok : ∀ s ∈ segs, s.Ok) :
    (∀ k s y, segs[k]? = some s → s.offset ≤ y → y < s.offset + s.len →
      (m₁.copyInAll (slotted 2 rs)).kmem (pageAddress s.page + y) = f (vmStart + k * pageSize + y)) ∧
    ∀ a, (∀ s ∈ segs, ¬ s.Mem a) → (m₁.copyInAll (slotted 2 rs)).kmem a = m.kmem a := by
  constructor
  · intro k s y hk h₁ h₂
    have ha : s.Mem (pageAddress s.page + y) := ⟨by omega, by omega⟩
    cases hf : s.full
    · -- the last copy that writes the byte is the segment's own
      obtain ⟨hge, -⟩ := slotOf_lt hk hf
      have hp : (partials segs)[slotOf segs k - 2]? = some (s, k) := partials_of_slot hk hf (by omega)
      have hown := hst.own_hit hfew hcov hp ha
      rcases copyInAll_byte m₁ rs (pageAddress s.page + y) with ⟨q, hq, hlast, hval⟩ | ⟨hnone, -⟩
      · obtain ⟨q', s', k', hle, hp', ha'⟩ := hst.hits_mem hfew hcov hq
        have hq' : q' = q := by
          rcases Nat.lt_or_eq_of_le hle with hlt | heq
          · exact absurd (hst.own_hit hfew hcov hp' ha') (hlast q' hlt)
          · exact heq.symm
        subst hq'
        have hkk := hd k' k s' s _ (mem_partials.1 (List.mem_of_getElem? hp')).1 hk ha' ha
        subst hkk
        cases hk.symm.trans (mem_partials.1 (List.mem_of_getElem? hp')).1
        rw [hval, hst.target_eq hfew hp', ← partials_slot hp', Nat.add_sub_cancel_left]
        exact hst.inside k' s y hk hf h₁ h₂
      · exact absurd hown (hnone _)
    · -- no copy writes a whole page
      rcases copyInAll_byte m₁ rs (pageAddress s.page + y) with ⟨q, hq, -, -⟩ | ⟨-, hval⟩
      · obtain ⟨q', s', k', -, hp', ha'⟩ := hst.hits_mem hfew hcov hq
        obtain ⟨hk', hf'⟩ := mem_partials.1 (List.mem_of_getElem? hp')
        have hkk := hd k' k s' s _ hk' hk ha' ha
        subst hkk
        cases hk.symm.trans hk'
        rw [hf] at hf'
        cases hf'
      · have := (hok s (List.mem_of_getElem? hk)).2
        rw [hval]
        exact hst.whole k s y hk hf (by omega)
  · intro a ha
    rcases copyInAll_byte m₁ rs a with ⟨q, hq, -, -⟩ | ⟨-, hval⟩
    · obtain ⟨_, s, k, -, hp, hmem⟩ := hst.hits_mem hfew hcov hq
      exact absurd hmem (ha s (List.mem_of_getElem? (mem_partials.1 (List.mem_of_getElem? hp)).1))
    · rw [hval]
      exact hst.rest a (fun s hs _ => ha s hs)

end

variable (hd : SegsDisjoint segs) (hm : ∀ c y, m.bounce c y = 0) {rs : List (Nat × Nat)}
include hd hm

/-- If memory and bounce pages were zero, a byte of a partly covered segment that
    arrives as something else was copied from the segment's bounce page. -/
theorem Stored.hit_of_arrived (hz : ∀ a, m.kmem a = 0) {q k y : Nat} {s : Seg}
    (hp : (partials segs)[q]? = some (s, k)) (ha : s.Mem (pageAddress s.page + y))
    (hne : (m₁.copyInAll (slotted 2 rs)).kmem (pageAddress s.page + y) ≠ 0) :
    CopyHits m₁ rs q (pageAddress s.page + y) := by
  obtain ⟨hk, hf⟩ := mem_partials.1 (List.mem_of_getElem? hp)
  rcases copyInAll_byte m₁ rs (pageAddress s.page + y) with ⟨q', hq', -, hval⟩ | ⟨-, hval⟩
  · rw [hval] at hne
    obtain ⟨s', k', hp', ha'⟩ := hst.copied_mem hfew hm hq' hne
    obtain ⟨hk', -⟩ := mem_partials.1 (List.mem_of_getElem? hp')
    have hkk := hd k' k s' s _ hk' hk ha' ha
    have h₁ := partials_slot hp
    have h₂ := partials_slot hp'
    rw [hkk] at h₂
    rwa [show q = q' by omega]
  · rw [hval, hst.rest, hz] at hne
    · exact absurd rfl hne
    · intro t ht hft hmem
      obtain ⟨j, hj⟩ := List.mem_iff_getElem?.1 ht
      have hjk := hd j k t s _ hj hk hmem ha
      subst hjk
      cases hk.symm.trans hj
      rw [hf] at hft
      cases hft

omit hd in
/-- A byte that is copied from a bounce page outside its segment, and still
    arrives, belongs to a partly covered segment behind. -/
theorem Stored.later_of_arrived {q k y : Nat} {s : Seg} (hp : (partials segs)[q]? = some (s, k))
    (hq : CopyHits m₁ rs q (pageAddress s.page + y)) (hout : ¬ s.Mem (pageAddress s.page + y))
    (hne : (m₁.copyInAll (slotted 2 rs)).kmem (pageAddress s.page + y) ≠ 0) :
    ∃ k' t, k < k' ∧ segs[k']? = some t ∧ t.full = false ∧ t.Mem (pageAddress s.page + y) := by
  rcases copyInAll_byte m₁ rs (pageAddress s.page + y) with ⟨q', hq', hlast, hval⟩ | ⟨hnone, -⟩
  · rw [hval] at hne
    obtain ⟨t, k', hp', hmem⟩ := hst.copied_mem hfew hm hq' hne
    obtain ⟨hk', hf'⟩ := mem_partials.1 (List.mem_of_getElem? hp')
    refine ⟨k', t, ?_, hk', hf', hmem⟩
    have hle : q ≤ q' := by
      by_contra hlt
      exact hlast q (by omega) hq
    have hqq : q ≠ q' := by
      rintro rfl
      cases hp.symm.trans hp'
      exact hout hmem
    by_contra hkk
    have h₁ := partials_slot hp
    have h₂ := partials_slot hp'
    rcases Nat.lt_or_eq_of_le (Nat.le_of_not_lt hkk) with hlt | heq
    · have := slotOf_lt_slotOf hk' hf' hlt
      omega
    · rw [heq] at h₂
      omega
  · exact absurd hq (hnone q)

end

/-! ## Mapped reads -/

/-- The ranges of the list `w` from entry `i` on. -/
def readList (w : Nat → Nat) : Nat → Nat → List (Nat × Nat)
  | 0, _ => []
  | fuel + 1, i => if w (2 * i) = 0 then [] else (w (2 * i), w (2 * i + 1)) :: readList w fuel (i + 1)

/-- The user ranges of a mapped request. -/
def userRanges (r : BiusRequest) (vmStart : Nat) (w : Nat → Nat) (fuel : Nat) : List (Nat × Nat) :=
  match r.mapType with
  | .unmapped => []
  | .simple => [(vmStart + r.mapData, r.length)]
  | .list => readList w fuel 0

/-- Userspace stores `data` through the ranges of a mapped read, the kernel copies
    in: the segments hold the data and no other byte has changed. -/
def ReadDelivers (r : BiusRequest) (segs : List Seg) (vmStart fuel : Nat) (m : PhysMem)
    (data : List UInt8) : Prop :=
  let r' := (biusMapData r vmStart segs).2
  let m₀ := m.applyAll (biusMapData r vmStart segs).1
  let m₁ := m₀.storeAll vmStart ((entryAddrs (userRanges r' vmStart m₀.words fuel)).zip data)
  ∃ cs, biusCopyInMisalignedPages r' vmStart m₁.word fuel = some cs ∧
    requestBytes (m₁.copyInAll cs).kmem segs = data ∧
    ∀ a, (∀ s ∈ segs, ¬ s.Mem a) → (m₁.copyInAll cs).kmem a = m.kmem a

theorem readList_eq {w : Nat → Nat} : ∀ (es : List (Nat × Nat)) (fuel i : Nat), es.length < fuel →
    (∀ j a l, es[j]? = some (a, l) → a ≠ 0 ∧ w (2 * (i + j)) = a ∧ w (2 * (i + j) + 1) = l) →
    w (2 * (i + es.length)) = 0 → readList w fuel i = es
  | _, 0, _, hf, _, _ => by omega
  | [], fuel + 1, i, _, _, hend => by
    simp only [List.length_nil, Nat.add_zero] at hend
    simp [readList, hend]
  | (a, l) :: es, fuel + 1, i, hf, hent, hend => by
    obtain ⟨ha, hw₁, hw₂⟩ := hent 0 a l rfl
    simp only [Nat.add_zero] at hw₁ hw₂
    have ih := readList_eq es fuel (i + 1) (by simp only [List.length_cons] at hf; omega)
      (fun j b k hj => by
        have := hent (j + 1) b k (by simpa using hj)
        rwa [show i + (j + 1) = i + 1 + j by omega] at this)
      (by rwa [List.length_cons, show i + (es.length + 1) = i + 1 + es.length by omega] at hend)
    simp only [readList, hw₁, hw₂, ha, if_false, ih]

theorem walkRanges_congr (w w' : Nat → Nat) : ∀ (es : List (Nat × Nat)) (i : Nat),
    (∀ j, j < es.length → w (i + j) = w' (i + j)) → walkRanges w i es = walkRanges w' i es
  | [], _, _ => rfl
  | (a, l) :: es, i, h => by
    have h₀ : w i = w' i := h 0 (by simp)
    have ih : walkRanges w (i + 1) es = walkRanges w' (i + 1) es :=
      walkRanges_congr w w' es (i + 1) (fun j hj => by
        have := h (j + 1) (by simp only [List.length_cons]; omega)
        rwa [show i + (j + 1) = i + 1 + j by omega] at this)
    rw [walkRanges, walkRanges, h₀, ih]

theorem listWord_eq {w : Nat → Nat} {es : List (Nat × Nat)} {j : Nat} (hj : j < es.length)
    (h : ∀ e a l, es[e]? = some (a, l) → w (2 * e) = a ∧ w (2 * e + 1) = l) : w j = listWord es j := by
  obtain ⟨⟨a, l⟩, he⟩ : ∃ x, es[j / 2]? = some x := ⟨_, List.getElem?_eq_getElem (by omega)⟩
  have hw := h (j / 2) a l he
  simp only [listWord, he]
  split
  · rw [← hw.1]; congr 1; omega
  · rw [← hw.2]; congr 1; omega

section
variable {r : BiusRequest} {segs : List Seg} {vmStart : Nat} (h : MapLayout r segs vmStart)
  {fuel : Nat} (hfuel : biusMaxSegments < fuel)
include h

theorem MapLayout.entry_le {a l : Nat} (he : (a, l) ∈ listEntries vmStart segs) :
    l ≤ biusMaxSizePerCommand := by
  have hsum : ((listEntries vmStart segs).map Prod.snd).sum = (segs.map Seg.len).sum := by
    rw [← entryAddrs_length, listEntries_addrs, segAddrs_length]
  have hle : (segs.map Seg.len).sum ≤ segs.length * pageSize := by
    have := List.sum_le_card_nsmul (segs.map Seg.len) pageSize (fun l hl => by
      obtain ⟨s, hs, rfl⟩ := List.mem_map.1 hl
      have := (h.ok s hs).2
      omega)
    simpa using this
  have hmem := List.le_sum_of_mem (List.mem_map.2 ⟨_, he, rfl⟩ : l ∈ (listEntries vmStart segs).map Prod.snd)
  have hw := h.window
  simp only [biusPtesPerCommand, pageSize] at *
  omega

include hfuel

theorem MapLayout.userRanges_eq (m : PhysMem) :
    userRanges (biusMapData r vmStart segs).2 vmStart
      (m.applyAll (biusMapData r vmStart segs).1).words fuel = listEntries vmStart segs := by
  have hlen := h.entries
  rcases Nat.lt_or_eq_of_le h.entries_pos with hes | hes
  · obtain ⟨m₁, hmap, -, -, -, hwords, hlist⟩ := h.memory m
    rw [(biusMapData_list h.unmapped vmStart h.ok hes).1]
    refine readList_eq _ fuel 0 (by omega) (fun j a l hj => ?_) (by simpa using (hlist hes).1)
    have hlt := (List.getElem?_eq_some_iff.1 hj).1
    have hmem := listEntries_mem h.ok (List.mem_of_getElem? hj)
    have hnz := h.nonzero
    rw [Nat.zero_add, hwords _ (Or.inl (by omega)), hwords _ (Or.inl (by omega))]
    exact ⟨by omega, hmap.entry j a l hj⟩
  · obtain ⟨off, hent, hr'⟩ := h.simple hes.symm
    rw [hr', hent]
    rfl

theorem MapLayout.copyIn_walk {m m₁ : PhysMem}
    (hw : m₁.words = (m.applyAll (biusMapData r vmStart segs).1).words) :
    biusCopyInMisalignedPages (biusMapData r vmStart segs).2 vmStart m₁.word fuel =
      some (slotted 2 (walkRanges (listWord (listEntries vmStart segs)) 0 (listEntries vmStart segs))) := by
  have hlen := h.entries
  have hbase : reserveBase = 512 := by simp [reserveBase, pageSize]
  simp only [biusMaxSegments] at hlen hfuel
  rcases Nat.lt_or_eq_of_le h.entries_pos with hes | hes
  · obtain ⟨m₂, hmap, -, -, -, hwords, hlist⟩ := h.memory m
    have hword : ∀ j, j < 2 * (listEntries vmStart segs).length → m₁.word j = m₂.words j := by
      intro j hj
      rw [PhysMem.word, if_pos (by omega), hw, hwords j (Or.inl hj)]
    have hentry : ∀ e a l, (listEntries vmStart segs)[e]? = some (a, l) →
        m₁.word (2 * e) = a ∧ m₁.word (2 * e + 1) = l := by
      intro e a l he
      have hlt := (List.getElem?_eq_some_iff.1 he).1
      rw [hword _ (by omega), hword _ (by omega)]
      exact hmap.entry e a l he
    rw [(biusMapData_list h.unmapped vmStart h.ok hes).1]
    simp only [biusCopyInMisalignedPages]
    rw [copyInLoop_ranges (listEntries vmStart segs) fuel 0 2 (by omega)]
    · rw [walkRanges_congr _ (listWord (listEntries vmStart segs)) _ 0 (fun j hj => by
        rw [Nat.zero_add]; exact listWord_eq hj hentry)]
    · intro j a l hj
      have hmem := listEntries_mem h.ok (List.mem_of_getElem? hj)
      have hle := h.entry_le (List.mem_of_getElem? hj)
      have hnz := h.nonzero
      rw [Nat.zero_add]
      refine ⟨by omega, noWrap_of_le ?_, hentry j a l hj⟩
      simp only [biusMaxSizePerCommand, pageSize] at *
      omega
    · rw [Nat.zero_add, PhysMem.word, if_pos (by omega), hw]
      exact (hlist hes).1
  · obtain ⟨off, hent, hr'⟩ := h.simple hes.symm
    have hnz := h.nonzero
    rw [hr', hent]
    simp only [biusCopyInMisalignedPages]
    rw [copyInLoop_ranges [(vmStart + off, r.length)] fuel 0 2 (by simp only [List.length_singleton]; omega)]
    · rw [walkRanges_congr _ (listWord [(vmStart + off, r.length)]) _ 0 (fun j hj => by
        have : j = 0 := by simpa using hj
        subst this; rfl)]
    · intro j a l hj
      cases j with
      | zero =>
        simp only [List.getElem?_cons_zero, Option.some.injEq, Prod.mk.injEq] at hj
        obtain ⟨rfl, rfl⟩ := hj
        have hle := h.entry_le (a := vmStart + off) (l := r.length) (by rw [hent]; simp)
        refine ⟨by omega, noWrap_of_le ?_, rfl, rfl⟩
        simp only [biusMaxSizePerCommand, pageSize] at *
        omega
      | succ j => simp at hj
    · rfl

omit hfuel in
/-- After `bius_map_data`, a store to a segment's window address goes to the
    segment's cell. -/
theorem MapLayout.cellOf_eq (m : PhysMem) {va : Nat} (hva : va ∈ segAddrs vmStart segs) :
    cellOf (m.applyAll (biusMapData r vmStart segs).1).ptes vmStart va = some (segCell vmStart segs va) := by
  obtain ⟨m₁, hmap, -, -, hp, -, -⟩ := h.memory m
  obtain ⟨k, s, o, hk, ho, rfl⟩ := mem_segAddrs.1 hva
  have hs := (h.ok s (List.mem_of_getElem? hk)).2
  have hpage := window_page vmStart k (o := s.offset + o) (by omega)
  rw [(segCell_at h.ok hk ho).1]
  simp only [cellOf, hpage]
  rw [hp k (List.getElem?_eq_some_iff.1 hk).1, hmap.pte k s hk]
  cases hf : s.full
  · have := (slotOf_lt hk hf).1
    simp; omega
  · simp

omit hfuel in
theorem MapLayout.stored (hr : r.type = .read) (hd : SegsDisjoint segs) (f : Nat → UInt8) (m : PhysMem) :
    Stored vmStart segs f m ((m.applyAll (biusMapData r vmStart segs).1).storeAll vmStart
      ((segAddrs vmStart segs).map (fun va => (va, f va)))) ∧
    ((m.applyAll (biusMapData r vmStart segs).1).storeAll vmStart
      ((segAddrs vmStart segs).map (fun va => (va, f va)))).words =
        (m.applyAll (biusMapData r vmStart segs).1).words := by
  obtain ⟨m₁, hmap, hk, hb, -, hwords, -⟩ := h.memory m
  have hread : requestIsWrite r.type = false := by rw [hr]; rfl
  rw [hread] at hmap
  obtain ⟨hcell, hw⟩ := storeAll_cells vmStart (segCell vmStart segs)
    ((segAddrs vmStart segs).map (fun va => (va, f va))) (m.applyAll (biusMapData r vmStart segs).1)
    (by
      intro x hx
      obtain ⟨va, hva, rfl⟩ := List.mem_map.1 hx
      exact h.cellOf_eq m hva)
  rw [List.map_map] at hcell
  refine ⟨?_, hw⟩
  generalize (m.applyAll (biusMapData r vmStart segs).1) = m₀ at *
  generalize m₀.storeAll vmStart ((segAddrs vmStart segs).map (fun va => (va, f va))) = m' at *
  -- a segment's cell holds its byte, any other cell what it held before
  have hin : ∀ k s y, segs[k]? = some s → s.offset ≤ y → y < s.offset + s.len →
      m'.read (if s.full then .kmem (pageAddress s.page + y) else .bounce (slotOf segs k) y) =
        f (vmStart + k * pageSize + y) := by
    intro k s y hk h₁ h₂
    obtain ⟨o, rfl⟩ : ∃ o, y = s.offset + o := ⟨y - s.offset, by omega⟩
    have hva : vmStart + k * pageSize + (s.offset + o) ∈ segAddrs vmStart segs :=
      mem_segAddrs.2 ⟨k, s, o, hk, by omega, rfl⟩
    rw [← (segCell_at h.ok hk (by omega)).1, hcell]
    exact Bytes.updates_inj m₀.read (segCell vmStart segs) f (segAddrs_nodup h.ok)
      (fun v hv w hw' heq => segCell_injOn h.ok hd hv hw' heq) hva
  have hout : ∀ c, (∀ va ∈ segAddrs vmStart segs, segCell vmStart segs va ≠ c) → m'.read c = m₀.read c := by
    intro c hc
    rw [hcell, Bytes.updates_of_notMem]
    simp only [List.map_map, List.mem_map, Function.comp_apply, not_exists, not_and]
    exact hc
  constructor
  · intro k s hks hf
    have := (slotOf_lt hks hf).1
    rw [hw, hwords _ (Or.inr (by omega)), hmap.slot k s hks hf]
  · intro k s y hks hf h₁ h₂
    have := hin k s y hks h₁ h₂
    rw [hf] at this
    exact this
  · intro k s y hks hf hy
    have := hout (.bounce (slotOf segs k) y) (by
      intro va hva
      obtain ⟨j, t, o, hj, ho, rfl⟩ := mem_segAddrs.1 hva
      rw [(segCell_at h.ok hj ho).1]
      cases ht : t.full
      · intro heq
        simp only [Bool.false_eq_true, if_false, Cell.bounce.injEq] at heq
        have hjk := slotOf_inj hj ht hks hf heq.1
        subst hjk
        cases hks.symm.trans hj
        exact hy (by omega)
      · simp)
    simp only [PhysMem.read] at this
    rw [this, hb, hmap.bounce k s hks hf]
    rfl
  · intro c y hc
    have := hout (.bounce c y) (by
      intro va hva
      obtain ⟨j, t, o, hj, ho, rfl⟩ := mem_segAddrs.1 hva
      rw [(segCell_at h.ok hj ho).1]
      cases ht : t.full
      · have := slotOf_lt hj ht
        intro heq
        simp only [Bool.false_eq_true, if_false, Cell.bounce.injEq] at heq
        omega
      · simp)
    simp only [PhysMem.read] at this
    rw [this, hb, hmap.bounceRest c (Or.inr hc)]
  · intro k s y hks hf hy
    obtain ⟨h₁, h₂⟩ := Seg.full_iff.1 hf
    have := hin k s y hks (by omega) (by omega)
    rw [hf] at this
    exact this
  · intro a ha
    have := hout (.kmem a) (by
      intro va hva
      obtain ⟨j, t, o, hj, ho, rfl⟩ := mem_segAddrs.1 hva
      rw [(segCell_at h.ok hj ho).1]
      cases ht : t.full
      · simp
      · intro heq
        simp only [if_true, Cell.kmem.injEq] at heq
        exact ha t (List.mem_of_getElem? hj) ht ⟨by omega, by omega⟩)
    simp only [PhysMem.read] at this
    rw [this, hk, hmap.kmem]

/-- With the data as a function `f` of the window address: it is delivered exactly
    when the copies put each byte into its segment and leave the rest. -/
theorem MapLayout.readDelivers_iff (hr : r.type = .read) (hd : SegsDisjoint segs) (f : Nat → UInt8)
    (m : PhysMem) :
    ∃ m₁, Stored vmStart segs f m m₁ ∧
      (ReadDelivers r segs vmStart fuel m ((segAddrs vmStart segs).map f) ↔
        (∀ k s y, segs[k]? = some s → s.offset ≤ y → y < s.offset + s.len →
          (m₁.copyInAll (slotted 2 (walkRanges (listWord (listEntries vmStart segs)) 0
            (listEntries vmStart segs)))).kmem (pageAddress s.page + y) = f (vmStart + k * pageSize + y)) ∧
        ∀ a, (∀ s ∈ segs, ¬ s.Mem a) →
          (m₁.copyInAll (slotted 2 (walkRanges (listWord (listEntries vmStart segs)) 0
            (listEntries vmStart segs)))).kmem a = m.kmem a) := by
  obtain ⟨hst, hw⟩ := h.stored hr hd f m
  refine ⟨_, hst, ?_⟩
  simp only [ReadDelivers]
  rw [h.userRanges_eq hfuel, listEntries_addrs, ← List.map_prod_left_eq_zip, h.copyIn_walk hfuel hw,
    ← requestBytes_eq_iff h.ok]
  constructor
  · rintro ⟨_, hcs, hdata, hrest⟩
    cases hcs
    exact ⟨hdata, hrest⟩
  · rintro ⟨hdata, hrest⟩
    exact ⟨_, rfl, hdata, hrest⟩

omit hfuel in
theorem MapLayout.disjoint_of_delivers
    (hall : ∀ m data, data.length = r.length → ReadDelivers r segs vmStart fuel m data) :
    SegsDisjoint segs := by
  intro i j s t a hi hj hs ht
  by_contra hij
  have h₁ := (h.ok s (List.mem_of_getElem? hi)).2
  have h₂ := (h.ok t (List.mem_of_getElem? hj)).2
  simp only [Seg.Mem] at hs ht
  obtain ⟨y, hy⟩ : ∃ y, a = pageAddress s.page + y := ⟨a - pageAddress s.page, by omega⟩
  obtain ⟨z, hz⟩ : ∃ z, a = pageAddress t.page + z := ⟨a - pageAddress t.page, by omega⟩
  obtain ⟨-, hyz⟩ := pageAddress_inj (by omega) (by omega) (hy.symm.trans hz)
  subst hyz
  -- data that differs at the two places of the byte
  obtain ⟨cs, -, hdata, -⟩ := hall sampleMem
    ((segAddrs vmStart segs).map (fun va => if va = vmStart + i * pageSize + y then 1 else 0))
    (by rw [List.length_map, segAddrs_length, h.sum])
  rw [requestBytes_eq_iff h.ok] at hdata
  have hi' := hdata i s y hi (by omega) (by omega)
  have hj' := hdata j t y hj (by omega) (by omega)
  rw [← hy, if_pos rfl] at hi'
  rw [← hz, if_neg (by simp only [pageSize] at *; omega)] at hj'
  rw [hi'] at hj'
  exact absurd hj' (by decide)

/-- If every data is delivered, the ranges of the walk cover the partly covered
    pages. -/
theorem MapLayout.covers_of_delivers (hr : r.type = .read) (hd : SegsDisjoint segs)
    (hall : ∀ m data, data.length = r.length → ReadDelivers r segs vmStart fuel m data)
    {q k : Nat} {s : Seg} (hp : (partials segs)[q]? = some (s, k)) :
    ∃ range, (walkRanges (listWord (listEntries vmStart segs)) 0 (listEntries vmStart segs))[q]? =
      some range ∧ Covers segs range (k, s.offset, s.len) := by
  obtain ⟨hk, hf⟩ := mem_partials.1 (List.mem_of_getElem? hp)
  have hs := (h.ok s (List.mem_of_getElem? hk)).1
  have hlen : ((segAddrs vmStart segs).map (fun _ => (1 : UInt8))).length = r.length := by
    rw [List.length_map, segAddrs_length, h.sum]
  -- ones over zeros: what arrives has been copied
  have hcopied : ∀ y, s.offset ≤ y → y < s.offset + s.len → ∃ start len,
      (walkRanges (listWord (listEntries vmStart segs)) 0 (listEntries vmStart segs))[q]? =
        some (start, len) ∧ start ≤ y ∧ y < start + len := by
    intro y h₁ h₂
    obtain ⟨m₁, hst, hiff⟩ := h.readDelivers_iff hfuel hr hd (fun _ => 1)
      ⟨fun _ => 0, fun _ => 0, fun _ _ => 0, fun _ => .zero⟩
    have harr := (hiff.1 (hall _ _ hlen)).1 k s y hk h₁ h₂
    have hmem : s.Mem (pageAddress s.page + y) := ⟨by omega, by omega⟩
    obtain ⟨start, len, hr', hle, hlt⟩ := hst.hit_of_arrived h.bounces hd (fun _ _ => rfl) (fun _ => rfl)
      hp hmem (by rw [harr]; decide)
    rw [hst.target_eq h.bounces hp] at hle hlt
    exact ⟨start, len, hr', by omega, by omega⟩
  obtain ⟨start, len, hr', hle, -⟩ := hcopied s.offset (Nat.le_refl _) (by omega)
  obtain ⟨start', len', hr'', -, hlt⟩ := hcopied (s.offset + s.len - 1) (by omega) (by omega)
  cases hr'.symm.trans hr''
  -- ones over ones: what the copies clear has been copied again
  have hlater : ∀ y, start ≤ y → y < start + len → ¬ (s.offset ≤ y ∧ y < s.offset + s.len) →
      ∃ k' t, k < k' ∧ segs[k']? = some t ∧ t.full = false ∧ t.Mem (pageAddress s.page + y) := by
    intro y h₁ h₂ hout
    obtain ⟨m₁, hst, hiff⟩ := h.readDelivers_iff hfuel hr hd (fun _ => 1)
      ⟨fun _ => 1, fun _ => 0, fun _ _ => 0, fun _ => .zero⟩
    obtain ⟨hin, hrest⟩ := hiff.1 (hall _ _ hlen)
    refine hst.later_of_arrived h.bounces (fun _ _ => rfl) hp ⟨start, len, hr', ?_⟩ ?_ ?_
    · rw [hst.target_eq h.bounces hp]
      omega
    · simp only [Seg.Mem]; omega
    · by_cases hmem : ∃ t ∈ segs, t.Mem (pageAddress s.page + y)
      · obtain ⟨t, ht, hta⟩ := hmem
        obtain ⟨j, hj⟩ := List.mem_iff_getElem?.1 ht
        simp only [Seg.Mem] at hta
        have := hin j t (pageAddress s.page + y - pageAddress t.page) hj (by omega) (by omega)
        rw [Nat.add_sub_cancel' (by omega)] at this
        rw [this]; decide
      · rw [hrest _ (fun t ht hta => hmem ⟨t, ht, hta⟩)]
        exact (by decide : (1 : UInt8) ≠ 0)
  refine ⟨(start, len), hr', hle, by simp only; omega, ?_, ?_⟩
  · intro s' hs' y h₁ h₂
    cases hk.symm.trans hs'
    simp only at h₁ h₂
    exact hlater y h₁ (by omega) (by omega)
  · intro s' hs' y h₁ h₂
    cases hk.symm.trans hs'
    simp only at h₁ h₂
    exact hlater y (by omega) h₂ (by omega)

/-- **Mapped reads.** Every data that userspace stores through the ranges of a
    mapped read arrives, with no other byte changed, exactly when no byte belongs
    to two segments and every word `i` of the list serves for the address of
    entry `i`. -/
theorem mappedRead_iff (hr : r.type = .read) :
    (∀ m data, data.length = r.length → ReadDelivers r segs vmStart fuel m data) ↔
      SegsDisjoint segs ∧ CopyInExact vmStart segs := by
  have hneed := neededRanges_partials h.aligned h.ok
  constructor
  · intro hall
    have hd := h.disjoint_of_delivers hall
    refine ⟨hd, fun i a l hi => ?_⟩
    rw [← Nat.zero_add i]
    refine entryExact_of_covers vmStart segs _ (listEntries vmStart segs) 0 ?_ i a l hi
    intro q n hq
    rw [hneed, List.getElem?_map, Option.map_eq_some_iff] at hq
    obtain ⟨⟨s, k⟩, hp, rfl⟩ := hq
    exact h.covers_of_delivers hfuel hr hd hall hp
  · rintro ⟨hd, hexact⟩ m data hlen
    have hcov := walkRanges_covers vmStart segs _ (listEntries vmStart segs) 0
      (fun j a l hj => by rw [Nat.zero_add]; exact hexact j a l hj)
    rw [hneed] at hcov
    have hdata := Bytes.updates_map (fun _ => (0 : UInt8)) (segAddrs vmStart segs) data
      (segAddrs_nodup h.ok) (by rw [segAddrs_length, h.sum, hlen])
    rw [← hdata]
    obtain ⟨m₁, hst, hiff⟩ := h.readDelivers_iff hfuel hr hd
      (Bytes.updates (fun _ => 0) ((segAddrs vmStart segs).zip data)) m
    exact hiff.2 (hst.copied h.bounces hcov hd h.ok)

end

theorem segsDisjoint_of_pages {segs : List Seg} (hok : ∀ s ∈ segs, s.Ok)
    (hn : (segs.map Seg.page).Nodup) : SegsDisjoint segs := by
  intro i j s t a hi hj hs ht
  have h₁ := (hok s (List.mem_of_getElem? hi)).2
  have h₂ := (hok t (List.mem_of_getElem? hj)).2
  simp only [Seg.Mem] at hs ht
  have hpage := (pageAddress_inj (p := s.page) (q := t.page) (y := a - pageAddress s.page)
    (z := a - pageAddress t.page) (by omega) (by omega) (by omega)).1
  have hlt : i < (segs.map Seg.page).length := by
    rw [List.length_map]; exact (List.getElem?_eq_some_iff.1 hi).1
  refine (List.getElem?_inj hlt hn).1 ?_
  rw [List.getElem?_map, List.getElem?_map, hi, hj, Option.map_some, Option.map_some, hpage]

theorem copyInExact_of_agree {vmStart : Nat} {segs : List Seg}
    (h : ∀ i a l, (listEntries vmStart segs)[i]? = some (a, l) →
      listWord (listEntries vmStart segs) i % pageSize = a % pageSize) : CopyInExact vmStart segs := by
  intro i a l hi
  have hx := h i a l hi
  refine ⟨fun _ => Or.inl hx, fun _ _ => ?_⟩
  rw [hx, Nat.mod_add_mod]
  exact ⟨Nat.le_refl _, .of_le (Nat.le_refl _)⟩

/-- The start of a page, the end of another, and 32 whole pages: the second list
    entry starts at an offset equal to the length of the first. -/
def agreeingSegs : List Seg :=
  ⟨7, 0, 512⟩ :: ⟨8, 512, 3584⟩ :: (List.range 32).map (fun i => ⟨100 + i, 0, 4096⟩)

def agreeingRequest : BiusRequest :=
  { BiusRequest.blank with id := 1, type := .read, pos := 8192, length := 135168 }

theorem agreeingLayout : MapLayout agreeingRequest agreeingSegs 0x7f0000000000 where
  unmapped := rfl
  long := show biusMapDataThreshold < 135168 by decide
  ok := by
    intro s hs
    simp only [agreeingSegs, List.mem_cons, List.mem_map] at hs
    rcases hs with rfl | rfl | ⟨i, _, rfl⟩ <;> simp [Seg.Ok, pageSize]
  sum := show (agreeingSegs.map Seg.len).sum = 135168 by decide
  window := window_of_limits (by decide) (by decide)
  entries := by decide
  bounces := by decide
  aligned := by decide
  nonzero := by decide

/-- It is delivered as a list of two entries. -/
theorem mappedRead_iff_agreeing :
    (listEntries 0x7f0000000000 agreeingSegs).length = 2 ∧
    ∀ m data, data.length = 135168 →
      ReadDelivers agreeingRequest agreeingSegs 0x7f0000000000 257 m data := by
  refine ⟨by decide, (mappedRead_iff agreeingLayout (by decide) rfl).2 ⟨?_, ?_⟩⟩
  · exact segsDisjoint_of_pages agreeingLayout.ok (by decide)
  · refine copyInExact_of_agree (fun i a l hi => ?_)
    have hes : listEntries 0x7f0000000000 agreeingSegs =
        [(0x7f0000000000, 512), (0x7f0000001200, 134656)] := by decide
    rw [hes] at hi ⊢
    match i with
    | 0 => cases hi; decide
    | 1 => cases hi; decide
    | i + 2 => simp at hi

/-- The sample request, read: the second entry is copied as if it started at
    offset 1024, so 1024 bytes behind the last segment are overwritten with what
    its bounce page holds there. -/
theorem mappedRead_overwrites :
    ¬ ReadDelivers (sampleRequest .read) sampleSegs 0x7f0000000000 257
      ⟨fun _ => 1, fun _ => 0, fun _ _ => 0, fun _ => .zero⟩ (List.replicate 132608 1) := by
  intro hall
  have hlayout := sampleLayout .read
  have hd : SegsDisjoint sampleSegs := segsDisjoint_of_pages hlayout.ok (by decide)
  obtain ⟨m₁, hst, hiff⟩ := hlayout.readDelivers_iff (show biusMaxSegments < 257 by decide) rfl hd (fun _ => 1)
    ⟨fun _ => 1, fun _ => 0, fun _ _ => 0, fun _ => .zero⟩
  have hdata : (segAddrs 0x7f0000000000 sampleSegs).map (fun _ => (1 : UInt8)) = List.replicate 132608 1 := by
    rw [List.map_const', segAddrs_length, hlayout.sum]
    rfl
  rw [hdata] at hiff
  have hp : (partials sampleSegs)[1]? = some (⟨300, 0, 512⟩, 33) := by decide
  have hrange : (walkRanges (listWord (listEntries 0x7f0000000000 sampleSegs)) 0
      (listEntries 0x7f0000000000 sampleSegs))[1]? = some (0, 1536) := by decide
  have hpage := hst.target_eq hlayout.bounces hp
  have hout : ∀ s ∈ sampleSegs, ¬ s.Mem (pageAddress 300 + 1024) := by
    simp only [Seg.Mem]
    decide
  have harr := (hiff.1 hall).2 (pageAddress 300 + 1024) hout
  obtain ⟨k, t, hlt, hk, -, -⟩ := hst.later_of_arrived hlayout.bounces (fun _ _ => rfl) hp (y := 1024)
    ⟨0, 1536, hrange, by rw [hpage]; decide, by rw [hpage]; decide⟩ (hout _ (by decide))
    (by rw [harr]; exact (by decide : (1 : UInt8) ≠ 0))
  have := (List.getElem?_eq_some_iff.1 hk).1
  have hlen : sampleSegs.length = 34 := by decide
  omega

end Bius
