import Mathlib.Algebra.Group.Nat.Defs
import Mathlib.Data.List.Induction
import Mathlib.Data.List.Nodup
import Mathlib.Logic.Function.Basic

/- Byte-addressed storage as a total function, with the two operations a copy is
   made of: `slice m a n` reads `n` cells from address `a`, `splice m a bs`
   writes the cells of `bs` from address `a` on. The lemmas say what a read
   returns after a write (`slice_splice`, `slice_splice_disjoint`) and how reads
   and writes cut into consecutive pieces (`slice_add`, `slice_inner`, `splice_append`). For a
   sequence of writes, a cell holds what the last write that hits it stored
   (`splices_last`); single-cell writes to distinct cells do not disturb each
   other (`updates_map`).

   A word is stored as its little-endian bytes (`le`), and a structure in memory is
   read field by field (`field`): `field_append` finds a word among what stands before
   and behind it. `overlay` is a copy that stops early. -/
namespace Bytes

variable {β : Type*}

/-- The `n` cells from address `a` on. -/
def slice (m : Nat → β) (a n : Nat) : List β := (List.range n).map (fun i => m (a + i))

/-- `m` with the cells of `bs` written from address `a` on. -/
def splice (m : Nat → β) (a : Nat) (bs : List β) : Nat → β :=
  fun x => if x < a then m x else bs.getD (x - a) (m x)

@[simp] theorem slice_length (m : Nat → β) (a n : Nat) : (slice m a n).length = n := by
  simp [slice]

@[simp] theorem slice_zero (m : Nat → β) (a : Nat) : slice m a 0 = [] := rfl

theorem slice_getElem? (m : Nat → β) (a n i : Nat) (h : i < n) :
    (slice m a n)[i]? = some (m (a + i)) := by
  simp [slice, h]

theorem slice_add (m : Nat → β) (a n k : Nat) :
    slice m a (n + k) = slice m a n ++ slice m (a + n) k := by
  simp only [slice, List.range_add, List.map_append, List.map_map]
  congr 1
  apply List.map_congr_left
  intro i _
  simp [Nat.add_assoc]

theorem slice_congr {m m' : Nat → β} {a n : Nat} (h : ∀ x, a ≤ x → x < a + n → m x = m' x) :
    slice m a n = slice m' a n := by
  apply List.map_congr_left
  intro i hi
  have := List.mem_range.1 hi
  exact h _ (by omega) (by omega)

theorem slice_inner (m : Nat → β) {a n b k : Nat} (h : a ≤ b) (h' : b + k ≤ a + n) :
    ((slice m a n).drop (b - a)).take k = slice m b k := by
  obtain ⟨i, rfl⟩ : ∃ i, b = a + i := ⟨b - a, by omega⟩
  obtain ⟨j, rfl⟩ : ∃ j, n = i + k + j := ⟨n - (i + k), by omega⟩
  rw [Nat.add_sub_cancel_left, Nat.add_assoc, slice_add, List.drop_left' (slice_length m a i), slice_add]
  exact List.take_left' (slice_length m (a + i) k)

theorem splice_outside (m : Nat → β) {a : Nat} {bs : List β} {x : Nat}
    (h : x < a ∨ a + bs.length ≤ x) : splice m a bs x = m x := by
  unfold splice
  split
  · rfl
  · rcases h with h | h
    · omega
    · rw [List.getD_eq_getElem?_getD, List.getElem?_eq_none (by omega)]; rfl

/-- A cell inside the written range holds what was written there. -/
theorem splice_inside (m : Nat → β) {a : Nat} {bs : List β} {i : Nat} (h : i < bs.length) :
    splice m a bs (a + i) = bs[i] := by
  unfold splice
  rw [if_neg (by omega), Nat.add_sub_cancel_left, List.getD_eq_getElem?_getD,
    List.getElem?_eq_getElem h]
  rfl

@[simp] theorem splice_nil (m : Nat → β) (a : Nat) : splice m a [] = m := by
  funext x
  exact splice_outside m (by simp; omega)

theorem slice_splice (m : Nat → β) (a : Nat) (bs : List β) :
    slice (splice m a bs) a bs.length = bs := by
  apply List.ext_getElem?
  intro i
  by_cases h : i < bs.length
  · rw [slice_getElem? _ _ _ _ h, splice_inside m h, List.getElem?_eq_getElem h]
  · rw [List.getElem?_eq_none (by simp; omega), List.getElem?_eq_none (by omega)]

theorem slice_splice_disjoint (m : Nat → β) {a n b : Nat} {bs : List β}
    (h : a + n ≤ b ∨ b + bs.length ≤ a) : slice (splice m b bs) a n = slice m a n :=
  slice_congr (fun _ _ _ => splice_outside m (by omega))

/-- Where the first `n` of some cells have been written, the next ones are written behind
    them. -/
theorem slice_splice_take {m : Nat → β} {a n : Nat} {all bs : List β} (h : slice m a n = all.take n)
    (hbs : bs = (all.drop n).take bs.length) :
    slice (splice m (a + n) bs) a (n + bs.length) = all.take (n + bs.length) := by
  calc slice (splice m (a + n) bs) a (n + bs.length)
      = slice (splice m (a + n) bs) a n ++ slice (splice m (a + n) bs) (a + n) bs.length := slice_add _ _ _ _
    _ = slice m a n ++ bs := by rw [slice_splice, slice_splice_disjoint _ (Or.inl (Nat.le_refl _))]
    _ = all.take n ++ (all.drop n).take bs.length := by rw [h, ← hbs]
    _ = all.take (n + bs.length) := List.take_add.symm

theorem splice_append (m : Nat → β) (a : Nat) (xs ys : List β) :
    splice (splice m a xs) (a + xs.length) ys = splice m a (xs ++ ys) := by
  funext x
  by_cases h₁ : x < a
  · rw [splice_outside _ (by omega), splice_outside _ (by omega), splice_outside _ (by omega)]
  by_cases h₂ : x < a + xs.length
  · obtain ⟨i, rfl⟩ : ∃ i, x = a + i := ⟨x - a, by omega⟩
    rw [splice_outside _ (by omega), splice_inside m (by omega : i < xs.length),
      splice_inside m (by simp; omega : i < (xs ++ ys).length), List.getElem_append_left]
  by_cases h₃ : x < a + xs.length + ys.length
  · obtain ⟨i, rfl⟩ : ∃ i, x = a + xs.length + i := ⟨x - (a + xs.length), by omega⟩
    rw [splice_inside _ (by omega : i < ys.length), Nat.add_assoc,
      splice_inside m (by simp; omega : xs.length + i < (xs ++ ys).length),
      List.getElem_append_right (by omega)]
    simp
  · rw [splice_outside _ (by omega), splice_outside _ (by omega),
      splice_outside _ (by simp; omega)]

/-! ## Sequences of writes -/

/-- The write of `w.2` at `w.1` touches cell `a`. -/
def Hits (w : Nat × List β) (a : Nat) : Prop := w.1 ≤ a ∧ a < w.1 + w.2.length

/-- The writes of a list, in order. -/
def splices (m : Nat → β) (ws : List (Nat × List β)) : Nat → β :=
  ws.foldl (fun m w => splice m w.1 w.2) m

theorem splices_none {ws : List (Nat × List β)} {a : Nat} (m : Nat → β) (h : ∀ w ∈ ws, ¬ Hits w a) :
    splices m ws a = m a := by
  induction ws generalizing m with
  | nil => rfl
  | cons w ws ih =>
    rw [splices, List.foldl_cons, ← splices, ih _ (fun v hv => h v (by simp [hv]))]
    have := h w (by simp)
    simp only [Hits] at this
    exact splice_outside m (by omega)

theorem splices_last {ws : List (Nat × List β)} {a q : Nat} {w : Nat × List β} (m : Nat → β)
    (hq : ws[q]? = some w) (hit : Hits w a) (hlast : ∀ (q' : Nat) (w' : Nat × List β), q < q' →
      ws[q']? = some w' → ¬ Hits w' a) :
    some (splices m ws a) = w.2[a - w.1]? := by
  induction ws generalizing m q with
  | nil => simp at hq
  | cons v ws ih =>
    rw [splices, List.foldl_cons, ← splices]
    cases q with
    | zero =>
      simp only [List.getElem?_cons_zero, Option.some.injEq] at hq
      subst hq
      rw [splices_none]
      · obtain ⟨i, rfl⟩ : ∃ i, a = v.1 + i := ⟨a - v.1, by have := hit.1; omega⟩
        have hi : i < v.2.length := by have := hit.2; omega
        rw [splice_inside m hi, Nat.add_sub_cancel_left, List.getElem?_eq_getElem hi]
      · intro w' hw'
        obtain ⟨j, hj⟩ := List.mem_iff_getElem?.1 hw'
        exact hlast (j + 1) w' (by omega) (by simpa using hj)
    | succ q =>
      exact ih _ (by simpa using hq) (fun q' w' hlt h' => hlast (q' + 1) w' (by omega) (by simpa using h'))

/-- Either there is a last write that hits the cell, or none hits it. -/
theorem hits_cases (ws : List (Nat × List β)) (a : Nat) :
    (∃ (q : Nat) (w : Nat × List β), ws[q]? = some w ∧ Hits w a ∧
      ∀ (q' : Nat) (w' : Nat × List β), q < q' → ws[q']? = some w' → ¬ Hits w' a) ∨
    ∀ w ∈ ws, ¬ Hits w a := by
  induction ws using List.reverseRecOn with
  | nil => exact Or.inr (by simp)
  | append_singleton ws w ih =>
    by_cases hit : Hits w a
    · refine Or.inl ⟨ws.length, w, by simp, hit, fun q' w' hlt h' => ?_⟩
      have := (List.getElem?_eq_some_iff.1 h').1
      simp at this; omega
    · rcases ih with ⟨q, v, hq, hv, hl⟩ | hnone
      · have hlt := (List.getElem?_eq_some_iff.1 hq).1
        refine Or.inl ⟨q, v, by rw [List.getElem?_append_left hlt, hq], hv, fun q' w' hq' h' => ?_⟩
        rcases Nat.lt_or_ge q' ws.length with h₁ | h₁
        · rw [List.getElem?_append_left h₁] at h'
          exact hl q' w' hq' h'
        · rw [List.getElem?_append_right h₁] at h'
          have h₂ : w' = w := by
            cases hd : q' - ws.length with
            | zero => rw [hd] at h'; simpa using h'.symm
            | succ d => rw [hd] at h'; simp at h'
          rw [h₂]; exact hit
      · refine Or.inr (fun v hv => ?_)
        rcases List.mem_append.1 hv with hv | hv
        · exact hnone v hv
        · rw [List.mem_singleton.1 hv]; exact hit

variable {γ : Type*} [DecidableEq γ]

/-- Single-cell writes, in order. -/
def updates (f : γ → β) (xs : List (γ × β)) : γ → β :=
  xs.foldl (fun f x => Function.update f x.1 x.2) f

theorem updates_of_notMem {xs : List (γ × β)} {c : γ} (f : γ → β) (h : c ∉ xs.map Prod.fst) :
    updates f xs c = f c := by
  induction xs generalizing f with
  | nil => rfl
  | cons x xs ih =>
    simp only [List.map_cons, List.mem_cons, not_or] at h
    rw [updates, List.foldl_cons, ← updates, ih _ h.2, Function.update_of_ne h.1]

theorem updates_map (f : γ → β) (cs : List γ) (bs : List β) (hn : cs.Nodup)
    (hlen : cs.length = bs.length) : cs.map (updates f (cs.zip bs)) = bs := by
  induction cs generalizing f bs with
  | nil => simpa using (List.eq_nil_of_length_eq_zero hlen.symm).symm
  | cons c cs ih =>
    cases bs with
    | nil => simp at hlen
    | cons b bs =>
      have hn := List.nodup_cons.1 hn
      simp only [List.zip_cons_cons, List.map_cons]
      rw [updates, List.foldl_cons, ← updates, ih _ bs hn.2 (by simpa using hlen)]
      rw [updates_of_notMem, Function.update_self]
      rw [List.map_fst_zip (by simp at hlen; omega)]
      exact hn.1

theorem updates_inj {α : Type*} (g : γ → β) (c : α → γ) (f : α → β) {vs : List α} (hn : vs.Nodup)
    (hc : ∀ v ∈ vs, ∀ w ∈ vs, c v = c w → v = w) {v : α} (hv : v ∈ vs) :
    updates g (vs.map (fun v => (c v, f v))) (c v) = f v := by
  have h := updates_map g (vs.map c) (vs.map f)
    (hn.map_on (fun v hv w hw h => hc v hv w hw h)) (by simp)
  rw [List.zip_map', List.map_map, List.map_inj_left] at h
  exact h v hv

/-! ## Words and structures -/

/-- The `n` low bytes of a word, the lowest first. -/
def le : Nat → Nat → List UInt8
  | 0, _ => []
  | n + 1, w => UInt8.ofNat w :: le n (w / 256)

/-- The word that bytes hold. -/
def ofLe : List UInt8 → Nat
  | [] => 0
  | b :: bs => b.toNat + 256 * ofLe bs

@[simp] theorem le_length (n w : Nat) : (le n w).length = n := by
  induction n generalizing w with
  | zero => rfl
  | succ n ih => rw [le, List.length_cons, ih]

theorem ofLe_le {n w : Nat} (h : w < 256 ^ n) : ofLe (le n w) = w := by
  induction n generalizing w with
  | zero =>
    rw [Nat.pow_zero] at h
    rw [le, ofLe]
    omega
  | succ n ih =>
    have hdiv : w / 256 < 256 ^ n := by
      rw [Nat.pow_succ] at h
      omega
    have hbyte : (UInt8.ofNat w).toNat = w % 256 := by simp
    rw [le, ofLe, ih hdiv, hbyte]
    omega

/-- The word of `n` bytes at offset `a`. -/
def field (a n : Nat) (bs : List UInt8) : Nat := ofLe ((bs.drop a).take n)

theorem field_append {xs ys : List UInt8} {a n w : Nat} (ha : xs.length = a) (hw : w < 256 ^ n) :
    field a n (xs ++ (le n w ++ ys)) = w := by
  rw [field, List.drop_left' ha, List.take_left' (le_length n w), ofLe_le hw]

/-- The bytes `old` after a copy of `new` that stopped after `k` bytes. -/
def overlay (k : Nat) (new old : List UInt8) : List UInt8 := new.take k ++ old.drop k

theorem overlay_all {new old : List UInt8} (h : old.length = new.length) : overlay new.length new old = new := by
  rw [overlay, List.take_length, ← h, List.drop_length, List.append_nil]

end Bytes
