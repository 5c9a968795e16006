import Mathlib.Algebra.GroupWithZero.Nat
import Mathlib.Data.List.Range

/- Sums of a quantity over finitely many things, for counters and for measures. In a
   system one thing changes at a time: `change` compares the sums before and after.
   `total n f` is the sum over the things `0`, …, `n - 1`, to which others are added at
   the end (`total_succ`). -/
namespace Sums

theorem change {ι : Type} {f g : ι → Nat} {l : List ι} (hl : l.Nodup) {a : ι} (ha : a ∈ l)
    (hfg : ∀ b, b ≠ a → f b = g b) : (l.map f).sum + g a = (l.map g).sum + f a := by
  obtain ⟨l₁, l₂, rfl⟩ := List.append_of_mem ha
  rw [List.nodup_append, List.nodup_cons] at hl
  obtain ⟨-, ⟨hnot₂, -⟩, hdis⟩ := hl
  have h₁ : l₁.map f = l₁.map g :=
    List.map_congr_left (fun b hb => hfg b (fun he => hdis b hb a (by simp) he))
  have h₂ : l₂.map f = l₂.map g :=
    List.map_congr_left (fun b hb => hfg b (fun he => hnot₂ (he ▸ hb)))
  simp only [List.map_append, List.map_cons, List.sum_append, List.sum_cons, h₁, h₂]
  omega

def total (n : Nat) (f : Nat → Nat) : Nat := ((List.range n).map f).sum

variable {n k : Nat} {f g : Nat → Nat}

theorem total_succ (n : Nat) (f : Nat → Nat) : total (n + 1) f = total n f + f n := by
  simp [total, List.range_succ]

theorem total_congr (h : ∀ i < n, f i = g i) : total n f = total n g := by
  induction n with
  | zero => rfl
  | succ n ih => rw [total_succ, total_succ, ih (fun i hi => h i (by omega)), h n (by omega)]

theorem total_change (hk : k < n) (h : ∀ i, i ≠ k → f i = g i) : total n f + g k = total n g + f k :=
  change List.nodup_range (List.mem_range.2 hk) h

theorem total_le (h : ∀ i < n, f i ≤ g i) : total n f ≤ total n g := by
  induction n with
  | zero => exact Nat.le_refl _
  | succ n ih =>
    rw [total_succ, total_succ]
    exact Nat.add_le_add (ih (fun i hi => h i (by omega))) (h n (by omega))

theorem exists_of_total_pos (h : 0 < total n f) : ∃ i < n, 0 < f i := by
  obtain ⟨x, hx, hpos⟩ := List.sum_pos_iff_exists_pos_nat.1 h
  obtain ⟨i, hi, rfl⟩ := List.mem_map.1 hx
  exact ⟨i, List.mem_range.1 hi, hpos⟩

theorem le_total (hk : k < n) : f k ≤ total n f := by
  have hchange := total_change (g := fun i => if i = k then 0 else f i) hk (fun i hi => (if_neg hi).symm)
  simp only [if_true] at hchange
  omega

end Sums
