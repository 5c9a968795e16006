import Mathlib.Data.List.Basic

/- Consecutive ranges. `Tiles pos len lo l hi` says that the items of `l`, in this
   order, occupy `[lo, hi)` without gap or overlap, an item `x` the `len x` places from
   `pos x` on. Items can be added at the end (`Tiles.snoc`); any two of them are apart
   (`Tiles.apart`), all of them lie inside (`Tiles.inside`), begin at multiples of what
   divides their lengths (`Tiles.dvd`), and every place belongs to one (`Tiles.covers`). -/
namespace Ranges

variable {α : Type*} (pos len : α → Nat)

/-- Two ranges have no place in common. -/
def Apart (x y : α) : Prop := pos x + len x ≤ pos y ∨ pos y + len y ≤ pos x

def Tiles : Nat → List α → Nat → Prop
  | lo, [], hi => lo = hi
  | lo, x :: l, hi => pos x = lo ∧ Tiles (lo + len x) l hi

variable {pos len} {lo hi : Nat} {l : List α}

namespace Tiles

theorem le (h : Tiles pos len lo l hi) : lo ≤ hi := by
  induction l generalizing lo with
  | nil => exact Nat.le_of_eq h
  | cons x l ih =>
    have := ih h.2
    omega

theorem snoc (h : Tiles pos len lo l hi) {x : α} (hx : pos x = hi) : Tiles pos len lo (l ++ [x]) (hi + len x) := by
  induction l generalizing lo with
  | nil => cases h; exact ⟨hx, rfl⟩
  | cons y l ih => exact ⟨h.1, ih h.2⟩

theorem inside (h : Tiles pos len lo l hi) {x : α} (hx : x ∈ l) : lo ≤ pos x ∧ pos x + len x ≤ hi := by
  induction l generalizing lo with
  | nil => cases hx
  | cons y l ih =>
    have hle := h.2.le
    have hy := h.1
    rcases List.mem_cons.1 hx with rfl | hx
    · omega
    · have := ih h.2 hx
      omega

theorem apart (h : Tiles pos len lo l hi) {x y : α} (hx : x ∈ l) (hy : y ∈ l) (hne : x ≠ y) :
    Apart pos len x y := by
  induction l generalizing lo with
  | nil => cases hx
  | cons z l ih =>
    have hz := h.1
    rcases List.mem_cons.1 hx with rfl | hx'
    · rcases List.mem_cons.1 hy with rfl | hy'
      · exact absurd rfl hne
      · have := (h.2.inside hy').1
        exact .inl (by omega)
    · rcases List.mem_cons.1 hy with rfl | hy'
      · have := (h.2.inside hx').1
        exact .inr (by omega)
      · exact ih h.2 hx' hy'

/-- Items whose lengths are multiples of `d` begin at multiples of `d`. -/
theorem dvd {d : Nat} (h : Tiles pos len lo l hi) (hlo : d ∣ lo) (hlen : ∀ x ∈ l, d ∣ len x) {x : α}
    (hx : x ∈ l) : d ∣ pos x := by
  induction l generalizing lo with
  | nil => cases hx
  | cons y l ih =>
    rcases List.mem_cons.1 hx with rfl | hx
    · rw [h.1]
      exact hlo
    · exact ih h.2 (Nat.dvd_add hlo (hlen y (by simp))) (fun z hz => hlen z (by simp [hz])) hx

theorem covers (h : Tiles pos len lo l hi) {b : Nat} :
    lo ≤ b ∧ b < hi ↔ ∃ x ∈ l, pos x ≤ b ∧ b < pos x + len x := by
  constructor
  · intro hb
    induction l generalizing lo with
    | nil => cases h; omega
    | cons y l ih =>
      have hy := h.1
      by_cases hlt : b < lo + len y
      · exact ⟨y, by simp, by omega, by omega⟩
      · obtain ⟨x, hx, hxb⟩ := ih h.2 ⟨by omega, hb.2⟩
        exact ⟨x, by simp [hx], hxb⟩
  · rintro ⟨x, hx, hxb⟩
    have := h.inside hx
    omega

end Tiles

end Ranges
