import Mathlib.Data.List.Nodup

/- A queue of waiters, the longest-enqueued first. Waiters enter at the tail, are
   woken at the head, and may leave from anywhere; `ahead q x` are those that are
   woken before `x`. Entering puts nobody ahead of `x`, leaving takes at most the
   leaver away, and a wake-up takes away the head. -/
namespace WaitQueue

variable {α : Type*} [DecidableEq α] {q : List α} {x y : α}

/-- The waiters ahead of `x`. -/
def ahead (q : List α) (x : α) : List α := q.takeWhile (fun y => decide (y ≠ x))

theorem ahead_cons (y : α) (q : List α) : ahead (y :: q) x = if y = x then [] else y :: ahead q x := by
  by_cases h : y = x <;> simp [ahead, h]

theorem mem_of_mem_ahead (h : y ∈ ahead q x) : y ∈ q := List.takeWhile_sublist _ |>.subset h

theorem ahead_append (hx : x ∈ q) (y : α) : ahead (q ++ [y]) x = ahead q x := by
  induction q with
  | nil => cases hx
  | cons z q ih =>
    rw [List.cons_append, ahead_cons, ahead_cons]
    split
    · rfl
    · next hne =>
      rcases List.mem_cons.1 hx with rfl | hx
      · exact absurd rfl hne
      · rw [ih hx]

theorem ahead_erase (hy : y ≠ x) : ∀ z ∈ ahead (q.erase y) x, z ∈ ahead q x := by
  induction q with
  | nil => intro z hz; exact hz
  | cons w q ih =>
    intro z hz
    by_cases hw : w = y
    · subst hw
      rw [List.erase_cons_head] at hz
      rw [ahead_cons, if_neg hy]
      exact List.mem_cons_of_mem _ hz
    · rw [List.erase_cons_tail (by simpa using hw), ahead_cons] at hz
      rw [ahead_cons]
      split at hz
      · cases hz
      · next hne =>
        rw [if_neg hne]
        rcases List.mem_cons.1 hz with rfl | hz
        · exact List.mem_cons_self
        · exact List.mem_cons_of_mem _ (ih z hz)

end WaitQueue
