import Mathlib.Data.List.Basic
import Mathlib.Logic.Function.Basic

/- Circular doubly linked lists whose links live in the nodes themselves, as in the
   kernel's `list.h`. `Links` are the `next` and `prev` fields of all nodes; a list is
   known by its head, a node that is no member. `Ring l h xs` says that the links lead
   from the head through the members `xs`, in this order, back to the head, and the same
   way backwards. A node is added at the end by `addTail` and removed by `del`, which
   leaves poison in its links (`Ring.addTail`, `Ring.del`); both leave the links of other
   nodes alone (`Ring.addTail_next`, `Ring.del_next` and the same for `prev`).

   A loop over a list only follows `next`. `Path next a xs b` is what it sees. -/
namespace Dlist

variable {ν : Type*}

/-- From `a` through `xs` to `b`, following `f`. -/
def Path (f : ν → ν) : ν → List ν → ν → Prop
  | a, [], b => f a = b
  | a, x :: xs, b => f a = x ∧ Path f x xs b

namespace Path

variable {f g : ν → ν} {a b n : ν} {xs ys : List ν}

theorem congr (h : Path f a xs b) (hfg : ∀ x ∈ a :: xs, g x = f x) : Path g a xs b := by
  induction xs generalizing a with
  | nil => exact (hfg a (by simp)).trans h
  | cons x xs ih => exact ⟨(hfg a (by simp)).trans h.1, ih h.2 (fun y hy => hfg y (by simp [hy]))⟩

theorem append : Path f a (xs ++ n :: ys) b ↔ Path f a xs n ∧ Path f n ys b := by
  induction xs generalizing a with
  | nil => rfl
  | cons x xs ih =>
    simp only [List.cons_append, Path]
    rw [ih, and_assoc]

theorem first (h : Path f a xs b) : f a = (xs ++ [b]).head (by simp) := by
  cases xs with
  | nil => exact h
  | cons x xs => exact h.1

theorem after (h : Path f a (xs ++ ys) b) : f ((a :: xs).getLast (by simp)) = (ys ++ [b]).head (by simp) := by
  induction xs generalizing a with
  | nil => exact h.first
  | cons x xs ih =>
    rw [List.getLast_cons (by simp)]
    exact ih h.2

theorem restart (h : Path f a xs b) (hn : g n = f a) (hfg : ∀ x ∈ xs, g x = f x) : Path g n xs b := by
  cases xs with
  | nil => exact hn.trans h
  | cons x xs => exact ⟨hn.trans h.1, h.2.congr (fun y hy => hfg y hy)⟩

theorem join (h₁ : Path g a xs (f n)) (h₂ : Path f n ys b) (hfg : ∀ y ∈ ys, g y = f y) :
    Path g a (xs ++ ys) b := by
  cases ys with
  | nil =>
    obtain rfl : f n = b := h₂
    rwa [List.append_nil]
  | cons y ys =>
    obtain ⟨rfl, h₂⟩ := h₂
    exact append.2 ⟨h₁, h₂.congr (fun y hy => hfg y hy)⟩

variable [DecidableEq ν]

theorem retarget (h : Path f a xs b) (hnd : (a :: xs).Nodup) (c : ν) :
    Path (Function.update f ((a :: xs).getLast (by simp)) c) a xs c := by
  induction xs generalizing a with
  | nil => simp [Path]
  | cons x xs ih =>
    have hne : a ≠ (x :: xs).getLast (by simp) := fun heq =>
      (List.nodup_cons.1 hnd).1 (heq ▸ List.getLast_mem _)
    rw [List.getLast_cons (by simp)]
    exact ⟨by rw [Function.update_of_ne hne]; exact h.1, ih h.2 (List.nodup_cons.1 hnd).2⟩

theorem skip (h₁ : Path f a xs n) (h₂ : Path f n ys b) (hnd : (a :: (xs ++ n :: ys)).Nodup) {p : ν}
    (hp : p = (a :: xs).getLast (by simp)) (bad : ν) :
    Path (Function.update (Function.update f p (f n)) n bad) a (xs ++ ys) b := by
  have hsplit : (a :: xs).Nodup ∧ n ∉ a :: xs ∧ (∀ y ∈ ys, y ∉ a :: xs ∧ y ≠ n) := by
    rw [← List.cons_append, List.nodup_append] at hnd
    refine ⟨hnd.1, fun hn => hnd.2.2 n hn n (by simp) rfl,
      fun y hy => ⟨fun hya => hnd.2.2 y hya y (by simp [hy]) rfl, ?_⟩⟩
    rintro rfl
    exact (List.nodup_cons.1 hnd.2.1).1 hy
  obtain ⟨hnd₁, hn, hys⟩ := hsplit
  refine join (f := f) (n := n) ?_ h₂ (fun y hy => ?_)
  · subst hp
    refine (h₁.retarget hnd₁ (f n)).congr (fun x hx => Function.update_of_ne ?_ _ _)
    rintro rfl
    exact hn hx
  · obtain ⟨hya, hyn⟩ := hys y hy
    have hyp : y ≠ p := fun heq => hya (heq ▸ hp ▸ List.getLast_mem _)
    rw [Function.update_of_ne hyn, Function.update_of_ne hyp]

end Path

/-- The links of all nodes. -/
structure Links (ν : Type*) where
  next : ν → ν
  prev : ν → ν

variable [DecidableEq ν]

namespace Links

/-- `list_add_tail`. -/
def addTail (l : Links ν) (n h : ν) : Links ν where
  next := Function.update (Function.update l.next n h) (l.prev h) n
  prev := Function.update (Function.update l.prev h n) n (l.prev h)

/-- `list_del`; `bad` is what it leaves in the node's links. -/
def del (l : Links ν) (n bad : ν) : Links ν where
  next := Function.update (Function.update l.next (l.prev n) (l.next n)) n bad
  prev := Function.update (Function.update l.prev (l.next n) (l.prev n)) n bad

end Links

/-- The list with head `h` and members `xs`. -/
structure Ring (l : Links ν) (h : ν) (xs : List ν) : Prop where
  next : Path l.next h xs h
  prev : Path l.prev h xs.reverse h
  nodup : (h :: xs).Nodup

namespace Ring

variable {l : Links ν} {h n : ν} {xs ys : List ν}

omit [DecidableEq ν] in
theorem first (hr : Ring l h xs) : l.next h = (xs ++ [h]).head (by simp) := hr.next.first

omit [DecidableEq ν] in
theorem prev_head (hr : Ring l h xs) : l.prev h = (h :: xs).getLast (by simp) := by
  rw [hr.prev.first]
  simp only [← List.reverse_cons, List.head_reverse]

omit [DecidableEq ν] in
theorem prev_mem (hr : Ring l h (xs ++ n :: ys)) : l.prev n = (h :: xs).getLast (by simp) := by
  have hp := hr.prev
  rw [List.reverse_append, List.reverse_cons, List.append_assoc, List.singleton_append] at hp
  rw [(Path.append.1 hp).2.first]
  simp only [← List.reverse_cons, List.head_reverse]

omit [DecidableEq ν] in
theorem next_mem (hr : Ring l h (xs ++ n :: ys)) : l.next n = (h :: ys.reverse).getLast (by simp) := by
  rw [(Path.append.1 hr.next).2.first]
  simp only [List.getLast_eq_head_reverse, List.reverse_cons, List.reverse_reverse]

omit [DecidableEq ν] in
theorem congr {l' : Links ν} (hr : Ring l h xs) (hnext : ∀ x ∈ h :: xs, l'.next x = l.next x)
    (hprev : ∀ x ∈ h :: xs, l'.prev x = l.prev x) : Ring l' h xs :=
  ⟨hr.next.congr hnext, hr.prev.congr (fun x hx => hprev x (by simpa using hx)), hr.nodup⟩

theorem addTail (hr : Ring l h xs) (hn : n ∉ h :: xs) : Ring (l.addTail n h) h (xs ++ [n]) := by
  have hlast := hr.prev_head
  have hne : n ≠ (h :: xs).getLast (by simp) := fun heq => hn (heq ▸ List.getLast_mem _)
  have hnh : n ≠ h := fun heq => hn (by simp [heq])
  refine ⟨Path.append.2 ⟨?_, ?_⟩, ?_, ?_⟩
  · simp only [Links.addTail]
    rw [hlast]
    have hpath : Path (Function.update l.next n h) h xs h :=
      hr.next.congr (fun x hx => Function.update_of_ne (fun heq : x = n => hn (heq ▸ hx)) _ _)
    exact hpath.retarget hr.nodup n
  · simp only [Path, Links.addTail]
    rw [hlast, Function.update_of_ne hne, Function.update_self]
  · rw [List.reverse_append, List.reverse_singleton, List.singleton_append]
    refine ⟨?_, hr.prev.restart (a := h) ?_ (fun x hx => ?_)⟩
    · simp only [Links.addTail]
      rw [Function.update_of_ne hnh.symm, Function.update_self]
    · simp only [Links.addTail, Function.update_self]
    · have hx' : x ∈ xs := by simpa using hx
      have hxn : x ≠ n := fun heq => hn (by simp [← heq, hx'])
      have hxh : x ≠ h := fun heq => (List.nodup_cons.1 hr.nodup).1 (heq ▸ hx')
      simp only [Links.addTail]
      rw [Function.update_of_ne hxn, Function.update_of_ne hxh]
  · rw [← List.cons_append, List.nodup_append]
    refine ⟨hr.nodup, by simp, fun a ha b hb heq => hn ?_⟩
    rw [List.mem_singleton] at hb
    rwa [← hb, ← heq]

theorem del (hr : Ring l h (xs ++ n :: ys)) (bad : ν) : Ring (l.del n bad) h (xs ++ ys) := by
  obtain ⟨hn₁, hn₂⟩ := Path.append.1 hr.next
  have hp := hr.prev
  rw [List.reverse_append, List.reverse_cons, List.append_assoc, List.singleton_append] at hp
  obtain ⟨hp₁, hp₂⟩ := Path.append.1 hp
  refine ⟨hn₁.skip hn₂ hr.nodup hr.prev_mem bad, ?_, ?_⟩
  · rw [List.reverse_append]
    refine hp₁.skip hp₂ ?_ hr.next_mem bad
    have hperm : (h :: (ys.reverse ++ n :: xs.reverse)).Perm (h :: (xs ++ n :: ys)) := by
      refine .cons h ?_
      have := List.reverse_perm (xs ++ n :: ys)
      rwa [List.reverse_append, List.reverse_cons, List.append_assoc, List.singleton_append] at this
    exact hperm.nodup_iff.2 hr.nodup
  · refine hr.nodup.sublist (.cons_cons h ?_)
    exact List.Sublist.append_left (List.sublist_cons_self n ys) xs

/-! ## What other lists see -/

theorem addTail_next {x : ν} (hr : Ring l h xs) (hx : x ∉ h :: xs) (hn : x ≠ n) :
    (l.addTail n h).next x = l.next x := by
  have hlast : x ≠ l.prev h := fun heq => hx (heq ▸ hr.prev_head ▸ List.getLast_mem _)
  simp only [Links.addTail]
  rw [Function.update_of_ne hlast, Function.update_of_ne hn]

theorem addTail_prev {x : ν} (hx : x ≠ h) (hn : x ≠ n) : (l.addTail n h).prev x = l.prev x := by
  simp only [Links.addTail]
  rw [Function.update_of_ne hn, Function.update_of_ne hx]

theorem del_next {x bad : ν} (hr : Ring l h (xs ++ n :: ys)) (hx : x ∉ h :: (xs ++ n :: ys)) :
    (l.del n bad).next x = l.next x := by
  have hprev : x ≠ l.prev n := by
    rintro rfl
    rw [hr.prev_mem] at hx
    have := List.getLast_mem (l := h :: xs) (by simp)
    exact hx (by rw [← List.cons_append]; exact List.mem_append_left _ this)
  have hn : x ≠ n := fun heq => hx (by simp [heq])
  simp only [Links.del]
  rw [Function.update_of_ne hn, Function.update_of_ne hprev]

theorem del_prev {x bad : ν} (hr : Ring l h (xs ++ n :: ys)) (hx : x ∉ h :: (xs ++ n :: ys)) :
    (l.del n bad).prev x = l.prev x := by
  have hnext : x ≠ l.next n := by
    rintro rfl
    rw [hr.next_mem] at hx
    have hlast := List.getLast_mem (l := h :: ys.reverse) (by simp)
    have hmem : (h :: ys.reverse).getLast (by simp) ∈ h :: (xs ++ n :: ys) := by
      rcases List.mem_cons.1 hlast with heq | hmem
      · rw [heq]; simp
      · exact List.mem_cons_of_mem _ (List.mem_append_right _ (List.mem_cons_of_mem _ (List.mem_reverse.1 hmem)))
    exact hx hmem
  have hn : x ≠ n := fun heq => hx (by simp [heq])
  simp only [Links.del]
  rw [Function.update_of_ne hn, Function.update_of_ne hnext]

end Ring

end Dlist
