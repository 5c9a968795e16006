import Bius.TeardownPoints

/- The lists of requests, as long as nobody is in a hurry (`Unhurried`): a request is not
   put back on a list, and the frame of `bius_report_zones` does not go away, while a
   loop stands at it, and requests that `remove_block_device` has ended, which it leaves
   on the list, are not queued again. Then every request is in one place, the links are
   those of the lists (`Rings`), and the loop of `bius_dev_release` has the rest of its
   list before it. -/
namespace Bius.Teardown

open Dlist

/-- Where a request is. -/
inductive Place where
  | free
  | held (t : Tid)
  | pending
  | waiting (c : Nat)
  deriving DecidableEq

/-- The lists as lists. For a connection that is being released, `waiting` is what is
    left before its loop. -/
structure View where
  place : Ref → Place
  pending : List Ref
  waiting : Nat → List Ref

/-- `remove_block_device` has ended the request of this slot. -/
def State.Drained (s : State) (p : Nat) : Prop := ∃ e ∈ s.ended, e.who = .drain ∧ e.ref = .slot p

/-- The request is on no list and in nobody's hands but those of a thread that is about
    to queue it. -/
def Loose (s : State) (v : View) (r : Ref) : Prop := v.place r = .free ∨ ∃ u, s.call u = .queueing r

/-- The bytes of the semaphore are those that `sema_init` wrote. -/
def SemaIntact (sema : Nat → UInt8) (u : Union) : Prop := ∀ i, semAt ≤ i → i < intResultAt →
    u i = sema (i - semAt)

/-- A loop of `bius_dev_release` goes on from this node. -/
def State.Cursor (s : State) (c : Nat) (n : Node) : Prop :=
  ∃ t, s.call t = .relNext c n ∨ s.call t = .relAt c n ∧ n ≠ .waiting c

/-! ## The links -/

/-- The links are those of the lists. -/
structure Rings (s : State) (v : View) : Prop where
  pend : Ring s.links .pending (v.pending.map .req)
  wait : ∀ c, s.opened c = true → Ring s.links (.waiting c) ((v.waiting c).map .req)
  path : ∀ c n, s.Cursor c n → Path s.links.next n ((v.waiting c).map .req) (.waiting c)

/-- The nodes of the pending list, and of the list of a connection. -/
def View.onPending (v : View) (n : Node) : Prop := n ∈ Node.pending :: v.pending.map .req
def View.onWaiting (v : View) (c : Nat) (n : Node) : Prop := n ∈ Node.waiting c :: (v.waiting c).map .req

theorem View.onPending_req {v : View} {r : Ref} : v.onPending (.req r) ↔ r ∈ v.pending := by
  simp [View.onPending]

theorem View.onWaiting_req {v : View} {c : Nat} {r : Ref} : v.onWaiting c (.req r) ↔ r ∈ v.waiting c := by
  simp [View.onWaiting]

/-- Each node belongs to one list. -/
structure Apart (s : State) (v : View) : Prop where
  pend_wait : ∀ r c, r ∈ v.pending → r ∉ v.waiting c
  wait_wait : ∀ r c c', r ∈ v.waiting c → r ∈ v.waiting c' → c = c'
  node : ∀ c n, s.Cursor c n → n = .waiting c ∨ ∃ r, n = .req r
  cursor : ∀ c r, s.Cursor c (.req r) → r ∉ v.pending ∧ ∀ c', r ∉ v.waiting c'
  closed : ∀ c n, s.Cursor c n → s.opened c = false

section
variable {s : State} {v : View}

theorem Apart.wait_not_pending (h : Apart s v) {c : Nat} {n : Node} (hn : v.onWaiting c n) : ¬ v.onPending n := by
  rcases List.mem_cons.1 hn with rfl | hn
  · simp [View.onPending]
  · obtain ⟨r, hr, rfl⟩ := List.mem_map.1 hn
    exact fun hp => h.pend_wait r c (View.onPending_req.1 hp) hr

theorem Apart.wait_not_wait (h : Apart s v) {c c' : Nat} (hne : c ≠ c') {n : Node} (hn : v.onWaiting c n) :
    ¬ v.onWaiting c' n := by
  rcases List.mem_cons.1 hn with rfl | hn
  · simpa [View.onWaiting] using hne
  · obtain ⟨r, hr, rfl⟩ := List.mem_map.1 hn
    exact fun hp => hne (h.wait_wait r c c' hr (View.onWaiting_req.1 hp))

theorem Apart.path_nodes (h : Apart s v) {c : Nat} {n x : Node} (hc : s.Cursor c n)
    (hx : x ∈ n :: (v.waiting c).map .req) :
    ¬ v.onPending x ∧ ∀ c', s.opened c' = true → ¬ v.onWaiting c' x := by
  have hclosed := h.closed c n hc
  have hother : ∀ c', s.opened c' = true → c ≠ c' := fun c' ho heq => by rw [← heq, hclosed] at ho; cases ho
  rcases List.mem_cons.1 hx with rfl | hx
  · rcases h.node c x hc with rfl | ⟨r, rfl⟩
    · exact ⟨h.wait_not_pending (c := c) (by simp [View.onWaiting]),
        fun c' ho => h.wait_not_wait (hother c' ho) (by simp [View.onWaiting])⟩
    · obtain ⟨h₁, h₂⟩ := h.cursor c r hc
      exact ⟨fun hp => h₁ (View.onPending_req.1 hp), fun c' _ hp => h₂ c' (View.onWaiting_req.1 hp)⟩
  · have hon : v.onWaiting c x := List.mem_cons_of_mem _ hx
    exact ⟨h.wait_not_pending hon, fun c' ho => h.wait_not_wait (hother c' ho) hon⟩

variable {r : Ref}

/-- The request is on no list, and no loop stands at it. -/
def Off (s : State) (v : View) (r : Ref) : Prop :=
  r ∉ v.pending ∧ (∀ c, r ∉ v.waiting c) ∧ ∀ c, ¬ s.Cursor c (.req r)

theorem Off.path_ne (h : Off s v r) {c : Nat} {n x : Node} (hc : s.Cursor c n) (hx : x ∈ n :: (v.waiting c).map .req) :
    x ≠ .req r := by
  rintro rfl
  rcases List.mem_cons.1 hx with heq | hx
  · exact h.2.2 c (heq ▸ hc)
  · exact h.2.1 c (by simpa using hx)

theorem Rings.addPending (h : Rings s v) (ha : Apart s v) (hr : Off s v r) {s' : State}
    (hlinks : s'.links = s.links.addTail (.req r) .pending) (hopened : s'.opened = s.opened)
    (hcursor : ∀ c n, s'.Cursor c n → s.Cursor c n) : Rings s' { v with pending := v.pending ++ [r] } := by
  refine ⟨?_, fun c ho => ?_, fun c n hc => ?_⟩
  · rw [hlinks, List.map_append]
    exact h.pend.addTail (fun hn => hr.1 (View.onPending_req.1 hn))
  · rw [hlinks]
    have hne : ∀ x, v.onWaiting c x → x ≠ .req r := fun x hx heq => by
      subst heq
      exact hr.2.1 c (View.onWaiting_req.1 hx)
    exact (h.wait c (hopened ▸ ho)).congr (fun x hx => h.pend.addTail_next (ha.wait_not_pending hx) (hne x hx))
      (fun x hx => Ring.addTail_prev (fun heq => ha.wait_not_pending hx (by simp [View.onPending, heq])) (hne x hx))
  · rw [hlinks]
    exact (h.path c n (hcursor c n hc)).congr (fun x hx =>
      h.pend.addTail_next (ha.path_nodes (hcursor c n hc) hx).1 (hr.path_ne (hcursor c n hc) hx))

theorem Rings.addWaiting (h : Rings s v) (ha : Apart s v) (hr : Off s v r) {c₀ : Nat}
    (ho₀ : s.opened c₀ = true) {s' : State} (hlinks : s'.links = s.links.addTail (.req r) (.waiting c₀))
    (hopened : s'.opened = s.opened) (hcursor : ∀ c n, s'.Cursor c n → s.Cursor c n) :
    Rings s' { v with waiting := Function.update v.waiting c₀ (v.waiting c₀ ++ [r]) } := by
  have hring := h.wait c₀ ho₀
  have hne : ∀ c x, v.onWaiting c x → x ≠ .req r := fun c x hx heq => by
    subst heq
    exact hr.2.1 c (View.onWaiting_req.1 hx)
  refine ⟨?_, fun c ho => ?_, fun c n hc => ?_⟩
  · rw [hlinks]
    have hx₀ : ∀ x, v.onPending x → ¬ v.onWaiting c₀ x := fun x hx hw => ha.wait_not_pending hw hx
    exact h.pend.congr (fun x hx => hring.addTail_next (hx₀ x hx)
      (fun heq => hr.1 (by subst heq; exact View.onPending_req.1 hx)))
      (fun x hx => Ring.addTail_prev (fun heq => hx₀ x hx (by simp [View.onWaiting, heq]))
        (fun heq => hr.1 (by subst heq; exact View.onPending_req.1 hx)))
  · rw [hlinks]
    simp only [Function.update_apply]
    split
    · next heq =>
      subst heq
      rw [List.map_append]
      exact hring.addTail (fun hn => hr.2.1 c (View.onWaiting_req.1 hn))
    · next hcc =>
      exact (h.wait c (hopened ▸ ho)).congr (fun x hx => hring.addTail_next (ha.wait_not_wait hcc hx) (hne c x hx))
        (fun x hx => Ring.addTail_prev (fun heq => ha.wait_not_wait hcc hx (by simp [View.onWaiting, heq])) (hne c x hx))
  · have hc' := hcursor c n hc
    have hcc : c ≠ c₀ := fun heq => by rw [← heq, ha.closed c n hc'] at ho₀; cases ho₀
    rw [hlinks]
    simp only [Function.update_of_ne hcc]
    exact (h.path c n hc').congr (fun x hx => hring.addTail_next ((ha.path_nodes hc' hx).2 c₀ ho₀) (hr.path_ne hc' hx))

theorem Rings.delPending (h : Rings s v) (ha : Apart s v) {rest : List Ref} (hr : v.pending = r :: rest) {s' : State}
    (hlinks : s'.links = s.links.del (.req r) .poison) (hopened : s'.opened = s.opened)
    (hcursor : ∀ c n, s'.Cursor c n → s.Cursor c n) : Rings s' { v with pending := rest } := by
  have hring : Ring s.links .pending ([] ++ Node.req r :: rest.map .req) := by
    have := h.pend
    rw [hr] at this
    exact this
  have hon : ∀ x, x ∈ Node.pending :: ([] ++ Node.req r :: rest.map .req) ↔ v.onPending x := fun x => by
    simp [View.onPending, hr]
  refine ⟨?_, fun c ho => ?_, fun c n hc => ?_⟩
  · rw [hlinks]; exact hring.del .poison
  · rw [hlinks]
    exact (h.wait c (hopened ▸ ho)).congr (fun x hx => hring.del_next (fun hm => ha.wait_not_pending hx ((hon x).1 hm)))
      (fun x hx => hring.del_prev (fun hm => ha.wait_not_pending hx ((hon x).1 hm)))
  · rw [hlinks]
    exact (h.path c n (hcursor c n hc)).congr (fun x hx =>
      hring.del_next (fun hm => (ha.path_nodes (hcursor c n hc) hx).1 ((hon x).1 hm)))

theorem Rings.delWaiting (h : Rings s v) (ha : Apart s v) {c₀ : Nat} (ho₀ : s.opened c₀ = true)
    (hr : r ∈ v.waiting c₀) (hnd : (v.waiting c₀).Nodup) {s' : State}
    (hlinks : s'.links = s.links.del (.req r) .poison) (hopened : s'.opened = s.opened)
    (hcursor : ∀ c n, s'.Cursor c n → s.Cursor c n) :
    Rings s' { v with waiting := Function.update v.waiting c₀ ((v.waiting c₀).erase r) } := by
  obtain ⟨xs, ys, hxs, herase, hsplit⟩ : ∃ xs ys, v.waiting c₀ = xs ++ r :: ys ∧
    (v.waiting c₀).erase r = xs ++ ys ∧
      Ring s.links (.waiting c₀) (xs.map .req ++ Node.req r :: ys.map .req) := by
    obtain ⟨xs, ys, hnot, heq, herase⟩ := List.exists_erase_eq hr
    have hring := h.wait c₀ ho₀
    rw [heq, List.map_append, List.map_cons] at hring
    exact ⟨xs, ys, heq, herase, hring⟩
  have hon : ∀ x, x ∈ Node.waiting c₀ :: (xs.map .req ++ Node.req r :: ys.map .req) ↔ v.onWaiting c₀ x :=
      fun x => by
    simp [View.onWaiting, hxs]
  refine ⟨?_, fun c ho => ?_, fun c n hc => ?_⟩
  · rw [hlinks]
    exact h.pend.congr (fun x hx => hsplit.del_next (fun hm => ha.wait_not_pending ((hon x).1 hm) hx))
      (fun x hx => hsplit.del_prev (fun hm => ha.wait_not_pending ((hon x).1 hm) hx))
  · rw [hlinks]
    simp only [Function.update_apply]
    split
    · next heq =>
      subst heq
      rw [herase, List.map_append]
      exact hsplit.del .poison
    · next hcc =>
      exact (h.wait c (hopened ▸ ho)).congr (fun x hx => hsplit.del_next
        (fun hm => ha.wait_not_wait hcc hx ((hon x).1 hm)))
        (fun x hx => hsplit.del_prev (fun hm => ha.wait_not_wait hcc hx ((hon x).1 hm)))
  · have hc' := hcursor c n hc
    have hcc : c ≠ c₀ := fun heq => by rw [← heq, ha.closed c n hc'] at ho₀; cases ho₀
    rw [hlinks]
    simp only [Function.update_of_ne hcc]
    exact (h.path c n hc').congr (fun x hx => hsplit.del_next
      (fun hm => (ha.path_nodes hc' hx).2 c₀ ho₀ ((hon x).1 hm)))

theorem Rings.forget (h : Rings s v) (hr : Off s v r) {s' : State} {next prev : Node}
    (hlinks : s'.links = ⟨Function.update s.links.next (.req r) next, Function.update s.links.prev (.req r) prev⟩)
    (hopened : s'.opened = s.opened) (hcursor : ∀ c n, s'.Cursor c n → s.Cursor c n) : Rings s' v := by
  refine ⟨?_, fun c ho => ?_, fun c n hc => ?_⟩
  · have hne : ∀ x, v.onPending x → x ≠ .req r := fun x hx heq => by subst heq; exact hr.1 (View.onPending_req.1 hx)
    rw [hlinks]
    exact h.pend.congr (fun x hx => Function.update_of_ne (hne x hx) _ _)
      (fun x hx => Function.update_of_ne (hne x hx) _ _)
  · have hne : ∀ x, v.onWaiting c x → x ≠ .req r :=
        fun x hx heq => by subst heq; exact hr.2.1 c (View.onWaiting_req.1 hx)
    rw [hlinks]
    exact (h.wait c (hopened ▸ ho)).congr (fun x hx => Function.update_of_ne (hne x hx) _ _)
      (fun x hx => Function.update_of_ne (hne x hx) _ _)
  · rw [hlinks]
    exact (h.path c n (hcursor c n hc)).congr (fun x hx => Function.update_of_ne (hr.path_ne (hcursor c n hc) hx) _ _)

theorem Rings.keep (h : Rings s v) {s' : State} (hlinks : s'.links = s.links) (hopened : s'.opened = s.opened)
    (hcursor : ∀ c n, s'.Cursor c n → s.Cursor c n) : Rings s' v :=
  ⟨hlinks ▸ h.pend, fun c ho => hlinks ▸ h.wait c (hopened ▸ ho),
    fun c n hc => hlinks ▸ h.path c n (hcursor c n hc)⟩

end

end Bius.Teardown
