import Bius.TeardownLists

/- Every request is in one place. `Sound` puts together where the threads are, the links
   and the places; every step in which nobody is in a hurry preserves it
   (`sound_step`). -/
namespace Bius.Teardown

open Dlist

/-- A request that is somewhere is what its owner made it. -/
def RefOk (sema : Nat → Nat → UInt8) (s : State) : Ref → Prop
  | .slot p => s.busy p = true ∧ (s.req (.slot p)).onEnd = .blk ∧ isBlkRequest (s.req (.slot p)).type = true
  | .zones k => s.alive k = true ∧ s.sem k = 0 ∧ k < s.zonesCalls ∧ (s.req (.zones k)).onEnd = .zones ∧
      (s.req (.zones k)).type = .reportZones ∧ SemaIntact (sema k) (s.req (.zones k)).union

/-- Each request is in one place. -/
structure Books (sema : Nat → Nat → UInt8) (s : State) (v : View) : Prop where
  pend_iff : ∀ r, r ∈ v.pending ↔ v.place r = .pending ∨ ∃ p, r = .slot p ∧ s.Drained p
  wait_iff : ∀ c r, r ∈ v.waiting c ↔ v.place r = .waiting c
  wait_nodup : ∀ c, (v.waiting c).Nodup
  held : ∀ r t, v.place r = .held t ↔ (s.call t).holds = some r
  live : ∀ r, v.place r ≠ .free → RefOk sema s r
  idle : ∀ p, v.place (.slot p) = .free → s.busy p = false
  drained : ∀ p, s.Drained p → s.removing = true ∧ Loose s v (.slot p)

/-- The loops of `bius_dev_release`. -/
structure Loops (s : State) (v : View) : Prop where
  attached : ∀ c, v.waiting c ≠ [] → s.attached c = true
  emptied : ∀ c, s.opened c = false → (∀ t, (s.call t).loops ≠ some c) → v.waiting c = []
  node : ∀ t c n, s.call t = .relNext c n ∨ s.call t = .relAt c n →
    n = .waiting c ∨ ∃ r, n = .req r ∧ s.attached c = true
  stand : ∀ t c r, s.call t = .relNext c (.req r) → Loose s v r
  atEnd : ∀ t c, s.call t = .relAt c (.waiting c) → v.waiting c = []

/-- The loop of `remove_block_device`: what lies behind it has been ended, what lies
    before it is pending. -/
structure Drain (s : State) (v : View) : Prop where
  start : ∀ t, s.call t = .remUnlink → ∀ p, ¬ s.Drained p
  next : ∀ t n, s.call t = .remNext n → ∃ a b, v.pending = a ++ b ∧
    n = (Node.pending :: a.map .req).getLast (by simp) ∧
    (∀ r ∈ a, ∃ p, r = .slot p ∧ s.Drained p) ∧ ∀ r ∈ b, v.place r = .pending
  at_ : ∀ t n, s.call t = .remAt n → ∃ a b, v.pending = a ++ b ∧
    (∀ r ∈ a, ∃ p, r = .slot p ∧ s.Drained p) ∧
    (∀ r ∈ b, v.place r = .pending) ∧ (n = .pending ∨ ∃ r b', b = r :: b' ∧ n = .req r)

structure Sound (sema : Nat → Nat → UInt8) (s : State) (v : View) : Prop where
  points : Points s
  rings : Rings s v
  books : Books sema s v
  loops : Loops s v
  drain : Drain s v
  fresh : s.stale = false

/-- Nobody is in a hurry: `bius_queue_rq` does not queue a slot again while a loop of
    `bius_dev_release` stands at it, or after `remove_block_device` has ended it;
    `bius_report_zones` does not return while such a loop stands at its request, and is
    not interrupted; and `remove_block_device` comes to no request of
    `bius_report_zones`, which has no `struct request` in front of it. -/
def Unhurried (s : State) : Act → Prop
  | .insert t => ∀ r, s.call t = .queueing r →
      (∀ u c, s.call u ≠ .relNext c (.req r)) ∧ ∀ p, r = .slot p → ¬ s.Drained p
  | .zonesWake t _ _ _ => ∀ k, s.call t = .zonesWait k → ∀ u c, s.call u ≠ .relNext c (.req (.zones k))
  | .zonesInterrupt _ _ _ _ => False
  | .remEnd t => ∀ k, s.call t ≠ .remAt (.req (.zones k))
  | _ => True

variable {sema : Nat → Nat → UInt8} {s s' : State} {v : View} {t : Tid} {r : Ref}

theorem Books.loose_place (h : Books sema s v) (hr : Loose s v r) :
    v.place r = .free ∨ ∃ u, v.place r = .held u ∧ s.call u = .queueing r := by
  rcases hr with hr | ⟨u, hu⟩
  · exact .inl hr
  · exact .inr ⟨u, (h.held r u).2 (by rw [hu]; rfl), hu⟩

theorem Books.loose_not (h : Books sema s v) (hr : Loose s v r) :
    v.place r ≠ .pending ∧ ∀ c, v.place r ≠ .waiting c := by
  rcases h.loose_place hr with hp | ⟨u, hp, -⟩ <;> rw [hp] <;> exact ⟨by simp, fun c => by simp⟩

/-- A request in a thread's hands, other than one that is about to be queued, has not
    been drained. -/
theorem Books.held_not_drained (h : Books sema s v) (hh : (s.call t).holds = some r) (hq : s.call t ≠ .queueing r)
    {p : Nat} (hp : r = .slot p) : ¬ s.Drained p := by
  intro hd
  subst hp
  have hplace := (h.held _ t).2 hh
  rcases h.loose_place (h.drained p hd).2 with hf | ⟨u, hu, hcall⟩
  · rw [hplace] at hf; cases hf
  · rw [hplace] at hu
    cases hu
    exact hq hcall

theorem Sound.apart (h : Sound sema s v) : Apart s v := by
  have hcursor : ∀ c r, s.Cursor c (.req r) → r ∉ v.pending ∧ ∀ c', r ∉ v.waiting c' := by
    rintro c r ⟨u, hu | ⟨hu, -⟩⟩
    · have hl := h.loops.stand u c r hu
      obtain ⟨h₁, h₂⟩ := h.books.loose_not hl
      refine ⟨fun hp => ?_, fun c' hw => h₂ c' ((h.books.wait_iff c' r).1 hw)⟩
      rcases (h.books.pend_iff r).1 hp with hp | ⟨p, -, hd⟩
      · exact h₁ hp
      · rcases h.loops.node u c _ (.inl hu) with hn | ⟨-, -, hatt⟩
        · cases hn
        · rw [h.points.removing (h.books.drained p hd).1 c] at hatt; cases hatt
    · have hh : (s.call u).holds = some r := by rw [hu]; rfl
      have hplace := (h.books.held r u).2 hh
      refine ⟨fun hp => ?_, fun c' hw => ?_⟩
      · rcases (h.books.pend_iff r).1 hp with hp | ⟨p, heq, hd⟩
        · rw [hplace] at hp; cases hp
        · exact h.books.held_not_drained hh (by rw [hu]; simp) heq hd
      · rw [(h.books.wait_iff c' r).1 hw] at hplace; cases hplace
  refine ⟨fun r c hp hw => ?_, fun r c c' hw hw' => ?_, fun c n hc => ?_, hcursor, fun c n hc => ?_⟩
  · have hplace := (h.books.wait_iff c r).1 hw
    rcases (h.books.pend_iff r).1 hp with hp | ⟨p, rfl, hd⟩
    · rw [hplace] at hp; cases hp
    · exact (h.books.loose_not (h.books.drained p hd).2).2 c hplace
  · have := ((h.books.wait_iff c r).1 hw).symm.trans ((h.books.wait_iff c' r).1 hw')
    cases this
    rfl
  · obtain ⟨u, hu⟩ := hc
    rcases h.loops.node u c n (hu.imp id And.left) with rfl | ⟨r, rfl, -⟩
    · exact .inl rfl
    · exact .inr ⟨r, rfl⟩
  · obtain ⟨u, hu | ⟨hu, -⟩⟩ := hc
    · exact h.points.closes u c (by rw [hu]; rfl)
    · exact h.points.closes u c (by rw [hu]; rfl)

theorem Rings.rePlace (h : Rings s v) (place : Ref → Place) : Rings s { v with place } := ⟨h.pend, h.wait, h.path⟩

/-! ## Who holds what -/

theorem Books.held_keep (h : Books sema s v) {x : Point} (hm : Moves s s' t x) (hx : x.holds = (s.call t).holds)
    (r : Ref) (u : Tid) :
    v.place r = .held u ↔ (s'.call u).holds = some r := by
  rw [h.held, hm.at]
  split
  · next heq => rw [heq, hx]
  · rfl

theorem Books.held_drop (h : Books sema s v) {x : Point} (hm : Moves s s' t x) (hh : (s.call t).holds = some r)
    (hx : x.holds = none) {y : Place} (hy : ∀ u, y ≠ .held u) (r' : Ref) (u : Tid) :
    Function.update v.place r y r' = .held u ↔ (s'.call u).holds = some r' := by
  rw [hm.at, Function.update_apply]
  by_cases hr : r' = r
  · subst hr
    rw [if_pos rfl]
    refine ⟨fun heq => absurd heq (hy u), fun hu => ?_⟩
    split at hu
    · rw [hx] at hu; cases hu
    · next hne =>
      have h₁ := (h.held r' u).2 hu
      rw [(h.held r' t).2 hh] at h₁
      cases h₁
      exact absurd rfl hne
  · rw [if_neg hr, h.held]
    split
    · next heq =>
      rw [heq, hh, hx]
      simp [Ne.symm hr]
    · rfl

theorem Books.held_grab (h : Books sema s v) {x : Point} (hm : Moves s s' t x) (hh : (s.call t).holds = none)
    (hx : x.holds = some r) (hr : ∀ u, v.place r ≠ .held u) (r' : Ref) (u : Tid) :
    Function.update v.place r (.held t) r' = .held u ↔ (s'.call u).holds = some r' := by
  rw [hm.at, Function.update_apply]
  by_cases heq : r' = r
  · subst heq
    rw [if_pos rfl]
    by_cases hu : u = t
    · subst hu
      simp [hx]
    · rw [if_neg hu]
      exact ⟨fun hc => by cases hc; exact absurd rfl hu, fun hc => absurd ((h.held r' u).2 hc) (hr u)⟩
  · rw [if_neg heq, h.held]
    split
    · next hu =>
      rw [hu, hh, hx]
      simp [Ne.symm heq]
    · rfl

/-! ## What stays -/

/-- The steps that are told apart below keep the requests other than `r`. -/
structure Others (s s' : State) (r : Ref) : Prop where
  req : ∀ r', r' ≠ r → s'.req r' = s.req r'
  busy : ∀ p, r ≠ .slot p → s'.busy p = s.busy p
  alive : ∀ k, r ≠ .zones k → s'.alive k = s.alive k
  sem : ∀ k, r ≠ .zones k → s'.sem k = s.sem k
  zonesCalls : s.zonesCalls ≤ s'.zonesCalls

theorem Others.refOk (h : Others s s' r) {r' : Ref} (hne : r' ≠ r) (hr : RefOk sema s r') : RefOk sema s' r' := by
  cases r' with
  | slot p =>
    obtain ⟨h₁, h₂⟩ := hr
    exact ⟨by rw [h.busy p hne.symm]; exact h₁, by rw [h.req _ hne]; exact h₂⟩
  | zones k =>
    obtain ⟨h₁, h₂, h₃, h₄⟩ := hr
    exact ⟨by rw [h.alive k hne.symm]; exact h₁,
      by rw [h.sem k hne.symm]; exact h₂, Nat.lt_of_lt_of_le h₃ h.zonesCalls,
      by rw [h.req _ hne]; exact h₄⟩

theorem Books.live_update (h : Books sema s v) (ho : Others s s' r) {y : Place}
    (hr : y ≠ .free → RefOk sema s' r) (r' : Ref) (hr' : Function.update v.place r y r' ≠ .free) :
      RefOk sema s' r' := by
  rw [Function.update_apply] at hr'
  split at hr'
  · next heq => subst heq; exact hr hr'
  · next hne => exact ho.refOk hne (h.live r' hr')

theorem Books.idle_update (h : Books sema s v) (ho : Others s s' r) {y : Place}
    (hr : ∀ p, r = .slot p → y = .free → s'.busy p = false)
    (p : Nat) (hp : Function.update v.place r y (.slot p) = .free) : s'.busy p = false := by
  rw [Function.update_apply] at hp
  split at hp
  · next heq => exact hr p heq.symm hp
  · next hne => rw [ho.busy p (fun heq => hne heq.symm)]; exact h.idle p hp

/-- A request moves that neither comes from the list of a connection nor goes there. -/
theorem Books.wait_update (h : Books sema s v) {y : Place} (hr : ∀ c, v.place r ≠ .waiting c)
    (hy : ∀ c, y ≠ .waiting c) (c : Nat) (r' : Ref) :
      r' ∈ v.waiting c ↔ Function.update v.place r y r' = .waiting c := by
  rw [h.wait_iff, Function.update_apply]
  split
  · next heq =>
    subst heq
    exact ⟨fun hc => absurd hc (hr c), fun hc => absurd hc (hy c)⟩
  · rfl

theorem Books.pend_update (h : Books sema s v) {y : Place} (hr : v.place r ≠ .pending) (hy : y ≠ .pending)
    (hd : ∀ p, s'.Drained p ↔ s.Drained p) (r' : Ref) :
    r' ∈ v.pending ↔ Function.update v.place r y r' = .pending ∨ ∃ p, r' = .slot p ∧ s'.Drained p := by
  simp only [hd, h.pend_iff, Function.update_apply]
  split
  · next heq =>
    subst heq
    exact or_congr ⟨fun hc => absurd hc hr, fun hc => absurd hc hy⟩ Iff.rfl
  · rfl

theorem loose_keep {v' : View} {x : Point} (hm : Moves s s' t x) (ht : s.call t ≠ .queueing r)
    (hp : v'.place r = v.place r) (h : Loose s v r) : Loose s' v' r := by
  rcases h with h | ⟨u, hu⟩
  · exact .inl (hp.trans h)
  · refine .inr ⟨u, ?_⟩
    rw [hm.at, if_neg (fun heq : u = t => ht (heq ▸ hu))]
    exact hu

theorem cursor_keep {x : Point} (hm : Moves s s' t x) (hx : x.loops = none) {c : Nat} {n : Node} (hc : s'.Cursor c n) :
    s.Cursor c n := by
  obtain ⟨u, hu⟩ := hc
  rw [hm.at] at hu
  split at hu
  · rcases hu with rfl | ⟨rfl, -⟩ <;> cases hx
  · exact ⟨u, hu⟩

/-- The loops, when a thread goes on with the loop it is in, or with none. -/
theorem Loops.moved (h : Loops s v) {v' : View} {x : Point} (hm : Moves s s' t x) (hl : x.loops = (s.call t).loops)
    (hwait : ∀ c, s.opened c = false → v.waiting c = [] → v'.waiting c = [])
    (hatt : ∀ c, v'.waiting c ≠ [] → s.attached c = true) (hp : Points s)
    (hloose : ∀ u c r, s.call u = .relNext c (.req r) → Loose s v r → Loose s' v' r)
    (hnode : ∀ c n, x = .relNext c n ∨ x = .relAt c n → n = .waiting c ∨ ∃ r, n = .req r ∧ s.attached c = true)
    (hstand : ∀ c r, x = .relNext c (.req r) → Loose s' v' r)
    (hend : ∀ c, x = .relAt c (.waiting c) → v'.waiting c = []) :
    Loops s' v' := by
  refine ⟨fun c hc => ?_, fun c ho hno => ?_, fun u c n hu => ?_, fun u c r hu => ?_, fun u c hu => ?_⟩
  · rw [hm.attached]; exact hatt c hc
  · rw [hm.opened] at ho
    refine hwait c ho (h.emptied c ho (fun u hu => hno u ?_))
    rw [hm.at]
    split
    · next heq => rw [hl, ← heq]; exact hu
    · exact hu
  · rw [hm.at] at hu
    rw [hm.attached]
    split at hu
    · exact hnode c n hu
    · exact h.node u c n hu
  · rw [hm.at] at hu
    split at hu
    · exact hstand c r hu
    · exact hloose u c r hu (h.stand u c r hu)
  · rw [hm.at] at hu
    split at hu
    · exact hend c hu
    · exact hwait c (hp.closes u c (by rw [hu]; rfl)) (h.atEnd u c hu)

theorem Loops.other (h : Loops s v) {v' : View} {x : Point} (hm : Moves s s' t x) (ht : (s.call t).loops = none)
    (hx : x.loops = none) (hwait : ∀ c, s.opened c = false → v'.waiting c = v.waiting c)
    (hatt : ∀ c, v'.waiting c ≠ [] → s.attached c = true) (hp : Points s)
    (hloose : ∀ u c r, s.call u = .relNext c (.req r) → Loose s v r → Loose s' v' r) : Loops s' v' := by
  refine h.moved hm (hx.trans ht.symm) (fun c ho hw => (hwait c ho).trans hw) hatt hp hloose ?_ ?_ ?_
  · rintro c n (rfl | rfl) <;> cases hx
  · rintro c r rfl; cases hx
  · rintro c rfl; cases hx

/-- The loop of `remove_block_device`, when another thread moves. -/
theorem Drain.other (h : Drain s v) {v' : View} {x : Point} (hm : Moves s s' t x) (hx : x.removes = false)
    (hd : ∀ p, s'.Drained p ↔ s.Drained p)
    (hpend : ∀ a b, v.pending = a ++ b → (∀ r ∈ b, v.place r = .pending) → (∃ u, (s.call u).removes = true) →
      ∃ b', v'.pending = a ++ b' ∧ (∀ r ∈ b', v'.place r = .pending) ∧ ∀ r b₁, b = r :: b₁ →
        ∃ b₂, b' = r :: b₂) :
    Drain s' v' := by
  have hother : ∀ u, (s'.call u).removes = true → s'.call u = s.call u := by
    intro u hu
    rw [hm.at] at hu ⊢
    split at hu
    · rw [hx] at hu; cases hu
    · next hne => rw [if_neg hne]
  refine ⟨fun u hu p hp => ?_, fun u n hu => ?_, fun u n hu => ?_⟩
  · rw [hother u (by rw [hu]; rfl)] at hu
    exact h.start u hu p ((hd p).1 hp)
  · rw [hother u (by rw [hu]; rfl)] at hu
    obtain ⟨a, b, hab, hn, ha, hb⟩ := h.next u n hu
    obtain ⟨b', hab', hb', -⟩ := hpend a b hab hb ⟨u, by rw [hu]; rfl⟩
    refine ⟨a, b', hab', hn, fun r hr => ?_, hb'⟩
    obtain ⟨p, rfl, hp⟩ := ha r hr
    exact ⟨p, rfl, (hd p).2 hp⟩
  · rw [hother u (by rw [hu]; rfl)] at hu
    obtain ⟨a, b, hab, ha, hb, hn⟩ := h.at_ u n hu
    obtain ⟨b', hab', hb', hfirst⟩ := hpend a b hab hb ⟨u, by rw [hu]; rfl⟩
    refine ⟨a, b', hab', fun r hr => ?_, hb', ?_⟩
    · obtain ⟨p, rfl, hp⟩ := ha r hr
      exact ⟨p, rfl, (hd p).2 hp⟩
    · rcases hn with hn | ⟨r, b₁, hb₁, hn⟩
      · exact .inl hn
      · obtain ⟨b₂, hb₂⟩ := hfirst r b₁ hb₁
        exact .inr ⟨r, b₂, hb₂, hn⟩

theorem Drain.same (h : Drain s v) {v' : View} {x : Point} (hm : Moves s s' t x) (hx : x.removes = false)
    (hd : ∀ p, s'.Drained p ↔ s.Drained p) (hpend : v'.pending = v.pending)
    (hplace : ∀ r, v.place r = .pending → v'.place r = .pending) : Drain s' v' :=
  h.other hm hx hd (fun _ b hab hb _ => ⟨b, hpend.trans hab, fun r hr => hplace r (hb r hr),
    fun _ b₁ hb₁ => ⟨b₁, hb₁⟩⟩)

theorem drained_congr (h : s'.ended = s.ended) (p : Nat) : s'.Drained p ↔ s.Drained p := by
  unfold State.Drained
  rw [h]

/-- Somebody other than `remove_block_device` has ended a request. -/
theorem drained_snoc {e : Ended} (h : s'.ended = s.ended ++ [e]) (he : e.who ≠ .drain) (p : Nat) :
    s'.Drained p ↔ s.Drained p := by
  unfold State.Drained
  rw [h]
  constructor
  · rintro ⟨x, hx, hwho, href⟩
    rcases List.mem_append.1 hx with hx | hx
    · exact ⟨x, hx, hwho, href⟩
    · rw [List.mem_singleton.1 hx] at hwho; exact absurd hwho he
  · rintro ⟨x, hx, hrest⟩
    exact ⟨x, List.mem_append_left _ hx, hrest⟩

/-! ## Steps that touch no request -/

theorem Sound.move (h : Sound sema s v) (hp : Points s') {x : Point} (hm : Moves s s' t x) (ht : (s.call t).loops = none)
    (hx : x.loops = none) (hdrain : Drain s' v) (hh : x.holds = (s.call t).holds)
    (hq : ∀ r, s.call t ≠ .queueing r) (hlinks : s'.links = s.links)
    (hreq : ∀ r, RefOk sema s r → RefOk sema s' r) (hbusy : s'.busy = s.busy) (hended : s'.ended = s.ended)
    (hstale : s'.stale = s.stale) : Sound sema s' v := by
  have hb := h.books
  refine ⟨hp, h.rings.keep hlinks hm.opened (fun c n hc => cursor_keep hm hx hc),
    ⟨fun r => ?_, hb.wait_iff, hb.wait_nodup, hb.held_keep hm hh, fun r hr => hreq r (hb.live r hr),
      fun p hfree => ?_, fun p hd => ?_⟩,
    h.loops.other hm ht hx (fun c _ => rfl) h.loops.attached h.points
      (fun u c r _ hl => loose_keep hm (hq r) rfl hl), hdrain,
    hstale ▸ h.fresh⟩
  · simp only [drained_congr hended]
    exact hb.pend_iff r
  · rw [hbusy]; exact hb.idle p hfree
  · obtain ⟨h₁, h₂⟩ := hb.drained p ((drained_congr hended p).1 hd)
    exact ⟨hm.removing ▸ h₁, loose_keep hm (hq _) rfl h₂⟩

theorem Sound.setCall (h : Sound sema s v) {x : Point} (hp : Points (s.setCall t x)) (ht : (s.call t).loops = none)
    (hx : x.loops = none) (hdrain : Drain (s.setCall t x) v) (hh : x.holds = (s.call t).holds)
    (hq : ∀ r, s.call t ≠ .queueing r) :
    Sound sema (s.setCall t x) v :=
  h.move hp (setCall_moves s t x) ht hx hdrain hh hq rfl (fun r hr => by cases r <;> exact hr) rfl rfl rfl

/-! ## Submission -/

theorem Sound.submit (h : Sound sema s v) (hp : Points s') (hm : Moves s s' t (.queueing r)) (ht : s.call t = .idle)
    (hfree : v.place r = .free) (ho : Others s s' r) (hr : RefOk sema s' r) (hlinks : s'.links = s.links)
    (hended : s'.ended = s.ended) (hstale : s'.stale = s.stale) :
    Sound sema s' { v with place := Function.update v.place r (.held t) } := by
  have hb := h.books
  have hloose : ∀ r', Loose s v r' → Loose s' { v with place := Function.update v.place r (.held t) } r' := by
    rintro r' (hl | ⟨u, hu⟩)
    · by_cases heq : r' = r
      · subst heq
        exact .inr ⟨t, by rw [hm.at, if_pos rfl]⟩
      · exact .inl (by simpa [heq] using hl)
    · refine .inr ⟨u, ?_⟩
      rw [hm.at, if_neg (fun heq => by rw [heq, ht] at hu; cases hu)]
      exact hu
  have hplace : ∀ r' y, y ≠ .free → (∀ u, y ≠ .held u) →
      (Function.update v.place r (.held t) r' = y ↔ v.place r' = y) := by
    intro r' y hy hy'
    rw [Function.update_apply]
    split
    · next heq =>
      subst heq
      rw [hfree]
      exact ⟨fun hc => absurd hc.symm (hy' t), fun hc => absurd hc.symm hy⟩
    · rfl
  refine ⟨hp, (h.rings.keep hlinks hm.opened (fun c n hc => cursor_keep hm rfl hc)).rePlace _,
    ⟨fun r' => ?_, fun c r' => ?_, hb.wait_nodup,
      hb.held_grab hm (by rw [ht]; rfl) rfl (fun u => by rw [hfree]; simp), hb.live_update ho (fun _ => hr),
    hb.idle_update ho (fun p _ hc => by cases hc), fun p hd => ?_⟩,
    h.loops.other hm (by rw [ht]; rfl) rfl (fun c _ => rfl) h.loops.attached h.points (fun u c r' _ hl => hloose r' hl),
    h.drain.same hm rfl (drained_congr hended) rfl (fun r' hr' => (hplace r' .pending (by simp) (by simp)).2 hr'),
      hstale ▸ h.fresh⟩
  · simp only [drained_congr hended]
    rw [hb.pend_iff, hplace r' .pending (by simp) (by simp)]
  · rw [hb.wait_iff, hplace r' (.waiting c) (by simp) (by simp)]
  · obtain ⟨h₁, h₂⟩ := hb.drained p ((drained_congr hended p).1 hd)
    exact ⟨hm.removing ▸ h₁, hloose _ h₂⟩

end Bius.Teardown
