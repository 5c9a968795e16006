import Bius.TeardownSteps

/- What the steps of `remove_block_device`, the return of `bius_report_zones` and a new
   connection do to the places of the requests. -/
namespace Bius.Teardown

open Dlist

variable {sema : Nat → Nat → UInt8} {s s' : State} {v : View} {t : Tid} {r : Ref}

/-! ## `remove_block_device` -/

theorem Drain.mine (hp : Points s) {v' : View} {x : Point} (ht : (s.call t).removes = true) (hm : Moves s s' t x)
    (hstart : x = .remUnlink → ∀ p, ¬ s'.Drained p)
    (hnext : ∀ n, x = .remNext n → ∃ a b, v'.pending = a ++ b ∧
      n = (Node.pending :: a.map .req).getLast (by simp) ∧
      (∀ r ∈ a, ∃ p, r = .slot p ∧ s'.Drained p) ∧ ∀ r ∈ b, v'.place r = .pending)
    (hat : ∀ n, x = .remAt n → ∃ a b, v'.pending = a ++ b ∧ (∀ r ∈ a, ∃ p, r = .slot p ∧ s'.Drained p) ∧
      (∀ r ∈ b, v'.place r = .pending) ∧ (n = .pending ∨ ∃ r b', b = r :: b' ∧ n = .req r)) : Drain s' v' := by
  have hmine : ∀ u y, s'.call u = y → y.removes = true → x = y := by
    intro u y hu hy
    rw [hm.at] at hu
    split at hu
    · exact hu
    · next hne =>
      rw [← hu] at hy
      exact absurd (hp.removes_inj u t hy ht) hne
  exact ⟨fun u hu => hstart (hmine u _ hu rfl), fun u n hu => hnext n (hmine u _ hu rfl),
    fun u n hu => hat n (hmine u _ hu rfl)⟩

theorem Sound.remUnlink (h : Sound sema s v) (hp : Points (s.setCall t (.remNext .pending))) (ht : s.call t = .remUnlink) :
    Sound sema (s.setCall t (.remNext .pending)) v := by
  refine h.setCall hp (by rw [ht]; rfl) rfl ?_ (by rw [ht]; rfl) (by rw [ht]; simp)
  refine Drain.mine h.points (by rw [ht]; rfl) (setCall_moves s t _) (fun hc => by cases hc) (fun n hc => ?_)
    (fun n hc => by cases hc)
  cases hc
  refine ⟨[], v.pending, rfl, rfl, fun r hr => (by cases hr), fun r hr => ?_⟩
  rcases (h.books.pend_iff r).1 hr with hr | ⟨p, -, hd⟩
  · exact hr
  · exact absurd hd (h.drain.start t ht p)

theorem Sound.remNext (h : Sound sema s v) {n : Node} (hp : Points (s.setCall t (.remAt (s.links.next n))))
    (ht : s.call t = .remNext n) : Sound sema (s.setCall t (.remAt (s.links.next n))) v := by
  refine h.setCall hp (by rw [ht]; rfl) rfl ?_ (by rw [ht]; rfl) (by rw [ht]; simp)
  refine Drain.mine h.points (by rw [ht]; rfl) (setCall_moves s t _) (fun hc => by cases hc)
    (fun n hc => by cases hc) (fun n' hc => ?_)
  cases hc
  obtain ⟨a, b, hab, hn, ha, hb⟩ := h.drain.next t n ht
  refine ⟨a, b, hab, ha, hb, ?_⟩
  have hpath := h.rings.pend.next
  rw [hab, List.map_append] at hpath
  have hafter := hpath.after
  rw [← hn] at hafter
  cases b with
  | nil => exact .inl hafter
  | cons r b => exact .inr ⟨r, b, rfl, hafter⟩

theorem Sound.remMove (h : Sound sema s v) {x : Point} (hp : Points s') (ht : (s.call t).removes = true)
    (hm : Moves s s' t x) (hx : x = .remDel ∨ x = .removed ∨ x = .idle) (hlinks : s'.links = s.links)
    (hreq : s'.req = s.req) (hbusy : s'.busy = s.busy) (halive : s'.alive = s.alive) (hsem : s'.sem = s.sem)
    (hz : s'.zonesCalls = s.zonesCalls) (hended : s'.ended = s.ended)
    (hstale : s'.stale = s.stale) : Sound sema s' v := by
  obtain ⟨hl, hh, hq⟩ := Point.of_removes ht
  refine h.move hp hm hl ?_ ?_ ?_ hq hlinks (fun r => refOk_of_eq hreq hbusy halive hsem hz) hbusy hended hstale
  · rcases hx with rfl | rfl | rfl <;> rfl
  · refine Drain.mine h.points ht hm ?_ (fun n => ?_) (fun n => ?_) <;> rcases hx with rfl | rfl | rfl <;>
      intro hc <;> cases hc
  · rw [hh]
    rcases hx with rfl | rfl | rfl <;> rfl

theorem Sound.drained (h : Sound sema s v) {p : Nat} (hp : Points s') (ht : s.call t = .remAt (.req (.slot p)))
    (hm : Moves s s' t (.remNext (.req (.slot p)))) (hlinks : s'.links = s.links) (ho : Others s s' (.slot p))
    (hbusy : s'.busy p = false) (hstale : s'.stale = s.stale) {e : Ended} (hended : s'.ended = s.ended ++ [e])
    (hwho : e.who = .drain) (href : e.ref = .slot p) :
    Sound sema s' { v with place := Function.update v.place (.slot p) .free } := by
  have hb := h.books
  obtain ⟨a, b, hab, ha, hbp, hn⟩ := h.drain.at_ t _ ht
  obtain ⟨b', rfl⟩ : ∃ b', b = .slot p :: b' := by
    rcases hn with hn | ⟨r, b', hb', hn⟩
    · cases hn
    · cases hn; exact ⟨b', hb'⟩
  have hplace : v.place (.slot p) = .pending := hbp _ (by simp)
  have hrem : s.removing = true := h.points.removes t (by rw [ht]; rfl)
  have hd : ∀ q, s'.Drained q ↔ q = p ∨ s.Drained q := by
    intro q
    unfold State.Drained
    rw [hended]
    constructor
    · rintro ⟨x, hx, hw, hr⟩
      rcases List.mem_append.1 hx with hx | hx
      · exact .inr ⟨x, hx, hw, hr⟩
      · rw [List.mem_singleton.1 hx, href] at hr
        cases hr
        exact .inl rfl
    · rintro (rfl | ⟨x, hx, hrest⟩)
      · exact ⟨e, by simp, hwho, href⟩
      · exact ⟨x, List.mem_append_left _ hx, hrest⟩
  have hloose : ∀ r', Loose s v r' → Loose s' { v with place := Function.update v.place (.slot p) .free } r' := by
    intro r' hl
    have hne : r' ≠ .slot p := fun heq => (hb.loose_not hl).1 (heq ▸ hplace)
    exact loose_keep hm (by rw [ht]; simp) (by simp [hne]) hl
  refine ⟨hp, (h.rings.keep hlinks hm.opened (fun c n hc => cursor_keep hm rfl hc)).rePlace _,
    ⟨fun r' => ?_, hb.wait_update (by rw [hplace]; simp) (by simp), hb.wait_nodup, fun r' u => ?_,
      hb.live_update ho (fun hc => absurd rfl hc), hb.idle_update ho (fun q hq _ => by cases hq; exact hbusy),
        fun q hq => ?_⟩,
    h.loops.other hm (by rw [ht]; rfl) rfl (fun c _ => rfl) h.loops.attached h.points
      (fun _ _ r' _ hl => hloose r' hl), ?_,
    hstale ▸ h.fresh⟩
  · simp only [hd, hb.pend_iff, Function.update_apply]
    by_cases heq : r' = .slot p
    · subst heq
      simp [hplace]
    · rw [if_neg heq]
      refine or_congr Iff.rfl ⟨fun ⟨q, hq, hdq⟩ => ⟨q, hq, .inr hdq⟩, ?_⟩
      rintro ⟨q, rfl, rfl | hdq⟩
      · exact absurd rfl heq
      · exact ⟨q, rfl, hdq⟩
  · simp only [Function.update_apply]
    rw [hm.at]
    by_cases heq : r' = .slot p
    · subst heq
      rw [if_pos rfl]
      refine ⟨fun hc => (by cases hc), fun hc => ?_⟩
      split at hc
      · cases hc
      · have := (hb.held _ u).2 hc
        rw [hplace] at this
        cases this
    · rw [if_neg heq, hb.held]
      split
      · next hu => rw [hu, ht]; simp [Point.holds]
      · rfl
  · rw [hm.removing]
    refine ⟨hrem, ?_⟩
    rcases (hd q).1 hq with rfl | hdq
    · exact .inl (by simp)
    · exact hloose _ (hb.drained q hdq).2
  · refine Drain.mine h.points (by rw [ht]; rfl) hm (fun hc => by cases hc) (fun n hc => ?_) (fun n hc => by cases hc)
    cases hc
    refine ⟨a ++ [.slot p], b', by simp [hab], by simp, fun r' hr' => ?_, fun r' hr' => ?_⟩
    · rcases List.mem_append.1 hr' with hr' | hr'
      · obtain ⟨q, rfl, hq⟩ := ha r' hr'
        exact ⟨q, rfl, (hd q).2 (.inr hq)⟩
      · exact ⟨p, List.mem_singleton.1 hr', (hd p).2 (.inl rfl)⟩
    · have hne : r' ≠ .slot p := by
        rintro rfl
        have hnd := h.rings.pend.nodup
        rw [hab, List.map_append, List.map_cons] at hnd
        have := (List.nodup_append.1 (List.nodup_cons.1 hnd).2).2.1
        exact (List.nodup_cons.1 this).1 (List.mem_map_of_mem hr')
      simpa [hne] using hbp r' (by simp [hr'])

/-! ## The rest -/

/-- `bius_report_zones` returns after its request has been ended. -/
theorem Sound.zonesReturn (h : Sound sema s v) {k : Nat} (hp : Points s') (ht : s.call t = .zonesWait k)
    (hsem : 0 < s.sem k) (hnext : ∀ u c, s.call u ≠ .relNext c (.req (.zones k))) (hm : Moves s s' t .idle)
    {next prev : Node} (hlinks : s'.links = ⟨Function.update s.links.next (.req (.zones k)) next,
      Function.update s.links.prev (.req (.zones k)) prev⟩)
    (ho : Others s s' (.zones k)) (hended : s'.ended = s.ended) (hstale : s'.stale = s.stale) : Sound sema s' v := by
  have hb := h.books
  have hfree : v.place (.zones k) = .free := by
    by_contra hne
    have := (hb.live _ hne).2.1
    omega
  have hoff : Off s v (.zones k) := by
    refine ⟨fun hc => ?_, fun c hc => ?_, fun c hc => ?_⟩
    · rcases (hb.pend_iff _).1 hc with hc | ⟨p, hc, -⟩
      · rw [hfree] at hc; cases hc
      · cases hc
    · rw [(hb.wait_iff c _).1 hc] at hfree; cases hfree
    · obtain ⟨u, hu | ⟨hu, -⟩⟩ := hc
      · exact hnext u c hu
      · rw [(hb.held _ u).2 (by rw [hu]; rfl)] at hfree; cases hfree
  refine ⟨hp, h.rings.forget hoff hlinks hm.opened (fun c n hc => cursor_keep hm rfl hc),
    ⟨fun r' => ?_, hb.wait_iff, hb.wait_nodup, hb.held_keep hm (by rw [ht]; rfl), fun r' hr' => ?_,
      fun p hpl => ?_, fun p hd => ?_⟩,
    h.loops.other hm (by rw [ht]; rfl) rfl (fun c _ => rfl) h.loops.attached h.points
      (fun _ _ r' _ hl => loose_keep hm (by rw [ht]; simp) rfl hl),
    h.drain.same hm rfl (drained_congr hended) rfl (fun _ hr => hr), hstale ▸ h.fresh⟩
  · simp only [drained_congr hended]
    exact hb.pend_iff r'
  · exact ho.refOk (fun heq => hr' (heq ▸ hfree)) (hb.live r' hr')
  · rw [ho.busy p (by simp)]
    exact hb.idle p hpl
  · obtain ⟨h₁, h₂⟩ := hb.drained p ((drained_congr hended p).1 hd)
    exact ⟨hm.removing ▸ h₁, loose_keep hm (by rw [ht]; simp) rfl h₂⟩

theorem Sound.attach (h : Sound sema s v) {c : Nat} (hp : Points { s with
      attached := Function.update s.attached c true, numConnection := s.numConnection + 1 }) :
    Sound sema { s with attached := Function.update s.attached c true, numConnection := s.numConnection + 1 } v := by
  have hatt : ∀ c', s.attached c' = true → Function.update s.attached c true c' = true := by
    intro c' hc
    rw [Function.update_apply]
    split
    · rfl
    · exact hc
  refine ⟨hp, ⟨h.rings.pend, h.rings.wait, h.rings.path⟩,
    ⟨h.books.pend_iff, h.books.wait_iff, h.books.wait_nodup, h.books.held,
      fun r hr => refOk_of_eq rfl rfl rfl rfl rfl (h.books.live r hr),
      h.books.idle, h.books.drained⟩,
    ⟨fun c' hc => hatt c' (h.loops.attached c' hc), h.loops.emptied, fun u c' n hu => ?_, h.loops.stand,
      h.loops.atEnd⟩,
    ⟨h.drain.start, h.drain.next, h.drain.at_⟩, h.fresh⟩
  rcases h.loops.node u c' n hu with hn | ⟨r, hn, hc⟩
  · exact .inl hn
  · exact .inr ⟨r, hn, hatt c' hc⟩

end Bius.Teardown
