import Bius.TeardownLedger

/- The loop of `bius_dev_release` over the requests that wait for a reply on its
   connection. In a run in which nobody is in a hurry it goes through the list as it was
   when the connection was closed, in order, and ends each request of it once
   (`release_exact`). If a slot that the loop has just ended is queued again before the
   loop has loaded the `next` link in it, the loop goes on with the pending list
   (`release_leaves_list`). -/
namespace Bius.Teardown

open Dlist Machine

variable {sema : Nat → Nat → UInt8} {s s' s₀ s₁ : State} {v v' : View} {t u : Tid} {c : Nat}
    {xs done : List Ref} {act : Act}
  {as : List Act}

/-- What the loop for a connection has ended, in this order. -/
def State.endedBy (s : State) (c : Nat) : List Ended := s.ended.filter (fun e => decide (e.who = .release c))

/-- The loop has ended `done`, has `rest` before it, and is at this point: it loads the
    link of the last request it ended, or it has come to the first request of the rest. -/
structure LoopAt (c : Nat) (done rest : List Ref) (x : Point) : Prop where
  next : ∀ n, x = .relNext c n → n = (Node.waiting c :: done.map .req).getLast (by simp)
  comes : ∀ n, x = .relAt c n → n = (rest.map Node.req ++ [Node.waiting c]).head (by simp)
  leaves : x.loops ≠ some c → rest = []

/-- The loop that `t` runs over the requests `xs`, which waited on connection `c` in the
    state `s₀`: it has ended a first part of them with `BLK_STS_IOERR` and nothing else,
    in any case all of them when it is over. No request is ended twice. -/
structure LoopExact (s₀ : State) (c : Nat) (t : Tid) (xs : List Ref) (s : State) : Prop where
  once : (s.ended.map Ended.serial).Nodup
  loop : ∃ done rest, xs = done ++ rest ∧ LoopAt c done rest (s.call t) ∧
    (s.endedBy c).map (fun e => (e.ref, e.serial, e.field, e.result)) =
      done.map (fun r => (r, (s₀.req r).serial, Field.blkResult, (blkStsIoerr : Int)))

/-! ## One step -/

theorem loops_from (hs : step sema s act = some s') (hu : (s'.call u).loops = some c) :
    (s.call u).loops = some c ∨ s.opened c = true := by
  rcases step_call hs u with heq | hg
  · exact .inl (heq ▸ hu)
  · generalize s.call u = x at hg ⊢
    generalize s'.call u = y at hg hu
    cases hg with
    | insert r => cases r <;> cases hu
    | release c' hopen => cases hu; exact .inr hopen
    | relNext c' n => exact .inl hu
    | relEnd c' r => exact .inl hu
    | _ => cases hu

theorem Effect.endedBy_same (he : Effect s s' v v' t act) (ht : (s.call t).loops ≠ some c) :
    s'.endedBy c = s.endedBy c := by
  unfold State.endedBy
  cases he.change with
  | keep _ _ _ hended => rw [hended]
  | submit _ _ _ _ _ _ _ _ hended => rw [hended]
  | insert _ _ _ _ _ hended => rw [hended]
  | ended r e hby _ _ _ _ _ hended =>
    have hwho : e.who ≠ .release c := by
      intro heq
      cases hby with
      | release c' hcall =>
        cases heq
        exact ht (by rw [hcall]; rfl)
      | _ => cases heq
    rw [hended, List.filter_append, List.filter_singleton]
    simp [hwho]

theorem Effect.waiting_same (he : Effect s s' v v' t act) (hc : s.opened c = false) (ht : (s.call t).loops ≠ some c) :
    v'.waiting c = v.waiting c := by
  cases he.loop with
  | idle _ hw _ => rw [hw]
  | none _ hw => exact hw c hc
  | next c' n r hcall _ _ hw _ =>
    refine hw c (fun heq => ht ?_)
    rw [hcall, heq]
    rfl
  | last c' n _ _ hw _ => rw [hw]
  | ended c' r u _ _ hw _ => rw [hw]
  | done c' _ _ hw _ => rw [hw]

/-- What lies before the loop, including the request it has come to. -/
def View.before (v : View) (c : Nat) : Point → List Ref
  | .relAt c' (.req r) => if c' = c then r :: v.waiting c else v.waiting c
  | _ => v.waiting c

theorem View.before_of_loops {x : Point} (hx : x.loops ≠ some c) : v.before c x = v.waiting c := by
  unfold View.before
  split
  · next c' r => rw [if_neg (fun heq => hx (by rw [heq]; rfl))]
  · rfl

/-- How the loop of `t` stands to the list `xs` it began with. -/
structure Tracks (s₀ : State) (c : Nat) (t : Tid) (xs done : List Ref) (s : State) (v : View) : Prop where
  closed : s.opened c = false
  alone : ∀ u, u ≠ t → (s.call u).loops ≠ some c
  split : xs = done ++ v.before c (s.call t)
  next : ∀ n, s.call t = .relNext c n → n = (Node.waiting c :: done.map .req).getLast (by simp)
  ended : (s.endedBy c).map (fun e => (e.ref, e.serial, e.field, e.result)) =
    done.map (fun r => (r, (s₀.req r).serial, Field.blkResult, (blkStsIoerr : Int)))
  serial : ∀ r ∈ v.before c (s.call t), v.place r ≠ .free ∧ (s.req r).serial = (s₀.req r).serial

theorem Sound.before_place (h : Sound sema s v) {r : Ref} (hr : r ∈ v.before c (s.call t)) : v.place r ≠ .free := by
  have hwait : ∀ r, r ∈ v.waiting c → v.place r ≠ .free := fun r hr => by rw [(h.books.wait_iff c r).1 hr]; simp
  unfold View.before at hr
  split at hr
  · next c' r' hcall =>
    split at hr
    · rcases List.mem_cons.1 hr with rfl | hr
      · rw [(h.books.held r t).2 (by rw [hcall]; rfl)]; simp
      · exact hwait r hr
    · exact hwait r hr
  · exact hwait r hr

theorem Tracks.step (h : Tracks s₀ c t xs done s v) (hsound' : Sound sema s' v')
    (hs : step sema s act = some s') (he : Effect s s' v v' u act) : ∃ done', Tracks s₀ c t xs done' s' v' := by
  have hclosed := he.closed c h.closed
  have halone : ∀ w, w ≠ t → (s'.call w).loops ≠ some c := by
    intro w hw hl
    rcases loops_from hs hl with hl | ho
    · exact h.alone w hw hl
    · rw [h.closed] at ho; cases ho
  have hserial : ∀ r ∈ v'.before c (s'.call t), r ∈ v.before c (s.call t) →
      v'.place r ≠ .free ∧ (s'.req r).serial = (s₀.req r).serial := by
    intro r hr' hr
    obtain ⟨hplace, heq⟩ := h.serial r hr
    exact ⟨hsound'.before_place hr', (he.serial r hplace).trans heq⟩
  by_cases hu : (s.call u).loops = some c
  · -- the loop itself moves
    obtain rfl : u = t := by
      by_contra hne
      exact h.alone u hne hu
    have hstill : v'.before c (s'.call u) = v.before c (s.call u) → s'.ended = s.ended →
        (∀ n, s'.call u = .relNext c n → s.call u = .relNext c n) → ∃ done', Tracks s₀ c u xs done' s' v' := by
      intro hbefore hended hnext
      refine ⟨done, hclosed, halone, hbefore ▸ h.split, fun n hn => h.next n (hnext n hn), ?_,
        fun r hr => hserial r hr (hbefore ▸ hr)⟩
      unfold State.endedBy
      rw [hended]
      exact h.ended
    cases he.loop with
    | idle hcall hw hended =>
      refine hstill ?_ hended (fun n hn => hcall ▸ hn)
      rw [hcall]
      unfold View.before
      rw [hw]
    | none hl _ => rw [hl] at hu; cases hu
    | next c' n r hcall hcall' hw _ hended =>
      rw [hcall] at hu
      cases hu
      refine hstill ?_ hended (fun n hn => by rw [hcall'] at hn; cases hn)
      rw [hcall, hcall']
      simp only [View.before, if_true]
      exact hw.symm
    | last c' n hcall hcall' hw hended =>
      rw [hcall] at hu
      cases hu
      refine hstill ?_ hended (fun n hn => by rw [hcall'] at hn; cases hn)
      rw [hcall, hcall']
      simp only [View.before, hw]
    | done c' hcall hcall' hw hended =>
      rw [hcall] at hu
      cases hu
      refine hstill ?_ hended (fun n hn => by rw [hcall'] at hn; cases hn)
      rw [hcall, hcall']
      simp only [View.before, hw]
    | ended c' r g hcall hcall' hw hended =>
      rw [hcall] at hu
      cases hu
      -- the request it has come to moves from what lies before it to what it has ended
      have hbefore : v.before c (s.call u) = r :: v'.before c (s'.call u) := by
        rw [hcall, hcall']
        simp only [View.before, if_true, hw]
      have hr := (h.serial r (by rw [hbefore]; simp)).2
      refine ⟨done ++ [r], hclosed, halone, ?_, fun n hn => ?_, ?_,
        fun r' hr' => hserial r' hr' (by rw [hbefore]; simp [hr'])⟩
      · rw [h.split, hbefore, List.append_assoc]
        rfl
      · rw [hcall'] at hn
        cases hn
        simp
      · have hfilter : s'.endedBy c = s.endedBy c ++
            [⟨r, (s.req r).serial, .release c, .blkResult, blkStsIoerr, g⟩] := by
          unfold State.endedBy
          rw [hended, List.filter_append]
          simp
        rw [hfilter, List.map_append, h.ended, List.map_append, List.map_singleton, List.map_singleton, hr]
  · have hended := he.endedBy_same hu
    have hwait := he.waiting_same h.closed hu
    have hcall : s'.call t = s.call t ∨ (s.call t).loops ≠ some c ∧ (s'.call t).loops ≠ some c := by
      by_cases htu : t = u
      · subst htu
        refine .inr ⟨hu, fun hl => ?_⟩
        rcases loops_from hs hl with hl | ho
        · exact hu hl
        · rw [h.closed] at ho; cases ho
      · exact .inl (he.others t htu)
    have hbefore : v'.before c (s'.call t) = v.before c (s.call t) := by
      rcases hcall with hcall | ⟨h₁, h₂⟩
      · rw [hcall]
        unfold View.before
        rw [hwait]
      · rw [View.before_of_loops h₁, View.before_of_loops h₂, hwait]
    refine ⟨done, hclosed, halone, hbefore ▸ h.split, fun n hn => ?_,
      by rw [hended]; exact h.ended, fun r hr => hserial r hr (hbefore ▸ hr)⟩
    rcases hcall with hcall | ⟨-, h₂⟩
    · exact h.next n (hcall ▸ hn)
    · exact absurd (by rw [hn]; rfl) h₂

theorem Tracks.exact (h : Tracks s₀ c t xs done s v) (hsound : Sound sema s v) (hledger : Ledger s v) :
    LoopExact s₀ c t xs s := by
  refine ⟨hledger.unique, done, v.before c (s.call t), h.split, ⟨h.next, fun n hn => ?_, fun hl => ?_⟩, h.ended⟩
  · rcases hsound.loops.node t c n (.inr hn) with rfl | ⟨r, rfl, -⟩
    · simp [hn, View.before, hsound.loops.atEnd t c hn]
    · simp [hn, View.before]
  · rw [View.before_of_loops hl]
    refine hsound.loops.emptied c h.closed (fun u hu => ?_)
    by_cases hut : u = t
    · exact hl (hut ▸ hu)
    · exact h.alone u hut hu

/-! ## The loop comes to its end -/

theorem step_tame (hw : s.wild = false) : step sema s act = stepTame sema s act := by
  unfold step
  rw [hw]
  rfl

/-- A thread that is about to load a link needs nobody else to come to the end of the
    loop. -/
theorem loop_ends_from_next {rest : List Ref} (h : Sound sema s v) (hw : s.wild = false) {n : Node}
    (ht : s.call t = .relNext c n) (hrest : v.waiting c = rest) : ∃ bs s', Steps (step sema) Calm s bs s' ∧
      (∀ b ∈ bs, b = .relNext t ∨ b = .relEnd t) ∧ s'.call t = .relUnref c := by
  have hcalm : ∀ {s : State}, Calm s (.relNext t) ∧ Calm s (.relEnd t) :=
      ⟨⟨trivial, trivial⟩, ⟨trivial, trivial⟩⟩
  have hnext : step sema s (.relNext t) = some (s.setCall t (.relAt c (s.links.next n))) := by
    rw [step_tame hw]
    simp only [stepTame, ht]
  induction rest generalizing s v n with
  | nil =>
    obtain ⟨hn, -⟩ | ⟨r, rest, -, hcons⟩ := h.relNext_cases ht
    · rw [hn] at hnext
      have hend : step sema (s.setCall t (.relAt c (.waiting c))) (.relEnd t) =
          some ((s.setCall t (.relAt c (.waiting c))).setCall t (.relUnref c)) := by
        rw [step_tame (by exact hw)]
        simp [stepTame, State.setCall, State.relEnd]
      refine ⟨_, _, .cons hcalm.1 hnext (.cons hcalm.2 hend (.nil _)), fun b hb => ?_, Function.update_self ..⟩
      rcases List.mem_cons.1 hb with rfl | hb
      · exact .inl rfl
      · exact .inr (List.mem_singleton.1 hb)
    · rw [hrest] at hcons; cases hcons
  | cons r rest ih =>
    obtain ⟨-, hnil⟩ | ⟨r', rest', hn, hcons⟩ := h.relNext_cases ht
    · rw [hrest] at hnil; cases hnil
    · rw [hrest] at hcons
      cases hcons
      rw [hn] at hnext
      have hp := points_step h.points hcalm.1.1 hnext
      have hsound := h.relStep hp ht hrest
      have hat : (s.setCall t (.relAt c (.req r))).call t = .relAt c (.req r) := Function.update_self ..
      have hend : step sema (s.setCall t (.relAt c (.req r))) (.relEnd t) =
          some (((s.setCall t (.relAt c (.req r))).endBlkRequest r (.release c) blkStsIoerr).setCall t
            (.relNext c (.req r))) := by
        rw [step_tame (by exact hw)]
        simp only [stepTame, hat, State.relEnd]
        rfl
      have hsound' := (relEnd_effect hsound hat (points_step hp hcalm.2.1 hend)).1
      have hw' := tame_step hsound hcalm.2.2 hend hw
      have hcall := (endBlkRequest_moves (s.setCall t (.relAt c (.req r))) t (.relNext c (.req r)) r
          (.release c) blkStsIoerr).at t
      rw [if_pos rfl] at hcall
      obtain ⟨bs, s', hsteps, hbs, hover⟩ := ih hsound' hw' hcall (by simp)
        (by rw [step_tame hw']; simp only [stepTame, hcall])
      refine ⟨_, s', .cons hcalm.1 hnext (.cons hcalm.2 hend hsteps), fun b hb => ?_, hover⟩
      rcases List.mem_cons.1 hb with rfl | hb
      · exact .inl rfl
      · rcases List.mem_cons.1 hb with rfl | hb
        · exact .inr rfl
        · exact hbs b hb

theorem loop_ends (h : Sound sema s v) (hw : s.wild = false) (ht : (s.call t).loops = some c) : ∃ bs s',
    Steps (step sema) Calm s bs s' ∧ (∀ b ∈ bs, b = .relNext t ∨ b = .relEnd t) ∧ s'.call t = .relUnref c := by
  have hcalm : Calm s (.relEnd t) := ⟨trivial, trivial⟩
  cases hcall : s.call t with
  | relNext c' n =>
    rw [hcall] at ht
    cases ht
    exact loop_ends_from_next h hw hcall rfl
  | relAt c' n =>
    rw [hcall] at ht
    cases ht
    rcases h.loops.node t c n (.inr hcall) with rfl | ⟨r, rfl, -⟩
    · have hend : step sema s (.relEnd t) = some (s.setCall t (.relUnref c)) := by
        rw [step_tame hw]
        simp [stepTame, hcall, State.relEnd]
      exact ⟨_, _, .cons hcalm hend (.nil _), fun b hb => .inr (List.mem_singleton.1 hb), Function.update_self ..⟩
    · have hend : step sema s (.relEnd t) =
          some ((s.endBlkRequest r (.release c) blkStsIoerr).setCall t (.relNext c (.req r))) := by
        rw [step_tame hw]
        simp only [stepTame, hcall, State.relEnd]
        rfl
      have hsound := (relEnd_effect h hcall (points_step h.points hcalm.1 hend)).1
      have hat := (endBlkRequest_moves s t (.relNext c (.req r)) r (.release c) blkStsIoerr).at t
      rw [if_pos rfl] at hat
      obtain ⟨bs, s', hsteps, hbs, hover⟩ := loop_ends_from_next hsound (tame_step h hcalm.2 hend hw) hat rfl
      refine ⟨_, s', .cons hcalm hend hsteps, fun b hb => ?_, hover⟩
      rcases List.mem_cons.1 hb with rfl | hb
      · exact .inr rfl
      · exact hbs b hb
  | _ => rw [hcall] at ht; cases ht

/-! ## Whole runs -/

/-- **Closing a connection ends exactly its own requests.** In any run in which nobody is
    in a hurry, the loop of `bius_dev_release` goes through the requests that waited on
    its connection when it was closed, ends each of them once, and nothing else; and it
    comes to its end by its own steps. -/
theorem release_exact (h₀ : Reach (step sema) Calm .init s₀) (hvfs : Vfs s₀ (.release t c))
    (hrel : step sema s₀ (.release t c) = some s₁) (h : Steps (step sema) Calm s₁ as s) :
    ∃ xs : List Ref, Ring s₀.links (.waiting c) (xs.map .req) ∧ LoopExact s₀ c t xs s ∧
      ((s.call t).loops = some c → ∃ bs s', Steps (step sema) Calm s bs s' ∧
        (∀ b ∈ bs, b = .relNext t ∨ b = .relEnd t) ∧
        s'.call t = .relUnref c) := by
  obtain ⟨v, hsound, hledger⟩ := standing_reach h₀
  have hw₀ : s₀.wild = false := by
    cases hw : s₀.wild with
    | false => rfl
    | true => simp [step, hw] at hrel
  have hun : Unhurried s₀ (.release t c) := trivial
  have hw := tame_step hsound hun hrel hw₀
  have hp := points_step hsound.points hvfs hrel
  obtain ⟨ht, hopen, rfl⟩ : s₀.call t = .idle ∧ s₀.opened c = true ∧
      s₁ = State.setCall { s₀ with opened := Function.update s₀.opened c false } t (.relNext c (.waiting c)) := by
    cases step_cases hrel with
    | release _ _ ht hopen => exact ⟨ht, hopen, rfl⟩
  obtain ⟨hsound₁, he⟩ := release_effect hsound ht hopen hp
  have hstart : Tracks s₀ c t (v.waiting c) []
      (State.setCall { s₀ with opened := Function.update s₀.opened c false } t
      (.relNext c (.waiting c))) v := by
    refine ⟨Function.update_self .., fun u hu hl => ?_, ?_, fun n hn => ?_, ?_,
      fun r hr => ⟨hsound₁.before_place hr, rfl⟩⟩
    · have hclosed := hsound.points.closes u c (Point.closes_of_loops (he.others u hu ▸ hl))
      rw [hopen] at hclosed
      cases hclosed
    · simp [View.before, State.setCall]
    · simp only [State.setCall, Function.update_self, Point.relNext.injEq] at hn
      simp [hn.2]
    · -- nothing has been ended for a connection that was open
      have hnone : s₀.endedBy c = [] := by
        refine List.filter_eq_nil_iff.2 (fun e hmem hwho => ?_)
        have := hledger.released e hmem c (of_decide_eq_true hwho)
        rw [hopen] at this
        cases this
      exact congrArg (List.map _) hnone
  obtain ⟨v', done, hstanding, htracks, hw'⟩ : ∃ v' done, Standing sema s v' ∧
    Tracks s₀ c t (v.waiting c) done s v' ∧
      s.wild = false := by
    refine h.inv (I := fun s => ∃ v' done, Standing sema s v' ∧ Tracks s₀ c t (v.waiting c) done s v' ∧
      s.wild = false)
      (fun s act s' hv hc hst => ?_) ⟨v, [], ⟨hsound₁, ledger_step hledger hsound he⟩, hstart, hw⟩
    obtain ⟨v', done, hv', htr, hw'⟩ := hv
    obtain ⟨v'', u, hv'', he'⟩ := standing_step hv' hc hst
    obtain ⟨done', htr'⟩ := htr.step hv''.1 hst he'
    exact ⟨v'', done', hv'', htr', tame_step hv'.1 hc.2 hst hw'⟩
  exact ⟨v.waiting c, hsound.rings.wait c hopen, htracks.exact hstanding.1 hstanding.2, loop_ends hstanding.1 hw'⟩

/-- The node from which the loop loads its link. -/
def Point.loadsFrom : Point → Option Node
  | .relNext _ n => some n
  | _ => none

def Point.queues : Point → Option Ref
  | .queueing r => some r
  | _ => none

/-- `Calm` where only these threads make calls, and nobody reports zones or removes the
    device, to be evaluated. -/
def CalmNow (ts : List Tid) (s : State) : Act → Prop
  | .release _ c => ∀ u ∈ ts, (s.call u).uses ≠ some c
  | .insert t =>
    ∀ r ∈ (s.call t).queues, (∀ u ∈ ts, (s.call u).loadsFrom ≠ some (.req r)) ∧
      ∀ e ∈ s.ended, e.who ≠ .drain
  | .zonesWake _ _ _ _ | .zonesInterrupt _ _ _ _ | .remEnd _ => False
  | _ => True

instance (ts : List Tid) (s : State) : (act : Act) → Decidable (CalmNow ts s act)
  | .release _ _ => inferInstanceAs (Decidable (∀ u ∈ ts, _))
  | .insert t => inferInstanceAs (Decidable (∀ r ∈ (s.call t).queues, (∀ u ∈ ts, _) ∧ ∀ e ∈ s.ended, _))
  | .zonesWake _ _ _ _ | .zonesInterrupt _ _ _ _ | .remEnd _ => inferInstanceAs (Decidable False)
  | .attach _ | .queueRq _ _ _ _ _ | .reportZones _ _ _ | .readStart _ _ | .readInterrupt _ | .readTake _ _ | .readSend _ _
  | .writeStart _ _ _ _ _ | .writeEnd _ _ _ | .relNext _ | .relEnd _ | .relUnref _ | .remUnlink _ | .remNext _ | .remDel _
  | .finish _ => inferInstanceAs (Decidable True)

theorem CalmNow.calm {ts : List Tid} (hidle : ∀ u, u ∉ ts → s.call u = .idle) (h : CalmNow ts s act) :
    Calm s act := by
  cases act with
  | release t _ =>
    refine ⟨fun u => ?_, trivial⟩
    by_cases hu : u ∈ ts
    · exact h u hu
    · rw [hidle u hu]
      exact nofun
  | insert t =>
    refine ⟨trivial, fun r hr => ?_⟩
    obtain ⟨hloads, hdrain⟩ := h r (by rw [hr]; rfl)
    refine ⟨fun u _ hu => ?_, fun p _ hp => ?_⟩
    · by_cases hmem : u ∈ ts
      · exact hloads u hmem (by rw [hu]; rfl)
      · rw [hidle u hmem] at hu
        cases hu
    · obtain ⟨e, he, hwho, -⟩ := hp
      exact hdrain e he hwho
  | zonesWake t q next prev => exact h.elim
  | zonesInterrupt t q next prev => exact h.elim
  | remEnd t => exact h.elim
  | _ => exact ⟨trivial, trivial⟩

/-- A checked run of these threads is one in which nobody is in a hurry. -/
theorem calm_of_runOk {ts : List Tid} (h : runOk (step sema) (CalmNow ts) s as = some s')
    (hidle : ∀ u, u ∉ ts → s.call u = .idle) (hts : ∀ act ∈ as, ∀ t ∈ act.thread, t ∈ ts) :
    Steps (step sema) Calm s as s' ∧ ∀ u, u ∉ ts → s'.call u = .idle := by
  refine Steps.of_checked (I := fun s => ∀ u, u ∉ ts → s.call u = .idle) h hidle (fun s act ha x hi hs u hu => ?_)
    (fun s act _ hi hcheck => hcheck.calm hi)
  rw [step_other hs (fun heq => hu (hts act ha u heq)), hi u hu]

/-- The block layer queues a request in the slot. -/
def queued (p : Nat) : List Act := [.queueRq (.blk 0) p 0 0 (fun _ => 0), .insert (.blk 0)]

/-- A thread reads the command of a request, which then waits for its reply. -/
def readOver (n c : Nat) : List Act := [.readStart (.user n) c, .readTake (.user n) (fun _ => 0), .readSend (.user n) true]

/-- Two requests wait on connection 0, and one on connection 1. -/
def twoWaiting : List Act :=
  [.attach 0, .attach 1] ++ queued 0 ++ queued 1 ++ queued 2 ++ readOver 1 0 ++ readOver 1 0 ++ readOver 2 1

/-- The loop ends the first request, and the block layer queues its slot again when the
    loop has loaded the link in it. Then the loop ends the second one. -/
def queueAfter : List Act :=
  [.relNext (.user 0), .relEnd (.user 0), .relNext (.user 0)] ++ queued 0 ++
    [.relEnd (.user 0), .relNext (.user 0), .relEnd (.user 0)]

def fourThreads : List Tid := [.user 0, .user 1, .user 2, .blk 0]

theorem twoWaiting_isSome : (runOk (step (fun _ _ => 0)) (CalmNow fourThreads) .init twoWaiting).isSome = true := by
  decide +kernel

theorem queueAfter_isSome : (runOk (step (fun _ _ => 0)) (CalmNow fourThreads) (Option.get _ twoWaiting_isSome)
    (.release (.user 0) 0 :: queueAfter)).isSome = true := by
  decide +kernel

theorem queueAfter_run : ∃ s₀ s : State,
    runOk (step (fun _ _ => 0)) (CalmNow fourThreads) .init twoWaiting = some s₀ ∧
    runOk (step (fun _ _ => 0)) (CalmNow fourThreads) s₀ (.release (.user 0) 0 :: queueAfter) = some s ∧
    s.call (.user 0) = .relUnref 0 ∧
    (s.endedBy 0).map (fun e => (e.ref, e.serial)) = [(.slot 0, 0), (.slot 1, 1)] ∧
    s.links.next .pending = .req (.slot 0) ∧ s.links.next (.waiting 1) = .req (.slot 2) :=
  ⟨_, _, (Option.some_get twoWaiting_isSome).symm, (Option.some_get queueAfter_isSome).symm, by decide +kernel,
    by decide +kernel, by decide +kernel, by decide +kernel⟩

theorem release_exact_twoWaiting : ∃ s₀ s₁ s, Reach (step (fun _ _ => 0)) Calm .init s₀ ∧
    step (fun _ _ => 0) s₀ (.release (.user 0) 0) = some s₁ ∧ Steps (step (fun _ _ => 0)) Calm s₁ queueAfter s ∧
    s.call (.user 0) = .relUnref 0 ∧
    (s.endedBy 0).map (fun e => (e.ref, e.serial)) = [(.slot 0, 0), (.slot 1, 1)] ∧
    s.links.next .pending = .req (.slot 0) ∧ s.links.next (.waiting 1) = .req (.slot 2) ∧
    ∃ xs : List Ref, Ring s₀.links (.waiting 0) (xs.map .req) ∧ LoopExact s₀ 0 (.user 0) xs s := by
  obtain ⟨s₀, s, hrun₀, hrun, hcall, hended, hpending, hwaiting⟩ := queueAfter_run
  obtain ⟨hsteps₀, hidle⟩ := calm_of_runOk hrun₀ (fun _ _ => rfl) (by decide)
  obtain ⟨hsteps, -⟩ := calm_of_runOk hrun hidle (by decide)
  cases hsteps with
  | cons hok hrel hsteps =>
    obtain ⟨xs, hring, hexact, -⟩ := release_exact ⟨_, hsteps₀⟩ hok.1 hrel hsteps
    exact ⟨s₀, _, s, ⟨_, hsteps₀⟩, hrel, hsteps, hcall, hended, hpending, hwaiting, xs, hring, hexact⟩

/-- `user 1` reads the command of a request, which then waits for its reply. -/
def oneWaiting : List Act :=
  [.attach 0, .queueRq (.blk 0) 0 0 0 (fun _ => 0), .insert (.blk 0), .readStart (.user 1) 0,
    .readTake (.user 1) (fun _ => 0), .readSend (.user 1) true]

/-- The loop ends the request, and the block layer queues the slot again before the loop
    has loaded the link in it. -/
def queueAgain : List Act :=
  [.relNext (.user 0), .relEnd (.user 0), .queueRq (.blk 0) 0 0 0 (fun _ => 0), .insert (.blk 0), .relNext (.user 0)]

theorem oneWaiting_vfs {s : State} (h : s.call (.user 0) = .idle ∧ s.call (.user 1) = .idle ∧ s.call (.blk 0) = .idle)
    (hidle : ∀ n, s.call (.user (n + 2)) = .idle ∧ s.call (.blk (n + 1)) = .idle) (t : Tid) (c : Nat) :
      Vfs s (.release t c) := by
  intro u
  have hu : s.call u = .idle := by
    match u with
    | .user 0 => exact h.1
    | .user 1 => exact h.2.1
    | .user (n + 2) => exact (hidle n).1
    | .blk 0 => exact h.2.2
    | .blk (n + 1) => exact (hidle n).2
  rw [hu]
  exact nofun

theorem release_leaves_list :
    ¬ ∀ (sema : Nat → Nat → UInt8) (s₀ s₁ s : State) (t : Tid) (c : Nat) (as : List Act),
    Reach (step sema) Vfs .init s₀ → Vfs s₀ (.release t c) → step sema s₀ (.release t c) = some s₁ →
      Steps (step sema) Vfs s₁ as s →
    ∃ xs : List Ref, Ring s₀.links (.waiting c) (xs.map .req) ∧ LoopExact s₀ c t xs s := by
  intro hall
  obtain ⟨s₀, s₁, s, hreach, hvfs, hrel, hsteps, hcall⟩ :
    ∃ s₀ s₁ s, Steps (step (fun _ _ => 0)) Vfs .init oneWaiting s₀ ∧
      Vfs s₀ (.release (.user 0) 0) ∧ step (fun _ _ => 0) s₀ (.release (.user 0) 0) = some s₁ ∧
      Steps (step (fun _ _ => 0)) Vfs s₁ queueAgain s ∧ s.call (.user 0) = .relAt 0 .pending :=
    ⟨_, _, _, .cons trivial rfl (.cons trivial rfl (.cons trivial rfl (.cons trivial rfl (.cons trivial rfl
      (.cons trivial rfl (.nil _)))))), oneWaiting_vfs ⟨rfl, rfl, rfl⟩ (fun n => ⟨rfl, rfl⟩) _ _, rfl,
      .cons trivial rfl (.cons trivial rfl (.cons trivial rfl (.cons trivial rfl (.cons trivial rfl (.nil _))))), rfl⟩
  obtain ⟨xs, -, hexact⟩ := hall _ s₀ s₁ s (.user 0) 0 queueAgain ⟨_, hreach⟩ hvfs hrel hsteps
  obtain ⟨done, rest, -, hloop, -⟩ := hexact.loop
  -- the loop stands at the head of the pending list
  have hhead := hloop.comes .pending hcall
  cases rest with
  | nil => cases hhead
  | cons r rest => cases hhead

end Bius.Teardown
