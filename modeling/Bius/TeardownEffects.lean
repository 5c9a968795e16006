import Bius.TeardownRuns

/- What every step does to the requests when nobody is in a hurry. `sound_step` puts the
   lemmas about single steps together: a step preserves `Sound` and does to the records
   what `Effect` says. It submits a request, queues it, ends it, or moves it from place
   to place (`Change`), and it takes at most one loop of `bius_dev_release` on by one
   request (`LoopStep`). -/
namespace Bius.Teardown

open Dlist

variable {sema : Nat → Nat → UInt8} {s s' : State} {v : View} {t : Tid} {r : Ref}

/-! ## What a step does to the requests -/

/-- How a reply leaves the union of the request. -/
def Marked (s : State) (r : Ref) (field : Field) (result : Int) (u : Union) : Prop :=
  match r with
  | .slot _ => field = .blkResult ∧ ∃ g : Union, u = g.setBlkResult result
  | .zones _ => field = .intResult ∧ u = (s.req r).union.setIntResult result

/-- How a thread ends a request. -/
inductive EndsBy (s : State) (t : Tid) (r : Ref) : Act → Ended → Prop where
  | send (c : Nat) : s.call t = .readTaken c r →
      EndsBy s t r (.readSend t false) ⟨r, (s.req r).serial, .send c, .blkResult, blkStsIoerr,
        (s.req r).union.setBlkResult blkStsIoerr⟩
  | reply (c : Nat) (reply : Int) (fault : Bool) (scratch : Union) (field : Field) (result : Int) (u : Union) :
      s.call t = .replied c r reply → Marked s r field result u →
      EndsBy s t r (.writeEnd t fault scratch) ⟨r, (s.req r).serial, .reply c, field, result, u⟩
  | release (c : Nat) : s.call t = .relAt c (.req r) →
      EndsBy s t r (.relEnd t) ⟨r, (s.req r).serial, .release c, .blkResult, blkStsIoerr,
        (s.req r).union.setBlkResult blkStsIoerr⟩
  | drain : s.call t = .remAt (.req r) →
      EndsBy s t r (.remEnd t) ⟨r, (s.req r).serial, .drain, .none, blkStsIoerr, (s.req r).union⟩

/-- What a step of `t` does to the records. -/
inductive Change (s s' : State) (v v' : View) (t : Tid) (act : Act) : Prop where
  /-- a request moves from place to place, at most -/
  | keep : (∀ r, v'.place r = .free ↔ v.place r = .free) →
    (∀ u r, s'.call u = .queueing r ↔ s.call u = .queueing r) →
      s'.accepted = s.accepted → s'.ended = s.ended → Change s s' v v' t act
  | submit (r : Ref) : v.place r = .free → (∀ k, r = .zones k → s.zonesCalls ≤ k) →
      (∀ r', v'.place r' = .free ↔ v.place r' = .free ∧ r' ≠ r) →
      s'.call t = .queueing r → (s'.req r).serial = s.nextSerial → s'.nextSerial = s.nextSerial + 1 →
      s'.accepted = s.accepted → s'.ended = s.ended → Change s s' v v' t act
  | insert (r : Ref) : s.call t = .queueing r → (∀ r', v'.place r' = .free ↔ v.place r' = .free) →
      (∀ u r', s'.call u = .queueing r' ↔ s.call u = .queueing r' ∧ u ≠ t) →
      s'.accepted = s.accepted ++ (match r with | .slot p => [(p, (s.req r).serial)] | .zones _ => []) →
      s'.ended = s.ended → Change s s' v v' t act
  | ended (r : Ref) (e : Ended) : EndsBy s t r act e → v.place r ≠ .free → (∀ u, s.call u ≠ .queueing r) →
      (∀ r', v'.place r' = .free ↔ v.place r' = .free ∨ r' = r) →
        (∀ u r', s'.call u = .queueing r' ↔ s.call u = .queueing r') →
      s'.accepted = s.accepted → s'.ended = s.ended ++ [e] → Change s s' v v' t act

/-- What a step of `t` does to the loops of `bius_dev_release`. -/
inductive LoopStep (s s' : State) (v v' : View) (t : Tid) : Prop where
  | idle : s'.call = s.call → v'.waiting = v.waiting → s'.ended = s.ended → LoopStep s s' v v' t
  | none : (s.call t).loops = none → (∀ c, s.opened c = false → v'.waiting c = v.waiting c) → LoopStep s s' v v' t
  | next (c : Nat) (n : Node) (r : Ref) : s.call t = .relNext c n → s'.call t = .relAt c (.req r) →
      v.waiting c = r :: v'.waiting c → (∀ c', c' ≠ c → v'.waiting c' = v.waiting c') → s'.ended = s.ended →
      LoopStep s s' v v' t
  | last (c : Nat) (n : Node) : s.call t = .relNext c n → s'.call t = .relAt c (.waiting c) →
      v'.waiting = v.waiting → s'.ended = s.ended → LoopStep s s' v v' t
  | ended (c : Nat) (r : Ref) (u : Union) : s.call t = .relAt c (.req r) → s'.call t = .relNext c (.req r) →
      v'.waiting = v.waiting →
      s'.ended = s.ended ++ [⟨r, (s.req r).serial, .release c, .blkResult, blkStsIoerr, u⟩] → LoopStep s s' v v' t
  | done (c : Nat) : s.call t = .relAt c (.waiting c) → s'.call t = .relUnref c → v'.waiting = v.waiting →
      s'.ended = s.ended → LoopStep s s' v v' t

/-- What a step of `t` does. -/
structure Effect (s s' : State) (v v' : View) (t : Tid) (act : Act) : Prop where
  others : ∀ u, u ≠ t → s'.call u = s.call u
  closed : ∀ c, s.opened c = false → s'.opened c = false
  serial : ∀ r, v.place r ≠ .free → (s'.req r).serial = (s.req r).serial
  next : s.nextSerial ≤ s'.nextSerial
  pending : ∀ r, v'.place r = .pending → v.place r = .pending ∨ act = .insert t
  calls : s.zonesCalls ≤ s'.zonesCalls
  /-- a call of `bius_report_zones` is there until it returns -/
  alive : ∀ k, s.alive k = true → s'.alive k = true ∨ s.call t = .zonesWait k ∧ s'.call t = .idle
  /-- what the owner of an ended request finds in it stays there -/
  zones : ∀ k, s'.alive k = true → 0 < s'.sem k →
    (s.alive k = true ∧ 0 < s.sem k ∧ s'.req (.zones k) = s.req (.zones k)) ∨
      ∃ e, s'.ended = s.ended ++ [e] ∧ e.ref = .zones k ∧ (s'.req (.zones k)).union = e.union
  returned : s'.returned = s.returned ∨ ∃ k, s.call t = .zonesWait k ∧ 0 < s.sem k ∧
    s'.returned = s.returned ++ [(k, (s.req (.zones k)).union.intResult)]
  change : Change s s' v v' t act
  loop : LoopStep s s' v v' t

section
variable {v' : View} {act : Act} {x : Point}

theorem queueing_iff (hcall : s'.call = Function.update s.call t x) (hq : ∀ r, s.call t ≠ .queueing r)
    (hx : ∀ r, x ≠ .queueing r) (u : Tid) (r : Ref) : s'.call u = .queueing r ↔ s.call u = .queueing r := by
  rw [hcall, Function.update_apply]
  split
  · next heq =>
    subst heq
    exact ⟨fun hc => absurd hc (hx r), fun hc => absurd hc (hq r)⟩
  · rfl

theorem Effect.still (hcall : s'.call = Function.update s.call t x) (hq : ∀ r, s.call t ≠ .queueing r)
    (hx : ∀ r, x ≠ .queueing r) (hclosed : ∀ c, s.opened c = false → s'.opened c = false)
    (hserial : ∀ r, v.place r ≠ .free → (s'.req r).serial = (s.req r).serial)
    (hreq : ∀ k, 0 < s.sem k → s'.req (.zones k) = s.req (.zones k)) (hnext : s.nextSerial ≤ s'.nextSerial)
    (hcalls : s'.zonesCalls = s.zonesCalls) (halive : s'.alive = s.alive) (hsem : s'.sem = s.sem)
    (hret : s'.returned = s.returned) (hacc : s'.accepted = s.accepted)
    (hended : s'.ended = s.ended) (hfree : ∀ r, v'.place r = .free ↔ v.place r = .free)
    (hpend : ∀ r, v'.place r = .pending → v.place r = .pending) (hloop : LoopStep s s' v v' t) :
      Effect s s' v v' t act where
  others u hu := by rw [hcall, Function.update_of_ne hu]
  closed := hclosed
  serial := hserial
  next := hnext
  pending r hr := .inl (hpend r hr)
  calls := Nat.le_of_eq hcalls.symm
  alive k hk := .inl (by rw [halive]; exact hk)
  zones k ha hs := .inl ⟨halive ▸ ha, hsem ▸ hs, hreq k (hsem ▸ hs)⟩
  returned := .inl hret
  change := .keep hfree (queueing_iff hcall hq hx) hacc hended
  loop := hloop

theorem Effect.setCall (hq : ∀ r, s.call t ≠ .queueing r) (hx : ∀ r, x ≠ .queueing r)
    (hl : (s.call t).loops = none) :
    Effect s (s.setCall t x) v v t act :=
  .still rfl hq hx (fun _ h => h) (fun _ _ => rfl) (fun _ _ => rfl) (Nat.le_refl _) rfl rfl rfl rfl rfl rfl
    (fun _ => Iff.rfl) (fun _ hr => hr) (.none hl (fun _ _ => rfl))

theorem pending_update {y : Place} (hy : y ≠ .pending) (r' : Ref) (h : Function.update v.place r y r' = .pending) :
    v.place r' = .pending := by
  rw [Function.update_apply] at h
  split at h
  · exact absurd h hy
  · exact h

theorem Effect.submit (hcall : s'.call = Function.update s.call t (.queueing r)) (ht : s.call t = .idle)
    (hfree : v.place r = .free) (hopened : s'.opened = s.opened) (ho : Others s s' r)
    (hserial : (s'.req r).serial = s.nextSerial) (hnext : s'.nextSerial = s.nextSerial + 1)
    (hfresh : ∀ k, r = .zones k → s.zonesCalls ≤ k ∧ s'.sem k = 0 ∧ s'.alive k = true)
    (hret : s'.returned = s.returned) (hacc : s'.accepted = s.accepted) (hended : s'.ended = s.ended) :
      Effect s s' v { v with place := Function.update v.place r (.held t) } t act where
  others u hu := by rw [hcall, Function.update_of_ne hu]
  closed c hc := by rw [hopened]; exact hc
  serial r' hr' := by rw [ho.req r' (fun heq => hr' (heq ▸ hfree))]
  next := by omega
  pending r' hr' := .inl (pending_update (by simp) r' hr')
  calls := ho.zonesCalls
  alive k hk := by
    by_cases heq : r = .zones k
    · exact .inl (hfresh k heq).2.2
    · exact .inl (by rw [ho.alive k heq]; exact hk)
  zones k ha hs := by
    have hne : r ≠ .zones k := fun heq => by rw [(hfresh k heq).2.1] at hs; exact absurd hs (Nat.lt_irrefl 0)
    exact .inl ⟨ho.alive k hne ▸ ha, ho.sem k hne ▸ hs, ho.req _ hne.symm⟩
  returned := .inl hret
  change := by
    refine .submit r hfree (fun k hk => (hfresh k hk).1) (fun r' => ?_) (by rw [hcall, Function.update_self])
      hserial hnext hacc hended
    by_cases heq : r' = r <;> simp [heq]
  loop := .none (by rw [ht]; rfl) (fun _ _ => rfl)

end

/-! ## Endings -/

/-- Nobody is about to queue a request that another thread holds. -/
theorem Books.not_queueing (h : Books sema s v) (hh : (s.call t).holds = some r) (hq : s.call t ≠ .queueing r)
    (u : Tid) :
    s.call u ≠ .queueing r := by
  intro hu
  have hplace := (h.held r u).2 (by rw [hu]; rfl)
  rw [(h.held r t).2 hh] at hplace
  cases hplace
  exact hq hu

theorem free_update {y : Place} (hy : y ≠ .free) (hr : v.place r ≠ .free) (r' : Ref) :
    Function.update v.place r y r' = .free ↔ v.place r' = .free := by
  rw [Function.update_apply]
  split
  · next heq =>
    subst heq
    exact ⟨fun hc => absurd hc hy, fun hc => absurd hc hr⟩
  · rfl

theorem free_update_free (r' : Ref) : Function.update v.place r .free r' = .free ↔ v.place r' = .free ∨ r' = r := by
  rw [Function.update_apply]
  split
  · next heq => simp [heq]
  · next hne => simp [hne]

theorem Effect.ending (h : Sound sema s v) {act : Act} {x : Point} {u : Union} {who : EndedBy} {field : Field}
    {result : Int} (hh : (s.call t).holds = some r) (hq : ∀ r', s.call t ≠ .queueing r')
    (hx : ∀ r', x ≠ .queueing r') (he : EndsBy s t r act ⟨r, (s.req r).serial, who, field, result, u⟩)
    (hloop : LoopStep s (((s.setReq r { s.req r with union := u }).onRequestEnd r who field result).setCall t x) v
      { v with place := Function.update v.place r .free } t) :
    Effect s (((s.setReq r { s.req r with union := u }).onRequestEnd r who field result).setCall t x) v
      { v with place := Function.update v.place r .free } t act := by
  have hplace := (h.books.held r t).2 hh
  have hne : v.place r ≠ .free := by rw [hplace]; simp
  have hends := onRequestEnd_ends (h.books.live r hne) u who field result
  obtain ⟨hcall, hop, -, -, -, -, hreq, halive, hacc, hcalls, hnext, hret, -⟩ :=
    onRequestEnd_frame (s.setReq r { s.req r with union := u }) r who field result
  have hmoves : (((s.setReq r { s.req r with union := u }).onRequestEnd r who field result).setCall t x).call =
      Function.update s.call t x := by
    simp only [State.setCall, hcall]
    rfl
  have hself : ((s.setReq r { s.req r with union := u }).onRequestEnd r who field result).req r =
      { s.req r with union := u } := by
    rw [hreq]
    exact Function.update_self ..
  refine ⟨fun w hw => ?_, fun c hc => ?_, fun r' _ => ?_, ?_,
    fun r' hr' => .inl (pending_update (by simp) r' hr'), Nat.le_of_eq hcalls.symm,
      fun k hk => .inl ((congrFun halive k).trans hk),
    fun k ha hs => ?_, .inl hret, .ended r _ he hne (h.books.not_queueing hh (hq r)) free_update_free
      (queueing_iff hmoves hq hx) hacc hends.ended, hloop⟩
  · rw [hmoves, Function.update_of_ne hw]
  · exact (congrFun hop c).trans hc
  · show (((s.setReq r { s.req r with union := u }).onRequestEnd r who field result).req r').serial = _
    by_cases heq : r' = r
    · rw [heq, hself]
    · rw [hends.others.req r' heq]
  · exact Nat.le_of_eq hnext.symm
  · by_cases heq : r = .zones k
    · refine .inr ⟨_, hends.ended, heq, ?_⟩
      subst heq
      exact congrArg RawRequest.union hself
    · refine .inl ⟨?_, ?_, ?_⟩
      · rw [← hends.others.alive k heq]; exact ha
      · rw [← hends.others.sem k heq]; exact hs
      · exact hends.others.req _ (Ne.symm heq)

theorem writeEnd_eq (hr : RefOk sema s r) (c : Nat) (reply : Int) (fault : Bool) (scratch : Union) :
    ∃ field result u, Marked s r field result u ∧ s.writeEnd t c r reply fault scratch =
      ((s.setReq r { s.req r with union := u }).onRequestEnd r (.reply c) field result).setCall t .idle := by
  cases r with
  | slot p =>
    obtain ⟨-, -, htype⟩ := hr
    unfold State.writeEnd State.endBlkRequest
    dsimp only
    rw [if_pos htype]
    generalize (if fault && decide ((s.req (.slot p)).type = .read) && decide (reply = blkStsOk) then (blkStsIoerr : Int)
      else reply) = result
    split
    · refine ⟨.blkResult, result, ((s.req (.slot p)).union.scratch scratch).setBlkResult result,
        ⟨rfl, _, rfl⟩, ?_⟩
      simp only [State.setReq, Function.update_self, Function.update_idem]
    · exact ⟨.blkResult, _, _, ⟨rfl, _, rfl⟩, rfl⟩
  | zones k =>
    obtain ⟨halive, -, -, -, htype, -⟩ := hr
    unfold State.writeEnd State.endRequestInt
    dsimp only
    rw [if_neg (by rw [htype]; decide)]
    split
    · exact ⟨.intResult, _, _, ⟨rfl, rfl⟩, rfl⟩
    · refine ⟨.intResult, if fault then -eINVAL else reply, _, ⟨rfl, rfl⟩, ?_⟩
      simp only [halive, Bool.not_true, Bool.or_false]

/-! ## Every step -/

theorem isBlkRequest_toBiusRequest (op : Nat) : isBlkRequest (toBiusRequest op) = true := by
  unfold toBiusRequest
  split <;> rfl

theorem Books.free_slot (h : Books sema s v) {p : Nat} (hb : s.busy p = false) : v.place (.slot p) = .free := by
  by_contra hne
  rw [(h.live _ hne).1] at hb
  cases hb

theorem queueRq_effect (h : Sound sema s v) {act : Act} {p op length : Nat} {scratch : Union} (ht : s.call t = .idle)
    (hb : s.busy p = false) (hp : Points (s.queueRq t p op length scratch)) :
    ∃ v', Sound sema (s.queueRq t p op length scratch) v' ∧ Effect s (s.queueRq t p op length scratch) v v' t act := by
  have hm := queueRq_moves ht p op length scratch
  have hfree := h.books.free_slot hb
  have hother : ∀ r, v.place r ≠ .free → r ≠ .slot p := fun r hr heq => hr (heq ▸ hfree)
  unfold State.queueRq at hp hm ⊢
  dsimp only at hp hm ⊢
  split
  · next hinv =>
    rw [if_pos hinv] at hp hm
    rw [if_pos hinv] at hm
    refine ⟨v, h.move hp hm (by rw [ht]; rfl) rfl (h.drain.same hm rfl (drained_congr rfl) rfl (fun _ hr => hr))
      (by rw [ht]) (by rw [ht]; simp) rfl (fun r hr => ?_) rfl rfl rfl,
      .still hm.call (by rw [ht]; simp) (by simp) (fun _ hc => hc) (fun r hr => ?_) (fun k _ => ?_)
        (Nat.le_succ _) rfl rfl rfl rfl
        rfl rfl (fun _ => Iff.rfl) (fun _ hr => hr) (.none (by rw [ht]; rfl) (fun _ _ => rfl))⟩
    · cases r with
      | slot p' =>
        have hne : Ref.slot p' ≠ .slot p := by
          intro heq
          cases heq
          rw [hr.1] at hb
          cases hb
        refine ⟨hr.1, ?_⟩
        simp only [State.setReq, Function.update_of_ne hne]
        exact hr.2
      | zones k => exact hr
    · simp only [State.setReq, Function.update_of_ne (hother r hr)]
    · simp only [State.setReq, Function.update_of_ne (show Ref.zones k ≠ .slot p by simp)]
  · next hinv =>
    rw [if_neg hinv] at hp hm
    rw [if_neg hinv] at hm
    have ho : Others s (State.setCall { s.setReq (.slot p) ⟨(s.nextSerial + 1) % 2 ^ 64, toBiusRequest op, length,
        (s.req (.slot p)).union.scratch scratch, .blk, s.nextSerial⟩ with
        nextSerial := s.nextSerial + 1, busy := Function.update s.busy p true } t (.queueing (.slot p))) (.slot p) :=
      ⟨fun r' hr' => Function.update_of_ne hr' _ _,
        fun p' hp' => Function.update_of_ne (fun heq : p' = p => hp' (by rw [heq])) _ _,
        fun _ _ => rfl, fun _ _ => rfl, Nat.le_refl _⟩
    refine ⟨_, h.submit hp hm ht hfree ho ⟨Function.update_self .., ?_⟩ rfl rfl rfl,
      .submit hm.call ht hfree rfl ho ?_ rfl (fun k hk => (by cases hk)) rfl rfl rfl⟩
    · simp only [State.setCall, State.setReq, Function.update_self]
      exact ⟨trivial, isBlkRequest_toBiusRequest op⟩
    · simp only [State.setCall, State.setReq, Function.update_self]

theorem reportZones_effect (h : Sound sema s v) {act : Act} {length : Nat} {stack : Union} (ht : s.call t = .idle)
    (hp : Points (s.reportZones sema t length stack)) :
    ∃ v', Sound sema (s.reportZones sema t length stack) v' ∧
      Effect s (s.reportZones sema t length stack) v v' t act := by
  have hm := reportZones_moves (s := s) sema t length stack
  have hfree : v.place (.zones s.zonesCalls) = .free := by
    by_contra hne
    exact Nat.lt_irrefl _ (h.books.live _ hne).2.2.1
  have ho : Others s (s.reportZones sema t length stack) (.zones s.zonesCalls) := by
    refine ⟨fun r' hr' => Function.update_of_ne hr' _ _, fun _ _ => rfl, fun k hk => ?_, fun k hk => ?_, Nat.le_succ _⟩
    · exact Function.update_of_ne (fun heq : k = s.zonesCalls => hk (by rw [heq])) _ _
    · exact Function.update_of_ne (fun heq : k = s.zonesCalls => hk (by rw [heq])) _ _
  have hself : (s.reportZones sema t length stack).req (.zones s.zonesCalls) = ⟨(s.nextSerial + 1) % 2 ^ 64,
      .reportZones, length, stack.semaInit (sema s.zonesCalls), .zones, s.nextSerial⟩ := Function.update_self ..
  refine ⟨_, h.submit hp hm ht hfree ho ⟨Function.update_self .., Function.update_self .., Nat.lt_succ_self _,
    ?_⟩ rfl rfl rfl, .submit hm.call ht hfree rfl ho (by rw [hself]) rfl (fun k hk => ?_) rfl rfl rfl⟩
  · rw [hself]
    refine ⟨rfl, rfl, fun i hi hlt => ?_⟩
    simp only [Union.semaInit, if_pos (And.intro hi hlt)]
  · cases hk
    exact ⟨Nat.le_refl _, Function.update_self .., Function.update_self ..⟩

theorem insert_effect (h : Sound sema s v) (ht : s.call t = .queueing r) :
    Effect s (s.insert t r) v { v with place := Function.update v.place r .pending, pending := v.pending ++ [r] } t
      (.insert t) := by
  have hm := insert_moves (s := s) t r
  have hplace := (h.books.held r t).2 (by rw [ht]; rfl)
  have hne : v.place r ≠ .free := by rw [hplace]; simp
  refine ⟨fun u hu => by rw [hm.at, if_neg hu],
    fun c hc => by rw [hm.opened]; exact hc, fun r' _ => ?_, ?_, fun _ _ => .inr rfl,
    ?_, fun k hk => ?_, fun k ha hs => ?_, ?_, .insert r ht (free_update (by simp) hne) (fun u r' => ?_) ?_ ?_,
      .none (by rw [ht]; rfl) (fun _ _ => rfl)⟩
  · cases r <;> rfl
  · cases r <;> exact Nat.le_refl _
  · cases r <;> exact Nat.le_refl _
  · cases r <;> exact .inl hk
  · cases r <;> exact .inl ⟨ha, hs, rfl⟩
  · cases r <;> exact .inl rfl
  · rw [hm.at]
    split
    · next heq => cases r <;> simp [heq, Ref.inserted]
    · next hut => simp [hut]
  · cases r with
    | slot p => rfl
    | zones k => exact (List.append_nil _).symm
  · cases r <;> rfl

theorem zonesWake_effect (h : Sound sema s v) {act : Act} {k : Nat} {q : RawRequest} {next prev : Node}
    (ht : s.call t = .zonesWait k) (hsem : 0 < s.sem k) (hnext : ∀ u c, s.call u ≠ .relNext c (.req (.zones k)))
    (hp : Points (State.zonesReturn { s with returned := s.returned ++ [(k, (s.req (.zones k)).union.intResult)] } t
      k q next prev)) :
    Sound sema (State.zonesReturn { s with returned := s.returned ++ [(k, (s.req (.zones k)).union.intResult)] } t k
      q next prev) v ∧
      Effect s (State.zonesReturn { s with returned := s.returned ++ [(k, (s.req (.zones k)).union.intResult)] } t k
        q next prev) v v
        t act := by
  have hm : Moves s (State.zonesReturn { s with
      returned := s.returned ++ [(k, (s.req (.zones k)).union.intResult)] } t k q next prev) t .idle :=
        ⟨rfl, rfl, rfl, rfl, rfl⟩
  have hfree : v.place (.zones k) = .free := by
    by_contra hne
    have := (h.books.live _ hne).2.1
    omega
  have ho : Others s (State.zonesReturn { s with
      returned := s.returned ++ [(k, (s.req (.zones k)).union.intResult)] } t k q next prev) (.zones k) :=
    ⟨fun r' hr' => Function.update_of_ne hr' _ _, fun _ _ => rfl,
      fun k' hk => Function.update_of_ne (fun heq : k' = k => hk (by rw [heq])) _ _, fun _ _ => rfl, Nat.le_refl _⟩
  refine ⟨h.zonesReturn hp ht hsem hnext hm rfl ho rfl rfl,
    fun u hu => by rw [hm.at, if_neg hu], fun _ hc => hc, fun r hr => ?_,
    Nat.le_refl _, fun _ hr => .inl hr, Nat.le_refl _, fun k' hk => ?_, fun k' ha hs => ?_, .inr ⟨k, ht, hsem, rfl⟩,
    .keep (fun _ => Iff.rfl) (queueing_iff hm.call (by rw [ht]; simp) (by simp)) rfl rfl,
      .none (by rw [ht]; rfl) (fun _ _ => rfl)⟩
  · rw [ho.req r (fun heq => hr (heq ▸ hfree))]
  · by_cases heq : k' = k
    · rw [heq]
      exact .inr ⟨ht, Function.update_self ..⟩
    · exact .inl (by rw [ho.alive k' (by simpa using Ne.symm heq)]; exact hk)
  · have hne : k' ≠ k := by
      rintro rfl
      simp [State.zonesReturn, State.setCall, State.setReq] at ha
    have href : Ref.zones k' ≠ .zones k := by simpa using hne
    exact .inl ⟨ho.alive k' href.symm ▸ ha, hs, ho.req _ href⟩

theorem readTake_effect (h : Sound sema s v) {act : Act} {c : Nat} {scratch : Union} (ht : s.call t = .readWait c)
    (hs : s.readTake t c scratch = some s') (hp : Points s') : ∃ v', Sound sema s' v' ∧ Effect s s' v v' t act := by
  obtain ⟨r, u, hr, hu, rfl⟩ := readTake_cases hs
  obtain ⟨rest, hrest⟩ := h.pending_first hr
  have hne : v.place r ≠ .free := by
    -- the device is not being removed, so nothing on the list has been ended
    rcases (h.books.pend_iff r).1 (by rw [hrest]; simp) with hpend | ⟨p, -, hd⟩
    · rw [hpend]; simp
    · have := h.not_removing (t := t) (c := c) (by rw [ht]; rfl)
      rw [(h.books.drained p hd).1] at this
      cases this
  refine ⟨_, h.takePending hp ht hrest ⟨rfl, rfl, rfl, rfl, rfl⟩ rfl
    ⟨fun r' hne => Function.update_of_ne hne _ _, fun _ _ => rfl, fun _ _ => rfl, fun _ _ => rfl, Nat.le_refl _⟩
    (fun hok => union_refOk (u := u) hok ?_ (by simp [State.setCall]) rfl rfl rfl rfl) rfl rfl,
    .still rfl (by rw [ht]; simp) (by simp) (fun _ hc => hc) (fun r' _ => ?_) (fun k hk => ?_)
      (Nat.le_refl _) rfl rfl rfl rfl rfl rfl
      (free_update (by simp) hne) (pending_update (by simp)) (.none (by rw [ht]; rfl) (fun _ _ => rfl))⟩
  · rcases hu with hu | ⟨hdata, -⟩
    · exact .inl hu.symm
    · exact .inr hdata
  · simp only [State.setCall, Function.update_apply]
    split
    · next heq => rw [heq]
    · rfl
  · have hzr : Ref.zones k ≠ r := by
      rintro rfl
      have := (h.books.live _ hne).2.1
      omega
    simp only [State.setCall, Function.update_of_ne hzr]

theorem readSend_effect (h : Sound sema s v) {c : Nat} {sent : Bool} (ht : s.call t = .readTaken c r)
    (hp : Points (s.readSend t c r sent)) :
    ∃ v', Sound sema (s.readSend t c r sent) v' ∧ Effect s (s.readSend t c r sent) v v' t (.readSend t sent) := by
  have hh : (s.call t).holds = some r := by rw [ht]; rfl
  have hm := readSend_moves (s := s) t c r sent
  have hplace := (h.books.held r t).2 hh
  have hne : v.place r ≠ .free := by rw [hplace]; simp
  obtain ⟨hopen, -⟩ := h.points.uses t c (by rw [ht]; rfl)
  unfold State.readSend at hp hm ⊢
  cases sent with
  | true =>
    rw [if_pos rfl] at hp hm ⊢
    refine ⟨_, h.sent hp ht hm rfl (.of_eq rfl rfl rfl rfl rfl) (refOk_of_eq rfl rfl rfl rfl rfl) rfl rfl,
      .still rfl (by rw [ht]; simp) (by simp) (fun _ hc => hc) (fun _ _ => rfl) (fun _ _ => rfl)
        (Nat.le_refl _) rfl rfl rfl rfl rfl rfl
        (free_update (by simp) hne) (pending_update (by simp)) (.none (by rw [ht]; rfl) (fun c' hc => ?_))⟩
    exact Function.update_of_ne (fun heq : c' = c => by rw [heq, hopen] at hc; cases hc) _ _
  | false =>
    rw [if_neg (by simp)] at hp hm ⊢
    refine ⟨_, h.ended hp ((onRequestEnd_ends (h.books.live r hne) _ _ _ _).setCall t .idle) (by simp) hm hh
      (by rw [ht]; simp) rfl
      (by rw [ht]; rfl) rfl (by simp),
      .ending h hh (by rw [ht]; simp) (by simp) (.send c ht) (.none (by rw [ht]; rfl) (fun _ _ => rfl))⟩

theorem writeStart_effect (h : Sound sema s v) {act : Act} {c id fuel : Nat} {reply : Int} (ht : s.call t = .idle)
    (hopen : s.opened c = true) (hs : s.writeStart t c id reply fuel = some s') (hp : Points s') :
    ∃ v', Sound sema s' v' ∧ Effect s s' v v' t act := by
  obtain rfl | ⟨r, hfound, rfl⟩ := writeStart_cases hs
  · exact ⟨v, h, .still (x := .idle) (by rw [← ht, Function.update_eq_self]) (by rw [ht]; simp) (by simp)
      (fun _ hc => hc) (fun _ _ => rfl) (fun _ _ => rfl) (Nat.le_refl _) rfl rfl rfl rfl rfl rfl (fun _ => Iff.rfl)
      (fun _ hr => hr) (.none (by rw [ht]; rfl) (fun _ _ => rfl))⟩
  · have hr := h.found hopen hfound
    have hplace := (h.books.wait_iff c r).1 hr
    refine ⟨_, h.replied hp ht hopen hr ⟨rfl, rfl, rfl, rfl, rfl⟩ rfl (.of_eq rfl rfl rfl rfl rfl)
      (refOk_of_eq rfl rfl rfl rfl rfl) rfl rfl, .still rfl (by rw [ht]; simp) (by simp) (fun _ hc => hc)
      (fun _ _ => rfl) (fun _ _ => rfl) (Nat.le_refl _) rfl rfl rfl rfl rfl rfl
        (free_update (by simp) (by rw [hplace]; simp)) (pending_update (by simp))
        (.none (by rw [ht]; rfl) (fun c' hc => ?_))⟩
    exact Function.update_of_ne (fun heq : c' = c => by rw [heq, hopen] at hc; cases hc) _ _

theorem writeEnd_effect (h : Sound sema s v) {c : Nat} {reply : Int} {fault : Bool} {scratch : Union}
    (ht : s.call t = .replied c r reply) (hp : Points (s.writeEnd t c r reply fault scratch)) :
    ∃ v', Sound sema (s.writeEnd t c r reply fault scratch) v' ∧
      Effect s (s.writeEnd t c r reply fault scratch) v v' t (.writeEnd t fault scratch) := by
  have hh : (s.call t).holds = some r := by rw [ht]; rfl
  have hm := writeEnd_moves (s := s) t c r reply fault scratch
  have hne : v.place r ≠ .free := by rw [(h.books.held r t).2 hh]; simp
  obtain ⟨field, result, u, hmarked, heq⟩ := writeEnd_eq (t := t) (h.books.live r hne) c reply fault scratch
  rw [heq] at hp hm ⊢
  exact ⟨_, h.ended hp ((onRequestEnd_ends (h.books.live r hne) _ _ _ _).setCall t .idle) (by simp) hm hh
    (by rw [ht]; simp) rfl
    (by rw [ht]; rfl) rfl (by simp),
    .ending h hh (by rw [ht]; simp) (by simp) (.reply c reply fault scratch field result u ht hmarked)
      (.none (by rw [ht]; rfl) (fun _ _ => rfl))⟩

theorem release_effect (h : Sound sema s v) {c : Nat} (ht : s.call t = .idle) (hopen : s.opened c = true)
    (hp : Points (State.setCall { s with opened := Function.update s.opened c false } t (.relNext c (.waiting c)))) :
    Sound sema (State.setCall { s with opened := Function.update s.opened c false } t (.relNext c (.waiting c))) v ∧
      Effect s (State.setCall { s with opened := Function.update s.opened c false } t (.relNext c (.waiting c))) v v
        t (.release t c) := by
  refine ⟨h.release hp ht hopen, .still rfl (by rw [ht]; simp) (by simp) (fun c' hc => ?_) (fun _ _ => rfl)
    (fun _ _ => rfl) (Nat.le_refl _) rfl rfl rfl rfl rfl rfl (fun _ => Iff.rfl) (fun _ hr => hr)
    (.none (by rw [ht]; rfl) (fun _ _ => rfl))⟩
  simp only [State.setCall, Function.update_apply]
  split
  · rfl
  · exact hc

theorem relNext_effect (h : Sound sema s v) {act : Act} {c : Nat} {n : Node} (ht : s.call t = .relNext c n)
    (hp : Points (s.setCall t (.relAt c (s.links.next n)))) :
    ∃ v', Sound sema (s.setCall t (.relAt c (s.links.next n))) v' ∧
      Effect s (s.setCall t (.relAt c (s.links.next n))) v v' t act := by
  obtain ⟨hn, hw⟩ | ⟨r, rest, hn, hw⟩ := h.relNext_cases ht
  · rw [hn] at hp ⊢
    exact ⟨v, h.relLast hp ht hw, .still rfl (by rw [ht]; simp) (by simp) (fun _ hc => hc) (fun _ _ => rfl)
      (fun _ _ => rfl) (Nat.le_refl _) rfl rfl rfl rfl rfl rfl (fun _ => Iff.rfl) (fun _ hr => hr)
      (.last c n ht (Function.update_self ..) rfl rfl)⟩
  · rw [hn] at hp ⊢
    have hplace := (h.books.wait_iff c r).1 (by rw [hw]; simp)
    refine ⟨_, h.relStep hp ht hw, .still rfl (by rw [ht]; simp) (by simp) (fun _ hc => hc) (fun _ _ => rfl)
      (fun _ _ => rfl) (Nat.le_refl _) rfl rfl rfl rfl rfl rfl (free_update (by simp) (by rw [hplace]; simp))
      (pending_update (by simp)) (.next c n r ht (Function.update_self ..) ?_
        (fun c' hc => Function.update_of_ne hc _ _) rfl)⟩
    rw [hw]
    simp

theorem relEnd_effect (h : Sound sema s v) {c : Nat} (ht : s.call t = .relAt c (.req r))
    (hp : Points ((s.endBlkRequest r (.release c) blkStsIoerr).setCall t (.relNext c (.req r)))) :
    Sound sema ((s.endBlkRequest r (.release c) blkStsIoerr).setCall t (.relNext c (.req r)))
        { v with place := Function.update v.place r .free } ∧
      Effect s ((s.endBlkRequest r (.release c) blkStsIoerr).setCall t (.relNext c (.req r))) v
        { v with place := Function.update v.place r .free } t (.relEnd t) := by
  have hh : (s.call t).holds = some r := by rw [ht]; rfl
  have hm := endBlkRequest_moves s t (.relNext c (.req r)) r (.release c) blkStsIoerr
  have hne : v.place r ≠ .free := by rw [(h.books.held r t).2 hh]; simp
  refine ⟨h.ended hp ((onRequestEnd_ends (h.books.live r hne) _ _ _ _).setCall t _) (by simp) hm hh
    (by rw [ht]; simp) rfl
    (by rw [ht]; rfl) rfl (fun c' n hc => ?_),
    .ending h hh (by rw [ht]; simp) (by simp) (.release c ht) (.ended c r _ ht ?_ rfl
      (onRequestEnd_ends (h.books.live r hne) _ _ _ _).ended)⟩
  · rcases hc with hc | hc
    · cases hc; exact ⟨rfl, ht⟩
    · cases hc
  · exact (hm.at t).trans (if_pos rfl)

theorem remEnd_effect (h : Sound sema s v) {p : Nat} (ht : s.call t = .remAt (.req (.slot p)))
    (hs : s.remEnd t (.req (.slot p)) = some s') (hp : Points s') :
    ∃ v', Sound sema s' v' ∧ Effect s s' v v' t (.remEnd t) := by
  cases hs
  have hother : ∀ p', Ref.slot p ≠ .slot p' → p' ≠ p := fun p' hp' heq => hp' (by rw [heq])
  have hplace : v.place (.slot p) = .pending := by
    obtain ⟨a, b, -, -, hb, hn⟩ := h.drain.at_ t _ ht
    rcases hn with hn | ⟨r, b', rfl, hn⟩
    · cases hn
    · cases hn
      exact hb _ (by simp)
  have hm : Moves s (State.setCall { s with
      ended := s.ended ++ [⟨.slot p, (s.req (.slot p)).serial, .drain, .none, blkStsIoerr, (s.req (.slot p)).union⟩]
      busy := Function.update s.busy p false } t (.remNext (.req (.slot p)))) t (.remNext (.req (.slot p))) :=
    ⟨rfl, rfl, rfl, rfl, rfl⟩
  refine ⟨_, h.drained hp ht hm rfl ⟨fun _ _ => rfl, fun p' hp' => Function.update_of_ne (hother p' hp') _ _,
      fun _ _ => rfl, fun _ _ => rfl, Nat.le_refl _⟩ (Function.update_self ..) rfl rfl rfl rfl,
    fun u hu => by rw [hm.at, if_neg hu], fun _ hc => hc, fun _ _ => rfl, Nat.le_refl _,
    fun r' hr' => .inl (pending_update (by simp) r' hr'), Nat.le_refl _, fun _ hk => .inl hk,
      fun k ha hsem => .inl ⟨ha, hsem, rfl⟩, .inl rfl,
    .ended (.slot p) _ (.drain ht) (by rw [hplace]; simp) (fun u hu => ?_) free_update_free
      (queueing_iff hm.call (by rw [ht]; simp) (by simp)) rfl rfl, .none (by rw [ht]; rfl) (fun _ _ => rfl)⟩
  have := (h.books.held _ u).2 (by rw [hu]; rfl)
  rw [hplace] at this
  cases this

/-- **What one step preserves.** If nobody is in a hurry, a step keeps every request in
    one place, and does to the records what `Effect` says. -/
theorem sound_step {act : Act} (h : Sound sema s v) (hvfs : Vfs s act) (hun : Unhurried s act)
    (hs : step sema s act = some s') : ∃ v' t, Sound sema s' v' ∧ Effect s s' v v' t act := by
  have hp := points_step h.points hvfs hs
  cases step_cases hs with
  | attach c hopen hatt hrem =>
    exact ⟨v, .user 0, h.attach hp, fun _ _ => rfl, fun _ hc => hc, fun _ _ => rfl, Nat.le_refl _, fun _ hr => .inl hr,
      Nat.le_refl _, fun _ hk => .inl hk, fun k ha hsem => .inl ⟨ha, hsem, rfl⟩, .inl rfl,
        .keep (fun _ => Iff.rfl) (fun _ _ => Iff.rfl) rfl rfl, .idle rfl rfl rfl⟩
  | queueRq t p op length scratch ht hb =>
    obtain ⟨v', h', he⟩ := queueRq_effect h ht hb hp
    exact ⟨v', t, h', he⟩
  | reportZones t length stack ht =>
    obtain ⟨v', h', he⟩ := reportZones_effect h ht hp
    exact ⟨v', t, h', he⟩
  | insert t r ht =>
    obtain ⟨hnext, hd⟩ := hun r ht
    exact ⟨_, t, h.insert hp ht hnext hd, insert_effect h ht⟩
  | zonesWake t k q next prev ht hsem =>
    obtain ⟨h', he⟩ := zonesWake_effect h ht hsem (hun k ht) hp
    exact ⟨v, t, h', he⟩
  | zonesInterrupt t k q next prev ht => exact hun.elim
  | readStart t c ht hopen hatt =>
    exact ⟨v, t, h.setCall hp (by rw [ht]; rfl) rfl
      (h.drain.same (setCall_moves s t _) rfl (drained_congr rfl) rfl (fun _ hr => hr))
      (by rw [ht]; rfl) (by rw [ht]; simp), .setCall (by rw [ht]; simp) (by simp) (by rw [ht]; rfl)⟩
  | readInterrupt t c ht =>
    exact ⟨v, t, h.setCall hp (by rw [ht]; rfl) rfl
      (h.drain.same (setCall_moves s t _) rfl (drained_congr rfl) rfl (fun _ hr => hr))
      (by rw [ht]; rfl) (by rw [ht]; simp), .setCall (by rw [ht]; simp) (by simp) (by rw [ht]; rfl)⟩
  | readTake t c scratch ht htake =>
    obtain ⟨v', h', he⟩ := readTake_effect h ht htake hp
    exact ⟨v', t, h', he⟩
  | readSend t c r sent ht =>
    obtain ⟨v', h', he⟩ := readSend_effect h ht hp
    exact ⟨v', t, h', he⟩
  | writeStart t c id reply fuel ht hopen hatt hstart =>
    obtain ⟨v', h', he⟩ := writeStart_effect h ht hopen hstart hp
    exact ⟨v', t, h', he⟩
  | writeEnd t c r reply fault scratch ht =>
    obtain ⟨v', h', he⟩ := writeEnd_effect h ht hp
    exact ⟨v', t, h', he⟩
  | release t c ht hopen =>
    obtain ⟨h', he⟩ := release_effect h ht hopen hp
    exact ⟨v, t, h', he⟩
  | relNext t c n ht =>
    obtain ⟨v', h', he⟩ := relNext_effect h ht hp
    exact ⟨v', t, h', he⟩
  | relOver t c ht =>
    exact ⟨v, t, h.relOver hp ht, .still rfl (by rw [ht]; simp) (by simp) (fun _ hc => hc) (fun _ _ => rfl)
      (fun _ _ => rfl) (Nat.le_refl _) rfl rfl rfl rfl rfl rfl (fun _ => Iff.rfl) (fun _ hr => hr)
      (.done c ht (Function.update_self ..) rfl rfl)⟩
  | relEnd t c r ht =>
    obtain ⟨h', he⟩ := relEnd_effect h ht hp
    exact ⟨_, t, h', he⟩
  | relUnref t c ht =>
    obtain ⟨x, hx, hcall, hop, hreq, hnext, hcalls, halive, hsem, hret, hacc, hended⟩ := relUnref_frame s t c
    have hxq : ∀ r, x ≠ .queueing r := by rcases hx with rfl | rfl <;> simp
    exact ⟨v, t, h.relUnref hp ht, .still hcall (by rw [ht]; simp) hxq (fun c' hc => by rw [hop]; exact hc)
      (fun r _ => by rw [hreq]) (fun k _ => by rw [hreq])
      (Nat.le_of_eq hnext.symm) hcalls halive hsem hret hacc hended (fun _ => Iff.rfl) (fun _ hr => hr)
      (.none (by rw [ht]; rfl) (fun _ _ => rfl))⟩
  | remUnlink t ht => exact ⟨v, t, h.remUnlink hp ht, .setCall (by rw [ht]; simp) (by simp) (by rw [ht]; rfl)⟩
  | remNext t n ht => exact ⟨v, t, h.remNext hp ht, .setCall (by rw [ht]; simp) (by simp) (by rw [ht]; rfl)⟩
  | remOver t ht =>
    exact ⟨v, t, h.remMove hp (by rw [ht]; rfl) (setCall_moves s t _) (.inl rfl) rfl rfl rfl rfl rfl rfl rfl rfl,
      .setCall (by rw [ht]; simp) (by simp) (by rw [ht]; rfl)⟩
  | remEnd t r ht hend =>
    cases r with
    | slot p =>
      obtain ⟨v', h', he⟩ := remEnd_effect h ht hend hp
      exact ⟨v', t, h', he⟩
    | zones k => exact absurd ht (hun k)
  | remDel t ht =>
    exact ⟨v, t, h.remMove hp (by rw [ht]; rfl) (x := .removed) ⟨rfl, rfl, rfl, rfl, rfl⟩
      (.inr (.inl rfl)) rfl rfl rfl rfl rfl rfl rfl rfl, .still rfl (by rw [ht]; simp) (by simp) (fun _ hc => hc)
      (fun _ _ => rfl) (fun _ _ => rfl) (Nat.le_refl _) rfl rfl rfl rfl rfl rfl
        (fun _ => Iff.rfl) (fun _ hr => hr) (.none (by rw [ht]; rfl) (fun _ _ => rfl))⟩
  | finish t ht =>
    exact ⟨v, t, h.remMove hp (by rw [ht]; rfl) (setCall_moves s t _) (.inr (.inr rfl)) rfl rfl rfl rfl rfl rfl rfl rfl,
      .setCall (by rw [ht]; simp) (by simp) (by rw [ht]; rfl)⟩

theorem tame_step {act : Act} (h : Sound sema s v) (hun : Unhurried s act) (hs : step sema s act = some s')
    (hw : s.wild = false) : s'.wild = false := by
  have hlive : ∀ {t : Tid} {r : Ref}, (s.call t).holds = some r → RefOk sema s r := fun {t r} hh =>
    h.books.live r (by rw [(h.books.held r t).2 hh]; simp)
  cases step_cases hs with
  | queueRq t p op length scratch ht hb =>
    unfold State.queueRq
    dsimp only
    split <;> exact hw
  | insert t r ht => cases r <;> exact hw
  | readTake t c scratch ht htake =>
    obtain ⟨r, u, -, -, rfl⟩ := readTake_cases htake
    exact hw
  | readSend t c r sent ht =>
    unfold State.readSend
    split
    · exact hw
    · exact (onRequestEnd_ends (hlive (t := t) (by rw [ht]; rfl)) _ _ _ _).wild.trans hw
  | writeStart t c id reply fuel ht hopen hatt hstart =>
    obtain rfl | ⟨r, -, rfl⟩ := writeStart_cases hstart <;> exact hw
  | writeEnd t c r reply fault scratch ht =>
    have hr := hlive (t := t) (r := r) (by rw [ht]; rfl)
    obtain ⟨field, result, u, -, heq⟩ := writeEnd_eq (t := t) hr c reply fault scratch
    rw [heq]
    exact (onRequestEnd_ends hr _ _ _ _).wild.trans hw
  | relEnd t c r ht => exact (onRequestEnd_ends (hlive (t := t) (by rw [ht]; rfl)) _ _ _ _).wild.trans hw
  | relUnref t c ht =>
    unfold State.relUnref
    dsimp only
    split
    · split <;> exact hw
    · exact hw
  | remEnd t r ht hend =>
    cases r with
    | slot p => cases hend; exact hw
    | zones k => exact absurd ht (hun k)
  | _ => exact hw

end Bius.Teardown
