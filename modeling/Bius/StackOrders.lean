import Bius.StackTurns

/- What is submitted and what becomes of it. `Stack.Accounts` compares the requests that a
   run submits with those that have been completed and those that are outstanding: none is
   lost, none is completed twice, and none is completed that was not submitted. How a
   completed request answers the order that was submitted is left open (`R`). -/
namespace Bius

/-! ## Orders -/

/-- Where the segments of a bio chain lie. -/
def chainPlaces (bios : List Bio) : List (List (Nat × Nat × Nat)) :=
  bios.map (fun b => b.vecs.map (fun v => (v.page, v.offset, v.data.length)))

/-- The bytes that such segments hold. -/
def placesSize (places : List (List (Nat × Nat × Nat))) : Nat := (places.flatMap (fun vs => vs.map (fun v => v.2.2))).sum

theorem chainPlaces_size (bios : List Bio) : placesSize (chainPlaces bios) = (chainBytes bios).length := by
  unfold placesSize chainPlaces
  induction bios with
  | nil => rfl
  | cons b bios ih =>
    have hvecs : ∀ vs : List BVec, (vs.map (fun v => v.data.length)).sum = (vs.flatMap BVec.data).length := by
      intro vs
      rw [List.length_flatMap]
    rw [List.map_cons, List.flatMap_cons, List.sum_append, ih, chainBytes_cons, List.length_append, List.map_map]
    exact congrArg (· + _) (hvecs b.vecs)

/-- What a request asks for: its range, the segments of its bio chain, and the bytes in
    them that are to be written. -/
structure Order where
  type : BiusReq
  pos : Nat
  length : Nat
  places : List (List (Nat × Nat × Nat))
  payload : List UInt8

def Rq.order (rq : Rq) : Order :=
  ⟨toBiusRequest rq.op, rq.sector * sectorSize, rq.dataLen, chainPlaces rq.bios,
    if requestIsWrite (toBiusRequest rq.op) then chainBytes rq.bios else []⟩

def BiusRequest.order (r : BiusRequest) : Order :=
  ⟨r.type, r.pos.toNat, r.length, chainPlaces r.rq, if requestIsWrite r.type then chainBytes r.rq else []⟩

def StackAct.order {α : Type} : StackAct α → Option Order
  | .block (.queueRq _ _ rq) => some rq.order
  | _ => none

/-- What a run asks for. -/
def orders {α : Type} (acts : List (StackAct α)) : List Order := acts.filterMap StackAct.order

theorem orders_cons {α : Type} (act : StackAct α) (acts : List (StackAct α)) :
    orders (act :: acts) = act.order.toList ++ orders acts := by
  unfold orders
  rw [List.filterMap_cons]
  split
  · next hnone => rw [hnone, Option.toList_none, List.nil_append]
  · next o hsome => rw [hsome, Option.toList_some, List.singleton_append]

/-- Every order has been completed, by a request that answers it, or is outstanding; once. -/
def Stack.Accounts {β : Type} (R : Order → BiusRequest → Prop) (s : Stack β) (asked : List Order) : Prop :=
  ∃ (completed : List (Order × BiusRequest)) (outstanding : List Ptr),
    completed.map Prod.snd = s.kernel.ended ∧ (∀ x ∈ completed, R x.1 x.2) ∧
      outstanding.Nodup ∧ (∀ p, p ∈ outstanding ↔ s.kernel.busy p = true) ∧
      asked.Perm (completed.map Prod.fst ++ outstanding.map (fun p => (s.kernel.req p).order))

theorem BiusRequest.Alike.order {r r' : BiusRequest} (h : r.Alike r') : r'.order = r.order := by
  unfold BiusRequest.order
  rw [h.type, h.pos, h.length, h.rq]

theorem receiveVecs_places (umem : UMem) (vs : List BVec) (addr : Nat) :
    (receiveVecs umem vs addr).1.map (fun v => (v.page, v.offset, v.data.length)) =
      vs.map (fun v => (v.page, v.offset, v.data.length)) := by
  induction vs generalizing addr with
  | nil => rfl
  | cons v vs ih =>
    have hfill : ∀ ds (hds : ds.length = v.data.length), ((v.fill ds hds).page, (v.fill ds hds).offset,
        (v.fill ds hds).data.length) = (v.page, v.offset, v.data.length) := by
      intro ds hds
      simp only [BVec.fill, hds]
    simp only [receiveVecs]
    split
    · rw [List.map_cons, List.map_cons, hfill]
    · rw [List.map_cons, List.map_cons, hfill, ih]

theorem receiveBios_places (umem : UMem) (bios : List Bio) (addr : Nat) :
    chainPlaces (receiveBios umem bios addr).1 = chainPlaces bios := by
  unfold chainPlaces
  induction bios generalizing addr with
  | nil => rfl
  | cons b bios ih =>
    simp only [receiveBios]
    split
    · simp only [List.map_cons]
      rw [receiveVecs_places, ih]
    · simp only [List.map_cons]
      rw [receiveVecs_places]

theorem receiveData_places (r : BiusRequest) (umem : UMem) (userData : Nat) :
    chainPlaces (biusReceiveData r umem userData).1.rq = chainPlaces r.rq := by
  unfold biusReceiveData
  split
  · rfl
  · split
    · rfl
    · exact receiveBios_places umem r.rq userData

theorem finished_places (r : BiusRequest) (umem : UMem) (u2k : U2k) :
    chainPlaces (r.finished umem u2k).rq = chainPlaces r.rq := by
  unfold BiusRequest.finished
  split
  · exact receiveData_places r umem u2k.userData
  · rfl

theorem initBlkRequest_order {rq : Rq} (h : rq.sector * sectorSize < 2 ^ 63) (old : BiusRequest) (id : Nat) :
    (initBlkRequest old id rq).order = rq.order := by
  have hpos : (initBlkRequest old id rq).pos.toNat = rq.sector * sectorSize := by
    show (toInt64 (rq.sector * sectorSize : Nat)).toNat = _
    unfold toInt64
    omega
  unfold BiusRequest.order Rq.order
  rw [hpos]
  rfl

section
variable {β α : Type} {R : Order → BiusRequest → Prop} {B : Backend β α} {s s' : Stack β} {asked : List Order}

theorem Stack.Accounts.init (k2u : Nat → K2u) (u2k : Nat → U2k) (b : β) : (Stack.init k2u u2k b).Accounts R [] :=
  ⟨[], [], rfl, fun x hx => (by cases hx), List.nodup_nil,
    fun p => ⟨fun hp => (by cases hp), fun hp => (by cases hp)⟩,
    List.Perm.refl []⟩

/-- A completed request answers something that was asked for. -/
theorem Stack.Accounts.answers (h : s.Accounts R asked) {r : BiusRequest} (hr : r ∈ s.kernel.ended) :
    ∃ o ∈ asked, R o r := by
  obtain ⟨completed, outstanding, hended, hR, -, -, hperm⟩ := h
  rw [← hended] at hr
  obtain ⟨⟨o, r'⟩, hx, rfl⟩ := List.mem_map.1 hr
  refine ⟨o, hperm.symm.subset (List.mem_append_left _ ?_), hR _ hx⟩
  exact List.mem_map.2 ⟨_, hx, rfl⟩

/-- Where as many requests have been completed as were asked for, none is outstanding. -/
theorem Stack.Accounts.none_outstanding (h : s.Accounts R asked) (hlen : s.kernel.ended.length = asked.length) (p : Ptr) :
    s.kernel.busy p = false := by
  obtain ⟨completed, outstanding, hended, -, -, hbusy, hperm⟩ := h
  have hcount := hperm.length_eq
  rw [← hended, List.length_map] at hlen
  rw [List.length_append, List.length_map, List.length_map, ← hlen] at hcount
  have hnil : outstanding = [] := List.eq_nil_of_length_eq_zero (by omega)
  cases hp : s.kernel.busy p with
  | false => rfl
  | true =>
    have hmem := (hbusy p).2 hp
    rw [hnil] at hmem
    cases hmem

/-! ## The steps -/

theorem Stack.Kept.order {act : StackAct α} (hk : s.Kept s') (hord : act.Orders)
    (hs : s.step ⟨false⟩ B act = some s') :
    act.order = none := by
  cases act with
  | block act =>
    cases act with
    | queueRq t p rq =>
      simp only [Stack.step] at hs
      split at hs
      · obtain ⟨hst, -, -⟩ := Stack.kernelStep_some hs
        have hbusy := hk.busy
        generalize s'.kernel = k at hst hbusy
        cases step_cases hst with
        | queueRq t p rq ht hfree =>
          have hsub : s.kernel.queueRq t p rq =
              s.kernel.submit t p (initBlkRequest (s.kernel.req p) s.kernel.newId rq) := if_neg hord
          have hp := congrFun hbusy p
          rw [hsub, hfree] at hp
          simp [Kernel.submit] at hp
      · cases hs
    | _ => rfl
  | _ => rfl

theorem Stack.Accounts.kept (h : s.Accounts R asked) (hk : s.Kept s') : s'.Accounts R asked := by
  obtain ⟨completed, outstanding, hended, hR, hnodup, hbusy, hperm⟩ := h
  refine ⟨completed, outstanding, by rw [hk.ended]; exact hended, hR, hnodup,
    fun p => by rw [hk.busy]; exact hbusy p, ?_⟩
  have hsame : outstanding.map (fun p => (s'.kernel.req p).order) = outstanding.map (fun p => (s.kernel.req p).order) :=
    List.map_congr_left (fun p _ => (hk.req p).order)
  rw [hsame]
  exact hperm

theorem Stack.Accounts.submitted (h : s.Accounts R asked) {p : Ptr} {o : Order} (hfree : s.kernel.busy p = false)
    (hreq : (s'.kernel.req p).order = o) (hothers : ∀ q, q ≠ p → s'.kernel.req q = s.kernel.req q)
    (hbusy : s'.kernel.busy = Function.update s.kernel.busy p true) (hended : s'.kernel.ended = s.kernel.ended) :
    s'.Accounts R (asked ++ [o]) := by
  obtain ⟨completed, outstanding, hcompleted, hR, hnodup, hmem, hperm⟩ := h
  have hnot : p ∉ outstanding := fun hp => by
    have hp' := (hmem p).1 hp
    rw [hfree] at hp'
    cases hp'
  refine ⟨completed, p :: outstanding, hcompleted.trans hended.symm, hR, List.nodup_cons.2 ⟨hnot, hnodup⟩,
    fun q => ?_, ?_⟩
  · rw [List.mem_cons, hbusy]
    by_cases hq : q = p
    · simp [hq]
    · simp [hq, hmem q]
  · have hsame : outstanding.map (fun q => (s'.kernel.req q).order) = outstanding.map (fun q => (s.kernel.req q).order) :=
      List.map_congr_left (fun q hq => by rw [hothers q (fun he => hnot (he ▸ hq))])
    rw [List.map_cons, hreq, hsame]
    calc List.Perm (asked ++ [o]) (o :: asked) := List.perm_append_singleton o asked
      List.Perm _ (o :: (completed.map Prod.fst ++ outstanding.map (fun q => (s.kernel.req q).order))) := hperm.cons o
      List.Perm _ (completed.map Prod.fst ++ o :: outstanding.map (fun q => (s.kernel.req q).order)) :=
        List.perm_middle.symm

theorem Stack.Accounts.ended (h : s.Accounts R asked) {p : Ptr} (hp : s.kernel.busy p = true)
    (hreq : R (s.kernel.req p).order (s'.kernel.req p)) (hothers : ∀ q, q ≠ p → s'.kernel.req q = s.kernel.req q)
    (hbusy : s'.kernel.busy = Function.update s.kernel.busy p false)
    (hended : s'.kernel.ended = s.kernel.ended ++ [s'.kernel.req p]) : s'.Accounts R asked := by
  obtain ⟨completed, outstanding, hcompleted, hR, hnodup, hmem, hperm⟩ := h
  have hin : p ∈ outstanding := (hmem p).2 hp
  refine ⟨completed ++ [((s.kernel.req p).order, s'.kernel.req p)], outstanding.erase p, ?_, fun x hx => ?_,
    hnodup.erase p, fun q => ?_, hperm.trans ?_⟩
  · rw [List.map_append, hcompleted, hended]
    rfl
  · rcases List.mem_append.1 hx with hx | hx
    · exact hR x hx
    · rw [List.mem_singleton.1 hx]
      exact hreq
  · rw [hnodup.mem_erase_iff, hbusy]
    by_cases hq : q = p
    · simp [hq]
    · simp [hq, hmem q]
  · have hsame : (outstanding.erase p).map (fun q => (s'.kernel.req q).order) =
        (outstanding.erase p).map (fun q => (s.kernel.req q).order) :=
      List.map_congr_left (fun q hq => by rw [hothers q (hnodup.mem_erase_iff.1 hq).1])
    rw [List.map_append, List.map_singleton, hsame, List.append_assoc, List.singleton_append]
    exact ((List.perm_cons_erase hin).map _).append_left _

/-- **What a step does to the accounts**, where requests are taken over as they are submitted
    and completed so that they answer their orders. -/
theorem Stack.Accounts.step (h : s.Accounts R asked) (ha : s.Agrees ⟨false⟩ B) (hB : B.Honest ⟨false⟩)
    (hblk : ∀ p, s.kernel.busy p = true → isBlkRequest (s.kernel.req p).type = true) {act : StackAct α}
    (hok : s.Admits ⟨false⟩ B act) (hord : act.Orders)
    (hsub : ∀ t p rq, act = .block (.queueRq t p rq) →
      (initBlkRequest (s.kernel.req p) s.kernel.newId rq).order = rq.order)
    (hend : ∀ c p, act = .writeEnd c → s.At c p .writing →
      R (s.kernel.req p).order ((s.kernel.req p).finished (B.umem s.proc) (s.loop c).u2k))
    (hs : s.step ⟨false⟩ B act = some s') : s'.Accounts R (asked ++ act.order.toList) := by
  have hkeep : s.Kept s' → s'.Accounts R (asked ++ act.order.toList) := by
    intro hk
    rw [hk.order hord hs, Option.toList_none, List.append_nil]
    exact h.kept hk
  have ha' := ha.step hB hok hs
  cases ha.turn ha' hblk hord hB.buffers hs with
  | quiet act hk | copying act c p n hk | entered act c p n b hk | replied c p hat hk | freed c hk | process a hk =>
    exact hkeep hk
  | submitted t p rq hfree hreq hbusy hended =>
    refine h.submitted hfree ?_ (fun q hq => ?_) hbusy hended
    · rw [hreq, Function.update_self]
      exact hsub t p rq rfl
    · rw [hreq, Function.update_of_ne hq]
  | ended c p hat hproc hreq hbusy hended =>
    rw [show asked ++ (StackAct.writeEnd c : StackAct α).order.toList = asked from List.append_nil asked]
    refine h.ended (ha.at_busy hat) ?_ (fun q hq => ?_) hbusy hended
    · rw [hreq, Function.update_self]
      exact hend c p rfl hat
    · rw [hreq, Function.update_of_ne hq]

end

end Bius
