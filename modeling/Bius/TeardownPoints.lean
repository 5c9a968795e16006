import Bius.Teardown

/- Where the threads are while connections are closed and the device is removed: nobody
   uses a connection that has been released, one thread at most releases it, and the
   device is removed by one thread, when no connection is attached to it any more. -/
namespace Bius.Teardown

open Dlist

/-- The request a thread has taken from everybody else. -/
def Point.holds : Point → Option Ref
  | .queueing r | .readTaken _ r | .replied _ r _ | .relAt _ (.req r) => some r
  | _ => none

/-- The connection whose waiting requests a thread is ending. -/
def Point.loops : Point → Option Nat
  | .relNext c _ | .relAt c _ => some c
  | _ => none

/-- The connection a thread releases. -/
def Point.closes : Point → Option Nat
  | .relNext c _ | .relAt c _ | .relUnref c => some c
  | _ => none

/-- The thread is in `remove_block_device`. -/
def Point.removes : Point → Bool
  | .remUnlink | .remNext _ | .remAt _ | .remDel | .removed => true
  | _ => false

theorem Point.closes_of_loops {x : Point} {c : Nat} (h : x.loops = some c) : x.closes = some c := by
  cases x with
  | relNext c' n => exact h
  | relAt c' n => exact h
  | _ => cases h

/-- In `remove_block_device` a thread neither releases nor holds anything. -/
theorem Point.of_removes {x : Point} (h : x.removes = true) : x.loops = none ∧ x.holds = none ∧
    ∀ r, x ≠ .queueing r := by
  cases x with
  | remUnlink => exact ⟨rfl, rfl, fun r => by simp⟩
  | remNext n => exact ⟨rfl, rfl, fun r => by simp⟩
  | remAt n => exact ⟨rfl, rfl, fun r => by simp⟩
  | remDel => exact ⟨rfl, rfl, fun r => by simp⟩
  | removed => exact ⟨rfl, rfl, fun r => by simp⟩
  | _ => cases h

structure Points (s : State) : Prop where
  uses : ∀ t c, (s.call t).uses = some c → s.opened c = true ∧ s.attached c = true
  closes : ∀ t c, (s.call t).closes = some c → s.opened c = false
  closes_inj : ∀ t u c, (s.call t).closes = some c → (s.call u).closes = some c → t = u
  removes : ∀ t, (s.call t).removes = true → s.removing = true
  removes_inj : ∀ t u, (s.call t).removes = true → (s.call u).removes = true → t = u
  conns : ∃ l : List Nat, l.Nodup ∧ (∀ c, c ∈ l ↔ s.attached c = true) ∧ s.numConnection = l.length
  removing : s.removing = true → ∀ c, s.attached c = false

theorem Points.init : Points .init :=
  ⟨fun _ _ h => (by cases h), fun _ _ h => (by cases h), fun _ _ _ h => (by cases h), fun _ h => (by cases h),
    fun _ _ h => (by cases h), ⟨[], List.nodup_nil, fun c => by simp [State.init], rfl⟩, fun h => (by cases h)⟩

/-- A step that moves one thread and keeps the connections. -/
structure Moves (s s' : State) (t : Tid) (x : Point) : Prop where
  call : s'.call = Function.update s.call t x
  opened : s'.opened = s.opened
  attached : s'.attached = s.attached
  num : s'.numConnection = s.numConnection
  removing : s'.removing = s.removing

theorem Moves.at {s s' : State} {t : Tid} {x : Point} (h : Moves s s' t x) (u : Tid) :
    s'.call u = if u = t then x else s.call u := by
  rw [h.call, Function.update_apply]

/-- The thread goes on with what it uses, closes and removes. -/
theorem Points.moves {s s' : State} (h : Points s) {t : Tid} {x : Point} (hm : Moves s s' t x)
    (huses : ∀ c, x.uses = some c → s.opened c = true ∧ s.attached c = true)
    (hcloses : ∀ c, x.closes = some c → (s.call t).closes = some c)
    (hremoves : x.removes = true → (s.call t).removes = true) : Points s' := by
  have hcl : ∀ u c, (s'.call u).closes = some c → (s.call u).closes = some c := by
    intro u c hu
    rw [hm.at] at hu
    split at hu
    · next heq => subst heq; exact hcloses c hu
    · exact hu
  have hrm : ∀ u, (s'.call u).removes = true → (s.call u).removes = true := by
    intro u hu
    rw [hm.at] at hu
    split at hu
    · next heq => subst heq; exact hremoves hu
    · exact hu
  refine ⟨fun u c hu => ?_, fun u c hu => ?_, fun u w c hu hw => h.closes_inj u w c (hcl u c hu) (hcl w c hw),
    fun u hu => ?_, fun u w hu hw => h.removes_inj u w (hrm u hu) (hrm w hw), ?_, fun hr c => ?_⟩
  · rw [hm.opened, hm.attached]
    rw [hm.at] at hu
    split at hu
    · exact huses c hu
    · exact h.uses u c hu
  · rw [hm.opened]; exact h.closes u c (hcl u c hu)
  · rw [hm.removing]; exact h.removes u (hrm u hu)
  · rw [hm.attached, hm.num]; exact h.conns
  · rw [hm.attached]; exact h.removing (hm.removing ▸ hr) c

/-! ## What the steps move -/

section
variable (s : State)

theorem setCall_moves (t : Tid) (x : Point) : Moves s (s.setCall t x) t x := ⟨rfl, rfl, rfl, rfl, rfl⟩

theorem onRequestEnd_frame (r : Ref) (who : EndedBy) (field : Field) (result : Int) :
    let s' := s.onRequestEnd r who field result
    s'.call = s.call ∧ s'.opened = s.opened ∧ s'.attached = s.attached ∧ s'.numConnection = s.numConnection ∧
      s'.removing = s.removing ∧ s'.links = s.links ∧ s'.req = s.req ∧ s'.alive = s.alive ∧
        s'.accepted = s.accepted ∧
      s'.zonesCalls = s.zonesCalls ∧ s'.nextSerial = s.nextSerial ∧ s'.returned = s.returned ∧
      s'.ended = s.ended ++ [⟨r, (s.req r).serial, who, field, result, (s.req r).union⟩] := by
  unfold State.onRequestEnd
  dsimp only
  split <;> exact ⟨rfl, rfl, rfl, rfl, rfl, rfl, rfl, rfl, rfl, rfl, rfl, rfl, rfl⟩

theorem onRequestEnd_moves (t : Tid) (x : Point) (r : Ref) (who : EndedBy) (field : Field) (result : Int) :
    Moves s ((s.onRequestEnd r who field result).setCall t x) t x := by
  obtain ⟨hcall, hop, hat, hnum, hrem, -⟩ := onRequestEnd_frame s r who field result
  exact ⟨by simp [State.setCall, hcall], hop, hat, hnum, hrem⟩

theorem endBlkRequest_moves (t : Tid) (x : Point) (r : Ref) (who : EndedBy) (result : Int) :
    Moves s ((s.endBlkRequest r who result).setCall t x) t x := by
  have := onRequestEnd_moves (s.setReq r { s.req r with union := (s.req r).union.setBlkResult result }) t x r who
      .blkResult result
  exact ⟨this.call, this.opened, this.attached, this.num, this.removing⟩

theorem endRequestInt_moves (t : Tid) (x : Point) (r : Ref) (who : EndedBy) (result : Int) :
    Moves s ((s.endRequestInt r who result).setCall t x) t x := by
  have := onRequestEnd_moves (s.setReq r { s.req r with union := (s.req r).union.setIntResult result }) t x r who
      .intResult result
  exact ⟨this.call, this.opened, this.attached, this.num, this.removing⟩

variable {s}

theorem queueRq_moves {t : Tid} (ht : s.call t = .idle) (p op length : Nat) (scratch : Union) :
    Moves s (s.queueRq t p op length scratch) t (if toBiusRequest op = .invalidOp then .idle
      else .queueing (.slot p)) := by
  unfold State.queueRq
  dsimp only
  split
  · refine ⟨?_, rfl, rfl, rfl, rfl⟩
    rw [← ht, Function.update_eq_self]
    rfl
  · exact ⟨rfl, rfl, rfl, rfl, rfl⟩

theorem reportZones_moves (sema : Nat → Nat → UInt8) (t : Tid) (length : Nat) (stack : Union) :
    Moves s (s.reportZones sema t length stack) t (.queueing (.zones s.zonesCalls)) := ⟨rfl, rfl, rfl, rfl, rfl⟩

/-- Where a thread goes on after it has added its request. -/
def Ref.inserted : Ref → Point
  | .slot _ => .idle
  | .zones k => .zonesWait k

theorem insert_moves (t : Tid) (r : Ref) : Moves s (s.insert t r) t r.inserted := by
  cases r <;> exact ⟨rfl, rfl, rfl, rfl, rfl⟩

theorem zonesReturn_moves (t : Tid) (k : Nat) (q : RawRequest) (next prev : Node) :
    Moves s (s.zonesReturn t k q next prev) t .idle := ⟨rfl, rfl, rfl, rfl, rfl⟩

theorem readTake_cases {t : Tid} {c : Nat} {scratch : Union} {s' : State} (h : s.readTake t c scratch = some s') :
    ∃ r u, s.links.next .pending = .req r ∧
      (u = (s.req r).union ∨ requestMayHaveData (s.req r).type = true ∧ u = (s.req r).union.scratch scratch) ∧
      s' = ({ s with
        links := s.links.del (.req r) .poison
        req := Function.update s.req r { s.req r with union := u } }).setCall t (.readTaken c r) := by
  unfold State.readTake at h
  split at h
  · next r hr =>
    dsimp only at h
    split at h
    · next hdata =>
      cases h
      exact ⟨r, _, hr, .inr ⟨(Bool.and_eq_true _ _ ▸ hdata).1, rfl⟩, rfl⟩
    · cases h
      refine ⟨r, _, hr, .inl rfl, ?_⟩
      rw [show { s.req r with union := (s.req r).union } = s.req r from rfl, Function.update_eq_self]
  · cases h

theorem readSend_moves (t : Tid) (c : Nat) (r : Ref) (sent : Bool) : Moves s (s.readSend t c r sent) t .idle := by
  unfold State.readSend
  split
  · exact ⟨rfl, rfl, rfl, rfl, rfl⟩
  · exact endBlkRequest_moves s t .idle r (.send c) blkStsIoerr

theorem writeStart_cases {t : Tid} {c id : Nat} {reply : Int} {fuel : Nat} {s' : State}
    (h : s.writeStart t c id reply fuel = some s') :
    s' = s ∨ ∃ r, s.getRequestById (.waiting c) id fuel (s.links.next (.waiting c)) = some (some r) ∧
      s' = { s with links := s.links.del (.req r) .poison }.setCall t (.replied c r reply) := by
  unfold State.writeStart at h
  rw [Option.map_eq_some_iff] at h
  obtain ⟨found, hfound, h⟩ := h
  cases found with
  | none => exact .inl h.symm
  | some r => exact .inr ⟨r, hfound, h.symm⟩

theorem writeEnd_moves (t : Tid) (c : Nat) (r : Ref) (reply : Int) (fault : Bool) (scratch : Union) :
    Moves s (s.writeEnd t c r reply fault scratch) t .idle := by
  unfold State.writeEnd
  dsimp only
  split
  · split
    · have := endBlkRequest_moves (s.setReq r { s.req r with union := (s.req r).union.scratch scratch }) t .idle r
          (.reply c)
        (if fault && decide ((s.req r).type = .read) && decide (reply = blkStsOk) then blkStsIoerr else reply)
      exact ⟨this.call, this.opened, this.attached, this.num, this.removing⟩
    · exact endBlkRequest_moves s t .idle r (.reply c) _
  · split
    · exact endRequestInt_moves s t .idle r (.reply c) reply
    · cases r with
      | slot p => exact endRequestInt_moves s t .idle (.slot p) (.reply c) _
      | zones k =>
        have := endRequestInt_moves { s with stale := s.stale || !s.alive k } t .idle (.zones k) (.reply c)
          (if fault then -eINVAL else reply)
        exact ⟨this.call, this.opened, this.attached, this.num, this.removing⟩

end

/-! ## Every step -/

theorem points_relUnref {s : State} (h : Points s) {t : Tid} {c : Nat} (ht : s.call t = .relUnref c) :
    Points (s.relUnref t c) := by
  have hclosed := h.closes t c (by rw [ht]; rfl)
  unfold State.relUnref
  by_cases hatt : s.attached c = true
  · rw [if_pos hatt]
    -- nobody uses `c`, and the device is not being removed yet
    have huses : ∀ u c', (s.call u).uses = some c' → s.opened c' = true ∧
        Function.update s.attached c false c' = true := by
      intro u c' hu
      obtain ⟨h₁, h₂⟩ := h.uses u c' hu
      have hne : c' ≠ c := fun heq => by rw [heq, hclosed] at h₁; cases h₁
      exact ⟨h₁, by rw [Function.update_of_ne hne]; exact h₂⟩
    have hidle : ∀ u, (s.call u).removes = false := by
      intro u
      cases hu : (s.call u).removes with
      | false => rfl
      | true =>
        rw [h.removing (h.removes u hu) c] at hatt
        cases hatt
    obtain ⟨l, hnd, hmem, hlen⟩ := h.conns
    have hconns : ∃ l : List Nat, l.Nodup ∧ (∀ c', c' ∈ l ↔ Function.update s.attached c false c' = true) ∧
        s.numConnection - 1 = l.length := by
      refine ⟨l.erase c, hnd.erase c, fun c' => ?_, ?_⟩
      · rw [hnd.mem_erase_iff, hmem, Function.update_apply]
        by_cases hc : c' = c <;> simp [hc]
      · rw [List.length_erase_of_mem ((hmem c).2 hatt), hlen]
    -- wherever the thread goes on, provided it closes and removes nothing
    have hrest : ∀ x : Point, x.uses = none → x.closes = none → ∀ removing : Bool,
        (removing = true → ∀ c', Function.update s.attached c false c' = false) →
        (x.removes = true → removing = true) →
        Points (State.setCall { s with
          attached := Function.update s.attached c false, numConnection := s.numConnection - 1, removing } t x) := by
      intro x hxu hxc removing hrem hxr
      have hat : ∀ u, Function.update s.call t x u = if u = t then x
          else s.call u := fun u => by rw [Function.update_apply]
      refine ⟨fun u c' hu => ?_, fun u c' hu => ?_, fun u w c' hu hw => ?_, fun u hu => ?_, fun u w hu hw => ?_,
        hconns, hrem⟩
      · simp only [State.setCall, hat] at hu
        split at hu
        · rw [hxu] at hu; cases hu
        · exact huses u c' hu
      · simp only [State.setCall, hat] at hu
        split at hu
        · rw [hxc] at hu; cases hu
        · exact h.closes u c' hu
      · simp only [State.setCall, hat] at hu hw
        split at hu
        · rw [hxc] at hu; cases hu
        · split at hw
          · rw [hxc] at hw; cases hw
          · exact h.closes_inj u w c' hu hw
      · simp only [State.setCall, hat] at hu
        split at hu
        · exact hxr hu
        · rw [hidle u] at hu; cases hu
      · simp only [State.setCall, hat] at hu hw
        split at hu <;> split at hw
        · next hut hwt => rw [hut, hwt]
        · rw [hidle w] at hw; cases hw
        · rw [hidle u] at hu; cases hu
        · rw [hidle u] at hu; cases hu
    dsimp only
    split
    · next hzero =>
      refine hrest .remUnlink rfl rfl true (fun _ c' => ?_) (fun _ => rfl)
      obtain ⟨l', -, hmem', hlen'⟩ := hconns
      have hnil : l' = [] := List.length_eq_zero_iff.1 (hlen'.symm.trans hzero)
      have := hmem' c'
      rw [hnil] at this
      simpa using this
    · have hnot : s.removing = false := by
        cases hr : s.removing with
        | false => rfl
        | true => rw [h.removing hr c] at hatt; cases hatt
      have := hrest .idle rfl rfl s.removing (fun hr => by rw [hnot] at hr; cases hr) (fun hr => by cases hr)
      exact this
  · rw [if_neg hatt]
    exact h.moves (setCall_moves s t _) (fun c' hc => by cases hc) (fun c' hc => by cases hc) (fun hc => by cases hc)

theorem points_step {sema : Nat → Nat → UInt8} {s s' : State} {act : Act} (h : Points s) (hvfs : Vfs s act)
    (hs : step sema s act = some s') : Points s' := by
  have hnone : ∀ {t : Tid} {x : Point}, Moves s s' t x → x.uses = none → x.closes = none →
      x.removes = false → Points s' :=
    fun hm hu hc hr => h.moves hm (fun c hx => by rw [hu] at hx; cases hx) (fun c hx => by rw [hc] at hx; cases hx)
      (fun hx => by rw [hr] at hx; cases hx)
  cases step_cases hs with
  | attach c hopen hatt hrem =>
    refine ⟨fun t c' hu => ?_, h.closes, h.closes_inj, h.removes, h.removes_inj, ?_, fun hr => ?_⟩
    · obtain ⟨h₁, h₂⟩ := h.uses t c' hu
      refine ⟨h₁, ?_⟩
      simp only [Function.update_apply]
      split
      · rfl
      · exact h₂
    · obtain ⟨l, hnd, hmem, hlen⟩ := h.conns
      refine ⟨c :: l, List.nodup_cons.2 ⟨fun hc => ?_, hnd⟩, fun c' => ?_, by simp [hlen]⟩
      · rw [hmem, hatt] at hc; cases hc
      · rw [List.mem_cons, hmem]
        simp only [Function.update_apply]
        by_cases hc : c' = c <;> simp [hc]
    · rw [show s.removing = true from hr] at hrem; cases hrem
  | queueRq t p op length scratch ht hb =>
    refine hnone (queueRq_moves ht p op length scratch) ?_ ?_ ?_ <;> split <;> rfl
  | reportZones t length stack ht => exact hnone (reportZones_moves sema t length stack) rfl rfl rfl
  | insert t r ht => refine hnone (insert_moves t r) ?_ ?_ ?_ <;> cases r <;> rfl
  | zonesWake t k q next prev ht hsem =>
    exact hnone (t := t) (x := .idle) ⟨rfl, rfl, rfl, rfl, rfl⟩ rfl rfl rfl
  | zonesInterrupt t k q next prev ht => exact hnone (zonesReturn_moves t k q next prev) rfl rfl rfl
  | readStart t c ht hopen hatt =>
    exact h.moves (setCall_moves s t _) (fun c' hc => by cases hc; exact ⟨hopen, hatt⟩) (fun c' hc => by cases hc)
      (fun hc => by cases hc)
  | readInterrupt t c ht => exact hnone (setCall_moves s t _) rfl rfl rfl
  | readTake t c scratch ht htake =>
    obtain ⟨r, u, -, -, rfl⟩ := readTake_cases htake
    refine h.moves (t := t) (x := .readTaken c r) ⟨rfl, rfl, rfl, rfl, rfl⟩ (fun c' hc => ?_)
      (fun c' hc => by cases hc) (fun hc => by cases hc)
    exact h.uses t c' (by rw [ht]; exact hc)
  | readSend t c r sent ht => exact hnone (readSend_moves t c r sent) rfl rfl rfl
  | writeStart t c id reply fuel ht hopen hatt hstart =>
    obtain rfl | ⟨r, -, rfl⟩ := writeStart_cases hstart
    · exact h
    · refine h.moves (t := t) (x := .replied c r reply) ⟨rfl, rfl, rfl, rfl, rfl⟩ (fun c' hc => ?_)
        (fun c' hc => by cases hc) (fun hc => by cases hc)
      cases hc
      exact ⟨hopen, hatt⟩
  | writeEnd t c r reply fault scratch ht => exact hnone (writeEnd_moves t c r reply fault scratch) rfl rfl rfl
  | release t c ht hopen =>
    have hat : ∀ u, (State.setCall { s with opened := Function.update s.opened c false } t
        (.relNext c (.waiting c))).call u =
        if u = t then .relNext c (.waiting c) else s.call u := fun u => by simp [State.setCall, Function.update_apply]
    have hclosed : ∀ u, (s.call u).closes ≠ some c := fun u hu => by rw [h.closes u c hu] at hopen; cases hopen
    refine ⟨fun u c' hu => ?_, fun u c' hu => ?_, fun u w c' hu hw => ?_, fun u hu => ?_, fun u w hu hw => ?_, h.conns,
      h.removing⟩
    · rw [hat] at hu
      split at hu
      · cases hu
      · obtain ⟨h₁, h₂⟩ := h.uses u c' hu
        refine ⟨?_, h₂⟩
        simp only [State.setCall, Function.update_apply]
        split
        · next heq => subst heq; exact absurd hu (hvfs u)
        · exact h₁
    · rw [hat] at hu
      simp only [State.setCall, Function.update_apply]
      split
      · rfl
      · split at hu
        · next hne _ => cases hu; exact absurd rfl hne
        · exact h.closes u c' hu
    · rw [hat] at hu hw
      split at hu <;> split at hw
      · next hut hwt => rw [hut, hwt]
      · cases hu; exact absurd hw (hclosed w)
      · cases hw; exact absurd hu (hclosed u)
      · exact h.closes_inj u w c' hu hw
    · rw [hat] at hu
      split at hu
      · cases hu
      · exact h.removes u hu
    · rw [hat] at hu hw
      split at hu
      · cases hu
      · split at hw
        · cases hw
        · exact h.removes_inj u w hu hw
  | relNext t c n ht =>
    exact h.moves (setCall_moves s t _) (fun c' hc => by cases hc) (fun c' hc => by rw [ht]; exact hc)
      (fun hc => by cases hc)
  | relOver t c ht =>
    exact h.moves (setCall_moves s t _) (fun c' hc => by cases hc) (fun c' hc => by rw [ht]; exact hc)
      (fun hc => by cases hc)
  | relEnd t c r ht =>
    exact h.moves (endBlkRequest_moves s t (.relNext c (.req r)) r (.release c) blkStsIoerr) (fun c' hc => by cases hc)
      (fun c' hc => by rw [ht]; exact hc) (fun hc => by cases hc)
  | relUnref t c ht => exact points_relUnref h ht
  | remUnlink t ht =>
    exact h.moves (setCall_moves s t _) (fun c hc => by cases hc) (fun c hc => by cases hc) (fun _ => by rw [ht]; rfl)
  | remNext t n ht =>
    exact h.moves (setCall_moves s t _) (fun c hc => by cases hc) (fun c hc => by cases hc) (fun _ => by rw [ht]; rfl)
  | remOver t ht =>
    exact h.moves (setCall_moves s t _) (fun c hc => by cases hc) (fun c hc => by cases hc) (fun _ => by rw [ht]; rfl)
  | remEnd t r ht hend =>
    cases r with
    | slot p =>
      cases hend
      exact h.moves (t := t) (x := .remNext (.req (.slot p))) ⟨rfl, rfl, rfl, rfl, rfl⟩ (fun c hc => by cases hc)
        (fun c hc => by cases hc) (fun _ => by rw [ht]; rfl)
    | zones k =>
      cases hend
      exact ⟨h.uses, h.closes, h.closes_inj, h.removes, h.removes_inj, h.conns, h.removing⟩
  | remDel t ht =>
    exact h.moves (t := t) (x := .removed) ⟨rfl, rfl, rfl, rfl, rfl⟩ (fun c hc => by cases hc)
      (fun c hc => by cases hc) (fun _ => by rw [ht]; rfl)
  | finish t ht => exact hnone (setCall_moves s t _) rfl rfl rfl

/-! ## How a thread goes on -/

/-- From one point of a call to the next. -/
inductive Goes (s : State) : Point → Point → Prop where
  | submit (r : Ref) : Goes s .idle (.queueing r)
  | insert (r : Ref) : Goes s (.queueing r) r.inserted
  | zonesReturn (k : Nat) : Goes s (.zonesWait k) .idle
  | readStart (c : Nat) : Goes s .idle (.readWait c)
  | readInterrupt (c : Nat) : Goes s (.readWait c) .idle
  | readTake (c : Nat) (r : Ref) : Goes s (.readWait c) (.readTaken c r)
  | readSend (c : Nat) (r : Ref) : Goes s (.readTaken c r) .idle
  | writeStart (c : Nat) (r : Ref) (reply : Int) : Goes s .idle (.replied c r reply)
  | writeEnd (c : Nat) (r : Ref) (reply : Int) : Goes s (.replied c r reply) .idle
  | release (c : Nat) : s.opened c = true → Goes s .idle (.relNext c (.waiting c))
  | relNext (c : Nat) (n : Node) : Goes s (.relNext c n) (.relAt c (s.links.next n))
  | relEnd (c : Nat) (r : Ref) : Goes s (.relAt c (.req r)) (.relNext c (.req r))
  | relOver (c : Nat) : Goes s (.relAt c (.waiting c)) (.relUnref c)
  | relUnref (c : Nat) : Goes s (.relUnref c) .idle
  | remove (c : Nat) : Goes s (.relUnref c) .remUnlink
  | remUnlink : Goes s .remUnlink (.remNext .pending)
  | remNext (n : Node) : Goes s (.remNext n) (.remAt (s.links.next n))
  | remEnd (r : Ref) : Goes s (.remAt (.req r)) (.remNext (.req r))
  | remOver : Goes s (.remAt .pending) .remDel
  | remDel : Goes s .remDel .removed
  | finish : Goes s .removed .idle

/-- Only the connections change when a connection is given up. -/
theorem relUnref_frame (s : State) (t : Tid) (c : Nat) : ∃ x : Point, (x = .remUnlink ∨ x = .idle) ∧
    (s.relUnref t c).call = Function.update s.call t x ∧ (s.relUnref t c).opened = s.opened ∧
    (s.relUnref t c).req = s.req ∧
    (s.relUnref t c).nextSerial = s.nextSerial ∧ (s.relUnref t c).zonesCalls = s.zonesCalls ∧
    (s.relUnref t c).alive = s.alive ∧ (s.relUnref t c).sem = s.sem ∧
    (s.relUnref t c).returned = s.returned ∧ (s.relUnref t c).accepted = s.accepted ∧
    (s.relUnref t c).ended = s.ended := by
  unfold State.relUnref
  dsimp only
  split
  · split
    · exact ⟨.remUnlink, .inl rfl, rfl, rfl, rfl, rfl, rfl, rfl, rfl, rfl, rfl, rfl⟩
    · exact ⟨.idle, .inr rfl, rfl, rfl, rfl, rfl, rfl, rfl, rfl, rfl, rfl, rfl⟩
  · exact ⟨.idle, .inr rfl, rfl, rfl, rfl, rfl, rfl, rfl, rfl, rfl, rfl, rfl⟩

/-- The thread that moves. -/
def Act.thread : Act → Option Tid
  | .attach _ => none
  | .queueRq t _ _ _ _ | .reportZones t _ _ | .insert t | .zonesWake t _ _ _ | .zonesInterrupt t _ _ _ | .readStart t _
  | .readInterrupt t | .readTake t _ | .readSend t _ | .writeStart t _ _ _ _ | .writeEnd t _ _ | .release t _ | .relNext t
  | .relEnd t | .relUnref t | .remUnlink t | .remNext t | .remEnd t | .remDel t | .finish t => some t

theorem step_goes {sema : Nat → Nat → UInt8} {s s' : State} {act : Act} (hs : step sema s act = some s') :
    s'.call = s.call ∨ ∃ t x, act.thread = some t ∧ s'.call = Function.update s.call t x ∧
      Goes s (s.call t) x := by
  cases step_cases hs with
  | attach c hopen hatt hrem => exact .inl rfl
  | queueRq t p op length scratch ht hb =>
    have hcall := (queueRq_moves ht p op length scratch).call
    split at hcall
    · exact .inl (hcall.trans (by rw [← ht, Function.update_eq_self]))
    · exact .inr ⟨t, _, rfl, hcall, by rw [ht]; exact .submit _⟩
  | reportZones t length stack ht => exact .inr ⟨t, _, rfl, rfl, by rw [ht]; exact .submit _⟩
  | insert t r ht => exact .inr ⟨t, _, rfl, (insert_moves t r).call, by rw [ht]; exact .insert r⟩
  | zonesWake t k q next prev ht hsem => exact .inr ⟨t, _, rfl, rfl, by rw [ht]; exact .zonesReturn k⟩
  | zonesInterrupt t k q next prev ht => exact .inr ⟨t, _, rfl, rfl, by rw [ht]; exact .zonesReturn k⟩
  | readStart t c ht hopen hatt => exact .inr ⟨t, _, rfl, rfl, by rw [ht]; exact .readStart c⟩
  | readInterrupt t c ht => exact .inr ⟨t, _, rfl, rfl, by rw [ht]; exact .readInterrupt c⟩
  | readTake t c scratch ht htake =>
    obtain ⟨r, u, -, -, rfl⟩ := readTake_cases htake
    exact .inr ⟨t, _, rfl, rfl, by rw [ht]; exact .readTake c r⟩
  | readSend t c r sent ht => exact .inr ⟨t, _, rfl, (readSend_moves t c r sent).call, by rw [ht]; exact .readSend c r⟩
  | writeStart t c id reply fuel ht hopen hatt hstart =>
    obtain rfl | ⟨r, -, rfl⟩ := writeStart_cases hstart
    · exact .inl rfl
    · exact .inr ⟨t, _, rfl, rfl, by rw [ht]; exact .writeStart c r reply⟩
  | writeEnd t c r reply fault scratch ht =>
    exact .inr ⟨t, _, rfl, (writeEnd_moves t c r reply fault scratch).call, by rw [ht]; exact .writeEnd c r reply⟩
  | release t c ht hopen => exact .inr ⟨t, _, rfl, rfl, by rw [ht]; exact .release c hopen⟩
  | relNext t c n ht => exact .inr ⟨t, _, rfl, rfl, by rw [ht]; exact .relNext c n⟩
  | relOver t c ht => exact .inr ⟨t, _, rfl, rfl, by rw [ht]; exact .relOver c⟩
  | relEnd t c r ht =>
    exact .inr ⟨t, _, rfl, (endBlkRequest_moves s t (.relNext c (.req r)) r (.release c) blkStsIoerr).call,
      by rw [ht]; exact .relEnd c r⟩
  | relUnref t c ht =>
    obtain ⟨x, hx, hcall, -⟩ := relUnref_frame s t c
    refine .inr ⟨t, x, rfl, hcall, ?_⟩
    rw [ht]
    rcases hx with rfl | rfl
    · exact .remove c
    · exact .relUnref c
  | remUnlink t ht => exact .inr ⟨t, _, rfl, rfl, by rw [ht]; exact .remUnlink⟩
  | remNext t n ht => exact .inr ⟨t, _, rfl, rfl, by rw [ht]; exact .remNext n⟩
  | remOver t ht => exact .inr ⟨t, _, rfl, rfl, by rw [ht]; exact .remOver⟩
  | remEnd t r ht hend =>
    cases r with
    | slot p =>
      cases hend
      exact .inr ⟨t, _, rfl, rfl, by rw [ht]; exact .remEnd (.slot p)⟩
    | zones k =>
      cases hend
      exact .inl rfl
  | remDel t ht => exact .inr ⟨t, _, rfl, rfl, by rw [ht]; exact .remDel⟩
  | finish t ht => exact .inr ⟨t, _, rfl, rfl, by rw [ht]; exact .finish⟩

theorem step_call {sema : Nat → Nat → UInt8} {s s' : State} {act : Act} (hs : step sema s act = some s') (u : Tid) :
    s'.call u = s.call u ∨ Goes s (s.call u) (s'.call u) := by
  rcases step_goes hs with hcall | ⟨t, x, -, hcall, hg⟩
  · exact .inl (by rw [hcall])
  · rw [hcall, Function.update_apply]
    split
    · next heq => subst heq; exact .inr hg
    · exact .inl rfl

theorem step_other {sema : Nat → Nat → UInt8} {s s' : State} {act : Act} (hs : step sema s act = some s') {u : Tid}
    (hu : act.thread ≠ some u) : s'.call u = s.call u := by
  rcases step_goes hs with hcall | ⟨t, x, hact, hcall, -⟩
  · rw [hcall]
  · have hne : u ≠ t := fun heq => hu (hact.trans (congrArg some heq.symm))
    rw [hcall, Function.update_of_ne hne]

end Bius.Teardown
