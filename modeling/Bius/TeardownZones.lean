import Bius.TeardownLedger

/- The requests of `bius_report_zones` while connections are closed. The request is a local
   variable, so nobody may come back to it after the call has returned (`Detached`), and
   the call reads `int_result`, so whoever ends the request has to write that arm of the
   union and leave the semaphore in the other bytes of it alone (`EndedRight`). Both hold
   when the wait is not interrupted and no request of this kind is ended by the paths that
   only know block requests: a failed send, a closed connection, a removed device
   (`zones_detached`, `ended_right`). -/
namespace Bius.Teardown

open Dlist Machine

variable {sema : Nat → Nat → UInt8} {s s' : State} {v v' : View} {t u : Tid} {k : Nat} {act : Act}

/-! ## After the call has returned -/

/-- The request of call `k` is on no list, and nobody holds it. A connection that is being
    released is freed when its loop is over; of its list count the requests that lie
    before the loop, and those that the loop has left behind. -/
structure Detached (s : State) (k : Nat) : Prop where
  pending : ∃ xs : List Ref, Ring s.links .pending (xs.map .req) ∧ .zones k ∉ xs
  waiting : ∀ c, s.opened c = true → ∃ xs : List Ref, Ring s.links (.waiting c) (xs.map .req) ∧ .zones k ∉ xs
  before : ∀ c n, s.Cursor c n → ∃ xs : List Ref, Path s.links.next n (xs.map .req) (.waiting c) ∧ .zones k ∉ xs
  behind : ∀ e ∈ s.ended, e.ref = .zones k → ∀ c, e.who ≠ .release c
  held : ∀ t, (s.call t).holds ≠ some (.zones k)

/-- Every call that has returned has left nothing behind, and nobody has copied zones into
    the buffer of such a call, or raised its semaphore. -/
structure ZonesDetached (s : State) : Prop where
  detached : ∀ k, k < s.zonesCalls → s.alive k = false → Detached s k
  untouched : s.stale = false

/-- No loop of `bius_dev_release` comes to a request of `bius_report_zones`. -/
def KeepsZones (s : State) : Act → Prop
  | .relEnd t => ∀ c k, s.call t ≠ .relAt c (.req (.zones k))
  | _ => True

/-- No request of `bius_report_zones` is ended because it could not be sent or because its
    connection was closed, and `remove_block_device` finds nothing to end. -/
def OwnArm (s : State) : Act → Prop
  | .readSend t sent => ∀ c k, s.call t = .readTaken c (.zones k) → sent = true
  | .relEnd t => ∀ c k, s.call t ≠ .relAt c (.req (.zones k))
  | .remEnd t => ∀ r, s.call t ≠ .remAt (.req r)
  | _ => True

/-- What such a loop ends are block requests. -/
def BlkReleased (s : State) : Prop := ∀ e ∈ s.ended, ∀ c, e.who = .release c → ∀ k, e.ref ≠ .zones k

theorem blkReleased_step (h : BlkReleased s) (hk : KeepsZones s act) (he : Effect s s' v v' t act) : BlkReleased s' := by
  cases he.change with
  | keep _ _ _ hended => unfold BlkReleased; rw [hended]; exact h
  | submit _ _ _ _ _ _ _ _ hended => unfold BlkReleased; rw [hended]; exact h
  | insert _ _ _ _ _ hended => unfold BlkReleased; rw [hended]; exact h
  | ended r e hby _ _ _ _ _ hended =>
    intro e' hmem c hwho k href
    rw [hended, List.mem_append, List.mem_singleton] at hmem
    rcases hmem with hmem | rfl
    · exact h e' hmem c hwho k href
    · cases hby with
      | release c' hcall =>
        cases href
        exact hk c' k hcall
      | _ => cases hwho

/-- **A report-zones request does not outlive its owner**, in any run in which nobody is
    in a hurry and no connection is closed while such a request waits on it. -/
theorem zones_detached (h : Reach (step sema) (fun s act => Calm s act ∧ KeepsZones s act) .init s) :
    ZonesDetached s := by
  obtain ⟨v, ⟨hsound, -⟩, hblk⟩ : ∃ v, Standing sema s v ∧ BlkReleased s := by
    refine h.inv (I := fun s => ∃ v, Standing sema s v ∧ BlkReleased s) (fun s act s' hv hc hst => ?_)
      ⟨_, ⟨sound_init, ledger_init⟩, fun e he => (by cases he)⟩
    obtain ⟨v, hv, hblk⟩ := hv
    obtain ⟨v', t, hv', he⟩ := standing_step hv hc.1 hst
    exact ⟨v', hv', blkReleased_step hblk hc.2 he⟩
  refine ⟨fun k _ hdead => ?_, hsound.fresh⟩
  have hfree : v.place (.zones k) = .free := by
    by_contra hne
    rw [(hsound.books.live _ hne).1] at hdead
    cases hdead
  have hwait : ∀ c, .zones k ∉ v.waiting c := fun c hmem => by
    rw [(hsound.books.wait_iff c _).1 hmem] at hfree
    cases hfree
  refine ⟨⟨v.pending, hsound.rings.pend, fun hmem => ?_⟩, fun c ho => ⟨_, hsound.rings.wait c ho, hwait c⟩,
    fun c n hn => ⟨_, hsound.rings.path c n hn, hwait c⟩, fun e he href c hwho => hblk e he c hwho k href,
      fun t ht => ?_⟩
  · rcases (hsound.books.pend_iff _).1 hmem with hp | ⟨p, hp, -⟩
    · rw [hfree] at hp; cases hp
    · cases hp
  · rw [(hsound.books.held _ t).2 ht] at hfree; cases hfree

/-- A call whose request is read, replied to and ended before it returns. -/
def zonesAnswered : List Act :=
  [.attach 0, .reportZones (.blk 0) 1 (fun _ => 0), .insert (.blk 0), .readStart (.user 0) 0,
    .readTake (.user 0) (fun _ => 0), .readSend (.user 0) true, .writeStart (.user 0) 0 1 0 1,
    .writeEnd (.user 0) false (fun _ => 0),
    .zonesWake (.blk 0) ⟨0, .invalidOp, 0, fun _ => 0, .blk, 0⟩ .poison .poison]

/-- A call that is killed while its request is pending; its frame is still as it was. -/
def zonesKilled : List Act :=
  [.attach 0, .reportZones (.blk 0) 1 (fun _ => 0), .insert (.blk 0),
    .zonesInterrupt (.blk 0) ⟨1, .reportZones, 1, fun _ => 0, .zones, 0⟩ .pending .pending]

theorem unhurried_zonesWake {q : RawRequest} {next prev : Node} (h : ∀ u, (s.call u).loops = none) :
    Unhurried s (.zonesWake t q next prev) := by
  intro k _ u c hu
  have := h u
  rw [hu] at this
  cases this

/-- In that run nobody is in a hurry, and only the reply ends the request. -/
theorem zonesAnswered_steps : ∃ s, Steps (step (fun _ _ => 0)) (fun s act => Calm s act ∧ KeepsZones s act ∧
    OwnArm s act) .init
    zonesAnswered s ∧ s.returned.map Prod.fst = [0] ∧ s.ended.map Ended.ref = [.zones 0] ∧ s.alive 0 = false := by
  have hplain : ∀ {s : State} {act : Act}, Vfs s act → Unhurried s act → KeepsZones s act → OwnArm s act →
      Calm s act ∧ KeepsZones s act ∧ OwnArm s act := fun h₁ h₂ h₃ h₄ => ⟨⟨h₁, h₂⟩, h₃, h₄⟩
  refine ⟨_, .cons (hplain trivial trivial trivial trivial) rfl (.cons (hplain trivial trivial trivial trivial) rfl
    (.cons (hplain trivial (unhurried_insert (r := .zones 0) (fun u hu => Function.update_of_ne hu _ _) rfl rfl)
      trivial trivial) rfl
    (.cons (hplain trivial trivial trivial trivial) rfl (.cons (hplain trivial trivial trivial trivial) rfl
    (.cons (hplain trivial trivial trivial (fun _ _ _ => rfl)) rfl (.cons (hplain trivial trivial trivial trivial) rfl
    (.cons (hplain trivial trivial trivial trivial) rfl
    (.cons (hplain trivial (unhurried_zonesWake ?_) trivial trivial) rfl (.nil _))))))))), rfl, rfl, rfl⟩
  intro u
  match u with
  | .user 0 => rfl
  | .user (n + 1) => rfl
  | .blk 0 => rfl
  | .blk (n + 1) => rfl

theorem zones_detached_answered : ∃ s, Reach (step (fun _ _ => 0)) (fun s act => Calm s act ∧ KeepsZones s act)
    .init s ∧
    s.returned.map Prod.fst = [0] ∧ s.alive 0 = false ∧ ZonesDetached s := by
  obtain ⟨s, hsteps, hret, -, halive⟩ := zonesAnswered_steps
  have hreach : Steps (step (fun _ _ => 0)) (fun s act => Calm s act ∧ KeepsZones s act) .init zonesAnswered s :=
    hsteps.mono (fun _ _ h => ⟨h.1, h.2.1⟩)
  exact ⟨s, ⟨_, hreach⟩, hret, halive, zones_detached ⟨_, hreach⟩⟩

theorem zones_left_pending : ¬ ∀ (sema : Nat → Nat → UInt8) (s : State), Reach (step sema) Vfs .init s →
    ZonesDetached s := by
  intro hall
  obtain ⟨s, hsteps, hcalls, halive, hnext⟩ : ∃ s, Steps (step (fun _ _ => 0)) Vfs .init zonesKilled s ∧
    0 < s.zonesCalls ∧
      s.alive 0 = false ∧ s.links.next .pending = .req (.zones 0) :=
    ⟨_, .cons trivial rfl (.cons trivial rfl (.cons trivial rfl (.cons trivial rfl (.nil _)))), Nat.zero_lt_one,
      rfl, rfl⟩
  obtain ⟨xs, hring, hnot⟩ := ((hall _ s ⟨_, hsteps⟩).detached 0 hcalls halive).pending
  have hpath := hring.next
  cases xs with
  | nil => cases hnext.symm.trans hpath
  | cons r xs =>
    have hr := hpath.1.symm.trans hnext
    cases hr
    exact hnot (by simp)

/-! ## The arms of the union -/

theorem setBlkResult_blkResult (g : Union) (result : Int) :
    g.setBlkResult result blkResultAt = UInt8.ofNat (blkStatus result) :=
  Function.update_self ..

theorem setIntResult_intResult (g : Union) (result : Int) : (g.setIntResult result).intResult = toInt32 result := by
  have hbyte : ∀ i, i < 4 → (g.setIntResult result (intResultAt + i)).toNat = (result % 2 ^ 32).toNat / 256 ^
      i % 256 := by
    intro i hi
    simp only [Union.setIntResult]
    rw [if_pos (by omega), Nat.add_sub_cancel_left]
    simp [byte32, UInt8.toNat_ofNat']
  have h₀ := hbyte 0 (by omega)
  have h₁ := hbyte 1 (by omega)
  have h₂ := hbyte 2 (by omega)
  have h₃ := hbyte 3 (by omega)
  simp only [Nat.pow_zero, Nat.div_one, Nat.add_zero, Nat.pow_one] at h₀ h₁ h₂ h₃
  have hsum : (g.setIntResult result intResultAt).toNat + 256 * (g.setIntResult result (intResultAt + 1)).toNat +
      256 ^ 2 * (g.setIntResult result (intResultAt + 2)).toNat + 256 ^ 3 *
        (g.setIntResult result (intResultAt + 3)).toNat =
      (result % 2 ^ 32).toNat := by
    rw [h₀, h₁, h₂, h₃]
    omega
  unfold Union.intResult
  rw [hsum]
  unfold toInt32
  omega

theorem setIntResult_sema {sem : Nat → UInt8} {g : Union} (h : SemaIntact sem g) (result : Int) :
    SemaIntact sem (g.setIntResult result) := by
  intro i hi hlt
  simp only [Union.setIntResult]
  rw [if_neg (by omega)]
  exact h i hi hlt

/-- The request was ended through the arm of the union that its owner reads: for a block
    request `blk_result` was assigned; for one of `bius_report_zones` `int_result` was, and
    the semaphore is as `sema_init` left it. -/
def Ended.Proper (sema : Nat → Nat → UInt8) (e : Ended) : Prop :=
  match e.ref with
  | .slot _ => e.field = .blkResult ∧ e.union blkResultAt = UInt8.ofNat (blkStatus e.result)
  | .zones k => e.field = .intResult ∧ e.union.intResult = toInt32 e.result ∧ SemaIntact (sema k) e.union

/-- Every request was ended that way and completed by its own function, and what
    `bius_report_zones` has returned is a result that its request was ended with. -/
structure EndedRight (sema : Nat → Nat → UInt8) (s : State) : Prop where
  proper : ∀ e ∈ s.ended, e.Proper sema
  returned : ∀ x ∈ s.returned, ∃ e ∈ s.ended, e.ref = .zones x.1 ∧ x.2 = toInt32 e.result
  own : s.wild = false

theorem Marked.proper (h : Sound sema s v) {r : Ref} (hr : v.place r ≠ .free) {who : EndedBy} {serial : Nat}
    {field : Field} {result : Int} {g : Union} (hm : Marked s r field result g) :
      Ended.Proper sema ⟨r, serial, who, field, result, g⟩ := by
  cases r with
  | slot p =>
    obtain ⟨rfl, g', rfl⟩ := hm
    exact ⟨rfl, setBlkResult_blkResult g' result⟩
  | zones k =>
    obtain ⟨rfl, rfl⟩ := hm
    exact ⟨rfl, setIntResult_intResult _ result, setIntResult_sema (h.books.live _ hr).2.2.2.2.2 result⟩

theorem EndsBy.proper (h : Sound sema s v) {r : Ref} {e : Ended} (hby : EndsBy s t r act e) (hr : v.place r ≠ .free)
    (harm : OwnArm s act) : e.Proper sema := by
  cases hby with
  | send c hcall =>
    cases r with
    | slot p => exact ⟨rfl, setBlkResult_blkResult (s.req (.slot p)).union _⟩
    | zones k => cases harm c k hcall
  | reply c reply fault scratch field result g hcall hm => exact hm.proper h hr
  | release c hcall =>
    cases r with
    | slot p => exact ⟨rfl, setBlkResult_blkResult (s.req (.slot p)).union _⟩
    | zones k => exact absurd hcall (harm c k)
  | drain hcall => exact absurd hcall (harm r)

/-! ## Who waits for what -/

/-- One thread waits for the request of a call, which is still there. -/
structure Waits (s : State) : Prop where
  alive : ∀ t k, s.call t = .zonesWait k → s.alive k = true ∧ k < s.zonesCalls
  inj : ∀ t u k, s.call t = .zonesWait k → s.call u = .zonesWait k → t = u
  apart : ∀ t u k, s.call t = .zonesWait k → s.call u ≠ .queueing (.zones k)

theorem zonesWait_from (hs : step sema s act = some s') (hu : s'.call u = .zonesWait k) :
    s.call u = .zonesWait k ∨ s.call u = .queueing (.zones k) := by
  rcases step_call hs u with heq | hg
  · exact .inl (heq ▸ hu)
  · rw [hu] at hg
    generalize s.call u = x at hg ⊢
    generalize hy : Point.zonesWait k = y at hg
    cases hg with
    | insert r =>
      cases r with
      | slot p => cases hy
      | zones k' => cases hy; exact .inr rfl
    | _ => cases hy

/-- A thread that is about to queue a request was so before, or has just made it. -/
theorem queueing_from (he : Effect s s' v v' t act) {r : Ref} (hu : s'.call u = .queueing r) :
    s.call u = .queueing r ∨ v.place r = .free ∧ ∀ k, r = .zones k → s.zonesCalls ≤ k := by
  cases he.change with
  | keep _ hq _ _ => exact .inl ((hq u r).1 hu)
  | insert _ _ _ hq _ _ => exact .inl ((hq u r).1 hu).1
  | ended _ _ _ _ _ _ hq _ _ => exact .inl ((hq u r).1 hu)
  | submit r' hfree hfresh _ ht _ _ _ _ =>
    by_cases hut : u = t
    · rw [hut, ht] at hu
      cases hu
      exact .inr ⟨hfree, hfresh⟩
    · exact .inl (he.others u hut ▸ hu)

theorem waits_step (h : Waits s) (hsound : Sound sema s v) (he : Effect s s' v v' t act) (hs : step sema s act = some s') :
    Waits s' := by
  have hheld : ∀ {u w : Tid} {r : Ref}, s.call u = .queueing r → s.call w = .queueing r → u = w := by
    intro u w r hu hw
    have h₁ := (hsound.books.held r u).2 (by rw [hu]; rfl)
    rw [(hsound.books.held r w).2 (by rw [hw]; rfl)] at h₁
    cases h₁
    rfl
  refine ⟨fun u k hu => ?_, fun u w k hu hw => ?_, fun u w k hu hw => ?_⟩
  · have hbefore : s.alive k = true ∧ k < s.zonesCalls ∧ (s.call t = .zonesWait k → u = t) := by
      rcases zonesWait_from hs hu with hold | hnew
      · exact ⟨(h.alive u k hold).1, (h.alive u k hold).2, fun ht => h.inj u t k hold ht⟩
      · have hlive := hsound.books.live (.zones k) (by rw [(hsound.books.held _ u).2 (by rw [hnew]; rfl)]; simp)
        exact ⟨hlive.1, hlive.2.2.1, fun ht => absurd hnew (h.apart t u k ht)⟩
    obtain ⟨halive, hlt, hmine⟩ := hbefore
    refine ⟨?_, Nat.lt_of_lt_of_le hlt he.calls⟩
    rcases he.alive k halive with hk | ⟨ht, ht'⟩
    · exact hk
    · rw [hmine ht, ht'] at hu; cases hu
  · rcases zonesWait_from hs hu with hu | hu <;> rcases zonesWait_from hs hw with hw | hw
    · exact h.inj u w k hu hw
    · exact absurd hw (h.apart u w k hu)
    · exact absurd hu (h.apart w u k hw)
    · exact hheld hu hw
  · rcases queueing_from he hw with hold | ⟨hfree, hfresh⟩
    · rcases zonesWait_from hs hu with hu' | hu'
      · exact h.apart u w k hu' hold
      · rw [hheld hu' hold, hw] at hu
        cases hu
    · rcases zonesWait_from hs hu with hu' | hu'
      · have := (h.alive u k hu').2
        have := hfresh k rfl
        omega
      · rw [(hsound.books.held _ u).2 (by rw [hu']; rfl)] at hfree
        cases hfree

/-! ## Whole runs -/

/-- What has been written for a call that has not returned yet. -/
structure Written (s : State) : Prop where
  waits : Waits s
  union : ∀ k, s.alive k = true → 0 < s.sem k → ∃ e ∈ s.ended, e.ref = .zones k ∧
    (s.req (.zones k)).union = e.union

theorem Effect.ended_mono (he : Effect s s' v v' t act) {e : Ended} (h : e ∈ s.ended) : e ∈ s'.ended := by
  cases he.change with
  | keep _ _ _ hended => rw [hended]; exact h
  | submit _ _ _ _ _ _ _ _ hended => rw [hended]; exact h
  | insert _ _ _ _ _ hended => rw [hended]; exact h
  | ended _ _ _ _ _ _ _ _ hended => rw [hended]; exact List.mem_append_left _ h

theorem written_step (h : Written s) (hsound : Sound sema s v) (he : Effect s s' v v' t act)
    (hs : step sema s act = some s') :
    Written s' := by
  refine ⟨waits_step h.waits hsound he hs, fun k ha hsem => ?_⟩
  rcases he.zones k ha hsem with ⟨ha, hsem, hreq⟩ | ⟨e, hended, href, hunion⟩
  · obtain ⟨e, hmem, href, hunion⟩ := h.union k ha hsem
    exact ⟨e, he.ended_mono hmem, href, by rw [hreq]; exact hunion⟩
  · exact ⟨e, by rw [hended]; simp, href, hunion⟩

theorem endedRight_step (h : EndedRight sema s) (hw : Written s) (hsound : Sound sema s v) (hc : Calm s act)
    (harm : OwnArm s act) (he : Effect s s' v v' t act) (hs : step sema s act = some s') : EndedRight sema s' := by
  refine ⟨fun e hmem => ?_, fun x hx => ?_, tame_step hsound hc.2 hs h.own⟩
  · cases he.change with
    | keep _ _ _ hended => exact h.proper e (hended ▸ hmem)
    | submit _ _ _ _ _ _ _ _ hended => exact h.proper e (hended ▸ hmem)
    | insert _ _ _ _ _ hended => exact h.proper e (hended ▸ hmem)
    | ended r e' hby hr _ _ _ _ hended =>
      rw [hended, List.mem_append, List.mem_singleton] at hmem
      rcases hmem with hmem | rfl
      · exact h.proper e hmem
      · exact hby.proper hsound hr harm
  · have hold : ∀ x ∈ s.returned, ∃ e ∈ s'.ended, e.ref = .zones x.1 ∧ x.2 = toInt32 e.result := by
      intro x hx
      obtain ⟨e, hmem, hrest⟩ := h.returned x hx
      exact ⟨e, he.ended_mono hmem, hrest⟩
    rcases he.returned with hret | ⟨k, hcall, hsem, hret⟩
    · exact hold x (hret ▸ hx)
    · rw [hret, List.mem_append, List.mem_singleton] at hx
      rcases hx with hx | rfl
      · exact hold x hx
      · obtain ⟨e, hmem, href, hunion⟩ := hw.union k (hw.waits.alive t k hcall).1 hsem
        refine ⟨e, he.ended_mono hmem, href, ?_⟩
        have hproper := h.proper e hmem
        unfold Ended.Proper at hproper
        rw [href] at hproper
        rw [hunion]
        exact hproper.2.1

/-- **Every request is ended through the arm of the union that its owner reads**, in any
    run in which nobody is in a hurry and only replies end requests of
    `bius_report_zones`, and nothing is pending when the device is removed. -/
theorem ended_right (h : Reach (step sema) (fun s act => Calm s act ∧ OwnArm s act) .init s) : EndedRight sema s := by
  obtain ⟨-, -, -, hright⟩ : ∃ v, Standing sema s v ∧ Written s ∧ EndedRight sema s := by
    refine h.inv (I := fun s => ∃ v, Standing sema s v ∧ Written s ∧ EndedRight sema s)
      (fun s act s' hv hc hst => ?_)
      ⟨_, ⟨sound_init, ledger_init⟩, ⟨⟨fun t k ht => (by cases ht), fun t u k ht => (by cases ht),
        fun t u k ht => (by cases ht)⟩, fun k ha => (by cases ha)⟩,
          ⟨fun e he => (by cases he), fun x hx => (by cases hx), rfl⟩⟩
    obtain ⟨v, hv, hw, hright⟩ := hv
    obtain ⟨v', t, hv', he⟩ := standing_step hv hc.1 hst
    exact ⟨v', hv', written_step hw hv.1 he hst, endedRight_step hright hw hv.1 hc.1 hc.2 he hst⟩
  exact hright

/-- The command of a report-zones request cannot be copied to its reader, and the call
    returns. -/
def zonesUnsent : List Act :=
  [.attach 0, .reportZones (.blk 0) 1 (fun _ => 7), .insert (.blk 0), .readStart (.user 0) 0,
    .readTake (.user 0) (fun _ => 0), .readSend (.user 0) false,
    .zonesWake (.blk 0) ⟨0, .invalidOp, 0, fun _ => 0, .blk, 0⟩ .poison .poison]

theorem ended_right_answered : ∃ s, Reach (step (fun _ _ => 0)) (fun s act => Calm s act ∧ OwnArm s act) .init s ∧
    s.returned.map Prod.fst = [0] ∧ s.ended.map Ended.ref = [.zones 0] ∧ EndedRight (fun _ _ => 0) s := by
  obtain ⟨s, hsteps, hret, hended, -⟩ := zonesAnswered_steps
  have hreach : Steps (step (fun _ _ => 0)) (fun s act => Calm s act ∧ OwnArm s act) .init zonesAnswered s :=
    hsteps.mono (fun _ _ h => ⟨h.1, h.2.2⟩)
  exact ⟨s, ⟨_, hreach⟩, hret, hended, ended_right ⟨_, hreach⟩⟩

theorem ended_through_wrong_arm : ¬ ∀ (sema : Nat → Nat → UInt8) (s : State), Reach (step sema) Vfs .init
    s → EndedRight sema s := by
  intro hall
  obtain ⟨s, e, hsteps, hmem, href, hfield⟩ : ∃ s e, Steps (step (fun _ _ => 0)) Vfs .init zonesUnsent s ∧
    e ∈ s.ended ∧
      e.ref = .zones 0 ∧ e.field = .blkResult :=
    ⟨_, _, .cons trivial rfl (.cons trivial rfl
      (.cons trivial rfl (.cons trivial rfl (.cons trivial rfl (.cons trivial rfl
      (.cons trivial rfl (.nil _))))))), List.mem_singleton_self _, rfl, rfl⟩
  have hproper := (hall _ s ⟨_, hsteps⟩).proper e hmem
  unfold Ended.Proper at hproper
  rw [href, hfield] at hproper
  exact absurd hproper.1 (by decide)

end Bius.Teardown
