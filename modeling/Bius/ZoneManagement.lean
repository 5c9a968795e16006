import Bius.ZoneFailures

/- Zone management that succeeds. `zone_management_iff` says when a call that returns
   `BLK_STS_OK` leaves its zone as its name says, and that it leaves the other zones
   alone, but for one that opening may close. Three calls return success for what they
   have not done: opening a zone closes another and leaves it at that, finishing drops
   the error for a conventional zone, and resetting an empty zone does not look at its
   write pointer, which a write can have moved. -/
namespace Bius

variable {δ : Type} {cfg : ZonedConfig} {s s' : Zoned δ} {zone : Nat}

/-! ## The specification -/

/-- The operations on one zone. -/
inductive ZoneOp where
  | openZone | closeZone | finishZone | resetZone
  deriving DecidableEq

/-- Its call, for the zone with the byte `offset`. -/
def ZoneOp.call (offset : Nat) : ZoneOp → ZoneCall
  | .openZone => .openZone offset
  | .closeZone => .closeZone offset
  | .finishZone => .finishZone offset
  | .resetZone => .resetZone offset

/-- What the name of the operation promises, of the zone before and after. -/
def ZoneOp.Done (z z' : Zone) : ZoneOp → Prop
  | .openZone => z'.cond = .expOpen ∧ z'.wp = z.wp
  | .closeZone => z'.cond = if z.wp = z.start then .empty else .closed
  | .finishZone => z'.cond = .full ∧ z'.wp = z'.start + z'.len
  | .resetZone => z'.cond = .empty ∧ z'.wp = z'.start

/-- The other zones keep their write pointers and their conditions, but for one that an
    operation which `closes` may close. -/
structure OthersKept (closes : Prop) (zone : Nat) (s s' : Zoned δ) : Prop where
  wp : ∀ y ≠ zone, (s'.zoneInfo y).wp = (s.zoneInfo y).wp
  cond : (∀ y ≠ zone, (s'.zoneInfo y).cond = (s.zoneInfo y).cond) ∨
    closes ∧ ∃ y ≠ zone, (s.zoneInfo y).cond = .impOpen ∧ (s'.zoneInfo y).cond = .closed ∧
      ∀ x ≠ zone, x ≠ y → (s'.zoneInfo x).cond = (s.zoneInfo x).cond

/-- The operation, run from `s`, does what it says where it returns `BLK_STS_OK`, and
    keeps the other zones. -/
structure ZoneOp.Honest (cfg : ZonedConfig) (raw : StatusOps δ) (s : Zoned δ) (offset : Nat) (op : ZoneOp) : Prop where
  done : (callWith cfg raw s (op.call offset)).2.status = blkStsOk →
    op.Done (s.zoneInfo (zoneNumber cfg offset)) ((callWith cfg raw s (op.call offset)).1.zoneInfo (zoneNumber cfg offset))
  others : OthersKept (op = .openZone) (zoneNumber cfg offset) s (callWith cfg raw s (op.call offset)).1

/-- The operation returns `BLK_STS_OK` for what it has not done. -/
def ZoneOp.Misreports (cfg : ZonedConfig) (s : Zoned δ) (zone : Nat) : ZoneOp → Prop
  | .openZone => ClosesOther cfg s zone
  | .closeZone => False
  | .finishZone => (s.zoneInfo zone).conventional = true
  | .resetZone => (s.zoneInfo zone).cond = .empty ∧ (s.zoneInfo zone).wp ≠ (s.zoneInfo zone).start

/-! ## The other zones -/

theorem OthersKept.of_update {closes : Prop} {z : Zone} (h : s'.zoneInfo = Function.update s.zoneInfo zone z) :
    OthersKept closes zone s s' := by
  have hother : ∀ y ≠ zone, s'.zoneInfo y = s.zoneInfo y := by
    intro y hy
    rw [h, Function.update_of_ne hy]
  exact ⟨fun y hy => by rw [hother y hy], .inl (fun y hy => by rw [hother y hy])⟩

theorem OthersKept.of_same {closes : Prop} (h : s'.zoneInfo = s.zoneInfo) : OthersKept closes zone s s' :=
  ⟨fun y _ => by rw [h], .inl (fun y _ => by rw [h])⟩

/-! ## Each operation -/

theorem blkStsIoerr_ne_ok : blkStsIoerr ≠ blkStsOk := by decide

section
variable (raw : StatusOps δ) (offset : Nat)

/-- Opening: where another zone is closed, the zone is not opened. -/
theorem openZone_honest_iff (h : Sane cfg s) :
    ZoneOp.openZone.Honest cfg raw s offset ↔ ¬ ClosesOther cfg s (zoneNumber cfg offset) := by
  have hexec := callWith_openZone cfg raw s offset
  have hcall : ZoneOp.openZone.call offset = .openZone offset := rfl
  cases hd : openDecision s (zoneNumber cfg offset) with
  | some status =>
    rw [hd] at hexec
    -- explicitly open already, or refused
    constructor
    · intro _ hother
      have hcond := hother.cond
      simp only [List.mem_cons, List.not_mem_nil, or_false] at hcond
      rcases hcond with hc | hc <;> simp [openDecision, hc] at hd
    · intro _
      refine ⟨?_, ?_⟩
      · rw [hcall, hexec]
        intro hok
        unfold openDecision at hd
        cases hc : (s.zoneInfo (zoneNumber cfg offset)).cond with
        | expOpen => exact ⟨hc, rfl⟩
        | notWp | full =>
          rw [hc] at hd
          cases hd
          exact absurd hok blkStsIoerr_ne_ok
        | _ =>
          rw [hc] at hd
          cases hd
      · rw [hcall, hexec]
        exact OthersKept.of_same rfl
  | none =>
    rw [hd] at hexec
    have hout := openZoneLocked_outcome (semWith_switches raw) h (zoneNumber cfg offset) true
    generalize (openZoneLocked cfg (zoneNumber cfg offset) true).exec (ZoneAct.semWith cfg raw) s = out at hout hexec
    obtain ⟨t, status⟩ := out
    dsimp only at hout hexec
    -- the call has left `t` and returned `status`
    have hiff : ZoneOp.openZone.Honest cfg raw s offset ↔
        (status = blkStsOk → ZoneOp.openZone.Done (s.zoneInfo (zoneNumber cfg offset))
          (t.zoneInfo (zoneNumber cfg offset))) ∧
          OthersKept (ZoneOp.openZone = .openZone) (zoneNumber cfg offset) s t := by
      constructor
      · intro hhonest
        have hdone := hhonest.done
        have hothers := hhonest.others
        rw [hcall, hexec] at hdone hothers
        exact ⟨hdone, hothers⟩
      · intro hboth
        refine ⟨?_, ?_⟩
        · rw [hcall, hexec]
          exact hboth.1
        · rw [hcall, hexec]
          exact hboth.2
    rw [hiff]
    cases hout with
    | refused _ hst hcan _ =>
      exact ⟨fun _ hother => hcan hother.canOpen, fun _ => ⟨fun hok => absurd hok hst, OthersKept.of_same rfl⟩⟩
    | stuck hstuck =>
      refine ⟨fun _ hother => hother.canOpen.not_stuck hstuck, fun _ => ⟨fun hok => ?_, OthersKept.of_same rfl⟩⟩
      exact absurd hok (by decide)
    | closesOther y hother hy hcy =>
      refine ⟨fun hboth => ?_, fun hnot => absurd hother hnot⟩
      have hzone : (closeIfImpOpen (counted s (zoneNumber cfg offset)) y).1.zoneInfo (zoneNumber cfg offset) =
          s.zoneInfo (zoneNumber cfg offset) := by
        obtain ⟨hinfo, -⟩ := counted_fields s (zoneNumber cfg offset)
        rw [closeIfImpOpen, if_pos (by rw [hinfo]; exact hcy)]
        simp [Zoned.setCond, Zoned.setZone, Zoned.decOpen, Zoned.decImpOpen, hy.symm, hinfo]
      have hopen := (hboth.1 rfl).1
      rw [hzone] at hopen
      have hcond := hother.cond
      rw [hopen] at hcond
      simp at hcond
    | opens _ c hcan hother _ hexp hinfo _ =>
      refine ⟨fun _ => hother, fun _ => ⟨fun _ => ?_, OthersKept.of_update hinfo⟩⟩
      rw [hinfo, Function.update_self]
      exact ⟨hexp rfl, rfl⟩

/-- Closing does what it says. -/
theorem closeZone_honest : ZoneOp.closeZone.Honest cfg raw s offset := by
  have hexec := callWith_closeZone cfg raw s offset
  -- the end of the switch, with whatever counters
  have hclosed : ∀ t : Zoned δ, t.zoneInfo = s.zoneInfo →
      (setClosed t (zoneNumber cfg offset)).zoneInfo = Function.update s.zoneInfo (zoneNumber cfg offset)
        { s.zoneInfo (zoneNumber cfg offset) with
          cond := if (s.zoneInfo (zoneNumber cfg offset)).wp = (s.zoneInfo (zoneNumber cfg offset)).start then .empty
            else .closed } := by
    intro t ht
    unfold setClosed
    rw [ht]
    split <;> rw [← ht] <;> rfl
  have hswitch : (closeSwitch s (zoneNumber cfg offset)).2 = blkStsOk →
      ∃ t : Zoned δ, t.zoneInfo = s.zoneInfo ∧
        (closeSwitch s (zoneNumber cfg offset)).1 = setClosed t (zoneNumber cfg offset) := by
    intro hok
    unfold closeSwitch at hok ⊢
    cases hc : (s.zoneInfo (zoneNumber cfg offset)).cond with
    | impOpen => exact ⟨s.decImpOpen.decOpen, rfl, rfl⟩
    | expOpen => exact ⟨s.decOpen, rfl, rfl⟩
    | closed => exact ⟨s, rfl, rfl⟩
    | _ =>
      rw [hc] at hok
      exact absurd hok blkStsIoerr_ne_ok
  have hkeeps : (closeSwitch s (zoneNumber cfg offset)).2 ≠ blkStsOk →
      (closeSwitch s (zoneNumber cfg offset)).1 = s := by
    intro hfail
    unfold closeSwitch at hfail ⊢
    cases hc : (s.zoneInfo (zoneNumber cfg offset)).cond with
    | impOpen | expOpen | closed =>
      rw [hc] at hfail
      exact absurd rfl hfail
    | _ => rfl
  have hcall : ZoneOp.closeZone.call offset = .closeZone offset := rfl
  constructor
  · rw [hcall, hexec]
    intro hok
    obtain ⟨t, ht, hres⟩ := hswitch hok
    dsimp only
    rw [hres, hclosed t ht, Function.update_self]
    rfl
  · rw [hcall, hexec]
    by_cases hok : (closeSwitch s (zoneNumber cfg offset)).2 = blkStsOk
    · obtain ⟨t, ht, hres⟩ := hswitch hok
      exact OthersKept.of_update (show (closeSwitch s (zoneNumber cfg offset)).1.zoneInfo = _ by
        rw [hres]; exact hclosed t ht)
    · exact OthersKept.of_same (show (closeSwitch s (zoneNumber cfg offset)).1.zoneInfo = _ by rw [hkeeps hok])

/-- A zone is conventional exactly if it has no write pointer. -/
theorem TableFixed.conventional_iff (h : TableFixed cfg s) (zone : Nat) :
    (s.zoneInfo zone).conventional = true ↔ (s.zoneInfo zone).cond = .notWp := by
  rw [(h zone).conventional, (h zone).kind]
  unfold initialZone
  split
  · simp
  · split <;> simp

theorem finishZone_honest_iff (h : Sane cfg s) :
    ZoneOp.finishZone.Honest cfg raw s offset ↔ ¬ (s.zoneInfo (zoneNumber cfg offset)).conventional = true := by
  have hexec := callWith_finishZone cfg raw s offset
  have hcall : ZoneOp.finishZone.call offset = .finishZone offset := rfl
  rw [h.fixed.conventional_iff]
  by_cases hc : (s.zoneInfo (zoneNumber cfg offset)).cond = .notWp
  · have hsame : (fullSwitch s (zoneNumber cfg offset)).1 = s := by simp only [fullSwitch, hc]
    refine ⟨fun hhonest => ?_, fun hnot => absurd hc hnot⟩
    have hdone := hhonest.done
    rw [hcall, hexec] at hdone
    have hfull := (hdone rfl).1
    dsimp only at hfull
    rw [hsame, hc] at hfull
    cases hfull
  · refine ⟨fun _ => hc, fun _ => ⟨?_, ?_⟩⟩
    · rw [hcall, hexec]
      intro _
      dsimp only
      rw [fullSwitch_zoneInfo hc, Function.update_self]
      exact ⟨rfl, rfl⟩
    · rw [hcall, hexec]
      exact OthersKept.of_update (fullSwitch_zoneInfo hc)

/-- Resetting: an empty zone is left alone. -/
theorem resetZone_honest_iff :
    ZoneOp.resetZone.Honest cfg raw s offset ↔ ¬ ((s.zoneInfo (zoneNumber cfg offset)).cond = .empty ∧
      (s.zoneInfo (zoneNumber cfg offset)).wp ≠ (s.zoneInfo (zoneNumber cfg offset)).start) := by
  have hexec := callWith_resetZone cfg raw s offset
  have hcall : ZoneOp.resetZone.call offset = .resetZone offset := rfl
  dsimp only at hexec
  by_cases hc : (s.zoneInfo (zoneNumber cfg offset)).cond ∈ [.impOpen, .expOpen, .closed, .full]
  · obtain ⟨hnone, hinfo⟩ := resetSwitch_empties hc
    rw [hnone] at hexec
    have hne : (s.zoneInfo (zoneNumber cfg offset)).cond ≠ .empty := by
      intro heq
      rw [heq] at hc
      simp at hc
    refine ⟨fun _ hempty => hne hempty.1, fun _ => ⟨?_, ?_⟩⟩
    · rw [hcall, hexec]
      intro _
      dsimp only
      rw [hinfo, Function.update_self]
      exact ⟨rfl, rfl⟩
    · rw [hcall, hexec]
      exact OthersKept.of_update (show (resetSwitch s (zoneNumber cfg offset)).1.zoneInfo = _ from hinfo)
  · rw [resetSwitch_keeps hc] at hexec
    by_cases hempty : (s.zoneInfo (zoneNumber cfg offset)).cond = .empty
    · rw [if_pos hempty] at hexec
      constructor
      · intro hhonest hbad
        have hdone := hhonest.done
        rw [hcall, hexec] at hdone
        exact hbad.2 (hdone rfl).2
      · intro hgood
        refine ⟨?_, ?_⟩
        · rw [hcall, hexec]
          intro _
          exact ⟨hempty, by_contra (fun hne => hgood ⟨hempty, hne⟩)⟩
        · rw [hcall, hexec]
          exact OthersKept.of_same rfl
    · rw [if_neg hempty] at hexec
      refine ⟨fun _ hbad => hempty hbad.1, fun _ => ⟨?_, ?_⟩⟩
      · rw [hcall, hexec]
        intro hok
        exact absurd hok blkStsIoerr_ne_ok
      · rw [hcall, hexec]
        exact OthersKept.of_same rfl

end

/-- **Zone management that succeeds has done what it says, unless it misreports.** -/
theorem zone_management_iff (raw : StatusOps δ) (disk : δ)
    (h : Machine.Reach (callStepWith cfg raw) (fun _ c => c.InDisk cfg) (initializeZoned cfg disk) s) (op : ZoneOp)
    (offset : Nat) : op.Honest cfg raw s offset ↔ ¬ op.Misreports cfg s (zoneNumber cfg offset) := by
  have hs := sane_reach raw h
  cases op with
  | openZone => exact openZone_honest_iff raw offset hs
  | closeZone => exact ⟨fun _ hbad => hbad, fun _ => closeZone_honest raw offset⟩
  | finishZone => exact finishZone_honest_iff raw offset hs
  | resetZone => exact resetZone_honest_iff raw offset

/-- Zone 0 is closed and zone 1 is open: finishing zone 0 fills it. -/
theorem zone_management_iff_finishZone :
    ∃ s, Machine.run (callStepWith twoWideZones ramdisk.statuses) (initializeZoned twoWideZones (fun _ => 0))
      severalCalls = some s ∧
      (s.zoneInfo 0).cond = .closed ∧
      ((callWith twoWideZones ramdisk.statuses s (.finishZone 0)).1.zoneInfo 0).cond = .full ∧
      OthersKept (ZoneOp.finishZone = .openZone) 0 s (callWith twoWideZones ramdisk.statuses s (.finishZone 0)).1 := by
  obtain ⟨s, hs, hcond, hconv, hstatus⟩ : ∃ s, Machine.run (callStepWith twoWideZones ramdisk.statuses)
        (initializeZoned twoWideZones (fun _ => 0)) severalCalls = some s ∧
      (s.zoneInfo 0).cond = .closed ∧ (s.zoneInfo 0).conventional = false ∧
      (callWith twoWideZones ramdisk.statuses s (.finishZone 0)).2.status = blkStsOk :=
    ⟨_, rfl, by decide +kernel, by decide +kernel, by decide +kernel⟩
  have hhonest := (zone_management_iff ramdisk.statuses (fun _ => 0) ⟨severalCalls, Machine.Steps.of_run_ok hs
    (fun _ c hc => (severalCalls_valid c hc).inDisk)⟩ .finishZone 0).2 (fun hbad => by
      have hbad : (s.zoneInfo 0).conventional = true := hbad
      rw [hconv] at hbad
      cases hbad)
  exact ⟨s, hs, hcond, (hhonest.done hstatus).1, hhonest.others⟩

/-- A write has opened zone 0, which is the limit. Opening zone 1 closes zone 0 and
    returns success, and zone 1 is empty. A write to zone 1 does the same, and moves the
    pointer; resetting zone 1 then leaves it there. And finishing a conventional zone
    returns success. -/
theorem zone_management_misreports :
    (∃ s, Machine.Reach (callStepWith twoWideZones ramdisk.statuses) (fun _ c => c.InDisk twoWideZones)
        (initializeZoned twoWideZones (fun _ => 0)) s ∧
      (callWith twoWideZones ramdisk.statuses s (.openZone 1024)).2.status = blkStsOk ∧
      ((callWith twoWideZones ramdisk.statuses s (.openZone 1024)).1.zoneInfo 1).cond = .empty) ∧
    (∃ s, Machine.Reach (callStepWith twoWideZones ramdisk.statuses) (fun _ c => c.InDisk twoWideZones)
        (initializeZoned twoWideZones (fun _ => 0)) s ∧
      (callWith twoWideZones ramdisk.statuses s (.resetZone 1024)).2.status = blkStsOk ∧
      ((callWith twoWideZones ramdisk.statuses s (.resetZone 1024)).1.zoneInfo 1).wp ≠
        ((callWith twoWideZones ramdisk.statuses s (.resetZone 1024)).1.zoneInfo 1).start) ∧
    (callWith oneConventional ramdisk.statuses (initializeZoned oneConventional (fun _ => 0)) (.finishZone 0)).2.status =
        blkStsOk ∧
      ((callWith oneConventional ramdisk.statuses (initializeZoned oneConventional (fun _ => 0))
        (.finishZone 0)).1.zoneInfo
        0).cond = .notWp := by
  have h₀ : (ZoneCall.write oneSector 0).InDisk twoWideZones := by change 0 < 2 * (2 * sectorSize); decide
  have h₁ : (ZoneCall.write oneSector 1024).InDisk twoWideZones := by change 1024 < 2 * (2 * sectorSize); decide
  refine ⟨⟨_, ⟨[.write oneSector 0], .cons h₀ rfl (.nil _)⟩, by decide +kernel, by decide +kernel⟩,
    ⟨_, ⟨[.write oneSector 0, .write oneSector 1024], .cons h₀ rfl (.cons h₁ rfl (.nil _))⟩, by decide +kernel,
      by decide +kernel⟩, by decide, by decide⟩

end Bius
