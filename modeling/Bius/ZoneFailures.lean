import Bius.WritePointer
import Bius.ZoneAccounting

/- Calls of the zone emulator that fail, over a backend that may fail with any status.
   What `open_zone_locked` can do is said once (`openZoneLocked_outcome`). From it,
   `failed_call_iff` says which failing calls leave the zone table and the counters as
   they were, and which do not: an empty zone is counted as active and then not opened
   for want of an open zone, a write moves the pointer before `raw_write` fails, and a
   reset empties the zone before `raw_discard` does. -/
namespace Bius

open Threads

variable {δ : Type}

/-! ## Any backend -/

/-- The functions of a backend over its own state, with the status they return. -/
structure StatusOps (δ : Type) where
  read : δ → Nat → Nat → δ × Nat × List UInt8
  write : δ → List UInt8 → Nat → δ × Nat
  discard : δ → Nat → Nat → δ × Nat

/-- A backend that returns one of two statuses. -/
def RawOps.statuses (raw : RawOps δ) : StatusOps δ where
  read disk offset length :=
    ((raw.read disk offset length).1, rawStatus (raw.read disk offset length).2.1, (raw.read disk offset length).2.2)
  write disk data offset := ((raw.write disk data offset).1, rawStatus (raw.write disk data offset).2)
  discard disk offset length := ((raw.discard disk offset length).1, rawStatus (raw.discard disk offset length).2)

/-- Whether each function succeeded. -/
def StatusOps.successes (raw : StatusOps δ) : RawOps δ where
  read disk offset length :=
    ((raw.read disk offset length).1, (raw.read disk offset length).2.1 == blkStsOk, (raw.read disk offset length).2.2)
  write disk data offset := ((raw.write disk data offset).1, (raw.write disk data offset).2 == blkStsOk)
  discard disk offset length := ((raw.discard disk offset length).1, (raw.discard disk offset length).2 == blkStsOk)

section
variable (cfg : ZonedConfig)

/-- What an action does over such a backend. -/
def ZoneAct.semWith (raw : StatusOps δ) : (e : ZoneAct) → Zoned δ → Zoned δ × e.Ans
  | .rawRead offset length, s =>
    let res := raw.read s.raw offset length
    ({ s with raw := res.1 }, res.2.1, res.2.2)
  | .rawWrite _ _ offset data, s =>
    let res := raw.write s.raw data offset
    ({ s with raw := res.1 }, res.2)
  | .rawDiscardZone zone, s =>
    let res := raw.discard s.raw ((s.zoneInfo zone).start * sectorSize) ((s.zoneInfo zone).len * sectorSize)
    ({ s with raw := res.1 }, res.2)
  | .rawDiscardAll, s =>
    let res := raw.discard s.raw 0 (cfg.numZones * (cfg.zoneSectors * sectorSize))
    ({ s with raw := res.1 }, res.2)
  | e, s => e.sem cfg raw.successes s

/-- A call run alone. -/
def callWith (raw : StatusOps δ) (s : Zoned δ) (c : ZoneCall) : Zoned δ × ZoneRet :=
  (c.code cfg 0).exec (ZoneAct.semWith cfg raw) s

/-- Calls run one at a time. -/
def callStepWith (raw : StatusOps δ) (s : Zoned δ) (c : ZoneCall) : Option (Zoned δ) := some (callWith cfg raw s c).1

end

variable {cfg : ZonedConfig} {s s' : Zoned δ} {zone : Nat}

theorem semWith_statuses (raw : RawOps δ) : ZoneAct.semWith cfg raw.statuses = ZoneAct.sem cfg raw := by
  funext e s
  cases e <;> rfl

theorem callWith_statuses (raw : RawOps δ) (s : Zoned δ) (c : ZoneCall) :
    callWith cfg raw.statuses s c = callAlone cfg raw s c := by
  rw [callWith, semWith_statuses]
  rfl

theorem semWith_switches (raw : StatusOps δ) : Switches cfg (ZoneAct.semWith cfg raw) :=
  ⟨fun _ _ _ => rfl, fun _ _ => rfl⟩

theorem semWith_act (raw : StatusOps δ) (e : ZoneAct) (s : Zoned δ) :
    (e.semWith cfg raw s).1 = { (e.sem cfg raw.successes s).1 with raw := (e.semWith cfg raw s).1.raw } := by
  cases e <;> rfl

/-! ## What nothing changes -/

/-- The fields that `initialize_zone_info` sets and nothing changes. -/
structure ZoneFixed (cfg : ZonedConfig) (zone : Nat) (z : Zone) : Prop where
  start : z.start = (initialZone cfg zone).start
  len : z.len = (initialZone cfg zone).len
  capacity : z.capacity = (initialZone cfg zone).capacity
  conventional : z.conventional = (initialZone cfg zone).conventional
  kind : z.cond = .notWp ↔ (initialZone cfg zone).cond = .notWp

def TableFixed (cfg : ZonedConfig) (s : Zoned δ) : Prop := ∀ zone, ZoneFixed cfg zone (s.zoneInfo zone)

theorem TableFixed.update (h : TableFixed cfg s) (c : ZoneCond) (wp : Nat)
    (hc : c = .notWp ↔ (s.zoneInfo zone).cond = .notWp)
    (hinfo : s'.zoneInfo = Function.update s.zoneInfo zone { s.zoneInfo zone with cond := c, wp := wp }) :
    TableFixed cfg s' := by
  intro y
  rw [hinfo, Function.update_apply]
  split
  · next heq =>
    subst heq
    exact ⟨(h y).start, (h y).len, (h y).capacity, (h y).conventional, hc.trans (h y).kind⟩
  · exact h y

theorem TableFixed.congr (h : TableFixed cfg s) (hinfo : s'.zoneInfo = s.zoneInfo) : TableFixed cfg s' := by
  intro y
  rw [hinfo]
  exact h y

theorem tableFixed_initializeZoneInfo (s : Zoned δ) : TableFixed cfg (initializeZoneInfo cfg s) :=
  fun _ => ⟨rfl, rfl, rfl, rfl, Iff.rfl⟩

/-- A zone that is neither empty nor conventional is emptied by a reset. -/
theorem resetSwitch_empties (hc : (s.zoneInfo zone).cond ∈ [.impOpen, .expOpen, .closed, .full]) :
    (resetSwitch s zone).2 = none ∧ (resetSwitch s zone).1.zoneInfo =
      Function.update s.zoneInfo zone { s.zoneInfo zone with cond := .empty, wp := (s.zoneInfo zone).start } := by
  unfold resetSwitch
  cases hz : (s.zoneInfo zone).cond with
  | notWp => simp [hz] at hc
  | empty => simp [hz] at hc
  | _ => exact ⟨rfl, rfl⟩

theorem resetSwitch_keeps (hc : (s.zoneInfo zone).cond ∉ [.impOpen, .expOpen, .closed, .full]) :
    resetSwitch s zone = (s, some (if (s.zoneInfo zone).cond = .empty then blkStsOk else blkStsIoerr)) := by
  unfold resetSwitch
  cases hz : (s.zoneInfo zone).cond with
  | notWp => rfl
  | empty => rfl
  | _ => simp [hz] at hc

/-- What an action does to the table: nothing; it changes the condition or the pointer of
    a zone that has a pointer; it initialises it; or it moves a pointer on. -/
theorem sem_zoneInfo (cfg : ZonedConfig) (raw : RawOps δ) (e : ZoneAct) (s : Zoned δ) :
    (e.sem cfg raw s).1.zoneInfo = s.zoneInfo ∨
      (∃ zone c wp, (s.zoneInfo zone).cond ≠ .notWp ∧ c ≠ .notWp ∧ (e.sem cfg raw s).1.zoneInfo =
        Function.update s.zoneInfo zone { s.zoneInfo zone with cond := c, wp := wp }) ∨
      (e.sem cfg raw s).1.zoneInfo = initialZone cfg ∨
      ∃ zone id offset data, e = .advance zone id offset data ∧ (e.sem cfg raw s).1.zoneInfo =
        Function.update s.zoneInfo zone
          { s.zoneInfo zone with wp := (s.zoneInfo zone).wp + data.length / sectorSize } := by
  cases e with
  | closeIfImpOpen zone =>
    simp only [ZoneAct.sem, closeIfImpOpen]
    split
    · next hc => exact .inr (.inl ⟨zone, .closed, _, by simp [hc], by simp, rfl⟩)
    · exact .inl rfl
  | openSwitch zone explicit =>
    obtain ⟨hsame, -⟩ | ⟨hc, -, hinfo⟩ := openSwitch_cases cfg s zone explicit
    · exact .inl hsame
    · refine .inr (.inl ⟨zone, _, (s.zoneInfo zone).wp, fun heq => ?_, fun heq => ?_, hinfo⟩)
      · rw [heq] at hc
        simp at hc
      · cases explicit <;> cases heq
  | fullSwitch zone =>
    by_cases hc : (s.zoneInfo zone).cond = .notWp
    · left
      simp only [ZoneAct.sem, fullSwitch, hc]
    · exact .inr (.inl ⟨zone, .full, _, hc, by simp, fullSwitch_zoneInfo hc⟩)
  | closeSwitch zone =>
    have hclosed : ∀ t : Zoned δ, t.zoneInfo = s.zoneInfo → (s.zoneInfo zone).cond ≠ .notWp →
        ∃ y c wp, (s.zoneInfo y).cond ≠ .notWp ∧ c ≠ .notWp ∧ (setClosed t zone).zoneInfo =
          Function.update s.zoneInfo y { s.zoneInfo y with cond := c, wp := wp } := by
      intro t ht hc
      unfold setClosed
      split
      · exact ⟨zone, .empty, (s.zoneInfo zone).wp, hc, by simp, by rw [← ht]; rfl⟩
      · exact ⟨zone, .closed, (s.zoneInfo zone).wp, hc, by simp, by rw [← ht]; rfl⟩
    simp only [ZoneAct.sem, closeSwitch]
    split
    · next hc => exact .inr (.inl (hclosed _ rfl (by simp [hc])))
    · next hc => exact .inr (.inl (hclosed _ rfl (by simp [hc])))
    · next hc => exact .inr (.inl (hclosed _ rfl (by simp [hc])))
    · exact .inl rfl
  | resetSwitch zone =>
    by_cases hc : (s.zoneInfo zone).cond ∈ [.impOpen, .expOpen, .closed, .full]
    · refine .inr (.inl ⟨zone, .empty, _, fun heq => ?_, by simp, (resetSwitch_empties hc).2⟩)
      rw [heq] at hc
      simp at hc
    · left
      simp only [ZoneAct.sem, resetSwitch_keeps hc]
  | initializeZoneInfo => exact .inr (.inr (.inl rfl))
  | advance zone id offset data => exact .inr (.inr (.inr ⟨zone, id, offset, data, rfl, rfl⟩))
  | _ => exact .inl rfl

theorem tableFixed_act (raw : RawOps δ) (e : ZoneAct) (h : TableFixed cfg s) : TableFixed cfg (e.sem cfg raw s).1 := by
  obtain hsame | ⟨zone, c, wp, hc, hc', hinfo⟩ | hinit | ⟨zone, id, offset, data, -, hinfo⟩ :=
    sem_zoneInfo cfg raw e s
  · exact h.congr hsame
  · exact h.update c wp (by simp [hc, hc']) hinfo
  · intro zone
    rw [hinit]
    exact ⟨rfl, rfl, rfl, rfl, Iff.rfl⟩
  · exact h.update (s.zoneInfo zone).cond _ Iff.rfl hinfo

/-- The table and the counters in a state that calls have reached. -/
structure Sane (cfg : ZonedConfig) (s : Zoned δ) : Prop where
  accounted : ∃ leaked, Accounted cfg leaked s
  fixed : TableFixed cfg s

theorem sane_act (raw : StatusOps δ) {e : ZoneAct} (he : e.InTable cfg) (h : Sane cfg s) :
    Sane cfg (e.semWith cfg raw s).1 := by
  obtain ⟨⟨leaked, hacc⟩, hfixed⟩ := h
  obtain ⟨leaked', hacc', -⟩ := accounted_act raw.successes he hacc
  rw [semWith_act]
  exact ⟨⟨leaked', hacc'.congr (fun _ => rfl) rfl rfl rfl rfl⟩, (tableFixed_act raw.successes e hfixed).congr rfl⟩

theorem sane_call (raw : StatusOps δ) {c : ZoneCall} (hc : c.InDisk cfg) (h : Sane cfg s) :
    Sane cfg (callWith cfg raw s c).1 := by
  refine ((code_inTable hc 0).along (ZoneAct.semWith cfg raw) (fun _ _ he => he) s).exec_inv (I := Sane cfg) _ ?_ h
  intro e t he ht
  exact sane_act raw he ht

theorem sane_reach (raw : StatusOps δ) {disk : δ}
    (h : Machine.Reach (callStepWith cfg raw) (fun _ c => c.InDisk cfg) (initializeZoned cfg disk) s) : Sane cfg s := by
  refine h.inv (I := Sane cfg) ?_ ⟨⟨0, accounted_initializeZoneInfo rfl⟩, tableFixed_initializeZoneInfo _⟩
  intro s c s' hs hc hstep
  cases hstep
  exact sane_call raw hc hs

/-! ## Opening a zone -/

section
variable (cfg : ZonedConfig) (s : Zoned δ) (zone : Nat)

/-- `open_zone_locked` counts the zone as active, and then finds no open zone to spare
    and none to close. -/
def OpenStuck : Prop := OpenLeaks cfg s zone ∧ s.numImpOpenZones = 0

/-- No limit stands in the way of opening the zone. -/
structure CanOpen : Prop where
  cond : (s.zoneInfo zone).cond ∈ [.empty, .impOpen, .expOpen, .closed]
  active : (s.zoneInfo zone).cond = .empty → s.numActiveZones < cfg.maxActiveZones
  limit : (s.zoneInfo zone).cond ∈ [.empty, .closed] → s.numOpenZones < cfg.maxOpenZones ∨ 0 < s.numImpOpenZones

/-- An implicitly open zone is closed in favour of the zone. -/
structure ClosesOther : Prop where
  cond : (s.zoneInfo zone).cond ∈ [.empty, .closed]
  active : (s.zoneInfo zone).cond = .empty → s.numActiveZones < cfg.maxActiveZones
  limit : cfg.maxOpenZones ≤ s.numOpenZones
  imp : 0 < s.numImpOpenZones

/-- The zone as `open_zone_locked` has counted it before it looks at the limit of open
    zones. -/
def counted : Zoned δ := if (s.zoneInfo zone).cond = .empty then s.incActive else s

/-- What `open_zone_locked` leaves, and what it returns. Where it closes another zone it
    returns success, and the zone stays as it was. -/
inductive OpenOutcome (explicit : Bool) : Zoned δ → Nat → Prop
  | refused (status : Nat) (hstatus : status ≠ blkStsOk) (hcan : ¬ CanOpen cfg s zone)
    (hstuck : ¬ OpenStuck cfg s zone) :
      OpenOutcome explicit s status
  | stuck (h : OpenStuck cfg s zone) : OpenOutcome explicit s.incActive blkStsZoneOpenResource
  | closesOther (y : Nat) (h : ClosesOther cfg s zone) (hy : y ≠ zone) (hc : (s.zoneInfo y).cond = .impOpen) :
      OpenOutcome explicit (closeIfImpOpen (counted s zone) y).1 blkStsOk
  | opens (s' : Zoned δ) (c : ZoneCond) (hcan : CanOpen cfg s zone) (hother : ¬ ClosesOther cfg s zone)
      (hc : c.isOpen = true) (hexplicit : explicit = true → c = .expOpen)
      (hinfo : s'.zoneInfo = Function.update s.zoneInfo zone { s.zoneInfo zone with cond := c }) (hraw : s'.raw = s.raw) :
      OpenOutcome explicit s' blkStsOk

end

theorem CanOpen.not_stuck (h : CanOpen cfg s zone) : ¬ OpenStuck cfg s zone := by
  intro hstuck
  obtain ⟨⟨hc, -, hopen⟩, himp⟩ := hstuck
  have hlimit := h.limit (by simp [hc])
  omega

theorem ClosesOther.canOpen (h : ClosesOther cfg s zone) : CanOpen cfg s zone := by
  refine ⟨?_, h.active, fun _ => .inr h.imp⟩
  have hc := h.cond
  simp only [List.mem_cons, List.not_mem_nil, or_false] at hc ⊢
  rcases hc with hc | hc <;> simp [hc]

theorem counted_fields (s : Zoned δ) (zone : Nat) :
    (counted s zone).zoneInfo = s.zoneInfo ∧ (counted s zone).numOpenZones = s.numOpenZones ∧
      (counted s zone).numImpOpenZones = s.numImpOpenZones ∧ (counted s zone).raw = s.raw := by
  unfold counted
  split <;> exact ⟨rfl, rfl, rfl, rfl⟩

/-- Where zones are implicitly open, `close_imp_open_zone` finds one. -/
theorem closeImpOpenZone_closes {sem : (e : ZoneAct) → Zoned δ → Zoned δ × e.Ans} (hsem : Switches cfg sem)
    (h : Sane cfg s) (himp : 0 < s.numImpOpenZones) (hc : (s.zoneInfo zone).cond ≠ .impOpen) {t : Zoned δ}
    (ht : t.zoneInfo = s.zoneInfo) :
    ∃ y, y ≠ zone ∧ (s.zoneInfo y).cond = .impOpen ∧
      ((closeImpOpenZone cfg zone).exec sem t).1 = (closeIfImpOpen t y).1 := by
  obtain ⟨leaked, hacc⟩ := h.accounted
  rw [hacc.impEq] at himp
  obtain ⟨y, hy, hcy⟩ := List.countP_pos_iff.1 himp
  have hcy : (s.zoneInfo y).cond = .impOpen := by
    cases hz : (s.zoneInfo y).cond with
    | impOpen => rfl
    | _ => rw [hz] at hcy; cases hcy
  -- a conventional zone is never open
  have hseq : cfg.numConventionalZones ≤ y := by
    by_contra hlt
    have hnot := (h.fixed y).kind.2 (by rw [initialZone, if_pos (by omega)])
    rw [hcy] at hnot
    cases hnot
  have hlt := List.mem_range.1 hy
  rw [← ht]
  exact exec_closeLoop hsem ⟨y, hseq, by omega, fun heq => hc (heq ▸ hcy), by rw [ht]; exact hcy⟩

/-- The part of `open_zone_locked` that EMPTY and CLOSED share. -/
theorem openClosed_outcome {sem : (e : ZoneAct) → Zoned δ → Zoned δ × e.Ans} (hsem : Switches cfg sem)
    (h : Sane cfg s) (hc : (s.zoneInfo zone).cond ∈ [.empty, .closed])
    (hactive : (s.zoneInfo zone).cond = .empty → s.numActiveZones < cfg.maxActiveZones) (explicit : Bool)
    (hswitch : openSwitch cfg s zone explicit = openClosed cfg (counted s zone) zone explicit) :
    OpenOutcome cfg s zone explicit ((openZoneLocked cfg zone explicit).exec sem s).1
      ((openZoneLocked cfg zone explicit).exec sem s).2 := by
  obtain ⟨hinfo, hopen, himp, hraw⟩ := counted_fields s zone
  have hmem : (s.zoneInfo zone).cond ∈ [.empty, .impOpen, .expOpen, .closed] := by
    simp only [List.mem_cons, List.not_mem_nil, or_false] at hc ⊢
    rcases hc with hc | hc <;> simp [hc]
  rw [exec_openZoneLocked_eq hsem, hswitch]
  unfold openClosed
  by_cases hlimit : cfg.maxOpenZones ≤ s.numOpenZones
  · rw [if_pos (by rw [hopen]; exact hlimit)]
    by_cases hpos : 0 < s.numImpOpenZones
    · rw [if_pos (by rw [himp]; exact hpos)]
      have hne : (s.zoneInfo zone).cond ≠ .impOpen := by
        intro heq
        rw [heq] at hc
        simp at hc
      obtain ⟨y, hy, hcy, hexec⟩ := closeImpOpenZone_closes hsem h hpos hne hinfo
      dsimp only
      rw [hexec]
      exact .closesOther y ⟨hc, hactive, hlimit, hpos⟩ hy hcy
    · rw [if_neg (by rw [himp]; exact hpos)]
      dsimp only
      by_cases hempty : (s.zoneInfo zone).cond = .empty
      · rw [counted, if_pos hempty]
        exact .stuck ⟨⟨hempty, hactive hempty, hlimit⟩, by omega⟩
      · rw [counted, if_neg hempty]
        refine .refused _ (by decide) (fun hcan => ?_) (fun hstuck => hempty hstuck.1.1)
        have := hcan.limit hc
        omega
  · rw [if_neg (by rw [hopen]; exact hlimit)]
    have hcan : CanOpen cfg s zone := ⟨hmem, hactive, fun _ => .inl (by omega)⟩
    have hother : ¬ ClosesOther cfg s zone := fun hother => hlimit hother.limit
    cases explicit with
    | true => exact .opens _ .expOpen hcan hother rfl (fun _ => rfl) (by rw [← hinfo]; rfl) hraw
    | false => exact .opens _ .impOpen hcan hother rfl (fun heq => by cases heq) (by rw [← hinfo]; rfl) hraw

/-- **What `open_zone_locked` does, run alone.** -/
theorem openZoneLocked_outcome {sem : (e : ZoneAct) → Zoned δ → Zoned δ × e.Ans} (hsem : Switches cfg sem)
    (h : Sane cfg s) (zone : Nat) (explicit : Bool) :
    OpenOutcome cfg s zone explicit ((openZoneLocked cfg zone explicit).exec sem s).1
      ((openZoneLocked cfg zone explicit).exec sem s).2 := by
  -- the zone is open already, or is refused whatever the limits are
  have hsame : ∀ c, (s.zoneInfo zone).cond = c →
      s.zoneInfo = Function.update s.zoneInfo zone { s.zoneInfo zone with cond := c } := by
    intro c hc
    rw [← hc]
    exact (Function.update_eq_self zone s.zoneInfo).symm
  have hbad : (s.zoneInfo zone).cond ∉ [.empty, .impOpen, .expOpen, .closed] →
      OpenOutcome cfg s zone explicit s blkStsIoerr := by
    intro hc
    refine .refused _ (by decide) (fun hcan => hc hcan.cond) (fun hstuck => hc ?_)
    rw [hstuck.1.1]
    simp
  cases hc : (s.zoneInfo zone).cond with
  | notWp =>
    rw [exec_openZoneLocked_eq hsem]
    simp only [openSwitch, hc]
    exact hbad (by simp [hc])
  | full =>
    rw [exec_openZoneLocked_eq hsem]
    simp only [openSwitch, hc]
    exact hbad (by simp [hc])
  | impOpen =>
    have hcan : CanOpen cfg s zone := ⟨by simp [hc], by simp [hc], by simp [hc]⟩
    have hother : ¬ ClosesOther cfg s zone := fun hother => by simpa [hc] using hother.cond
    rw [exec_openZoneLocked_eq hsem]
    simp only [openSwitch, hc]
    cases explicit with
    | true => exact .opens _ .expOpen hcan hother rfl (fun _ => rfl) rfl rfl
    | false => exact .opens s .impOpen hcan hother rfl (fun heq => by cases heq) (hsame _ hc) rfl
  | expOpen =>
    have hcan : CanOpen cfg s zone := ⟨by simp [hc], by simp [hc], by simp [hc]⟩
    have hother : ¬ ClosesOther cfg s zone := fun hother => by simpa [hc] using hother.cond
    rw [exec_openZoneLocked_eq hsem]
    simp only [openSwitch, hc]
    exact .opens s .expOpen hcan hother rfl (fun _ => rfl) (hsame _ hc) rfl
  | empty =>
    by_cases hactive : cfg.maxActiveZones ≤ s.numActiveZones
    · rw [exec_openZoneLocked_eq hsem]
      simp only [openSwitch, hc, if_pos hactive]
      refine .refused _ (by decide) (fun hcan => ?_) (fun hstuck => ?_)
      · have := hcan.active hc
        omega
      · have := hstuck.1.2.1
        omega
    · apply openClosed_outcome hsem h (by simp [hc]) (fun _ => by omega) explicit
      simp only [openSwitch, hc, if_neg hactive, counted, if_true]
  | closed =>
    apply openClosed_outcome hsem h (by simp [hc]) (by simp [hc]) explicit
    rw [counted, if_neg (by simp [hc])]
    simp only [openSwitch, hc]

/-! ## Reserving -/

/-- `zoned_write_common` from the reservation up to `raw_write`. -/
def reserved (s : Zoned δ) (zone offset : Nat) (data : List UInt8) : Zoned δ :=
  if (advance s zone 0 offset data).2 then (fullSwitch (advance s zone 0 offset data).1 zone).1
  else (advance s zone 0 offset data).1

theorem reserved_raw (s : Zoned δ) (zone offset : Nat) (data : List UInt8) :
    (reserved s zone offset data).raw = s.raw := by
  unfold reserved
  split
  · rw [fullSwitch_raw]
    rfl
  · rfl

theorem exec_reserveAndWrite_with (raw : StatusOps δ) (s : Zoned δ) (zone offset : Nat) (w : WriteArgs)
    (position : Option Nat) :
    (reserveAndWrite 0 zone offset w position).exec (ZoneAct.semWith cfg raw) s =
      ({ reserved s zone offset w.data with raw := (raw.write s.raw w.data offset).1 },
        { status := (raw.write s.raw w.data offset).2, position }) := by
  have hraw := reserved_raw s zone offset w.data
  show (storeRest 0 zone offset w position (advance s zone 0 offset w.data).2).exec (ZoneAct.semWith cfg raw)
    (advance s zone 0 offset w.data).1 = _
  unfold reserved at hraw ⊢
  cases hfull : (advance s zone 0 offset w.data).2 with
  | false => rfl
  | true =>
    rw [hfull, if_pos rfl] at hraw
    rw [if_pos rfl, ← hraw]
    rfl

/-- The zone is full afterwards, or its pointer has moved on. -/
theorem reserved_cases (hc : (s.zoneInfo zone).cond ≠ .notWp) (offset : Nat) (data : List UInt8) :
    ((reserved s zone offset data).zoneInfo zone).cond = .full ∧
        (s.zoneInfo zone).wp + data.length / sectorSize = (s.zoneInfo zone).start + (s.zoneInfo zone).capacity ∨
      (s.zoneInfo zone).wp + data.length / sectorSize ≠ (s.zoneInfo zone).start + (s.zoneInfo zone).capacity ∧
        (reserved s zone offset data).zoneInfo = Function.update s.zoneInfo zone
          { s.zoneInfo zone with wp := (s.zoneInfo zone).wp + data.length / sectorSize } ∧
        (reserved s zone offset data).numOpenZones = s.numOpenZones ∧
        (reserved s zone offset data).numImpOpenZones = s.numImpOpenZones ∧
        (reserved s zone offset data).numActiveZones = s.numActiveZones := by
  have hadv : (advance s zone 0 offset data).1.zoneInfo = Function.update s.zoneInfo zone
      { s.zoneInfo zone with wp := (s.zoneInfo zone).wp + data.length / sectorSize } := rfl
  unfold reserved
  by_cases hfull : (s.zoneInfo zone).wp + data.length / sectorSize = (s.zoneInfo zone).start + (s.zoneInfo zone).capacity
  · left
    rw [if_pos (by simpa [advance] using hfull), fullSwitch_zoneInfo (by rw [hadv]; simpa using hc), Function.update_self]
    exact ⟨rfl, hfull⟩
  · right
    rw [if_neg (by simpa [advance] using hfull)]
    exact ⟨hfull, hadv, rfl, rfl, rfl⟩

/-! ## Calls of zone management -/

section
variable (cfg : ZonedConfig) (raw : StatusOps δ) (s : Zoned δ) (offset : Nat)

theorem callWith_openZone :
    callWith cfg raw s (.openZone offset) =
      match openDecision s (zoneNumber cfg offset) with
      | some status => (s, { status })
      | none =>
        let out := (openZoneLocked cfg (zoneNumber cfg offset) true).exec (ZoneAct.semWith cfg raw) s
        (out.1, { status := out.2 }) := by
  have hexec : callWith cfg raw s (.openZone offset) =
      Prog.exec (ZoneAct.semWith cfg raw)
        (openDecided cfg (zoneNumber cfg offset) (openDecision s (zoneNumber cfg offset)) >>= fun result => do
          Prog.release (ZoneLock.zone (zoneNumber cfg offset))
          return { status := result }) s := rfl
  rw [hexec, Prog.exec_bind]
  cases openDecision s (zoneNumber cfg offset) with
  | some status => rfl
  | none => rfl

theorem callWith_closeZone :
    callWith cfg raw s (.closeZone offset) =
      ((closeSwitch s (zoneNumber cfg offset)).1, { status := (closeSwitch s (zoneNumber cfg offset)).2 }) := rfl

theorem callWith_finishZone :
    callWith cfg raw s (.finishZone offset) =
      ((fullSwitch s (zoneNumber cfg offset)).1, { status := blkStsOk }) := rfl

theorem callWith_resetZone :
    callWith cfg raw s (.resetZone offset) =
      let out := resetSwitch s (zoneNumber cfg offset)
      let z := s.zoneInfo (zoneNumber cfg offset)
      match out.2 with
      | some status => (out.1, { status })
      | none =>
        let res := raw.discard s.raw (z.start * sectorSize) (z.len * sectorSize)
        ({ out.1 with raw := res.1 }, { status := res.2 }) := by
  have hexec : callWith cfg raw s (.resetZone offset) =
      Prog.exec (ZoneAct.semWith cfg raw)
        (match (resetSwitch s (zoneNumber cfg offset)).2 with
          | some status => return { status }
          | none => do
            let status : Nat ← perform (.rawDiscardZone (zoneNumber cfg offset))
            return { status }) (resetSwitch s (zoneNumber cfg offset)).1 := rfl
  rw [hexec]
  unfold resetSwitch
  cases (s.zoneInfo (zoneNumber cfg offset)).cond with
  | notWp => rfl
  | empty => rfl
  | _ =>
    simp [setEmpty, Zoned.setZone, Zoned.decOpen, Zoned.decImpOpen, Zoned.decActive, perform, ZoneAct.semWith]

end

/-! ## Calls that fail -/

/-- The zone table and the counters are the same. -/
structure SameZones (s s' : Zoned δ) : Prop where
  zoneInfo : s'.zoneInfo = s.zoneInfo
  numOpen : s'.numOpenZones = s.numOpenZones
  numImpOpen : s'.numImpOpenZones = s.numImpOpenZones
  numActive : s'.numActiveZones = s.numActiveZones

theorem SameZones.refl (s : Zoned δ) : SameZones s s := ⟨rfl, rfl, rfl, rfl⟩

section
variable (cfg : ZonedConfig) (raw : StatusOps δ) (s : Zoned δ)

/-- A write fails when something is changed already: the zone is counted as active and
    not opened; or space is reserved, and then `raw_write` fails. -/
def WriteArgs.FailsLate (w : WriteArgs) : Prop :=
  let zone := zoneNumber cfg w.offset
  ∃ offset opens, checkWrite s zone w = .reserve offset opens ∧
    (opens = true ∧ OpenStuck cfg s zone ∨
      (opens = true → CanOpen cfg s zone) ∧ (raw.write s.raw w.data offset).2 ≠ blkStsOk ∧
        (opens = true ∨ sectorSize ≤ w.data.length ∨
          (s.zoneInfo zone).wp = (s.zoneInfo zone).start + (s.zoneInfo zone).capacity))

/-- A call fails when something is changed already. -/
def ZoneCall.FailsLate : ZoneCall → Prop
  | .write data offset => WriteArgs.FailsLate cfg raw s ⟨data, offset, false⟩
  | .append data offset => WriteArgs.FailsLate cfg raw s ⟨data, offset, true⟩
  | .openZone offset => OpenStuck cfg s (zoneNumber cfg offset)
  | .resetZone offset =>
    let z := s.zoneInfo (zoneNumber cfg offset)
    z.cond ∈ [.impOpen, .expOpen, .closed, .full] ∧
      (raw.discard s.raw (z.start * sectorSize) (z.len * sectorSize)).2 ≠ blkStsOk
  | _ => False

end

section
variable {raw : StatusOps δ}

theorem incActive_changes (h : OpenStuck cfg s zone) : ¬ SameZones s s.incActive := by
  intro hsame
  have hactive := hsame.numActive
  have hlt := h.1.2.1
  have := cfg.active_lt
  rw [show s.incActive.numActiveZones = inc32 s.numActiveZones from rfl, inc32_lt (by omega)] at hactive
  omega

theorem reserved_opened (h : Sane cfg s) (hc : (s.zoneInfo zone).cond ∈ [.empty, .closed]) {t : Zoned δ} {status : Nat}
    (ho : OpenOutcome cfg s zone false t status) (hok : status = blkStsOk) (offset : Nat) (data : List UInt8)
    (disk : δ) : ¬ SameZones s { reserved t zone offset data with raw := disk } := by
  intro hsame
  have hinfo : (reserved t zone offset data).zoneInfo = s.zoneInfo := hsame.zoneInfo
  have hnopen : (reserved t zone offset data).numOpenZones = s.numOpenZones := hsame.numOpen
  -- the zone is neither full nor open in the state before
  have hnot : (s.zoneInfo zone).cond ≠ .full ∧ (s.zoneInfo zone).cond ≠ .notWp ∧
      (s.zoneInfo zone).cond.isOpen = false := by
    simp only [List.mem_cons, List.not_mem_nil, or_false] at hc
    rcases hc with hc | hc <;> rw [hc] <;> decide
  cases ho with
  | refused _ hst _ _ => exact hst hok
  | stuck _ => exact absurd hok (by decide)
  | closesOther y hother hy hcy =>
    obtain ⟨hcinfo, hcopen, -, -⟩ := counted_fields s zone
    have hzone : (closeIfImpOpen (counted s zone) y).1.zoneInfo zone = s.zoneInfo zone := by
      rw [closeIfImpOpen, if_pos (by rw [hcinfo]; exact hcy)]
      simp [Zoned.setCond, Zoned.setZone, Zoned.decOpen, Zoned.decImpOpen, hy.symm, hcinfo]
    obtain ⟨hfull, -⟩ | ⟨-, -, hopen, -⟩ := @reserved_cases _ (closeIfImpOpen (counted s zone) y).1 zone
      (by rw [hzone]; exact hnot.2.1) offset data
    · rw [hinfo] at hfull
      exact hnot.1 hfull
    · -- an open zone less
      obtain ⟨leaked, hacc⟩ := h.accounted
      have hle := hacc.imp_le
      have hpos := hother.imp
      have hdec : (closeIfImpOpen (counted s zone) y).1.numOpenZones = dec32 s.numOpenZones := by
        rw [closeIfImpOpen, if_pos (by rw [hcinfo]; exact hcy), ← hcopen]
        rfl
      have hpred := (dec32_pos (n := s.numOpenZones) (by omega)).1
      omega
  | opens _ c _ _ hopenc _ hupdate _ =>
    have hcond : (t.zoneInfo zone).cond = c := by rw [hupdate, Function.update_self]
    obtain ⟨hfull, -⟩ | ⟨-, hadv, -⟩ := @reserved_cases _ t zone
      (by rw [hcond]; intro heq; rw [heq] at hopenc; cases hopenc) offset data
    · rw [hinfo] at hfull
      exact hnot.1 hfull
    · rw [hinfo] at hadv
      have hsamecond : (s.zoneInfo zone).cond = c := by
        rw [hadv, Function.update_self]
        exact hcond
      rw [hsamecond, hopenc] at hnot
      cases hnot.2.2

/-- A reservation in an open zone shows if it moves the pointer or fills the zone. -/
theorem reserved_same_iff (hc : (s.zoneInfo zone).cond.isOpen = true) (offset : Nat) (data : List UInt8) (disk : δ) :
    SameZones s { reserved s zone offset data with raw := disk } ↔
      ¬ (sectorSize ≤ data.length ∨ (s.zoneInfo zone).wp = (s.zoneInfo zone).start + (s.zoneInfo zone).capacity) := by
  have hwp : (s.zoneInfo zone).cond ≠ .notWp := fun heq => by rw [heq] at hc; cases hc
  have hpos : sectorSize ≤ data.length ↔ 0 < data.length / sectorSize := by
    unfold sectorSize
    omega
  rw [hpos]
  obtain ⟨hfull, heq⟩ | ⟨hroom, hinfo, hopen, himp, hactive⟩ := reserved_cases hwp offset data
  · constructor
    · intro hsame
      have hcond : (s.zoneInfo zone).cond = .full := by
        rw [← hfull]
        exact congrArg (fun f => (f zone).cond) hsame.zoneInfo.symm
      rw [hcond] at hc
      cases hc
    · intro hnot
      obtain ⟨hzero, hptr⟩ := not_or.1 hnot
      rw [Nat.eq_zero_of_not_pos hzero] at heq
      exact absurd heq hptr
  · constructor
    · intro hsame
      have hptr : (s.zoneInfo zone).wp + data.length / sectorSize = (s.zoneInfo zone).wp := by
        have h := congrArg (fun f => (f zone).wp) (hinfo.symm.trans hsame.zoneInfo)
        simpa only [Function.update_self] using h
      omega
    · intro hnot
      refine ⟨?_, hopen, himp, hactive⟩
      have hzero : data.length / sectorSize = 0 := Nat.eq_zero_of_not_pos (not_or.1 hnot).1
      show (reserved s zone offset data).zoneInfo = s.zoneInfo
      rw [hinfo, hzero]
      exact Function.update_eq_self zone s.zoneInfo

/-- A write that goes on after its checks, and where it can fail late. -/
theorem failsLate_reserve {w : WriteArgs} {offset : Nat} {opens : Bool} (hzone : zone = zoneNumber cfg w.offset)
    (hcheck : checkWrite s zone w = .reserve offset opens) :
    WriteArgs.FailsLate cfg raw s w ↔
      (opens = true ∧ OpenStuck cfg s zone ∨
        (opens = true → CanOpen cfg s zone) ∧ (raw.write s.raw w.data offset).2 ≠ blkStsOk ∧
          (opens = true ∨ sectorSize ≤ w.data.length ∨
            (s.zoneInfo zone).wp = (s.zoneInfo zone).start + (s.zoneInfo zone).capacity)) := by
  subst hzone
  constructor
  · intro h
    obtain ⟨offset', opens', hcheck', h⟩ := h
    rw [hcheck] at hcheck'
    cases hcheck'
    exact h
  · intro h
    exact ⟨offset, opens, hcheck, h⟩

theorem exec_writeRest_opening (raw : StatusOps δ) (s : Zoned δ) (zone offset : Nat) (w : WriteArgs)
    (position : Option Nat) :
    (writeRest cfg 0 zone w position (.reserve offset true)).exec (ZoneAct.semWith cfg raw) s =
      let out := (openZoneLocked cfg zone false).exec (ZoneAct.semWith cfg raw) s
      if out.2 ≠ blkStsOk then (out.1, { status := out.2, position })
      else
        ({ reserved out.1 zone offset w.data with raw := (raw.write out.1.raw w.data offset).1 },
          { status := (raw.write out.1.raw w.data offset).2, position }) := by
  rw [writeRest, Prog.exec_bind]
  dsimp only
  rw [if_pos rfl]
  by_cases hok : ((openZoneLocked cfg zone false).exec (ZoneAct.semWith cfg raw) s).2 = blkStsOk
  · rw [if_neg (fun hne => hne hok), if_neg (fun hne => hne hok), exec_reserveAndWrite_with]
  · rw [if_pos hok, if_pos hok]
    rfl

theorem failed_opening_iff (h : Sane cfg s) {w : WriteArgs} {offset : Nat} (hzone : zone = zoneNumber cfg w.offset)
    (hcheck : checkWrite s zone w = .reserve offset true) (position : Option Nat) :
    let res := (writeRest cfg 0 zone w position (.reserve offset true)).exec (ZoneAct.semWith cfg raw) s
    (res.2.status ≠ blkStsOk → SameZones s res.1) ↔ ¬ WriteArgs.FailsLate cfg raw s w := by
  intro res
  have hclosed : (s.zoneInfo zone).cond ∈ [.empty, .closed] := (checkWrite_reserve hcheck).2.2.2
  have hout := openZoneLocked_outcome (semWith_switches raw) h zone false
  have hres := @exec_writeRest_opening _ cfg raw s zone offset w position
  change res = _ at hres
  generalize (openZoneLocked cfg zone false).exec (ZoneAct.semWith cfg raw) s = out at hout hres
  obtain ⟨t, status⟩ := out
  dsimp only at hout hres
  rw [failsLate_reserve hzone hcheck]
  -- the zone has been opened, or passed for it, and the disk is as it was
  have hgoes : status = blkStsOk → t.raw = s.raw → CanOpen cfg s zone →
      ((res.2.status ≠ blkStsOk → SameZones s res.1) ↔ (raw.write s.raw w.data offset).2 = blkStsOk) := by
    intro hok hraw hcan
    have hnot := reserved_opened h hclosed hout hok offset w.data (raw.write s.raw w.data offset).1
    rw [if_neg (fun hne => hne hok), hraw] at hres
    rw [hres]
    dsimp only
    constructor
    · intro hsame
      by_contra hfail
      exact hnot (hsame hfail)
    · intro hwritten hfail
      exact absurd hwritten hfail
  have hlate : CanOpen cfg s zone →
      (¬ (true = true ∧ OpenStuck cfg s zone ∨
          (true = true → CanOpen cfg s zone) ∧ (raw.write s.raw w.data offset).2 ≠ blkStsOk ∧
            (true = true ∨ sectorSize ≤ w.data.length ∨
              (s.zoneInfo zone).wp = (s.zoneInfo zone).start + (s.zoneInfo zone).capacity)) ↔
        (raw.write s.raw w.data offset).2 = blkStsOk) := by
    intro hcan
    simp [hcan, hcan.not_stuck]
  cases hout with
  | refused _ hst hcan hstuck =>
    rw [if_pos hst] at hres
    rw [hres]
    refine ⟨fun _ hfails => ?_, fun _ _ => SameZones.refl s⟩
    rcases hfails with hfails | hfails
    · exact hstuck hfails.2
    · exact hcan (hfails.1 rfl)
  | stuck hstuck =>
    have hst : blkStsZoneOpenResource ≠ blkStsOk := by decide
    rw [if_pos hst] at hres
    rw [hres]
    refine ⟨fun hsame => absurd (hsame hst) (incActive_changes hstuck), fun hfails => ?_⟩
    exact absurd (.inl ⟨rfl, hstuck⟩) hfails
  | closesOther y hother hy hcy =>
    obtain ⟨-, -, -, hraw⟩ := counted_fields s zone
    rw [hlate hother.canOpen]
    refine hgoes rfl ?_ hother.canOpen
    rw [← hraw, closeIfImpOpen]
    split <;> rfl
  | opens _ c hcan _ _ _ _ hraw =>
    rw [hlate hcan]
    exact hgoes rfl hraw hcan

theorem failed_write_iff (h : Sane cfg s) (w : WriteArgs) (position : Option Nat) :
    let res := (writeRest cfg 0 (zoneNumber cfg w.offset) w position (checkWrite s (zoneNumber cfg w.offset) w)).exec
      (ZoneAct.semWith cfg raw) s
    (res.2.status ≠ blkStsOk → SameZones s res.1) ↔ ¬ WriteArgs.FailsLate cfg raw s w := by
  cases hcheck : checkWrite s (zoneNumber cfg w.offset) w with
  | refused =>
    refine ⟨fun _ hlate => ?_, fun _ _ => SameZones.refl s⟩
    obtain ⟨offset, opens, hcheck', -⟩ := hlate
    rw [hcheck] at hcheck'
    cases hcheck'
  | conventional =>
    refine ⟨fun _ hlate => ?_, fun _ _ => ⟨rfl, rfl, rfl, rfl⟩⟩
    obtain ⟨offset, opens, hcheck', -⟩ := hlate
    rw [hcheck] at hcheck'
    cases hcheck'
  | reserve offset opens =>
    cases opens with
    | true => exact failed_opening_iff h rfl hcheck position
    | false =>
      have hopen : (s.zoneInfo (zoneNumber cfg w.offset)).cond.isOpen = true := by
        have hcond := (checkWrite_reserve hcheck).2.2.2
        simp only [Bool.false_eq_true, if_false, List.mem_cons, List.not_mem_nil, or_false] at hcond
        rcases hcond with hc | hc <;> rw [hc] <;> rfl
      have hexec : (writeRest cfg 0 (zoneNumber cfg w.offset) w position (.reserve offset false)).exec
          (ZoneAct.semWith cfg raw) s = _ := exec_reserveAndWrite_with raw s _ offset w position
      rw [hexec, failsLate_reserve rfl hcheck]
      dsimp only
      rw [reserved_same_iff hopen]
      simp only [Bool.false_eq_true, false_and, false_or, false_implies, true_and, not_and]

theorem failed_open_iff (h : Sane cfg s) (offset : Nat) :
    ((callWith cfg raw s (.openZone offset)).2.status ≠ blkStsOk →
      SameZones s (callWith cfg raw s (.openZone offset)).1) ↔
      ¬ OpenStuck cfg s (zoneNumber cfg offset) := by
  have hexec := callWith_openZone cfg raw s offset
  cases hd : openDecision s (zoneNumber cfg offset) with
  | some status =>
    rw [hd] at hexec
    rw [hexec]
    refine ⟨fun _ hstuck => ?_, fun _ _ => SameZones.refl s⟩
    simp [openDecision, hstuck.1.1] at hd
  | none =>
    rw [hd] at hexec
    have hout := openZoneLocked_outcome (semWith_switches raw) h (zoneNumber cfg offset) true
    rw [hexec]
    dsimp only
    generalize (openZoneLocked cfg (zoneNumber cfg offset) true).exec (ZoneAct.semWith cfg raw) s = out at hout
    obtain ⟨t, status⟩ := out
    dsimp only at hout ⊢
    cases hout with
    | refused _ hst _ hstuck => exact ⟨fun _ => hstuck, fun _ _ => SameZones.refl s⟩
    | stuck hstuck =>
      have hst : blkStsZoneOpenResource ≠ blkStsOk := by decide
      exact ⟨fun hsame => absurd (hsame hst) (incActive_changes hstuck), fun hnot => absurd hstuck hnot⟩
    | closesOther y hother hy hcy => exact ⟨fun _ => hother.canOpen.not_stuck, fun _ hfail => absurd rfl hfail⟩
    | opens _ c hcan _ _ _ _ _ => exact ⟨fun _ => hcan.not_stuck, fun _ hfail => absurd rfl hfail⟩

theorem failed_reset_iff (offset : Nat) :
    ((callWith cfg raw s (.resetZone offset)).2.status ≠ blkStsOk →
      SameZones s (callWith cfg raw s (.resetZone offset)).1) ↔
      ¬ (ZoneCall.resetZone offset).FailsLate cfg raw s := by
  have hexec := callWith_resetZone cfg raw s offset
  dsimp only at hexec
  unfold ZoneCall.FailsLate
  dsimp only
  by_cases hc : (s.zoneInfo (zoneNumber cfg offset)).cond ∈ [.impOpen, .expOpen, .closed, .full]
  · obtain ⟨hnone, hinfo⟩ := resetSwitch_empties hc
    rw [hnone] at hexec
    rw [hexec]
    dsimp only
    refine ⟨fun hsame hlate => ?_, fun hlate hfail => absurd ⟨hc, hfail⟩ hlate⟩
    have hempty : (s.zoneInfo (zoneNumber cfg offset)).cond = .empty := by
      have hzone := congrArg (fun f => (f (zoneNumber cfg offset)).cond) (hinfo.symm.trans (hsame hlate.2).zoneInfo)
      simpa only [Function.update_self] using hzone.symm
    rw [hempty] at hc
    simp at hc
  · rw [resetSwitch_keeps hc] at hexec
    rw [hexec]
    exact ⟨fun _ hlate => hc hlate.1, fun _ _ => SameZones.refl s⟩

theorem exec_reportLoop (raw : StatusOps δ) (s : Zoned δ) (n zone : Nat) (acc : List Zone) :
    ((reportLoop n zone acc).exec (ZoneAct.semWith cfg raw) s).1 = s := by
  induction n generalizing zone acc with
  | zero => rfl
  | succ n ih => exact ih _ _

/-- **A call that fails changes nothing, unless it fails late.** -/
theorem failed_call_iff (raw : StatusOps δ) (disk : δ)
    (h : Machine.Reach (callStepWith cfg raw) (fun _ c => c.InDisk cfg) (initializeZoned cfg disk) s) (c : ZoneCall)
    (hc : c ≠ .resetAllZone) :
    ((callWith cfg raw s c).2.status ≠ blkStsOk → SameZones s (callWith cfg raw s c).1) ↔
      ¬ c.FailsLate cfg raw s := by
  have hs := sane_reach raw h
  cases c with
  | read offset length => exact ⟨fun _ hlate => hlate, fun _ _ => ⟨rfl, rfl, rfl, rfl⟩⟩
  | write data offset => exact failed_write_iff hs ⟨data, offset, false⟩ _
  | append data offset => exact failed_write_iff hs ⟨data, offset, true⟩ _
  | reportZones offset nrZones =>
    refine ⟨fun _ hlate => hlate, fun _ _ => ?_⟩
    rw [show (callWith cfg raw s (.reportZones offset nrZones)).1 = s from exec_reportLoop raw s _ _ _]
    exact SameZones.refl s
  | openZone offset => exact failed_open_iff hs offset
  | closeZone offset =>
    rw [callWith_closeZone]
    refine ⟨fun _ hlate => hlate, fun _ hfail => ?_⟩
    dsimp only at hfail ⊢
    unfold closeSwitch at hfail ⊢
    cases hz : (s.zoneInfo (zoneNumber cfg offset)).cond with
    | impOpen | expOpen | closed =>
      rw [hz] at hfail
      exact absurd rfl hfail
    | _ => exact SameZones.refl s
  | finishZone offset => exact ⟨fun _ hlate => hlate, fun _ hfail => absurd rfl hfail⟩
  | resetZone offset => exact failed_reset_iff offset
  | resetAllZone => exact absurd rfl hc

end

/-- Zone 1 is open, which is the limit, and zone 0 is closed: a write to zone 0 is refused. -/
theorem failed_call_iff_limit :
    ∃ s, Machine.run (callStepWith twoWideZones ramdisk.statuses) (initializeZoned twoWideZones (fun _ => 0))
      severalCalls = some s ∧
      (callWith twoWideZones ramdisk.statuses s (.write oneSector 512)).2.status = blkStsZoneOpenResource ∧
      SameZones s (callWith twoWideZones ramdisk.statuses s (.write oneSector 512)).1 := by
  obtain ⟨s, hs, hstatus, hcheck, hcond, hopen⟩ : ∃ s, Machine.run (callStepWith twoWideZones ramdisk.statuses)
        (initializeZoned twoWideZones (fun _ => 0)) severalCalls = some s ∧
      (callWith twoWideZones ramdisk.statuses s (.write oneSector 512)).2.status = blkStsZoneOpenResource ∧
      checkWrite s (zoneNumber twoWideZones 512) ⟨oneSector, 512, false⟩ = .reserve 512 true ∧
      (s.zoneInfo 0).cond = .closed ∧ s.numImpOpenZones = 0 ∧ s.numOpenZones = 1 :=
    ⟨_, rfl, by decide +kernel, by decide +kernel, by decide +kernel, by decide +kernel, by decide +kernel⟩
  refine ⟨s, hs, hstatus, (failed_call_iff ramdisk.statuses (fun _ => 0) ⟨severalCalls, Machine.Steps.of_run_ok hs
    (fun _ c hc => (severalCalls_valid c hc).inDisk)⟩ (.write oneSector 512) (by simp)).2 ?_ ?_⟩
  · intro hlate
    obtain ⟨offset, opens, hcheck', hstuck | ⟨hcan, -⟩⟩ := hlate
    · have hempty : (s.zoneInfo 0).cond = .empty := hstuck.2.1.1
      rw [hcond] at hempty
      cases hempty
    · rw [hcheck] at hcheck'
      cases hcheck'
      have hlimit : (s.zoneInfo 0).cond ∈ [.empty, .closed] → s.numOpenZones < 1 ∨ 0 < s.numImpOpenZones :=
          (hcan rfl).limit
      have := hlimit (by rw [hcond]; decide)
      omega
  · rw [hstatus]
    decide

/-- A ramdisk whose writes fail with `BLK_STS_NOSPC`. -/
def failingWrites : StatusOps (Nat → UInt8) := { ramdisk.statuses with write := fun disk _ _ => (disk, 3) }

/-- Zone 0 is open, which is the limit; zone 1 cannot be opened, but is counted as
    active. A write to an empty zone whose `raw_write` fails leaves the zone open, with
    its pointer moved on. -/
theorem failed_call_leaks :
    (∃ s, Machine.Reach (callStepWith twoZones ramdisk.statuses) (fun _ c => c.InDisk twoZones)
        (initializeZoned twoZones (fun _ => 0)) s ∧ (ZoneCall.openZone 512).InDisk twoZones ∧
      (callWith twoZones ramdisk.statuses s (.openZone 512)).2.status = blkStsZoneOpenResource ∧
      ¬ SameZones s (callWith twoZones ramdisk.statuses s (.openZone 512)).1) ∧
    (ZoneCall.write oneSector 0).InDisk twoWideZones ∧
      (callWith twoWideZones failingWrites (initializeZoned twoWideZones (fun _ => 0))
        (.write oneSector 0)).2.status = 3 ∧
      ¬ SameZones (initializeZoned twoWideZones (fun _ => 0))
        (callWith twoWideZones failingWrites (initializeZoned twoWideZones (fun _ => 0)) (.write oneSector 0)).1 := by
  have h₀ : (ZoneCall.openZone 0).InDisk twoZones := by change 0 < 2 * (1 * sectorSize); decide
  have h₁ : (ZoneCall.openZone 512).InDisk twoZones := by change 512 < 2 * (1 * sectorSize); decide
  have h₂ : (ZoneCall.write oneSector 0).InDisk twoWideZones := by change 0 < 2 * (2 * sectorSize); decide
  refine ⟨⟨_, ⟨[.openZone 0], .cons h₀ rfl (.nil _)⟩, h₁, by decide, fun hsame => ?_⟩, h₂,
    by decide +kernel, fun hsame => ?_⟩
  · exact absurd hsame.numActive (by decide)
  · exact absurd hsame.numOpen (by decide +kernel)

end Bius
