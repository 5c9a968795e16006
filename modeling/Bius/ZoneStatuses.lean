import Bius.ZoneLocks

/- The statuses of the zone emulator. Whatever a call returns is one of the statuses that
   the emulator or its backend names, all of them below 256 (`status_lt`). So the kernel
   module, which keeps one byte of a reply, takes no failure for a success. -/
namespace Bius

open Threads

variable {δ : Type} {cfg : ZonedConfig}

/-- The answers of an action that are statuses are below 256. -/
def ZoneAct.Small : (e : ZoneAct) → e.Ans → Prop
  | .openSwitch _ _, next => ∀ status, next = .result status → status < 256
  | .closeSwitch _, status => status < 256
  | .resetSwitch _, result => ∀ status, result = some status → status < 256
  | .openDecision _, decision => ∀ status, decision = some status → status < 256
  | .rawRead _ _, res => res.1 < 256
  | .rawWrite _ _ _ _, status => status < 256
  | .rawDiscardZone _, status => status < 256
  | .rawDiscardAll, status => status < 256
  | _, _ => True

theorem rawStatus_lt (ok : Bool) : rawStatus ok < 256 := by cases ok <;> decide

theorem openClosed_small (s : Zoned δ) (zone : Nat) (explicit : Bool) :
    ∀ status, (openClosed cfg s zone explicit).2 = .result status → status < 256 := by
  intro status h
  unfold openClosed at h
  split at h
  · split at h
    · cases h
    · cases h
      decide
  · dsimp only at h
    split at h
    · cases h
      decide
    · cases h
      decide

theorem openSwitch_small (s : Zoned δ) (zone : Nat) (explicit : Bool) :
    ∀ status, (openSwitch cfg s zone explicit).2 = .result status → status < 256 := by
  intro status h
  unfold openSwitch at h
  split at h
  · split at h
    · cases h
      decide
    · cases h
      decide
  · cases h
    decide
  · split at h
    · cases h
      decide
    · exact openClosed_small _ zone explicit status h
  · exact openClosed_small _ zone explicit status h
  · cases h
    decide

theorem sem_small (raw : RawOps δ) (e : ZoneAct) (s : Zoned δ) : e.Small (ZoneAct.sem cfg raw e s).2 := by
  cases e with
  | openSwitch zone explicit => exact openSwitch_small s zone explicit
  | closeSwitch zone =>
    show (closeSwitch s zone).2 < 256
    unfold closeSwitch
    split <;> simp [blkStsOk, blkStsIoerr]
  | resetSwitch zone =>
    intro status h
    change (resetSwitch s zone).2 = some status at h
    unfold resetSwitch at h
    split at h <;> cases h <;> decide
  | openDecision zone =>
    intro status h
    change openDecision s zone = some status at h
    unfold openDecision at h
    split at h <;> cases h <;> decide
  | rawRead offset length => exact rawStatus_lt _
  | rawWrite id zone offset data => exact rawStatus_lt _
  | rawDiscardZone zone => exact rawStatus_lt _
  | rawDiscardAll => exact rawStatus_lt _
  | _ => trivial

/-! ## The functions -/

theorem closeLoop_ends {skip : Nat} (n zone : Nat) : (closeLoop skip n zone).Ends ZoneAct.Small (fun _ => True) := by
  induction n generalizing zone with
  | zero => trivial
  | succ n ih =>
    unfold closeLoop
    split
    · exact ih (zone + 1)
    · intro found _
      cases found with
      | false => exact ih (zone + 1)
      | true => trivial

theorem openZoneLocked_ends (zone : Nat) (explicit : Bool) :
    (openZoneLocked cfg zone explicit).Ends ZoneAct.Small (· < 256) := by
  intro next hnext
  cases next with
  | result status => exact hnext status rfl
  | closeImp => exact (closeLoop_ends _ _).bind (fun _ _ => show blkStsOk < 256 by decide)

theorem markZoneFullLocked_ends (zone : Nat) : (markZoneFullLocked zone).Ends ZoneAct.Small (fun _ => True) :=
  fun _ _ => trivial

theorem writeRest_ends (id zone : Nat) (w : WriteArgs) (position : Option Nat) (next : WriteNext) :
    (writeRest cfg id zone w position next).Ends ZoneAct.Small (fun v => v.status < 256) := by
  cases next with
  | refused => exact show blkStsIoerr < 256 by decide
  | conventional => exact fun status hstatus => hstatus
  | reserve offset opens =>
    have hopen : (if opens then openZoneLocked cfg zone false else pure blkStsOk : ZoneProg Nat).Ends
        ZoneAct.Small (· < 256) := by
      cases opens with
      | false => exact show blkStsOk < 256 by decide
      | true => exact openZoneLocked_ends zone false
    refine hopen.bind (fun result hresult => ?_)
    split
    · exact hresult
    · intro full _
      cases full with
      | false => exact fun status hstatus => hstatus
      | true => exact (markZoneFullLocked_ends zone).bind (fun _ _ status hstatus => hstatus)

theorem reportLoop_ends (n zone : Nat) (acc : List Zone) :
    (reportLoop n zone acc).Ends ZoneAct.Small (fun v => v.status < 256) := by
  induction n generalizing zone acc with
  | zero => exact show blkStsOk < 256 by decide
  | succ n ih => exact fun _ _ => ih _ _

theorem code_ends (id : Nat) (c : ZoneCall) : (c.code cfg id).Ends ZoneAct.Small (fun v => v.status < 256) := by
  cases c with
  | read offset length => exact fun res hres => hres
  | write data offset => exact fun next _ => writeRest_ends id _ _ _ _
  | append data offset => exact fun next _ => writeRest_ends id _ _ _ _
  | reportZones offset nrZones => exact reportLoop_ends _ _ _
  | openZone offset =>
    intro decision hdecision
    cases decision with
    | none => exact (openZoneLocked_ends _ true).bind (fun result hresult => hresult)
    | some status => exact hdecision status rfl
  | closeZone offset => exact fun result hresult => hresult
  | finishZone offset => exact (markZoneFullLocked_ends _).bind (fun _ _ => show blkStsOk < 256 by decide)
  | resetZone offset =>
    intro result hresult
    cases result with
    | none => exact fun status hstatus => hstatus
    | some status => exact hresult status rfl
  | resetAllZone => exact fun _ _ status hstatus => hstatus

/-- **The statuses that calls have returned are below 256**, whatever the other threads do. -/
theorem status_lt (raw : RawOps δ) {ok : ZoneSys δ → Move ZoneCall → Prop} {disk : δ} {s : ZoneSys δ}
    (h : Machine.Reach (zoneStep cfg raw) ok (zoneInit cfg disk) s) : ∀ x ∈ s.done, x.2.2.status < 256 :=
  (Sys.ends_inv _ _ (fun id c => code_ends id c) (sem_small raw) h).2

end Bius
