import Bius.Lib.Bytes
import Bius.Lib.Threads
import Bius.Request

/- The zone emulator of the example backends (`examples/zoned-common.h`). Its zone
   table and its three counters are shared by the threads of the library. A zone is
   protected by its own spin lock, the counters by `global_lock`.

   Each function is a program of `Threads.Prog`, lock for lock as in the source; the
   straight-line code between two lock operations is one action (`ZoneAct`), whose
   effect is a pure function of the state. The backend behind the emulator
   (`raw_read`, `raw_write`, `raw_discard`) is a parameter; `ramdisk` is that of
   `examples/zoned-ramdisk.c`. The statistics, which nothing but the signal handler
   reads, are left out.

   The counters are 32-bit unsigned. `underflow` records whether one of them has been
   decremented at zero, and `log` the writes for which space was reserved in a zone
   since it was last empty, in that order; no step reads either. -/
namespace Bius

open Threads

/-! ## Configuration and state -/

/-- The constants a backend sets, `zoneSectors` being `ZONE_SIZE / SECTOR_SIZE`. -/
structure ZonedConfig where
  numZones : Nat
  zoneSectors : Nat
  numConventionalZones : Nat
  maxOpenZones : Nat
  maxActiveZones : Nat
  sectors_pos : 0 < zoneSectors
  open_lt : maxOpenZones < 2 ^ 32
  active_lt : maxActiveZones < 2 ^ 32

/-- The conditions of a zone that the emulator uses (`enum blk_zone_cond`). -/
inductive ZoneCond where
  | notWp | empty | impOpen | expOpen | closed | full
  deriving DecidableEq, Repr

def ZoneCond.isOpen : ZoneCond → Bool
  | .impOpen | .expOpen => true
  | _ => false

def ZoneCond.isImpOpen : ZoneCond → Bool
  | .impOpen => true
  | _ => false

def ZoneCond.isActive : ZoneCond → Bool
  | .impOpen | .expOpen | .closed => true
  | _ => false

/-- `struct blk_zone`, in sectors. `conventional` is its type. -/
structure Zone where
  start : Nat
  len : Nat
  wp : Nat
  conventional : Bool
  cond : ZoneCond
  capacity : Nat
  deriving DecidableEq, Repr

/-- The three functions of a backend over its own state `δ`, and whether each of them
    succeeded: a backend returns `BLK_STS_OK` or `BLK_STS_IOERR`. -/
structure RawOps (δ : Type) where
  read : δ → Nat → Nat → δ × Bool × List UInt8
  write : δ → List UInt8 → Nat → δ × Bool
  discard : δ → Nat → Nat → δ × Bool

def rawStatus (ok : Bool) : Nat := if ok then blkStsOk else blkStsIoerr

/-- A write for which space was reserved: the number of the call, the position and
    the data. -/
structure Reserved where
  id : Nat
  pos : Nat
  data : List UInt8
  deriving DecidableEq

structure Zoned (δ : Type) where
  zoneInfo : Nat → Zone
  numOpenZones : Nat
  numImpOpenZones : Nat
  numActiveZones : Nat
  raw : δ
  underflow : Bool
  log : Nat → List Reserved

def blkStsZoneOpenResource : Nat := 15
def blkStsZoneActiveResource : Nat := 16

/-- `counter++` and `counter--` of an `unsigned int`. -/
def inc32 (n : Nat) : Nat := (n + 1) % 2 ^ 32
def dec32 (n : Nat) : Nat := if n = 0 then 2 ^ 32 - 1 else n - 1

section
variable {δ : Type}

namespace Zoned

def setZone (s : Zoned δ) (zone : Nat) (z : Zone) : Zoned δ :=
  { s with zoneInfo := Function.update s.zoneInfo zone z }

def setCond (s : Zoned δ) (zone : Nat) (cond : ZoneCond) : Zoned δ :=
  s.setZone zone { s.zoneInfo zone with cond := cond }

def decOpen (s : Zoned δ) : Zoned δ :=
  { s with numOpenZones := dec32 s.numOpenZones, underflow := s.underflow || s.numOpenZones == 0 }

def decImpOpen (s : Zoned δ) : Zoned δ :=
  { s with numImpOpenZones := dec32 s.numImpOpenZones, underflow := s.underflow || s.numImpOpenZones == 0 }

def decActive (s : Zoned δ) : Zoned δ :=
  { s with numActiveZones := dec32 s.numActiveZones, underflow := s.underflow || s.numActiveZones == 0 }

def incOpen (s : Zoned δ) : Zoned δ := { s with numOpenZones := inc32 s.numOpenZones }

def incImpOpen (s : Zoned δ) : Zoned δ := { s with numImpOpenZones := inc32 s.numImpOpenZones }

def incActive (s : Zoned δ) : Zoned δ := { s with numActiveZones := inc32 s.numActiveZones }

end Zoned

variable (cfg : ZonedConfig)

/-- A zone as `initialize_zone_info` leaves it; behind the table memory is zero. -/
def initialZone (zone : Nat) : Zone :=
  if zone < cfg.numConventionalZones then
    ⟨cfg.zoneSectors * zone, cfg.zoneSectors, cfg.zoneSectors * zone, true, .notWp, cfg.zoneSectors⟩
  else if zone < cfg.numZones then
    ⟨cfg.zoneSectors * zone, cfg.zoneSectors, cfg.zoneSectors * zone, false, .empty, cfg.zoneSectors⟩
  else ⟨0, 0, 0, true, .notWp, 0⟩

/-- `initialize_zone_info`. -/
def initializeZoneInfo (s : Zoned δ) : Zoned δ :=
  { s with
    zoneInfo := initialZone cfg
    numOpenZones := 0
    numImpOpenZones := 0
    numActiveZones := 0
    log := fun _ => [] }

/-- `initialize`. -/
def initializeZoned (raw : δ) : Zoned δ :=
  initializeZoneInfo cfg ⟨fun _ => ⟨0, 0, 0, true, .notWp, 0⟩, 0, 0, 0, raw, false, fun _ => []⟩

/-- `zone_number`, an `unsigned int`. -/
def zoneNumber (offset : Nat) : Nat := offset / (cfg.zoneSectors * sectorSize) % 2 ^ 32

/-! ## The code between lock operations -/

/-- The body of the loop of `close_imp_open_zone`: whether the zone was closed. -/
def closeIfImpOpen (s : Zoned δ) (zone : Nat) : Zoned δ × Bool :=
  if (s.zoneInfo zone).cond = .impOpen then ((s.setCond zone .closed).decOpen.decImpOpen, true)
  else (s, false)

/-- How the switch of `open_zone_locked` ends: with a result, or with a call of
    `close_imp_open_zone`. -/
inductive OpenNext where
  | result (status : Nat)
  | closeImp
  deriving DecidableEq

/-- The cases EMPTY (from the limit of open zones on) and CLOSED of the switch. -/
def openClosed (s : Zoned δ) (zone : Nat) (explicit : Bool) : Zoned δ × OpenNext :=
  if cfg.maxOpenZones ≤ s.numOpenZones then
    if 0 < s.numImpOpenZones then (s, .closeImp) else (s, .result blkStsZoneOpenResource)
  else
    let s := s.incOpen
    if explicit then (s.setCond zone .expOpen, .result blkStsOk)
    else (s.incImpOpen.setCond zone .impOpen, .result blkStsOk)

/-- The switch of `open_zone_locked`. -/
def openSwitch (s : Zoned δ) (zone : Nat) (explicit : Bool) : Zoned δ × OpenNext :=
  match (s.zoneInfo zone).cond with
  | .impOpen =>
    if explicit then (s.decImpOpen.setCond zone .expOpen, .result blkStsOk) else (s, .result blkStsOk)
  | .expOpen => (s, .result blkStsOk)
  | .empty =>
    if cfg.maxActiveZones ≤ s.numActiveZones then (s, .result blkStsZoneActiveResource)
    else openClosed cfg s.incActive zone explicit
  | .closed => openClosed cfg s zone explicit
  | _ => (s, .result blkStsIoerr)

/-- The end of the switch of `mark_zone_full_locked`. -/
def setFull (s : Zoned δ) (zone : Nat) : Zoned δ :=
  s.setZone zone { s.zoneInfo zone with
    cond := .full, wp := (s.zoneInfo zone).start + (s.zoneInfo zone).len }

/-- The switch of `mark_zone_full_locked`. -/
def fullSwitch (s : Zoned δ) (zone : Nat) : Zoned δ × Nat :=
  match (s.zoneInfo zone).cond with
  | .impOpen => (setFull s.decImpOpen.decOpen.decActive zone, blkStsOk)
  | .expOpen => (setFull s.decOpen.decActive zone, blkStsOk)
  | .closed => (setFull s.decActive zone, blkStsOk)
  | .empty | .full => (setFull s zone, blkStsOk)
  | _ => (s, blkStsIoerr)

theorem fullSwitch_raw (s : Zoned δ) (zone : Nat) : (fullSwitch s zone).1.raw = s.raw := by
  unfold fullSwitch
  split <;> rfl

/-- The end of the switch of `zoned_close_zone`. -/
def setClosed (s : Zoned δ) (zone : Nat) : Zoned δ :=
  if (s.zoneInfo zone).wp = (s.zoneInfo zone).start then (s.setCond zone .empty).decActive
  else s.setCond zone .closed

/-- The switch of `zoned_close_zone`. -/
def closeSwitch (s : Zoned δ) (zone : Nat) : Zoned δ × Nat :=
  match (s.zoneInfo zone).cond with
  | .impOpen => (setClosed s.decImpOpen.decOpen zone, blkStsOk)
  | .expOpen => (setClosed s.decOpen zone, blkStsOk)
  | .closed => (setClosed s zone, blkStsOk)
  | _ => (s, blkStsIoerr)

/-- The end of the switch of `zoned_reset_zone`. -/
def setEmpty (s : Zoned δ) (zone : Nat) : Zoned δ :=
  { s.setZone zone { s.zoneInfo zone with cond := .empty, wp := (s.zoneInfo zone).start } with
    log := Function.update s.log zone [] }

/-- The switch of `zoned_reset_zone`: a status to be returned at once, or none. -/
def resetSwitch (s : Zoned δ) (zone : Nat) : Zoned δ × Option Nat :=
  match (s.zoneInfo zone).cond with
  | .empty => (s, some blkStsOk)
  | .impOpen => (setEmpty s.decImpOpen.decOpen.decActive zone, none)
  | .expOpen => (setEmpty s.decOpen.decActive zone, none)
  | .closed => (setEmpty s.decActive zone, none)
  | .full => (setEmpty s zone, none)
  | _ => (s, some blkStsIoerr)

/-- The switch of `zoned_open_zone`: whether `open_zone_locked` is called, or a
    status. -/
def openDecision (s : Zoned δ) (zone : Nat) : Option Nat :=
  match (s.zoneInfo zone).cond with
  | .empty | .impOpen | .closed => none
  | .expOpen => some blkStsOk
  | _ => some blkStsIoerr

/-- The arguments of `zoned_write_common`; the length is that of the data. -/
structure WriteArgs where
  data : List UInt8
  offset : Nat
  append : Bool
  deriving DecidableEq

/-- How `zoned_write_common` goes on after its checks: with an error, without any
    change of a conventional zone, or with a reservation at `offset`, for which the
    zone may have to be opened first. -/
inductive WriteNext where
  | refused
  | conventional
  | reserve (offset : Nat) (opens : Bool)
  deriving DecidableEq

/-- The checks of `zoned_write_common`. -/
def checkWrite (s : Zoned δ) (zone : Nat) (w : WriteArgs) : WriteNext :=
  let z := s.zoneInfo zone
  if z.conventional then if w.append then .refused else .conventional
  else
    let offset := if w.append then z.wp * sectorSize else w.offset
    if !w.append && z.wp * sectorSize != w.offset then .refused
    else if (z.start + z.capacity) * sectorSize < offset + w.data.length then .refused
    else
      match z.cond with
      | .empty | .closed => .reserve offset true
      | .impOpen | .expOpen => .reserve offset false
      | _ => .refused

/-- The position `zoned_write_common` stores for an append, before its other checks. -/
def appendPosition (s : Zoned δ) (zone : Nat) (w : WriteArgs) : Option Nat :=
  if !(s.zoneInfo zone).conventional && w.append then some ((s.zoneInfo zone).wp * sectorSize) else none

/-- `wp += length / SECTOR_SIZE`: whether the zone is full then. -/
def advance (s : Zoned δ) (zone id offset : Nat) (data : List UInt8) : Zoned δ × Bool :=
  let z := s.zoneInfo zone
  let wp := z.wp + data.length / sectorSize
  ({ s.setZone zone { z with wp := wp } with
      log := Function.update s.log zone (s.log zone ++ [⟨id, offset, data⟩]) },
   decide (wp = z.start + z.capacity))

/-! ## The functions -/

inductive ZoneLock where
  | zone (n : Nat)
  | global
  deriving DecidableEq

/-- The actions. -/
inductive ZoneAct where
  | closeIfImpOpen (zone : Nat)
  | openSwitch (zone : Nat) (explicit : Bool)
  | fullSwitch (zone : Nat)
  | closeSwitch (zone : Nat)
  | resetSwitch (zone : Nat)
  | initializeZoneInfo
  | openDecision (zone : Nat)
  | checkWrite (zone : Nat) (w : WriteArgs)
  | advance (zone id offset : Nat) (data : List UInt8)
  | zoneInfo (zone : Nat)
  | rawRead (offset length : Nat)
  | rawWrite (id zone offset : Nat) (data : List UInt8)
  | rawDiscardZone (zone : Nat)
  | rawDiscardAll
  deriving DecidableEq

/-- What an action answers. -/
@[reducible] def ZoneAct.Ans : ZoneAct → Type
  | .closeIfImpOpen _ => Bool
  | .openSwitch _ _ => OpenNext
  | .fullSwitch _ => Nat
  | .closeSwitch _ => Nat
  | .resetSwitch _ => Option Nat
  | .initializeZoneInfo => Unit
  | .openDecision _ => Option Nat
  | .checkWrite _ _ => WriteNext × Option Nat
  | .advance _ _ _ _ => Bool
  | .zoneInfo _ => Zone
  | .rawRead _ _ => Nat × List UInt8
  | .rawWrite _ _ _ _ => Nat
  | .rawDiscardZone _ => Nat
  | .rawDiscardAll => Nat

/-- What an action does. -/
def ZoneAct.sem (raw : RawOps δ) : (e : ZoneAct) → Zoned δ → Zoned δ × e.Ans
  | .closeIfImpOpen zone, s => Bius.closeIfImpOpen s zone
  | .openSwitch zone explicit, s => Bius.openSwitch cfg s zone explicit
  | .fullSwitch zone, s => Bius.fullSwitch s zone
  | .closeSwitch zone, s => Bius.closeSwitch s zone
  | .resetSwitch zone, s => Bius.resetSwitch s zone
  | .initializeZoneInfo, s => (Bius.initializeZoneInfo cfg s, ())
  | .openDecision zone, s => (s, Bius.openDecision s zone)
  | .checkWrite zone w, s => (s, Bius.checkWrite s zone w, appendPosition s zone w)
  | .advance zone id offset data, s => Bius.advance s zone id offset data
  | .zoneInfo zone, s => (s, s.zoneInfo zone)
  | .rawRead offset length, s =>
    let res := raw.read s.raw offset length
    ({ s with raw := res.1 }, rawStatus res.2.1, res.2.2)
  | .rawWrite _ _ offset data, s =>
    let res := raw.write s.raw data offset
    ({ s with raw := res.1 }, rawStatus res.2)
  | .rawDiscardZone zone, s =>
    let res := raw.discard s.raw ((s.zoneInfo zone).start * sectorSize) ((s.zoneInfo zone).len * sectorSize)
    ({ s with raw := res.1 }, rawStatus res.2)
  | .rawDiscardAll, s =>
    let res := raw.discard s.raw 0 (cfg.numZones * (cfg.zoneSectors * sectorSize))
    ({ s with raw := res.1 }, rawStatus res.2)

/-- What a call returns: a status, the position an append has stored, and what a read
    or a report has copied. -/
structure ZoneRet where
  status : Nat
  position : Option Nat := none
  bytes : List UInt8 := []
  zones : List Zone := []
  deriving DecidableEq

abbrev ZoneProg (ρ : Type) := Prog ZoneAct ZoneAct.Ans ZoneLock ρ

abbrev perform (e : ZoneAct) : ZoneProg e.Ans := Prog.perform e

/-- The loop of `close_imp_open_zone` over `n` more zones from `zone` on. -/
def closeLoop (skip : Nat) : Nat → Nat → ZoneProg Unit
  | 0, _ => return ()
  | n + 1, zone =>
    if zone = skip then closeLoop skip n (zone + 1)
    else do
      .take (.zone zone)
      let found : Bool ← perform (.closeIfImpOpen zone)
      .release (.zone zone)
      if found then return () else closeLoop skip n (zone + 1)

/-- `close_imp_open_zone`. -/
def closeImpOpenZone (zoneToSkip : Nat) : ZoneProg Unit :=
  closeLoop zoneToSkip (cfg.numZones - cfg.numConventionalZones) cfg.numConventionalZones

/-- `open_zone_locked` after its switch. -/
def openRest (zone : Nat) : OpenNext → ZoneProg Nat
  | .result status => do
    .release .global
    return status
  | .closeImp => do
    closeImpOpenZone cfg zone
    .release .global
    return blkStsOk

/-- `open_zone_locked`. -/
def openZoneLocked (zone : Nat) (explicit : Bool) : ZoneProg Nat := do
  .take .global
  let next : OpenNext ← perform (.openSwitch zone explicit)
  openRest cfg zone next

/-- `mark_zone_full_locked`. -/
def markZoneFullLocked (zone : Nat) : ZoneProg Nat := do
  .take .global
  let result : Nat ← perform (.fullSwitch zone)
  .release .global
  return result

/-- `zoned_read`. -/
def zonedRead (offset length : Nat) : ZoneProg ZoneRet := do
  .take (.zone (zoneNumber cfg offset))
  .release (.zone (zoneNumber cfg offset))
  let res : Nat × List UInt8 ← perform (.rawRead offset length)
  return { status := res.1, bytes := res.2 }

/-- `zoned_write_common` after the reservation. -/
def storeRest (id zone offset : Nat) (w : WriteArgs) (position : Option Nat) (full : Bool) : ZoneProg ZoneRet := do
  if full then discard (markZoneFullLocked zone)
  .release (.zone zone)
  let status : Nat ← perform (.rawWrite id zone offset w.data)
  return { status, position }

/-- `zoned_write_common` from the reservation on. -/
def reserveAndWrite (id zone offset : Nat) (w : WriteArgs) (position : Option Nat) : ZoneProg ZoneRet := do
  let full : Bool ← perform (.advance zone id offset w.data)
  storeRest id zone offset w position full

/-- `zoned_write_common` after its checks. -/
def writeRest (id zone : Nat) (w : WriteArgs) (position : Option Nat) : WriteNext → ZoneProg ZoneRet
  | .refused => do
    .release (.zone zone)
    return { status := blkStsIoerr, position }
  | .conventional => do
    .release (.zone zone)
    let status : Nat ← perform (.rawWrite id zone w.offset w.data)
    return { status }
  | .reserve offset opens => do
    let result ← (if opens then openZoneLocked cfg zone false else pure blkStsOk : ZoneProg Nat)
    if result ≠ blkStsOk then
      .release (.zone zone)
      return { status := result, position }
    else reserveAndWrite id zone offset w position

/-- `zoned_write_common`; `id` is the number of the call. -/
def zonedWriteCommon (id : Nat) (w : WriteArgs) : ZoneProg ZoneRet := do
  let zone := zoneNumber cfg w.offset
  .take (.zone zone)
  let next : WriteNext × Option Nat ← perform (.checkWrite zone w)
  writeRest cfg id zone w next.2 next.1

/-- `zoned_write` and `zoned_append_zone`. -/
def zonedWrite (id : Nat) (data : List UInt8) (offset : Nat) : ZoneProg ZoneRet :=
  zonedWriteCommon cfg id ⟨data, offset, false⟩

def zonedAppendZone (id : Nat) (data : List UInt8) (offset : Nat) : ZoneProg ZoneRet :=
  zonedWriteCommon cfg id ⟨data, offset, true⟩

/-- The loop of `zoned_report_zones`. -/
def reportLoop : Nat → Nat → List Zone → ZoneProg ZoneRet
  | 0, _, acc => return { status := blkStsOk, zones := acc }
  | n + 1, zone, acc => do
    .take (.zone zone)
    let z : Zone ← perform (.zoneInfo zone)
    .release (.zone zone)
    reportLoop n (zone + 1) (acc ++ [z])

/-- `zoned_report_zones`. -/
def zonedReportZones (offset nrZones : Nat) : ZoneProg ZoneRet :=
  reportLoop (min nrZones (cfg.numZones - zoneNumber cfg offset)) (zoneNumber cfg offset) []

/-- The cases of the switch of `zoned_open_zone`. -/
def openDecided (zone : Nat) : Option Nat → ZoneProg Nat
  | none => openZoneLocked cfg zone true
  | some status => return status

/-- `zoned_open_zone`. -/
def zonedOpenZone (offset : Nat) : ZoneProg ZoneRet := do
  let zone := zoneNumber cfg offset
  .take (.zone zone)
  let decision : Option Nat ← perform (.openDecision zone)
  let result ← openDecided cfg zone decision
  .release (.zone zone)
  return { status := result }

/-- `zoned_close_zone`. -/
def zonedCloseZone (offset : Nat) : ZoneProg ZoneRet := do
  let zone := zoneNumber cfg offset
  .take (.zone zone)
  .take .global
  let result : Nat ← perform (.closeSwitch zone)
  .release .global
  .release (.zone zone)
  return { status := result }

/-- `zoned_finish_zone`. -/
def zonedFinishZone (offset : Nat) : ZoneProg ZoneRet := do
  let zone := zoneNumber cfg offset
  .take (.zone zone)
  discard (markZoneFullLocked zone)
  .release (.zone zone)
  return { status := blkStsOk }

/-- `zoned_reset_zone`. -/
def zonedResetZone (offset : Nat) : ZoneProg ZoneRet := do
  let zone := zoneNumber cfg offset
  .take (.zone zone)
  .take .global
  let result : Option Nat ← perform (.resetSwitch zone)
  .release .global
  .release (.zone zone)
  match result with
  | some status => return { status }
  | none =>
    let status : Nat ← perform (.rawDiscardZone zone)
    return { status }

/-- `zoned_reset_all_zone`. -/
def zonedResetAllZone : ZoneProg ZoneRet := do
  .take .global
  perform .initializeZoneInfo
  .release .global
  let status : Nat ← perform .rawDiscardAll
  return { status }

/-- The calls of the library's threads. -/
inductive ZoneCall where
  | read (offset length : Nat)
  | write (data : List UInt8) (offset : Nat)
  | append (data : List UInt8) (offset : Nat)
  | reportZones (offset nrZones : Nat)
  | openZone (offset : Nat)
  | closeZone (offset : Nat)
  | finishZone (offset : Nat)
  | resetZone (offset : Nat)
  | resetAllZone
  deriving DecidableEq

/-- The code of a call. -/
def ZoneCall.code (id : Nat) : ZoneCall → ZoneProg ZoneRet
  | .read offset length => zonedRead cfg offset length
  | .write data offset => zonedWrite cfg id data offset
  | .append data offset => zonedAppendZone cfg id data offset
  | .reportZones offset nrZones => zonedReportZones cfg offset nrZones
  | .openZone offset => zonedOpenZone cfg offset
  | .closeZone offset => zonedCloseZone cfg offset
  | .finishZone offset => zonedFinishZone cfg offset
  | .resetZone offset => zonedResetZone cfg offset
  | .resetAllZone => zonedResetAllZone

/-- The offset of a call is inside the disk, and the length of its data is a positive
    multiple of the sector size. -/
def ZoneCall.Valid : ZoneCall → Prop
  | .write data offset | .append data offset =>
    offset < cfg.numZones * (cfg.zoneSectors * sectorSize) ∧ 0 < data.length ∧ sectorSize ∣ data.length
  | .read offset _ | .reportZones offset _ | .openZone offset | .closeZone offset | .finishZone offset
  | .resetZone offset => offset < cfg.numZones * (cfg.zoneSectors * sectorSize)
  | .resetAllZone => True

/-- The call of `open_zone_locked` that a call makes when it is run alone from `s`:
    the zone, and whether it is opened explicitly. -/
def ZoneCall.opening (s : Zoned δ) : ZoneCall → Option (Nat × Bool)
  | .write data offset =>
    match checkWrite s (zoneNumber cfg offset) ⟨data, offset, false⟩ with
    | .reserve _ true => some (zoneNumber cfg offset, false)
    | _ => none
  | .append data offset =>
    match checkWrite s (zoneNumber cfg offset) ⟨data, offset, true⟩ with
    | .reserve _ true => some (zoneNumber cfg offset, false)
    | _ => none
  | .openZone offset =>
    match openDecision s (zoneNumber cfg offset) with
    | none => some (zoneNumber cfg offset, true)
    | some _ => none
  | _ => none

/-- A call run alone. The number of the call only shows in the log. -/
def callAlone (raw : RawOps δ) (s : Zoned δ) (c : ZoneCall) : Zoned δ × ZoneRet :=
  (c.code cfg 0).exec (ZoneAct.sem cfg raw) s

/-- Calls run one at a time. -/
def callStep (raw : RawOps δ) (s : Zoned δ) (c : ZoneCall) : Option (Zoned δ) := some (callAlone cfg raw s c).1

/-- The backend of `examples/zoned-ramdisk.c`. -/
def ramdisk : RawOps (Nat → UInt8) where
  read disk offset length := (disk, true, Bytes.slice disk offset length)
  write disk data offset := (Bytes.splice disk offset data, true)
  discard disk offset length := (Bytes.splice disk offset (List.replicate length 0), true)

end

/-! ## Small tables -/

/-- Two zones, one of which may be open and both active. -/
def twoZones : ZonedConfig := ⟨2, 1, 0, 1, 2, by decide, by decide, by decide⟩

/-- Two zones of two sectors, one of which may be open and both active. -/
def twoWideZones : ZonedConfig := ⟨2, 2, 0, 1, 2, by decide, by decide, by decide⟩

/-- One conventional and one sequential zone. -/
def oneConventional : ZonedConfig := ⟨2, 1, 1, 1, 2, by decide, by decide, by decide⟩

def oneSector : List UInt8 := List.replicate 512 1

theorem oneSector_valid {offset : Nat} (h : offset < 2048) : (ZoneCall.write oneSector offset).Valid twoWideZones := by
  have hlen : oneSector.length = 512 := List.length_replicate
  exact ⟨h, by rw [hlen]; decide, 1, by rw [hlen]; rfl⟩

/-- A write opens zone 0, which is then closed. Zone 1 is opened, and written to. -/
def severalCalls : List ZoneCall := [.write oneSector 0, .closeZone 0, .openZone 1024, .write oneSector 1024]

theorem severalCalls_valid : ∀ c ∈ severalCalls, c.Valid twoWideZones := by
  intro c hc
  simp only [severalCalls, List.mem_cons, List.not_mem_nil, or_false] at hc
  rcases hc with rfl | rfl | rfl | rfl
  · exact oneSector_valid (by decide)
  · show 0 < 2 * (2 * sectorSize)
    decide
  · show 1024 < 2 * (2 * sectorSize)
    decide
  · exact oneSector_valid (by decide)

end Bius
