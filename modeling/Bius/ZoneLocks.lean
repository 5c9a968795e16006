import Bius.ZoneCalls

/- The locks of the zone emulator. Every call takes the lock of its zone before
   `global_lock`, except that `close_imp_open_zone` takes the locks of other zones while
   it holds both; the table entry of a zone is read and changed under the zone's lock
   and the counters under `global_lock`. `code_follows` says so of every call, for any
   discipline that fits.

   So a run in which `open_zone_locked` never has to close another zone does not
   deadlock (`no_deadlock`). `no_deadlock_twoWriters` is a run that does. -/
namespace Bius

open Threads

variable {δ : Type} (cfg : ZonedConfig)

abbrev ZoneSys (δ : Type) := Sys ZoneAct ZoneAct.Ans ZoneLock ZoneRet ZoneCall (Zoned δ)

/-- The threads of the library, over a backend. -/
abbrev zoneStep (raw : RawOps δ) : ZoneSys δ → Move ZoneCall → Option (ZoneSys δ) :=
  Sys.step (fun id c => c.code cfg id) (ZoneAct.sem cfg raw)

/-- The threads before any call. -/
def zoneInit (disk : δ) : ZoneSys δ := Sys.init (initializeZoned cfg disk)

/-! ## Disciplines the code keeps to -/

abbrev ZoneDiscipline := Discipline ZoneAct ZoneAct.Ans ZoneLock

/-- The locks an action is performed under. -/
def ZoneAct.guarded : ZoneAct → ZoneLock → Prop
  | .closeIfImpOpen zone, l | .openSwitch zone _, l | .fullSwitch zone, l | .closeSwitch zone, l
  | .resetSwitch zone, l => l = .zone zone ∨ l = .global
  | .openDecision zone, l | .checkWrite zone _, l | .advance zone _ _ _, l | .zoneInfo zone, l => l = .zone zone
  | .initializeZoneInfo, l => l = .global
  | _, _ => False

/-- What a discipline may ask of the code. -/
structure Fits (d : ZoneDiscipline) : Prop where
  zone_global : ∀ zone, d.before (.zone zone) .global
  closeImp : ∀ zone explicit z, d.can (.openSwitch zone explicit) .closeImp → z ≠ zone →
    d.before (.zone zone) (.zone z) ∧ d.before .global (.zone z)
  guarded : ∀ e l, d.needs e l → e.guarded l

variable {cfg} {d : ZoneDiscipline} (hd : Fits d)
include hd

theorem closeLoop_follows {zone : Nat} (hclose : ∀ z, z ≠ zone → d.before (.zone zone) (.zone z) ∧
    d.before .global (.zone z))
    (n z : Nat) : Sys.Follows d [.global, .zone zone] (closeLoop zone n z) [.global, .zone zone] := by
  induction n generalizing z with
  | zero => exact .ret _ _ _
  | succ n ih =>
    unfold closeLoop
    split
    · exact ih (z + 1)
    · next hz =>
      refine ⟨by simpa using ⟨(hclose z hz).2, (hclose z hz).1⟩, fun l hl => ?_, fun found _ => .unlock_head _ ?_⟩
      · rcases hd.guarded _ _ hl with rfl | rfl <;> simp
      · cases found with
        | false => exact ih (z + 1)
        | true => exact .ret _ _ _

theorem openZoneLocked_follows (zone : Nat) (explicit : Bool) :
    Sys.Follows d [.zone zone] (openZoneLocked cfg zone explicit) [.zone zone] := by
  refine ⟨by simpa using hd.zone_global zone, fun l hl => ?_, fun next hnext => ?_⟩
  · rcases hd.guarded _ _ hl with rfl | rfl <;> simp
  · cases next with
    | result status => exact .unlock_head _ (.ret _ _ _)
    | closeImp =>
      exact (closeLoop_follows hd (fun z hz => hd.closeImp zone explicit z hnext hz) _ _).bind _
        (fun _ => .unlock_head _ (.ret _ _ _))

theorem markZoneFullLocked_follows (zone : Nat) :
    Sys.Follows d [.zone zone] (markZoneFullLocked zone) [.zone zone] := by
  refine ⟨by simpa using hd.zone_global zone, fun l hl => ?_, fun _ _ => .unlock_head _ (.ret _ _ _)⟩
  rcases hd.guarded _ _ hl with rfl | rfl <;> simp

theorem storeRest_follows (id zone offset : Nat) (w : WriteArgs) (position : Option Nat) (full : Bool) :
    Sys.Follows d [.zone zone] (storeRest id zone offset w position full) [] := by
  have hend : Sys.Follows d [.zone zone] (.unlock (.zone zone) (.act (.rawWrite id zone offset w.data)
      (fun status => .ret ⟨status, position, [], []⟩)) : ZoneProg ZoneRet) [] :=
    .unlock_head _ ⟨fun l hl => (hd.guarded _ _ hl).elim, fun _ _ => .ret _ _ _⟩
  cases full with
  | false => exact hend
  | true => exact (markZoneFullLocked_follows hd zone).bind _ (fun _ => hend)

theorem writeRest_follows (id zone : Nat) (w : WriteArgs) (position : Option Nat) (next : WriteNext) :
    Sys.Follows d [.zone zone] (writeRest cfg id zone w position next) [] := by
  cases next with
  | refused => exact .unlock_head _ (.ret _ _ _)
  | conventional => exact .unlock_head _ ⟨fun l hl => (hd.guarded _ _ hl).elim, fun _ _ => .ret _ _ _⟩
  | reserve offset opens =>
    have hopen : Sys.Follows d [.zone zone]
        (if opens then openZoneLocked cfg zone false else pure blkStsOk : ZoneProg Nat) [.zone zone] := by
      cases opens
      · rfl
      · exact openZoneLocked_follows hd zone false
    refine hopen.bind _ (fun result => ?_)
    split
    · exact .unlock_head _ (.ret _ _ _)
    · exact ⟨fun l hl => by rw [hd.guarded _ _ hl]; simp, fun full _ => storeRest_follows hd _ _ _ _ _ full⟩

theorem zonedWriteCommon_follows (id : Nat) (w : WriteArgs) : Sys.Follows d [] (zonedWriteCommon cfg id w) [] :=
  ⟨by simp, fun l hl => by rw [hd.guarded _ _ hl]; simp, fun _ _ => writeRest_follows hd _ _ _ _ _⟩

theorem reportLoop_follows (n zone : Nat) (acc : List Zone) : Sys.Follows d [] (reportLoop n zone acc) [] := by
  induction n generalizing zone acc with
  | zero => rfl
  | succ n ih => exact ⟨by simp, fun l hl => by rw [hd.guarded _ _ hl]; simp, fun _ _ => .unlock_head _ (ih _ _)⟩

/-- **The code of every call keeps to every discipline that fits.** -/
theorem code_follows (id : Nat) (c : ZoneCall) : Sys.Follows d [] (c.code cfg id) [] := by
  have hraw : ∀ {e : ZoneAct}, (∀ l, ¬ e.guarded l) → ∀ l, d.needs e l → l ∈ ([] : List ZoneLock) :=
    fun he l hl => absurd (hd.guarded _ _ hl) (he l)
  cases c with
  | read offset length => exact ⟨by simp, .unlock_head _ ⟨hraw (fun _ h => h), fun _ _ => .ret _ _ _⟩⟩
  | write data offset => exact zonedWriteCommon_follows hd _ _
  | append data offset => exact zonedWriteCommon_follows hd _ _
  | reportZones offset nrZones => exact reportLoop_follows hd _ _ _
  | openZone offset =>
    refine ⟨by simp, fun l hl => by rw [hd.guarded _ _ hl]; simp, fun decision _ => ?_⟩
    cases decision with
    | none => exact (openZoneLocked_follows hd _ true).bind _ (fun _ => .unlock_head _ (.ret _ _ _))
    | some status => exact .unlock_head _ (.ret _ _ _)
  | closeZone offset =>
    refine ⟨by simp, by simpa using hd.zone_global _, fun l hl => ?_,
      fun _ _ => .unlock_head _ (.unlock_head _ (.ret _ _ _))⟩
    rcases hd.guarded _ _ hl with rfl | rfl <;> simp
  | finishZone offset =>
    exact ⟨by simp, (markZoneFullLocked_follows hd _).bind _ (fun _ => .unlock_head _ (.ret _ _ _))⟩
  | resetZone offset =>
    refine ⟨by simp, by simpa using hd.zone_global _, fun l hl => ?_,
      fun result _ => .unlock_head _ (.unlock_head _ ?_)⟩
    · rcases hd.guarded _ _ hl with rfl | rfl <;> simp
    · cases result with
      | none => exact ⟨hraw (fun _ h => h), fun _ _ => .ret _ _ _⟩
      | some status => exact .ret _ _ _
  | resetAllZone =>
    exact ⟨by simp, fun l hl => by rw [hd.guarded _ _ hl]; simp,
      fun _ _ => .unlock_head _ ⟨hraw (fun _ h => h), fun _ _ => .ret _ _ _⟩⟩

omit hd

/-! ## The order of the locks -/

def ZoneLock.rank : ZoneLock → Nat
  | .zone _ => 0
  | .global => 1

/-- Locks in the order of their rank, where `open_zone_locked` does not close another
    zone. -/
def byRank : ZoneDiscipline where
  before m l := m.rank < l.rank
  needs _ _ := False
  can
    | .openSwitch _ _, next => next ≠ .closeImp
    | _, _ => True

theorem byRank_fits : Fits byRank where
  zone_global _ := by simp [byRank, ZoneLock.rank]
  closeImp _ _ _ h := absurd rfl h
  guarded _ _ h := h.elim

/-- `open_zone_locked` for this zone closes another one: no zone can be opened, but one
    of the open ones can be closed. -/
def ClosesAnother (cfg : ZonedConfig) (s : Zoned δ) (zone : Nat) : Prop :=
  ((s.zoneInfo zone).cond = .empty ∧ s.numActiveZones < cfg.maxActiveZones ∨ (s.zoneInfo zone).cond = .closed) ∧
    cfg.maxOpenZones ≤ s.numOpenZones ∧ 0 < s.numImpOpenZones

theorem closesAnother_of_closeImp {s : Zoned δ} {zone : Nat} {explicit : Bool}
    (h : (openSwitch cfg s zone explicit).2 = .closeImp) : ClosesAnother cfg s zone := by
  obtain ⟨-, ⟨status, -, ha⟩ | ⟨-, ha⟩ | ⟨hc, hopen, himp, hact, -⟩⟩ | ⟨-, ha, -⟩ :=
    openSwitch_cases cfg s zone explicit
  · rw [h] at ha; cases ha
  · rw [h] at ha; cases ha
  · simp only [List.mem_cons, List.not_mem_nil, or_false] at hc
    rcases hc with hc | hc
    · exact ⟨.inl ⟨hc, hact hc⟩, hopen, himp⟩
    · exact ⟨.inr hc, hopen, himp⟩
  · rw [h] at ha; cases ha

/-! ## Runs -/

/-- The move does not make `open_zone_locked` close another zone. -/
def LeavesOthers (cfg : ZonedConfig) (s : ZoneSys δ) : Move ZoneCall → Prop
  | .call _ _ => True
  | .step t => ∀ r zone explicit k, s.thread t = some r → r.prog = .act (.openSwitch zone explicit) k →
      ¬ ClosesAnother cfg s.shared zone

theorem LeavesOthers.admits {raw : RawOps δ} {s : ZoneSys δ} {m : Move ZoneCall} (h : LeavesOthers cfg s m) :
    Sys.Admits (ZoneAct.sem cfg raw) byRank s m := by
  cases m with
  | call t c => trivial
  | step t =>
    intro r e k hr hp
    cases e with
    | openSwitch zone explicit => exact fun hnext => h r zone explicit k hr hp (closesAnother_of_closeImp hnext)
    | _ => trivial

/-- **The locking does not deadlock**, as long as `open_zone_locked` never has to close
    another zone: no set of threads waits for locks that threads of the set hold. -/
theorem no_deadlock (raw : RawOps δ) (disk : δ) {s : ZoneSys δ}
    (h : Machine.Reach (zoneStep cfg raw) (LeavesOthers cfg) (zoneInit cfg disk) s) (S : Set Nat) : ¬ s.Deadlocked S := by
  obtain ⟨as, h⟩ := h
  exact Sys.follows_no_deadlock (code_follows byRank_fits) (fun _ _ hlt => hlt) (N := 1)
    (fun l => by cases l <;> simp [ZoneLock.rank]) ⟨as, h.mono (fun _ _ hm => hm.admits)⟩ S

/-- The zone that the next action of the program opens, if it is `openSwitch`. -/
def nextOpened : ZoneProg ZoneRet → Option Nat
  | .act (.openSwitch zone _) _ => some zone
  | _ => none

/-- `LeavesOthers`, to be evaluated. -/
def LeavesOthersNow (cfg : ZonedConfig) (s : ZoneSys δ) : Move ZoneCall → Prop
  | .call _ _ => True
  | .step t => ∀ zone ∈ (s.thread t).bind (fun r => nextOpened r.prog), ¬ ClosesAnother cfg s.shared zone

instance (s : Zoned δ) (zone : Nat) : Decidable (ClosesAnother cfg s zone) :=
  inferInstanceAs (Decidable ((_ ∨ _) ∧ _ ∧ _))

instance (s : ZoneSys δ) : (m : Move ZoneCall) → Decidable (LeavesOthersNow cfg s m)
  | .call _ _ => inferInstanceAs (Decidable True)
  | .step t => inferInstanceAs (Decidable (∀ zone ∈ (s.thread t).bind (fun r => nextOpened r.prog), _))

theorem LeavesOthersNow.leavesOthers {s : ZoneSys δ} {m : Move ZoneCall} (h : LeavesOthersNow cfg s m) :
    LeavesOthers cfg s m := by
  cases m with
  | call t c => trivial
  | step t =>
    intro r zone explicit k hr hp
    refine h zone ?_
    rw [hr, Option.bind_some, hp]
    rfl

/-- Thread 0 writes to zone 0 and has opened it, with both its locks held. Thread 1 closes
    zone 1, and waits for `global_lock`. -/
def contending : List (Move ZoneCall) :=
  .call 0 (.write oneSector 0) :: List.replicate 4 (.step 0) ++ [.call 1 (.closeZone 1024), .step 1]

theorem contending_isSome :
    (Machine.runOk (zoneStep twoWideZones ramdisk) (LeavesOthersNow twoWideZones) (zoneInit twoWideZones (fun _ => 0))
      contending).isSome = true := by
  decide +kernel

theorem no_deadlock_contending :
    ∃ s, Machine.Reach (zoneStep twoWideZones ramdisk) (LeavesOthers twoWideZones)
      (zoneInit twoWideZones (fun _ => 0)) s ∧
      s.shared.numOpenZones = 1 ∧ s.owner (.zone 0) = some 0 ∧ s.owner .global = some 0 ∧
        s.owner (.zone 1) = some 1 ∧
      s.wants 1 = some .global ∧ ¬ s.Deadlocked {0, 1} := by
  have hreach : Machine.Reach (zoneStep twoWideZones ramdisk) (LeavesOthers twoWideZones)
      (zoneInit twoWideZones (fun _ => 0)) _ :=
    ⟨contending, (Machine.Steps.of_runOk (Option.some_get contending_isSome).symm).mono
      (fun _ _ hm => LeavesOthersNow.leavesOthers hm)⟩
  exact ⟨_, hreach, by decide +kernel, by decide +kernel, by decide +kernel, by decide +kernel, by decide +kernel,
    no_deadlock ramdisk (fun _ => 0) hreach {0, 1}⟩

/-- Thread 0 has written to zone 0, which opened it, and now closes it: it holds the
    lock of zone 0 and waits for `global_lock`. Thread 1 opens zone 1 and has to close
    zone 0: it holds `global_lock` and waits for the lock of zone 0. -/
def twoWriters : List (Move ZoneCall) :=
  .call 0 (.write oneSector 0) :: List.replicate 9 (.step 0) ++
    [.call 0 (.closeZone 0), .step 0, .call 1 (.openZone 1024), .step 1, .step 1, .step 1, .step 1]

theorem twoWriters_isSome :
    (Machine.run (zoneStep twoWideZones ramdisk) (zoneInit twoWideZones (fun _ => 0)) twoWriters).isSome = true := by
  decide +kernel

theorem no_deadlock_twoWriters :
    ∃ s, Machine.Reach (zoneStep twoWideZones ramdisk) (fun _ _ => True) (zoneInit twoWideZones (fun _ => 0)) s ∧
      s.Deadlocked {0, 1} := by
  refine ⟨_, ⟨twoWriters, .of_run (Option.some_get twoWriters_isSome).symm⟩, ⟨0, .inl rfl⟩, ?_⟩
  rintro t (rfl | rfl)
  · exact ⟨.global, 1, by decide +kernel, by decide +kernel, .inr rfl⟩
  · exact ⟨.zone 0, 0, by decide +kernel, by decide +kernel, .inl rfl⟩

end Bius
