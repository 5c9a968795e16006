import Bius.Lib.Sums
import Bius.Programs

/- What holds between the steps of the programs (`Hosted`), and that every step keeps it.
   A device belongs to the program that has created it, and to nobody else: while one
   thread of the program has to do with it, it is on the list under the name of the
   program, and `num_connection` is the number of threads that are attached to it. The
   files of a program are closed when none of its threads is in a call, so nobody
   connects to a device that is being removed. -/
namespace Bius

open Sums

/-! ## What the steps do -/

/-- When a step can be made, and what it does. -/
inductive Programs.Stepped (s : Programs) : ProgAct → Programs → Prop where
  | exec (diskName : List UInt8) (numThreads : Nat) : Stepped s (.exec diskName numThreads)
      (s.spawn s.programs
        ⟨diskName, if numThreads ≠ 0 then numThreads else biusDefaultNumThreads, s.threads, 0, 0, false⟩)
  | devOpen (t c : Nat) : s.Runs t → s.thread t = .opening → c ∉ s.races.devs.opened →
      Stepped s (.devOpen t c)
        (s.go t (.opened c) ⟨{ s.races.devs with opened := s.races.devs.opened ++ [c] }, s.races.point⟩)
  | write (t c : Nat) : s.Runs t → s.thread t = .opened c → s.races.point t = .outside →
      Stepped s (.write t) (s.go t (.initializing c) (s.races.go t (.init c) s.races.devs))
  | create (t c : Nat) : t < s.threads → s.races.point t = .init c → (s.its t).main = t →
      Stepped s (.call t) ((s.go t (s.thread t) (s.races.go t (.got c s.races.devs.created)
        (s.races.devs.createBlockDevice (s.its t).diskName))).setDevice
          (Function.update s.device (s.owner t) (some s.races.devs.created)))
  | connect (t c d : Nat) : t < s.threads → s.races.point t = .init c → (s.its t).main ≠ t →
      s.races.devs.getBlockDevice (connectName (s.its t).diskName) = some d →
      Stepped s (.call t) (s.go t (s.thread t) (s.races.go t (.got c d) s.races.devs))
  | refuse (t c : Nat) : t < s.threads → s.races.point t = .init c → (s.its t).main ≠ t →
      s.races.devs.getBlockDevice (connectName (s.its t).diskName) = none →
      Stepped s (.call t) (s.go t (.refused c) (s.races.go t .outside s.races.devs))
  | countUp (t c d : Nat) : t < s.threads → s.races.point t = .got c d →
      Stepped s (.call t) (s.go t (s.thread t) (s.races.go t (.counted c d) (s.races.devs.countUp d)))
  | store (t c d : Nat) : t < s.threads → s.races.point t = .counted c d →
      Stepped s (.call t) (s.go t (.attached c) (s.races.go t .outside (s.races.devs.store c d)))
  | countDown (t c d : Nat) : t < s.threads → s.races.point t = .releasing c d →
      Stepped s (.call t) (s.go t .closed (s.races.go t
        (if ((s.races.devs.countDown d).close c).numConnection d = 0 then .removing d else .outside)
        ((s.races.devs.countDown d).close c)))
  | find (t d e : Nat) : t < s.threads → s.races.point t = .removing d →
      s.races.devs.getBlockDevice (s.races.devs.name d) = some e →
      Stepped s (.call t) (s.go t (s.thread t) (s.races.go t (.unlinking e) s.races.devs))
  | miss (t d : Nat) : t < s.threads → s.races.point t = .removing d →
      s.races.devs.getBlockDevice (s.races.devs.name d) = none →
      Stepped s (.call t) (s.go t (s.thread t) (s.races.go t .outside s.races.devs))
  | listDel (t d : Nat) : t < s.threads → s.races.point t = .unlinking d →
      Stepped s (.call t) ((s.go t (s.thread t) (s.races.go t .outside (s.races.devs.listDel d))).setDevice
        (Function.update s.device (s.owner t) none))
  | start (t c : Nat) : s.Runs t → s.thread t = .attached c → (s.its t).main = t →
    (s.its t).next < (s.its t).numThreads - 1 →
      Stepped s (.pthreadCreate t true)
        (s.spawn (s.owner t) { s.its t with next := (s.its t).next + 1 })
  | startFails (t c : Nat) : s.Runs t → s.thread t = .attached c → (s.its t).main = t →
      (s.its t).next < (s.its t).numThreads - 1 → Stepped s (.pthreadCreate t false)
        (s.setProgram (s.owner t) { s.its t with next := (s.its t).next + 1, refusals := (s.its t).refusals + 1 })
  | serve (t c : Nat) : s.Runs t → s.thread t = .attached c →
      ((s.its t).main = t → (s.its t).numThreads - 1 ≤ (s.its t).next) →
      Stepped s (.serve t) (s.go t (.serving c) s.races)
  | exit (p : Nat) : p < s.programs → (s.program p).exiting = false →
      Stepped s (.exit p) (s.setProgram p { s.program p with exiting := true })
  | close (t c : Nat) : t < s.threads → (s.its t).exiting = true → s.Quiet (s.owner t) →
      (s.thread t).connection = some c → s.races.devs.blockDev c = none →
      Stepped s (.release t) (s.go t .closed (s.races.go t .outside (s.races.devs.close c)))
  | release (t c d : Nat) : t < s.threads → (s.its t).exiting = true → s.Quiet (s.owner t) →
      (s.thread t).connection = some c → s.races.devs.blockDev c = some d →
      Stepped s (.release t) (s.go t (s.thread t) (s.races.go t (.releasing c d) s.races.devs))

theorem progStep_call {s s' : Programs} {t : Nat} (h : progStep s (.call t) = some s') :
    t < s.threads ∧ ∃ act races, s.nextSection t = some act ∧ raceStep s.races act = some races ∧
      s' = (s.go t (s.arrives t races) races).setDevice (s.deviceAfter t) := by
  simp only [progStep] at h
  split at h
  · next hlt =>
    obtain ⟨act, hact, h⟩ := Option.bind_eq_some_iff.1 h
    obtain ⟨races, hraces, rfl⟩ := Option.map_eq_some_iff.1 h
    exact ⟨hlt, act, races, hact, hraces, rfl⟩
  · cases h

theorem Programs.call_stays {s : Programs} {t : Nat} {races : Races} (hx : s.arrives t races = s.thread t)
    (hd : s.deviceAfter t = s.device) :
    (s.go t (s.arrives t races) races).setDevice (s.deviceAfter t) = s.go t (s.thread t) races := by
  rw [hx, hd]
  rfl

theorem progStep_call_cases {s s' : Programs} {t : Nat} (h : progStep s (.call t) = some s') :
    s.Stepped (.call t) s' := by
  obtain ⟨hlt, act, races, hact, hraces, rfl⟩ := progStep_call h
  unfold Programs.nextSection at hact
  cases hp : s.races.point t with
  | outside =>
    rw [hp] at hact
    cases hact
  | init c =>
    rw [hp] at hact
    simp only [Option.some.injEq] at hact
    subst hact
    by_cases hmain : (s.its t).main = t
    · simp only [if_pos hmain, raceStep, hp, Option.some.injEq] at hraces
      subst hraces
      have hx : s.arrives t (s.races.go t (.got c s.races.devs.created)
          (s.races.devs.createBlockDevice (s.its t).diskName)) = s.thread t := by
        simp [Programs.arrives, hp, Races.go]
      have hd : s.deviceAfter t = Function.update s.device (s.owner t) (some s.races.devs.created) := by
        simp [Programs.deviceAfter, hp, hmain]
      rw [hx, hd]
      exact .create t c hlt hp hmain
    · have hd : s.deviceAfter t = s.device := by simp [Programs.deviceAfter, hp, hmain]
      simp only [if_neg hmain, raceStep, hp] at hraces
      split at hraces
      · next hfind =>
        cases hraces
        have hx : s.arrives t (s.races.go t .outside s.races.devs) = .refused c := by
          simp [Programs.arrives, hp, Races.go]
        rw [hx, hd]
        exact .refuse t c hlt hp hmain hfind
      · next d hfind =>
        cases hraces
        rw [Programs.call_stays (by simp [Programs.arrives, hp, Races.go]) hd]
        exact .connect t c d hlt hp hmain hfind
  | got c d =>
    rw [hp] at hact
    cases hact
    simp only [raceStep, hp, Option.some.injEq] at hraces
    subst hraces
    rw [Programs.call_stays (by simp [Programs.arrives, hp]) (by simp [Programs.deviceAfter, hp])]
    exact .countUp t c d hlt hp
  | counted c d =>
    rw [hp] at hact
    cases hact
    simp only [raceStep, hp, Option.some.injEq] at hraces
    subst hraces
    have hx : s.arrives t (s.races.go t .outside (s.races.devs.store c d)) = .attached c := by
      simp [Programs.arrives, hp]
    have hd : s.deviceAfter t = s.device := by simp [Programs.deviceAfter, hp]
    rw [hx, hd]
    exact .store t c d hlt hp
  | releasing c d =>
    rw [hp] at hact
    cases hact
    simp only [raceStep, hp, Option.some.injEq] at hraces
    subst hraces
    have hx : ∀ races, s.arrives t races = .closed := fun races => by simp [Programs.arrives, hp]
    have hd : s.deviceAfter t = s.device := by simp [Programs.deviceAfter, hp]
    rw [hx, hd]
    exact .countDown t c d hlt hp
  | removing d =>
    rw [hp] at hact
    cases hact
    simp only [raceStep, hp] at hraces
    split at hraces
    · next hfind =>
      cases hraces
      rw [Programs.call_stays (by simp [Programs.arrives, hp]) (by simp [Programs.deviceAfter, hp])]
      exact .miss t d hlt hp hfind
    · next e hfind =>
      cases hraces
      rw [Programs.call_stays (by simp [Programs.arrives, hp]) (by simp [Programs.deviceAfter, hp])]
      exact .find t d e hlt hp hfind
  | unlinking d =>
    rw [hp] at hact
    cases hact
    simp only [raceStep, hp, Option.some.injEq] at hraces
    subst hraces
    have hx : ∀ races, s.arrives t races = s.thread t := fun races => by simp [Programs.arrives, hp]
    have hd : s.deviceAfter t = Function.update s.device (s.owner t) none := by simp [Programs.deviceAfter, hp]
    rw [hx, hd]
    exact .listDel t d hlt hp

theorem progStep_cases {s s' : Programs} {act : ProgAct} (h : progStep s act = some s') : s.Stepped act s' := by
  cases act with
  | exec diskName numThreads =>
    cases h
    exact .exec diskName numThreads
  | devOpen t c =>
    simp only [progStep] at h
    split at h
    · next hen =>
      obtain ⟨races, hraces, rfl⟩ := Option.map_eq_some_iff.1 h
      cases raceStep_cases hraces with
      | devOpen _ hc => exact .devOpen t c hen.1 hen.2 hc
    · cases h
  | write t =>
    simp only [progStep] at h
    split at h
    · next c ht =>
      split at h
      · next hr =>
        obtain ⟨races, hraces, rfl⟩ := Option.map_eq_some_iff.1 h
        cases raceStep_cases hraces with
        | write _ _ hp _ _ => exact .write t c hr ht hp
      · cases h
    · cases h
  | call t => exact progStep_call_cases h
  | pthreadCreate t ok =>
    simp only [progStep] at h
    split at h
    · next c ht =>
      split at h
      · next hen =>
        cases ok with
        | true =>
          cases h
          exact .start t c hen.1 ht hen.2.1 hen.2.2
        | false =>
          cases h
          exact .startFails t c hen.1 ht hen.2.1 hen.2.2
      · cases h
    · cases h
  | serve t =>
    simp only [progStep] at h
    split at h
    · next c ht =>
      split at h
      · next hen =>
        cases h
        exact .serve t c hen.1 ht hen.2
      · cases h
    · cases h
  | exit p =>
    simp only [progStep] at h
    split at h
    · next hen =>
      cases h
      exact .exit p hen.1 hen.2
    · cases h
  | release t =>
    simp only [progStep] at h
    split at h
    · next c hc =>
      split at h
      · next hen =>
        obtain ⟨races, hraces, rfl⟩ := Option.map_eq_some_iff.1 h
        cases raceStep_cases hraces with
        | close _ _ _ _ hnone =>
          have hx : (s.races.go t .outside (s.races.devs.close c)).point t = .outside := by simp [Races.go]
          rw [if_pos hx]
          exact .close t c hen.1 hen.2.1 hen.2.2 hc hnone
        | release _ _ d _ _ hd =>
          have hx : (s.races.go t (.releasing c d) s.races.devs).point t ≠ .outside := by simp [Races.go]
          rw [if_neg hx]
          exact .release t c d hen.1 hen.2.1 hen.2.2 hc hd
      · cases h
    · cases h

/-! ## What holds between them -/

/-- The connection of the thread is attached. -/
def ThreadAt.attaches : ThreadAt → Bool
  | .attached _ | .serving _ => true
  | _ => false

/-- The device has not been asked for. -/
def ThreadAt.before : ThreadAt → Bool
  | .opening | .opened _ => true
  | _ => false

/-- The write has succeeded. -/
def ThreadAt.past : ThreadAt → Bool
  | .attached _ | .serving _ | .closed => true
  | _ => false

/-- In `handle_initialization`. -/
def AttachPoint.entering : AttachPoint → Bool
  | .init _ | .got _ _ | .counted _ _ => true
  | _ => false

/-- In `bius_dev_release`. -/
def AttachPoint.leaving : AttachPoint → Bool
  | .releasing _ _ | .removing _ | .unlinking _ => true
  | _ => false

/-- The device that the call works on. -/
def AttachPoint.device : AttachPoint → Option Nat
  | .got _ d | .counted _ d | .releasing _ d | .removing d | .unlinking d => some d
  | _ => none

/-- The thread is one of `num_connection`. -/
def countsAt : ThreadAt → AttachPoint → Bool
  | _, .counted _ _ => true
  | x, _ => x.attaches

/-- The thread has to do with the device. -/
def keepsAt : ThreadAt → AttachPoint → Bool
  | _, .got _ _ | _, .removing _ | _, .unlinking _ => true
  | x, y => countsAt x y

/-- Where the program and the module may be at the same time. -/
inductive Together : ThreadAt → AttachPoint → Prop where
  | opening : Together .opening .outside
  | opened (c : Nat) : Together (.opened c) .outside
  | init (c : Nat) : Together (.initializing c) (.init c)
  | got (c d : Nat) : Together (.initializing c) (.got c d)
  | counted (c d : Nat) : Together (.initializing c) (.counted c d)
  | attached (c : Nat) : Together (.attached c) .outside
  | serving (c : Nat) : Together (.serving c) .outside
  | exiting (c d : Nat) : Together (.attached c) (.releasing c d)
  | leaving (c d : Nat) : Together (.serving c) (.releasing c d)
  | closed : Together .closed .outside
  | removing (d : Nat) : Together .closed (.removing d)
  | unlinking (d : Nat) : Together .closed (.unlinking d)

namespace Programs

/-- The threads of a program that `num_connection` counts. -/
def counted (s : Programs) (p : Nat) : Nat :=
  total s.threads (fun t => if s.owner t = p ∧ countsAt (s.thread t) (s.races.point t) = true then 1 else 0)

/-- The threads of a program. -/
def members (s : Programs) (p : Nat) : Nat := total s.threads (fun t => if s.owner t = p then 1 else 0)

end Programs

theorem AttachPoint.device_of_removes {y : AttachPoint} {d : Nat} (h : y.removes = some d) :
    y.device = some d ∧ y.leaving = true := by
  cases y <;> cases h <;> exact ⟨rfl, rfl⟩

/-- The programs and their threads. -/
structure Roster (s : Programs) : Prop where
  owned : ∀ t < s.threads, s.owner t < s.programs
  main : ∀ p < s.programs, (s.program p).main < s.threads ∧ s.owner (s.program p).main = p
  team : ∀ p < s.programs, s.members p + (s.program p).refusals = (s.program p).next + 1
  size : ∀ p < s.programs, (s.program p).next + 1 ≤ (s.program p).numThreads ∧ (s.program p).numThreads < 2 ^ 31

/-- The devices and the programs they belong to. -/
structure OnList (s : Programs) : Prop where
  device : ∀ p d, s.device p = some d →
    p < s.programs ∧ d ∈ s.races.devs.disks ∧ cString (s.races.devs.name d) = cString (s.program p).diskName
  only : ∀ p q d, s.device p = some d → s.device q = some d → p = q
  listed : ∀ d ∈ s.races.devs.disks, ∃ p, s.device p = some d
  nodup : s.races.devs.disks.Nodup
  made : ∀ d ∈ s.races.devs.disks, d < s.races.devs.created

/-- The connections and the threads that have opened them. -/
structure Connected (s : Programs) : Prop where
  nodup : s.races.devs.opened.Nodup
  closed : ∀ c, c ∉ s.races.devs.opened → s.races.devs.blockDev c = none
  opened : ∀ t < s.threads, ∀ c, (s.thread t).connection = some c → c ∈ s.races.devs.opened
  held : ∀ c ∈ s.races.devs.opened, ∃ t < s.threads, (s.thread t).connection = some c
  alone : ∀ t u c, t < s.threads → u < s.threads → (s.thread t).connection = some c →
    (s.thread u).connection = some c → t = u
  attached : ∀ t < s.threads, ∀ c, (s.thread t).connection = some c →
    if (s.thread t).attaches then ∃ d, s.device (s.owner t) = some d ∧ s.races.devs.blockDev c = some d
    else s.races.devs.blockDev c = none

/-- The end of a program: its files are closed one after the other, when its threads
    are in no other call. -/
structure Ending (s : Programs) : Prop where
  exits : ∀ t < s.threads, s.thread t = .closed ∨ (s.races.point t).leaving = true → (s.its t).exiting = true
  settled : ∀ t u, t < s.threads → u < s.threads → s.owner u = s.owner t → s.thread t = .closed →
    (s.races.point u).entering = false
  last : ∀ t u, t < s.threads → u < s.threads → s.owner u = s.owner t → (s.races.point t).leaving = true →
    u ≠ t →
    s.races.point u = .outside

/-- What holds between the steps. -/
structure Hosted (s : Programs) : Prop where
  roster : Roster s
  onList : OnList s
  connected : Connected s
  ending : Ending s
  /-- two programs that have not gone have different names -/
  names : ∀ p q, p < s.programs → q < s.programs → ¬ s.Gone p → ¬ s.Gone q →
    cString (s.program p).diskName = cString (s.program q).diskName → p = q
  idle : ∀ t, s.threads ≤ t → s.races.point t = .outside
  fits : ∀ t < s.threads, Together (s.thread t) (s.races.point t)
  uses : ∀ t < s.threads, ∀ d, (s.races.point t).device = some d → s.device (s.owner t) = some d
  /-- before the device is made there is none -/
  unmade : ∀ p < s.programs, (s.thread (s.program p).main).before = true ∨
    (∃ c, s.races.point (s.program p).main = .init c) →
    s.device p = none
  /-- the other threads are started after it has been made -/
  workers : ∀ t < s.threads, (s.its t).main ≠ t → (s.thread (s.its t).main).past = true
  looped : ∀ p < s.programs, ∀ c, s.thread (s.program p).main = .serving c →
    (s.program p).numThreads ≤ (s.program p).next + 1
  count : ∀ p d, s.device p = some d → s.races.devs.numConnection d = s.counted p
  empty : ∀ t < s.threads, ∀ d, (s.races.point t).removes = some d → s.races.devs.numConnection d = 0
  used : ∀ p d, s.device p = some d → ∃ t < s.threads, s.owner t = p ∧
    keepsAt (s.thread t) (s.races.point t) = true

/-! ## A thread goes on -/

/-- The devices become `devs`, where the connection of thread `t` alone is opened,
    attached or closed. -/
structure Relinks (s : Programs) (t : Nat) (x : ThreadAt) (devs : Devices) : Prop where
  disks : devs.disks = s.races.devs.disks
  name : devs.name = s.races.devs.name
  created : devs.created = s.races.devs.created
  nodup : devs.opened.Nodup
  opened : ∀ c, c ∈ devs.opened ↔ x.connection = some c ∨ c ∈ s.races.devs.opened ∧
    (s.thread t).connection ≠ some c
  fresh : ∀ c, x.connection = some c → (s.thread t).connection = some c ∨ c ∉ s.races.devs.opened
  others : ∀ b, x.connection ≠ some b → (s.thread t).connection ≠ some b →
    devs.blockDev b = s.races.devs.blockDev b
  mine : ∀ c, x.connection = some c →
    if x.attaches then ∃ d, s.device (s.owner t) = some d ∧ devs.blockDev c = some d else devs.blockDev c = none
  left : ∀ c, (s.thread t).connection = some c → x.connection ≠ some c → devs.blockDev c = none

/-- Thread `t` keeps to the order in which a program ends. -/
structure StandsApart (s : Programs) (t : Nat) (x : ThreadAt) (y : AttachPoint) : Prop where
  here : ¬ s.Gone (s.owner t)
  exits : x = .closed ∨ y.leaving = true → (s.its t).exiting = true
  alone : y.leaving = true → ∀ u < s.threads, s.owner u = s.owner t → u ≠ t → s.races.point u = .outside
  closes : x = .closed → ∀ u < s.threads, s.owner u = s.owner t → u ≠ t → (s.races.point u).entering = false
  enters : y.entering = true → ∀ u < s.threads, s.owner u = s.owner t → s.thread u ≠ .closed
  stays : ∀ u < s.threads, s.owner u = s.owner t → u ≠ t → (s.races.point u).leaving = false

/-- Thread `t` may go on at `x` and `y` with the devices `devs`. -/
structure MayGo (s : Programs) (t : Nat) (x : ThreadAt) (y : AttachPoint) (devs : Devices) : Prop where
  lt : t < s.threads
  fits : Together x y
  links : Relinks s t x devs
  apart : StandsApart s t x y
  uses : ∀ d, y.device = some d → s.device (s.owner t) = some d
  unmade : (s.its t).main = t → x.before = true ∨ (∃ c, y = .init c) → s.device (s.owner t) = none
  past : (s.thread t).past = true → x.past = true
  looped : (s.its t).main = t → ∀ c, x = .serving c → (s.its t).numThreads ≤ (s.its t).next + 1
  count : ∀ d, s.device (s.owner t) = some d → devs.numConnection d + (countsAt (s.thread t) (s.races.point t)).toNat =
    s.races.devs.numConnection d + (countsAt x y).toNat
  counts : ∀ e, s.device (s.owner t) ≠ some e → devs.numConnection e = s.races.devs.numConnection e
  empty : ∀ d, y.removes = some d → devs.numConnection d = 0
  used : ∀ d, s.device (s.owner t) = some d →
    keepsAt x y = true ∨ keepsAt (s.thread t) (s.races.point t) = false ∨ 0 < devs.numConnection d

section
open Programs
variable {s : Programs} {t c d : Nat} {x : ThreadAt} {y : AttachPoint} {devs : Devices}

theorem go_thread (s : Programs) (t : Nat) (x : ThreadAt) (races : Races) (u : Nat) :
    (s.go t x races).thread u = if u = t then x else s.thread u := Function.update_apply _ _ _ _

theorem go_point (s : Races) (t : Nat) (y : AttachPoint) (devs : Devices) (u : Nat) :
    (s.go t y devs).point u = if u = t then y else s.point u := Function.update_apply _ _ _ _

@[simp] theorem go_races (s : Programs) (t : Nat) (x : ThreadAt) (races : Races) : (s.go t x races).races = races := rfl
@[simp] theorem go_owner (s : Programs) (t : Nat) (x : ThreadAt) (races : Races) : (s.go t x races).owner = s.owner := rfl
@[simp] theorem go_threads (s : Programs) (t : Nat) (x : ThreadAt) (races : Races) :
    (s.go t x races).threads = s.threads := rfl
@[simp] theorem go_its (s : Programs) (t : Nat) (x : ThreadAt) (races : Races) (u : Nat) :
    (s.go t x races).its u = s.its u := rfl
@[simp] theorem go_program (s : Programs) (t : Nat) (x : ThreadAt) (races : Races) :
    (s.go t x races).program = s.program := rfl
@[simp] theorem go_device (s : Programs) (t : Nat) (x : ThreadAt) (races : Races) :
    (s.go t x races).device = s.device := rfl
@[simp] theorem go_devs (s : Races) (t : Nat) (y : AttachPoint) (devs : Devices) : (s.go t y devs).devs = devs := rfl

theorem Programs.counted_go (ht : t < s.threads) (p : Nat) :
    (s.go t x (s.races.go t y devs)).counted p +
        (if s.owner t = p then (countsAt (s.thread t) (s.races.point t)).toNat else 0) =
      s.counted p + (if s.owner t = p then (countsAt x y).toNat else 0) := by
  have hbool : ∀ b : Bool, (if s.owner t = p ∧ b = true then 1 else 0) = if s.owner t = p then b.toNat else 0 := by
    intro b
    cases b <;> simp
  have hchange := total_change ht (fun u (hu : u ≠ t) => show
    (if s.owner u = p ∧
      countsAt ((s.go t x (s.races.go t y devs)).thread u) ((s.races.go t y devs).point u) = true then 1 else 0) =
    if s.owner u = p ∧ countsAt (s.thread u) (s.races.point u) = true then 1 else 0 by
      simp only [go_thread, go_point, if_neg hu])
  rw [go_thread, go_point, if_pos rfl, if_pos rfl, hbool, hbool] at hchange
  exact hchange

theorem OnList.go (h : OnList s) (m : Relinks s t x devs) : OnList (s.go t x (s.races.go t y devs)) := by
  refine ⟨fun p d hd => ?_, h.only, fun d hd => ?_, ?_, fun d hd => ?_⟩
  · obtain ⟨hp, hmem, hname⟩ := h.device p d hd
    refine ⟨hp, ?_, ?_⟩
    · show d ∈ devs.disks
      rw [m.disks]
      exact hmem
    · show cString (devs.name d) = _
      rw [m.name]
      exact hname
  · change d ∈ devs.disks at hd
    rw [m.disks] at hd
    exact h.listed d hd
  · show devs.disks.Nodup
    rw [m.disks]
    exact h.nodup
  · change d ∈ devs.disks at hd
    rw [m.disks] at hd
    show d < devs.created
    rw [m.created]
    exact h.made d hd

theorem Connected.go (h : Connected s) (ht : t < s.threads) (m : Relinks s t x devs) :
    Connected (s.go t x (s.races.go t y devs)) := by
  -- what another thread has opened is not what this one has, before or after
  have hothers : ∀ u < s.threads, u ≠ t → ∀ c, (s.thread u).connection = some c →
      x.connection ≠ some c ∧ (s.thread t).connection ≠ some c := by
    intro u hu hut c hc
    have hold : (s.thread t).connection ≠ some c := fun hct => hut (h.alone u t c hu ht hc hct)
    refine ⟨fun hxc => ?_, hold⟩
    rcases m.fresh c hxc with hct | hnot
    · exact hold hct
    · exact hnot (h.opened u hu c hc)
  refine ⟨m.nodup, fun c hc => ?_, fun u hu c hc => ?_, fun c hc => ?_, fun u v c hu hv hcu hcv => ?_,
    fun u hu c hc => ?_⟩
  · have hnew : x.connection ≠ some c := fun hxc => hc ((m.opened c).2 (Or.inl hxc))
    show devs.blockDev c = none
    by_cases hold : (s.thread t).connection = some c
    · exact m.left c hold hnew
    · rw [m.others c hnew hold]
      exact h.closed c (fun hmem => hc ((m.opened c).2 (Or.inr ⟨hmem, hold⟩)))
  · refine (m.opened c).2 ?_
    rw [go_thread] at hc
    split at hc
    · exact Or.inl hc
    · next hut => exact Or.inr ⟨h.opened u hu c hc, (hothers u hu hut c hc).2⟩
  · rcases (m.opened c).1 hc with hxc | ⟨hc, hne⟩
    · exact ⟨t, ht, by rw [go_thread, if_pos rfl]; exact hxc⟩
    · obtain ⟨u, hu, huc⟩ := h.held c hc
      have hut : u ≠ t := fun he => hne (he ▸ huc)
      exact ⟨u, hu, by rw [go_thread, if_neg hut]; exact huc⟩
  · rw [go_thread] at hcu hcv
    split at hcu <;> split at hcv
    · next hut hvt => rw [hut, hvt]
    · next hvt => exact absurd hcu (hothers v hv hvt c hcv).1
    · next hut _ => exact absurd hcv (hothers u hu hut c hcu).1
    · exact h.alone u v c hu hv hcu hcv
  · rw [go_thread] at hc ⊢
    split at hc
    · next hut =>
      rw [if_pos hut]
      subst hut
      exact m.mine c hc
    · next hut =>
      rw [if_neg hut]
      obtain ⟨hnew, hold⟩ := hothers u hu hut c hc
      have hatt := h.attached u hu c hc
      rw [← m.others c hnew hold] at hatt
      exact hatt

theorem Ending.go (h : Ending s) (hfits : Together x y) (m : StandsApart s t x y) :
    Ending (s.go t x (s.races.go t y devs)) := by
  refine ⟨fun u hu hl => ?_, fun u v hu hv ho hc => ?_, fun u v hu hv ho hl hvu => ?_⟩
  · rw [go_thread, go_races, go_point] at hl
    by_cases hut : u = t
    · rw [if_pos hut, if_pos hut] at hl
      rw [go_its, hut]
      exact m.exits hl
    · rw [if_neg hut, if_neg hut] at hl
      exact h.exits u hu hl
  · rw [go_thread] at hc
    rw [go_races, go_point]
    by_cases hut : u = t <;> by_cases hvt : v = t
    · -- it has no file, so it is not in the write
      rw [if_pos hut] at hc
      rw [if_pos hvt]
      rw [hc] at hfits
      cases hfits <;> rfl
    · rw [if_pos hut] at hc
      rw [if_neg hvt]
      subst hut
      exact m.closes hc v hv ho hvt
    · rw [if_neg hut] at hc
      rw [if_pos hvt]
      subst hvt
      cases hy : y.entering with
      | true => exact absurd hc (m.enters hy u hu ho.symm)
      | false => rfl
    · rw [if_neg hut] at hc
      rw [if_neg hvt]
      exact h.settled u v hu hv ho hc
  · rw [go_races, go_point] at hl ⊢
    by_cases hut : u = t
    · rw [if_pos hut] at hl
      subst hut
      rw [if_neg hvu]
      exact m.alone hl v hv ho hvu
    · rw [if_neg hut] at hl
      by_cases hvt : v = t
      · subst hvt
        rw [m.stays u hu ho.symm hut] at hl
        cases hl
      · rw [if_neg hvt]
        exact h.last u v hu hv ho hl hvu

theorem MayGo.gone (m : MayGo s t x y devs) {p : Nat} (hg : s.Gone p) : (s.go t x (s.races.go t y devs)).Gone p := by
  obtain ⟨he, hq, hc⟩ := hg
  have hne : ∀ u < s.threads, s.owner u = p → u ≠ t := by
    intro u hu ho hut
    rw [hut] at ho
    exact m.apart.here (ho ▸ ⟨he, hq, hc⟩)
  refine ⟨he, fun u hu ho => ?_, fun u hu ho => ?_⟩
  · rw [go_races, go_point, if_neg (hne u hu ho)]
    exact hq u hu ho
  · rw [go_thread, if_neg (hne u hu ho)]
    exact hc u hu ho

theorem Hosted.count_go (h : Hosted s) (m : MayGo s t x y devs) {p : Nat} (hd : s.device p = some d) :
    devs.numConnection d = (s.go t x (s.races.go t y devs)).counted p := by
  have hold := h.count p d hd
  have hnew : (s.go t x (s.races.go t y devs)).counted p +
      (if s.owner t = p then (countsAt (s.thread t) (s.races.point t)).toNat else 0) =
        s.counted p + (if s.owner t = p then (countsAt x y).toNat else 0) := Programs.counted_go m.lt p
  by_cases hp : s.owner t = p
  · rw [if_pos hp, if_pos hp] at hnew
    have := m.count d (hp.symm ▸ hd)
    omega
  · rw [if_neg hp, if_neg hp] at hnew
    rw [m.counts d (fun hd' => hp (h.onList.only _ _ d hd' hd)), hold]
    omega

theorem Hosted.unmade_go (h : Hosted s) (m : MayGo s t x y devs) {p : Nat} (hp : p < s.programs)
    (hb : ((s.go t x (s.races.go t y devs)).thread (s.program p).main).before = true ∨
      ∃ c, (s.races.go t y devs).point (s.program p).main = .init c) : s.device p = none := by
  rw [go_thread, go_point] at hb
  by_cases hut : (s.program p).main = t
  · rw [if_pos hut, if_pos hut] at hb
    have ho := (h.roster.main p hp).2
    rw [hut] at ho
    have hmain : (s.its t).main = t := by rw [Programs.its, ho, hut]
    rw [← ho]
    exact m.unmade hmain hb
  · rw [if_neg hut, if_neg hut] at hb
    exact h.unmade p hp hb

theorem Hosted.empty_go (h : Hosted s) (m : MayGo s t x y devs) {u : Nat} (hu : u < s.threads)
    (hd : ((s.races.go t y devs).point u).removes = some d) : devs.numConnection d = 0 := by
  rw [go_point] at hd
  by_cases hut : u = t
  · rw [if_pos hut] at hd
    exact m.empty d hd
  · rw [if_neg hut] at hd
    obtain ⟨hdev, hleave⟩ := AttachPoint.device_of_removes hd
    have hother : s.device (s.owner t) ≠ some d := by
      -- a thread of its own program would have to be outside
      intro hd'
      have ho := h.onList.only _ _ d (h.uses u hu d hdev) hd'
      rw [m.apart.stays u hu ho hut] at hleave
      cases hleave
    rw [m.counts d hother]
    exact h.empty u hu d hd

theorem keepsAt_of_countsAt (hc : countsAt x y = true) : keepsAt x y = true := by
  cases y <;> first | rfl | exact hc

theorem Hosted.used_go (h : Hosted s) (m : MayGo s t x y devs) {p : Nat} (hd : s.device p = some d) :
    ∃ u < s.threads, s.owner u = p ∧
      keepsAt ((s.go t x (s.races.go t y devs)).thread u) ((s.races.go t y devs).point u) = true := by
  obtain ⟨u, hu, ho, hk⟩ := h.used p d hd
  -- another thread keeps it as before
  have hstays : u ≠ t → ∃ u < s.threads, s.owner u = p ∧
      keepsAt ((s.go t x (s.races.go t y devs)).thread u) ((s.races.go t y devs).point u) = true := by
    intro hut
    refine ⟨u, hu, ho, ?_⟩
    rw [go_thread, go_point, if_neg hut, if_neg hut]
    exact hk
  by_cases hp : s.owner t = p
  · rcases m.used d (hp.symm ▸ hd) with hkeep | hold | hpos
    · refine ⟨t, m.lt, hp, ?_⟩
      rw [go_thread, go_point, if_pos rfl, if_pos rfl]
      exact hkeep
    · refine hstays (fun hut => ?_)
      rw [hut, hold] at hk
      cases hk
    · rw [h.count_go m hd] at hpos
      obtain ⟨v, hv, hpos⟩ := exists_of_total_pos hpos
      split at hpos
      · next hcv => exact ⟨v, hv, hcv.1, keepsAt_of_countsAt hcv.2⟩
      · omega
  · refine hstays (fun hut => ?_)
    rw [hut] at ho
    exact hp ho

theorem Hosted.go (h : Hosted s) (m : MayGo s t x y devs) : Hosted (s.go t x (s.races.go t y devs)) := by
  refine ⟨⟨h.roster.owned, h.roster.main, h.roster.team, h.roster.size⟩, h.onList.go m.links,
    h.connected.go m.lt m.links, h.ending.go m.fits m.apart,
    fun p q hp hq hnp hnq => h.names p q hp hq (fun hg => hnp (m.gone hg)) (fun hg => hnq (m.gone hg)),
    fun u hu => ?_, fun u hu => ?_, fun u hu d hd => ?_, fun p hp hb => h.unmade_go m hp hb, fun u hu hne => ?_,
    fun p hp c hc => ?_, fun p d hd => h.count_go m hd, fun u hu d hd => h.empty_go m hu hd,
      fun p d hd => h.used_go m hd⟩
  · have hut : u ≠ t := fun he => Nat.lt_irrefl t (Nat.lt_of_lt_of_le m.lt (he ▸ hu))
    rw [go_races, go_point, if_neg hut]
    exact h.idle u hu
  · rw [go_thread, go_races, go_point]
    split
    · exact m.fits
    · exact h.fits u hu
  · rw [go_races, go_point] at hd
    split at hd
    · next hut =>
      subst hut
      exact m.uses d hd
    · exact h.uses u hu d hd
  · have hpast := h.workers u hu hne
    rw [go_its, go_thread]
    split
    · next hmt =>
      rw [hmt] at hpast
      exact m.past hpast
    · exact hpast
  · rw [go_program, go_thread] at hc
    split at hc
    · next hmt =>
      have ho := (h.roster.main p hp).2
      rw [hmt] at ho
      have hmain : (s.its t).main = t := by rw [Programs.its, ho, hmt]
      have hl := m.looped hmain c hc
      rw [Programs.its, ho] at hl
      exact hl
    · exact h.looped p hp c hc

end

end Bius
