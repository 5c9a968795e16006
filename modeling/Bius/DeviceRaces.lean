import Mathlib.Data.Finset.Card
import Bius.Devices

/- Attaching to devices and removing them with the lock-protected sections of
   several threads interleaved: `handle_initialization` inserts or looks up the
   device under `disk_list_lock`, increments `num_connection` under
   `connection_lock`, and stores `block_dev`; `bius_dev_release` decrements and
   tests the counter, and `remove_block_device` looks the device up and deletes it
   from the list in two further sections.

   The reference is taken after the lookup. `Unraced` says that no removal starts in
   between, that no device on its way out is looked up, and that one initialization
   at a time runs on a connection; then removal never meets a connection
   (`removal_unraced`). -/
namespace Bius

/-- How far a thread is. -/
inductive AttachPoint where
  | outside
  /-- `bius_dev_write` has found no `block_dev` and calls `handle_initialization` -/
  | init (c : Nat)
  /-- the device has been created or looked up -/
  | got (c d : Nat)
  /-- it has been counted, and is about to be stored -/
  | counted (c d : Nat)
  /-- `bius_dev_release` has read `block_dev` -/
  | releasing (c d : Nat)
  /-- the counter is zero: `remove_block_device` is about to look the device up -/
  | removing (d : Nat)
  /-- it has found the device -/
  | unlinking (d : Nat)
  deriving DecidableEq

/-- The connection the thread works on. -/
def AttachPoint.connection : AttachPoint → Option Nat
  | .init c | .got c _ | .counted c _ | .releasing c _ => some c
  | _ => none

/-- The device an initialization has obtained. -/
def AttachPoint.obtained : AttachPoint → Option Nat
  | .got _ d | .counted _ d => some d
  | _ => none

/-- The device `remove_block_device` runs on. -/
def AttachPoint.removes : AttachPoint → Option Nat
  | .removing d | .unlinking d => some d
  | _ => none

structure Races where
  devs : Devices
  point : Nat → AttachPoint

namespace Races

def init : Races := ⟨Devices.init, fun _ => .outside⟩

def go (s : Races) (t : Nat) (x : AttachPoint) (devs : Devices) : Races := ⟨devs, Function.update s.point t x⟩

end Races

inductive RaceAct where
  | devOpen (c : Nat)
  /-- a write on a connection without a device -/
  | write (t c : Nat)
  | create (t : Nat) (diskName : List UInt8)
  | lookup (t : Nat) (diskName : List UInt8)
  | countUp (t : Nat)
  | store (t : Nat)
  | release (t c : Nat)
  | countDown (t : Nat)
  | find (t : Nat)
  | listDel (t : Nat)

/-- One section, if it can be entered. -/
def raceStep (s : Races) : RaceAct → Option Races
  | .devOpen c => if c ∈ s.devs.opened then none else some ⟨{ s.devs with opened := s.devs.opened ++ [c] }, s.point⟩
  | .write t c =>
    if s.point t = .outside ∧ c ∈ s.devs.opened ∧ s.devs.blockDev c = none then some (s.go t (.init c) s.devs)
    else none
  | .create t diskName =>
    match s.point t with
    | .init c => some (s.go t (.got c s.devs.created) (s.devs.createBlockDevice diskName))
    | _ => none
  | .lookup t diskName =>
    match s.point t with
    | .init c =>
      match s.devs.getBlockDevice diskName with
      | none => some (s.go t .outside s.devs)
      | some d => some (s.go t (.got c d) s.devs)
    | _ => none
  | .countUp t =>
    match s.point t with
    | .got c d => some (s.go t (.counted c d) (s.devs.countUp d))
    | _ => none
  | .store t =>
    match s.point t with
    | .counted c d => some (s.go t .outside (s.devs.store c d))
    | _ => none
  | .release t c =>
    if s.point t = .outside ∧ c ∈ s.devs.opened then
      match s.devs.blockDev c with
      | none => some (s.go t .outside (s.devs.close c))
      | some d => some (s.go t (.releasing c d) s.devs)
    else none
  | .countDown t =>
    match s.point t with
    | .releasing c d =>
      let devs := (s.devs.countDown d).close c
      some (s.go t (if devs.numConnection d = 0 then .removing d else .outside) devs)
    | _ => none
  | .find t =>
    match s.point t with
    | .removing d =>
      match s.devs.getBlockDevice (s.devs.name d) with
      | none => some (s.go t .outside s.devs)
      | some e => some (s.go t (.unlinking e) s.devs)
    | _ => none
  | .listDel t =>
    match s.point t with
    | .unlinking d => some (s.go t .outside (s.devs.listDel d))
    | _ => none

/-- When a section can be entered, and what it does. -/
inductive RaceStepped (s : Races) : RaceAct → Races → Prop where
  | devOpen (c : Nat) : c ∉ s.devs.opened →
      RaceStepped s (.devOpen c) ⟨{ s.devs with opened := s.devs.opened ++ [c] }, s.point⟩
  | write (t c : Nat) : s.point t = .outside → c ∈ s.devs.opened → s.devs.blockDev c = none →
      RaceStepped s (.write t c) (s.go t (.init c) s.devs)
  | create (t c : Nat) (diskName : List UInt8) : s.point t = .init c →
      RaceStepped s (.create t diskName) (s.go t (.got c s.devs.created) (s.devs.createBlockDevice diskName))
  | refuse (t c : Nat) (diskName : List UInt8) : s.point t = .init c → s.devs.getBlockDevice diskName = none →
      RaceStepped s (.lookup t diskName) (s.go t .outside s.devs)
  | lookup (t c d : Nat) (diskName : List UInt8) : s.point t = .init c → s.devs.getBlockDevice diskName = some d →
      RaceStepped s (.lookup t diskName) (s.go t (.got c d) s.devs)
  | countUp (t c d : Nat) : s.point t = .got c d →
      RaceStepped s (.countUp t) (s.go t (.counted c d) (s.devs.countUp d))
  | store (t c d : Nat) : s.point t = .counted c d →
      RaceStepped s (.store t) (s.go t .outside (s.devs.store c d))
  | close (t c : Nat) : s.point t = .outside → c ∈ s.devs.opened → s.devs.blockDev c = none →
      RaceStepped s (.release t c) (s.go t .outside (s.devs.close c))
  | release (t c d : Nat) : s.point t = .outside → c ∈ s.devs.opened → s.devs.blockDev c = some d →
      RaceStepped s (.release t c) (s.go t (.releasing c d) s.devs)
  | countDown (t c d : Nat) : s.point t = .releasing c d →
      RaceStepped s (.countDown t) (s.go t
        (if ((s.devs.countDown d).close c).numConnection d = 0 then .removing d else .outside)
        ((s.devs.countDown d).close c))
  | miss (t d : Nat) : s.point t = .removing d → s.devs.getBlockDevice (s.devs.name d) = none →
      RaceStepped s (.find t) (s.go t .outside s.devs)
  | find (t d e : Nat) : s.point t = .removing d → s.devs.getBlockDevice (s.devs.name d) = some e →
      RaceStepped s (.find t) (s.go t (.unlinking e) s.devs)
  | listDel (t d : Nat) : s.point t = .unlinking d →
      RaceStepped s (.listDel t) (s.go t .outside (s.devs.listDel d))

theorem raceStep_cases {s s' : Races} {act : RaceAct} (hs : raceStep s act = some s') : RaceStepped s act s' := by
  cases act with
  | devOpen c =>
    simp only [raceStep] at hs
    split at hs
    · cases hs
    · next hc => cases hs; exact .devOpen c hc
  | write t c =>
    simp only [raceStep] at hs
    split at hs
    · next hen => cases hs; exact .write t c hen.1 hen.2.1 hen.2.2
    · cases hs
  | create t diskName =>
    simp only [raceStep] at hs
    split at hs
    · next c ht => cases hs; exact .create t c diskName ht
    · cases hs
  | lookup t diskName =>
    simp only [raceStep] at hs
    split at hs
    · next c ht =>
      split at hs
      · next hd => cases hs; exact .refuse t c diskName ht hd
      · next d hd => cases hs; exact .lookup t c d diskName ht hd
    · cases hs
  | countUp t =>
    simp only [raceStep] at hs
    split at hs
    · next c d ht => cases hs; exact .countUp t c d ht
    · cases hs
  | store t =>
    simp only [raceStep] at hs
    split at hs
    · next c d ht => cases hs; exact .store t c d ht
    · cases hs
  | release t c =>
    simp only [raceStep] at hs
    split at hs
    · next hen =>
      split at hs
      · next hd => cases hs; exact .close t c hen.1 hen.2 hd
      · next d hd => cases hs; exact .release t c d hen.1 hen.2 hd
    · cases hs
  | countDown t =>
    simp only [raceStep] at hs
    split at hs
    · next c d ht => cases hs; exact .countDown t c d ht
    · cases hs
  | find t =>
    simp only [raceStep] at hs
    split at hs
    · next d ht =>
      split at hs
      · next he => cases hs; exact .miss t d ht he
      · next e he => cases hs; exact .find t d e ht he
    · cases hs
  | listDel t =>
    simp only [raceStep] at hs
    split at hs
    · next d ht => cases hs; exact .listDel t d ht
    · cases hs

/-- What the calls may rely on: disk names are distinct, and the kernel releases a
    file once and when no call on it is in progress. -/
def Promised (s : Races) : RaceAct → Prop
  | .create _ diskName => ∀ d < s.devs.created, cString (s.devs.name d) ≠ cString diskName
  | .release _ c => ∀ u, (s.point u).connection ≠ some c
  | _ => True

/-- No two initializations run on one connection, no device that is being removed is
    looked up, no device loses its last connection while an initialization has
    obtained it and not yet counted, and no counter overflows. -/
def Unraced (s : Races) : RaceAct → Prop
  | .write _ c => ∀ u, (s.point u).connection ≠ some c
  | .lookup _ diskName => ∀ d, s.devs.getBlockDevice diskName = some d → ∀ u, (s.point u).removes ≠ some d
  | .countUp t => ∀ c d, s.point t = .got c d → s.devs.numConnection d + 1 < 2 ^ 32
  | .countDown t =>
    ∀ c d, s.point t = .releasing c d → s.devs.numConnection d = 1 → ∀ u c', s.point u ≠ .got c' d
  | _ => True

/-- The threads between the increment and the store. -/
def Races.Counting (s : Races) (d : Nat) (F : Finset Nat) : Prop := ∀ t, t ∈ F ↔ ∃ c, s.point t = .counted c d

/-- What holds between the sections. -/
structure Guarded (s : Races) : Prop where
  disksNodup : s.devs.disks.Nodup
  openedNodup : s.devs.opened.Nodup
  made : ∀ d ∈ s.devs.disks, d < s.devs.created
  names : ∀ d e, d < s.devs.created → e < s.devs.created →
    cString (s.devs.name d) = cString (s.devs.name e) → d = e
  closed : ∀ c, c ∉ s.devs.opened → s.devs.blockDev c = none
  works : ∀ t c, (s.point t).connection = some c → c ∈ s.devs.opened
  alone : ∀ t u c, (s.point t).connection = some c → (s.point u).connection = some c → t = u
  fresh : ∀ t c d, s.point t = .init c ∨ s.point t = .got c d ∨ s.point t = .counted c d → s.devs.blockDev c = none
  releasing : ∀ t c d, s.point t = .releasing c d → s.devs.blockDev c = some d
  listed : ∀ c d, s.devs.blockDev c = some d → d ∈ s.devs.disks
  obtained : ∀ t d, (s.point t).obtained = some d → d ∈ s.devs.disks
  removes : ∀ t d, (s.point t).removes = some d →
    d ∈ s.devs.disks ∧ s.devs.attached d = [] ∧ ∀ u, (s.point u).obtained ≠ some d
  removesOnce : ∀ t u d, (s.point t).removes = some d → (s.point u).removes = some d → t = u
  count : ∀ d < s.devs.created, ∃ F, s.Counting d F ∧ s.devs.numConnection d = (s.devs.attached d).length + F.card
  small : ∀ d < s.devs.created, s.devs.numConnection d < 2 ^ 32

/-! ## The sections -/

section
open Races
variable {s : Races} {t c d : Nat}

theorem counting_keep {x : AttachPoint} {devs : Devices} (hold : ∀ c d, s.point t ≠ .counted c d)
    (hx : ∀ c d, x ≠ .counted c d) {e : Nat} {F : Finset Nat} (h : s.Counting e F) : (s.go t x devs).Counting e F := by
  intro u
  rw [h u]
  simp only [go, Function.update_apply]
  split
  · next hu =>
    subst hu
    simp [hx, hold]
  · rfl

theorem Guarded.devOpen (h : Guarded s) (hc : c ∉ s.devs.opened) :
    Guarded ⟨{ s.devs with opened := s.devs.opened ++ [c] }, s.point⟩ := by
  have hnone := h.closed c hc
  have hatt := fun e => attached_open (e := e) hnone
  have hnodup : (s.devs.opened ++ [c]).Nodup := List.nodup_append.2
    ⟨h.openedNodup, by simp, fun a ha b hb heq => hc (by rw [← List.mem_singleton.1 hb, ← heq]; exact ha)⟩
  refine ⟨h.disksNodup, hnodup, h.made, h.names, fun b hb => h.closed b (fun hmem => hb (by simp [hmem])),
    fun u b hb => List.mem_append_left _ (h.works u b hb), h.alone, h.fresh, h.releasing, h.listed, h.obtained,
    fun u e hu => ?_, h.removesOnce, fun e he => ?_, h.small⟩
  · rw [hatt e]
    exact h.removes u e hu
  · obtain ⟨F, hF, hn⟩ := h.count e he
    exact ⟨F, hF, by rw [hatt e]; exact hn⟩

/-- Where a thread may go while the devices stay as they are. -/
structure MayMove (s : Races) (t : Nat) (x : AttachPoint) : Prop where
  leaves : ∀ c d, s.point t ≠ .counted c d
  enters : ∀ c d, x ≠ .counted c d
  works : ∀ c, x.connection = some c → c ∈ s.devs.opened ∧ ∀ u, u ≠ t → (s.point u).connection ≠ some c
  fresh : ∀ c d, x = .init c ∨ x = .got c d → s.devs.blockDev c = none
  releasing : ∀ c d, x = .releasing c d → s.devs.blockDev c = some d
  obtained : ∀ d, x.obtained = some d → d ∈ s.devs.disks ∧ ∀ u, u ≠ t → (s.point u).removes ≠ some d
  removes : ∀ d, x.removes = some d → d ∈ s.devs.disks ∧ s.devs.attached d = [] ∧
    ∀ u, u ≠ t → (s.point u).obtained ≠ some d ∧ (s.point u).removes ≠ some d

theorem Guarded.moved (h : Guarded s) {x : AttachPoint} (hx : MayMove s t x) : Guarded (s.go t x s.devs) := by
  have hself : (s.go t x s.devs).point t = x := Function.update_self _ _ _
  have hother : ∀ u, u ≠ t → (s.go t x s.devs).point u = s.point u := fun u hu => Function.update_of_ne hu _ _
  -- no thread obtains what a thread removes
  have hmoved : ∀ {d u v}, ((s.go t x s.devs).point u).removes = some d →
      ((s.go t x s.devs).point v).obtained ≠ some d := by
    intro d u v hu hv
    by_cases hut : u = t <;> by_cases hvt : v = t
    · subst hut hvt
      rw [hself] at hu hv
      cases x <;> cases hu <;> cases hv
    · subst hut
      rw [hself] at hu
      rw [hother v hvt] at hv
      exact ((hx.removes d hu).2.2 v hvt).1 hv
    · subst hvt
      rw [hself] at hv
      rw [hother u hut] at hu
      exact (hx.obtained d hv).2 u hut hu
    · rw [hother u hut] at hu
      rw [hother v hvt] at hv
      exact (h.removes u d hu).2.2 v hv
  refine ⟨h.disksNodup, h.openedNodup, h.made, h.names, h.closed, fun u c hu => ?_, fun u v c hu hv => ?_,
    fun u c d hu => ?_, fun u c d hu => ?_, h.listed, fun u d hu => ?_, fun u d hu => ?_, fun u v d hu hv => ?_,
      fun e he => ?_, h.small⟩
  · by_cases hut : u = t
    · rw [hut, hself] at hu
      exact (hx.works c hu).1
    · rw [hother u hut] at hu
      exact h.works u c hu
  · by_cases hut : u = t <;> by_cases hvt : v = t
    · rw [hut, hvt]
    · rw [hut, hself] at hu
      rw [hother v hvt] at hv
      exact absurd hv ((hx.works c hu).2 v hvt)
    · rw [hvt, hself] at hv
      rw [hother u hut] at hu
      exact absurd hu ((hx.works c hv).2 u hut)
    · rw [hother u hut] at hu
      rw [hother v hvt] at hv
      exact h.alone u v c hu hv
  · by_cases hut : u = t
    · rw [hut, hself] at hu
      rcases hu with hu | hu | hu
      · exact hx.fresh c d (Or.inl hu)
      · exact hx.fresh c d (Or.inr hu)
      · exact absurd hu (hx.enters c d)
    · rw [hother u hut] at hu
      exact h.fresh u c d hu
  · by_cases hut : u = t
    · rw [hut, hself] at hu
      exact hx.releasing c d hu
    · rw [hother u hut] at hu
      exact h.releasing u c d hu
  · by_cases hut : u = t
    · rw [hut, hself] at hu
      exact (hx.obtained d hu).1
    · rw [hother u hut] at hu
      exact h.obtained u d hu
  · by_cases hut : u = t
    · have hu' := hu
      rw [hut, hself] at hu
      exact ⟨(hx.removes d hu).1, (hx.removes d hu).2.1, fun v => hmoved hu'⟩
    · have hu' := hu
      rw [hother u hut] at hu
      exact ⟨(h.removes u d hu).1, (h.removes u d hu).2.1, fun v => hmoved hu'⟩
  · by_cases hut : u = t <;> by_cases hvt : v = t
    · rw [hut, hvt]
    · rw [hut, hself] at hu
      rw [hother v hvt] at hv
      exact absurd hv ((hx.removes d hu).2.2 v hvt).2
    · rw [hvt, hself] at hv
      rw [hother u hut] at hu
      exact absurd hu ((hx.removes d hv).2.2 u hut).2
    · rw [hother u hut] at hu
      rw [hother v hvt] at hv
      exact h.removesOnce u v d hu hv
  · obtain ⟨F, hF, hn⟩ := h.count e he
    exact ⟨F, counting_keep hx.leaves hx.enters hF, hn⟩

theorem Guarded.write (h : Guarded s) (ht : s.point t = .outside) (hc : c ∈ s.devs.opened)
    (hnone : s.devs.blockDev c = none) (hok : ∀ u, (s.point u).connection ≠ some c) :
    Guarded (s.go t (.init c) s.devs) := by
  refine h.moved ⟨by simp [ht], by simp, fun b hb => ?_, fun b d hb => ?_, fun b d hb => (by cases hb),
    fun d hb => (by cases hb), fun d hb => (by cases hb)⟩
  · cases hb
    exact ⟨hc, fun u _ => hok u⟩
  · rcases hb with hb | hb <;> cases hb
    exact hnone

theorem Guarded.create (h : Guarded s) (ht : s.point t = .init c) {diskName : List UInt8}
    (hok : ∀ d < s.devs.created, cString (s.devs.name d) ≠ cString diskName) :
    Guarded (s.go t (.got c s.devs.created) (s.devs.createBlockDevice diskName)) := by
  have hnew : s.devs.created ∉ s.devs.disks := fun hmem => Nat.lt_irrefl _ (h.made _ hmem)
  have hnil : s.devs.attached s.devs.created = [] := by
    rw [List.eq_nil_iff_forall_not_mem]
    intro b hb
    exact hnew (h.listed b _ (mem_attached.1 hb).2)
  have hnodup : (s.devs.disks ++ [s.devs.created]).Nodup := List.nodup_append.2
    ⟨h.disksNodup, by simp, fun a ha b hb heq => hnew (by rw [← List.mem_singleton.1 hb, ← heq]; exact ha)⟩
  have hcount : ∀ e < s.devs.created + 1,
      ∃ F, (s.go t (.got c s.devs.created) (s.devs.createBlockDevice diskName)).Counting e F ∧
        (s.devs.createBlockDevice diskName).numConnection e = (s.devs.attached e).length + F.card := by
    intro e he
    by_cases hlt : e = s.devs.created
    · subst hlt
      refine ⟨∅, fun u => ?_, by simp [Devices.createBlockDevice, hnil]⟩
      have hu := h.obtained u s.devs.created
      simp only [go, Function.update_apply]
      grind [AttachPoint.obtained]
    · obtain ⟨F, hF, hn⟩ := h.count e (by omega)
      refine ⟨F, counting_keep (by simp [ht]) (by simp) hF, ?_⟩
      simpa [Devices.createBlockDevice, hlt] using hn
  have hsmall : ∀ e < s.devs.created + 1, (s.devs.createBlockDevice diskName).numConnection e < 2 ^ 32 := by
    intro e he
    have := h.small e
    simp only [Devices.createBlockDevice, Function.update_apply]
    split
    · decide
    · exact this (by omega)
  obtain ⟨h1, h2, h3, h4, h5, h6, h7, h8, h9, h10, h11, h12, h13, -, -⟩ := h
  refine ⟨hnodup, h2, ?_, ?_, h5, ?_, ?_, ?_, ?_, ?_, ?_, ?_, ?_, hcount, hsmall⟩
  all_goals simp only [go, Devices.createBlockDevice, Function.update_apply, List.mem_append, List.mem_singleton]
  all_goals try simp only [Devices.attached] at *
  all_goals grind [AttachPoint.connection, AttachPoint.obtained, AttachPoint.removes]

theorem Guarded.lookup (h : Guarded s) (ht : s.point t = .init c) {diskName : List UInt8}
    (hfind : s.devs.getBlockDevice diskName = some d) (hok : ∀ u, (s.point u).removes ≠ some d) :
    Guarded (s.go t (.got c d) s.devs) := by
  refine h.moved ⟨by simp [ht], by simp, fun b hb => ?_, fun b e hb => ?_, fun b e hb => (by cases hb), fun e he => ?_,
    fun e he => (by cases he)⟩
  · cases hb
    have hconn : (s.point t).connection = some c := by rw [ht]; rfl
    exact ⟨h.works t c hconn, fun u hu hcu => hu (h.alone u t c hcu hconn)⟩
  · rcases hb with hb | hb <;> cases hb
    exact h.fresh t c d (Or.inl ht)
  · cases he
    exact ⟨getBlockDevice_mem hfind, fun u _ => hok u⟩

/-- A thread leaves the module without having changed anything. -/
theorem Guarded.leave (h : Guarded s) (ht : ∀ c d, s.point t ≠ .counted c d) : Guarded (s.go t .outside s.devs) :=
  h.moved ⟨ht, by simp, fun b hb => (by cases hb), fun b d hb => (by rcases hb with hb | hb <;> cases hb),
    fun b d hb => (by cases hb), fun d hb => (by cases hb), fun d hb => (by cases hb)⟩

theorem Guarded.countUp (h : Guarded s) (ht : s.point t = .got c d) (hok : s.devs.numConnection d + 1 < 2 ^ 32) :
    Guarded (s.go t (.counted c d) (s.devs.countUp d)) := by
  have hup := countUp_eq hok
  have hcount : ∀ e < s.devs.created, ∃ F, (s.go t (.counted c d) (s.devs.countUp d)).Counting e F ∧
      (s.devs.countUp d).numConnection e = (s.devs.attached e).length + F.card := by
    intro e he
    obtain ⟨F, hF, hn⟩ := h.count e he
    rw [hup]
    split
    · next heq =>
      subst heq
      have htF : t ∉ F := by
        rw [hF t, ht]
        simp
      refine ⟨insert t F, fun u => ?_, by rw [Finset.card_insert_of_notMem htF, hn]; rfl⟩
      rw [Finset.mem_insert, hF u]
      simp only [go, Function.update_apply]
      split
      · next hu => simp [hu]
      · next hu => simp [hu]
    · next hne =>
      refine ⟨F, fun u => ?_, hn⟩
      rw [hF u]
      simp only [go, Function.update_apply]
      split
      · next hu =>
        rw [hu, ht]
        simp [Ne.symm hne]
      · rfl
  have hsmall : ∀ e < s.devs.created, (s.devs.countUp d).numConnection e < 2 ^ 32 := by
    intro e he
    rw [hup]
    split
    · exact hok
    · exact h.small e he
  have hatt : ∀ e, (s.devs.countUp d).attached e = s.devs.attached e := fun _ => rfl
  obtain ⟨h1, h2, h3, h4, h5, h6, h7, h8, h9, h10, h11, h12, h13, -, -⟩ := h
  refine ⟨h1, h2, h3, h4, h5, ?_, ?_, ?_, ?_, h10, ?_, ?_, ?_, hcount, hsmall⟩
  all_goals simp only [go, hatt, Function.update_apply]
  all_goals grind [AttachPoint.connection, AttachPoint.obtained, AttachPoint.removes, Devices.countUp]

theorem Guarded.store (h : Guarded s) (ht : s.point t = .counted c d) : Guarded (s.go t .outside (s.devs.store c d)) := by
  have hc : c ∈ s.devs.opened := h.works t c (by rw [ht]; rfl)
  have hnone : s.devs.blockDev c = none := h.fresh t c d (by simp [ht])
  have hd : d ∈ s.devs.disks := h.obtained t d (by rw [ht]; rfl)
  have hother : ∀ {e}, e ≠ d → (s.devs.store c d).attached e = s.devs.attached e := attached_store_other hnone
  have hcount : ∀ e < s.devs.created, ∃ F, (s.go t .outside (s.devs.store c d)).Counting e F ∧
      s.devs.numConnection e = ((s.devs.store c d).attached e).length + F.card := by
    intro e he
    obtain ⟨F, hF, hn⟩ := h.count e he
    by_cases hed : e = d
    · subst hed
      have htF : t ∈ F := (hF t).2 ⟨c, ht⟩
      have hlen := attached_store_length (d := e) h.openedNodup hc hnone
      have hcard := Finset.card_erase_add_one htF
      refine ⟨F.erase t, fun u => ?_, by omega⟩
      rw [Finset.mem_erase, hF u]
      simp only [go, Function.update_apply]
      split
      · next hu => simp [hu]
      · next hu => simp [hu]
    · refine ⟨F, fun u => ?_, by rw [hother hed]; exact hn⟩
      rw [hF u]
      simp only [go, Function.update_apply]
      split
      · next hu =>
        rw [hu, ht]
        simp [Ne.symm hed]
      · rfl
  have hremoves : ∀ u e, (s.point u).removes = some e → (s.devs.store c d).attached e = [] := by
    intro u e hu
    obtain ⟨-, hnil, hnot⟩ := h.removes u e hu
    have hed : e ≠ d := fun heq => hnot t (by rw [ht, heq]; rfl)
    rw [hother hed, hnil]
  have hdevs : ∀ b, (s.devs.store c d).blockDev b = if b = c then some d else s.devs.blockDev b := by
    intro b
    simp only [Devices.store, Function.update_apply]
  have hlists : (s.devs.store c d).opened = s.devs.opened ∧ (s.devs.store c d).disks = s.devs.disks := ⟨rfl, rfl⟩
  obtain ⟨h1, h2, h3, h4, h5, h6, h7, h8, h9, h10, h11, h12, h13, -, h15⟩ := h
  refine ⟨h1, h2, h3, h4, ?_, ?_, ?_, ?_, ?_, ?_, ?_, ?_, ?_, hcount, h15⟩
  all_goals simp only [go, hdevs, hlists.1, hlists.2, Function.update_apply]
  all_goals clear hcount hother
  all_goals grind [AttachPoint.connection, AttachPoint.obtained, AttachPoint.removes]

theorem Guarded.release (h : Guarded s) (ht : s.point t = .outside) (hc : c ∈ s.devs.opened)
    (hd : s.devs.blockDev c = some d) (hok : ∀ u, (s.point u).connection ≠ some c) :
    Guarded (s.go t (.releasing c d) s.devs) := by
  refine h.moved ⟨by simp [ht], by simp, fun b hb => ?_, fun b e hb => (by rcases hb with hb | hb <;> cases hb),
    fun b e hb => ?_, fun e he => (by cases he), fun e he => (by cases he)⟩
  · cases hb
    exact ⟨hc, fun u _ => hok u⟩
  · cases hb
    exact hd

theorem Guarded.close (h : Guarded s) (ht : s.point t = .outside) (hnone : s.devs.blockDev c = none)
    (hok : ∀ u, (s.point u).connection ≠ some c) : Guarded (s.go t .outside (s.devs.close c)) := by
  have hmem := fun b => opened_close (c := c) (b := b) h.openedNodup
  have hdev : (s.devs.close c).blockDev = s.devs.blockDev := by
    simp [Devices.close, ← hnone]
  have hatt : ∀ e, (s.devs.close c).attached e = s.devs.attached e := by
    intro e
    exact attached_close_other h.openedNodup (by simp [hnone])
  have hcount : ∀ e < s.devs.created, ∃ F, (s.go t .outside (s.devs.close c)).Counting e F ∧
      s.devs.numConnection e = ((s.devs.close c).attached e).length + F.card := by
    intro e he
    obtain ⟨F, hF, hn⟩ := h.count e he
    exact ⟨F, counting_keep (by simp [ht]) (by simp) hF, by rw [hatt]; exact hn⟩
  have hremoves : ∀ u e, (s.point u).removes = some e → (s.devs.close c).attached e = [] := by
    intro u e hu
    rw [hatt, (h.removes u e hu).2.1]
  have hdisks : (s.devs.close c).disks = s.devs.disks := rfl
  have hopened : (s.devs.close c).opened.Nodup := h.openedNodup.erase c
  obtain ⟨h1, h2, h3, h4, h5, h6, h7, h8, h9, h10, h11, h12, h13, -, h15⟩ := h
  refine ⟨h1, hopened, h3, h4, ?_, ?_, ?_, ?_, ?_, ?_, ?_, ?_, ?_, hcount, h15⟩
  all_goals simp only [go, hdev, hmem, hdisks, Function.update_apply]
  all_goals grind [AttachPoint.connection, AttachPoint.obtained, AttachPoint.removes]

/-- Who is the last to go leaves nobody behind. -/
theorem Guarded.countDown_last (h : Guarded s) (hc : c ∈ s.devs.opened) (hdev : s.devs.blockDev c = some d)
    (hone : s.devs.numConnection d = 1) (hok : ∀ u c', s.point u ≠ .got c' d) :
    ((s.devs.countDown d).close c).attached d = [] ∧ ∀ u, (s.point u).obtained ≠ some d := by
  have hlen : (s.devs.attached d).length = (((s.devs.countDown d).close c).attached d).length + 1 :=
    attached_close_length (s := s.devs.countDown d) h.openedNodup hc hdev
  obtain ⟨F, hF, hn⟩ := h.count d (h.made d (h.listed c d hdev))
  have hF0 : F = ∅ := Finset.card_eq_zero.1 (by omega)
  refine ⟨List.length_eq_zero_iff.1 (by omega), fun u hu => ?_⟩
  cases hp : s.point u with
  | got c' d' =>
    rw [hp] at hu
    cases hu
    exact hok u c' hp
  | counted c' d' =>
    rw [hp] at hu
    cases hu
    have hmem := (hF u).2 ⟨c', hp⟩
    rw [hF0] at hmem
    cases hmem
  | _ => rw [hp] at hu; cases hu

/-- An attached connection is closed; if it was the last, the device is on its way
    out. -/
theorem Guarded.countDown (h : Guarded s) (ht : s.point t = .releasing c d)
    (hok : s.devs.numConnection d = 1 → ∀ u c', s.point u ≠ .got c' d) :
    Guarded (s.go t (if ((s.devs.countDown d).close c).numConnection d = 0 then .removing d else .outside)
      ((s.devs.countDown d).close c)) := by
  have hc : c ∈ s.devs.opened := h.works t c (by rw [ht]; rfl)
  have hdev := h.releasing t c d ht
  have hd := h.made d (h.listed c d hdev)
  have hmem : ∀ b, b ∈ ((s.devs.countDown d).close c).opened ↔ b ∈ s.devs.opened ∧ b ≠ c := by
    intro b
    exact opened_close (s := s.devs.countDown d) h.openedNodup
  have hother : ∀ {e}, e ≠ d → ((s.devs.countDown d).close c).attached e = s.devs.attached e := by
    intro e he
    exact attached_close_other (s := s.devs.countDown d) h.openedNodup
      (fun heq => he (Option.some.inj (heq.symm.trans hdev)))
  have hlen : (s.devs.attached d).length = (((s.devs.countDown d).close c).attached d).length + 1 :=
    attached_close_length (s := s.devs.countDown d) h.openedNodup hc hdev
  obtain ⟨F, hF, hn⟩ := h.count d hd
  have hdown : ∀ e, ((s.devs.countDown d).close c).numConnection e =
      if e = d then s.devs.numConnection d - 1 else s.devs.numConnection e :=
    countDown_eq (by omega) (h.small d hd)
  obtain ⟨x, hx⟩ : ∃ x, x = if ((s.devs.countDown d).close c).numConnection d = 0 then AttachPoint.removing d
    else .outside :=
    ⟨_, rfl⟩
  have hxcases : x = .removing d ∨ x = .outside := by
    rw [hx]
    split <;> simp
  have hkeep : ∀ {e F}, s.Counting e F → (s.go t x ((s.devs.countDown d).close c)).Counting e F :=
    counting_keep (by simp [ht]) (by rcases hxcases with hx | hx <;> simp [hx])
  have hcount : ∀ e < s.devs.created, ∃ F, (s.go t x ((s.devs.countDown d).close c)).Counting e F ∧
      ((s.devs.countDown d).close c).numConnection e = (((s.devs.countDown d).close c).attached e).length + F.card := by
    intro e he
    rw [hdown]
    split
    · next hed =>
      subst hed
      exact ⟨F, hkeep hF, by omega⟩
    · next hed =>
      obtain ⟨G, hG, hm⟩ := h.count e he
      exact ⟨G, hkeep hG, by rw [hother hed]; exact hm⟩
  have hsmall : ∀ e < s.devs.created, ((s.devs.countDown d).close c).numConnection e < 2 ^ 32 := by
    intro e he
    have h₁ := h.small e he
    have h₂ := h.small d hd
    rw [hdown]
    split <;> omega
  have hlast : x = .removing d → ((s.devs.countDown d).close c).attached d = [] ∧
      ∀ u, (s.point u).obtained ≠ some d := by
    intro hxr
    have hzero : ((s.devs.countDown d).close c).numConnection d = 0 := by
      by_contra hne
      rw [hx, if_neg hne] at hxr
      cases hxr
    rw [hdown, if_pos rfl] at hzero
    have hone : s.devs.numConnection d = 1 := by omega
    exact h.countDown_last hc hdev hone (hok hone)
  have hremoves : ∀ u e, (s.point u).removes = some e → e ≠ d ∧
      ((s.devs.countDown d).close c).attached e = [] := by
    intro u e hu
    have hnil := (h.removes u e hu).2.1
    have hed : e ≠ d := by
      rintro rfl
      rw [hnil] at hlen
      cases hlen
    exact ⟨hed, (hother hed).trans hnil⟩
  have hdevs : ∀ b, ((s.devs.countDown d).close c).blockDev b = if b = c then none else s.devs.blockDev b := by
    intro b
    simp only [Devices.close, Devices.countDown, Function.update_apply]
  have hopened : ((s.devs.countDown d).close c).opened.Nodup := h.openedNodup.erase c
  have hdisks : ((s.devs.countDown d).close c).disks = s.devs.disks := rfl
  rw [← hx]
  obtain ⟨h1, h2, h3, h4, h5, h6, h7, h8, h9, h10, h11, h12, h13, -, -⟩ := h
  refine ⟨h1, hopened, h3, h4, ?_, ?_, ?_, ?_, ?_, ?_, ?_, ?_, ?_, hcount, hsmall⟩
  all_goals simp only [go, hdevs, hmem, hdisks, Function.update_apply]
  all_goals clear hcount hsmall hother hkeep hx
  all_goals grind [AttachPoint.connection, AttachPoint.obtained, AttachPoint.removes]

theorem Guarded.getBlockDevice (h : Guarded s) (hd : d ∈ s.devs.disks) :
    s.devs.getBlockDevice (s.devs.name d) = some d := by
  cases hfind : s.devs.getBlockDevice (s.devs.name d) with
  | none =>
    have hnone := List.find?_eq_none.1 hfind d (List.mem_reverse.2 hd)
    simp at hnone
  | some e =>
    have hname : cString (s.devs.name e) = cString (s.devs.name d) := by
      simpa using List.find?_some hfind
    rw [h.names e d (h.made e (getBlockDevice_mem hfind)) (h.made d hd) hname]

theorem Guarded.find (h : Guarded s) (ht : s.point t = .removing d) : Guarded (s.go t (.unlinking d) s.devs) := by
  have hrem : (s.point t).removes = some d := by rw [ht]; rfl
  refine h.moved ⟨by simp [ht], by simp, fun b hb => (by cases hb),
    fun b e hb => (by rcases hb with hb | hb <;> cases hb), fun b e hb => (by cases hb), fun e he => (by cases he),
      fun e he => ?_⟩
  cases he
  obtain ⟨hd, hnil, hnot⟩ := h.removes t d hrem
  exact ⟨hd, hnil, fun u hu => ⟨hnot u, fun hru => hu (h.removesOnce u t d hru hrem)⟩⟩

theorem Guarded.listDel (h : Guarded s) (ht : s.point t = .unlinking d) :
    Guarded (s.go t .outside (s.devs.listDel d)) := by
  obtain ⟨hd, hnil, hnot⟩ := h.removes t d (by rw [ht]; rfl)
  have hmem : ∀ e, e ∈ (s.devs.listDel d).disks ↔ e ≠ d ∧ e ∈ s.devs.disks :=
      fun e => h.disksNodup.mem_erase_iff
  have hlisted : ∀ b e, s.devs.blockDev b = some e → e ≠ d := by
    rintro b e hb rfl
    have hopen : b ∈ s.devs.opened := by
      by_contra hclosed
      rw [h.closed b hclosed] at hb
      cases hb
    have hatt : b ∈ s.devs.attached e := mem_attached.2 ⟨hopen, hb⟩
    rw [hnil] at hatt
    cases hatt
  have hcount : ∀ e < s.devs.created, ∃ F, (s.go t .outside (s.devs.listDel d)).Counting e F ∧
      s.devs.numConnection e = (s.devs.attached e).length + F.card := by
    intro e he
    obtain ⟨F, hF, hn⟩ := h.count e he
    exact ⟨F, counting_keep (by simp [ht]) (by simp) hF, hn⟩
  have hatt : ∀ e, (s.devs.listDel d).attached e = s.devs.attached e := fun _ => rfl
  have hdev : (s.devs.listDel d).blockDev = s.devs.blockDev := rfl
  have hopened : (s.devs.listDel d).opened = s.devs.opened := rfl
  obtain ⟨h1, h2, h3, h4, h5, h6, h7, h8, h9, h10, h11, h12, h13, -, h15⟩ := h
  refine ⟨h1.erase d, h2, ?_, h4, h5, ?_, ?_, ?_, ?_, ?_, ?_, ?_, ?_, hcount, h15⟩
  all_goals simp only [go, hmem, hatt, hdev, hopened, Function.update_apply]
  · exact fun e he => h3 e he.2
  all_goals grind [AttachPoint.connection, AttachPoint.obtained, AttachPoint.removes]

end

theorem guarded_step {s s' : Races} {act : RaceAct} (h : Guarded s) (hp : Promised s act) (hu : Unraced s act)
    (hs : raceStep s act = some s') : Guarded s' := by
  cases raceStep_cases hs with
  | devOpen c hc => exact h.devOpen hc
  | write t c ht hc hnone => exact h.write ht hc hnone hu
  | create t c diskName ht => exact h.create ht hp
  | refuse t c diskName ht _ => exact h.leave (by simp [ht])
  | lookup t c d diskName ht hd => exact h.lookup ht hd (hu d hd)
  | countUp t c d ht => exact h.countUp ht (hu c d ht)
  | store t c d ht => exact h.store ht
  | close t c ht _ hnone => exact h.close ht hnone hp
  | release t c d ht hc hd => exact h.release ht hc hd hp
  | countDown t c d ht => exact h.countDown ht (hu c d ht)
  | miss t d ht _ => exact h.leave (by simp [ht])
  | find t d e ht he =>
    -- the device that is removed is on the list, so the lookup finds it
    rw [h.getBlockDevice (h.removes t d (by rw [ht]; rfl)).1] at he
    cases he
    exact h.find ht
  | listDel t d ht => exact h.listDel ht

theorem guarded_init : Guarded Races.init := by
  constructor <;> simp [Races.init, Devices.init, AttachPoint.connection, AttachPoint.obtained, AttachPoint.removes]

/-- **Attach and removal do not meet**, in every run whose steps are `Unraced`:
    `remove_block_device` runs only on a device without connections that no
    `handle_initialization` has obtained, this is so also after it has taken the
    device off the list, and `num_connection` counts the connections attached to the
    device and those between the increment and the store. -/
theorem removal_unraced {s : Races}
    (h : Machine.Reach raceStep (fun s act => Promised s act ∧ Unraced s act) Races.init s) :
    (∀ t d, (s.point t).removes = some d → s.devs.attached d = [] ∧ ∀ u, (s.point u).obtained ≠ some d) ∧
    (∀ d < s.devs.created, d ∉ s.devs.disks → s.devs.attached d = [] ∧ ∀ u, (s.point u).obtained ≠ some d) ∧
    ∀ d < s.devs.created, ∃ F, s.Counting d F ∧ s.devs.numConnection d = (s.devs.attached d).length + F.card := by
  have hg : Guarded s := h.inv (fun _ _ _ hi hok hs => guarded_step hi hok.1 hok.2 hs) guarded_init
  refine ⟨fun t d ht => (hg.removes t d ht).2, fun d _ hnot => ⟨?_, fun u hu => ?_⟩, hg.count⟩
  · rw [List.eq_nil_iff_forall_not_mem]
    intro c hc
    exact hnot (hg.listed c d (mem_attached.1 hc).2)
  · exact hnot (hg.obtained u d hu)

/-! ## A removal while a connection is being set up -/

/-- The thread whose section this is. -/
def RaceAct.thread : RaceAct → Option Nat
  | .devOpen _ => none
  | .write t _ | .create t _ | .lookup t _ | .countUp t | .store t | .release t _ | .countDown t | .find t | .listDel t =>
    some t

theorem raceStep_other {s s' : Races} {act : RaceAct} (hs : raceStep s act = some s') {u : Nat}
    (hu : act.thread ≠ some u) :
    s'.point u = s.point u := by
  have hgo : ∀ {t x devs}, some t ≠ some u → (s.go t x devs).point u = s.point u := by
    intro t x devs ht
    exact Function.update_of_ne (fun heq => ht (congrArg some heq.symm)) _ _
  cases raceStep_cases hs with
  | devOpen c hc => rfl
  | _ => exact hgo hu

/-- The device of the connection that is being closed. -/
def AttachPoint.leaves : AttachPoint → Option Nat
  | .releasing _ d => some d
  | _ => none

/-- `Promised` and `Unraced` where only the threads below `n` make calls, to be
    evaluated. -/
def UnracedNow (n : Nat) (s : Races) : RaceAct → Prop
  | .create _ diskName => ∀ d < s.devs.created, cString (s.devs.name d) ≠ cString diskName
  | .release _ c | .write _ c => ∀ u < n, (s.point u).connection ≠ some c
  | .lookup _ diskName => ∀ d ∈ s.devs.getBlockDevice diskName, ∀ u < n, (s.point u).removes ≠ some d
  | .countUp t => ∀ d ∈ (s.point t).obtained, s.devs.numConnection d + 1 < 2 ^ 32
  | .countDown t => ∀ d ∈ (s.point t).leaves, s.devs.numConnection d = 1 → ∀ u < n, (s.point u).obtained ≠ some d
  | _ => True

instance (n : Nat) (s : Races) : (act : RaceAct) → Decidable (UnracedNow n s act)
  | .create _ _ => inferInstanceAs (Decidable (∀ d < s.devs.created, _ ≠ _))
  | .release _ _ | .write _ _ => inferInstanceAs (Decidable (∀ u < n, _))
  | .lookup _ diskName => inferInstanceAs (Decidable (∀ d ∈ s.devs.getBlockDevice diskName, ∀ u < n, _))
  | .countUp t => inferInstanceAs (Decidable (∀ d ∈ (s.point t).obtained, _ < _))
  | .countDown t => inferInstanceAs (Decidable (∀ d ∈ (s.point t).leaves, _ → ∀ u < n, _))
  | .devOpen _ | .store _ | .find _ | .listDel _ => inferInstanceAs (Decidable True)

theorem UnracedNow.unraced {n : Nat} {s : Races} {act : RaceAct} (hout : ∀ u, n ≤ u → s.point u = .outside)
    (h : UnracedNow n s act) : Promised s act ∧ Unraced s act := by
  have hall : ∀ {P : AttachPoint → Prop}, P .outside → (∀ u < n, P (s.point u)) → ∀ u, P (s.point u) := by
    intro P hP hlt u
    rcases Nat.lt_or_ge u n with hu | hu
    · exact hlt u hu
    · rw [hout u hu]
      exact hP
  cases act with
  | create t diskName => exact ⟨h, trivial⟩
  | release t c => exact ⟨hall (P := fun x => x.connection ≠ some c) nofun h, trivial⟩
  | write t c => exact ⟨trivial, hall (P := fun x => x.connection ≠ some c) nofun h⟩
  | lookup t diskName => exact ⟨trivial, fun d hd => hall (P := fun x => x.removes ≠ some d) nofun (h d hd)⟩
  | countUp t => exact ⟨trivial, fun c d ht => h d (by rw [ht]; rfl)⟩
  | countDown t =>
    refine ⟨trivial, fun c d ht hone u c' hu => ?_⟩
    refine hall (P := fun x => x.obtained ≠ some d) nofun (h d (by rw [ht]; rfl) hone) u ?_
    rw [hu]
    rfl
  | _ => exact ⟨trivial, trivial⟩

/-- A checked run of the threads below `n`. -/
theorem unraced_of_runOk {n : Nat} {s s' : Races} {as : List RaceAct}
    (h : Machine.runOk raceStep (UnracedNow n) s as = some s') (hout : ∀ u, n ≤ u → s.point u = .outside)
    (hthread : ∀ act ∈ as, ∀ t ∈ act.thread, t < n) :
    Machine.Steps raceStep (fun s act => Promised s act ∧ Unraced s act) s as s' := by
  refine (Machine.Steps.of_checked (I := fun s => ∀ u, n ≤ u → s.point u = .outside) h hout
    (fun s act ha x hi hs u hu => ?_) (fun s act _ hi hcheck => hcheck.unraced hi)).1
  rw [raceStep_other hs (fun heq => Nat.not_lt.2 hu (hthread act ha u heq)), hi u hu]

/-- Thread 1 connects connection 1 to the device of connection 0 while thread 2 closes
    connection 0. Then thread 2 closes connection 1 too and removes the device, while
    thread 3 is about to look it up for connection 2. -/
def lateConnects : List RaceAct :=
  [.devOpen 0, .write 0 0, .create 0 [97], .countUp 0, .store 0, .devOpen 1, .write 1 1, .lookup 1 [97], .release 2 0,
    .countUp 1, .countDown 2, .store 1, .devOpen 2, .write 3 2, .release 2 1, .countDown 2, .find 2]

theorem lateConnects_isSome : (Machine.runOk raceStep (UnracedNow 4) Races.init lateConnects).isSome = true := by
  decide +kernel

theorem removal_unraced_lateConnects : ∃ s, Machine.Reach raceStep (fun s act => Promised s act ∧ Unraced s act)
    Races.init s ∧
    (s.point 2).removes = some 0 ∧ s.point 3 = .init 2 ∧ s.devs.attached 0 = [] ∧
      ∀ u, (s.point u).obtained ≠ some 0 := by
  obtain ⟨s, hrun, hremoves, hinit⟩ : ∃ s, Machine.runOk raceStep (UnracedNow 4) Races.init lateConnects = some s ∧
      (s.point 2).removes = some 0 ∧ s.point 3 = .init 2 :=
    ⟨_, (Option.some_get lateConnects_isSome).symm, by decide +kernel, by decide +kernel⟩
  have hreach : Machine.Reach raceStep (fun s act => Promised s act ∧ Unraced s act) Races.init s :=
    ⟨lateConnects, unraced_of_runOk hrun (fun _ _ => rfl) (by decide)⟩
  obtain ⟨hatt, hnobody⟩ := (removal_unraced hreach).1 2 0 hremoves
  exact ⟨s, hreach, hremoves, hinit, hatt, hnobody⟩

/-- Thread 1 looks the device up for connection 1, then thread 2 closes its only
    connection and goes on to remove it. -/
def lateReference : List RaceAct :=
  [.devOpen 0, .write 0 0, .create 0 [97], .countUp 0, .store 0, .devOpen 1, .write 1 1, .lookup 1 [97],
   .release 2 0, .countDown 2, .find 2]

/-- `remove_block_device` runs on a device that `handle_initialization` has
    obtained. -/
theorem removal_races : ∃ s, Machine.Steps raceStep Promised Races.init lateReference s ∧
    (s.point 2).removes = some 0 ∧ (s.point 1).obtained = some 0 := by
  obtain ⟨s, hrun, hpoints⟩ : ∃ s, Machine.Steps raceStep Promised Races.init lateReference s ∧
      s.point 2 = .unlinking 0 ∧ s.point 1 = .got 1 0 := by
    refine ⟨_, .cons trivial rfl (.cons trivial rfl (.cons ?_ rfl (.cons trivial rfl (.cons trivial rfl
      (.cons trivial rfl (.cons trivial rfl (.cons trivial rfl (.cons ?_ rfl (.cons trivial rfl
      (.cons trivial rfl (.nil _))))))))))), rfl, rfl⟩
    · intro d hd
      exact absurd hd (Nat.not_lt_zero d)
    · intro u
      simp only [Races.go, Races.init, Function.update_apply]
      split
      · simp [AttachPoint.connection]
      · split <;> simp [AttachPoint.connection]
  refine ⟨s, hrun, ?_, ?_⟩
  · rw [hpoints.1]
    rfl
  · rw [hpoints.2]
    rfl

end Bius
