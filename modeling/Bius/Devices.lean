import Mathlib.Algebra.Group.Nat.Defs
import Mathlib.Logic.Function.Basic
import Mathlib.Data.List.Nodup
import Bius.Lib.Machine

/- Devices and the connections attached to them (`kernel/block_dev.c`,
   `handle_initialization` and `bius_dev_release`), with the calls run one at a
   time and every allocation succeeding. A connection keeps a pointer to its
   device, but `remove_block_device` looks the device up again by name, newest
   first. As long as this finds the device that has lost its last connection, the
   list, the counters and the pointers agree (`removal_hits_device`).

   A device is named by the order of its creation. Names are bytes, compared as
   `strncmp` does over `DISK_NAME_LEN`. -/
namespace Bius

def diskNameLen : Nat := 32

/-- What `strncpy` and `strncmp` see of a name. -/
def cString (name : List UInt8) : List UInt8 := (name.take diskNameLen).takeWhile (fun b => b != 0)

structure Devices where
  /-- `all_disk_list` -/
  disks : List Nat
  name : Nat → List UInt8
  /-- `num_connection`, an `unsigned int` -/
  numConnection : Nat → Nat
  created : Nat
  /-- the open connections -/
  opened : List Nat
  blockDev : Nat → Option Nat

namespace Devices

def init : Devices := ⟨[], fun _ => [], fun _ => 0, 0, [], fun _ => none⟩

/-- `get_block_device`. -/
def getBlockDevice (s : Devices) (diskName : List UInt8) : Option Nat :=
  s.disks.reverse.find? (fun d => cString (s.name d) == cString diskName)

/-- `create_block_device`, which ends with the insertion into the list. -/
def createBlockDevice (s : Devices) (diskName : List UInt8) : Devices :=
  { s with
    disks := s.disks ++ [s.created]
    name := Function.update s.name s.created diskName
    numConnection := Function.update s.numConnection s.created 0
    created := s.created + 1 }

/-- `num_connection++`. -/
def countUp (s : Devices) (d : Nat) : Devices :=
  { s with numConnection := Function.update s.numConnection d ((s.numConnection d + 1) % 2 ^ 32) }

/-- `num_connection--`. -/
def countDown (s : Devices) (d : Nat) : Devices :=
  { s with numConnection := Function.update s.numConnection d ((s.numConnection d + (2 ^ 32 - 1)) % 2 ^ 32) }

/-- `connection->block_dev = device`. -/
def store (s : Devices) (c d : Nat) : Devices := { s with blockDev := Function.update s.blockDev c (some d) }

def listDel (s : Devices) (d : Nat) : Devices := { s with disks := s.disks.erase d }

/-- The end of `bius_dev_release`. -/
def close (s : Devices) (c : Nat) : Devices :=
  { s with opened := s.opened.erase c, blockDev := Function.update s.blockDev c none }

/-- `remove_block_device`. -/
def removeBlockDevice (s : Devices) (diskName : List UInt8) : Devices :=
  match s.getBlockDevice diskName with
  | none => s
  | some d => s.listDel d

/-- `bius_dev_release`. -/
def devRelease (s : Devices) (c : Nat) : Devices :=
  match s.blockDev c with
  | none => s.close c
  | some d =>
    let s := (s.countDown d).close c
    if s.numConnection d = 0 then s.removeBlockDevice (s.name d) else s

/-- The open connections attached to a device. -/
def attached (s : Devices) (d : Nat) : List Nat := s.opened.filter (fun c => s.blockDev c == some d)

end Devices

/-- The calls. -/
inductive DevAct where
  /-- `bius_dev_open` -/
  | devOpen (c : Nat)
  /-- `BIUS_CREATE` -/
  | create (c : Nat) (diskName : List UInt8)
  /-- `BIUS_CONNECT` -/
  | connect (c : Nat) (diskName : List UInt8)
  /-- `bius_dev_release` -/
  | release (c : Nat)

/-- One call, if it can be made. -/
def devStep (s : Devices) : DevAct → Option Devices
  | .devOpen c => if c ∈ s.opened then none else some { s with opened := s.opened ++ [c] }
  | .create c diskName =>
    if c ∈ s.opened ∧ s.blockDev c = none then
      some (((s.createBlockDevice diskName).countUp s.created).store c s.created)
    else none
  | .connect c diskName =>
    if c ∈ s.opened ∧ s.blockDev c = none then
      match s.getBlockDevice diskName with
      | none => some s
      | some d => some ((s.countUp d).store c d)
    else none
  | .release c => if c ∈ s.opened then some (s.devRelease c) else none

/-- The counters do not overflow, and where a device loses its last connection, the
    newest device of that name is the device itself. -/
def Unambiguous (s : Devices) : DevAct → Prop
  | .connect _ diskName => ∀ d, s.getBlockDevice diskName = some d → s.numConnection d + 1 < 2 ^ 32
  | .release c => ∀ d, s.blockDev c = some d → s.numConnection d = 1 → s.getBlockDevice (s.name d) = some d
  | _ => True

/-! ## What holds between the calls -/

/-- Pointers lead to listed devices, and the counters count them. -/
structure Counted (s : Devices) : Prop where
  disksNodup : s.disks.Nodup
  openedNodup : s.opened.Nodup
  made : ∀ d ∈ s.disks, d < s.created
  closed : ∀ c, c ∉ s.opened → s.blockDev c = none
  listed : ∀ c d, s.blockDev c = some d → d ∈ s.disks
  count : ∀ d ∈ s.disks, s.numConnection d = (s.attached d).length
  small : ∀ d ∈ s.disks, s.numConnection d < 2 ^ 32

/-- Every listed device has a connection. -/
def Used (s : Devices) : Prop := ∀ d ∈ s.disks, s.attached d ≠ []

section
variable {s : Devices} {c d : Nat}

theorem getBlockDevice_mem {diskName : List UInt8} (h : s.getBlockDevice diskName = some d) : d ∈ s.disks :=
  List.mem_reverse.1 (List.mem_of_find?_eq_some h)

theorem mem_attached : c ∈ s.attached d ↔ c ∈ s.opened ∧ s.blockDev c = some d := by
  simp [Devices.attached]

theorem attached_nodup (h : s.opened.Nodup) : (s.attached d).Nodup := h.filter _

theorem attached_open {e : Nat} (hnone : s.blockDev c = none) :
    Devices.attached { s with opened := s.opened ++ [c] } e = s.attached e := by
  simp [Devices.attached, hnone]

theorem attached_store {b : Nat} (hc : c ∈ s.opened) :
    b ∈ (s.store c d).attached d ↔ b = c ∨ b ∈ s.attached d := by
  rw [mem_attached, mem_attached]
  by_cases hb : b = c
  · subst hb
    simp [Devices.store, hc]
  · simp [Devices.store, hb]

theorem attached_store_other {e : Nat} (hnone : s.blockDev c = none) (he : e ≠ d) :
    (s.store c d).attached e = s.attached e := by
  refine List.filter_congr (fun b _ => ?_)
  by_cases hb : b = c
  · subst hb
    simp [Devices.store, hnone, Ne.symm he]
  · simp [Devices.store, hb]

theorem attached_store_length (hs : s.opened.Nodup) (hc : c ∈ s.opened) (hnone : s.blockDev c = none) :
    ((s.store c d).attached d).length = (s.attached d).length + 1 := by
  have hnot : c ∉ s.attached d := by
    intro hmem
    rw [mem_attached, hnone] at hmem
    cases hmem.2
  have hcons : (c :: s.attached d).Nodup := List.nodup_cons.2 ⟨hnot, attached_nodup hs⟩
  have hstored : ((s.store c d).attached d).Nodup := attached_nodup (s := s.store c d) hs
  refine ((List.perm_ext_iff_of_nodup hstored hcons).2 (fun b => ?_)).length_eq
  rw [attached_store hc, List.mem_cons]

theorem opened_close (hs : s.opened.Nodup) {b : Nat} : b ∈ (s.close c).opened ↔ b ∈ s.opened ∧ b ≠ c := by
  rw [and_comm]
  exact hs.mem_erase_iff

theorem attached_close (hs : s.opened.Nodup) {e : Nat} : (s.close c).attached e = (s.attached e).erase c := by
  rw [(attached_nodup hs).erase_eq_filter]
  unfold Devices.attached Devices.close
  rw [hs.erase_eq_filter, List.filter_filter, List.filter_filter]
  refine List.filter_congr (fun b _ => ?_)
  by_cases hb : b = c
  · simp [hb]
  · simp [hb, Bool.and_comm]

theorem attached_close_other (hs : s.opened.Nodup) {e : Nat} (hne : s.blockDev c ≠ some e) :
    (s.close c).attached e = s.attached e := by
  rw [attached_close hs]
  exact List.erase_of_not_mem (fun hmem => hne (mem_attached.1 hmem).2)

theorem attached_close_length (hs : s.opened.Nodup) (hc : c ∈ s.opened) (hd : s.blockDev c = some d) :
    (s.attached d).length = ((s.close c).attached d).length + 1 := by
  have hmem : c ∈ s.attached d := mem_attached.2 ⟨hc, hd⟩
  have hpos := List.length_pos_of_mem hmem
  rw [attached_close hs, List.length_erase_of_mem hmem]
  omega

theorem countUp_eq (hsmall : s.numConnection d + 1 < 2 ^ 32) (e : Nat) :
    (s.countUp d).numConnection e = if e = d then s.numConnection d + 1 else s.numConnection e := by
  simp only [Devices.countUp, Function.update_apply, Nat.mod_eq_of_lt hsmall]

theorem countDown_eq (hpos : 0 < s.numConnection d) (hsmall : s.numConnection d < 2 ^ 32) (e : Nat) :
    (s.countDown d).numConnection e = if e = d then s.numConnection d - 1 else s.numConnection e := by
  simp only [Devices.countDown, Function.update_apply]
  split
  · omega
  · rfl

theorem Counted.attach (h : Counted s) (hc : c ∈ s.opened) (hnone : s.blockDev c = none) (hd : d ∈ s.disks)
    (hsmall : s.numConnection d + 1 < 2 ^ 32) (hused : ∀ e ∈ s.disks, e ≠ d → s.attached e ≠ []) :
    Counted ((s.countUp d).store c d) ∧ Used ((s.countUp d).store c d) := by
  have hself : ∀ {b}, b ∈ ((s.countUp d).store c d).attached d ↔ b = c ∨ b ∈ s.attached d :=
    attached_store (s := s.countUp d) hc
  have hother : ∀ {e}, e ≠ d → ((s.countUp d).store c d).attached e = s.attached e :=
    attached_store_other (s := s.countUp d) hnone
  have hlen : (((s.countUp d).store c d).attached d).length = (s.attached d).length + 1 :=
    attached_store_length (s := s.countUp d) h.openedNodup hc hnone
  have hcount : ∀ e, ((s.countUp d).store c d).numConnection e =
      if e = d then s.numConnection d + 1 else s.numConnection e := countUp_eq hsmall
  refine ⟨⟨h.disksNodup, h.openedNodup, h.made, fun b hb => ?_, fun b e hb => ?_, fun e he => ?_, fun e he => ?_⟩,
    fun e he => ?_⟩
  · have hbc : b ≠ c := fun heq => hb (heq ▸ hc)
    simpa [Devices.store, Devices.countUp, hbc] using h.closed b hb
  · by_cases hbc : b = c
    · subst hbc
      simp only [Devices.store, Function.update_self, Option.some.injEq] at hb
      exact hb ▸ hd
    · exact h.listed b e (by simpa [Devices.store, Devices.countUp, hbc] using hb)
  · rw [hcount]
    split
    · next heq =>
      subst heq
      rw [hlen, h.count e hd]
    · next hne => rw [hother hne, h.count e he]
  · rw [hcount]
    split
    · exact hsmall
    · exact h.small e he
  · by_cases hed : e = d
    · subst hed
      exact List.ne_nil_of_mem (hself.2 (Or.inl rfl))
    · rw [hother hed]
      exact hused e he hed

theorem Counted.create (h : Counted s) (diskName : List UInt8) : Counted (s.createBlockDevice diskName) := by
  have hnew : s.created ∉ s.disks := fun hmem => Nat.lt_irrefl _ (h.made _ hmem)
  have hold : ∀ e ∈ s.disks, e ≠ s.created := fun e he heq => hnew (heq ▸ he)
  refine ⟨?_, h.openedNodup, fun e he => ?_, h.closed, fun b e hb => ?_, fun e he => ?_, fun e he => ?_⟩
  · exact List.nodup_append.2 ⟨h.disksNodup, by simp, fun a ha b hb => by simp_all⟩
  · rcases List.mem_append.1 he with he | he
    · exact Nat.lt_succ_of_lt (h.made e he)
    · rw [List.mem_singleton.1 he]
      exact Nat.lt_succ_self _
  · exact List.mem_append_left _ (h.listed b e hb)
  · rcases List.mem_append.1 he with he | he
    · simp only [Devices.createBlockDevice, Function.update_of_ne (hold e he)]
      exact h.count e he
    · rw [List.mem_singleton.1 he]
      have hnil : s.attached s.created = [] := by
        rw [List.eq_nil_iff_forall_not_mem]
        intro b hb
        exact hnew (h.listed b _ (mem_attached.1 hb).2)
      simp only [Devices.createBlockDevice, Function.update_self]
      exact (congrArg List.length hnil).symm
  · rcases List.mem_append.1 he with he | he
    · simp only [Devices.createBlockDevice, Function.update_of_ne (hold e he)]
      exact h.small e he
    · rw [List.mem_singleton.1 he]
      simp [Devices.createBlockDevice]

theorem Counted.detach (h : Counted s) (hc : c ∈ s.opened) (hd : s.blockDev c = some d) :
    Counted ((s.countDown d).close c) := by
  have hlisted := h.listed c d hd
  have hlen : (s.attached d).length = (((s.countDown d).close c).attached d).length + 1 :=
    attached_close_length (s := s.countDown d) h.openedNodup hc hd
  have hpos : 0 < s.numConnection d := by
    rw [h.count d hlisted]
    omega
  have hdown : ∀ e, ((s.countDown d).close c).numConnection e =
      if e = d then s.numConnection d - 1 else s.numConnection e := countDown_eq hpos (h.small d hlisted)
  refine ⟨h.disksNodup, h.openedNodup.erase c, h.made, fun b hb => ?_, fun b e hb => ?_, fun e he => ?_,
    fun e he => ?_⟩
  · by_cases hbc : b = c
    · simp [Devices.close, hbc]
    · have hnot : b ∉ s.opened := fun hmem => hb ((opened_close (s := s.countDown d) h.openedNodup).2 ⟨hmem, hbc⟩)
      simpa [Devices.close, Devices.countDown, hbc] using h.closed b hnot
  · by_cases hbc : b = c
    · simp [Devices.close, hbc] at hb
    · exact h.listed b e (by simpa [Devices.close, Devices.countDown, hbc] using hb)
  · rw [hdown]
    split
    · next heq =>
      subst heq
      rw [h.count e he]
      omega
    · next hne =>
      have hother : ((s.countDown d).close c).attached e = s.attached e :=
        attached_close_other (s := s.countDown d) h.openedNodup (fun heq => hne (Option.some.inj (heq.symm.trans hd)))
      rw [hother, h.count e he]
  · have hsmall := h.small e he
    rw [hdown]
    split
    · next heq =>
      subst heq
      omega
    · exact hsmall

theorem Counted.listDel (h : Counted s) (hnil : s.attached d = []) : Counted (s.listDel d) := by
  have hmem : ∀ e, e ∈ (s.listDel d).disks → e ∈ s.disks := fun e he => List.mem_of_mem_erase he
  refine ⟨h.disksNodup.erase d, h.openedNodup, fun e he => h.made e (hmem e he), h.closed, fun b e hb => ?_,
    fun e he => h.count e (hmem e he), fun e he => h.small e (hmem e he)⟩
  have hed : e ≠ d := by
    rintro rfl
    have hopen : b ∈ s.opened := by
      by_contra hnot
      have hnone := h.closed b hnot
      rw [show s.blockDev b = some e from hb] at hnone
      cases hnone
    have hatt : b ∈ s.attached e := mem_attached.2 ⟨hopen, hb⟩
    rw [hnil] at hatt
    cases hatt
  exact (List.mem_erase_of_ne hed).2 (h.listed b e hb)

theorem Counted.last_iff (h : Counted s) (hc : c ∈ s.opened) (hd : s.blockDev c = some d) :
    s.attached d = [c] ↔ s.numConnection d = 1 := by
  have hmem : c ∈ s.attached d := mem_attached.2 ⟨hc, hd⟩
  rw [h.count d (h.listed c d hd)]
  constructor
  · intro heq
    rw [heq]
    rfl
  · intro hlen
    obtain ⟨b, hb⟩ := List.length_eq_one_iff.1 hlen
    rw [hb, List.mem_singleton] at hmem
    rw [hb, hmem]

theorem devRelease_some (h : Counted s) (hd : s.blockDev c = some d) :
    s.devRelease c = if s.numConnection d = 1 then ((s.countDown d).close c).removeBlockDevice (s.name d)
      else (s.countDown d).close c := by
  have hsmall := h.small d (h.listed c d hd)
  have hzero : ((s.countDown d).close c).numConnection d = 0 ↔ s.numConnection d = 1 := by
    simp only [Devices.close, Devices.countDown, Function.update_self]
    omega
  unfold Devices.devRelease
  rw [hd]
  dsimp only
  by_cases hone : s.numConnection d = 1
  · rw [if_pos (hzero.2 hone), if_pos hone]
    rfl
  · rw [if_neg (fun h0 => hone (hzero.1 h0)), if_neg hone]

theorem removeBlockDevice_eq {diskName : List UInt8} :
    ((s.countDown d).close c).removeBlockDevice diskName =
      match s.getBlockDevice diskName with
      | none => (s.countDown d).close c
      | some e => ((s.countDown d).close c).listDel e := rfl

theorem Counted.release (h : Counted s) (hu : Used s) (hc : c ∈ s.opened) (hok : Unambiguous s (.release c)) :
    Counted (s.devRelease c) ∧ Used (s.devRelease c) := by
  cases hd : s.blockDev c with
  | none =>
    have hrel : s.devRelease c = s.close c := by rw [Devices.devRelease, hd]
    have hdev : (s.close c).blockDev = s.blockDev := by
      simp [Devices.close, ← hd]
    have hatt : ∀ e, (s.close c).attached e = s.attached e := by
      intro e
      exact attached_close_other h.openedNodup (by simp [hd])
    rw [hrel]
    refine ⟨⟨h.disksNodup, h.openedNodup.erase c, h.made, fun b hb => ?_, fun b e hb => ?_, fun e he => ?_, h.small⟩,
      fun e he => ?_⟩
    · rw [hdev]
      by_cases hbc : b = c
      · rw [hbc, hd]
      · exact h.closed b (fun hmem => hb ((opened_close h.openedNodup).2 ⟨hmem, hbc⟩))
    · exact h.listed b e (hdev ▸ hb)
    · rw [hatt]
      exact h.count e he
    · rw [hatt]
      exact hu e he
  | some d =>
    have hcounted := h.detach hc hd
    have hkeep : ∀ e ∈ s.disks, e ≠ d → ((s.countDown d).close c).attached e ≠ [] := by
      intro e he hed
      have hother : ((s.countDown d).close c).attached e = s.attached e :=
        attached_close_other (s := s.countDown d) h.openedNodup (fun heq => hed (Option.some.inj (heq.symm.trans hd)))
      rw [hother]
      exact hu e he
    rw [devRelease_some h hd]
    split
    · next hone =>
      rw [removeBlockDevice_eq, hok d hd hone]
      have hlast := (h.last_iff hc hd).2 hone
      refine ⟨hcounted.listDel ?_, fun e he => ?_⟩
      · have hleft : ((s.countDown d).close c).attached d = (s.attached d).erase c :=
          attached_close (s := s.countDown d) h.openedNodup
        rw [hleft, hlast]
        simp
      · obtain ⟨hed, he⟩ := h.disksNodup.mem_erase_iff.1 he
        exact hkeep e he hed
    · next hone =>
      refine ⟨hcounted, fun e he => ?_⟩
      by_cases hed : e = d
      · subst hed
        have hlen := hcounted.count e he
        intro hnil
        rw [hnil] at hlen
        have hsmall := h.small e he
        simp only [Devices.close, Devices.countDown, Function.update_self, List.length_nil] at hlen
        omega
      · exact hkeep e he hed

end

theorem counted_step {s s' : Devices} {act : DevAct} (h : Counted s) (hu : Used s) (hok : Unambiguous s act)
    (hs : devStep s act = some s') : Counted s' ∧ Used s' := by
  cases act with
  | devOpen c =>
    simp only [devStep] at hs
    split at hs
    · cases hs
    · next hc =>
      cases hs
      have hnone := h.closed c hc
      have hatt := fun e => attached_open (e := e) hnone
      refine ⟨⟨h.disksNodup, ?_, h.made, fun b hb => h.closed b (fun hmem => hb (by simp [hmem])), h.listed,
        fun e he => ?_, h.small⟩, fun e he => ?_⟩
      · exact List.nodup_append.2 ⟨h.openedNodup, by simp, fun a ha b hb => by
          rw [List.mem_singleton.1 hb]
          exact fun heq => hc (heq ▸ ha)⟩
      · rw [hatt e]
        exact h.count e he
      · rw [hatt e]
        exact hu e he
  | create c diskName =>
    simp only [devStep] at hs
    split at hs
    · next hc =>
      cases hs
      refine (h.create diskName).attach hc.1 hc.2 (by simp [Devices.createBlockDevice]) ?_ (fun e he hne => ?_)
      · simp [Devices.createBlockDevice]
      · rcases List.mem_append.1 he with he | he
        · exact hu e he
        · exact absurd (List.mem_singleton.1 he) hne
    · cases hs
  | connect c diskName =>
    simp only [devStep] at hs
    split at hs
    · next hc =>
      split at hs
      · cases hs
        exact ⟨h, hu⟩
      · next d hd =>
        cases hs
        exact h.attach hc.1 hc.2 (getBlockDevice_mem hd) (hok d hd) (fun e he _ => hu e he)
    · cases hs
  | release c =>
    simp only [devStep] at hs
    split at hs
    · next hc =>
      cases hs
      exact h.release hu hc hok
    · cases hs

theorem counted_reach {s : Devices} (h : Machine.Reach devStep Unambiguous Devices.init s) : Counted s ∧ Used s := by
  refine h.inv (I := fun s => Counted s ∧ Used s) (fun s act s' hi hok hs => counted_step hi.1 hi.2 hok hs) ⟨?_, ?_⟩
  · refine ⟨List.nodup_nil, List.nodup_nil, ?_, fun _ _ => rfl, ?_, ?_, ?_⟩
    · intro d hd
      cases hd
    · intro c d hd
      cases hd
    · intro d hd
      cases hd
    · intro d hd
      cases hd
  · intro d hd
    cases hd

/-- **Removal hits the right device**, in every run in which the counters do not
    overflow and the newest device of the name is the one that loses its last
    connection: every listed device counts its connections and has one, every
    connection points to a listed device, and only a release takes a device off the
    list. A release takes off exactly the device whose last connection it closes if
    and only if the condition holds for it. -/
theorem removal_hits_device {s : Devices} (h : Machine.Reach devStep Unambiguous Devices.init s) :
    (∀ d ∈ s.disks, s.numConnection d = (s.attached d).length) ∧
    (∀ d ∈ s.disks, s.attached d ≠ []) ∧
    (∀ c ∈ s.opened, ∀ d, s.blockDev c = some d → d ∈ s.disks) ∧
    ∀ act s', devStep s act = some s' →
      (∀ d ∈ s.disks, d ∉ s'.disks → ∃ c, act = .release c) ∧
      ∀ c, act = .release c →
        ((∀ d ∈ s.disks, d ∉ s'.disks ↔ s.attached d = [c]) ↔ Unambiguous s (.release c)) := by
  obtain ⟨hcounted, hused⟩ := counted_reach h
  refine ⟨hcounted.count, hused, fun c _ d hd => hcounted.listed c d hd,
    fun act s' hs => ⟨fun d hd hnot => ?_, ?_⟩⟩
  · cases act with
    | devOpen c =>
      simp only [devStep] at hs
      split at hs
      · cases hs
      · cases hs
        exact absurd hd hnot
    | create c diskName =>
      simp only [devStep] at hs
      split at hs
      · cases hs
        exact absurd (List.mem_append_left _ hd) hnot
      · cases hs
    | connect c diskName =>
      simp only [devStep] at hs
      split at hs
      · split at hs <;> cases hs <;> exact absurd hd hnot
      · cases hs
    | release c => exact ⟨c, rfl⟩
  · rintro c rfl
    simp only [devStep] at hs
    split at hs
    · next hc =>
      cases hs
      cases hd : s.blockDev c with
      | none =>
        have hrel : s.devRelease c = s.close c := by rw [Devices.devRelease, hd]
        rw [hrel]
        refine ⟨fun _ e he => ?_, fun _ e he => ⟨fun hnot => absurd he hnot, fun hlast => ?_⟩⟩
        · rw [hd] at he
          cases he
        have hmem : c ∈ s.attached e := by rw [hlast]; simp
        rw [mem_attached, hd] at hmem
        cases hmem.2
      | some d =>
        have hlisted := hcounted.listed c d hd
        have hlast := hcounted.last_iff hc hd
        have honly : ∀ e, s.attached e = [c] → e = d := by
          intro e he
          have hmem : c ∈ s.attached e := by rw [he]; simp
          rw [mem_attached, hd] at hmem
          exact (Option.some.inj hmem.2).symm
        rw [devRelease_some hcounted hd, removeBlockDevice_eq]
        constructor
        · intro hright e he hone
          rw [hd] at he
          cases he
          rw [if_pos hone] at hright
          have hgone := (hright d hlisted).2 (hlast.2 hone)
          cases hfind : s.getBlockDevice (s.name d) with
          | none =>
            rw [hfind] at hgone
            exact absurd hlisted hgone
          | some e =>
            rw [hfind] at hgone
            by_contra hne
            refine hgone ((List.mem_erase_of_ne ?_).2 hlisted)
            exact fun heq => hne (by rw [heq])
        · intro hok e he
          by_cases hone : s.numConnection d = 1
          · rw [if_pos hone, hok d hd hone]
            have herase : e ∈ s.disks.erase d ↔ e ≠ d ∧ e ∈ s.disks := hcounted.disksNodup.mem_erase_iff
            constructor
            · intro hnot
              have hed : e = d := by
                by_contra hne
                exact hnot (herase.2 ⟨hne, he⟩)
              rw [hed]
              exact hlast.2 hone
            · intro hatt hmem
              exact (herase.1 hmem).1 (honly e hatt)
          · rw [if_neg hone]
            refine ⟨fun hnot => absurd he hnot, fun hatt => ?_⟩
            have hed := honly e hatt
            subst hed
            exact absurd (hlast.1 hatt) hone
    · cases hs

/-- Two connections share a device; the first is closed. -/
def sharedDevice : List DevAct :=
  [.devOpen 0, .create 0 [97], .devOpen 1, .connect 1 [97], .release 0]

theorem removal_hits_device_shared : ∃ s, Machine.run devStep Devices.init sharedDevice = some s ∧
    s.disks = [0] ∧ s.attached 0 = [1] ∧ s.numConnection 0 = (s.attached 0).length := by
  refine ⟨_, rfl, rfl, rfl, (removal_hits_device ⟨sharedDevice, ?_⟩).1 0 (List.mem_singleton_self 0)⟩
  refine .cons trivial rfl (.cons trivial rfl (.cons trivial rfl (.cons ?_ rfl (.cons ?_ rfl (.nil _)))))
  · intro d hd
    cases hd
    decide
  · intro d hd hone
    cases hd
    revert hone
    decide

/-- Two devices of one name, each with its connection. Closing the first connection
    takes the second device off the list: an open connection points to a removed
    device, and the listed one has no connection. -/
theorem removal_hits_newest : ∃ s, Machine.run devStep Devices.init
      [.devOpen 0, .create 0 [97], .devOpen 1, .create 1 [97], .release 0] = some s ∧
    s.disks = [0] ∧ s.opened = [1] ∧ s.blockDev 1 = some 1 ∧ s.attached 0 = [] :=
  ⟨_, rfl, rfl, rfl, rfl, rfl⟩

end Bius
