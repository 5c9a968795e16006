import Mathlib.Data.List.TakeWhile
import Bius.DeviceRaces
import Bius.HeaderCopy

/- Programs of the library from their start to their end: `bius_main_real`,
   `thread_main`, `create_block_device` and `connect_block_device` of
   `library/libbius.c`, over the sections of the kernel module (`raceStep`). The first
   thread of a program opens the device file, creates the block device and starts the
   other threads; each of these opens the file again and connects to the device by its
   name. Then every thread is in `handle_requests`, which returns only through `exit`.

   A program may end at any point, through one of the calls of `exit(1)` or a signal:
   its threads finish the calls they are in, and when no thread is in a call the kernel
   closes the files one after the other. A section of such a close is noted at the
   thread that opened the file. Every allocation of the kernel succeeds, and `open`
   fails only as part of an `exit`. -/
namespace Bius

open Bytes

/-! ## The writes of the library -/

/-- `struct bius_u2k_header` with the second half of its union. -/
def initHeader (u2kType : BiusReq) (u2kLength userData : Nat) : List UInt8 :=
  le 8 0 ++ (le 4 u2kType.code ++ (le 4 u2kLength ++ le 8 userData))

/-- `strlen` of a name in an array of `DISK_NAME_LEN` bytes that ends in it. -/
def strlen (name : List UInt8) : Nat := (name.takeWhile (fun b => b != 0)).length

/-- What `create_block_device` writes; the options are at `options`. -/
def createHeader (options : Nat) (diskName : List UInt8) : List UInt8 :=
  initHeader .create (strlen diskName) options

/-- What `connect_block_device` writes. -/
def connectHeader (options : Nat) (diskName : List UInt8) : List UInt8 :=
  initHeader .connect (strlen diskName) (options + diskNameAt)

/-- The name that the kernel looks up for it. -/
def connectName (diskName : List UInt8) : List UInt8 :=
  diskName.take (min diskNameLen (strlen diskName)) ++
    List.replicate (diskNameLen - min diskNameLen (strlen diskName)) 0

theorem initHeader_fields {u2kType : BiusReq} {u2kLength userData : Nat} (hlen : u2kLength < 2 ^ 32)
    (hdata : userData < 2 ^ 64) : field 8 4 (initHeader u2kType u2kLength userData) = u2kType.code ∧
      field 12 4 (initHeader u2kType u2kLength userData) = u2kLength ∧
      field 16 8 (initHeader u2kType u2kLength userData) = userData := by
  have h₁ : field 8 4 (initHeader u2kType u2kLength userData) = u2kType.code :=
    @field_append (le 8 0) _ 8 4 _ (le_length 8 _) (BiusReq.code_lt _)
  have h₂ : field 12 4 (initHeader u2kType u2kLength userData) = u2kLength := by
    have hf := @field_append (le 8 0 ++ le 4 u2kType.code) (le 8 userData) 12 4 u2kLength (by simp)
      (by rw [show (256 : Nat) ^ 4 = 2 ^ 32 by decide]; exact hlen)
    simpa only [initHeader, List.append_assoc] using hf
  have h₃ : field 16 8 (initHeader u2kType u2kLength userData) = userData := by
    have hf := @field_append (le 8 0 ++ (le 4 u2kType.code ++ le 4 u2kLength)) [] 16 8 userData (by simp)
      (by rw [show (256 : Nat) ^ 8 = 2 ^ 64 by decide]; exact hdata)
    simpa only [initHeader, List.append_assoc, List.append_nil] using hf
  exact ⟨h₁, h₂, h₃⟩

theorem strlen_le (name : List UInt8) : strlen name ≤ name.length :=
  (List.takeWhile_prefix _).length_le

theorem cString_connectName (diskName : List UInt8) : cString (connectName diskName) = cString diskName := by
  obtain ⟨hd, hsplit⟩ : ∃ hd, hd = diskName.takeWhile (fun b => b != 0) := ⟨_, rfl⟩
  have hlen : strlen diskName = hd.length := by rw [hsplit]; rfl
  have hpre : hd <+: diskName := hsplit ▸ List.takeWhile_prefix _
  have hne : ∀ b ∈ hd.take diskNameLen, (b != 0) = true := fun b hb => by
    have hmem := List.mem_of_mem_take hb
    rw [hsplit] at hmem
    exact List.mem_takeWhile_imp (p := fun b => b != 0) hmem
  have hcopied : diskName.take (min diskNameLen (strlen diskName)) = hd.take diskNameLen := by
    rw [List.prefix_iff_eq_take] at hpre
    rw [hlen]
    conv_rhs => rw [hpre]
    rw [List.take_take]
  have hwhole : (connectName diskName).length ≤ diskNameLen := by
    simp only [connectName, List.length_append, List.length_take, List.length_replicate, hlen]
    omega
  calc cString (connectName diskName)
      = (connectName diskName).takeWhile (fun b => b != 0) := by rw [cString, List.take_of_length_le hwhole]
    _ = hd.take diskNameLen := by
      rw [connectName, hcopied, List.takeWhile_append_of_pos hne]
      simp
    _ = cString diskName := by rw [cString, ← List.take_takeWhile, hsplit]

/-- The options of the program, at `options` in its memory. -/
structure OptionsAt (umem : UMem) (options : Nat) (diskName : List UInt8) : Prop where
  readable : ∀ i < sizeofOptions, (umem (options + i)).isSome
  name : slice (fun a => (umem a).getD 0) (options + diskNameAt) diskNameLen = diskName

section
variable {o : CreateOutcomes} {umem : UMem} {mapped : Nat → Bool} {device c : Nat} {s : Devices}
  {options : Nat} {diskName : List UInt8}

theorem OptionsAt.length (h : OptionsAt umem options diskName) : diskName.length = diskNameLen := by
  rw [← h.name, slice_length]

/-- The fields of the two headers hold what has been written to them. -/
theorem OptionsAt.fields (h : OptionsAt umem options diskName) (hptr : options + sizeofOptions ≤ 2 ^ 64)
    (u2kType : BiusReq) {userData : Nat} (hdata : userData ≤ options + diskNameAt) :
    field 8 4 (initHeader u2kType (strlen diskName) userData) = u2kType.code ∧
      field 12 4 (initHeader u2kType (strlen diskName) userData) = strlen diskName ∧
      field 16 8 (initHeader u2kType (strlen diskName) userData) = userData := by
  refine initHeader_fields ?_ ?_
  · have := strlen_le diskName
    rw [h.length] at this
    have hsmall : diskNameLen < 2 ^ 32 := by decide
    omega
  · have hsmall : diskNameAt < sizeofOptions := by decide
    omega

theorem createDevice_done (ho : o.failed = none) (out : Nat) :
    (createDevice o s out diskName).devices = s.createBlockDevice diskName ∧
      (createDevice o s out diskName).out = s.created := by
  unfold CreateOutcomes.failed at ho
  split at ho
  · cases ho
  split at ho
  · cases ho
  split at ho
  · cases ho
  split at ho
  · cases ho
  split at ho
  · cases ho
  · next hkmalloc hregister hdisk htags hqueue =>
    have hnone : o.initQueue = none := by simpa using hqueue
    simp only [createDevice, if_neg hkmalloc, if_neg hregister, if_neg hdisk, if_neg htags, hnone, and_self]

/-- **The write of `create_block_device`** makes the device of the options, if nothing
    fails, and attaches the connection to it. -/
theorem handleInitialization_create (h : OptionsAt umem options diskName) (hptr : options + sizeofOptions ≤ 2 ^ 64)
    (ho : o.failed = none) (hmapped : mapped s.created = true) :
    handleInitialization o umem mapped device c s (createHeader options diskName) =
      some (((s.createBlockDevice diskName).countUp s.created).store c s.created, (sizeofU2k : Int)) := by
  obtain ⟨htype, -, hdata⟩ := h.fields hptr .create (Nat.le_add_right options diskNameAt)
  have hok := (copyFromUser_ok_iff umem options sizeofOptions).2 h.readable
  have hend : options + diskNameAt + diskNameLen ≤ options + sizeofOptions := by
    simp only [diskNameAt, diskNameLen, sizeofOptions]
    omega
  have hname : ((copyFromUser umem options sizeofOptions).1.drop diskNameAt).take diskNameLen = diskName := by
    have hin := slice_inner (fun a => (umem a).getD 0) (Nat.le_add_right options diskNameAt) hend
    rw [Nat.add_sub_cancel_left, h.name] at hin
    rw [copyFromUser_bytes hok, hin]
  obtain ⟨hdevices, hout⟩ : (createDevice o s device diskName).devices = s.createBlockDevice diskName ∧
      (createDevice o s device diskName).out = s.created := createDevice_done ho device
  simp only [handleInitialization, createHeader, htype, hdata, hok, if_true, ne_eq, not_true_eq_false, if_false, hname,
    handleCreate, Nat.not_lt_zero, hout, hmapped, hdevices]

/-- **The write of `connect_block_device`** looks the device up under the name of the
    options. -/
theorem handleInitialization_connect (h : OptionsAt umem options diskName) (hptr : options + sizeofOptions ≤ 2 ^ 64) :
    handleInitialization o umem mapped device c s (connectHeader options diskName) =
      match s.getBlockDevice (connectName diskName) with
      | none => some (s, -eNOENT)
      | some d => some ((s.countUp d).store c d, (sizeofU2k : Int)) := by
  obtain ⟨htype, hlength, hdata⟩ := h.fields hptr .connect (Nat.le_refl (options + diskNameAt))
  have hshort := Nat.min_le_left diskNameLen (strlen diskName)
  have hend : diskNameAt + diskNameLen = sizeofOptions := rfl
  have hok : (copyFromUser umem (options + diskNameAt) (min diskNameLen (strlen diskName))).2 = 0 := by
    refine (copyFromUser_ok_iff umem _ _).2 (fun i hi => ?_)
    rw [Nat.add_assoc]
    exact h.readable _ (by omega)
  have hcopied : (copyFromUser umem (options + diskNameAt) (min diskNameLen (strlen diskName))).1 =
      diskName.take (min diskNameLen (strlen diskName)) := by
    rw [copyFromUser_bytes hok]
    have hin := slice_inner (fun a => (umem a).getD 0) (Nat.le_refl (options + diskNameAt))
      (Nat.add_le_add_left hshort (options + diskNameAt))
    rw [Nat.sub_self, h.name, List.drop_zero] at hin
    exact hin.symm
  have hcreate : BiusReq.connect.code ≠ BiusReq.create.code := by decide
  have hname : diskName.take (min diskNameLen (strlen diskName)) ++
      List.replicate (diskNameLen - min diskNameLen (strlen diskName)) 0 = connectName diskName := rfl
  cases hfound : s.getBlockDevice (connectName diskName) <;>
    simp only [handleInitialization, connectHeader, htype, hlength, hdata, if_neg hcreate, if_true, hok, ne_eq,
      not_true_eq_false, if_false, hcopied, hname, hfound]

end

/-! ## The programs -/

def biusDefaultNumThreads : Nat := 4

/-- Where a thread of a program is. In a call, its `AttachPoint` says more. -/
inductive ThreadAt where
  | opening
  /-- `open` has returned a connection -/
  | opened (c : Nat)
  /-- in the write of `create_block_device` or `connect_block_device` -/
  | initializing (c : Nat)
  /-- the write has failed, and `exit(1)` comes next -/
  | refused (c : Nat)
  /-- the write has succeeded; the first thread starts the others -/
  | attached (c : Nat)
  /-- in `handle_requests` -/
  | serving (c : Nat)
  /-- its file has been closed -/
  | closed
  deriving DecidableEq

/-- The connection that a thread has opened. -/
def ThreadAt.connection : ThreadAt → Option Nat
  | .opened c | .initializing c | .refused c | .attached c | .serving c => some c
  | .opening | .closed => none

structure Program where
  /-- `options->disk_name` -/
  diskName : List UInt8
  /-- `num_threads` of `bius_main_real` -/
  numThreads : Nat
  /-- the thread that has called `bius_main` -/
  main : Nat
  /-- `i` of the loop that starts the others -/
  next : Nat
  /-- the calls of `pthread_create` that have failed: their result is positive, and the
      loop looks for a negative one -/
  refusals : Nat
  exiting : Bool

/-- Programs and threads are numbered as they start. -/
structure Programs where
  races : Races
  thread : Nat → ThreadAt
  owner : Nat → Nat
  program : Nat → Program
  threads : Nat
  programs : Nat
  /-- the device that a program has created, while it is on the list; no step reads it -/
  device : Nat → Option Nat

inductive ProgAct where
  /-- a program starts and calls `bius_main` with these options -/
  | exec (diskName : List UInt8) (numThreads : Nat)
  | devOpen (t c : Nat)
  /-- the write of `create_block_device` or `connect_block_device` -/
  | write (t : Nat)
  /-- the next section of the call that a thread is in -/
  | call (t : Nat)
  /-- a call of `pthread_create`, and whether it succeeds -/
  | pthreadCreate (t : Nat) (ok : Bool)
  /-- the thread calls `handle_requests` -/
  | serve (t : Nat)
  | exit (p : Nat)
  /-- the file that the thread has opened is closed -/
  | release (t : Nat)

namespace Programs

def init : Programs :=
  ⟨Races.init, fun _ => .opening, fun _ => 0, fun _ => ⟨[], 0, 0, 0, 0, false⟩, 0, 0, fun _ => none⟩

/-- The program of a thread. -/
def its (s : Programs) (t : Nat) : Program := s.program (s.owner t)

/-- The thread can leave the place between two calls where it is. -/
def Runs (s : Programs) (t : Nat) : Prop := t < s.threads ∧ (s.its t).exiting = false

/-- No thread of the program is in a call. -/
def Quiet (s : Programs) (p : Nat) : Prop := ∀ u < s.threads, s.owner u = p → s.races.point u = .outside

/-- The program has ended, and its files are closed. -/
def Gone (s : Programs) (p : Nat) : Prop :=
  (s.program p).exiting = true ∧ s.Quiet p ∧ ∀ u < s.threads, s.owner u = p → (s.thread u).connection = none

instance (s : Programs) (t : Nat) : Decidable (s.Runs t) := inferInstanceAs (Decidable (_ ∧ _))

instance (s : Programs) (p : Nat) : Decidable (s.Quiet p) := inferInstanceAs (Decidable (∀ u < s.threads, _ → _))

instance (s : Programs) (p : Nat) : Decidable (s.Gone p) :=
  inferInstanceAs (Decidable (_ ∧ _ ∧ ∀ u < s.threads, _ → _))

/-- Thread `t` goes on at `x`. -/
def go (s : Programs) (t : Nat) (x : ThreadAt) (races : Races) : Programs :=
  { s with races := races, thread := Function.update s.thread t x }

/-- Program `p` goes on as `x`. -/
def setProgram (s : Programs) (p : Nat) (x : Program) : Programs := { s with program := Function.update s.program p x }

/-- The same with a new thread; the program itself may be new. -/
def spawn (s : Programs) (p : Nat) (x : Program) : Programs :=
  { s with
    thread := Function.update s.thread s.threads .opening
    owner := Function.update s.owner s.threads p
    program := Function.update s.program p x
    threads := s.threads + 1
    programs := max s.programs (p + 1) }

def setDevice (s : Programs) (device : Nat → Option Nat) : Programs := { s with device := device }

/-- The section that comes next in the call of a thread. -/
def nextSection (s : Programs) (t : Nat) : Option RaceAct :=
  match s.races.point t with
  | .outside => none
  | .init _ =>
    some (if (s.its t).main = t then .create t (s.its t).diskName else .lookup t (connectName (s.its t).diskName))
  | .got _ _ => some (.countUp t)
  | .counted _ _ => some (.store t)
  | .releasing _ _ => some (.countDown t)
  | .removing _ => some (.find t)
  | .unlinking _ => some (.listDel t)

/-- Where this leaves the thread. -/
def arrives (s : Programs) (t : Nat) (races : Races) : ThreadAt :=
  match s.races.point t with
  | .init c => if races.point t = .outside then .refused c else s.thread t
  | .counted c _ => .attached c
  | .releasing _ _ => .closed
  | _ => s.thread t

/-- The devices of the programs after it. -/
def deviceAfter (s : Programs) (t : Nat) : Nat → Option Nat :=
  match s.races.point t with
  | .init _ =>
    if (s.its t).main = t then Function.update s.device (s.owner t) (some s.races.devs.created) else s.device
  | .unlinking _ => Function.update s.device (s.owner t) none
  | _ => s.device

end Programs

/-- One step, if it can be made. -/
def progStep (s : Programs) : ProgAct → Option Programs
  | .exec diskName numThreads =>
    let n := if numThreads ≠ 0 then numThreads else biusDefaultNumThreads
    some (s.spawn s.programs ⟨diskName, n, s.threads, 0, 0, false⟩)
  | .devOpen t c =>
    if s.Runs t ∧ s.thread t = .opening then (raceStep s.races (.devOpen c)).map (s.go t (.opened c)) else none
  | .write t =>
    match s.thread t with
    | .opened c => if s.Runs t then (raceStep s.races (.write t c)).map (s.go t (.initializing c)) else none
    | _ => none
  | .call t =>
    if t < s.threads then
      (s.nextSection t).bind (fun act => (raceStep s.races act).map (fun races =>
        (s.go t (s.arrives t races) races).setDevice (s.deviceAfter t)))
    else none
  | .pthreadCreate t ok =>
    match s.thread t with
    | .attached _ =>
      if s.Runs t ∧ (s.its t).main = t ∧ (s.its t).next < (s.its t).numThreads - 1 then
        let x := s.its t
        some (if ok then s.spawn (s.owner t) { x with next := x.next + 1 }
          else s.setProgram (s.owner t) { x with next := x.next + 1, refusals := x.refusals + 1 })
      else none
    | _ => none
  | .serve t =>
    match s.thread t with
    | .attached c =>
      if s.Runs t ∧ ((s.its t).main = t → (s.its t).numThreads - 1 ≤ (s.its t).next) then
        some (s.go t (.serving c) s.races)
      else none
    | _ => none
  | .exit p =>
    if p < s.programs ∧ (s.program p).exiting = false then
      some (s.setProgram p { s.program p with exiting := true })
    else none
  | .release t =>
    match (s.thread t).connection with
    | some c =>
      if t < s.threads ∧ (s.its t).exiting = true ∧ s.Quiet (s.owner t) then
        (raceStep s.races (.release t c)).map (fun races =>
          s.go t (if races.point t = .outside then .closed else s.thread t) races)
      else none
    | none => none

/-- What the module may rely on: two programs whose files are open have different disk
    names, and the `i` of `bius_main_real`, an `int`, does not overflow. -/
def ProgPromised (s : Programs) : ProgAct → Prop
  | .exec diskName numThreads =>
    numThreads < 2 ^ 31 ∧ ∀ p < s.programs, ¬ s.Gone p → cString (s.program p).diskName ≠ cString diskName
  | _ => True

instance (s : Programs) : (act : ProgAct) → Decidable (ProgPromised s act)
  | .exec _ _ => inferInstanceAs (Decidable (_ ∧ ∀ p < s.programs, _ → _))
  | .devOpen _ _ | .write _ | .call _ | .pthreadCreate _ _ | .serve _ | .exit _ | .release _ =>
    inferInstanceAs (Decidable True)

/-- The section of the kernel module that a step is. -/
def Programs.section? (s : Programs) : ProgAct → Option RaceAct
  | .devOpen _ c => some (.devOpen c)
  | .write t => (s.thread t).connection.map (.write t)
  | .call t => s.nextSection t
  | .release t => (s.thread t).connection.map (.release t)
  | _ => none

/-- What `create_block_device` or `connect_block_device` writes in a thread whose program
    has its options at `options`. -/
def Programs.initWrite (s : Programs) (t options : Nat) : List UInt8 :=
  if (s.its t).main = t then createHeader options (s.its t).diskName else connectHeader options (s.its t).diskName

/-- The next three sections of the thread are this write: they attach it, and
    `handle_initialization` does to the devices what they do and returns the length of
    the header, if nothing fails. -/
def Programs.WritesInit (s : Programs) (t c : Nat) : Prop :=
  ∃ s', Machine.run progStep s [.call t, .call t, .call t] = some s' ∧ s'.thread t = .attached c ∧
    ∀ (o : CreateOutcomes) (umem : UMem) (mapped : Nat → Bool) (device options : Nat),
      OptionsAt umem options (s.its t).diskName → options + sizeofOptions ≤ 2 ^ 64 → o.failed = none →
      mapped s.races.devs.created = true →
      handleInitialization o umem mapped device c s.races.devs (s.initWrite t options) =
        some (s'.races.devs, (sizeofU2k : Int))

end Bius
