import Bius.Devices
import Bius.Request

/- `BIUS_CREATE` when a step of `create_block_device` fails. The steps are given by what
   they return (`CreateOutcomes`), and the function is written out with its ladder of
   labels; the resources it takes and gives back are recorded in order.

   `create_failure`: a failed call gives back what it has taken, in reverse order, and
   touches neither the list nor `*out_device`; but where `alloc_disk` fails it returns
   the major number of the step before. `handle_initialization` keeps the result in an
   `unsigned long`, so its test for a negative value never holds, and it goes on with a
   pointer that nobody has set. -/
namespace Bius

/-! ## `create_block_device` -/

/-- The steps that can fail. -/
inductive CreateStep where
  | kmalloc | registerBlkdev | allocDisk | allocTagSet | initQueue
  deriving DecidableEq, Repr

/-- What the steps return: `registerBlkdev` the major number or an error, `initQueue`
    the error of the pointer, if it is one. -/
structure CreateOutcomes where
  kmalloc : Bool
  registerBlkdev : Int
  allocDisk : Bool
  allocTagSet : Int
  initQueue : Option Int
  deriving DecidableEq

/-- The pointer of a failed `blk_mq_init_queue` holds a negative error. -/
def CreateOutcomes.Documented (o : CreateOutcomes) : Prop := ∀ e, o.initQueue = some e → e < 0

/-- The step that fails. -/
def CreateOutcomes.failed (o : CreateOutcomes) : Option CreateStep :=
  if !o.kmalloc then some .kmalloc
  else if o.registerBlkdev < 0 then some .registerBlkdev
  else if !o.allocDisk then some .allocDisk
  else if o.allocTagSet < 0 then some .allocTagSet
  else if o.initQueue.isSome then some .initQueue
  else none

inductive Resource where
  | device
  | major (n : Int)
  | disk
  | tagSet
  | queue
  deriving DecidableEq

/-- What `create_block_device` has done so far: the resources it has taken and those it
    has given back. -/
structure Resources where
  taken : List Resource
  given : List Resource
  deriving DecidableEq

def Resources.take (l : Resources) (r : Resource) : Resources := { l with taken := l.taken ++ [r] }

def Resources.give (l : Resources) (r : Resource) : Resources := { l with given := l.given ++ [r] }

/-- What a call leaves: the devices, `*out_device`, the resources, and the result. -/
structure Created where
  devices : Devices
  out : Nat
  resources : Resources
  ret : Int

section
variable (o : CreateOutcomes) (s : Devices) (out : Nat)

/-- The label `out_free_device`. -/
def outFreeDevice (l : Resources) (ret : Int) : Created := ⟨s, out, l.give .device, ret⟩

/-- The label `out_unregister`. -/
def outUnregister (l : Resources) (ret : Int) : Created := outFreeDevice s out (l.give (.major o.registerBlkdev)) ret

/-- The label `out_put_disk`. -/
def outPutDisk (l : Resources) (ret : Int) : Created := outUnregister o s out (l.give .disk) ret

/-- The label `out_free_tag_set`. -/
def outFreeTagSet (l : Resources) (ret : Int) : Created := outPutDisk o s out (l.give .tagSet) ret

/-- `create_block_device`. Where `alloc_disk` fails, `ret` still holds the major
    number. -/
def createDevice (diskName : List UInt8) : Created :=
  if !o.kmalloc then ⟨s, out, ⟨[], []⟩, -eNOMEM⟩
  else
    let l : Resources := Resources.take ⟨[], []⟩ .device
    if o.registerBlkdev < 0 then outFreeDevice s out l o.registerBlkdev
    else
      let l := l.take (.major o.registerBlkdev)
      if !o.allocDisk then outUnregister o s out l o.registerBlkdev
      else
        let l := l.take .disk
        if o.allocTagSet < 0 then outPutDisk o s out l o.allocTagSet
        else
          let l := l.take .tagSet
          match o.initQueue with
          | some e => outFreeTagSet o s out l e
          | none => ⟨s.createBlockDevice diskName, s.created, l.take .queue, 0⟩

/-! ## `handle_initialization` -/

/-- `handle_initialization` for `BIUS_CREATE` on connection `c`, after the options have
    been read. `junk` is what the variable `device` holds before, and `mapped` says
    which addresses can be dereferenced; `none` is a fault. -/
def handleCreate (mapped : Nat → Bool) (junk c : Nat) (diskName : List UInt8) : Option (Devices × Int) :=
  let created := createDevice o s junk diskName
  -- an `unsigned long`
  let result : Nat := toU64 created.ret
  if result < 0 then some (created.devices, toInt64 (sub64 0 result))
  else if mapped created.out then some ((created.devices.countUp created.out).store c created.out, sizeofU2k)
  else none

end

/-! ## A failed call -/

/-- `create_block_device` has failed as it should: a negative result, everything given
    back that was taken, the list and `*out_device` as before. -/
structure CreateUndone (s : Devices) (out : Nat) (res : Created) : Prop where
  ret : res.ret < 0
  resources : res.resources.given = res.resources.taken.reverse
  devices : res.devices = s
  out : res.out = out

/-- `handle_initialization` has failed as it should: the same negative result, the
    connection not attached, and no counter changed. -/
def InitReported (s : Devices) (c : Nat) (ret : Int) (res : Option (Devices × Int)) : Prop :=
  ∃ s', res = some (s', ret) ∧ ret < 0 ∧ s'.blockDev c = none ∧ s'.numConnection = s.numConnection

/-- What `ret` holds where a step has failed. -/
def CreateOutcomes.error (o : CreateOutcomes) : CreateStep → Int
  | .kmalloc => -eNOMEM
  | .registerBlkdev | .allocDisk => o.registerBlkdev
  | .allocTagSet => o.allocTagSet
  | .initQueue => o.initQueue.getD 0

theorem createDevice_failed {o : CreateOutcomes} {step : CreateStep} (h : o.failed = some step) (s : Devices)
    (out : Nat) (diskName : List UInt8) :
    (createDevice o s out diskName).resources.given = (createDevice o s out diskName).resources.taken.reverse ∧
      (createDevice o s out diskName).devices = s ∧ (createDevice o s out diskName).out = out ∧
      (createDevice o s out diskName).ret = o.error step := by
  unfold CreateOutcomes.failed at h
  unfold createDevice
  split at h
  · next hk =>
    cases h
    rw [if_pos hk]
    exact ⟨rfl, rfl, rfl, rfl⟩
  · next hk =>
    rw [if_neg hk]
    dsimp only
    split at h
    · next hr =>
      cases h
      rw [if_pos hr]
      exact ⟨rfl, rfl, rfl, rfl⟩
    · next hr =>
      rw [if_neg hr]
      split at h
      · next hd =>
        cases h
        rw [if_pos hd]
        exact ⟨rfl, rfl, rfl, rfl⟩
      · next hd =>
        rw [if_neg hd]
        split at h
        · next ht =>
          cases h
          rw [if_pos ht]
          exact ⟨rfl, rfl, rfl, rfl⟩
        · next ht =>
          rw [if_neg ht]
          cases hq : o.initQueue with
          | none =>
            rw [hq] at h
            cases h
          | some e =>
            rw [hq] at h
            cases h
            exact ⟨rfl, rfl, rfl, by rw [CreateOutcomes.error, hq]; rfl⟩

/-- The result of a failed call is negative, unless it was `alloc_disk` that failed. -/
theorem createDevice_ret_neg {o : CreateOutcomes} (ho : o.Documented) {step : CreateStep} (h : o.failed = some step)
    (s : Devices) (out : Nat) (diskName : List UInt8) :
    (createDevice o s out diskName).ret < 0 ↔ step ≠ .allocDisk := by
  have hret := (createDevice_failed h s out diskName).2.2.2
  unfold CreateOutcomes.failed at h
  rw [hret]
  split at h
  · cases h
    exact ⟨fun _ => by simp, fun _ => (by decide : -eNOMEM < 0)⟩
  · split at h
    · next hr =>
      cases h
      exact ⟨fun _ => by simp, fun _ => hr⟩
    · next hr =>
      split at h
      · cases h
        exact ⟨fun hneg => absurd hneg hr, fun hne => absurd rfl hne⟩
      · split at h
        · next ht =>
          cases h
          exact ⟨fun _ => by simp, fun _ => ht⟩
        · split at h
          · next hq =>
            cases h
            obtain ⟨e, he⟩ := Option.isSome_iff_exists.1 hq
            rw [CreateOutcomes.error, he]
            exact ⟨fun _ => by simp, fun _ => ho e he⟩
          · cases h

/-- `handle_initialization` never returns an error of `create_block_device`. -/
theorem handleCreate_ret {o : CreateOutcomes} {s s' : Devices} {mapped : Nat → Bool} {junk c : Nat}
    {diskName : List UInt8} {ret : Int} (h : handleCreate o s mapped junk c diskName = some (s', ret)) :
      ret = sizeofU2k := by
  simp only [handleCreate, Nat.not_lt_zero, if_false] at h
  split at h
  · cases h
    rfl
  · cases h

/-- **A failed `BIUS_CREATE` is undone, except in its result, and is never reported.**
    Whichever step fails, `create_block_device` fails as it should exactly if that step
    is not `alloc_disk`, and `handle_initialization` never does. -/
theorem create_failure {o : CreateOutcomes} (ho : o.Documented) {step : CreateStep} (h : o.failed = some step)
    (s : Devices) (mapped : Nat → Bool) (junk c : Nat) (diskName : List UInt8) :
    let created := createDevice o s junk diskName
    (CreateUndone s junk created ↔ step ≠ .allocDisk) ∧
      ¬ (CreateUndone s junk created ∧ InitReported s c created.ret (handleCreate o s mapped junk c diskName)) := by
  intro created
  obtain ⟨hresources, hdevices, hout, -⟩ := createDevice_failed h s junk diskName
  have hneg := createDevice_ret_neg ho h s junk diskName
  refine ⟨⟨fun hu => hneg.1 hu.ret, fun hne => ⟨hneg.2 hne, hresources, hdevices, hout⟩⟩, fun hboth => ?_⟩
  obtain ⟨-, s', hres, hlt, -⟩ := hboth
  -- the only value that is returned is the size of the header
  rw [handleCreate_ret hres] at hlt
  exact absurd hlt (by decide)

/-- No memory for the device. -/
def outOfMemory : CreateOutcomes := ⟨false, 252, true, 0, none⟩

/-- The queue of the device cannot be initialised, after everything else has been done. -/
def noQueue : CreateOutcomes := ⟨true, 252, true, 0, some (-eNOMEM)⟩

theorem noQueue_documented : noQueue.Documented := by
  intro e he
  cases he
  decide

/-- Everything that was taken is given back, and the one device on the list stays. -/
theorem create_failure_noQueue :
    let s := ((Devices.init.createBlockDevice [97]).countUp 0).store 0 0
    let created := createDevice noQueue s 7 [98]
    noQueue.failed = some .initQueue ∧ created.resources.taken = [.device, .major 252, .disk, .tagSet] ∧
      created.devices.disks = [0] ∧ CreateUndone s 7 created := by
  intro s created
  exact ⟨rfl, rfl, rfl, ((create_failure noQueue_documented rfl s (fun _ => true) 7 0 [98]).1).2 (by decide)⟩

/-- There is one device, with one connection, and the variable `device` of
    `handle_initialization` happens to hold its address. Another connection asks for a
    new device, and there is no memory: it is told that it has succeeded, and is
    attached to the first device. Where the variable holds no such address, the kernel
    faults. -/
theorem create_unreported :
    let s := ((Devices.init.createBlockDevice [97]).countUp 0).store 0 0
    (createDevice outOfMemory s 0 [98]).ret = -eNOMEM ∧
      (∃ s' : Devices, handleCreate outOfMemory s (fun _ => true) 0 1 [98] = some (s', (sizeofU2k : Int)) ∧
        s'.blockDev 1 = some 0 ∧
        s.numConnection 0 = 1 ∧ s'.numConnection 0 = 2) ∧
      handleCreate outOfMemory s (fun _ => false) 0 1 [98] = none ∧
      ∀ mapped, ¬ InitReported s 1 (-eNOMEM) (handleCreate outOfMemory s mapped 0 1 [98]) := by
  refine ⟨rfl, ⟨_, rfl, rfl, rfl, rfl⟩, rfl, fun mapped h => ?_⟩
  obtain ⟨s', hres, -⟩ := h
  exact absurd (handleCreate_ret hres) (by decide)

end Bius
