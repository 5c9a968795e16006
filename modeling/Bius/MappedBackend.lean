import Bius.CopyBackend
import Bius.LibraryWindow
import Bius.WindowCells

/- A backend that copies, in the CONFIG_BIUS_DATAMAP build, and the memory that it shares
   with the kernel module. The callbacks are those of `CopyBackend`, but the data of a long
   request lies in the window of its connection: the callback reads and stores there through
   the page table, in the pages of the request and in the bounce pages behind it. For a
   request in several pieces `handle_blk_command_with_datamap_list` calls the callback once
   for each entry of a list that it reads through the window too.

   `MappedStack` puts the memory beside the stack: kernel memory as a whole, and the reserved
   pages of each connection. `bius_map_data` and `bius_copy_in_misaligned_pages` change it
   within the steps of the kernel module that call them; the rest of the kernel may change
   the rest of it at any time (`memory`). The window is looked up before the memory of the
   process, which `mmap` keeps apart. `arrived` records what the segments of a read hold
   when it ends; nothing reads it. -/
namespace Bius

open Registers (Access Legal play trace)

/-- `DATA_MAP_AREA_SIZE`. -/
def dataMapAreaSize : Nat := biusMaxSizePerCommand + pageSize

/-! ## Commands -/

/-- A command that is being handled. `i` and `offset` are the variables of
    `handle_blk_command_with_datamap_list`, `callback` is the callback it is in; `status` is
    there once the command is through. -/
structure MappedCall where
  k2u : K2u
  i : Nat
  offset : Nat
  callback : Option Transfer
  status : Option Nat

/-- `handle_blk_command`. -/
def MappedCall.start (mover : Mover) (k2u : K2u) : Option MappedCall :=
  if k2u.dataMapType = .list then some ⟨k2u, 0, k2u.offset, none, none⟩
  else (Transfer.start mover k2u).map (fun t => ⟨k2u, 0, k2u.offset, some t, none⟩)

/-- An entry of the list has been read: it is the end of the list, or the callback is called
    for it. -/
def MappedCall.entry (mover : Mover) (call : MappedCall) (address size : Nat) : Option MappedCall :=
  if address = 0 then some { call with status := some blkStsOk }
  else
    (Transfer.start mover
      { call.k2u with dataAddress := address, mappingData := 0, offset := call.offset, length := size }).map
      (fun t => { call with callback := some t })

/-- The callback has returned. -/
def MappedCall.returned (call : MappedCall) (t : Transfer) (status : Nat) : MappedCall :=
  if call.k2u.dataMapType = .list ∧ status = blkStsOk then
    { call with i := call.i + 1, offset := call.offset + t.length, callback := none }
  else { call with callback := none, status := some status }

/-- The process: its memory, the disk, the commands its loops handle, and the history of the
    disk. -/
structure MappedProc where
  mem : Nat → UInt8
  disk : Nat → UInt8
  call : Nat → Option MappedCall
  log : List (Access Nat Nat UInt8)

def MappedProc.setCall (b : MappedProc) (c : Nat) (call : Option MappedCall) : MappedProc :=
  { b with call := Function.update b.call c call }

/-- The header of the reply. The list handler leaves `user_data` alone. -/
def mappedReply (k2u : K2u) (status : Nat) : U2k :=
  ⟨k2u.id, status, if k2u.opcode = .read ∧ k2u.dataMapType ≠ .list then k2u.dataAddress + k2u.mappingData else 0⟩

/-- The process, as the stack sees it. What its callbacks do is a step of `MappedStack`. -/
def mappedLibrary (mover : Mover) (buffer : Nat → Nat) : Backend MappedProc MappedProc where
  buffer := buffer
  umem b := fun a => some (b.mem a)
  store b addr bytes := { b with mem := Bytes.splice b.mem addr bytes }
  act _ b := some b
  enter c k2u b := b.setCall c (MappedCall.start mover k2u)
  leave c k2u _ b :=
    (b.call c).bind (fun call => call.status.map (fun status => (b.setCall c none, mappedReply k2u status)))
  free _ _ b := b

section
variable {mover : Mover} {buffer : Nat → Nat}

theorem mappedLibrary_leave {c : Nat} {k2u : K2u} {u2k : U2k} {b : MappedProc} {res : MappedProc × U2k}
    (h : (mappedLibrary mover buffer).leave c k2u u2k b = some res) :
    ∃ call status, b.call c = some call ∧ call.status = some status ∧
      res = (b.setCall c none, mappedReply k2u status) := by
  change (b.call c).bind _ = _ at h
  rw [Option.bind_eq_some_iff] at h
  obtain ⟨call, hcall, h⟩ := h
  rw [Option.map_eq_some_iff] at h
  obtain ⟨status, hstatus, rfl⟩ := h
  exact ⟨call, status, hcall, hstatus, rfl⟩

theorem mappedLibrary_honest : (mappedLibrary mover buffer).Honest ⟨true⟩ := by
  refine ⟨fun {c k2u u2k b res} h => ?_, fun {c k2u u2k b res} h hop hlist => ?_, fun b c i hi => rfl⟩
  · obtain ⟨call, status, -, -, rfl⟩ := mappedLibrary_leave h
    rfl
  · obtain ⟨call, status, -, -, rfl⟩ := mappedLibrary_leave h
    exact if_pos ⟨hop, hlist⟩

end

/-! ## The memory -/

/-- The stack, and the memory behind the windows. -/
structure MappedStack where
  stack : Stack MappedProc
  kmem : Nat → UInt8
  /-- the two list pages of each connection -/
  words : Nat → Nat → Nat
  /-- its bounce pages -/
  bounce : Nat → Nat → Nat → UInt8
  arrived : Nat → List UInt8

namespace MappedStack

/-- What the window of a connection is made of. -/
def view (S : MappedStack) (c : Nat) : PhysMem := ⟨S.kmem, S.words c, S.bounce c, (S.stack.kernel.conn c).ptes⟩

/-- The page table is the kernel module's. -/
def setView (S : MappedStack) (c : Nat) (m : PhysMem) : MappedStack :=
  { S with kmem := m.kmem, words := Function.update S.words c m.words, bounce := Function.update S.bounce c m.bounce }

def setProc (S : MappedStack) (b : MappedProc) : MappedStack := { S with stack := { S.stack with proc := b } }

/-- Where the window of connection `c` starts, if the address is in it. -/
def windowOf (S : MappedStack) (c a : Nat) : Option Nat :=
  (S.stack.kernel.conn c).vma.filter (fun vmStart => decide (vmStart ≤ a) && decide (a < vmStart + dataMapAreaSize))

/-- The loop of `c` loads a byte. -/
def load (S : MappedStack) (c a : Nat) : UInt8 :=
  match S.windowOf c a with
  | some vmStart => (S.view c).windowByte vmStart a
  | none => S.stack.proc.mem a

/-- It loads an `unsigned long`. -/
def loadWord (S : MappedStack) (c a : Nat) : Nat :=
  match S.windowOf c a with
  | some vmStart => (S.view c).windowWord vmStart a
  | none => leWord (fun j => S.stack.proc.mem (a + j))

/-- It stores a byte. -/
def store (S : MappedStack) (c : Nat) (x : Nat × UInt8) : MappedStack :=
  match S.windowOf c x.1 with
  | some vmStart => S.setView c ((S.view c).windowStore vmStart x.1 x.2)
  | none => S.setProc { S.stack.proc with mem := Function.update S.stack.proc.mem x.1 x.2 }

def storeAll (S : MappedStack) (c : Nat) (xs : List (Nat × UInt8)) : MappedStack := xs.foldl (fun S x => S.store c x) S

/-! ## The steps -/

/-- The addresses of the next `n` bytes of a callback. -/
def addrs (t : Transfer) (n : Nat) : List Nat := List.range' (t.data + (t.size + t.moved)) n

/-- The bytes that it moves. -/
def next (S : MappedStack) (c : Nat) (t : Transfer) (n : Nat) : List UInt8 :=
  if t.op = .read then Bytes.slice S.stack.proc.disk (t.offset + (t.size + t.moved)) n else (addrs t n).map (S.load c)

/-- What moving them does to the process, apart from its memory. -/
def moved (b : MappedProc) (c : Nat) (call : MappedCall) (t : Transfer) (bytes : List UInt8) : MappedProc :=
  { b with
    disk := if t.op = .read then b.disk else Bytes.splice b.disk (t.offset + (t.size + t.moved)) bytes
    call := Function.update b.call c (some { call with callback := some { t with moved := t.moved + bytes.length } })
    log := b.log ++ Registers.range t.id (t.op == .write) (t.offset + (t.size + t.moved)) bytes }

def piece (S : MappedStack) (c : Nat) (call : MappedCall) (t : Transfer) (n : Nat) : MappedStack :=
  let bytes := S.next c t n
  let S' := if t.op = .read then S.storeAll c ((addrs t n).zip bytes) else S
  S'.setProc (moved S'.stack.proc c call t bytes)

/-- What a step of the kernel module does to the memory. The copy-in of a read is the one of
    `bius_dev_write`, and its loop ends within `fuel` entries. -/
def effect (S : MappedStack) (fuel : Nat) : StackAct MappedProc → Option MappedStack
  | .take c =>
    match windowStores S.stack.kernel (.readTake (.user c)) with
    | some (d, _, eff) => some (S.setView d ((S.view d).applyAll eff))
    | none => some S
  | .writeEnd c =>
    match S.stack.kernel.call (.user c) with
    | .replied d p header _ =>
      let r := S.stack.kernel.req p
      if header.reply = blkStsOk ∧ r.type = .read ∧ biusMapDataThreshold < r.length then
        (S.stack.kernel.conn d).vma.bind (fun vmStart =>
          (biusCopyInMisalignedPages r vmStart (S.view d).word fuel).map (fun copies =>
            let S := S.setView d ((S.view d).copyInAll copies)
            { S with arrived := Function.update S.arrived r.id (requestBytes S.kmem (rqForEachSegment r.rq)) }))
      else some S
    | _ => some S
  | _ => some S

end MappedStack

/-- Who moves, and what the environment decides. -/
inductive MappedAct where
  | stack (act : StackAct MappedProc)
  /-- the list handler looks at its next entry -/
  | entry (c : Nat)
  /-- `n` more bytes are copied -/
  | piece (c n : Nat)
  /-- the call of a callback returns -/
  | ret (c : Nat)
  /-- it fails -/
  | fail (c : Nat)
  /-- the callback returns -/
  | back (c : Nat)
  /-- the rest of the kernel stores -/
  | memory (kmem : Nat → UInt8)

/-- A step of the handler of `c`. -/
def MappedStack.callStep (S : MappedStack) (c : Nat) (f : MappedCall → Option MappedCall) : Option MappedStack :=
  (S.stack.proc.call c).bind (fun call =>
    if call.status = none then (f call).map (fun call => S.setProc (S.stack.proc.setCall c (some call))) else none)

def MappedStack.step (mover : Mover) (buffer : Nat → Nat) (fuel : Nat) (S : MappedStack) :
    MappedAct → Option MappedStack
  | .stack (.process _) => none
  | .stack act =>
    (S.stack.step ⟨true⟩ (mappedLibrary mover buffer) act).bind (fun s =>
      (S.effect fuel act).map (fun S => { S with stack := s }))
  | .entry c =>
    S.callStep c (fun call =>
      if call.callback = none then
        call.entry mover (S.loadWord c (call.k2u.mappingData + 16 * call.i))
          (S.loadWord c (call.k2u.mappingData + 16 * call.i + 8))
      else none)
  | .piece c n =>
    (S.stack.proc.call c).bind (fun call => call.callback.bind (fun t =>
      if call.status = none ∧ t.status = none ∧ requestMayHaveData t.op = true ∧ 0 < n ∧
        t.size + t.moved + n ≤ t.length then
        some (S.piece c call t n)
      else none))
  | .ret c =>
    S.callStep c (fun call => call.callback.bind (fun t =>
      if t.status = none then (t.returns mover).map (fun t => { call with callback := some t }) else none))
  | .fail c =>
    S.callStep c (fun call => call.callback.bind (fun t =>
      if t.status = none ∧ mover = .syscalls then some
        { call with callback := some { t with status := some blkStsIoerr } }
      else none))
  | .back c =>
    S.callStep c (fun call => call.callback.bind (fun t => t.status.map (fun status => call.returned t status)))
  | .memory kmem => some { S with kmem := kmem }

def MappedStack.init (k2u : Nat → K2u) (u2k : Nat → U2k) (b : MappedProc) (kmem : Nat → UInt8)
    (words : Nat → Nat → Nat) (bounce : Nat → Nat → Nat → UInt8) : MappedStack :=
  ⟨Stack.init k2u u2k b, kmem, words, bounce, fun _ => []⟩

end Bius
