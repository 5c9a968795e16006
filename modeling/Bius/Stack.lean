import Bius.Backends
import Bius.HandleRequests
import Bius.RequestSteps

/- The kernel module and the library as one machine. Every connection is served by one
   `handle_requests` loop: the thread `user c` of the kernel's machine is the loop of
   connection `c`. `Loop` holds the variables of the loop and where it is, `Stack.step` is
   a step of the kernel module, of a loop or of the process around the loops.

   A loop enters the kernel module with `read` and `write` and looks only at what the
   call returns. So the loop can be led astray: a `read_command` that is answered with
   bytes of a payload, or a `read` of `handle_copy_in` that is answered with a command,
   leaves it `lost`, and an error or an end of file in the wrong place ends the process
   (`exited`).

   The process is a parameter (`Backend`): its memory as the kernel reads it, what it does
   by itself (`act`), and how a command is handled. `library` is the process whose loops
   run `makeReply` over the callbacks of a backend. Headers are copied whole and no signal
   arrives. -/
namespace Bius

/-- `data_copy_buffer_size`. -/
def dataCopyBufferSize (cfg : Config) : Nat :=
  if cfg.datamap then biusMapDataThreshold else biusMaxSizePerCommand

/-- Where the loop of a connection is. -/
inductive Point where
  /-- before `create_block_device` or `connect_block_device` -/
  | starting
  /-- before the window is mapped -/
  | mapping
  /-- in `read_command` -/
  | reading
  /-- in the loop of `handle_copy_in`, after `totalRead` bytes -/
  | copyIn (totalRead : Nat)
  /-- the command is being handled -/
  | handling
  /-- in `write_command` -/
  | writing
  | exited
  | lost
  deriving DecidableEq

/-- The variables of `handle_requests`, and where it is. -/
structure Loop where
  k2u : K2u
  u2k : U2k
  point : Point

/-- The process that runs the loops. -/
structure Backend (β α : Type) where
  /-- `data_copy_buffer` of the loop of a connection -/
  buffer : Nat → Nat
  /-- the memory, as the kernel can read it -/
  umem : β → UMem
  /-- bytes copied to an address -/
  store : β → Nat → List UInt8 → β
  /-- what the process does besides -/
  act : β → α → Option β
  /-- the loop of a connection begins to handle a command -/
  enter : Nat → K2u → β → β
  /-- the header it replies with, once it is through; the variable `u2k` before it is
      given -/
  leave : Nat → K2u → U2k → β → Option (β × U2k)
  /-- the header has been written -/
  free : K2u → U2k → β → β

/-- The kernel module, the loops and their process. -/
structure Stack (β : Type) where
  kernel : Kernel
  loop : Nat → Loop
  proc : β

/-- Nothing is connected; the variables of the loops are not initialised. -/
def Stack.init {β : Type} (k2u : Nat → K2u) (u2k : Nat → U2k) (proc : β) : Stack β :=
  ⟨Kernel.init, fun c => ⟨k2u c, u2k c, .starting⟩, proc⟩

/-! ## The loop -/

/-- What `handle_copy_in` does to the header. -/
def copyInHeader (buffer : Nat) (k2u : K2u) : K2u :=
  if requestMayHaveData k2u.opcode && k2u.dataMapType == .unmapped then
    { k2u with dataMapType := .simple, dataAddress := buffer, mappingData := 0 }
  else k2u

/-- Whether `handle_copy_in` reads a payload. -/
def copyInReads (k2u : K2u) : Bool :=
  requestMayHaveData k2u.opcode && k2u.dataMapType == .unmapped && requestIsWrite k2u.opcode

section
variable {β α : Type} (B : Backend β α) (c : Nat)

/-- The loop begins to handle its command. -/
def Loop.handle (l : Loop) (b : β) : Loop × β := ({ l with point := .handling }, B.enter c l.k2u b)

/-- The loop of `handle_copy_in` with `n` bytes read. -/
def Loop.copyInFrom (l : Loop) (n : Nat) (b : β) : Loop × β :=
  if n < l.k2u.length then ({ l with point := .copyIn n }, b) else l.handle B c b

/-- `handle_copy_in` of the command `k2u`. -/
def Loop.command (l : Loop) (k2u : K2u) (b : β) : Loop × β :=
  let l := { l with k2u := copyInHeader (B.buffer c) k2u }
  if copyInReads k2u then l.copyInFrom B c 0 b else l.handle B c b

/-- A `read` returns. At the end of the file `read_command` goes on with the last command,
    `handle_copy_in` ends the process. -/
def Loop.readReturned (l : Loop) (r : Ret) (b : β) : Loop × β :=
  match l.point, r with
  | .reading, .header k2u n =>
    if n < sizeofK2u then ({ l with point := .exited }, b) else l.command B c k2u b
  | .reading, .value v =>
    if v < 0 then ({ l with point := .exited }, b)
    else if v = 0 then l.command B c l.k2u b
    else ({ l with point := .lost }, b)
  | .reading, .payload bytes =>
    if bytes.length = 0 then l.command B c l.k2u b
    else if bytes.length < sizeofK2u then ({ l with point := .exited }, b)
    else ({ l with point := .lost }, b)
  | .copyIn n, .payload bytes =>
    if bytes.length = 0 then ({ l with point := .exited }, b)
    else l.copyInFrom B c (n + bytes.length) (B.store b (B.buffer c + n) bytes)
  | .copyIn _, .value v =>
    if v ≤ 0 then ({ l with point := .exited }, b) else ({ l with point := .lost }, b)
  | _, _ => ({ l with point := .lost }, b)

/-- The `write` of `write_command` returns. -/
def Loop.writeReturned (l : Loop) (r : Ret) (b : β) : Loop × β :=
  match r with
  | .value v =>
    if v < 0 ∨ 0 < v ∧ v < sizeofU2k then ({ l with point := .exited }, b)
    else ({ l with point := .reading }, B.free l.k2u l.u2k b)
  | _ => ({ l with point := .lost }, b)

end

/-! ## The machine -/

/-- Who moves, and what the environment decides. -/
inductive StackAct (α : Type) where
  | attach (c : Nat)
  | mmap (c vmStart : Nat)
  | block (act : Act)
  | read (c : Nat) (cuts : List Nat)
  | take (c : Nat)
  | send (c : Nat)
  | readReturn (c : Nat)
  | reply (c : Nat)
  | write (c : Nat)
  | writeEnd (c : Nat)
  | writeReturn (c : Nat)
  | process (a : α)

/-- The steps of the block layer. -/
def Act.ofBlockLayer : Act → Bool
  | .queueRq (.blk _) _ _ | .reportZones (.blk _) _ _ _ _ | .insert (.blk _) | .zonesWake (.blk _) _ _
  | .ret (.blk _) => true
  | _ => false

section
variable {β α : Type} (cfg : Config) (B : Backend β α)

/-- A step of the kernel module. -/
def Stack.kernelStep (s : Stack β) (act : Act) : Option (Stack β) :=
  (step cfg s.kernel act).map (fun k => { s with kernel := k })

/-- The same, after which the loop of `c` goes on as `l`. -/
def Stack.loopStep (s : Stack β) (act : Act) (c : Nat) (l : Loop × β) : Option (Stack β) :=
  (step cfg s.kernel act).map (fun k => ⟨k, Function.update s.loop c l.1, l.2⟩)

/-- One step, if it is enabled. -/
def Stack.step (s : Stack β) : StackAct α → Option (Stack β)
  | .attach c =>
    if (s.loop c).point = .starting then
      s.loopStep cfg (.attach c) c ({ s.loop c with point := .mapping }, s.proc)
    else none
  | .mmap c vmStart =>
    if (s.loop c).point = .mapping then
      if cfg.datamap then s.loopStep cfg (.mmap c vmStart) c ({ s.loop c with point := .reading }, s.proc)
      else some { s with loop := Function.update s.loop c { s.loop c with point := .reading } }
    else none
  | .block act => if act.ofBlockLayer then s.kernelStep cfg act else none
  | .read c cuts =>
    match (s.loop c).point with
    | .reading => s.kernelStep cfg (.readStart (.user c) c sizeofK2u cuts)
    | .copyIn n => s.kernelStep cfg (.readStart (.user c) c ((s.loop c).k2u.length - n) cuts)
    | _ => none
  | .take c => s.kernelStep cfg (.readTake (.user c))
  | .send c => s.kernelStep cfg (.readSend (.user c) sizeofK2u)
  | .readReturn c =>
    match (s.loop c).point, s.kernel.call (.user c) with
    | .writing, _ => none
    | _, .done r => s.loopStep cfg (.ret (.user c)) c ((s.loop c).readReturned B c r s.proc)
    | _, _ => none
  | .reply c =>
    if (s.loop c).point = .handling then
      (B.leave c (s.loop c).k2u (s.loop c).u2k s.proc).map (fun res =>
        { s with loop := Function.update s.loop c { s.loop c with u2k := res.2, point := .writing }, proc := res.1 })
    else none
  | .write c =>
    if (s.loop c).point = .writing then
      s.kernelStep cfg (.writeStart (.user c) c sizeofU2k sizeofU2k (s.loop c).u2k)
    else none
  | .writeEnd c => s.kernelStep cfg (.writeEnd (.user c) (B.umem s.proc))
  | .writeReturn c =>
    match (s.loop c).point, s.kernel.call (.user c) with
    | .writing, .done r => s.loopStep cfg (.ret (.user c)) c ((s.loop c).writeReturned B r s.proc)
    | _, _ => none
  | .process a => (B.act s.proc a).map (fun b => { s with proc := b })

end

/-- The process whose loops handle a command by `makeReply`, with the callbacks `ops`. Its
    other threads may do anything to it. -/
def library {σ : Type} (ops : BiusOperations σ) (P : Process σ) (umem : σ → UMem) (buffer : Nat → Nat)
    (fuel : Nat) :
    Backend σ σ where
  buffer := buffer
  umem := umem
  store := P.store
  act _ s := some s
  enter _ _ s := s
  leave _ k2u u2k s := makeReply ops P fuel u2k k2u s
  free := freeZoneInfo ops P

/-- A process whose memory is all mapped. What `malloc` hands out is left to `heap`. -/
def Proc.process {δ : Type} (heap : Nat) : Process (Proc δ) where
  word := Proc.word
  store p addr bytes := ⟨Bytes.splice p.mem addr bytes, p.dev⟩
  malloc p _ := (p, heap)
  free p _ := p

def Proc.umem {δ : Type} (p : Proc δ) : UMem := fun a => some (p.mem a)

end Bius
