import Bius.Kernel
import Bius.Lib.Dlist

/- Closing connections and removing the device (`bius_dev_release` in
   `kernel/char_dev.c`, `remove_block_device` in `kernel/block_dev.c`), against the rest
   of the module. Both walk over lists of requests without a lock, so the lists are here
   what they are in memory: `next` and `prev` links inside the requests. Both end
   requests of either kind, so the union of `struct bius_request` is here the bytes it
   is.

   As in `Kernel`, one step is one section under a lock or one completion; a step of the
   two loops loads one `next` link or ends one request. What is left out is what touches
   neither a list nor the result of a request: the payload, the mapping (which only
   writes the block arm of the union, `scratch`) and the zones that `bius_report_zones`
   reports.

   A slot of the block layer may be submitted again as soon as it has been ended. The
   request of `bius_report_zones` is a local variable, each call has its own, and when
   the call returns the memory holds anything. Nothing is said about what follows when a
   function is applied to memory that is no request (`wild`), and no connection is made
   to a device that is being removed.

   `serial` numbers the submissions; `accepted`, `ended`, `returned` and `stale` record
   what has happened. No step reads them. -/
namespace Bius.Teardown

open Dlist

/-- A request: embedded in a slot of the block layer, or the local variable of a call of
    `bius_report_zones`. -/
inductive Ref where
  | slot (p : Nat)
  | zones (k : Nat)
  deriving DecidableEq, Repr

/-- Where a link points to: a list head or the node inside a request. -/
inductive Node where
  | pending
  | waiting (c : Nat)
  | req (r : Ref)
  | poison
  deriving DecidableEq, Repr

/-! ## The union of `struct bius_request` -/

abbrev Union := Nat → UInt8

/-- Offsets of fields in the union: the block arm is `bio`, `map_data`, `mapped_size`
    (8 bytes each), `map_type` (4) and `blk_result` (1); the other arm is `data` (8),
    `sem` (24) and `int_result` (4). -/
def blkResultAt : Nat := 28
def semAt : Nat := 8
def intResultAt : Nat := 32

/-- What is stored in the block arm before `blk_result`. -/
def Union.scratch (u g : Union) : Union := fun i => if i < blkResultAt then g i else u i

def Union.setBlkResult (u : Union) (result : Int) : Union :=
  Function.update u blkResultAt (UInt8.ofNat (blkStatus result))

/-- Byte `i` of a 32-bit value. -/
def byte32 (v : Int) (i : Nat) : UInt8 := UInt8.ofNat ((v % 2 ^ 32).toNat / 256 ^ i % 256)

def Union.setIntResult (u : Union) (result : Int) : Union := fun i =>
  if intResultAt ≤ i ∧ i < intResultAt + 4 then byte32 result (i - intResultAt) else u i

def Union.intResult (u : Union) : Int :=
  toInt32 ((u intResultAt).toNat + 256 * (u (intResultAt + 1)).toNat + 256 ^ 2 * (u (intResultAt + 2)).toNat +
    256 ^ 3 * (u (intResultAt + 3)).toNat : Nat)

/-- `sema_init` on the bytes of a stack frame. -/
def Union.semaInit (u : Union) (sem : Nat → UInt8) : Union := fun i =>
  if semAt ≤ i ∧ i < intResultAt then sem (i - semAt) else u i

/-! ## State -/

/-- What `on_request_end` points to. -/
inductive EndFn where
  | blk
  | zones
  deriving DecidableEq, Repr

structure RawRequest where
  id : Nat
  type : BiusReq
  length : Nat
  union : Union
  onEnd : EndFn
  serial : Nat

/-- Who ends a request. -/
inductive EndedBy where
  /-- the failed send in `bius_dev_read` -/
  | send (c : Nat)
  /-- the reply in `bius_dev_write` -/
  | reply (c : Nat)
  /-- the loop of `bius_dev_release` -/
  | release (c : Nat)
  /-- the loop of `remove_block_device` -/
  | drain
  deriving DecidableEq, Repr

/-- Which field of the union is assigned before a request is ended. -/
inductive Field where
  | blkResult
  | intResult
  | none
  deriving DecidableEq, Repr

/-- A request that was ended, with the result given and the union at that time. -/
structure Ended where
  ref : Ref
  serial : Nat
  who : EndedBy
  field : Field
  result : Int
  union : Union

/-- How far a thread is. -/
inductive Point where
  | idle
  | queueing (r : Ref)
  | zonesWait (k : Nat)
  | readWait (c : Nat)
  | readTaken (c : Nat) (r : Ref)
  | replied (c : Nat) (r : Ref) (reply : Int)
  /-- `bius_dev_release` is about to load the `next` link of a node -/
  | relNext (c : Nat) (n : Node)
  /-- its loop has come to a node -/
  | relAt (c : Nat) (n : Node)
  /-- its loop is over -/
  | relUnref (c : Nat)
  | remUnlink
  /-- the same for `remove_block_device` -/
  | remNext (n : Node)
  | remAt (n : Node)
  | remDel
  | removed
  deriving DecidableEq

structure State where
  links : Links Node
  req : Ref → RawRequest
  busy : Nat → Bool
  alive : Nat → Bool
  sem : Nat → Nat
  zonesCalls : Nat
  nextSerial : Nat
  opened : Nat → Bool
  attached : Nat → Bool
  numConnection : Nat
  removing : Bool
  live : Bool
  call : Tid → Point
  wild : Bool
  accepted : List (Nat × Nat)
  ended : List Ended
  returned : List (Nat × Int)
  stale : Bool

/-- The device, and connections that nobody has used. -/
def State.init : State where
  links := ⟨id, id⟩
  req _ := ⟨0, .invalidOp, 0, fun _ => 0, .blk, 0⟩
  busy _ := false
  alive _ := false
  sem _ := 0
  zonesCalls := 0
  nextSerial := 0
  opened _ := true
  attached _ := false
  numConnection := 0
  removing := false
  live := true
  call _ := .idle
  wild := false
  accepted := []
  ended := []
  returned := []
  stale := false

namespace State

def setCall (s : State) (t : Tid) (x : Point) : State := { s with call := Function.update s.call t x }

def setReq (s : State) (r : Ref) (q : RawRequest) : State := { s with req := Function.update s.req r q }

/-! ## Completion (`kernel/request.h`) -/

/-- `on_request_end`. `bius_report_zones_request_end` raises the semaphore of the call;
    `bius_blk_request_end` completes the `struct request` in front of the request, which
    is there for a slot only. -/
def onRequestEnd (s : State) (r : Ref) (who : EndedBy) (field : Field) (result : Int) : State :=
  let s : State := { s with ended := s.ended ++ [⟨r, (s.req r).serial, who, field, result, (s.req r).union⟩] }
  match r, (s.req r).onEnd with
  | .slot p, .blk => { s with busy := Function.update s.busy p false }
  | .zones k, .zones => { s with sem := Function.update s.sem k (s.sem k + 1), stale := s.stale || !s.alive k }
  | _, _ => { s with wild := true }

def endBlkRequest (s : State) (r : Ref) (who : EndedBy) (result : Int) : State :=
  (s.setReq r { s.req r with union := (s.req r).union.setBlkResult result }).onRequestEnd r who .blkResult result

def endRequestInt (s : State) (r : Ref) (who : EndedBy) (result : Int) : State :=
  (s.setReq r { s.req r with union := (s.req r).union.setIntResult result }).onRequestEnd r who .intResult result

/-! ## Submission (`kernel/block_dev.c`) -/

/-- `bius_queue_rq` up to the pending list, for a request of the block layer in slot
    `p`. -/
def queueRq (s : State) (t : Tid) (p op length : Nat) (scratch : Union) : State :=
  let q : RawRequest := ⟨(s.nextSerial + 1) % 2 ^ 64, toBiusRequest op, length,
    (s.req (.slot p)).union.scratch scratch, .blk, s.nextSerial⟩
  let s := { s.setReq (.slot p) q with nextSerial := s.nextSerial + 1 }
  -- an unsupported operation is refused
  if q.type = .invalidOp then s
  else { s with busy := Function.update s.busy p true }.setCall t (.queueing (.slot p))

/-- `bius_report_zones` up to the pending list; `stack` is what its frame held. -/
def reportZones (sema : Nat → Nat → UInt8) (s : State) (t : Tid) (length : Nat) (stack : Union) : State :=
  let k := s.zonesCalls
  let q : RawRequest := ⟨(s.nextSerial + 1) % 2 ^ 64, .reportZones, length, stack.semaInit (sema k), .zones,
      s.nextSerial⟩
  { s.setReq (.zones k) q with
    nextSerial := s.nextSerial + 1
    zonesCalls := k + 1
    alive := Function.update s.alive k true
    sem := Function.update s.sem k 0 }.setCall t (.queueing (.zones k))

/-- The section under `pending_lock` that both end with. -/
def insert (s : State) (t : Tid) (r : Ref) : State :=
  let s := { s with links := s.links.addTail (.req r) .pending }
  match r with
  | .slot p => { s with accepted := s.accepted ++ [(p, (s.req r).serial)] }.setCall t .idle
  | .zones k => s.setCall t (.zonesWait k)

/-- `bius_report_zones` returns: its frame is gone, and holds anything. -/
def zonesReturn (s : State) (t : Tid) (k : Nat) (q : RawRequest) (next prev : Node) : State :=
  { s.setReq (.zones k) q with
    alive := Function.update s.alive k false
    links := ⟨Function.update s.links.next (.req (.zones k)) next, Function.update s.links.prev (.req (.zones k)) prev⟩
  }.setCall t .idle

/-! ## `bius_dev_read` and `bius_dev_write` (`kernel/char_dev.c`) -/

/-- The section under `pending_lock` and what follows it up to the command. -/
def readTake (s : State) (t : Tid) (c : Nat) (scratch : Union) : Option State :=
  match s.links.next .pending with
  | .req r =>
    let s := { s with links := s.links.del (.req r) .poison }
    let q := s.req r
    let s := if requestMayHaveData q.type && decide (0 < q.length) then
        s.setReq r { q with union := q.union.scratch scratch } else s
    some (s.setCall t (.readTaken c r))
  | _ => none

/-- The command is sent, or nothing of it. -/
def readSend (s : State) (t : Tid) (c : Nat) (r : Ref) (sent : Bool) : State :=
  if sent then { s with links := s.links.addTail (.req r) (.waiting c) }.setCall t .idle
  else (s.endBlkRequest r (.send c) blkStsIoerr).setCall t .idle

/-- `get_request_by_id` from a node on: the request, or that there is none; `none` when
    the walk takes longer than `fuel` or leaves the requests. -/
def getRequestById (s : State) (head : Node) (id : Nat) : Nat → Node → Option (Option Ref)
  | 0, _ => none
  | fuel + 1, n =>
    if n = head then some none
    else
      match n with
      | .req r => if (s.req r).id = id then some (some r) else getRequestById s head id fuel (s.links.next n)
      | _ => none

/-- `bius_dev_write` up to the end of the section under `waiting_lock`. -/
def writeStart (s : State) (t : Tid) (c id : Nat) (reply : Int) (fuel : Nat) : Option State :=
  (s.getRequestById (.waiting c) id fuel (s.links.next (.waiting c))).map (fun found =>
    match found with
    | some r => { s with links := s.links.del (.req r) .poison }.setCall t (.replied c r reply)
    | none => s)

/-- The rest of it; `fault` says whether the copy from the user's memory failed. -/
def writeEnd (s : State) (t : Tid) (c : Nat) (r : Ref) (reply : Int) (fault : Bool) (scratch : Union) : State :=
  let q := s.req r
  let s := if isBlkRequest q.type then
      let s := if requestMayHaveData q.type then s.setReq r { q with union := q.union.scratch scratch } else s
      s.endBlkRequest r (.reply c) (if fault && decide (q.type = .read) && decide (reply = blkStsOk) then
        blkStsIoerr else reply)
    else if reply ≤ 0 then s.endRequestInt r (.reply c) reply
    else
      -- the zones are copied into the buffer of the call
      let s := match r with
        | .zones k => { s with stale := s.stale || !s.alive k }
        | .slot _ => s
      s.endRequestInt r (.reply c) (if fault then -eINVAL else reply)
  s.setCall t .idle

/-! ## `bius_dev_release` and `remove_block_device` -/

/-- The body of the loop of `bius_dev_release`, or its end. -/
def relEnd (s : State) (t : Tid) (c : Nat) (n : Node) : Option State :=
  if n = .waiting c then some (s.setCall t (.relUnref c))
  else
    match n with
    | .req r => some ((s.endBlkRequest r (.release c) blkStsIoerr).setCall t (.relNext c n))
    | _ => none

/-- After the loop: the last connection removes the device. -/
def relUnref (s : State) (t : Tid) (c : Nat) : State :=
  if s.attached c then
    let s := { s with attached := Function.update s.attached c false, numConnection := s.numConnection - 1 }
    if s.numConnection = 0 then { s with removing := true }.setCall t .remUnlink else s.setCall t .idle
  else s.setCall t .idle

/-- The body of the loop of `remove_block_device`, or its end: `blk_mq_end_request` on
    the `struct request` in front of the request. -/
def remEnd (s : State) (t : Tid) (n : Node) : Option State :=
  if n = .pending then some (s.setCall t .remDel)
  else
    match n with
    | .req r =>
      let s : State :=
        { s with ended := s.ended ++ [⟨r, (s.req r).serial, .drain, .none, blkStsIoerr, (s.req r).union⟩] }
      match r with
      | .slot p => some ({ s with busy := Function.update s.busy p false }.setCall t (.remNext n))
      | .zones _ => some { s with wild := true }
    | _ => none

end State

/-! ## The machine -/

/-- Who moves, and what the environment decides. -/
inductive Act where
  | attach (c : Nat)
  | queueRq (t : Tid) (p op length : Nat) (scratch : Union)
  | reportZones (t : Tid) (length : Nat) (stack : Union)
  | insert (t : Tid)
  | zonesWake (t : Tid) (q : RawRequest) (next prev : Node)
  /-- `down_killable` is interrupted -/
  | zonesInterrupt (t : Tid) (q : RawRequest) (next prev : Node)
  | readStart (t : Tid) (c : Nat)
  | readInterrupt (t : Tid)
  | readTake (t : Tid) (scratch : Union)
  | readSend (t : Tid) (sent : Bool)
  | writeStart (t : Tid) (c id : Nat) (reply : Int) (fuel : Nat)
  | writeEnd (t : Tid) (fault : Bool) (scratch : Union)
  | release (t : Tid) (c : Nat)
  | relNext (t : Tid)
  | relEnd (t : Tid)
  | relUnref (t : Tid)
  | remUnlink (t : Tid)
  | remNext (t : Tid)
  | remEnd (t : Tid)
  /-- `del_gendisk` and what follows it -/
  | remDel (t : Tid)
  | finish (t : Tid)

/-- One step of a machine that is not `wild`. -/
def stepTame (sema : Nat → Nat → UInt8) (s : State) : Act → Option State
  | .attach c =>
    if s.opened c && !s.attached c && !s.removing then
      some { s with attached := Function.update s.attached c true, numConnection := s.numConnection + 1 }
    else none
  | .queueRq t p op length scratch =>
    if s.call t = .idle ∧ s.busy p = false ∧ s.live = true then some (s.queueRq t p op length scratch) else none
  | .reportZones t length stack =>
    if s.call t = .idle ∧ s.live = true then some (s.reportZones sema t length stack) else none
  | .insert t =>
    match s.call t with
    | .queueing r => some (s.insert t r)
    | _ => none
  | .zonesWake t q next prev =>
    match s.call t with
    | .zonesWait k =>
      if 0 < s.sem k then
        some ({ s with returned := s.returned ++ [(k, (s.req (.zones k)).union.intResult)] }.zonesReturn t k q next prev)
      else none
    | _ => none
  | .zonesInterrupt t q next prev =>
    match s.call t with
    | .zonesWait k => if s.sem k = 0 then some (s.zonesReturn t k q next prev) else none
    | _ => none
  | .readStart t c =>
    if s.call t = .idle ∧ s.opened c = true ∧ s.attached c = true then some (s.setCall t (.readWait c)) else none
  | .readInterrupt t =>
    match s.call t with
    | .readWait _ => some (s.setCall t .idle)
    | _ => none
  | .readTake t scratch =>
    match s.call t with
    | .readWait c => s.readTake t c scratch
    | _ => none
  | .readSend t sent =>
    match s.call t with
    | .readTaken c r => some (s.readSend t c r sent)
    | _ => none
  | .writeStart t c id reply fuel =>
    if s.call t = .idle ∧ s.opened c = true ∧ s.attached c = true then s.writeStart t c id reply fuel else none
  | .writeEnd t fault scratch =>
    match s.call t with
    | .replied c r reply => some (s.writeEnd t c r reply fault scratch)
    | _ => none
  | .release t c =>
    if s.call t = .idle ∧ s.opened c = true then
      some ({ s with opened := Function.update s.opened c false }.setCall t (.relNext c (.waiting c)))
    else none
  | .relNext t =>
    match s.call t with
    | .relNext c n => some (s.setCall t (.relAt c (s.links.next n)))
    | _ => none
  | .relEnd t =>
    match s.call t with
    | .relAt c n => s.relEnd t c n
    | _ => none
  | .relUnref t =>
    match s.call t with
    | .relUnref c => some (s.relUnref t c)
    | _ => none
  | .remUnlink t => if s.call t = .remUnlink then some (s.setCall t (.remNext .pending)) else none
  | .remNext t =>
    match s.call t with
    | .remNext n => some (s.setCall t (.remAt (s.links.next n)))
    | _ => none
  | .remEnd t =>
    match s.call t with
    | .remAt n => s.remEnd t n
    | _ => none
  | .remDel t => if s.call t = .remDel then some ({ s with live := false }.setCall t .removed) else none
  | .finish t => if s.call t = .removed then some (s.setCall t .idle) else none

/-- One step, if it is enabled. -/
def step (sema : Nat → Nat → UInt8) (s : State) (act : Act) : Option State :=
  if s.wild then none else stepTame sema s act

/-- When a step is enabled, and what it does. -/
inductive Stepped (sema : Nat → Nat → UInt8) (s : State) : Act → State → Prop where
  | attach (c : Nat) : s.opened c = true → s.attached c = false → s.removing = false →
      Stepped sema s (.attach c)
        { s with attached := Function.update s.attached c true, numConnection := s.numConnection + 1 }
  | queueRq (t : Tid) (p op length : Nat) (scratch : Union) : s.call t = .idle → s.busy p = false →
      Stepped sema s (.queueRq t p op length scratch) (s.queueRq t p op length scratch)
  | reportZones (t : Tid) (length : Nat) (stack : Union) : s.call t = .idle →
      Stepped sema s (.reportZones t length stack) (s.reportZones sema t length stack)
  | insert (t : Tid) (r : Ref) : s.call t = .queueing r → Stepped sema s (.insert t) (s.insert t r)
  | zonesWake (t : Tid) (k : Nat) (q : RawRequest) (next prev : Node) : s.call t = .zonesWait k → 0 < s.sem k →
      Stepped sema s (.zonesWake t q next prev)
        ({ s with returned := s.returned ++ [(k, (s.req (.zones k)).union.intResult)] }.zonesReturn t k q next prev)
  | zonesInterrupt (t : Tid) (k : Nat) (q : RawRequest) (next prev : Node) : s.call t = .zonesWait k →
      Stepped sema s (.zonesInterrupt t q next prev) (s.zonesReturn t k q next prev)
  | readStart (t : Tid) (c : Nat) : s.call t = .idle → s.opened c = true → s.attached c = true →
      Stepped sema s (.readStart t c) (s.setCall t (.readWait c))
  | readInterrupt (t : Tid) (c : Nat) : s.call t = .readWait c → Stepped sema s (.readInterrupt t) (s.setCall t .idle)
  | readTake (t : Tid) (c : Nat) (scratch : Union) {s' : State} : s.call t = .readWait c →
      s.readTake t c scratch = some s' → Stepped sema s (.readTake t scratch) s'
  | readSend (t : Tid) (c : Nat) (r : Ref) (sent : Bool) : s.call t = .readTaken c r →
      Stepped sema s (.readSend t sent) (s.readSend t c r sent)
  | writeStart (t : Tid) (c id : Nat) (reply : Int) (fuel : Nat) {s' : State} : s.call t = .idle → s.opened c = true →
      s.attached c = true → s.writeStart t c id reply fuel = some s' →
      Stepped sema s (.writeStart t c id reply fuel) s'
  | writeEnd (t : Tid) (c : Nat) (r : Ref) (reply : Int) (fault : Bool) (scratch : Union) :
      s.call t = .replied c r reply →
      Stepped sema s (.writeEnd t fault scratch) (s.writeEnd t c r reply fault scratch)
  | release (t : Tid) (c : Nat) : s.call t = .idle → s.opened c = true →
      Stepped sema s (.release t c)
        ({ s with opened := Function.update s.opened c false }.setCall t (.relNext c (.waiting c)))
  | relNext (t : Tid) (c : Nat) (n : Node) : s.call t = .relNext c n →
      Stepped sema s (.relNext t) (s.setCall t (.relAt c (s.links.next n)))
  | relOver (t : Tid) (c : Nat) : s.call t = .relAt c (.waiting c) →
      Stepped sema s (.relEnd t) (s.setCall t (.relUnref c))
  | relEnd (t : Tid) (c : Nat) (r : Ref) : s.call t = .relAt c (.req r) →
      Stepped sema s (.relEnd t) ((s.endBlkRequest r (.release c) blkStsIoerr).setCall t (.relNext c (.req r)))
  | relUnref (t : Tid) (c : Nat) : s.call t = .relUnref c → Stepped sema s (.relUnref t) (s.relUnref t c)
  | remUnlink (t : Tid) : s.call t = .remUnlink → Stepped sema s (.remUnlink t) (s.setCall t (.remNext .pending))
  | remNext (t : Tid) (n : Node) : s.call t = .remNext n →
      Stepped sema s (.remNext t) (s.setCall t (.remAt (s.links.next n)))
  | remOver (t : Tid) : s.call t = .remAt .pending → Stepped sema s (.remEnd t) (s.setCall t .remDel)
  | remEnd (t : Tid) (r : Ref) {s' : State} : s.call t = .remAt (.req r) → s.remEnd t (.req r) = some s' →
      Stepped sema s (.remEnd t) s'
  | remDel (t : Tid) : s.call t = .remDel → Stepped sema s (.remDel t) ({ s with live := false }.setCall t .removed)
  | finish (t : Tid) : s.call t = .removed → Stepped sema s (.finish t) (s.setCall t .idle)

theorem stepTame_cases {sema : Nat → Nat → UInt8} {s s' : State} {act : Act} (h : stepTame sema s act = some s') :
    Stepped sema s act s' := by
  cases act with
  | attach c =>
    simp only [stepTame] at h
    split at h
    · next hen =>
      cases h
      simp only [Bool.and_eq_true, Bool.not_eq_true'] at hen
      exact .attach c hen.1.1 hen.1.2 hen.2
    · cases h
  | queueRq t p op length scratch =>
    simp only [stepTame] at h
    split at h
    · next hen => cases h; exact .queueRq t p op length scratch hen.1 hen.2.1
    · cases h
  | reportZones t length stack =>
    simp only [stepTame] at h
    split at h
    · next hen => cases h; exact .reportZones t length stack hen.1
    · cases h
  | insert t =>
    simp only [stepTame] at h
    split at h
    · next r ht => cases h; exact .insert t r ht
    · cases h
  | zonesWake t q next prev =>
    simp only [stepTame] at h
    split at h
    · next k ht =>
      split at h
      · next hsem => cases h; exact .zonesWake t k q next prev ht hsem
      · cases h
    · cases h
  | zonesInterrupt t q next prev =>
    simp only [stepTame] at h
    split at h
    · next k ht =>
      split at h
      · cases h; exact .zonesInterrupt t k q next prev ht
      · cases h
    · cases h
  | readStart t c =>
    simp only [stepTame] at h
    split at h
    · next hen => cases h; exact .readStart t c hen.1 hen.2.1 hen.2.2
    · cases h
  | readInterrupt t =>
    simp only [stepTame] at h
    split at h
    · next c ht => cases h; exact .readInterrupt t c ht
    · cases h
  | readTake t scratch =>
    simp only [stepTame] at h
    split at h
    · next c ht => exact .readTake t c scratch ht h
    · cases h
  | readSend t sent =>
    simp only [stepTame] at h
    split at h
    · next c r ht => cases h; exact .readSend t c r sent ht
    · cases h
  | writeStart t c id reply fuel =>
    simp only [stepTame] at h
    split at h
    · next hen => exact .writeStart t c id reply fuel hen.1 hen.2.1 hen.2.2 h
    · cases h
  | writeEnd t fault scratch =>
    simp only [stepTame] at h
    split at h
    · next c r reply ht => cases h; exact .writeEnd t c r reply fault scratch ht
    · cases h
  | release t c =>
    simp only [stepTame] at h
    split at h
    · next hen => cases h; exact .release t c hen.1 hen.2
    · cases h
  | relNext t =>
    simp only [stepTame] at h
    split at h
    · next c n ht => cases h; exact .relNext t c n ht
    · cases h
  | relEnd t =>
    simp only [stepTame] at h
    split at h
    · next c n ht =>
      unfold State.relEnd at h
      split at h
      · next hn => cases h; subst hn; exact .relOver t c ht
      · split at h
        · next r _ => cases h; exact .relEnd t c r ht
        · cases h
    · cases h
  | relUnref t =>
    simp only [stepTame] at h
    split at h
    · next c ht => cases h; exact .relUnref t c ht
    · cases h
  | remUnlink t =>
    simp only [stepTame] at h
    split at h
    · next ht => cases h; exact .remUnlink t ht
    · cases h
  | remNext t =>
    simp only [stepTame] at h
    split at h
    · next n ht => cases h; exact .remNext t n ht
    · cases h
  | remEnd t =>
    simp only [stepTame] at h
    split at h
    · next n ht =>
      cases n with
      | pending => cases h; exact .remOver t ht
      | req r => exact .remEnd t r ht h
      | waiting c => cases h
      | poison => cases h
    · cases h
  | remDel t =>
    simp only [stepTame] at h
    split at h
    · next ht => cases h; exact .remDel t ht
    · cases h
  | finish t =>
    simp only [stepTame] at h
    split at h
    · next ht => cases h; exact .finish t ht
    · cases h

theorem step_cases {sema : Nat → Nat → UInt8} {s s' : State} {act : Act} (h : step sema s act = some s') :
    Stepped sema s act s' := by
  unfold step at h
  split at h
  · cases h
  · exact stepTame_cases h

/-- The connection a thread uses. -/
def Point.uses : Point → Option Nat
  | .readWait c | .readTaken c _ | .replied c _ _ => some c
  | _ => none

/-- A file is released when nobody uses it any more. -/
def Vfs (s : State) : Act → Prop
  | .release _ c => ∀ u, (s.call u).uses ≠ some c
  | _ => True

end Bius.Teardown
