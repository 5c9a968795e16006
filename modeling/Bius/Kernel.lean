import Mathlib.Tactic.Simps.Basic
import Bius.Command
import Bius.DataMapping
import Bius.Lib.Machine

/- The kernel module as a machine: one device, any number of connections, any
   number of threads. A thread is inside at most one call of the module
   (`bius_queue_rq`, `bius_report_zones`, `bius_dev_read`, `bius_dev_write`), and
   `Call` says how far it is. One step is one lock-protected section or one
   completion, with the straight-line code around it; the label of the step
   carries what the environment decides: which request the block layer submits,
   what a user copy manages to transfer, what userspace has written.

   The block layer submits a request only while it is not in flight (`busy`), and
   the request of `bius_report_zones` lives on the stack of its caller. Both are
   named by a pointer; ids are drawn from the shared 64-bit counter.

   Three fields only record what has happened and no step reads them: `queued` and
   `taken`, the ids put into and taken from `pending_requests`, and `ended`, every
   request handed to `on_request_end` (or, by `bius_queue_rq`, straight to
   `blk_mq_end_request`) with its result. So does `mapper`, the id of the request
   for which a page-table entry was installed. -/
namespace Bius

abbrev Ptr := Nat

/-- Which build: with or without CONFIG_BIUS_DATAMAP. -/
structure Config where
  datamap : Bool
  deriving DecidableEq

/-- Threads of userspace and of the block layer. -/
inductive Tid where
  | user (n : Nat)
  | blk (n : Nat)
  deriving DecidableEq, Repr

/-- What a call returned. -/
inductive Ret where
  /-- an error, or 0 -/
  | value (v : Int)
  /-- the first `n` bytes of a command -/
  | header (k2u : K2u) (n : Nat)
  /-- data of a command -/
  | payload (bytes : List UInt8)
  /-- the status of `bius_queue_rq` -/
  | status (v : Nat)
  /-- `bius_report_zones`: the indices its callback was called with, and the
      result -/
  | zones (calls : List Nat) (result : Int)
  deriving DecidableEq

/-- How far a thread is. -/
inductive Call where
  | idle
  /-- a request is filled in and about to be added to `pending_requests` -/
  | queueing (p : Ptr)
  /-- `bius_report_zones` waits for its semaphore -/
  | zonesWait (p : Ptr)
  /-- `bius_dev_read` looks for a pending request -/
  | readWait (c : Nat)
  /-- `bius_dev_read` has taken a request and is about to send its command -/
  | readTaken (c : Nat) (p : Ptr)
  /-- `bius_dev_write` has removed a request from the waiting list -/
  | replied (c : Nat) (p : Ptr) (header : U2k) (n : Nat)
  | done (r : Ret)
  deriving DecidableEq

/-- `struct bius_connection`. `attached` says whether `block_dev` is set, `vma` is
    the start of the mapped window. -/
structure Connection where
  attached : Bool
  waiting : List Ptr
  sending : Option Ptr
  vma : Option Nat
  ptes : Nat → Frame
  mapper : Nat → Option Nat

def Connection.new : Connection := ⟨false, [], none, none, fun _ => .zero, fun _ => none⟩

structure Kernel where
  nextRequestId : Nat
  req : Ptr → BiusRequest
  busy : Ptr → Bool
  pending : List Ptr
  conn : Nat → Connection
  call : Tid → Call
  queued : List Nat
  taken : List Nat
  ended : List BiusRequest

def Kernel.init : Kernel :=
  ⟨0, fun _ => .blank, fun _ => false, [], fun _ => .new, fun _ => .idle, [], [], []⟩

namespace Kernel

@[simps] def setReq (s : Kernel) (p : Ptr) (r : BiusRequest) : Kernel :=
  { s with req := Function.update s.req p r }

@[simps] def setConn (s : Kernel) (c : Nat) (k : Connection) : Kernel :=
  { s with conn := Function.update s.conn c k }

@[simps] def setCall (s : Kernel) (t : Tid) (x : Call) : Kernel :=
  { s with call := Function.update s.call t x }

/-! ## Completion (`kernel/request.h`) -/

/-- `on_request_end`: `bius_blk_request_end` hands the request back to the block
    layer, `bius_report_zones_request_end` raises the semaphore. -/
@[simps] def onRequestEnd (s : Kernel) (p : Ptr) : Kernel :=
  { s with
    req := if isBlkRequest (s.req p).type then s.req
      else Function.update s.req p { s.req p with sem := (s.req p).sem + 1 }
    busy := if isBlkRequest (s.req p).type then Function.update s.busy p false else s.busy
    ended := s.ended ++ [s.req p] }

def endBlkRequest (s : Kernel) (p : Ptr) (result : Int) : Kernel :=
  (s.setReq p { s.req p with blkResult := blkStatus result }).onRequestEnd p

def endRequestInt (s : Kernel) (p : Ptr) (result : Int) : Kernel :=
  (s.setReq p { s.req p with intResult := some (toInt32 result) }).onRequestEnd p

/-- `get_request_by_id`. -/
def getRequestById (s : Kernel) (list : List Ptr) (id : Nat) : Option Ptr :=
  list.find? (fun p => (s.req p).id == id)

/-! ## Submission (`kernel/block_dev.c`) -/

/-- The next request id, a 64-bit counter. -/
def newId (s : Kernel) : Nat := (s.nextRequestId + 1) % 2 ^ 64

/-- A request filled in by thread `t`, about to be queued. -/
@[simps] def submit (s : Kernel) (t : Tid) (p : Ptr) (r : BiusRequest) : Kernel :=
  { s with
    nextRequestId := s.nextRequestId + 1
    req := Function.update s.req p r
    busy := Function.update s.busy p true
    call := Function.update s.call t (.queueing p) }

/-- `bius_queue_rq` up to the pending list. An unsupported operation is ended at
    once. -/
def queueRq (s : Kernel) (t : Tid) (p : Ptr) (rq : Rq) : Kernel :=
  let r := initBlkRequest (s.req p) s.newId rq
  if r.type = .invalidOp then
    { s with
      nextRequestId := s.nextRequestId + 1
      req := Function.update s.req p r
      call := Function.update s.call t (.done (.status blkStsNotsupp))
      ended := s.ended ++ [{ r with blkResult := blkStsNotsupp }] }
  else s.submit t p r

/-- `bius_report_zones` up to the pending list; `blkz` is what `kvmalloc`
    returned. -/
def reportZones (s : Kernel) (t : Tid) (p : Ptr) (sector nrZones : Nat) (blkz : Option (Nat → UInt8)) :
    Kernel :=
  let nrZones := min (nrZones % 2 ^ 32) biusMaxZones
  match blkz with
  | none => s.setCall t (.done (.value (-eNOMEM)))
  | some blkz =>
    s.submit t p (initZonesRequest (s.req p) s.newId sector nrZones
      (Bytes.slice blkz 0 (sizeofBlkZone * nrZones)))

/-- The section under `pending_lock` that both end with. `bius_queue_rq` returns,
    `bius_report_zones` waits. -/
@[simps] def insert (s : Kernel) (t : Tid) (p : Ptr) : Kernel :=
  { s with
    pending := s.pending ++ [p]
    queued := s.queued ++ [(s.req p).id]
    call := Function.update s.call t
      (if isBlkRequest (s.req p).type then .done (.status blkStsOk) else .zonesWait p) }

/-- The loop of `bius_report_zones` over `n` more zones from zone `i` on: the
    indices the callback is called with, and its result if that is not zero. -/
def zonesLoop (cb : Nat → Int) : Nat → Nat → List Nat × Option Int
  | 0, _ => ([], none)
  | n + 1, i =>
    if cb i = 0 then (i :: (zonesLoop cb n (i + 1)).1, (zonesLoop cb n (i + 1)).2) else ([i], some (cb i))

/-- `bius_report_zones` after its semaphore has been raised. `junk` is what an
    `int_result` nobody assigned holds. -/
def reportZonesEnd (r : BiusRequest) (junk : Int) (cb : Nat → Int) : Ret :=
  let result := r.intResult.getD junk
  if result < 0 then .zones [] result
  else
    let nrZones := result.toNat / sizeofBlkZone
    .zones (zonesLoop cb nrZones 0).1 ((zonesLoop cb nrZones 0).2.getD nrZones)

/-! ## `bius_dev_read` (`kernel/char_dev.c`) -/

/-- The entries that the stores of a mapping call leave in the window's page
    table. -/
def mapPtes (f : Nat → Frame) (eff : List MapEffect) : Nat → Frame :=
  eff.foldl (fun f e => match e with | .setPte i fr => Function.update f i fr | _ => f) f

/-- The same for the record of who installed them. -/
def mapMapper (id : Option Nat) (f : Nat → Option Nat) (eff : List MapEffect) : Nat → Option Nat :=
  eff.foldl (fun f e => match e with | .setPte i _ => Function.update f i id | _ => f) f

/-- The payload of the request is sent by the next reads. -/
def sendLater (s : Kernel) (c : Nat) (p : Ptr) : Kernel :=
  (s.setReq p { s.req p with mapData := (s.req p).length }).setConn c
    { s.conn c with sending := some p }

/-- `bius_map_data` on the connection. -/
def mapData (s : Kernel) (c : Nat) (p : Ptr) (vmStart : Nat) : Kernel :=
  let res := biusMapData (s.req p) vmStart (rqForEachSegment (s.req p).rq)
  (s.setReq p res.2).setConn c
    { s.conn c with
      ptes := mapPtes (s.conn c).ptes res.1
      mapper := mapMapper (some (s.req p).id) (s.conn c).mapper res.1 }

/-- What `bius_dev_read` does with a request before sending its command. Mapping
    without a window is a NULL dereference. -/
def prepare (cfg : Config) (s : Kernel) (c : Nat) (p : Ptr) : Option Kernel :=
  if requestMayHaveData (s.req p).type && decide (0 < (s.req p).length) then
    if cfg.datamap && decide (biusMapDataThreshold < (s.req p).length) then
      (s.conn c).vma.map (s.mapData c p)
    else if requestIsWrite (s.req p).type then some (s.sendLater c p)
    else some s
  else some s

/-- `bius_dev_read` up to its loop. -/
def readStart (s : Kernel) (t : Tid) (c size : Nat) (cuts : List Nat) : Option Kernel :=
  if !(s.conn c).attached then some (s.setCall t (.done (.value (- eIO))))
  else
    match (s.conn c).sending with
    | some p =>
      (biusSendData (s.req p) size cuts).map (fun res =>
        let s := s.setReq p res.1
        let s := if requestIoDone res.1 then s.setConn c { s.conn c with sending := none } else s
        match res.2 with
        | .ok bytes => s.setCall t (.done (.payload bytes))
        | .error e => s.setCall t (.done (.value e)))
    | none =>
      if size < sizeofK2u then some (s.setCall t (.done (.value (-eINVAL))))
      else some (s.setCall t (.readWait c))

/-- The section under `pending_lock` and what follows it up to the command. -/
def readTake (cfg : Config) (s : Kernel) (t : Tid) (c : Nat) : Option Kernel :=
  match s.pending with
  | [] => none
  | p :: ps =>
    prepare cfg
      { s with
        pending := ps
        taken := s.taken ++ [(s.req p).id]
        call := Function.update s.call t (.readTaken c p) } c p

/-- `bius_send_command` copies `n` bytes of the command; the request then waits
    for its reply, or is ended. -/
def readSend (cfg : Config) (s : Kernel) (t : Tid) (c : Nat) (p : Ptr) (n : Nat) : Kernel :=
  if n = 0 then
    let s := s.endBlkRequest p blkStsIoerr
    (s.setConn c { s.conn c with sending := none }).setCall t (.done (.value 0))
  else
    (s.setConn c { s.conn c with waiting := (s.conn c).waiting ++ [p] }).setCall t
      (.done (.header (k2uHeader cfg.datamap ((s.conn c).vma.getD 0) (s.req p)) (min n sizeofK2u)))

/-! ## `bius_dev_write` -/

/-- `bius_dev_write` up to the end of the section under `waiting_lock` and the
    reset of `sending`; `n` bytes of the header could be copied. -/
def writeStart (s : Kernel) (t : Tid) (c size n : Nat) (header : U2k) : Kernel :=
  if size < sizeofU2k then s.setCall t (.done (.value (-eINVAL)))
  else if n = 0 then s.setCall t (.done (.value 0))
  else
    match s.getRequestById (s.conn c).waiting header.id with
    | none => s.setCall t (.done (.value (-eINVAL)))
    | some p =>
      (s.setConn c
        { s.conn c with
          waiting := (s.conn c).waiting.erase p
          sending := if (s.conn c).sending = some p then none else (s.conn c).sending }).setCall t
        (.replied c p header (min n sizeofU2k))

/-- `copy_from_user`, which refuses more than `INT_MAX` bytes. -/
def copyFromUserSized (umem : UMem) (addr n : Nat) : List UInt8 × Nat :=
  if 2 ^ 31 ≤ n then ([], n) else copyFromUser umem addr n

/-- The reply to a block request that could be served: what it has mapped is
    unmapped (`bius_unmap_data` dereferences the window in any case), and the
    request is ended with the reply as its status. -/
def finishBlk (cfg : Config) (s : Kernel) (t : Tid) (c : Nat) (p : Ptr) (header : U2k) (n : Nat) :
    Option Kernel :=
  let finish (s : Kernel) : Kernel :=
    let s := if (s.req p).type = .zoneAppend then
        s.setReq p { s.req p with pos := toInt64 header.userData } else s
    (s.endBlkRequest p header.reply).setCall t (.done (.value n))
  if cfg.datamap then
    (s.conn c).vma.map (fun vmStart =>
      let res := biusUnmapData (s.req p) vmStart
      finish ((s.setReq p res.2).setConn c
        { s.conn c with
          ptes := mapPtes (s.conn c).ptes res.1
          mapper := mapMapper none (s.conn c).mapper res.1 }))
  else some (finish s)

/-- The rest of `bius_dev_write`. Data of a mapped read is copied in from the
    window (`bius_copy_in_misaligned_pages`), which this machine does not
    hold. -/
def writeEnd (cfg : Config) (s : Kernel) (t : Tid) (c : Nat) (p : Ptr) (header : U2k) (n : Nat)
    (umem : UMem) : Option Kernel :=
  if isBlkRequest (s.req p).type then
    if header.reply = blkStsOk ∧ (s.req p).type = .read ∧
        (cfg.datamap = true → (s.req p).length ≤ biusMapDataThreshold) then
      let res := biusReceiveData (s.req p) umem header.userData
      let s := s.setReq p res.1
      if res.2 < 0 then some ((s.endBlkRequest p blkStsIoerr).setCall t (.done (.value res.2)))
      else finishBlk cfg s t c p header n
    else finishBlk cfg s t c p header n
  else if header.reply ≤ 0 then
    some ((s.endRequestInt p header.reply).setCall t (.done (.value n)))
  else
    let res := copyFromUserSized umem header.userData header.reply.toNat
    let s := s.setReq p { s.req p with data := res.1 ++ (s.req p).data.drop res.1.length }
    if 0 < res.2 then some ((s.endRequestInt p (-eINVAL)).setCall t (.done (.value n)))
    else some ((s.endRequestInt p header.reply).setCall t (.done (.value n)))

end Kernel

/-! ## The machine -/

/-- Who moves, and what the environment decides. -/
inductive Act where
  /-- `handle_initialization` has connected `c` to the device -/
  | attach (c : Nat)
  /-- `bius_dev_mmap` -/
  | mmap (c vmStart : Nat)
  | queueRq (t : Tid) (p : Ptr) (rq : Rq)
  | reportZones (t : Tid) (p : Ptr) (sector nrZones : Nat) (blkz : Option (Nat → UInt8))
  | insert (t : Tid)
  | zonesWake (t : Tid) (junk : Int) (cb : Nat → Int)
  | readStart (t : Tid) (c size : Nat) (cuts : List Nat)
  /-- a signal -/
  | readInterrupt (t : Tid) (e : Int)
  | readTake (t : Tid)
  | readSend (t : Tid) (n : Nat)
  | writeStart (t : Tid) (c size n : Nat) (header : U2k)
  | writeEnd (t : Tid) (umem : UMem)
  /-- the call returns to its caller -/
  | ret (t : Tid)

/-- One step, if it is enabled. -/
def step (cfg : Config) (s : Kernel) : Act → Option Kernel
  | .attach c => some (s.setConn c { s.conn c with attached := true })
  | .mmap c vmStart =>
    -- a second window is refused with -EBUSY
    if cfg.datamap && (s.conn c).vma.isNone then
      some (s.setConn c { s.conn c with vma := some vmStart, ptes := fun _ => .zero, mapper := fun _ => none })
    else none
  | .queueRq t p rq => if s.call t = .idle ∧ s.busy p = false then some (s.queueRq t p rq) else none
  | .reportZones t p sector nrZones blkz =>
    if s.call t = .idle ∧ s.busy p = false then some (s.reportZones t p sector nrZones blkz) else none
  | .insert t =>
    match s.call t with
    | .queueing p => some (s.insert t p)
    | _ => none
  | .zonesWake t junk cb =>
    match s.call t with
    | .zonesWait p =>
      if 0 < (s.req p).sem then
        some { s with
          busy := Function.update s.busy p false
          call := Function.update s.call t (.done (Kernel.reportZonesEnd (s.req p) junk cb)) }
      else none
    | _ => none
  | .readStart t c size cuts => if s.call t = .idle then s.readStart t c size cuts else none
  | .readInterrupt t e =>
    match s.call t with
    | .readWait _ => if e < 0 then some (s.setCall t (.done (.value e))) else none
    | _ => none
  | .readTake t =>
    match s.call t with
    | .readWait c => s.readTake cfg t c
    | _ => none
  | .readSend t n =>
    match s.call t with
    | .readTaken c p => some (s.readSend cfg t c p n)
    | _ => none
  | .writeStart t c size n header =>
    if s.call t = .idle ∧ (s.conn c).attached = true then some (s.writeStart t c size n header) else none
  | .writeEnd t umem =>
    match s.call t with
    | .replied c p header n => s.writeEnd cfg t c p header n umem
    | _ => none
  | .ret t =>
    match s.call t with
    | .done _ => some (s.setCall t .idle)
    | _ => none

/-- When a step is enabled, and what it does. -/
inductive Stepped (cfg : Config) (s : Kernel) : Act → Kernel → Prop where
  | attach (c : Nat) : Stepped cfg s (.attach c) (s.setConn c { s.conn c with attached := true })
  | mmap (c vmStart : Nat) : cfg.datamap = true → (s.conn c).vma = none →
      Stepped cfg s (.mmap c vmStart) (s.setConn c
        { s.conn c with vma := some vmStart, ptes := fun _ => .zero, mapper := fun _ => none })
  | queueRq (t : Tid) (p : Ptr) (rq : Rq) : s.call t = .idle → s.busy p = false →
      Stepped cfg s (.queueRq t p rq) (s.queueRq t p rq)
  | reportZones (t : Tid) (p : Ptr) (sector nrZones : Nat) (blkz : Option (Nat → UInt8)) :
      s.call t = .idle → s.busy p = false →
      Stepped cfg s (.reportZones t p sector nrZones blkz) (s.reportZones t p sector nrZones blkz)
  | insert (t : Tid) (p : Ptr) : s.call t = .queueing p → Stepped cfg s (.insert t) (s.insert t p)
  | zonesWake (t : Tid) (p : Ptr) (junk : Int) (cb : Nat → Int) : s.call t = .zonesWait p →
      0 < (s.req p).sem →
      Stepped cfg s (.zonesWake t junk cb) { s with
        busy := Function.update s.busy p false
        call := Function.update s.call t (.done (Kernel.reportZonesEnd (s.req p) junk cb)) }
  | readStart (t : Tid) (c size : Nat) (cuts : List Nat) {s' : Kernel} : s.call t = .idle →
      s.readStart t c size cuts = some s' → Stepped cfg s (.readStart t c size cuts) s'
  | readInterrupt (t : Tid) (c : Nat) (e : Int) : s.call t = .readWait c →
      Stepped cfg s (.readInterrupt t e) (s.setCall t (.done (.value e)))
  | readTake (t : Tid) (c : Nat) (p : Ptr) (ps : List Ptr) {s' : Kernel} : s.call t = .readWait c →
      s.pending = p :: ps →
      Kernel.prepare cfg
        { s with
          pending := ps
          taken := s.taken ++ [(s.req p).id]
          call := Function.update s.call t (.readTaken c p) } c p = some s' →
      Stepped cfg s (.readTake t) s'
  | readSend (t : Tid) (c : Nat) (p : Ptr) (n : Nat) : s.call t = .readTaken c p →
      Stepped cfg s (.readSend t n) (s.readSend cfg t c p n)
  | writeStart (t : Tid) (c size n : Nat) (header : U2k) : s.call t = .idle →
      (s.conn c).attached = true →
      Stepped cfg s (.writeStart t c size n header) (s.writeStart t c size n header)
  | writeEnd (t : Tid) (c : Nat) (p : Ptr) (header : U2k) (n : Nat) (umem : UMem) {s' : Kernel} :
      s.call t = .replied c p header n → s.writeEnd cfg t c p header n umem = some s' →
      Stepped cfg s (.writeEnd t umem) s'
  | ret (t : Tid) (r : Ret) : s.call t = .done r → Stepped cfg s (.ret t) (s.setCall t .idle)

theorem step_cases {cfg : Config} {s s' : Kernel} {act : Act} (h : step cfg s act = some s') :
    Stepped cfg s act s' := by
  cases act with
  | attach c => cases h; exact .attach c
  | mmap c vmStart =>
    simp only [step] at h
    split at h
    · next hen =>
      cases h
      simp only [Bool.and_eq_true, Option.isNone_iff_eq_none] at hen
      exact .mmap c vmStart hen.1 hen.2
    · cases h
  | queueRq t p rq =>
    simp only [step] at h
    split at h
    · next hen => cases h; exact .queueRq t p rq hen.1 hen.2
    · cases h
  | reportZones t p sector n blkz =>
    simp only [step] at h
    split at h
    · next hen => cases h; exact .reportZones t p sector n blkz hen.1 hen.2
    · cases h
  | insert t =>
    simp only [step] at h
    split at h
    · next p ht => cases h; exact .insert t p ht
    · cases h
  | zonesWake t junk cb =>
    simp only [step] at h
    split at h
    · next p ht =>
      split at h
      · next hsem => cases h; exact .zonesWake t p junk cb ht hsem
      · cases h
    · cases h
  | readStart t c size cuts =>
    simp only [step] at h
    split at h
    · next ht => exact .readStart t c size cuts ht h
    · cases h
  | readInterrupt t e =>
    simp only [step] at h
    split at h
    · next c ht =>
      split at h
      · cases h; exact .readInterrupt t c e ht
      · cases h
    · cases h
  | readTake t =>
    simp only [step] at h
    split at h
    · next c ht =>
      unfold Kernel.readTake at h
      split at h
      · cases h
      · next p ps hp => exact .readTake t c p ps ht hp h
    · cases h
  | readSend t n =>
    simp only [step] at h
    split at h
    · next c p ht => cases h; exact .readSend t c p n ht
    · cases h
  | writeStart t c size n header =>
    simp only [step] at h
    split at h
    · next hen => cases h; exact .writeStart t c size n header hen.1 hen.2
    · cases h
  | writeEnd t umem =>
    simp only [step] at h
    split at h
    · next c p header n ht => exact .writeEnd t c p header n umem ht h
    · cases h
  | ret t =>
    simp only [step] at h
    split at h
    · next r ht => cases h; exact .ret t r ht
    · cases h

end Bius
