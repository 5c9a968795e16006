import Bius.Lib.Registers
import Bius.RamdiskStack
import Bius.StackProgress
import Bius.ZonedStack

/- A backend that copies (default build): `examples/ramdisk.c`, whose `memcpy` other threads
   can overtake at any byte, and `examples/passthrough.c`, which calls `pread` and `pwrite`
   until a command is served or a call fails. The loops of such a backend share the disk
   without any lock, and the block layer may give them requests that overlap.

   A callback in progress is a `Transfer`, which goes from the front to the back; the
   environment decides how many bytes move next, what a call returns, and who moves. `log`
   is the history of the disk, byte by byte, under the ids of the requests; nothing reads
   it. -/
namespace Bius

open Registers (Access Legal play trace)

/-! ## The callbacks -/

/-- How a backend moves the bytes of a command. -/
inductive Mover where
  /-- `memcpy` of `examples/ramdisk.c` -/
  | memcpy
  /-- `pread`, `pwrite` and `fsync` of `examples/passthrough.c` -/
  | syscalls
  deriving DecidableEq

/-- A callback in progress. `size` is what the calls that have returned have moved
    (`read_size`, `written_size`), `moved` what the call in progress has moved; `status` is
    there once the callback returns. -/
structure Transfer where
  id : Nat
  op : BiusReq
  data : Nat
  offset : Nat
  length : Nat
  size : Nat
  moved : Nat
  status : Option Nat
  deriving DecidableEq

/-- The callback that `handle_blk_command` calls for a command whose data is in one piece. A
    discard, which the driver does not offer to the block layer, is left out. -/
def Transfer.start (mover : Mover) (k2u : K2u) : Option Transfer :=
  match k2u.opcode with
  | .read | .write =>
    some ⟨k2u.id, k2u.opcode, k2u.dataAddress + k2u.mappingData, k2u.offset, k2u.length, 0, 0, none⟩
  | .flush =>
    some ⟨k2u.id, .flush, 0, 0, 0, 0, 0, match mover with | .memcpy => some blkStsOk | .syscalls => none⟩
  | _ => none

/-- The call in progress returns. `memcpy` does so at the end; a system call returns what it
    has moved, and the loop of `passthrough_read` and `passthrough_write` goes on while that
    is not zero and bytes are left. -/
def Transfer.returns (mover : Mover) (t : Transfer) : Option Transfer :=
  match mover with
  | .memcpy => if t.moved = t.length then some { t with status := some blkStsOk } else none
  | .syscalls =>
    if t.op = .flush then some { t with status := some blkStsOk }
    else if t.moved = 0 then some { t with status := some blkStsIoerr }
    else
      let t := { t with size := t.size + t.moved, moved := 0 }
      if t.size < t.length then some t else some { t with status := some blkStsOk }

/-- The process: its memory, the disk (`in_memory_data`, or what `target_fd` stands for), the
    callbacks its loops are in, and the history of the disk. -/
structure CopyProc where
  mem : Nat → UInt8
  disk : Nat → UInt8
  call : Nat → Option Transfer
  log : List (Access Nat Nat UInt8)

/-- What a callback does next. -/
inductive CopyAct where
  /-- `n` more bytes are copied -/
  | piece (c n : Nat)
  /-- the call returns -/
  | ret (c : Nat)
  /-- it fails -/
  | fail (c : Nat)

def CopyProc.setCall (b : CopyProc) (c : Nat) (t : Option Transfer) : CopyProc :=
  { b with call := Function.update b.call c t }

/-- The next `n` bytes of a transfer. -/
def CopyProc.piece (b : CopyProc) (c : Nat) (t : Transfer) (n : Nat) : CopyProc :=
  let sofar := t.size + t.moved
  let bytes := if t.op = .read then Bytes.slice b.disk (t.offset + sofar) n else Bytes.slice b.mem (t.data + sofar) n
  { mem := if t.op = .read then Bytes.splice b.mem (t.data + sofar) bytes else b.mem
    disk := if t.op = .read then b.disk else Bytes.splice b.disk (t.offset + sofar) bytes
    call := Function.update b.call c (some { t with moved := t.moved + n })
    log := b.log ++ Registers.range t.id (t.op == .write) (t.offset + sofar) bytes }

def CopyProc.act (mover : Mover) (b : CopyProc) : CopyAct → Option CopyProc
  | .piece c n =>
    (b.call c).bind (fun t =>
      if t.status = none ∧ requestMayHaveData t.op = true ∧ 0 < n ∧
        t.size + t.moved + n ≤ t.length then some (b.piece c t n)
      else none)
  | .ret c =>
    (b.call c).bind (fun t => if t.status = none then (t.returns mover).map (fun t' => b.setCall c (some t')) else none)
  | .fail c =>
    (b.call c).bind (fun t =>
      if t.status = none ∧ mover = .syscalls then some (b.setCall c (some { t with status := some blkStsIoerr }))
      else none)

/-- The header of the reply. -/
def copyReply (k2u : K2u) (status : Nat) : U2k :=
  ⟨k2u.id, status, if k2u.opcode = .read then k2u.dataAddress + k2u.mappingData else 0⟩

/-- The callback that `handle_blk_command` calls for such a command, with its arguments. -/
def BiusOperations.callback {σ : Type} (ops : BiusOperations σ) (k2u : K2u) : Option (σ → σ × Nat) :=
  match k2u.opcode with
  | .read => ops.read.map (fun f => f (k2u.dataAddress + k2u.mappingData) k2u.offset k2u.length)
  | .write => ops.write.map (fun f => f (k2u.dataAddress + k2u.mappingData) k2u.offset k2u.length)
  | .flush => ops.flush
  | _ => none

/-- What `handle_blk_command` and the loop around it make of a callback: the header is the
    one for the status that it returns. -/
theorem makeReply_callback {σ : Type} {ops : BiusOperations σ} {P : Process σ} {fuel : Nat} {u2k : U2k} {k2u : K2u}
    {s : σ} (hlist : k2u.dataMapType ≠ .list) {f : σ → σ × Nat} (hf : ops.callback k2u = some f) :
    makeReply ops P fuel u2k k2u s = some ((f s).1, copyReply k2u (f s).2) := by
  unfold BiusOperations.callback at hf
  unfold makeReply handleBlkCommand copyReply
  rw [if_neg hlist]
  split at hf
  · next hop =>
    rw [hop]
    simp [isBlkRequest, hf, callOr]
  · next hop =>
    rw [hop]
    simp [isBlkRequest, hf, callOr]
  · next hop =>
    rw [hop]
    simp [isBlkRequest, hf, callOr]
  · cases hf

/-- The process whose loops run these callbacks. -/
def copyLibrary (mover : Mover) (buffer : Nat → Nat) : Backend CopyProc CopyAct where
  buffer := buffer
  umem b := fun a => some (b.mem a)
  store b addr bytes := { b with mem := Bytes.splice b.mem addr bytes }
  act := CopyProc.act mover
  enter c k2u b := b.setCall c (Transfer.start mover k2u)
  leave c k2u _ b :=
    (b.call c).bind (fun t => t.status.map (fun status => (b.setCall c none, copyReply k2u status)))
  free _ _ b := b

section
variable {mover : Mover} {buffer : Nat → Nat}

theorem copyLibrary_leave {c : Nat} {k2u : K2u} {u2k : U2k} {b : CopyProc} {res : CopyProc × U2k}
    (h : (copyLibrary mover buffer).leave c k2u u2k b = some res) :
    ∃ t status, b.call c = some t ∧ t.status = some status ∧ res = (b.setCall c none, copyReply k2u status) := by
  change (b.call c).bind _ = _ at h
  rw [Option.bind_eq_some_iff] at h
  obtain ⟨t, ht, h⟩ := h
  rw [Option.map_eq_some_iff] at h
  obtain ⟨status, hstatus, rfl⟩ := h
  exact ⟨t, status, ht, hstatus, rfl⟩

theorem copyLibrary_honest : (copyLibrary mover buffer).Honest ⟨false⟩ := by
  refine ⟨fun {c k2u u2k b res} h => ?_, fun {c k2u u2k b res} h hop _ => ?_, fun b c i hi => rfl⟩
  · obtain ⟨t, status, -, -, rfl⟩ := copyLibrary_leave h
    rfl
  · obtain ⟨t, status, -, -, rfl⟩ := copyLibrary_leave h
    exact if_pos hop

end

/-! ## Requests -/

/-- A request that such a backend is given. -/
structure BiusRequest.ForCopy (r : BiusRequest) : Prop where
  type : r.type = .read ∨ r.type = .write ∨ r.type = .flush
  pos : 0 ≤ r.pos
  small : r.pos < 2 ^ 63

/-- What stands in the history under the id of the request: the accesses to the first bytes
    of its range, with their values. -/
structure BiusRequest.Moved (log : List (Access Nat Nat UInt8)) (r : BiusRequest) (bytes : List UInt8) : Prop where
  trace : trace r.id log = Registers.range r.id (r.type == .write) r.pos.toNat bytes
  le : bytes.length ≤ r.length
  write : r.type = .write → bytes = (chainBytes r.rq).take bytes.length
  flush : r.type = .flush → bytes = []

/-- All bytes of the request. -/
def BiusRequest.Whole (r : BiusRequest) (bytes : List UInt8) : Prop := r.type ≠ .flush → bytes.length = r.length

/-- The callback of a request is in progress, with the copy buffer at `a`. -/
structure Transfer.Runs (mover : Mover) (b : CopyProc) (a : Nat) (r : BiusRequest) (t : Transfer) : Prop where
  id : t.id = r.id
  op : t.op = r.type
  place : r.type ≠ .flush → t.data = a ∧ t.offset = r.pos.toNat ∧ t.length = r.length
  empty : r.type = .flush → t.length = 0
  moved : ∃ bytes, r.Moved b.log bytes ∧ bytes.length = t.size + t.moved ∧
    (r.type = .read → Bytes.slice b.mem a bytes.length = bytes) ∧
    (t.status = some blkStsOk → r.Whole bytes)
  once : mover = .memcpy → t.size = 0
  status : ∀ status, t.status = some status → status = blkStsOk ∨ status = blkStsIoerr ∧ mover = .syscalls

/-- The reply to a request is in hand. -/
def U2k.Replies (mover : Mover) (b : CopyProc) (a : Nat) (r : BiusRequest) (u2k : U2k) : Prop :=
  ∃ bytes, r.Moved b.log bytes ∧ (r.type = .read → Bytes.slice b.mem a bytes.length = bytes) ∧
    (u2k.reply = blkStsOk ∧ r.Whole bytes ∨ u2k.reply = blkStsIoerr ∧ mover = .syscalls)

/-- A request that has been completed. -/
def BiusRequest.Copied (mover : Mover) (log : List (Access Nat Nat UInt8)) (r : BiusRequest) : Prop :=
  ∃ bytes, r.Moved log bytes ∧
    (r.blkResult = blkStsOk ∧ r.Whole bytes ∧ (r.type = .read → chainBytes r.rq = bytes) ∨
      r.blkResult = blkStsIoerr ∧ mover = .syscalls)

section
variable {mover : Mover} {r r' : BiusRequest}

/-! ## What a request notices -/

theorem BiusRequest.Alike.forCopy (h : r.Alike r') (hr : r.ForCopy) : r'.ForCopy :=
  ⟨by rw [h.type]; exact hr.type, by rw [h.pos]; exact hr.pos, by rw [h.pos]; exact hr.small⟩

theorem BiusRequest.ForCopy.init (old : BiusRequest) (id : Nat) {rq : Rq}
    (htype : toBiusRequest rq.op = .read ∨ toBiusRequest rq.op = .write ∨ toBiusRequest rq.op = .flush)
    (hsmall : rq.sector * sectorSize < 2 ^ 63) : (initBlkRequest old id rq).ForCopy := by
  have hpos : (initBlkRequest old id rq).pos = (rq.sector * sectorSize : Nat) := by
    show toInt64 (rq.sector * sectorSize : Nat) = _
    unfold toInt64
    omega
  exact ⟨htype, by rw [hpos]; omega, by rw [hpos]; omega⟩

theorem BiusRequest.Alike.moved (h : r.Alike r') {log : List (Access Nat Nat UInt8)} {bytes : List UInt8}
    (hm : r.Moved log bytes) : r'.Moved log bytes :=
  ⟨by rw [h.id, h.type, h.pos]; exact hm.trace, by rw [h.length]; exact hm.le, by rw [h.type, h.rq]; exact hm.write,
    by rw [h.type]; exact hm.flush⟩

theorem BiusRequest.Alike.whole (h : r.Alike r') {bytes : List UInt8} (hw : r.Whole bytes) : r'.Whole bytes := by
  unfold BiusRequest.Whole
  rw [h.type, h.length]
  exact hw

theorem BiusRequest.Alike.runs (h : r.Alike r') {b : CopyProc} {a : Nat} {t : Transfer} (hr : t.Runs mover b a r) :
    t.Runs mover b a r' := by
  obtain ⟨bytes, hm, hlen, hread, hwhole⟩ := hr.moved
  exact ⟨by rw [h.id]; exact hr.id, by rw [h.type]; exact hr.op, by rw [h.type, h.pos, h.length]; exact hr.place,
    by rw [h.type]; exact hr.empty, ⟨bytes, h.moved hm, hlen,
      by rw [h.type]; exact hread, fun hok => h.whole (hwhole hok)⟩, hr.once, hr.status⟩

theorem BiusRequest.Alike.replies (h : r.Alike r') {b : CopyProc} {a : Nat} {u2k : U2k} (hr : u2k.Replies mover b a r) :
    u2k.Replies mover b a r' := by
  obtain ⟨bytes, hm, hread, hres⟩ := hr
  refine ⟨bytes, h.moved hm, by rw [h.type]; exact hread, ?_⟩
  rcases hres with ⟨hok, hwhole⟩ | herr
  · exact Or.inl ⟨hok, h.whole hwhole⟩
  · exact Or.inr herr

/-- The same entries of the request in the history, and the same bytes in its buffer. -/
structure CopyProc.SameFor (b b' : CopyProc) (a : Nat) (r : BiusRequest) : Prop where
  trace : trace r.id b'.log = trace r.id b.log
  mem : r.type = .read → ∀ x, a ≤ x → x < a + r.length → b'.mem x = b.mem x

section
variable {b b' : CopyProc} {a : Nat}

theorem BiusRequest.Moved.congr {log log' : List (Access Nat Nat UInt8)} {bytes : List UInt8} (h : r.Moved log bytes)
    (hlog : Registers.trace r.id log' = Registers.trace r.id log) : r.Moved log' bytes :=
  ⟨hlog.trans h.trace, h.le, h.write, h.flush⟩

theorem CopyProc.SameFor.slice (h : b.SameFor b' a r) (hread : r.type = .read) {bytes : List UInt8}
    (hle : bytes.length ≤ r.length) (hbytes : Bytes.slice b.mem a bytes.length = bytes) :
    Bytes.slice b'.mem a bytes.length = bytes := by
  calc Bytes.slice b'.mem a bytes.length = Bytes.slice b.mem a bytes.length :=
        Bytes.slice_congr (fun x hx hx' => h.mem hread x hx (by omega))
    _ = bytes := hbytes

theorem CopyProc.SameFor.runs (h : b.SameFor b' a r) {t : Transfer} (hr : t.Runs mover b a r) : t.Runs mover b' a r := by
  obtain ⟨bytes, hm, hlen, hread, hwhole⟩ := hr.moved
  exact ⟨hr.id, hr.op, hr.place, hr.empty, ⟨bytes, hm.congr h.trace, hlen,
    fun ht => h.slice ht hm.le (hread ht), hwhole⟩, hr.once, hr.status⟩

theorem CopyProc.SameFor.replies (h : b.SameFor b' a r) {u2k : U2k} (hr : u2k.Replies mover b a r) :
    u2k.Replies mover b' a r := by
  obtain ⟨bytes, hm, hread, hres⟩ := hr
  exact ⟨bytes, hm.congr h.trace, fun ht => h.slice ht hm.le (hread ht), hres⟩

end

theorem U2k.Replies.copied {b : CopyProc} {a : Nat} {u2k : U2k} (h : u2k.Replies mover b a r) (hk : r.ForCopy)
    (ho : r.Offered ⟨false⟩) (ha : u2k.Answers ⟨false⟩ a r) :
    (r.finished (fun x => some (b.mem x)) u2k).Copied mover b.log := by
  obtain ⟨bytes, hm, hread, hres⟩ := h
  obtain ⟨rq, hfin, hrq⟩ := finished_keeps r (fun x => some (b.mem x)) u2k
  have happ : r.type ≠ .zoneAppend := by
    rcases hk.type with ht | ht | ht <;> rw [ht] <;> decide
  have hmem : ∀ x, (fun y => some (b.mem y) : UMem) x = some (b.mem x) := fun _ => rfl
  have hdata : r.type = .read → u2k.reply = blkStsOk → bytes.length = r.length → chainBytes rq = bytes := by
    intro ht hok hlen
    have hbytes := finished_bytes ho ht hmem ha hok
    rw [hfin] at hbytes
    rw [← hread ht, hlen]
    exact hbytes
  rw [hfin, if_neg happ]
  refine ⟨bytes, ⟨hm.trace, hm.le, fun ht => ?_, hm.flush⟩, ?_⟩
  · rw [hrq (by rw [show r.type = .write from ht]; decide)]
    exact hm.write ht
  · rcases hres with ⟨hok, hwhole⟩ | ⟨herr, hsys⟩
    · refine Or.inl ⟨?_, hwhole, fun ht => hdata ht hok (hwhole ?_)⟩
      · show blkStatus u2k.reply = blkStsOk
        rw [hok]
        rfl
      · rw [show r.type = .read from ht]
        decide
    · refine Or.inr ⟨?_, hsys⟩
      show blkStatus u2k.reply = blkStsIoerr
      rw [herr]
      rfl

/-! ## A callback goes on -/

section
variable {b : CopyProc} {a c n : Nat} {t t' : Transfer}

/-- A call of the callback returns: what it has moved stays counted. -/
theorem Transfer.Runs.returns (h : t.Runs mover b a r) (hnone : t.status = none) (hret : t.returns mover = some t') :
    t'.Runs mover b a r := by
  obtain ⟨bytes, hm, hlen, hread, -⟩ := h.moved
  have hplace : r.type ≠ .flush → bytes.length ≤ t.length := by
    intro ht
    rw [(h.place ht).2.2]
    exact hm.le
  unfold Transfer.returns at hret
  cases mover with
  | memcpy =>
    dsimp only at hret
    split at hret
    · next hall =>
      cases hret
      have hsize := h.once rfl
      refine ⟨h.id, h.op, h.place, h.empty, ⟨bytes, hm, hlen, hread, fun _ ht => ?_⟩, h.once, fun status hs => ?_⟩
      · rw [hlen, hsize, Nat.zero_add, hall, (h.place ht).2.2]
      · cases hs
        exact Or.inl rfl
    · cases hret
  | syscalls =>
    dsimp only at hret
    split at hret
    · next hflush =>
      cases hret
      refine ⟨h.id, h.op, h.place, h.empty, ⟨bytes, hm, hlen, hread, fun _ ht => absurd (h.op.symm.trans hflush) ht⟩,
        fun hc => (by cases hc), fun status hs => ?_⟩
      cases hs
      exact Or.inl rfl
    · split at hret
      · cases hret
        refine ⟨h.id, h.op, h.place, h.empty, ⟨bytes, hm, hlen, hread, fun hok => (by cases hok)⟩,
          fun hc => (by cases hc), fun status hs => ?_⟩
        cases hs
        exact Or.inr ⟨rfl, rfl⟩
      · split at hret
        · -- the loop goes on
          cases hret
          refine ⟨h.id, h.op, h.place, h.empty, ⟨bytes, hm, hlen, hread, fun hok => ?_⟩,
            fun hc => (by cases hc), fun status hs => ?_⟩
          · rw [hnone] at hok
            cases hok
          · rw [hnone] at hs
            cases hs
        · next hend =>
          cases hret
          refine ⟨h.id, h.op, h.place, h.empty, ⟨bytes, hm, hlen, hread, fun _ ht => ?_⟩,
            fun hc => (by cases hc), fun status hs => ?_⟩
          · have hle := hplace ht
            have hlength := (h.place ht).2.2
            omega
          · cases hs
            exact Or.inl rfl

theorem Transfer.Runs.fails (h : t.Runs mover b a r) (hsys : mover = .syscalls) :
    ({ t with status := some blkStsIoerr } : Transfer).Runs mover b a r := by
  obtain ⟨bytes, hm, hlen, hread, -⟩ := h.moved
  refine ⟨h.id, h.op, h.place, h.empty, ⟨bytes, hm, hlen, hread, fun hok => (by cases hok)⟩, h.once,
    fun status hs => ?_⟩
  cases hs
  exact Or.inr ⟨rfl, hsys⟩

/-- The bytes that a piece of a transfer moves. -/
def CopyProc.next (b : CopyProc) (t : Transfer) (n : Nat) : List UInt8 :=
  if t.op = .read then Bytes.slice b.disk (t.offset + (t.size + t.moved)) n
  else Bytes.slice b.mem (t.data + (t.size + t.moved)) n

theorem CopyProc.next_length (b : CopyProc) (t : Transfer) (n : Nat) : (b.next t n).length = n := by
  unfold CopyProc.next
  split <;> exact Bytes.slice_length _ _ _

theorem CopyProc.piece_log (b : CopyProc) (c n : Nat) (t : Transfer) : (b.piece c t n).log =
    b.log ++ Registers.range t.id (t.op == .write) (t.offset + (t.size + t.moved)) (b.next t n) := rfl

theorem CopyProc.piece_trace (b : CopyProc) (c n : Nat) (t : Transfer) {i : Nat} :
    trace i (b.piece c t n).log = if t.id = i then trace i b.log ++
      Registers.range t.id (t.op == .write) (t.offset + (t.size + t.moved)) (b.next t n) else trace i b.log := by
  rw [CopyProc.piece_log]
  exact Registers.trace_range i t.id b.log _ _ _

theorem CopyProc.piece_disk {disk : Nat → UInt8} (hlegal : Legal disk b.log) (hdisk : b.disk = play disk b.log)
    (hkind : t.op = .read ∨ t.op = .write) :
    Legal disk (b.piece c t n).log ∧ (b.piece c t n).disk = play disk (b.piece c t n).log := by
  rw [CopyProc.piece_log]
  have hread : (t.op == .write) = false → b.next t n = Bytes.slice b.disk (t.offset + (t.size + t.moved))
      (b.next t n).length := by
    intro hnot
    have ht : t.op = .read := hkind.resolve_right (fun hw => by rw [hw] at hnot; cases hnot)
    unfold CopyProc.next
    rw [if_pos ht, Bytes.slice_length]
  obtain ⟨hlegal', hplay⟩ := Registers.legal_range hlegal hdisk t.id (t.op == .write) _ hread
  refine ⟨hlegal', Eq.trans ?_ hplay⟩
  rcases hkind with ht | ht
  · simp [CopyProc.piece, ht]
  · simp [CopyProc.piece, CopyProc.next, ht]

theorem CopyProc.piece_same (hid : t.id ≠ r.id)
    (hapart : t.op = .read → r.type = .read → t.data + (t.size + t.moved) + n ≤ a ∨
      a + r.length ≤ t.data + (t.size + t.moved)) :
    b.SameFor (b.piece c t n) a r := by
  constructor
  · rw [CopyProc.piece_trace, if_neg hid]
  · intro hread x hx hx'
    show (if t.op = .read then Bytes.splice b.mem _ _ else b.mem) x = b.mem x
    split
    · next ht =>
      have hout := hapart ht hread
      apply Bytes.splice_outside _
      rw [Bytes.slice_length]
      omega
    · rfl

theorem Transfer.Runs.piece (h : t.Runs mover b a r) (hnone : t.status = none) (hkind : r.type = .read ∨ r.type = .write)
    (hn : t.size + t.moved + n ≤ t.length) (hlen : r.length = (chainBytes r.rq).length)
    (hload : r.type = .write → Bytes.slice b.mem a r.length = chainBytes r.rq) :
    ({ t with moved := t.moved + n } : Transfer).Runs mover (b.piece c t n) a r := by
  obtain ⟨bytes, hm, hmoved, hread, -⟩ := h.moved
  have hnot : r.type ≠ .flush := by rcases hkind with ht | ht <;> rw [ht] <;> decide
  obtain ⟨hdata, hoffset, hlength⟩ := h.place hnot
  have hnext := b.next_length t n
  have htotal : (bytes ++ b.next t n).length = t.size + (t.moved + n) := by
    rw [List.length_append, hmoved, hnext, Nat.add_assoc]
  refine ⟨h.id, h.op, h.place, h.empty, ⟨bytes ++ b.next t n,
    ⟨?_, ?_, fun ht => ?_, fun ht => absurd ht hnot⟩, htotal, fun ht => ?_,
    fun hok => ?_⟩, h.once, fun status hs => ?_⟩
  · rw [CopyProc.piece_trace, if_pos h.id, hm.trace, h.id, h.op, hoffset, ← hmoved, ← Registers.range_append]
  · omega
  · -- the next bytes of the payload
    have hsub : b.next t n = ((chainBytes r.rq).drop bytes.length).take n := by
      have hfit : bytes.length + n ≤ r.length := by omega
      unfold CopyProc.next
      rw [if_neg (by rw [h.op, ht]; decide), hdata, ← hmoved, ← hload ht]
      calc Bytes.slice b.mem (a + bytes.length) n
          = ((Bytes.slice b.mem a r.length).drop (a + bytes.length - a)).take n :=
            (Bytes.slice_inner b.mem (by omega) (by omega)).symm
        _ = ((Bytes.slice b.mem a r.length).drop bytes.length).take n := by rw [Nat.add_sub_cancel_left]
    rw [List.length_append, hnext, List.take_add, ← hsub, ← hm.write ht]
  · have hmem : (b.piece c t n).mem = Bytes.splice b.mem (a + bytes.length) (b.next t n) := by
      show (if t.op = .read then Bytes.splice b.mem (t.data + (t.size + t.moved)) (b.next t n) else b.mem) = _
      rw [if_pos (h.op.trans ht), hdata, hmoved]
    rw [hmem, List.length_append]
    calc Bytes.slice (Bytes.splice b.mem (a + bytes.length) (b.next t n)) a (bytes.length + (b.next t n).length)
        = Bytes.slice (Bytes.splice b.mem (a + bytes.length) (b.next t n)) a bytes.length ++
            Bytes.slice (Bytes.splice b.mem (a + bytes.length) (b.next t n)) (a + bytes.length) (b.next t n).length :=
          Bytes.slice_add _ _ _ _
      _ = Bytes.slice b.mem a bytes.length ++ b.next t n := by
          rw [Bytes.slice_splice, Bytes.slice_splice_disjoint _ (Or.inl (Nat.le_refl _))]
      _ = bytes ++ b.next t n := by rw [hread ht]
  · have hstatus : t.status = some blkStsOk := hok
    rw [hnone] at hstatus
    cases hstatus
  · have hstatus : t.status = some status := hs
    rw [hnone] at hstatus
    cases hstatus

theorem Transfer.start_runs (hk : r.ForCopy) (hnone : trace r.id b.log = []) :
    ∃ t, Transfer.start mover (copyInHeader a (k2uHeader false 0 r)) = some t ∧ t.Runs mover b a r := by
  have hmoved : ∀ (t : Transfer), t.size = 0 → t.moved = 0 → (t.status = some blkStsOk → r.Whole []) →
      ∃ bytes, r.Moved b.log bytes ∧ bytes.length = t.size + t.moved ∧
        (r.type = .read → Bytes.slice b.mem a bytes.length = bytes) ∧
        (t.status = some blkStsOk → r.Whole bytes) := by
    intro t hsize hmoved hwhole
    refine ⟨[], ⟨hnone, Nat.zero_le _, fun _ => rfl, fun _ => rfl⟩, ?_, fun _ => rfl, hwhole⟩
    rw [hsize, hmoved]
    rfl
  by_cases hf : r.type = .flush
  · -- nothing to move
    have hstart : Transfer.start mover (copyInHeader a (k2uHeader false 0 r)) = some ⟨r.id, .flush, 0, 0, 0, 0, 0,
        match mover with | .memcpy => some blkStsOk | .syscalls => none⟩ := by
      simp [k2uHeader, copyInHeader, hf, requestMayHaveData, Transfer.start]
    refine ⟨_, hstart, rfl, hf.symm, fun hn => absurd hf hn, fun _ => rfl,
      hmoved _ rfl rfl (fun _ hn => absurd hf hn), fun _ => rfl, fun status hs => ?_⟩
    cases mover with
    | memcpy =>
      cases hs
      exact Or.inl rfl
    | syscalls => cases hs
  · have hd : requestMayHaveData r.type = true := by
      rcases hk.type with ht | ht | ht
      · rw [ht]
        rfl
      · rw [ht]
        rfl
      · exact absurd ht hf
    have hpos : (r.pos % 2 ^ 64).toNat = r.pos.toNat := by
      have hlo := hk.pos
      have hhi := hk.small
      omega
    have hstart : Transfer.start mover (copyInHeader a (k2uHeader false 0 r)) =
        some ⟨r.id, r.type, a, r.pos.toNat, r.length, 0, 0, none⟩ := by
      rw [copyInHeader_default hd, hpos]
      rcases hk.type with ht | ht | ht
      · rw [ht]
        rfl
      · rw [ht]
        rfl
      · exact absurd ht hf
    exact ⟨_, hstart, rfl, rfl, fun _ => ⟨rfl, rfl, rfl⟩, fun hn => absurd hn hf,
      hmoved _ rfl rfl (fun hs => by cases hs), fun _ => rfl, fun status hs => (by cases hs)⟩

theorem Transfer.Runs.replies (h : t.Runs mover b a r) {status : Nat} (hstatus : t.status = some status) (k2u : K2u) :
    (copyReply k2u status).Replies mover (b.setCall c none) a r := by
  obtain ⟨bytes, hm, -, hread, hwhole⟩ := h.moved
  refine ⟨bytes, hm, hread, ?_⟩
  rcases h.status status hstatus with rfl | ⟨rfl, hsys⟩
  · exact Or.inl ⟨rfl, hwhole hstatus⟩
  · exact Or.inr ⟨rfl, hsys⟩

/-- What the callbacks do in one step: a piece is moved, or a call returns or fails. -/
theorem CopyProc.act_cases {b' : CopyProc} {act : CopyAct} (h : b.act mover act = some b') :
    (∃ c n t, b.call c = some t ∧ t.status = none ∧ requestMayHaveData t.op = true ∧
      t.size + t.moved + n ≤ t.length ∧
      b' = b.piece c t n) ∨
    ∃ c t t', b.call c = some t ∧ t.status = none ∧
      (t.returns mover = some t' ∨ mover = .syscalls ∧ t' = { t with status := some blkStsIoerr }) ∧
      b' = b.setCall c (some t') := by
  cases act with
  | piece c n =>
    simp only [CopyProc.act, Option.bind_eq_some_iff, Option.ite_none_right_eq_some, Option.some.injEq] at h
    obtain ⟨t, ht, ⟨hnone, hdata, -, hfit⟩, rfl⟩ := h
    exact Or.inl ⟨c, n, t, ht, hnone, hdata, hfit, rfl⟩
  | ret c =>
    simp only [CopyProc.act, Option.bind_eq_some_iff, Option.ite_none_right_eq_some, Option.map_eq_some_iff] at h
    obtain ⟨t, ht, hnone, t', hret, rfl⟩ := h
    exact Or.inr ⟨c, t, t', ht, hnone, Or.inl hret, rfl⟩
  | fail c =>
    simp only [CopyProc.act, Option.bind_eq_some_iff, Option.ite_none_right_eq_some, Option.some.injEq] at h
    obtain ⟨t, ht, ⟨hnone, hsys⟩, rfl⟩ := h
    exact Or.inr ⟨c, t, _, ht, hnone, Or.inr ⟨hsys, rfl⟩, rfl⟩

end

end

end Bius
