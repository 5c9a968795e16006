import Bius.Request

/- The command handlers of the library (`library/libbius.c`). A backend is a table
   of callbacks over its own state `σ`, any of which may be missing (a NULL
   pointer in `struct bius_operations`). A callback is given the address of the
   data, not the data: the memory it reads and writes is part of `σ`. Statuses are
   the 32-bit `blk_status_t` of the library. -/
namespace Bius

/-- `struct bius_operations`. `appendZone` is told whether it was given a place
    for the written position, and returns the position if it stored one. -/
structure BiusOperations (σ : Type) where
  read : Option (Nat → Nat → Nat → σ → σ × Nat) := none
  write : Option (Nat → Nat → Nat → σ → σ × Nat) := none
  discard : Option (Nat → Nat → σ → σ × Nat) := none
  flush : Option (σ → σ × Nat) := none
  reportZones : Option (Nat → Nat → σ → σ × Int × List UInt8) := none
  openZone : Option (Nat → σ → σ × Nat) := none
  closeZone : Option (Nat → σ → σ × Nat) := none
  finishZone : Option (Nat → σ → σ × Nat) := none
  appendZone : Option (Nat → Nat → Nat → Bool → σ → σ × Nat × Option Nat) := none
  resetZone : Option (Nat → σ → σ × Nat) := none
  resetAllZone : Option (σ → σ × Nat) := none

section
variable {σ : Type} (ops : BiusOperations σ)

/-- A callback that may be missing: `BLK_STS_NOTSUPP` without it. -/
def callOr (f : Option (σ → σ × Nat)) (s : σ) : σ × Nat :=
  match f with
  | some f => f s
  | none => (s, blkStsNotsupp)

/-- One iteration of `handle_blk_command_with_datamap_list`: the status, and
    whether the function returns it at once (the callback is missing or the
    opcode has no list form). -/
def listCall (opcode : BiusReq) (addr offset size : Nat) (first : Bool) (out : Nat) (s : σ) :
    σ × Nat × Nat × Bool :=
  match opcode with
  | .read =>
    match ops.read with
    | some f => ((f addr offset size s).1, (f addr offset size s).2, out, false)
    | none => (s, blkStsNotsupp, out, true)
  | .write =>
    match ops.write with
    | some f => ((f addr offset size s).1, (f addr offset size s).2, out, false)
    | none => (s, blkStsNotsupp, out, true)
  | .zoneAppend =>
    match ops.appendZone with
    | some f =>
      let res := f addr offset size first s
      (res.1, res.2.1, if first then res.2.2.getD out else out, false)
    | none => (s, blkStsNotsupp, out, true)
  | _ => (s, blkStsNotsupp, out, true)

/-- The loop of `handle_blk_command_with_datamap_list` from entry `i` on, where
    `word` reads a 64-bit word of the process's memory; `none` when it has not
    ended within `fuel` entries. -/
def datamapListLoop (word : σ → Nat → Nat) (k2u : K2u) :
    Nat → Nat → Nat → Bool → Nat → σ → Option (σ × Nat × Nat)
  | 0, _, _, _, _, _ => none
  | fuel + 1, i, offset, first, out, s =>
    let addr := word s (k2u.mappingData + 16 * i)
    if addr = 0 then some (s, blkStsOk, out)
    else
      let size := word s (k2u.mappingData + 16 * i + 8)
      let res := listCall ops k2u.opcode addr offset size first out s
      if res.2.2.2 || res.2.1 != blkStsOk then some (res.1, res.2.1, res.2.2.1)
      else datamapListLoop word k2u fuel (i + 1) (offset + size) false res.2.2.1 res.1

/-- `handle_blk_command`: the state, the status and `*out_user_data` (0 before the
    call). -/
def handleBlkCommand (word : σ → Nat → Nat) (fuel : Nat) (k2u : K2u) (s : σ) :
    Option (σ × Nat × Nat) :=
  if k2u.dataMapType = .list then datamapListLoop ops word k2u fuel 0 k2u.offset true 0 s
  else
    let addr := k2u.dataAddress + k2u.mappingData
    let plain (f : Option (σ → σ × Nat)) : Option (σ × Nat × Nat) :=
      some ((callOr f s).1, (callOr f s).2, 0)
    match k2u.opcode with
    | .read =>
      let f := ops.read.map (fun f => f addr k2u.offset k2u.length)
      some ((callOr f s).1, (callOr f s).2, addr)
    | .write => plain (ops.write.map (fun f => f addr k2u.offset k2u.length))
    | .discard => plain (ops.discard.map (fun f => f k2u.offset k2u.length))
    | .flush => plain ops.flush
    | .zoneOpen => plain (ops.openZone.map (fun f => f k2u.offset))
    | .zoneClose => plain (ops.closeZone.map (fun f => f k2u.offset))
    | .zoneFinish => plain (ops.finishZone.map (fun f => f k2u.offset))
    | .zoneAppend =>
      match ops.appendZone with
      | some f =>
        let res := f addr k2u.offset k2u.length true s
        some (res.1, res.2.1, res.2.2.getD 0)
      | none => some (s, blkStsNotsupp, 0)
    | .zoneReset => plain (ops.resetZone.map (fun f => f k2u.offset))
    | .zoneResetAll => plain ops.resetAllZone
    | _ => some (s, blkStsNotsupp, 0)

end

end Bius
