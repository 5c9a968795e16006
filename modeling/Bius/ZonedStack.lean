import Bius.StackOrders
import Bius.ZoneAppends
import Bius.ZoneStatuses

/- The whole stack over `examples/zoned-ramdisk.c` (default build). The loop of a connection
   hands a command to the zone emulator, whose functions its thread then runs lock section
   by lock section, in any interleaving with the other threads, until it has the status
   and the position that go into the reply.

   `Stack.Zones` follows a request: while it is handled, the call that runs is the one it
   asks for; once it is handled, the call is among those that have returned, and the reply
   in hand is its result; and the requests that have been completed and those whose replies
   are in hand are, one for one, the calls that have returned (`Stack.Ledger`). -/
namespace Bius

open Threads

/-! ## The process -/

/-- The process of the zoned ramdisk: its memory, and the zone emulator with the calls that
    its threads are in. -/
structure ZonedProc where
  mem : Nat → UInt8
  sys : RamSys

def ZonedProc.load (b : ZonedProc) (addr size : Nat) : List UInt8 := Bytes.slice b.mem addr size

/-- The function of the emulator that `handle_blk_command` calls for a command whose data is
    in one piece; `load` reads the data of a write. -/
def zoneCallOf (load : Nat → Nat → List UInt8) (k2u : K2u) : Option ZoneCall :=
  if k2u.dataMapType = .list then none
  else
    match k2u.opcode with
    | .read => some (.read k2u.offset k2u.length)
    | .write => some (.write (load (k2u.dataAddress + k2u.mappingData) k2u.length) k2u.offset)
    | .zoneOpen => some (.openZone k2u.offset)
    | .zoneClose => some (.closeZone k2u.offset)
    | .zoneFinish => some (.finishZone k2u.offset)
    | .zoneAppend => some (.append (load (k2u.dataAddress + k2u.mappingData) k2u.length) k2u.offset)
    | .zoneReset => some (.resetZone k2u.offset)
    | .zoneResetAll => some .resetAllZone
    | _ => none

/-- `*out_user_data` after the call. -/
def zoneUserData (k2u : K2u) (v : ZoneRet) : Nat :=
  match k2u.opcode with
  | .read => k2u.dataAddress + k2u.mappingData
  | .zoneAppend => v.position.getD 0
  | _ => 0

/-- A read has filled its buffer. -/
def zoneCopyOut (k2u : K2u) (v : ZoneRet) (mem : Nat → UInt8) : Nat → UInt8 :=
  if k2u.opcode = .read then Bytes.splice mem (k2u.dataAddress + k2u.mappingData) v.bytes else mem

/-- The reply to a command is what `makeReply` makes of it, where its call runs alone. -/
theorem makeReply_zoneCall (cfg : ZonedConfig) (heap fuel : Nat) (u2k : U2k) {k2u : K2u} {mem : Nat → UInt8}
    (shared : Zoned (Nat → UInt8)) {call : ZoneCall} (h : zoneCallOf (Bytes.slice mem) k2u = some call) :
    makeReply (zonedOperations cfg) (Proc.process heap) fuel u2k k2u ⟨mem, shared⟩ =
      some (⟨zoneCopyOut k2u (callAlone cfg ramdisk shared call).2 mem, (callAlone cfg ramdisk shared call).1⟩,
        ⟨k2u.id, (callAlone cfg ramdisk shared call).2.status,
          zoneUserData k2u (callAlone cfg ramdisk shared call).2⟩) := by
  unfold zoneCallOf at h
  split at h
  · cases h
  · next hlist =>
    -- one case for each function of the emulator
    split at h <;> cases h
    all_goals
      next hop =>
        simp only [makeReply, handleBlkCommand, if_neg hlist, zoneCopyOut, zoneUserData, hop]
        rfl

/-- The process whose loops run the functions of the emulator, that of connection `c` on
    thread `c`. A thread takes its steps while it is in a call (`act`); the return of the
    call and the reply are one step (`leave`). The data of a write is what the copy buffer
    holds when the call begins: nobody writes to the buffer of a loop that handles a
    command. A command for which the emulator has no function is handled by `makeReply`. -/
def zonedLibrary (cfg : ZonedConfig) (heap fuel : Nat) (buffer : Nat → Nat) : Backend ZonedProc Nat where
  buffer := buffer
  umem b := fun a => some (b.mem a)
  store b addr bytes := { b with mem := Bytes.splice b.mem addr bytes }
  act b t :=
    if (b.sys.returning t).isSome then none
    else (zoneStep cfg ramdisk b.sys (.step t)).map (fun sys => { b with sys := sys })
  enter c k2u b :=
    match zoneCallOf b.load k2u with
    | some call => { b with sys := (zoneStep cfg ramdisk b.sys (.call c call)).getD b.sys }
    | none => b
  leave c k2u u2k b :=
    match zoneCallOf b.load k2u with
    | some _ =>
      (b.sys.returning c).bind (fun v =>
        (zoneStep cfg ramdisk b.sys (.step c)).map (fun sys =>
          (⟨zoneCopyOut k2u v b.mem, sys⟩, ⟨k2u.id, v.status, zoneUserData k2u v⟩)))
    | none =>
      (makeReply (zonedOperations cfg) (Proc.process heap) fuel u2k k2u ⟨b.mem, b.sys.shared⟩).map (fun res =>
        (⟨res.1.mem, { b.sys with shared := res.1.dev }⟩, res.2))
  free _ _ b := b

section
variable {cfg : ZonedConfig} {heap fuel : Nat} {buffer : Nat → Nat}

theorem zonedLibrary_leave {c : Nat} {k2u : K2u} {u2k : U2k} {b : ZonedProc} {res : ZonedProc × U2k} {call : ZoneCall}
    (hcall : zoneCallOf b.load k2u = some call) (h : (zonedLibrary cfg heap fuel buffer).leave c k2u u2k b = some res) :
    ∃ v, b.sys.returning c = some v ∧ zoneStep cfg ramdisk b.sys (.step c) = some res.1.sys ∧
      res.1.mem = zoneCopyOut k2u v b.mem ∧ res.2 = ⟨k2u.id, v.status, zoneUserData k2u v⟩ := by
  simp only [zonedLibrary, hcall, Option.bind_eq_some_iff, Option.map_eq_some_iff] at h
  obtain ⟨v, hv, sys, hsys, rfl⟩ := h
  exact ⟨v, hv, hsys, rfl, rfl⟩

theorem zonedLibrary_honest : (zonedLibrary cfg heap fuel buffer).Honest ⟨false⟩ := by
  refine ⟨fun {c k2u u2k b res} h => ?_, fun {c k2u u2k b res} h hop hlist => ?_, fun b c i hi => rfl⟩
  · cases hcall : zoneCallOf b.load k2u with
    | some call =>
      obtain ⟨v, -, -, -, hres⟩ := zonedLibrary_leave hcall h
      rw [hres]
    | none =>
      simp only [zonedLibrary, hcall, Option.map_eq_some_iff] at h
      obtain ⟨x, hx, rfl⟩ := h
      exact makeReply_id hx
  · have hcall : zoneCallOf b.load k2u = some (.read k2u.offset k2u.length) := by
      unfold zoneCallOf
      rw [if_neg hlist, hop]
    obtain ⟨v, -, -, -, hres⟩ := zonedLibrary_leave hcall h
    rw [hres]
    simp [zoneUserData, hop]

end

/-! ## Requests for the emulator -/

/-- A request that the emulator is given: a read, a write, an append, or that a zone be
    opened or closed. -/
structure BiusRequest.ForZones (cfg : ZonedConfig) (r : BiusRequest) : Prop where
  type : r.type ∈ [.read, .write, .zoneAppend, .zoneOpen, .zoneClose]
  pos : 0 ≤ r.pos
  inside : r.pos.toNat < cfg.numZones * (cfg.zoneSectors * sectorSize)
  sectors : requestIsWrite r.type = true → 0 < r.length ∧ sectorSize ∣ r.length

/-- The function that the request asks for. -/
def BiusRequest.zoneCall (r : BiusRequest) : ZoneCall :=
  match r.type with
  | .write => .write (chainBytes r.rq) r.pos.toNat
  | .zoneAppend => .append (chainBytes r.rq) r.pos.toNat
  | .zoneOpen => .openZone r.pos.toNat
  | .zoneClose => .closeZone r.pos.toNat
  | _ => .read r.pos.toNat r.length

section
variable {cfg : ZonedConfig} {r r' : BiusRequest}

theorem BiusRequest.Alike.forZones (h : r.Alike r') (hr : r.ForZones cfg) : r'.ForZones cfg :=
  ⟨by rw [h.type]; exact hr.type, by rw [h.pos]; exact hr.pos, by rw [h.pos]; exact hr.inside,
    by rw [h.type, h.length]; exact hr.sectors⟩

theorem BiusRequest.Alike.zoneCall (h : r.Alike r') : r'.zoneCall = r.zoneCall := by
  unfold BiusRequest.zoneCall
  rw [h.type, h.pos, h.length, h.rq]

theorem BiusRequest.ForZones.cases (h : r.ForZones cfg) :
    r.type = .read ∨ r.type = .write ∨ r.type = .zoneAppend ∨ r.type = .zoneOpen ∨ r.type = .zoneClose := by
  simpa using h.type

theorem BiusRequest.ForZones.isBlk (h : r.ForZones cfg) : isBlkRequest r.type = true := by
  rcases h.cases with ht | ht | ht | ht | ht <;> rw [ht] <;> rfl

theorem BiusRequest.ForZones.allowed (h : r.ForZones cfg)
    (hlen : requestIsWrite r.type = true → r.length = (chainBytes r.rq).length) :
    r.zoneCall.Allowed cfg ∧ ∀ z, ¬ r.zoneCall.Resets cfg z := by
  have hin := h.inside
  have hsec := h.sectors
  unfold BiusRequest.zoneCall
  rcases h.cases with ht | ht | ht | ht | ht <;> rw [ht] at hlen hsec ⊢
  · exact ⟨⟨hin, fun offset he => by cases he⟩, fun z hz => hz⟩
  · rw [hlen rfl] at hsec
    exact ⟨⟨⟨hin, hsec rfl⟩, fun offset he => by cases he⟩, fun z hz => hz⟩
  · rw [hlen rfl] at hsec
    exact ⟨⟨⟨hin, hsec rfl⟩, fun offset he => by cases he⟩, fun z hz => hz⟩
  · exact ⟨⟨hin, fun offset he => by cases he⟩, fun z hz => hz⟩
  · exact ⟨⟨hin, fun offset he => by cases he⟩, fun z hz => hz⟩

/-- What `handle_blk_command` makes of the command of the request, with the payload in the
    copy buffer. -/
theorem BiusRequest.ForZones.zoneCallOf (h : r.ForZones cfg)
    (hsize : cfg.numZones * (cfg.zoneSectors * sectorSize) ≤ 2 ^ 63)
    {buffer : Nat} {load : Nat → Nat → List UInt8}
    (hload : requestIsWrite r.type = true → load buffer r.length = chainBytes r.rq) :
    zoneCallOf load (copyInHeader buffer (k2uHeader false 0 r)) = some r.zoneCall := by
  have hin := h.inside
  have hpos := h.pos
  have hoff : (r.pos % 2 ^ 64).toNat = r.pos.toNat := by omega
  have hheader : copyInHeader buffer (k2uHeader false 0 r) =
      if requestMayHaveData r.type then ⟨r.id, r.type, r.pos.toNat, r.length, buffer, 0, .simple⟩
      else ⟨r.id, r.type, r.pos.toNat, r.length, 0, 0, .unmapped⟩ := by
    rw [← hoff]
    cases hd : requestMayHaveData r.type <;> simp [copyInHeader, k2uHeader, hd]
  rw [hheader]
  unfold BiusRequest.zoneCall Bius.zoneCallOf
  rcases h.cases with ht | ht | ht | ht | ht <;> rw [ht] at hload ⊢
  · rfl
  · exact congrArg (fun data => some (ZoneCall.write data r.pos.toNat)) (hload rfl)
  · exact congrArg (fun data => some (ZoneCall.append data r.pos.toNat)) (hload rfl)
  · rfl
  · rfl

end

/-! ## The invariant -/

/-- What the copy buffer at `a` holds of the request when its loop is at `point`. -/
def Loaded (mem : Nat → UInt8) (a : Nat) (r : BiusRequest) : Point → Prop
  | .copyIn n => Bytes.slice mem a n = (chainBytes r.rq).take n
  | .handling => requestIsWrite r.type = true → Bytes.slice mem a r.length = chainBytes r.rq
  | _ => True

/-- The reply to the request is what the call `x` has returned, with what a read has brought
    in the copy buffer at `a`. -/
structure U2k.Returns (u2k : U2k) (mem : Nat → UInt8) (a : Nat) (r : BiusRequest)
    (x : Nat × ZoneCall × ZoneRet) : Prop where
  call : x.2.1 = r.zoneCall
  reply : u2k.reply = x.2.2.status
  position : r.type = .zoneAppend → u2k.userData = x.2.2.position.getD 0
  bytes : r.type = .read → Bytes.slice mem a r.length = x.2.2.bytes

/-- The request has been completed with the result of the call `x`. -/
structure ZoneAnswered (x : Nat × ZoneCall × ZoneRet) (r : BiusRequest) : Prop where
  result : r.blkResult = blkStatus x.2.2.status
  write : r.type = .write → x.2.1 = .write (chainBytes r.rq) r.pos.toNat
  append : r.type = .zoneAppend →
    ∃ offset, x.2.1 = .append (chainBytes r.rq) offset ∧ r.pos = toInt64 (x.2.2.position.getD 0)
  whole : requestIsWrite r.type = true → r.length = (chainBytes r.rq).length
  read : r.type = .read →
    x.2.1 = .read r.pos.toNat r.length ∧ (x.2.2.status = blkStsOk → chainBytes r.rq = x.2.2.bytes)
  other : requestIsWrite r.type = false → x.2.1.asWrite = none

/-- The calls that have returned, one for one: those of the completed requests, and for each
    of the connections `cs`, whose replies are in hand, its `answer`. -/
structure Stack.Ledger (buffer : Nat → Nat) (s : Stack ZonedProc)
    (completed : List ((Nat × ZoneCall × ZoneRet) × BiusRequest))
    (cs : List Nat) (answer : Nat → Nat × ZoneCall × ZoneRet) : Prop where
  ended : completed.map Prod.snd = s.kernel.ended
  answered : ∀ x ∈ completed, ZoneAnswered x.1 x.2
  nodup : cs.Nodup
  inHand : ∀ c, c ∈ cs ↔ ∃ p, s.At c p .writing
  replies : ∀ c p, s.At c p .writing → (s.loop c).u2k.Returns s.proc.mem (buffer c) (s.kernel.req p) (answer c)
  calls : s.proc.sys.done.Perm (completed.map Prod.fst ++ cs.map answer)

/-- What is known of the stack and its zones, some time after the requests `before` have
    been completed. -/
structure Stack.Zones (cfg : ZonedConfig) (buffer : Nat → Nat) (disk : Nat → UInt8)
    (before : List ((Nat × ZoneCall × ZoneRet) × BiusRequest)) (s : Stack ZonedProc) : Prop where
  kind : ∀ p, s.kernel.busy p = true → (s.kernel.req p).ForZones cfg
  emulator : Machine.Reach (zoneStep cfg ramdisk) (fun _ => NoResets cfg) (zoneInit cfg disk) s.proc.sys
  loaded : ∀ c p point, s.At c p point → Loaded s.proc.mem (buffer c) (s.kernel.req p) point
  running : ∀ c r, s.proc.sys.thread c = some r → ∃ p, s.At c p .handling ∧ r.call = (s.kernel.req p).zoneCall
  finding : Finding cfg (before.map Prod.fst) s.proc.sys
  ledger : ∃ completed cs answer, before <+: completed ∧ s.Ledger buffer completed cs answer

section
variable {r r' : BiusRequest}

theorem BiusRequest.Alike.returns (h : r.Alike r') {u2k : U2k} {mem mem' : Nat → UInt8} {a : Nat}
    {x : Nat × ZoneCall × ZoneRet} (hu : u2k.Returns mem a r x)
    (hmem : r.type = .read → Bytes.slice mem' a r.length = Bytes.slice mem a r.length) :
    u2k.Returns mem' a r' x := by
  refine ⟨by rw [h.zoneCall]; exact hu.call, hu.reply, by rw [h.type]; exact hu.position, fun ht => ?_⟩
  rw [h.type] at ht
  rw [h.length, hmem ht]
  exact hu.bytes ht

theorem BiusRequest.Alike.loaded (h : r.Alike r') {mem : Nat → UInt8} {a : Nat} {point : Point}
    (hl : Loaded mem a r point) :
    Loaded mem a r' point := by
  cases point <;> simp only [Loaded] at hl ⊢ <;> simpa only [h.type, h.length, h.rq] using hl

theorem Loaded.congr {mem mem' : Nat → UInt8} {a : Nat} {point : Point} (h : Loaded mem a r point)
    (hlen : requestIsWrite r.type = true → r.length ≤ biusMaxSizePerCommand)
    (hn : ∀ n, point = .copyIn n → requestIsWrite r.type = true ∧ n < r.length)
    (hmem : ∀ x, a ≤ x → x < a + biusMaxSizePerCommand → mem' x = mem x) : Loaded mem' a r point := by
  have hslice : ∀ n, n ≤ biusMaxSizePerCommand → Bytes.slice mem' a n = Bytes.slice mem a n :=
    fun n hle => Bytes.slice_congr (fun x hx hx' => hmem x hx (by omega))
  cases point with
  | copyIn n =>
    obtain ⟨hw, hlt⟩ := hn n rfl
    have hle := hlen hw
    simp only [Loaded] at h ⊢
    rw [hslice n (by omega)]
    exact h
  | handling =>
    intro hw
    rw [hslice _ (hlen hw)]
    exact h hw
  | _ => trivial

theorem BiusRequest.zoneAnswered {x : Nat × ZoneCall × ZoneRet} {umem : UMem} {mem : Nat → UInt8} {a : Nat} {u2k : U2k}
    (hu : u2k.Returns mem a r x) (hmem : ∀ y, umem y = some (mem y)) (ho : r.Offered ⟨false⟩)
    (ha : u2k.Answers ⟨false⟩ a r) :
    ZoneAnswered x (r.finished umem u2k) := by
  obtain ⟨rq, hfin, hrq⟩ := finished_keeps r umem u2k
  have hbytes : r.type = .read → x.2.2.status = blkStsOk → chainBytes rq = x.2.2.bytes := by
    intro ht hok
    have h := finished_bytes ho ht hmem ha (by rw [hu.reply, hok])
    rw [hfin] at h
    exact h.trans (hu.bytes ht)
  have hcall := hu.call
  unfold BiusRequest.zoneCall at hcall
  rw [hfin]
  refine ⟨by dsimp only; rw [hu.reply], fun ht => ?_, fun ht => ?_, fun ht => ?_, fun ht => ?_, fun ht => ?_⟩
  · dsimp only at ht ⊢
    rw [ht] at hcall
    rw [hcall, hrq (by rw [ht]; decide), if_neg (by rw [ht]; decide)]
  · dsimp only at ht ⊢
    rw [ht] at hcall
    refine ⟨r.pos.toNat, ?_, ?_⟩
    · rw [hcall, hrq (by rw [ht]; decide)]
    · rw [if_pos ht, hu.position ht]
  · dsimp only at ht ⊢
    rw [hrq (fun hr => by rw [hr] at ht; cases ht)]
    exact (ho.data (requestMayHaveData_of_isWrite ht)).1
  · dsimp only at ht ⊢
    rw [ht] at hcall
    rw [if_neg (by rw [ht]; decide)]
    exact ⟨hcall, hbytes ht⟩
  · dsimp only at ht
    rw [hcall]
    split <;> first | rfl | (next ht' => rw [ht'] at ht; cases ht)

end

/-! ## The ledger -/

section
variable {s s' : Stack ZonedProc} {completed : List ((Nat × ZoneCall × ZoneRet) × BiusRequest)} {cs : List Nat}
  {answer : Nat → Nat × ZoneCall × ZoneRet} {buffer : Nat → Nat}

theorem Stack.Ledger.kept (h : s.Ledger buffer completed cs answer) (hended : s'.kernel.ended = s.kernel.ended)
    (hdone : s'.proc.sys.done = s.proc.sys.done)
    (hreq : ∀ c p, s.At c p .writing → (s.kernel.req p).Alike (s'.kernel.req p))
    (hstay : ∀ c p, s.At c p .writing → s'.At c p .writing)
    (hat : ∀ c p, s'.At c p .writing → s.At c p .writing ∧ s'.loop c = s.loop c)
    (hmem : ∀ c p, s'.At c p .writing → (s.kernel.req p).type = .read →
      Bytes.slice s'.proc.mem (buffer c) (s.kernel.req p).length = Bytes.slice s.proc.mem (buffer c)
        (s.kernel.req p).length) :
    s'.Ledger buffer completed cs answer := by
  refine ⟨h.ended.trans hended.symm, h.answered, h.nodup, fun c => ?_, fun c p hp => ?_, by rw [hdone]; exact h.calls⟩
  · rw [h.inHand]
    exact ⟨fun ⟨p, hp⟩ => ⟨p, hstay c p hp⟩, fun ⟨p, hp⟩ => ⟨p, (hat c p hp).1⟩⟩
  · obtain ⟨hold, hloop⟩ := hat c p hp
    rw [hloop]
    exact (hreq c p hold).returns (h.replies c p hold) (hmem c p hp)

theorem Stack.Ledger.replied (h : s.Ledger buffer completed cs answer) {c : Nat} {p : Ptr} {x : Nat × ZoneCall × ZoneRet}
    (hk : s.Kept s') (hnot : ∀ q, ¬ s.At c q .writing) (hat : s'.At c p .writing)
    (hone : ∀ q, s'.At c q .writing → q = p) (hothers : ∀ d q, d ≠ c →
      (s.At d q .writing → s'.At d q .writing) ∧
      (s'.At d q .writing → s.At d q .writing ∧ s'.loop d = s.loop d))
    (hdone : s'.proc.sys.done = s.proc.sys.done ++ [x])
    (hu : (s'.loop c).u2k.Returns s'.proc.mem (buffer c) (s.kernel.req p) x)
    (hmem : ∀ d q, d ≠ c → s'.At d q .writing → (s.kernel.req q).type = .read →
      Bytes.slice s'.proc.mem (buffer d) (s.kernel.req q).length = Bytes.slice s.proc.mem (buffer d)
        (s.kernel.req q).length) :
    s'.Ledger buffer completed (c :: cs) (Function.update answer c x) := by
  have hc : c ∉ cs := fun hc => by
    obtain ⟨q, hq⟩ := (h.inHand c).1 hc
    exact hnot q hq
  refine ⟨h.ended.trans hk.ended.symm, h.answered, List.nodup_cons.2 ⟨hc, h.nodup⟩, fun d => ?_,
    fun d q hq => ?_, ?_⟩
  · rw [List.mem_cons]
    by_cases hd : d = c
    · rw [hd]
      exact ⟨fun _ => ⟨p, hat⟩, fun _ => Or.inl rfl⟩
    · rw [or_iff_right hd, h.inHand]
      exact ⟨fun ⟨q, hq⟩ => ⟨q, (hothers d q hd).1 hq⟩, fun ⟨q, hq⟩ => ⟨q, ((hothers d q hd).2 hq).1⟩⟩
  · by_cases hd : d = c
    · subst hd
      obtain rfl := hone q hq
      rw [Function.update_self]
      exact (hk.req q).returns hu (fun _ => rfl)
    · obtain ⟨hold, hloop⟩ := (hothers d q hd).2 hq
      rw [Function.update_of_ne hd, hloop]
      exact (hk.req q).returns (h.replies d q hold) (hmem d q hd hq)
  · have hsame : cs.map (Function.update answer c x) = cs.map answer :=
      List.map_congr_left (fun d hd => Function.update_of_ne (fun he : d = c => hc (he ▸ hd)) _ _)
    rw [hdone, List.map_cons, Function.update_self, hsame]
    calc List.Perm (s.proc.sys.done ++ [x]) (x :: s.proc.sys.done) := List.perm_append_singleton x _
      List.Perm _ (x :: (completed.map Prod.fst ++ cs.map answer)) := h.calls.cons x
      List.Perm _ (completed.map Prod.fst ++ x :: cs.map answer) := List.perm_middle.symm

theorem Stack.Ledger.served (h : s.Ledger buffer completed cs answer) {c : Nat} {p : Ptr} (hat : s.At c p .writing)
    (hended : s'.kernel.ended = s.kernel.ended ++ [s'.kernel.req p]) (hans : ZoneAnswered (answer c) (s'.kernel.req p))
    (hreq : ∀ q, q ≠ p → s'.kernel.req q = s.kernel.req q) (hproc : s'.proc = s.proc)
    (hstay : ∀ d q, d ≠ c → s.At d q .writing → s'.At d q .writing) (hnone : ∀ q, ¬ s'.At c q .writing)
    (hothers : ∀ d q, s'.At d q .writing → q ≠ p ∧ s.At d q .writing ∧ s'.loop d = s.loop d) :
    s'.Ledger buffer (completed ++ [(answer c, s'.kernel.req p)]) (cs.erase c) answer := by
  have hc : c ∈ cs := (h.inHand c).2 ⟨p, hat⟩
  refine ⟨?_, fun x hx => ?_, h.nodup.erase c, fun d => ?_, fun d q hq => ?_, ?_⟩
  · rw [List.map_append, h.ended, hended]
    rfl
  · rcases List.mem_append.1 hx with hx | hx
    · exact h.answered x hx
    · rw [List.mem_singleton.1 hx]
      exact hans
  · rw [h.nodup.mem_erase_iff, h.inHand]
    constructor
    · rintro ⟨hd, q, hq⟩
      exact ⟨q, hstay d q hd hq⟩
    · rintro ⟨q, hq⟩
      refine ⟨fun hd => ?_, q, (hothers d q hq).2.1⟩
      rw [hd] at hq
      exact hnone q hq
  · obtain ⟨hqp, hold, hloop⟩ := hothers d q hq
    rw [hreq q hqp, hloop, hproc]
    exact h.replies d q hold
  · rw [hproc, List.map_append, List.map_singleton, List.append_assoc, List.singleton_append]
    exact h.calls.trans (((List.perm_cons_erase hc).map answer).append_left _)

end

/-! ## The steps -/

section
variable {cfg : ZonedConfig} {heap fuel : Nat} {buffer : Nat → Nat} {disk : Nat → UInt8}
  {before : List ((Nat × ZoneCall × ZoneRet) × BiusRequest)} {s s' : Stack ZonedProc}

/-- Requests of the kind, in any order and number; and no read of a payload comes back
    empty. -/
def Stack.ForZones (cfg : ZonedConfig) (B : Backend ZonedProc Nat) (s : Stack ZonedProc) : StackAct Nat → Prop
  | .block (.queueRq _ _ rq) =>
    toBiusRequest rq.op ∈ [.read, .write, .zoneAppend, .zoneOpen, .zoneClose] ∧
      rq.sector * sectorSize < cfg.numZones * (cfg.zoneSectors * sectorSize) ∧
      (requestMayHaveData (toBiusRequest rq.op) = true → rq.dataLen ≤ biusMaxSizePerCommand) ∧
      (requestIsWrite (toBiusRequest rq.op) = true → 0 < rq.dataLen ∧ sectorSize ∣ rq.dataLen)
  | .block (.reportZones _ _ _ _ _) => False
  | act => s.Admits ⟨false⟩ B act

instance (cfg : ZonedConfig) (B : Backend ZonedProc Nat) (s : Stack ZonedProc) :
    (act : StackAct Nat) → Decidable (s.ForZones cfg B act)
  | .block (.queueRq _ _ rq) => inferInstanceAs (Decidable
      (toBiusRequest rq.op ∈ [.read, .write, .zoneAppend, .zoneOpen, .zoneClose] ∧
        rq.sector * sectorSize < cfg.numZones * (cfg.zoneSectors * sectorSize) ∧
        (requestMayHaveData (toBiusRequest rq.op) = true → rq.dataLen ≤ biusMaxSizePerCommand) ∧
        (requestIsWrite (toBiusRequest rq.op) = true → 0 < rq.dataLen ∧ sectorSize ∣ rq.dataLen)))
  | .block (.reportZones _ _ _ _ _) => instDecidableFalse
  | .read c cuts => inferInstanceAs (Decidable
      (∀ s' ∈ s.step ⟨false⟩ B (.read c cuts), s'.kernel.call (.user c) ≠ .done (.payload [])))
  | .block (.attach _) | .block (.mmap _ _) | .block (.insert _) | .block (.zonesWake _ _ _) | .block (.ret _)
  | .block (.readStart _ _ _ _) | .block (.readTake _) | .block (.readInterrupt _ _) | .block (.readSend _ _)
  | .block (.writeStart _ _ _ _ _) | .block (.writeEnd _ _) | .attach _ | .mmap _ _ | .take _ | .send _ | .readReturn _
  | .reply _ | .write _ | .writeEnd _ | .writeReturn _ | .process _ => instDecidableTrue

theorem Stack.ForZones.admits {B : Backend ZonedProc Nat} {act : StackAct Nat} (h : s.ForZones cfg B act) :
    s.Admits ⟨false⟩ B act := by
  cases act with
  | block act =>
    cases act with
    | queueRq t p rq => exact h.2.2.1
    | _ => trivial
  | read c cuts => exact h
  | _ => trivial

theorem Stack.ForZones.orders {B : Backend ZonedProc Nat} {act : StackAct Nat} (h : s.ForZones cfg B act) :
    act.Orders := by
  cases act with
  | block act =>
    cases act with
    | queueRq t p rq =>
      intro hinv
      have htype := h.1
      rw [hinv] at htype
      simp at htype
    | reportZones => exact h
    | _ => trivial
  | _ => trivial

theorem Stack.Zones.isBlk (h : s.Zones cfg buffer disk before) (p : Ptr) (hp : s.kernel.busy p = true) :
    isBlkRequest (s.kernel.req p).type = true := (h.kind p hp).isBlk

/-- What has arrived in the copy buffer is the beginning of the payload. -/
theorem Stack.Zones.filled (h : s.Zones cfg buffer disk before) {c : Nat} {p : Ptr} {n : Nat} {b : ZonedProc}
    (hfill : s.Filled (zonedLibrary cfg heap fuel buffer) c p n b) (hn : n ≤ biusMaxSizePerCommand) :
    Bytes.slice b.mem (buffer c) n = (chainBytes (s.kernel.req p).rq).take n ∧ b.sys = s.proc.sys ∧
      ∀ x, x < buffer c ∨ buffer c + biusMaxSizePerCommand ≤ x → b.mem x = s.proc.mem x := by
  rcases hfill with ⟨rfl, rfl⟩ | ⟨m, bytes, hat, rfl, hbytes, rfl⟩
  · exact ⟨by rw [List.take_zero]; rfl, rfl, fun _ _ => rfl⟩
  · refine ⟨Bytes.slice_splice_take (h.loaded c p _ hat) hbytes, rfl, fun x hx => Bytes.splice_outside _ ?_⟩
    show x < buffer c + m ∨ buffer c + m + bytes.length ≤ x
    omega

theorem Stack.Zones.elsewhere (h : s.Zones cfg buffer disk before)
    (ha : s.Agrees ⟨false⟩ (zonedLibrary cfg heap fuel buffer))
    (hbuf : BuffersApart buffer) {c d : Nat} (hd : d ≠ c) {q : Ptr} {point : Point} (hat : s.At d q point)
    {mem : Nat → UInt8} (hmem : ∀ x, x < buffer c ∨ buffer c + biusMaxSizePerCommand ≤ x →
      mem x = s.proc.mem x) :
    Loaded mem (buffer d) (s.kernel.req q) point := by
  have hin := ha.inHand hat
  refine (h.loaded d q point hat).congr (fun hw => (hin.offered.data (requestMayHaveData_of_isWrite hw)).2) hin.copyIn
    (fun x hx hx' => ?_)
  have hap := hbuf d c hd
  exact hmem x (by omega)

/-- What a read has brought stays in the copy buffer of its loop. -/
theorem Stack.Agrees.sameBuffer (ha : s.Agrees ⟨false⟩ (zonedLibrary cfg heap fuel buffer))
    (hbuf : BuffersApart buffer) {c d : Nat} (hd : d ≠ c) {q : Ptr} {point : Point} (hat : s.At d q point)
    {mem : Nat → UInt8} (hmem : ∀ x, x < buffer c ∨ buffer c + biusMaxSizePerCommand ≤ x → mem x = s.proc.mem x)
    (hread : (s.kernel.req q).type = .read) :
    Bytes.slice mem (buffer d) (s.kernel.req q).length = Bytes.slice s.proc.mem (buffer d) (s.kernel.req q).length := by
  have hmax := ((ha.inHand hat).offered.data (by rw [hread]; rfl)).2
  have hap := hbuf d c hd
  exact Bytes.slice_congr (fun x hx hx' => hmem x (by omega))

theorem Stack.Zones.kept (h : s.Zones cfg buffer disk before) (hk : s.Kept s')
    (hsys : s'.proc.sys = s.proc.sys)
    (hstay : ∀ c p point, s.At c p point → point = .handling ∨ point = .writing → s'.At c p point)
    (hat : ∀ c p, s'.At c p .writing → s.At c p .writing ∧ s'.loop c = s.loop c)
    (hloaded : ∀ c p point, s'.At c p point → Loaded s'.proc.mem (buffer c) (s.kernel.req p) point)
    (hmem : ∀ c p, s'.At c p .writing → (s.kernel.req p).type = .read →
      Bytes.slice s'.proc.mem (buffer c) (s.kernel.req p).length = Bytes.slice s.proc.mem (buffer c)
        (s.kernel.req p).length) :
    s'.Zones cfg buffer disk before := by
  obtain ⟨completed, cs, answer, hbefore, hledger⟩ := h.ledger
  refine ⟨fun p hp => ?_, by rw [hsys]; exact h.emulator, fun c p point hp => (hk.req p).loaded (hloaded c p point hp),
    fun c r hr => ?_, by rw [hsys]; exact h.finding, completed, cs, answer, hbefore, ?_⟩
  · rw [hk.busy] at hp
    exact (hk.req p).forZones (h.kind p hp)
  · rw [hsys] at hr
    obtain ⟨p, hp, hcall⟩ := h.running c r hr
    exact ⟨p, hstay c p _ hp (Or.inl rfl), by rw [(hk.req p).zoneCall]; exact hcall⟩
  · exact hledger.kept hk.ended (by rw [hsys]) (fun c p _ => hk.req p) (fun c p hp => hstay c p _ hp (Or.inr rfl)) hat
      hmem

theorem Stack.Zones.process (hconv : cfg.numConventionalZones = 0) (h : s.Zones cfg buffer disk before) {t : Nat}
    {b : ZonedProc} (hact : (zonedLibrary cfg heap fuel buffer).act s.proc t = some b) :
    ({ s with proc := b }).Zones cfg buffer disk before := by
  simp only [zonedLibrary] at hact
  split at hact
  · cases hact
  · next hnot =>
    rw [Option.map_eq_some_iff] at hact
    obtain ⟨sys, hstep, rfl⟩ := hact
    obtain ⟨completed, cs, answer, hbefore, hledger⟩ := h.ledger
    -- nothing returns
    have hsame : sys.done = s.proc.sys.done ∧ ∀ c r, sys.thread c = some r →
        ∃ r', s.proc.sys.thread c = some r' ∧ r.call = r'.call := by
      have hgo : ∀ (r : ZoneCallRun) (p : ZoneProg ZoneRet), s.proc.sys.thread t = some r → ∀ c q,
          Function.update s.proc.sys.thread t (some { r with prog := p }) c = some q →
          ∃ r', s.proc.sys.thread c = some r' ∧ q.call = r'.call := by
        intro r p ht c q hq
        by_cases hc : c = t
        · rw [hc, Function.update_self] at hq
          cases hq
          exact ⟨r, by rw [hc]; exact ht, rfl⟩
        · rw [Function.update_of_ne hc] at hq
          exact ⟨q, hq, rfl⟩
      cases Sys.step_cases _ _ hstep with
      | ret t r v ht hp =>
        rw [Sys.returning_eq_some.2 ⟨r, ht, hp⟩] at hnot
        exact absurd rfl hnot
      | lock t r l k ht hp ho => exact ⟨rfl, hgo r k ht⟩
      | unlock t r l k ht hp => exact ⟨rfl, hgo r k ht⟩
      | act t r e k ht hp => exact ⟨rfl, hgo r _ ht⟩
    refine ⟨h.kind, h.emulator.snoc (fun u c he => by cases he) hstep,
      fun c p point hp => h.loaded c p point (Stack.at_proc.1 hp),
      fun c r hr => ?_, h.finding.step hconv h.emulator hstep, completed, cs, answer, hbefore, ?_⟩
    · obtain ⟨r', hr', hcall⟩ := hsame.2 c r hr
      obtain ⟨p, hp, hcall'⟩ := h.running c r' hr'
      exact ⟨p, Stack.at_proc.2 hp, hcall.trans hcall'⟩
    · exact hledger.kept rfl hsame.1 (fun _ _ _ => .refl _) (fun c p hp => Stack.at_proc.2 hp)
        (fun c p hp => ⟨Stack.at_proc.1 hp, rfl⟩) (fun _ _ _ _ => rfl)

/-- A command is handed to the emulator: its thread begins the call that the request asks
    for. -/
theorem Stack.Zones.entered (hconv : cfg.numConventionalZones = 0)
    (hsize : cfg.numZones * (cfg.zoneSectors * sectorSize) ≤ 2 ^ 63) (h : s.Zones cfg buffer disk before)
    (ha : s.Agrees ⟨false⟩ (zonedLibrary cfg heap fuel buffer)) (hbuf : BuffersApart buffer) (hk : s.Kept s')
    {c : Nat} {p : Ptr} {n : Nat} {b : ZonedProc} (ho : s.Others s' c) (hp : s.kernel.busy p = true)
    (hoff : (s.kernel.req p).Offered ⟨false⟩) (hone : ∀ q point, s'.At c q point → q = p ∧
      point = .handling) (hle : n ≤ (s.kernel.req p).length)
    (hn : requestIsWrite (s.kernel.req p).type = true → n = (s.kernel.req p).length)
    (hfill : s.Filled (zonedLibrary cfg heap fuel buffer) c p n b)
    (hk2u : (s'.loop c).k2u = copyInHeader (buffer c) (k2uHeader false 0 (s.kernel.req p)))
    (hproc : s'.proc = (zonedLibrary cfg heap fuel buffer).enter c (s'.loop c).k2u b)
    (hnot : (s.loop c).point ≠ .handling) (hat : s'.At c p .handling)
    (hstay : ∀ d q point, s.At d q point → point = .handling ∨ point = .writing → s'.At d q point) :
    s'.Zones cfg buffer disk before := by
  have hkind := h.kind p hp
  -- a request without a payload has nothing in its buffer
  obtain ⟨m, hm, hmax, hfill'⟩ : ∃ m, (requestIsWrite (s.kernel.req p).type = true →
    m = (s.kernel.req p).length) ∧
      m ≤ biusMaxSizePerCommand ∧ s.Filled (zonedLibrary cfg heap fuel buffer) c p m b := by
    by_cases hw : requestIsWrite (s.kernel.req p).type = true
    · exact ⟨n, hn, Nat.le_trans hle (hoff.data (requestMayHaveData_of_isWrite hw)).2, hfill⟩
    · rcases hfill with ⟨hn0, hb⟩ | ⟨k, bytes, hatk, -, -, -⟩
      · exact ⟨0, fun hw' => absurd hw' hw, Nat.zero_le _, Or.inl ⟨rfl, hb⟩⟩
      · exact absurd ((ha.inHand hatk).copyIn k rfl).1 hw
  obtain ⟨hslice, hsys, hmem⟩ := h.filled hfill' hmax
  have hload : requestIsWrite (s.kernel.req p).type = true →
      Bytes.slice b.mem (buffer c) (s.kernel.req p).length = chainBytes (s.kernel.req p).rq := by
    intro hw
    rw [← hm hw, hslice, hm hw, (hoff.data (requestMayHaveData_of_isWrite hw)).1, List.take_length]
  -- the thread is not in a call
  have hidle : b.sys.thread c = none := by
    cases ht : b.sys.thread c with
    | none => rfl
    | some r =>
      rw [hsys] at ht
      obtain ⟨q, hq, -⟩ := h.running c r ht
      exact absurd hq.place hnot
  have hcall : zoneCallOf b.load (s'.loop c).k2u = some (s.kernel.req p).zoneCall := by
    rw [hk2u]
    exact hkind.zoneCallOf hsize hload
  obtain ⟨sys, hstep⟩ : ∃ sys, zoneStep cfg ramdisk b.sys (.call c (s.kernel.req p).zoneCall) = some sys := by
    simp only [zoneStep, Sys.step, hidle]
    exact ⟨_, rfl⟩
  have hproc' : s'.proc = { b with sys := sys } := by
    rw [hproc]
    simp only [zonedLibrary, hcall, hstep, Option.getD_some]
  obtain ⟨completed, cs, answer, hbefore, hledger⟩ := h.ledger
  have hsys' : sys.done = s.proc.sys.done ∧ sys.thread = Function.update s.proc.sys.thread c
      (some ⟨s.proc.sys.calls, (s.kernel.req p).zoneCall, (s.kernel.req p).zoneCall.code cfg s.proc.sys.calls⟩) := by
    rw [← hsys]
    cases Sys.step_cases _ _ hstep with
    | call t call ht => exact ⟨rfl, rfl⟩
  refine ⟨fun q hq => ?_, ?_, fun d q point hq => ?_, fun d r hr => ?_, ?_, completed, cs, answer, hbefore, ?_⟩
  · rw [hk.busy] at hq
    exact (hk.req q).forZones (h.kind q hq)
  · rw [hproc']
    rw [hsys] at hstep
    refine h.emulator.snoc (fun t call he => ?_) hstep
    cases he
    exact hkind.allowed (fun hw => (hoff.data (requestMayHaveData_of_isWrite hw)).1)
  · rw [hproc']
    by_cases hd : d = c
    · subst hd
      obtain ⟨rfl, rfl⟩ := hone q point hq
      exact (hk.req q).loaded hload
    · exact (hk.req q).loaded (h.elsewhere ha hbuf hd (ho d hd q point hq).1 hmem)
  · rw [hproc', hsys'.2] at hr
    by_cases hd : d = c
    · subst hd
      rw [Function.update_self] at hr
      cases hr
      exact ⟨p, hat, by rw [(hk.req p).zoneCall]⟩
    · rw [Function.update_of_ne hd] at hr
      obtain ⟨q, hq, hrun⟩ := h.running d r hr
      exact ⟨q, hstay d q _ hq (Or.inl rfl), by rw [(hk.req q).zoneCall]; exact hrun⟩
  · rw [hproc']
    rw [hsys] at hstep
    exact h.finding.step hconv h.emulator hstep
  · have hother : ∀ d q, s'.At d q .writing → d ≠ c := by
      rintro d q hq rfl
      have hpoint := (hone q _ hq).2
      cases hpoint
    refine hledger.kept hk.ended (by rw [hproc']; exact hsys'.1) (fun d q _ => hk.req q)
      (fun d q hq => hstay d q _ hq (Or.inr rfl)) (fun d q hq => ho d (hother d q hq) q _ hq) (fun d q hq hread => ?_)
    rw [hproc']
    exact ha.sameBuffer hbuf (hother d q hq) (ho d (hother d q hq) q _ hq).1 hmem hread

theorem Stack.Zones.replied (hconv : cfg.numConventionalZones = 0)
    (hsize : cfg.numZones * (cfg.zoneSectors * sectorSize) ≤ 2 ^ 63) (h : s.Zones cfg buffer disk before)
    (ha : s.Agrees ⟨false⟩ (zonedLibrary cfg heap fuel buffer)) (hbuf : BuffersApart buffer) (hk : s.Kept s')
    {c : Nat} {p : Ptr} (hold : s.At c p .handling) (ho : s.Others s' c)
    (hone : ∀ q point, s'.At c q point → q = p ∧ point = .writing)
    (hleave : (zonedLibrary cfg heap fuel buffer).leave c (s.loop c).k2u (s.loop c).u2k s.proc = some
      (s'.proc, (s'.loop c).u2k))
    (hat : s'.At c p .writing)
    (hstay : ∀ d q point, d ≠ c → s.At d q point → point = .handling ∨ point = .writing → s'.At d q point) :
    s'.Zones cfg buffer disk before := by
  have hp := ha.at_busy hold
  have hkind := h.kind p hp
  have hhand := ha.inHand hold
  have hcall : zoneCallOf s.proc.load (s.loop c).k2u = some (s.kernel.req p).zoneCall := by
    rw [hhand.k2u (by simp)]
    exact hkind.zoneCallOf hsize (h.loaded c p _ hold)
  obtain ⟨v, hv, hstep, hmem, hu2k⟩ := zonedLibrary_leave hcall hleave
  dsimp only at hstep hmem hu2k
  obtain ⟨r, hr, hret⟩ := Sys.returning_eq_some.1 hv
  obtain ⟨q, hq, hrun⟩ := h.running c r hr
  obtain rfl := ha.at_unique hq hold
  have hsys' : s'.proc.sys.done = s.proc.sys.done ++ [(r.id, r.call, v)] ∧
      s'.proc.sys.thread = Function.update s.proc.sys.thread c none := by
    have hne : ∀ {x : ZoneProg ZoneRet} {r' : ZoneCallRun}, s.proc.sys.thread c = some r' → r'.prog = x →
        x = .ret v := by
      intro x r' hr' hx
      rw [hr] at hr'
      cases hr'
      exact hx.symm.trans hret
    generalize s'.proc.sys = sys at hstep
    cases Sys.step_cases _ _ hstep with
    | ret t r' v' ht hp' =>
      have hv' := hne ht hp'
      cases hv'
      rw [hr] at ht
      cases ht
      exact ⟨rfl, rfl⟩
    | lock t r' l k ht hp' ho' => exact absurd (hne ht hp') (by simp)
    | unlock t r' l k ht hp' => exact absurd (hne ht hp') (by simp)
    | act t r' e k ht hp' => exact absurd (hne ht hp') (by simp)
  have hoff : (s.loop c).k2u.opcode = (s.kernel.req q).type := by
    rw [hhand.k2u (by simp)]
    unfold copyInHeader
    split <;> simp [k2uHeader]
  -- a read fills the copy buffer of this loop
  have hread : (s.kernel.req q).type = .read → v.bytes.length = (s.kernel.req q).length ∧
      (s.kernel.req q).length ≤ biusMaxSizePerCommand ∧ s'.proc.mem = Bytes.splice s.proc.mem (buffer c) v.bytes := by
    intro ht
    have hends := h.finding.running c r hr
    rw [hret, hrun] at hends
    obtain ⟨-, hlen, -⟩ := hends (s.kernel.req q).pos.toNat (s.kernel.req q).length
      (by unfold BiusRequest.zoneCall; rw [ht])
    have haddr : (s.loop c).k2u.dataAddress + (s.loop c).k2u.mappingData = buffer c := by
      rw [hhand.k2u (by simp)]
      simp [copyInHeader, k2uHeader, ht, requestMayHaveData]
      rfl
    refine ⟨hlen, (hhand.offered.data (by rw [ht]; rfl)).2, ?_⟩
    rw [hmem, zoneCopyOut, if_pos (hoff.trans ht), haddr]
  have houtside : ∀ x, x < buffer c ∨ buffer c + biusMaxSizePerCommand ≤ x → s'.proc.mem x = s.proc.mem x := by
    intro x hx
    by_cases ht : (s.kernel.req q).type = .read
    · obtain ⟨hlen, hmax, heq⟩ := hread ht
      rw [heq]
      exact Bytes.splice_outside _ (by omega)
    · rw [hmem, zoneCopyOut, if_neg (fun he => ht (hoff.symm.trans he))]
  have hu : (s'.loop c).u2k.Returns s'.proc.mem (buffer c) (s.kernel.req q) (r.id, r.call, v) := by
    rw [hu2k]
    refine ⟨hrun, rfl, fun ht => ?_, fun ht => ?_⟩
    · simp only [zoneUserData, hoff, ht]
    · obtain ⟨hlen, -, heq⟩ := hread ht
      rw [heq, ← hlen]
      exact Bytes.slice_splice _ _ _
  obtain ⟨completed, cs, answer, hbefore, hledger⟩ := h.ledger
  refine ⟨fun p hp => ?_, h.emulator.snoc (fun u call he => by cases he) hstep, fun d p point hd => ?_,
    fun d r' hr' => ?_, h.finding.step hconv h.emulator hstep, completed, c :: cs,
      Function.update answer c (r.id, r.call, v), hbefore, ?_⟩
  · rw [hk.busy] at hp
    exact (hk.req p).forZones (h.kind p hp)
  · by_cases hdc : d = c
    · subst hdc
      obtain ⟨-, rfl⟩ := hone p point hd
      trivial
    · exact (hk.req p).loaded (h.elsewhere ha hbuf hdc (ho d hdc p point hd).1 houtside)
  · rw [hsys'.2] at hr'
    by_cases hdc : d = c
    · rw [hdc, Function.update_self] at hr'
      cases hr'
    · rw [Function.update_of_ne hdc] at hr'
      obtain ⟨p, hp, hrun'⟩ := h.running d r' hr'
      exact ⟨p, hstay d p _ hdc hp (Or.inl rfl), by rw [(hk.req p).zoneCall]; exact hrun'⟩
  · refine hledger.replied hk (fun p hp => ?_) hat (fun p hp => (hone p _ hp).1)
      (fun d p hd => ⟨fun hp => hstay d p _ hd hp (Or.inr rfl), fun hp => ho d hd p _ hp⟩) hsys'.1 hu
      (fun d p hd hp ht => ha.sameBuffer hbuf hd (ho d hd p _ hp).1 houtside ht)
    have hplace := hp.place
    rw [hold.place] at hplace
    cases hplace

theorem Stack.Zones.submitted (hsize : cfg.numZones * (cfg.zoneSectors * sectorSize) ≤ 2 ^ 63)
    (h : s.Zones cfg buffer disk before) (ha : s.Agrees ⟨false⟩ (zonedLibrary cfg heap fuel buffer)) {t : Tid}
    {p : Ptr} {rq : Rq} (hok : s.ForZones cfg (zonedLibrary cfg heap fuel buffer) (.block (.queueRq t p rq)))
    (hfree : s.kernel.busy p = false) (hreq : s'.kernel.req = Function.update s.kernel.req p
      (initBlkRequest (s.kernel.req p) s.kernel.newId rq))
    (hbusy : s'.kernel.busy = Function.update s.kernel.busy p true) (hended : s'.kernel.ended = s.kernel.ended)
    (hproc : s'.proc = s.proc) (hat : ∀ d q point, s'.At d q point → s.At d q point ∧ s'.loop d = s.loop d)
    (hstay : ∀ d q point, s.At d q point → point = .handling ∨ point = .writing → s'.At d q point) :
    s'.Zones cfg buffer disk before := by
  obtain ⟨htype, hin, -, hsec⟩ := hok
  have hpos : (initBlkRequest (s.kernel.req p) s.kernel.newId rq).pos = (rq.sector * sectorSize : Nat) := by
    show toInt64 (rq.sector * sectorSize : Nat) = _
    unfold toInt64
    omega
  -- the requests in hand are others
  have hsame : ∀ d q point, s.At d q point → s'.kernel.req q = s.kernel.req q := by
    intro d q point hq
    have hne : q ≠ p := by
      intro he
      have hb := ha.at_busy hq
      rw [he, hfree] at hb
      cases hb
    rw [hreq, Function.update_of_ne hne]
  obtain ⟨completed, cs, answer, hbefore, hledger⟩ := h.ledger
  refine ⟨fun q hq => ?_, by rw [hproc]; exact h.emulator, fun d q point hq => ?_, fun d r hr => ?_,
    by rw [hproc]; exact h.finding, completed, cs, answer, hbefore, ?_⟩
  · rw [hbusy] at hq
    rw [hreq]
    by_cases hqp : q = p
    · rw [hqp, Function.update_self]
      refine ⟨htype, by rw [hpos]; omega, ?_, hsec⟩
      rw [hpos]
      exact hin
    · rw [Function.update_of_ne hqp] at hq ⊢
      exact h.kind q hq
  · have hold := (hat d q point hq).1
    rw [hproc, hsame d q point hold]
    exact h.loaded d q point hold
  · rw [hproc] at hr
    obtain ⟨q, hq, hcall⟩ := h.running d r hr
    exact ⟨q, hstay d q _ hq (Or.inl rfl), by rw [hsame d q _ hq]; exact hcall⟩
  · exact hledger.kept hended (by rw [hproc]) (fun d q hq => by rw [hsame d q _ hq]; exact .refl _)
      (fun d q hq => hstay d q _ hq (Or.inr rfl)) (fun d q hq => hat d q _ hq) (fun _ _ _ _ => by rw [hproc])

theorem Stack.Zones.ended (h : s.Zones cfg buffer disk before)
    (ha : s.Agrees ⟨false⟩ (zonedLibrary cfg heap fuel buffer)) {c : Nat}
    {p : Ptr} (hold : s.At c p .writing) (hproc : s'.proc = s.proc)
    (hreq : s'.kernel.req = Function.update s.kernel.req p
      ((s.kernel.req p).finished ((zonedLibrary cfg heap fuel buffer).umem s.proc) (s.loop c).u2k))
    (hbusy : s'.kernel.busy = Function.update s.kernel.busy p false)
    (hended : s'.kernel.ended = s.kernel.ended ++ [s'.kernel.req p])
    (hat : ∀ d q point, s'.At d q point → q ≠ p ∧ s.At d q point ∧ s'.loop d = s.loop d)
    (hstay : ∀ d q point, d ≠ c → s.At d q point → point = .handling ∨ point = .writing → s'.At d q point) :
    s'.Zones cfg buffer disk before := by
  have hsame : ∀ q, q ≠ p → s'.kernel.req q = s.kernel.req q := by
    intro q hq
    rw [hreq, Function.update_of_ne hq]
  obtain ⟨completed, cs, answer, hbefore, hledger⟩ := h.ledger
  have hhand := ha.inHand hold
  refine ⟨fun q hq => ?_, by rw [hproc]; exact h.emulator, fun d q point hq => ?_, fun d r hr => ?_,
    by rw [hproc]; exact h.finding, completed ++ [(answer c, s'.kernel.req p)], cs.erase c, answer,
    hbefore.trans (List.prefix_append _ _), ?_⟩
  · rw [hbusy] at hq
    by_cases hqp : q = p
    · rw [hqp, Function.update_self] at hq
      cases hq
    · rw [Function.update_of_ne hqp] at hq
      rw [hsame q hqp]
      exact h.kind q hq
  · obtain ⟨hqp, hq', -⟩ := hat d q point hq
    rw [hproc, hsame q hqp]
    exact h.loaded d q point hq'
  · rw [hproc] at hr
    obtain ⟨q, hq, hrun⟩ := h.running d r hr
    have hdc : d ≠ c := by
      intro he
      have hplace := hq.place
      rw [he, hold.place] at hplace
      cases hplace
    have hq' := hstay d q _ hdc hq (Or.inl rfl)
    exact ⟨q, hq', by rw [hsame q (hat d q _ hq').1]; exact hrun⟩
  · refine hledger.served hold hended ?_ hsame hproc (fun d q hd hq => hstay d q _ hd hq (Or.inr rfl))
      (fun q hq => ?_) (fun d q hq => hat d q _ hq)
    · rw [hreq, Function.update_self]
      exact BiusRequest.zoneAnswered (hledger.replies c p hold) (fun _ => rfl) hhand.offered (hhand.u2k rfl)
    · obtain ⟨hqp, hq', -⟩ := hat c q _ hq
      exact hqp (ha.at_unique hq' hold)

/-- **Every step keeps it.** -/
theorem Stack.Zones.step (hconv : cfg.numConventionalZones = 0)
    (hsize : cfg.numZones * (cfg.zoneSectors * sectorSize) ≤ 2 ^ 63) (hbuf : BuffersApart buffer)
    (h : s.Zones cfg buffer disk before) (ha : s.Agrees ⟨false⟩ (zonedLibrary cfg heap fuel buffer))
    {act : StackAct Nat} (hok : s.ForZones cfg (zonedLibrary cfg heap fuel buffer) act)
    (hs : s.step ⟨false⟩ (zonedLibrary cfg heap fuel buffer) act = some s') : s'.Zones cfg buffer disk before := by
  have hhonest : (zonedLibrary cfg heap fuel buffer).Honest ⟨false⟩ := zonedLibrary_honest
  have ha' := ha.step hhonest hok.admits hs
  -- a call that goes on, and a reply that is not served yet
  have hstay : act.Passes → ∀ d q point, s.At d q point → point = .handling ∨ point = .writing →
      s'.At d q point := by
    intro hpass d q point hq hpt
    obtain ⟨hreply, hend⟩ := hpass.ne d
    exact (ha.stays hq hpt hreply hend hs).1
  cases ha.turn ha' h.isBlk hok.orders hhonest.buffers hs with
  | quiet act hk hproc hat hpass =>
    refine h.kept hk (by rw [hproc]) (hstay hpass) (fun c p hp => hat c p _ hp) (fun c p point hp => ?_)
      (fun _ _ _ _ => by rw [hproc])
    rw [hproc]
    exact h.loaded c p point (hat c p point hp).1
  | submitted t p rq hfree hreq hbusy hended hproc hat =>
    exact h.submitted hsize ha hok hfree hreq hbusy hended hproc hat (hstay trivial)
  | copying act c p n hk ho hp hoff hat hwrite hn hfill hpass =>
    have hmax := (hoff.data (requestMayHaveData_of_isWrite hwrite)).2
    obtain ⟨hslice, hsys, hmem⟩ := h.filled hfill (by omega)
    have hother : ∀ d q, s'.At d q .writing → d ≠ c := by
      rintro d q hq rfl
      have hpoint := (hat q _ hq).2
      cases hpoint
    refine h.kept hk hsys (hstay hpass) (fun d q hq => ho d (hother d q hq) q _ hq) (fun d q point hq => ?_)
      (fun d q hq hread => ha.sameBuffer hbuf (hother d q hq) (ho d (hother d q hq) q _ hq).1 hmem hread)
    · by_cases hd : d = c
      · subst hd
        obtain ⟨rfl, rfl⟩ := hat q point hq
        exact hslice
      · exact h.elsewhere ha hbuf hd (ho d hd q point hq).1 hmem
  | entered act c p n b hk ho hp hoff hat hle hn hfill hk2u hproc hnot hin hpass =>
    exact h.entered hconv hsize ha hbuf hk ho hp hoff hat hle hn hfill hk2u hproc hnot hin (hstay hpass)
  | replied c p hat hk ho hat' hleave hin =>
    refine h.replied hconv hsize ha hbuf hk hat ho hat' hleave hin (fun d q point hd hq hpt => ?_)
    exact (ha.stays hq hpt (fun he => by cases he; exact hd rfl) (fun he => by cases he) hs).1
  | ended c p hat hproc hreq hbusy hended hat' =>
    refine h.ended ha hat hproc hreq hbusy hended hat' (fun d q point hd hq hpt => ?_)
    exact (ha.stays hq hpt (fun he => by cases he) (fun he => by cases he; exact hd rfl) hs).1
  | freed c hk ho hat hproc =>
    change s'.proc = s.proc at hproc
    have hquiet := ho.quiet hat
    refine h.kept hk (by rw [hproc]) (hstay trivial) (fun d q hq => hquiet d q _ hq) (fun d q point hq => ?_)
      (fun _ _ _ _ => by rw [hproc])
    rw [hproc]
    exact h.loaded d q point (hquiet d q point hq).1
  | process a =>
    simp only [Stack.step, Option.map_eq_some_iff] at hs
    obtain ⟨b, hact, rfl⟩ := hs
    exact h.process hconv hact

end

end Bius
