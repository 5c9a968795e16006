import Bius.Lib.Machine
import Bius.Libbius

/- The command loop of the library (`handle_requests`). The two headers `k2u` and `u2k`
   are variables outside the loop: they start with whatever is on the stack and keep
   what the last command has left in them. The process around them, its memory and the
   backend, is a state `σ` with a few operations (`Process`).

   A reply is made of the command and of what the handler is told while it handles it:
   the entries of a list, the results of the callbacks, the address of the buffer for
   zones (`transcript`). `replies_determined_iff`: nothing of earlier commands gets into
   a reply, unless the command is a report-zones command and the backend has no
   `report_zones`; then the reply is that of the command before. -/
namespace Bius

/-- The operations on the process that the loop uses. -/
structure Process (σ : Type) where
  /-- the 64-bit word at an address -/
  word : σ → Nat → Nat
  /-- bytes written to an address -/
  store : σ → Nat → List UInt8 → σ
  malloc : σ → Nat → σ × Nat
  free : σ → Nat → σ

/-- What `read` returns in `read_command`: an error or too few bytes, nothing at all, or
    a command, with what can be read of its payload afterwards. -/
inductive ReadCommand where
  | failed
  | eof
  | command (k2u : K2u) (payload : Option (List UInt8))

/-- The variables of `handle_requests`, and the process. -/
structure Locals (σ : Type) where
  k2u : K2u
  u2k : U2k
  proc : σ

/-! ## The loop -/

section
variable {σ : Type} (ops : BiusOperations σ) (P : Process σ) (buffer fuel : Nat)

/-- `handle_copy_in`, with the data copy buffer at `buffer`; `none` when the payload
    cannot be read, which ends the process. -/
def handleCopyIn (k2u : K2u) (payload : Option (List UInt8)) (s : σ) : Option (K2u × σ) :=
  if requestMayHaveData k2u.opcode && k2u.dataMapType == .unmapped then
    let k2u' := { k2u with dataMapType := .simple, dataAddress := buffer, mappingData := 0 }
    if requestIsWrite k2u.opcode then payload.map (fun bytes => (k2u', P.store s buffer bytes)) else some (k2u', s)
  else some (k2u, s)

/-- The branch of the loop for `BIUS_REPORT_ZONES`: the count that `report_zones` returns
    becomes a number of bytes by a 64-bit unsigned multiplication. -/
def handleReportZones (f : Nat → Nat → σ → σ × Int × List UInt8) (k2u : K2u) (s : σ) : σ × U2k :=
  let zoneInfo := P.malloc s (sizeofBlkZone * k2u.length)
  let res := f k2u.offset k2u.length zoneInfo.1
  (P.store res.1 zoneInfo.2 res.2.2, ⟨k2u.id, toInt64 (res.2.1 * sizeofBlkZone), zoneInfo.2⟩)

/-- From the copied-in command to the header that is written. `u2k` is what the variable
    holds before; `none` when the loop over a list does not end within `fuel` entries. -/
def makeReply (u2k : U2k) (k2u : K2u) (s : σ) : Option (σ × U2k) :=
  if isBlkRequest k2u.opcode then
    (handleBlkCommand ops P.word fuel k2u s).map (fun res => (res.1, ⟨k2u.id, res.2.1, res.2.2⟩))
  else
    match ops.reportZones with
    | some f => some (handleReportZones P f k2u s)
    | none => some (s, ⟨k2u.id, u2k.reply, u2k.userData⟩)

/-- The buffer of a report-zones command is freed after its header has been written. -/
def freeZoneInfo (k2u : K2u) (u2k : U2k) (s : σ) : σ :=
  if !isBlkRequest k2u.opcode && ops.reportZones.isSome then P.free s u2k.userData else s

/-- One round of the loop, with the header it writes; `none` when the process exits. A
    `read` that returns 0 leaves the last command in `k2u`. -/
def handleRequest (l : Locals σ) (read : ReadCommand) : Option (Locals σ × U2k) :=
  let command : Option (K2u × Option (List UInt8)) :=
    match read with
    | .failed => none
    | .eof => some (l.k2u, some [])
    | .command k2u payload => some (k2u, payload)
  command.bind (fun c =>
    (handleCopyIn P buffer c.1 c.2 l.proc).bind (fun copied =>
      (makeReply ops P fuel l.u2k copied.1 copied.2).map (fun res =>
        (⟨copied.1, res.2, freeZoneInfo ops P copied.1 res.2 res.1⟩, res.2))))

/-- The loop, one round a step. -/
def loopStep (l : Locals σ) (read : ReadCommand) : Option (Locals σ) :=
  (handleRequest ops P buffer fuel l read).map Prod.fst

/-- The variables that some commands lead to, from the process `s` and uninitialised
    headers. -/
def LoopReach (s : σ) (l : Locals σ) : Prop :=
  ∃ k2u u2k, Machine.Reach (loopStep ops P buffer fuel) (fun _ _ => True) ⟨k2u, u2k, s⟩ l

end

/-! ## What the handler is told -/

/-- An entry of a list, the result of a callback with the position it has stored, or the
    address and the count of reported zones. -/
inductive Answer where
  | entry (addr size : Nat)
  | result (status : Nat) (position : Option Nat)
  | zones (addr : Nat) (count : Int)
  deriving DecidableEq

section
variable {σ : Type} (ops : BiusOperations σ) (P : Process σ)

/-- The callback that one entry of a list is given to, and its result; `none` where there
    is no callback. -/
def entryResult (opcode : BiusReq) (addr offset size : Nat) (first : Bool) (s : σ) : Option (Nat × Option Nat) :=
  match opcode with
  | .read => ops.read.map (fun f => ((f addr offset size s).2, none))
  | .write => ops.write.map (fun f => ((f addr offset size s).2, none))
  | .zoneAppend => ops.appendZone.map (fun f => (f addr offset size first s).2)
  | _ => none

/-- What the loop over a list is told, from entry `i` on. -/
def listTranscript (k2u : K2u) : Nat → Nat → Nat → Bool → σ → List Answer
  | 0, _, _, _, _ => []
  | fuel + 1, i, offset, first, s =>
    let addr := P.word s (k2u.mappingData + 16 * i)
    let size := P.word s (k2u.mappingData + 16 * i + 8)
    .entry addr size ::
      (if addr = 0 then []
      else
        match entryResult ops k2u.opcode addr offset size first s with
        | none => []
        | some (status, position) =>
          .result status position ::
            (if status != blkStsOk then []
            else listTranscript k2u fuel (i + 1) (offset + size) false
              (listCall ops k2u.opcode addr offset size first 0 s).1))

/-- The callback of a command that is not a list, and its result. -/
def blkResult (k2u : K2u) (s : σ) : Option (Nat × Option Nat) :=
  let addr := k2u.dataAddress + k2u.mappingData
  let plain (f : Option (σ → σ × Nat)) : Option (Nat × Option Nat) := f.map (fun f => ((f s).2, none))
  match k2u.opcode with
  | .read => plain (ops.read.map (fun f => f addr k2u.offset k2u.length))
  | .write => plain (ops.write.map (fun f => f addr k2u.offset k2u.length))
  | .discard => plain (ops.discard.map (fun f => f k2u.offset k2u.length))
  | .flush => plain ops.flush
  | .zoneOpen => plain (ops.openZone.map (fun f => f k2u.offset))
  | .zoneClose => plain (ops.closeZone.map (fun f => f k2u.offset))
  | .zoneFinish => plain (ops.finishZone.map (fun f => f k2u.offset))
  | .zoneAppend => ops.appendZone.map (fun f => (f addr k2u.offset k2u.length true s).2)
  | .zoneReset => plain (ops.resetZone.map (fun f => f k2u.offset))
  | .zoneResetAll => plain ops.resetAllZone
  | _ => none

/-- What the handler is told while it handles a command. -/
def transcript (fuel : Nat) (k2u : K2u) (s : σ) : List Answer :=
  if isBlkRequest k2u.opcode then
    if k2u.dataMapType = .list then listTranscript ops P k2u fuel 0 k2u.offset true s
    else (blkResult ops k2u s).toList.map (fun r => .result r.1 r.2)
  else
    match ops.reportZones with
    | some f =>
      let zoneInfo := P.malloc s (sizeofBlkZone * k2u.length)
      [.zones zoneInfo.2 (f k2u.offset k2u.length zoneInfo.1).2.1]
    | none => []

end

/-! ## The transcript decides the reply -/

section
variable {σ : Type} {ops : BiusOperations σ} {P : Process σ}

/-- One iteration over a list, in terms of the callback's result. -/
theorem listCall_snd (opcode : BiusReq) (addr offset size : Nat) (first : Bool) (out : Nat) (s : σ) :
    (listCall ops opcode addr offset size first out s).2 =
      match entryResult ops opcode addr offset size first s with
      | none => (blkStsNotsupp, out, true)
      | some (status, position) => (status, if first then position.getD out else out, false) := by
  unfold listCall entryResult
  cases opcode with
  | read => cases ops.read <;> cases first <;> rfl
  | write => cases ops.write <;> cases first <;> rfl
  | zoneAppend => cases ops.appendZone <;> rfl
  | _ => rfl

/-- The state after an iteration does not depend on `*out_user_data`. -/
theorem listCall_fst (opcode : BiusReq) (addr offset size : Nat) (first : Bool) (out out' : Nat) (s : σ) :
    (listCall ops opcode addr offset size first out s).1 = (listCall ops opcode addr offset size first out' s).1 := by
  unfold listCall
  cases opcode with
  | read => cases ops.read <;> rfl
  | write => cases ops.write <;> rfl
  | zoneAppend => cases ops.appendZone <;> rfl
  | _ => rfl

theorem datamapListLoop_transcript {k2u : K2u} {fuel i offset : Nat} {first : Bool} {s t : σ}
    (h : listTranscript ops P k2u fuel i offset first s = listTranscript ops P k2u fuel i offset first t) (out : Nat) :
    (datamapListLoop ops P.word k2u fuel i offset first out s).map Prod.snd =
      (datamapListLoop ops P.word k2u fuel i offset first out t).map Prod.snd := by
  induction fuel generalizing i offset first out s t with
  | zero => rfl
  | succ fuel ih =>
    simp only [listTranscript, List.cons.injEq, Answer.entry.injEq] at h
    obtain ⟨⟨haddr, hsize⟩, hrest⟩ := h
    simp only [datamapListLoop, haddr, hsize] at hrest ⊢
    by_cases hzero : P.word t (k2u.mappingData + 16 * i) = 0
    · rw [if_pos hzero, if_pos hzero]
      rfl
    · rw [if_neg hzero, if_neg hzero] at hrest ⊢
      rw [listCall_snd _ _ _ _ _ _ s, listCall_snd _ _ _ _ _ _ t]
      -- the callback is missing in both runs, or answers the same in both
      generalize hs : entryResult ops k2u.opcode _ offset _ first s = rs at hrest ⊢
      generalize ht : entryResult ops k2u.opcode _ offset _ first t = rt at hrest ⊢
      cases rs with
      | none =>
        cases rt with
        | none => rfl
        | some r => exact absurd hrest (by simp)
      | some r =>
        obtain ⟨status, position⟩ := r
        cases rt with
        | none => exact absurd hrest (by simp)
        | some r' =>
          obtain ⟨status', position'⟩ := r'
          simp only [List.cons.injEq, Answer.result.injEq] at hrest
          obtain ⟨⟨rfl, rfl⟩, hrest⟩ := hrest
          by_cases hok : (status != blkStsOk) = true
          · simp only [hok, Bool.or_true, if_true]
            rfl
          · rw [if_neg hok, if_neg hok] at hrest
            simp only [hok, Bool.or_self, Bool.false_eq_true, if_false]
            rw [listCall_fst _ _ _ _ _ out 0 s, listCall_fst _ _ _ _ _ out 0 t]
            exact ih hrest _

/-- A command that is not a list, in terms of the callback's result. -/
theorem handleBlkCommand_simple {k2u : K2u} (h : k2u.dataMapType ≠ .list) (word : σ → Nat → Nat) (fuel : Nat)
    (s : σ) :
    (handleBlkCommand ops word fuel k2u s).map Prod.snd =
      some (((blkResult ops k2u s).map Prod.fst).getD blkStsNotsupp,
        if k2u.opcode = .read then k2u.dataAddress + k2u.mappingData
        else ((blkResult ops k2u s).bind Prod.snd).getD 0) := by
  unfold handleBlkCommand blkResult
  rw [if_neg h]
  cases k2u.opcode with
  | read => cases ops.read <;> rfl
  | write => cases ops.write <;> rfl
  | discard => cases ops.discard <;> rfl
  | flush => cases ops.flush <;> rfl
  | zoneOpen => cases ops.openZone <;> rfl
  | zoneClose => cases ops.closeZone <;> rfl
  | zoneFinish => cases ops.finishZone <;> rfl
  | zoneAppend => cases ops.appendZone <;> rfl
  | zoneReset => cases ops.resetZone <;> rfl
  | zoneResetAll => cases ops.resetAllZone <;> rfl
  | _ => rfl

theorem handleBlkCommand_transcript {k2u : K2u} (hblk : isBlkRequest k2u.opcode = true) {fuel : Nat} {s t : σ}
    (h : transcript ops P fuel k2u s = transcript ops P fuel k2u t) :
    (handleBlkCommand ops P.word fuel k2u s).map Prod.snd = (handleBlkCommand ops P.word fuel k2u t).map Prod.snd := by
  unfold transcript at h
  rw [if_pos hblk, if_pos hblk] at h
  by_cases hlist : k2u.dataMapType = .list
  · rw [if_pos hlist, if_pos hlist] at h
    rw [handleBlkCommand, if_pos hlist, handleBlkCommand, if_pos hlist]
    exact datamapListLoop_transcript h 0
  · rw [if_neg hlist, if_neg hlist] at h
    have hresult : blkResult ops k2u s = blkResult ops k2u t := by
      cases hs : blkResult ops k2u s with
      | none =>
        cases ht : blkResult ops k2u t with
        | none => rfl
        | some r => simp [hs, ht] at h
      | some r =>
        cases ht : blkResult ops k2u t with
        | none => simp [hs, ht] at h
        | some r' =>
          simp only [hs, ht, Option.toList_some, List.map_cons, List.map_nil, List.cons.injEq, Answer.result.injEq,
            and_true] at h
          rw [Prod.ext h.1 h.2]
    rw [handleBlkCommand_simple hlist, handleBlkCommand_simple hlist, hresult]

end

/-! ## Replies and earlier commands -/

section
variable {σ : Type} (ops : BiusOperations σ) (P : Process σ) (buffer fuel : Nat)

/-- What the handler is told about a command that is read next. -/
def told (l : Locals σ) (k2u : K2u) (payload : Option (List UInt8)) : Option (List Answer) :=
  (handleCopyIn P buffer k2u payload l.proc).map (fun copied => transcript ops P fuel copied.1 copied.2)

/-- In any two runs of the process from `s`, whatever the commands so far and the
    uninitialised headers, the command is answered with the same header if the handler is
    told the same about it. -/
def ReplyDetermined (s : σ) (k2u : K2u) (payload : Option (List UInt8)) : Prop :=
  ∀ l₁ l₂, LoopReach ops P buffer fuel s l₁ → LoopReach ops P buffer fuel s l₂ →
    told ops P buffer fuel l₁ k2u payload = told ops P buffer fuel l₂ k2u payload →
    ∀ l₁' u₁ l₂' u₂, handleRequest ops P buffer fuel l₁ (.command k2u payload) = some (l₁', u₁) →
      handleRequest ops P buffer fuel l₂ (.command k2u payload) = some (l₂', u₂) → u₁ = u₂

variable {ops P buffer fuel}

theorem handleRequest_cases {l l' : Locals σ} {k2u : K2u} {payload : Option (List UInt8)} {u : U2k}
    (h : handleRequest ops P buffer fuel l (.command k2u payload) = some (l', u)) :
    ∃ copied s', handleCopyIn P buffer k2u payload l.proc = some copied ∧
      makeReply ops P fuel l.u2k copied.1 copied.2 = some (s', u) := by
  simp only [handleRequest, Option.bind_some, Option.bind_eq_some_iff, Option.map_eq_some_iff] at h
  obtain ⟨copied, hcopied, res, hres, heq⟩ := h
  cases heq
  exact ⟨copied, res.1, hcopied, hres⟩

/-- The command that copying in leaves does not depend on the process, and has the id and
    the opcode it had. -/
theorem handleCopyIn_keeps (P : Process σ) (buffer : Nat) (k2u : K2u) (payload : Option (List UInt8)) :
    ∃ k2u' : K2u, k2u'.id = k2u.id ∧ k2u'.opcode = k2u.opcode ∧
      ∀ s c, handleCopyIn P buffer k2u payload s = some c → c.1 = k2u' := by
  unfold handleCopyIn
  split
  · refine ⟨{ k2u with dataMapType := .simple, dataAddress := buffer, mappingData := 0 }, rfl, rfl, fun s c hc => ?_⟩
    dsimp only at hc
    split at hc
    · rw [Option.map_eq_some_iff] at hc
      obtain ⟨bytes, -, heq⟩ := hc
      rw [← heq]
    · cases hc
      rfl
  · refine ⟨k2u, rfl, rfl, fun s c hc => ?_⟩
    cases hc
    rfl

theorem makeReply_id {u2k u : U2k} {k2u : K2u} {s s' : σ} (h : makeReply ops P fuel u2k k2u s = some (s', u)) :
    u.id = k2u.id := by
  unfold makeReply at h
  split at h
  · rw [Option.map_eq_some_iff] at h
    obtain ⟨res, -, heq⟩ := h
    cases heq
    rfl
  · split at h <;> cases h <;> rfl

/-- Where the command is a block command or there is a `report_zones`, what the handler
    is told decides the reply. -/
theorem makeReply_transcript {k2u : K2u} (hzones : k2u.opcode = .reportZones → ops.reportZones.isSome = true) {s t : σ}
    (h : transcript ops P fuel k2u s = transcript ops P fuel k2u t) (u₁ u₂ : U2k) :
    (makeReply ops P fuel u₁ k2u s).map Prod.snd = (makeReply ops P fuel u₂ k2u t).map Prod.snd := by
  unfold makeReply
  by_cases hblk : isBlkRequest k2u.opcode = true
  · have hreply := handleBlkCommand_transcript hblk h
    rw [if_pos hblk, if_pos hblk]
    cases hs : handleBlkCommand ops P.word fuel k2u s with
    | none =>
      cases ht : handleBlkCommand ops P.word fuel k2u t with
      | none => rfl
      | some y => simp [hs, ht] at hreply
    | some x =>
      cases ht : handleBlkCommand ops P.word fuel k2u t with
      | none => simp [hs, ht] at hreply
      | some y =>
        simp only [hs, ht, Option.map_some, Option.some.injEq] at hreply
        simp only [Option.map_some, hreply]
  · have hop : k2u.opcode = .reportZones := by
      simpa [isBlkRequest] using hblk
    obtain ⟨f, hf⟩ := Option.isSome_iff_exists.1 (hzones hop)
    simp only [transcript, if_neg hblk, hf, List.cons.injEq, Answer.zones.injEq, and_true] at h
    rw [if_neg hblk, if_neg hblk, hf]
    simp only [Option.map_some, handleReportZones, h.1, h.2]

end

/-- **Replies do not depend on earlier commands, as long as somebody answers.** A reply
    bears the id of its command; and what the handler is told about the command decides
    the reply, exactly if the command is not a report-zones command for a backend
    without `report_zones`. -/
theorem replies_determined_iff {σ : Type} (ops : BiusOperations σ) (P : Process σ) (buffer fuel : Nat) (s : σ)
    (k2u : K2u) (payload : Option (List UInt8)) :
    (∀ l l' u, handleRequest ops P buffer fuel l (.command k2u payload) = some (l', u) → u.id = k2u.id) ∧
      (ReplyDetermined ops P buffer fuel s k2u payload ↔
        (k2u.opcode = .reportZones → ops.reportZones.isSome = true)) := by
  refine ⟨fun l l' u h => ?_, fun h hop => ?_, fun hzones l₁ l₂ _ _ htold l₁' u₁ l₂' u₂ h₁ h₂ => ?_⟩
  · obtain ⟨copied, s', hcopied, hreply⟩ := handleRequest_cases h
    obtain ⟨k2u', hid, -, hkeeps⟩ := handleCopyIn_keeps P buffer k2u payload
    rw [makeReply_id hreply, hkeeps _ _ hcopied]
    exact hid
  · by_contra hnone
    have hmissing : ops.reportZones = none := by
      simpa using hnone
    have hcopy : handleCopyIn P buffer k2u payload s = some (k2u, s) := by
      simp [handleCopyIn, hop, requestMayHaveData]
    -- the header that is written is the one that happens to be on the stack
    have hround : ∀ reply : Int, handleRequest ops P buffer fuel ⟨k2u, ⟨0, reply, 0⟩, s⟩ (.command k2u payload) =
        some (⟨k2u, ⟨k2u.id, reply, 0⟩, s⟩, ⟨k2u.id, reply, 0⟩) := by
      intro reply
      simp [handleRequest, hcopy, makeReply, freeZoneInfo, hop, hmissing, isBlkRequest]
    have hstart : ∀ reply : Int, LoopReach ops P buffer fuel s ⟨k2u, ⟨0, reply, 0⟩, s⟩ := by
      intro reply
      exact ⟨k2u, ⟨0, reply, 0⟩, Machine.Reach.refl _⟩
    have heq := h _ _ (hstart 0) (hstart 1) rfl _ _ _ _ (hround 0) (hround 1)
    exact absurd (congrArg U2k.reply heq) (by simp)
  · obtain ⟨c₁, s₁, hc₁, hr₁⟩ := handleRequest_cases h₁
    obtain ⟨c₂, s₂, hc₂, hr₂⟩ := handleRequest_cases h₂
    obtain ⟨k2u', -, hop, hkeeps⟩ := handleCopyIn_keeps P buffer k2u payload
    have hk₁ := hkeeps _ _ hc₁
    have hk₂ := hkeeps _ _ hc₂
    have htrans : transcript ops P fuel k2u' c₁.2 = transcript ops P fuel k2u' c₂.2 := by
      simpa [told, hc₁, hc₂, hk₁, hk₂] using htold
    have hreply := makeReply_transcript (by rw [hop]; exact hzones) htrans l₁.u2k l₂.u2k
    rw [hk₁] at hr₁
    rw [hk₂] at hr₂
    rw [hr₁, hr₂] at hreply
    simpa using hreply

/-- A backend that can only read, and fails to behind the first sector. -/
def firstSectorOnly : BiusOperations Unit where
  read := some fun _ offset _ s => (s, if offset = 0 then blkStsOk else blkStsIoerr)

/-- A process with nothing in it. -/
def noProcess : Process Unit := ⟨fun _ _ => 0, fun s _ _ => s, fun s _ => (s, 0), fun s _ => s⟩

/-- Command 1 reads at `offset`. -/
def readAt (offset : Nat) : K2u := ⟨1, .read, offset, 512, 0, 0, .unmapped⟩

/-- Command 2 asks for zones. -/
def askZones : K2u := ⟨2, .reportZones, 0, 4, 0, 0, .unmapped⟩

/-- Two runs, which differ in the offset of the command before: asked for zones, a backend
    without `report_zones` answers 0 in one and `BLK_STS_IOERR` in the other. -/
theorem replies_stale :
    ∃ l₁ l₂ l₁' u₁ l₂' u₂, LoopReach firstSectorOnly noProcess 4096 8 () l₁ ∧
      LoopReach firstSectorOnly noProcess 4096 8 () l₂ ∧
      told firstSectorOnly noProcess 4096 8 l₁ askZones none = told firstSectorOnly noProcess 4096 8 l₂ askZones
        none ∧
      handleRequest firstSectorOnly noProcess 4096 8 l₁ (.command askZones none) = some (l₁', u₁) ∧
      handleRequest firstSectorOnly noProcess 4096 8 l₂ (.command askZones none) = some (l₂', u₂) ∧
      u₁ = ⟨2, 0, 4096⟩ ∧ u₂ = ⟨2, 10, 4096⟩ := by
  refine ⟨_, _, _, _, _, _, ⟨readAt 0, ⟨0, 0, 0⟩, ⟨[.command (readAt 0) none], .cons trivial rfl (.nil _)⟩⟩,
    ⟨readAt 0, ⟨0, 0, 0⟩, ⟨[.command (readAt 512) none], .cons trivial rfl (.nil _)⟩⟩, ?_, rfl, rfl, ?_, ?_⟩
  · decide
  · decide
  · decide

end Bius
