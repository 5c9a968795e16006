import Bius.KernelLife

/- The payload of a write as a stream. `bius_send_data` is called again and again, each
   time with another buffer, and goes on where the last call has stopped: in the middle of
   a segment, between two bios, or because nothing could be copied. `SendVars` holds all
   that its loop moves on; where the loop is left, the bytes that the reader has got and
   the bytes that the bio chain has left are the payload (`Streaming`), and `total_sent`
   is the number of the former. A call keeps this (`Streaming.send`), so any sequence of
   calls does (`payload_streaming`).

   `biusSendData` is what this loop leaves (`biusSendDataVars_eq`), so the reads of the
   kernel module are such calls (`BiusRequest.Sends.readBy`). -/
namespace Bius

/-- The variables of the loop of `bius_send_data`, the fields of the request that it moves
    on, and what `copy_to_iter` has put into the buffer of the reader (`dest`). -/
structure SendVars where
  remainBuffer : Nat
  totalSent : Nat
  mapData : Nat
  bio : List Bio
  dest : List UInt8

/-- The body of the loop; `none` when `request->bio` is NULL. The flag says that the loop is
    left by its `break`. -/
def SendVars.body (v : SendVars) (cuts : List Nat) : Option (SendVars × Bool) :=
  match v.bio with
  | [] => none
  | bio :: next =>
    let sizeToSend := min bio.iovec.length v.remainBuffer
    let sentSize := copyToIter cuts sizeToSend
    let advanced := bio.advance sentSize
    let v' : SendVars :=
      { remainBuffer := v.remainBuffer - sentSize
        totalSent := v.totalSent + sentSize
        mapData := sub64 v.mapData sentSize
        bio := advanced :: next
        dest := v.dest ++ bio.iovec.take sentSize }
    if advanced.biSize = 0 then some ({ v' with bio := next }, false)
    else some (v', sentSize == 0)

/-- The loop; `none` as well when it has not ended within `fuel` rounds. -/
def sendWhile : Nat → SendVars → List Nat → Option SendVars
  | 0, _, _ => none
  | fuel + 1, v, cuts =>
    if 0 < v.mapData ∧ 0 < v.remainBuffer then
      (v.body cuts).bind (fun res => if res.2 then some res.1 else sendWhile fuel res.1 cuts.tail)
    else some v

/-- What a call returns and what the reader has got. -/
structure SendReturn where
  value : Int
  dest : List UInt8

/-- `bius_send_data`. -/
def biusSendDataVars (r : BiusRequest) (remainBuffer : Nat) (cuts : List Nat) : Option (BiusRequest × SendReturn) :=
  if r.bio = [] then some (r, ⟨0, []⟩)
  else if r.mapType != .unmapped then some (r, ⟨-eINVAL, []⟩)
  else
    (sendWhile (r.bio.length + (chainBytes r.bio).length + 1) ⟨remainBuffer, 0, r.mapData, r.bio, []⟩ cuts).map
      (fun v => ({ r with bio := v.bio, mapData := v.mapData }, ⟨v.totalSent, v.dest⟩))

/-! ## The loop -/

theorem sendWhile_eq (fuel : Nat) (v : SendVars) (cuts : List Nat) :
    (sendWhile fuel v cuts).map (fun v' => (⟨v'.bio, v'.mapData, v'.dest⟩ : Sent)) =
      sendLoop fuel v.bio v.mapData v.remainBuffer cuts v.dest := by
  induction fuel generalizing v cuts with
  | zero => rfl
  | succ fuel ih =>
    simp only [sendWhile, sendLoop]
    by_cases hgo : 0 < v.mapData ∧ 0 < v.remainBuffer
    · rw [if_pos hgo, if_pos hgo]
      cases hbio : v.bio with
      | nil => simp [SendVars.body, hbio]
      | cons bio next =>
        simp only [SendVars.body, hbio]
        split
        · rw [Option.bind_some]
          exact ih _ _
        · rw [Option.bind_some]
          by_cases hzero : copyToIter cuts (min bio.iovec.length v.remainBuffer) = 0
          · rw [if_pos (by simpa using hzero), if_pos hzero]
            rfl
          · rw [if_neg (by simpa using hzero), if_neg hzero]
            exact ih _ _
    · rw [if_neg hgo, if_neg hgo]
      rfl

theorem SendVars.body_counts {v v' : SendVars} {cuts : List Nat} {brk : Bool} (h : v.body cuts = some (v', brk)) :
    v'.totalSent + v.dest.length = v.totalSent + v'.dest.length := by
  unfold SendVars.body at h
  cases hbio : v.bio with
  | nil =>
    rw [hbio] at h
    cases h
  | cons bio next =>
    simp only [hbio] at h
    have hsent : copyToIter cuts (min bio.iovec.length v.remainBuffer) ≤ bio.iovec.length :=
      Nat.le_trans (Nat.min_le_right _ _) (Nat.min_le_left _ _)
    have htaken : (bio.iovec.take (copyToIter cuts (min bio.iovec.length v.remainBuffer))).length =
        copyToIter cuts (min bio.iovec.length v.remainBuffer) := by
      rw [List.length_take, Nat.min_eq_left hsent]
    split at h <;>
    · cases h
      simp only [List.length_append, htaken]
      omega

theorem sendWhile_counts {fuel : Nat} {v v' : SendVars} {cuts : List Nat} (h : sendWhile fuel v cuts = some v')
    (hv : v.totalSent = v.dest.length) : v'.totalSent = v'.dest.length := by
  induction fuel generalizing v cuts with
  | zero => cases h
  | succ fuel ih =>
    simp only [sendWhile] at h
    split at h
    · rw [Option.bind_eq_some_iff] at h
      obtain ⟨⟨v₁, brk⟩, hbody, h⟩ := h
      have hcount := SendVars.body_counts hbody
      have hv₁ : v₁.totalSent = v₁.dest.length := by omega
      split at h
      · cases h
        exact hv₁
      · exact ih h hv₁
    · cases h
      exact hv

/-! ## Copies that succeed -/

/-- The segments that the loop comes to in a bio, by their lengths. A bio without segments
    takes a round of its own, with a copy of nothing. -/
def Bio.copyLengths (b : Bio) : List Nat :=
  match b.vecs with
  | [] => [0]
  | v :: vs => v.data.length :: vs.map (fun w => w.data.length)

/-- What the copies of a call are to transfer while all of them succeed: one segment after
    the other, as far as there is room. -/
def copySizes : List Nat → Nat → List Nat
  | [], _ => []
  | n :: ns, room => min n room :: copySizes ns (room - min n room)

/-- Each copy transfers all that it is to. -/
def AllCopied : List Nat → List Nat → Prop
  | [], _ => True
  | size :: sizes, cuts => copyToIter cuts size = size ∧ AllCopied sizes cuts.tail

/-- In a call with a buffer of `remainBuffer` bytes every copy succeeds: a condition on the
    segments that are left, the buffer and the cuts. -/
def BiusRequest.AllCopied (r : BiusRequest) (remainBuffer : Nat) (cuts : List Nat) : Prop :=
  Bius.AllCopied (copySizes (r.bio.flatMap Bio.copyLengths) remainBuffer) cuts

/-- Cuts that leave every copy the whole buffer cut none of them short; nor do none. -/
theorem allCopied_of_le {room : Nat} {cuts : List Nat} (h : ∀ n ∈ cuts, room ≤ n) (ns : List Nat) :
    AllCopied (copySizes ns room) cuts := by
  induction ns generalizing room cuts with
  | nil => trivial
  | cons n ns ih =>
    refine ⟨?_, ih (fun m hm => Nat.le_trans (Nat.sub_le _ _) (h m (List.mem_of_mem_tail hm)))⟩
    cases cuts with
    | nil => exact Nat.min_self _
    | cons m cuts =>
      have hle : min n room ≤ m := Nat.le_trans (Nat.min_le_right _ _) (h m (by simp))
      exact Nat.min_eq_right hle

theorem allCopied_zero (ns cuts : List Nat) : AllCopied (copySizes ns 0) cuts :=
  allCopied_of_le (fun _ _ => Nat.zero_le _) ns

/-- A round whose copy succeeds is the round in which nothing cuts it short, and the copies
    after it are the rest of the copies. -/
theorem SendVars.body_copied {v : SendVars} {cuts : List Nat}
    (h : AllCopied (copySizes (v.bio.flatMap Bio.copyLengths) v.remainBuffer) cuts) :
    v.body cuts = v.body [] ∧ ∀ v' brk, v.body cuts = some (v', brk) →
      AllCopied (copySizes (v'.bio.flatMap Bio.copyLengths) v'.remainBuffer) cuts.tail := by
  cases hbio : v.bio with
  | nil => simp [SendVars.body, hbio]
  | cons bio next =>
    rw [hbio, List.flatMap_cons] at h
    have hno : copyToIter [] (min bio.iovec.length v.remainBuffer) = min bio.iovec.length v.remainBuffer :=
      Nat.min_self _
    cases hvecs : bio.vecs with
    | nil =>
      -- the bio is empty
      simp only [Bio.copyLengths, hvecs, List.cons_append, List.nil_append, copySizes, Nat.zero_min, Nat.sub_zero] at h
      have hlen : min bio.iovec.length v.remainBuffer = 0 := by simp [Bio.iovec, hvecs]
      have hend : (bio.advance 0).biSize = 0 := by simp [Bio.biSize, Bio.bytes, Bio.advance, hvecs, advanceVecs]
      have hzero : copyToIter [] 0 = 0 := Nat.min_self 0
      simp only [SendVars.body, hbio, hlen, h.1, hzero, hend, if_true, true_and]
      intro v' brk hv'
      cases hv'
      exact h.2
    | cons vec vecs =>
      simp only [Bio.copyLengths, hvecs, List.cons_append, copySizes] at h
      have hiov : bio.iovec.length = vec.data.length := by simp only [Bio.iovec, hvecs]
      have hcopy : copyToIter cuts (min bio.iovec.length v.remainBuffer) = min bio.iovec.length v.remainBuffer := by
        rw [hiov]
        exact h.1
      simp only [SendVars.body, hbio, hno, hcopy, true_and]
      intro v' brk hv'
      by_cases hroom : v.remainBuffer ≤ vec.data.length
      · -- the buffer is full
        have hfull : v.remainBuffer - min bio.iovec.length v.remainBuffer = 0 := by omega
        split at hv' <;>
        · cases hv'
          dsimp only
          rw [hfull]
          exact allCopied_zero _ _
      · -- the segment is passed
        have hmin : min vec.data.length v.remainBuffer = vec.data.length := by omega
        have hrest := h.2
        rw [hmin] at hrest
        rw [hiov, hmin] at hv'
        have hadv : bio.advance vec.data.length = ⟨advanceVecs vecs 0⟩ := by
          simp [Bio.advance, hvecs, advanceVecs]
        rw [hadv] at hv'
        cases vecs with
        | nil =>
          have hzero : (⟨advanceVecs [] 0⟩ : Bio).biSize = 0 := rfl
          rw [if_pos hzero] at hv'
          cases hv'
          exact hrest
        | cons w ws =>
          have hsize : (⟨advanceVecs (w :: ws) 0⟩ : Bio).biSize ≠ 0 := by
            have := w.pos
            simp only [Bio.biSize, Bio.bytes, advanceVecs_bytes, List.drop_zero, List.flatMap_cons, List.length_append]
            omega
          have hnext : advanceVecs (w :: ws) 0 = w.drop 0 w.pos :: ws := dif_pos w.pos
          rw [if_neg hsize, hnext] at hv'
          cases hv'
          exact hrest

/-- A call whose copies all succeed is the one in which nothing cuts them short. -/
theorem sendWhile_copied {fuel : Nat} {v : SendVars} {cuts : List Nat}
    (h : AllCopied (copySizes (v.bio.flatMap Bio.copyLengths) v.remainBuffer) cuts) :
    sendWhile fuel v cuts = sendWhile fuel v [] := by
  induction fuel generalizing v cuts with
  | zero => rfl
  | succ fuel ih =>
    obtain ⟨hbody, hrest⟩ := SendVars.body_copied h
    simp only [sendWhile, List.tail_nil]
    split
    · rw [hbody] at hrest ⊢
      cases hb : v.body [] with
      | none => rfl
      | some res =>
        obtain ⟨v', brk⟩ := res
        simp only [Option.bind_some]
        split
        · rfl
        · exact ih (hrest v' brk hb)
    · rfl

/-! ## A call -/

/-- `biusSendData` keeps of a call what the reader has got, or the error. -/
theorem biusSendDataVars_eq (r : BiusRequest) (remainBuffer : Nat) (cuts : List Nat) :
    (biusSendDataVars r remainBuffer cuts).map
        (fun res => (res.1, if res.2.value < 0 then Except.error res.2.value else Except.ok res.2.dest)) =
      biusSendData r remainBuffer cuts := by
  unfold biusSendDataVars biusSendData
  split
  · rfl
  · split
    · rfl
    · have hloop := sendWhile_eq (r.bio.length + (chainBytes r.bio).length + 1) ⟨remainBuffer, 0, r.mapData,
          r.bio, []⟩ cuts
      rw [← hloop, Option.map_map, Option.map_map]
      rfl

/-- The bytes `sent` of the payload `data` have been transferred, and the request stands at
    the next one. -/
structure BiusRequest.Streaming (data sent : List UInt8) (r : BiusRequest) : Prop where
  unmapped : r.mapType = .unmapped
  split : data = sent ++ chainBytes r.bio
  left : r.mapData = (chainBytes r.bio).length
  small : data.length < 2 ^ 64

/-- What a call with a buffer of `remainBuffer` bytes does, where `cuts` says how far each
    copy may get. -/
structure BiusRequest.Sends (r r' : BiusRequest) (remainBuffer : Nat) (cuts : List Nat) (ret : SendReturn) : Prop where
  /-- it returns the number of bytes it has transferred -/
  value : ret.value = ret.dest.length
  /-- `map_data` goes down by that number -/
  mapData : r'.mapData + ret.dest.length = r.mapData
  fits : ret.dest.length ≤ remainBuffer
  /-- and if every copy succeeds, as it does where there are no `cuts` (`allCopied_of_le`), it
      transfers all that there is room for -/
  full : r.AllCopied remainBuffer cuts → ret.dest.length = min remainBuffer r.mapData

theorem BiusRequest.Streaming.send {data sent : List UInt8} {r : BiusRequest} (h : r.Streaming data sent)
    (remainBuffer : Nat) (cuts : List Nat) : ∃ r' ret, biusSendDataVars r remainBuffer cuts = some (r', ret) ∧
      r'.Streaming data (sent ++ ret.dest) ∧ r.Sends r' remainBuffer cuts ret := by
  have hsmall : r.mapData < 2 ^ 64 := by
    have hdata := congrArg List.length h.split
    have hless := h.small
    rw [List.length_append] at hdata
    rw [h.left]
    omega
  unfold biusSendDataVars
  by_cases hbio : r.bio = []
  · rw [if_pos hbio]
    have hleft : r.mapData = 0 := by rw [h.left, hbio]; rfl
    refine ⟨r, _, rfl, ⟨h.unmapped, ?_, h.left, h.small⟩, ⟨rfl, rfl, Nat.zero_le _, fun _ => ?_⟩⟩
    · rw [List.append_nil]
      exact h.split
    · rw [hleft, Nat.min_zero]
      rfl
  · rw [if_neg hbio, if_neg (by simp [h.unmapped])]
    obtain ⟨s, k, hs, hk, hbytes, hchain, hmap, -⟩ := sendLoop_spec (r.bio.length + (chainBytes r.bio).length + 1)
      r.bio r.mapData remainBuffer cuts [] h.left hsmall (Nat.lt_succ_self _)
    have heq := sendWhile_eq (r.bio.length + (chainBytes r.bio).length + 1)
      ⟨remainBuffer, 0, r.mapData, r.bio, []⟩ cuts
    rw [hs, Option.map_eq_some_iff] at heq
    obtain ⟨v, hv, rfl⟩ := heq
    simp only [List.nil_append] at hbytes
    dsimp only at hchain hmap
    have hcount : v.totalSent = v.dest.length := sendWhile_counts hv rfl
    have hlen : v.dest.length = k := by
      rw [hbytes, List.length_take, ← h.left]
      omega
    rw [hv]
    refine ⟨_, _, rfl, ⟨h.unmapped, ?_, ?_, h.small⟩, ⟨?_, ?_, ?_, fun hfull => ?_⟩⟩
    · show data = sent ++ v.dest ++ chainBytes v.bio
      rw [hbytes, hchain, List.append_assoc, List.take_append_drop]
      exact h.split
    · show v.mapData = (chainBytes v.bio).length
      rw [hmap, hchain, List.length_drop, h.left]
    · show (v.totalSent : Int) = v.dest.length
      rw [hcount]
    · show v.mapData + v.dest.length = r.mapData
      omega
    · show v.dest.length ≤ remainBuffer
      omega
    · -- the copies have all succeeded, so it is the call in which none can fail
      have hv' := (sendWhile_copied (v := ⟨remainBuffer, 0, r.mapData, r.bio, []⟩) hfull).symm.trans hv
      obtain ⟨s', k', hs', -, hbytes', -, -, hall⟩ := sendLoop_spec (r.bio.length + (chainBytes r.bio).length + 1)
        r.bio r.mapData remainBuffer [] [] h.left hsmall (Nat.lt_succ_self _)
      have heq' := sendWhile_eq (r.bio.length + (chainBytes r.bio).length + 1)
        ⟨remainBuffer, 0, r.mapData, r.bio, []⟩ []
      rw [hv', hs'] at heq'
      cases heq'
      have hk' := hall rfl
      show v.dest.length = min remainBuffer r.mapData
      simp only [List.nil_append] at hbytes'
      rw [hbytes', List.length_take, ← h.left]
      omega

/-! ## Any number of calls -/

/-- A call: the size of the reader's buffer, and how far each of the copies gets. -/
structure SendCall where
  remainBuffer : Nat
  cuts : List Nat

/-- Calls of `bius_send_data` one after the other: the request afterwards, and all that has
    been transferred. -/
def sendCalls (r : BiusRequest) : List SendCall → Option (BiusRequest × List UInt8)
  | [] => some (r, [])
  | call :: calls =>
    (biusSendDataVars r call.remainBuffer call.cuts).bind (fun res =>
      (sendCalls res.1 calls).map (fun rest => (rest.1, res.2.dest ++ rest.2)))

theorem BiusRequest.Streaming.sendCalls {data sent : List UInt8} {r : BiusRequest} (h : r.Streaming data sent)
    (calls : List SendCall) : ∃ r' bytes, Bius.sendCalls r calls = some (r', bytes) ∧
      r'.Streaming data (sent ++ bytes) := by
  induction calls generalizing r sent with
  | nil => exact ⟨r, [], rfl, by rw [List.append_nil]; exact h⟩
  | cons call calls ih =>
    obtain ⟨r₁, ret, hcall, h₁, -⟩ := h.send call.remainBuffer call.cuts
    obtain ⟨r', bytes, hcalls, h'⟩ := ih h₁
    refine ⟨r', ret.dest ++ bytes, ?_, ?_⟩
    · rw [Bius.sendCalls, hcall, Option.bind_some, hcalls]
      rfl
    · rw [← List.append_assoc]
      exact h'

/-- A write none of whose payload has been sent: the whole bio chain is left. -/
structure BiusRequest.Unconsumed (r : BiusRequest) : Prop where
  write : requestIsWrite r.type = true
  unmapped : r.mapType = .unmapped
  whole : r.length = (chainBytes r.bio).length
  mapData : r.mapData = r.length
  /-- `length` is a `size_t` -/
  small : r.length < 2 ^ 64

theorem BiusRequest.Unconsumed.streaming {r : BiusRequest} (h : r.Unconsumed) : r.Streaming (chainBytes r.bio) [] :=
  ⟨h.unmapped, rfl, by rw [h.mapData, h.whole], by rw [← h.whole]; exact h.small⟩

/-- A write from the block layer, with the `map_data` that `bius_dev_read` gives it. -/
theorem initBlkRequest_unconsumed (old : BiusRequest) (id : Nat) (rq : Rq)
    (hw : requestIsWrite (toBiusRequest rq.op) = true) (hsize : rq.dataLen < 2 ^ 64) :
    { initBlkRequest old id rq with mapData := rq.dataLen }.Unconsumed :=
  ⟨hw, rfl, rq.len_eq (requestMayHaveData_of_isWrite hw), rfl, hsize⟩

/-- A read of a connection that is in the middle of the request is this call: it returns the
    bytes transferred, and `sending` is reset when nothing is left. -/
def BiusRequest.ReadBy (r r' : BiusRequest) (remainBuffer : Nat) (cuts : List Nat) (ret : SendReturn) : Prop :=
  ∀ (s : Kernel) (t : Tid) (c : Nat) (p : Ptr), (s.conn c).attached = true → (s.conn c).sending = some p →
    s.req p = r →
    ∃ s', s.readStart t c remainBuffer cuts = some s' ∧ s'.req p = r' ∧
      (s'.conn c).sending = (if requestIoDone r' then none else some p) ∧ s'.call t = .done (.payload ret.dest)

/-- `biusSendData`, which the kernel module reads with, is this call. -/
theorem BiusRequest.Sends.readBy {r r' : BiusRequest} {remainBuffer : Nat} {cuts : List Nat} {ret : SendReturn}
    (hs : r.Sends r' remainBuffer cuts ret) (hcall : biusSendDataVars r remainBuffer cuts = some (r', ret)) :
    r.ReadBy r' remainBuffer cuts ret := by
  intro s t c p ha hp hr
  have hsend := biusSendDataVars_eq r remainBuffer cuts
  have hvalue : ¬ ret.value < 0 := by
    rw [hs.value]
    omega
  rw [hcall, Option.map_some, if_neg hvalue, ← hr] at hsend
  simp only [Kernel.readStart, ha, hp, ← hsend, Option.map_some, Bool.not_true, Bool.false_eq_true, if_false]
  refine ⟨_, rfl, ?_⟩
  by_cases hdone : requestIoDone r' = true <;> simp [hdone, hp]

/-- **Payload streaming.** After any sequence of calls, with buffers of any size and copies
    that get as far as they may: all that has been transferred is the first
    `length - map_data` bytes of the payload, the bio chain holds the rest, and
    `request_io_done` says whether there is none. And the next call, whatever it is,
    terminates, returns the number of bytes it transfers, takes it from `map_data`, and
    transfers as much as fits if every copy succeeds. A read of `bius_dev_read` that goes
    on with the payload is such a call. -/
theorem payload_streaming {r : BiusRequest} (h : r.Unconsumed) (calls : List SendCall) :
    ∃ r' bytes, sendCalls r calls = some (r', bytes) ∧ r'.mapData ≤ r.length ∧
      bytes = (chainBytes r.bio).take (r.length - r'.mapData) ∧
      chainBytes r'.bio = (chainBytes r.bio).drop (r.length - r'.mapData) ∧
      (requestIoDone r' = true ↔ bytes = chainBytes r.bio) ∧
      ∀ remainBuffer cuts, ∃ r'' ret, biusSendDataVars r' remainBuffer cuts = some (r'', ret) ∧
        r'.Sends r'' remainBuffer cuts ret ∧ r'.ReadBy r'' remainBuffer cuts ret := by
  obtain ⟨r', bytes, hcalls, hs⟩ := h.streaming.sendCalls calls
  rw [List.nil_append] at hs
  have hlen : r.length = bytes.length + r'.mapData := by
    rw [h.whole, hs.left, hs.split, List.length_append]
  have hsent : r.length - r'.mapData = bytes.length := by omega
  refine ⟨r', bytes, hcalls, by omega, ?_, ?_, ?_, fun remainBuffer cuts => ?_⟩
  · rw [hsent, hs.split, List.take_left]
  · rw [hsent, hs.split, List.drop_left]
  · simp only [requestIoDone, hs.unmapped, bne_self_eq_false, Bool.false_eq_true, if_false, beq_iff_eq]
    constructor
    · intro hdone
      have hnil : chainBytes r'.bio = [] := List.eq_nil_of_length_eq_zero (hs.left.symm.trans hdone)
      rw [hs.split, hnil, List.append_nil]
    · intro hall
      have hdata := congrArg List.length hall
      rw [← h.whole] at hdata
      omega
  · obtain ⟨r'', ret, hcall, -, hsends⟩ := hs.send remainBuffer cuts
    exact ⟨r'', ret, hcall, hsends, hsends.readBy hcall⟩

/-- A write of six bytes in two bios. -/
def twoBios : Rq :=
  ⟨1, 8, 6, [⟨[⟨16, 0, [1, 2, 3], by decide⟩]⟩, ⟨[⟨20, 512, [4, 5, 6], by decide⟩]⟩], fun _ => rfl⟩

/-- The first call stops inside of the first bio, the second is interrupted at the second.
    In the third no copy falls short: it transfers the rest. -/
theorem payload_streaming_twoBios : ∃ r' ret,
    sendCalls { initBlkRequest .blank 1 twoBios with mapData := 6 } [⟨2, []⟩, ⟨9, [1, 0]⟩] = some
      (r', [1, 2, 3]) ∧
      r'.mapData = 3 ∧ requestIoDone r' = false ∧ r'.AllCopied 4096 [3] ∧
      biusSendDataVars r' 4096 [3] = some ({ r' with bio := [], mapData := 0 }, ret) ∧ ret.value = 3 ∧
        ret.dest = [4, 5, 6] := by
  obtain ⟨r', bytes, hcalls, -, -, -, -, hnext⟩ :=
    payload_streaming (initBlkRequest_unconsumed .blank 1 twoBios rfl (by decide)) [⟨2, []⟩, ⟨9, [1, 0]⟩]
  obtain ⟨r'', ret, hcall, hsends, -⟩ := hnext 4096 [3]
  have hrun : sendCalls { initBlkRequest .blank 1 twoBios with mapData := 6 } [⟨2, []⟩, ⟨9, [1, 0]⟩] =
      some ({ initBlkRequest .blank 1 twoBios with bio := [⟨[⟨20, 512, [4, 5, 6], by decide⟩]⟩], mapData := 3 },
        [1, 2, 3]) := rfl
  have hcalls' := hrun.symm.trans hcalls
  cases hcalls'
  have hcopied : BiusRequest.AllCopied
      { initBlkRequest .blank 1 twoBios with bio := [⟨[⟨20, 512, [4, 5, 6], by decide⟩]⟩], mapData := 3 }
        4096 [3] :=
    ⟨rfl, trivial⟩
  have hvalue : ret.value = 3 := by
    rw [hsends.value, hsends.full hcopied]
    rfl
  refine ⟨_, ret, hrun, rfl, rfl, hcopied, ?_, hvalue, ?_⟩
  · cases hcall
    rfl
  · cases hcall
    rfl

end Bius
