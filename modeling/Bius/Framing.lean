import Bius.KernelFrame
import Bius.Stack

/- One connection between the kernel module and its loop. The stream of commands and
   payloads carries no tags: the kernel decides by `sending` whether a read is answered
   with a command or with data, the library by the opcode, the length and the map type of
   the command it has read. `Framed` says, for each point of the loop, what the kernel
   keeps for the connection there; each step of the loop takes it to the next point.

   The two decisions agree because both come down to whether the request is mapped
   (`Offered.copyInReads`), and a request that is not mapped fits into the copy buffer
   (`Offered.length_le`). -/
namespace Bius

/-! ## What is offered to a connection -/

/-- Whether a request is shown through the window. -/
def BiusRequest.isMapped (cfg : Config) (r : BiusRequest) : Bool :=
  cfg.datamap && requestMayHaveData r.type && decide (biusMapDataThreshold < r.length)

/-- Whether the payload of a request is read after its command. -/
def BiusRequest.streams (cfg : Config) (r : BiusRequest) : Bool :=
  requestIsWrite r.type && decide (0 < r.length) && !r.isMapped cfg

/-- A request before a connection has taken it. -/
structure BiusRequest.Untaken (r : BiusRequest) : Prop where
  data : requestMayHaveData r.type = true → r.length = (chainBytes r.rq).length ∧ r.length ≤ biusMaxSizePerCommand
  whole : isBlkRequest r.type = true → r.bio = r.rq
  unmapped : isBlkRequest r.type = true → r.mapType = .unmapped

/-- A request that a connection has taken. -/
structure BiusRequest.Offered (cfg : Config) (r : BiusRequest) : Prop where
  data : requestMayHaveData r.type = true → r.length = (chainBytes r.rq).length ∧ r.length ≤ biusMaxSizePerCommand
  whole : isBlkRequest r.type = true → requestIsWrite r.type = false → r.bio = r.rq
  mapType : isBlkRequest r.type = true → (r.mapType = .unmapped ↔ r.isMapped cfg = false)

/-- The first `n` bytes of the payload have been sent. -/
structure BiusRequest.SentTo (r : BiusRequest) (n : Nat) : Prop where
  le : n ≤ r.length
  left : r.mapData = r.length - n
  rest : chainBytes r.bio = (chainBytes r.rq).drop n

/-- `sending` after the command of `p` has been prepared. -/
def sendingOf (cfg : Config) (r : BiusRequest) (p : Ptr) : Option Ptr := if r.streams cfg then some p else none

theorem isBlkRequest_of_mayHaveData {type : BiusReq} (h : requestMayHaveData type = true) : isBlkRequest type = true := by
  cases type <;> simp_all [requestMayHaveData, isBlkRequest]

theorem BiusRequest.streams_iff {cfg : Config} {r : BiusRequest} :
    r.streams cfg = true ↔ requestIsWrite r.type = true ∧ 0 < r.length ∧ r.isMapped cfg = false := by
  simp [BiusRequest.streams, and_assoc]

/-- The command of a request that is not mapped says nothing about the window. -/
theorem k2uHeader_unmapped {r : BiusRequest} (h : r.mapType = .unmapped) (datamap : Bool) (vmStart : Nat) :
    k2uHeader datamap vmStart r = ⟨r.id, r.type, (r.pos % 2 ^ 64).toNat, r.length, 0, 0, .unmapped⟩ := by
  simp [k2uHeader, h]

section
variable {r : BiusRequest}

theorem mapPages_listEntryIndex (n : Nat) (st : MapState) (pfn : Nat) :
    (st.mapPages pfn n).listEntryIndex = st.listEntryIndex := by
  induction n generalizing st pfn with
  | zero => rfl
  | succ n ih => exact ih (st.mapPage pfn) (pfn + 1)

theorem mapRest_listEntryIndex (st : MapState) (isWrite : Bool) (pfn remain : Nat) :
    (st.mapRest isWrite pfn remain).listEntryIndex = st.listEntryIndex := by
  simp only [MapState.mapRest]
  split <;> exact mapPages_listEntryIndex _ st pfn

/-- The loop of `bius_map_data` over some segments has opened an entry. -/
theorem mapSegments_entry (isWrite : Bool) (vmStart : Nat) {segs : List Seg} (h : segs ≠ []) :
    0 < (mapSegments isWrite vmStart segs).listEntryIndex := by
  obtain ⟨init, s, rfl⟩ := List.eq_nil_or_concat segs |>.resolve_left h
  have hentry := (placed_listEntry (placed_mapSegments isWrite vmStart init) s).2
  have hlast : mapSegments isWrite vmStart (init.concat s) = mapSegment isWrite (mapSegments isWrite vmStart init) s := by
    simp [mapSegments]
  rw [hlast, mapSegment]
  dsimp only
  split
  · split
    · exact hentry
    · rw [mapRest_listEntryIndex]
      exact hentry
  · rw [mapRest_listEntryIndex]
    exact hentry

theorem biusMapData_mapType (h : r.mapType = .unmapped) (vmStart : Nat) {segs : List Seg} (hsegs : segs ≠ []) :
    (biusMapData r vmStart segs).2.mapType ≠ .unmapped := by
  have hpos := mapSegments_entry (requestIsWrite r.type) vmStart hsegs
  rw [biusMapData, if_neg (by simp [h])]
  dsimp only
  split
  · simp
  · next hone =>
    rw [if_pos (by omega)]
    simp

theorem rqForEachSegment_ne_nil (bios : List Bio) (h : 0 < (chainBytes bios).length) : rqForEachSegment bios ≠ [] := by
  intro hnil
  simp only [rqForEachSegment, List.flatMap_eq_nil_iff] at hnil
  have hzero : chainBytes bios = [] := by
    simp only [chainBytes, List.flatMap_eq_nil_iff]
    intro b hb
    simp only [Bio.bytes, List.flatMap_eq_nil_iff]
    intro v hv
    exact absurd (hnil b hb v hv) (by simp [splitPages])
  rw [hzero] at h
  simp at h

end

section
variable {cfg : Config} {s s' : Kernel} {c : Nat} {p : Ptr}

/-- What `bius_dev_read` does to a request before it sends the command, and to the
    connection. -/
theorem prepare_offered (hf : (s.req p).Untaken) (hs : (s.conn c).sending = none) (h : s.prepare cfg c p = some s') :
    (s'.req p).Offered cfg ∧ (s'.conn c).sending = sendingOf cfg (s'.req p) p ∧
      ((s'.req p).streams cfg = true → (s'.req p).SentTo 0) ∧ (s'.conn c).waiting = (s.conn c).waiting ∧
      (s'.conn c).attached = (s.conn c).attached ∧ (s'.conn c).vma = (s.conn c).vma ∧
      ∃ mapType mapData mappedSize, s'.req p =
        { s.req p with mapType := mapType, mapData := mapData, mappedSize := mappedSize } := by
  unfold Kernel.prepare at h
  split at h
  · next hdata =>
    simp only [Bool.and_eq_true, decide_eq_true_eq] at hdata
    have hblk := isBlkRequest_of_mayHaveData hdata.1
    obtain ⟨hlen, hmax⟩ := hf.data hdata.1
    split at h
    · -- the request is mapped
      next hmap =>
      simp only [Bool.and_eq_true, decide_eq_true_eq] at hmap
      rw [Option.map_eq_some_iff] at h
      obtain ⟨vmStart, -, rfl⟩ := h
      have hmt := biusMapData_mapType (hf.unmapped hblk) vmStart
        (rqForEachSegment_ne_nil (s.req p).rq (by omega))
      obtain ⟨mapType, mapData, mappedSize, hr⟩ := biusMapData_keeps (s.req p) vmStart (rqForEachSegment (s.req p).rq)
      have hreq : (s.mapData c p vmStart).req p =
          { s.req p with mapType := mapType, mapData := mapData, mappedSize := mappedSize } := by
        simp [Kernel.mapData, hr]
      rw [hr] at hmt
      have hmapped : ((s.mapData c p vmStart).req p).isMapped cfg = true := by
        simp [hreq, BiusRequest.isMapped, hmap, hdata.1]
      have hstreams : ((s.mapData c p vmStart).req p).streams cfg = false := by
        simp [BiusRequest.streams, hmapped]
      refine ⟨?_, ?_, ?_, ?_, ?_, ?_, mapType, mapData, mappedSize, hreq⟩
      · rw [hreq]
        refine ⟨fun _ => ⟨hlen, hmax⟩, fun _ _ => hf.whole hblk, fun _ => ?_⟩
        rw [hreq] at hmapped
        rw [hmapped]
        simpa using hmt
      · rw [sendingOf, hstreams]
        simp [Kernel.mapData, hs]
      · simp [hstreams]
      all_goals simp [Kernel.mapData]
    · next hmap =>
      have hunmapped : (s.req p).isMapped cfg = false := by
        simp only [Bool.and_eq_true, decide_eq_true_eq] at hmap
        simpa [BiusRequest.isMapped, hdata.1] using hmap
      split at h
      · -- the payload is sent by the next reads
        next hwrite =>
        cases h
        have hreq : (s.sendLater c p).req p = { s.req p with mapData := (s.req p).length } := by
          simp [Kernel.sendLater]
        have hstreams : ((s.sendLater c p).req p).streams cfg = true := by
          rw [hreq]
          simp only [BiusRequest.streams, Bool.and_eq_true, decide_eq_true_eq, Bool.not_eq_true']
          exact ⟨⟨hwrite, hdata.2⟩, hunmapped⟩
        refine ⟨?_, ?_, fun _ => ?_, ?_, ?_, ?_, (s.req p).mapType, (s.req p).length, (s.req p).mappedSize, hreq⟩
        · rw [hreq]
          exact ⟨fun _ => ⟨hlen, hmax⟩, fun _ hw => absurd hwrite (by rw [hw]; decide),
            fun _ => ⟨fun _ => hunmapped, fun _ => hf.unmapped hblk⟩⟩
        · rw [sendingOf, hstreams]
          simp [Kernel.sendLater]
        · rw [hreq]
          exact ⟨Nat.zero_le _, rfl, by rw [List.drop_zero]; exact congrArg chainBytes (hf.whole hblk)⟩
        all_goals simp [Kernel.sendLater]
      · next hwrite =>
        cases h
        refine ⟨⟨fun _ => ⟨hlen, hmax⟩, fun _ _ => hf.whole hblk,
          fun _ => ⟨fun _ => hunmapped, fun _ => hf.unmapped hblk⟩⟩, ?_, ?_, rfl, rfl, rfl, _, _, _, rfl⟩
        · simp [sendingOf, BiusRequest.streams, hwrite, hs]
        · simp [BiusRequest.streams, hwrite]
  · next hdata =>
    cases h
    simp only [Bool.and_eq_true, decide_eq_true_eq, not_and, Nat.not_lt, Nat.le_zero] at hdata
    have hnot : (s.req p).isMapped cfg = false := by
      cases hd : requestMayHaveData (s.req p).type with
      | false => simp [BiusRequest.isMapped, hd]
      | true => simp [BiusRequest.isMapped, hdata hd]
    have hstreams : (s.req p).streams cfg = false := by
      cases hw : requestIsWrite (s.req p).type with
      | false => simp [BiusRequest.streams, hw]
      | true => simp [BiusRequest.streams, hdata (requestMayHaveData_of_isWrite hw)]
    refine ⟨⟨hf.data, fun hb _ => hf.whole hb, fun hb => ⟨fun _ => hnot, fun _ => hf.unmapped hb⟩⟩, ?_,
      ?_, rfl, rfl, rfl, _, _, _, rfl⟩
    · rw [sendingOf, hstreams, hs]
      rfl
    · simp [hstreams]

end

/-! ## One connection -/

/-- A connection that commands can be sent to. -/
structure Connection.Ready (cfg : Config) (x : Connection) : Prop where
  attached : x.attached = true
  window : cfg.datamap = true → ∃ vmStart, x.vma = some vmStart

/-- The command of a request on the connection. -/
def Connection.command (cfg : Config) (x : Connection) (r : BiusRequest) : K2u :=
  k2uHeader cfg.datamap (x.vma.getD 0) r

theorem BiusRequest.SentTo.ready {cfg : Config} {r : BiusRequest} {n : Nat} (h : r.SentTo n) (ho : r.Offered cfg)
    (hst : r.streams cfg = true) :
    r.mapType = .unmapped ∧ r.mapData = (chainBytes r.bio).length ∧ r.mapData < 2 ^ 64 := by
  obtain ⟨hwrite, -, hmapped⟩ := BiusRequest.streams_iff.1 hst
  have hd := requestMayHaveData_of_isWrite hwrite
  obtain ⟨hlen, hmax⟩ := ho.data hd
  refine ⟨(ho.mapType (isBlkRequest_of_mayHaveData hd)).2 hmapped, ?_, ?_⟩
  · rw [h.left, h.rest, List.length_drop, hlen]
  · simp only [biusMaxSizePerCommand] at hmax
    rw [h.left]
    omega

@[simp] theorem copyInHeader_id (buffer : Nat) (k2u : K2u) : (copyInHeader buffer k2u).id = k2u.id := by
  unfold copyInHeader
  split <;> rfl

@[simp] theorem copyInHeader_opcode (buffer : Nat) (k2u : K2u) : (copyInHeader buffer k2u).opcode = k2u.opcode := by
  unfold copyInHeader
  split <;> rfl

@[simp] theorem copyInHeader_length (buffer : Nat) (k2u : K2u) : (copyInHeader buffer k2u).length = k2u.length := by
  unfold copyInHeader
  split <;> rfl

section
variable (cfg : Config) (x : Connection) (r : BiusRequest)

@[simp] theorem Connection.command_id : (x.command cfg r).id = r.id := by
  unfold Connection.command k2uHeader
  dsimp only
  split <;> rfl

@[simp] theorem Connection.command_opcode : (x.command cfg r).opcode = r.type := by
  unfold Connection.command k2uHeader
  dsimp only
  split <;> rfl

@[simp] theorem Connection.command_length : (x.command cfg r).length = r.length := by
  unfold Connection.command k2uHeader
  dsimp only
  split <;> rfl

end

/-- The command of a data request says whether the request is mapped. -/
theorem BiusRequest.Offered.command_mapType {cfg : Config} {r : BiusRequest} (h : r.Offered cfg) (x : Connection)
    (hd : requestMayHaveData r.type = true) :
    (x.command cfg r).dataMapType = .unmapped ↔ r.isMapped cfg = false := by
  have hblk := isBlkRequest_of_mayHaveData hd
  rw [← h.mapType hblk]
  unfold Connection.command k2uHeader
  dsimp only
  split
  · rfl
  · next hnot =>
    refine ⟨fun _ => ?_, fun _ => rfl⟩
    by_contra hm
    have hmapped : r.isMapped cfg = true := by
      cases hmap : r.isMapped cfg with
      | true => rfl
      | false => exact absurd ((h.mapType hblk).2 hmap) hm
    simp only [BiusRequest.isMapped, Bool.and_eq_true] at hmapped
    exact hnot (by simp [hmapped.1.1, hblk, hm])

theorem BiusRequest.Offered.copyInReads {cfg : Config} {r : BiusRequest} (h : r.Offered cfg) (x : Connection) :
    Bius.copyInReads (x.command cfg r) = (requestIsWrite r.type && !r.isMapped cfg) := by
  unfold Bius.copyInReads
  rw [Connection.command_opcode]
  cases hw : requestIsWrite r.type with
  | false => simp
  | true =>
    have hd := requestMayHaveData_of_isWrite hw
    rw [hd, Bool.true_and, Bool.and_true, Bool.true_and, Bool.eq_iff_iff, beq_iff_eq, h.command_mapType x hd,
      Bool.not_eq_true']

/-- A reply to the request that can be served. -/
structure U2k.Answers (cfg : Config) (buffer : Nat) (r : BiusRequest) (u2k : U2k) : Prop where
  id : u2k.id = r.id
  data : r.type = .read → r.isMapped cfg = false → u2k.userData = buffer

/-- The two ends of connection `c` agree. For each point of the loop, with the call it is
    in: what is in the waiting list, what is still to be sent, and which request the
    command is of. -/
inductive Framed (cfg : Config) (buffer c : Nat) (req : Ptr → BiusRequest) (x : Connection) (k2u : K2u) (u2k : U2k) :
    Point → Call → Prop where
  | starting : x.waiting = [] → x.sending = none → Framed cfg buffer c req x k2u u2k .starting .idle
  | mapping : x.attached = true → x.waiting = [] → x.sending = none →
    Framed cfg buffer c req x k2u u2k .mapping .idle
  | reading : x.Ready cfg → x.waiting = [] → x.sending = none → Framed cfg buffer c req x k2u u2k .reading .idle
  | looking : x.Ready cfg → x.waiting = [] → x.sending = none →
    Framed cfg buffer c req x k2u u2k .reading (.readWait c)
  | taken (p : Ptr) (r : BiusRequest) : req p = r → x.Ready cfg → x.waiting = [] → x.sending = sendingOf cfg r p →
      r.Offered cfg → (r.streams cfg = true → r.SentTo 0) →
        Framed cfg buffer c req x k2u u2k .reading (.readTaken c p)
  | header (p : Ptr) (r : BiusRequest) : req p = r → x.Ready cfg → x.waiting = [p] →
    x.sending = sendingOf cfg r p →
      r.Offered cfg → (r.streams cfg = true → r.SentTo 0) →
      Framed cfg buffer c req x k2u u2k .reading (.done (.header (x.command cfg r) sizeofK2u))
  | copyIn (p : Ptr) (r : BiusRequest) (n : Nat) : req p = r → x.Ready cfg → x.waiting = [p] → x.sending = some p →
      r.Offered cfg → r.streams cfg = true → n < r.length → r.SentTo n →
        k2u = copyInHeader buffer (x.command cfg r) →
      Framed cfg buffer c req x k2u u2k (.copyIn n) .idle
  | chunk (p : Ptr) (r : BiusRequest) (n : Nat) (bytes : List UInt8) : req p = r → x.Ready cfg → x.waiting = [p] →
      x.sending = (if n + bytes.length < r.length then some p else none) → r.Offered cfg → r.streams cfg = true →
      r.SentTo (n + bytes.length) → 0 < bytes.length → bytes = ((chainBytes r.rq).drop n).take bytes.length →
      k2u = copyInHeader buffer (x.command cfg r) →
      Framed cfg buffer c req x k2u u2k (.copyIn n) (.done (.payload bytes))
  | handling (p : Ptr) (r : BiusRequest) : req p = r → x.Ready cfg → x.waiting = [p] → x.sending = none →
      r.Offered cfg → k2u = copyInHeader buffer (x.command cfg r) → Framed cfg buffer c req x k2u u2k .handling .idle
  | replying (p : Ptr) (r : BiusRequest) : req p = r → x.Ready cfg → x.waiting = [p] → x.sending = none →
      r.Offered cfg → u2k.Answers cfg buffer r → Framed cfg buffer c req x k2u u2k .writing .idle
  | replied (p : Ptr) (r : BiusRequest) : req p = r → x.Ready cfg → x.waiting = [] → x.sending = none →
      r.Offered cfg → u2k.Answers cfg buffer r →
      Framed cfg buffer c req x k2u u2k .writing (.replied c p u2k sizeofU2k)
  | written : x.Ready cfg → x.waiting = [] → x.sending = none →
      Framed cfg buffer c req x k2u u2k .writing (.done (.value sizeofU2k))

section
variable {cfg : Config} {buffer c : Nat} {req req' : Ptr → BiusRequest} {x : Connection} {k2u : K2u} {u2k : U2k}
  {point : Point} {call : Call}

theorem Framed.congr (h : Framed cfg buffer c req x k2u u2k point call)
    (hreq : ∀ p, p ∈ x.waiting ∨ call = .readTaken c p ∨ (∃ header n, call = .replied c p header n) →
      req' p = req p) :
    Framed cfg buffer c req' x k2u u2k point call := by
  cases h with
  | starting hw hs => exact .starting hw hs
  | mapping ha hw hs => exact .mapping ha hw hs
  | reading hr hw hs => exact .reading hr hw hs
  | looking hr hw hs => exact .looking hr hw hs
  | taken p r hp hr hw hs ho hst =>
    exact .taken p r ((hreq p (Or.inr (Or.inl rfl))).trans hp) hr hw hs ho hst
  | header p r hp hr hw hs ho hst =>
    exact .header p r ((hreq p (Or.inl (by simp [hw]))).trans hp) hr hw hs ho hst
  | copyIn p r n hp hr hw hs ho hst hn hsent hk =>
    exact .copyIn p r n ((hreq p (Or.inl (by simp [hw]))).trans hp) hr hw hs ho hst hn hsent hk
  | chunk p r n bytes hp hr hw hs ho hst hsent hpos hb hk =>
    exact .chunk p r n bytes ((hreq p (Or.inl (by simp [hw]))).trans hp) hr hw hs ho hst hsent hpos hb hk
  | handling p r hp hr hw hs ho hk =>
    exact .handling p r ((hreq p (Or.inl (by simp [hw]))).trans hp) hr hw hs ho hk
  | replying p r hp hr hw hs ho ha =>
    exact .replying p r ((hreq p (Or.inl (by simp [hw]))).trans hp) hr hw hs ho ha
  | replied p r hp hr hw hs ho ha =>
    exact .replied p r ((hreq p (Or.inr (Or.inr ⟨_, _, rfl⟩))).trans hp) hr hw hs ho ha
  | written hr hw hs => exact .written hr hw hs

theorem Framed.offered (h : Framed cfg buffer c req x k2u u2k point call) {p : Ptr} (hp : p ∈ x.waiting) :
    ∃ r, req p = r ∧ r.Offered cfg := by
  cases h with
  | header q r hq hr hw hs ho | copyIn q r n hq hr hw hs ho | chunk q r n bytes hq hr hw hs ho
  | handling q r hq hr hw hs ho | replying q r hq hr hw hs ho =>
    rw [hw, List.mem_singleton] at hp
    exact ⟨r, by rw [hp]; exact hq, ho⟩
  | starting hw | mapping _ hw | reading _ hw | looking _ hw | taken _ _ _ _ hw | replied _ _ _ _ hw | written _ hw =>
    rw [hw] at hp
    cases hp

theorem Framed.connection (h : Framed cfg buffer c req x k2u u2k point call) {d : Nat} (hd : call.connection = some d) :
    d = c := by
  cases h <;> cases hd <;> rfl

end

/-- Kernel and loop of connection `c` agree. -/
def Stack.FramedAt {β α : Type} (cfg : Config) (B : Backend β α) (s : Stack β) (c : Nat) : Prop :=
  Bius.Framed cfg (B.buffer c) c s.kernel.req (s.kernel.conn c) (s.loop c).k2u (s.loop c).u2k (s.loop c).point
    (s.kernel.call (.user c))

/-- They agree on every connection. -/
structure Stack.Agrees {β α : Type} (cfg : Config) (B : Backend β α) (s : Stack β) : Prop where
  placed : s.kernel.Placed
  fresh : ∀ p, s.kernel.OnTheWay p → (s.kernel.req p).Untaken
  framed : ∀ c, s.FramedAt cfg B c

/-- What the results about the library assume of the process: a reply carries the id of
    its command, and the address of the data if it is a read, and the copy buffers stay
    readable. -/
structure Backend.Honest {β α : Type} (cfg : Config) (B : Backend β α) : Prop where
  id : ∀ {c k2u u2k b res}, B.leave c k2u u2k b = some res → res.2.id = k2u.id
  data : ∀ {c k2u u2k b res}, B.leave c k2u u2k b = some res → k2u.opcode = .read → k2u.dataMapType ≠ .list →
    res.2.userData = k2u.dataAddress + k2u.mappingData
  buffers : ∀ b c, Readable (B.umem b) (B.buffer c) (dataCopyBufferSize cfg)

/-! ## The steps of one connection -/

section
variable {cfg : Config} {buffer c : Nat} {k k' : Kernel} {k2u : K2u} {u2k : U2k} {point : Point}

theorem Framed.attach (h : Framed cfg buffer c k.req (k.conn c) k2u u2k .starting (k.call (.user c)))
    (hs : step cfg k (.attach c) = some k') :
    Framed cfg buffer c k'.req (k'.conn c) k2u u2k .mapping (k'.call (.user c)) := by
  cases hs
  generalize hcall : k.call (.user c) = call at h
  cases h with
  | starting hw hse =>
    show Framed _ _ _ _ _ _ _ _ (k.call (.user c))
    rw [hcall]
    exact .mapping (by simp) (by simpa using hw) (by simpa using hse)

theorem Framed.mmap (h : Framed cfg buffer c k.req (k.conn c) k2u u2k .mapping (k.call (.user c))) {vmStart : Nat}
    (hs : step cfg k (.mmap c vmStart) = some k') :
    Framed cfg buffer c k'.req (k'.conn c) k2u u2k .reading (k'.call (.user c)) := by
  cases step_cases hs with
  | mmap c vmStart hcfg hvma =>
    generalize hcall : k.call (.user c) = call at h
    cases h with
    | mapping ha hw hse =>
      show Framed _ _ _ _ _ _ _ _ (k.call (.user c))
      rw [hcall]
      exact .reading ⟨by simpa using ha, fun _ => ⟨vmStart, by simp⟩⟩ (by simpa using hw) (by simpa using hse)

theorem Framed.read_command (h : Framed cfg buffer c k.req (k.conn c) k2u u2k .reading (k.call (.user c)))
    {cuts : List Nat} (hs : step cfg k (.readStart (.user c) c sizeofK2u cuts) = some k') :
    Framed cfg buffer c k'.req (k'.conn c) k2u u2k .reading (k'.call (.user c)) := by
  cases step_cases hs with
  | readStart t c size cuts ht hs =>
    rw [ht] at h
    cases h with
    | reading hr hw hse =>
      rw [Kernel.readStart, hr.attached, hse] at hs
      simp only [Bool.not_true, Bool.false_eq_true, if_false, Nat.lt_irrefl, Option.some.injEq] at hs
      subst hs
      simpa using Framed.looking hr hw hse

/-- A `read` of `handle_copy_in` returns the next bytes of the payload. -/
theorem Framed.read_payload {n : Nat}
    (h : Framed cfg buffer c k.req (k.conn c) k2u u2k (.copyIn n) (k.call (.user c))) {cuts : List Nat}
    (hs : step cfg k (.readStart (.user c) c (k2u.length - n) cuts) = some k')
    (hne : k'.call (.user c) ≠ .done (.payload [])) :
    Framed cfg buffer c k'.req (k'.conn c) k2u u2k (.copyIn n) (k'.call (.user c)) := by
  cases step_cases hs with
  | readStart t c size cuts ht hs =>
    rw [ht] at h
    cases h with
    | copyIn p r n hp hr hw hse ho hst hn hsent hk =>
      have hwrite := (BiusRequest.streams_iff.1 hst).1
      obtain ⟨hun, hleft, hsmall⟩ := hsent.ready ho hst
      obtain ⟨bio, m, hm, hbio, -, hsend⟩ := biusSendData_spec hun hleft hsmall (k2u.length - n) cuts
      rw [Kernel.readStart, hr.attached, hse] at hs
      simp only [Bool.not_true, Bool.false_eq_true, if_false, hp, hsend, Option.map_some, Option.some.injEq] at hs
      have hbytes : ((chainBytes r.bio).take m).length = m := by
        rw [List.length_take]
        omega
      have hsent' : ({ r with bio := bio, mapData := r.mapData - m } : BiusRequest).SentTo (n + m) := by
        refine ⟨?_, ?_, ?_⟩
        · have := hsent.le
          have := hsent.left
          show n + m ≤ r.length
          omega
        · show r.mapData - m = r.length - (n + m)
          rw [hsent.left]
          omega
        · show chainBytes bio = (chainBytes r.rq).drop (n + m)
          rw [hbio, hsent.rest, List.drop_drop]
      -- the pointer is reset with the last byte
      have hdone : requestIoDone { r with bio := bio, mapData := r.mapData - m } = decide (¬ n + m < r.length) := by
        have := hsent.left
        have := hsent.le
        simp only [requestIoDone, hun, bne_self_eq_false, Bool.false_eq_true, if_false]
        rw [Bool.eq_iff_iff, beq_iff_eq, decide_eq_true_eq]
        omega
      have hk' : k'.req p = { r with bio := bio, mapData := r.mapData - m } ∧
          k'.conn c = { k.conn c with sending := if n + m < r.length then some p else none } ∧
          k'.call (.user c) = .done (.payload ((chainBytes r.bio).take m)) := by
        rw [← hs, hdone]
        by_cases hmore : n + m < r.length
        · simp [hmore, ← hse]
        · simp [hmore]
      obtain ⟨hreq, hconn, hcall⟩ := hk'
      rw [hcall] at hne ⊢
      rw [hconn]
      have hmpos : 0 < m := by
        refine Nat.pos_of_ne_zero (fun h0 => hne ?_)
        rw [h0, List.take_zero]
      refine .chunk p _ n _ hreq ⟨hr.attached, hr.window⟩ hw ?_ ⟨ho.data, ?_, ho.mapType⟩ ?_ ?_ ?_ ?_ ?_
      · rw [hbytes]
      · intro _ hw'
        exact absurd hwrite (by rw [show requestIsWrite r.type = false from hw']; decide)
      · exact hst
      · rw [hbytes]
        exact hsent'
      · omega
      · rw [hbytes, hsent.rest]
      · rw [hk, Connection.command, Connection.command, k2uHeader_unmapped hun,
          k2uHeader_unmapped (r := { r with bio := bio, mapData := r.mapData - m }) hun]

end

section
variable {cfg : Config} {buffer c : Nat} {k k' : Kernel} {k2u : K2u} {u2k : U2k} {point : Point}

theorem Framed.take (h : Framed cfg buffer c k.req (k.conn c) k2u u2k point (k.call (.user c)))
    (hf : ∀ p, k.OnTheWay p → (k.req p).Untaken) (hs : step cfg k (.readTake (.user c)) = some k') :
    Framed cfg buffer c k'.req (k'.conn c) k2u u2k point (k'.call (.user c)) := by
  cases step_cases hs with
  | readTake t d p ps ht hps hs =>
    rw [ht] at h
    cases h with
    | looking hr hw hse =>
      have hcall := (prepare_frame hs).2.2
      obtain ⟨ho, hse', hst, hw', ha, hv, -⟩ := prepare_offered (by exact hf p (Or.inl (by simp [hps])))
        (by exact hse) hs
      rw [hcall]
      dsimp only
      rw [Function.update_self]
      exact .taken p _ rfl ⟨ha.trans hr.attached, fun hc => by rw [hv]; exact hr.window hc⟩ (hw'.trans hw) hse' ho hst

theorem Framed.send (h : Framed cfg buffer c k.req (k.conn c) k2u u2k point (k.call (.user c)))
    (hs : step cfg k (.readSend (.user c) sizeofK2u) = some k') :
    Framed cfg buffer c k'.req (k'.conn c) k2u u2k point (k'.call (.user c)) := by
  cases step_cases hs with
  | readSend t d p n ht =>
    rw [ht] at h
    cases h with
    | taken p r hp hr hw hse ho hst =>
      rw [Kernel.readSend, if_neg (by decide)]
      simp only [Kernel.setCall_conn, Kernel.setConn_conn, Kernel.setCall_call, Function.update_self, Nat.min_self, hp]
      exact .header p r hp ⟨hr.attached, hr.window⟩ (by simp [hw]) hse ho hst

theorem Framed.command {β α : Type} (B : Backend β α) {l : Loop} {b : β} {r : Ret} {x : Connection}
    {req : Ptr → BiusRequest} (h : Framed cfg (B.buffer c) c req x l.k2u l.u2k .reading (.done r))
    (hl : l.point = .reading) :
    Framed cfg (B.buffer c) c req x (l.readReturned B c r b).1.k2u (l.readReturned B c r b).1.u2k
      (l.readReturned B c r b).1.point .idle := by
  cases h with
  | header p r hp hr hw hse ho hst =>
    have hreads := ho.copyInReads x
    simp only [Loop.readReturned, hl, Nat.lt_irrefl, if_false, Loop.command, hreads]
    split
    · next hread =>
      simp only [Bool.and_eq_true, Bool.not_eq_true'] at hread
      simp only [Loop.copyInFrom, copyInHeader_length, Connection.command_length]
      split
      · next hpos =>
        have hst' : r.streams cfg = true := BiusRequest.streams_iff.2 ⟨hread.1, hpos, hread.2⟩
        rw [sendingOf, hst'] at hse
        exact .copyIn p r 0 hp hr hw hse ho hst' hpos (hst hst') rfl
      · next hpos =>
        -- an empty write has no payload
        have hst' : r.streams cfg = false := by simp [BiusRequest.streams, hpos]
        rw [sendingOf, hst'] at hse
        exact .handling p r hp hr hw hse ho rfl
    · next hread =>
      have hst' : r.streams cfg = false := by
        cases hw : requestIsWrite r.type <;> simp_all [BiusRequest.streams]
      rw [sendingOf, hst'] at hse
      exact .handling p r hp hr hw hse ho rfl

theorem Framed.copied {β α : Type} (B : Backend β α) {l : Loop} {b : β} {r : Ret} {x : Connection} {n : Nat}
    {req : Ptr → BiusRequest} (h : Framed cfg (B.buffer c) c req x l.k2u l.u2k (.copyIn n) (.done r))
    (hl : l.point = .copyIn n) :
    Framed cfg (B.buffer c) c req x (l.readReturned B c r b).1.k2u (l.readReturned B c r b).1.u2k
      (l.readReturned B c r b).1.point .idle := by
  cases h with
  | chunk p r n bytes hp hr hw hse ho hst hsent hpos hb hk =>
    have hlen : l.k2u.length = r.length := by rw [hk]; simp
    simp only [Loop.readReturned, hl, Nat.ne_of_gt hpos, if_false, Loop.copyInFrom, hlen]
    split
    · next hmore =>
      rw [if_pos hmore] at hse
      exact .copyIn p r _ hp hr hw hse ho hst hmore hsent hk
    · next hmore =>
      rw [if_neg hmore] at hse
      exact .handling p r hp hr hw hse ho hk

theorem Framed.reply {β α : Type} {B : Backend β α} (hB : B.Honest cfg) {l : Loop} {b : β} {x : Connection}
    {call : Call} {req : Ptr → BiusRequest} (h : Framed cfg (B.buffer c) c req x l.k2u l.u2k .handling call)
    {res : β × U2k} (hres : B.leave c l.k2u l.u2k b = some res) :
    Framed cfg (B.buffer c) c req x l.k2u res.2 .writing call := by
  cases h with
  | handling p r hp hr hw hse ho hk =>
    refine .replying p r hp hr hw hse ho ⟨?_, fun htype hmap => ?_⟩
    · rw [hB.id hres, hk]
      simp
    · have hd : requestMayHaveData r.type = true := by rw [htype]; rfl
      have hun := (ho.command_mapType x hd).2 hmap
      have hcopy : l.k2u =
          { x.command cfg r with dataMapType := .simple, dataAddress := B.buffer c, mappingData := 0 } := by
        rw [hk, copyInHeader, if_pos (by simp [hd, hun])]
      rw [hB.data hres (by rw [hk]; simp [htype]) (by rw [hcopy]; simp), hcopy, Nat.add_zero]

theorem Framed.write (h : Framed cfg buffer c k.req (k.conn c) k2u u2k .writing (k.call (.user c)))
    (hs : step cfg k (.writeStart (.user c) c sizeofU2k sizeofU2k u2k) = some k') :
    Framed cfg buffer c k'.req (k'.conn c) k2u u2k .writing (k'.call (.user c)) := by
  cases step_cases hs with
  | writeStart t c size n header ht hatt =>
    rw [ht] at h
    cases h with
    | replying p r hp hr hw hse ho ha =>
      have hfind : k.getRequestById (k.conn c).waiting u2k.id = some p := by
        simp [Kernel.getRequestById, hw, hp, ha.id]
      rw [Kernel.writeStart, if_neg (Nat.lt_irrefl _), if_neg (by decide), hfind]
      simp only [Kernel.setCall_conn, Kernel.setConn_conn, Kernel.setCall_call, Function.update_self, Nat.min_self]
      exact .replied p r hp ⟨hr.attached, hr.window⟩ (by simp [hw]) (by simp [hse]) ho ha

theorem Framed.writeReturned {β α : Type} (B : Backend β α) {l : Loop} {b : β} {r : Ret} {x : Connection}
    {req : Ptr → BiusRequest} (h : Framed cfg (B.buffer c) c req x l.k2u l.u2k .writing (.done r)) :
    Framed cfg (B.buffer c) c req x (l.writeReturned B r b).1.k2u (l.writeReturned B r b).1.u2k
      (l.writeReturned B r b).1.point .idle := by
  cases h with
  | written hr hw hse =>
    simp only [Loop.writeReturned]
    rw [if_neg (by simp)]
    exact .reading hr hw hse

end

section
variable {cfg : Config} {s s' : Kernel} {t : Tid} {c : Nat} {p : Ptr} {header : U2k} {n : Nat}

/-- What a completed reply leaves of its connection. -/
structure Connection.Same (x x' : Connection) : Prop where
  attached : x'.attached = x.attached
  waiting : x'.waiting = x.waiting
  sending : x'.sending = x.sending
  vma : x'.vma = x.vma

theorem Connection.Same.refl (x : Connection) : x.Same x := ⟨rfl, rfl, rfl, rfl⟩

theorem finishBlk_returns (h : s.finishBlk cfg t c p header n = some s') :
    s'.call t = .done (.value n) ∧ (s.conn c).Same (s'.conn c) := by
  have hfin : ∀ s₁ : Kernel, (Kernel.setCall (Kernel.endBlkRequest (if (s₁.req p).type = .zoneAppend then
      s₁.setReq p { s₁.req p with pos := toInt64 header.userData } else s₁) p header.reply) t
      (.done (.value n))).conn = s₁.conn := by
    intro s₁
    split <;> rfl
  unfold Kernel.finishBlk at h
  dsimp only at h
  split at h
  · rw [Option.map_eq_some_iff] at h
    obtain ⟨vmStart, -, rfl⟩ := h
    rw [hfin]
    refine ⟨by simp, ?_⟩
    constructor <;> simp
  · cases h
    rw [hfin]
    exact ⟨by simp, .refl _⟩

/-- A `bius_dev_write` that can read the data it is given takes the whole header. -/
theorem writeEnd_returns {umem : UMem} (h : s.writeEnd cfg t c p header n umem = some s')
    (hread : (s.req p).type = .read → (cfg.datamap = true → (s.req p).length ≤ biusMapDataThreshold) →
      ¬ (biusReceiveData (s.req p) umem header.userData).2 < 0) :
    s'.call t = .done (.value n) ∧ (s.conn c).Same (s'.conn c) := by
  unfold Kernel.writeEnd at h
  dsimp only at h
  split at h
  · split at h
    · next hok =>
      split at h
      · next hneg => exact absurd hneg (hread hok.2.1 hok.2.2)
      · obtain ⟨hcall, hsame⟩ := finishBlk_returns h
        exact ⟨hcall, hsame⟩
    · exact finishBlk_returns h
  · split at h
    · cases h
      exact ⟨by simp, .refl _⟩
    · split at h
      · cases h
        exact ⟨by simp, .refl _⟩
      · cases h
        exact ⟨by simp, .refl _⟩

end

theorem BiusRequest.Offered.length_le {cfg : Config} {r : BiusRequest} (h : r.Offered cfg)
    (hd : requestMayHaveData r.type = true) (hm : r.isMapped cfg = false) : r.length ≤ dataCopyBufferSize cfg := by
  have hmax := (h.data hd).2
  unfold dataCopyBufferSize
  split
  · next hcfg => simpa [BiusRequest.isMapped, hd, hcfg] using hm
  · exact hmax

theorem BiusRequest.Offered.received {cfg : Config} {r : BiusRequest} (ho : r.Offered cfg) {buffer : Nat} {u2k : U2k}
    (ha : u2k.Answers cfg buffer r) (htype : r.type = .read) (hmap : r.isMapped cfg = false) {umem : UMem}
    (hmem : Readable umem buffer (dataCopyBufferSize cfg)) : ¬ (biusReceiveData r umem u2k.userData).2 < 0 := by
  have hd : requestMayHaveData r.type = true := by rw [htype]; rfl
  have hle := ho.length_le hd hmap
  have hun := (ho.mapType (isBlkRequest_of_mayHaveData hd)).2 hmap
  rw [ha.data htype hmap]
  by_cases hbio : r.bio = []
  · simp [biusReceiveData, hbio]
  · have hok : Readable umem buffer (chainBytes r.rq).length := by
      intro i hi
      rw [← (ho.data hd).1] at hi
      exact hmem i (by omega)
    rw [(biusReceiveData_ok_iff hbio hun umem buffer).2 hok]
    decide

section
variable {cfg : Config} {buffer c : Nat} {k k' : Kernel} {k2u : K2u} {u2k : U2k} {point : Point}

theorem Framed.writeEnd (h : Framed cfg buffer c k.req (k.conn c) k2u u2k point (k.call (.user c))) {umem : UMem}
    (hmem : Readable umem buffer (dataCopyBufferSize cfg)) (hs : step cfg k (.writeEnd (.user c) umem) = some k') :
    Framed cfg buffer c k'.req (k'.conn c) k2u u2k point (k'.call (.user c)) := by
  cases step_cases hs with
  | writeEnd t d p header n umem ht hs =>
    rw [ht] at h
    cases h with
    | replied p r hp hr hw hse ho ha =>
      have hread : r.type = .read → (cfg.datamap = true → r.length ≤ biusMapDataThreshold) →
          ¬ (biusReceiveData r umem u2k.userData).2 < 0 := by
        intro htype hlen
        have hd : requestMayHaveData r.type = true := by rw [htype]; rfl
        exact ho.received ha htype (by simpa [BiusRequest.isMapped, hd] using hlen) hmem
      subst hp
      obtain ⟨hcall, hsame⟩ := writeEnd_returns hs hread
      rw [hcall]
      exact .written ⟨hsame.attached.trans hr.attached, fun hc => by rw [hsame.vma]; exact hr.window hc⟩
        (hsame.waiting.trans hw) (hsame.sending.trans hse)

end

end Bius
