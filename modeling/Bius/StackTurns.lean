import Bius.FramingRuns

/- What the steps of the whole mean for a request. A request that a loop has in hand
   (`Stack.At`) is copied in, handed to the backend, answered and ended; `Turn` lists what
   one step can do to it, and that everything else stays as it is. The other fields of a
   request, the lists and the calls in progress no longer appear: `Agrees.turn` reads every
   step of the machine as a turn. -/
namespace Bius

/-! ## In the kernel module -/

/-- The same request, whatever of its payload has been sent. -/
structure BiusRequest.Alike (r r' : BiusRequest) : Prop where
  id : r'.id = r.id
  type : r'.type = r.type
  pos : r'.pos = r.pos
  length : r'.length = r.length
  rq : r'.rq = r.rq

theorem BiusRequest.Alike.refl (r : BiusRequest) : r.Alike r := ⟨rfl, rfl, rfl, rfl, rfl⟩

/-- The steps that neither submit nor end a request. -/
def Act.Carries : Act → Prop
  | .queueRq _ _ _ | .reportZones _ _ _ _ _ | .writeEnd _ _ | .zonesWake _ _ _ => False
  | .readSend _ n => n ≠ 0
  | _ => True

section
variable {cfg : Config} {s s' : Kernel}

theorem setReq_alike {p : Ptr} {r : BiusRequest} (h : (s.req p).Alike r) (q : Ptr) :
    (s.req q).Alike ((s.setReq p r).req q) := by
  by_cases hq : q = p
  · rw [hq]
    simpa using h
  · rw [Kernel.setReq_req, Function.update_of_ne hq]
    exact .refl _

theorem readStart_alike {t : Tid} {c size : Nat} {cuts : List Nat} (h : s.readStart t c size cuts = some s') (q : Ptr) :
    (s.req q).Alike (s'.req q) := by
  unfold Kernel.readStart at h
  split at h
  · cases h
    exact .refl _
  · split at h
    · rw [Option.map_eq_some_iff] at h
      obtain ⟨res, hres, rfl⟩ := h
      obtain ⟨bio, mapData, hr⟩ := biusSendData_keeps hres
      dsimp only
      split <;> split <;> exact setReq_alike (by rw [hr]; exact ⟨rfl, rfl, rfl, rfl, rfl⟩) q
    · split at h <;>
      · cases h
        exact .refl _

theorem prepare_alike {c : Nat} {p : Ptr} (h : s.prepare cfg c p = some s') (q : Ptr) : (s.req q).Alike (s'.req q) := by
  unfold Kernel.prepare at h
  split at h
  · split at h
    · rw [Option.map_eq_some_iff] at h
      obtain ⟨vmStart, -, rfl⟩ := h
      obtain ⟨_, _, _, hr⟩ := biusMapData_keeps (s.req p) vmStart (rqForEachSegment (s.req p).rq)
      exact setReq_alike (by rw [hr]; exact ⟨rfl, rfl, rfl, rfl, rfl⟩) q
    · split at h <;> cases h
      · exact setReq_alike (s := s) (r := { s.req p with mapData := (s.req p).length }) ⟨rfl, rfl, rfl, rfl, rfl⟩ q
      · exact .refl _
  · cases h
    exact .refl _

theorem writeStart_req (s : Kernel) (t : Tid) (c size n : Nat) (header : U2k) :
    (s.writeStart t c size n header).req = s.req := by
  rcases writeStart_cases s t c size n header with ⟨v, heq⟩ | ⟨p, -, heq⟩ <;> rw [heq] <;> rfl

theorem step_carries {act : Act} (h : step cfg s act = some s') (hc : act.Carries) :
    s'.ended = s.ended ∧ s'.busy = s.busy ∧ ∀ q, (s.req q).Alike (s'.req q) := by
  cases step_cases h with
  | queueRq | reportZones | writeEnd | zonesWake => exact absurd hc (by simp [Act.Carries])
  | attach | mmap | insert | readInterrupt | ret => exact ⟨rfl, rfl, fun q => .refl _⟩
  | readStart t c size cuts ht hs =>
    obtain ⟨hended, hbusy, -⟩ := readStart_keeps hs
    exact ⟨hended, hbusy, readStart_alike hs⟩
  | readTake t c p ps ht hps hs =>
    obtain ⟨hended, hbusy, -⟩ := prepare_keeps hs
    exact ⟨hended, hbusy, fun q => prepare_alike (s := { s with pending := ps, taken := _, call := _ }) hs q⟩
  | readSend t c p n ht =>
    unfold Kernel.readSend
    rw [if_neg (show n ≠ 0 from hc)]
    exact ⟨rfl, rfl, fun q => .refl _⟩
  | writeStart t c size n header ht hatt =>
    obtain ⟨hended, hbusy, -⟩ := writeStart_keeps s t c size n header
    refine ⟨hended, hbusy, fun q => ?_⟩
    rw [writeStart_req]
    exact .refl _

end

/-- A block request when it is ended by a reply that could be served. -/
def BiusRequest.finished (r : BiusRequest) (umem : UMem) (header : U2k) : BiusRequest :=
  let r := if header.reply = blkStsOk ∧ r.type = .read then (biusReceiveData r umem header.userData).1 else r
  { r with
    pos := if r.type = .zoneAppend then toInt64 header.userData else r.pos
    blkResult := blkStatus header.reply }

theorem receiveData_type (r : BiusRequest) (umem : UMem) (userData : Nat) :
    (biusReceiveData r umem userData).1.type = r.type := by
  obtain ⟨rq, hr⟩ := biusReceiveData_keeps r umem userData
  rw [hr]

theorem finished_keeps (r : BiusRequest) (umem : UMem) (header : U2k) : ∃ rq, r.finished umem header = { r with
      rq := rq
      pos := if r.type = .zoneAppend then toInt64 header.userData else r.pos
      blkResult := blkStatus header.reply } ∧ (r.type ≠ .read → rq = r.rq) := by
  unfold BiusRequest.finished
  split
  · next hread =>
    obtain ⟨rq, hr⟩ := biusReceiveData_keeps r umem header.userData
    rw [hr]
    exact ⟨rq, rfl, fun hnot => absurd hread.2 hnot⟩
  · exact ⟨r.rq, rfl, fun _ => rfl⟩

theorem finished_bytes {r : BiusRequest} (ho : r.Offered ⟨false⟩) (htype : r.type = .read) {umem : UMem}
    {mem : Nat → UInt8} (hmem : ∀ a, umem a = some (mem a)) {u2k : U2k} {b : Nat}
    (ha : u2k.Answers ⟨false⟩ b r) (hok : u2k.reply = blkStsOk) :
    chainBytes (r.finished umem u2k).rq = Bytes.slice mem b r.length := by
  have hd : requestMayHaveData r.type = true := by rw [htype]; rfl
  have hlen := (ho.data hd).1
  have hmap : r.isMapped ⟨false⟩ = false := by simp [BiusRequest.isMapped]
  have hun := (ho.mapType (isBlkRequest_of_mayHaveData hd)).2 hmap
  unfold BiusRequest.finished
  rw [if_pos ⟨hok, htype⟩, ha.data htype hmap]
  by_cases hbio : r.bio = []
  · have hrq : r.rq = [] := by rw [← ho.whole (isBlkRequest_of_mayHaveData hd) (by rw [htype]; rfl), hbio]
    rw [hlen, hrq, chainBytes_nil]
    simp [biusReceiveData, hbio, hrq]
  · have hreadable : Readable umem b (chainBytes r.rq).length := fun i _ => by rw [hmem]; rfl
    rw [biusReceiveData_bytes hbio hun umem b ((biusReceiveData_ok_iff hbio hun umem b).2 hreadable), ← hlen]
    exact Bytes.slice_congr (fun x _ _ => by rw [hmem]; rfl)

section
variable {s s' : Kernel} {t : Tid} {c : Nat} {p : Ptr} {header : U2k} {n : Nat} {umem : UMem}

theorem endBlk_finish (hb : isBlkRequest (s.req p).type = true) (result : Int) :
    (s.endBlkRequest p result).ended = s.ended ++ [{ s.req p with blkResult := blkStatus result }] ∧
    (s.endBlkRequest p result).busy = Function.update s.busy p false ∧
    (s.endBlkRequest p result).req = Function.update s.req p { s.req p with blkResult := blkStatus result } := by
  unfold Kernel.endBlkRequest
  refine ⟨by simp, funext fun q => ?_, funext fun q => ?_⟩
  · simp only [Kernel.onRequestEnd_busy, Kernel.setReq_req, Function.update_self, hb, if_true]
    rfl
  · simp [hb]

theorem finishBlk_default (hb : isBlkRequest (s.req p).type = true)
    (h : s.finishBlk ⟨false⟩ t c p header n = some s') :
    s'.ended = s.ended ++ [s'.req p] ∧ s'.busy = Function.update s.busy p false ∧
    s'.req = Function.update s.req p { s.req p with
      pos := if (s.req p).type = .zoneAppend then toInt64 header.userData else (s.req p).pos
      blkResult := blkStatus header.reply } := by
  unfold Kernel.finishBlk at h
  simp only [Bool.false_eq_true, if_false, Option.some.injEq] at h
  subst h
  by_cases happ : (s.req p).type = .zoneAppend
  · rw [if_pos happ]
    obtain ⟨hended, hbusy, hreq⟩ := endBlk_finish (s := s.setReq p { s.req p with pos := toInt64 header.userData })
      (p := p) (by simpa using hb) header.reply
    refine ⟨?_, hbusy, ?_⟩
    · apply hended.trans
      show _ = s.ended ++ [Kernel.req (Kernel.endBlkRequest _ _ _) p]
      rw [hreq]
      simp
    · refine hreq.trans (funext fun q => ?_)
      by_cases hq : q = p
      · simp [hq, happ]
      · simp [hq]
  · rw [if_neg happ]
    obtain ⟨hended, hbusy, hreq⟩ := endBlk_finish hb header.reply
    refine ⟨?_, hbusy, ?_⟩
    · apply hended.trans
      show _ = s.ended ++ [Kernel.req (Kernel.endBlkRequest _ _ _) p]
      rw [hreq]
      simp
    · apply hreq.trans
      simp [happ]

theorem writeEnd_finished (hb : isBlkRequest (s.req p).type = true)
    (hread : (s.req p).type = .read → ¬ (biusReceiveData (s.req p) umem header.userData).2 < 0)
    (h : s.writeEnd ⟨false⟩ t c p header n umem = some s') :
    s'.ended = s.ended ++ [s'.req p] ∧ s'.busy = Function.update s.busy p false ∧
    s'.req = Function.update s.req p ((s.req p).finished umem header) := by
  unfold Kernel.writeEnd at h
  rw [if_pos hb] at h
  split at h
  · next hok =>
    have hok' : header.reply = blkStsOk ∧ (s.req p).type = .read := ⟨hok.1, hok.2.1⟩
    dsimp only at h
    split at h
    · next hneg => exact absurd hneg (hread hok.2.1)
    · have hreq : (s.setReq p (biusReceiveData (s.req p) umem header.userData).1).req p =
          (biusReceiveData (s.req p) umem header.userData).1 := by simp
      obtain ⟨hended, hbusy, hreq'⟩ := finishBlk_default (by rw [hreq, receiveData_type]; exact hb) h
      refine ⟨hended, hbusy, ?_⟩
      rw [hreq', hreq, BiusRequest.finished, if_pos hok']
      exact Function.update_idem _ _ _
  · next hnot =>
    have hnot' : ¬ (header.reply = blkStsOk ∧ (s.req p).type = .read) :=
      fun hok => hnot ⟨hok.1, hok.2, fun hc => by cases hc⟩
    obtain ⟨hended, hbusy, hreq'⟩ := finishBlk_default hb h
    refine ⟨hended, hbusy, ?_⟩
    rw [hreq', BiusRequest.finished, if_neg hnot']

end

/-! ## Turns -/

section
variable {β α : Type}

/-- The loop of `c` has the request `p` in hand. -/
structure Stack.At (s : Stack β) (c : Nat) (p : Ptr) (point : Point) : Prop where
  place : (s.loop c).point = point
  handed : point ≠ .reading
  held : p ∈ (s.kernel.conn c).waiting ∨ ∃ header n, s.kernel.call (.user c) = .replied c p header n

/-- What a loop has in hand does not depend on the process. -/
theorem Stack.at_proc {s : Stack β} {b : β} {c : Nat} {p : Ptr} {point : Point} :
    Stack.At { s with proc := b } c p point ↔ s.At c p point :=
  ⟨fun hp => ⟨hp.place, hp.handed, hp.held⟩, fun hp => ⟨hp.place, hp.handed, hp.held⟩⟩

/-- What the loops other than that of `c` have in hand, they had before. -/
def Stack.Others (s s' : Stack β) (c : Nat) : Prop :=
  ∀ d, d ≠ c → ∀ q point, s'.At d q point → s.At d q point ∧ s'.loop d = s.loop d

/-- The same requests in flight. -/
structure Stack.Kept (s s' : Stack β) : Prop where
  req : ∀ q, (s.kernel.req q).Alike (s'.kernel.req q)
  ended : s'.kernel.ended = s.kernel.ended
  busy : s'.kernel.busy = s.kernel.busy

/-- `b` is the process when `n` bytes of the payload of `p` have arrived in the copy buffer
    of `c`, the last of them in this step. -/
def Stack.Filled (B : Backend β α) (s : Stack β) (c : Nat) (p : Ptr) (n : Nat) (b : β) : Prop :=
  n = 0 ∧ b = s.proc ∨
    ∃ m bytes, s.At c p (.copyIn m) ∧ n = m + bytes.length ∧
      bytes = ((chainBytes (s.kernel.req p).rq).drop m).take bytes.length ∧
      b = B.store s.proc (B.buffer c + m) bytes

/-- The steps that neither answer a request nor complete one. -/
def StackAct.Passes : StackAct α → Prop
  | .reply _ | .writeEnd _ => False
  | _ => True

/-- What a step means for the requests. -/
inductive Turn (B : Backend β α) (s s' : Stack β) : StackAct α → Prop where
  | quiet (act : StackAct α) : s.Kept s' → s'.proc = s.proc →
      (∀ d q point, s'.At d q point → s.At d q point ∧ s'.loop d = s.loop d) → act.Passes → Turn B s s' act
  | submitted (t : Tid) (p : Ptr) (rq : Rq) : s.kernel.busy p = false →
      s'.kernel.req = Function.update s.kernel.req p (initBlkRequest (s.kernel.req p) s.kernel.newId rq) →
      s'.kernel.busy = Function.update s.kernel.busy p true → s'.kernel.ended = s.kernel.ended → s'.proc = s.proc →
      (∀ d q point, s'.At d q point → s.At d q point ∧ s'.loop d = s.loop d) →
      Turn B s s' (.block (.queueRq t p rq))
  /-- the copy buffer holds a part of the payload -/
  | copying (act : StackAct α) (c : Nat) (p : Ptr) (n : Nat) : s.Kept s' → s.Others s' c → s.kernel.busy p = true →
      (s.kernel.req p).Offered ⟨false⟩ → (∀ q point, s'.At c q point → q = p ∧ point = .copyIn n) →
        requestIsWrite (s.kernel.req p).type = true →
      n < (s.kernel.req p).length → s.Filled B c p n s'.proc → act.Passes → Turn B s s' act
  /-- the command is handed to the backend, with its payload in the copy buffer -/
  | entered (act : StackAct α) (c : Nat) (p : Ptr) (n : Nat) (b : β) : s.Kept s' → s.Others s' c →
      s.kernel.busy p = true → (s.kernel.req p).Offered ⟨false⟩ →
      (∀ q point, s'.At c q point → q = p ∧ point = .handling) →
      n ≤ (s.kernel.req p).length → (requestIsWrite (s.kernel.req p).type = true → n = (s.kernel.req p).length) →
      s.Filled B c p n b → (s'.loop c).k2u = copyInHeader (B.buffer c) (k2uHeader false 0 (s.kernel.req p)) →
      s'.proc = B.enter c (s'.loop c).k2u b → (s.loop c).point ≠ .handling → s'.At c p .handling →
      act.Passes → Turn B s s' act
  | replied (c : Nat) (p : Ptr) : s.At c p .handling → s.Kept s' → s.Others s' c →
      (∀ q point, s'.At c q point → q = p ∧ point = .writing) →
      B.leave c (s.loop c).k2u (s.loop c).u2k s.proc = some (s'.proc, (s'.loop c).u2k) → s'.At c p .writing →
      Turn B s s' (.reply c)
  | ended (c : Nat) (p : Ptr) : s.At c p .writing → s'.proc = s.proc →
      s'.kernel.req = Function.update s.kernel.req p
        ((s.kernel.req p).finished (B.umem s.proc) (s.loop c).u2k) →
      s'.kernel.busy = Function.update s.kernel.busy p false →
      s'.kernel.ended = s.kernel.ended ++ [s'.kernel.req p] →
      (∀ d q point, s'.At d q point → q ≠ p ∧ s.At d q point ∧ s'.loop d = s.loop d) → Turn B s s'
        (.writeEnd c)
  | freed (c : Nat) : s.Kept s' → s.Others s' c → (∀ q point, ¬ s'.At c q point) →
      s'.proc = B.free (s.loop c).k2u (s.loop c).u2k s.proc → Turn B s s' (.writeReturn c)
  | process (a : α) : s.Kept s' → B.act s.proc a = some s'.proc →
      (∀ d q point, s'.At d q point → s.At d q point ∧ s'.loop d = s.loop d) → Turn B s s' (.process a)

section
variable {B : Backend β α} {s s' : Stack β}

/-- What is known of a request in hand. -/
structure Stack.InHand (B : Backend β α) (s : Stack β) (c : Nat) (p : Ptr) (point : Point) : Prop where
  offered : (s.kernel.req p).Offered ⟨false⟩
  cases : point = .handling ∨ point = .writing ∨ ∃ n, point = .copyIn n
  copyIn : ∀ n, point = .copyIn n → requestIsWrite (s.kernel.req p).type = true ∧ n < (s.kernel.req p).length
  k2u : point ≠ .writing → (s.loop c).k2u = copyInHeader (B.buffer c) (k2uHeader false 0 (s.kernel.req p))
  u2k : point = .writing → (s.loop c).u2k.Answers ⟨false⟩ (B.buffer c) (s.kernel.req p)

theorem k2uHeader_default (vmStart : Nat) (r : BiusRequest) : k2uHeader false vmStart r = k2uHeader false 0 r := by
  simp [k2uHeader]

theorem Stack.Agrees.inHand (h : s.Agrees ⟨false⟩ B) {c : Nat} {p : Ptr} {point : Point} (hat : s.At c p point) :
    s.InHand B c p point := by
  have hf := h.framed c
  unfold Stack.FramedAt at hf
  obtain ⟨hpt, hnot, hheld⟩ := hat
  generalize hcall : s.kernel.call (.user c) = call at hf hheld
  generalize hx : s.kernel.conn c = x at hf hheld
  rw [hpt] at hf
  cases hf with
  | starting hw | mapping _ hw =>
    simp [hw] at hheld
  | reading | looking | taken | header => exact absurd rfl hnot
  | copyIn q r n hq hr hw hse ho hst hn hsent hk =>
    simp only [hw, List.mem_singleton, reduceCtorEq, exists_false, or_false] at hheld
    subst hheld
    refine ⟨by rw [hq]; exact ho, Or.inr (Or.inr ⟨n, rfl⟩), fun m hm => ?_, fun _ => ?_, fun hw => (by cases hw)⟩
    · cases hm
      rw [hq]
      exact ⟨(BiusRequest.streams_iff.1 hst).1, hn⟩
    · rw [hk, hq, Connection.command, k2uHeader_default]
  | chunk q r n bytes hq hr hw hse ho hst hsent hpos hb hk =>
    simp only [hw, List.mem_singleton, reduceCtorEq, exists_false, or_false] at hheld
    subst hheld
    refine ⟨by rw [hq]; exact ho, Or.inr (Or.inr ⟨n, rfl⟩), fun m hm => ?_, fun _ => ?_, fun hw => (by cases hw)⟩
    · cases hm
      have hle := hsent.le
      rw [hq]
      exact ⟨(BiusRequest.streams_iff.1 hst).1, by omega⟩
    · rw [hk, hq, Connection.command, k2uHeader_default]
  | handling q r hq hr hw hse ho hk =>
    simp only [hw, List.mem_singleton, reduceCtorEq, exists_false, or_false] at hheld
    subst hheld
    refine ⟨by rw [hq]; exact ho, Or.inl rfl, fun m hm => (by cases hm), fun _ => ?_, fun hw => (by cases hw)⟩
    rw [hk, hq, Connection.command, k2uHeader_default]
  | replying q r hq hr hw hse ho ha =>
    simp only [hw, List.mem_singleton, reduceCtorEq, exists_false, or_false] at hheld
    subst hheld
    exact ⟨by rw [hq]; exact ho, Or.inr (Or.inl rfl), fun m hm => (by cases hm), fun hw => absurd rfl hw,
      fun _ => by rw [hq]; exact ha⟩
  | replied q r hq hr hw hse ho ha =>
    simp only [hw, List.not_mem_nil, Call.replied.injEq, true_and, false_or] at hheld
    obtain ⟨header, n, hqp, -⟩ := hheld
    subst hqp
    exact ⟨by rw [hq]; exact ho, Or.inr (Or.inl rfl), fun m hm => (by cases hm), fun hw => absurd rfl hw,
      fun _ => by rw [hq]; exact ha⟩
  | written hr hw =>
    simp [hw] at hheld

theorem Stack.Agrees.at_unique (h : s.Agrees ⟨false⟩ B) {c : Nat} {p q : Ptr} {point point' : Point}
    (hp : s.At c p point) (hq : s.At c q point') : p = q := by
  have hf := h.framed c
  unfold Stack.FramedAt at hf
  obtain ⟨-, -, hp⟩ := hp
  obtain ⟨-, -, hq⟩ := hq
  generalize s.kernel.call (.user c) = call at hf hp hq
  generalize (s.loop c).point = point at hf
  cases hf with
  | starting hw | mapping _ hw | reading _ hw | looking _ hw | written _ hw | taken _ _ _ _ hw =>
    simp [hw] at hp
  | header _ _ _ _ hw | copyIn _ _ _ _ _ hw | chunk _ _ _ _ _ _ hw | handling _ _ _ _ hw | replying _ _ _ _ hw =>
    simp only [hw, List.mem_singleton, reduceCtorEq, exists_false, or_false] at hp hq
    rw [hp, hq]
  | replied _ _ _ _ hw =>
    simp only [hw, List.not_mem_nil, Call.replied.injEq, true_and, false_or] at hp hq
    obtain ⟨_, _, hp, -⟩ := hp
    obtain ⟨_, _, hq, -⟩ := hq
    rw [← hp, ← hq]

theorem Stack.At.onConnection {c : Nat} {p : Ptr} {point : Point} (hat : s.At c p point) : s.kernel.With c p := by
  rcases hat.held with hw | ⟨header, n, hw⟩
  · exact Or.inl hw
  · exact Or.inr (Or.inr ⟨_, header, n, hw⟩)

theorem Stack.Agrees.at_busy (h : s.Agrees ⟨false⟩ B) {c : Nat} {p : Ptr} {point : Point} (hat : s.At c p point) :
    s.kernel.busy p = true := by
  obtain ⟨loc, hl⟩ := h.placed.located
  exact with_busy hl hat.onConnection

theorem Stack.Agrees.at_inj (h : s.Agrees ⟨false⟩ B) {c d : Nat} {p : Ptr} {point point' : Point} (hc : s.At c p point)
    (hd : s.At d p point') : c = d := by
  obtain ⟨loc, hl⟩ := h.placed.located
  exact with_inj hl hc.onConnection hd.onConnection

/-! ## Every step is a turn -/

/-- The block layer submits block requests that the module supports. -/
def StackAct.Orders : StackAct α → Prop
  | .block (.queueRq _ _ rq) => toBiusRequest rq.op ≠ .invalidOp
  | .block (.reportZones _ _ _ _ _) => False
  | _ => True

theorem Stack.others_of {c : Nat} {act : Act} (hst : Bius.step ⟨false⟩ s.kernel act = some s'.kernel)
    (htid : ∀ d, act.tid = some (.user d) → d = c) (hconn : ∀ d, act.connection s.kernel = some d → d = c)
    (hloop : ∀ d, d ≠ c → s'.loop d = s.loop d) : s.Others s' c := by
  intro d hd q point hat
  obtain ⟨hpt, hnot, hheld⟩ := hat
  rw [hloop d hd] at hpt
  rw [step_conn hst (fun he => hd (hconn d he)), step_call hst (fun he => hd (htid d he))] at hheld
  exact ⟨⟨hpt, hnot, hheld⟩, hloop d hd⟩

theorem Stack.kept_of {act : Act} (hst : Bius.step ⟨false⟩ s.kernel act = some s'.kernel) (hc : act.Carries) :
    s.Kept s' := by
  obtain ⟨hended, hbusy, hreq⟩ := step_carries hst hc
  exact ⟨hreq, hended, hbusy⟩

/-- Where the loop of `c` has nothing in hand afterwards, nothing happens. -/
theorem Stack.Others.quiet {c : Nat} (h : s.Others s' c) (hc : ∀ q point, ¬ s'.At c q point) :
    ∀ d q point, s'.At d q point → s.At d q point ∧ s'.loop d = s.loop d := by
  intro d q point hat
  by_cases hd : d = c
  · subst hd
    exact absurd hat (hc q point)
  · exact h d hd q point hat

theorem Stack.not_at_reading {c : Nat} (h : (s.loop c).point = .reading) (q : Ptr) (point : Point) : ¬ s.At c q point :=
  fun hat => hat.handed (hat.place.symm.trans h)

theorem Stack.kernelStep_some {act : Act} (hs : s.kernelStep ⟨false⟩ act = some s') :
    Bius.step ⟨false⟩ s.kernel act = some s'.kernel ∧ s'.loop = s.loop ∧ s'.proc = s.proc := by
  unfold Stack.kernelStep at hs
  rw [Option.map_eq_some_iff] at hs
  obtain ⟨k, hk, rfl⟩ := hs
  exact ⟨hk, rfl, rfl⟩

theorem Stack.loopStep_some {act : Act} {c : Nat} {l : Loop × β} (hs : s.loopStep ⟨false⟩ act c l = some s') :
    Bius.step ⟨false⟩ s.kernel act = some s'.kernel ∧ s'.loop = Function.update s.loop c l.1 ∧ s'.proc = l.2 := by
  unfold Stack.loopStep at hs
  rw [Option.map_eq_some_iff] at hs
  obtain ⟨k, hk, rfl⟩ := hs
  exact ⟨hk, rfl, rfl⟩

theorem Stack.others_of_loopStep {act : Act} {c : Nat} {l : Loop × β} (hs : s.loopStep ⟨false⟩ act c l = some s')
    (htid : ∀ d, act.tid = some (.user d) → d = c) (hconn : ∀ d, act.connection s.kernel = some d → d = c) :
    s.Others s' c := by
  obtain ⟨hst, hloop, -⟩ := Stack.loopStep_some hs
  refine Stack.others_of hst htid hconn (fun d hd => ?_)
  rw [hloop, Function.update_of_ne hd]

theorem Stack.others_of_same {c : Nat} (hkernel : s'.kernel = s.kernel) (hloop : ∀ d, d ≠ c → s'.loop d = s.loop d) :
    s.Others s' c := by
  intro d hd q point hat
  obtain ⟨hpt, hnot, hheld⟩ := hat
  rw [hloop d hd] at hpt
  rw [hkernel] at hheld
  exact ⟨⟨hpt, hnot, hheld⟩, hloop d hd⟩

theorem readStart_waiting {k k' : Kernel} {t : Tid} {c size : Nat} {cuts : List Nat}
    (h : k.readStart t c size cuts = some k') :
    (k'.conn c).waiting = (k.conn c).waiting ∧ ∀ d p header n, k'.call t ≠ .replied d p header n := by
  unfold Kernel.readStart at h
  split at h
  · cases h
    exact ⟨rfl, by simp⟩
  · split at h
    · rw [Option.map_eq_some_iff] at h
      obtain ⟨res, -, rfl⟩ := h
      dsimp only
      split <;> split <;> exact ⟨by simp, by simp⟩
    · split at h <;> cases h <;> exact ⟨rfl, by simp⟩

theorem Stack.Agrees.conn_of (h : s.Agrees ⟨false⟩ B) (c : Nat) :
    ∀ d, (s.kernel.call (.user c)).connection = some d → d = c :=
  fun _ hd => h.connection hd

theorem Stack.Agrees.turn_block (h : s.Agrees ⟨false⟩ B)
    (hblk : ∀ p, s.kernel.busy p = true → isBlkRequest (s.kernel.req p).type = true)
    {act : Act} (hof : act.ofBlockLayer = true) (hord : StackAct.Orders (α := α) (.block act))
    (hs : s.kernelStep ⟨false⟩ act = some s') : Turn B s s' (.block act) := by
  obtain ⟨hst, hloop, hproc⟩ := Stack.kernelStep_some hs
  -- no loop notices
  have hat : ∀ d q point, s'.At d q point → s.At d q point ∧ s'.loop d = s.loop d := by
    intro d q point hat
    obtain ⟨hpt, hnot, hheld⟩ := hat
    rw [hloop] at hpt
    have htid : act.tid ≠ some (.user d) := by
      intro ht
      unfold Act.ofBlockLayer at hof
      split at hof <;> first | cases ht | cases hof
    have hconn : act.connection s.kernel ≠ some d := by
      intro hc
      unfold Act.ofBlockLayer at hof
      split at hof <;> first | cases hc | cases hof
    rw [step_conn hst hconn, step_call hst htid] at hheld
    exact ⟨⟨hpt, hnot, hheld⟩, by rw [hloop]⟩
  have hkept : act.Carries → s.Kept s' := Stack.kept_of hst
  generalize hk : s'.kernel = k at hst
  cases step_cases hst with
  | queueRq t p rq ht hp =>
    have hsub : s.kernel.queueRq t p rq =
        s.kernel.submit t p (initBlkRequest (s.kernel.req p) s.kernel.newId rq) := by
      unfold Kernel.queueRq
      exact if_neg hord
    rw [hsub] at hk
    exact .submitted t p rq hp (by rw [hk]; rfl) (by rw [hk]; rfl) (by rw [hk]; rfl) hproc hat
  | reportZones => exact absurd hord (by simp [StackAct.Orders])
  | zonesWake t p junk cb ht hsem =>
    -- nobody waits for zones
    obtain ⟨loc, hl⟩ := h.placed.located
    have hwaits := hl.waits t p (by simp [Kernel.life, ht, Call.hold])
    have hbusy : s.kernel.busy p = true := (hl.busy p).2 hwaits.2.1
    have hzones : isBlkRequest (s.kernel.req p).type = false := hwaits.1
    rw [hblk p hbusy] at hzones
    cases hzones
  | insert t p ht => exact .quiet _ (hkept trivial) hproc hat trivial
  | ret t r ht => exact .quiet _ (hkept trivial) hproc hat trivial
  | _ => cases hof

/-- The calls of a loop that leave its variables alone, apart from the end of a reply. -/
theorem Stack.turn_inside {c : Nat} {act : Act} {a : StackAct α} (hs : s.kernelStep ⟨false⟩ act = some s')
    (htid : act.tid = some (.user c)) (hconn : ∀ d, act.connection s.kernel = some d → d = c) (hc : act.Carries)
    (hat : ∀ q point, s'.At c q point → s.At c q point) (ha : a.Passes) : Turn B s s' a := by
  obtain ⟨hst, hloop, hproc⟩ := Stack.kernelStep_some hs
  refine .quiet _ (Stack.kept_of hst hc) hproc (fun d q point hd => ?_) ha
  by_cases hdc : d = c
  · subst hdc
    exact ⟨hat q point hd, by rw [hloop]⟩
  · refine Stack.others_of hst (fun e he => ?_) hconn (fun e _ => by rw [hloop]) d hdc q point hd
    rw [htid] at he
    cases he
    rfl

/-- The loop goes on with what it has read: it waits for more, or hands the command to the
    backend. -/
theorem Stack.turn_copied {c n : Nat} {p : Ptr} {l : Loop} {b : β} {act : StackAct α} (hkept : s.Kept s')
    (hothers : s.Others s' c) (hbusy : s.kernel.busy p = true) (ho : (s.kernel.req p).Offered ⟨false⟩)
    (hheld : ∀ q point, s'.At c q point → q = p)
    (hloop : s'.loop c = (l.copyInFrom B c n b).1) (hproc : s'.proc = (l.copyInFrom B c n b).2)
    (hk2u : l.k2u = copyInHeader (B.buffer c) (k2uHeader false 0 (s.kernel.req p)))
    (hwrite : requestIsWrite (s.kernel.req p).type = true) (hn : n ≤ (s.kernel.req p).length)
    (hfill : s.Filled B c p n b) (hpt : (s.loop c).point ≠ .handling) (hwait : p ∈ (s'.kernel.conn c).waiting)
    (hact : act.Passes) : Turn B s s' act := by
  have hlen : l.k2u.length = (s.kernel.req p).length := by
    rw [hk2u, copyInHeader_length]
    simp [k2uHeader]
  simp only [Loop.copyInFrom, hlen] at hloop hproc
  split at hloop
  · next hmore =>
    rw [if_pos hmore] at hproc
    refine .copying act c p n hkept hothers hbusy ho (fun q point hat => ⟨hheld q point hat, ?_⟩) hwrite hmore ?_ hact
    · rw [← hat.place, hloop]
    · rw [hproc]
      exact hfill
  · next hmore =>
    rw [if_neg hmore] at hproc
    refine .entered act c p n b hkept hothers hbusy ho (fun q point hat => ⟨hheld q point hat, ?_⟩) hn
      (fun _ => by omega)
      hfill ?_ ?_ hpt
      ⟨by rw [hloop]; rfl, by simp, Or.inl hwait⟩ hact
    · rw [← hat.place, hloop]
      rfl
    · rw [hloop]
      exact hk2u
    · rw [hproc, hloop]
      rfl

theorem Stack.Agrees.turn_read (h : s.Agrees ⟨false⟩ B) {c : Nat} {r : Ret} (hpt : (s.loop c).point ≠ .writing)
    (hcall : s.kernel.call (.user c) = .done r)
    (hs : s.loopStep ⟨false⟩ (.ret (.user c)) c ((s.loop c).readReturned B c r s.proc) = some s') (act : StackAct α)
    (hact : act.Passes) : Turn B s s' act := by
  obtain ⟨hst, hloop, hproc⟩ := Stack.loopStep_some hs
  have hkept : s.Kept s' := Stack.kept_of hst trivial
  have hothers : s.Others s' c := Stack.others_of_loopStep hs (fun d hd => by cases hd; rfl) (fun d hd => by cases hd)
  have hloopc : s'.loop c = ((s.loop c).readReturned B c r s.proc).1 := by rw [hloop, Function.update_self]
  -- the request in hand is the one that waits on the connection
  have hheld : ∀ {p}, (s.kernel.conn c).waiting = [p] → ∀ q point, s'.At c q point → q = p := by
    intro p hw q point hat
    have hconn := step_conn hst (d := c) (by simp [Act.connection])
    have hidle : s'.kernel.call (.user c) = .idle := by
      generalize s'.kernel = k at hst
      cases step_cases hst with
      | ret t r' hr => simp
    rcases hat.held with hq | ⟨_, _, hq⟩
    · rw [hconn, hw] at hq
      exact List.mem_singleton.1 hq
    · rw [hidle] at hq
      cases hq
  have hwaits : ∀ {p}, (s.kernel.conn c).waiting = [p] → p ∈ (s'.kernel.conn c).waiting := by
    intro p hw
    rw [step_conn hst (by simp [Act.connection]), hw]
    exact List.mem_singleton_self p
  have hbusy : ∀ {p}, (s.kernel.conn c).waiting = [p] → s.kernel.busy p = true := by
    intro p hw
    obtain ⟨loc, hl⟩ := h.placed.located
    have hloc : loc p = .waiting c := (hl.waiting c p).1 (by simp [Kernel.life, hw])
    exact (hl.busy p).2 (by rw [hloc]; simp)
  have hf := h.framed c
  unfold Stack.FramedAt at hf
  rw [hcall] at hf
  generalize hp : (s.loop c).point = point at hf hpt
  generalize hx : s.kernel.conn c = x at hf hheld hbusy hwaits
  cases hf with
  | header p q hq hr hw hse ho hst' =>
    have hreads := ho.copyInReads x
    have hcmd : x.command ⟨false⟩ q = k2uHeader false 0 (s.kernel.req p) := by
      rw [hq, Connection.command, k2uHeader_default]
    have hmap : q.isMapped ⟨false⟩ = false := by simp [BiusRequest.isMapped]
    simp only [Loop.readReturned, hp, Nat.lt_irrefl, if_false, Loop.command, hreads, hmap, Bool.not_false, Bool.and_true]
      at hloopc hproc
    split at hloopc
    · next hwrite =>
      rw [if_pos hwrite] at hproc
      exact Stack.turn_copied hkept hothers (hbusy hw) (by rw [hq]; exact ho) (hheld hw) hloopc hproc (by rw [← hcmd])
        (by rw [hq]; exact hwrite) (Nat.zero_le _) (Or.inl ⟨rfl, rfl⟩) (by rw [hp]; simp) (hwaits hw)
        hact
    · next hwrite =>
      rw [if_neg hwrite] at hproc
      refine .entered act c p 0 s.proc hkept hothers (hbusy hw) (by rw [hq]; exact ho)
        (fun q' point hat => ⟨hheld hw q' point hat, ?_⟩) (Nat.zero_le _)
        (fun hw' => absurd (by rw [← hq]; exact hw') hwrite) (Or.inl ⟨rfl, rfl⟩) ?_ ?_ (by rw [hp]; simp)
        ⟨by rw [hloopc]; rfl, by simp, Or.inl (hwaits hw)⟩ hact
      · rw [← hat.place, hloopc]
        rfl
      · rw [hloopc, ← hcmd]
        rfl
      · rw [hproc, hloopc]
        rfl
  | chunk p q n bytes hq hr hw hse ho hst' hsent hpos hb hk =>
    simp only [Loop.readReturned, hp, Nat.ne_of_gt hpos, if_false] at hloopc hproc
    refine Stack.turn_copied hkept hothers (hbusy hw) (by rw [hq]; exact ho) (hheld hw) hloopc hproc ?_ ?_ ?_
      (Or.inr ⟨n, bytes, ?_, rfl, ?_, rfl⟩) (by rw [hp]; simp) (hwaits hw) hact
    · rw [hk, hq, Connection.command, k2uHeader_default]
    · rw [hq]
      exact (BiusRequest.streams_iff.1 hst').1
    · rw [hq]
      exact hsent.le
    · exact ⟨hp, by simp, Or.inl (by rw [hx, hw]; simp)⟩
    · rw [hq]
      exact hb
  | written => exact absurd rfl hpt

/-- The backend has answered: the request in hand is the one that waits on the connection. -/
theorem Stack.Agrees.turn_reply (h : s.Agrees ⟨false⟩ B) {c : Nat} (hpt : (s.loop c).point = .handling)
    (hs : (B.leave c (s.loop c).k2u (s.loop c).u2k s.proc).map (fun r =>
      { s with loop := Function.update s.loop c { s.loop c with u2k := r.2, point := .writing }, proc := r.1 }) =
        some s') :
    Turn B s s' (.reply c) := by
  rw [Option.map_eq_some_iff] at hs
  obtain ⟨res, hres, rfl⟩ := hs
  have hf := h.framed c
  unfold Stack.FramedAt at hf
  rw [hpt] at hf
  generalize hcall : s.kernel.call (.user c) = call at hf
  cases hf with
  | handling p r hp hr hw hse ho hk =>
    have hat : s.At c p .handling := ⟨hpt, by simp, Or.inl (by simp [hw])⟩
    refine .replied c p hat ⟨fun q => .refl _, rfl, rfl⟩
      (Stack.others_of_same rfl (fun d hd => Function.update_of_ne hd _ _))
      (fun q point hq => ⟨?_, by rw [← hq.place]; simp⟩) (by simpa using hres) ⟨by simp, by simp, hat.held⟩
    rcases hq.held with hq | ⟨_, _, hq⟩
    · change q ∈ (s.kernel.conn c).waiting at hq
      rw [hw] at hq
      exact List.mem_singleton.1 hq
    · change s.kernel.call (.user c) = _ at hq
      rw [hcall] at hq
      cases hq

/-- What a loop replies with is what the backend leaves for the command in hand. -/
theorem Stack.Agrees.reply_leaves (h : s.Agrees ⟨false⟩ B) {c : Nat} (hs : s.step ⟨false⟩ B (.reply c) = some s') :
    ∃ p, s.At c p .handling ∧ B.leave c (s.loop c).k2u (s.loop c).u2k s.proc = some (s'.proc, (s'.loop c).u2k) := by
  unfold Stack.step at hs
  dsimp only at hs
  split at hs
  · next hpt =>
    cases h.turn_reply hpt hs with
    | replied _ p hat hk ho hone hleave => exact ⟨p, hat, hleave⟩
    | quiet _ hk hproc hat hpass => exact hpass.elim
    | copying _ _ _ _ hk ho hp hoff hat hwrite hn hfill hpass => exact hpass.elim
    | entered _ _ _ _ _ hk ho hp hoff hat hle hn hfill hk2u hproc hpt' hat' hpass => exact hpass.elim
  · cases hs

/-- A `write` begins: the request that it takes off the connection was waiting there. -/
theorem Stack.turn_write {c : Nat} (hs : s.kernelStep ⟨false⟩
    (.writeStart (.user c) c sizeofU2k sizeofU2k (s.loop c).u2k) = some s') :
    Turn B s s' (.write c) := by
  refine Stack.turn_inside hs rfl (fun d hd => by cases hd; rfl) trivial (fun q point hat => ?_) trivial
  obtain ⟨hst, hloop, -⟩ := Stack.kernelStep_some hs
  obtain ⟨hpt', hnot, hheld⟩ := hat
  rw [hloop] at hpt'
  refine ⟨hpt', hnot, Or.inl ?_⟩
  generalize s'.kernel = k at hst hheld
  cases step_cases hst with
  | writeStart t d size n header ht hatt =>
    rcases writeStart_cases s.kernel (.user c) c sizeofU2k sizeofU2k (s.loop c).u2k with ⟨v, heq⟩ | ⟨p, hp, heq⟩
    · rw [heq] at hheld
      rcases hheld with hq | ⟨_, _, hq⟩
      · exact hq
      · simp at hq
    · rw [heq] at hheld
      rcases hheld with hq | ⟨_, _, hq⟩
      · simp only [Kernel.setCall_conn, Kernel.setConn_conn, Function.update_self] at hq
        exact List.mem_of_mem_erase hq
      · simp only [Kernel.setCall_call, Function.update_self, Call.replied.injEq] at hq
        rw [← hq.2.1]
        exact hp

/-- A `write` has returned: the reply has been served, and the loop starts over. -/
theorem Stack.Agrees.turn_freed (h : s.Agrees ⟨false⟩ B) {c : Nat} {r : Ret} (hpt : (s.loop c).point = .writing)
    (hcall : s.kernel.call (.user c) = .done r)
    (hs : s.loopStep ⟨false⟩ (.ret (.user c)) c ((s.loop c).writeReturned B r s.proc) = some s') :
    Turn B s s' (.writeReturn c) := by
  obtain ⟨hst, hloop, hproc⟩ := Stack.loopStep_some hs
  have hothers : s.Others s' c := Stack.others_of_loopStep hs (fun d hd => by cases hd; rfl) (fun d hd => by cases hd)
  have hf := h.framed c
  unfold Stack.FramedAt at hf
  rw [hpt, hcall] at hf
  cases hf with
  | written hr hw hse =>
    have hback : ((s.loop c).writeReturned B (.value sizeofU2k) s.proc) =
        ({ s.loop c with point := .reading }, B.free (s.loop c).k2u (s.loop c).u2k s.proc) := by
      simp only [Loop.writeReturned]
      rw [if_neg (by simp)]
    rw [hback] at hloop hproc
    exact .freed c (Stack.kept_of hst trivial) hothers (Stack.not_at_reading (by rw [hloop, Function.update_self])) hproc

/-- Before a command has been sent, its loop is in `read_command`. -/
theorem Stack.Agrees.reading_of (h : s.Agrees ⟨false⟩ B) {c d : Nat}
    (hcall : s.kernel.call (.user c) = .readWait d ∨ ∃ p, s.kernel.call (.user c) = .readTaken d p) :
    (s.loop c).point = .reading := by
  have hf := h.framed c
  unfold Stack.FramedAt at hf
  generalize (s.loop c).point = point at hf ⊢
  rcases hcall with hcall | ⟨p, hcall⟩ <;> rw [hcall] at hf <;> cases hf <;> rfl

theorem Stack.Agrees.turn_end (h : s.Agrees ⟨false⟩ B)
    (hblk : ∀ p, s.kernel.busy p = true → isBlkRequest (s.kernel.req p).type = true)
    (hmem : ∀ b c, Readable (B.umem b) (B.buffer c) (dataCopyBufferSize ⟨false⟩)) {c : Nat}
    (hs : s.kernelStep ⟨false⟩ (.writeEnd (.user c) (B.umem s.proc)) = some s') : Turn B s s' (.writeEnd c) := by
  obtain ⟨hst, hloop, hproc⟩ := Stack.kernelStep_some hs
  have hothers : s.Others s' c :=
    Stack.others_of hst (fun d hd => by cases hd; rfl) (h.conn_of c) (fun d _ => by rw [hloop])
  generalize hk : s'.kernel = k at hst
  cases step_cases hst with
  | writeEnd t d p header n umem ht hs' =>
    have hf := h.framed c
    unfold Stack.FramedAt at hf
    rw [ht] at hf
    generalize hpt : (s.loop c).point = point at hf
    cases hf with
    | replied _ r hp hr hw hse ho ha =>
      have hat : s.At c p .writing := ⟨hpt, by simp, Or.inr ⟨_, _, ht⟩⟩
      have hb := hblk p (h.at_busy hat)
      have hread : (s.kernel.req p).type = .read →
          ¬ (biusReceiveData (s.kernel.req p) (B.umem s.proc) (s.loop c).u2k.userData).2 < 0 := by
        intro htype
        rw [hp] at htype ⊢
        exact ho.received ha htype (by simp [BiusRequest.isMapped]) (hmem s.proc c)
      obtain ⟨hended, hbusy, hreq⟩ := writeEnd_finished hb hread hs'
      refine .ended c p hat hproc (by rw [hk]; exact hreq) (by rw [hk]; exact hbusy) (by rw [hk]; exact hended) ?_
      have hnone : ∀ q point, ¬ s'.At c q point := by
        intro q point hq
        have hcall := (writeEnd_returns hs' (fun htype _ => hread htype)).1
        have hwait := (writeEnd_returns hs' (fun htype _ => hread htype)).2.waiting
        rcases hq.held with hq | ⟨_, _, hq⟩
        · rw [hk, hwait, hw] at hq
          cases hq
        · rw [hk, hcall] at hq
          cases hq
      intro d q point hq
      obtain ⟨hold, hl⟩ := hothers.quiet hnone d q point hq
      refine ⟨fun hqp => ?_, hold, hl⟩
      subst hqp
      obtain rfl := h.at_inj hold hat
      exact hnone q point hq

/-- **Every step is a turn** of one request, or of none. -/
theorem Stack.Agrees.turn (h : s.Agrees ⟨false⟩ B) (h' : s'.Agrees ⟨false⟩ B)
    (hblk : ∀ p, s.kernel.busy p = true → isBlkRequest (s.kernel.req p).type = true) {act : StackAct α}
    (hord : act.Orders) (hmem : ∀ b c, Readable (B.umem b) (B.buffer c) (dataCopyBufferSize ⟨false⟩))
    (hs : s.step ⟨false⟩ B act = some s') : Turn B s s' act := by
  cases act with
  | attach c =>
    simp only [Stack.step] at hs
    split at hs
    · obtain ⟨hst, hloop, hproc⟩ := Stack.loopStep_some hs
      have hothers : s.Others s' c := Stack.others_of_loopStep hs (fun d hd => by cases hd) (fun d hd => by cases hd; rfl)
      refine .quiet _ (Stack.kept_of hst trivial) hproc (hothers.quiet (fun q point hat => ?_)) trivial
      have hpt : point = .mapping := by rw [← hat.place, hloop, Function.update_self]
      rcases (h'.inHand hat).cases with hp | hp | ⟨n, hp⟩ <;> rw [hp] at hpt <;> cases hpt
    · cases hs
  | mmap c vmStart =>
    simp only [Stack.step] at hs
    split at hs
    · simp only [Bool.false_eq_true, if_false, Option.some.injEq] at hs
      subst hs
      have hothers : s.Others { s with loop := Function.update s.loop c { s.loop c with point := .reading } } c :=
        Stack.others_of_same rfl (fun d hd => Function.update_of_ne hd _ _)
      exact .quiet _ ⟨fun q => .refl _, rfl, rfl⟩ rfl (hothers.quiet (Stack.not_at_reading (by simp))) trivial
    · cases hs
  | block act =>
    simp only [Stack.step] at hs
    split at hs
    · next hof => exact h.turn_block hblk hof hord hs
    · cases hs
  | read c cuts =>
    simp only [Stack.step] at hs
    split at hs
    · next hpt =>
      refine Stack.turn_inside hs rfl (fun d hd => by cases hd; rfl) trivial (fun q point hat => ?_) trivial
      exact absurd hat (Stack.not_at_reading (by rw [(Stack.kernelStep_some hs).2.1]; exact hpt) q point)
    · next n hpt =>
      refine Stack.turn_inside hs rfl (fun d hd => by cases hd; rfl) trivial (fun q point hat => ?_) trivial
      obtain ⟨hst, hloop, -⟩ := Stack.kernelStep_some hs
      generalize hk : s'.kernel = k at hst
      cases step_cases hst with
      | readStart t c size cuts ht hs' =>
        obtain ⟨hwait, hcall⟩ := readStart_waiting hs'
        obtain ⟨hpt', hnot, hheld⟩ := hat
        rw [hloop] at hpt'
        rw [hk] at hheld
        refine ⟨hpt', hnot, hheld.imp (fun hq => hwait ▸ hq) (fun hq => ?_)⟩
        obtain ⟨header, m, hq⟩ := hq
        exact absurd hq (hcall _ _ _ _)
    · cases hs
  | take c =>
    refine Stack.turn_inside hs rfl (h.conn_of c) trivial (fun q point hat => ?_) trivial
    obtain ⟨hst, hloop, -⟩ := Stack.kernelStep_some hs
    refine absurd hat (Stack.not_at_reading ?_ q point)
    rw [hloop]
    generalize s'.kernel = k at hst
    cases step_cases hst with
    | readTake t d p ps ht => exact h.reading_of (Or.inl ht)
  | send c =>
    refine Stack.turn_inside hs rfl (h.conn_of c) (by simp [Act.Carries, sizeofK2u]) (fun q point hat => ?_) trivial
    obtain ⟨hst, hloop, -⟩ := Stack.kernelStep_some hs
    refine absurd hat (Stack.not_at_reading ?_ q point)
    rw [hloop]
    generalize s'.kernel = k at hst
    cases step_cases hst with
    | readSend t d p n ht => exact h.reading_of (Or.inr ⟨p, ht⟩)
  | readReturn c =>
    simp only [Stack.step] at hs
    split at hs
    · cases hs
    · next r hcall hpt => exact h.turn_read hpt hcall hs _ trivial
    · cases hs
  | reply c =>
    simp only [Stack.step] at hs
    split at hs
    · next hpt => exact h.turn_reply hpt hs
    · cases hs
  | write c =>
    simp only [Stack.step] at hs
    split at hs
    · next hpt => exact Stack.turn_write hs
    · cases hs
  | writeEnd c => exact h.turn_end hblk hmem hs
  | writeReturn c =>
    simp only [Stack.step] at hs
    split at hs
    · next r hpt hcall => exact h.turn_freed hpt hcall hs
    · cases hs
  | process a =>
    simp only [Stack.step] at hs
    rw [Option.map_eq_some_iff] at hs
    obtain ⟨b, hb, rfl⟩ := hs
    exact .process a ⟨fun q => .refl _, rfl, rfl⟩ hb
      (fun d q point hq => ⟨⟨hq.place, hq.handed, hq.held⟩, rfl⟩)

/-- The copy buffers of the loops do not overlap. -/
def BuffersApart (buffer : Nat → Nat) : Prop :=
  ∀ c d, c ≠ d → buffer c + biusMaxSizePerCommand ≤ buffer d ∨ buffer d + biusMaxSizePerCommand ≤ buffer c

/-! ## What stays in hand -/

theorem StackAct.Passes.ne {act : StackAct α} (h : act.Passes) (c : Nat) : act ≠ .reply c ∧ act ≠ .writeEnd c := by
  constructor <;>
  · rintro rfl
    exact h

theorem Stack.At.of_same {c : Nat} {p : Ptr} {point : Point} (hat : s.At c p point) (hloop : s'.loop c = s.loop c)
    (hconn : s'.kernel.conn c = s.kernel.conn c) (hcall : s'.kernel.call (.user c) = s.kernel.call (.user c)) :
    s'.At c p point ∧ s'.loop c = s.loop c :=
  ⟨⟨by rw [hloop]; exact hat.place, hat.handed, by rw [hconn, hcall]; exact hat.held⟩, hloop⟩

theorem Stack.At.of_step {c : Nat} {p : Ptr} {point : Point} (hat : s.At c p point) {act : Act}
    (hst : Bius.step ⟨false⟩ s.kernel act = some s'.kernel) (htid : act.tid ≠ some (.user c))
    (hconn : act.connection s.kernel ≠ some c) (hloop : s'.loop c = s.loop c) :
      s'.At c p point ∧ s'.loop c = s.loop c :=
  hat.of_same hloop (step_conn hst hconn) (step_call hst htid)

/-- The reply that is written finds the request. -/
theorem Stack.Agrees.write_stays (h : s.Agrees ⟨false⟩ B) {c : Nat} {p : Ptr} {point : Point} (hat : s.At c p point)
    (hwriting : (s.loop c).point = .writing)
    (hs : s.kernelStep ⟨false⟩ (.writeStart (.user c) c sizeofU2k sizeofU2k (s.loop c).u2k) = some s') :
    s'.At c p point ∧ s'.loop c = s.loop c := by
  obtain ⟨hst, hloop, -⟩ := Stack.kernelStep_some hs
  refine ⟨⟨by rw [hloop]; exact hat.place, hat.handed, ?_⟩, by rw [hloop]⟩
  have hf := h.framed c
  unfold Stack.FramedAt at hf
  rw [hwriting] at hf
  have hheld := hat.held
  generalize hk : s'.kernel = k at hst
  cases step_cases hst with
  | writeStart t e size n header ht hatt =>
    rw [ht] at hf hheld
    cases hf with
    | replying q r hq hr hw hse ho ha =>
      have hpq : p = q := by
        rcases hheld with hp | ⟨_, _, hp⟩
        · rw [hw] at hp
          exact List.mem_singleton.1 hp
        · cases hp
      subst hpq
      rcases writeStart_cases s.kernel (.user c) c sizeofU2k sizeofU2k (s.loop c).u2k with
        ⟨v, heq⟩ | ⟨p', hp', heq⟩
      · rw [heq]
        refine Or.inl ?_
        simp [hw]
      · rw [heq]
        rw [hw] at hp'
        rw [List.mem_singleton.1 hp']
        exact Or.inr ⟨(s.loop c).u2k, sizeofU2k, by simp⟩

/-- A loop keeps the request it has handed to the backend until it has the answer, and then
    until the reply is served. -/
theorem Stack.Agrees.stays (h : s.Agrees ⟨false⟩ B) {act : StackAct α} {c : Nat} {p : Ptr} {point : Point}
    (hat : s.At c p point) (hpt : point = .handling ∨ point = .writing) (hreply : act ≠ .reply c)
    (hend : act ≠ .writeEnd c) (hs : s.step ⟨false⟩ B act = some s') : s'.At c p point ∧ s'.loop c = s.loop c := by
  have hplace : (s.loop c).point = .handling ∨ (s.loop c).point = .writing := by rw [hat.place]; exact hpt
  -- a step of another loop
  have helsewhere : ∀ {d : Nat} {act : Act} {l : Loop × β}, d ≠ c → s.loopStep ⟨false⟩ act d l = some s' →
      act.tid ≠ some (.user c) → act.connection s.kernel ≠ some c → s'.At c p point ∧ s'.loop c = s.loop c := by
    intro d act l hd hs htid hconn
    obtain ⟨hst, hloop, -⟩ := Stack.loopStep_some hs
    exact hat.of_step hst htid hconn (by rw [hloop, Function.update_of_ne (Ne.symm hd)])
  have hinside : ∀ {act : Act}, s.kernelStep ⟨false⟩ act = some s' → act.tid ≠ some (.user c) →
      act.connection s.kernel ≠ some c → s'.At c p point ∧ s'.loop c = s.loop c := by
    intro act hs htid hconn
    obtain ⟨hst, hloop, -⟩ := Stack.kernelStep_some hs
    exact hat.of_step hst htid hconn (by rw [hloop])
  have hne : ∀ {d : Nat}, d ≠ c → (some (Tid.user d) : Option Tid) ≠ some (.user c) :=
      fun hd he => hd (by cases he; rfl)
  have hcallne : ∀ {d : Nat}, d ≠ c → (s.kernel.call (.user d)).connection ≠ some c :=
      fun hd he => hd (h.conn_of _ _ he).symm
  cases act with
  | attach d =>
    simp only [Stack.step] at hs
    split at hs
    · next hstart =>
      by_cases hd : d = c
      · rw [hd] at hstart
        rw [hstart] at hplace
        rcases hplace with hp | hp <;> cases hp
      · exact helsewhere hd hs (by simp [Act.tid]) (by simp [Act.connection, hd])
    · cases hs
  | mmap d vmStart =>
    simp only [Stack.step] at hs
    split at hs
    · next hmap =>
      simp only [Bool.false_eq_true, if_false, Option.some.injEq] at hs
      subst hs
      by_cases hd : d = c
      · rw [hd] at hmap
        rw [hmap] at hplace
        rcases hplace with hp | hp <;> cases hp
      · exact hat.of_same (Function.update_of_ne (Ne.symm hd) _ _) rfl rfl
    · cases hs
  | block act =>
    simp only [Stack.step] at hs
    split at hs
    · next hof =>
      refine hinside hs (fun ht => ?_) (fun hc => ?_)
      · unfold Act.ofBlockLayer at hof
        split at hof <;> first | cases ht | cases hof
      · unfold Act.ofBlockLayer at hof
        split at hof <;> first | cases hc | cases hof
    · cases hs
  | read d cuts =>
    have hd : d ≠ c := by
      intro hd
      subst hd
      simp only [Stack.step] at hs
      rcases hplace with hp | hp <;> rw [hp] at hs <;> cases hs
    simp only [Stack.step] at hs
    split at hs
    · exact hinside hs (hne hd) (by simp [Act.connection, hd])
    · exact hinside hs (hne hd) (by simp [Act.connection, hd])
    · cases hs
  | take d =>
    have hd : d ≠ c := by
      intro hd
      subst hd
      obtain ⟨hst, -, -⟩ := Stack.kernelStep_some hs
      generalize s'.kernel = k at hst
      cases step_cases hst with
      | readTake t e q ps ht =>
        rw [h.reading_of (Or.inl ht)] at hplace
        rcases hplace with hp | hp <;> cases hp
    exact hinside hs (hne hd) (hcallne hd)
  | send d =>
    have hd : d ≠ c := by
      intro hd
      subst hd
      obtain ⟨hst, -, -⟩ := Stack.kernelStep_some hs
      generalize s'.kernel = k at hst
      cases step_cases hst with
      | readSend t e q n ht =>
        rw [h.reading_of (Or.inr ⟨q, ht⟩)] at hplace
        rcases hplace with hp | hp <;> cases hp
    exact hinside hs (hne hd) (hcallne hd)
  | readReturn d =>
    simp only [Stack.step] at hs
    split at hs
    · cases hs
    · next r hcall hnot =>
      by_cases hd : d = c
      · subst hd
        -- it is not in a call
        have hf := h.framed d
        unfold Stack.FramedAt at hf
        rw [hcall] at hf
        rcases hplace with hp | hp
        · rw [hp] at hf
          cases hf
        · exact absurd hp hnot
      · exact helsewhere hd hs (hne hd) (by simp [Act.connection])
    · cases hs
  | reply d =>
    have hd : d ≠ c := fun hd => hreply (by rw [hd])
    simp only [Stack.step] at hs
    split at hs
    · rw [Option.map_eq_some_iff] at hs
      obtain ⟨res, -, rfl⟩ := hs
      exact hat.of_same (Function.update_of_ne (Ne.symm hd) _ _) rfl rfl
    · cases hs
  | write d =>
    simp only [Stack.step] at hs
    split at hs
    · next hwriting =>
      by_cases hd : d = c
      · subst hd
        exact h.write_stays hat hwriting hs
      · exact hinside hs (hne hd) (by simp [Act.connection, hd])
    · cases hs
  | writeEnd d =>
    have hd : d ≠ c := fun hd => hend (by rw [hd])
    exact hinside hs (hne hd) (hcallne hd)
  | writeReturn d =>
    simp only [Stack.step] at hs
    split at hs
    · next r hwriting hcall =>
      by_cases hd : d = c
      · subst hd
        -- its reply has been served
        have hf := h.framed d
        unfold Stack.FramedAt at hf
        rw [hwriting, hcall] at hf
        cases hf with
        | written hr hw hse =>
          rcases hat.held with hp | ⟨_, _, hp⟩
          · rw [hw] at hp
            cases hp
          · rw [hcall] at hp
            cases hp
      · exact helsewhere hd hs (hne hd) (by simp [Act.connection])
    · cases hs
  | process a =>
    simp only [Stack.step] at hs
    rw [Option.map_eq_some_iff] at hs
    obtain ⟨b, -, rfl⟩ := hs
    exact hat.of_same rfl rfl rfl

end

end

end Bius
