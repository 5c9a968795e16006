import Bius.CopyRuns
import Bius.MappedSteps

/- The whole stack in the CONFIG_BIUS_DATAMAP build, down to the bytes. The invariant of
   `MappedStack` is `Mapping`: every request that is mapped is `Serving` in its window, the
   memory of a read is its own while it is in flight, and the history of the disk has what
   the completed requests have moved.

   `MappedStack.Allows` says what is assumed of the rest of the kernel: requests with their
   data in their segments, the segments within the limits of the queue and inside the window,
   no memory shared with a read, and nobody else at the memory of a request in flight. Where
   the copy-in takes an entry of the list for a size, a read is given the wrong data;
   `CopyInExact` leaves these out. -/
namespace Bius

open Registers (Access Legal play trace)

/-- No byte of memory belongs to both. -/
def SegsApart (xs ys : List Seg) : Prop := ∀ s ∈ xs, ∀ t ∈ ys, ∀ a, s.Mem a → ¬ t.Mem a

theorem SegsApart.symm {xs ys : List Seg} (h : SegsApart xs ys) : SegsApart ys xs :=
  fun t ht s hs a hta hsa => h s hs t ht a hsa hta

/-- A request that is through. Its accesses stand in the history of the disk, and `arrived`
    is what its segments held when it was ended. -/
def BiusRequest.Through (mover : Mover) (log : List (Access Nat Nat UInt8)) (arrived : List UInt8)
    (r : BiusRequest) : Prop :=
  ∃ bytes, r.Moved log bytes ∧
    (r.blkResult = blkStsOk ∧ bytes.length = r.length ∧ (r.type = .read → arrived = bytes) ∨
      r.blkResult = blkStsIoerr ∧ mover = .syscalls)

/-- A request that is mapped comes with its data, and no read shares its memory. -/
structure MappedStack.Brings (S : MappedStack) (r : BiusRequest) : Prop where
  data : r.type = .write → requestBytes S.kmem r.segs = chainBytes r.rq
  apart : ∀ q, S.stack.kernel.busy q = true → (S.stack.kernel.req q).Maps →
    r.type = .read ∨ (S.stack.kernel.req q).type = .read → SegsApart r.segs (S.stack.kernel.req q).segs

theorem BiusRequest.Alike.segs {r r' : BiusRequest} (h : r.Alike r') : r'.segs = r.segs := congrArg rqForEachSegment h.rq

theorem BiusRequest.Alike.maps {r r' : BiusRequest} (h : r.Alike r') : r'.Maps ↔ r.Maps := by
  unfold BiusRequest.Maps
  rw [h.type, h.length]

/-- What the rest of the kernel does. -/
def MappedStack.Allows (mover : Mover) (buffer : Nat → Nat) (S : MappedStack) : MappedAct → Prop
  | .stack (.block (.queueRq _ p rq)) =>
    (toBiusRequest rq.op = .read ∨ toBiusRequest rq.op = .write ∨ toBiusRequest rq.op = .flush) ∧
      rq.sector * sectorSize < 2 ^ 63 ∧
      (requestMayHaveData (toBiusRequest rq.op) = true → rq.dataLen ≤ biusMaxSizePerCommand) ∧
      ((initBlkRequest (S.stack.kernel.req p) S.stack.kernel.newId rq).Maps →
        S.Brings (initBlkRequest (S.stack.kernel.req p) S.stack.kernel.newId rq))
  | .stack (.block (.reportZones _ _ _ _ _)) => False
  | .stack (.take c) => ∀ p ps vmStart, S.stack.kernel.pending = p :: ps → (S.stack.kernel.req p).Maps →
      (S.stack.kernel.conn c).vma = some vmStart →
      MapLayout (S.stack.kernel.req p) (S.stack.kernel.req p).segs vmStart ∧
        ((S.stack.kernel.req p).type = .read →
          SegsDisjoint (S.stack.kernel.req p).segs ∧ CopyInExact vmStart (S.stack.kernel.req p).segs)
  | .stack act => S.stack.Admits ⟨true⟩ (mappedLibrary mover buffer) act
  | .memory kmem => ∀ p, S.stack.kernel.busy p = true → (S.stack.kernel.req p).Maps →
      ∀ a, (∃ s ∈ (S.stack.kernel.req p).segs, s.Mem a) → kmem a = S.kmem a
  | _ => True

/-- What is known of every state; the disk held `disk` at first. -/
structure MappedStack.Mapping (mover : Mover) (disk : Nat → UInt8) (S : MappedStack) : Prop where
  kind : ∀ p, S.stack.kernel.busy p = true → (S.stack.kernel.req p).ForCopy
  data : ∀ p, S.stack.kernel.busy p = true → (S.stack.kernel.req p).Maps → (S.stack.kernel.req p).type = .write →
    requestBytes S.kmem (S.stack.kernel.req p).segs = chainBytes (S.stack.kernel.req p).rq
  apart : ∀ p q, p ≠ q → S.stack.kernel.busy p = true → S.stack.kernel.busy q = true →
    (S.stack.kernel.req p).Maps →
    (S.stack.kernel.req q).Maps → (S.stack.kernel.req p).type = .read →
    SegsApart (S.stack.kernel.req p).segs (S.stack.kernel.req q).segs
  untouched : ∀ p, S.stack.kernel.OnTheWay p → trace (S.stack.kernel.req p).id S.stack.proc.log = []
  logged : ∀ a ∈ S.stack.proc.log, a.who ≤ S.stack.kernel.nextRequestId
  handlers : S.stack.Handlers
  serving : ∀ c p, S.stack.kernel.MappedAt c p → ∃ vmStart bytes, S.Serving mover c p vmStart bytes
  ended : ∀ r ∈ S.stack.kernel.ended, r.Maps → r.Through mover S.stack.proc.log (S.arrived r.id)
  legal : Legal disk S.stack.proc.log
  disk : S.stack.proc.disk = play disk S.stack.proc.log

section
variable {mover : Mover} {buffer : Nat → Nat} {fuel : Nat} {disk : Nat → UInt8} {S S' : MappedStack}

theorem MappedStack.Allows.admits {act : StackAct MappedProc} (h : S.Allows mover buffer (.stack act)) :
    S.stack.Admits ⟨true⟩ (mappedLibrary mover buffer) act := by
  cases act with
  | block act =>
    cases act with
    | queueRq t p rq => exact h.2.2.1
    | _ => trivial
  | read c cuts => exact h
  | _ => trivial

theorem MappedStack.Allows.orders {act : StackAct MappedProc} (h : S.Allows mover buffer (.stack act)) : act.Orders := by
  cases act with
  | block act =>
    cases act with
    | queueRq t p rq => rcases h.1 with ht | ht | ht <;> simp [StackAct.Orders, ht]
    | reportZones => exact h
    | _ => trivial
  | _ => trivial

theorem MappedStack.Mapping.isBlk (h : S.Mapping mover disk) (p : Ptr) (hp : S.stack.kernel.busy p = true) :
    isBlkRequest (S.stack.kernel.req p).type = true := by
  rcases (h.kind p hp).type with ht | ht | ht <;> rw [ht] <;> rfl

theorem MappedStack.Mapping.readsOrWrites (h : S.Mapping mover disk) {p : Ptr} (hp : S.stack.kernel.busy p = true)
    (hmaps : (S.stack.kernel.req p).Maps) : (S.stack.kernel.req p).type = .read ∨
    (S.stack.kernel.req p).type = .write := by
  rcases (h.kind p hp).type with ht | ht | ht
  · exact Or.inl ht
  · exact Or.inr ht
  · have hd := hmaps.1
    rw [ht] at hd
    cases hd

theorem MappedStack.Mapping.init (k2u : Nat → K2u) (u2k : Nat → U2k) (mem disk kmem : Nat → UInt8)
    (words : Nat → Nat → Nat) (bounce : Nat → Nat → Nat → UInt8) :
    (MappedStack.init k2u u2k ⟨mem, disk, fun _ => none, []⟩ kmem words bounce).Mapping mover disk := by
  refine ⟨fun p hp => (by cases hp), fun p hp => (by cases hp), fun p q _ hp => (by cases hp), fun p _ => rfl,
    fun a ha => (by cases ha), fun c call hcall => (by cases hcall), fun c p hp => ?_, fun r hr => (by cases hr),
      trivial, rfl⟩
  rcases hp.held with hw | ⟨t, ht⟩ | ⟨t, header, n, ht⟩
  · cases hw
  · cases ht
  · cases ht

/-! ## What other requests notice -/

/-- What changes on behalf of one connection changes nothing for the other ones. -/
theorem MappedStack.Mapping.alone (h : S.Mapping mover disk) (hs : S.stack.Sound (mappedLibrary mover buffer)) {c d : Nat}
    {q : Ptr} (ho : S.OnlyFor S' c) (hd : d ≠ c) (hq : S.stack.kernel.MappedAt d q) :
    S'.words d = S.words d ∧ S'.bounce d = S.bounce d ∧
      ∀ a, (∃ s ∈ (S.stack.kernel.req q).segs, s.Mem a) → S'.kmem a = S.kmem a := by
  obtain ⟨hw, hb⟩ := ho.pages d hd
  refine ⟨hw, hb, fun a ⟨s, hsq, hmem⟩ => ?_⟩
  by_contra hne
  obtain ⟨p, hp, hread, t, ht, hta⟩ := ho.kmem a hne
  have hpq : p ≠ q := fun he => hd (hs.inj (he ▸ hq).held hp.held)
  exact h.apart p q hpq (hs.busy hp.held) (hs.busy hq.held) ((hs.mapped_iff hp.held).1 hp)
    ((hs.mapped_iff hq.held).1 hq) hread
    t ht s hsq a hta hmem

theorem MappedStack.Mapping.unwritten (h : S.Mapping mover disk) (hs : S.stack.Sound (mappedLibrary mover buffer))
    {c : Nat} {q : Ptr} (ho : S.OnlyFor S' c) (hq : S.stack.kernel.busy q = true) (hmaps : (S.stack.kernel.req q).Maps)
    (hw : (S.stack.kernel.req q).type = .write) :
    requestBytes S'.kmem (S.stack.kernel.req q).segs = requestBytes S.kmem (S.stack.kernel.req q).segs := by
  apply requestBytes_congr
  rintro a ⟨s, hsq, hmem⟩
  by_contra hne
  obtain ⟨p, hp, hread, t, ht, hta⟩ := ho.kmem a hne
  have hpq : p ≠ q := by
    rintro rfl
    rw [hread] at hw
    cases hw
  exact h.apart p q hpq (hs.busy hp.held) hq ((hs.mapped_iff hp.held).1 hp) hmaps hread t ht s hsq a hta hmem

/-! ## The handlers -/

theorem MappedStack.Mapping.handled (h : S.Mapping mover disk) (hs : S.stack.Sound (mappedLibrary mover buffer)) {c : Nat}
    {p : Ptr} (hp : S.stack.kernel.With c p) (hkernel : S'.stack.kernel = S.stack.kernel)
    (hloop : S'.stack.loop = S.stack.loop) (harrived : S'.arrived = S.arrived) (ho : S.OnlyFor S' c)
    (hcalls : ∀ d, d ≠ c → S'.stack.proc.call d = S.stack.proc.call d)
    (hcall : ∀ call, S'.stack.proc.call c = some call → (S.stack.loop c).point = .handling ∧
      call.k2u = (S.stack.loop c).k2u ∧
      ∀ t, call.callback = some t → t.id = call.k2u.id ∧ (t.op = .read ∨ t.op = .write ∨ t.op = .flush))
    (hlog : ∀ i, i ≠ (S.stack.kernel.req p).id → trace i S'.stack.proc.log = trace i S.stack.proc.log)
    (hlogged : ∀ a ∈ S'.stack.proc.log, a.who ≤ S.stack.kernel.nextRequestId)
    (hserving : S.stack.kernel.MappedAt c p → ∃ vmStart bytes, S'.Serving mover c p vmStart bytes)
    (hlegal : Legal disk S'.stack.proc.log) (hdisk : S'.stack.proc.disk = play disk S'.stack.proc.log) :
    S'.Mapping mover disk := by
  have hother : ∀ q, S.stack.kernel.busy q = true → q ≠ p →
      trace (S.stack.kernel.req q).id S'.stack.proc.log = trace (S.stack.kernel.req q).id S.stack.proc.log :=
    fun q hq hqp => hlog _ (fun he => hqp (hs.distinct hq (hs.busy hp) he))
  refine ⟨by rw [hkernel]; exact h.kind, fun q hq hmaps hw => ?_, by rw [hkernel]; exact h.apart, fun q hq => ?_,
    by rw [hkernel]; exact hlogged, fun d call hd => ?_, fun d q hq => ?_, fun r hr hmaps => ?_, hlegal, hdisk⟩
  · rw [hkernel] at hq hmaps hw ⊢
    rw [h.unwritten hs ho hq hmaps hw]
    exact h.data q hq hmaps hw
  · rw [hkernel] at hq ⊢
    obtain ⟨hb, hnot⟩ := hs.onTheWay hq
    rw [hother q hb (fun he => hnot c (he ▸ hp))]
    exact h.untouched q hq
  · rw [hloop]
    by_cases hdc : d = c
    · subst hdc
      exact hcall call hd
    · rw [hcalls d hdc] at hd
      exact h.handlers d call hd
  · rw [hkernel] at hq
    by_cases hdc : d = c
    · subst hdc
      obtain rfl := hs.sole hq.held hp
      exact hserving hq
    · obtain ⟨vmStart, bytes, hserve⟩ := h.serving d q hq
      obtain ⟨hw, hb, hkmem⟩ := h.alone hs ho hdc hq
      have hqp : q ≠ p := fun he => hdc (hs.inj (he ▸ hq).held hp)
      exact ⟨vmStart, bytes, hserve.aside hkernel hloop (hcalls d hdc) (hother q (hs.busy hq.held) hqp) hw hb hkmem⟩
  · rw [hkernel] at hr
    rw [harrived]
    obtain ⟨bytes, hmoved, hres⟩ := h.ended r hr hmaps
    exact ⟨bytes, hmoved.congr (hlog _ (hs.past hp hr).symm), hres⟩

theorem MappedStack.storeAll_arrived (S : MappedStack) (c : Nat) (xs : List (Nat × UInt8)) :
    (S.storeAll c xs).arrived = S.arrived := by
  induction xs generalizing S with
  | nil => rfl
  | cons x xs ih =>
    apply (ih (S.store c x)).trans
    unfold MappedStack.store
    split <;> rfl

theorem MappedStack.piece_arrived (S : MappedStack) (c n : Nat) (call : MappedCall) (t : Transfer) :
    (S.piece c call t n).arrived = S.arrived := by
  unfold MappedStack.piece
  dsimp only
  split
  · exact MappedStack.storeAll_arrived S c _
  · rfl

theorem MappedStack.Mapping.piece (h : S.Mapping mover disk) (hs : S.stack.Sound (mappedLibrary mover buffer)) {c n : Nat}
    {call : MappedCall} {t : Transfer} (hcall : S.stack.proc.call c = some call) (ht : call.callback = some t)
    (hnone : call.status = none) (hnot : t.status = none) (hdata : requestMayHaveData t.op = true)
    (hfit : t.size + t.moved + n ≤ t.length) : (S.piece c call t n).Mapping mover disk ∧
      S.OnlyFor (S.piece c call t n) c := by
  obtain ⟨hpt, hk2u, hop⟩ := h.handlers c call hcall
  obtain ⟨-, p, hp, hid⟩ := hs.handling hpt
  obtain ⟨htid, htop⟩ := hop t ht
  have hwho : t.id = (S.stack.kernel.req p).id := by rw [htid, hk2u, hid]
  have hkind : t.op = .read ∨ t.op = .write := by
    rcases htop with ho | ho | ho
    · exact Or.inl ho
    · exact Or.inr ho
    · rw [ho] at hdata
      cases hdata
  obtain ⟨hkernel, hloop, hcalls, hlog, -⟩ := S.piece_stack c n call t
  -- what it does to the memory, and to the request if it is mapped
  obtain ⟨ho, hserving⟩ : S.OnlyFor (S.piece c call t n) c ∧ (S.stack.kernel.MappedAt c p →
      ∃ vmStart bytes, (S.piece c call t n).Serving mover c p vmStart bytes) := by
    by_cases hmapped : S.stack.kernel.MappedAt c p
    · obtain ⟨vmStart, bytes, hserve⟩ := h.serving c p hmapped
      obtain ⟨hserve', hkmem, hpages⟩ := hserve.piece
        (h.readsOrWrites (hs.busy hp) ((hs.mapped_iff hp).1 hmapped)) hpt hcall
        hnone ht hnot hfit
      exact ⟨⟨hpages, fun a ha => ⟨p, hmapped, hkmem a ha⟩⟩, fun _ => ⟨vmStart, _, hserve'⟩⟩
    · refine ⟨?_, fun hm => absurd hm hmapped⟩
      have hz := (hs.served c).empty (fun q hq => hmapped (hs.sole hq.held hp ▸ hq))
      unfold MappedStack.piece
      dsimp only
      split
      · obtain ⟨mem, hstore⟩ := @MappedStack.storeAll_empty S c ((MappedStack.addrs t n).zip (S.next c t n)) hz
        rw [hstore]
        exact .same rfl rfl rfl
      · exact .same rfl rfl rfl
  obtain ⟨hlegal, hdisk⟩ := @MappedStack.piece_disk S c disk n call t h.legal h.disk hkind
  refine ⟨h.handled hs hp hkernel hloop (S.piece_arrived c n call t) ho (fun d hd => ?_) (fun call' hcall' => ?_)
    (fun i hi => ?_) (fun a ha => ?_) hserving hlegal hdisk, ho⟩
  · rw [hcalls, Function.update_of_ne hd]
  · rw [hcalls, Function.update_self] at hcall'
    cases hcall'
    refine ⟨hpt, hk2u, fun u hu => ?_⟩
    cases hu
    exact ⟨htid, htop⟩
  · rw [S.piece_trace c n call t i, if_neg (fun he => hi (he.symm.trans hwho))]
  · rw [hlog] at ha
    rcases List.mem_append.1 ha with ha | ha
    · exact h.logged a ha
    · rw [Registers.range_who ha, hwho]
      exact hs.ids (hs.busy hp)

theorem MappedStack.Mapping.call (h : S.Mapping mover disk) (hs : S.stack.Sound (mappedLibrary mover buffer)) {c : Nat}
    {call call' : MappedCall} (hcall : S.stack.proc.call c = some call) (hnone : call.status = none)
    (hgoes : call.Goes mover (S.loadWord c) call') :
    (S.setProc (S.stack.proc.setCall c (some call'))).Mapping mover disk := by
  obtain ⟨hpt, hk2u, hop⟩ := h.handlers c call hcall
  obtain ⟨-, p, hp, -⟩ := hs.handling hpt
  obtain ⟨hsame, hop'⟩ := hgoes.same hop
  refine h.handled hs hp rfl rfl rfl (.same rfl rfl rfl) (fun d hd => Function.update_of_ne hd _ _)
    (fun call₁ hcall₁ => ?_) (fun i _ => rfl) h.logged (fun hmapped => ?_) h.legal h.disk
  · have hcall₁' : call₁ = call' := by
      change Function.update S.stack.proc.call c (some call') c = some call₁ at hcall₁
      rw [Function.update_self] at hcall₁
      exact (Option.some.inj hcall₁).symm
    subst hcall₁'
    exact ⟨hpt, hsame.trans hk2u, hop'⟩
  · obtain ⟨vmStart, bytes, hserve⟩ := h.serving c p hmapped
    exact ⟨vmStart, bytes, hserve.call (h.readsOrWrites (hs.busy hp) ((hs.mapped_iff hp).1 hmapped))
      (h.kind p (hs.busy hp)) hpt
      hcall hnone hgoes⟩

theorem MappedStack.Mapping.memory (h : S.Mapping mover disk) (hs : S.stack.Sound (mappedLibrary mover buffer))
    {kmem : Nat → UInt8} (hk : S.Allows mover buffer (.memory kmem)) :
    ({ S with kmem := kmem } : MappedStack).Mapping mover disk := by
  refine ⟨h.kind, fun p hp hmaps hw => ?_, h.apart, h.untouched, h.logged, h.handlers, fun c p hp => ?_, h.ended,
    h.legal, h.disk⟩
  · show requestBytes kmem _ = _
    rw [requestBytes_congr (hk p hp hmaps)]
    exact h.data p hp hmaps hw
  · obtain ⟨vmStart, bytes, hserve⟩ := h.serving c p hp
    refine ⟨vmStart, bytes, hserve.aside rfl rfl rfl rfl rfl rfl ?_⟩
    exact hk p (hs.busy hp.held) ((hs.mapped_iff hp.held).1 hp)

/-! ## The stack -/

/-- A step of the stack, and what is known of it. -/
structure MappedStack.Turn (mover : Mover) (buffer : Nat → Nat) (fuel : Nat) (S T : MappedStack) (s' : Stack MappedProc)
    (act : StackAct MappedProc) : Prop where
  sound : S.stack.Sound (mappedLibrary mover buffer)
  after : s'.Sound (mappedLibrary mover buffer)
  step : S.stack.step ⟨true⟩ (mappedLibrary mover buffer) act = some s'
  own : ∀ b, act ≠ .process b
  allowed : S.Allows mover buffer (.stack act)
  requests : S.stack.Requests s' act
  reaches : S.Reaches fuel T act

variable {T : MappedStack} {s' : Stack MappedProc} {act : StackAct MappedProc}

/-- What it does to the memory it does for one connection, and not for a request that is
    mapped before the step and after it. -/
theorem MappedStack.Mapping.reaches (h : S.Mapping mover disk) (hfuel : biusMaxSegments < fuel)
    (ht : S.Turn mover buffer fuel T s' act) :
    ∃ c, S.OnlyFor { T with stack := s' } c ∧ ∀ q, S.stack.kernel.MappedAt c q → s'.kernel.MappedAt c q →
      T.words = S.words ∧ T.bounce = S.bounce ∧ T.kmem = S.kmem := by
  cases ht.reaches with
  | none _ hT =>
    exact ⟨0, .same (by rw [hT]) (by rw [hT]) (by rw [hT]), fun q _ _ => by rw [hT]; exact ⟨rfl, rfl, rfl⟩⟩
  | maps c p ps vmStart hcall hps hmaps hvma _ hT =>
    rw [hT]
    exact ⟨c, .maps (ht.allowed p ps vmStart hps hmaps hvma).1,
      fun q hq _ => absurd hq.held ((ht.sound.looking hcall).1 q)⟩
  | copies c p n vmStart copies hcall hmapped hread _ hvma hcopies hT =>
    obtain ⟨v, bytes, hserve⟩ := h.serving c p hmapped
    rw [hT]
    exact ⟨c, (hserve.arrives hfuel hread hmapped hvma hcopies).2 _ _,
      fun q _ hq => absurd hq.held (ht.after.replied ht.step q)⟩

theorem MappedStack.Mapping.brings (h : S.Mapping mover disk) (ht : S.Turn mover buffer fuel T s' act) {c : Nat}
    (ho : S.OnlyFor { T with stack := s' } c) {p : Ptr} (hp : s'.kernel.busy p = true) (hmaps : (s'.kernel.req p).Maps)
    (hw : (s'.kernel.req p).type = .write) :
    requestBytes T.kmem (s'.kernel.req p).segs = chainBytes (s'.kernel.req p).rq := by
  rcases ht.requests.busy hp with ⟨hp, ha, -⟩ | ⟨t, rq, rfl, -, hnew, -⟩
  · rw [ha.maps] at hmaps
    rw [ha.type] at hw
    rw [ha.segs, ha.rq]
    exact (h.unwritten ht.sound ho hp hmaps hw).trans (h.data p hp hmaps hw)
  · rw [hnew] at hmaps hw ⊢
    cases ht.reaches with
    | none _ hT =>
      rw [hT]
      exact (ht.allowed.2.2.2 hmaps).data hw

theorem MappedStack.Mapping.parts (h : S.Mapping mover disk) (ht : S.Turn mover buffer fuel T s' act) {p q : Ptr}
    (hpq : p ≠ q) (hp : s'.kernel.busy p = true) (hq : s'.kernel.busy q = true) (hmp : (s'.kernel.req p).Maps)
    (hmq : (s'.kernel.req q).Maps) (hread : (s'.kernel.req p).type = .read) :
    SegsApart (s'.kernel.req p).segs (s'.kernel.req q).segs := by
  have hallowed := ht.allowed
  rcases ht.requests.busy hp with ⟨hp, ha, -⟩ | ⟨t, rq, rfl, -, hnew, -⟩
  · rw [ha.maps] at hmp
    rw [ha.type] at hread
    rw [ha.segs]
    rcases ht.requests.busy hq with ⟨hq, ha', -⟩ | ⟨t, rq, rfl, -, hnew', -⟩
    · rw [ha'.maps] at hmq
      rw [ha'.segs]
      exact h.apart p q hpq hp hq hmp hmq hread
    · rw [hnew'] at hmq ⊢
      exact ((hallowed.2.2.2 hmq).apart p hp hmp (Or.inr hread)).symm
  · rw [hnew] at hmp hread ⊢
    rcases ht.requests.busy hq with ⟨hq, ha', -⟩ | ⟨t', rq', hact, -⟩
    · rw [ha'.maps] at hmq
      rw [ha'.segs]
      exact (hallowed.2.2.2 hmp).apart q hq hmq (Or.inl hread)
    · cases hact
      exact absurd rfl hpq

theorem MappedStack.Mapping.waits (h : S.Mapping mover disk) (ht : S.Turn mover buffer fuel T s' act)
    (hid : s'.kernel.nextRequestId < 2 ^ 64) {p : Ptr} (hp : s'.kernel.OnTheWay p) :
    trace (s'.kernel.req p).id S.stack.proc.log = [] := by
  rcases ht.requests.busy (ht.after.onTheWay hp).1 with ⟨-, ha, hway⟩ | ⟨t, rq, -, -, hnew, hsucc⟩
  · rw [ha.id]
    exact h.untouched p (hway hp)
  · -- its id has not been used yet
    have hnewId : (s'.kernel.req p).id = S.stack.kernel.nextRequestId + 1 := by
      rw [hnew]
      exact Nat.mod_eq_of_lt (by omega)
    apply Registers.trace_none
    intro a ha heq
    have hle := h.logged a ha
    omega

theorem MappedStack.Mapping.serves (h : S.Mapping mover disk) (hfuel : biusMaxSegments < fuel)
    (ht : S.Turn mover buffer fuel T s' act) (hkind : ∀ p, s'.kernel.busy p = true → (s'.kernel.req p).ForCopy)
    {d : Nat} {p : Ptr} (hp : s'.kernel.MappedAt d p) :
      ∃ vmStart bytes, ({ T with stack := s' } : MappedStack).Serving mover d p vmStart bytes := by
  have hgoes := (Stack.goes ht.step).loop ht.own d
  rcases ht.sound.mappedAt_step ht.step hp with hold | ⟨ps, rfl, hcall, hps, hmaps⟩
  · obtain ⟨vmStart, bytes, hserve⟩ := h.serving d p hold
    obtain ⟨c, ho, hboth⟩ := h.reaches hfuel ht
    obtain ⟨hw, hb, hkmem⟩ : T.words d = S.words d ∧ T.bounce d = S.bounce d ∧
        ∀ a, (∃ s ∈ (S.stack.kernel.req p).segs, s.Mem a) → T.kmem a = S.kmem a := by
      by_cases hdc : d = c
      · subst hdc
        obtain ⟨hw, hb, hkmem⟩ := hboth p hold hp
        exact ⟨by rw [hw], by rw [hb], fun a _ => by rw [hkmem]⟩
      · have halone := h.alone ht.sound ho hdc hold
        exact halone
    have ha := ht.requests.alike ht.sound ht.after ht.step hold.held hp.held
    exact ⟨vmStart, bytes, @MappedStack.Serving.stays mover buffer S { T with stack := s' } d vmStart p bytes act
      hserve ht.sound
      ht.after h.handlers ht.own ht.step hold hp ha (hkind p (ht.after.busy hp.held)) hw hb hkmem⟩
  · -- it has just been taken
    cases ht.reaches with
    | none _ _ hnone => exact absurd hmaps (hnone d p ps rfl hcall hps)
    | maps _ q qs vmStart _ hqs _ hvma hz hT =>
      rw [hps] at hqs
      cases hqs
      obtain ⟨-, hshows, -⟩ := ht.sound.taken ht.after ht.step hcall hps hmaps hvma
      obtain ⟨hlayout, hexact⟩ := ht.allowed p ps vmStart hps hmaps hvma
      have hway : S.stack.kernel.OnTheWay p := Or.inl (by rw [hps]; exact List.mem_cons_self ..)
      have hbusy := (ht.sound.onTheWay hway).1
      have ha : (S.stack.kernel.req p).Alike (s'.kernel.req p) := by
        rcases ht.requests.busy (ht.after.busy hp.held) with ⟨-, ha, -⟩ | ⟨t, rq, hact, -⟩
        · exact ha
        · cases hact
      have hpt : (s'.loop d).point = .reading := by
        have hreading := (ht.sound.looking hcall).2.1
        cases hgoes with
        | same hloop _ =>
          rw [hloop]
          exact hreading
        | begins hb _ _ =>
          rw [hreading] at hb
          rcases hb with hb | hb <;> cases hb
        | read r _ hdone _ _ =>
          rw [hcall] at hdone
          cases hdone
        | replied _ _ hb _ _ _ _ _ | wrote _ hb _ _ _ =>
          rw [hreading] at hb
          cases hb
      rw [hT]
      refine ⟨vmStart, [], .begin hz hlayout hexact (h.data p hbusy hmaps) ha hshows ?_ ?_⟩
      · rw [((Stack.goes ht.step).disk ht.own).1]
        exact h.untouched p hway
      · unfold Stack.Stage
        rw [hpt]

theorem MappedStack.Mapping.through {c n : Nat} {p : Ptr} (h : S.Mapping mover disk) (hfuel : biusMaxSegments < fuel)
    (ht : S.Turn mover buffer fuel T s' (.writeEnd c))
    (hcall : S.stack.kernel.call (.user c) = .replied c p (S.stack.loop c).u2k n)
    (hpt : (S.stack.loop c).point = .writing) (hmaps : (S.stack.kernel.req p).Maps)
    (hreq : s'.kernel.req p =
      { S.stack.kernel.req p with mapType := .unmapped, blkResult := blkStatus (S.stack.loop c).u2k.reply }) :
    (s'.kernel.req p).Through mover S.stack.proc.log (T.arrived (S.stack.kernel.req p).id) := by
  have hwith : S.stack.kernel.With c p := Or.inr (Or.inr ⟨_, _, n, hcall⟩)
  have hmapped := (ht.sound.mapped_iff hwith).2 hmaps
  obtain ⟨vmStart, bytes, hserve⟩ := h.serving c p hmapped
  have ha : (S.stack.kernel.req p).Alike (s'.kernel.req p) := by
    rw [hreq]
    exact ⟨rfl, rfl, rfl, rfl, rfl⟩
  have hstage := hserve.stage
  unfold Stack.Stage at hstage
  rw [hpt] at hstage
  refine ⟨bytes, ha.moved hserve.moved, ?_⟩
  rw [ha.length, ha.type, hreq]
  rcases hstage with ⟨hok, hlen⟩ | ⟨herr, hsys⟩
  · refine Or.inl ⟨by rw [hok]; rfl, hlen, fun hread => ?_⟩
    cases ht.reaches with
    | none _ _ _ hnot => exact absurd hok (hnot c p n rfl hcall hmapped hread)
    | copies _ q m v copies hcall' _ _ _ hvma hcopies hT =>
      rw [hcall] at hcall'
      cases hcall'
      obtain ⟨-, -, hshown⟩ := hserve.read hread
      have hall : (segAddrs vmStart (S.stack.kernel.req p).segs).length = bytes.length := by
        rw [segAddrs_length, hserve.backed.layout.sum, hlen]
        rfl
      rw [← hall, List.take_length] at hshown
      rw [hT]
      show Function.update S.arrived _ _ _ = bytes
      rw [Function.update_self, (hserve.arrives hfuel hread hmapped hvma hcopies).1, hshown]
  · exact Or.inr ⟨by rw [herr]; rfl, hsys⟩

theorem MappedStack.Mapping.ends (h : S.Mapping mover disk) (hfuel : biusMaxSegments < fuel)
    (ht : S.Turn mover buffer fuel T s' act) {r : BiusRequest} (hr : r ∈ s'.kernel.ended) (hmaps : r.Maps) :
    r.Through mover S.stack.proc.log (T.arrived r.id) := by
  -- what has arrived for the earlier ones is not touched
  have hold : r ∈ S.stack.kernel.ended → r.Through mover S.stack.proc.log (T.arrived r.id) := by
    intro hr
    have hT : T.arrived r.id = S.arrived r.id := by
      cases ht.reaches with
      | none _ hT => rw [hT]
      | maps _ _ _ _ _ _ _ _ _ hT =>
        rw [hT]
        rfl
      | copies c q n v copies _ hmapped _ _ _ _ hT =>
        rw [hT]
        exact Function.update_of_ne (ht.sound.past hmapped.held hr).symm _ _
    rw [hT]
    exact h.ended r hr hmaps
  cases ht.requests with
  | kept _ hk =>
    rw [hk.ended] at hr
    exact hold hr
  | submitted t p rq _ _ _ hended =>
    rw [hended] at hr
    exact hold hr
  | ended c p n hcall hpt _ _ hended hback hthrough =>
    rw [hended] at hr
    rcases List.mem_append.1 hr with hr | hr
    · exact hold hr
    · rw [List.mem_singleton] at hr
      subst hr
      have hmp := hback hmaps
      have hwith : S.stack.kernel.With c p := Or.inr (Or.inr ⟨_, _, n, hcall⟩)
      have heq := hthrough hmp (by
        rcases h.readsOrWrites (ht.sound.busy hwith) hmp with hk | hk <;> rw [hk] <;> decide)
      have hidp : (s'.kernel.req p).id = (S.stack.kernel.req p).id := by rw [heq]
      rw [hidp]
      exact h.through hfuel ht hcall hpt hmp heq

/-- **Every step of the stack** keeps the invariant. -/
theorem MappedStack.Mapping.stack (h : S.Mapping mover disk) (hfuel : biusMaxSegments < fuel)
    (ht : S.Turn mover buffer fuel T s' act) (hid : s'.kernel.nextRequestId < 2 ^ 64) :
    ({ T with stack := s' } : MappedStack).Mapping mover disk ∧ ∃ c, S.OnlyFor { T with stack := s' } c := by
  have hgoes := Stack.goes ht.step
  obtain ⟨hlog, hdisk⟩ := hgoes.disk ht.own
  obtain ⟨c, ho, -⟩ := h.reaches hfuel ht
  have hkind : ∀ p, s'.kernel.busy p = true → (s'.kernel.req p).ForCopy := by
    intro p hp
    have hallowed := ht.allowed
    rcases ht.requests.busy hp with ⟨hp, ha, -⟩ | ⟨t, rq, rfl, -, hnew, -⟩
    · exact ha.forCopy (h.kind p hp)
    · rw [hnew]
      exact .init _ _ hallowed.1 hallowed.2.1
  refine ⟨⟨hkind, fun p hp hmaps hw => h.brings ht ho hp hmaps hw,
    fun p q hpq hp hq hmp hmq hread => h.parts ht hpq hp hq hmp hmq hread, fun p hp => ?_, fun a ha => ?_,
    h.handlers.step ht.sound (hgoes.loop ht.own), fun d p hp => h.serves hfuel ht hkind hp, fun r hr hmaps => ?_,
      ?_, ?_⟩, c, ho⟩
  · show trace _ s'.proc.log = []
    rw [hlog]
    exact h.waits ht hid hp
  · change a ∈ s'.proc.log at ha
    rw [hlog] at ha
    exact Nat.le_trans (h.logged a ha) (Stack.next_le ht.step hid)
  · show r.Through mover s'.proc.log (T.arrived r.id)
    rw [hlog]
    exact h.ends hfuel ht hr hmaps
  · show Legal disk s'.proc.log
    rw [hlog]
    exact h.legal
  · show s'.proc.disk = play disk s'.proc.log
    rw [hlog, hdisk]
    exact h.disk

/-- A step of the kernel module is not held up by what it does to the memory: the copy-in
    comes to the end of its list. -/
theorem MappedStack.Mapping.effect (h : S.Mapping mover disk) (hfuel : biusMaxSegments < fuel)
    (hs : S.stack.Sound (mappedLibrary mover buffer)) (act : StackAct MappedProc) : ∃ T, S.effect fuel act = some T := by
  cases act with
  | take c =>
    unfold MappedStack.effect
    dsimp only
    split <;> exact ⟨_, rfl⟩
  | writeEnd c =>
    unfold MappedStack.effect
    dsimp only
    split
    · next d p header n hcall =>
      split
      · next hok =>
        have hwith : S.stack.kernel.With d p := Or.inr (Or.inr ⟨_, header, n, hcall⟩)
        have hmapped := (hs.mapped_iff hwith).2 ⟨by rw [hok.2.1]; rfl, hok.2.2⟩
        obtain ⟨vmStart, bytes, hserve⟩ := h.serving d p hmapped
        obtain ⟨hd, hexact, -⟩ := hserve.read hok.2.1
        obtain ⟨copies, hcopies, -⟩ := hserve.backed.copyIn hfuel hd hexact
        have hrequest : (biusMapData (S.stack.kernel.req p).plain vmStart (S.stack.kernel.req p).segs).2 =
            S.stack.kernel.req p :=
          hserve.shows.request
        rw [hrequest] at hcopies
        rw [hserve.shows.vma]
        simp only [Option.bind_some, hcopies, Option.map_some]
        exact ⟨_, rfl⟩
      · exact ⟨_, rfl⟩
    · exact ⟨_, rfl⟩
  | _ => exact ⟨S, rfl⟩

/-! ## Runs -/

/-- **Every step** keeps the invariant. -/
theorem MappedStack.Mapping.step {act : MappedAct} (h : S.Mapping mover disk) (hfuel : biusMaxSegments < fuel)
    (hs : S.stack.Sound (mappedLibrary mover buffer)) (hs' : S'.stack.Sound (mappedLibrary mover buffer))
    (hid : S'.stack.kernel.nextRequestId < 2 ^ 64) (hok : S.Allows mover buffer act)
    (hst : S.step mover buffer fuel act = some S') :
    S'.Mapping mover disk ∧ ((∀ kmem, act ≠ .memory kmem) → ∃ c, S.OnlyFor S' c) := by
  cases S.moves hst with
  | stack act T hnot hstep heff hS' =>
    have hreq := hs.requests h.isBlk hok.orders hstep
    obtain ⟨hmapping, ho⟩ := h.stack hfuel ⟨hs, hs', hstep, hnot, hok, hreq, S.reaches hs hreq hstep heff⟩ hid
    rw [← hS'] at hmapping ho
    exact ⟨hmapping, fun _ => ho⟩
  | call _ c call call' hcall hnone hgoes hS' =>
    rw [hS']
    exact ⟨h.call hs hcall hnone hgoes, fun _ => ⟨c, .same rfl rfl rfl⟩⟩
  | piece c n call t hcall ht hnone hnot hdata hfit hS' =>
    obtain ⟨hmapping, ho⟩ := h.piece hs hcall ht hnone hnot hdata hfit
    rw [hS']
    exact ⟨hmapping, fun _ => ⟨c, ho⟩⟩
  | memory kmem hS' =>
    rw [hS']
    exact ⟨h.memory hs hok, fun hnot => absurd rfl (hnot kmem)⟩

variable {k2u : Nat → K2u} {u2k : Nat → U2k} {mem kmem : Nat → UInt8} {words : Nat → Nat → Nat}
    {bounce : Nat → Nat → Nat → UInt8}

theorem MappedStack.reach_stack {b : MappedProc} (h : Machine.Reach (MappedStack.step mover buffer fuel)
      (MappedStack.Allows mover buffer) (MappedStack.init k2u u2k b kmem words bounce) S) :
    Machine.Reach (Stack.step ⟨true⟩ (mappedLibrary mover buffer))
      (Stack.Admits ⟨true⟩ (mappedLibrary mover buffer)) (Stack.init k2u u2k b) S.stack := by
  refine h.inv (I := fun S => Machine.Reach (Stack.step ⟨true⟩ (mappedLibrary mover buffer))
    (Stack.Admits ⟨true⟩ (mappedLibrary mover buffer)) (Stack.init k2u u2k b) S.stack) ?_ (.refl _)
  intro S act S' hr hok hst
  rcases (S.moves hst).inner with hsame | ⟨a, ha, hact⟩
  · rw [hsame]
    exact hr
  · refine hr.snoc ?_ ha
    rcases hact with rfl | ⟨b, rfl⟩
    · exact hok.admits
    · trivial

theorem MappedStack.next_le {act : MappedAct} (hst : S.step mover buffer fuel act = some S')
    (hid : S'.stack.kernel.nextRequestId < 2 ^ 64) : S.stack.kernel.nextRequestId ≤ S'.stack.kernel.nextRequestId := by
  rcases (S.moves hst).inner with hsame | ⟨a, ha, -⟩
  · rw [hsame]
  · exact Stack.next_le ha hid

theorem MappedStack.reach_mapping (hfuel : biusMaxSegments < fuel) (h : Machine.Reach (MappedStack.step mover buffer fuel)
      (MappedStack.Allows mover buffer) (MappedStack.init k2u u2k ⟨mem, disk, fun _ => none, []⟩ kmem words bounce) S)
    (hid : S.stack.kernel.nextRequestId < 2 ^ 64) : S.Mapping mover disk := by
  refine h.induct (I := fun S => S.stack.kernel.nextRequestId < 2 ^ 64 → S.Mapping mover disk)
    (fun _ => .init k2u u2k mem disk kmem words bounce) ?_ hid
  intro S act S' hreach ih hok hst hid'
  have hid := Nat.lt_of_le_of_lt (MappedStack.next_le hst hid') hid'
  have hs := Stack.reach_sound mappedLibrary_honest (MappedStack.reach_stack hreach) hid
  have hs' := Stack.reach_sound mappedLibrary_honest (MappedStack.reach_stack (hreach.snoc hok hst)) hid'
  exact ((ih hid).step hfuel hs hs' hid' hok hst).1

theorem MappedStack.reach_follow (hfuel : biusMaxSegments < fuel) (h : Machine.Reach (MappedStack.step mover buffer fuel)
      (MappedStack.Allows mover buffer) (MappedStack.init k2u u2k ⟨mem, disk, fun _ => none, []⟩ kmem words bounce) S)
    (hid : S.stack.kernel.nextRequestId < 2 ^ 64) {act : StackAct MappedProc} {s' : Stack MappedProc}
    (hnot : ∀ b, act ≠ .process b) (hst : S.stack.step ⟨true⟩ (mappedLibrary mover buffer) act = some s') :
    ∃ S', S.step mover buffer fuel (.stack act) = some S' ∧ S'.stack = s' := by
  have hs := Stack.reach_sound mappedLibrary_honest (MappedStack.reach_stack h) hid
  obtain ⟨T, hT⟩ := (MappedStack.reach_mapping hfuel h hid).effect hfuel hs act
  refine ⟨{ T with stack := s' }, ?_, rfl⟩
  cases act with
  | process b => exact absurd rfl (hnot b)
  | _ => simp only [MappedStack.step, hst, Option.bind_some, hT, Option.map_some]

end

/-! ## The handler comes to its end -/

section
variable {mover : Mover} {buffer : Nat → Nat} {fuel : Nat} {S : MappedStack} {k2u : Nat → K2u} {u2k : Nat → U2k}
  {mem disk kmem : Nat → UInt8} {words : Nat → Nat → Nat} {bounce : Nat → Nat → Nat → UInt8}

/-- **The handler of a mapped request comes to its end** by its own steps. -/
theorem MappedStack.handler_ends (hfuel : biusMaxSegments < fuel) (h : Machine.Reach (MappedStack.step mover buffer fuel)
      (MappedStack.Allows mover buffer) (MappedStack.init k2u u2k ⟨mem, disk, fun _ => none, []⟩ kmem words bounce) S)
    (hid : S.stack.kernel.nextRequestId < 2 ^ 64) {c : Nat} {p : Ptr} (hp : S.stack.kernel.MappedAt c p)
    (hpt : (S.stack.loop c).point = .handling) :
    ∃ acts S', (∀ act ∈ acts, act.Handles c) ∧
      Machine.Steps (MappedStack.step mover buffer fuel) (MappedStack.Allows mover buffer) S acts S' ∧
      S'.stack.kernel = S.stack.kernel ∧ S'.stack.loop = S.stack.loop ∧
      ∃ call, S'.stack.proc.call c = some call ∧ call.status.isSome = true := by
  obtain ⟨vmStart, _, hserving⟩ := (MappedStack.reach_mapping hfuel h hid).serving c p hp
  have hv := hserving.shows.vma
  have hstage := hserving.stage
  unfold Stack.Stage at hstage
  rw [hpt] at hstage
  obtain ⟨call, hcall, -⟩ := hstage
  obtain ⟨left, hleft⟩ : ∃ left, left = call.left (listEntries vmStart (S.stack.kernel.req p).segs).length :=
    ⟨_, rfl⟩
  clear hserving
  induction left using Nat.strong_induction_on generalizing S call with
  | _ left ih =>
    cases hnone : call.status with
    | some status => exact ⟨[], S, fun _ ha => (by cases ha), .nil S, rfl, rfl, call, hcall, by rw [hnone]; rfl⟩
    | none =>
      have hm := MappedStack.reach_mapping hfuel h hid
      have hs := Stack.reach_sound mappedLibrary_honest (MappedStack.reach_stack h) hid
      obtain ⟨vm, bytes, hserving⟩ := hm.serving c p hp
      obtain rfl : vm = vmStart := Option.some.inj (hserving.shows.vma.symm.trans hv)
      have hkind := hm.readsOrWrites (hs.busy hp.held) ((hs.mapped_iff hp.held).1 hp)
      obtain ⟨act, S', call', hact, hst, hkernel, hloop, hcall', hlt⟩ := hserving.handler_steps hkind hpt hcall hnone
      have hok : S.Allows mover buffer act := by
        cases act with
        | stack act => exact hact.elim
        | memory kmem => exact hact.elim
        | _ => trivial
      obtain ⟨acts, S'', hacts, hsteps, hkernel', hloop', hend⟩ :=
        ih _ (hleft ▸ hlt) (h.snoc hok hst) (by rw [hkernel]; exact hid)
        (by rw [hkernel]; exact hp) (by rw [hloop]; exact hpt) (by rw [hkernel]; exact hv) call' hcall' (by rw [hkernel])
      refine ⟨act :: acts, S'', fun b hb => ?_, .cons hok hst hsteps, hkernel'.trans hkernel, hloop'.trans hloop, hend⟩
      rcases List.mem_cons.1 hb with rfl | hb
      · exact hact
      · exact hacts b hb

end

/-- **The data of mapped requests**, from the segments in kernel memory through the windows to
    the disk and back. In every state that is reached, however the loops, their callbacks, the
    kernel module and the rest of the kernel take turns: the history of the disk is legal and
    explains what is on it; each mapped request that has been completed has its accesses in it,
    all of them if it succeeded, and what a read has read has arrived in its segments; each that
    is still mapped is `Serving`, and its handler comes to its end by its own steps; and a step
    changes kernel memory in the segments of a mapped read alone, unless it is one of the rest
    of the kernel. No copy-in stays in its loop. -/
theorem mapped_disk (mover : Mover) (buffer : Nat → Nat) {fuel : Nat} (hfuel : biusMaxSegments < fuel)
    {k2u : Nat → K2u} {u2k : Nat → U2k} {mem disk kmem : Nat → UInt8} {words : Nat → Nat → Nat}
    {bounce : Nat → Nat → Nat → UInt8} {S : MappedStack}
    (h : Machine.Reach (MappedStack.step mover buffer fuel) (MappedStack.Allows mover buffer)
      (MappedStack.init k2u u2k ⟨mem, disk, fun _ => none, []⟩ kmem words bounce) S)
    (hid : S.stack.kernel.nextRequestId < 2 ^ 64) :
    Legal disk S.stack.proc.log ∧ S.stack.proc.disk = play disk S.stack.proc.log ∧
    (∀ r ∈ S.stack.kernel.ended, r.Maps → r.Through mover S.stack.proc.log (S.arrived r.id)) ∧
    (∀ c p, S.stack.kernel.MappedAt c p → ∃ vmStart bytes, S.Serving mover c p vmStart bytes) ∧
    (∀ c p, S.stack.kernel.MappedAt c p → (S.stack.loop c).point = .handling →
      ∃ acts S', (∀ act ∈ acts, act.Handles c) ∧
      Machine.Steps (MappedStack.step mover buffer fuel) (MappedStack.Allows mover buffer) S acts S' ∧
      S'.stack.kernel = S.stack.kernel ∧ S'.stack.loop = S.stack.loop ∧
      ∃ call, S'.stack.proc.call c = some call ∧ call.status.isSome = true) ∧
    (∀ act S', S.Allows mover buffer act → S.step mover buffer fuel act = some S' →
      S'.stack.kernel.nextRequestId < 2 ^ 64 →
      (∀ kmem, act ≠ .memory kmem) → ∀ a, S'.kmem a ≠ S.kmem a →
      ∃ c p, S.stack.kernel.MappedAt c p ∧ (S.stack.kernel.req p).type = .read ∧
        ∃ s ∈ (S.stack.kernel.req p).segs, s.Mem a) ∧
    ∀ act s', (∀ b, act ≠ .process b) → S.stack.step ⟨true⟩ (mappedLibrary mover buffer) act = some s' →
      ∃ S', S.step mover buffer fuel (.stack act) = some S' ∧ S'.stack = s' := by
  have hmapping := MappedStack.reach_mapping hfuel h hid
  have hs := Stack.reach_sound mappedLibrary_honest (MappedStack.reach_stack h) hid
  refine ⟨hmapping.legal, hmapping.disk, hmapping.ended, hmapping.serving,
    fun c p hp hpt => MappedStack.handler_ends hfuel h hid hp hpt, fun act S' hok hst hid' hnot a ha => ?_,
    fun act s' hnot hst => MappedStack.reach_follow hfuel h hid hnot hst⟩
  have hs' := Stack.reach_sound mappedLibrary_honest (MappedStack.reach_stack (h.snoc hok hst)) hid'
  obtain ⟨c, ho⟩ := (hmapping.step hfuel hs hs' hid' hok hst).2 hnot
  obtain ⟨p, hp⟩ := ho.kmem a ha
  exact ⟨c, p, hp⟩

/-! ## A read in two pieces -/

theorem zeros_pos (n : Nat) : 0 < (List.replicate (n + 1) (0 : UInt8)).length := by
  rw [List.length_replicate]
  exact Nat.zero_lt_succ n

/-- The start of a page, the end of another, and 32 whole pages. -/
def listReadBios : List Bio :=
  [⟨[⟨7, 0, List.replicate 512 0, zeros_pos 511⟩, ⟨8, 512, List.replicate 3584 0, zeros_pos 3583⟩,
    ⟨100, 0, List.replicate 131072 0, zeros_pos 131071⟩]⟩]

theorem listReadBios_length : (chainBytes listReadBios).length = 135168 := by
  simp only [listReadBios, chainBytes_cons, chainBytes_nil, Bio.bytes, List.flatMap_cons, List.flatMap_nil,
    List.append_nil, List.length_append, List.length_replicate]

def listRead : Rq where
  op := 0
  sector := 0
  dataLen := 135168
  bios := listReadBios
  len_eq := fun _ => listReadBios_length.symm

theorem listRead_segments : (initBlkRequest .blank 1 listRead).segs = agreeingSegs := by
  show rqForEachSegment listRead.bios = _
  simp only [rqForEachSegment, listRead, listReadBios, List.flatMap_cons, List.flatMap_nil, List.append_nil,
    List.length_replicate]
  decide

theorem listRead_layout : MapLayout (initBlkRequest .blank 1 listRead) (initBlkRequest .blank 1 listRead).segs
    0x7f0000000000 := by
  rw [listRead_segments]
  exact {
    unmapped := rfl
    long := show biusMapDataThreshold < 135168 by decide
    ok := agreeingLayout.ok
    sum := agreeingLayout.sum
    window := agreeingLayout.window
    entries := agreeingLayout.entries
    bounces := agreeingLayout.bounces
    aligned := agreeingLayout.aligned
    nonzero := agreeingLayout.nonzero }

theorem listRead_entries : listEntries 0x7f0000000000 (initBlkRequest .blank 1 listRead).segs =
    [(0x7f0000000000, 512), (0x7f0000001200, 134656)] := by
  rw [listRead_segments]
  decide

theorem listRead_exact : SegsDisjoint (initBlkRequest .blank 1 listRead).segs ∧
    CopyInExact 0x7f0000000000 (initBlkRequest .blank 1 listRead).segs := by
  refine ⟨segsDisjoint_of_pages listRead_layout.ok ?_, copyInExact_of_agree (fun i a l hi => ?_)⟩
  · rw [listRead_segments]
    decide
  · rw [listRead_entries] at hi ⊢
    match i with
    | 0 => cases hi; decide
    | 1 => cases hi; decide
    | i + 2 => simp at hi

theorem readHanded_run (rq : Rq) (hop : rq.op = 0) (hlen : biusMapDataThreshold < rq.dataLen) (buffer : Nat → Nat)
    (b : MappedProc) (s : Stack MappedProc)
    (hs : s = Stack.init (fun _ => ⟨0, .read, 0, 0, 0, 0, .unmapped⟩) (fun _ => ⟨0, 0, 0⟩) b) :
    ∃ s₁ s₂ s₃ s₄ s₅, Machine.run (Stack.step ⟨true⟩ (mappedLibrary .memcpy buffer)) s
      [.attach 0, .mmap 0 0x7f0000000000] = some s₁ ∧
      (∀ q, s₁.kernel.busy q = false) ∧ s₁.kernel.req 5 = .blank ∧ s₁.kernel.newId = 1 ∧
      Machine.run (Stack.step ⟨true⟩ (mappedLibrary .memcpy buffer)) s₁
        [.block (.queueRq (.blk 0) 5 rq), .block (.insert (.blk 0)), .block (.ret (.blk 0))] = some s₂ ∧
      s₂.step ⟨true⟩ (mappedLibrary .memcpy buffer) (.read 0 []) = some s₃ ∧
        s₃.kernel.call (.user 0) = .readWait 0 ∧
      s₃.kernel.pending = [5] ∧ s₃.kernel.req 5 = initBlkRequest .blank 1 rq ∧
      (s₃.kernel.conn 0).vma = some 0x7f0000000000 ∧
      s₃.step ⟨true⟩ (mappedLibrary .memcpy buffer) (.take 0) = some s₄ ∧
      Machine.run (Stack.step ⟨true⟩ (mappedLibrary .memcpy buffer)) s₄ [.send 0, .readReturn 0] = some s₅ ∧
      s₅.kernel.nextRequestId = 1 ∧ s₅.kernel.call (.user 0) = .idle ∧ (s₅.kernel.conn 0).attached = true ∧
      (s₅.kernel.conn 0).waiting = [5] ∧ (s₅.kernel.conn 0).vma = some 0x7f0000000000 ∧
      (s₅.loop 0).point = .handling ∧
      s₅.kernel.req 5 = (biusMapData (initBlkRequest .blank 1 rq) 0x7f0000000000 (rqForEachSegment rq.bios)).2 := by
  have hty : toBiusRequest rq.op = .read := by rw [hop]; rfl
  have hpos : 0 < rq.dataLen := Nat.lt_of_le_of_lt (Nat.zero_le _) hlen
  have hnone : ∀ (r : BiusRequest) (vmStart : Nat) (segs : List Seg), r.type = .read →
      copyInReads (k2uHeader true vmStart (biusMapData r vmStart segs).2) = false := by
    intro r vmStart segs hr
    obtain ⟨_, _, _, hkeeps⟩ := biusMapData_keeps r vmStart segs
    have hop : (k2uHeader true vmStart (biusMapData r vmStart segs).2).opcode = .read := by
      rw [hkeeps, ← hr]
      unfold k2uHeader
      split <;> rfl
    simp [copyInReads, hop, requestIsWrite]
  subst hs
  simp [Machine.run, Stack.step, Stack.loopStep, Stack.kernelStep, Stack.init, Act.ofBlockLayer, step,
    Kernel.init, Connection.new, Kernel.queueRq, initBlkRequest, hty, Kernel.newId, Kernel.readStart, Kernel.readTake,
    Kernel.prepare, requestMayHaveData, hlen, hpos, Kernel.mapData, isBlkRequest, sizeofK2u, BiusRequest.blank,
      Kernel.readSend,
    Loop.readReturned, Loop.command, Loop.handle, hnone, mappedLibrary, MappedProc.setCall]

theorem readReplied_run {buffer : Nat → Nat} {s : Stack MappedProc} {call : MappedCall} {vmStart : Nat}
    (hpt : (s.loop 0).point = .handling) (hcall : s.proc.call 0 = some call) (hstatus : call.status = some blkStsOk)
    (hid : (s.loop 0).k2u.id = (s.kernel.req 5).id) (hidle : s.kernel.call (.user 0) = .idle)
    (hatt : (s.kernel.conn 0).attached = true) (hw : (s.kernel.conn 0).waiting = [5])
    (htype : (s.kernel.req 5).type = .read) (hlen : biusMapDataThreshold < (s.kernel.req 5).length)
    (hvma : (s.kernel.conn 0).vma = some vmStart) :
    ∃ s₁ s₂, Machine.run (Stack.step ⟨true⟩ (mappedLibrary .memcpy buffer)) s [.reply 0, .write 0] =
      some s₁ ∧
      s₁.kernel.nextRequestId = s.kernel.nextRequestId ∧
      s₁.kernel.req 5 = s.kernel.req 5 ∧ (s₁.loop 0).u2k.reply = blkStsOk ∧
      s₁.kernel.call (.user 0) = .replied 0 5 (s₁.loop 0).u2k sizeofU2k ∧
      s₁.step ⟨true⟩ (mappedLibrary .memcpy buffer) (.writeEnd 0) = some s₂ ∧
      s₂.kernel.nextRequestId = s.kernel.nextRequestId := by
  have hnot : ¬ (s.kernel.req 5).length ≤ biusMapDataThreshold := by omega
  simp [Machine.run, Stack.step, Stack.kernelStep, step, hpt, hcall, hstatus, hid, hidle, hatt, hw, mappedLibrary,
    mappedReply, Kernel.writeStart, sizeofU2k, Kernel.getRequestById, Kernel.writeEnd, htype, isBlkRequest, hnot,
      Kernel.finishBlk, hvma]
  split <;> rfl

section
variable {mover : Mover} {buffer : Nat → Nat} {fuel : Nat} {S : MappedStack} {k2u : Nat → K2u} {u2k : Nat → U2k}
  {mem disk kmem : Nat → UInt8} {words : Nat → Nat → Nat} {bounce : Nat → Nat → Nat → UInt8}

/-- A run of the stack is one of the whole, where nothing is asked of the rest of the kernel. -/
theorem MappedStack.reach_run (hfuel : biusMaxSegments < fuel) (h : Machine.Reach (MappedStack.step mover buffer fuel)
      (MappedStack.Allows mover buffer) (MappedStack.init k2u u2k ⟨mem, disk, fun _ => none, []⟩ kmem words bounce) S)
    {acts : List (StackAct MappedProc)} {s' : Stack MappedProc}
    (hacts : ∀ a ∈ acts, (∀ b, a ≠ .process b) ∧ ∀ S, MappedStack.Allows mover buffer S (.stack a))
    (hrun : Machine.run (Stack.step ⟨true⟩ (mappedLibrary mover buffer)) S.stack acts = some s')
    (hid : s'.kernel.nextRequestId < 2 ^ 64) :
    ∃ S', Machine.Reach (MappedStack.step mover buffer fuel) (MappedStack.Allows mover buffer)
      (MappedStack.init k2u u2k ⟨mem, disk, fun _ => none, []⟩ kmem words bounce) S' ∧ S'.stack = s' := by
  induction acts generalizing S with
  | nil =>
    cases hrun
    exact ⟨S, h, rfl⟩
  | cons act acts ih =>
    have hle := Stack.steps_next_le (Machine.Steps.of_run hrun) hid
    obtain ⟨s, hst, hrest⟩ := Machine.run_cons.1 hrun
    obtain ⟨hnot, hok⟩ := hacts act (List.mem_cons_self ..)
    obtain ⟨S', hS', rfl⟩ := MappedStack.reach_follow hfuel h (by omega) hnot hst
    exact ih (h.snoc (hok S) hS') (fun a ha => hacts a (List.mem_cons_of_mem _ ha)) hrest

end

/-- `examples/ramdisk.c` before anything happens. -/
def ramdiskIdle : MappedStack :=
  MappedStack.init (fun _ => ⟨0, .read, 0, 0, 0, 0, .unmapped⟩) (fun _ => ⟨0, 0, 0⟩)
    ⟨fun _ => 0, fun a => UInt8.ofNat a, fun _ => none, []⟩ (fun _ => 0) (fun _ _ => 0) (fun _ _ _ => 0)

theorem listRead_handed : ∃ S : MappedStack,
    Machine.Reach (MappedStack.step .memcpy rowOfBuffers 257) (MappedStack.Allows .memcpy rowOfBuffers) ramdiskIdle S ∧
      S.stack.kernel.nextRequestId = 1 ∧ S.stack.kernel.call (.user 0) = .idle ∧
        (S.stack.kernel.conn 0).attached = true ∧
      (S.stack.kernel.conn 0).waiting = [5] ∧ (S.stack.kernel.conn 0).vma = some 0x7f0000000000 ∧
      (S.stack.loop 0).point = .handling ∧
      (initBlkRequest .blank 1 listRead).Alike (S.stack.kernel.req 5) := by
  have hfuel : biusMaxSegments < 257 := by decide
  obtain ⟨s₁, s₂, s₃, s₄, s₅, hrun₁, hbusy, hblank, hnew, hrun₂, hread, hwait, hpending, hreq, hvma,
    htake, hrun₅, hnext, hidle, hatt, hw, hvma₅, hpt, hreq₅⟩ :=
      readHanded_run listRead rfl (by decide) rowOfBuffers
      ⟨fun _ => 0, fun a => UInt8.ofNat a, fun _ => none, []⟩ _ rfl
  -- there is but one id
  have hid₅ : s₅.kernel.nextRequestId < 2 ^ 64 := by omega
  have hid₄ := Nat.lt_of_le_of_lt (Stack.steps_next_le (Machine.Steps.of_run hrun₅) hid₅) hid₅
  have hid₃ := Nat.lt_of_le_of_lt (Stack.next_le htake hid₄) hid₄
  have hid₂ := Nat.lt_of_le_of_lt (Stack.next_le hread hid₃) hid₃
  have hid₁ := Nat.lt_of_le_of_lt (Stack.steps_next_le (Machine.Steps.of_run hrun₂) hid₂) hid₂
  obtain ⟨S₁, h₁, rfl⟩ := MappedStack.reach_run hfuel (.refl ramdiskIdle)
    (by simp [MappedStack.Allows, Stack.Admits]) hrun₁ hid₁
  -- it is submitted
  obtain ⟨s, hst, hrun₂⟩ := Machine.run_cons.1 hrun₂
  obtain ⟨S₁', hS₁', rfl⟩ := MappedStack.reach_follow hfuel h₁ hid₁ (by simp) hst
  have hsubmit : S₁.Allows .memcpy rowOfBuffers (.stack (.block (.queueRq (.blk 0) 5 listRead))) := by
    refine ⟨Or.inl rfl, by decide, fun _ => (show listRead.dataLen ≤ biusMaxSizePerCommand by decide),
      fun _ => ⟨fun hw => ?_, fun q hq => ?_⟩⟩
    · cases hw
    · rw [hbusy q] at hq
      cases hq
  obtain ⟨S₂, h₂, rfl⟩ := MappedStack.reach_run hfuel (h₁.snoc hsubmit hS₁')
    (by simp [MappedStack.Allows, Stack.Admits]) hrun₂ hid₂
  -- the loop looks for a command, and takes it
  obtain ⟨S₃, hS₃, rfl⟩ := MappedStack.reach_follow hfuel h₂ hid₂ (by simp) hread
  have hlook : S₂.Allows .memcpy rowOfBuffers (.stack (.read 0 [])) := by
    intro s' hs'
    rw [hread] at hs'
    cases hs'
    rw [hwait]
    simp
  have h₃ := h₂.snoc hlook hS₃
  obtain ⟨S₄, hS₄, rfl⟩ := MappedStack.reach_follow hfuel h₃ hid₃ (by simp) htake
  have hfits : S₃.Allows .memcpy rowOfBuffers (.stack (.take 0)) := by
    intro p ps vmStart hps _ hv
    rw [hpending] at hps
    cases hps
    rw [hvma] at hv
    cases hv
    rw [hreq]
    exact ⟨listRead_layout, fun _ => listRead_exact⟩
  obtain ⟨S₅, h₅, rfl⟩ := MappedStack.reach_run hfuel (h₃.snoc hfits hS₄)
    (by simp [MappedStack.Allows, Stack.Admits]) hrun₅ hid₅
  obtain ⟨_, _, _, hkeeps⟩ := biusMapData_keeps (initBlkRequest .blank 1 listRead) 0x7f0000000000
    (rqForEachSegment listRead.bios)
  refine ⟨S₅, h₅, hnext, hidle, hatt, hw, hvma₅, hpt, ?_⟩
  rw [hreq₅, hkeeps]
  exact ⟨rfl, rfl, rfl, rfl, rfl⟩

/-- It serves a read whose data is in two pieces: an entry of the list for each of them is
    read through the window, and the bytes are in the pages of the request when it ends. -/
theorem mapped_disk_listRead : ∃ (S : MappedStack) (r : BiusRequest),
    Machine.Reach (MappedStack.step .memcpy rowOfBuffers 257) (MappedStack.Allows .memcpy rowOfBuffers) ramdiskIdle S ∧
    r ∈ S.stack.kernel.ended ∧ r.Maps ∧ (listEntries 0x7f0000000000 r.segs).length = 2 ∧ r.blkResult = blkStsOk ∧
    r.Through .memcpy S.stack.proc.log (S.arrived r.id) := by
  have hfuel : biusMaxSegments < 257 := by decide
  obtain ⟨S₁, h₁, hnext, hidle, hatt, hw, hvma₁, hpt, ha⟩ := listRead_handed
  have hid₁ : S₁.stack.kernel.nextRequestId < 2 ^ 64 := by omega
  have hs₁ := Stack.reach_sound mappedLibrary_honest (MappedStack.reach_stack h₁) hid₁
  have hlong : (initBlkRequest .blank 1 listRead).Maps := ⟨rfl, by show biusMapDataThreshold < 135168; decide⟩
  have hmaps : (S₁.stack.kernel.req 5).Maps := ha.maps.2 hlong
  have hwith : S₁.stack.kernel.With 0 5 := Or.inl (by rw [hw]; exact List.mem_singleton_self 5)
  have hmapped := (hs₁.mapped_iff hwith).2 hmaps
  obtain ⟨v, hv, hk2u⟩ := (hs₁.served 0).command 5 hpt hmapped
  rw [hvma₁] at hv
  cases hv
  have htype : (S₁.stack.kernel.req 5).type = .read := ha.type
  -- the handler comes to its end
  obtain ⟨acts, S₂, -, hsteps₂, hkernel, hloop, call, hcall₂, hthrough₂⟩ :=
    MappedStack.handler_ends hfuel h₁ hid₁ hmapped hpt
  have h₂ : Machine.Reach (MappedStack.step .memcpy rowOfBuffers 257) (MappedStack.Allows .memcpy rowOfBuffers)
      ramdiskIdle S₂ := by
    obtain ⟨before, hbefore⟩ := h₁
    exact ⟨_, hbefore.append hsteps₂⟩
  have hid₂ : S₂.stack.kernel.nextRequestId < 2 ^ 64 := by rw [hkernel]; exact hid₁
  obtain ⟨status, hstatus⟩ := Option.isSome_iff_exists.1 hthrough₂
  have hok₂ : status = blkStsOk := by
    obtain ⟨vmStart, bytes, hserving⟩ := (MappedStack.reach_mapping hfuel h₂ hid₂).serving 0 5
      (by rw [hkernel]; exact hmapped)
    have hstage := hserving.stage
    unfold Stack.Stage at hstage
    rw [hloop, hpt] at hstage
    obtain ⟨call', hcall', hruns⟩ := hstage
    rw [hcall₂] at hcall'
    cases hcall'
    rcases hruns.through status hstatus with ⟨hok, -⟩ | ⟨-, hsys⟩
    · exact hok
    · cases hsys
  subst hok₂
  -- the reply
  obtain ⟨s₃, s₄, hrun₃, hnext₃, hreq₃, hok, hreplied, hst₄, hnext₄⟩ :=
    @readReplied_run rowOfBuffers S₂.stack call 0x7f0000000000
    (by rw [hloop]; exact hpt) hcall₂ hstatus (by rw [hloop, hkernel, hk2u]; unfold k2uHeader; split <;> rfl)
    (by rw [hkernel]; exact hidle) (by rw [hkernel]; exact hatt) (by rw [hkernel]; exact hw)
    (by rw [hkernel]; exact htype) (by rw [hkernel]; exact hmaps.2)
    (by rw [hkernel]; exact hvma₁)
  have hid₃ : s₃.kernel.nextRequestId < 2 ^ 64 := by rw [hnext₃, hkernel]; exact hid₁
  have hid₄ : s₄.kernel.nextRequestId < 2 ^ 64 := by rw [hnext₄, hkernel]; exact hid₁
  obtain ⟨S₃, h₃, rfl⟩ := MappedStack.reach_run hfuel h₂ (by simp [MappedStack.Allows, Stack.Admits])
    hrun₃ hid₃
  obtain ⟨S₄, hS₄, rfl⟩ := MappedStack.reach_follow hfuel h₃ hid₃ (by simp) hst₄
  have h₄ := h₃.snoc (show S₃.Allows .memcpy rowOfBuffers (.stack (.writeEnd 0)) from trivial) hS₄
  have hs₃ := Stack.reach_sound mappedLibrary_honest (MappedStack.reach_stack h₃) hid₃
  have hm₃ := MappedStack.reach_mapping hfuel h₃ hid₃
  have hreq₃' : S₃.stack.kernel.req 5 = S₁.stack.kernel.req 5 := hreq₃.trans (by rw [hkernel])
  cases hs₃.requests hm₃.isBlk (show (StackAct.writeEnd 0).Orders from trivial) hst₄ with
  | kept _ _ _ hnot => exact absurd rfl (hnot 0)
  | ended _ p n hcallp _ _ _ hended _ hthrough =>
    rw [hreplied] at hcallp
    cases hcallp
    rw [hreq₃'] at hthrough
    have hr := hthrough hmaps (by rw [htype]; decide)
    have hmem : S₄.stack.kernel.req 5 ∈ S₄.stack.kernel.ended := by
      rw [hended]
      simp
    have hmapsr : (S₄.stack.kernel.req 5).Maps := by
      rw [hr]
      exact hmaps
    refine ⟨S₄, S₄.stack.kernel.req 5, h₄, hmem, hmapsr, ?_, ?_,
      (mapped_disk .memcpy rowOfBuffers hfuel h₄ hid₄).2.2.1 _ hmem hmapsr⟩
    · rw [hr]
      show (listEntries _ (S₁.stack.kernel.req 5).segs).length = 2
      rw [ha.segs, listRead_entries]
      rfl
    · rw [hr, hok]
      rfl

end Bius
