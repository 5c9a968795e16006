import Bius.CopyStack
import Bius.LibraryWindow
import Bius.WindowPresence

/- What a step of the whole does in the CONFIG_BIUS_DATAMAP build. `Stack.Goes` is the part
   of the loops and the process: what each step does to the variables of a loop.
   `Stack.Requests` is the part of the requests: they keep what they were submitted with
   until they are ended. `Stack.Sound` collects what is known of every state that is
   reached; what follows from it about the request that a connection has mapped is here
   too. -/
namespace Bius

/-! ## The loops -/

section
variable {β α : Type}

/-- What a step does to the loops and to their process. -/
inductive Stack.Goes (B : Backend β α) (s s' : Stack β) : StackAct α → Prop where
  | inside (act : StackAct α) : s'.loop = s.loop → s'.proc = s.proc → Goes B s s' act
  /-- a connection is made ready -/
  | begins (act : StackAct α) (c : Nat) (point : Point) : (s.loop c).point = .starting ∨ (s.loop c).point = .mapping →
      point = .mapping ∨ point = .reading → s'.loop = Function.update s.loop c { s.loop c with point := point } →
      s'.proc = s.proc → Goes B s s' act
  | read (c : Nat) (r : Ret) : (s.loop c).point ≠ .writing → s.kernel.call (.user c) = .done r →
      s'.loop = Function.update s.loop c ((s.loop c).readReturned B c r s.proc).1 →
      s'.proc = ((s.loop c).readReturned B c r s.proc).2 → Goes B s s' (.readReturn c)
  | replied (c : Nat) (res : β × U2k) : (s.loop c).point = .handling →
      B.leave c (s.loop c).k2u (s.loop c).u2k s.proc = some res →
      s'.loop = Function.update s.loop c { s.loop c with u2k := res.2, point := .writing } → s'.proc = res.1 →
      Goes B s s' (.reply c)
  | wrote (c : Nat) (r : Ret) : (s.loop c).point = .writing → s.kernel.call (.user c) = .done r →
      s'.loop = Function.update s.loop c ((s.loop c).writeReturned B r s.proc).1 →
      s'.proc = ((s.loop c).writeReturned B r s.proc).2 → Goes B s s' (.writeReturn c)
  | acts (a : α) : s'.loop = s.loop → B.act s.proc a = some s'.proc → Goes B s s' (.process a)

variable {cfg : Config} {B : Backend β α} {s s' : Stack β}

theorem Stack.goes {act : StackAct α} (hs : s.step cfg B act = some s') : s.Goes B s' act := by
  have hinside : ∀ {a : Act}, s.kernelStep cfg a = some s' → s.Goes B s' act := by
    intro a ha
    unfold Stack.kernelStep at ha
    rw [Option.map_eq_some_iff] at ha
    obtain ⟨k, -, rfl⟩ := ha
    exact .inside act rfl rfl
  cases act with
  | attach c =>
    simp only [Stack.step, Stack.loopStep] at hs
    split at hs
    · next hpt =>
      rw [Option.map_eq_some_iff] at hs
      obtain ⟨k, -, rfl⟩ := hs
      exact .begins _ c .mapping (Or.inl hpt) (Or.inl rfl) rfl rfl
    · cases hs
  | mmap c vmStart =>
    simp only [Stack.step, Stack.loopStep] at hs
    split at hs
    · next hpt =>
      split at hs
      · rw [Option.map_eq_some_iff] at hs
        obtain ⟨k, -, rfl⟩ := hs
        exact .begins _ c .reading (Or.inr hpt) (Or.inr rfl) rfl rfl
      · cases hs
        exact .begins _ c .reading (Or.inr hpt) (Or.inr rfl) rfl rfl
    · cases hs
  | block a =>
    simp only [Stack.step] at hs
    split at hs
    · exact hinside hs
    · cases hs
  | read c cuts =>
    simp only [Stack.step] at hs
    split at hs
    · exact hinside hs
    · exact hinside hs
    · cases hs
  | take c | send c | writeEnd c => exact hinside hs
  | readReturn c =>
    simp only [Stack.step] at hs
    split at hs
    · cases hs
    · next r hcall hpt =>
      unfold Stack.loopStep at hs
      rw [Option.map_eq_some_iff] at hs
      obtain ⟨k, -, rfl⟩ := hs
      exact .read c r hpt hcall rfl rfl
    · cases hs
  | reply c =>
    simp only [Stack.step] at hs
    split at hs
    · next hpt =>
      rw [Option.map_eq_some_iff] at hs
      obtain ⟨res, hres, rfl⟩ := hs
      exact .replied c res hpt hres rfl rfl
    · cases hs
  | write c =>
    simp only [Stack.step] at hs
    split at hs
    · exact hinside hs
    · cases hs
  | writeReturn c =>
    simp only [Stack.step] at hs
    split at hs
    · next r hpt hcall =>
      unfold Stack.loopStep at hs
      rw [Option.map_eq_some_iff] at hs
      obtain ⟨k, -, rfl⟩ := hs
      exact .wrote c r hpt hcall rfl rfl
    · cases hs
  | process a =>
    simp only [Stack.step] at hs
    rw [Option.map_eq_some_iff] at hs
    obtain ⟨b, hb, rfl⟩ := hs
    exact .acts a rfl hb

end

/-! ## Every state that is reached -/

section
variable {β α : Type} {B : Backend β α} {s s' : Stack β}

/-- What is known of every state that is reached before the ids come round. -/
structure Stack.Sound (B : Backend β α) (s : Stack β) : Prop where
  agrees : s.Agrees ⟨true⟩ B
  own : s.kernel.OwnCalls
  served : ∀ c, s.WindowServed B c
  life : s.kernel.life.Inv

theorem Stack.reach_sound (hB : B.Honest ⟨true⟩) {k2u : Nat → K2u} {u2k : Nat → U2k} {b : β}
    (h : Machine.Reach (Stack.step ⟨true⟩ B) (Stack.Admits ⟨true⟩ B) (Stack.init k2u u2k b) s)
    (hid : s.kernel.nextRequestId < 2 ^ 64) : s.Sound B := by
  obtain ⟨hown, hw⟩ := Stack.reach_window hB h
  refine ⟨Stack.reach_agrees hB h, hown, fun c => ?_, ?_⟩
  · refine (Stack.reach_agrees hB h).windowServed hown (hw c) (fun s' hs => ?_)
    have h' := h.snoc (a := StackAct.writeEnd c) trivial hs
    obtain ⟨hown', hw'⟩ := Stack.reach_window hB h'
    exact ⟨Stack.reach_agrees hB h', hown', hw' c⟩
  · refine h.inv (I := fun s => s.kernel.nextRequestId < 2 ^ 64 → s.kernel.life.Inv) (fun s act s' ih _ hs hid' => ?_)
      (fun _ => Life.Inv.init) hid
    have hold := ih (Nat.lt_of_le_of_lt (Stack.next_le hs hid') hid')
    rcases Stack.step_moves hs with hsame | ⟨a, -, ha⟩
    · rw [hsame]
      exact hold
    · rcases step_life ha hid' with heq | hmove
      · rw [heq]
        exact hold
      · exact hold.step hmove

namespace Stack.Sound

theorem located (h : s.Sound B) : ∃ loc, Life.Located loc s.kernel.life := by
  obtain ⟨loc, hl, -⟩ := h.life
  exact ⟨loc, hl⟩

theorem busy (h : s.Sound B) {c : Nat} {p : Ptr} (hp : s.kernel.With c p) : s.kernel.busy p = true := by
  obtain ⟨loc, hl⟩ := h.located
  exact with_busy hl hp

theorem onTheWay (h : s.Sound B) {p : Ptr} (hp : s.kernel.OnTheWay p) :
    s.kernel.busy p = true ∧ ∀ c, ¬ s.kernel.With c p := by
  obtain ⟨loc, hl⟩ := h.located
  have hloc := hp.located hl
  constructor
  · apply (hl.busy p).2
    rcases hloc with hloc | ⟨t, hloc⟩ <;> rw [hloc] <;> simp
  · intro c hc
    rcases with_loc hl hc with hw | ⟨t, hw⟩ | ⟨t, hw⟩ <;> rw [hw] at hloc <;> simp at hloc

theorem inj (h : s.Sound B) {c d : Nat} {p : Ptr} (hp : s.kernel.With c p) (hq : s.kernel.With d p) : c = d := by
  obtain ⟨loc, hl⟩ := h.located
  exact with_inj hl hp hq

theorem distinct (h : s.Sound B) {p q : Ptr} (hp : s.kernel.busy p = true) (hq : s.kernel.busy q = true)
    (hid : (s.kernel.req p).id = (s.kernel.req q).id) : p = q := by
  obtain ⟨loc, hl, hn⟩ := h.life
  exact hn.inj p q ((hl.busy p).1 hp) ((hl.busy q).1 hq) hid

theorem ids (h : s.Sound B) {p : Ptr} (hp : s.kernel.busy p = true) : (s.kernel.req p).id ≤ s.kernel.nextRequestId := by
  obtain ⟨loc, hl, hn⟩ := h.life
  exact hn.ids p ((hl.busy p).1 hp)

theorem past (h : s.Sound B) {c : Nat} {p : Ptr} (hp : s.kernel.With c p) {r : BiusRequest} (hr : r ∈ s.kernel.ended) :
    (s.kernel.req p).id ≠ r.id := by
  obtain ⟨loc, hl, hn⟩ := h.life
  intro heq
  refine hn.alive p ?_ (show (s.kernel.req p).id ∈ s.kernel.ended.map BiusRequest.id by
    rw [heq]
    exact List.mem_map_of_mem hr)
  rcases with_loc hl hp with hloc | ⟨t, hloc⟩ | ⟨t, hloc⟩ <;> rw [hloc] <;> trivial

theorem mapped_iff (h : s.Sound B) {c : Nat} {p : Ptr} (hp : s.kernel.With c p) :
    s.kernel.MappedAt c p ↔ (s.kernel.req p).Maps :=
  (h.served c).mapped p hp

theorem sole (h : s.Sound B) {c : Nat} {p q : Ptr} (hp : s.kernel.With c p) (hq : s.kernel.With c q) : p = q :=
  (h.served c).sole p q hp hq

/-- A loop that handles a command is in no call, and its command is that of the request of
    its connection. -/
theorem handling (h : s.Sound B) {c : Nat} (hpt : (s.loop c).point = .handling) : s.kernel.call (.user c) = .idle ∧
    ∃ p, s.kernel.With c p ∧ (s.loop c).k2u.id = (s.kernel.req p).id := by
  have hf := h.agrees.framed c
  unfold Stack.FramedAt at hf
  rw [hpt] at hf
  generalize hcall : s.kernel.call (.user c) = call at hf
  cases hf with
  | handling p r hr _ hw _ _ hk =>
    refine ⟨rfl, p, Or.inl (by rw [hw]; exact List.mem_singleton_self p), ?_⟩
    rw [hk, hr]
    simp

/-- Before its window is there, nothing is with a connection. -/
theorem ready (h : s.Sound B) {c : Nat} {p : Ptr} (hp : s.kernel.With c p) :
    (s.loop c).point ≠ .starting ∧ (s.loop c).point ≠ .mapping := by
  have hf := h.agrees.framed c
  unfold Stack.FramedAt at hf
  have hp := h.own.with_iff.1 hp
  generalize s.kernel.call (.user c) = call at hf hp
  generalize (s.loop c).point = point at hf
  cases hf with
  | starting hw | mapping _ hw => simp [hw] at hp
  | _ => exact ⟨by simp, by simp⟩

/-- While a reply is being written, its request is with the connection. -/
theorem written (h : s.Sound B) {c : Nat} {v : Ret} (hpt : (s.loop c).point = .writing)
    (hcall : s.kernel.call (.user c) = .done v) (p : Ptr) : ¬ s.kernel.With c p := by
  have hf := h.agrees.framed c
  unfold Stack.FramedAt at hf
  rw [hpt, hcall] at hf
  intro hp
  have hp := h.own.with_iff.1 hp
  cases hf with
  | written _ hw => simp [hw, hcall] at hp

end Stack.Sound

/-! ## The requests -/

/-- What a step does to the requests. -/
inductive Stack.Requests (s s' : Stack β) : StackAct α → Prop where
  | kept (act : StackAct α) : s.Kept s' → (∀ q, s'.kernel.OnTheWay q → s.kernel.OnTheWay q) →
    (∀ c, act ≠ .writeEnd c) →
      Requests s s' act
  | submitted (t : Tid) (p : Ptr) (rq : Rq) : s.kernel.busy p = false →
      s'.kernel.req = Function.update s.kernel.req p (initBlkRequest (s.kernel.req p) s.kernel.newId rq) →
      s'.kernel.busy = Function.update s.kernel.busy p true → s'.kernel.ended = s.kernel.ended →
      s'.kernel.nextRequestId = s.kernel.nextRequestId + 1 →
        (∀ q, s'.kernel.OnTheWay q → q ≠ p → s.kernel.OnTheWay q) →
      Requests s s' (.block (.queueRq t p rq))
  | ended (c : Nat) (p : Ptr) (n : Nat) : s.kernel.call (.user c) = .replied c p (s.loop c).u2k n →
      (s.loop c).point = .writing → s'.kernel.busy = Function.update s.kernel.busy p false →
      (∀ q, q ≠ p → s'.kernel.req q = s.kernel.req q) →
      s'.kernel.ended = s.kernel.ended ++ [s'.kernel.req p] → ((s'.kernel.req p).Maps → (s.kernel.req p).Maps) →
      ((s.kernel.req p).Maps → (s.kernel.req p).type ≠ .zoneAppend → s'.kernel.req p =
        { s.kernel.req p with mapType := .unmapped, blkResult := blkStatus (s.loop c).u2k.reply }) →
      (∀ q, s'.kernel.OnTheWay q → s.kernel.OnTheWay q) → Requests s s' (.writeEnd c)

end

section
variable {s s' : Kernel} {t : Tid} {c : Nat} {p : Ptr} {header : U2k} {n : Nat} {umem : UMem}

theorem finishBlk_mapped (hb : isBlkRequest (s.req p).type = true) (h : s.finishBlk ⟨true⟩ t c p header n = some s') :
    s'.ended = s.ended ++ [s'.req p] ∧ s'.busy = Function.update s.busy p false := by
  have hfin : ∀ x : Kernel, isBlkRequest (x.req p).type = true → x.ended = s.ended → x.busy = s.busy →
      ∀ y : Kernel, y = (Kernel.endBlkRequest (if (x.req p).type = .zoneAppend then
          x.setReq p { x.req p with pos := toInt64 header.userData } else x) p header.reply).setCall t
            (.done (.value n)) →
        y.ended = s.ended ++ [y.req p] ∧ y.busy = Function.update s.busy p false := by
    rintro x hbx hendedx hbusyx y rfl
    split
    · obtain ⟨hended, hbusy, hreq⟩ := endBlk_finish (s := x.setReq p { x.req p with pos := toInt64 header.userData })
        (p := p) (by simpa using hbx) header.reply
      refine ⟨hended.trans ?_, hbusy.trans (by rw [← hbusyx]; rfl)⟩
      rw [Kernel.setCall_req, hreq, ← hendedx]
      simp
    · obtain ⟨hended, hbusy, hreq⟩ := endBlk_finish hbx header.reply
      refine ⟨hended.trans ?_, hbusy.trans (by rw [← hbusyx])⟩
      rw [Kernel.setCall_req, hreq, ← hendedx]
      simp
  have htype : ∀ vmStart, (biusUnmapData (s.req p) vmStart).2.type = (s.req p).type := by
    intro vmStart
    unfold biusUnmapData
    split <;> rfl
  unfold Kernel.finishBlk at h
  dsimp only at h
  rw [if_pos rfl, Option.map_eq_some_iff] at h
  obtain ⟨vmStart, -, heq⟩ := h
  exact hfin ((s.setReq p (biusUnmapData (s.req p) vmStart).2).setConn c _) (by simp [htype, hb]) rfl rfl s' heq.symm

theorem writeEnd_ended (hb : isBlkRequest (s.req p).type = true)
    (h : s.writeEnd ⟨true⟩ t c p header n umem = some s') :
    s'.ended = s.ended ++ [s'.req p] ∧ s'.busy = Function.update s.busy p false := by
  unfold Kernel.writeEnd at h
  rw [if_pos hb] at h
  split at h
  · dsimp only at h
    have hb' : isBlkRequest ((s.setReq p (biusReceiveData (s.req p) umem header.userData).1).req p).type = true := by
      simp [receiveData_type, hb]
    split at h
    · cases h
      obtain ⟨hended, hbusy, hreq⟩ := endBlk_finish hb' blkStsIoerr
      refine ⟨hended.trans ?_, hbusy⟩
      rw [Kernel.setCall_req, hreq]
      simp
    · exact finishBlk_mapped (s := s.setReq p (biusReceiveData (s.req p) umem header.userData).1) hb' h
  · exact finishBlk_mapped hb h

/-- A mapped request has its data in its window: nothing is copied into it. -/
theorem writeEnd_maps (hmaps : (s.req p).Maps) (happ : (s.req p).type ≠ .zoneAppend)
    (h : s.writeEnd ⟨true⟩ t c p header n umem = some s') :
    s'.req p = { s.req p with mapType := .unmapped, blkResult := blkStatus header.reply } := by
  have hb := isBlkRequest_of_mayHaveData hmaps.1
  have hlong := hmaps.2
  unfold Kernel.writeEnd at h
  rw [if_pos hb, if_neg (fun hcopy => by have := hcopy.2.2 rfl; omega)] at h
  unfold Kernel.finishBlk at h
  dsimp only at h
  rw [if_pos rfl, Option.map_eq_some_iff] at h
  obtain ⟨vmStart, -, rfl⟩ := h
  have hun : (biusUnmapData (s.req p) vmStart).2 = { s.req p with mapType := .unmapped } := by
    unfold biusUnmapData
    split
    · next hm => rw [← hm]
    · rfl
  simp [hun, happ, endBlkRequest_req, hb]

end

section
variable {β α : Type} {B : Backend β α} {s s' : Stack β}

theorem Rewritten.length_eq {cfg : Config} {sending : Prop} {r r' : BiusRequest} (h : Rewritten cfg true sending r r') :
    r'.length = r.length := by
  cases h with
  | queued id rq hb | zones id sector n blkz hb => cases hb
  | mapped vmStart _ _ _ =>
    obtain ⟨_, _, _, hr⟩ := biusMapData_keeps r vmStart (rqForEachSegment r.rq)
    rw [hr]
  | sent size cuts res _ hres =>
    obtain ⟨_, _, hr⟩ := biusSendData_keeps hres
    rw [hr]
  | _ => rfl

/-- **Every step** keeps the requests, submits one, or ends the one that is being replied to. -/
theorem Stack.Sound.requests (h : s.Sound B) (hblk : ∀ p, s.kernel.busy p = true →
    isBlkRequest (s.kernel.req p).type = true)
    {act : StackAct α} (hord : act.Orders) (hs : s.step ⟨true⟩ B act = some s') : s.Requests s' act := by
  obtain ⟨loc, hl⟩ := h.located
  have hway : ∀ {a : Act}, Bius.step ⟨true⟩ s.kernel a = some s'.kernel → a.submits = false →
      ∀ q, s'.kernel.OnTheWay q → s.kernel.OnTheWay q := by
    intro a ha hsub q hq
    rcases step_onTheWay ha hq with hold | ⟨hnew, -⟩
    · exact hold
    · rw [hsub] at hnew
      cases hnew
  have hkept : ∀ {a : Act}, Bius.step ⟨true⟩ s.kernel a = some s'.kernel → a.Carries → a.submits = false →
      (∀ c, act ≠ .writeEnd c) → s.Requests s' act := by
    intro a ha hc hsub hnot
    obtain ⟨hended, hbusy, hreq⟩ := step_carries ha hc
    exact .kept _ ⟨hreq, hended, hbusy⟩ (hway ha hsub) hnot
  rcases Stack.step_moves hs with hsame | ⟨a, hmoves, ha⟩
  · refine .kept _ ⟨fun q => by rw [hsame]; exact .refl _, by rw [hsame], by rw [hsame]⟩
      (fun q hq => by rwa [hsame] at hq) ?_
    rintro c rfl
    have ha := Stack.kernelStep_kernel hs
    rw [hsame] at ha
    cases step_cases ha with
    | writeEnd t d p header n umem ht hend =>
      obtain ⟨v, hv⟩ := writeEnd_value hend
      rw [ht] at hv
      cases hv
  · cases hmoves with
    | block a hof =>
      have hst := ha
      generalize hk : s'.kernel = k at ha
      cases step_cases ha with
      | queueRq t p rq ht hp =>
        have hsub : s.kernel.queueRq t p rq =
            s.kernel.submit t p (initBlkRequest (s.kernel.req p) s.kernel.newId rq) := by
          unfold Kernel.queueRq
          exact if_neg hord
        rw [hsub] at hk
        refine .submitted t p rq hp (by rw [hk]; rfl) (by rw [hk]; rfl) (by rw [hk]; rfl) (by rw [hk]; rfl)
          (fun q hq hne => ?_)
        rcases step_onTheWay hst hq with hold | ⟨-, hnew⟩
        · exact hold
        · cases hnew
          exact absurd rfl hne
      | reportZones => exact absurd hord (by simp [StackAct.Orders])
      | zonesWake t p junk cb ht hsem =>
        -- nobody waits for zones
        have hwaits := hl.waits t p (by simp [Kernel.life, ht, Call.hold])
        have hzones : isBlkRequest (s.kernel.req p).type = false := hwaits.1
        rw [hblk p ((hl.busy p).2 hwaits.2.1)] at hzones
        cases hzones
      | insert t p ht => exact hkept hst trivial rfl (by simp)
      | ret t r ht => exact hkept hst trivial rfl (by simp)
      | _ => cases hof
    | writeEnd e umem =>
      have hst := ha
      generalize hk : s'.kernel = k at ha
      cases step_cases ha with
      | writeEnd t d p header n umem ht hend =>
        obtain rfl := h.agrees.connection (show (s.kernel.call (.user e)).connection = some d by rw [ht]; rfl)
        have hwith : s.kernel.With d p := Or.inr (Or.inr ⟨_, header, n, ht⟩)
        have hb := hblk p (h.busy hwith)
        obtain ⟨hpt, hheader⟩ : (s.loop d).point = .writing ∧ header = (s.loop d).u2k := by
          have hf := h.agrees.framed d
          unfold Stack.FramedAt at hf
          rw [ht] at hf
          generalize (s.loop d).point = point at hf
          cases hf with
          | replied => exact ⟨rfl, rfl⟩
        rw [hheader] at ht hend
        obtain ⟨hended, hbusy⟩ := writeEnd_ended hb hend
        refine .ended d p n ht hpt (by rw [hk]; exact hbusy) (fun q hq => ?_) (by rw [hk]; exact hended) (fun hmaps => ?_)
          (fun hmaps happ => by rw [hk]; exact writeEnd_maps hmaps happ hend) (hway hst rfl)
        · refine step_req hst ?_
          simp [Act.touches, ht, Call.held, Ne.symm hq]
        · have hrw := step_rewritten hst p
          rw [h.busy hwith] at hrw
          exact ⟨by rw [← hrw.type_eq]; exact hmaps.1, by rw [← hrw.length_eq]; exact hmaps.2⟩
    | attach | mmap | command | payload | take | readReturn | write | writeReturn =>
      exact hkept ha trivial rfl (by simp)
    | send => exact hkept ha (by simp [Act.Carries, sizeofK2u]) rfl (by simp)

/-- The requests in flight after a step: those of before, and the new one. -/
theorem Stack.Requests.busy {act : StackAct α} (h : s.Requests s' act) {q : Ptr} (hq : s'.kernel.busy q = true) :
    s.kernel.busy q = true ∧ (s.kernel.req q).Alike (s'.kernel.req q) ∧
      (s'.kernel.OnTheWay q → s.kernel.OnTheWay q) ∨
      ∃ t rq, act = .block (.queueRq t q rq) ∧ s.kernel.busy q = false ∧
        s'.kernel.req q = initBlkRequest (s.kernel.req q) s.kernel.newId rq ∧
        s'.kernel.nextRequestId = s.kernel.nextRequestId + 1 := by
  cases h with
  | kept _ hk hway =>
    rw [hk.busy] at hq
    exact Or.inl ⟨hq, hk.req q, hway q⟩
  | submitted t p rq hfree hreq hbusy _ hnext hway =>
    by_cases hqp : q = p
    · subst hqp
      exact Or.inr ⟨t, rq, rfl, hfree, by rw [hreq, Function.update_self], hnext⟩
    · rw [hbusy, Function.update_of_ne hqp] at hq
      refine Or.inl ⟨hq, ?_, fun hon => hway q hon hqp⟩
      rw [hreq, Function.update_of_ne hqp]
      exact .refl _
  | ended c p n _ _ hbusy hreq _ _ _ hway =>
    have hqp : q ≠ p := by
      rintro rfl
      rw [hbusy, Function.update_self] at hq
      cases hq
    rw [hbusy, Function.update_of_ne hqp] at hq
    refine Or.inl ⟨hq, ?_, hway q⟩
    rw [hreq q hqp]
    exact .refl _

/-! ## The windows -/

namespace Stack.Sound

/-- A connection that looks for a request has a window and nothing else. -/
theorem looking (h : s.Sound B) {c : Nat} (hcall : s.kernel.call (.user c) = .readWait c) :
    (∀ p, ¬ s.kernel.With c p) ∧ (s.loop c).point = .reading ∧
      ∃ vmStart, (s.kernel.conn c).vma = some vmStart := by
  have hf := h.agrees.framed c
  unfold Stack.FramedAt at hf
  rw [hcall] at hf
  generalize (s.loop c).point = point at hf
  cases hf with
  | looking hready hw =>
    refine ⟨fun p hp => ?_, rfl, hready.window rfl⟩
    have hp := h.own.with_iff.1 hp
    simp [hw, hcall] at hp

theorem stores (h : s.Sound B) {c : Nat} {p : Ptr} {ps : List Ptr} (hcall : s.kernel.call (.user c) = .readWait c)
    (hps : s.kernel.pending = p :: ps) (hmaps : (s.kernel.req p).Maps) :
    ∃ vmStart, (s.kernel.conn c).vma = some vmStart ∧ (s.kernel.conn c).ptes = (fun _ => .zero) ∧
      windowStores s.kernel (.readTake (.user c)) =
        some (c, p, (biusMapData (s.kernel.req p) vmStart (rqForEachSegment (s.kernel.req p).rq)).1) := by
  obtain ⟨hnone, -, vmStart, hvma⟩ := h.looking hcall
  refine ⟨vmStart, hvma, (h.served c).empty (fun q hq => hnone q hq.held), ?_⟩
  simp [windowStores, hcall, hps, hmaps, hvma]

/-- What is mapped after a step was mapped before, or has just been taken. -/
theorem mappedAt_step (h : s.Sound B) {act : StackAct α} (hs : s.step ⟨true⟩ B act = some s') {c : Nat} {p : Ptr}
    (hp : s'.kernel.MappedAt c p) : s.kernel.MappedAt c p ∨ ∃ ps, act = .take c ∧
      s.kernel.call (.user c) = .readWait c ∧ s.kernel.pending = p :: ps ∧ (s.kernel.req p).Maps := by
  obtain ⟨loc, hl⟩ := h.located
  rcases Stack.step_moves hs with hsame | ⟨a, hmoves, ha⟩
  · rw [hsame] at hp
    exact Or.inl hp
  · rcases step_mappedAt hl (fun q hq hb => (h.agrees.fresh q hq).unmapped hb) ha hp with hold | ⟨t, ps, rfl, ht,
      hps, hmaps⟩
    · exact Or.inl hold
    · obtain rfl := h.own t c (by rw [ht]; rfl)
      refine Or.inr ⟨ps, ?_, ht, hps, hmaps⟩
      cases hmoves with
      | block a hof => cases hof
      | take => rfl

/-- After a reply has been processed nothing is with the connection. -/
theorem replied (h' : s'.Sound B) {c : Nat} (hs : s.step ⟨true⟩ B (.writeEnd c) = some s') (p : Ptr) :
    ¬ s'.kernel.With c p := by
  obtain ⟨v, hv⟩ : ∃ v, s'.kernel.call (.user c) = .done (.value v) := by
    have ha := Stack.kernelStep_kernel hs
    generalize s'.kernel = k at ha
    cases step_cases ha with
    | writeEnd _ _ _ _ _ _ _ hend => exact writeEnd_value hend
  have hf := h'.agrees.framed c
  unfold Stack.FramedAt at hf
  rw [hv] at hf
  intro hp
  have hp := h'.own.with_iff.1 hp
  generalize (s'.loop c).point = point at hf
  cases hf with
  | written _ hw => simp [hw, hv] at hp

theorem vma_step (h : s.Sound B) (h' : s'.Sound B) {act : StackAct α} (hs : s.step ⟨true⟩ B act = some s') {c : Nat}
    {p : Ptr} (hp : s.kernel.With c p) (hp' : s'.kernel.With c p) :
    (s'.kernel.conn c).vma = (s.kernel.conn c).vma := by
  rcases Stack.step_moves hs with hsame | ⟨a, hmoves, ha⟩
  · rw [hsame]
  by_cases hc : a.connection s.kernel = some c
  swap
  · rw [step_conn ha hc]
  obtain ⟨hstart, hmap⟩ := h.ready hp
  have hreads : ∀ {t d size cuts k}, s.kernel.readStart t d size cuts = some k →
      (k.conn c).vma = (s.kernel.conn c).vma := by
    intro t d size cuts k hk
    unfold Kernel.readStart at hk
    split at hk
    · cases hk
      rfl
    · split at hk
      · next q hq =>
        rw [Option.map_eq_some_iff] at hk
        obtain ⟨res, -, rfl⟩ := hk
        have hset := setConn_vma (s := s.kernel.setReq q res.1) (c := d) (d := c)
          (k := { s.kernel.conn d with sending := none }) rfl
        dsimp only
        split <;> split <;> first | rfl | exact hset
      · split at hk <;>
        · cases hk
          rfl
  cases hmoves with
  | attach d hpt =>
    cases hc
    exact absurd hpt hstart
  | mmap d vmStart hpt =>
    cases hc
    exact absurd hpt hmap
  | block a hof =>
    unfold Act.ofBlockLayer at hof
    split at hof <;> first | cases hc | cases hof
  | command d cuts hpt | payload d n cuts hpt =>
    generalize s'.kernel = k at ha
    cases step_cases ha with
    | readStart t e size cuts ht hk => exact hreads hk
  | take d =>
    generalize s'.kernel = k at ha
    cases step_cases ha with
    | readTake t e q ps ht hps hk => exact prepare_vma hk c
  | send d =>
    generalize s'.kernel = k at ha
    cases step_cases ha with
    | readSend t e q n ht =>
      unfold Kernel.readSend
      rw [if_neg (by decide)]
      exact setConn_vma rfl
  | readReturn d | writeReturn d => cases hc
  | write d hpt =>
    generalize s'.kernel = k at ha
    cases step_cases ha with
    | writeStart t e size n header ht hatt =>
      rcases writeStart_cases s.kernel (.user d) d sizeofU2k sizeofU2k (s.loop d).u2k with ⟨v, heq⟩ | ⟨q, -, heq⟩
      · rw [heq]
        rfl
      · rw [heq]
        exact setConn_vma rfl
  | writeEnd d umem =>
    obtain rfl := h.agrees.connection hc
    exact absurd hp' (h'.replied hs p)

/-- A request that is taken to be mapped: the window is that of the request from now on. -/
theorem taken (h : s.Sound B) (h' : s'.Sound B) {c : Nat} {p : Ptr} {ps : List Ptr}
    (hs : s.step ⟨true⟩ B (.take c) = some s') (hcall : s.kernel.call (.user c) = .readWait c)
    (hps : s.kernel.pending = p :: ps) (hmaps : (s.kernel.req p).Maps) {vmStart : Nat}
    (hvma : (s.kernel.conn c).vma = some vmStart) :
    s'.kernel.MappedAt c p ∧ (s'.kernel.conn c).Shows (s'.kernel.req p) vmStart ∧
      (s.kernel.req p).mapType = .unmapped := by
  have ha := Stack.kernelStep_kernel hs
  have halike : (s.kernel.req p).Alike (s'.kernel.req p) := (step_carries ha trivial).2.2 p
  have hwith : s'.kernel.With c p ∧ (s'.kernel.conn c).vma = some vmStart := by
    generalize s'.kernel = k at ha
    cases step_cases ha with
    | readTake t d q qs ht hq hk =>
      rw [hcall] at ht
      cases ht
      rw [hps] at hq
      cases hq
      refine ⟨Or.inr (Or.inl ⟨.user c, ?_⟩), (prepare_vma hk c).trans hvma⟩
      rw [(prepare_keeps hk).2.2.2]
      simp
  have hmapped : s'.kernel.MappedAt c p := by
    apply (h'.mapped_iff hwith.1).2
    exact ⟨by rw [halike.type]; exact hmaps.1, by rw [halike.length]; exact hmaps.2⟩
  obtain ⟨v, hshows⟩ := (h'.served c).shown p hmapped
  have hv : v = vmStart := by
    have hvma' := hshows.vma
    rw [hwith.2] at hvma'
    exact (Option.some.inj hvma').symm
  subst hv
  refine ⟨hmapped, hshows, (h.agrees.fresh p (Or.inl (by rw [hps]; simp))).unmapped ?_⟩
  exact isBlkRequest_of_mayHaveData hmaps.1

end Stack.Sound

end

end Bius
