import Bius.CopyBackend

/- The whole stack over a backend that copies: its invariant. `Stack.Copying` follows a
   request: what stands in the history of the disk under its id are the first bytes of its
   range, in order, each once, and no more of them than its callback has moved. The ids are
   those that the kernel module gives, so the counter must not have come round. -/
namespace Bius

open Registers (Legal play trace)

/-- What is known of the stack and the disk, which held `disk` at first. -/
structure Stack.Copying (mover : Mover) (buffer : Nat → Nat) (disk : Nat → UInt8) (s : Stack CopyProc) : Prop where
  kind : ∀ p, s.kernel.busy p = true → (s.kernel.req p).ForCopy
  ids : ∀ p, s.kernel.busy p = true → (s.kernel.req p).id ≤ s.kernel.nextRequestId
  distinct : ∀ p q, s.kernel.busy p = true → s.kernel.busy q = true →
    (s.kernel.req p).id = (s.kernel.req q).id → p = q
  past : ∀ r ∈ s.kernel.ended, r.id ≤ s.kernel.nextRequestId ∧ ∀ p, s.kernel.busy p = true →
    (s.kernel.req p).id ≠ r.id
  nodup : (s.kernel.ended.map BiusRequest.id).Nodup
  logged : ∀ a ∈ s.proc.log, a.who ≤ s.kernel.nextRequestId
  untouched : ∀ p, s.kernel.busy p = true → trace (s.kernel.req p).id s.proc.log = [] ∨
    ∃ c point, s.At c p point ∧ (point = .handling ∨ point = .writing)
  loaded : ∀ c p point, s.At c p point → Loaded s.proc.mem (buffer c) (s.kernel.req p) point
  running : ∀ c t, s.proc.call c = some t → ∃ p, s.At c p .handling ∧
    t.Runs mover s.proc (buffer c) (s.kernel.req p)
  replying : ∀ c p, s.At c p .writing → (s.loop c).u2k.Replies mover s.proc (buffer c) (s.kernel.req p)
  ended : ∀ r ∈ s.kernel.ended, r.Copied mover s.proc.log
  legal : Legal disk s.proc.log
  disk : s.proc.disk = play disk s.proc.log

/-! ## The steps -/

theorem Stack.next_le {β α : Type} {cfg : Config} {B : Backend β α} {s s' : Stack β} {act : StackAct α}
    (hs : s.step cfg B act = some s') (hid : s'.kernel.nextRequestId < 2 ^ 64) :
    s.kernel.nextRequestId ≤ s'.kernel.nextRequestId := by
  obtain ⟨t, ht⟩ := Stack.step_movedBy hs
  rcases ht.kernel with hk | ⟨act', hst, -, -⟩
  · rw [hk]
  · exact (step_life hst hid).next_le

theorem Stack.steps_next_le {β α : Type} {cfg : Config} {B : Backend β α}
    {ok : Stack β → StackAct α → Prop} {s s' : Stack β} {acts : List (StackAct α)}
    (hrun : Machine.Steps (Stack.step cfg B) ok s acts s') (hid : s'.kernel.nextRequestId < 2 ^ 64) :
      s.kernel.nextRequestId ≤ s'.kernel.nextRequestId := by
  induction hrun with
  | nil => exact Nat.le_refl _
  | cons _ hs _ ih =>
    have hrest := ih hid
    exact Nat.le_trans (Stack.next_le hs (by omega)) hrest

/-- Requests of the kind, at any place of the disk, in any order and number; and no read of a
    payload comes back empty. -/
def Stack.ForCopy (B : Backend CopyProc CopyAct) (s : Stack CopyProc) : StackAct CopyAct → Prop
  | .block (.queueRq _ _ rq) =>
    (toBiusRequest rq.op = .read ∨ toBiusRequest rq.op = .write ∨ toBiusRequest rq.op = .flush) ∧
      rq.sector * sectorSize < 2 ^ 63 ∧
      (requestMayHaveData (toBiusRequest rq.op) = true → rq.dataLen ≤ biusMaxSizePerCommand)
  | .block (.reportZones _ _ _ _ _) => False
  | act => s.Admits ⟨false⟩ B act

section
variable {mover : Mover} {buffer : Nat → Nat} {disk : Nat → UInt8} {s s' : Stack CopyProc}

theorem Stack.ForCopy.admits {act : StackAct CopyAct} (h : s.ForCopy (copyLibrary mover buffer) act) :
    s.Admits ⟨false⟩ (copyLibrary mover buffer) act := by
  cases act with
  | block act =>
    cases act with
    | queueRq t p rq => exact h.2.2
    | _ => trivial
  | read c cuts => exact h
  | _ => trivial

theorem Stack.ForCopy.orders {act : StackAct CopyAct} (h : s.ForCopy (copyLibrary mover buffer) act) : act.Orders := by
  cases act with
  | block act =>
    cases act with
    | queueRq t p rq => rcases h.1 with ht | ht | ht <;> simp [StackAct.Orders, ht]
    | reportZones => exact h
    | _ => trivial
  | _ => trivial

theorem Stack.Copying.isBlk (h : s.Copying mover buffer disk) (p : Ptr) (hp : s.kernel.busy p = true) :
    isBlkRequest (s.kernel.req p).type = true := by
  rcases (h.kind p hp).type with ht | ht | ht <;> rw [ht] <;> rfl

theorem Stack.Copying.init (k2u : Nat → K2u) (u2k : Nat → U2k) (mem disk : Nat → UInt8) :
    (Stack.init k2u u2k ⟨mem, disk, fun _ => none, []⟩).Copying mover buffer disk := by
  have hnone : ∀ {c p point}, ¬ (Stack.init k2u u2k (⟨mem, disk, fun _ => none, []⟩ : CopyProc)).At c p point := by
    intro c p point hat
    rcases hat.held with hw | ⟨header, n, hc⟩
    · cases hw
    · cases hc
  exact ⟨fun p hp => (by cases hp), fun p hp => (by cases hp), fun p q hp => (by cases hp), fun r hr => (by cases hr),
    List.nodup_nil, fun a ha => (by cases ha), fun p hp => (by cases hp), fun c p point hat => absurd hat hnone,
    fun c t ht => (by cases ht), fun c p hat => absurd hat hnone, fun r hr => (by cases hr), trivial, rfl⟩

/-- The parts of the invariant that speak of the requests alone. -/
theorem Stack.Copying.of_kept (h : s.Copying mover buffer disk) (hk : s.Kept s')
    (hnext : s.kernel.nextRequestId ≤ s'.kernel.nextRequestId)
    (hlogged : ∀ a ∈ s'.proc.log, a.who ≤ s.kernel.nextRequestId)
    (huntouched : ∀ p, s.kernel.busy p = true → trace (s.kernel.req p).id s'.proc.log = [] ∨
      ∃ c point, s'.At c p point ∧ (point = .handling ∨ point = .writing))
    (hloaded : ∀ c p point, s'.At c p point → Loaded s'.proc.mem (buffer c) (s.kernel.req p) point)
    (hrunning : ∀ c t, s'.proc.call c = some t → ∃ p, s'.At c p .handling ∧
      t.Runs mover s'.proc (buffer c) (s.kernel.req p))
    (hreplying : ∀ c p, s'.At c p .writing → (s'.loop c).u2k.Replies mover s'.proc (buffer c) (s.kernel.req p))
    (hended : ∀ r ∈ s.kernel.ended, r.Copied mover s'.proc.log) (hlegal : Legal disk s'.proc.log)
    (hdisk : s'.proc.disk = play disk s'.proc.log) : s'.Copying mover buffer disk := by
  have hid : ∀ p, (s'.kernel.req p).id = (s.kernel.req p).id := fun p => (hk.req p).id
  refine ⟨fun p hp => ?_, fun p hp => ?_, fun p q hp hq heq => ?_, fun r hr => ?_, ?_, fun a ha => ?_, fun p hp => ?_,
    fun c p point hat => (hk.req p).loaded (hloaded c p point hat), fun c t ht => ?_,
    fun c p hat => (hk.req p).replies (hreplying c p hat), ?_, hlegal, hdisk⟩
  · rw [hk.busy] at hp
    exact (hk.req p).forCopy (h.kind p hp)
  · rw [hk.busy] at hp
    rw [hid]
    exact Nat.le_trans (h.ids p hp) hnext
  · rw [hk.busy] at hp hq
    rw [hid, hid] at heq
    exact h.distinct p q hp hq heq
  · rw [hk.ended] at hr
    obtain ⟨hle, hne⟩ := h.past r hr
    refine ⟨Nat.le_trans hle hnext, fun p hp => ?_⟩
    rw [hk.busy] at hp
    rw [hid]
    exact hne p hp
  · rw [hk.ended]
    exact h.nodup
  · exact Nat.le_trans (hlogged a ha) hnext
  · rw [hk.busy] at hp
    rw [hid]
    exact huntouched p hp
  · obtain ⟨p, hat, hrun⟩ := hrunning c t ht
    exact ⟨p, hat, (hk.req p).runs hrun⟩
  · rw [hk.ended]
    exact hended

theorem Stack.Copying.kept (h : s.Copying mover buffer disk) (hk : s.Kept s')
    (hnext : s.kernel.nextRequestId ≤ s'.kernel.nextRequestId) (hlog : s'.proc.log = s.proc.log)
    (hdisk : s'.proc.disk = s.proc.disk) (hcall : s'.proc.call = s.proc.call)
    (hstay : ∀ c p point, s.At c p point → point = .handling ∨ point = .writing → s'.At c p point)
    (hat : ∀ c p, s'.At c p .writing → s.At c p .writing ∧ s'.loop c = s.loop c)
    (hloaded : ∀ c p point, s'.At c p point → Loaded s'.proc.mem (buffer c) (s.kernel.req p) point)
    (hmem : ∀ c p point, s.At c p point → point = .handling ∨ point = .writing → (s.kernel.req p).type = .read →
      ∀ x, buffer c ≤ x → x < buffer c + (s.kernel.req p).length → s'.proc.mem x = s.proc.mem x) :
    s'.Copying mover buffer disk := by
  have hsame : ∀ c p point, s.At c p point → point = .handling ∨ point = .writing →
      s.proc.SameFor s'.proc (buffer c) (s.kernel.req p) :=
    fun c p point hp hpt => ⟨by rw [hlog], hmem c p point hp hpt⟩
  refine h.of_kept hk hnext ?_ (fun p hp => ?_) hloaded (fun c t ht => ?_) (fun c p hp => ?_) ?_ ?_ ?_
  · rw [hlog]
    exact h.logged
  · rw [hlog]
    rcases h.untouched p hp with hnone | ⟨c, point, hp', hpt⟩
    · exact Or.inl hnone
    · exact Or.inr ⟨c, point, hstay c p point hp' hpt, hpt⟩
  · rw [hcall] at ht
    obtain ⟨p, hp, hrun⟩ := h.running c t ht
    exact ⟨p, hstay c p _ hp (Or.inl rfl), (hsame c p _ hp (Or.inl rfl)).runs hrun⟩
  · obtain ⟨hold, hloop⟩ := hat c p hp
    rw [hloop]
    exact (hsame c p _ hold (Or.inr rfl)).replies (h.replying c p hold)
  · rw [hlog]
    exact h.ended
  · rw [hlog]
    exact h.legal
  · rw [hdisk, hlog]
    exact h.disk

/-- What has arrived in the copy buffer is the beginning of the payload. -/
theorem Stack.Copying.filled (h : s.Copying mover buffer disk) {c : Nat} {p : Ptr} {n : Nat} {b : CopyProc}
    (hfill : s.Filled (copyLibrary mover buffer) c p n b) (hn : n ≤ biusMaxSizePerCommand) :
    Bytes.slice b.mem (buffer c) n = (chainBytes (s.kernel.req p).rq).take n ∧
      (b.log = s.proc.log ∧ b.disk = s.proc.disk ∧ b.call = s.proc.call) ∧
      ∀ x, x < buffer c ∨ buffer c + biusMaxSizePerCommand ≤ x → b.mem x = s.proc.mem x := by
  rcases hfill with ⟨rfl, rfl⟩ | ⟨m, bytes, hat, rfl, hbytes, rfl⟩
  · exact ⟨by rw [List.take_zero]; rfl, ⟨rfl, rfl, rfl⟩, fun _ _ => rfl⟩
  · refine ⟨Bytes.slice_splice_take (h.loaded c p _ hat) hbytes, ⟨rfl, rfl, rfl⟩,
      fun x hx => Bytes.splice_outside _ ?_⟩
    show x < buffer c + m ∨ buffer c + m + bytes.length ≤ x
    omega

theorem Stack.Copying.elsewhere (h : s.Copying mover buffer disk) (ha : s.Agrees ⟨false⟩ (copyLibrary mover buffer))
    (hbuf : BuffersApart buffer) {c d : Nat} (hd : d ≠ c) {q : Ptr} {point : Point} (hat : s.At d q point)
    {mem : Nat → UInt8} (hmem : ∀ x, x < buffer c ∨ buffer c + biusMaxSizePerCommand ≤ x →
      mem x = s.proc.mem x) :
    Loaded mem (buffer d) (s.kernel.req q) point ∧
      ((s.kernel.req q).type = .read → ∀ x, buffer d ≤ x → x < buffer d + (s.kernel.req q).length →
        mem x = s.proc.mem x) := by
  have hin := ha.inHand hat
  have hap := hbuf d c hd
  constructor
  · apply (h.loaded d q point hat).congr (fun hw => (hin.offered.data (requestMayHaveData_of_isWrite hw)).2) hin.copyIn
    intro x hx hx'
    exact hmem x (by omega)
  · intro hread x hx hx'
    have hmax := (hin.offered.data (by rw [hread]; rfl)).2
    exact hmem x (by omega)

theorem Stack.Copying.entered (h : s.Copying mover buffer disk) (ha : s.Agrees ⟨false⟩ (copyLibrary mover buffer))
    (ha' : s'.Agrees ⟨false⟩ (copyLibrary mover buffer)) (hbuf : BuffersApart buffer) (hk : s.Kept s')
    (hnext : s.kernel.nextRequestId ≤ s'.kernel.nextRequestId) {c : Nat} {p : Ptr} {n : Nat} {b : CopyProc}
    (ho : s.Others s' c) (hp : s.kernel.busy p = true) (hoff : (s.kernel.req p).Offered ⟨false⟩)
    (hone : ∀ q point, s'.At c q point → q = p ∧ point = .handling) (hle : n ≤ (s.kernel.req p).length)
    (hn : requestIsWrite (s.kernel.req p).type = true → n = (s.kernel.req p).length)
    (hfill : s.Filled (copyLibrary mover buffer) c p n b)
    (hk2u : (s'.loop c).k2u = copyInHeader (buffer c) (k2uHeader false 0 (s.kernel.req p)))
    (hproc : s'.proc = (copyLibrary mover buffer).enter c (s'.loop c).k2u b) (hnot : (s.loop c).point ≠ .handling)
    (hat : s'.At c p .handling)
    (hstay : ∀ d q point, s.At d q point → point = .handling ∨ point = .writing → s'.At d q point) :
    s'.Copying mover buffer disk := by
  -- a request without a payload has nothing in its buffer
  obtain ⟨m, hm, hmax, hfill'⟩ : ∃ m, (requestIsWrite (s.kernel.req p).type = true →
    m = (s.kernel.req p).length) ∧
      m ≤ biusMaxSizePerCommand ∧ s.Filled (copyLibrary mover buffer) c p m b := by
    by_cases hw : requestIsWrite (s.kernel.req p).type = true
    · exact ⟨n, hn, Nat.le_trans hle (hoff.data (requestMayHaveData_of_isWrite hw)).2, hfill⟩
    · rcases hfill with ⟨hn0, hb⟩ | ⟨k, bytes, hatk, -, -, -⟩
      · exact ⟨0, fun hw' => absurd hw' hw, Nat.zero_le _, Or.inl ⟨rfl, hb⟩⟩
      · exact absurd ((ha.inHand hatk).copyIn k rfl).1 hw
  obtain ⟨hslice, ⟨hlog, hdisk, hcall⟩, hmem⟩ := h.filled hfill' hmax
  -- no other loop has it, so it has not moved a byte yet
  have hnone : trace (s.kernel.req p).id s.proc.log = [] := by
    rcases h.untouched p hp with hnone | ⟨d, point, hd, hpt⟩
    · exact hnone
    · exfalso
      have hd' := hstay d p point hd hpt
      obtain rfl := ha'.at_inj hd' hat
      obtain ⟨-, rfl⟩ := hone p point hd'
      exact hnot hd.place
  obtain ⟨t, hstart, hruns⟩ := @Transfer.start_runs mover (s.kernel.req p) b (buffer c) (h.kind p hp)
    (by rw [hlog]; exact hnone)
  have hproc' : s'.proc = b.setCall c (some t) := by
    rw [hproc, hk2u, ← hstart]
    rfl
  have hsame : ∀ d q point, d ≠ c → s.At d q point → s.proc.SameFor s'.proc (buffer d) (s.kernel.req q) := by
    intro d q point hd hq
    rw [hproc']
    refine ⟨?_, (h.elsewhere ha hbuf hd hq hmem).2⟩
    show trace _ b.log = _
    rw [hlog]
  have hlog' : s'.proc.log = s.proc.log := by
    rw [hproc']
    exact hlog
  refine h.of_kept hk hnext ?_ (fun q hq => ?_) (fun d q point hq => ?_) (fun d u hu => ?_) (fun d q hq => ?_) ?_ ?_ ?_
  · rw [hlog']
    exact h.logged
  · rw [hlog']
    rcases h.untouched q hq with hq | ⟨d, point, hd, hpt⟩
    · exact Or.inl hq
    · exact Or.inr ⟨d, point, hstay d q point hd hpt, hpt⟩
  · rw [hproc']
    by_cases hd : d = c
    · subst hd
      obtain ⟨rfl, rfl⟩ := hone q point hq
      intro hw
      show Bytes.slice b.mem _ _ = _
      rw [← hm hw, hslice, hm hw, (hoff.data (requestMayHaveData_of_isWrite hw)).1, List.take_length]
    · exact (h.elsewhere ha hbuf hd (ho d hd q point hq).1 hmem).1
  · rw [hproc'] at hu
    by_cases hd : d = c
    · subst hd
      have hut : u = t := by
        change Function.update b.call d (some t) d = some u at hu
        rw [Function.update_self] at hu
        exact (Option.some.inj hu).symm
      subst hut
      rw [hproc']
      exact ⟨p, hat, ⟨hruns.id, hruns.op, hruns.place, hruns.empty, hruns.moved, hruns.once, hruns.status⟩⟩
    · change Function.update b.call c (some t) d = some u at hu
      rw [Function.update_of_ne hd, hcall] at hu
      obtain ⟨q, hq, hrun⟩ := h.running d u hu
      exact ⟨q, hstay d q _ hq (Or.inl rfl), (hsame d q _ hd hq).runs hrun⟩
  · have hd : d ≠ c := by
      rintro rfl
      have hpoint := (hone q _ hq).2
      cases hpoint
    obtain ⟨hold, hloop⟩ := ho d hd q _ hq
    rw [hloop]
    exact (hsame d q _ hd hold).replies (h.replying d q hold)
  · rw [hlog']
    exact h.ended
  · rw [hlog']
    exact h.legal
  · rw [hlog', hproc']
    exact hdisk.trans h.disk

theorem Stack.Copying.replied (h : s.Copying mover buffer disk)
    (ha : s.Agrees ⟨false⟩ (copyLibrary mover buffer)) (hk : s.Kept s')
    (hnext : s.kernel.nextRequestId ≤ s'.kernel.nextRequestId) {c : Nat} {p : Ptr} (hold : s.At c p .handling)
    (ho : s.Others s' c) (hone : ∀ q point, s'.At c q point → q = p ∧ point = .writing)
    (hleave : (copyLibrary mover buffer).leave c (s.loop c).k2u (s.loop c).u2k s.proc = some (s'.proc, (s'.loop c).u2k))
    (hat : s'.At c p .writing)
    (hstay : ∀ d q point, d ≠ c → s.At d q point → point = .handling ∨ point = .writing → s'.At d q point) :
    s'.Copying mover buffer disk := by
  obtain ⟨t, status, ht, hstatus, hres⟩ := copyLibrary_leave hleave
  obtain ⟨hproc, hu2k⟩ := Prod.mk.inj hres
  obtain ⟨q, hq, hrun⟩ := h.running c t ht
  obtain rfl := ha.at_unique hq hold
  have hlog : s'.proc.log = s.proc.log := by rw [hproc]; rfl
  have hmem : s'.proc.mem = s.proc.mem := by rw [hproc]; rfl
  have hsame : ∀ a r, s.proc.SameFor s'.proc a r := fun a r => ⟨by rw [hlog], fun _ x _ _ => by rw [hmem]⟩
  refine h.of_kept hk hnext ?_ (fun p hp => ?_) (fun d p point hd => ?_) (fun d u hu => ?_) (fun d p hd => ?_) ?_ ?_ ?_
  · rw [hlog]
    exact h.logged
  · rw [hlog]
    rcases h.untouched p hp with hnone | ⟨d, point, hd, hpt⟩
    · exact Or.inl hnone
    · by_cases hdc : d = c
      · subst hdc
        obtain rfl := ha.at_unique hd hold
        exact Or.inr ⟨d, .writing, hat, Or.inr rfl⟩
      · exact Or.inr ⟨d, point, hstay d p point hdc hd hpt, hpt⟩
  · rw [hmem]
    by_cases hdc : d = c
    · subst hdc
      obtain ⟨-, rfl⟩ := hone p point hd
      trivial
    · exact h.loaded d p point (ho d hdc p point hd).1
  · rw [hproc] at hu
    change Function.update s.proc.call c none d = some u at hu
    by_cases hdc : d = c
    · rw [hdc, Function.update_self] at hu
      cases hu
    · rw [Function.update_of_ne hdc] at hu
      obtain ⟨p, hp, hrun'⟩ := h.running d u hu
      exact ⟨p, hstay d p _ hdc hp (Or.inl rfl), (hsame _ _).runs hrun'⟩
  · by_cases hdc : d = c
    · subst hdc
      obtain ⟨rfl, -⟩ := hone p _ hd
      rw [hu2k, hproc]
      exact hrun.replies hstatus _
    · obtain ⟨hold', hloop⟩ := ho d hdc p _ hd
      rw [hloop]
      exact (hsame _ _).replies (h.replying d p hold')
  · rw [hlog]
    exact h.ended
  · rw [hlog]
    exact h.legal
  · rw [hlog, hproc]
    exact h.disk

/-- A request is submitted, under an id that has not been used. -/
theorem Stack.Copying.submitted (h : s.Copying mover buffer disk)
    (ha : s.Agrees ⟨false⟩ (copyLibrary mover buffer)) {t : Tid}
    {p : Ptr} {rq : Rq} (hok : s.ForCopy (copyLibrary mover buffer) (.block (.queueRq t p rq)))
    (hfree : s.kernel.busy p = false) (hnext : s'.kernel.nextRequestId = s.kernel.nextRequestId + 1)
    (hid : s'.kernel.nextRequestId < 2 ^ 64) (hreq : s'.kernel.req = Function.update s.kernel.req p
      (initBlkRequest (s.kernel.req p) s.kernel.newId rq))
    (hbusy : s'.kernel.busy = Function.update s.kernel.busy p true) (hended : s'.kernel.ended = s.kernel.ended)
    (hproc : s'.proc = s.proc) (hat : ∀ d q point, s'.At d q point → s.At d q point ∧ s'.loop d = s.loop d)
    (hstay : ∀ d q point, s.At d q point → point = .handling ∨ point = .writing → s'.At d q point) :
    s'.Copying mover buffer disk := by
  obtain ⟨htype, hsmall, -⟩ := hok
  have hnew : s'.kernel.req p = initBlkRequest (s.kernel.req p) s.kernel.newId rq := by rw [hreq, Function.update_self]
  have hold : ∀ q, q ≠ p → s'.kernel.req q = s.kernel.req q := fun q hq => by rw [hreq, Function.update_of_ne hq]
  have hnewId : (s'.kernel.req p).id = s.kernel.nextRequestId + 1 := by
    rw [hnew]
    exact Nat.mod_eq_of_lt (by omega)
  have hbusyq : ∀ q, q ≠ p → s'.kernel.busy q = true → s.kernel.busy q = true := by
    intro q hq hb
    rwa [hbusy, Function.update_of_ne hq] at hb
  have hsame : ∀ d q point, s.At d q point → s'.kernel.req q = s.kernel.req q := by
    intro d q point hq
    refine hold q (fun he => ?_)
    have hb := ha.at_busy hq
    rw [he, hfree] at hb
    cases hb
  refine ⟨fun q hq => ?_, fun q hq => ?_, fun q q' hq hq' heq => ?_, fun r hr => ?_, by rw [hended]; exact h.nodup,
    fun a ha => ?_, fun q hq => ?_, fun d q point hq => ?_, fun d u hu => ?_, fun d q hq => ?_, ?_, ?_, ?_⟩
  · by_cases hqp : q = p
    · rw [hqp, hnew]
      exact .init _ _ htype hsmall
    · rw [hold q hqp]
      exact h.kind q (hbusyq q hqp hq)
  · by_cases hqp : q = p
    · rw [hqp, hnewId, hnext]
    · rw [hold q hqp, hnext]
      exact Nat.le_succ_of_le (h.ids q (hbusyq q hqp hq))
  · -- the new id is above those in use
    by_cases hqp : q = p <;> by_cases hqp' : q' = p
    · rw [hqp, hqp']
    · rw [hqp, hnewId, hold q' hqp'] at heq
      have hle := h.ids q' (hbusyq q' hqp' hq')
      omega
    · rw [hqp', hnewId, hold q hqp] at heq
      have hle := h.ids q (hbusyq q hqp hq)
      omega
    · rw [hold q hqp, hold q' hqp'] at heq
      exact h.distinct q q' (hbusyq q hqp hq) (hbusyq q' hqp' hq') heq
  · rw [hended] at hr
    obtain ⟨hle, hne⟩ := h.past r hr
    refine ⟨by omega, fun q hq => ?_⟩
    by_cases hqp : q = p
    · rw [hqp, hnewId]
      omega
    · rw [hold q hqp]
      exact hne q (hbusyq q hqp hq)
  · rw [hproc] at ha
    have hle := h.logged a ha
    omega
  · rw [hproc]
    by_cases hqp : q = p
    · refine Or.inl (Registers.trace_none (fun a ha => ?_))
      have hle := h.logged a ha
      rw [hqp, hnewId]
      omega
    · rw [hold q hqp]
      rcases h.untouched q (hbusyq q hqp hq) with hnone | ⟨d, point, hd, hpt⟩
      · exact Or.inl hnone
      · exact Or.inr ⟨d, point, hstay d q point hd hpt, hpt⟩
  · have hq' := (hat d q point hq).1
    rw [hproc, hsame d q point hq']
    exact h.loaded d q point hq'
  · rw [hproc] at hu ⊢
    obtain ⟨q, hq, hrun⟩ := h.running d u hu
    exact ⟨q, hstay d q _ hq (Or.inl rfl), by rw [hsame d q _ hq]; exact hrun⟩
  · obtain ⟨hq', hloop⟩ := hat d q _ hq
    rw [hproc, hloop, hsame d q _ hq']
    exact h.replying d q hq'
  · rw [hended, hproc]
    exact h.ended
  · rw [hproc]
    exact h.legal
  · rw [hproc]
    exact h.disk

theorem Stack.Copying.complete (h : s.Copying mover buffer disk)
    (ha : s.Agrees ⟨false⟩ (copyLibrary mover buffer)) {c : Nat}
    {p : Ptr} (hnext : s.kernel.nextRequestId ≤ s'.kernel.nextRequestId) (hold : s.At c p .writing)
    (hproc : s'.proc = s.proc) (hreq : s'.kernel.req = Function.update s.kernel.req p
      ((s.kernel.req p).finished ((copyLibrary mover buffer).umem s.proc) (s.loop c).u2k))
    (hbusy : s'.kernel.busy = Function.update s.kernel.busy p false)
    (hended : s'.kernel.ended = s.kernel.ended ++ [s'.kernel.req p])
    (hat : ∀ d q point, s'.At d q point → q ≠ p ∧ s.At d q point ∧ s'.loop d = s.loop d)
    (hstay : ∀ d q point, d ≠ c → s.At d q point → point = .handling ∨ point = .writing → s'.At d q point) :
    s'.Copying mover buffer disk := by
  have hp := ha.at_busy hold
  have hhand := ha.inHand hold
  have hsame : ∀ q, q ≠ p → s'.kernel.req q = s.kernel.req q := fun q hq => by rw [hreq, Function.update_of_ne hq]
  have hbusyq : ∀ q, s'.kernel.busy q = true → q ≠ p ∧ s.kernel.busy q = true := by
    intro q hq
    rw [hbusy] at hq
    by_cases hqp : q = p
    · rw [hqp, Function.update_self] at hq
      cases hq
    · rw [Function.update_of_ne hqp] at hq
      exact ⟨hqp, hq⟩
  have hdone : (s'.kernel.req p).Copied mover s.proc.log ∧ (s'.kernel.req p).id = (s.kernel.req p).id := by
    rw [hreq, Function.update_self]
    refine ⟨(h.replying c p hold).copied (h.kind p hp) hhand.offered (hhand.u2k rfl), ?_⟩
    obtain ⟨rq, hfin, -⟩ := finished_keeps (s.kernel.req p) ((copyLibrary mover buffer).umem s.proc) (s.loop c).u2k
    rw [hfin]
  refine ⟨fun q hq => ?_, fun q hq => ?_, fun q q' hq hq' heq => ?_, fun r hr => ?_, ?_, fun a ha => ?_, fun q hq => ?_,
    fun d q point hq => ?_, fun d u hu => ?_, fun d q hq => ?_, fun r hr => ?_, by rw [hproc]; exact h.legal,
    by rw [hproc]; exact h.disk⟩
  · obtain ⟨hqp, hq⟩ := hbusyq q hq
    rw [hsame q hqp]
    exact h.kind q hq
  · obtain ⟨hqp, hq⟩ := hbusyq q hq
    rw [hsame q hqp]
    exact Nat.le_trans (h.ids q hq) hnext
  · obtain ⟨hqp, hq⟩ := hbusyq q hq
    obtain ⟨hqp', hq'⟩ := hbusyq q' hq'
    rw [hsame q hqp, hsame q' hqp'] at heq
    exact h.distinct q q' hq hq' heq
  · rw [hended] at hr
    rcases List.mem_append.1 hr with hr | hr
    · obtain ⟨hle, hne⟩ := h.past r hr
      refine ⟨Nat.le_trans hle hnext, fun q hq => ?_⟩
      obtain ⟨hqp, hq⟩ := hbusyq q hq
      rw [hsame q hqp]
      exact hne q hq
    · rw [List.mem_singleton.1 hr, hdone.2]
      refine ⟨Nat.le_trans (h.ids p hp) hnext, fun q hq heq => ?_⟩
      obtain ⟨hqp, hq⟩ := hbusyq q hq
      rw [hsame q hqp] at heq
      exact hqp (h.distinct q p hq hp heq)
  · rw [hended, List.map_append, List.map_singleton, hdone.2]
    refine List.nodup_append.2 ⟨h.nodup, List.nodup_singleton _, fun i hi j hj hij => ?_⟩
    obtain ⟨r, hr, rfl⟩ := List.mem_map.1 hi
    rw [List.mem_singleton.1 hj] at hij
    exact (h.past r hr).2 p hp hij.symm
  · rw [hproc] at ha
    exact Nat.le_trans (h.logged a ha) hnext
  · obtain ⟨hqp, hq⟩ := hbusyq q hq
    rw [hsame q hqp, hproc]
    rcases h.untouched q hq with hnone | ⟨d, point, hd, hpt⟩
    · exact Or.inl hnone
    · have hdc : d ≠ c := by
        rintro rfl
        exact hqp (ha.at_unique hd hold)
      exact Or.inr ⟨d, point, hstay d q point hdc hd hpt, hpt⟩
  · obtain ⟨hqp, hq', -⟩ := hat d q point hq
    rw [hproc, hsame q hqp]
    exact h.loaded d q point hq'
  · rw [hproc] at hu ⊢
    obtain ⟨q, hq, hrun⟩ := h.running d u hu
    have hdc : d ≠ c := by
      rintro rfl
      have hplace := hq.place
      rw [hold.place] at hplace
      cases hplace
    have hq' := hstay d q _ hdc hq (Or.inl rfl)
    exact ⟨q, hq', by rw [hsame q (hat d q _ hq').1]; exact hrun⟩
  · obtain ⟨hqp, hq', hloop⟩ := hat d q _ hq
    rw [hproc, hloop, hsame q hqp]
    exact h.replying d q hq'
  · rw [hproc]
    rw [hended] at hr
    rcases List.mem_append.1 hr with hr | hr
    · exact h.ended r hr
    · rw [List.mem_singleton.1 hr]
      exact hdone.1

theorem Stack.Copying.untouched_proc (h : s.Copying mover buffer disk) {b : CopyProc} {q : Ptr}
    (hq : s.kernel.busy q = true) : trace (s.kernel.req q).id s.proc.log = [] ∨
      ∃ c point, Stack.At { s with proc := b } c q point ∧ (point = .handling ∨ point = .writing) := by
  rcases h.untouched q hq with hnone | ⟨d, point, hd, hpt⟩
  · exact Or.inl hnone
  · exact Or.inr ⟨d, point, Stack.at_proc.2 hd, hpt⟩

/-- The callbacks of the other loops. -/
theorem Stack.Copying.running_other (h : s.Copying mover buffer disk) {c d : Nat} {x : Option Transfer} {u : Transfer}
    (hd : d ≠ c) (hu : Function.update s.proc.call c x d = some u) :
    ∃ q, s.At d q .handling ∧ u.Runs mover s.proc (buffer d) (s.kernel.req q) := by
  rw [Function.update_of_ne hd] at hu
  exact h.running d u hu

/-- A callback moves a part of its data. -/
theorem Stack.Copying.piece (h : s.Copying mover buffer disk) (ha : s.Agrees ⟨false⟩ (copyLibrary mover buffer))
    (hbuf : BuffersApart buffer) {c n : Nat} {t : Transfer} (ht : s.proc.call c = some t) (hnone : t.status = none)
    (hdata : requestMayHaveData t.op = true) (hfit : t.size + t.moved + n ≤ t.length) :
    ({ s with proc := s.proc.piece c t n }).Copying mover buffer disk ∧
      ∃ new, (s.proc.piece c t n).log = s.proc.log ++ new ∧ ∀ a ∈ new, ∃ c p, s.At c p .handling ∧
        a.who = (s.kernel.req p).id := by
  have hkept : s.Kept { s with proc := s.proc.piece c t n } := ⟨fun q => .refl _, rfl, rfl⟩
  obtain ⟨p, hp, hrun⟩ := h.running c t ht
  have hbusy := ha.at_busy hp
  have hkind : t.op = .read ∨ t.op = .write := by
    rcases (h.kind p hbusy).type with hty | hty | hty
    · exact Or.inl (hrun.op.trans hty)
    · exact Or.inr (hrun.op.trans hty)
    · rw [hrun.op, hty] at hdata
      cases hdata
  have hkind' : (s.kernel.req p).type = .read ∨ (s.kernel.req p).type = .write := by
    rw [← hrun.op]
    exact hkind
  have hnot : (s.kernel.req p).type ≠ .flush := by
    rcases hkind' with hty | hty <;> rw [hty] <;> decide
  obtain ⟨hlen, hmax⟩ := (ha.inHand hp).offered.data (by rw [← hrun.op]; exact hdata)
  obtain ⟨hplace, -, hlength⟩ := hrun.place hnot
  -- the copy buffers of the other loops are apart
  have hapart : ∀ d q point, d ≠ c → s.At d q point → (s.kernel.req q).type = .read →
      t.data + (t.size + t.moved) + n ≤ buffer d ∨
        buffer d + (s.kernel.req q).length ≤ t.data + (t.size + t.moved) := by
    intro d q point hd hq hread
    have hmaxq := ((ha.inHand hq).offered.data (by rw [hread]; rfl)).2
    have hap := hbuf d c hd
    omega
  have hids : ∀ q, s.kernel.busy q = true → q ≠ p → t.id ≠ (s.kernel.req q).id := by
    intro q hq hqp heq
    exact hqp (h.distinct q p hq hbusy (heq.symm.trans hrun.id))
  have hsame : ∀ d q point, d ≠ c → s.At d q point →
      s.proc.SameFor (s.proc.piece c t n) (buffer d) (s.kernel.req q) := by
    intro d q point hd hq
    have hqp : q ≠ p := fun he => hd (ha.at_inj (he ▸ hq) hp)
    exact CopyProc.piece_same (hids q (ha.at_busy hq) hqp) (fun _ hread => hapart d q point hd hq hread)
  obtain ⟨hlegal, hdisk⟩ := CopyProc.piece_disk (c := c) (n := n) h.legal h.disk hkind
  have hwho : ∀ a ∈ Registers.range t.id (t.op == .write) (t.offset + (t.size + t.moved)) (s.proc.next t n),
      a.who = (s.kernel.req p).id := fun a hmem => (Registers.range_who hmem).trans hrun.id
  refine ⟨h.of_kept hkept (Nat.le_refl _) (fun a hmem => ?_) (fun q hq => ?_) (fun d q point hq => ?_)
    (fun d u hu => ?_) (fun d q hq => ?_) (fun r hr => ?_) hlegal hdisk, _, rfl,
      fun a hmem => ⟨c, p, hp, hwho a hmem⟩⟩
  · rcases List.mem_append.1 hmem with hmem | hmem
    · exact h.logged a hmem
    · rw [hwho a hmem]
      exact h.ids p hbusy
  · by_cases hqp : q = p
    · rw [hqp]
      exact Or.inr ⟨c, .handling, Stack.at_proc.2 hp, Or.inl rfl⟩
    · show trace _ (s.proc.piece c t n).log = [] ∨ _
      rw [CopyProc.piece_trace, if_neg (hids q hq hqp)]
      exact h.untouched_proc hq
  · have hq' := Stack.at_proc.1 hq
    have hmem : ∀ x, x < buffer c ∨ buffer c + biusMaxSizePerCommand ≤ x →
        (s.proc.piece c t n).mem x = s.proc.mem x := by
      intro x hx
      show (if t.op = .read then Bytes.splice s.proc.mem _ _ else s.proc.mem) x = _
      split
      · apply Bytes.splice_outside _
        rw [Bytes.slice_length]
        omega
      · rfl
    by_cases hd : d = c
    · -- a write leaves its own payload alone
      subst hd
      obtain rfl := ha.at_unique hq' hp
      obtain rfl : point = .handling := hq'.place.symm.trans hp.place
      intro hw
      have hop : t.op ≠ .read := by
        intro hop
        rw [← hrun.op, hop] at hw
        cases hw
      show Bytes.slice (if t.op = .read then _ else s.proc.mem) _ _ = _
      rw [if_neg hop]
      exact h.loaded d q _ hp hw
    · exact (h.elsewhere ha hbuf hd hq' hmem).1
  · by_cases hd : d = c
    · subst hd
      change Function.update s.proc.call d (some { t with moved := t.moved + n }) d = some u at hu
      rw [Function.update_self] at hu
      cases hu
      refine ⟨p, Stack.at_proc.2 hp, hrun.piece hnone hkind' hfit hlen (fun hw => ?_)⟩
      exact h.loaded d p _ hp (by rw [hw]; rfl)
    · obtain ⟨q, hq, hrunq⟩ := h.running_other hd hu
      exact ⟨q, Stack.at_proc.2 hq, (hsame d q _ hd hq).runs hrunq⟩
  · have hq' := Stack.at_proc.1 hq
    have hd : d ≠ c := by
      rintro rfl
      have hpoint := hq'.place
      rw [hp.place] at hpoint
      cases hpoint
    exact (hsame d q _ hd hq').replies (h.replying d q hq')
  · obtain ⟨bytes, hm, hres⟩ := h.ended r hr
    refine ⟨bytes, hm.congr ?_, hres⟩
    rw [CopyProc.piece_trace, if_neg]
    intro heq
    exact (h.past r hr).2 p hbusy (hrun.id.symm.trans heq)

/-- A callback, or the syscall it is in, comes back. -/
theorem Stack.Copying.back (h : s.Copying mover buffer disk) {c : Nat} {t t' : Transfer} (ht : s.proc.call c = some t)
    (hnone : t.status = none)
    (hret : t.returns mover = some t' ∨ mover = .syscalls ∧ t' = { t with status := some blkStsIoerr }) :
    ({ s with proc := s.proc.setCall c (some t') }).Copying mover buffer disk := by
  have hkept : s.Kept { s with proc := s.proc.setCall c (some t') } := ⟨fun q => .refl _, rfl, rfl⟩
  obtain ⟨p, hp, hrun⟩ := h.running c t ht
  have hsame : ∀ a r, s.proc.SameFor (s.proc.setCall c (some t')) a r := fun a r => ⟨rfl, fun _ _ _ _ => rfl⟩
  have hrun' : t'.Runs mover s.proc (buffer c) (s.kernel.req p) := by
    rcases hret with hret | ⟨hsys, rfl⟩
    · exact hrun.returns hnone hret
    · exact hrun.fails hsys
  refine h.of_kept hkept (Nat.le_refl _) h.logged (fun q hq => h.untouched_proc hq)
    (fun d q point hq => h.loaded d q point (Stack.at_proc.1 hq)) (fun d u hu => ?_)
    (fun d q hq => (hsame _ _).replies (h.replying d q (Stack.at_proc.1 hq))) h.ended h.legal h.disk
  by_cases hd : d = c
  · subst hd
    change Function.update s.proc.call d (some t') d = some u at hu
    rw [Function.update_self] at hu
    cases hu
    exact ⟨p, Stack.at_proc.2 hp, (hsame _ _).runs hrun'⟩
  · obtain ⟨q, hq, hrunq⟩ := h.running_other hd hu
    exact ⟨q, Stack.at_proc.2 hq, (hsame _ _).runs hrunq⟩

/-- A callback goes on. What it adds to the history stands under the id of its request, which
    is outstanding. -/
theorem Stack.Copying.process (h : s.Copying mover buffer disk) (ha : s.Agrees ⟨false⟩ (copyLibrary mover buffer))
    (hbuf : BuffersApart buffer) {act : CopyAct} {b : CopyProc}
    (hact : (copyLibrary mover buffer).act s.proc act = some b) :
    ({ s with proc := b }).Copying mover buffer disk ∧
      ∃ new, b.log = s.proc.log ++ new ∧ ∀ a ∈ new, ∃ c p, s.At c p .handling ∧
        a.who = (s.kernel.req p).id := by
  rcases CopyProc.act_cases hact with ⟨c, n, t, ht, hnone, hdata, hfit, rfl⟩ | ⟨c, t, t', ht, hnone, hret, rfl⟩
  · exact h.piece ha hbuf ht hnone hdata hfit
  · exact ⟨h.back ht hnone hret, [], (List.append_nil _).symm, fun a hmem => (by cases hmem)⟩

theorem Stack.next_queueRq {t : Tid} {p : Ptr} {rq : Rq}
    (hs : s.step ⟨false⟩ (copyLibrary mover buffer) (.block (.queueRq t p rq)) = some s') :
    s'.kernel.nextRequestId = s.kernel.nextRequestId + 1 := by
  simp only [Stack.step] at hs
  split at hs
  · obtain ⟨hst, -, -⟩ := Stack.kernelStep_some hs
    generalize s'.kernel = k at hst ⊢
    cases step_cases hst with
    | queueRq t p rq ht hfree =>
      unfold Kernel.queueRq
      dsimp only
      split <;> rfl
  · cases hs

/-- **Every step keeps it**, and adds to the history of the disk only what the callback of an
    outstanding request does. -/
theorem Stack.Copying.step (h : s.Copying mover buffer disk) (ha : s.Agrees ⟨false⟩ (copyLibrary mover buffer))
    (hbuf : BuffersApart buffer) {act : StackAct CopyAct} (hok : s.ForCopy (copyLibrary mover buffer) act)
    (hs : s.step ⟨false⟩ (copyLibrary mover buffer) act = some s') (hid : s'.kernel.nextRequestId < 2 ^ 64) :
    s'.Copying mover buffer disk ∧ ∃ new, s'.proc.log = s.proc.log ++ new ∧
      ∀ a ∈ new, ∃ c p, s.At c p .handling ∧ a.who = (s.kernel.req p).id := by
  have hhonest : (copyLibrary mover buffer).Honest ⟨false⟩ := copyLibrary_honest
  have ha' := ha.step hhonest hok.admits hs
  have hnext := Stack.next_le hs hid
  have hstay : act.Passes → ∀ d q point, s.At d q point → point = .handling ∨ point = .writing →
      s'.At d q point := by
    intro hpass d q point hq hpt
    obtain ⟨hreply, hend⟩ := hpass.ne d
    exact (ha.stays hq hpt hreply hend hs).1
  have hsilent : s'.proc.log = s.proc.log → ∃ new, s'.proc.log = s.proc.log ++ new ∧
      ∀ a ∈ new, ∃ c p, s.At c p .handling ∧ a.who = (s.kernel.req p).id :=
    fun hlog => ⟨[], by rw [hlog, List.append_nil], fun a hmem => (by cases hmem)⟩
  cases ha.turn ha' h.isBlk hok.orders hhonest.buffers hs with
  | quiet act hk hproc hat hpass =>
    refine ⟨h.kept hk hnext (by rw [hproc]) (by rw [hproc]) (by rw [hproc]) (hstay hpass) (fun c p hp => hat c p _ hp)
      (fun c p point hp => ?_) (fun _ _ _ _ _ _ _ _ _ => by rw [hproc]), hsilent (by rw [hproc])⟩
    rw [hproc]
    exact h.loaded c p point (hat c p point hp).1
  | submitted t p rq hfree hreq hbusy hended hproc hat =>
    exact ⟨h.submitted ha hok hfree (Stack.next_queueRq hs) hid hreq hbusy hended hproc hat (hstay trivial),
      hsilent (by rw [hproc])⟩
  | copying act c p n hk ho hp hoff hat hwrite hn hfill hpass =>
    have hmax := (hoff.data (requestMayHaveData_of_isWrite hwrite)).2
    obtain ⟨hslice, ⟨hlog, hdisk, hcall⟩, hmem⟩ := h.filled hfill (by omega)
    have hother : ∀ d q, s'.At d q .writing → d ≠ c := by
      rintro d q hq rfl
      have hpoint := (hat q _ hq).2
      cases hpoint
    refine ⟨h.kept hk hnext hlog hdisk hcall (hstay hpass) (fun d q hq => ho d (hother d q hq) q _ hq)
      (fun d q point hq => ?_) (fun d q point hq hpt => ?_), hsilent hlog⟩
    · by_cases hd : d = c
      · subst hd
        obtain ⟨rfl, rfl⟩ := hat q point hq
        exact hslice
      · exact (h.elsewhere ha hbuf hd (ho d hd q point hq).1 hmem).1
    · have hd : d ≠ c := by
        rintro rfl
        obtain ⟨-, rfl⟩ := hat q point (hstay hpass d q point hq hpt)
        rcases hpt with hpt | hpt <;> cases hpt
      exact (h.elsewhere ha hbuf hd hq hmem).2
  | entered act c p n b hk ho hp hoff hat hle hn hfill hk2u hproc hnot hin hpass =>
    have hmax : n ≤ biusMaxSizePerCommand ∨ n = 0 := by
      by_cases hd : requestMayHaveData (s.kernel.req p).type = true
      · exact Or.inl (Nat.le_trans hle (hoff.data hd).2)
      · rcases hfill with ⟨hn0, -⟩ | ⟨k, bytes, hatk, -, -, -⟩
        · exact Or.inr hn0
        · exact absurd (requestMayHaveData_of_isWrite ((ha.inHand hatk).copyIn k rfl).1) hd
    obtain ⟨-, ⟨hlog, -, -⟩, -⟩ := h.filled hfill (by omega)
    refine ⟨h.entered ha ha' hbuf hk hnext ho hp hoff hat hle hn hfill hk2u hproc hnot hin (hstay hpass), hsilent ?_⟩
    rw [hproc]
    exact hlog
  | replied c p hat hk ho hat' hleave hin =>
    refine ⟨h.replied ha hk hnext hat ho hat' hleave hin (fun d q point hd hq hpt => ?_), hsilent ?_⟩
    · exact (ha.stays hq hpt (fun he => by cases he; exact hd rfl) (fun he => by cases he) hs).1
    · obtain ⟨t, status, -, -, hres⟩ := copyLibrary_leave hleave
      rw [(Prod.mk.inj hres).1]
      rfl
  | ended c p hat hproc hreq hbusy hended hat' =>
    refine ⟨h.complete ha hnext hat hproc hreq hbusy hended hat' (fun d q point hd hq hpt => ?_),
      hsilent (by rw [hproc])⟩
    exact (ha.stays hq hpt (fun he => by cases he) (fun he => by cases he; exact hd rfl) hs).1
  | freed c hk ho hat hproc =>
    change s'.proc = s.proc at hproc
    have hquiet := ho.quiet hat
    refine ⟨h.kept hk hnext (by rw [hproc]) (by rw [hproc]) (by rw [hproc]) (hstay trivial)
      (fun d q hq => hquiet d q _ hq) (fun d q point hq => ?_) (fun _ _ _ _ _ _ _ _ _ => by rw [hproc]), hsilent
      (by rw [hproc])⟩
    rw [hproc]
    exact h.loaded d q point (hquiet d q point hq).1
  | process a =>
    simp only [Stack.step, Option.map_eq_some_iff] at hs
    obtain ⟨b, hact, rfl⟩ := hs
    exact h.process ha hbuf hact

/-- What a step does to the accounts: the requests are completed as they were ordered. -/
theorem Stack.Copying.accounts (h : s.Copying mover buffer disk) (ha : s.Agrees ⟨false⟩ (copyLibrary mover buffer))
    {asked : List Order} (hacc : s.Accounts (fun o r => r.order = o) asked) {act : StackAct CopyAct}
    (hok : s.ForCopy (copyLibrary mover buffer) act) (hs : s.step ⟨false⟩ (copyLibrary mover buffer) act = some s') :
    s'.Accounts (fun o r => r.order = o) (asked ++ act.order.toList) := by
  refine hacc.step ha copyLibrary_honest h.isBlk hok.admits hok.orders (fun t p rq he => ?_) (fun c p he hat => ?_) hs
  · subst he
    exact initBlkRequest_order hok.2.1 _ _
  · obtain ⟨rq, hfin, hrq⟩ := finished_keeps (s.kernel.req p) ((copyLibrary mover buffer).umem s.proc) (s.loop c).u2k
    have hplaces := finished_places (s.kernel.req p) ((copyLibrary mover buffer).umem s.proc) (s.loop c).u2k
    have happ : (s.kernel.req p).type ≠ .zoneAppend := by
      rcases (h.kind p (ha.at_busy hat)).type with ht | ht | ht <;> rw [ht] <;> decide
    rw [hfin] at hplaces ⊢
    rw [if_neg happ]
    unfold BiusRequest.order
    dsimp only at hplaces ⊢
    rw [hplaces]
    by_cases hw : requestIsWrite (s.kernel.req p).type = true
    · rw [hrq (fun ht => by rw [ht] at hw; cases hw)]
    · rw [if_neg hw, if_neg hw]

end

end Bius
