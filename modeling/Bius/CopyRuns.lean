import Bius.CopyStack
import Bius.LibraryWindow
import Bius.RamdiskRuns

/- Runs of the whole stack over a backend that copies (default build). Requests may overlap,
   and a read may see a part of a write; what holds is that every byte of the disk is a
   register. There is one history of the disk: it is legal, a request stands in it with
   the bytes of its range, in order and each once, and where a request is completed before
   another is submitted its bytes come first (`Stack.Follows`). A call that fails leaves
   the beginning of its request in the history and nothing else. `disk_registers` puts this
   together, for every run. -/
namespace Bius

open Registers (Access Legal play trace)

/-! ## How a run goes on -/

/-- A request that has been submitted: it is outstanding or has been completed. -/
def Stack.Issued {β : Type} (s : Stack β) (r : BiusRequest) : Prop :=
  r ∈ s.kernel.ended ∨ ∃ p, s.kernel.busy p = true ∧ s.kernel.req p = r

/-- What is added to the history between two states of a run, and by whom. -/
structure Stack.Follows (s s' : Stack CopyProc) : Prop where
  /-- what has been completed moves nothing any more -/
  log : ∃ new, s'.proc.log = s.proc.log ++ new ∧ ∀ a ∈ new, ∀ r ∈ s.kernel.ended, a.who ≠ r.id
  ended : s.kernel.ended <+: s'.kernel.ended
  /-- a request keeps its id, and one that is submitted later gets an id above those in use -/
  ids : ∀ r, s'.Issued r → s.kernel.nextRequestId < r.id ∨ ∃ q, s.Issued q ∧ q.id = r.id
  stays : ∀ q, s.Issued q → ∃ r, s'.Issued r ∧ r.id = q.id
  next : s.kernel.nextRequestId ≤ s'.kernel.nextRequestId

/-- Every entry of the history is that of a request. -/
def Stack.Named (s : Stack CopyProc) : Prop := ∀ a ∈ s.proc.log, ∃ r, s.Issued r ∧ r.id = a.who

section
variable {mover : Mover} {buffer : Nat → Nat} {disk : Nat → UInt8} {s s' s'' : Stack CopyProc}

theorem Stack.Follows.refl (s : Stack CopyProc) : s.Follows s :=
  ⟨⟨[], (List.append_nil _).symm, fun a ha => (by cases ha)⟩, List.prefix_refl _,
    fun r hr => Or.inr ⟨r, hr, rfl⟩, fun q hq => ⟨q, hq, rfl⟩, Nat.le_refl _⟩

theorem Stack.Follows.trans (h : s.Follows s') (h' : s'.Follows s'') : s.Follows s'' := by
  obtain ⟨new, hlog, hnew⟩ := h.log
  obtain ⟨new', hlog', hnew'⟩ := h'.log
  refine ⟨⟨new ++ new', by rw [hlog', hlog, List.append_assoc], fun a ha r hr => ?_⟩, h.ended.trans h'.ended,
    fun r hr => ?_, fun q hq => ?_, Nat.le_trans h.next h'.next⟩
  · rcases List.mem_append.1 ha with ha | ha
    · exact hnew a ha r hr
    · exact hnew' a ha r (h.ended.subset hr)
  · rcases h'.ids r hr with hlt | ⟨q, hq, hid⟩
    · exact Or.inl (Nat.lt_of_le_of_lt h.next hlt)
    · rw [← hid]
      exact h.ids q hq
  · obtain ⟨r, hr, hid⟩ := h.stays q hq
    obtain ⟨r', hr', hid'⟩ := h'.stays r hr
    exact ⟨r', hr', hid'.trans hid⟩

theorem Stack.Kept.issued (hk : s.Kept s') :
    (∀ r, s'.Issued r → ∃ q, s.Issued q ∧ q.id = r.id) ∧ ∀ q, s.Issued q → ∃ r, s'.Issued r ∧
      r.id = q.id := by
  constructor
  · rintro r (hr | ⟨p, hp, rfl⟩)
    · rw [hk.ended] at hr
      exact ⟨r, Or.inl hr, rfl⟩
    · rw [hk.busy] at hp
      exact ⟨_, Or.inr ⟨p, hp, rfl⟩, (hk.req p).id.symm⟩
  · rintro q (hq | ⟨p, hp, rfl⟩)
    · rw [← hk.ended] at hq
      exact ⟨q, Or.inl hq, rfl⟩
    · rw [← hk.busy] at hp
      exact ⟨_, Or.inr ⟨p, hp, rfl⟩, (hk.req p).id⟩

theorem Stack.Copying.follows (h : s.Copying mover buffer disk) (ha : s.Agrees ⟨false⟩ (copyLibrary mover buffer))
    (hbuf : BuffersApart buffer) {act : StackAct CopyAct} (hok : s.ForCopy (copyLibrary mover buffer) act)
    (hs : s.step ⟨false⟩ (copyLibrary mover buffer) act = some s') (hid : s'.kernel.nextRequestId < 2 ^ 64) :
    s.Follows s' := by
  have hhonest : (copyLibrary mover buffer).Honest ⟨false⟩ := copyLibrary_honest
  have ha' := ha.step hhonest hok.admits hs
  have hnext := Stack.next_le hs hid
  have hlog : ∃ new, s'.proc.log = s.proc.log ++ new ∧ ∀ a ∈ new, ∀ r ∈ s.kernel.ended, a.who ≠ r.id := by
    obtain ⟨-, new, hlog, hnew⟩ := h.step ha hbuf hok hs hid
    refine ⟨new, hlog, fun a hmem r hr heq => ?_⟩
    obtain ⟨c, p, hat, hwho⟩ := hnew a hmem
    exact (h.past r hr).2 p (ha.at_busy hat) (hwho.symm.trans heq)
  have hkept : s.Kept s' → s.Follows s' := by
    intro hk
    obtain ⟨hback, hforth⟩ := hk.issued
    exact ⟨hlog, by simp [hk.ended], fun r hr => Or.inr (hback r hr), hforth, hnext⟩
  cases ha.turn ha' h.isBlk hok.orders hhonest.buffers hs with
  | quiet act hk | copying act c p n hk | entered act c p n b hk | replied c p hat hk | freed c hk | process a hk =>
    exact hkept hk
  | submitted t p rq hfree hreq hbusy hended hproc =>
    have hold : ∀ q, q ≠ p → s'.kernel.req q = s.kernel.req q := fun q hq => by rw [hreq, Function.update_of_ne hq]
    refine ⟨hlog, by simp [hended], fun r hr => ?_, fun q hq => ?_, hnext⟩
    · rcases hr with hr | ⟨q, hq, rfl⟩
      · rw [hended] at hr
        exact Or.inr ⟨r, Or.inl hr, rfl⟩
      · by_cases hqp : q = p
        · refine Or.inl ?_
          have hnew := Stack.next_queueRq hs
          rw [hqp, hreq, Function.update_self]
          show _ < (s.kernel.nextRequestId + 1) % 2 ^ 64
          rw [Nat.mod_eq_of_lt (by omega)]
          exact Nat.lt_succ_self _
        · rw [hbusy, Function.update_of_ne hqp] at hq
          exact Or.inr ⟨_, Or.inr ⟨q, hq, rfl⟩, by rw [hold q hqp]⟩
    · rcases hq with hq | ⟨q, hq, rfl⟩
      · exact ⟨_, Or.inl (by rw [hended]; exact hq), rfl⟩
      · have hqp : q ≠ p := by
          rintro rfl
          rw [hfree] at hq
          cases hq
        exact ⟨_, Or.inr ⟨q, by rw [hbusy, Function.update_of_ne hqp]; exact hq, rfl⟩, by rw [hold q hqp]⟩
  | ended c p hat hproc hreq hbusy hended =>
    have hold : ∀ q, q ≠ p → s'.kernel.req q = s.kernel.req q := fun q hq => by rw [hreq, Function.update_of_ne hq]
    have hsame : (s'.kernel.req p).id = (s.kernel.req p).id := by
      obtain ⟨rq, hfin, -⟩ := finished_keeps (s.kernel.req p) ((copyLibrary mover buffer).umem s.proc) (s.loop c).u2k
      rw [hreq, Function.update_self, hfin]
    have hp := ha.at_busy hat
    refine ⟨hlog, by rw [hended]; exact List.prefix_append _ _, fun r hr => Or.inr ?_, fun q hq => ?_, hnext⟩
    · rcases hr with hr | ⟨q, hq, rfl⟩
      · rw [hended] at hr
        rcases List.mem_append.1 hr with hr | hr
        · exact ⟨r, Or.inl hr, rfl⟩
        · rw [List.mem_singleton.1 hr]
          exact ⟨_, Or.inr ⟨p, hp, rfl⟩, hsame.symm⟩
      · have hqp : q ≠ p := by
          rintro rfl
          rw [hbusy, Function.update_self] at hq
          cases hq
        rw [hbusy, Function.update_of_ne hqp] at hq
        exact ⟨_, Or.inr ⟨q, hq, rfl⟩, by rw [hold q hqp]⟩
    · rcases hq with hq | ⟨q, hq, rfl⟩
      · exact ⟨q, Or.inl (by rw [hended]; exact List.mem_append_left _ hq), rfl⟩
      · by_cases hqp : q = p
        · subst hqp
          exact ⟨_, Or.inl (by rw [hended]; exact List.mem_append_right _ (List.mem_singleton.2 rfl)), hsame⟩
        · exact ⟨_, Or.inr ⟨q, by rw [hbusy, Function.update_of_ne hqp]; exact hq, rfl⟩, by rw [hold q hqp]⟩

theorem Stack.Copying.run (hbuf : BuffersApart buffer) {acts : List (StackAct CopyAct)}
    (hrun : Machine.Steps (Stack.step ⟨false⟩ (copyLibrary mover buffer))
      (Stack.ForCopy (copyLibrary mover buffer)) s acts s')
    (h : s.Copying mover buffer disk) (ha : s.Agrees ⟨false⟩ (copyLibrary mover buffer)) (hname : s.Named)
    {asked : List Order} (hacc : s.Accounts (fun o r => r.order = o) asked) (hid : s'.kernel.nextRequestId < 2 ^ 64) :
    (s'.Copying mover buffer disk ∧ s'.Agrees ⟨false⟩ (copyLibrary mover buffer) ∧ s'.Named ∧
      s'.Accounts (fun o r => r.order = o) (asked ++ orders acts)) ∧ s.Follows s' := by
  induction hrun generalizing asked with
  | nil s => exact ⟨⟨h, ha, hname, by rw [orders, List.filterMap_nil, List.append_nil]; exact hacc⟩, .refl s⟩
  | @cons s t u act acts hok hs hrest ih =>
    have hidt : t.kernel.nextRequestId < 2 ^ 64 := Nat.lt_of_le_of_lt (Stack.steps_next_le hrest hid) hid
    obtain ⟨h', new, hlog, hnew⟩ := h.step ha hbuf hok hs hidt
    have hfollows := h.follows ha hbuf hok hs hidt
    have hname' : t.Named := by
      intro a hmem
      have hissued : ∃ q, s.Issued q ∧ q.id = a.who := by
        rw [hlog] at hmem
        rcases List.mem_append.1 hmem with hmem | hmem
        · exact hname a hmem
        · obtain ⟨c, p, hat, hwho⟩ := hnew a hmem
          exact ⟨_, Or.inr ⟨p, ha.at_busy hat, rfl⟩, hwho.symm⟩
      obtain ⟨q, hq, hqa⟩ := hissued
      obtain ⟨r, hr, hrq⟩ := hfollows.stays q hq
      exact ⟨r, hr, hrq.trans hqa⟩
    obtain ⟨⟨hcopy, hagrees, hnamed, haccounts⟩, hlater⟩ := ih h' (ha.step copyLibrary_honest hok.admits hs) hname'
      (h.accounts ha hacc hok hs) hid
    refine ⟨⟨hcopy, hagrees, hnamed, ?_⟩, hfollows.trans hlater⟩
    rw [orders_cons, ← List.append_assoc]
    exact haccounts

end

/-! ## Without new requests -/

/-- The steps that neither submit a request nor bring a connection, those of the callbacks
    included. -/
def StackAct.GoesOn {α : Type} (act : StackAct α) : Prop := act.Serves ∨ ∃ a, act = .process a

/-- The steps that a callback has left. -/
def Transfer.steps (t : Transfer) : Nat :=
  if t.status = none then 2 * (t.length - (t.size + t.moved)) + (if t.moved = 0 then 1 else 2) else 0

def CopyProc.steps (b : CopyProc) : Tid → Nat
  | .user c => (b.call c).elim 0 Transfer.steps
  | .blk _ => 0

/-- Steps of service and steps of the callbacks that are left, where nobody but `threads` is
    awake: each command that is handed to the backend brings a callback. -/
def Stack.work (threads : List Tid) (s : Stack CopyProc) : Nat :=
  (2 * biusMaxSizePerCommand + 2) * s.load threads + (threads.map s.proc.steps).sum

/-- The loops that handle a command are in a callback. -/
def Stack.Calling (s : Stack CopyProc) : Prop := ∀ c p, s.At c p .handling → ∃ t, s.proc.call c = some t

theorem nextRequestId_of_step {cfg : Config} {k k' : Kernel} {act : Act} (h : Bius.step cfg k act = some k')
    (hsub : act.submits = false) :
    k'.nextRequestId = k.nextRequestId := by
  cases step_cases h with
  | queueRq | reportZones => cases hsub
  | attach | mmap | insert | zonesWake | readInterrupt | ret => rfl
  | readStart t c size cuts ht hs =>
    unfold Kernel.readStart at hs
    split at hs
    · cases hs
      rfl
    · split at hs
      · rw [Option.map_eq_some_iff] at hs
        obtain ⟨res, -, rfl⟩ := hs
        dsimp only
        split <;> split <;> rfl
      · split at hs <;>
        · cases hs
          rfl
  | readTake t c p ps ht hps hs =>
    unfold Kernel.prepare at hs
    split at hs
    · split at hs
      · rw [Option.map_eq_some_iff] at hs
        obtain ⟨vmStart, -, rfl⟩ := hs
        rfl
      · split at hs <;>
        · cases hs
          rfl
    · cases hs
      rfl
  | readSend t c p n ht =>
    unfold Kernel.readSend
    split <;> rfl
  | writeStart t c size n header ht hatt =>
    rcases writeStart_cases k t c size n header with ⟨v, heq⟩ | ⟨p, -, heq⟩ <;> rw [heq] <;> rfl
  | writeEnd t c p header n umem ht hs => exact congrArg Life.next (writeEnd_life hs)

theorem Stack.step_next {β α : Type} {cfg : Config} {B : Backend β α} {s s' : Stack β} {act : StackAct α}
    (hsub : ∀ a, act = .block a → a.submits = false) (hs : s.step cfg B act = some s') :
    s'.kernel.nextRequestId = s.kernel.nextRequestId := by
  rcases Stack.step_moves hs with hsame | ⟨a, hmove, hst⟩
  · rw [hsame]
  · apply nextRequestId_of_step hst
    cases hmove with
    | block a => exact hsub a rfl
    | _ => rfl

section
variable {mover : Mover} {buffer : Nat → Nat} {disk : Nat → UInt8} {s s' : Stack CopyProc} {threads : List Tid}
    {t t' : Transfer}

theorem Transfer.steps_pos (hnone : t.status = none) : 0 < t.steps := by
  unfold Transfer.steps
  rw [if_pos hnone]
  split <;> omega

theorem Transfer.start_steps {mover : Mover} {k2u : K2u}
    (hlen : requestMayHaveData k2u.opcode = true → k2u.length ≤ biusMaxSizePerCommand) :
    (Transfer.start mover k2u).elim 0 Transfer.steps ≤ 2 * biusMaxSizePerCommand + 1 := by
  unfold Transfer.start
  split
  · next hop =>
    have hle := hlen (by rw [hop]; rfl)
    simp only [Option.elim_some, Transfer.steps, if_true]
    omega
  · next hop =>
    have hle := hlen (by rw [hop]; rfl)
    simp only [Option.elim_some, Transfer.steps, if_true]
    omega
  · cases mover <;> simp [Transfer.steps]
  · exact Nat.zero_le _

theorem Transfer.returns_steps (hnone : t.status = none) (hret : t.returns mover = some t') : t'.steps < t.steps := by
  have hpos := Transfer.steps_pos hnone
  unfold Transfer.returns at hret
  cases mover with
  | memcpy =>
    dsimp only at hret
    split at hret
    · cases hret
      exact hpos
    · cases hret
  | syscalls =>
    dsimp only at hret
    split at hret
    · cases hret
      exact hpos
    · split at hret
      · cases hret
        exact hpos
      · next hmoved =>
        split at hret
        · cases hret
          unfold Transfer.steps
          dsimp only
          rw [if_pos hnone, if_pos hnone, if_neg hmoved, if_pos rfl]
          omega
        · cases hret
          exact hpos

theorem CopyProc.act_steps {b b' : CopyProc} {act : CopyAct} (h : b.act mover act = some b') :
    ∃ c t, b.call c = some t ∧ (∀ u, u ≠ .user c → b'.steps u = b.steps u) ∧
      b'.steps (.user c) < b.steps (.user c) := by
  have hother : ∀ {c : Nat} {x : Option Transfer}, b'.call = Function.update b.call c x → ∀ u, u ≠ .user c →
      b'.steps u = b.steps u := by
    intro c x hcall u hu
    cases u with
    | blk n => rfl
    | user d =>
      show (b'.call d).elim _ _ = (b.call d).elim _ _
      rw [hcall, Function.update_of_ne (fun he => hu (by rw [he]))]
  have hown : ∀ {c : Nat} {t t' : Transfer}, b.call c = some t → b'.call = Function.update b.call c (some t') →
      t'.steps < t.steps → b'.steps (.user c) < b.steps (.user c) := by
    intro c t t' ht hcall hlt
    show (b'.call c).elim _ _ < (b.call c).elim _ _
    rw [hcall, Function.update_self, ht]
    exact hlt
  cases act with
  | piece c n =>
    simp only [CopyProc.act, Option.bind_eq_some_iff, Option.ite_none_right_eq_some, Option.some.injEq] at h
    obtain ⟨t, ht, ⟨hnone, -, hn, hfit⟩, rfl⟩ := h
    refine ⟨c, t, ht, hother rfl, hown ht rfl ?_⟩
    unfold Transfer.steps
    dsimp only
    rw [if_pos hnone, if_pos hnone]
    split <;> split <;> omega
  | ret c =>
    simp only [CopyProc.act, Option.bind_eq_some_iff, Option.ite_none_right_eq_some, Option.map_eq_some_iff] at h
    obtain ⟨t, ht, hnone, t', hret, rfl⟩ := h
    exact ⟨c, t, ht, hother rfl, hown ht rfl (Transfer.returns_steps hnone hret)⟩
  | fail c =>
    simp only [CopyProc.act, Option.bind_eq_some_iff, Option.ite_none_right_eq_some, Option.some.injEq] at h
    obtain ⟨t, ht, ⟨hnone, -⟩, rfl⟩ := h
    exact ⟨c, t, ht, hother rfl, hown ht rfl (Transfer.steps_pos hnone)⟩

theorem Stack.Filled.call {c : Nat} {p : Ptr} {n : Nat} {b : CopyProc} (h : s.Filled (copyLibrary mover buffer) c p n b) :
    b.call = s.proc.call := by
  rcases h with ⟨-, rfl⟩ | ⟨m, bytes, -, -, -, rfl⟩
  · rfl
  · rfl

theorem Stack.Copying.brings (h : s.Copying mover buffer disk)
    (ha : s.Agrees ⟨false⟩ (copyLibrary mover buffer)) {act : StackAct CopyAct}
    (hok : s.ForCopy (copyLibrary mover buffer) act) (hact : act.Serves)
    (hs : s.step ⟨false⟩ (copyLibrary mover buffer) act = some s') :
    ∃ c, (∀ u, u ≠ .user c → s'.proc.steps u = s.proc.steps u) ∧
      s'.proc.steps (.user c) ≤ s.proc.steps (.user c) + (2 * biusMaxSizePerCommand + 1) := by
  have hhonest : (copyLibrary mover buffer).Honest ⟨false⟩ := copyLibrary_honest
  have ha' := ha.step hhonest hok.admits hs
  have hsame : ∀ c : Nat, s'.proc.call = s.proc.call → (∀ u, u ≠ .user c → s'.proc.steps u = s.proc.steps u) ∧
      s'.proc.steps (.user c) ≤ s.proc.steps (.user c) + (2 * biusMaxSizePerCommand + 1) := by
    intro c hcall
    have hsteps : s'.proc.steps = s.proc.steps := by
      funext u
      cases u with
      | blk n => rfl
      | user d => exact congrArg (fun call => (call d).elim 0 Transfer.steps) hcall
    rw [hsteps]
    exact ⟨fun u _ => rfl, Nat.le_add_right _ _⟩
  have hset : ∀ {c : Nat} {x : Option Transfer}, s'.proc.call = Function.update s.proc.call c x →
      x.elim 0 Transfer.steps ≤ 2 * biusMaxSizePerCommand + 1 →
        (∀ u, u ≠ .user c → s'.proc.steps u = s.proc.steps u) ∧
      s'.proc.steps (.user c) ≤ s.proc.steps (.user c) + (2 * biusMaxSizePerCommand + 1) := by
    intro c x hcall hx
    refine ⟨fun u hu => ?_, ?_⟩
    · cases u with
      | blk n => rfl
      | user d =>
        show (s'.proc.call d).elim _ _ = (s.proc.call d).elim _ _
        rw [hcall, Function.update_of_ne (fun he => hu (by rw [he]))]
    · refine Nat.le_trans ?_ (Nat.le_add_left _ _)
      show (s'.proc.call c).elim _ _ ≤ _
      rw [hcall, Function.update_self]
      exact hx
  cases ha.turn ha' h.isBlk hok.orders hhonest.buffers hs with
  | quiet act hk hproc => exact ⟨0, hsame 0 (by rw [hproc])⟩
  | submitted t p rq => exact absurd hact (by simp [StackAct.Serves])
  | copying act c p n hk ho hp hoff hat hwrite hn hfill => exact ⟨c, hsame c hfill.call⟩
  | entered act c p n b hk ho hp hoff hat hle hn hfill hk2u hproc =>
    refine ⟨c, hset (x := Transfer.start mover (s'.loop c).k2u) ?_ (Transfer.start_steps (fun hd => ?_))⟩
    · rw [hproc, ← hfill.call]
      rfl
    · change (s'.loop c).k2u = copyInHeader (buffer c) _ at hk2u
      rw [hk2u] at hd ⊢
      have hop : (copyInHeader (buffer c) (k2uHeader false 0 (s.kernel.req p))).opcode = (s.kernel.req p).type := by
        simp [k2uHeader]
      have hlen : (copyInHeader (buffer c) (k2uHeader false 0 (s.kernel.req p))).length = (s.kernel.req p).length := by
        simp [k2uHeader]
      rw [hlen]
      exact (hoff.data (by rw [← hop]; exact hd)).2
  | replied c p hat hk ho hat' hleave =>
    obtain ⟨t, status, -, -, hres⟩ := copyLibrary_leave hleave
    refine ⟨c, hset (x := none) ?_ (Nat.zero_le _)⟩
    rw [(Prod.mk.inj hres).1]
    rfl
  | ended c p hat hproc => exact ⟨c, hsame c (by rw [hproc])⟩
  | freed c hk ho hat hproc => exact ⟨c, hsame c (by rw [hproc]; rfl)⟩
  | process a => exact absurd hact (by simp [StackAct.Serves])

/-- **Every step but a submission leaves less to do.** -/
theorem Stack.Copying.work_lt (h : s.Copying mover buffer disk) (ha : s.Agrees ⟨false⟩ (copyLibrary mover buffer))
    (hw : s.Awake threads) {act : StackAct CopyAct} (hact : act.GoesOn) (hok : s.ForCopy (copyLibrary mover buffer) act)
    (hs : s.step ⟨false⟩ (copyLibrary mover buffer) act = some s') :
    s'.Awake threads ∧ s'.work threads < s.work threads ∧ s'.kernel.nextRequestId = s.kernel.nextRequestId := by
  have hnodup := hw.nodup
  -- one thread at most has got a callback or gone on with it
  have hsum : ∀ {c k : Nat}, (∀ u, u ≠ .user c → s'.proc.steps u = s.proc.steps u) →
      s'.proc.steps (.user c) ≤ s.proc.steps (.user c) + k →
      (threads.map s'.proc.steps).sum ≤ (threads.map s.proc.steps).sum + k := by
    intro c k hothers hle
    by_cases hc : Tid.user c ∈ threads
    · have hchange := Sums.change hnodup hc hothers
      omega
    · have hsame : threads.map s'.proc.steps = threads.map s.proc.steps :=
        List.map_congr_left (fun u hu => hothers u (fun he => hc (he ▸ hu)))
      rw [hsame]
      exact Nat.le_add_right _ _
  rcases hact with hact | ⟨a, rfl⟩
  · obtain ⟨t, hserved⟩ := ha.served h.isBlk copyLibrary_honest.buffers hact hs
    obtain ⟨hw', hless⟩ := hserved.load_lt hw
    obtain ⟨c, hothers, hle⟩ := h.brings ha hok hact hs
    have hcalls := hsum hothers hle
    refine ⟨hw', ?_, ?_⟩
    · unfold Stack.work
      calc (2 * biusMaxSizePerCommand + 2) * s'.load threads + (threads.map s'.proc.steps).sum
          ≤ (2 * biusMaxSizePerCommand + 2) * s'.load threads +
            ((threads.map s.proc.steps).sum + (2 * biusMaxSizePerCommand + 1)) :=
            Nat.add_le_add_left hcalls _
        _ < (2 * biusMaxSizePerCommand + 2) * (s'.load threads + 1) + (threads.map s.proc.steps).sum := by
            rw [Nat.mul_add_one]
            omega
        _ ≤ (2 * biusMaxSizePerCommand + 2) * s.load threads + (threads.map s.proc.steps).sum :=
            Nat.add_le_add_right (Nat.mul_le_mul_left _ hless) _
    · apply Stack.step_next _ hs
      rintro a rfl
      cases a with
      | queueRq | reportZones => exact absurd hact (by simp [StackAct.Serves])
      | _ => rfl
  · simp only [Stack.step, Option.map_eq_some_iff] at hs
    obtain ⟨b, hstep, rfl⟩ := hs
    obtain ⟨c, t, ht, hothers, hlt⟩ := CopyProc.act_steps (show s.proc.act mover a = some b from hstep)
    obtain ⟨p, hp, -⟩ := h.running c t ht
    have hc : Tid.user c ∈ threads := by
      by_contra hnot
      have hasleep : (s.loop c).point = .starting := hw.others _ hnot
      rw [hp.place] at hasleep
      cases hasleep
    have hchange := Sums.change (f := b.steps) (g := s.proc.steps) hnodup hc hothers
    refine ⟨⟨hnodup, fun u hu => ?_⟩, ?_, rfl⟩
    · have hsleep := hw.others u hu
      cases u <;> exact hsleep
    · have hload : Stack.load threads { s with proc := b } = s.load threads := by
        have hsteps : Stack.steps { s with proc := b } = s.steps := by
          funext u
          cases u <;> rfl
        unfold Stack.load
        rw [hsteps]
      show (2 * biusMaxSizePerCommand + 2) * Stack.load threads { s with proc := b } + (threads.map b.steps).sum < _
      rw [hload]
      unfold Stack.work
      omega

/-- A loop that is handed a command gets a callback, and keeps it until it has the reply. -/
theorem Stack.Calling.step (hcall : s.Calling) (h : s.Copying mover buffer disk)
    (ha : s.Agrees ⟨false⟩ (copyLibrary mover buffer)) {act : StackAct CopyAct}
    (hok : s.ForCopy (copyLibrary mover buffer) act)
    (hs : s.step ⟨false⟩ (copyLibrary mover buffer) act = some s') : s'.Calling := by
  have hhonest : (copyLibrary mover buffer).Honest ⟨false⟩ := copyLibrary_honest
  have ha' := ha.step hhonest hok.admits hs
  have hkeep : s'.proc.call = s.proc.call → (∀ d q, s'.At d q .handling → s.At d q .handling) → s'.Calling := by
    intro hsame hat c p hp
    rw [hsame]
    exact hcall c p (hat c p hp)
  cases ha.turn ha' h.isBlk hok.orders hhonest.buffers hs with
  | quiet act hk hproc hat => exact hkeep (by rw [hproc]) (fun d q hq => (hat d q _ hq).1)
  | submitted t p rq hfree hreq hbusy hended hproc hat => exact hkeep (by rw [hproc]) (fun d q hq => (hat d q _ hq).1)
  | copying act c p n hk ho hp hoff hat hwrite hn hfill =>
    refine hkeep hfill.call (fun d q hq => (ho d ?_ q _ hq).1)
    rintro rfl
    have hpoint := (hat q _ hq).2
    cases hpoint
  | entered act c p n b hk ho hp hoff hat hle hn hfill hk2u hproc =>
    intro d q hq
    have hcall' : s'.proc.call = Function.update s.proc.call c (Transfer.start mover (s'.loop c).k2u) := by
      rw [hproc, ← hfill.call]
      rfl
    rw [hcall']
    by_cases hd : d = c
    · subst hd
      rw [Function.update_self]
      obtain ⟨rfl, -⟩ := hat q _ hq
      have hstart : ∃ t, Transfer.start mover (copyInHeader (buffer d) (k2uHeader false 0 (s.kernel.req q))) =
          some t := by
        have hop : (copyInHeader (buffer d) (k2uHeader false 0 (s.kernel.req q))).opcode = (s.kernel.req q).type := by
          simp [k2uHeader]
        unfold Transfer.start
        rw [hop]
        rcases (h.kind q hp).type with ht | ht | ht <;> rw [ht] <;> exact ⟨_, rfl⟩
      rw [hk2u]
      exact hstart
    · rw [Function.update_of_ne hd]
      exact hcall d q (ho d hd q _ hq).1
  | replied c p hat hk ho hat' hleave =>
    obtain ⟨t, status, -, -, hres⟩ := copyLibrary_leave hleave
    intro d q hq
    have hd : d ≠ c := by
      rintro rfl
      have hpoint := (hat' q _ hq).2
      cases hpoint
    rw [(Prod.mk.inj hres).1]
    show ∃ u, Function.update s.proc.call c none d = some u
    rw [Function.update_of_ne hd]
    exact hcall d q (ho d hd q _ hq).1
  | ended c p hat hproc hreq hbusy hended hat' => exact hkeep (by rw [hproc]) (fun d q hq => (hat' d q _ hq).2.1)
  | freed c hk ho hat hproc => exact hkeep (by rw [hproc]; rfl) (fun d q hq => (ho.quiet hat d q _ hq).1)
  | process a =>
    simp only [Stack.step, Option.map_eq_some_iff] at hs
    obtain ⟨b, hact, rfl⟩ := hs
    intro d q hq
    obtain ⟨t, ht⟩ := hcall d q ⟨hq.place, hq.handed, hq.held⟩
    have hset : ∀ {c : Nat} {x : Transfer}, b.call = Function.update s.proc.call c (some x) →
        ∃ u, b.call d = some u := by
      intro c x hb
      rw [hb]
      by_cases hd : d = c
      · exact ⟨x, by rw [hd, Function.update_self]⟩
      · exact ⟨t, by rw [Function.update_of_ne hd]; exact ht⟩
    rcases CopyProc.act_cases hact with ⟨c, n, u, -, -, -, -, rfl⟩ | ⟨c, u, u', -, -, -, rfl⟩
    · exact hset rfl
    · exact hset rfl

theorem Stack.Calling.init (k2u : Nat → K2u) (u2k : Nat → U2k) (mem disk : Nat → UInt8) :
    (Stack.init k2u u2k ⟨mem, disk, fun _ => none, []⟩).Calling := by
  intro c p hat
  have hplace := hat.place
  cases hplace

theorem Stack.Calling.run (hbuf : BuffersApart buffer) {acts : List (StackAct CopyAct)}
    (hrun : Machine.Steps (Stack.step ⟨false⟩ (copyLibrary mover buffer))
      (Stack.ForCopy (copyLibrary mover buffer)) s acts s')
    (h : s.Copying mover buffer disk) (ha : s.Agrees ⟨false⟩ (copyLibrary mover buffer)) (hcall : s.Calling)
    (hid : s'.kernel.nextRequestId < 2 ^ 64) : s'.Calling := by
  induction hrun with
  | nil => exact hcall
  | cons hok hs hrest ih =>
    have hidt := Nat.lt_of_le_of_lt (Stack.steps_next_le hrest hid) hid
    exact ih (h.step ha hbuf hok hs hidt).1 (ha.step copyLibrary_honest hok.admits hs) (hcall.step h ha hok hs) hid

theorem CopyProc.goes_on {b : CopyProc} {c : Nat} (ht : b.call c = some t) (hnone : t.status = none)
    {r : BiusRequest} {a : Nat} (hrun : t.Runs mover b a r) (hkind : r.ForCopy) :
      ∃ act b', b.act mover act = some b' := by
  cases hret : t.returns mover with
  | some t' =>
    refine ⟨.ret c, b.setCall c (some t'), ?_⟩
    simp only [CopyProc.act, ht, Option.bind_some, hnone, if_true, hret, Option.map_some]
  | none =>
    -- a `memcpy` that has not come to its end
    have hmove : mover = .memcpy ∧ t.moved ≠ t.length := by
      unfold Transfer.returns at hret
      cases mover with
      | memcpy =>
        dsimp only at hret
        split at hret
        · cases hret
        · next hne => exact ⟨rfl, hne⟩
      | syscalls =>
        dsimp only at hret
        split at hret
        · cases hret
        · split at hret
          · cases hret
          · split at hret <;> cases hret
    obtain ⟨rfl, hne⟩ := hmove
    have hsize := hrun.once rfl
    obtain ⟨bytes, hm, hlen, -⟩ := hrun.moved
    have hdata : requestMayHaveData t.op = true ∧ t.moved < t.length := by
      rw [hrun.op]
      by_cases hf : r.type = .flush
      · have hzero := hrun.empty hf
        rw [hm.flush hf, List.length_nil] at hlen
        omega
      · have hle := hm.le
        rw [← (hrun.place hf).2.2] at hle
        refine ⟨?_, by omega⟩
        rcases hkind.type with ht | ht | ht
        · rw [ht]
          rfl
        · rw [ht]
          rfl
        · exact absurd ht hf
    refine ⟨.piece c 1, b.piece c t 1, ?_⟩
    simp only [CopyProc.act, ht, Option.bind_some]
    rw [if_pos ⟨hnone, hdata.1, Nat.one_pos, by omega⟩]

/-- Where the steps of service and the callbacks have all come to an end, every loop that
    handles a command has its reply. -/
theorem Stack.Copying.leaves (h : s.Copying mover buffer disk) (ha : s.Agrees ⟨false⟩ (copyLibrary mover buffer))
    (hcall : s.Calling) (hstuck : ∀ a, s.step ⟨false⟩ (copyLibrary mover buffer) (.process a) = none) {c : Nat}
    (hpt : (s.loop c).point = .handling) :
    ∃ res, (copyLibrary mover buffer).leave c (s.loop c).k2u (s.loop c).u2k s.proc = some res := by
  obtain ⟨p, hat⟩ : ∃ p, s.At c p .handling := by
    have hf := ha.framed c
    unfold Stack.FramedAt at hf
    rw [hpt] at hf
    generalize s.kernel.call (.user c) = call at hf
    cases hf with
    | handling p r hp hr hw => exact ⟨p, hpt, by simp, Or.inl (by simp [hw])⟩
  obtain ⟨t, ht⟩ := hcall c p hat
  obtain ⟨q, hq, hrun⟩ := h.running c t ht
  cases hstatus : t.status with
  | none =>
    exfalso
    obtain ⟨a, b, hact⟩ := CopyProc.goes_on ht hstatus hrun (h.kind q (ha.at_busy hq))
    have hnot := hstuck a
    simp only [Stack.step, Option.map_eq_none_iff] at hnot
    change s.proc.act mover a = none at hnot
    rw [hact] at hnot
    cases hnot
  | some status =>
    refine ⟨(s.proc.setCall c none, copyReply (s.loop c).k2u status), ?_⟩
    show (s.proc.call c).bind _ = _
    rw [ht, Option.bind_some, hstatus, Option.map_some]

/-- A step that goes on and that the framing admits is one of the kind. -/
theorem StackAct.GoesOn.forCopy {act : StackAct CopyAct} {B : Backend CopyProc CopyAct} (hact : act.GoesOn)
    (hok : s.Admits ⟨false⟩ B act) : s.ForCopy B act := by
  rcases hact with hact | ⟨a, rfl⟩
  · cases act with
    | block act =>
      cases act with
      | queueRq | reportZones => exact absurd hact (by simp [StackAct.Serves])
      | _ => trivial
    | read c cuts => exact hok
    | _ => trivial
  · trivial

/-- **Without new requests a run comes to its end.** -/
theorem Stack.Copying.goesOn_length_le (hbuf : BuffersApart buffer) (h : s.Copying mover buffer disk)
    (ha : s.Agrees ⟨false⟩ (copyLibrary mover buffer)) (hw : s.Awake threads) (hid : s.kernel.nextRequestId < 2 ^ 64)
    {acts : List (StackAct CopyAct)} (hrun : Machine.Steps (Stack.step ⟨false⟩ (copyLibrary mover buffer))
      (fun s act => act.GoesOn ∧ s.ForCopy (copyLibrary mover buffer) act) s acts s') : acts.length ≤
        s.work threads := by
  refine hrun.length_le (I := fun s => s.Copying mover buffer disk ∧ s.Agrees ⟨false⟩ (copyLibrary mover buffer) ∧
    s.Awake threads ∧ s.kernel.nextRequestId < 2 ^ 64) ?_ ⟨h, ha, hw, hid⟩
  rintro s act s' ⟨hcopy, hagrees, hawake, hid⟩ ⟨hact, hok⟩ hs
  obtain ⟨hawake', hless, hnext⟩ := hcopy.work_lt hagrees hawake hact hok hs
  have hid' : s'.kernel.nextRequestId < 2 ^ 64 := by rw [hnext]; exact hid
  exact ⟨⟨(hcopy.step hagrees hbuf hok hs hid').1, hagrees.step copyLibrary_honest hok.admits hs, hawake',
    hid'⟩, hless⟩

end

/-! ## What a read has found -/

/-- The `i`-th byte of a read: the last write to its place before it in the history is that
    of a request that carries this byte for this place; or it is there from the beginning. -/
def Stack.FoundAt (disk : Nat → UInt8) (s : Stack CopyProc) (r : BiusRequest) (i : Nat) : Prop :=
  ∃ before v after, s.proc.log = before ++ ⟨r.id, r.pos.toNat + i, v, false⟩ :: after ∧
    (chainBytes r.rq)[i]? = some v ∧
    ((∃ q first later, s.Issued q ∧ q.type = .write ∧ q.pos.toNat ≤ r.pos.toNat + i ∧
        (chainBytes q.rq)[r.pos.toNat + i - q.pos.toNat]? = some v ∧
        before = first ++ ⟨q.id, r.pos.toNat + i, v, true⟩ :: later ∧
        ∀ x ∈ later, x.isWrite = true → x.reg ≠ r.pos.toNat + i) ∨
      (∀ x ∈ before, x.isWrite = true → x.reg ≠ r.pos.toNat + i) ∧ v = disk (r.pos.toNat + i))

section
variable {mover : Mover} {buffer : Nat → Nat} {disk : Nat → UInt8} {s : Stack CopyProc}

theorem Stack.Copying.outstanding (h : s.Copying mover buffer disk) (ha : s.Agrees ⟨false⟩ (copyLibrary mover buffer))
    (hcall : s.Calling) {p : Ptr} (hp : s.kernel.busy p = true) : ∃ bytes, (s.kernel.req p).Moved s.proc.log bytes := by
  rcases h.untouched p hp with hnone | ⟨c, point, hat, rfl | rfl⟩
  · exact ⟨[], hnone, Nat.zero_le _, fun _ => rfl, fun _ => rfl⟩
  · obtain ⟨t, ht⟩ := hcall c p hat
    obtain ⟨q, hq, hrun⟩ := h.running c t ht
    obtain rfl := ha.at_unique hq hat
    obtain ⟨bytes, hm, -⟩ := hrun.moved
    exact ⟨bytes, hm⟩
  · obtain ⟨bytes, hm, -⟩ := h.replying c p hat
    exact ⟨bytes, hm⟩

theorem Stack.Copying.moved (h : s.Copying mover buffer disk) (ha : s.Agrees ⟨false⟩ (copyLibrary mover buffer))
    (hcall : s.Calling) {r : BiusRequest} (hr : s.Issued r) : ∃ bytes, r.Moved s.proc.log bytes := by
  rcases hr with hr | ⟨p, hp, rfl⟩
  · obtain ⟨bytes, hm, -⟩ := h.ended r hr
    exact ⟨bytes, hm⟩
  · exact h.outstanding ha hcall hp

/-- **A read finds, byte by byte, what was last written there.** -/
theorem Stack.Copying.found (h : s.Copying mover buffer disk) (ha : s.Agrees ⟨false⟩ (copyLibrary mover buffer))
    (hcall : s.Calling) (hname : s.Named) {r : BiusRequest} (hr : r ∈ s.kernel.ended) (hread : r.type = .read)
    (hok : r.blkResult = blkStsOk) {i : Nat} (hi : i < r.length) : s.FoundAt disk r i := by
  obtain ⟨bytes, hm, hres⟩ := h.ended r hr
  obtain ⟨hwhole, hdata⟩ : bytes.length = r.length ∧ chainBytes r.rq = bytes := by
    rcases hres with ⟨-, hwhole, hdata⟩ | ⟨herr, -⟩
    · exact ⟨hwhole (by rw [hread]; decide), hdata hread⟩
    · rw [hok] at herr
      cases herr
  obtain ⟨v, hv⟩ : ∃ v, bytes[i]? = some v := ⟨_, List.getElem?_eq_getElem (by omega)⟩
  -- its entry
  have hentry : (⟨r.id, r.pos.toNat + i, v, false⟩ : Access Nat Nat UInt8) ∈ s.proc.log := by
    have hmem := Registers.mem_range (i := r.id) (w := r.type == .write) (a := r.pos.toNat) hv
    rw [← hm.trace, show (r.type == BiusReq.write) = false by rw [hread]; rfl] at hmem
    exact (Registers.mem_trace.1 hmem).1
  obtain ⟨before, after, hlog⟩ := List.append_of_mem hentry
  refine ⟨before, v, after, hlog, by rw [hdata]; exact hv, ?_⟩
  have hlegal := h.legal
  rw [hlog] at hlegal
  rcases hlegal.found rfl with ⟨first, w, later, rfl, hw, hreg, hval, hlast⟩ | hnone
  · refine Or.inl ?_
    -- who has written it
    have hwmem : w ∈ s.proc.log := by
      rw [hlog]
      simp
    obtain ⟨q, hq, hqw⟩ := hname w hwmem
    obtain ⟨written, hmq⟩ := h.moved ha hcall hq
    have hwrange : w ∈ Registers.range q.id (q.type == .write) q.pos.toNat written := by
      rw [← hmq.trace]
      exact Registers.mem_trace.2 ⟨hwmem, hqw.symm⟩
    obtain ⟨hkind, hlo, hget⟩ := Registers.range_get hwrange
    have htype : q.type = .write := by
      rw [hw] at hkind
      exact beq_iff_eq.1 hkind.symm
    dsimp only at hreg hval
    rw [hreg] at hlo hget
    rw [hval] at hget
    refine ⟨q, first, later, hq, htype, hlo, ?_, ?_, hlast⟩
    · rw [hmq.write htype, List.getElem?_take] at hget
      split at hget
      · exact hget
      · cases hget
    · congr 2
      cases w
      simp only [Access.mk.injEq]
      exact ⟨hqw.symm, hreg, hval, hw⟩
  · exact Or.inr hnone

end

/-! ## The runs -/

/-- A run over a backend that copies, as one of byte registers that any number of clients
    share. -/
structure Stack.Shares (mover : Mover) (B : Backend CopyProc CopyAct) (disk : Nat → UInt8) (asked : List Order)
    (s : Stack CopyProc) : Prop where
  /-- nothing else has been completed than what was asked for, nothing twice, and what has
      not is outstanding; each has an id of its own -/
  accounts : s.Accounts (fun o r => r.order = o) asked
  ids : (s.kernel.ended.map BiusRequest.id).Nodup ∧
    ∀ p, s.kernel.busy p = true → (s.kernel.req p).id ∉ s.kernel.ended.map BiusRequest.id ∧
      ∀ q, s.kernel.busy q = true → (s.kernel.req p).id = (s.kernel.req q).id → p = q
  /-- there is one history of the disk, and every read in it has found what is there -/
  legal : Legal disk s.proc.log
  holds : s.proc.disk = play disk s.proc.log
  /-- a completed request stands in it with its bytes, in order and each once: with all of
      them, or it has failed in a system call and stands there with the first of them -/
  completed : ∀ r ∈ s.kernel.ended, r.Copied mover s.proc.log
  /-- an outstanding one with its first bytes, and nobody else -/
  outstanding : ∀ p, s.kernel.busy p = true → ∃ bytes, (s.kernel.req p).Moved s.proc.log bytes
  named : s.Named
  /-- so each byte of a read is one that a request has carried for its place, or was there -/
  found : ∀ r ∈ s.kernel.ended, r.type = .read → r.blkResult = blkStsOk → ∀ i < r.length, s.FoundAt disk r i
  /-- what is completed before another is submitted comes first -/
  follows : ∀ acts s', Machine.Steps (Stack.step ⟨false⟩ B) (Stack.ForCopy B) s acts s' →
    s'.kernel.nextRequestId < 2 ^ 64 →
    s.Follows s' ∧ ∀ r, s'.Issued r → s.kernel.nextRequestId < r.id → trace r.id s.proc.log = []
  /-- a loop replies when its callback has returned, with the header that `makeReply` makes
      of a callback that returns this status -/
  replies : ∀ c s', s.step ⟨false⟩ B (.reply c) = some s' →
    ∃ t status, s.proc.call c = some t ∧ t.status = some status ∧
      ∀ (σ : Type) (ops : BiusOperations σ) (P : Process σ) (fuel : Nat) (u2k : U2k) (x : σ) (f : σ → σ × Nat),
        ops.callback (s.loop c).k2u = some f → (f x).2 = status →
          makeReply ops P fuel u2k (s.loop c).k2u x = some ((f x).1, (s'.loop c).u2k)
  /-- without new requests and connections it comes to its end -/
  ends : ∃ n, ∀ acts s', Machine.Steps (Stack.step ⟨false⟩ B) (fun s act => act.GoesOn ∧ s.ForCopy B act)
    s acts s' →
    acts.length ≤ n
  /-- and at its end nothing is outstanding, where there is a connection -/
  completes : (∃ c, (s.loop c).point ≠ .starting) →
    (∀ act : StackAct CopyAct, act.GoesOn → s.ForCopy B act → s.step ⟨false⟩ B act = none) →
      ∀ p, s.kernel.busy p = false

/-- A loop replies as `makeReply` does with a callback that returns the same status: nothing
    of such a command is in a list. -/
theorem Stack.Agrees.copy_replies {mover : Mover} {buffer : Nat → Nat} {s s' : Stack CopyProc}
    (ha : s.Agrees ⟨false⟩ (copyLibrary mover buffer)) {c : Nat}
    (hs : s.step ⟨false⟩ (copyLibrary mover buffer) (.reply c) = some s') :
    ∃ t status, s.proc.call c = some t ∧ t.status = some status ∧
      ∀ (σ : Type) (ops : BiusOperations σ) (P : Process σ) (fuel : Nat) (u2k : U2k) (x : σ) (f : σ → σ × Nat),
        ops.callback (s.loop c).k2u = some f → (f x).2 = status →
          makeReply ops P fuel u2k (s.loop c).k2u x = some ((f x).1, (s'.loop c).u2k) := by
  obtain ⟨p, hat, hleave⟩ := ha.reply_leaves hs
  obtain ⟨t, status, ht, hstatus, hres⟩ := copyLibrary_leave hleave
  refine ⟨t, status, ht, hstatus, fun σ ops P fuel u2k x f hf hsame => ?_⟩
  have hlist : (s.loop c).k2u.dataMapType ≠ .list := by
    rw [(ha.inHand hat).k2u (by simp)]
    unfold copyInHeader
    split <;> simp [k2uHeader]
  rw [makeReply_callback hlist hf, hsame, (Prod.mk.inj hres).2]

/-- **The disk of a copying backend is a row of byte registers**: in every run of the kernel
    module, any number of connections and the loops of the library, in which requests may
    overlap in any way, the `memcpy` of the ramdisk and the `pread` and `pwrite` of the
    passthrough example make one legal history that respects the order of the requests. -/
theorem disk_registers (mover : Mover) {buffer : Nat → Nat} (hbuf : BuffersApart buffer) {k2u : Nat → K2u}
    {u2k : Nat → U2k} {mem disk : Nat → UInt8} {acts : List (StackAct CopyAct)} {s : Stack CopyProc}
    (hrun : Machine.Steps (Stack.step ⟨false⟩ (copyLibrary mover buffer)) (Stack.ForCopy (copyLibrary mover buffer))
      (Stack.init k2u u2k ⟨mem, disk, fun _ => none, []⟩) acts s) (hid : s.kernel.nextRequestId < 2 ^ 64) :
    s.Shares mover (copyLibrary mover buffer) disk (orders acts) := by
  obtain ⟨⟨hcopy, hagrees, hnamed, haccounts⟩, -⟩ := Stack.Copying.run hbuf hrun (.init k2u u2k mem disk)
    (.init k2u u2k _) (fun a ha => (by cases ha)) (.init k2u u2k _) hid
  have hcalling := Stack.Calling.run hbuf hrun (.init k2u u2k mem disk) (.init k2u u2k _) (.init k2u u2k mem disk) hid
  have hreach : Machine.Reach (Stack.step ⟨false⟩ (copyLibrary mover buffer))
      (Stack.ForCopy (copyLibrary mover buffer)) (Stack.init k2u u2k ⟨mem, disk, fun _ => none, []⟩) s :=
        ⟨acts, hrun⟩
  obtain ⟨threads, hawake⟩ := Stack.reach_awake hreach
  refine ⟨haccounts, ⟨hcopy.nodup, fun p hp => ⟨fun hmem => ?_, fun q hq => hcopy.distinct p q hp hq⟩⟩,
    hcopy.legal, hcopy.disk, hcopy.ended, fun p hp => hcopy.outstanding hagrees hcalling hp, hnamed,
    fun r hr hread hok i hi => hcopy.found hagrees hcalling hnamed hr hread hok hi, fun more s' hmore hid' => ⟨?_, ?_⟩,
    fun c s' hs => hagrees.copy_replies hs, ⟨s.work threads,
      fun more s' hmore => hcopy.goesOn_length_le hbuf hagrees hawake hid hmore⟩, fun hconn hstuck p => ?_⟩
  · obtain ⟨r, hr, hrp⟩ := List.mem_map.1 hmem
    exact (hcopy.past r hr).2 p hp hrp.symm
  · exact (Stack.Copying.run hbuf hmore hcopy hagrees hnamed haccounts hid').2
  · intro r _ hlate
    apply Registers.trace_none
    intro a ha heq
    have hle := hcopy.logged a ha
    omega
  · obtain ⟨c, hc⟩ := hconn
    refine hagrees.quiescent (Stack.reach_blkCalls hreach) (Stack.reach_housed hreach) hcopy.isBlk
      (fun d hd => hcopy.leaves hagrees hcalling (fun a => hstuck _ (Or.inr ⟨a, rfl⟩) trivial) hd)
      (fun act hact hok => hstuck act (Or.inl hact) ?_) hc p
    exact StackAct.GoesOn.forCopy (Or.inl hact) hok

/-! ## Two writes to one place -/

instance (B : Backend CopyProc CopyAct) (s : Stack CopyProc) : (act : StackAct CopyAct) → Decidable (s.ForCopy B act)
  | .block (.queueRq _ _ rq) => inferInstanceAs (Decidable
      ((toBiusRequest rq.op = .read ∨ toBiusRequest rq.op = .write ∨ toBiusRequest rq.op = .flush) ∧
        rq.sector * sectorSize < 2 ^ 63 ∧
        (requestMayHaveData (toBiusRequest rq.op) = true → rq.dataLen ≤ biusMaxSizePerCommand)))
  | .block (.reportZones _ _ _ _ _) => instDecidableFalse
  | .read c cuts => inferInstanceAs (Decidable
      (∀ s' ∈ s.step ⟨false⟩ B (.read c cuts), s'.kernel.call (.user c) ≠ .done (.payload [])))
  | .block (.attach _) | .block (.mmap _ _) | .block (.insert _) | .block (.zonesWake _ _ _) | .block (.ret _)
  | .block (.readStart _ _ _ _) | .block (.readTake _) | .block (.readInterrupt _ _) | .block (.readSend _ _)
  | .block (.writeStart _ _ _ _ _) | .block (.writeEnd _ _) | .attach _ | .mmap _ _ | .take _ | .send _ | .readReturn _
  | .reply _ | .write _ | .writeEnd _ | .writeReturn _ | .process _ => instDecidableTrue

/-- Four bytes at the beginning of the disk. -/
def fourBytes (op page : Nat) (b : UInt8) : Rq :=
  ⟨op, 0, 4, [⟨[⟨page, 0, [b, b, b, b], by simp⟩]⟩], fun _ => rfl⟩

/-- The commands of two writes are with their loops. -/
def writesInHand : List (StackAct CopyAct) :=
  [.attach 0, .mmap 0 0, .attach 1, .mmap 1 0,
   .block (.queueRq (.blk 0) 5 (fourBytes 1 16 11)), .block (.insert (.blk 0)), .block (.ret (.blk 0)),
   .block (.queueRq (.blk 0) 6 (fourBytes 1 17 22)), .block (.insert (.blk 0)), .block (.ret (.blk 0)),
   .read 0 [], .take 0, .send 0, .readReturn 0, .read 0 [], .readReturn 0,
   .read 1 [], .take 1, .send 1, .readReturn 1, .read 1 [], .readReturn 1]

/-- The second `pwrite` takes place within the first, which is short. -/
def writesCrossing : List (StackAct CopyAct) :=
  [.process (.piece 0 1), .process (.piece 1 4), .process (.piece 0 1), .process (.ret 0), .process (.piece 0 2),
   .process (.ret 0), .process (.ret 1),
   .reply 0, .write 0, .writeEnd 0, .writeReturn 0, .reply 1, .write 1, .writeEnd 1, .writeReturn 1]

/-- A read in two calls, and one that fails. -/
def readsAfter : List (StackAct CopyAct) :=
  [.block (.queueRq (.blk 0) 5 (fourBytes 0 18 99)), .block (.insert (.blk 0)), .block (.ret (.blk 0)),
   .read 0 [], .take 0, .send 0, .readReturn 0,
   .process (.piece 0 3), .process (.ret 0), .process (.piece 0 1), .process (.ret 0),
   .reply 0, .write 0, .writeEnd 0, .writeReturn 0,
   .block (.queueRq (.blk 0) 6 (fourBytes 0 19 99)), .block (.insert (.blk 0)), .block (.ret (.blk 0)),
   .read 1 [], .take 1, .send 1, .readReturn 1, .process (.piece 1 1), .process (.fail 1),
   .reply 1, .write 1, .writeEnd 1, .writeReturn 1]

/-- The state after all of them, with every step checked. -/
def overlapping : Option (Stack CopyProc) :=
  Machine.runOk (Stack.step ⟨false⟩ (copyLibrary .syscalls rowOfBuffers))
    (Stack.ForCopy (copyLibrary .syscalls rowOfBuffers))
    (Stack.init (fun _ => ⟨0, .read, 0, 0, 0, 0, .unmapped⟩) (fun _ => ⟨0, 0, 0⟩) ⟨fun _ => 0, fun _ => 0,
    fun _ => none, []⟩)
    (writesInHand ++ writesCrossing ++ readsAfter)

theorem overlapping_isSome : overlapping.isSome = true := by decide +kernel

theorem overlapping_ended : (overlapping.get overlapping_isSome).kernel.ended.map
    (fun r => (r.id, r.blkResult, chainBytes r.rq)) =
    [(1, 0, [11, 11, 11, 11]), (2, 0, [22, 22, 22, 22]), (3, 0, [22, 11, 11, 11]), (4, 10, [99, 99, 99, 99])] := by
  decide +kernel

theorem disk_registers_overlapping : ∃ s : Stack CopyProc,
    Machine.Steps (Stack.step ⟨false⟩ (copyLibrary .syscalls rowOfBuffers))
      (Stack.ForCopy (copyLibrary .syscalls rowOfBuffers))
      (Stack.init (fun _ => ⟨0, .read, 0, 0, 0, 0, .unmapped⟩) (fun _ => ⟨0, 0, 0⟩)
      ⟨fun _ => 0, fun _ => 0, fun _ => none, []⟩)
      (writesInHand ++ writesCrossing ++ readsAfter) s ∧
    s.kernel.ended.map (fun r => (r.id, r.blkResult, chainBytes r.rq)) =
      [(1, 0, [11, 11, 11, 11]), (2, 0, [22, 22, 22, 22]), (3, 0, [22, 11, 11, 11]), (4, 10, [99, 99, 99, 99])] ∧
    s.Shares .syscalls (copyLibrary .syscalls rowOfBuffers) (fun _ => 0)
      (orders (writesInHand ++ writesCrossing ++ readsAfter)) := by
  have hsteps := Machine.Steps.of_runOk (Option.some_get overlapping_isSome).symm
  exact ⟨_, hsteps, overlapping_ended, disk_registers .syscalls rowOfBuffers_apart hsteps (by decide +kernel)⟩

end Bius
