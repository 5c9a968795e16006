import Bius.Lib.Sums
import Bius.ExactlyOnce
import Bius.StackTurns

/- Nothing gets stuck, and nothing goes on for ever (default build). A request that has
   been submitted has a bounded way to go: the thread that submits it puts it into the
   list, a loop takes it, copies its payload in, has it handled, and replies. `Stack.load`
   counts the steps that are left. Every step other than a submission and the arrival of a
   connection makes it smaller (`Agrees.served`), so without new requests a run comes to its
   end. And where none of these steps is enabled, every loop waits for a request and there
   is none (`Agrees.quiescent`). -/
namespace Bius

/-! ## What is left to do -/

/-- The steps that are left until a request that has just been taken is answered, at most. -/
def takenSteps : Nat := 9 + 2 * biusMaxSizePerCommand

/-- The steps that a loop has before it waits for its next command. -/
def Point.steps : Point → Call → Nat
  | .mapping, _ => 2
  | .reading, .idle => 1
  | .reading, .readTaken _ _ => takenSteps
  | .reading, .done _ => takenSteps - 1
  | .copyIn n, .idle => 7 + 2 * (biusMaxSizePerCommand - n)
  | .copyIn n, _ => 6 + 2 * (biusMaxSizePerCommand - n)
  | .handling, _ => 5
  | .writing, .idle => 4
  | .writing, .replied _ _ _ _ => 3
  | .writing, _ => 2
  | _, _ => 0

/-- The steps that a thread of the block layer has, those of its request included. -/
def Call.steps : Call → Nat
  | .queueing _ => takenSteps + 3
  | .done _ => 1
  | _ => 0

section
variable {β : Type}

def Stack.steps (s : Stack β) : Tid → Nat
  | .user c => (s.loop c).point.steps (s.kernel.call (.user c))
  | .blk t => (s.kernel.call (.blk t)).steps

/-- A thread that has not begun, or has nothing to do. -/
def Stack.Asleep (s : Stack β) : Tid → Prop
  | .user c => (s.loop c).point = .starting
  | .blk t => s.kernel.call (.blk t) = .idle

/-- What is left to do, where nobody but `threads` is awake. -/
def Stack.load (threads : List Tid) (s : Stack β) : Nat :=
  (threads.map s.steps).sum + (takenSteps + 1) * s.kernel.pending.length

/-- Nobody else is awake. -/
structure Stack.Awake (threads : List Tid) (s : Stack β) : Prop where
  nodup : threads.Nodup
  others : ∀ t, t ∉ threads → s.Asleep t

/-- A step of thread `t`, after which it has less to do. -/
structure Stack.Served (s s' : Stack β) (t : Tid) : Prop where
  awake : ¬ s.Asleep t
  others : ∀ u, u ≠ t → (s.Asleep u → s'.Asleep u) ∧ s'.steps u = s.steps u
  less : s'.steps t + (takenSteps + 1) * s'.kernel.pending.length <
    s.steps t + (takenSteps + 1) * s.kernel.pending.length

theorem Stack.Served.load_lt {s s' : Stack β} {t : Tid} (h : s.Served s' t) {threads : List Tid} (hw : s.Awake threads) :
    s'.Awake threads ∧ s'.load threads < s.load threads := by
  have ht : t ∈ threads := by
    by_contra hnot
    exact h.awake (hw.others t hnot)
  refine ⟨⟨hw.nodup, fun u hu => ?_⟩, ?_⟩
  · have hne : u ≠ t := fun he => hu (he ▸ ht)
    exact (h.others u hne).1 (hw.others u hu)
  · have hsum := Sums.change hw.nodup ht (fun u hu => (h.others u hu).2)
    have hless := h.less
    unfold Stack.load
    omega

end

/-! ## Every step of service makes it less -/

section
variable {β α : Type}

/-- The steps that neither submit a request nor bring a connection. -/
def StackAct.Serves : StackAct α → Prop
  | .attach _ | .process _ => False
  | .block (.queueRq _ _ _) | .block (.reportZones _ _ _ _ _) => False
  | _ => True

variable {B : Backend β α} {s s' : Stack β}

theorem Stack.served_of {act : Act} {t : Tid} (hst : Bius.step ⟨false⟩ s.kernel act = some s'.kernel)
    (htid : ∀ u, act.tid = some u → u = t) (hloop : ∀ d, .user d ≠ t → s'.loop d = s.loop d)
    (hawake : ¬ s.Asleep t) (hless : s'.steps t + (takenSteps + 1) * s'.kernel.pending.length <
      s.steps t + (takenSteps + 1) * s.kernel.pending.length) : s.Served s' t := by
  refine ⟨hawake, fun u hu => ?_, hless⟩
  have hcall : s'.kernel.call u = s.kernel.call u := step_call hst (fun he => hu (htid u he))
  cases u with
  | user d =>
    have hl := hloop d hu
    exact ⟨fun h => by show (s'.loop d).point = _; rw [hl]; exact h, by simp only [Stack.steps, hl, hcall]⟩
  | blk n => exact ⟨fun h => by show s'.kernel.call _ = _; rw [hcall]; exact h, by simp only [Stack.steps, hcall]⟩

theorem Stack.served_loop {act : Act} {c : Nat} (hst : Bius.step ⟨false⟩ s.kernel act = some s'.kernel)
    (htid : ∀ u, act.tid = some u → u = .user c) (hloop : ∀ d, d ≠ c → s'.loop d = s.loop d)
    (hpend : s'.kernel.pending = s.kernel.pending) (hpt : (s.loop c).point ≠ .starting)
    (hless : (s'.loop c).point.steps (s'.kernel.call (.user c)) < (s.loop c).point.steps (s.kernel.call (.user c))) :
    s.Served s' (.user c) := by
  apply Stack.served_of hst htid (fun d hd => hloop d (fun he => hd (by rw [he]))) hpt
  rw [hpend]
  exact Nat.add_lt_add_right hless _

theorem Stack.Agrees.served_block (h : s.Agrees ⟨false⟩ B)
    (hblk : ∀ p, s.kernel.busy p = true → isBlkRequest (s.kernel.req p).type = true) {act : Act}
    (hof : act.ofBlockLayer = true) (hact : StackAct.Serves (α := α) (.block act))
    (hs : s.kernelStep ⟨false⟩ act = some s') : ∃ t, s.Served s' t := by
  obtain ⟨hst, hloop, -⟩ := Stack.kernelStep_some hs
  have hloops : ∀ t d, Tid.user d ≠ t → s'.loop d = s.loop d := fun t d _ => by rw [hloop]
  generalize hk : s'.kernel = k at hst
  cases step_cases hst with
  | queueRq | reportZones => exact absurd hact (by simp [StackAct.Serves])
  | insert t p ht =>
    cases t with
    | user c => cases hof
    | blk n =>
      refine ⟨.blk n, Stack.served_of (by rw [hk]; exact hst) (fun u hu => by cases hu; rfl) (hloops _)
        (by simp [Stack.Asleep, ht]) ?_⟩
      have hcall : (s'.kernel.call (.blk n)).steps ≤ 1 := by
        rw [hk]
        simp only [Kernel.insert_call, Function.update_self]
        split <;> simp [Call.steps]
      have hpend : s'.kernel.pending.length = s.kernel.pending.length + 1 := by
        rw [hk]
        simp
      simp only [Stack.steps, ht, hpend, Call.steps] at hcall ⊢
      rw [Nat.mul_succ]
      omega
  | zonesWake t p junk cb ht hsem =>
    -- nobody waits for zones
    obtain ⟨loc, hl⟩ := h.placed.located
    have hwaits := hl.waits t p (by simp [Kernel.life, ht, Call.hold])
    have hbusy : s.kernel.busy p = true := (hl.busy p).2 hwaits.2.1
    have hzones : isBlkRequest (s.kernel.req p).type = false := hwaits.1
    rw [hblk p hbusy] at hzones
    cases hzones
  | ret t r ht =>
    cases t with
    | user c => cases hof
    | blk n =>
      refine ⟨.blk n, Stack.served_of (by rw [hk]; exact hst) (fun u hu => by cases hu; rfl) (hloops _)
        (by simp [Stack.Asleep, ht]) ?_⟩
      have hcall : s'.kernel.call (.blk n) = .idle := by
        rw [hk]
        simp
      have hpend : s'.kernel.pending = s.kernel.pending := by
        rw [hk]
        rfl
      simp only [Stack.steps, ht, hcall, hpend, Call.steps]
      omega
  | _ => cases hof

theorem Stack.Agrees.served_read (h : s.Agrees ⟨false⟩ B) {c : Nat} {cuts : List Nat}
    (hs : s.step ⟨false⟩ B (.read c cuts) = some s') : ∃ t, s.Served s' t := by
  have hf := h.framed c
  unfold Stack.FramedAt at hf
  simp only [Stack.step] at hs
  split at hs
  · next hpt =>
    obtain ⟨hst, hloop, -⟩ := Stack.kernelStep_some hs
    generalize hk : s'.kernel = k at hst
    cases step_cases hst with
    | readStart t c size cuts ht hread =>
      rw [hpt, ht] at hf
      cases hf with
      | reading hr hw hse =>
        have hcall : s'.kernel.call (.user c) = .readWait c := by
          rw [Kernel.readStart, hr.attached, hse] at hread
          simp only [Bool.not_true, Bool.false_eq_true, if_false, Nat.lt_irrefl, Option.some.injEq] at hread
          rw [hk, ← hread]
          simp
        refine ⟨.user c, Stack.served_loop (by rw [hk]; exact hst) (fun u hu => by cases hu; rfl)
          (fun d _ => by rw [hloop]) (by rw [hk]; exact (readStart_keeps hread).2.2.1) (by rw [hpt]; simp) ?_⟩
        rw [hloop, hpt, hcall, ht]
        exact Nat.zero_lt_one
  · next n hpt =>
    obtain ⟨hst, hloop, -⟩ := Stack.kernelStep_some hs
    generalize hk : s'.kernel = k at hst
    cases step_cases hst with
    | readStart t c size cuts ht hread =>
      rw [hpt, ht] at hf
      cases hf with
      | copyIn p r n hp hr hw hse ho hst' hn hsent hk2u =>
        subst hp
        obtain ⟨k', bytes, hread', hcall⟩ := readStart_payload (t := .user c) hr.attached hse ho hst' hsent
          ((s.loop c).k2u.length - n) cuts
        rw [hread] at hread'
        cases hread'
        refine ⟨.user c, Stack.served_loop (by rw [hk]; exact hst) (fun u hu => by cases hu; rfl)
          (fun d _ => by rw [hloop]) (by rw [hk]; exact (readStart_keeps hread).2.2.1) (by rw [hpt]; simp) ?_⟩
        rw [hloop, hpt, hk, hcall, ht]
        simp only [Point.steps]
        omega
  · cases hs

theorem Stack.Agrees.served_readReturn (h : s.Agrees ⟨false⟩ B) {c : Nat}
    (hs : s.step ⟨false⟩ B (.readReturn c) = some s') : ∃ t, s.Served s' t := by
  have hf := h.framed c
  unfold Stack.FramedAt at hf
  simp only [Stack.step] at hs
  split at hs
  · cases hs
  · next r hcall hpt =>
    obtain ⟨hst, hloop, -⟩ := Stack.loopStep_some hs
    have hloops : ∀ d, d ≠ c → s'.loop d = s.loop d := fun d hd => by rw [hloop, Function.update_of_ne hd]
    have hloopc : s'.loop c = ((s.loop c).readReturned B c r s.proc).1 := by rw [hloop, Function.update_self]
    have hidle : s'.kernel.call (.user c) = .idle ∧ s'.kernel.pending = s.kernel.pending := by
      generalize s'.kernel = k at hst
      cases step_cases hst with
      | ret t r' hr => exact ⟨by simp, rfl⟩
    rw [hcall] at hf
    generalize hp : (s.loop c).point = point at hf hpt
    have hserved : point ≠ .starting → (s'.loop c).point.steps .idle < point.steps (.done r) →
        ∃ t, s.Served s' t := by
      intro hnot hless
      refine ⟨.user c, Stack.served_loop hst (fun u hu => by cases hu; rfl) hloops hidle.2 (by rw [hp]; exact hnot) ?_⟩
      rw [hp, hcall, hidle.1]
      exact hless
    cases hf with
    | header p q hq hr hw hse ho hst' =>
      apply hserved (by simp)
      rw [hloopc]
      simp only [Loop.readReturned, hp, Nat.lt_irrefl, if_false, Loop.command, Loop.copyInFrom, Loop.handle]
      split
      · split
        · simp only [Point.steps, takenSteps]
          omega
        · simp only [Point.steps, takenSteps]
          omega
      · simp only [Point.steps, takenSteps]
        omega
    | chunk p q n bytes hq hr hw hse ho hst' hsent hpos hb hk =>
      apply hserved (by simp)
      rw [hloopc]
      have hle : n + bytes.length ≤ biusMaxSizePerCommand := by
        have hle := hsent.le
        have hmax := (ho.data (requestMayHaveData_of_isWrite (BiusRequest.streams_iff.1 hst').1)).2
        omega
      simp only [Loop.readReturned, hp, Nat.ne_of_gt hpos, if_false, Loop.copyInFrom, Loop.handle]
      split
      · simp only [Point.steps]
        omega
      · simp only [Point.steps]
        omega
    | written => exact absurd rfl hpt
  · cases hs

theorem Stack.Agrees.served_take (h : s.Agrees ⟨false⟩ B) {c : Nat}
    (hs : s.step ⟨false⟩ B (.take c) = some s') : ∃ t, s.Served s' t := by
  obtain ⟨hst, hloop, -⟩ := Stack.kernelStep_some hs
  generalize hk : s'.kernel = k at hst
  cases step_cases hst with
  | readTake t d p ps ht hps hread =>
    have hpt : (s.loop c).point = .reading := h.reading_of (Or.inl ht)
    obtain ⟨-, -, hpend, hcall⟩ := prepare_keeps hread
    have hcall' : s'.kernel.call (.user c) = .readTaken d p := by
      rw [hk, hcall]
      exact Function.update_self _ _ _
    have hpend' : s.kernel.pending.length = s'.kernel.pending.length + 1 := by
      rw [hk, hpend, hps]
      rfl
    refine ⟨.user c, Stack.served_of (by rw [hk]; exact hst) (fun u hu => by cases hu; rfl) (fun d _ => by rw [hloop])
      (by simp [Stack.Asleep, hpt]) ?_⟩
    simp only [Stack.steps, hloop, hpt, hcall', ht, hpend', Point.steps]
    rw [Nat.mul_succ]
    omega

theorem Stack.Agrees.served_send (h : s.Agrees ⟨false⟩ B) {c : Nat}
    (hs : s.step ⟨false⟩ B (.send c) = some s') : ∃ t, s.Served s' t := by
  obtain ⟨hst, hloop, -⟩ := Stack.kernelStep_some hs
  generalize hk : s'.kernel = k at hst
  cases step_cases hst with
  | readSend t d p n ht =>
    have hpt : (s.loop c).point = .reading := h.reading_of (Or.inr ⟨p, ht⟩)
    have hsend : s.kernel.readSend ⟨false⟩ (.user c) d p sizeofK2u = s'.kernel := hk.symm
    rw [Kernel.readSend, if_neg (by decide)] at hsend
    obtain ⟨r, hcall⟩ : ∃ r, s'.kernel.call (.user c) = .done r := by
      rw [← hsend]
      exact ⟨_, Function.update_self _ _ _⟩
    refine ⟨.user c, Stack.served_loop (by rw [hk]; exact hst) (fun u hu => by cases hu; rfl) (fun d _ => by rw [hloop])
      (by rw [← hsend]; rfl) (by rw [hpt]; simp) ?_⟩
    rw [hloop, hpt, hcall, ht]
    simp only [Point.steps, takenSteps]
    omega

theorem Stack.Agrees.served_reply (h : s.Agrees ⟨false⟩ B) {c : Nat}
    (hs : s.step ⟨false⟩ B (.reply c) = some s') : ∃ t, s.Served s' t := by
  simp only [Stack.step] at hs
  split at hs
  · next hpt =>
    rw [Option.map_eq_some_iff] at hs
    obtain ⟨res, -, rfl⟩ := hs
    have hf := h.framed c
    unfold Stack.FramedAt at hf
    rw [hpt] at hf
    generalize hcall : s.kernel.call (.user c) = call at hf
    cases hf with
    | handling p r hp hr hw hse ho hk =>
      refine ⟨.user c, ⟨by simp [Stack.Asleep, hpt], fun u hu => ?_, ?_⟩⟩
      · cases u with
        | user d =>
          have hd : d ≠ c := fun he => hu (by rw [he])
          simp only [Stack.Asleep, Stack.steps, Function.update_of_ne hd]
          exact ⟨fun hsleep => hsleep, trivial⟩
        | blk n => exact ⟨fun hsleep => hsleep, rfl⟩
      · simp only [Stack.steps, Function.update_self, hcall, hpt, Point.steps]
        omega
  · cases hs

theorem Stack.Agrees.served_write (h : s.Agrees ⟨false⟩ B) {c : Nat}
    (hs : s.step ⟨false⟩ B (.write c) = some s') : ∃ t, s.Served s' t := by
  have hf := h.framed c
  unfold Stack.FramedAt at hf
  simp only [Stack.step] at hs
  split at hs
  · next hpt =>
    obtain ⟨hst, hloop, -⟩ := Stack.kernelStep_some hs
    generalize hk : s'.kernel = k at hst
    cases step_cases hst with
    | writeStart t d size n header ht hatt =>
      rw [hpt, ht] at hf
      cases hf with
      | replying p r hp hr hw hse ho ha =>
        have hfind : s.kernel.getRequestById (s.kernel.conn c).waiting (s.loop c).u2k.id = some p := by
          simp [Kernel.getRequestById, hw, hp, ha.id]
        have hcall : s'.kernel.call (.user c) = .replied c p (s.loop c).u2k sizeofU2k := by
          rw [hk, Kernel.writeStart, if_neg (Nat.lt_irrefl _), if_neg (by decide), hfind]
          simp
        refine ⟨.user c, Stack.served_loop (by rw [hk]; exact hst) (fun u hu => by cases hu; rfl)
          (fun d _ => by rw [hloop]) (by rw [hk]; exact (writeStart_keeps _ _ _ _ _ _).2.2.1) (by rw [hpt]; simp) ?_⟩
        rw [hloop, hpt, hcall, ht]
        simp only [Point.steps]
        omega
  · cases hs

theorem Stack.Agrees.served_writeEnd (h : s.Agrees ⟨false⟩ B)
    (hmem : ∀ b c, Readable (B.umem b) (B.buffer c) (dataCopyBufferSize ⟨false⟩)) {c : Nat}
    (hs : s.step ⟨false⟩ B (.writeEnd c) = some s') : ∃ t, s.Served s' t := by
  have hf := h.framed c
  unfold Stack.FramedAt at hf
  obtain ⟨hst, hloop, -⟩ := Stack.kernelStep_some hs
  generalize hk : s'.kernel = k at hst
  cases step_cases hst with
  | writeEnd t d p header n umem ht hwrite =>
    rw [ht] at hf
    generalize hpt : (s.loop c).point = point at hf
    cases hf with
    | replied _ r hp hr hw hse ho ha =>
      have hread : (s.kernel.req p).type = .read →
          ¬ (biusReceiveData (s.kernel.req p) (B.umem s.proc) (s.loop c).u2k.userData).2 < 0 := by
        intro htype
        rw [hp] at htype ⊢
        exact ho.received ha htype (by simp [BiusRequest.isMapped]) (hmem s.proc c)
      have hcall := (writeEnd_returns hwrite (fun htype _ => hread htype)).1
      refine ⟨.user c, Stack.served_loop (by rw [hk]; exact hst) (fun u hu => by cases hu; rfl)
        (fun d _ => by rw [hloop]) (by rw [hk]; exact (writeEnd_endsOnly hwrite).pending) (by rw [hpt]; simp) ?_⟩
      rw [hloop, hpt, hk, hcall, ht]
      simp only [Point.steps]
      omega

theorem Stack.Agrees.served_writeReturn (h : s.Agrees ⟨false⟩ B) {c : Nat}
    (hs : s.step ⟨false⟩ B (.writeReturn c) = some s') : ∃ t, s.Served s' t := by
  have hf := h.framed c
  unfold Stack.FramedAt at hf
  simp only [Stack.step] at hs
  split at hs
  · next r hpt hcall =>
    obtain ⟨hst, hloop, -⟩ := Stack.loopStep_some hs
    rw [hpt, hcall] at hf
    cases hf with
    | written hr hw hse =>
      have hloopc : (s'.loop c).point = .reading := by
        rw [hloop, Function.update_self]
        simp only [Loop.writeReturned]
        rw [if_neg (by simp)]
      have hidle : s'.kernel.call (.user c) = .idle ∧ s'.kernel.pending = s.kernel.pending := by
        generalize s'.kernel = k at hst
        cases step_cases hst with
        | ret t r' hr => exact ⟨by simp, rfl⟩
      refine ⟨.user c, Stack.served_loop hst (fun u hu => by cases hu; rfl)
        (fun d hd => by rw [hloop, Function.update_of_ne hd]) hidle.2 (by rw [hpt]; simp) ?_⟩
      rw [hloopc, hpt, hidle.1, hcall]
      simp only [Point.steps]
      omega
  · cases hs

/-- **Every step of service leaves less to do.** -/
theorem Stack.Agrees.served (h : s.Agrees ⟨false⟩ B)
    (hblk : ∀ p, s.kernel.busy p = true → isBlkRequest (s.kernel.req p).type = true)
    (hmem : ∀ b c, Readable (B.umem b) (B.buffer c) (dataCopyBufferSize ⟨false⟩)) {act : StackAct α}
    (hact : act.Serves) (hs : s.step ⟨false⟩ B act = some s') : ∃ t, s.Served s' t := by
  cases act with
  | attach | process => exact absurd hact (by simp [StackAct.Serves])
  | mmap c vmStart =>
    simp only [Stack.step] at hs
    split at hs
    · next hpt =>
      simp only [Bool.false_eq_true, if_false, Option.some.injEq] at hs
      subst hs
      have hf := h.framed c
      unfold Stack.FramedAt at hf
      rw [hpt] at hf
      generalize hcall : s.kernel.call (.user c) = call at hf
      cases hf with
      | mapping ha hw hse =>
        refine ⟨.user c, ⟨by simp [Stack.Asleep, hpt], fun u hu => ?_, ?_⟩⟩
        · cases u with
          | user d =>
            have hd : d ≠ c := fun he => hu (by rw [he])
            simp only [Stack.Asleep, Stack.steps, Function.update_of_ne hd]
            exact ⟨fun hsleep => hsleep, trivial⟩
          | blk n => exact ⟨fun hsleep => hsleep, rfl⟩
        · simp only [Stack.steps, Function.update_self, hcall, hpt, Point.steps]
          omega
    · cases hs
  | block act =>
    simp only [Stack.step] at hs
    split at hs
    · next hof => exact h.served_block hblk hof hact hs
    · cases hs
  | read c cuts => exact h.served_read hs
  | take c => exact h.served_take hs
  | send c => exact h.served_send hs
  | readReturn c => exact h.served_readReturn hs
  | reply c => exact h.served_reply hs
  | write c => exact h.served_write hs
  | writeEnd c => exact h.served_writeEnd hmem hs
  | writeReturn c => exact h.served_writeReturn hs

/-! ## Who moves -/

/-- A step is one of thread `t`: a step of the kernel module or none, after which one loop
    at most has moved. -/
structure Stack.MovedBy (cfg : Config) (s s' : Stack β) (t : Tid) : Prop where
  loops : ∀ d, .user d ≠ t → s'.loop d = s.loop d
  kernel : s'.kernel = s.kernel ∨ ∃ act, Bius.step cfg s.kernel act = some s'.kernel ∧
    (∀ u, act.tid = some u → u = t) ∧
    (act.ofBlockLayer = true ∨ ∀ n, act.tid ≠ some (.blk n))

section
variable {cfg : Config}

theorem Stack.movedBy_kernelStep {act : Act} {t : Tid} (hs : s.kernelStep cfg act = some s')
    (htid : ∀ u, act.tid = some u → u = t) (hof : act.ofBlockLayer = true ∨ ∀ n, act.tid ≠ some (.blk n)) :
    s.MovedBy cfg s' t := by
  unfold Stack.kernelStep at hs
  rw [Option.map_eq_some_iff] at hs
  obtain ⟨k, hk, rfl⟩ := hs
  exact ⟨fun _ _ => rfl, Or.inr ⟨act, hk, htid, hof⟩⟩

theorem Stack.movedBy_call {act : Act} {c : Nat} (hs : s.kernelStep cfg act = some s') (htid : act.tid = some (.user c)) :
    s.MovedBy cfg s' (.user c) := by
  refine Stack.movedBy_kernelStep hs (fun u hu => ?_) (Or.inr (fun n hn => ?_))
  · rw [htid] at hu
    exact (Option.some.inj hu).symm
  · rw [htid] at hn
    cases hn

theorem Stack.movedBy_loopStep {act : Act} {c : Nat} {l : Loop × β} (hs : s.loopStep cfg act c l = some s')
    (htid : ∀ u, act.tid = some u → u = .user c) : s.MovedBy cfg s' (.user c) := by
  unfold Stack.loopStep at hs
  rw [Option.map_eq_some_iff] at hs
  obtain ⟨k, hk, rfl⟩ := hs
  refine ⟨fun d hd => Function.update_of_ne (fun he => hd (by rw [he])) _ _,
    Or.inr ⟨act, hk, htid, Or.inr (fun n hn => ?_)⟩⟩
  cases htid _ hn

theorem Stack.movedBy_loop {c : Nat} (l : Loop) (b : β) :
    s.MovedBy cfg ⟨s.kernel, Function.update s.loop c l, b⟩ (.user c) :=
  ⟨fun _ hd => Function.update_of_ne (fun he => hd (by rw [he])) _ _, Or.inl rfl⟩

theorem Stack.step_movedBy {act : StackAct α} (hs : s.step cfg B act = some s') : ∃ t, s.MovedBy cfg s' t := by
  cases act with
  | attach c =>
    simp only [Stack.step] at hs
    split at hs
    · exact ⟨.user c, Stack.movedBy_loopStep hs (fun u hu => by cases hu)⟩
    · cases hs
  | mmap c vmStart =>
    simp only [Stack.step] at hs
    split at hs
    · split at hs
      · exact ⟨.user c, Stack.movedBy_loopStep hs (fun u hu => by cases hu)⟩
      · cases hs
        exact ⟨.user c, Stack.movedBy_loop _ _⟩
    · cases hs
  | block act =>
    simp only [Stack.step] at hs
    split at hs
    · next hof =>
      refine ⟨act.tid.getD (.user 0), Stack.movedBy_kernelStep hs (fun u hu => ?_) (Or.inl hof)⟩
      rw [hu]
      rfl
    · cases hs
  | read c cuts =>
    simp only [Stack.step] at hs
    split at hs
    · exact ⟨.user c, Stack.movedBy_call hs rfl⟩
    · exact ⟨.user c, Stack.movedBy_call hs rfl⟩
    · cases hs
  | take c => exact ⟨.user c, Stack.movedBy_call hs rfl⟩
  | send c => exact ⟨.user c, Stack.movedBy_call hs rfl⟩
  | readReturn c =>
    simp only [Stack.step] at hs
    split at hs
    · cases hs
    · exact ⟨.user c, Stack.movedBy_loopStep hs (fun u hu => by cases hu; rfl)⟩
    · cases hs
  | reply c =>
    simp only [Stack.step] at hs
    split at hs
    · rw [Option.map_eq_some_iff] at hs
      obtain ⟨res, -, rfl⟩ := hs
      exact ⟨.user c, Stack.movedBy_loop _ _⟩
    · cases hs
  | write c =>
    simp only [Stack.step] at hs
    split at hs
    · exact ⟨.user c, Stack.movedBy_call hs rfl⟩
    · cases hs
  | writeEnd c => exact ⟨.user c, Stack.movedBy_call hs rfl⟩
  | writeReturn c =>
    simp only [Stack.step] at hs
    split at hs
    · exact ⟨.user c, Stack.movedBy_loopStep hs (fun u hu => by cases hu; rfl)⟩
    · cases hs
  | process a =>
    simp only [Stack.step] at hs
    rw [Option.map_eq_some_iff] at hs
    obtain ⟨b, -, rfl⟩ := hs
    exact ⟨.user 0, ⟨fun _ _ => rfl, Or.inl rfl⟩⟩

theorem Stack.MovedBy.call {t : Tid} (h : s.MovedBy cfg s' t) {u : Tid} (hu : u ≠ t) :
    s'.kernel.call u = s.kernel.call u := by
  rcases h.kernel with hk | ⟨act, hst, htid, -⟩
  · rw [hk]
  · exact step_call hst (fun he => hu (htid u he))

theorem Stack.MovedBy.asleep {t : Tid} (h : s.MovedBy cfg s' t) {u : Tid} (hu : u ≠ t) (hsleep : s.Asleep u) :
    s'.Asleep u := by
  cases u with
  | user d =>
    show (s'.loop d).point = .starting
    rw [h.loops d hu]
    exact hsleep
  | blk n => exact (h.call hu).trans hsleep

theorem Stack.reach_awake {ok : Stack β → StackAct α → Prop} {k2u : Nat → K2u} {u2k : Nat → U2k} {b : β}
    (h : Machine.Reach (Stack.step cfg B) ok (Stack.init k2u u2k b) s) : ∃ threads, s.Awake threads := by
  refine h.inv (I := fun s => ∃ threads, s.Awake threads) ?_ ?_
  rotate_left
  · refine ⟨[], List.nodup_nil, fun t _ => ?_⟩
    cases t <;> rfl
  · intro s act s' hi _ hs
    obtain ⟨threads, hnodup, hothers⟩ := hi
    obtain ⟨t, ht⟩ := Stack.step_movedBy hs
    by_cases hmem : t ∈ threads
    · refine ⟨threads, hnodup, fun u hu => ?_⟩
      have hne : u ≠ t := fun he => hu (he ▸ hmem)
      exact ht.asleep hne (hothers u hu)
    · refine ⟨t :: threads, List.nodup_cons.2 ⟨hmem, hnodup⟩, fun u hu => ?_⟩
      rw [List.mem_cons, not_or] at hu
      exact ht.asleep hu.1 (hothers u hu.2)

/-- The threads of the block layer make no calls on a connection. -/
def Stack.BlkCalls (s : Stack β) : Prop := ∀ n, (s.kernel.call (.blk n)).connection = none

theorem blockLayer_call {k k' : Kernel} {act : Act} (hst : Bius.step cfg k act = some k') (hof : act.ofBlockLayer = true)
    {t : Tid} (htid : act.tid = some t) : (k'.call t).connection = none := by
  cases step_cases hst with
  | queueRq t p rq ht hp =>
    cases htid
    unfold Kernel.queueRq
    dsimp only
    split <;> simp [Call.connection]
  | reportZones t p sector nrZones blkz ht hp =>
    cases htid
    unfold Kernel.reportZones
    dsimp only
    split <;> simp [Call.connection]
  | insert t p ht =>
    cases htid
    simp only [Kernel.insert_call, Function.update_self]
    split <;> rfl
  | zonesWake t p junk cb ht hsem =>
    cases htid
    simp [Call.connection]
  | ret t r ht =>
    cases htid
    simp [Call.connection]
  | _ => cases hof

theorem Stack.reach_blkCalls {ok : Stack β → StackAct α → Prop} {k2u : Nat → K2u} {u2k : Nat → U2k} {b : β}
    (h : Machine.Reach (Stack.step cfg B) ok (Stack.init k2u u2k b) s) : s.BlkCalls := by
  refine h.inv (fun s act s' hi _ hs n => ?_) (fun _ => rfl)
  obtain ⟨t, ht⟩ := Stack.step_movedBy hs
  rcases ht.kernel with hk | ⟨a, hst, -, hof⟩
  · rw [hk]
    exact hi n
  · by_cases hn : a.tid = some (.blk n)
    · exact blockLayer_call hst (hof.resolve_right (fun hnot => hnot n hn)) hn
    · rw [step_call hst hn]
      exact hi n

end

/-! ## Every block request is somewhere -/

namespace Life

/-- A place where a request is kept until it is ended. -/
inductive House (l : Life) (p : Ptr) : Prop where
  | pending : p ∈ l.pending → House l p
  | waiting (c : Nat) : p ∈ l.waiting c → House l p
  | filling (t : Tid) : l.hold t = .filling p → House l p
  | taken (t : Tid) (c : Nat) : l.hold t = .taken c p → House l p
  | replied (t : Tid) (c : Nat) : l.hold t = .replied c p → House l p

/-- A block request is kept somewhere until it is ended. -/
def Housed (l : Life) : Prop := ∀ p, l.busy p = true → l.blk p = true → l.House p

section
variable {l l' : Life} {p : Ptr}

theorem House.of (h : l.House p) (hpending : p ∈ l.pending → p ∈ l'.pending)
    (hwaiting : ∀ c, p ∈ l.waiting c → p ∈ l'.waiting c)
    (hhold : ∀ t, l.hold t = .filling p ∨ (∃ c, l.hold t = .taken c p) ∨ (∃ c, l.hold t = .replied c p) →
      l'.hold t = l.hold t) : l'.House p := by
  cases h with
  | pending h => exact .pending (hpending h)
  | waiting c h => exact .waiting c (hwaiting c h)
  | filling t h => exact .filling t ((hhold t (Or.inl h)).trans h)
  | taken t c h => exact .taken t c ((hhold t (Or.inr (Or.inl ⟨c, h⟩))).trans h)
  | replied t c h => exact .replied t c ((hhold t (Or.inr (Or.inr ⟨c, h⟩))).trans h)

theorem hold_kept {t : Tid} {x y : Hold} (hx : l.hold t = x)
    (hp : x ≠ .filling p ∧ (∀ c, x ≠ .taken c p) ∧ ∀ c, x ≠ .replied c p) :
    ∀ u, l.hold u = .filling p ∨ (∃ c, l.hold u = .taken c p) ∨ (∃ c, l.hold u = .replied c p) →
      Function.update l.hold t y u = l.hold u := by
  intro u hu
  refine Function.update_of_ne (fun he => ?_) _ _
  subst he
  rw [hx] at hu
  rcases hu with hu | ⟨c, hu⟩ | ⟨c, hu⟩
  · exact hp.1 hu
  · exact hp.2.1 c hu
  · exact hp.2.2 c hu

theorem Housed.step (h : l.Housed) (hs : Step l l') : l'.Housed := by
  intro q hbusy hblk
  cases hs with
  | issue t p blk sem ht hp hsem =>
    by_cases hq : q = p
    · subst hq
      exact .filling t (Function.update_self _ _ _)
    · dsimp only at hbusy hblk
      rw [Function.update_of_ne hq] at hbusy hblk
      exact (h q hbusy hblk).of (fun hm => hm) (fun _ hm => hm) (hold_kept ht (by simp))
  | refuse p sem hp =>
    have hq : q ≠ p := by
      intro hq
      dsimp only at hbusy
      rw [hq, hp] at hbusy
      cases hbusy
    dsimp only at hbusy hblk
    rw [Function.update_of_ne hq] at hblk
    exact (h q hbusy hblk).of (fun hm => hm) (fun _ hm => hm) (fun _ _ => rfl)
  | insert t p ht =>
    by_cases hq : q = p
    · subst hq
      exact .pending (List.mem_append_right _ (List.mem_singleton_self _))
    · exact (h q hbusy hblk).of (List.mem_append_left _) (fun _ hm => hm) (hold_kept ht (by simp [Ne.symm hq]))
  | take t c p ps x ht hp hx =>
    by_cases hq : q = p
    · subst hq
      exact .taken t c (Function.update_self _ _ _)
    · refine (h q hbusy hblk).of (fun hmem => ?_) (fun _ hm => hm) (hold_kept ht (by simp))
      rw [hp] at hmem
      exact (List.mem_cons.1 hmem).resolve_left hq
  | sent c => exact (h q hbusy hblk).of (fun hm => hm) (fun _ hm => hm) (fun _ _ => rfl)
  | wait t c p ht =>
    by_cases hq : q = p
    · subst hq
      refine .waiting c ?_
      simp
    · refine (h q hbusy hblk).of (fun hm => hm) (fun d hmem => ?_) (hold_kept ht (by simp [Ne.symm hq]))
      by_cases hd : d = c
      · subst hd
        simp [hmem]
      · simpa [hd] using hmem
  | fail t c p ht =>
    have hq : q ≠ p := by
      intro hq
      subst hq
      have hblk' : l.blk q = true := hblk
      simp [hblk'] at hbusy
    have hbusy' : l.busy q = true := by
      simp only [setHold_busy, setSending_busy, finish_busy] at hbusy
      split at hbusy
      · rwa [Function.update_of_ne hq] at hbusy
      · exact hbusy
    exact (h q hbusy' hblk).of (fun hm => hm) (fun _ hm => hm) (hold_kept ht (by simp [Ne.symm hq]))
  | reply t c p ht hp =>
    by_cases hq : q = p
    · subst hq
      exact .replied t c (Function.update_self _ _ _)
    · refine (h q hbusy hblk).of (fun hm => hm) (fun d hmem => ?_) (hold_kept ht (by simp))
      by_cases hd : d = c
      · subst hd
        simpa [List.mem_erase_of_ne hq] using hmem
      · simpa [hd] using hmem
  | complete t c p ht =>
    have hq : q ≠ p := by
      intro hq
      subst hq
      have hblk' : l.blk q = true := hblk
      simp [hblk'] at hbusy
    have hbusy' : l.busy q = true := by
      simp only [setHold_busy, finish_busy] at hbusy
      split at hbusy
      · rwa [Function.update_of_ne hq] at hbusy
      · exact hbusy
    exact (h q hbusy' hblk).of (fun hm => hm) (fun _ hm => hm) (hold_kept ht (by simp [Ne.symm hq]))
  | wake t p ht hsem =>
    have hq : q ≠ p := by
      intro hq
      subst hq
      simp at hbusy
    have hbusy' : l.busy q = true := by
      simp only [setHold_busy] at hbusy
      rwa [Function.update_of_ne hq] at hbusy
    exact (h q hbusy' hblk).of (fun hm => hm) (fun _ hm => hm) (hold_kept ht (by simp))

end

end Life

theorem housed_step {cfg : Config} {k k' : Kernel} {act : Act} (h : k.life.Housed) (hst : Bius.step cfg k act = some k') :
    k'.life.Housed := by
  obtain ⟨l, hl, hsame⟩ := step_places hst
  have hhoused : l.Housed := by
    rcases hl with rfl | hl
    · exact h
    · exact h.step hl
  intro p hbusy hblk
  rw [hsame.busy] at hbusy
  rw [hsame.blk] at hblk
  refine (hhoused p hbusy hblk).of (fun hmem => ?_) (fun c hmem => ?_) (fun t _ => congrFun hsame.hold t)
  · rw [hsame.pending]
    exact hmem
  · rw [hsame.waiting]
    exact hmem

theorem Stack.reach_housed {cfg : Config} {ok : Stack β → StackAct α → Prop} {k2u : Nat → K2u}
    {u2k : Nat → U2k} {b : β} (h : Machine.Reach (Stack.step cfg B) ok (Stack.init k2u u2k b) s) :
      s.kernel.life.Housed := by
  refine h.inv (I := fun s => s.kernel.life.Housed) (fun s act s' hi _ hs => ?_) (fun p hp => ?_)
  · obtain ⟨t, ht⟩ := Stack.step_movedBy hs
    rcases ht.kernel with hk | ⟨a, hst, -, -⟩
    · rw [hk]
      exact hi
    · exact housed_step hi hst
  · cases hp

/-! ## Where nothing is left to do -/

/-- A read of what is left of a payload that nothing interrupts is not empty. -/
theorem readStart_full {k : Kernel} {c n : Nat} {p : Ptr} {size : Nat} (ha : (k.conn c).attached = true)
    (hse : (k.conn c).sending = some p) (ho : (k.req p).Offered ⟨false⟩) (hst : (k.req p).streams ⟨false⟩ = true)
    (hsent : (k.req p).SentTo n) (hn : n < (k.req p).length) (hsize : 0 < size) {k' : Kernel}
    (h : k.readStart (.user c) c size [] = some k') : k'.call (.user c) ≠ .done (.payload []) := by
  obtain ⟨hun, hleft, hsmall⟩ := hsent.ready ho hst
  obtain ⟨bio, m, hm, -, hfull, hsend⟩ := biusSendData_spec hun hleft hsmall size []
  rw [Kernel.readStart, ha, hse] at h
  simp only [Bool.not_true, Bool.false_eq_true, if_false, hsend, Option.map_some, Option.some.injEq] at h
  have hcall : k'.call (.user c) = .done (.payload ((chainBytes (k.req p).bio).take m)) := by
    rw [← h]
    simp
  rw [hcall]
  intro hnil
  have hlen : ((chainBytes (k.req p).bio).take m).length = 0 := by
    cases hnil' : (chainBytes (k.req p).bio).take m with
    | nil => rfl
    | cons x xs =>
      rw [hnil'] at hnil
      cases hnil
  have hleft' := hsent.left
  have hfull := hfull rfl
  rw [List.length_take] at hlen
  omega

/-- A loop has not begun, or waits for a request, or can go on. -/
theorem Stack.Agrees.loop_moves (h : s.Agrees ⟨false⟩ B) {c : Nat} (hleave : (s.loop c).point = .handling →
      ∃ res, B.leave c (s.loop c).k2u (s.loop c).u2k s.proc = some res) :
    (s.loop c).point = .starting ∨ (s.loop c).point = .reading ∧ s.kernel.call (.user c) = .readWait c ∨
      ∃ act s', act.Serves ∧ s.Admits ⟨false⟩ B act ∧ s.step ⟨false⟩ B act = some s' := by
  have hspeaks := h.speaks c
  have hf := h.framed c
  unfold Stack.FramedAt at hf
  generalize hcall : s.kernel.call (.user c) = call at hf
  generalize hpt : (s.loop c).point = point at hf
  cases hf with
  | starting => exact Or.inl rfl
  | mapping =>
    refine Or.inr (Or.inr ⟨.mmap c 0, ?_, trivial, trivial, ?_⟩)
    · exact { s with loop := Function.update s.loop c { s.loop c with point := .reading } }
    · simp only [Stack.step, hpt, if_true, Bool.false_eq_true, if_false]
  | reading hr hw hse =>
    obtain ⟨s', hs'⟩ := (hspeaks.answered hpt).1 hcall []
    refine Or.inr (Or.inr ⟨.read c [], s', trivial, fun s'' hs'' => ?_, hs'⟩)
    -- it is a `read_command`
    simp only [Stack.step, hpt, Stack.kernelStep, Bius.step, hcall, if_true, Kernel.readStart, hr.attached, hse,
      Bool.not_true, Bool.false_eq_true, if_false, Nat.lt_irrefl, Option.map_some, Option.some.injEq] at hs''
    rw [← hs'']
    simp
  | looking => exact Or.inr (Or.inl ⟨rfl, rfl⟩)
  | taken p r =>
    obtain ⟨s', hs'⟩ := (hspeaks.answered hpt).2.2 c p hcall
    exact Or.inr (Or.inr ⟨.send c, s', trivial, trivial, hs'⟩)
  | header p r =>
    refine Or.inr (Or.inr ⟨.readReturn c, ?_, trivial, trivial, ?_⟩)
    rotate_left
    · simp only [Stack.step, hpt, hcall, Stack.loopStep, Bius.step, Option.map_some]
      rfl
  | copyIn p r n hp hr hw hse ho hst hn hsent hk =>
    subst hp
    obtain ⟨s', bytes, hs', -⟩ := hspeaks.streamed n hpt hcall []
    refine Or.inr (Or.inr ⟨.read c [], s', trivial, fun s'' hs'' => ?_, hs'⟩)
    simp only [Stack.step, hpt] at hs''
    obtain ⟨hst'', -, -⟩ := Stack.kernelStep_some hs''
    have hlen : (s.loop c).k2u.length = (s.kernel.req p).length := by
      rw [hk]
      simp
    generalize s''.kernel = k at hst'' ⊢
    cases step_cases hst'' with
    | readStart t c size cuts ht hread =>
      exact readStart_full hr.attached hse ho hst hsent hn (by omega) hread
  | chunk p r n bytes =>
    refine Or.inr (Or.inr ⟨.readReturn c, ?_, trivial, trivial, ?_⟩)
    rotate_left
    · simp only [Stack.step, hpt, hcall, Stack.loopStep, Bius.step, Option.map_some]
      rfl
  | handling p r =>
    obtain ⟨res, hres⟩ := hleave hpt
    refine Or.inr (Or.inr ⟨.reply c, ?_, trivial, trivial, ?_⟩)
    rotate_left
    · simp only [Stack.step, hpt, if_true, hres, Option.map_some]
      rfl
  | replying p r hp hr =>
    refine Or.inr (Or.inr ⟨.write c, ?_, trivial, trivial, ?_⟩)
    rotate_left
    · simp only [Stack.step, hpt, if_true, Stack.kernelStep, Bius.step, hcall, hr.attached, and_self, Option.map_some]
      rfl
  | replied p r =>
    obtain ⟨k', hk'⟩ := writeEnd_isSome s.kernel (.user c) c p (s.loop c).u2k sizeofU2k (B.umem s.proc)
    refine Or.inr (Or.inr ⟨.writeEnd c, ?_, trivial, trivial, ?_⟩)
    rotate_left
    · simp only [Stack.step, Stack.kernelStep, Bius.step, hcall, hk', Option.map_some]
      rfl
  | written =>
    refine Or.inr (Or.inr ⟨.writeReturn c, ?_, trivial, trivial, ?_⟩)
    rotate_left
    · simp only [Stack.step, hpt, hcall, Stack.loopStep, Bius.step, Option.map_some]
      rfl

/-- **Where nobody can go on, nothing is outstanding**, as long as there is a connection. -/
theorem Stack.Agrees.quiescent (h : s.Agrees ⟨false⟩ B) (hcalls : s.BlkCalls) (hhoused : s.kernel.life.Housed)
    (hblk : ∀ p, s.kernel.busy p = true → isBlkRequest (s.kernel.req p).type = true)
    (hleave : ∀ c, (s.loop c).point = .handling → ∃ res, B.leave c (s.loop c).k2u (s.loop c).u2k s.proc = some res)
    (hstuck : ∀ act : StackAct α, act.Serves → s.Admits ⟨false⟩ B act → s.step ⟨false⟩ B act = none)
    {c : Nat} (hc : (s.loop c).point ≠ .starting) (p : Ptr) : s.kernel.busy p = false := by
  -- every loop that has begun waits for a request
  have hloops : ∀ d, (s.loop d).point = .starting ∨
      (s.loop d).point = .reading ∧ s.kernel.call (.user d) = .readWait d := by
    intro d
    rcases h.loop_moves (hleave d) with hstart | hwait | ⟨act, s', hact, hok, hs'⟩
    · exact Or.inl hstart
    · exact Or.inr hwait
    · rw [hstuck act hact hok] at hs'
      cases hs'
  have hidle : ∀ d, (s.kernel.conn d).waiting = [] ∧
      (s.kernel.call (.user d) = .idle ∨ s.kernel.call (.user d) = .readWait d) := by
    intro d
    have hf := h.framed d
    unfold Stack.FramedAt at hf
    rcases hloops d with hpt | ⟨hpt, hcall⟩
    · rw [hpt] at hf
      generalize s.kernel.call (.user d) = call at hf
      cases hf with
      | starting hw => exact ⟨hw, Or.inl rfl⟩
    · rw [hpt, hcall] at hf
      cases hf with
      | looking hr hw => exact ⟨hw, Or.inr hcall⟩
  -- so there is none
  have hpending : s.kernel.pending = [] := by
    by_contra hne
    obtain ⟨hpt, hcall⟩ := (hloops c).resolve_left hc
    obtain ⟨s', hs'⟩ := ((h.speaks c).answered hpt).2.1 c hcall hne
    rw [hstuck (.take c) trivial trivial] at hs'
    cases hs'
  have hblkHold : ∀ n p, s.kernel.call (.blk n) ≠ .queueing p := by
    intro n q hq
    have hs' := hstuck (.block (.insert (.blk n))) trivial trivial
    simp only [Stack.step, Act.ofBlockLayer, if_true, Stack.kernelStep, Bius.step, hq, Option.map_some] at hs'
    cases hs'
  by_contra hbusy
  have hbusy : s.kernel.busy p = true := by simpa using hbusy
  cases hhoused p hbusy (hblk p hbusy) with
  | pending hmem =>
    change p ∈ s.kernel.pending at hmem
    rw [hpending] at hmem
    cases hmem
  | waiting d hmem =>
    change p ∈ (s.kernel.conn d).waiting at hmem
    rw [(hidle d).1] at hmem
    cases hmem
  | filling t hhold =>
    change (s.kernel.call t).hold = _ at hhold
    cases t with
    | user d => rcases (hidle d).2 with hcall | hcall <;> rw [hcall] at hhold <;> cases hhold
    | blk n =>
      have hnot := hblkHold n
      generalize s.kernel.call (.blk n) = call at hhold hnot
      cases call with
      | queueing q => exact hnot q rfl
      | _ => cases hhold
  | taken t d hhold =>
    change (s.kernel.call t).hold = _ at hhold
    cases t with
    | user e => rcases (hidle e).2 with hcall | hcall <;> rw [hcall] at hhold <;> cases hhold
    | blk n =>
      have hnot := hcalls n
      generalize s.kernel.call (.blk n) = call at hhold hnot
      cases call with
      | readTaken => cases hnot
      | _ => cases hhold
  | replied t d hhold =>
    change (s.kernel.call t).hold = _ at hhold
    cases t with
    | user e => rcases (hidle e).2 with hcall | hcall <;> rw [hcall] at hhold <;> cases hhold
    | blk n =>
      have hnot := hcalls n
      generalize s.kernel.call (.blk n) = call at hhold hnot
      cases call with
      | replied => cases hnot
      | _ => cases hhold

end

end Bius
