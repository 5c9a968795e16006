import Bius.Framing

/- All connections together. A step of one loop leaves the other connections alone, so the
   agreement of kernel and library is kept by every step (`Agrees.step`) and holds in every
   reachable state. `framing_agrees` says what this means for the reads of the library:
   each is answered with what the library expects, in both builds, whatever the other
   connections take from the shared list of pending requests. -/
namespace Bius

/-! ## All connections -/

/-- The requests of the block layer are as long as the queue limits allow, and a read of a
    payload does not come back empty. -/
def Stack.Admits {β α : Type} (cfg : Config) (B : Backend β α) (s : Stack β) : StackAct α → Prop
  | .block (.queueRq _ _ rq) => requestMayHaveData (toBiusRequest rq.op) = true → rq.dataLen ≤ biusMaxSizePerCommand
  | .read c cuts => ∀ s', s.step cfg B (.read c cuts) = some s' → s'.kernel.call (.user c) ≠ .done (.payload [])
  | _ => True

section
variable {β α : Type} {cfg : Config} {B : Backend β α} {s s' : Stack β}

theorem Stack.Agrees.init (k2u : Nat → K2u) (u2k : Nat → U2k) (b : β) : (Stack.init k2u u2k b).Agrees cfg B := by
  refine ⟨placed_init, fun p hp => ?_, fun c => .starting rfl rfl⟩
  rcases hp with hp | ⟨t, ht⟩
  · cases hp
  · cases ht

theorem Stack.Agrees.fresh_step (h : s.Agrees cfg B) {act : Act} {k : Kernel} (hst : Bius.step cfg s.kernel act = some k)
    (hlen : ∀ t p rq, act = .queueRq t p rq → requestMayHaveData (toBiusRequest rq.op) = true →
      rq.dataLen ≤ biusMaxSizePerCommand) (p : Ptr) (hp : k.OnTheWay p) : (k.req p).Untaken := by
  obtain ⟨loc, hl⟩ := h.placed.located
  refine onTheWay_step hl hst (fun t p rq hact => ?_) (fun _ _ _ _ _ => ?_) h.fresh hp
  · exact ⟨fun hd => ⟨rq.len_eq hd, hlen t p rq hact hd⟩, fun _ => rfl, fun _ => rfl⟩
  · exact ⟨fun hd => (by cases hd), fun hb => (by cases hb), fun hb => (by cases hb)⟩

/-- A step elsewhere does not change what a connection and its loop agree on. -/
theorem Stack.Agrees.others (h : s.Agrees cfg B) {act : Act} {k : Kernel} (hst : Bius.step cfg s.kernel act = some k)
    {d : Nat} (htid : act.tid ≠ some (.user d)) (hconn : act.connection s.kernel ≠ some d) {l : Loop}
    (hl : l = s.loop d) :
    Framed cfg (B.buffer d) d k.req (k.conn d) l.k2u l.u2k l.point (k.call (.user d)) := by
  obtain ⟨loc, hloc⟩ := h.placed.located
  rw [hl, step_conn hst hconn, step_call hst htid]
  refine (h.framed d).congr (fun p hp => ?_)
  refine step_with_req hloc hst (c := d) ?_ hconn
  rcases hp with hp | hp | ⟨header, n, hp⟩
  · exact Or.inl hp
  · exact Or.inr (Or.inl ⟨_, hp⟩)
  · exact Or.inr (Or.inr ⟨_, header, n, hp⟩)

theorem Stack.Agrees.own (h : s.Agrees cfg B) {act : Act} {k : Kernel} (hst : Bius.step cfg s.kernel act = some k)
    {c : Nat} (htid : act.tid = none ∨ act.tid = some (.user c)) (hsub : act.submits = false)
    (hconn : ∀ d, act.connection s.kernel = some d → d = c) {l : Loop} {b : β}
    (hf : Framed cfg (B.buffer c) c k.req (k.conn c) l.k2u l.u2k l.point (k.call (.user c))) :
    Stack.Agrees cfg B ⟨k, Function.update s.loop c l, b⟩ := by
  refine ⟨placed_step h.placed hst, h.fresh_step hst (fun t p rq hact => ?_), fun d => ?_⟩
  · rw [hact] at hsub
    cases hsub
  · unfold Stack.FramedAt
    dsimp only
    by_cases hd : d = c
    · rw [hd, Function.update_self]
      exact hf
    · refine h.others hst (fun ht => ?_) (fun hc => hd (hconn d hc)) (Function.update_of_ne hd _ _)
      rcases htid with h0 | h0 <;> rw [ht] at h0
      · cases h0
      · cases h0
        exact hd rfl

theorem Stack.Agrees.inside (h : s.Agrees cfg B) {act : Act} (hs : s.kernelStep cfg act = some s') {c : Nat}
    (htid : act.tid = some (.user c)) (hsub : act.submits = false)
    (hconn : ∀ d, act.connection s.kernel = some d → d = c) (hf : ∀ k, Bius.step cfg s.kernel act = some k →
      Framed cfg (B.buffer c) c k.req (k.conn c) (s.loop c).k2u (s.loop c).u2k (s.loop c).point (k.call (.user c))) :
    s'.Agrees cfg B := by
  unfold Stack.kernelStep at hs
  rw [Option.map_eq_some_iff] at hs
  obtain ⟨k, hk, rfl⟩ := hs
  have hown := h.own hk (Or.inr htid) hsub hconn (hf k hk) (b := s.proc)
  rwa [Function.update_eq_self] at hown

theorem Stack.Agrees.block (h : s.Agrees cfg B) {act : Act} (hblk : act.ofBlockLayer = true)
    (hlen : ∀ t p rq, act = .queueRq t p rq → requestMayHaveData (toBiusRequest rq.op) = true →
      rq.dataLen ≤ biusMaxSizePerCommand) (hs : s.kernelStep cfg act = some s') : s'.Agrees cfg B := by
  unfold Stack.kernelStep at hs
  rw [Option.map_eq_some_iff] at hs
  obtain ⟨k, hk, rfl⟩ := hs
  refine ⟨placed_step h.placed hk, h.fresh_step hk hlen, fun d => h.others hk (fun ht => ?_) (fun hc => ?_) rfl⟩
  · unfold Act.ofBlockLayer at hblk
    split at hblk <;> first | cases ht | cases hblk
  · unfold Act.ofBlockLayer at hblk
    split at hblk <;> first | cases hc | cases hblk

theorem Stack.Agrees.outside (h : s.Agrees cfg B) {c : Nat} {l : Loop} {b : β}
    (hf : Framed cfg (B.buffer c) c s.kernel.req (s.kernel.conn c) l.k2u l.u2k l.point (s.kernel.call (.user c))) :
    Stack.Agrees cfg B ⟨s.kernel, Function.update s.loop c l, b⟩ := by
  refine ⟨h.placed, h.fresh, fun d => ?_⟩
  unfold Stack.FramedAt
  dsimp only
  by_cases hd : d = c
  · rw [hd, Function.update_self]
    exact hf
  · rw [Function.update_of_ne hd]
    exact h.framed d

theorem Stack.Agrees.connection (h : s.Agrees cfg B) {c d : Nat} (hd : (s.kernel.call (.user c)).connection = some d) :
    d = c :=
  (h.framed c).connection hd

theorem Stack.Agrees.step (hB : B.Honest cfg) (h : s.Agrees cfg B) {act : StackAct α} (hok : s.Admits cfg B act)
    (hs : s.step cfg B act = some s') : s'.Agrees cfg B := by
  cases act with
  | attach c =>
    simp only [Stack.step] at hs
    split at hs
    · next hpt =>
      unfold Stack.loopStep at hs
      rw [Option.map_eq_some_iff] at hs
      obtain ⟨k, hk, rfl⟩ := hs
      have hf := h.framed c
      unfold Stack.FramedAt at hf
      rw [hpt] at hf
      exact h.own hk (Or.inl rfl) rfl (fun d hd => by cases hd; rfl) (hf.attach hk)
    · cases hs
  | mmap c vmStart =>
    simp only [Stack.step] at hs
    split at hs
    · next hpt =>
      have hf := h.framed c
      unfold Stack.FramedAt at hf
      rw [hpt] at hf
      split at hs
      · unfold Stack.loopStep at hs
        rw [Option.map_eq_some_iff] at hs
        obtain ⟨k, hk, rfl⟩ := hs
        exact h.own hk (Or.inl rfl) rfl (fun d hd => by cases hd; rfl) (hf.mmap hk)
      · next hcfg =>
        cases hs
        apply h.outside
        generalize s.kernel.call (.user c) = call at hf
        cases hf with
        | mapping ha hw hse => exact .reading ⟨ha, fun hc => absurd hc hcfg⟩ hw hse
    · cases hs
  | block act =>
    simp only [Stack.step] at hs
    split at hs
    · next hblk => exact h.block hblk (fun t p rq hact => by rw [hact] at hok; exact hok) hs
    · cases hs
  | read c cuts =>
    have hne := hok
    have hf := h.framed c
    unfold Stack.FramedAt at hf
    simp only [Stack.Admits, Stack.step] at hs hne
    split at hs
    · next hpt =>
      rw [hpt] at hf
      refine h.inside hs rfl rfl (fun d hd => by cases hd; rfl) (fun k hk => ?_)
      rw [hpt]
      exact hf.read_command hk
    · next n hpt =>
      rw [hpt] at hf
      refine h.inside hs rfl rfl (fun d hd => by cases hd; rfl) (fun k hk => ?_)
      rw [hpt]
      apply hf.read_payload hk
      simp only [hpt] at hne
      exact hne _ (by rw [Stack.kernelStep, hk]; rfl)
    · cases hs
  | take c =>
    refine h.inside hs rfl rfl (fun d hd => h.connection hd) (fun k hk => ?_)
    exact Framed.take (h.framed c) h.fresh hk
  | send c =>
    refine h.inside hs rfl rfl (fun d hd => h.connection hd) (fun k hk => ?_)
    exact Framed.send (h.framed c) hk
  | readReturn c =>
    have hf := h.framed c
    unfold Stack.FramedAt at hf
    simp only [Stack.step] at hs
    split at hs
    · cases hs
    · next r hcall hpt =>
      unfold Stack.loopStep at hs
      rw [Option.map_eq_some_iff] at hs
      obtain ⟨k, hk, rfl⟩ := hs
      apply h.own hk (Or.inr rfl) rfl (fun d hd => by cases hd)
      cases step_cases hk with
      | ret t r' hr' =>
        show Framed _ _ _ s.kernel.req (s.kernel.conn c) _ _ _ (Function.update s.kernel.call (.user c) .idle (.user c))
        rw [Function.update_self]
        rw [hcall] at hf
        generalize hp : (s.loop c).point = point at hf
        cases point with
        | reading => exact hf.command B hp
        | copyIn n => exact hf.copied B hp
        | writing => exact absurd hp hpt
        | _ => cases hf
    · cases hs
  | reply c =>
    simp only [Stack.step] at hs
    split at hs
    · next hpt =>
      rw [Option.map_eq_some_iff] at hs
      obtain ⟨res, hres, rfl⟩ := hs
      have hf := h.framed c
      unfold Stack.FramedAt at hf
      rw [hpt] at hf
      exact h.outside (hf.reply hB hres)
    · cases hs
  | write c =>
    simp only [Stack.step] at hs
    split at hs
    · next hpt =>
      refine h.inside hs rfl rfl (fun d hd => by cases hd; rfl) (fun k hk => ?_)
      have hf := h.framed c
      unfold Stack.FramedAt at hf
      rw [hpt] at hf ⊢
      exact hf.write hk
    · cases hs
  | writeEnd c =>
    refine h.inside hs rfl rfl (fun d hd => h.connection hd) (fun k hk => ?_)
    exact Framed.writeEnd (h.framed c) (hB.buffers _ c) hk
  | writeReturn c =>
    have hf := h.framed c
    unfold Stack.FramedAt at hf
    simp only [Stack.step] at hs
    split at hs
    · next r hpt hcall =>
      unfold Stack.loopStep at hs
      rw [Option.map_eq_some_iff] at hs
      obtain ⟨k, hk, rfl⟩ := hs
      apply h.own hk (Or.inr rfl) rfl (fun d hd => by cases hd)
      cases step_cases hk with
      | ret t r' hr' =>
        show Framed _ _ _ s.kernel.req (s.kernel.conn c) _ _ _ (Function.update s.kernel.call (.user c) .idle (.user c))
        rw [Function.update_self]
        rw [hcall, hpt] at hf
        exact hf.writeReturned B
    · cases hs
  | process a =>
    simp only [Stack.step] at hs
    rw [Option.map_eq_some_iff] at hs
    obtain ⟨b, -, rfl⟩ := hs
    exact ⟨h.placed, h.fresh, h.framed⟩

/-- Kernel and library agree in every reachable state. -/
theorem Stack.reach_agrees (hB : B.Honest cfg) {k2u : Nat → K2u} {u2k : Nat → U2k} {b : β}
    (h : Machine.Reach (Stack.step cfg B) (Stack.Admits cfg B) (Stack.init k2u u2k b) s) : s.Agrees cfg B :=
  h.inv (fun _ _ _ hi hok hs => hi.step hB hok hs) (.init k2u u2k b)

end

/-! ## The library -/

section
variable {σ : Type} {ops : BiusOperations σ} {P : Process σ} {fuel : Nat} {u2k : U2k} {k2u : K2u} {s : σ}
    {res : σ × U2k}

theorem makeReply_data (h : makeReply ops P fuel u2k k2u s = some res) (hop : k2u.opcode = .read)
    (hlist : k2u.dataMapType ≠ .list) : res.2.userData = k2u.dataAddress + k2u.mappingData := by
  rw [makeReply, if_pos (by rw [hop]; rfl), Option.map_eq_some_iff] at h
  obtain ⟨x, hx, rfl⟩ := h
  rw [handleBlkCommand, if_neg hlist, hop] at hx
  cases hx
  rfl

theorem library_honest {cfg : Config} {umem : σ → UMem} {buffer : Nat → Nat}
    (hbuf : ∀ s c, Readable (umem s) (buffer c) (dataCopyBufferSize cfg)) :
    (library ops P umem buffer fuel).Honest cfg :=
  ⟨fun h => makeReply_id h, fun h => makeReply_data h, hbuf⟩

end

/-- What kernel and loop of a connection owe each other. -/
structure Stack.Speaks {β α : Type} (cfg : Config) (B : Backend β α) (s : Stack β) (c : Nat) : Prop where
  /-- a `read_command` is answered with one whole command, and that of the request which
      the connection has taken -/
  command : ∀ r, (s.loop c).point = .reading → s.kernel.call (.user c) = .done r →
    ∃ p, (s.kernel.conn c).waiting = [p] ∧ r = .header ((s.kernel.conn c).command cfg (s.kernel.req p)) sizeofK2u
  /-- a `read` of `handle_copy_in` is answered with the next bytes of the data of the
      command received before -/
  payload : ∀ n r, (s.loop c).point = .copyIn n → s.kernel.call (.user c) = .done r →
    ∃ p bytes, (s.kernel.conn c).waiting = [p] ∧
      (s.loop c).k2u = copyInHeader (B.buffer c) ((s.kernel.conn c).command cfg (s.kernel.req p)) ∧
        r = .payload bytes ∧
      bytes ≠ [] ∧ n + bytes.length ≤ (s.loop c).k2u.length ∧
      bytes = ((chainBytes (s.kernel.req p).rq).drop n).take bytes.length
  /-- after `handle_copy_in` nothing is left to be sent -/
  drained : (s.loop c).point = .handling → (s.kernel.conn c).sending = none
  /-- what is not mapped fits into the copy buffer -/
  fits : ∀ p ∈ (s.kernel.conn c).waiting, requestMayHaveData (s.kernel.req p).type = true →
    ((s.kernel.conn c).command cfg (s.kernel.req p)).dataMapType = .unmapped →
    (s.kernel.req p).length ≤ dataCopyBufferSize cfg
  /-- the loop goes on -/
  alive : (s.loop c).point ≠ .exited ∧ (s.loop c).point ≠ .lost
  /-- a `read_command` waits for nothing but a request -/
  answered : (s.loop c).point = .reading →
    (s.kernel.call (.user c) = .idle → ∀ cuts, ∃ s', s.step cfg B (.read c cuts) = some s') ∧
    (∀ d, s.kernel.call (.user c) = .readWait d → s.kernel.pending ≠ [] →
      ∃ s', s.step cfg B (.take c) = some s') ∧
    (∀ d p, s.kernel.call (.user c) = .readTaken d p → ∃ s', s.step cfg B (.send c) = some s')
  /-- a `read` of `handle_copy_in` waits for nothing -/
  streamed : ∀ n, (s.loop c).point = .copyIn n → s.kernel.call (.user c) = .idle →
    ∀ cuts, ∃ s' bytes, s.step cfg B (.read c cuts) = some s' ∧ s'.kernel.call (.user c) = .done (.payload bytes)

section
variable {cfg : Config} {k : Kernel}

theorem prepare_isSome {c : Nat} (p : Ptr) (h : (k.conn c).Ready cfg) : ∃ k', k.prepare cfg c p = some k' := by
  unfold Kernel.prepare
  split
  · split
    · next hmap =>
      simp only [Bool.and_eq_true] at hmap
      obtain ⟨vmStart, hv⟩ := h.window hmap.1
      exact ⟨_, by rw [hv]; rfl⟩
    · split <;> exact ⟨_, rfl⟩
  · exact ⟨_, rfl⟩

theorem readStart_payload {t : Tid} {c n : Nat} {p : Ptr} (ha : (k.conn c).attached = true)
    (hse : (k.conn c).sending = some p) (ho : (k.req p).Offered cfg) (hst : (k.req p).streams cfg = true)
    (hsent : (k.req p).SentTo n) (size : Nat) (cuts : List Nat) :
    ∃ k' bytes, k.readStart t c size cuts = some k' ∧ k'.call t = .done (.payload bytes) := by
  obtain ⟨hun, hleft, hsmall⟩ := hsent.ready ho hst
  obtain ⟨bio, m, -, -, -, hsend⟩ := biusSendData_spec hun hleft hsmall size cuts
  rw [Kernel.readStart, ha, hse]
  simp only [Bool.not_true, Bool.false_eq_true, if_false, hsend, Option.map_some]
  exact ⟨_, (chainBytes (k.req p).bio).take m, rfl, by simp⟩

end

section
variable {β α : Type} {cfg : Config} {B : Backend β α} {s : Stack β}

theorem Stack.Agrees.speaks (h : s.Agrees cfg B) (c : Nat) : s.Speaks cfg B c := by
  have hf := h.framed c
  unfold Stack.FramedAt at hf
  refine ⟨fun r hpt hcall => ?_, fun n r hpt hcall => ?_, fun hpt => ?_, fun p hp hd hun => ?_, ?_,
    fun hpt => ⟨fun hcall cuts => ?_, fun d hcall hpend => ?_, fun d p hcall => ?_⟩, fun n hpt hcall cuts => ?_⟩
  · rw [hpt, hcall] at hf
    cases hf with
    | header p r hp hr hw => exact ⟨p, hw, by rw [hp]⟩
  · rw [hpt, hcall] at hf
    cases hf with
    | chunk p r n bytes hp hr hw hse ho hst hsent hpos hb hk =>
      refine ⟨p, bytes, hw, by rw [hp]; exact hk, rfl, List.ne_nil_of_length_pos hpos, ?_, by rw [hp]; exact hb⟩
      rw [hk]
      simpa using hsent.le
  · rw [hpt] at hf
    generalize s.kernel.call (.user c) = call at hf
    cases hf with
    | handling p r hp hr hw hse => exact hse
  · obtain ⟨r, hr, ho⟩ : ∃ r, s.kernel.req p = r ∧ r.Offered cfg := hf.offered hp
    rw [hr] at hd hun ⊢
    exact ho.length_le hd ((ho.command_mapType _ hd).1 hun)
  · generalize s.kernel.call (.user c) = call at hf
    generalize (s.loop c).point = point at hf ⊢
    cases hf <;> simp
  · rw [hpt, hcall] at hf
    cases hf with
    | reading hr hw hse =>
      simp only [Stack.step, hpt, Stack.kernelStep, Bius.step, hcall, if_true, Kernel.readStart, hr.attached, hse,
        Nat.lt_irrefl, if_false]
      exact ⟨_, rfl⟩
  · rw [hpt, hcall] at hf
    cases hf with
    | looking hr hw hse =>
      obtain ⟨p, ps, hps⟩ := List.exists_cons_of_ne_nil hpend
      obtain ⟨k', hk'⟩ := prepare_isSome (k := { s.kernel with
        pending := ps
        taken := s.kernel.taken ++ [(s.kernel.req p).id]
        call := Function.update s.kernel.call (.user c) (.readTaken c p) }) (c := c) p hr
      refine ⟨{ s with kernel := k' }, ?_⟩
      simp only [Stack.step, Stack.kernelStep, Bius.step, hcall, Kernel.readTake, hps, hk', Option.map_some]
  · refine ⟨{ s with kernel := s.kernel.readSend cfg (.user c) d p sizeofK2u }, ?_⟩
    simp only [Stack.step, Stack.kernelStep, Bius.step, hcall, Option.map_some]
  · rw [hpt, hcall] at hf
    cases hf with
    | copyIn p r n hp hr hw hse ho hst hn hsent hk =>
      subst hp
      obtain ⟨k', bytes, hk', hcall'⟩ := readStart_payload (t := .user c) hr.attached hse ho hst hsent
        ((s.loop c).k2u.length - n) cuts
      refine ⟨{ s with kernel := k' }, bytes, ?_, hcall'⟩
      simp only [Stack.step, hpt, Stack.kernelStep, Bius.step, hcall, if_true, hk', Option.map_some]

end

/-- **Kernel and library agree on framing.** In every state that the kernel module, any
    number of connections and the loops of the library reach. -/
theorem framing_agrees {σ : Type} (cfg : Config) (ops : BiusOperations σ) (P : Process σ) (umem : σ → UMem)
    (buffer : Nat → Nat) (fuel : Nat) (hbuf : ∀ b c, Readable (umem b) (buffer c) (dataCopyBufferSize cfg))
    {k2u : Nat → K2u} {u2k : Nat → U2k} {b : σ} {s : Stack σ}
    (h : Machine.Reach (Stack.step cfg (library ops P umem buffer fuel))
      (Stack.Admits cfg (library ops P umem buffer fuel)) (Stack.init k2u u2k b) s) (c : Nat) :
    s.Speaks cfg (library ops P umem buffer fuel) c :=
  (Stack.reach_agrees (library_honest hbuf) h).speaks c

/-- The ramdisk with its copy buffers one behind the other. -/
def ramdiskLibrary : Backend (Proc (Nat → UInt8)) (Proc (Nat → UInt8)) :=
  library ramdiskOperations (Proc.process 0) Proc.umem (fun c => biusMaxSizePerCommand * (c + 1)) 1

/-- A connection takes a write of five bytes, and its loop reads two of them. -/
def shortRead : List (StackAct (Proc (Nat → UInt8))) :=
  [.attach 0, .mmap 0 0,
   .block (.queueRq (.blk 0) 5 ⟨1, 0, 5, [⟨[⟨16, 0, [7, 5, 3, 2, 1], by decide⟩]⟩], fun _ => rfl⟩),
   .block (.insert (.blk 0)), .block (.ret (.blk 0)), .read 0 [], .take 0, .send 0, .readReturn 0, .read 0 [2, 0]]

theorem framing_agrees_shortRead : ∃ s : Stack (Proc (Nat → UInt8)),
    Machine.Steps (Stack.step ⟨false⟩ ramdiskLibrary) (Stack.Admits ⟨false⟩ ramdiskLibrary)
      (Stack.init (fun _ => ⟨0, .read, 0, 0, 0, 0, .unmapped⟩) (fun _ => ⟨0, 0, 0⟩)
        ⟨fun _ => 0, fun _ => 0⟩) shortRead s ∧
    (s.loop 0).point = .copyIn 0 ∧ s.kernel.call (.user 0) = .done (.payload [7, 5]) ∧
    s.Speaks ⟨false⟩ ramdiskLibrary 0 := by
  have hrun : ∃ s : Stack (Proc (Nat → UInt8)),
      Machine.Steps (Stack.step ⟨false⟩ ramdiskLibrary) (Stack.Admits ⟨false⟩ ramdiskLibrary)
        (Stack.init (fun _ => ⟨0, .read, 0, 0, 0, 0, .unmapped⟩) (fun _ => ⟨0, 0, 0⟩)
          ⟨fun _ => 0, fun _ => 0⟩) shortRead s ∧
      (s.loop 0).point = .copyIn 0 ∧ s.kernel.call (.user 0) = .done (.payload [7, 5]) := by
    refine ⟨_, .cons trivial rfl (.cons trivial rfl (.cons ?_ rfl (.cons trivial rfl (.cons trivial rfl (.cons ?_ rfl
      (.cons trivial rfl (.cons trivial rfl (.cons trivial rfl (.cons ?_ rfl (.nil _)))))))))), rfl, rfl⟩
    · intro _
      decide
    · intro s' hs'
      cases hs'
      show Call.readWait 0 ≠ _
      simp
    · intro s' hs'
      cases hs'
      show Call.done (.payload [7, 5]) ≠ _
      simp
  obtain ⟨s, hsteps, hpt, hcall⟩ := hrun
  exact ⟨s, hsteps, hpt, hcall, framing_agrees ⟨false⟩ ramdiskOperations (Proc.process 0) Proc.umem _ 1
    (fun _ _ _ _ => rfl) ⟨_, hsteps⟩ 0⟩

end Bius
