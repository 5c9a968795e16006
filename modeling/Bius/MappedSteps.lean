import Bius.MappedServing

/- The steps of `MappedStack`. `MappedStack.Moves` says once what each of them is;
   `MappedStack.Reaches` what a step of the kernel module does to the memory; and
   `MappedStack.OnlyFor` that, whatever the step, memory changes on behalf of a single
   connection: in its own reserved pages, and in the segments of the read that it has
   mapped. Requests that other connections have mapped do not notice. A handler that is
   not through can always take a step, and `MappedCall.left` falls with it. -/
namespace Bius

open Registers (Access Legal play trace)

/-! ## The handler by itself -/

/-- What the handler of a command does between two pieces; `word` loads from memory. -/
inductive MappedCall.Goes (mover : Mover) (word : Nat → Nat) (call call' : MappedCall) : Prop where
  | entry : call.callback = none → call.entry mover (word (call.k2u.mappingData + 16 * call.i))
      (word (call.k2u.mappingData + 16 * call.i + 8)) = some call' → Goes mover word call call'
  | ret (t t' : Transfer) : call.callback = some t → t.status = none → t.returns mover = some t' →
      call' = { call with callback := some t' } → Goes mover word call call'
  | fail (t : Transfer) : call.callback = some t → t.status = none → mover = .syscalls →
      call' = { call with callback := some { t with status := some blkStsIoerr } } → Goes mover word call call'
  | back (t : Transfer) (status : Nat) : call.callback = some t → t.status = some status →
      call' = call.returned t status → Goes mover word call call'

section
variable {mover : Mover} {word : Nat → Nat} {call call' : MappedCall}

theorem Transfer.returns_same {t t' : Transfer} (h : t.returns mover = some t') : t'.id = t.id ∧ t'.op = t.op := by
  unfold Transfer.returns at h
  cases mover with
  | memcpy =>
    dsimp only at h
    split at h <;> cases h
    exact ⟨rfl, rfl⟩
  | syscalls =>
    dsimp only at h
    split at h
    · cases h
      exact ⟨rfl, rfl⟩
    · split at h
      · cases h
        exact ⟨rfl, rfl⟩
      · split at h <;> cases h <;> exact ⟨rfl, rfl⟩

/-- The command stays, and so does what its callbacks are for. -/
theorem MappedCall.Goes.same (h : call.Goes mover word call')
    (hop : ∀ t, call.callback = some t → t.id = call.k2u.id ∧
      (t.op = .read ∨ t.op = .write ∨ t.op = .flush)) :
    call'.k2u = call.k2u ∧
      ∀ t, call'.callback = some t → t.id = call'.k2u.id ∧ (t.op = .read ∨ t.op = .write ∨ t.op = .flush) := by
  cases h with
  | entry _ hs =>
    unfold MappedCall.entry at hs
    split at hs
    · cases hs
      exact ⟨rfl, hop⟩
    · rw [Option.map_eq_some_iff] at hs
      obtain ⟨t, hstart, rfl⟩ := hs
      refine ⟨rfl, fun u hu => ?_⟩
      cases hu
      obtain ⟨hid, hop'⟩ := Transfer.start_op hstart
      exact ⟨hid, hop'⟩
  | ret t t' ht _ hret hcall' =>
    subst hcall'
    refine ⟨rfl, fun u hu => ?_⟩
    cases hu
    obtain ⟨hid, hop'⟩ := Transfer.returns_same hret
    rw [hid, hop']
    exact hop t ht
  | fail t ht _ _ hcall' =>
    subst hcall'
    refine ⟨rfl, fun u hu => ?_⟩
    cases hu
    exact hop t ht
  | back t status ht hs hcall' =>
    subst hcall'
    unfold MappedCall.returned
    split <;> exact ⟨rfl, fun u hu => (by cases hu)⟩

theorem MappedCall.Goes.runs {r : BiusRequest} {vmStart n : Nat} {m : PhysMem} (hgoes : call.Goes mover word call')
    (h : call.Runs mover r vmStart n) (hb : Backed r.plain vmStart r.segs m) (hm : (r.mapping vmStart).2 = r)
    (hkind : r.type = .read ∨ r.type = .write) (hk : r.ForCopy) (hnone : call.status = none)
    (hword : ∀ a, vmStart ≤ a → a < vmStart + dataMapAreaSize → word a = m.windowWord vmStart a) :
    call'.Runs mover r vmStart n := by
  have hd : requestMayHaveData r.type = true := by rcases hkind with ht | ht <;> rw [ht] <;> rfl
  cases hgoes with
  | entry hcall hs =>
    -- the entry is read through the window
    obtain ⟨before, after, hent, hi, -, hbetween, -⟩ := h.place hnone
    have hmap : call.k2u.mappingData = vmStart + r.segs.length * pageSize := by
      rcases hb.layout.command hm hd hk.pos hk.small with ⟨off, -, hk'⟩ | ⟨-, hk'⟩
      · have hlist := (hbetween hcall).1
        rw [h.k2u, hk'] at hlist
        cases hlist
      · rw [h.k2u, hk']
    have hle : call.i ≤ (listEntries vmStart r.segs).length := by
      rw [hi, hent, List.length_append]
      exact Nat.le_add_right _ _
    have hwin := hb.layout.wordInWindow hle
    rw [hword _ (by omega) (by omega), hword _ (by omega) (by omega)] at hs
    exact h.entry hb hm hkind hk.pos hk.small hnone hcall hs
  | ret t t' ht hst hret hcall' =>
    subst hcall'
    exact @MappedCall.Runs.callback mover r vmStart n call h hnone t t' 0 ht
      (fun a off l m hcov => hcov.returns hkind hst hret)
  | fail t ht hst hsys hcall' =>
    subst hcall'
    exact @MappedCall.Runs.callback mover r vmStart n call h hnone t _ 0 ht (fun a off l m hcov => hcov.fails hsys)
  | back t status ht hs hcall' =>
    subst hcall'
    exact h.returned hb.layout hm hd hk.pos hk.small hnone ht hs

end

/-! ## The steps -/

/-- What a step is. -/
inductive MappedStack.Moves (mover : Mover) (buffer : Nat → Nat) (fuel : Nat) (S S' : MappedStack) : MappedAct →
    Prop where
  | stack (act : StackAct MappedProc) (T : MappedStack) : (∀ b, act ≠ .process b) →
      S.stack.step ⟨true⟩ (mappedLibrary mover buffer) act = some S'.stack → S.effect fuel act = some T →
      S' = { T with stack := S'.stack } → Moves mover buffer fuel S S' (.stack act)
  | call (act : MappedAct) (c : Nat) (call call' : MappedCall) : S.stack.proc.call c = some call → call.status = none →
      call.Goes mover (S.loadWord c) call' → S' = S.setProc (S.stack.proc.setCall c (some call')) →
      (∀ kmem, act ≠ .memory kmem) → Moves mover buffer fuel S S' act
  | piece (c n : Nat) (call : MappedCall) (t : Transfer) : S.stack.proc.call c = some call → call.callback = some t →
      call.status = none → t.status = none → requestMayHaveData t.op = true → t.size + t.moved + n ≤ t.length →
      S' = S.piece c call t n → Moves mover buffer fuel S S' (.piece c n)
  | memory (kmem : Nat → UInt8) : S' = { S with kmem := kmem } → Moves mover buffer fuel S S' (.memory kmem)

section
variable {mover : Mover} {buffer : Nat → Nat} {fuel : Nat} {S S' : MappedStack}

theorem MappedStack.moves {act : MappedAct} (h : S.step mover buffer fuel act = some S') :
    S.Moves mover buffer fuel S' act := by
  have hcall : ∀ {c : Nat} {f : MappedCall → Option MappedCall}, S.callStep c f = some S' →
      ∃ call call', S.stack.proc.call c = some call ∧ call.status = none ∧ f call = some call' ∧
        S' = S.setProc (S.stack.proc.setCall c (some call')) := by
    intro c f hf
    unfold MappedStack.callStep at hf
    rw [Option.bind_eq_some_iff] at hf
    obtain ⟨call, hcall, hf⟩ := hf
    split at hf
    · next hnone =>
      rw [Option.map_eq_some_iff] at hf
      obtain ⟨call', hf, rfl⟩ := hf
      exact ⟨call, call', hcall, hnone, hf, rfl⟩
    · cases hf
  cases act with
  | stack act =>
    have hstack : (∀ b, act ≠ .process b) ∧ (S.stack.step ⟨true⟩ (mappedLibrary mover buffer) act).bind (fun s =>
        (S.effect fuel act).map (fun S => { S with stack := s })) = some S' := by
      cases act with
      | process b => cases h
      | _ => exact ⟨fun b => (by simp), h⟩
    obtain ⟨hnot, hs⟩ := hstack
    rw [Option.bind_eq_some_iff] at hs
    obtain ⟨s, hs, heff⟩ := hs
    rw [Option.map_eq_some_iff] at heff
    obtain ⟨T, heff, rfl⟩ := heff
    exact .stack act T hnot hs heff rfl
  | entry c =>
    obtain ⟨call, call', hc, hnone, hf, hS'⟩ := hcall h
    split at hf
    · next hcb => exact .call _ c call call' hc hnone (.entry hcb hf) hS' (by simp)
    · cases hf
  | piece c n =>
    simp only [MappedStack.step, Option.bind_eq_some_iff] at h
    obtain ⟨call, hc, t, ht, h⟩ := h
    split at h
    · next hok =>
      cases h
      exact .piece c n call t hc ht hok.1 hok.2.1 hok.2.2.1 hok.2.2.2.2 rfl
    · cases h
  | ret c =>
    obtain ⟨call, call', hc, hnone, hf, hS'⟩ := hcall h
    rw [Option.bind_eq_some_iff] at hf
    obtain ⟨t, ht, hf⟩ := hf
    split at hf
    · next hst =>
      rw [Option.map_eq_some_iff] at hf
      obtain ⟨t', hret, rfl⟩ := hf
      exact .call _ c call _ hc hnone (.ret t t' ht hst hret rfl) hS' (by simp)
    · cases hf
  | fail c =>
    obtain ⟨call, call', hc, hnone, hf, hS'⟩ := hcall h
    rw [Option.bind_eq_some_iff] at hf
    obtain ⟨t, ht, hf⟩ := hf
    split at hf
    · next hok =>
      cases hf
      exact .call _ c call _ hc hnone (.fail t ht hok.1 hok.2 rfl) hS' (by simp)
    · cases hf
  | back c =>
    obtain ⟨call, call', hc, hnone, hf, hS'⟩ := hcall h
    rw [Option.bind_eq_some_iff] at hf
    obtain ⟨t, ht, hf⟩ := hf
    rw [Option.map_eq_some_iff] at hf
    obtain ⟨status, hst, rfl⟩ := hf
    exact .call _ c call _ hc hnone (.back t status ht hst rfl) hS' (by simp)
  | memory kmem =>
    cases h
    exact .memory kmem rfl

/-- For the stack below, the steps of a handler are steps of the process. -/
theorem MappedStack.Moves.inner {act : MappedAct} (h : S.Moves mover buffer fuel S' act) :
    S'.stack = S.stack ∨ ∃ a, S.stack.step ⟨true⟩ (mappedLibrary mover buffer) a = some S'.stack ∧
      (act = .stack a ∨ ∃ b, a = .process b) := by
  have hproc : ∀ b : MappedProc, S'.stack = { S.stack with proc := b } →
      S.stack.step ⟨true⟩ (mappedLibrary mover buffer) (.process b) = some S'.stack := by
    intro b hb
    rw [hb]
    rfl
  cases h with
  | stack act T _ hs => exact Or.inr ⟨act, hs, Or.inl rfl⟩
  | call _ c call call' _ _ _ hS' => exact Or.inr ⟨_, hproc _ (by rw [hS']; rfl), Or.inr ⟨_, rfl⟩⟩
  | piece c n call t _ _ _ _ _ _ hS' =>
    obtain ⟨hkernel, hloop, -⟩ := S.piece_stack c n call t
    rw [← hS'] at hkernel hloop
    refine Or.inr ⟨_, hproc S'.stack.proc ?_, Or.inr ⟨_, rfl⟩⟩
    show S'.stack = ⟨S.stack.kernel, S.stack.loop, S'.stack.proc⟩
    rw [← hkernel, ← hloop]
  | memory kmem hS' =>
    rw [hS']
    exact Or.inl rfl

/-! ## The memory -/

/-- What a step of the kernel module does to the memory. -/
inductive MappedStack.Reaches (fuel : Nat) (S T : MappedStack) : StackAct MappedProc → Prop where
  | none (act : StackAct MappedProc) : T = S →
      (∀ c p ps, act = .take c → S.stack.kernel.call (.user c) = .readWait c → S.stack.kernel.pending = p :: ps →
        ¬ (S.stack.kernel.req p).Maps) →
      (∀ c p n, act = .writeEnd c → S.stack.kernel.call (.user c) = .replied c p (S.stack.loop c).u2k n →
        S.stack.kernel.MappedAt c p → (S.stack.kernel.req p).type = .read →
          (S.stack.loop c).u2k.reply ≠ blkStsOk) →
      Reaches fuel S T act
  | maps (c : Nat) (p : Ptr) (ps : List Ptr) (vmStart : Nat) : S.stack.kernel.call (.user c) = .readWait c →
      S.stack.kernel.pending = p :: ps → (S.stack.kernel.req p).Maps → (S.stack.kernel.conn c).vma = some vmStart →
      (S.stack.kernel.conn c).ptes = (fun _ => .zero) →
      T = S.setView c ((S.view c).applyAll (biusMapData (S.stack.kernel.req p) vmStart (S.stack.kernel.req p).segs).1) →
      Reaches fuel S T (.take c)
  | copies (c : Nat) (p : Ptr) (n vmStart : Nat) (copies : List CopyIn) :
      S.stack.kernel.call (.user c) = .replied c p (S.stack.loop c).u2k n → S.stack.kernel.MappedAt c p →
      (S.stack.kernel.req p).type = .read → (S.stack.loop c).u2k.reply = blkStsOk →
      (S.stack.kernel.conn c).vma = some vmStart →
      biusCopyInMisalignedPages (S.stack.kernel.req p) vmStart (S.view c).word fuel = some copies →
      T = { S.setView c ((S.view c).copyInAll copies) with
        arrived := Function.update S.arrived (S.stack.kernel.req p).id
          (requestBytes ((S.view c).copyInAll copies).kmem (S.stack.kernel.req p).segs) } →
      Reaches fuel S T (.writeEnd c)

theorem MappedStack.reaches {T : MappedStack} {s' : Stack MappedProc} {act : StackAct MappedProc}
    (h : S.stack.Sound (mappedLibrary mover buffer)) (hreq : S.stack.Requests s' act)
    (hs : S.stack.step ⟨true⟩ (mappedLibrary mover buffer) act = some s') (heff : S.effect fuel act = some T) :
    S.Reaches fuel T act := by
  cases act with
  | take c =>
    obtain ⟨p, ps, hcall, hps⟩ : ∃ p ps, S.stack.kernel.call (.user c) = .readWait c ∧
      S.stack.kernel.pending = p :: ps := by
      have ha := Stack.kernelStep_kernel hs
      generalize s'.kernel = k at ha
      cases step_cases ha with
      | readTake t d p ps ht hps _ =>
        obtain rfl := h.agrees.connection (show (S.stack.kernel.call (.user c)).connection = some d by rw [ht]; rfl)
        exact ⟨p, ps, ht, hps⟩
    by_cases hmaps : (S.stack.kernel.req p).Maps
    · obtain ⟨vmStart, hvma, hz, hstores⟩ := h.stores hcall hps hmaps
      refine .maps c p ps vmStart hcall hps hmaps hvma hz ?_
      unfold MappedStack.effect at heff
      dsimp only at heff
      rw [hstores] at heff
      cases heff
      rfl
    · refine .none _ ?_ (fun d q qs hd _ hqs => ?_) (fun d q n hd => (by cases hd))
      · have hnone : windowStores S.stack.kernel (.readTake (.user c)) = none := by simp [windowStores, hcall, hps, hmaps]
        unfold MappedStack.effect at heff
        dsimp only at heff
        rw [hnone] at heff
        cases heff
        rfl
      · rw [hps] at hqs
        cases hqs
        exact hmaps
  | writeEnd c =>
    cases hreq with
    | kept _ _ _ hnot => exact absurd rfl (hnot c)
    | ended _ p n hcall hpt =>
      have hwith : S.stack.kernel.With c p := Or.inr (Or.inr ⟨_, _, n, hcall⟩)
      unfold MappedStack.effect at heff
      dsimp only at heff
      rw [hcall] at heff
      dsimp only at heff
      split at heff
      · next hok =>
        have hmapped : S.stack.kernel.MappedAt c p := (h.mapped_iff hwith).2 ⟨by rw [hok.2.1]; rfl, hok.2.2⟩
        rw [Option.bind_eq_some_iff] at heff
        obtain ⟨vmStart, hvma, heff⟩ := heff
        rw [Option.map_eq_some_iff] at heff
        obtain ⟨copies, hcopies, rfl⟩ := heff
        exact .copies c p n vmStart copies hcall hmapped hok.2.1 hok.1 hvma hcopies rfl
      · next hnot =>
        cases heff
        refine .none _ rfl (fun d q qs hd => (by cases hd)) (fun d q n' hd hcall' hmapped hread hok => hnot ?_)
        cases hd
        rw [hcall] at hcall'
        cases hcall'
        exact ⟨hok, hread, ((h.mapped_iff hwith).1 hmapped).2⟩
  | _ =>
    cases heff
    exact .none _ rfl (fun c p ps hc => (by cases hc)) (fun c p n hc => (by cases hc))

/-- Memory changes on behalf of connection `c` alone. -/
structure MappedStack.OnlyFor (S S' : MappedStack) (c : Nat) : Prop where
  pages : ∀ d, d ≠ c → S'.words d = S.words d ∧ S'.bounce d = S.bounce d
  kmem : ∀ a, S'.kmem a ≠ S.kmem a → ∃ p, S.stack.kernel.MappedAt c p ∧ (S.stack.kernel.req p).type = .read ∧
    ∃ s ∈ (S.stack.kernel.req p).segs, s.Mem a

theorem MappedStack.OnlyFor.same {c : Nat} (hw : S'.words = S.words) (hb : S'.bounce = S.bounce) (hk : S'.kmem = S.kmem) :
    S.OnlyFor S' c :=
  ⟨fun d _ => ⟨by rw [hw], by rw [hb]⟩, fun a ha => absurd (by rw [hk]) ha⟩

/-- A request goes into its window: kernel memory stays as it is. -/
theorem MappedStack.OnlyFor.maps {c vmStart : Nat} {p : Ptr} {s : Stack MappedProc}
    (hl : MapLayout (S.stack.kernel.req p) (S.stack.kernel.req p).segs vmStart) :
    S.OnlyFor { S.setView c ((S.view c).applyAll
      (biusMapData (S.stack.kernel.req p) vmStart (S.stack.kernel.req p).segs).1) with stack := s } c := by
  refine ⟨fun d hd => MappedStack.setView_others _ hd, fun a ha => absurd ?_ ha⟩
  exact congrFun (hl.kmem_eq (S.view c)) a

theorem MappedStack.Serving.arrives {c vmStart v : Nat} {p : Ptr} {bytes : List UInt8} {copies : List CopyIn}
    (h : S.Serving mover c p vmStart bytes) (hfuel : biusMaxSegments < fuel) (hread : (S.stack.kernel.req p).type = .read)
    (hmapped : S.stack.kernel.MappedAt c p) (hvma : (S.stack.kernel.conn c).vma = some v)
    (hcopies : biusCopyInMisalignedPages (S.stack.kernel.req p) v (S.view c).word fuel = some copies) :
    requestBytes ((S.view c).copyInAll copies).kmem (S.stack.kernel.req p).segs =
        (segAddrs vmStart (S.stack.kernel.req p).segs).map ((S.view c).windowByte vmStart) ∧
      ∀ (arrived : Nat → List UInt8) (s : Stack MappedProc),
        S.OnlyFor { S.setView c ((S.view c).copyInAll copies) with arrived := arrived, stack := s } c := by
  have hv : v = vmStart := by
    have hvma' := h.shows.vma
    rw [hvma] at hvma'
    exact Option.some.inj hvma'
  subst hv
  obtain ⟨hd, hexact, -⟩ := h.read hread
  obtain ⟨copies', hcopies', hdata, hrest⟩ := h.backed.copyIn hfuel hd hexact
  have hrequest : (biusMapData (S.stack.kernel.req p).plain v (S.stack.kernel.req p).segs).2 = S.stack.kernel.req p :=
    h.shows.request
  rw [hrequest, hcopies] at hcopies'
  cases hcopies'
  refine ⟨hdata, fun arrived s => ⟨fun d hd => MappedStack.setView_others _ hd,
    fun a ha => ⟨p, hmapped, hread, ?_⟩⟩⟩
  by_contra hnone
  exact ha (hrest a (fun t ht hmem => hnone ⟨t, ht, hmem⟩))

/-! ## A mapped request -/

theorem MapLayout.alike {r r' : BiusRequest} {vmStart : Nat} (h : MapLayout r.plain r.segs vmStart) (ha : r.Alike r') :
    MapLayout r'.plain r'.segs vmStart := by
  have hsegs : r'.segs = r.segs := congrArg rqForEachSegment ha.rq
  rw [hsegs]
  refine ⟨rfl, ?_, h.ok, ?_, h.window, h.entries, h.bounces, h.aligned, h.nonzero⟩
  · show biusMapDataThreshold < r'.length
    rw [ha.length]
    exact h.long
  · show _ = r'.length
    rw [ha.length]
    exact h.sum

theorem Stack.Requests.alike {s s' : Stack MappedProc} {act : StackAct MappedProc} (h : s.Requests s' act)
    (hs : s.Sound (mappedLibrary mover buffer)) (hs' : s'.Sound (mappedLibrary mover buffer))
    (hst : s.step ⟨true⟩ (mappedLibrary mover buffer) act = some s') {c : Nat} {p : Ptr} (hp : s.kernel.With c p)
    (hp' : s'.kernel.With c p) : (s.kernel.req p).Alike (s'.kernel.req p) := by
  cases h with
  | kept _ hk => exact hk.req p
  | submitted t q rq hfree hreq =>
    have hpq : p ≠ q := by
      rintro rfl
      rw [hs.busy hp] at hfree
      cases hfree
    rw [hreq, Function.update_of_ne hpq]
    exact .refl _
  | ended d q n hcall _ _ hothers =>
    have hpq : p ≠ q := by
      rintro rfl
      obtain rfl := hs.inj hp (Or.inr (Or.inr ⟨_, _, n, hcall⟩))
      exact hs'.replied hst p hp'
    rw [hothers p hpq]
    exact .refl _

theorem MappedStack.Serving.stays {c vmStart : Nat} {p : Ptr} {bytes : List UInt8} {act : StackAct MappedProc}
    (h : S.Serving mover c p vmStart bytes) (hs : S.stack.Sound (mappedLibrary mover buffer))
    (hs' : S'.stack.Sound (mappedLibrary mover buffer)) (hh : S.stack.Handlers) (hnot : ∀ b, act ≠ .process b)
    (hst : S.stack.step ⟨true⟩ (mappedLibrary mover buffer) act = some S'.stack) (hp : S.stack.kernel.MappedAt c p)
    (hp' : S'.stack.kernel.MappedAt c p) (ha : (S.stack.kernel.req p).Alike (S'.stack.kernel.req p))
    (hk : (S'.stack.kernel.req p).ForCopy) (hw : S'.words c = S.words c) (hb : S'.bounce c = S.bounce c)
    (hkmem : ∀ a, (∃ s ∈ (S.stack.kernel.req p).segs, s.Mem a) → S'.kmem a = S.kmem a) :
    S'.Serving mover c p vmStart bytes := by
  have hgoes := Stack.goes hst
  obtain ⟨v, hshows⟩ := (hs'.served c).shown p hp'
  have hv : v = vmStart := by
    have hvma := hs.vma_step hs' hst hp.held hp'.held
    rw [hshows.vma, h.shows.vma] at hvma
    exact Option.some.inj hvma
  subst hv
  apply h.keep ha hshows hw hb hkmem
  · rw [(hgoes.disk hnot).1]
  · exact h.stage.step hs hs' hh (hgoes.loop hnot c) hp.held hp' ha (h.backed.layout.alike ha) hshows hk

/-- While another handler takes a step, and its memory is left alone. -/
theorem MappedStack.Serving.aside {c vmStart : Nat} {p : Ptr} {bytes : List UInt8} (h : S.Serving mover c p vmStart bytes)
    (hkernel : S'.stack.kernel = S.stack.kernel) (hloop : S'.stack.loop = S.stack.loop)
    (hcall : S'.stack.proc.call c = S.stack.proc.call c)
    (ht : trace (S.stack.kernel.req p).id S'.stack.proc.log = trace (S.stack.kernel.req p).id S.stack.proc.log)
    (hw : S'.words c = S.words c) (hb : S'.bounce c = S.bounce c)
    (hkmem : ∀ a, (∃ s ∈ (S.stack.kernel.req p).segs, s.Mem a) → S'.kmem a = S.kmem a) :
    S'.Serving mover c p vmStart bytes := by
  refine h.keep (by rw [hkernel]; exact .refl _) (by rw [hkernel]; exact h.shows) hw hb hkmem ht ?_
  have hstage := h.stage
  unfold Stack.Stage at hstage ⊢
  rw [hkernel, hloop, hcall]
  exact hstage

theorem MappedStack.Serving.call {c vmStart : Nat} {p : Ptr} {bytes : List UInt8} {call call' : MappedCall}
    (h : S.Serving mover c p vmStart bytes)
    (hkind : (S.stack.kernel.req p).type = .read ∨ (S.stack.kernel.req p).type = .write)
    (hk : (S.stack.kernel.req p).ForCopy) (hpt : (S.stack.loop c).point = .handling)
    (hcall : S.stack.proc.call c = some call) (hnone : call.status = none) (hgoes : call.Goes mover (S.loadWord c) call') :
    (S.setProc (S.stack.proc.setCall c (some call'))).Serving mover c p vmStart bytes := by
  refine ⟨h.shows, h.backed, h.moved, h.write, h.read, ?_⟩
  have hstage := h.stage
  unfold Stack.Stage at hstage
  rw [hpt] at hstage
  obtain ⟨call₀, hcall₀, hruns⟩ := hstage
  rw [hcall] at hcall₀
  cases hcall₀
  show Stack.Stage mover { S.stack with proc := S.stack.proc.setCall c (some call') } c p vmStart bytes
  unfold Stack.Stage
  dsimp only
  rw [hpt]
  refine ⟨call', Function.update_self .., ?_⟩
  apply hgoes.runs hruns h.backed h.shows.request hkind hk hnone
  intro a hlo hhi
  unfold MappedStack.loadWord
  rw [MappedStack.windowOf_eq h.shows.vma ⟨hlo, hhi⟩]

end

/-! ## What is left for a handler -/

/-- The steps of the handler of `c` by itself. -/
def MappedAct.Handles (c : Nat) : MappedAct → Prop
  | .entry d | .piece d _ | .ret d | .back d => d = c
  | _ => False

/-- How many steps a callback has left that moves the rest of its bytes in one piece. -/
def Transfer.left (t : Transfer) : Nat :=
  match t.status with
  | some _ => 1
  | none => if t.size + t.moved < t.length then 3 else 2

/-- The same of the handler of a command with this many entries. -/
def MappedCall.left (entries : Nat) (call : MappedCall) : Nat :=
  match call.status with
  | some _ => 0
  | none =>
    4 * (entries - call.i) +
      match call.callback with
      | none => 4
      | some t => t.left

section
variable {mover : Mover} {buffer : Nat → Nat} {fuel : Nat} {S S' : MappedStack}

theorem MappedCall.left_through {entries : Nat} {call : MappedCall} {status : Nat} (h : call.status = some status) :
    call.left entries = 0 := by
  unfold MappedCall.left
  rw [h]

theorem MappedCall.left_callback {entries : Nat} {call : MappedCall} {t : Transfer} (hnone : call.status = none)
    (ht : call.callback = some t) : call.left entries = 4 * (entries - call.i) + t.left := by
  unfold MappedCall.left
  rw [hnone, ht]

theorem MappedCall.left_between {entries : Nat} {call : MappedCall} (hnone : call.status = none)
    (ht : call.callback = none) :
    call.left entries = 4 * (entries - call.i) + 4 := by
  unfold MappedCall.left
  rw [hnone, ht]

theorem Transfer.left_le (t : Transfer) : t.left ≤ 3 := by
  unfold Transfer.left
  split
  · decide
  · split <;> decide

/-- Once all bytes are moved, the call of a callback returns, and with it the callback. -/
theorem Transfer.Covers.return_left {r : BiusRequest} {a off l n : Nat} {t : Transfer} (h : t.Covers mover r a off l n)
    (hkind : r.type = .read ∨ r.type = .write) (hall : ¬ t.size + t.moved < t.length) :
    ∃ t' status, t.returns mover = some t' ∧ t'.status = some status := by
  have hnot : t.op ≠ .flush := by
    rw [h.op]
    rcases hkind with hk | hk <;> rw [hk] <;> decide
  have hmoved := h.moved
  have hlength := h.length
  have hle := h.le
  unfold Transfer.returns
  cases mover with
  | memcpy =>
    have hsize := h.once rfl
    exact ⟨_, blkStsOk, if_pos (by omega), rfl⟩
  | syscalls =>
    dsimp only
    rw [if_neg hnot]
    by_cases hzero : t.moved = 0
    · rw [if_pos hzero]
      exact ⟨_, _, rfl, rfl⟩
    · rw [if_neg hzero, if_neg hall]
      exact ⟨_, _, rfl, rfl⟩

/-- The handler of `c` can take a step that leaves less than `left`. -/
def MappedStack.HandlerSteps (mover : Mover) (buffer : Nat → Nat) (fuel : Nat) (S : MappedStack)
    (c entries left : Nat) : Prop :=
  ∃ act S' call', act.Handles c ∧ S.step mover buffer fuel act = some S' ∧ S'.stack.kernel = S.stack.kernel ∧
    S'.stack.loop = S.stack.loop ∧ S'.stack.proc.call c = some call' ∧ call'.left entries < left

theorem MappedStack.callStep_steps {c entries left : Nat} {call : MappedCall} {f : MappedCall → Option MappedCall}
    (act : MappedAct) (call' : MappedCall) (hact : act.Handles c)
    (hstep : S.step mover buffer fuel act = S.callStep c f) (hcall : S.stack.proc.call c = some call)
    (hnone : call.status = none) (hf : f call = some call') (hlt : call'.left entries < left) :
      S.HandlerSteps mover buffer fuel c entries left := by
  refine ⟨act, S.setProc (S.stack.proc.setCall c (some call')), call', hact, ?_, rfl, rfl,
    Function.update_self .., hlt⟩
  rw [hstep, MappedStack.callStep, hcall, Option.bind_some, if_pos hnone, hf]
  rfl

/-- Between two callbacks the handler reads the next entry of the list, or its end. -/
theorem MappedStack.entry_steps {c entries : Nat} {r : BiusRequest} {call : MappedCall}
    (hkind : r.type = .read ∨ r.type = .write) (hcall : S.stack.proc.call c = some call) (hid : call.k2u.id = r.id)
    (hop : call.k2u.opcode = r.type) (hnone : call.status = none) (ht : call.callback = none) :
    S.HandlerSteps mover buffer fuel c entries (call.left entries) := by
  rw [MappedCall.left_between hnone ht]
  by_cases hzero : S.loadWord c (call.k2u.mappingData + 16 * call.i) = 0
  · refine MappedStack.callStep_steps (.entry c) _ rfl rfl hcall hnone ((if_pos ht).trans (if_pos hzero)) ?_
    rw [MappedCall.left_through rfl]
    omega
  · obtain ⟨t, hstart, hcov⟩ := @Transfer.start_covers mover r hkind
      { call.k2u with
        dataAddress := S.loadWord c (call.k2u.mappingData + 16 * call.i), mappingData := 0, offset := call.offset,
        length := S.loadWord c (call.k2u.mappingData + 16 * call.i + 8) } hid hop
    have hentry : call.entry mover (S.loadWord c (call.k2u.mappingData + 16 * call.i))
        (S.loadWord c (call.k2u.mappingData + 16 * call.i + 8)) = some { call with callback := some t } := by
      rw [MappedCall.entry, if_neg hzero, hstart]
      rfl
    refine MappedStack.callStep_steps (.entry c) _ rfl rfl hcall hnone ((if_pos ht).trans hentry) ?_
    rw [@MappedCall.left_callback _ { call with callback := some t } t hnone rfl]
    exact Nat.lt_succ_of_le (Nat.add_le_add_left t.left_le _)

/-- A callback that is not over moves the rest of its bytes, or returns. -/
theorem MappedStack.callback_steps {c entries a off l n : Nat} {r : BiusRequest} {call : MappedCall} {t : Transfer}
    (hkind : r.type = .read ∨ r.type = .write) (hcall : S.stack.proc.call c = some call)
    (hnone : call.status = none) (ht : call.callback = some t) (hst : t.status = none)
    (hcov : t.Covers mover r a off l n) : S.HandlerSteps mover buffer fuel c entries (call.left entries) := by
  rw [MappedCall.left_callback hnone ht]
  by_cases hmore : t.size + t.moved < t.length
  · obtain ⟨n, hn⟩ : ∃ n, n = t.length - (t.size + t.moved) := ⟨_, rfl⟩
    obtain ⟨hkernel, hloop, hcalls, -⟩ := S.piece_stack c n call t
    refine ⟨.piece c n, S.piece c call t n, { call with callback := some { t with moved := t.moved + n } },
      rfl, ?_, hkernel, hloop, ?_, ?_⟩
    · have hop : requestMayHaveData t.op = true := by
        rw [hcov.op]
        rcases hkind with hk | hk <;> rw [hk] <;> rfl
      simp only [MappedStack.step, hcall, ht, Option.bind_some]
      exact if_pos ⟨hnone, hst, hop, by omega, by omega⟩
    · rw [hcalls, Function.update_self, S.next_length]
    · have hthree : t.left = 3 := by simp only [Transfer.left, hst, if_pos hmore]
      have htwo : Transfer.left { t with moved := t.moved + n } = 2 := by
        simp only [Transfer.left, hst]
        exact if_neg (by omega)
      rw [@MappedCall.left_callback _ { call with callback := some { t with moved := t.moved + n } } _ hnone
        rfl, hthree, htwo]
      exact Nat.lt_succ_self _
  · -- its last call returns
    obtain ⟨t', status, hret, hst'⟩ := hcov.return_left hkind hmore
    refine MappedStack.callStep_steps (.ret c) { call with callback := some t' } rfl rfl hcall hnone ?_ ?_
    · rw [ht, Option.bind_some, if_pos hst, hret]
      rfl
    · have htwo : t.left = 2 := by simp only [Transfer.left, hst, if_neg hmore]
      have hone : t'.left = 1 := by rw [Transfer.left, hst']
      rw [@MappedCall.left_callback _ { call with callback := some t' } t' hnone rfl, hone, htwo]
      exact Nat.lt_succ_self _

/-- A callback that is over returns to the handler, which has one entry less before it. -/
theorem MappedStack.back_steps {c entries status : Nat} {call : MappedCall} {t : Transfer}
    (hcall : S.stack.proc.call c = some call) (hnone : call.status = none) (ht : call.callback = some t)
    (hst : t.status = some status) (hlt : call.i < entries) :
    S.HandlerSteps mover buffer fuel c entries (call.left entries) := by
  rw [MappedCall.left_callback hnone ht]
  refine MappedStack.callStep_steps (.back c) (call.returned t status) rfl rfl hcall hnone ?_ ?_
  · rw [ht, Option.bind_some, hst]
    rfl
  · have hone : t.left = 1 := by rw [Transfer.left, hst]
    rw [hone]
    unfold MappedCall.returned
    split
    · rw [@MappedCall.left_between _
        { call with i := call.i + 1, offset := call.offset + t.length, callback := none } hnone rfl]
      dsimp only
      omega
    · rw [MappedCall.left_through rfl]
      omega

/-- A handler that is not through takes a step, and has less left. -/
theorem MappedStack.Serving.handler_steps {c vmStart : Nat} {p : Ptr} {bytes : List UInt8} {call : MappedCall}
    (h : S.Serving mover c p vmStart bytes) (hkind : (S.stack.kernel.req p).type = .read ∨
      (S.stack.kernel.req p).type = .write)
    (hpt : (S.stack.loop c).point = .handling) (hcall : S.stack.proc.call c = some call) (hnone : call.status = none) :
    S.HandlerSteps mover buffer fuel c (listEntries vmStart (S.stack.kernel.req p).segs).length
      (call.left (listEntries vmStart (S.stack.kernel.req p).segs).length) := by
  have hstage := h.stage
  unfold Stack.Stage at hstage
  rw [hpt] at hstage
  obtain ⟨call₀, hcall₀, hruns⟩ := hstage
  rw [hcall] at hcall₀
  cases hcall₀
  obtain ⟨before, after, hent, hi, -, -, hcalled⟩ := hruns.place hnone
  cases ht : call.callback with
  | none =>
    exact MappedStack.entry_steps hkind hcall (by rw [hruns.k2u]; unfold k2uHeader; split <;> rfl)
      (by rw [hruns.k2u]; unfold k2uHeader; split <;> rfl) hnone ht
  | some t =>
    obtain ⟨a, l, rest, k, rfl, -, hcov⟩ := hcalled t ht
    cases hst : t.status with
    | none => exact MappedStack.callback_steps hkind hcall hnone ht hst hcov
    | some status =>
      refine MappedStack.back_steps hcall hnone ht hst ?_
      rw [hi, hent, List.length_append, List.length_cons]
      omega

end

end Bius
