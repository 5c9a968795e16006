import Bius.MappedCommand
import Bius.MappedTurns

/- A request in its window (CONFIG_BIUS_DATAMAP build). `MappedStack.Serving` is what holds of
   a request that connection `c` has mapped, from the `bius_map_data` of its command to the end
   of the reply: the window stands as it was made, the bytes moved so far are in the history of
   the disk, and they are what the window shows. It is kept by whatever leaves the segments, the
   bounce pages and the entries of the request in the history alone (`Serving.keep`), and by
   the pieces that its own callback moves (`Serving.piece`). -/
namespace Bius

open Registers (Access Legal play trace)

/-! ## The memory -/

namespace MappedStack

section
variable {S : MappedStack} {c d : Nat}

theorem setView_view (S : MappedStack) (c : Nat) : S.setView c (S.view c) = S := by
  unfold setView view
  simp

theorem view_setView (m : PhysMem) (hp : m.ptes = (S.stack.kernel.conn c).ptes) : (S.setView c m).view c = m := by
  unfold setView view
  simp [← hp]

theorem setView_setView (m m' : PhysMem) : (S.setView c m).setView c m' = S.setView c m' := by
  unfold setView
  simp

theorem setView_others (m : PhysMem) (hd : d ≠ c) :
    (S.setView c m).words d = S.words d ∧ (S.setView c m).bounce d = S.bounce d :=
  ⟨Function.update_of_ne hd _ _, Function.update_of_ne hd _ _⟩

theorem windowOf_eq {vmStart a : Nat} (hvma : (S.stack.kernel.conn c).vma = some vmStart)
    (ha : vmStart ≤ a ∧ a < vmStart + dataMapAreaSize) : S.windowOf c a = some vmStart := by
  unfold windowOf
  rw [hvma]
  simp [ha.1, ha.2]

theorem storeAll_window {vmStart : Nat} {xs : List (Nat × UInt8)} (hvma : (S.stack.kernel.conn c).vma = some vmStart)
    (hin : ∀ x ∈ xs, vmStart ≤ x.1 ∧ x.1 < vmStart + dataMapAreaSize) :
    S.storeAll c xs = S.setView c ((S.view c).storeAll vmStart xs) := by
  induction xs generalizing S with
  | nil => exact (setView_view S c).symm
  | cons x xs ih =>
    have hstore : S.store c x = S.setView c ((S.view c).windowStore vmStart x.1 x.2) := by
      unfold store
      rw [windowOf_eq hvma (hin x (by simp))]
    have hview : (S.store c x).view c = (S.view c).windowStore vmStart x.1 x.2 := by
      rw [hstore]
      exact view_setView _ (windowStore_ptes _ _ _ _)
    calc S.storeAll c (x :: xs) = (S.store c x).storeAll c xs := rfl
      _ = (S.store c x).setView c (((S.store c x).view c).storeAll vmStart xs) :=
          ih (by rw [hstore]; exact hvma) (fun y hy => hin y (List.mem_cons_of_mem _ hy))
      _ = S.setView c ((S.view c).storeAll vmStart (x :: xs)) := by
          rw [hview, hstore, setView_setView]
          rfl

/-- While nothing is mapped, stores change the memory of the process, if anything. -/
theorem storeAll_empty {xs : List (Nat × UInt8)} (hz : (S.stack.kernel.conn c).ptes = fun _ => .zero) :
    ∃ mem, S.storeAll c xs = S.setProc { S.stack.proc with mem := mem } := by
  induction xs generalizing S with
  | nil => exact ⟨S.stack.proc.mem, rfl⟩
  | cons x xs ih =>
    obtain ⟨mem, hstore⟩ : ∃ mem, S.store c x = S.setProc { S.stack.proc with mem := mem } := by
      unfold store
      split
      · next v hv =>
        have hsame : (S.view c).windowStore v x.1 x.2 = S.view c := by
          unfold PhysMem.windowStore
          dsimp only
          rw [show (S.view c).ptes = fun _ => .zero from hz]
        rw [hsame, setView_view]
        exact ⟨S.stack.proc.mem, rfl⟩
      · exact ⟨_, rfl⟩
    obtain ⟨mem', hrest⟩ := @ih (S.store c x) (by rw [hstore]; exact hz)
    refine ⟨mem', ?_⟩
    show (S.store c x).storeAll c xs = _
    rw [hrest, hstore]
    rfl

end

end MappedStack

/-- The data of a request is inside the window, and so is its list. -/
theorem MapLayout.inWindow {r : BiusRequest} {vmStart : Nat} {segs : List Seg} (h : MapLayout r segs vmStart) {va : Nat}
    (hva : va ∈ segAddrs vmStart segs) : vmStart ≤ va ∧ va < vmStart + dataMapAreaSize := by
  obtain ⟨i, s, o, hi, ho, rfl⟩ := mem_segAddrs.1 hva
  have hlt := (List.getElem?_eq_some_iff.1 hi).1
  have hok := (h.ok s (List.mem_of_getElem? hi)).2
  have hwin := h.window
  simp only [dataMapAreaSize, biusPtesPerCommand, biusMaxSizePerCommand, pageSize] at *
  omega

theorem MapLayout.wordInWindow {r : BiusRequest} {vmStart : Nat} {segs : List Seg} (h : MapLayout r segs vmStart) {i : Nat}
    (hi : i ≤ (listEntries vmStart segs).length) :
    vmStart + segs.length * pageSize + 16 * i + 8 < vmStart + dataMapAreaSize := by
  have hwin := h.window
  have hent := h.entries
  simp only [dataMapAreaSize, biusPtesPerCommand, biusMaxSizePerCommand, biusMaxSegments, pageSize] at *
  omega

/-! ## What a loop has of it -/

/-- How far the loop of `c` is with a mapped request that has moved `bytes`. -/
def Stack.Stage (mover : Mover) (s : Stack MappedProc) (c : Nat) (p : Ptr) (vmStart : Nat) (bytes : List UInt8) : Prop :=
  match (s.loop c).point with
  | .handling => ∃ call, s.proc.call c = some call ∧ call.Runs mover (s.kernel.req p) vmStart bytes.length
  | .writing => (s.loop c).u2k.reply = blkStsOk ∧ bytes.length = (s.kernel.req p).length ∨
      (s.loop c).u2k.reply = blkStsIoerr ∧ mover = .syscalls
  | _ => bytes = []

/-- The handlers that run are those of the commands in hand, and their callbacks those of a
    backend that copies. -/
def Stack.Handlers (s : Stack MappedProc) : Prop :=
  ∀ c call, s.proc.call c = some call → (s.loop c).point = .handling ∧ call.k2u = (s.loop c).k2u ∧
    ∀ t, call.callback = some t → t.id = call.k2u.id ∧ (t.op = .read ∨ t.op = .write ∨ t.op = .flush)

theorem Transfer.start_op {mover : Mover} {k2u : K2u} {t : Transfer} (h : Transfer.start mover k2u = some t) :
    t.id = k2u.id ∧ (t.op = .read ∨ t.op = .write ∨ t.op = .flush) := by
  unfold Transfer.start at h
  split at h
  · next hop =>
    cases h
    exact ⟨rfl, Or.inl hop⟩
  · next hop =>
    cases h
    exact ⟨rfl, Or.inr (Or.inl hop)⟩
  · cases h
    exact ⟨rfl, Or.inr (Or.inr rfl)⟩
  · cases h

theorem MappedCall.start_op {mover : Mover} {k2u : K2u} {call : MappedCall} (h : MappedCall.start mover k2u = some call) :
    call.k2u = k2u ∧
      ∀ t, call.callback = some t → t.id = k2u.id ∧ (t.op = .read ∨ t.op = .write ∨ t.op = .flush) := by
  unfold MappedCall.start at h
  split at h
  · cases h
    exact ⟨rfl, fun t ht => (by cases ht)⟩
  · rw [Option.map_eq_some_iff] at h
    obtain ⟨t, ht, rfl⟩ := h
    refine ⟨rfl, fun u hu => ?_⟩
    cases hu
    exact Transfer.start_op ht

section
variable {mover : Mover} {buffer : Nat → Nat} {b : MappedProc}

/-- The handler of the command begins, if the loop is through with reading. -/
def EntersCall (mover : Mover) (c : Nat) (b : MappedProc) (x : Loop × MappedProc) : Prop :=
  x.2.disk = b.disk ∧ x.2.log = b.log ∧ x.1.point ≠ .writing ∧
    (x.1.point = .handling ∧ x.2.call = Function.update b.call c (MappedCall.start mover x.1.k2u) ∨
      x.1.point ≠ .handling ∧ x.2.call = b.call)

theorem copyInFrom_enters (l : Loop) (c n : Nat) (b : MappedProc) :
    EntersCall mover c b (l.copyInFrom (mappedLibrary mover buffer) c n b) := by
  unfold Loop.copyInFrom
  split
  · exact ⟨rfl, rfl, by simp, Or.inr ⟨by simp, rfl⟩⟩
  · exact ⟨rfl, rfl, by simp [Loop.handle], Or.inl ⟨rfl, rfl⟩⟩

theorem command_enters (l : Loop) (c : Nat) (k2u : K2u) (b : MappedProc) :
    EntersCall mover c b (l.command (mappedLibrary mover buffer) c k2u b) := by
  unfold Loop.command
  dsimp only
  split
  · exact copyInFrom_enters _ c 0 b
  · exact ⟨rfl, rfl, by simp [Loop.handle], Or.inl ⟨rfl, rfl⟩⟩

theorem readReturned_enters (l : Loop) (c : Nat) (r : Ret) (b : MappedProc) :
    EntersCall mover c b (l.readReturned (mappedLibrary mover buffer) c r b) := by
  have hstops : ∀ point : Point, point ≠ .writing → point ≠ .handling →
      EntersCall mover c b ({ l with point := point }, b) :=
    fun point hw hh => ⟨rfl, rfl, hw, Or.inr ⟨hh, rfl⟩⟩
  unfold Loop.readReturned
  split
  · split
    · exact hstops _ (by simp) (by simp)
    · exact command_enters l c _ b
  · split
    · exact hstops _ (by simp) (by simp)
    · split
      · exact command_enters l c _ b
      · exact hstops _ (by simp) (by simp)
  · split
    · exact command_enters l c _ b
    · split <;> exact hstops _ (by simp) (by simp)
  · split
    · exact hstops _ (by simp) (by simp)
    · exact copyInFrom_enters l c _ _
  · split <;> exact hstops _ (by simp) (by simp)
  · exact hstops _ (by simp) (by simp)

theorem writeReturned_leaves (l : Loop) (r : Ret) (b : MappedProc) :
    (l.writeReturned (mappedLibrary mover buffer) r b).2 = b ∧
      (l.writeReturned (mappedLibrary mover buffer) r b).1.point ≠ .handling := by
  unfold Loop.writeReturned
  split
  · split
    · exact ⟨rfl, by simp⟩
    · exact ⟨rfl, by simp⟩
  · exact ⟨rfl, by simp⟩

/-! ### A step of the whole -/

variable {s s' : Stack MappedProc} {act : StackAct MappedProc}

/-- What a step does to one loop and its handler. -/
inductive Stack.LoopGoes (mover : Mover) (s s' : Stack MappedProc) (c : Nat) : Prop where
  | same : s'.loop c = s.loop c → s'.proc.call c = s.proc.call c → LoopGoes mover s s' c
  | begins : (s.loop c).point = .starting ∨ (s.loop c).point = .mapping → (s'.loop c).point ≠ .handling →
      s'.proc.call c = s.proc.call c → LoopGoes mover s s' c
  | read (r : Ret) : (s.loop c).point ≠ .writing → s.kernel.call (.user c) = .done r →
    (s'.loop c).point ≠ .writing →
      (s'.loop c).point = .handling ∧ s'.proc.call c = MappedCall.start mover (s'.loop c).k2u ∨
        (s'.loop c).point ≠ .handling ∧ s'.proc.call c = s.proc.call c → LoopGoes mover s s' c
  | replied (call : MappedCall) (status : Nat) : (s.loop c).point = .handling → s.proc.call c = some call →
      call.status = some status → (s'.loop c).point = .writing → (s'.loop c).u2k.reply = status →
        s'.proc.call c = none →
      LoopGoes mover s s' c
  | wrote (r : Ret) : (s.loop c).point = .writing → s.kernel.call (.user c) = .done r →
    (s'.loop c).point ≠ .handling →
      s'.proc.call c = s.proc.call c → LoopGoes mover s s' c

theorem Stack.Goes.disk (h : s.Goes (mappedLibrary mover buffer) s' act) (hnot : ∀ b, act ≠ .process b) :
    s'.proc.log = s.proc.log ∧ s'.proc.disk = s.proc.disk := by
  cases h with
  | inside _ _ hproc | begins _ _ _ _ _ _ hproc =>
    rw [hproc]
    exact ⟨rfl, rfl⟩
  | read c r _ _ _ hproc =>
    obtain ⟨hdisk, hlog, -⟩ := @readReturned_enters mover buffer (s.loop c) c r s.proc
    rw [hproc]
    exact ⟨hlog, hdisk⟩
  | replied c res _ hleave _ hproc =>
    obtain ⟨call, status, -, -, rfl⟩ := mappedLibrary_leave hleave
    rw [hproc]
    exact ⟨rfl, rfl⟩
  | wrote c r _ _ _ hproc =>
    rw [hproc, (writeReturned_leaves _ _ _).1]
    exact ⟨rfl, rfl⟩
  | acts b => exact absurd rfl (hnot b)

theorem Stack.Goes.loop (h : s.Goes (mappedLibrary mover buffer) s' act) (hnot : ∀ b, act ≠ .process b) (c : Nat) :
    s.LoopGoes mover s' c := by
  cases h with
  | inside _ hloop hproc => exact .same (by rw [hloop]) (by rw [hproc])
  | begins _ d point hstart hpoint hloop hproc =>
    by_cases hd : c = d
    · subst hd
      refine .begins hstart ?_ (by rw [hproc])
      rw [hloop, Function.update_self]
      rcases hpoint with hp | hp <;> rw [hp] <;> simp
    · exact .same (by rw [hloop, Function.update_of_ne hd]) (by rw [hproc])
  | read d r hpt hcall hloop hproc =>
    obtain ⟨-, -, hwriting, henters⟩ := @readReturned_enters mover buffer (s.loop d) d r s.proc
    rw [← hproc] at henters
    by_cases hd : c = d
    · subst hd
      have hloopc : s'.loop c = ((s.loop c).readReturned (mappedLibrary mover buffer) c r s.proc).1 := by
        rw [hloop, Function.update_self]
      rw [← hloopc] at hwriting henters
      refine .read r hpt hcall hwriting (henters.imp (fun hin => ⟨hin.1, ?_⟩) (fun hin => ⟨hin.1, by rw [hin.2]⟩))
      rw [hin.2, Function.update_self]
    · refine .same (by rw [hloop, Function.update_of_ne hd]) ?_
      rcases henters with ⟨-, hin⟩ | ⟨-, hin⟩
      · rw [hin, Function.update_of_ne hd]
      · rw [hin]
  | replied d res hpt hleave hloop hproc =>
    obtain ⟨call, status, hcall, hstatus, rfl⟩ := mappedLibrary_leave hleave
    by_cases hd : c = d
    · subst hd
      exact .replied call status hpt hcall hstatus (by rw [hloop, Function.update_self])
        (by rw [hloop, Function.update_self]; rfl) (by rw [hproc]; exact Function.update_self ..)
    · exact .same (by rw [hloop, Function.update_of_ne hd]) (by rw [hproc]; exact Function.update_of_ne hd _ _)
  | wrote d r hpt hcall hloop hproc =>
    obtain ⟨hsame, hpoint⟩ := @writeReturned_leaves mover buffer (s.loop d) r s.proc
    rw [hsame] at hproc
    by_cases hd : c = d
    · subst hd
      exact .wrote r hpt hcall (by rw [hloop, Function.update_self]; exact hpoint) (by rw [hproc])
    · exact .same (by rw [hloop, Function.update_of_ne hd]) (by rw [hproc])
  | acts b => exact absurd rfl (hnot b)

theorem Stack.Handlers.step (h : s.Handlers) (hs : s.Sound (mappedLibrary mover buffer))
    (hgoes : ∀ c, s.LoopGoes mover s' c) :
    s'.Handlers := by
  intro c call hcall
  cases hgoes c with
  | same hloop hsame =>
    rw [hsame] at hcall
    rw [hloop]
    exact h c call hcall
  | begins hpt _ hsame =>
    rw [hsame] at hcall
    rw [(h c call hcall).1] at hpt
    rcases hpt with hp | hp <;> cases hp
  | read r hpt hdone _ henters =>
    rcases henters with ⟨hin, hstart⟩ | ⟨-, hsame⟩
    · rw [hcall] at hstart
      obtain ⟨hk2u, hop⟩ := MappedCall.start_op hstart.symm
      exact ⟨hin, hk2u, by rw [hk2u]; exact hop⟩
    · -- a handler that runs is in no call
      rw [hsame] at hcall
      rw [(hs.handling (h c call hcall).1).1] at hdone
      cases hdone
  | replied _ _ _ _ _ _ _ hnone =>
    rw [hnone] at hcall
    cases hcall
  | wrote r hpt _ _ hsame =>
    rw [hsame] at hcall
    rw [(h c call hcall).1] at hpt
    cases hpt

theorem MappedCall.Runs.alike {r r' : BiusRequest} {vmStart n : Nat} {call : MappedCall} (h : call.Runs mover r vmStart n)
    (ha : r.Alike r') (hk : call.k2u = k2uHeader true vmStart r') : call.Runs mover r' vmStart n := by
  refine ⟨hk, by rw [ha.length]; exact h.through, fun hnone => ?_⟩
  obtain ⟨before, after, hent, hi, hoff, hbetween, hcalled⟩ := h.place hnone
  refine ⟨before, after, by rw [← hent, BiusRequest.segs, ha.rq], hi,
    by rw [ha.pos]; exact hoff, hbetween, fun t ht => ?_⟩
  obtain ⟨a, l, rest, k, hafter, hn, hcov⟩ := hcalled t ht
  exact ⟨a, l, rest, k, hafter, hn, ⟨by rw [ha.id]; exact hcov.id,
    by rw [ha.type]; exact hcov.op, hcov.data, hcov.offset, hcov.length, hcov.moved, hcov.le, hcov.once, hcov.status⟩⟩

/-- A mapped request that stays with its connection: its loop goes on with it. -/
theorem Stack.Stage.step {c : Nat} {p : Ptr} {vmStart : Nat} {bytes : List UInt8} (h : s.Stage mover c p vmStart bytes)
    (hs : s.Sound (mappedLibrary mover buffer)) (hs' : s'.Sound (mappedLibrary mover buffer)) (hh : s.Handlers)
    (hgoes : s.LoopGoes mover s' c) (hp : s.kernel.With c p) (hp' : s'.kernel.MappedAt c p)
    (ha : (s.kernel.req p).Alike (s'.kernel.req p)) (hl : MapLayout (s'.kernel.req p).plain (s'.kernel.req p).segs vmStart)
    (hshows : (s'.kernel.conn c).Shows (s'.kernel.req p) vmStart) (hk : (s'.kernel.req p).ForCopy) :
    s'.Stage mover c p vmStart bytes := by
  have hmaps := (hs'.mapped_iff hp'.held).1 hp'
  have hkind : (s'.kernel.req p).type = .read ∨ (s'.kernel.req p).type = .write := by
    rcases hk.type with ht | ht | ht
    · exact Or.inl ht
    · exact Or.inr ht
    · have hd := hmaps.1
      rw [ht] at hd
      cases hd
  -- the command that is being handled is that of the request
  have hcommand : (s'.loop c).point = .handling → (s'.loop c).k2u = k2uHeader true vmStart (s'.kernel.req p) := by
    intro hpt
    obtain ⟨v, hv, hk2u⟩ := (hs'.served c).command p hpt hp'
    rw [hshows.vma] at hv
    cases hv
    exact hk2u
  cases hgoes with
  | same hloop hsame =>
    unfold Stack.Stage at h ⊢
    rw [hloop]
    generalize hpt : (s.loop c).point = point at h
    cases point with
    | handling =>
      obtain ⟨call, hcall, hruns⟩ := h
      refine ⟨call, by rw [hsame]; exact hcall, hruns.alike ha ?_⟩
      rw [(hh c call hcall).2.1, ← hloop]
      exact hcommand (by rw [hloop]; exact hpt)
    | writing =>
      rw [ha.length]
      exact h
    | _ => exact h
  | begins hpt _ _ =>
    obtain ⟨hstart, hmap⟩ := hs.ready hp
    rcases hpt with hpt | hpt
    · exact absurd hpt hstart
    · exact absurd hpt hmap
  | read r hnot hdone hwriting henters =>
    -- nothing has been moved yet
    have hnil : bytes = [] := by
      unfold Stack.Stage at h
      generalize hpt : (s.loop c).point = point at h hnot
      cases point with
      | handling =>
        rw [(hs.handling hpt).1] at hdone
        cases hdone
      | writing => exact absurd rfl hnot
      | _ => exact h
    subst hnil
    unfold Stack.Stage
    rcases henters with ⟨hpt, hstart⟩ | ⟨hpt, -⟩
    · obtain ⟨call, hcall, hruns⟩ := @MapLayout.start_runs mover _ _ hl hshows.request hkind hk.pos hk.small
      rw [hpt]
      refine ⟨call, ?_, hruns⟩
      rw [hstart, hcommand hpt, hcall]
    · generalize (s'.loop c).point = point at hpt hwriting
      cases point with
      | handling => exact absurd rfl hpt
      | writing => exact absurd rfl hwriting
      | _ => rfl
  | replied call status hpt hcall hstatus hpt' hreply _ =>
    unfold Stack.Stage at h ⊢
    rw [hpt] at h
    rw [hpt', hreply]
    obtain ⟨call', hcall', hruns⟩ := h
    rw [hcall] at hcall'
    cases hcall'
    dsimp only
    rw [ha.length]
    rcases hruns.through status hstatus with ⟨rfl, hn⟩ | ⟨rfl, hsys⟩
    · exact Or.inl ⟨rfl, hn⟩
    · exact Or.inr ⟨rfl, hsys⟩
  | wrote r hpt hdone _ _ => exact absurd hp (hs.written hpt hdone p)

end

/-! ## A request in its window -/

/-- Request `p` is in the window of connection `c`, and has moved `bytes`. -/
structure MappedStack.Serving (mover : Mover) (S : MappedStack) (c : Nat) (p : Ptr) (vmStart : Nat) (bytes : List UInt8) :
    Prop where
  shows : (S.stack.kernel.conn c).Shows (S.stack.kernel.req p) vmStart
  backed : Backed (S.stack.kernel.req p).plain vmStart (S.stack.kernel.req p).segs (S.view c)
  moved : (S.stack.kernel.req p).Moved S.stack.proc.log bytes
  /-- the window of a write shows its data -/
  write : (S.stack.kernel.req p).type = .write →
    (segAddrs vmStart (S.stack.kernel.req p).segs).map ((S.view c).windowByte vmStart) =
      chainBytes (S.stack.kernel.req p).rq
  /-- that of a read what has been read -/
  read : (S.stack.kernel.req p).type = .read →
    SegsDisjoint (S.stack.kernel.req p).segs ∧ CopyInExact vmStart (S.stack.kernel.req p).segs ∧
      ((segAddrs vmStart (S.stack.kernel.req p).segs).take bytes.length).map ((S.view c).windowByte vmStart) = bytes
  stage : S.stack.Stage mover c p vmStart bytes

section
variable {mover : Mover} {S S' : MappedStack} {c : Nat} {p : Ptr} {vmStart : Nat} {bytes : List UInt8}

theorem MappedStack.Serving.keep (h : S.Serving mover c p vmStart bytes)
    (ha : (S.stack.kernel.req p).Alike (S'.stack.kernel.req p))
    (hshows : (S'.stack.kernel.conn c).Shows (S'.stack.kernel.req p) vmStart) (hw : S'.words c = S.words c)
    (hb : S'.bounce c = S.bounce c) (hk : ∀ a, (∃ s ∈ (S.stack.kernel.req p).segs, s.Mem a) → S'.kmem a = S.kmem a)
    (ht : trace (S.stack.kernel.req p).id S'.stack.proc.log = trace (S.stack.kernel.req p).id S.stack.proc.log)
    (hstage : S'.stack.Stage mover c p vmStart bytes) : S'.Serving mover c p vmStart bytes := by
  have hsegs : (S'.stack.kernel.req p).segs = (S.stack.kernel.req p).segs := congrArg rqForEachSegment ha.rq
  have hptes : (S'.view c).ptes = (S.view c).ptes := by
    calc (S'.view c).ptes = Kernel.mapPtes (fun _ => .zero)
          (biusMapData (S'.stack.kernel.req p).plain vmStart (S'.stack.kernel.req p).segs).1 := hshows.ptes
      _ = Kernel.mapPtes (fun _ => .zero) (biusMapData (S.stack.kernel.req p).plain vmStart
          (S.stack.kernel.req p).segs).1 := by
          have hstores : (biusMapData (S'.stack.kernel.req p).plain vmStart (S.stack.kernel.req p).segs).1 =
              (biusMapData (S.stack.kernel.req p).plain vmStart (S.stack.kernel.req p).segs).1 :=
            biusMapData_stores (r := (S.stack.kernel.req p).plain) rfl
              (show (S'.stack.kernel.req p).plain.mapType = .unmapped from rfl) ha.type _ _
          rw [hsegs, hstores]
      _ = (S.view c).ptes := h.shows.ptes.symm
  have hbacked : Backed (S'.stack.kernel.req p).plain vmStart (S.stack.kernel.req p).segs (S'.view c) :=
    h.backed.congr rfl ha.type ha.length hw hptes hb
  have hbyte : ∀ va ∈ segAddrs vmStart (S.stack.kernel.req p).segs,
      (S'.view c).windowByte vmStart va = (S.view c).windowByte vmStart va :=
    fun va hva => h.backed.windowByte_congr hbacked hb hk hva
  refine ⟨hshows, by rw [hsegs]; exact hbacked, ha.moved (h.moved.congr ht), fun hwrite => ?_, fun hread => ?_, hstage⟩
  · rw [ha.type] at hwrite
    rw [hsegs, ha.rq, ← h.write hwrite]
    exact List.map_congr_left hbyte
  · rw [ha.type] at hread
    obtain ⟨hd, hexact, hshown⟩ := h.read hread
    rw [hsegs]
    refine ⟨hd, hexact, Eq.trans ?_ hshown⟩
    exact List.map_congr_left (fun va hva => hbyte va (List.mem_of_mem_take hva))

theorem MappedStack.Serving.begin {s : Stack MappedProc} (hz : (S.stack.kernel.conn c).ptes = fun _ => .zero)
    (hl : MapLayout (S.stack.kernel.req p) (S.stack.kernel.req p).segs vmStart)
    (hread : (S.stack.kernel.req p).type = .read →
      SegsDisjoint (S.stack.kernel.req p).segs ∧ CopyInExact vmStart (S.stack.kernel.req p).segs)
    (hwrite : (S.stack.kernel.req p).type = .write →
      requestBytes S.kmem (S.stack.kernel.req p).segs = chainBytes (S.stack.kernel.req p).rq)
    (ha : (S.stack.kernel.req p).Alike (s.kernel.req p))
    (hshows : (s.kernel.conn c).Shows (s.kernel.req p) vmStart) (ht : trace (S.stack.kernel.req p).id s.proc.log = [])
    (hstage : s.Stage mover c p vmStart []) :
    MappedStack.Serving mover { S.setView c ((S.view c).applyAll
      (biusMapData (S.stack.kernel.req p) vmStart (S.stack.kernel.req p).segs).1) with stack := s } c p vmStart [] := by
  have hsegs : (s.kernel.req p).segs = (S.stack.kernel.req p).segs := congrArg rqForEachSegment ha.rq
  have hstores : (biusMapData (s.kernel.req p).plain vmStart (S.stack.kernel.req p).segs).1 =
      (biusMapData (S.stack.kernel.req p) vmStart (S.stack.kernel.req p).segs).1 :=
    biusMapData_stores hl.unmapped (show (s.kernel.req p).plain.mapType = .unmapped from rfl) ha.type vmStart _
  generalize hm : (S.view c).applyAll (biusMapData (S.stack.kernel.req p) vmStart (S.stack.kernel.req p).segs).1 = m
  have hptes : (s.kernel.conn c).ptes = m.ptes := by
    have hempty : (S.view c).ptes = fun _ => .zero := hz
    rw [hshows.ptes, ← hm, applyAll_ptes, hempty]
    show Kernel.mapPtes _ (biusMapData (s.kernel.req p).plain vmStart (s.kernel.req p).segs).1 = _
    rw [hsegs, hstores]
  have hview : ({ S.setView c m with stack := s } : MappedStack).view c = m := by
    unfold MappedStack.view MappedStack.setView
    simp only [Function.update_self]
    rw [hptes]
  have hbacked : Backed (S.stack.kernel.req p) vmStart (S.stack.kernel.req p).segs m := by
    rw [← hm]
    exact hl.backed hz
  have hflush : (s.kernel.req p).Moved s.proc.log [] :=
    ⟨by rw [ha.id]; exact ht, Nat.zero_le _, fun _ => rfl, fun _ => rfl⟩
  refine ⟨hshows, ?_, hflush, fun hw => ?_, fun hr => ?_, hstage⟩
  · rw [hview, hsegs]
    exact hbacked.congr rfl ha.type ha.length rfl rfl rfl
  · rw [hview, hsegs, ha.rq]
    rw [ha.type] at hw
    rw [← hwrite hw, ← hm]
    exact hl.shows_data (by rw [hw]; rfl)
  · rw [ha.type] at hr
    rw [hsegs]
    exact ⟨(hread hr).1, (hread hr).2, rfl⟩

/-! ### A piece of it -/

theorem MappedStack.storeAll_stack (S : MappedStack) (c : Nat) (xs : List (Nat × UInt8)) :
    ∃ mem, (S.storeAll c xs).stack = { S.stack with proc := { S.stack.proc with mem := mem } } := by
  induction xs generalizing S with
  | nil => exact ⟨S.stack.proc.mem, rfl⟩
  | cons x xs ih =>
    obtain ⟨mem, hstore⟩ : ∃ mem, (S.store c x).stack =
      { S.stack with proc := { S.stack.proc with mem := mem } } := by
      unfold MappedStack.store
      split
      · exact ⟨S.stack.proc.mem, rfl⟩
      · exact ⟨_, rfl⟩
    obtain ⟨mem', hrest⟩ := ih (S.store c x)
    exact ⟨mem', hrest.trans (by rw [hstore])⟩

theorem MappedStack.piece_stack (S : MappedStack) (c n : Nat) (call : MappedCall) (t : Transfer) :
    (S.piece c call t n).stack.kernel = S.stack.kernel ∧ (S.piece c call t n).stack.loop = S.stack.loop ∧
      (S.piece c call t n).stack.proc.call = Function.update S.stack.proc.call c
        (some { call with callback := some { t with moved := t.moved + (S.next c t n).length } }) ∧
      (S.piece c call t n).stack.proc.log = S.stack.proc.log ++
        Registers.range t.id (t.op == .write) (t.offset + (t.size + t.moved)) (S.next c t n) ∧
      (S.piece c call t n).stack.proc.disk = if t.op = .read then S.stack.proc.disk
        else Bytes.splice S.stack.proc.disk (t.offset + (t.size + t.moved)) (S.next c t n) := by
  unfold MappedStack.piece
  dsimp only
  split
  · obtain ⟨mem, hstack⟩ := MappedStack.storeAll_stack S c ((MappedStack.addrs t n).zip (S.next c t n))
    simp only [MappedStack.setProc, MappedStack.moved, hstack]
    exact ⟨trivial, trivial, trivial, trivial, by simp [*]⟩
  · exact ⟨rfl, rfl, rfl, rfl, by simp [MappedStack.setProc, MappedStack.moved, *]⟩

theorem MappedStack.next_length (S : MappedStack) (c n : Nat) (t : Transfer) : (S.next c t n).length = n := by
  unfold MappedStack.next
  split
  · exact Bytes.slice_length _ _ _
  · simp [MappedStack.addrs]

theorem MappedStack.piece_trace (S : MappedStack) (c n : Nat) (call : MappedCall) (t : Transfer) (i : Nat) :
    trace i (S.piece c call t n).stack.proc.log = if t.id = i then trace i S.stack.proc.log ++
      Registers.range t.id (t.op == .write) (t.offset + (t.size + t.moved)) (S.next c t n)
        else trace i S.stack.proc.log := by
  rw [(S.piece_stack c n call t).2.2.2.1]
  exact Registers.trace_range i t.id S.stack.proc.log _ _ _

theorem MappedStack.piece_disk {disk : Nat → UInt8} {n : Nat} {call : MappedCall} {t : Transfer}
    (hlegal : Legal disk S.stack.proc.log) (hdisk : S.stack.proc.disk = play disk S.stack.proc.log)
    (hkind : t.op = .read ∨ t.op = .write) : Legal disk (S.piece c call t n).stack.proc.log ∧
      (S.piece c call t n).stack.proc.disk = play disk (S.piece c call t n).stack.proc.log := by
  obtain ⟨-, -, -, hlog', hdisk'⟩ := S.piece_stack c n call t
  have hread : (t.op == .write) = false →
      S.next c t n = Bytes.slice S.stack.proc.disk (t.offset + (t.size + t.moved)) (S.next c t n).length := by
    intro hnot
    have ht : t.op = .read := hkind.resolve_right (fun hw => by rw [hw] at hnot; cases hnot)
    unfold MappedStack.next
    rw [if_pos ht, Bytes.slice_length]
  obtain ⟨hlegal', hplay⟩ := Registers.legal_range hlegal hdisk t.id (t.op == .write) _ hread
  rw [hlog', hdisk']
  refine ⟨hlegal', Eq.trans ?_ hplay⟩
  rcases hkind with ht | ht <;> simp [ht]

/-- The bytes of a request that is copied out of its window, or into it. -/
theorem BiusRequest.Moved.piece {r : BiusRequest} {log log' : List (Access Nat Nat UInt8)} {bytes more : List UInt8}
    (h : r.Moved log bytes) (hkind : r.type ≠ .flush)
    (ht : Registers.trace r.id log' = Registers.trace r.id log ++ Registers.range r.id (r.type == .write)
      (r.pos.toNat + bytes.length) more)
    (hle : bytes.length + more.length ≤ r.length)
    (hw : r.type = .write → more = ((chainBytes r.rq).drop bytes.length).take more.length) :
      r.Moved log' (bytes ++ more) := by
  refine ⟨?_, by rw [List.length_append]; exact hle, fun hwrite => ?_, fun hf => absurd hf hkind⟩
  · rw [ht, h.trace, ← Registers.range_append]
  · rw [List.length_append, List.take_add, ← hw hwrite, ← h.write hwrite]

/-- **Its callback moves a piece**: through the window, from where the last piece ended. -/
theorem MappedStack.Serving.piece {n : Nat} {call : MappedCall} {t : Transfer} (h : S.Serving mover c p vmStart bytes)
    (hk : (S.stack.kernel.req p).type = .read ∨ (S.stack.kernel.req p).type = .write)
    (hpt : (S.stack.loop c).point = .handling) (hcall : S.stack.proc.call c = some call) (hnone : call.status = none)
    (ht : call.callback = some t) (hnot : t.status = none) (hfit : t.size + t.moved + n ≤ t.length) :
    (S.piece c call t n).Serving mover c p vmStart (bytes ++ S.next c t n) ∧
      (∀ a, (S.piece c call t n).kmem a ≠ S.kmem a → (S.stack.kernel.req p).type = .read ∧
        ∃ s ∈ (S.stack.kernel.req p).segs, s.Mem a) ∧
      ∀ d, d ≠ c → (S.piece c call t n).words d = S.words d ∧ (S.piece c call t n).bounce d = S.bounce d := by
  have hl := h.backed.layout
  have hstage := h.stage
  unfold Stack.Stage at hstage
  rw [hpt] at hstage
  obtain ⟨call', hcall', hruns⟩ := hstage
  rw [hcall] at hcall'
  cases hcall'
  obtain ⟨haddrs, hoffset, hle, hid, hop⟩ := hruns.next hl hnone ht hfit
  have hlength := S.next_length c n t
  obtain ⟨hkernel, hloop, hcall', -, -⟩ := S.piece_stack c n call t
  have htrace := S.piece_trace c n call t t.id
  rw [if_pos rfl, hid, hop, hoffset] at htrace
  -- the loop goes on in the handler
  have hstage' : (S.piece c call t n).stack.Stage mover c p vmStart (bytes ++ S.next c t n) := by
    unfold Stack.Stage
    rw [hloop, hpt, hkernel, hcall', Function.update_self]
    refine ⟨_, rfl, ?_⟩
    rw [List.length_append]
    apply hruns.callback hnone ht
    intro a off l m hcov
    exact hcov.piece hnot (by rw [hlength]; exact hfit)
  have hin : ∀ va ∈ MappedStack.addrs t n, va ∈ segAddrs vmStart (S.stack.kernel.req p).segs := by
    intro va hva
    rw [haddrs] at hva
    exact List.mem_of_mem_drop (List.mem_of_mem_take hva)
  have hinside : ∀ va ∈ MappedStack.addrs t n, vmStart ≤ va ∧ va < vmStart + dataMapAreaSize :=
      fun va hva => hl.inWindow (hin va hva)
  rcases hk with hread | hwrite
  · -- a read: the bytes are stored to the window
    obtain ⟨hd, hexact, hshown⟩ := h.read hread
    have hpiece : S.piece c call t n = (S.setView c
        ((S.view c).storeAll vmStart ((MappedStack.addrs t n).zip (S.next c t n)))).setProc
        (MappedStack.moved S.stack.proc c call t (S.next c t n)) := by
      unfold MappedStack.piece
      dsimp only
      rw [if_pos (hop.trans hread), MappedStack.storeAll_window h.shows.vma
        (fun x hx => hinside x.1 (List.of_mem_zip hx).1)]
      rfl
    obtain ⟨hbacked, hstored, hothers, hrest⟩ := h.backed.storeAll hd hin
      (haddrs ▸ (((segAddrs_nodup hl.ok).sublist (List.drop_sublist ..)).sublist (List.take_sublist ..)))
      (by rw [hlength]; simp [MappedStack.addrs])
    have hview : (S.piece c call t n).view c = (S.view c).storeAll vmStart
        ((MappedStack.addrs t n).zip (S.next c t n)) := by
      rw [hpiece]
      exact MappedStack.view_setView (S := S) _ (hbacked.ptes.trans h.shows.ptes.symm)
    refine ⟨⟨by rw [hkernel]; exact h.shows, by
      rw [hview, hkernel]; exact hbacked, ?_, fun hw => ?_, fun _ => ?_, hstage'⟩,
      fun a ha => ⟨hread, ?_⟩, fun d hd => by rw [hpiece]; exact MappedStack.setView_others _ hd⟩
    · rw [hkernel]
      exact h.moved.piece (by rw [hread]; decide) htrace (by rw [hlength]; exact hle)
        (fun hw => by rw [hread] at hw; cases hw)
    · rw [hkernel, hread] at hw
      cases hw
    · rw [hkernel, hview]
      refine ⟨hd, hexact, ?_⟩
      rw [List.length_append, hlength, List.take_add, List.map_append, ← haddrs, hstored]
      congr 1
      calc ((segAddrs vmStart (S.stack.kernel.req p).segs).take bytes.length).map
            (((S.view c).storeAll vmStart ((MappedStack.addrs t n).zip (S.next c t n))).windowByte vmStart)
          = ((segAddrs vmStart (S.stack.kernel.req p).segs).take bytes.length).map ((S.view c).windowByte vmStart) := by
            apply List.map_congr_left
            intro va hva
            apply hothers va (List.mem_of_mem_take hva)
            intro hva'
            -- what has been read lies before
            rw [haddrs] at hva'
            have hnodup : (segAddrs vmStart (S.stack.kernel.req p).segs).Nodup := segAddrs_nodup hl.ok
            rw [← List.take_append_drop bytes.length (segAddrs vmStart (S.stack.kernel.req p).segs)] at hnodup
            exact (List.nodup_append.1 hnodup).2.2 va hva va (List.mem_of_mem_take hva') rfl
        _ = bytes := hshown
    · by_contra hnone
      apply ha
      rw [hpiece]
      exact hrest a (fun s hs hmem => hnone ⟨s, hs, hmem⟩)
  · -- a write: they are loaded from it
    have hpiece : S.piece c call t n = S.setProc (MappedStack.moved S.stack.proc c call t (S.next c t n)) := by
      unfold MappedStack.piece
      dsimp only
      rw [if_neg (by rw [hop, hwrite]; decide)]
    have hnext : S.next c t n = ((chainBytes (S.stack.kernel.req p).rq).drop bytes.length).take n := by
      unfold MappedStack.next
      rw [if_neg (by rw [hop, hwrite]; decide), ← h.write hwrite, ← List.map_drop, ← List.map_take, ← haddrs]
      apply List.map_congr_left
      intro va hva
      unfold MappedStack.load
      rw [MappedStack.windowOf_eq h.shows.vma (hinside va hva)]
    refine ⟨⟨by rw [hkernel]; exact h.shows, by
      rw [hpiece]; exact h.backed, ?_, fun _ => by rw [hpiece]; exact h.write hwrite,
      fun hr => ?_, hstage'⟩, fun a ha => absurd (by rw [hpiece]; rfl) ha,
        fun d hd => by rw [hpiece]; exact ⟨rfl, rfl⟩⟩
    · rw [hkernel]
      exact h.moved.piece (by rw [hwrite]; decide) htrace (by rw [hlength]; exact hle)
        (fun _ => by rw [hlength]; exact hnext)
    · rw [hkernel, hwrite] at hr
      cases hr

end

end Bius
