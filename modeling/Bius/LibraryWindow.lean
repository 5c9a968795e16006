import Bius.StackProgress
import Bius.Unmapping
import Bius.WindowSharing

/- The window of a connection that the library serves (CONFIG_BIUS_DATAMAP build). The
   kernel module by itself lets a second request be mapped over the first, takes requests
   for a connection without a window, and forgets mapped pages when a command cannot be
   sent. A loop of the library maps its window before its first read, reads whole commands,
   and reads the next one only after the reply to the last, so none of this happens to it:
   at most one request is with a connection, its window is there, and the page table shows
   the data of that request, or nothing (`library_window`).

   `WindowServed` is the invariant of one connection. A step elsewhere does not touch it
   (`step_with_iff`, `step_with_req`, `step_conn`); for the steps of the own loop `Framed`
   says which call the kernel module is in. -/
namespace Bius

/-! ## What a window shows -/

/-- The mapping of a request as `bius_map_data` makes it when the request is new. -/
def BiusRequest.mapping (r : BiusRequest) (vmStart : Nat) : List MapEffect × BiusRequest :=
  biusMapData { r with mapType := .unmapped } vmStart (rqForEachSegment r.rq)

/-- The window of `x`, mapped at `vmStart`, shows the data of `r` and nothing else: its
    entries are those that `bius_map_data` leaves in an empty window, and `r` is the
    request as `bius_map_data` has left it. -/
structure Connection.Shows (x : Connection) (r : BiusRequest) (vmStart : Nat) : Prop where
  vma : x.vma = some vmStart
  request : (r.mapping vmStart).2 = r
  ptes : x.ptes = Kernel.mapPtes (fun _ => .zero) (r.mapping vmStart).1

section
variable {r : BiusRequest} {vmStart : Nat}

/-- Mapping overwrites what an earlier mapping has left in the request. -/
theorem mapping_again (hr : r.mapType = .unmapped)
    (hm : (biusMapData r vmStart (rqForEachSegment r.rq)).2.mapType ≠ .unmapped) :
    (biusMapData r vmStart (rqForEachSegment r.rq)).2.mapping vmStart = biusMapData r vmStart (rqForEachSegment r.rq) := by
  obtain ⟨mapType, mapData, mappedSize, hkeeps⟩ := biusMapData_keeps r vmStart (rqForEachSegment r.rq)
  rw [hkeeps]
  simp only [BiusRequest.mapping, biusMapData, hr, bne_self_eq_false, Bool.false_eq_true, if_false] at hm ⊢
  split
  · rfl
  · next hone =>
    rw [if_neg hone] at hm
    split
    · rfl
    · next hzero =>
      rw [if_neg hzero] at hm
      exact absurd rfl hm

/-- `bius_unmap_data` clears a window that shows the request. -/
theorem Connection.Shows.unmapped {x : Connection} (h : x.Shows r vmStart) (hm : r.mapType ≠ .unmapped) (i : Nat) :
    Kernel.mapPtes x.ptes (biusUnmapData r vmStart).1 i = .zero := by
  by_contra hne
  obtain ⟨hbeyond, hset, -⟩ := unmapData_ptes hm vmStart x.ptes (fun _ => none) i hne
  obtain ⟨n, hsize, hpages⟩ : ∃ n, (r.mapping vmStart).2.mappedSize = pageSize * n ∧
      setPtes (r.mapping vmStart).1 = List.range n := biusMapData_pages rfl vmStart _
  rw [h.request] at hsize
  have hn : r.mappedSize / pageSize = n := by rw [hsize, Nat.mul_div_cancel_left n (by decide)]
  apply hset
  rw [h.ptes]
  apply mapPtes_of_not_mem
  rw [hpages, List.mem_range]
  omega

end

/-! ## One connection -/

/-- What holds of the window of connection `c`. -/
structure Kernel.WindowExact (s : Kernel) (c : Nat) : Prop where
  shown : ∀ p, s.MappedAt c p → ∃ vmStart, (s.conn c).Shows (s.req p) vmStart
  empty : (∀ p, ¬ s.MappedAt c p) → (s.conn c).ptes = fun _ => .zero

section
variable {cfg : Config} {s s' : Kernel} {c : Nat}

theorem Kernel.WindowExact.congr (h : s.WindowExact c) (hwith : ∀ p, s'.With c p ↔ s.With c p)
    (hreq : ∀ p, s.With c p → s'.req p = s.req p) (hptes : (s'.conn c).ptes = (s.conn c).ptes)
    (hvma : (s'.conn c).vma = (s.conn c).vma) : s'.WindowExact c := by
  have hmapped : ∀ p, s'.MappedAt c p ↔ s.MappedAt c p := by
    intro p
    constructor
    · intro hp
      have hw := (hwith p).1 hp.held
      exact ⟨by rw [← hreq p hw]; exact hp.blk, by rw [← hreq p hw]; exact hp.mapped, hw⟩
    · intro hp
      exact ⟨by rw [hreq p hp.held]; exact hp.blk, by rw [hreq p hp.held]; exact hp.mapped, (hwith p).2 hp.held⟩
  constructor
  · intro p hp
    obtain ⟨vmStart, hshows⟩ := h.shown p ((hmapped p).1 hp)
    refine ⟨vmStart, ?_⟩
    rw [hreq p ((hwith p).1 hp.held)]
    exact ⟨hvma.trans hshows.vma, hshows.request, hptes.trans hshows.ptes⟩
  · intro hnone
    rw [hptes]
    exact h.empty (fun p hp => hnone p ((hmapped p).2 hp))

/-- Nothing is mapped, and the window is as it was when nothing was. -/
theorem Kernel.WindowExact.of_empty (hnone : ∀ p, ¬ s.MappedAt c p) (hzero : (s.conn c).ptes = fun _ => .zero) :
    s.WindowExact c :=
  ⟨fun p hp => absurd hp (hnone p), fun _ => hzero⟩

theorem step_with_iff {act : Act} (h : step cfg s act = some s') (hc : act.connection s ≠ some c) (p : Ptr) :
    s'.With c p ↔ s.With c p := by
  constructor
  · intro hp
    rcases step_with h hp with hold | ⟨t, ps, rfl, ht, -⟩
    · exact hold
    · exact absurd (by simp [Act.connection, ht, Call.connection]) hc
  · intro hp
    have hcall : ∀ t, (s.call t).connection = some c → (s.call t).held = some p → s'.call t = s.call t := by
      intro t hconn hheld
      refine step_call h (fun htid => ?_)
      -- the thread is in a call on `c`, and so is its step
      cases step_cases h with
      | queueRq u q rq ht | reportZones u q _ _ _ ht | readStart u d size cuts ht | writeStart u d size n header ht =>
        cases htid
        rw [ht] at hheld
        cases hheld
      | insert u q ht | zonesWake u q junk cb ht | readInterrupt u d e ht | ret u r ht | readTake u d q ps ht =>
        cases htid
        rw [ht] at hheld
        cases hheld
      | readSend u d q n ht => cases htid; exact hc hconn
      | writeEnd u d q header n umem ht => cases htid; exact hc hconn
      | attach | mmap => cases htid
    rcases hp with hp | ⟨t, ht⟩ | ⟨t, header, n, ht⟩
    · exact Or.inl (by rw [step_conn h hc]; exact hp)
    · exact Or.inr (Or.inl ⟨t, (hcall t (by rw [ht]; rfl) (by rw [ht]; rfl)).trans ht⟩)
    · exact Or.inr (Or.inr ⟨t, header, n, (hcall t (by rw [ht]; rfl) (by rw [ht]; rfl)).trans ht⟩)

theorem Kernel.WindowExact.elsewhere {act : Act} (hp : s.Placed) (hw : s.WindowExact c) (h : step cfg s act = some s')
    (hc : act.connection s ≠ some c) : s'.WindowExact c := by
  obtain ⟨loc, hl⟩ := hp.located
  have hconn := step_conn h hc
  exact hw.congr (step_with_iff h hc) (fun p hp => step_with_req hl h hp hc) (by rw [hconn]) (by rw [hconn])

end

/-- Only the loop of a connection is in a call on it. -/
def Kernel.OwnCalls (s : Kernel) : Prop := ∀ t c, (s.call t).connection = some c → t = .user c

section
variable {cfg : Config} {s s' : Kernel} {c : Nat} {p : Ptr}

theorem Kernel.OwnCalls.with_iff (h : s.OwnCalls) : s.With c p ↔
    p ∈ (s.conn c).waiting ∨ s.call (.user c) = .readTaken c p ∨
      ∃ header n, s.call (.user c) = .replied c p header n := by
  constructor
  · intro hp
    rcases hp with hw | ⟨t, ht⟩ | ⟨t, header, n, ht⟩
    · exact Or.inl hw
    · obtain rfl := h t c (by rw [ht]; rfl)
      exact Or.inr (Or.inl ht)
    · obtain rfl := h t c (by rw [ht]; rfl)
      exact Or.inr (Or.inr ⟨header, n, ht⟩)
  · intro hp
    rcases hp with hw | ht | ⟨header, n, ht⟩
    · exact Or.inl hw
    · exact Or.inr (Or.inl ⟨_, ht⟩)
    · exact Or.inr (Or.inr ⟨_, header, n, ht⟩)

end

section
variable {cfg : Config} {s s' : Kernel} {c : Nat}

theorem writeEnd_value {t : Tid} {p : Ptr} {header : U2k} {n : Nat} {umem : UMem}
    (h : s.writeEnd cfg t c p header n umem = some s') : ∃ v, s'.call t = .done (.value v) := by
  unfold Kernel.writeEnd at h
  dsimp only at h
  split at h
  · split at h
    · split at h
      · cases h
        exact ⟨_, by simp; rfl⟩
      · exact ⟨n, (finishBlk_returns h).1⟩
    · exact ⟨n, (finishBlk_returns h).1⟩
  · split at h
    · cases h
      exact ⟨n, by simp⟩
    · split at h <;>
      · cases h
        exact ⟨n, by simp⟩

end

/-! ## The calls of a loop -/

section
variable {s s' : Kernel} {c : Nat}

/-- The window of a connection that nothing has been taken for shows nothing. -/
theorem Kernel.WindowExact.zero (h : s.WindowExact c) (hnone : ∀ p, s.With c p → (s.req p).mapType = .unmapped) :
    (∀ p, ¬ s.MappedAt c p) ∧ (s.conn c).ptes = fun _ => .zero := by
  have hno : ∀ p, ¬ s.MappedAt c p := fun p hp => hp.mapped (hnone p hp.held)
  exact ⟨hno, h.empty hno⟩

theorem Kernel.WindowExact.take (h : s.WindowExact c) (hnone : ∀ p, ¬ s.With c p) (hready : (s.conn c).Ready ⟨true⟩)
    (hfresh : ∀ p, s.OnTheWay p → (s.req p).Untaken) {t : Tid} (ht : s.call t = .readWait c)
    (hs : step ⟨true⟩ s (.readTake t) = some s') : s'.WindowExact c := by
  have hzero := (h.zero (fun p hp => absurd hp (hnone p))).2
  have hwith : ∀ q, s'.With c q → ∃ ps, s.pending = q :: ps := by
    intro q hq
    rcases step_with hs hq with hold | ⟨t, ps, -, -, hps⟩
    · exact absurd hold (hnone q)
    · exact ⟨ps, hps⟩
  cases step_cases hs with
  | readTake t d p ps ht' hps hprep =>
    rw [ht] at ht'
    cases ht'
    have hself : ∀ q, s'.With c q → q = p := by
      intro q hq
      obtain ⟨ps', hq⟩ := hwith q hq
      rw [hps] at hq
      cases hq
      rfl
    have hun : (s.req p).Untaken := hfresh p (Or.inl (by simp [hps]))
    obtain ⟨vmStart, hvma⟩ := hready.window rfl
    unfold Kernel.prepare at hprep
    dsimp only at hprep
    split at hprep
    · next hdata =>
      rw [Bool.and_eq_true] at hdata
      have hunmapped := hun.unmapped (isBlkRequest_of_mayHaveData hdata.1)
      split at hprep
      · -- its data are mapped into the empty window
        rw [hvma, Option.map_some, Option.some.injEq] at hprep
        have hreq : s'.req p = (biusMapData (s.req p) vmStart (rqForEachSegment (s.req p).rq)).2 := by
          rw [← hprep]
          simp [Kernel.mapData]
        have hconn : (s'.conn c).vma = some vmStart ∧ (s'.conn c).ptes =
            Kernel.mapPtes (fun _ => .zero) (biusMapData (s.req p) vmStart (rqForEachSegment (s.req p).rq)).1 := by
          rw [← hprep]
          simp [Kernel.mapData, hvma, hzero]
        obtain ⟨_, _, _, hkeeps⟩ := biusMapData_keeps (s.req p) vmStart (rqForEachSegment (s.req p).rq)
        constructor
        · intro q hq
          obtain rfl := hself q hq.held
          have hm := hq.mapped
          rw [hreq] at hm
          have hagain := mapping_again hunmapped hm
          rw [← hreq] at hagain
          refine ⟨vmStart, hconn.1, ?_, ?_⟩
          · rw [hagain, hreq]
          · rw [hagain]
            exact hconn.2
        · intro hno
          rw [hconn.2]
          -- without a segment nothing is stored
          by_cases hm : (s'.req p).mapType = .unmapped
          · funext i
            rw [mapPtes_of_not_mem]
            intro hi
            obtain ⟨f, hf⟩ := mem_setPtes.1 hi
            rw [hreq] at hm
            exact (biusMapData_setPte hf).1 hm
          · refine absurd ⟨?_, hm, Or.inr (Or.inl ⟨t, ?_⟩)⟩ (hno p)
            · rw [hreq, hkeeps]
              exact isBlkRequest_of_mayHaveData hdata.1
            · rw [← hprep]
              simp [Kernel.mapData]
      · -- they will be sent, or received
        have hkeep : (s'.req p).mapType = .unmapped ∧ (s'.conn c).ptes = fun _ => .zero := by
          split at hprep
          · cases hprep
            exact ⟨by simpa [Kernel.sendLater] using hunmapped, by simpa [Kernel.sendLater] using hzero⟩
          · cases hprep
            exact ⟨hunmapped, hzero⟩
        refine .of_empty (fun q hq => ?_) hkeep.2
        obtain rfl := hself q hq.held
        exact hq.mapped hkeep.1
    · cases hprep
      refine .of_empty (fun q hq => ?_) hzero
      obtain rfl := hself q hq.held
      exact hq.mapped (hun.unmapped hq.blk)

/-- A step that takes nothing, while no data are shown, and that shows none. -/
theorem Kernel.WindowExact.idle_step {loc : Ptr → Life.Loc} (hl : Life.Located loc s.life) (h : s.WindowExact c)
    (hnone : ∀ p, ¬ s.MappedAt c p) {act : Act} (hs : step ⟨true⟩ s act = some s')
    (hact : ∀ t, act ≠ .readTake t) (hptes : ∀ i, (s'.conn c).ptes i ≠ .zero →
      (s.conn c).ptes i ≠ .zero) : s'.WindowExact c := by
  refine .of_empty (fun p hp => ?_) (funext fun i => ?_)
  · rcases step_with hs hp.held with hw | ⟨t, -, he, -⟩
    · have hrw := step_rewritten hs p
      rw [with_busy hl hw] at hrw
      exact hnone p ⟨by rw [← hrw.type_eq]; exact hp.blk, step_mapType hl hs hw hp.mapped, hw⟩
    · exact hact t he
  · by_contra hne
    apply hptes i hne
    rw [h.empty hnone]

theorem Kernel.WindowExact.send (h : s.WindowExact c) {t : Tid} {p : Ptr} (ht : s.call t = .readTaken c p)
    (hsole : ∀ q, s.With c q → q = p) {n : Nat} (hn : n ≠ 0) (hs : step ⟨true⟩ s (.readSend t n) = some s') :
    s'.WindowExact c := by
  have hwith : ∀ q, s'.With c q → s.With c q := by
    intro q hq
    rcases step_with hs hq with hold | ⟨u, -, hact, -⟩
    · exact hold
    · cases hact
  cases step_cases hs with
  | readSend t d q n ht' =>
    rw [ht] at ht'
    cases ht'
    unfold Kernel.readSend at hwith ⊢
    rw [if_neg hn] at hwith ⊢
    refine h.congr (fun q => ⟨hwith q, fun hq => Or.inl ?_⟩) (fun q _ => rfl) (by simp) (by simp)
    rw [hsole q hq]
    simp

theorem Kernel.WindowExact.write (h : s.WindowExact c) (hsole : ∀ p q, s.With c p → s.With c q → p = q) {t : Tid}
    {size n : Nat} {header : U2k} (hs : step ⟨true⟩ s (.writeStart t c size n header) = some s') :
      s'.WindowExact c := by
  have hwith : ∀ q, s'.With c q → s.With c q := by
    intro q hq
    rcases step_with hs hq with hold | ⟨u, -, hact, -⟩
    · exact hold
    · cases hact
  cases step_cases hs with
  | writeStart t d size n header ht hatt =>
    rcases writeStart_cases s t c size n header with ⟨v, heq⟩ | ⟨p, hp, heq⟩
    · rw [heq] at hwith ⊢
      refine h.congr (fun q => ⟨hwith q, fun hq => ?_⟩) (fun q _ => rfl) rfl rfl
      show (s.setCall t (.done (.value v))).With c q
      refine with_keep hq id ?_
      intro u hu
      have hne : u ≠ t := by
        rintro rfl
        rw [ht] at hu
        cases hu
      exact Function.update_of_ne hne _ _
    · rw [heq] at hwith ⊢
      refine h.congr (fun q => ⟨hwith q, fun hq => ?_⟩) (fun q _ => rfl) (by simp) (by simp)
      rw [hsole q p hq (Or.inl hp)]
      exact Or.inr (Or.inr ⟨t, header, _, by simp; rfl⟩)

theorem writeEnd_unmaps {t : Tid} {p : Ptr} {header : U2k} {n : Nat} {umem : UMem}
    (hb : isBlkRequest (s.req p).type = true) (hlong : biusMapDataThreshold < (s.req p).length)
    (h : s.writeEnd ⟨true⟩ t c p header n umem = some s') : ∃ vmStart, (s.conn c).vma = some vmStart ∧
      (s'.conn c).ptes = Kernel.mapPtes (s.conn c).ptes (biusUnmapData (s.req p) vmStart).1 := by
  have hfin : ∀ s₁ : Kernel, (Kernel.setCall (Kernel.endBlkRequest (if (s₁.req p).type = .zoneAppend then
      s₁.setReq p { s₁.req p with pos := toInt64 header.userData } else s₁) p header.reply) t
      (.done (.value n))).conn = s₁.conn := by
    intro s₁
    split <;> rfl
  unfold Kernel.writeEnd at h
  rw [if_pos hb, if_neg (fun hcopy => by have := hcopy.2.2 rfl; omega)] at h
  unfold Kernel.finishBlk at h
  dsimp only at h
  rw [if_pos rfl, Option.map_eq_some_iff] at h
  obtain ⟨vmStart, hvma, rfl⟩ := h
  refine ⟨vmStart, hvma, ?_⟩
  rw [hfin]
  simp

theorem Kernel.WindowExact.reply {loc : Ptr → Life.Loc} (hl : Life.Located loc s.life) (h : s.WindowExact c) {p : Ptr}
    (hsole : ∀ q, s.With c q → q = p) (ho : (s.req p).Offered ⟨true⟩) {t : Tid} {header : U2k} {n : Nat}
    (ht : s.call t = .replied c p header n) {umem : UMem} (hs : step ⟨true⟩ s (.writeEnd t umem) = some s')
    (hgone : ∀ q, ¬ s'.With c q) : s'.WindowExact c := by
  cases step_cases hs with
  | writeEnd t d q header' n' umem ht' hend =>
    rw [ht] at ht'
    cases ht'
    have hlong : isBlkRequest (s.req p).type = true → (s.req p).mapType ≠ .unmapped →
        biusMapDataThreshold < (s.req p).length := by
      intro hb hm
      have hmap : (s.req p).isMapped ⟨true⟩ = true := by
        cases hmap : (s.req p).isMapped ⟨true⟩ with
        | true => rfl
        | false => exact absurd ((ho.mapType hb).2 hmap) hm
      simp only [BiusRequest.isMapped, Bool.and_eq_true, decide_eq_true_eq] at hmap
      exact hmap.2
    by_cases hm : s.MappedAt c p
    · obtain ⟨vmStart, hshows⟩ := h.shown p hm
      obtain ⟨vmStart', hvma, hptes⟩ := writeEnd_unmaps hm.blk (hlong hm.blk hm.mapped) hend
      rw [hshows.vma] at hvma
      cases hvma
      refine .of_empty (fun q hq => hgone q hq.held) (funext fun i => ?_)
      rw [hptes]
      exact hshows.unmapped hm.mapped i
    · refine h.idle_step hl (fun q hq => ?_) hs (by simp) (fun i hne => (writeEnd_window hlong hend hne).1)
      have := hsole q hq.held
      exact hm (this ▸ hq)

end

/-! ## All connections -/

/-- The call of the kernel module that a step of the whole makes. -/
inductive Stack.Moves {β α : Type} (s : Stack β) : StackAct α → Act → Prop where
  | attach (c : Nat) : (s.loop c).point = .starting → s.Moves (.attach c) (.attach c)
  | mmap (c vmStart : Nat) : (s.loop c).point = .mapping → s.Moves (.mmap c vmStart) (.mmap c vmStart)
  | block (act : Act) : act.ofBlockLayer = true → s.Moves (.block act) act
  | command (c : Nat) (cuts : List Nat) : (s.loop c).point = .reading →
      s.Moves (.read c cuts) (.readStart (.user c) c sizeofK2u cuts)
  | payload (c n : Nat) (cuts : List Nat) : (s.loop c).point = .copyIn n →
      s.Moves (.read c cuts) (.readStart (.user c) c ((s.loop c).k2u.length - n) cuts)
  | take (c : Nat) : s.Moves (.take c) (.readTake (.user c))
  | send (c : Nat) : s.Moves (.send c) (.readSend (.user c) sizeofK2u)
  | readReturn (c : Nat) : s.Moves (.readReturn c) (.ret (.user c))
  | write (c : Nat) : (s.loop c).point = .writing →
      s.Moves (.write c) (.writeStart (.user c) c sizeofU2k sizeofU2k (s.loop c).u2k)
  | writeEnd (c : Nat) (umem : UMem) : s.Moves (.writeEnd c) (.writeEnd (.user c) umem)
  | writeReturn (c : Nat) : s.Moves (.writeReturn c) (.ret (.user c))

section
variable {β α : Type} {cfg : Config} {B : Backend β α} {s s' : Stack β} {c : Nat}

theorem Stack.kernelStep_kernel {a : Act} (ha : s.kernelStep cfg a = some s') :
    Bius.step cfg s.kernel a = some s'.kernel := by
  unfold Stack.kernelStep at ha
  rw [Option.map_eq_some_iff] at ha
  obtain ⟨k, hk, rfl⟩ := ha
  exact hk

theorem Stack.loopStep_kernel {a : Act} {l : Loop × β} (ha : s.loopStep cfg a c l = some s') :
    Bius.step cfg s.kernel a = some s'.kernel := by
  unfold Stack.loopStep at ha
  rw [Option.map_eq_some_iff] at ha
  obtain ⟨k, hk, rfl⟩ := ha
  exact hk

/-- A step of the whole is a step of the kernel module, or takes place outside of it. -/
theorem Stack.step_moves {act : StackAct α} (hs : s.step cfg B act = some s') :
    s'.kernel = s.kernel ∨ ∃ a, s.Moves act a ∧ Bius.step cfg s.kernel a = some s'.kernel := by
  cases act with
  | attach c =>
    simp only [Stack.step] at hs
    split at hs
    · next hpt => exact Or.inr ⟨_, .attach c hpt, Stack.loopStep_kernel hs⟩
    · cases hs
  | mmap c vmStart =>
    simp only [Stack.step] at hs
    split at hs
    · next hpt =>
      split at hs
      · exact Or.inr ⟨_, .mmap c vmStart hpt, Stack.loopStep_kernel hs⟩
      · cases hs
        exact Or.inl rfl
    · cases hs
  | block a =>
    simp only [Stack.step] at hs
    split at hs
    · next hblk => exact Or.inr ⟨_, .block a hblk, Stack.kernelStep_kernel hs⟩
    · cases hs
  | read c cuts =>
    simp only [Stack.step] at hs
    split at hs
    · next hpt => exact Or.inr ⟨_, .command c cuts hpt, Stack.kernelStep_kernel hs⟩
    · next n hpt => exact Or.inr ⟨_, .payload c n cuts hpt, Stack.kernelStep_kernel hs⟩
    · cases hs
  | take c => exact Or.inr ⟨_, .take c, Stack.kernelStep_kernel hs⟩
  | send c => exact Or.inr ⟨_, .send c, Stack.kernelStep_kernel hs⟩
  | readReturn c =>
    simp only [Stack.step] at hs
    split at hs
    · cases hs
    · exact Or.inr ⟨_, .readReturn c, Stack.loopStep_kernel hs⟩
    · cases hs
  | reply c =>
    simp only [Stack.step] at hs
    split at hs
    · rw [Option.map_eq_some_iff] at hs
      obtain ⟨res, -, rfl⟩ := hs
      exact Or.inl rfl
    · cases hs
  | write c =>
    simp only [Stack.step] at hs
    split at hs
    · next hpt => exact Or.inr ⟨_, .write c hpt, Stack.kernelStep_kernel hs⟩
    · cases hs
  | writeEnd c => exact Or.inr ⟨_, .writeEnd c _, Stack.kernelStep_kernel hs⟩
  | writeReturn c =>
    simp only [Stack.step] at hs
    split at hs
    · exact Or.inr ⟨_, .writeReturn c, Stack.loopStep_kernel hs⟩
    · cases hs
  | process a =>
    simp only [Stack.step] at hs
    rw [Option.map_eq_some_iff] at hs
    obtain ⟨b, -, rfl⟩ := hs
    exact Or.inl rfl

theorem Stack.Agrees.ownCalls (h : s.Agrees cfg B) (hblk : s.BlkCalls) : s.kernel.OwnCalls := by
  intro t c hc
  cases t with
  | user d => rw [h.connection hc]
  | blk n =>
    rw [hblk n] at hc
    cases hc

theorem Framed.sole {buffer c : Nat} {req : Ptr → BiusRequest} {x : Connection} {k2u : K2u} {u2k : U2k} {point : Point}
    {call : Call} (h : Framed cfg buffer c req x k2u u2k point call) {p q : Ptr}
    (hp : p ∈ x.waiting ∨ call = .readTaken c p ∨ ∃ header n, call = .replied c p header n)
    (hq : q ∈ x.waiting ∨ call = .readTaken c q ∨ ∃ header n, call = .replied c q header n) :
    p = q ∧ x.Ready cfg ∧ (req p).Offered cfg := by
  cases h with
  | starting hw | mapping _ hw | reading _ hw | looking _ hw | written _ hw => simp [hw] at hp
  | taken r _ hr hready hw _ ho =>
    simp only [hw, List.not_mem_nil, Call.readTaken.injEq, true_and, reduceCtorEq, exists_false, or_false,
      false_or] at hp hq
    rw [← hp, ← hq, hr]
    exact ⟨rfl, hready, ho⟩
  | header r _ hr hready hw _ ho | copyIn r _ _ hr hready hw _ ho | chunk r _ _ _ hr hready hw _ ho
  | handling r _ hr hready hw _ ho | replying r _ hr hready hw _ ho =>
    simp only [hw, List.mem_singleton, reduceCtorEq, exists_false, or_false] at hp hq
    rw [hp, hq, hr]
    exact ⟨rfl, hready, ho⟩
  | replied r _ hr hready hw _ ho =>
    simp only [hw, List.not_mem_nil, Call.replied.injEq, true_and, reduceCtorEq, false_or] at hp hq
    obtain ⟨_, _, hp, -⟩ := hp
    obtain ⟨_, _, hq, -⟩ := hq
    rw [← hp, ← hq, hr]
    exact ⟨rfl, hready, ho⟩

/-- A connection has one request at a time, and a window to map it into. -/
theorem Stack.Agrees.sole (h : s.Agrees cfg B) (hown : s.kernel.OwnCalls) {c : Nat} {p q : Ptr} (hp : s.kernel.With c p)
    (hq : s.kernel.With c q) : p = q ∧ (s.kernel.conn c).Ready cfg ∧ (s.kernel.req p).Offered cfg :=
  Framed.sole (h.framed c) (hown.with_iff.1 hp) (hown.with_iff.1 hq)

theorem Stack.window_step (h : s.Agrees ⟨true⟩ B) (hown : s.kernel.OwnCalls) (hw : ∀ c, s.kernel.WindowExact c)
    (h' : s'.Agrees ⟨true⟩ B) (hown' : s'.kernel.OwnCalls) {act : StackAct α}
    (hs : s.step ⟨true⟩ B act = some s') (c : Nat) :
    s'.kernel.WindowExact c := by
  rcases Stack.step_moves hs with hsame | ⟨a, hmoves, ha⟩
  · rw [hsame]
    exact hw c
  by_cases hc : a.connection s.kernel = some c
  swap
  · exact (hw c).elsewhere h.placed ha hc
  obtain ⟨loc, hl⟩ := h.placed.located
  have hf := h.framed c
  have hf' := h'.framed c
  unfold Stack.FramedAt at hf hf'
  -- while no request is with the connection its window stays empty
  have hidle : (∀ p, ¬ s.kernel.With c p) → (∀ t, a ≠ .readTake t) →
      (∀ i, (s'.kernel.conn c).ptes i ≠ .zero → (s.kernel.conn c).ptes i ≠ .zero) → s'.kernel.WindowExact c :=
    fun hnone => (hw c).idle_step hl (fun p hp => hnone p hp.held) ha
  have hnone : s.kernel.call (.user c) = .idle → (s.kernel.conn c).waiting = [] → ∀ p, ¬ s.kernel.With c p := by
    intro hcall hwait p hp
    have hp := hown.with_iff.1 hp
    simp [hcall, hwait] at hp
  cases hmoves with
  | attach d hpt =>
    cases hc
    rw [hpt] at hf
    generalize hcall : s.kernel.call (.user c) = call at hf
    cases hf with
    | starting hwait =>
      refine hidle (hnone hcall hwait) (by simp) (fun i hne => ?_)
      rwa [(quiet_window ha trivial c).1] at hne
  | mmap d vmStart hpt =>
    cases hc
    rw [hpt] at hf
    generalize hcall : s.kernel.call (.user c) = call at hf
    cases hf with
    | mapping _ hwait =>
      refine hidle (hnone hcall hwait) (by simp) (fun i hne => ?_)
      generalize s'.kernel = k at ha hne
      cases step_cases ha with
      | mmap => simp at hne
  | block a hblk =>
    unfold Act.ofBlockLayer at hblk
    split at hblk <;> first | cases hc | cases hblk
  | command d cuts hpt =>
    cases hc
    rw [hpt] at hf
    have hcall : s.kernel.call (.user c) = .idle := by
      generalize s'.kernel = k at ha
      cases step_cases ha with
      | readStart _ _ _ _ ht => exact ht
    rw [hcall] at hf
    cases hf with
    | reading _ hwait =>
      refine hidle (hnone hcall hwait) (by simp) (fun i hne => ?_)
      rwa [(quiet_window ha trivial c).1] at hne
  | payload d n cuts hpt =>
    cases hc
    rw [hpt] at hf
    have hcall : s.kernel.call (.user c) = .idle := by
      generalize s'.kernel = k at ha
      cases step_cases ha with
      | readStart _ _ _ _ ht => exact ht
    rw [hcall] at hf
    cases hf with
    | copyIn p r n hp hr hwait hse ho hst hn hsent =>
      -- a request that is sent is not mapped
      refine (hw c).idle_step hl (fun q hq => ?_) ha (by simp) (fun i hne => ?_)
      · have hq' := hown.with_iff.1 hq.held
        simp only [hcall, hwait, List.mem_singleton, reduceCtorEq, exists_false, or_false] at hq'
        subst hq'
        exact hq.mapped (by rw [hp]; exact (hsent.ready ho hst).1)
      · rwa [(quiet_window ha trivial c).1] at hne
  | take d =>
    obtain rfl := h.connection hc
    have hcall : ∃ e, s.kernel.call (.user c) = .readWait e := by
      generalize s'.kernel = k at ha
      cases step_cases ha with
      | readTake _ e _ _ ht => exact ⟨e, ht⟩
    obtain ⟨e, hcall⟩ := hcall
    rw [hcall] at hf
    generalize (s.loop c).point = point at hf
    cases hf with
    | looking hready hwait =>
      refine (hw c).take (fun p hp => ?_) hready h.fresh hcall ha
      have hp := hown.with_iff.1 hp
      simp [hcall, hwait] at hp
  | send d =>
    obtain rfl := h.connection hc
    obtain ⟨p, hcall⟩ : ∃ p, s.kernel.call (.user c) = .readTaken c p := by
      generalize s'.kernel = k at ha
      cases step_cases ha with
      | readSend _ e p _ ht =>
        obtain rfl := h.connection (show (s.kernel.call (.user c)).connection = some e by rw [ht]; rfl)
        exact ⟨p, ht⟩
    exact (hw c).send hcall (fun q hq => (h.sole hown hq (Or.inr (Or.inl ⟨_, hcall⟩))).1) (by decide) ha
  | readReturn d => cases hc
  | write d hpt =>
    cases hc
    exact (hw c).write (fun p q hp hq => (h.sole hown hp hq).1) ha
  | writeEnd d umem =>
    obtain rfl := h.connection hc
    obtain ⟨p, header, n, v, hcall, hdone⟩ : ∃ p header n v, s.kernel.call (.user c) = .replied c p header n ∧
        s'.kernel.call (.user c) = .done (.value v) := by
      generalize s'.kernel = k at ha
      cases step_cases ha with
      | writeEnd _ e p header n _ ht hend =>
        obtain rfl := h.connection (show (s.kernel.call (.user c)).connection = some e by rw [ht]; rfl)
        obtain ⟨v, hv⟩ := writeEnd_value hend
        exact ⟨p, header, n, v, ht, hv⟩
    have hp : s.kernel.With c p := Or.inr (Or.inr ⟨_, header, n, hcall⟩)
    refine (hw c).reply hl (fun q hq => (h.sole hown hq hp).1) (h.sole hown hp hp).2.2 hcall ha (fun q hq => ?_)
    have hq := hown'.with_iff.1 hq
    rw [hdone] at hf' hq
    generalize (s'.loop c).point = point at hf'
    cases hf' with
    | written _ hwait => simp [hwait] at hq
  | writeReturn d => cases hc

/-- What holds of the windows in every state that is reached. -/
theorem Stack.reach_window (hB : B.Honest ⟨true⟩) {k2u : Nat → K2u} {u2k : Nat → U2k} {b : β}
    (h : Machine.Reach (Stack.step ⟨true⟩ B) (Stack.Admits ⟨true⟩ B) (Stack.init k2u u2k b) s) :
    s.kernel.OwnCalls ∧ ∀ c, s.kernel.WindowExact c := by
  have hown : ∀ {s : Stack β}, Machine.Reach (Stack.step ⟨true⟩ B) (Stack.Admits ⟨true⟩ B)
      (Stack.init k2u u2k b) s →
      s.kernel.OwnCalls := fun hr => (Stack.reach_agrees hB hr).ownCalls (Stack.reach_blkCalls hr)
  refine ⟨hown h, h.induct (I := fun s => ∀ c, s.kernel.WindowExact c) (fun c => ?_) ?_⟩
  · refine .of_empty (fun p hp => ?_) rfl
    rcases hp.held with hw | ⟨t, ht⟩ | ⟨t, _, _, ht⟩
    · cases hw
    · cases ht
    · cases ht
  · intro s act s' hr hw hok hs
    have hr' := hr.snoc hok hs
    exact Stack.window_step (Stack.reach_agrees hB hr) (hown hr) hw (Stack.reach_agrees hB hr') (hown hr') hs

/-- What a connection served by the library can rely on. -/
structure Stack.WindowServed (B : Backend β α) (s : Stack β) (c : Nat) : Prop where
  /-- it has one request at a time -/
  sole : ∀ p q, s.kernel.With c p → s.kernel.With c q → p = q
  /-- and a window, -/
  ready : ∀ p, s.kernel.With c p → ∃ vmStart, (s.kernel.conn c).vma = some vmStart
  /-- which a request with much data is mapped into, -/
  mapped : ∀ p, s.kernel.With c p → (s.kernel.MappedAt c p ↔ (s.kernel.req p).Maps)
  /-- and then shows exactly its data, -/
  shown : ∀ p, s.kernel.MappedAt c p → ∃ vmStart, (s.kernel.conn c).Shows (s.kernel.req p) vmStart
  /-- and nothing at any other time. -/
  empty : (∀ p, ¬ s.kernel.MappedAt c p) → (s.kernel.conn c).ptes = fun _ => .zero
  /-- `bius_map_data` finds the window empty -/
  maps : ∀ t p eff, windowStores s.kernel (.readTake t) = some (c, p, eff) → (s.kernel.conn c).ptes = fun _ => .zero
  /-- and the end of the reply leaves it empty. -/
  unmaps : ∀ s', s.step ⟨true⟩ B (.writeEnd c) = some s' → (s'.kernel.conn c).ptes = fun _ => .zero
  /-- The command that is being handled says where in the window the data are. -/
  command : ∀ p, (s.loop c).point = .handling → s.kernel.MappedAt c p → ∃ vmStart,
    (s.kernel.conn c).vma = some vmStart ∧ (s.loop c).k2u = k2uHeader true vmStart (s.kernel.req p)

theorem Stack.Agrees.windowServed (h : s.Agrees ⟨true⟩ B) (hown : s.kernel.OwnCalls) (hw : s.kernel.WindowExact c)
    (hafter : ∀ s', s.step ⟨true⟩ B (.writeEnd c) = some s' →
      s'.Agrees ⟨true⟩ B ∧ s'.kernel.OwnCalls ∧ s'.kernel.WindowExact c) : s.WindowServed B c := by
  have hf := h.framed c
  unfold Stack.FramedAt at hf
  refine ⟨fun p q hp hq => (h.sole hown hp hq).1, fun p hp => (h.sole hown hp hp).2.1.window rfl, fun p hp => ?_,
    hw.shown, hw.empty, fun t p eff hstores => ?_, fun s' hs => ?_, fun p hpt hp => ?_⟩
  · have hmt := (h.sole hown hp hp).2.2.mapType
    have hiff : (s.kernel.req p).isMapped ⟨true⟩ = true ↔ (s.kernel.req p).Maps := by
      simp [BiusRequest.isMapped, BiusRequest.Maps]
    constructor
    · intro hm
      apply hiff.1
      rw [← Bool.not_eq_false, ← hmt hm.blk]
      exact hm.mapped
    · intro hm
      have hblk := isBlkRequest_of_mayHaveData hm.1
      refine ⟨hblk, fun hun => ?_, hp⟩
      rw [hmt hblk, hiff.2 hm] at hun
      cases hun
  · simp only [windowStores] at hstores
    split at hstores
    · next d q ps ht hps =>
      have hd : d = c := by
        split at hstores
        · rw [Option.map_eq_some_iff] at hstores
          obtain ⟨vmStart, -, heq⟩ := hstores
          cases heq
          rfl
        · cases hstores
      obtain rfl := hd
      obtain rfl := hown t d (by rw [ht]; rfl)
      rw [ht] at hf
      generalize (s.loop d).point = point at hf
      cases hf with
      | looking _ hwait =>
        refine hw.empty (fun q hq => ?_)
        have hq := hown.with_iff.1 hq.held
        simp [ht, hwait] at hq
    · cases hstores
  · obtain ⟨h', hown', hw'⟩ := hafter s' hs
    have hf' := h'.framed c
    unfold Stack.FramedAt at hf'
    obtain ⟨v, hv⟩ : ∃ v, s'.kernel.call (.user c) = .done (.value v) := by
      have ha := Stack.kernelStep_kernel hs
      generalize s'.kernel = k at ha
      cases step_cases ha with
      | writeEnd _ _ _ _ _ _ _ hend => exact writeEnd_value hend
    rw [hv] at hf'
    generalize (s'.loop c).point = point at hf'
    cases hf' with
    | written _ hwait =>
      refine hw'.empty (fun q hq => ?_)
      have hq := hown'.with_iff.1 hq.held
      simp [hv, hwait] at hq
  · rw [hpt] at hf
    generalize hcall : s.kernel.call (.user c) = call at hf
    cases hf with
    | handling q r hq hr hwait hse ho hk =>
      have hp' := hown.with_iff.1 hp.held
      simp only [hcall, hwait, List.mem_singleton, reduceCtorEq, exists_false, or_false] at hp'
      subst hp'
      obtain ⟨vmStart, hvma⟩ := hr.window rfl
      refine ⟨vmStart, hvma, ?_⟩
      have hcommand : (s.kernel.conn c).command ⟨true⟩ r = k2uHeader true vmStart r := by
        rw [Connection.command, hvma]
        rfl
      have hmt : (k2uHeader true vmStart r).dataMapType ≠ .unmapped := by
        have hblk := hp.blk
        have hm := hp.mapped
        rw [hq] at hblk hm
        simp [k2uHeader, hblk, hm]
      rw [hk, hcommand, hq, copyInHeader, if_neg]
      simp [hmt]

end

/-- **The window of a connection that the library serves.** In every state that the kernel
    module, any number of connections and the loops of the library reach. -/
theorem library_window {σ : Type} (ops : BiusOperations σ) (P : Process σ) (umem : σ → UMem)
    (buffer : Nat → Nat) (fuel : Nat) (hbuf : ∀ b c, Readable (umem b) (buffer c)
      (dataCopyBufferSize ⟨true⟩)) {k2u : Nat → K2u} {u2k : Nat → U2k} {b : σ}
    {s : Stack σ} (h : Machine.Reach (Stack.step ⟨true⟩ (library ops P umem buffer fuel))
      (Stack.Admits ⟨true⟩ (library ops P umem buffer fuel)) (Stack.init k2u u2k b) s) (c : Nat) :
    s.WindowServed (library ops P umem buffer fuel) c := by
  have hB : (library ops P umem buffer fuel).Honest ⟨true⟩ := library_honest hbuf
  obtain ⟨hown, hw⟩ := Stack.reach_window hB h
  refine (Stack.reach_agrees hB h).windowServed hown (hw c) (fun s' hs => ?_)
  have h' := h.snoc (a := StackAct.writeEnd c) trivial hs
  obtain ⟨hown', hw'⟩ := Stack.reach_window hB h'
  exact ⟨Stack.reach_agrees hB h', hown', hw' c⟩

/-- The ramdisk in the CONFIG_BIUS_DATAMAP build, with its copy buffers one behind the
    other. -/
def ramdiskMapped : Backend (Proc (Nat → UInt8)) (Proc (Nat → UInt8)) :=
  library ramdiskOperations (Proc.process 0) Proc.umem (fun c => biusMapDataThreshold * (c + 1)) 1

/-- A read is submitted, before connection 0 looks for it. -/
def readSubmitted (rq : Rq) : List (StackAct (Proc (Nat → UInt8))) :=
  [.attach 0, .mmap 0 0x7f0000000000, .block (.queueRq (.blk 0) 5 rq), .block (.insert (.blk 0)), .block (.ret (.blk 0))]

theorem readMapped_run (rq : Rq) (hop : rq.op = 0) (hlen : biusMapDataThreshold < rq.dataLen)
    (s : Stack (Proc (Nat → UInt8))) (hs : s = Stack.init (fun _ => ⟨0, .read, 0, 0, 0, 0, .unmapped⟩)
      (fun _ => ⟨0, 0, 0⟩) ⟨fun _ => 0, fun _ => 0⟩) :
    ∃ s₁ s₂ s₃, Machine.run (Stack.step ⟨true⟩ ramdiskMapped) s (readSubmitted rq) = some s₁ ∧
      s₁.step ⟨true⟩ ramdiskMapped (.read 0 []) = some s₂ ∧ s₂.kernel.call (.user 0) = .readWait 0 ∧
      s₂.step ⟨true⟩ ramdiskMapped (.take 0) = some s₃ ∧ s₃.kernel.call (.user 0) = .readTaken 0 5 ∧
      s₃.kernel.req 5 = (biusMapData (initBlkRequest .blank 1 rq) 0x7f0000000000 (rqForEachSegment rq.bios)).2 ∧
      (s₃.kernel.conn 0).ptes = Kernel.mapPtes (fun _ => .zero)
        (biusMapData (initBlkRequest .blank 1 rq) 0x7f0000000000 (rqForEachSegment rq.bios)).1 := by
  have hty : toBiusRequest rq.op = .read := by rw [hop]; rfl
  have hpos : 0 < rq.dataLen := Nat.lt_of_le_of_lt (Nat.zero_le _) hlen
  subst hs
  simp [readSubmitted, Machine.run, Stack.step, Stack.loopStep, Stack.kernelStep, Stack.init, Act.ofBlockLayer, step,
    Kernel.init, Connection.new, Kernel.queueRq, initBlkRequest, hty, Kernel.newId, Kernel.readStart, Kernel.readTake,
    Kernel.prepare, requestMayHaveData, hlen, hpos, Kernel.mapData, isBlkRequest, sizeofK2u, BiusRequest.blank]

theorem library_window_readMapped : ∃ s : Stack (Proc (Nat → UInt8)),
    Machine.Reach (Stack.step ⟨true⟩ ramdiskMapped) (Stack.Admits ⟨true⟩ ramdiskMapped)
      (Stack.init (fun _ => ⟨0, .read, 0, 0, 0, 0, .unmapped⟩) (fun _ => ⟨0, 0, 0⟩)
        ⟨fun _ => 0, fun _ => 0⟩) s ∧
    s.kernel.MappedAt 0 5 ∧ (s.kernel.conn 0).ptes 0 = .data 100 ∧ s.WindowServed ramdiskMapped 0 := by
  obtain ⟨s₁, s₂, s₃, hrun, hread, hwait, htake, hcall, hreq, hptes⟩ :=
    readMapped_run pagesRead rfl (by decide) _ rfl
  obtain ⟨_, _, _, hkeeps⟩ := biusMapData_keeps (initBlkRequest .blank 1 pagesRead) 0x7f0000000000
    (rqForEachSegment pagesRead.bios)
  have hreach : Machine.Reach (Stack.step ⟨true⟩ ramdiskMapped) (Stack.Admits ⟨true⟩ ramdiskMapped)
      (Stack.init (fun _ => ⟨0, .read, 0, 0, 0, 0, .unmapped⟩) (fun _ => ⟨0, 0, 0⟩)
        ⟨fun _ => 0, fun _ => 0⟩) s₃ := by
    have hlook : Stack.Admits ⟨true⟩ ramdiskMapped s₁ (.read 0 []) := by
      intro s' hs'
      rw [hread] at hs'
      cases hs'
      rw [hwait]
      simp
    have hrun' : Machine.Steps (Stack.step ⟨true⟩ ramdiskMapped) (Stack.Admits ⟨true⟩ ramdiskMapped) s₂
        [.take 0] s₃ :=
      .cons trivial htake (.nil _)
    refine ⟨_, (Machine.Steps.of_run_ok hrun (fun s a ha => ?_)).append (.cons hlook hread hrun')⟩
    simp only [readSubmitted, List.mem_cons, List.not_mem_nil, or_false] at ha
    rcases ha with rfl | rfl | rfl | rfl | rfl
    · trivial
    · trivial
    · intro _
      show pagesRead.dataLen ≤ biusMaxSizePerCommand
      decide
    · trivial
    · trivial
  refine ⟨s₃, hreach, ⟨?_, ?_, Or.inr (Or.inl ⟨_, hcall⟩)⟩, ?_, ?_⟩
  · rw [hreq, hkeeps]
    rfl
  · rw [hreq, pagesRead_mapType]
    simp
  · rw [hptes]
    exact pagesRead_ptes
  · exact library_window ramdiskOperations (Proc.process 0) Proc.umem _ 1 (fun _ _ _ _ => rfl) hreach 0

end Bius
