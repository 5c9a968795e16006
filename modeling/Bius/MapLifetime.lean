import Bius.RequestSteps

/- How long a page-table entry of the window lives (CONFIG_BIUS_DATAMAP build).
   `bius_map_data` installs entries below `mapped_size`, `bius_unmap_data` resets all
   of these, and requests mapped one after the other on a connection overwrite each
   other's entries from the start of the window on. So an entry that does not point to
   the zero page belongs to a request that has not been ended (`Kernel.Owned`), as long
   as no command of a mapped request fails to be sent: `bius_dev_read` ends such a
   request without unmapping it. -/
namespace Bius

/-! ## What `bius_map_data` installs -/

/-- Where the loop of `bius_map_data` stands in the window. -/
structure MapState.Placed (vmStart : Nat) (st : MapState) : Prop where
  addr : st.userAddr = vmStart + pageSize * st.userPageNum
  below : ∀ i f, MapEffect.setPte i f ∈ st.eff → i < st.userPageNum
  entry : st.listEntryIndex = 0 → st.userPageNum = 0 ∧ st.segmentEndAligned = false

section
variable {vmStart : Nat} {st : MapState} (h : st.Placed vmStart)
include h

theorem placed_listEntry (bvec : Seg) :
    (st.listEntry bvec).Placed vmStart ∧ 0 < (st.listEntry bvec).listEntryIndex := by
  have hpos : 0 < (st.listEntry bvec).listEntryIndex := by
    simp only [MapState.listEntry]
    split
    · exact Nat.succ_pos _
    · next hc =>
      refine Nat.pos_of_ne_zero (fun h0 => ?_)
      simp [(h.entry h0).2] at hc
  refine ⟨⟨?_, ?_, fun h0 => by omega⟩, hpos⟩
  · simp only [MapState.listEntry]
    split <;> exact h.addr
  · intro i f hf
    simp only [MapState.listEntry] at hf ⊢
    split at hf <;> split <;> first | contradiction | exact h.below i f (by simpa using hf)

theorem placed_mapReserved (hpos : 0 < st.listEntryIndex) (isWrite : Bool) (pfn off len : Nat) :
    (st.mapReserved isWrite pfn off len).Placed vmStart := by
  refine ⟨?_, ?_, fun h0 => absurd h0 (Nat.ne_of_gt hpos)⟩
  · simp only [MapState.mapReserved, h.addr]
    rw [Nat.mul_succ, Nat.add_assoc]
  · intro i f hf
    simp only [MapState.mapReserved, List.mem_append, List.mem_cons, List.not_mem_nil, or_false] at hf ⊢
    rcases hf with hf | hf | hf | hf
    · exact Nat.lt_succ_of_lt (h.below i f hf)
    · cases hf
    · cases hf; exact Nat.lt_succ_self _
    · cases hf

theorem placed_mapPage (hpos : 0 < st.listEntryIndex) (pfn : Nat) : (st.mapPage pfn).Placed vmStart := by
  refine ⟨?_, ?_, fun h0 => absurd h0 (Nat.ne_of_gt hpos)⟩
  · simp only [MapState.mapPage, h.addr]
    rw [Nat.mul_succ, Nat.add_assoc]
  · intro i f hf
    simp only [MapState.mapPage, List.mem_append, List.mem_singleton] at hf ⊢
    rcases hf with hf | hf
    · exact Nat.lt_succ_of_lt (h.below i f hf)
    · cases hf; exact Nat.lt_succ_self _

end

theorem placed_mapPages {vmStart : Nat} (n : Nat) {st : MapState} (h : st.Placed vmStart)
    (hpos : 0 < st.listEntryIndex) (pfn : Nat) :
    (st.mapPages pfn n).Placed vmStart ∧ 0 < (st.mapPages pfn n).listEntryIndex := by
  induction n generalizing st pfn with
  | zero => exact ⟨h, hpos⟩
  | succ n ih => exact ih (placed_mapPage h hpos pfn) hpos (pfn + 1)

/-- The flag at the end of a segment says nothing about the window. -/
theorem placed_endAligned {vmStart : Nat} {st : MapState} (h : st.Placed vmStart)
    (hpos : 0 < st.listEntryIndex) (b : Bool) : ({ st with segmentEndAligned := b } : MapState).Placed vmStart :=
  ⟨h.addr, h.below, fun h0 => absurd h0 (Nat.ne_of_gt hpos)⟩

theorem placed_mapRest {vmStart : Nat} {st : MapState} (h : st.Placed vmStart) (hpos : 0 < st.listEntryIndex)
    (isWrite : Bool) (pfn remain : Nat) : (st.mapRest isWrite pfn remain).Placed vmStart := by
  obtain ⟨hp, hpos'⟩ := placed_mapPages (remain / pageSize) h hpos pfn
  simp only [MapState.mapRest]
  split
  · exact placed_endAligned (placed_mapReserved hp hpos' isWrite _ _ _) hpos' false
  · exact placed_endAligned hp hpos' true

theorem placed_mapSegment {vmStart : Nat} {st : MapState} (h : st.Placed vmStart) (isWrite : Bool) (bvec : Seg) :
    (mapSegment isWrite st bvec).Placed vmStart := by
  obtain ⟨hl, hpos⟩ := placed_listEntry h bvec
  simp only [mapSegment]
  split
  · have hr := placed_mapReserved hl hpos isWrite bvec.page bvec.offset
      (min (pageSize - bvec.offset) bvec.len)
    split
    · exact placed_endAligned hr hpos false
    · exact placed_mapRest hr hpos isWrite _ _
  · exact placed_mapRest hl hpos isWrite _ _

theorem placed_mapSegments (isWrite : Bool) (vmStart : Nat) (segs : List Seg) :
    (mapSegments isWrite vmStart segs).Placed vmStart := by
  have hinit : (MapState.init vmStart).Placed vmStart :=
    ⟨by simp [MapState.init], fun i f hf => by simp [MapState.init] at hf, fun _ => ⟨rfl, rfl⟩⟩
  unfold mapSegments
  generalize MapState.init vmStart = st at hinit
  induction segs generalizing st with
  | nil => exact hinit
  | cons seg segs ih => exact ih _ (placed_mapSegment hinit isWrite seg)

/-- Every entry that `bius_map_data` installs is one that `bius_unmap_data` will
    reset. -/
theorem biusMapData_setPte {r : BiusRequest} {vmStart : Nat} {segs : List Seg} {i : Nat} {f : Frame}
    (h : .setPte i f ∈ (biusMapData r vmStart segs).1) :
    (biusMapData r vmStart segs).2.mapType ≠ .unmapped ∧
      i < (biusMapData r vmStart segs).2.mappedSize / pageSize := by
  obtain ⟨haddr, hbelow, hentry⟩ := placed_mapSegments (requestIsWrite r.type) vmStart segs
  have hsize : ∀ n, (vmStart + pageSize * n - vmStart) / pageSize = n := by
    intro n
    rw [Nat.add_sub_cancel_left, Nat.mul_div_cancel_left n (by decide)]
  unfold biusMapData at h ⊢
  split at h
  · cases h
  · next hm =>
    rw [if_neg hm]
    dsimp only at h ⊢
    split at h
    · next hlist =>
      simp only [if_pos hlist, haddr]
      rw [Nat.add_assoc, ← Nat.mul_succ, hsize]
      simp only [List.mem_append, List.mem_cons, List.not_mem_nil, or_false] at h
      refine ⟨by simp, ?_⟩
      rcases h with h | h | h | h
      · exact Nat.lt_succ_of_lt (hbelow i f h)
      · cases h; exact Nat.lt_succ_self _
      · cases h
      · cases h
    · next hlist =>
      simp only [if_neg hlist]
      split at h
      · next hone =>
        simp only [if_pos hone, haddr, hsize]
        refine ⟨by simp, hbelow i f ?_⟩
        simpa using h
      · next hone =>
        -- no segment, no entry
        have hmem : MapEffect.setPte i f ∈ (mapSegments (requestIsWrite r.type) vmStart segs).eff := by
          simpa using h
        have := hbelow i f hmem
        have := (hentry (by omega)).1
        omega

/-- An entry of the window after some stores: one of them has set it, or it is as
    before; the record of its owner goes with it. -/
theorem mapPtes_cases (id : Option Nat) (eff : List MapEffect) (f : Nat → Frame) (g : Nat → Option Nat) (i : Nat) :
    (∃ fr, .setPte i fr ∈ eff ∧ Kernel.mapPtes f eff i = fr ∧ Kernel.mapMapper id g eff i = id) ∨
    ((∀ fr, .setPte i fr ∉ eff) ∧ Kernel.mapPtes f eff i = f i ∧ Kernel.mapMapper id g eff i = g i) := by
  induction eff generalizing f g with
  | nil => exact Or.inr ⟨fun fr => by simp, rfl, rfl⟩
  | cons e eff ih =>
    by_cases he : ∃ j fr, e = .setPte j fr
    · obtain ⟨j, fr, rfl⟩ := he
      rcases ih (Function.update f j fr) (Function.update g j id) with ⟨fr', hmem, h₁, h₂⟩ | ⟨hnot, h₁, h₂⟩
      · exact Or.inl ⟨fr', List.mem_cons_of_mem _ hmem, h₁, h₂⟩
      · by_cases hij : i = j
        · subst hij
          rw [Function.update_self] at h₁ h₂
          exact Or.inl ⟨fr, by simp, h₁, h₂⟩
        · rw [Function.update_of_ne hij] at h₁ h₂
          refine Or.inr ⟨fun fr' hmem => ?_, h₁, h₂⟩
          rcases List.mem_cons.1 hmem with heq | hmem
          · cases heq; exact hij rfl
          · exact hnot fr' hmem
    · have hne : ∀ fr, .setPte i fr ≠ e := fun fr heq => he ⟨i, fr, heq.symm⟩
      have hstep : Kernel.mapPtes f (e :: eff) = Kernel.mapPtes f eff ∧
          Kernel.mapMapper id g (e :: eff) = Kernel.mapMapper id g eff := by
        cases e <;> first | exact ⟨rfl, rfl⟩ | exact absurd ⟨_, _, rfl⟩ he
      rw [hstep.1, hstep.2]
      rcases ih f g with ⟨fr, hmem, h₁, h₂⟩ | ⟨hnot, h₁, h₂⟩
      · exact Or.inl ⟨fr, List.mem_cons_of_mem _ hmem, h₁, h₂⟩
      · refine Or.inr ⟨fun fr hmem => ?_, h₁, h₂⟩
        rcases List.mem_cons.1 hmem with heq | hmem
        · exact hne fr heq
        · exact hnot fr hmem

/-- After `bius_unmap_data` the entries of the request point to the zero page. -/
theorem unmapData_ptes {r : BiusRequest} (hm : r.mapType ≠ .unmapped) (vmStart : Nat) (f : Nat → Frame)
    (g : Nat → Option Nat) (i : Nat) (h : Kernel.mapPtes f (biusUnmapData r vmStart).1 i ≠ .zero) :
    r.mappedSize / pageSize ≤ i ∧ f i ≠ .zero ∧
      Kernel.mapMapper none g (biusUnmapData r vmStart).1 i = g i := by
  have heff : (biusUnmapData r vmStart).1 =
      (List.range (r.mappedSize / pageSize)).map (fun i => .setPte i .zero) ++ [.flushTlb vmStart r.mappedSize] := by
    rw [biusUnmapData, if_neg hm]
  rcases mapPtes_cases none (biusUnmapData r vmStart).1 f g i with ⟨fr, hmem, h₁, -⟩ | ⟨hnot, h₁, h₂⟩
  · rw [heff] at hmem
    simp only [List.mem_append, List.mem_map, List.mem_singleton] at hmem
    rcases hmem with ⟨j, -, heq⟩ | heq
    · cases heq; exact absurd h₁ h
    · cases heq
  · refine ⟨?_, h₁ ▸ h, h₂⟩
    by_contra hlt
    apply hnot .zero
    rw [heff]
    simp only [List.mem_append, List.mem_map, List.mem_range]
    exact Or.inl ⟨i, by omega, rfl⟩

/-! ## Owners -/

/-- The request is with the connection: it waits there, or a call holds it. -/
def Kernel.With (s : Kernel) (c : Nat) (p : Ptr) : Prop :=
  p ∈ (s.conn c).waiting ∨ (∃ t, s.call t = .readTaken c p) ∨ ∃ t header n, s.call t = .replied c p header n

/-- Entry `i` of the window of `c` has been installed for `p`, and goes when `p` is
    unmapped. -/
structure Kernel.Owner (s : Kernel) (c i : Nat) (p : Ptr) : Prop where
  mapper : (s.conn c).mapper i = some (s.req p).id
  blk : isBlkRequest (s.req p).type = true
  mapped : (s.req p).mapType ≠ .unmapped
  size : i < (s.req p).mappedSize / pageSize
  held : s.With c p

/-- Every entry that does not point to the zero page has an owner. -/
def Kernel.Owned (s : Kernel) : Prop :=
  ∀ c i, (s.conn c).ptes i ≠ .zero → ∃ p, s.Owner c i p

/-- The send of a mapped request's command does not fail. -/
def SendsMapped (s : Kernel) : Act → Prop
  | .readSend t n => ∀ c p, s.call t = .readTaken c p → (s.req p).mapType ≠ .unmapped → n ≠ 0
  | _ => True

theorem with_loc {s : Kernel} {loc : Ptr → Life.Loc} (hl : Life.Located loc s.life) {c : Nat} {p : Ptr}
    (h : s.With c p) : loc p = .waiting c ∨ (∃ t, loc p = .taken t c) ∨ ∃ t, loc p = .replied t c := by
  rcases h with h | ⟨t, h⟩ | ⟨t, _, _, h⟩
  · exact Or.inl ((hl.waiting c p).1 h)
  · exact Or.inr (Or.inl ⟨t, (hl.taken t c p).1 (by simp [Kernel.life, h, Call.hold])⟩)
  · exact Or.inr (Or.inr ⟨t, (hl.replied t c p).1 (by simp [Kernel.life, h, Call.hold])⟩)

theorem with_busy {s : Kernel} {loc : Ptr → Life.Loc} (hl : Life.Located loc s.life) {c : Nat} {p : Ptr}
    (h : s.With c p) : s.busy p = true := by
  apply (hl.busy p).2
  rcases with_loc hl h with hloc | ⟨_, hloc⟩ | ⟨_, hloc⟩ <;> rw [hloc] <;> simp

theorem with_inj {s : Kernel} {loc : Ptr → Life.Loc} (hl : Life.Located loc s.life) {c d : Nat} {p : Ptr}
    (hc : s.With c p) (hd : s.With d p) : c = d := by
  rcases with_loc hl hc with hloc | ⟨_, hloc⟩ | ⟨_, hloc⟩ <;>
    rcases with_loc hl hd with hloc' | ⟨_, hloc'⟩ | ⟨_, hloc'⟩ <;> rw [hloc] at hloc' <;> cases hloc' <;> rfl

/-- A request stays with its connection in a step that leaves the waiting list and
    the call that holds it alone. -/
theorem with_keep {s s' : Kernel} {c : Nat} {p : Ptr} (h : s.With c p)
    (hwait : p ∈ (s.conn c).waiting → p ∈ (s'.conn c).waiting)
    (hcall : ∀ u, (s.call u).held = some p → s'.call u = s.call u) : s'.With c p := by
  rcases h with h | ⟨t, h⟩ | ⟨t, header, n, h⟩
  · exact Or.inl (hwait h)
  · exact Or.inr (Or.inl ⟨t, (hcall t (by rw [h]; rfl)).trans h⟩)
  · exact Or.inr (Or.inr ⟨t, header, n, (hcall t (by rw [h]; rfl)).trans h⟩)

theorem owner_keep {s s' : Kernel} {c i : Nat} {p : Ptr} (h : s.Owner c i p)
    (hmapper : (s'.conn c).mapper i = (s.conn c).mapper i)
    (hreq : ∃ bio mapData, s'.req p = { s.req p with bio := bio, mapData := mapData })
    (hwait : p ∈ (s.conn c).waiting → p ∈ (s'.conn c).waiting)
    (hcall : ∀ u, (s.call u).held = some p → s'.call u = s.call u) : s'.Owner c i p := by
  obtain ⟨bio, mapData, hreq⟩ := hreq
  exact ⟨by rw [hmapper, hreq]; exact h.mapper, by rw [hreq]; exact h.blk, by rw [hreq]; exact h.mapped,
    by rw [hreq]; exact h.size, with_keep h.held hwait hcall⟩

section
variable {cfg : Config} {s s' : Kernel} {act : Act} (hi : s.life.Inv) (h : step cfg s act = some s')
include hi h

/-- The steps of a thread that holds no request, apart from those that change page
    tables. -/
theorem owner_others {c i : Nat} {p : Ptr} (ho : s.Owner c i p) (ht : ∀ t, act.tid = some t → (s.call t).held = none)
    (hmapper : (s'.conn c).mapper i = (s.conn c).mapper i)
    (hwait : p ∈ (s.conn c).waiting → p ∈ (s'.conn c).waiting) : s'.Owner c i p := by
  obtain ⟨loc, hl, -⟩ := hi
  refine owner_keep ho hmapper ?_ hwait (fun u hu => step_call h (fun he => ?_))
  · by_cases htouch : act.touches s = some p
    · -- only the payload of a request in these places is touched
      have hloc := with_loc hl ho.held
      cases step_cases h with
      | queueRq t q rq hq hb | reportZones t q _ _ _ hq hb =>
        cases htouch
        rw [(hl.free hb).1] at hloc
        simp at hloc
      | readStart t d size cuts hq hs =>
        have hrw := step_rewritten h p
        unfold Kernel.readStart at hs
        have hsend : (s.conn d).sending = some p := htouch
        split at hs
        · cases hs; exact ⟨_, _, rfl⟩
        · rw [hsend] at hs
          rw [Option.map_eq_some_iff] at hs
          obtain ⟨res, hres, rfl⟩ := hs
          obtain ⟨bio, mapData, hr⟩ := biusSendData_keeps hres
          refine ⟨bio, mapData, ?_⟩
          dsimp only
          split <;> split <;> simp [hr]
      | readTake t d q qs hq hps hs =>
        simp only [Act.touches, hps, List.head?_cons, Option.some.injEq] at htouch
        subst htouch
        rw [(hl.pending q).1 (by simp [Kernel.life, hps])] at hloc
        simp at hloc
      | readSend t d q n hq | writeEnd t d q header n umem hq hs =>
        rw [Act.touches, ht t rfl] at htouch
        cases htouch
      | _ => cases htouch
    · rw [step_req h htouch]
      exact ⟨_, _, rfl⟩
  · rw [ht u he] at hu
    cases hu

end

theorem owner_others_held {cfg : Config} {s s' : Kernel} {act : Act} (h : step cfg s act = some s') {c i : Nat}
    {p q : Ptr} (hheld : ∀ t, act.tid = some t → (s.call t).held = some p) (htouch : act.touches s = some p)
    (hqp : q ≠ p) (ho : s.Owner c i q) (hmapper : (s'.conn c).mapper i = (s.conn c).mapper i)
    (hwait : q ∈ (s.conn c).waiting → q ∈ (s'.conn c).waiting) : s'.Owner c i q := by
  refine owner_keep ho hmapper ?_ hwait (fun u hu => step_call h (fun he => ?_))
  · rw [step_req h (fun he => hqp (Option.some.inj (he.symm.trans htouch)))]
    exact ⟨_, _, rfl⟩
  · rw [hheld u he] at hu
    exact hqp (Option.some.inj hu.symm)

/-- Only what is longer than the threshold is mapped. -/
def MappedLong (r : BiusRequest) : Prop :=
  isBlkRequest r.type = true → r.mapType ≠ .unmapped → biusMapDataThreshold < r.length

theorem mappedLong_rewritten {cfg : Config} {busy : Bool} {sending : Prop} {r r' : BiusRequest}
    (h : Rewritten cfg busy sending r r') (hr : MappedLong r) : MappedLong r' := by
  cases h with
  | queued id rq _ => exact fun _ hm => absurd rfl hm
  | zones id sector n blkz _ _ _ => intro hb; cases hb
  | mapped vmStart _ _ hlen =>
    obtain ⟨_, _, _, heq⟩ := biusMapData_keeps r vmStart (rqForEachSegment r.rq)
    rw [heq]; exact fun _ _ => hlen
  | sent size cuts res _ hres =>
    obtain ⟨_, _, heq⟩ := biusSendData_keeps hres
    rw [heq]; exact hr
  | finished rq mapType pos blkResult _ _ hmt =>
    intro hb hm
    rcases hmt with rfl | rfl
    · exact hr hb hm
    · exact absurd rfl hm
  | _ => exact hr

/-- What `prepare` does to page tables: the entries `bius_map_data` installs. -/
theorem prepare_window {cfg : Config} {s s' : Kernel} {c : Nat} {p : Ptr} (h : s.prepare cfg c p = some s')
    (d i : Nat) :
    (s'.conn d).waiting = (s.conn d).waiting ∧
    (((s'.conn d).ptes i = (s.conn d).ptes i ∧ (s'.conn d).mapper i = (s.conn d).mapper i) ∨
      (d = c ∧ (s'.conn d).mapper i = some (s'.req p).id ∧ isBlkRequest (s'.req p).type = true ∧
        (s'.req p).mapType ≠ .unmapped ∧ i < (s'.req p).mappedSize / pageSize)) := by
  unfold Kernel.prepare at h
  split at h
  · next hdata =>
    split at h
    · rw [Option.map_eq_some_iff] at h
      obtain ⟨vmStart, -, rfl⟩ := h
      by_cases hdc : d = c
      · subst hdc
        obtain ⟨_, _, _, hkeeps⟩ := biusMapData_keeps (s.req p) vmStart (rqForEachSegment (s.req p).rq)
        have hreq : (s.mapData d p vmStart).req p =
            (biusMapData (s.req p) vmStart (rqForEachSegment (s.req p).rq)).2 := by simp [Kernel.mapData]
        refine ⟨by simp [Kernel.mapData], ?_⟩
        rw [hreq]
        simp only [Kernel.mapData, Kernel.setConn_conn, Function.update_self]
        rcases mapPtes_cases (some (s.req p).id) (biusMapData (s.req p) vmStart (rqForEachSegment (s.req p).rq)).1
          (s.conn d).ptes (s.conn d).mapper i with ⟨fr, hmem, -, h₂⟩ | ⟨-, h₁, h₂⟩
        · obtain ⟨hm, hlt⟩ := biusMapData_setPte hmem
          refine Or.inr ⟨trivial, by rw [h₂, hkeeps], ?_, hm, hlt⟩
          rw [hkeeps]
          simp only [Bool.and_eq_true, decide_eq_true_eq] at hdata
          revert hdata
          cases (s.req p).type <;> simp [requestMayHaveData, isBlkRequest]
        · exact Or.inl ⟨h₁, h₂⟩
      · simp [Kernel.mapData, hdc]
    · split at h
      · cases h
        by_cases hdc : d = c
        · subst hdc; simp [Kernel.sendLater]
        · simp [Kernel.sendLater, hdc]
      · cases h; simp
  · cases h; simp

theorem setConn_window {s : Kernel} {c d : Nat} {k : Connection} (hp : k.ptes = (s.conn c).ptes)
    (hm : k.mapper = (s.conn c).mapper) :
    ((s.setConn c k).conn d).ptes = (s.conn d).ptes ∧ ((s.setConn c k).conn d).mapper = (s.conn d).mapper := by
  by_cases hd : d = c
  · subst hd; simp [hp, hm]
  · simp [hd]

theorem writeStart_cases (s : Kernel) (t : Tid) (c size n : Nat) (header : U2k) :
    (∃ v, s.writeStart t c size n header = s.setCall t (.done (.value v))) ∨
    ∃ p ∈ (s.conn c).waiting, s.writeStart t c size n header =
      (s.setConn c
        { s.conn c with
          waiting := (s.conn c).waiting.erase p
          sending := if (s.conn c).sending = some p then none else (s.conn c).sending }).setCall t
        (.replied c p header (min n sizeofU2k)) := by
  unfold Kernel.writeStart
  split
  · exact Or.inl ⟨_, rfl⟩
  · split
    · exact Or.inl ⟨_, rfl⟩
    · split
      · exact Or.inl ⟨_, rfl⟩
      · next p hp => exact Or.inr ⟨p, (getRequestById_some hp).1, rfl⟩

theorem finishBlk_window {s s' : Kernel} {t : Tid} {c : Nat} {p : Ptr} {header : U2k} {n : Nat}
    (h : s.finishBlk ⟨true⟩ t c p header n = some s') {d i : Nat} (hne : (s'.conn d).ptes i ≠ .zero) :
    (s.conn d).ptes i ≠ .zero ∧ (s'.conn d).mapper i = (s.conn d).mapper i ∧
      (d = c → (s.req p).mapType ≠ .unmapped → (s.req p).mappedSize / pageSize ≤ i) := by
  unfold Kernel.finishBlk at h
  dsimp only at h
  rw [if_pos rfl, Option.map_eq_some_iff] at h
  obtain ⟨vmStart, -, rfl⟩ := h
  have hconn : ∀ s₁ : Kernel, ((Kernel.endBlkRequest (if (s₁.req p).type = .zoneAppend then
      s₁.setReq p { s₁.req p with pos := toInt64 header.userData } else s₁) p header.reply).setCall t
        (.done (.value n))).conn = s₁.conn := by
    intro s₁
    by_cases hz : (s₁.req p).type = .zoneAppend
    · rw [if_pos hz]; rfl
    · rw [if_neg hz]; rfl
  rw [hconn] at hne ⊢
  by_cases hdc : d = c
  · subst hdc
    simp only [Kernel.setConn_conn, Function.update_self] at hne ⊢
    by_cases hm : (s.req p).mapType = .unmapped
    · have heff : (biusUnmapData (s.req p) vmStart).1 = [] := by rw [biusUnmapData, if_pos hm]
      rw [heff] at hne ⊢
      exact ⟨hne, rfl, fun _ hc => absurd hm hc⟩
    · obtain ⟨hle, hold, hmap⟩ := unmapData_ptes hm vmStart (s.conn d).ptes (s.conn d).mapper i hne
      exact ⟨hold, hmap, fun _ _ => hle⟩
  · simp only [Kernel.setConn_conn, Function.update_of_ne hdc] at hne ⊢
    exact ⟨hne, rfl, fun hc => absurd hc hdc⟩

/-- The end of a `bius_dev_write`: entries that are still set were set before, and
    were not those of the request. -/
theorem writeEnd_window {s s' : Kernel} {t : Tid} {c : Nat} {p : Ptr} {header : U2k} {n : Nat} {umem : UMem}
    (hlong : MappedLong (s.req p)) (h : s.writeEnd ⟨true⟩ t c p header n umem = some s') {d i : Nat}
    (hne : (s'.conn d).ptes i ≠ .zero) :
    (s.conn d).ptes i ≠ .zero ∧ (s'.conn d).mapper i = (s.conn d).mapper i ∧ ¬ (d = c ∧ s.Owner d i p) := by
  unfold Kernel.writeEnd at h
  dsimp only at h
  split at h
  · split at h
    · next hcopy =>
      -- a request that was not mapped
      have hnot : ¬ (d = c ∧ s.Owner d i p) := by
        rintro ⟨-, hown⟩
        have := hlong hown.blk hown.mapped
        have := hcopy.2.2 rfl
        omega
      split at h
      · cases h
        exact ⟨hne, rfl, hnot⟩
      · obtain ⟨h₁, h₂, -⟩ := finishBlk_window h hne
        exact ⟨h₁, h₂, hnot⟩
    · obtain ⟨h₁, h₂, h₃⟩ := finishBlk_window h hne
      refine ⟨h₁, h₂, fun ⟨hdc, hown⟩ => ?_⟩
      have := h₃ hdc hown.mapped
      have := hown.size
      omega
  · next hb =>
    have hnot : ¬ (d = c ∧ s.Owner d i p) := fun hown => hb hown.2.blk
    split at h
    · cases h
      exact ⟨hne, rfl, hnot⟩
    · split at h <;> cases h <;> exact ⟨hne, rfl, hnot⟩

/-- The steps that neither change a page table nor move a request that a connection
    has. -/
def Act.Quiet : Act → Prop
  | .mmap _ _ | .readTake _ | .readSend _ _ | .writeStart _ _ _ _ _ | .writeEnd _ _ => False
  | _ => True

theorem quiet_window {cfg : Config} {s s' : Kernel} {act : Act} (h : step cfg s act = some s') (hq : act.Quiet)
    (c : Nat) :
    (s'.conn c).ptes = (s.conn c).ptes ∧ (s'.conn c).mapper = (s.conn c).mapper ∧
      (s'.conn c).waiting = (s.conn c).waiting ∧ ∀ t, act.tid = some t → (s.call t).held = none := by
  have hset : ∀ (s : Kernel) (d : Nat) (k : Connection), k.ptes = (s.conn d).ptes → k.mapper = (s.conn d).mapper →
      k.waiting = (s.conn d).waiting → ((s.setConn d k).conn c).ptes = (s.conn c).ptes ∧
        ((s.setConn d k).conn c).mapper = (s.conn c).mapper ∧
        ((s.setConn d k).conn c).waiting = (s.conn c).waiting := by
    intro s d k h₁ h₂ h₃
    by_cases hd : c = d
    · subst hd; simp [h₁, h₂, h₃]
    · simp [hd]
  cases step_cases h with
  | mmap | readTake | readSend | writeStart | writeEnd => exact absurd hq (by simp [Act.Quiet])
  | attach d =>
    obtain ⟨h₁, h₂, h₃⟩ := hset s d { s.conn d with attached := true } rfl rfl rfl
    exact ⟨h₁, h₂, h₃, fun t ht => by cases ht⟩
  | queueRq t p rq ht hp =>
    have hconn : (s.queueRq t p rq).conn = s.conn := by
      unfold Kernel.queueRq
      dsimp only
      split <;> rfl
    rw [hconn]
    exact ⟨rfl, rfl, rfl, fun u hu => by cases hu; rw [ht]; rfl⟩
  | reportZones t p sector nr blkz ht hp =>
    have hconn : (s.reportZones t p sector nr blkz).conn = s.conn := by cases blkz <;> rfl
    rw [hconn]
    exact ⟨rfl, rfl, rfl, fun u hu => by cases hu; rw [ht]; rfl⟩
  | readStart t d size cuts ht hs =>
    have hheld : ∀ u, (Act.readStart t d size cuts).tid = some u → (s.call u).held = none :=
      fun u hu => by cases hu; rw [ht]; rfl
    unfold Kernel.readStart at hs
    split at hs
    · cases hs; exact ⟨rfl, rfl, rfl, hheld⟩
    · split at hs
      · next p hp =>
        rw [Option.map_eq_some_iff] at hs
        obtain ⟨res, -, rfl⟩ := hs
        obtain ⟨h₁, h₂, h₃⟩ := hset (s.setReq p res.1) d { s.conn d with sending := none } rfl rfl rfl
        dsimp only
        split <;> split <;> first | exact ⟨rfl, rfl, rfl, hheld⟩ | exact ⟨h₁, h₂, h₃, hheld⟩
      · split at hs <;> cases hs <;> exact ⟨rfl, rfl, rfl, hheld⟩
  | insert t p ht | zonesWake t p _ _ ht _ | readInterrupt t d e ht | ret t r ht =>
    exact ⟨rfl, rfl, rfl, fun u hu => by cases hu; rw [ht]; rfl⟩

theorem step_owned {s s' : Kernel} {act : Act} (hi : s.life.Inv) (hlong : ∀ p, MappedLong (s.req p))
    (h : step ⟨true⟩ s act = some s') (hok : SendsMapped s act) (ho : s.Owned) : s'.Owned := by
  intro c i hne
  by_cases hq : act.Quiet
  · obtain ⟨hp, hm, hw, hheld⟩ := quiet_window h hq c
    obtain ⟨p, hown⟩ := ho c i (hp ▸ hne)
    exact ⟨p, owner_others hi h hown hheld (congrFun hm i) (by rw [hw]; exact id)⟩
  cases step_cases h with
  | mmap d vmStart _ _ =>
    by_cases hd : c = d
    · subst hd; simp at hne
    · rw [Kernel.setConn_conn, Function.update_of_ne hd] at hne
      obtain ⟨p, hown⟩ := ho c i hne
      exact ⟨p, owner_others hi h hown (fun t ht => by cases ht) (by simp [hd]) (fun hw => by simpa [hd] using hw)⟩
  | readTake t d p ps ht hp hs =>
    obtain ⟨hw, hcase⟩ := prepare_window hs c i
    rcases hcase with ⟨hpte, hm⟩ | ⟨rfl, hm, hb, hmt, hsize⟩
    · obtain ⟨q, hown⟩ := ho c i (by rw [hpte] at hne; exact hne)
      exact ⟨q, owner_others hi h hown (fun u hu => by cases hu; rw [ht]; rfl) hm (by rw [hw]; exact id)⟩
    · refine ⟨p, hm, hb, hmt, hsize, Or.inr (Or.inl ⟨t, ?_⟩)⟩
      rw [(prepare_frame hs).2.2]
      simp
  | readSend t d p n ht =>
    have hheld : ∀ u, (Act.readSend t n).tid = some u → (s.call u).held = some p :=
      fun u hu => by cases hu; rw [ht]; rfl
    have htouch : (Act.readSend t n).touches s = some p := by rw [Act.touches, ht]; rfl
    by_cases hn : n = 0
    · -- the command of a request that is not mapped could not be sent
      have hpm : (s.req p).mapType = .unmapped := by
        by_contra hm
        exact hok d p ht hm hn
      have hs' : ∃ s₁ : Kernel, s₁.conn = s.conn ∧ (s.readSend ⟨true⟩ t d p n).conn =
          (s₁.setConn d { s₁.conn d with sending := none }).conn := by
        rw [Kernel.readSend, if_pos hn]
        exact ⟨s.endBlkRequest p blkStsIoerr, rfl, rfl⟩
      obtain ⟨s₁, hs₁, hconn⟩ := hs'
      have hwait : ((s₁.setConn d { s₁.conn d with sending := none }).conn c).waiting = (s₁.conn c).waiting := by
        by_cases hd : c = d
        · subst hd; simp
        · simp [hd]
      obtain ⟨hp, hm⟩ := setConn_window (s := s₁) (c := d) (d := c)
        (k := { s₁.conn d with sending := none }) rfl rfl
      rw [hconn, hp, hs₁] at hne
      obtain ⟨q, hown⟩ := ho c i hne
      have hqp : q ≠ p := fun he => hown.mapped (he ▸ hpm)
      exact ⟨q, owner_others_held h hheld htouch hqp hown (by rw [hconn, hm, hs₁])
        (by rw [hconn, hwait, hs₁]; exact id)⟩
    · have hconn : (s.readSend ⟨true⟩ t d p n).conn =
          (s.setConn d { s.conn d with waiting := (s.conn d).waiting ++ [p] }).conn := by
        rw [Kernel.readSend, if_neg hn]; rfl
      obtain ⟨hp, hm⟩ := setConn_window (s := s) (c := d) (d := c)
        (k := { s.conn d with waiting := (s.conn d).waiting ++ [p] }) rfl rfl
      rw [hconn, hp] at hne
      obtain ⟨q, hown⟩ := ho c i hne
      by_cases hqp : q = p
      · -- its owner has moved to the waiting list
        subst hqp
        obtain ⟨loc, hl, -⟩ := hi
        obtain rfl := with_inj hl hown.held (Or.inr (Or.inl ⟨t, ht⟩))
        have hreq : (s.readSend ⟨true⟩ t c q n).req = s.req := by
          rw [Kernel.readSend, if_neg hn]; rfl
        refine ⟨q, ?_, ?_, ?_, ?_, Or.inl ?_⟩
        · rw [hconn, hm, hreq]; exact hown.mapper
        · rw [hreq]; exact hown.blk
        · rw [hreq]; exact hown.mapped
        · rw [hreq]; exact hown.size
        · rw [hconn]; simp
      · refine ⟨q, owner_others_held h hheld htouch hqp hown (by rw [hconn, hm]) (fun hw => ?_)⟩
        rw [hconn]
        by_cases hd : c = d
        · subst hd; simp [hw]
        · simpa [hd] using hw
  | writeStart t d size n header ht hc =>
    have hidle : ∀ u, (Act.writeStart t d size n header).tid = some u → (s.call u).held = none :=
      fun u hu => by cases hu; rw [ht]; rfl
    rcases writeStart_cases s t d size n header with ⟨v, heq⟩ | ⟨p, hp, heq⟩
    · rw [heq] at h hne ⊢
      obtain ⟨q, hown⟩ := ho c i hne
      exact ⟨q, owner_others hi h hown hidle rfl id⟩
    · rw [heq] at h hne ⊢
      obtain ⟨hpt, hm⟩ := setConn_window (s := s) (c := d) (d := c)
        (k := { s.conn d with
          waiting := (s.conn d).waiting.erase p
          sending := if (s.conn d).sending = some p then none else (s.conn d).sending }) rfl rfl
      rw [Kernel.setCall_conn, hpt] at hne
      obtain ⟨q, hown⟩ := ho c i hne
      by_cases hqp : q = p
      · -- its owner is in the hands of `t`
        subst hqp
        obtain ⟨loc, hl, -⟩ := hi
        obtain rfl := with_inj hl hown.held (Or.inl hp)
        exact ⟨q, by rw [Kernel.setCall_conn, hm]; exact hown.mapper, hown.blk, hown.mapped, hown.size,
          Or.inr (Or.inr ⟨t, header, min n sizeofU2k, by simp⟩)⟩
      · refine ⟨q, owner_others hi h hown hidle (by rw [Kernel.setCall_conn, hm]) (fun hw => ?_)⟩
        by_cases hd : c = d
        · subst hd
          simpa [List.mem_erase_of_ne hqp] using hw
        · simpa [hd] using hw
  | writeEnd t d p header n umem ht hs =>
    obtain ⟨hold, hm, hnot⟩ := writeEnd_window (hlong p) hs hne
    obtain ⟨q, hown⟩ := ho c i hold
    have hqp : q ≠ p := by
      rintro rfl
      obtain ⟨loc, hl, -⟩ := hi
      exact hnot ⟨with_inj hl hown.held (Or.inr (Or.inr ⟨t, header, n, ht⟩)), hown⟩
    have hwait : (s'.conn c).waiting = (s.conn c).waiting := congrFun (congrArg Life.waiting (writeEnd_life hs)) c
    exact ⟨q, owner_others_held h (fun u hu => by cases hu; rw [ht]; rfl) (by rw [Act.touches, ht]; rfl) hqp hown hm
      (by rw [hwait]; exact id)⟩
  | _ => exact absurd trivial hq

/-- No call on the connection is in progress. -/
def Kernel.Between (s : Kernel) (c : Nat) : Prop :=
  ∀ t, (∀ p, s.call t ≠ .readTaken c p) ∧ ∀ p header n, s.call t ≠ .replied c p header n

/-- **Lifetime of user mappings.** In every run in which no command of a mapped
    request fails to be sent, and in every state of it: between calls on a
    connection, an entry of its window that does not point to the zero page was
    installed by `bius_map_data` for a request in the waiting list. -/
theorem mapping_lifetime {s : Kernel} (h : Machine.Reach (step ⟨true⟩) SendsMapped Kernel.init s)
    (hid : s.nextRequestId < 2 ^ 64) {c : Nat} (hc : s.Between c) {i : Nat} (hi : (s.conn c).ptes i ≠ .zero) :
    ∃ p ∈ (s.conn c).waiting, (s.conn c).mapper i = some (s.req p).id := by
  have howned : s.Owned := by
    refine h.induct (I := fun s => s.nextRequestId < 2 ^ 64 → s.Owned) (fun _ c i hne => absurd rfl hne) ?_ hid
    intro s act s' hr ih hok hs hid'
    have hid := Nat.lt_of_le_of_lt (step_life hs hid').next_le hid'
    refine step_owned (reach_life hr hid) (fun p => ?_) hs hok (ih hid)
    exact reach_request (P := MappedLong) (fun _ hm => absurd rfl hm) (fun _ _ _ _ _ => mappedLong_rewritten) hr hid p
  obtain ⟨p, hown⟩ := howned c i hi
  refine ⟨p, ?_, hown.mapper⟩
  rcases hown.held with hw | ⟨t, ht⟩ | ⟨t, header, n, ht⟩
  · exact hw
  · exact absurd ht ((hc t).1 p)
  · exact absurd ht ((hc t).2 p header n)

/-- A read of 33 pages. -/
def pagesRead : Rq where
  op := 0
  sector := 0
  dataLen := 135168
  bios := [⟨[⟨100, 0, List.replicate 135168 0, by rw [List.length_replicate]; decide⟩]⟩]
  len_eq := fun _ => by
    simp only [chainBytes_cons, chainBytes_nil, Bio.bytes, List.flatMap_cons, List.flatMap_nil,
      List.append_nil, List.length_replicate]

theorem pagesRead_segments : rqForEachSegment pagesRead.bios = splitPages 100 0 135168 := by
  simp only [rqForEachSegment, pagesRead, List.flatMap_cons, List.flatMap_nil, List.append_nil,
    List.length_replicate]

/-- A read is mapped into the window of connection 0, and `n` bytes of its command
    are copied. -/
def windowRead (rq : Rq) (n : Nat) : List Act :=
  [.attach 0, .mmap 0 0x7f0000000000, .queueRq (.blk 0) 5 rq, .insert (.blk 0), .readStart (.user 0) 0 56 [],
   .readTake (.user 0), .readSend (.user 0) n]

theorem windowRead_run (rq : Rq) (hop : rq.op = 0) (hlen : biusMapDataThreshold < rq.dataLen) (n : Nat) :
    ∃ s, Machine.run (step ⟨true⟩) Kernel.init (windowRead rq n) = some s ∧ s.nextRequestId = 1 ∧
      (s.conn 0).ptes = Kernel.mapPtes (fun _ => .zero)
        (biusMapData (initBlkRequest .blank 1 rq) 0x7f0000000000 (rqForEachSegment rq.bios)).1 ∧
      (s.conn 0).waiting = (if n = 0 then [] else [5]) ∧
      s.ended.map BiusRequest.id = (if n = 0 then [1] else []) ∧ s.Between 0 := by
  have hty : toBiusRequest rq.op = .read := by rw [hop]; rfl
  have hpos : 0 < rq.dataLen := Nat.lt_of_le_of_lt (Nat.zero_le _) hlen
  have hrun : ∃ s, Machine.run (step ⟨true⟩) Kernel.init (windowRead rq n) = some s ∧ s.nextRequestId = 1 ∧
      (s.conn 0).ptes = Kernel.mapPtes (fun _ => .zero)
        (biusMapData (initBlkRequest .blank 1 rq) 0x7f0000000000 (rqForEachSegment rq.bios)).1 ∧
      (s.conn 0).waiting = (if n = 0 then [] else [5]) ∧
      s.ended.map BiusRequest.id = (if n = 0 then [1] else []) ∧
      (∃ r, s.call (.user 0) = .done r) ∧ ∃ r, s.call (.blk 0) = .done r := by
    have hkeeps : ∀ r vmStart segs, (biusMapData r vmStart segs).2.id = r.id := by
      intro r vmStart segs
      obtain ⟨_, _, _, heq⟩ := biusMapData_keeps r vmStart segs
      rw [heq]
    by_cases hn : n = 0 <;>
      simp [windowRead, Machine.run, step, Kernel.init, Connection.new, Kernel.queueRq, initBlkRequest, hty,
        Kernel.newId, Kernel.readStart, Kernel.readTake, Kernel.prepare, requestMayHaveData, hlen, hpos,
        Kernel.readSend, hn, Kernel.mapData, isBlkRequest, sizeofK2u, Kernel.endBlkRequest, BiusRequest.blank, hkeeps]
  obtain ⟨s, h, hnext, hptes, hwait, hended, ⟨r₁, hu⟩, r₂, hb⟩ := hrun
  refine ⟨s, h, hnext, hptes, hwait, hended, fun t => ?_⟩
  by_cases htu : t = .user 0
  · subst htu
    rw [hu]
    exact ⟨fun _ => by simp, fun _ _ _ => by simp⟩
  · by_cases htb : t = .blk 0
    · subst htb
      rw [hb]
      exact ⟨fun _ => by simp, fun _ _ _ => by simp⟩
    · have hidle := steps_call (Machine.Steps.of_run h) (u := t) (by
        simp [windowRead, Act.tid, Ne.symm htu, Ne.symm htb])
      rw [hidle]
      exact ⟨fun _ => by simp [Kernel.init], fun _ _ _ => by simp [Kernel.init]⟩

theorem pagesRead_ptes : Kernel.mapPtes (fun _ => .zero)
    (biusMapData (initBlkRequest .blank 1 pagesRead) 0x7f0000000000 (rqForEachSegment pagesRead.bios)).1 0 =
      .data 100 := by
  rw [pagesRead_segments]
  simp only [biusMapData, initBlkRequest]
  rfl

theorem mapping_lifetime_pagesRead : ∃ s, Machine.run (step ⟨true⟩) Kernel.init (windowRead pagesRead 56) =
    some s ∧
    (s.conn 0).ptes 0 = .data 100 ∧
    ∃ p ∈ (s.conn 0).waiting, (s.conn 0).mapper 0 = some (s.req p).id := by
  obtain ⟨s, hrun, hnext, hptes, -, -, hbetween⟩ := windowRead_run pagesRead rfl (by decide) 56
  have hpte : (s.conn 0).ptes 0 = .data 100 := by rw [hptes]; exact pagesRead_ptes
  refine ⟨s, hrun, hpte, mapping_lifetime ⟨windowRead pagesRead 56, ?_⟩ (by omega) hbetween (by rw [hpte]; simp)⟩
  refine Machine.Steps.of_run_ok hrun (fun s act hact => ?_)
  simp only [windowRead, List.mem_cons, List.not_mem_nil, or_false] at hact
  rcases hact with rfl | rfl | rfl | rfl | rfl | rfl | rfl
  all_goals first | trivial | exact fun _ _ _ _ => by decide

/-- The command of a mapped read could not be sent: the read is ended, and its first
    page stays in the window. -/
theorem mapping_lifetime_leaks : ∃ s, Machine.run (step ⟨true⟩) Kernel.init (windowRead pagesRead 0) = some s ∧
    s.Between 0 ∧ (s.conn 0).ptes 0 = .data 100 ∧ (s.conn 0).waiting = [] ∧ s.ended.map BiusRequest.id = [1] := by
  obtain ⟨s, hrun, -, hptes, hwait, hended, hbetween⟩ := windowRead_run pagesRead rfl (by decide) 0
  exact ⟨s, hrun, hbetween, by rw [hptes]; exact pagesRead_ptes, hwait, hended⟩

end Bius
