import Bius.RequestSteps

/- Replies to report-zones requests. `bius_dev_write` copies `reply` bytes into the
   buffer that `bius_report_zones` has allocated, `bius_report_zones` then reads the
   same value as an `int` and divides it by the size of a zone. Nothing compares it
   with the number of zones asked for: `zonesBounded_iff` says which replies stay
   within the buffer and within that number. -/
namespace Bius

/-! ## The buffer -/

/-- A report-zones request that has not been answered has a buffer for the zones it
    asks for. -/
def ZonesBuffer (r : BiusRequest) : Prop :=
  r.type = .reportZones →
    r.length ≤ biusMaxZones ∧ (r.sem = 0 → r.data.length = sizeofBlkZone * r.length)

theorem zonesBuffer_rewritten {cfg : Config} {busy : Bool} {sending : Prop} {r r' : BiusRequest}
    (h : Rewritten cfg busy sending r r') (hr : ZonesBuffer r) : ZonesBuffer r' := by
  cases h with
  | same => exact hr
  | queued id rq _ => exact fun ht => absurd ht (toBiusRequest_ne_reportZones rq.op)
  | zones id sector n blkz _ hn hlen => exact fun _ => ⟨hn, fun _ => hlen⟩
  | later => exact hr
  | mapped vmStart _ _ _ =>
    obtain ⟨_, _, _, heq⟩ := biusMapData_keeps r vmStart (rqForEachSegment r.rq)
    rw [heq]; exact hr
  | sent size cuts res _ hres =>
    obtain ⟨_, _, heq⟩ := biusSendData_keeps hres
    rw [heq]; exact hr
  | failed =>
    intro ht
    obtain ⟨hle, _⟩ := hr ht
    have hb : isBlkRequest r.type = false := by rw [show r.type = .reportZones from ht]; rfl
    exact ⟨hle, fun hsem => by simp [hb] at hsem⟩
  | finished rq mapType pos blkResult hb _ _ =>
    intro ht
    rw [show r.type = .reportZones from ht] at hb
    cases hb
  | answered data intResult _ => exact fun ht => ⟨(hr ht).1, fun hsem => by cases hsem⟩

/-! ## The loop over the zones -/

theorem zonesLoop_spec (cb : Nat → Int) (n i : Nat) :
    (∀ j ∈ (Kernel.zonesLoop cb n i).1, i ≤ j ∧ j < i + n) ∧
    (∀ v, (Kernel.zonesLoop cb n i).2 = some v → ∃ j, v = cb j ∧ cb j ≠ 0) := by
  induction n generalizing i with
  | zero => simp [Kernel.zonesLoop]
  | succ n ih =>
    obtain ⟨ih₁, ih₂⟩ := ih (i + 1)
    simp only [Kernel.zonesLoop]
    split
    · refine ⟨fun j hj => ?_, ih₂⟩
      rcases List.mem_cons.1 hj with rfl | hj
      · omega
      · have := ih₁ j hj; omega
    · next hcb =>
      refine ⟨fun j hj => ?_, fun v hv => ⟨i, by simpa using hv.symm, hcb⟩⟩
      rw [List.mem_singleton] at hj
      omega

theorem zonesLoop_all (n i : Nat) :
    Kernel.zonesLoop (fun _ => 0) n i = (List.range' i n, none) := by
  induction n generalizing i with
  | zero => rfl
  | succ n ih => simp [Kernel.zonesLoop, ih, List.range'_succ]

/-- What `bius_report_zones` makes of an `int_result`: the callback's indices and
    the value returned stay within `length` zones, for any callback, exactly if the
    result names no more. -/
theorem reportZonesEnd_bounded_iff {r : BiusRequest} {v : Int} (hv : r.intResult = some v) (junk : Int)
    (length : Nat) :
    (∀ cb calls result, Kernel.reportZonesEnd r junk cb = .zones calls result →
      (∀ i ∈ calls, i < length) ∧ ((∀ i, cb i ≤ 0) → result < 0 ∨ result ≤ length)) ↔
    v < sizeofBlkZone * (length + 1) := by
  simp only [Kernel.reportZonesEnd, hv, Option.getD_some]
  by_cases hneg : v < 0
  · refine ⟨fun _ => by simp only [sizeofBlkZone]; omega, fun _ cb calls result h => ?_⟩
    rw [if_pos hneg] at h
    cases h
    exact ⟨by simp, fun _ => Or.inl hneg⟩
  · simp only [if_neg hneg]
    constructor
    · intro h
      have h0 := (h (fun _ => 0) _ _ rfl).1
      rw [zonesLoop_all] at h0
      by_contra hge
      have := h0 length (by
        simp only [List.mem_range'_1, sizeofBlkZone] at hge ⊢
        omega)
      omega
    · intro hlt cb calls result h
      cases h
      obtain ⟨h₁, h₂⟩ := zonesLoop_spec cb (v.toNat / sizeofBlkZone) 0
      have hn : v.toNat / sizeofBlkZone ≤ length := by
        simp only [sizeofBlkZone] at hlt ⊢; omega
      refine ⟨fun i hi => by have := h₁ i hi; omega, fun hcb => ?_⟩
      cases hres : (Kernel.zonesLoop cb (v.toNat / sizeofBlkZone) 0).2 with
      | none => exact Or.inr (by simp only [Option.getD_none]; exact_mod_cast hn)
      | some w =>
        obtain ⟨j, rfl, hj⟩ := h₂ w hres
        have := hcb j
        exact Or.inl (by simp only [Option.getD_some]; omega)

theorem reportZonesEnd_zones (r : BiusRequest) (junk : Int) (cb : Nat → Int) :
    ∃ calls result, Kernel.reportZonesEnd r junk cb = .zones calls result := by
  unfold Kernel.reportZonesEnd
  dsimp only
  split <;> exact ⟨_, _, rfl⟩

/-! ## A reply and what follows -/

/-- A course of events. In `s` thread `t` writes the reply `header` on connection
    `c`; when it ends the request `p`, the buffer holds `data`; then thread `u`
    finishes the `bius_report_zones` that had issued `p`, with callback `cb`. Other
    threads run in between. -/
def ZonesAnswered (cfg : Config) (s : Kernel) (t u : Tid) (c : Nat) (p : Ptr) (header : U2k)
    (cb : Nat → Int) (data : List UInt8) (calls : List Nat) (result : Int) : Prop :=
  ∃ size n s₁ acts₁ s₂ umem s₃ acts₂ s₄ junk s₅,
    sizeofU2k ≤ size ∧ 0 < n ∧ step cfg s (.writeStart t c size n header) = some s₁ ∧
    Machine.Steps (step cfg) (fun _ _ => True) s₁ acts₁ s₂ ∧
    (∀ act ∈ acts₁, act.tid ≠ some t ∧ act.tid ≠ some u) ∧
    step cfg s₂ (.writeEnd t umem) = some s₃ ∧ (s₃.req p).data = data ∧
    Machine.Steps (step cfg) (fun _ _ => True) s₃ acts₂ s₄ ∧ (∀ act ∈ acts₂, act.tid ≠ some u) ∧
    s₄.nextRequestId < 2 ^ 64 ∧
    step cfg s₄ (.zonesWake u junk cb) = some s₅ ∧ s₅.call u = .done (.zones calls result)

/-- The same, where the memory of userspace is `umem` when the reply is processed. -/
def ZonesAnsweredFrom (cfg : Config) (s : Kernel) (t u : Tid) (c : Nat) (p : Ptr) (header : U2k) (umem : UMem)
    (cb : Nat → Int) (data : List UInt8) (calls : List Nat) (result : Int) : Prop :=
  ∃ size n s₁ acts₁ s₂ s₃ acts₂ s₄ junk s₅,
    sizeofU2k ≤ size ∧ 0 < n ∧ step cfg s (.writeStart t c size n header) = some s₁ ∧
    Machine.Steps (step cfg) (fun _ _ => True) s₁ acts₁ s₂ ∧
    (∀ act ∈ acts₁, act.tid ≠ some t ∧ act.tid ≠ some u) ∧
    step cfg s₂ (.writeEnd t umem) = some s₃ ∧ (s₃.req p).data = data ∧
    Machine.Steps (step cfg) (fun _ _ => True) s₃ acts₂ s₄ ∧ (∀ act ∈ acts₂, act.tid ≠ some u) ∧
    s₄.nextRequestId < 2 ^ 64 ∧
    step cfg s₄ (.zonesWake u junk cb) = some s₅ ∧ s₅.call u = .done (.zones calls result)

theorem zonesAnswered_iff {cfg : Config} {s : Kernel} {t u : Tid} {c : Nat} {p : Ptr} {header : U2k} {cb : Nat → Int}
    {data : List UInt8} {calls : List Nat} {result : Int} :
    ZonesAnswered cfg s t u c p header cb data calls result ↔
      ∃ umem, ZonesAnsweredFrom cfg s t u c p header umem cb data calls result := by
  constructor
  · intro h
    obtain ⟨size, n, s₁, acts₁, s₂, umem, s₃, acts₂, s₄, junk, s₅, h⟩ := h
    exact ⟨umem, size, n, s₁, acts₁, s₂, s₃, acts₂, s₄, junk, s₅, h⟩
  · intro h
    obtain ⟨umem, size, n, s₁, acts₁, s₂, s₃, acts₂, s₄, junk, s₅, h⟩ := h
    exact ⟨size, n, s₁, acts₁, s₂, umem, s₃, acts₂, s₄, junk, s₅, h⟩

/-- Whatever happens after the reply, `bius_dev_write` has not written behind the
    buffer, and `bius_report_zones` calls its callback only for zones it has asked
    for and returns no more than these. -/
def ZonesBounded (cfg : Config) (s : Kernel) (t u : Tid) (c : Nat) (p : Ptr) (header : U2k) : Prop :=
  ∀ cb data calls result, ZonesAnswered cfg s t u c p header cb data calls result →
    data.length ≤ sizeofBlkZone * (s.req p).length ∧ (∀ i ∈ calls, i < (s.req p).length) ∧
    ((∀ i, cb i ≤ 0) → result < 0 ∨ result ≤ (s.req p).length)

/-- The replies that do no harm to a request for `length` zones: an error or zero
    that as an `int` is below the size of `length + 1` zones, a positive reply that
    fits the buffer, or one so large that `copy_from_user` refuses it. -/
def ZonesHarmless (length : Nat) (reply : Int) : Prop :=
  (reply ≤ 0 ∧ toInt32 reply < sizeofBlkZone * (length + 1)) ∨
  (0 < reply ∧ (reply ≤ sizeofBlkZone * length ∨ 2 ^ 31 ≤ reply))

/-- The buffer and `int_result` after the reply. -/
def zonesReplied (r : BiusRequest) (header : U2k) (umem : UMem) : List UInt8 × Int :=
  if header.reply ≤ 0 then (r.data, toInt32 header.reply)
  else
    let res := Kernel.copyFromUserSized umem header.userData header.reply.toNat
    (res.1 ++ r.data.drop res.1.length, if 0 < res.2 then toInt32 (-eINVAL) else toInt32 header.reply)

theorem writeEnd_zones {cfg : Config} {s s' : Kernel} {t : Tid} {c : Nat} {p : Ptr} {header : U2k} {n : Nat}
    {umem : UMem} (hz : (s.req p).type = .reportZones) (h : s.writeEnd cfg t c p header n umem = some s') :
    s'.req p = { s.req p with
      data := (zonesReplied (s.req p) header umem).1
      intResult := some (zonesReplied (s.req p) header umem).2
      sem := (s.req p).sem + 1 } := by
  have hb : isBlkRequest (s.req p).type = false := by rw [hz]; rfl
  unfold Kernel.writeEnd at h
  dsimp only at h
  rw [if_neg (by simp [hb])] at h
  unfold zonesReplied
  split at h
  · next hle =>
    cases h
    rw [Kernel.setCall_req, endRequestInt_req s hb, if_pos hle]
  · next hle =>
    rw [if_neg hle]
    split at h <;>
    · next hres =>
      cases h
      rw [Kernel.setCall_req, endRequestInt_req _ (by simpa using hb)]
      simp [hres]

/-- The reply leaves the buffer within its bounds, and a result that names no more
    zones than were asked for, whatever userspace's memory holds, exactly if it is
    harmless. -/
theorem zonesReplied_iff {r : BiusRequest} (hlen : r.data.length = sizeofBlkZone * r.length)
    (hmax : r.length ≤ biusMaxZones) (header : U2k) :
    (∀ umem, (zonesReplied r header umem).1.length ≤ sizeofBlkZone * r.length ∧
      (zonesReplied r header umem).2 < sizeofBlkZone * (r.length + 1)) ↔
    ZonesHarmless r.length header.reply := by
  unfold zonesReplied ZonesHarmless Kernel.copyFromUserSized
  dsimp only
  simp only [sizeofBlkZone, biusMaxZones] at *
  by_cases hle : header.reply ≤ 0
  · simp only [if_pos hle, hlen]
    exact ⟨fun h => Or.inl ⟨hle, (h (fun _ => none)).2⟩, fun h _ => ⟨Nat.le_refl _, by omega⟩⟩
  · simp only [if_neg hle]
    by_cases hbig : 2 ^ 31 ≤ header.reply.toNat
    · simp only [if_pos hbig, toInt32, eINVAL]
      refine ⟨fun _ => Or.inr (by omega), fun _ _ => ⟨by simp [hlen], ?_⟩⟩
      rw [if_pos (by omega)]
      omega
    · simp only [if_neg hbig, List.length_append, List.length_drop, copyFromUser_length, hlen]
      constructor
      · intro h
        have := (h (fun _ => none)).1
        exact Or.inr (by omega)
      · intro h umem
        refine ⟨by omega, ?_⟩
        split <;> simp only [toInt32, eINVAL] <;> omega

theorem writeEnd_zones_isSome (cfg : Config) {s : Kernel} (t : Tid) (c : Nat) {p : Ptr} (header : U2k)
    (n : Nat) (umem : UMem) (hz : (s.req p).type = .reportZones) :
    ∃ s', s.writeEnd cfg t c p header n umem = some s' := by
  have hb : isBlkRequest (s.req p).type = false := by rw [hz]; rfl
  unfold Kernel.writeEnd
  dsimp only
  rw [if_neg (by simp [hb])]
  split
  · exact ⟨_, rfl⟩
  · split <;> exact ⟨_, rfl⟩

section
variable {cfg : Config} {s : Kernel} (h : Machine.Reach (step cfg) (fun _ _ => True) Kernel.init s)
  (hid : s.nextRequestId < 2 ^ 64) {c : Nat} {p : Ptr} (hp : p ∈ (s.conn c).waiting)
  (hz : (s.req p).type = .reportZones) {t u : Tid} (ht : s.call t = .idle)
  (hu : s.call u = .zonesWait p) {header : U2k} (hh : header.id = (s.req p).id)
include h hid hp hz ht hu hh

/-- Every course of events comes to what `zonesReplied` says. -/
theorem zonesAnswered_elim {umem : UMem} {cb : Nat → Int} {data : List UInt8} {calls : List Nat} {result : Int}
    (ha : ZonesAnsweredFrom cfg s t u c p header umem cb data calls result) :
    ∃ r junk, r.intResult = some (zonesReplied (s.req p) header umem).2 ∧
      data = (zonesReplied (s.req p) header umem).1 ∧ Kernel.reportZonesEnd r junk cb = .zones calls result := by
  obtain ⟨size, n, s₁, acts₁, s₂, s₃, acts₂, s₄, junk, s₅, hsize, hpos, hw, hrun₁, hacts₁, hend, hdata,
    hrun₂, hacts₂, hid₄, hwake, hres⟩ := ha
  have hut : u ≠ t := fun he => by rw [he, ht] at hu; cases hu
  obtain ⟨hcall₁, hothers, hreq₁, -⟩ := reply_found h hid hw hsize hpos hp hh
  have hu₁ := (hothers u hut).trans hu
  have hr₁ := h.snoc trivial hw
  have hid₃ : s₃.nextRequestId < 2 ^ 64 := Nat.lt_of_le_of_lt (steps_next_le hrun₂ hid₄) hid₄
  have hid₂ : s₂.nextRequestId < 2 ^ 64 := Nat.lt_of_le_of_lt (step_life hend hid₃).next_le hid₃
  -- up to the end of the write nobody touches the request
  obtain ⟨hcall₂, hreq₂⟩ := replied_steps hr₁ hrun₁ hid₂ (fun a ha => (hacts₁ a ha).1) hcall₁
  have hu₂ : s₂.call u = .zonesWait p :=
    steps_others (Q := fun x => x.call u = .zonesWait p) (fun _ _ _ _ hst hact hx => (step_call hst hact).trans hx)
      hr₁ hrun₁ hid₂ (fun a ha => (hacts₁ a ha).2) hu₁
  obtain ⟨as₁, hr₁'⟩ := hr₁
  have hr₃ := Machine.Reach.snoc ⟨as₁ ++ acts₁, hr₁'.append hrun₁⟩ trivial hend
  have hz₂ : (s₂.req p).type = .reportZones := by rw [hreq₂, hreq₁]; exact hz
  cases step_cases hend with
  | writeEnd _ c' p' header' n' _ hcall hend =>
    rw [hcall₂] at hcall
    cases hcall
    have hreq₃ := writeEnd_zones hz₂ hend
    have hu₃ := ((writeEnd_frame hend).2 u hut).trans hu₂
    -- and from then on nobody until the caller wakes up
    obtain ⟨hu₄, hreq₄⟩ := over_steps hr₃ hrun₂ hid₄ hacts₂ hu₃ (by rw [hreq₃]; exact Nat.succ_pos _)
    cases step_cases hwake with
    | zonesWake _ p'' _ _ hu₅ hsem =>
      rw [hu₄] at hu₅
      cases hu₅
      simp only [Function.update_self, Call.done.injEq] at hres
      refine ⟨s₄.req p, junk, ?_, ?_, hres⟩
      · rw [hreq₄, hreq₃, hreq₂, hreq₁]
      · rw [← hdata, hreq₃, hreq₂, hreq₁]

/-- There is such a course: the reply, its end and the wake-up may follow each other at
    once. -/
theorem zonesAnswered_intro (hc : (s.conn c).attached = true) (umem : UMem) (junk : Int) :
    ∃ r, r.intResult = some (zonesReplied (s.req p) header umem).2 ∧
      ∀ cb calls result, Kernel.reportZonesEnd r junk cb = .zones calls result →
        ZonesAnsweredFrom cfg s t u c p header umem cb (zonesReplied (s.req p) header umem).1 calls result := by
  have hw : step cfg s (.writeStart t c sizeofU2k sizeofU2k header) =
      some (s.writeStart t c sizeofU2k sizeofU2k header) := by simp [step, ht, hc]
  have hut : u ≠ t := fun he => by rw [he, ht] at hu; cases hu
  obtain ⟨hcall₁, hothers, hreq₁, hid₁⟩ := reply_found h hid hw (Nat.le_refl _) (by decide) hp hh
  have hu₁ := (hothers u hut).trans hu
  obtain ⟨s₃, hend⟩ := writeEnd_zones_isSome cfg (s := s.writeStart t c sizeofU2k sizeofU2k header) t c
    header (min sizeofU2k sizeofU2k) umem (by rw [hreq₁]; exact hz)
  have hreq₃ := writeEnd_zones (by rw [hreq₁]; exact hz) hend
  have hu₃ := ((writeEnd_frame hend).2 u hut).trans hu₁
  have hid₃ : s₃.nextRequestId < 2 ^ 64 := by
    have hnext : s₃.nextRequestId = _ := congrArg Life.next (writeEnd_life hend)
    rw [hnext]
    exact Nat.lt_of_le_of_lt (Nat.le_of_eq hid₁) hid
  refine ⟨s₃.req p, by rw [hreq₃, hreq₁], fun cb calls result hres => ?_⟩
  refine ⟨sizeofU2k, sizeofU2k, _, [], _, s₃, [], s₃, junk,
    { s₃ with
      busy := Function.update s₃.busy p false
      call := Function.update s₃.call u (.done (Kernel.reportZonesEnd (s₃.req p) junk cb)) },
    Nat.le_refl _, by decide, hw, .nil _, by simp, ?_, ?_, .nil _, by simp, hid₃, ?_, ?_⟩
  · simp only [step, hcall₁, hend]
  · rw [hreq₃, hreq₁]
  · simp only [step, hu₃]
    rw [if_pos (by rw [hreq₃]; exact Nat.succ_pos _)]
  · simp [hres]

end

/-- **Bounded replies.** Whatever else runs, a reply to a report-zones request is
    bounded by the request exactly if it is harmless; and whatever it is, the request can
    be answered with it. -/
theorem zonesBounded_iff {cfg : Config} {s : Kernel}
    (h : Machine.Reach (step cfg) (fun _ _ => True) Kernel.init s) (hid : s.nextRequestId < 2 ^ 64)
    {c : Nat} {p : Ptr} (hp : p ∈ (s.conn c).waiting) (hz : (s.req p).type = .reportZones) :
    ∃ u, s.call u = .zonesWait p ∧ ∀ t header, s.call t = .idle → (s.conn c).attached = true →
      header.id = (s.req p).id →
      (∀ umem cb, ∃ data calls result, ZonesAnsweredFrom cfg s t u c p header umem cb data calls result) ∧
      (ZonesBounded cfg s t u c p header ↔ ZonesHarmless (s.req p).length header.reply) := by
  have hb : isBlkRequest (s.req p).type = false := by rw [hz]; rfl
  obtain ⟨loc, hl, hn⟩ := reach_life h hid
  have hloc : loc p = .waiting c := (hl.waiting c p).1 hp
  obtain ⟨u, hu⟩ : ∃ u, s.call u = .zonesWait p := by
    rcases hl.caller p hb (by rw [hloc]; simp) with ⟨t, ht⟩ | ⟨u, hu⟩
    · rw [hloc] at ht; cases ht
    · refine ⟨u, ?_⟩
      cases hc : s.call u <;> simp only [Kernel.life, hc, Call.hold] at hu <;> cases hu
      rfl
  have hsem : (s.req p).sem = 0 := by
    have := (hl.waits u p (by simp [Kernel.life, hu, Call.hold])).2.2.2
    simp only [Kernel.life, hloc] at this
    simpa using this
  obtain ⟨hmax, hlen⟩ := reach_request (P := ZonesBuffer) (fun ht => by cases ht)
    (fun _ _ _ _ _ => zonesBuffer_rewritten) h hid p hz
  have hlen := hlen hsem
  refine ⟨u, hu, fun t header ht hc hh => ⟨fun umem cb => ?_, ?_⟩⟩
  · obtain ⟨r, -, hintro⟩ := zonesAnswered_intro h hid hp hz ht hu hh hc umem 0
    obtain ⟨calls, result, hend⟩ := reportZonesEnd_zones r 0 cb
    exact ⟨_, calls, result, hintro cb calls result hend⟩
  rw [← zonesReplied_iff hlen hmax header]
  constructor
  · intro hbound umem
    obtain ⟨r, hint, hintro⟩ := zonesAnswered_intro h hid hp hz ht hu hh hc umem 0
    refine ⟨?_, ?_⟩
    · obtain ⟨calls, result, hres⟩ := reportZonesEnd_zones r 0 (fun _ => 0)
      exact (hbound _ _ _ _ (zonesAnswered_iff.2 ⟨umem, hintro _ calls result hres⟩)).1
    · exact (reportZonesEnd_bounded_iff hint 0 _).1
        (fun cb calls result hres => (hbound _ _ _ _ (zonesAnswered_iff.2 ⟨umem, hintro cb calls result hres⟩)).2)
  · intro hrep cb data calls result hans
    obtain ⟨umem, hfrom⟩ := zonesAnswered_iff.1 hans
    obtain ⟨r, junk, hint, rfl, hend⟩ := zonesAnswered_elim h hid hp hz ht hu hh hfrom
    exact ⟨(hrep umem).1, (reportZonesEnd_bounded_iff hint junk _).2 (hrep umem).2 cb calls result hend⟩

/-- One zone is asked for, and connection 0 has the request in its waiting list. -/
def oneZone : List Act :=
  [.attach 0, .reportZones (.blk 0) 5 0 1 (some (fun _ => 0)), .insert (.blk 0),
   .readStart (.user 0) 0 56 [], .readTake (.user 0), .readSend (.user 0) 56, .ret (.user 0)]

theorem zonesBounded_iff_oneZone : ∃ s u, Machine.run (step ⟨false⟩) Kernel.init oneZone = some s ∧
    s.call u = .zonesWait 5 ∧ ZonesBounded ⟨false⟩ s (.user 0) u 0 5 ⟨1, 64, 0⟩ ∧
    ∃ data calls result, ZonesAnsweredFrom ⟨false⟩ s (.user 0) u 0 5 ⟨1, 64, 0⟩ (fun _ => some 7)
      (fun _ => 0) data calls
      result := by
  have hr : Machine.Reach (step ⟨false⟩) (fun _ _ => True) Kernel.init _ :=
    ⟨oneZone, Machine.Steps.of_run rfl⟩
  obtain ⟨u, hu, hiff⟩ := zonesBounded_iff (c := 0) (p := 5) hr (by decide) (by decide) (by decide)
  obtain ⟨hends, hbounded⟩ := hiff (.user 0) ⟨1, 64, 0⟩ (by decide) (by decide) (by decide)
  refine ⟨_, u, rfl, hu, hbounded.2 ?_, hends (fun _ => some 7) (fun _ => 0)⟩
  unfold ZonesHarmless
  decide

set_option maxRecDepth 2048 in
/-- The reply 128 to a request for one zone: 128 bytes are stored in a buffer of 64,
    and the callback is called for zone 1. -/
theorem zonesBounded_overrun : ∃ s, Machine.run (step ⟨false⟩) Kernel.init oneZone = some s ∧
    (s.conn 0).waiting = [5] ∧ (s.req 5).type = .reportZones ∧ (s.req 5).length = 1 ∧
    ¬ ZonesBounded ⟨false⟩ s (.user 0) (.blk 0) 0 5 ⟨1, 128, 0⟩ := by
  refine ⟨_, rfl, rfl, rfl, rfl, fun hbound => ?_⟩
  have hans := hbound (fun _ => 0) (List.replicate 128 7) [0, 1] 2
    ⟨24, 24, _, [], _, fun _ => some 7, _, [], _, 0, _, by decide, by decide, rfl, .nil _, by simp, rfl, rfl,
      .nil _, by simp, by decide, rfl, rfl⟩
  exact absurd hans.1 (by decide)

end Bius
