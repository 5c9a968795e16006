import Bius.HandleRequests
import Bius.ReportZones

/- A report-zones request on its whole way: from `bius_report_zones`, through the
   command, the callback of the backend and the reply, back to the loop of
   `bius_report_zones` over the zones. The callback returns a count, or a negative
   error. libbius multiplies either by the size of a zone, and the kernel divides only
   what is not negative: a count comes back as it was, an error never does
   (`zones_relayed_iff`). The offset is the byte offset of the sector as long as that is
   an `off64_t`. -/
namespace Bius

/-! ## The specification -/

/-- Zone `i` of a buffer. -/
def zoneEntry (data : List UInt8) (i : Nat) : List UInt8 := (data.drop (sizeofBlkZone * i)).take sizeofBlkZone

/-- The callback is called with the zones in order, numbered from `i` on, up to the first
    call that does not return 0: the calls, and that result. -/
def deliverZones (cb : Nat → List UInt8 → Int) : Nat → List (List UInt8) → List (Nat × List UInt8) × Option Int
  | _, [] => ([], none)
  | i, zone :: zones =>
    if cb i zone = 0 then
      ((i, zone) :: (deliverZones cb (i + 1) zones).1, (deliverZones cb (i + 1) zones).2)
    else ([(i, zone)], some (cb i zone))

section
variable {σ : Type} (P : Process σ) (f : Nat → Nat → σ → σ × Int × List UInt8) (k2u : K2u) (proc : σ)

/-- What `report_zones` returns when libbius handles the command: the count, and what it
    has stored in the buffer. -/
def zonesReported : Int × List UInt8 := (f k2u.offset k2u.length (P.malloc proc (sizeofBlkZone * k2u.length)).1).2

/-- The kernel finds in userspace's memory what `report_zones` has stored. -/
def ZonesReadable (umem : UMem) : Prop :=
  ∀ i b, (zonesReported P f k2u proc).2[i]? = some b →
    umem ((P.malloc proc (sizeofBlkZone * k2u.length)).2 + i) = some b

/-- The relay is faithful: `report_zones` is asked for the byte offset of the sector and
    for no more zones than the command may have, and whatever it returns comes back to
    `bius_report_zones`. A count makes that call its callback with the zones reported, in
    order, up to the first result that is not 0, which it returns, or else the count. An
    error is returned, without a call. -/
structure ZonesFaithful (cfg : Config) (s : Kernel) (t u : Tid) (c : Nat) (p : Ptr) (sector n : Nat) (umem : UMem) :
    Prop where
  offset : toInt64 k2u.offset = (sector * sectorSize : Nat)
  length : k2u.length = min (n % 2 ^ 32) biusMaxZones
  ends : ∀ cb : Nat → List UInt8 → Int, ∃ (data : List UInt8) (calls : List Nat) (result : Int),
    ZonesAnsweredFrom cfg s t u c p (handleReportZones P f k2u proc).2 umem (fun i => cb i (zoneEntry data i)) data
      calls result
  count : 0 ≤ (zonesReported P f k2u proc).1 →
    ∀ (cb : Nat → List UInt8 → Int) (data : List UInt8) (calls : List Nat) (result : Int),
    ZonesAnsweredFrom cfg s t u c p (handleReportZones P f k2u proc).2 umem (fun i => cb i (zoneEntry data i)) data
      calls result →
    let zones := (List.range (zonesReported P f k2u proc).1.toNat).map (zoneEntry (zonesReported P f k2u proc).2)
    calls.map (fun i => (i, zoneEntry data i)) = (deliverZones cb 0 zones).1 ∧
      result = (deliverZones cb 0 zones).2.getD (zonesReported P f k2u proc).1
  error : (zonesReported P f k2u proc).1 < 0 →
    ∀ (cb : Nat → List UInt8 → Int) (data : List UInt8) (calls : List Nat) (result : Int),
    ZonesAnsweredFrom cfg s t u c p (handleReportZones P f k2u proc).2 umem (fun i => cb i (zoneEntry data i)) data
      calls result →
    calls = [] ∧ result = (zonesReported P f k2u proc).1

end

/-! ## The loop over the zones -/

theorem zonesLoop_deliver (cb : Nat → List UInt8 → Int) (data : List UInt8) (n i : Nat) :
    (Kernel.zonesLoop (fun i => cb i (zoneEntry data i)) n i).1.map (fun i => (i, zoneEntry data i)) =
        (deliverZones cb i ((List.range' i n).map (zoneEntry data))).1 ∧
      (Kernel.zonesLoop (fun i => cb i (zoneEntry data i)) n i).2 =
        (deliverZones cb i ((List.range' i n).map (zoneEntry data))).2 := by
  induction n generalizing i with
  | zero => exact ⟨rfl, rfl⟩
  | succ n ih =>
    obtain ⟨ihcalls, ihresult⟩ := ih (i + 1)
    simp only [Kernel.zonesLoop, List.range'_succ, List.map_cons, deliverZones]
    split
    · exact ⟨by rw [List.map_cons, ihcalls], ihresult⟩
    · exact ⟨rfl, rfl⟩

theorem zoneEntry_append {bytes rest : List UInt8} {i r : Nat} (hi : i < r) (hr : sizeofBlkZone * r ≤ bytes.length) :
    zoneEntry (bytes ++ rest) i = zoneEntry bytes i := by
  unfold zoneEntry
  have hle : sizeofBlkZone * i + sizeofBlkZone ≤ bytes.length := by
    unfold sizeofBlkZone at hr ⊢
    omega
  rw [List.drop_append_of_le_length (by omega), List.take_append_of_le_length (by rw [List.length_drop]; omega)]

theorem zoneEntry_take {bytes : List UInt8} {i r : Nat} (hi : i < r) :
    zoneEntry (bytes.take (sizeofBlkZone * r)) i = zoneEntry bytes i := by
  unfold zoneEntry
  rw [List.drop_take, List.take_take, Nat.min_eq_left]
  unfold sizeofBlkZone
  omega

/-! ## The request on its way -/

/-- A report-zones request in flight keeps what was asked for. -/
theorem Rewritten.asked {cfg : Config} {sending : Prop} {r r' : BiusRequest} (h : Rewritten cfg true sending r r')
    (hz : r.type = .reportZones) : r'.type = r.type ∧ r'.pos = r.pos ∧ r'.length = r.length := by
  cases h with
  | queued id rq hb => cases hb
  | zones id sector n blkz hb => cases hb
  | mapped vmStart _ _ _ =>
    obtain ⟨_, _, _, hr⟩ := biusMapData_keeps r vmStart (rqForEachSegment r.rq)
    rw [hr]
    exact ⟨rfl, rfl, rfl⟩
  | sent size cuts res _ hres =>
    obtain ⟨_, _, hr⟩ := biusSendData_keeps hres
    rw [hr]
    exact ⟨rfl, rfl, rfl⟩
  | finished rq mapType pos blkResult hb =>
    rw [hz] at hb
    cases hb
  | _ => exact ⟨rfl, rfl, rfl⟩

/-- Thread `u` has issued the request `p`, for `length` zones from byte `pos` on, and
    has not come back from its wait for it. -/
structure Kernel.Asking (s : Kernel) (u : Tid) (p : Ptr) (pos : Int) (length : Nat) : Prop where
  call : s.call u = .queueing p ∨ s.call u = .zonesWait p
  type : (s.req p).type = .reportZones
  pos : (s.req p).pos = pos
  length : (s.req p).length = length

theorem asking_step {cfg : Config} {s s' : Kernel} {act : Act} {u : Tid} {p : Ptr} {pos : Int} {length : Nat}
    (hi : s.life.Inv) (h : step cfg s act = some s') (hact : act.tid = some u → act = .insert u)
    (hs : s.Asking u p pos length) : s'.Asking u p pos length := by
  have hbusy : s.busy p = true := by
    obtain ⟨loc, hl, -⟩ := hi
    have hloc : loc p ≠ .free := by
      rcases hs.call with hc | hc
      · have := (hl.filling u p).1 (by simp [Kernel.life, hc, Call.hold])
        rw [this]
        simp
      · exact (hl.waits u p (by simp [Kernel.life, hc, Call.hold])).2.1
    exact (hl.busy p).2 hloc
  have hreq := step_rewritten h p
  rw [hbusy] at hreq
  obtain ⟨htype, hpos, hlength⟩ := hreq.asked hs.type
  refine ⟨?_, htype.trans hs.type, hpos.trans hs.pos, hlength.trans hs.length⟩
  by_cases htid : act.tid = some u
  · rw [hact htid] at h
    cases step_cases h with
    | insert _ q hq =>
      -- the caller waits from here on
      have hqp : q = p := by
        rcases hs.call with hc | hc
        · rw [hq] at hc
          cases hc
          rfl
        · rw [hq] at hc
          cases hc
      subst hqp
      right
      simp [hs.type, isBlkRequest]
  · rw [step_call h htid]
    exact hs.call

theorem asking_steps {cfg : Config} {s s' : Kernel} {acts : List Act} {u : Tid} {p : Ptr} {pos : Int} {length : Nat}
    (hr : Machine.Reach (step cfg) (fun _ _ => True) Kernel.init s)
    (h : Machine.Steps (step cfg) (fun _ _ => True) s acts s') (hid : s'.nextRequestId < 2 ^ 64)
    (hacts : ∀ act ∈ acts, act.tid = some u → act = .insert u) (hs : s.Asking u p pos length) :
    s'.Asking u p pos length := by
  induction h with
  | nil => exact hs
  | cons hok hst hrest ih =>
    have hle := steps_next_le hrest hid
    have hle₀ := (step_life hst (Nat.lt_of_le_of_lt hle hid)).next_le
    have hinv := reach_life hr (Nat.lt_of_le_of_lt hle₀ (Nat.lt_of_le_of_lt hle hid))
    exact ih (hr.snoc hok hst) hid (fun a ha => hacts a (by simp [ha]))
      (asking_step hinv hst (hacts _ (by simp)) hs)

theorem reportZones_asks {cfg : Config} {s s' : Kernel} {u : Tid} {p : Ptr} {sector n : Nat} {blkz : Nat → UInt8}
    (h : step cfg s (.reportZones u p sector n (some blkz)) = some s') :
    s'.Asking u p (toInt64 (sector * sectorSize : Nat)) (min (n % 2 ^ 32) biusMaxZones) := by
  cases step_cases h with
  | reportZones _ _ _ _ _ hu hp =>
    refine ⟨.inl ?_, ?_, ?_, ?_⟩ <;> simp [Kernel.reportZones, initZonesRequest]

/-! ## The reply -/

section
variable {r : BiusRequest} {header : U2k} {umem : UMem}

theorem zonesReplied_count {count : Nat} {bytes : List UInt8} (hreply : header.reply = count * sizeofBlkZone)
    (hcount : count ≤ biusMaxZones) (hbytes : sizeofBlkZone * count ≤ bytes.length)
    (hmem : ∀ i b, bytes[i]? = some b → umem (header.userData + i) = some b) :
    (zonesReplied r header umem).2 = count * sizeofBlkZone ∧
      ∀ i < count, zoneEntry (zonesReplied r header umem).1 i = zoneEntry bytes i := by
  unfold sizeofBlkZone at hreply hbytes ⊢
  unfold biusMaxZones at hcount
  unfold zonesReplied
  by_cases hzero : count = 0
  · subst hzero
    rw [if_pos (by omega)]
    refine ⟨by rw [hreply]; rfl, fun i hi => absurd hi (Nat.not_lt_zero i)⟩
  · rw [if_neg (by omega)]
    have hsize : header.reply.toNat = 64 * count := by omega
    have hread : ∀ i < 64 * count, ∃ b, bytes[i]? = some b ∧ umem (header.userData + i) = some b := by
      intro i hi
      have hget := List.getElem?_eq_getElem (show i < bytes.length by omega)
      exact ⟨_, hget, hmem i _ hget⟩
    have hok : (copyFromUser umem header.userData (64 * count)).2 = 0 := by
      rw [copyFromUser_ok_iff]
      intro i hi
      obtain ⟨b, -, hb⟩ := hread i hi
      rw [hb]
      rfl
    have hcopied : (copyFromUser umem header.userData (64 * count)).1 = bytes.take (64 * count) := by
      rw [copyFromUser_bytes hok]
      apply List.ext_getElem?
      intro i
      by_cases hi : i < 64 * count
      · obtain ⟨b, hget, hb⟩ := hread i hi
        rw [List.getElem?_take_of_lt hi, hget, Bytes.slice_getElem? _ _ _ _ hi, hb]
        rfl
      · rw [List.getElem?_eq_none (by rw [Bytes.slice_length]; omega),
          List.getElem?_eq_none (by rw [List.length_take]; omega)]
    have hsmall : ¬ 2 ^ 31 ≤ 64 * count := by omega
    simp only [Kernel.copyFromUserSized, hsize, if_neg hsmall, hok, hcopied]
    rw [if_neg (Nat.lt_irrefl 0)]
    refine ⟨?_, fun i hi => ?_⟩
    · rw [hreply, toInt32]
      omega
    · rw [zoneEntry_append hi (by rw [List.length_take]; unfold sizeofBlkZone; omega)]
      exact zoneEntry_take hi

end

/-! ## The relay -/

section
variable {cfg : Config} {s₀ s₁ s : Kernel} {t u : Tid} {c : Nat} {p : Ptr} {sector n : Nat} {blkz : Nat → UInt8}
  {acts : List Act} {σ : Type} {P : Process σ} {f : Nat → Nat → σ → σ × Int × List UInt8} {proc : σ}
  {umem : UMem}

theorem k2uHeader_zones {r : BiusRequest} (hz : r.type = .reportZones) (datamap : Bool) (vmStart : Nat) :
    k2uHeader datamap vmStart r = ⟨r.id, .reportZones, (r.pos % 2 ^ 64).toNat, r.length, 0, 0, .unmapped⟩ := by
  simp [k2uHeader, hz, isBlkRequest]

/-- The byte offset of a sector, through the 64-bit fields of request and command. -/
theorem sectorOffset_iff (sector : Nat) :
    toInt64 (((toInt64 (sector * sectorSize : Nat)) % 2 ^ 64).toNat : Nat) = (sector * sectorSize : Nat) ↔
      sector * sectorSize < 2 ^ 63 := by
  generalize sector * sectorSize = pos
  unfold toInt64
  omega

theorem toInt32_error {r : Int} (hneg : r < 0) (hint : -2 ^ 31 ≤ r) :
    toInt64 (r * sizeofBlkZone) ≤ 0 ∧ toInt32 (toInt64 (r * sizeofBlkZone)) ≠ r := by
  unfold toInt64 toInt32 sizeofBlkZone
  omega

/-- An answer of `count` zones: the loop delivers them. -/
theorem reportZonesEnd_count {r : BiusRequest} {count : Nat} (hv : r.intResult = some ((count : Int) * sizeofBlkZone))
    {junk : Int} {cb : Nat → List UInt8 → Int} {data : List UInt8} {calls : List Nat} {result : Int}
    (h : Kernel.reportZonesEnd r junk (fun i => cb i (zoneEntry data i)) = .zones calls result) :
    calls.map (fun i => (i, zoneEntry data i)) = (deliverZones cb 0 ((List.range count).map (zoneEntry data))).1 ∧
      result = (deliverZones cb 0 ((List.range count).map (zoneEntry data))).2.getD count := by
  have hdiv : ((count : Int) * sizeofBlkZone).toNat / sizeofBlkZone = count := by
    unfold sizeofBlkZone
    omega
  simp only [Kernel.reportZonesEnd, hv, Option.getD_some] at h
  rw [if_neg (by unfold sizeofBlkZone; omega), hdiv] at h
  cases h
  rw [List.range_eq_range']
  obtain ⟨hcalls, hret⟩ := zonesLoop_deliver cb data count 0
  exact ⟨hcalls, by rw [hret]⟩

/-- With a callback that never fails, either the value itself is returned or none
    that is negative. -/
theorem reportZonesEnd_value {r : BiusRequest} {v : Int} (hv : r.intResult = some v) {junk : Int} {calls : List Nat}
    {result : Int} (h : Kernel.reportZonesEnd r junk (fun _ => 0) = .zones calls result) :
    result = v ∨ 0 ≤ result := by
  simp only [Kernel.reportZonesEnd, hv, Option.getD_some] at h
  split at h
  · cases h
    exact .inl rfl
  · rw [zonesLoop_all] at h
    cases h
    exact .inr (Int.natCast_nonneg _)

/-- **Counts are relayed faithfully, errors are not.** Thread `u` asks for `n` zones from
    a sector on, and its request waits for a reply on connection `c`; the process handles
    the command, and a thread of it writes the reply. With no fault on the way, the relay
    is faithful exactly if the byte offset of the sector fits an `off64_t` and
    `report_zones` has returned no error. -/
theorem zones_relayed_iff (h₀ : Machine.Reach (step cfg) (fun _ _ => True) Kernel.init s₀)
    (hcall : step cfg s₀ (.reportZones u p sector n (some blkz)) = some s₁)
    (hrun : Machine.Steps (step cfg) (fun _ _ => True) s₁ acts s)
    (hacts : ∀ act ∈ acts, act.tid = some u → act = .insert u)
    (hid : s.nextRequestId < 2 ^ 64) (hp : p ∈ (s.conn c).waiting) (hc : (s.conn c).attached = true)
    (hu : s.call u = .zonesWait p) (ht : s.call t = .idle) (vmStart : Nat)
    (hint : -2 ^ 31 ≤ (zonesReported P f (k2uHeader cfg.datamap vmStart (s.req p)) proc).1)
    (hcount : (zonesReported P f (k2uHeader cfg.datamap vmStart (s.req p)) proc).1 ≤ (s.req p).length)
    (hbytes : sizeofBlkZone * (zonesReported P f (k2uHeader cfg.datamap vmStart (s.req p)) proc).1.toNat ≤
      (zonesReported P f (k2uHeader cfg.datamap vmStart (s.req p)) proc).2.length)
    (hmem : ZonesReadable P f (k2uHeader cfg.datamap vmStart (s.req p)) proc umem) :
    ZonesFaithful P f (k2uHeader cfg.datamap vmStart (s.req p)) proc cfg s t u c p sector n umem ↔
      sector * sectorSize < 2 ^ 63 ∧ 0 ≤ (zonesReported P f (k2uHeader cfg.datamap vmStart (s.req p)) proc).1 := by
  have hr₁ := h₀.snoc trivial hcall
  have hask := asking_steps hr₁ hrun hid hacts (reportZones_asks hcall)
  have hreach : Machine.Reach (step cfg) (fun _ _ => True) Kernel.init s := by
    obtain ⟨as₁, hs₁⟩ := hr₁
    exact ⟨as₁ ++ acts, hs₁.append hrun⟩
  have hk := k2uHeader_zones hask.type cfg.datamap vmStart
  have hoffset : toInt64 (k2uHeader cfg.datamap vmStart (s.req p)).offset = (sector * sectorSize : Nat) ↔
      sector * sectorSize < 2 ^ 63 := by
    have hpos : (k2uHeader cfg.datamap vmStart (s.req p)).offset =
        (toInt64 (sector * sectorSize : Nat) % 2 ^ 64).toNat := by rw [hk, hask.pos]
    rw [hpos]
    exact sectorOffset_iff sector
  have hlength : (k2uHeader cfg.datamap vmStart (s.req p)).length = min (n % 2 ^ 32) biusMaxZones := by
    have hsame : (k2uHeader cfg.datamap vmStart (s.req p)).length = (s.req p).length := by rw [hk]
    exact hsame.trans hask.length
  have hmax : (s.req p).length ≤ biusMaxZones := by
    rw [hask.length]
    exact Nat.min_le_right _ _
  have hh : (handleReportZones P f (k2uHeader cfg.datamap vmStart (s.req p)) proc).2.id = (s.req p).id := by
    rw [hk]
    rfl
  have hreply : (handleReportZones P f (k2uHeader cfg.datamap vmStart (s.req p)) proc).2.reply =
      toInt64 ((zonesReported P f (k2uHeader cfg.datamap vmStart (s.req p)) proc).1 * sizeofBlkZone) := rfl
  generalize hres : zonesReported P f (k2uHeader cfg.datamap vmStart (s.req p)) proc = res at *
  constructor
  · intro hfaithful
    refine ⟨hoffset.1 hfaithful.offset, ?_⟩
    by_contra hneg
    -- a callback that never fails shows what comes back
    obtain ⟨r, hresult, hintro⟩ := zonesAnswered_intro hreach hid hp hask.type ht hu hh hc umem 0
    obtain ⟨hle, hne⟩ := toInt32_error (by omega) hint
    have hvalue : r.intResult = some (toInt32 (toInt64 (res.1 * sizeofBlkZone))) := by
      rw [hresult, zonesReplied, hreply, if_pos hle]
    obtain ⟨calls, result, hend⟩ := reportZonesEnd_zones r 0 (fun _ => 0)
    have hans := hfaithful.error (by rw [hres]; omega) (fun _ _ => 0) _ calls result (hintro _ calls result hend)
    rw [hres] at hans
    rcases reportZonesEnd_value hvalue hend with hback | hnonneg
    · exact hne (hback.symm.trans hans.2)
    · rw [hans.2] at hnonneg
      exact hneg hnonneg
  · intro hgood
    refine ⟨hoffset.2 hgood.1, hlength, fun cb => ?_, fun _ cb data calls result hans => ?_, fun hneg => ?_⟩
    · obtain ⟨r, -, hintro⟩ := zonesAnswered_intro hreach hid hp hask.type ht hu hh hc umem 0
      obtain ⟨calls, result, hend⟩ := reportZonesEnd_zones r 0 (fun i => cb i (zoneEntry _ i))
      exact ⟨_, calls, result, hintro _ calls result hend⟩
    · obtain ⟨r, junk, hresult, hdata, hend⟩ := zonesAnswered_elim hreach hid hp hask.type ht hu hh hans
      obtain ⟨count, hnat⟩ : ∃ count : Nat, res.1 = count := ⟨res.1.toNat, by omega⟩
      have hcast : (handleReportZones P f (k2uHeader cfg.datamap vmStart (s.req p)) proc).2.reply =
          count * sizeofBlkZone := by
        rw [hreply, hnat, toInt64]
        unfold sizeofBlkZone biusMaxZones at *
        omega
      obtain ⟨hvalue, hzones⟩ := @zonesReplied_count (s.req p) _ umem _ _ hcast (by omega)
        (by rw [hnat] at hbytes; exact hbytes) (by
          intro i b hb
          exact hmem i b (by rw [hres]; exact hb))
      rw [hvalue] at hresult
      have hsame : (List.range count).map (zoneEntry data) = (List.range count).map (zoneEntry res.2) := by
        apply List.map_congr_left
        intro i hi
        rw [hdata]
        exact hzones i (List.mem_range.1 hi)
      rw [hres, hnat, Int.toNat_natCast, ← hsame]
      exact reportZonesEnd_count hresult hend
    · rw [hres] at hneg
      omega

end

/-- A process whose allocator hands out address 0. -/
def emptyProcess : Process Unit where
  word _ _ := 0
  store s _ _ := s
  malloc s _ := (s, 0)
  free s _ := s

/-- A callback that returns `r` and fills one zone with sevens. -/
def reportSevens (r : Int) (_ _ : Nat) (s : Unit) : Unit × Int × List UInt8 := (s, r, List.replicate sizeofBlkZone 7)

/-- The rest of the run `oneZone`, after the call of `bius_report_zones`. -/
def oneZoneRest : List Act :=
  [.insert (.blk 0), .readStart (.user 0) 0 56 [], .readTake (.user 0), .readSend (.user 0) 56, .ret (.user 0)]

set_option maxRecDepth 2048 in
/-- The one zone comes back: there is a course, and in it the callback is called for it. -/
theorem zones_relayed_iff_oneZone : ∃ s data, Machine.run (step ⟨false⟩) Kernel.init oneZone = some s ∧
    ZonesFaithful emptyProcess (reportSevens 1) (k2uHeader false 0 (s.req 5)) () ⟨false⟩ s (.user 0) (.blk 0) 0 5 0 1
      (fun _ => some 7) ∧
    ZonesAnsweredFrom ⟨false⟩ s (.user 0) (.blk 0) 0 5
      (handleReportZones emptyProcess (reportSevens 1) (k2uHeader false 0 (s.req 5)) ()).2 (fun _ => some 7)
      (fun _ => 0) data [0] 1 ∧ zoneEntry data 0 = List.replicate sizeofBlkZone 7 := by
  have hr : Machine.Reach (step ⟨false⟩) (fun _ _ => True) Kernel.init _ := ⟨[.attach 0], Machine.Steps.of_run rfl⟩
  have hiff := @zones_relayed_iff ⟨false⟩ _ _ _ (.user 0) (.blk 0) 0 5 0 1 (fun _ => 0) oneZoneRest Unit emptyProcess
    (reportSevens 1) () (fun _ => some 7) hr rfl (Machine.Steps.of_run rfl) (by simp [oneZoneRest, Act.tid]) (by decide)
    (by decide) (by decide) (by decide) (by decide) 0 (by decide) (by decide) (by decide)
  have hfaithful := (hiff (fun i b hb => by rw [(List.mem_replicate.1 (List.mem_of_getElem? hb)).2])).2
      ⟨by decide, by decide⟩
  obtain ⟨data, calls, result, hans⟩ := hfaithful.ends (fun _ _ => 0)
  obtain ⟨hcalls, hresult⟩ := hfaithful.count (by decide) (fun _ _ => 0) data calls result hans
  have hone : calls.map (fun i => (i, zoneEntry data i)) = [(0, List.replicate sizeofBlkZone 7)] := hcalls
  obtain ⟨i, rest, rfl⟩ : ∃ i rest, calls = i :: rest := by
    cases calls with
    | nil => cases hone
    | cons i rest => exact ⟨i, rest, rfl⟩
  rw [List.map_cons, List.cons.injEq, Prod.mk.injEq, List.map_eq_nil_iff] at hone
  obtain ⟨⟨rfl, hzone⟩, rfl⟩ := hone
  have hvalue : result = 1 := hresult
  rw [hvalue] at hans
  exact ⟨_, data, rfl, hfaithful, hans, hzone⟩

set_option maxRecDepth 2048 in
/-- The callback fails with -5, and `bius_report_zones` returns -320. -/
theorem zones_error_scaled : ∃ s, Machine.run (step ⟨false⟩) Kernel.init oneZone = some s ∧
    ZonesAnsweredFrom ⟨false⟩ s (.user 0) (.blk 0) 0 5
      (handleReportZones emptyProcess (reportSevens (-5)) (k2uHeader false 0 (s.req 5)) ()).2 (fun _ => some 7)
      (fun _ => 0) (List.replicate 64 0) [] (-320) ∧
    ¬ ZonesFaithful emptyProcess (reportSevens (-5)) (k2uHeader false 0 (s.req 5)) () ⟨false⟩ s (.user 0) (.blk 0) 0 5
      0 1 (fun _ => some 7) := by
  have hans : ∃ s, Machine.run (step ⟨false⟩) Kernel.init oneZone = some s ∧
      ZonesAnsweredFrom ⟨false⟩ s (.user 0) (.blk 0) 0 5
        (handleReportZones emptyProcess (reportSevens (-5)) (k2uHeader false 0 (s.req 5)) ()).2 (fun _ => some 7)
        (fun _ => 0) (List.replicate 64 0) [] (-320) :=
    ⟨_, rfl, 24, 24, _, [], _, _, [], _, 0, _, by decide, by decide, rfl, .nil _, by simp, rfl, rfl, .nil _, by simp,
      by decide, rfl, rfl⟩
  obtain ⟨s, hs, hans⟩ := hans
  refine ⟨s, hs, hans, fun hfaithful => ?_⟩
  have hback := (hfaithful.error (show (-5 : Int) < 0 by decide) (fun _ _ => 0) _ _ _ hans).2
  exact absurd hback (show (-320 : Int) ≠ -5 by decide)

end Bius
