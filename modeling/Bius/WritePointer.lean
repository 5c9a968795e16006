import Bius.ZoneCalls

/- The condition of a zone against its write pointer. `WpAgrees` says where the pointer of
   a zone may stand in each condition: at the start of an empty zone, at the end of a
   full one, strictly inside of a closed one, and anywhere before the end of an open one.
   An implicitly open zone has moreover been written to, since the write that opened it
   advances the pointer before any other call. Every action but
   the two of a write preserves it (`zonesOk_act`); of a write it is proved over the
   whole of `zoned_write_common` (`zonesOk_writeRest`).

   One write breaks it: `open_zone_locked` reports success after it has closed another
   zone, without opening the zone it was called for. If that zone was empty, it stays
   empty with a pointer behind its start. `wp_agrees` is about the runs in which this
   does not happen. -/
namespace Bius

open Threads

variable {δ : Type} (cfg : ZonedConfig)

/-! ## The invariant -/

/-- The write pointer of a zone is where its condition has it. -/
def WpAgrees (z : Zone) : Prop :=
  match z.cond with
  | .notWp => True
  | .empty => z.wp = z.start
  | .expOpen => z.start ≤ z.wp ∧ z.wp < z.start + z.len
  | .impOpen | .closed => z.start < z.wp ∧ z.wp < z.start + z.len
  | .full => z.wp = z.start + z.len

/-- A zone of the table: what `initialize_zone_info` sets and nothing changes, and the
    pointer. -/
structure ZoneOk (zone : Nat) (z : Zone) : Prop where
  kind : z.cond ≠ .notWp ↔ cfg.numConventionalZones ≤ zone ∧ zone < cfg.numZones
  len : z.cond ≠ .notWp → z.len = cfg.zoneSectors
  capacity : z.cond ≠ .notWp → z.capacity = cfg.zoneSectors
  agrees : WpAgrees z

/-- Every zone but `skip`. -/
def ZonesOkBut (skip : Option Nat) (s : Zoned δ) : Prop :=
  ∀ zone, some zone ≠ skip → ZoneOk cfg zone (s.zoneInfo zone)

def ZonesOk (s : Zoned δ) : Prop := ZonesOkBut cfg none s

variable {cfg} {s s' : Zoned δ} {zone : Nat}

theorem ZoneOk.change {z z' : Zone} (h : ZoneOk cfg zone z) (hc : z.cond ≠ .notWp) (hc' : z'.cond ≠ .notWp)
    (hlen : z'.len = z.len) (hcap : z'.capacity = z.capacity) (hag : WpAgrees z') : ZoneOk cfg zone z' :=
  ⟨⟨fun _ => h.kind.1 hc, fun _ => hc'⟩, fun _ => hlen.trans (h.len hc), fun _ => hcap.trans (h.capacity hc), hag⟩

theorem ZonesOkBut.update {skip : Option Nat} (h : ZonesOkBut cfg skip s) {z : Zone}
    (hinfo : s'.zoneInfo = Function.update s.zoneInfo zone z)
    (hz : ZoneOk cfg zone (s.zoneInfo zone) → ZoneOk cfg zone z) : ZonesOkBut cfg skip s' := by
  intro y hskip
  rw [hinfo, Function.update_apply]
  split
  · next heq =>
    subst heq
    exact hz (h y hskip)
  · exact h y hskip

theorem ZonesOkBut.congr {skip : Option Nat} (h : ZonesOkBut cfg skip s) (hinfo : s'.zoneInfo = s.zoneInfo) :
    ZonesOkBut cfg skip s' := by
  intro y hskip
  rw [hinfo]
  exact h y hskip

theorem ZonesOkBut.restore (h : ZonesOkBut cfg (some zone) s) {z : Zone}
    (hinfo : s'.zoneInfo = Function.update s.zoneInfo zone z) (hz : ZoneOk cfg zone z) : ZonesOk cfg s' := by
  intro y _
  rw [hinfo, Function.update_apply]
  split
  · next heq => rw [heq]; exact hz
  · next hyz => exact h y (by simpa using hyz)

theorem ZonesOk.congr (h : ZonesOk cfg s) (hinfo : s'.zoneInfo = s.zoneInfo) : ZonesOk cfg s' :=
  ZonesOkBut.congr h hinfo

theorem ZonesOk.but (h : ZonesOk cfg s) (skip : Option Nat) : ZonesOkBut cfg skip s :=
  fun y _ => h y (by simp)

/-! ## The actions -/

theorem closeIfImpOpen_zonesOk {skip : Option Nat} (h : ZonesOkBut cfg skip s) :
    ZonesOkBut cfg skip (closeIfImpOpen s zone).1 := by
  unfold closeIfImpOpen
  split
  · next hc =>
    refine h.update rfl (fun hz => hz.change (by simp [hc]) (by simp) rfl rfl ?_)
    have := hz.agrees
    rw [WpAgrees, hc] at this
    exact this
  · exact h

theorem fullSwitch_zoneInfo (hc : (s.zoneInfo zone).cond ≠ .notWp) :
    (fullSwitch s zone).1.zoneInfo = Function.update s.zoneInfo zone { s.zoneInfo zone with
      cond := .full, wp := (s.zoneInfo zone).start + (s.zoneInfo zone).len } := by
  unfold fullSwitch
  cases h : (s.zoneInfo zone).cond with
  | notWp => exact absurd h hc
  | _ => rfl

theorem fullSwitch_zonesOk (h : ZonesOk cfg s) : ZonesOk cfg (fullSwitch s zone).1 := by
  by_cases hc : (s.zoneInfo zone).cond = .notWp
  · unfold fullSwitch
    rw [hc]
    exact h
  · exact ZonesOkBut.update h (fullSwitch_zoneInfo hc) (fun hz => hz.change hc (by simp) rfl rfl rfl)

theorem resetSwitch_zonesOk (h : ZonesOk cfg s) : ZonesOk cfg (resetSwitch s zone).1 := by
  have key : ∀ t : Zoned δ, t.zoneInfo = s.zoneInfo → (s.zoneInfo zone).cond ≠ .notWp →
      ZonesOk cfg (setEmpty t zone) := fun t ht hc =>
    ZonesOkBut.update (s := t) (h.congr ht) rfl (fun hz => hz.change (by rwa [ht]) (by simp) rfl rfl rfl)
  unfold resetSwitch
  split
  · exact h
  · next hc => exact key _ rfl (by simp [hc])
  · next hc => exact key _ rfl (by simp [hc])
  · next hc => exact key _ rfl (by simp [hc])
  · next hc => exact key _ rfl (by simp [hc])
  · exact h

theorem WpAgrees.room {z : Zone} (h : WpAgrees z) (hc : z.cond.isActive = true) :
    z.start ≤ z.wp ∧ z.wp < z.start + z.len := by
  cases hz : z.cond with
  | impOpen => rw [WpAgrees, hz] at h; exact ⟨h.1.le, h.2⟩
  | expOpen => rw [WpAgrees, hz] at h; exact h
  | closed => rw [WpAgrees, hz] at h; exact ⟨h.1.le, h.2⟩
  | _ => rw [hz] at hc; cases hc

theorem closeSwitch_zonesOk (h : ZonesOk cfg s) : ZonesOk cfg (closeSwitch s zone).1 := by
  have key : ∀ t : Zoned δ, t.zoneInfo = s.zoneInfo → (s.zoneInfo zone).cond.isActive = true →
      ZonesOk cfg (setClosed t zone) := by
    intro t ht hc
    rw [← ht] at hc
    have hwp : (t.zoneInfo zone).cond ≠ .notWp := fun heq => by rw [heq] at hc; cases hc
    unfold setClosed
    split
    · next hstart => exact ZonesOkBut.update (s := t) (h.congr ht) rfl (fun hz => hz.change hwp (by simp) rfl rfl hstart)
    · next hstart =>
      refine ZonesOkBut.update (s := t) (h.congr ht) rfl (fun hz => hz.change hwp (by simp) rfl rfl ?_)
      have := hz.agrees.room hc
      exact ⟨by dsimp only; omega, this.2⟩
  unfold closeSwitch
  split
  · next hc => exact key _ rfl (by rw [hc]; rfl)
  · next hc => exact key _ rfl (by rw [hc]; rfl)
  · next hc => exact key _ rfl (by rw [hc]; rfl)
  · exact h

theorem openSwitch_zonesOk (h : ZonesOk cfg s) : ZonesOk cfg (openSwitch cfg s zone true).1 := by
  have hlt := cfg.sectors_pos
  obtain ⟨hsame, -⟩ | ⟨hc, -, hinfo⟩ := openSwitch_cases cfg s zone true
  · exact h.congr hsame
  · have hwp : (s.zoneInfo zone).cond ≠ .notWp := fun heq => by rw [heq] at hc; simp at hc
    refine ZonesOkBut.update h hinfo (fun hz => hz.change hwp (by simp) rfl rfl ?_)
    have hag := hz.agrees
    have hlen := hz.len hwp
    simp only [List.mem_cons, List.not_mem_nil, or_false] at hc
    rcases hc with hc | hc | hc <;> rw [WpAgrees, hc] at hag <;> exact ⟨by dsimp only; omega, by dsimp only; omega⟩

theorem initializeZoneInfo_zonesOk (s : Zoned δ) : ZonesOk cfg (initializeZoneInfo cfg s) := by
  intro zone _
  simp only [initializeZoneInfo, initialZone]
  split
  · exact ⟨by simp; omega, by simp, by simp, trivial⟩
  · split
    · exact ⟨by simp; omega, by simp, by simp, rfl⟩
    · exact ⟨by simp; omega, by simp, by simp, trivial⟩

/-- The actions that keep a zone and its pointer in agreement by themselves: all but
    those of a write. -/
def ZoneAct.KeepsWp : ZoneAct → Prop
  | .openSwitch _ explicit => explicit = true
  | .advance _ _ _ _ => False
  | _ => True

theorem zonesOk_act (raw : RawOps δ) {e : ZoneAct} (he : e.KeepsWp) (h : ZonesOk cfg s) :
    ZonesOk cfg (e.sem cfg raw s).1 := by
  cases e with
  | closeIfImpOpen zone => exact closeIfImpOpen_zonesOk h
  | openSwitch zone explicit => cases he; exact openSwitch_zonesOk h
  | fullSwitch zone => exact fullSwitch_zonesOk h
  | closeSwitch zone => exact closeSwitch_zonesOk h
  | resetSwitch zone => exact resetSwitch_zonesOk h
  | initializeZoneInfo => exact initializeZoneInfo_zonesOk s
  | advance zone id offset data => exact he.elim
  | _ => exact h.congr rfl

/-! ## A write -/

section
variable (raw : RawOps δ)

theorem exec_reserveAndWrite (t : Zoned δ) (id zone offset : Nat) (w : WriteArgs) (position : Option Nat) :
    ((reserveAndWrite id zone offset w position).exec (ZoneAct.sem cfg raw) t).1.zoneInfo =
      if (advance t zone id offset w.data).2 then (fullSwitch (advance t zone id offset w.data).1 zone).1.zoneInfo
      else (advance t zone id offset w.data).1.zoneInfo := by
  show ((storeRest id zone offset w position (advance t zone id offset w.data).2).exec (ZoneAct.sem cfg raw)
    (advance t zone id offset w.data).1).1.zoneInfo = _
  cases (advance t zone id offset w.data).2 <;> rfl

/-- The reservation, in a zone that is open or closed and has room for it. -/
theorem reserveAndWrite_zonesOk {t : Zoned δ} (h : ZonesOkBut cfg (some zone) t)
    (hseq : cfg.numConventionalZones ≤ zone ∧ zone < cfg.numZones) (hc : (t.zoneInfo zone).cond.isActive = true)
    (hlen : (t.zoneInfo zone).len = cfg.zoneSectors) (hcap : (t.zoneInfo zone).capacity = cfg.zoneSectors)
    {w : WriteArgs} (hpos : 0 < w.data.length / sectorSize) (hstart : (t.zoneInfo zone).start ≤ (t.zoneInfo zone).wp)
    (hroom : (t.zoneInfo zone).wp + w.data.length / sectorSize ≤ (t.zoneInfo zone).start + (t.zoneInfo zone).capacity)
    (id offset : Nat) (position : Option Nat) :
    ZonesOk cfg ((reserveAndWrite id zone offset w position).exec (ZoneAct.sem cfg raw) t).1 := by
  have hwp : (t.zoneInfo zone).cond ≠ .notWp := fun heq => by rw [heq] at hc; cases hc
  have hadv : (advance t zone id offset w.data).1.zoneInfo = Function.update t.zoneInfo zone
      { t.zoneInfo zone with wp := (t.zoneInfo zone).wp + w.data.length / sectorSize } := rfl
  have hexec := @exec_reserveAndWrite _ cfg raw t id zone offset w position
  by_cases hfull : (t.zoneInfo zone).wp + w.data.length / sectorSize =
      (t.zoneInfo zone).start + (t.zoneInfo zone).capacity
  · rw [if_pos (by simpa [advance] using hfull), fullSwitch_zoneInfo (by rw [hadv]; simpa using hwp), hadv,
      Function.update_idem, Function.update_self] at hexec
    exact h.restore hexec ⟨⟨fun _ => hseq, fun _ => by simp⟩, fun _ => hlen, fun _ => hcap, rfl⟩
  · rw [if_neg (by simpa [advance] using hfull), hadv] at hexec
    refine h.restore hexec ⟨⟨fun _ => hseq, fun _ => hwp⟩, fun _ => hlen, fun _ => hcap, ?_⟩
    cases hz : (t.zoneInfo zone).cond with
    | impOpen => simp only [WpAgrees, hz]; omega
    | expOpen => simp only [WpAgrees, hz]; omega
    | closed => simp only [WpAgrees, hz]; omega
    | _ => rw [hz] at hc; cases hc

/-- `close_imp_open_zone` leaves the zone it is called for alone. -/
theorem closeImpOpenZone_zonesOk {t : Zoned δ} (h : ZonesOkBut cfg (some zone) t) :
    ZonesOkBut cfg (some zone) ((closeImpOpenZone cfg zone).exec (ZoneAct.sem cfg raw) t).1 ∧
      ((closeImpOpenZone cfg zone).exec (ZoneAct.sem cfg raw) t).1.zoneInfo zone = t.zoneInfo zone := by
  have huses : (closeImpOpenZone cfg zone).Uses (fun e => ∃ z, z ≠ zone ∧ e = .closeIfImpOpen z) :=
    closeImpOpenZone_uses (fun z _ hz => ⟨z, hz, rfl⟩)
  refine (huses.along (ZoneAct.sem cfg raw) (W := fun e _ => ∃ z, z ≠ zone ∧ e = .closeIfImpOpen z)
    (fun _ _ he => he) t).exec_inv
    (I := fun s => ZonesOkBut cfg (some zone) s ∧ s.zoneInfo zone = t.zoneInfo zone) _ ?_ ⟨h, rfl⟩
  rintro _ s ⟨z, hz, rfl⟩ ⟨hs, hsame⟩
  refine ⟨closeIfImpOpen_zonesOk hs, ?_⟩
  show (closeIfImpOpen s z).1.zoneInfo zone = _
  unfold closeIfImpOpen
  split
  · simpa [Zoned.setCond, Zoned.setZone, Zoned.decOpen, Zoned.decImpOpen, hz.symm] using hsame
  · exact hsame

/-- What `open_zone_locked` leaves for a write that goes on: the zone is open or
    closed, with the pointer it had. -/
theorem openZoneLocked_zonesOk (h : ZonesOk cfg s) (hc : (s.zoneInfo zone).cond ∈ [.empty, .closed])
    (hempty : ¬ ((s.zoneInfo zone).cond = .empty ∧ s.numActiveZones < cfg.maxActiveZones ∧
      cfg.maxOpenZones ≤ s.numOpenZones ∧ 0 < s.numImpOpenZones)) :
    let t := ((openZoneLocked cfg zone false).exec (ZoneAct.sem cfg raw) s).1
    ZonesOkBut cfg (some zone) t ∧
      (((openZoneLocked cfg zone false).exec (ZoneAct.sem cfg raw) s).2 ≠ blkStsOk → ZonesOk cfg t) ∧
      (((openZoneLocked cfg zone false).exec (ZoneAct.sem cfg raw) s).2 = blkStsOk →
        ∃ c, c.isActive = true ∧ t.zoneInfo zone = { s.zoneInfo zone with cond := c }) := by
  have hexec : (openZoneLocked cfg zone false).exec (ZoneAct.sem cfg raw) s =
      (openRest cfg zone (openSwitch cfg s zone false).2).exec (ZoneAct.sem cfg raw) (openSwitch cfg s zone false).1 := rfl
  obtain ⟨hsame, ⟨status, hst, ha⟩ | ⟨hc', -⟩ | ⟨-, hopen, himp, hact, ha⟩⟩ | ⟨-, ha, hinfo⟩ :=
    openSwitch_cases cfg s zone false
  · rw [hexec, ha]
    exact ⟨(h.congr hsame).but _, fun _ => h.congr hsame, fun heq => absurd heq hst⟩
  · simp only [List.mem_cons, List.not_mem_nil, or_false] at hc hc'
    rcases hc with hc | hc <;> rw [hc] at hc' <;> simp at hc'
  · -- another zone is closed, and this one stays closed
    have hclosed : (s.zoneInfo zone).cond = .closed := by
      simp only [List.mem_cons, List.not_mem_nil, or_false] at hc
      rcases hc with hc | hc
      · exact absurd ⟨hc, hact hc, hopen, himp⟩ hempty
      · exact hc
    have hbut : ZonesOkBut cfg (some zone) (openSwitch cfg s zone false).1 := (h.congr hsame).but _
    obtain ⟨hrest, hzone⟩ := closeImpOpenZone_zonesOk raw hbut
    have hfst : ((openRest cfg zone (openSwitch cfg s zone false).2).exec (ZoneAct.sem cfg raw)
        (openSwitch cfg s zone false).1) =
        (((closeImpOpenZone cfg zone).exec (ZoneAct.sem cfg raw) (openSwitch cfg s zone false).1).1, blkStsOk) := by
      rw [ha, openRest, Prog.exec_bind]; rfl
    rw [hexec, hfst]
    refine ⟨hrest, fun hne => absurd rfl hne, fun _ => ⟨.closed, rfl, ?_⟩⟩
    rw [hzone, hsame, ← hclosed]
  · rw [hexec, ha]
    refine ⟨fun y hy => ?_, fun hne => absurd rfl hne, fun _ => ⟨.impOpen, rfl, ?_⟩⟩
    · show ZoneOk cfg y ((openSwitch cfg s zone false).1.zoneInfo y)
      rw [hinfo, Function.update_of_ne (by simpa using hy)]
      exact h y (by simp)
    · show (openSwitch cfg s zone false).1.zoneInfo zone = _
      rw [hinfo, Function.update_self]
      rfl

theorem writeRest_zonesOk (h : ZonesOk cfg s) {w : WriteArgs} (hpos : 0 < w.data.length)
    (hdvd : sectorSize ∣ w.data.length) (hempty : ∀ offset, checkWrite s zone w = .reserve offset true →
      ¬ ((s.zoneInfo zone).cond = .empty ∧ s.numActiveZones < cfg.maxActiveZones ∧
        cfg.maxOpenZones ≤ s.numOpenZones ∧ 0 < s.numImpOpenZones))
    (id : Nat) (position : Option Nat) :
    ZonesOk cfg ((writeRest cfg id zone w position (checkWrite s zone w)).exec (ZoneAct.sem cfg raw) s).1 := by
  have hnpos : 0 < w.data.length / sectorSize := Nat.div_pos (Nat.le_of_dvd hpos hdvd) (by decide)
  cases hcheck : checkWrite s zone w with
  | refused => exact h
  | conventional => exact h.congr rfl
  | reserve offset opens =>
    obtain ⟨hoff, -, hroom, hc⟩ := checkWrite_reserve hcheck
    have hroom' : (s.zoneInfo zone).wp + w.data.length / sectorSize ≤
        (s.zoneInfo zone).start + (s.zoneInfo zone).capacity := by
      rw [hoff] at hroom
      exact sectors_le hdvd hroom
    have hz := h zone (by simp)
    have hwp : (s.zoneInfo zone).cond ≠ .notWp := fun heq => by
      rw [heq] at hc; cases opens <;> simp at hc
    have hstart : (s.zoneInfo zone).start ≤ (s.zoneInfo zone).wp := by
      have hag := hz.agrees
      cases hzc : (s.zoneInfo zone).cond with
      | notWp => exact absurd hzc hwp
      | empty => rw [WpAgrees, hzc] at hag; exact hag.ge
      | full => rw [hzc] at hc; cases opens <;> simp at hc
      | _ => exact (hag.room (by rw [hzc]; rfl)).1
    rw [writeRest, Prog.exec_bind]
    cases opens with
    | false =>
      rw [if_neg (by simp)]
      have hact : (s.zoneInfo zone).cond.isActive = true := by
        simp only [Bool.false_eq_true, if_false, List.mem_cons, List.not_mem_nil, or_false] at hc
        rcases hc with hc | hc <;> rw [hc] <;> rfl
      exact reserveAndWrite_zonesOk raw (h.but _) (hz.kind.1 hwp) hact (hz.len hwp) (hz.capacity hwp) hnpos hstart hroom'
        _ _ _
    | true =>
      obtain ⟨hbut, hrefused, hgoes⟩ := openZoneLocked_zonesOk raw h hc (hempty offset hcheck)
      simp only [if_true]
      by_cases hok : ((openZoneLocked cfg zone false).exec (ZoneAct.sem cfg raw) s).2 = blkStsOk
      · rw [if_neg (fun hne => hne hok)]
        obtain ⟨c, hact, hzone⟩ := hgoes hok
        refine reserveAndWrite_zonesOk raw hbut (hz.kind.1 hwp) ?_ ?_ ?_ hnpos ?_ ?_ _ _ _
        · rw [hzone]; exact hact
        · rw [hzone]; exact hz.len hwp
        · rw [hzone]; exact hz.capacity hwp
        · rw [hzone]; exact hstart
        · rw [hzone]; exact hroom'
      · rw [if_pos hok]
        exact hrefused hok

end

/-! ## Whole calls -/

/-- The call writes to an empty zone without opening it: there is room for an active
    zone, none for an open one, and an implicitly open zone to close. -/
def ZoneCall.WritesUnopened (cfg : ZonedConfig) (s : Zoned δ) (c : ZoneCall) : Prop :=
  ∃ zone, c.opening cfg s = some (zone, false) ∧ (s.zoneInfo zone).cond = .empty ∧
    s.numActiveZones < cfg.maxActiveZones ∧ cfg.maxOpenZones ≤ s.numOpenZones ∧ 0 < s.numImpOpenZones

theorem callAlone_zonesOk (raw : RawOps δ) (h : ZonesOk cfg s) {c : ZoneCall} (hc : c.Valid cfg)
    (hw : ¬ c.WritesUnopened cfg s) : ZonesOk cfg (callAlone cfg raw s c).1 := by
  have huses : ∀ {p : ZoneProg ZoneRet}, p.Uses ZoneAct.KeepsWp → ZonesOk cfg (p.exec (ZoneAct.sem cfg raw) s).1 := by
    intro p hp
    refine (hp.along (ZoneAct.sem cfg raw) (W := fun e _ => e.KeepsWp) (fun _ _ he => he) s).exec_inv
      (I := ZonesOk cfg) _ ?_ h
    intro e t he ht
    exact zonesOk_act raw he ht
  cases c with
  | write data offset =>
    refine writeRest_zonesOk (w := ⟨data, offset, false⟩) raw h hc.2.1 hc.2.2 (fun o ho hbad => hw ?_) 0 _
    exact ⟨zoneNumber cfg offset, by simp only [ZoneCall.opening, ho], hbad⟩
  | append data offset =>
    refine writeRest_zonesOk (w := ⟨data, offset, true⟩) raw h hc.2.1 hc.2.2 (fun o ho hbad => hw ?_) 0 _
    exact ⟨zoneNumber cfg offset, by simp only [ZoneCall.opening, ho], hbad⟩
  | read offset length => exact huses ⟨trivial, fun _ => trivial⟩
  | reportZones offset nrZones => exact huses (reportLoop_uses (fun _ => trivial) _ _ _)
  | openZone offset =>
    refine huses ⟨trivial, fun decision => ?_⟩
    cases decision with
    | none =>
      have hopen : (openZoneLocked cfg (zoneNumber cfg offset) true).Uses ZoneAct.KeepsWp :=
        ⟨rfl, fun _ => openRest_uses (fun _ _ _ => trivial) _⟩
      exact hopen.bind (fun _ => trivial)
    | some status => trivial
  | closeZone offset => exact huses ⟨trivial, fun _ => trivial⟩
  | finishZone offset => exact huses ⟨trivial, fun _ => trivial⟩
  | resetZone offset =>
    refine huses ⟨trivial, fun result => ?_⟩
    cases result with
    | none => exact ⟨trivial, fun _ => trivial⟩
    | some status => trivial
  | resetAllZone => exact huses ⟨trivial, fun _ => ⟨trivial, fun _ => trivial⟩⟩

/-- **The condition of a sequential zone and its write pointer agree**, as long as no
    call writes to an empty zone without opening it. -/
theorem wp_agrees (raw : RawOps δ) (disk : δ)
    (h : Machine.Reach (callStep cfg raw) (fun s c => c.Valid cfg ∧ ¬ c.WritesUnopened cfg s)
      (initializeZoned cfg disk) s)
    (hseq : cfg.numConventionalZones ≤ zone ∧ zone < cfg.numZones) :
    let z := s.zoneInfo zone
    (z.cond = .empty → z.wp = z.start) ∧ (z.cond = .full ↔ z.wp = z.start + z.len) ∧
      (z.cond = .closed → z.start < z.wp ∧ z.wp < z.start + z.len) ∧
      (z.cond = .impOpen ∨ z.cond = .expOpen → z.start ≤ z.wp ∧ z.wp < z.start + z.len) := by
  have hs : ZonesOk cfg s := by
    refine h.inv (I := ZonesOk cfg) ?_ (initializeZoneInfo_zonesOk _)
    rintro s c _ hs ⟨hc, hw⟩ ⟨⟩
    exact callAlone_zonesOk raw hs hc hw
  have hz := hs zone (by simp)
  have hwp := hz.kind.2 hseq
  have hlen := hz.len hwp
  have hpos := cfg.sectors_pos
  have hag := hz.agrees
  unfold WpAgrees at hag
  cases hc : (s.zoneInfo zone).cond <;> rw [hc] at hag hwp <;> simp_all <;> omega

/-- Zone 0 is closed with its pointer inside of it, and the second write to zone 1 has
    filled it. -/
theorem wp_agrees_severalCalls :
    ∃ s, Machine.run (callStep twoWideZones ramdisk) (initializeZoned twoWideZones (fun _ => 0))
        (severalCalls ++ [.write oneSector 1536]) = some s ∧
      (s.zoneInfo 0).cond = .closed ∧ (s.zoneInfo 0).start < (s.zoneInfo 0).wp ∧
      (s.zoneInfo 1).cond = .full ∧ (s.zoneInfo 1).wp = (s.zoneInfo 1).start + (s.zoneInfo 1).len := by
  obtain ⟨s, hs, hclosed, hfull, hreach⟩ :
      ∃ s, Machine.run (callStep twoWideZones ramdisk) (initializeZoned twoWideZones (fun _ => 0))
        (severalCalls ++ [.write oneSector 1536]) = some s ∧
      (s.zoneInfo 0).cond = .closed ∧ (s.zoneInfo 1).cond = .full ∧
      Machine.Reach (callStep twoWideZones ramdisk) (fun s c => c.Valid twoWideZones ∧
        ¬ c.WritesUnopened twoWideZones s)
        (initializeZoned twoWideZones (fun _ => 0)) s := by
    refine ⟨_, rfl, by decide +kernel, by decide +kernel, severalCalls ++ [.write oneSector 1536],
      .cons ⟨severalCalls_valid _ (by simp [severalCalls]), ?_⟩ rfl
      (.cons ⟨severalCalls_valid _ (by simp [severalCalls]), ?_⟩ rfl
      (.cons ⟨severalCalls_valid _ (by simp [severalCalls]), ?_⟩ rfl
      (.cons ⟨severalCalls_valid _ (by simp [severalCalls]), ?_⟩ rfl
      (.cons ⟨oneSector_valid (by decide), ?_⟩ rfl (.nil _)))))⟩
    · rintro ⟨zone, -, -, -, hopen, -⟩
      exact absurd hopen (by decide)
    · rintro ⟨zone, ho, -⟩
      cases ho
    · rintro ⟨zone, -, -, -, hopen, -⟩
      exact absurd hopen (by decide +kernel)
    · rintro ⟨zone, -, -, hactive, -⟩
      exact absurd hactive (by decide +kernel)
    · rintro ⟨zone, -, -, hactive, -⟩
      exact absurd hactive (by decide +kernel)
  have hzero := @wp_agrees _ _ _ 0 ramdisk (fun _ => 0) hreach ⟨by decide, by decide⟩
  have hone := @wp_agrees _ _ _ 1 ramdisk (fun _ => 0) hreach ⟨by decide, by decide⟩
  exact ⟨s, hs, hclosed, (hzero.2.2.1 hclosed).1, hfull, hone.2.1.1 hfull⟩

/-- A write opens zone 0 implicitly, which is the limit. A write to zone 1 closes zone 0
    and goes on without opening zone 1, which is empty with its pointer behind its
    start. -/
theorem wp_agrees_unopened :
    ∃ s, Machine.Reach (callStep twoWideZones ramdisk) (fun _ c => c.Valid twoWideZones)
        (initializeZoned twoWideZones (fun _ => 0)) s ∧
      (s.zoneInfo 1).cond = .empty ∧ (s.zoneInfo 1).wp ≠ (s.zoneInfo 1).start := by
  exact ⟨_, ⟨[.write oneSector 0, .write oneSector 1024],
      .cons (oneSector_valid (by decide)) rfl (.cons (oneSector_valid (by decide)) rfl (.nil _))⟩,
    by decide +kernel, by decide +kernel⟩

end Bius
