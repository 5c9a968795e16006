import Bius.ZoneFailures

/- `zoned_reset_all_zone` against `zoned_reset_zone` on each sequential zone, over the
   ramdisk. The first initialises the table and the counters and discards the whole
   disk; the second empties zone by zone, and leaves a zone alone that is empty already
   (`resetFrom_apply`). They agree exactly in the states of `ResetClean`
   (`reset_all_iff`): `zoned_reset_all_zone` wipes the conventional zones, it corrects a
   number of active zones that is too large, and it clears an empty zone that has been
   written to. -/
namespace Bius

open Threads

variable {cfg : ZonedConfig} {s s' : Zoned (Nat → UInt8)} {zone : Nat}

/-! ## The two ways -/

/-- The bytes of a zone. -/
def ZonedConfig.zoneBytes (cfg : ZonedConfig) : Nat := cfg.zoneSectors * sectorSize

/-- `zoned_reset_zone` on `n` zones from `zone` on. -/
def resetFrom (cfg : ZonedConfig) : Nat → Nat → Zoned (Nat → UInt8) → Zoned (Nat → UInt8)
  | 0, _, s => s
  | n + 1, zone, s => resetFrom cfg n (zone + 1) (callAlone cfg ramdisk s (.resetZone (zone * cfg.zoneBytes))).1

/-- `zoned_reset_zone` on each sequential zone. -/
def resetEach (cfg : ZonedConfig) (s : Zoned (Nat → UInt8)) : Zoned (Nat → UInt8) :=
  resetFrom cfg (cfg.numZones - cfg.numConventionalZones) cfg.numConventionalZones s

/-- `zoned_reset_all_zone`. -/
def resetAll (cfg : ZonedConfig) (s : Zoned (Nat → UInt8)) : Zoned (Nat → UInt8) :=
  (callAlone cfg ramdisk s .resetAllZone).1

/-- The two ways leave the same table, counters and disk; in particular the data of
    conventional zones is as it was. -/
structure ResetsAgree (cfg : ZonedConfig) (s : Zoned (Nat → UInt8)) : Prop where
  zones : SameZones (resetEach cfg s) (resetAll cfg s)
  disk : (resetAll cfg s).raw = (resetEach cfg s).raw
  conventional : ∀ x, x / cfg.zoneBytes < cfg.numZones → x / cfg.zoneBytes < cfg.numConventionalZones →
    (resetAll cfg s).raw x = s.raw x

/-- Conventional zones hold zeros; a zone that is empty has not been written to; and the
    number of active zones is exact. -/
structure ResetClean (cfg : ZonedConfig) (s : Zoned (Nat → UInt8)) : Prop where
  conventional : ∀ x, x / cfg.zoneBytes < cfg.numZones → x / cfg.zoneBytes < cfg.numConventionalZones → s.raw x = 0
  wp : ∀ zone < cfg.numZones, (s.zoneInfo zone).cond = .empty → (s.zoneInfo zone).wp = (s.zoneInfo zone).start
  empty : ∀ x, x / cfg.zoneBytes < cfg.numZones → (s.zoneInfo (x / cfg.zoneBytes)).cond = .empty → s.raw x = 0
  active : s.numActiveZones = countZones cfg s.zoneInfo ZoneCond.isActive

/-! ## Conventional zones -/

/-- The zones without a write pointer are as they were initialised. -/
def PlainKept (cfg : ZonedConfig) (s : Zoned (Nat → UInt8)) : Prop :=
  ∀ zone, (initialZone cfg zone).cond = .notWp → s.zoneInfo zone = initialZone cfg zone

/-- A pointer is moved on only in a zone that has one. -/
def ZoneAct.AdvancesPointer (cfg : ZonedConfig) (e : ZoneAct) : Prop :=
  ∀ zone id offset data, e = .advance zone id offset data → (initialZone cfg zone).cond ≠ .notWp

theorem PlainKept.update (h : PlainKept cfg s) (hzone : (initialZone cfg zone).cond ≠ .notWp) {z : Zone}
    (hinfo : s'.zoneInfo = Function.update s.zoneInfo zone z) : PlainKept cfg s' := by
  intro y hy
  have hne : y ≠ zone := by
    intro heq
    rw [heq] at hy
    exact hzone hy
  rw [hinfo, Function.update_of_ne hne]
  exact h y hy

theorem plainKept_act {e : ZoneAct} (he : e.AdvancesPointer cfg) (hfixed : TableFixed cfg s) (h : PlainKept cfg s) :
    PlainKept cfg (e.sem cfg ramdisk s).1 := by
  obtain hsame | ⟨zone, c, wp, hc, -, hinfo⟩ | hinit | ⟨zone, id, offset, data, heq, hinfo⟩ :=
    sem_zoneInfo cfg ramdisk e s
  · intro y hy
    rw [hsame]
    exact h y hy
  · exact h.update (fun heq => hc ((hfixed zone).kind.2 heq)) hinfo
  · intro y _
    rw [hinit]
  · exact h.update (he zone id offset data heq) hinfo

theorem writeRest_advances (hfixed : TableFixed cfg s) (w : WriteArgs) (position : Option Nat) :
    (writeRest cfg 0 zone w position (checkWrite s zone w)).Uses (ZoneAct.AdvancesPointer cfg) := by
  have hnone : ∀ e : ZoneAct, (∀ zone id offset data, e ≠ .advance zone id offset data) → e.AdvancesPointer cfg :=
    fun e he zone id offset data heq => absurd heq (he zone id offset data)
  cases hcheck : checkWrite s zone w with
  | refused => trivial
  | conventional => exact ⟨hnone _ (by simp), fun _ => trivial⟩
  | reserve offset opens =>
    obtain ⟨-, -, -, hc⟩ := checkWrite_reserve hcheck
    have hzone : (initialZone cfg zone).cond ≠ .notWp := by
      intro heq
      rw [(hfixed zone).kind.2 heq] at hc
      cases opens <;> simp at hc
    have hopen : (if opens then openZoneLocked cfg zone false else pure blkStsOk : ZoneProg Nat).Uses
        (ZoneAct.AdvancesPointer cfg) := by
      cases opens
      · trivial
      · exact ⟨hnone _ (by simp), fun _ => openRest_uses (fun _ _ _ => hnone _ (by simp)) _⟩
    refine hopen.bind (fun result => ?_)
    split
    · trivial
    · refine reserveAndWrite_uses ?_ (hnone _ (by simp)) (hnone _ (by simp)) _
      intro zone' id offset' data heq
      cases heq
      exact hzone

theorem code_advances (hfixed : TableFixed cfg s) (c : ZoneCall) :
    (c.code cfg 0).Along (ZoneAct.sem cfg ramdisk) (fun e _ => e.AdvancesPointer cfg) s := by
  have hnone : ∀ e : ZoneAct, (∀ zone id offset data, e ≠ .advance zone id offset data) → e.AdvancesPointer cfg :=
    fun e he zone id offset data heq => absurd heq (he zone id offset data)
  have huses : ∀ {ρ : Type} {p : ZoneProg ρ} (t : Zoned (Nat → UInt8)), p.Uses (ZoneAct.AdvancesPointer cfg) →
      p.Along (ZoneAct.sem cfg ramdisk) (fun e _ => e.AdvancesPointer cfg) t :=
    fun t hp => hp.along _ (fun _ _ he => he) t
  cases c with
  | write data offset => exact ⟨hnone _ (by simp), huses s (writeRest_advances hfixed _ _)⟩
  | append data offset => exact ⟨hnone _ (by simp), huses s (writeRest_advances hfixed _ _)⟩
  | read offset length =>
    apply huses
    exact ⟨hnone _ (by simp), fun _ => trivial⟩
  | reportZones offset nrZones =>
    apply huses
    exact reportLoop_uses (fun _ => hnone _ (by simp)) _ _ _
  | openZone offset =>
    apply huses
    refine ⟨hnone _ (by simp), fun decision => ?_⟩
    cases decision with
    | none =>
      have hopen : (openZoneLocked cfg (zoneNumber cfg offset) true).Uses (ZoneAct.AdvancesPointer cfg) :=
        ⟨hnone _ (by simp), fun _ => openRest_uses (fun _ _ _ => hnone _ (by simp)) _⟩
      exact hopen.bind (fun _ => trivial)
    | some status => trivial
  | closeZone offset =>
    apply huses
    exact ⟨hnone _ (by simp), fun _ => trivial⟩
  | finishZone offset =>
    apply huses
    exact ⟨hnone _ (by simp), fun _ => trivial⟩
  | resetZone offset =>
    apply huses
    refine ⟨hnone _ (by simp), fun result => ?_⟩
    cases result with
    | none => exact ⟨hnone _ (by simp), fun _ => trivial⟩
    | some status => trivial
  | resetAllZone =>
    apply huses
    exact ⟨hnone _ (by simp), fun _ => ⟨hnone _ (by simp), fun _ => trivial⟩⟩

theorem reach_sane_plain {disk : Nat → UInt8}
    (h : Machine.Reach (callStep cfg ramdisk) (fun _ c => c.InDisk cfg) (initializeZoned cfg disk) s) :
    Sane cfg s ∧ PlainKept cfg s := by
  refine h.inv (I := fun s => Sane cfg s ∧ PlainKept cfg s) ?_
    ⟨⟨⟨0, accounted_initializeZoneInfo rfl⟩, tableFixed_initializeZoneInfo _⟩, fun _ _ => rfl⟩
  intro s c s' hs hc hstep
  cases hstep
  refine ⟨?_, ?_⟩
  · rw [← callWith_statuses]
    exact sane_call ramdisk.statuses hc hs.1
  · have hrun := (code_advances hs.1.fixed c).exec_inv (I := fun s => TableFixed cfg s ∧ PlainKept cfg s) _
      (fun e t he ht => ⟨tableFixed_act ramdisk e ht.1, plainKept_act he ht.1 ht.2⟩) ⟨hs.1.fixed, hs.2⟩
    exact hrun.2

/-! ## Resetting one zone -/

/-- A zone after `zoned_reset_zone`. -/
def emptied (z : Zone) : Zone := if z.cond = .empty then z else { z with cond := .empty, wp := z.start }

theorem ZonedConfig.zoneBytes_pos (cfg : ZonedConfig) : 0 < cfg.zoneBytes :=
  Nat.mul_pos cfg.sectors_pos (by decide)

theorem div_zoneBytes_iff (x zone : Nat) :
    x / cfg.zoneBytes = zone ↔ zone * cfg.zoneBytes ≤ x ∧ x < zone * cfg.zoneBytes + cfg.zoneBytes := by
  rw [Nat.div_eq_iff cfg.zoneBytes_pos]
  have := cfg.zoneBytes_pos
  omega

theorem splice_zeros (m : Nat → UInt8) (a n x : Nat) :
    Bytes.splice m a (List.replicate n 0) x = if a ≤ x ∧ x < a + n then 0 else m x := by
  by_cases hx : a ≤ x ∧ x < a + n
  · rw [if_pos hx]
    obtain ⟨i, rfl⟩ := Nat.exists_eq_add_of_le hx.1
    rw [Bytes.splice_inside m (by rw [List.length_replicate]; omega), List.getElem_replicate]
  · rw [if_neg hx, Bytes.splice_outside m (by rw [List.length_replicate]; omega)]

theorem resetZone_apply (hzones : cfg.numZones ≤ 2 ^ 32)
    (hseq : cfg.numConventionalZones ≤ zone ∧ zone < cfg.numZones)
    (hfixed : TableFixed cfg s) {leaked : Nat} (hacc : Accounted cfg leaked s) :
    let t := (callAlone cfg ramdisk s (.resetZone (zone * cfg.zoneBytes))).1
    t.zoneInfo = Function.update s.zoneInfo zone (emptied (s.zoneInfo zone)) ∧
      (∀ x, t.raw x = if x / cfg.zoneBytes = zone ∧ (s.zoneInfo zone).cond ≠ .empty then 0 else s.raw x) ∧
      TableFixed cfg t ∧ Accounted cfg leaked t := by
  intro t
  have hnumber : zoneNumber cfg (zone * cfg.zoneBytes) = zone := by
    show zone * cfg.zoneBytes / cfg.zoneBytes % 2 ^ 32 = zone
    rw [Nat.mul_div_cancel _ cfg.zoneBytes_pos]
    omega
  have ht : t = (callWith cfg ramdisk.statuses s (.resetZone (zone * cfg.zoneBytes))).1 := by
    rw [callWith_statuses]
  rw [callWith_resetZone, hnumber] at ht
  dsimp only at ht
  have hinit : initialZone cfg zone =
      ⟨cfg.zoneSectors * zone, cfg.zoneSectors, cfg.zoneSectors * zone, false, .empty, cfg.zoneSectors⟩ := by
    rw [initialZone, if_neg (by omega), if_pos hseq.2]
  have hwp : (s.zoneInfo zone).cond ≠ .notWp := by
    intro heq
    have hnot := (hfixed zone).kind.1 heq
    rw [hinit] at hnot
    cases hnot
  by_cases hempty : (s.zoneInfo zone).cond = .empty
  · -- nothing happens
    rw [resetSwitch_keeps (by simp [hempty])] at ht
    change t = s at ht
    rw [ht]
    refine ⟨?_, fun x => ?_, hfixed, hacc⟩
    · rw [emptied, if_pos hempty]
      exact (Function.update_eq_self zone s.zoneInfo).symm
    · rw [if_neg (fun h => h.2 hempty)]
  · have hmem : (s.zoneInfo zone).cond ∈ [.impOpen, .expOpen, .closed, .full] := by
      cases hc : (s.zoneInfo zone).cond with
      | notWp => exact absurd hc hwp
      | empty => exact absurd hc hempty
      | _ => simp
    obtain ⟨hnone, hinfo⟩ := resetSwitch_empties hmem
    rw [hnone] at ht
    dsimp only at ht
    have hbegin : (s.zoneInfo zone).start * sectorSize = zone * cfg.zoneBytes := by
      rw [(hfixed zone).start, hinit, ZonedConfig.zoneBytes, Nat.mul_comm cfg.zoneSectors zone, Nat.mul_assoc]
    have hsize : (s.zoneInfo zone).len * sectorSize = cfg.zoneBytes := by
      rw [(hfixed zone).len, hinit, ZonedConfig.zoneBytes]
    rw [hbegin, hsize] at ht
    have htinfo : t.zoneInfo = Function.update s.zoneInfo zone (emptied (s.zoneInfo zone)) := by
      rw [ht, emptied, if_neg hempty]
      exact hinfo
    refine ⟨htinfo, fun x => ?_, ?_, ?_⟩
    · rw [ht]
      show Bytes.splice s.raw (zone * cfg.zoneBytes) (List.replicate cfg.zoneBytes 0) x = _
      rw [splice_zeros]
      simp only [div_zoneBytes_iff, ne_eq, hempty, not_false_eq_true, and_true]
    · have hfull : t.zoneInfo = Function.update s.zoneInfo zone
          { s.zoneInfo zone with cond := .empty, wp := (s.zoneInfo zone).start } := by
        rw [ht]
        exact hinfo
      exact hfixed.update .empty _ (by simp [hwp]) hfull
    · have hreset := hacc.resetSwitch hseq.2
      rw [ht]
      exact hreset.congr (fun _ => rfl) rfl rfl rfl rfl

theorem resetFrom_apply (hzones : cfg.numZones ≤ 2 ^ 32) (n : Nat) (hseq : cfg.numConventionalZones ≤ zone)
    (hend : zone + n ≤ cfg.numZones) (hfixed : TableFixed cfg s) {leaked : Nat} (hacc : Accounted cfg leaked s) :
    (∀ y, (resetFrom cfg n zone s).zoneInfo y = if zone ≤ y ∧ y < zone + n then emptied (s.zoneInfo y)
      else s.zoneInfo y) ∧
      (∀ x, (resetFrom cfg n zone s).raw x =
        if zone ≤ x / cfg.zoneBytes ∧ x / cfg.zoneBytes < zone + n ∧
          (s.zoneInfo (x / cfg.zoneBytes)).cond ≠ .empty then 0
        else s.raw x) ∧ Accounted cfg leaked (resetFrom cfg n zone s) := by
  induction n generalizing zone s with
  | zero =>
    refine ⟨fun y => ?_, fun x => ?_, hacc⟩
    · rw [if_neg (by omega)]
      rfl
    · rw [if_neg (by omega)]
      rfl
  | succ n ih =>
    obtain ⟨hinfo, hraw, hfixed', hacc'⟩ := resetZone_apply hzones ⟨hseq, by omega⟩ hfixed hacc
    obtain ⟨ihinfo, ihraw, ihacc⟩ := ih (show cfg.numConventionalZones ≤ zone + 1 by omega) (by omega) hfixed' hacc'
    refine ⟨fun y => ?_, fun x => ?_, ihacc⟩
    · rw [resetFrom, ihinfo y, hinfo, Function.update_apply]
      by_cases hy : y = zone
      · subst hy
        rw [if_neg (by omega), if_pos rfl, if_pos (by omega)]
      · rw [if_neg hy]
        have hiff : (zone + 1 ≤ y ∧ y < zone + 1 + n) ↔ (zone ≤ y ∧ y < zone + (n + 1)) := by omega
        simp only [hiff]
    · rw [resetFrom, ihraw x, hraw x, hinfo, Function.update_apply]
      by_cases hx : x / cfg.zoneBytes = zone
      · rw [if_neg (by omega), hx]
        simp only [true_and, le_refl]
        have hlt : zone < zone + (n + 1) := by omega
        simp only [hlt, true_and]
      · rw [if_neg hx]
        have hiff : (zone + 1 ≤ x / cfg.zoneBytes ∧ x / cfg.zoneBytes < zone + 1 + n) ↔
            (zone ≤ x / cfg.zoneBytes ∧ x / cfg.zoneBytes < zone + (n + 1)) := by omega
        simp only [← and_assoc, hiff, hx, false_and, if_false]

/-! ## Resetting all zones -/

theorem resetAll_apply (cfg : ZonedConfig) (s : Zoned (Nat → UInt8)) :
    (resetAll cfg s).zoneInfo = initialZone cfg ∧ (resetAll cfg s).numOpenZones = 0 ∧
      (resetAll cfg s).numImpOpenZones = 0 ∧ (resetAll cfg s).numActiveZones = 0 ∧
      ∀ x, (resetAll cfg s).raw x = if x / cfg.zoneBytes < cfg.numZones then 0 else s.raw x := by
  refine ⟨rfl, rfl, rfl, rfl, fun x => ?_⟩
  show Bytes.splice s.raw 0 (List.replicate (cfg.numZones * cfg.zoneBytes) 0) x = _
  rw [splice_zeros]
  simp only [Nat.zero_le, true_and, Nat.zero_add, Nat.div_lt_iff_lt_mul cfg.zoneBytes_pos]

theorem resetEach_apply (hzones : cfg.numZones ≤ 2 ^ 32) (hfixed : TableFixed cfg s) {leaked : Nat}
    (hacc : Accounted cfg leaked s) :
    (∀ y, (resetEach cfg s).zoneInfo y =
        if cfg.numConventionalZones ≤ y ∧ y < cfg.numZones then emptied (s.zoneInfo y) else s.zoneInfo y) ∧
      (∀ x, (resetEach cfg s).raw x =
        if cfg.numConventionalZones ≤ x / cfg.zoneBytes ∧ x / cfg.zoneBytes < cfg.numZones ∧
          (s.zoneInfo (x / cfg.zoneBytes)).cond ≠ .empty then 0 else s.raw x) ∧
      (resetEach cfg s).numOpenZones = 0 ∧ (resetEach cfg s).numImpOpenZones = 0 ∧
      (resetEach cfg s).numActiveZones = leaked := by
  have hrun : (∀ y, (resetEach cfg s).zoneInfo y =
        if cfg.numConventionalZones ≤ y ∧ y < cfg.numZones then emptied (s.zoneInfo y) else s.zoneInfo y) ∧
      (∀ x, (resetEach cfg s).raw x =
        if cfg.numConventionalZones ≤ x / cfg.zoneBytes ∧ x / cfg.zoneBytes < cfg.numZones ∧
          (s.zoneInfo (x / cfg.zoneBytes)).cond ≠ .empty then 0 else s.raw x) ∧
            Accounted cfg leaked (resetEach cfg s) := by
    by_cases hle : cfg.numConventionalZones ≤ cfg.numZones
    · obtain ⟨hinfo, hraw, hacc'⟩ := resetFrom_apply hzones (cfg.numZones - cfg.numConventionalZones)
        (Nat.le_refl cfg.numConventionalZones) (by omega) hfixed hacc
      rw [Nat.add_sub_cancel' hle] at hinfo hraw
      exact ⟨hinfo, hraw, hacc'⟩
    · -- no sequential zone
      have hzero : cfg.numZones - cfg.numConventionalZones = 0 := by omega
      rw [resetEach, hzero]
      refine ⟨fun y => ?_, fun x => ?_, hacc⟩
      · rw [if_neg (by omega)]
        rfl
      · rw [if_neg (by omega)]
        rfl
  obtain ⟨hinfo, hraw, hacc'⟩ := hrun
  have hcount : ∀ P : ZoneCond → Bool, P .notWp = false → P .empty = false →
      countZones cfg (resetEach cfg s).zoneInfo P = 0 := by
    intro P hwp hempty
    rw [countZones, List.countP_eq_zero]
    intro y hy
    have hlt := List.mem_range.1 hy
    rw [hinfo y]
    by_cases hseq : cfg.numConventionalZones ≤ y
    · rw [if_pos ⟨hseq, hlt⟩, emptied]
      split
      · next hc => rw [hc, hempty]; simp
      · rw [hempty]; simp
    · have hnot : (s.zoneInfo y).cond = .notWp := (hfixed y).kind.2 (by rw [initialZone, if_pos (by omega)])
      rw [if_neg (fun h => hseq h.1), hnot, hwp]
      simp
  refine ⟨hinfo, hraw, ?_, ?_, ?_⟩
  · rw [hacc'.openEq, hcount _ rfl rfl]
  · rw [hacc'.impEq, hcount _ rfl rfl]
  · rw [hacc'.activeEq, hcount _ rfl rfl, Nat.zero_add]

/-- The two ways leave the same table where no empty zone has a pointer behind its
    start. -/
theorem initialZone_eq_emptied (hfixed : TableFixed cfg s) {y : Nat}
    (hseq : cfg.numConventionalZones ≤ y ∧ y < cfg.numZones) :
    initialZone cfg y = emptied (s.zoneInfo y) ↔
      ((s.zoneInfo y).cond = .empty → (s.zoneInfo y).wp = (s.zoneInfo y).start) := by
  obtain ⟨hstart, hlen, hcap, hconv, -⟩ := hfixed y
  have hinit : initialZone cfg y =
      ⟨cfg.zoneSectors * y, cfg.zoneSectors, cfg.zoneSectors * y, false, .empty, cfg.zoneSectors⟩ := by
    rw [initialZone, if_neg (by omega), if_pos hseq.2]
  rw [hinit] at hstart hlen hcap hconv
  rw [hinit, emptied]
  constructor
  · intro heq hc
    rw [if_pos hc] at heq
    rw [← heq]
  · intro hwp
    by_cases hc : (s.zoneInfo y).cond = .empty
    · have hptr := hwp hc
      rw [if_pos hc]
      cases hz : s.zoneInfo y with
      | mk start len wp conventional cond capacity => simp_all
    · rw [if_neg hc]
      cases hz : s.zoneInfo y with
      | mk start len wp conventional cond capacity => simp_all

/-- **Resetting all zones is resetting each sequential zone exactly in clean states.** -/
theorem reset_all_iff (hzones : cfg.numZones ≤ 2 ^ 32) {disk : Nat → UInt8}
    (h : Machine.Reach (callStep cfg ramdisk) (fun _ c => c.InDisk cfg) (initializeZoned cfg disk) s) :
    ResetsAgree cfg s ↔ ResetClean cfg s := by
  obtain ⟨⟨⟨leaked, hacc⟩, hfixed⟩, hplain⟩ := reach_sane_plain h
  obtain ⟨hainfo, haopen, haimp, haactive, haraw⟩ := resetAll_apply cfg s
  obtain ⟨heinfo, heraw, heopen, heimp, heactive⟩ := resetEach_apply hzones hfixed hacc
  have hactive := hacc.activeEq
  -- an empty zone is sequential
  have hsequential : ∀ y, (s.zoneInfo y).cond = .empty → cfg.numConventionalZones ≤ y := by
    intro y hc
    by_contra hlt
    have hnot := (hfixed y).kind.2 (by rw [initialZone, if_pos (by omega)])
    rw [hc] at hnot
    cases hnot
  constructor
  · intro hagree
    have htable : ∀ y, initialZone cfg y = (resetEach cfg s).zoneInfo y := by
      intro y
      rw [← hagree.zones.zoneInfo, hainfo]
    have hdisk : ∀ x, (resetAll cfg s).raw x = (resetEach cfg s).raw x := fun x => congrFun hagree.disk x
    refine ⟨fun x hx hconv => ?_, fun y hy hc => ?_, fun x hx hc => ?_, ?_⟩
    · have hsame := hagree.conventional x hx hconv
      rw [haraw, if_pos hx] at hsame
      exact hsame.symm
    · have hsame := htable y
      rw [heinfo, if_pos ⟨hsequential y hc, hy⟩, initialZone_eq_emptied hfixed ⟨hsequential y hc, hy⟩] at hsame
      exact hsame hc
    · have hsame := hdisk x
      rw [haraw, if_pos hx, heraw, if_neg (fun hbad => hbad.2.2 hc)] at hsame
      exact hsame.symm
    · have hzero := hagree.zones.numActive
      rw [haactive, heactive] at hzero
      omega
  · intro hclean
    refine ⟨⟨?_, haopen.trans heopen.symm, haimp.trans heimp.symm, ?_⟩, ?_, ?_⟩
    · rw [hainfo]
      funext y
      rw [heinfo]
      by_cases hseq : cfg.numConventionalZones ≤ y ∧ y < cfg.numZones
      · rw [if_pos hseq, initialZone_eq_emptied hfixed hseq]
        exact hclean.wp y hseq.2
      · rw [if_neg hseq]
        refine (hplain y ?_).symm
        unfold initialZone
        split
        · rfl
        · rw [if_neg (by omega)]
    · have hexact := hclean.active
      rw [haactive, heactive]
      omega
    · funext x
      rw [haraw, heraw]
      by_cases hx : x / cfg.zoneBytes < cfg.numZones
      · rw [if_pos hx]
        split
        · rfl
        · next hnot =>
          by_cases hconv : x / cfg.zoneBytes < cfg.numConventionalZones
          · exact (hclean.conventional x hx hconv).symm
          · refine (hclean.empty x hx ?_).symm
            by_contra hne
            exact hnot ⟨by omega, hx, hne⟩
      · rw [if_neg hx, if_neg (fun hbad => hx hbad.2.1)]
    · intro x hx hconv
      rw [haraw, if_pos hx]
      exact (hclean.conventional x hx hconv).symm

/-- Both zones hold data: zone 0 is closed and zone 1 is open. -/
theorem reset_all_iff_severalCalls :
    ∃ s, Machine.run (callStep twoWideZones ramdisk) (initializeZoned twoWideZones (fun _ => 0)) severalCalls =
      some s ∧
      s.raw 0 = 1 ∧ s.raw 1024 = 1 ∧ ResetsAgree twoWideZones s := by
  obtain ⟨s, hs, hfirst, hsecond, hconds, hactive⟩ : ∃ s, Machine.run (callStep twoWideZones ramdisk)
        (initializeZoned twoWideZones (fun _ => 0)) severalCalls = some s ∧
      s.raw 0 = 1 ∧ s.raw 1024 = 1 ∧ (∀ zone < 2, (s.zoneInfo zone).cond ≠ .empty) ∧
      s.numActiveZones = countZones twoWideZones s.zoneInfo ZoneCond.isActive :=
    ⟨_, rfl, by decide +kernel, by decide +kernel, by decide +kernel, by decide +kernel⟩
  refine ⟨s, hs, hfirst, hsecond, (reset_all_iff (by decide)
    ⟨severalCalls, Machine.Steps.of_run_ok hs (fun _ c hc => (severalCalls_valid c hc).inDisk)⟩).2
      ⟨?_, ?_, ?_, hactive⟩⟩
  · intro x _ hconv
    exact absurd hconv (Nat.not_lt_zero _)
  · intro zone hzone hc
    exact absurd hc (hconds zone hzone)
  · intro x hx hc
    exact absurd hc (hconds _ hx)

/-- A conventional zone has been written to: its data is gone after
    `zoned_reset_all_zone`. And after an attempt to open a zone beyond the limit, which
    counts it as active, resetting each zone leaves it counted. -/
theorem reset_all_differs :
    (∃ s, Machine.Reach (callStep oneConventional ramdisk) (fun _ c => c.InDisk oneConventional)
        (initializeZoned oneConventional (fun _ => 0)) s ∧
      s.raw 0 = 1 ∧ (resetEach oneConventional s).raw 0 = 1 ∧ (resetAll oneConventional s).raw 0 = 0 ∧
      ¬ ResetsAgree oneConventional s) ∧
    (∃ s, Machine.Reach (callStep twoZones ramdisk) (fun _ c => c.InDisk twoZones)
        (initializeZoned twoZones (fun _ => 0)) s ∧
      (resetEach twoZones s).numActiveZones = 1 ∧ (resetAll twoZones s).numActiveZones = 0 ∧
        ¬ ResetsAgree twoZones s) := by
  have h₀ : (ZoneCall.write oneSector 0).InDisk oneConventional := by change 0 < 2 * (1 * sectorSize); decide
  have h₁ : (ZoneCall.openZone 0).InDisk twoZones := by change 0 < 2 * (1 * sectorSize); decide
  have h₂ : (ZoneCall.openZone 512).InDisk twoZones := by change 512 < 2 * (1 * sectorSize); decide
  refine ⟨⟨_, ⟨[.write oneSector 0], .cons h₀ rfl (.nil _)⟩, by decide +kernel, by decide +kernel,
      by decide +kernel, fun hagree => ?_⟩,
    ⟨_, ⟨[.openZone 0, .openZone 512], .cons h₁ rfl (.cons h₂ rfl (.nil _))⟩, by decide +kernel,
      by decide +kernel, fun hagree => ?_⟩⟩
  · exact absurd (congrFun hagree.disk 0) (by decide +kernel)
  · exact absurd hagree.zones.numActive (by decide +kernel)

end Bius
