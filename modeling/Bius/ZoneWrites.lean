import Bius.ZoneAccounting
import Bius.ZoneLanded

/- A write of the zone emulator over the ramdisk, run alone. It is refused by its checks
   (`callAlone_refused`); or the zone is opened, where that is needed, and the data is
   stored there (`callAlone_accepted`, `stored`). Opening is refused for want of
   resources, closes another zone, or opens the zone (`opened_cases`). Storing twice is
   storing once (`stored_append`), and a write moves the write pointer of its zone by no
   more than its length (`call_wp`). -/
namespace Bius

open Threads

/-! ## The device -/

section
variable {δ : Type}

/-- What a call can see of the state: the zone table, the counters and the disk. -/
def Zoned.device (s : Zoned δ) : (Nat → Zone) × Nat × Nat × Nat × δ :=
  (s.zoneInfo, s.numOpenZones, s.numImpOpenZones, s.numActiveZones, s.raw)

theorem Zoned.device_inj {s t : Zoned δ} (h : s.device = t.device) :
    s.zoneInfo = t.zoneInfo ∧ s.numOpenZones = t.numOpenZones ∧ s.numImpOpenZones = t.numImpOpenZones ∧
      s.numActiveZones = t.numActiveZones ∧ s.raw = t.raw := by
  simpa only [Zoned.device, Prod.mk.injEq] using h

end

/-! ## Storing -/

section
variable {cfg : ZonedConfig} {s t : Zoned (Nat → UInt8)} {zone : Nat}

/-- What `zoned_write_common` does from the reservation on. -/
def stored (s : Zoned (Nat → UInt8)) (zone offset : Nat) (data : List UInt8) : Zoned (Nat → UInt8) :=
  let t := advance s zone 0 offset data
  let t := if t.2 then (fullSwitch t.1 zone).1 else t.1
  { t with raw := Bytes.splice t.raw offset data }

theorem exec_reserveAndWrite_ramdisk (s : Zoned (Nat → UInt8)) (zone offset : Nat) (w : WriteArgs)
    (position : Option Nat) :
    (reserveAndWrite 0 zone offset w position).exec (ZoneAct.sem cfg ramdisk) s =
      (stored s zone offset w.data, { status := blkStsOk, position }) := by
  show (storeRest 0 zone offset w position (advance s zone 0 offset w.data).2).exec (ZoneAct.sem cfg ramdisk)
    (advance s zone 0 offset w.data).1 = _
  cases hfull : (advance s zone 0 offset w.data).2 <;> simp only [stored, hfull] <;> rfl

theorem sectors_add {n : Nat} (h : sectorSize ∣ n) (m : Nat) :
    (n + m) / sectorSize = n / sectorSize + m / sectorSize := by
  have h' : 512 ∣ n := h
  simp only [sectorSize]
  omega

theorem advance_full (s : Zoned (Nat → UInt8)) (zone offset : Nat) (data : List UInt8) :
    (advance s zone 0 offset data).2 = true ↔
      (s.zoneInfo zone).wp + data.length / sectorSize = (s.zoneInfo zone).start + (s.zoneInfo zone).capacity := by
  simp [advance]

theorem stored_of_room (offset : Nat) {data : List UInt8}
    (h : (s.zoneInfo zone).wp + data.length / sectorSize ≠ (s.zoneInfo zone).start + (s.zoneInfo zone).capacity) :
    (stored s zone offset data).device =
      (Function.update s.zoneInfo zone
          { s.zoneInfo zone with wp := (s.zoneInfo zone).wp + data.length / sectorSize },
        s.numOpenZones, s.numImpOpenZones, s.numActiveZones, Bytes.splice s.raw offset data) := by
  have hfull : (advance s zone 0 offset data).2 = false := by
    rw [← Bool.not_eq_true, advance_full]
    exact h
  simp only [stored, hfull]
  rfl

theorem stored_of_full (offset : Nat) {data : List UInt8} (hc : (s.zoneInfo zone).cond ≠ .notWp)
    (h : (s.zoneInfo zone).wp + data.length / sectorSize = (s.zoneInfo zone).start + (s.zoneInfo zone).capacity) :
    (stored s zone offset data).device =
      (Function.update s.zoneInfo zone
          { s.zoneInfo zone with cond := .full, wp := (s.zoneInfo zone).start + (s.zoneInfo zone).len },
        if (s.zoneInfo zone).cond.isOpen then dec32 s.numOpenZones else s.numOpenZones,
        if (s.zoneInfo zone).cond.isImpOpen then dec32 s.numImpOpenZones else s.numImpOpenZones,
        if (s.zoneInfo zone).cond.isActive then dec32 s.numActiveZones else s.numActiveZones,
        Bytes.splice s.raw offset data) := by
  have hfull := (advance_full s zone offset data).2 h
  have hcond : ((advance s zone 0 offset data).1.zoneInfo zone).cond = (s.zoneInfo zone).cond := by
    simp [advance, Zoned.setZone]
  simp only [stored, hfull, if_true, fullSwitch, hcond]
  cases hz : (s.zoneInfo zone).cond with
  | notWp => exact absurd hz hc
  | _ =>
    simp [Zoned.device, setFull, Zoned.setZone, Zoned.decOpen, Zoned.decImpOpen, Zoned.decActive, advance,
      ZoneCond.isOpen, ZoneCond.isImpOpen, ZoneCond.isActive]

/-- Storing one piece behind the other is storing both at once, unless the first fills
    the zone. -/
theorem stored_append {offset : Nat} {xs ys : List UInt8} (hc : (s.zoneInfo zone).cond ≠ .notWp)
    (hdvd : sectorSize ∣ xs.length)
    (h : (s.zoneInfo zone).wp + xs.length / sectorSize ≠ (s.zoneInfo zone).start + (s.zoneInfo zone).capacity) :
    (stored (stored s zone offset xs) zone (offset + xs.length) ys).device = (stored s zone offset (xs ++ ys)).device := by
  have hfirst := stored_of_room offset h
  simp only [Zoned.device, Prod.mk.injEq] at hfirst
  obtain ⟨hinfo, hopen, himp, hactive, hraw⟩ := hfirst
  have hzone : (stored s zone offset xs).zoneInfo zone =
      { s.zoneInfo zone with wp := (s.zoneInfo zone).wp + xs.length / sectorSize } := by
    rw [hinfo, Function.update_self]
  have hlen : (xs ++ ys).length / sectorSize = xs.length / sectorSize + ys.length / sectorSize := by
    rw [List.length_append]
    exact sectors_add hdvd _
  by_cases hfull : (s.zoneInfo zone).wp + (xs ++ ys).length / sectorSize =
      (s.zoneInfo zone).start + (s.zoneInfo zone).capacity
  · rw [stored_of_full _ hc hfull, stored_of_full _ (by rw [hzone]; exact hc) (by rw [hzone]; dsimp only; omega),
      hzone, hinfo, hopen, himp, hactive, hraw, Function.update_idem, Bytes.splice_append]
  · rw [stored_of_room _ hfull, stored_of_room _ (by rw [hzone]; dsimp only; omega), hzone, hinfo,
      hopen, himp, hactive, hraw, Function.update_idem, Bytes.splice_append, hlen, Nat.add_assoc]

/-! ## Opening -/

variable (cfg s zone)

/-- The part of `zoned_write_common` that opens the zone if that is needed, and its
    result. -/
def opened : Zoned (Nat → UInt8) × Nat :=
  if (s.zoneInfo zone).cond ∈ [.empty, .closed] then (openZoneLocked cfg zone false).exec (ZoneAct.sem cfg ramdisk) s
  else (s, blkStsOk)

/-- The zone is not open, and one of the limits stands in the way. -/
def OpenRefused : Prop :=
  (s.zoneInfo zone).cond = .empty ∧ cfg.maxActiveZones ≤ s.numActiveZones ∨
    (s.zoneInfo zone).cond ∈ [.empty, .closed] ∧ cfg.maxOpenZones ≤ s.numOpenZones ∧ s.numImpOpenZones = 0

/-- The zone is not open, and `open_zone_locked` closes another one instead of opening
    it. -/
def Evicts : Prop :=
  (s.zoneInfo zone).cond ∈ [.empty, .closed] ∧ cfg.maxOpenZones ≤ s.numOpenZones ∧ 0 < s.numImpOpenZones ∧
    ((s.zoneInfo zone).cond = .empty → s.numActiveZones < cfg.maxActiveZones)

instance : Decidable (OpenRefused cfg s zone) := inferInstanceAs (Decidable (_ ∧ _ ∨ _ ∧ _ ∧ _))

instance : Decidable (Evicts cfg s zone) := inferInstanceAs (Decidable (_ ∧ _ ∧ _ ∧ (_ → _)))

variable {cfg s zone}

theorem SameTable.trans {δ : Type} {s t u : Zoned δ} (h : SameTable s t) (h' : SameTable t u) : SameTable s u := by
  refine ⟨fun z => ?_, h'.2.trans h.2⟩
  rw [h'.1 z, h.1 z]

theorem SameTable.fields {δ : Type} {s t : Zoned δ} (h : SameTable s t) (z : Nat) :
    (t.zoneInfo z).start = (s.zoneInfo z).start ∧ (t.zoneInfo z).len = (s.zoneInfo z).len ∧
      (t.zoneInfo z).wp = (s.zoneInfo z).wp ∧ (t.zoneInfo z).conventional = (s.zoneInfo z).conventional ∧
      (t.zoneInfo z).capacity = (s.zoneInfo z).capacity := by
  rw [h.1 z]
  exact ⟨rfl, rfl, rfl, rfl, rfl⟩

theorem opened_same (cfg : ZonedConfig) (s : Zoned (Nat → UInt8)) (zone : Nat) : SameTable s (opened cfg s zone).1 := by
  unfold opened
  split
  · rw [exec_openZoneLocked_eq (sem_switches ramdisk)]
    have hswitch := openSwitch_same cfg s zone false
    cases (openSwitch cfg s zone false).2 with
    | result status => exact hswitch
    | closeImp =>
      have huses : (closeImpOpenZone cfg zone).Uses (fun e => ∃ z, e = .closeIfImpOpen z) :=
        closeImpOpenZone_uses (fun z _ _ => ⟨z, rfl⟩)
      refine (huses.along (ZoneAct.sem cfg ramdisk) (fun _ _ he => he) _).exec_inv (I := SameTable s) _ ?_ hswitch
      rintro _ t ⟨z, rfl⟩ ht
      exact ht.trans (closeIfImpOpen_same t z)
  · exact SameTable.refl s

theorem opened_of_open (hc : (s.zoneInfo zone).cond.isOpen = true) : opened cfg s zone = (s, blkStsOk) := by
  rw [opened, if_neg]
  intro hmem
  simp only [List.mem_cons, List.not_mem_nil, or_false] at hmem
  rcases hmem with hmem | hmem <;> rw [hmem] at hc <;> cases hc

theorem opened_refused (h : OpenRefused cfg s zone) :
    (opened cfg s zone).2 ≠ blkStsOk ∧ (opened cfg s zone).2 ≠ blkStsIoerr := by
  have hc : (s.zoneInfo zone).cond ∈ [.empty, .closed] := by
    rcases h with ⟨hc, -⟩ | ⟨hc, -⟩
    · simp [hc]
    · exact hc
  have hstatus : (openSwitch cfg s zone false).2 = .result blkStsZoneActiveResource ∨
      (openSwitch cfg s zone false).2 = .result blkStsZoneOpenResource := by
    rcases h with ⟨hc, hactive⟩ | ⟨-, hopen, himp⟩
    · exact .inl (by simp [openSwitch, hc, hactive])
    · have hclosed : ∀ t : Zoned (Nat → UInt8), t.numOpenZones = s.numOpenZones →
          t.numImpOpenZones = s.numImpOpenZones →
          (openClosed cfg t zone false).2 = .result blkStsZoneOpenResource := by
        intro t ht ht'
        rw [openClosed, if_pos (by omega), if_neg (by omega)]
      simp only [List.mem_cons, List.not_mem_nil, or_false] at hc
      rcases hc with hc | hc
      · by_cases hactive : cfg.maxActiveZones ≤ s.numActiveZones
        · exact .inl (by simp [openSwitch, hc, hactive])
        · simp only [openSwitch, hc]
          rw [if_neg hactive]
          exact .inr (hclosed _ rfl rfl)
      · simp only [openSwitch, hc]
        exact .inr (hclosed _ rfl rfl)
  rw [opened, if_pos hc, exec_openZoneLocked_eq (sem_switches ramdisk)]
  rcases hstatus with hst | hst <;> rw [hst]
  · exact (by decide : blkStsZoneActiveResource ≠ blkStsOk ∧ blkStsZoneActiveResource ≠ blkStsIoerr)
  · exact (by decide : blkStsZoneOpenResource ≠ blkStsOk ∧ blkStsZoneOpenResource ≠ blkStsIoerr)

/-- The zone is open after an opening that is neither refused nor spent on another
    zone. -/
theorem opened_opens (hc : (s.zoneInfo zone).cond ∈ [.empty, .closed, .impOpen, .expOpen])
    (hr : ¬ OpenRefused cfg s zone) (he : ¬ Evicts cfg s zone) :
    (opened cfg s zone).2 = blkStsOk ∧ ((opened cfg s zone).1.zoneInfo zone).cond.isOpen = true := by
  by_cases hclosed : (s.zoneInfo zone).cond ∈ [.empty, .closed]
  · rw [opened, if_pos hclosed, exec_openZoneLocked_eq (sem_switches ramdisk)]
    obtain ⟨-, ⟨status, hst, ha⟩ | ⟨hopen, -⟩ | ⟨-, hopen, himp, hactive, -⟩⟩ | ⟨-, ha, hinfo⟩ :=
      openSwitch_cases cfg s zone false
    · -- a refusal is one of the two
      refine absurd ?_ hr
      have hcases : ∀ t : Zoned (Nat → UInt8), (openClosed cfg t zone false).2 = .result status →
          cfg.maxOpenZones ≤ t.numOpenZones ∧ t.numImpOpenZones = 0 := by
        intro t ht
        unfold openClosed at ht
        split at ht
        · next hle =>
          split at ht
          · cases ht
          · exact ⟨hle, by omega⟩
        · cases ht
          exact absurd rfl hst
      simp only [List.mem_cons, List.not_mem_nil, or_false] at hclosed
      rcases hclosed with hz | hz
      · by_cases hle : cfg.maxActiveZones ≤ s.numActiveZones
        · exact .inl ⟨hz, hle⟩
        · simp only [openSwitch, hz] at ha
          rw [if_neg hle] at ha
          exact .inr ⟨by simp [hz], hcases s.incActive ha⟩
      · simp only [openSwitch, hz] at ha
        exact .inr ⟨by simp [hz], hcases _ ha⟩
    · simp only [List.mem_cons, List.not_mem_nil, or_false] at hclosed hopen
      rcases hclosed with hz | hz <;> rw [hz] at hopen <;> simp at hopen
    · exact absurd ⟨hclosed, hopen, himp, hactive⟩ he
    · rw [ha]
      refine ⟨rfl, ?_⟩
      rw [hinfo, Function.update_self]
      rfl
  · have hopen : (s.zoneInfo zone).cond.isOpen = true := by
      simp only [List.mem_cons, List.not_mem_nil, or_false] at hc hclosed
      rcases hc with hz | hz | hz | hz
      · exact absurd (.inl hz) hclosed
      · exact absurd (.inr hz) hclosed
      · rw [hz]; rfl
      · rw [hz]; rfl
    rw [opened_of_open hopen]
    exact ⟨rfl, hopen⟩

theorem opened_enters (hc : (s.zoneInfo zone).cond ∈ [.empty, .closed]) (hopen : s.numOpenZones < cfg.maxOpenZones)
    (hactive : (s.zoneInfo zone).cond = .empty → s.numActiveZones < cfg.maxActiveZones) :
    (opened cfg s zone).1.device =
      (Function.update s.zoneInfo zone { s.zoneInfo zone with cond := .impOpen }, inc32 s.numOpenZones,
        inc32 s.numImpOpenZones,
        if (s.zoneInfo zone).cond = .empty then inc32 s.numActiveZones else s.numActiveZones, s.raw) := by
  have hswitch : openSwitch cfg s zone false = openClosed cfg
      (if (s.zoneInfo zone).cond = .empty then s.incActive else s) zone false := by
    simp only [List.mem_cons, List.not_mem_nil, or_false] at hc
    rcases hc with hz | hz
    · simp only [openSwitch, hz, if_true]
      rw [if_neg (by have := hactive hz; omega)]
    · simp [openSwitch, hz]
  rw [opened, if_pos hc, exec_openZoneLocked_eq (sem_switches ramdisk), hswitch]
  by_cases hz : (s.zoneInfo zone).cond = .empty
  · have hopen' : ¬ cfg.maxOpenZones ≤ s.incActive.numOpenZones := Nat.not_le.2 hopen
    rw [if_pos hz, if_pos hz, openClosed, if_neg hopen']
    rfl
  · rw [if_neg hz, if_neg hz, openClosed, if_neg (Nat.not_le.2 hopen)]
    rfl

/-- What an opening leaves that closes another zone: the zone as it was, one open zone
    less, and an empty zone counted as active. -/
structure Evicted (s t : Zoned (Nat → UInt8)) (zone : Nat) : Prop where
  same : t.zoneInfo zone = s.zoneInfo zone
  openEq : t.numOpenZones + 1 = s.numOpenZones
  impEq : t.numImpOpenZones + 1 = s.numImpOpenZones
  activeEq : t.numActiveZones = s.numActiveZones + if (s.zoneInfo zone).cond = .empty then 1 else 0

theorem opened_evicts (hconv : cfg.numConventionalZones = 0) {leaked : Nat} (hacc : Accounted cfg leaked s)
    (h : Evicts cfg s zone) : (opened cfg s zone).2 = blkStsOk ∧ Evicted s (opened cfg s zone).1 zone := by
  obtain ⟨hc, hopen, himp, hactive⟩ := h
  have hswitch : openSwitch cfg s zone false =
      (if (s.zoneInfo zone).cond = .empty then s.incActive else s, .closeImp) := by
    have hclosed : ∀ t : Zoned (Nat → UInt8), t.numOpenZones = s.numOpenZones →
        t.numImpOpenZones = s.numImpOpenZones →
        openClosed cfg t zone false = (t, .closeImp) := by
      intro t ht ht'
      rw [openClosed, if_pos (by omega), if_pos (by omega)]
    simp only [List.mem_cons, List.not_mem_nil, or_false] at hc
    rcases hc with hz | hz
    · simp only [openSwitch, hz, if_true]
      rw [if_neg (by have := hactive hz; omega)]
      exact hclosed _ rfl rfl
    · simp only [openSwitch, hz]
      exact hclosed _ rfl rfl
  -- some other zone is implicitly open
  have hex : ∃ y, 0 ≤ y ∧ y < 0 + cfg.numZones ∧ y ≠ zone ∧ (s.zoneInfo y).cond = .impOpen := by
    have hpos : 0 < countZones cfg s.zoneInfo ZoneCond.isImpOpen := by
      rw [← hacc.impEq]
      exact himp
    obtain ⟨y, hy, hcy⟩ := List.countP_pos_iff.1 hpos
    have hcy : (s.zoneInfo y).cond = .impOpen := by
      cases hz : (s.zoneInfo y).cond with
      | impOpen => rfl
      | _ => rw [hz] at hcy; cases hcy
    refine ⟨y, Nat.zero_le _, by simpa using hy, fun heq => ?_, hcy⟩
    rw [heq] at hcy
    simp [hcy] at hc
  have hinfo : (if (s.zoneInfo zone).cond = .empty then s.incActive else s).zoneInfo = s.zoneInfo := by
    split <;> rfl
  rw [opened, if_pos hc, exec_openZoneLocked_eq (sem_switches ramdisk), hswitch]
  refine ⟨rfl, ?_⟩
  dsimp only
  rw [closeImpOpenZone, hconv, Nat.sub_zero]
  obtain ⟨y, hy, hcy, hexec⟩ := @exec_closeLoop _ cfg _ (sem_switches ramdisk) zone cfg.numZones 0
    (if (s.zoneInfo zone).cond = .empty then s.incActive else s) (by rw [hinfo]; exact hex)
  rw [hexec, closeIfImpOpen, if_pos hcy]
  have hactive' : (if (s.zoneInfo zone).cond = .empty then s.incActive else s).numActiveZones =
      s.numActiveZones + if (s.zoneInfo zone).cond = .empty then 1 else 0 := by
    have := cfg.active_lt
    split
    · next hz => exact inc32_lt (by have := hactive hz; omega)
    · rfl
  have hopen' : (if (s.zoneInfo zone).cond = .empty then s.incActive else s).numOpenZones = s.numOpenZones := by
    split <;> rfl
  have himp' : (if (s.zoneInfo zone).cond = .empty then s.incActive else s).numImpOpenZones = s.numImpOpenZones := by
    split <;> rfl
  generalize (if (s.zoneInfo zone).cond = .empty then s.incActive else s) = t at *
  have hle := hacc.imp_le
  refine ⟨?_, ?_, ?_, hactive'⟩
  · simp [Zoned.setCond, Zoned.setZone, Zoned.decOpen, Zoned.decImpOpen, hy.symm, hinfo]
  · show dec32 t.numOpenZones + 1 = _
    rw [hopen']
    exact (dec32_pos (by omega)).1
  · show dec32 t.numImpOpenZones + 1 = _
    rw [himp']
    exact (dec32_pos himp).1

/-! ## Whole writes -/

/-- A call of `zoned_append_zone` or of `zoned_write`. -/
def writeCall (append : Bool) (data : List UInt8) (offset : Nat) : ZoneCall :=
  if append then .append data offset else .write data offset

/-- The checks of `zoned_write_common` let a write of `length` bytes to a sequential
    zone through. -/
def Accepts (z : Zone) (append : Bool) (offset length : Nat) : Prop :=
  (append = false → z.wp * sectorSize = offset) ∧
    z.wp * sectorSize + length ≤ (z.start + z.capacity) * sectorSize ∧
    z.cond ∈ [.empty, .closed, .impOpen, .expOpen]

instance (z : Zone) (append : Bool) (offset length : Nat) : Decidable (Accepts z append offset length) :=
  inferInstanceAs (Decidable ((_ → _) ∧ _ ∧ _))

/-- The position a write reports. -/
def reported (s : Zoned (Nat → UInt8)) (zone : Nat) (append : Bool) : Option Nat :=
  if append then some ((s.zoneInfo zone).wp * sectorSize) else none

theorem callAlone_writeCall (cfg : ZonedConfig) (s : Zoned (Nat → UInt8)) (append : Bool) (data : List UInt8)
    (offset : Nat) :
    callAlone cfg ramdisk s (writeCall append data offset) =
      (writeRest cfg 0 (zoneNumber cfg offset) ⟨data, offset, append⟩
        (appendPosition s (zoneNumber cfg offset) ⟨data, offset, append⟩)
        (checkWrite s (zoneNumber cfg offset) ⟨data, offset, append⟩)).exec (ZoneAct.sem cfg ramdisk) s := by
  cases append <;> rfl

section
variable {append : Bool} {data : List UInt8} {offset : Nat}

theorem appendPosition_eq (hseq : (s.zoneInfo zone).conventional = false) :
    appendPosition s zone ⟨data, offset, append⟩ = reported s zone append := by
  simp [appendPosition, reported, hseq]

theorem checkWrite_eq (hseq : (s.zoneInfo zone).conventional = false) :
    checkWrite s zone ⟨data, offset, append⟩ =
      if Accepts (s.zoneInfo zone) append offset data.length then
        .reserve ((s.zoneInfo zone).wp * sectorSize) (decide ((s.zoneInfo zone).cond ∈ [.empty, .closed]))
      else .refused := by
  split
  · next hacc =>
    obtain ⟨hoff, hroom, hc⟩ := hacc
    have hpos : (if append then (s.zoneInfo zone).wp * sectorSize else offset) = (s.zoneInfo zone).wp * sectorSize := by
      cases append
      · exact (hoff rfl).symm
      · rfl
    have hchecked : (!append && (s.zoneInfo zone).wp * sectorSize != offset) = false := by
      cases append
      · simp [hoff rfl]
      · rfl
    simp only [checkWrite, hseq, hpos, hchecked]
    rw [if_neg Bool.false_ne_true, if_neg Bool.false_ne_true, if_neg (Nat.not_lt.2 hroom)]
    simp only [List.mem_cons, List.not_mem_nil, or_false] at hc
    rcases hc with hc | hc | hc | hc <;> simp [hc]
  · next hacc =>
    cases hcheck : checkWrite s zone ⟨data, offset, append⟩ with
    | refused => rfl
    | conventional => rw [checkWrite_conventional hcheck] at hseq; cases hseq
    | reserve off opens =>
      obtain ⟨hoff, hwrite, hroom, hc⟩ := checkWrite_reserve hcheck
      rw [hoff] at hroom
      refine absurd ⟨fun ha => hoff.symm.trans (hwrite ha), hroom, ?_⟩ hacc
      cases opens <;> simp only [Bool.false_eq_true, if_true, if_false, List.mem_cons, List.not_mem_nil,
        or_false] at hc ⊢
      · exact .inr (.inr hc)
      · exact hc.elim .inl (fun hc => .inr (.inl hc))

variable (hseq : (s.zoneInfo (zoneNumber cfg offset)).conventional = false)
include hseq

/-- A write that is refused by the checks. -/
theorem callAlone_refused (h : ¬ Accepts (s.zoneInfo (zoneNumber cfg offset)) append offset data.length) :
    callAlone cfg ramdisk s (writeCall append data offset) =
      (s, { status := blkStsIoerr, position := reported s (zoneNumber cfg offset) append }) := by
  rw [callAlone_writeCall, checkWrite_eq hseq, if_neg h, appendPosition_eq hseq]
  rfl

/-- A write that passes the checks: the zone is opened if that is needed, and unless
    this fails the data is stored behind the write pointer. -/
theorem callAlone_accepted (h : Accepts (s.zoneInfo (zoneNumber cfg offset)) append offset data.length) :
    callAlone cfg ramdisk s (writeCall append data offset) =
      (if (opened cfg s (zoneNumber cfg offset)).2 = blkStsOk then
          stored (opened cfg s (zoneNumber cfg offset)).1 (zoneNumber cfg offset)
            ((s.zoneInfo (zoneNumber cfg offset)).wp * sectorSize) data
        else (opened cfg s (zoneNumber cfg offset)).1,
        { status := (opened cfg s (zoneNumber cfg offset)).2
          position := reported s (zoneNumber cfg offset) append }) := by
  have hopened : ((if decide ((s.zoneInfo (zoneNumber cfg offset)).cond ∈ [.empty, .closed]) then
      openZoneLocked cfg (zoneNumber cfg offset) false else pure blkStsOk : ZoneProg Nat).exec
        (ZoneAct.sem cfg ramdisk) s) =
      opened cfg s (zoneNumber cfg offset) := by
    unfold opened
    split <;> simp_all
  rw [callAlone_writeCall, checkWrite_eq hseq, if_pos h, appendPosition_eq hseq, writeRest, Prog.exec_bind, hopened]
  split
  · rfl
  · next hok =>
    have hok : (opened cfg s (zoneNumber cfg offset)).2 = blkStsOk := by simpa using hok
    rw [exec_reserveAndWrite_ramdisk, hok, if_pos rfl]

end

/-! ## The shape of the table -/

/-- What `initialize_zone_info` sets and nothing changes: every zone is sequential, of
    the same length and in its place. -/
def Shaped (cfg : ZonedConfig) (s : Zoned (Nat → UInt8)) : Prop :=
  ∀ z < cfg.numZones, (s.zoneInfo z).start = cfg.zoneSectors * z ∧ (s.zoneInfo z).len = cfg.zoneSectors ∧
    (s.zoneInfo z).capacity = cfg.zoneSectors ∧ (s.zoneInfo z).conventional = false

theorem Shaped.same (h : Shaped cfg s) (hs : SameTable s t) : Shaped cfg t := by
  intro z hz
  obtain ⟨h₁, h₂, -, h₄, h₅⟩ := hs.fields z
  rw [h₁, h₂, h₄, h₅]
  exact h z hz

theorem Shaped.update (h : Shaped cfg s) {c : ZoneCond} {wp : Nat}
    (hinfo : t.zoneInfo = Function.update s.zoneInfo zone { s.zoneInfo zone with cond := c, wp := wp }) :
      Shaped cfg t := by
  intro z hz
  rw [hinfo, Function.update_apply]
  split
  · next heq =>
    subst heq
    exact h z hz
  · exact h z hz

theorem shaped_act (hconv : cfg.numConventionalZones = 0) (e : ZoneAct) (h : Shaped cfg s) :
    Shaped cfg (e.sem cfg ramdisk s).1 := by
  cases e with
  | closeIfImpOpen zone => exact h.same (closeIfImpOpen_same s zone)
  | openSwitch zone explicit => exact h.same (openSwitch_same cfg s zone explicit)
  | closeSwitch zone => exact h.same (closeSwitch_same s zone)
  | fullSwitch zone =>
    simp only [ZoneAct.sem, fullSwitch]
    split <;> first | exact h | exact h.update rfl
  | resetSwitch zone =>
    simp only [ZoneAct.sem, resetSwitch]
    split <;> first | exact h | exact h.update rfl
  | initializeZoneInfo =>
    intro z hz
    simp [ZoneAct.sem, initializeZoneInfo, initialZone, hconv, hz]
  | advance zone id offset data => exact h.update (c := (s.zoneInfo zone).cond) rfl
  | _ => exact h

theorem shaped_exec (hconv : cfg.numConventionalZones = 0) {ρ : Type} (p : ZoneProg ρ) (h : Shaped cfg s) :
    Shaped cfg (p.exec (ZoneAct.sem cfg ramdisk) s).1 := by
  induction p generalizing s with
  | ret r => exact h
  | lock l p ih => exact ih h
  | unlock l p ih => exact ih h
  | act e p ih => exact ih _ (shaped_act hconv e h)

theorem shaped_reach (hconv : cfg.numConventionalZones = 0) {disk : Nat → UInt8}
    (h : Machine.Reach (callStep cfg ramdisk) (fun _ c => c.Valid cfg) (initializeZoned cfg disk) s) : Shaped cfg s := by
  refine h.inv (I := Shaped cfg) ?_ ?_
  · rintro s c _ hs - ⟨⟩
    exact shaped_exec hconv _ hs
  · intro z hz
    simp [initializeZoned, initializeZoneInfo, initialZone, hconv, hz]

/-! ## The write pointer -/

/-- The write pointer of a zone in which data is stored moves by the length of the
    data, also where the zone becomes full. -/
theorem stored_zoneInfo (offset : Nat) (data : List UInt8) (hc : (s.zoneInfo zone).cond ≠ .notWp)
    (hcap : (s.zoneInfo zone).capacity = (s.zoneInfo zone).len) :
    (stored s zone offset data).zoneInfo = Function.update s.zoneInfo zone { s.zoneInfo zone with
      wp := (s.zoneInfo zone).wp + data.length / sectorSize
      cond := if (s.zoneInfo zone).wp + data.length / sectorSize =
        (s.zoneInfo zone).start + (s.zoneInfo zone).capacity then .full else (s.zoneInfo zone).cond } := by
  by_cases hfull : (s.zoneInfo zone).wp + data.length / sectorSize = (s.zoneInfo zone).start + (s.zoneInfo zone).capacity
  · have hdev := stored_of_full offset hc hfull
    simp only [Zoned.device, Prod.mk.injEq] at hdev
    have hwp : (s.zoneInfo zone).wp + data.length / sectorSize = (s.zoneInfo zone).start + (s.zoneInfo zone).len := by
      rw [hfull, hcap]
    rw [hdev.1, if_pos hfull, hwp]
  · have hdev := stored_of_room offset hfull
    simp only [Zoned.device, Prod.mk.injEq] at hdev
    rw [hdev.1, if_neg hfull]

theorem stored_wp (offset : Nat) (data : List UInt8) (hc : (s.zoneInfo zone).cond ≠ .notWp)
    (hcap : (s.zoneInfo zone).capacity = (s.zoneInfo zone).len) (z : Nat) :
    ((stored s zone offset data).zoneInfo z).wp =
      (s.zoneInfo z).wp + if zone = z then data.length / sectorSize else 0 := by
  rw [stored_zoneInfo offset data hc hcap, Function.update_apply]
  by_cases hz : z = zone
  · rw [if_pos hz, if_pos hz.symm, hz]
  · rw [if_neg hz, if_neg (Ne.symm hz), Nat.add_zero]

theorem notWp_of_mem {c : ZoneCond} (h : c ∈ [.empty, .closed, .impOpen, .expOpen]) : c ≠ .notWp := by
  rintro rfl
  simp at h

/-- What an opening leaves is a zone with a write pointer, if it was one. -/
theorem opened_notWp (hc : (s.zoneInfo zone).cond ∈ [.empty, .closed, .impOpen, .expOpen])
    (hok : (opened cfg s zone).2 = blkStsOk) (hconv : cfg.numConventionalZones = 0) {leaked : Nat}
    (hacc : Accounted cfg leaked s) : ((opened cfg s zone).1.zoneInfo zone).cond ≠ .notWp := by
  by_cases hr : OpenRefused cfg s zone
  · exact absurd hok (opened_refused hr).1
  · by_cases he : Evicts cfg s zone
    · rw [(opened_evicts hconv hacc he).2.same]
      exact notWp_of_mem hc
    · intro heq
      have hopen := (opened_opens hc hr he).2
      rw [heq] at hopen
      cases hopen

/-- A write moves the write pointer of its zone forward, by no more than its length,
    and leaves the others. -/
theorem call_wp (hconv : cfg.numConventionalZones = 0) (hs : Shaped cfg s) {leaked : Nat} (hacc : Accounted cfg leaked s)
    (append : Bool) (data : List UInt8) {offset : Nat} (hoff : zoneNumber cfg offset < cfg.numZones) (z : Nat) :
    (s.zoneInfo z).wp ≤ ((callAlone cfg ramdisk s (writeCall append data offset)).1.zoneInfo z).wp ∧
      ((callAlone cfg ramdisk s (writeCall append data offset)).1.zoneInfo z).wp ≤
        (s.zoneInfo z).wp + if zoneNumber cfg offset = z then data.length / sectorSize else 0 := by
  obtain ⟨-, hlen, hcap, hseq⟩ := hs _ hoff
  by_cases hacc' : Accepts (s.zoneInfo (zoneNumber cfg offset)) append offset data.length
  · have hsame := opened_same cfg s (zoneNumber cfg offset)
    rw [callAlone_accepted hseq hacc']
    dsimp only
    split
    · next hok =>
      obtain ⟨-, hlen', -, -, hcap'⟩ := hsame.fields (zoneNumber cfg offset)
      rw [stored_wp _ _ (opened_notWp hacc'.2.2 hok hconv hacc) (by rw [hcap', hlen', hcap, hlen]), (hsame.fields z).2.2.1]
      exact ⟨Nat.le_add_right _ _, le_rfl⟩
    · rw [(hsame.fields z).2.2.1]
      exact ⟨le_rfl, Nat.le_add_right _ _⟩
  · rw [callAlone_refused hseq hacc']
    exact ⟨le_rfl, Nat.le_add_right _ _⟩

end

end Bius
