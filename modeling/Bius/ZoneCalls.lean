import Bius.Zoned

/- Which actions a call of the zone emulator performs: only actions on zones of the
   table (`code_inTable`), and the switch of `open_zone_locked` only where
   `ZoneCall.opening` says so (`code_opens`). The lemmas `…_uses` are about any
   property of actions. -/
namespace Bius

open Threads

variable {δ : Type} {cfg : ZonedConfig}

/-! ## The table -/

/-- The zone an action is about is in the table. -/
def ZoneAct.InTable (cfg : ZonedConfig) : ZoneAct → Prop
  | .closeIfImpOpen zone | .openSwitch zone _ | .fullSwitch zone | .closeSwitch zone | .resetSwitch zone =>
    zone < cfg.numZones
  | _ => True

theorem zoneNumber_lt {offset : Nat} (h : offset < cfg.numZones * (cfg.zoneSectors * sectorSize)) :
    zoneNumber cfg offset < cfg.numZones :=
  (Nat.mod_le _ _).trans_lt ((Nat.div_lt_iff_lt_mul (Nat.mul_pos cfg.sectors_pos (by decide))).2 h)

section
variable {V : ZoneAct → Prop}

theorem closeLoop_uses {skip : Nat} (hV : ∀ z < cfg.numZones, z ≠ skip → V (.closeIfImpOpen z)) {n zone : Nat}
    (h : zone + n ≤ cfg.numZones) : (closeLoop skip n zone).Uses V := by
  induction n generalizing zone with
  | zero => trivial
  | succ n ih =>
    unfold closeLoop
    split
    · exact ih (by omega)
    · next hskip =>
      refine ⟨hV zone (by omega) hskip, fun found => ?_⟩
      cases found
      · exact ih (by omega)
      · trivial

theorem closeImpOpenZone_uses {skip : Nat} (hV : ∀ z < cfg.numZones, z ≠ skip → V (.closeIfImpOpen z)) :
    (closeImpOpenZone cfg skip).Uses V := by
  by_cases hle : cfg.numConventionalZones ≤ cfg.numZones
  · exact closeLoop_uses hV (by omega)
  · have hzero : cfg.numZones - cfg.numConventionalZones = 0 := by omega
    unfold closeImpOpenZone
    rw [hzero]
    trivial

theorem openRest_uses {zone : Nat} (hV : ∀ z < cfg.numZones, z ≠ zone → V (.closeIfImpOpen z)) (next : OpenNext) :
    (openRest cfg zone next).Uses V := by
  cases next with
  | result status => trivial
  | closeImp => exact (closeImpOpenZone_uses hV).bind (fun _ => trivial)

theorem reserveAndWrite_uses {id zone offset : Nat} {w : WriteArgs} (hadv : V (.advance zone id offset w.data))
    (hfull : V (.fullSwitch zone)) (hraw : V (.rawWrite id zone offset w.data)) (position : Option Nat) :
    (reserveAndWrite id zone offset w position).Uses V := by
  refine ⟨hadv, fun full => ?_⟩
  cases full
  · exact ⟨hraw, fun _ => trivial⟩
  · exact ⟨hfull, fun _ => ⟨hraw, fun _ => trivial⟩⟩

theorem reportLoop_uses (hV : ∀ z, V (.zoneInfo z)) (n zone : Nat) (acc : List Zone) :
    (reportLoop n zone acc).Uses V := by
  induction n generalizing zone acc with
  | zero => trivial
  | succ n ih => exact ⟨hV zone, fun _ => ih _ _⟩

end

theorem openZoneLocked_inTable {zone : Nat} (h : zone < cfg.numZones) (explicit : Bool) :
    (openZoneLocked cfg zone explicit).Uses (ZoneAct.InTable cfg) :=
  ⟨h, fun _ => openRest_uses (fun _ hz _ => hz) _⟩

theorem writeRest_inTable {zone : Nat} (h : zone < cfg.numZones) (id : Nat) (w : WriteArgs) (position : Option Nat)
    (next : WriteNext) : (writeRest cfg id zone w position next).Uses (ZoneAct.InTable cfg) := by
  cases next with
  | refused => trivial
  | conventional => exact ⟨trivial, fun _ => trivial⟩
  | reserve offset opens =>
    have hopen : (if opens then openZoneLocked cfg zone false else pure blkStsOk : ZoneProg Nat).Uses
        (ZoneAct.InTable cfg) := by
      cases opens
      · trivial
      · exact openZoneLocked_inTable h false
    refine hopen.bind (fun result => ?_)
    split
    · trivial
    · exact reserveAndWrite_uses trivial h trivial _

/-- The offset of a call is inside the disk. -/
def ZoneCall.InDisk (cfg : ZonedConfig) : ZoneCall → Prop
  | .read offset _ | .write _ offset | .append _ offset | .reportZones offset _ | .openZone offset | .closeZone offset
  | .finishZone offset | .resetZone offset => offset < cfg.numZones * (cfg.zoneSectors * sectorSize)
  | .resetAllZone => True

theorem ZoneCall.Valid.inDisk {c : ZoneCall} (h : c.Valid cfg) : c.InDisk cfg := by
  cases c with
  | write data offset => exact h.1
  | append data offset => exact h.1
  | _ => exact h

theorem code_inTable {c : ZoneCall} (h : c.InDisk cfg) (id : Nat) : (c.code cfg id).Uses (ZoneAct.InTable cfg) := by
  cases c with
  | read offset length => exact ⟨trivial, fun _ => trivial⟩
  | write data offset => exact ⟨trivial, fun _ => writeRest_inTable (zoneNumber_lt h) _ _ _ _⟩
  | append data offset => exact ⟨trivial, fun _ => writeRest_inTable (zoneNumber_lt h) _ _ _ _⟩
  | reportZones offset nrZones => exact reportLoop_uses (fun _ => trivial) _ _ _
  | openZone offset =>
    refine ⟨trivial, fun decision => ?_⟩
    cases decision with
    | none => exact (openZoneLocked_inTable (zoneNumber_lt h) true).bind (fun _ => trivial)
    | some status => trivial
  | closeZone offset => exact ⟨zoneNumber_lt h, fun _ => trivial⟩
  | finishZone offset => exact ⟨zoneNumber_lt h, fun _ => trivial⟩
  | resetZone offset =>
    refine ⟨zoneNumber_lt h, fun result => ?_⟩
    cases result with
    | none => exact ⟨trivial, fun _ => trivial⟩
    | some status => trivial
  | resetAllZone => exact ⟨trivial, fun _ => ⟨trivial, fun _ => trivial⟩⟩

/-! ## The checks of a write -/

theorem sectors_le {wp n m : Nat} (hdvd : sectorSize ∣ n) (h : wp * sectorSize + n ≤ m * sectorSize) :
    wp + n / sectorSize ≤ m := by
  obtain ⟨k, rfl⟩ := hdvd
  rw [Nat.mul_div_cancel_left _ (by decide)]
  rw [Nat.mul_comm sectorSize k, ← Nat.add_mul] at h
  exact Nat.le_of_mul_le_mul_right h (by decide)

theorem checkWrite_reserve {s : Zoned δ} {zone : Nat} {w : WriteArgs} {offset : Nat} {opens : Bool}
    (h : checkWrite s zone w = .reserve offset opens) :
    offset = (s.zoneInfo zone).wp * sectorSize ∧ (w.append = false → offset = w.offset) ∧
      offset + w.data.length ≤ ((s.zoneInfo zone).start + (s.zoneInfo zone).capacity) * sectorSize ∧
      (s.zoneInfo zone).cond ∈ (if opens then [.empty, .closed] else [.impOpen, .expOpen]) := by
  unfold checkWrite at h
  simp only at h
  split at h
  · split at h <;> cases h
  · split at h
    · cases h
    · next hoff =>
      have hwp : w.append = false → (s.zoneInfo zone).wp * sectorSize = w.offset := fun hw => by simpa [hw] using hoff
      have hoffset : (if w.append then (s.zoneInfo zone).wp * sectorSize else w.offset) =
          (s.zoneInfo zone).wp * sectorSize := by
        cases hw : w.append
        · exact (hwp hw).symm
        · rfl
      rw [hoffset] at h
      split at h
      · cases h
      · next hroom =>
        split at h
        · next hc => cases h; exact ⟨rfl, hwp, by omega, by simp [hc]⟩
        · next hc => cases h; exact ⟨rfl, hwp, by omega, by simp [hc]⟩
        · next hc => cases h; exact ⟨rfl, hwp, by omega, by simp [hc]⟩
        · next hc => cases h; exact ⟨rfl, hwp, by omega, by simp [hc]⟩
        · cases h

theorem checkWrite_conventional {s : Zoned δ} {zone : Nat} {w : WriteArgs} (h : checkWrite s zone w = .conventional) :
    (s.zoneInfo zone).conventional = true := by
  by_contra hconv
  simp only [checkWrite] at h
  rw [if_neg hconv] at h
  generalize (if w.append = true then (s.zoneInfo zone).wp * sectorSize else w.offset) = offset at h
  split at h
  · cases h
  · split at h
    · cases h
    · split at h <;> cases h

/-! ## The switch of `open_zone_locked` -/

/-- How the part of the switch that EMPTY and CLOSED share ends. -/
theorem openClosed_cases (cfg : ZonedConfig) (s : Zoned δ) (zone : Nat) (explicit : Bool) :
    cfg.maxOpenZones ≤ s.numOpenZones ∧ 0 < s.numImpOpenZones ∧
        openClosed cfg s zone explicit = (s, .closeImp) ∨
      openClosed cfg s zone explicit = (s, .result blkStsZoneOpenResource) ∨
      (openClosed cfg s zone explicit).2 = .result blkStsOk ∧
        (openClosed cfg s zone explicit).1.zoneInfo = Function.update s.zoneInfo zone
          { s.zoneInfo zone with cond := if explicit then .expOpen else .impOpen } := by
  unfold openClosed
  split
  · next hopen =>
    split
    · next himp => exact .inl ⟨hopen, himp, rfl⟩
    · exact .inr (.inl rfl)
  · cases explicit <;> exact .inr (.inr ⟨rfl, rfl⟩)

/-- What the switch does: the zone is as it was and the call is refused, or was open
    already, or another zone is to be closed; or the zone is opened in the way asked
    for. -/
theorem openSwitch_cases (cfg : ZonedConfig) (s : Zoned δ) (zone : Nat) (explicit : Bool) :
    (openSwitch cfg s zone explicit).1.zoneInfo = s.zoneInfo ∧
        ((∃ status, status ≠ blkStsOk ∧ (openSwitch cfg s zone explicit).2 = .result status) ∨
          (s.zoneInfo zone).cond ∈ [.impOpen, .expOpen] ∧ (openSwitch cfg s zone explicit).2 = .result blkStsOk ∨
          (s.zoneInfo zone).cond ∈ [.empty, .closed] ∧ cfg.maxOpenZones ≤ s.numOpenZones ∧
            0 < s.numImpOpenZones ∧
            ((s.zoneInfo zone).cond = .empty → s.numActiveZones < cfg.maxActiveZones) ∧
            (openSwitch cfg s zone explicit).2 = .closeImp) ∨
      (s.zoneInfo zone).cond ∈ [.impOpen, .empty, .closed] ∧
        (openSwitch cfg s zone explicit).2 = .result blkStsOk ∧
        (openSwitch cfg s zone explicit).1.zoneInfo = Function.update s.zoneInfo zone
          { s.zoneInfo zone with cond := if explicit then .expOpen else .impOpen } := by
  unfold openSwitch
  cases hc : (s.zoneInfo zone).cond with
  | impOpen =>
    cases explicit
    · exact .inl ⟨rfl, .inr (.inl ⟨by simp, rfl⟩)⟩
    · exact .inr ⟨by simp, rfl, rfl⟩
  | expOpen => exact .inl ⟨rfl, .inr (.inl ⟨by simp, rfl⟩)⟩
  | empty =>
    dsimp only
    split
    · exact .inl ⟨rfl, .inl ⟨_, by decide, rfl⟩⟩
    · next hactive =>
      obtain ⟨hopen, himp, he⟩ | he | ⟨he, hinfo⟩ := openClosed_cases cfg s.incActive zone explicit
      · rw [he]
        exact .inl ⟨rfl, .inr (.inr ⟨by simp, hopen, himp, fun _ => by omega, rfl⟩)⟩
      · rw [he]
        exact .inl ⟨rfl, .inl ⟨_, by decide, rfl⟩⟩
      · exact .inr ⟨by simp, he, hinfo⟩
  | closed =>
    dsimp only
    obtain ⟨hopen, himp, he⟩ | he | ⟨he, hinfo⟩ := openClosed_cases cfg s zone explicit
    · rw [he]
      exact .inl ⟨rfl, .inr (.inr ⟨by simp, hopen, himp, by simp, rfl⟩)⟩
    · rw [he]
      exact .inl ⟨rfl, .inl ⟨_, by decide, rfl⟩⟩
    · exact .inr ⟨by simp, he, hinfo⟩
  | _ => exact .inl ⟨rfl, .inl ⟨_, by decide, rfl⟩⟩

/-! ## Running `open_zone_locked` -/

/-- The actions of `open_zone_locked` are performed as they are defined, whatever the
    backend does. -/
structure Switches (cfg : ZonedConfig) (sem : (e : ZoneAct) → Zoned δ → Zoned δ × e.Ans) : Prop where
  openSwitch : ∀ zone explicit s, sem (.openSwitch zone explicit) s = Bius.openSwitch cfg s zone explicit
  closeIfImpOpen : ∀ zone s, sem (.closeIfImpOpen zone) s = Bius.closeIfImpOpen s zone

theorem sem_switches (raw : RawOps δ) : Switches cfg (ZoneAct.sem cfg raw) :=
  ⟨fun _ _ _ => rfl, fun _ _ => rfl⟩

section
variable {sem : (e : ZoneAct) → Zoned δ → Zoned δ × e.Ans} (hsem : Switches cfg sem)
include hsem

theorem exec_openZoneLocked_eq (s : Zoned δ) (zone : Nat) (explicit : Bool) :
    (openZoneLocked cfg zone explicit).exec sem s =
      match (openSwitch cfg s zone explicit).2 with
      | .result status => ((openSwitch cfg s zone explicit).1, status)
      | .closeImp => (((closeImpOpenZone cfg zone).exec sem (openSwitch cfg s zone explicit).1).1, blkStsOk) := by
  have hexec : (openZoneLocked cfg zone explicit).exec sem s =
      (openRest cfg zone (sem (.openSwitch zone explicit) s).2).exec sem (sem (.openSwitch zone explicit) s).1 := rfl
  rw [hexec, hsem.openSwitch]
  cases (openSwitch cfg s zone explicit).2 with
  | result status => rfl
  | closeImp => rw [openRest, Prog.exec_bind]; rfl

/-- The loop of `close_imp_open_zone` closes the first implicitly open zone. -/
theorem exec_closeLoop {skip n z : Nat} {s : Zoned δ}
    (h : ∃ y, z ≤ y ∧ y < z + n ∧ y ≠ skip ∧ (s.zoneInfo y).cond = .impOpen) :
    ∃ y, y ≠ skip ∧ (s.zoneInfo y).cond = .impOpen ∧
      ((closeLoop skip n z).exec sem s).1 = (closeIfImpOpen s y).1 := by
  induction n generalizing z with
  | zero =>
    obtain ⟨y, hy, hy', -⟩ := h
    omega
  | succ n ih =>
    obtain ⟨y, hle, hlt, hskip, hc⟩ := h
    by_cases hz : z = skip
    · have hne : y ≠ z := fun heq => hskip (heq.trans hz)
      rw [closeLoop, if_pos hz]
      exact ih ⟨y, by omega, by omega, hskip, hc⟩
    · have hexec : ((closeLoop skip (n + 1) z).exec sem s).1 =
          (Prog.exec sem (if (closeIfImpOpen s z).2 then return () else closeLoop skip n (z + 1))
            (closeIfImpOpen s z).1).1 := by
        rw [closeLoop, if_neg hz, ← hsem.closeIfImpOpen]
        rfl
      rw [hexec]
      by_cases hcz : (s.zoneInfo z).cond = .impOpen
      · refine ⟨z, hz, hcz, ?_⟩
        have hfound : (closeIfImpOpen s z).2 = true := by simp [closeIfImpOpen, hcz]
        rw [if_pos hfound]
        rfl
      · have hne : y ≠ z := fun heq => hcz (heq ▸ hc)
        have hmissed : closeIfImpOpen s z = (s, false) := by simp [closeIfImpOpen, hcz]
        rw [hmissed]
        exact ih ⟨y, by omega, by omega, hskip, hc⟩

end

/-- An action that is not that switch. -/
def ZoneAct.NotOpening (e : ZoneAct) : Prop := ∀ zone explicit, e ≠ .openSwitch zone explicit

section
variable (raw : RawOps δ) (s : Zoned δ)

/-- The switch is reached only as `o` says, and in the state `s`. -/
def OpensAs (o : Option (Nat × Bool)) (e : ZoneAct) (s' : Zoned δ) : Prop :=
  ∀ zone explicit, e = .openSwitch zone explicit → o = some (zone, explicit) ∧ s' = s

theorem NotOpening.along {ρ : Type} {p : ZoneProg ρ} (h : p.Uses ZoneAct.NotOpening) (o : Option (Nat × Bool))
    (s' : Zoned δ) : p.Along (ZoneAct.sem cfg raw) (OpensAs s o) s' :=
  h.along _ (fun _ _ he _ _ heq => absurd heq (he _ _)) s'

theorem openZoneLocked_opens (zone : Nat) (explicit : Bool) :
    (openZoneLocked cfg zone explicit).Along (ZoneAct.sem cfg raw) (OpensAs s (some (zone, explicit))) s := by
  refine ⟨fun zone' explicit' he => ?_, NotOpening.along raw s (openRest_uses (fun _ _ _ _ _ h => by cases h) _) _ _⟩
  cases he
  exact ⟨rfl, rfl⟩

theorem writeRest_opens (id zone : Nat) (w : WriteArgs) (position : Option Nat) (next : WriteNext) :
    (writeRest cfg id zone w position next).Along (ZoneAct.sem cfg raw)
      (OpensAs s (match next with
        | .reserve _ true => some (zone, false)
        | _ => none)) s := by
  cases next with
  | refused => trivial
  | conventional => exact ⟨fun _ _ he => (by cases he), trivial⟩
  | reserve offset opens =>
    have hrest : ∀ s' result o, Prog.Along (ZoneAct.sem cfg raw) (OpensAs s o)
        (if result ≠ blkStsOk then do
            Prog.release (ZoneLock.zone zone)
            pure { status := result, position }
          else reserveAndWrite id zone offset w position) s' := by
      intro s' result o
      split
      · trivial
      · exact NotOpening.along raw s (reserveAndWrite_uses (fun _ _ h => by cases h) (fun _ _ h => by cases h)
          (fun _ _ h => by cases h) _) _ _
    cases opens
    · exact hrest s blkStsOk _
    · exact (openZoneLocked_opens raw s _ false).bind _ (hrest _ _ _)

/-- Run alone, a call reaches the switch only as `ZoneCall.opening` says, and in the
    state it began in. -/
theorem code_opens (c : ZoneCall) (id : Nat) :
    (c.code cfg id).Along (ZoneAct.sem cfg raw) (OpensAs s (c.opening cfg s)) s := by
  cases c with
  | write data offset => exact ⟨fun _ _ he => (by cases he), writeRest_opens raw s _ _ _ _ _⟩
  | append data offset => exact ⟨fun _ _ he => (by cases he), writeRest_opens raw s _ _ _ _ _⟩
  | openZone offset =>
    refine ⟨fun _ _ he => (by cases he), ?_⟩
    simp only [ZoneCall.opening]
    show Prog.Along _ _ (openDecided cfg _ (openDecision s _) >>= _) s
    cases openDecision s (zoneNumber cfg offset) with
    | none => exact (openZoneLocked_opens raw s _ true).bind _ trivial
    | some status => trivial
  | read offset length => exact ⟨fun _ _ he => (by cases he), trivial⟩
  | reportZones offset nrZones => exact NotOpening.along raw s (reportLoop_uses (fun _ _ _ h => by cases h) _ _ _) _ _
  | closeZone offset => exact ⟨fun _ _ he => (by cases he), trivial⟩
  | finishZone offset => exact ⟨fun _ _ he => (by cases he), trivial⟩
  | resetZone offset =>
    refine ⟨fun _ _ he => (by cases he), NotOpening.along raw s ?_ _ _⟩
    generalize (ZoneAct.sem cfg raw (.resetSwitch (zoneNumber cfg offset)) s).2 = result
    cases result with
    | none => exact ⟨fun _ _ he => (by cases he), fun _ => trivial⟩
    | some status => trivial
  | resetAllZone => exact ⟨fun _ _ he => (by cases he), fun _ _ he => (by cases he), trivial⟩

end

end Bius
