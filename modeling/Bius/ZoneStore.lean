import Bius.Lib.Ranges
import Bius.ZoneLocks

/- What the threads of the zone emulator store, in any interleaving, over the ramdisk.
   A write reserves its range under the lock of its zone (`advance`) and stores its data
   after it has released the lock. The reservations of a zone since it was last empty
   (`log`) lie one behind the other from its start up to its write pointer (`Table`), and
   a thread is always at a known point of its write (`WritePhase`). `Stores` puts the two
   together; every step preserves it (`stores_step`), provided that no reset of a zone
   takes effect while a write to the zone is between its checks and the end of
   `raw_write` (`ResetsQuiet`).

   `Landed` says what has become of the reservations of a stretch of a run in which
   nobody resets the zone: each of them is still to be stored or can be read back
   (`landed_step`). -/
namespace Bius

open Threads Ranges

/-- Each lock is taken when it is not held, each action performed under its locks. -/
def guarding : ZoneDiscipline where
  before m l := m ≠ l
  needs e l := e.guarded l
  can _ _ := True

theorem guarding_fits : Fits guarding where
  zone_global _ := by simp [guarding]
  closeImp _ _ _ _ hz := ⟨by simpa [guarding] using hz.symm, by simp [guarding]⟩
  guarded _ _ h := h

/-! ## The points of a write -/

/-- What is left of a write that is between its checks and the end of its `raw_write`,
    and has not been refused. -/
def Midway : ZoneProg ZoneRet → Prop
  | .ret _ => False
  | .lock _ k => Midway k
  | .unlock _ k => Midway k
  | .act e _ =>
    match e with
    | .openSwitch _ _ | .closeIfImpOpen _ | .advance _ _ _ _ | .fullSwitch _ | .rawWrite _ _ _ _ => True
    | _ => False

/-- The write has been refused. -/
def Refusing : ZoneProg ZoneRet → Prop
  | .ret r => r.status ≠ blkStsOk
  | .lock _ k => Refusing k
  | .unlock _ k => Refusing k
  | .act _ _ => False

section
variable (zone id offset : Nat) (data : List UInt8) (position : Option Nat)

/-- The data is still to be stored. -/
def Storing : ZoneProg ZoneRet → Prop
  | .ret _ => False
  | .lock _ k => Storing k
  | .unlock _ k => Storing k
  | .act (.rawWrite i z o d) k =>
    i = id ∧ z = zone ∧ o = offset ∧ d = data ∧ ∀ status, k status = .ret ⟨status, position, [], []⟩
  | .act _ _ => False

/-- The zone is still to be marked full. -/
def Filling : ZoneProg ZoneRet → Prop
  | .ret _ => False
  | .lock _ k => Filling k
  | .unlock l k => l ≠ .zone zone ∧ Filling k
  | .act (.fullSwitch z) k => z = zone ∧ ∀ a, Storing zone id offset data position (k a)
  | .act _ _ => False

/-- The range is still to be reserved. -/
def Reserving : ZoneProg ZoneRet → Prop
  | .ret _ => False
  | .lock _ k => Reserving k
  | .unlock l k => if l = .zone zone then Refusing k else Reserving k
  | .act (.openSwitch _ _) k => ∀ a, Reserving (k a)
  | .act (.closeIfImpOpen _) k => ∀ a, Reserving (k a)
  | .act (.advance z i o d) k =>
    z = zone ∧ i = id ∧ o = offset ∧ d = data ∧ Filling zone id offset data position (k true) ∧
      Storing zone id offset data position (k false)
  | .act _ _ => False

/-- `open_zone_locked` on the way to a reservation. -/
def Opening {ρ : Type} : ZoneProg ρ → Prop
  | .ret _ => True
  | .lock _ k => Opening k
  | .unlock l k => l ≠ .zone zone ∧ Opening k
  | .act (.openSwitch _ _) k => ∀ a, Opening (k a)
  | .act (.closeIfImpOpen _) k => ∀ a, Opening (k a)
  | .act _ _ => False

end

section
variable {zone id offset : Nat} {data : List UInt8} {position : Option Nat}

theorem Opening.bind {ρ τ : Type} {p : ZoneProg ρ} {f : ρ → ZoneProg τ} (hp : Opening zone p)
    (hf : ∀ r, Opening zone (f r)) : Opening zone (p >>= f) := by
  induction p with
  | ret r => exact hf r
  | lock l k ih => exact ih hp
  | unlock l k ih => exact ⟨hp.1, ih hp.2⟩
  | act e k ih =>
    cases e with
    | openSwitch z explicit => exact fun a => ih a (hp a)
    | closeIfImpOpen z => exact fun a => ih a (hp a)
    | _ => exact hp.elim

theorem Opening.reserving {ρ : Type} {p : ZoneProg ρ} {f : ρ → ZoneProg ZoneRet} (hp : Opening zone p)
    (hf : ∀ r, Reserving zone id offset data position (f r)) : Reserving zone id offset data position (p >>= f) := by
  induction p with
  | ret r => exact hf r
  | lock l k ih => exact ih hp
  | unlock l k ih =>
    simp only [Prog.unlock_bind, Reserving]
    rw [if_neg hp.1]
    exact ih hp.2
  | act e k ih =>
    cases e with
    | openSwitch z explicit => exact fun a => ih a (hp a)
    | closeIfImpOpen z => exact fun a => ih a (hp a)
    | _ => exact hp.elim

theorem closeLoop_opening (n z : Nat) : Opening zone (closeLoop zone n z) := by
  induction n generalizing z with
  | zero => trivial
  | succ n ih =>
    unfold closeLoop
    split
    · exact ih (z + 1)
    · next hz =>
      intro found
      refine ⟨by simpa using hz, ?_⟩
      cases found with
      | false => exact ih (z + 1)
      | true => trivial

theorem openZoneLocked_opening (cfg : ZonedConfig) (explicit : Bool) :
    Opening zone (openZoneLocked cfg zone explicit) := by
  intro next
  cases next with
  | result status => exact ⟨by simp, trivial⟩
  | closeImp => exact (closeLoop_opening _ _).bind (fun _ => ⟨by simp, trivial⟩)

theorem storeRest_storing (w : WriteArgs) : Storing zone id offset w.data position
    (storeRest id zone offset w position false) :=
  ⟨rfl, rfl, rfl, rfl, fun _ => rfl⟩

theorem storeRest_filling (w : WriteArgs) : Filling zone id offset w.data position
    (storeRest id zone offset w position true) :=
  ⟨rfl, fun _ => ⟨rfl, rfl, rfl, rfl, fun _ => rfl⟩⟩

/-- After checks that let it through, a write is on the way to its reservation. -/
theorem writeRest_reserving (cfg : ZonedConfig) (w : WriteArgs) (opens : Bool) :
    Reserving zone id offset w.data position (writeRest cfg id zone w position (.reserve offset opens)) := by
  have hopen : Opening zone (if opens then openZoneLocked cfg zone false else pure blkStsOk : ZoneProg Nat) := by
    cases opens
    · trivial
    · exact openZoneLocked_opening cfg false
  refine hopen.reserving (fun result => ?_)
  split
  · next hres =>
    show if ZoneLock.zone zone = .zone zone then _ else _
    rw [if_pos rfl]
    exact hres
  · exact ⟨rfl, rfl, rfl, rfl, storeRest_filling w, storeRest_storing w⟩

theorem Storing.midway {p : ZoneProg ZoneRet} (h : Storing zone id offset data position p) : Midway p := by
  induction p with
  | ret r => exact h.elim
  | lock l k ih => exact ih h
  | unlock l k ih => exact ih h
  | act e k ih =>
    cases e with
    | rawWrite i z o d => trivial
    | _ => exact h.elim

theorem Filling.midway {p : ZoneProg ZoneRet} (h : Filling zone id offset data position p) : Midway p := by
  induction p with
  | ret r => exact h.elim
  | lock l k ih => exact ih h
  | unlock l k ih => exact ih h.2
  | act e k ih =>
    cases e with
    | fullSwitch z => trivial
    | _ => exact h.elim

theorem Reserving.midway {p : ZoneProg ZoneRet} (h : Reserving zone id offset data position p) :
    Midway p ∨ Refusing p := by
  induction p with
  | ret r => exact h.elim
  | lock l k ih => exact ih h
  | unlock l k ih =>
    unfold Reserving at h
    split at h
    · exact .inr h
    · exact ih h
  | act e k ih =>
    cases e with
    | openSwitch z explicit => exact .inl trivial
    | closeIfImpOpen z => exact .inl trivial
    | advance z i o d => exact .inl trivial
    | _ => exact h.elim

end

/-! ## The table and the reservations -/

section
variable {δ : Type} (cfg : ZonedConfig)

/-- The reservations of each zone lie one behind the other from its start up to its
    write pointer. -/
structure Table (s : Zoned δ) : Prop where
  shape : ∀ z < cfg.numZones, (s.zoneInfo z).start = cfg.zoneSectors * z ∧ (s.zoneInfo z).len = cfg.zoneSectors ∧
    (s.zoneInfo z).capacity = cfg.zoneSectors ∧ (s.zoneInfo z).conventional = false
  room : ∀ z < cfg.numZones, (s.zoneInfo z).wp ≤ (s.zoneInfo z).start + cfg.zoneSectors
  tiles : ∀ z < cfg.numZones, Tiles Reserved.pos (fun e => e.data.length) ((s.zoneInfo z).start * sectorSize) (s.log z)
    ((s.zoneInfo z).wp * sectorSize)
  outside : ∀ z, cfg.numZones ≤ z → s.log z = []
  uniq : ∀ z z' e e', e ∈ s.log z → e' ∈ s.log z' → e.id = e'.id → z = z' ∧ e = e'

/-- Nothing but conditions, counters and the disk changes. -/
def SameTable (s s' : Zoned δ) : Prop :=
  (∀ z, s'.zoneInfo z = { s.zoneInfo z with cond := (s'.zoneInfo z).cond }) ∧ s'.log = s.log

variable {cfg} {s s' : Zoned δ}

theorem SameTable.refl (s : Zoned δ) : SameTable s s := ⟨fun _ => rfl, rfl⟩

theorem SameTable.of_zoneInfo (h : s'.zoneInfo = s.zoneInfo) (hlog : s'.log = s.log) : SameTable s s' :=
  ⟨fun z => by rw [h], hlog⟩

theorem SameTable.of_setCond {zone : Nat} {c : ZoneCond}
    (h : s'.zoneInfo = Function.update s.zoneInfo zone { s.zoneInfo zone with cond := c }) (hlog : s'.log = s.log) :
    SameTable s s' := by
  refine ⟨fun z => ?_, hlog⟩
  rw [h, Function.update_apply]
  split
  · next heq => rw [heq]
  · rfl

theorem Table.same (h : Table cfg s) (hs : SameTable s s') : Table cfg s' := by
  obtain ⟨hz, hlog⟩ := hs
  refine ⟨fun z hlt => ?_, fun z hlt => ?_, fun z hlt => ?_, fun z hle => ?_, fun z z' e e' he he' => ?_⟩
  · rw [hz z]; exact h.shape z hlt
  · rw [hz z]; exact h.room z hlt
  · rw [hz z, hlog]; exact h.tiles z hlt
  · rw [hlog]; exact h.outside z hle
  · rw [hlog] at he he'; exact h.uniq z z' e e' he he'

theorem Table.lt (h : Table cfg s) {z : Nat} {e : Reserved} (he : e ∈ s.log z) : z < cfg.numZones :=
  Nat.lt_of_not_le (fun hle => by rw [h.outside z hle] at he; cases he)

theorem Table.inside (h : Table cfg s) {z : Nat} {e : Reserved} (he : e ∈ s.log z) :
    cfg.zoneSectors * z * sectorSize ≤ e.pos ∧ e.pos + e.data.length ≤ cfg.zoneSectors * (z + 1) * sectorSize := by
  have hin := (h.tiles z (h.lt he)).inside he
  have hroom := h.room z (h.lt he)
  rw [(h.shape z (h.lt he)).1] at hin hroom
  refine ⟨hin.1, hin.2.trans (Nat.mul_le_mul_right _ ?_)⟩
  rw [Nat.mul_succ]; exact hroom

theorem zones_apart (cfg : ZonedConfig) {z z' : Nat} (h : z ≠ z') :
    cfg.zoneSectors * (z + 1) * sectorSize ≤ cfg.zoneSectors * z' * sectorSize ∨
      cfg.zoneSectors * (z' + 1) * sectorSize ≤ cfg.zoneSectors * z * sectorSize := by
  rcases Nat.lt_or_gt_of_ne h with hlt | hlt
  · exact .inl (Nat.mul_le_mul_right _ (Nat.mul_le_mul_left _ hlt))
  · exact .inr (Nat.mul_le_mul_right _ (Nat.mul_le_mul_left _ hlt))

theorem Table.apart (h : Table cfg s) {z z' : Nat} {e e' : Reserved} (he : e ∈ s.log z) (he' : e' ∈ s.log z')
    (hne : e.id ≠ e'.id) : Apart Reserved.pos (fun e => e.data.length) e e' := by
  by_cases hz : z = z'
  · subst hz
    exact (h.tiles z (h.lt he)).apart he he' (fun heq => hne (by rw [heq]))
  · have h₁ := h.inside he
    have h₂ := h.inside he'
    rcases zones_apart cfg hz with hle | hle
    · exact .inl (by dsimp only; omega)
    · exact .inr (by dsimp only; omega)

theorem Table.initializeZoneInfo (hconv : cfg.numConventionalZones = 0) (s : Zoned δ) :
    Table cfg (initializeZoneInfo cfg s) := by
  refine ⟨fun z hlt => ?_, fun z hlt => ?_, fun z hlt => ?_, fun z _ => rfl, fun z z' e e' he => by cases he⟩ <;>
    simp [Bius.initializeZoneInfo, initialZone, hconv, hlt, Tiles]

theorem Table.advance (h : Table cfg s) {zone id offset : Nat} {data : List UInt8} (hlt : zone < cfg.numZones)
    (hoff : offset = (s.zoneInfo zone).wp * sectorSize) (hdvd : sectorSize ∣ data.length)
    (hroom : (s.zoneInfo zone).wp + data.length / sectorSize ≤ (s.zoneInfo zone).start + cfg.zoneSectors)
    (hfresh : ∀ z, ∀ e ∈ s.log z, e.id ≠ id) : Table cfg (advance s zone id offset data).1 := by
  have hinfo : ∀ z, (Bius.advance s zone id offset data).1.zoneInfo z = if z = zone then
      { s.zoneInfo zone with wp := (s.zoneInfo zone).wp + data.length / sectorSize } else s.zoneInfo z := fun z => by
    simp [Bius.advance, Zoned.setZone, Function.update_apply]
  have hlog : ∀ z, (Bius.advance s zone id offset data).1.log z =
      if z = zone then s.log zone ++ [⟨id, offset, data⟩] else s.log z := fun z => by
    simp [Bius.advance, Function.update_apply]
  refine ⟨fun z hz => ?_, fun z hz => ?_, fun z hz => ?_, fun z hz => ?_, fun z z' e e' he he' heq => ?_⟩
  · rw [hinfo]
    split
    · next heq => exact heq ▸ h.shape z hz
    · exact h.shape z hz
  · rw [hinfo]
    split
    · exact hroom
    · exact h.room z hz
  · rw [hinfo, hlog]
    split
    · have htiles := (h.tiles zone hlt).snoc (x := (⟨id, offset, data⟩ : Reserved)) hoff
      rwa [show (s.zoneInfo zone).wp * sectorSize + data.length =
        ((s.zoneInfo zone).wp + data.length / sectorSize) * sectorSize by
          rw [Nat.add_mul, Nat.div_mul_cancel hdvd]] at htiles
    · exact h.tiles z hz
  · rw [hlog, if_neg (by omega)]; exact h.outside z hz
  · -- the new reservation has a number of its own
    have hmem : ∀ {y : Nat} {x : Reserved}, x ∈ (Bius.advance s zone id offset data).1.log y →
        x ∈ s.log y ∨ y = zone ∧ x = ⟨id, offset, data⟩ := by
      intro y x hx
      rw [hlog] at hx
      split at hx
      · next hy =>
        rcases List.mem_append.1 hx with hx | hx
        · exact .inl (hy ▸ hx)
        · exact .inr ⟨hy, List.mem_singleton.1 hx⟩
      · exact .inl hx
    rcases hmem he with h₁ | ⟨hz, h₁⟩ <;> rcases hmem he' with h₂ | ⟨hz', h₂⟩
    · exact h.uniq z z' e e' h₁ h₂ heq
    · exact absurd (heq.trans (by rw [h₂])) (hfresh z e h₁)
    · exact absurd (heq.symm.trans (by rw [h₁])) (hfresh z' e' h₂)
    · exact ⟨hz.trans hz'.symm, h₁.trans h₂.symm⟩

theorem Table.setEmpty (h : Table cfg s) (zone : Nat) : Table cfg (setEmpty s zone) := by
  have hinfo : ∀ z, (Bius.setEmpty s zone).zoneInfo z = if z = zone then
      { s.zoneInfo zone with cond := .empty, wp := (s.zoneInfo zone).start } else s.zoneInfo z := fun z => by
    simp [Bius.setEmpty, Zoned.setZone, Function.update_apply]
  have hlog : ∀ z, (Bius.setEmpty s zone).log z = if z = zone then [] else s.log z := fun z => by
    simp [Bius.setEmpty, Function.update_apply]
  have hmem : ∀ {y : Nat} {x : Reserved}, x ∈ (Bius.setEmpty s zone).log y → x ∈ s.log y := by
    intro y x hx
    rw [hlog] at hx
    split at hx
    · cases hx
    · exact hx
  refine ⟨fun z hz => ?_, fun z hz => ?_, fun z hz => ?_, fun z hz => ?_, fun z z' e e' he he' =>
    h.uniq z z' e e' (hmem he) (hmem he')⟩
  · rw [hinfo]
    split
    · next heq => exact heq ▸ h.shape z hz
    · exact h.shape z hz
  · rw [hinfo]
    split
    · exact Nat.le_add_right _ _
    · exact h.room z hz
  · rw [hinfo, hlog]
    split
    · rfl
    · exact h.tiles z hz
  · rw [hlog]
    split
    · rfl
    · exact h.outside z hz

theorem closeIfImpOpen_same (s : Zoned δ) (zone : Nat) : SameTable s (closeIfImpOpen s zone).1 := by
  unfold closeIfImpOpen
  split
  · exact .of_setCond rfl rfl
  · exact .refl s

theorem openClosed_log (cfg : ZonedConfig) (s : Zoned δ) (zone : Nat) (explicit : Bool) :
    (openClosed cfg s zone explicit).1.log = s.log := by
  unfold openClosed
  split
  · split <;> rfl
  · cases explicit <;> rfl

theorem openSwitch_same (cfg : ZonedConfig) (s : Zoned δ) (zone : Nat) (explicit : Bool) :
    SameTable s (openSwitch cfg s zone explicit).1 := by
  have hlog : (openSwitch cfg s zone explicit).1.log = s.log := by
    unfold openSwitch
    split
    · cases explicit <;> rfl
    · rfl
    · split
      · rfl
      · exact openClosed_log cfg s.incActive zone explicit
    · exact openClosed_log cfg s zone explicit
    · rfl
  obtain ⟨hinfo, -⟩ | ⟨-, -, hinfo⟩ := openSwitch_cases cfg s zone explicit
  · exact .of_zoneInfo hinfo hlog
  · exact .of_setCond hinfo hlog

theorem closeSwitch_same (s : Zoned δ) (zone : Nat) : SameTable s (closeSwitch s zone).1 := by
  have key : ∀ t : Zoned δ, t.zoneInfo = s.zoneInfo → t.log = s.log → SameTable s (setClosed t zone) := by
    intro t ht hlog
    unfold setClosed
    split
    · exact .of_setCond (by rw [← ht]; rfl) hlog
    · exact .of_setCond (by rw [← ht]; rfl) hlog
  unfold closeSwitch
  split
  · exact key _ rfl rfl
  · exact key _ rfl rfl
  · exact key _ rfl rfl
  · exact .refl s

theorem fullSwitch_same {zone : Nat} (h : (s.zoneInfo zone).wp = (s.zoneInfo zone).start + (s.zoneInfo zone).len) :
    SameTable s (fullSwitch s zone).1 := by
  have key : ∀ t : Zoned δ, t.zoneInfo = s.zoneInfo → t.log = s.log → SameTable s (setFull t zone) := by
    intro t ht hlog
    refine @SameTable.of_setCond _ _ _ zone .full ?_ hlog
    rw [setFull, Zoned.setZone, ht, ← h]
  unfold fullSwitch
  split
  · exact key _ rfl rfl
  · exact key _ rfl rfl
  · exact key _ rfl rfl
  · exact key _ rfl rfl
  · exact key _ rfl rfl
  · exact .refl s

theorem resetSwitch_cases (s : Zoned δ) (zone : Nat) :
    SameTable s (resetSwitch s zone).1 ∨
      ∃ t, SameTable s t ∧ t.zoneInfo = s.zoneInfo ∧ (resetSwitch s zone).1 = setEmpty t zone := by
  unfold resetSwitch
  split
  · exact .inl (.refl s)
  · exact .inr ⟨s.decImpOpen.decOpen.decActive, .of_zoneInfo rfl rfl, rfl, rfl⟩
  · exact .inr ⟨s.decOpen.decActive, .of_zoneInfo rfl rfl, rfl, rfl⟩
  · exact .inr ⟨s.decActive, .of_zoneInfo rfl rfl, rfl, rfl⟩
  · exact .inr ⟨s, .refl s, rfl, rfl⟩
  · exact .inl (.refl s)

end

/-! ## Where each thread is -/

/-- The arguments of `zoned_write_common`, for a write or an append. -/
def ZoneCall.asWrite : ZoneCall → Option WriteArgs
  | .write data offset => some ⟨data, offset, false⟩
  | .append data offset => some ⟨data, offset, true⟩
  | _ => none

/-- The call resets the zone. -/
def ZoneCall.Resets (cfg : ZonedConfig) : ZoneCall → Nat → Prop
  | .resetZone offset, z => zoneNumber cfg offset = z
  | .resetAllZone, _ => True
  | _, _ => False

/-- The actions of calls that write nothing: resets are those of a reset. -/
def ZoneCall.MayDo (cfg : ZonedConfig) (c : ZoneCall) : ZoneAct → Prop
  | .checkWrite _ _ | .advance _ _ _ _ | .fullSwitch _ | .rawWrite _ _ _ _ => False
  | .resetSwitch z | .rawDiscardZone z => c.Resets cfg z
  | .initializeZoneInfo | .rawDiscardAll => ∀ z, c.Resets cfg z
  | _ => True

/-- Any call but `zoned_finish_zone`, inside the disk. -/
def ZoneCall.Allowed (cfg : ZonedConfig) (c : ZoneCall) : Prop := c.Valid cfg ∧ ∀ offset, c ≠ .finishZone offset

theorem code_asWrite {cfg : ZonedConfig} {c : ZoneCall} {w : WriteArgs} (h : c.asWrite = some w) (id : Nat) :
    c.code cfg id = zonedWriteCommon cfg id w := by
  cases c with
  | write data offset => cases h; rfl
  | append data offset => cases h; rfl
  | _ => cases h

theorem asWrite_valid {cfg : ZonedConfig} {c : ZoneCall} {w : WriteArgs} (h : c.asWrite = some w) (hc : c.Valid cfg) :
    zoneNumber cfg w.offset < cfg.numZones ∧ 0 < w.data.length ∧ sectorSize ∣ w.data.length := by
  cases c with
  | write data offset => cases h; exact ⟨zoneNumber_lt hc.1, hc.2⟩
  | append data offset => cases h; exact ⟨zoneNumber_lt hc.1, hc.2⟩
  | _ => cases h

theorem code_mayDo {cfg : ZonedConfig} {c : ZoneCall} (h : c.asWrite = none) (hc : c.Allowed cfg) (id : Nat) :
    (c.code cfg id).Uses (c.MayDo cfg) := by
  cases c with
  | read offset length => exact ⟨trivial, fun _ => trivial⟩
  | write data offset => cases h
  | append data offset => cases h
  | reportZones offset nrZones => exact reportLoop_uses (fun _ => trivial) _ _ _
  | openZone offset =>
    refine ⟨trivial, fun decision => ?_⟩
    cases decision with
    | none =>
      have hopen : (openZoneLocked cfg (zoneNumber cfg offset) true).Uses ((ZoneCall.openZone offset).MayDo cfg) :=
        ⟨trivial, fun _ => openRest_uses (fun _ _ _ => trivial) _⟩
      exact hopen.bind (fun _ => trivial)
    | some status => trivial
  | closeZone offset => exact ⟨trivial, fun _ => trivial⟩
  | finishZone offset => exact absurd rfl (hc.2 offset)
  | resetZone offset =>
    refine ⟨rfl, fun result => ?_⟩
    cases result with
    | none => exact ⟨rfl, fun _ => trivial⟩
    | some status => trivial
  | resetAllZone => exact ⟨fun _ => trivial, fun _ => ⟨fun _ => trivial, fun _ => trivial⟩⟩

section
variable {δ : Type} (cfg : ZonedConfig)

/-- The call has reserved nothing. -/
def Fresh (s : ZoneSys δ) (id : Nat) : Prop := ∀ z, ∀ e ∈ s.shared.log z, e.id ≠ id

/-- The position a write at `offset` reports. -/
def Reports (w : WriteArgs) (offset : Nat) (position : Option Nat) : Prop :=
  if w.append then position = some offset else position = none ∧ offset = w.offset

/-- The points of a write with number `id`, run by thread `t`. -/
inductive WritePhase (s : ZoneSys δ) (t id : Nat) (w : WriteArgs) (p : ZoneProg ZoneRet) : Prop
  | start : p = zonedWriteCommon cfg id w → Fresh s id → WritePhase s t id w p
  | locked : p = .act (.checkWrite (zoneNumber cfg w.offset) w)
        (fun next => writeRest cfg id (zoneNumber cfg w.offset) w next.2 next.1) →
      s.owner (.zone (zoneNumber cfg w.offset)) = some t → Fresh s id → WritePhase s t id w p
  | reserving (offset : Nat) (position : Option Nat) :
      Reserving (zoneNumber cfg w.offset) id offset w.data position p → Reports w offset position →
      s.owner (.zone (zoneNumber cfg w.offset)) = some t → Fresh s id →
      offset = (s.shared.zoneInfo (zoneNumber cfg w.offset)).wp * sectorSize →
      (s.shared.zoneInfo (zoneNumber cfg w.offset)).wp + w.data.length / sectorSize ≤
        (s.shared.zoneInfo (zoneNumber cfg w.offset)).start + cfg.zoneSectors → WritePhase s t id w p
  | filling (offset : Nat) (position : Option Nat) :
      Filling (zoneNumber cfg w.offset) id offset w.data position p → Reports w offset position →
      s.owner (.zone (zoneNumber cfg w.offset)) = some t →
      ⟨id, offset, w.data⟩ ∈ s.shared.log (zoneNumber cfg w.offset) →
      (s.shared.zoneInfo (zoneNumber cfg w.offset)).wp =
        (s.shared.zoneInfo (zoneNumber cfg w.offset)).start + cfg.zoneSectors → WritePhase s t id w p
  | storing (offset : Nat) (position : Option Nat) :
      Storing (zoneNumber cfg w.offset) id offset w.data position p → Reports w offset position →
      ⟨id, offset, w.data⟩ ∈ s.shared.log (zoneNumber cfg w.offset) → WritePhase s t id w p
  | stored (offset : Nat) (position : Option Nat) (status : Nat) :
      p = .ret ⟨status, position, [], []⟩ → Reports w offset position → WritePhase s t id w p
  | refused : Refusing p → Fresh s id → WritePhase s t id w p

/-- Where a thread is. -/
def Phase (s : ZoneSys δ) (t : Nat) (r : Running ZoneAct ZoneAct.Ans ZoneLock ZoneRet ZoneCall) : Prop :=
  match r.call.asWrite with
  | some w => WritePhase cfg s t r.id w r.prog
  | none => r.prog.Uses (r.call.MayDo cfg)

structure Stores (s : ZoneSys δ) : Prop where
  table : Table cfg s.shared
  logged : ∀ z, ∀ e ∈ s.shared.log z, e.id < s.calls
  valid : ∀ t r, s.thread t = some r → r.call.Allowed cfg
  phase : ∀ t r, s.thread t = some r → Phase cfg s t r

/-- No reset of a zone takes effect while a write to the zone is midway. -/
def ResetsQuiet (s : ZoneSys δ) : Move ZoneCall → Prop
  | .call _ _ => True
  | .step t =>
    ∀ r e k, s.thread t = some r → r.prog = .act e k → ∀ u q w, s.thread u = some q → q.call.asWrite = some w →
      e = .resetSwitch (zoneNumber cfg w.offset) ∨ e = .initializeZoneInfo → ¬ Midway q.prog

variable {cfg}

/-- What another thread must leave alone for a write to be where it was. -/
theorem WritePhase.frame {s s' : ZoneSys δ} {t id : Nat} {w : WriteArgs} {p : ZoneProg ZoneRet}
    (h : WritePhase cfg s t id w p) (howner : ∀ l, s.owner l = some t → s'.owner l = some t)
    (hfresh : Fresh s id → Fresh s' id)
    (hwp : Midway p → s.owner (.zone (zoneNumber cfg w.offset)) = some t →
      (s'.shared.zoneInfo (zoneNumber cfg w.offset)).wp = (s.shared.zoneInfo (zoneNumber cfg w.offset)).wp ∧
      (s'.shared.zoneInfo (zoneNumber cfg w.offset)).start = (s.shared.zoneInfo (zoneNumber cfg w.offset)).start)
    (hlog : Midway p → ∀ e ∈ s.shared.log (zoneNumber cfg w.offset), e.id = id →
      e ∈ s'.shared.log (zoneNumber cfg w.offset)) : WritePhase cfg s' t id w p := by
  cases h with
  | start hp hf => exact .start hp (hfresh hf)
  | locked hp ho hf => exact .locked hp (howner _ ho) (hfresh hf)
  | reserving offset position hp hr ho hf hoff hroom =>
    rcases hp.midway with hm | hrefuse
    · obtain ⟨hwp, hstart⟩ := hwp hm ho
      exact .reserving offset position hp hr (howner _ ho) (hfresh hf) (by rw [hwp]; exact hoff)
        (by rw [hwp, hstart]; exact hroom)
    · exact .refused hrefuse (hfresh hf)
  | filling offset position hp hr ho he hfull =>
    obtain ⟨hwp, hstart⟩ := hwp hp.midway ho
    exact .filling offset position hp hr (howner _ ho) (hlog hp.midway _ he rfl) (by rw [hwp, hstart]; exact hfull)
  | storing offset position hp hr he => exact .storing offset position hp hr (hlog hp.midway _ he rfl)
  | stored offset position status hp hr => exact .stored offset position status hp hr
  | refused hp hf => exact .refused hp (hfresh hf)

end

end Bius
