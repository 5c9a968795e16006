import Bius.ZoneSteps

/- What becomes of the reservations of a zone. `Landed` is about a stretch of a run in
   which nobody resets the zone: a range reserved by a call of this stretch belongs to a
   write that is midway, or to one that has succeeded and whose data the disk holds; and
   a write that has succeeded has its range. -/
namespace Bius

open Threads Ranges

variable {δ : Type} {cfg : ZonedConfig}

abbrev RamSys := ZoneSys (Nat → UInt8)

/-- The disk holds the data of the reservation. -/
def Held (s : Zoned (Nat → UInt8)) (e : Reserved) : Prop := Bytes.slice s.raw e.pos e.data.length = e.data

/-- The write has succeeded and reports the range of the reservation. -/
def Succeeds (w : WriteArgs) (v : ZoneRet) (e : Reserved) : Prop :=
  v.status = blkStsOk ∧ e.data = w.data ∧ Reports w e.pos v.position

/-- The call writes to the zone. -/
def WritesTo (cfg : ZonedConfig) (c : ZoneCall) (w : WriteArgs) (z : Nat) : Prop :=
  c.asWrite = some w ∧ zoneNumber cfg w.offset = z

/-- The reservations in zone `z` of the calls with numbers from `n` on. -/
structure Landed (cfg : ZonedConfig) (n z : Nat) (s : RamSys) : Prop where
  quiet : ∀ t r, s.thread t = some r → ¬ r.call.Resets cfg z
  back : ∀ e ∈ s.shared.log z, n ≤ e.id →
    (∃ t r w, s.thread t = some r ∧ r.id = e.id ∧ WritesTo cfg r.call w z ∧ Midway r.prog) ∨
    (∃ t r w v, s.thread t = some r ∧ r.id = e.id ∧ WritesTo cfg r.call w z ∧ r.prog = .ret v ∧
      Succeeds w v e ∧ Held s.shared e) ∨
    (∃ x ∈ s.done, ∃ w, x.1 = e.id ∧ WritesTo cfg x.2.1 w z ∧ Succeeds w x.2.2 e ∧ Held s.shared e)
  returning : ∀ t r w v, s.thread t = some r → WritesTo cfg r.call w z → n ≤ r.id → r.prog = .ret v →
    v.status = blkStsOk → ∃ e ∈ s.shared.log z, e.id = r.id
  returned : ∀ x ∈ s.done, ∀ w, WritesTo cfg x.2.1 w z → n ≤ x.1 → x.2.2.status = blkStsOk →
    ∃ e ∈ s.shared.log z, e.id = x.1

/-! ## Steps within a call -/

theorem Landed.goOn {n z : Nat} {s : RamSys} (h : Landed cfg n z s) {t : Nat} {r : ZoneCallRun}
    (ht : s.thread t = some r) {x : Zoned (Nat → UInt8)} {own : ZoneLock → Option Nat} {p : ZoneProg ZoneRet}
    (hold : ∀ e ∈ s.shared.log z, e ∈ x.log z) (hnew : ∀ e ∈ x.log z, e.id ≠ r.id → e ∈ s.shared.log z)
    (hheld : ∀ e ∈ s.shared.log z, e.id ≠ r.id → Held s.shared e → Held x e)
    (hown : ∀ e ∈ x.log z, n ≤ e.id → e.id = r.id → ∃ w, WritesTo cfg r.call w z ∧
      (Midway p ∨ ∃ v, p = .ret v ∧ Succeeds w v e ∧ Held x e))
    (hret : ∀ w v, WritesTo cfg r.call w z → n ≤ r.id → p = .ret v → v.status = blkStsOk →
      ∃ e ∈ x.log z, e.id = r.id) :
    Landed cfg n z (Sys.goOn { s with shared := x, owner := own } t r p) := by
  have hthread : ∀ u q, (Sys.goOn { s with shared := x, owner := own } t r p).thread u = some q →
      u = t ∧ q = { r with prog := p } ∨ u ≠ t ∧ s.thread u = some q := by
    intro u q hu
    simp only [Sys.goOn, Function.update_apply] at hu
    split at hu
    · next heq => cases hu; exact .inl ⟨heq, rfl⟩
    · next hne => exact .inr ⟨hne, hu⟩
  have hself : (Sys.goOn { s with shared := x, owner := own } t r p).thread t = some { r with prog := p } := by
    simp [Sys.goOn]
  have hother : ∀ u q, s.thread u = some q → q.id ≠ r.id →
      (Sys.goOn { s with shared := x, owner := own } t r p).thread u = some q := by
    intro u q hu hne
    have hut : u ≠ t := fun heq => by rw [heq, ht] at hu; cases hu; exact hne rfl
    simpa [Sys.goOn, hut] using hu
  refine ⟨fun u q hu => ?_, fun e he hn => ?_, fun u q w v hu hw hn hp hok => ?_, fun y hy w hw hn hok => ?_⟩
  · rcases hthread u q hu with ⟨rfl, rfl⟩ | ⟨-, hu⟩
    · exact h.quiet u r ht
    · exact h.quiet u q hu
  · by_cases hid : e.id = r.id
    · obtain ⟨w, hw, hmid | ⟨v, rfl, hsucc, hhold⟩⟩ := hown e he hn hid
      · exact .inl ⟨t, _, w, hself, hid.symm, hw, hmid⟩
      · exact .inr (.inl ⟨t, _, w, v, hself, hid.symm, hw, rfl, hsucc, hhold⟩)
    · have he' := hnew e he hid
      obtain ⟨u, q, w, hu, hq, hw, hmid⟩ | ⟨u, q, w, v, hu, hq, hw, hp, hsucc, hhold⟩ |
        ⟨y, hy, w, hq, hw, hsucc, hhold⟩ := h.back e he' hn
      · exact .inl ⟨u, q, w, hother u q hu (hq ▸ hid), hq, hw, hmid⟩
      · exact .inr (.inl ⟨u, q, w, v, hother u q hu (hq ▸ hid), hq, hw, hp, hsucc, hheld e he' hid hhold⟩)
      · exact .inr (.inr ⟨y, hy, w, hq, hw, hsucc, hheld e he' hid hhold⟩)
  · rcases hthread u q hu with ⟨rfl, rfl⟩ | ⟨-, hu⟩
    · exact hret w v hw hn hp hok
    · obtain ⟨e, he, hid⟩ := h.returning u q w v hu hw hn hp hok
      exact ⟨e, hold e he, hid⟩
  · obtain ⟨e, he, hid⟩ := h.returned y hy w hw hn hok
    exact ⟨e, hold e he, hid⟩

theorem Landed.not_own {n z : Nat} {s : RamSys} (h : Landed cfg n z s) (hnum : Sys.Numbered s) {t : Nat}
    {r : ZoneCallRun} (ht : s.thread t = some r) (hw : r.call.asWrite = none) {e : Reserved} (he : e ∈ s.shared.log z)
    (hn : n ≤ e.id) : e.id ≠ r.id := by
  intro hid
  obtain ⟨u, q, w, hu, hq, hw', -⟩ | ⟨u, q, w, v, hu, hq, hw', -⟩ | ⟨y, hy, w, hq, -⟩ := h.back e he hn
  · obtain rfl := hnum.inj u t q r hu ht (hq.trans hid)
    rw [ht] at hu
    cases hu
    rw [hw'.1] at hw
    cases hw
  · obtain rfl := hnum.inj u t q r hu ht (hq.trans hid)
    rw [ht] at hu
    cases hu
    rw [hw'.1] at hw
    cases hw
  · exact hnum.apart y hy t r ht (hid.symm.trans hq.symm)

/-- After taking or releasing a lock a write has not succeeded, and is midway if it has
    reserved its range. -/
theorem WritePhase.lock_rest {δ : Type} {s : ZoneSys δ} {t id : Nat} {w : WriteArgs} {l : ZoneLock}
    {k : ZoneProg ZoneRet} (h : WritePhase cfg s t id w (.lock l k)) :
    (∀ v, k = .ret v → v.status ≠ blkStsOk) ∧ (¬ Fresh s id → Midway k) := by
  cases h with
  | start hp hf =>
    cases hp
    exact ⟨fun v hv => (by cases hv), fun hnf => absurd hf hnf⟩
  | locked hp _ _ => cases hp
  | reserving offset position hp _ _ hf _ _ => exact ⟨fun v hv => by subst hv; exact hp.elim, fun hnf => absurd hf hnf⟩
  | filling offset position hp _ _ _ _ =>
    exact ⟨fun v hv => by subst hv; exact hp.elim, fun _ => Filling.midway (p := k) hp⟩
  | storing offset position hp _ _ =>
    exact ⟨fun v hv => by subst hv; exact hp.elim, fun _ => Storing.midway (p := k) hp⟩
  | stored offset position status hp _ => cases hp
  | refused hp hf => exact ⟨fun v hv => by subst hv; exact hp, fun hnf => absurd hf hnf⟩

theorem WritePhase.unlock_rest {δ : Type} {s : ZoneSys δ} {t id : Nat} {w : WriteArgs} {l : ZoneLock}
    {k : ZoneProg ZoneRet} (h : WritePhase cfg s t id w (.unlock l k)) :
    (∀ v, k = .ret v → v.status ≠ blkStsOk) ∧ (¬ Fresh s id → Midway k) := by
  cases h with
  | start hp hf => cases hp
  | locked hp _ _ => cases hp
  | reserving offset position hp _ _ hf _ _ =>
    refine ⟨fun v hv => ?_, fun hnf => absurd hf hnf⟩
    subst hv
    unfold Reserving at hp
    split at hp
    · exact hp
    · exact hp.elim
  | filling offset position hp _ _ _ _ =>
    exact ⟨fun v hv => by subst hv; exact hp.2.elim, fun _ => Filling.midway (p := k) hp.2⟩
  | storing offset position hp _ _ =>
    exact ⟨fun v hv => by subst hv; exact hp.elim, fun _ => Storing.midway (p := k) hp⟩
  | stored offset position status hp _ => cases hp
  | refused hp hf => exact ⟨fun v hv => by subst hv; exact hp, fun hnf => absurd hf hnf⟩

theorem Stores.own_zone {δ : Type} {s : ZoneSys δ} (h : Stores cfg s) {t : Nat} {r : ZoneCallRun}
    (ht : s.thread t = some r) {w : WriteArgs} (hw : r.call.asWrite = some w) {z : Nat} {e : Reserved}
    (he : e ∈ s.shared.log z) (hid : e.id = r.id) (hmid : Midway r.prog) :
      ∃ offset, e = ⟨r.id, offset, w.data⟩ ∧ z = zoneNumber cfg w.offset := by
  have hphase := h.phase t r ht
  unfold Phase at hphase
  rw [hw] at hphase
  simp only at hphase
  cases hphase with
  | start _ hf => exact absurd hid (hf z e he)
  | locked _ _ hf => exact absurd hid (hf z e he)
  | reserving _ _ _ _ _ hf _ _ => exact absurd hid (hf z e he)
  | refused _ hf => exact absurd hid (hf z e he)
  | stored _ _ _ hp _ => rw [hp] at hmid; exact hmid.elim
  | filling offset _ _ _ _ hentry _ =>
    obtain ⟨hz, heq⟩ := h.table.uniq _ _ _ _ he hentry hid
    exact ⟨offset, heq, hz⟩
  | storing offset _ _ _ hentry =>
    obtain ⟨hz, heq⟩ := h.table.uniq _ _ _ _ he hentry hid
    exact ⟨offset, heq, hz⟩

theorem Landed.locks {n z : Nat} {s : RamSys} (h : Landed cfg n z s) (hst : Stores cfg s) (hnum : Sys.Numbered s)
    {t : Nat} {r : ZoneCallRun} (ht : s.thread t = some r) {own : ZoneLock → Option Nat} {k : ZoneProg ZoneRet}
    (hmid : Midway k → Midway r.prog)
    (hrest : ∀ w, r.call.asWrite = some w →
      (∀ v, k = .ret v → v.status ≠ blkStsOk) ∧ (¬ Fresh s r.id → Midway k)) :
    Landed cfg n z (Sys.goOn { s with owner := own } t r k) := by
  refine h.goOn ht (fun _ he => he) (fun _ he _ => he) (fun _ _ _ hh => hh) (fun e he hn hid => ?_)
    (fun w v hw _ hp hok => absurd hok ((hrest w hw.1).1 v hp))
  cases hw : r.call.asWrite with
  | none => exact absurd hid (h.not_own hnum ht hw he hn)
  | some w =>
    have hm := (hrest w hw).2 (fun hf => hf z e he hid)
    obtain ⟨-, -, hz⟩ := hst.own_zone ht hw he hid (hmid hm)
    exact ⟨w, ⟨hw, hz.symm⟩, .inl hm⟩

/-! ## Actions -/

theorem resets_ne {c : ZoneCall} {z z' : Nat} (hc : c.Allowed cfg) (h : c.Resets cfg z') (hne : ¬ c.Resets cfg z) :
    z' ≠ z ∧ z' < cfg.numZones := by
  cases c with
  | resetZone offset =>
    cases h
    exact ⟨fun heq => hne heq, zoneNumber_lt hc.1⟩
  | resetAllZone => exact absurd trivial hne
  | _ => exact h.elim

/-- Calls that write nothing, and do not reset the zone, leave its reservations alone. -/
theorem mayDo_log {raw : RawOps δ} {c : ZoneCall} {e : ZoneAct} {z : Nat} (he : c.MayDo cfg e) (hc : c.Allowed cfg)
    (hne : ¬ c.Resets cfg z) (s : Zoned δ) : (e.sem cfg raw s).1.log z = s.log z := by
  by_cases hreset : ∃ z', e = .resetSwitch z'
  · obtain ⟨z', rfl⟩ := hreset
    obtain hsame | ⟨x, hx, -, heq⟩ := resetSwitch_cases s z'
    · exact congrFun hsame.2 z
    · show (resetSwitch s z').1.log z = _
      rw [heq, ← hx.2]
      simp [setEmpty, (resets_ne hc he hne).1.symm]
  · by_cases hinit : e = .initializeZoneInfo
    · subst hinit
      exact absurd (he z) hne
    · exact congrFun (mayDo_same he s (fun z' hz' => hreset ⟨z', hz'⟩) hinit).2 z

theorem openSwitch_raw (s : Zoned δ) (zone : Nat) (explicit : Bool) : (openSwitch cfg s zone explicit).1.raw = s.raw := by
  have hclosed : ∀ t : Zoned δ, (openClosed cfg t zone explicit).1.raw = t.raw := by
    intro t
    unfold openClosed
    split
    · split <;> rfl
    · cases explicit <;> rfl
  unfold openSwitch
  split
  · cases explicit <;> rfl
  · rfl
  · split
    · rfl
    · exact hclosed s.incActive
  · exact hclosed s
  · rfl

theorem closeSwitch_raw (s : Zoned δ) (zone : Nat) : (closeSwitch s zone).1.raw = s.raw := by
  have hclosed : ∀ t : Zoned δ, (setClosed t zone).raw = t.raw := by
    intro t
    unfold setClosed
    split <;> rfl
  unfold closeSwitch
  split <;> first | exact hclosed _ | rfl

theorem resetSwitch_raw (s : Zoned δ) (zone : Nat) : (resetSwitch s zone).1.raw = s.raw := by
  unfold resetSwitch
  split <;> rfl

theorem closeIfImpOpen_raw (s : Zoned δ) (zone : Nat) : (closeIfImpOpen s zone).1.raw = s.raw := by
  unfold closeIfImpOpen
  split <;> rfl

theorem Held.congr {s x : Zoned (Nat → UInt8)} {e : Reserved} (h : Held s e) (hx : x.raw = s.raw) : Held x e := by
  unfold Held
  rw [hx]
  exact h

/-- What another range of the disk is overwritten with does not matter. -/
theorem Held.splice {s x : Zoned (Nat → UInt8)} {e : Reserved} (h : Held s e) {b : Nat} {bs : List UInt8}
    (hx : x.raw = Bytes.splice s.raw b bs) (hapart : e.pos + e.data.length ≤ b ∨ b + bs.length ≤ e.pos) :
      Held x e := by
  unfold Held
  rw [hx, Bytes.slice_splice_disjoint _ hapart]
  exact h

theorem mayDo_held {c : ZoneCall} {a : ZoneAct} {z : Nat} (ha : c.MayDo cfg a) (hc : c.Allowed cfg)
    (hne : ¬ c.Resets cfg z) {s : Zoned (Nat → UInt8)} (ht : Table cfg s) {e : Reserved} (he : e ∈ s.log z)
    (hheld : Held s e) : Held (a.sem cfg ramdisk s).1 e := by
  cases a with
  | rawDiscardZone z' =>
    obtain ⟨hz, hlt⟩ := resets_ne hc ha hne
    obtain ⟨hstart, hlen, -, -⟩ := ht.shape z' hlt
    have hin := ht.inside he
    refine @Held.splice _ _ _ hheld ((s.zoneInfo z').start * sectorSize)
      (List.replicate ((s.zoneInfo z').len * sectorSize) 0) rfl ?_
    rw [hstart, hlen, List.length_replicate, ← Nat.add_mul, ← Nat.mul_add_one]
    have := zones_apart cfg hz
    omega
  | rawDiscardAll => exact absurd (ha z) hne
  | rawWrite id zone offset data => exact ha.elim
  | fullSwitch zone => exact ha.elim
  | checkWrite zone w => exact ha.elim
  | advance zone id offset data => exact ha.elim
  | openSwitch zone explicit => exact hheld.congr (openSwitch_raw s zone explicit)
  | closeIfImpOpen zone => exact hheld.congr (closeIfImpOpen_raw s zone)
  | closeSwitch zone => exact hheld.congr (closeSwitch_raw s zone)
  | resetSwitch zone => exact hheld.congr (resetSwitch_raw s zone)
  | _ => exact hheld

theorem landed_act_other {n z : Nat} {s : RamSys} (h : Landed cfg n z s) (hst : Stores cfg s) (hnum : Sys.Numbered s)
    {t : Nat} {r : ZoneCallRun} {a : ZoneAct} {k : a.Ans → ZoneProg ZoneRet} (ht : s.thread t = some r)
    (hp : r.prog = .act a k) (hw : r.call.asWrite = none) :
    Landed cfg n z (Sys.goOn { s with shared := (a.sem cfg ramdisk s.shared).1 } t r
      (k (a.sem cfg ramdisk s.shared).2)) := by
  have hphase := hst.phase t r ht
  unfold Phase at hphase
  rw [hw] at hphase
  simp only [hp] at hphase
  have hlog := @mayDo_log _ _ ramdisk _ _ _ hphase.1 (hst.valid t r ht) (h.quiet t r ht) s.shared
  refine h.goOn ht (fun e he => hlog ▸ he) (fun e he _ => hlog ▸ he) (fun e he _ hheld => ?_) (fun e he hn hid => ?_)
    (fun w v hw' => ?_)
  · exact mayDo_held hphase.1 (hst.valid t r ht) (h.quiet t r ht) hst.table he hheld
  · exact absurd hid (h.not_own hnum ht hw (hlog ▸ he) hn)
  · rw [hw'.1] at hw; cases hw

theorem writeRest_ne_ret {id zone : Nat} {w : WriteArgs} {position : Option Nat} {next : WriteNext} {v : ZoneRet} :
    writeRest cfg id zone w position next ≠ .ret v := by
  intro heq
  cases next with
  | refused => cases heq
  | conventional => cases heq
  | reserve offset opens =>
    have := @writeRest_reserving zone id offset position cfg w opens
    rw [heq] at this
    exact this

theorem landed_act_write {n z : Nat} {s : RamSys} (h : Landed cfg n z s) (hst : Stores cfg s)
    {t : Nat} {r : ZoneCallRun} {a : ZoneAct} {k : a.Ans → ZoneProg ZoneRet} (ht : s.thread t = some r)
    (hp : r.prog = .act a k) {w : WriteArgs} (hw : r.call.asWrite = some w) :
    Landed cfg n z (Sys.goOn { s with shared := (a.sem cfg ramdisk s.shared).1 } t r
      (k (a.sem cfg ramdisk s.shared).2)) := by
  have hphase := hst.phase t r ht
  unfold Phase at hphase
  rw [hw] at hphase
  simp only at hphase
  -- a step that leaves the reservations and the disk alone and does not return
  have hstay : ∀ {x : Zoned (Nat → UInt8)} {p : ZoneProg ZoneRet}, x.log = s.shared.log → x.raw = s.shared.raw →
      (∀ v, p ≠ .ret v) → (¬ Fresh s r.id → Midway p ∧ Midway r.prog) →
      Landed cfg n z (Sys.goOn { s with shared := x } t r p) := by
    intro x p hlog hraw hret hmid
    refine h.goOn ht (fun e he => hlog ▸ he) (fun e he _ => hlog ▸ he) (fun e _ _ hheld => hheld.congr hraw)
      (fun e he hn hid => ?_) (fun _ v _ _ hpv => absurd hpv (hret v))
    rw [hlog] at he
    obtain ⟨hm, hm'⟩ := hmid (fun hf => hf z e he hid)
    obtain ⟨-, -, hz⟩ := hst.own_zone ht hw he hid hm'
    exact ⟨w, ⟨hw, hz.symm⟩, .inl hm⟩
  cases hphase with
  | start hstart _ => rw [hp] at hstart; cases hstart
  | stored offset position status hret _ => rw [hp] at hret; cases hret
  | refused hrefuse _ => rw [hp] at hrefuse; exact hrefuse.elim
  | locked hact hown hf =>
    rw [hp] at hact
    cases hact
    exact hstay rfl rfl (fun v => writeRest_ne_ret) (fun hnf => absurd hf hnf)
  | filling offset position hfill hr hown he hfull =>
    rw [hp] at hfill
    cases a with
    | fullSwitch zone =>
      obtain ⟨rfl, hstore⟩ := hfill
      have hlen := (hst.table.shape _ (hst.table.lt he)).2.1
      refine hstay (fullSwitch_same (by rw [hlen]; exact hfull)).2 (fullSwitch_raw _ _) (fun v hv => ?_)
        (fun _ => ⟨(hstore _).midway, by rw [hp]; trivial⟩)
      have := hstore (ZoneAct.sem cfg ramdisk (.fullSwitch (zoneNumber cfg w.offset)) s.shared).2
      rw [hv] at this
      exact this
    | _ => exact hfill.elim
  | reserving offset position hres hr hown hf hoff hroom =>
    rw [hp] at hres
    have hopen : ∀ {x : Zoned (Nat → UInt8)} {p : ZoneProg ZoneRet}, x.log = s.shared.log → x.raw = s.shared.raw →
        Reserving (zoneNumber cfg w.offset) r.id offset w.data position p →
        Landed cfg n z (Sys.goOn { s with shared := x } t r p) := fun hlog hraw hp' =>
      hstay hlog hraw (fun v hv => by rw [hv] at hp'; exact hp') (fun hnf => absurd hf hnf)
    cases a with
    | openSwitch zone explicit => exact hopen (openSwitch_same cfg _ _ _).2 (openSwitch_raw _ _ _) (hres _)
    | closeIfImpOpen zone => exact hopen (closeIfImpOpen_same _ _).2 (closeIfImpOpen_raw _ _) (hres _)
    | advance zone i o d =>
      obtain ⟨rfl, rfl, rfl, rfl, hfill, hstore⟩ := hres
      have hlog : ∀ y, (advance s.shared (zoneNumber cfg w.offset) r.id o w.data).1.log y =
          if y = zoneNumber cfg w.offset then s.shared.log y ++ [⟨r.id, o, w.data⟩] else s.shared.log y := fun y => by
        simp only [advance, Function.update_apply]
        split
        · next hy => rw [hy]
        · rfl
      have hmid : ∀ full : Bool, Midway (k full) := fun full => by
        cases full
        · exact hstore.midway
        · exact hfill.midway
      refine h.goOn ht (fun e he => ?_) (fun e he hid => ?_) (fun e _ _ hheld => hheld.congr rfl) (fun e he hn hid => ?_)
        (fun w' v _ _ hv => ?_)
      · show e ∈ (advance s.shared _ _ _ _).1.log z
        rw [hlog]
        split
        · exact List.mem_append_left _ he
        · exact he
      · change e ∈ (advance s.shared _ _ _ _).1.log z at he
        rw [hlog] at he
        split at he
        · rcases List.mem_append.1 he with he | he
          · exact he
          · rw [List.mem_singleton.1 he] at hid; exact absurd rfl hid
        · exact he
      · change e ∈ (advance s.shared _ _ _ _).1.log z at he
        rw [hlog] at he
        split at he
        · next hz => exact ⟨w, ⟨hw, hz.symm⟩, .inl (hmid _)⟩
        · exact absurd hid (hf z e he)
      · have := hmid (ZoneAct.sem cfg ramdisk (.advance (zoneNumber cfg w.offset) r.id o w.data) s.shared).2
        rw [hv] at this
        exact this.elim
    | _ => exact hres.elim
  | storing offset position hstore hr he =>
    rw [hp] at hstore
    cases a with
    | rawWrite i zone o d =>
      obtain ⟨rfl, rfl, rfl, rfl, hk⟩ := hstore
      -- what the disk holds of other reservations is elsewhere
      refine h.goOn ht (fun e' he' => he') (fun e' he' _ => he') (fun e' he' hid hheld => ?_) (fun e' he' hn hid => ?_)
        (fun w' v hw' _ _ _ => ?_)
      · exact @Held.splice _ _ _ hheld o w.data rfl (hst.table.apart he' he hid)
      · obtain ⟨hz, rfl⟩ := hst.table.uniq _ _ _ _ he' he hid
        refine ⟨w, ⟨hw, hz.symm⟩, .inr ⟨_, hk _, ⟨rfl, rfl, hr⟩, ?_⟩⟩
        exact Bytes.slice_splice s.shared.raw o w.data
      · obtain ⟨hw₁, rfl⟩ := hw'
        rw [hw] at hw₁
        cases hw₁
        exact ⟨_, he, rfl⟩
    | _ => exact hstore.elim

/-! ## Every step -/

/-- A move of a stretch in which nobody resets the zone. -/
def StretchOk (cfg : ZonedConfig) (z : Nat) (s : RamSys) (m : Move ZoneCall) : Prop :=
  MoveOk cfg s m ∧ ∀ t c, m = .call t c → ¬ c.Resets cfg z

theorem landed_step {n z : Nat} {s s' : RamSys} {m : Move ZoneCall} (h : Landed cfg n z s) (hst : Stores cfg s)
    (hnum : Sys.Numbered s) (hok : StretchOk cfg z s m) (hs : zoneStep cfg ramdisk s m = some s') : Landed cfg n z s' := by
  cases Sys.step_cases _ _ hs with
  | call t c ht =>
    have hother : ∀ u q, s.thread u = some q →
        Function.update s.thread t (some ⟨s.calls, c, c.code cfg s.calls⟩) u = some q := by
      intro u q hu
      rw [Function.update_of_ne (fun heq => by rw [heq, ht] at hu; cases hu)]
      exact hu
    refine ⟨fun u q hu => ?_, fun e he hn => ?_, fun u q w v hu hw hn hp hv => ?_, h.returned⟩
    · simp only [Function.update_apply] at hu
      split at hu
      · cases hu; exact hok.2 t c rfl
      · exact h.quiet u q hu
    · obtain ⟨u, q, w, hu, hrest⟩ | ⟨u, q, w, v, hu, hrest⟩ | hdone := h.back e he hn
      · exact .inl ⟨u, q, w, hother u q hu, hrest⟩
      · exact .inr (.inl ⟨u, q, w, v, hother u q hu, hrest⟩)
      · exact .inr (.inr hdone)
    · simp only [Function.update_apply] at hu
      split at hu
      · cases hu
        rw [code_asWrite hw.1] at hp
        cases hp
      · exact h.returning u q w v hu hw hn hp hv
  | ret t r v ht hp =>
    have hother : ∀ u q, s.thread u = some q → u ≠ t → Function.update s.thread t none u = some q := by
      intro u q hu hne
      rw [Function.update_of_ne hne]
      exact hu
    have hold : ∀ u q, Function.update s.thread t none u = some q → s.thread u = some q := by
      intro u q hu
      simp only [Function.update_apply] at hu
      split at hu
      · cases hu
      · exact hu
    refine ⟨fun u q hu => h.quiet u q (hold u q hu), fun e he hn => ?_,
      fun u q w v hu => h.returning u q w v (hold u q hu), fun x hx w hw hn hv => ?_⟩
    · obtain ⟨u, q, w, hu, hid, hw, hmid⟩ | ⟨u, q, w, v', hu, hid, hw, hp', hsucc, hheld⟩ | ⟨x, hx,
        hrest⟩ := h.back e he hn
      · refine .inl ⟨u, q, w, hother u q hu (fun heq => ?_), hid, hw, hmid⟩
        rw [heq, ht] at hu
        cases hu
        rw [hp] at hmid
        exact hmid
      · by_cases hut : u = t
        · rw [hut, ht] at hu
          cases hu
          rw [hp] at hp'
          cases hp'
          exact .inr (.inr ⟨_, List.mem_append_right _ (List.mem_singleton.2 rfl), w, hid, hw, hsucc, hheld⟩)
        · exact .inr (.inl ⟨u, q, w, v', hother u q hu hut, hid, hw, hp', hsucc, hheld⟩)
      · exact .inr (.inr ⟨x, List.mem_append_left _ hx, hrest⟩)
    · rcases List.mem_append.1 hx with hx | hx
      · exact h.returned x hx w hw hn hv
      · rw [List.mem_singleton.1 hx] at hw hn hv ⊢
        exact h.returning t r w v ht hw hn hp hv
  | lock t r l k ht hp ho =>
    refine h.locks hst hnum ht (fun hm => by rw [hp]; exact hm) (fun w hw => ?_)
    have hphase := hst.phase t r ht
    unfold Phase at hphase
    rw [hw, hp] at hphase
    exact hphase.lock_rest
  | unlock t r l k ht hp =>
    refine h.locks hst hnum ht (fun hm => by rw [hp]; exact hm) (fun w hw => ?_)
    have hphase := hst.phase t r ht
    unfold Phase at hphase
    rw [hw, hp] at hphase
    exact hphase.unlock_rest
  | act t r e k ht hp =>
    cases hw : r.call.asWrite with
    | none => exact landed_act_other h hst hnum ht hp hw
    | some w => exact landed_act_write h hst ht hp hw

/-! ## Stretches of a run -/

theorem Landed.start {z : Nat} {s : RamSys} (hst : Stores cfg s) (hnum : Sys.Numbered s)
    (hquiet : ∀ t r, s.thread t = some r → ¬ r.call.Resets cfg z) : Landed cfg s.calls z s :=
  ⟨hquiet, fun e he hn => absurd (hst.logged z e he) (Nat.not_lt.2 hn),
    fun t r _ _ ht _ hn => absurd (hnum.running t r ht) (Nat.not_lt.2 hn),
    fun x hx _ _ hn => absurd (hnum.done x hx) (Nat.not_lt.2 hn)⟩

theorem landed_steps (hconv : cfg.numConventionalZones = 0) {disk : Nat → UInt8} {n z : Nat} {s s' : RamSys}
    {as : List (Move ZoneCall)} (hr : Machine.Reach (zoneStep cfg ramdisk) (MoveOk cfg) (zoneInit cfg disk) s)
    (h : Landed cfg n z s) (hs : Machine.Steps (zoneStep cfg ramdisk) (StretchOk cfg z) s as s') :
    Machine.Reach (zoneStep cfg ramdisk) (MoveOk cfg) (zoneInit cfg disk) s' ∧ Landed cfg n z s' := by
  refine hs.inv (I := fun s => Machine.Reach (zoneStep cfg ramdisk) (MoveOk cfg) (zoneInit cfg disk) s ∧
    Landed cfg n z s)
    ?_ ⟨hr, h⟩
  rintro s m s' ⟨hr, h⟩ hok hs
  obtain ⟨hst, hnum, -⟩ := stores_reach hconv hr
  exact ⟨hr.snoc hok.1 hs, landed_step h hst hnum hok hs⟩

/-- A write of the stretch that has succeeded has its range, and the disk its data. -/
theorem Landed.held {n z : Nat} {s : RamSys} (h : Landed cfg n z s) (hnum : Sys.Numbered s)
    {x : Nat × ZoneCall × ZoneRet} (hx : x ∈ s.done) {w : WriteArgs} (hw : WritesTo cfg x.2.1 w z)
    (hn : n ≤ x.1) (hok : x.2.2.status = blkStsOk) :
    ∃ e ∈ s.shared.log z, e.id = x.1 ∧ Succeeds w x.2.2 e ∧ Held s.shared e := by
  obtain ⟨e, he, hid⟩ := h.returned x hx w hw hn hok
  obtain ⟨t, r, w', ht, hr, -⟩ | ⟨t, r, w', v, ht, hr, -⟩ | ⟨y, hy, w', hyid, hw', hsucc, hheld⟩ :=
    h.back e he (hid ▸ hn)
  · exact absurd (hr.trans hid) (hnum.apart x hx t r ht)
  · exact absurd (hr.trans hid) (hnum.apart x hx t r ht)
  · obtain rfl := List.inj_on_of_nodup_map hnum.nodup hy hx (hyid.trans hid)
    have hww := hw'.1.symm.trans hw.1
    cases hww
    exact ⟨e, he, hid, hsucc, hheld⟩

theorem callAlone_read (s : Zoned (Nat → UInt8)) (offset length : Nat) :
    (callAlone cfg ramdisk s (.read offset length)).2 =
      { status := blkStsOk, bytes := Bytes.slice s.raw offset length } := rfl

theorem Held.read {s : Zoned (Nat → UInt8)} {e : Reserved} (h : Held s e) :
    (callAlone cfg ramdisk s (.read e.pos e.data.length)).2 = { status := blkStsOk, bytes := e.data } := by
  rw [callAlone_read, h]

/-! ## Runs without resets -/

/-- No call of the run resets a zone. -/
def NoResets (cfg : ZonedConfig) (m : Move ZoneCall) : Prop :=
  ∀ t c, m = .call t c → c.Allowed cfg ∧ ∀ z, ¬ c.Resets cfg z

theorem WritePhase.act_ne_reset {δ : Type} {s : ZoneSys δ} {t id : Nat} {w : WriteArgs} {e : ZoneAct}
    {k : e.Ans → ZoneProg ZoneRet} (h : WritePhase cfg s t id w (.act e k)) :
    (∀ z, e ≠ .resetSwitch z) ∧ e ≠ .initializeZoneInfo := by
  have key : (∃ z, e = .resetSwitch z) ∨ e = .initializeZoneInfo → False := by
    intro he
    cases h with
    | start hp _ => cases hp
    | locked hp _ _ => cases hp; rcases he with ⟨z, he⟩ | he <;> cases he
    | reserving _ _ hp _ _ _ _ _ => rcases he with ⟨z, rfl⟩ | rfl <;> exact hp
    | filling _ _ hp _ _ _ _ => rcases he with ⟨z, rfl⟩ | rfl <;> exact hp
    | storing _ _ hp _ _ => rcases he with ⟨z, rfl⟩ | rfl <;> exact hp
    | stored _ _ _ hp _ => cases hp
    | refused hp _ => exact hp
  exact ⟨fun z he => key (.inl ⟨z, he⟩), fun he => key (.inr he)⟩

theorem resetsQuiet_of_quiet {δ : Type} {s : ZoneSys δ} (hst : Stores cfg s)
    (hquiet : ∀ t r, s.thread t = some r → ∀ z, ¬ r.call.Resets cfg z) (m : Move ZoneCall) :
      ResetsQuiet cfg s m := by
  cases m with
  | call t c => trivial
  | step t =>
    intro r e k ht hp u q w hu hw he
    have hphase := hst.phase t r ht
    unfold Phase at hphase
    cases hrw : r.call.asWrite with
    | some w' =>
      rw [hrw, hp] at hphase
      rcases he with he | he
      · exact absurd he (hphase.act_ne_reset.1 _)
      · exact absurd he hphase.act_ne_reset.2
    | none =>
      rw [hrw] at hphase
      simp only [hp] at hphase
      rcases he with rfl | rfl
      · exact absurd hphase.1 (hquiet t r ht _)
      · exact absurd (hphase.1 0) (hquiet t r ht 0)

/-- A run without resets is a stretch for every zone. -/
theorem stretch_of_noResets (hconv : cfg.numConventionalZones = 0) {disk : Nat → UInt8} {s s' : RamSys}
    {as : List (Move ZoneCall)} (hr : Machine.Reach (zoneStep cfg ramdisk) (MoveOk cfg) (zoneInit cfg disk) s)
    (hquiet : ∀ t r, s.thread t = some r → ∀ z, ¬ r.call.Resets cfg z)
    (h : Machine.Steps (zoneStep cfg ramdisk) (fun _ => NoResets cfg) s as s') (z : Nat) :
    Machine.Steps (zoneStep cfg ramdisk) (StretchOk cfg z) s as s' := by
  induction h with
  | nil => exact .nil _
  | @cons s u s' m as hok hs _ ih =>
    have hmove : MoveOk cfg s m :=
      ⟨fun t c hm => (hok t c hm).1, resetsQuiet_of_quiet (stores_reach hconv hr).1 hquiet m⟩
    refine .cons ⟨hmove, fun t c hm => (hok t c hm).2 z⟩ hs (ih (hr.snoc hmove hs) (fun t r ht => ?_))
    have hgo : ∀ {x : Zoned (Nat → UInt8)} {own : ZoneLock → Option Nat} {v : Nat} {q : ZoneCallRun}
        {p : ZoneProg ZoneRet}, s.thread v = some q →
        (Sys.goOn { s with shared := x, owner := own } v q p).thread t = some r → ∀ z, ¬ r.call.Resets cfg z := by
      intro x own v q p hv hr
      simp only [Sys.goOn, Function.update_apply] at hr
      split at hr
      · cases hr; exact hquiet v q hv
      · exact hquiet t r hr
    cases Sys.step_cases _ _ hs with
    | call v c hv =>
      simp only [Function.update_apply] at ht
      split at ht
      · cases ht; exact (hok v c rfl).2
      · exact hquiet t r ht
    | ret v q y hv hp =>
      simp only [Function.update_apply] at ht
      split at ht
      · cases ht
      · exact hquiet t r ht
    | lock v q l k hv hp ho => exact hgo hv ht
    | unlock v q l k hv hp => exact hgo hv ht
    | act v q e k hv hp => exact hgo hv ht

/-! ## Completed writes -/

/-- **Completed writes survive**, as long as no reset of a zone takes effect while a
    write to the zone is between its checks and the end of its `raw_write`. When no reset
    of zone `z` is running, `W` is called and writes to `z`. From its return on, until the
    next reset of `z` is called, its range holds its data and lies below the write
    pointer. -/
theorem write_survives (hconv : cfg.numConventionalZones = 0) {disk : Nat → UInt8} {s₁ s₂ s₃ : RamSys} {z t : Nat}
    {W : ZoneCall} {w : WriteArgs} {v : ZoneRet} {as : List (Move ZoneCall)}
    (hreach : Machine.Reach (zoneStep cfg ramdisk) (MoveOk cfg) (zoneInit cfg disk) s₁)
    (hquiet : ∀ u r, s₁.thread u = some r → ¬ r.call.Resets cfg z) (hW : W.Allowed cfg) (hw : WritesTo cfg W w z)
    (hcall : zoneStep cfg ramdisk s₁ (.call t W) = some s₂)
    (hrun : Machine.Steps (zoneStep cfg ramdisk) (StretchOk cfg z) s₂ as s₃)
    (hdone : (s₁.calls, W, v) ∈ s₃.done) (hok : v.status = blkStsOk) :
    ∃ pos, Reports w pos v.position ∧
      (callAlone cfg ramdisk s₃.shared (.read pos w.data.length)).2 = { status := blkStsOk, bytes := w.data } ∧
      pos + w.data.length ≤ (s₃.shared.zoneInfo z).wp * sectorSize := by
  obtain ⟨hst, hnum, -⟩ := stores_reach hconv hreach
  have hresets : ¬ W.Resets cfg z := by
    intro h
    obtain ⟨hw, -⟩ := hw
    cases W with
    | resetZone offset => cases hw
    | resetAllZone => cases hw
    | _ => exact h
  have hstart : StretchOk cfg z s₁ (.call t W) :=
    ⟨⟨fun u c h => by cases h; exact hW, trivial⟩, fun u c h => by cases h; exact hresets⟩
  obtain ⟨hreach₃, hland⟩ := landed_steps hconv hreach (.start hst hnum hquiet) (.cons hstart hcall hrun)
  obtain ⟨hst₃, hnum₃, -⟩ := stores_reach hconv hreach₃
  obtain ⟨e, he, -, ⟨-, hdata, hrep⟩, hheld⟩ := hland.held hnum₃ hdone hw (Nat.le_refl _) hok
  have hin := (hst₃.table.tiles z (hst₃.table.lt he)).inside he
  exact ⟨e.pos, hrep, hdata ▸ hheld.read, hdata ▸ hin.2⟩

/-! ## A run with resets -/

instance decidableMidway : (p : ZoneProg ZoneRet) → Decidable (Midway p)
  | .ret _ => .isFalse id
  | .lock _ k => decidableMidway k
  | .unlock _ k => decidableMidway k
  | .act e _ =>
    match e with
    | .openSwitch _ _ | .closeIfImpOpen _ | .advance _ _ _ _ | .fullSwitch _ | .rawWrite _ _ _ _ => .isTrue trivial
    | .closeSwitch _ | .resetSwitch _ | .initializeZoneInfo | .openDecision _ | .checkWrite _ _ | .zoneInfo _
    | .rawRead _ _ | .rawDiscardZone _ | .rawDiscardAll => .isFalse id

/-- The next action of the program resets the zone. -/
def nextResets (zone : Nat) : ZoneProg ZoneRet → Bool
  | .act (.resetSwitch z) _ => z == zone
  | .act .initializeZoneInfo _ => true
  | _ => false

/-- `ResetsQuiet` where only the threads below `n` make calls, to be evaluated. -/
def QuietNow (cfg : ZonedConfig) (n : Nat) (s : RamSys) : Move ZoneCall → Prop
  | .call _ _ => True
  | .step t => ∀ r ∈ s.thread t, ∀ u < n, ∀ q ∈ s.thread u, ∀ w ∈ q.call.asWrite,
      nextResets (zoneNumber cfg w.offset) r.prog = true → ¬ Midway q.prog

instance (n : Nat) (s : RamSys) : (m : Move ZoneCall) → Decidable (QuietNow cfg n s m)
  | .call _ _ => inferInstanceAs (Decidable True)
  | .step t =>
    inferInstanceAs (Decidable (∀ r ∈ s.thread t, ∀ u < n, ∀ q ∈ s.thread u, ∀ w ∈ q.call.asWrite, _ → _))

theorem QuietNow.resetsQuiet {n : Nat} {s : RamSys} {m : Move ZoneCall} (hidle : ∀ u, n ≤ u → s.thread u = none)
    (h : QuietNow cfg n s m) : ResetsQuiet cfg s m := by
  cases m with
  | call t c => trivial
  | step t =>
    intro r e k hr hp u q w hu hw he
    have hlt : u < n := by
      by_contra hge
      rw [hidle u (by omega)] at hu
      cases hu
    refine h r hr u hlt q hu w hw ?_
    rw [hp]
    rcases he with rfl | rfl
    · exact beq_self_eq_true _
    · rfl

/-- A checked run of the threads below `n` is one without a reset of a zone whose writes
    are midway. -/
theorem moves_of_runOk {n : Nat} {s s' : RamSys} {as : List (Move ZoneCall)}
    (h : Machine.runOk (zoneStep cfg ramdisk) (QuietNow cfg n) s as = some s')
    (hidle : ∀ u, n ≤ u → s.thread u = none) (hthread : ∀ m ∈ as, m.thread < n)
    (hcalls : ∀ t c, .call t c ∈ as → c.Allowed cfg) :
    Machine.Steps (zoneStep cfg ramdisk) (fun s m => MoveOk cfg s m ∧ m ∈ as) s as s' ∧
      ∀ u, n ≤ u → s'.thread u = none := by
  refine Machine.Steps.of_checked (I := fun s => ∀ u, n ≤ u → s.thread u = none) h hidle
    (fun s m hm u hi hs v hv => ?_) (fun s m hm hi hcheck => ?_)
  · rw [Sys.step_other _ _ hs (Nat.ne_of_gt (Nat.lt_of_lt_of_le (hthread m hm) hv)), hi v hv]
  · exact ⟨⟨fun t c heq => hcalls t c (heq ▸ hm), hcheck.resetsQuiet hi⟩, hm⟩

theorem append_allowed {data : List UInt8} (h : data.length = 512) : (ZoneCall.append data 0).Allowed twoWideZones :=
  ⟨⟨by decide, by rw [h]; decide, 1, by rw [h]; rfl⟩, fun _ h => by cases h⟩

theorem resetZone_allowed {offset : Nat} (h : offset < 2048) : (ZoneCall.resetZone offset).Allowed twoWideZones :=
  ⟨h, fun _ h => by cases h⟩

/-- Thread 0 appends to zone 0 and resets it. Thread 1 appends to it too, and waits for
    the lock meanwhile. -/
def afterReset : List (Move ZoneCall) :=
  .call 0 (.append oneSector 0) :: List.replicate 9 (.step 0) ++
    .call 1 (.append (List.replicate 512 2) 0) :: .call 0 (.resetZone 0) :: List.replicate 7 (.step 0)

/-- Then thread 0 appends again. Both appends have reserved their ranges, and neither has
    stored its data, when thread 2 resets zone 1. -/
def bothAppend : List (Move ZoneCall) :=
  .call 2 (.resetZone 1024) :: List.replicate 7 (.step 1) ++ List.replicate 3 (.step 0) ++ List.replicate 4 (.step 2) ++
    List.replicate 6 (.step 0) ++ List.replicate 2 (.step 1)

theorem afterReset_isSome :
    (Machine.runOk (zoneStep twoWideZones ramdisk) (QuietNow twoWideZones 3) (zoneInit twoWideZones (fun _ => 0))
      afterReset).isSome = true := by
  decide +kernel

theorem bothAppend_isSome :
    (Machine.runOk (zoneStep twoWideZones ramdisk) (QuietNow twoWideZones 3) (Option.get _ afterReset_isSome)
      (.call 0 (.append oneSector 0) :: bothAppend)).isSome = true := by
  decide +kernel

theorem bothAppend_run : ∃ s₁ s₃ : RamSys,
    Machine.runOk (zoneStep twoWideZones ramdisk) (QuietNow twoWideZones 3) (zoneInit twoWideZones (fun _ => 0))
      afterReset = some s₁ ∧
    Machine.runOk (zoneStep twoWideZones ramdisk) (QuietNow twoWideZones 3) s₁
      (.call 0 (.append oneSector 0) :: bothAppend) = some s₃ ∧
    s₁.calls = 3 ∧ (∀ u < 3, ∀ r ∈ s₁.thread u, r.call = .append (List.replicate 512 2) 0) ∧
    (3, .append oneSector 0, ⟨blkStsOk, some 512, [], []⟩) ∈ s₃.done ∧
    (1, .append (List.replicate 512 2) 0, ⟨blkStsOk, some 0, [], []⟩) ∈ s₃.done :=
  ⟨_, _, (Option.some_get afterReset_isSome).symm, (Option.some_get bothAppend_isSome).symm, by decide +kernel,
    by decide +kernel, by decide +kernel, by decide +kernel⟩

theorem afterReset_allowed {t : Nat} {c : ZoneCall} (h : .call t c ∈ afterReset) : c.Allowed twoWideZones := by
  simp only [afterReset, List.cons_append, List.mem_cons, List.mem_append, List.mem_replicate, reduceCtorEq, and_false,
    false_or, or_false, Move.call.injEq] at h
  rcases h with ⟨-, rfl⟩ | ⟨-, rfl⟩ | ⟨-, rfl⟩
  · exact append_allowed List.length_replicate
  · exact append_allowed List.length_replicate
  · exact resetZone_allowed (by decide)

theorem bothAppend_allowed {t : Nat} {c : ZoneCall} (h : .call t c ∈ .call 0 (.append oneSector 0) :: bothAppend) :
    c.Allowed twoWideZones ∧ ¬ c.Resets twoWideZones 0 := by
  simp only [bothAppend, List.cons_append, List.mem_cons, List.mem_append, List.mem_replicate, reduceCtorEq, and_false,
    or_false, Move.call.injEq] at h
  rcases h with ⟨-, rfl⟩ | ⟨-, rfl⟩
  · exact ⟨append_allowed List.length_replicate, id⟩
  · exact ⟨resetZone_allowed (by decide), fun h => absurd (show zoneNumber twoWideZones 1024 = 0 from h) (by decide)⟩

theorem write_survives_bothAppend :
    ∃ s₁ s₂ s₃ : RamSys, ∃ v, Machine.Reach (zoneStep twoWideZones ramdisk) (MoveOk twoWideZones)
        (zoneInit twoWideZones (fun _ => 0)) s₁ ∧
      zoneStep twoWideZones ramdisk s₁ (.call 0 (.append oneSector 0)) = some s₂ ∧
      Machine.Steps (zoneStep twoWideZones ramdisk) (StretchOk twoWideZones 0) s₂ bothAppend s₃ ∧
      (s₁.calls, ZoneCall.append oneSector 0, v) ∈ s₃.done ∧ v.status = blkStsOk ∧
      (1, ZoneCall.append (List.replicate 512 2) 0, ⟨blkStsOk, some 0, [], []⟩) ∈ s₃.done ∧
      ∃ pos, Reports ⟨oneSector, 0, true⟩ pos v.position ∧
        (callAlone twoWideZones ramdisk s₃.shared (.read pos oneSector.length)).2 =
          { status := blkStsOk, bytes := oneSector } ∧
        pos + oneSector.length ≤ (s₃.shared.zoneInfo 0).wp * sectorSize := by
  obtain ⟨s₁, s₃, hrun₁, hrun₃, hcalls, hwaits, hdone, hother⟩ := bothAppend_run
  rw [← hcalls] at hdone
  obtain ⟨hsteps₁, hidle⟩ := moves_of_runOk hrun₁ (fun _ _ => rfl) (by decide) (fun _ _ => afterReset_allowed)
  have hquiet : ∀ u r, s₁.thread u = some r → ¬ r.call.Resets twoWideZones 0 := by
    intro u r hr
    have hlt : u < 3 := by
      by_contra hge
      rw [hidle u (by omega)] at hr
      cases hr
    rw [hwaits u hlt r hr]
    exact id
  have hreach : Machine.Reach (zoneStep twoWideZones ramdisk) (MoveOk twoWideZones)
      (zoneInit twoWideZones (fun _ => 0)) s₁ :=
    ⟨afterReset, hsteps₁.mono (fun _ _ h => h.1)⟩
  have hsteps₃ : Machine.Steps (zoneStep twoWideZones ramdisk) (StretchOk twoWideZones 0) s₁
      (.call 0 (.append oneSector 0) :: bothAppend) s₃ :=
    (moves_of_runOk hrun₃ hidle (by decide) (fun _ _ hm => (bothAppend_allowed hm).1)).1.mono
      (fun _ _ h => ⟨h.1, fun _ _ heq => (bothAppend_allowed (heq ▸ h.2)).2⟩)
  cases hsteps₃ with
  | cons _ hcall hrun =>
    exact ⟨s₁, _, s₃, _, hreach, hcall, hrun, hdone, rfl, hother,
      write_survives (z := 0) rfl hreach hquiet (append_allowed List.length_replicate) ⟨rfl, by decide⟩ hcall hrun
        hdone rfl⟩

/-- Thread 0 appends to zone 0 and has reserved its range, but not yet stored its data,
    when thread 1 resets the zone. -/
def staleAppend : List (Move ZoneCall) :=
  .call 0 (.append (List.replicate 512 2) 0) :: List.replicate 7 (.step 0) ++
    .call 1 (.resetZone 0) :: List.replicate 7 (.step 1)

/-- Thread 1 appends to the zone, and then thread 0 stores its data. -/
def staleStore : List (Move ZoneCall) := List.replicate 9 (.step 1) ++ [.step 0]

theorem staleAppend_isSome :
    (Machine.run (zoneStep twoWideZones ramdisk) (zoneInit twoWideZones (fun _ => 0)) staleAppend).isSome = true := by
  decide +kernel

theorem staleStore_isSome :
    (Machine.run (zoneStep twoWideZones ramdisk) (Option.get _ staleAppend_isSome)
      (.call 1 (.append oneSector 0) :: staleStore)).isSome = true := by
  decide +kernel

theorem staleStore_run : ∃ s₁ s₃ : RamSys,
    Machine.run (zoneStep twoWideZones ramdisk) (zoneInit twoWideZones (fun _ => 0)) staleAppend = some s₁ ∧
    Machine.run (zoneStep twoWideZones ramdisk) s₁ (.call 1 (.append oneSector 0) :: staleStore) = some s₃ ∧
    s₁.calls = 2 ∧ (s₁.thread 0).map Running.call = some (.append (List.replicate 512 2) 0) ∧
    (s₁.thread 1).isNone = true ∧ (2, .append oneSector 0, ⟨blkStsOk, some 0, [], []⟩) ∈ s₃.done ∧
    s₃.shared.raw 0 = 2 :=
  ⟨_, _, (Option.some_get staleAppend_isSome).symm, (Option.some_get staleStore_isSome).symm, by decide +kernel,
    by decide +kernel, by decide +kernel, by decide +kernel, by decide +kernel⟩

theorem write_survives_staleAppend :
    ∃ s₁ s₂ s₃ : RamSys, ∃ v, Machine.Reach (zoneStep twoWideZones ramdisk)
        (fun _ m => ∀ t c, m = .call t c → c.Allowed twoWideZones) (zoneInit twoWideZones (fun _ => 0)) s₁ ∧
      (∀ u r, s₁.thread u = some r → ¬ r.call.Resets twoWideZones 0) ∧
      zoneStep twoWideZones ramdisk s₁ (.call 1 (.append oneSector 0)) = some s₂ ∧
      Machine.Steps (zoneStep twoWideZones ramdisk) (fun _ m => ∀ t c, m ≠ .call t c) s₂ staleStore s₃ ∧
      (s₁.calls, .append oneSector 0, v) ∈ s₃.done ∧ v.status = blkStsOk ∧
      ¬ ∃ pos, Reports ⟨oneSector, 0, true⟩ pos v.position ∧
        (callAlone twoWideZones ramdisk s₃.shared (.read pos oneSector.length)).2 =
          { status := blkStsOk, bytes := oneSector } := by
  obtain ⟨s₁, s₃, hrun₁, hrun₃, hcalls, h₀, h₁, hdone, hraw⟩ := staleStore_run
  obtain ⟨s₂, hcall, hrun₃⟩ := Machine.run_cons.1 hrun₃
  refine ⟨s₁, s₂, s₃, _, ⟨staleAppend, .of_run_ok hrun₁ ?_⟩, fun u r hu => ?_, hcall,
    .of_run_ok hrun₃ ?_, hcalls ▸ hdone, rfl, ?_⟩
  · intro _ m hm t c heq
    subst heq
    simp only [staleAppend, List.cons_append, List.mem_cons, List.mem_append, List.mem_replicate, reduceCtorEq,
      and_false, false_or, or_false] at hm
    rcases hm with hm | hm <;> cases hm
    · exact append_allowed List.length_replicate
    · exact ⟨show (0 : Nat) < _ by decide, fun _ h => by cases h⟩
  · by_cases hu0 : u = 0
    · rw [hu0] at hu
      rw [hu] at h₀
      simp only [Option.map_some, Option.some.injEq] at h₀
      rw [h₀]
      exact id
    · by_cases hu1 : u = 1
      · rw [hu1] at hu
        rw [hu] at h₁
        cases h₁
      · rw [Sys.steps_other _ _ (.of_run hrun₁) (u := u) ?_] at hu
        · cases hu
        · intro m hm
          simp only [staleAppend, List.cons_append, List.mem_cons, List.mem_append, List.mem_replicate] at hm
          rcases hm with rfl | ⟨-, rfl⟩ | rfl | ⟨-, rfl⟩ <;> assumption
  · intro _ m hm t c heq
    subst heq
    simp [staleStore] at hm
  · rintro ⟨pos, hpos, hread⟩
    cases hpos
    rw [callAlone_read] at hread
    have hhead : ∀ n, 0 < n → Bytes.slice s₃.shared.raw 0 n = List.replicate n 1 → s₃.shared.raw 0 = 1 := by
      intro n hn h
      have := congrArg List.head? h
      simpa [Bytes.slice, List.head?_range, List.head?_replicate, Nat.ne_of_gt hn] using this
    have hlen : oneSector.length = 512 := List.length_replicate
    rw [hlen] at hread
    injection hread with _ _ hbytes _
    have hbyte := hhead 512 (by decide) hbytes
    rw [hraw] at hbyte
    cases hbyte

end Bius
