import Bius.ZoneLanded

/- Appends and writes without resets. Whenever no call is running, the ranges of the
   writes and appends that have succeeded so far tile each zone up to its write pointer
   (`ranges_tile`). Other calls may be running: a read that begins after a write has
   returned finds its data (`Finding`). -/
namespace Bius

open Threads Ranges

variable {cfg : ZonedConfig}

/-- Call `id` has written `data` to zone `z`, and reports that it is at `pos`. -/
def Wrote (cfg : ZonedConfig) (s : RamSys) (z id : Nat) (data : List UInt8) (pos : Nat) : Prop :=
  ∃ c v w, (id, c, v) ∈ s.done ∧ WritesTo cfg c w z ∧ v.status = blkStsOk ∧ data = w.data ∧
    Reports w pos v.position

theorem Reports.unique {w : WriteArgs} {pos pos' : Nat} {position : Option Nat} (h : Reports w pos position)
    (h' : Reports w pos' position) : pos = pos' := by
  unfold Reports at h h'
  split at h
  · next ha =>
    rw [if_pos ha] at h'
    exact Option.some.inj (h.symm.trans h')
  · next ha =>
    rw [if_neg ha] at h'
    rw [h.2, h'.2]

theorem noResets_reach (hconv : cfg.numConventionalZones = 0) {disk : Nat → UInt8} {s : RamSys}
    (h : Machine.Reach (zoneStep cfg ramdisk) (fun _ => NoResets cfg) (zoneInit cfg disk) s) (z : Nat) :
    Stores cfg s ∧ Sys.Numbered s ∧ Landed cfg 0 z s := by
  obtain ⟨as, h⟩ := h
  have hquiet : ∀ t r, (zoneInit cfg disk : RamSys).thread t = some r → ∀ z, ¬ r.call.Resets cfg z :=
    fun _ _ ht => (by cases ht)
  obtain ⟨hreach, hland⟩ := landed_steps hconv (.refl (zoneInit cfg disk))
    (.start (stores_init hconv disk) (.init _) (fun t r ht => hquiet t r ht z))
    (stretch_of_noResets hconv (.refl _) hquiet h z)
  obtain ⟨hst, hnum, -⟩ := stores_reach hconv hreach
  exact ⟨hst, hnum, hland⟩

theorem Wrote.reserved {s : RamSys} {z : Nat} (hnum : Sys.Numbered s) (hland : Landed cfg 0 z s) {id : Nat}
    {data : List UInt8} {pos : Nat} (h : Wrote cfg s z id data pos) : ⟨id, pos, data⟩ ∈ s.shared.log z ∧
      Held s.shared ⟨id, pos, data⟩ := by
  obtain ⟨c, v, w, hdone, hw, hok, rfl, hrep⟩ := h
  obtain ⟨⟨eid, epos, edata⟩, he, rfl, ⟨-, rfl, hrep'⟩, hheld⟩ := hland.held hnum hdone hw (Nat.zero_le _) hok
  obtain rfl := hrep'.unique hrep
  exact ⟨he, hheld⟩

theorem wrote_of_reserved {s : RamSys} {z : Nat} (hland : Landed cfg 0 z s) (hidle : ∀ t, s.thread t = none)
    {e : Reserved} (he : e ∈ s.shared.log z) : Wrote cfg s z e.id e.data e.pos := by
  obtain ⟨t, r, w, ht, -⟩ | ⟨t, r, w, v, ht, -⟩ | ⟨⟨id, c, v⟩, hx, w, rfl, hw, ⟨hok, hdata, hrep⟩,
    -⟩ :=
    hland.back e he (Nat.zero_le _)
  · rw [hidle t] at ht; cases ht
  · rw [hidle t] at ht; cases ht
  · exact ⟨c, v, w, hx, hw, hok, hdata, hrep⟩

theorem reserved_sectors (hconv : cfg.numConventionalZones = 0) {disk : Nat → UInt8} {s : RamSys}
    (h : Machine.Reach (zoneStep cfg ramdisk) (fun _ => NoResets cfg) (zoneInit cfg disk) s) {z : Nat} {e : Reserved}
    (he : e ∈ s.shared.log z) :
    0 < e.data.length ∧ sectorSize ∣ e.pos ∧ zoneNumber cfg e.pos = z ∧
      e.pos + e.data.length ≤ cfg.numZones * (cfg.zoneSectors * sectorSize) := by
  obtain ⟨hst, hnum, hland⟩ := noResets_reach hconv h z
  obtain ⟨hrunning, hdone⟩ := Sys.called_inv _ _ (Q := fun c => c.Allowed cfg) (fun s t c hm => (hm t c rfl).1) h
  -- every reservation is that of a write
  have hwrite : ∀ e ∈ s.shared.log z, ∃ w : WriteArgs, zoneNumber cfg w.offset = z ∧ e.data = w.data ∧
      0 < w.data.length ∧
      sectorSize ∣ w.data.length := by
    intro e he
    obtain ⟨t, r, w, ht, hid, hw, hmid⟩ | ⟨t, r, w, v, ht, hid, hw, -, ⟨-, hdata, -⟩, -⟩ | ⟨x, hx, w,
      -, hw, ⟨-, hdata, -⟩, -⟩ :=
      hland.back e he (Nat.zero_le _)
    · obtain ⟨offset, heq, -⟩ := hst.own_zone ht hw.1 he hid.symm hmid
      exact ⟨w, hw.2, by rw [heq], (asWrite_valid hw.1 (hrunning t r ht).1).2⟩
    · exact ⟨w, hw.2, hdata, (asWrite_valid hw.1 (hrunning t r ht).1).2⟩
    · exact ⟨w, hw.2, hdata, (asWrite_valid hw.1 (hdone x hx).1).2⟩
  obtain ⟨w, hz, hdata, hpos, -⟩ := hwrite e he
  have hlt := hst.table.lt he
  obtain ⟨hlo, hhi⟩ := hst.table.inside he
  refine ⟨by rw [hdata]; exact hpos, ?_, ?_, ?_⟩
  · refine (hst.table.tiles z hlt).dvd (Nat.dvd_mul_left _ _) (fun e he => ?_) he
    obtain ⟨w, -, hdata, -, hdvd⟩ := hwrite e he
    rw [hdata]
    exact hdvd
  · rw [hdata] at hhi
    have hdiv : e.pos / (cfg.zoneSectors * sectorSize) = z := by
      refine Nat.div_eq_of_lt_le ?_ ?_
      · calc z * (cfg.zoneSectors * sectorSize) = cfg.zoneSectors * z * sectorSize := by
              rw [Nat.mul_comm z, Nat.mul_right_comm]
          _ ≤ e.pos := hlo
      · calc e.pos < cfg.zoneSectors * (z + 1) * sectorSize := by omega
          _ = (z + 1) * (cfg.zoneSectors * sectorSize) := by rw [Nat.mul_right_comm, Nat.mul_comm _ (z + 1)]
    unfold zoneNumber at hz ⊢
    rw [hdiv, ← hz, Nat.mod_mod]
  · calc e.pos + e.data.length ≤ cfg.zoneSectors * (z + 1) * sectorSize := hhi
      _ ≤ cfg.zoneSectors * cfg.numZones * sectorSize := Nat.mul_le_mul_right _ (Nat.mul_le_mul_left _ hlt)
      _ = cfg.numZones * (cfg.zoneSectors * sectorSize) := by rw [Nat.mul_right_comm, Nat.mul_comm _ cfg.numZones]

/-- The ranges written so far tile the zone. -/
theorem ranges_tile (hconv : cfg.numConventionalZones = 0) {disk : Nat → UInt8} {s : RamSys}
    (h : Machine.Reach (zoneStep cfg ramdisk) (fun _ => NoResets cfg) (zoneInit cfg disk) s)
    (hidle : ∀ t, s.thread t = none) {z : Nat} (hz : z < cfg.numZones) (b : Nat) :
    (s.shared.zoneInfo z).start * sectorSize ≤ b ∧ b < (s.shared.zoneInfo z).wp * sectorSize ↔
      ∃ id data pos, Wrote cfg s z id data pos ∧ pos ≤ b ∧ b < pos + data.length := by
  obtain ⟨hst, hnum, hland⟩ := noResets_reach hconv h z
  rw [(hst.table.tiles z hz).covers]
  constructor
  · rintro ⟨e, he, hb⟩
    exact ⟨e.id, e.data, e.pos, wrote_of_reserved hland hidle he, hb⟩
  · rintro ⟨id, data, pos, hr, hb⟩
    exact ⟨_, (hr.reserved hnum hland).1, hb⟩

/-! ## Reads -/

/-- The call has written `data` to zone `z`, at `pos`. -/
def WrittenBy (cfg : ZonedConfig) (x : Nat × ZoneCall × ZoneRet) (z pos : Nat) (data : List UInt8) : Prop :=
  ∃ w, WritesTo cfg x.2.1 w z ∧ x.2.2.status = blkStsOk ∧ data = w.data ∧ Reports w pos x.2.2.position

theorem WrittenBy.wrote {x : Nat × ZoneCall × ZoneRet} {z pos : Nat} {data : List UInt8}
    (h : WrittenBy cfg x z pos data) {s : RamSys} (hx : x ∈ s.done) : Wrote cfg s z x.1 data pos := by
  obtain ⟨w, hw, hok, hdata, hrep⟩ := h
  exact ⟨x.2.1, x.2.2, w, hx, hw, hok, hdata, hrep⟩

/-- The `length` bytes from `offset` on hold what the calls `before` have written there. -/
def HoldsData (cfg : ZonedConfig) (before : List (Nat × ZoneCall × ZoneRet)) (offset length : Nat)
    (bytes : List UInt8) : Prop :=
  bytes.length = length ∧ ∀ x ∈ before, ∀ z pos data, WrittenBy cfg x z pos data → offset ≤ pos →
    pos + data.length ≤ offset + length → (bytes.drop (pos - offset)).take data.length = data

/-- A read that finds what the calls `before` have written. -/
def ZoneAct.Finds (cfg : ZonedConfig) (before : List (Nat × ZoneCall × ZoneRet)) : (e : ZoneAct) → e.Ans → Prop
  | .rawRead offset length, res => res.1 = blkStsOk ∧ HoldsData cfg before offset length res.2
  | _, _ => True

def ZoneCall.Finds (cfg : ZonedConfig) (before : List (Nat × ZoneCall × ZoneRet)) (c : ZoneCall) (v : ZoneRet) : Prop :=
  ∀ offset length, c = .read offset length → v.status = blkStsOk ∧ HoldsData cfg before offset length v.bytes

/-- The calls that began after the calls `before` had returned find what these have
    written. -/
structure Finding (cfg : ZonedConfig) (before : List (Nat × ZoneCall × ZoneRet)) (s : RamSys) : Prop where
  returned : ∀ x ∈ before, x ∈ s.done
  running : s.Heading (ZoneAct.Finds cfg before) (ZoneCall.Finds cfg before)
  done : ∀ y ∈ s.done, y ∈ before ∨ y.2.1.Finds cfg before y.2.2

section
variable {before : List (Nat × ZoneCall × ZoneRet)}

theorem ends_of_not_read {ρ : Type} {can : (e : ZoneAct) → e.Ans → Prop} {P : ρ → Prop} (hP : ∀ r, P r)
    (p : ZoneProg ρ) :
    p.Ends can P := by
  induction p with
  | ret r => exact hP r
  | lock l k ih => exact ih
  | unlock l k ih => exact ih
  | act e k ih => exact fun a _ => ih a

theorem code_finds (id : Nat) (c : ZoneCall) : (c.code cfg id).Ends (ZoneAct.Finds cfg before) (c.Finds cfg before) := by
  cases c with
  | read offset length =>
    intro res hres offset' length' hc
    cases hc
    exact hres
  | _ => exact ends_of_not_read (fun v offset length hc => by cases hc) _

/-- What has been written and not been reset is found on the disk. -/
theorem sem_finds (hconv : cfg.numConventionalZones = 0) {disk : Nat → UInt8} {s : RamSys}
    (h : Machine.Reach (zoneStep cfg ramdisk) (fun _ => NoResets cfg) (zoneInit cfg disk) s)
    (hbefore : ∀ x ∈ before, x ∈ s.done) (e : ZoneAct) :
      e.Finds cfg before (ZoneAct.sem cfg ramdisk e s.shared).2 := by
  cases e with
  | rawRead offset length =>
    refine ⟨rfl, Bytes.slice_length _ _ _, fun x hx z pos data hwritten hlo hhi => ?_⟩
    obtain ⟨-, hnum, hland⟩ := noResets_reach hconv h z
    have hheld := ((hwritten.wrote (hbefore x hx)).reserved hnum hland).2
    exact (Bytes.slice_inner s.shared.raw hlo hhi).trans hheld
  | _ => trivial

theorem Finding.init (disk : Nat → UInt8) : Finding cfg [] (zoneInit cfg disk) :=
  ⟨fun x hx => (by cases hx), fun t r ht => (by cases ht), fun y hy => (by cases hy)⟩

theorem Finding.start {s : RamSys} (hidle : ∀ t, s.thread t = none) (hbefore : ∀ x, x ∈ before ↔ x ∈ s.done) :
    Finding cfg before s :=
  ⟨fun x hx => (hbefore x).1 hx, fun t r ht => (by rw [hidle t] at ht; cases ht),
    fun y hy => Or.inl ((hbefore y).2 hy)⟩

theorem Finding.step (hconv : cfg.numConventionalZones = 0) {disk : Nat → UInt8} {s s' : RamSys} {m : Move ZoneCall}
    (h : Finding cfg before s) (hreach : Machine.Reach (zoneStep cfg ramdisk) (fun _ => NoResets cfg)
      (zoneInit cfg disk) s)
    (hs : zoneStep cfg ramdisk s m = some s') : Finding cfg before s' := by
  obtain ⟨hrun, hdone⟩ := h.running.step _ _ (fun id c => code_finds id c) (sem_finds hconv hreach h.returned) hs
  refine ⟨fun x hx => ?_, hrun, fun y hy => (hdone y hy).elim (h.done y) Or.inr⟩
  have hx' := h.returned x hx
  cases Sys.step_cases _ _ hs with
  | ret t r v ht hp => exact List.mem_append_left _ hx'
  | _ => exact hx'

end

end Bius
