import Bius.Backends
import Bius.ZoneWrites

/- LIST commands on the zoned ramdisk. A write or an append over a list is a sequence of
   writes (`writeRun`), each of which is checked anew against the state the one before it
   left. Once its zone is open the pieces end up as the whole would have
   (`writeRun_open`). Elsewhere they may not: a first piece may fit where the whole does
   not; the ranges of an append are handed the zone of a running offset, which may be the
   next one; and where `open_zone_locked` has closed another zone without opening this
   one, the second piece finds the zone closed and opens it.

   `SplitUnnoticed` says of a state and a request that nothing of this shows, and
   `list_dispatch_agrees` that this is exactly when the two forms of the request end
   alike. -/
namespace Bius

open Threads

/-! ## Writes one behind the other -/

variable {cfg : ZonedConfig}

/-- The writes a list gives rise to, up to the first that fails. -/
def writeRun (cfg : ZonedConfig) (append : Bool) : Nat → Zoned (Nat → UInt8) → List (List UInt8) →
    Zoned (Nat → UInt8) × Nat
  | _, s, [] => (s, blkStsOk)
  | offset, s, d :: ds =>
    let res := callAlone cfg ramdisk s (writeCall append d offset)
    if res.2.status = blkStsOk then writeRun cfg append (offset + d.length) res.1 ds else (res.1, res.2.status)

/-- Every piece is a positive number of sectors. -/
def Sectors (ds : List (List UInt8)) : Prop := ∀ d ∈ ds, 0 < d.length ∧ sectorSize ∣ d.length

/-- The running offsets of pieces of these sizes stay in the zone. -/
def RunsIn (cfg : ZonedConfig) (zone : Nat) : Nat → List Nat → Prop
  | _, [] => True
  | offset, size :: sizes => zoneNumber cfg offset = zone ∧ RunsIn cfg zone (offset + size) sizes

section
variable {append : Bool} {s t : Zoned (Nat → UInt8)} {zone : Nat} {ds : List (List UInt8)}

theorem sectors_mul (wp : Nat) {n : Nat} (h : sectorSize ∣ n) :
    (wp + n / sectorSize) * sectorSize = wp * sectorSize + n := by
  rw [Nat.add_mul, Nat.div_mul_cancel h]

theorem Sectors.flatten_pos (h : Sectors ds) (hne : ds ≠ []) : 0 < ds.flatten.length := by
  obtain ⟨d, rest, rfl⟩ := List.exists_cons_of_ne_nil hne
  have := (h d (by simp)).1
  rw [List.flatten_cons, List.length_append]
  omega

theorem head_le_flatten (d : List UInt8) (rest : List (List UInt8)) : d.length ≤ (d :: rest).flatten.length := by
  rw [List.flatten_cons, List.length_append]
  exact Nat.le_add_right _ _

theorem accepts_mono {z : Zone} {offset n m : Nat} (h : Accepts z append offset m) (hle : n ≤ m) :
    Accepts z append offset n :=
  ⟨h.1, by have := h.2.1; omega, h.2.2⟩

theorem mem_of_isOpen {c : ZoneCond} (h : c.isOpen = true) : c ∈ [.empty, .closed, .impOpen, .expOpen] := by
  cases c with
  | impOpen | expOpen => simp
  | _ => cases h

/-- A piece that does not fill its zone leaves it as it was, with the write pointer
    behind the piece. -/
theorem stored_zone (offset : Nat) {d : List UInt8} (hc : (s.zoneInfo zone).cond ≠ .notWp)
    (hcap : (s.zoneInfo zone).capacity = (s.zoneInfo zone).len)
    (hroom : (s.zoneInfo zone).wp + d.length / sectorSize ≠ (s.zoneInfo zone).start + (s.zoneInfo zone).capacity) :
    (stored s zone offset d).zoneInfo zone =
      { s.zoneInfo zone with wp := (s.zoneInfo zone).wp + d.length / sectorSize } := by
  rw [stored_zoneInfo offset d hc hcap, Function.update_self, if_neg hroom]

theorem shaped_stored (hs : Shaped cfg s) (offset : Nat) (d : List UInt8) (hc : (s.zoneInfo zone).cond ≠ .notWp)
    (hcap : (s.zoneInfo zone).capacity = (s.zoneInfo zone).len) : Shaped cfg (stored s zone offset d) :=
  hs.update (stored_zoneInfo offset d hc hcap)

/-- Pieces written to an open zone that has room for them end up as one. -/
theorem writeRun_open (hs : Shaped cfg s) (hz : zone < cfg.numZones) (hopen : (s.zoneInfo zone).cond.isOpen = true)
    (hne : ds ≠ []) (hsec : Sectors ds) {offset : Nat} (hin : RunsIn cfg zone offset (ds.map List.length))
    (hacc : Accepts (s.zoneInfo zone) append offset ds.flatten.length) :
    (writeRun cfg append offset s ds).2 = blkStsOk ∧
      (writeRun cfg append offset s ds).1.device =
        (stored s zone ((s.zoneInfo zone).wp * sectorSize) ds.flatten).device := by
  induction ds generalizing s offset with
  | nil => exact absurd rfl hne
  | cons d ds ih =>
    obtain ⟨-, hlen, hcap, hseq⟩ := hs zone hz
    obtain ⟨hzone, hin⟩ := hin
    obtain ⟨hpos, hdvd⟩ := hsec d (by simp)
    have hsec' : Sectors ds := fun x hx => hsec x (List.mem_cons_of_mem _ hx)
    have hwp := notWp_of_mem (mem_of_isOpen hopen)
    rw [List.flatten_cons, List.length_append] at hacc
    have hcall : callAlone cfg ramdisk s (writeCall append d offset) =
        (stored s zone ((s.zoneInfo zone).wp * sectorSize) d,
          { status := blkStsOk, position := reported s zone append }) := by
      have := @callAlone_accepted cfg s append d offset (by rw [hzone]; exact hseq)
        (by rw [hzone]; exact accepts_mono hacc (Nat.le_add_right d.length _))
      rw [hzone, opened_of_open hopen, if_pos rfl] at this
      exact this
    rw [writeRun, hcall, if_pos rfl]
    by_cases hlast : ds = []
    · subst hlast
      rw [List.flatten_cons, List.flatten_nil, List.append_nil]
      exact ⟨rfl, rfl⟩
    · -- the zone has room for what is still to come
      have hrest := hsec'.flatten_pos hlast
      have hroom : (s.zoneInfo zone).wp + d.length / sectorSize <
          (s.zoneInfo zone).start + (s.zoneInfo zone).capacity := by
        have hfits := hacc.2.1
        have := sectors_mul (s.zoneInfo zone).wp hdvd
        apply Nat.lt_of_mul_lt_mul_right (a := sectorSize)
        omega
      have hnew := stored_zone ((s.zoneInfo zone).wp * sectorSize) hwp (hcap.trans hlen.symm) hroom.ne
      have hwp' := sectors_mul (s.zoneInfo zone).wp hdvd
      obtain ⟨hst, hdev⟩ := ih (shaped_stored hs _ d hwp (hcap.trans hlen.symm)) (by rw [hnew]; exact hopen)
        hlast hsec' hin
        (by
          rw [hnew]
          refine ⟨fun ha => ?_, ?_, hacc.2.2⟩
          · dsimp only
            rw [hwp', hacc.1 ha]
          · have := hacc.2.1
            dsimp only
            rw [hwp']
            omega)
      refine ⟨hst, hdev.trans ?_⟩
      rw [hnew, hwp', List.flatten_cons]
      exact stored_append hwp hdvd hroom.ne

/-! ## Write pointers along a run -/

/-- What holds of the device after any calls, run one at a time. -/
def Regular (cfg : ZonedConfig) (s : Zoned (Nat → UInt8)) : Prop := Shaped cfg s ∧ ∃ leaked, Accounted cfg leaked s

theorem regular_call (hconv : cfg.numConventionalZones = 0) {c : ZoneCall} (hc : c.Valid cfg) (h : Regular cfg s) :
    Regular cfg (callAlone cfg ramdisk s c).1 := by
  refine ⟨shaped_exec hconv _ h.1, ?_⟩
  refine ((code_inTable hc.inDisk 0).along (ZoneAct.sem cfg ramdisk) (fun _ _ he => he) s).exec_inv
    (I := fun s => ∃ leaked, Accounted cfg leaked s) _ ?_ h.2
  rintro e s he ⟨leaked, hs⟩
  obtain ⟨leaked', hs', -⟩ := accounted_act ramdisk he hs
  exact ⟨leaked', hs'⟩

theorem regular_reach (hconv : cfg.numConventionalZones = 0) {disk : Nat → UInt8}
    (h : Machine.Reach (callStep cfg ramdisk) (fun _ c => c.Valid cfg) (initializeZoned cfg disk) s) : Regular cfg s := by
  refine h.inv (I := Regular cfg) ?_ ⟨shaped_reach hconv (.refl _), 0, accounted_initializeZoneInfo rfl⟩
  rintro s c _ hs hc ⟨⟩
  exact regular_call hconv hc hs

theorem writeCall_valid {append : Bool} {d : List UInt8} {offset : Nat}
    (hoff : offset < cfg.numZones * (cfg.zoneSectors * sectorSize)) (hd : 0 < d.length ∧ sectorSize ∣ d.length) :
    (writeCall append d offset).Valid cfg := by
  cases append <;> exact ⟨hoff, hd⟩

/-- The sectors of those pieces whose running offset is in the zone. -/
def sectorsIn (cfg : ZonedConfig) (zone : Nat) : Nat → List Nat → Nat
  | _, [] => 0
  | offset, size :: sizes =>
    (if zoneNumber cfg offset = zone then size / sectorSize else 0) + sectorsIn cfg zone (offset + size) sizes

/-- Along a run of writes no write pointer moves back, nor forward by more than the
    pieces for its zone. -/
theorem writeRun_wp (append : Bool) (hconv : cfg.numConventionalZones = 0) (h : Regular cfg s) (hsec : Sectors ds)
    {offset : Nat} (hend : offset + ds.flatten.length ≤ cfg.numZones * (cfg.zoneSectors * sectorSize)) (z : Nat) :
    (s.zoneInfo z).wp ≤ ((writeRun cfg append offset s ds).1.zoneInfo z).wp ∧
      ((writeRun cfg append offset s ds).1.zoneInfo z).wp ≤
        (s.zoneInfo z).wp + sectorsIn cfg z offset (ds.map List.length) := by
  induction ds generalizing s offset with
  | nil => exact ⟨le_rfl, le_rfl⟩
  | cons d ds ih =>
    have hd := hsec d (by simp)
    rw [List.flatten_cons, List.length_append] at hend
    have hoff : offset < cfg.numZones * (cfg.zoneSectors * sectorSize) := by omega
    obtain ⟨leaked, hacc⟩ := h.2
    obtain ⟨hle, hge⟩ := call_wp hconv h.1 hacc append d (zoneNumber_lt hoff) z
    have hrest : offset + d.length + ds.flatten.length ≤ cfg.numZones * (cfg.zoneSectors * sectorSize) := by omega
    simp only [writeRun, List.map_cons, sectorsIn]
    split
    · obtain ⟨hle', hge'⟩ := ih (regular_call hconv (writeCall_valid hoff hd) h)
        (fun x hx => hsec x (List.mem_cons_of_mem _ hx)) hrest
      exact ⟨hle.trans hle', by omega⟩
    · exact ⟨hle, by dsimp only; omega⟩

theorem sectorsIn_le (cfg : ZonedConfig) (zone : Nat) (hsec : Sectors ds) (offset : Nat) :
    sectorsIn cfg zone offset (ds.map List.length) ≤ ds.flatten.length / sectorSize := by
  induction ds generalizing offset with
  | nil => exact Nat.zero_le _
  | cons d ds ih =>
    have hih := ih (fun x hx => hsec x (List.mem_cons_of_mem _ hx)) (offset + d.length)
    rw [List.flatten_cons, List.length_append, sectors_add (hsec d (by simp)).2]
    simp only [List.map_cons, sectorsIn]
    split
    · exact Nat.add_le_add_left hih _
    · rw [Nat.zero_add]
      exact hih.trans (Nat.le_add_left _ _)

theorem sectorsIn_lt (hsec : Sectors ds) {offset : Nat} (h : ¬ RunsIn cfg zone offset (ds.map List.length)) :
    sectorsIn cfg zone offset (ds.map List.length) < ds.flatten.length / sectorSize := by
  induction ds generalizing offset with
  | nil => exact absurd trivial h
  | cons d ds ih =>
    obtain ⟨hpos, hdvd⟩ := hsec d (by simp)
    have hsec' : Sectors ds := fun x hx => hsec x (List.mem_cons_of_mem _ hx)
    have hle := sectorsIn_le cfg zone hsec' (offset + d.length)
    have hd : 0 < d.length / sectorSize := Nat.div_pos (Nat.le_of_dvd hpos hdvd) (by decide)
    rw [List.flatten_cons, List.length_append, sectors_add hdvd]
    simp only [List.map_cons, sectorsIn]
    by_cases hzone : zoneNumber cfg offset = zone
    · have := ih hsec' (fun hin => h ⟨hzone, hin⟩)
      rw [if_pos hzone]
      omega
    · rw [if_neg hzone]
      omega

theorem runsIn_of_bounds (hzone : zone < 2 ^ 32) {sizes : List Nat} (hpos : ∀ l ∈ sizes, 0 < l) {offset : Nat}
    (hle : zone * (cfg.zoneSectors * sectorSize) ≤ offset)
    (hge : offset + sizes.sum ≤ (zone + 1) * (cfg.zoneSectors * sectorSize)) : RunsIn cfg zone offset sizes := by
  induction sizes generalizing offset with
  | nil => trivial
  | cons l sizes ih =>
    rw [List.sum_cons] at hge
    have hl := hpos l (by simp)
    refine ⟨?_, ih (fun x hx => hpos x (List.mem_cons_of_mem _ hx)) (by omega) (by omega)⟩
    have hquot : offset / (cfg.zoneSectors * sectorSize) = zone := Nat.div_eq_of_lt_le hle (by omega)
    rw [zoneNumber, hquot, Nat.mod_eq_of_lt hzone]

/-- The running offsets of a plain write that fits stay in its zone. -/
theorem runsIn_write (hs : Shaped cfg s) {offset : Nat} (hz : zoneNumber cfg offset < cfg.numZones) {sizes : List Nat}
    (hacc : Accepts (s.zoneInfo (zoneNumber cfg offset)) false offset sizes.sum) (hpos : ∀ l ∈ sizes, 0 < l) :
    RunsIn cfg (zoneNumber cfg offset) offset sizes := by
  obtain ⟨hstart, -, hcap, -⟩ := hs _ hz
  have hfits := hacc.2.1
  rw [hacc.1 rfl, hstart, hcap] at hfits
  refine runsIn_of_bounds (Nat.mod_lt _ (by decide)) hpos ?_ ?_
  · calc zoneNumber cfg offset * (cfg.zoneSectors * sectorSize)
        ≤ offset / (cfg.zoneSectors * sectorSize) * (cfg.zoneSectors * sectorSize) :=
          Nat.mul_le_mul_right _ (Nat.mod_le _ _)
      _ ≤ offset := Nat.div_mul_le_self _ _
  · calc offset + sizes.sum
        ≤ (cfg.zoneSectors * zoneNumber cfg offset + cfg.zoneSectors) * sectorSize := hfits
      _ = (zoneNumber cfg offset + 1) * (cfg.zoneSectors * sectorSize) := by grind

/-! ## When a split shows -/

/-- The pieces end as the whole does, in status and in the device. -/
def WritesAgree (cfg : ZonedConfig) (append : Bool) (offset : Nat) (s : Zoned (Nat → UInt8))
    (ds : List (List UInt8)) : Prop :=
  (writeRun cfg append offset s ds).2 = (callAlone cfg ramdisk s (writeCall append ds.flatten offset)).2.status ∧
    (writeRun cfg append offset s ds).1.device =
      (callAlone cfg ramdisk s (writeCall append ds.flatten offset)).1.device

variable (s zone) in
/-- The data fills the zone up. -/
def Fills (n : Nat) : Prop :=
  (s.zoneInfo zone).wp + n / sectorSize = (s.zoneInfo zone).start + (s.zoneInfo zone).capacity

/-- A write of pieces of these sizes ends as the write of the whole: there is one piece;
    or already the first is refused by the checks; or the whole passes them and then
    either no zone can be opened for it, or every running offset is in the zone, and if
    the zone is not opened for want of a place among the open ones, the data fills it up
    and a further zone may become active. -/
def SplitUnnoticed (cfg : ZonedConfig) (s : Zoned (Nat → UInt8)) (append : Bool) (offset : Nat)
    (sizes : List Nat) : Prop :=
  let zone := zoneNumber cfg offset
  sizes.length = 1 ∨ ¬ Accepts (s.zoneInfo zone) append offset (sizes.headD 0) ∨
    Accepts (s.zoneInfo zone) append offset sizes.sum ∧
      (OpenRefused cfg s zone ∨
        (append = true → RunsIn cfg zone offset sizes) ∧
          (Evicts cfg s zone → Fills s zone sizes.sum ∧
            ((s.zoneInfo zone).cond = .empty → s.numActiveZones + 1 < cfg.maxActiveZones)))

theorem stored_cond_eq {u v : Zoned (Nat → UInt8)} {a b : Nat} {d r : List UInt8} (hu : ¬ Fills u zone d.length)
    (hv : ¬ Fills v zone r.length) (hdev : (stored u zone a d).device = (stored v zone b r).device) :
    (u.zoneInfo zone).cond = (v.zoneInfo zone).cond := by
  rw [stored_of_room a hu, stored_of_room b hv] at hdev
  have hzones := congrFun (congrArg Prod.fst hdev) zone
  simp only [Function.update_self, Zone.mk.injEq] at hzones
  exact hzones.2.2.2.2.1

theorem dec32_inc32 {n : Nat} (h : n + 1 < 2 ^ 32) : dec32 (inc32 n) = n := by
  rw [inc32_lt h, dec32, if_neg (Nat.succ_ne_zero n), Nat.add_sub_cancel]

/-- A zone that is not opened for the first piece but for what follows ends as if it had
    never been opened, if it is filled up. -/
theorem stored_reopened {u v : Zoned (Nat → UInt8)} {offset : Nat} {d r : List UInt8}
    (hc : (t.zoneInfo zone).cond ∈ [.empty, .closed]) (hdvd : sectorSize ∣ d.length)
    (hu : u.device = (stored t zone offset d).device)
    (hroom : (t.zoneInfo zone).wp + d.length / sectorSize ≠ (t.zoneInfo zone).start + (t.zoneInfo zone).capacity)
    (hv : v.device = (Function.update u.zoneInfo zone { u.zoneInfo zone with cond := .impOpen }, inc32 u.numOpenZones,
      inc32 u.numImpOpenZones, if (u.zoneInfo zone).cond = .empty then inc32 u.numActiveZones else u.numActiveZones,
        u.raw))
    (hfull : (t.zoneInfo zone).wp + (d ++ r).length / sectorSize = (t.zoneInfo zone).start + (t.zoneInfo zone).capacity)
    (hopen : t.numOpenZones + 1 < 2 ^ 32) (himp : t.numImpOpenZones + 1 < 2 ^ 32)
    (hactive : (t.zoneInfo zone).cond = .empty → t.numActiveZones + 1 < 2 ^ 32) :
    (stored v zone (offset + d.length) r).device = (stored t zone offset (d ++ r)).device := by
  have hwp : (t.zoneInfo zone).cond ≠ .notWp := by
    intro heq
    simp [heq] at hc
  rw [stored_of_room offset hroom] at hu
  simp only [Zoned.device, Prod.mk.injEq] at hu hv
  obtain ⟨hinfo, ho, hi, ha, hraw⟩ := hu
  obtain ⟨hinfo', ho', hi', ha', hraw'⟩ := hv
  have hlen : (d ++ r).length / sectorSize = d.length / sectorSize + r.length / sectorSize := by
    rw [List.length_append]
    exact sectors_add hdvd _
  have hzone : v.zoneInfo zone = { t.zoneInfo zone with
      wp := (t.zoneInfo zone).wp + d.length / sectorSize, cond := .impOpen } := by
    rw [hinfo', Function.update_self, hinfo, Function.update_self]
  have hcond : (u.zoneInfo zone).cond = (t.zoneInfo zone).cond := by
    rw [hinfo, Function.update_self]
  have hfull' : (v.zoneInfo zone).wp + r.length / sectorSize = (v.zoneInfo zone).start + (v.zoneInfo zone).capacity := by
    rw [hzone]
    dsimp only
    omega
  rw [stored_of_full _ hwp hfull, stored_of_full _ (by rw [hzone]; simp) hfull', hzone, hinfo', hinfo, ho', hi',
    ha', hraw', hraw, hcond, ho, hi, ha, Function.update_idem, Function.update_idem, Bytes.splice_append]
  simp only [List.mem_cons, List.not_mem_nil, or_false] at hc
  rcases hc with hc | hc
  · simp [hc, ZoneCond.isOpen, ZoneCond.isImpOpen, ZoneCond.isActive, dec32_inc32 hopen, dec32_inc32 himp,
      dec32_inc32 (hactive hc)]
  · simp [hc, ZoneCond.isOpen, ZoneCond.isImpOpen, ZoneCond.isActive, dec32_inc32 hopen, dec32_inc32 himp]

section
variable {d : List UInt8} {offset : Nat} (hconv : cfg.numConventionalZones = 0) (h : Regular cfg s)
  (hz : zoneNumber cfg offset < cfg.numZones)
include h hz

theorem opened_shape : Shaped cfg (opened cfg s (zoneNumber cfg offset)).1 ∧
    ((opened cfg s (zoneNumber cfg offset)).1.zoneInfo (zoneNumber cfg offset)).capacity =
      ((opened cfg s (zoneNumber cfg offset)).1.zoneInfo (zoneNumber cfg offset)).len := by
  have hs := h.1.same (opened_same cfg s (zoneNumber cfg offset))
  obtain ⟨-, hlen, hcap, -⟩ := hs _ hz
  exact ⟨hs, hcap.trans hlen.symm⟩

theorem writeRun_opened (hopen : ((opened cfg s (zoneNumber cfg offset)).1.zoneInfo
    (zoneNumber cfg offset)).cond.isOpen = true)
    (hok : (opened cfg s (zoneNumber cfg offset)).2 = blkStsOk) (hne : ds ≠ []) (hsec : Sectors ds)
    (hin : RunsIn cfg (zoneNumber cfg offset) offset (ds.map List.length))
    (hacc : Accepts (s.zoneInfo (zoneNumber cfg offset)) append offset ds.flatten.length) :
    (writeRun cfg append offset s ds).2 = blkStsOk ∧
      (writeRun cfg append offset s ds).1.device =
        (stored (opened cfg s (zoneNumber cfg offset)).1 (zoneNumber cfg offset)
          ((s.zoneInfo (zoneNumber cfg offset)).wp * sectorSize) ds.flatten).device := by
  obtain ⟨d, rest, rfl⟩ := List.exists_cons_of_ne_nil hne
  obtain ⟨hs', -⟩ := opened_shape h hz
  obtain ⟨hstart', -, hwp', -, hcap'⟩ := (opened_same cfg s (zoneNumber cfg offset)).fields (zoneNumber cfg offset)
  have hacc' : Accepts ((opened cfg s (zoneNumber cfg offset)).1.zoneInfo (zoneNumber cfg offset)) append offset
      (d :: rest).flatten.length := by
    refine ⟨fun ha => ?_, ?_, mem_of_isOpen hopen⟩
    · rw [hwp']; exact hacc.1 ha
    · rw [hwp', hstart', hcap']; exact hacc.2.1
  have hfirst := head_le_flatten d rest
  have hrun := writeRun_open hs' hz hopen hne hsec hin hacc'
  -- the first piece finds the zone as it would have found it open
  have hcall := callAlone_accepted (h.1 _ hz).2.2.2 (accepts_mono hacc hfirst)
  have hcall' := callAlone_accepted (hs' _ hz).2.2.2 (accepts_mono hacc' hfirst)
  rw [opened_of_open hopen, if_pos rfl, hwp'] at hcall'
  rw [hok, if_pos rfl] at hcall
  rw [hwp'] at hrun
  have hsame : writeRun cfg append offset s (d :: rest) =
      writeRun cfg append offset (opened cfg s (zoneNumber cfg offset)).1 (d :: rest) := by
    simp only [writeRun, hcall, hcall']
  rw [hsame]
  exact hrun

/-- A zone that cannot be opened for the first piece takes none of them. -/
theorem writeRun_openRefused {rest : List (List UInt8)}
    (hfirst : Accepts (s.zoneInfo (zoneNumber cfg offset)) append offset d.length)
    (hr : OpenRefused cfg s (zoneNumber cfg offset)) :
    (writeRun cfg append offset s (d :: rest)).2 ≠ blkStsOk ∧
    (writeRun cfg append offset s (d :: rest)).2 ≠ blkStsIoerr := by
  rw [writeRun, callAlone_accepted (h.1 _ hz).2.2.2 hfirst]
  dsimp only
  rw [if_neg (opened_refused hr).1]
  exact opened_refused hr

theorem agree_of_refused {rest : List (List UInt8)}
    (hno : ¬ Accepts (s.zoneInfo (zoneNumber cfg offset)) append offset d.length) :
    WritesAgree cfg append offset s (d :: rest) := by
  have hno' : ¬ Accepts (s.zoneInfo (zoneNumber cfg offset)) append offset (d :: rest).flatten.length := fun hacc =>
    hno (accepts_mono hacc (head_le_flatten d rest))
  have hseq := (h.1 _ hz).2.2.2
  unfold WritesAgree
  rw [writeRun, callAlone_refused hseq hno, callAlone_refused hseq hno']
  exact ⟨rfl, rfl⟩

theorem agree_of_openRefused {rest : List (List UInt8)}
    (hacc : Accepts (s.zoneInfo (zoneNumber cfg offset)) append offset (d :: rest).flatten.length)
    (hr : OpenRefused cfg s (zoneNumber cfg offset)) : WritesAgree cfg append offset s (d :: rest) := by
  have hseq := (h.1 _ hz).2.2.2
  have hne := (opened_refused hr).1
  have hfirst := accepts_mono hacc (head_le_flatten d rest)
  unfold WritesAgree
  rw [writeRun, callAlone_accepted hseq hfirst, callAlone_accepted hseq hacc]
  simp [hne]

/-- The pieces end up as the whole in a zone that is open, or is opened for the first
    of them. -/
theorem agree_of_opens (hne : ds ≠ []) (hsec : Sectors ds)
    (hacc : Accepts (s.zoneInfo (zoneNumber cfg offset)) append offset ds.flatten.length)
    (hin : RunsIn cfg (zoneNumber cfg offset) offset (ds.map List.length))
    (hr : ¬ OpenRefused cfg s (zoneNumber cfg offset)) (he : ¬ Evicts cfg s (zoneNumber cfg offset)) :
    WritesAgree cfg append offset s ds := by
  obtain ⟨hok, hopen⟩ := opened_opens hacc.2.2 hr he
  obtain ⟨hst, hdev⟩ := writeRun_opened h hz hopen hok hne hsec hin hacc
  unfold WritesAgree
  rw [callAlone_accepted (h.1 _ hz).2.2.2 hacc, hok, if_pos rfl]
  exact ⟨hst, hdev⟩

include hconv

omit hz in
theorem opened_ok (hc : (s.zoneInfo (zoneNumber cfg offset)).cond ∈ [.empty, .closed, .impOpen, .expOpen])
    (hr : ¬ OpenRefused cfg s (zoneNumber cfg offset)) : (opened cfg s (zoneNumber cfg offset)).2 = blkStsOk := by
  by_cases he : Evicts cfg s (zoneNumber cfg offset)
  · obtain ⟨leaked, hacc⟩ := h.2
    exact (opened_evicts hconv hacc he).1
  · exact (opened_opens hc hr he).1

/-- A write that is stored moves the write pointer by its whole length. -/
theorem call_wp_stored
    (hacc : Accepts (s.zoneInfo (zoneNumber cfg offset)) append offset d.length)
    (hr : ¬ OpenRefused cfg s (zoneNumber cfg offset)) :
    (callAlone cfg ramdisk s (writeCall append d offset)).2.status = blkStsOk ∧
      ((callAlone cfg ramdisk s (writeCall append d offset)).1.zoneInfo (zoneNumber cfg offset)).wp =
        (s.zoneInfo (zoneNumber cfg offset)).wp + d.length / sectorSize := by
  have hok := opened_ok hconv h hacc.2.2 hr
  obtain ⟨leaked, hcount⟩ := h.2
  obtain ⟨-, hcap⟩ := opened_shape h hz
  rw [callAlone_accepted (h.1 _ hz).2.2.2 hacc, hok, if_pos rfl]
  refine ⟨rfl, ?_⟩
  rw [stored_wp _ _ (opened_notWp hacc.2.2 hok hconv hcount) hcap, if_pos rfl,
    ((opened_same cfg s (zoneNumber cfg offset)).fields _).2.2.1]

/-- The first piece passes the checks and the whole does not: the first piece is
    stored, or fails otherwise. -/
theorem disagree_of_overrun {rest : List (List UInt8)} (hsec : Sectors (d :: rest))
    (hend : offset + (d :: rest).flatten.length ≤ cfg.numZones * (cfg.zoneSectors * sectorSize))
    (hfirst : Accepts (s.zoneInfo (zoneNumber cfg offset)) append offset d.length)
    (hno : ¬ Accepts (s.zoneInfo (zoneNumber cfg offset)) append offset (d :: rest).flatten.length) :
    ¬ WritesAgree cfg append offset s (d :: rest) := by
  intro hagree
  obtain ⟨hpos, hdvd⟩ := hsec d (by simp)
  have hseq := (h.1 _ hz).2.2.2
  obtain ⟨hst, hdev⟩ := hagree
  rw [callAlone_refused hseq hno] at hst hdev
  by_cases hr : OpenRefused cfg s (zoneNumber cfg offset)
  · exact (writeRun_openRefused h hz hfirst hr).2 hst
  · rw [List.flatten_cons, List.length_append] at hend
    obtain ⟨hok, hwp⟩ := call_wp_stored hconv h hz hfirst hr
    have hoff : offset < cfg.numZones * (cfg.zoneSectors * sectorSize) := by omega
    have hrest : offset + d.length + rest.flatten.length ≤ cfg.numZones * (cfg.zoneSectors * sectorSize) := by omega
    have hreg : Regular cfg (callAlone cfg ramdisk s (writeCall append d offset)).1 :=
      regular_call hconv (writeCall_valid hoff ⟨hpos, hdvd⟩) h
    have hmono := (writeRun_wp append hconv hreg
      (fun x hx => hsec x (List.mem_cons_of_mem _ hx)) hrest (zoneNumber cfg offset)).1
    rw [writeRun, if_pos hok] at hdev
    have hsame := congrFun (Zoned.device_inj hdev).1 (zoneNumber cfg offset)
    have hd : 0 < d.length / sectorSize := Nat.div_pos (Nat.le_of_dvd hpos hdvd) (by decide)
    rw [hsame, hwp] at hmono
    dsimp only at hmono
    omega

/-- A running offset leaves the zone: the whole goes to the zone, and some piece does
    not. -/
theorem disagree_of_leaves (hsec : Sectors ds)
    (hend : offset + ds.flatten.length ≤ cfg.numZones * (cfg.zoneSectors * sectorSize))
    (hacc : Accepts (s.zoneInfo (zoneNumber cfg offset)) append offset ds.flatten.length)
    (hr : ¬ OpenRefused cfg s (zoneNumber cfg offset))
    (hout : ¬ RunsIn cfg (zoneNumber cfg offset) offset (ds.map List.length)) :
      ¬ WritesAgree cfg append offset s ds := by
  intro hagree
  obtain ⟨-, hwp⟩ := call_wp_stored hconv h hz hacc hr
  have hle := (writeRun_wp append hconv h hsec hend (zoneNumber cfg offset)).2
  have hlt := sectorsIn_lt hsec hout
  have hsame := congrFun (Zoned.device_inj hagree.2).1 (zoneNumber cfg offset)
  rw [hsame, hwp] at hle
  omega

/-- The zone was not opened for the first piece: what the second finds. -/
theorem evicted_state
    (hacc : Accepts (s.zoneInfo (zoneNumber cfg offset)) append offset d.length)
    (hroom : ¬ Fills s (zoneNumber cfg offset) d.length) (he : Evicts cfg s (zoneNumber cfg offset)) :
    let u := (callAlone cfg ramdisk s (writeCall append d offset)).1
    (callAlone cfg ramdisk s (writeCall append d offset)).2.status = blkStsOk ∧
      u.device = (stored (opened cfg s (zoneNumber cfg offset)).1 (zoneNumber cfg offset)
        ((s.zoneInfo (zoneNumber cfg offset)).wp * sectorSize) d).device ∧
      u.zoneInfo (zoneNumber cfg offset) = { s.zoneInfo (zoneNumber cfg offset) with
        wp := (s.zoneInfo (zoneNumber cfg offset)).wp + d.length / sectorSize } ∧
      u.numOpenZones + 1 = s.numOpenZones ∧ u.numImpOpenZones + 1 = s.numImpOpenZones ∧
      u.numActiveZones = s.numActiveZones + if (s.zoneInfo (zoneNumber cfg offset)).cond = .empty then 1 else 0 := by
  obtain ⟨leaked, hcount⟩ := h.2
  obtain ⟨hok, hev⟩ := opened_evicts hconv hcount he
  obtain ⟨hs', hcap⟩ := opened_shape h hz
  have hwp : ((opened cfg s (zoneNumber cfg offset)).1.zoneInfo (zoneNumber cfg offset)).cond ≠ .notWp := by
    rw [hev.same]
    exact notWp_of_mem hacc.2.2
  have hroom' : ((opened cfg s (zoneNumber cfg offset)).1.zoneInfo (zoneNumber cfg offset)).wp + d.length / sectorSize ≠
      ((opened cfg s (zoneNumber cfg offset)).1.zoneInfo (zoneNumber cfg offset)).start +
        ((opened cfg s (zoneNumber cfg offset)).1.zoneInfo (zoneNumber cfg offset)).capacity := by
    rw [hev.same]
    exact hroom
  have hdev := stored_of_room ((s.zoneInfo (zoneNumber cfg offset)).wp * sectorSize) hroom'
  simp only [Zoned.device, Prod.mk.injEq] at hdev
  rw [callAlone_accepted (h.1 _ hz).2.2.2 hacc, hok, if_pos rfl]
  refine ⟨rfl, rfl, ?_, ?_, ?_, ?_⟩
  · rw [stored_zone _ hwp hcap hroom', hev.same]
  · rw [hdev.2.1, hev.openEq]
  · rw [hdev.2.2.1, hev.impEq]
  · rw [hdev.2.2.2.1, hev.activeEq]

/-- The zone was not opened for the first piece. The second opens it, unless too many
    zones are active; the pieces then end up as the whole exactly if they fill the
    zone. -/
theorem agree_of_evicts {rest : List (List UInt8)} (hrest : rest ≠ []) (hsec : Sectors (d :: rest))
    (hend : offset + (d :: rest).flatten.length ≤ cfg.numZones * (cfg.zoneSectors * sectorSize))
    (hacc : Accepts (s.zoneInfo (zoneNumber cfg offset)) append offset (d :: rest).flatten.length)
    (hin : RunsIn cfg (zoneNumber cfg offset) offset ((d :: rest).map List.length))
    (he : Evicts cfg s (zoneNumber cfg offset)) :
    WritesAgree cfg append offset s (d :: rest) ↔
      Fills s (zoneNumber cfg offset) (d :: rest).flatten.length ∧
        ((s.zoneInfo (zoneNumber cfg offset)).cond = .empty → s.numActiveZones + 1 < cfg.maxActiveZones) := by
  obtain ⟨hpos, hdvd⟩ := hsec d (by simp)
  have hsec' : Sectors rest := fun x hx => hsec x (List.mem_cons_of_mem _ hx)
  have hlen : (d :: rest).flatten.length = d.length + rest.flatten.length := by
    rw [List.flatten_cons, List.length_append]
  have hrestpos := hsec'.flatten_pos hrest
  obtain ⟨leaked, hcount⟩ := h.2
  obtain ⟨hok, hev⟩ := opened_evicts hconv hcount he
  have hopenLe := hcount.openLe
  have himpLe := hcount.imp_le
  have hactiveLe := hcount.activeLe
  have hmax := cfg.open_lt
  have hmax' := cfg.active_lt
  have hdiv : (d :: rest).flatten.length / sectorSize = d.length / sectorSize + rest.flatten.length / sectorSize := by
    rw [hlen, sectors_add hdvd]
  have hmul := sectors_mul (s.zoneInfo (zoneNumber cfg offset)).wp hdvd
  have hfits := hacc.2.1
  -- the first piece leaves room
  have hroom : ¬ Fills s (zoneNumber cfg offset) d.length := by
    intro hfill
    unfold Fills at hfill
    rw [hfill] at hmul
    omega
  obtain ⟨hst, hdev, hzone, hopen, himp, hactive⟩ := evicted_state hconv h hz
    (accepts_mono hacc (head_le_flatten d rest)) hroom he
  have hoff : offset < cfg.numZones * (cfg.zoneSectors * sectorSize) := by omega
  have hu : Regular cfg (callAlone cfg ramdisk s (writeCall append d offset)).1 :=
    regular_call hconv (writeCall_valid hoff ⟨hpos, hdvd⟩) h
  have hrun : writeRun cfg append offset s (d :: rest) =
      writeRun cfg append (offset + d.length) (callAlone cfg ramdisk s (writeCall append d offset)).1 rest := by
    rw [writeRun, if_pos hst]
  have hwhole := callAlone_accepted (h.1 _ hz).2.2.2 hacc
  rw [hok, if_pos rfl] at hwhole
  unfold WritesAgree
  rw [hrun, hwhole]
  generalize (callAlone cfg ramdisk s (writeCall append d offset)).1 = u at hdev hzone hopen himp hactive hu ⊢
  -- the second piece is for the same zone
  obtain ⟨d', rest', rfl⟩ := List.exists_cons_of_ne_nil hrest
  obtain ⟨-, hin'⟩ := hin
  have hnumber : zoneNumber cfg (offset + d.length) = zoneNumber cfg offset := hin'.1
  have hcu : (u.zoneInfo (zoneNumber cfg offset)).cond = (s.zoneInfo (zoneNumber cfg offset)).cond := by rw [hzone]
  have hacc' : Accepts (u.zoneInfo (zoneNumber cfg offset)) append (offset + d.length) (d' :: rest').flatten.length := by
    rw [hzone]
    refine ⟨fun ha => ?_, ?_, hacc.2.2⟩
    · dsimp only
      rw [hmul, hacc.1 ha]
    · dsimp only
      rw [hmul]
      omega
  by_cases hno : (s.zoneInfo (zoneNumber cfg offset)).cond = .empty ∧ cfg.maxActiveZones ≤ s.numActiveZones + 1
  · -- no further zone may become active
    refine ⟨fun hagree => absurd hagree.1 ?_, fun hfill => absurd (hfill.2 hno.1) (by omega)⟩
    rw [if_pos hno.1] at hactive
    have hr : OpenRefused cfg u (zoneNumber cfg offset) := .inl ⟨hcu.trans hno.1, by omega⟩
    exact (writeRun_openRefused hu (by rw [hnumber]; exact hz)
      (by rw [hnumber]; exact accepts_mono hacc' (head_le_flatten d' rest')) (by rw [hnumber]; exact hr)).1
  · have hbelow : u.numOpenZones < cfg.maxOpenZones := by omega
    have hactive' : (u.zoneInfo (zoneNumber cfg offset)).cond = .empty → u.numActiveZones < cfg.maxActiveZones := by
      intro hempty
      rw [hcu] at hempty
      rw [if_pos hempty] at hactive
      rw [hactive]
      exact Nat.lt_of_not_le (fun hle => hno ⟨hempty, hle⟩)
    have hr : ¬ OpenRefused cfg u (zoneNumber cfg offset) := by
      rintro (⟨hempty, hle⟩ | ⟨-, hle, -⟩)
      · exact absurd (hactive' hempty) (by omega)
      · omega
    have hnever : ¬ Evicts cfg u (zoneNumber cfg offset) := fun hcontra => by have := hcontra.2.1; omega
    obtain ⟨hok', hopen'⟩ := opened_opens hacc'.2.2 hr hnever
    have hreopened := @writeRun_opened cfg append u (d' :: rest') (offset + d.length) hu (by rw [hnumber]; exact hz)
      (by rw [hnumber]; exact hopen') (by rw [hnumber]; exact hok') (by simp) hsec' (by rw [hnumber]; exact hin')
      (by rw [hnumber]; exact hacc')
    rw [hnumber] at hreopened
    obtain ⟨hst', hdev'⟩ := hreopened
    rw [hst', hdev']
    have hposition : (u.zoneInfo (zoneNumber cfg offset)).wp * sectorSize =
        (s.zoneInfo (zoneNumber cfg offset)).wp * sectorSize + d.length := by
      rw [hzone]
      exact hmul
    constructor
    · -- an open zone is told from one that is not, unless both are full
      rintro ⟨-, hdevs⟩
      refine ⟨?_, fun hempty => Nat.lt_of_not_le (fun hle => hno ⟨hempty, hle⟩)⟩
      by_contra hnofill
      obtain ⟨hstart', -, hwp', -, hcap'⟩ := (opened_same cfg u (zoneNumber cfg offset)).fields (zoneNumber cfg offset)
      have hroom' : ¬ Fills (opened cfg u (zoneNumber cfg offset)).1 (zoneNumber cfg offset)
          (d' :: rest').flatten.length := by
        unfold Fills at hnofill ⊢
        rw [hwp', hstart', hcap', hzone]
        dsimp only
        omega
      have hcond := stored_cond_eq hroom' (by unfold Fills; rw [hev.same]; exact hnofill) hdevs
      rw [hev.same] at hcond
      rw [hcond] at hopen'
      have hclosed := he.1
      simp only [List.mem_cons, List.not_mem_nil, or_false] at hclosed
      rcases hclosed with hc | hc <;> rw [hc] at hopen' <;> cases hopen'
    · rintro ⟨hfill, -⟩
      refine ⟨rfl, ?_⟩
      rw [hposition, List.flatten_cons]
      refine stored_reopened (by rw [hev.same]; exact he.1) hdvd hdev (by rw [hev.same]; exact hroom)
        (opened_enters (by rw [hcu]; exact he.1) hbelow hactive') (by rw [hev.same]; exact hfill) ?_ ?_ ?_
      · have := hev.openEq
        omega
      · have := hev.impEq
        omega
      · intro hempty
        rw [hev.same] at hempty
        rw [hev.activeEq, if_pos hempty]
        have := hactive' (hcu.trans hempty)
        rw [hactive, if_pos hempty] at this
        omega

/-- **When a split goes unnoticed.** -/
theorem writesAgree_iff (hne : ds ≠ []) (hsec : Sectors ds)
    (hend : offset + ds.flatten.length ≤ cfg.numZones * (cfg.zoneSectors * sectorSize)) :
    WritesAgree cfg append offset s ds ↔ SplitUnnoticed cfg s append offset (ds.map List.length) := by
  obtain ⟨d, rest, rfl⟩ := List.exists_cons_of_ne_nil hne
  have hsum : ((d :: rest).map List.length).sum = (d :: rest).flatten.length := List.length_flatten.symm
  unfold SplitUnnoticed
  simp only [hsum]
  by_cases hrest : rest = []
  · -- one piece is the whole
    subst hrest
    refine ⟨fun _ => .inl rfl, fun _ => ?_⟩
    unfold WritesAgree
    rw [writeRun, List.flatten_cons, List.flatten_nil, List.append_nil]
    split
    · next hok => exact ⟨hok.symm, rfl⟩
    · exact ⟨rfl, rfl⟩
  have hlong : ¬ ((d :: rest).map List.length).length = 1 := by
    have := List.length_pos_of_ne_nil hrest
    simp only [List.length_map, List.length_cons]
    omega
  have hhead : ((d :: rest).map List.length).headD 0 = d.length := rfl
  by_cases hfirst : Accepts (s.zoneInfo (zoneNumber cfg offset)) append offset d.length
  · by_cases hacc : Accepts (s.zoneInfo (zoneNumber cfg offset)) append offset (d :: rest).flatten.length
    · by_cases hr : OpenRefused cfg s (zoneNumber cfg offset)
      · exact ⟨fun _ => .inr (.inr ⟨hacc, .inl hr⟩), fun _ => agree_of_openRefused h hz hacc hr⟩
      · by_cases hin : RunsIn cfg (zoneNumber cfg offset) offset ((d :: rest).map List.length)
        · by_cases he : Evicts cfg s (zoneNumber cfg offset)
          · rw [agree_of_evicts hconv h hz hrest hsec hend hacc hin he]
            constructor
            · intro hfill
              exact .inr (.inr ⟨hacc, .inr ⟨fun _ => hin, fun _ => hfill⟩⟩)
            · rintro (hone | hno | ⟨-, href | ⟨-, hfill⟩⟩)
              · exact absurd hone hlong
              · exact absurd hfirst hno
              · exact absurd href hr
              · exact hfill he
          · exact ⟨fun _ => .inr (.inr ⟨hacc, .inr ⟨fun _ => hin, fun he' => absurd he' he⟩⟩),
              fun _ => agree_of_opens h hz hne hsec hacc hin hr he⟩
        · refine ⟨fun hagree => absurd hagree (disagree_of_leaves hconv h hz hsec hend hacc hr hin), ?_⟩
          rintro (hone | hno | ⟨-, href | ⟨happ, -⟩⟩)
          · exact absurd hone hlong
          · exact absurd hfirst hno
          · exact absurd href hr
          · -- only an append can leave its zone
            refine absurd ?_ hin
            cases append
            · refine runsIn_write h.1 hz (by rw [hsum]; exact hacc) (fun l hl => ?_)
              obtain ⟨x, hx, rfl⟩ := List.mem_map.1 hl
              exact (hsec x hx).1
            · exact happ rfl
    · refine ⟨fun hagree => absurd hagree (disagree_of_overrun hconv h hz hsec hend hfirst hacc), ?_⟩
      rintro (hone | hno | ⟨hacc', -⟩)
      · exact absurd hone hlong
      · exact absurd hfirst hno
      · exact absurd hacc' hacc
  · exact ⟨fun _ => .inr (.inl hfirst), fun _ => agree_of_refused h hz hfirst⟩

end

/-! ## The commands -/

/-- The opcode of a write or an append. -/
def writeOpcode (append : Bool) : BiusReq := if append then .zoneAppend else .write

theorem zoned_readsDisk (cfg : ZonedConfig) : ReadsDisk (zonedOperations cfg) Zoned.raw := rfl

theorem zoned_writesInside (cfg : ZonedConfig) : WritesInside (zonedOperations cfg) := by
  intro opcode a offset l first out p x hx
  cases opcode with
  | read =>
    apply Bytes.splice_outside _
    show x < a ∨ a + (Bytes.slice p.dev.raw offset l).length ≤ x
    rwa [Bytes.slice_length]
  | _ => rfl

theorem listCall_zoned (append : Bool) (a offset l : Nat) (first : Bool) (out : Nat) (p : Proc (Zoned (Nat → UInt8))) :
    listCall (zonedOperations cfg) (writeOpcode append) a offset l first out p =
      (⟨p.mem, (callAlone cfg ramdisk p.dev (writeCall append (p.load a l) offset)).1⟩,
        (callAlone cfg ramdisk p.dev (writeCall append (p.load a l) offset)).2.status,
        if append && first then (callAlone cfg ramdisk p.dev (writeCall append (p.load a l) offset)).2.position.getD out
          else out, false) := by
  cases append <;> cases first <;> rfl

/-- The loop over a list makes the writes of its ranges, and reports what the first of
    them does. -/
theorem listRun_zoned (append : Bool) (es : List (Nat × Nat)) (offset : Nat) (first : Bool) (out : Nat)
    (p : Proc (Zoned (Nat → UInt8))) :
    (listRun (zonedOperations cfg) (writeOpcode append) offset first out p es).1.dev =
        (writeRun cfg append offset p.dev (es.map (fun e => p.load e.1 e.2))).1 ∧
      (listRun (zonedOperations cfg) (writeOpcode append) offset first out p es).2.1 =
        (writeRun cfg append offset p.dev (es.map (fun e => p.load e.1 e.2))).2 ∧
      (listRun (zonedOperations cfg) (writeOpcode append) offset first out p es).2.2 =
        match es with
        | [] => out
        | e :: _ =>
          if append && first then
            (callAlone cfg ramdisk p.dev (writeCall append (p.load e.1 e.2) offset)).2.position.getD out
          else out := by
  induction es generalizing offset first out p with
  | nil => exact ⟨rfl, rfl, rfl⟩
  | cons e es ih =>
    obtain ⟨a, l⟩ := e
    simp only [listRun, listCall_zoned, List.map_cons, writeRun, load_length]
    by_cases hok : (callAlone cfg ramdisk p.dev (writeCall append (p.load a l) offset)).2.status = blkStsOk
    · obtain ⟨hdev, hst, hout⟩ := ih (offset + l) false
        (if append && first then (callAlone cfg ramdisk p.dev (writeCall append (p.load a l) offset)).2.position.getD out
          else out) ⟨p.mem, (callAlone cfg ramdisk p.dev (writeCall append (p.load a l) offset)).1⟩
      rw [if_neg (by simp [hok]), if_pos hok]
      refine ⟨hdev, hst, hout.trans ?_⟩
      cases es <;> simp
    · rw [if_pos (by simp [hok]), if_neg hok]
      exact ⟨rfl, rfl, rfl⟩

theorem callAlone_position {offset : Nat} (hseq : (s.zoneInfo (zoneNumber cfg offset)).conventional = false)
    (append : Bool) (data : List UInt8) :
    (callAlone cfg ramdisk s (writeCall append data offset)).2.position = reported s (zoneNumber cfg offset) append := by
  by_cases hacc : Accepts (s.zoneInfo (zoneNumber cfg offset)) append offset data.length
  · rw [callAlone_accepted hseq hacc]
  · rw [callAlone_refused hseq hacc]

/-- A write or an append in its two forms. -/
theorem zoned_agrees_iff (hconv : cfg.numConventionalZones = 0) {p q : Proc (Zoned (Nat → UInt8))} {k k' : K2u}
    {es : List (Nat × Nat)} (h : TwoForms p q k k' es) (append : Bool) (hop : k.opcode = writeOpcode append)
    (hreg : Regular cfg p.dev) (hend : k.offset + entriesSize es ≤ cfg.numZones * (cfg.zoneSectors * sectorSize))
    {fuel : Nat} (hf : es.length < fuel) :
    ListAgrees (zonedOperations cfg) Zoned.device fuel p q k k' es ↔
      SplitUnnoticed cfg p.dev append k.offset (es.map Prod.snd) := by
  have hread : k.opcode ≠ .read := by
    rw [hop]
    cases append <;> decide
  have hmem : k.opcode ∈ [.read, .write, .zoneAppend] := by
    rw [hop]
    cases append <;> decide
  obtain ⟨⟨a, l⟩, rest, hes⟩ := List.exists_cons_of_ne_nil h.nonempty
  have hdata : (es.map (fun e => p.load e.1 e.2)).flatten = q.load (k'.dataAddress + k'.mappingData) k'.length := by
    rw [h.data hread, Proc.gather, List.flatMap_def]
  have hsizes : (es.map (fun e => p.load e.1 e.2)).map List.length = es.map Prod.snd := by
    rw [List.map_map]
    exact List.map_congr_left (fun e _ => load_length p e.1 e.2)
  have hsec : Sectors (es.map (fun e => p.load e.1 e.2)) := by
    intro d hd
    obtain ⟨e, he, rfl⟩ := List.mem_map.1 hd
    rw [load_length]
    exact h.sectors e he
  have htotal : (es.map (fun e => p.load e.1 e.2)).flatten.length = entriesSize es := by
    rw [hdata, load_length, h.length]
  have hoff : k.offset < cfg.numZones * (cfg.zoneSectors * sectorSize) := by
    have := hsec.flatten_pos (by rw [hes]; simp)
    omega
  have hz := zoneNumber_lt hoff
  obtain ⟨out, hsimple, hout⟩ := h.handle_simple (zonedOperations cfg) fuel hmem
  obtain ⟨hdev, hst, hpos⟩ := @listRun_zoned cfg append es k.offset true 0 p
  rw [hop, listCall_zoned, h.dev, ← hdata] at hsimple hout
  have hlist := h.handle_list (zoned_writesInside cfg) hf
  rw [hop] at hlist
  rw [← hsizes, ← writesAgree_iff hconv hreg hz (by rw [hes]; simp) hsec (by rw [htotal]; exact hend)]
  constructor
  · rintro ⟨x, y, hx, hy, hstatus, hdevice, -⟩
    rw [hlist] at hx
    rw [hsimple] at hy
    cases hx
    cases hy
    rw [hst] at hstatus
    rw [hdev] at hdevice
    exact ⟨hstatus, hdevice⟩
  · rintro ⟨hstatus, hdevice⟩
    refine ⟨_, _, hlist, hsimple, hst.trans hstatus, ?_, fun hr => absurd hr hread, fun happ _ => ?_⟩
    · rw [hdev]
      exact hdevice
    · -- both report the write pointer of the zone
      have hseq := (hreg.1 _ hz).2.2.2
      rw [hout (hop.symm.trans happ), hpos, hes]
      simp only [callAlone_position hseq]

/-- **The two forms of a request.** On the ramdisk a LIST command always ends as the
    SIMPLE one with the same data. On the zoned ramdisk, after any calls run one at a
    time, a read does; a write or an append does exactly where the split goes
    unnoticed. -/
theorem list_dispatch_agrees (hconv : cfg.numConventionalZones = 0) {k k' : K2u} {es : List (Nat × Nat)} {fuel : Nat}
    (hop : k.opcode ∈ [.read, .write, .zoneAppend]) (hf : es.length < fuel) :
    (∀ p q : Proc (Nat → UInt8), TwoForms p q k k' es → ListAgrees ramdiskOperations id fuel p q k k' es) ∧
      ∀ (disk : Nat → UInt8) (p q : Proc (Zoned (Nat → UInt8))), TwoForms p q k k' es →
        Machine.Reach (callStep cfg ramdisk) (fun _ c => c.Valid cfg) (initializeZoned cfg disk) p.dev →
        k.offset + entriesSize es ≤ cfg.numZones * (cfg.zoneSectors * sectorSize) →
        (ListAgrees (zonedOperations cfg) Zoned.device fuel p q k k' es ↔
          k.opcode = .read ∨
            SplitUnnoticed cfg p.dev (decide (k.opcode = .zoneAppend)) k.offset (es.map Prod.snd)) := by
  refine ⟨fun p q h => ramdisk_agrees h hop hf, fun disk p q h hreach hend => ?_⟩
  have hreg := regular_reach hconv hreach
  simp only [List.mem_cons, List.not_mem_nil, or_false] at hop
  rcases hop with hop | hop | hop
  · refine ⟨fun _ => .inl hop, fun _ => ?_⟩
    exact reads_agree (zoned_readsDisk cfg) h (zoned_writesInside cfg) Zoned.device hop hf
  · rw [zoned_agrees_iff hconv h false hop hreg hend hf, hop]
    simp
  · rw [zoned_agrees_iff hconv h true hop hreg hend hf, hop]
    simp

end

/-! ## Two sectors -/

/-- Two ranges of a sector each, and memory that holds the list of them at 4096. -/
def twoRangesList : List (Nat × Nat) := [(8192, 512), (16384, 512)]

def twoRangesMem (a : Nat) : UInt8 :=
  if a = 4097 then 0x20 else if a = 4105 then 2 else if a = 4113 then 0x40 else if a = 4121 then 2 else 0

/-- The write of two sectors at `offset`, in its two forms. -/
def twoSectorsList (offset : Nat) : K2u := ⟨0, .write, offset, 1024, 0, 4096, .list⟩

def twoSectorsSimple (offset : Nat) : K2u := ⟨0, .write, offset, 1024, 0, 8192, .simple⟩

theorem twoRangesMem_zero {a n : Nat} (h : 8192 ≤ a) : Bytes.slice twoRangesMem a n = List.replicate n 0 := by
  refine List.ext_getElem (by simp) (fun i hi _ => ?_)
  simp only [Bytes.slice, List.getElem_map, List.getElem_range, List.getElem_replicate, twoRangesMem]
  rw [if_neg (by omega), if_neg (by omega), if_neg (by omega), if_neg (by omega)]

theorem twoRangesMem_words :
    leWord (fun j => twoRangesMem (4096 + j)) = 8192 ∧ leWord (fun j => twoRangesMem (4104 + j)) = 512 ∧
      leWord (fun j => twoRangesMem (4112 + j)) = 16384 ∧ leWord (fun j => twoRangesMem (4120 + j)) = 512 ∧
      leWord (fun j => twoRangesMem (4128 + j)) = 0 := by
  decide

theorem twoSectors_same {δ : Type} (dev : δ) (offset : Nat) :
    TwoForms ⟨twoRangesMem, dev⟩ ⟨fun _ => 0, dev⟩ (twoSectorsList offset) (twoSectorsSimple offset)
      twoRangesList where
  list := rfl
  simple := rfl
  opcode := rfl
  offset := rfl
  length := rfl
  nonempty := by decide
  sectors := by decide
  entry j a l hj := by
    match j, hj with
    | 0, hj =>
      cases hj
      exact ⟨by decide, twoRangesMem_words.1, twoRangesMem_words.2.1⟩
    | 1, hj =>
      cases hj
      exact ⟨by decide, twoRangesMem_words.2.2.1, twoRangesMem_words.2.2.2.1⟩
  terminator := twoRangesMem_words.2.2.2.2
  apart := by decide
  listApart := (by decide : ∀ e ∈ twoRangesList, e.1 + e.2 ≤ 4096 ∨ 4096 + 16 * 2 + 8 ≤ e.1)
  data _ := by
    have hsimple : (⟨fun _ => 0, dev⟩ : Proc δ).load 8192 1024 = List.replicate 1024 0 := by
      simp [Proc.load, Bytes.slice, List.map_const']
    have hlist : (⟨twoRangesMem, dev⟩ : Proc δ).gather twoRangesList = List.replicate 1024 0 := by
      rw [twoRangesList, gather_cons, gather_cons, Proc.load, Proc.load, twoRangesMem_zero (by decide),
        twoRangesMem_zero (by decide), Proc.gather, List.flatMap_nil, List.append_nil, List.replicate_append_replicate]
    simp only [twoSectorsSimple, Nat.zero_add]
    rw [hsimple, hlist]
  dev := rfl

/-- The zoned ramdisk as it is at first, and after a write of a sector to zone 0. -/
def freshDisk : Zoned (Nat → UInt8) := initializeZoned twoWideZones (fun _ => 0)

def zoneZeroOpen : Zoned (Nat → UInt8) := (callAlone twoWideZones ramdisk freshDisk (.write oneSector 0)).1

/-- On a fresh zoned ramdisk two sectors may be written in two pieces. -/
theorem list_dispatch_agrees_fresh :
    ListAgrees ramdiskOperations id 3 ⟨twoRangesMem, fun _ => 0⟩ ⟨fun _ => 0, fun _ => 0⟩ (twoSectorsList 0)
        (twoSectorsSimple 0) twoRangesList ∧
      ListAgrees (zonedOperations twoWideZones) Zoned.device 3 ⟨twoRangesMem, freshDisk⟩ ⟨fun _ => 0, freshDisk⟩
        (twoSectorsList 0) (twoSectorsSimple 0) twoRangesList := by
  obtain ⟨hramdisk, hzoned⟩ := @list_dispatch_agrees twoWideZones rfl (twoSectorsList 0)
    (twoSectorsSimple 0) twoRangesList 3
    (by decide) (by decide)
  refine ⟨hramdisk _ _ (twoSectors_same _ 0), ?_⟩
  refine (hzoned (fun _ => 0) _ _ (twoSectors_same freshDisk 0) (.refl _) (by decide)).2
    (.inr (.inr (.inr ⟨?_, .inr ⟨?_, ?_⟩⟩)))
  · show Accepts (freshDisk.zoneInfo 0) false 0 1024
    decide
  · intro h
    cases h
  · intro he
    exact absurd he (by decide)

/-- **A split that shows.** Zone 0 is open, and no second zone may be. The plain write of
    two sectors to zone 1 succeeds; of the same write in two pieces the second fails with
    `BLK_STS_ZONE_ACTIVE_RESOURCE`, since the first has left the zone empty and counted
    it as active. -/
theorem list_dispatch_reopens :
    TwoForms ⟨twoRangesMem, zoneZeroOpen⟩ ⟨fun _ => 0, zoneZeroOpen⟩ (twoSectorsList 1024) (twoSectorsSimple 1024)
        twoRangesList ∧
      Machine.Reach (callStep twoWideZones ramdisk) (fun _ c => c.Valid twoWideZones)
        (initializeZoned twoWideZones (fun _ => 0)) zoneZeroOpen ∧
      (twoSectorsList 1024).offset + entriesSize twoRangesList ≤
        twoWideZones.numZones * (twoWideZones.zoneSectors * sectorSize) ∧
      ¬ ListAgrees (zonedOperations twoWideZones) Zoned.device 3 ⟨twoRangesMem, zoneZeroOpen⟩
        ⟨fun _ => 0, zoneZeroOpen⟩
        (twoSectorsList 1024) (twoSectorsSimple 1024) twoRangesList := by
  refine ⟨twoSectors_same _ _, ⟨[.write oneSector 0], .cons (oneSector_valid (by decide)) rfl (.nil _)⟩,
    by decide, ?_⟩
  rintro ⟨x, y, hx, hy, hst, -⟩
  have hlist : (handleBlkCommand (zonedOperations twoWideZones) Proc.word 3 (twoSectorsList 1024)
      ⟨twoRangesMem, zoneZeroOpen⟩).map (fun x => x.2.1) = some blkStsZoneActiveResource := by
    decide +kernel
  have hsimple : (handleBlkCommand (zonedOperations twoWideZones) Proc.word 3 (twoSectorsSimple 1024)
      ⟨fun _ => 0, zoneZeroOpen⟩).map (fun x => x.2.1) = some blkStsOk := by
    decide +kernel
  rw [hx] at hlist
  rw [hy] at hsimple
  simp only [Option.map_some, Option.some.injEq] at hlist hsimple
  rw [hst, hsimple] at hlist
  exact absurd hlist (by decide)

end Bius
