import Bius.ZoneAppends

/- Zone appends in several ranges. The library's threads handle ZONE_APPEND commands:
   for a list command `handle_blk_command_with_datamap_list` calls `append_zone` once
   for each range, and only the first call is given a place for the position. A later
   range is put where the write pointer of its zone then is. So the data of the command
   lies at the reported position if no other append reserves space in the zone between
   the first and the last reservation of the command (`append_contiguous`). A plain
   append is a command with one range. -/
namespace Bius

open Threads Ranges

/-- The local variables of the handler: the command's offset and the data of its
    ranges, how many of them have been appended, and `*out_user_data`. -/
structure ListAppend where
  offset : Nat
  ranges : List (List UInt8)
  next : Nat
  out : Nat

/-- How many bytes the handler has appended. -/
def ListAppend.before (h : ListAppend) : Nat := (h.ranges.take h.next).flatten.length

/-- The threads of the library and the calls they make into the zone emulator. `done`
    lists the replies: the ranges, the status and `*out_user_data`. -/
structure LibSys where
  sys : RamSys
  handler : Nat → Option ListAppend
  done : List (List (List UInt8) × Nat × Nat)

/-- Thread `t` is given a command, or goes on. -/
inductive LibMove where
  | command (t offset : Nat) (ranges : List (List UInt8))
  | go (t : Nat)

def LibMove.thread : LibMove → Nat
  | .command t _ _ => t
  | .go t => t

section
variable (cfg : ZonedConfig)

/-- The handler returns. -/
def LibSys.reply (s : LibSys) (t : Nat) (h : ListAppend) (status : Nat) : LibSys :=
  { s with
    handler := Function.update s.handler t none
    done := s.done ++ [(h.ranges, status, h.out)] }

/-- The handler after a call of `append_zone`. -/
def LibSys.returned (s : LibSys) (t : Nat) (h : ListAppend) (v : ZoneRet) : LibSys :=
  let h := { h with out := if h.next = 0 then v.position.getD h.out else h.out }
  if v.status ≠ blkStsOk then s.reply t h v.status
  else { s with handler := Function.update s.handler t (some { h with next := h.next + 1 }) }

/-- One step, if it is enabled. -/
def libStep (s : LibSys) : LibMove → Option LibSys
  | .command t offset ranges =>
    match s.handler t with
    | some _ => none
    | none => some { s with handler := Function.update s.handler t (some ⟨offset, ranges, 0, 0⟩) }
  | .go t =>
    match s.handler t with
    | none => none
    | some h =>
      match s.sys.thread t with
      | none =>
        match h.ranges[h.next]? with
        | none => some (s.reply t h blkStsOk)
        | some data =>
          (zoneStep cfg ramdisk s.sys (.call t (.append data (h.offset + h.before)))).map
            (fun sys => { s with sys := sys })
      | some r =>
        (zoneStep cfg ramdisk s.sys (.step t)).map (fun sys =>
          match r.prog with
          | .ret v => ({ s with sys := sys } : LibSys).returned t h v
          | _ => { s with sys := sys })

def libInit (disk : Nat → UInt8) : LibSys := ⟨zoneInit cfg disk, fun _ => none, []⟩

/-- A command inside the disk, whose ranges are whole sectors and all start in the zone
    of the command. -/
structure CommandOk (offset : Nat) (ranges : List (List UInt8)) : Prop where
  inside : offset < cfg.numZones * (cfg.zoneSectors * sectorSize)
  sectors : ∀ data ∈ ranges, 0 < data.length ∧ sectorSize ∣ data.length
  zone : ∀ i < ranges.length, (offset + (ranges.take i).flatten.length) / (cfg.zoneSectors * sectorSize) =
    offset / (cfg.zoneSectors * sectorSize)

/-- The call that thread `t` is in has reserved its range in zone `z`. -/
def LibSys.HasReserved (s : LibSys) (t z : Nat) : Prop :=
  ∃ r, s.sys.thread t = some r ∧ ∃ e ∈ s.sys.shared.log z, e.id = r.id

/-- Thread `t` appends to zone `z`, and has reserved some of its ranges but not all. -/
def LibSys.Between (s : LibSys) (t z : Nat) : Prop :=
  ∃ h, s.handler t = some h ∧ zoneNumber cfg h.offset = z ∧ (0 < h.next ∨ s.HasReserved t z) ∧
    (h.next + 1 < h.ranges.length ∨ h.next < h.ranges.length ∧ ¬ s.HasReserved t z)

instance (offset : Nat) (ranges : List (List UInt8)) : Decidable (CommandOk cfg offset ranges) :=
  decidable_of_iff (_ ∧ _ ∧ _) ⟨fun ⟨hin, hsec, hzone⟩ => ⟨hin, hsec, hzone⟩,
    fun h => ⟨h.inside, h.sectors, h.zone⟩⟩

instance (s : LibSys) (t z : Nat) : Decidable (s.HasReserved t z) :=
  inferInstanceAs (Decidable (∃ r ∈ s.sys.thread t, ∃ e ∈ s.sys.shared.log z, e.id = r.id))

instance (s : LibSys) (t z : Nat) : Decidable (s.Between cfg t z) :=
  inferInstanceAs (Decidable (∃ h ∈ s.handler t, _ ∧ (_ ∨ _) ∧ (_ ∨ _ ∧ ¬ _)))

/-- Nobody reserves space in a zone while another append to it is between its first and
    its last reservation. -/
def Undisturbed (s : LibSys) : LibMove → Prop
  | .command _ offset ranges => CommandOk cfg offset ranges
  | .go t => ∀ r zone id offset data k, s.sys.thread t = some r → r.prog = .act (.advance zone id offset data) k →
      ∀ u, u ≠ t → ¬ s.Between cfg u zone

end

variable {cfg : ZonedConfig}

/-! ## What a step of an append does to the table -/

/-- An action of a write leaves the table as it is, or reserves the range behind the
    write pointer. -/
theorem act_table {δ : Type} (raw : RawOps δ) {s : ZoneSys δ} (hst : Stores cfg s) {t : Nat} {r : ZoneCallRun}
    {a : ZoneAct} {k : a.Ans → ZoneProg ZoneRet} (ht : s.thread t = some r) (hp : r.prog = .act a k) {w : WriteArgs}
    (hw : r.call.asWrite = some w) :
    SameTable s.shared (a.sem cfg raw s.shared).1 ∨
      a = .advance (zoneNumber cfg w.offset) r.id ((s.shared.zoneInfo (zoneNumber cfg w.offset)).wp * sectorSize)
        w.data ∧
        Fresh s r.id := by
  have hphase := hst.phase t r ht
  unfold Phase at hphase
  rw [hw] at hphase
  simp only at hphase
  cases hphase with
  | start hstart _ => rw [hp] at hstart; cases hstart
  | stored offset position status hret _ => rw [hp] at hret; cases hret
  | refused hrefuse _ => rw [hp] at hrefuse; exact hrefuse.elim
  | locked hact hown hf =>
    rw [hp] at hact
    cases hact
    exact .inl (.refl _)
  | filling offset position hfill hr hown he hfull =>
    rw [hp] at hfill
    cases a with
    | fullSwitch zone =>
      obtain ⟨rfl, -⟩ := hfill
      have hlen := (hst.table.shape _ (hst.table.lt he)).2.1
      exact .inl (fullSwitch_same (by rw [hlen]; exact hfull))
    | _ => exact hfill.elim
  | reserving offset position hres hr hown hf hoff hroom =>
    rw [hp] at hres
    cases a with
    | openSwitch zone explicit => exact .inl (openSwitch_same cfg _ _ _)
    | closeIfImpOpen zone => exact .inl (closeIfImpOpen_same _ _)
    | advance zone i o d =>
      obtain ⟨rfl, rfl, rfl, rfl, -⟩ := hres
      exact .inr ⟨by rw [hoff], hf⟩
    | _ => exact hres.elim
  | storing offset position hstore hr he =>
    rw [hp] at hstore
    cases a with
    | rawWrite i zone o d => exact .inl (.of_zoneInfo rfl rfl)
    | _ => exact hstore.elim

/-! ## The ranges of a command -/

/-- A range of zone `z` that a successful append has written. -/
def Settled (cfg : ZonedConfig) (s : RamSys) (z : Nat) (e : Reserved) : Prop :=
  e ∈ s.shared.log z ∧ ∃ x ∈ s.done, x.1 = e.id ∧ (∃ w, WritesTo cfg x.2.1 w z) ∧ x.2.2.status = blkStsOk

/-- The ranges, in order, lie one behind the other from `out` on, and have been
    written. -/
def Contiguous (cfg : ZonedConfig) (s : RamSys) (z out : Nat) (ranges : List (List UInt8)) : Prop :=
  ∃ es : List Reserved, es.map Reserved.data = ranges ∧
    Tiles Reserved.pos (fun e => e.data.length) out es (out + ranges.flatten.length) ∧ ∀ e ∈ es, Settled cfg s z e

theorem Settled.held {s : RamSys} {z : Nat} {e : Reserved} (h : Settled cfg s z e) (hst : Stores cfg s)
    (hnum : Sys.Numbered s) (hland : Landed cfg 0 z s) : Held s.shared e := by
  obtain ⟨he, x, hx, hid, ⟨w, hw⟩, hok⟩ := h
  obtain ⟨e', he', hid', -, hheld⟩ := hland.held hnum hx hw (Nat.zero_le _) hok
  obtain ⟨-, rfl⟩ := hst.table.uniq z z e' e he' he (hid'.trans hid)
  exact hheld

theorem Settled.mono {s s' : RamSys} {z : Nat} {e : Reserved} (h : Settled cfg s z e)
    (hlog : ∀ e ∈ s.shared.log z, e ∈ s'.shared.log z) (hdone : ∀ x ∈ s.done, x ∈ s'.done) :
      Settled cfg s' z e := by
  obtain ⟨he, x, hx, hrest⟩ := h
  exact ⟨hlog e he, x, hdone x hx, hrest⟩

theorem Contiguous.mono {s s' : RamSys} {z out : Nat} {ranges : List (List UInt8)} (h : Contiguous cfg s z out ranges)
    (hlog : ∀ e ∈ s.shared.log z, e ∈ s'.shared.log z) (hdone : ∀ x ∈ s.done, x ∈ s'.done) :
    Contiguous cfg s' z out ranges := by
  obtain ⟨es, hmap, htiles, hes⟩ := h
  exact ⟨es, hmap, htiles, fun e he => (hes e he).mono hlog hdone⟩

theorem Contiguous.snoc {s : RamSys} {z out : Nat} {ranges : List (List UInt8)} (h : Contiguous cfg s z out ranges)
    {e : Reserved} (he : Settled cfg s z e) (hpos : e.pos = out + ranges.flatten.length) :
    Contiguous cfg s z out (ranges ++ [e.data]) := by
  obtain ⟨es, hmap, htiles, hes⟩ := h
  refine ⟨es ++ [e], by rw [List.map_append, hmap, List.map_singleton], ?_, fun e' he' => ?_⟩
  · have hsnoc := htiles.snoc hpos
    rwa [Nat.add_assoc, show ranges.flatten.length + e.data.length = (ranges ++ [e.data]).flatten.length by simp] at hsnoc
  · rcases List.mem_append.1 he' with he' | he'
    · exact hes e' he'
    · rw [List.mem_singleton.1 he']
      exact he

theorem Contiguous.slice {s : RamSys} {z out : Nat} {ranges : List (List UInt8)} (h : Contiguous cfg s z out ranges)
    (hst : Stores cfg s) (hnum : Sys.Numbered s) (hland : Landed cfg 0 z s) :
    Bytes.slice s.shared.raw out ranges.flatten.length = ranges.flatten := by
  obtain ⟨es, rfl, htiles, hes⟩ := h
  generalize out + (es.map Reserved.data).flatten.length = hi at htiles
  induction es generalizing out with
  | nil => rfl
  | cons e es ih =>
    obtain ⟨rfl, htiles⟩ := htiles
    have hheld := (hes e (by simp)).held hst hnum hland
    have hrest := ih (fun e' he' => hes e' (by simp [he'])) htiles
    rw [List.map_cons, List.flatten_cons, List.length_append, Bytes.slice_add, hrest, hheld]

/-! ## Where a handler is -/

/-- The handler `h` of thread `t`: the call it is in, the ranges it has written, and
    where the write pointer of its zone is while it is between its first and its last
    reservation. -/
structure Handling (cfg : ZonedConfig) (s : RamSys) (t : Nat) (h : ListAppend) : Prop where
  ok : CommandOk cfg h.offset h.ranges
  le : h.next ≤ h.ranges.length
  call : ∀ r, s.thread t = some r →
    ∃ data, h.ranges[h.next]? = some data ∧ r.call = .append data (h.offset + h.before)
  written : Contiguous cfg s (zoneNumber cfg h.offset) h.out (h.ranges.take h.next)
  here : ∀ r e, s.thread t = some r → e ∈ s.shared.log (zoneNumber cfg h.offset) → e.id = r.id →
    (0 < h.next → e.pos = h.out + h.before) ∧
    (h.next + 1 < h.ranges.length →
      (s.shared.zoneInfo (zoneNumber cfg h.offset)).wp * sectorSize = e.pos + e.data.length)
  behind : 0 < h.next → h.next < h.ranges.length →
    (∀ r, s.thread t = some r → ∀ e ∈ s.shared.log (zoneNumber cfg h.offset), e.id ≠ r.id) →
    (s.shared.zoneInfo (zoneNumber cfg h.offset)).wp * sectorSize = h.out + h.before

theorem Handling.zone {s : RamSys} {t : Nat} {h : ListAppend} (hh : Handling cfg s t h) (hlt : h.next < h.ranges.length) :
    zoneNumber cfg (h.offset + h.before) = zoneNumber cfg h.offset := by
  unfold zoneNumber ListAppend.before
  rw [hh.ok.zone h.next hlt]

theorem Handling.allowed {s : RamSys} {t : Nat} {h : ListAppend} (hh : Handling cfg s t h) {data : List UInt8}
    (hdata : h.ranges[h.next]? = some data) : (ZoneCall.append data (h.offset + h.before)).Allowed cfg := by
  have hlt := (List.getElem?_eq_some_iff.1 hdata).1
  have hpos : 0 < cfg.zoneSectors * sectorSize := Nat.mul_pos cfg.sectors_pos (by decide)
  refine ⟨⟨?_, hh.ok.sectors data (List.mem_of_getElem? hdata)⟩, fun _ hc => by cases hc⟩
  rw [← Nat.div_lt_iff_lt_mul hpos]
  unfold ListAppend.before
  rw [hh.ok.zone h.next hlt, Nat.div_lt_iff_lt_mul hpos]
  exact hh.ok.inside

/-- Thread `t` is in the same call. -/
def SameCall (s s' : RamSys) (t : Nat) : Prop :=
  (s'.thread t).map (fun r => (r.id, r.call)) = (s.thread t).map (fun r => (r.id, r.call))

section
variable {s s' : RamSys} {t : Nat}

theorem SameCall.back (h : SameCall s s' t) {r' : ZoneCallRun} (hr' : s'.thread t = some r') :
    ∃ r, s.thread t = some r ∧ r.id = r'.id ∧ r.call = r'.call := by
  rw [SameCall, hr', Option.map_some] at h
  obtain ⟨r, hr, heq⟩ := Option.map_eq_some_iff.1 h.symm
  exact ⟨r, hr, congrArg Prod.fst heq, congrArg Prod.snd heq⟩

theorem SameCall.forth (h : SameCall s s' t) {r : ZoneCallRun} (hr : s.thread t = some r) :
    ∃ r', s'.thread t = some r' ∧ r'.id = r.id := by
  rw [SameCall, hr, Option.map_some] at h
  obtain ⟨r', hr', heq⟩ := Option.map_eq_some_iff.1 h
  exact ⟨r', hr', congrArg Prod.fst heq⟩

theorem SameCall.none (h : SameCall s s' t) (ht : s.thread t = none) : s'.thread t = none := by
  rwa [SameCall, ht, Option.map_none, Option.map_eq_none_iff] at h

theorem SameCall.goOn {u : Nat} {r : ZoneCallRun} (hu : s.thread u = some r) (x : Zoned (Nat → UInt8))
    (own : ZoneLock → Option Nat) (p : ZoneProg ZoneRet) (t : Nat) :
    SameCall s (Sys.goOn { s with shared := x, owner := own } u r p) t := by
  unfold SameCall
  by_cases htu : t = u
  · subst htu
    simp [Sys.goOn, hu]
  · simp [Sys.goOn, htu]

/-- What others must leave alone for a handler to be where it was. -/
theorem Handling.frame {h : ListAppend} (hh : Handling cfg s t h) (hcall : SameCall s s' t)
    (hlog : s'.shared.log (zoneNumber cfg h.offset) = s.shared.log (zoneNumber cfg h.offset))
    (hwp : (s'.shared.zoneInfo (zoneNumber cfg h.offset)).wp = (s.shared.zoneInfo (zoneNumber cfg h.offset)).wp)
    (hdone : ∀ x ∈ s.done, x ∈ s'.done) : Handling cfg s' t h := by
  refine ⟨hh.ok, hh.le, fun r' hr' => ?_, hh.written.mono (fun e he => hlog ▸ he) hdone, fun r' e hr' he hid => ?_,
    fun hpos hlt hnone => ?_⟩
  · obtain ⟨r, hr, -, heq⟩ := hcall.back hr'
    exact heq ▸ hh.call r hr
  · obtain ⟨r, hr, hrid, -⟩ := hcall.back hr'
    rw [hwp]
    exact hh.here r e hr (hlog ▸ he) (hid.trans hrid.symm)
  · rw [hwp]
    refine hh.behind hpos hlt (fun r hr e he => ?_)
    obtain ⟨r', hr', hid⟩ := hcall.forth hr
    rw [← hid]
    exact hnone r' hr' e (hlog ▸ he)

end

/-- A step within a call: nobody enters or leaves a call, and the shared state changes
    only as an action says. -/
theorem step_within {s s' : RamSys} {t : Nat} {r : ZoneCallRun} (ht : s.thread t = some r)
    (hp : ∀ v, r.prog ≠ .ret v) (hs : zoneStep cfg ramdisk s (.step t) = some s') :
    (∀ u, SameCall s s' u) ∧ s'.done = s.done ∧
      s'.shared = match r.prog with
        | .act a _ => (a.sem cfg ramdisk s.shared).1
        | _ => s.shared := by
  cases Sys.step_cases _ _ hs with
  | ret t r' v ht' hp' =>
    rw [ht] at ht'
    cases ht'
    exact absurd hp' (hp v)
  | lock t r' l k ht' hp' ho =>
    rw [ht] at ht'
    cases ht'
    exact ⟨fun u => .goOn ht _ _ _ u, rfl, by rw [hp']; rfl⟩
  | unlock t r' l k ht' hp' =>
    rw [ht] at ht'
    cases ht'
    exact ⟨fun u => .goOn ht _ _ _ u, rfl, by rw [hp']; rfl⟩
  | act t r' a k ht' hp' =>
    rw [ht] at ht'
    cases ht'
    exact ⟨fun u => .goOn ht _ _ _ u, rfl, by rw [hp']; rfl⟩

/-! ## Reservations -/

/-- Call `id` has reserved a range for `data` in zone `z`. -/
structure Reserves (s s' : RamSys) (z id : Nat) (data : List UInt8) : Prop where
  calls : ∀ t, SameCall s s' t
  done : s'.done = s.done
  log : ∀ y, s'.shared.log y =
    if y = z then s.shared.log y ++ [⟨id, (s.shared.zoneInfo z).wp * sectorSize, data⟩] else s.shared.log y
  wp : ∀ y, (s'.shared.zoneInfo y).wp =
    if y = z then (s.shared.zoneInfo y).wp + data.length / sectorSize else (s.shared.zoneInfo y).wp

theorem step_reserves {s s' : RamSys} {t z : Nat} {r : ZoneCallRun} {data : List UInt8} {k : Bool → ZoneProg ZoneRet}
    (ht : s.thread t = some r)
    (hp : r.prog = .act (.advance z r.id ((s.shared.zoneInfo z).wp * sectorSize) data) k)
    (hs : zoneStep cfg ramdisk s (.step t) = some s') : Reserves s s' z r.id data := by
  obtain ⟨hcalls, hdone, hshared⟩ := step_within ht (fun v hv => by rw [hp] at hv; cases hv) hs
  rw [hp] at hshared
  refine ⟨hcalls, hdone, fun y => ?_, fun y => ?_⟩
  · rw [hshared]
    simp only [ZoneAct.sem, advance, Function.update_apply]
    split
    · next hy => rw [hy]
    · rfl
  · rw [hshared]
    simp only [ZoneAct.sem, advance, Zoned.setZone, Function.update_apply]
    split
    · next hy => rw [hy]
    · rfl

section
variable {s s' : RamSys} {z id : Nat} {data : List UInt8} (hr : Reserves s s' z id data)
include hr

theorem Reserves.grows (y : Nat) {e : Reserved} (he : e ∈ s.shared.log y) : e ∈ s'.shared.log y := by
  rw [hr.log]
  split
  · exact List.mem_append_left _ he
  · exact he

theorem Reserves.new : ⟨id, (s.shared.zoneInfo z).wp * sectorSize, data⟩ ∈ s'.shared.log z := by
  rw [hr.log, if_pos rfl]
  exact List.mem_append_right _ (List.mem_singleton.2 rfl)

theorem Reserves.old {y : Nat} {e : Reserved} (he : e ∈ s'.shared.log y) (hid : e.id ≠ id) : e ∈ s.shared.log y := by
  rw [hr.log] at he
  split at he
  · rcases List.mem_append.1 he with he | he
    · exact he
    · rw [List.mem_singleton.1 he] at hid
      exact absurd rfl hid
  · exact he

/-- Another thread's reservation, while the handler is not between its first and its
    last one. -/
theorem Handling.reserved_other {t : Nat} {h : ListAppend} (hh : Handling cfg s t h)
    (hid : ∀ r, s.thread t = some r → r.id ≠ id)
    (hnot : zoneNumber cfg h.offset = z → ¬ ((0 < h.next ∨ ∃ r, s.thread t = some r ∧
      ∃ e ∈ s.shared.log z, e.id = r.id) ∧
      (h.next + 1 < h.ranges.length ∨
        h.next < h.ranges.length ∧ ¬ ∃ r, s.thread t = some r ∧ ∃ e ∈ s.shared.log z, e.id = r.id))) :
    Handling cfg s' t h := by
  have hdone : ∀ x ∈ s.done, x ∈ s'.done := fun x hx => by rw [hr.done]; exact hx
  by_cases hz : zoneNumber cfg h.offset = z
  · have hnot := hnot hz
    subst hz
    refine ⟨hh.ok, hh.le, fun r' hr' => ?_, hh.written.mono (fun e he => hr.grows _ he) hdone,
      fun r' e hr' he heq => ?_, fun hpos hlt hnone => ?_⟩
    · obtain ⟨r, hrun, -, hcall⟩ := (hr.calls t).back hr'
      exact hcall ▸ hh.call r hrun
    · obtain ⟨r, hrun, hrid, -⟩ := (hr.calls t).back hr'
      have heq' : e.id = r.id := heq.trans hrid.symm
      have hold := hr.old he (heq' ▸ hid r hrun)
      exact ⟨(hh.here r e hrun hold heq').1,
        fun hmore => absurd ⟨.inr ⟨r, hrun, e, hold, heq'⟩, .inl hmore⟩ hnot⟩
    · refine absurd ⟨.inl hpos, .inr ⟨hlt, ?_⟩⟩ hnot
      rintro ⟨r, hrun, e, he, heq⟩
      obtain ⟨r', hr', hrid⟩ := (hr.calls t).forth hrun
      exact hnone r' hr' e (hr.grows _ he) (heq.trans hrid.symm)
  · exact hh.frame (hr.calls t) (by rw [hr.log, if_neg hz]) (by rw [hr.wp, if_neg hz]) hdone

/-- The handler's own reservation: it is where the range before it ended. -/
theorem Handling.reserved_own {t : Nat} {h : ListAppend} (hh : Handling cfg s t h) {r : ZoneCallRun}
    (ht : s.thread t = some r) (hid : r.id = id) (hz : zoneNumber cfg h.offset = z)
    (hdata : h.ranges[h.next]? = some data) (hfresh : Fresh s id) : Handling cfg s' t h := by
  subst hid hz
  have hlt := (List.getElem?_eq_some_iff.1 hdata).1
  have hdvd := (hh.ok.sectors data (List.mem_of_getElem? hdata)).2
  refine ⟨hh.ok, hh.le, fun r' hr' => ?_, hh.written.mono (fun e he => hr.grows _ he)
    (fun x hx => by rw [hr.done]; exact hx), fun r' e hr' he heq => ?_, fun _ _ hnone => ?_⟩
  · obtain ⟨r₀, hrun, -, hcall⟩ := (hr.calls t).back hr'
    exact hcall ▸ hh.call r₀ hrun
  · obtain ⟨r₀, hrun, hrid, -⟩ := (hr.calls t).back hr'
    rw [ht] at hrun
    cases hrun
    -- there is no older range of this call
    have hnew : e = ⟨r.id, (s.shared.zoneInfo (zoneNumber cfg h.offset)).wp * sectorSize, data⟩ := by
      rw [hr.log, if_pos rfl] at he
      rcases List.mem_append.1 he with he | he
      · exact absurd (heq.trans hrid.symm) (hfresh _ e he)
      · exact List.mem_singleton.1 he
    subst hnew
    refine ⟨fun hpos => ?_, fun _ => ?_⟩
    · refine hh.behind hpos hlt (fun r₁ hr₁ e he => ?_)
      rw [ht] at hr₁
      cases hr₁
      exact hfresh _ e he
    · rw [hr.wp, if_pos rfl, Nat.add_mul, Nat.div_mul_cancel hdvd]
  · obtain ⟨r', hr', hrid⟩ := (hr.calls t).forth ht
    exact absurd hrid.symm (hnone r' hr' _ hr.new)

end

/-! ## Returns -/

/-- Thread `t` returns from its call. -/
structure Returns (s s' : RamSys) (t : Nat) (r : ZoneCallRun) (v : ZoneRet) : Prop where
  thread : s'.thread = Function.update s.thread t none
  shared : s'.shared = s.shared
  done : s'.done = s.done ++ [(r.id, r.call, v)]

theorem step_returns {s s' : RamSys} {t : Nat} {r : ZoneCallRun} {v : ZoneRet} (ht : s.thread t = some r)
    (hp : r.prog = .ret v) (hs : zoneStep cfg ramdisk s (.step t) = some s') : Returns s s' t r v := by
  cases Sys.step_cases _ _ hs with
  | ret t r' v' ht' hp' =>
    rw [ht] at ht'
    cases ht'
    rw [hp] at hp'
    cases hp'
    exact ⟨rfl, rfl, rfl⟩
  | lock t r' l k' ht' hp' => rw [ht] at ht'; cases ht'; rw [hp] at hp'; cases hp'
  | unlock t r' l k' ht' hp' => rw [ht] at ht'; cases ht'; rw [hp] at hp'; cases hp'
  | act t r' e k' ht' hp' => rw [ht] at ht'; cases ht'; rw [hp] at hp'; cases hp'

theorem Returns.idle {s s' : RamSys} {t : Nat} {r : ZoneCallRun} {v : ZoneRet} (h : Returns s s' t r v) :
    s'.thread t = none := by
  rw [h.thread, Function.update_self]

theorem Returns.keeps {s s' : RamSys} {t : Nat} {r : ZoneCallRun} {v : ZoneRet} (h : Returns s s' t r v)
    {x : Nat × ZoneCall × ZoneRet} (hx : x ∈ s.done) : x ∈ s'.done := by
  rw [h.done]
  exact List.mem_append_left _ hx

/-- A range has been appended, and the next one is still to come. -/
theorem Handling.returned {s s' : RamSys} {t : Nat} {g : ListAppend} {r : ZoneCallRun} {v : ZoneRet}
    (hg : Handling cfg s t g) (hnum : Sys.Numbered s') (hland : Landed cfg 0 (zoneNumber cfg g.offset) s')
    (ht : s.thread t = some r) (hret : Returns s s' t r v) (hstatus : v.status = blkStsOk) :
    Handling cfg s' t
      { g with out := if g.next = 0 then v.position.getD g.out else g.out, next := g.next + 1 } := by
  obtain ⟨data, hdata, hcall⟩ := hg.call r ht
  have hlt := (List.getElem?_eq_some_iff.1 hdata).1
  -- the range of the call
  have hmem : (r.id, r.call, v) ∈ s'.done := by rw [hret.done]; simp
  have hwrites : WritesTo cfg r.call ⟨data, g.offset + g.before, true⟩ (zoneNumber cfg g.offset) := by
    rw [hcall]
    exact ⟨rfl, hg.zone hlt⟩
  obtain ⟨e, he, hid, ⟨-, hedata, hrep⟩, -⟩ := hland.held hnum hmem hwrites (Nat.zero_le _) hstatus
  have hedata : e.data = data := hedata
  have hpos : v.position = some e.pos := hrep
  have hsettled : Settled cfg s' (zoneNumber cfg g.offset) e := ⟨he, _, hmem, hid.symm, ⟨_, hwrites⟩, hstatus⟩
  obtain ⟨hat, hptr⟩ := hg.here r e ht (hret.shared ▸ he) hid
  have htake : g.ranges.take (g.next + 1) = g.ranges.take g.next ++ [data] := by
    rw [List.getElem?_eq_getElem hlt] at hdata
    rw [List.take_succ_eq_append_getElem hlt, Option.some.inj hdata]
  have hwritten : Contiguous cfg s' (zoneNumber cfg g.offset) g.out (g.ranges.take g.next) :=
    hg.written.mono (fun e he => by rw [hret.shared]; exact he) (fun x hx => hret.keeps hx)
  -- it is behind the others; the first one is where the command reports it
  have hout : e.pos = (if g.next = 0 then v.position.getD g.out else g.out) + g.before ∧
      Contiguous cfg s' (zoneNumber cfg g.offset) (if g.next = 0 then v.position.getD g.out else g.out)
        (g.ranges.take g.next) := by
    by_cases hzero : g.next = 0
    · rw [if_pos hzero, hpos, ListAppend.before, hzero]
      exact ⟨rfl, [], rfl, rfl, fun _ h => by cases h⟩
    · rw [if_neg hzero]
      exact ⟨hat (by omega), hwritten⟩
  refine ⟨hg.ok, hlt, fun r' hr' => ?_, ?_, fun r' e' hr' => ?_, fun _ hmore _ => ?_⟩
  · rw [hret.idle] at hr'
    cases hr'
  · dsimp only
    rw [htake, ← hedata]
    exact hout.2.snoc hsettled hout.1
  · rw [hret.idle] at hr'
    cases hr'
  · dsimp only at hmore ⊢
    rw [hret.shared, hptr hmore, hout.1, hedata, Nat.add_assoc]
    simp only [ListAppend.before, htake, List.flatten_append, List.length_append, List.flatten_cons, List.flatten_nil,
      List.append_nil]

/-! ## Every step -/

/-- What holds in every state. -/
structure LibInv (cfg : ZonedConfig) (disk : Nat → UInt8) (s : LibSys) : Prop where
  inner : Machine.Reach (zoneStep cfg ramdisk) (fun _ => NoResets cfg) (zoneInit cfg disk) s.sys
  handling : ∀ t h, s.handler t = some h → Handling cfg s.sys t h
  idle : ∀ t, s.handler t = none → s.sys.thread t = none
  finished : ∀ x ∈ s.done, x.2.1 = blkStsOk → ∃ z, Contiguous cfg s.sys z x.2.2 x.1

section
variable {disk : Nat → UInt8} {s s' : LibSys}

theorem noResets_step {t : Nat} : NoResets cfg (.step t) := by
  intro u c hm
  cases hm

/-- A step within a call that leaves the reservations and the write pointers alone. -/
theorem LibInv.quiet (h : LibInv cfg disk s) {t : Nat} {sys : RamSys}
    (hs : zoneStep cfg ramdisk s.sys (.step t) = some sys) (hcalls : ∀ u, SameCall s.sys sys u)
    (hsame : SameTable s.sys.shared sys.shared) (hdone : sys.done = s.sys.done) :
    LibInv cfg disk { s with sys := sys } := by
  have hlog : ∀ z, sys.shared.log z = s.sys.shared.log z := fun z => congrFun hsame.2 z
  have hwp : ∀ z, (sys.shared.zoneInfo z).wp = (s.sys.shared.zoneInfo z).wp := fun z => by rw [hsame.1 z]
  have hkeep : ∀ x ∈ s.sys.done, x ∈ sys.done := fun x hx => hdone ▸ hx
  refine ⟨h.inner.snoc noResets_step hs, fun u g hu => ?_, fun u hu => (hcalls u).none (h.idle u hu),
    fun x hx hok => ?_⟩
  · exact (h.handling u g hu).frame (hcalls u) (hlog _) (hwp _) hkeep
  · obtain ⟨z, hz⟩ := h.finished x hx hok
    exact ⟨z, hz.mono (fun e he => by rw [hlog]; exact he) hkeep⟩

theorem LibInv.reserve (h : LibInv cfg disk s) (hconv : cfg.numConventionalZones = 0) {t : Nat} {g : ListAppend}
    (hg : s.handler t = some g) {r : ZoneCallRun} {data : List UInt8} (ht : s.sys.thread t = some r)
    (hdata : g.ranges[g.next]? = some data) {k : Bool → ZoneProg ZoneRet}
    (hp : r.prog = .act (.advance (zoneNumber cfg g.offset) r.id
      ((s.sys.shared.zoneInfo (zoneNumber cfg g.offset)).wp * sectorSize) data) k)
    (hfresh : Fresh s.sys r.id) (hok : Undisturbed cfg s (.go t)) {sys : RamSys}
    (hs : zoneStep cfg ramdisk s.sys (.step t) = some sys) : LibInv cfg disk { s with sys := sys } := by
  obtain ⟨-, hnum, -⟩ := noResets_reach hconv h.inner 0
  have hr := step_reserves ht hp hs
  refine ⟨h.inner.snoc noResets_step hs, fun u q hu => ?_, fun u hu => (hr.calls u).none (h.idle u hu),
    fun x hx hst => ?_⟩
  · have hq := h.handling u q hu
    by_cases hut : u = t
    · subst hut
      rw [hg] at hu
      cases hu
      exact hq.reserved_own hr ht rfl rfl hdata hfresh
    · refine hq.reserved_other hr (fun r' hr' heq => hut (hnum.inj u t r' r hr' ht heq)) (fun hz hbetween => ?_)
      exact hok r _ _ _ _ k ht hp u hut ⟨q, hu, hz, hbetween⟩
  · obtain ⟨z, hz⟩ := h.finished x hx hst
    exact ⟨z, hz.mono (fun e he => hr.grows z he) (fun y hy => by rw [hr.done]; exact hy)⟩

theorem LibInv.handle (h : LibInv cfg disk s) {t : Nat} {x : Option ListAppend}
    {ys : List (List (List UInt8) × Nat × Nat)} (hx : ∀ g, x = some g → Handling cfg s.sys t g)
    (hnone : x = none → s.sys.thread t = none)
    (hys : ∀ y ∈ ys, y.2.1 = blkStsOk → ∃ z, Contiguous cfg s.sys z y.2.2 y.1) :
    LibInv cfg disk { s with handler := Function.update s.handler t x, done := s.done ++ ys } := by
  refine ⟨h.inner, fun u g hu => ?_, fun u hu => ?_, fun y hy hok => ?_⟩
  · simp only [Function.update_apply] at hu
    split at hu
    · next heq => exact heq ▸ hx g hu
    · exact h.handling u g hu
  · simp only [Function.update_apply] at hu
    split at hu
    · next heq => exact heq ▸ hnone hu
    · exact h.idle u hu
  · rcases List.mem_append.1 hy with hy | hy
    · exact h.finished y hy hok
    · exact hys y hy hok

theorem LibInv.call (h : LibInv cfg disk s) (hconv : cfg.numConventionalZones = 0) {t : Nat} {g : ListAppend}
    (hg : s.handler t = some g) (ht : s.sys.thread t = none) {data : List UInt8} (hdata : g.ranges[g.next]? = some data)
    {sys : RamSys} (hs : zoneStep cfg ramdisk s.sys (.call t (.append data (g.offset + g.before))) = some sys) :
    LibInv cfg disk { s with sys := sys } := by
  obtain ⟨hst, -, -⟩ := noResets_reach hconv h.inner 0
  have hg' := h.handling t g hg
  have hmove : NoResets cfg (.call t (.append data (g.offset + g.before))) := by
    intro u c hm
    cases hm
    exact ⟨hg'.allowed hdata, fun z hz => hz⟩
  cases Sys.step_cases _ _ hs with
  | call t c hnone =>
    refine ⟨h.inner.snoc hmove hs, fun u q hu => ?_, fun u hu => ?_, h.finished⟩
    · by_cases hut : u = t
      · subst hut
        rw [hg] at hu
        cases hu
        refine ⟨hg'.ok, hg'.le, fun r hr => ?_, hg'.written, fun r e hr he hid => ?_, fun hpos hlt _ => ?_⟩
        · simp only [Function.update_self, Option.some.injEq] at hr
          subst hr
          exact ⟨data, hdata, rfl⟩
        · simp only [Function.update_self, Option.some.injEq] at hr
          subst hr
          exact absurd hid (Nat.ne_of_lt (hst.logged _ e he))
        · refine hg'.behind hpos hlt (fun r hr => ?_)
          rw [ht] at hr
          cases hr
      · exact (h.handling u q hu).frame (by simp [SameCall, hut]) rfl rfl (fun x hx => hx)
    · have hut : u ≠ t := fun heq => by rw [heq, hg] at hu; cases hu
      dsimp only
      rw [Function.update_of_ne hut]
      exact h.idle u hu

theorem LibInv.return (h : LibInv cfg disk s) (hconv : cfg.numConventionalZones = 0) {t : Nat} {g : ListAppend}
    (hg : s.handler t = some g) {r : ZoneCallRun} {v : ZoneRet} (ht : s.sys.thread t = some r) (hp : r.prog = .ret v)
    {sys : RamSys} (hs : zoneStep cfg ramdisk s.sys (.step t) = some sys) :
    LibInv cfg disk (({ s with sys := sys } : LibSys).returned t g v) := by
  have hret := step_returns ht hp hs
  have hreach := h.inner.snoc noResets_step hs
  have hothers : ∀ u q, u ≠ t → s.handler u = some q → Handling cfg sys u q := fun u q hut hu =>
    (h.handling u q hu).frame (by rw [SameCall, hret.thread, Function.update_of_ne hut]) (by rw [hret.shared])
      (by rw [hret.shared]) (fun x hx => hret.keeps hx)
  have hidle : ∀ u, u ≠ t → s.handler u = none → sys.thread u = none := fun u hut hu => by
    rw [hret.thread, Function.update_of_ne hut]
    exact h.idle u hu
  have hfinished : ∀ x ∈ s.done, x.2.1 = blkStsOk → ∃ z, Contiguous cfg sys z x.2.2 x.1 := by
    intro x hx hok
    obtain ⟨z, hz⟩ := h.finished x hx hok
    exact ⟨z, hz.mono (fun e he => by rw [hret.shared]; exact he) (fun x hx => hret.keeps hx)⟩
  unfold LibSys.returned
  dsimp only
  split
  · next hstatus =>
    refine ⟨hreach, fun u q hu => ?_, fun u hu => ?_, fun x hx hok => ?_⟩
    · simp only [LibSys.reply, Function.update_apply] at hu
      split at hu
      · cases hu
      · next hut => exact hothers u q hut hu
    · by_cases hut : u = t
      · subst hut
        exact hret.idle
      · exact hidle u hut (by simpa [LibSys.reply, hut] using hu)
    · rcases List.mem_append.1 hx with hx | hx
      · exact hfinished x hx hok
      · rw [List.mem_singleton.1 hx] at hok
        exact absurd hok hstatus
  · next hstatus =>
    rw [not_not] at hstatus
    obtain ⟨-, hnum, hland⟩ := noResets_reach hconv hreach (zoneNumber cfg g.offset)
    refine ⟨hreach, fun u q hu => ?_, fun u hu => ?_, hfinished⟩
    · by_cases hut : u = t
      · subst hut
        simp only [Function.update_self, Option.some.injEq] at hu
        subst hu
        exact (h.handling u g hg).returned hnum hland ht hret hstatus
      · exact hothers u q hut (by simpa [hut] using hu)
    · have hut : u ≠ t := by
        intro heq
        subst heq
        simp at hu
      exact hidle u hut (by simpa [hut] using hu)

theorem libInv_step (h : LibInv cfg disk s) (hconv : cfg.numConventionalZones = 0) {m : LibMove}
    (hok : Undisturbed cfg s m) (hs : libStep cfg s m = some s') : LibInv cfg disk s' := by
  cases m with
  | command t offset ranges =>
    simp only [libStep] at hs
    split at hs
    · cases hs
    · next hnone =>
      cases hs
      have hthread := h.idle t hnone
      have hnew : Handling cfg s.sys t ⟨offset, ranges, 0, 0⟩ := by
        refine ⟨hok, Nat.zero_le _, fun r hr => ?_, ⟨[], rfl, rfl, fun _ he => by cases he⟩, fun r e hr => ?_,
          fun hpos => ?_⟩
        · rw [hthread] at hr; cases hr
        · rw [hthread] at hr; cases hr
        · exact absurd hpos (Nat.lt_irrefl 0)
      have hadd : LibInv cfg disk
          { s with handler := Function.update s.handler t (some ⟨offset, ranges, 0, 0⟩), done := s.done ++ [] } :=
        h.handle (fun g hg => by cases hg; exact hnew) (fun hx => by cases hx) (fun y hy => by cases hy)
      rwa [List.append_nil] at hadd
  | go t =>
    simp only [libStep] at hs
    split at hs
    · cases hs
    · next g hg =>
      have hg' := h.handling t g hg
      split at hs
      · next ht =>
        split at hs
        · next hend =>
          cases hs
          refine h.handle (fun g hg => by cases hg) (fun _ => ht) (fun y hy _ => ?_)
          rw [List.mem_singleton.1 hy]
          have hwritten := hg'.written
          rw [List.take_of_length_le (List.getElem?_eq_none_iff.1 hend)] at hwritten
          exact ⟨_, hwritten⟩
        · next data hdata =>
          rw [Option.map_eq_some_iff] at hs
          obtain ⟨sys, hsys, rfl⟩ := hs
          exact h.call hconv hg ht hdata hsys
      · next r ht =>
        rw [Option.map_eq_some_iff] at hs
        obtain ⟨sys, hsys, rfl⟩ := hs
        obtain ⟨hst, -, -⟩ := noResets_reach hconv h.inner 0
        cases hp : r.prog with
        | ret v => exact h.return hconv hg ht hp hsys
        | lock l k =>
          obtain ⟨hcalls, hdone, hshared⟩ := step_within ht (fun v hv => by rw [hp] at hv; cases hv) hsys
          rw [hp] at hshared
          exact h.quiet hsys hcalls (.of_zoneInfo (by rw [hshared]) (by rw [hshared])) hdone
        | unlock l k =>
          obtain ⟨hcalls, hdone, hshared⟩ := step_within ht (fun v hv => by rw [hp] at hv; cases hv) hsys
          rw [hp] at hshared
          exact h.quiet hsys hcalls (.of_zoneInfo (by rw [hshared]) (by rw [hshared])) hdone
        | act a k =>
          obtain ⟨data, hdata, hcall⟩ := hg'.call r ht
          have hzone := hg'.zone (List.getElem?_eq_some_iff.1 hdata).1
          rcases act_table ramdisk hst ht hp (w := ⟨data, g.offset + g.before, true⟩) (by rw [hcall]; rfl) with
            hsame | ⟨rfl, hfresh⟩
          · obtain ⟨hcalls, hdone, hshared⟩ := step_within ht (fun v hv => by rw [hp] at hv; cases hv) hsys
            rw [hp] at hshared
            exact h.quiet hsys hcalls (hshared ▸ hsame) hdone
          · dsimp only at hp
            rw [hzone] at hp
            exact h.reserve hconv hg ht hdata hp hfresh hok hsys

theorem libInv_reach (hconv : cfg.numConventionalZones = 0)
    (h : Machine.Reach (libStep cfg) (Undisturbed cfg) (libInit cfg disk) s) : LibInv cfg disk s := by
  refine h.inv (fun _ _ _ hi hok hs => libInv_step hi hconv hok hs) ⟨.refl _, fun t g ht => ?_, fun _ _ => rfl,
    fun x hx => ?_⟩
  · cases ht
  · cases hx

/-- **A zone append is contiguous at its reported position**, in every run in which
    nobody reserves space in a zone while another append to it is between its first and
    its last reservation. -/
theorem append_contiguous (hconv : cfg.numConventionalZones = 0)
    (h : Machine.Reach (libStep cfg) (Undisturbed cfg) (libInit cfg disk) s) {ranges : List (List UInt8)} {p : Nat}
    (hdone : (ranges, blkStsOk, p) ∈ s.done) :
    Bytes.slice s.sys.shared.raw p ranges.flatten.length = ranges.flatten := by
  have hinv := libInv_reach hconv h
  obtain ⟨z, hz⟩ := hinv.finished _ hdone rfl
  obtain ⟨hst, hnum, hland⟩ := noResets_reach hconv hinv.inner z
  exact hz.slice hst hnum hland

end

/-! ## Two commands -/

theorem one_lt_pow : 1 < 2 ^ 32 := by decide

/-- One zone of four sectors. -/
def fourSectors : ZonedConfig := ⟨1, 4, 0, 1, 1, Nat.zero_lt_succ 3, one_lt_pow, one_lt_pow⟩

def twoSector : List UInt8 := List.replicate 512 2

theorem libStep_other {s s' : LibSys} {m : LibMove} (h : libStep cfg s m = some s') {u : Nat} (hu : u ≠ m.thread) :
    s'.handler u = s.handler u := by
  cases m with
  | command t offset ranges =>
    simp only [libStep] at h
    split at h
    · cases h
    · cases h
      exact Function.update_of_ne hu _ _
  | go t =>
    have hret : ∀ (s₁ : LibSys) (g : ListAppend) (v : ZoneRet), (s₁.returned t g v).handler u = s₁.handler u := by
      intro s₁ g v
      unfold LibSys.returned
      dsimp only
      split <;> exact Function.update_of_ne hu _ _
    simp only [libStep] at h
    split at h
    · cases h
    · split at h
      · split at h
        · cases h
          exact Function.update_of_ne hu _ _
        · rw [Option.map_eq_some_iff] at h
          obtain ⟨sys, -, rfl⟩ := h
          rfl
      · rw [Option.map_eq_some_iff] at h
        obtain ⟨sys, -, rfl⟩ := h
        split
        · exact hret _ _ _
        · rfl

/-- The zone in which the next action of the program reserves space. -/
def nextReserved : ZoneProg ZoneRet → Option Nat
  | .act (.advance zone _ _ _) _ => some zone
  | _ => none

/-- `Undisturbed` where only the threads below `n` have handlers, to be evaluated. -/
def UndisturbedNow (cfg : ZonedConfig) (n : Nat) (s : LibSys) : LibMove → Prop
  | .command _ offset ranges => CommandOk cfg offset ranges
  | .go t => ∀ r ∈ s.sys.thread t, ∀ zone ∈ nextReserved r.prog, ∀ u < n, u ≠ t → ¬ s.Between cfg u zone

instance (n : Nat) (s : LibSys) : (m : LibMove) → Decidable (UndisturbedNow cfg n s m)
  | .command _ offset ranges => inferInstanceAs (Decidable (CommandOk cfg offset ranges))
  | .go t =>
    inferInstanceAs (Decidable (∀ r ∈ s.sys.thread t, ∀ zone ∈ nextReserved r.prog, ∀ u < n, _ → ¬ _))

theorem UndisturbedNow.undisturbed {n : Nat} {s : LibSys} {m : LibMove} (hidle : ∀ u, n ≤ u → s.handler u = none)
    (h : UndisturbedNow cfg n s m) : Undisturbed cfg s m := by
  cases m with
  | command t offset ranges => exact h
  | go t =>
    intro r zone id offset data k hr hp u hut hbetween
    have hlt : u < n := by
      by_contra hge
      obtain ⟨g, hg, -⟩ := hbetween
      rw [hidle u (by omega)] at hg
      cases hg
    exact h r hr zone (by rw [hp]; rfl) u hlt hut hbetween

/-- A checked run of the threads below `n` is one in which no append is disturbed. -/
theorem undisturbed_of_runOk {n : Nat} {s s' : LibSys} {ms : List LibMove}
    (h : Machine.runOk (libStep cfg) (UndisturbedNow cfg n) s ms = some s') (hidle : ∀ u, n ≤ u → s.handler u = none)
    (hthread : ∀ m ∈ ms, m.thread < n) : Machine.Steps (libStep cfg) (Undisturbed cfg) s ms s' := by
  refine (Machine.Steps.of_checked (I := fun s => ∀ u, n ≤ u → s.handler u = none) h hidle
    (fun s m hm u hi hs v hv => ?_) (fun s m _ hi hcheck => hcheck.undisturbed hi)).1
  rw [libStep_other hs (Nat.ne_of_gt (Nat.lt_of_lt_of_le (hthread m hm) hv)), hi v hv]

/-- Both threads are given a command of two ranges. Thread 1 waits for the lock until
    thread 0 has reserved its second range, and reserves its first one before thread 0
    has stored that. -/
def inTurn : List LibMove :=
  [.command 0 0 [oneSector, oneSector], .command 1 0 [twoSector, twoSector], .go 1] ++ List.replicate 15 (.go 0) ++
    List.replicate 4 (.go 1) ++ List.replicate 3 (.go 0) ++ List.replicate 13 (.go 1)

theorem inTurn_isSome :
    (Machine.runOk (libStep fourSectors) (UndisturbedNow fourSectors 2) (libInit fourSectors (fun _ => 0))
      inTurn).isSome = true := by
  decide +kernel

theorem inTurn_run : ∃ s, Machine.runOk (libStep fourSectors) (UndisturbedNow fourSectors 2)
      (libInit fourSectors (fun _ => 0)) inTurn = some s ∧ ([oneSector, oneSector], blkStsOk, 0) ∈ s.done ∧
    ([twoSector, twoSector], blkStsOk, 1024) ∈ s.done :=
  ⟨_, (Option.some_get inTurn_isSome).symm, by decide +kernel, by decide +kernel⟩

theorem append_contiguous_inTurn : ∃ s, Machine.Reach (libStep fourSectors) (Undisturbed fourSectors)
      (libInit fourSectors (fun _ => 0)) s ∧
    ([oneSector, oneSector], blkStsOk, 0) ∈ s.done ∧ ([twoSector, twoSector], blkStsOk, 1024) ∈ s.done ∧
    Bytes.slice s.sys.shared.raw 0 [oneSector, oneSector].flatten.length = [oneSector, oneSector].flatten ∧
    Bytes.slice s.sys.shared.raw 1024 [twoSector, twoSector].flatten.length = [twoSector, twoSector].flatten := by
  obtain ⟨s, hrun, hone, htwo⟩ := inTurn_run
  have hreach : Machine.Reach (libStep fourSectors) (Undisturbed fourSectors) (libInit fourSectors (fun _ => 0)) s :=
    ⟨inTurn, undisturbed_of_runOk hrun (fun _ _ => rfl) (by decide)⟩
  exact ⟨s, hreach, hone, htwo, append_contiguous rfl hreach hone, append_contiguous rfl hreach htwo⟩

/-- Thread 0 has appended the first of two ranges. -/
def firstRange : List LibMove := .command 0 0 [oneSector, oneSector] :: List.replicate 10 (.go 0)

/-- Thread 0 appends the second range and replies. -/
def secondRange : List LibMove := List.replicate 8 (.go 0)

/-- In between, thread 1 appends a sector. -/
def otherAppend : List LibMove := .command 1 0 [twoSector] :: List.replicate 8 (.go 1)

theorem disturbed_isSome : (Machine.run (libStep fourSectors) (libInit fourSectors (fun _ => 0))
    (firstRange ++ otherAppend ++ secondRange)).isSome = true := by
  decide +kernel

theorem disturbed_byte : ((Machine.run (libStep fourSectors) (libInit fourSectors (fun _ => 0))
    (firstRange ++ otherAppend ++ secondRange)).get disturbed_isSome).sys.shared.raw (0 + 512) = 2 := by
  decide +kernel

/-- The second range is put behind the sector of the other append. -/
theorem append_torn : ∃ s, Machine.run (libStep fourSectors) (libInit fourSectors (fun _ => 0))
      (firstRange ++ otherAppend ++ secondRange) = some s ∧ ([oneSector, oneSector], blkStsOk, 0) ∈ s.done ∧
    Bytes.slice s.sys.shared.raw 0 [oneSector, oneSector].flatten.length ≠ [oneSector, oneSector].flatten := by
  refine ⟨_, (Option.some_get disturbed_isSome).symm, by decide +kernel, fun heq => ?_⟩
  -- they differ in the first byte of the second sector
  have hbyte := congrArg (fun bs : List UInt8 => bs[512]?) heq
  rw [Bytes.slice_getElem? _ _ _ _ (by decide +kernel), disturbed_byte] at hbyte
  exact absurd hbyte (by decide +kernel)

end Bius
