import Bius.ZoneStore

/- Every step of the threads of the zone emulator preserves `Stores`. -/
namespace Bius

open Threads Ranges

variable {δ : Type} {cfg : ZonedConfig}

abbrev ZoneCallRun := Running ZoneAct ZoneAct.Ans ZoneLock ZoneRet ZoneCall

/-! ## Other threads -/

/-- A thread is where it was if its locks are and the table is. -/
theorem Phase.same {s s' : ZoneSys δ} {u : Nat} {q : ZoneCallRun} (h : Phase cfg s u q)
    (howner : ∀ l, s.owner l = some u → s'.owner l = some u) (hs : SameTable s.shared s'.shared) :
      Phase cfg s' u q := by
  unfold Phase at h ⊢
  cases hw : q.call.asWrite with
  | none => rw [hw] at h; exact h
  | some w =>
    rw [hw] at h
    have hlog := hs.2
    refine h.frame howner (fun hf z e he => hf z e (hlog ▸ he)) (fun _ _ => ?_) (fun _ e he _ => hlog ▸ he)
    rw [hs.1]
    exact ⟨rfl, rfl⟩

theorem Stores.goOn {s : ZoneSys δ} (h : Stores cfg s) {t : Nat} {r : ZoneCallRun} (ht : s.thread t = some r)
    {x : Zoned δ} {own : ZoneLock → Option Nat} {p : ZoneProg ZoneRet} (htable : Table cfg x)
    (hlogged : ∀ z, ∀ e ∈ x.log z, e.id < s.calls)
    (hothers : ∀ u q, u ≠ t → s.thread u = some q →
      Phase cfg (Sys.goOn { s with shared := x, owner := own } t r p) u q)
    (hown : Phase cfg (Sys.goOn { s with shared := x, owner := own } t r p) t { r with prog := p }) :
    Stores cfg (Sys.goOn { s with shared := x, owner := own } t r p) := by
  have hthread : ∀ u q, (Sys.goOn { s with shared := x, owner := own } t r p).thread u = some q →
      u = t ∧ q = { r with prog := p } ∨ u ≠ t ∧ s.thread u = some q := by
    intro u q hu
    simp only [Sys.goOn, Function.update_apply] at hu
    split at hu
    · next heq => cases hu; exact .inl ⟨heq, rfl⟩
    · next hne => exact .inr ⟨hne, hu⟩
  refine ⟨htable, hlogged, fun u q hu => ?_, fun u q hu => ?_⟩
  · rcases hthread u q hu with ⟨rfl, rfl⟩ | ⟨-, hu⟩
    · exact h.valid u r ht
    · exact h.valid u q hu
  · rcases hthread u q hu with ⟨rfl, rfl⟩ | ⟨hne, hu⟩
    · exact hown
    · exact hothers u q hne hu

theorem Stores.goOn_same {s : ZoneSys δ} (h : Stores cfg s) {t : Nat} {r : ZoneCallRun} (ht : s.thread t = some r)
    {x : Zoned δ} {own : ZoneLock → Option Nat} {p : ZoneProg ZoneRet} (hs : SameTable s.shared x)
    (howner : ∀ u, u ≠ t → ∀ l, s.owner l = some u → own l = some u)
    (hown : Phase cfg (Sys.goOn { s with shared := x, owner := own } t r p) t { r with prog := p }) :
    Stores cfg (Sys.goOn { s with shared := x, owner := own } t r p) :=
  h.goOn ht (h.table.same hs) (fun z e he => h.logged z e (hs.2 ▸ he))
    (fun u q hne hu => (h.phase u q hu).same (howner u hne) hs) hown

/-! ## Locks -/

theorem stores_lock {s : ZoneSys δ} (h : Stores cfg s) {t : Nat} {r : ZoneCallRun} {l : ZoneLock} {k : ZoneProg ZoneRet}
    (ht : s.thread t = some r) (hp : r.prog = .lock l k) (ho : s.owner l = none) :
    Stores cfg (Sys.goOn { s with owner := Function.update s.owner l (some t) } t r k) := by
  have howner : ∀ u m, s.owner m = some u → Function.update s.owner l (some t) m = some u := by
    intro u m hm
    rw [Function.update_of_ne (fun heq => by rw [heq, ho] at hm; cases hm)]
    exact hm
  apply h.goOn_same ht (.refl _) (fun u _ => howner u)
  have hphase := h.phase t r ht
  unfold Phase at hphase ⊢
  cases hw : r.call.asWrite with
  | none =>
    rw [hw] at hphase
    rw [hp] at hphase
    exact hphase
  | some w =>
    rw [hw] at hphase
    simp only
    cases hphase with
    | start hstart hf =>
      rw [hp] at hstart
      cases hstart
      exact .locked rfl (by simp [Sys.goOn]) hf
    | locked hact _ _ => rw [hp] at hact; cases hact
    | reserving offset position hres hr hown hf hoff hroom =>
      rw [hp] at hres
      exact .reserving offset position hres hr (howner _ _ hown) hf hoff hroom
    | filling offset position hfill hr hown he hfull =>
      rw [hp] at hfill
      exact .filling offset position hfill hr (howner _ _ hown) he hfull
    | storing offset position hst hr he =>
      rw [hp] at hst
      exact .storing offset position hst hr he
    | stored offset position status hret _ => rw [hp] at hret; cases hret
    | refused hrefuse hf =>
      rw [hp] at hrefuse
      exact .refused hrefuse hf

theorem stores_unlock {s : ZoneSys δ} (h : Stores cfg s) {t : Nat} {r : ZoneCallRun} {l : ZoneLock} {k : ZoneProg ZoneRet}
    (ht : s.thread t = some r) (hp : r.prog = .unlock l k) (ho : s.owner l = some t) :
    Stores cfg (Sys.goOn { s with owner := Function.update s.owner l none } t r k) := by
  have hkeep : ∀ u m, m ≠ l → s.owner m = some u → Function.update s.owner l none m = some u := by
    intro u m hne hm
    rw [Function.update_of_ne hne]
    exact hm
  refine h.goOn_same ht (.refl _) (fun u hne m hm => ?_) ?_
  · exact hkeep u m (fun heq => by rw [heq, ho] at hm; exact hne (Option.some.inj hm).symm) hm
  have hphase := h.phase t r ht
  unfold Phase at hphase ⊢
  cases hw : r.call.asWrite with
  | none =>
    rw [hw] at hphase
    rw [hp] at hphase
    exact hphase
  | some w =>
    rw [hw] at hphase
    simp only
    cases hphase with
    | start hstart hf => rw [hp] at hstart; cases hstart
    | locked hact _ _ => rw [hp] at hact; cases hact
    | reserving offset position hres hr hown hf hoff hroom =>
      rw [hp] at hres
      unfold Reserving at hres
      split at hres
      · exact .refused hres hf
      · next hne => exact .reserving offset position hres hr (hkeep _ _ (Ne.symm hne) hown) hf hoff hroom
    | filling offset position hfill hr hown he hfull =>
      rw [hp] at hfill
      exact .filling offset position hfill.2 hr (hkeep _ _ (Ne.symm hfill.1) hown) he hfull
    | storing offset position hst hr he =>
      rw [hp] at hst
      exact .storing offset position hst hr he
    | stored offset position status hret _ => rw [hp] at hret; cases hret
    | refused hrefuse hf =>
      rw [hp] at hrefuse
      exact .refused hrefuse hf

/-! ## Actions of calls that write nothing -/

theorem mayDo_same {raw : RawOps δ} {c : ZoneCall} {e : ZoneAct} (he : c.MayDo cfg e) (s : Zoned δ)
    (hreset : ∀ z, e ≠ .resetSwitch z) (hinit : e ≠ .initializeZoneInfo) : SameTable s (e.sem cfg raw s).1 := by
  cases e with
  | closeIfImpOpen zone => exact closeIfImpOpen_same s zone
  | openSwitch zone explicit => exact openSwitch_same cfg s zone explicit
  | fullSwitch zone => exact he.elim
  | closeSwitch zone => exact closeSwitch_same s zone
  | resetSwitch zone => exact absurd rfl (hreset zone)
  | initializeZoneInfo => exact absurd rfl hinit
  | checkWrite zone w => exact he.elim
  | advance zone id offset data => exact he.elim
  | rawWrite id zone offset data => exact he.elim
  | openDecision zone => exact .refl s
  | zoneInfo zone => exact .refl s
  | rawRead offset length => exact .of_zoneInfo rfl rfl
  | rawDiscardZone zone => exact .of_zoneInfo rfl rfl
  | rawDiscardAll => exact .of_zoneInfo rfl rfl

theorem Phase.setEmpty {s s' : ZoneSys δ} {x : Zoned δ} {u zone : Nat} {q : ZoneCallRun} (h : Phase cfg s u q)
    (howner : s'.owner = s.owner) (hx : SameTable s.shared x) (hs : s'.shared = setEmpty x zone)
    (hquiet : ∀ w, q.call.asWrite = some w → zoneNumber cfg w.offset = zone → ¬ Midway q.prog) :
      Phase cfg s' u q := by
  unfold Phase at h ⊢
  cases hw : q.call.asWrite with
  | none => rw [hw] at h; exact h
  | some w =>
    rw [hw] at h
    have hlog : ∀ z, s'.shared.log z = if z = zone then [] else s.shared.log z := fun z => by
      rw [hs, ← hx.2]; simp [Bius.setEmpty, Function.update_apply]
    have hinfo : ∀ z, z ≠ zone → s'.shared.zoneInfo z = x.zoneInfo z := fun z hz => by
      rw [hs]; simp [Bius.setEmpty, Zoned.setZone, hz]
    refine h.frame (fun l hl => howner ▸ hl) (fun hf z e he => ?_) (fun hm ho => ?_) (fun hm e he _ => ?_)
    · rw [hlog] at he
      split at he
      · cases he
      · exact hf z e he
    · rw [hinfo _ (fun heq => hquiet w hw heq hm), hx.1]
      exact ⟨rfl, rfl⟩
    · rw [hlog, if_neg (fun heq => hquiet w hw heq hm)]
      exact he

theorem Phase.initializeZoneInfo {s s' : ZoneSys δ} {u : Nat} {q : ZoneCallRun} (h : Phase cfg s u q)
    (howner : s'.owner = s.owner) (hlog : ∀ z, s'.shared.log z = [])
    (hquiet : ∀ w, q.call.asWrite = some w → ¬ Midway q.prog) : Phase cfg s' u q := by
  unfold Phase at h ⊢
  cases hw : q.call.asWrite with
  | none => rw [hw] at h; exact h
  | some w =>
    rw [hw] at h
    refine h.frame (fun l hl => howner ▸ hl) (fun hf z e he => ?_) (fun hm => absurd hm (hquiet w hw))
      (fun hm => absurd hm (hquiet w hw))
    rw [hlog] at he
    cases he

theorem stores_act_other {raw : RawOps δ} (hconv : cfg.numConventionalZones = 0) {s : ZoneSys δ} (h : Stores cfg s)
    {t : Nat} {r : ZoneCallRun} {e : ZoneAct} {k : e.Ans → ZoneProg ZoneRet} (ht : s.thread t = some r)
    (hp : r.prog = .act e k) (hw : r.call.asWrite = none)
    (hquiet : ResetsQuiet cfg s (.step t)) :
    Stores cfg (Sys.goOn { s with shared := (e.sem cfg raw s.shared).1 } t r (k (e.sem cfg raw s.shared).2)) := by
  have hphase := h.phase t r ht
  unfold Phase at hphase
  rw [hw] at hphase
  simp only [hp] at hphase
  have hown : ∀ (s' : ZoneSys δ) a, Phase cfg s' t { r with prog := k a } := by
    intro s' a
    unfold Phase
    simp only [hw]
    exact hphase.2 a
  by_cases hreset : ∃ z, e = .resetSwitch z
  · obtain ⟨z, rfl⟩ := hreset
    obtain hsame | ⟨x, hx, -, heq⟩ := resetSwitch_cases s.shared z
    · exact h.goOn_same ht hsame (fun _ _ _ hl => hl) (hown _ _)
    · have hshared : (ZoneAct.sem cfg raw (.resetSwitch z) s.shared).1 = setEmpty x z := heq
      refine h.goOn ht ?_ (fun y e he => ?_) (fun u q hne hu => ?_) (hown _ _)
      · rw [hshared]; exact (h.table.same hx).setEmpty z
      · rw [hshared] at he
        have he' : e ∈ x.log y := by
          simp only [setEmpty, Function.update_apply] at he
          split at he
          · cases he
          · exact he
        exact h.logged y e (hx.2 ▸ he')
      · exact (h.phase u q hu).setEmpty rfl hx hshared
          (fun w hqw hz => hquiet r _ k ht hp u q w hu hqw (.inl (by rw [hz])))
  · by_cases hinit : e = .initializeZoneInfo
    · subst hinit
      refine h.goOn ht (Table.initializeZoneInfo hconv s.shared) (fun y e he => by cases he) (fun u q hne hu => ?_)
        (hown _ _)
      exact (h.phase u q hu).initializeZoneInfo rfl (fun _ => rfl)
        (fun w hqw => hquiet r _ k ht hp u q w hu hqw (.inr rfl))
    · exact h.goOn_same ht (mayDo_same hphase.1 s.shared (fun z hz => hreset ⟨z, hz⟩) hinit)
        (fun _ _ _ hl => hl) (hown _ _)

/-! ## Actions of a write -/

theorem Phase.advance {s s' : ZoneSys δ} {t u zone id offset : Nat} {data : List UInt8} {q : ZoneCallRun}
    (h : Phase cfg s u q) (hne : u ≠ t) (hown : s.owner (.zone zone) = some t) (howner : s'.owner = s.owner)
    (hid : q.id ≠ id) (hs : s'.shared = (advance s.shared zone id offset data).1) : Phase cfg s' u q := by
  unfold Phase at h ⊢
  cases hw : q.call.asWrite with
  | none => rw [hw] at h; exact h
  | some w =>
    rw [hw] at h
    have hlog : ∀ z, s'.shared.log z = if z = zone then s.shared.log zone ++ [⟨id, offset, data⟩]
        else s.shared.log z :=
      fun z => by rw [hs]; simp [Bius.advance, Function.update_apply]
    refine h.frame (fun l hl => howner ▸ hl) (fun hf z e he => ?_) (fun _ ho => ?_) (fun _ e he _ => ?_)
    · rw [hlog] at he
      split at he
      · next hz =>
        rcases List.mem_append.1 he with he | he
        · exact hf z e (hz ▸ he)
        · rw [List.mem_singleton.1 he]; exact hid.symm
      · exact hf z e he
    · have hz : zoneNumber cfg w.offset ≠ zone := fun heq => by
        rw [heq, hown] at ho; exact hne (Option.some.inj ho).symm
      rw [hs]
      simp [Bius.advance, Zoned.setZone, hz]
    · rw [hlog]
      split
      · next hz => rw [← hz]; exact List.mem_append_left _ he
      · exact he

theorem checkWrite_phase {s s' : ZoneSys δ} (htable : Table cfg s.shared) {t id : Nat} {w : WriteArgs}
    (hlt : zoneNumber cfg w.offset < cfg.numZones) (hdvd : sectorSize ∣ w.data.length)
    (hown : s'.owner (.zone (zoneNumber cfg w.offset)) = some t) (hf : Fresh s' id) (hs : s'.shared = s.shared) :
    WritePhase cfg s' t id w (writeRest cfg id (zoneNumber cfg w.offset) w
      (appendPosition s.shared (zoneNumber cfg w.offset) w) (checkWrite s.shared (zoneNumber cfg w.offset) w)) := by
  have hshape := htable.shape _ hlt
  cases hcheck : checkWrite s.shared (zoneNumber cfg w.offset) w with
  | refused => exact .refused (show blkStsIoerr ≠ blkStsOk by decide) hf
  | conventional =>
    have := checkWrite_conventional hcheck
    rw [hshape.2.2.2] at this
    cases this
  | reserve offset opens =>
    obtain ⟨hoff, happ, hroom, -⟩ := checkWrite_reserve hcheck
    refine .reserving offset _ (writeRest_reserving cfg w opens) ?_ hown hf (by rw [hs]; exact hoff) ?_
    · unfold Reports appendPosition
      rw [hshape.2.2.2]
      cases hw : w.append
      · simpa using happ hw
      · simpa using hoff.symm
    · rw [hs, ← hshape.2.2.1]
      rw [hoff] at hroom
      exact sectors_le hdvd hroom

theorem stores_act_write {raw : RawOps δ} {s : ZoneSys δ} (h : Stores cfg s) (hnum : Sys.Numbered s)
    {t : Nat} {r : ZoneCallRun} {e : ZoneAct} {k : e.Ans → ZoneProg ZoneRet} (ht : s.thread t = some r)
    (hp : r.prog = .act e k) {w : WriteArgs} (hw : r.call.asWrite = some w) :
    Stores cfg (Sys.goOn { s with shared := (e.sem cfg raw s.shared).1 } t r (k (e.sem cfg raw s.shared).2)) := by
  obtain ⟨hlt, hpos, hdvd⟩ := asWrite_valid hw (h.valid t r ht).1
  have hphase := h.phase t r ht
  unfold Phase at hphase
  rw [hw] at hphase
  simp only at hphase
  -- the step leaves the table alone, and `t` is at a point of its write
  have hsame : ∀ {x : Zoned δ} {p : ZoneProg ZoneRet}, SameTable s.shared x →
      WritePhase cfg (Sys.goOn { s with shared := x } t r p) t r.id w p →
      Stores cfg (Sys.goOn { s with shared := x } t r p) := by
    intro x p hx hown
    apply h.goOn_same ht hx (fun _ _ _ hl => hl)
    unfold Phase
    simp only [hw]
    exact hown
  have hfresh : ∀ {x : Zoned δ} {p : ZoneProg ZoneRet}, SameTable s.shared x → Fresh s r.id →
      Fresh (Sys.goOn { s with shared := x } t r p) r.id := fun hx hf z e he => hf z e (hx.2 ▸ he)
  cases hphase with
  | start hstart _ => rw [hp] at hstart; cases hstart
  | stored offset position status hret _ => rw [hp] at hret; cases hret
  | refused hrefuse _ => rw [hp] at hrefuse; exact hrefuse.elim
  | locked hact hown hf =>
    rw [hp] at hact
    cases hact
    exact hsame (.refl _) (checkWrite_phase h.table hlt hdvd hown (hfresh (.refl _) hf) rfl)
  | storing offset position hst hr he =>
    rw [hp] at hst
    cases e with
    | rawWrite i z o d =>
      have hx : SameTable s.shared (ZoneAct.sem cfg raw (.rawWrite i z o d) s.shared).1 := .of_zoneInfo rfl rfl
      exact hsame hx (.stored offset position _ (hst.2.2.2.2 _) hr)
    | _ => exact hst.elim
  | filling offset position hfill hr hown he hfull =>
    rw [hp] at hfill
    cases e with
    | fullSwitch z =>
      obtain ⟨rfl, hst⟩ := hfill
      have hx : SameTable s.shared (ZoneAct.sem cfg raw (.fullSwitch (zoneNumber cfg w.offset)) s.shared).1 :=
        fullSwitch_same (by rw [(h.table.shape _ hlt).2.1]; exact hfull)
      exact hsame hx (.storing offset position (hst _) hr (hx.2 ▸ he))
    | _ => exact hfill.elim
  | reserving offset position hres hr hown hf hoff hroom =>
    rw [hp] at hres
    have hstay : ∀ {x : Zoned δ} {p : ZoneProg ZoneRet}, SameTable s.shared x →
        Reserving (zoneNumber cfg w.offset) r.id offset w.data position p →
        Stores cfg (Sys.goOn { s with shared := x } t r p) := by
      intro x p hx hres
      refine hsame hx (.reserving offset position hres hr hown (hfresh hx hf) ?_ ?_)
      · show offset = (x.zoneInfo _).wp * sectorSize
        rw [hx.1]; exact hoff
      · show (x.zoneInfo _).wp + _ ≤ (x.zoneInfo _).start + _
        rw [hx.1]; exact hroom
    cases e with
    | openSwitch z explicit => exact hstay (openSwitch_same cfg s.shared z explicit) (hres _)
    | closeIfImpOpen z => exact hstay (closeIfImpOpen_same s.shared z) (hres _)
    | advance z i o d =>
      obtain ⟨rfl, rfl, rfl, rfl, hfill, hst⟩ := hres
      have hentry : (⟨r.id, o, w.data⟩ : Reserved) ∈
          (advance s.shared (zoneNumber cfg w.offset) r.id o w.data).1.log (zoneNumber cfg w.offset) := by
        simp [advance]
      refine h.goOn ht (h.table.advance hlt hoff hdvd hroom hf) (fun y e he => ?_) (fun u q hne hu => ?_) ?_
      · simp only [ZoneAct.sem, advance, Function.update_apply] at he
        split at he
        · rcases List.mem_append.1 he with he | he
          · exact h.logged _ e he
          · rw [List.mem_singleton.1 he]; exact hnum.running t r ht
        · exact h.logged y e he
      · exact (h.phase u q hu).advance hne hown rfl (fun heq => hne (hnum.inj u t q r hu ht heq)) rfl
      · unfold Phase
        simp only [hw]
        by_cases hfull : (s.shared.zoneInfo (zoneNumber cfg w.offset)).wp + w.data.length / sectorSize =
            (s.shared.zoneInfo (zoneNumber cfg w.offset)).start + (s.shared.zoneInfo (zoneNumber cfg w.offset)).capacity
        · have hans : (ZoneAct.sem cfg raw (.advance (zoneNumber cfg w.offset) r.id o w.data) s.shared).2 = true := by
            simpa [ZoneAct.sem, advance] using hfull
          rw [hans]
          refine .filling o position hfill hr hown hentry ?_
          rw [(h.table.shape _ hlt).2.2.1] at hfull
          simpa [ZoneAct.sem, advance, Sys.goOn, Zoned.setZone] using hfull
        · have hans : (ZoneAct.sem cfg raw (.advance (zoneNumber cfg w.offset) r.id o w.data) s.shared).2 = false := by
            simpa [ZoneAct.sem, advance] using hfull
          rw [hans]
          exact .storing o position hst hr hentry
    | _ => exact hres.elim

/-! ## Every step -/

/-- What a move may be: a call inside the disk that is no finish; and no reset takes
    effect while a write to the zone is midway. -/
def MoveOk (cfg : ZonedConfig) (s : ZoneSys δ) (m : Move ZoneCall) : Prop :=
  (∀ t c, m = .call t c → c.Allowed cfg) ∧ ResetsQuiet cfg s m

theorem stores_step {raw : RawOps δ} (hconv : cfg.numConventionalZones = 0) {s s' : ZoneSys δ} {m : Move ZoneCall}
    (h : Stores cfg s) (hnum : Sys.Numbered s) {held : Nat → List ZoneLock} (hheld : Sys.Holding guarding held s)
    (hok : MoveOk cfg s m) (hs : zoneStep cfg raw s m = some s') : Stores cfg s' := by
  cases Sys.step_cases _ _ hs with
  | call t c ht =>
    have hc := hok.1 t c rfl
    refine ⟨h.table, fun z e he => Nat.lt_succ_of_lt (h.logged z e he), fun u q hu => ?_, fun u q hu => ?_⟩
    · simp only [Function.update_apply] at hu
      split at hu
      · cases hu; exact hc
      · exact h.valid u q hu
    · simp only [Function.update_apply] at hu
      split at hu
      · cases hu
        unfold Phase
        cases hw : c.asWrite with
        | none => simpa only [hw] using code_mayDo hw hc _
        | some w =>
          exact .start (code_asWrite hw _) (fun z e he => Nat.ne_of_lt (h.logged z e he))
      · exact (h.phase u q hu).same (fun _ hl => hl) (.refl _)
  | ret t r v ht hp =>
    have hother : ∀ u q, Function.update s.thread t none u = some q → s.thread u = some q := by
      intro u q hu
      simp only [Function.update_apply] at hu
      split at hu
      · cases hu
      · exact hu
    exact ⟨h.table, h.logged, fun u q hu => h.valid u q (hother u q hu),
      fun u q hu => (h.phase u q (hother u q hu)).same (fun _ hl => hl) (.refl _)⟩
  | lock t r l k ht hp ho => exact stores_lock h ht hp ho
  | unlock t r l k ht hp => exact stores_unlock h ht hp (hheld.unlock_owner ht hp)
  | act t r e k ht hp =>
    cases hw : r.call.asWrite with
    | none => exact stores_act_other hconv h ht hp hw hok.2
    | some w => exact stores_act_write h hnum ht hp hw

theorem stores_init (hconv : cfg.numConventionalZones = 0) (disk : δ) : Stores cfg (zoneInit cfg disk) :=
  ⟨Table.initializeZoneInfo hconv _, fun _ _ he => (by cases he), fun _ _ ht => (by cases ht),
    fun _ _ ht => (by cases ht)⟩

/-- What holds in every reachable state. -/
theorem stores_reach {raw : RawOps δ} (hconv : cfg.numConventionalZones = 0) {disk : δ} {s : ZoneSys δ}
    (h : Machine.Reach (zoneStep cfg raw) (MoveOk cfg) (zoneInit cfg disk) s) :
    Stores cfg s ∧ Sys.Numbered s ∧ ∃ held, Sys.Holding guarding held s := by
  have hheld : ∀ {u : ZoneSys δ}, Machine.Reach (zoneStep cfg raw) (MoveOk cfg) (zoneInit cfg disk) u →
      ∃ held, Sys.Holding guarding held u := by
    rintro u ⟨as, hu⟩
    refine Sys.follows_inv (code_follows guarding_fits) ⟨as, hu.mono (fun s m _ => ?_)⟩
    cases m with
    | call t c => trivial
    | step t => exact fun _ _ _ _ _ => trivial
  refine ⟨?_, ?_, hheld h⟩
  · refine (h.induct (I := fun s => Stores cfg s ∧ Sys.Numbered s) ⟨stores_init hconv disk, .init _⟩ ?_).1
    rintro t m u hr ⟨hst, hnum⟩ hok hs
    obtain ⟨held, hh⟩ := hheld hr
    exact ⟨stores_step hconv hst hnum hh hok hs, hnum.step _ _ hs⟩
  · refine h.inv (I := Sys.Numbered) (fun t m u hnum _ hs => hnum.step _ _ hs) (.init _)

end Bius
