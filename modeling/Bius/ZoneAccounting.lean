import Bius.ZoneCalls

/- The counters of the zone emulator. `Accounted` relates them to the zone table: the
   numbers of open and of implicitly open zones are exact, the number of active zones
   is never too small, and no limit is exceeded. Every action preserves it
   (`accounted_act`), so every call does, and `zone_accounting` says so of every
   sequence of calls.

   The number of active zones may be too large: `open_zone_locked` counts an empty
   zone as active before it finds that no further zone can be opened.
   `active_accounting` says when it is exact. -/
namespace Bius

open Threads

/-! ## Counting zones -/

variable {δ : Type} (cfg : ZonedConfig)

/-- The number of zones whose condition satisfies `P`. -/
def countZones (zoneInfo : Nat → Zone) (P : ZoneCond → Bool) : Nat :=
  (List.range cfg.numZones).countP (fun z => P (zoneInfo z).cond)

theorem countP_update_range (f : Nat → Zone) (P : ZoneCond → Bool) (zone : Nat) (z : Zone) (n : Nat) :
    (List.range n).countP (fun i => P (Function.update f zone z i).cond) +
        (if zone < n ∧ P (f zone).cond then 1 else 0) =
      (List.range n).countP (fun i => P (f i).cond) + (if zone < n ∧ P z.cond then 1 else 0) := by
  induction n with
  | zero => simp
  | succ n ih =>
    rw [List.range_succ, List.countP_append, List.countP_append, List.countP_singleton, List.countP_singleton]
    by_cases hzn : zone = n
    · subst hzn
      simp only [Function.update_self, Nat.lt_irrefl, false_and, if_false, Nat.add_zero, Nat.lt_succ_self,
        true_and] at ih ⊢
      omega
    · rw [Function.update_of_ne (Ne.symm hzn)]
      have hlt : zone < n + 1 ↔ zone < n := by omega
      simp only [hlt]
      omega

theorem countZones_update {f : Nat → Zone} (P : ZoneCond → Bool) {zone : Nat} (hz : zone < cfg.numZones) (z : Zone) :
    countZones cfg (Function.update f zone z) P + (if P (f zone).cond then 1 else 0) =
      countZones cfg f P + (if P z.cond then 1 else 0) := by
  have := countP_update_range f P zone z cfg.numZones
  simpa [hz, countZones] using this

theorem countZones_pos {f : Nat → Zone} {P : ZoneCond → Bool} {zone : Nat} (hz : zone < cfg.numZones)
    (h : P (f zone).cond = true) : 0 < countZones cfg f P :=
  List.countP_pos_iff.2 ⟨zone, List.mem_range.2 hz, h⟩

theorem countZones_le {f : Nat → Zone} {P Q : ZoneCond → Bool} (h : ∀ c, P c = true → Q c = true) :
    countZones cfg f P ≤ countZones cfg f Q :=
  List.countP_mono_left (fun _ _ hx => h _ hx)

theorem dec32_pos {n : Nat} (h : 0 < n) : dec32 n + 1 = n ∧ (n == 0) = false := by
  unfold dec32
  exact ⟨by rw [if_neg (by omega)]; omega, by simp; omega⟩

theorem inc32_lt {n : Nat} (hlt : n + 1 < 2 ^ 32) : inc32 n = n + 1 := by
  unfold inc32; omega

/-- `open_zone_locked` counts an empty zone as active and does not open it. -/
def OpenLeaks (s : Zoned δ) (zone : Nat) : Prop :=
  (s.zoneInfo zone).cond = .empty ∧ s.numActiveZones < cfg.maxActiveZones ∧ cfg.maxOpenZones ≤ s.numOpenZones

instance (s : Zoned δ) (zone : Nat) : Decidable (OpenLeaks cfg s zone) :=
  inferInstanceAs (Decidable (_ ∧ _ ∧ _))

/-! ## The invariant -/

/-- The counters against the table: `leaked` is by how much the number of active zones
    is too large. -/
structure Accounted (leaked : Nat) (s : Zoned δ) : Prop where
  openEq : s.numOpenZones = countZones cfg s.zoneInfo ZoneCond.isOpen
  impEq : s.numImpOpenZones = countZones cfg s.zoneInfo ZoneCond.isImpOpen
  openLe : s.numOpenZones ≤ cfg.maxOpenZones
  activeEq : s.numActiveZones = countZones cfg s.zoneInfo ZoneCond.isActive + leaked
  activeLe : s.numActiveZones ≤ cfg.maxActiveZones
  noWrap : s.underflow = false

namespace Accounted

variable {cfg} {leaked : Nat} {s s' : Zoned δ}

theorem move (h : Accounted cfg leaked s) {zone : Nat} (hz : zone < cfg.numZones) {z : Zone}
    (hinfo : s'.zoneInfo = Function.update s.zoneInfo zone z)
    (hopen : s'.numOpenZones + (if (s.zoneInfo zone).cond.isOpen then 1 else 0) =
      s.numOpenZones + (if z.cond.isOpen then 1 else 0))
    (himp : s'.numImpOpenZones + (if (s.zoneInfo zone).cond.isImpOpen then 1 else 0) =
      s.numImpOpenZones + (if z.cond.isImpOpen then 1 else 0))
    (hactive : s'.numActiveZones + (if (s.zoneInfo zone).cond.isActive then 1 else 0) =
      s.numActiveZones + (if z.cond.isActive then 1 else 0))
    (hopenLe : s'.numOpenZones ≤ cfg.maxOpenZones) (hactiveLe : s'.numActiveZones ≤ cfg.maxActiveZones)
    (hwrap : s'.underflow = s.underflow) : Accounted cfg leaked s' := by
  have e₁ := countZones_update cfg (f := s.zoneInfo) ZoneCond.isOpen hz z
  have e₂ := countZones_update cfg (f := s.zoneInfo) ZoneCond.isImpOpen hz z
  have e₃ := countZones_update cfg (f := s.zoneInfo) ZoneCond.isActive hz z
  have := h.openEq
  have := h.impEq
  have := h.activeEq
  refine ⟨?_, ?_, hopenLe, ?_, hactiveLe, hwrap.trans h.noWrap⟩ <;> rw [hinfo] <;> omega

theorem congr (h : Accounted cfg leaked s) (hcond : ∀ z, (s'.zoneInfo z).cond = (s.zoneInfo z).cond)
    (hopen : s'.numOpenZones = s.numOpenZones) (himp : s'.numImpOpenZones = s.numImpOpenZones)
    (hactive : s'.numActiveZones = s.numActiveZones) (hwrap : s'.underflow = s.underflow) :
    Accounted cfg leaked s' := by
  have hcount : ∀ P, countZones cfg s'.zoneInfo P = countZones cfg s.zoneInfo P := fun P => by
    unfold countZones; simp only [hcond]
  constructor
  · rw [hopen, hcount, h.openEq]
  · rw [himp, hcount, h.impEq]
  · rw [hopen]; exact h.openLe
  · rw [hactive, hcount, h.activeEq]
  · rw [hactive]; exact h.activeLe
  · rw [hwrap, h.noWrap]

theorem imp_le (h : Accounted cfg leaked s) : s.numImpOpenZones ≤ s.numOpenZones := by
  rw [h.impEq, h.openEq]
  exact countZones_le cfg (fun c => by cases c <;> simp [ZoneCond.isImpOpen, ZoneCond.isOpen])

variable (h : Accounted cfg leaked s) {zone : Nat} (hz : zone < cfg.numZones)
include h hz

/-- An open zone is counted, so `num_open_zones--` is a subtraction; so for the other
    two counters. -/
theorem dec_open (hc : (s.zoneInfo zone).cond.isOpen = true) :
    dec32 s.numOpenZones + 1 = s.numOpenZones ∧ (s.numOpenZones == 0) = false := by
  rw [h.openEq]
  exact dec32_pos (countZones_pos cfg hz hc)

theorem dec_imp (hc : (s.zoneInfo zone).cond.isImpOpen = true) :
    dec32 s.numImpOpenZones + 1 = s.numImpOpenZones ∧ (s.numImpOpenZones == 0) = false := by
  rw [h.impEq]
  exact dec32_pos (countZones_pos cfg hz hc)

theorem dec_active (hc : (s.zoneInfo zone).cond.isActive = true) :
    dec32 s.numActiveZones + 1 = s.numActiveZones ∧ (s.numActiveZones == 0) = false := by
  have := countZones_pos cfg (P := ZoneCond.isActive) hz hc
  rw [h.activeEq]
  exact dec32_pos (by omega)

/-! ## What each action does to it -/

theorem closeIfImpOpen : Accounted cfg leaked (closeIfImpOpen s zone).1 := by
  have := h.openLe
  have := h.activeLe
  unfold Bius.closeIfImpOpen
  split
  · next hc =>
    have ho := h.dec_open hz (by rw [hc]; rfl)
    have hi := h.dec_imp hz (by rw [hc]; rfl)
    refine h.move hz rfl ?_ ?_ ?_ ?_ ?_ ?_ <;>
      simp [hc, Zoned.setCond, Zoned.setZone, Zoned.decOpen, Zoned.decImpOpen, ZoneCond.isOpen,
        ZoneCond.isImpOpen, ZoneCond.isActive, ho.2, hi.2] <;> omega
  · exact h

/-- A zone leaves the counts, as the switches of `mark_zone_full_locked` and of
    `zoned_reset_zone` have it. -/
theorem leave {z : Zone} (hinfo : s'.zoneInfo = Function.update s.zoneInfo zone z)
    (hnew : z.cond = .empty ∨ z.cond = .full)
    (hopen : s'.numOpenZones = if (s.zoneInfo zone).cond.isOpen then dec32 s.numOpenZones else s.numOpenZones)
    (himp : s'.numImpOpenZones =
      if (s.zoneInfo zone).cond.isImpOpen then dec32 s.numImpOpenZones else s.numImpOpenZones)
    (hactive : s'.numActiveZones =
      if (s.zoneInfo zone).cond.isActive then dec32 s.numActiveZones else s.numActiveZones)
    (hwrap : s'.underflow = (s.underflow || (s.zoneInfo zone).cond.isImpOpen && s.numImpOpenZones == 0 ||
      (s.zoneInfo zone).cond.isOpen && s.numOpenZones == 0 ||
      (s.zoneInfo zone).cond.isActive && s.numActiveZones == 0)) : Accounted cfg leaked s' := by
  have := h.openLe
  have := h.activeLe
  have ho := h.dec_open hz
  have hi := h.dec_imp hz
  have ha := h.dec_active hz
  have hnew : z.cond.isOpen = false ∧ z.cond.isImpOpen = false ∧ z.cond.isActive = false := by
    rcases hnew with hnew | hnew <;> rw [hnew] <;> exact ⟨rfl, rfl, rfl⟩
  refine h.move hz hinfo ?_ ?_ ?_ ?_ ?_ ?_
  · rw [hopen, hnew.1]; split <;> simp_all
  · rw [himp, hnew.2.1]; split <;> simp_all
  · rw [hactive, hnew.2.2]; split <;> simp_all
  · rw [hopen]; split <;> grind
  · rw [hactive]; split <;> grind
  · rw [hwrap]
    grind

theorem fullSwitch : Accounted cfg leaked (fullSwitch s zone).1 := by
  unfold Bius.fullSwitch
  split <;> rename_i hc
  · exact h.leave hz rfl (.inr rfl) (by rw [hc]; rfl) (by rw [hc]; rfl) (by rw [hc]; rfl) (by rw [hc]; rfl)
  · apply h.leave hz rfl (.inr rfl) (by rw [hc]; rfl) (by rw [hc]; rfl) (by rw [hc]; rfl)
    simp [hc, setFull, Zoned.setZone, Zoned.decOpen, Zoned.decActive, ZoneCond.isImpOpen, ZoneCond.isOpen,
      ZoneCond.isActive]
  · apply h.leave hz rfl (.inr rfl) (by rw [hc]; rfl) (by rw [hc]; rfl) (by rw [hc]; rfl)
    simp [hc, setFull, Zoned.setZone, Zoned.decActive, ZoneCond.isImpOpen, ZoneCond.isOpen, ZoneCond.isActive]
  · apply h.leave hz rfl (.inr rfl) (by rw [hc]; rfl) (by rw [hc]; rfl) (by rw [hc]; rfl)
    simp [hc, setFull, Zoned.setZone, ZoneCond.isImpOpen, ZoneCond.isOpen, ZoneCond.isActive]
  · apply h.leave hz rfl (.inr rfl) (by rw [hc]; rfl) (by rw [hc]; rfl) (by rw [hc]; rfl)
    simp [hc, setFull, Zoned.setZone, ZoneCond.isImpOpen, ZoneCond.isOpen, ZoneCond.isActive]
  · exact h

theorem resetSwitch : Accounted cfg leaked (resetSwitch s zone).1 := by
  unfold Bius.resetSwitch
  split <;> rename_i hc
  · exact h
  · exact h.leave hz rfl (.inl rfl) (by rw [hc]; rfl) (by rw [hc]; rfl) (by rw [hc]; rfl) (by rw [hc]; rfl)
  · apply h.leave hz rfl (.inl rfl) (by rw [hc]; rfl) (by rw [hc]; rfl) (by rw [hc]; rfl)
    simp [hc, setEmpty, Zoned.setZone, Zoned.decOpen, Zoned.decActive, ZoneCond.isImpOpen, ZoneCond.isOpen,
      ZoneCond.isActive]
  · apply h.leave hz rfl (.inl rfl) (by rw [hc]; rfl) (by rw [hc]; rfl) (by rw [hc]; rfl)
    simp [hc, setEmpty, Zoned.setZone, Zoned.decActive, ZoneCond.isImpOpen, ZoneCond.isOpen, ZoneCond.isActive]
  · apply h.leave hz rfl (.inl rfl) (by rw [hc]; rfl) (by rw [hc]; rfl) (by rw [hc]; rfl)
    simp [hc, setEmpty, Zoned.setZone, ZoneCond.isImpOpen, ZoneCond.isOpen, ZoneCond.isActive]
  · exact h

theorem closeSwitch : Accounted cfg leaked (closeSwitch s zone).1 := by
  have := h.openLe
  have := h.activeLe
  unfold Bius.closeSwitch
  split <;> rename_i hc
  · have ho := h.dec_open hz (by rw [hc]; rfl)
    have hi := h.dec_imp hz (by rw [hc]; rfl)
    have ha := h.dec_active hz (by rw [hc]; rfl)
    unfold setClosed
    split
    · exact h.leave hz rfl (.inl rfl) (by rw [hc]; rfl) (by rw [hc]; rfl) (by rw [hc]; rfl) (by rw [hc]; rfl)
    · refine h.move hz rfl ?_ ?_ ?_ ?_ ?_ ?_ <;>
        simp [hc, Zoned.setCond, Zoned.setZone, Zoned.decOpen, Zoned.decImpOpen, ZoneCond.isOpen,
          ZoneCond.isImpOpen, ZoneCond.isActive, ho.2, hi.2] <;> omega
  · have ho := h.dec_open hz (by rw [hc]; rfl)
    unfold setClosed
    split
    · apply h.leave hz rfl (.inl rfl) (by rw [hc]; rfl) (by rw [hc]; rfl) (by rw [hc]; rfl)
      simp [hc, Zoned.setCond, Zoned.setZone, Zoned.decOpen, Zoned.decActive, ZoneCond.isImpOpen, ZoneCond.isOpen,
        ZoneCond.isActive]
    · refine h.move hz rfl ?_ ?_ ?_ ?_ ?_ ?_ <;>
        simp [hc, Zoned.setCond, Zoned.setZone, Zoned.decOpen, ZoneCond.isOpen, ZoneCond.isImpOpen,
          ZoneCond.isActive, ho.2] <;> omega
  · unfold setClosed
    split
    · apply h.leave hz rfl (.inl rfl) (by rw [hc]; rfl) (by rw [hc]; rfl) (by rw [hc]; rfl)
      simp [hc, Zoned.setCond, Zoned.setZone, Zoned.decActive, ZoneCond.isImpOpen, ZoneCond.isOpen, ZoneCond.isActive]
    · refine h.move hz rfl ?_ ?_ ?_ ?_ ?_ ?_ <;>
        simp [hc, Zoned.setCond, Zoned.setZone, ZoneCond.isOpen, ZoneCond.isImpOpen, ZoneCond.isActive] <;> omega
  · exact h

/-- A zone is opened: the limit of open zones is not reached. -/
theorem enter {z : Zone} (hinfo : s'.zoneInfo = Function.update s.zoneInfo zone z) (explicit : Bool)
    (hold : (s.zoneInfo zone).cond = .empty ∨ (s.zoneInfo zone).cond = .closed)
    (hnew : z.cond = if explicit then .expOpen else .impOpen)
    (hlt : s.numOpenZones < cfg.maxOpenZones) (hopen : s'.numOpenZones = inc32 s.numOpenZones)
    (himp : s'.numImpOpenZones = if explicit then s.numImpOpenZones else inc32 s.numImpOpenZones)
    (hactive : s'.numActiveZones = if (s.zoneInfo zone).cond = .empty then s.numActiveZones + 1 else s.numActiveZones)
    (hactiveLe : s'.numActiveZones ≤ cfg.maxActiveZones) (hwrap : s'.underflow = s.underflow) :
    Accounted cfg leaked s' := by
  have := cfg.open_lt
  have := h.imp_le
  have hinc := inc32_lt (n := s.numOpenZones) (by omega)
  have hinc' := inc32_lt (n := s.numImpOpenZones) (by omega)
  refine h.move hz hinfo ?_ ?_ ?_ ?_ hactiveLe hwrap
  · rw [hopen, hinc, hnew]
    rcases hold with hold | hold <;> rw [hold] <;> cases explicit <;> simp [ZoneCond.isOpen]
  · rw [himp, hinc', hnew]
    rcases hold with hold | hold <;> rw [hold] <;> cases explicit <;> simp [ZoneCond.isImpOpen]
  · rw [hactive, hnew]
    rcases hold with hold | hold <;> rw [hold] <;> cases explicit <;> simp [ZoneCond.isActive]
  · rw [hopen, hinc]; omega

omit hz in
theorem leak (hlt : s.numActiveZones < cfg.maxActiveZones) : Accounted cfg (leaked + 1) s.incActive := by
  have := cfg.active_lt
  have hactive : s.incActive.numActiveZones = s.numActiveZones + 1 := inc32_lt (by omega)
  have heq := h.activeEq
  refine ⟨h.openEq, h.impEq, h.openLe, ?_, ?_, h.noWrap⟩
  · rw [hactive, heq]; exact Nat.add_assoc _ _ _
  · rw [hactive]; exact hlt

theorem openSwitch (explicit : Bool) :
    Accounted cfg (if OpenLeaks cfg s zone then leaked + 1 else leaked) (openSwitch cfg s zone explicit).1 := by
  have := h.openLe
  have := h.activeLe
  have := cfg.active_lt
  cases hc : (s.zoneInfo zone).cond with
  | impOpen =>
    rw [if_neg (by simp [OpenLeaks, hc])]
    have hi := h.dec_imp hz (by rw [hc]; rfl)
    cases explicit
    · simpa [Bius.openSwitch, hc] using h
    · simp only [Bius.openSwitch, hc, if_true]
      refine h.move hz rfl ?_ ?_ ?_ ?_ ?_ ?_ <;>
        simp [hc, Zoned.setCond, Zoned.setZone, Zoned.decImpOpen, ZoneCond.isOpen, ZoneCond.isImpOpen,
          ZoneCond.isActive, hi.2] <;> omega
  | empty =>
    -- counted as active before the number of open zones is looked at
    simp only [Bius.openSwitch, hc]
    by_cases hactive : cfg.maxActiveZones ≤ s.numActiveZones
    · rw [if_neg (fun hl => absurd hl.2.1 (by omega)), if_pos hactive]
      exact h
    · have hinc : s.incActive.numActiveZones = s.numActiveZones + 1 := inc32_lt (by omega)
      rw [if_neg hactive]
      unfold openClosed
      by_cases hopen : cfg.maxOpenZones ≤ s.numOpenZones
      · rw [if_pos ⟨hc, by omega, hopen⟩, if_pos (by exact hopen)]
        split <;> exact h.leak (by omega)
      · rw [if_neg (fun hl => hopen hl.2.2), if_neg (by exact hopen)]
        cases explicit
        · refine h.enter hz rfl false (.inl hc) rfl (by omega) rfl rfl ?_ ?_ rfl
          · rw [hc]; exact hinc
          · exact hinc.trans_le (by omega)
        · refine h.enter hz rfl true (.inl hc) rfl (by omega) rfl rfl ?_ ?_ rfl
          · rw [hc]; exact hinc
          · exact hinc.trans_le (by omega)
  | closed =>
    rw [if_neg (by simp [OpenLeaks, hc])]
    simp only [Bius.openSwitch, hc, openClosed]
    by_cases hopen : cfg.maxOpenZones ≤ s.numOpenZones
    · rw [if_pos hopen]
      split <;> exact h
    · rw [if_neg hopen]
      cases explicit
      · exact h.enter hz rfl false (.inr hc) rfl (by omega) rfl rfl (by rw [hc]; rfl) h.activeLe rfl
      · exact h.enter hz rfl true (.inr hc) rfl (by omega) rfl rfl (by rw [hc]; rfl) h.activeLe rfl
  | _ =>
    rw [if_neg (by simp [OpenLeaks, hc])]
    simpa only [Bius.openSwitch, hc] using h

end Accounted

/-! ## Whole calls -/

variable {cfg}

theorem countZones_initialZone {P : ZoneCond → Bool} (hwp : P .notWp = false) (hempty : P .empty = false) :
    countZones cfg (initialZone cfg) P = 0 := by
  refine List.countP_eq_zero.2 (fun z _ => ?_)
  unfold initialZone
  split
  · simp [hwp]
  · split
    · simp [hempty]
    · simp [hwp]

theorem accounted_initializeZoneInfo {s : Zoned δ} (h : s.underflow = false) :
    Accounted cfg 0 (initializeZoneInfo cfg s) :=
  ⟨(countZones_initialZone rfl rfl).symm, (countZones_initialZone rfl rfl).symm, Nat.zero_le _,
    (countZones_initialZone rfl rfl).symm, Nat.zero_le _, h⟩

/-- Every action keeps the counters in step; only `open_zone_locked` leaks. -/
theorem accounted_act (raw : RawOps δ) {leaked : Nat} {e : ZoneAct} {s : Zoned δ} (he : e.InTable cfg)
    (h : Accounted cfg leaked s) :
    ∃ leaked', Accounted cfg leaked' (e.sem cfg raw s).1 ∧
      (leaked' ≤ leaked ∨ ∃ zone explicit, e = .openSwitch zone explicit ∧ OpenLeaks cfg s zone) := by
  cases e with
  | closeIfImpOpen zone => exact ⟨leaked, h.closeIfImpOpen he, .inl le_rfl⟩
  | openSwitch zone explicit =>
    refine ⟨_, h.openSwitch he explicit, ?_⟩
    by_cases hl : OpenLeaks cfg s zone
    · exact .inr ⟨zone, explicit, rfl, hl⟩
    · rw [if_neg hl]; exact .inl le_rfl
  | fullSwitch zone => exact ⟨leaked, h.fullSwitch he, .inl le_rfl⟩
  | closeSwitch zone => exact ⟨leaked, h.closeSwitch he, .inl le_rfl⟩
  | resetSwitch zone => exact ⟨leaked, h.resetSwitch he, .inl le_rfl⟩
  | initializeZoneInfo => exact ⟨0, accounted_initializeZoneInfo h.noWrap, .inl (Nat.zero_le _)⟩
  | advance zone id offset data =>
    refine ⟨leaked, h.congr (fun z => ?_) rfl rfl rfl rfl, .inl le_rfl⟩
    simp only [ZoneAct.sem, advance, Zoned.setZone, Function.update_apply]
    split
    · next hz => rw [hz]
    · rfl
  | _ => exact ⟨leaked, h.congr (fun _ => rfl) rfl rfl rfl rfl, .inl le_rfl⟩

/-- **Open zones are counted.** After any calls, run one at a time, the counters of
    open and of implicitly open zones are exact, no limit is exceeded and no counter
    has wrapped. -/
theorem zone_accounting (raw : RawOps δ) (disk : δ) {s : Zoned δ}
    (h : Machine.Reach (callStep cfg raw) (fun _ c => c.Valid cfg) (initializeZoned cfg disk) s) :
    s.numOpenZones = countZones cfg s.zoneInfo ZoneCond.isOpen ∧
      s.numImpOpenZones = countZones cfg s.zoneInfo ZoneCond.isImpOpen ∧
      countZones cfg s.zoneInfo ZoneCond.isOpen ≤ cfg.maxOpenZones ∧
      countZones cfg s.zoneInfo ZoneCond.isActive ≤ cfg.maxActiveZones ∧
      s.underflow = false := by
  obtain ⟨leaked, hs⟩ : ∃ leaked, Accounted cfg leaked s := by
    refine h.inv (I := fun s => ∃ leaked, Accounted cfg leaked s) ?_ ⟨0, accounted_initializeZoneInfo rfl⟩
    rintro s c _ hs hc ⟨⟩
    refine ((code_inTable hc.inDisk 0).along (ZoneAct.sem cfg raw) (fun _ _ he => he) s).exec_inv
      (I := fun s => ∃ leaked, Accounted cfg leaked s) _ ?_ hs
    rintro e s he ⟨leaked, hs⟩
    obtain ⟨leaked', hs', -⟩ := accounted_act raw he hs
    exact ⟨leaked', hs'⟩
  have hactive := hs.activeEq
  have hle := hs.activeLe
  exact ⟨hs.openEq, hs.impEq, hs.openEq ▸ hs.openLe, by omega, hs.noWrap⟩

/-- Zone 0 is closed and zone 1 open. -/
theorem zone_accounting_severalCalls :
    ∃ s, Machine.run (callStep twoWideZones ramdisk) (initializeZoned twoWideZones (fun _ => 0)) severalCalls =
      some s ∧
      (s.zoneInfo 0).cond = .closed ∧ (s.zoneInfo 1).cond = .expOpen ∧ s.numOpenZones = 1 ∧
      s.numOpenZones = countZones twoWideZones s.zoneInfo ZoneCond.isOpen ∧
      countZones twoWideZones s.zoneInfo ZoneCond.isActive ≤ 2 := by
  refine ⟨_, rfl, by decide +kernel, by decide +kernel, by decide +kernel, ?_⟩
  have hcounts := zone_accounting ramdisk (fun _ => 0)
    ⟨severalCalls, Machine.Steps.of_run_ok rfl (fun _ c hc => severalCalls_valid c hc)⟩
  exact ⟨hcounts.1, hcounts.2.2.2.1⟩

/-! ## Active zones -/

section
variable (raw : RawOps δ) (s : Zoned δ)

theorem blkStsOk_ne : blkStsOk ≠ blkStsZoneActiveResource := by decide

theorem blkStsIoerr_ne : blkStsIoerr ≠ blkStsZoneActiveResource := by decide

theorem rawStatus_ne (ok : Bool) : rawStatus ok ≠ blkStsZoneActiveResource := by
  cases ok <;> decide

theorem exec_openZoneLocked (zone : Nat) (explicit : Bool) :
    ((openZoneLocked cfg zone explicit).exec (ZoneAct.sem cfg raw) s).2 =
      match (openSwitch cfg s zone explicit).2 with
      | .result status => status
      | .closeImp => blkStsOk := by
  rw [exec_openZoneLocked_eq (sem_switches raw)]
  cases (openSwitch cfg s zone explicit).2 with
  | result status => rfl
  | closeImp => rfl

theorem openSwitch_activeResource {zone : Nat} {explicit : Bool}
    (h : (openSwitch cfg s zone explicit).2 = .result blkStsZoneActiveResource) :
    cfg.maxActiveZones ≤ s.numActiveZones := by
  unfold openSwitch openClosed at h
  split at h <;> (repeat' split at h) <;> first | assumption | simp_all [blkStsOk, blkStsIoerr,
    blkStsZoneActiveResource, blkStsZoneOpenResource]

theorem openZoneLocked_activeResource {zone : Nat} {explicit : Bool}
    (h : ((openZoneLocked cfg zone explicit).exec (ZoneAct.sem cfg raw) s).2 = blkStsZoneActiveResource) :
    cfg.maxActiveZones ≤ s.numActiveZones := by
  rw [exec_openZoneLocked] at h
  cases hnext : (openSwitch cfg s zone explicit).2 with
  | result status =>
    rw [hnext] at h
    change status = _ at h
    rw [h] at hnext
    exact openSwitch_activeResource s hnext
  | closeImp =>
    rw [hnext] at h
    exact absurd h (by decide)

theorem reserveAndWrite_status (id zone offset : Nat) (w : WriteArgs) (position : Option Nat) :
    ((reserveAndWrite id zone offset w position).exec (ZoneAct.sem cfg raw) s).2.status ≠ blkStsZoneActiveResource := by
  show ((storeRest id zone offset w position (advance s zone id offset w.data).2).exec (ZoneAct.sem cfg raw)
    (advance s zone id offset w.data).1).2.status ≠ _
  cases (advance s zone id offset w.data).2 <;> exact rawStatus_ne _

theorem reportLoop_status (n zone : Nat) (acc : List Zone) :
    ((reportLoop n zone acc).exec (ZoneAct.sem cfg raw) s).2.status = blkStsOk := by
  induction n generalizing zone acc with
  | zero => rfl
  | succ n ih => exact ih _ _

theorem writeRest_activeResource {id zone : Nat} {w : WriteArgs} {position : Option Nat} {next : WriteNext}
    (h : ((writeRest cfg id zone w position next).exec (ZoneAct.sem cfg raw) s).2.status = blkStsZoneActiveResource) :
    cfg.maxActiveZones ≤ s.numActiveZones := by
  cases next with
  | refused => exact absurd h blkStsIoerr_ne
  | conventional => exact absurd h (rawStatus_ne _)
  | reserve offset opens =>
    rw [writeRest, Prog.exec_bind] at h
    by_cases hok : ((if opens then openZoneLocked cfg zone false else pure blkStsOk : ZoneProg Nat).exec
        (ZoneAct.sem cfg raw) s).2 ≠ blkStsOk
    · rw [if_pos hok] at h
      cases opens with
      | false => exact absurd rfl hok
      | true => exact openZoneLocked_activeResource raw s h
    · rw [if_neg hok] at h
      exact absurd h (reserveAndWrite_status _ _ _ _ _ _ _)

theorem closeSwitch_status (zone : Nat) : (closeSwitch s zone).2 ≠ blkStsZoneActiveResource := by
  unfold closeSwitch
  split
  · exact blkStsOk_ne
  · exact blkStsOk_ne
  · exact blkStsOk_ne
  · exact blkStsIoerr_ne

theorem resetSwitch_status {zone status : Nat} (h : (resetSwitch s zone).2 = some status) :
    status ≠ blkStsZoneActiveResource := by
  unfold resetSwitch at h
  split at h <;> cases h
  · exact blkStsOk_ne
  · exact blkStsIoerr_ne

theorem openDecision_status {zone status : Nat} (h : openDecision s zone = some status) :
    status ≠ blkStsZoneActiveResource := by
  unfold openDecision at h
  split at h <;> cases h
  · exact blkStsOk_ne
  · exact blkStsIoerr_ne

/-- Only `open_zone_locked` refuses with `BLK_STS_ZONE_ACTIVE_RESOURCE`, and only at the
    limit of active zones. -/
theorem callAlone_activeResource {c : ZoneCall} (h : (callAlone cfg raw s c).2.status = blkStsZoneActiveResource) :
    cfg.maxActiveZones ≤ s.numActiveZones := by
  cases c with
  | read offset length => exact absurd h (rawStatus_ne _)
  | write data offset => exact writeRest_activeResource raw s h
  | append data offset => exact writeRest_activeResource raw s h
  | reportZones offset nrZones =>
    rw [show (callAlone cfg raw s (.reportZones offset nrZones)).2.status = blkStsOk from reportLoop_status _ _ _ _ _] at h
    exact absurd h blkStsOk_ne
  | openZone offset =>
    have hexec : (callAlone cfg raw s (.openZone offset)).2.status =
        ((openDecided cfg (zoneNumber cfg offset) (openDecision s (zoneNumber cfg offset))).exec
          (ZoneAct.sem cfg raw) s).2 := by
      simp only [callAlone, ZoneCall.code, zonedOpenZone, Prog.take_bind, Prog.exec_lock, perform, Prog.perform_bind,
        Prog.exec_act, Prog.exec_bind]
      rfl
    rw [hexec] at h
    cases hd : openDecision s (zoneNumber cfg offset) with
    | none =>
      rw [hd] at h
      exact openZoneLocked_activeResource raw s h
    | some status =>
      rw [hd] at h
      exact absurd h (openDecision_status s hd)
  | closeZone offset => exact absurd h (closeSwitch_status s _)
  | finishZone offset => exact absurd h blkStsOk_ne
  | resetZone offset =>
    cases hr : (resetSwitch s (zoneNumber cfg offset)).2 with
    | none =>
      simp only [callAlone, ZoneCall.code, zonedResetZone, Prog.take_bind, Prog.exec_lock, perform, Prog.perform_bind,
        Prog.exec_act, Prog.release_bind, Prog.exec_unlock, ZoneAct.sem, hr] at h
      exact absurd h (rawStatus_ne _)
    | some status =>
      simp only [callAlone, ZoneCall.code, zonedResetZone, Prog.take_bind, Prog.exec_lock, perform, Prog.perform_bind,
        Prog.exec_act, Prog.release_bind, Prog.exec_unlock, ZoneAct.sem, hr] at h
      exact absurd h (resetSwitch_status s hr)
  | resetAllZone => exact absurd h (rawStatus_ne _)

end

/-- The call counts an empty zone as active and leaves it empty: it opens that zone
    while there is room for an active zone and none for an open one. -/
def ZoneCall.Leaks (cfg : ZonedConfig) (s : Zoned δ) (c : ZoneCall) : Prop :=
  ∃ zone explicit, c.opening cfg s = some (zone, explicit) ∧ OpenLeaks cfg s zone

/-- Where the call does not leak, an exact count of active zones stays exact. -/
theorem accounted_call (raw : RawOps δ) {s : Zoned δ} {c : ZoneCall} (h : Accounted cfg 0 s) (hc : c.Valid cfg)
    (hleak : ¬ c.Leaks cfg s) : Accounted cfg 0 (callAlone cfg raw s c).1 := by
  have htable := (code_inTable hc.inDisk 0).along (ZoneAct.sem cfg raw) (W := fun e _ => e.InTable cfg)
      (fun _ _ he => he) s
  refine ((htable.and _ (code_opens raw s c 0)).exec_inv (I := Accounted cfg 0) _ ?_ h)
  rintro e s' ⟨he, hopens⟩ hs'
  obtain ⟨leaked, hs, hle | ⟨zone, explicit, rfl, hl⟩⟩ := accounted_act raw he hs'
  · rwa [Nat.le_zero.1 hle] at hs
  · obtain ⟨ho, rfl⟩ := hopens zone explicit rfl
    exact absurd ⟨zone, explicit, ho, hl⟩ hleak

/-- **Active zones are counted, as long as no call leaks.** -/
theorem active_accounting (raw : RawOps δ) (disk : δ) {s : Zoned δ}
    (h : Machine.Reach (callStep cfg raw) (fun s c => c.Valid cfg ∧ ¬ c.Leaks cfg s) (initializeZoned cfg disk) s) :
    s.numActiveZones = countZones cfg s.zoneInfo ZoneCond.isActive ∧
      ∀ c : ZoneCall, (callAlone cfg raw s c).2.status = blkStsZoneActiveResource →
        countZones cfg s.zoneInfo ZoneCond.isActive = cfg.maxActiveZones := by
  have hs : Accounted cfg 0 s := by
    refine h.inv (I := Accounted cfg 0) ?_ (accounted_initializeZoneInfo rfl)
    rintro s c _ hs ⟨hc, hleak⟩ ⟨⟩
    exact accounted_call raw hs hc hleak
  have hactive := hs.activeEq
  have hle := hs.activeLe
  refine ⟨hactive, fun c hc => ?_⟩
  have := callAlone_activeResource raw s hc
  omega

/-- Both zones are active; when zone 1 is opened there is room for an open zone again. -/
theorem active_accounting_severalCalls :
    ∃ s, Machine.run (callStep twoWideZones ramdisk) (initializeZoned twoWideZones (fun _ => 0)) severalCalls =
      some s ∧
      s.numActiveZones = 2 ∧ s.numActiveZones = countZones twoWideZones s.zoneInfo ZoneCond.isActive := by
  refine ⟨_, rfl, by decide +kernel, (active_accounting ramdisk (fun _ => 0) ⟨severalCalls,
    .cons ⟨severalCalls_valid _ (by simp [severalCalls]), ?_⟩ rfl
    (.cons ⟨severalCalls_valid _ (by simp [severalCalls]), ?_⟩ rfl
    (.cons ⟨severalCalls_valid _ (by simp [severalCalls]), ?_⟩ rfl
    (.cons ⟨severalCalls_valid _ (by simp [severalCalls]), ?_⟩ rfl (.nil _))))⟩).1⟩
  · rintro ⟨zone, explicit, -, -, -, hopen⟩
    exact absurd hopen (by decide)
  · rintro ⟨zone, explicit, ho, -⟩
    cases ho
  · rintro ⟨zone, explicit, -, -, -, hopen⟩
    exact absurd hopen (by decide +kernel)
  · rintro ⟨zone, explicit, -, -, hactive, -⟩
    exact absurd hactive (by decide +kernel)

/-- Zone 0 is open, which is the limit; opening zone 1 fails, but the zone has been
    counted as active. The next attempt finds the limit of active zones reached. -/
theorem active_accounting_leaks :
    ∃ s, Machine.Reach (callStep twoZones ramdisk) (fun _ c => c.Valid twoZones)
        (initializeZoned twoZones (fun _ => 0)) s ∧
      s.numActiveZones ≠ countZones twoZones s.zoneInfo ZoneCond.isActive ∧
      ∃ c : ZoneCall, c.Valid twoZones ∧ (callAlone twoZones ramdisk s c).2.status = blkStsZoneActiveResource ∧
        countZones twoZones s.zoneInfo ZoneCond.isActive < twoZones.maxActiveZones := by
  have h₀ : (ZoneCall.openZone 0).Valid twoZones := by change 0 < 2 * (1 * sectorSize); decide
  have h₁ : (ZoneCall.openZone 512).Valid twoZones := by change 512 < 2 * (1 * sectorSize); decide
  exact ⟨_, ⟨[.openZone 0, .openZone 512], .cons h₀ rfl (.cons h₁ rfl (.nil _))⟩, by decide, .openZone 512, h₁,
    by decide, by decide⟩

end Bius
