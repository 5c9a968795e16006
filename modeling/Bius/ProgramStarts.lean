import Bius.ProgramCalls

/- The rest of the steps: the device is made and removed (`Hosted.assign`), and programs
   start, start threads and exit (`Spawned.hosted`, `Hosted.reprogram`). Together with the
   calls this is every step (`hosted_step`). -/
namespace Bius

open Sums Programs

section
variable {s : Programs} {t c d : Nat}

/-! ## The device is made, and removed -/

theorem Hosted.counted_zero (h : Hosted s) {p : Nat} (hd : s.device p = none) : s.counted p = 0 := by
  by_contra hne
  obtain ⟨u, hu, hpos⟩ := exists_of_total_pos (Nat.pos_of_ne_zero hne)
  have hcu : s.owner u = p ∧ countsAt (s.thread u) (s.races.point u) = true := by
    by_contra hnot
    rw [if_neg hnot] at hpos
    omega
  have hfit := h.fits u hu
  have huses := h.uses u hu
  have hatt := h.connected.attached u hu
  rw [hcu.1, hd] at huses hatt
  have hcounts := hcu.2
  generalize s.thread u = x at hfit hatt hcounts
  generalize s.races.point u = y at hfit huses hcounts
  cases hfit with
  | counted c e => cases huses e rfl
  | attached c | serving c | exiting c | leaving c =>
    obtain ⟨e, he, -⟩ := hatt c rfl
    cases he
  | _ => cases hcounts

/-- Nobody of a program that has lost its last connection is attached. -/
theorem Hosted.not_attached (h : Hosted s) {p : Nat} (hd : s.device p = some d) (hzero : s.races.devs.numConnection d = 0)
    {u : Nat} (hu : u < s.threads) (ho : s.owner u = p) : (s.thread u).attaches = false := by
  cases ha : (s.thread u).attaches with
  | false => rfl
  | true =>
    have hcounts : countsAt (s.thread u) (s.races.point u) = true := by
      generalize s.thread u = x at ha
      generalize s.races.point u = y
      cases y <;> first | rfl | exact ha
    have hle := le_total (n := s.threads)
      (f := fun u => if s.owner u = p ∧ countsAt (s.thread u) (s.races.point u) = true then 1 else 0) hu
    rw [if_pos ⟨ho, hcounts⟩] at hle
    have hcount := h.count p d hd
    rw [hzero] at hcount
    exact absurd (hcount ▸ hle : 1 ≤ 0) (by decide)

/-- In a section of thread `t`, the device of its program becomes `new`, while none of
    its threads is attached. -/
structure MayAssign (s : Programs) (t : Nat) (y : AttachPoint) (devs : Devices) (new : Option Nat) : Prop where
  lt : t < s.threads
  fits : Together (s.thread t) y
  apart : StandsApart s t (s.thread t) y
  opened : devs.opened = s.races.devs.opened
  blockDev : devs.blockDev = s.races.devs.blockDev
  free : ∀ u < s.threads, s.owner u = s.owner t → (s.thread u).attaches = false
  only : ∀ u < s.threads, s.owner u = s.owner t → u ≠ t → (s.races.point u).device = none
  uses : ∀ d, y.device = some d → new = some d
  unmade : new = none ∨ (s.its t).main = t ∧ (s.thread t).before = false ∧ ∀ c, y ≠ .init c
  uncounted : countsAt (s.thread t) (s.races.point t) = false ∧ countsAt (s.thread t) y = false
  numbers : ∀ q d, q ≠ s.owner t → s.device q = some d → devs.numConnection d = s.races.devs.numConnection d
  count : ∀ d, new = some d → devs.numConnection d = s.counted (s.owner t)
  removes : y.removes = none
  used : ∀ d, new = some d → keepsAt (s.thread t) y = true

/-- `s'` is `s` after this section. -/
structure Assigned (s : Programs) (t : Nat) (y : AttachPoint) (devs : Devices) (new : Option Nat)
    (s' : Programs) : Prop where
  thread : s'.thread = s.thread
  owner : s'.owner = s.owner
  program : s'.program = s.program
  threads : s'.threads = s.threads
  programs : s'.programs = s.programs
  devices : s'.races.devs = devs
  point : ∀ u, s'.races.point u = if u = t then y else s.races.point u
  self : s'.device (s.owner t) = new
  other : ∀ q, q ≠ s.owner t → s'.device q = s.device q

theorem assigned (s : Programs) (t : Nat) (y : AttachPoint) (devs : Devices) (new : Option Nat) :
    Assigned s t y devs new
      ((s.go t (s.thread t) (s.races.go t y devs)).setDevice (Function.update s.device (s.owner t) new)) where
  thread := Function.update_eq_self _ _
  owner := rfl
  program := rfl
  threads := rfl
  programs := rfl
  devices := rfl
  point := go_point _ _ _ _
  self := Function.update_self _ _ _
  other _ hq := Function.update_of_ne hq _ _

section
variable {s' : Programs} {y : AttachPoint} {devs : Devices} {new : Option Nat}

theorem Assigned.its (e : Assigned s t y devs new s') : s'.its = s.its := by
  funext u
  unfold Programs.its
  rw [e.program, e.owner]

theorem Assigned.gone (e : Assigned s t y devs new s') (hhere : ¬ s.Gone (s.owner t)) {p : Nat} (hg : s.Gone p) :
    s'.Gone p := by
  obtain ⟨he, hq, hc⟩ := hg
  refine ⟨by rw [e.program]; exact he, fun u hu ho => ?_, fun u hu ho => ?_⟩
  · rw [e.threads] at hu
    rw [e.owner] at ho
    have hut : u ≠ t := by
      intro hut
      rw [hut] at ho
      exact hhere (ho ▸ ⟨he, hq, hc⟩)
    rw [e.point, if_neg hut]
    exact hq u hu ho
  · rw [e.threads] at hu
    rw [e.owner] at ho
    rw [e.thread]
    exact hc u hu ho

theorem Assigned.roster (e : Assigned s t y devs new s') (h : Roster s) : Roster s' := by
  have hmembers : s'.members = s.members := by
    funext p
    unfold Programs.members
    rw [e.owner, e.threads]
  refine ⟨?_, ?_, ?_, ?_⟩
  · rw [e.owner, e.threads, e.programs]
    exact h.owned
  · rw [e.owner, e.threads, e.programs, e.program]
    exact h.main
  · rw [e.programs, hmembers, e.program]
    exact h.team
  · rw [e.programs, e.program]
    exact h.size

theorem Assigned.connected (e : Assigned s t y devs new s') (h : Connected s) (m : MayAssign s t y devs new) :
    Connected s' := by
  refine ⟨?_, ?_, ?_, ?_, ?_, fun u hu c hc => ?_⟩
  · rw [e.devices, m.opened]
    exact h.nodup
  · rw [e.devices, m.opened, m.blockDev]
    exact h.closed
  · rw [e.devices, m.opened, e.threads, e.thread]
    exact h.opened
  · rw [e.devices, m.opened, e.threads, e.thread]
    exact h.held
  · rw [e.threads, e.thread]
    exact h.alone
  · rw [e.threads] at hu
    rw [e.thread] at hc ⊢
    rw [e.devices, m.blockDev, e.owner]
    have hatt := h.attached u hu c hc
    by_cases ho : s.owner u = s.owner t
    · rw [m.free u hu ho] at hatt ⊢
      exact hatt
    · rw [e.other _ ho]
      exact hatt

theorem Assigned.counted (e : Assigned s t y devs new s') (m : MayAssign s t y devs new) : s'.counted = s.counted := by
  funext p
  unfold Programs.counted
  rw [e.threads]
  refine total_congr (fun u _ => ?_)
  rw [e.owner, e.thread, e.point]
  by_cases hut : u = t
  · rw [if_pos hut, hut, m.uncounted.1, m.uncounted.2]
  · rw [if_neg hut]

theorem MayAssign.elsewhere (m : MayAssign s t y devs new) {u : Nat} (hu : u < s.threads) (hut : u ≠ t)
    (hd : (s.races.point u).device = some d) : s.owner u ≠ s.owner t := by
  intro ho
  rw [m.only u hu ho hut] at hd
  cases hd

theorem Assigned.uses (e : Assigned s t y devs new s') (h : Hosted s) (m : MayAssign s t y devs new) {u : Nat}
    (hu : u < s.threads) (hd : (s'.races.point u).device = some d) : s'.device (s.owner u) = some d := by
  rw [e.point] at hd
  by_cases hut : u = t
  · rw [if_pos hut] at hd
    rw [hut, e.self]
    exact m.uses d hd
  · rw [if_neg hut] at hd
    rw [e.other _ (m.elsewhere hu hut hd)]
    exact h.uses u hu d hd

theorem Assigned.unmade (e : Assigned s t y devs new s') (h : Hosted s) (m : MayAssign s t y devs new) {p : Nat}
    (hp : p < s.programs)
    (hb : (s.thread (s.program p).main).before = true ∨ ∃ c, s'.races.point (s.program p).main = .init c) :
    s'.device p = none := by
  rw [e.point] at hb
  by_cases hpt : p = s.owner t
  · rw [hpt, e.self]
    rcases m.unmade with hnew | ⟨hmain, hbefore, hinit⟩
    · exact hnew
    · change (s.program (s.owner t)).main = t at hmain
      rw [hpt, hmain, if_pos rfl, hbefore] at hb
      rcases hb with hb | ⟨c, hb⟩
      · cases hb
      · exact absurd hb (hinit c)
  · have hmt : (s.program p).main ≠ t := by
      intro he
      have ho := (h.roster.main p hp).2
      rw [he] at ho
      exact hpt ho.symm
    rw [if_neg hmt] at hb
    rw [e.other p hpt]
    exact h.unmade p hp hb

theorem Assigned.count (e : Assigned s t y devs new s') (h : Hosted s) (m : MayAssign s t y devs new) {p : Nat}
    (hd : s'.device p = some d) : devs.numConnection d = s.counted p := by
  by_cases hpt : p = s.owner t
  · rw [hpt, e.self] at hd
    rw [hpt]
    exact m.count d hd
  · rw [e.other p hpt] at hd
    rw [m.numbers p d hpt hd]
    exact h.count p d hd

theorem Assigned.empty (e : Assigned s t y devs new s') (h : Hosted s) (m : MayAssign s t y devs new) {u : Nat}
    (hu : u < s.threads) (hd : (s'.races.point u).removes = some d) : devs.numConnection d = 0 := by
  rw [e.point] at hd
  by_cases hut : u = t
  · rw [if_pos hut, m.removes] at hd
    cases hd
  · rw [if_neg hut] at hd
    have hdev := (AttachPoint.device_of_removes hd).1
    rw [m.numbers _ d (m.elsewhere hu hut hdev) (h.uses u hu d hdev)]
    exact h.empty u hu d hd

theorem Assigned.used (e : Assigned s t y devs new s') (h : Hosted s) (m : MayAssign s t y devs new) {p : Nat}
    (hd : s'.device p = some d) :
    ∃ u < s.threads, s.owner u = p ∧ keepsAt (s.thread u) (s'.races.point u) = true := by
  by_cases hpt : p = s.owner t
  · rw [hpt, e.self] at hd
    refine ⟨t, m.lt, hpt.symm, ?_⟩
    rw [e.point, if_pos rfl]
    exact m.used d hd
  · rw [e.other p hpt] at hd
    obtain ⟨u, hu, ho, hk⟩ := h.used p d hd
    have hut : u ≠ t := by
      intro hut
      rw [hut] at ho
      exact hpt ho.symm
    refine ⟨u, hu, ho, ?_⟩
    rw [e.point, if_neg hut]
    exact hk

theorem Assigned.hosted (e : Assigned s t y devs new s') (h : Hosted s) (m : MayAssign s t y devs new) (hlist : OnList s')
    (hending : Ending s') : Hosted s' := by
  refine ⟨e.roster h.roster, hlist, e.connected h.connected m, hending, fun p q hp hq hnp hnq hname => ?_,
    fun u hu => ?_, fun u hu => ?_, fun u hu d hd => ?_, fun p hp hb => ?_, ?_, ?_, fun p d hd => ?_,
      fun u hu d hd => ?_, fun p d hd => ?_⟩
  · rw [e.programs] at hp hq
    rw [e.program] at hname
    exact h.names p q hp hq (fun hg => hnp (e.gone m.apart.here hg)) (fun hg => hnq (e.gone m.apart.here hg)) hname
  · rw [e.threads] at hu
    have hut : u ≠ t := fun he => absurd m.lt (by omega)
    rw [e.point, if_neg hut]
    exact h.idle u hu
  · rw [e.threads] at hu
    rw [e.thread, e.point]
    by_cases hut : u = t
    · rw [if_pos hut, hut]
      exact m.fits
    · rw [if_neg hut]
      exact h.fits u hu
  · rw [e.owner]
    exact e.uses h m (e.threads ▸ hu) hd
  · rw [e.program, e.thread] at hb
    exact e.unmade h m (e.programs ▸ hp) hb
  · rw [e.threads, e.its, e.thread]
    exact h.workers
  · rw [e.programs, e.program, e.thread]
    exact h.looped
  · rw [e.devices, e.counted m]
    exact e.count h m hd
  · rw [e.devices]
    exact e.empty h m (e.threads ▸ hu) hd
  · rw [e.threads, e.owner, e.thread]
    exact e.used h m hd

end

theorem Hosted.assign (h : Hosted s) {y : AttachPoint} {devs : Devices} {new : Option Nat} (m : MayAssign s t y devs new)
    (hlist : OnList ((s.go t (s.thread t) (s.races.go t y devs)).setDevice (Function.update s.device (s.owner t) new))) :
    Hosted ((s.go t (s.thread t) (s.races.go t y devs)).setDevice (Function.update s.device (s.owner t) new)) := by
  have hending : Ending (s.go t (s.thread t) (s.races.go t y devs)) := h.ending.go m.fits m.apart
  exact (assigned s t y devs new).hosted h m hlist ⟨hending.exits, hending.settled, hending.last⟩

theorem OnList.fresh (h : OnList s) {q e : Nat} (hq : s.device q = some e) : e ≠ s.races.devs.created := by
  intro he
  exact Nat.lt_irrefl _ (he ▸ h.made e (h.device q e hq).2.1)

theorem OnList.create (h : OnList s) (howner : s.owner t < s.programs) (hnone : s.device (s.owner t) = none)
    (y : AttachPoint) :
    OnList ((s.go t (s.thread t) (s.races.go t y (s.races.devs.createBlockDevice (s.its t).diskName))).setDevice
      (Function.update s.device (s.owner t) (some s.races.devs.created))) := by
  have hnew : s.races.devs.created ∉ s.races.devs.disks := fun hmem => Nat.lt_irrefl _ (h.made _ hmem)
  refine ⟨fun q e hq => ?_, fun q r e hq hr => ?_, fun e he => ?_, ?_, fun e he => ?_⟩
  · change Function.update s.device (s.owner t) _ q = some e at hq
    by_cases hqt : q = s.owner t
    · subst hqt
      rw [Function.update_self] at hq
      cases hq
      refine ⟨howner, List.mem_append_right _ (List.mem_singleton_self _), ?_⟩
      show cString (Function.update s.races.devs.name s.races.devs.created _ _) = _
      rw [Function.update_self]
      rfl
    · rw [Function.update_of_ne hqt] at hq
      obtain ⟨hqp, hmem, hname⟩ := h.device q e hq
      refine ⟨hqp, List.mem_append_left _ hmem, ?_⟩
      show cString (Function.update s.races.devs.name s.races.devs.created _ _) = _
      rw [Function.update_of_ne (h.fresh hq)]
      exact hname
  · change Function.update s.device (s.owner t) _ q = some e at hq
    change Function.update s.device (s.owner t) _ r = some e at hr
    by_cases hqt : q = s.owner t <;> by_cases hrt : r = s.owner t
    · rw [hqt, hrt]
    · rw [hqt, Function.update_self] at hq
      rw [Function.update_of_ne hrt] at hr
      exact absurd (Option.some.inj hq).symm (h.fresh hr)
    · rw [hrt, Function.update_self] at hr
      rw [Function.update_of_ne hqt] at hq
      exact absurd (Option.some.inj hr).symm (h.fresh hq)
    · rw [Function.update_of_ne hqt] at hq
      rw [Function.update_of_ne hrt] at hr
      exact h.only q r e hq hr
  · rcases List.mem_append.1 he with he | he
    · obtain ⟨q, hq⟩ := h.listed e he
      have hqt : q ≠ s.owner t := by
        intro hqt
        rw [hqt, hnone] at hq
        cases hq
      exact ⟨q, (Function.update_of_ne hqt _ _).trans hq⟩
    · rw [List.mem_singleton.1 he]
      exact ⟨s.owner t, Function.update_self _ _ _⟩
  · exact List.nodup_append.2
      ⟨h.nodup, by simp, fun a ha b hb heq => hnew (by rw [← List.mem_singleton.1 hb, ← heq]; exact ha)⟩
  · rcases List.mem_append.1 he with he | he
    · exact Nat.lt_succ_of_lt (h.made e he)
    · rw [List.mem_singleton.1 he]
      exact Nat.lt_succ_self _

theorem OnList.listDel (h : OnList s) (hdev : s.device (s.owner t) = some d) (y : AttachPoint) :
    OnList ((s.go t (s.thread t) (s.races.go t y (s.races.devs.listDel d))).setDevice
      (Function.update s.device (s.owner t) none)) := by
  have hmem : ∀ e, e ∈ s.races.devs.disks.erase d ↔ e ≠ d ∧ e ∈ s.races.devs.disks :=
      fun e => h.nodup.mem_erase_iff
  -- only the other programs have a device, and it is another one
  have hold : ∀ q e, Function.update s.device (s.owner t) none q = some e → q ≠ s.owner t ∧
      s.device q = some e := by
    intro q e hq
    by_cases hqt : q = s.owner t
    · rw [hqt, Function.update_self] at hq
      cases hq
    · rw [Function.update_of_ne hqt] at hq
      exact ⟨hqt, hq⟩
  refine ⟨fun q e hq => ?_, fun q r e hq hr => ?_, fun e he => ?_, h.nodup.erase d, fun e he => ?_⟩
  · obtain ⟨hqt, hq⟩ := hold q e hq
    obtain ⟨hqp, hlist, hname⟩ := h.device q e hq
    have hed : e ≠ d := by
      intro hed
      rw [hed] at hq
      exact hqt (h.only _ _ _ hq hdev)
    exact ⟨hqp, (hmem e).2 ⟨hed, hlist⟩, hname⟩
  · exact h.only q r e (hold q e hq).2 (hold r e hr).2
  · obtain ⟨hed, he⟩ := (hmem e).1 he
    obtain ⟨q, hq⟩ := h.listed e he
    have hqt : q ≠ s.owner t := by
      intro hqt
      rw [hqt, hdev] at hq
      exact hed (Option.some.inj hq).symm
    exact ⟨q, (Function.update_of_ne hqt _ _).trans hq⟩
  · exact h.made e ((hmem e).1 he).2

/-- Nobody of a program without a device is attached, or in a section on one. -/
theorem Hosted.free (h : Hosted s) {u : Nat} (hu : u < s.threads) (hnone : s.device (s.owner u) = none) :
    (s.thread u).attaches = false ∧ (s.races.point u).device = none := by
  refine ⟨?_, ?_⟩
  · cases ha : (s.thread u).attaches with
    | false => rfl
    | true =>
      have hatt := h.connected.attached u hu
      rw [hnone] at hatt
      generalize s.thread u = x at ha hatt
      cases x with
      | attached b | serving b =>
        obtain ⟨d, hd, -⟩ := hatt b rfl
        cases hd
      | _ => cases ha
  · cases hd : (s.races.point u).device with
    | none => rfl
    | some d =>
      have huses := h.uses u hu d hd
      rw [hnone] at huses
      cases huses

theorem Hosted.create (h : Hosted s) (ht : t < s.threads) (hp : s.races.point t = .init c) (hmain : (s.its t).main = t) :
    Hosted ((s.go t (s.thread t) (s.races.go t (.got c s.races.devs.created)
      (s.races.devs.createBlockDevice (s.its t).diskName))).setDevice
        (Function.update s.device (s.owner t) (some s.races.devs.created))) := by
  have hx : s.thread t = .initializing c := (hp ▸ h.fits t ht).init_thread
  have hnone : s.device (s.owner t) = none := h.unmade_of ht hmain (Or.inr ⟨c, hp⟩)
  refine h.assign ⟨ht, hx ▸ .got c _, h.apart_call ht (by rw [hp]; simp) Or.inl (fun hl => (by cases hl))
    (fun _ => (by rw [hp]; rfl)), rfl, rfl, fun u hu ho => (h.free hu (ho ▸ hnone)).1,
      fun u hu ho _ => (h.free hu (ho ▸ hnone)).2, fun d hd => hd,
    Or.inr ⟨hmain, by rw [hx]; rfl, by simp⟩, by
      rw [hx, hp]; exact ⟨rfl, rfl⟩, fun q d _ hd => ?_, fun d hd => ?_, rfl,
    fun d _ => by rw [hx]; rfl⟩ (h.onList.create (h.roster.owned t ht) hnone _)
  · exact Function.update_of_ne (h.onList.fresh hd) _ _
  · cases hd
    rw [h.counted_zero hnone]
    exact Function.update_self _ _ _

theorem Hosted.listDel (h : Hosted s) (ht : t < s.threads) (hp : s.races.point t = .unlinking d) :
    Hosted ((s.go t (s.thread t) (s.races.go t .outside (s.races.devs.listDel d))).setDevice
      (Function.update s.device (s.owner t) none)) := by
  have hx : s.thread t = .closed := (h.fits t ht).removes_thread (by rw [hp]; rfl)
  have hdev : s.device (s.owner t) = some d := h.uses t ht d (by rw [hp]; rfl)
  have hzero := h.empty t ht d (by rw [hp]; rfl)
  refine h.assign ⟨ht, hx ▸ .closed, h.apart_call ht (by rw [hp]; simp) Or.inl (fun hl => (by cases hl))
    (fun he => (by cases he)), rfl, rfl, fun u hu ho => h.not_attached hdev hzero hu ho, fun u hu ho hut => ?_,
      fun e he => (by cases he), Or.inl rfl,
    by rw [hx, hp]; exact ⟨rfl, rfl⟩, fun q e _ _ => rfl, fun e he => (by cases he), rfl, fun e he => (by cases he)⟩
    (h.onList.listDel hdev _)
  rw [h.ending.last t u ht hu ho (by rw [hp]; rfl) hut]
  rfl

/-! ## Programs start, start threads, and exit -/

theorem Hosted.reprogram (h : Hosted s) {p : Nat} {x : Program} (hp : p < s.programs)
    (hname : x.diskName = (s.program p).diskName) (hmain : x.main = (s.program p).main)
    (hthreads : x.numThreads = (s.program p).numThreads) (hexit : (s.program p).exiting = true → x.exiting = true)
    (hnext : (s.program p).next ≤ x.next) (hteam : s.members p + x.refusals = x.next + 1)
    (hsize : x.next + 1 ≤ x.numThreads) : Hosted (s.setProgram p x) := by
  have hold : ∀ q, (Function.update s.program p x q).diskName = (s.program q).diskName ∧
      (Function.update s.program p x q).main = (s.program q).main ∧
      (Function.update s.program p x q).numThreads = (s.program q).numThreads ∧
      ((s.program q).exiting = true → (Function.update s.program p x q).exiting = true) ∧
      (s.program q).next ≤ (Function.update s.program p x q).next := by
    intro q
    by_cases hq : q = p
    · rw [hq, Function.update_self]
      exact ⟨hname, hmain, hthreads, hexit, hnext⟩
    · rw [Function.update_of_ne hq]
      exact ⟨rfl, rfl, rfl, id, Nat.le_refl _⟩
  refine ⟨⟨h.roster.owned, fun q hq => ?_, fun q hq => ?_, fun q hq => ?_⟩,
    ⟨fun q d hd => ?_, h.onList.only, h.onList.listed, h.onList.nodup, h.onList.made⟩,
    ⟨h.connected.nodup, h.connected.closed, h.connected.opened, h.connected.held, h.connected.alone,
      h.connected.attached⟩,
    ⟨fun u hu hl => ?_, h.ending.settled, h.ending.last⟩, fun q r hq hr hnq hnr hqr => ?_, h.idle, h.fits, h.uses,
    fun q hq hb => ?_, fun u hu hne => ?_, fun q hq b hb => ?_, h.count, h.empty, h.used⟩
  · show (Function.update s.program p x q).main < s.threads ∧ s.owner (Function.update s.program p x q).main = q
    rw [(hold q).2.1]
    exact h.roster.main q hq
  · show s.members q + (Function.update s.program p x q).refusals = (Function.update s.program p x q).next + 1
    by_cases hqp : q = p
    · rw [hqp, Function.update_self]
      exact hteam
    · rw [Function.update_of_ne hqp]
      exact h.roster.team q hq
  · show (Function.update s.program p x q).next + 1 ≤ (Function.update s.program p x q).numThreads ∧
      (Function.update s.program p x q).numThreads < 2 ^ 31
    by_cases hqp : q = p
    · rw [hqp, Function.update_self]
      exact ⟨hsize, hthreads ▸ (h.roster.size p hp).2⟩
    · rw [Function.update_of_ne hqp]
      exact h.roster.size q hq
  · obtain ⟨hq, hmem, hnd⟩ := h.onList.device q d hd
    exact ⟨hq, hmem, hnd.trans (congrArg cString (hold q).1.symm)⟩
  · exact (hold (s.owner u)).2.2.2.1 (h.ending.exits u hu hl)
  · have hgone : ∀ q, s.Gone q → (s.setProgram p x).Gone q := fun q hg => ⟨(hold q).2.2.2.1 hg.1, hg.2⟩
    refine h.names q r hq hr (fun hg => hnq (hgone q hg)) (fun hg => hnr (hgone r hg)) ?_
    change cString (Function.update s.program p x q).diskName = cString (Function.update s.program p x r).diskName at hqr
    rw [(hold q).1, (hold r).1] at hqr
    exact hqr
  · change (s.thread (Function.update s.program p x q).main).before = true ∨
      (∃ c, s.races.point (Function.update s.program p x q).main = .init c) at hb
    rw [(hold q).2.1] at hb
    exact h.unmade q hq hb
  · change (Function.update s.program p x (s.owner u)).main ≠ u at hne
    show (s.thread (Function.update s.program p x (s.owner u)).main).past = true
    rw [(hold (s.owner u)).2.1] at hne ⊢
    exact h.workers u hu hne
  · change s.thread (Function.update s.program p x q).main = .serving b at hb
    rw [(hold q).2.1] at hb
    have hlooped := h.looped q hq b hb
    show (Function.update s.program p x q).numThreads ≤ (Function.update s.program p x q).next + 1
    rw [(hold q).2.2.1]
    have := (hold q).2.2.2.2
    omega

/-- A thread of program `p` may start: the program is new, or its main thread starts it. -/
structure MaySpawn (s : Programs) (p : Nat) (x : Program) : Prop where
  exits : x.exiting = false
  same : p < s.programs → x.diskName = (s.program p).diskName ∧ x.main = (s.program p).main ∧
    x.numThreads = (s.program p).numThreads ∧ (s.program p).exiting = false ∧ (s.program p).next ≤ x.next
  starts : p = s.programs ∨ p < s.programs ∧ (s.thread x.main).past = true
  main : p = s.programs → x.main = s.threads
  names : ∀ q < s.programs, q ≠ p → ¬ s.Gone q → cString (s.program q).diskName ≠ cString x.diskName

/-- `s'` is `s` with this thread. -/
structure Spawned (s : Programs) (p : Nat) (x : Program) (s' : Programs) : Prop where
  races : s'.races = s.races
  device : s'.device = s.device
  threads : s'.threads = s.threads + 1
  programs : s'.programs = max s.programs (p + 1)
  thread : ∀ u < s.threads, s'.thread u = s.thread u
  owner : ∀ u < s.threads, s'.owner u = s.owner u
  starts : s'.thread s.threads = .opening
  starter : s'.owner s.threads = p
  self : s'.program p = x
  other : ∀ q, q ≠ p → s'.program q = s.program q

theorem spawned (s : Programs) (p : Nat) (x : Program) : Spawned s p x (s.spawn p x) where
  races := rfl
  device := rfl
  threads := rfl
  programs := rfl
  thread _ hu := Function.update_of_ne (Nat.ne_of_lt hu) _ _
  owner _ hu := Function.update_of_ne (Nat.ne_of_lt hu) _ _
  starts := Function.update_self _ _ _
  starter := Function.update_self _ _ _
  self := Function.update_self _ _ _
  other _ hq := Function.update_of_ne hq _ _

section
variable {s' : Programs} {p : Nat} {x : Program}

theorem Spawned.which (e : Spawned s p x s') {u : Nat} (hu : u < s'.threads) : u < s.threads ∨ u = s.threads := by
  rw [e.threads] at hu
  omega

theorem Spawned.whose (e : Spawned s p x s') (m : MaySpawn s p x) {q : Nat} (hq : q < s'.programs) :
    q < s.programs ∨ q = p ∧ p = s.programs := by
  rw [e.programs] at hq
  rcases m.starts with hp | ⟨hp, -⟩ <;> omega

theorem Spawned.program (e : Spawned s p x s') (m : MaySpawn s p x) {q : Nat} (hq : q < s.programs) :
    (s'.program q).diskName = (s.program q).diskName ∧ (s'.program q).main = (s.program q).main ∧
      (s'.program q).numThreads = (s.program q).numThreads ∧ (s'.program q).exiting = (s.program q).exiting ∧
      (s.program q).next ≤ (s'.program q).next := by
  by_cases hqp : q = p
  · rw [hqp] at hq ⊢
    obtain ⟨hname, hmain, hnum, hexit, hnext⟩ := m.same hq
    rw [e.self]
    exact ⟨hname, hmain, hnum, m.exits.trans hexit.symm, hnext⟩
  · rw [e.other q hqp]
    exact ⟨rfl, rfl, rfl, rfl, Nat.le_refl _⟩

theorem Spawned.members (e : Spawned s p x s') (q : Nat) : s'.members q = s.members q + if p = q then 1 else 0 := by
  unfold Programs.members
  rw [e.threads, total_succ, e.starter]
  congr 1
  refine total_congr (fun u hu => ?_)
  rw [e.owner u hu]

theorem Spawned.counted (e : Spawned s p x s') (h : Hosted s) (q : Nat) : s'.counted q = s.counted q := by
  unfold Programs.counted
  rw [e.threads, total_succ, e.starts, e.races, h.idle s.threads (Nat.le_refl _)]
  have hold : total s.threads (fun t => if s'.owner t = q ∧ countsAt (s'.thread t) (s.races.point t) = true then 1
      else 0) =
      s.counted q := by
    refine total_congr (fun u hu => ?_)
    rw [e.owner u hu, e.thread u hu]
  rw [hold, if_neg (by simp [countsAt, ThreadAt.attaches])]
  rfl

theorem Spawned.gone (e : Spawned s p x s') (h : Hosted s) (m : MaySpawn s p x) {q : Nat} (hq : q < s.programs)
    (hg : s.Gone q) :
    s'.Gone q := by
  obtain ⟨he, hquiet, hc⟩ := hg
  refine ⟨(e.program m hq).2.2.2.1.trans he, fun u hu ho => ?_, fun u hu ho => ?_⟩
  · rw [e.races]
    rcases e.which hu with hu | rfl
    · exact hquiet u hu ((e.owner u hu).symm.trans ho)
    · exact h.idle _ (Nat.le_refl _)
  · rcases e.which hu with hu | rfl
    · rw [e.thread u hu]
      exact hc u hu ((e.owner u hu).symm.trans ho)
    · rw [e.starts]
      rfl

theorem Spawned.roster (e : Spawned s p x s') (h : Roster s)
    (hnew : p = s.programs ∧ x.main = s.threads ∨ p < s.programs ∧ x.main = (s.program p).main)
    (hteam : s.members p + 1 + x.refusals = x.next + 1)
    (hsize : x.next + 1 ≤ x.numThreads ∧ x.numThreads < 2 ^ 31) : Roster s' := by
  have hcases : ∀ q < s'.programs, q ≠ p → q < s.programs := by
    intro q hq hne
    rw [e.programs] at hq
    omega
  refine ⟨fun u hu => ?_, fun q hq => ?_, fun q hq => ?_, fun q hq => ?_⟩
  · rw [e.programs]
    rcases e.which hu with hu | rfl
    · have := h.owned u hu
      rw [e.owner u hu]
      omega
    · rw [e.starter]
      omega
  · rw [e.threads]
    by_cases hqp : q = p
    · rw [hqp, e.self]
      rcases hnew with ⟨-, hmain⟩ | ⟨hp, hmain⟩
      · rw [hmain]
        exact ⟨Nat.lt_succ_self _, e.starter⟩
      · obtain ⟨hlt, ho⟩ := h.main p hp
        rw [hmain, e.owner _ hlt]
        exact ⟨Nat.lt_succ_of_lt hlt, ho⟩
    · obtain ⟨hlt, ho⟩ := h.main q (hcases q hq hqp)
      rw [e.other q hqp, e.owner _ hlt]
      exact ⟨Nat.lt_succ_of_lt hlt, ho⟩
  · rw [e.members]
    by_cases hqp : q = p
    · rw [hqp, e.self, if_pos rfl]
      exact hteam
    · rw [e.other q hqp, if_neg (Ne.symm hqp)]
      exact h.team q (hcases q hq hqp)
  · by_cases hqp : q = p
    · rw [hqp, e.self]
      exact hsize
    · rw [e.other q hqp]
      exact h.size q (hcases q hq hqp)

theorem Spawned.onList (e : Spawned s p x s') (h : OnList s) (m : MaySpawn s p x) : OnList s' := by
  refine ⟨fun q d hd => ?_, ?_, ?_, ?_, ?_⟩
  · rw [e.device] at hd
    obtain ⟨hq, hmem, hname⟩ := h.device q d hd
    rw [e.races, e.programs, (e.program m hq).1]
    exact ⟨Nat.lt_of_lt_of_le hq (Nat.le_max_left _ _), hmem, hname⟩
  · rw [e.device]
    exact h.only
  · rw [e.device, e.races]
    exact h.listed
  · rw [e.races]
    exact h.nodup
  · rw [e.races]
    exact h.made

theorem Spawned.connected (e : Spawned s p x s') (h : Connected s) : Connected s' := by
  refine ⟨?_, ?_, fun u hu b hb => ?_, fun b hb => ?_, fun u v b hu hv hbu hbv => ?_, fun u hu b hb => ?_⟩
  · rw [e.races]
    exact h.nodup
  · rw [e.races]
    exact h.closed
  · rw [e.races]
    rcases e.which hu with hu | rfl
    · rw [e.thread u hu] at hb
      exact h.opened u hu b hb
    · rw [e.starts] at hb
      cases hb
  · rw [e.races] at hb
    obtain ⟨u, hu, hub⟩ := h.held b hb
    rw [← e.thread u hu] at hub
    exact ⟨u, by rw [e.threads]; exact Nat.lt_succ_of_lt hu, hub⟩
  · rcases e.which hu with hu | rfl <;> rcases e.which hv with hv | rfl
    · rw [e.thread u hu] at hbu
      rw [e.thread v hv] at hbv
      exact h.alone u v b hu hv hbu hbv
    · rw [e.starts] at hbv
      cases hbv
    · rw [e.starts] at hbu
      cases hbu
    · rfl
  · rcases e.which hu with hu | rfl
    · rw [e.thread u hu] at hb ⊢
      rw [e.races, e.device, e.owner u hu]
      exact h.attached u hu b hb
    · rw [e.starts] at hb
      cases hb

theorem Spawned.ending (e : Spawned s p x s') (h : Hosted s) (m : MaySpawn s p x) : Ending s' := by
  have hidle := h.idle s.threads (Nat.le_refl _)
  refine ⟨fun u hu hl => ?_, fun u v hu hv ho hc => ?_, fun u v hu hv ho hl hvu => ?_⟩
  · rw [e.races] at hl
    rcases e.which hu with hu | rfl
    · rw [e.thread u hu] at hl
      show (s'.program (s'.owner u)).exiting = true
      rw [e.owner u hu, (e.program m (h.roster.owned u hu)).2.2.2.1]
      exact h.ending.exits u hu hl
    · rw [e.starts, hidle] at hl
      rcases hl with hl | hl <;> cases hl
  · rw [e.races]
    rcases e.which hu with hu | rfl <;> rcases e.which hv with hv | rfl
    · rw [e.owner u hu, e.owner v hv] at ho
      rw [e.thread u hu] at hc
      exact h.ending.settled u v hu hv ho hc
    · rw [hidle]
      rfl
    · rw [e.starts] at hc
      cases hc
    · rw [hidle]
      rfl
  · rw [e.races] at hl ⊢
    rcases e.which hu with hu | rfl <;> rcases e.which hv with hv | rfl
    · rw [e.owner u hu, e.owner v hv] at ho
      exact h.ending.last u v hu hv ho hl hvu
    · exact hidle
    · rw [hidle] at hl
      cases hl
    · exact hidle

theorem Spawned.names (e : Spawned s p x s') (h : Hosted s) (m : MaySpawn s p x) {q r : Nat} (hq : q < s'.programs)
    (hr : r < s'.programs) (hnq : ¬ s'.Gone q) (hnr : ¬ s'.Gone r)
    (hqr : cString (s'.program q).diskName = cString (s'.program r).diskName) : q = r := by
  have hnot : ∀ q < s.programs, ¬ s'.Gone q → ¬ s.Gone q := fun q hq hn hg => hn (e.gone h m hq hg)
  rcases e.whose m hq with hq | ⟨rfl, hq⟩ <;> rcases e.whose m hr with hr | ⟨rfl, hr⟩
  · rw [(e.program m hq).1, (e.program m hr).1] at hqr
    exact h.names q r hq hr (hnot q hq hnq) (hnot r hr hnr) hqr
  · rw [(e.program m hq).1, e.self] at hqr
    exact absurd hqr (m.names q hq (by omega) (hnot q hq hnq))
  · rw [e.self, (e.program m hr).1] at hqr
    exact absurd hqr.symm (m.names r hr (by omega) (hnot r hr hnr))
  · rfl

theorem Spawned.unmade (e : Spawned s p x s') (h : Hosted s) (m : MaySpawn s p x) {q : Nat} (hq : q < s'.programs)
    (hb : (s'.thread (s'.program q).main).before = true ∨ ∃ c, s'.races.point (s'.program q).main = .init c) :
    s.device q = none := by
  rcases e.whose m hq with hq | ⟨rfl, hq⟩
  · rw [(e.program m hq).2.1, e.thread _ (h.roster.main q hq).1, e.races] at hb
    exact h.unmade q hq hb
  · cases hd : s.device q with
    | none => rfl
    | some d =>
      have := (h.onList.device q d hd).1
      omega

theorem Spawned.workers (e : Spawned s p x s') (h : Hosted s) (m : MaySpawn s p x) {u : Nat} (hu : u < s'.threads)
    (hne : (s'.program (s'.owner u)).main ≠ u) : (s'.thread (s'.program (s'.owner u)).main).past = true := by
  rcases e.which hu with hu | rfl
  · have hq := h.roster.owned u hu
    rw [e.owner u hu, (e.program m hq).2.1] at hne ⊢
    rw [e.thread _ (h.roster.main _ hq).1]
    exact h.workers u hu hne
  · rw [e.starter, e.self] at hne ⊢
    rcases m.starts with hp | ⟨hp, hpast⟩
    · exact absurd (m.main hp) hne
    · have hlt : x.main < s.threads := by
        rw [(m.same hp).2.1]
        exact (h.roster.main p hp).1
      rw [e.thread _ hlt]
      exact hpast

theorem Spawned.looped (e : Spawned s p x s') (h : Hosted s) (m : MaySpawn s p x) {q b : Nat} (hq : q < s'.programs)
    (hb : s'.thread (s'.program q).main = .serving b) : (s'.program q).numThreads ≤ (s'.program q).next + 1 := by
  rcases e.whose m hq with hq | ⟨rfl, hq⟩
  · obtain ⟨-, hmain, hnum, -, hnext⟩ := e.program m hq
    rw [hmain, e.thread _ (h.roster.main q hq).1] at hb
    have := h.looped q hq b hb
    omega
  · rw [e.self, m.main hq, e.starts] at hb
    cases hb

theorem Spawned.hosted (e : Spawned s p x s') (h : Hosted s) (m : MaySpawn s p x) (hroster : Roster s') : Hosted s' := by
  have hidle := h.idle s.threads (Nat.le_refl _)
  refine ⟨hroster, e.onList h.onList m, e.connected h.connected, e.ending h m, fun q r hq hr => e.names h m hq hr,
    fun u hu => ?_, fun u hu => ?_, fun u hu d hd => ?_, fun q hq hb => ?_, fun u hu hne => e.workers h m hu hne,
    fun q hq b hb => e.looped h m hq hb, fun q d hd => ?_, fun u hu d hd => ?_, fun q d hd => ?_⟩
  · rw [e.threads] at hu
    rw [e.races]
    exact h.idle u (Nat.le_of_succ_le hu)
  · rw [e.races]
    rcases e.which hu with hu | rfl
    · rw [e.thread u hu]
      exact h.fits u hu
    · rw [e.starts, hidle]
      exact .opening
  · rw [e.races] at hd
    rw [e.device]
    rcases e.which hu with hu | rfl
    · rw [e.owner u hu]
      exact h.uses u hu d hd
    · rw [hidle] at hd
      cases hd
  · rw [e.device]
    exact e.unmade h m hq hb
  · rw [e.device] at hd
    rw [e.races, e.counted h]
    exact h.count q d hd
  · rw [e.races] at hd ⊢
    rcases e.which hu with hu | rfl
    · exact h.empty u hu d hd
    · rw [hidle] at hd
      cases hd
  · rw [e.device] at hd
    obtain ⟨u, hu, ho, hk⟩ := h.used q d hd
    refine ⟨u, by rw [e.threads]; exact Nat.lt_succ_of_lt hu, (e.owner u hu).trans ho, ?_⟩
    rw [e.thread u hu, e.races]
    exact hk

end

theorem Roster.members_zero (h : Roster s) : s.members s.programs = 0 := by
  by_contra hne
  obtain ⟨u, hu, hpos⟩ := exists_of_total_pos (Nat.pos_of_ne_zero hne)
  have := h.owned u hu
  split at hpos <;> omega

theorem Hosted.not_gone_of_runs (hr : s.Runs t) : ¬ s.Gone (s.owner t) := by
  intro hg
  have hexit := hr.2
  rw [Programs.its, hg.1] at hexit
  cases hexit

end

/-- Every step keeps `Hosted`. -/
theorem hosted_step {s s' : Programs} {act : ProgAct} (h : Hosted s) (hok : ProgPromised s act)
    (hs : progStep s act = some s') : Hosted s' := by
  cases progStep_cases hs with
  | exec diskName numThreads =>
    obtain ⟨hsmall, hnames⟩ := hok
    refine (spawned _ _ _).hosted h ⟨rfl, fun hlt => absurd hlt (Nat.lt_irrefl _), Or.inl rfl, fun _ => rfl,
      fun q hq _ hg => hnames q hq hg⟩ ((spawned _ _ _).roster h.roster (Or.inl ⟨rfl, rfl⟩) ?_ ?_)
    · simp [h.roster.members_zero]
    · dsimp only
      split
      · exact ⟨by omega, hsmall⟩
      · decide
  | devOpen t c hr ht hc => exact h.devOpen hr ht hc
  | write t c hr ht hp => exact h.write hr ht hp
  | create t c ht hp hmain => exact h.create ht hp hmain
  | connect t c d ht hp hne hfind => exact h.connect ht hp hne hfind
  | refuse t c ht hp hne hfind =>
    obtain ⟨d, hd⟩ := h.device_of_worker ht hp hne
    have hfound : s.races.devs.getBlockDevice (connectName (s.its t).diskName) = some d :=
      h.getBlockDevice hd (cString_connectName _)
    rw [hfind] at hfound
    cases hfound
  | countUp t c d ht hp => exact h.countUp ht hp
  | store t c d ht hp => exact h.store ht hp
  | countDown t c d ht hp => exact h.countDown ht hp
  | find t d e ht hp hfind =>
    obtain ⟨hfound, hnext⟩ := h.find ht hp
    rw [hfind] at hfound
    cases hfound
    exact hnext
  | miss t d ht hp hfind =>
    rw [(h.find ht hp).1] at hfind
    cases hfind
  | listDel t d ht hp => exact h.listDel ht hp
  | start t c hr ht hmain hnext =>
    have hp := h.roster.owned t hr.1
    have hteam := h.roster.team (s.owner t) hp
    have hsize := h.roster.size (s.owner t) hp
    refine (spawned _ _ _).hosted h ⟨hr.2, fun _ => ⟨rfl, rfl, rfl, hr.2, Nat.le_succ _⟩, Or.inr ⟨hp, ?_⟩,
      fun he => absurd hp (by omega), fun q hq hne hg hname => ?_⟩
        ((spawned _ _ _).roster h.roster (Or.inr ⟨hp, rfl⟩) ?_ ?_)
    · show (s.thread (s.its t).main).past = true
      rw [hmain, ht]
      rfl
    · exact hne (h.names q (s.owner t) hq hp hg (Hosted.not_gone_of_runs hr) hname)
    · simp only [Programs.its] at hnext ⊢
      omega
    · simp only [Programs.its] at hnext ⊢
      omega
  | startFails t c hr ht hmain hnext =>
    have hp := h.roster.owned t hr.1
    have hteam := h.roster.team (s.owner t) hp
    have hsize := h.roster.size (s.owner t) hp
    exact h.reprogram hp rfl rfl rfl id (Nat.le_succ _) (by simp only [Programs.its]; omega)
      (by simp only [Programs.its] at hnext ⊢; omega)
  | serve t c hr ht hloop => exact h.serve hr ht hloop
  | exit p hp hexit =>
    exact h.reprogram hp rfl rfl rfl (fun _ => rfl) (Nat.le_refl _) (h.roster.team p hp) (h.roster.size p hp).1
  | close t c ht hexit hq hconn hnone => exact h.close ht hexit hq hconn hnone
  | release t c d ht hexit hq hconn hdev => exact h.release ht hexit hq hconn hdev

theorem hosted_init : Hosted Programs.init := by
  have hnone : ∀ t, ¬ t < Programs.init.threads := fun t => Nat.not_lt_zero t
  have hprog : ∀ p, ¬ p < Programs.init.programs := fun p => Nat.not_lt_zero p
  refine ⟨⟨fun t ht => absurd ht (hnone t), fun p hp => absurd hp (hprog p), fun p hp => absurd hp (hprog p),
      fun p hp => absurd hp (hprog p)⟩,
    ⟨fun p d hd => (by cases hd), fun p q d hd => (by cases hd), fun d hd => (by cases hd), List.nodup_nil,
      fun d hd => (by cases hd)⟩,
    ⟨List.nodup_nil, fun _ _ => rfl, fun t ht => absurd ht (hnone t), fun c hc => (by cases hc),
      fun t _ _ ht => absurd ht (hnone t), fun t ht => absurd ht (hnone t)⟩,
    ⟨fun t ht => absurd ht (hnone t), fun t _ ht => absurd ht (hnone t), fun t _ ht => absurd ht (hnone t)⟩,
    fun p _ hp => absurd hp (hprog p), fun _ _ => rfl, fun t ht => absurd ht (hnone t), fun t ht => absurd ht (hnone t),
    fun p hp => absurd hp (hprog p), fun t ht => absurd ht (hnone t), fun p hp => absurd hp (hprog p),
      fun p d hd => (by cases hd),
    fun t ht => absurd ht (hnone t), fun p d hd => (by cases hd)⟩

theorem hosted_reach {s : Programs} (h : Machine.Reach progStep ProgPromised Programs.init s) : Hosted s :=
  h.inv (fun _ _ _ hi hok hs => hosted_step hi hok hs) hosted_init

end Bius
