import Bius.ProgramStarts

/- What the programs bring about, whatever they and the module do in between. The
   sections of the module that they run are never in the order in which removal meets a
   connection (`Hosted.unraced`), and those of a thread do what `handle_initialization`
   does with the header it writes (`Hosted.writesInit`). `Programs.work` counts the steps
   that are left; every step but the start of a program makes it smaller
   (`Hosted.work_lt`). And where no other step is left, every program is either served by
   all its threads or gone with its device (`Hosted.atRest`). -/
namespace Bius

open Sums Programs

section
variable {s s' : Programs} {t c d : Nat} {x : ThreadAt} {y : AttachPoint} {devs : Devices} {act : ProgAct}

/-! ## The sections -/

/-- The connection of a call is the one that the thread has opened. -/
theorem Together.connection (h : Together x y) (hc : y.connection = some c) : x.connection = some c := by
  cases h <;> cases hc <;> rfl

theorem Hosted.lt_of_point (h : Hosted s) (hp : s.races.point t ≠ .outside) : t < s.threads := by
  by_contra hlt
  exact hp (h.idle t (Nat.not_lt.1 hlt))

theorem Hosted.same_owner (h : Hosted s) {u : Nat} (ht : (s.races.point t).device = some d)
    (hu : (s.races.point u).device = some d) : s.owner u = s.owner t := by
  have hpt : s.races.point t ≠ .outside := fun he => by rw [he] at ht; cases ht
  have hpu : s.races.point u ≠ .outside := fun he => by rw [he] at hu; cases hu
  exact h.onList.only _ _ d (h.uses u (h.lt_of_point hpu) d hu) (h.uses t (h.lt_of_point hpt) d ht)

theorem AttachPoint.device_of_obtained (h : y.obtained = some d) : y.device = some d ∧ y.entering = true := by
  cases y <;> cases h <;> exact ⟨rfl, rfl⟩

theorem AttachPoint.not_leaving (h : y.entering = true) : y.leaving = false := by
  cases y <;> first | rfl | cases h

/-- Who leaves a device is the only one of its program in a call. -/
theorem Hosted.leaves_alone (h : Hosted s) (ht : t < s.threads) (hl : (s.races.point t).leaving = true)
    (hd : (s.races.point t).device = some d) {u : Nat} (hu : (s.races.point u).device = some d) : u = t := by
  have hpu : s.races.point u ≠ .outside := fun he => by rw [he] at hu; cases hu
  by_contra hut
  exact hpu (h.ending.last t u ht (h.lt_of_point hpu) (h.same_owner hd hu) hl hut)

theorem Hosted.removes_alone (h : Hosted s) {u : Nat} (ht : (s.races.point t).removes = some d)
    (hu : (s.races.point u).device = some d) : u = t := by
  obtain ⟨hd, hl⟩ := AttachPoint.device_of_removes ht
  have hpt : s.races.point t ≠ .outside := fun he => by rw [he] at ht; cases ht
  exact h.leaves_alone (h.lt_of_point hpt) hl hd hu

/-- A device that is being removed is attached to nothing, and nobody has obtained it. -/
theorem Hosted.removal_alone (h : Hosted s) (ht : (s.races.point t).removes = some d) :
    s.races.devs.attached d = [] ∧ ∀ u, (s.races.point u).obtained ≠ some d := by
  have hpt : s.races.point t ≠ .outside := fun he => by rw [he] at ht; cases ht
  have hlt := h.lt_of_point hpt
  have hdev := h.uses t hlt d (AttachPoint.device_of_removes ht).1
  refine ⟨List.eq_nil_iff_forall_not_mem.2 (fun c hc => ?_), fun u hu => ?_⟩
  · obtain ⟨hopen, hblock⟩ := mem_attached.1 hc
    obtain ⟨u, hu, huc⟩ := h.connected.held c hopen
    obtain ⟨hx, hown⟩ := h.attached_of_blockDev hu huc hblock
    have hnot := h.not_attached hdev (h.empty t hlt d ht) hu (h.onList.only _ _ d hown hdev)
    rcases hx with hx | hx <;> rw [hx] at hnot <;> cases hnot
  · obtain ⟨hud, hent⟩ := AttachPoint.device_of_obtained hu
    have hut := h.removes_alone ht hud
    have hleave := (AttachPoint.device_of_removes ht).2
    rw [hut] at hent
    rw [AttachPoint.not_leaving hent] at hleave
    cases hleave

/-- Nobody else is in a call on the connection that a thread writes to. -/
theorem Hosted.unraced_write (h : Hosted s) (ht : t < s.threads) (hp : s.races.point t = .outside)
    (hc : (s.thread t).connection = some c) (u : Nat) : (s.races.point u).connection ≠ some c := by
  intro hu
  have hpu : s.races.point u ≠ .outside := fun he => by rw [he] at hu; cases hu
  have hlt := h.lt_of_point hpu
  have hut := h.connected.alone u t c hlt ht ((h.fits u hlt).connection hu) hc
  rw [hut] at hpu
  exact hpu hp

/-- While a thread is in a call, no other thread of its program removes a device. -/
theorem Hosted.unraced_device (h : Hosted s) (ht : t < s.threads) (hp : s.races.point t ≠ .outside)
    (hl : (s.races.point t).leaving = false) (hd : s.device (s.owner t) = some d) (u : Nat) :
    (s.races.point u).removes ≠ some d := by
  intro hu
  obtain ⟨hud, hleave⟩ := AttachPoint.device_of_removes hu
  have hpu : s.races.point u ≠ .outside := fun he => by rw [he] at hu; cases hu
  have hlt := h.lt_of_point hpu
  have ho := h.onList.only _ _ d hd (h.uses u hlt d hud)
  have htu : t ≠ u := by
    intro htu
    rw [← htu, hl] at hleave
    cases hleave
  exact hp (h.ending.last u t hlt ht ho hleave htu)

/-- **No section is raced.** -/
theorem Hosted.unraced (h : Hosted s) (hs : progStep s act = some s') {r : RaceAct} (hr : s.section? act = some r) :
    Unraced s.races r := by
  cases progStep_cases hs with
  | devOpen => cases hr; trivial
  | write t c hruns ht hp =>
    simp only [Programs.section?, ht, ThreadAt.connection, Option.map_some, Option.some.injEq] at hr
    subst hr
    exact h.unraced_write hruns.1 hp (by rw [ht]; rfl)
  | create t c ht hp hmain =>
    simp only [Programs.section?, Programs.nextSection, hp, hmain, if_true, Option.some.injEq] at hr
    subst hr
    trivial
  | connect t c d ht hp hne hfind =>
    simp only [Programs.section?, Programs.nextSection, hp, hne, if_false, Option.some.injEq] at hr
    subst hr
    intro e he u hu
    obtain ⟨f, hf⟩ := h.device_of_worker ht hp hne
    have hfound : s.races.devs.getBlockDevice (connectName (s.its t).diskName) = some f :=
      h.getBlockDevice hf (cString_connectName _)
    rw [he] at hfound
    cases hfound
    exact h.unraced_device ht (by rw [hp]; simp) (by rw [hp]; rfl) hf u hu
  | refuse t c ht hp hne hfind =>
    simp only [Programs.section?, Programs.nextSection, hp, hne, if_false, Option.some.injEq] at hr
    subst hr
    intro e he
    rw [hfind] at he
    cases he
  | countUp t c d ht hp =>
    simp only [Programs.section?, Programs.nextSection, hp, Option.some.injEq] at hr
    subst hr
    intro b e he
    rw [hp] at he
    cases he
    have := h.small (h.uses t ht d (by rw [hp]; rfl))
    omega
  | store t c d ht hp =>
    simp only [Programs.section?, Programs.nextSection, hp, Option.some.injEq] at hr
    subst hr
    trivial
  | countDown t c d ht hp =>
    simp only [Programs.section?, Programs.nextSection, hp, Option.some.injEq] at hr
    subst hr
    intro b e he _ u b' hu
    rw [hp] at he
    cases he
    have hut := h.leaves_alone ht (by rw [hp]; rfl) (by rw [hp]; rfl) (u := u) (by rw [hu]; rfl)
    rw [hut, hp] at hu
    cases hu
  | find t d e ht hp =>
    simp only [Programs.section?, Programs.nextSection, hp, Option.some.injEq] at hr
    subst hr
    trivial
  | miss t d ht hp =>
    simp only [Programs.section?, Programs.nextSection, hp, Option.some.injEq] at hr
    subst hr
    trivial
  | listDel t d ht hp =>
    simp only [Programs.section?, Programs.nextSection, hp, Option.some.injEq] at hr
    subst hr
    trivial
  | close t c ht hexit hq hconn =>
    simp only [Programs.section?, hconn, Option.map_some, Option.some.injEq] at hr
    subst hr
    trivial
  | release t c d ht hexit hq hconn =>
    simp only [Programs.section?, hconn, Option.map_some, Option.some.injEq] at hr
    subst hr
    trivial
  | exec | start | startFails | serve | exit => cases hr

/-! ## What is left to do -/

/-- The steps that a thread has, until its file is closed. -/
def stepsAt : ThreadAt → AttachPoint → Nat
  | _, .init _ => 10
  | _, .got _ _ => 9
  | _, .counted _ _ => 8
  | _, .releasing _ _ => 4
  | _, .removing _ => 2
  | _, .unlinking _ => 1
  | .opening, .outside => 12
  | .opened _, .outside => 11
  | .refused _, .outside | .attached _, .outside => 7
  | .serving _, .outside => 6
  | .initializing _, .outside | .closed, .outside => 0

/-- The threads that a program has still to start, and its exit. -/
def Program.steps (x : Program) : Nat := 13 * (x.numThreads - 1 - x.next) + if x.exiting then 0 else 1

theorem Program.steps_next {z : Program} (hnext : z.next < z.numThreads - 1) (n : Nat) :
    Program.steps { z with next := z.next + 1, refusals := n } + 13 = z.steps := by
  unfold Program.steps
  dsimp only
  generalize (if z.exiting = true then 0 else 1) = b
  omega

/-- What is left to do. -/
def Programs.work (s : Programs) : Nat :=
  total s.threads (fun t => stepsAt (s.thread t) (s.races.point t)) + total s.programs (fun p => (s.program p).steps)

theorem Programs.work_go (ht : t < s.threads) (device : Nat → Option Nat) :
    ((s.go t x (s.races.go t y devs)).setDevice device).work + stepsAt (s.thread t) (s.races.point t) =
      s.work + stepsAt x y := by
  have hchange := total_change ht (fun u (hu : u ≠ t) => show
    stepsAt ((s.go t x (s.races.go t y devs)).thread u) ((s.races.go t y devs).point u) =
      stepsAt (s.thread u) (s.races.point u) by simp only [go_thread, go_point, if_neg hu])
  rw [go_thread, go_point, if_pos rfl, if_pos rfl] at hchange
  show total s.threads (fun u => stepsAt ((s.go t x (s.races.go t y devs)).thread u)
      ((s.races.go t y devs).point u)) + _ + _ = _
  unfold Programs.work
  show _ + total s.programs (fun p => (s.program p).steps) + _ = _
  omega

theorem Programs.work_program {p : Nat} (hp : p < s.programs) (x : Program) :
    (s.setProgram p x).work + (s.program p).steps = s.work + x.steps := by
  have hchange := total_change hp (fun q (hq : q ≠ p) => show
    (Function.update s.program p x q).steps = (s.program q).steps by rw [Function.update_of_ne hq])
  rw [Function.update_self] at hchange
  show total s.threads (fun u => stepsAt (s.thread u) (s.races.point u)) +
    total s.programs (fun q => (Function.update s.program p x q).steps) + _ = _
  unfold Programs.work
  omega

theorem Hosted.work_spawn (h : Hosted s) {p : Nat} (hp : p < s.programs) (x : Program) :
    (s.spawn p x).work + (s.program p).steps = s.work + x.steps + 12 := by
  have hchange := total_change hp (fun q (hq : q ≠ p) => show
    (Function.update s.program p x q).steps = (s.program q).steps by rw [Function.update_of_ne hq])
  rw [Function.update_self] at hchange
  have hold : total s.threads (fun u => stepsAt ((s.spawn p x).thread u) ((s.spawn p x).races.point u)) =
      total s.threads (fun u => stepsAt (s.thread u) (s.races.point u)) := by
    refine total_congr (fun u hu => ?_)
    show stepsAt (Function.update s.thread s.threads .opening u) (s.races.point u) = _
    rw [Function.update_of_ne (Nat.ne_of_lt hu)]
  have hnew : stepsAt ((s.spawn p x).thread s.threads) ((s.spawn p x).races.point s.threads) = 12 := by
    show stepsAt (Function.update s.thread s.threads .opening s.threads) (s.races.point s.threads) = _
    rw [Function.update_self, h.idle s.threads (Nat.le_refl _)]
    rfl
  have hprograms : (s.spawn p x).programs = s.programs := Nat.max_eq_left hp
  have hwork : (s.spawn p x).work = total s.threads (fun u => stepsAt (s.thread u) (s.races.point u)) + 12 +
      total s.programs (fun q => (Function.update s.program p x q).steps) := by
    unfold Programs.work
    rw [hprograms]
    show total (s.threads + 1) _ + _ = _
    rw [total_succ, hold, hnew]
    rfl
  rw [hwork]
  unfold Programs.work
  omega

/-- **Every step but the start of a program leaves less to do.** -/
theorem Hosted.work_lt (h : Hosted s) (hs : progStep s act = some s') (hexec : ∀ n k, act ≠ .exec n k) :
    s'.work < s.work := by
  -- a thread moves
  have hgo : ∀ t x y devs device, t < s.threads → stepsAt x y < stepsAt (s.thread t) (s.races.point t) →
      ((s.go t x (s.races.go t y devs)).setDevice device).work < s.work := by
    intro t x y devs device ht hlt
    have hwork : ((s.go t x (s.races.go t y devs)).setDevice device).work + stepsAt (s.thread t) (s.races.point t) =
        s.work + stepsAt x y := Programs.work_go ht device
    omega
  cases progStep_cases hs with
  | exec n k => exact absurd rfl (hexec n k)
  | devOpen t c hr ht hc =>
    have hp : s.races.point t = .outside := (ht ▸ h.fits t hr.1).opening_outside
    rw [← races_go_self hp]
    exact hgo t _ _ _ s.device hr.1 (by rw [ht, hp]; simp [stepsAt])
  | write t c hr ht hp => exact hgo t _ _ _ s.device hr.1 (by rw [ht, hp]; simp [stepsAt])
  | create t c ht hp hmain => exact hgo t _ _ _ _ ht (by rw [hp]; simp [stepsAt])
  | connect t c d ht hp hne hfind => exact hgo t _ _ _ s.device ht (by rw [hp]; simp [stepsAt])
  | refuse t c ht hp hne hfind => exact hgo t _ _ _ s.device ht (by rw [hp]; simp [stepsAt])
  | countUp t c d ht hp => exact hgo t _ _ _ s.device ht (by rw [hp]; simp [stepsAt])
  | store t c d ht hp => exact hgo t _ _ _ s.device ht (by rw [hp]; simp [stepsAt])
  | countDown t c d ht hp =>
    refine hgo t _ _ _ s.device ht ?_
    rw [hp]
    split <;> simp [stepsAt]
  | find t d e ht hp hfind => exact hgo t _ _ _ s.device ht (by rw [hp]; simp [stepsAt])
  | miss t d ht hp hfind =>
    have hx : s.thread t = .closed := (h.fits t ht).removes_thread (by rw [hp]; rfl)
    exact hgo t _ _ _ s.device ht (by rw [hx, hp]; simp [stepsAt])
  | listDel t d ht hp =>
    have hx : s.thread t = .closed := (h.fits t ht).removes_thread (by rw [hp]; rfl)
    exact hgo t _ _ _ _ ht (by rw [hx, hp]; simp [stepsAt])
  | start t c hr ht hmain hnext =>
    have hwork := h.work_spawn (h.roster.owned t hr.1) { s.its t with next := (s.its t).next + 1 }
    have hsteps : Program.steps { s.its t with next := (s.its t).next + 1 } + 13 = (s.program (s.owner t)).steps :=
      Program.steps_next hnext _
    omega
  | startFails t c hr ht hmain hnext =>
    have hwork := Programs.work_program (h.roster.owned t hr.1)
      { s.its t with next := (s.its t).next + 1, refusals := (s.its t).refusals + 1 }
    have hsteps : Program.steps { s.its t with next := (s.its t).next + 1, refusals := (s.its t).refusals + 1 } + 13 =
      (s.program (s.owner t)).steps := Program.steps_next hnext _
    omega
  | serve t c hr ht hloop =>
    have hp := h.attached_outside hr ht
    have hraces : s.races = s.races.go t .outside s.races.devs := by rw [races_go_self hp]
    rw [hraces]
    exact hgo t _ _ _ s.device hr.1 (by rw [ht, hp]; simp [stepsAt])
  | exit p hp hexit =>
    have hwork := Programs.work_program hp { s.program p with exiting := true }
    simp only [Program.steps, hexit] at hwork ⊢
    simp at hwork
    omega
  | close t c ht hexit hq hconn hnone =>
    have hp : s.races.point t = .outside := hq t ht rfl
    refine hgo t _ _ _ s.device ht ?_
    have hfit := h.fits t ht
    rw [hp] at hfit ⊢
    generalize s.thread t = z at hconn hfit
    cases hfit with
    | opened | attached | serving => simp [stepsAt]
    | _ => cases hconn
  | release t c d ht hexit hq hconn hdev =>
    have hp : s.races.point t = .outside := hq t ht rfl
    refine hgo t _ _ _ s.device ht ?_
    rcases (h.attached_of_blockDev ht hconn hdev).1 with hx | hx <;> rw [hx, hp] <;> simp [stepsAt]

/-! ## The write of the library -/

theorem Programs.call_section (ht : t < s.threads) {r : RaceAct} {races : Races} (hr : s.nextSection t = some r)
    (hs : raceStep s.races r = some races) : ∃ s', progStep s (.call t) = some s' ∧ s'.races = races ∧
      s'.threads = s.threads ∧ s'.thread t = s.arrives t races := by
  refine ⟨(s.go t (s.arrives t races) races).setDevice (s.deviceAfter t), ?_, rfl, rfl, Function.update_self _ _ _⟩
  simp only [progStep, if_pos ht, hr, Option.bind_some, hs, Option.map_some]

/-- A thread that obtains a device is attached to it by its next two sections. -/
theorem Programs.attaches (ht : t < s.threads) {r : RaceAct} (hr : s.nextSection t = some r)
    (hs : raceStep s.races r = some (s.races.go t (.got c d) devs)) : ∃ s',
      Machine.run progStep s [.call t, .call t, .call t] = some s' ∧ s'.thread t = .attached c ∧
      s'.races.devs = (devs.countUp d).store c d := by
  obtain ⟨s₁, hs₁, hraces₁, hthreads₁, -⟩ := Programs.call_section ht hr hs
  have hp₁ : s₁.races.point t = .got c d := by rw [hraces₁, go_point, if_pos rfl]
  obtain ⟨s₂, hs₂, hraces₂, hthreads₂, -⟩ := @Programs.call_section s₁ t (hthreads₁ ▸ ht) (.countUp t)
    (s₁.races.go t (.counted c d) (s₁.races.devs.countUp d)) (by simp only [Programs.nextSection, hp₁])
    (by simp only [raceStep, hp₁])
  have hp₂ : s₂.races.point t = .counted c d := by rw [hraces₂, go_point, if_pos rfl]
  obtain ⟨s₃, hs₃, hraces₃, -, hthread₃⟩ := @Programs.call_section s₂ t
    (hthreads₂ ▸ hthreads₁ ▸ ht) (.store t) (s₂.races.go t .outside (s₂.races.devs.store c d))
    (by simp only [Programs.nextSection, hp₂]) (by simp only [raceStep, hp₂])
  refine ⟨s₃, Machine.run_cons.2 ⟨s₁, hs₁, Machine.run_cons.2
    ⟨s₂, hs₂, Machine.run_cons.2 ⟨s₃, hs₃, rfl⟩⟩⟩, ?_, ?_⟩
  · rw [hthread₃]
    simp only [Programs.arrives, hp₂]
  · rw [hraces₃, hraces₂, hraces₁]
    rfl

/-- **The call of a thread is the write of the library.** -/
theorem Hosted.writesInit (h : Hosted s) (ht : t < s.threads) (hp : s.races.point t = .init c) : s.WritesInit t c := by
  by_cases hmain : (s.its t).main = t
  · have hcreate : raceStep s.races (.create t (s.its t).diskName) =
        some (s.races.go t (.got c s.races.devs.created) (s.races.devs.createBlockDevice (s.its t).diskName)) := by
      simp only [raceStep, hp]
    obtain ⟨s', hrun, hthread, hdevs⟩ :=
      Programs.attaches ht (by simp only [Programs.nextSection, hp, if_pos hmain]) hcreate
    refine ⟨s', hrun, hthread, fun o umem mapped device options hopt hptr ho hmapped => ?_⟩
    rw [Programs.initWrite, if_pos hmain, hdevs]
    exact handleInitialization_create hopt hptr ho hmapped
  · obtain ⟨d, hd⟩ := h.device_of_worker ht hp hmain
    have hfound : s.races.devs.getBlockDevice (connectName (s.its t).diskName) = some d :=
      h.getBlockDevice hd (cString_connectName _)
    have hlookup : raceStep s.races (.lookup t (connectName (s.its t).diskName)) =
        some (s.races.go t (.got c d) s.races.devs) := by
      simp only [raceStep, hp, hfound]
    obtain ⟨s', hrun, hthread, hdevs⟩ :=
      Programs.attaches ht (by simp only [Programs.nextSection, hp, if_neg hmain]) hlookup
    refine ⟨s', hrun, hthread, fun o umem mapped device options hopt hptr _ _ => ?_⟩
    rw [Programs.initWrite, if_neg hmain, hdevs, handleInitialization_connect hopt hptr, hfound]

/-! ## Where nothing is left to do -/

/-- Only a program can start, or be told to exit. -/
def Programs.AtRest (s : Programs) : Prop :=
  ∀ act s', progStep s act = some s' → (∃ diskName numThreads, act = .exec diskName numThreads) ∨
    ∃ p, act = .exit p

/-- A call goes on. -/
theorem Programs.call_isSome (ht : t < s.threads) (hp : s.races.point t ≠ .outside) :
    ∃ s', progStep s (.call t) = some s' := by
  have hsection : ∀ r races, s.nextSection t = some r → raceStep s.races r = some races →
      ∃ s', progStep s (.call t) = some s' := by
    intro r races hr hraces
    simp only [progStep, if_pos ht, hr, Option.bind_some, hraces, Option.map_some]
    exact ⟨_, rfl⟩
  have hnext : ∀ r, s.nextSection t = some r → (∃ races, raceStep s.races r = some races) →
      ∃ s', progStep s (.call t) = some s' := by
    intro r hr hex
    obtain ⟨races, hraces⟩ := hex
    exact hsection r races hr hraces
  cases hpt : s.races.point t with
  | outside => exact absurd hpt hp
  | init c =>
    by_cases hmain : (s.its t).main = t
    · refine hnext (.create t (s.its t).diskName) ?_ ?_
      · simp only [Programs.nextSection, hpt, hmain, if_true]
      · simp only [raceStep, hpt]
        exact ⟨_, rfl⟩
    · refine hnext (.lookup t (connectName (s.its t).diskName)) ?_ ?_
      · simp only [Programs.nextSection, hpt, hmain, if_false]
      · simp only [raceStep, hpt]
        split <;> exact ⟨_, rfl⟩
  | got c d =>
    refine hnext (.countUp t) (by simp only [Programs.nextSection, hpt]) ?_
    simp only [raceStep, hpt]
    exact ⟨_, rfl⟩
  | counted c d =>
    refine hnext (.store t) (by simp only [Programs.nextSection, hpt]) ?_
    simp only [raceStep, hpt]
    exact ⟨_, rfl⟩
  | releasing c d =>
    refine hnext (.countDown t) (by simp only [Programs.nextSection, hpt]) ?_
    simp only [raceStep, hpt]
    exact ⟨_, rfl⟩
  | removing d =>
    refine hnext (.find t) (by simp only [Programs.nextSection, hpt]) ?_
    simp only [raceStep, hpt]
    split <;> exact ⟨_, rfl⟩
  | unlinking d =>
    refine hnext (.listDel t) (by simp only [Programs.nextSection, hpt]) ?_
    simp only [raceStep, hpt]
    exact ⟨_, rfl⟩

theorem exists_not_opened (opened : List Nat) : ∃ c, c ∉ opened := by
  obtain ⟨n, hn⟩ : ∃ n, ∀ c ∈ opened, c < n := by
    induction opened with
    | nil => exact ⟨0, fun c hc => (by cases hc)⟩
    | cons b opened ih =>
      obtain ⟨n, hn⟩ := ih
      refine ⟨max (b + 1) n, fun c hc => ?_⟩
      rcases List.mem_cons.1 hc with rfl | hc
      · omega
      · have := hn c hc
        omega
  exact ⟨n, fun hc => Nat.lt_irrefl n (hn n hc)⟩

/-- A thread of a program that has not exited gets to `handle_requests`. -/
theorem Hosted.serves (h : Hosted s) (hrest : s.AtRest) (hr : s.Runs t) (hp : s.races.point t = .outside) :
    ∃ c, s.thread t = .serving c := by
  have hno : ∀ act, (∀ n k, act ≠ .exec n k) → (∀ p, act ≠ .exit p) →
      ¬ ∃ s', progStep s act = some s' := by
    rintro act hexec hexit ⟨s', hs⟩
    rcases hrest act s' hs with ⟨n, k, he⟩ | ⟨p, he⟩
    · exact hexec n k he
    · exact hexit p he
  have hfit := h.fits t hr.1
  rw [hp] at hfit
  cases hx : s.thread t with
  | opening =>
    obtain ⟨c, hc⟩ := exists_not_opened s.races.devs.opened
    refine absurd ?_ (hno (.devOpen t c) (by simp) (by simp))
    simp only [progStep, hr, hx, and_self, if_true, raceStep, if_neg hc, Option.map_some]
    exact ⟨_, rfl⟩
  | opened c =>
    have hconn : (s.thread t).connection = some c := by rw [hx]; rfl
    have hopen := h.connected.opened t hr.1 c hconn
    have hnone := h.connected.attached t hr.1 c hconn
    rw [hx] at hnone
    change s.races.devs.blockDev c = none at hnone
    refine absurd ?_ (hno (.write t) (by simp) (by simp))
    simp only [progStep, hx, if_pos hr, raceStep, hp, hopen, hnone, and_self, if_true, Option.map_some]
    exact ⟨_, rfl⟩
  | attached c =>
    by_cases hmore : (s.its t).main = t ∧ (s.its t).next < (s.its t).numThreads - 1
    · refine absurd ?_ (hno (.pthreadCreate t true) (by simp) (by simp))
      simp only [progStep, hx]
      rw [if_pos ⟨hr, hmore⟩]
      exact ⟨_, rfl⟩
    · refine absurd ?_ (hno (.serve t) (by simp) (by simp))
      have hloop : (s.its t).main = t → (s.its t).numThreads - 1 ≤ (s.its t).next := fun hm =>
        Nat.not_lt.1 (fun hlt => hmore ⟨hm, hlt⟩)
      simp only [progStep, hx]
      rw [if_pos ⟨hr, hloop⟩]
      exact ⟨_, rfl⟩
  | serving c => exact ⟨c, rfl⟩
  | closed =>
    have hexit := h.ending.exits t hr.1 (Or.inl hx)
    rw [hr.2] at hexit
    cases hexit
  | initializing c => rw [hx] at hfit; cases hfit
  | refused c => rw [hx] at hfit; cases hfit

theorem Hosted.gone (h : Hosted s) (hrest : s.AtRest) (hout : ∀ t < s.threads, s.races.point t = .outside) {p : Nat}
    (hexit : (s.program p).exiting = true) : s.Gone p := by
  have hq : s.Quiet p := fun u hu _ => hout u hu
  refine ⟨hexit, hq, fun t ht ho => ?_⟩
  subst ho
  cases hconn : (s.thread t).connection with
  | none => rfl
  | some c =>
    have hopen := h.connected.opened t ht c hconn
    have hstep : ∃ s', progStep s (.release t) = some s' := by
      simp only [progStep, hconn]
      rw [if_pos ⟨ht, hexit, hq⟩]
      simp only [raceStep, hout t ht, hopen, and_self, if_true]
      split <;> exact ⟨_, rfl⟩
    obtain ⟨s', hs'⟩ := hstep
    rcases hrest _ _ hs' with ⟨n, k, he⟩ | ⟨q, he⟩ <;> cases he

/-- **At rest every program is served by all its threads, or gone.** -/
theorem Hosted.atRest (h : Hosted s) (hrest : s.AtRest) {p : Nat} (hp : p < s.programs) :
    if (s.program p).exiting = true then s.Gone p ∧ s.device p = none
    else ∃ d, s.device p = some d ∧
      (∀ t < s.threads, s.owner t = p → ∃ c, s.thread t = .serving c ∧ s.races.devs.blockDev c = some d) ∧
      s.races.devs.numConnection d + (s.program p).refusals = (s.program p).numThreads := by
  have hout : ∀ t < s.threads, s.races.point t = .outside := by
    intro t ht
    by_contra hpt
    obtain ⟨s', hs'⟩ := Programs.call_isSome ht hpt
    rcases hrest _ _ hs' with ⟨n, k, he⟩ | ⟨q, he⟩ <;> cases he
  split
  · next hexit =>
    have hg := h.gone hrest hout hexit
    refine ⟨hg, ?_⟩
    cases hd : s.device p with
    | none => rfl
    | some d => exact absurd hg (h.not_gone hd)
  · next hexit =>
    have hserves : ∀ t < s.threads, s.owner t = p → ∃ c, s.thread t = .serving c := by
      intro t ht ho
      refine h.serves hrest ⟨ht, ?_⟩ (hout t ht)
      rw [Programs.its, ho]
      simpa using hexit
    obtain ⟨hm, ho⟩ := h.roster.main p hp
    obtain ⟨c, hc⟩ := hserves _ hm ho
    have hattached : ∀ t < s.threads, ∀ c, s.thread t = .serving c →
        ∃ d, s.device (s.owner t) = some d ∧ s.races.devs.blockDev c = some d := by
      intro t ht c hc
      have hatt := h.connected.attached t ht c (by rw [hc]; rfl)
      rw [hc] at hatt
      exact hatt
    obtain ⟨d, hd, -⟩ := hattached _ hm c hc
    rw [ho] at hd
    refine ⟨d, hd, fun t ht hto => ?_, ?_⟩
    · obtain ⟨b, hb⟩ := hserves t ht hto
      obtain ⟨e, he, hblock⟩ := hattached t ht b hb
      rw [hto, hd] at he
      cases he
      exact ⟨b, hb, hblock⟩
    · have hall : s.counted p = s.members p := by
        refine total_congr (fun t ht => ?_)
        by_cases hto : s.owner t = p
        · obtain ⟨b, hb⟩ := hserves t ht hto
          rw [hb, hout t ht]
          simp [hto, countsAt, ThreadAt.attaches]
        · simp [hto]
      have hteam := h.roster.team p hp
      have hsize := (h.roster.size p hp).1
      have hlooped := h.looped p hp c hc
      rw [h.count p d hd, hall]
      omega

end

/-! ## The programs of the library -/

/-- **The programs of the library never race.** In every state that they reach together
    with the module, with two programs of one name only one after the other:
    no section of the module that they run is raced, so a device that is being removed is
    attached to nothing and nobody has obtained it; a thread that calls
    `handle_initialization` runs the write of the library to its end; the devices on the
    list are those of the programs, each under the name of its program and with as many
    `num_connection` as the program has threads that are attached; no
    `connect_block_device` fails, and a thread is attached to the device of its own
    program. Every run without new programs
    ends, and at its end every program is served by all the threads that could be
    started, or it has exited and its device is gone. -/
theorem library_programs {s : Programs} (h : Machine.Reach progStep ProgPromised Programs.init s) :
    (∀ act s' r, progStep s act = some s' → s.section? act = some r → Unraced s.races r) ∧
    (∀ t < s.threads, ∀ c, s.races.point t = .init c → s.WritesInit t c) ∧
    (∀ t d, (s.races.point t).removes = some d →
      s.races.devs.attached d = [] ∧ ∀ u, (s.races.point u).obtained ≠ some d) ∧
    (∀ d, d ∈ s.races.devs.disks ↔ ∃ p < s.programs, s.device p = some d) ∧
    (∀ p d, s.device p = some d → ¬ s.Gone p ∧ cString (s.races.devs.name d) = cString (s.program p).diskName ∧
      (∀ q, s.device q = some d → q = p) ∧ s.races.devs.numConnection d = s.counted p) ∧
    (∀ t < s.threads, ∀ c, s.thread t ≠ .refused c ∧ (s.thread t = .attached c ∨ s.thread t = .serving c →
      ∃ d, s.device (s.owner t) = some d ∧ s.races.devs.blockDev c = some d)) ∧
    (∀ acts s', Machine.Steps progStep (fun s act => ProgPromised s act ∧ ∀ n k, act ≠ .exec n k) s acts s' →
      acts.length ≤ s.work) ∧
    (s.AtRest → ∀ p < s.programs, if (s.program p).exiting = true then s.Gone p ∧ s.device p = none
      else ∃ d, s.device p = some d ∧
        (∀ t < s.threads, s.owner t = p → ∃ c, s.thread t = .serving c ∧ s.races.devs.blockDev c = some d) ∧
        s.races.devs.numConnection d + (s.program p).refusals = (s.program p).numThreads) := by
  have hosted := hosted_reach h
  refine ⟨fun act s' r hs hr => hosted.unraced hs hr, fun t ht c hp => hosted.writesInit ht hp,
    fun t d ht => hosted.removal_alone ht, fun d => ⟨fun hd => ?_, ?_⟩,
    fun p d hd => ?_, fun t ht c => ⟨fun hx => ?_, fun hx => ?_⟩, fun acts s' hsteps => ?_,
      fun hrest p hp => hosted.atRest hrest hp⟩
  · obtain ⟨p, hp⟩ := hosted.onList.listed d hd
    exact ⟨p, (hosted.onList.device p d hp).1, hp⟩
  · rintro ⟨p, -, hd⟩
    exact (hosted.onList.device p d hd).2.1
  · exact ⟨hosted.not_gone hd, (hosted.onList.device p d hd).2.2, fun q hq => hosted.onList.only q p d hq hd,
      hosted.count p d hd⟩
  · have hfit := hosted.fits t ht
    rw [hx] at hfit
    cases hfit
  · have hatt := hosted.connected.attached t ht c
    rcases hx with hx | hx <;> rw [hx] at hatt <;> exact hatt rfl
  · exact hsteps.length_le (fun s act s' hi hok hs => ⟨hosted_step hi hok.1 hs, hi.work_lt hs hok.2⟩) hosted

/-- A program starts with two threads, and while the second one connects another
    program starts with one thread. The first program exits, and the close of its last
    file removes its device. -/
def twoPrograms : List ProgAct :=
  [.exec [97] 2, .devOpen 0 0, .write 0, .call 0, .call 0, .call 0, .pthreadCreate 0 true, .devOpen 1 1, .serve 0,
    .write 1, .exec [98] 1, .devOpen 2 2, .write 2, .call 2, .call 1, .call 1, .call 2, .exit 0, .call 1,
    .call 2, .serve 2, .release 0, .call 0, .release 1, .call 1, .call 1, .call 1]

theorem twoPrograms_isSome : (Machine.runOk progStep ProgPromised Programs.init twoPrograms).isSome = true := by
  decide +kernel

theorem twoPrograms_run : ∃ s, Machine.runOk progStep ProgPromised Programs.init twoPrograms = some s ∧
    s.programs = 2 ∧ s.threads = 3 ∧
    (∀ t < 3, s.races.point t = .outside ∧
      (s.thread t = .closed ∨ s.thread t = .serving 2 ∧ (s.program (s.owner t)).exiting = false)) ∧
    (s.program 0).exiting = true ∧ (s.program 1).exiting = false ∧ s.races.devs.disks = [1] ∧ s.counted 1 = 1 :=
  ⟨_, (Option.some_get twoPrograms_isSome).symm,
    by decide +kernel, by decide +kernel, by decide +kernel, by decide +kernel,
    by decide +kernel, by decide +kernel, by decide +kernel⟩


theorem twoPrograms_atRest {s : Programs} (hthreads : s.threads = 3) (hat : ∀ t < 3, s.races.point t = .outside ∧
    (s.thread t = .closed ∨ s.thread t = .serving 2 ∧ (s.program (s.owner t)).exiting = false)) : s.AtRest := by
  intro act s' hs
  have hcall : ∀ {t}, t < s.threads → s.races.point t ≠ .outside → False :=
      fun ht hp => hp (hat _ (hthreads ▸ ht)).1
  have hopen : ∀ {t x}, t < s.threads → s.thread t = x → x = .closed ∨ x = .serving 2 := by
    intro t x ht hx
    rcases (hat t (hthreads ▸ ht)).2 with h | ⟨h, -⟩
    · exact .inl (hx.symm.trans h)
    · exact .inr (hx.symm.trans h)
  have hfile : ∀ {t c}, t < s.threads → (s.its t).exiting = true → (s.thread t).connection = some c → False := by
    intro t c ht hexit hconn
    rcases (hat t (hthreads ▸ ht)).2 with h | ⟨-, h⟩
    · rw [h] at hconn
      cases hconn
    · rw [Programs.its, h] at hexit
      cases hexit
  cases progStep_cases hs with
  | exec n k => exact .inl ⟨n, k, rfl⟩
  | exit p hp hexit => exact .inr ⟨p, rfl⟩
  | devOpen t c hr ht hc => rcases hopen hr.1 ht with h | h <;> cases h
  | write t c hr ht hp => rcases hopen hr.1 ht with h | h <;> cases h
  | start t c hr ht hmain hnext => rcases hopen hr.1 ht with h | h <;> cases h
  | startFails t c hr ht hmain hnext => rcases hopen hr.1 ht with h | h <;> cases h
  | serve t c hr ht hloop => rcases hopen hr.1 ht with h | h <;> cases h
  | create t c ht hp hmain => exact (hcall ht (by rw [hp]; simp)).elim
  | connect t c d ht hp hne hfind => exact (hcall ht (by rw [hp]; simp)).elim
  | refuse t c ht hp hne hfind => exact (hcall ht (by rw [hp]; simp)).elim
  | countUp t c d ht hp => exact (hcall ht (by rw [hp]; simp)).elim
  | store t c d ht hp => exact (hcall ht (by rw [hp]; simp)).elim
  | countDown t c d ht hp => exact (hcall ht (by rw [hp]; simp)).elim
  | find t d e ht hp hfind => exact (hcall ht (by rw [hp]; simp)).elim
  | miss t d ht hp hfind => exact (hcall ht (by rw [hp]; simp)).elim
  | listDel t d ht hp => exact (hcall ht (by rw [hp]; simp)).elim
  | close t c ht hexit hq hconn hnone => exact (hfile ht hexit hconn).elim
  | release t c d ht hexit hq hconn hdev => exact (hfile ht hexit hconn).elim

theorem library_programs_twoPrograms : ∃ s, Machine.Reach progStep ProgPromised Programs.init s ∧
    s.races.devs.disks = [1] ∧ s.Gone 0 ∧ s.device 0 = none ∧ ∃ d, s.device 1 = some d ∧
      s.races.devs.numConnection d = 1 ∧
      ∀ t < s.threads, s.owner t = 1 → ∃ c, s.thread t = .serving c ∧ s.races.devs.blockDev c = some d := by
  obtain ⟨s, hrun, hprograms, hthreads, hat, hexit₀, hexit₁, hdisks, hcounted⟩ := twoPrograms_run
  have hreach : Machine.Reach progStep ProgPromised Programs.init s := ⟨twoPrograms, .of_runOk hrun⟩
  obtain ⟨-, -, -, -, hdevice, -, -, hrest⟩ := library_programs hreach
  have hrest := hrest (twoPrograms_atRest hthreads hat)
  obtain ⟨hgone, hnone⟩ : s.Gone 0 ∧ s.device 0 = none := by
    have h := hrest 0 (by omega)
    rwa [if_pos hexit₀] at h
  have h := hrest 1 (by omega)
  rw [if_neg (by rw [hexit₁]; simp)] at h
  obtain ⟨d, hd, hserves, -⟩ := h
  exact ⟨s, hreach, hdisks, hgone, hnone, d, hd, (hdevice 1 d hd).2.2.2.trans hcounted, hserves⟩

end Bius
