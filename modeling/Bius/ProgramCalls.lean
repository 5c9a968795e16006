import Bius.ProgramSteps

/- Every step of the programs keeps `Hosted`. The sections of a call are taken from the
   opening of the file to the removal of the device; a program that starts, starts a
   thread or exits touches no device. -/
namespace Bius

open Sums Programs

section
variable {s : Programs} {t c d : Nat} {x : ThreadAt} {y : AttachPoint} {devs : Devices}

/-! ## Where a step finds the thread -/

theorem Hosted.not_gone_of_point (ht : t < s.threads) (hp : s.races.point t ≠ .outside) : ¬ s.Gone (s.owner t) :=
  fun hg => hp (hg.2.1 t ht rfl)

theorem Hosted.not_gone_of_connection (ht : t < s.threads) (hc : (s.thread t).connection = some c) :
    ¬ s.Gone (s.owner t) := by
  intro hg
  rw [hg.2.2 t ht rfl] at hc
  cases hc

theorem Hosted.apart_call (h : Hosted s) (ht : t < s.threads) (hp : s.races.point t ≠ .outside)
    (hx : x = .closed → s.thread t = .closed ∨ (s.races.point t).leaving = true)
    (hl : y.leaving = true → (s.races.point t).leaving = true)
    (he : y.entering = true → (s.races.point t).entering = true) : StandsApart s t x y := by
  refine ⟨Hosted.not_gone_of_point ht hp, fun hxl => ?_, fun hyl u hu ho hut => ?_, fun hxc u hu ho hut => ?_,
    fun hye u hu ho hc => ?_, fun u hu ho hut => ?_⟩
  · rcases hxl with hxc | hyl
    · exact h.ending.exits t ht (hx hxc)
    · exact h.ending.exits t ht (Or.inr (hl hyl))
  · exact h.ending.last t u ht hu ho (hl hyl) hut
  · rcases hx hxc with hc | hleave
    · exact h.ending.settled t u ht hu ho hc
    · rw [h.ending.last t u ht hu ho hleave hut]
      rfl
  · have hset := h.ending.settled u t hu ht ho.symm hc
    rw [he hye] at hset
    cases hset
  · cases hul : (s.races.point u).leaving with
    | false => rfl
    | true => exact absurd (h.ending.last u t hu ht ho.symm hul (Ne.symm hut)) hp

theorem Hosted.apart_runs (h : Hosted s) (hr : s.Runs t) (hx : x ≠ .closed) (hl : y.leaving = false) :
    StandsApart s t x y := by
  have hits : ∀ u, s.owner u = s.owner t → (s.its u).exiting = false := fun u ho => by
    rw [Programs.its, ho]
    exact hr.2
  refine ⟨fun hg => ?_, fun hxl => ?_, fun hyl => ?_, fun hxc => absurd hxc hx, fun _ u hu ho hc => ?_,
    fun u hu ho _ => ?_⟩
  · have hexit := hits t rfl
    rw [Programs.its, hg.1] at hexit
    cases hexit
  · rcases hxl with hxc | hyl
    · exact absurd hxc hx
    · rw [hl] at hyl
      cases hyl
  · rw [hl] at hyl
    cases hyl
  · have hexit := h.ending.exits u hu (Or.inl hc)
    rw [hits u ho] at hexit
    cases hexit
  · cases hul : (s.races.point u).leaving with
    | false => rfl
    | true =>
      have hexit := h.ending.exits u hu (Or.inr hul)
      rw [hits u ho] at hexit
      cases hexit

/-- A file of a program is closed when no thread of it is in a call. -/
theorem Hosted.apart_quiet (ht : t < s.threads) (hexit : (s.its t).exiting = true) (hq : s.Quiet (s.owner t))
    (hc : (s.thread t).connection = some c) (he : y.entering = false) : StandsApart s t x y := by
  refine ⟨Hosted.not_gone_of_connection ht hc, fun _ => hexit, fun _ u hu ho _ => hq u hu ho, fun _ u hu ho _ => ?_,
    fun hye => ?_, fun u hu ho _ => ?_⟩
  · rw [hq u hu ho]
    rfl
  · rw [he] at hye
    cases hye
  · rw [hq u hu ho]
    rfl

theorem Hosted.links_same (h : Hosted s) (ht : t < s.threads) (hconn : x.connection = (s.thread t).connection)
    (hatt : x.attaches = (s.thread t).attaches) (numConnection : Nat → Nat) :
    Relinks s t x { s.races.devs with numConnection := numConnection } := by
  refine ⟨rfl, rfl, rfl, h.connected.nodup, fun c => ?_, fun c hc => Or.inl (hconn ▸ hc), fun _ _ _ => rfl,
    fun c hc => ?_, fun c hc hne => absurd (hconn ▸ hc) hne⟩
  · rw [hconn]
    constructor
    · intro hmem
      by_cases hc : (s.thread t).connection = some c
      · exact Or.inl hc
      · exact Or.inr ⟨hmem, hc⟩
    · rintro (hc | hc)
      · exact h.connected.opened t ht c hc
      · exact hc.1
  · rw [hatt]
    exact h.connected.attached t ht c (hconn ▸ hc)

theorem Hosted.links_close (h : Hosted s) (hc : (s.thread t).connection = some c)
    (numConnection : Nat → Nat) :
    Relinks s t .closed (Devices.close { s.races.devs with numConnection := numConnection } c) := by
  refine ⟨rfl, rfl, rfl, h.connected.nodup.erase c, fun b => ?_, fun b hb => (by cases hb), fun b _ hb => ?_,
    fun b hb => (by cases hb), fun b hb _ => ?_⟩
  · have hmem : b ∈ s.races.devs.opened.erase c ↔ b ≠ c ∧ b ∈ s.races.devs.opened :=
        h.connected.nodup.mem_erase_iff
    show b ∈ s.races.devs.opened.erase c ↔ _
    rw [hmem, hc]
    constructor
    · rintro ⟨hne, hb⟩
      exact Or.inr ⟨hb, fun he => hne (Option.some.inj he).symm⟩
    · rintro (hb | ⟨hb, hne⟩)
      · cases hb
      · exact ⟨fun he => hne (by rw [he]), hb⟩
  · have hbc : b ≠ c := fun he => hb (he ▸ hc)
    show Function.update s.races.devs.blockDev c none b = _
    rw [Function.update_of_ne hbc]
  · have hbc : c = b := Option.some.inj (hc ▸ hb)
    show Function.update s.races.devs.blockDev c none b = _
    rw [hbc, Function.update_self]

/-! ## What the thread and its program are then -/

theorem Together.opening_outside (h : Together .opening y) : y = .outside := by
  cases h
  rfl

theorem Together.init_thread (h : Together x (.init c)) : x = .initializing c := by
  cases h
  rfl

theorem Together.got_thread (h : Together x (.got c d)) : x = .initializing c := by
  cases h
  rfl

theorem Together.counted_thread (h : Together x (.counted c d)) : x = .initializing c := by
  cases h
  rfl

theorem Together.releasing_thread (h : Together x (.releasing c d)) : x = .attached c ∨ x = .serving c := by
  cases h
  · exact Or.inl rfl
  · exact Or.inr rfl

theorem Together.removes_thread (h : Together x y) (hd : y.removes = some d) : x = .closed := by
  cases h <;> first | rfl | cases hd

theorem Hosted.unmade_of (h : Hosted s) (ht : t < s.threads) (hmain : (s.its t).main = t)
    (hb : (s.thread t).before = true ∨ (∃ c, s.races.point t = .init c)) : s.device (s.owner t) = none := by
  refine h.unmade (s.owner t) (h.roster.owned t ht) ?_
  change (s.program (s.owner t)).main = t at hmain
  rw [hmain]
  exact hb

theorem Hosted.not_gone (h : Hosted s) {p : Nat} (hd : s.device p = some d) : ¬ s.Gone p := by
  obtain ⟨t, ht, rfl, hk⟩ := h.used p d hd
  intro hg
  have hp := hg.2.1 t ht rfl
  have hc := hg.2.2 t ht rfl
  rw [hp] at hk
  generalize s.thread t = x at hk hc
  cases x <;> first | exact absurd hk (by decide) | exact absurd hc (by simp [ThreadAt.connection])

theorem Hosted.getBlockDevice (h : Hosted s) {p : Nat} (hd : s.device p = some d) {diskName : List UInt8}
    (hname : cString diskName = cString (s.program p).diskName) : s.races.devs.getBlockDevice diskName = some d := by
  obtain ⟨hp, hmem, hnd⟩ := h.onList.device p d hd
  cases hfind : s.races.devs.getBlockDevice diskName with
  | none =>
    have hnone := List.find?_eq_none.1 hfind d (List.mem_reverse.2 hmem)
    simp [hnd, hname] at hnone
  | some e =>
    have hne : cString (s.races.devs.name e) = cString diskName := by simpa using List.find?_some hfind
    obtain ⟨q, hq⟩ := h.onList.listed e (getBlockDevice_mem hfind)
    obtain ⟨hqp, -, hnq⟩ := h.onList.device q e hq
    have hpq : p = q := h.names p q hp hqp (h.not_gone hd) (h.not_gone hq) (by rw [← hnq, hne, hname])
    rw [← hpq, hd] at hq
    rw [Option.some.inj hq]

theorem ThreadAt.attaches_cases (hc : x.connection = some c) (ha : x.attaches = true) :
    x = .attached c ∨ x = .serving c := by
  cases x with
  | attached b =>
    cases hc
    exact Or.inl rfl
  | serving b =>
    cases hc
    exact Or.inr rfl
  | _ => cases ha

theorem Hosted.attached_of_blockDev (h : Hosted s) (ht : t < s.threads) (hc : (s.thread t).connection = some c)
    (hd : s.races.devs.blockDev c = some d) :
    (s.thread t = .attached c ∨ s.thread t = .serving c) ∧ s.device (s.owner t) = some d := by
  have hattached := h.connected.attached t ht c hc
  cases ha : (s.thread t).attaches with
  | false =>
    rw [ha, hd] at hattached
    cases hattached
  | true =>
    rw [ha, if_pos rfl] at hattached
    obtain ⟨e, he, hb⟩ := hattached
    rw [hd] at hb
    cases hb
    exact ⟨ThreadAt.attaches_cases hc ha, he⟩

theorem Hosted.device_of_worker (h : Hosted s) (ht : t < s.threads) (hp : s.races.point t = .init c)
    (hne : (s.its t).main ≠ t) : ∃ d, s.device (s.owner t) = some d := by
  obtain ⟨hm, ho⟩ := h.roster.main (s.owner t) (h.roster.owned t ht)
  have hpast := h.workers t ht hne
  change (s.thread (s.program (s.owner t)).main).past = true at hpast
  have hatt := h.connected.attached _ hm
  have hset := h.ending.settled _ t hm ht ho.symm
  rw [ho] at hatt
  cases hx : s.thread (s.program (s.owner t)).main with
  | attached b =>
    rw [hx] at hatt
    obtain ⟨d, hd, -⟩ := hatt b rfl
    exact ⟨d, hd⟩
  | serving b =>
    rw [hx] at hatt
    obtain ⟨d, hd, -⟩ := hatt b rfl
    exact ⟨d, hd⟩
  | closed =>
    have hent := hset hx
    rw [hp] at hent
    cases hent
  | _ => rw [hx] at hpast; cases hpast

/-! ## The calls -/

theorem races_go_self {devs : Devices} (hp : s.races.point t = y) : s.races.go t y devs = ⟨devs, s.races.point⟩ := by
  rw [Races.go, ← hp, Function.update_eq_self]

theorem Hosted.devOpen (h : Hosted s) (hr : s.Runs t) (ht : s.thread t = .opening) (hc : c ∉ s.races.devs.opened) :
    Hosted (s.go t (.opened c) ⟨{ s.races.devs with opened := s.races.devs.opened ++ [c] }, s.races.point⟩) := by
  have hp : s.races.point t = .outside := (ht ▸ h.fits t hr.1).opening_outside
  have hnodup : (s.races.devs.opened ++ [c]).Nodup := List.nodup_append.2
    ⟨h.connected.nodup, by simp, fun a ha b hb heq => hc (by rw [← List.mem_singleton.1 hb, ← heq]; exact ha)⟩
  rw [← races_go_self hp]
  refine h.go ⟨hr.1, .opened c, ⟨rfl, rfl, rfl, hnodup, fun b => ?_, fun b hb => ?_, fun _ _ _ => rfl, fun b hb => ?_,
      fun b hb => (by rw [ht] at hb; cases hb)⟩,
    h.apart_runs hr (by simp) rfl, fun d hd => (by cases hd), fun hmain _ => ?_, ?_, fun _ b hb => (by cases hb),
      fun d _ => ?_,
    fun _ _ => rfl, fun d hd => (by cases hd), fun d _ => Or.inr (Or.inl ?_)⟩
  · rw [List.mem_append, List.mem_singleton, ht]
    simp only [ThreadAt.connection, Option.some.injEq, reduceCtorEq, ne_eq, not_false_eq_true, and_true]
    tauto
  · cases hb
    exact Or.inr hc
  · cases hb
    exact h.connected.closed c hc
  · exact h.unmade_of hr.1 hmain (Or.inl (by rw [ht]; rfl))
  · rw [ht]
    simp [ThreadAt.past]
  · rw [ht, hp]
    rfl
  · rw [ht, hp]
    rfl

theorem Hosted.write (h : Hosted s) (hr : s.Runs t) (ht : s.thread t = .opened c) (hp : s.races.point t = .outside) :
    Hosted (s.go t (.initializing c) (s.races.go t (.init c) s.races.devs)) := by
  refine h.go ⟨hr.1, .init c, h.links_same hr.1 (by rw [ht]; rfl) (by rw [ht]; rfl) s.races.devs.numConnection,
    h.apart_runs hr (by simp) rfl, fun d hd => (by cases hd), fun hmain _ => ?_, ?_, fun _ b hb => (by cases hb),
      fun d _ => ?_,
    fun _ _ => rfl, fun d hd => (by cases hd), fun d _ => Or.inr (Or.inl ?_)⟩
  · exact h.unmade_of hr.1 hmain (Or.inl (by rw [ht]; rfl))
  · rw [ht]
    simp [ThreadAt.past]
  · rw [ht, hp]
    rfl
  · rw [ht, hp]
    rfl

theorem Hosted.connect (h : Hosted s) (ht : t < s.threads) (hp : s.races.point t = .init c) (hne : (s.its t).main ≠ t)
    (hfind : s.races.devs.getBlockDevice (connectName (s.its t).diskName) = some d) :
    Hosted (s.go t (s.thread t) (s.races.go t (.got c d) s.races.devs)) := by
  have hx : s.thread t = .initializing c := (hp ▸ h.fits t ht).init_thread
  obtain ⟨e, he⟩ := h.device_of_worker ht hp hne
  have hfound : s.races.devs.getBlockDevice (connectName (s.its t).diskName) = some e :=
    h.getBlockDevice he (cString_connectName _)
  have hdev : s.device (s.owner t) = some d := by
    rw [he, ← hfound, hfind]
  refine h.go ⟨ht, ?_, h.links_same ht rfl rfl s.races.devs.numConnection,
    h.apart_call ht (by rw [hp]; simp) Or.inl ?_ ?_, fun b hb => ?_, fun hmain => absurd hmain hne, id,
      fun hmain => absurd hmain hne, fun e _ => ?_, fun _ _ => rfl,
    fun b hb => (by cases hb), fun b _ => Or.inl ?_⟩
  · rw [hx]
    exact .got c d
  · intro hl
    cases hl
  · intro _
    rw [hp]
    rfl
  · cases hb
    exact hdev
  · rw [hx, hp]
    rfl
  · rw [hx]
    rfl

theorem Hosted.small (h : Hosted s) {p : Nat} (hd : s.device p = some d) : s.races.devs.numConnection d < 2 ^ 31 := by
  have hp := (h.onList.device p d hd).1
  have hteam := h.roster.team p hp
  obtain ⟨hnext, hsize⟩ := h.roster.size p hp
  have hle : s.counted p ≤ s.members p := by
    refine total_le (fun u _ => ?_)
    by_cases ho : s.owner u = p
    · simp only [ho, true_and, if_true]
      split <;> omega
    · simp [ho]
  rw [h.count p d hd]
  omega

theorem Hosted.countUp (h : Hosted s) (ht : t < s.threads) (hp : s.races.point t = .got c d) :
    Hosted (s.go t (s.thread t) (s.races.go t (.counted c d) (s.races.devs.countUp d))) := by
  have hx : s.thread t = .initializing c := (hp ▸ h.fits t ht).got_thread
  have hdev : s.device (s.owner t) = some d := h.uses t ht d (by rw [hp]; rfl)
  refine h.go ⟨ht, ?_, h.links_same ht rfl rfl _, h.apart_call ht (by rw [hp]; simp) Or.inl ?_ ?_, fun b hb => ?_,
    fun hmain hb => ?_, id, fun _ b hb => ?_, fun e he => ?_, fun e he => ?_, fun b hb => (by cases hb),
      fun b _ => Or.inl ?_⟩
  · rw [hx]
    exact .counted c d
  · intro hl
    cases hl
  · intro _
    rw [hp]
    rfl
  · cases hb
    exact hdev
  · rw [hx] at hb
    rcases hb with hb | ⟨b, hb⟩ <;> cases hb
  · rw [hx] at hb
    cases hb
  · have hed : e = d := Option.some.inj (he.symm.trans hdev)
    have hsmall := h.small hdev
    have hmod := Nat.mod_eq_of_lt (show s.races.devs.numConnection d + 1 < 2 ^ 32 by omega)
    rw [hx, hp, hed]
    simp only [Devices.countUp, Function.update_self, hmod]
    rfl
  · have hed : e ≠ d := fun heq => he (heq ▸ hdev)
    simp only [Devices.countUp, Function.update_of_ne hed]
  · rw [hx]
    rfl

theorem Hosted.store (h : Hosted s) (ht : t < s.threads) (hp : s.races.point t = .counted c d) :
    Hosted (s.go t (.attached c) (s.races.go t .outside (s.races.devs.store c d))) := by
  have hx : s.thread t = .initializing c := (hp ▸ h.fits t ht).counted_thread
  have hdev : s.device (s.owner t) = some d := h.uses t ht d (by rw [hp]; rfl)
  have hconn : (s.thread t).connection = some c := by rw [hx]; rfl
  have hsame := h.links_same (x := .initializing c) ht (by rw [hx]) (by rw [hx]) s.races.devs.numConnection
  refine h.go ⟨ht, .attached c, ⟨rfl, rfl, rfl, h.connected.nodup, hsame.opened, hsame.fresh, fun b hb _ => ?_,
      fun b hb => ?_, fun b hb hne => ?_⟩, h.apart_call ht (by rw [hp]; simp) (fun hc => (by cases hc))
        (fun hl => (by cases hl)) (fun he => (by cases he)),
    fun b hb => (by cases hb), fun _ hb => ?_, fun _ => rfl, fun _ b hb => (by cases hb), fun e _ => ?_, fun _ _ => rfl,
    fun b hb => (by cases hb), fun b _ => Or.inl rfl⟩
  · have hbc : b ≠ c := fun he => hb (by rw [he]; rfl)
    simp only [Devices.store, Function.update_of_ne hbc]
  · cases hb
    exact ⟨d, hdev, Function.update_self _ _ _⟩
  · rw [hconn] at hb
    exact absurd hb hne
  · rcases hb with hb | ⟨b, hb⟩ <;> cases hb
  · rw [hx, hp]
    rfl

theorem Hosted.countDown (h : Hosted s) (ht : t < s.threads) (hp : s.races.point t = .releasing c d) :
    Hosted (s.go t .closed (s.races.go t
      (if ((s.races.devs.countDown d).close c).numConnection d = 0 then .removing d else .outside)
      ((s.races.devs.countDown d).close c))) := by
  have hx := (hp ▸ h.fits t ht).releasing_thread
  have hdev : s.device (s.owner t) = some d := h.uses t ht d (by rw [hp]; rfl)
  have hconn : (s.thread t).connection = some c := by
    rcases hx with hx | hx <;> rw [hx] <;> rfl
  have hcounts : countsAt (s.thread t) (s.races.point t) = true := by
    rcases hx with hx | hx <;> rw [hx, hp] <;> rfl
  -- the thread itself is counted
  have hpos : 0 < s.races.devs.numConnection d := by
    rw [h.count _ d hdev]
    have hle := le_total (n := s.threads)
      (f := fun u => if s.owner u = s.owner t ∧ countsAt (s.thread u) (s.races.point u) = true then 1 else 0) ht
    rw [if_pos ⟨rfl, hcounts⟩] at hle
    exact hle
  have hsmall := h.small hdev
  have hdown : ((s.races.devs.countDown d).close c).numConnection d = s.races.devs.numConnection d - 1 := by
    simp only [Devices.close, Devices.countDown, Function.update_self]
    omega
  obtain ⟨y, hy⟩ : ∃ y, y = if ((s.races.devs.countDown d).close c).numConnection d =
    0 then AttachPoint.removing d else .outside :=
    ⟨_, rfl⟩
  have hcases : y = .removing d ∧ s.races.devs.numConnection d = 1 ∨ y = .outside ∧
      1 < s.races.devs.numConnection d := by
    rw [hy, hdown]
    split
    · exact Or.inl ⟨rfl, by omega⟩
    · exact Or.inr ⟨rfl, by omega⟩
  rw [← hy]
  refine h.go ⟨ht, ?_, h.links_close hconn _, h.apart_call ht (by rw [hp]; simp)
    (fun _ => Or.inr (by rw [hp]; rfl)) ?_ ?_, fun b hb => ?_, fun _ hb => ?_, fun _ => rfl,
      fun _ b hb => (by cases hb), fun e he => ?_, fun e he => ?_, fun b hb => ?_, fun e he => ?_⟩
  · rcases hcases with ⟨rfl, -⟩ | ⟨rfl, -⟩
    · exact .removing d
    · exact .closed
  · intro _
    rw [hp]
    rfl
  · rcases hcases with ⟨rfl, -⟩ | ⟨rfl, -⟩ <;> exact fun he => (by cases he)
  · rcases hcases with ⟨rfl, -⟩ | ⟨rfl, -⟩
    · cases hb
      exact hdev
    · cases hb
  · rcases hcases with ⟨rfl, -⟩ | ⟨rfl, -⟩ <;> rcases hb with hb | ⟨b, hb⟩ <;> cases hb
  · have hed : e = d := Option.some.inj (he.symm.trans hdev)
    have hnot : countsAt .closed y = false := by
      rcases hcases with ⟨rfl, -⟩ | ⟨rfl, -⟩ <;> rfl
    rw [hed, hcounts, hnot]
    show ((s.races.devs.countDown d).close c).numConnection d + 1 = _ + 0
    omega
  · have hed : e ≠ d := fun heq => he (heq ▸ hdev)
    show (s.races.devs.countDown d).numConnection e = _
    simp only [Devices.countDown, Function.update_of_ne hed]
  · rcases hcases with ⟨rfl, hone⟩ | ⟨rfl, -⟩
    · cases hb
      show ((s.races.devs.countDown d).close c).numConnection d = 0
      omega
    · cases hb
  · have hed : e = d := Option.some.inj (he.symm.trans hdev)
    rcases hcases with ⟨rfl, -⟩ | ⟨-, hmany⟩
    · exact Or.inl rfl
    · refine Or.inr (Or.inr ?_)
      rw [hed]
      show 0 < ((s.races.devs.countDown d).close c).numConnection d
      omega

theorem Hosted.find (h : Hosted s) (ht : t < s.threads) (hp : s.races.point t = .removing d) :
    s.races.devs.getBlockDevice (s.races.devs.name d) = some d ∧
      Hosted (s.go t (s.thread t) (s.races.go t (.unlinking d) s.races.devs)) := by
  have hx : s.thread t = .closed := (h.fits t ht).removes_thread (by rw [hp]; rfl)
  have hdev : s.device (s.owner t) = some d := h.uses t ht d (by rw [hp]; rfl)
  refine ⟨h.getBlockDevice hdev (h.onList.device _ d hdev).2.2,
    h.go ⟨ht, ?_, h.links_same ht rfl rfl s.races.devs.numConnection,
    h.apart_call ht (by rw [hp]; simp) Or.inl (fun _ => (by rw [hp]; rfl)) (fun he => (by cases he)),
      fun b hb => ?_, fun _ hb => ?_,
    id, fun _ b hb => ?_, fun e _ => ?_, fun _ _ => rfl, fun b hb => ?_, fun b _ => Or.inl ?_⟩⟩
  · rw [hx]
    exact .unlinking d
  · cases hb
    exact hdev
  · rw [hx] at hb
    rcases hb with hb | ⟨b, hb⟩ <;> cases hb
  · rw [hx] at hb
    cases hb
  · rw [hx, hp]
    rfl
  · cases hb
    exact h.empty t ht d (by rw [hp]; rfl)
  · rw [hx]
    rfl

theorem Hosted.attached_outside (h : Hosted s) (hr : s.Runs t) (ht : s.thread t = .attached c) :
    s.races.point t = .outside := by
  have hfit := ht ▸ h.fits t hr.1
  have hexits := h.ending.exits t hr.1
  generalize s.races.point t = y at hfit hexits
  cases hfit with
  | attached => rfl
  | exiting =>
    have hexit := hexits (Or.inr rfl)
    rw [hr.2] at hexit
    cases hexit

theorem Hosted.serve (h : Hosted s) (hr : s.Runs t) (ht : s.thread t = .attached c)
    (hloop : (s.its t).main = t → (s.its t).numThreads - 1 ≤ (s.its t).next) :
      Hosted (s.go t (.serving c) s.races) := by
  have hp := h.attached_outside hr ht
  have hraces : s.races = s.races.go t .outside s.races.devs := by rw [races_go_self hp]
  rw [hraces]
  refine h.go ⟨hr.1, .serving c, h.links_same hr.1 (by rw [ht]; rfl) (by rw [ht]; rfl) s.races.devs.numConnection,
    h.apart_runs hr (by simp) rfl, fun d hd => (by cases hd), fun _ hb => ?_, fun _ => rfl, fun hmain b _ => ?_,
      fun d _ => ?_,
    fun _ _ => rfl, fun d hd => (by cases hd), fun d _ => Or.inl rfl⟩
  · rcases hb with hb | ⟨b, hb⟩ <;> cases hb
  · have := hloop hmain
    omega
  · rw [ht, hp]
    rfl

theorem Hosted.close (h : Hosted s) (ht : t < s.threads) (hexit : (s.its t).exiting = true) (hq : s.Quiet (s.owner t))
    (hconn : (s.thread t).connection = some c) (hnone : s.races.devs.blockDev c = none) :
    Hosted (s.go t .closed (s.races.go t .outside (s.races.devs.close c))) := by
  have hp : s.races.point t = .outside := hq t ht rfl
  have hatt : (s.thread t).attaches = false := by
    have hattached := h.connected.attached t ht c hconn
    cases ha : (s.thread t).attaches with
    | false => rfl
    | true =>
      rw [ha, if_pos rfl] at hattached
      obtain ⟨d, -, hd⟩ := hattached
      rw [hnone] at hd
      cases hd
  have hcounts : countsAt (s.thread t) (s.races.point t) = false := by
    rw [hp]
    generalize s.thread t = x at hatt
    cases x <;> exact hatt
  refine h.go ⟨ht, .closed, h.links_close hconn s.races.devs.numConnection,
    Hosted.apart_quiet ht hexit hq hconn rfl, fun d hd => (by cases hd), fun _ hb => ?_, fun _ => rfl,
      fun _ b hb => (by cases hb),
    fun d _ => ?_, fun _ _ => rfl, fun d hd => (by cases hd), fun d _ => Or.inr (Or.inl ?_)⟩
  · rcases hb with hb | ⟨b, hb⟩ <;> cases hb
  · rw [hcounts]
    rfl
  · rw [hp] at hcounts ⊢
    generalize s.thread t = x at hcounts
    cases x <;> exact hcounts

theorem Hosted.release (h : Hosted s) (ht : t < s.threads) (hexit : (s.its t).exiting = true) (hq : s.Quiet (s.owner t))
    (hconn : (s.thread t).connection = some c) (hdev : s.races.devs.blockDev c = some d) :
    Hosted (s.go t (s.thread t) (s.races.go t (.releasing c d) s.races.devs)) := by
  have hp : s.races.point t = .outside := hq t ht rfl
  obtain ⟨hx, hd⟩ := h.attached_of_blockDev ht hconn hdev
  refine h.go ⟨ht, ?_, h.links_same ht rfl rfl s.races.devs.numConnection,
    Hosted.apart_quiet ht hexit hq hconn rfl, fun b hb => ?_, fun _ hb => ?_, id, fun hmain b hb => ?_,
      fun e _ => ?_, fun _ _ => rfl, fun b hb => (by cases hb), fun e _ => Or.inl ?_⟩
  · rcases hx with hx | hx <;> rw [hx]
    · exact .exiting c d
    · exact .leaving c d
  · cases hb
    exact hd
  · rcases hx with hx | hx <;> rw [hx] at hb <;> rcases hb with hb | ⟨b, hb⟩ <;> cases hb
  · have hmo := h.looped (s.owner t) (h.roster.owned t ht) b
    change (s.program (s.owner t)).main = t at hmain
    rw [hmain] at hmo
    exact hmo hb
  · rcases hx with hx | hx <;> rw [hx, hp] <;> rfl
  · rcases hx with hx | hx <;> rw [hx] <;> rfl

end

end Bius
