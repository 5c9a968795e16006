import Bius.KernelLife

/- Where the requests are does not depend on their ids: the moves of `Life` look at
   no id, so the one place of each request (`Life.Located`) stays true also after
   the 64-bit id counter has wrapped (`reach_located`). -/
namespace Bius

namespace Life

/-- The same requests in the same places, whatever their ids. -/
structure SamePlaces (l l' : Life) : Prop where
  blk : l'.blk = l.blk
  sem : l'.sem = l.sem
  busy : l'.busy = l.busy
  pending : l'.pending = l.pending
  waiting : l'.waiting = l.waiting
  sending : l'.sending = l.sending
  hold : l'.hold = l.hold

theorem SamePlaces.refl (l : Life) : SamePlaces l l := ⟨rfl, rfl, rfl, rfl, rfl, rfl, rfl⟩

theorem SamePlaces.trans {l l' m : Life} (h : SamePlaces l l') (h' : SamePlaces l' m) : SamePlaces l m := by
  obtain ⟨h₁, h₂, h₃, h₄, h₅, h₆, h₇⟩ := h
  obtain ⟨g₁, g₂, g₃, g₄, g₅, g₆, g₇⟩ := h'
  exact ⟨g₁.trans h₁, g₂.trans h₂, g₃.trans h₃, g₄.trans h₄, g₅.trans h₅, g₆.trans h₆,
    g₇.trans h₇⟩

theorem SamePlaces.located {l l' : Life} (h : SamePlaces l l') {loc : Ptr → Loc} (hl : Located loc l) :
    Located loc l' := by
  obtain ⟨h₁, h₂, h₃, h₄, h₅, h₆, h₇⟩ := h
  obtain ⟨_, _, _, _, _, _, _, _, _, _, _, _, _⟩ := hl
  constructor <;> simp only [h₁, h₂, h₃, h₄, h₅, h₆, h₇] <;> assumption

/-- What can happen to requests can happen to them under other ids. -/
theorem SamePlaces.step {l l' m : Life} (h : SamePlaces l l') (hs : Step l' m) :
    ∃ m', Step l m' ∧ SamePlaces m' m := by
  obtain ⟨next, id, blk, sem, busy, pending, waiting, sending, hold, queued, taken, ended⟩ := l
  obtain ⟨_, _, _, _, _, _, _, _, _, _, _, _⟩ := l'
  obtain ⟨h₁, h₂, h₃, h₄, h₅, h₆, h₇⟩ := h
  dsimp only at h₁ h₂ h₃ h₄ h₅ h₆ h₇
  subst h₁ h₂ h₃ h₄ h₅ h₆ h₇
  cases hs with
  | issue t p blk sem ht hp hsem => exact ⟨_, .issue t p blk sem ht hp hsem, ⟨rfl, rfl, rfl, rfl, rfl, rfl, rfl⟩⟩
  | refuse p sem hp => exact ⟨_, .refuse p sem hp, ⟨rfl, rfl, rfl, rfl, rfl, rfl, rfl⟩⟩
  | insert t p ht => exact ⟨_, .insert t p ht, ⟨rfl, rfl, rfl, rfl, rfl, rfl, rfl⟩⟩
  | take t c p ps x ht hp hx => exact ⟨_, .take t c p ps x ht hp hx, ⟨rfl, rfl, rfl, rfl, rfl, rfl, rfl⟩⟩
  | sent c => exact ⟨_, .sent c, ⟨rfl, rfl, rfl, rfl, rfl, rfl, rfl⟩⟩
  | wait t c p ht => exact ⟨_, .wait t c p ht, ⟨rfl, rfl, rfl, rfl, rfl, rfl, rfl⟩⟩
  | fail t c p ht => exact ⟨_, .fail t c p ht, ⟨rfl, rfl, rfl, rfl, rfl, rfl, rfl⟩⟩
  | reply t c p ht hp => exact ⟨_, .reply t c p ht hp, ⟨rfl, rfl, rfl, rfl, rfl, rfl, rfl⟩⟩
  | complete t c p ht => exact ⟨_, .complete t c p ht, ⟨rfl, rfl, rfl, rfl, rfl, rfl, rfl⟩⟩
  | wake t p ht hsem => exact ⟨_, .wake t p ht hsem, ⟨rfl, rfl, rfl, rfl, rfl, rfl, rfl⟩⟩

end Life

open Life

theorem submits_places {cfg : Config} {s s' : Kernel} {act : Act} (h : step cfg s act = some s')
    (hsub : act.submits = true) : ∃ l, LifeStep s.life l ∧ SamePlaces l s'.life := by
  -- the same submission with the counter at 0
  have hrestart : SamePlaces s.life { s with nextRequestId := 0 : Kernel }.life := ⟨rfl, rfl, rfl, rfl, rfl, rfl, rfl⟩
  suffices key : ∃ s₀ : Kernel, LifeStep { s with nextRequestId := 0 : Kernel }.life s₀.life ∧
      SamePlaces s₀.life s'.life by
    obtain ⟨s₀, hstep, hsame⟩ := key
    rcases hstep with heq | hmove
    · rw [heq] at hsame
      exact ⟨s.life, Or.inl rfl, hrestart.trans hsame⟩
    · obtain ⟨l, hl, hsame'⟩ := hrestart.step hmove
      exact ⟨l, Or.inr hl, hsame'.trans hsame⟩
  cases step_cases h with
  | queueRq t p rq ht hp =>
    refine ⟨{ s with nextRequestId := 0 : Kernel }.queueRq t p rq,
      queueRq_life (by rw [show Kernel.call _ t = s.call t from rfl, ht]; rfl) hp (Nat.one_lt_two_pow (by decide)), ?_⟩
    unfold Kernel.queueRq initBlkRequest
    dsimp only
    split <;> constructor <;> ext <;> simp only [Kernel.life, Kernel.submit, Function.update_apply] <;>
      split <;> rfl
  | reportZones t p sector n blkz ht hp =>
    refine ⟨{ s with nextRequestId := 0 : Kernel }.reportZones t p sector n blkz,
      reportZones_life (by rw [show Kernel.call _ t = s.call t from rfl, ht]; rfl) hp
        (Nat.one_lt_two_pow (by decide)), ?_⟩
    cases blkz with
    | none => exact ⟨rfl, rfl, rfl, rfl, rfl, rfl, rfl⟩
    | some blkz =>
      constructor <;> ext <;> simp only [Kernel.reportZones, initZonesRequest, Kernel.life, Kernel.submit,
        Function.update_apply] <;> split <;> rfl
  | _ => cases hsub

theorem step_places {cfg : Config} {s s' : Kernel} {act : Act} (h : step cfg s act = some s') :
    ∃ l, LifeStep s.life l ∧ SamePlaces l s'.life := by
  cases hsub : act.submits with
  | true => exact submits_places h hsub
  | false => exact ⟨_, step_life_of h (fun hs => by rw [hs] at hsub; cases hsub), .refl _⟩

/-- There is one place for each request, under some numbering. -/
def Kernel.Placed (s : Kernel) : Prop := ∃ l : Life, l.Inv ∧ SamePlaces l s.life

theorem placed_init : Kernel.init.Placed := ⟨Life.init, Inv.init, .refl _⟩

theorem Kernel.Placed.located {s : Kernel} (h : s.Placed) : ∃ loc, Located loc s.life := by
  obtain ⟨l, ⟨loc, hl, -⟩, hsame⟩ := h
  exact ⟨loc, hsame.located hl⟩

theorem placed_step {cfg : Config} {s s' : Kernel} {act : Act} (h : s.Placed) (hs : step cfg s act = some s') :
    s'.Placed := by
  obtain ⟨l, hl, hsame⟩ := h
  obtain ⟨m, hstep, hm⟩ := step_places hs
  rcases hstep with rfl | hmove
  · exact ⟨l, hl, hsame.trans hm⟩
  · obtain ⟨l', hl', hsame'⟩ := hsame.step hmove
    exact ⟨l', hl.step hl', hsame'.trans hm⟩

/-- **One place for each request**, in every reachable state. -/
theorem reach_located {cfg : Config} {ok : Kernel → Act → Prop} {s : Kernel}
    (h : Machine.Reach (step cfg) ok Kernel.init s) : ∃ loc, Located loc s.life :=
  (h.inv (fun _ _ _ hi _ hs => placed_step hi hs) placed_init : s.Placed).located

end Bius
