import Mathlib.Data.List.Basic

/- Transition machines. A machine is a partial step function
   `step : σ → α → Option σ`: the label `α` carries who moves and every choice
   the environment makes, and `none` says that the move is not enabled. `Steps
   step ok s as t` is a run from `s` to `t` along the labels `as` in which every
   move satisfies the side condition `ok` in the state it is made from. What one
   step preserves, a run preserves (`Steps.inv`); a measure that every step
   decreases bounds the length of every run (`Steps.length_le`). `run` executes a
   list of labels. -/
namespace Machine

variable {σ α : Type*}

/-- A run: the labels taken, each enabled and admitted where it is taken. -/
inductive Steps (step : σ → α → Option σ) (ok : σ → α → Prop) : σ → List α → σ → Prop
  | nil (s : σ) : Steps step ok s [] s
  | cons {s t u : σ} {a : α} {as : List α} :
      ok s a → step s a = some t → Steps step ok t as u → Steps step ok s (a :: as) u

/-- The states some run from `s₀` reaches. -/
def Reach (step : σ → α → Option σ) (ok : σ → α → Prop) (s₀ s : σ) : Prop :=
  ∃ as, Steps step ok s₀ as s

variable {step : σ → α → Option σ} {ok ok' : σ → α → Prop} {s t u : σ} {as bs : List α}

namespace Steps

theorem append (h : Steps step ok s as t) (h' : Steps step ok t bs u) :
    Steps step ok s (as ++ bs) u := by
  induction h with
  | nil => exact h'
  | cons hok hs _ ih => exact .cons hok hs (ih h')

theorem inv {I : σ → Prop} (hI : ∀ s a t, I s → ok s a → step s a = some t → I t)
    (h : Steps step ok s as t) (hs : I s) : I t := by
  induction h with
  | nil => exact hs
  | cons hok hst _ ih => exact ih (hI _ _ _ hs hok hst)

/-- A run under a stronger side condition is a run under a weaker one. -/
theorem mono (hok : ∀ s a, ok s a → ok' s a) (h : Steps step ok s as t) :
    Steps step ok' s as t := by
  induction h with
  | nil => exact .nil _
  | cons ha hst _ ih => exact .cons (hok _ _ ha) hst ih

/-- If every step decreases `μ` while `I` holds, no run is longer than `μ` is at
    its start. -/
theorem length_le {I : σ → Prop} {μ : σ → Nat}
    (hI : ∀ s a t, I s → ok s a → step s a = some t → I t ∧ μ t < μ s)
    (h : Steps step ok s as t) (hs : I s) : as.length ≤ μ s := by
  induction h with
  | nil => exact Nat.zero_le _
  | cons hok hst _ ih =>
    obtain ⟨hi, hlt⟩ := hI _ _ _ hs hok hst
    have := ih hi
    rw [List.length_cons]; omega

end Steps

namespace Reach

theorem refl (s : σ) : Reach step ok s s := ⟨[], .nil s⟩

theorem snoc {a : α} (h : Reach step ok s t) (ha : ok t a) (hst : step t a = some u) :
    Reach step ok s u := by
  obtain ⟨as, h⟩ := h
  exact ⟨as ++ [a], h.append (.cons ha hst (.nil u))⟩

theorem inv {I : σ → Prop} (hI : ∀ s a t, I s → ok s a → step s a = some t → I t)
    (h : Reach step ok s t) (hs : I s) : I t := by
  obtain ⟨_, h⟩ := h
  exact h.inv hI hs

/-- Induction over a run, with the reachability of the state before the step at hand. -/
theorem induct {I : σ → Prop} (h : Reach step ok s t) (hs : I s)
    (hI : ∀ t a u, Reach step ok s t → I t → ok t a → step t a = some u → I u) : I t := by
  refine (h.inv (I := fun t => Reach step ok s t ∧ I t) ?_ ⟨refl s, hs⟩).2
  rintro t a u ⟨hr, hi⟩ ha hst
  exact ⟨hr.snoc ha hst, hI t a u hr hi ha hst⟩

end Reach

/-- The state after a list of labels, if every one of them is enabled. -/
def run (step : σ → α → Option σ) : σ → List α → Option σ
  | s, [] => some s
  | s, a :: as => (step s a).bind (fun t => run step t as)

theorem run_cons {a : α} {s u : σ} {as : List α} :
    run step s (a :: as) = some u ↔ ∃ t, step s a = some t ∧ run step t as = some u := by
  rw [run, Option.bind_eq_some_iff]

theorem Steps.of_run_ok {s t : σ} {as : List α} (h : run step s as = some t) (hok : ∀ s, ∀ a ∈ as, ok s a) :
    Steps step ok s as t := by
  induction as generalizing s with
  | nil => cases h; exact .nil _
  | cons a as ih =>
    obtain ⟨u, hu, h⟩ := run_cons.1 h
    exact .cons (hok s a (by simp)) hu (ih h (fun s b hb => hok s b (by simp [hb])))

/-- The same where every label is checked as well. -/
def runOk (step : σ → α → Option σ) (ok : σ → α → Prop) [∀ s a, Decidable (ok s a)] :
    σ → List α → Option σ
  | s, [] => some s
  | s, a :: as => if ok s a then (step s a).bind (fun t => runOk step ok t as) else none

theorem Steps.of_runOk [∀ s a, Decidable (ok s a)] {s t : σ} {as : List α} (h : runOk step ok s as = some t) :
    Steps step ok s as t := by
  induction as generalizing s with
  | nil => cases h; exact .nil _
  | cons a as ih =>
    rw [runOk] at h
    split at h
    · next hok =>
      obtain ⟨u, hu, h⟩ := Option.bind_eq_some_iff.1 h
      exact .cons hok hu (ih h)
    · cases h

/-- A checked run is one under the side condition, where the check is enough in the states of
    an invariant, which then holds at the end. -/
theorem Steps.of_checked {I : σ → Prop} {check : σ → α → Prop} [∀ s a, Decidable (check s a)] {s t : σ}
    {as : List α} (h : runOk step check s as = some t) (hi : I s)
    (hkeep : ∀ s, ∀ a ∈ as, ∀ u, I s → step s a = some u → I u)
    (hok : ∀ s, ∀ a ∈ as, I s → check s a → ok s a) : Steps step ok s as t ∧ I t := by
  induction as generalizing s with
  | nil => cases h; exact ⟨.nil _, hi⟩
  | cons a as ih =>
    rw [runOk] at h
    split at h
    · next hcheck =>
      obtain ⟨u, hu, h⟩ := Option.bind_eq_some_iff.1 h
      obtain ⟨hsteps, ht⟩ := ih h (hkeep s a (by simp) u hi hu) (fun s b hb => hkeep s b (by simp [hb]))
        (fun s b hb => hok s b (by simp [hb]))
      exact ⟨.cons (hok s a (by simp) hi hcheck) hu hsteps, ht⟩
    · cases h

theorem Steps.of_run {s t : σ} {as : List α} (h : run step s as = some t) :
    Steps step (fun _ _ => True) s as t :=
  Steps.of_run_ok h (fun _ _ _ => trivial)

end Machine
