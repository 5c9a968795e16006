import Mathlib.Data.List.Basic
import Mathlib.Logic.Function.Basic
import Bius.Lib.Bytes

/- Histories of shared registers. A history is the list of the accesses that any number of
   clients make to the registers, in the order in which they take effect. It is legal from
   some initial contents if every read has found what the last write before it has stored
   (`Legal`); `Legal.found` spells that out. An operation on many registers, on a range of
   bytes say, takes effect in pieces, and what it has done so far is the part of the
   history that carries its name (`trace`). -/
namespace Registers

/-- One access: by whom, to which register, and what has been read or written. -/
structure Access (ι κ β : Type*) where
  who : ι
  reg : κ
  val : β
  isWrite : Bool
  deriving DecidableEq

section
variable {ι κ β : Type*} [DecidableEq κ]

/-- The registers after an access. -/
def Access.apply (m : κ → β) (a : Access ι κ β) :
    κ → β := if a.isWrite then Function.update m a.reg a.val else m

/-- The registers after a history. -/
def play (m : κ → β) (l : List (Access ι κ β)) : κ → β := l.foldl Access.apply m

/-- Every read has found what is in its register. -/
def Legal (m : κ → β) : List (Access ι κ β) → Prop
  | [] => True
  | a :: l => (a.isWrite = false → a.val = m a.reg) ∧ Legal (a.apply m) l

theorem play_append (m : κ → β) (l l' : List (Access ι κ β)) : play m (l ++ l') = play (play m l) l' :=
  List.foldl_append

theorem legal_append (m : κ → β) (l l' : List (Access ι κ β)) :
    Legal m (l ++ l') ↔ Legal m l ∧ Legal (play m l) l' := by
  induction l generalizing m with
  | nil => exact (and_iff_right trivial).symm
  | cons a l ih =>
    show _ ∧ Legal (a.apply m) (l ++ l') ↔ (_ ∧ Legal (a.apply m) l) ∧ Legal (play (a.apply m) l) l'
    rw [ih, and_assoc]

/-- A register that no write of a history names is as before. -/
theorem play_unwritten (m : κ → β) {l : List (Access ι κ β)} {r : κ}
    (h : ∀ w ∈ l, w.isWrite = true → w.reg ≠ r) :
    play m l r = m r := by
  induction l generalizing m with
  | nil => rfl
  | cons a l ih =>
    show play (a.apply m) l r = m r
    rw [ih (a.apply m) (fun w hw => h w (by simp [hw]))]
    unfold Access.apply
    split
    · next hw => exact Function.update_of_ne (h a (by simp) hw).symm _ _
    · rfl

/-- A register holds what the last write that names it has stored. -/
theorem play_cases (m : κ → β) (l : List (Access ι κ β)) (r : κ) :
    (∃ before w after, l = before ++ w :: after ∧ w.isWrite = true ∧ w.reg = r ∧ w.val = play m l r ∧
      ∀ x ∈ after, x.isWrite = true → x.reg ≠ r) ∨
    (∀ w ∈ l, w.isWrite = true → w.reg ≠ r) ∧ play m l r = m r := by
  induction l generalizing m with
  | nil => exact Or.inr ⟨fun w hw => (by cases hw), rfl⟩
  | cons a l ih =>
    have hplay : play m (a :: l) = play (a.apply m) l := rfl
    rcases ih (a.apply m) with ⟨before, w, after, rfl, hw, hr, hval, hlast⟩ | ⟨hnone, hsame⟩
    · exact Or.inl ⟨a :: before, w, after, rfl, hw, hr, by rw [hplay]; exact hval, hlast⟩
    · by_cases ha : a.isWrite = true ∧ a.reg = r
      · obtain ⟨hw, rfl⟩ := ha
        refine Or.inl ⟨[], a, l, rfl, hw, rfl, ?_, hnone⟩
        rw [hplay, hsame, Access.apply, if_pos hw, Function.update_self]
      · have hall : ∀ w ∈ a :: l, w.isWrite = true → w.reg ≠ r := by
          intro w hw hwrite hreg
          rcases List.mem_cons.1 hw with rfl | hw
          · exact ha ⟨hwrite, hreg⟩
          · exact hnone w hw hwrite hreg
        exact Or.inr ⟨hall, play_unwritten m hall⟩

/-- **What a read has found** in a legal history: what the last write to its register has
    stored, or the initial contents. -/
theorem Legal.found {m : κ → β} {l l' : List (Access ι κ β)} {a : Access ι κ β} (h : Legal m (l ++ a :: l'))
    (hread : a.isWrite = false) :
    (∃ before w after, l = before ++ w :: after ∧ w.isWrite = true ∧ w.reg = a.reg ∧ w.val = a.val ∧
      ∀ x ∈ after, x.isWrite = true → x.reg ≠ a.reg) ∨
    (∀ w ∈ l, w.isWrite = true → w.reg ≠ a.reg) ∧ a.val = m a.reg := by
  have hval : a.val = play m l a.reg := ((legal_append m l (a :: l')).1 h).2.1 hread
  rcases play_cases m l a.reg with ⟨before, w, after, hl, hw, hr, hv, hlast⟩ | ⟨hnone, hsame⟩
  · exact Or.inl ⟨before, w, after, hl, hw, hr, hv.trans hval.symm, hlast⟩
  · exact Or.inr ⟨hnone, hval.trans hsame⟩

end

section
variable {ι κ β : Type*} [DecidableEq ι]

/-- What a client has done. -/
def trace (i : ι) (l : List (Access ι κ β)) : List (Access ι κ β) := l.filter (fun a => decide (a.who = i))

theorem mem_trace {i : ι} {l : List (Access ι κ β)} {a : Access ι κ β} :
    a ∈ trace i l ↔ a ∈ l ∧ a.who = i := by
  unfold trace
  rw [List.mem_filter, decide_eq_true_eq]

theorem trace_append (i : ι) (l l' : List (Access ι κ β)) : trace i (l ++ l') = trace i l ++ trace i l' :=
  List.filter_append ..

theorem trace_all {i : ι} {l : List (Access ι κ β)} (h : ∀ a ∈ l, a.who = i) : trace i l = l := by
  apply List.filter_eq_self.2
  intro a ha
  exact decide_eq_true (h a ha)

theorem trace_none {i : ι} {l : List (Access ι κ β)} (h : ∀ a ∈ l, a.who ≠ i) : trace i l = [] := by
  apply List.filter_eq_nil_iff.2
  intro a ha
  simpa using h a ha

end

/-! ## Ranges of bytes -/

section
variable {ι β : Type*}

/-- The accesses of one client to consecutive registers, from `a` on. -/
def range (i : ι) (w : Bool) (a : Nat) (vs : List β) :
    List (Access ι Nat β) := vs.mapIdx (fun j v => ⟨i, a + j, v, w⟩)

theorem range_append (i : ι) (w : Bool) (a : Nat) (vs vs' : List β) :
    range i w a (vs ++ vs') = range i w a vs ++ range i w (a + vs.length) vs' := by
  unfold range
  rw [List.mapIdx_append]
  congr 1
  apply congrArg (List.mapIdx · vs')
  funext j v
  rw [Nat.add_assoc, Nat.add_comm j]

theorem range_cons (i : ι) (w : Bool) (a : Nat) (v : β) (vs : List β) :
    range i w a (v :: vs) = ⟨i, a, v, w⟩ :: range i w (a + 1) vs := by
  rw [← List.singleton_append, range_append]
  rfl

theorem range_who {i : ι} {w : Bool} {a : Nat} {vs : List β} {x : Access ι Nat β} (hx : x ∈ range i w a vs) :
    x.who = i := by
  obtain ⟨j, hj, rfl⟩ := List.mem_mapIdx.1 hx
  rfl

theorem range_get {i : ι} {w : Bool} {a : Nat} {vs : List β} {x : Access ι Nat β} (hx : x ∈ range i w a vs) :
    x.isWrite = w ∧ a ≤ x.reg ∧ vs[x.reg - a]? = some x.val := by
  obtain ⟨j, hj, rfl⟩ := List.mem_mapIdx.1 hx
  refine ⟨rfl, Nat.le_add_right a j, ?_⟩
  dsimp only
  rw [Nat.add_sub_cancel_left]
  exact List.getElem?_eq_getElem hj

theorem mem_range {i : ι} {w : Bool} {a : Nat} {vs : List β} {j : Nat} {v : β} (h : vs[j]? = some v) :
    ⟨i, a + j, v, w⟩ ∈ range i w a vs := by
  obtain ⟨hj, rfl⟩ := List.getElem?_eq_some_iff.1 h
  exact List.mem_mapIdx.2 ⟨j, hj, rfl⟩

theorem play_writes (m : Nat → β) (i : ι) (a : Nat) (vs : List β) :
    play m (range i true a vs) = Bytes.splice m a vs ∧ Legal m (range i true a vs) := by
  induction vs generalizing m a with
  | nil => exact ⟨by rw [Bytes.splice_nil]; rfl, trivial⟩
  | cons v vs ih =>
    obtain ⟨hplay, hlegal⟩ := ih (Bytes.splice m a [v]) (a + 1)
    have hstore : (⟨i, a, v, true⟩ : Access ι Nat β).apply m = Bytes.splice m a [v] := by
      funext x
      by_cases hx : x = a
      · subst hx
        have hin : Bytes.splice m x [v] (x + 0) = v := Bytes.splice_inside m (by simp)
        simpa [Access.apply] using hin.symm
      · rw [Bytes.splice_outside m (by simp only [List.length_singleton]; omega)]
        exact Function.update_of_ne hx _ _
    rw [range_cons]
    constructor
    · show play ((⟨i, a, v, true⟩ : Access ι Nat β).apply m) (range i true (a + 1) vs) = _
      rw [hstore, hplay]
      exact Bytes.splice_append m a [v] vs
    · refine ⟨fun h => (by cases h), ?_⟩
      rw [hstore]
      exact hlegal

/-- Reads of a range that find what is there are legal, and leave it. -/
theorem play_reads (m : Nat → β) (i : ι) (a n : Nat) :
    play m (range i false a (Bytes.slice m a n)) = m ∧ Legal m (range i false a (Bytes.slice m a n)) := by
  induction n generalizing a with
  | zero => exact ⟨rfl, trivial⟩
  | succ n ih =>
    have hslice : Bytes.slice m a (n + 1) = m a :: Bytes.slice m (a + 1) n := by
      rw [Nat.add_comm, Bytes.slice_add]
      rfl
    obtain ⟨hplay, hlegal⟩ := ih (a + 1)
    rw [hslice, range_cons]
    exact ⟨hplay, fun _ => rfl, hlegal⟩

/-- A client goes on with a range: the registers stay what the history makes of them, and it
    stays legal. -/
theorem legal_range {m d : Nat → β} {l : List (Access ι Nat β)} (hl : Legal m l) (hd : d = play m l) (i : ι)
    (w : Bool) (a : Nat) {vs : List β} (hread : w = false → vs = Bytes.slice d a vs.length) :
      Legal m (l ++ range i w a vs) ∧
      (if w then Bytes.splice d a vs else d) = play m (l ++ range i w a vs) := by
  rw [legal_append, play_append, ← hd]
  cases w with
  | true =>
    obtain ⟨hplay, hlegal⟩ := play_writes d i a vs
    exact ⟨⟨hl, hlegal⟩, hplay.symm⟩
  | false =>
    rw [hread rfl]
    obtain ⟨hplay, hlegal⟩ := play_reads d i a vs.length
    exact ⟨⟨hl, hlegal⟩, hplay.symm⟩

theorem trace_range [DecidableEq ι] (i j : ι) (l : List (Access ι Nat β)) (w : Bool) (a : Nat) (vs : List β) :
    trace i (l ++ range j w a vs) = if j = i then trace i l ++ range j w a vs else trace i l := by
  rw [trace_append]
  split
  · next hi => rw [trace_all (fun x hx => (range_who hx).trans hi)]
  · next hi =>
    have hnone : trace i (range j w a vs) = [] := by
      apply trace_none
      intro x hx
      rw [range_who hx]
      exact hi
    rw [hnone, List.append_nil]

end

end Registers
