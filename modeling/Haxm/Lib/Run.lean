/-
# States reached by guarded steps

A system is an initial state, a total step function on inputs and a guard that
says which inputs may be taken in which state. A state is reached when some
finite sequence of allowed inputs leads to it; nothing bounds the length of the
sequence or the number of inputs.
-/

import Mathlib.Logic.Relation

namespace Haxm.Lib

variable {σ α : Type*}

/-- The states that allowed inputs lead to. -/
inductive Reached (init : σ) (allowed : σ → α → Prop) (step : σ → α → σ) : σ → Prop
  | init : Reached init allowed step init
  | step {s : σ} {a : α} : Reached init allowed step s → allowed s a →
      Reached init allowed step (step s a)

variable {init : σ} {allowed weaker : σ → α → Prop} {step : σ → α → σ} {s : σ}

/-- What holds initially and survives every allowed step holds in every reached
state. -/
theorem Reached.invariant {I : σ → Prop} (reached : Reached init allowed step s)
    (start : I init) (preserved : ∀ s a, I s → allowed s a → I (step s a)) : I s := by
  induction reached with
  | init => exact start
  | step _ ok ih => exact preserved _ _ ih ok

/-- Every input of a sequence is allowed when its turn comes. -/
def AllowedRun (allowed : σ → α → Prop) (step : σ → α → σ) : σ → List α → Prop
  | _, [] => True
  | s, a :: l => allowed s a ∧ AllowedRun allowed step (step s a) l

instance AllowedRun.decidable [∀ s a, Decidable (allowed s a)] :
    ∀ s l, Decidable (AllowedRun allowed step s l)
  | _, [] => .isTrue trivial
  | s, a :: l =>
    have := AllowedRun.decidable (step s a) l
    inferInstanceAs (Decidable (_ ∧ _))

theorem Reached.foldl {l : List α} (reached : Reached init allowed step s)
    (run : AllowedRun allowed step s l) : Reached init allowed step (l.foldl step s) := by
  induction l generalizing s with
  | nil => exact reached
  | cons a l ih => exact ih (reached.step run.1) run.2

theorem allowedRun_append {l l' : List α} :
    AllowedRun allowed step s (l ++ l') ↔
      AllowedRun allowed step s l ∧ AllowedRun allowed step (l.foldl step s) l' := by
  induction l generalizing s with
  | nil => simp [AllowedRun]
  | cons a l ih => exact (and_congr_right fun _ => ih).trans and_assoc.symm

/-- A sequence that is not allowed has a first input that is not. -/
theorem exists_first_of_not_allowedRun {l : List α} (h : ¬ AllowedRun allowed step s l) :
    ∃ pre a post, l = pre ++ a :: post ∧ AllowedRun allowed step s pre ∧
      ¬ allowed (pre.foldl step s) a := by
  induction l generalizing s with
  | nil => exact absurd trivial h
  | cons a l ih =>
    by_cases ha : allowed s a
    · obtain ⟨pre, b, post, rfl, run, hb⟩ := ih fun run => h ⟨ha, run⟩
      exact ⟨a :: pre, b, post, rfl, ⟨ha, run⟩, hb⟩
    · exact ⟨[], a, l, rfl, trivial, ha⟩

end Haxm.Lib
