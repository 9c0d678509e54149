/-
# Flags that are raised and taken

A flag is raised by one party and taken by another; raising it twice before it
is taken is the same as raising it once. The history of all flags is a list with
the latest event first. A flag is owed if it was raised and has not been taken
since, and a history is honest if nothing was taken that was not owed.
-/

import Mathlib.Tactic.Common

namespace Haxm.Lib

inductive Mail (V : Type*)
  | raised (v : V)
  | taken (v : V)
  deriving DecidableEq, Repr

namespace Mail

variable {V : Type*} [DecidableEq V] {v : V} {l : List (Mail V)}

variable (v) in
/-- The latest event of the flag is that it was raised. -/
def owed : List (Mail V) → Bool
  | [] => false
  | raised u :: l => decide (v = u) || owed l
  | taken u :: l => decide (v ≠ u) && owed l

variable (v) in
/-- How often the flag was taken since it was last raised. -/
def takenSince : List (Mail V) → ℕ
  | [] => 0
  | raised u :: l => if v = u then 0 else takenSince l
  | taken u :: l => if v = u then takenSince l + 1 else takenSince l

inductive Honest : List (Mail V) → Prop
  | nil : Honest []
  | raised (v : V) {l : List (Mail V)} : Honest l → Honest (raised v :: l)
  | taken {v : V} {l : List (Mail V)} : owed v l = true → Honest l → Honest (taken v :: l)

/-- A flag that is owed was not taken since it was raised. -/
theorem takenSince_of_owed (h : owed v l = true) : takenSince v l = 0 := by
  induction l with
  | nil => rfl
  | cons e l ih =>
    cases e with
    | raised u =>
      by_cases same : v = u
      · simp [takenSince, same]
      · simp only [owed, decide_eq_false same, Bool.false_or] at h
        simpa [takenSince, same] using ih h
    | taken u =>
      by_cases same : v = u
      · simp [owed, same] at h
      · simp only [owed, ne_eq, same, not_false_eq_true, decide_true, Bool.true_and] at h
        simpa [takenSince, same] using ih h

/-- Between two raises a flag is taken at most once. -/
theorem Honest.takenSince_le (h : Honest l) (v : V) : takenSince v l ≤ 1 := by
  induction h with
  | nil => exact Nat.zero_le _
  | raised u _ ih =>
    rw [takenSince]
    split
    · exact Nat.zero_le _
    · exact ih
  | taken due _ ih =>
    rw [takenSince]
    split
    case isTrue same =>
      have none := takenSince_of_owed due
      rw [same]
      omega
    case isFalse => exact ih

end Mail

end Haxm.Lib
