/-
# Readers that log what they read

A reader looks at a sequence of cells and changes a state. If the state has a
log of the spans that were looked at, the result depends on the logged cells
only: a sequence that has the same cells there gives the same result. This is
kept when readers are put together. So is a relation between the states before
and after, if it is reflexive and transitive.
-/

import Mathlib.Tactic.Common

namespace Haxm.Lib

/-- A computation that looks at a sequence and changes a state. -/
def Reader (β σ α : Type) : Type := (ℕ → β) → σ → α × σ

namespace Reader

variable {β σ α γ : Type}

instance : Monad (Reader β σ) where
  pure a := fun _ s => (a, s)
  bind m f := fun cells s => f (m cells s).1 cells (m cells s).2

/-- The state as it is. -/
def get : Reader β σ σ := fun _ s => (s, s)

def modify (f : σ → σ) : Reader β σ Unit := fun _ s => ((), f s)

section Run

variable (cells : ℕ → β) (s : σ)

@[simp] theorem pure_run (a : α) : (pure a : Reader β σ α) cells s = (a, s) := rfl

@[simp] theorem bind_run (m : Reader β σ α) (f : α → Reader β σ γ) :
    (m >>= f) cells s = f (m cells s).1 cells (m cells s).2 := rfl

@[simp] theorem map_run (m : Reader β σ α) (f : α → γ) :
    (f <$> m) cells s = (f (m cells s).1, (m cells s).2) := rfl

@[simp] theorem get_run : (get : Reader β σ σ) cells s = (s, s) := rfl

@[simp] theorem modify_run (f : σ → σ) : (modify f : Reader β σ Unit) cells s = ((), f s) := rfl

-- The next three put a value in the place of a bound variable in one go, also
-- in the instances that depend on it.

@[simp] theorem get_bind_run (f : σ → Reader β σ α) : (get >>= f) cells s = f s cells s := rfl

@[simp] theorem modify_bind_run (f : σ → σ) (g : Unit → Reader β σ α) :
    (modify f >>= g) cells s = g () cells (f s) := rfl

@[simp] theorem ite_run (c : Prop) [Decidable c] (m n : Reader β σ α) :
    (if c then m else n) cells s = if c then m cells s else n cells s := by
  split <;> rfl

end Run

/-- A cell that lies in one of the spans, each given by its start and length. -/
def Covered (spans : List (ℕ × ℕ)) (i : ℕ) : Prop :=
  ∃ span ∈ spans, span.1 ≤ i ∧ i < span.1 + span.2

/-- The reader adds to the log, and all that it looks at is in what it adds. -/
def Logs (log : σ → List (ℕ × ℕ)) (m : Reader β σ α) : Prop :=
  ∀ cells s, ∃ new, log (m cells s).2 = log s ++ new ∧
    ∀ other : ℕ → β, (∀ i, Covered new i → other i = cells i) → m other s = m cells s

/-- The state before the reader and the state after it are related. -/
def Relates (R : σ → σ → Prop) (m : Reader β σ α) : Prop := ∀ cells s, R s (m cells s).2

/-- Both at once. -/
structure Traced (log : σ → List (ℕ × ℕ)) (R : σ → σ → Prop) (m : Reader β σ α) : Prop where
  logs : Logs log m
  relates : Relates R m

namespace Traced

variable {log : σ → List (ℕ × ℕ)} {R : σ → σ → Prop} {m : Reader β σ α}

theorem mono {R' : σ → σ → Prop} (h : Traced log R m) (weaker : ∀ s s', R s s' → R' s s') :
    Traced log R' m :=
  ⟨h.logs, fun cells s => weaker _ _ (h.relates cells s)⟩

/-- A reader that looks at nothing. -/
theorem of_const {f : σ → α × σ} (kept : ∀ s, log (f s).2 = log s ∧ R s (f s).2) :
    Traced log R (fun _ s => f s : Reader β σ α) where
  logs _ s := ⟨[], by rw [List.append_nil]; exact (kept s).1, fun _ _ => rfl⟩
  relates _ s := (kept s).2

theorem pure [Std.Refl R] (a : α) : Traced log R (Pure.pure a : Reader β σ α) :=
  of_const fun s => ⟨rfl, refl_of R s⟩

theorem modify {f : σ → σ} (kept : ∀ s, log (f s) = log s ∧ R s (f s)) :
    Traced log R (Reader.modify f : Reader β σ Unit) :=
  of_const kept

theorem bind [IsTrans σ R] {f : α → Reader β σ γ} (first : Traced log R m)
    (rest : ∀ a, Traced log R (f a)) : Traced log R (m >>= f) := by
  refine ⟨fun cells s => ?_, fun cells s =>
    trans_of R (first.relates cells s) ((rest _).relates cells _)⟩
  obtain ⟨new₁, log₁, same₁⟩ := first.logs cells s
  obtain ⟨new₂, log₂, same₂⟩ := (rest (m cells s).1).logs cells (m cells s).2
  refine ⟨new₁ ++ new₂, ?_, ?_⟩
  · rw [bind_run, log₂, log₁, List.append_assoc]
  · intro other agree
    have agree₁ : m other s = m cells s :=
      same₁ other fun i ⟨span, mem, inside⟩ =>
        agree i ⟨span, List.mem_append_left _ mem, inside⟩
    rw [bind_run, bind_run, agree₁]
    exact same₂ other fun i ⟨span, mem, inside⟩ =>
      agree i ⟨span, List.mem_append_right _ mem, inside⟩

theorem get_bind [Std.Refl R] [IsTrans σ R] {f : σ → Reader β σ α}
    (rest : ∀ s, Traced log R (f s)) : Traced log R (Reader.get >>= f) :=
  (of_const fun s => ⟨rfl, refl_of R s⟩ : Traced log R Reader.get).bind rest

theorem modify_bind [IsTrans σ R] {f : σ → σ} {g : Unit → Reader β σ α}
    (kept : ∀ s, log (f s) = log s ∧ R s (f s)) (rest : Traced log R (g ())) :
    Traced log R (Reader.modify f >>= g) :=
  (modify kept).bind fun _ => rest

theorem map (f : α → γ) (h : Traced log R m) : Traced log R (f <$> m) := by
  refine ⟨fun cells s => ?_, h.relates⟩
  obtain ⟨new, log, same⟩ := h.logs cells s
  exact ⟨new, log, fun other agree => by rw [map_run, map_run, same other agree]⟩

theorem ite {c : Prop} [Decidable c] {n : Reader β σ α} (hm : Traced log R m)
    (hn : Traced log R n) : Traced log R (if c then m else n) := by
  split
  · exact hm
  · exact hn

end Traced

end Reader

end Haxm.Lib
