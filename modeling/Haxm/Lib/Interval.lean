/-
# Ordered lists of disjoint intervals

Every element `a` of a list occupies the half-open interval from `lo a` to
`hi a`. The list is ordered when all its intervals are nonempty and each one
ends before any later one starts. A search that walks the list from the front
and gives up at the first interval lying beyond the point is then complete, and
the element it returns is the only one containing the point. `countIn` counts the
points of one interval that satisfy a predicate.
-/

import Mathlib.Order.Interval.Finset.Nat

namespace Haxm.Lib

variable {α : Type*} {lo hi : α → ℕ} {l l₁ l₂ : List α} {a b : α} {x : ℕ}

/-- Nonempty intervals, each ending before the later ones start. -/
def Ordered (lo hi : α → ℕ) (l : List α) : Prop :=
  l.Pairwise (fun a b => hi a ≤ lo b) ∧ ∀ a ∈ l, lo a < hi a

/-- The front-to-back search with its early exit. -/
def search (lo hi : α → ℕ) (x : ℕ) : List α → Option α
  | [] => none
  | a :: l => if x < lo a then none else if x < hi a then some a else search lo hi x l

/-- Some interval of the list contains the point. -/
def Covers (lo hi : α → ℕ) (l : List α) (x : ℕ) : Prop := ∃ a ∈ l, lo a ≤ x ∧ x < hi a

theorem ordered_nil : Ordered lo hi [] := ⟨.nil, by simp⟩

theorem ordered_cons :
    Ordered lo hi (a :: l) ↔ lo a < hi a ∧ (∀ b ∈ l, hi a ≤ lo b) ∧ Ordered lo hi l := by
  unfold Ordered
  rw [List.pairwise_cons, List.forall_mem_cons]
  tauto

theorem ordered_append :
    Ordered lo hi (l₁ ++ l₂) ↔
      Ordered lo hi l₁ ∧ Ordered lo hi l₂ ∧ ∀ a ∈ l₁, ∀ b ∈ l₂, hi a ≤ lo b := by
  unfold Ordered
  rw [List.pairwise_append, List.forall_mem_append]
  tauto

theorem Ordered.sublist (ordered : Ordered lo hi l₂) (sub : l₁.Sublist l₂) : Ordered lo hi l₁ :=
  ⟨ordered.1.sublist sub, fun a ha => ordered.2 a (sub.subset ha)⟩

/-- Whether a list is ordered depends on its intervals only. -/
theorem Ordered.map {f : α → α} (ordered : Ordered lo hi l) (hlo : ∀ a, lo (f a) = lo a)
    (hhi : ∀ a, hi (f a) = hi a) : Ordered lo hi (l.map f) := by
  refine ⟨List.pairwise_map.2 (ordered.1.imp fun h => ?_), fun b hb => ?_⟩
  · rw [hhi, hlo]
    exact h
  · obtain ⟨a, ha, rfl⟩ := List.mem_map.1 hb
    rw [hlo, hhi]
    exact ordered.2 a ha

/-- What the search finds contains the point, whether or not the list is ordered. -/
theorem mem_of_search (h : search lo hi x l = some a) : a ∈ l ∧ lo a ≤ x ∧ x < hi a := by
  induction l with
  | nil => simp [search] at h
  | cons b l ih =>
    unfold search at h
    split_ifs at h with hlo hhi
    · cases h
      exact ⟨by simp, Nat.le_of_not_lt hlo, hhi⟩
    · obtain ⟨hmem, hx⟩ := ih h
      exact ⟨List.mem_cons_of_mem _ hmem, hx⟩

/-- On an ordered list the early exit loses nothing: the search returns exactly
the element containing the point. -/
theorem search_eq_some_iff (ordered : Ordered lo hi l) :
    search lo hi x l = some a ↔ a ∈ l ∧ lo a ≤ x ∧ x < hi a := by
  induction l with
  | nil => simp [search]
  | cons c l ih =>
    obtain ⟨nonempty, before, rest⟩ := ordered_cons.1 ordered
    have ih := ih rest
    simp only [search, List.mem_cons]
    split_ifs with hlo hhi
    · -- the point lies before `c`, hence before everything after it
      constructor
      · intro h
        cases h
      · rintro ⟨rfl | ha, hx⟩
        · omega
        · have := before a ha
          omega
    · constructor
      · rintro h
        obtain rfl := Option.some.inj h
        exact ⟨.inl rfl, by omega, hhi⟩
      · rintro ⟨rfl | ha, hx⟩
        · rfl
        · have := before a ha
          omega
    · rw [ih]
      constructor
      · rintro ⟨ha, hx⟩
        exact ⟨.inr ha, hx⟩
      · rintro ⟨rfl | ha, hx⟩
        · omega
        · exact ⟨ha, hx⟩

theorem search_eq_none_iff (ordered : Ordered lo hi l) :
    search lo hi x l = none ↔ ¬ Covers lo hi l x := by
  rw [Option.eq_none_iff_forall_ne_some]
  constructor
  · rintro h ⟨a, ha⟩
    exact h a ((search_eq_some_iff ordered).2 ha)
  · intro h a ha
    exact h ⟨a, (search_eq_some_iff ordered).1 ha⟩

/-! ## Counting in an interval -/

section Count

variable {P Q : ℕ → Prop} [DecidablePred P] [DecidablePred Q] {first middle last : ℕ}

/-- How many points of the interval satisfy a predicate. -/
def countIn (P : ℕ → Prop) [DecidablePred P] (first last : ℕ) : ℕ :=
  ((Finset.Ico first last).filter P).card

theorem countIn_self : countIn P first first = 0 := by
  simp [countIn]

theorem countIn_succ : countIn P first (first + 1) = if P first then 1 else 0 := by
  rw [countIn, Nat.Ico_succ_singleton, Finset.filter_singleton]
  split_ifs <;> rfl

theorem countIn_append (lower : first ≤ middle) (upper : middle ≤ last) :
    countIn P first last = countIn P first middle + countIn P middle last := by
  unfold countIn
  rw [← Finset.Ico_union_Ico_eq_Ico lower upper, Finset.filter_union,
    Finset.card_union_of_disjoint]
  exact Finset.disjoint_filter_filter (Finset.Ico_disjoint_Ico_consecutive first middle last)

theorem countIn_congr (same : ∀ x, first ≤ x ∧ x < last → (P x ↔ Q x)) :
    countIn P first last = countIn Q first last := by
  unfold countIn
  rw [Finset.filter_congr fun x mem => same x (Finset.mem_Ico.1 mem)]

theorem countIn_le : countIn P first last ≤ last - first :=
  (Finset.card_filter_le _ _).trans (Nat.card_Ico first last).le

theorem countIn_of_forall (all : ∀ x, first ≤ x ∧ x < last → P x) :
    countIn P first last = last - first := by
  unfold countIn
  rw [Finset.filter_true_of_mem fun x mem => all x (Finset.mem_Ico.1 mem), Nat.card_Ico]

end Count

end Haxm.Lib
