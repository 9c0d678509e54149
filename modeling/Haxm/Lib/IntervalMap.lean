/-
# Piecewise maps

An ordered list of intervals whose elements also give a value to each of their
points is a partial map on the naturals. `Updated` says that one such list is
another one with a range overwritten or erased. Such a change can be established
locally, on the part of the list that the range touches: what lies before and
after the range is a frame, and what lies inside it does not matter.
-/

import Haxm.Lib.Interval

namespace Haxm.Lib

/-- How elements are read as pieces of a map: an interval, and values on it. -/
structure Pieces (α β : Type*) where
  lo : α → ℕ
  hi : α → ℕ
  val : α → ℕ → β

namespace Pieces

variable {α β : Type*} (P : Pieces α β) {l l' l₁ l₂ l₁' l₂' : List α} {a : α} {x : ℕ} {v : β}
  {first last : ℕ} {new : ℕ → Option β}

/-- The list maps a point to a value. -/
def Maps (l : List α) (x : ℕ) (v : β) : Prop := ∃ a ∈ l, (P.lo a ≤ x ∧ x < P.hi a) ∧ P.val a x = v

@[simp] theorem maps_nil : ¬ P.Maps [] x v := by
  rintro ⟨a, ha, -⟩
  cases ha

@[simp] theorem maps_cons :
    P.Maps (a :: l) x v ↔ ((P.lo a ≤ x ∧ x < P.hi a) ∧ P.val a x = v) ∨ P.Maps l x v := by
  simp [Maps]

@[simp] theorem maps_append : P.Maps (l₁ ++ l₂) x v ↔ P.Maps l₁ x v ∨ P.Maps l₂ x v := by
  simp [Maps, or_and_right, exists_or]

/-- The value found by searching the list. -/
def look (l : List α) (x : ℕ) : Option β := (search P.lo P.hi x l).map fun a => P.val a x

theorem look_eq_some_iff (ordered : Ordered P.lo P.hi l) :
    P.look l x = some v ↔ P.Maps l x v := by
  rw [look, Option.map_eq_some_iff]
  refine exists_congr fun a => ?_
  rw [search_eq_some_iff ordered, and_assoc]

/-- The list `l'` is `l` with the points from `first` up to `last` overwritten. -/
structure Updated (first last : ℕ) (new : ℕ → Option β) (l l' : List α) : Prop where
  ordered : Ordered P.lo P.hi l'
  maps : ∀ x v, P.Maps l' x v ↔
    if first ≤ x ∧ x < last then new x = some v else P.Maps l x v

variable {P}

section Updated

variable (updated : P.Updated first last new l l')

include updated

theorem Updated.look_eq (ordered : Ordered P.lo P.hi l) :
    P.look l' x = if first ≤ x ∧ x < last then new x else P.look l x := by
  ext v
  rw [look_eq_some_iff P updated.ordered, updated.maps]
  split_ifs
  · rfl
  · exact (look_eq_some_iff P ordered).symm

/-- Only the values on the range matter. -/
theorem Updated.congr {new' : ℕ → Option β} (same : ∀ x, first ≤ x → new x = new' x) :
    P.Updated first last new' l l' := by
  refine ⟨updated.ordered, fun x v => ?_⟩
  rw [updated.maps]
  split_ifs with inside
  · rw [same x inside.1]
  · rfl

/-- An element of the new list starts in the range or not before an element of
the old list. -/
theorem Updated.exists_lo_le (ha : a ∈ l') : first ≤ P.lo a ∨ ∃ b ∈ l, P.lo b ≤ P.lo a := by
  have nonempty := updated.ordered.2 a ha
  have mapped := (updated.maps (P.lo a) _).1 ⟨a, ha, ⟨le_rfl, nonempty⟩, rfl⟩
  split_ifs at mapped with inside
  · exact .inl inside.1
  · obtain ⟨b, hb, hin, -⟩ := mapped
    exact .inr ⟨b, hb, hin.1⟩

/-- An element of the new list ends in the range or not after an element of the
old list. -/
theorem Updated.exists_hi_le (ha : a ∈ l') : P.hi a ≤ last ∨ ∃ b ∈ l, P.hi a ≤ P.hi b := by
  have nonempty := updated.ordered.2 a ha
  have mapped := (updated.maps (P.hi a - 1) _).1 ⟨a, ha, ⟨by omega, by omega⟩, rfl⟩
  split_ifs at mapped with inside
  · exact .inl (by omega)
  · obtain ⟨b, hb, hin, -⟩ := mapped
    exact .inr ⟨b, hb, by omega⟩

end Updated

/-- What does not meet the range stays when the range is erased. -/
theorem updated_of_apart (ordered : Ordered P.lo P.hi l)
    (apart : ∀ a ∈ l, P.hi a ≤ first ∨ last ≤ P.lo a) :
    P.Updated first last (fun _ => none) l l := by
  refine ⟨ordered, fun x v => ?_⟩
  split_ifs with inside
  · refine iff_of_false ?_ (by simp)
    rintro ⟨a, ha, hin, -⟩
    have := apart a ha
    omega
  · rfl

/-- Erasing the range from what stands before an updated part extends the
update. -/
theorem Updated.prepend_erased (updated : P.Updated first last new l₂ l₂')
    (erased : P.Updated first last (fun _ => none) l₁ l₁')
    (ordered : Ordered P.lo P.hi (l₁ ++ l₂)) (before : ∀ a ∈ l₁', P.hi a ≤ first) :
    P.Updated first last new (l₁ ++ l₂) (l₁' ++ l₂') := by
  obtain ⟨-, -, sep⟩ := ordered_append.1 ordered
  refine ⟨ordered_append.2 ⟨erased.ordered, updated.ordered, fun a ha b hb => ?_⟩, fun x v => ?_⟩
  · rcases updated.exists_lo_le hb with hfirst | ⟨c, hc, hle⟩
    · exact (before a ha).trans hfirst
    · -- `a` ends with a point that an element before `c` contains
      have nonempty := erased.ordered.2 a ha
      have hfirst := before a ha
      have mapped := (erased.maps (P.hi a - 1) _).1 ⟨a, ha, ⟨by omega, by omega⟩, rfl⟩
      rw [if_neg (by omega)] at mapped
      obtain ⟨d, hd, hin, -⟩ := mapped
      have := sep d hd c hc
      omega
  · rw [maps_append, maps_append, updated.maps, erased.maps]
    split_ifs <;> simp

/-- Erasing the range from what follows an updated part extends the update. -/
theorem Updated.append_erased (updated : P.Updated first last new l₁ l₁')
    (erased : P.Updated first last (fun _ => none) l₂ l₂')
    (ordered : Ordered P.lo P.hi (l₁ ++ l₂)) (behind : ∀ a ∈ l₂', last ≤ P.lo a) :
    P.Updated first last new (l₁ ++ l₂) (l₁' ++ l₂') := by
  obtain ⟨-, -, sep⟩ := ordered_append.1 ordered
  refine ⟨ordered_append.2 ⟨updated.ordered, erased.ordered, fun a ha b hb => ?_⟩, fun x v => ?_⟩
  · rcases updated.exists_hi_le ha with hlast | ⟨c, hc, hle⟩
    · exact hlast.trans (behind b hb)
    · -- `b` starts with a point that an element behind `c` contains
      have mapped := (erased.maps (P.lo b) _).1 ⟨b, hb, ⟨le_rfl, erased.ordered.2 b hb⟩, rfl⟩
      rw [if_neg (by have := behind b hb; omega)] at mapped
      obtain ⟨d, hd, hin, -⟩ := mapped
      exact (hle.trans (sep c hc d hd)).trans hin.1
  · rw [maps_append, maps_append, updated.maps, erased.maps]
    split_ifs <;> simp

/-- What lies before the range, and before everything that is changed, stays. -/
theorem Updated.frame_left (updated : P.Updated first last new l l')
    (ordered : Ordered P.lo P.hi (l₁ ++ l)) (before : ∀ a ∈ l₁, P.hi a ≤ first) :
    P.Updated first last new (l₁ ++ l) (l₁ ++ l') :=
  updated.prepend_erased
    (updated_of_apart (ordered_append.1 ordered).1 fun a ha => .inl (before a ha)) ordered before

/-- What lies behind the range, and behind everything that is changed, stays. -/
theorem Updated.frame_right (updated : P.Updated first last new l l')
    (ordered : Ordered P.lo P.hi (l ++ l₂)) (behind : ∀ a ∈ l₂, last ≤ P.lo a) :
    P.Updated first last new (l ++ l₂) (l' ++ l₂) :=
  updated.append_erased
    (updated_of_apart (ordered_append.1 ordered).2.1 fun a ha => .inr (behind a ha)) ordered behind

/-- What lies inside the range is gone in any case. -/
theorem Updated.absorb (updated : P.Updated first last new (l₁ ++ l₂) l')
    (inside : ∀ a ∈ l, first ≤ P.lo a ∧ P.hi a ≤ last) :
    P.Updated first last new (l₁ ++ l ++ l₂) l' := by
  refine ⟨updated.ordered, fun x v => ?_⟩
  rw [updated.maps]
  split_ifs with hx
  · rfl
  · have gone : ¬ P.Maps l x v := by
      rintro ⟨a, ha, hin, -⟩
      have := inside a ha
      omega
    simp [gone]

/-- Erasing a range and then putting one element into the gap overwrites it. -/
theorem Updated.insert (erased : P.Updated first last (fun _ => none) l (l₁ ++ l₂))
    (hlo : P.lo a = first) (hhi : P.hi a = last) (nonempty : first < last)
    (before : ∀ b ∈ l₁, P.hi b ≤ first) (behind : ∀ b ∈ l₂, last ≤ P.lo b) :
    P.Updated first last (fun x => some (P.val a x)) l (l₁ ++ a :: l₂) := by
  obtain ⟨ordered₁, ordered₂, sep⟩ := ordered_append.1 erased.ordered
  refine ⟨ordered_append.2 ⟨ordered₁, ordered_cons.2 ⟨by omega, ?_, ordered₂⟩, ?_⟩, fun x v => ?_⟩
  · intro b hb
    rw [hhi]
    exact behind b hb
  · intro b hb c hc
    rcases List.mem_cons.1 hc with rfl | hc
    · rw [hlo]
      exact before b hb
    · exact sep b hb c hc
  · have old := erased.maps x v
    rw [maps_append] at old
    rw [maps_append, maps_cons, hlo, hhi, or_left_comm, old]
    split_ifs with inside
    · simp [inside]
    · simp [inside]

end Pieces

end Haxm.Lib
