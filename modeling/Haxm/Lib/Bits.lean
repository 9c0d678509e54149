/-
# Fields of a word

A field of a word is read in two ways: by masking the word, and by taking the
bits out. The lemmas here go from the first to the second. A mask is described
by which of its bits are set, which for a literal is decided.
-/

import Mathlib.Tactic.Common

namespace Haxm.Lib

/-! ## Literals for one of eight or sixteen -/

instance neZero8 : @NeZero ℕ Zero.ofOfNat0 8 := ⟨by decide⟩

instance neZero16 : @NeZero ℕ Zero.ofOfNat0 16 := ⟨by decide⟩

/-! ## Masks -/

variable {w : ℕ} {lo n : ℕ} {m : BitVec w}

theorem bne_zero_iff (v : BitVec w) : (v != 0) = true ↔ ∃ i, v.getLsbD i = true := by
  rw [bne_iff_ne, ne_eq, not_iff_comm]
  constructor
  · intro none
    apply BitVec.eq_of_getLsbD_eq
    intro i _
    simpa using fun h => none ⟨i, h⟩
  · rintro rfl ⟨i, h⟩
    simp at h

/-- Some of the `n` bits from bit `lo` on is set. -/
def anyBit (lo n : ℕ) (v : BitVec w) : Bool := v.extractLsb' lo n != 0

theorem anyBit_iff {v : BitVec w} :
    anyBit lo n v = true ↔ ∃ i, lo ≤ i ∧ i < lo + n ∧ v.getLsbD i = true := by
  unfold anyBit
  rw [bne_zero_iff]
  constructor
  · rintro ⟨i, h⟩
    rw [BitVec.getLsbD_extractLsb', Bool.and_eq_true, decide_eq_true_eq] at h
    exact ⟨lo + i, by omega, by omega, h.2⟩
  · rintro ⟨i, hlo, hhi, h⟩
    refine ⟨i - lo, ?_⟩
    rw [BitVec.getLsbD_extractLsb', Nat.add_sub_cancel' hlo, h, Bool.and_true, decide_eq_true_eq]
    omega

theorem anyBit_eq_false {v : BitVec w} :
    anyBit lo n v = false ↔ ∀ i, lo ≤ i → i < lo + n → v.getLsbD i = false := by
  rw [← Bool.not_eq_true, anyBit_iff]
  simp

/-- Two adjacent fields. -/
theorem anyBit_add (lo m n : ℕ) (v : BitVec w) :
    anyBit lo (m + n) v = (anyBit lo m v || anyBit (lo + m) n v) := by
  rw [Bool.eq_iff_iff, Bool.or_eq_true, anyBit_iff, anyBit_iff, anyBit_iff]
  constructor
  · rintro ⟨i, hlo, hhi, h⟩
    by_cases hi : i < lo + m
    · exact .inl ⟨i, hlo, hi, h⟩
    · exact .inr ⟨i, by omega, by omega, h⟩
  · rintro (⟨i, hlo, hhi, h⟩ | ⟨i, hlo, hhi, h⟩)
    · exact ⟨i, hlo, by omega, h⟩
    · exact ⟨i, by omega, by omega, h⟩

theorem anyBit_one (lo : ℕ) (v : BitVec w) : anyBit lo 1 v = v.getLsbD lo := by
  rw [Bool.eq_iff_iff, anyBit_iff]
  constructor
  · rintro ⟨i, hlo, hhi, h⟩
    obtain rfl : i = lo := by omega
    exact h
  · exact fun h => ⟨lo, Nat.le_refl _, by omega, h⟩

/-- The bits of a mask for the `n` bits from bit `lo` on. -/
def IsMask (m : BitVec w) (lo n : ℕ) : Prop :=
  ∀ i < w, m.getLsbD i = (decide (lo ≤ i) && decide (i < lo + n))

instance (m : BitVec w) (lo n : ℕ) : Decidable (IsMask m lo n) :=
  inferInstanceAs (Decidable (∀ i < w, _))

theorem IsMask.getLsbD {lo n i : ℕ} (h : IsMask m lo n) :
    m.getLsbD i = (decide (i < w) && decide (lo ≤ i) && decide (i < lo + n)) := by
  by_cases hi : i < w
  · rw [h i hi]
    simp [hi]
  · simp [hi, BitVec.getLsbD_of_ge m i (by omega)]

/-- A mask written as ones that have been moved up. -/
theorem isMask_of_eq (h : m = (BitVec.allOnes n).setWidth w <<< lo) : IsMask m lo n := by
  intro i hi
  rw [h, BitVec.getLsbD_shiftLeft, BitVec.getLsbD_setWidth, BitVec.getLsbD_allOnes]
  by_cases above : lo ≤ i
  · have below : (i - lo < n) = (i < lo + n) := propext (by omega)
    have small : i - lo < w := by omega
    simp [above, hi, small, below, Nat.not_lt.mpr above]
  · simp [above, Nat.lt_of_not_le above]

/-- A masked word is zero when the field is. -/
theorem IsMask.and_bne_zero (h : IsMask m lo n) (v : BitVec w) :
    (v &&& m != 0) = anyBit lo n v := by
  rw [Bool.eq_iff_iff, bne_zero_iff, anyBit_iff]
  constructor
  · rintro ⟨i, hi⟩
    rw [BitVec.getLsbD_and, h.getLsbD] at hi
    simp only [Bool.and_eq_true, decide_eq_true_eq] at hi
    exact ⟨i, hi.2.1.2, hi.2.2, hi.1⟩
  · rintro ⟨i, hlo, hhi, hi⟩
    refine ⟨i, ?_⟩
    have small := BitVec.lt_of_getLsbD hi
    rw [BitVec.getLsbD_and, h.getLsbD]
    simp [hi, hlo, hhi, small]

/-- A field brought down by a shift. -/
theorem IsMask.and_ushiftRight (h : IsMask m lo n) (v : BitVec w) :
    (v &&& m) >>> lo = (v.extractLsb' lo n).setWidth w := by
  apply BitVec.eq_of_getLsbD_eq
  intro i hi
  simp only [BitVec.getLsbD_ushiftRight, BitVec.getLsbD_and, h.getLsbD, BitVec.getLsbD_setWidth,
    BitVec.getLsbD_extractLsb']
  by_cases small : lo + i < w
  · simp [small, hi, Bool.and_comm]
  · simp [BitVec.getLsbD_of_ge v (lo + i) (by omega)]

/-! ## Masked registers -/

/-- A register that is read through a mask shows a shadow inside the mask and the
real bits outside. -/
theorem masked_eq {real shadow mask val : BitVec w}
    (inside : ∀ i < w, mask.getLsbD i = true → shadow.getLsbD i = val.getLsbD i)
    (outside : ∀ i < w, mask.getLsbD i = false → real.getLsbD i = val.getLsbD i) :
    (real &&& ~~~mask) ||| (shadow &&& mask) = val := by
  apply BitVec.eq_of_getLsbD_eq
  intro i hi
  rw [BitVec.getLsbD_or, BitVec.getLsbD_and, BitVec.getLsbD_and, BitVec.getLsbD_not]
  cases inMask : mask.getLsbD i with
  | true => rw [inside i hi inMask]; simp
  | false => rw [outside i hi inMask]; simp [hi]

/-- The shadow and what is shown agree inside the mask. -/
theorem and_mask_of_masked {real shadow mask val : BitVec w}
    (h : (real &&& ~~~mask) ||| (shadow &&& mask) = val) : shadow &&& mask = val &&& mask := by
  subst h
  apply BitVec.eq_of_getLsbD_eq
  intro i _
  simp only [BitVec.getLsbD_or, BitVec.getLsbD_and, BitVec.getLsbD_not]
  cases mask.getLsbD i <;> simp

end Haxm.Lib
