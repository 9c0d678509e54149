/-
# Sets of numbers in words

A set of numbers is kept as a sequence of words: number `k` is bit `k % w` of
the word `k / w`. Adding and removing a number change one bit, and the highest
number is found by looking for the last word that is not zero.
-/

import Mathlib.Algebra.GroupWithZero.Nat
import Mathlib.Data.Finset.Card

namespace Haxm.Lib.WordSet

variable {w : ℕ} (words : ℕ → BitVec w) {k m n size : ℕ}

/-- The bit of a number. -/
def test (k : ℕ) : Bool := (words (k / w)).getLsbD (k % w)

/-- The numbers below `size` whose bit is set. -/
def members (size : ℕ) : Finset ℕ := (Finset.range size).filter fun k => test words k = true

def set (k : ℕ) : ℕ → BitVec w :=
  Function.update words (k / w) (words (k / w) ||| BitVec.twoPow w (k % w))

def clear (k : ℕ) : ℕ → BitVec w :=
  Function.update words (k / w) (words (k / w) &&& ~~~BitVec.twoPow w (k % w))

variable {words}

theorem mem_members : k ∈ members words size ↔ k < size ∧ test words k = true := by
  simp [members]

/-- Two numbers with the same word and the same bit are equal. -/
theorem eq_of_div_of_mod (div : m / w = k / w) (mod : m % w = k % w) : m = k := by
  rw [← Nat.div_add_mod m w, ← Nat.div_add_mod k w, div, mod]

section

variable [NeZero w]

theorem mod_lt (k : ℕ) : k % w < w := Nat.mod_lt k (Nat.pos_of_neZero w)

/-- The bit `k % w` of a word, for the numbers of the word. -/
theorem getLsbD_twoPow_mod (div : m / w = k / w) :
    (BitVec.twoPow w (k % w)).getLsbD (m % w) = decide (m = k) := by
  rw [BitVec.getLsbD_twoPow, decide_eq_true (mod_lt k), Bool.true_and]
  apply decide_eq_decide.mpr
  constructor
  · exact fun mod => eq_of_div_of_mod div mod.symm
  · rintro rfl
    rfl

theorem test_set : test (set words k) m = (decide (m = k) || test words m) := by
  by_cases div : m / w = k / w
  · simp only [test, set, div, Function.update_self, BitVec.getLsbD_or,
      getLsbD_twoPow_mod div, Bool.or_comm]
  · have other : m ≠ k := fun same => div (by rw [same])
    simp [test, set, div, other]

theorem test_clear : test (clear words k) m = (decide (m ≠ k) && test words m) := by
  by_cases div : m / w = k / w
  · simp only [test, clear, div, Function.update_self, BitVec.getLsbD_and, BitVec.getLsbD_not,
      getLsbD_twoPow_mod div, decide_eq_true (mod_lt m), Bool.true_and, Bool.and_comm,
      decide_not]
  · have other : m ≠ k := fun same => div (by rw [same])
    simp [test, clear, div, other]

theorem members_set (hk : k < size) :
    members (set words k) size = insert k (members words size) := by
  ext m
  simp only [mem_members, test_set, Finset.mem_insert, Bool.or_eq_true, decide_eq_true_eq]
  constructor
  · rintro ⟨hm, same | old⟩
    · exact .inl same
    · exact .inr ⟨hm, old⟩
  · rintro (rfl | ⟨hm, old⟩)
    · exact ⟨hk, .inl rfl⟩
    · exact ⟨hm, .inr old⟩

theorem members_clear : members (clear words k) size = (members words size).erase k := by
  ext m
  simp only [mem_members, test_clear, Finset.mem_erase, Bool.and_eq_true, decide_eq_true_eq]
  tauto

theorem card_set (hk : k < size) (free : test words k = false) :
    (members (set words k) size).card = (members words size).card + 1 := by
  rw [members_set hk, Finset.card_insert_of_notMem]
  simp [mem_members, free]

theorem card_clear (hk : k < size) (used : test words k = true) :
    (members (clear words k) size).card + 1 = (members words size).card := by
  rw [members_clear]
  exact Finset.card_erase_add_one (mem_members.mpr ⟨hk, used⟩)

end

theorem card_members_le : (members words size).card ≤ size :=
  (Finset.card_filter_le _ _).trans (Finset.card_range size).le

/-! ## The highest number -/

variable (words) in
/-- The highest number in the first `n` words. -/
def highest : ℕ → Option ℕ
  | 0 => none
  | n + 1 => if words n ≠ 0 then some (n * w + (words n).toNat.log2) else highest n

theorem getLsbD_log2 {x : BitVec w} (h : x ≠ 0) : x.getLsbD x.toNat.log2 = true := by
  rw [BitVec.getLsbD]
  exact Nat.testBit_log2 (by simpa [BitVec.toNat_eq] using h)

theorem le_log2_of_getLsbD {x : BitVec w} {i : ℕ} (h : x.getLsbD i = true) :
    i ≤ x.toNat.log2 := by
  rw [BitVec.getLsbD] at h
  have large := Nat.ge_two_pow_of_testBit h
  have pos : x.toNat ≠ 0 := by
    have := Nat.two_pow_pos i
    omega
  exact (Nat.le_log2 pos).mpr large

/-- A number in the first `n + 1` words is in the last one or in the others. -/
theorem test_last (used : test words k = true) (hk : k < (n + 1) * w) :
    k < n * w ∨ ∃ i, k = n * w + i ∧ (words n).getLsbD i = true := by
  by_cases below : k < n * w
  · exact .inl below
  · right
    have div : k / w = n := by
      apply Nat.div_eq_of_lt_le
      · omega
      · exact hk
    refine ⟨k % w, ?_, div ▸ used⟩
    rw [← div, Nat.mul_comm]
    exact (Nat.div_add_mod k w).symm

theorem test_add {i : ℕ} (h : (words n).getLsbD i = true) : test words (n * w + i) = true := by
  have hi := BitVec.lt_of_getLsbD h
  have pos : 0 < w := by omega
  rw [test, Nat.mul_comm, Nat.mul_add_div pos, Nat.div_eq_of_lt hi, Nat.mul_add_mod,
    Nat.mod_eq_of_lt hi]
  exact h

theorem highest_eq_some (h : highest words n = some k) :
    k ∈ members words (n * w) ∧ ∀ m ∈ members words (n * w), m ≤ k := by
  induction n with
  | zero => cases h
  | succ n ih =>
    rw [highest] at h
    split at h
    case isTrue used =>
      obtain rfl := Option.some.inj h
      have bit := getLsbD_log2 used
      have small := BitVec.lt_of_getLsbD bit
      constructor
      · rw [mem_members, Nat.succ_mul]
        exact ⟨by omega, test_add bit⟩
      · intro m hm
        rw [mem_members] at hm
        rcases test_last hm.2 hm.1 with below | ⟨i, rfl, hi⟩
        · omega
        · have := le_log2_of_getLsbD hi
          omega
    case isFalse unused =>
      obtain ⟨mem, max⟩ := ih h
      rw [mem_members] at mem
      constructor
      · rw [mem_members, Nat.succ_mul]
        exact ⟨by omega, mem.2⟩
      · intro m hm
        rw [mem_members] at hm
        rcases test_last hm.2 hm.1 with below | ⟨i, rfl, hi⟩
        · exact max m (mem_members.mpr ⟨below, hm.2⟩)
        · simp [not_not.mp unused] at hi

theorem highest_eq_none (h : highest words n = none) : members words (n * w) = ∅ := by
  induction n with
  | zero => simp [members]
  | succ n ih =>
    rw [highest] at h
    split at h
    case isTrue => cases h
    case isFalse unused =>
      have below := ih h
      rw [Finset.eq_empty_iff_forall_notMem] at below ⊢
      intro m hm
      rw [mem_members] at hm
      rcases test_last hm.2 hm.1 with hlt | ⟨i, rfl, hi⟩
      · exact below m (mem_members.mpr ⟨hlt, hm.2⟩)
      · simp [not_not.mp unused] at hi

end Haxm.Lib.WordSet
