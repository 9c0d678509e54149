/-
# Bitmaps

A bitmap is a sequence of bytes. Its bits are numbered from the least
significant bit of the first byte on, so that bit `n` is bit `n % 8` of the byte
`n / 8`. `Overwritten` says that a range of bits was given a value and no other
bit has changed.
-/

import Mathlib.Tactic.IntervalCases

namespace Haxm.Lib

abbrev Bitmap := ℕ → BitVec 8

namespace Bitmap

variable {bitmap bitmap' bitmap'' : Bitmap} {first middle last n i : ℕ} {value : Bool}

/-- The bit with a given number. -/
def test (bitmap : Bitmap) (n : ℕ) : Bool := (bitmap (n / 8)).getLsbD (n % 8)

/-- A run of ones inside a byte. -/
def mask (start nbits : ℕ) : BitVec 8 := BitVec.ofNat 8 ((1 <<< nbits - 1) <<< start)

theorem getLsbD_mask (start nbits : ℕ) (hn : n < 8) :
    (mask start nbits).getLsbD n = decide (start ≤ n ∧ n < start + nbits) := by
  have hsub : n - start < nbits ∧ start ≤ n ↔ start ≤ n ∧ n < start + nbits := by omega
  simp only [mask, BitVec.getLsbD_ofNat, Nat.testBit_shiftLeft, Nat.one_shiftLeft,
    Nat.testBit_two_pow_sub_one, hn, decide_true, Bool.true_and, ge_iff_le, ← Bool.decide_and]
  exact decide_eq_decide.2 (by omega)

/-- A run of bits inside a byte, set or cleared. -/
def put (byte : BitVec 8) (start nbits : ℕ) (value : Bool) : BitVec 8 :=
  if value then byte ||| mask start nbits else byte &&& ~~~ mask start nbits

theorem getLsbD_put (byte : BitVec 8) (start nbits : ℕ) (value : Bool) (hn : n < 8) :
    (put byte start nbits value).getLsbD n =
      if start ≤ n ∧ n < start + nbits then value else byte.getLsbD n := by
  have hmask := getLsbD_mask start nbits hn
  by_cases inside : start ≤ n ∧ n < start + nbits
  · rw [decide_eq_true inside] at hmask
    rw [if_pos inside]
    cases value
    · rw [put, if_neg (by simp), BitVec.getLsbD_and, BitVec.getLsbD_not, hmask]
      simp
    · rw [put, if_pos rfl, BitVec.getLsbD_or, hmask, Bool.or_true]
  · rw [decide_eq_false inside] at hmask
    rw [if_neg inside]
    cases value
    · rw [put, if_neg (by simp), BitVec.getLsbD_and, BitVec.getLsbD_not, hmask]
      simp [hn]
    · rw [put, if_pos rfl, BitVec.getLsbD_or, hmask, Bool.or_false]

theorem test_update (byte : BitVec 8) :
    test (Function.update bitmap i byte) n = if n / 8 = i then byte.getLsbD (n % 8)
      else test bitmap n := by
  by_cases h : n / 8 = i
  · simp [test, h]
  · simp [test, h]

/-- The bits from `first` up to `last` have the given value, and all others are
as before. -/
def Overwritten (bitmap bitmap' : Bitmap) (first last : ℕ) (value : Bool) : Prop :=
  ∀ n, bitmap'.test n = if first ≤ n ∧ n < last then value else bitmap.test n

theorem Overwritten.refl : Overwritten bitmap bitmap first first value := by
  intro n
  rw [if_neg (by omega)]

theorem Overwritten.trans (hfirst : first ≤ middle) (hlast : middle ≤ last)
    (lower : Overwritten bitmap bitmap' first middle value)
    (upper : Overwritten bitmap' bitmap'' middle last value) :
    Overwritten bitmap bitmap'' first last value := by
  intro n
  rw [upper n, lower n]
  split_ifs <;> first | rfl | omega

/-- Changing a run of bits inside one byte. -/
theorem overwritten_put {start nbits : ℕ} (hend : start % 8 + nbits ≤ 8) :
    Overwritten bitmap
      (Function.update bitmap (start / 8) (put (bitmap (start / 8)) (start % 8) nbits value))
      start (start + nbits) value := by
  intro n
  rw [test_update]
  by_cases hbyte : n / 8 = start / 8
  · rw [if_pos hbyte, getLsbD_put _ _ _ _ (by omega)]
    have hiff : (start % 8 ≤ n % 8 ∧ n % 8 < start % 8 + nbits) ↔
        start ≤ n ∧ n < start + nbits := by omega
    simp only [hiff, test, hbyte]
  · rw [if_neg hbyte, if_neg (by omega)]

/-- Changing a whole byte. -/
theorem overwritten_byte :
    Overwritten bitmap (Function.update bitmap i (if value then 0xff else 0)) (8 * i) (8 * (i + 1))
      value := by
  intro n
  rw [test_update]
  by_cases hbyte : n / 8 = i
  · have hn : n % 8 < 8 := Nat.mod_lt n (by norm_num)
    have inside : 8 * i ≤ n ∧ n < 8 * (i + 1) := by omega
    simp only [hbyte, inside, and_self, if_true]
    cases value
    · exact BitVec.getLsbD_zero
    · generalize n % 8 = k at hn
      interval_cases k <;> rfl
  · rw [if_neg hbyte, if_neg (by omega)]

end Bitmap

end Haxm.Lib
