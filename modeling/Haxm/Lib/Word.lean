/-
# Wrapping arithmetic on 64-bit words

A 64-bit word is a natural number below `2 ^ 64`. Addition, subtraction and
left shift reduce modulo `2 ^ 64`; comparison, minimum and maximum are those of
the naturals. Each wrapping operation agrees with its natural counterpart as
long as the natural result stays in range, and a comparison of two wrapping
differences is a comparison of integers when both sides are small. A counter of
type `int` shows the number it counted as long as that stays below `2 ^ 31`.
-/

import Mathlib.Tactic.Ring

namespace Haxm.Lib

variable {a b : ℕ}

/-- The number of values of a 64-bit word. -/
abbrev word : ℕ := 2 ^ 64

/-- Wrapping addition. -/
def add64 (a b : ℕ) : ℕ := (a + b) % word

/-- Wrapping subtraction of two words. -/
def sub64 (a b : ℕ) : ℕ := (a + (word - b)) % word

/-- Wrapping left shift. -/
def shl64 (a k : ℕ) : ℕ := (a * 2 ^ k) % word

theorem add64_of_lt (h : a + b < word) : add64 a b = a + b := Nat.mod_eq_of_lt h

theorem add64_le (a b : ℕ) : add64 a b ≤ a + b := Nat.mod_le _ _

/-- A sum that leaves the range comes back below each of its terms. -/
theorem add64_of_le (ha : a < word) (hb : b < word) (h : word ≤ a + b) :
    add64 a b = a + b - word := by
  unfold add64
  unfold word at *
  omega

theorem sub64_of_le (h : b ≤ a) (ha : a < word) : sub64 a b = a - b := by
  unfold sub64
  unfold word at *
  omega

/-- The last word of a range that ends within the words. -/
theorem sub64_add64_one (pos : 0 < a + b) (h : a + b ≤ word) : sub64 (add64 a b) 1 = a + b - 1 := by
  unfold sub64 add64
  unfold word at *
  omega

theorem sub64_add64_cancel (ha : a < word) (hb : b < word) : sub64 (add64 a b) a = b := by
  unfold sub64 add64
  unfold word at *
  omega

/-- A wrapping difference, added back. -/
theorem mod_word_add_of_sub64 {a b d : ℕ} (hb : b < word) (h : sub64 a b = d) (c : ℕ) :
    (a + c) % word = (b + (d + c)) % word := by
  unfold sub64 at h
  unfold word at *
  omega

theorem shl64_of_lt {a k : ℕ} (h : a * 2 ^ k < word) : shl64 a k = a * 2 ^ k :=
  Nat.mod_eq_of_lt h

/-- Comparing a wrapping difference with a shifted wrapping difference compares
the two integer differences, as long as neither can reach half the range. -/
theorem sub64_eq_shl64_sub64_iff {a b c d : ℕ} (ha : a < 2 ^ 60) (hb : b < 2 ^ 60)
    (hc : c < 2 ^ 40) (hd : d < 2 ^ 40) :
    sub64 a b = shl64 (sub64 c d) 12 ↔ a + 4096 * d = b + 4096 * c := by
  unfold sub64 shl64 word
  omega

/-! ## Counters of type `int` -/

/-- The value of an `int` that was counted up to `n`, in two's complement. -/
def int32 (n : ℕ) : ℤ := (BitVec.ofNat 32 n).toInt

theorem int32_eq (n : ℕ) : int32 n =
    if n % 2 ^ 32 < 2 ^ 31 then ((n % 2 ^ 32 : ℕ) : ℤ) else (n % 2 ^ 32 : ℕ) - 2 ^ 32 := by
  rw [int32, BitVec.toInt_eq_toNat_cond, BitVec.toNat_ofNat]
  split_ifs <;> omega

theorem int32_of_lt {n : ℕ} (h : n < 2 ^ 31) : int32 n = n := by
  rw [int32_eq, Nat.mod_eq_of_lt (by omega), if_pos h]

end Haxm.Lib
