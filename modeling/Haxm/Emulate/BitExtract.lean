/-
# ANDN and BEXTR

These two are written out in C. BEXTR shifts by a byte of its second source,
and C says what a shift of a 64-bit number does for counts below 64 only. So the
host is a parameter here. Its answer is the right one if no count is too large,
or if the bits that a wrong mask lets through are zero anyway.
-/

import Haxm.Emulate.Registers

namespace Haxm

/-- The shifts of a host, which C fixes for counts below the width. -/
structure HostShifts where
  shl : BitVec 64 → ℕ → BitVec 64
  shr : BitVec 64 → ℕ → BitVec 64
  shl_eq : ∀ x n, n < 64 → shl x n = x <<< n
  shr_eq : ∀ x n, n < 64 → shr x n = x >>> n

/-- An x86 host, which takes the count modulo 64. -/
def HostShifts.masked : HostShifts where
  shl x n := x <<< (n % 64)
  shr x n := x >>> (n % 64)
  shl_eq x n small := by rw [Nat.mod_eq_of_lt small]
  shr_eq x n small := by rw [Nat.mod_eq_of_lt small]

/-- A host that answers `x` to every count that is too large. -/
def HostShifts.constant (x : BitVec 64) : HostShifts where
  shl y n := if n < 64 then y <<< n else ~~~x
  shr y n := if n < 64 then y >>> n else x
  shl_eq _ _ small := if_pos small
  shr_eq _ _ small := if_pos small

/-- The start byte and the length byte. -/
def bextrStart (c : EmContext) : ℕ := (c.src2.value &&& 0xff).toNat
def bextrLen (c : EmContext) : ℕ := (c.src2.value >>> 8 &&& 0xff).toNat

/-- `em_bextr_soft` on a host. -/
def emBextrSoftOn (host : HostShifts) (c : EmContext) : EmContext :=
  let temp := if c.operandSize = 4 then c.src1.value &&& 0xffffffff else c.src1.value
  let temp := host.shr temp (bextrStart c) &&& ~~~(host.shl (BitVec.allOnes 64) (bextrLen c))
  { c with
    dst := { c.dst with value := temp }
    rflags := c.rflags &&& ~~~rflagsMaskOszapc ||| (if temp = 0 then 0x40 else 0) }

theorem emBextrSoft_eq (c : EmContext) : emBextrSoft c = emBextrSoftOn .masked c := rfl

/-- CF and OF are clear, and ZF says whether the result is zero. -/
structure ResultFlags (c : EmContext) : Prop where
  cf : (ArithFlags.ofRflags c.rflags).cf = false
  zf : (ArithFlags.ofRflags c.rflags).zf = decide (c.dst.value = 0)
  of : (ArithFlags.ofRflags c.rflags).of = false

/-- The bits of the source from the start byte on, as many as the length byte says. -/
def bextrResult (c : EmContext) : ℕ :=
  c.src1.value.toNat % 2 ^ (8 * c.operandSize) / 2 ^ bextrStart c % 2 ^ bextrLen c

/-- What the manual says about ANDN. -/
structure AndnConforms (c c' : EmContext) : Prop where
  value : c'.dst.value = lowBytes c.operandSize (~~~c.src1.value &&& c.src2.value)
  sf : (ArithFlags.ofRflags c'.rflags).sf = c'.dst.value.getLsbD (8 * c.operandSize - 1)
  flags : ResultFlags c'

/-- What the manual says about BEXTR. -/
structure BextrConforms (c c' : EmContext) : Prop where
  value : c'.dst.value.toNat = bextrResult c
  flags : ResultFlags c'

section Conforms

variable {c : EmContext}

/-- The flags that both write, of which BEXTR leaves SF clear. -/
theorem softFlags_eq (rflags : BitVec 64) (z s : Bool) :
    rflags &&& ~~~rflagsMaskOszapc ||| (if z then 0x40 else 0) ||| (if s then 0x80 else 0) =
      setArith rflags ⟨false, false, false, z, s, false⟩ := by
  simp [setArith, ArithFlags.toBits, BitVec.or_assoc]

theorem toNat_and_lowMask (x : BitVec 64) {n : ℕ} (hn : n < 64) :
    (x &&& ~~~(BitVec.allOnes 64 <<< n)).toNat = x.toNat % 2 ^ n := by
  have low : x &&& ~~~(BitVec.allOnes 64 <<< n) = (x.setWidth n).setWidth 64 := by
    apply BitVec.eq_of_getLsbD_eq
    intro i hi
    rw [BitVec.getLsbD_and, BitVec.getLsbD_not, BitVec.getLsbD_shiftLeft, BitVec.getLsbD_allOnes,
      BitVec.getLsbD_setWidth, BitVec.getLsbD_setWidth]
    by_cases below : i < n
    · simp [hi, below]
    · simp [hi, below, show i - n < 64 by omega]
  rw [low, BitVec.toNat_setWidth, BitVec.toNat_setWidth, Nat.mod_eq_of_lt]
  have := Nat.mod_lt x.toNat (Nat.two_pow_pos n)
  have := Nat.pow_lt_pow_right (show 1 < 2 by decide) hn
  omega

/-- The source, cut to the operand size. -/
theorem toNat_bextrSource (size : c.operandSize = 4 ∨ c.operandSize = 8) :
    (if c.operandSize = 4 then c.src1.value &&& 0xffffffff else c.src1.value).toNat =
      c.src1.value.toNat % 2 ^ (8 * c.operandSize) := by
  rcases size with four | eight
  · rw [if_pos four, four, BitVec.toNat_and]
    exact Nat.and_two_pow_sub_one_eq_mod _ 32
  · rw [if_neg (by omega), eight, Nat.mod_eq_of_lt c.src1.value.isLt]

theorem resultFlags_emBextrSoftOn (host : HostShifts) : ResultFlags (emBextrSoftOn host c) := by
  have flags : (emBextrSoftOn host c).rflags = setArith c.rflags
      ⟨false, false, false, decide ((emBextrSoftOn host c).dst.value = 0), false, false⟩ := by
    rw [← softFlags_eq]
    simp [emBextrSoftOn]
  constructor
  all_goals rw [flags, ofRflags_setArith]

theorem ushiftRight_ne_zero_iff {x : BitVec 64} {n : ℕ} (small : x.toNat < 2 ^ (n + 1)) :
    x.ushiftRight n ≠ 0 ↔ x.getLsbD n = true := by
  have quotient : x.toNat / 2 ^ n < 2 := by
    rw [Nat.div_lt_iff_lt_mul (Nat.two_pow_pos n), ← Nat.pow_succ']
    exact small
  have zero : x.ushiftRight n = 0 ↔ x.toNat / 2 ^ n = 0 := by
    rw [← BitVec.toNat_inj, BitVec.ushiftRight_eq, BitVec.toNat_ushiftRight,
      Nat.shiftRight_eq_div_pow]
    rfl
  rw [ne_eq, zero, BitVec.getLsbD, Nat.testBit_eq_decide_div_mod_eq, decide_eq_true_iff]
  generalize x.toNat / 2 ^ n = q at quotient
  omega

theorem andnConforms (size : c.operandSize = 4 ∨ c.operandSize = 8) :
    AndnConforms c (emAndnSoft c) := by
  have value : (emAndnSoft c).dst.value =
      lowBytes c.operandSize (~~~c.src1.value &&& c.src2.value) := by
    unfold emAndnSoft
    dsimp only
    rcases size with four | eight
    · apply BitVec.eq_of_getLsbD_eq
      intro i hi
      rw [if_pos four, four, getLsbD_lowBytes, BitVec.getLsbD_and, Bool.and_comm,
        show (0xffffffff : BitVec 64) = (BitVec.allOnes 32).setWidth 64 from rfl,
        BitVec.getLsbD_setWidth, BitVec.getLsbD_allOnes, decide_eq_true hi, Bool.true_and]
    · rw [if_neg (by omega), eight, lowBytes_eight]
  have small : (emAndnSoft c).dst.value.toNat < 2 ^ (8 * c.operandSize - 1 + 1) := by
    rw [value, lowBytes, BitVec.toNat_setWidth]
    have := ((~~~c.src1.value &&& c.src2.value).setWidth (8 * c.operandSize)).isLt
    rw [show 8 * c.operandSize - 1 + 1 = 8 * c.operandSize by omega]
    omega
  have flags : (emAndnSoft c).rflags = setArith c.rflags
      ⟨false, false, false, decide ((emAndnSoft c).dst.value = 0),
        (emAndnSoft c).dst.value.getLsbD (8 * c.operandSize - 1), false⟩ := by
    rw [← softFlags_eq]
    simp only [decide_eq_true_eq, ← ushiftRight_ne_zero_iff small]
    rcases size with four | eight
    · simp only [emAndnSoft, four, if_true]
    · simp only [emAndnSoft, eight, show ¬(8 = 4) by decide, if_false]
  refine ⟨value, ?_, ?_, ?_, ?_⟩
  all_goals rw [flags, ofRflags_setArith]

/-- No count is too large, or a wrong answer of the host does not matter. -/
def BextrSafe (c : EmContext) : Prop :=
  bextrLen c = 0 ∨ bextrStart c < 64 ∧ (bextrLen c < 64 ∨
    c.src1.value.toNat % 2 ^ (8 * c.operandSize) / 2 ^ bextrStart c = 0)

theorem toNat_emBextrSoftOn (size : c.operandSize = 4 ∨ c.operandSize = 8) (safe : BextrSafe c)
    (host : HostShifts) : (emBextrSoftOn host c).dst.value.toNat = bextrResult c := by
  have source := toNat_bextrSource size
  have len (small : bextrLen c < 64) : host.shl (BitVec.allOnes 64) (bextrLen c) = _ :=
    host.shl_eq _ _ small
  unfold emBextrSoftOn bextrResult
  dsimp only
  rw [← source]
  generalize (if c.operandSize = 4 then c.src1.value &&& 0xffffffff else c.src1.value) = x at source
  rcases safe with zero | ⟨start, small | none⟩
  · rw [zero, host.shl_eq _ _ (by decide), toNat_and_lowMask _ (by decide), Nat.pow_zero,
      Nat.mod_one, Nat.mod_one]
  · rw [host.shl_eq _ _ small, host.shr_eq _ _ start, toNat_and_lowMask _ small,
      BitVec.toNat_ushiftRight, Nat.shiftRight_eq_div_pow]
  · have empty : x >>> bextrStart c = 0 := by
      apply BitVec.eq_of_toNat_eq
      rw [BitVec.toNat_ushiftRight, Nat.shiftRight_eq_div_pow, source, none]
      rfl
    rw [host.shr_eq _ _ start, empty, source, none]
    simp

/-- ANDN is right. BEXTR is right on every host if no shift count is too large where it matters,
and only then. -/
theorem andn_bextr_conform_iff (size : c.operandSize = 4 ∨ c.operandSize = 8) :
    AndnConforms c (emAndnSoft c) ∧
      ((∀ host, BextrConforms c (emBextrSoftOn host c)) ↔ BextrSafe c) := by
  refine ⟨andnConforms size, fun conforms => ?_, fun safe host =>
    ⟨toNat_emBextrSoftOn size safe host, resultFlags_emBextrSoftOn host⟩⟩
  have bound : c.src1.value.toNat % 2 ^ (8 * c.operandSize) < 2 ^ 64 :=
    Nat.lt_of_le_of_lt (Nat.mod_le _ _) c.src1.value.isLt
  by_contra risky
  unfold BextrSafe at risky
  by_cases start : bextrStart c < 64
  · -- the mask is up to the host, which may let nothing through
    have long : 64 ≤ bextrLen c := by omega
    have answer := (conforms (.constant 0)).value
    have whole := Nat.div_le_self (c.src1.value.toNat % 2 ^ (8 * c.operandSize)) (2 ^ bextrStart c)
    have power := Nat.pow_le_pow_right (show 0 < 2 by decide) long
    rw [bextrResult, Nat.mod_eq_of_lt (by omega)] at answer
    have masked : (emBextrSoftOn (.constant 0) c).dst.value = 0 := by
      simp only [emBextrSoftOn, HostShifts.constant, if_neg (Nat.not_lt.mpr long)]
      simp
    rw [masked] at answer
    exact risky (.inr ⟨start, .inr answer.symm⟩)
  · -- the shifted source is up to the host
    have answer := (conforms (.constant (BitVec.allOnes 64))).value
    have power := Nat.pow_le_pow_right (show 0 < 2 by decide) (Nat.le_of_not_lt start)
    rw [bextrResult, Nat.div_eq_of_lt (by omega), Nat.zero_mod] at answer
    simp only [emBextrSoftOn, HostShifts.constant, if_neg start] at answer
    by_cases len : bextrLen c < 64
    · rw [if_pos len, toNat_and_lowMask _ len] at answer
      have even := Nat.dvd_trans (Nat.pow_dvd_pow 2 (show 1 ≤ bextrLen c by omega))
        (Nat.dvd_of_mod_eq_zero answer)
      revert even
      decide
    · rw [if_neg len] at answer
      revert answer
      decide

end Conforms

/-- BEXTR of all 64 bits of 1. -/
def bextrAll : EmContext :=
  { EmContext.init .prot64 0 with
    operandSize := 8, src1 := { value := 1 }, src2 := { value := 0x4000 } }

theorem bextrAll_conform_iff :
    AndnConforms bextrAll (emAndnSoft bextrAll) ∧
      ((∀ host, BextrConforms bextrAll (emBextrSoftOn host bextrAll)) ↔ BextrSafe bextrAll) :=
  andn_bextr_conform_iff (.inr rfl)

/-- The answer of an x86 host is 0. -/
theorem bextrAll_wrong :
    bextrResult bextrAll = 1 ∧ (emBextrSoftOn .masked bextrAll).dst.value = 0 :=
  ⟨by decide, by decide⟩

end Haxm
