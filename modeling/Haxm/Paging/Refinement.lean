/-
# The page walker against the architecture

The walker is the translation of a processor that has 1-GByte pages, lacks
PSE-36 and makes none of the three further checks: this is proved first, level by
level. Where such a processor and the real one can differ is then a matter of
the tables alone.
-/

import Haxm.Paging.Architecture

namespace Haxm

open Lib

/-! ### Fields of an entry -/

/-- `pw_reserved_bits_high_mask`, as CPUID leaf 0x80000008 sets it. -/
def pwReservedBitsHighMask (physicalAddressSize : ℕ) : BitVec 32 :=
  ~~~ (1#32 <<< (physicalAddressSize - 32) - 1)

theorem pwReservedBitsHighMask_isMask (f : PagingFeatures) :
    IsMask (pwReservedBitsHighMask f.maxPhyAddr) (f.maxPhyAddr - 32) (64 - f.maxPhyAddr) := by
  have all : ∀ m : Fin 21, pwReservedBitsHighMask (32 + m) =
      (BitVec.allOnes (32 - m)).setWidth 32 <<< m.val := by decide
  have := isMask_of_eq (all ⟨f.maxPhyAddr - 32, by have := f.high; omega⟩)
  rwa [show 32 + (f.maxPhyAddr - 32) = f.maxPhyAddr by have := f.low; omega,
    show 32 - (f.maxPhyAddr - 32) = 64 - f.maxPhyAddr by have := f.low; omega] at this

theorem pwHighReserved_eq (f : PagingFeatures) (e : PwEntry) :
    pwHighReserved (pwReservedBitsHighMask f.maxPhyAddr) e =
      anyBit f.maxPhyAddr (52 - f.maxPhyAddr) e.val := by
  have low := f.low
  have high := f.high
  unfold pwHighReserved
  rw [(pwReservedBitsHighMask_isMask f).and_bne_zero, Bool.eq_iff_iff, anyBit_iff, anyBit_iff]
  simp only [PwEntry.addrBaseHigh, BitVec.getLsbD_setWidth, BitVec.getLsbD_extractLsb',
    Bool.and_eq_true, decide_eq_true_eq]
  constructor
  · rintro ⟨i, hlo, hhi, h32, h20, h⟩
    exact ⟨32 + i, by omega, by omega, h⟩
  · rintro ⟨i, hlo, hhi, h⟩
    refine ⟨i - 32, by omega, by omega, by omega, by omega, ?_⟩
    rwa [show 32 + (i - 32) = i by omega]

theorem pwIndices_pae {isPae : Bool} (pae : isPae = true) (va : BitVec 64) (isLme : Bool) :
    pwIndices va isPae isLme =
      ⟨if isLme then (va.extractLsb' 39 9).setWidth 32 else pwInvalidIndex,
        (va.extractLsb' 30 (if isLme then 9 else 2)).setWidth 32,
        (va.extractLsb' 21 9).setWidth 32, (va.extractLsb' 12 9).setWidth 32⟩ := by
  have m4 : IsMask (0x0000ff8000000000 : BitVec 64) 39 9 := isMask_of_eq (by decide)
  have m3 : IsMask (0x0000007fc0000000 : BitVec 64) 30 9 := isMask_of_eq (by decide)
  have m3' : IsMask (0xc0000000 : BitVec 32) 30 2 := by decide
  have m2 : IsMask (0x3fe00000 : BitVec 32) 21 9 := by decide
  have m1 : IsMask (0x1ff000 : BitVec 32) 12 9 := by decide
  simp only [pwIndices, pae, if_true, m4.and_ushiftRight, m3.and_ushiftRight, m3'.and_ushiftRight,
    m2.and_ushiftRight, m1.and_ushiftRight]
  cases isLme <;> simp [BitVec.extractLsb'_setWidth_of_le]

theorem pwIndices_legacy {isPae : Bool} (noPae : isPae = false) (va : BitVec 64) (isLme : Bool) :
    pwIndices va isPae isLme =
      ⟨pwInvalidIndex, pwInvalidIndex, (va.extractLsb' 22 10).setWidth 32,
        (va.extractLsb' 12 10).setWidth 32⟩ := by
  have m2 : IsMask (0xffc00000 : BitVec 32) 22 10 := by decide
  have m1 : IsMask (0x3ff000 : BitVec 32) 12 10 := by decide
  simp only [pwIndices, noPae, Bool.false_eq_true, if_false, m2.and_ushiftRight, m1.and_ushiftRight]
  simp [BitVec.extractLsb'_setWidth_of_le]

/-! ### Addresses -/

/-- Bits 51:12 of an entry. -/
theorem addressMask : IsMask (0x000ffffffffff000 : BitVec 64) 12 40 := isMask_of_eq (by decide)

theorem PwEntry.getLsbD_addrBaseLow (e : PwEntry) (i : ℕ) :
    e.addrBaseLow.getLsbD i = (decide (i < 20) && e.val.getLsbD (12 + i)) := by
  rw [addrBaseLow, BitVec.getLsbD_extractLsb']

theorem PwEntry.getLsbD_addrBaseHigh (e : PwEntry) (i : ℕ) :
    e.addrBaseHigh.getLsbD i = (decide (i < 20) && e.val.getLsbD (32 + i)) := by
  rw [addrBaseHigh, BitVec.getLsbD_extractLsb']

theorem pwPhysAddr_pae (e : PwEntry) : pwPhysAddr e true = e.val &&& 0x000ffffffffff000 := by
  refine BitVec.eq_of_getLsbD_eq fun i hi => ?_
  rw [BitVec.getLsbD_and, addressMask.getLsbD]
  simp only [pwPhysAddr, if_true, BitVec.getLsbD_or, BitVec.getLsbD_shiftLeft,
    BitVec.getLsbD_setWidth]
  rw [e.getLsbD_addrBaseLow, e.getLsbD_addrBaseHigh]
  by_cases h12 : i < 12
  · simp [h12, show i < 32 by omega, show ¬ 12 ≤ i by omega]
  by_cases h32 : i < 32
  · simp [h12, h32, hi, show i - 12 < 32 by omega, show i - 12 < 20 by omega, show 12 ≤ i by omega,
      show 12 + (i - 12) = i by omega, show i < 52 by omega]
  by_cases h52 : i < 52
  · simp [h32, hi, show i - 32 < 20 by omega, show 12 ≤ i by omega, h52,
      show 32 + (i - 32) = i by omega, show i - 32 < 64 by omega]
  · simp [h32, h52, show ¬ i - 32 < 20 by omega]

/-- The high half of a 32-bit entry is clear. -/
def PwEntry.Legacy (e : PwEntry) : Prop := ∀ i, 32 ≤ i → e.val.getLsbD i = false

theorem pwPhysAddr_legacy {e : PwEntry} (legacy : e.Legacy) :
    pwPhysAddr e false = e.val &&& 0x000ffffffffff000 := by
  refine BitVec.eq_of_getLsbD_eq fun i hi => ?_
  rw [BitVec.getLsbD_and, addressMask.getLsbD]
  simp only [pwPhysAddr, Bool.false_eq_true, if_false, BitVec.getLsbD_shiftLeft,
    BitVec.getLsbD_setWidth]
  rw [e.getLsbD_addrBaseLow]
  by_cases h12 : i < 12
  · simp [h12, show ¬ 12 ≤ i by omega]
  by_cases h32 : i < 32
  · simp [h12, hi, show i - 12 < 64 by omega, show i - 12 < 20 by omega, show 12 ≤ i by omega,
      show 12 + (i - 12) = i by omega, show i < 52 by omega]
  · simp [legacy i (by omega), show ¬ i - 12 < 20 by omega]

/-- A page address aligned to the page size, and the offset added to it. -/
theorem alignBackward_add {base va : BitVec 64} {k : ℕ} (hk : k ≤ 32) :
    alignBackward base k + ((va &&& (1#64 <<< k - 1)).setWidth 32).setWidth 64 =
      base &&& ~~~ (1#64 <<< k - 1) ||| (va.extractLsb' 0 k).setWidth 64 := by
  have ones : ∀ m : Fin 33, 1#64 <<< m.val - 1 = (BitVec.allOnes m).setWidth 64 <<< 0 := by decide
  have low : IsMask (1#64 <<< k - 1) 0 k := isMask_of_eq (ones ⟨k, by omega⟩)
  have offset : ((va &&& (1#64 <<< k - 1)).setWidth 32).setWidth 64 =
      (va.extractLsb' 0 k).setWidth 64 := by
    apply BitVec.eq_of_getLsbD_eq
    intro i hi
    simp only [BitVec.getLsbD_setWidth, BitVec.getLsbD_and, low.getLsbD, BitVec.getLsbD_extractLsb']
    by_cases h : i < k
    · simp [h, hi, show i < 32 by omega]
    · simp [h]
  rw [offset]
  apply BitVec.add_eq_or_of_and_eq_zero
  apply BitVec.eq_of_getLsbD_eq
  intro i hi
  simp only [alignBackward, BitVec.getLsbD_and, BitVec.getLsbD_not, low.getLsbD,
    BitVec.getLsbD_setWidth, BitVec.getLsbD_extractLsb', BitVec.getLsbD_zero]
  by_cases h : i < k <;> simp [h, hi]

/-- The address of a page of 64-bit entries. -/
theorem pwPhysAddr_frame (e : PwEntry) {k : ℕ}
    (h : (0x000ffffffffff000 : BitVec 64) &&& ~~~ (1#64 <<< k - 1) =
      (0x000fffffffffffff#64 >>> k) <<< k) :
    pwPhysAddr e true &&& ~~~ (1#64 <<< k - 1) = e.val &&& (0x000fffffffffffff#64 >>> k) <<< k := by
  rw [pwPhysAddr_pae, BitVec.and_assoc, h]

/-- A large page of a 64-bit entry. -/
theorem pwBigPage_pae (e : PwEntry) (va : BitVec 64) (is1gb : Bool) :
    alignBackward (pwPhysAddr e true) (pwBigPageOrder true is1gb) +
        (pwGetBigPageOffset va true is1gb).setWidth 64 =
      (e.val &&& (0x000fffffffffffff#64 >>> pwBigPageOrder true is1gb) <<< pwBigPageOrder true
        is1gb) ||| (va.extractLsb' 0 (pwBigPageOrder true is1gb)).setWidth 64 := by
  unfold pwGetBigPageOffset
  cases is1gb <;> rw [alignBackward_add (by decide), pwPhysAddr_frame e (by decide)]

/-- A large page of a 32-bit entry. -/
theorem pwBigPage_legacy {e : PwEntry} (legacy : e.Legacy) (low : anyBit 13 9 e.val = false)
    (va : BitVec 64) :
    alignBackward (pwPhysAddr e false) 22 + (pwGetBigPageOffset va false false).setWidth 64 =
      (e.val &&& 0xffc00000 ||| (e.val.extractLsb' 13 8).setWidth 64 <<< 32) |||
        (va.extractLsb' 0 22).setWidth 64 := by
  have none : e.val.extractLsb' 13 8 = 0 := by
    have : anyBit 13 8 e.val = false := by
      rw [anyBit_eq_false] at low ⊢
      exact fun i hlo hhi => low i hlo (by omega)
    simpa [anyBit] using this
  have high : IsMask (~~~ (1#64 <<< 22 - 1)) 22 42 := isMask_of_eq (by decide)
  have mask : IsMask (0xffc00000 : BitVec 64) 22 10 := isMask_of_eq (by decide)
  have frame : pwPhysAddr e false &&& ~~~ (1#64 <<< 22 - 1) = e.val &&& 0xffc00000 := by
    rw [pwPhysAddr_legacy legacy]
    refine BitVec.eq_of_getLsbD_eq fun i hi => ?_
    rw [BitVec.getLsbD_and, BitVec.getLsbD_and, BitVec.getLsbD_and, addressMask.getLsbD,
      high.getLsbD, mask.getLsbD]
    by_cases h32 : i < 32
    · by_cases h22 : 22 ≤ i
      · simp [hi, h22, show i < 52 by omega, h32, show 12 ≤ i by omega]
      · simp [h22]
    · simp [legacy i (by omega)]
  rw [show pwGetBigPageOffset va false false = (va &&& (1#64 <<< 22 - 1)).setWidth 32 from rfl,
    alignBackward_add (by decide), frame, none]
  simp

theorem pageOffset_eq (va : BitVec 64) : va &&& 0xfff = (va.extractLsb' 0 12).setWidth 64 := by
  have mask : IsMask (0xfff : BitVec 64) 0 12 := isMask_of_eq (by decide)
  rw [← mask.and_ushiftRight va, BitVec.ushiftRight_zero]

/-- A 4-KByte page. -/
theorem pwPage_eq {e : PwEntry} {isPae : Bool} (legacy : isPae = false → e.Legacy)
    (va : BitVec 64) :
    pwPhysAddr e isPae ||| (va &&& (0xfff : BitVec 64)) =
      (e.val &&& (0x000fffffffffffff#64 >>> 12) <<< 12) ||| (va.extractLsb' 0 12).setWidth 64 := by
  have addr : pwPhysAddr e isPae = e.val &&& 0x000ffffffffff000 := by
    cases isPae with
    | true => exact pwPhysAddr_pae e
    | false => exact pwPhysAddr_legacy (legacy rfl)
  rw [pageOffset_eq, addr]
  rfl

/-! ### Reserved bits -/

/-- The processor whose rules the walker follows. -/
def PagingFeatures.haxm (f : PagingFeatures) : PagingFeatures :=
  { f with page1gb := true, pse36 := false }

/-- None of the further checks. -/
def PagingChecks.none : PagingChecks := ⟨false, false, false⟩

variable (f : PagingFeatures) (e : PwEntry) (nxe : Bool)

theorem pwPml4teCleared_eq :
    pwAreReservedBitsInPml4teCleared (pwReservedBitsHighMask f.maxPhyAddr) e nxe =
      !(f.haxm.pml4Level .none nxe).reserved e.val := by
  simp [pwAreReservedBitsInPml4teCleared, pwHighReserved_eq, PagingFeatures.pml4Level,
    PagingFeatures.reserved64, PagingFeatures.xdReserved, PagingFeatures.haxm, PagingChecks.none,
    anyBit_one, PwEntry.exbOrRes]

theorem pwPdpteCleared_long :
    pwAreReservedBitsInPdpteCleared (pwReservedBitsHighMask f.maxPhyAddr) e nxe true =
      !(f.haxm.pdptLevel nxe).reserved e.val := by
  have mask : IsMask (0x3fffe000 : BitVec 64) 13 17 := isMask_of_eq (by decide)
  rw [pwAreReservedBitsInPdpteCleared, pwHighReserved_eq, mask.and_bne_zero]
  simp [PagingFeatures.pdptLevel, PagingFeatures.reserved64, PagingFeatures.xdReserved,
    PagingFeatures.haxm, anyBit_one, PwEntry.exbOrRes, pwIs1gbPagePdpte, PwEntry.pageSize,
    Bool.and_assoc]

/-- The bits from the physical address width up to bit 62. -/
theorem anyBit_high :
    anyBit f.maxPhyAddr (63 - f.maxPhyAddr) e.val =
      (anyBit f.maxPhyAddr (52 - f.maxPhyAddr) e.val || anyBit 52 11 e.val) := by
  have low := f.low
  have high := f.high
  rw [show 63 - f.maxPhyAddr = (52 - f.maxPhyAddr) + 11 by omega, anyBit_add,
    show f.maxPhyAddr + (52 - f.maxPhyAddr) = 52 by omega]

theorem pwPdpteCleared_pae :
    pwAreReservedBitsInPdpteCleared (pwReservedBitsHighMask f.maxPhyAddr) e nxe false =
      !(f.haxm.paePdptLevel .none).reserved e.val := by
  have low := f.low
  have high := f.high
  have rights : anyBit 1 2 e.val = (e.val.getLsbD 1 || e.val.getLsbD 2) := by
    rw [show 2 = 1 + 1 from rfl, anyBit_add, anyBit_one, anyBit_one]
  have upper : anyBit f.maxPhyAddr (64 - f.maxPhyAddr) e.val =
      (anyBit f.maxPhyAddr (52 - f.maxPhyAddr) e.val || anyBit 52 11 e.val ||
        e.val.getLsbD 63) := by
    rw [show 64 - f.maxPhyAddr = (63 - f.maxPhyAddr) + 1 by omega, anyBit_add, anyBit_high,
      show f.maxPhyAddr + (63 - f.maxPhyAddr) = 63 by omega, anyBit_one]
  rw [pwAreReservedBitsInPdpteCleared, pwHighReserved_eq,
    show (e.avlOrRes != 0) = anyBit 52 11 e.val from rfl]
  simp [PwEntry.exbOrRes, PwEntry.writable, PwEntry.user, PagingFeatures.paePdptLevel,
    PagingFeatures.haxm, PagingChecks.none, rights, upper, Bool.and_assoc, Bool.and_left_comm,
    Bool.and_comm]

/-- The reserved bits that a mode of 64-bit entries has below its page-directory
pointers. -/
def PagingFeatures.reservedLow (isLme : Bool) : BitVec 64 → Bool :=
  if isLme then f.reserved64 nxe else f.reservedPae nxe

theorem reservedLow_eq (isLme : Bool) :
    f.reservedLow nxe isLme e.val =
      (anyBit f.maxPhyAddr (52 - f.maxPhyAddr) e.val || !isLme && anyBit 52 11 e.val ||
        !nxe && e.val.getLsbD 63) := by
  cases isLme with
  | true =>
    simp [PagingFeatures.reservedLow, PagingFeatures.reserved64, PagingFeatures.xdReserved,
      anyBit_one]
  | false =>
    simp [PagingFeatures.reservedLow, PagingFeatures.reservedPae, PagingFeatures.xdReserved,
      anyBit_one, anyBit_high]

theorem pwPteCleared_pae (isLme : Bool) :
    pwAreReservedBitsInPteCleared (pwReservedBitsHighMask f.maxPhyAddr) e nxe isLme true =
      !(ptLevel (f.reservedLow nxe isLme)).reserved e.val := by
  rw [pwAreReservedBitsInPteCleared, pwHighReserved_eq,
    show (e.avlOrRes != 0) = anyBit 52 11 e.val from rfl]
  simp [ptLevel, reservedLow_eq, PwEntry.exbOrRes, Bool.and_assoc]

theorem pwIsBigPagePde_pae (isLme isPse : Bool) :
    pwIsBigPagePde e isLme true isPse = e.val.getLsbD 7 := by
  unfold pwIsBigPagePde PwEntry.pageSize
  cases e.val.getLsbD 7 <;> simp

theorem pwIsBigPagePde_legacy (isPse : Bool) :
    pwIsBigPagePde e false false isPse = (isPse && e.val.getLsbD 7) := by
  unfold pwIsBigPagePde PwEntry.pageSize
  cases e.val.getLsbD 7 <;> simp

theorem pwPdeCleared_pae (isLme isPse : Bool) :
    pwAreReservedBitsInPdeCleared (pwReservedBitsHighMask f.maxPhyAddr) e nxe isLme true isPse =
      !(pdLevel (f.reservedLow nxe isLme)).reserved e.val := by
  have mask : IsMask (0x1fe000 : BitVec 64) 13 8 := isMask_of_eq (by decide)
  rw [pwAreReservedBitsInPdeCleared, pwHighReserved_eq,
    show (e.avlOrRes != 0) = anyBit 52 11 e.val from rfl,
    mask.and_bne_zero, pwIsBigPagePde_pae]
  simp [pdLevel, reservedLow_eq, PwEntry.exbOrRes, Bool.and_assoc, Bool.and_left_comm]

theorem pwPdeCleared_legacy (mask : BitVec 32) (isPse : Bool) :
    pwAreReservedBitsInPdeCleared mask e nxe false false isPse =
      !(f.haxm.pd32Level isPse).reserved e.val := by
  have low : IsMask (0x3fe000 : BitVec 32) 13 9 := isMask_of_eq (by decide)
  have half : anyBit 13 9 e.nonPaeVal = anyBit 13 9 e.val := by
    unfold anyBit PwEntry.nonPaeVal
    rw [BitVec.extractLsb'_setWidth_of_le (by decide)]
  rw [pwAreReservedBitsInPdeCleared, low.and_bne_zero, pwIsBigPagePde_legacy, half]
  simp [PagingFeatures.pd32Level, PagingFeatures.pseWidth, PagingFeatures.haxm]

/-! ### Results -/

/-- What a result of the walk says about the translation. -/
def PwResult.translation (r : PwResult) : Translation :=
  if r.retval = tfOk then .page r.gpa
  else if r.retval &&& tfProtect != 0 then .violation
  else .notPresent

theorem PwResult.translation_ok {r : PwResult} (h : r.retval = tfOk) :
    r.translation = .page r.gpa := if_pos h

/-- A failed walk is told by bit 0 of the result. -/
theorem PwResult.translation_failed {r : PwResult} (h : r.retval.getLsbD 31 = true) :
    r.translation = if r.retval.getLsbD 0 then .violation else .notPresent := by
  have mask : IsMask tfProtect 0 1 := by decide
  unfold translation
  rw [if_neg (fun zero => by rw [zero] at h; simp at h), mask.and_bne_zero, anyBit_one]

section Results

variable {x : PwInput} {r : PwResult}

theorem translation_unmapped (h : r.retval = tfFailed) : r.translation = .notPresent := by
  rw [PwResult.translation_failed (by rw [h]; decide), h]
  rfl

theorem translation_notPresent (free : x.access.getLsbD 0 = false)
    (h : r.retval = tfFailed ||| x.access) : r.translation = .notPresent := by
  rw [PwResult.translation_failed (by rw [h, BitVec.getLsbD_or]; simp), h, BitVec.getLsbD_or, free]
  rfl

/-- `TF_PROTECT` stands for a violation, with or without `TF_RSVD`. -/
theorem translation_violation {bits : BitVec 32} (h : r.retval = tfFailed ||| tfProtect ||| bits) :
    r.translation = .violation := by
  rw [PwResult.translation_failed (by rw [h, BitVec.getLsbD_or]; simp), h, BitVec.getLsbD_or]
  simp

end Results

/-! ### Permissions -/

/-- What `pw_is_..._access_permitted` return, apart from their assertions. -/
def pwAllowed (x : PwInput) (allows : PwEntry → Bool) (pml4te pdpte : PwEntry)
    (pde pte : Option PwEntry) : Bool :=
  (!x.isLme || allows pml4te && allows pdpte) &&
    (pwIs1gbPagePdpte pdpte || allows (pde.getD ⟨0⟩) &&
      (pwIsBigPagePde (pde.getD ⟨0⟩) x.isLme x.isPae x.isPse || allows (pte.getD ⟨0⟩)))

theorem pwEveryEntryAllows_fst (x : PwInput) (s : PwState) (allows : PwEntry → Bool)
    (pml4te pdpte : PwEntry) (pde pte : Option PwEntry) :
    (pwEveryEntryAllows s allows pml4te pdpte pde pte x.isLme x.isPae x.isPse).1 =
      pwAllowed x allows pml4te pdpte pde pte := by
  unfold pwEveryEntryAllows pwAllowed
  dsimp only
  generalize pde.getD ⟨0⟩ = d
  cases x.isLme <;> cases allows pml4te <;> cases allows pdpte <;> cases pwIs1gbPagePdpte pdpte <;>
    cases allows d <;> cases pwIsBigPagePde d _ x.isPae x.isPse <;> rfl

/-- The rights of the entries passed. -/
def pwRights (x : PwInput) (pml4te pdpte : PwSlot) (pde pte : Option PwSlot) : PagingRights where
  write := pwAllowed x PwEntry.writable pml4te.val pdpte.val (pde.map PwSlot.val)
    (pte.map PwSlot.val)
  user := pwAllowed x PwEntry.user pml4te.val pdpte.val (pde.map PwSlot.val) (pte.map PwSlot.val)
  exec := pwAllowed x (fun e => !e.exbOrRes) pml4te.val pdpte.val (pde.map PwSlot.val)
    (pte.map PwSlot.val)

/-- A check that is made only in some cases. -/
theorem exists_check (c : Bool) (check : Bool × PwState) (s : PwState) :
    ∃ b s₁, (if c = true then check else (true, s)) = (b, s₁) ∧ b = (!c || check.1) := by
  cases c with
  | true => exact ⟨check.1, check.2, rfl, rfl⟩
  | false => exact ⟨true, s, rfl, rfl⟩

theorem pwIsWriteAccessPermitted_fst (x : PwInput) (s : PwState) (pml4te pdpte : PwEntry)
    (pde pte : Option PwEntry) :
    (pwIsWriteAccessPermitted s pml4te pdpte pde pte x.isUser x.isWp x.isLme x.isPae x.isPse).1 =
      (!x.isUser && !x.isWp || pwAllowed x PwEntry.writable pml4te pdpte pde pte) := by
  unfold pwIsWriteAccessPermitted
  rw [← pwEveryEntryAllows_fst x s]
  cases !x.isUser && !x.isWp <;> rfl

/-- The end of a walk succeeds when the rights permit the access. -/
theorem pwFinish_translation (x : PwInput) (s : PwState) {r : PwResult} (hr : r.retval = tfOk)
    (pml4te pdpte : PwSlot) (pde pte : Option PwSlot) :
    (pwFinish x s r pml4te pdpte pde pte).1.translation =
      if x.permits (pwRights x pml4te pdpte pde pte) then .page r.gpa else .violation := by
  obtain ⟨w, s₁, write, hw⟩ := exists_check x.isWrite (pwIsWriteAccessPermitted s pml4te.val
    pdpte.val (pde.map PwSlot.val) (pte.map PwSlot.val) x.isUser x.isWp x.isLme x.isPae x.isPse) s
  obtain ⟨u, s₂, user, hu⟩ := exists_check x.isUser (pwIsUserAccessPermitted s₁ pml4te.val
    pdpte.val (pde.map PwSlot.val) (pte.map PwSlot.val) x.isLme x.isPae x.isPse) s₁
  obtain ⟨e, s₃, exec, he⟩ := exists_check (x.isPae && x.isNxe && x.isFetch)
    (pwIsFetchAccessPermitted s₂ pml4te.val pdpte.val (pde.map PwSlot.val) (pte.map PwSlot.val)
      x.isLme x.isPae x.isPse) s₂
  rw [pwIsWriteAccessPermitted_fst] at hw
  rw [pwIsUserAccessPermitted, pwEveryEntryAllows_fst] at hu
  rw [pwIsFetchAccessPermitted, pwEveryEntryAllows_fst] at he
  have permits : x.permits (pwRights x pml4te pdpte pde pte) = (w && u && e) := by
    rw [hw, hu, he]
    unfold PwInput.permits pwRights
    cases x.isWrite <;> cases x.isUser <;> cases x.isWp <;> cases x.isPae <;> cases x.isNxe <;>
      cases x.isFetch <;> simp
  unfold pwFinish
  rw [permits]
  simp only [write, user, exec]
  cases w with
  | false => exact translation_violation rfl
  | true =>
    cases u with
    | false => exact translation_violation rfl
    | true =>
      cases e with
      | false => exact translation_violation rfl
      | true => exact PwResult.translation_ok hr

/-- The rights of the entries above the page directory, which 32-bit PAE has none of. -/
def pwUpperRights (x : PwInput) (pml4te pdpte : PwSlot) : PagingRights :=
  if x.isLme then (PagingRights.ofEntry pml4te.val.val).inter (.ofEntry pdpte.val.val) else {}

section Rights

variable {x : PwInput} {pml4te pdpte : PwSlot}

theorem pwRights_huge (pdpte : PwSlot) (h : pwIs1gbPagePdpte pdpte.val = true)
    (pde pte : Option PwSlot) :
    pwRights x pml4te pdpte pde pte = pwUpperRights x pml4te pdpte := by
  unfold pwRights pwAllowed pwUpperRights
  rw [h]
  cases x.isLme <;> simp [PagingRights.inter, PagingRights.ofEntry, PwEntry.writable, PwEntry.user,
    PwEntry.exbOrRes]

theorem pwRights_big (huge : pwIs1gbPagePdpte pdpte.val = false) (pde : PwSlot)
    (big : pwIsBigPagePde pde.val x.isLme x.isPae x.isPse = true) (pte : Option PwSlot) :
    pwRights x pml4te pdpte (some pde) pte =
      (pwUpperRights x pml4te pdpte).inter (.ofEntry pde.val.val) := by
  unfold pwRights pwAllowed pwUpperRights
  rw [huge, Option.map_some, Option.getD_some, big]
  cases x.isLme <;> simp [PagingRights.inter, PagingRights.ofEntry, PwEntry.writable, PwEntry.user,
    PwEntry.exbOrRes]

theorem pwRights_small (huge : pwIs1gbPagePdpte pdpte.val = false) {pde : PwSlot}
    (big : pwIsBigPagePde pde.val x.isLme x.isPae x.isPse = false) (pte : PwSlot) :
    pwRights x pml4te pdpte (some pde) (some pte) =
      ((pwUpperRights x pml4te pdpte).inter (.ofEntry pde.val.val)).inter
        (.ofEntry pte.val.val) := by
  unfold pwRights pwAllowed pwUpperRights
  rw [huge, Option.map_some, Option.getD_some, Option.map_some, Option.getD_some, big]
  cases x.isLme <;> simp [PagingRights.inter, PagingRights.ofEntry, PwEntry.writable, PwEntry.user,
    PwEntry.exbOrRes, Bool.and_assoc]

end Rights

/-! ### The walk, level by level -/

/-- Entries of the 32-bit format have a clear high half. -/
def PwEntry.Fits (x : PwInput) (e : PwEntry) : Prop := x.isPae = false → e.Legacy

theorem PwInput.entry_fits {x : PwInput} {ram : PwRam} {t : PwTable} {gpa : BitVec 64}
    {index : BitVec 32} {e : PwEntry} (h : x.entry ram t gpa index = some e) : e.Fits x := by
  intro noPae i hi
  unfold entry at h
  rw [Option.map_eq_some_iff] at h
  obtain ⟨p, -, rfl⟩ := h
  unfold pwEntryValue
  rw [noPae]
  simp only [Bool.false_eq_true, if_false, BitVec.getLsbD_setWidth, Bool.and_eq_false_imp]
  exact fun _ => BitVec.getLsbD_of_ge _ _ hi

theorem pwPhysAddr_eq {x : PwInput} {e : PwEntry} (fits : e.Fits x) :
    pwPhysAddr e x.isPae = e.val &&& 0x000ffffffffff000 := by
  cases h : x.isPae with
  | true => exact pwPhysAddr_pae e
  | false => exact pwPhysAddr_legacy (fits h)

/-- A level of the architecture that the walk follows. -/
structure PwLevel.Follows (x : PwInput) (w : PwLevel) (l : PagingLevel) : Prop where
  table : l.table = w.table
  index : w.index = (x.virtAddr.extractLsb' l.shift l.width).setWidth 32
  isPage : ∀ e : PwEntry, l.isPage e.val = w.isPage e
  reserved : ∀ e, w.cleared e = !l.reserved e.val
  page : ∀ e, e.Fits x → l.reserved e.val = false → w.isPage e = true → (w.page e).retval = tfOk ∧
    (w.page e).gpa = l.frame e.val ||| (x.virtAddr.extractLsb' 0 l.shift).setWidth 64

/-- Level by level the walk follows the architecture, and below the rights `r` it comes to the
same rights. -/
def PwInput.FollowsAll (x : PwInput) :
    List PwLevel → List PagingLevel → List PwSlot → PagingRights → Prop
  | [], [], _, _ => True
  | w :: ws, l :: ls, passed, r => w.Follows x l ∧ ∀ p e,
    if w.isPage e then
      pwRights x ((passed ++ [⟨p, e⟩])[0]?.getD {}) ((passed ++ [⟨p, e⟩])[1]?.getD {})
        (passed ++ [⟨p, e⟩])[2]? (passed ++ [⟨p, e⟩])[3]? = r.inter (l.rights e.val)
    else x.FollowsAll ws ls (passed ++ [⟨p, e⟩]) (r.inter (l.rights e.val))
  | _, _, _, _ => False

variable {x : PwInput} {s : PwState}

theorem PwInput.FollowsAll.descend {ws : List PwLevel} {ls : List PagingLevel}
    {passed : List PwSlot} {r : PagingRights} (follows : x.FollowsAll ws ls passed r)
    (free : x.access.getLsbD 0 = false) (gpa : BitVec 64) :
    (x.descend ws passed gpa s).1.translation =
      (translate (x.entry s.ram) x.permits x.virtAddr ls gpa r).getD .notPresent := by
  induction ws generalizing ls passed r gpa s with
  | nil =>
    cases ls with
    | nil => exact translation_unmapped rfl
    | cons => exact follows.elim
  | cons w ws ih =>
    cases ls with
    | nil => exact follows.elim
    | cons l ls =>
      obtain ⟨m, follows⟩ := follows
      unfold translate
      rw [m.table, ← m.index]
      rcases descend_cases x w ws passed gpa s with
        ⟨none, run⟩ | ⟨e, p, s', found, ram, -, -, run⟩
      · rw [run, none]
        exact translation_unmapped rfl
      have fits := PwInput.entry_fits found
      rw [run, found, Option.bind_some]
      simp only [m.isPage, m.reserved, show e.val.getLsbD 0 = e.present from rfl]
      by_cases present : e.present = true
      swap
      · simp only [present, Bool.not_false, if_true, Option.getD_some]
        exact translation_notPresent free rfl
      by_cases reserved : l.reserved e.val = true
      · simp only [present, reserved, Bool.not_true, Bool.false_eq_true, if_false, Bool.not_false,
          if_true]
        exact translation_violation (BitVec.or_assoc ..)
      simp only [present, reserved, Bool.not_true, Bool.false_eq_true, if_false, Bool.not_false]
      specialize follows (some p) e
      split at follows
      case isTrue isPage =>
        obtain ⟨ok, gpa⟩ := m.page e fits (by simpa using reserved) isPage
        simp only [isPage, if_true, Option.getD_some]
        rw [PwInput.finish, pwFinish_translation x _ ok, follows, gpa]
      case isFalse isPage =>
        simp only [isPage, Bool.false_eq_true, if_false]
        rw [ih follows, ram, pwPhysAddr_eq fits]

/-! ### The levels of each mode -/

section Modes

variable {f : PagingFeatures} {pml4te pdpte : PwSlot}

/-- The walk below the page-directory pointers. -/
theorem followsAll_pd {l l' : PagingLevel} (pd : x.pdStage.Follows x l)
    (pt : x.ptStage.Follows x l') (rights : l.rights = .ofEntry ∧ l'.rights = .ofEntry)
    (small : pwIs1gbPagePdpte pdpte.val = false) :
    x.FollowsAll [x.pdStage, x.ptStage] [l, l'] [pml4te, pdpte] (pwUpperRights x pml4te pdpte) := by
  refine ⟨pd, fun p e => ?_⟩
  rw [rights.1]
  split
  case isTrue big => exact pwRights_big small ⟨p, e⟩ big none
  case isFalse big =>
    refine ⟨pt, fun p' e' => ?_⟩
    rw [rights.2]
    exact pwRights_small small (Bool.not_eq_true _ ▸ big) ⟨p', e'⟩

section Legacy

variable (noPae : x.isPae = false)
include noPae

theorem pt32_follows : x.ptStage.Follows x pt32Level where
  table := rfl
  index := congrArg PwIndices.pte (pwIndices_legacy noPae _ _)
  isPage _ := rfl
  reserved e := by
    show pwAreReservedBitsInPteCleared _ _ _ _ x.isPae = _
    rw [noPae]
    rfl
  page e fits _ _ := ⟨rfl, pwPage_eq fits x.virtAddr⟩

theorem pd32_follows (noLme : x.isLme = false) :
    x.pdStage.Follows x (f.haxm.pd32Level x.isPse) where
  table := rfl
  index := congrArg PwIndices.pde (pwIndices_legacy noPae _ _)
  isPage e := by
    simp only [PwInput.pdStage, noPae, noLme, pwIsBigPagePde_legacy]
    rfl
  reserved e := by simp only [PwInput.pdStage, noPae, noLme, pwPdeCleared_legacy f]
  page e fits clear isPage := by
    simp only [PwInput.pdStage, noPae, noLme, pwIsBigPagePde_legacy] at isPage
    refine ⟨rfl, ?_⟩
    simp only [PwInput.pdStage, PwInput.bigPage, noPae]
    apply pwBigPage_legacy (fits noPae)
    have none : (x.isPse && e.val.getLsbD 7 && anyBit 13 9 e.val) = false := clear
    rwa [isPage, Bool.true_and] at none

end Legacy

section Pae

variable (isPae : x.isPae = true)
  (mask : x.reservedBitsHighMask = pwReservedBitsHighMask f.maxPhyAddr)
include isPae mask

theorem pdAll_pae (small : pwIs1gbPagePdpte pdpte.val = false) :
    x.FollowsAll [x.pdStage, x.ptStage]
      [pdLevel (f.reservedLow x.isNxe x.isLme), ptLevel (f.reservedLow x.isNxe x.isLme)]
      [pml4te, pdpte] (pwUpperRights x pml4te pdpte) := by
  refine followsAll_pd ?_ ?_ ⟨rfl, rfl⟩ small
  · exact {
      table := rfl
      index := congrArg PwIndices.pde (pwIndices_pae isPae _ _)
      isPage := fun e => by
        simp only [PwInput.pdStage, isPae, pwIsBigPagePde_pae]
        rfl
      reserved := fun e => by simp only [PwInput.pdStage, mask, isPae, pwPdeCleared_pae]
      page := fun e _ _ _ => by
        refine ⟨rfl, ?_⟩
        simp only [PwInput.pdStage, PwInput.bigPage, isPae]
        exact pwBigPage_pae e x.virtAddr false }
  · exact {
      table := rfl
      index := congrArg PwIndices.pte (pwIndices_pae isPae _ _)
      isPage := fun _ => rfl
      reserved := fun e => by simp only [PwInput.ptStage, mask, isPae, pwPteCleared_pae]
      page := fun e fits _ _ => ⟨rfl, pwPage_eq fits x.virtAddr⟩ }

/-- The walk below a PML4 entry, or below CR3 in 32-bit mode. -/
theorem pdptAll {l : PagingLevel} {r : PagingRights} (pdpt : x.pdptStage.Follows x l)
    (rights : ∀ e p, r.inter (l.rights e) = pwUpperRights x pml4te ⟨p, ⟨e⟩⟩) :
    x.FollowsAll [x.pdptStage, x.pdStage, x.ptStage] [l, pdLevel (f.reservedLow x.isNxe x.isLme),
      ptLevel (f.reservedLow x.isNxe x.isLme)] [pml4te] r := by
  refine ⟨pdpt, fun p e => ?_⟩
  rw [rights e.val p]
  split
  case isTrue huge => exact pwRights_huge ⟨p, e⟩ huge none none
  case isFalse small => exact pdAll_pae isPae mask (Bool.not_eq_true _ ▸ small)

theorem pdpt_follows (lme : x.isLme = true) :
    x.pdptStage.Follows x (f.haxm.pdptLevel x.isNxe) where
  table := rfl
  index :=
    (congrArg PwIndices.pdpte (pwIndices_pae isPae x.virtAddr x.isLme)).trans (by rw [lme]; rfl)
  isPage _ := rfl
  reserved e := by simp only [PwInput.pdptStage, mask, lme, pwPdpteCleared_long]
  page e _ _ _ := ⟨rfl, by
    simp only [PwInput.pdptStage, PwInput.bigPage, isPae]
    exact pwBigPage_pae e x.virtAddr true⟩

theorem paePdpt_follows (noLme : x.isLme = false) :
    x.pdptStage.Follows x (f.haxm.paePdptLevel .none) where
  table := rfl
  index :=
    (congrArg PwIndices.pdpte (pwIndices_pae isPae x.virtAddr x.isLme)).trans (by rw [noLme]; rfl)
  isPage _ := rfl
  reserved e := by simp only [PwInput.pdptStage, mask, noLme, pwPdpteCleared_pae]
  page e _ _ _ := ⟨rfl, by
    simp only [PwInput.pdptStage, PwInput.bigPage, isPae]
    exact pwBigPage_pae e x.virtAddr true⟩

end Pae

theorem PwInput.firstTable_eq (x : PwInput) : x.firstTable = x.root .none := by
  have page : ~~~ (1#64 <<< 12 - 1) = ~~~ (0xfff : BitVec 64) := by decide
  have line : ~~~ (1#64 <<< 5 - 1) = ~~~ (0x1f : BitVec 64) := by decide
  unfold firstTable pwRetrieveTableFromCr3 root alignBackward
  rw [page, line]
  cases x.isPae <;> cases x.isLme <;> rfl

theorem PwInput.PagingEnabled.followsAll (ok : x.PagingEnabled)
    (mask : x.reservedBitsHighMask = pwReservedBitsHighMask f.maxPhyAddr) :
    x.FollowsAll x.stages (x.levels f.haxm .none) x.above {} := by
  unfold stages levels above
  cases isPae : x.isPae with
  | true =>
    cases lme : x.isLme with
    | true =>
      refine ⟨⟨rfl, ?_, fun _ => rfl, fun e => ?_, fun _ _ _ => nofun⟩, fun p e => ?_⟩
      · have index := congrArg PwIndices.pml4te (pwIndices_pae isPae x.virtAddr x.isLme)
        exact index.trans (by rw [lme]; rfl)
      · simp only [pml4Stage, mask, pwPml4teCleared_eq]
      · have all : x.FollowsAll _ _ [⟨p, e⟩] (.ofEntry e.val) :=
          pdptAll isPae mask (pdpt_follows isPae mask lme) fun e' p' => by
            simp [pwUpperRights, lme, PagingFeatures.pdptLevel]
        rw [lme] at all
        exact all
    | false =>
      have all : x.FollowsAll _ _ [{}] {} :=
        pdptAll isPae mask (paePdpt_follows isPae mask lme) fun e p => by
          rw [pwUpperRights, lme]
          rfl
      rw [lme] at all
      exact all
  | false =>
    have noLme : x.isLme = false := by
      cases lme : x.isLme with
      | false => rfl
      | true => cases isPae.symm.trans (ok.isPae lme)
    have all : x.FollowsAll _ _ [{}, {}] _ :=
      followsAll_pd (pd32_follows (f := f) isPae noLme) (pt32_follows isPae) ⟨rfl, rfl⟩ rfl
    unfold pwUpperRights at all
    rw [noLme] at all
    exact all

end Modes

/-- The walker translates as a processor with its own rules does. -/
theorem pwPerformPageWalk_translation (f : PagingFeatures) (x : PwInput) (ram : PwRam)
    (ok : x.PagingEnabled) (mask : x.reservedBitsHighMask = pwReservedBitsHighMask f.maxPhyAddr)
    (free : x.access.getLsbD 0 = false) :
    (pwPerformPageWalk x ram).1.translation =
      (x.translation f.haxm .none ram).getD .notPresent := by
  rw [pwPerformPageWalk_eq]
  unfold PwInput.translation
  rw [← x.firstTable_eq]
  exact (ok.followsAll mask).descend free x.firstTable

end Haxm
