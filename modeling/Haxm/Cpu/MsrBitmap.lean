/-
# The MSR bitmaps

`set_msr_access` opens and closes ranges of MSRs in a page of four bitmaps: one
for reads and one for writes of the low MSRs and of those from 0xc0000000 on. The
page permits what the last call for an MSR granted. `btr` and `bts` address a bit
by its byte, but the instructions they use access an operand of eight bytes from
there on. For the last bytes of the page that is more than the page has.
-/

import Mathlib.Data.List.Induction
import Mathlib.Data.Nat.Bitwise

namespace Haxm

/-- The bits of each byte from an address on, and where the bit instructions accessed them. -/
structure BitmapPage where
  bit : ℕ → ℕ → Bool
  accesses : List ℕ

namespace BitmapPage

/-- The page after `hax_set_page`. -/
def allOnes : BitmapPage := ⟨fun _ _ => true, []⟩

/-- `btr` clears a bit and `bts` sets it. -/
def put (v : Bool) (addr bit : ℕ) (p : BitmapPage) : BitmapPage where
  bit b i := if b = addr + bit / 8 ∧ i = bit % 8 then v else p.bit b i
  accesses := (addr + bit / 8) :: p.accesses

/-- The size of the operand of BTR and BTS with a 64-bit register. -/
def operandBytes : ℕ := 8

/-- No byte after the page was accessed. -/
def Inside (p : BitmapPage) : Prop := ∀ base ∈ p.accesses, base + operandBytes ≤ 4096

end BitmapPage

/-- The arguments of `set_msr_access`. -/
structure MsrRange where
  start : BitVec 32
  count : BitVec 32
  read : Bool
  write : Bool

namespace MsrRange

variable (m : MsrRange)

def last : BitVec 32 := m.start + m.count - 1

/-- The assertions of `set_msr_access`, and a sensible number of MSRs. -/
structure Valid : Prop where
  half : (m.start ^^^ m.start <<< 1) &&& 0x80000000 = 0
  low : m.start &&& 0x3fffe000 = 0
  same : (m.start ^^^ m.last) &&& 0xffffe000 = 0
  pos : 1 ≤ m.count
  le : m.count ≤ 0x2000

def readBase : ℕ := if m.start.getLsbD 31 then 1024 else 0

def writeBase : ℕ := m.readBase + 2048

/-- A round of the loop. A clear bit means that the access is allowed. -/
def setBit (p : BitmapPage) (bit : ℕ) : BitmapPage :=
  (p.put (!m.read) m.readBase bit).put (!m.write) m.writeBase bit

def bits : List ℕ :=
  let first := (m.start &&& 0x1fff).toNat
  List.range' first ((m.last &&& 0x1fff).toNat + 1 - first)

end MsrRange

def setMsrAccess (p : BitmapPage) (m : MsrRange) : BitmapPage := m.bits.foldl m.setBit p

/-! ## The layout of the page -/

/-- The addresses of the low (`j = 0`) and of the high (`j = 1`) MSRs. -/
def msrAddress (j : Fin 2) (k : Fin 8192) : BitVec 32 := .ofNat 32 (0xc0000000 * j + k)

def rdmsrPermitted (p : BitmapPage) (j : Fin 2) (k : Fin 8192) : Bool :=
  !p.bit (1024 * j + k / 8) (k % 8)

def wrmsrPermitted (p : BitmapPage) (j : Fin 2) (k : Fin 8192) : Bool :=
  !p.bit (2048 + 1024 * j + k / 8) (k % 8)

def lastRange (calls : List MsrRange) (a : BitVec 32) : Option MsrRange :=
  calls.reverse.find? fun m => m.start ≤ a ∧ a ≤ m.last

/-- The page permits what the last call for each MSR granted. -/
def Grants (calls : List MsrRange) (p : BitmapPage) : Prop :=
  ∀ j k, rdmsrPermitted p j k = (lastRange calls (msrAddress j k)).any (·.read) ∧
    wrmsrPermitted p j k = (lastRange calls (msrAddress j k)).any (·.write)

/-! ## One call -/

section Calls

variable {m : MsrRange} {p : BitmapPage} {bits : List ℕ} {calls : List MsrRange}

theorem bit_foldl (small : ∀ b ∈ bits, b < 8192) {h i k : ℕ} (base : m.readBase = 1024 * h)
    (hk : k < 8192) : (bits.foldl m.setBit p).bit (1024 * i + k / 8) (k % 8) =
      if k ∈ bits ∧ i = h + 2 then !m.write
      else if k ∈ bits ∧ i = h then !m.read else p.bit (1024 * i + k / 8) (k % 8) := by
  induction bits generalizing p with
  | nil => simp
  | cons b bits ih =>
    have hb := small b (.head _)
    have place (h : ℕ) : 1024 * i + k / 8 = 1024 * h + b / 8 ∧ k % 8 = b % 8 ↔ k = b ∧ i = h := by
      omega
    rw [List.foldl_cons, ih fun b h => small b (.tail _ h)]
    simp only [MsrRange.setBit, BitmapPage.put, MsrRange.writeBase, base,
      show 1024 * h + 2048 = 1024 * (h + 2) by omega, place, List.mem_cons]
    grind

theorem inside_foldl : (bits.foldl m.setBit p).Inside ↔
    p.Inside ∧ ∀ b ∈ bits, m.writeBase + b / 8 + BitmapPage.operandBytes ≤ 4096 := by
  induction bits generalizing p with
  | nil => simp
  | cons b bits ih =>
    have le : m.readBase ≤ m.writeBase := Nat.le_add_right _ _
    rw [List.foldl_cons, ih]
    simp only [BitmapPage.Inside, MsrRange.setBit, BitmapPage.put, List.forall_mem_cons]
    constructor
    · exact fun ⟨⟨write, _, old⟩, rest⟩ => ⟨old, write, rest⟩
    · exact fun ⟨old, write, rest⟩ => ⟨⟨write, by omega, old⟩, rest⟩

/-- A valid range lies in one of the two bitmaps. -/
theorem MsrRange.Valid.placed (valid : m.Valid) : ∃ h : Fin 2, ∃ first last : Fin 8192,
    m.start.toNat = 0xc0000000 * h + first ∧ m.last.toNat = 0xc0000000 * h + last ∧
      first ≤ last ∧ m.readBase = 1024 * h ∧ ∀ k, k ∈ m.bits ↔ first ≤ k ∧ k ≤ last := by
  have field {x mask : BitVec 32} (n : ℕ) (clear : x &&& mask = 0)
      (ones : mask.toNat >>> 13 = 2 ^ n - 1) : x.toNat >>> 13 % 2 ^ n = 0 := by
    have shifted := congrArg (fun x => x.toNat >>> 13) clear
    rwa [BitVec.toNat_and, Nat.shiftRight_and_distrib, ones, Nat.and_two_pow_sub_one_eq_mod]
      at shifted
  have same : m.start.toNat >>> 13 = m.last.toNat >>> 13 := by
    have differ := field 19 valid.same rfl
    rw [Nat.mod_eq_of_lt (by omega), BitVec.toNat_xor, Nat.shiftRight_xor_distrib] at differ
    exact Nat.xor_eq_zero_iff.1 differ
  have low := field 17 valid.low rfl
  have top : m.start.getLsbD 31 = m.start.getLsbD 30 := by
    simpa using congrArg (fun x => x.getLsbD 31) valid.half
  have pos : 1 ≤ m.count.toNat := valid.pos
  have le : m.count.toNat ≤ 0x2000 := valid.le
  have last : m.last.toNat = (2 ^ 32 - 1 + (m.start.toNat + m.count.toNat) % 2 ^ 32) % 2 ^ 32 := by
    rw [MsrRange.last, BitVec.toNat_sub, BitVec.toNat_add]
    rfl
  have lowBits (x : BitVec 32) : (x &&& 0x1fff).toNat = x.toNat % 8192 :=
    (BitVec.toNat_and _ _).trans (Nat.and_two_pow_sub_one_eq_mod _ 13)
  have member (k : ℕ) : k ∈ m.bits ↔ m.start.toNat % 8192 ≤ k ∧ k ≤ m.last.toNat % 8192 := by
    rw [MsrRange.bits, lowBits, lowBits, List.mem_range'_1]
    omega
  unfold readBase
  simp only [BitVec.getLsbD, Nat.testBit_eq_decide_div_mod_eq, decide_eq_decide,
    decide_eq_true_eq] at top ⊢
  refine ⟨if m.start.toNat / 2 ^ 31 % 2 = 1 then 1 else 0, .ofNat 8192 m.start.toNat,
    .ofNat 8192 m.last.toNat, ?_⟩
  have le : m.start.toNat % 8192 ≤ m.last.toNat % 8192 := by omega
  split <;> exact ⟨by simp; omega, by simp; omega, le, rfl, member⟩

theorem grants_setMsrAccess (valid : m.Valid) (grants : Grants calls p) :
    Grants (calls ++ [m]) (setMsrAccess p m) := by
  intro j k
  obtain ⟨h, first, last, hfirst, hlast, le, base, bits⟩ := valid.placed
  have address : (msrAddress j k).toNat = 0xc0000000 * j + k := by
    rw [msrAddress, BitVec.toNat_ofNat]
    omega
  have contains : m.start ≤ msrAddress j k ∧ msrAddress j k ≤ m.last ↔
      (k : ℕ) ∈ m.bits ∧ (j : ℕ) = h := by
    rw [BitVec.le_def, BitVec.le_def, bits]
    omega
  have found : lastRange (calls ++ [m]) (msrAddress j k) =
      if (k : ℕ) ∈ m.bits ∧ (j : ℕ) = h then some m else lastRange calls (msrAddress j k) := by
    simp only [lastRange, contains, List.reverse_append, List.reverse_singleton,
      List.singleton_append, List.find?_cons]
    split <;> simp_all
  have small : ∀ b ∈ m.bits, b < 8192 := fun b hb => ((bits b).1 hb).2.trans_lt last.isLt
  have bit := fun i => @bit_foldl m p m.bits small h i k base k.isLt
  have other : (j : ℕ) ≠ h + 2 ∧ (j : ℕ) + 2 ≠ h := by omega
  rw [found, rdmsrPermitted, wrmsrPermitted, setMsrAccess,
    show 2048 + 1024 * (j : ℕ) = 1024 * (j + 2) by omega, bit, bit]
  have old := grants j k
  rw [rdmsrPermitted, wrmsrPermitted, show 2048 + 1024 * (j : ℕ) = 1024 * (j + 2) by omega] at old
  grind

theorem inside_setMsrAccess (valid : m.Valid) :
    (setMsrAccess p m).Inside ↔ p.Inside ∧ m.last < 0xc0001fc8 := by
  obtain ⟨h, first, last, -, hlast, le, base, bits⟩ := valid.placed
  have bound : m.last < 0xc0001fc8 ↔ (0xc0000000 * h + last : ℕ) < 0xc0001fc8 := by
    rw [BitVec.lt_def, hlast]
    rfl
  rw [setMsrAccess, inside_foldl, bound, MsrRange.writeBase, base, BitmapPage.operandBytes]
  refine and_congr_right fun _ => ⟨fun inside => ?_, fun small b hb => ?_⟩
  · have := inside last ((bits _).2 ⟨le, le_rfl⟩)
    omega
  · have := (bits b).1 hb
    omega

/-- For every sequence of calls: the page permits exactly what was granted, and nothing outside of
it is accessed, if and only if no range goes as far as the MSRs of the last seven bytes. -/
theorem msrBitmap_exact_iff (calls : List MsrRange) (valid : ∀ m ∈ calls, m.Valid) :
    Grants calls (calls.foldl setMsrAccess .allOnes) ∧ (calls.foldl setMsrAccess .allOnes).Inside ↔
      ∀ m ∈ calls, m.last < 0xc0001fc8 := by
  suffices all : Grants calls (calls.foldl setMsrAccess .allOnes) ∧
      ((calls.foldl setMsrAccess .allOnes).Inside ↔ ∀ m ∈ calls, m.last < 0xc0001fc8) from
    (and_iff_right all.1).trans all.2
  induction calls using List.reverseRecOn with
  | nil => simp [BitmapPage.Inside, BitmapPage.allOnes, Grants, rdmsrPermitted, wrmsrPermitted,
      lastRange]
  | append_singleton calls m ih =>
    obtain ⟨grants, inside⟩ := ih fun c h => valid c (by simp [h])
    have valid := valid m (by simp)
    rw [List.foldl_append]
    refine ⟨grants_setMsrAccess valid grants, (inside_setMsrAccess valid).trans ?_⟩
    simp [inside, or_imp, forall_and]

/-- The MSRs that `hax_vmx_init` opens. -/
theorem msrBitmap_exact_star :
    Grants [⟨0xc0000081, 4, true, true⟩] (setMsrAccess .allOnes ⟨0xc0000081, 4, true, true⟩) ∧
      (setMsrAccess .allOnes ⟨0xc0000081, 4, true, true⟩).Inside :=
  (msrBitmap_exact_iff [⟨0xc0000081, 4, true, true⟩] (by
    simp only [List.forall_mem_singleton]
    constructor <;> decide)).2 (by decide)

/-- The bit of the last MSR, in the last byte of the page. -/
theorem not_inside_last : MsrRange.Valid ⟨0xc0001fff, 1, true, true⟩ ∧
    ¬ (setMsrAccess .allOnes ⟨0xc0001fff, 1, true, true⟩).Inside := by
  refine ⟨by constructor <;> decide, fun inside => ?_⟩
  exact absurd (inside 4095 (by decide)) (by decide)

end Calls

end Haxm
