/-
# Fast operations

Most instructions are carried out by an instruction of the host: a stub of
`emulate_ops.asm` for each operation and operand size. `fastop_dispatch` loads
the operands and the arithmetic flags, calls the stub and stores what it leaves.
What the instructions do is said in the Intel SDM, volume 2. Flags that the
manual leaves undefined are up to the host.
-/

import Mathlib.Algebra.Group.Nat.Defs
import Haxm.Emulate.Decode

namespace Haxm

/-! ## Flags -/

/-- The arithmetic flags. -/
structure ArithFlags where
  cf : Bool
  pf : Bool
  af : Bool
  zf : Bool
  sf : Bool
  of : Bool
  deriving DecidableEq, Repr

/-- `RFLAGS_MASK_OSZAPC`. -/
def rflagsMaskOszapc : BitVec 64 := 0x8d5

def rflagsZf (rflags : BitVec 64) : Bool := rflags.getLsbD 6
def rflagsDf (rflags : BitVec 64) : Bool := rflags.getLsbD 10

def ArithFlags.ofRflags (rflags : BitVec 64) : ArithFlags where
  cf := rflags.getLsbD 0
  pf := rflags.getLsbD 2
  af := rflags.getLsbD 4
  zf := rflags.getLsbD 6
  sf := rflags.getLsbD 7
  of := rflags.getLsbD 11

def ArithFlags.toBits (f : ArithFlags) : BitVec 64 :=
  (if f.cf then 1 else 0) ||| (if f.pf then 4 else 0) ||| (if f.af then 0x10 else 0) |||
    (if f.zf then 0x40 else 0) ||| (if f.sf then 0x80 else 0) ||| (if f.of then 0x800 else 0)

/-- The arithmetic flags of `rflags` are replaced. -/
def setArith (rflags : BitVec 64) (f : ArithFlags) : BitVec 64 :=
  rflags &&& ~~~rflagsMaskOszapc ||| f.toBits

/-- A flag alone in a word. -/
theorem getLsbD_flag (b : Bool) (v : BitVec 64) (n : ℕ) :
    (if b then v else 0).getLsbD n = (b && v.getLsbD n) := by
  cases b <;> simp

theorem ofRflags_setArith (rflags : BitVec 64) (f : ArithFlags) :
    ArithFlags.ofRflags (setArith rflags f) = f := by
  unfold ArithFlags.ofRflags setArith ArithFlags.toBits
  simp only [BitVec.getLsbD_or, BitVec.getLsbD_and, BitVec.getLsbD_not, getLsbD_flag,
    rflagsMaskOszapc]
  simp

theorem toBits_and (f : ArithFlags) : f.toBits &&& ~~~rflagsMaskOszapc = 0#64 := by
  have flag (b : Bool) (v : BitVec 64) (inside : v &&& ~~~rflagsMaskOszapc = 0#64) :
      (if b then v else 0) &&& ~~~rflagsMaskOszapc = 0#64 := by
    cases b
    · exact BitVec.zero_and
    · exact inside
  unfold ArithFlags.toBits
  simp only [BitVec.and_or_distrib_right]
  rw [flag, flag, flag, flag, flag, flag] <;> rfl

/-- The other flags stay. -/
theorem setArith_other (rflags : BitVec 64) (f : ArithFlags) :
    setArith rflags f &&& ~~~rflagsMaskOszapc = rflags &&& ~~~rflagsMaskOszapc := by
  unfold setArith
  rw [BitVec.and_or_distrib_right, toBits_and, BitVec.or_zero, BitVec.and_assoc, BitVec.and_self]

/-! ## Instructions of the host -/

section Alu

variable {w : ℕ} (d s : BitVec w)

/-- The low byte has an even number of ones. -/
def evenParity (r : BitVec w) : Bool :=
  !(List.range 8).foldl (fun odd i => odd ^^ r.getLsbD i) false

/-- The flags of `d + s + carry`. -/
def addFlags (carry : Bool) : ArithFlags :=
  let r := d + s + (BitVec.ofBool carry).setWidth w
  { cf := 2 ^ w ≤ d.toNat + s.toNat + carry.toNat
    pf := evenParity r
    af := 16 ≤ d.toNat % 16 + s.toNat % 16 + carry.toNat
    zf := r = 0
    sf := r.msb
    of := d.msb = s.msb ∧ r.msb ≠ d.msb }

/-- The flags of `d - s - borrow`. -/
def subFlags (borrow : Bool) : ArithFlags :=
  let r := d - s - (BitVec.ofBool borrow).setWidth w
  { cf := d.toNat < s.toNat + borrow.toNat
    pf := evenParity r
    af := d.toNat % 16 < s.toNat % 16 + borrow.toNat
    zf := r = 0
    sf := r.msb
    of := d.msb ≠ s.msb ∧ r.msb ≠ d.msb }

variable (u : ArithFlags)

/-- The flags of a logical operation. AF is undefined. -/
def logicFlags (r : BitVec w) : ArithFlags where
  cf := false
  pf := evenParity r
  af := u.af
  zf := r = 0
  sf := r.msb
  of := false

/-- The flags of a bit test. ZF stays, and all but CF are undefined. -/
def bitFlags (f : ArithFlags) (bit : Bool) : ArithFlags := { u with cf := bit, zf := f.zf }

/-- What an instruction leaves in its destination, if it writes there, and in the flags. Undefined
flags are those of `u`. -/
def hostInstruction (h : Handler) (f : ArithFlags) : Option (BitVec w) × ArithFlags :=
  let bit := s.toNat % w
  match h with
  | .add => (some (d + s), addFlags d s false)
  | .or => (some (d ||| s), logicFlags u (d ||| s))
  | .adc => (some (d + s + (BitVec.ofBool f.cf).setWidth w), addFlags d s f.cf)
  | .sbb => (some (d - s - (BitVec.ofBool f.cf).setWidth w), subFlags d s f.cf)
  | .and => (some (d &&& s), logicFlags u (d &&& s))
  | .sub => (some (d - s), subFlags d s false)
  | .xor => (some (d ^^^ s), logicFlags u (d ^^^ s))
  | .cmp => (none, subFlags d s false)
  | .test => (none, logicFlags u (d &&& s))
  | .not => (some (~~~d), f)
  | .neg => (some (-d), subFlags 0 d false)
  | .inc => (some (d + 1), { addFlags d 1 false with cf := f.cf })
  | .dec => (some (d - 1), { subFlags d 1 false with cf := f.cf })
  | .bt => (none, bitFlags u f (d.getLsbD bit))
  | .bts => (some (d ||| 1#w <<< bit), bitFlags u f (d.getLsbD bit))
  | .btr => (some (d &&& ~~~(1#w <<< bit)), bitFlags u f (d.getLsbD bit))
  | .btc => (some (d ^^^ 1#w <<< bit), bitFlags u f (d.getLsbD bit))
  | _ => (none, f)

end Alu

/-- The stub at `FASTOP_OFFSET(size)`: the width of its operands. -/
def fastopWidth (size : ℕ) : ℕ :=
  if size = 8 then 64 else if size = 4 then 32 else if size = 2 then 16 else 8

/-- The stubs `fastop2w`, which have no variant for bytes. -/
def Handler.isBitTest (h : Handler) : Bool := h = .bt || h = .bts || h = .btr || h = .btc

/-- `fastop_dispatch`: the new value of `*dst` and the flags. -/
def fastopDispatch (undefined : ArithFlags) (h : Handler) (size : ℕ) (dst src1 : BitVec 64)
    (f : ArithFlags) : BitVec 64 × ArithFlags :=
  let w := fastopWidth size
  if w = 8 ∧ h.isBitTest then (dst, f)
  else
    match hostInstruction (dst.setWidth w) (src1.setWidth w) undefined h f with
    | (none, f) => (dst, f)
    -- a 32-bit result clears the upper half of the register
    | (some r, f) => (if w = 32 then r.setWidth 64 else putBytes 0 (w / 8) (r.setWidth 64) dst, f)

end Haxm
