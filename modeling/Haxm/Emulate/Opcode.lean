/-
# The opcode tables

What the instruction emulator knows of an opcode: the handler that carries the
instruction out, the decoders of its operands, and flags. An opcode whose
meaning depends on the ModRM byte refers to a group of eight such entries. The
tables are those of `emulate.c`, in the same order; `em_xchg`, which no table
refers to, is left out.
-/

import Mathlib.Tactic.Common

namespace Haxm

/-! ## Entries -/

/-- The handlers: first those of `emulate_ops.asm`, then the soft ones. -/
inductive Handler
  | add | or | adc | sbb | and | sub | xor | cmp | test | not | neg | inc | dec
  | bt | bts | btr | btc
  | andnSoft | bextrSoft | mov | movzx | movsx | push | pop
  deriving DecidableEq, Repr

/-- The functions `decode_op_*`. -/
inductive OpDecoder
  | none | modrmReg | modrmRm | modrmRm8 | modrmRm16 | vexReg | opcReg | moffs | simm | simm8
  | acc | di | si
  deriving DecidableEq, Repr

inductive OpcodeGroup
  | group1 | group1A | group3 | group5 | group8 | group11
  deriving DecidableEq, Repr

/-- The union of `handler` and `group`. -/
inductive OpcodeTarget
  | null
  | handler (h : Handler)
  | group (g : OpcodeGroup)
  deriving DecidableEq, Repr

/-- `em_opcode_t`. A missing decoder is a null pointer. -/
structure EmOpcode where
  target : OpcodeTarget := .null
  decodeDst : Option OpDecoder := none
  decodeSrc1 : Option OpDecoder := none
  decodeSrc2 : Option OpDecoder := none
  flags : BitVec 64 := 0
  deriving DecidableEq, Repr

def insnDstNr : BitVec 64 := 1 <<< 0
def insnDstNw : BitVec 64 := 1 <<< 1
def insnModrm : BitVec 64 := 1 <<< 2
def insnByteop : BitVec 64 := 1 <<< 3
def insnGroup : BitVec 64 := 1 <<< 4
def insnRep : BitVec 64 := 1 <<< 5
def insnRepx : BitVec 64 := 1 <<< 6
def insnNoflags : BitVec 64 := 1 <<< 7
def insnTwomem : BitVec 64 := 1 <<< 8
def insnBitop : BitVec 64 := 1 <<< 9
def insnStack : BitVec 64 := 1 <<< 10
def insnString : BitVec 64 := insnRep ||| insnRepx
def insnNotimpl : BitVec 64 := 1 <<< 32
def insnFastop : BitVec 64 := 1 <<< 33

/-- One of the flags of `mask` is set. -/
def EmOpcode.has (o : EmOpcode) (mask : BitVec 64) : Bool := o.flags &&& mask != 0

/-! ## The macros that build entries -/

/-- `N`. -/
def opN : EmOpcode := { flags := insnNotimpl }

/-- `I`. -/
def opI (h : Handler) (dst src1 src2 : OpDecoder) (flags : BitVec 64) : EmOpcode where
  target := .handler h
  decodeDst := dst
  decodeSrc1 := src1
  decodeSrc2 := src2
  flags := flags

/-- `G`. -/
def opG (g : OpcodeGroup) (dst src1 src2 : OpDecoder) (flags : BitVec 64) : EmOpcode where
  target := .group g
  decodeDst := dst
  decodeSrc1 := src1
  decodeSrc2 := src2
  flags := flags ||| insnGroup ||| insnModrm

/-- `F`. -/
def opF (h : Handler) (dst src1 src2 : OpDecoder) (flags : BitVec 64) : EmOpcode :=
  opI h dst src1 src2 (flags ||| insnFastop)

/-- `I2_BV`. -/
def opI2Bv (h : Handler) (dst src1 src2 : OpDecoder) (flags : BitVec 64) : List EmOpcode :=
  [opI h dst src1 src2 (flags ||| insnByteop), opI h dst src1 src2 flags]

/-- `F2_BV`. -/
def opF2Bv (h : Handler) (dst src1 src2 : OpDecoder) (flags : BitVec 64) : List EmOpcode :=
  [opF h dst src1 src2 (flags ||| insnByteop), opF h dst src1 src2 flags]

/-- `F6_ALU`. -/
def opF6Alu (h : Handler) (flags : BitVec 64) : List EmOpcode :=
  opF2Bv h .modrmRm .modrmReg .none (flags ||| insnModrm) ++
    opF2Bv h .modrmReg .modrmRm .none (flags ||| insnModrm) ++
    opF2Bv h .acc .simm .none flags

/-- `X2(N)` and so on. -/
def xN (n : ℕ) : List EmOpcode := List.replicate n opN

/-! ## Groups -/

def opcodeGroup1 : List EmOpcode :=
  [opF .add .none .none .none 0, opF .or .none .none .none 0, opF .adc .none .none .none 0,
    opF .sbb .none .none .none 0, opF .and .none .none .none 0, opF .sub .none .none .none 0,
    opF .xor .none .none .none 0, opF .cmp .none .none .none 0]

def opcodeGroup3 : List EmOpcode :=
  [opF .test .modrmRm .simm .none insnDstNw, opF .test .modrmRm .simm .none insnDstNw,
    opF .not .modrmRm .none .none 0, opF .neg .modrmRm .none .none 0, {}, {}, {}, {}]

def opcodeGroup5 : List EmOpcode :=
  xN 4 ++ xN 2 ++ [opI .push .none .modrmRm .none (insnTwomem ||| insnStack)] ++ xN 1

def opcodeGroup8 : List EmOpcode :=
  xN 4 ++ [opF .bt .none .none .none 0, opF .bts .none .none .none 0,
    opF .btr .none .none .none 0, opF .btc .none .none .none 0]

def opcodeGroup11 : List EmOpcode :=
  opI .mov .none .none .none insnDstNr :: List.replicate 7 {}

def opcodeGroup1A : List EmOpcode :=
  opI .pop .modrmRm .none .none (insnDstNr ||| insnTwomem ||| insnStack) :: List.replicate 7 {}

def OpcodeGroup.table : OpcodeGroup → List EmOpcode
  | .group1 => opcodeGroup1
  | .group1A => opcodeGroup1A
  | .group3 => opcodeGroup3
  | .group5 => opcodeGroup5
  | .group8 => opcodeGroup8
  | .group11 => opcodeGroup11

/-! ## Tables -/

def opcodeTable : List EmOpcode := List.flatten [
  -- 0x00 - 0x3F
  opF6Alu .add 0, xN 2,
  opF6Alu .or 0, xN 2,
  opF6Alu .adc 0, xN 2,
  opF6Alu .sbb 0, xN 2,
  opF6Alu .and 0, xN 2,
  opF6Alu .sub 0, xN 2,
  opF6Alu .xor 0, xN 2,
  opF6Alu .cmp insnDstNw, xN 2,
  -- 0x40 - 0x4F
  List.replicate 8 (opF .inc .modrmReg .none .none 0),
  List.replicate 8 (opF .dec .modrmReg .none .none 0),
  -- 0x50 - 0x5F
  List.replicate 8 (opI .push .none .opcReg .none insnStack),
  List.replicate 8 (opI .pop .opcReg .none .none insnStack),
  -- 0x60 - 0x7F
  xN 16, xN 16,
  -- 0x80 - 0x8F
  [opG .group1 .modrmRm .simm .none insnByteop],
  [opG .group1 .modrmRm .simm .none 0],
  [opG .group1 .modrmRm .simm .none insnByteop],
  [opG .group1 .modrmRm .simm8 .none 0],
  opF2Bv .test .modrmRm .modrmReg .none (insnModrm ||| insnDstNw),
  xN 2,
  opI2Bv .mov .modrmRm .modrmReg .none (insnModrm ||| insnDstNr),
  opI2Bv .mov .modrmReg .modrmRm .none (insnModrm ||| insnDstNr),
  xN 3,
  [opG .group1A .none .none .none 0],
  -- 0x90 - 0x9F
  xN 16,
  -- 0xA0 - 0xAF
  opI2Bv .mov .acc .moffs .none insnDstNr,
  opI2Bv .mov .moffs .acc .none insnDstNr,
  opI2Bv .mov .di .si .none (insnDstNr ||| insnRep ||| insnTwomem),
  opF2Bv .cmp .di .si .none (insnDstNw ||| insnRepx ||| insnTwomem),
  xN 2,
  opI2Bv .mov .di .acc .none (insnDstNr ||| insnRep),
  opI2Bv .mov .acc .si .none (insnDstNr ||| insnRep),
  xN 2,
  -- 0xB0 - 0xBF
  xN 16,
  -- 0xC0 - 0xCF
  xN 4,
  xN 2,
  [opG .group11 .modrmRm .simm .none insnByteop],
  [opG .group11 .modrmRm .simm .none 0],
  xN 8,
  -- 0xD0 - 0xEF
  xN 16, xN 16,
  -- 0xF0 - 0xFF
  xN 4,
  xN 2,
  [opG .group3 .none .none .none insnByteop],
  [opG .group3 .none .none .none 0],
  xN 4,
  xN 2,
  xN 1,
  [opG .group5 .none .none .none 0]]

def opcodeTable0F : List EmOpcode := List.flatten [
  -- 0x00 - 0x9F
  xN 160,
  -- 0xA0 - 0xAF
  xN 3,
  [opF .bt .modrmRm .modrmReg .none (insnModrm ||| insnBitop)],
  xN 7,
  [opF .bts .modrmRm .modrmReg .none (insnModrm ||| insnBitop)],
  xN 4,
  -- 0xB0 - 0xBF
  xN 3,
  [opF .btr .modrmRm .modrmReg .none (insnModrm ||| insnBitop)],
  xN 2,
  [opI .movzx .modrmReg .modrmRm8 .none (insnModrm ||| insnDstNr)],
  [opI .movzx .modrmReg .modrmRm16 .none (insnModrm ||| insnDstNr)],
  xN 2,
  [opG .group8 .modrmRm .simm8 .none insnBitop],
  [opF .btc .modrmRm .modrmReg .none (insnModrm ||| insnBitop)],
  xN 2,
  [opI .movsx .modrmReg .modrmRm8 .none (insnModrm ||| insnDstNr)],
  [opI .movsx .modrmReg .modrmRm16 .none (insnModrm ||| insnDstNr)],
  -- 0xC0 - 0xFF
  xN 64]

def opcodeTable0F38 : List EmOpcode := List.flatten [
  -- 0x00 - 0xEF
  xN 240,
  -- 0xF0 - 0xFF
  xN 2,
  [opI .andnSoft .modrmReg .vexReg .modrmRm insnModrm],
  xN 4,
  [opI .bextrSoft .modrmReg .modrmRm .vexReg insnModrm],
  xN 8]

def opcodeTable0F3A : List EmOpcode := xN 256

/-- The four opcode maps. -/
inductive OpcodeMap
  | oneByte | map0F | map0F38 | map0F3A
  deriving DecidableEq, Repr

def OpcodeMap.table : OpcodeMap → List EmOpcode
  | .oneByte => opcodeTable
  | .map0F => opcodeTable0F
  | .map0F38 => opcodeTable0F38
  | .map0F3A => opcodeTable0F3A

/-- No byte is outside a table, and no ModRM byte outside a group. -/
theorem OpcodeMap.length_table (m : OpcodeMap) : m.table.length = 256 := by
  cases m <;> decide +kernel

/-- The entry of a byte. -/
def OpcodeMap.entry (m : OpcodeMap) (b : BitVec 8) : EmOpcode := m.table.getD b.toNat opN

/-- The entry of the field `opc` of a ModRM byte. -/
def OpcodeGroup.entry (g : OpcodeGroup) (opc : BitVec 3) : EmOpcode := g.table.getD opc.toNat opN

/-- What holds of every entry and its index in one pass over the table. -/
theorem OpcodeMap.entry_of_all (m : OpcodeMap) {P : EmOpcode → ℕ → Bool}
    (all : (m.table.zipIdx.all fun e => P e.1 e.2) = true) (b : BitVec 8) :
    P (m.entry b) b.toNat = true := by
  have inside : b.toNat < m.table.length := by
    rw [m.length_table]
    exact b.isLt
  rw [List.all_eq_true] at all
  have mem := all (m.table[b.toNat], b.toNat) (List.mem_zipIdx_iff_getElem?.mpr (by simp [inside]))
  rw [OpcodeMap.entry, List.getD_eq_getElem?_getD, List.getElem?_eq_getElem inside]
  exact mem

end Haxm
