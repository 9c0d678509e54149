/-
# Instruction encodings after the manual

The encodings of the Intel SDM, volume 2, for the operations that the emulator
has handlers for. This is not taken from the emulator: prefixes and REX are
found as section 2.2.1 says, VEX as section 2.3 says, and the opcodes are those
of the instruction reference. Opcodes for which the tables of the emulator have
no entry are left out, and stand for other instructions.
-/

import Haxm.Emulate.Layout

namespace Haxm.Sdm

/-! ## Forms -/

inductive Mnemonic
  | add | or | adc | sbb | and | sub | xor | cmp | inc | dec | push | pop | test | mov | not | neg
  | movs | cmps | stos | lods | bt | bts | btr | btc | movzx | movsx | andn | bextr
  deriving DecidableEq, Repr

/-- What follows the ModRM byte: the SIB byte and the displacement, an immediate
of one byte, an immediate of two or four bytes after the operand size, or the
offset of a `moffs` operand. -/
inductive Field
  | address | ib | iz | moffs
  deriving DecidableEq, Repr

/-- A line of the instruction reference. -/
structure Form where
  mnemonic : Mnemonic
  modrm : Bool := false
  immediate : List Field := []
  /-- LOCK is allowed if the destination is in memory, and it can be there. -/
  lockable : Bool := false
  in64 : Bool := true
  /-- `VEX.LZ` without a mandatory prefix. -/
  vex : Bool := false
  deriving DecidableEq, Repr

def Form.fields (f : Form) : List Field := (if f.modrm then [.address] else []) ++ f.immediate

/-- The operations of the opcodes 00H to 3FH and of group 1. -/
def alu : ℕ → Mnemonic
  | 0 => .add
  | 1 => .or
  | 2 => .adc
  | 3 => .sbb
  | 4 => .and
  | 5 => .sub
  | 6 => .xor
  | _ => .cmp

/-- Group 1. -/
def group1 (digit : ℕ) (imm : Field) (in64 : Bool) : Form where
  mnemonic := alu digit
  modrm := true
  immediate := [imm]
  lockable := alu digit != .cmp
  in64 := in64

/-- Group 3, with an immediate for TEST only. -/
def group3 (digit : ℕ) (imm : Field) : Option Form :=
  match digit with
  | 0 => some { mnemonic := .test, modrm := true, immediate := [imm] }
  | 2 => some { mnemonic := .not, modrm := true, lockable := true }
  | 3 => some { mnemonic := .neg, modrm := true, lockable := true }
  | _ => none

/-- The opcodes 00H to 3FH. -/
def aluForm (b : ℕ) : Option Form :=
  let m := alu (b / 8)
  match b % 8 with
  | 0 | 1 => some { mnemonic := m, modrm := true, lockable := m != .cmp }
  | 2 | 3 => some { mnemonic := m, modrm := true }
  | 4 => some { mnemonic := m, immediate := [.ib] }
  | 5 => some { mnemonic := m, immediate := [.iz] }
  | _ => none

/-- The one-byte opcodes; `digit` is the field of the ModRM byte. -/
def oneByteForm (b digit : ℕ) : Option Form :=
  if b < 0x40 then aluForm b
  else if b < 0x48 then some { mnemonic := .inc, in64 := false }
  else if b < 0x50 then some { mnemonic := .dec, in64 := false }
  else if b < 0x58 then some { mnemonic := .push }
  else if b < 0x60 then some { mnemonic := .pop }
  else match b with
    | 0x80 => some (group1 digit .ib true)
    | 0x81 => some (group1 digit .iz true)
    | 0x82 => some (group1 digit .ib false)
    | 0x83 => some (group1 digit .ib true)
    | 0x84 | 0x85 => some { mnemonic := .test, modrm := true }
    | 0x88 | 0x89 | 0x8a | 0x8b => some { mnemonic := .mov, modrm := true }
    | 0x8f => if digit = 0 then some { mnemonic := .pop, modrm := true } else none
    | 0xa0 | 0xa1 | 0xa2 | 0xa3 => some { mnemonic := .mov, immediate := [.moffs] }
    | 0xa4 | 0xa5 => some { mnemonic := .movs }
    | 0xa6 | 0xa7 => some { mnemonic := .cmps }
    | 0xaa | 0xab => some { mnemonic := .stos }
    | 0xac | 0xad => some { mnemonic := .lods }
    | 0xc6 => if digit = 0 then some { mnemonic := .mov, modrm := true, immediate := [.ib] }
      else none
    | 0xc7 => if digit = 0 then some { mnemonic := .mov, modrm := true, immediate := [.iz] }
      else none
    | 0xf6 => group3 digit .ib
    | 0xf7 => group3 digit .iz
    | 0xff => if digit = 6 then some { mnemonic := .push, modrm := true } else none
    | _ => none

/-- The opcodes after 0FH. -/
def map0FForm (b digit : ℕ) : Option Form :=
  match b with
  | 0xa3 => some { mnemonic := .bt, modrm := true }
  | 0xab => some { mnemonic := .bts, modrm := true, lockable := true }
  | 0xb3 => some { mnemonic := .btr, modrm := true, lockable := true }
  | 0xbb => some { mnemonic := .btc, modrm := true, lockable := true }
  | 0xba =>
    match digit with
    | 4 => some { mnemonic := .bt, modrm := true, immediate := [.ib] }
    | 5 => some { mnemonic := .bts, modrm := true, immediate := [.ib], lockable := true }
    | 6 => some { mnemonic := .btr, modrm := true, immediate := [.ib], lockable := true }
    | 7 => some { mnemonic := .btc, modrm := true, immediate := [.ib], lockable := true }
    | _ => none
  | 0xb6 | 0xb7 => some { mnemonic := .movzx, modrm := true }
  | 0xbe | 0xbf => some { mnemonic := .movsx, modrm := true }
  | _ => none

/-- The opcodes after 0FH 38H. -/
def map0F38Form (b : ℕ) : Option Form :=
  match b with
  | 0xf2 => some { mnemonic := .andn, modrm := true, vex := true }
  | 0xf7 => some { mnemonic := .bextr, modrm := true, vex := true }
  | _ => none

/-- The form of an opcode. -/
def find (map : OpcodeMap) (b digit : ℕ) : Option Form :=
  match map with
  | .oneByte => oneByteForm b digit
  | .map0F => map0FForm b digit
  | .map0F38 => map0F38Form b
  | .map0F3A => none

/-! ## Prefixes -/

/-- What precedes the opcode. -/
structure Head where
  prefixes : List LegacyPrefix := []
  /-- The REX prefix, which has an effect only directly before the opcode. -/
  rex : Option (BitVec 8) := none
  offset : ℕ := 0

section Decode

variable (mode : EmMode) (bytes : ℕ → BitVec 8)

/-- At most `n` more prefixes. -/
def scan : ℕ → Head → Head
  | 0, h => h
  | n + 1, h =>
    match legacyPrefix (bytes h.offset) with
    | some p => scan n { prefixes := h.prefixes ++ [p], rex := none, offset := h.offset + 1 }
    | none =>
      if mode = .prot64 ∧ isRex (bytes h.offset) = true then
        scan n { h with rex := some (bytes h.offset), offset := h.offset + 1 }
      else h

def Head.rexW (h : Head) : Bool :=
  match h.rex with
  | some b => b.getLsbD 3
  | none => false

/-- REX.W goes before the prefix 66H. -/
def Head.operandSize (h : Head) : ℕ :=
  if h.rexW then 8
  else if LegacyPrefix.operandSize ∈ h.prefixes then
    match mode with
    | .real | .prot16 => 4
    | .prot32 | .prot64 => 2
  else match mode with
    | .real | .prot16 => 2
    | .prot32 | .prot64 => 4

def Head.addressSize (h : Head) : ℕ :=
  if LegacyPrefix.addressSize ∈ h.prefixes then
    match mode with
    | .real | .prot16 => 4
    | .prot32 => 2
    | .prot64 => 4
  else match mode with
    | .real | .prot16 => 2
    | .prot32 => 4
    | .prot64 => 8

/-! ## Opcodes -/

structure OpcodeField where
  /-- The fields L and pp of a VEX prefix. -/
  vex : Option (BitVec 3)
  map : OpcodeMap
  /-- The offset after the opcode. -/
  stop : ℕ

/-- LOCK, 66H, F2H, F3H and REX do not go together with VEX. -/
def Head.forbidsVex (h : Head) : Bool :=
  h.prefixes.any (fun p => p == .lock || p.isRep || p == .operandSize) || h.rex.isSome

/-- The opcode after a VEX prefix at the offset of `h`. In real mode the bytes C4H
and C5H are LES and LDS, and outside of 64-bit mode the next byte decides. -/
def vexOpcode (h : Head) : Option OpcodeField :=
  let v := h.offset
  if mode = .real ∨ (mode ≠ .prot64 ∧ bytes (v + 1) < 0xc0) ∨ h.forbidsVex = true then none
  else if bytes v = 0xc5 then
    some { vex := some ((bytes (v + 1)).extractLsb' 0 3), map := .map0F, stop := v + 3 }
  else
    let field (map : OpcodeMap) : OpcodeField :=
      { vex := some ((bytes (v + 2)).extractLsb' 0 3), map, stop := v + 4 }
    match ((bytes (v + 1)).extractLsb' 0 5).toNat with
    | 1 => some (field .map0F)
    | 2 => some (field .map0F38)
    | 3 => some (field .map0F3A)
    | _ => none

def opcodeField (h : Head) : Option OpcodeField :=
  let v := h.offset
  if bytes v = 0x0f then
    if bytes (v + 1) = 0x38 then some { vex := none, map := .map0F38, stop := v + 3 }
    else if bytes (v + 1) = 0x3a then some { vex := none, map := .map0F3A, stop := v + 3 }
    else some { vex := none, map := .map0F, stop := v + 2 }
  else if bytes v = 0xc4 ∨ bytes v = 0xc5 then vexOpcode mode bytes h
  else some { vex := none, map := .oneByte, stop := v + 1 }

/-! ## Operand fields -/

/-- Tables 2-1 and 2-2: the bytes that a ModRM byte asks for, with `sib` as the
byte after it. -/
def addressBytes (addressSize : ℕ) (modrm sib : BitVec 8) : ℕ :=
  match (modrmMod modrm).toNat, addressSize with
  | 0, 2 => if modrmRm modrm = 6 then 2 else 0
  | 1, 2 => 1
  | 2, 2 => 2
  | 0, _ =>
    if modrmRm modrm = 5 then 4
    else if modrmRm modrm = 4 then if sibBase sib = 5 then 5 else 1
    else 0
  | 1, _ => if modrmRm modrm = 4 then 2 else 1
  | 2, _ => if modrmRm modrm = 4 then 5 else 4
  | _, _ => 0

def Field.size (operandSize addressSize : ℕ) (modrm next : BitVec 8) : Field → ℕ
  | .address => addressBytes addressSize modrm next
  | .ib => 1
  | .iz => if operandSize = 2 then 2 else 4
  | .moffs => addressSize

/-- The offset after the fields that begin at `v`. -/
def fieldsEnd (operandSize addressSize : ℕ) (modrm : BitVec 8) (fields : List Field) (v : ℕ) : ℕ :=
  fields.foldl (fun v f => v + f.size operandSize addressSize modrm (bytes v)) v

/-! ## Instructions -/

/-- VEX is there if and only if the form asks for it, and then with zero L and pp. -/
def Form.encodedBy (f : Form) (vex : Option (BitVec 3)) : Prop :=
  vex = if f.vex then some 0 else none

instance (f : Form) (vex : Option (BitVec 3)) : Decidable (f.encodedBy vex) :=
  inferInstanceAs (Decidable (_ = _))

def Form.modrmByte (f : Form) (o : OpcodeField) : BitVec 8 := if f.modrm then bytes o.stop else 0

/-- The length of an instruction of the form `f`. -/
def Form.length (f : Form) (h : Head) (o : OpcodeField) : ℕ :=
  fieldsEnd bytes (h.operandSize mode) (h.addressSize mode) (f.modrmByte bytes o) f.fields
    (if f.modrm then o.stop + 1 else o.stop)

/-- The form `f` is valid in its surroundings. -/
def Form.Valid (f : Form) (h : Head) (o : OpcodeField) : Prop :=
  (mode = .prot64 → f.in64 = true) ∧ f.encodedBy o.vex ∧
    (LegacyPrefix.lock ∈ h.prefixes → f.lockable = true ∧ modrmMod (f.modrmByte bytes o) ≠ 3) ∧
    f.length mode bytes h o ≤ 15

instance (f : Form) (h : Head) (o : OpcodeField) : Decidable (f.Valid mode bytes h o) :=
  inferInstanceAs (Decidable (_ ∧ _ ∧ _ ∧ _))

/-- The instruction of an opcode. -/
def instruction (h : Head) (o : OpcodeField) : Option (Mnemonic × ℕ) :=
  match find o.map (bytes (o.stop - 1)).toNat (modrmOpc (bytes o.stop)).toNat with
  | some f => if f.Valid mode bytes h o then some (f.mnemonic, f.length mode bytes h o) else none
  | none => none

/-- The instruction at the beginning of `bytes` and its length; none if it is
undefined or of another kind. -/
def decode : Option (Mnemonic × ℕ) :=
  let h := scan mode bytes 15 {}
  (opcodeField mode bytes h).bind (instruction mode bytes h)

end Decode

end Haxm.Sdm
