/-
# Decoded instructions

What `em_decode_insn` has found out when it comes to the operands of an
instruction that the tables implement: sizes, prefixes and the bytes that the
operand decoders look at. Operands and register cache are still as they were
prepared. What the decoders then make of the operands depends on the registers.
-/

import Haxm.Emulate.DecodeTrace
import Haxm.Emulate.DecodeSteps

namespace Haxm

open Lib

/-! ## The context before the operands -/

section Decoded

variable {mode : EmMode} {insn : ℕ → BitVec 8} {l : Layout} {e : EmOpcode} {c : EmContext}

/-- Nothing has been done to the operands yet. -/
structure BeforeOperands (mode : EmMode) (insn : ℕ → BitVec 8) (l : Layout) (e : EmOpcode)
    (c : EmContext) : Prop extends AtOperands mode insn l e c where
  operands : c.operands = ({}, {}, {}, {})

/-- There are fewer than `INSTR_MAX_LEN` prefixes before an instruction. -/
theorem Implements.length_lt (imp : Implements mode insn l e) :
    (legacyPrefixes insn).length < instrMaxLen := by
  by_contra long
  have full : (legacyPrefixes insn).length = instrMaxLen :=
    le_antisymm (length_prefixesFrom_le _ _) (Nat.le_of_not_lt long)
  exact not_implements_of_full full l e imp

/-- `P` holds of an entry with its group resolved, whatever the ModRM byte is, if that is
implemented. -/
def EmOpcode.all (o : EmOpcode) (P : EmOpcode → Bool) : Bool :=
  (List.range 8).all fun digit => (resolveGroup o (BitVec.ofNat 3 digit)).all fun e =>
    e.has insnNotimpl || e.target == .null || P e

def OpcodeMap.all (m : OpcodeMap) (P : EmOpcode → Bool) : Bool :=
  m.table.zipIdx.all fun o => o.1.all P

/-- `P` holds of the implemented entries of a table, each with its byte and the digit in the ModRM
byte. -/
def OpcodeMap.allEntries (m : OpcodeMap) (P : ℕ → ℕ → EmOpcode → Bool) : Bool :=
  m.table.zipIdx.all fun o => (List.range 8).all fun digit =>
    (resolveGroup o.1 (BitVec.ofNat 3 digit)).all fun e =>
      e.has insnNotimpl || e.target == .null || P o.2 digit e

theorem Implements.of_allEntries {P : ℕ → ℕ → EmOpcode → Bool} (imp : Implements mode insn l e)
    (all : l.map.allEntries P = true) :
    P l.opcode.toNat (modrmOpc (l.modrm insn)).toNat e = true := by
  obtain ⟨-, entry, ⟨implemented, target⟩, -⟩ := imp
  have row := OpcodeMap.entry_of_all l.map
    (P := fun o b => (List.range 8).all fun digit =>
      (resolveGroup o (BitVec.ofNat 3 digit)).all fun e : EmOpcode =>
        e.has insnNotimpl || e.target == .null || P b digit e) all l.opcode
  have digit := List.all_eq_true.mp row (modrmOpc (l.modrm insn)).toNat
    (List.mem_range.mpr (modrmOpc (l.modrm insn)).isLt)
  rw [Layout.entry] at entry
  rw [BitVec.ofNat_toNat, BitVec.setWidth_eq, entry, Option.all_some, implemented,
    beq_eq_false_iff_ne.mpr target] at digit
  exact digit

/-- What holds of the entries of all tables holds of an instruction. -/
theorem Implements.of_all {P : EmOpcode → Bool} (imp : Implements mode insn l e)
    (all : ∀ m : OpcodeMap, m.all P = true) : P e = true :=
  imp.of_allEntries (P := fun _ _ => P) (all l.map)

/-- Decoding an instruction is decoding its operands from a context that does not depend on the
registers. -/
theorem Implements.emDecodeInsn_eq (imp : Implements mode insn l e) (rip : BitVec 64) :
    ∃ c, BeforeOperands mode insn l e c ∧
      ∀ gpr, emDecodeInsn gpr insn (EmContext.init mode rip) = decodeOperands gpr insn c := by
  obtain ⟨known, entry, accepted⟩ := imp
  have header := decodeHeader_spec mode rip (Implements.length_lt ⟨known, entry, accepted⟩)
  have operands : (decodeHeader insn (EmContext.init mode rip)).2.operands = ({}, {}, {}, {}) :=
    Reads.decodeHeader.relates insn (decodeInit (EmContext.init mode rip))
  rw [known] at header
  obtain ⟨go, after⟩ := header
  generalize start : decodeHeader insn (EmContext.init mode rip) = r at go after operands
  have modrm := after.decodeModrm
  have kept := Reads.decodeModrm.relates insn r.2
  have resolved : resolveGroup (decodeModrm insn r.2).2.opcode
      (modrmOpc (decodeModrm insn r.2).2.bytes.modrm) = some e := by
    rw [modrm.opcode, modrm.modrm]
    exact entry
  have run : opcodeAccepted e (decodeModrm insn r.2).2.prefixes.rep = true := by
    rw [modrm.prefixes]
    exact (opcodeAccepted_iff e).mpr accepted
  refine ⟨applyOpcodeFlags { (decodeModrm insn r.2).2 with opcode := e }, ?_, fun gpr => ?_⟩
  · exact ⟨modrm.atOperands e, kept.trans operands⟩
  · rw [emDecodeInsn_run, start, if_pos go]
    unfold decodeTail
    rw [Reader.get_bind_run, resolved]
    dsimp only
    rw [Reader.modify_bind_run, Reader.ite_run, if_pos run]

end Decoded

/-! ## The operands -/

section Operands

variable (gpr : Fin 16 → BitVec 64) {insn : ℕ → BitVec 8} {c : EmContext} {v : ℕ}

/-- A ModRM operand in memory. -/
theorem decodeOpModrmRm_mem (op : EmOperand) (memory : modrmMod c.bytes.modrm ≠ 3) :
    (decodeOpModrmRm gpr op insn c).1.2.type = .mem ∧
      (decodeOpModrmRm gpr op insn c).1.2.size = c.operandSize ∧
      (decodeOpModrmRm gpr op insn c).1.2.value = op.value := by
  unfold decodeOpModrmRm
  rw [Reader.get_bind_run]
  simp only [Reader.ite_run, Reader.bind_run, Reader.pure_run, if_neg memory]
  split
  · exact ⟨rfl, rfl, rfl⟩
  · split <;> exact ⟨rfl, rfl, rfl⟩

/-- A ModRM operand in a register. -/
theorem decodeOpModrmRm_reg (op : EmOperand) (register : modrmMod c.bytes.modrm = 3) :
    decodeOpModrmRm gpr op insn c = ((.continue, byteRegister c { op with
      type := .reg
      size := c.operandSize
      reg := { index := regIndex (modrmRm c.bytes.modrm) (rexB c.bytes.rex), shift := 0 } }),
      c) := by
  unfold decodeOpModrmRm
  rw [Reader.get_bind_run, Reader.ite_run, if_pos register]
  rfl

theorem byteRegister_eq (op : EmOperand) (size : op.size ≠ 1) : byteRegister c op = op :=
  if_neg fun h => size h.1

end Operands

end Haxm
