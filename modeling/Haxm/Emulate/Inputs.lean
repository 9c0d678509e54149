/-
# Input operands

Decoding an instruction and reading its operands leaves the registers alone:
more of them are in the cache afterwards. If memory is accessed at once, an
operand has its value after a single call.
-/

import Haxm.Emulate.Decoded
import Haxm.Emulate.Guest

namespace Haxm

open Lib

/-- The part of a context that says what the instruction is. Carrying it out does not change it. -/
def EmContext.instruction (c : EmContext) :
    EmMode × ℕ × ℕ × BitVec 64 × Cursor × PrefixSet × OpcodeBytes × EmOpcode :=
  (c.mode, c.operandSize, c.addressSize, c.rip, c.cursor, c.prefixes, c.bytes, c.opcode)

/-! ## Operands that have been decoded -/

/-- Whether an operand has been read or written already. -/
structure EmOperand.Fresh (op : EmOperand) : Prop where
  readPending : op.readPending = false
  readFinished : op.readFinished = false
  writePending : op.writePending = false
  writeFinished : op.writeFinished = false

theorem byteRegister_fresh (c : EmContext) {op : EmOperand} (h : op.Fresh) :
    (byteRegister c op).Fresh := by
  unfold byteRegister
  split
  · exact { h with }
  · exact h

section Fresh

variable (gpr : Fin 16 → BitVec 64) (insn : ℕ → BitVec 8) (c : EmContext) {op : EmOperand}

theorem decodeOpModrmRm_fresh (h : op.Fresh) : (decodeOpModrmRm gpr op insn c).1.2.Fresh := by
  unfold decodeOpModrmRm
  rw [Reader.get_bind_run]
  simp only [Reader.ite_run, Reader.bind_run, Reader.pure_run]
  split
  · exact byteRegister_fresh c ⟨h.1, h.2, h.3, h.4⟩
  split
  · exact { h with }
  split
  all_goals exact { h with }

theorem OpDecoder.run_fresh (d : OpDecoder) (h : op.Fresh) : (d.run gpr op insn c).1.2.Fresh := by
  have rm := decodeOpModrmRm_fresh gpr insn c h
  cases d with
  | modrmRm => exact rm
  | modrmRm8 => exact { rm with }
  | modrmRm16 => exact { rm with }
  | modrmReg => exact byteRegister_fresh c ⟨h.1, h.2, h.3, h.4⟩
  | opcReg => exact byteRegister_fresh c ⟨h.1, h.2, h.3, h.4⟩
  | moffs =>
    show (decodeOpMoffs op insn c).1.2.Fresh
    unfold decodeOpMoffs
    rw [Reader.get_bind_run, Reader.bind_run]
    cases (moffsAddress c.addressSize insn c).1 <;> exact { h with }
  | simm =>
    show (decodeOpSimm op insn c).1.2.Fresh
    unfold decodeOpSimm
    rw [Reader.get_bind_run, Reader.bind_run]
    cases (simmValue c.operandSize insn c).1 <;> exact { h with }
  | _ => exact { h with }

theorem decodeOperand_fresh (d : Option OpDecoder) (h : op.Fresh) :
    (decodeOperand gpr d op insn c).1.2.Fresh := by
  cases d with
  | none => exact h
  | some d => exact d.run_fresh gpr insn c ⟨rfl, rfl, rfl, rfl⟩

end Fresh

/-- The emulator after `em_decode_insn`. -/
def decodedInsn (mode : EmMode) (insn : ℕ → BitVec 8) (g : Guest) : Emulator Guest :=
  ⟨(emDecodeInsn g.gpr insn (EmContext.init mode g.rip)).2, g⟩

/-- What is known of a decoded instruction. -/
structure Decoded (mode : EmMode) (insn : ℕ → BitVec 8) (l : Layout) (e : EmOpcode) (g : Guest)
    (s : Emulator Guest) : Prop where
  vcpu : s.vcpu = g
  sameMode : s.ctxt.mode = mode
  prefixes : s.ctxt.prefixes = prefixSet insn
  opcode : s.ctxt.opcode = e
  operandSize : s.ctxt.operandSize = l.entrySize mode e
  addressSize : s.ctxt.addressSize = prefixedAddressSize mode insn
  sized : Sized s.ctxt
  coherent : s.Coherent promptOps
  clean : s.ctxt.cache.w = fun _ => false
  dst : s.ctxt.dst.Fresh
  src1 : s.ctxt.src1.Fresh
  src2 : s.ctxt.src2.Fresh
  operands : ∃ c, BeforeOperands mode insn l e c ∧ OperandsDecoded g.gpr insn c s.ctxt

section Decoded

variable {mode : EmMode} {insn : ℕ → BitVec 8} {l : Layout} {e : EmOpcode}

theorem Implements.decoded (imp : Implements mode insn l e) (g : Guest) :
    Decoded mode insn l e g (decodedInsn mode insn g) := by
  obtain ⟨c, before, run⟩ := imp.emDecodeInsn_eq g.rip
  have sized := before.sized imp.1
  have operands := before.operands
  obtain ⟨-, -, decoded⟩ := @decodeOperands_spec g.gpr insn _ _ before.position sized
  have filled := ((@Fills.decodeOperands g.gpr).relates insn c).cache
  simp only [EmContext.operands, Prod.mk.injEq] at operands
  obtain ⟨dst, src1, src2, cache⟩ := operands
  have fresh : ({} : EmOperand).Fresh := ⟨rfl, rfl, rfl, rfl⟩
  obtain ⟨v, moved⟩ := decoded.moved
  unfold decodedInsn
  rw [run]
  rw [cache] at filled
  exact {
    vcpu := rfl
    sameMode := by
      rw [moved.kept]
      exact before.sameMode
    prefixes := by
      rw [moved.kept]
      exact before.prefixes
    opcode := by
      rw [moved.kept]
      exact before.opcode
    operandSize := by
      rw [moved.kept]
      exact before.operandSize
    addressSize := by
      rw [moved.kept]
      exact before.addressSize
    sized := moved.sized sized
    coherent := by
      refine ⟨fun i dirty => ?_, fun i cached _ => (filled.value i cached).trans (if_neg (by simp))⟩
      rw [filled.w] at dirty
      cases dirty
    clean := filled.w
    dst := by
      rw [decoded.dst, dst]
      exact decodeOperand_fresh _ _ _ _ fresh
    src1 := by
      obtain ⟨_, _, _, eq⟩ := decoded.src1
      rw [eq, src1]
      exact decodeOperand_fresh _ _ _ _ fresh
    src2 := by
      obtain ⟨_, _, _, eq⟩ := decoded.src2
      rw [eq, src2]
      exact decodeOperand_fresh _ _ _ _ fresh
    operands := ⟨c, before, decoded⟩ }

/-- An instruction that is accepted is implemented. -/
theorem exists_decoded {gpr : Fin 16 → BitVec 64} {rip : BitVec 64} {c : EmContext}
    (accepted : emDecodeInsn gpr insn (EmContext.init mode rip) = (.continue, c)) :
    ∃ l e g, Implements mode insn l e ∧ Decoded mode insn l e g ⟨c, g⟩ := by
  have spec := emDecodeInsn_spec gpr mode rip insn
  obtain ⟨l, e, imp⟩ : ∃ l e, Implements mode insn l e := by
    by_contra none
    simp only [not_exists] at none
    rw [accepted] at spec
    exact EmStatus.noConfusion (spec.rejected none).1
  have decoded := imp.decoded { Guest.blank with gpr := gpr, rip := rip }
  unfold decodedInsn at decoded
  rw [accepted] at decoded
  exact ⟨l, e, _, imp, decoded⟩

end Decoded

/-! ## Reading at once -/

namespace Emulator

variable (s : Emulator Guest) (op : EmOperand)

/-- The linear address of a memory operand. -/
def la : BitVec 64 := (getLinearAddress s.vcpu.segBase s.ctxt op.mem).getD 0

/-- The value that a read gives an operand. -/
def inputValue : BitVec 64 :=
  match op.type with
  | .reg => lowBytes op.size (s.gpr op.reg.index >>> (8 * op.reg.shift))
  | .mem => putBytes 0 op.size (s.vcpu.load (s.la op) op.size) op.value
  | _ => op.value

def readOperand : EmOperand :=
  { op with value := s.inputValue op, readFinished := decide (op.type ≠ .none) }

/-- The read as others see it. -/
def readsTo (g : Guest) : Guest := if op.type = .mem then g.read (s.la op) op.size else g

variable {s op}

theorem getLinearAddress_la (sized : Sized s.ctxt) :
    getLinearAddress s.vcpu.segBase s.ctxt op.mem = some (s.la op) := by
  unfold la getLinearAddress truncateAddress
  rcases sized.address with size | size | size <;> simp [size]

theorem segmentedRead_prompt (sized : Sized s.ctxt) (value : BitVec 64) (size : ℕ) :
    s.segmentedRead promptOps op.mem value size =
      (.continue, putBytes 0 size (s.vcpu.load (s.la op) size) value,
        s.vcpu.read (s.la op) size) := by
  unfold segmentedRead
  rw [show promptOps.getSegmentBase s.vcpu = s.vcpu.segBase from rfl, getLinearAddress_la sized]
  rfl

theorem operandRead_prompt {n : OperandName} (sized : Sized s.ctxt)
    (fresh : (s.ctxt.operand n).Fresh) :
    ∃ k, s.ctxt.cache.Filled s.vcpu.gpr k ∧
      s.operandRead promptOps n = (.continue,
        ⟨{ s.ctxt.setOperand n (s.readOperand (s.ctxt.operand n)) with cache := k },
          s.readsTo (s.ctxt.operand n) s.vcpu⟩) := by
  generalize op_eq : s.ctxt.operand n = op at fresh
  have same : s.ctxt.setOperand n op = s.ctxt := by
    subst op_eq
    cases n <;> rfl
  have value := @gprReadShifted_fst _ promptOps s op.reg.index op.size op.reg.shift
  have filled := @sameRegisters_gprReadShifted _ promptOps s op.reg.index op.size op.reg.shift
  unfold operandRead
  rw [op_eq]
  dsimp only
  rw [fresh.readFinished, if_neg Bool.false_ne_true]
  cases type : op.type with
  | none =>
    refine ⟨s.ctxt.cache, .refl _ _, ?_⟩
    have unread : s.readOperand op = op := by
      have := fresh.readFinished
      cases op
      simp_all [readOperand, inputValue]
    rw [unread, same]
    simp [readsTo, type]
  | imm =>
    refine ⟨s.ctxt.cache, .refl _ _, ?_⟩
    cases n <;> simp [readsTo, type, readOperand, inputValue, markRead, setOperand,
      EmContext.setOperand]
  | reg =>
    refine ⟨(s.gprReadShifted promptOps op.reg.index op.size op.reg.shift).2.ctxt.cache,
      filled.filled, ?_⟩
    cases n <;> simp [readsTo, type, readOperand, inputValue, markRead, setOperand,
      EmContext.setOperand, gprReadShifted, setCache]
    all_goals exact value
  | mem =>
    refine ⟨s.ctxt.cache, .refl _ _, ?_⟩
    have run := @segmentedRead_prompt s op sized op.value op.size
    cases n <;> simp [readsTo, type, readOperand, inputValue, markRead, setOperand,
      EmContext.setOperand, run, fresh.readPending]

variable (s) in
/-- `t` has the same registers, flags and memory, and the same way of addressing it. -/
structure SameInputs (t : Emulator Guest) : Prop where
  registers : SameRegisters promptOps s t
  vcpu : t.vcpu = { s.vcpu with log := t.vcpu.log }
  mode : t.ctxt.mode = s.ctxt.mode
  addressSize : t.ctxt.addressSize = s.ctxt.addressSize

namespace SameInputs

variable {t : Emulator Guest} (h : SameInputs s t)

include h

theorem la : t.la op = s.la op := by
  unfold Emulator.la getLinearAddress
  rw [h.vcpu, h.mode, h.addressSize]

theorem inputValue : t.inputValue op = s.inputValue op := by
  have load : t.vcpu.load = s.vcpu.load := by
    rw [h.vcpu]
    rfl
  unfold Emulator.inputValue
  rw [h.la, load, gpr, gpr, h.registers.reg]

theorem readOperand : t.readOperand op = s.readOperand op := by
  rw [Emulator.readOperand, Emulator.readOperand, h.inputValue]

theorem readsTo : t.readsTo op = s.readsTo op := by
  unfold Emulator.readsTo
  rw [h.la]

/-- The next operand, read as `s` would read it. -/
theorem operandRead {n : OperandName} (sized : Sized t.ctxt) (fresh : (t.ctxt.operand n).Fresh) :
    ∃ k, s.ctxt.cache.Filled s.vcpu.gpr k ∧
      t.operandRead promptOps n = (.continue,
        ⟨{ t.ctxt.setOperand n (s.readOperand (t.ctxt.operand n)) with cache := k },
          s.readsTo (t.ctxt.operand n) t.vcpu⟩) := by
  obtain ⟨k, filled, run⟩ := operandRead_prompt sized fresh
  rw [h.readOperand, h.readsTo] at run
  have gpr : t.vcpu.gpr = s.vcpu.gpr := h.registers.vcpu
  rw [gpr] at filled
  exact ⟨k, h.registers.filled.trans filled, run⟩

end SameInputs

theorem readsTo_log (g : Guest) : s.readsTo op g = { g with log := (s.readsTo op g).log } := by
  unfold readsTo
  split <;> rfl

/-- A read changes nothing that later reads depend on. -/
theorem sameInputs_of_read {c : EmContext} {g : Guest} (log : g = { s.vcpu with log := g.log })
    (filled : s.ctxt.cache.Filled s.vcpu.gpr c.cache) (mode : c.mode = s.ctxt.mode)
    (addressSize : c.addressSize = s.ctxt.addressSize) : SameInputs s ⟨c, s.readsTo op g⟩ := by
  have vcpu : s.readsTo op g = { s.vcpu with log := (s.readsTo op g).log } := by
    rw [readsTo_log g, log]
  refine ⟨⟨?_, filled⟩, vcpu, mode, addressSize⟩
  show (s.readsTo op g).gpr = s.vcpu.gpr
  rw [vcpu]

end Emulator

/-! ## All inputs -/

section Inputs

variable {ω : Type} {f g : Stage ω} {s t : Emulator ω}

theorem Stage.andThen_of_continue (h : f s = (.continue, t)) : f.andThen g s = g t := by
  rw [Stage.andThen, h]

theorem Stage.andThen_cases {rc : EmStatus} (run : f.andThen g s = (rc, t)) :
    (∃ u, f s = (.continue, u) ∧ g u = (rc, t)) ∨ rc ≠ .continue ∧ f s = (rc, t) := by
  unfold Stage.andThen at run
  generalize f s = r at run
  obtain ⟨rc', u⟩ := r
  cases rc' with
  | «continue» => exact .inl ⟨u, rfl, run⟩
  | _ =>
    obtain ⟨rfl, rfl⟩ := Prod.mk.inj run
    exact .inr ⟨EmStatus.noConfusion, rfl⟩

/-- What holds along the first stage and along the second holds along both. -/
theorem Stage.andThen_rel {r : Emulator ω → Emulator ω → Prop}
    (trans : ∀ {t u}, r s t → r t u → r s u) (first : r s (f s).2)
    (rest : r s (f s).2 → r (f s).2 (g (f s).2).2) : r s (f.andThen g s).2 := by
  have next := trans first (rest first)
  unfold Stage.andThen
  generalize f s = result at first next
  obtain ⟨rc, t⟩ := result
  cases rc with
  | «continue» => exact next
  | _ => exact first

theorem Stage.unless_rel {r : Emulator ω → Emulator ω → Prop} {skip : EmContext → Bool}
    (refl : r s s) (h : r s (f s).2) : r s (Stage.unless skip f s).2 := by
  unfold Stage.unless
  split
  · exact refl
  · exact h

end Inputs

section Prompt

variable {s : Emulator Guest}

/-- The operands of `s` before the operation, without those that the opcode does not read. -/
def inputOperands (s : Emulator Guest) : List EmOperand :=
  if s.ctxt.opcode.has insnDstNr then [s.ctxt.src1, s.ctxt.src2]
  else [s.ctxt.dst, s.ctxt.src1, s.ctxt.src2]

/-- The virtual CPU after these have been read. -/
def readAll (s : Emulator Guest) : Guest :=
  (inputOperands s).foldl (fun g op => s.readsTo op g) s.vcpu

theorem readAll_log (s : Emulator Guest) : readAll s = { s.vcpu with log := (readAll s).log } := by
  have fold (l : List EmOperand) (g : Guest) :
      l.foldl (fun g op => s.readsTo op g) g =
        { g with log := (l.foldl (fun g op => s.readsTo op g) g).log } := by
    induction l generalizing g with
    | nil => rfl
    | cons op l ih =>
      rw [List.foldl_cons, ih (s.readsTo op g), Emulator.readsTo_log g]
  exact fold _ _

/-- Reading the inputs changes nothing that they depend on. -/
theorem sameInputs_readAll {c : EmContext} (filled : s.ctxt.cache.Filled s.vcpu.gpr c.cache)
    (mode : c.mode = s.ctxt.mode) (addressSize : c.addressSize = s.ctxt.addressSize) :
    s.SameInputs ⟨c, readAll s⟩ := by
  refine ⟨⟨?_, filled⟩, readAll_log s, mode, addressSize⟩
  show (readAll s).gpr = s.vcpu.gpr
  rw [readAll_log]

/-- The context after these have been read. -/
def inputContext (s : Emulator Guest) (k : GprCache) : EmContext :=
  { s.ctxt with
    dst := if s.ctxt.opcode.has insnDstNr then s.ctxt.dst else s.readOperand s.ctxt.dst
    src1 := s.readOperand s.ctxt.src1
    src2 := s.readOperand s.ctxt.src2
    rflags := s.vcpu.rflags
    cache := k }

/-- The sources, after the destination. -/
theorem readSources_prompt {t : Emulator Guest} (h : s.SameInputs t) (sized : Sized t.ctxt)
    (src1 : t.ctxt.src1.Fresh) (src2 : t.ctxt.src2.Fresh) :
    ∃ k, s.ctxt.cache.Filled s.vcpu.gpr k ∧
      Stage.andThen (Emulator.operandRead promptOps · .src1)
        (Emulator.operandRead promptOps · .src2) t = (.continue, ⟨{ t.ctxt with
            src1 := s.readOperand t.ctxt.src1, src2 := s.readOperand t.ctxt.src2, cache := k },
          s.readsTo t.ctxt.src2 (s.readsTo t.ctxt.src1 t.vcpu)⟩) := by
  obtain ⟨k₁, filled₁, run₁⟩ := h.operandRead (n := .src1) sized src1
  have second :
      s.SameInputs ⟨{ t.ctxt.setOperand .src1 (s.readOperand t.ctxt.src1) with cache := k₁ },
        s.readsTo t.ctxt.src1 t.vcpu⟩ :=
    Emulator.sameInputs_of_read h.vcpu filled₁ h.mode h.addressSize
  obtain ⟨k₂, filled₂, run₂⟩ := second.operandRead (n := .src2) ⟨sized.1, sized.2⟩ src2
  refine ⟨k₂, filled₂, ?_⟩
  rw [Stage.andThen_of_continue run₁]
  exact run₂

theorem Stage.andThen_assoc {ω : Type} (f g h : Stage ω) :
    (f.andThen g).andThen h = f.andThen (g.andThen h) := by
  funext s
  unfold Stage.andThen
  rcases f s with ⟨_ | _ | _, t⟩ <;> rfl

theorem readInputs_prompt (sized : Sized s.ctxt) (flags : s.ctxt.opcode.has insnNoflags = false)
    (plain : s.ctxt.isBitop = false) (dst : s.ctxt.dst.Fresh) (src1 : s.ctxt.src1.Fresh)
    (src2 : s.ctxt.src2.Fresh) :
    ∃ k, s.ctxt.cache.Filled s.vcpu.gpr k ∧
      readInputs promptOps s = (.continue, ⟨inputContext s k, readAll s⟩) := by
  have start : s.SameInputs (s.setRflags s.vcpu.rflags) :=
    ⟨.of_eq rfl rfl, rfl, rfl, rfl⟩
  have first : Sized (s.setRflags s.vcpu.rflags).ctxt := ⟨sized.1, sized.2⟩
  unfold readInputs inputContext readAll inputOperands
  rw [flags, if_neg Bool.false_ne_true]
  dsimp only
  rw [show (s.setRflags (promptOps.readRflags s.vcpu)).ctxt.isBitop = false from plain,
    if_neg Bool.false_ne_true, Stage.andThen_assoc]
  cases unread : s.ctxt.opcode.has insnDstNr with
  | true =>
    have skip : Stage.unless (·.opcode.has insnDstNr) (Emulator.operandRead promptOps · .dst)
        (s.setRflags s.vcpu.rflags) = (.continue, s.setRflags s.vcpu.rflags) := if_pos unread
    obtain ⟨k, filled, run⟩ := readSources_prompt start first src1 src2
    refine ⟨k, filled, ?_⟩
    exact (Stage.andThen_of_continue skip).trans run
  | false =>
    obtain ⟨k₁, filled₁, run₁⟩ := start.operandRead (n := .dst) first dst
    have skip : Stage.unless (·.opcode.has insnDstNr) (Emulator.operandRead promptOps · .dst)
        (s.setRflags s.vcpu.rflags) = _ := (if_neg (Bool.eq_false_iff.mp unread)).trans run₁
    have second : s.SameInputs
        ⟨{ (s.setRflags s.vcpu.rflags).ctxt.setOperand .dst (s.readOperand s.ctxt.dst) with
          cache := k₁ }, s.readsTo s.ctxt.dst s.vcpu⟩ :=
      Emulator.sameInputs_of_read rfl filled₁ rfl rfl
    obtain ⟨k, filled, run⟩ := readSources_prompt second ⟨sized.1, sized.2⟩ src1 src2
    refine ⟨k, filled, ?_⟩
    exact (Stage.andThen_of_continue skip).trans run

end Prompt

/-! ## Output operands -/

namespace Emulator

variable {s : Emulator Guest} {n : OperandName}

theorem operandWrite_mem (sized : Sized s.ctxt) (type : (s.ctxt.operand n).type = .mem)
    (pending : (s.ctxt.operand n).writePending = false)
    (finished : (s.ctxt.operand n).writeFinished = false) :
    s.operandWrite promptOps n = (.continue,
      ⟨s.ctxt.setOperand n (markWritten (s.ctxt.operand n) .continue),
        s.vcpu.write (s.la (s.ctxt.operand n)) (s.ctxt.operand n).size
          (s.ctxt.operand n).value⟩) := by
  have known := @getLinearAddress_la s (s.ctxt.operand n) sized
  have run : s.segmentedWrite promptOps (s.ctxt.operand n).mem (s.ctxt.operand n).value
      (s.ctxt.operand n).size = (.continue,
        s.vcpu.write (s.la (s.ctxt.operand n)) (s.ctxt.operand n).size
          (s.ctxt.operand n).value) := by
    unfold segmentedWrite
    rw [show promptOps.getSegmentBase s.vcpu = s.vcpu.segBase from rfl, known]
    rfl
  unfold operandWrite
  dsimp only
  rw [finished, if_neg Bool.false_ne_true, type]
  dsimp only
  rw [pending, if_neg Bool.false_ne_true, run]
  rfl

theorem operandWrite_reg {ω : Type} {ops : EmOps ω} {s : Emulator ω}
    (type : (s.ctxt.operand n).type = .reg) (finished : (s.ctxt.operand n).writeFinished = false) :
    s.operandWrite ops n = (.continue,
      (s.gprWriteShifted ops (s.ctxt.operand n).reg.index
        (if (s.ctxt.operand n).size = 4 then 8 else (s.ctxt.operand n).size)
        (s.ctxt.operand n).value
        (s.ctxt.operand n).reg.shift).setOperand n (markWritten (s.ctxt.operand n) .continue)) := by
  unfold operandWrite
  dsimp only
  rw [finished, if_neg Bool.false_ne_true, type]

end Emulator

theorem emulateOnce_eq {ω : Type} (ops : EmOps ω) (host : HostFlags) :
    emulateOnce ops host =
      (readInputs ops).andThen ((executeHandler ops host).andThen (writeOutputs ops)) :=
  Stage.andThen_assoc ..

section Outputs

variable {ω : Type} {ops : EmOps ω} {s : Emulator ω}

theorem writeOutputs_eq (flags : s.ctxt.opcode.has insnNoflags = false)
    (written : s.ctxt.opcode.has insnDstNw = false) :
    writeOutputs ops s =
      Emulator.operandWrite ops ⟨s.ctxt, ops.writeRflags s.ctxt.rflags s.vcpu⟩ .dst := by
  unfold writeOutputs Stage.unless
  rw [flags, if_neg Bool.false_ne_true]
  exact if_neg (Bool.eq_false_iff.mp written)

theorem writeOutputs_of_nw (flags : s.ctxt.opcode.has insnNoflags = false)
    (kept : s.ctxt.opcode.has insnDstNw = true) :
    writeOutputs ops s = (.continue, ⟨s.ctxt, ops.writeRflags s.ctxt.rflags s.vcpu⟩) := by
  unfold writeOutputs Stage.unless
  rw [flags, if_neg Bool.false_ne_true]
  exact if_pos kept

theorem executeHandler_fast {h : Handler} (host : HostFlags)
    (target : s.ctxt.opcode.target = .handler h) (fast : s.ctxt.opcode.has insnFastop = true) :
    executeHandler ops host s = (.continue, ⟨fastHandler host h s.ctxt, s.vcpu⟩) := by
  unfold executeHandler
  rw [target]
  exact if_pos fast

theorem executeHandler_soft {h : Handler} (host : HostFlags)
    (target : s.ctxt.opcode.target = .handler h) (soft : s.ctxt.opcode.has insnFastop = false) :
    executeHandler ops host s = softHandler ops h s := by
  unfold executeHandler
  rw [target]
  exact if_neg (Bool.eq_false_iff.mp soft)

/-- No index register moves. -/
theorem advanceIndexes_of_ne (dst : s.ctxt.opcode.decodeDst ≠ some .di)
    (src1 : s.ctxt.opcode.decodeSrc1 ≠ some .si) : advanceIndexes ops s = s := by
  unfold advanceIndexes
  rw [if_neg dst]
  exact if_neg src1

/-- The state in which the rounds begin. -/
def Emulator.start (s : Emulator ω) : Emulator ω :=
  { s with ctxt := { s.ctxt with finished := false } }

end Outputs

end Haxm
