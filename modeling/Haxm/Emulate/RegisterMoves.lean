/-
# Registers that move

String instructions move SI and DI and count in CX, PUSH and POP move SP. These
are registers of the address size: in 16-bit code only the low 16 bits change,
and a 32-bit result is extended with zeros in 64-bit mode. The emulator adds to
all 64 bits. That is the same unless the addition carries out of the part that
should change, or the upper half of a 32-bit register is not clear already.
-/

import Haxm.Emulate.WriteBack

namespace Haxm

open Lib

variable {mode : EmMode}

/-! ## Moves of a part of a register -/

/-- A register that moves by `d` as a register of `size` bytes. -/
def registerMoved (mode : EmMode) (size : ℕ) (x : BitVec 64) (d : ℤ) : BitVec 64 :=
  if size = 2 then putBytes 0 2 (x + BitVec.ofInt 64 d) x
  else if size = 4 then
    if mode = .prot64 then lowBytes 4 (x + BitVec.ofInt 64 d)
    else putBytes 0 4 (x + BitVec.ofInt 64 d) x
  else x + BitVec.ofInt 64 d

/-- The move does not leave the part, and that part is all that counts. -/
def MoveFits (mode : EmMode) (size : ℕ) (x : BitVec 64) (d : ℤ) : Prop :=
  if size = 2 then 0 ≤ (x.toNat % 2 ^ 16 : ℕ) + d ∧ (x.toNat % 2 ^ 16 : ℕ) + d < 2 ^ 16
  else if size = 4 then
    if mode = .prot64 then 0 ≤ x.toNat + d ∧ x.toNat + d < 2 ^ 32 ∨ 2 ^ 64 ≤ x.toNat + d
    else 0 ≤ (x.toNat % 2 ^ 32 : ℕ) + d ∧ (x.toNat % 2 ^ 32 : ℕ) + d < 2 ^ 32
  else True

section Arithmetic

variable {x y : BitVec 64} {d : ℤ}

/-- Only the upper part of `y` can differ from what `putBytes` leaves of `x`. -/
theorem eq_putBytes_iff (n : ℕ) :
    y = putBytes 0 n y x ↔ y.toNat / 2 ^ (8 * n) = x.toNat / 2 ^ (8 * n) := by
  have bits : y = putBytes 0 n y x ↔ y >>> (8 * n) = x >>> (8 * n) := by
    constructor
    · intro same
      apply BitVec.eq_of_getLsbD_eq
      intro i _
      rw [BitVec.getLsbD_ushiftRight, BitVec.getLsbD_ushiftRight]
      by_cases inside : 8 * n + i < 64
      · rw [same, getLsbD_putBytes _ _ _ _ inside, if_neg (by omega)]
      · rw [BitVec.getLsbD_of_ge _ _ (by omega), BitVec.getLsbD_of_ge _ _ (by omega)]
    · intro upper
      apply BitVec.eq_of_getLsbD_eq
      intro i hi
      rw [getLsbD_putBytes _ _ _ _ hi]
      split
      · rw [Nat.mul_zero, Nat.sub_zero]
      · have bit := congrArg (BitVec.getLsbD · (i - 8 * n)) upper
        simp only [BitVec.getLsbD_ushiftRight] at bit
        rwa [show 8 * n + (i - 8 * n) = i by omega] at bit
  rw [bits, ← BitVec.toNat_inj, BitVec.toNat_ushiftRight, BitVec.toNat_ushiftRight,
    Nat.shiftRight_eq_div_pow, Nat.shiftRight_eq_div_pow]

theorem toNat_add_ofInt (small : -8 ≤ d ∧ d ≤ 8) :
    ((x + BitVec.ofInt 64 d).toNat : ℤ) = (x.toNat + d) % 2 ^ 64 := by
  rw [BitVec.toNat_add, BitVec.toNat_ofInt]
  omega

/-- Adding to all 64 bits is right if the move fits, and only then. -/
theorem add_eq_registerMoved_iff {size : ℕ} (small : -8 ≤ d ∧ d ≤ 8) :
    x + BitVec.ofInt 64 d = registerMoved mode size x d ↔ MoveFits mode size x d := by
  have sum := @toNat_add_ofInt x d small
  have bound := (x + BitVec.ofInt 64 d).isLt
  have old := x.isLt
  unfold registerMoved MoveFits
  split
  · rw [eq_putBytes_iff]
    generalize (x + BitVec.ofInt 64 d).toNat = y at sum bound
    omega
  · split
    · split
      · rw [eq_comm, lowBytes_four_iff]
        omega
      · rw [eq_putBytes_iff]
        generalize (x + BitVec.ofInt 64 d).toNat = y at sum bound
        omega
    · exact iff_of_true rfl trivial

theorem getLsbD_registerMoved {size n : ℕ} (hn : n < 16) :
    (registerMoved mode size x d).getLsbD n = (x + BitVec.ofInt 64 d).getLsbD n := by
  unfold registerMoved
  split
  · rw [getLsbD_putBytes _ _ _ _ (by omega), if_pos (by omega), Nat.mul_zero, Nat.sub_zero]
  · split
    · split
      · rw [getLsbD_lowBytes, decide_eq_true (by omega), Bool.true_and]
      · rw [getLsbD_putBytes _ _ _ _ (by omega), if_pos (by omega), Nat.mul_zero, Nat.sub_zero]
    · rfl

/-- Writing the low 16 bits of a register afterwards does not hide a wrong move. -/
theorem putBytes_two_eq_iff {size : ℕ} (value : BitVec 64) :
    putBytes 0 2 value (x + BitVec.ofInt 64 d) = putBytes 0 2 value (registerMoved mode size x d) ↔
      x + BitVec.ofInt 64 d = registerMoved mode size x d := by
  refine ⟨fun same => ?_, fun same => by rw [← same]⟩
  apply BitVec.eq_of_getLsbD_eq
  intro n hn
  by_cases low : n < 16
  · exact (getLsbD_registerMoved low).symm
  · have bit := congrArg (BitVec.getLsbD · n) same
    simp only [getLsbD_putBytes _ _ _ _ hn] at bit
    rwa [if_neg (by omega), if_neg (by omega)] at bit

end Arithmetic

/-! ## Stages and the registers -/

namespace Emulator

variable {status : Guest → BitVec 64 → EmStatus} {host : HostFlags} {s t u : Emulator Guest}
  {r r' : Fin 16 → BitVec 64}

/-- The registers after the destination has been written. -/
def written (s : Emulator Guest) : Fin 16 → BitVec 64 :=
  if s.ctxt.dst.type = .reg ∧ s.ctxt.dst.writeFinished = false then
    Function.update s.gpr s.ctxt.dst.reg.index
      (putBytes s.ctxt.dst.reg.shift (if s.ctxt.dst.size = 4 then 8 else s.ctxt.dst.size)
        s.ctxt.dst.value (s.gpr s.ctxt.dst.reg.index))
  else s.gpr

theorem written_eq (other : s.ctxt.dst.type ≠ .reg ∨ s.ctxt.dst.writeFinished = true) :
    s.written = s.gpr := by
  apply if_neg
  rintro ⟨type, unfinished⟩
  rcases other with other | finished
  · exact other type
  · rw [unfinished] at finished
    cases finished

namespace Computes

theorem trans (first : s.Computes r t) (second : t.Computes r' u) : s.Computes r' u :=
  ⟨second.gpr, fun start => second.coherent (first.coherent start)⟩

/-- A step that changes no registers. -/
theorem keeps (first : s.Computes r t) (second : t.Computes t.gpr u) : s.Computes r u := by
  rw [first.gpr] at second
  exact first.trans second

theorem gprWriteShifted (i : Fin 16) (size : ℕ) (value : BitVec 64) (shift : ℕ) :
    s.Computes (Function.update s.gpr i (putBytes shift size value (s.gpr i)))
      (s.gprWriteShifted (guestOps status) i size value shift) :=
  ⟨reg_gprWriteShifted, fun start => start.gprWriteShifted⟩

/-- The virtual CPU does something that is not about its registers. -/
theorem of_gpr {g : Guest} (same : g.gpr = s.vcpu.gpr) : s.Computes s.gpr ⟨s.ctxt, g⟩ := by
  have registers : SameRegisters promptOps s ⟨s.ctxt, g⟩ := .of_eq same rfl
  exact ⟨registers.reg, registers.coherent⟩

end Computes

theorem segmentedWrite_gpr (mem : OperandMem) (value : BitVec 64) (size : ℕ) :
    (s.segmentedWrite (guestOps status) mem value size).2.gpr = s.vcpu.gpr := by
  unfold Emulator.segmentedWrite
  split
  case h_1 => rfl
  case h_2 la known => exact (guestOps_lawful status).writeMemory la value size _ s.vcpu

/-- What a write of the destination leaves: the registers `r`, and a status other than
`EM_CONTINUE` only for a destination in memory. -/
structure Writes (r : Fin 16 → BitVec 64) (s : Emulator Guest) (out : EmStatus × Emulator Guest) :
    Prop where
  computes : s.Computes r out.2
  rflags : out.2.ctxt.rflags = s.ctxt.rflags
  src1 : out.2.ctxt.src1 = s.ctxt.src1
  type : out.2.ctxt.dst.type = s.ctxt.dst.type
  exit : out.1 = .continue ∨ s.ctxt.dst.type = .mem

theorem type_markWritten (op : EmOperand) (rc : EmStatus) :
    (markWritten op rc).type = op.type := by
  unfold markWritten
  split <;> rfl

theorem writes_same : s.Writes s.gpr (.continue, s) :=
  ⟨.of_readsOnly (.refl s), rfl, rfl, rfl, .inl rfl⟩

theorem writes_operandWrite : s.Writes s.written (s.operandWrite (guestOps status) .dst) := by
  have same : s.Computes s.gpr s := .of_readsOnly (.refl s)
  unfold Emulator.operandWrite
  dsimp only [EmContext.operand]
  split
  case isTrue finished =>
    rw [written_eq (.inr finished)]
    exact writes_same
  case isFalse unfinished =>
    split
    case h_1 type =>
      rw [written_eq (.inl (by rw [type]; decide))]
      exact writes_same
    case h_2 type =>
      rw [written_eq (.inl (by rw [type]; decide))]
      exact ⟨same.reads (.setOperand .dst _), rfl, rfl, rfl, .inl rfl⟩
    case h_3 type =>
      rw [written, if_pos ⟨type, Bool.eq_false_iff.mpr unfinished⟩]
      exact ⟨(Computes.gprWriteShifted _ _ _ _).reads (.setOperand .dst _), rfl, rfl, rfl, .inl rfl⟩
    case h_4 type =>
      rw [written_eq (.inl (by rw [type]; decide))]
      refine ⟨?_, rfl, rfl, type_markWritten _ _, .inr type⟩
      split
      · exact same.reads (.setOperand .dst _)
      · exact (Computes.of_gpr (segmentedWrite_gpr _ _ _)).reads (.setOperand .dst _)

theorem writes_writeOutputs : s.Writes (if s.ctxt.opcode.has insnDstNw then s.gpr else s.written)
    (writeOutputs (guestOps status) s) := by
  have write (t : Emulator Guest) : t.Writes
      (if t.ctxt.opcode.has insnDstNw then t.gpr else t.written)
      (Stage.unless (·.opcode.has insnDstNw)
        (Emulator.operandWrite (guestOps status) · .dst) t) := by
    unfold Stage.unless
    split
    · exact writes_same
    · exact writes_operandWrite
  have flags : s.Computes s.gpr
      ⟨s.ctxt, (guestOps status).writeRflags s.ctxt.rflags s.vcpu⟩ := .of_gpr rfl
  unfold writeOutputs
  by_cases noflags : s.ctxt.opcode.has insnNoflags = true
  · rw [if_pos noflags]
    exact write s
  · rw [if_neg noflags]
    have output := write ⟨s.ctxt, (guestOps status).writeRflags s.ctxt.rflags s.vcpu⟩
    exact ⟨flags.trans output.computes, output.rflags, output.src1, output.type, output.exit⟩

/-- The shape of the destination and the flags are the same. -/
def SameShape (s t : Emulator Guest) : Prop :=
  t.ctxt.dst.shape = s.ctxt.dst.shape ∧ t.ctxt.rflags = s.ctxt.rflags

theorem shapeRule : Stage.ReadRule (guestOps status) SameShape where
  refl _ := ⟨rfl, rfl⟩
  trans h h' := ⟨h'.1.trans h.1, h'.2.trans h.2⟩
  register _ _ _ _ := ⟨rfl, rfl⟩
  operand s n op v _ shape := by
    cases n
    · exact ⟨shape, rfl⟩
    · exact ⟨rfl, rfl⟩
    · exact ⟨rfl, rfl⟩

/-! ## The stack -/

/-- How far the operation itself moves a register. -/
def stackMove (s : Emulator Guest) (i : Fin 16) : BitVec 64 :=
  if i = emRegRsp then
    if s.ctxt.opcode.target = .handler .push then -BitVec.ofNat 64 s.ctxt.operandSize
    else if s.ctxt.opcode.target = .handler .pop then BitVec.ofNat 64 s.ctxt.operandSize
    else 0
  else 0

theorem stackMove_of_form (form : t.ctxt.form = s.ctxt.form) : t.stackMove = s.stackMove := by
  have size : t.ctxt.operandSize = s.ctxt.operandSize := congrArg (·.2.1) form
  have opcode : t.ctxt.opcode = s.ctxt.opcode := congrArg (·.2.2.2.2) form
  funext i
  rw [stackMove, size, opcode]
  rfl

/-- The destination of PUSH is in memory. -/
theorem emPush_spec :
    s.Computes (fun i => s.gpr i + if i = emRegRsp then -BitVec.ofNat 64 s.ctxt.operandSize else 0)
        (emPush (guestOps status) s).2 ∧
      (emPush (guestOps status) s).2.ctxt.rflags = s.ctxt.rflags ∧
      (emPush (guestOps status) s).2.ctxt.dst.type = .mem := by
  have write (t : Emulator Guest) (sp : EmOperand) (memory : sp.type = .mem) :
      t.Computes t.gpr ((t.setOperand .dst sp).operandWrite (guestOps status) .dst).2 ∧
        ((t.setOperand .dst sp).operandWrite (guestOps status) .dst).2.ctxt.rflags = t.ctxt.rflags ∧
        ((t.setOperand .dst sp).operandWrite (guestOps status) .dst).2.ctxt.dst.type = .mem := by
    have output := @writes_operandWrite status (t.setOperand .dst sp)
    rw [written_eq (.inl (show sp.type ≠ .reg by rw [memory]; decide))] at output
    exact ⟨(Computes.of_readsOnly (.setOperand .dst sp)).trans output.computes, output.rflags,
      output.type.trans memory⟩
  have moved : s.Computes _ (s.registerAdd (guestOps status) emRegRsp
    (-BitVec.ofNat 64 s.ctxt.operandSize)) := (Computes.of_readsOnly (.refl s)).add _ _
  exact ⟨(moved.reads (.gprReadShifted _ _ _)).keeps (write _ _ rfl).1, (write _ _ rfl).2⟩

/-- The state in which POP reads the stack. -/
def popStart (s : Emulator Guest) : Emulator Guest :=
  let (ea, t) := s.gprRead promptOps emRegRsp s.ctxt.addressSize
  (t.setOperand .src1 { t.ctxt.src1 with
    type := .mem, size := s.ctxt.operandSize, mem := ⟨ea, .ss⟩ }).registerAdd promptOps emRegRsp
      (BitVec.ofNat 64 s.ctxt.operandSize)

/-- The destination of POP is still to be written, with the value from the stack. -/
theorem emPop_spec {rc : EmStatus} (run : emPop (guestOps status) s = (rc, t)) :
    s.Computes
        (fun i => s.gpr i + if i = emRegRsp then BitVec.ofNat 64 s.ctxt.operandSize else 0) t ∧
      s.SameShape t ∧ (rc = .continue → t.ctxt.dst.value = t.ctxt.src1.value) := by
  have start : s.Computes _ s.popStart := (((Computes.of_readsOnly (.refl s)).reads
    (.gprReadShifted _ _ _)).reads (.setOperand .src1 _)).add _ _
  have read {rc : EmStatus} {u : Emulator Guest}
      (run : s.popStart.operandRead (guestOps status) .src1 = (rc, u)) :
      s.popStart.ReadsOnly u ∧ s.SameShape u := by
    have only := (@ReadsOnly.rule status).operandRead s.popStart .src1
    have shape := (@shapeRule status).operandRead s.popStart .src1
    rw [run] at only shape
    exact ⟨only, shape⟩
  have stages : emPop (guestOps status) s = Stage.andThen (operandRead (guestOps status) · .src1)
    (fun t => (.continue, t.setOperand .dst { t.ctxt.dst with value := t.ctxt.src1.value }))
    s.popStart := rfl
  rcases Stage.andThen_cases (stages ▸ run) with ⟨u, first, set⟩ | ⟨ne, first⟩
  · obtain ⟨rfl, rfl⟩ := Prod.mk.inj set
    exact ⟨(start.reads (read first).1).reads (.setOperand .dst _), (read first).2, fun _ => rfl⟩
  · exact ⟨start.reads (read first).1, (read first).2, fun same => absurd same ne⟩

end Emulator

/-! ## Instructions that move registers -/

/-- The entries of PUSH and POP. -/
@[mk_iff] structure StackEntry (h : Handler) (e : EmOpcode) : Prop where
  kind : h = .push ∨ h = .pop
  target : e.target = .handler h
  fastop : e.has insnFastop = false
  noflags : e.has insnNoflags = false
  nw : e.has insnDstNw = false
  byteop : e.has insnByteop = false
  dst : if h = .push then e.decodeDst = some .none
    else e.decodeDst = some .opcReg ∨ e.decodeDst = some .modrmRm

instance (h : Handler) (e : EmOpcode) : Decidable (StackEntry h e) :=
  decidable_of_iff' _ (stackEntry_iff h e)

/-- The string instructions, PUSH and POP. -/
def MoveEntry (e : EmOpcode) : Prop := (∃ k : StringOp, k.Entry e) ∨ ∃ h, StackEntry h e

theorem MoveEntry.noflags {e : EmOpcode} (kind : MoveEntry e) : e.has insnNoflags = false := by
  rcases kind with ⟨k, entry⟩ | ⟨h, entry⟩
  · exact entry.noflags
  · exact entry.noflags

theorem StringOp.Entry.not_stack {k : StringOp} {h : Handler} {e : EmOpcode} (entry : k.Entry e) :
    ¬StackEntry h e := by
  intro stack
  have target := entry.target.symm.trans stack.target
  rcases stack.kind with rfl | rfl <;> cases k <;> cases target

/-- The destination, if it is a register: the accumulator of LODS, or what POP writes to. -/
def DstFits (e : EmOpcode) (size : ℕ) (op : EmOperand) : Prop :=
  op.type = .reg → op.reg.index = regRax ∨
    StackEntry .pop e ∧ op.writeFinished = false ∧ op.reg.shift = 0 ∧ op.size = size

/-- The register `i` after an instruction has moved it to `x`: POP may write it after that. -/
def Emulator.afterPop (t : Emulator Guest) (value : BitVec 64) (i : Fin 16) (x : BitVec 64) :
    BitVec 64 :=
  if t.ctxt.dst.type = .reg ∧ t.ctxt.dst.reg.index = i then
    putBytes 0 (if t.ctxt.operandSize = 4 then 8 else t.ctxt.operandSize) value x
  else x

theorem EmContext.of_form {c d : EmContext} (same : c.form = d.form) :
    c.operandSize = d.operandSize ∧ c.prefixes = d.prefixes ∧ c.opcode = d.opcode :=
  ⟨congrArg (·.2.1) same, congrArg (·.2.2.2.1) same, congrArg (·.2.2.2.2) same⟩

section Destination

variable {e : EmOpcode} {size : ℕ} {op op' : EmOperand} {s t : Emulator Guest} {i : Fin 16}

theorem DstFits.of_shape (h : DstFits e size op) (same : op'.shape = op.shape) :
    DstFits e size op' := by
  simp only [EmOperand.shape, Prod.mk.injEq] at same
  obtain ⟨type, reg, width, finished⟩ := same
  unfold DstFits
  rw [type, reg, width, finished]
  exact h

theorem dstFits_of_mem (memory : op.type = .mem) : DstFits e size op := by
  intro register
  rw [memory] at register
  cases register

theorem Emulator.afterPop_congr (shape : t.ctxt.dst.shape = s.ctxt.dst.shape)
    (size : t.ctxt.operandSize = s.ctxt.operandSize) : t.afterPop = s.afterPop := by
  simp only [EmOperand.shape, Prod.mk.injEq] at shape
  funext value i x
  unfold afterPop
  rw [shape.1, shape.2.1, size]

/-- Only POP writes a register that it has moved. -/
theorem DstFits.afterPop_eq (fits : DstFits s.ctxt.opcode size s.ctxt.dst)
    (other : ¬StackEntry .pop s.ctxt.opcode) (ne : i ≠ regRax) (value x : BitVec 64) :
    s.afterPop value i x = x := by
  apply if_neg
  rintro ⟨register, rfl⟩
  rcases fits register with rax | pop
  · exact ne rax
  · exact other pop.1

theorem DstFits.written (fits : DstFits e s.ctxt.operandSize s.ctxt.dst) (ne : i ≠ regRax) :
    s.written i = s.afterPop s.ctxt.dst.value i (s.gpr i) := by
  unfold Emulator.written Emulator.afterPop
  by_cases here : s.ctxt.dst.type = .reg ∧ s.ctxt.dst.reg.index = i
  · obtain ⟨type, rfl⟩ := here
    obtain ⟨-, unfinished, shift, width⟩ := (fits type).resolve_left ne
    rw [if_pos ⟨type, unfinished⟩, Function.update_self, shift, width]
    exact (if_pos ⟨type, rfl⟩).symm
  · rw [if_neg here]
    split
    case isTrue register =>
      exact Function.update_of_ne (fun same => here ⟨register.1, same.symm⟩) ..
    case isFalse => rfl

end Destination

section Once

variable {status : Guest → BitVec 64 → EmStatus} {host : HostFlags} {s b v : Emulator Guest}
  {rc : EmStatus}

theorem rflagsDf_setArith (x : BitVec 64) (f : ArithFlags) :
    rflagsDf (setArith x f) = rflagsDf x := by
  have other := congrArg rflagsDf (setArith_other x f)
  have kept (y : BitVec 64) : rflagsDf (y &&& ~~~rflagsMaskOszapc) = rflagsDf y := by
    simp [rflagsDf, rflagsMaskOszapc]
  rwa [kept, kept] at other

/-- What an operation does to the destination. -/
theorem executeHandler_dst (run : executeHandler (guestOps status) host s = (rc, b)) :
    b.ctxt.dst.shape = s.ctxt.dst.shape ∨
      s.ctxt.opcode.target = .handler .push ∧ b.ctxt.dst.type = .mem := by
  unfold executeHandler at run
  split at run
  case h_1 h target =>
    split at run
    · obtain ⟨-, rfl⟩ := Prod.mk.inj run
      exact .inl rfl
    · cases h with
      | push =>
        have memory := (@Emulator.emPush_spec status s).2.2
        rw [show emPush (guestOps status) s = _ from run] at memory
        exact .inr ⟨target, memory⟩
      | pop => exact .inl (Emulator.emPop_spec run).2.1.1
      | _ =>
        obtain ⟨-, rfl⟩ := Prod.mk.inj run
        exact .inl rfl
  case h_2 =>
    obtain ⟨-, rfl⟩ := Prod.mk.inj run
    exact .inl rfl

/-- What the operation of these instructions does. -/
structure Emulator.Operated (s b : Emulator Guest) : Prop where
  computes : s.Computes (fun i => s.gpr i + s.stackMove i) b
  df : rflagsDf b.ctxt.rflags = rflagsDf s.ctxt.rflags
  value : s.ctxt.opcode.target = .handler .pop → b.ctxt.dst.value = b.ctxt.src1.value

theorem MoveEntry.operated (kind : MoveEntry s.ctxt.opcode)
    (run : executeHandler (guestOps status) host s = (.continue, b)) : s.Operated b := by
  rcases kind with ⟨k, entry⟩ | ⟨h, entry⟩
  · have target := entry.target
    have still : s.stackMove = fun _ => 0 := by
      funext i
      unfold Emulator.stackMove
      rw [target]
      cases k <;> simp [StringOp.handler]
    have only (c : EmContext) (cache : c.cache = s.ctxt.cache) :
        s.Computes (fun i => s.gpr i + s.stackMove i) ⟨c, s.vcpu⟩ := by
      have same : s.SameRegisters promptOps ⟨c, s.vcpu⟩ := .of_eq rfl cache
      simpa [still] using (⟨same.reg, same.coherent⟩ : s.Computes s.gpr _)
    have other : ∀ {P : Prop}, s.ctxt.opcode.target = .handler .pop → P := by
      intro P pop
      rw [target] at pop
      cases k <;> cases pop
    by_cases cmps : k = .cmps
    · have fast : s.ctxt.opcode.has insnFastop = true := by
        rw [entry.fastop, cmps]
        rfl
      rw [executeHandler_fast host target fast] at run
      obtain ⟨-, rfl⟩ := Prod.mk.inj run
      exact ⟨only _ rfl, rflagsDf_setArith _ _, other⟩
    · have soft : s.ctxt.opcode.has insnFastop = false := by
        rw [entry.fastop, decide_eq_false cmps]
      have mov : k.handler = .mov := by
        cases k <;> first | rfl | exact absurd rfl cmps
      rw [executeHandler_soft host target soft, mov] at run
      obtain ⟨-, rfl⟩ := Prod.mk.inj run
      exact ⟨only _ rfl, rfl, other⟩
  · rw [executeHandler_soft host entry.target entry.fastop] at run
    have target := entry.target
    rcases entry.kind with rfl | rfl
    · obtain ⟨computes, rflags, -⟩ := @Emulator.emPush_spec status s
      rw [show emPush (guestOps status) s = _ from run] at computes rflags
      refine ⟨?_, congrArg rflagsDf rflags, fun pop => by cases target.symm.trans pop⟩
      simpa [Emulator.stackMove, target] using computes
    · obtain ⟨computes, shape, value⟩ := Emulator.emPop_spec run
      refine ⟨?_, congrArg rflagsDf shape.2, fun _ => value rfl⟩
      simpa [Emulator.stackMove, target] using computes

theorem readInputs_kept {a : Emulator Guest} (flags : s.ctxt.opcode.has insnNoflags = false)
    (read : readInputs (guestOps status) s = (rc, a)) :
    s.ReadsOnly a ∧ a.ctxt.dst.shape = s.ctxt.dst.shape ∧ a.ctxt.rflags = s.vcpu.rflags := by
  have only : s.ReadsOnly (readInputs (guestOps status) s).2 := .readInputs
  have shape := (@Emulator.shapeRule status).readInputs s
  rw [read] at only
  rw [read, flags, if_neg Bool.false_ne_true] at shape
  exact ⟨only, shape⟩

section Fits

variable (kind : MoveEntry s.ctxt.opcode)
  (fits : DstFits s.ctxt.opcode s.ctxt.operandSize s.ctxt.dst)

include kind fits

/-- A round that comes to the end of its operation. -/
theorem MoveEntry.once (run : emulateOnce (guestOps status) host s = (.continue, v)) :
    (s.Coherent promptOps → v.Coherent promptOps) ∧
      rflagsDf v.ctxt.rflags = rflagsDf s.vcpu.rflags ∧ ∀ i, i ≠ regRax →
        v.gpr i = s.afterPop v.ctxt.src1.value i (s.gpr i + s.stackMove i) := by
  obtain ⟨b, first, write⟩ := (Stage.andThen_cases run).resolve_right fun h => h.1 rfl
  obtain ⟨a, read, execute⟩ := (Stage.andThen_cases first).resolve_right fun h => h.1 rfl
  obtain ⟨only, shape, rflags⟩ := readInputs_kept kind.noflags read
  have output := @Emulator.writes_writeOutputs status b
  rw [write] at output
  have opcode := only.opcode
  have operated : a.Operated b := MoveEntry.operated (opcode ▸ kind) execute
  have form : b.ctxt.form = s.ctxt.form := by
    have kept := congrArg Prod.snd ((guestOps status).apart_unit.operate host s)
    rw [show operate _ host s = _ from first] at kept
    exact EmContext.form_of_kept kept
  have kept := executeHandler_dst execute
  rw [opcode] at kept
  obtain ⟨size', -, opcode'⟩ := EmContext.of_form form
  have result : DstFits b.ctxt.opcode b.ctxt.operandSize b.ctxt.dst := by
    rw [opcode', size']
    exact kept.elim (fun same => fits.of_shape (same.trans shape)) fun push => dstFits_of_mem push.2
  refine ⟨fun start => ?_, ?_, fun i ne => ?_⟩
  · exact output.computes.coherent (operated.computes.coherent (only.registers.coherent start))
  · rw [output.rflags, operated.df, rflags]
  · have moved : b.gpr i = s.gpr i + s.stackMove i := by
      rw [operated.computes.gpr, show a.gpr = s.gpr from only.registers.reg,
        Emulator.stackMove_of_form only.form]
    rw [← moved, output.computes.gpr, output.src1, opcode']
    by_cases pop : StackEntry .pop s.ctxt.opcode
    · have same := kept.resolve_right fun push => by cases push.1.symm.trans pop.target
      rw [pop.nw, if_neg Bool.false_ne_true, result.written ne,
        Emulator.afterPop_congr (same.trans shape) size',
        operated.value (opcode ▸ pop.target)]
    · rw [fits.afterPop_eq pop ne]
      split
      · rfl
      · rw [result.written ne, result.afterPop_eq (opcode' ▸ pop) ne]

omit kind in
/-- A round that ends with an exit can be taken up again. -/
theorem DstFits.exit (run : emulateOnce (guestOps status) host s = (rc, v)) (ne : rc ≠ .continue) :
    DstFits s.ctxt.opcode s.ctxt.operandSize v.ctxt.dst := by
  have read {rc : EmStatus} {a : Emulator Guest} (run : readInputs (guestOps status) s = (rc, a)) :
      a.ctxt.dst.shape = s.ctxt.dst.shape := by
    have shape := ((@Emulator.shapeRule status).readInputs s).1
    rw [run] at shape
    refine shape.trans ?_
    split <;> rfl
  rcases Stage.andThen_cases run with ⟨b, -, write⟩ | ⟨-, first⟩
  · have output := @Emulator.writes_writeOutputs status b
    rw [write] at output
    exact dstFits_of_mem (output.type.trans (output.exit.resolve_left ne))
  · rcases Stage.andThen_cases first with ⟨a, input, execute⟩ | ⟨-, input⟩
    · rcases executeHandler_dst execute with same | ⟨-, memory⟩
      · exact fits.of_shape (same.trans (read input))
      · exact dstFits_of_mem memory
    · exact fits.of_shape (read input)

end Fits

end Once

/-! ## Rounds -/

section Round

variable {status : Guest → BitVec 64 → EmStatus} {host : HostFlags} {insn : ℕ → BitVec 8}
  {s u v : Emulator Guest} {next : Next}

/-- The state after the count has been read. -/
def Emulator.counted (s : Emulator Guest) : Emulator Guest := (s.count promptOps).2

/-- A round has something to do. -/
def Emulator.Counts (s : Emulator Guest) : Prop :=
  s.ctxt.prefixes.rep ≠ 0 → lowBytes s.ctxt.addressSize (s.gpr regRcx) ≠ 0

theorem count_eq_zero_iff : (s.count (guestOps status)).1 = 0 ↔ ¬s.Counts := by
  unfold Emulator.count Emulator.Counts
  split
  case isTrue rep =>
    rw [Emulator.gprRead_fst]
    exact ⟨fun zero counts => counts rep zero, fun empty =>
      Classical.not_not.mp fun count => empty fun _ => count⟩
  case isFalse rep =>
    exact iff_of_false (show (1 : BitVec 64) ≠ 0 by decide) fun empty =>
      empty fun again => absurd again rep

theorem readsOnly_counted (s : Emulator Guest) : s.ReadsOnly s.counted := by
  unfold Emulator.counted Emulator.count
  split
  · exact .gprReadShifted _ _ _
  · exact .refl s

theorem counted_vcpu : s.counted.vcpu = s.vcpu := by
  unfold Emulator.counted Emulator.count
  split <;> rfl

theorem counted_dst : s.counted.ctxt.dst = s.ctxt.dst := by
  unfold Emulator.counted Emulator.count
  split <;> rfl

theorem decodeOperands_string {k : StringOp} {c : EmContext} (entry : k.Entry c.opcode)
    (gpr : Fin 16 → BitVec 64) (size : ℕ) :
    (decodeOperands gpr insn c).1 = .continue ∧
      DstFits c.opcode size (decodeOperands gpr insn c).2.dst := by
  unfold decodeOperands
  rw [Reader.get_bind_run, entry.dst, entry.src1, entry.src2]
  cases k with
  | lods => exact ⟨rfl, fun _ => .inl rfl⟩
  | movs => exact ⟨rfl, fun register => by cases register⟩
  | cmps => exact ⟨rfl, fun register => by cases register⟩
  | stos => exact ⟨rfl, fun register => by cases register⟩

/-- The registers at the end of a round. -/
def Emulator.stepped (v : Emulator Guest) (i : Fin 16) : BitVec 64 :=
  v.indexed i + if v.ctxt.prefixes.rep ≠ 0 ∧ i = regRcx then -1 else 0

/-- The emulator at the start of a round. -/
structure Emulator.Going (s : Emulator Guest) : Prop where
  coherent : s.Coherent promptOps
  clean : s.ctxt.cache.w = fun _ => false
  dst : DstFits s.ctxt.opcode s.ctxt.operandSize s.ctxt.dst

theorem Emulator.Going.counted (going : s.Going) : s.counted.Going := by
  have only := readsOnly_counted s
  refine ⟨only.registers.coherent going.coherent, only.filled.w.trans going.clean, ?_⟩
  rw [counted_dst, only.opcode, (EmContext.of_form only.form).1]
  exact going.dst

theorem Emulator.Going.once (going : s.Going) (kind : MoveEntry s.ctxt.opcode)
    (run : emulateOnce (guestOps status) host s.counted = (.continue, v)) :
    v.Coherent promptOps ∧ rflagsDf v.ctxt.rflags = rflagsDf s.vcpu.rflags ∧ ∀ i, i ≠ regRax →
      v.gpr i = s.afterPop v.ctxt.src1.value i (s.gpr i + s.stackMove i) := by
  have only := readsOnly_counted s
  obtain ⟨size, -, opcode⟩ := EmContext.of_form only.form
  obtain ⟨coherent, df, gpr⟩ := MoveEntry.once (opcode ▸ kind) going.counted.dst run
  rw [counted_vcpu] at df
  refine ⟨coherent going.counted.coherent, df, fun i ne => ?_⟩
  rw [gpr i ne, afterPop_congr (congrArg EmOperand.shape counted_dst) size,
    stackMove_of_form only.form, show s.counted.gpr = s.gpr from only.registers.reg]

theorem StringOp.Entry.repeatInsn {k : StringOp} (entry : k.Entry s.ctxt.opcode)
    (run : repeatInsn (guestOps status) insn s = (next, u)) :
    (∀ rc, next ≠ .exit rc) ∧ (next = .restart → u.ctxt.cache.w = (fun _ => false) ∧
      DstFits u.ctxt.opcode u.ctxt.operandSize u.ctxt.dst) := by
  have form := @repeatInsn_form _ (guestOps status) insn s
  rw [run] at form
  obtain ⟨size, -, opcode⟩ := EmContext.of_form form
  rw [opcode, size]
  unfold Haxm.repeatInsn at run
  dsimp only at run
  split at run
  · obtain ⟨rfl, rfl⟩ := Prod.mk.inj run
    exact ⟨fun _ => Next.noConfusion, Next.noConfusion⟩
  · obtain ⟨go, fits⟩ := @decodeOperands_string insn k
      (s.registerAdd (guestOps status) regRcx (-1)).ctxt entry s.vcpu.gpr s.ctxt.operandSize
    rw [show (guestOps status).readGpr (s.registerAdd (guestOps status) regRcx (-1)).vcpu =
      s.vcpu.gpr from rfl, if_neg (not_not.mpr go)] at run
    obtain ⟨rfl, rfl⟩ := Prod.mk.inj run
    exact ⟨fun _ => Next.noConfusion, fun _ => ⟨rfl, fits⟩⟩

/-- The end of a round, which leads to the next one or to the end of the instruction. -/
theorem afterOnce_spec (coherent : v.Coherent promptOps)
    (string : v.ctxt.prefixes.rep ≠ 0 → ∃ k : StringOp, k.Entry v.ctxt.opcode)
    (run : afterOnce (guestOps status) insn v = (next, u)) :
    (∀ rc, next ≠ .exit rc) ∧ u.gpr = v.stepped ∧ u.Coherent promptOps ∧
      (next = .restart → u.Going) ∧ (v.ctxt.prefixes.rep = 0 → u.ctxt.src1 = v.ctxt.src1) := by
  have moved := @Emulator.computes_advanceIndexes status v
  have rest := moved.coherent coherent
  obtain ⟨-, prefixes, opcode⟩ := EmContext.of_form (advanceIndexes_form (guestOps status) v)
  unfold afterOnce at run
  rw [prefixes] at run
  by_cases rep : v.ctxt.prefixes.rep ≠ 0
  · rw [if_pos rep] at run
    obtain ⟨k, entry⟩ := string rep
    obtain ⟨stays, restart⟩ := StringOp.Entry.repeatInsn (opcode ▸ entry) run
    obtain ⟨computes, -⟩ := @Emulator.Coherent.repeatInsn status _ rest insn
    rw [run] at computes
    have coherent' := computes.coherent rest
    refine ⟨stays, ?_, coherent', fun again => ?_, fun zero => absurd zero rep⟩
    · rw [computes.gpr, moved.gpr]
      funext i
      simp only [Emulator.stepped, ne_eq, rep, not_false_eq_true, true_and]
    · exact ⟨coherent', (restart again).1, (restart again).2⟩
  · rw [if_neg rep] at run
    obtain ⟨rfl, rfl⟩ := Prod.mk.inj run
    refine ⟨fun rc => Next.noConfusion, ?_, rest, Next.noConfusion, fun _ => ?_⟩
    · rw [moved.gpr]
      funext i
      rw [Emulator.stepped, if_neg fun again => rep again.1]
      simp
    · unfold advanceIndexes
      dsimp only
      split <;> split <;> rfl

/-- How a round ends. -/
inductive RoundEnd (host : HostFlags) (status : Guest → BitVec 64 → EmStatus)
    (insn : ℕ → BitVec 8) (s : Emulator Guest) : Next → Emulator Guest → Prop
  /-- The count is zero. -/
  | idle {u : Emulator Guest} (empty : ¬s.Counts) (gpr : u.gpr = s.gpr)
      (coherent : u.Coherent promptOps) : RoundEnd host status insn s .done u
  /-- The operation is not carried out. -/
  | exit {rc : EmStatus} {u : Emulator Guest} (vcpu : u.vcpu.gpr = s.vcpu.gpr)
      (dst : DstFits s.ctxt.opcode s.ctxt.operandSize u.ctxt.dst) :
      RoundEnd host status insn s (.exit rc) u
  | moved {next : Next} {u v : Emulator Guest} (counts : s.Counts) (stays : ∀ rc, next ≠ .exit rc)
      (once : emulateOnce (guestOps status) host s.counted = (.continue, v))
      (gpr : u.gpr = v.stepped)
      (coherent : u.Coherent promptOps) (restart : next = .restart → u.Going)
      (src1 : v.ctxt.prefixes.rep = 0 → u.ctxt.src1 = v.ctxt.src1) :
      RoundEnd host status insn s next u

/-- The instruction moves registers, and only string instructions are repeated. -/
def Emulator.Moves (s : Emulator Guest) : Prop :=
  MoveEntry s.ctxt.opcode ∧ (s.ctxt.prefixes.rep ≠ 0 → ∃ k : StringOp, k.Entry s.ctxt.opcode)

theorem Emulator.Moves.of_form (moves : s.Moves) (form : u.ctxt.form = s.ctxt.form) : u.Moves := by
  obtain ⟨-, prefixes, opcode⟩ := EmContext.of_form form
  rwa [Moves, prefixes, opcode]

theorem form_of_counted (once : emulateOnce (guestOps status) host s.counted = (.continue, v)) :
    v.ctxt.form = s.ctxt.form :=
  (form_of_once once).trans (readsOnly_counted s).form

theorem Emulator.Going.round (going : s.Going) (moves : s.Moves)
    (run : emRound (guestOps status) host insn s = (next, u)) :
    RoundEnd host status insn s next u := by
  have only := readsOnly_counted s
  cases emRound_cases run with
  | idle none =>
    exact .idle (count_eq_zero_iff.mp none) only.registers.reg going.counted.coherent
  | exit once ne =>
    have lawful := guestOps_lawful status
    have apart : (guestOps status).Apart Guest.gpr :=
      ⟨lawful.readMemory, lawful.readMemoryPost, lawful.writeMemory⟩
    have vcpu := congrArg Prod.fst (apart.emulateOnce host lawful.writeRflags s.counted)
    have dst := going.counted.dst.exit once ne
    rw [show emulateOnce (guestOps status) host s.counted = _ from once] at vcpu
    rw [only.opcode, (EmContext.of_form only.form).1] at dst
    exact .exit (vcpu.trans only.vcpu.gpr) dst
  | after some once after =>
    obtain ⟨coherent, -, -⟩ := going.once moves.1 once
    obtain ⟨stays, gpr, rest, restart, src1⟩ := afterOnce_spec coherent
      (moves.of_form (form_of_counted once)).2 after
    have counts := Classical.not_not.mp (mt count_eq_zero_iff.mpr some)
    exact .moved counts stays once gpr rest restart src1

end Round

/-- The states in which the rounds of a call begin. -/
inductive RoundState (host : HostFlags) (status : Guest → BitVec 64 → EmStatus)
    (insn : ℕ → BitVec 8) (s : Emulator Guest) : Emulator Guest → Prop
  | start : RoundState host status insn s s.start
  | next {t u : Emulator Guest} (reached : RoundState host status insn s t)
      (run : emRound (guestOps status) host insn t = (.restart, u)) :
      RoundState host status insn s u

section Reached

variable {status : Guest → BitVec 64 → EmStatus} {host : HostFlags} {mode : EmMode}
  {insn : ℕ → BitVec 8} {g : Guest} {s t : Emulator Guest}

theorem RoundState.form (reached : RoundState host status insn s t) :
    t.ctxt.form = s.ctxt.form := by
  induction reached with
  | start => rfl
  | @next t u reached run ih =>
    have round := ((@formRule _ (guestOps status) host insn _).emRound ih trivial).2
    rwa [run] at round

theorem RoundState.going (reached : RoundState host status insn s t) (going : s.Going)
    (moves : s.Moves) : t.Going := by
  induction reached with
  | start => exact ⟨⟨going.coherent.1, going.coherent.2⟩, going.clean, going.dst⟩
  | next reached run ih =>
    cases ih.round (moves.of_form reached.form) run with
    | moved _ _ _ _ _ restart => exact restart rfl

/-- The rounds of a call are reached. -/
theorem emRounds_reached (reached : RoundState host status insn s t) (fuel : ℕ) :
    (∃ u, RoundState host status insn s u ∧ emRound (guestOps status) host insn u =
      emRounds (guestOps status) host insn fuel t) ∨
      (emRounds (guestOps status) host insn fuel t).1 = .restart := by
  induction fuel generalizing t with
  | zero => exact .inr rfl
  | succ fuel ih =>
    rw [emRounds]
    generalize run : emRound (guestOps status) host insn t = r
    obtain ⟨next, u⟩ := r
    cases next with
    | restart => exact ih (.next reached run)
    | _ => exact .inl ⟨t, reached, run⟩

/-- A call that does not finish has left its last round. -/
theorem exists_round_of_left
    (left : (emEmulateInsn (guestOps status) host insn s).2.ctxt.finished = false) :
    ∃ rc t u, RoundState host status insn s t ∧
      emRound (guestOps status) host insn t = (.exit rc, u) ∧
      emEmulateInsn (guestOps status) host insn s = emFinish (guestOps status) (.exit rc) u := by
  obtain ⟨fuel, run⟩ : ∃ fuel, emEmulateInsn (guestOps status) host insn s =
      emFinish (guestOps status) (emRounds (guestOps status) host insn fuel s.start).1
        (emRounds (guestOps status) host insn fuel s.start).2 :=
    ⟨emCount (guestOps status) s.start + 1, rfl⟩
  have reached := @emRounds_reached status host insn s _ .start fuel
  rw [run] at left ⊢
  generalize emRounds (guestOps status) host insn fuel s.start = r at reached left
  obtain ⟨next, u⟩ := r
  cases next with
  | done => cases left
  | restart => cases left
  | exit rc =>
    rcases reached with ⟨t, reached, last⟩ | restart
    · exact ⟨rc, t, u, reached, last, rfl⟩
    · cases restart

end Reached

/-! ## The instructions of the manual -/

/-- The string instruction of a mnemonic. -/
def Sdm.Mnemonic.stringOp : Sdm.Mnemonic → Option StringOp
  | .movs => some .movs
  | .cmps => some .cmps
  | .stos => some .stos
  | .lods => some .lods
  | _ => none

/-- The stack instruction of a mnemonic. -/
def Sdm.Mnemonic.stackOp : Sdm.Mnemonic → Option Handler
  | .push => some .push
  | .pop => some .pop
  | _ => none

/-- How far an instruction with operands of `size` bytes moves a register: `down` is the flag DF,
`rep` a repeat prefix. -/
def Sdm.Mnemonic.addend (m : Sdm.Mnemonic) (size : ℕ) (down rep : Bool) (i : Fin 16) : Option ℤ :=
  if m = .push ∧ i = emRegRsp then some (-size)
  else if m = .pop ∧ i = emRegRsp then some size
  else if m.stringOp.isSome ∧ rep ∧ i = regRcx then some (-1)
  else if m ∈ [.movs, .cmps, .lods] ∧ i = regRsi ∨ m ∈ [.movs, .cmps, .stos] ∧ i = regRdi then
    some (if down then -size else size)
  else none

/-- The entry `e` of the form `f`, if that is one of these instructions. -/
def movesFit (f : Sdm.Form) (e : EmOpcode) : Bool :=
  (f.mnemonic.stackOp.all fun h => decide (StackEntry h e)) &&
    f.mnemonic.stringOp.all fun k => decide (k.Entry e)

theorem table_movesFit (m : OpcodeMap) :
    m.allEntries (fun b digit e => (Sdm.find m b digit).all fun f => movesFit f e) = true := by
  cases m <;> decide +kernel

section Instructions

variable {mode : EmMode} {insn : ℕ → BitVec 8} {l : Layout} {e : EmOpcode} {f : Sdm.Form}

variable (imp : Implements mode insn l e)

section Form

variable (form : Sdm.find l.map l.opcode.toNat (modrmOpc (l.modrm insn)).toNat = some f)

include imp form

theorem Implements.movesFit :
    (∀ h, f.mnemonic.stackOp = some h → StackEntry h e) ∧
      ∀ k, f.mnemonic.stringOp = some k → k.Entry e := by
  have fits := imp.of_allEntries (table_movesFit l.map)
  rw [form, Option.all_some, Haxm.movesFit, Bool.and_eq_true, Option.all_eq_true,
    Option.all_eq_true] at fits
  exact ⟨fun h known => of_decide_eq_true (fits.1 h known),
    fun k known => of_decide_eq_true (fits.2 k known)⟩

theorem Implements.moveEntry
    (moves : f.mnemonic = .push ∨ f.mnemonic = .pop ∨ f.mnemonic.stringOp.isSome) :
    MoveEntry e := by
  obtain ⟨stack, string⟩ := imp.movesFit form
  rcases moves with m | m | m
  · exact .inr ⟨_, stack .push (m ▸ rfl)⟩
  · exact .inr ⟨_, stack .pop (m ▸ rfl)⟩
  · obtain ⟨k, known⟩ := Option.isSome_iff_exists.mp m
    exact .inl ⟨k, string k known⟩

end Form

include imp

omit imp in
theorem StackEntry.entrySize {h : Handler} (entry : StackEntry h e)
    (known : layout mode insn = some l) :
    l.entrySize mode e = 2 ∨ l.entrySize mode e = 4 ∨ l.entrySize mode e = 8 := by
  have := layout_operandSize known
  rw [Layout.entrySize, entry.byteop, if_neg Bool.false_ne_true]
  split_ifs <;> omega

/-- The destination that has been decoded. -/
theorem Implements.dstFits (kind : MoveEntry e) (g : Guest) :
    DstFits e (l.entrySize mode e) (decodedInsn mode insn g).ctxt.dst := by
  have decoded := imp.decoded g
  obtain ⟨c, before, operands⟩ := decoded.operands
  have fresh := decoded.dst.writeFinished
  generalize decodedInsn mode insn g = s at fresh operands
  have dst := operands.dst
  rw [before.opcode] at dst
  intro register
  rcases kind with ⟨k, entry⟩ | ⟨h, entry⟩
  · rw [entry.dst] at dst
    cases k with
    | lods =>
      rw [dst]
      exact .inl rfl
    | _ =>
      rw [dst] at register
      cases register
  have kinds := entry.dst
  rcases entry.kind with rfl | rfl
  · rw [show e.decodeDst = _ from kinds] at dst
    rw [dst] at register
    cases register
  · have size : c.operandSize ≠ 1 := by
      have := entry.entrySize imp.1
      rw [before.operandSize]
      omega
    refine .inr ⟨entry, fresh, ?_⟩
    rw [← before.operandSize]
    rcases show e.decodeDst = some .opcReg ∨ e.decodeDst = some .modrmRm from kinds with
      opcReg | modrmRm
    · rw [opcReg] at dst
      rw [dst]
      show (byteRegister c _).reg.shift = 0 ∧ (byteRegister c _).size = _
      rw [byteRegister_eq _ size]
      exact ⟨rfl, rfl⟩
    · rw [modrmRm] at dst
      obtain ⟨op, dst_eq⟩ : ∃ op, s.ctxt.dst = (decodeOpModrmRm g.gpr op insn c).1.2 := ⟨_, dst⟩
      by_cases mod : modrmMod c.bytes.modrm = 3
      · rw [dst_eq, decodeOpModrmRm_reg g.gpr op mod, byteRegister_eq _ size]
        exact ⟨rfl, rfl⟩
      · rw [dst_eq, (decodeOpModrmRm_mem g.gpr op mod).1] at register
        cases register

section Calls

variable {host : HostFlags} {g : Guest} {s : Emulator Guest}

omit imp in
theorem Emulator.Callable.going {f : EmMode × ℕ × ℕ × PrefixSet × EmOpcode} (call : s.Callable f)
    (dst : DstFits f.2.2.2.2 f.2.1 s.ctxt.dst) : s.Going := by
  obtain rfl := call.form
  exact ⟨call.coherent, call.clean, dst⟩

theorem CallState.moves (called : CallState host mode insn g s) (kind : MoveEntry e) : s.Moves := by
  have form := (called.callable imp).form
  rw [Emulator.Moves, show s.ctxt.opcode = e from congrArg (·.2.2.2.2) form,
    show s.ctxt.prefixes = prefixSet insn from congrArg (·.2.2.2.1) form]
  exact ⟨kind, imp.string_of_rep⟩

/-- Every call of an instruction begins like a round. -/
theorem CallState.going (called : CallState host mode insn g s) (kind : MoveEntry e) : s.Going := by
  apply (called.callable imp).going
  induction called with
  | first => exact imp.dstFits kind g
  | @again s status g' called left ih =>
    have call := called.callable imp
    have moves := called.moves imp kind
    obtain ⟨rc, t, u, reached, last, run⟩ := exists_round_of_left left
    rw [run]
    cases (reached.going (call.going ih) moves).round (moves.of_form reached.form) last with
    | moved _ stays => exact absurd rfl (stays rc)
    | exit _ dst =>
      rw [← reached.form.trans call.form]
      exact dst

end Calls

end Instructions

/-! ## How far the registers have moved -/

section Moves

variable {status : Guest → BitVec 64 → EmStatus} {host : HostFlags} {insn : ℕ → BitVec 8}
  {t u v : Emulator Guest} {next : Next} {m : Sdm.Mnemonic} {i : Fin 16} {d : ℤ}

theorem indexStep_eq (c : EmContext) :
    indexStep c =
      BitVec.ofInt 64 (if rflagsDf c.rflags then -c.operandSize else c.operandSize) := by
  unfold indexStep
  split
  · rw [BitVec.ofInt_neg, BitVec.ofInt_natCast]
  · rw [BitVec.ofInt_natCast]

/-- The registers that instructions move. -/
theorem Sdm.Mnemonic.addend_cases {size : ℕ} {down rep : Bool}
    (moves : m.addend size down rep i = some d) :
    (∃ h, m.stackOp = some h ∧ i = emRegRsp ∧ d = if h = .push then -(size : ℤ) else size) ∨
      ∃ k, m.stringOp = some k ∧
        (rep = true ∧ i = regRcx ∧ d = -1 ∨
          (k.src = .si ∧ i = regRsi ∨ k.dst = .di ∧ i = regRdi) ∧
            d = (if down then -size else size : ℤ)) := by
  have si : ∀ m ∈ [Sdm.Mnemonic.movs, .cmps, .lods], m.stringOp.map StringOp.src = some .si := by
    decide
  have di : ∀ m ∈ [Sdm.Mnemonic.movs, .cmps, .stos], m.stringOp.map StringOp.dst = some .di := by
    decide
  unfold Sdm.Mnemonic.addend at moves
  split at moves
  case isTrue h => exact .inl ⟨.push, h.1 ▸ rfl, h.2, (Option.some.inj moves).symm⟩
  split at moves
  case isTrue h => exact .inl ⟨.pop, h.1 ▸ rfl, h.2, (Option.some.inj moves).symm⟩
  split at moves
  case isTrue h =>
    obtain ⟨k, known⟩ := Option.isSome_iff_exists.mp h.1
    exact .inr ⟨k, known, .inl ⟨h.2.1, h.2.2, (Option.some.inj moves).symm⟩⟩
  split at moves
  case isFalse => cases moves
  case isTrue h =>
    have amount := (Option.some.inj moves).symm
    rcases h with ⟨mem, register⟩ | ⟨mem, register⟩
    · obtain ⟨k, known, src⟩ := Option.map_eq_some_iff.1 (si m mem)
      exact .inr ⟨k, known, .inr ⟨.inl ⟨src, register⟩, amount⟩⟩
    · obtain ⟨k, known, dst⟩ := Option.map_eq_some_iff.1 (di m mem)
      exact .inr ⟨k, known, .inr ⟨.inr ⟨dst, register⟩, amount⟩⟩

theorem Sdm.Mnemonic.addend_small {size : ℕ} {down rep : Bool}
    (sizes : size = 1 ∨ size = 2 ∨ size = 4 ∨ size = 8)
    (moves : m.addend size down rep i = some d) : (-8 ≤ d ∧ d ≤ 8) ∧ i ≠ regRax := by
  rcases addend_cases moves with ⟨h, -, rfl, rfl⟩ | ⟨k, -, ⟨-, rfl, rfl⟩ | ⟨i, rfl⟩⟩
  · exact ⟨by split <;> omega, by decide⟩
  · exact ⟨by omega, by decide⟩
  · refine ⟨by split <;> omega, ?_⟩
    rcases i with ⟨-, rfl⟩ | ⟨-, rfl⟩
    · decide
    · decide

/-- A string instruction moves each of its registers once. -/
theorem StringOp.Entry.stepped {k : StringOp} (entry : k.Entry v.ctxt.opcode)
    (moves : (v.ctxt.prefixes.rep ≠ 0 ∧ i = regRcx ∧ d = -1) ∨
      (k.src = .si ∧ i = regRsi ∨ k.dst = .di ∧ i = regRdi) ∧
        d = (if rflagsDf v.ctxt.rflags then -v.ctxt.operandSize else v.ctxt.operandSize : ℤ)) :
    i ≠ emRegRsp ∧ v.stepped i = v.gpr i + BitVec.ofInt 64 d := by
  unfold Emulator.stepped Emulator.indexed
  rcases moves with ⟨rep, rfl, rfl⟩ | ⟨⟨src, rfl⟩ | ⟨dst, rfl⟩, rfl⟩
  · refine ⟨by decide, ?_⟩
    have again : v.ctxt.prefixes.rep ≠ 0 ∧ regRcx = regRcx := ⟨rep, rfl⟩
    rw [if_pos again]
    simp [show regRcx ≠ regRdi by decide, show regRcx ≠ regRsi by decide]
  · refine ⟨by decide, ?_⟩
    rw [← indexStep_eq]
    simp [entry.src1, src, show regRsi ≠ regRdi by decide, show regRsi ≠ regRcx by decide]
  · refine ⟨by decide, ?_⟩
    rw [← indexStep_eq]
    simp [entry.dst, dst, show regRdi ≠ regRsi by decide, show regRdi ≠ regRcx by decide]

/-- Adding to all 64 bits, also if POP writes the register afterwards. -/
theorem Emulator.afterPop_eq_iff {a : ℕ} {value x : BitVec 64} (small : -8 ≤ d ∧ d ≤ 8)
    (size : t.ctxt.dst.type = .reg → t.ctxt.dst.reg.index = i → t.ctxt.operandSize = 2 ∨
      t.ctxt.operandSize = 4 ∨ t.ctxt.operandSize = 8) :
    t.afterPop value i (x + BitVec.ofInt 64 d) = t.afterPop value i (registerMoved mode a x d) ↔
      MoveFits mode a x d ∨
        t.ctxt.dst.type = .reg ∧ t.ctxt.dst.reg.index = i ∧ t.ctxt.operandSize ≠ 2 := by
  rw [← add_eq_registerMoved_iff small]
  unfold Emulator.afterPop
  by_cases written : t.ctxt.dst.type = .reg ∧ t.ctxt.dst.reg.index = i
  · rw [if_pos written, if_pos written]
    by_cases two : t.ctxt.operandSize = 2
    · rw [two, if_neg (by decide), putBytes_two_eq_iff]
      exact ⟨.inl, fun h => h.resolve_right fun other => other.2.2 rfl⟩
    · have whole : (if t.ctxt.operandSize = 4 then 8 else t.ctxt.operandSize) = 8 := by
        rcases size written.1 written.2 with two' | four | eight
        · exact absurd two' two
        · rw [if_pos four]
        · rw [eight, if_neg (by decide)]
      rw [whole, putBytes_zero_eight, putBytes_zero_eight]
      exact iff_of_true rfl (.inr ⟨written.1, written.2, two⟩)
  · rw [if_neg written, if_neg written]
    exact ⟨.inl, fun h => h.resolve_right fun other => written ⟨other.1, other.2.1⟩⟩

/-- The registers of the virtual CPU after a round. -/
theorem Emulator.Coherent.finished (coherent : u.Coherent promptOps)
    (stays : ∀ rc, next ≠ .exit rc) :
    (emFinish (guestOps status) next u).2.vcpu.gpr = u.gpr := by
  have vcpu := @Emulator.Coherent.emFinish_vcpu status u ⟨coherent.1, coherent.2⟩
  cases next with
  | exit rc => exact absurd rfl (stays rc)
  | done => exact congrArg Guest.gpr vcpu
  | restart => exact congrArg Guest.gpr vcpu

section Claim

variable {mode : EmMode} {l : Layout} {e : EmOpcode} {f : Sdm.Form} {g : Guest} {s : Emulator Guest}

/-- In every round of every call, each register that the instruction moves has the value that a
register of the address size would have, if the sum does not leave that part of the register and
only then. POP also gets away with it if it overwrites the stack pointer. -/
theorem registerMoves_iff (imp : Implements mode insn l e)
    (form : Sdm.find l.map l.opcode.toNat (modrmOpc (l.modrm insn)).toNat = some f)
    (moves : f.mnemonic = .push ∨ f.mnemonic = .pop ∨ f.mnemonic.stringOp.isSome)
    (called : CallState host mode insn g s) (reached : RoundState host status insn s t)
    (run : emRound (guestOps status) host insn t = (next, u)) :
    ((∃ rc, next = .exit rc) ∨ ¬t.Counts →
      (emFinish (guestOps status) next u).2.vcpu.gpr = t.vcpu.gpr) ∧
    (t.Counts → (∀ rc, next ≠ .exit rc) → ∀ i d,
      f.mnemonic.addend (l.entrySize mode e) (rflagsDf t.vcpu.rflags) (repeated insn) i = some d →
      ((emFinish (guestOps status) next u).2.vcpu.gpr i = t.afterPop u.ctxt.src1.value i
          (registerMoved mode (prefixedAddressSize mode insn) (t.vcpu.gpr i) d) ↔
        MoveFits mode (prefixedAddressSize mode insn) (t.vcpu.gpr i) d ∨
          t.ctxt.dst.type = .reg ∧ t.ctxt.dst.reg.index = i ∧ l.entrySize mode e ≠ 2)) := by
  have kind := imp.moveEntry form moves
  have moves := called.moves imp kind
  have going := reached.going (called.going imp kind) moves
  have moves' := moves.of_form reached.form
  have spec := going.round moves' run
  have registers : t.gpr = t.vcpu.gpr := going.coherent.reg_eq going.clean
  have same := reached.form.trans (called.callable imp).form
  have size : t.ctxt.operandSize = l.entrySize mode e := congrArg (·.2.1) same
  have prefixes : t.ctxt.prefixes = prefixSet insn := congrArg (·.2.2.2.1) same
  have opcode : t.ctxt.opcode = e := congrArg (·.2.2.2.2) same
  cases spec with
  | idle empty gpr coherent =>
    refine ⟨fun _ => ?_, fun counts => absurd counts empty⟩
    rw [coherent.finished fun _ => Next.noConfusion, gpr, registers]
  | exit vcpu dst => exact ⟨fun _ => vcpu, fun _ stays => absurd rfl (stays _)⟩
  | @moved _ _ v counts stays once gpr coherent restart src1 =>
    refine ⟨?_, fun _ _ i d moved => ?_⟩
    · rintro (⟨rc, exits⟩ | empty)
      · exact absurd exits (stays rc)
      · exact absurd counts empty
    obtain ⟨small, rax⟩ := Sdm.Mnemonic.addend_small (Layout.entrySize_cases imp.1 e) moved
    have sum : u.gpr i = t.afterPop u.ctxt.src1.value i (t.vcpu.gpr i + BitVec.ofInt 64 d) := by
      obtain ⟨stack, string⟩ := imp.movesFit form
      obtain ⟨-, df, value⟩ := going.once moves'.1 once
      obtain ⟨size', prefixes', opcode'⟩ := EmContext.of_form (form_of_counted once)
      rw [← opcode] at stack string
      rw [← size] at moved
      rw [← registers, gpr]
      rcases Sdm.Mnemonic.addend_cases moved with ⟨h, known, rfl, rfl⟩ | ⟨k, known, which⟩
      · have entry := stack h known
        have single : v.ctxt.prefixes.rep = 0 := by
          by_contra rep
          obtain ⟨k, string⟩ := moves'.2 (prefixes' ▸ rep)
          exact string.not_stack entry
        have still : v.stepped emRegRsp = v.gpr emRegRsp := by
          simp [Emulator.stepped, Emulator.indexed, show emRegRsp ≠ regRdi by decide,
            show emRegRsp ≠ regRsi by decide, single]
        have move : t.stackMove emRegRsp = BitVec.ofInt 64
            (if h = .push then -(t.ctxt.operandSize : ℤ) else t.ctxt.operandSize) := by
          rw [Emulator.stackMove, entry.target]
          rcases entry.kind with rfl | rfl <;> simp [BitVec.ofInt_neg]
        rw [still, src1 single, value _ (by decide), move]
      · have entry := string k known
        have rep (repeats : repeated insn = true) : v.ctxt.prefixes.rep ≠ 0 := by
          rw [prefixes', prefixes, ne_eq, prefixSet_rep, repeats]
          decide
        rw [← df, ← size'] at which
        obtain ⟨rsp, stepped⟩ := (opcode' ▸ entry : k.Entry v.ctxt.opcode).stepped
          (which.imp_left (And.imp_left rep))
        have kept (x y : BitVec 64) := going.dst.afterPop_eq entry.not_stack rax x y
        rw [stepped, value i rax, kept, kept, Emulator.stackMove, if_neg rsp]
        simp
    rw [coherent.finished stays, sum, Emulator.afterPop_eq_iff small, size]
    intro register index
    rcases going.dst register with acc | ⟨pop, -⟩
    · exact absurd (index.symm.trans acc) rax
    · rw [size]
      exact (opcode ▸ pop : StackEntry .pop e).entrySize imp.1

end Claim

end Moves

/-- STOSB. -/
def stosb : ℕ → BitVec 8
  | 0 => 0xaa
  | _ => 0

theorem implements_stosb :
    Implements .real stosb (legacyLayout .real stosb .oneByte 0) (OpcodeMap.oneByte.entry 0xaa) :=
  ⟨rfl, rfl, ⟨rfl, by decide⟩, by decide⟩

/-- A guest with DI at the end of its segment. -/
def edgeGuest : Guest :=
  { Guest.blank with gpr := fun i => if i = regRdi then 0xffff else 0 }

/-- The only round of this instruction. -/
def stosbRound : Next × Emulator Guest :=
  emRound promptOps clearFlags stosb (decodedInsn .real stosb edgeGuest).start

theorem stosb_registerMoves_iff :
    (decodedInsn .real stosb edgeGuest).start.Counts ∧ (∀ rc, stosbRound.1 ≠ .exit rc) ∧
      ((emFinish promptOps stosbRound.1 stosbRound.2).2.vcpu.gpr regRdi =
        (decodedInsn .real stosb edgeGuest).start.afterPop stosbRound.2.ctxt.src1.value regRdi
          (registerMoved .real (prefixedAddressSize .real stosb)
            ((decodedInsn .real stosb edgeGuest).start.vcpu.gpr regRdi) 1) ↔
        MoveFits .real (prefixedAddressSize .real stosb)
            ((decodedInsn .real stosb edgeGuest).start.vcpu.gpr regRdi) 1 ∨
          (decodedInsn .real stosb edgeGuest).start.ctxt.dst.type = .reg ∧
          (decodedInsn .real stosb edgeGuest).start.ctxt.dst.reg.index = regRdi ∧
          (legacyLayout .real stosb .oneByte 0).entrySize .real (OpcodeMap.oneByte.entry 0xaa) ≠
          2) := by
  have counts : (decodedInsn .real stosb edgeGuest).start.Counts := fun rep => absurd rfl rep
  have stays : ∀ rc, stosbRound.1 ≠ .exit rc := fun rc => Next.noConfusion
  have moves := registerMoves_iff (f := { mnemonic := .stos }) implements_stosb rfl
    (.inr (.inr rfl)) (@CallState.first clearFlags .real stosb edgeGuest) .start
    (show emRound promptOps clearFlags stosb (decodedInsn .real stosb edgeGuest).start =
      (stosbRound.1, stosbRound.2) from rfl)
  exact ⟨counts, stays, moves.2 counts stays regRdi 1 rfl⟩

/-- The sum goes into bit 16. -/
theorem stosb_carries :
    prefixedAddressSize .real stosb = 2 ∧
      (emEmulateInsn promptOps clearFlags stosb (decodedInsn .real stosb edgeGuest)).1 = .continue ∧
      (emEmulateInsn promptOps clearFlags stosb
        (decodedInsn .real stosb edgeGuest)).2.vcpu.gpr regRdi = 0x10000 ∧
      registerMoved .real 2 (edgeGuest.gpr regRdi) 1 = 0 :=
  ⟨rfl, rfl, rfl, by decide⟩

end Haxm
