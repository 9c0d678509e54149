/-
# String instructions

What MOVS, CMPS, STOS and LODS do to a guest, said directly: the accesses to
`[SI]` and `[DI]`, the result, and the index registers afterwards. A round of the
emulator does the same, and leaves a context from which the operands are decoded
again for the next round.
-/

import Haxm.Emulate.Stages

namespace Haxm

open Lib

/-! ## Forms -/

inductive StringOp
  | movs | cmps | stos | lods
  deriving DecidableEq, Repr

namespace StringOp

def handler : StringOp → Handler
  | .cmps => .cmp
  | _ => .mov

def dst : StringOp → OpDecoder
  | .lods => .acc
  | _ => .di

def src : StringOp → OpDecoder
  | .stos => .acc
  | _ => .si

/-- The entries of the opcode table. -/
structure Entry (k : StringOp) (e : EmOpcode) : Prop where
  target : e.target = .handler k.handler
  dst : e.decodeDst = some k.dst
  src1 : e.decodeSrc1 = some k.src
  src2 : e.decodeSrc2 = some .none
  dstNr : e.has insnDstNr = decide (k ≠ .cmps)
  dstNw : e.has insnDstNw = decide (k = .cmps)
  fastop : e.has insnFastop = decide (k = .cmps)
  repx : e.has insnRepx = decide (k = .cmps)
  noflags : e.has insnNoflags = false
  bitop : e.has insnBitop = false

end StringOp

/-- A string instruction: operation, sizes, and the segment of SI. -/
structure StringForm where
  op : StringOp
  size : ℕ
  addressSize : ℕ
  mode : EmMode
  seg : EmSegment

namespace StringForm

variable (f : StringForm) (g : Guest)

/-- The linear address of ES:DI. -/
def diAddress : BitVec 64 :=
  segmentAddress g.segBase f.mode .es (lowBytes f.addressSize (g.gpr regRdi))

/-- The linear address of DS:SI, or with another segment. -/
def siAddress : BitVec 64 :=
  segmentAddress g.segBase f.mode f.seg (lowBytes f.addressSize (g.gpr regRsi))

def diValue : BitVec 64 := g.load (f.diAddress g) f.size
def siValue : BitVec 64 := g.load (f.siAddress g) f.size

/-- The flags after a comparison. The destination operand is the minuend. -/
def compare (host : HostFlags) : BitVec 64 :=
  setArith g.rflags (fastopDispatch (host .cmp (f.diValue g) (f.siValue g)) .cmp f.size
    (f.diValue g) (f.siValue g) (.ofRflags g.rflags)).2

/-- Everything but the index registers. -/
def access (host : HostFlags) : Guest :=
  match f.op with
  | .movs => (g.read (f.siAddress g) f.size).write (f.diAddress g) f.size (f.siValue g)
  | .cmps =>
    { (g.read (f.diAddress g) f.size).read (f.siAddress g) f.size with rflags := f.compare g host }
  | .stos => g.write (f.diAddress g) f.size (lowBytes f.size (g.gpr regRax))
  | .lods => (g.read (f.siAddress g) f.size).setGpr regRax
      (putBytes 0 (if f.size = 4 then 8 else f.size) (f.siValue g) (g.gpr regRax))

def step : BitVec 64 :=
  if rflagsDf g.rflags then -BitVec.ofNat 64 f.size else BitVec.ofNat 64 f.size

def usesDi : Bool := f.op.dst = .di
def usesSi : Bool := f.op.src = .si

/-- The index registers move on. -/
def move : Guest :=
  let g' := if f.usesDi then g.setGpr regRdi (g.gpr regRdi + f.step g) else g
  if f.usesSi then g'.setGpr regRsi (g'.gpr regRsi + f.step g') else g'

/-- One iteration. -/
def run (host : HostFlags) : Guest := f.move (f.access g host)

end StringForm

/-! ## Values -/

theorem lowBytes_lowBytes (size : ℕ) (v : BitVec 64) :
    lowBytes size (lowBytes size v) = lowBytes size v := by
  apply BitVec.eq_of_getLsbD_eq
  intro n hn
  simp only [getLsbD_lowBytes]
  cases decide (n < 8 * size) <;> simp

/-- Nothing of the old value is left if it was no longer than the new one. -/
theorem putBytes_of_low {size : ℕ} {old : BitVec 64} (low : lowBytes size old = old)
    (v : BitVec 64) : putBytes 0 size v old = lowBytes size v := by
  apply BitVec.eq_of_getLsbD_eq
  intro n hn
  rw [getLsbD_lowBytes, getLsbD_putBytes _ _ _ _ hn, ← low, getLsbD_lowBytes]
  by_cases inside : n < 8 * size <;> simp [inside]

theorem lowBytes_zero (size : ℕ) : lowBytes size 0 = 0 := by
  simp [lowBytes]

/-- The bits of a number that was loaded are those of its bytes. -/
theorem getLsbD_loadLe (bytes : ℕ → BitVec 8) {size n : ℕ} (hn : n < 64) :
    (loadLe bytes 0 size).getLsbD n =
      (decide (n < 8 * size) && (bytes (n / 8)).getLsbD (n % 8)) := by
  induction size with
  | zero => simp [loadLe]
  | succ size ih =>
    rw [loadLe, BitVec.getLsbD_or, ih, BitVec.getLsbD_shiftLeft, BitVec.getLsbD_setWidth,
      Nat.zero_add]
    by_cases below : n < 8 * size
    · have inside : n < 8 * (size + 1) := by omega
      simp [below, inside]
    · by_cases inside : n < 8 * (size + 1)
      · have byte : n / 8 = size := by omega
        have bit : n % 8 = n - 8 * size := by omega
        have small : n - 8 * size < 64 := by omega
        simp [below, inside, byte, bit, hn, small]
      · have above : 8 ≤ n - 8 * size := by omega
        simp [below, inside, BitVec.getLsbD_of_ge _ _ above]

/-- A number that was loaded has no more bytes than that. -/
theorem lowBytes_loadLe (bytes : ℕ → BitVec 8) (size : ℕ) :
    lowBytes size (loadLe bytes 0 size) = loadLe bytes 0 size := by
  apply BitVec.eq_of_getLsbD_eq
  intro n hn
  rw [getLsbD_lowBytes, getLsbD_loadLe bytes hn, ← Bool.and_assoc, Bool.and_self]

theorem Guest.lowBytes_load (g : Guest) (la : BitVec 64) (size : ℕ) :
    lowBytes size (g.load la size) = g.load la size :=
  lowBytes_loadLe _ size

/-- Offsets of the address size are not truncated further. -/
theorem truncateAddress_lowBytes {n : ℕ} (size : n = 2 ∨ n = 4 ∨ n = 8) (v : BitVec 64) :
    truncateAddress n (lowBytes n v) = some (lowBytes n v) := by
  have idem := lowBytes_lowBytes n v
  rcases size with rfl | rfl | rfl
  · exact congrArg some idem
  · exact congrArg some idem
  · rfl

/-- A comparison leaves its destination alone. -/
theorem fastopDispatch_cmp (u : ArithFlags) (size : ℕ) (d v : BitVec 64) (f : ArithFlags) :
    fastopDispatch u .cmp size d v f =
      (d, subFlags (d.setWidth (fastopWidth size)) (v.setWidth (fastopWidth size)) false) := by
  unfold fastopDispatch
  dsimp only
  rw [if_neg fun bitTest => absurd bitTest.2 (by decide)]
  rfl

/-! ## Operands -/

/-- The operand of a string instruction, as it is decoded from the registers. -/
structure StringForm.Operand (f : StringForm) (gpr : Fin 16 → BitVec 64) (d : OpDecoder)
    (op : EmOperand) : Prop where
  fresh : op.Fresh
  low : lowBytes f.size op.value = op.value
  di : d = .di → op.type = .mem ∧ op.size = f.size ∧
    op.mem = ⟨lowBytes f.addressSize (gpr regRdi), .es⟩
  si : d = .si → op.type = .mem ∧ op.size = f.size ∧
    op.mem = ⟨lowBytes f.addressSize (gpr regRsi), f.seg⟩
  acc : d = .acc → op.type = .reg ∧ op.size = f.size ∧ op.reg = ⟨regRax, 0⟩

/-- The context is that of the string instruction `f`. -/
structure StringForm.Context (f : StringForm) (c : EmContext) : Prop where
  entry : f.op.Entry c.opcode
  size : c.operandSize = f.size
  addressSize : c.addressSize = f.addressSize
  mode : c.mode = f.mode
  seg : overriddenSegment c .ds = f.seg
  sized : Sized c

/-- The emulator is about to carry out one iteration. -/
structure StringForm.Ready (f : StringForm) (s : Emulator Guest) : Prop where
  context : f.Context s.ctxt
  coherent : s.Coherent promptOps
  clean : s.ctxt.cache.w = fun _ => false
  dst : f.Operand s.vcpu.gpr f.op.dst s.ctxt.dst
  src1 : f.Operand s.vcpu.gpr f.op.src s.ctxt.src1
  src2 : s.ctxt.src2.Fresh ∧ s.ctxt.src2.type = .none

namespace StringForm

variable {f : StringForm} {s : Emulator Guest} {op : EmOperand}

section Address

variable (context : f.Context s.ctxt)

include context

theorem la_di (is : f.Operand s.vcpu.gpr .di op) : s.la op = f.diAddress s.vcpu := by
  obtain ⟨-, -, mem⟩ := is.di rfl
  have size := context.sized.address
  rw [context.addressSize] at size
  unfold Emulator.la getLinearAddress
  rw [mem, context.addressSize, truncateAddress_lowBytes size, context.mode]
  rfl

theorem la_si (is : f.Operand s.vcpu.gpr .si op) : s.la op = f.siAddress s.vcpu := by
  obtain ⟨-, -, mem⟩ := is.si rfl
  have size := context.sized.address
  rw [context.addressSize] at size
  unfold Emulator.la getLinearAddress
  rw [mem, context.addressSize, truncateAddress_lowBytes size, context.mode]
  rfl

theorem inputValue_di (is : f.Operand s.vcpu.gpr .di op) : s.inputValue op = f.diValue s.vcpu := by
  obtain ⟨type, size, -⟩ := is.di rfl
  unfold Emulator.inputValue
  rw [type]
  dsimp only
  rw [size, putBytes_of_low is.low, la_di context is, Guest.lowBytes_load]
  rfl

theorem inputValue_si (is : f.Operand s.vcpu.gpr .si op) : s.inputValue op = f.siValue s.vcpu := by
  obtain ⟨type, size, -⟩ := is.si rfl
  unfold Emulator.inputValue
  rw [type]
  dsimp only
  rw [size, putBytes_of_low is.low, la_si context is, Guest.lowBytes_load]
  rfl

theorem readsTo_di (is : f.Operand s.vcpu.gpr .di op) (g : Guest) :
    s.readsTo op g = g.read (f.diAddress s.vcpu) f.size := by
  obtain ⟨type, size, -⟩ := is.di rfl
  unfold Emulator.readsTo
  rw [if_pos type, la_di context is, size]

theorem readsTo_si (is : f.Operand s.vcpu.gpr .si op) (g : Guest) :
    s.readsTo op g = g.read (f.siAddress s.vcpu) f.size := by
  obtain ⟨type, size, -⟩ := is.si rfl
  unfold Emulator.readsTo
  rw [if_pos type, la_si context is, size]

end Address

theorem inputValue_acc (is : f.Operand s.vcpu.gpr .acc op) :
    s.inputValue op = lowBytes f.size (s.gpr regRax) := by
  obtain ⟨type, size, reg⟩ := is.acc rfl
  unfold Emulator.inputValue
  rw [type]
  dsimp only
  rw [size, reg, Nat.mul_zero, BitVec.ushiftRight_zero]

theorem readsTo_acc (is : f.Operand s.vcpu.gpr .acc op) (g : Guest) : s.readsTo op g = g := by
  obtain ⟨type, -⟩ := is.acc rfl
  unfold Emulator.readsTo
  rw [if_neg (by rw [type]; decide)]

/-! ## One iteration -/

/-- The emulator `t`, after it has made `after` of the guest. -/
structure Done (f : StringForm) (s t : Emulator Guest) (after : Guest) : Prop where
  kept : t.ctxt.instruction = s.ctxt.instruction
  rflags : t.ctxt.rflags = after.rflags
  guest : t.guest = after
  coherent : t.Coherent promptOps
  dst : lowBytes f.size t.ctxt.dst.value = t.ctxt.dst.value
  src1 : lowBytes f.size t.ctxt.src1.value = t.ctxt.src1.value

/-- The emulator before the destination is written, with the cache `k`. -/
def moved (s : Emulator Guest) (k : GprCache) : Emulator Guest :=
  ⟨{ inputContext s k with dst := { s.ctxt.dst with value := s.inputValue s.ctxt.src1 } },
    readAll s⟩

theorem sameInputs_moved {k : GprCache} (filled : s.ctxt.cache.Filled s.vcpu.gpr k) :
    s.SameInputs (moved s k) :=
  sameInputs_readAll filled rfl rfl

section Once

variable (ready : f.Ready s) (host : HostFlags)

include ready

theorem Ready.readInputs : ∃ k, s.ctxt.cache.Filled s.vcpu.gpr k ∧
    readInputs promptOps s = (.continue, ⟨inputContext s k, readAll s⟩) := by
  refine readInputs_prompt ready.context.sized ready.context.entry.noflags ?_ ready.dst.fresh
    ready.src1.fresh ready.src2.1
  rw [EmContext.isBitop, ready.context.entry.bitop, Bool.false_and]

theorem Ready.readsTo_src2 (g : Guest) : s.readsTo s.ctxt.src2 g = g := by
  unfold Emulator.readsTo
  rw [if_neg (by rw [ready.src2.2]; decide)]

theorem Ready.gpr_eq : s.gpr = s.vcpu.gpr := ready.coherent.reg_eq ready.clean

theorem Ready.low_src1 : lowBytes f.size (s.inputValue s.ctxt.src1) = s.inputValue s.ctxt.src1 := by
  have src1 := ready.src1
  cases op : f.op with
  | stos =>
    rw [op] at src1
    rw [inputValue_acc src1, lowBytes_lowBytes]
  | _ =>
    rw [op] at src1
    rw [inputValue_si ready.context src1]
    exact Guest.lowBytes_load ..

/-- All but CMPS, up to the destination. -/
theorem Ready.mov (op : f.op ≠ .cmps) : ∃ k, s.ctxt.cache.Filled s.vcpu.gpr k ∧
    emulateOnce promptOps host s = (moved s k).operandWrite promptOps .dst := by
  obtain ⟨k, filled, inputs⟩ := ready.readInputs
  have entry := ready.context.entry
  have handler : f.op.handler = .mov := by
    cases known : f.op with
    | cmps => exact absurd known op
    | _ => rfl
  have unread : s.ctxt.opcode.has insnDstNr = true := by
    rw [entry.dstNr, decide_eq_true op]
  have value : putBytes 0 s.ctxt.operandSize (s.inputValue s.ctxt.src1) s.ctxt.dst.value =
      s.inputValue s.ctxt.src1 := by
    rw [ready.context.size, putBytes_of_low ready.dst.low, ready.low_src1]
  have context : emMov (inputContext s k) = (moved s k).ctxt := by
    unfold emMov inputContext moved
    rw [if_pos unread]
    dsimp only [Emulator.readOperand]
    rw [value]
    rfl
  have soft : executeHandler promptOps host ⟨inputContext s k, readAll s⟩ =
      (.continue, ⟨emMov (inputContext s k), readAll s⟩) :=
    @executeHandler_soft _ promptOps ⟨inputContext s k, readAll s⟩ .mov host
      (entry.target.trans (by rw [handler])) (entry.fastop.trans (decide_eq_false op))
  have kept : ({ readAll s with rflags := s.vcpu.rflags } : Guest) = readAll s := by
    rw [readAll_log s]
  refine ⟨k, filled, ?_⟩
  rw [emulateOnce_eq, Stage.andThen_of_continue inputs, Stage.andThen_of_continue soft, context,
    @writeOutputs_eq _ promptOps ⟨(moved s k).ctxt, readAll s⟩ entry.noflags
      (entry.dstNw.trans (decide_eq_false op))]
  show Emulator.operandWrite promptOps
    ⟨(moved s k).ctxt, { readAll s with rflags := s.vcpu.rflags }⟩ .dst = _
  rw [kept]
  rfl

/-- What has been read then. -/
theorem Ready.readAll_mov (op : f.op ≠ .cmps) : readAll s = s.readsTo s.ctxt.src1 s.vcpu := by
  unfold readAll inputOperands
  rw [ready.context.entry.dstNr, if_pos (decide_eq_true op)]
  exact ready.readsTo_src2 _

/-- What is left to show once the destination has been written. -/
theorem Ready.done_of_moved {k : GprCache} {t : Emulator Guest} (op : EmOperand)
    (context : t.ctxt = { (moved s k).ctxt with dst := op, cache := t.ctxt.cache })
    (value : op.value = s.inputValue s.ctxt.src1)
    (rflags : (f.access s.vcpu host).rflags = s.vcpu.rflags)
    (guest : t.guest = f.access s.vcpu host) (coherent : t.Coherent promptOps) :
    f.Done s t (f.access s.vcpu host) where
  kept := by
    rw [context]
    rfl
  rflags := by
    rw [context, rflags]
    rfl
  guest := guest
  coherent := coherent
  dst := by
    rw [context, value, ready.low_src1]
  src1 := by
    rw [context]
    exact ready.low_src1

/-- MOVS and STOS, whose destination is in memory. -/
theorem Ready.mov_di (op : f.op ≠ .cmps) (di : f.op.dst = .di)
    (written : (readAll s).write (f.diAddress s.vcpu) f.size (s.inputValue s.ctxt.src1) =
      f.access s.vcpu host) :
    ∃ t, emulateOnce promptOps host s = (.continue, t) ∧
      f.Done s t (f.access s.vcpu host) := by
  obtain ⟨k, filled, run⟩ := ready.mov host op
  have dst := ready.dst
  rw [di] at dst
  obtain ⟨type, size, -⟩ := dst.di rfl
  have inputs := sameInputs_moved filled
  have base := la_di ready.context dst
  have la : (moved s k).la ((moved s k).ctxt.operand .dst) = f.diAddress s.vcpu := by
    rw [inputs.la]
    exact base
  have wrote := @Emulator.operandWrite_mem (moved s k) .dst
    ⟨ready.context.sized.1, ready.context.sized.2⟩ type dst.fresh.writePending
    dst.fresh.writeFinished
  have vcpu : (moved s k).vcpu.write ((moved s k).la ((moved s k).ctxt.operand .dst))
      ((moved s k).ctxt.operand .dst).size ((moved s k).ctxt.operand .dst).value =
        f.access s.vcpu host := by
    rw [la, ← written, ← size]
    rfl
  rw [vcpu] at wrote
  have same : Emulator.SameRegisters promptOps s
      ⟨(moved s k).ctxt.setOperand .dst
        (Emulator.markWritten ((moved s k).ctxt.operand .dst) .continue),
        f.access s.vcpu host⟩ := by
    refine ⟨?_, filled⟩
    show (f.access s.vcpu host).gpr = s.vcpu.gpr
    rw [← written, readAll_log]
    rfl
  have coherent := same.coherent ready.coherent
  refine ⟨_, run.trans wrote, ready.done_of_moved host
    (Emulator.markWritten ((moved s k).ctxt.operand .dst) .continue) rfl rfl ?_ ?_ coherent⟩
  · rw [← written, readAll_log]
    rfl
  · exact coherent.guest_eq (filled.w.trans ready.clean)

theorem Ready.lods (op : f.op = .lods) :
    ∃ t, emulateOnce promptOps host s = (.continue, t) ∧
      f.Done s t (f.access s.vcpu host) := by
  have other : f.op ≠ .cmps := by
    rw [op]
    decide
  obtain ⟨k, filled, run⟩ := ready.mov host other
  have dst := ready.dst
  have src1 := ready.src1
  rw [op] at dst src1
  obtain ⟨type, size, reg⟩ := dst.acc rfl
  have inputs := sameInputs_moved filled
  have read : readAll s = s.vcpu.read (f.siAddress s.vcpu) f.size := by
    rw [ready.readAll_mov other, readsTo_si ready.context src1]
  have wrote := @Emulator.operandWrite_reg .dst _ promptOps (moved s k) type
    dst.fresh.writeFinished
  have clean : (moved s k).guest = readAll s :=
    (inputs.registers.coherent ready.coherent).guest_eq (filled.w.trans ready.clean)
  have gpr : (moved s k).gpr = s.vcpu.gpr :=
    inputs.registers.reg.trans ready.gpr_eq
  have guest : (f.access s.vcpu host) = (readAll s).setGpr regRax
      (putBytes 0 (if f.size = 4 then 8 else f.size) (s.inputValue s.ctxt.src1)
        (s.vcpu.gpr regRax)) := by
    unfold access
    rw [op, read, inputValue_si ready.context src1]
  refine ⟨_, run.trans wrote, ready.done_of_moved host
    (Emulator.markWritten ((moved s k).ctxt.operand .dst) .continue) rfl rfl ?_ ?_ ?_⟩
  · rw [guest, readAll_log]
    rfl
  · refine (Emulator.guest_gprWriteShifted _ _ _).trans ?_
    rw [clean, gpr, guest, show ((moved s k).ctxt.operand .dst).reg = ⟨regRax, 0⟩ from reg,
      show ((moved s k).ctxt.operand .dst).size = f.size from size]
    rfl
  · exact ⟨(inputs.registers.coherent ready.coherent).gprWriteShifted.dirty,
      (inputs.registers.coherent ready.coherent).gprWriteShifted.clean⟩

theorem Ready.cmps (op : f.op = .cmps) :
    ∃ t, emulateOnce promptOps host s = (.continue, t) ∧
      f.Done s t (f.access s.vcpu host) := by
  obtain ⟨k, filled, inputs⟩ := ready.readInputs
  have dst := ready.dst
  have src1 := ready.src1
  have entry := ready.context.entry
  rw [op] at dst src1 entry
  obtain ⟨-, size, -⟩ := dst.di rfl
  have read : readAll s =
      (s.vcpu.read (f.diAddress s.vcpu) f.size).read (f.siAddress s.vcpu) f.size := by
    unfold readAll inputOperands
    rw [entry.dstNr, if_neg (by decide)]
    show s.readsTo s.ctxt.src2 (s.readsTo s.ctxt.src1 (s.readsTo s.ctxt.dst s.vcpu)) = _
    rw [ready.readsTo_src2, readsTo_si ready.context src1, readsTo_di ready.context dst]
  have fast := @executeHandler_fast _ promptOps ⟨inputContext s k, readAll s⟩ .cmp host entry.target
    entry.fastop
  have outputs := @writeOutputs_of_nw _ promptOps ⟨fastHandler host .cmp (inputContext s k),
    readAll s⟩ entry.noflags entry.dstNw
  have left : (inputContext s k).dst = s.readOperand s.ctxt.dst :=
    if_neg (Bool.eq_false_iff.mp (entry.dstNr.trans (decide_eq_false (by simp))))
  have minuend : (inputContext s k).dst.value = f.diValue s.vcpu := by
    rw [left]
    exact inputValue_di ready.context dst
  have subtrahend : (inputContext s k).src1.value = f.siValue s.vcpu :=
    inputValue_si ready.context src1
  have rflags : (fastHandler host .cmp (inputContext s k)).rflags = f.compare s.vcpu host := by
    unfold fastHandler compare
    dsimp only
    rw [minuend, subtrahend, left, show (s.readOperand s.ctxt.dst).size = f.size from size]
    rfl
  have value : (fastHandler host .cmp (inputContext s k)).dst.value = f.diValue s.vcpu := by
    unfold fastHandler
    dsimp only
    rw [fastopDispatch_cmp, minuend]
  have same : Emulator.SameRegisters promptOps s
      ⟨fastHandler host .cmp (inputContext s k), promptOps.writeRflags
        (fastHandler host .cmp (inputContext s k)).rflags (readAll s)⟩ := by
    refine ⟨?_, filled⟩
    show (readAll s).gpr = s.vcpu.gpr
    rw [readAll_log]
  have guest : promptOps.writeRflags (fastHandler host .cmp (inputContext s k)).rflags (readAll s) =
      f.access s.vcpu host := by
    unfold access
    rw [op, rflags, read]
    rfl
  rw [emulateOnce_eq, Stage.andThen_of_continue inputs, Stage.andThen_of_continue fast]
  refine ⟨_, outputs, ?_⟩
  exact {
    kept := rfl
    rflags := by
      rw [← guest]
      rfl
    guest := ((same.coherent ready.coherent).guest_eq (filled.w.trans ready.clean)).trans guest
    coherent := same.coherent ready.coherent
    dst := by
      dsimp only
      rw [value]
      exact Guest.lowBytes_load ..
    src1 := by
      show lowBytes f.size (inputContext s k).src1.value = (inputContext s k).src1.value
      rw [subtrahend]
      exact Guest.lowBytes_load .. }

/-- Each of the four. -/
theorem Ready.once : ∃ t, emulateOnce promptOps host s = (.continue, t) ∧
    f.Done s t (f.access s.vcpu host) := by
  have src1 := ready.src1
  cases op : f.op with
  | movs =>
    rw [op] at src1
    refine ready.mov_di host (by rw [op]; decide) (by rw [op]; rfl) ?_
    rw [ready.readAll_mov (by rw [op]; decide), readsTo_si ready.context src1,
      inputValue_si ready.context src1, access, op]
  | cmps => exact ready.cmps host op
  | stos =>
    rw [op] at src1
    refine ready.mov_di host (by rw [op]; decide) (by rw [op]; rfl) ?_
    rw [ready.readAll_mov (by rw [op]; decide), readsTo_acc src1, inputValue_acc src1, access, op,
      ready.gpr_eq]
  | lods => exact ready.lods host op

end Once

/-! ## Index registers -/

theorem Context.of_kept {c c' : EmContext} (context : f.Context c)
    (kept : c'.instruction = c.instruction) : f.Context c' := by
  simp only [EmContext.instruction, Prod.mk.injEq] at kept
  obtain ⟨mode, size, addressSize, -, -, prefixes, -, opcode⟩ := kept
  exact {
    entry := opcode ▸ context.entry
    size := size.trans context.size
    addressSize := addressSize.trans context.addressSize
    mode := mode.trans context.mode
    seg := by
      rw [overriddenSegment, prefixes]
      exact context.seg
    sized := ⟨addressSize ▸ context.sized.1, size ▸ context.sized.2⟩ }

section Done

variable {t : Emulator Guest} {after : Guest}

section Done

variable (done : f.Done s t after)

include done

theorem Done.context (context : f.Context s.ctxt) : f.Context t.ctxt :=
  context.of_kept done.kept

theorem Done.registerAdd (i : Fin 16) (addend : BitVec 64) :
    f.Done s (t.registerAdd promptOps i addend) (after.setGpr i (after.gpr i + addend)) where
  kept := done.kept
  rflags := done.rflags
  guest := by
    rw [← done.guest]
    exact Emulator.guest_registerAdd addend
  coherent := done.coherent.registerAdd addend
  dst := done.dst
  src1 := done.src1

theorem Done.registerAdd_if (p : Prop) [Decidable p] (i : Fin 16) (addend : BitVec 64) :
    f.Done s (if p then t.registerAdd promptOps i addend else t)
      (if p then after.setGpr i (after.gpr i + addend) else after) := by
  split
  · exact done.registerAdd i addend
  · exact done

theorem Done.indexStep_eq (context : f.Context s.ctxt) : indexStep t.ctxt = f.step after := by
  unfold indexStep StringForm.step
  rw [done.rflags, (done.context context).size]

/-- The index registers move as they should. -/
theorem Done.advanceIndexes (context : f.Context s.ctxt) :
    f.Done s (advanceIndexes promptOps t) (f.move after) := by
  have dst : t.ctxt.opcode.decodeDst = some .di ↔ f.usesDi = true := by
    rw [(done.context context).entry.dst]
    simp [usesDi]
  have src1 {t : Emulator Guest} (context : f.Context t.ctxt) :
      t.ctxt.opcode.decodeSrc1 = some .si ↔ f.usesSi = true := by
    rw [context.entry.src1]
    simp [usesSi]
  have first := done.registerAdd_if (f.usesDi = true) regRdi (f.step after)
  have second := first.registerAdd_if (f.usesSi = true) regRsi
    (f.step (if f.usesDi = true then after.setGpr regRdi (after.gpr regRdi + f.step after)
      else after))
  unfold Haxm.advanceIndexes move
  simp only [dst, done.indexStep_eq context, src1 (first.context context),
    first.indexStep_eq context]
  exact second

end Done

end Done

/-- The whole iteration. -/
theorem Ready.iterate (ready : f.Ready s) (host : HostFlags) :
    ∃ t, emulateOnce promptOps host s = (.continue, t) ∧
      f.Done s (Haxm.advanceIndexes promptOps t) (f.run s.vcpu host) := by
  obtain ⟨t, once, done⟩ := ready.once host
  exact ⟨t, once, done.advanceIndexes ready.context⟩

/-! ## Decoding -/

section Decode

variable (insn : ℕ → BitVec 8)

/-- A decoder of a string operand. -/
theorem Context.decodeOperand (context : f.Context s.ctxt) {d : OpDecoder}
    (kind : d = .di ∨ d = .si ∨ d = .acc) {op : EmOperand}
    (low : lowBytes f.size op.value = op.value) :
    ∃ op' k, decodeOperand s.vcpu.gpr (some d) op insn s.ctxt =
        ((.continue, op'), { s.ctxt with cache := k }) ∧
      s.ctxt.cache.Filled s.vcpu.gpr k ∧ f.Operand s.gpr d op' := by
  have address (i : Fin 16) : (Haxm.gprRead s.vcpu.gpr i s.ctxt.addressSize s.ctxt.cache).1 =
      lowBytes f.addressSize (s.gpr i) := by
    rw [← context.addressSize]
    exact @Emulator.gprRead_fst _ promptOps s i s.ctxt.addressSize
  rcases kind with rfl | rfl | rfl
  · refine ⟨_, _, rfl, gprFill_filled s.vcpu.gpr regRdi s.ctxt.cache, ?_⟩
    exact {
      fresh := ⟨rfl, rfl, rfl, rfl⟩
      low := low
      di := fun _ => ⟨rfl, context.size, congrArg (OperandMem.mk · .es) (address regRdi)⟩
      si := by simp
      acc := by simp }
  · refine ⟨_, _, rfl, gprFill_filled s.vcpu.gpr regRsi s.ctxt.cache, ?_⟩
    exact {
      fresh := ⟨rfl, rfl, rfl, rfl⟩
      low := low
      di := by simp
      si := fun _ => ⟨rfl, context.size, congrArg₂ OperandMem.mk (address regRsi) context.seg⟩
      acc := by simp }
  · refine ⟨_, s.ctxt.cache, rfl, .refl _ _, ?_⟩
    exact {
      fresh := ⟨rfl, rfl, rfl, rfl⟩
      low := low
      di := by simp
      si := by simp
      acc := fun _ => ⟨rfl, context.size, rfl⟩ }

/-- What decoding the operands of `s` gives. -/
structure OperandsReady (f : StringForm) (s : Emulator Guest) (r : EmStatus × EmContext) :
    Prop where
  status : r.1 = .continue
  kept : r.2.instruction = s.ctxt.instruction
  filled : s.ctxt.cache.Filled s.vcpu.gpr r.2.cache
  dst : f.Operand s.gpr f.op.dst r.2.dst
  src1 : f.Operand s.gpr f.op.src r.2.src1
  src2 : r.2.src2.Fresh ∧ r.2.src2.type = .none

theorem Context.decodeOperands (context : f.Context s.ctxt)
    (dst : lowBytes f.size s.ctxt.dst.value = s.ctxt.dst.value)
    (src1 : lowBytes f.size s.ctxt.src1.value = s.ctxt.src1.value) :
    f.OperandsReady s (Haxm.decodeOperands s.vcpu.gpr insn s.ctxt) := by
  have dstKind : f.op.dst = .di ∨ f.op.dst = .si ∨ f.op.dst = .acc := by
    cases f.op <;> simp [StringOp.dst]
  have srcKind : f.op.src = .di ∨ f.op.src = .si ∨ f.op.src = .acc := by
    cases f.op <;> simp [StringOp.src]
  obtain ⟨op₁, k₁, first, filled₁, is₁⟩ := context.decodeOperand insn dstKind dst
  have same : Emulator.SameRegisters promptOps s
      ⟨{ s.ctxt with cache := k₁, dst := op₁ }, s.vcpu⟩ := ⟨rfl, filled₁⟩
  have second : f.Context (Emulator.mk { s.ctxt with cache := k₁, dst := op₁ } s.vcpu).ctxt :=
    context.of_kept rfl
  obtain ⟨op₂, k₂, run₂, filled₂, is₂⟩ := second.decodeOperand insn srcKind src1
  have gpr : Emulator.gpr ⟨{ s.ctxt with cache := k₁, dst := op₁ }, s.vcpu⟩ = s.gpr := same.reg
  rw [gpr] at is₂
  have entry := context.entry
  have run : Haxm.decodeOperands s.vcpu.gpr insn s.ctxt = (.continue, { s.ctxt with
      cache := k₂, dst := op₁, src1 := op₂
      src2 := { s.ctxt.src2 with
        readPending := false, readFinished := false, writePending := false, writeFinished := false
        type := .none } }) := by
    unfold Haxm.decodeOperands
    rw [Reader.get_bind_run, Reader.bind_run, entry.dst, first]
    simp only [Reader.modify_bind_run, ne_eq, not_true, if_false]
    rw [Reader.bind_run, entry.src1, run₂]
    simp only [Reader.modify_bind_run, not_true, if_false]
    rw [Reader.bind_run, entry.src2]
    rfl
  rw [run]
  exact {
    status := rfl
    kept := rfl
    filled := filled₁.trans filled₂
    dst := is₁
    src1 := is₂
    src2 := ⟨⟨rfl, rfl, rfl, rfl⟩, rfl⟩ }

/-- A decoded context with nothing dirty. -/
theorem OperandsReady.ready {r : EmStatus × EmContext} (h : f.OperandsReady s r)
    (context : f.Context s.ctxt) (coherent : s.Coherent promptOps)
    (clean : s.ctxt.cache.w = fun _ => false) : f.Ready ⟨r.2, s.vcpu⟩ := by
  have same : Emulator.SameRegisters promptOps s ⟨r.2, s.vcpu⟩ := ⟨rfl, h.filled⟩
  have gpr : s.gpr = s.vcpu.gpr := coherent.reg_eq clean
  have dst := h.dst
  have src1 := h.src1
  rw [gpr] at dst src1
  exact ⟨context.of_kept h.kept, same.coherent coherent, h.filled.w.trans clean, dst, src1, h.src2⟩

/-- A decoded context after a flush. -/
theorem OperandsReady.ready_flush {r : EmStatus × EmContext} (h : f.OperandsReady s r)
    (context : f.Context s.ctxt) (coherent : s.Coherent promptOps) :
    f.Ready (Emulator.gprCacheFlush promptOps ⟨r.2, s.vcpu⟩) ∧
      (Emulator.gprCacheFlush promptOps ⟨r.2, s.vcpu⟩).vcpu = s.guest := by
  have same : Emulator.SameRegisters promptOps s ⟨r.2, s.vcpu⟩ := ⟨rfl, h.filled⟩
  have gpr : Emulator.gpr ⟨r.2, s.vcpu⟩ = s.gpr := same.reg
  have vcpu : (Emulator.gprCacheFlush promptOps ⟨r.2, s.vcpu⟩).vcpu = s.guest := by
    rw [promptOps, (same.coherent coherent).vcpu_flush, Emulator.guest, gpr]
    rfl
  refine ⟨?_, vcpu⟩
  exact {
    context := context.of_kept h.kept
    coherent := (same.coherent coherent).flush (guestOps_lawful _)
    clean := rfl
    dst := by
      rw [vcpu]
      exact h.dst
    src1 := by
      rw [vcpu]
      exact h.src1
    src2 := h.src2 }

end Decode

end StringForm

end Haxm
