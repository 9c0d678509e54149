/-
# The instruction emulator

`em_emulate_insn` carries out a decoded instruction: it reads the input operands,
calls the handler, writes the output operand and updates index and count
registers. With a repeat prefix it goes back to the start until the count is
used up. Registers are cached, and written to the virtual CPU at the end of each
round; memory is accessed through callbacks, which may ask for an exit to user
space instead. In that case the emulator is called again later and goes on where
it left off.
-/

import Haxm.Emulate.Alu

namespace Haxm

/-! ## The virtual CPU -/

/-- `em_vcpu_ops_t`, for a virtual CPU with the states `ω`. The flag of memory accesses is
`EM_OPS_NO_TRANSLATION`; a read gets the old value and returns the new one. -/
structure EmOps (ω : Type) where
  readGpr : ω → Fin 16 → BitVec 64
  writeGpr : Fin 16 → BitVec 64 → ω → ω
  readRflags : ω → BitVec 64
  writeRflags : BitVec 64 → ω → ω
  getSegmentBase : ω → EmSegment → BitVec 64
  advanceRip : ℕ → ω → ω
  readMemory : (ea value : BitVec 64) → (size : ℕ) → (noTranslation : Bool) → ω →
    EmStatus × BitVec 64 × ω
  readMemoryPost : (value : BitVec 64) → (size : ℕ) → ω → EmStatus × BitVec 64 × ω
  writeMemory : (ea value : BitVec 64) → (size : ℕ) → (noTranslation : Bool) → ω → EmStatus × ω

/-- The context and the virtual CPU. -/
structure Emulator (ω : Type) where
  ctxt : EmContext
  vcpu : ω

/-- An operand of a context. -/
inductive OperandName
  | dst | src1 | src2
  deriving DecidableEq, Repr

def EmContext.operand (c : EmContext) : OperandName → EmOperand
  | .dst => c.dst
  | .src1 => c.src1
  | .src2 => c.src2

def EmContext.setOperand (c : EmContext) (n : OperandName) (op : EmOperand) : EmContext :=
  match n with
  | .dst => { c with dst := op }
  | .src1 => { c with src1 := op }
  | .src2 => { c with src2 := op }

/-! ## Addresses -/

/-- `is_translation_required`. -/
def isTranslationRequired (c : EmContext) : Bool := c.opcode.has insnTwomem || c.prefixes.rep != 0

/-- `get_canonical_address` for 48 bits. -/
def getCanonicalAddress (addr : BitVec 64) : BitVec 64 := (addr <<< 16).sshiftRight 16

/-- The offset, cut to the address size. -/
def truncateAddress (addressSize : ℕ) (ea : BitVec 64) : Option (BitVec 64) :=
  if addressSize = 2 then some ((ea.setWidth 16).setWidth 64)
  else if addressSize = 4 then some ((ea.setWidth 32).setWidth 64)
  else if addressSize = 8 then some ea
  else none

/-- The linear address of an offset into a segment. -/
def segmentAddress (base : EmSegment → BitVec 64) (mode : EmMode) (seg : EmSegment)
    (addr : BitVec 64) : BitVec 64 :=
  match mode with
  | .prot64 => getCanonicalAddress (if seg = .fs ∨ seg = .gs then addr + base seg else addr)
  | .real => (addr + base seg) &&& 0xfffff
  | _ => (addr + base seg) &&& 0xffffffff

/-- `get_linear_address`. -/
def getLinearAddress (base : EmSegment → BitVec 64) (c : EmContext) (mem : OperandMem) :
    Option (BitVec 64) :=
  (truncateAddress c.addressSize mem.ea).map (segmentAddress base c.mode mem.seg)

section Emulator

variable {ω : Type} (ops : EmOps ω)

namespace Emulator

variable (s : Emulator ω)

def setCache (k : GprCache) : Emulator ω := { s with ctxt := { s.ctxt with cache := k } }

def setOperand (n : OperandName) (op : EmOperand) : Emulator ω :=
  { s with ctxt := s.ctxt.setOperand n op }

def setRflags (rflags : BitVec 64) : Emulator ω :=
  { s with ctxt := { s.ctxt with rflags := rflags } }

/-! ## Registers -/

/-- `gpr_read_shifted`. -/
def gprReadShifted (i : Fin 16) (size shift : ℕ) : BitVec 64 × Emulator ω :=
  let read := Haxm.gprReadShifted (ops.readGpr s.vcpu) i size shift s.ctxt.cache
  (read.1, s.setCache read.2)

/-- `gpr_read`. -/
def gprRead (i : Fin 16) (size : ℕ) : BitVec 64 × Emulator ω := s.gprReadShifted ops i size 0

/-- `gpr_write_shifted`. -/
def gprWriteShifted (i : Fin 16) (size : ℕ) (value : BitVec 64) (shift : ℕ) : Emulator ω :=
  s.setCache (Haxm.gprWriteShifted (ops.readGpr s.vcpu) i size value shift s.ctxt.cache)

/-- `gpr_write`. -/
def gprWrite (i : Fin 16) (size : ℕ) (value : BitVec 64) : Emulator ω :=
  s.gprWriteShifted ops i size value 0

/-- `gpr_cache_flush`. -/
def gprCacheFlush : Emulator ω :=
  { ctxt := { s.ctxt with cache := { s.ctxt.cache with w := fun _ => false } }
    vcpu := (List.finRange 16).foldl (fun v i =>
      if s.ctxt.cache.w i then ops.writeGpr i (s.ctxt.cache.value i) v else v) s.vcpu }

/-- `gpr_cache_invalidate`. -/
def gprCacheInvalidate : Emulator ω :=
  s.setCache { s.ctxt.cache with r := fun _ => false, w := fun _ => false }

/-- `register_add`. -/
def registerAdd (i : Fin 16) (addend : BitVec 64) : Emulator ω :=
  let (value, s) := s.gprRead ops i 8
  s.gprWrite ops i 8 (value + addend)

/-! ## Operands -/

/-- `segmented_read`: the status, the new value and the virtual CPU. -/
def segmentedRead (mem : OperandMem) (value : BitVec 64) (size : ℕ) : EmStatus × BitVec 64 × ω :=
  match getLinearAddress (ops.getSegmentBase s.vcpu) s.ctxt mem with
  | none => (.error, value, s.vcpu)
  | some la => ops.readMemory la value size (!isTranslationRequired s.ctxt) s.vcpu

/-- `segmented_write`. -/
def segmentedWrite (mem : OperandMem) (value : BitVec 64) (size : ℕ) : EmStatus × ω :=
  match getLinearAddress (ops.getSegmentBase s.vcpu) s.ctxt mem with
  | none => (.error, s.vcpu)
  | some la => ops.writeMemory la value size (!isTranslationRequired s.ctxt) s.vcpu

/-- The flag that is set after a read. -/
def markRead (op : EmOperand) (rc : EmStatus) : EmOperand :=
  if rc = .continue then { op with readFinished := true } else { op with readPending := true }

def markWritten (op : EmOperand) (rc : EmStatus) : EmOperand :=
  if rc = .continue then { op with writeFinished := true } else { op with writePending := true }

/-- The offset of a bit test, extended from the operand size. -/
def bitOffset (size : ℕ) (offset : BitVec 64) : Option (BitVec 64) :=
  match size with
  | 2 => some ((offset.setWidth 16).signExtend 64)
  | 4 => some ((offset.setWidth 32).signExtend 64)
  | 8 => some offset
  | _ => none

/-- `operand_read_bitop`. -/
def operandReadBitop : EmStatus × Emulator ω :=
  let base := s.ctxt.dst
  let offs := s.ctxt.src1
  if base.readPending then
    let (rc, value, v) := ops.readMemoryPost base.value base.size s.vcpu
    (rc, { s with vcpu := v }.setOperand .dst { base with value := value })
  else
    let (offset, s) := s.gprRead ops offs.reg.index offs.size
    match bitOffset offs.size offset with
    | none => (.error, s)
    | some offset =>
      let base := { base with mem := { base.mem with ea := base.mem.ea + offset.sshiftRight 3 } }
      let s := s.setOperand .src1 { offs with value := offset &&& 7 }
      let (rc, value, v) := s.segmentedRead ops base.mem base.value base.size
      let base := { base with value := value }
      let base := if rc = .continue then base else { base with readPending := true }
      (rc, { s with vcpu := v }.setOperand .dst base)

/-- `operand_read`. -/
def operandRead (n : OperandName) : EmStatus × Emulator ω :=
  let op := s.ctxt.operand n
  if op.readFinished then (.continue, s)
  else
    match op.type with
    | .none => (.continue, s)
    | .imm => (.continue, s.setOperand n (markRead op .continue))
    | .reg =>
      let (value, s) := s.gprReadShifted ops op.reg.index op.size op.reg.shift
      (.continue, s.setOperand n (markRead { op with value := value } .continue))
    | .mem =>
      let (rc, value, v) :=
        if op.readPending then ops.readMemoryPost op.value op.size s.vcpu
        else s.segmentedRead ops op.mem op.value op.size
      (rc, { s with vcpu := v }.setOperand n (markRead { op with value := value } rc))

/-- `operand_write`. A 32-bit register is written as a 64-bit one. -/
def operandWrite (n : OperandName) : EmStatus × Emulator ω :=
  let op := s.ctxt.operand n
  if op.writeFinished then (.continue, s)
  else
    match op.type with
    | .none => (.continue, s)
    | .imm => (.continue, s.setOperand n (markWritten op .continue))
    | .reg =>
      let size := if op.size = 4 then 8 else op.size
      let s := s.gprWriteShifted ops op.reg.index size op.value op.reg.shift
      (.continue, s.setOperand n (markWritten op .continue))
    | .mem =>
      let (rc, v) :=
        if op.writePending then (.continue, s.vcpu)
        else s.segmentedWrite ops op.mem op.value op.size
      (rc, { s with vcpu := v }.setOperand n (markWritten op rc))

end Emulator

/-! ## Stages -/

/-- A part of `em_emulate_insn`. -/
abbrev Stage (ω : Type) : Type := Emulator ω → EmStatus × Emulator ω

/-- `if (rc != EM_CONTINUE) goto exit`. -/
def Stage.andThen (f g : Stage ω) : Stage ω := fun s =>
  match f s with
  | (.continue, s) => g s
  | (rc, s) => (rc, s)

/-- A part that is left out under some condition. -/
def Stage.unless (skip : EmContext → Bool) (f : Stage ω) : Stage ω := fun s =>
  if skip s.ctxt then (.continue, s) else f s

/-! ## Soft handlers -/

/-- `em_andn_soft`. -/
def emAndnSoft (c : EmContext) : EmContext :=
  let temp := ~~~c.src1.value &&& c.src2.value
  let temp := if c.operandSize = 4 then temp &&& 0xffffffff else temp
  let signbit := if c.operandSize = 4 then 31 else 63
  { c with
    dst := { c.dst with value := temp }
    rflags := c.rflags &&& ~~~rflagsMaskOszapc ||| (if temp = 0 then 0x40 else 0) |||
      (if temp.ushiftRight signbit ≠ 0 then 0x80 else 0) }

/-- `em_bextr_soft`. The host takes shift counts modulo 64. -/
def emBextrSoft (c : EmContext) : EmContext :=
  let start := (c.src2.value &&& 0xff).toNat
  let len := (c.src2.value >>> 8 &&& 0xff).toNat
  let temp := c.src1.value
  let temp := if c.operandSize = 4 then temp &&& 0xffffffff else temp
  let temp := temp >>> (start % 64) &&& ~~~(BitVec.allOnes 64 <<< (len % 64))
  { c with
    dst := { c.dst with value := temp }
    rflags := c.rflags &&& ~~~rflagsMaskOszapc ||| (if temp = 0 then 0x40 else 0) }

/-- `em_mov`. -/
def emMov (c : EmContext) : EmContext :=
  { c with dst := { c.dst with value := putBytes 0 c.operandSize c.src1.value c.dst.value } }

/-- `em_movzx`. -/
def emMovzx (c : EmContext) : EmContext :=
  { c with dst := { c.dst with value := putBytes 0 c.src1.size c.src1.value 0 } }

/-- `em_movsx`. -/
def emMovsx (c : EmContext) : EmContext :=
  let extension := if c.src1.value.getLsbD (8 * c.src1.size - 1) then BitVec.allOnes 64 else 0
  { c with dst := { c.dst with
      value := putBytes 0 c.src1.size c.src1.value (putBytes 0 c.dst.size extension 0) } }

/-- `em_push`. -/
def emPush : Stage ω := fun s =>
  let size := s.ctxt.operandSize
  let s := s.registerAdd ops emRegRsp (-BitVec.ofNat 64 size)
  let (ea, s) := s.gprRead ops emRegRsp s.ctxt.addressSize
  let sp :=
    { s.ctxt.dst with type := .mem, size, mem := { ea, seg := .ss }, value := s.ctxt.src1.value }
  (s.setOperand .dst sp).operandWrite ops .dst

/-- `em_pop`. -/
def emPop : Stage ω := fun s =>
  let size := s.ctxt.operandSize
  let (ea, s) := s.gprRead ops emRegRsp s.ctxt.addressSize
  let s := s.setOperand .src1 { s.ctxt.src1 with type := .mem, size, mem := { ea, seg := .ss } }
  let s := s.registerAdd ops emRegRsp (BitVec.ofNat 64 size)
  match s.operandRead ops .src1 with
  | (.continue, s) => (.continue, s.setOperand .dst { s.ctxt.dst with value := s.ctxt.src1.value })
  | (rc, s) => (rc, s)

def softHandler (h : Handler) : Stage ω := fun s =>
  match h with
  | .andnSoft => (.continue, { s with ctxt := emAndnSoft s.ctxt })
  | .bextrSoft => (.continue, { s with ctxt := emBextrSoft s.ctxt })
  | .mov => (.continue, { s with ctxt := emMov s.ctxt })
  | .movzx => (.continue, { s with ctxt := emMovzx s.ctxt })
  | .movsx => (.continue, { s with ctxt := emMovsx s.ctxt })
  | .push => emPush ops s
  | .pop => emPop ops s
  -- the others are fast operations
  | _ => (.error, s)

/-! ## One round -/

/-- What the host leaves in undefined flags, given the operation and its operands. -/
abbrev HostFlags : Type := Handler → (dst src1 : BitVec 64) → ArithFlags

variable (host : HostFlags)

/-- The operands of a bit test with a memory operand and a register offset. -/
def EmContext.isBitop (c : EmContext) : Bool :=
  c.opcode.has insnBitop && (c.dst.type = .mem && c.src1.type = .reg)

/-- The input operands. -/
def readInputs : Stage ω := fun s =>
  let s := if s.ctxt.opcode.has insnNoflags then s else s.setRflags (ops.readRflags s.vcpu)
  if s.ctxt.isBitop then s.operandReadBitop ops
  else
    Stage.andThen
      (Stage.andThen (Stage.unless (·.opcode.has insnDstNr) (Emulator.operandRead ops · .dst))
        (Emulator.operandRead ops · .src1))
      (Emulator.operandRead ops · .src2) s

/-- The fast operation of a handler. -/
def fastHandler (h : Handler) (c : EmContext) : EmContext :=
  let r := fastopDispatch (host h c.dst.value c.src1.value) h c.dst.size c.dst.value c.src1.value
    (.ofRflags c.rflags)
  { c with dst := { c.dst with value := r.1 }, rflags := setArith c.rflags r.2 }

/-- The instruction itself. -/
def executeHandler : Stage ω := fun s =>
  match s.ctxt.opcode.target with
  | .handler h =>
    if s.ctxt.opcode.has insnFastop then (.continue, { s with ctxt := fastHandler host h s.ctxt })
    else softHandler ops h s
  | _ => (.error, s)

/-- The output operands. -/
def writeOutputs : Stage ω := fun s =>
  let s := if s.ctxt.opcode.has insnNoflags then s
    else { s with vcpu := ops.writeRflags s.ctxt.rflags s.vcpu }
  Stage.unless (·.opcode.has insnDstNw) (Emulator.operandWrite ops · .dst) s

/-- How far index registers move. -/
def indexStep (c : EmContext) : BitVec 64 :=
  if rflagsDf c.rflags then -BitVec.ofNat 64 c.operandSize else BitVec.ofNat 64 c.operandSize

/-- The index registers move on. -/
def advanceIndexes (s : Emulator ω) : Emulator ω :=
  let s :=
    if s.ctxt.opcode.decodeDst = some .di then s.registerAdd ops regRdi (indexStep s.ctxt) else s
  if s.ctxt.opcode.decodeSrc1 = some .si then s.registerAdd ops regRsi (indexStep s.ctxt) else s

/-- A comparison ends the repetition. -/
def repEnds (c : EmContext) : Bool :=
  c.opcode.has insnRepx && ((c.prefixes.rep == prefixRepne && rflagsZf c.rflags) ||
    (c.prefixes.rep == prefixRepe && !rflagsZf c.rflags))

/-- Where a round leads to: to `exit`, `done` or `restart`. -/
inductive Next
  | exit (rc : EmStatus)
  | done
  | restart
  deriving DecidableEq, Repr

/-- What follows after a round of an instruction with a repeat prefix. -/
def repeatInsn (insn : ℕ → BitVec 8) (s : Emulator ω) : Next × Emulator ω :=
  let s := s.registerAdd ops regRcx (-1)
  if repEnds s.ctxt then (.done, s)
  else
    let (rc, ctxt) := decodeOperands (ops.readGpr s.vcpu) insn s.ctxt
    let s := { s with ctxt }
    if rc ≠ .continue then (.exit rc, s) else (.restart, s.gprCacheFlush ops)

/-- The stages of a round. -/
def emulateOnce : Stage ω :=
  ((readInputs ops).andThen (executeHandler ops host)).andThen (writeOutputs ops)

/-- One round of `em_emulate_insn`, from `restart` on. -/
def emRound (insn : ℕ → BitVec 8) (s : Emulator ω) : Next × Emulator ω :=
  let (count, s) :=
    if s.ctxt.prefixes.rep ≠ 0 then s.gprRead ops regRcx s.ctxt.addressSize else (1, s)
  if count = 0 then (.done, s)
  else
    match emulateOnce ops host s with
    | (.continue, s) =>
      let s := advanceIndexes ops s
      if s.ctxt.prefixes.rep ≠ 0 then repeatInsn ops insn s else (.done, s)
    | (rc, s) => (.exit rc, s)

/-- The end of `em_emulate_insn`, from `done` or `exit` on. -/
def emFinish (next : Next) (s : Emulator ω) : EmStatus × Emulator ω :=
  match next with
  | .exit rc => (rc, s.gprCacheInvalidate)
  | _ =>
    let s : Emulator ω := {
      ctxt := { s.ctxt with finished := true }
      vcpu := ops.advanceRip s.ctxt.cursor.len s.vcpu }
    (.continue, (s.gprCacheFlush ops).gprCacheInvalidate)

/-- At most `fuel` rounds; the state at the end and where the last round leads to. -/
def emRounds (insn : ℕ → BitVec 8) : ℕ → Emulator ω → Next × Emulator ω
  | 0, s => (.restart, s)
  | fuel + 1, s =>
    match emRound ops host insn s with
    | (.restart, s) => emRounds insn fuel s
    | (next, s) => (next, s)

/-- The number of rounds that the count register allows for. -/
def emCount (s : Emulator ω) : ℕ := (s.gprRead ops regRcx s.ctxt.addressSize).1.toNat

/-- `em_emulate_insn`. -/
def emEmulateInsn (insn : ℕ → BitVec 8) (s : Emulator ω) : EmStatus × Emulator ω :=
  let s := { s with ctxt := { s.ctxt with finished := false } }
  let (next, s) := emRounds ops host insn (emCount ops s + 1) s
  emFinish ops next s

end Emulator

end Haxm
