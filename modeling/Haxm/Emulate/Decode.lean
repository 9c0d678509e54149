/-
# The instruction decoder

`em_decode_insn` takes an instruction apart: prefixes, opcode, ModRM and SIB
bytes, displacement and immediate. The bytes are fetched one field after the
other from a buffer of `INSTR_MAX_LEN` bytes. A fetch only checks that the buffer
does not end before the field; where it does, zero is returned instead.

The context keeps a log of the fetches, which the program does not have: for
each of them the offset and the number of bytes.
-/

import Haxm.Emulate.Opcode
import Haxm.Lib.Bits
import Haxm.Lib.Reader

namespace Haxm

open Lib

/-! ## Contexts -/

inductive EmStatus
  | continue | exitMmio | error
  deriving DecidableEq, Repr

inductive EmMode
  | real | prot16 | prot32 | prot64
  deriving DecidableEq, Repr

/-- `SEG_NONE` to `SEG_GS`. -/
inductive EmSegment
  | none | cs | ss | ds | es | fs | gs
  deriving DecidableEq, Repr

/-- `em_operand_type_t`, without `OP_ACC`, which is never used. -/
inductive OperandType
  | none | reg | mem | imm
  deriving DecidableEq, Repr

/-- `operand_mem_t`. -/
structure OperandMem where
  ea : BitVec 64 := 0
  seg : EmSegment := .none
  deriving DecidableEq, Repr

/-- `operand_reg_t`. -/
structure OperandReg where
  index : Fin 16 := 0
  shift : ℕ := 0
  deriving DecidableEq, Repr

/-- `em_operand_t`. `mem` and `reg` are a union; the one that is in use is given
by the type. -/
structure EmOperand where
  size : ℕ := 0
  readPending : Bool := false
  readFinished : Bool := false
  writePending : Bool := false
  writeFinished : Bool := false
  type : OperandType := .none
  mem : OperandMem := {}
  reg : OperandReg := {}
  value : BitVec 64 := 0
  deriving DecidableEq, Repr

/-- The position in the buffer, and the log of fetches. -/
structure Cursor where
  len : ℕ := 0
  fetches : List (ℕ × ℕ) := []
  deriving DecidableEq, Repr

/-- What `decode_prefixes` notes down. -/
structure PrefixSet where
  rep : BitVec 8 := 0
  lock : BitVec 8 := 0
  overrideSegment : EmSegment := .none
  overrideOperandSize : Bool := false
  overrideAddressSize : Bool := false
  deriving DecidableEq, Repr

/-- `gpr_cache`, `gpr_cache_r` and `gpr_cache_w`. -/
structure GprCache where
  value : Fin 16 → BitVec 64 := fun _ => 0
  r : Fin 16 → Bool := fun _ => false
  w : Fin 16 → Bool := fun _ => false

/-- The bytes that the decoder keeps. -/
structure OpcodeBytes where
  b : BitVec 8 := 0
  vexPrefix : BitVec 8 := 0
  vex : BitVec 16 := 0
  rex : BitVec 8 := 0
  modrm : BitVec 8 := 0
  sib : BitVec 8 := 0
  deriving DecidableEq, Repr

/-- `em_context_t`, with the fields that belong together in records of their own.
The buffer itself is not part of it. -/
structure EmContext where
  finished : Bool := true
  mode : EmMode := .real
  operandSize : ℕ := 0
  addressSize : ℕ := 0
  rip : BitVec 64 := 0
  cursor : Cursor := {}
  prefixes : PrefixSet := {}
  bytes : OpcodeBytes := {}
  opcode : EmOpcode := {}
  dst : EmOperand := {}
  src1 : EmOperand := {}
  src2 : EmOperand := {}
  rflags : BitVec 64 := 0
  cache : GprCache := {}

/-- The context that `vcpu_emulate_insn` prepares. -/
def EmContext.init (mode : EmMode) (rip : BitVec 64) : EmContext := { mode, rip }

/-- `INSTR_MAX_LEN`. -/
def instrMaxLen : ℕ := 15

/-! ## Fields of bytes -/

def rexB (rex : BitVec 8) : Bool := rex.getLsbD 0
def rexX (rex : BitVec 8) : Bool := rex.getLsbD 1
def rexR (rex : BitVec 8) : Bool := rex.getLsbD 2
def rexW (rex : BitVec 8) : Bool := rex.getLsbD 3

def modrmRm (modrm : BitVec 8) : BitVec 3 := modrm.extractLsb' 0 3
def modrmReg (modrm : BitVec 8) : BitVec 3 := modrm.extractLsb' 3 3
def modrmOpc (modrm : BitVec 8) : BitVec 3 := modrm.extractLsb' 3 3
def modrmMod (modrm : BitVec 8) : BitVec 2 := modrm.extractLsb' 6 2

def sibBase (sib : BitVec 8) : BitVec 3 := sib.extractLsb' 0 3
def sibIndex (sib : BitVec 8) : BitVec 3 := sib.extractLsb' 3 3
def sibScale (sib : BitVec 8) : BitVec 2 := sib.extractLsb' 6 2

def vexM (vex : BitVec 16) : BitVec 5 := vex.extractLsb' 0 5
def vexB (vex : BitVec 16) : Bool := vex.getLsbD 5
def vexX (vex : BitVec 16) : Bool := vex.getLsbD 6
def vexR (vex : BitVec 16) : Bool := vex.getLsbD 7
def vexV (vex : BitVec 16) : BitVec 4 := vex.extractLsb' 11 4
def vexW (vex : BitVec 16) : Bool := vex.getLsbD 15

/-- A register number: three bits, and a fourth from the REX prefix. -/
def regIndex (low : BitVec 3) (high : Bool) : Fin 16 := (BitVec.ofBool high ++ low).toFin

/-! ## General registers -/

/-- The low `size` bytes. -/
def lowBytes (size : ℕ) (v : BitVec 64) : BitVec 64 := (v.setWidth (8 * size)).setWidth 64

/-- `memcpy` of `size` bytes to the byte `shift` of `old`. -/
def putBytes (shift size : ℕ) (v old : BitVec 64) : BitVec 64 :=
  (old &&& ~~~(lowBytes size (BitVec.allOnes 64) <<< (8 * shift))) |||
    lowBytes size v <<< (8 * shift)

section Gpr

variable (gpr : Fin 16 → BitVec 64)

/-- A register is read from the virtual CPU once. -/
def gprFill (i : Fin 16) (k : GprCache) : GprCache :=
  if k.r i then k
  else { k with value := Function.update k.value i (gpr i), r := Function.update k.r i true }

/-- `gpr_read_shifted`. -/
def gprReadShifted (i : Fin 16) (size shift : ℕ) (k : GprCache) : BitVec 64 × GprCache :=
  let k := gprFill gpr i k
  (lowBytes size (k.value i >>> (8 * shift)), k)

/-- `gpr_write_shifted`. -/
def gprWriteShifted (i : Fin 16) (size : ℕ) (value : BitVec 64) (shift : ℕ) (k : GprCache) :
    GprCache :=
  let k := gprFill gpr i k
  { k with
    w := Function.update k.w i true
    value := Function.update k.value i (putBytes shift size value (k.value i)) }

/-- `gpr_read`. -/
def gprRead (i : Fin 16) (size : ℕ) (k : GprCache) : BitVec 64 × GprCache :=
  gprReadShifted gpr i size 0 k

end Gpr

def regRax : Fin 16 := 0
def regRcx : Fin 16 := 1
def regRbx : Fin 16 := 3
def emRegRsp : Fin 16 := 4
def regRbp : Fin 16 := 5
def regRsi : Fin 16 := 6
def regRdi : Fin 16 := 7

/-! ## Fetches -/

abbrev Decode (α : Type) : Type := Reader (BitVec 8) EmContext α

/-- The little-endian number in the `n` bytes from `pos` on. -/
def loadLe (bytes : ℕ → BitVec 8) (pos : ℕ) : ℕ → BitVec 64
  | 0 => 0
  | n + 1 => loadLe bytes pos n ||| (bytes (pos + n)).setWidth 64 <<< (8 * n)

/-- The functions `insn_fetch_*`, for a field of `n` bytes. -/
def insnFetch (n : ℕ) : Decode (BitVec 64) := fun insn c =>
  let k := c.cursor
  let logged := { k with fetches := k.fetches ++ [(k.len, n)] }
  if k.len ≥ instrMaxLen then (0, { c with cursor := logged })
  else (loadLe insn k.len n, { c with cursor := { logged with len := k.len + n } })

def insnFetchU8 : Decode (BitVec 8) := (·.setWidth 8) <$> insnFetch 1
def insnFetchU16 : Decode (BitVec 16) := (·.setWidth 16) <$> insnFetch 2
def insnFetchU32 : Decode (BitVec 32) := (·.setWidth 32) <$> insnFetch 4
def insnFetchU64 : Decode (BitVec 64) := insnFetch 8

/-- The signed variants, extended as their callers extend them. -/
def insnFetchS8 : Decode (BitVec 64) := (·.signExtend 64) <$> insnFetchU8
def insnFetchS16 : Decode (BitVec 64) := (·.signExtend 64) <$> insnFetchU16
def insnFetchS32 : Decode (BitVec 64) := (·.signExtend 64) <$> insnFetchU32

/-! ## Prefixes -/

def prefixLock : BitVec 8 := 0xf0
def prefixRepne : BitVec 8 := 0xf2
def prefixRepe : BitVec 8 := 0xf3

/-- The prefixes of `decode_prefixes`. -/
inductive LegacyPrefix
  | lock
  | rep (b : BitVec 8)
  | segment (s : EmSegment)
  | operandSize
  | addressSize
  deriving DecidableEq, Repr

def legacyPrefix (b : BitVec 8) : Option LegacyPrefix :=
  if b = prefixLock then some .lock
  else if b = prefixRepne ∨ b = prefixRepe then some (.rep b)
  else if b = 0x2e then some (.segment .cs)
  else if b = 0x36 then some (.segment .ss)
  else if b = 0x3e then some (.segment .ds)
  else if b = 0x26 then some (.segment .es)
  else if b = 0x64 then some (.segment .fs)
  else if b = 0x65 then some (.segment .gs)
  else if b = 0x66 then some .operandSize
  else if b = 0x67 then some .addressSize
  else none

def applyPrefix (s : PrefixSet) (p : LegacyPrefix) : PrefixSet :=
  match p with
  | .lock => { s with lock := prefixLock }
  | .rep b => { s with rep := b }
  | .segment seg => { s with overrideSegment := seg }
  | .operandSize => { s with overrideOperandSize := true }
  | .addressSize => { s with overrideAddressSize := true }

/-- `ctxt->len--`. -/
def Cursor.back (k : Cursor) : Cursor := { k with len := k.len - 1 }

/-- The loop of `decode_prefixes`, with at most `fuel` rounds. -/
def decodePrefixesLoop : ℕ → Decode Unit
  | 0 => pure ()
  | fuel + 1 => do
    let b ← insnFetchU8
    match legacyPrefix b with
    | some p =>
      Reader.modify fun c => { c with prefixes := applyPrefix c.prefixes p }
      decodePrefixesLoop fuel
    | none => Reader.modify fun c => { c with cursor := c.cursor.back }

/-- `decode_prefixes`. Behind the end of the buffer there is no prefix. -/
def decodePrefixes : Decode Unit := decodePrefixesLoop (instrMaxLen + 1)

/-! ## Operands -/

section Operands

variable (gpr : Fin 16 → BitVec 64)

/-- A byte register: without REX the numbers 4 to 7 are AH, CH, DH and BH. -/
def byteRegister (c : EmContext) (op : EmOperand) : EmOperand :=
  if op.size = 1 ∧ c.bytes.rex = 0 then
    { op with reg := {
        shift := op.reg.index.val >>> 2
        index := ⟨op.reg.index.val &&& 3, Nat.lt_of_le_of_lt Nat.and_le_right (by decide)⟩ } }
  else op

def decodeOpNone (op : EmOperand) : Decode (EmStatus × EmOperand) :=
  pure (.continue, { op with type := .none })

def decodeOpModrmReg (op : EmOperand) : Decode (EmStatus × EmOperand) := do
  let c ← Reader.get
  pure (.continue, byteRegister c { op with
    type := .reg
    size := c.operandSize
    reg := { index := regIndex (modrmReg c.bytes.modrm) (rexR c.bytes.rex), shift := 0 } })

/-- `BX`, `BP`, `SI` and `DI`, as integers. -/
def gpr16 (i : Fin 16) : Decode (BitVec 64) := fun _ c =>
  ((gprRead gpr i 2 c.cache).1, { c with cache := (gprRead gpr i 2 c.cache).2 })

def gprAddress (i : Fin 16) : Decode (BitVec 64) := fun _ c =>
  let read := gprRead gpr i c.addressSize c.cache
  (read.1, { c with cache := read.2 })

/-- The effective address of a 16-bit form, and whether SS is its segment. -/
def modrmAddress16 (c : EmContext) : Decode (BitVec 64 × Bool) :=
  match (modrmRm c.bytes.modrm).toNat with
  | 0 => do return ((← gpr16 gpr regRbx) + (← gpr16 gpr regRsi), false)
  | 1 => do return ((← gpr16 gpr regRbx) + (← gpr16 gpr regRdi), false)
  | 2 => do return ((← gpr16 gpr regRbp) + (← gpr16 gpr regRsi), true)
  | 3 => do return ((← gpr16 gpr regRbp) + (← gpr16 gpr regRdi), true)
  | 4 => do return (← gpr16 gpr regRsi, false)
  | 5 => do return (← gpr16 gpr regRdi, false)
  | 6 =>
    if modrmMod c.bytes.modrm = 0 then do return ((← insnFetchU16).setWidth 64, false)
    else do return (← gpr16 gpr regRbp, true)
  | _ => do return (← gpr16 gpr regRbx, false)

/-- The displacement of a 16-bit form. -/
def modrmDisp16 (c : EmContext) : Decode (BitVec 64) :=
  if modrmMod c.bytes.modrm = 1 then insnFetchS8
  else if modrmMod c.bytes.modrm = 2 then do return (← insnFetchU16).setWidth 64
  else pure 0

/-- The base register of a SIB byte, or the displacement in its place. -/
def sibBaseAddress (c : EmContext) (sib : BitVec 8) : Decode (BitVec 64) :=
  if sibBase sib = 5 ∧ modrmMod c.bytes.modrm = 0 then insnFetchS32
  else gprAddress gpr (regIndex (sibBase sib) (rexB c.bytes.rex))

/-- The scaled index. The index register 4 stands for none, but not R12. -/
def sibIndexAddress (c : EmContext) (sib : BitVec 8) : Decode (BitVec 64) :=
  let index := regIndex (sibIndex sib) (rexX c.bytes.rex)
  if index = emRegRsp then pure 0
  else do return (← gprAddress gpr index) * (1#64 <<< (sibScale sib).toNat)

def sibAddress (c : EmContext) : Decode (BitVec 64) := do
  let sib ← insnFetchU8
  Reader.modify fun c => { c with bytes := { c.bytes with sib := sib } }
  let base ← sibBaseAddress gpr c sib
  let index ← sibIndexAddress gpr c sib
  pure (base + index)

/-- The effective address of a 32-bit or 64-bit form. The base register is not
extended by REX, unless there is a SIB byte. -/
def modrmAddress32 (c : EmContext) : Decode (BitVec 64) :=
  if modrmRm c.bytes.modrm = 4 then sibAddress gpr c
  else if modrmMod c.bytes.modrm = 0 ∧ modrmRm c.bytes.modrm = 5 then insnFetchS32
  else gprAddress gpr (regIndex (modrmRm c.bytes.modrm) false)

def modrmDisp32 (c : EmContext) : Decode (BitVec 64) :=
  if modrmMod c.bytes.modrm = 1 then insnFetchS8
  else if modrmMod c.bytes.modrm = 2 then insnFetchS32
  else pure 0

def overriddenSegment (c : EmContext) (seg : EmSegment) : EmSegment :=
  if c.prefixes.overrideSegment ≠ .none then c.prefixes.overrideSegment else seg

def decodeOpModrmRm (op : EmOperand) : Decode (EmStatus × EmOperand) := do
  let c ← Reader.get
  if modrmMod c.bytes.modrm = 3 then
    pure (.continue, byteRegister c { op with
      type := .reg
      size := c.operandSize
      reg := { index := regIndex (modrmRm c.bytes.modrm) (rexB c.bytes.rex), shift := 0 } })
  else
    let op := { op with type := .mem, size := c.operandSize }
    if c.addressSize = 2 then
      let (base, stack) ← modrmAddress16 gpr c
      let disp ← modrmDisp16 c
      pure (.continue, { op with mem := {
        ea := base + disp, seg := overriddenSegment c (if stack then .ss else .ds) } })
    else if c.addressSize = 4 ∨ c.addressSize = 8 then
      let base ← modrmAddress32 gpr c
      let disp ← modrmDisp32 c
      pure (.continue, { op with mem := { ea := base + disp, seg := overriddenSegment c .ds } })
    else pure (.continue, { op with mem := { ea := 0, seg := overriddenSegment c .ds } })

def decodeOpModrmRm8 (op : EmOperand) : Decode (EmStatus × EmOperand) := do
  let (rc, op) ← decodeOpModrmRm gpr op
  pure (rc, { op with size := 1 })

def decodeOpModrmRm16 (op : EmOperand) : Decode (EmStatus × EmOperand) := do
  let (rc, op) ← decodeOpModrmRm gpr op
  pure (rc, { op with size := 2 })

def decodeOpVexReg (op : EmOperand) : Decode (EmStatus × EmOperand) := do
  let c ← Reader.get
  pure (.continue, { op with
    type := .reg
    size := c.operandSize
    reg := { index := (~~~(vexV c.bytes.vex)).toFin, shift := 0 } })

def decodeOpOpcReg (op : EmOperand) : Decode (EmStatus × EmOperand) := do
  let c ← Reader.get
  pure (.continue, byteRegister c { op with
    type := .reg
    size := c.operandSize
    reg := { index := regIndex (c.bytes.b.extractLsb' 0 3) (rexB c.bytes.rex), shift := 0 } })

/-- The address of `decode_op_moffs`. -/
def moffsAddress (addressSize : ℕ) : Decode (Option (BitVec 64)) :=
  match addressSize with
  | 2 => do return some ((← insnFetchU16).setWidth 64)
  | 4 => do return some ((← insnFetchU32).setWidth 64)
  | 8 => do return some (← insnFetchU64)
  | _ => pure none

def decodeOpMoffs (op : EmOperand) : Decode (EmStatus × EmOperand) := do
  let c ← Reader.get
  let op := { op with type := .mem, size := c.operandSize }
  match ← moffsAddress c.addressSize with
  | some ea => pure (.continue, { op with mem := { ea, seg := overriddenSegment c .ds } })
  | none => pure (.error, { op with mem := { ea := 0, seg := .ds } })

/-- The immediate of `decode_op_simm`: at most four bytes. -/
def simmValue (operandSize : ℕ) : Decode (Option (BitVec 64)) :=
  match operandSize with
  | 1 => do return some (← insnFetchS8)
  | 2 => do return some (← insnFetchS16)
  | 4 => do return some (← insnFetchS32)
  | 8 => do return some (← insnFetchS32)
  | _ => pure none

def decodeOpSimm (op : EmOperand) : Decode (EmStatus × EmOperand) := do
  let c ← Reader.get
  let op := { op with type := .imm, size := c.operandSize }
  match ← simmValue c.operandSize with
  | some value => pure (.continue, { op with value })
  | none => pure (.error, op)

def decodeOpSimm8 (op : EmOperand) : Decode (EmStatus × EmOperand) := do
  let value ← insnFetchS8
  pure (.continue, { op with type := .imm, size := 1, value })

def decodeOpAcc (op : EmOperand) : Decode (EmStatus × EmOperand) := do
  let c ← Reader.get
  pure (.continue, { op with
    type := .reg, size := c.operandSize, reg := { index := regRax, shift := 0 } })

def decodeOpDi (op : EmOperand) : Decode (EmStatus × EmOperand) := do
  let c ← Reader.get
  let ea ← gprAddress gpr regRdi
  pure (.continue, { op with type := .mem, size := c.operandSize, mem := { ea, seg := .es } })

def decodeOpSi (op : EmOperand) : Decode (EmStatus × EmOperand) := do
  let c ← Reader.get
  let ea ← gprAddress gpr regRsi
  pure (.continue, { op with
    type := .mem, size := c.operandSize, mem := { ea, seg := overriddenSegment c .ds } })

def OpDecoder.run (d : OpDecoder) (op : EmOperand) : Decode (EmStatus × EmOperand) :=
  match d with
  | .none => decodeOpNone op
  | .modrmReg => decodeOpModrmReg op
  | .modrmRm => decodeOpModrmRm gpr op
  | .modrmRm8 => decodeOpModrmRm8 gpr op
  | .modrmRm16 => decodeOpModrmRm16 gpr op
  | .vexReg => decodeOpVexReg op
  | .opcReg => decodeOpOpcReg op
  | .moffs => decodeOpMoffs op
  | .simm => decodeOpSimm op
  | .simm8 => decodeOpSimm8 op
  | .acc => decodeOpAcc op
  | .di => decodeOpDi gpr op
  | .si => decodeOpSi gpr op

/-- One operand of `decode_operands`, which is left alone if it has no decoder. -/
def decodeOperand (d : Option OpDecoder) (op : EmOperand) : Decode (EmStatus × EmOperand) :=
  match d with
  | none => pure (.continue, op)
  | some d => d.run gpr { op with
      readPending := false, readFinished := false, writePending := false, writeFinished := false }

/-- `decode_operands`. -/
def decodeOperands : Decode EmStatus := do
  let c ← Reader.get
  let (rc, op) ← decodeOperand gpr c.opcode.decodeDst c.dst
  Reader.modify fun c => { c with dst := op }
  if rc ≠ .continue then pure rc
  else
    let (rc, op) ← decodeOperand gpr c.opcode.decodeSrc1 c.src1
    Reader.modify fun c => { c with src1 := op }
    if rc ≠ .continue then pure rc
    else
      let (rc, op) ← decodeOperand gpr c.opcode.decodeSrc2 c.src2
      Reader.modify fun c => { c with src2 := op }
      pure rc

end Operands

/-! ## Instructions -/

def EmMode.operandSize : EmMode → ℕ
  | .real | .prot16 => 2
  | .prot32 | .prot64 => 4

def EmMode.addressSize : EmMode → ℕ
  | .real | .prot16 => 2
  | .prot32 => 4
  | .prot64 => 8

/-- What `em_decode_insn` resets. -/
def decodeInit (c : EmContext) : EmContext :=
  { c with
    operandSize := c.mode.operandSize
    addressSize := c.mode.addressSize
    cache := { c.cache with r := fun _ => false, w := fun _ => false }
    prefixes := {}
    cursor := { c.cursor with len := 0 } }

/-- The size prefixes take effect. -/
def applySizePrefixes (c : EmContext) : EmContext :=
  { c with
    operandSize :=
      if c.prefixes.overrideOperandSize then c.operandSize ^^^ (2 ||| 4) else c.operandSize
    addressSize :=
      if c.prefixes.overrideAddressSize then
        c.addressSize ^^^ (if c.mode ≠ .prot64 then 2 ||| 4 else 4 ||| 8)
      else c.addressSize }

/-- The first byte after the prefixes and the REX prefix. -/
def decodeRex : Decode (BitVec 8) := do
  Reader.modify fun c => { c with bytes := { c.bytes with rex := 0 } }
  let b ← insnFetchU8
  let c ← Reader.get
  if c.mode = .prot64 ∧ 0x40 ≤ b ∧ b ≤ 0x4f then
    Reader.modify fun c => { c with
      bytes := { c.bytes with rex := b }
      operandSize := if rexW b then 8 else c.operandSize }
    insnFetchU8
  else pure b

/-- The byte after 0xC5 in the form of the two bytes after 0xC4: its bit 7 is R,
while W, X and B are 1 and the map is 0F. -/
def shortVex (high : BitVec 8) : BitVec 16 :=
  (high.setWidth 16 <<< 8) &&& 0x7f00 ||| (if high.getLsbD 7 then 0x80 else 0) ||| 0x8061

def vexValue (b : BitVec 8) : Decode (BitVec 16) :=
  if b = 0xc4 then insnFetchU16 else do return shortVex (← insnFetchU8)

def vexMap (vex : BitVec 16) : Option OpcodeMap :=
  if vexM vex = 1 then some .map0F
  else if vexM vex = 2 then some .map0F38
  else if vexM vex = 3 then some .map0F3A
  else none

/-- REX.R, REX.X and REX.B from the inverted bits of the VEX prefix. -/
def vexRex (vex : BitVec 16) : BitVec 8 :=
  (if vexR vex then 0 else 4) ||| (if vexX vex then 0 else 2) ||| (if vexB vex then 0 else 1)

/-- `*opcode` and `ctxt->b` for the byte `b` of an opcode map. -/
def setOpcode (m : OpcodeMap) (b : BitVec 8) (c : EmContext) : EmContext :=
  { c with opcode := m.entry b, bytes := { c.bytes with b := b } }

/-- An opcode with a VEX prefix, whose first byte is `b`. -/
def decodeVex (b : BitVec 8) : Decode EmStatus := do
  Reader.modify fun c => { c with bytes := { c.bytes with vexPrefix := b } }
  let vex ← vexValue b
  Reader.modify fun c => { c with bytes := { c.bytes with vex := vex } }
  let c ← Reader.get
  if c.mode ≠ .prot64 ∧ (vexR vex = false ∨ vexX vex = false) then pure .error
  else if c.prefixes.lock ≠ 0 ∨ c.prefixes.rep ≠ 0 ∨ c.prefixes.overrideOperandSize = true ∨
      c.bytes.rex ≠ 0 then pure .error
  else
    Reader.modify fun c => { c with
      bytes := { c.bytes with rex := vexRex vex }
      operandSize := if c.mode = .prot64 ∧ vexW vex = true then 8 else c.operandSize }
    let b ← insnFetchU8
    match vexMap vex with
    | some m =>
      Reader.modify (setOpcode m b)
      pure .continue
    | none => pure .error

/-- The opcode that begins with `b`. -/
def decodeOpcode (b : BitVec 8) : Decode EmStatus := do
  Reader.modify fun c => { c with opcode := OpcodeMap.oneByte.entry b }
  if b = 0x0f then
    let b ← insnFetchU8
    if b = 0x38 then
      let b ← insnFetchU8
      Reader.modify (setOpcode .map0F38 b)
      pure .continue
    else if b = 0x3a then
      let b ← insnFetchU8
      Reader.modify (setOpcode .map0F3A b)
      pure .continue
    else
      Reader.modify (setOpcode .map0F b)
      pure .continue
  else if b = 0xc4 ∨ b = 0xc5 then decodeVex b
  else
    Reader.modify (setOpcode .oneByte b)
    pure .continue

def decodeModrm : Decode Unit := do
  let c ← Reader.get
  if c.opcode.has insnModrm then
    let modrm ← insnFetchU8
    Reader.modify fun c => { c with bytes := { c.bytes with modrm := modrm } }
  else pure ()

/-- A decoder of the group entry replaces that of the table, unless it is
`decode_op_none`. -/
def mergeDecoder (table group : Option OpDecoder) : Option OpDecoder :=
  if group ≠ some .none then group else table

/-- The entry for the field `opc`. -/
def mergeGroup (o : EmOpcode) (g : OpcodeGroup) (opc : BitVec 3) : EmOpcode :=
  let e := g.entry opc
  { target := e.target
    flags := o.flags ||| e.flags
    decodeDst := mergeDecoder o.decodeDst e.decodeDst
    decodeSrc1 := mergeDecoder o.decodeSrc1 e.decodeSrc1
    decodeSrc2 := mergeDecoder o.decodeSrc2 e.decodeSrc2 }

/-- The entry with its group resolved; none if the group is missing. -/
def resolveGroup (o : EmOpcode) (opc : BitVec 3) : Option EmOpcode :=
  if o.has insnGroup then
    match o.target with
    | .group g => some (mergeGroup o g opc)
    | _ => none
  else some o

/-- The operand size that the flags of the opcode ask for. -/
def applyOpcodeFlags (c : EmContext) : EmContext :=
  let size := if c.opcode.has insnByteop then 1 else c.operandSize
  { c with operandSize :=
      if c.opcode.has insnStack ∧ size = 4 ∧ c.mode = .prot64 then 8 else size }

/-- The opcode is implemented, and has no repeat prefix that it does not support. -/
def opcodeAccepted (o : EmOpcode) (rep : BitVec 8) : Bool :=
  !o.has insnNotimpl && o.target != .null && (rep == 0 || o.has insnString)

/-- The part of `em_decode_insn` up to the opcode. -/
def decodeHeader : Decode EmStatus := do
  Reader.modify decodeInit
  decodePrefixes
  Reader.modify applySizePrefixes
  let b ← decodeRex
  decodeOpcode b

/-- `em_decode_insn`. -/
def emDecodeInsn (gpr : Fin 16 → BitVec 64) : Decode EmStatus := do
  let rc ← decodeHeader
  if rc ≠ .continue then pure rc
  else
    decodeModrm
    let c ← Reader.get
    match resolveGroup c.opcode (modrmOpc c.bytes.modrm) with
    | none => pure .error
    | some opcode =>
      Reader.modify fun c => applyOpcodeFlags { c with opcode := opcode }
      if opcodeAccepted opcode c.prefixes.rep then decodeOperands gpr else pure .error

end Haxm
