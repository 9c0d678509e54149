/-
# Bit tests with a register offset

BT, BTS, BTR and BTC with a memory operand and an offset in a register address a
string of bits that reaches in both directions from the operand. The emulator
adds the number of whole bytes to the effective address and leaves an offset of
0 to 7 to the instruction of the host, which works on an operand of the operand
size from there on.
-/

import Haxm.Emulate.Rep

namespace Haxm

open Lib

/-! ## Single bits -/

/-- What becomes of a word whose bit `n` is tested. -/
def bitTestResult {w : ℕ} (h : Handler) (d : BitVec w) (n : ℕ) : BitVec w :=
  match h with
  | .bts => d ||| 1#w <<< n
  | .btr => d &&& ~~~(1#w <<< n)
  | .btc => d ^^^ 1#w <<< n
  | _ => d

/-- What becomes of the bit itself. -/
def bitAfter (h : Handler) (b : Bool) : Bool :=
  match h with
  | .bts => true
  | .btr => false
  | .btc => !b
  | _ => b

section Bits

variable {w : ℕ} (h : Handler) (d : BitVec w) {n : ℕ}

theorem getLsbD_one_shiftLeft {i : ℕ} (hn : n < w) : (1#w <<< n).getLsbD i = decide (i = n) := by
  by_cases inside : i < w
  · rw [BitVec.getLsbD_shiftLeft, BitVec.getLsbD_one]
    by_cases same : i = n
    · simp [same, hn]
      omega
    · by_cases below : i < n
      · simp [below, same]
      · have later : i - n ≠ 0 := by omega
        simp [later, same]
  · rw [BitVec.getLsbD_of_ge _ _ (by omega), decide_eq_false (by omega)]

theorem getLsbD_bitTestResult {i : ℕ} (hn : n < w) :
    (bitTestResult h d n).getLsbD i =
      if i = n then bitAfter h (d.getLsbD n) else d.getLsbD i := by
  have one := @getLsbD_one_shiftLeft w n i hn
  by_cases inside : i < w
  · cases h
    case bts | btr | btc =>
      simp only [bitTestResult, bitAfter, BitVec.getLsbD_or, BitVec.getLsbD_and, BitVec.getLsbD_xor,
        BitVec.getLsbD_not, one, inside, decide_true, Bool.true_and]
      by_cases same : i = n <;> simp [same]
    all_goals
      by_cases same : i = n <;> simp [bitTestResult, bitAfter, same]
  · rw [BitVec.getLsbD_of_ge _ _ (by omega), if_neg (by omega), BitVec.getLsbD_of_ge _ _ (by omega)]

end Bits

/-! ## The instruction of the host -/

theorem hostInstruction_bitTest {w : ℕ} {h : Handler} (bit : h.isBitTest = true) (d s : BitVec w)
    (u f : ArithFlags) :
    (hostInstruction d s u h f).1.getD d = bitTestResult h d (s.toNat % w) ∧
      (hostInstruction d s u h f).2 = bitFlags u f (d.getLsbD (s.toNat % w)) := by
  cases h <;> simp [Handler.isBitTest] at bit <;> exact ⟨rfl, rfl⟩

/-- The stub stores the low bytes of its result. -/
theorem getLsbD_fastopResult {size i : ℕ} (hi : i < 8 * size) (le : 8 * size ≤ 64)
    (r : BitVec (8 * size)) (d : BitVec 64) :
    (if 8 * size = 32 then r.setWidth 64
      else putBytes 0 (8 * size / 8) (r.setWidth 64) d).getLsbD i = r.getLsbD i := by
  have inside : i < 64 := by omega
  have wide : (r.setWidth 64).getLsbD i = r.getLsbD i := by
    rw [BitVec.getLsbD_setWidth, decide_eq_true inside, Bool.true_and]
  split
  · exact wide
  · rw [getLsbD_putBytes _ _ _ _ inside, if_pos (by omega), Nat.mul_zero, Nat.sub_zero, wide]

/-- The low bytes of the result, and the flags. -/
theorem fastopDispatch_bitTest {h : Handler} (bit : h.isBitTest = true) (u : ArithFlags) {size : ℕ}
    (cases : size = 2 ∨ size = 4 ∨ size = 8) (d : BitVec 64) {o : BitVec 64} (low : o.toNat < 8)
    (f : ArithFlags) :
    (∀ i < 8 * size, (fastopDispatch u h size d o f).1.getLsbD i =
      (bitTestResult h d o.toNat).getLsbD i) ∧
    (fastopDispatch u h size d o f).2 = bitFlags u f (d.getLsbD o.toNat) := by
  have wide : fastopWidth size = 8 * size := by
    rcases cases with rfl | rfl | rfl <;> rfl
  have offset : (o.setWidth (8 * size)).toNat % (8 * size) = o.toNat := by
    have small : o.toNat < 2 ^ (8 * size) := by
      rcases cases with rfl | rfl | rfl <;> simp <;> omega
    rw [BitVec.toNat_setWidth, Nat.mod_eq_of_lt small, Nat.mod_eq_of_lt (by omega)]
  have same : (d.setWidth (8 * size)).getLsbD o.toNat = d.getLsbD o.toNat := by
    rw [BitVec.getLsbD_setWidth, decide_eq_true (by omega), Bool.true_and]
  have bits {i : ℕ} (hi : i < 8 * size) :
      (bitTestResult h (d.setWidth (8 * size)) o.toNat).getLsbD i =
        (bitTestResult h d o.toNat).getLsbD i := by
    rw [getLsbD_bitTestResult _ _ (by omega), getLsbD_bitTestResult _ _ (by omega), same,
      BitVec.getLsbD_setWidth, decide_eq_true hi, Bool.true_and]
  obtain ⟨result, flags⟩ := hostInstruction_bitTest bit (d.setWidth (8 * size))
    (o.setWidth (8 * size)) u f
  rw [offset] at result flags
  rw [same] at flags
  unfold fastopDispatch
  dsimp only
  rw [wide, if_neg (by omega)]
  generalize hostInstruction (d.setWidth (8 * size)) (o.setWidth (8 * size)) u h f =
    r at result flags
  obtain ⟨value, f'⟩ := r
  cases value with
  | none =>
    refine ⟨fun i hi => ?_, flags⟩
    rw [← bits hi, ← result]
    show d.getLsbD i = (d.setWidth (8 * size)).getLsbD i
    rw [BitVec.getLsbD_setWidth, decide_eq_true hi, Bool.true_and]
  | some r =>
    refine ⟨fun i hi => ?_, flags⟩
    rw [← bits hi, ← result]
    exact getLsbD_fastopResult hi (by omega) r d

/-! ## Memory -/

/-- Only the bit that is tested changes in memory. -/
theorem Guest.mem_store_bitTest (g : Guest) (h : Handler) (la v : BitVec 64) {size n : ℕ}
    (positive : 0 < size) (le : size ≤ 8) (hn : n < 8)
    (bits : ∀ i < 8 * size, v.getLsbD i = (bitTestResult h (g.load la size) n).getLsbD i) :
    (g.store la size v).mem = Function.update g.mem la (bitTestResult h (g.mem la) n) := by
  have load {i : ℕ} (hi : i < 8 * size) : (g.load la size).getLsbD i =
      (g.mem (la + BitVec.ofNat 64 (i / 8))).getLsbD (i % 8) := by
    rw [Guest.load, getLsbD_loadLe _ (by omega), decide_eq_true hi, Bool.true_and]
  have distance (a : BitVec 64) : la + BitVec.ofNat 64 (a - la).toNat = a := by
    rw [BitVec.ofNat_toNat, BitVec.setWidth_eq, BitVec.add_comm, BitVec.sub_add_cancel]
  -- byte by byte; only the first one holds the bit
  funext a
  by_cases first : a = la
  · subst first
    have inside : (a - a).toNat < size := by
      rw [BitVec.sub_self]
      exact positive
    rw [Function.update_self]
    simp only [Guest.store, Lib.store, if_pos inside]
    apply BitVec.eq_of_getLsbD_eq
    intro i hi
    have byte : i / 8 = 0 := by omega
    have same := load (i := n) (by omega)
    have here := load (i := i) (by omega)
    rw [Nat.div_eq_of_lt hn, Nat.mod_eq_of_lt hn, BitVec.add_zero] at same
    rw [byte, Nat.mod_eq_of_lt hi, BitVec.add_zero] at here
    rw [BitVec.sub_self, BitVec.getLsbD_extractLsb', decide_eq_true hi, Bool.true_and]
    simp only [BitVec.toNat_zero, Nat.mul_zero, Nat.zero_add]
    rw [bits i (by omega), getLsbD_bitTestResult _ _ (by omega),
      getLsbD_bitTestResult _ _ (by omega), same, here]
  · rw [Function.update_of_ne first]
    by_cases inside : (a - la).toNat < size
    · have later : (a - la).toNat ≠ 0 := by
        intro zero
        have := distance a
        rw [zero, BitVec.add_zero] at this
        exact first this.symm
      simp only [Guest.store, Lib.store, if_pos inside]
      apply BitVec.eq_of_getLsbD_eq
      intro i hi
      have here := load (i := 8 * (a - la).toNat + i) (by omega)
      have byte : (8 * (a - la).toNat + i) / 8 = (a - la).toNat := by omega
      have bit : (8 * (a - la).toNat + i) % 8 = i := by omega
      rw [byte, bit, distance] at here
      rw [BitVec.getLsbD_extractLsb', decide_eq_true hi, Bool.true_and, bits _ (by omega),
        getLsbD_bitTestResult _ _ (by omega), if_neg (by omega), here]
    · simp only [Guest.store, Lib.store, if_neg inside]

/-! ## The offset -/

/-- The offset of a register, as a signed number of the operand size. -/
def signedOffset (size : ℕ) (x : BitVec 64) : ℤ := (x.setWidth (8 * size)).toInt

theorem setWidth_lowBytes (size : ℕ) (x : BitVec 64) :
    (lowBytes size x).setWidth (8 * size) = x.setWidth (8 * size) := by
  apply BitVec.eq_of_getLsbD_eq
  intro i hi
  rw [BitVec.getLsbD_setWidth, getLsbD_lowBytes, BitVec.getLsbD_setWidth, decide_eq_true hi,
    Bool.true_and, Bool.true_and]

theorem bitOffset_lowBytes {size : ℕ} (cases : size = 2 ∨ size = 4 ∨ size = 8) (x : BitVec 64) :
    ∃ o : BitVec 64, Emulator.bitOffset size (lowBytes size x) = some o ∧
      o.toInt = signedOffset size x := by
  have low := setWidth_lowBytes size x
  unfold signedOffset
  rcases cases with rfl | rfl | rfl
  · exact ⟨_, rfl, (BitVec.toInt_signExtend_of_le (by decide)).trans (congrArg BitVec.toInt low)⟩
  · exact ⟨_, rfl, (BitVec.toInt_signExtend_of_le (by decide)).trans (congrArg BitVec.toInt low)⟩
  · refine ⟨_, rfl, congrArg BitVec.toInt ?_⟩
    rwa [BitVec.setWidth_eq] at low

/-- The whole bytes of an offset. -/
theorem sshiftRight_three (o : BitVec 64) : o.sshiftRight 3 = BitVec.ofInt 64 (o.toInt / 8) :=
  congrArg (BitVec.ofInt 64) (Int.shiftRight_eq_div_pow o.toInt 3)

/-- The bits that are left. -/
theorem toNat_and_seven (o : BitVec 64) : (o &&& 7).toNat = (o.toInt % 8).toNat := by
  have low : (o &&& 7).toNat = o.toNat % 2 ^ 3 := by
    rw [BitVec.toNat_and]
    exact Nat.and_two_pow_sub_one_eq_mod o.toNat 3
  have := BitVec.toInt_eq_toNat_cond o
  split at this <;> omega

/-! ## The operands -/

/-- An entry of a bit test whose offset is in a register. -/
@[mk_iff] structure BitTestEntry (h : Handler) (e : EmOpcode) : Prop where
  bit : h.isBitTest = true
  target : e.target = .handler h
  fastop : e.has insnFastop = true
  bitop : e.has insnBitop = true
  noflags : e.has insnNoflags = false
  nw : e.has insnDstNw = false
  byteop : e.has insnByteop = false
  stack : e.has insnStack = false
  dst : e.decodeDst = some .modrmRm
  src1 : e.decodeSrc1 = some .modrmReg
  string : e.has insnString = false

instance (h : Handler) (e : EmOpcode) : Decidable (BitTestEntry h e) :=
  decidable_of_iff' _ (bitTestEntry_iff h e)

/-- What a bit test has in its context. -/
structure BitTestReady (h : Handler) (size : ℕ) (s : Emulator Guest) : Prop where
  entry : BitTestEntry h s.ctxt.opcode
  rep : s.ctxt.prefixes.rep = 0
  sized : Sized s.ctxt
  coherent : s.Coherent promptOps
  clean : s.ctxt.cache.w = fun _ => false
  cases : size = 2 ∨ size = 4 ∨ size = 8
  memory : s.ctxt.dst.type = .mem
  dstSize : s.ctxt.dst.size = size
  dst : s.ctxt.dst.Fresh
  register : s.ctxt.src1.type = .reg
  src1Size : s.ctxt.src1.size = size

/-- The signed offset. -/
def Emulator.bitTestOffset (s : Emulator Guest) : ℤ :=
  signedOffset s.ctxt.src1.size (s.gpr s.ctxt.src1.reg.index)

/-- The destination, moved by the whole bytes of the offset. -/
def Emulator.bitTestOperand (s : Emulator Guest) : EmOperand :=
  { s.ctxt.dst with mem := { s.ctxt.dst.mem with
      ea := s.ctxt.dst.mem.ea + BitVec.ofInt 64 (s.bitTestOffset / 8) } }

/-- The linear address of the byte that holds the bit. -/
def Emulator.bitTestAddress (s : Emulator Guest) : BitVec 64 := s.la s.bitTestOperand

/-- The context after the inputs of a bit test have been read. -/
def bitTestInputs (s : Emulator Guest) (o : BitVec 64) (k : GprCache) : EmContext :=
  { s.ctxt with
    dst := { s.bitTestOperand with
      value := putBytes 0 s.ctxt.dst.size (s.vcpu.load s.bitTestAddress s.ctxt.dst.size)
        s.ctxt.dst.value }
    src1 := { s.ctxt.src1 with value := o &&& 7 }
    rflags := s.vcpu.rflags
    cache := k }

/-- The context after the operation. -/
def bitTestOutputs (s : Emulator Guest) (o : BitVec 64) (k : GprCache) (v : BitVec 64)
    (f : ArithFlags) : EmContext :=
  { bitTestInputs s o k with
    dst := { (bitTestInputs s o k).dst with value := v }
    rflags := setArith s.vcpu.rflags f }

section Run

variable {h : Handler} {size : ℕ} {s : Emulator Guest}

/-- The number that the offset register holds. -/
theorem Emulator.exists_gprRead (s : Emulator Guest) (i : Fin 16) (n : ℕ) :
    ∃ k, s.ctxt.cache.Filled s.vcpu.gpr k ∧
      s.gprRead promptOps i n = (lowBytes n (s.gpr i), s.setCache k) := by
  have filled := (@sameRegisters_gprRead _ promptOps s i n).filled
  exact ⟨_, filled, Prod.ext gprRead_fst rfl⟩

theorem BitTestReady.operandReadBitop (ready : BitTestReady h size s) :
    ∃ o k, o.toInt = s.bitTestOffset ∧ s.ctxt.cache.Filled s.vcpu.gpr k ∧
      (s.setRflags s.vcpu.rflags).operandReadBitop promptOps =
        (.continue, ⟨bitTestInputs s o k, s.vcpu.read s.bitTestAddress s.ctxt.dst.size⟩) := by
  have cases : s.ctxt.src1.size = 2 ∨ s.ctxt.src1.size = 4 ∨ s.ctxt.src1.size = 8 := by
    rw [ready.src1Size]
    exact ready.cases
  obtain ⟨o, offset, signed⟩ := bitOffset_lowBytes cases (s.gpr s.ctxt.src1.reg.index)
  obtain ⟨k, filled, read⟩ := (s.setRflags s.vcpu.rflags).exists_gprRead
    s.ctxt.src1.reg.index s.ctxt.src1.size
  have base : s.ctxt.dst.mem.ea + o.sshiftRight 3 = s.bitTestOperand.mem.ea := by
    rw [sshiftRight_three, signed]
    rfl
  refine ⟨o, k, signed, filled, ?_⟩
  unfold Emulator.operandReadBitop
  refine (if_neg (Bool.eq_false_iff.mp ready.dst.readPending)).trans ?_
  rw [show (s.setRflags s.vcpu.rflags).ctxt.src1 = s.ctxt.src1 from rfl, read]
  dsimp only
  rw [show (s.setRflags s.vcpu.rflags).gpr = s.gpr from rfl, offset]
  dsimp only
  rw [show (s.setRflags s.vcpu.rflags).ctxt.dst = s.ctxt.dst from rfl, base]
  have loaded := @Emulator.segmentedRead_prompt
    (((s.setRflags s.vcpu.rflags).setCache k).setOperand .src1
      { s.ctxt.src1 with value := o &&& 7 })
    s.bitTestOperand ⟨ready.sized.1, ready.sized.2⟩ s.ctxt.dst.value s.ctxt.dst.size
  rw [show ({ ea := s.bitTestOperand.mem.ea, seg := s.ctxt.dst.mem.seg } : OperandMem) =
    s.bitTestOperand.mem from rfl, loaded]
  rfl

theorem BitTestReady.readInputs (ready : BitTestReady h size s) :
    ∃ o k, o.toInt = s.bitTestOffset ∧ s.ctxt.cache.Filled s.vcpu.gpr k ∧
      readInputs promptOps s =
        (.continue, ⟨bitTestInputs s o k, s.vcpu.read s.bitTestAddress s.ctxt.dst.size⟩) := by
  obtain ⟨o, k, signed, filled, run⟩ := ready.operandReadBitop
  have bitop : s.ctxt.isBitop = true := by
    simp [EmContext.isBitop, ready.entry.bitop, ready.memory, ready.register]
  refine ⟨o, k, signed, filled, ?_⟩
  unfold Haxm.readInputs
  rw [ready.entry.noflags, if_neg Bool.false_ne_true]
  exact (if_pos bitop).trans run

/-- The bits that the host works on. -/
theorem BitTestReady.fastHandler (ready : BitTestReady h size s) (host : HostFlags) {o : BitVec 64}
    (signed : o.toInt = s.bitTestOffset) (k : GprCache) :
    ∃ v f, fastHandler host h (bitTestInputs s o k) = bitTestOutputs s o k v f ∧
      (∀ i < 8 * size, v.getLsbD i = (bitTestResult h (s.vcpu.load s.bitTestAddress size)
        (s.bitTestOffset % 8).toNat).getLsbD i) ∧
      f.cf = (s.vcpu.load s.bitTestAddress size).getLsbD (s.bitTestOffset % 8).toNat ∧
      f.zf = s.vcpu.rflags.getLsbD 6 := by
  have bit : (o &&& 7).toNat = (s.bitTestOffset % 8).toNat := by
    rw [toNat_and_seven, signed]
  have small : (s.bitTestOffset % 8).toNat < 8 := by omega
  have cases := ready.cases
  have value : (bitTestInputs s o k).dst.value =
      putBytes 0 size (s.vcpu.load s.bitTestAddress size) s.ctxt.dst.value := by
    rw [← ready.dstSize]
    rfl
  have low {i : ℕ} (hi : i < 8 * size) : (bitTestInputs s o k).dst.value.getLsbD i =
      (s.vcpu.load s.bitTestAddress size).getLsbD i := by
    rw [value, getLsbD_putBytes _ _ _ _ (by omega), if_pos (by omega), Nat.mul_zero, Nat.sub_zero]
  have dispatch := fun u => fastopDispatch_bitTest ready.entry.bit u cases
    (bitTestInputs s o k).dst.value (o := o &&& 7) (by omega) (.ofRflags s.vcpu.rflags)
  rw [bit] at dispatch
  unfold Haxm.fastHandler
  rw [show (bitTestInputs s o k).dst.size = size from ready.dstSize]
  refine ⟨_, _, rfl, fun i hi => ?_, ?_, ?_⟩
  · refine ((dispatch _).1 i hi).trans ?_
    rw [getLsbD_bitTestResult _ _ (by omega), getLsbD_bitTestResult _ _ (by omega), low hi,
      low (by omega)]
  · refine (congrArg ArithFlags.cf (dispatch _).2).trans ?_
    exact low (by omega)
  · exact congrArg ArithFlags.zf (dispatch _).2

/-- What a bit test does, if it tests the bit `n` of the byte at `la`. -/
structure BitTestEffect (h : Handler) (la : BitVec 64) (n : ℕ) (g g' : Guest) : Prop where
  mem : g'.mem = Function.update g.mem la (bitTestResult h (g.mem la) n)
  cf : g'.rflags.getLsbD 0 = (g.mem la).getLsbD n
  zf : g'.rflags.getLsbD 6 = g.rflags.getLsbD 6
  flags : g'.rflags &&& ~~~rflagsMaskOszapc = g.rflags &&& ~~~rflagsMaskOszapc
  gpr : g'.gpr = g.gpr

/-- The bit of the first byte. -/
theorem Guest.getLsbD_load (g : Guest) (la : BitVec 64) {n : ℕ} (positive : 0 < size) (hn : n < 8) :
    (g.load la size).getLsbD n = (g.mem la).getLsbD n := by
  rw [Guest.load, getLsbD_loadLe _ (by omega), decide_eq_true (by omega), Bool.true_and,
    Nat.div_eq_of_lt hn, Nat.mod_eq_of_lt hn, BitVec.add_zero]

/-- The guest after the operand has been written. -/
def bitTestWritten (s : Emulator Guest) (v : BitVec 64) (f : ArithFlags) : Guest :=
  Guest.write { s.vcpu.read s.bitTestAddress s.ctxt.dst.size with
    rflags := setArith s.vcpu.rflags f } s.bitTestAddress s.ctxt.dst.size v

theorem bitTestWritten_gpr {v : BitVec 64} {f : ArithFlags} :
    (bitTestWritten s v f).gpr = s.vcpu.gpr := rfl

theorem bitTestWritten_mem {v : BitVec 64} {f : ArithFlags} :
    (bitTestWritten s v f).mem = (s.vcpu.store s.bitTestAddress s.ctxt.dst.size v).mem := rfl

theorem BitTestReady.writeOutputs (ready : BitTestReady h size s) {o : BitVec 64} (k : GprCache)
    (v : BitVec 64) (f : ArithFlags) :
    writeOutputs promptOps
        ⟨bitTestOutputs s o k v f, s.vcpu.read s.bitTestAddress s.ctxt.dst.size⟩ =
      (.continue, ⟨{ bitTestOutputs s o k v f with
          dst := Emulator.markWritten (bitTestOutputs s o k v f).dst .continue },
        bitTestWritten s v f⟩) := by
  rw [writeOutputs_eq (s := ⟨bitTestOutputs s o k v f, _⟩) ready.entry.noflags ready.entry.nw]
  exact Emulator.operandWrite_mem ⟨ready.sized.1, ready.sized.2⟩ ready.memory
    ready.dst.writePending ready.dst.writeFinished

theorem BitTestReady.emulateOnce (ready : BitTestReady h size s) (host : HostFlags) :
    ∃ t, emulateOnce promptOps host s = (.continue, t) ∧ s.SameRegisters promptOps t ∧
      BitTestEffect h s.bitTestAddress (s.bitTestOffset % 8).toNat s.vcpu t.vcpu := by
  obtain ⟨o, k, signed, filled, read⟩ := ready.readInputs
  obtain ⟨v, f, run, bits, cf, zf⟩ := ready.fastHandler host signed k
  have cases := ready.cases
  have small : (s.bitTestOffset % 8).toNat < 8 := by omega
  have mem := s.vcpu.mem_store_bitTest h s.bitTestAddress v (by omega) (by omega) small bits
  rw [Guest.getLsbD_load _ _ (by omega) small] at cf
  have arith := ofRflags_setArith s.vcpu.rflags f
  have execute := @executeHandler_fast _ promptOps
    ⟨bitTestInputs s o k, s.vcpu.read s.bitTestAddress s.ctxt.dst.size⟩ h host ready.entry.target
    ready.entry.fastop
  -- the operand is written at the address that it was read from
  have output := ready.writeOutputs k v f (o := o)
  rw [run] at execute
  rw [emulateOnce_eq, Stage.andThen_of_continue read, Stage.andThen_of_continue execute]
  refine ⟨_, output, ⟨bitTestWritten_gpr (v := v) (f := f), filled⟩, ?_⟩
  exact {
    mem := by
      rw [← mem, ← ready.dstSize]
      exact bitTestWritten_mem
    cf := (congrArg ArithFlags.cf arith).trans cf
    zf := (congrArg ArithFlags.zf arith).trans zf
    flags := setArith_other s.vcpu.rflags f
    gpr := bitTestWritten_gpr }

theorem BitTestReady.start (ready : BitTestReady h size s) : BitTestReady h size s.start :=
  ⟨ready.entry, ready.rep, ⟨ready.sized.1, ready.sized.2⟩, ⟨ready.coherent.1, ready.coherent.2⟩,
    ready.clean, ready.cases, ready.memory, ready.dstSize, ready.dst, ready.register,
    ready.src1Size⟩

/-- A bit test, from the decoded instruction to the end. -/
theorem BitTestReady.emEmulateInsn (ready : BitTestReady h size s) (host : HostFlags)
    (insn : ℕ → BitVec 8) :
    (emEmulateInsn promptOps host insn s).1 = .continue ∧
      BitTestEffect h s.bitTestAddress (s.bitTestOffset % 8).toNat s.vcpu
        (emEmulateInsn promptOps host insn s).2.vcpu := by
  have start := ready.start
  obtain ⟨t, once, registers, effect⟩ := start.emulateOnce host
  have coherent : t.Coherent promptOps := registers.coherent start.coherent
  have finish := coherent.emFinish_vcpu
  have gpr : t.gpr = s.vcpu.gpr :=
    registers.reg.trans (start.coherent.reg_eq start.clean)
  rw [emEmulateInsn_plain ready.rep once (by rw [ready.entry.dst]; decide)
    (by rw [ready.entry.src1]; decide)]
  refine ⟨rfl, ?_⟩
  show BitTestEffect _ _ _ _ (emFinish (guestOps fun _ _ => .continue) .done t).2.vcpu
  rw [finish]
  exact ⟨effect.mem, effect.cf, effect.zf, effect.flags, gpr⟩

end Run

/-! ## The instructions -/

/-- BT, BTS, BTR or BTC with an offset in a register. -/
def Layout.bitTest (l : Layout) : Option Handler :=
  if l.map = .map0F then
    if l.opcode = 0xa3 then some .bt
    else if l.opcode = 0xab then some .bts
    else if l.opcode = 0xb3 then some .btr
    else if l.opcode = 0xbb then some .btc
    else none
  else none

section Instructions

variable {mode : EmMode} {insn : ℕ → BitVec 8} {l : Layout} {e : EmOpcode} {h : Handler}

theorem Implements.entry_bitTest (imp : Implements mode insn l e) (bit : l.bitTest = some h) :
    BitTestEntry h e := by
  obtain ⟨-, entry, -⟩ := imp
  unfold Layout.bitTest at bit
  split at bit
  case isFalse => cases bit
  case isTrue map =>
    rw [Layout.entry, map] at entry
    split_ifs at bit with byte byte byte byte
    all_goals
      rw [byte] at entry
      obtain rfl := Option.some.inj entry
      obtain rfl := Option.some.inj bit
      exact ⟨rfl, rfl, rfl, rfl, rfl, rfl, rfl, rfl, rfl, rfl, rfl⟩

theorem BitTestEntry.entrySize (entry : BitTestEntry h e) : l.entrySize mode e = l.operandSize := by
  rw [Layout.entrySize, entry.byteop, entry.stack]
  exact if_neg fun stack => Bool.false_ne_true stack.1

theorem Implements.bitTestReady (imp : Implements mode insn l e) (entry : BitTestEntry h e)
    (memory : modrmMod (l.modrm insn) ≠ 3) (g : Guest) :
    BitTestReady h l.operandSize (decodedInsn mode insn g) := by
  have decoded := imp.decoded g
  obtain ⟨c, before, operands⟩ := decoded.operands
  generalize decodedInsn mode insn g = s at decoded operands
  have size : c.operandSize = l.operandSize := before.operandSize.trans entry.entrySize
  have cases := layout_operandSize imp.1
  have mem : modrmMod c.bytes.modrm ≠ 3 := by
    rw [before.modrm]
    exact memory
  obtain ⟨dst, dst_eq⟩ : ∃ op, s.ctxt.dst = (decodeOpModrmRm g.gpr op insn c).1.2 := by
    rw [operands.dst, before.opcode, entry.dst]
    exact ⟨_, rfl⟩
  obtain ⟨dstType, dstSize, -⟩ := @decodeOpModrmRm_mem g.gpr insn c dst mem
  obtain ⟨src1, src1_eq, src1Type, src1Size⟩ :
      ∃ op, s.ctxt.src1 = op ∧ op.type = .reg ∧ op.size = c.operandSize := by
    obtain ⟨v, k, moved, src1⟩ := operands.src1
    have same : k.operandSize = c.operandSize := by rw [moved.kept]
    rw [src1, before.opcode, entry.src1]
    refine ⟨_, byteRegister_eq _ ?_, rfl, same⟩
    show k.operandSize ≠ 1
    omega
  rw [← dst_eq] at dstType dstSize
  subst src1_eq
  exact {
    entry := by
      rw [decoded.opcode]
      exact entry
    rep := by
      rw [decoded.prefixes]
      exact imp.rep_eq_zero entry.string
    sized := decoded.sized
    coherent := decoded.coherent
    clean := decoded.clean
    cases := cases
    memory := dstType
    dstSize := dstSize.trans size
    dst := decoded.dst
    register := src1Type
    src1Size := src1Size.trans size }

/-- The bit is bit `o mod 8` of the byte `⌊o / 8⌋` bytes after the operand, for the signed number
`o` in the offset register. -/
theorem bitTest_addressesBit (imp : Implements mode insn l e) (bit : l.bitTest = some h)
    (memory : modrmMod (l.modrm insn) ≠ 3) (host : HostFlags) (g : Guest) :
    (emEmulateInsn promptOps host insn (decodedInsn mode insn g)).1 = .continue ∧
    ∃ o la, o = signedOffset l.operandSize (g.gpr (decodedInsn mode insn g).ctxt.src1.reg.index) ∧
      getLinearAddress g.segBase (decodedInsn mode insn g).ctxt
        { (decodedInsn mode insn g).ctxt.dst.mem with
          ea := (decodedInsn mode insn g).ctxt.dst.mem.ea + BitVec.ofInt 64 (o / 8) } = some la ∧
      BitTestEffect h la (o % 8).toNat g
        (emEmulateInsn promptOps host insn (decodedInsn mode insn g)).2.vcpu := by
  have ready := imp.bitTestReady (imp.entry_bitTest bit) memory g
  have vcpu : (decodedInsn mode insn g).vcpu = g := rfl
  generalize decodedInsn mode insn g = s at ready vcpu
  obtain ⟨go, effect⟩ := ready.emEmulateInsn host insn
  have register : s.gpr = g.gpr := by
    rw [← vcpu]
    exact ready.coherent.reg_eq ready.clean
  have offset : s.bitTestOffset = signedOffset l.operandSize (g.gpr s.ctxt.src1.reg.index) := by
    rw [Emulator.bitTestOffset, ready.src1Size, register]
  have address := @Emulator.getLinearAddress_la s s.bitTestOperand ready.sized
  rw [vcpu] at effect address
  exact ⟨go, s.bitTestOffset, s.bitTestAddress, offset, address, effect⟩

end Instructions

/-- BTS with the operand at the address in EAX and the offset in ECX. -/
def btsMem : ℕ → BitVec 8
  | 0 => 0x0f
  | 1 => 0xab
  | 2 => 0x08
  | _ => 0

theorem implements_btsMem :
    Implements .prot32 btsMem (legacyLayout .prot32 btsMem .map0F 1) (OpcodeMap.map0F.entry 0xab) :=
  ⟨rfl, rfl, ⟨rfl, by decide⟩, by decide⟩

/-- A guest with the operand at 0x1000 and the offset -9. -/
def offsetGuest : Guest :=
  { Guest.blank with gpr := fun i => if i = 0 then 0x1000 else if i = 1 then 0xfffffff7 else 0 }

theorem btsMem_addressesBit :
    (legacyLayout .prot32 btsMem .map0F 1).bitTest = some .bts ∧
      modrmMod ((legacyLayout .prot32 btsMem .map0F 1).modrm btsMem) ≠ 3 ∧
      (emEmulateInsn promptOps clearFlags btsMem
        (decodedInsn .prot32 btsMem offsetGuest)).1 = .continue ∧
      ∃ o la,
        o = signedOffset (legacyLayout .prot32 btsMem .map0F 1).operandSize
          (offsetGuest.gpr (decodedInsn .prot32 btsMem offsetGuest).ctxt.src1.reg.index) ∧
        getLinearAddress offsetGuest.segBase (decodedInsn .prot32 btsMem offsetGuest).ctxt
          { (decodedInsn .prot32 btsMem offsetGuest).ctxt.dst.mem with
            ea := (decodedInsn .prot32 btsMem offsetGuest).ctxt.dst.mem.ea +
              BitVec.ofInt 64 (o / 8) } = some la ∧
        BitTestEffect .bts la (o % 8).toNat offsetGuest
          (emEmulateInsn promptOps clearFlags btsMem
            (decodedInsn .prot32 btsMem offsetGuest)).2.vcpu :=
  ⟨rfl, by decide,
    bitTest_addressesBit implements_btsMem rfl (by decide) clearFlags offsetGuest⟩

end Haxm
