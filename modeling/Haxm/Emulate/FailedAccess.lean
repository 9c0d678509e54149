/-
# Instructions that fail

A memory access may fail in the middle of an instruction. The registers computed
until then are in the cache of the emulator, and are dropped. The flags are not:
they go to the virtual CPU before the destination is written. This does no harm,
since the callbacks of the virtual CPU decide which accesses can fail. Most
instructions access memory at the address of the exit, which is left to user
space and never fails. Addresses are translated for those with two memory
operands, and these write the flags that they have found.
-/

import Haxm.Emulate.Stages
import Haxm.Vcpu.Entry

namespace Haxm

open Lib

/-! ## The callbacks of the virtual CPU -/

/-- `hax_fastmmio`, in the I/O buffer. -/
structure HaxFastmmio where
  gpa : BitVec 64
  value : BitVec 64
  size : BitVec 8
  direction : BitVec 8

def haxExitFastMmio : ℕ := 9

/-- The virtual CPU as the emulator uses it, with the exit and the tunnel. The memory of the guest
is of any kind. -/
structure EmVcpu (μ : Type) where
  regs : Vcpu
  exitGpa : BitVec 64
  exitInstrLength : BitVec 32
  exitStatus : ℕ
  ioBuf : HaxFastmmio
  memory : μ

/-- The functions that access the memory of the guest, whatever they answer: `*pa`, which is not set
if there is no translation, whether an address is in no memory slot, and whether all bytes could be
copied. -/
structure GuestAccess (μ : Type) where
  vcpuTranslate : (va : BitVec 64) → μ → BitVec 64 × μ
  isMmioAddress : (gpa : BitVec 64) → μ → Bool
  vcpuReadGuestVirtual : (addr value : BitVec 64) → (size : ℕ) → μ → Bool × BitVec 64 × μ
  vcpuWriteGuestVirtual : (addr value : BitVec 64) → (size : ℕ) → μ → Bool × μ

section Callbacks

variable {μ : Type} (access : GuestAccess μ)

/-- The address of an access and whether it is left to user space, as `vcpu_read_memory` and
`vcpu_write_memory` find out. -/
def memoryTarget (ea : BitVec 64) (noTranslation : Bool) (v : EmVcpu μ) :
    BitVec 64 × Bool × EmVcpu μ :=
  if noTranslation then (v.exitGpa, true, v)
  else
    let (pa, memory) := access.vcpuTranslate ea v.memory
    (pa, access.isMmioAddress pa memory, { v with memory })

/-- `vcpu_read_memory`. -/
def vcpuReadMemory (ea value : BitVec 64) (size : ℕ) (noTranslation : Bool) (v : EmVcpu μ) :
    EmStatus × BitVec 64 × EmVcpu μ :=
  match memoryTarget access ea noTranslation v with
  | (pa, true, v) =>
    (.exitMmio, value, { v with
      exitStatus := haxExitFastMmio
      ioBuf := { v.ioBuf with gpa := pa, size := .ofNat 8 size, direction := 0 } })
  | (_, false, v) =>
    let (ok, value, memory) := access.vcpuReadGuestVirtual ea value size v.memory
    (if ok then .continue else .error, value, { v with memory })

/-- `vcpu_write_memory`. -/
def vcpuWriteMemory (ea value : BitVec 64) (size : ℕ) (noTranslation : Bool) (v : EmVcpu μ) :
    EmStatus × EmVcpu μ :=
  match memoryTarget access ea noTranslation v with
  | (pa, true, v) =>
    (.exitMmio, { v with
      exitStatus := haxExitFastMmio
      ioBuf := { gpa := pa, size := .ofNat 8 size, value, direction := 1 } })
  | (_, false, v) =>
    let (ok, memory) := access.vcpuWriteGuestVirtual ea value size v.memory
    (if ok then .continue else .error, { v with memory })

/-- The segment in `vcpu_get_segment_base`. -/
def EmSegment.segment : EmSegment → Segment
  | .cs => .cs
  | .ss => .ss
  | .es => .es
  | .fs => .fs
  | .gs => .gs
  | .ds | .none => .ds

/-- `em_ops`. The length of the instruction is that of the exit. -/
def emOps : EmOps (EmVcpu μ) where
  readGpr v := v.regs.state.regs
  writeGpr i x v := { v with regs := vcpuWriteGpr i x v.regs }
  readRflags v := v.regs.state.rflags
  writeRflags x v := { v with regs := vcpuWriteRflags x v.regs }
  getSegmentBase v i := (v.regs.state.seg i.segment).base
  advanceRip _ v := { v with regs := advanceRip (v.exitInstrLength.setWidth 64) v.regs }
  readMemory := vcpuReadMemory access
  readMemoryPost value size v := (.continue, putBytes 0 size v.ioBuf.value value, v)
  writeMemory := vcpuWriteMemory access

/-- GPRs, RFLAGS and RIP. -/
def EmVcpu.registers (v : EmVcpu μ) : (Fin 16 → BitVec 64) × BitVec 64 × BitVec 64 :=
  (v.regs.state.regs, v.regs.state.rflags, v.regs.state.rip)

/-- The states in which `em_emulate_insn` is called for one instruction: at first, and again after
an exit to user space, which leaves the registers alone. -/
inductive Called (host : HostFlags) (s₀ : Emulator (EmVcpu μ)) : Emulator (EmVcpu μ) → Prop
  | first : Called host s₀ s₀
  | again {s t : Emulator (EmVcpu μ)} {insn : ℕ → BitVec 8} {v : EmVcpu μ}
      (before : Called host s₀ s)
      (exit : emEmulateInsn (emOps access) host insn s = (.exitMmio, t))
      (same : v.registers = t.vcpu.registers) : Called host s₀ ⟨t.ctxt, v⟩

end Callbacks

variable {μ : Type} {access : GuestAccess μ} {host : HostFlags} {insn : ℕ → BitVec 8}
  {s t : Emulator (EmVcpu μ)} {rc : EmStatus}

theorem memoryTarget_registers (ea : BitVec 64) (direct : Bool) (v : EmVcpu μ) :
    (memoryTarget access ea direct v).2.2.registers = v.registers := by
  unfold memoryTarget
  split <;> rfl

theorem emOps_apart (access : GuestAccess μ) : (emOps access).Apart EmVcpu.registers where
  read ea value size direct v := by
    have target := @memoryTarget_registers _ access ea direct v
    show (vcpuReadMemory access ea value size direct v).2.2.registers = _
    unfold vcpuReadMemory
    split <;> rename_i eq <;> rw [eq] at target <;> exact target
  post _ _ _ := rfl
  write ea value size direct v := by
    have target := @memoryTarget_registers _ access ea direct v
    show (vcpuWriteMemory access ea value size direct v).2.registers = _
    unfold vcpuWriteMemory
    split <;> rename_i eq <;> rw [eq] at target <;> exact target

/-- An instruction without a repeat prefix exits where its only round does. -/
theorem emEmulateInsn_exit {ops : EmOps (EmVcpu μ)} (rep : s.ctxt.prefixes.rep = 0)
    (run : emEmulateInsn ops host insn s = (rc, t)) (ne : rc ≠ .continue) :
    ∃ u, emulateOnce ops host s.start = (rc, u) ∧ t = u.gprCacheInvalidate := by
  generalize once : emulateOnce ops host s.start = r
  obtain ⟨rc', u⟩ := r
  rw [emEmulateInsn_unrepeated rep once] at run
  split at run
  · exact absurd (congrArg Prod.fst run).symm ne
  · obtain ⟨rfl, rfl⟩ := Prod.mk.inj run
    exact ⟨u, rfl, rfl⟩

/-! ## Two operands in memory -/

/-- The flags are written as they were read. -/
def EmOpcode.KeepsFlags (e : EmOpcode) : Prop :=
  e.has insnDstNw = true ∨ e.has insnFastop = false ∧
    (e.target = .handler .mov ∨ e.target = .handler .push ∨ e.target = .handler .pop)

instance (e : EmOpcode) : Decidable e.KeepsFlags := inferInstanceAs (Decidable (_ ∨ _))

theorem all_keepsFlags (m : OpcodeMap) :
    m.all (fun e => !e.has insnTwomem || e.KeepsFlags) = true := by
  cases m <;> decide +kernel

section Rflags

variable {ops : EmOps (EmVcpu μ)}

/-- The flags of the context do not change while operands are read. -/
theorem readRule_rflags : Stage.ReadRule ops fun s t => t.ctxt.rflags = s.ctxt.rflags where
  refl _ := rfl
  trans h h' := h'.trans h
  register _ _ _ _ := rfl
  operand _ n _ _ _ _ := by cases n <;> rfl

theorem exists_registerAdd (s : Emulator (EmVcpu μ)) (i : Fin 16) (x : BitVec 64) :
    ∃ k, s.registerAdd ops i x = s.setCache k := ⟨_, rfl⟩

theorem exists_gprRead (s : Emulator (EmVcpu μ)) (i : Fin 16) (size : ℕ) :
    ∃ x k, s.gprRead ops i size = (x, s.setCache k) := ⟨_, _, rfl⟩

/-- `em_push` writes an operand on the stack. -/
theorem exists_emPush (s : Emulator (EmVcpu μ)) : ∃ u : Emulator (EmVcpu μ),
    emPush ops s = u.operandWrite ops .dst ∧ u.ctxt.form = s.ctxt.form ∧
      u.ctxt.rflags = s.ctxt.rflags ∧ u.ctxt.src1 = s.ctxt.src1 := by
  unfold emPush
  obtain ⟨k, add⟩ := @exists_registerAdd _ ops s emRegRsp (-BitVec.ofNat 64 s.ctxt.operandSize)
  dsimp only
  rw [add]
  obtain ⟨ea, k', read⟩ := @exists_gprRead _ ops (s.setCache k) emRegRsp
    (s.setCache k).ctxt.addressSize
  exact ⟨_, rfl, rfl, rfl, rfl⟩

/-- `em_pop` reads an operand on the stack. -/
theorem exists_emPop (s : Emulator (EmVcpu μ)) : ∃ u : Emulator (EmVcpu μ),
    emPop ops s = Stage.andThen (Emulator.operandRead ops · .src1) (fun t =>
        (.continue, t.setOperand .dst { t.ctxt.dst with value := t.ctxt.src1.value })) u ∧
      u.ctxt.form = s.ctxt.form ∧ u.ctxt.rflags = s.ctxt.rflags := by
  unfold emPop
  obtain ⟨ea, k, read⟩ := @exists_gprRead _ ops s emRegRsp s.ctxt.addressSize
  dsimp only
  rw [read]
  obtain ⟨k', add⟩ := @exists_registerAdd _ ops (Emulator.setOperand (s.setCache k) .src1 _)
    emRegRsp (BitVec.ofNat 64 s.ctxt.operandSize)
  rw [add]
  exact ⟨_, rfl, rfl, rfl⟩

theorem operandWrite_rflags : (s.operandWrite ops .dst).2.ctxt.rflags = s.ctxt.rflags := by
  unfold Emulator.operandWrite
  dsimp only
  split
  · rfl
  · split <;> rfl

theorem executeHandler_rflags (keeps : s.ctxt.opcode.KeepsFlags)
    (written : s.ctxt.opcode.has insnDstNw = false) :
    (executeHandler ops host s).2.ctxt.rflags = s.ctxt.rflags := by
  obtain ⟨soft, target⟩ := keeps.resolve_left (by simp [written])
  rcases target with target | target | target
  all_goals rw [executeHandler_soft host target soft, softHandler]
  · rfl
  · obtain ⟨u, push, -, rflags, -⟩ := @exists_emPush _ ops s
    rw [push]
    exact operandWrite_rflags.trans rflags
  · obtain ⟨u, pop, -, rflags⟩ := @exists_emPop _ ops s
    rw [pop, ← rflags]
    exact Stage.andThen_rel (r := fun s t => t.ctxt.rflags = s.ctxt.rflags)
      (fun h h' => h'.trans h) (readRule_rflags.operandRead u .src1) fun _ => rfl

end Rflags

/-- What has been read is written back. -/
theorem operate_writes_back {b : Emulator (EmVcpu μ)} (keeps : s.ctxt.opcode.KeepsFlags)
    (flags : s.ctxt.opcode.has insnNoflags = false) (written : s.ctxt.opcode.has insnDstNw = false)
    (run : operate (emOps access) host s = (.continue, b)) :
    b.ctxt.rflags = s.vcpu.regs.state.rflags := by
  obtain ⟨u, read, exec⟩ := (Stage.andThen_cases run).resolve_right fun h => h.1 rfl
  have rflags := (@readRule_rflags _ (emOps access)).readInputs s
  have opcode := congrArg (fun x => x.2.2.2.2.2.2.2.2)
    ((emOps_apart access).readRule.inputs (fun _ _ => rfl) s)
  rw [read] at rflags opcode
  rw [flags, if_neg Bool.false_ne_true] at rflags
  have kept := @executeHandler_rflags _ host u (emOps access)
    (by rwa [show u.ctxt.opcode = _ from opcode]) (by rwa [show u.ctxt.opcode = _ from opcode])
  rw [exec] at kept
  exact kept.trans rflags

/-- An instruction of this kind exits with the registers that it has found. -/
theorem registers_of_exit (keeps : s.ctxt.opcode.KeepsFlags)
    (once : emulateOnce (emOps access) host s = (rc, t)) (ne : rc ≠ .continue) :
    t.vcpu.registers = s.vcpu.registers := by
  have operated := (emOps_apart access).operate host s
  rcases Stage.andThen_cases once with ⟨b, run, write⟩ | ⟨-, run⟩
  · rw [show operate _ host s = _ from run] at operated
    have opcode : b.ctxt.opcode = s.ctxt.opcode := congrArg (fun x => x.2.2.2.2.2.2.2.2) operated
    cases noflags : b.ctxt.opcode.has insnNoflags with
    | true =>
      have same := ((emOps_apart access).operandWrite .dst).skipped (·.opcode.has insnDstNw) b
      unfold writeOutputs at write
      rw [noflags, if_pos rfl] at write
      rw [write] at same
      exact congrArg Prod.fst (same.trans operated)
    | false =>
      cases nw : b.ctxt.opcode.has insnDstNw with
      | true =>
        rw [writeOutputs_of_nw noflags nw] at write
        exact absurd (congrArg Prod.fst write).symm ne
      | false =>
        rw [writeOutputs_eq noflags nw] at write
        rw [opcode] at noflags nw
        have flags := operate_writes_back keeps noflags nw run
        have same := (emOps_apart access).operandWrite .dst
          ⟨b.ctxt, (emOps access).writeRflags b.ctxt.rflags b.vcpu⟩
        dsimp only at same
        rw [write, flags] at same
        have before := congrArg Prod.fst operated
        refine (congrArg Prod.fst same).trans ?_
        exact Prod.ext (congrArg (·.1) before :) (Prod.ext rfl (congrArg (·.2.2) before :))
  · rw [show operate _ host s = _ from run] at operated
    exact congrArg Prod.fst operated

/-! ## Accesses at the address of the exit -/

/-- The handlers that `softHandler` carries out. -/
def softHandlers : List Handler := [.andnSoft, .bextrSoft, .mov, .movzx, .movsx, .push, .pop]

/-- There is code for the handler, and bit tests are fast operations. -/
def EmOpcode.Runs (e : EmOpcode) : Prop :=
  (match e.target with
    | .handler h => e.has insnFastop = true ∨ h ∈ softHandlers
    | _ => False) ∧
  (e.has insnBitop = true → e.has insnFastop = true ∧ e.has insnByteop = false ∧
    e.has insnStack = false ∧ (e.decodeSrc1 = some .modrmReg ∨ e.decodeSrc1 = some .simm8))

instance (e : EmOpcode) : Decidable e.Runs := by
  unfold EmOpcode.Runs
  cases e.target <;> exact instDecidableAnd

theorem all_runs (m : OpcodeMap) : m.all (fun e => e.Runs) = true := by
  cases m <;> decide +kernel

/-- Memory is accessed at the address of the exit, and the offset of a bit test has a size. -/
structure EmContext.Direct (c : EmContext) : Prop where
  sized : Sized c
  direct : isTranslationRequired c = false
  runs : c.opcode.Runs
  offset : c.opcode.has insnBitop = true → c.src1.type = .reg →
    c.src1.size = 2 ∨ c.src1.size = 4 ∨ c.src1.size = 8

/-- It depends on the form of the instruction and on where the offset is. -/
theorem EmContext.Direct.of_form {c c' : EmContext} (h : c.Direct) (form : c'.form = c.form)
    (src1 : c.opcode.has insnBitop = true →
      c'.src1.type = c.src1.type ∧ c'.src1.size = c.src1.size) : c'.Direct := by
  simp only [EmContext.form, Prod.mk.injEq] at form
  obtain ⟨-, operandSize, addressSize, prefixes, opcode⟩ := form
  refine ⟨⟨addressSize ▸ h.sized.1, operandSize ▸ h.sized.2⟩, ?_, opcode ▸ h.runs, fun bitop => ?_⟩
  · rw [isTranslationRequired, opcode, prefixes]
    exact h.direct
  · rw [opcode] at bitop
    rw [(src1 bitop).1, (src1 bitop).2]
    exact h.offset bitop

/-- The stage does not fail, and keeps to the address of the exit. -/
def Stage.Safe (f : Stage (EmVcpu μ)) : Prop :=
  ∀ s, s.ctxt.Direct → (f s).1 ≠ .error ∧ (f s).2.ctxt.Direct

theorem Stage.Safe.andThen {f g : Stage (EmVcpu μ)} (first : f.Safe) (rest : g.Safe) :
    (f.andThen g).Safe := by
  intro s h
  obtain ⟨ok, kept⟩ := first s h
  unfold Stage.andThen
  generalize f s = r at ok kept
  obtain ⟨rc, t⟩ := r
  cases rc with
  | «continue» => exact rest t kept
  | _ => exact ⟨ok, kept⟩

theorem Stage.Safe.skipped {f : Stage (EmVcpu μ)} (h : f.Safe) (skip : EmContext → Bool) :
    (Stage.unless skip f).Safe := by
  intro s direct
  unfold Stage.unless
  split
  · exact ⟨EmStatus.noConfusion, direct⟩
  · exact h s direct

/-- Reading does not change where an operand is. -/
theorem readRule_direct (ops : EmOps (EmVcpu μ)) :
    Stage.ReadRule ops fun s t => s.ctxt.Direct → t.ctxt.Direct where
  refl _ := id
  trans h h' := h' ∘ h
  register _ _ _ _ h := h.of_form rfl fun _ => ⟨rfl, rfl⟩
  operand s n op v _ shape h := by
    simp only [EmOperand.shape, Prod.mk.injEq] at shape
    cases n with
    | src1 => exact h.of_form rfl fun _ => ⟨shape.1, shape.2.2.1⟩
    | _ => exact h.of_form rfl fun _ => ⟨rfl, rfl⟩

section Direct

variable (h : s.ctxt.Direct)

include h

theorem exists_getLinearAddress (base : EmSegment → BitVec 64) (mem : OperandMem) :
    ∃ la, getLinearAddress base s.ctxt mem = some la := by
  unfold getLinearAddress truncateAddress
  rcases h.sized.address with size | size | size <;> simp [size]

theorem segmentedRead_direct (mem : OperandMem) (value : BitVec 64) (size : ℕ) :
    (s.segmentedRead (emOps access) mem value size).1 = .exitMmio := by
  obtain ⟨la, known⟩ := exists_getLinearAddress h ((emOps access).getSegmentBase s.vcpu) mem
  unfold Emulator.segmentedRead
  rw [known, h.direct]
  rfl

theorem segmentedWrite_direct (mem : OperandMem) (value : BitVec 64) (size : ℕ) :
    (s.segmentedWrite (emOps access) mem value size).1 = .exitMmio := by
  obtain ⟨la, known⟩ := exists_getLinearAddress h ((emOps access).getSegmentBase s.vcpu) mem
  unfold Emulator.segmentedWrite
  rw [known, h.direct]
  rfl

end Direct

theorem operandRead_safe (n : OperandName) :
    Stage.Safe (Emulator.operandRead (emOps access) · n) := by
  refine fun s h => ⟨?_, (readRule_direct _).operandRead s n h⟩
  unfold Emulator.operandRead
  dsimp only
  split
  · exact EmStatus.noConfusion
  · split
    case h_4 =>
      split
      · exact EmStatus.noConfusion
      · rw [segmentedRead_direct h]
        exact EmStatus.noConfusion
    all_goals exact EmStatus.noConfusion

theorem operandReadBitop_safe (h : s.ctxt.Direct) (bitop : s.ctxt.isBitop = true) :
    (s.operandReadBitop (emOps access)).1 ≠ .error := by
  simp only [EmContext.isBitop, Bool.and_eq_true, decide_eq_true_eq] at bitop
  have sized := h.offset bitop.1 bitop.2.2
  unfold Emulator.operandReadBitop
  dsimp only
  split
  · exact EmStatus.noConfusion
  · split
    case h_1 none =>
      rcases sized with size | size | size <;> rw [size] at none <;> cases none
    case h_2 =>
      rw [segmentedRead_direct]
      · exact EmStatus.noConfusion
      · exact h.of_form rfl fun _ => ⟨rfl, rfl⟩

theorem readInputs_safe : Stage.Safe (readInputs (emOps access)) := by
  intro s h
  refine ⟨?_, (readRule_direct _).inputs (fun _ _ h => h.of_form rfl fun _ => ⟨rfl, rfl⟩) s h⟩
  have start : (if s.ctxt.opcode.has insnNoflags then s
      else s.setRflags ((emOps access).readRflags s.vcpu)).ctxt.Direct := by
    split
    · exact h
    · exact h.of_form rfl fun _ => ⟨rfl, rfl⟩
  unfold readInputs
  generalize (if s.ctxt.opcode.has insnNoflags then s
    else s.setRflags ((emOps access).readRflags s.vcpu)) = t at start
  dsimp only
  split
  case isTrue bitop => exact operandReadBitop_safe start bitop
  case isFalse =>
    have dst := (@operandRead_safe _ access .dst).skipped (·.opcode.has insnDstNr)
    exact (((dst.andThen (operandRead_safe .src1)).andThen (operandRead_safe .src2)) t start).1

theorem operandWrite_safe : Stage.Safe (Emulator.operandWrite (emOps access) · .dst) := by
  intro s h
  unfold Emulator.operandWrite
  dsimp only
  split
  · exact ⟨EmStatus.noConfusion, h⟩
  · split
    case h_4 =>
      refine ⟨?_, h.of_form rfl fun _ => ⟨rfl, rfl⟩⟩
      split
      · exact EmStatus.noConfusion
      · rw [segmentedWrite_direct h]
        exact EmStatus.noConfusion
    all_goals exact ⟨EmStatus.noConfusion, h.of_form rfl fun _ => ⟨rfl, rfl⟩⟩

theorem executeHandler_safe : Stage.Safe (executeHandler (emOps access) host) := by
  intro s h
  obtain ⟨handler, target, runs⟩ : ∃ handler, s.ctxt.opcode.target = .handler handler ∧
      (s.ctxt.opcode.has insnFastop = true ∨ handler ∈ softHandlers) := by
    have runs := h.runs.1
    split at runs
    case h_1 handler target => exact ⟨handler, target, runs⟩
    case h_2 => exact runs.elim
  cases fast : s.ctxt.opcode.has insnFastop with
  | true =>
    rw [executeHandler_fast host target fast]
    exact ⟨EmStatus.noConfusion, h.of_form rfl fun _ => ⟨rfl, rfl⟩⟩
  | false =>
    have soft := runs.resolve_left (Bool.eq_false_iff.mp fast)
    have offset {p : Prop} (is : s.ctxt.opcode.has insnBitop = true) : p :=
      absurd (h.runs.2 is).1 (Bool.eq_false_iff.mp fast)
    rw [executeHandler_soft host target fast]
    simp only [softHandlers, List.mem_cons, List.not_mem_nil, or_false] at soft
    rcases soft with rfl | rfl | rfl | rfl | rfl | rfl | rfl
    case inr.inr.inr.inr.inr.inl =>
      obtain ⟨u, push, form, -, src1⟩ := @exists_emPush _ (emOps access) s
      rw [softHandler, push]
      exact operandWrite_safe u (h.of_form form fun _ => by simp [src1])
    case inr.inr.inr.inr.inr.inr =>
      obtain ⟨u, pop, form, -⟩ := @exists_emPop _ (emOps access) s
      rw [softHandler, pop]
      refine (operandRead_safe .src1).andThen (fun t h => ?_) u (h.of_form form fun is => offset is)
      exact ⟨EmStatus.noConfusion, h.of_form rfl fun _ => ⟨rfl, rfl⟩⟩
    all_goals exact ⟨EmStatus.noConfusion, h.of_form rfl fun _ => ⟨rfl, rfl⟩⟩

theorem emulateOnce_safe : Stage.Safe (emulateOnce (emOps access) host) := by
  refine (readInputs_safe.andThen executeHandler_safe).andThen fun s h => ?_
  unfold writeOutputs
  split
  · exact operandWrite_safe.skipped _ s h
  · exact operandWrite_safe.skipped _ _ (h.of_form rfl fun _ => ⟨rfl, rfl⟩)

/-- An instruction with one memory operand that is not repeated. -/
theorem Decoded.direct {mode : EmMode} {l : Layout} {e : EmOpcode} {g : Guest} {c : EmContext}
    (imp : Implements mode insn l e) (decoded : Decoded mode insn l e g ⟨c, g⟩)
    (single : c.opcode.has insnTwomem = false) (rep : c.prefixes.rep = 0) : c.Direct := by
  have opcode : c.opcode = e := decoded.opcode
  have runs : e.Runs := of_decide_eq_true (imp.of_all all_runs)
  refine ⟨decoded.sized, by simp [isTranslationRequired, single, rep], opcode ▸ runs, ?_⟩
  rw [opcode]
  intro bitop register
  obtain ⟨-, byteop, stack, src1⟩ := runs.2 bitop
  obtain ⟨b, before, operands⟩ := decoded.operands
  obtain ⟨v, k, moved, eq⟩ := operands.src1
  rw [before.opcode] at eq
  have eq : c.src1 = _ := eq
  rcases src1 with src1 | src1
  · have size : c.src1.size = l.operandSize := by
      have same : k.operandSize = l.operandSize := by
        rw [moved.kept]
        refine before.operandSize.trans ?_
        simp [Layout.entrySize, byteop, stack]
      rw [eq, src1, ← same]
      show (byteRegister k _).size = _
      unfold byteRegister
      split <;> rfl
    rw [size]
    exact layout_operandSize imp.1
  · rw [eq, src1] at register
    cases register

/-- However often an instruction without a repeat prefix is resumed, if it fails in the end, GPRs,
RFLAGS and RIP are those from before it. -/
theorem failed_unseen {mode : EmMode} {rip : BitVec 64} {c : EmContext} {v : EmVcpu μ}
    (accepted : emDecodeInsn v.regs.state.regs insn (EmContext.init mode rip) = (.continue, c))
    (rep : c.prefixes.rep = 0) (called : Called access host ⟨c, v⟩ s) {insn' : ℕ → BitVec 8}
    (failed : (emEmulateInsn (emOps access) host insn' s).1 = .error) :
    (emEmulateInsn (emOps access) host insn' s).2.vcpu.registers = v.registers := by
  obtain ⟨l, e, g, imp, decoded⟩ := exists_decoded accepted
  have unrepeated {s : Emulator (EmVcpu μ)} (form : s.ctxt.form = c.form) :
      s.ctxt.prefixes.rep = 0 :=
    (congrArg (·.2.2.2.1.rep) form).trans rep
  generalize run : emEmulateInsn (emOps access) host insn' s = r at failed
  obtain ⟨rc, t⟩ := r
  obtain rfl : rc = .error := failed
  cases two : c.opcode.has insnTwomem with
  | true =>
    -- an access may fail, but the flags that were written before it are those that were read
    have keeps {s : Emulator (EmVcpu μ)} (form : s.ctxt.form = c.form) :
        s.start.ctxt.opcode.KeepsFlags := by
      rw [show s.start.ctxt.opcode = e from (congrArg (·.2.2.2.2) form).trans decoded.opcode]
      have all := imp.of_all all_keepsFlags
      rw [← show c.opcode = e from decoded.opcode, two] at all
      exact decoded.opcode ▸ of_decide_eq_true all
    have found : s.ctxt.form = c.form ∧ s.vcpu.registers = v.registers := by
      clear run
      induction called with
      | first => exact ⟨rfl, rfl⟩
      | again _ exit same ih =>
        obtain ⟨u, once, rfl⟩ := emEmulateInsn_exit (unrepeated ih.1) exit (by decide)
        have kept := registers_of_exit (keeps ih.1) once (by decide)
        exact ⟨(form_of_once once).trans ih.1, same.trans (kept.trans ih.2)⟩
    obtain ⟨u, once, rfl⟩ := emEmulateInsn_exit (unrepeated found.1) run (by decide)
    exact (registers_of_exit (keeps found.1) once (by decide)).trans found.2
  | false =>
    -- every access is at the address of the exit, and none of them fails
    have direct : s.ctxt.form = c.form ∧ s.start.ctxt.Direct := by
      clear run
      induction called with
      | first =>
        exact ⟨rfl, (decoded.direct imp two rep).of_form rfl fun _ => ⟨rfl, rfl⟩⟩
      | again _ exit same ih =>
        obtain ⟨u, once, rfl⟩ := emEmulateInsn_exit (unrepeated ih.1) exit (by decide)
        have safe := (@emulateOnce_safe _ access host _ ih.2).2
        rw [once] at safe
        exact ⟨(form_of_once once).trans ih.1, safe.of_form rfl fun _ => ⟨rfl, rfl⟩⟩
    obtain ⟨u, once, rfl⟩ := emEmulateInsn_exit (unrepeated direct.1) run (by decide)
    have safe := (@emulateOnce_safe _ access host _ direct.2).1
    rw [once] at safe
    exact absurd rfl safe

/-- There is a device at one address, and the rest is memory that cannot be written. -/
def deviceAccess (device : BitVec 64) : GuestAccess Unit where
  vcpuTranslate va _ := (va, ())
  isMmioAddress gpa _ := gpa = device
  vcpuReadGuestVirtual _ value _ _ := (true, value, ())
  vcpuWriteGuestVirtual _ _ _ _ := (false, ())

def movsb : ℕ → BitVec 8
  | 0 => 0xa4
  | _ => 0

def movsbVcpu : EmVcpu Unit where
  regs := vcpuWriteGpr regRsi 0x1000 (vcpuCreate plainInfo 0)
  exitGpa := 0x1000
  exitInstrLength := 1
  exitStatus := 0
  ioBuf := ⟨0, 0, 0, 0⟩
  memory := ()

def movsbCall (s : Emulator (EmVcpu Unit)) : EmStatus × Emulator (EmVcpu Unit) :=
  emEmulateInsn (emOps (deviceAccess 0x1000)) clearFlags movsb s

def movsbStart : Emulator (EmVcpu Unit) :=
  ⟨(emDecodeInsn movsbVcpu.regs.state.regs movsb (EmContext.init .prot32 0)).2, movsbVcpu⟩

/-- MOVSB from a device, resumed after the exit, cannot write its destination. -/
theorem movsb_failed_unseen :
    (movsbCall movsbStart).1 = .exitMmio ∧
      (movsbCall (movsbCall movsbStart).2).1 = .error ∧
      (movsbCall (movsbCall movsbStart).2).2.vcpu.registers = movsbVcpu.registers := by
  have exit : (movsbCall movsbStart).1 = .exitMmio := by decide +kernel
  have failed : (movsbCall (movsbCall movsbStart).2).1 = .error := by decide +kernel
  have accepted : (emDecodeInsn movsbVcpu.regs.state.regs movsb (EmContext.init .prot32 0)).1 =
      .continue := by decide +kernel
  exact ⟨exit, failed, failed_unseen (Prod.ext accepted rfl) rfl
    (.again .first (Prod.ext exit rfl) rfl) failed⟩

end Haxm
