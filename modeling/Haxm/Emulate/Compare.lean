/-
# Comparisons

CMPS compares the operand at SI with the one at DI: by the manual, the flags are
those of `[SI] - [DI]`. The opcode table has DI as the destination, and the
instruction of the host subtracts the source from the destination.

An access to memory may end a call, and the next one goes on where it was left. The
operands of a comparison may so have been read in different calls.
-/

import Haxm.Emulate.RegisterMoves

namespace Haxm

/-! ## Flags of a subtraction -/

section Flags

variable {w : ℕ} (a b : BitVec w)

theorem subFlags_cf : (subFlags a b false).cf = true ↔ a < b := by
  simp [subFlags, BitVec.lt_def]

/-- The flags of both differences are the same only if the operands are. -/
theorem subFlags_comm_iff : subFlags b a false = subFlags a b false ↔ a = b := by
  constructor
  · intro same
    have cf := congrArg ArithFlags.cf same
    have forth := subFlags_cf a b
    have back := subFlags_cf b a
    rw [cf, forth] at back
    have le : a ≤ b := BitVec.not_lt.mp fun less => BitVec.lt_asymm less (back.mpr less)
    have ge : b ≤ a := BitVec.not_lt.mp fun less => BitVec.lt_asymm less (back.mp less)
    exact BitVec.le_antisymm le ge
  · rintro rfl
    rfl

end Flags

/-! ## CMPS -/

section Cmps

variable {mode : EmMode} {insn : ℕ → BitVec 8} {l : Layout} {e : EmOpcode}

/-- A6 and A7. -/
def Layout.isCmps (l : Layout) : Prop := l.map = .oneByte ∧ (l.opcode = 0xa6 ∨ l.opcode = 0xa7)

theorem Implements.entry_cmps (imp : Implements mode insn l e) (cmps : l.isCmps) :
    StringOp.cmps.Entry e := by
  obtain ⟨-, entry, -⟩ := imp
  obtain ⟨map, opcode⟩ := cmps
  rw [Layout.entry, map] at entry
  rcases opcode with opcode | opcode
  · rw [opcode] at entry
    obtain rfl := Option.some.inj entry
    decide
  · rw [opcode] at entry
    obtain rfl := Option.some.inj entry
    decide

theorem fastopWidth_eq {size : ℕ} (cases : size = 1 ∨ size = 2 ∨ size = 4 ∨ size = 8) :
    fastopWidth size = 8 * size := by
  rcases cases with rfl | rfl | rfl | rfl <;> rfl

end Cmps

/-! ## Operands of a round -/

/-- What a round takes for an operand in memory: what an earlier call has read, the answer that
one has been waiting for, or what is there. -/
def Emulator.taken (s : Emulator Guest) (op : EmOperand) : BitVec 64 :=
  if op.readFinished then op.value
  else if op.readPending then lowBytes op.size s.vcpu.reply
  else s.vcpu.load (s.la op) op.size

namespace StringForm

variable {f : StringForm} {s t u v : Emulator Guest} {op : EmOperand} {n : OperandName}
  {status : Guest → BitVec 64 → EmStatus} {host : HostFlags} {insn : ℕ → BitVec 8} {rc : EmStatus}

/-- An operand of `f` that is in memory. -/
structure InMemory (f : StringForm) (op : EmOperand) : Prop where
  type : op.type = .mem
  size : op.size = f.size
  low : lowBytes f.size op.value = op.value

theorem InMemory.markRead (h : f.InMemory op) (rc : EmStatus) :
    f.InMemory (Emulator.markRead op rc) := by
  unfold Emulator.markRead
  split
  · exact ⟨h.type, h.size, h.low⟩
  · exact ⟨h.type, h.size, h.low⟩

/-- One of the flags says that the operand is not as it was decoded. -/
def Touched (op : EmOperand) : Prop := op.readPending = true ∨ op.readFinished = true

theorem touched_markRead (op : EmOperand) (rc : EmStatus) : Touched (Emulator.markRead op rc) := by
  unfold Emulator.markRead
  split
  · exact .inr rfl
  · exact .inl rfl

/-- How reading an operand in memory ends. -/
inductive Reads (f : StringForm) (s : Emulator Guest) (n : OperandName) :
    EmStatus × Emulator Guest → Prop
  | intro {rc : EmStatus} {op : EmOperand} (log : List GuestEvent) (memory : f.InMemory op)
      (touched : Touched op) (value : rc = .continue → op.value = s.taken (s.ctxt.operand n)) :
      Reads f s n (rc, Emulator.setOperand ⟨s.ctxt, { s.vcpu with log := log }⟩ n op)

theorem InMemory.operandRead (h : f.InMemory (s.ctxt.operand n)) (sized : Sized s.ctxt) :
    f.Reads s n (s.operandRead (guestOps status) n) := by
  generalize eq : s.ctxt.operand n = op at h
  unfold Emulator.operandRead
  simp only [eq, h.type]
  by_cases finished : op.readFinished = true
  · -- an earlier call has read it
    have same : Emulator.setOperand ⟨s.ctxt, { s.vcpu with log := s.vcpu.log }⟩ n op = s := by
      subst eq
      cases n <;> rfl
    rw [if_pos finished]
    nth_rewrite 2 [← same]
    refine .intro s.vcpu.log h (.inr finished) fun _ => ?_
    rw [eq, Emulator.taken, if_pos finished]
  rw [if_neg finished]
  by_cases pending : op.readPending = true
  · -- an earlier call has asked for it, and user space has answered
    rw [if_pos pending]
    have value : putBytes 0 op.size s.vcpu.reply op.value = lowBytes op.size s.vcpu.reply :=
      putBytes_of_low (h.size ▸ h.low) _
    have low : lowBytes f.size (lowBytes op.size s.vcpu.reply) = lowBytes op.size s.vcpu.reply := by
      rw [h.size, lowBytes_lowBytes]
    show f.Reads s n (.continue, Emulator.setOperand ⟨s.ctxt, { s.vcpu with log := s.vcpu.log }⟩ n
      (Emulator.markRead { op with
        type := .mem, value := putBytes 0 op.size s.vcpu.reply op.value } .continue))
    rw [value]
    refine .intro _ (.markRead ?_ _) (touched_markRead _ _) fun _ => ?_
    · exact ⟨rfl, h.size, low⟩
    · rw [eq, Emulator.taken, if_neg finished, if_pos pending]
      rfl
  · rw [if_neg pending]
    have address : s.segmentedRead (guestOps status) op.mem op.value op.size =
        (guestOps status).readMemory (s.la op) op.value op.size (!isTranslationRequired s.ctxt)
          s.vcpu := by
      unfold Emulator.segmentedRead
      rw [show (guestOps status).getSegmentBase s.vcpu = s.vcpu.segBase from rfl,
        Emulator.getLinearAddress_la sized]
    rw [address]
    by_cases answered : status s.vcpu (s.la op) = .continue
    · have value : putBytes 0 op.size (s.vcpu.load (s.la op) op.size) op.value =
          s.vcpu.load (s.la op) op.size := by
        rw [putBytes_of_low (h.size ▸ h.low), Guest.lowBytes_load]
      have read : (guestOps status).readMemory (s.la op) op.value op.size
          (!isTranslationRequired s.ctxt) s.vcpu = (.continue, s.vcpu.load (s.la op) op.size,
            s.vcpu.read (s.la op) op.size) := by
        show (if _ then _ else _) = _
        rw [if_pos answered, value]
      rw [read]
      have low : lowBytes f.size (s.vcpu.load (s.la op) op.size) =
          s.vcpu.load (s.la op) op.size := by
        rw [← h.size, Guest.lowBytes_load]
      refine .intro _ (.markRead ?_ _) (touched_markRead _ _) fun _ => ?_
      · exact ⟨rfl, h.size, low⟩
      · rw [eq, Emulator.taken, if_neg finished, if_neg pending]
        rfl
    · have read : (guestOps status).readMemory (s.la op) op.value op.size
          (!isTranslationRequired s.ctxt) s.vcpu = (status s.vcpu (s.la op), op.value,
            s.vcpu.record (.read (s.la op) op.size op.value s.vcpu.gpr)) := if_neg answered
      rw [read]
      refine .intro _ (.markRead ?_ _) (touched_markRead _ _) fun done => absurd done answered
      exact ⟨rfl, h.size, h.low⟩

/-- A round of CMPS begins with operands that have just been decoded, or where a call has
left off. -/
structure Compares (f : StringForm) (s : Emulator Guest) : Prop where
  context : f.Context s.ctxt
  coherent : s.Coherent promptOps
  dst : f.InMemory s.ctxt.dst
  src1 : f.InMemory s.ctxt.src1
  src2 : s.ctxt.src2.type = .none
  ready : Touched s.ctxt.dst ∨ f.Ready s

theorem Ready.compares (ready : f.Ready s) (cmps : f.op = .cmps) : f.Compares s := by
  have dst := ready.dst
  have src1 := ready.src1
  rw [cmps] at dst src1
  obtain ⟨type, size, -⟩ := dst.di rfl
  obtain ⟨type', size', -⟩ := src1.si rfl
  exact ⟨ready.context, ready.coherent, ⟨type, size, dst.low⟩, ⟨type', size', src1.low⟩,
    ready.src2.2, .inr ready⟩

theorem operandRead_none (none : (s.ctxt.operand n).type = .none) :
    s.operandRead (guestOps status) n = (.continue, s) := by
  unfold Emulator.operandRead
  simp only [none, ite_self]

/-- What is read before the operation. -/
theorem Compares.readInputs (h : f.Compares s) (cmps : f.op = .cmps) : ∃ rc dst src1 log,
    readInputs (guestOps status) s = (rc,
      ⟨{ s.ctxt with rflags := s.vcpu.rflags, dst := dst, src1 := src1 },
        { s.vcpu with log := log }⟩) ∧
      f.InMemory dst ∧ f.InMemory src1 ∧ Touched dst ∧
      (rc = .continue → dst.value = s.taken s.ctxt.dst ∧ src1.value = s.taken s.ctxt.src1) := by
  have entry := h.context.entry
  let s₀ := s.setRflags ((guestOps status).readRflags s.vcpu)
  have bitop : s₀.ctxt.isBitop = false := by
    show (s.ctxt.opcode.has insnBitop && _) = false
    rw [entry.bitop, Bool.false_and]
  have dstNr : s₀.ctxt.opcode.has insnDstNr = false := by
    show s.ctxt.opcode.has insnDstNr = false
    rw [entry.dstNr, cmps]
    rfl
  unfold Haxm.readInputs
  simp only [entry.noflags, Bool.false_eq_true, if_false]
  rw [show s.setRflags ((guestOps status).readRflags s.vcpu) = s₀ from rfl, bitop,
    if_neg Bool.false_ne_true]
  unfold Stage.andThen Stage.unless
  simp only [dstNr, Bool.false_eq_true, if_false]
  have first : f.Reads s₀ .dst (s₀.operandRead (guestOps status) .dst) :=
    InMemory.operandRead (n := .dst) h.dst ⟨h.context.sized.1, h.context.sized.2⟩
  generalize s₀.operandRead (guestOps status) .dst = r at first
  obtain @⟨rc, dst, log, memory, touched, value⟩ := first
  by_cases go : rc = .continue
  · subst go
    let s₁ : Emulator Guest := Emulator.setOperand ⟨s₀.ctxt, { s₀.vcpu with log := log }⟩ .dst dst
    have second : f.Reads s₁ .src1 (s₁.operandRead (guestOps status) .src1) :=
      InMemory.operandRead (n := .src1) h.src1 ⟨h.context.sized.1, h.context.sized.2⟩
    dsimp only
    generalize s₁.operandRead (guestOps status) .src1 = r at second
    obtain @⟨rc, src1, log', memory', -, value'⟩ := second
    refine ⟨rc, dst, src1, log', ?_, memory, memory', touched, fun go => ⟨value rfl, value' go⟩⟩
    by_cases go : rc = .continue
    · subst go
      exact operandRead_none (n := .src2) h.src2
    · cases rc <;> first | exact absurd rfl go | rfl
  · refine ⟨rc, dst, s.ctxt.src1, log, ?_, memory, h.src1, touched, fun done => absurd done go⟩
    cases rc <;> first | exact absurd rfl go | rfl

/-- One comparison, up to the index registers. -/
inductive Once (f : StringForm) (s : Emulator Guest) : EmStatus × Emulator Guest → Prop
  /-- An operand is not there yet. -/
  | exit {rc : EmStatus} {t : Emulator Guest} (left : rc ≠ .continue)
      (kept : t.ctxt.instruction = s.ctxt.instruction) (dst : f.InMemory t.ctxt.dst)
      (src1 : f.InMemory t.ctxt.src1) (src2 : t.ctxt.src2.type = .none)
      (touched : Touched t.ctxt.dst) : Once f s (rc, t)
  | done {t : Emulator Guest} (done : f.Done s t t.guest)
      (flags : ArithFlags.ofRflags t.vcpu.rflags =
        subFlags ((s.taken s.ctxt.dst).setWidth (8 * f.size))
          ((s.taken s.ctxt.src1).setWidth (8 * f.size)) false) : Once f s (.continue, t)

theorem Compares.once (h : f.Compares s) (cmps : f.op = .cmps) (host : HostFlags) :
    f.Once s (emulateOnce (guestOps status) host s) := by
  obtain ⟨rc, dst, src1, log, inputs, memory, memory', touched, values⟩ :=
    @Compares.readInputs f s status h cmps
  have entry := h.context.entry
  rw [cmps] at entry
  have width : fastopWidth dst.size = 8 * f.size := by
    rw [memory.size]
    exact fastopWidth_eq (h.context.size ▸ h.context.sized.operand)
  unfold emulateOnce Stage.andThen
  rw [inputs]
  by_cases go : rc = .continue
  · subst go
    obtain ⟨minuend, subtrahend⟩ := values rfl
    let c : EmContext := { s.ctxt with rflags := s.vcpu.rflags, dst := dst, src1 := src1 }
    let flags : ArithFlags :=
      subFlags (dst.value.setWidth (8 * f.size)) (src1.value.setWidth (8 * f.size)) false
    have fast : fastHandler host .cmp c = { c with rflags := setArith s.vcpu.rflags flags } := by
      unfold fastHandler
      rw [fastopDispatch_cmp, show fastopWidth c.dst.size = 8 * f.size from width]
    have execute : executeHandler (guestOps status) host ⟨c, { s.vcpu with log := log }⟩ =
        (.continue, ⟨fastHandler host .cmp c, { s.vcpu with log := log }⟩) := by
      unfold executeHandler
      rw [show c.opcode.target = .handler .cmp from entry.target,
        show c.opcode.has insnFastop = true from entry.fastop]
      rfl
    dsimp only
    rw [execute, fast]
    unfold writeOutputs Stage.unless
    dsimp only
    rw [if_neg (Bool.eq_false_iff.1 (show c.opcode.has insnNoflags = false from entry.noflags)),
      if_pos (show c.opcode.has insnDstNw = true from entry.dstNw)]
    refine .done ⟨rfl, rfl, rfl, ⟨h.coherent.dirty, h.coherent.clean⟩, memory.low, memory'.low⟩ ?_
    rw [← minuend, ← subtrahend]
    exact ofRflags_setArith _ _
  · have left : f.Once s (rc, ⟨{ s.ctxt with rflags := s.vcpu.rflags, dst := dst, src1 := src1 },
        { s.vcpu with log := log }⟩) := .exit go rfl memory memory' h.src2 touched
    cases rc <;> first | exact absurd rfl go | exact left

theorem Compares.of_cache {k : GprCache} (h : f.Compares s)
    (filled : s.ctxt.cache.Filled s.vcpu.gpr k) : f.Compares (s.setCache k) := by
  have same : Emulator.SameRegisters promptOps s (s.setCache k) := ⟨rfl, filled⟩
  exact ⟨h.context.of_kept rfl, same.coherent h.coherent, h.dst, h.src1, h.src2,
    h.ready.imp_right fun ready => ready.of_cache filled⟩

/-- Reading the count makes no difference. -/
theorem Compares.count (h : f.Compares s) :
    f.Compares (s.count (guestOps status)).2 ∧
      (∀ op, (s.count (guestOps status)).2.taken op = s.taken op) ∧
      (s.count (guestOps status)).2.ctxt.dst = s.ctxt.dst ∧
      (s.count (guestOps status)).2.ctxt.src1 = s.ctxt.src1 := by
  unfold Emulator.count
  split
  · have filled := @Emulator.sameRegisters_gprRead _ (guestOps status) s regRcx s.ctxt.addressSize
    exact ⟨h.of_cache filled.filled, fun _ => rfl, rfl, rfl⟩
  · exact ⟨h, fun _ => rfl, rfl, rfl⟩

/-- How a round of CMPS ends. -/
inductive Compared (f : StringForm) (s : Emulator Guest) : Next → Emulator Guest → Prop
  | idle {u : Emulator Guest} (empty : ¬s.Counts) : Compared f s .done u
  | exit {rc : EmStatus} {u : Emulator Guest} (context : f.Context u.ctxt)
      (dst : f.InMemory u.ctxt.dst) (src1 : f.InMemory u.ctxt.src1)
      (src2 : u.ctxt.src2.type = .none) (touched : Touched u.ctxt.dst) : Compared f s (.exit rc) u
  | done {next : Next} {u : Emulator Guest} (stays : ∀ rc, next ≠ .exit rc)
      (flags : ArithFlags.ofRflags u.vcpu.rflags =
        subFlags ((s.taken s.ctxt.dst).setWidth (8 * f.size))
          ((s.taken s.ctxt.src1).setWidth (8 * f.size)) false)
      (ready : next = .restart → f.Ready u) : Compared f s next u

theorem Compares.round {next : Next} (h : f.Compares s) (cmps : f.op = .cmps)
    (run : emRound (guestOps status) host insn s = (next, u)) : f.Compared s next u := by
  obtain ⟨counted, taken, dst, src1⟩ := @Compares.count f s status h
  have once := @Compares.once f _ status counted cmps host
  cases emRound_cases run with
  | idle none => exact .idle (count_eq_zero_iff.mp none)
  | exit last ne =>
    rw [last] at once
    cases once with
    | exit _ kept dst src1 src2 touched =>
      exact .exit (counted.context.of_kept kept) dst src1 src2 touched
    | done => exact absurd rfl ne
  | @after _ t _ _ last after =>
    rw [last] at once
    cases once with
    | exit left => exact absurd rfl left
    | done done flags =>
      rw [taken, taken, dst, src1] at flags
      have moved := done.advanceIndexes counted.context
      have rflags : (f.move t.guest).rflags = t.vcpu.rflags := by
        unfold move
        split_ifs <;> rfl
      rw [← rflags] at flags
      change afterOnce promptOps insn t = (next, u) at after
      unfold afterOnce at after
      -- neither the index registers nor the count have an effect on the flags
      by_cases rep : (advanceIndexes promptOps t).ctxt.prefixes.rep ≠ 0
      · rw [if_pos rep] at after
        have again := moved.repeatInsn insn counted.context
        rw [after] at again
        cases ends : f.ends (s.count (guestOps status)).2.ctxt.prefixes.rep
            ((f.move t.guest).setGpr regRcx ((f.move t.guest).gpr regRcx + -1)) with
        | true =>
          obtain ⟨rfl, settled⟩ := again.ends ends
          refine .done (fun _ => Next.noConfusion) ?_ Next.noConfusion
          rw [show u.vcpu.rflags = u.guest.rflags from rfl, settled.guest]
          exact flags
        | false =>
          obtain ⟨rfl, ready, vcpu, -⟩ := again.goes ends
          refine .done (fun _ => Next.noConfusion) ?_ fun _ => ready
          rw [show u.vcpu = _ from vcpu]
          exact flags
      · rw [if_neg rep] at after
        obtain ⟨rfl, rfl⟩ := Prod.mk.inj after
        refine .done (fun _ => Next.noConfusion) ?_ Next.noConfusion
        rw [show (advanceIndexes promptOps t).vcpu.rflags =
          (advanceIndexes promptOps t).guest.rflags from rfl, moved.guest]
        exact flags

end StringForm

/-! ## The flags of CMPS -/

section Flags

variable {mode : EmMode} {insn : ℕ → BitVec 8} {l : Layout} {e : EmOpcode} {g : Guest}
  {s t u : Emulator Guest} {host : HostFlags} {status : Guest → BitVec 64 → EmStatus} {next : Next}

theorem RoundState.compares {f : StringForm} (reached : RoundState host status insn s t)
    (h : f.Compares s) (cmps : f.op = .cmps) : f.Compares t := by
  induction reached with
  | start =>
    exact ⟨h.context.of_kept rfl, ⟨h.coherent.dirty, h.coherent.clean⟩, h.dst, h.src1, h.src2,
      h.ready.imp_right StringForm.Ready.setFinished⟩
  | next _ run ih =>
    cases ih.round cmps run with
    | done _ _ ready => exact (ready rfl).compares cmps

theorem CallState.compares (called : CallState host mode insn g s) (imp : Implements mode insn l e)
    (cmps : l.isCmps) : (stringForm mode insn l e .cmps).Compares s := by
  induction called with
  | first => exact (imp.ready (imp.entry_cmps cmps) g).compares rfl
  | @again s status g' called left ih =>
    obtain ⟨rc, t, u, reached, last, run⟩ := exists_round_of_left left
    have cached := @emEmulateInsn_cache status host insn s
    rw [run] at cached ⊢
    cases (reached.compares ih rfl).round rfl last with
    | exit context dst src1 src2 touched =>
      refine ⟨context.of_kept rfl, ⟨fun i dirty => ?_, fun i read _ => ?_⟩, dst, src1, src2,
        .inl touched⟩
      · rw [cached.2] at dirty
        cases dirty
      · rw [cached.1] at read
        cases read
    | done stays => exact absurd rfl (stays rc)

/-- The operand at SI, as a round has it. -/
def cmpsFirst (mode : EmMode) (l : Layout) (e : EmOpcode) (t : Emulator Guest) :
    BitVec (8 * l.entrySize mode e) :=
  (t.taken t.ctxt.src1).setWidth _

/-- The operand at DI, as a round has it. -/
def cmpsSecond (mode : EmMode) (l : Layout) (e : EmOpcode) (t : Emulator Guest) :
    BitVec (8 * l.entrySize mode e) :=
  (t.taken t.ctxt.dst).setWidth _

/-- In every round of every call that compares, the flags are those of `[SI] - [DI]` if the
operands are equal, and only then. In a round that nothing has been read for, the operands are
what SI and DI point to. -/
theorem cmps_flags_iff (imp : Implements mode insn l e) (cmps : l.isCmps)
    (called : CallState host mode insn g s) (reached : RoundState host status insn s t)
    (run : emRound (guestOps status) host insn t = (next, u)) (counts : t.Counts)
    (stays : ∀ rc, next ≠ .exit rc) :
    (ArithFlags.ofRflags (emFinish (guestOps status) next u).2.vcpu.rflags =
        subFlags (cmpsFirst mode l e t) (cmpsSecond mode l e t) false ↔
      cmpsFirst mode l e t = cmpsSecond mode l e t) ∧
    (t.ctxt.dst.readPending = false → t.ctxt.dst.readFinished = false →
      t.taken t.ctxt.src1 = (stringForm mode insn l e .cmps).siValue t.vcpu ∧
        t.taken t.ctxt.dst = (stringForm mode insn l e .cmps).diValue t.vcpu) := by
  have compares := reached.compares (called.compares imp cmps) rfl
  refine ⟨?_, fun pending finished => ?_⟩
  · have flags : ArithFlags.ofRflags u.vcpu.rflags =
        subFlags (cmpsSecond mode l e t) (cmpsFirst mode l e t) false := by
      cases compares.round rfl run with
      | idle empty => exact absurd counts empty
      | exit => exact absurd rfl (stays _)
      | done _ flags => exact flags
    have finish : (emFinish (guestOps status) next u).2.vcpu.rflags = u.vcpu.rflags := by
      have flush := @Emulator.flush_frame status
        ⟨{ u.ctxt with finished := true }, (guestOps status).advanceRip u.ctxt.cursor.len u.vcpu⟩ _
        Guest.rflags fun _ _ _ => rfl
      cases next with
      | exit rc => rfl
      | done => exact flush
      | restart => exact flush
    rw [finish, flags]
    exact subFlags_comm_iff _ _
  · have ready := compares.ready.resolve_left fun touched => by
      rcases touched with touched | touched
      · cases pending.symm.trans touched
      · cases finished.symm.trans touched
    have fresh (op : EmOperand) (unread : op.Fresh) :
        t.taken op = t.vcpu.load (t.la op) op.size := by
      unfold Emulator.taken
      rw [unread.readFinished, unread.readPending]
      rfl
    rw [fresh _ ready.src1.fresh, fresh _ ready.dst.fresh,
      StringForm.la_si ready.context ready.src1, StringForm.la_di ready.context ready.dst,
      compares.src1.size, compares.dst.size]
    exact ⟨rfl, rfl⟩

end Flags

/-- CMPSB. -/
def cmpsb : ℕ → BitVec 8
  | 0 => 0xa6
  | _ => 0

theorem implements_cmpsb :
    Implements .prot32 cmpsb (legacyLayout .prot32 cmpsb .oneByte 0)
      (OpcodeMap.oneByte.entry 0xa6) :=
  ⟨rfl, rfl, ⟨rfl, by decide⟩, by decide⟩

/-- A guest that has 0 at DS:SI and 1 at ES:DI. -/
def unequalGuest : Guest :=
  { Guest.blank with
    gpr := fun i => if i = regRsi then 0x1000 else if i = regRdi then 0x2000 else 0
    mem := fun a => if a = 0x2000 then 1 else 0 }

/-- A device is at ES:DI. -/
def deviceStatus : Guest → BitVec 64 → EmStatus := fun _ la =>
  if la = 0x2000 then .exitMmio else .continue

/-- The second call, after user space has answered for the device. -/
def resumedCmpsb : Emulator Guest :=
  ⟨(emEmulateInsn (guestOps deviceStatus) clearFlags cmpsb
    (decodedInsn .prot32 cmpsb unequalGuest)).2.ctxt, { unequalGuest with reply := 1 }⟩

/-- Its only round. -/
def resumedRound : Next × Emulator Guest :=
  emRound (guestOps deviceStatus) clearFlags cmpsb resumedCmpsb.start

theorem cmpsb_flags_iff :
    cmpsFirst .prot32 (legacyLayout .prot32 cmpsb .oneByte 0) (OpcodeMap.oneByte.entry 0xa6)
        resumedCmpsb.start = 0 ∧
      cmpsSecond .prot32 (legacyLayout .prot32 cmpsb .oneByte 0) (OpcodeMap.oneByte.entry 0xa6)
        resumedCmpsb.start = 1 ∧
      (ArithFlags.ofRflags
          (emFinish (guestOps deviceStatus) resumedRound.1 resumedRound.2).2.vcpu.rflags =
        subFlags (0 : BitVec 8) 1 false ↔ (0 : BitVec 8) = 1) := by
  have called : CallState clearFlags .prot32 cmpsb unequalGuest resumedCmpsb :=
    .again deviceStatus _ .first (by decide)
  have done : resumedRound.1 = .done := by decide
  have stays (rc : EmStatus) : resumedRound.1 ≠ .exit rc := by
    rw [done]
    exact Next.noConfusion
  have counts : resumedCmpsb.start.Counts := fun rep => absurd (by decide) rep
  have run : emRound (guestOps deviceStatus) clearFlags cmpsb resumedCmpsb.start =
      (resumedRound.1, resumedRound.2) := rfl
  exact ⟨by decide, by decide,
    (cmps_flags_iff implements_cmpsb ⟨rfl, .inl rfl⟩ called .start run counts stays).1⟩

/-- Comparing 0 with 1 leaves CF clear. -/
theorem cmpsb_unequal :
    unequalGuest.load 0x1000 1 = 0 ∧ unequalGuest.load 0x2000 1 = 1 ∧
      ArithFlags.ofRflags (emEmulateInsn promptOps clearFlags cmpsb
        (decodedInsn .prot32 cmpsb unequalGuest)).2.vcpu.rflags ≠
      subFlags (0 : BitVec 8) 1 false := by
  decide

end Haxm
