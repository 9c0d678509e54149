/-
# What a round keeps

A round reads operands, carries out the operation and writes the destination.
Whatever the accesses to memory do, what was decoded of the instruction stays the
same, and reading operands does not change where they are.
-/

import Haxm.Emulate.Inputs

namespace Haxm

variable {ω α : Type} {ops : EmOps ω} {view : ω → α} {host : HostFlags} {insn : ℕ → BitVec 8}
  {s t : Emulator ω}

/-! ## Reading -/

/-- What reading does not change of an operand. -/
def EmOperand.shape (op : EmOperand) : OperandType × OperandReg × ℕ × Bool :=
  (op.type, op.reg, op.size, op.writeFinished)

/-- The virtual CPU after an access that reads. -/
inductive EmOps.Access (ops : EmOps ω) (v : ω) : ω → Prop
  | none : Access ops v v
  | read (la x : BitVec 64) (n : ℕ) (direct : Bool) :
      Access ops v (ops.readMemory la x n direct v).2.2
  | post (x : BitVec 64) (n : ℕ) : Access ops v (ops.readMemoryPost x n v).2.2

theorem Emulator.access_segmentedRead (mem : OperandMem) (value : BitVec 64) (size : ℕ) :
    ops.Access s.vcpu (s.segmentedRead ops mem value size).2.2 := by
  unfold segmentedRead
  split
  · exact .none
  · exact .read ..

/-- A relation that holds along each step of reading. -/
structure Stage.ReadRule (ops : EmOps ω) (r : Emulator ω → Emulator ω → Prop) : Prop where
  refl : ∀ s, r s s
  trans : ∀ {s t u}, r s t → r t u → r s u
  register : ∀ s i size shift, r s (s.gprReadShifted ops i size shift).2
  operand : ∀ (s : Emulator ω) n op v, ops.Access s.vcpu v →
    op.shape = (s.ctxt.operand n).shape → r s (Emulator.setOperand ⟨s.ctxt, v⟩ n op)

namespace Stage.ReadRule

variable {r : Emulator ω → Emulator ω → Prop} (rule : ReadRule ops r)

include rule

theorem operandRead (s : Emulator ω) (n : OperandName) : r s (s.operandRead ops n).2 := by
  have mark (op : EmOperand) (rc : EmStatus) (x : BitVec 64) :
      (Emulator.markRead { op with value := x } rc).shape = op.shape := by
    unfold Emulator.markRead
    split <;> rfl
  unfold Emulator.operandRead
  dsimp only
  split
  · exact rule.refl s
  · split
    case h_1 => exact rule.refl s
    case h_2 => exact rule.operand s n _ _ .none rfl
    case h_3 =>
      refine rule.trans (rule.register s ..) (rule.operand _ n _ _ .none ?_)
      cases n <;> rfl
    case h_4 =>
      split
      · exact rule.operand s n _ _ (.post ..) (mark ..)
      · exact rule.operand s n _ _ (s.access_segmentedRead ..) (mark ..)

theorem operandReadBitop (s : Emulator ω) : r s (s.operandReadBitop ops).2 := by
  unfold Emulator.operandReadBitop
  dsimp only
  split
  · exact rule.operand s .dst _ _ (.post ..) rfl
  · have read := rule.register s s.ctxt.src1.reg.index s.ctxt.src1.size 0
    split
    · exact read
    · refine rule.trans (rule.trans read (rule.operand _ .src1 _ _ .none ?_))
        (rule.operand _ .dst _ _ (Emulator.access_segmentedRead ..) ?_)
      · rfl
      · split <;> rfl

theorem readInputs (s : Emulator ω) :
    r (if s.ctxt.opcode.has insnNoflags then s else s.setRflags (ops.readRflags s.vcpu))
      (readInputs ops s).2 := by
  unfold Haxm.readInputs
  generalize (if s.ctxt.opcode.has insnNoflags then s
    else s.setRflags (ops.readRflags s.vcpu)) = t
  dsimp only
  split
  · exact rule.operandReadBitop t
  · refine Stage.andThen_rel rule.trans (Stage.andThen_rel rule.trans ?_ fun _ => ?_) fun _ => ?_
    · exact Stage.unless_rel (rule.refl t) (rule.operandRead t .dst)
    · exact rule.operandRead _ .src1
    · exact rule.operandRead _ .src2

/-- The flags of the context do not matter. -/
theorem inputs (flags : ∀ s x, r s (s.setRflags x)) (s : Emulator ω) :
    r s (Haxm.readInputs ops s).2 := by
  refine rule.trans ?_ (rule.readInputs s)
  split
  · exact rule.refl s
  · exact flags s _

end Stage.ReadRule

/-! ## Stages that leave the registers alone -/

/-- Memory accesses do not change the registers, of which `view` is what can be seen. -/
structure EmOps.Apart (ops : EmOps ω) (view : ω → α) : Prop where
  read : ∀ la x n t v, view (ops.readMemory la x n t v).2.2 = view v
  post : ∀ x n v, view (ops.readMemoryPost x n v).2.2 = view v
  write : ∀ la x n t v, view (ops.writeMemory la x n t v).2 = view v

/-- The inputs and the operation. -/
def operate (ops : EmOps ω) (host : HostFlags) : Stage ω :=
  (readInputs ops).andThen (executeHandler ops host)

/-- What is to stay the same. -/
def Emulator.seen (view : ω → α) (s : Emulator ω) := (view s.vcpu, s.ctxt.instruction)

theorem Emulator.seen_setOperand (c : EmContext) (v : ω) (n : OperandName) (op : EmOperand) :
    (Emulator.setOperand ⟨c, v⟩ n op).seen view = (view v, c.instruction) := by
  cases n <;> rfl

theorem Emulator.seen_registerAdd (s : Emulator ω) (i : Fin 16) (x : BitVec 64) :
    (s.registerAdd ops i x).seen view = s.seen view := rfl

def Stage.Keeps (view : ω → α) (f : Stage ω) : Prop := ∀ s, (f s).2.seen view = s.seen view

theorem Stage.Keeps.andThen {f g : Stage ω} (first : f.Keeps view) (rest : g.Keeps view) :
    (f.andThen g).Keeps view := fun s =>
  Stage.andThen_rel (r := fun s t => t.seen view = s.seen view) (fun h h' => h'.trans h) (first s)
    fun _ => rest _

theorem Stage.Keeps.skipped {f : Stage ω} (h : f.Keeps view) (skip : EmContext → Bool) :
    (Stage.unless skip f).Keeps view := fun s =>
  Stage.unless_rel (r := fun s t => t.seen view = s.seen view) rfl (h s)

section Keeps

variable (apart : ops.Apart view)

include apart

theorem EmOps.Apart.readRule : Stage.ReadRule ops fun s t => t.seen view = s.seen view where
  refl _ := rfl
  trans h h' := h'.trans h
  register _ _ _ _ := rfl
  operand s n op v access _ := by
    rw [Emulator.seen_setOperand]
    cases access with
    | none => rfl
    | read => exact congrArg (·, _) (apart.read ..)
    | post => exact congrArg (·, _) (apart.post ..)

theorem EmOps.Apart.operandWrite (n : OperandName) :
    Stage.Keeps view (Emulator.operandWrite ops · n) := by
  intro s
  unfold Emulator.operandWrite
  dsimp only
  split
  · rfl
  · split
    case h_4 =>
      rw [Emulator.seen_setOperand]
      split
      · rfl
      · unfold Emulator.segmentedWrite
        split
        · rfl
        · exact congrArg (·, _) (apart.write _ _ _ _ _)
    all_goals first | rfl | exact Emulator.seen_setOperand ..

theorem EmOps.Apart.executeHandler : Stage.Keeps view (executeHandler ops host) := by
  have pop := Stage.Keeps.andThen (apart.readRule.operandRead · .src1) (g := fun t =>
    (.continue, t.setOperand .dst { t.ctxt.dst with value := t.ctxt.src1.value })) fun _ => rfl
  intro s
  unfold Haxm.executeHandler
  split
  case h_1 h _ =>
    split
    · rfl
    · cases h with
      | push => exact (apart.operandWrite .dst _).trans (Emulator.seen_setOperand ..)
      | pop =>
        exact (pop _).trans (((Emulator.setOperand _ .src1 _).seen_registerAdd _ _).trans rfl)
      | _ => rfl
  case h_2 => rfl

theorem EmOps.Apart.operate (host : HostFlags) : Stage.Keeps view (operate ops host) :=
  Stage.Keeps.andThen (apart.readRule.inputs fun _ _ => rfl) apart.executeHandler

/-- The flags are not among what is seen. -/
theorem EmOps.Apart.emulateOnce (host : HostFlags)
    (flags : ∀ x v, view (ops.writeRflags x v) = view v) :
    Stage.Keeps view (emulateOnce ops host) := by
  have write := (apart.operandWrite .dst).skipped (·.opcode.has insnDstNw)
  refine (apart.operate host).andThen fun s => ?_
  unfold writeOutputs
  split
  · exact write _
  · exact (write _).trans (congrArg (·, _) (flags _ _))

end Keeps

theorem EmOps.apart_unit (ops : EmOps ω) : ops.Apart fun _ => () :=
  ⟨fun _ _ _ _ _ => rfl, fun _ _ _ => rfl, fun _ _ _ _ _ => rfl⟩

theorem emulateOnce_instruction (s : Emulator ω) :
    (emulateOnce ops host s).2.ctxt.instruction = s.ctxt.instruction :=
  congrArg Prod.snd (ops.apart_unit.emulateOnce host (fun _ _ => rfl) s)

theorem advanceIndexes_instruction (s : Emulator ω) :
    (advanceIndexes ops s).ctxt.instruction = s.ctxt.instruction := by
  have add (t : Emulator ω) (i : Fin 16) (x : BitVec 64) :
      (t.registerAdd ops i x).ctxt.instruction = t.ctxt.instruction := rfl
  unfold advanceIndexes
  dsimp only
  split <;> split <;> simp only [add]

/-! ## Rounds -/

theorem EmContext.form_of_kept {c d : EmContext} (kept : c.instruction = d.instruction) :
    c.form = d.form :=
  congrArg (fun x => (x.1, x.2.1, x.2.2.1, x.2.2.2.2.2.1, x.2.2.2.2.2.2.2)) kept

theorem form_of_once {rc : EmStatus} (run : emulateOnce ops host s = (rc, t)) :
    t.ctxt.form = s.ctxt.form := by
  have kept := @emulateOnce_instruction _ ops host s
  rw [run] at kept
  exact EmContext.form_of_kept kept

theorem advanceIndexes_form (ops : EmOps ω) (s : Emulator ω) :
    (advanceIndexes ops s).ctxt.form = s.ctxt.form :=
  EmContext.form_of_kept (advanceIndexes_instruction s)

/-- The count, and the state after it has been read. -/
def Emulator.count (ops : EmOps ω) (s : Emulator ω) : BitVec 64 × Emulator ω :=
  if s.ctxt.prefixes.rep ≠ 0 then s.gprRead ops regRcx s.ctxt.addressSize else (1, s)

theorem Emulator.count_instruction (s : Emulator ω) (ops : EmOps ω) :
    (s.count ops).2.ctxt.instruction = s.ctxt.instruction := by
  unfold count
  split <;> rfl

/-- What comes after the operation. -/
def afterOnce (ops : EmOps ω) (insn : ℕ → BitVec 8) (s : Emulator ω) : Next × Emulator ω :=
  if (advanceIndexes ops s).ctxt.prefixes.rep ≠ 0 then repeatInsn ops insn (advanceIndexes ops s)
  else (.done, advanceIndexes ops s)

/-- How a round goes. -/
inductive RoundCase (ops : EmOps ω) (host : HostFlags) (insn : ℕ → BitVec 8) (s : Emulator ω) :
    Next → Emulator ω → Prop
  | idle (none : (s.count ops).1 = 0) : RoundCase ops host insn s .done (s.count ops).2
  | exit {rc : EmStatus} {t : Emulator ω}
      (once : emulateOnce ops host (s.count ops).2 = (rc, t)) (ne : rc ≠ .continue) :
      RoundCase ops host insn s (.exit rc) t
  | after {next : Next} {t u : Emulator ω} (some : (s.count ops).1 ≠ 0)
      (once : emulateOnce ops host (s.count ops).2 = (.continue, t))
      (after : afterOnce ops insn t = (next, u)) : RoundCase ops host insn s next u

theorem emRound_cases {next : Next} (run : emRound ops host insn s = (next, t)) :
    RoundCase ops host insn s next t := by
  unfold emRound at run
  rw [show (if s.ctxt.prefixes.rep ≠ 0 then s.gprRead ops regRcx s.ctxt.addressSize else (1, s)) =
    s.count ops from rfl] at run
  dsimp only at run
  split at run
  case isTrue none =>
    obtain ⟨rfl, rfl⟩ := Prod.mk.inj run
    exact .idle none
  case isFalse some =>
    generalize once : emulateOnce ops host (s.count ops).2 = r at run
    obtain ⟨rc, u⟩ := r
    cases rc with
    | «continue» => exact .after some once run
    | _ =>
      obtain ⟨rfl, rfl⟩ := Prod.mk.inj run
      exact .exit once EmStatus.noConfusion

/-- What stays true in the rounds of an instruction of the form `f`. -/
structure RoundRule (ops : EmOps ω) (host : HostFlags) (insn : ℕ → BitVec 8)
    (f : EmMode × ℕ × ℕ × PrefixSet × EmOpcode) (P : Emulator ω → Prop) : Prop where
  count : ∀ {s}, P s → P (s.count ops).2
  once : ∀ {s : Emulator ω}, s.ctxt.form = f → P s → P (emulateOnce ops host s).2
  indexes : ∀ {s : Emulator ω}, s.ctxt.form = f → P s → P (advanceIndexes ops s)
  again : ∀ {s : Emulator ω}, s.ctxt.form = f → f.2.2.2.1.rep ≠ 0 → P s →
    P (repeatInsn ops insn s).2

theorem repeatInsn_form : (repeatInsn ops insn s).2.ctxt.form = s.ctxt.form := by
  have decoded := ((@Fills.decodeOperands (ops.readGpr s.vcpu)).relates insn
    (s.registerAdd ops regRcx (-1)).ctxt).form
  unfold repeatInsn
  dsimp only
  split
  · rfl
  · split
    · exact decoded
    · exact decoded

section RoundRule

variable {f : EmMode × ℕ × ℕ × PrefixSet × EmOpcode} {P : Emulator ω → Prop}
  (rule : RoundRule ops host insn f P)

include rule

theorem RoundRule.emRound (form : s.ctxt.form = f) (h : P s) :
    P (emRound ops host insn s).2 ∧ (emRound ops host insn s).2.ctxt.form = f := by
  have counted := (EmContext.form_of_kept (s.count_instruction ops)).trans form
  have once := rule.once counted (rule.count h)
  generalize run : Haxm.emRound ops host insn s = r
  obtain ⟨next, u⟩ := r
  cases emRound_cases run with
  | idle => exact ⟨rule.count h, counted⟩
  | exit last =>
    rw [last] at once
    exact ⟨once, (form_of_once last).trans counted⟩
  | @after _ t _ _ last after =>
    rw [last] at once
    have kept := (form_of_once last).trans counted
    have same := (advanceIndexes_form ops _).trans kept
    have moved := rule.indexes kept once
    unfold afterOnce at after
    split at after
    case isTrue rep =>
      have rest := rule.again same (congrArg (·.2.2.2.1.rep) same ▸ rep) moved
      have last := @repeatInsn_form _ ops insn (advanceIndexes ops t)
      rw [after] at rest last
      exact ⟨rest, last.trans same⟩
    case isFalse =>
      obtain ⟨-, rfl⟩ := Prod.mk.inj after
      exact ⟨moved, same⟩

theorem RoundRule.emRounds (form : s.ctxt.form = f) (h : P s) (fuel : ℕ) :
    P (emRounds ops host insn fuel s).2 ∧ (emRounds ops host insn fuel s).2.ctxt.form = f := by
  induction fuel generalizing s with
  | zero => exact ⟨h, form⟩
  | succ fuel ih =>
    have round := rule.emRound form h
    rw [Haxm.emRounds]
    generalize Haxm.emRound ops host insn s = r at round
    obtain ⟨next, t⟩ := r
    cases next with
    | restart => exact ih round.2 round.1
    | _ => exact round

/-- The state at the end of the rounds of a call. -/
theorem RoundRule.emEmulateInsn (form : s.ctxt.form = f) (h : P s.start) : ∃ next t,
    P t ∧ t.ctxt.form = f ∧ emEmulateInsn ops host insn s = emFinish ops next t :=
  have rounds := rule.emRounds (s := s.start) form h (emCount ops s.start + 1)
  ⟨_, _, rounds.1, rounds.2, rfl⟩

end RoundRule

theorem formRule (f : EmMode × ℕ × ℕ × PrefixSet × EmOpcode) :
    RoundRule ops host insn f fun _ => True :=
  ⟨fun _ => trivial, fun _ _ => trivial, fun _ _ => trivial, fun _ _ _ => trivial⟩

theorem emEmulateInsn_form : (emEmulateInsn ops host insn s).2.ctxt.form = s.ctxt.form := by
  obtain ⟨next, t, -, form, run⟩ := (formRule _).emEmulateInsn rfl trivial
  rw [run, ← form]
  cases next <;> rfl

/-! ## Instructions that are not repeated -/

/-- An instruction without a repeat prefix ends with its only round. -/
theorem emEmulateInsn_unrepeated {rc : EmStatus} (rep : s.ctxt.prefixes.rep = 0)
    (once : emulateOnce ops host s.start = (rc, t)) :
    emEmulateInsn ops host insn s =
      if rc = .continue then emFinish ops .done (advanceIndexes ops t)
      else (rc, t.gprCacheInvalidate) := by
  have kept : (advanceIndexes ops t).ctxt.prefixes.rep = 0 :=
    (congrArg (·.2.2.2.1.rep) ((advanceIndexes_form ops t).trans (form_of_once once))).trans rep
  have round : emRound ops host insn s.start =
      if rc = .continue then (.done, advanceIndexes ops t) else (.exit rc, t) := by
    unfold emRound
    rw [if_neg (not_not.mpr (show s.start.ctxt.prefixes.rep = 0 from rep))]
    dsimp only
    rw [if_neg (by decide), once]
    cases rc with
    | «continue» => exact if_neg (not_not.mpr kept)
    | _ => rfl
  show emFinish ops (emRounds ops host insn (emCount ops s.start + 1) s.start).1
    (emRounds ops host insn (emCount ops s.start + 1) s.start).2 = _
  rw [emRounds, round]
  cases rc <;> rfl

/-- It has no index registers either. -/
theorem emEmulateInsn_plain (rep : s.ctxt.prefixes.rep = 0)
    (once : emulateOnce ops host s.start = (.continue, t))
    (dst : s.ctxt.opcode.decodeDst ≠ some .di) (src1 : s.ctxt.opcode.decodeSrc1 ≠ some .si) :
    emEmulateInsn ops host insn s = emFinish ops .done t := by
  have opcode : t.ctxt.opcode = s.ctxt.opcode := congrArg (·.2.2.2.2) (form_of_once once)
  rw [← opcode] at dst src1
  rw [emEmulateInsn_unrepeated rep once, if_pos rfl, advanceIndexes_of_ne dst src1]

end Haxm
