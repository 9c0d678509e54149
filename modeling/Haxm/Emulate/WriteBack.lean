/-
# Comparisons that write

CMP, TEST and BT set flags and nothing else. The opcode tables have a flag for
them, `INSN_DST_NW`, without which the destination is written after the
operation. Group 1 and the bit tests do not have it: CMP with an immediate and
BT write back what they have read, which user space sees as a write if the
destination is in memory, and which clears the upper half of a 32-bit register.
-/

import Haxm.Emulate.BitTest
import Haxm.Emulate.Soundness

namespace Haxm

open Lib

variable {s : Emulator Guest}

/-! ## Reading only -/

/-- The writes that have been asked for. -/
def Guest.writes (g : Guest) : List GuestEvent := g.log.filter GuestEvent.isWrite

/-- Neither the registers nor the writes of the virtual CPU have changed. -/
structure Guest.Unwritten (g g' : Guest) : Prop where
  gpr : g'.gpr = g.gpr
  writes : g'.writes = g.writes

namespace Guest

theorem Unwritten.refl (g : Guest) : g.Unwritten g := ⟨rfl, rfl⟩

theorem writes_record {event : GuestEvent} (other : event.isWrite = false) (g : Guest) :
    (g.record event).writes = g.writes := by
  unfold writes record
  rw [List.filter_append, List.filter_cons_of_neg (Bool.eq_false_iff.mp other)]
  exact List.append_nil _

theorem unwritten_record {event : GuestEvent} (other : event.isWrite = false) (g : Guest) :
    g.Unwritten (g.record event) :=
  ⟨rfl, writes_record other g⟩

theorem writes_write (g : Guest) (la : BitVec 64) (size : ℕ) (value : BitVec 64) :
    (g.write la size value).writes = g.writes ++ [.write la size (lowBytes size value) g.gpr] := by
  unfold writes write record
  rw [List.filter_append]
  rfl

end Guest

namespace Emulator

variable {status : Guest → BitVec 64 → EmStatus} {s t u : Emulator Guest}

/-- `t` comes from `s` by reading. -/
structure ReadsOnly (s t : Emulator Guest) : Prop where
  vcpu : s.vcpu.Unwritten t.vcpu
  filled : s.ctxt.cache.Filled s.vcpu.gpr t.ctxt.cache
  form : t.ctxt.form = s.ctxt.form

namespace ReadsOnly

theorem opcode (h : ReadsOnly s t) : t.ctxt.opcode = s.ctxt.opcode :=
  congrArg (fun x => x.2.2.2.2) h.form

theorem refl (s : Emulator Guest) : ReadsOnly s s := ⟨.refl _, .refl _ _, rfl⟩

theorem trans (first : ReadsOnly s t) (second : ReadsOnly t u) : ReadsOnly s u where
  vcpu := ⟨second.vcpu.gpr.trans first.vcpu.gpr, second.vcpu.writes.trans first.vcpu.writes⟩
  filled := by
    have filled := second.filled
    rw [first.vcpu.gpr] at filled
    exact first.filled.trans filled
  form := second.form.trans first.form

theorem registers (h : ReadsOnly s t) : SameRegisters promptOps s t := ⟨h.vcpu.gpr, h.filled⟩

theorem setOperand (n : OperandName) (op : EmOperand) : ReadsOnly s (s.setOperand n op) := by
  cases n <;> exact ⟨.refl _, .refl _ _, rfl⟩

theorem gprReadShifted (i : Fin 16) (size shift : ℕ) :
    ReadsOnly s (s.gprReadShifted (guestOps status) i size shift).2 :=
  ⟨.refl _, (@sameRegisters_gprReadShifted _ (guestOps status) s i size shift).filled, rfl⟩

theorem rule : Stage.ReadRule (guestOps status) ReadsOnly where
  refl := refl
  trans := trans
  register _ := gprReadShifted
  operand s n op g access _ := by
    have unwritten : s.vcpu.Unwritten g := by
      cases access with
      | none => exact .refl _
      | read =>
        show s.vcpu.Unwritten (ite _ _ _ : EmStatus × BitVec 64 × Guest).2.2
        split <;> exact Guest.unwritten_record rfl _
      | post => exact .refl _
    cases n <;> exact ⟨unwritten, .refl _ _, rfl⟩

end ReadsOnly

/-- From `s` on the emulator has come to the registers `r`. -/
structure Computes (s : Emulator Guest) (r : Fin 16 → BitVec 64) (t : Emulator Guest) : Prop where
  gpr : t.gpr = r
  coherent : s.Coherent promptOps → t.Coherent promptOps

namespace Computes

variable {r : Fin 16 → BitVec 64}

theorem of_readsOnly (h : ReadsOnly s t) : s.Computes s.gpr t :=
  ⟨h.registers.reg, h.registers.coherent⟩

theorem reads (first : s.Computes r t) (h : ReadsOnly t u) : s.Computes r u :=
  ⟨h.registers.reg.trans first.gpr, fun start => h.registers.coherent (first.coherent start)⟩

theorem add (first : s.Computes r t) (i : Fin 16) (addend : BitVec 64) :
    s.Computes (fun j => r j + if j = i then addend else 0)
      (t.registerAdd (guestOps status) i addend) where
  gpr := by
    refine (reg_registerAdd addend).trans (funext fun j => ?_)
    rw [show t.reg promptOps = r from first.gpr]
    by_cases same : j = i <;> simp [same]
  coherent start := (first.coherent start).registerAdd addend

theorem addIf (first : s.Computes r t) (P : Prop) [Decidable P] (i : Fin 16) (addend : BitVec 64) :
    s.Computes (fun j => r j + if P ∧ j = i then addend else 0)
      (if P then t.registerAdd (guestOps status) i addend else t) := by
  split_ifs with h
  · simpa [h] using first.add i addend
  · simpa [h] using first

end Computes

/-- The registers after the index registers have moved. -/
def indexed (s : Emulator Guest) (i : Fin 16) : BitVec 64 :=
  s.gpr i + (if s.ctxt.opcode.decodeDst = some .di ∧ i = regRdi then indexStep s.ctxt else 0) +
    if s.ctxt.opcode.decodeSrc1 = some .si ∧ i = regRsi then indexStep s.ctxt else 0

theorem computes_advanceIndexes : s.Computes s.indexed (advanceIndexes (guestOps status) s) := by
  have first : s.Computes _ (if s.ctxt.opcode.decodeDst = some .di then
      s.registerAdd (guestOps status) regRdi (indexStep s.ctxt) else s) :=
    (Computes.of_readsOnly (.refl s)).addIf _ regRdi (indexStep s.ctxt)
  have same : (if s.ctxt.opcode.decodeDst = some .di then
      s.registerAdd (guestOps status) regRdi (indexStep s.ctxt) else s).ctxt.opcode =
        s.ctxt.opcode ∧
      indexStep (if s.ctxt.opcode.decodeDst = some .di then
        s.registerAdd (guestOps status) regRdi (indexStep s.ctxt) else s).ctxt =
          indexStep s.ctxt := by
    split_ifs <;> exact ⟨rfl, rfl⟩
  unfold advanceIndexes
  dsimp only
  rw [same.1, same.2]
  exact first.addIf _ regRsi (indexStep s.ctxt)

theorem advanceIndexes_vcpu : (advanceIndexes (guestOps status) s).vcpu = s.vcpu := by
  unfold advanceIndexes
  dsimp only
  split <;> split <;> rfl

/-- A round that is followed by another one writes the registers to the virtual CPU. -/
theorem Coherent.repeatInsn (coherent : s.Coherent promptOps) (insn : ℕ → BitVec 8) :
    s.Computes (fun i => s.gpr i + if i = regRcx then -1 else 0)
        (repeatInsn (guestOps status) insn s).2 ∧
      ((repeatInsn (guestOps status) insn s).2.vcpu = s.vcpu ∨
        (repeatInsn (guestOps status) insn s).2.vcpu =
          { s.vcpu with gpr := (repeatInsn (guestOps status) insn s).2.gpr }) := by
  have counted : s.Computes _ (s.registerAdd (guestOps status) regRcx (-1)) :=
    (Computes.of_readsOnly (.refl s)).add regRcx (-1)
  have lawful : promptOps.Lawful := guestOps_lawful _
  unfold Haxm.repeatInsn
  dsimp only
  split
  · exact ⟨counted, .inl rfl⟩
  · have filled := (@Fills.decodeOperands
      (s.registerAdd (guestOps status) regRcx (-1)).vcpu.gpr).relates insn
      (s.registerAdd (guestOps status) regRcx (-1)).ctxt
    have decoded := counted.reads
      (u := ⟨(decodeOperands (s.registerAdd (guestOps status) regRcx (-1)).vcpu.gpr insn
        (s.registerAdd (guestOps status) regRcx (-1)).ctxt).2, _⟩)
      ⟨.refl _, filled.cache, filled.form⟩
    have rest := decoded.coherent coherent
    have gpr := rest.reg_flush lawful
    split
    · exact ⟨decoded, .inl rfl⟩
    · refine ⟨⟨gpr.trans decoded.gpr, fun _ => rest.flush lawful⟩, .inr (rest.vcpu_flush.trans ?_)⟩
      exact congrArg (fun x => { s.vcpu with gpr := x }) gpr.symm

end Emulator

/-- An entry whose destination is only read. -/
structure ReadingEntry (e : EmOpcode) : Prop where
  target : ∃ h, e.target = .handler h
  fastop : e.has insnFastop = true
  nw : e.has insnDstNw = true

namespace Emulator.ReadsOnly

variable {status : Guest → BitVec 64 → EmStatus} {host : HostFlags} {s : Emulator Guest}

theorem readInputs : ReadsOnly s (Haxm.readInputs (guestOps status) s).2 :=
  rule.inputs (fun _ _ => ⟨.refl _, .refl _ _, rfl⟩) s

theorem executeHandler (entry : ReadingEntry s.ctxt.opcode) :
    ReadsOnly s (Haxm.executeHandler (guestOps status) host s).2 := by
  obtain ⟨h, target⟩ := entry.target
  rw [executeHandler_fast host target entry.fastop]
  exact ⟨.refl _, .refl _ _, rfl⟩

theorem writeOutputs (entry : ReadingEntry s.ctxt.opcode) :
    ReadsOnly s (Haxm.writeOutputs (guestOps status) s).2 := by
  have flags (r : BitVec 64) : ReadsOnly s ⟨s.ctxt, { s.vcpu with rflags := r }⟩ :=
    ⟨⟨rfl, rfl⟩, .refl _ _, rfl⟩
  unfold Haxm.writeOutputs Stage.unless
  split
  · rw [if_pos entry.nw]
    exact .refl s
  · rw [if_pos entry.nw]
    exact flags _

theorem emulateOnce (entry : ReadingEntry s.ctxt.opcode) :
    ReadsOnly s (Haxm.emulateOnce (guestOps status) host s).2 := by
  refine Stage.andThen_rel .trans (Stage.andThen_rel .trans .readInputs fun read => ?_)
    fun executed => ?_
  · apply ReadsOnly.executeHandler
    rw [read.opcode]
    exact entry
  · apply ReadsOnly.writeOutputs
    rw [executed.opcode]
    exact entry

end Emulator.ReadsOnly

/-! ## Rounds -/

/-- The emulator has written nothing since the virtual CPU was `g`, but for the registers in
`free`. -/
structure Emulator.Quiet (free : Fin 16 → Prop) (g : Guest) (s : Emulator Guest) : Prop where
  coherent : s.Coherent promptOps
  writes : s.vcpu.writes = g.writes
  vcpu : ∀ i, ¬free i → s.vcpu.gpr i = g.gpr i
  gpr : ∀ i, ¬free i → s.gpr i = g.gpr i

/-- An entry whose destination is only read and which moves registers in `free` only. -/
structure QuietEntry (free : Fin 16 → Prop) (e : EmOpcode) (rep : BitVec 8) : Prop
    extends ReadingEntry e where
  di : e.decodeDst = some .di → free regRdi
  si : e.decodeSrc1 = some .si → free regRsi
  cx : rep ≠ 0 → free regRcx

namespace Emulator.Quiet

variable {status : Guest → BitVec 64 → EmStatus} {host : HostFlags} {insn : ℕ → BitVec 8}
  {free : Fin 16 → Prop} {g : Guest} {s t : Emulator Guest}

section Steps

variable (h : s.Quiet free g)

include h

theorem readsOnly (read : ReadsOnly s t) : t.Quiet free g where
  coherent := read.registers.coherent h.coherent
  writes := read.vcpu.writes.trans h.writes
  vcpu i kept := by
    rw [read.vcpu.gpr]
    exact h.vcpu i kept
  gpr i kept := (congrFun read.registers.reg i).trans (h.gpr i kept)

theorem advanceIndexes (di : s.ctxt.opcode.decodeDst = some .di → free regRdi)
    (si : s.ctxt.opcode.decodeSrc1 = some .si → free regRsi) :
    (advanceIndexes (guestOps status) s).Quiet free g := by
  have moved := @computes_advanceIndexes status s
  refine ⟨moved.coherent h.coherent, ?_, fun i kept => ?_, fun i kept => ?_⟩
  · rw [advanceIndexes_vcpu]
    exact h.writes
  · rw [advanceIndexes_vcpu]
    exact h.vcpu i kept
  · have dst : ¬(s.ctxt.opcode.decodeDst = some .di ∧ i = regRdi) := fun m => kept (m.2 ▸ di m.1)
    have src1 : ¬(s.ctxt.opcode.decodeSrc1 = some .si ∧ i = regRsi) := fun m => kept (m.2 ▸ si m.1)
    simpa [moved.gpr, indexed, dst, src1] using h.gpr i kept

theorem repeatInsn (cx : free regRcx) :
    (repeatInsn (guestOps status) insn s).2.Quiet free g := by
  obtain ⟨moved, vcpu⟩ := @Coherent.repeatInsn status s h.coherent insn
  have gpr (i : Fin 16) (kept : ¬free i) :
      (Haxm.repeatInsn (guestOps status) insn s).2.gpr i = g.gpr i := by
    have other : i ≠ regRcx := fun same => kept (same ▸ cx)
    simpa [moved.gpr, other] using h.gpr i kept
  refine ⟨moved.coherent h.coherent, ?_, fun i kept => ?_, gpr⟩
  · rcases vcpu with same | flushed
    · exact same ▸ h.writes
    · rw [flushed]
      exact h.writes
  · rcases vcpu with same | flushed
    · exact same ▸ h.vcpu i kept
    · rw [flushed]
      exact gpr i kept

end Steps

theorem rule {f : EmMode × ℕ × ℕ × PrefixSet × EmOpcode}
    (entry : QuietEntry free f.2.2.2.2 f.2.2.2.1.rep) :
    RoundRule (guestOps status) host insn f (Quiet free g) where
  count h := by
    unfold Emulator.count
    split
    · exact h.readsOnly (.gprReadShifted _ _ _)
    · exact h
  once form h := by
    obtain rfl := form
    exact h.readsOnly (.emulateOnce entry.toReadingEntry)
  indexes form h := by
    obtain rfl := form
    exact h.advanceIndexes entry.di entry.si
  again _ rep h := h.repeatInsn (entry.cx rep)

end Emulator.Quiet

/-! ## Calls -/

/-- What the virtual CPU has of a call that writes nothing but the registers in `free`. -/
structure Guest.Silent (free : Fin 16 → Prop) (g g' : Guest) : Prop where
  writes : g'.writes = g.writes
  gpr : ∀ i, ¬free i → g'.gpr i = g.gpr i

/-- A state in which `em_emulate_insn` is called for an instruction: after the instruction has been
decoded, or after an exit to user space, which may do anything to the virtual CPU. -/
inductive CallState (host : HostFlags) (mode : EmMode) (insn : ℕ → BitVec 8) (g : Guest) :
    Emulator Guest → Prop
  | first : CallState host mode insn g (decodedInsn mode insn g)
  | again {s : Emulator Guest} (status : Guest → BitVec 64 → EmStatus) (g' : Guest)
      (called : CallState host mode insn g s)
      (left : (emEmulateInsn (guestOps status) host insn s).2.ctxt.finished = false) :
      CallState host mode insn g ⟨(emEmulateInsn (guestOps status) host insn s).2.ctxt, g'⟩

section Calls

variable {status : Guest → BitVec 64 → EmStatus} {host : HostFlags} {insn : ℕ → BitVec 8}
  {free : Fin 16 → Prop} {f : EmMode × ℕ × ℕ × PrefixSet × EmOpcode} {g : Guest}
  {s : Emulator Guest}

/-- Nothing in the cache is dirty before a call. -/
structure Emulator.Callable (f : EmMode × ℕ × ℕ × PrefixSet × EmOpcode) (s : Emulator Guest) :
    Prop where
  coherent : s.Coherent promptOps
  clean : s.ctxt.cache.w = fun _ => false
  form : s.ctxt.form = f

/-- After a call the cache is empty. -/
theorem emEmulateInsn_cache :
    (emEmulateInsn (guestOps status) host insn s).2.ctxt.cache.r = (fun _ => false) ∧
      (emEmulateInsn (guestOps status) host insn s).2.ctxt.cache.w = fun _ => false := by
  unfold emEmulateInsn emFinish
  dsimp only
  split <;> exact ⟨rfl, rfl⟩

theorem CallState.callable {mode : EmMode} {l : Layout} {e : EmOpcode}
    (called : CallState host mode insn g s) (imp : Implements mode insn l e) :
    s.Callable (mode, l.entrySize mode e, prefixedAddressSize mode insn, prefixSet insn, e) := by
  induction called with
  | first =>
    have decoded := imp.decoded g
    refine ⟨decoded.coherent, decoded.clean, ?_⟩
    rw [EmContext.form, decoded.sameMode, decoded.operandSize, decoded.addressSize,
      decoded.prefixes, decoded.opcode]
  | @again s status g' called left ih =>
    obtain ⟨read, written⟩ := @emEmulateInsn_cache status host insn s
    refine ⟨⟨fun i dirty => ?_, fun i cached _ => ?_⟩, written, emEmulateInsn_form.trans ih.form⟩
    · rw [written] at dirty
      cases dirty
    · rw [read] at cached
      cases cached

theorem Emulator.Quiet.emFinish (h : s.Quiet free g) (next : Next) :
    Guest.Silent free g (emFinish (guestOps status) next s).2.vcpu := by
  have done : Guest.Silent free g (s.guest.advance s.ctxt.cursor.len) :=
    ⟨(Guest.writes_record rfl _).trans h.writes, h.gpr⟩
  cases next with
  | exit rc => exact ⟨h.writes, h.vcpu⟩
  | done | restart =>
    rw [← h.coherent.emFinish_vcpu] at done
    exact done

/-- A call for an entry whose destination is only read. -/
theorem Emulator.Callable.silent (h : s.Callable f)
    (entry : QuietEntry free f.2.2.2.2 f.2.2.2.1.rep) :
    Guest.Silent free s.vcpu (emEmulateInsn (guestOps status) host insn s).2.vcpu := by
  have start : s.start.Quiet free s.vcpu := {
    coherent := ⟨h.coherent.1, h.coherent.2⟩
    writes := rfl
    vcpu := fun _ _ => rfl
    gpr := fun i _ => congrFun (h.coherent.reg_eq h.clean) i }
  obtain ⟨next, t, quiet, -, run⟩ := (Quiet.rule entry).emEmulateInsn h.form start
  rw [run]
  exact quiet.emFinish next

end Calls

/-! ## Operands outside memory -/

/-- No operand is in memory. -/
structure Emulator.Plain (s : Emulator Guest) : Prop where
  dst : s.ctxt.dst.type ≠ .mem
  src1 : s.ctxt.src1.type ≠ .mem
  src2 : s.ctxt.src2.type ≠ .mem

section Plain

variable {s : Emulator Guest} (plain : s.Plain)

include plain

theorem Emulator.Plain.operand (n : OperandName) : (s.ctxt.operand n).type ≠ .mem := by
  cases n
  · exact plain.dst
  · exact plain.src1
  · exact plain.src2

theorem Emulator.Plain.setOperand (n : OperandName) {op : EmOperand} (type : op.type ≠ .mem) :
    (s.setOperand n op).Plain := by
  cases n
  · exact ⟨type, plain.src1, plain.src2⟩
  · exact ⟨plain.dst, type, plain.src2⟩
  · exact ⟨plain.dst, plain.src1, type⟩

end Plain

/-- Two stages do the same without memory operands. -/
def Stage.SameOn (f g : Stage Guest) : Prop :=
  ∀ s : Emulator Guest, s.Plain → f s = g s ∧ (g s).2.Plain

namespace Stage.SameOn

variable {status : Guest → BitVec 64 → EmStatus} {f f' g g' : Stage Guest}

theorem andThen (first : SameOn f f') (rest : SameOn g g') :
    SameOn (f.andThen g) (f'.andThen g') := by
  intro s plain
  obtain ⟨same, plain⟩ := first s plain
  unfold Stage.andThen
  rw [same]
  generalize f' s = r at plain
  obtain ⟨rc, t⟩ := r
  cases rc with
  | «continue» => exact rest t plain
  | _ => exact ⟨rfl, plain⟩

theorem skipped (h : SameOn f f') (skip : EmContext → Bool) :
    SameOn (Stage.unless skip f) (Stage.unless skip f') := by
  intro s plain
  unfold Stage.unless
  split
  · exact ⟨rfl, plain⟩
  · exact h s plain

theorem operandRead (n : OperandName) :
    SameOn (Emulator.operandRead (guestOps status) · n) (Emulator.operandRead promptOps · n) := by
  intro s plain
  have type := plain.operand n
  dsimp only
  unfold Emulator.operandRead
  dsimp only
  split
  · exact ⟨rfl, plain⟩
  · split
    case h_1 => exact ⟨rfl, plain⟩
    case h_2 => exact ⟨rfl, plain.setOperand n type⟩
    case h_3 =>
      refine ⟨rfl, Emulator.Plain.setOperand ?_ n ?_⟩
      exacts [⟨plain.dst, plain.src1, plain.src2⟩, type]
    case h_4 memory => exact absurd memory type

theorem readInputs_of_plain {ops : EmOps Guest} (plain : s.ctxt.isBitop = false) :
    Haxm.readInputs ops s =
      Stage.andThen
        (Stage.andThen (Stage.unless (·.opcode.has insnDstNr) (Emulator.operandRead ops · .dst))
          (Emulator.operandRead ops · .src1))
        (Emulator.operandRead ops · .src2)
        (if s.ctxt.opcode.has insnNoflags then s else s.setRflags (ops.readRflags s.vcpu)) := by
  unfold Haxm.readInputs
  split
  · exact if_neg (Bool.eq_false_iff.mp plain)
  · exact if_neg (Bool.eq_false_iff.mp plain)

theorem readInputs (status : Guest → BitVec 64 → EmStatus) (plain : s.Plain) :
    Haxm.readInputs (guestOps status) s = Haxm.readInputs promptOps s := by
  have read (n : OperandName) : SameOn (Emulator.operandRead (guestOps status) · n)
      (Emulator.operandRead promptOps · n) := operandRead n
  have operands := (((read .dst).skipped (·.opcode.has insnDstNr)).andThen (read .src1)).andThen
    (read .src2)
  have register : s.ctxt.isBitop = false := by
    simp [EmContext.isBitop, plain.dst]
  rw [readInputs_of_plain register, readInputs_of_plain register]
  split
  · exact (operands s plain).1
  · exact (operands (s.setRflags s.vcpu.rflags) ⟨plain.dst, plain.src1, plain.src2⟩).1

end Stage.SameOn

/-! ## Entries that write back -/

/-- The operations that only set flags. -/
def Handler.compares (h : Handler) : Bool := h = .cmp || h = .test || h = .bt

/-- A comparison leaves its destination alone. -/
theorem fastopDispatch_compares {h : Handler} (compares : h.compares = true) (u : ArithFlags)
    (size : ℕ) (d v : BitVec 64) (f : ArithFlags) : (fastopDispatch u h size d v f).1 = d := by
  unfold fastopDispatch
  dsimp only
  split
  · rfl
  · cases h <;> simp [Handler.compares] at compares <;> rfl

/-- An entry of a comparison whose destination is written. -/
@[mk_iff] structure WritingEntry (h : Handler) (e : EmOpcode) : Prop where
  compares : h.compares = true
  target : e.target = .handler h
  fastop : e.has insnFastop = true
  noflags : e.has insnNoflags = false
  nw : e.has insnDstNw = false
  nr : e.has insnDstNr = false
  string : e.has insnString = false
  dst : e.decodeDst = some .modrmRm
  src1 : e.decodeSrc1 = some .simm ∨ e.decodeSrc1 = some .simm8 ∨ e.decodeSrc1 = some .modrmReg
  src2 : e.decodeSrc2 = some .none
  bit : e.decodeSrc1 = some .modrmReg → BitTestEntry h e

instance (h : Handler) (e : EmOpcode) : Decidable (WritingEntry h e) :=
  decidable_of_iff' _ (writingEntry_iff h e)

section WritesBack

variable {status : Guest → BitVec 64 → EmStatus} {insn : ℕ → BitVec 8} {h : Handler}
  {s t : Emulator Guest}

theorem readsOnly_of_readInputs (read : readInputs promptOps s = (.continue, t)) :
    s.ReadsOnly t := by
  have only := @Emulator.ReadsOnly.readInputs (fun _ _ => .continue) s
  rw [show readInputs (guestOps fun _ _ => .continue) s = _ from read] at only
  exact only

/-- A destination in memory is written. -/
theorem WritingEntry.emulateOnce_mem (entry : WritingEntry h s.ctxt.opcode) (host : HostFlags)
    (read : readInputs promptOps s = (.continue, t)) (sized : Sized t.ctxt)
    (memory : t.ctxt.dst.type = .mem) (pending : t.ctxt.dst.writePending = false)
    (finished : t.ctxt.dst.writeFinished = false) :
    ∃ u, emulateOnce promptOps host s = (.continue, u) ∧
      u.vcpu.writes ≠ s.vcpu.writes ∧ s.SameRegisters promptOps u := by
  have only := readsOnly_of_readInputs read
  rw [← only.opcode] at entry
  have execute := @executeHandler_fast _ promptOps t h host entry.target entry.fastop
  have output := @writeOutputs_eq _ promptOps ⟨fastHandler host h t.ctxt, t.vcpu⟩ entry.noflags
    entry.nw
  have write := @Emulator.operandWrite_mem ⟨fastHandler host h t.ctxt,
      { t.vcpu with rflags := (fastHandler host h t.ctxt).rflags }⟩ .dst ⟨sized.1, sized.2⟩ memory
    pending finished
  rw [emulateOnce_eq, Stage.andThen_of_continue read, Stage.andThen_of_continue execute]
  refine ⟨_, output.trans write, ?_, ⟨only.vcpu.gpr, only.filled⟩⟩
  intro same
  have more := congrArg List.length ((Guest.writes_write _ _ _ _).symm.trans same)
  rw [← only.vcpu.writes, List.length_append, List.length_singleton] at more
  exact absurd more (Nat.succ_ne_self _)

/-- The registers after the destination has been written. -/
theorem operandWrite_dst (coherent : t.Coherent promptOps) (register : t.ctxt.dst.type = .reg)
    (finished : t.ctxt.dst.writeFinished = false) :
    ∃ u, t.operandWrite (guestOps status) .dst = (.continue, u) ∧ u.vcpu = t.vcpu ∧
      u.Coherent promptOps ∧ u.gpr = Function.update t.gpr t.ctxt.dst.reg.index
        (putBytes t.ctxt.dst.reg.shift (if t.ctxt.dst.size = 4 then 8 else t.ctxt.dst.size)
          t.ctxt.dst.value (t.gpr t.ctxt.dst.reg.index)) := by
  have written : Emulator.Coherent promptOps (t.gprWriteShifted promptOps t.ctxt.dst.reg.index
      (if t.ctxt.dst.size = 4 then 8 else t.ctxt.dst.size) t.ctxt.dst.value
      t.ctxt.dst.reg.shift) := coherent.gprWriteShifted
  refine ⟨_, Emulator.operandWrite_reg register finished, rfl, ⟨written.1, written.2⟩, ?_⟩
  exact Emulator.reg_gprWriteShifted

/-- A destination in a register is written as well. -/
theorem WritingEntry.emulateOnce_reg (entry : WritingEntry h s.ctxt.opcode)
    (status : Guest → BitVec 64 → EmStatus) (host : HostFlags) (plain : s.Plain)
    (sized : Sized s.ctxt) (coherent : s.Coherent promptOps)
    (register : s.ctxt.dst.type = .reg) (dst : s.ctxt.dst.Fresh) (src1 : s.ctxt.src1.Fresh)
    (src2 : s.ctxt.src2.Fresh) :
    ∃ u, emulateOnce (guestOps status) host s = (.continue, u) ∧ u.vcpu.writes = s.vcpu.writes ∧
      u.Coherent promptOps ∧
      u.gpr = Function.update s.gpr s.ctxt.dst.reg.index
        (putBytes s.ctxt.dst.reg.shift (if s.ctxt.dst.size = 4 then 8 else s.ctxt.dst.size)
          (lowBytes s.ctxt.dst.size
            (s.gpr s.ctxt.dst.reg.index >>> (8 * s.ctxt.dst.reg.shift)))
          (s.gpr s.ctxt.dst.reg.index)) := by
  have bitop : s.ctxt.isBitop = false := by
    simp [EmContext.isBitop, register]
  obtain ⟨k, filled, read⟩ := readInputs_prompt sized entry.noflags bitop dst src1 src2
  have only := readsOnly_of_readInputs read
  rw [← Stage.SameOn.readInputs status plain] at read
  have value : (inputContext s k).dst = s.readOperand s.ctxt.dst := by
    unfold inputContext
    rw [entry.nr, if_neg Bool.false_ne_true]
  have execute := @executeHandler_fast _ (guestOps status) ⟨inputContext s k, readAll s⟩ h host
    entry.target entry.fastop
  have output := @writeOutputs_eq _ (guestOps status) ⟨fastHandler host h (inputContext s k),
    readAll s⟩ entry.noflags entry.nw
  have kept : (fastHandler host h (inputContext s k)).dst = s.readOperand s.ctxt.dst := by
    unfold fastHandler
    dsimp only
    rw [fastopDispatch_compares entry.compares, value]
  have same : s.SameRegisters promptOps ⟨fastHandler host h (inputContext s k),
      promptOps.writeRflags (fastHandler host h (inputContext s k)).rflags (readAll s)⟩ :=
    ⟨only.vcpu.gpr, only.filled⟩
  have input : s.inputValue s.ctxt.dst = lowBytes s.ctxt.dst.size
      (s.gpr s.ctxt.dst.reg.index >>> (8 * s.ctxt.dst.reg.shift)) := by
    unfold Emulator.inputValue
    rw [register]
  obtain ⟨u, write, vcpu, coherent, gpr⟩ := operandWrite_dst
    (same.coherent coherent) ((congrArg EmOperand.type kept).trans register)
    ((congrArg EmOperand.writeFinished kept).trans dst.writeFinished)
  rw [emulateOnce_eq, Stage.andThen_of_continue read, Stage.andThen_of_continue execute]
  refine ⟨u, output.trans write, ?_, coherent, ?_⟩
  · rw [vcpu]
    exact only.vcpu.writes
  · rw [gpr, Emulator.gpr, same.reg]
    dsimp only
    rw [kept, ← input]
    rfl

end WritesBack

/-! ## The tables -/

/-- The operations that set flags and nothing else. -/
def Sdm.Mnemonic.compares (m : Sdm.Mnemonic) : Bool := m = .cmp || m = .test || m = .bt || m = .cmps

/-- The comparisons without `INSN_DST_NW`: group 1 and the opcodes after 0FH. -/
def writesBack (m : OpcodeMap) (b : ℕ) : Bool :=
  m == .map0F || (m == .oneByte && decide (0x80 ≤ b ∧ b ≤ 0x83))

/-- The entry `e` of the comparison `f` at the byte `b` has the flags of its kind. -/
def comparisonFits (m : OpcodeMap) (b : ℕ) (f : Sdm.Form) (e : EmOpcode) : Bool :=
  if writesBack m b then f.mnemonic != .cmps && decide (WritingEntry f.mnemonic.handler e)
  else e.target == .handler f.mnemonic.handler && e.has insnFastop && e.has insnDstNw &&
    (f.mnemonic == .cmps ||
      (e.decodeDst != some .di && e.decodeSrc1 != some .si && !e.has insnString))

theorem table_comparisonFits (m : OpcodeMap) :
    m.allEntries (fun b digit e => (Sdm.find m b digit).all fun f =>
      !f.mnemonic.compares || comparisonFits m b f e) = true := by
  cases m <;> decide +kernel

section Instructions

variable {mode : EmMode} {insn : ℕ → BitVec 8} {l : Layout} {e : EmOpcode} {f : Sdm.Form}
  {h : Handler} {host : HostFlags} {status : Guest → BitVec 64 → EmStatus}

theorem Implements.comparisonFits (imp : Implements mode insn l e)
    (form : Sdm.find l.map l.opcode.toNat (modrmOpc (l.modrm insn)).toNat = some f)
    (compares : f.mnemonic.compares = true) : comparisonFits l.map l.opcode.toNat f e = true := by
  have fits := imp.of_allEntries (table_comparisonFits l.map)
  rw [form, Option.all_some, compares] at fits
  exact fits

/-- The operands of a comparison that writes back. -/
structure WritingOperands (mode : EmMode) (insn : ℕ → BitVec 8) (l : Layout) (e : EmOpcode)
    (c : EmContext) : Prop where
  memory : modrmMod (l.modrm insn) ≠ 3 → c.dst.type = .mem
  register : modrmMod (l.modrm insn) = 3 → c.dst.type = .reg
  size : c.dst.size = l.entrySize mode e
  reg : modrmMod (l.modrm insn) = 3 → l.entrySize mode e = 4 →
    c.dst.reg = ⟨regIndex (modrmRm (l.modrm insn)) (rexB l.rex), 0⟩
  src1 : c.src1.type = if e.decodeSrc1 = some .modrmReg then .reg else .imm
  src2 : c.src2.type = .none

theorem byteRegister_type (c : EmContext) (op : EmOperand) :
    (byteRegister c op).type = op.type ∧ (byteRegister c op).size = op.size := by
  unfold byteRegister
  split <;> exact ⟨rfl, rfl⟩

theorem decodeOpSimm_type (op : EmOperand) (c : EmContext) :
    (decodeOpSimm op insn c).1.2.type = .imm := by
  unfold decodeOpSimm
  rw [Reader.get_bind_run, Reader.bind_run]
  cases (simmValue c.operandSize insn c).1 <;> rfl

theorem Implements.writingOperands (imp : Implements mode insn l e) (entry : WritingEntry h e)
    (g : Guest) : WritingOperands mode insn l e (decodedInsn mode insn g).ctxt := by
  have decoded := imp.decoded g
  obtain ⟨c, before, operands⟩ := decoded.operands
  generalize decodedInsn mode insn g = s at decoded operands
  obtain ⟨dst, dst_eq⟩ : ∃ op, s.ctxt.dst = (decodeOpModrmRm g.gpr op insn c).1.2 := by
    rw [operands.dst, before.opcode, entry.dst]
    exact ⟨_, rfl⟩
  have memory := @decodeOpModrmRm_mem g.gpr insn c dst
  have register := @decodeOpModrmRm_reg g.gpr insn c dst
  rw [before.modrm] at memory register
  have reg {op : EmOperand} := byteRegister_type c op
  exact {
    memory := fun mem => dst_eq ▸ (memory mem).1
    register := fun mem => by
      rw [dst_eq, register mem]
      exact reg.1
    size := by
      rw [dst_eq, ← before.operandSize]
      by_cases mem : modrmMod (l.modrm insn) = 3
      · rw [register mem]
        exact reg.2
      · exact (memory mem).2.1
    reg := fun mem size => by
      rw [dst_eq, register mem, byteRegister_eq, before.rex]
      rw [before.operandSize, size]
      exact (by decide : 4 ≠ 1)
    src1 := by
      obtain ⟨v, k, moved, src1⟩ := operands.src1
      rw [src1, before.opcode]
      rcases entry.src1 with d | d | d
      · rw [d]
        exact decodeOpSimm_type _ _
      · rw [d]
        rfl
      · rw [d]
        exact (byteRegister_type k _).1
    src2 := by
      obtain ⟨v, k, moved, src2⟩ := operands.src2
      rw [src2, before.opcode, entry.src2]
      rfl }

/-- The inputs of a comparison whose destination is in memory. -/
theorem Implements.readInputs_mem (imp : Implements mode insn l e) (entry : WritingEntry h e)
    (memory : modrmMod (l.modrm insn) ≠ 3) (g : Guest) :
    ∃ t, readInputs promptOps (decodedInsn mode insn g).start = (.continue, t) ∧
      Sized t.ctxt ∧ t.ctxt.dst.type = .mem ∧ t.ctxt.dst.writePending = false ∧
      t.ctxt.dst.writeFinished = false := by
  have decoded := imp.decoded g
  have operands := imp.writingOperands entry g
  have ready (register : e.decodeSrc1 = some .modrmReg) :=
    imp.bitTestReady (entry.bit register) memory g
  generalize decodedInsn mode insn g = s at decoded operands ready
  have sized : Sized s.ctxt := decoded.sized
  have type := operands.memory memory
  by_cases register : e.decodeSrc1 = some .modrmReg
  · obtain ⟨o, k, -, -, run⟩ := (ready register).start.readInputs
    exact ⟨_, run, ⟨sized.1, sized.2⟩, type, decoded.dst.writePending, decoded.dst.writeFinished⟩
  · have src1 := operands.src1
    rw [if_neg register] at src1
    have immediate : s.start.ctxt.isBitop = false := by
      have : s.start.ctxt.src1.type = .imm := src1
      simp [EmContext.isBitop, this]
    have flags : s.start.ctxt.opcode.has insnNoflags = false := by
      rw [show s.start.ctxt.opcode = e from decoded.opcode]
      exact entry.noflags
    obtain ⟨k, -, run⟩ := readInputs_prompt (s := s.start) ⟨sized.1, sized.2⟩ flags immediate
      decoded.dst decoded.src1 decoded.src2
    have dst : (inputContext s.start k).dst = s.start.readOperand s.ctxt.dst := by
      unfold inputContext
      rw [show s.start.ctxt.opcode = e from decoded.opcode, entry.nr, if_neg Bool.false_ne_true]
      rfl
    refine ⟨_, run, ⟨sized.1, sized.2⟩, ?_, ?_, ?_⟩
    · exact (congrArg EmOperand.type dst).trans type
    · exact (congrArg EmOperand.writePending dst).trans decoded.dst.writePending
    · exact (congrArg EmOperand.writeFinished dst).trans decoded.dst.writeFinished

/-- The end of a comparison that writes back. -/
theorem WritingEntry.emEmulateInsn (entry : WritingEntry h e) (imp : Implements mode insn l e)
    {g : Guest} {s u : Emulator Guest} (decoded : Decoded mode insn l e g s)
    (once : emulateOnce (guestOps status) host s.start = (.continue, u)) :
    emEmulateInsn (guestOps status) host insn s = emFinish (guestOps status) .done u := by
  refine emEmulateInsn_plain ?_ once ?_ ?_
  · rw [decoded.prefixes]
    exact imp.rep_eq_zero entry.string
  · rw [decoded.opcode, entry.dst]
    decide
  · have src1 := entry.src1
    rw [decoded.opcode]
    intro si
    rw [si] at src1
    simp at src1

/-- A destination in memory: the write is asked for. -/
theorem Implements.writes_mem (imp : Implements mode insn l e) (entry : WritingEntry h e)
    (memory : modrmMod (l.modrm insn) ≠ 3) (g : Guest) :
    (emEmulateInsn (guestOps fun _ _ => .continue) host insn
      (decodedInsn mode insn g)).2.vcpu.writes ≠ g.writes := by
  have decoded := imp.decoded g
  obtain ⟨t, read, sized, type, pending, finished⟩ := imp.readInputs_mem entry memory g
  generalize decodedInsn mode insn g = s at decoded read
  have start : WritingEntry h s.start.ctxt.opcode := decoded.opcode ▸ entry
  obtain ⟨u, once, writes, same⟩ :=
    start.emulateOnce_mem host read sized type pending finished
  have coherent : s.start.Coherent promptOps := ⟨decoded.coherent.1, decoded.coherent.2⟩
  have finish := (same.coherent coherent).emFinish_vcpu
  have run := entry.emEmulateInsn imp decoded once
  rw [run, finish, ← decoded.vcpu]
  exact fun silent => writes ((Guest.writes_record rfl _).symm.trans silent)

/-- The register that a comparison without memory operand writes back. -/
def writtenBack (size : ℕ) (x : BitVec 64) : BitVec 64 := if size = 4 then lowBytes 4 x else x

/-- A destination in a register: the call ends, and a 32-bit register has lost its upper half. -/
theorem Implements.writes_reg (imp : Implements mode insn l e) (entry : WritingEntry h e)
    (register : modrmMod (l.modrm insn) = 3) (status : Guest → BitVec 64 → EmStatus)
    (host : HostFlags) (g : Guest) :
    ∃ i : Fin 16,
      (l.entrySize mode e = 4 → i = regIndex (modrmRm (l.modrm insn)) (rexB l.rex)) ∧
      (emEmulateInsn (guestOps status) host insn (decodedInsn mode insn g)).2.ctxt.finished = true ∧
      (emEmulateInsn (guestOps status) host insn (decodedInsn mode insn g)).2.vcpu.writes =
        g.writes ∧
      (emEmulateInsn (guestOps status) host insn (decodedInsn mode insn g)).2.vcpu.gpr =
        Function.update g.gpr i (writtenBack (l.entrySize mode e) (g.gpr i)) := by
  have decoded := imp.decoded g
  have operands := imp.writingOperands entry g
  generalize decodedInsn mode insn g = s at decoded operands
  have start : WritingEntry h s.start.ctxt.opcode := decoded.opcode ▸ entry
  have type := operands.register register
  have coherent : s.start.Coherent promptOps := ⟨decoded.coherent.1, decoded.coherent.2⟩
  have plain : s.start.Plain := by
    refine ⟨?_, ?_, ?_⟩
    · rw [show s.start.ctxt.dst.type = .reg from type]
      decide
    · rw [show s.start.ctxt.src1.type = _ from operands.src1]
      split <;> decide
    · rw [show s.start.ctxt.src2.type = .none from operands.src2]
      decide
  obtain ⟨u, once, writes, written, gpr⟩ := start.emulateOnce_reg status host plain
    ⟨decoded.sized.1, decoded.sized.2⟩ coherent type decoded.dst decoded.src1 decoded.src2
  have run := entry.emEmulateInsn imp decoded once
  have finish := written.emFinish_vcpu
  have view : s.start.gpr = g.gpr := by
    rw [← decoded.vcpu]
    exact coherent.reg_eq decoded.clean
  rw [run]
  refine ⟨s.ctxt.dst.reg.index, fun size => ?_, rfl, ?_, ?_⟩
  · rw [operands.reg register size]
  · have log : u.vcpu.writes = g.writes := by
      rw [writes, ← decoded.vcpu]
      rfl
    rw [show (emFinish (guestOps status) .done u).2.vcpu = _ from finish]
    exact (Guest.writes_record rfl _).trans log
  · rw [show (emFinish (guestOps status) .done u).2.vcpu = _ from finish]
    show u.gpr = _
    rw [gpr, view]
    refine congrArg (Function.update g.gpr s.ctxt.dst.reg.index) ?_
    show putBytes s.ctxt.dst.reg.shift (if s.ctxt.dst.size = 4 then 8 else s.ctxt.dst.size)
      (lowBytes s.ctxt.dst.size (g.gpr s.ctxt.dst.reg.index >>> (8 * s.ctxt.dst.reg.shift)))
      (g.gpr s.ctxt.dst.reg.index) = _
    rw [operands.size, writtenBack]
    split
    case isTrue size =>
      rw [operands.reg register size, size, putBytes_zero_eight, Nat.mul_zero,
        BitVec.ushiftRight_zero]
    case isFalse => exact putBytes_lowBytes _ _ _

theorem lowBytes_four_iff (x : BitVec 64) : lowBytes 4 x = x ↔ x.toNat < 2 ^ 32 := by
  rw [lowBytes, ← BitVec.toNat_inj, BitVec.toNat_setWidth, BitVec.toNat_setWidth]
  omega

/-- The registers that the operation moves. -/
def Sdm.Mnemonic.Moves (m : Sdm.Mnemonic) (i : Fin 16) : Prop :=
  m = .cmps ∧ (i = regRsi ∨ i = regRdi ∨ i = regRcx)

/-- The flag `INSN_DST_NW` keeps a comparison from writing. -/
theorem Implements.silent_of_reading (imp : Implements mode insn l e)
    (fits : Haxm.comparisonFits l.map l.opcode.toNat f e = true)
    (back : writesBack l.map l.opcode.toNat = false) {g : Guest}
    (called : CallState host mode insn g s) :
    Guest.Silent f.mnemonic.Moves s.vcpu (emEmulateInsn (guestOps status) host insn s).2.vcpu := by
  rw [Haxm.comparisonFits, back, if_neg Bool.false_ne_true] at fits
  simp only [Bool.and_eq_true, beq_iff_eq, Bool.or_eq_true, bne_iff_ne, ne_eq,
    Bool.not_eq_true'] at fits
  obtain ⟨⟨⟨target, fastop⟩, nw⟩, string⟩ := fits
  have entry : QuietEntry f.mnemonic.Moves e (prefixSet insn).rep := {
    target := ⟨_, target⟩
    fastop := fastop
    nw := nw
    di := fun d => ⟨string.resolve_right fun plain => plain.1.1 d, .inr (.inl rfl)⟩
    si := fun d => ⟨string.resolve_right fun plain => plain.1.2 d, .inl rfl⟩
    cx := fun rep =>
      ⟨string.resolve_right fun plain => rep (imp.rep_eq_zero plain.2), .inr (.inr rfl)⟩ }
  exact (called.callable imp).silent entry

/-- With a register as the destination there is one call. -/
theorem CallState.eq_of_writing {g : Guest} (called : CallState host mode insn g s)
    (imp : Implements mode insn l e) (entry : WritingEntry h e)
    (register : modrmMod (l.modrm insn) = 3) : s = decodedInsn mode insn g := by
  induction called with
  | first => rfl
  | again status g' called left ih =>
    obtain ⟨-, -, finished, -⟩ := imp.writes_reg entry register status host g
    rw [ih, finished] at left
    cases left

/-- A comparison writes nothing but flags, in all calls that carry it out, if its entry has
`INSN_DST_NW`, or the destination is a register that does not lose anything. -/
theorem comparison_silent_iff (imp : Implements mode insn l e)
    (form : Sdm.find l.map l.opcode.toNat (modrmOpc (l.modrm insn)).toNat = some f)
    (compares : f.mnemonic.compares = true) (g : Guest) :
    (∀ host s status, CallState host mode insn g s →
      Guest.Silent f.mnemonic.Moves s.vcpu (emEmulateInsn (guestOps status) host insn s).2.vcpu) ↔
    (writesBack l.map l.opcode.toNat = false ∨ modrmMod (l.modrm insn) = 3 ∧
      (l.entrySize mode e = 4 →
        (g.gpr (regIndex (modrmRm (l.modrm insn)) (rexB l.rex))).toNat < 2 ^ 32)) := by
  have fits := imp.comparisonFits form compares
  cases back : writesBack l.map l.opcode.toNat with
  | false =>
    exact iff_of_true (fun _ _ _ called => imp.silent_of_reading fits back called) (.inl rfl)
  | true =>
    rw [comparisonFits, back, if_pos rfl, Bool.and_eq_true, decide_eq_true_eq] at fits
    obtain ⟨other, entry⟩ := fits
    have still (i : Fin 16) : ¬f.mnemonic.Moves i := fun moves => by
      rw [moves.1] at other
      cases other
    constructor
    · intro silent
      have first := silent clearFlags (decodedInsn mode insn g) (fun _ _ => .continue) .first
      rw [(imp.decoded g).vcpu] at first
      by_cases register : modrmMod (l.modrm insn) = 3
      · refine .inr ⟨register, fun size => ?_⟩
        obtain ⟨i, index, -, -, gpr⟩ := imp.writes_reg entry register
          (fun _ _ => .continue) clearFlags g
        have kept := first.gpr i (still i)
        rw [gpr, Function.update_self, writtenBack, if_pos size] at kept
        rw [← index size]
        exact (lowBytes_four_iff _).mp kept
      · exact absurd first.writes (imp.writes_mem entry register g)
    · rintro (none | ⟨register, fits⟩) host s status called
      · cases none
      · obtain rfl := called.eq_of_writing imp entry register
        obtain ⟨i, index, -, writes, gpr⟩ := imp.writes_reg entry register status host g
        have vcpu := (imp.decoded g).vcpu
        refine ⟨writes.trans (congrArg Guest.writes vcpu.symm), fun j _ => ?_⟩
        have kept : writtenBack (l.entrySize mode e) (g.gpr i) = g.gpr i := by
          rw [writtenBack]
          split
          case isTrue size =>
            rw [index size]
            exact (lowBytes_four_iff _).mpr (fits size)
          case isFalse => rfl
        rw [gpr, kept, Function.update_eq_self, vcpu]

end Instructions

/-- CMP of the byte at the address in EAX with 0. -/
def cmpMem : ℕ → BitVec 8
  | 0 => 0x80
  | 1 => 0x38
  | _ => 0

/-- The layout and the entry of this instruction in 32-bit mode. -/
def cmpMemLayout : Layout := legacyLayout .prot32 cmpMem .oneByte 0

theorem implements_cmpMem :
    Implements .prot32 cmpMem cmpMemLayout
      ((resolveGroup (OpcodeMap.oneByte.entry 0x80) 7).getD {}) :=
  ⟨rfl, rfl, ⟨rfl, by decide⟩, by decide⟩

theorem cmpMem_silent_iff :
    Sdm.find cmpMemLayout.map cmpMemLayout.opcode.toNat
        (modrmOpc (cmpMemLayout.modrm cmpMem)).toNat = some (Sdm.group1 7 .ib true) ∧
      (Sdm.group1 7 .ib true).mnemonic.compares = true ∧
      ((∀ host s status, CallState host .prot32 cmpMem Guest.blank s →
        Guest.Silent (Sdm.group1 7 .ib true).mnemonic.Moves s.vcpu
          (emEmulateInsn (guestOps status) host cmpMem s).2.vcpu) ↔
      (writesBack cmpMemLayout.map cmpMemLayout.opcode.toNat = false ∨
        modrmMod (cmpMemLayout.modrm cmpMem) = 3 ∧
        (cmpMemLayout.entrySize .prot32
            ((resolveGroup (OpcodeMap.oneByte.entry 0x80) 7).getD {}) = 4 →
          (Guest.blank.gpr (regIndex (modrmRm (cmpMemLayout.modrm cmpMem))
            (rexB cmpMemLayout.rex))).toNat < 2 ^ 32))) :=
  ⟨rfl, rfl, comparison_silent_iff implements_cmpMem rfl rfl Guest.blank⟩

/-- The comparison writes to memory. -/
theorem cmpMem_writes :
    (Sdm.find .oneByte 0x80 7).map Sdm.Form.mnemonic = some .cmp ∧ Guest.blank.writes = [] ∧
      (emEmulateInsn promptOps clearFlags cmpMem
        (decodedInsn .prot32 cmpMem Guest.blank)).2.vcpu.writes.length = 1 :=
  ⟨rfl, rfl, rfl⟩

end Haxm
