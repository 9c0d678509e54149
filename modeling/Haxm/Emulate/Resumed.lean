/-
# Emulation after the buffer is gone

The instruction buffer is on the stack of `vcpu_emulate_insn`, and the context
still points to it when the emulator is called again after an exit to user space.
Nothing reads it then. The only decoders that `em_emulate_insn` runs are those of
repeated string instructions, whose operands are in registers or at addresses in
registers.
-/

import Haxm.Emulate.Rep

namespace Haxm

open Lib

variable {ω : Type} {ops : EmOps ω} {host : HostFlags} {insn : ℕ → BitVec 8}

/-- A call of `em_emulate_insn` with what it finds in the virtual CPU and where the buffer was,
and the number of its rounds. -/
structure EmCall (ω : Type) where
  ops : EmOps ω
  host : HostFlags
  vcpu : ω
  insn : ℕ → BitVec 8
  rounds : ℕ

/-- The context after a call. -/
def EmCall.run (k : EmCall ω) (c : EmContext) : EmContext :=
  let (next, s) := emRounds k.ops k.host k.insn k.rounds ⟨{ c with finished := false }, k.vcpu⟩
  (emFinish k.ops next s).2.ctxt

/-- Only a string instruction is decoded again. -/
def EmContext.DecodesStrings (c : EmContext) : Prop :=
  c.prefixes.rep ≠ 0 → ∃ k : StringOp, k.Entry c.opcode

theorem StringOp.Entry.decodeOperands {k : StringOp} {c : EmContext} (entry : k.Entry c.opcode)
    (gpr : Fin 16 → BitVec 64) : (decodeOperands gpr insn c).2.instruction = c.instruction := by
  have run (d : OpDecoder) (kind : d = .di ∨ d = .si ∨ d = .acc) (op : EmOperand) (c : EmContext) :
      ∃ op' r, decodeOperand gpr (some d) op insn c =
        ((.continue, op'), { c with cache := r }) := by
    rcases kind with rfl | rfl | rfl <;> exact ⟨_, _, rfl⟩
  obtain ⟨op₁, r₁, dst⟩ := run k.dst (by cases k <;> simp [StringOp.dst]) c.dst c
  obtain ⟨op₂, r₂, src1⟩ := run k.src (by cases k <;> simp [StringOp.src]) c.src1
    { c with dst := op₁, cache := r₁ }
  unfold Haxm.decodeOperands
  rw [Reader.get_bind_run, Reader.bind_run, entry.dst, dst]
  simp only [Reader.modify_bind_run, ne_eq, not_true, if_false]
  rw [Reader.bind_run, entry.src1, src1]
  simp only [Reader.modify_bind_run, not_true, if_false]
  rw [Reader.bind_run, entry.src2]
  rfl

theorem repeatInsn_instruction {s : Emulator ω} {k : StringOp} (entry : k.Entry s.ctxt.opcode) :
    (repeatInsn ops insn s).2.ctxt.instruction = s.ctxt.instruction := by
  unfold repeatInsn
  dsimp only
  split
  · rfl
  · split <;>
      exact StringOp.Entry.decodeOperands (c := (s.registerAdd ops regRcx (-1)).ctxt) entry _

theorem EmCall.run_instruction {c c' : EmContext} (h : c.DecodesStrings) (k : EmCall ω)
    (kept : c'.instruction = c.instruction) : (k.run c').instruction = c.instruction := by
  have rule : RoundRule k.ops k.host k.insn c.form fun s => s.ctxt.instruction = c.instruction := {
    count := fun {s} kept => (s.count_instruction _).trans kept
    once := fun _ kept => (emulateOnce_instruction _).trans kept
    indexes := fun _ kept => (advanceIndexes_instruction _).trans kept
    again := fun {s} form rep kept => by
      obtain ⟨j, entry⟩ := h rep
      have opcode : s.ctxt.opcode = c.opcode := congrArg (·.2.2.2.2) form
      exact (repeatInsn_instruction (opcode ▸ entry)).trans kept }
  have rounds := rule.emRounds (s := ⟨{ c' with finished := false }, k.vcpu⟩)
    (EmContext.form_of_kept kept) kept k.rounds
  refine Eq.trans ?_ rounds.1
  unfold EmCall.run emFinish
  dsimp only
  split <;> rfl

theorem decodesStrings_of_accepted {gpr : Fin 16 → BitVec 64} {mode : EmMode} {rip : BitVec 64}
    {c : EmContext} (accepted : emDecodeInsn gpr insn (EmContext.init mode rip) = (.continue, c)) :
    c.DecodesStrings := by
  obtain ⟨l, e, g, imp, decoded⟩ := exists_decoded accepted
  intro rep
  rw [show c.opcode = e from decoded.opcode]
  exact imp.string_of_rep (decoded.prefixes ▸ rep)

/-- However often an accepted instruction is resumed, with whatever there is in place of the
buffer, no byte is fetched and the length stays the same. -/
theorem resumed_cursor {gpr : Fin 16 → BitVec 64} {mode : EmMode} {rip : BitVec 64} {c : EmContext}
    (accepted : emDecodeInsn gpr insn (EmContext.init mode rip) = (.continue, c))
    (calls : List (EmCall ω)) : (calls.foldl (fun c k => k.run c) c).cursor = c.cursor := by
  have strings := decodesStrings_of_accepted accepted
  have kept : (calls.foldl (fun c k => k.run c) c).instruction = c.instruction :=
    List.foldlRecOn (motive := fun x : EmContext => x.instruction = c.instruction) calls _ rfl
      fun _ same k _ => k.run_instruction strings same
  exact congrArg (fun x => x.2.2.2.2.1) kept

/-- Two bytes are to be copied. -/
def deviceGuest : Guest := { Guest.blank with gpr := fun i => if i = regRcx then 2 else 0x1000 }

/-- REP MOVSB is called three times, the last two with a buffer that holds zeros. -/
def deviceCalls : List (EmCall Guest) :=
  [⟨guestOps fun _ _ => .exitMmio, clearFlags, deviceGuest, repMovsb, 3⟩,
    ⟨guestOps fun g _ => if g.log = [] then .continue else .exitMmio, clearFlags, deviceGuest,
      fun _ => 0, 3⟩,
    ⟨promptOps, clearFlags, deviceGuest, fun _ => 0, 3⟩]

/-- The first two calls are left for user space, the last one finishes. -/
theorem resumed_cursor_repMovsb :
    ([1, 2, 3].map fun n => ((deviceCalls.take n).foldl (fun c k => k.run c)
        (decodedInsn .prot32 repMovsb deviceGuest).ctxt).finished) = [false, false, true] ∧
      (deviceCalls.foldl (fun c k => k.run c)
        (decodedInsn .prot32 repMovsb deviceGuest).ctxt).cursor =
        (decodedInsn .prot32 repMovsb deviceGuest).ctxt.cursor := by
  have accepted : (emDecodeInsn deviceGuest.gpr repMovsb (EmContext.init .prot32 0)).1 =
      .continue := by
    decide
  exact ⟨by decide +kernel, resumed_cursor (Prod.ext accepted rfl) _⟩

end Haxm
