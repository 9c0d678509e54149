/-
# What the decoder reads

The helpers that fetch a field compare the position with the end of the buffer
before the access, and not the end of the field. So a field that begins in the
buffer can end behind it, and a field that begins behind it is zero. An
instruction is decoded from its own bytes if it fits into the buffer.
-/

import Haxm.Emulate.DecodeTrace
import Haxm.Emulate.DecodeSteps

namespace Haxm

open Lib

/-! ## Decoding from the buffer -/

/-- The byte `i` has been read. Behind the buffer nothing is read. -/
def Cursor.Read (k : Cursor) (i : ℕ) : Prop :=
  ∃ f ∈ k.fetches, f.1 < instrMaxLen ∧ f.1 ≤ i ∧ i < f.1 + f.2

theorem Cursor.read_inside_iff {k : Cursor} :
    (∀ i, k.Read i → i < instrMaxLen) ↔ ¬ k.Straddled := by
  constructor
  · rintro inside ⟨f, mem, lo, hi⟩
    exact absurd (inside instrMaxLen ⟨f, mem, lo, lo.le, hi⟩) (lt_irrefl _)
  · rintro straight i ⟨f, mem, lo, le, lt⟩
    by_contra outside
    exact straight ⟨f, mem, lo, by omega⟩

/-- What `em_decode_insn` gives to its caller. -/
def decoded (r : EmStatus × EmContext) :
    EmStatus × EmOpcode × EmOperand × EmOperand × EmOperand × ℕ :=
  (r.1, r.2.opcode, r.2.dst, r.2.src1, r.2.src2, r.2.cursor.len)

/-- The decoder reads the buffer only, and ends. If it accepts an instruction,
that is determined by the bytes of the instruction, of which there are as many
as fit into the buffer, and no field of it is taken for zero. -/
structure DecodesBuffer (gpr : Fin 16 → BitVec 64) (mode : EmMode) (rip : BitVec 64)
    (insn : ℕ → BitVec 8) : Prop where
  terminates : ∀ fuel, instrMaxLen + 1 ≤ fuel →
    decodePrefixesLoop fuel insn (decodeInit (EmContext.init mode rip)) =
      decodePrefixes insn (decodeInit (EmContext.init mode rip))
  inside : ∀ i, (emDecodeInsn gpr insn (EmContext.init mode rip)).2.cursor.Read i → i < instrMaxLen
  length : (emDecodeInsn gpr insn (EmContext.init mode rip)).1 = .continue →
    (emDecodeInsn gpr insn (EmContext.init mode rip)).2.cursor.len ≤ instrMaxLen
  present : (emDecodeInsn gpr insn (EmContext.init mode rip)).1 = .continue →
    ∀ f ∈ (emDecodeInsn gpr insn (EmContext.init mode rip)).2.cursor.fetches,
      f.1 + f.2 ≤ instrMaxLen
  determined : (emDecodeInsn gpr insn (EmContext.init mode rip)).1 = .continue →
    ∀ other : ℕ → BitVec 8,
      (∀ i < (emDecodeInsn gpr insn (EmContext.init mode rip)).2.cursor.len, other i = insn i) →
      decoded (emDecodeInsn gpr other (EmContext.init mode rip)) =
        decoded (emDecodeInsn gpr insn (EmContext.init mode rip))

/-- The instruction in the buffer, if it is one that is implemented, has at most 15
bytes, and no VEX prefix is cut off. -/
def Fits (mode : EmMode) (insn : ℕ → BitVec 8) : Prop :=
  ¬ VexStraddles mode insn ∧
    ∀ l e, Implements mode insn l e → l.length mode insn e ≤ instrMaxLen

section Buffer

variable {gpr : Fin 16 → BitVec 64} {mode : EmMode} {rip : BitVec 64} {insn : ℕ → BitVec 8}

theorem decodePrefixesLoop_ends (mode : EmMode) (rip : BitVec 64) (insn : ℕ → BitVec 8) {fuel : ℕ}
    (enough : instrMaxLen + 1 ≤ fuel) :
    decodePrefixesLoop fuel insn (decodeInit (EmContext.init mode rip)) =
      decodePrefixes insn (decodeInit (EmContext.init mode rip)) := by
  rw [decodePrefixes, decodePrefixesLoop_run enough rfl, decodePrefixesLoop_run le_rfl rfl]

/-- A buffer with the same bytes where something was fetched decodes in the same way. -/
theorem emDecodeInsn_congr {other : ℕ → BitVec 8}
    (same : ∀ i, Reader.Covered
      (emDecodeInsn gpr insn (EmContext.init mode rip)).2.cursor.fetches i → other i = insn i) :
    emDecodeInsn gpr other (EmContext.init mode rip) =
      emDecodeInsn gpr insn (EmContext.init mode rip) := by
  obtain ⟨new, log, agree⟩ := logs_emDecodeInsn gpr insn (EmContext.init mode rip)
  apply agree
  intro i covered
  apply same
  have fetches : (emDecodeInsn gpr insn (EmContext.init mode rip)).2.cursor.fetches = new := log
  rwa [fetches]

/-- An instruction that fits is decoded from its own bytes. -/
theorem decodesBuffer_of_implements {l : Layout} {e : EmOpcode} (imp : Implements mode insn l e)
    (fits : l.length mode insn e ≤ instrMaxLen) : DecodesBuffer gpr mode rip insn := by
  obtain ⟨-, position, -⟩ := (emDecodeInsn_spec gpr mode rip insn).implemented l e imp
  obtain ⟨len, spans⟩ := position.within fits
  exact {
    terminates := fun _ => decodePrefixesLoop_ends mode rip insn
    inside := by
      rintro i ⟨f, mem, -, -, lt⟩
      exact lt.trans_le ((spans f mem).trans fits)
    length := fun _ => len.le.trans fits
    present := fun _ f mem => (spans f mem).trans fits
    determined := by
      intro _ other same
      rw [emDecodeInsn_congr]
      rintro i ⟨f, mem, -, lt⟩
      exact same i (lt.trans_le ((spans f mem).trans len.ge)) }

/-- What is rejected has no length and no operands: only the reads matter. -/
theorem decodesBuffer_of_rejected
    (error : (emDecodeInsn gpr insn (EmContext.init mode rip)).1 = .error)
    (straight : ¬ (emDecodeInsn gpr insn (EmContext.init mode rip)).2.cursor.Straddled) :
    DecodesBuffer gpr mode rip insn := by
  have rejected : (emDecodeInsn gpr insn (EmContext.init mode rip)).1 ≠ .continue := by
    rw [error]
    decide
  exact {
    terminates := fun _ => decodePrefixesLoop_ends mode rip insn
    inside := Cursor.read_inside_iff.mpr straight
    length := fun h => absurd h rejected
    present := fun h => absurd h rejected
    determined := fun h => absurd h rejected }

theorem VexStraddles.length_gt {l : Layout} {e : EmOpcode} (h : VexStraddles mode insn)
    (imp : Implements mode insn l e) : instrMaxLen < l.length mode insn e := by
  obtain ⟨offset, b⟩ := h
  have known := imp.1
  have not0F : (0xc4 : BitVec 8) ≠ 0x0f := by decide
  simp only [layout, b, if_neg not0F, if_pos] at known
  unfold vexLayout at known
  split at known
  · cases known
  obtain ⟨m, -, rfl⟩ := Option.map_eq_some_iff.mp known
  refine Nat.lt_of_lt_of_le ?_ (Layout.stop_le_length mode insn _ e)
  dsimp only
  rw [offset]
  decide

/-- The bytes of a buffer determine what is decoded from it if the instruction
fits, and only then. -/
theorem decodesBuffer_iff_fits (gpr : Fin 16 → BitVec 64) (mode : EmMode) (rip : BitVec 64)
    (insn : ℕ → BitVec 8) : DecodesBuffer gpr mode rip insn ↔ Fits mode insn := by
  have spec := emDecodeInsn_spec gpr mode rip insn
  by_cases some : ∃ l e, Implements mode insn l e
  · obtain ⟨l, e, imp⟩ := some
    obtain ⟨go, position, -⟩ := spec.implemented l e imp
    constructor
    · intro h
      have short : ∀ l e, Implements mode insn l e → l.length mode insn e ≤ instrMaxLen := by
        intro l e imp
        by_contra long
        obtain ⟨-, position, -⟩ := spec.implemented l e imp
        obtain ⟨-, f, mem, outside⟩ := position.beyond (by omega)
        exact absurd (h.present go f mem) (by omega)
      exact ⟨fun vex => absurd (short l e imp) (vex.length_gt imp).not_ge, short⟩
    · rintro ⟨-, short⟩
      exact decodesBuffer_of_implements imp (short l e imp)
  · have none : ∀ l e, ¬ Implements mode insn l e := fun l e imp => some ⟨l, e, imp⟩
    obtain ⟨error, straddled⟩ := spec.rejected none
    constructor
    · intro h
      have straight := Cursor.read_inside_iff.mp h.inside
      exact ⟨fun vex => straight (straddled.mpr vex), fun l e imp => absurd imp (none l e)⟩
    · rintro ⟨vex, -⟩
      exact decodesBuffer_of_rejected error fun h => vex (straddled.mp h)

end Buffer

/-- Eleven prefixes, `MOV [disp32], AL` with a ModRM byte and a displacement that
ends two bytes behind the buffer. -/
def longStore (behind : BitVec 8) (i : ℕ) : BitVec 8 :=
  if i < 11 then 0x3e
  else if i = 11 then 0x88
  else if i = 12 then 0x05
  else if i < 15 then 0
  else behind

def decodedLongStore (behind : BitVec 8) : EmStatus × EmContext :=
  emDecodeInsn (fun _ => 0) (longStore behind) (EmContext.init .prot32 0)

/-- The store is accepted with a length of 17, and the address is taken from
what follows the buffer. -/
theorem longStore_reads_behind :
    (decodedLongStore 0).1 = .continue ∧ (decodedLongStore 0).2.cursor.len = 17 ∧
      (∀ i < instrMaxLen, longStore 1 i = longStore 0 i) ∧
      (decodedLongStore 0).2.dst.mem.ea = 0 ∧ (decodedLongStore 1).2.dst.mem.ea = 0x01010000 ∧
      ¬ DecodesBuffer (fun _ => 0) .prot32 0 (longStore 0) := by
  have go : (decodedLongStore 0).1 = .continue := by decide +kernel
  have len : (decodedLongStore 0).2.cursor.len = 17 := by decide +kernel
  refine ⟨go, len, by decide, by decide +kernel, by decide +kernel, ?_⟩
  intro h
  have short := h.length go
  rw [show (emDecodeInsn _ _ _).2.cursor.len = 17 from len] at short
  exact absurd short (by decide)

end Haxm
