/-
# The decoder follows the layout

Each stage of `em_decode_insn` moves the position over the field that the layout
has there, and takes the field's value. What the stage leaves alone is said once,
for the whole context: it is the old one with a new position.
-/

import Mathlib.Tactic.IntervalCases
import Haxm.Emulate.Layout

namespace Haxm

open Lib

variable {b : BitVec 8}

/-- `c'` is `c` with its position moved to `v`, over fields that end within the
buffer or are single bytes. -/
structure MovedTo (v : ℕ) (c c' : EmContext) : Prop where
  position : c'.cursor.At v
  straddled : c'.cursor.Straddled ↔ c.cursor.Straddled
  kept : c' = { c with cursor := c'.cursor }

section Header

variable {insn : ℕ → BitVec 8} {c : EmContext} {v : ℕ}

/-! ## REX -/

theorem decodeRex_spec (len : c.cursor.len = v) (inside : v < instrMaxLen)
    (peeked : ∀ f ∈ c.cursor.fetches, f.1 + f.2 ≤ v + 1) :
    let rex := decide (c.mode = .prot64) && isRex (byteAt insn v)
    let rexByte := if rex then byteAt insn v else 0
    let stop := if rex then v + 1 else v
    (decodeRex insn c).1 = byteAt insn stop ∧
      MovedTo (stop + 1)
        { c with
          bytes := { c.bytes with rex := rexByte }
          operandSize := if rexW rexByte then 8 else c.operandSize } (decodeRex insn c).2 := by
  intro rex rexByte stop
  have condition : (c.mode = .prot64 ∧ 0x40 ≤ byteAt insn v ∧ byteAt insn v ≤ 0x4f) ↔
      rex = true := by
    simp [rex, isRex]
  have first := Cursor.at_of_peeked len inside peeked
  have run : decodeRex insn c =
      if rex = true then
        (byteAt insn (c.cursor.advance 1).len, { c with
          bytes := { c.bytes with rex := byteAt insn v }
          operandSize := if rexW (byteAt insn v) then 8 else c.operandSize
          cursor := (c.cursor.advance 1).advance 1 })
      else (byteAt insn v, { c with
        bytes := { c.bytes with rex := 0 }, cursor := c.cursor.advance 1 }) := by
    unfold decodeRex
    simp only [Reader.modify_bind_run, insnFetchU8_bind_run, Reader.get_bind_run, Reader.ite_run,
      Reader.pure_run, insnFetchU8_run, len, condition]
  rw [run]
  by_cases hr : rex = true
  · simp only [rexByte, stop, if_pos hr]
    refine ⟨first.byteAt insn, first.advance Nat.one_pos, ?_, rfl⟩
    exact Cursor.straddled_advance_one.trans Cursor.straddled_advance_one
  · simp only [rexByte, stop, if_neg hr]
    exact ⟨trivial, first, Cursor.straddled_advance_one, rfl⟩

/-! ## Opcodes -/

/-- What the prefixes say. -/
structure Prefixed (mode : EmMode) (insn : ℕ → BitVec 8) (c : EmContext) : Prop where
  sameMode : c.mode = mode
  prefixes : c.prefixes = prefixSet insn
  addressSize : c.addressSize = prefixedAddressSize mode insn

/-- The context after the first byte of the opcode. -/
structure AtOpcode (mode : EmMode) (insn : ℕ → BitVec 8) (c : EmContext) : Prop extends
    Prefixed mode insn c where
  position : c.cursor.At (opcodeOffset mode insn + 1)
  straddled : ¬ c.cursor.Straddled
  rex : c.bytes.rex = rexByte mode insn
  modrm : c.bytes.modrm = 0
  operandSize : c.operandSize =
    if rexW (rexByte mode insn) then 8 else prefixedOperandSize mode insn

/-- The context after the whole opcode. -/
structure AfterOpcode (mode : EmMode) (insn : ℕ → BitVec 8) (l : Layout) (c : EmContext) :
    Prop extends Prefixed mode insn c where
  position : c.cursor.At l.stop
  straddled : c.cursor.Straddled ↔ VexStraddles mode insn
  rex : c.bytes.rex = l.rex
  modrm : c.bytes.modrm = 0
  b : c.bytes.b = l.opcode
  vex : ∀ x, l.vex = some x → c.bytes.vex = x
  opcode : c.opcode = l.map.entry l.opcode
  operandSize : c.operandSize = l.operandSize

variable {mode : EmMode}

/-- The result of `decode_opcode`, against the layout. -/
def OpcodeDecoded (mode : EmMode) (insn : ℕ → BitVec 8) (o : Option Layout)
    (r : EmStatus × EmContext) : Prop :=
  match o with
  | some l => r.1 = .continue ∧ AfterOpcode mode insn l r.2
  | none => r.1 = .error ∧ (r.2.cursor.Straddled ↔ VexStraddles mode insn)

/-- An opcode without VEX, whose last byte is at `v`. -/
theorem AtOpcode.legacy (h : AtOpcode mode insn c) (m : OpcodeMap) {k : Cursor} {o : EmOpcode}
    (position : k.At (v + 1)) (straddled : k.Straddled ↔ c.cursor.Straddled)
    (other : byteAt insn (opcodeOffset mode insn) ≠ 0xc4) :
    AfterOpcode mode insn (legacyLayout mode insn m v)
      (setOpcode m (byteAt insn v) { c with opcode := o, cursor := k }) where
  toPrefixed := { h with }
  position := position
  straddled := iff_of_false (straddled.not.mpr h.straddled) fun s => other s.2
  rex := h.rex
  modrm := h.modrm
  b := rfl
  vex := nofun
  opcode := rfl
  operandSize := h.operandSize

/-- The prefix check of the decoder is that of the layout. -/
theorem AtOpcode.vexForbidden_iff (h : AtOpcode mode insn c) :
    (c.prefixes.lock ≠ 0 ∨ c.prefixes.rep ≠ 0 ∨ c.prefixes.overrideOperandSize = true ∨
      c.bytes.rex ≠ 0) ↔ vexForbidden mode insn = true := by
  have lock := @prefixSet_lock insn
  have rep := @prefixSet_rep insn
  rw [h.prefixes, h.rex, prefixSet_operandSize, ne_eq, ne_eq, lock, rep]
  simp only [vexForbidden, Bool.or_eq_true, decide_eq_true_eq, bne_iff_ne, not_not,
    Bool.not_eq_false, or_assoc]

theorem insnFetchU16_run (insn : ℕ → BitVec 8) (c : EmContext) :
    insnFetchU16 insn c =
      ((fieldAt insn c.cursor.len 2).setWidth 16, { c with cursor := c.cursor.advance 2 }) := by
  rw [insnFetchU16, Reader.map_run, insnFetch_run]

/-- How many bytes of a VEX prefix follow the first one, `b`. -/
def vexBytes (b : BitVec 8) : ℕ := if b = 0xc4 then 2 else 1

/-- What they say. -/
def vexField (insn : ℕ → BitVec 8) (b : BitVec 8) (v : ℕ) : BitVec 16 :=
  if b = 0xc4 then (fieldAt insn v 2).setWidth 16 else shortVex (byteAt insn v)

theorem vexValue_bind_run {α : Type} (h : c.cursor.At v) (b : BitVec 8)
    (f : BitVec 16 → Decode α) :
    (vexValue b >>= f) insn c =
      f (vexField insn b v) insn { c with cursor := c.cursor.advance (vexBytes b) } := by
  rw [Reader.bind_run]
  unfold vexValue vexField vexBytes
  by_cases long : b = 0xc4
  · simp only [if_pos long, insnFetchU16_run, h.fieldAt insn]
  · simp only [if_neg long, insnFetchU8_bind_run, Reader.pure_run, h.byteAt insn]

/-- The bytes after 0xC4 or 0xC5, and the opcode after them. -/
theorem AtOpcode.decodeVex (h : AtOpcode mode insn c)
    (first : b = byteAt insn (opcodeOffset mode insn)) :
    let v := opcodeOffset mode insn + 1
    OpcodeDecoded mode insn
      (vexLayout mode insn (vexField insn b v) (v + vexBytes b)) (decodeVex b insn c) := by
  intro v
  have start : c.cursor.At v := h.position
  have straddles : (c.cursor.advance (vexBytes b)).Straddled ↔ VexStraddles mode insn := by
    rw [Cursor.straddled_advance start, or_iff_right h.straddled, VexStraddles, ← first, vexBytes]
    by_cases long : b = 0xc4
    · rw [if_pos long, and_iff_left long]
      simp only [instrMaxLen, v]
      omega
    · rw [if_neg long]
      exact iff_of_false (by omega) fun s => long s.2
  have pos : 0 < vexBytes b := by
    unfold vexBytes
    split <;> decide
  have next := start.advance pos
  unfold Haxm.decodeVex vexLayout
  simp only [Reader.modify_bind_run]
  rw [vexValue_bind_run (c := { c with bytes := { c.bytes with vexPrefix := b } }) start]
  simp only [Reader.modify_bind_run, Reader.get_bind_run, Reader.ite_run, Reader.pure_run,
    insnFetchU8_bind_run, h.vexForbidden_iff, h.sameMode]
  generalize vexField insn b v = x
  by_cases les : mode ≠ .prot64 ∧ (vexR x = false ∨ vexX x = false)
  · rw [if_pos les, if_pos (.inl les)]
    exact ⟨rfl, straddles⟩
  rw [if_neg les]
  by_cases forbidden : vexForbidden mode insn = true
  · rw [if_pos forbidden, if_pos (.inr forbidden)]
    exact ⟨rfl, straddles⟩
  rw [if_neg forbidden, if_neg (fun h => h.elim les forbidden)]
  cases vexMap x with
  | none => exact ⟨rfl, Cursor.straddled_advance_one.trans straddles⟩
  | some m =>
    refine ⟨rfl, ?_⟩
    have noRex : rexByte mode insn = 0 := by
      by_contra rex
      exact forbidden (h.vexForbidden_iff.mp (.inr (.inr (.inr (by rw [h.rex]; exact rex)))))
    have size := h.operandSize
    rw [noRex, if_neg (by decide)] at size
    exact {
      toPrefixed := ⟨rfl, h.prefixes, h.addressSize⟩
      position := next.advance Nat.one_pos
      straddled := Cursor.straddled_advance_one.trans straddles
      rex := rfl
      modrm := h.modrm
      b := next.byteAt insn
      vex := fun _ => Option.some.inj
      opcode := by rw [← next.byteAt insn]; rfl
      operandSize := by rw [← size]; rfl }

theorem AtOpcode.decodeOpcode (h : AtOpcode mode insn c) :
    OpcodeDecoded mode insn (layout mode insn)
      (decodeOpcode (byteAt insn (opcodeOffset mode insn)) insn c) := by
  have next := h.position.advance Nat.one_pos
  unfold Haxm.decodeOpcode layout
  simp only [Reader.modify_bind_run, Reader.ite_run, Reader.pure_run, insnFetchU8_bind_run,
    h.position.byteAt insn, next.byteAt insn]
  by_cases escape : byteAt insn (opcodeOffset mode insn) = 0x0f
  · have other : byteAt insn (opcodeOffset mode insn) ≠ 0xc4 := by
      rw [escape]
      decide
    rw [if_pos escape, if_pos escape]
    split
    · exact ⟨rfl, h.legacy _ (next.advance Nat.one_pos)
        (Cursor.straddled_advance_one.trans Cursor.straddled_advance_one) other⟩
    split
    · exact ⟨rfl, h.legacy _ (next.advance Nat.one_pos)
        (Cursor.straddled_advance_one.trans Cursor.straddled_advance_one) other⟩
    · exact ⟨rfl, h.legacy _ next Cursor.straddled_advance_one other⟩
  rw [if_neg escape, if_neg escape]
  have kept : AtOpcode mode insn
      { c with opcode := OpcodeMap.oneByte.entry (byteAt insn (opcodeOffset mode insn)) } :=
    { h with }
  have vex := kept.decodeVex rfl
  by_cases long : byteAt insn (opcodeOffset mode insn) = 0xc4
  · rw [if_pos long, if_pos (Or.inl long)]
    simp only [vexField, vexBytes, if_pos long] at vex
    exact vex
  rw [if_neg long]
  by_cases short : byteAt insn (opcodeOffset mode insn) = 0xc5
  · rw [if_pos short, if_pos (Or.inr short)]
    simp only [vexField, vexBytes, if_neg long] at vex
    exact vex
  · rw [if_neg short, if_neg (fun h => h.elim long short)]
    exact ⟨rfl, h.legacy _ h.position Iff.rfl long⟩

/-! ## The header -/

/-- The context after the prefixes. -/
theorem decodePrefixes_run (mode : EmMode) (rip : BitVec 64) :
    (decodePrefixes insn (decodeInit (EmContext.init mode rip))).2 =
      { decodeInit (EmContext.init mode rip) with
        prefixes := prefixSet insn
        cursor := {
          len := rexOffset insn
          fetches := (List.range ((legacyPrefixes insn).length + 1)).map fun i => (i, 1) } } := by
  have run := @decodePrefixesLoop_run insn instrMaxLen (instrMaxLen + 1)
    (decodeInit (EmContext.init mode rip)) le_rfl rfl
  rw [decodePrefixes, run]
  simp only [rexOffset, decodeInit, EmContext.init, Nat.zero_add, List.nil_append]
  rfl

/-- The prefixes are single bytes. -/
theorem not_straddled_bytes (len n : ℕ) :
    ¬ Cursor.Straddled { len, fetches := (List.range n).map fun i => (i, 1) } := by
  rintro ⟨f, mem, lo, hi⟩
  obtain ⟨i, -, rfl⟩ := List.mem_map.mp mem
  dsimp only at lo hi
  omega

/-- Up to the first byte of the opcode, if there is one. -/
theorem atOpcode_of_length (mode : EmMode) (rip : BitVec 64)
    (short : (legacyPrefixes insn).length < instrMaxLen) :
    let c := applySizePrefixes (decodePrefixes insn (decodeInit (EmContext.init mode rip))).2
    (decodeRex insn c).1 = byteAt insn (opcodeOffset mode insn) ∧
      AtOpcode mode insn (decodeRex insn c).2 := by
  intro c
  have offset : rexOffset insn = (legacyPrefixes insn).length :=
    Nat.min_eq_left (Nat.le_of_lt_succ short)
  have cursor : c.cursor = {
      len := rexOffset insn
      fetches := (List.range ((legacyPrefixes insn).length + 1)).map fun i => (i, 1) } := by
    simp only [c, applySizePrefixes, decodePrefixes_run]
  have peeked : ∀ f ∈ c.cursor.fetches, f.1 + f.2 ≤ rexOffset insn + 1 := by
    intro f mem
    rw [cursor] at mem
    obtain ⟨i, hi, rfl⟩ := List.mem_map.mp mem
    rw [List.mem_range] at hi
    dsimp only
    omega
  have straddled : ¬ c.cursor.Straddled := by
    rw [cursor]
    exact not_straddled_bytes _ _
  obtain ⟨byte, moved⟩ := @decodeRex_spec insn c _ (by rw [cursor]) (by omega) peeked
  have sameMode : c.mode = mode := by
    simp only [c, applySizePrefixes, decodePrefixes_run]
    rfl
  rw [sameMode] at byte moved
  refine ⟨byte, ?_⟩
  rw [moved.kept]
  exact {
    position := moved.position
    straddled := fun s => straddled (moved.straddled.mp s)
    sameMode := rfl
    prefixes := by simp only [c, applySizePrefixes, decodePrefixes_run]
    rex := rfl
    modrm := by
      simp only [c, applySizePrefixes, decodePrefixes_run]
      rfl
    operandSize := by
      simp only [c, applySizePrefixes, decodePrefixes_run, prefixSet_operandSize, decide_eq_true_eq]
      rfl
    addressSize := by
      simp only [c, applySizePrefixes, decodePrefixes_run, prefixSet_addressSize,
        decide_eq_true_eq]
      rfl }

theorem decodeHeader_spec (mode : EmMode) (rip : BitVec 64)
    (short : (legacyPrefixes insn).length < instrMaxLen) :
    OpcodeDecoded mode insn (layout mode insn) (decodeHeader insn (EmContext.init mode rip)) := by
  obtain ⟨byte, atOpcode⟩ := @atOpcode_of_length insn mode rip short
  have opcode := atOpcode.decodeOpcode
  rw [← byte] at opcode
  exact opcode

end Header

/-! ## Operands -/

/-- `c'` is `c` with its position moved to `v`. The register cache and the SIB
byte may have changed. -/
structure OperandMoved (v : ℕ) (c c' : EmContext) : Prop where
  position : c'.cursor.At v
  kept : c' = { c with
    cursor := c'.cursor, cache := c'.cache, bytes := { c.bytes with sib := c'.bytes.sib } }

theorem OperandMoved.trans {v w : ℕ} {c c' c'' : EmContext} (first : OperandMoved v c c')
    (second : OperandMoved w c' c'') : OperandMoved w c c'' := by
  refine ⟨second.position, ?_⟩
  rw [second.kept, first.kept]

/-- A reader that moves the position by `n` bytes. -/
def Moves {α : Type} (n : ℕ) (m : Decode α) : Prop :=
  ∀ insn c v, c.cursor.At v → OperandMoved (v + n) c (m insn c).2

namespace Moves

variable {α β : Type} {m : Decode α} {a b : ℕ}

theorem pure (x : α) : Moves 0 (Pure.pure x : Decode α) :=
  fun _ _ _ h => ⟨h, rfl⟩

theorem bind {f : α → Decode β} (first : Moves a m) (rest : ∀ x, Moves b (f x)) :
    Moves (a + b) (m >>= f) := by
  intro insn c v h
  have moved := first insn c v h
  rw [← Nat.add_assoc]
  exact moved.trans (rest _ insn _ _ moved.position)

theorem map (f : α → β) (h : Moves a m) : Moves a (f <$> m) := h

/-- What the rest does can depend on the byte that was fetched. -/
theorem byte_bind {f : BitVec 8 → Decode β} {k : BitVec 8 → ℕ} (rest : ∀ x, Moves (k x) (f x))
    {insn : ℕ → BitVec 8} {c : EmContext} {v : ℕ} (h : c.cursor.At v) :
    OperandMoved (v + (1 + k (byteAt insn v))) c ((insnFetchU8 >>= f) insn c).2 := by
  rw [insnFetchU8_bind_run, h.byteAt insn, ← Nat.add_assoc]
  have next : OperandMoved (v + 1) c { c with cursor := c.cursor.advance 1 } :=
    ⟨h.advance Nat.one_pos, rfl⟩
  exact next.trans (rest _ insn _ _ next.position)

theorem insnFetch {n : ℕ} (pos : 0 < n) : Moves n (Haxm.insnFetch n) := by
  intro insn c v h
  rw [insnFetch_run]
  exact ⟨h.advance pos, rfl⟩

theorem u8 : Moves 1 insnFetchU8 := (insnFetch Nat.one_pos).map _
theorem u16 : Moves 2 insnFetchU16 := (insnFetch Nat.two_pos).map _
theorem u32 : Moves 4 insnFetchU32 := (insnFetch (by decide)).map _
theorem u64 : Moves 8 insnFetchU64 := insnFetch (by decide)
theorem s8 : Moves 1 insnFetchS8 := u8.map _
theorem s16 : Moves 2 insnFetchS16 := u16.map _
theorem s32 : Moves 4 insnFetchS32 := u32.map _

variable (gpr : Fin 16 → BitVec 64)

theorem gpr16 (i : Fin 16) : Moves 0 (Haxm.gpr16 gpr i) := fun _ _ _ h => ⟨h, rfl⟩

theorem gprAddress (i : Fin 16) : Moves 0 (Haxm.gprAddress gpr i) := fun _ _ _ h => ⟨h, rfl⟩

theorem setSib (sib : BitVec 8) :
    Moves 0 (Reader.modify fun c => { c with bytes := { c.bytes with sib := sib } }) :=
  fun _ _ _ h => ⟨h, rfl⟩

end Moves

section ModrmRm

variable (gpr : Fin 16 → BitVec 64) {insn : ℕ → BitVec 8} {c : EmContext} {v : ℕ}

/-- A sum of registers. -/
theorem moves_gpr16_add (i j : Fin 16) (stack : Bool) :
    Moves 0 (do return ((← gpr16 gpr i) + (← gpr16 gpr j), stack)) :=
  (Moves.gpr16 gpr i).bind fun _ => (Moves.gpr16 gpr j).bind fun _ => .pure _

theorem moves_gpr16 (i : Fin 16) (stack : Bool) :
    Moves 0 (do return (← gpr16 gpr i, stack)) :=
  (Moves.gpr16 gpr i).bind fun _ => .pure _

theorem moves_modrmAddress16 (c : EmContext) :
    Moves (if modrmRm c.bytes.modrm = 6 ∧ modrmMod c.bytes.modrm = 0 then 2 else 0)
      (modrmAddress16 gpr c) := by
  have six : modrmRm c.bytes.modrm = 6 ↔ (modrmRm c.bytes.modrm).toNat = 6 := BitVec.toNat_inj.symm
  have small : (modrmRm c.bytes.modrm).toNat < 8 := (modrmRm c.bytes.modrm).isLt
  simp only [six]
  unfold modrmAddress16
  generalize (modrmRm c.bytes.modrm).toNat = rm at small
  -- only the form 6 can have a displacement here
  by_cases absolute : rm = 6
  · subst absolute
    by_cases zero : modrmMod c.bytes.modrm = 0
    · simp only [zero, and_self, if_true]
      exact Moves.u16.bind fun _ => .pure _
    · simp only [zero, and_false, if_false]
      exact moves_gpr16 gpr _ _
  · rw [if_neg (fun h => absolute h.1)]
    interval_cases rm
    · exact moves_gpr16_add gpr _ _ _
    · exact moves_gpr16_add gpr _ _ _
    · exact moves_gpr16_add gpr _ _ _
    · exact moves_gpr16_add gpr _ _ _
    · exact moves_gpr16 gpr _ _
    · exact moves_gpr16 gpr _ _
    · exact absurd rfl absolute
    · exact moves_gpr16 gpr _ _

theorem moves_modrmDisp16 (c : EmContext) :
    Moves (if modrmMod c.bytes.modrm = 1 then 1 else if modrmMod c.bytes.modrm = 2 then 2 else 0)
      (modrmDisp16 c) := by
  unfold modrmDisp16
  split
  · exact .s8
  split
  · exact Moves.u16.bind fun _ => .pure _
  · exact .pure _

theorem moves_modrmDisp32 (c : EmContext) :
    Moves (if modrmMod c.bytes.modrm = 1 then 1 else if modrmMod c.bytes.modrm = 2 then 4 else 0)
      (modrmDisp32 c) := by
  unfold modrmDisp32
  split
  · exact .s8
  split
  · exact .s32
  · exact .pure _

/-- The displacement that takes the place of the base depends on the SIB byte. -/
theorem operandMoved_sibAddress (c₀ : EmContext) (h : c.cursor.At v) :
    OperandMoved
      (v + (1 + if sibBase (byteAt insn v) = 5 ∧ modrmMod c₀.bytes.modrm = 0 then 4 else 0)) c
      (sibAddress gpr c₀ insn c).2 := by
  unfold sibAddress
  apply Moves.byte_bind
    (k := fun sib => if sibBase sib = 5 ∧ modrmMod c₀.bytes.modrm = 0 then 4 else 0) _ h
  intro sib
  have base : Moves (if sibBase sib = 5 ∧ modrmMod c₀.bytes.modrm = 0 then 4 else 0)
      (sibBaseAddress gpr c₀ sib) := by
    unfold sibBaseAddress
    split
    · exact .s32
    · exact .gprAddress gpr _
  have index : Moves 0 (sibIndexAddress gpr c₀ sib) := by
    unfold sibIndexAddress
    dsimp only
    split
    · exact .pure _
    · exact (Moves.gprAddress gpr _).bind fun _ => .pure _
  have whole := (Moves.setSib sib).bind fun _ => base.bind fun x => index.bind fun y =>
    Moves.pure (x + y)
  rw [Nat.zero_add] at whole
  exact whole

theorem operandMoved_modrmAddress32 (c₀ : EmContext) (h : c.cursor.At v) :
    OperandMoved
      (v + if modrmRm c₀.bytes.modrm = 4 then
          1 + if sibBase (byteAt insn v) = 5 ∧ modrmMod c₀.bytes.modrm = 0 then 4 else 0
        else if modrmMod c₀.bytes.modrm = 0 ∧ modrmRm c₀.bytes.modrm = 5 then 4 else 0) c
      (modrmAddress32 gpr c₀ insn c).2 := by
  unfold modrmAddress32
  split
  · exact operandMoved_sibAddress gpr c₀ h
  split
  · exact Moves.s32 insn c v h
  · exact Moves.gprAddress gpr _ insn c v h

/-- An operand decoder succeeds and moves the position to `v`. -/
def OperandDecoded (v : ℕ) (c : EmContext) (r : (EmStatus × EmOperand) × EmContext) : Prop :=
  r.1.1 = .continue ∧ OperandMoved v c r.2

theorem decodeOpModrmRm_spec (op : EmOperand) (h : c.cursor.At v)
    (size : c.addressSize = 2 ∨ c.addressSize = 4 ∨ c.addressSize = 8) :
    OperandDecoded (v + modrmBytes c.addressSize c.bytes.modrm (byteAt insn v)) c
      (decodeOpModrmRm gpr op insn c) := by
  unfold decodeOpModrmRm modrmBytes
  rw [Reader.get_bind_run]
  simp only [Reader.ite_run, Reader.bind_run, Reader.pure_run]
  by_cases register : modrmMod c.bytes.modrm = 3
  · simp only [if_pos register]
    exact ⟨rfl, h, rfl⟩
  simp only [if_neg register]
  by_cases small : c.addressSize = 2
  · simp only [if_pos small]
    have first := moves_modrmAddress16 gpr c insn c v h
    have second := moves_modrmDisp16 c insn _ _ first.position
    rw [← Nat.add_assoc]
    exact ⟨rfl, first.trans second⟩
  · simp only [if_neg small, if_pos (size.resolve_left small)]
    have first := @operandMoved_modrmAddress32 gpr insn c v c h
    have second := moves_modrmDisp32 c insn _ _ first.position
    rw [← Nat.add_assoc]
    exact ⟨rfl, first.trans second⟩

end ModrmRm

section Operands

variable (gpr : Fin 16 → BitVec 64) {insn : ℕ → BitVec 8} {c : EmContext} {v : ℕ}

/-- The sizes that a context can have. -/
structure Sized (c : EmContext) : Prop where
  address : c.addressSize = 2 ∨ c.addressSize = 4 ∨ c.addressSize = 8
  operand : c.operandSize = 1 ∨ c.operandSize = 2 ∨ c.operandSize = 4 ∨ c.operandSize = 8

theorem decodeOpMoffs_spec (op : EmOperand) (h : c.cursor.At v) (sized : Sized c) :
    OperandDecoded (v + c.addressSize) c (decodeOpMoffs op insn c) := by
  unfold decodeOpMoffs
  rw [Reader.get_bind_run, Reader.bind_run]
  rcases sized.address with size | size | size <;> rw [size]
  · exact ⟨rfl, (Moves.u16.bind fun _ => .pure _) insn c v h⟩
  · exact ⟨rfl, (Moves.u32.bind fun _ => .pure _) insn c v h⟩
  · exact ⟨rfl, (Moves.u64.bind fun _ => .pure _) insn c v h⟩

theorem decodeOpSimm_spec (op : EmOperand) (h : c.cursor.At v) (sized : Sized c) :
    OperandDecoded (v + min c.operandSize 4) c (decodeOpSimm op insn c) := by
  unfold decodeOpSimm
  rw [Reader.get_bind_run, Reader.bind_run]
  rcases sized.operand with size | size | size | size <;> rw [size]
  · exact ⟨rfl, (Moves.s8.bind fun _ => .pure _) insn c v h⟩
  · exact ⟨rfl, (Moves.s16.bind fun _ => .pure _) insn c v h⟩
  · exact ⟨rfl, (Moves.s32.bind fun _ => .pure _) insn c v h⟩
  · exact ⟨rfl, (Moves.s32.bind fun _ => .pure _) insn c v h⟩

theorem OpDecoder.run_spec (d : OpDecoder) (op : EmOperand) (h : c.cursor.At v) (sized : Sized c) :
    OperandDecoded (v + d.bytes c.operandSize c.addressSize c.bytes.modrm (byteAt insn v)) c
      (d.run gpr op insn c) := by
  have rm (op : EmOperand) := @decodeOpModrmRm_spec gpr insn c v op h sized.address
  cases d with
  | modrmRm => exact rm op
  | modrmRm8 => exact rm op
  | modrmRm16 => exact rm op
  | moffs => exact decodeOpMoffs_spec op h sized
  | simm => exact decodeOpSimm_spec op h sized
  | simm8 => exact ⟨rfl, Moves.s8 insn c v h⟩
  | di => exact ⟨rfl, Moves.gprAddress gpr _ insn c v h⟩
  | si => exact ⟨rfl, Moves.gprAddress gpr _ insn c v h⟩
  | _ => exact ⟨rfl, h, rfl⟩

/-- The bytes of an operand at the offset `v`. -/
def operandBytesAt (insn : ℕ → BitVec 8) (c : EmContext) (d : Option OpDecoder) (v : ℕ) : ℕ :=
  d.elim 0 fun d => d.bytes c.operandSize c.addressSize c.bytes.modrm (byteAt insn v)

theorem decodeOperand_spec (d : Option OpDecoder) (op : EmOperand) (h : c.cursor.At v)
    (sized : Sized c) :
    OperandDecoded (v + operandBytesAt insn c d v) c (decodeOperand gpr d op insn c) := by
  cases d with
  | none => exact ⟨rfl, h, rfl⟩
  | some d => exact d.run_spec gpr _ h sized

/-- `c'` is `c` with its position moved to `v`, and operands that have been
decoded. -/
structure OperandsMoved (v : ℕ) (c c' : EmContext) : Prop where
  position : c'.cursor.At v
  kept : c' = { c with
    cursor := c'.cursor, cache := c'.cache, bytes := { c.bytes with sib := c'.bytes.sib }
    dst := c'.dst, src1 := c'.src1, src2 := c'.src2 }

theorem OperandsMoved.sized {c' : EmContext} (h : OperandsMoved v c c') (sized : Sized c) :
    Sized c' := by
  rw [h.kept]
  exact ⟨sized.address, sized.operand⟩

theorem OperandsMoved.operandBytesAt {c' : EmContext} (h : OperandsMoved v c c')
    (d : Option OpDecoder) (w : ℕ) : operandBytesAt insn c' d w = operandBytesAt insn c d w := by
  rw [h.kept]
  rfl

/-- What `decode_operands` does: each operand is decoded after the one before it. -/
structure OperandsDecoded (insn : ℕ → BitVec 8) (c c' : EmContext) : Prop where
  dst : c'.dst = (decodeOperand gpr c.opcode.decodeDst c.dst insn c).1.2
  src1 : ∃ v k, OperandsMoved v c k ∧
    c'.src1 = (decodeOperand gpr c.opcode.decodeSrc1 c.src1 insn k).1.2
  src2 : ∃ v k, OperandsMoved v c k ∧
    c'.src2 = (decodeOperand gpr c.opcode.decodeSrc2 c.src2 insn k).1.2
  moved : ∃ v, OperandsMoved v c c'

theorem decodeOperands_spec (h : c.cursor.At v) (sized : Sized c) :
    let v₁ := v + operandBytesAt insn c c.opcode.decodeDst v
    let v₂ := v₁ + operandBytesAt insn c c.opcode.decodeSrc1 v₁
    let v₃ := v₂ + operandBytesAt insn c c.opcode.decodeSrc2 v₂
    (decodeOperands gpr insn c).1 = .continue ∧
      OperandsMoved v₃ c (decodeOperands gpr insn c).2 ∧
      OperandsDecoded gpr insn c (decodeOperands gpr insn c).2 := by
  intro v₁ v₂ v₃
  obtain ⟨rc₁, moved₁⟩ := @decodeOperand_spec gpr insn _ _ c.opcode.decodeDst c.dst h sized
  generalize first : decodeOperand gpr c.opcode.decodeDst c.dst insn c = r₁ at rc₁ moved₁
  have dst : OperandsMoved v₁ c { r₁.2 with dst := r₁.1.2 } :=
    ⟨moved₁.position, by rw [moved₁.kept]⟩
  obtain ⟨rc₂, moved₂⟩ := @decodeOperand_spec gpr insn _ _ c.opcode.decodeSrc1 c.src1
    dst.position (dst.sized sized)
  rw [dst.operandBytesAt] at moved₂
  generalize second : decodeOperand gpr c.opcode.decodeSrc1 c.src1 insn
    { r₁.2 with dst := r₁.1.2 } = r₂ at rc₂ moved₂
  have src1 : OperandsMoved v₂ c { r₂.2 with src1 := r₂.1.2 } :=
    ⟨moved₂.position, by rw [moved₂.kept, moved₁.kept]⟩
  obtain ⟨rc₃, moved₃⟩ := @decodeOperand_spec gpr insn _ _ c.opcode.decodeSrc2 c.src2
    src1.position (src1.sized sized)
  rw [src1.operandBytesAt] at moved₃
  generalize third : decodeOperand gpr c.opcode.decodeSrc2 c.src2 insn
    { r₂.2 with src1 := r₂.1.2 } = r₃ at rc₃ moved₃
  have src2 : OperandsMoved v₃ c { r₃.2 with src2 := r₃.1.2 } :=
    ⟨moved₃.position, by rw [moved₃.kept, moved₂.kept, moved₁.kept]⟩
  have run : decodeOperands gpr insn c = (r₃.1.1, { r₃.2 with src2 := r₃.1.2 }) := by
    unfold decodeOperands
    rw [Reader.get_bind_run, Reader.bind_run, first]
    simp only [Reader.modify_bind_run, rc₁, ne_eq, not_true, if_false]
    rw [Reader.bind_run, second]
    simp only [Reader.modify_bind_run, rc₂, not_true, if_false]
    rw [Reader.bind_run, third]
    rfl
  rw [run]
  refine ⟨rc₃, src2, ?_, ⟨_, _, dst, ?_⟩, ⟨_, _, src1, ?_⟩, ⟨_, src2⟩⟩
  · rw [moved₃.kept, moved₂.kept, first]
  · rw [moved₃.kept, second]
  · rw [third]

end Operands

/-! ## Instructions -/

section Sizes

variable {mode : EmMode} {insn : ℕ → BitVec 8}

theorem prefixedOperandSize_cases :
    prefixedOperandSize mode insn = 2 ∨ prefixedOperandSize mode insn = 4 := by
  unfold prefixedOperandSize
  split <;> cases mode <;> decide

theorem prefixedAddressSize_cases :
    prefixedAddressSize mode insn = 2 ∨ prefixedAddressSize mode insn = 4 ∨
      prefixedAddressSize mode insn = 8 := by
  unfold prefixedAddressSize
  split <;> cases mode <;> decide

theorem ite_eight_cases {p : Prop} [Decidable p] :
    (if p then 8 else prefixedOperandSize mode insn) = 2 ∨
      (if p then 8 else prefixedOperandSize mode insn) = 4 ∨
      (if p then 8 else prefixedOperandSize mode insn) = 8 := by
  have := @prefixedOperandSize_cases mode insn
  split <;> omega

theorem vexLayout_operandSize {vex : BitVec 16} {v : ℕ} {l : Layout}
    (h : vexLayout mode insn vex v = some l) :
    l.operandSize = 2 ∨ l.operandSize = 4 ∨ l.operandSize = 8 := by
  unfold vexLayout at h
  split at h
  · cases h
  · obtain ⟨m, -, rfl⟩ := Option.map_eq_some_iff.mp h
    exact ite_eight_cases

theorem layout_operandSize {l : Layout} (h : layout mode insn = some l) :
    l.operandSize = 2 ∨ l.operandSize = 4 ∨ l.operandSize = 8 := by
  unfold layout at h
  dsimp only at h
  split at h
  · rw [← Option.some.inj h]
    split
    · exact ite_eight_cases
    split <;> exact ite_eight_cases
  split at h
  · exact vexLayout_operandSize h
  split at h
  · exact vexLayout_operandSize h
  · rw [← Option.some.inj h]
    exact ite_eight_cases

end Sizes

section Instruction

variable {mode : EmMode} {insn : ℕ → BitVec 8} {l : Layout} {c : EmContext}

/-- The context after the ModRM byte. -/
structure AfterModrm (mode : EmMode) (insn : ℕ → BitVec 8) (l : Layout) (c : EmContext) :
    Prop extends Prefixed mode insn c where
  position : c.cursor.At l.operandOffset
  straddled : c.cursor.Straddled ↔ VexStraddles mode insn
  rex : c.bytes.rex = l.rex
  modrm : c.bytes.modrm = l.modrm insn
  b : c.bytes.b = l.opcode
  vex : ∀ x, l.vex = some x → c.bytes.vex = x
  opcode : c.opcode = l.map.entry l.opcode
  operandSize : c.operandSize = l.operandSize

theorem AfterOpcode.decodeModrm (h : AfterOpcode mode insn l c) :
    AfterModrm mode insn l (decodeModrm insn c).2 := by
  have flag : c.opcode.has insnModrm = l.hasModrm := by
    rw [h.opcode]
    rfl
  have run : (Haxm.decodeModrm insn c).2 = { c with
      bytes := { c.bytes with modrm := l.modrm insn }
      cursor := if l.hasModrm then c.cursor.advance 1 else c.cursor } := by
    unfold Haxm.decodeModrm Layout.modrm
    rw [Reader.get_bind_run, Reader.ite_run, flag]
    split_ifs
    · rw [insnFetchU8_bind_run, h.position.byteAt insn]
      rfl
    · rw [← h.modrm]
      rfl
  rw [run]
  refine { h with position := ?_, straddled := ?_, modrm := rfl }
  · dsimp only [Layout.operandOffset]
    split_ifs
    · exact h.position.advance Nat.one_pos
    · exact h.position
  · dsimp only
    split_ifs
    · exact Cursor.straddled_advance_one.trans h.straddled
    · exact h.straddled

/-- The opcode is one that the decoder goes on with. -/
def Accepted (insn : ℕ → BitVec 8) (e : EmOpcode) : Prop :=
  (e.has insnNotimpl = false ∧ e.target ≠ .null) ∧
    (repeated insn = true → e.has insnString = true)

theorem opcodeAccepted_iff (e : EmOpcode) :
    opcodeAccepted e (prefixSet insn).rep = true ↔ Accepted insn e := by
  have rep := @prefixSet_rep insn
  unfold opcodeAccepted Accepted
  simp only [Bool.and_eq_true, Bool.not_eq_true', bne_iff_ne, Bool.or_eq_true, beq_iff_eq, rep]
  cases repeated insn <;> simp

/-- What `em_decode_insn` does after the ModRM byte. -/
def decodeTail (gpr : Fin 16 → BitVec 64) : Decode EmStatus := do
  let c ← Reader.get
  match resolveGroup c.opcode (modrmOpc c.bytes.modrm) with
  | none => pure .error
  | some opcode =>
    Reader.modify fun c => applyOpcodeFlags { c with opcode := opcode }
    if opcodeAccepted opcode c.prefixes.rep then decodeOperands gpr else pure .error

/-- The result of `em_decode_insn`, against the implemented instructions. -/
structure InstructionDecoded (mode : EmMode) (insn : ℕ → BitVec 8) (r : EmStatus × EmContext) :
    Prop where
  implemented : ∀ l e, Implements mode insn l e →
    r.1 = .continue ∧ r.2.cursor.At (l.length mode insn e) ∧ r.2.opcode = e
  rejected : (∀ l e, ¬ Implements mode insn l e) →
    r.1 = .error ∧ (r.2.cursor.Straddled ↔ VexStraddles mode insn)

theorem InstructionDecoded.of_error {r : EmStatus × EmContext}
    (none : ∀ l e, ¬ Implements mode insn l e) (error : r.1 = .error)
    (straddled : r.2.cursor.Straddled ↔ VexStraddles mode insn) :
    InstructionDecoded mode insn r :=
  ⟨fun l e h => absurd h (none l e), fun _ => ⟨error, straddled⟩⟩

/-- The context before the operands of the entry `e`. -/
structure AtOperands (mode : EmMode) (insn : ℕ → BitVec 8) (l : Layout) (e : EmOpcode)
    (c : EmContext) : Prop extends Prefixed mode insn c where
  position : c.cursor.At l.operandOffset
  rex : c.bytes.rex = l.rex
  modrm : c.bytes.modrm = l.modrm insn
  b : c.bytes.b = l.opcode
  vex : ∀ x, l.vex = some x → c.bytes.vex = x
  opcode : c.opcode = e
  operandSize : c.operandSize = l.entrySize mode e

theorem AfterModrm.atOperands (h : AfterModrm mode insn l c) (e : EmOpcode) :
    AtOperands mode insn l e (applyOpcodeFlags { c with opcode := e }) :=
  { h with
    opcode := rfl
    operandSize := by
      simp only [applyOpcodeFlags, Layout.entrySize, h.operandSize, h.sameMode] }

theorem Layout.entrySize_cases (known : layout mode insn = some l) (e : EmOpcode) :
    l.entrySize mode e = 1 ∨ l.entrySize mode e = 2 ∨ l.entrySize mode e = 4 ∨
      l.entrySize mode e = 8 := by
  have := layout_operandSize known
  rw [Layout.entrySize]
  split_ifs <;> omega

section AtOperands

variable {e : EmOpcode} (h : AtOperands mode insn l e c) (known : layout mode insn = some l)

include h known

theorem AtOperands.sized : Sized c where
  address := by
    rw [h.addressSize]
    exact prefixedAddressSize_cases
  operand := by
    rw [h.operandSize]
    exact Layout.entrySize_cases known e

theorem AtOperands.decodeOperands (gpr : Fin 16 → BitVec 64) :
    let r := decodeOperands gpr insn c
    r.1 = .continue ∧ r.2.cursor.At (l.length mode insn e) ∧ r.2.opcode = e := by
  have bytes (d : Option OpDecoder) (v : ℕ) :
      operandBytesAt insn c d v = l.operandBytes mode insn e d v := by
    unfold operandBytesAt
    rw [h.operandSize, h.addressSize, h.modrm]
    cases d <;> rfl
  obtain ⟨rc, moved, -⟩ := @decodeOperands_spec gpr insn c l.operandOffset h.position
    (h.sized known)
  simp only [bytes, h.opcode] at moved
  refine ⟨rc, moved.position, ?_⟩
  rw [moved.kept]
  exact h.opcode

end AtOperands

theorem AfterModrm.decodeTail (gpr : Fin 16 → BitVec 64) (known : layout mode insn = some l)
    (h : AfterModrm mode insn l c) : InstructionDecoded mode insn (decodeTail gpr insn c) := by
  have entry : resolveGroup c.opcode (modrmOpc c.bytes.modrm) = l.entry insn := by
    rw [h.opcode, h.modrm]
    rfl
  have unique : ∀ {l' e}, Implements mode insn l' e → l' = l ∧ l.entry insn = some e := by
    rintro l' e ⟨same, rest⟩
    obtain rfl := Option.some.inj (same.symm.trans known)
    exact ⟨rfl, rest.1⟩
  unfold Haxm.decodeTail
  rw [Reader.get_bind_run, entry]
  cases found : l.entry insn with
  | none =>
    refine .of_error ?_ rfl h.straddled
    intro l' e imp
    exact Option.some_ne_none e ((unique imp).2.symm.trans found)
  | some e =>
    have accepted : opcodeAccepted e c.prefixes.rep = true ↔ Accepted insn e := by
      rw [h.prefixes]
      exact opcodeAccepted_iff e
    dsimp only
    rw [Reader.modify_bind_run, Reader.ite_run]
    by_cases go : opcodeAccepted e c.prefixes.rep = true
    · rw [if_pos go]
      refine ⟨?_, fun none => ?_⟩
      · intro l' e' imp
        obtain ⟨rfl, same⟩ := unique imp
        obtain rfl := Option.some.inj (same.symm.trans found)
        exact (h.atOperands e').decodeOperands known gpr
      · exact absurd ⟨known, found, accepted.mp go⟩ (none l e)
    · rw [if_neg go]
      refine .of_error ?_ rfl h.straddled
      intro l' e' imp
      obtain rfl := Option.some.inj ((unique imp).2.symm.trans found)
      exact go (accepted.mpr imp.2.2)

theorem emDecodeInsn_run (gpr : Fin 16 → BitVec 64) (c : EmContext) :
    emDecodeInsn gpr insn c =
      if (decodeHeader insn c).1 = .continue then
        decodeTail gpr insn (decodeModrm insn (decodeHeader insn c).2).2
      else decodeHeader insn c := by
  unfold emDecodeInsn
  rw [Reader.bind_run, Reader.ite_run, ite_not]
  rfl

/-! ### Nothing but prefixes -/

theorem entry_of_isSome_legacyPrefix (h : (legacyPrefix b).isSome = true) :
    OpcodeMap.oneByte.entry b = opN := by
  have all : (OpcodeMap.oneByte.table.zipIdx.all fun e =>
      (legacyPrefix (BitVec.ofNat 8 e.2)).isSome → e.1 = opN) = true := by
    decide +kernel
  have entry := OpcodeMap.entry_of_all .oneByte
    (P := fun e i => (legacyPrefix (BitVec.ofNat 8 i)).isSome → e = opN) all b
  rw [BitVec.ofNat_toNat, BitVec.setWidth_eq] at entry
  exact of_decide_eq_true entry h

theorem plain_of_isSome_legacyPrefix (h : (legacyPrefix b).isSome = true) :
    isRex b = false ∧ b ≠ 0x0f ∧ b ≠ 0xc4 ∧ b ≠ 0xc5 := by
  have all : ∀ b, (legacyPrefix b).isSome = true →
      isRex b = false ∧ b ≠ 0x0f ∧ b ≠ 0xc4 ∧ b ≠ 0xc5 := by decide
  exact all b h

theorem decodeOpcode_plain (no0F : b ≠ 0x0f) (noC4 : b ≠ 0xc4) (noC5 : b ≠ 0xc5) (c : EmContext) :
    decodeOpcode b insn c = (.continue, setOpcode .oneByte b c) := by
  unfold decodeOpcode
  rw [Reader.modify_bind_run, if_neg no0F, if_neg (not_or.mpr ⟨noC4, noC5⟩)]
  rfl

theorem decodeTail_opN (gpr : Fin 16 → BitVec 64) (h : c.opcode = opN) :
    decodeTail gpr insn (decodeModrm insn c).2 = (.error, applyOpcodeFlags c) := by
  have modrm : decodeModrm insn c = ((), c) := by
    unfold decodeModrm
    rw [Reader.get_bind_run, h]
    rfl
  have same : { c with opcode := opN } = c := by rw [← h]
  rw [modrm]
  unfold decodeTail
  rw [Reader.get_bind_run, h]
  show (EmStatus.error, applyOpcodeFlags { c with opcode := opN }) = _
  rw [same]

/-- The byte of an implemented opcode is not a prefix. -/
theorem Implements.legacyPrefix_eq_none {l : Layout} {e : EmOpcode}
    (imp : Implements mode insn l e) :
    legacyPrefix (byteAt insn (opcodeOffset mode insn)) = none := by
  by_contra found
  have isSome := Option.isSome_iff_ne_none.mpr found
  obtain ⟨-, no0F, noC4, noC5⟩ := plain_of_isSome_legacyPrefix isSome
  obtain ⟨known, entry, ⟨implemented, -⟩, -⟩ := imp
  simp only [layout, if_neg no0F, if_neg noC4, if_neg noC5, Option.some.injEq] at known
  have missing : l.map.entry l.opcode = opN := by
    rw [← known]
    exact entry_of_isSome_legacyPrefix isSome
  have same : some opN = some e := by
    rw [← entry, Layout.entry, missing]
    rfl
  rw [← Option.some.inj same] at implemented
  exact absurd implemented (by decide)

section OnlyPrefixes

variable (full : (legacyPrefixes insn).length = instrMaxLen)

include full

theorem rexOffset_of_full : rexOffset insn = 14 := by
  rw [rexOffset, full]
  rfl

theorem isSome_last : (legacyPrefix (byteAt insn (rexOffset insn))).isSome = true := by
  have last := isSome_of_length_prefixesFrom full (i := 14) (by decide)
  rw [Nat.zero_add] at last
  rw [rexOffset_of_full full]
  exact last

theorem opcodeOffset_of_full : opcodeOffset mode insn = rexOffset insn := by
  rw [opcodeOffset, hasRex, (plain_of_isSome_legacyPrefix (isSome_last full)).1, Bool.and_false]
  rfl

theorem not_implements_of_full (l : Layout) (e : EmOpcode) : ¬ Implements mode insn l e := by
  intro imp
  have last := isSome_last full
  rw [← @opcodeOffset_of_full mode insn full, imp.legacyPrefix_eq_none] at last
  cases last

/-- The last prefix is taken for the opcode, which is not implemented. -/
theorem instructionDecoded_of_full (gpr : Fin 16 → BitVec 64) (mode : EmMode) (rip : BitVec 64) :
    InstructionDecoded mode insn (emDecodeInsn gpr insn (EmContext.init mode rip)) := by
  obtain ⟨noRex, no0F, noC4, noC5⟩ := plain_of_isSome_legacyPrefix (isSome_last full)
  have entry := entry_of_isSome_legacyPrefix (isSome_last full)
  have straddles : ¬ VexStraddles mode insn := by
    rintro ⟨offset, -⟩
    rw [opcodeOffset_of_full full, rexOffset_of_full full] at offset
    omega
  generalize start : applySizePrefixes
    (decodePrefixes insn (decodeInit (EmContext.init mode rip))).2 = c
  have cursor : c.cursor = {
      len := rexOffset insn
      fetches := (List.range ((legacyPrefixes insn).length + 1)).map fun i => (i, 1) } := by
    rw [← start]
    simp only [applySizePrefixes, decodePrefixes_run]
  have notStraddled : ¬ (c.cursor.advance 1).Straddled := by
    rw [Cursor.straddled_advance_one, cursor]
    exact not_straddled_bytes _ _
  have rex : decodeRex insn c = (byteAt insn (rexOffset insn), { c with
      bytes := { c.bytes with rex := 0 }, cursor := c.cursor.advance 1 }) := by
    have condition : ¬ (c.mode = .prot64 ∧ 0x40 ≤ byteAt insn (rexOffset insn) ∧
        byteAt insn (rexOffset insn) ≤ 0x4f) := by
      rintro ⟨-, lo, hi⟩
      rw [isRex, decide_eq_true lo, decide_eq_true hi] at noRex
      cases noRex
    have len : c.cursor.len = rexOffset insn := by rw [cursor]
    unfold decodeRex
    simp only [Reader.modify_bind_run, insnFetchU8_bind_run, Reader.get_bind_run, Reader.ite_run,
      Reader.pure_run, len, if_neg condition]
  have header : decodeHeader insn (EmContext.init mode rip) = (.continue,
      setOpcode .oneByte (byteAt insn (rexOffset insn)) { c with
        bytes := { c.bytes with rex := 0 }, cursor := c.cursor.advance 1 }) := by
    unfold decodeHeader
    rw [Reader.modify_bind_run, Reader.bind_run, Reader.modify_bind_run, Reader.bind_run, start,
      rex]
    exact decodeOpcode_plain no0F noC4 noC5 _
  have plain : (setOpcode .oneByte (byteAt insn (rexOffset insn)) { c with
      bytes := { c.bytes with rex := 0 }, cursor := c.cursor.advance 1 }).opcode = opN := entry
  rw [emDecodeInsn_run, header, if_pos rfl, decodeTail_opN gpr plain]
  exact .of_error (not_implements_of_full full) rfl (iff_of_false notStraddled straddles)

end OnlyPrefixes

/-- `em_decode_insn` accepts what is implemented, and nothing else. -/
theorem emDecodeInsn_spec (gpr : Fin 16 → BitVec 64) (mode : EmMode) (rip : BitVec 64)
    (insn : ℕ → BitVec 8) :
    InstructionDecoded mode insn (emDecodeInsn gpr insn (EmContext.init mode rip)) := by
  rcases Nat.lt_or_ge (legacyPrefixes insn).length instrMaxLen with short | long
  · have header := decodeHeader_spec mode rip short
    rw [emDecodeInsn_run]
    cases known : layout mode insn with
    | none =>
      rw [known] at header
      obtain ⟨error, straddled⟩ := header
      rw [if_neg (by rw [error]; decide)]
      refine .of_error ?_ error straddled
      rintro l e ⟨some, -⟩
      rw [known] at some
      cases some
    | some l =>
      rw [known] at header
      obtain ⟨go, after⟩ := header
      rw [if_pos go]
      exact after.decodeModrm.decodeTail gpr known
  · exact instructionDecoded_of_full (le_antisymm (length_prefixesFrom_le _ _) long) gpr mode rip

end Instruction

end Haxm
