/-
# Where the fields of an instruction are

The bytes of a buffer are divided into prefixes, opcode, ModRM byte and operand
fields by the rules of the instruction format alone. The offsets are counted
through: a field can begin or end behind the buffer. The decoder follows this
division, and fetches the fields one after the other.
-/

import Mathlib.Data.List.TakeWhile
import Haxm.Emulate.Decode

namespace Haxm

open Lib

/-! ## Bytes -/

section Bytes

variable (insn : ℕ → BitVec 8)

/-- The field of `n` bytes at the offset `v`; it is zero behind the buffer. -/
def fieldAt (v n : ℕ) : BitVec 64 := if v < instrMaxLen then loadLe insn v n else 0

def byteAt (v : ℕ) : BitVec 8 := if v < instrMaxLen then insn v else 0

end Bytes

/-! ## Prefixes -/

/-- The legacy prefixes from the offset `v` on, at most `n` of them. -/
def prefixesFrom (insn : ℕ → BitVec 8) : ℕ → ℕ → List LegacyPrefix
  | 0, _ => []
  | n + 1, v =>
    match legacyPrefix (insn v) with
    | some p => p :: prefixesFrom insn n (v + 1)
    | none => []

def legacyPrefixes (insn : ℕ → BitVec 8) : List LegacyPrefix := prefixesFrom insn instrMaxLen 0

def LegacyPrefix.isRep : LegacyPrefix → Bool
  | .rep _ => true
  | _ => false

def repeated (insn : ℕ → BitVec 8) : Bool := (legacyPrefixes insn).any LegacyPrefix.isRep

def isRex (b : BitVec 8) : Bool := 0x40 ≤ b && b ≤ 0x4f

section Format

variable (mode : EmMode) (insn : ℕ → BitVec 8)

/-- The offset after the legacy prefixes. If there is nothing but prefixes, the
last of them takes the place of the opcode. -/
def rexOffset : ℕ := min (legacyPrefixes insn).length 14

/-- There is a REX prefix. -/
def hasRex : Bool := decide (mode = .prot64) && isRex (byteAt insn (rexOffset insn))

def opcodeOffset : ℕ := if hasRex mode insn then rexOffset insn + 1 else rexOffset insn

def rexByte : BitVec 8 := if hasRex mode insn then byteAt insn (rexOffset insn) else 0

/-- The operand size that mode and prefix give. -/
def prefixedOperandSize : ℕ :=
  if LegacyPrefix.operandSize ∈ legacyPrefixes insn then mode.operandSize ^^^ (2 ||| 4)
  else mode.operandSize

def prefixedAddressSize : ℕ :=
  if LegacyPrefix.addressSize ∈ legacyPrefixes insn then
    mode.addressSize ^^^ (if mode ≠ .prot64 then 2 ||| 4 else 4 ||| 8)
  else mode.addressSize

/-- A prefix that VEX does not go together with. -/
def vexForbidden : Bool :=
  decide (LegacyPrefix.lock ∈ legacyPrefixes insn) || repeated insn ||
    decide (LegacyPrefix.operandSize ∈ legacyPrefixes insn) || rexByte mode insn != 0

/-! ## Opcodes -/

/-- An opcode and what precedes it. -/
structure Layout where
  rex : BitVec 8
  vex : Option (BitVec 16)
  operandSize : ℕ
  map : OpcodeMap
  opcode : BitVec 8
  /-- The offset after the opcode. -/
  stop : ℕ

def legacyLayout (map : OpcodeMap) (v : ℕ) : Layout where
  rex := rexByte mode insn
  vex := none
  operandSize := if rexW (rexByte mode insn) then 8 else prefixedOperandSize mode insn
  map := map
  opcode := byteAt insn v
  stop := v + 1

/-- The layout with the VEX prefix `vex` and the opcode at `v`, unless the prefix
is not recognised. -/
def vexLayout (vex : BitVec 16) (v : ℕ) : Option Layout :=
  if mode ≠ .prot64 ∧ (vexR vex = false ∨ vexX vex = false) ∨ vexForbidden mode insn = true then
    none
  else (vexMap vex).map fun map => {
    rex := vexRex vex
    vex := some vex
    operandSize := if mode = .prot64 ∧ vexW vex = true then 8 else prefixedOperandSize mode insn
    map := map
    opcode := byteAt insn v
    stop := v + 1 }

def layout : Option Layout :=
  let v := opcodeOffset mode insn
  let b := byteAt insn v
  if b = 0x0f then
    some <|
      if byteAt insn (v + 1) = 0x38 then legacyLayout mode insn .map0F38 (v + 2)
      else if byteAt insn (v + 1) = 0x3a then legacyLayout mode insn .map0F3A (v + 2)
      else legacyLayout mode insn .map0F (v + 1)
  else if b = 0xc4 then vexLayout mode insn ((fieldAt insn (v + 1) 2).setWidth 16) (v + 3)
  else if b = 0xc5 then vexLayout mode insn (shortVex (byteAt insn (v + 1))) (v + 2)
  else some (legacyLayout mode insn .oneByte v)

/-- The two bytes of a long VEX prefix are the last of the buffer and the first
behind it. -/
def VexStraddles : Prop :=
  opcodeOffset mode insn = 13 ∧ byteAt insn (opcodeOffset mode insn) = 0xc4

instance : Decidable (VexStraddles mode insn) := inferInstanceAs (Decidable (_ ∧ _))

end Format

/-! ## Operands -/

/-- The SIB byte and the displacement for a ModRM byte. -/
def modrmBytes (addressSize : ℕ) (modrm sib : BitVec 8) : ℕ :=
  let mod := modrmMod modrm
  if mod = 3 then 0
  else if addressSize = 2 then
    (if modrmRm modrm = 6 ∧ mod = 0 then 2 else 0) +
      (if mod = 1 then 1 else if mod = 2 then 2 else 0)
  else
    (if modrmRm modrm = 4 then 1 + (if sibBase sib = 5 ∧ mod = 0 then 4 else 0)
      else if mod = 0 ∧ modrmRm modrm = 5 then 4 else 0) +
    (if mod = 1 then 1 else if mod = 2 then 4 else 0)

/-- The bytes that belong to an operand. -/
def OpDecoder.bytes (operandSize addressSize : ℕ) (modrm sib : BitVec 8) : OpDecoder → ℕ
  | .modrmRm | .modrmRm8 | .modrmRm16 => modrmBytes addressSize modrm sib
  | .moffs => addressSize
  | .simm => min operandSize 4
  | .simm8 => 1
  | _ => 0

namespace Layout

variable (mode : EmMode) (insn : ℕ → BitVec 8) (l : Layout)

def hasModrm : Bool := (l.map.entry l.opcode).has insnModrm

def modrm : BitVec 8 := if l.hasModrm then byteAt insn l.stop else 0

/-- The offset after the ModRM byte. -/
def operandOffset : ℕ := if l.hasModrm then l.stop + 1 else l.stop

/-- The entry of the opcode, with its group resolved. -/
def entry : Option EmOpcode := resolveGroup (l.map.entry l.opcode) (modrmOpc (l.modrm insn))

def entrySize (e : EmOpcode) : ℕ :=
  let size := if e.has insnByteop then 1 else l.operandSize
  if e.has insnStack ∧ size = 4 ∧ mode = .prot64 then 8 else size

/-- The bytes of an operand that begins at the offset `v`. -/
def operandBytes (e : EmOpcode) (d : Option OpDecoder) (v : ℕ) : ℕ :=
  match d with
  | none => 0
  | some d =>
    d.bytes (l.entrySize mode e) (prefixedAddressSize mode insn) (l.modrm insn) (byteAt insn v)

/-- The offset after the last operand. -/
def length (e : EmOpcode) : ℕ :=
  let v := l.operandOffset
  let v := v + l.operandBytes mode insn e e.decodeDst v
  let v := v + l.operandBytes mode insn e e.decodeSrc1 v
  v + l.operandBytes mode insn e e.decodeSrc2 v

theorem stop_le_length (e : EmOpcode) : l.stop ≤ l.length mode insn e := by
  have offset : l.stop ≤ l.operandOffset := by
    unfold operandOffset
    split <;> omega
  simp only [length]
  omega

end Layout

/-- The buffer begins with an instruction that the tables implement: its layout
and its entry. -/
def Implements (mode : EmMode) (insn : ℕ → BitVec 8) (l : Layout) (e : EmOpcode) : Prop :=
  layout mode insn = some l ∧ l.entry insn = some e ∧
    (e.has insnNotimpl = false ∧ e.target ≠ .null) ∧
    (repeated insn = true → e.has insnString = true)

/-! ## Fetches -/

namespace Cursor

/-- The position after a fetch of `n` bytes. -/
def advance (n : ℕ) (k : Cursor) : Cursor where
  len := if instrMaxLen ≤ k.len then k.len else k.len + n
  fetches := k.fetches ++ [(k.len, n)]

/-- A fetch has read the last byte of the buffer and the first behind it. -/
def Straddled (k : Cursor) : Prop :=
  ∃ f ∈ k.fetches, f.1 < instrMaxLen ∧ instrMaxLen < f.1 + f.2

/-- All bytes up to the offset `v` have been fetched. Behind the buffer the
counter stands still. -/
structure At (v : ℕ) (k : Cursor) : Prop where
  within : v ≤ instrMaxLen → k.len = v ∧ ∀ f ∈ k.fetches, f.1 + f.2 ≤ v
  beyond : instrMaxLen < v → instrMaxLen ≤ k.len ∧ ∃ f ∈ k.fetches, instrMaxLen < f.1 + f.2

variable {k : Cursor} {v n : ℕ}

theorem At.len_ge_iff (h : k.At v) : instrMaxLen ≤ k.len ↔ instrMaxLen ≤ v := by
  rcases Nat.lt_or_ge instrMaxLen v with hv | hv
  · exact iff_of_true (h.beyond hv).1 hv.le
  · rw [(h.within hv).1]

theorem At.advance (h : k.At v) (pos : 0 < n) : (k.advance n).At (v + n) := by
  constructor
  · intro inside
    obtain ⟨len, good⟩ := h.within (by omega)
    have before : ¬ instrMaxLen ≤ k.len := by omega
    refine ⟨(if_neg before).trans (by rw [len]), ?_⟩
    intro f mem
    rcases List.mem_append.mp mem with old | new
    · exact (good f old).trans (Nat.le_add_right v n)
    · rw [List.mem_singleton.mp new, len]
  · intro outside
    by_cases hv : v ≤ instrMaxLen
    · obtain ⟨len, -⟩ := h.within hv
      refine ⟨?_, (k.len, n), List.mem_append_right _ (List.mem_singleton.mpr rfl), by simpa [len]⟩
      simp only [Cursor.advance]
      split <;> omega
    · obtain ⟨len, f, mem, bad⟩ := h.beyond (by omega)
      exact ⟨len.trans (if_pos len).ge, f, List.mem_append_left _ mem, bad⟩

/-- A byte that was looked at before is fetched again. -/
theorem at_of_peeked (len : k.len = v) (inside : v < instrMaxLen)
    (peeked : ∀ f ∈ k.fetches, f.1 + f.2 ≤ v + 1) : (k.advance 1).At (v + 1) := by
  have before : ¬ instrMaxLen ≤ k.len := by omega
  refine ⟨fun _ => ⟨(if_neg before).trans (by rw [len]), ?_⟩, fun outside => by omega⟩
  intro f mem
  rcases List.mem_append.mp mem with old | new
  · exact peeked f old
  · rw [List.mem_singleton.mp new, len]

theorem straddled_advance (h : k.At v) :
    (k.advance n).Straddled ↔ k.Straddled ∨ (v < instrMaxLen ∧ instrMaxLen < v + n) := by
  have last : k.len < instrMaxLen ∧ instrMaxLen < k.len + n ↔
      v < instrMaxLen ∧ instrMaxLen < v + n := by
    have ge := h.len_ge_iff
    rcases Nat.lt_or_ge v instrMaxLen with hv | hv
    · rw [(h.within hv.le).1]
    · exact iff_of_false (by omega) (by omega)
  simp only [Straddled, Cursor.advance, List.mem_append, List.mem_singleton, or_and_right,
    exists_or, exists_eq_left, last]

/-- A single byte does not straddle the end. -/
theorem straddled_advance_one : (k.advance 1).Straddled ↔ k.Straddled := by
  have last : ¬ (k.len < instrMaxLen ∧ instrMaxLen < k.len + 1) := by omega
  simp only [Straddled, Cursor.advance, List.mem_append, List.mem_singleton, or_and_right,
    exists_or, exists_eq_left, last, or_false]

theorem At.fieldAt (h : k.At v) (insn : ℕ → BitVec 8) :
    fieldAt insn k.len n = fieldAt insn v n := by
  have ge := h.len_ge_iff
  unfold Haxm.fieldAt
  rcases Nat.lt_or_ge v instrMaxLen with hv | hv
  · rw [(h.within hv.le).1]
  · rw [if_neg (by omega), if_neg (by omega)]

end Cursor

section Fetch

variable {insn : ℕ → BitVec 8} {c : EmContext} {v n : ℕ}

theorem setWidth_fieldAt_one : (fieldAt insn v 1).setWidth 8 = byteAt insn v := by
  unfold fieldAt byteAt
  split
  · simp [loadLe]
  · rfl

theorem Cursor.At.byteAt {k : Cursor} (h : k.At v) (insn : ℕ → BitVec 8) :
    byteAt insn k.len = byteAt insn v := by
  rw [← setWidth_fieldAt_one, ← setWidth_fieldAt_one, h.fieldAt]

theorem insnFetch_run (insn : ℕ → BitVec 8) (c : EmContext) :
    insnFetch n insn c =
      (fieldAt insn c.cursor.len n, { c with cursor := c.cursor.advance n }) := by
  unfold insnFetch fieldAt Cursor.advance
  by_cases h : instrMaxLen ≤ c.cursor.len
  · rw [if_pos h, if_neg (by omega), if_pos h]
  · rw [if_neg h, if_pos (by omega), if_neg h]

theorem insnFetchU8_run (insn : ℕ → BitVec 8) (c : EmContext) :
    insnFetchU8 insn c = (byteAt insn c.cursor.len, { c with cursor := c.cursor.advance 1 }) := by
  rw [insnFetchU8, Reader.map_run, insnFetch_run, setWidth_fieldAt_one]

theorem insnFetchU8_bind_run {α : Type} (f : BitVec 8 → Decode α) (insn : ℕ → BitVec 8)
    (c : EmContext) : (insnFetchU8 >>= f) insn c =
      f (byteAt insn c.cursor.len) insn { c with cursor := c.cursor.advance 1 } := by
  rw [Reader.bind_run, insnFetchU8_run]

end Fetch

/-! ## Prefixes -/

section Prefixes

variable {insn : ℕ → BitVec 8}

theorem length_prefixesFrom_le (n v : ℕ) : (prefixesFrom insn n v).length ≤ n := by
  induction n generalizing v with
  | zero => exact Nat.le_refl 0
  | succ n ih =>
    unfold prefixesFrom
    split
    · exact Nat.succ_le_succ (ih _)
    · exact Nat.zero_le _

/-- If the list is as long as it can be, there are nothing but prefixes. -/
theorem isSome_of_length_prefixesFrom {n v i : ℕ} (full : (prefixesFrom insn n v).length = n)
    (hi : i < n) : (legacyPrefix (insn (v + i))).isSome = true := by
  induction n generalizing v i with
  | zero => omega
  | succ n ih =>
    unfold prefixesFrom at full
    cases found : legacyPrefix (insn v) with
    | none => simp [found] at full
    | some p =>
      rw [found, List.length_cons, Nat.succ_inj] at full
      cases i with
      | zero => simp [found]
      | succ i =>
        rw [← Nat.add_assoc, Nat.add_right_comm]
        exact ih full (by omega)

theorem legacyPrefix_zero : legacyPrefix 0 = none := by decide

/-- The loop takes the prefixes, looks at the byte after them and gives it back. -/
theorem decodePrefixesLoop_run {n fuel : ℕ} {c : EmContext} (enough : n + 1 ≤ fuel)
    (start : c.cursor.len + n = instrMaxLen) :
    decodePrefixesLoop fuel insn c =
      ((), { c with
        prefixes := (prefixesFrom insn n c.cursor.len).foldl applyPrefix c.prefixes
        cursor := {
          len := min (c.cursor.len + (prefixesFrom insn n c.cursor.len).length) 14
          fetches := c.cursor.fetches ++
            (List.range ((prefixesFrom insn n c.cursor.len).length + 1)).map
              fun i => (c.cursor.len + i, 1) } }) := by
  induction n generalizing fuel c with
  | zero =>
    obtain ⟨fuel, rfl⟩ : ∃ k, fuel = k + 1 := ⟨fuel - 1, by omega⟩
    have len : c.cursor.len = 15 := start
    have byte : byteAt insn c.cursor.len = 0 := if_neg (by rw [len]; decide)
    have back : (c.cursor.advance 1).back =
        { len := 14, fetches := c.cursor.fetches ++ [(c.cursor.len, 1)] } := by
      simp [Cursor.advance, Cursor.back, len, instrMaxLen]
    rw [decodePrefixesLoop, insnFetchU8_bind_run, byte, legacyPrefix_zero]
    show ((), { c with cursor := (c.cursor.advance 1).back }) = _
    rw [back]
    simp only [prefixesFrom, List.length_nil, len]
    rfl
  | succ n ih =>
    obtain ⟨fuel, rfl⟩ : ∃ k, fuel = k + 1 := ⟨fuel - 1, by omega⟩
    have inside : c.cursor.len < instrMaxLen := by omega
    have byte : byteAt insn c.cursor.len = insn c.cursor.len := if_pos inside
    rw [decodePrefixesLoop, insnFetchU8_bind_run, byte]
    cases found : legacyPrefix (insn c.cursor.len) with
    | none =>
      have small : min c.cursor.len 14 = c.cursor.len := by
        simp only [instrMaxLen] at inside
        omega
      have back : (c.cursor.advance 1).back =
          { len := c.cursor.len, fetches := c.cursor.fetches ++ [(c.cursor.len, 1)] } := by
        simp [Cursor.advance, Cursor.back, show ¬ instrMaxLen ≤ c.cursor.len by omega]
      have list : prefixesFrom insn (n + 1) c.cursor.len = [] := by
        rw [prefixesFrom, found]
      show ((), { c with cursor := (c.cursor.advance 1).back }) = _
      rw [back, list, List.length_nil, Nat.add_zero, small]
      rfl
    | some p =>
      have advanced : c.cursor.advance 1 =
          { len := c.cursor.len + 1, fetches := c.cursor.fetches ++ [(c.cursor.len, 1)] } := by
        simp only [Cursor.advance, if_neg (show ¬ instrMaxLen ≤ c.cursor.len by omega)]
      have list : prefixesFrom insn (n + 1) c.cursor.len =
          p :: prefixesFrom insn n (c.cursor.len + 1) := by
        rw [prefixesFrom, found]
      have spans (m : ℕ) : (List.range (m + 1 + 1)).map (fun i => (c.cursor.len + i, 1)) =
          (c.cursor.len, 1) :: (List.range (m + 1)).map fun i => (c.cursor.len + 1 + i, 1) := by
        rw [List.range_succ_eq_map, List.map_cons, List.map_map]
        simp [Function.comp_def, Nat.add_assoc, Nat.add_comm 1]
      show decodePrefixesLoop fuel insn
        { c with cursor := c.cursor.advance 1, prefixes := applyPrefix c.prefixes p } = _
      rw [advanced, ih (by omega) (show c.cursor.len + 1 + n = instrMaxLen by omega), list]
      dsimp only
      rw [List.length_cons, spans, List.foldl_cons, List.append_assoc, List.singleton_append,
        Nat.add_right_comm, Nat.add_assoc]

/-- The repeat prefix that is left when those of `ps` follow `rep`. -/
def repAfter (rep : BitVec 8) (ps : List LegacyPrefix) : BitVec 8 :=
  ps.foldl (fun rep p => match p with | .rep b => b | _ => rep) rep

def segmentAfter (seg : EmSegment) (ps : List LegacyPrefix) : EmSegment :=
  ps.foldl (fun seg p => match p with | .segment s => s | _ => seg) seg

theorem applyPrefixes_eq (ps : List LegacyPrefix) (s : PrefixSet) :
    ps.foldl applyPrefix s =
      { lock := if LegacyPrefix.lock ∈ ps then prefixLock else s.lock
        rep := repAfter s.rep ps
        overrideSegment := segmentAfter s.overrideSegment ps
        overrideOperandSize := s.overrideOperandSize || decide (LegacyPrefix.operandSize ∈ ps)
        overrideAddressSize := s.overrideAddressSize ||
          decide (LegacyPrefix.addressSize ∈ ps) } := by
  induction ps generalizing s with
  | nil => simp [repAfter, segmentAfter]
  | cons p ps ih =>
    rw [List.foldl_cons, ih]
    cases p <;> simp [applyPrefix, repAfter, segmentAfter]

theorem legacyPrefix_rep {b r : BitVec 8} (h : legacyPrefix b = some (.rep r)) : r ≠ 0 := by
  have all : ∀ b, legacyPrefix b ≠ some (.rep 0) := by decide
  rintro rfl
  exact all b h

theorem rep_ne_zero_of_mem {n v : ℕ} {r : BitVec 8}
    (h : LegacyPrefix.rep r ∈ prefixesFrom insn n v) : r ≠ 0 := by
  induction n generalizing v with
  | zero => simp [prefixesFrom] at h
  | succ n ih =>
    unfold prefixesFrom at h
    cases found : legacyPrefix (insn v) with
    | none => simp [found] at h
    | some p =>
      rw [found, List.mem_cons] at h
      rcases h with rfl | h
      · exact legacyPrefix_rep found
      · exact ih h

/-- The prefixes as the decoder notes them down. -/
def prefixSet (insn : ℕ → BitVec 8) : PrefixSet := (legacyPrefixes insn).foldl applyPrefix {}

theorem repAfter_ne_zero {ps : List LegacyPrefix} (nonzero : ∀ r, LegacyPrefix.rep r ∈ ps → r ≠ 0)
    (rep : BitVec 8) : repAfter rep ps ≠ 0 ↔ rep ≠ 0 ∨ ps.any LegacyPrefix.isRep = true := by
  induction ps generalizing rep with
  | nil => simp [repAfter]
  | cons p ps ih =>
    have rest := fun r h => nonzero r (List.mem_cons_of_mem _ h)
    unfold repAfter at ih ⊢
    rw [List.foldl_cons, ih rest]
    cases p with
    | rep r =>
      have hr := nonzero r List.mem_cons_self
      exact iff_of_true (.inl hr) (.inr (by simp [LegacyPrefix.isRep]))
    | _ => simp [LegacyPrefix.isRep]

/-- A repeat prefix is noted if there is one. -/
theorem repAfter_eq_zero : repAfter 0 (legacyPrefixes insn) = 0 ↔ repeated insn = false := by
  have nonzero : ∀ r, LegacyPrefix.rep r ∈ legacyPrefixes insn → r ≠ 0 :=
    fun _ => rep_ne_zero_of_mem
  have h := repAfter_ne_zero nonzero 0
  rw [← not_iff_not, ← ne_eq, h]
  simp [repeated]

theorem prefixSet_rep : (prefixSet insn).rep = 0 ↔ repeated insn = false := by
  rw [prefixSet, applyPrefixes_eq, ← repAfter_eq_zero]

/-- Only string instructions are repeated. -/
theorem Implements.rep_eq_zero {mode : EmMode} {l : Layout} {e : EmOpcode}
    (imp : Implements mode insn l e) (single : e.has insnString = false) :
    (prefixSet insn).rep = 0 := by
  refine prefixSet_rep.mpr (Bool.eq_false_iff.mpr fun again => ?_)
  rw [imp.2.2.2 again] at single
  cases single

theorem prefixSet_lock :
    (prefixSet insn).lock = 0 ↔ LegacyPrefix.lock ∉ legacyPrefixes insn := by
  rw [prefixSet, applyPrefixes_eq]
  by_cases h : LegacyPrefix.lock ∈ legacyPrefixes insn
  · simp [h, prefixLock]
  · simp [h]

theorem prefixSet_operandSize : (prefixSet insn).overrideOperandSize =
    decide (LegacyPrefix.operandSize ∈ legacyPrefixes insn) := by
  rw [prefixSet, applyPrefixes_eq]
  exact Bool.false_or _

theorem prefixSet_addressSize : (prefixSet insn).overrideAddressSize =
    decide (LegacyPrefix.addressSize ∈ legacyPrefixes insn) := by
  rw [prefixSet, applyPrefixes_eq]
  exact Bool.false_or _

end Prefixes

end Haxm
