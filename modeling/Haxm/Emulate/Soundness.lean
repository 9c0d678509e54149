/-
# The decoder against the manual

An accepted instruction should be carried out by the handler of its operation,
and have the length that the manual gives to it. The tables agree with the
manual opcode by opcode, but for TEST with the digit 1. What the tables do not
say is not checked: which opcodes are invalid in 64-bit mode, which need VEX,
which fields VEX must have, and where LOCK is allowed.
-/

import Haxm.Emulate.DecodeSteps
import Haxm.Emulate.Sdm

namespace Haxm

variable {bytes : ℕ → BitVec 8} {o : Sdm.OpcodeField}

/-! ## Entries and forms -/

/-- The handler that carries an operation out. -/
def Sdm.Mnemonic.handler : Sdm.Mnemonic → Handler
  | .add => .add
  | .or => .or
  | .adc => .adc
  | .sbb => .sbb
  | .and => .and
  | .sub => .sub
  | .xor => .xor
  | .cmp | .cmps => .cmp
  | .inc => .inc
  | .dec => .dec
  | .push => .push
  | .pop => .pop
  | .test => .test
  | .mov | .movs | .stos | .lods => .mov
  | .not => .not
  | .neg => .neg
  | .bt => .bt
  | .bts => .bts
  | .btr => .btr
  | .btc => .btc
  | .movzx => .movzx
  | .movsx => .movsx
  | .andn => .andnSoft
  | .bextr => .bextrSoft

/-- The field that a decoder takes from the buffer. -/
def OpDecoder.field (byteop : Bool) : OpDecoder → Option Sdm.Field
  | .modrmRm | .modrmRm8 | .modrmRm16 => some .address
  | .moffs => some .moffs
  | .simm => some (if byteop then .ib else .iz)
  | .simm8 => some .ib
  | _ => Option.none

/-- The field of an operand. -/
def EmOpcode.field (e : EmOpcode) (d : Option OpDecoder) : Option Sdm.Field :=
  d.bind (OpDecoder.field (e.has insnByteop))

def EmOpcode.fields (e : EmOpcode) : List Sdm.Field :=
  [e.decodeDst, e.decodeSrc1, e.decodeSrc2].filterMap e.field

/-- The handlers of the operations that LOCK is defined for. -/
def Handler.lockable : Handler → Bool
  | .add | .or | .adc | .sbb | .and | .sub | .xor | .not | .neg | .inc | .dec
  | .bts | .btr | .btc => true
  | _ => false

/-- LOCK is allowed if the destination is in memory, and it can be there. -/
def EmOpcode.lockable (e : EmOpcode) : Bool :=
  match e.target with
  | .handler h => h.lockable && e.decodeDst == some .modrmRm
  | _ => false

/-- One-byte opcodes that 64-bit mode does not have: INC and DEC, whose bytes are
REX prefixes there, and the copy of group 1. -/
def not64 (m : OpcodeMap) (b : ℕ) : Bool :=
  m == .oneByte && (decide (0x40 ≤ b ∧ b ≤ 0x4f) || b == 0x82)

/-- Group 3 with the digit 1. -/
def test1 (m : OpcodeMap) (b digit : ℕ) : Bool :=
  m == .oneByte && (b == 0xf6 || b == 0xf7) && digit == 1

/-- The entry `o` of the byte `b`, with its group resolved, is the form of the
manual. -/
def agrees (m : OpcodeMap) (o : EmOpcode) (b digit : ℕ) : Bool :=
  (!o.has insnGroup || o.has insnModrm) &&
    match resolveGroup o (BitVec.ofNat 3 digit) with
    | none => true
    | some e =>
      if e.has insnNotimpl || e.target == .null then true
      else match Sdm.find m b digit with
        | none => test1 m b digit && o.has insnModrm
        | some f =>
          e.target == .handler f.mnemonic.handler && f.modrm == o.has insnModrm &&
            f.fields == e.fields && f.lockable == e.lockable && f.in64 == !not64 m b &&
            f.vex == (m == .map0F38) && (!f.vex || f.fields == [.address]) && !test1 m b digit

theorem table_agrees (m : OpcodeMap) :
    (m.table.zipIdx.all fun e => (List.range 8).all fun digit => agrees m e.1 e.2 digit) =
      true := by
  cases m <;> decide +kernel

/-- The entry `e` of the byte `b` and the form `f` say the same. -/
structure FormOf (m : OpcodeMap) (b digit : ℕ) (o e : EmOpcode) (f : Sdm.Form) : Prop where
  found : Sdm.find m b digit = some f
  handler : e.target = .handler f.mnemonic.handler
  modrm : f.modrm = o.has insnModrm
  fields : f.fields = e.fields
  lockable : f.lockable = e.lockable
  in64 : f.in64 = !not64 m b
  vex : f.vex = (m == .map0F38)
  vexFields : f.vex = true → f.fields = [.address]
  defined : test1 m b digit = false

section Entries

variable {m : OpcodeMap} {b : BitVec 8} {e : EmOpcode}

theorem agrees_entry (m : OpcodeMap) (b : BitVec 8) (d : BitVec 3) :
    agrees m (m.entry b) b.toNat d.toNat = true := by
  have all := OpcodeMap.entry_of_all m
    (P := fun o i => (List.range 8).all fun digit => agrees m o i digit) (table_agrees m) b
  exact List.all_eq_true.mp all d.toNat (List.mem_range.mpr d.isLt)

theorem hasModrm_of_hasGroup (group : (m.entry b).has insnGroup = true) :
    (m.entry b).has insnModrm = true := by
  have all := agrees_entry m b 0
  simp only [agrees, group, Bool.not_true, Bool.false_or, Bool.and_eq_true] at all
  exact all.1

/-- An implemented entry is the form of the manual, unless it is TEST with the digit 1. -/
theorem formOf_entry {d : BitVec 3} (resolved : resolveGroup (m.entry b) d = some e)
    (implemented : e.has insnNotimpl = false ∧ e.target ≠ .null) :
    (∃ f, FormOf m b.toNat d.toNat (m.entry b) e f) ∨
      (Sdm.find m b.toNat d.toNat = none ∧ test1 m b.toNat d.toNat = true ∧
        (m.entry b).has insnModrm = true) := by
  have all := agrees_entry m b d
  have target : (e.target == .null) = false := beq_eq_false_iff_ne.mpr implemented.2
  simp only [agrees, BitVec.ofNat_toNat, BitVec.setWidth_eq, resolved, implemented.1, target,
    Bool.or_self, Bool.false_eq_true, if_false, Bool.and_eq_true] at all
  obtain ⟨-, all⟩ := all
  cases found : Sdm.find m b.toNat d.toNat with
  | none =>
    rw [found, Bool.and_eq_true] at all
    exact .inr ⟨rfl, all⟩
  | some f =>
    simp only [found, Bool.and_eq_true, beq_iff_eq, Bool.or_eq_true, Bool.not_eq_true'] at all
    obtain ⟨⟨⟨⟨⟨⟨⟨handler, modrm⟩, fields⟩, lockable⟩, in64⟩, vex⟩, vexFields⟩, defined⟩ := all
    refine .inl ⟨f, found, handler, modrm, fields, lockable, in64, vex, ?_, defined⟩
    intro h
    exact vexFields.resolve_left (by rw [h]; decide)

end Entries

/-! ## Lengths -/

section Lengths

theorem addressBytes_eq {addressSize : ℕ}
    (size : addressSize = 2 ∨ addressSize = 4 ∨ addressSize = 8) (modrm sib : BitVec 8) :
    Sdm.addressBytes addressSize modrm sib = modrmBytes addressSize modrm sib := by
  unfold Sdm.addressBytes modrmBytes
  generalize modrmMod modrm = mod
  generalize modrmRm modrm = rm
  generalize sibBase sib = base
  revert mod rm base
  rcases size with rfl | rfl | rfl <;> decide

variable {mode : EmMode} {insn : ℕ → BitVec 8} {l : Layout} {e : EmOpcode}

section Sized

variable (size : l.operandSize = 2 ∨ l.operandSize = 4 ∨ l.operandSize = 8)

include size

/-- The bytes of an operand are those of its field. -/
theorem Layout.operandBytes_eq (d : Option OpDecoder) (v : ℕ) :
    l.operandBytes mode insn e d v =
      match e.field d with
      | some f =>
        f.size l.operandSize (prefixedAddressSize mode insn) (l.modrm insn) (byteAt insn v)
      | none => 0 := by
  have address := addressBytes_eq (@prefixedAddressSize_cases mode insn) (l.modrm insn)
    (byteAt insn v)
  have immediate : min (l.entrySize mode e) 4 =
      if e.has insnByteop = true then 1 else if l.operandSize = 2 then 2 else 4 := by
    simp only [entrySize]
    split_ifs <;> omega
  rcases d with _ | d
  · rfl
  cases d with
  | modrmRm => exact address.symm
  | modrmRm8 => exact address.symm
  | modrmRm16 => exact address.symm
  | simm =>
    refine immediate.trans ?_
    unfold EmOpcode.field
    cases e.has insnByteop <;> rfl
  | _ => rfl

/-- Operand by operand and field by field. -/
theorem Layout.fieldsEnd_filterMap (ds : List (Option OpDecoder)) (v : ℕ) :
    Sdm.fieldsEnd (byteAt insn) l.operandSize (prefixedAddressSize mode insn) (l.modrm insn)
        (ds.filterMap e.field) v =
      ds.foldl (fun v d => v + l.operandBytes mode insn e d v) v := by
  induction ds generalizing v with
  | nil => rfl
  | cons d ds ih =>
    have bytes := @Layout.operandBytes_eq mode insn l e size d v
    cases field : e.field d with
    | none =>
      rw [field] at bytes
      rw [List.filterMap_cons_none field, List.foldl_cons, bytes]
      exact ih v
    | some f =>
      rw [field] at bytes
      rw [List.filterMap_cons_some field, List.foldl_cons, bytes]
      exact ih _

theorem Layout.length_eq :
    l.length mode insn e =
      Sdm.fieldsEnd (byteAt insn) l.operandSize (prefixedAddressSize mode insn) (l.modrm insn)
        e.fields l.operandOffset :=
  (l.fieldsEnd_filterMap size [e.decodeDst, e.decodeSrc1, e.decodeSrc2] l.operandOffset).symm

end Sized

end Lengths

/-! ## Prefixes -/

section Prefixes

variable {mode : EmMode} {insn : ℕ → BitVec 8}

/-- What precedes the opcode, as the decoder divides the buffer. -/
def sdmHead (mode : EmMode) (insn : ℕ → BitVec 8) : Sdm.Head where
  prefixes := legacyPrefixes insn
  rex := if hasRex mode insn then some (byteAt insn (rexOffset insn)) else none
  offset := opcodeOffset mode insn

/-- The scan takes the legacy prefixes first. -/
theorem scan_prefixes {n v : ℕ} (inside : v + n = 15) (ps : List LegacyPrefix) :
    Sdm.scan mode (byteAt insn) n { prefixes := ps, offset := v } =
      Sdm.scan mode (byteAt insn) (n - (prefixesFrom insn n v).length)
        { prefixes := ps ++ prefixesFrom insn n v,
          offset := v + (prefixesFrom insn n v).length } := by
  induction n generalizing v ps with
  | zero => simp [prefixesFrom]
  | succ n ih =>
    have byte : byteAt insn v = insn v := if_pos (show v < 15 by omega)
    cases found : legacyPrefix (insn v) with
    | none => simp [prefixesFrom, found]
    | some p =>
      have list : prefixesFrom insn (n + 1) v = p :: prefixesFrom insn n (v + 1) := by
        rw [prefixesFrom, found]
      rw [list, Sdm.scan, byte, found]
      dsimp only
      rw [ih (by omega), List.length_cons, List.append_assoc, List.singleton_append,
        Nat.add_sub_add_right, Nat.add_right_comm v 1, Nat.add_assoc v]

/-- After the legacy prefixes there is none. -/
theorem legacyPrefix_after {n v : ℕ} (short : (prefixesFrom insn n v).length < n) :
    legacyPrefix (insn (v + (prefixesFrom insn n v).length)) = none := by
  induction n generalizing v with
  | zero => omega
  | succ n ih =>
    cases found : legacyPrefix (insn v) with
    | none => simp [prefixesFrom, found]
    | some p =>
      have list : prefixesFrom insn (n + 1) v = p :: prefixesFrom insn n (v + 1) := by
        rw [prefixesFrom, found]
      rw [list, List.length_cons] at short ⊢
      rw [← Nat.add_assoc, Nat.add_right_comm]
      exact ih (by omega)

variable {l : Layout} {e : EmOpcode}

theorem plain_of_isRex {b : BitVec 8} (h : isRex b = true) : b ≠ 0x0f ∧ b ≠ 0xc4 ∧ b ≠ 0xc5 := by
  have all : ∀ b, isRex b = true → b ≠ 0x0f ∧ b ≠ 0xc4 ∧ b ≠ 0xc5 := by decide
  exact all b h

/-- Both divisions of the buffer find the opcode at the same offset, unless REX is
followed by another byte of its kind. -/
theorem scan_eq_sdmHead (imp : Implements mode insn l e)
    (single : ¬ (mode = .prot64 ∧ l.map = .oneByte ∧ isRex l.opcode = true)) :
    Sdm.scan mode (byteAt insn) 15 {} = sdmHead mode insn := by
  have short : (legacyPrefixes insn).length < 15 := by
    by_contra long
    exact not_implements_of_full (le_antisymm (length_prefixesFrom_le _ _) (not_lt.mp long)) l e imp
  have offset : rexOffset insn = (legacyPrefixes insn).length :=
    Nat.min_eq_left (Nat.le_of_lt_succ short)
  have after : legacyPrefix (byteAt insn (legacyPrefixes insn).length) = none := by
    have next := legacyPrefix_after short
    rw [Nat.zero_add] at next
    rw [byteAt, if_pos (show (legacyPrefixes insn).length < instrMaxLen from short)]
    exact next
  have opcode : ¬ (mode = .prot64 ∧ isRex (byteAt insn (opcodeOffset mode insn)) = true) := by
    rintro ⟨long, rex⟩
    obtain ⟨no0F, noC4, noC5⟩ := plain_of_isRex rex
    have known := imp.1
    simp only [layout, if_neg no0F, if_neg noC4, if_neg noC5, Option.some.injEq] at known
    rw [← known] at single
    exact single ⟨long, rfl, rex⟩
  have prefixes := @scan_prefixes mode insn 15 0 rfl []
  rw [List.nil_append, Nat.zero_add] at prefixes
  refine prefixes.trans ?_
  obtain ⟨n, fuel⟩ : ∃ n, 15 - (legacyPrefixes insn).length = n + 1 :=
    ⟨14 - (legacyPrefixes insn).length, by omega⟩
  show Sdm.scan mode (byteAt insn) (15 - (legacyPrefixes insn).length)
    { prefixes := legacyPrefixes insn, offset := (legacyPrefixes insn).length } = _
  rw [fuel, Sdm.scan]
  dsimp only
  rw [after]
  by_cases rex : hasRex mode insn = true
  · have here : mode = .prot64 ∧ isRex (byteAt insn (legacyPrefixes insn).length) = true := by
      rw [hasRex, offset, Bool.and_eq_true, decide_eq_true_eq] at rex
      exact rex
    have next : opcodeOffset mode insn = (legacyPrefixes insn).length + 1 := by
      rw [opcodeOffset, if_pos rex, offset]
    have head : sdmHead mode insn = {
        prefixes := legacyPrefixes insn
        rex := some (byteAt insn (legacyPrefixes insn).length)
        offset := (legacyPrefixes insn).length + 1 } := by
      rw [sdmHead, if_pos rex, offset, next]
    dsimp only
    rw [if_pos here, head]
    -- The scan looks at one more byte, unless the buffer ends here.
    cases n with
    | zero => rfl
    | succ n =>
      rw [Sdm.scan]
      dsimp only
      rw [← next, imp.legacyPrefix_eq_none]
      exact if_neg opcode
  · have here : ¬ (mode = .prot64 ∧ isRex (byteAt insn (legacyPrefixes insn).length) = true) := by
      rw [hasRex, offset, Bool.and_eq_true, decide_eq_true_eq] at rex
      exact rex
    dsimp only
    rw [if_neg here, sdmHead, if_neg rex, opcodeOffset, if_neg rex, offset]

end Prefixes

/-! ## Opcodes -/

section Opcodes

variable {mode : EmMode} {insn : ℕ → BitVec 8} {l : Layout}

theorem sdmHead_addressSize :
    (sdmHead mode insn).addressSize mode = prefixedAddressSize mode insn := by
  unfold Sdm.Head.addressSize prefixedAddressSize sdmHead
  dsimp only
  split <;> cases mode <;> rfl

theorem sdmHead_rexW : (sdmHead mode insn).rexW = rexW (rexByte mode insn) := by
  unfold Sdm.Head.rexW sdmHead rexByte
  dsimp only
  by_cases rex : hasRex mode insn = true
  · rw [if_pos rex, if_pos rex]
    rfl
  · rw [if_neg rex, if_neg rex]
    rfl

theorem sdmHead_operandSize : (sdmHead mode insn).operandSize mode =
    if rexW (rexByte mode insn) then 8 else prefixedOperandSize mode insn := by
  unfold Sdm.Head.operandSize prefixedOperandSize
  rw [sdmHead_rexW]
  congr 1
  unfold sdmHead
  dsimp only
  split <;> cases mode <;> rfl

/-- The fields L and pp of the VEX prefix. -/
def Layout.vexLpp (l : Layout) : Option (BitVec 3) := l.vex.map (·.extractLsb' 8 3)

/-- The opcode in the terms of the manual. -/
def Layout.opcodeField (l : Layout) : Sdm.OpcodeField where
  vex := l.vexLpp
  map := l.map
  stop := l.stop

variable (mode insn) in
/-- The ways to an opcode. -/
inductive LayoutCase : Layout → Prop
  | map0F38 (is0F : byteAt insn (opcodeOffset mode insn) = 0x0f)
      (is38 : byteAt insn (opcodeOffset mode insn + 1) = 0x38) :
      LayoutCase (legacyLayout mode insn .map0F38 (opcodeOffset mode insn + 2))
  | map0F3A (is0F : byteAt insn (opcodeOffset mode insn) = 0x0f)
      (no38 : byteAt insn (opcodeOffset mode insn + 1) ≠ 0x38)
      (is3A : byteAt insn (opcodeOffset mode insn + 1) = 0x3a) :
      LayoutCase (legacyLayout mode insn .map0F3A (opcodeOffset mode insn + 2))
  | map0F (is0F : byteAt insn (opcodeOffset mode insn) = 0x0f)
      (no38 : byteAt insn (opcodeOffset mode insn + 1) ≠ 0x38)
      (no3A : byteAt insn (opcodeOffset mode insn + 1) ≠ 0x3a) :
      LayoutCase (legacyLayout mode insn .map0F (opcodeOffset mode insn + 1))
  | long {l : Layout} (isC4 : byteAt insn (opcodeOffset mode insn) = 0xc4)
      (known : vexLayout mode insn ((fieldAt insn (opcodeOffset mode insn + 1) 2).setWidth 16)
        (opcodeOffset mode insn + 3) = some l) : LayoutCase l
  | short {l : Layout} (isC5 : byteAt insn (opcodeOffset mode insn) = 0xc5)
      (known : vexLayout mode insn (shortVex (byteAt insn (opcodeOffset mode insn + 1)))
        (opcodeOffset mode insn + 2) = some l) : LayoutCase l
  | oneByte (no0F : byteAt insn (opcodeOffset mode insn) ≠ 0x0f)
      (noVex : ¬ (byteAt insn (opcodeOffset mode insn) = 0xc4 ∨
        byteAt insn (opcodeOffset mode insn) = 0xc5)) :
      LayoutCase (legacyLayout mode insn .oneByte (opcodeOffset mode insn))

theorem layout_cases (known : layout mode insn = some l) : LayoutCase mode insn l := by
  unfold layout at known
  dsimp only at known
  split_ifs at known with is0F is38 is3A isC4 isC5
  · exact Option.some.inj known ▸ .map0F38 is0F is38
  · exact Option.some.inj known ▸ .map0F3A is0F is38 is3A
  · exact Option.some.inj known ▸ .map0F is0F is38 is3A
  · exact .long isC4 known
  · exact .short isC5 known
  · exact Option.some.inj known ▸ .oneByte is0F (not_or.mpr ⟨isC4, isC5⟩)

/-- A layout with a VEX prefix. -/
theorem vexLayout_some {vex : BitVec 16} {v : ℕ} (known : vexLayout mode insn vex v = some l) :
    ¬ (mode ≠ .prot64 ∧ (vexR vex = false ∨ vexX vex = false) ∨ vexForbidden mode insn = true) ∧
      ∃ m, vexMap vex = some m ∧ l.map = m ∧ l.vex = some vex ∧ l.stop = v + 1 ∧
        l.opcode = byteAt insn v := by
  unfold vexLayout at known
  split at known
  · cases known
  · rename_i allowed
    obtain ⟨m, map, rfl⟩ := Option.map_eq_some_iff.mp known
    exact ⟨allowed, m, map, rfl, rfl, rfl, rfl⟩

/-- Without VEX the opcodes are the same. -/
theorem opcodeField_legacy (known : layout mode insn = some l) (legacy : l.vex = none) :
    Sdm.opcodeField mode (byteAt insn) (sdmHead mode insn) = some l.opcodeField ∧
      l.operandSize = (sdmHead mode insn).operandSize mode := by
  rw [sdmHead_operandSize]
  unfold Sdm.opcodeField
  dsimp only [sdmHead]
  cases layout_cases known with
  | map0F38 is0F is38 =>
    rw [if_pos is0F, if_pos is38]
    exact ⟨rfl, rfl⟩
  | map0F3A is0F no38 is3A =>
    rw [if_pos is0F, if_neg no38, if_pos is3A]
    exact ⟨rfl, rfl⟩
  | map0F is0F no38 no3A =>
    rw [if_pos is0F, if_neg no38, if_neg no3A]
    exact ⟨rfl, rfl⟩
  | long _ vex | short _ vex =>
    obtain ⟨-, m, -, -, some, -⟩ := vexLayout_some vex
    rw [legacy] at some
    cases some
  | oneByte no0F noVex =>
    rw [if_neg no0F, if_neg noVex]
    exact ⟨rfl, rfl⟩

/-! ### VEX -/

theorem sdmHead_forbidsVex : (sdmHead mode insn).forbidsVex = vexForbidden mode insn := by
  have rex : (sdmHead mode insn).rex.isSome = (rexByte mode insn != 0) := by
    unfold sdmHead rexByte
    by_cases rex : hasRex mode insn = true
    · have isRex : isRex (byteAt insn (rexOffset insn)) = true := (Bool.and_eq_true_iff.mp rex).2
      have all : ∀ b, Haxm.isRex b = true → (b != 0) = true := by decide
      simp only [if_pos rex, Option.isSome_some, all _ isRex]
    · simp only [if_neg rex, Option.isSome_none]
      rfl
  unfold Sdm.Head.forbidsVex vexForbidden
  rw [rex]
  congr 1
  rw [Bool.eq_iff_iff]
  simp only [sdmHead, repeated, List.any_eq_true, Bool.or_eq_true, beq_iff_eq, decide_eq_true_eq]
  constructor
  · rintro ⟨p, mem, (rfl | rep) | rfl⟩
    · exact .inl (.inl mem)
    · exact .inl (.inr ⟨p, mem, rep⟩)
    · exact .inr mem
  · rintro ((mem | ⟨p, mem, rep⟩) | mem)
    · exact ⟨_, mem, .inl (.inl rfl)⟩
    · exact ⟨p, mem, .inl (.inr rep)⟩
    · exact ⟨_, mem, .inr rfl⟩

theorem fieldAt_two {v : ℕ} (inside : v + 1 < instrMaxLen) :
    (fieldAt insn v 2).setWidth 16 = byteAt insn (v + 1) ++ byteAt insn v := by
  have here : v < instrMaxLen := by omega
  rw [fieldAt, byteAt, byteAt, if_pos here, if_pos inside, if_pos here]
  apply BitVec.eq_of_getLsbD_eq
  intro i hi
  simp only [loadLe, BitVec.getLsbD_setWidth, BitVec.getLsbD_or, BitVec.getLsbD_shiftLeft,
    BitVec.getLsbD_append]
  by_cases low : i < 8
  · simp [low, hi, show i < 64 by omega]
  · have none := BitVec.getLsbD_of_ge (insn v) i (by omega)
    simp [low, hi, none, show i < 64 by omega, show i - 8 < 64 by omega]

/-- The fields of the two bytes of a long VEX prefix. -/
theorem vex_append (b₂ b₁ : BitVec 8) :
    ((vexR (b₂ ++ b₁) = false ∨ vexX (b₂ ++ b₁) = false) ↔ b₁ < 0xc0) ∧
      vexM (b₂ ++ b₁) = b₁.extractLsb' 0 5 ∧ (b₂ ++ b₁).extractLsb' 8 3 = b₂.extractLsb' 0 3 := by
  refine ⟨?_, ?_, ?_⟩
  · have all : ∀ b : BitVec 8, (b.getLsbD 7 = false ∨ b.getLsbD 6 = false) ↔ b < 0xc0 := by decide
    simp only [vexR, vexX, BitVec.getLsbD_append]
    exact all b₁
  · apply BitVec.eq_of_getLsbD_eq
    intro i hi
    simp only [vexM, BitVec.getLsbD_extractLsb', BitVec.getLsbD_append, Nat.zero_add,
      if_pos (show i < 8 by omega)]
  · apply BitVec.eq_of_getLsbD_eq
    intro i hi
    simp only [BitVec.getLsbD_extractLsb', BitVec.getLsbD_append, Nat.zero_add,
      if_neg (show ¬ 8 + i < 8 by omega), Nat.add_sub_cancel_left]

/-- The fields of a short VEX prefix. -/
theorem vex_short (b : BitVec 8) :
    (b ≥ 0xc0 → vexR (shortVex b) = true ∧ vexX (shortVex b) = true) ∧
      vexM (shortVex b) = 1 ∧ (shortVex b).extractLsb' 8 3 = b.extractLsb' 0 3 := by
  revert b
  decide

/-- The map of a long VEX prefix. -/
theorem vexMap_eq (vex : BitVec 16) :
    vexMap vex = match (vexM vex).toNat with
      | 1 => some .map0F
      | 2 => some .map0F38
      | 3 => some .map0F3A
      | _ => none := by
  unfold vexMap
  generalize vexM vex = m
  revert m
  decide

theorem opcodeField_eq_vexOpcode (isVex : byteAt insn (opcodeOffset mode insn) = 0xc4 ∨
      byteAt insn (opcodeOffset mode insn) = 0xc5) :
    Sdm.opcodeField mode (byteAt insn) (sdmHead mode insn) =
      Sdm.vexOpcode mode (byteAt insn) (sdmHead mode insn) := by
  have no0F : byteAt insn (opcodeOffset mode insn) ≠ 0x0f := by
    rcases isVex with h | h <;> rw [h] <;> decide
  exact (if_neg no0F).trans (if_pos isVex)

/-- A long VEX prefix that is in the buffer. -/
theorem vexOpcode_long (isC4 : byteAt insn (opcodeOffset mode insn) = 0xc4)
    (inside : opcodeOffset mode insn + 2 < instrMaxLen) :
    Sdm.vexOpcode mode (byteAt insn) (sdmHead mode insn) =
      if mode = .real then none else (layout mode insn).map Layout.opcodeField := by
  obtain ⟨limit, map, lpp⟩ := vex_append (byteAt insn (opcodeOffset mode insn + 2))
    (byteAt insn (opcodeOffset mode insn + 1))
  have no0F : (0xc4 : BitVec 8) ≠ 0x0f := by decide
  have noC5 : (0xc4 : BitVec 8) ≠ 0xc5 := by decide
  have known : layout mode insn = vexLayout mode insn
      (byteAt insn (opcodeOffset mode insn + 2) ++ byteAt insn (opcodeOffset mode insn + 1))
      (opcodeOffset mode insn + 3) := by
    simp only [layout, isC4, if_neg no0F, if_pos, fieldAt_two inside]
  rw [known]
  unfold vexLayout Sdm.vexOpcode
  rw [sdmHead_forbidsVex]
  dsimp only [sdmHead]
  by_cases bad : mode ≠ .prot64 ∧ byteAt insn (opcodeOffset mode insn + 1) < 0xc0 ∨
      vexForbidden mode insn = true
  · rw [if_pos (.inr bad), if_pos (bad.imp_left (And.imp_right limit.mpr)), Option.map_none,
      ite_self]
  by_cases real : mode = .real
  · rw [if_pos (.inl real), if_pos real]
  have good := not_or.mpr ⟨real, bad⟩
  have noC5' : byteAt insn (opcodeOffset mode insn) ≠ 0xc5 := by rwa [isC4]
  rw [if_neg good, if_neg (mt (Or.imp_left (And.imp_right limit.mp)) bad), if_neg real,
    if_neg noC5', vexMap_eq, map, ← lpp]
  generalize ((byteAt insn (opcodeOffset mode insn + 1)).extractLsb' 0 5).toNat = k
  rcases k with _ | _ | _ | _ | k <;> rfl

/-- What the manual takes for an opcode with a VEX prefix. -/
theorem vexOpcode_some {h : Sdm.Head} (found : Sdm.vexOpcode mode bytes h = some o) :
    mode ≠ .real ∧
      (bytes h.offset = 0xc5 → o = {
        vex := some ((bytes (h.offset + 1)).extractLsb' 0 3), map := .map0F
        stop := h.offset + 3 }) ∧
      (bytes h.offset ≠ 0xc5 → o.stop = h.offset + 4) := by
  unfold Sdm.vexOpcode at found
  dsimp only at found
  split at found
  · cases found
  · rename_i good
    refine ⟨fun real => good (.inl real), fun isC5 => ?_, fun noC5 => ?_⟩
    · rw [if_pos isC5] at found
      exact (Option.some.inj found).symm
    · rw [if_neg noC5] at found
      split at found
      · rw [← Option.some.inj found]
      · rw [← Option.some.inj found]
      · rw [← Option.some.inj found]
      · cases found

/-- A VEX prefix is found at the same place, if it is one. -/
theorem opcodeField_vex (known : layout mode insn = some l) (vex : l.vex ≠ none)
    (found : Sdm.opcodeField mode (byteAt insn) (sdmHead mode insn) = some o) :
    o.stop = l.stop ∧ mode ≠ .real ∧ (l.stop ≤ instrMaxLen → o = l.opcodeField) := by
  cases layout_cases known with
  | long isC4 long =>
    rw [opcodeField_eq_vexOpcode (.inl isC4)] at found
    obtain ⟨-, m, -, -, -, stop, -⟩ := vexLayout_some long
    obtain ⟨notReal, -, last⟩ := vexOpcode_some found
    refine ⟨(last (by rw [sdmHead, isC4]; decide)).trans stop.symm, notReal, fun inside => ?_⟩
    rw [vexOpcode_long isC4 (by omega), if_neg notReal, known] at found
    exact (Option.some.inj found).symm
  | short isC5 short =>
    rw [opcodeField_eq_vexOpcode (.inr isC5)] at found
    obtain ⟨-, m, map, rfl, value, stop, -⟩ := vexLayout_some short
    obtain ⟨notReal, same, -⟩ := vexOpcode_some found
    obtain ⟨-, isMap, lpp⟩ := vex_short (byteAt insn (opcodeOffset mode insn + 1))
    have map0F : l.map = .map0F := by
      rw [vexMap, isMap, if_pos rfl] at map
      exact (Option.some.inj map).symm
    have eq : o = l.opcodeField := by
      rw [same isC5, Layout.opcodeField, Layout.vexLpp, map0F, value, stop, Option.map_some, lpp]
      rfl
    exact ⟨by rw [eq]; rfl, notReal, fun _ => eq⟩
  | _ => exact absurd rfl vex

/-- A long VEX prefix for the map 0F38 is found. -/
theorem opcodeField_map0F38 (known : layout mode insn = some l) (vex : l.vex ≠ none)
    (map : l.map = .map0F38) (notReal : mode ≠ .real) (inside : l.stop ≤ instrMaxLen) :
    Sdm.opcodeField mode (byteAt insn) (sdmHead mode insn) = some l.opcodeField := by
  cases layout_cases known with
  | long isC4 long =>
    obtain ⟨-, m, -, -, -, stop, -⟩ := vexLayout_some long
    rw [opcodeField_eq_vexOpcode (.inl isC4), vexOpcode_long isC4 (by omega), if_neg notReal,
      known]
    rfl
  | short _ short =>
    obtain ⟨-, m, some, rfl, -⟩ := vexLayout_some short
    rw [vexMap, (vex_short _).2.1, if_pos rfl, map] at some
    cases some
  | _ => exact absurd rfl vex

/-- The last byte of the opcode. -/
theorem byteAt_stop (known : layout mode insn = some l) : byteAt insn (l.stop - 1) = l.opcode := by
  cases layout_cases known with
  | long _ vex | short _ vex =>
    obtain ⟨-, m, -, -, -, stop, opcode⟩ := vexLayout_some vex
    rw [stop, opcode, Nat.add_sub_cancel]
  | _ => rfl

end Opcodes

/-! ## Instructions -/

/-- An encoding that the decoder accepts is one that the manual defines. -/
structure Genuine (mode : EmMode) (insn : ℕ → BitVec 8) (l : Layout) (e : EmOpcode) : Prop where
  short : l.length mode insn e ≤ instrMaxLen
  in64 : mode = .prot64 → not64 l.map l.opcode.toNat = false
  defined : test1 l.map l.opcode.toNat (modrmOpc (l.modrm insn)).toNat = false
  /-- ANDN and BEXTR have VEX with zero L and pp, and nothing else has it. -/
  vex : l.vexLpp = if l.map = .map0F38 then some 0 else none
  notReal : l.vex ≠ none → mode ≠ .real
  lock : LegacyPrefix.lock ∈ legacyPrefixes insn →
    e.lockable = true ∧ modrmMod (l.modrm insn) ≠ 3

section Instruction

variable {mode : EmMode} {insn : ℕ → BitVec 8} {l : Layout} {e : EmOpcode} {f : Sdm.Form}
  {digit : ℕ} {mn : Sdm.Mnemonic}

section Form

variable (form : FormOf l.map l.opcode.toNat digit (l.map.entry l.opcode) e f)

include form

theorem FormOf.modrmByte_eq : f.modrmByte (byteAt insn) l.opcodeField = l.modrm insn := by
  rw [Sdm.Form.modrmByte, form.modrm]
  rfl

theorem FormOf.length_eq (known : layout mode insn = some l) (encoded : f.encodedBy l.vexLpp) :
    f.length mode (byteAt insn) (sdmHead mode insn) l.opcodeField = l.length mode insn e := by
  rw [l.length_eq (layout_operandSize known), Sdm.Form.length, form.modrmByte_eq,
    sdmHead_addressSize, form.modrm, ← form.fields]
  cases legacy : l.vex with
  | none =>
    rw [(opcodeField_legacy known legacy).2]
    rfl
  | some vex =>
    -- A form with VEX has no immediate, so that the operand size does not matter.
    have isVex : f.vex = true := by
      by_contra none
      rw [Sdm.Form.encodedBy, Layout.vexLpp, legacy, if_neg none] at encoded
      cases encoded
    rw [form.vexFields isVex]
    rfl

theorem FormOf.valid_iff (known : layout mode insn = some l) :
    f.Valid mode (byteAt insn) (sdmHead mode insn) l.opcodeField ↔
      (mode = .prot64 → not64 l.map l.opcode.toNat = false) ∧
        (l.vexLpp = if l.map = .map0F38 then some 0 else none) ∧
        (LegacyPrefix.lock ∈ legacyPrefixes insn →
          e.lockable = true ∧ modrmMod (l.modrm insn) ≠ 3) ∧
        l.length mode insn e ≤ instrMaxLen := by
  have encoded : f.encodedBy l.vexLpp ↔ l.vexLpp = if l.map = .map0F38 then some 0 else none := by
    rw [Sdm.Form.encodedBy, form.vex]
    simp only [beq_iff_eq]
  have in64 : f.in64 = true ↔ not64 l.map l.opcode.toNat = false := by
    rw [form.in64, Bool.not_eq_true']
  unfold Sdm.Form.Valid
  rw [form.modrmByte_eq, form.lockable, in64, ← encoded]
  refine and_congr_right fun _ => and_congr_right fun enc => and_congr_right fun _ => ?_
  rw [form.length_eq known enc]
  rfl

end Form

/-- The entry depends on the ModRM byte only if there is one. -/
theorem Implements.resolved (imp : Implements mode insn l e) :
    resolveGroup (l.map.entry l.opcode) (modrmOpc (byteAt insn l.stop)) = some e := by
  have entry : resolveGroup (l.map.entry l.opcode) (modrmOpc (l.modrm insn)) = some e := imp.2.1
  cases modrm : l.hasModrm with
  | true => rwa [Layout.modrm, modrm, if_pos rfl] at entry
  | false =>
    have single : ¬ (l.map.entry l.opcode).has insnGroup = true := by
      intro group
      rw [Layout.hasModrm, hasModrm_of_hasGroup group] at modrm
      cases modrm
    unfold resolveGroup at entry ⊢
    rw [if_neg single] at entry ⊢
    exact entry

theorem le_fieldsEnd (bytes : ℕ → BitVec 8) (operandSize addressSize : ℕ) (modrm : BitVec 8)
    (fields : List Sdm.Field) (v : ℕ) :
    v ≤ Sdm.fieldsEnd bytes operandSize addressSize modrm fields v := by
  induction fields generalizing v with
  | nil => exact le_rfl
  | cons f fields ih => exact (Nat.le_add_right v _).trans (ih _)

theorem stop_le_length (bytes : ℕ → BitVec 8) (h : Sdm.Head) (o : Sdm.OpcodeField) (f : Sdm.Form) :
    o.stop ≤ f.length mode bytes h o := by
  refine le_trans ?_ (le_fieldsEnd _ _ _ _ _ _)
  split <;> omega

theorem instruction_some {h : Sdm.Head} {n : ℕ}
    (found : Sdm.instruction mode bytes h o = some (mn, n)) :
    ∃ f, Sdm.find o.map (bytes (o.stop - 1)).toNat (modrmOpc (bytes o.stop)).toNat = some f ∧
      f.Valid mode bytes h o ∧ f.mnemonic = mn ∧ f.length mode bytes h o = n := by
  unfold Sdm.instruction at found
  split at found
  · rename_i f form
    split at found
    · rename_i valid
      cases found
      exact ⟨f, form, valid, rfl, rfl⟩
    · cases found
  · cases found

/-- The digits agree, or they do not matter. -/
theorem test1_modrm (imp : Implements mode insn l e) :
    test1 l.map l.opcode.toNat (modrmOpc (l.modrm insn)).toNat = true ↔
      test1 l.map l.opcode.toNat (modrmOpc (byteAt insn l.stop)).toNat = true := by
  cases modrm : l.hasModrm with
  | true => rw [Layout.modrm, modrm, if_pos rfl]
  | false =>
    rw [Layout.modrm, modrm, if_neg (by decide)]
    refine iff_of_false (by simp [test1, modrmOpc]) fun one => ?_
    rcases formOf_entry imp.resolved imp.2.2.1 with ⟨f, form⟩ | ⟨-, -, some⟩
    · rw [form.defined] at one
      cases one
    · rw [Layout.hasModrm, some] at modrm
      cases modrm

/-- A byte of REX that follows REX is INC or DEC to the decoder. -/
theorem isRex_of_not64 {b : BitVec 8} (rex : isRex b = true) : not64 .oneByte b.toNat = true := by
  have all : ∀ b, isRex b = true → not64 .oneByte b.toNat = true := by decide
  exact all b rex

/-- The manual decodes what is implemented and genuine, with the same handler and
the same length. -/
theorem Genuine.decode (imp : Implements mode insn l e) (h : Genuine mode insn l e) :
    ∃ mn, Sdm.decode mode (byteAt insn) = some (mn, l.length mode insn e) ∧
      e.target = .handler mn.handler := by
  have single : ¬ (mode = .prot64 ∧ l.map = .oneByte ∧ isRex l.opcode = true) := by
    rintro ⟨long, map, rex⟩
    have bad := h.in64 long
    rw [map, isRex_of_not64 rex] at bad
    cases bad
  have known := imp.1
  have field : Sdm.opcodeField mode (byteAt insn) (sdmHead mode insn) = some l.opcodeField := by
    by_cases legacy : l.vex = none
    · exact (opcodeField_legacy known legacy).1
    · have map : l.map = .map0F38 := by
        by_contra other
        have none := h.vex
        rw [if_neg other, Layout.vexLpp, Option.map_eq_none_iff] at none
        exact legacy none
      exact opcodeField_map0F38 known legacy map (h.notReal legacy)
        ((l.stop_le_length mode insn e).trans h.short)
  rcases formOf_entry imp.resolved imp.2.2.1 with ⟨f, form⟩ | ⟨-, one, -⟩
  · have valid : f.Valid mode (byteAt insn) (sdmHead mode insn) l.opcodeField :=
      (form.valid_iff known).mpr ⟨h.in64, h.vex, h.lock, h.short⟩
    refine ⟨f.mnemonic, ?_, form.handler⟩
    have found : Sdm.find l.opcodeField.map (byteAt insn (l.opcodeField.stop - 1)).toNat
        (modrmOpc (byteAt insn l.opcodeField.stop)).toNat = some f := by
      rw [← form.found, ← byteAt_stop known]
      rfl
    have length := form.length_eq known valid.2.1
    rw [Sdm.decode, scan_eq_sdmHead imp single]
    show (Sdm.opcodeField mode (byteAt insn) (sdmHead mode insn)).bind _ = _
    rw [field, Option.bind_some, Sdm.instruction, found]
    dsimp only
    rw [if_pos valid, length]
  · have bad := h.defined
    rw [(test1_modrm imp).mpr one] at bad
    cases bad

/-- What the manual decodes is genuine. -/
theorem genuine_of_decode (imp : Implements mode insn l e)
    (single : ¬ (mode = .prot64 ∧ l.map = .oneByte ∧ isRex l.opcode = true)) {n : ℕ}
    (found : Sdm.decode mode (byteAt insn) = some (mn, n)) : Genuine mode insn l e := by
  have known := imp.1
  rw [Sdm.decode, scan_eq_sdmHead imp single] at found
  obtain ⟨o, field, decoded⟩ := Option.bind_eq_some_iff.mp found
  obtain ⟨f, form, valid, -, -⟩ := instruction_some decoded
  have inside : o.stop ≤ instrMaxLen := (stop_le_length _ _ o f).trans valid.2.2.2
  have same : o = l.opcodeField ∧ (l.vex ≠ none → mode ≠ .real) := by
    by_cases legacy : l.vex = none
    · rw [(opcodeField_legacy known legacy).1] at field
      exact ⟨(Option.some.inj field).symm, fun h => absurd legacy h⟩
    · obtain ⟨stop, notReal, eq⟩ := opcodeField_vex known legacy field
      exact ⟨eq (stop ▸ inside), fun _ => notReal⟩
  obtain ⟨rfl, notReal⟩ := same
  rw [show (byteAt insn (l.opcodeField.stop - 1)) = l.opcode from byteAt_stop known] at form
  rcases formOf_entry imp.resolved imp.2.2.1 with ⟨g, formOf⟩ | ⟨none, -⟩
  · obtain rfl : g = f := Option.some.inj (formOf.found.symm.trans form)
    obtain ⟨in64, vex, lock, short⟩ := (formOf.valid_iff known).mp valid
    have defined : test1 l.map l.opcode.toNat (modrmOpc (l.modrm insn)).toNat = false := by
      rw [← Bool.not_eq_true, test1_modrm imp, formOf.defined]
      decide
    exact ⟨short, in64, defined, vex, notReal, lock⟩
  · exact absurd (form.symm.trans none) (Option.some_ne_none f)

/-! ### REX after REX -/

theorem alu_ne (n : ℕ) : Sdm.alu n ≠ .inc ∧ Sdm.alu n ≠ .dec := by
  unfold Sdm.alu
  split <;> decide

/-- A form that 64-bit mode has is not INC or DEC. -/
theorem find_in64 (m : OpcodeMap) (b d : ℕ) :
    ∀ f, Sdm.find m b d = some f → f.in64 = true → f.mnemonic ≠ .inc ∧ f.mnemonic ≠ .dec := by
  unfold Sdm.find Sdm.oneByteForm Sdm.map0FForm Sdm.map0F38Form Sdm.aluForm Sdm.group1 Sdm.group3
  dsimp only
  repeat' split
  all_goals simp [alu_ne]

theorem decode_in64 {n : ℕ} (found : Sdm.decode .prot64 bytes = some (mn, n)) :
    mn ≠ .inc ∧ mn ≠ .dec := by
  obtain ⟨o, -, decoded⟩ := Option.bind_eq_some_iff.mp found
  obtain ⟨f, form, valid, rfl, -⟩ := instruction_some decoded
  exact find_in64 _ _ _ f form (valid.1 rfl)

theorem oneByteForm_inc_or_dec {b : ℕ} (lo : 0x40 ≤ b) (hi : b < 0x50) (d : ℕ) :
    ∃ f, Sdm.oneByteForm b d = some f ∧ (f.mnemonic = .inc ∨ f.mnemonic = .dec) := by
  by_cases inc : b < 0x48
  · exact ⟨_, (if_neg lo.not_gt).trans (if_pos inc), .inl rfl⟩
  · exact ⟨_, (if_neg lo.not_gt).trans ((if_neg inc).trans (if_pos hi)), .inr rfl⟩

/-- A byte of REX after REX is carried out as INC or DEC. -/
theorem Implements.inc_or_dec (imp : Implements mode insn l e) (map : l.map = .oneByte)
    (rex : isRex l.opcode = true) :
    e.target = .handler .inc ∨ e.target = .handler .dec := by
  have range : ∀ b, isRex b = true → 0x40 ≤ b.toNat ∧ b.toNat < 0x50 := by decide
  obtain ⟨lo, hi⟩ := range l.opcode rex
  obtain ⟨f, found, mnemonic⟩ :=
    oneByteForm_inc_or_dec lo hi (modrmOpc (byteAt insn l.stop)).toNat
  have find : Sdm.find l.map l.opcode.toNat (modrmOpc (byteAt insn l.stop)).toNat = some f := by
    rw [map]
    exact found
  rcases formOf_entry imp.resolved imp.2.2.1 with ⟨g, form⟩ | ⟨none, -⟩
  · obtain rfl : g = f := Option.some.inj (form.found.symm.trans find)
    rw [form.handler]
    exact mnemonic.imp (fun h => by rw [h]; rfl) fun h => by rw [h]; rfl
  · rw [find] at none
    cases none

theorem handler_inc_or_dec (h : mn.handler = .inc ∨ mn.handler = .dec) : mn = .inc ∨ mn = .dec := by
  revert h
  cases mn <;> decide

end Instruction

/-! ## Soundness -/

/-- If an instruction is accepted, the manual defines it with this length, and its
handler is that of the operation. -/
def DecodesAsManual (gpr : Fin 16 → BitVec 64) (mode : EmMode) (rip : BitVec 64)
    (insn : ℕ → BitVec 8) : Prop :=
  (emDecodeInsn gpr insn (EmContext.init mode rip)).1 = .continue →
    ∃ mn, Sdm.decode mode (byteAt insn) =
        some (mn, (emDecodeInsn gpr insn (EmContext.init mode rip)).2.cursor.len) ∧
      (emDecodeInsn gpr insn (EmContext.init mode rip)).2.opcode.target = .handler mn.handler

/-- The decoder agrees with the manual on the genuine encodings, and only there. -/
theorem decodesAsManual_iff (gpr : Fin 16 → BitVec 64) (mode : EmMode) (rip : BitVec 64)
    (insn : ℕ → BitVec 8) :
    DecodesAsManual gpr mode rip insn ↔
      ∀ l e, Implements mode insn l e → Genuine mode insn l e := by
  have spec := emDecodeInsn_spec gpr mode rip insn
  constructor
  · intro agrees l e imp
    obtain ⟨go, -, opcode⟩ := spec.implemented l e imp
    obtain ⟨mn, found, handler⟩ := agrees go
    rw [opcode] at handler
    refine genuine_of_decode imp ?_ found
    rintro ⟨rfl, map, rex⟩
    obtain ⟨notInc, notDec⟩ := decode_in64 found
    have target := imp.inc_or_dec map rex
    rw [handler, OpcodeTarget.handler.injEq, OpcodeTarget.handler.injEq] at target
    rcases handler_inc_or_dec target with rfl | rfl
    · exact notInc rfl
    · exact notDec rfl
  · intro genuine go
    by_cases some : ∃ l e, Implements mode insn l e
    · obtain ⟨l, e, imp⟩ := some
      obtain ⟨-, position, opcode⟩ := spec.implemented l e imp
      have good := genuine l e imp
      rw [opcode, (position.within good.short).1]
      exact good.decode imp
    · have error := (spec.rejected fun l e imp => some ⟨l, e, imp⟩).1
      rw [error] at go
      cases go

/-- `SHLX EAX, EAX, EAX`. -/
def shlx (i : ℕ) : BitVec 8 := [0xc4, 0xe2, 0x79, 0xf7, 0xc0].getD i 0

/-- It is carried out as BEXTR. -/
theorem shlx_decoded_as_bextr :
    (emDecodeInsn (fun _ => 0) shlx (EmContext.init .prot64 0)).1 = .continue ∧
      (emDecodeInsn (fun _ => 0) shlx (EmContext.init .prot64 0)).2.opcode.target =
        .handler .bextrSoft ∧
      Sdm.decode .prot64 (byteAt shlx) = none ∧
      ¬ DecodesAsManual (fun _ => 0) .prot64 0 shlx := by
  have go : (emDecodeInsn (fun _ => 0) shlx (EmContext.init .prot64 0)).1 = .continue := by
    decide +kernel
  have other : Sdm.decode .prot64 (byteAt shlx) = none := by decide +kernel
  refine ⟨go, by decide +kernel, other, ?_⟩
  intro agrees
  obtain ⟨mn, found, -⟩ := agrees go
  rw [other] at found
  cases found

end Haxm
