/-
# What decoders read and change

A decoder logs all the bytes that it looks at. Up to the ModRM byte it leaves
operands and register cache as they are. The operand decoders do nothing to the
cache but read registers.
-/

import Haxm.Emulate.Layout
import Haxm.Emulate.Registers

namespace Haxm

open Lib

/-- The log of a context. -/
def fetchLog (c : EmContext) : List (ℕ × ℕ) := c.cursor.fetches

/-- A relation of contexts that a fetch keeps. -/
class FetchStable (R : EmContext → EmContext → Prop) : Prop extends
    Std.Refl R, IsTrans EmContext R where
  cursor : ∀ c k, R c { c with cursor := k }

/-- Whatever is fetched is logged, and the context changes as `R` allows. -/
abbrev Reads {α : Type} (R : EmContext → EmContext → Prop) (m : Decode α) : Prop :=
  m.Traced fetchLog R

theorem loadLe_congr {insn other : ℕ → BitVec 8} {pos n : ℕ}
    (same : ∀ i, pos ≤ i → i < pos + n → other i = insn i) :
    loadLe other pos n = loadLe insn pos n := by
  induction n with
  | zero => rfl
  | succ n ih =>
    have before := ih fun i lo hi => same i lo (by omega)
    rw [loadLe, loadLe, before, same (pos + n) (by omega) (by omega)]

namespace Reads

section Fetch

variable {R : EmContext → EmContext → Prop} [FetchStable R]

theorem insnFetch (n : ℕ) : Reads R (Haxm.insnFetch n) where
  relates insn c := by
    rw [insnFetch_run]
    exact FetchStable.cursor c _
  logs insn c := by
    refine ⟨[(c.cursor.len, n)], ?_, ?_⟩
    · unfold Haxm.insnFetch fetchLog
      dsimp only
      split <;> rfl
    · intro other agree
      have same : loadLe other c.cursor.len n = loadLe insn c.cursor.len n :=
        loadLe_congr fun i lo hi => agree i ⟨_, List.mem_singleton.mpr rfl, lo, hi⟩
      unfold Haxm.insnFetch
      dsimp only
      rw [same]

theorem u8 : Reads R insnFetchU8 := (insnFetch 1).map _
theorem u16 : Reads R insnFetchU16 := (insnFetch 2).map _
theorem u32 : Reads R insnFetchU32 := (insnFetch 4).map _
theorem s8 : Reads R insnFetchS8 := u8.map _
theorem s16 : Reads R insnFetchS16 := u16.map _
theorem s32 : Reads R insnFetchS32 := u32.map _

end Fetch

end Reads

/-! ## Prefixes and opcode -/

/-- The part of a context that only operand decoders write. -/
def EmContext.operands (c : EmContext) : EmOperand × EmOperand × EmOperand × GprCache :=
  (c.dst, c.src1, c.src2, c.cache)

/-- The operands stay as they are. -/
def EmContext.SameOperands (c c' : EmContext) : Prop := c'.operands = c.operands

instance : FetchStable EmContext.SameOperands where
  refl _ := rfl
  trans _ _ _ first second := Eq.trans second first
  cursor _ _ := rfl

namespace Reads

theorem decodePrefixesLoop (fuel : ℕ) :
    Reads EmContext.SameOperands (Haxm.decodePrefixesLoop fuel) := by
  induction fuel with
  | zero => exact .pure ()
  | succ fuel ih =>
    refine u8.bind fun b => ?_
    split
    · exact .modify_bind (fun _ => ⟨rfl, rfl⟩) ih
    · exact .modify fun _ => ⟨rfl, rfl⟩

theorem decodeRex : Reads EmContext.SameOperands Haxm.decodeRex := by
  refine .modify_bind (fun _ => ⟨rfl, rfl⟩) (u8.bind fun b => .get_bind fun c => ?_)
  exact .ite (.modify_bind (fun _ => ⟨rfl, rfl⟩) u8) (.pure b)

theorem setOpcode (m : OpcodeMap) (b : BitVec 8) : Reads EmContext.SameOperands
    (do Reader.modify (Haxm.setOpcode m b); pure EmStatus.continue) :=
  .modify_bind (fun _ => ⟨rfl, rfl⟩) (.pure _)

theorem vexValue (b : BitVec 8) : Reads EmContext.SameOperands (Haxm.vexValue b) :=
  .ite u16 (u8.bind fun _ => .pure _)

theorem decodeVex (b : BitVec 8) : Reads EmContext.SameOperands (Haxm.decodeVex b) := by
  refine .modify_bind (fun _ => ⟨rfl, rfl⟩) ((vexValue b).bind fun vex => ?_)
  refine .modify_bind (fun _ => ⟨rfl, rfl⟩) (.get_bind fun c => .ite (.pure _) (.ite (.pure _) ?_))
  refine .modify_bind (fun _ => ⟨rfl, rfl⟩) (u8.bind fun b => ?_)
  split
  · exact setOpcode _ b
  · exact .pure _

theorem decodeOpcode (b : BitVec 8) : Reads EmContext.SameOperands (Haxm.decodeOpcode b) := by
  refine .modify_bind (fun _ => ⟨rfl, rfl⟩) (.ite ?_ (.ite (decodeVex b) (setOpcode _ b)))
  refine u8.bind fun b => .ite ?_ (.ite ?_ (setOpcode _ b))
  · exact u8.bind fun b => setOpcode _ b
  · exact u8.bind fun b => setOpcode _ b

/-- The header, but for the first step, which empties the cache. -/
theorem decodeHeader : Reads EmContext.SameOperands (do
    decodePrefixes
    Reader.modify applySizePrefixes
    let b ← Haxm.decodeRex
    Haxm.decodeOpcode b) :=
  (decodePrefixesLoop _).bind fun _ => .modify_bind (fun _ => ⟨rfl, rfl⟩)
    (decodeRex.bind decodeOpcode)

theorem decodeModrm : Reads EmContext.SameOperands Haxm.decodeModrm :=
  .get_bind fun _ => .ite (u8.bind fun _ => .modify fun _ => ⟨rfl, rfl⟩) (.pure ())

end Reads

/-! ## Operands -/

/-- The part that decoding the operands again does not change. -/
def EmContext.form (c : EmContext) : EmMode × ℕ × ℕ × PrefixSet × EmOpcode :=
  (c.mode, c.operandSize, c.addressSize, c.prefixes, c.opcode)

/-- Nothing is done to the cache but reading registers. -/
structure EmContext.CacheFilled (gpr : Fin 16 → BitVec 64) (c c' : EmContext) : Prop where
  cache : c.cache.Filled gpr c'.cache
  form : c'.form = c.form

variable {gpr : Fin 16 → BitVec 64}

instance : FetchStable (EmContext.CacheFilled gpr) where
  refl c := ⟨.refl gpr c.cache, rfl⟩
  trans _ _ _ first second := ⟨first.cache.trans second.cache, second.form.trans first.form⟩
  cursor c _ := ⟨.refl gpr c.cache, rfl⟩

abbrev Fills {α : Type} (gpr : Fin 16 → BitVec 64) (m : Decode α) : Prop :=
  Reads (EmContext.CacheFilled gpr) m

namespace Fills

open Reads

theorem gpr16 (i : Fin 16) : Fills gpr (Haxm.gpr16 gpr i) :=
  .of_const fun c => ⟨rfl, gprFill_filled gpr i c.cache, rfl⟩

theorem gprAddress (i : Fin 16) : Fills gpr (Haxm.gprAddress gpr i) :=
  .of_const fun c => ⟨rfl, gprFill_filled gpr i c.cache, rfl⟩

theorem modrmAddress16 (c : EmContext) : Fills gpr (Haxm.modrmAddress16 gpr c) := by
  have one (i : Fin 16) (stack : Bool) : Fills gpr (do return (← Haxm.gpr16 gpr i, stack)) :=
    (gpr16 i).bind fun _ => .pure _
  have two (i j : Fin 16) (stack : Bool) :
      Fills gpr (do return ((← Haxm.gpr16 gpr i) + (← Haxm.gpr16 gpr j), stack)) :=
    (gpr16 i).bind fun _ => (gpr16 j).bind fun _ => .pure _
  unfold Haxm.modrmAddress16
  split
  · exact two _ _ _
  · exact two _ _ _
  · exact two _ _ _
  · exact two _ _ _
  · exact one _ _
  · exact one _ _
  · exact .ite (u16.bind fun _ => .pure _) (one _ _)
  · exact one _ _

theorem modrmAddress32 (c : EmContext) : Fills gpr (Haxm.modrmAddress32 gpr c) := by
  have base (sib : BitVec 8) : Fills gpr (sibBaseAddress gpr c sib) := .ite s32 (gprAddress _)
  have index (sib : BitVec 8) : Fills gpr (sibIndexAddress gpr c sib) :=
    .ite (.pure _) ((gprAddress _).bind fun _ => .pure _)
  have sib : Fills gpr (sibAddress gpr c) :=
    u8.bind fun b => .modify_bind (fun c => ⟨rfl, .refl gpr c.cache, rfl⟩) ((base b).bind fun _ =>
      (index b).bind fun _ => .pure _)
  exact .ite sib (.ite s32 (gprAddress _))

theorem decodeOpModrmRm (op : EmOperand) : Fills gpr (Haxm.decodeOpModrmRm gpr op) := by
  have disp16 (c : EmContext) : Fills gpr (modrmDisp16 c) :=
    .ite s8 (.ite (u16.bind fun _ => .pure _) (.pure _))
  have disp32 (c : EmContext) : Fills gpr (modrmDisp32 c) := .ite s8 (.ite s32 (.pure _))
  unfold Haxm.decodeOpModrmRm
  refine .get_bind fun c => .ite (.pure _) (.ite ?_ (.ite ?_ (.pure _)))
  · exact (modrmAddress16 c).bind fun _ => (disp16 c).bind fun _ => .pure _
  · exact (modrmAddress32 c).bind fun _ => (disp32 c).bind fun _ => .pure _

theorem decodeOpMoffs (op : EmOperand) : Fills gpr (Haxm.decodeOpMoffs op) := by
  unfold Haxm.decodeOpMoffs moffsAddress
  refine .get_bind fun c => .bind ?_ fun ea => ?_
  · split
    · exact u16.bind fun _ => .pure _
    · exact u32.bind fun _ => .pure _
    · exact (Reads.insnFetch 8).bind fun _ => .pure _
    · exact .pure _
  · cases ea <;> exact .pure _

theorem decodeOpSimm (op : EmOperand) : Fills gpr (Haxm.decodeOpSimm op) := by
  unfold Haxm.decodeOpSimm simmValue
  refine .get_bind fun c => .bind ?_ fun value => ?_
  · split
    · exact s8.bind fun _ => .pure _
    · exact s16.bind fun _ => .pure _
    · exact s32.bind fun _ => .pure _
    · exact s32.bind fun _ => .pure _
    · exact .pure _
  · cases value <;> exact .pure _

theorem decodeOperand (d : Option OpDecoder) (op : EmOperand) :
    Fills gpr (Haxm.decodeOperand gpr d op) := by
  rcases d with _ | d
  · exact .pure _
  cases d with
  | modrmRm => exact decodeOpModrmRm _
  | modrmRm8 => exact (decodeOpModrmRm _).bind fun _ => .pure _
  | modrmRm16 => exact (decodeOpModrmRm _).bind fun _ => .pure _
  | moffs => exact decodeOpMoffs _
  | simm => exact decodeOpSimm _
  | simm8 => exact s8.bind fun _ => .pure _
  | di => exact .get_bind fun _ => (gprAddress _).bind fun _ => .pure _
  | si => exact .get_bind fun _ => (gprAddress _).bind fun _ => .pure _
  | none => exact .pure _
  | _ => exact .get_bind fun _ => .pure _

theorem decodeOperands : Fills gpr (Haxm.decodeOperands gpr) := by
  refine .get_bind fun c => (decodeOperand _ _).bind fun r => ?_
  refine .modify_bind (fun c => ⟨rfl, .refl gpr c.cache, rfl⟩) (.ite (.pure _) ?_)
  refine (decodeOperand _ _).bind fun r => ?_
  refine .modify_bind (fun c => ⟨rfl, .refl gpr c.cache, rfl⟩) (.ite (.pure _) ?_)
  refine (decodeOperand _ _).bind fun r => ?_
  exact .modify_bind (fun c => ⟨rfl, .refl gpr c.cache, rfl⟩) (.pure _)

end Fills

/-! ## Instructions -/

theorem logs_emDecodeInsn (gpr : Fin 16 → BitVec 64) :
    (emDecodeInsn gpr).Logs fetchLog := by
  let R : EmContext → EmContext → Prop := fun _ _ => True
  have : FetchStable R :=
    { refl := fun _ => trivial, trans := fun _ _ _ _ _ => trivial, cursor := fun _ _ => trivial }
  have header : Reads R decodeHeader := .modify_bind (fun _ => ⟨rfl, trivial⟩)
    (Reads.decodeHeader.mono fun _ _ _ => trivial)
  have modrm : Reads R decodeModrm := Reads.decodeModrm.mono fun _ _ _ => trivial
  have operands : Reads R (decodeOperands gpr) := Fills.decodeOperands.mono fun _ _ _ => trivial
  have whole : Reads R (emDecodeInsn gpr) := by
    refine header.bind fun rc => .ite (.pure _) (modrm.bind fun _ => .get_bind fun c => ?_)
    split
    · exact .pure _
    · exact .modify_bind (fun _ => ⟨rfl, trivial⟩) (.ite operands (.pure _))
  exact whole.logs

end Haxm
