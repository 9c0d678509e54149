/-
# Control registers and EFER of the guest

`vmwrite_cr` divides CR0 and CR4 among the guest-state fields, the masks and the
read shadows of the VMCS, and `vmread_cr` puts them together again. Nothing is
lost on the way.

EFER.LMA follows from the other bits, and `vmwrite_efer` sets it. But
`vmwrite_cr` clears all of EFER for a guest that pages without PAE, and LMSW may
clear CR0.PE under paging.
-/

import Haxm.Vcpu.SetRegs

namespace Haxm

open Lib

/-! ## Through the VMCS and back -/

/-- The bit is 1 if it has to be, and it may be 1 if it is. -/
def FixedAt (fixed0 fixed1 cr : BitVec 64) (i : ℕ) : Prop :=
  (fixed0.getLsbD i = true → cr.getLsbD i = true) ∧ (cr.getLsbD i = true → fixed1.getLsbD i = true)

/-- The guest flips bits of CR0 and CR4 in the VMCS. -/
def Vcpu.flipCrs (v : Vcpu) (cr0 cr4 : BitVec 64) : Vcpu :=
  { v with vmcs := { v.vmcs with cr0 := v.vmcs.cr0 ^^^ cr0, cr4 := v.vmcs.cr4 ^^^ cr4 } }

/-- The guest sees its own registers, the processor gets bits that it accepts (bits 0 and 31 of
CR0, PE and PG, are left to unrestricted guests), and what the guest changes is read back. -/
structure CrsVirtualized (info : VmxInfo) (v : Vcpu) : Prop where
  visibleCr0 : (vmwriteCr info v).vmcs.visibleCr0 = v.state.cr0
  visibleCr4 : (vmwriteCr info v).vmcs.visibleCr4 = v.state.cr4
  fixedCr0 : ∀ i, i ≠ 0 → i ≠ 31 →
    FixedAt info.cr0Fixed0 info.cr0Fixed1 (vmwriteCr info v).vmcs.cr0 i
  fixedCr4 : ∀ i, FixedAt info.cr4Fixed0 info.cr4Fixed1 (vmwriteCr info v).vmcs.cr4 i
  readBack : ∀ cr0 cr4, cr0 &&& (vmwriteCr info v).vmcs.cr0Mask = 0 →
    cr4 &&& (vmwriteCr info v).vmcs.cr4Mask = 0 →
    (vmreadCr info ((vmwriteCr info v).flipCrs cr0 cr4)).state.cr0 = v.state.cr0 ^^^ cr0 ∧
      (vmreadCr info ((vmwriteCr info v).flipCrs cr0 cr4)).state.cr4 = v.state.cr4 ^^^ cr4

theorem masked_xor {real mask val flips : BitVec 64}
    (seen : (real &&& ~~~mask) ||| (val &&& mask) = val) (free : flips &&& mask = 0) :
    ((real ^^^ flips) &&& ~~~mask) ||| (val &&& mask) = val ^^^ flips := by
  apply BitVec.eq_of_getLsbD_eq
  intro i hi
  have seen := congrArg (fun x => x.getLsbD i) seen
  have free := congrArg (fun x => x.getLsbD i) free
  simp only [BitVec.getLsbD_or, BitVec.getLsbD_and, BitVec.getLsbD_not, BitVec.getLsbD_xor, hi,
    decide_true, Bool.true_and, BitVec.ofNat_eq_ofNat, BitVec.getLsbD_zero] at seen free ⊢
  revert seen free
  cases mask.getLsbD i <;> cases flips.getLsbD i <;> simp +contextual

theorem crsVirtualized (info : VmxInfo) (high : ∀ i, 32 ≤ i → info.cr0Fixed0.getLsbD i = false)
    (v : Vcpu) : CrsVirtualized info v := by
  have cr0 := visibleCr0_vmwriteCr info v
  have cr4 := visibleCr4_vmwriteCr info v
  refine ⟨cr0, cr4, fun i pe pg => ⟨fun set => ?_, fun set => ?_⟩, fun i => ⟨fun set => ?_,
    fun set => ?_⟩, fun flips0 flips4 free0 free4 => ⟨?_, ?_⟩⟩
  · -- the complement of PE and PG reaches up to bit 31, and so does the mask
    have low : i < 32 := by
      by_contra! above
      simp [high i above] at set
    have kept : (0x7ffffffe : BitVec 64).getLsbD i = true := by
      revert pe pg
      clear set
      decide +revert
    simp only [vmwriteCr, BitVec.getLsbD_or, BitVec.getLsbD_and, set, kept, Bool.and_true,
      Bool.or_true]
  · simp only [vmwriteCr, BitVec.getLsbD_or, BitVec.getLsbD_and, Bool.or_eq_true,
      Bool.and_eq_true] at set
    rcases set with ⟨-, one⟩ | ⟨fixed, -⟩
    · exact one
    · exact fixed_bit info.cr0_fixed (BitVec.lt_of_getLsbD fixed) fixed
  · simp only [vmwriteCr, BitVec.getLsbD_or, set, Bool.or_true]
  · simp only [vmwriteCr, BitVec.getLsbD_or, BitVec.getLsbD_and, Bool.or_eq_true,
      Bool.and_eq_true] at set
    rcases set with ⟨-, one⟩ | fixed
    · exact one
    · exact fixed_bit info.cr4_fixed (BitVec.lt_of_getLsbD fixed) fixed
  · have shadow : (vmwriteCr info v).vmcs.cr0Shadow = v.state.cr0 := crShadow_eq _
    rw [Vmcs.visibleCr0, shadow] at cr0
    exact masked_xor cr0 free0
  · have shadow : (vmwriteCr info v).vmcs.cr4Shadow = v.state.cr4 := crShadow_eq _
    rw [Vmcs.visibleCr4, shadow] at cr4
    exact masked_xor cr4 free4

theorem plainInfo_crsVirtualized : CrsVirtualized plainInfo (vcpuCreate plainInfo 0) := by
  refine crsVirtualized plainInfo (fun i high => ?_) _
  by_cases hi : i < 64
  · revert high
    decide +revert
  · exact BitVec.getLsbD_of_ge _ _ (Nat.le_of_not_lt hi)

/-! ## EFER -/

def cr0TS : BitVec 64 := 1 <<< 3
def cr4PSE : BitVec 64 := 1 <<< 4
def cr4PGE : BitVec 64 := 1 <<< 7
def ia32EferSCE : BitVec 32 := 1 <<< 0
def ia32EferLME : BitVec 32 := 1 <<< 8
def ia32EferLMA : BitVec 32 := 1 <<< 10
def ia32EferXD : BitVec 32 := 1 <<< 11

/-- The registers that the mode of a guest depends on. -/
structure ModeState where
  cr0 : BitVec 64
  cr4 : BitVec 64
  efer : BitVec 32
  panicked : Bool := false
  deriving DecidableEq

/-- `vmwrite_efer`, as far as it changes EFER. -/
def vmwriteEfer (s : ModeState) : ModeState :=
  if s.cr0 &&& cr0PG ≠ 0 ∧ s.efer &&& ia32EferLME ≠ 0 then { s with efer := s.efer ||| ia32EferLMA }
  else { s with efer := s.efer &&& ~~~ia32EferLMA }

/-- `vmwrite_cr`, as far as it changes EFER. -/
def vmwriteCrEfer (s : ModeState) : ModeState :=
  vmwriteEfer (if s.cr4 &&& cr4PAE = 0 ∧ s.cr0 &&& cr0PG ≠ 0 then { s with efer := 0 } else s)

/-- An exit of the guest. `load` says whether `load_vmcs` succeeds, and `pdpt` whether
`vcpu_prepare_pae_pdpt` would. -/
inductive ModeExit
  | movCr0 (val : BitVec 64) (pdpt load : Bool)
  | movCr4 (val : BitVec 64) (pdpt load : Bool)
  | clts (load : Bool)
  | lmsw (source : BitVec 16) (load : Bool)
  | wrmsrEfer (val : BitVec 64)

/-- `is_ept_pae`: whether an access to a control register has the PDPTEs reloaded. -/
def isEptPae (s : ModeState) : ModeExit → Bool
  | .movCr0 val _ _ => val &&& cr0PG ≠ 0 ∧ s.cr4 &&& cr4PAE ≠ 0 ∧ s.efer &&& ia32EferLME = 0 ∧
      (val ^^^ s.cr0) &&& (cr0CD ||| cr0NW ||| cr0PG) ≠ 0
  | .movCr4 val _ _ => val &&& cr4PAE ≠ 0 ∧ s.cr0 &&& cr0PG ≠ 0 ∧ s.efer &&& ia32EferLME = 0 ∧
      (val ^^^ s.cr4) &&& (cr4PAE ||| cr4PGE ||| cr4PSE) ≠ 0
  | _ => false

/-- The end of `exit_cr_access` for a write: the PDPTEs are reloaded if need be, and the
registers are written to the VMCS. -/
def crWritten (isEptPae pdpt load : Bool) (s : ModeState) : ModeState :=
  if (isEptPae && !pdpt) || !load then { s with panicked := true } else vmwriteCrEfer s

/-- `exit_cr_access` and the guest's write of EFER in `handle_msr_write`: `none` if they inject
a general protection exception. `hostLma` is EFER.LMA of the host. -/
def modeExit (ugEnableFlag hostLma : Bool) (s : ModeState) : ModeExit → Option ModeState
  | .movCr0 val pdpt load =>
    if val &&& cr0PG ≠ 0 ∧ val &&& cr0PE = 0 then none
    else if s.cr0 &&& cr0PG = 0 ∧ val &&& cr0PG ≠ 0 ∧ s.efer &&& ia32EferLME ≠ 0 ∧
        s.cr4 &&& cr4PAE = 0 then none
    -- HAX_EXIT_REALMODE
    else if ugEnableFlag = false ∧ s.cr0 &&& cr0PE ≠ 0 ∧ val &&& cr0PE = 0 then some s
    else some (crWritten (isEptPae s (.movCr0 val pdpt load)) pdpt load { s with cr0 := val })
  | .movCr4 val pdpt load =>
    if s.efer &&& ia32EferLMA ≠ 0 ∧ val &&& cr4PAE = 0 then none
    else some (crWritten (isEptPae s (.movCr4 val pdpt load)) pdpt load { s with cr4 := val })
  | .clts load => some (crWritten false true load { s with cr0 := s.cr0 &&& ~~~cr0TS })
  | .lmsw source load =>
    some (crWritten false true load
      { s with cr0 := (s.cr0 &&& ~~~0xf) ||| (source &&& 0xf).setWidth 64 })
  | .wrmsrEfer val =>
    if val &&& ~~~(ia32EferSCE ||| ia32EferLME ||| ia32EferLMA ||| ia32EferXD).setWidth 64 ≠ 0 then
      none
    else if s.cr0 &&& cr0PG ≠ 0 ∧
        (val.setWidth 32 &&& ia32EferLME) ^^^ (s.efer &&& ia32EferLME) ≠ 0 then none
    else
      let s := { s with efer := val.setWidth 32 }
      if hostLma = false ∧ s.efer &&& ia32EferLME ≠ 0 then some { s with panicked := true }
      else some (vmwriteEfer s)

/-- Paging is only on in protected mode, and long mode is active exactly if it is enabled and
paging is on, with PAE. -/
structure ModeOk (s : ModeState) : Prop where
  protects : s.cr0 &&& cr0PG ≠ 0 → s.cr0 &&& cr0PE ≠ 0
  active : s.efer &&& ia32EferLMA ≠ 0 ↔ s.efer &&& ia32EferLME ≠ 0 ∧ s.cr0 &&& cr0PG ≠ 0
  extended : s.efer &&& ia32EferLMA ≠ 0 → s.cr4 &&& cr4PAE ≠ 0

/-- The guest's own bits of EFER. -/
def ModeState.eferSet (s : ModeState) : BitVec 32 := s.efer &&& ~~~ia32EferLMA

/-- A virtual CPU that has panicked takes no more exits, and an exception changes nothing. -/
def modeStep (ugEnableFlag hostLma : Bool) (s : ModeState) (e : ModeExit) : ModeState :=
  if s.panicked then s else (modeExit ugEnableFlag hostLma s e).getD s

/-- CR0 and CR4 do not turn on paging without PAE while the guest has set bits of EFER. -/
def EferFits (cr0 cr4 : BitVec 64) (s : ModeState) : Prop :=
  cr0 &&& cr0PG ≠ 0 → cr4 &&& cr4PAE ≠ 0 ∨ s.eferSet = 0

/-- Whether the virtual CPU panics at the end of an access to a control register. -/
def ModeExit.fails (s : ModeState) : ModeExit → Bool
  | .movCr0 val pdpt load => (isEptPae s (.movCr0 val pdpt load) && !pdpt) || !load
  | .movCr4 val pdpt load => (isEptPae s (.movCr4 val pdpt load) && !pdpt) || !load
  | .clts load | .lmsw _ load => !load
  | .wrmsrEfer _ => false

/-- Exits that keep to the rules: EFER fits the new registers, and LMSW does not clear PE under
paging. Where the virtual CPU panics, LMA is not brought up to date, so that it must not be out
of date by then. -/
def ModeKeeps (ugEnableFlag hostLma : Bool) (s : ModeState) : ModeExit → Prop
  | .movCr0 val pdpt load =>
    (ugEnableFlag = false ∧ s.cr0 &&& cr0PE ≠ 0 ∧ val &&& cr0PE = 0) ∨
      if ModeExit.fails s (.movCr0 val pdpt load) then
        s.efer &&& ia32EferLME = 0 ∨ (val &&& cr0PG ≠ 0 ↔ s.cr0 &&& cr0PG ≠ 0)
      else EferFits val s.cr4 s
  | .movCr4 val pdpt load => ModeExit.fails s (.movCr4 val pdpt load) ∨ EferFits s.cr0 val s
  | .clts load => ModeExit.fails s (.clts load) ∨ EferFits s.cr0 s.cr4 s
  | .lmsw source load => (s.cr0 &&& cr0PG ≠ 0 → source.getLsbD 0 = true) ∧
      (ModeExit.fails s (.lmsw source load) ∨ EferFits s.cr0 s.cr4 s)
  | .wrmsrEfer val => hostLma = true ∨ val.setWidth 32 &&& ia32EferLME = 0 ∨
      (val.setWidth 32 &&& ia32EferLMA ≠ 0 ↔ s.cr0 &&& cr0PG ≠ 0)

/-- The exit injects an exception, or keeps to the rules. -/
def ModeSafe (ugEnableFlag hostLma : Bool) (s : ModeState) (e : ModeExit) : Prop :=
  modeExit ugEnableFlag hostLma s e = none ∨ ModeKeeps ugEnableFlag hostLma s e

/-- An access to a control register, not the write of EFER. -/
def ModeExit.isCr : ModeExit → Bool
  | .wrmsrEfer _ => false
  | _ => true

/-- The mode is consistent, and nothing but LMA has changed in EFER. -/
def ModeKept (s s' : ModeState) : Prop := ModeOk s' ∧ s'.eferSet = s.eferSet

section Handlers

variable {ugEnableFlag hostLma : Bool} {s s' : ModeState} {e : ModeExit}

/-- Only LMA changes. -/
theorem vmwriteEfer_spec (s : ModeState) :
    (vmwriteEfer s).cr0 = s.cr0 ∧ (vmwriteEfer s).cr4 = s.cr4 ∧
      (vmwriteEfer s).eferSet = s.eferSet ∧
      ((vmwriteEfer s).efer &&& ia32EferLMA ≠ 0 ↔
        s.efer &&& ia32EferLME ≠ 0 ∧ s.cr0 &&& cr0PG ≠ 0) := by
  unfold vmwriteEfer ModeState.eferSet
  split
  case isTrue active =>
    refine ⟨rfl, rfl, ?_, iff_of_true (fun zero => ?_) active.symm⟩
    · rw [BitVec.and_or_distrib_right, BitVec.and_not_self]
      exact BitVec.or_zero
    · have bit := congrArg (fun x => x.getLsbD 10) zero
      simp [ia32EferLMA] at bit
  case isFalse inactive =>
    refine ⟨rfl, rfl, ?_, iff_of_false (fun set => set ?_) (mt And.symm inactive)⟩
    · simp only [BitVec.and_assoc, BitVec.and_self]
    · rw [BitVec.and_assoc, BitVec.not_and_self]
      exact BitVec.and_zero

/-- LME is one of the guest's own bits. -/
theorem lme_eq (s : ModeState) : s.efer &&& ia32EferLME = s.eferSet &&& ia32EferLME := by
  rw [ModeState.eferSet, BitVec.and_assoc]
  rfl

theorem vmwriteEfer_ok (protects : s.cr0 &&& cr0PG ≠ 0 → s.cr0 &&& cr0PE ≠ 0)
    (extended : s.efer &&& ia32EferLME ≠ 0 → s.cr0 &&& cr0PG ≠ 0 → s.cr4 &&& cr4PAE ≠ 0) :
    ModeOk (vmwriteEfer s) := by
  obtain ⟨cr0, cr4, eferSet, active⟩ := vmwriteEfer_spec s
  refine ⟨by rwa [cr0], ?_, fun lma => ?_⟩
  · rw [active, lme_eq (vmwriteEfer s), eferSet, ← lme_eq, cr0]
  · rw [cr4]
    exact extended (active.mp lma).1 (active.mp lma).2

theorem vmwriteCrEfer_kept_iff (s : ModeState) :
    ModeKept s (vmwriteCrEfer s) ↔
      (s.cr0 &&& cr0PG ≠ 0 → s.cr0 &&& cr0PE ≠ 0) ∧ EferFits s.cr0 s.cr4 s := by
  unfold vmwriteCrEfer
  split
  case isTrue flat =>
    have cleared : (vmwriteEfer { s with efer := 0 }).eferSet = 0 :=
      (vmwriteEfer_spec _).2.2.1.trans BitVec.zero_and
    constructor
    · rintro ⟨ok, same⟩
      refine ⟨fun pg => ?_, fun _ => .inr (same.symm.trans cleared)⟩
      have protects := ok.protects
      rw [(vmwriteEfer_spec _).1] at protects
      exact protects pg
    · rintro ⟨protects, fits⟩
      have unset : s.eferSet = 0 := (fits flat.2).resolve_left fun pae => pae flat.1
      exact ⟨vmwriteEfer_ok protects fun lme => absurd BitVec.zero_and lme,
        cleared.trans unset.symm⟩
  case isFalse extended =>
    constructor
    · rintro ⟨ok, -⟩
      refine ⟨fun pg => ?_, fun pg => .inl fun pae => extended ⟨pae, pg⟩⟩
      have protects := ok.protects
      rw [(vmwriteEfer_spec s).1] at protects
      exact protects pg
    · rintro ⟨protects, -⟩
      exact ⟨vmwriteEfer_ok protects fun _ pg pae => extended ⟨pae, pg⟩, (vmwriteEfer_spec s).2.2.1⟩

/-- The end of an access: EFER has to fit, unless the virtual CPU panics with the registers as
they are. -/
theorem crWritten_kept_iff (isEptPae pdpt load : Bool) (s : ModeState) :
    ModeKept s (crWritten isEptPae pdpt load s) ↔
      if (isEptPae && !pdpt) || !load then ModeOk s
      else (s.cr0 &&& cr0PG ≠ 0 → s.cr0 &&& cr0PE ≠ 0) ∧ EferFits s.cr0 s.cr4 s := by
  unfold crWritten
  split
  · exact ⟨fun kept => ⟨kept.1.protects, kept.1.active, kept.1.extended⟩,
      fun ok => ⟨⟨ok.protects, ok.active, ok.extended⟩, rfl⟩⟩
  · exact vmwriteCrEfer_kept_iff s

/-- CLTS and LMSW have no effect on PG. -/
theorem modeOk_cr0_iff {val : BitVec 64} (ok : ModeOk s) (pg : val &&& cr0PG = s.cr0 &&& cr0PG) :
    ModeOk { s with cr0 := val } ↔ (s.cr0 &&& cr0PG ≠ 0 → val &&& cr0PE ≠ 0) := by
  constructor
  · intro ok'
    rw [← pg]
    exact ok'.protects
  · intro protects
    refine ⟨?_, ?_, ok.extended⟩
    · rw [pg]
      exact protects
    · rw [pg]
      exact ok.active

theorem crWritten_cr0_iff {val : BitVec 64} {load : Bool} (ok : ModeOk s)
    (pg : val &&& cr0PG = s.cr0 &&& cr0PG) :
    ModeKept s (crWritten false true load { s with cr0 := val }) ↔
      (s.cr0 &&& cr0PG ≠ 0 → val &&& cr0PE ≠ 0) ∧ (!load ∨ EferFits s.cr0 s.cr4 s) := by
  have written := crWritten_kept_iff false true load { s with cr0 := val }
  refine written.trans ?_
  cases load with
  | false => simpa using modeOk_cr0_iff ok pg
  | true => simp [EferFits, ModeState.eferSet, pg]

/-- MOV to CR0, when it is carried out. -/
theorem movCr0_kept_iff {val : BitVec 64} (isEptPae pdpt load : Bool) (ok : ModeOk s)
    (protects : val &&& cr0PG ≠ 0 → val &&& cr0PE ≠ 0) :
    ModeKept s (crWritten isEptPae pdpt load { s with cr0 := val }) ↔
      if (isEptPae && !pdpt) || !load then
        s.efer &&& ia32EferLME = 0 ∨ (val &&& cr0PG ≠ 0 ↔ s.cr0 &&& cr0PG ≠ 0)
      else EferFits val s.cr4 s := by
  refine (crWritten_kept_iff isEptPae pdpt load { s with cr0 := val }).trans ?_
  split
  · -- LMA is right for the old PG, and hence for the new one unless LME lets it depend on PG
    constructor
    · intro ok'
      refine or_iff_not_imp_left.2 fun lme => ?_
      have before := ok.active
      have after := ok'.active
      dsimp only at after
      simp only [lme, ne_eq, not_false_eq_true, true_and] at before after
      exact after.symm.trans before
    · intro fits
      refine ⟨protects, ok.active.trans (and_congr_right fun lme => ?_), ok.extended⟩
      exact (fits.resolve_left lme).symm
  · exact and_iff_right protects

/-- MOV to CR4, when it is carried out. -/
theorem movCr4_kept_iff {val : BitVec 64} (isEptPae pdpt load : Bool) (ok : ModeOk s)
    (extended : s.efer &&& ia32EferLMA ≠ 0 → val &&& cr4PAE ≠ 0) :
    ModeKept s (crWritten isEptPae pdpt load { s with cr4 := val }) ↔
      ((isEptPae && !pdpt) || !load) ∨ EferFits s.cr0 val s := by
  refine (crWritten_kept_iff isEptPae pdpt load { s with cr4 := val }).trans ?_
  split
  case isTrue fails => exact iff_of_true ⟨ok.protects, ok.active, extended⟩ (.inl fails)
  case isFalse done => exact (and_iff_right ok.protects).trans (or_iff_right done).symm

/-- The write of EFER, when it is carried out. -/
theorem wrmsrEfer_ok_iff (hostLma : Bool) {efer : BitVec 32} (ok : ModeOk s)
    (same : s.cr0 &&& cr0PG ≠ 0 → efer &&& ia32EferLME = s.efer &&& ia32EferLME) :
    ModeOk (if hostLma = false ∧ efer &&& ia32EferLME ≠ 0 then
        { s with efer := efer, panicked := true } else vmwriteEfer { s with efer := efer }) ↔
      hostLma = true ∨ efer &&& ia32EferLME = 0 ∨
        (efer &&& ia32EferLMA ≠ 0 ↔ s.cr0 &&& cr0PG ≠ 0) := by
  have extended (lme : efer &&& ia32EferLME ≠ 0) (pg : s.cr0 &&& cr0PG ≠ 0) :
      s.cr4 &&& cr4PAE ≠ 0 := by
    rw [same pg] at lme
    exact ok.extended (ok.active.2 ⟨lme, pg⟩)
  split
  case isTrue foreign =>
    simp only [foreign.1, Bool.false_eq_true, foreign.2, false_or]
    constructor
    · intro ok'
      exact ok'.active.trans (and_iff_right foreign.2)
    · intro active
      refine ⟨ok.protects, active.trans (and_iff_right foreign.2).symm, fun lma => ?_⟩
      exact extended foreign.2 (active.1 lma)
  case isFalse own =>
    refine iff_of_true (vmwriteEfer_ok ok.protects extended) ?_
    cases hostLma with
    | true => exact .inl rfl
    | false => exact .inr (.inl (not_not.1 fun lme => own ⟨rfl, lme⟩))

theorem lmsw_pg (cr0 : BitVec 64) (source : BitVec 16) :
    ((cr0 &&& ~~~0xf) ||| (source &&& 0xf).setWidth 64) &&& cr0PG = cr0 &&& cr0PG := by
  have high : (source &&& 0xf).setWidth 64 &&& cr0PG = 0 := by
    rw [show cr0PG = BitVec.twoPow 64 31 from rfl, BitVec.and_twoPow]
    simp
  rw [BitVec.and_or_distrib_right, BitVec.and_assoc, high]
  exact BitVec.or_zero

theorem lmsw_pe (cr0 : BitVec 64) (source : BitVec 16) :
    ((cr0 &&& ~~~0xf) ||| (source &&& 0xf).setWidth 64) &&& cr0PE ≠ 0 ↔
      source.getLsbD 0 = true := by
  have one : BitVec.twoPow 64 0 ≠ 0#64 := by decide
  rw [show cr0PE = BitVec.twoPow 64 0 from rfl, BitVec.and_twoPow]
  simp [one]

/-- One exit: unless it injects an exception, the mode stays consistent and EFER the guest's own
just if the exit keeps to the rules. -/
theorem modeExit_kept_iff (ok : ModeOk s) (e : ModeExit) :
    (∀ s', modeExit ugEnableFlag hostLma s e = some s' →
        ModeOk s' ∧ (e.isCr = true → s'.eferSet = s.eferSet)) ↔
      ModeSafe ugEnableFlag hostLma s e := by
  unfold ModeSafe
  cases h : modeExit ugEnableFlag hostLma s e with
  | none => simp
  | some s' =>
    simp only [Option.some.injEq, forall_eq', reduceCtorEq, false_or]
    cases e with
    | movCr0 val pdpt load =>
      simp only [modeExit] at h
      split_ifs at h with unprotected _ real
      · cases h
        exact iff_of_true ⟨ok, fun _ => rfl⟩ (.inl real)
      · cases h
        have protects (pg : val &&& cr0PG ≠ 0) : val &&& cr0PE ≠ 0 := fun pe => unprotected ⟨pg, pe⟩
        simp only [ModeExit.isCr, forall_const]
        exact (movCr0_kept_iff _ pdpt load ok protects).trans (or_iff_right real).symm
    | movCr4 val pdpt load =>
      simp only [modeExit] at h
      split_ifs at h with inactive
      cases h
      simp only [ModeExit.isCr, forall_const]
      exact movCr4_kept_iff _ pdpt load ok fun lma pae => inactive ⟨lma, pae⟩
    | clts load =>
      simp only [modeExit, Option.some.injEq] at h
      subst h
      have pg : (s.cr0 &&& ~~~cr0TS) &&& cr0PG = s.cr0 &&& cr0PG := by
        rw [BitVec.and_assoc]
        rfl
      have pe : (s.cr0 &&& ~~~cr0TS) &&& cr0PE = s.cr0 &&& cr0PE := by
        rw [BitVec.and_assoc]
        rfl
      simp only [ModeExit.isCr, forall_const]
      refine (crWritten_cr0_iff ok pg).trans (and_iff_right ?_)
      rw [pe]
      exact ok.protects
    | lmsw source load =>
      simp only [modeExit, Option.some.injEq] at h
      subst h
      simp only [ModeExit.isCr, forall_const]
      refine (crWritten_cr0_iff ok (lmsw_pg s.cr0 source)).trans (and_congr_left fun _ => ?_)
      rw [lmsw_pe]
    | wrmsrEfer val =>
      simp only [modeExit] at h
      split_ifs at h with reserved change foreign
      all_goals
        cases h
        simp only [ModeExit.isCr, Bool.false_eq_true, false_imp_iff, and_true]
        have same (pg : s.cr0 &&& cr0PG ≠ 0) :
            val.setWidth 32 &&& ia32EferLME = s.efer &&& ia32EferLME :=
          BitVec.xor_eq_zero_iff.mp (by_contra fun differs => change ⟨pg, differs⟩)
        have written := wrmsrEfer_ok_iff hostLma ok same
      · rwa [if_pos foreign] at written
      · rwa [if_neg foreign] at written

/-- In every run of exits that keep to the rules, the mode is consistent, and the next exit keeps
it so, and EFER the guest's own, just if it keeps to them as well. -/
theorem modeOk_of_reached {start : ModeState} (ok : ModeOk start)
    (reached : Reached start
      (fun s e => s.panicked = true ∨ ModeSafe ugEnableFlag hostLma s e)
      (modeStep ugEnableFlag hostLma) s) :
    ModeOk s ∧ ∀ e,
      (∀ s', modeExit ugEnableFlag hostLma s e = some s' →
        ModeOk s' ∧ (e.isCr = true → s'.eferSet = s.eferSet)) ↔
      ModeSafe ugEnableFlag hostLma s e := by
  have kept : ModeOk s := by
    refine reached.invariant ok fun s e ok safe => ?_
    unfold modeStep
    split
    case isTrue => exact ok
    case isFalse alive =>
      have exits := (modeExit_kept_iff ok e).2 (safe.resolve_left alive)
      cases h : modeExit ugEnableFlag hostLma s e with
      | none => exact ok
      | some s' => exact (exits s' h).1
  exact ⟨kept, modeExit_kept_iff kept⟩

end Handlers

/-- Protected mode with PAE, and long mode enabled. -/
def enablesLongMode : ModeState := { cr0 := 0x11, cr4 := 0x20, efer := 0x100 }

/-- Turning on paging activates long mode. -/
theorem enablesLongMode_ok :
    modeStep true true enablesLongMode (.movCr0 0x80000011 true true) =
        { cr0 := 0x80000011, cr4 := 0x20, efer := 0x500 } ∧
      ModeOk (modeStep true true enablesLongMode (.movCr0 0x80000011 true true)) := by
  have reached : Reached enablesLongMode (fun s e => s.panicked = true ∨ ModeSafe true true s e)
      (modeStep true true) (modeStep true true enablesLongMode (.movCr0 0x80000011 true true)) :=
    .step .init (.inr (.inr (.inr fun _ => .inl (by decide))))
  exact ⟨by decide, (modeOk_of_reached ⟨by decide, by decide, by decide⟩ reached).1⟩

/-- Without PAE, turning on paging clears SCE and NXE, and LMSW then leaves protected mode. -/
theorem modeOk_fails :
    ModeOk { cr0 := 0x11, cr4 := 0, efer := 0x801 } ∧
      modeExit true true { cr0 := 0x11, cr4 := 0, efer := 0x801 } (.movCr0 0x80000011 true true) =
        some { cr0 := 0x80000011, cr4 := 0, efer := 0 } ∧
      ModeOk { cr0 := 0x80000011, cr4 := 0, efer := 0 } ∧
      modeExit true true { cr0 := 0x80000011, cr4 := 0, efer := 0 } (.lmsw 0 true) =
        some { cr0 := 0x80000010, cr4 := 0, efer := 0 } ∧
      ¬ ModeOk { cr0 := 0x80000010, cr4 := 0, efer := 0 } := by
  refine ⟨⟨by decide, by decide, by decide⟩, by decide, ⟨by decide, by decide, by decide⟩,
    by decide, fun ok => ?_⟩
  exact absurd (ok.protects (by decide)) (by decide)

end Haxm
