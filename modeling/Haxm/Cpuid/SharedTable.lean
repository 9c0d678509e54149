/-
# One table for all virtual CPUs

Two answers of CPUID depend on the virtual CPU that asks: whether it has enabled
XSAVE in CR4, and how large its save area is for its XCR0. The table is shared by
all virtual CPUs of the guest, and `cpuid_update` writes into it what holds for
the one that has changed something. So the others read a foreign answer. And
since OSXSAVE is not among the bits of CR4 whose writes exit, a write that
changes nothing else is not noticed at all.

Left out are the ways in which a write of CR4 panics the virtual CPU: it executes
no CPUID afterwards.
-/

import Haxm.Cpuid.Table

namespace Haxm

open Lib

/-! ## The virtual CPUs of a guest -/

def cr4OSXSAVE : BitVec 64 := 1 <<< 18
def featureXsave : BitVec 32 := features [26]

def xfeatureMaskFp : BitVec 64 := 1 <<< 0
def xfeatureMaskSse : BitVec 64 := 1 <<< 1
def xfeatureMaskYmm : BitVec 64 := 1 <<< 2
def xfeatureMaskBndregs : BitVec 64 := 1 <<< 3
def xfeatureMaskBndcsr : BitVec 64 := 1 <<< 4
def xfeatureMaskAvx512 : BitVec 64 := 1 <<< 5 ||| 1 <<< 6 ||| 1 <<< 7

/-- What the two answers depend on. -/
structure XsaveVcpu where
  cr4 : BitVec 64 := 0
  xcr0 : BitVec 64

/-- `n` virtual CPUs and `vcpu_0->guest_cpuid`, which all of them refer to. -/
structure XsaveVm (n : ℕ) where
  table : List CpuidEntry
  /-- `vm->valid_xcr0`. -/
  validXcr0 : BitVec 64
  vcpu : Fin n → XsaveVcpu

variable {n : ℕ} (host : CpuidHost) (info : VmxInfo)

/-- `cpu_has_feature(X86_FEATURE_XSAVE)`. -/
def cpuHasXsave : Bool := (host.cpuid 0x1 0).ecx &&& featureXsave != 0

/-- `cpuid_post_set_features`. -/
def cpuidPostSetFeatures (table : List CpuidEntry) : BitVec 64 :=
  match findCpuidEntry table 0x0d 0 with
  | none => 0
  | some e => (e.edx ++ e.eax) &&& host.supportedXcr0

/-- `cpuid_guest_has_feature` for XSAVE. -/
def cpuidGuestHasXsave (table : List CpuidEntry) : Bool :=
  match findCpuidEntry table 0x1 0 with
  | none => false
  | some e => e.ecx &&& featureXsave != 0

/-- `vcpu_init_fx`. -/
def vcpuInitFx (table : List CpuidEntry) : XsaveVcpu where
  xcr0 := if cpuidGuestHasXsave table then host.supportedXcr0 else xfeatureMaskFp

/-- A new guest: the first virtual CPU fills the table. -/
def xsaveVmCreate (n : ℕ) (stack : CpuidArgs) : XsaveVm n :=
  let table := cpuidGuestInit host stack
  { table, validXcr0 := cpuidPostSetFeatures host table, vcpu := fun _ => vcpuInitFx host table }

/-! ## CR4 and XCR0 -/

/-- `cpuid_update` for virtual CPU `c`. -/
def XsaveVcpu.cpuidUpdate (c : XsaveVcpu) (table : List CpuidEntry) : List CpuidEntry :=
  Haxm.cpuidUpdate host (cpuHasXsave host) (c.cr4 &&& cr4OSXSAVE != 0) c.xcr0 table

/-- The bits of CR4 whose writes exit, as `vmwrite_cr` sets them. -/
def guestCr4Mask : BitVec 64 :=
  vmxCrMask ||| ~~~(info.cr4Fixed0 ^^^ info.cr4Fixed1) ||| cr4VMXE ||| cr4SMXE ||| cr4MCE |||
    cr4PAE

/-- A write exits if it changes such a bit. -/
def cr4WriteExits (old val : BitVec 64) : Bool := (val ^^^ old) &&& guestCr4Mask info != 0

/-- MOV to CR4, with `exit_cr_access` if it exits; `lma` is `IA32_EFER_LMA`. -/
def movCr4 (s : XsaveVm n) (i : Fin n) (val : BitVec 64) (lma : Bool) : XsaveVm n :=
  let old := s.vcpu i
  let new := { old with cr4 := val }
  if cr4WriteExits info old.cr4 val then
    -- #GP
    if lma && val &&& cr4PAE == 0 then s
    else
      { s with
        table :=
          if (val ^^^ old.cr4) &&& cr4OSXSAVE ≠ 0 then new.cpuidUpdate host s.table else s.table
        vcpu := Function.update s.vcpu i new }
  else { s with vcpu := Function.update s.vcpu i new }

/-- The checks of `vcpu_set_xcr`. -/
def xcrAccepted (validXcr0 : BitVec 64) (index : BitVec 32) (xcr0 : BitVec 64) : Bool :=
  index == 0 &&
    xcr0 &&& xfeatureMaskFp != 0 &&
    !(xcr0 &&& xfeatureMaskYmm != 0 && xcr0 &&& xfeatureMaskSse == 0) &&
    xcr0 &&& ~~~(validXcr0 ||| xfeatureMaskFp) == 0 &&
    (xcr0 &&& xfeatureMaskBndregs == 0) == (xcr0 &&& xfeatureMaskBndcsr == 0) &&
    xcr0 &&& xfeatureMaskAvx512 == 0

/-- `vcpu_set_xcr`. -/
def vcpuSetXcr (s : XsaveVm n) (i : Fin n) (index : BitVec 32) (xcr0 : BitVec 64) : XsaveVm n :=
  let old := s.vcpu i
  let new := { old with xcr0 := xcr0 }
  if xcrAccepted s.validXcr0 index xcr0 then
    { s with
      table :=
        if (xcr0 ^^^ old.xcr0) &&& xfeatureMaskExtended ≠ 0 then new.cpuidUpdate host s.table
        else s.table
      vcpu := Function.update s.vcpu i new }
  else s

/-- The value that `exit_xsetbv` makes of RAX and RDX. -/
def xsetbvValue (rax rdx : BitVec 64) : BitVec 64 := rax ||| rdx <<< 32

/-- XSETBV at privilege level `cpl`: without OSXSAVE it does not exist, and above
level 0 it is refused. -/
def xsetbv (s : XsaveVm n) (i : Fin n) (cpl : ℕ) (rcx rax rdx : BitVec 64) : XsaveVm n :=
  if (s.vcpu i).cr4 &&& cr4OSXSAVE = 0 ∨ cpl > 0 then s
  else vcpuSetXcr host s i (lowWord rcx) (xsetbvValue rax rdx)

inductive XsaveStep (n : ℕ)
  | movCr4 (i : Fin n) (val : BitVec 64) (lma : Bool)
  | xsetbv (i : Fin n) (cpl : ℕ) (rcx rax rdx : BitVec 64)

def xsaveStep (s : XsaveVm n) : XsaveStep n → XsaveVm n
  | .movCr4 i val lma => Haxm.movCr4 host info s i val lma
  | .xsetbv i cpl rcx rax rdx => Haxm.xsetbv host s i cpl rcx rax rdx

/-! ## The answers -/

/-- The answers to virtual CPU `c`. -/
structure XsaveVcpu.Shown (c : XsaveVcpu) (table : List CpuidEntry) : Prop where
  osxsave : ∀ args : CpuidArgs, args.eax = 0x1 →
    ((cpuidExecute host table args).ecx &&& featureOsxsave ≠ 0 ↔ c.cr4 &&& cr4OSXSAVE ≠ 0)
  size : ∀ args : CpuidArgs, args.eax = 0xd → args.ecx = 0 →
    (cpuidExecute host table args).ebx = calcXstateRequiredSize host c.xcr0 false

/-- Every virtual CPU gets its own answers. -/
def XsaveVm.OwnAnswers (s : XsaveVm n) : Prop := ∀ i, (s.vcpu i).Shown host s.table

/-- A write of CR4 changes OSXSAVE only if it exits and there is no other virtual
CPU; XSETBV, if it is not refused, changes the size only if there is none. -/
def XsaveStep.Harmless (s : XsaveVm n) : XsaveStep n → Prop
  | .movCr4 i val lma =>
    (val ^^^ (s.vcpu i).cr4) &&& cr4OSXSAVE = 0 ∨
      cr4WriteExits info (s.vcpu i).cr4 val = true ∧
        ((lma = true ∧ val &&& cr4PAE = 0) ∨ ∀ j, j = i)
  | .xsetbv i cpl rcx rax rdx =>
    ((s.vcpu i).cr4 &&& cr4OSXSAVE = 0 ∨ cpl > 0 ∨
        xcrAccepted s.validXcr0 (lowWord rcx) (xsetbvValue rax rdx) = false) ∨
      calcXstateRequiredSize host (xsetbvValue rax rdx) false =
        calcXstateRequiredSize host (s.vcpu i).xcr0 false ∨
      ∀ j, j = i

/-! ## The table after an update -/

variable {host info} {table : List CpuidEntry} {c c' : XsaveVcpu}

theorem and_osxsave_ne_zero (cr4 : BitVec 64) :
    cr4 &&& cr4OSXSAVE ≠ 0 ↔ cr4.getLsbD 18 = true := by
  have mask : IsMask cr4OSXSAVE 18 1 := isMask_of_eq (by decide)
  rw [← bne_iff_ne, mask.and_bne_zero, anyBit_one]

/-- A write leaves OSXSAVE alone if the bit is the same before and after. -/
theorem xor_osxsave_eq_zero (val old : BitVec 64) :
    (val ^^^ old) &&& cr4OSXSAVE = 0 ↔
      (old &&& cr4OSXSAVE ≠ 0 ↔ val &&& cr4OSXSAVE ≠ 0) := by
  have differ := and_osxsave_ne_zero (val ^^^ old)
  rw [← not_iff_not, ← ne_eq, differ, BitVec.getLsbD_xor, and_osxsave_ne_zero,
    and_osxsave_ne_zero]
  cases val.getLsbD 18 <;> cases old.getLsbD 18 <;> simp

theorem or_featureOsxsave (w : BitVec 32) : (w ||| featureOsxsave) &&& featureOsxsave ≠ 0 := by
  intro zero
  have bit := congrArg (fun w => w.getLsbD 27) zero
  have set : featureOsxsave.getLsbD 27 = true := by decide
  simp only [BitVec.getLsbD_and, BitVec.getLsbD_or, set] at bit
  simp at bit

theorem andNot_featureOsxsave (w : BitVec 32) :
    w &&& ~~~featureOsxsave &&& featureOsxsave = 0 := by
  rw [BitVec.and_assoc, BitVec.and_comm (~~~featureOsxsave)]
  simp

/-- The answers are in two entries. -/
theorem shown_iff (keys : table.map CpuidEntry.key = cpuidKeys) {e₁ e₁₃ : CpuidEntry}
    (h₁ : findCpuidEntry table 0x1 0 = some e₁) (h₁₃ : findCpuidEntry table 0xd 0 = some e₁₃) :
    c.Shown host table ↔
      (e₁.ecx &&& featureOsxsave ≠ 0 ↔ c.cr4 &&& cr4OSXSAVE ≠ 0) ∧
        e₁₃.ebx = calcXstateRequiredSize host c.xcr0 false := by
  have one (args : CpuidArgs) (eax : args.eax = 0x1) : cpuidExecute host table args = e₁.args :=
    cpuidExecute_entry keys h₁ eax (.inr (by decide))
  have thirteen (args : CpuidArgs) (eax : args.eax = 0xd) (ecx : args.ecx = 0) :
      cpuidExecute host table args = e₁₃.args :=
    cpuidExecute_entry keys h₁₃ eax (.inl ecx)
  constructor
  · intro shown
    have osxsave := shown.osxsave { eax := 0x1 } rfl
    have size := shown.size { eax := 0xd } rfl rfl
    rw [one _ rfl] at osxsave
    rw [thirteen _ rfl rfl] at size
    exact ⟨osxsave, size⟩
  · rintro ⟨osxsave, size⟩
    constructor
    · intro args eax
      rw [one args eax]
      exact osxsave
    · intro args eax ecx
      rw [thirteen args eax ecx]
      exact size

/-- Two virtual CPUs to which the same answers are right. -/
def XsaveVcpu.Alike (host : CpuidHost) (c c' : XsaveVcpu) : Prop :=
  (c.cr4 &&& cr4OSXSAVE ≠ 0 ↔ c'.cr4 &&& cr4OSXSAVE ≠ 0) ∧
    calcXstateRequiredSize host c.xcr0 false = calcXstateRequiredSize host c'.xcr0 false

theorem XsaveVcpu.Shown.alike_iff (h : c.Shown host table) :
    c'.Shown host table ↔ c.Alike host c' := by
  constructor
  · intro h'
    have osxsave := (h.osxsave { eax := 0x1 } rfl).symm.trans (h'.osxsave { eax := 0x1 } rfl)
    have size := (h.size { eax := 0xd } rfl rfl).symm.trans (h'.size { eax := 0xd } rfl rfl)
    exact ⟨osxsave, size⟩
  · rintro ⟨osxsave, size⟩
    exact ⟨fun args eax => (h.osxsave args eax).trans osxsave,
      fun args eax ecx => (h.size args eax ecx).trans size⟩

/-- `cpuid_update` writes the answers for its virtual CPU. -/
theorem shown_cpuidUpdate (xsave : cpuHasXsave host = true)
    (keys : table.map CpuidEntry.key = cpuidKeys) : c.Shown host (c.cpuidUpdate host table) := by
  obtain ⟨e₁, h₁⟩ := exists_findCpuidEntry keys 0x1 0 (by decide)
  obtain ⟨e₁₃, h₁₃⟩ := exists_findCpuidEntry keys 0xd 0 (by decide)
  have after : (c.cpuidUpdate host table).map CpuidEntry.key = cpuidKeys :=
    (cpuidUpdate_keys _ _ _).trans keys
  have after₁ : findCpuidEntry (c.cpuidUpdate host table) 0x1 0 =
      some (writeOsxsave (c.cr4 &&& cr4OSXSAVE != 0) e₁) := by
    rw [XsaveVcpu.cpuidUpdate, xsave, findCpuidEntry_cpuidUpdate_1, h₁]
    rfl
  have after₁₃ : findCpuidEntry (c.cpuidUpdate host table) 0xd 0 =
      some (writeSize host c.xcr0 e₁₃) := by
    rw [XsaveVcpu.cpuidUpdate, xsave, findCpuidEntry_cpuidUpdate_d, h₁₃]
    rfl
  rw [shown_iff after after₁ after₁₃]
  refine ⟨?_, rfl⟩
  unfold writeOsxsave
  dsimp only
  split
  case isTrue enabled => exact iff_of_true (or_featureOsxsave _) (bne_iff_ne.mp enabled)
  case isFalse disabled =>
    exact iff_of_false (not_not.mpr (andNot_featureOsxsave _))
      (fun enabled => disabled (bne_iff_ne.mpr enabled))

/-! ## One step -/

variable {s : XsaveVm n} {i : Fin n} {new : XsaveVcpu}

/-- If the table stays, the one that has changed must still be alike. -/
theorem ownAnswers_update (own : s.OwnAnswers host) :
    XsaveVm.OwnAnswers host { s with vcpu := Function.update s.vcpu i new } ↔
      (s.vcpu i).Alike host new := by
  rw [← (own i).alike_iff]
  constructor
  · intro after
    have shown : (Function.update s.vcpu i new i).Shown host s.table := after i
    rwa [Function.update_self] at shown
  · intro shown j
    show (Function.update s.vcpu i new j).Shown host s.table
    by_cases same : j = i
    · subst same
      rwa [Function.update_self]
    · rw [Function.update_of_ne same]
      exact own j

/-- If the table is written for the one that has changed, the others must be like
it. They were like it before the change. -/
theorem ownAnswers_cpuidUpdate (xsave : cpuHasXsave host = true)
    (keys : s.table.map CpuidEntry.key = cpuidKeys) (own : s.OwnAnswers host) :
    XsaveVm.OwnAnswers host
        { s with table := new.cpuidUpdate host s.table, vcpu := Function.update s.vcpu i new } ↔
      (s.vcpu i).Alike host new ∨ ∀ j, j = i := by
  have shown := shown_cpuidUpdate (c := new) xsave keys
  constructor
  · intro after
    rw [or_iff_not_imp_right]
    intro others
    obtain ⟨j, other⟩ := not_forall.mp others
    -- another virtual CPU sees the new answers, and saw the old ones
    have newer : (Function.update s.vcpu i new j).Shown host (new.cpuidUpdate host s.table) :=
      after j
    rw [Function.update_of_ne other, shown.alike_iff] at newer
    have older := (own i).alike_iff.mp (own j)
    exact ⟨older.1.trans newer.1.symm, older.2.trans newer.2.symm⟩
  · intro condition j
    show (Function.update s.vcpu i new j).Shown host (new.cpuidUpdate host s.table)
    by_cases same : j = i
    · subst same
      rwa [Function.update_self]
    · rw [Function.update_of_ne same, shown.alike_iff]
      have alike := condition.resolve_right fun only => same (only j)
      have older := (own i).alike_iff.mp (own j)
      exact ⟨alike.1.symm.trans older.1, alike.2.symm.trans older.2⟩

theorem alike_cr4 {val : BitVec 64} : c.Alike host { c with cr4 := val } ↔
    (val ^^^ c.cr4) &&& cr4OSXSAVE = 0 := by
  rw [xor_osxsave_eq_zero]
  exact ⟨And.left, fun same => ⟨same, rfl⟩⟩

theorem alike_xcr0 {xcr0 : BitVec 64} : c.Alike host { c with xcr0 := xcr0 } ↔
    calcXstateRequiredSize host xcr0 false = calcXstateRequiredSize host c.xcr0 false :=
  ⟨fun alike => alike.2.symm, fun same => ⟨Iff.rfl, same.symm⟩⟩

/-- The size depends on the extended components alone. -/
theorem calcXstateRequiredSize_congr {a b : BitVec 64} (compact : Bool)
    (same : (a ^^^ b) &&& xfeatureMaskExtended = 0) :
    calcXstateRequiredSize host a compact = calcXstateRequiredSize host b compact := by
  have masked : a &&& xfeatureMaskExtended = b &&& xfeatureMaskExtended := by
    apply BitVec.eq_of_getLsbD_eq
    intro j _
    have bit := congrArg (fun w => w.getLsbD j) same
    simp only [BitVec.getLsbD_and, BitVec.getLsbD_xor] at bit ⊢
    revert bit
    cases a.getLsbD j <;> cases b.getLsbD j <;> simp
  unfold calcXstateRequiredSize
  rw [masked]

theorem movCr4_ownAnswers (xsave : cpuHasXsave host = true)
    (keys : s.table.map CpuidEntry.key = cpuidKeys) (own : s.OwnAnswers host) (i : Fin n)
    (val : BitVec 64) (lma : Bool) :
    (movCr4 host info s i val lma).OwnAnswers host ↔
      (XsaveStep.movCr4 i val lma).Harmless host info s := by
  unfold movCr4 XsaveStep.Harmless
  dsimp only
  split
  case isTrue exits =>
    simp only [exits, true_and]
    split
    case isTrue refused =>
      rw [Bool.and_eq_true, beq_iff_eq] at refused
      exact iff_of_true own (.inr (.inl refused))
    case isFalse accepted =>
      rw [Bool.and_eq_true, beq_iff_eq] at accepted
      split
      case isTrue changed =>
        rw [ownAnswers_cpuidUpdate xsave keys own, alike_cr4]
        simp only [accepted, false_or]
      case isFalse unchanged =>
        rw [ownAnswers_update own, alike_cr4]
        simp only [not_not.mp unchanged, true_or]
  case isFalse silent =>
    rw [ownAnswers_update own, alike_cr4]
    simp only [silent, Bool.false_eq_true, false_and, or_false]

theorem xsetbv_ownAnswers (xsave : cpuHasXsave host = true)
    (keys : s.table.map CpuidEntry.key = cpuidKeys) (own : s.OwnAnswers host) (i : Fin n)
    (cpl : ℕ) (rcx rax rdx : BitVec 64) :
    (xsetbv host s i cpl rcx rax rdx).OwnAnswers host ↔
      (XsaveStep.xsetbv i cpl rcx rax rdx).Harmless host info s := by
  unfold xsetbv XsaveStep.Harmless
  split
  case isTrue refused =>
    rcases refused with disabled | user
    · exact iff_of_true own (.inl (.inl disabled))
    · exact iff_of_true own (.inl (.inr (.inl user)))
  case isFalse allowed =>
    rw [not_or] at allowed
    unfold vcpuSetXcr
    dsimp only
    split
    case isTrue accepted =>
      simp only [allowed, accepted, Bool.true_eq_false, or_self, false_or]
      split
      case isTrue changed => rw [ownAnswers_cpuidUpdate xsave keys own, alike_xcr0]
      case isFalse unchanged =>
        have same : calcXstateRequiredSize host (xsetbvValue rax rdx) false =
            calcXstateRequiredSize host (s.vcpu i).xcr0 false :=
          calcXstateRequiredSize_congr false (not_not.mp unchanged)
        rw [ownAnswers_update own, alike_xcr0]
        exact iff_of_true same (.inl same)
    case isFalse refused =>
      exact iff_of_true own (.inl (.inr (.inr (Bool.not_eq_true _ ▸ refused))))

/-! ## Every interleaving -/

theorem xsaveStep_keys (keys : s.table.map CpuidEntry.key = cpuidKeys) (step : XsaveStep n) :
    (xsaveStep host info s step).table.map CpuidEntry.key = cpuidKeys := by
  have updated (c : XsaveVcpu) : (c.cpuidUpdate host s.table).map CpuidEntry.key = cpuidKeys :=
    (cpuidUpdate_keys _ _ _).trans keys
  cases step with
  | movCr4 i val lma =>
    unfold xsaveStep movCr4
    dsimp only
    split_ifs <;> first | exact keys | exact updated _
  | xsetbv i cpl rcx rax rdx =>
    unfold xsaveStep xsetbv vcpuSetXcr
    dsimp only
    split_ifs <;> first | exact keys | exact updated _

/-- A new table has OSXSAVE clear and the size for every supported component. -/
theorem xsaveVmCreate_ownAnswers (xsave : cpuHasXsave host = true) (stack : CpuidArgs) :
    (xsaveVmCreate host n stack).OwnAnswers host := by
  intro i
  let ecx := ((host.cpuid 0x1 0).ecx &&& haxSupported1Ecx) ||| featureHypervisor
  have has : ecx &&& featureXsave ≠ 0 := by
    have host : (host.cpuid 0x1 0).ecx &&& featureXsave ≠ 0 := bne_iff_ne.mp xsave
    have supported : haxSupported1Ecx &&& featureXsave = featureXsave := by decide
    have other : featureHypervisor &&& featureXsave = 0#32 := by decide
    rwa [BitVec.and_or_distrib_right, BitVec.and_assoc, supported, other, BitVec.or_zero]
  have off : ecx &&& featureOsxsave = 0 := by
    have supported : haxSupported1Ecx &&& featureOsxsave = 0#32 := by decide
    have other : featureHypervisor &&& featureOsxsave = 0#32 := by decide
    rw [BitVec.and_or_distrib_right, BitVec.and_assoc, supported, other, BitVec.and_zero]
    rfl
  have xcr0 : ((xsaveVmCreate host n stack).vcpu i).xcr0 = host.supportedXcr0 := by
    show (if ecx &&& featureXsave != 0 then host.supportedXcr0 else xfeatureMaskFp) = _
    rw [if_pos (bne_iff_ne.mpr has)]
  rw [shown_iff (cpuidFill_keys _ stack) rfl rfl, xcr0]
  refine ⟨iff_of_false (not_not.mpr off) (not_not.mpr ?_), rfl⟩
  show (0 : BitVec 64) &&& cr4OSXSAVE = 0
  decide

/-- The guests that `n` virtual CPUs lead to by steps that are allowed. -/
def XsaveReached (host : CpuidHost) (info : VmxInfo) (stack : CpuidArgs)
    (allowed : XsaveVm n → XsaveStep n → Prop) (s : XsaveVm n) : Prop :=
  Reached (xsaveVmCreate host n stack) allowed (xsaveStep host info) s

/-- On a processor with XSAVE every virtual CPU gets its own answers as long as
all steps are harmless, and the first one that is not makes some answer wrong. -/
theorem xsaveStep_ownAnswers_iff (xsave : cpuHasXsave host = true) {stack : CpuidArgs}
    (reached : XsaveReached host info stack (fun s step => step.Harmless host info s) s) :
    s.OwnAnswers host ∧
      ∀ step, (xsaveStep host info s step).OwnAnswers host ↔ step.Harmless host info s := by
  have one {s : XsaveVm n} (keys : s.table.map CpuidEntry.key = cpuidKeys)
      (own : s.OwnAnswers host) (step : XsaveStep n) :
      (xsaveStep host info s step).OwnAnswers host ↔ step.Harmless host info s := by
    cases step with
    | movCr4 i val lma => exact movCr4_ownAnswers xsave keys own i val lma
    | xsetbv i cpl rcx rax rdx => exact xsetbv_ownAnswers xsave keys own i cpl rcx rax rdx
  have ok := reached.invariant
    (I := fun s => s.table.map CpuidEntry.key = cpuidKeys ∧ s.OwnAnswers host)
    ⟨cpuidFill_keys _ stack, xsaveVmCreate_ownAnswers xsave stack⟩
    fun s step ⟨keys, own⟩ harmless =>
      ⟨xsaveStep_keys keys step, (one keys own step).mpr harmless⟩
  exact ⟨ok.2, one ok.1 ok.2⟩

/-- A processor with XSAVE. -/
def xsaveCpuidHost : CpuidHost where
  cpuid _ _ := { ecx := features [26] }
  hostSupported7Ebx := 0
  supportedXcr0 := 7
  pmuEax := 0
  pmuEbx := 0
  pmuEdx := 0

/-- The only virtual CPU sets PAE and OSXSAVE at once, which exits. -/
theorem paeWrite_ownAnswers :
    (xsaveStep xsaveCpuidHost plainInfo (xsaveVmCreate xsaveCpuidHost 1 {})
      (.movCr4 0 0x40020 false)).OwnAnswers xsaveCpuidHost :=
  ((xsaveStep_ownAnswers_iff (by decide) .init).2 _).mpr
    (.inr ⟨by decide, .inr (by decide)⟩)

/-- It sets OSXSAVE alone, which does not exit. -/
theorem osxsaveWrite_not_ownAnswers :
    ¬ (xsaveStep xsaveCpuidHost plainInfo (xsaveVmCreate xsaveCpuidHost 1 {})
      (.movCr4 0 0x40000 false)).OwnAnswers xsaveCpuidHost := by
  intro own
  have shown := ((own 0).osxsave { eax := 0x1 } rfl).mpr (by decide)
  exact absurd shown (by decide)

end Haxm
