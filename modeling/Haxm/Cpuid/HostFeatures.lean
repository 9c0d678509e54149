/-
# What SET_CPUID can enable

User space passes a table of leaves to SET_CPUID, and the documentation promises
that features which the processor does not have stay off. The table that a new
guest gets keeps the promise. The functions that take over a leaf do not look at
the processor: apart from TSC_DEADLINE every bit is copied.
-/

import Haxm.Cpuid.Table

namespace Haxm

open Lib

/-- `cpuid_host_init` and `cpuid_init_supported_features`: what the driver keeps
of the processor's CPUID. The other values come from elsewhere. -/
def cpuidHostInit (cpuid : BitVec 32 → BitVec 32 → CpuidArgs) (supportedXcr0 : BitVec 64)
    (pmuEax pmuEbx pmuEdx : BitVec 32) : CpuidHost where
  cpuid := cpuid
  hostSupported7Ebx := (cpuid 0x7 0).ebx
  supportedXcr0 := supportedXcr0
  pmuEax := pmuEax
  pmuEbx := pmuEbx
  pmuEdx := pmuEdx

/-! ## Feature bits -/

/-- Every bit of `a` is a bit of `b`. -/
def BitsWithin (a b : BitVec 32) : Prop := a &&& ~~~b = 0

instance (a b : BitVec 32) : Decidable (BitsWithin a b) := inferInstanceAs (Decidable (_ = _))

theorem bitsWithin_iff {a b : BitVec 32} :
    BitsWithin a b ↔ ∀ i, a.getLsbD i = true → b.getLsbD i = true := by
  unfold BitsWithin
  constructor
  · intro zero i ha
    have hi := BitVec.lt_of_getLsbD ha
    have bit := congrArg (fun w => w.getLsbD i) zero
    simpa [BitVec.getLsbD_and, BitVec.getLsbD_not, ha, hi] using bit
  · intro within
    apply BitVec.eq_of_getLsbD_eq
    intro i hi
    rw [BitVec.getLsbD_and, BitVec.getLsbD_not]
    cases ha : a.getLsbD i with
    | false => simp
    | true => simp [hi, within i ha]

theorem bitsWithin_zero (b : BitVec 32) : BitsWithin 0 b := BitVec.zero_and

theorem bitsWithin_and_left (a m : BitVec 32) : BitsWithin (a &&& m) a := by
  rw [bitsWithin_iff]
  intro i h
  rw [BitVec.getLsbD_and, Bool.and_eq_true] at h
  exact h.1

/-- The bits that are granted whatever the processor has do not count. -/
def BitsWithinExcept (granted a b : BitVec 32) : Prop := BitsWithin (a &&& ~~~granted) b

instance (granted a b : BitVec 32) : Decidable (BitsWithinExcept granted a b) :=
  inferInstanceAs (Decidable (_ = _))

theorem BitsWithin.except {granted a b : BitVec 32} (h : BitsWithin a b) :
    BitsWithinExcept granted a b := by
  rw [BitsWithinExcept, bitsWithin_iff]
  intro i hi
  rw [BitVec.getLsbD_and, Bool.and_eq_true] at hi
  exact bitsWithin_iff.mp h i hi.1

/-- Granting a bit changes nothing about the others. -/
theorem bitsWithinExcept_or {granted a b : BitVec 32} :
    BitsWithinExcept granted (a ||| granted) b ↔ BitsWithinExcept granted a b := by
  have same : (a ||| granted) &&& ~~~granted = a &&& ~~~granted := by
    apply BitVec.eq_of_getLsbD_eq
    intro i hi
    rw [BitVec.getLsbD_and, BitVec.getLsbD_and, BitVec.getLsbD_or, BitVec.getLsbD_not]
    cases granted.getLsbD i <;> simp
  rw [BitsWithinExcept, same, BitsWithinExcept]

/-! ## What the guest sees -/

/-- The three leaves with feature bits, as `a` shows them, against `b`. -/
def Within1 (a b : CpuidArgs) : Prop :=
  BitsWithinExcept featureHypervisor a.ecx b.ecx ∧ BitsWithinExcept featureApic a.edx b.edx

def Within7 (a b : CpuidArgs) : Prop :=
  BitsWithin a.ebx b.ebx ∧ BitsWithin a.ecx b.ecx ∧ BitsWithin a.edx b.edx

def Within80000001 (a b : CpuidArgs) : Prop := BitsWithin a.ecx b.ecx ∧ BitsWithin a.edx b.edx

/-- The guest sees no feature that the processor does not have. -/
structure HostOnly (host : CpuidHost) (table : List CpuidEntry) : Prop where
  leaf1 : ∀ args : CpuidArgs, args.eax = 0x1 →
    Within1 (cpuidExecute host table args) (host.cpuid 0x1 0)
  leaf7 : ∀ args : CpuidArgs, args.eax = 0x7 → args.ecx = 0 →
    Within7 (cpuidExecute host table args) (host.cpuid 0x7 0)
  leaf80000001 : ∀ args : CpuidArgs, args.eax = 0x80000001 →
    Within80000001 (cpuidExecute host table args) (host.cpuid 0x80000001 0)

/-- The entries that SET_CPUID uses have only bits of the processor's CPUID. -/
structure AsksWithin (host : CpuidHost) (info : List CpuidEntry) : Prop where
  leaf1 : ∀ src, findCpuidEntry info 0x1 0 = some src →
    Within1 { src.args with ecx := src.ecx &&& ~~~featureTscDeadline } (host.cpuid 0x1 0)
  leaf7 : ∀ src, findCpuidEntry info 0x7 0 = some src → Within7 src.args (host.cpuid 0x7 0)
  leaf80000001 : ∀ src, findCpuidEntry info 0x80000001 0 = some src →
    Within80000001 src.args (host.cpuid 0x80000001 0)

variable {host : CpuidHost} {table info : List CpuidEntry}

/-- What the guest sees is in the three entries. -/
theorem hostOnly_iff (keys : table.map CpuidEntry.key = cpuidKeys) {e₁ e₇ e₈ : CpuidEntry}
    (h₁ : findCpuidEntry table 0x1 0 = some e₁) (h₇ : findCpuidEntry table 0x7 0 = some e₇)
    (h₈ : findCpuidEntry table 0x80000001 0 = some e₈) :
    HostOnly host table ↔
      Within1 e₁.args (host.cpuid 0x1 0) ∧ Within7 e₇.args (host.cpuid 0x7 0) ∧
        Within80000001 e₈.args (host.cpuid 0x80000001 0) := by
  have one (args : CpuidArgs) (eax : args.eax = 0x1) : cpuidExecute host table args = e₁.args :=
    cpuidExecute_entry keys h₁ eax (.inr (by decide))
  have seven (args : CpuidArgs) (eax : args.eax = 0x7) (ecx : args.ecx = 0) :
      cpuidExecute host table args = e₇.args :=
    cpuidExecute_entry keys h₇ eax (.inl ecx)
  have extended (args : CpuidArgs) (eax : args.eax = 0x80000001) :
      cpuidExecute host table args = e₈.args :=
    cpuidExecute_entry keys h₈ eax (.inr (by decide))
  constructor
  · intro h
    refine ⟨?_, ?_, ?_⟩
    · exact one { eax := 0x1 } rfl ▸ h.leaf1 { eax := 0x1 } rfl
    · exact seven { eax := 0x7 } rfl rfl ▸ h.leaf7 { eax := 0x7 } rfl rfl
    · exact extended { eax := 0x80000001 } rfl ▸ h.leaf80000001 { eax := 0x80000001 } rfl
  · rintro ⟨w₁, w₇, w₈⟩
    exact
      { leaf1 := fun args eax => (one args eax).symm ▸ w₁
        leaf7 := fun args eax ecx => (seven args eax ecx).symm ▸ w₇
        leaf80000001 := fun args eax => (extended args eax).symm ▸ w₈ }

/-! ## One call -/

def haxMaxCpuidEntries : ℕ := 0x40

/-- A call of SET_CPUID: the entries that user space passes, and whether the virtual CPU is
running. -/
structure SetCpuid where
  entries : List CpuidEntry
  isRunning : Bool := false

/-- `vcpu_set_cpuid`: the result and the table. -/
def vcpuSetCpuid (call : SetCpuid) (table : List CpuidEntry) : ℤ × List CpuidEntry :=
  if call.entries.length = 0 ∨ call.entries.length > haxMaxCpuidEntries then (-EINVAL, table)
  else if call.isRunning then (-EFAULT, table)
  else (0, cpuidSetGuestFeatures call.entries table)

/-- The call passes the checks. -/
def SetCpuid.Accepted (call : SetCpuid) : Prop :=
  0 < call.entries.length ∧ call.entries.length ≤ haxMaxCpuidEntries ∧ call.isRunning = false

/-- The tables that SET_CPUID makes of the first one. -/
def SetCpuidReached (host : CpuidHost) (stack : CpuidArgs)
    (allowed : List CpuidEntry → SetCpuid → Prop) (table : List CpuidEntry) : Prop :=
  Reached (cpuidGuestInit host stack) allowed (fun table call => (vcpuSetCpuid call table).2) table

theorem vcpuSetCpuid_table (call : SetCpuid) (table : List CpuidEntry) :
    call.Accepted ∧ (vcpuSetCpuid call table).2 = cpuidSetGuestFeatures call.entries table ∨
      ¬ call.Accepted ∧ (vcpuSetCpuid call table).2 = table := by
  unfold vcpuSetCpuid SetCpuid.Accepted
  split_ifs with total running
  · exact .inr ⟨by omega, rfl⟩
  · exact .inr ⟨by simp [running], rfl⟩
  · exact .inl ⟨⟨by omega, by omega, by simpa using running⟩, rfl⟩

theorem setGuestFeatures_keys (keys : table.map CpuidEntry.key = cpuidKeys) :
    (cpuidSetGuestFeatures info table).map CpuidEntry.key = cpuidKeys :=
  (foldl_setFeature_keys kCpuidController_keepsKey info).trans keys

/-- The condition on the entry that a controller takes over. -/
theorem within_apply {c : CpuidController} (within : CpuidArgs → Prop) {asked : CpuidEntry → Prop}
    {dest : CpuidEntry} (before : within dest.args) (info : List CpuidEntry)
    (taken : ∀ src, within ((c.setLeaf.getD fun _ src => src) dest src).args ↔ asked src) :
    within (c.apply info dest).args ↔
      ∀ src, findCpuidEntry info c.leaf c.subleaf = some src → asked src := by
  unfold CpuidController.apply
  cases found : findCpuidEntry info c.leaf c.subleaf with
  | none => simpa using before
  | some src => simpa using taken src

/-- An entry that is asked for replaces the old one; the others stay. -/
theorem setGuestFeatures_hostOnly (keys : table.map CpuidEntry.key = cpuidKeys)
    (before : HostOnly host table) :
    HostOnly host (cpuidSetGuestFeatures info table) ↔ AsksWithin host info := by
  obtain ⟨e₁, h₁⟩ := exists_findCpuidEntry keys 0x1 0 (by decide)
  obtain ⟨e₇, h₇⟩ := exists_findCpuidEntry keys 0x7 0 (by decide)
  obtain ⟨e₈, h₈⟩ := exists_findCpuidEntry keys 0x80000001 0 (by decide)
  have taken {c : CpuidController} (mem : c ∈ kCpuidController) {e : CpuidEntry}
      (h : findCpuidEntry table c.leaf c.subleaf = some e) :
      findCpuidEntry (cpuidSetGuestFeatures info table) c.leaf c.subleaf =
        some (c.apply info e) := by
    rw [findCpuidEntry_setGuestFeatures mem, h]
    rfl
  have c₁ : ⟨0x1, 0, setLeaf00000001⟩ ∈ kCpuidController := by simp [kCpuidController]
  have c₇ : ⟨0x7, 0, none⟩ ∈ kCpuidController := by simp [kCpuidController]
  have c₈ : ⟨0x80000001, 0, setLeaf80000001⟩ ∈ kCpuidController := by simp [kCpuidController]
  obtain ⟨w₁, w₇, w₈⟩ := (hostOnly_iff keys h₁ h₇ h₈).mp before
  have t₁ := within_apply (Within1 · (host.cpuid 0x1 0)) w₁ info
    (c := ⟨0x1, 0, setLeaf00000001⟩) fun _ => and_congr bitsWithinExcept_or bitsWithinExcept_or
  have t₇ := within_apply (Within7 · (host.cpuid 0x7 0)) w₇ info
    (c := ⟨0x7, 0, none⟩) fun _ => Iff.rfl
  have t₈ := within_apply (Within80000001 · (host.cpuid 0x80000001 0)) w₈ info
    (c := ⟨0x80000001, 0, setLeaf80000001⟩) fun _ => Iff.rfl
  rw [hostOnly_iff (setGuestFeatures_keys keys) (taken c₁ h₁) (taken c₇ h₇) (taken c₈ h₈)]
  constructor
  · rintro ⟨a₁, a₇, a₈⟩
    exact ⟨t₁.mp a₁, t₇.mp a₇, t₈.mp a₈⟩
  · rintro ⟨a₁, a₇, a₈⟩
    exact ⟨t₁.mpr a₁, t₇.mpr a₇, t₈.mpr a₈⟩

/-! ## Every sequence of calls -/

section

variable (cpuid : BitVec 32 → BitVec 32 → CpuidArgs) (supportedXcr0 : BitVec 64)
  (pmuEax pmuEbx pmuEdx : BitVec 32) (stack : CpuidArgs)

/-- The first table has been cut down to the processor's features. -/
theorem cpuidGuestInit_hostOnly :
    HostOnly (cpuidHostInit cpuid supportedXcr0 pmuEax pmuEbx pmuEdx)
      (cpuidGuestInit (cpuidHostInit cpuid supportedXcr0 pmuEax pmuEbx pmuEdx) stack) := by
  rw [hostOnly_iff (cpuidFill_keys _ stack) rfl rfl rfl]
  refine ⟨⟨?_, ?_⟩, ⟨?_, ?_, ?_⟩, ?_, ?_⟩
  · exact bitsWithinExcept_or.mpr (bitsWithin_and_left _ _).except
  · exact (bitsWithin_and_left _ _).except
  · exact bitsWithin_and_left _ _
  · exact bitsWithin_zero _
  · exact bitsWithin_zero _
  · exact bitsWithin_and_left _ _
  · exact bitsWithin_and_left _ _

/-- As long as every call that is accepted asks only for what the processor has, the guest
sees only that; and the first one that asks for more is granted it. -/
theorem setCpuid_hostOnly_iff {table : List CpuidEntry}
    (reached : SetCpuidReached (cpuidHostInit cpuid supportedXcr0 pmuEax pmuEbx pmuEdx) stack
      (fun _ call => call.Accepted →
        AsksWithin (cpuidHostInit cpuid supportedXcr0 pmuEax pmuEbx pmuEdx) call.entries)
      table) :
    HostOnly (cpuidHostInit cpuid supportedXcr0 pmuEax pmuEbx pmuEdx) table ∧
      ∀ call, HostOnly (cpuidHostInit cpuid supportedXcr0 pmuEax pmuEbx pmuEdx)
          (vcpuSetCpuid call table).2 ↔
        (call.Accepted →
          AsksWithin (cpuidHostInit cpuid supportedXcr0 pmuEax pmuEbx pmuEdx) call.entries) := by
  have step {table : List CpuidEntry} (call : SetCpuid)
      (keys : table.map CpuidEntry.key = cpuidKeys)
      (before : HostOnly (cpuidHostInit cpuid supportedXcr0 pmuEax pmuEbx pmuEdx) table) :
      (vcpuSetCpuid call table).2.map CpuidEntry.key = cpuidKeys ∧
        (HostOnly (cpuidHostInit cpuid supportedXcr0 pmuEax pmuEbx pmuEdx)
            (vcpuSetCpuid call table).2 ↔
          (call.Accepted → AsksWithin (cpuidHostInit cpuid supportedXcr0 pmuEax pmuEbx pmuEdx)
            call.entries)) := by
    rcases vcpuSetCpuid_table call table with ⟨accepted, set⟩ | ⟨refused, same⟩
    · rw [set]
      exact ⟨setGuestFeatures_keys keys,
        (setGuestFeatures_hostOnly keys before).trans
          ⟨fun asks _ => asks, fun asks => asks accepted⟩⟩
    · rw [same]
      exact ⟨keys, iff_of_true before fun accepted => absurd accepted refused⟩
  have ok := reached.invariant
    (I := fun table => table.map CpuidEntry.key = cpuidKeys ∧
      HostOnly (cpuidHostInit cpuid supportedXcr0 pmuEax pmuEbx pmuEdx) table)
    ⟨cpuidFill_keys _ stack, cpuidGuestInit_hostOnly cpuid supportedXcr0 pmuEax pmuEbx pmuEdx stack⟩
    fun table call ok asks =>
      ⟨(step call ok.1 ok.2).1, (step call ok.1 ok.2).2.mpr asks⟩
  exact ⟨ok.2, fun call => (step call ok.1 ok.2).2⟩

end

/-- User space asks for AVX. -/
def askAvx : SetCpuid where
  entries := [{ function := 0x1, ecx := features [28] }]

/-- A processor that has every feature, and one that has none. -/
def fullCpuid (_ _ : BitVec 32) : CpuidArgs :=
  { eax := 0xffffffff, ecx := 0xffffffff, edx := 0xffffffff, ebx := 0xffffffff }

def emptyCpuid (_ _ : BitVec 32) : CpuidArgs := {}

theorem askAvx_asksWithin : AsksWithin (cpuidHostInit fullCpuid 0 0 0 0) askAvx.entries where
  leaf1 := by
    rintro src ⟨⟩
    exact ⟨by decide, by decide⟩
  leaf7 := nofun
  leaf80000001 := nofun

theorem askAvx_hostOnly :
    HostOnly (cpuidHostInit fullCpuid 0 0 0 0)
      (vcpuSetCpuid askAvx (cpuidGuestInit (cpuidHostInit fullCpuid 0 0 0 0) {})).2 :=
  ((setCpuid_hostOnly_iff fullCpuid 0 0 0 0 {} .init).2 askAvx).mpr fun _ => askAvx_asksWithin

theorem askAvx_not_hostOnly :
    ¬ HostOnly (cpuidHostInit emptyCpuid 0 0 0 0)
      (vcpuSetCpuid askAvx (cpuidGuestInit (cpuidHostInit emptyCpuid 0 0 0 0) {})).2 := by
  intro shown
  have leaf1 := (shown.leaf1 { eax := 0x1 } rfl).1
  exact absurd leaf1 (by decide)

end Haxm
