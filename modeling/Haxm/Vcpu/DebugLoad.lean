/-
# The debug registers that are loaded

`load_guest_dr` moves the guest's DR6 into the processor's and its DR7 into the
VMCS. Both have bits that the architecture fixes, and a wrong one faults in the
host or fails the VM entry. SET_REGS and the debugger bring the values into
shape before they keep them; a MOV of the guest is kept as it is.
-/

import Haxm.Vcpu.SetRegs

namespace Haxm

open Lib

/-! ## Fixed bits -/

/-- The upper half is clear and the bits in `ones` are set. -/
structure FixedBits (ones x : BitVec 64) : Prop where
  high : x &&& 0xffffffff00000000 = 0
  set : x &&& ones = ones

instance (ones x : BitVec 64) : Decidable (FixedBits ones x) :=
  decidable_of_iff (x &&& 0xffffffff00000000 = 0 ∧ x &&& ones = ones)
    ⟨fun h => ⟨h.1, h.2⟩, fun h => ⟨h.1, h.2⟩⟩

section FixedBits

variable {ones x y : BitVec 64}

theorem fixedBits_fix (low : ones &&& 0xffffffff00000000 = 0) (x : BitVec 64) :
    FixedBits ones ((x &&& 0xffffffff) ||| ones) where
  high := by
    rw [BitVec.and_or_distrib_right, low, BitVec.and_assoc]
    simp
  set := by
    rw [BitVec.and_or_distrib_right, BitVec.and_self]
    apply BitVec.eq_of_getLsbD_eq
    intro i _
    simp only [BitVec.getLsbD_or, BitVec.getLsbD_and]
    cases ones.getLsbD i <;> simp

theorem FixedBits.or (h : FixedBits ones x) (low : y &&& 0xffffffff00000000 = 0) :
    FixedBits ones (x ||| y) where
  high := by
    rw [BitVec.and_or_distrib_right, h.high, low]
    simp
  set := by
    rw [BitVec.and_or_distrib_right, h.set]
    apply BitVec.eq_of_getLsbD_eq
    intro i _
    simp only [BitVec.getLsbD_or, BitVec.getLsbD_and]
    cases ones.getLsbD i <;> simp

theorem FixedBits.andNot (h : FixedBits ones x) (other : ~~~y &&& ones = ones) :
    FixedBits ones (x &&& ~~~y) where
  high := by
    rw [BitVec.and_assoc, BitVec.and_comm (~~~y), ← BitVec.and_assoc, h.high]
    simp
  set := by
    rw [BitVec.and_assoc, other, h.set]

end FixedBits

/-! ## Loading -/

/-- Whatever the processor, if the guest's debug registers are loaded, they have
the fixed bits. -/
def DrLoadSafe (v : Vcpu) : Prop :=
  ∀ (cpu : ℕ) (phys : DebugRegs),
    (isGuestDrDirty (v.loadVmcs cpu) || isHostDebugEnabled phys.dr7) = true →
      FixedBits dr6Setbits (loadGuestDr phys.dr7 phys (v.loadVmcs cpu)).2.dr6 ∧
      FixedBits dr7Setbits (loadGuestDr phys.dr7 phys (v.loadVmcs cpu)).1.vmcs.dr7

/-- The guest's DR6 and DR7 have the fixed bits. -/
structure VcpuState.DrFixed (s : VcpuState) : Prop where
  dr6 : FixedBits dr6Setbits s.dr6
  dr7 : FixedBits dr7Setbits s.dr7

variable {v : Vcpu} {info : VmxInfo} {sec : VmcsSection}

theorem drLoadSafe_iff : DrLoadSafe v ↔ v.state.DrFixed := by
  constructor
  · intro safe
    -- a processor with a breakpoint of its own reloads in any case
    have loaded := safe 0 { dr := fun _ => 0, dr6 := 0, dr7 := 1 }
    have enabled : isHostDebugEnabled 1 = true := by decide
    rw [enabled, Bool.or_true] at loaded
    obtain ⟨dr6, dr7⟩ := loaded rfl
    rw [loadGuestDr, enabled, Bool.or_true, if_pos rfl] at dr6 dr7
    exact ⟨dr6, dr7⟩
  · intro h cpu phys load
    rw [loadGuestDr, if_pos load]
    exact ⟨h.dr6, h.dr7⟩

/-! ## The writers -/

/-- What the processor itself holds in DR6 has the fixed bits. -/
def VcpuStep.HardwareFixed : VcpuStep → Prop
  | .round _ _ exit => FixedBits dr6Setbits exit.dr6
  | .failedRound _ _ phys => FixedBits dr6Setbits phys.dr6
  | _ => True

/-- A MOV to DR`dreg` is kept: it neither faults nor is it ignored. -/
def DrWriteKept (v : Vcpu) (dreg : Fin 8) : Prop :=
  v.state.dr7 &&& dr7GD = 0 ∧ ¬ ((dreg = 4 ∨ dreg = 5) ∧ v.state.cr4 &&& cr4DE ≠ 0) ∧
    v.debugControl &&& haxDebugUseHwBp = 0

/-- The source of a MOV to DR4 up to DR7 that is kept has the bits that are fixed
in the register. -/
def VcpuStep.SourceFixed (v : Vcpu) : VcpuStep → Prop
  | .drAccess _ dreg toGpr gpr _ =>
    toGpr = false → DrWriteKept v dreg → 4 ≤ dreg →
      FixedBits (if dreg.val % 2 = 0 then dr6Setbits else dr7Setbits) (v.state.regs gpr)
  | _ => True

theorem fixDr6_fixed (x : BitVec 64) : FixedBits dr6Setbits (fixDr6 x) :=
  fixedBits_fix (by decide) x

theorem fixDr7_fixed (x : BitVec 64) : FixedBits dr7Setbits (fixDr7 x) :=
  fixedBits_fix (by decide) x

/-- A section leaves the state alone or to its body. -/
theorem withVmcs_state (v : Vcpu) (sec : VmcsSection) (body : Vcpu → Vcpu) :
    (v.withVmcs sec body).state = v.state ∨
      (v.withVmcs sec body).state = (body (v.loadVmcs sec.cpu)).state := by
  unfold Vcpu.withVmcs
  cases sec.load <;> cases sec.put <;> simp

theorem VcpuState.DrFixed.withVmcs (h : v.state.DrFixed) {body : Vcpu → Vcpu}
    (keeps : (body (v.loadVmcs sec.cpu)).state.DrFixed) : (v.withVmcs sec body).state.DrFixed := by
  rcases withVmcs_state v sec body with same | done
  · rw [same]
    exact h
  · rw [done]
    exact keeps

theorem vcpuVmreadAll_drFixed (h : v.state.DrFixed) : (vcpuVmreadAll sec v).state.DrFixed := by
  unfold vcpuVmreadAll
  split
  · exact h.withVmcs ⟨h.dr6, h.dr7⟩
  · exact h

/-- An entry changes no register of the guest but RFLAGS. -/
theorem vmEntry_state (phys : DebugRegs) (v : Vcpu) :
    (vmEntry phys v).1.state = { v.state with rflags := (vmEntry phys v).1.state.rflags } := by
  have dirty (w : Vcpu) : (loadDirtyVmcsFields w).state =
      { w.state with rflags := (loadDirtyVmcsFields w).state.rflags } := by
    unfold loadDirtyVmcsFields loadDebugControl
    dsimp only
    split <;> rfl
  unfold vmEntry loadGuestDr
  split
  rename_i loaded
  split at loaded <;> cases loaded <;> exact dirty _

/-- The DR6 of the processor after an entry is its own or the guest's. -/
theorem vmEntry_phys_dr6 (phys : DebugRegs) (v : Vcpu) :
    (vmEntry phys v).2.dr6 = v.state.dr6 ∨ (vmEntry phys v).2.dr6 = phys.dr6 := by
  unfold vmEntry loadGuestDr
  split
  rename_i loaded
  split at loaded <;> cases loaded
  · exact .inl rfl
  · exact .inr rfl

theorem cpuVmxRound_drFixed (h : v.state.DrFixed) (phys : DebugRegs) {exit : VmExit}
    (hardware : FixedBits dr6Setbits exit.dr6) :
    (cpuVmxRound info sec phys exit v).state.DrFixed := by
  unfold cpuVmxRound
  split
  · exact h
  · refine h.withVmcs ⟨hardware, ?_⟩
    change FixedBits dr7Setbits (vmEntry phys (v.loadVmcs sec.cpu)).1.state.dr7
    rw [vmEntry_state]
    exact h.dr7

theorem cpuVmxFailedRound_drFixed (h : v.state.DrFixed) {phys : DebugRegs}
    (hardware : FixedBits dr6Setbits phys.dr6) :
    (cpuVmxFailedRound sec phys v).state.DrFixed := by
  unfold cpuVmxFailedRound
  split
  · exact h
  · refine h.withVmcs ⟨?_, ?_⟩
    · change FixedBits dr6Setbits (vmEntry phys (v.loadVmcs sec.cpu)).2.dr6
      rcases vmEntry_phys_dr6 phys (v.loadVmcs sec.cpu) with guest | own
      · rw [guest]
        exact h.dr6
      · rw [own]
        exact hardware
    · change FixedBits dr7Setbits (vmEntry phys (v.loadVmcs sec.cpu)).1.state.dr7
      rw [vmEntry_state]
      exact h.dr7

theorem vcpuSetRegs_drFixed (h : v.state.DrFixed) (u : VcpuState) :
    (vcpuSetRegs info sec u v).2.state.DrFixed := by
  refine VcpuState.DrFixed.withVmcs (v := setGprs u v) ⟨h.dr6, h.dr7⟩ ?_
  unfold setSegments setDrs
  dsimp only
  split
  · unfold setCrs
    dsimp only
    split <;> exact ⟨h.dr6, h.dr7⟩
  · exact ⟨fixDr6_fixed _, fixDr7_fixed _⟩

theorem vcpuDebug_drFixed (control : BitVec 32) (dr : Fin 8 → BitVec 64) :
    (vcpuDebug control dr v).state.DrFixed := by
  have dr6 : FixedBits dr6Setbits dr6Setbits := by decide
  refine ⟨dr6, ?_⟩
  unfold vcpuDebug
  dsimp only
  split
  · exact fixDr7_fixed _
  · decide

/-- The value of a MOV that is kept replaces the register. -/
theorem writeDr_drFixed_iff (h : v.state.DrFixed) (dreg : Fin 8) (val : BitVec 64) :
    (writeDr v.state dreg val).DrFixed ↔
      (4 ≤ dreg → FixedBits (if dreg.val % 2 = 0 then dr6Setbits else dr7Setbits) val) := by
  unfold writeDr
  by_cases breakpoint : dreg.val < 4
  · have small : ¬ 4 ≤ dreg := by
      rw [Fin.le_def]
      exact Nat.not_le.mpr breakpoint
    rw [dif_pos breakpoint]
    exact iff_of_true ⟨h.dr6, h.dr7⟩ fun large => absurd large small
  · have large : 4 ≤ dreg := by
      rw [Fin.le_def]
      exact Nat.not_lt.mp breakpoint
    rw [dif_neg breakpoint]
    by_cases even : dreg.val % 2 = 0
    · rw [if_pos even, if_pos even]
      exact ⟨fun fixed _ => fixed.dr6, fun fixed => ⟨fixed large, h.dr7⟩⟩
    · rw [if_neg even, if_neg even]
      exact ⟨fun fixed _ => fixed.dr7, fun fixed => ⟨h.dr6, fixed large⟩⟩

theorem advanceRip_drFixed_iff {len : BitVec 64} :
    (advanceRip len v).state.DrFixed ↔ v.state.DrFixed :=
  ⟨fun h => ⟨h.dr6, h.dr7⟩, fun h => ⟨h.dr6, h.dr7⟩⟩

theorem exitDrAccess_drFixed_iff (h : v.state.DrFixed) (dreg : Fin 8) (toGpr : Bool) (gpr : Fin 16)
    (len : BitVec 64) : (exitDrAccess sec dreg toGpr gpr len v).state.DrFixed ↔
      (VcpuStep.drAccess sec dreg toGpr gpr len).SourceFixed v := by
  unfold exitDrAccess VcpuStep.SourceFixed DrWriteKept
  dsimp only
  split
  · rename_i detected
    -- general detection clears DR7.GD and sets DR6.BD
    have cleared : FixedBits dr7Setbits (v.state.dr7 &&& ~~~dr7GD) := h.dr7.andNot (by decide)
    have set : FixedBits dr6Setbits (v.state.dr6 ||| dr6BD) := h.dr6.or (by decide)
    refine iff_of_true ?_ fun _ kept => absurd kept.1 detected
    exact VcpuState.DrFixed.withVmcs (v := { v with state := _ }) ⟨set, cleared⟩ ⟨set, cleared⟩
  split
  · rename_i undefined
    exact iff_of_true h fun _ kept => absurd undefined kept.2.1
  split
  · rename_i read
    exact iff_of_true ⟨h.dr6, h.dr7⟩ fun write => absurd (read.symm.trans write) (by decide)
  · rename_i noDetect defined write
    rw [ne_eq, not_not] at noDetect
    by_cases ignored : v.debugControl &&& haxDebugUseHwBp = 0
    · rw [if_neg (by simpa using ignored)]
      refine advanceRip_drFixed_iff.trans
        ((writeDr_drFixed_iff h dreg (v.state.regs gpr)).trans ?_)
      exact ⟨fun fixed _ _ => fixed,
        fun fixed => fixed (by simpa using write) ⟨noDetect, defined, ignored⟩⟩
    · rw [if_pos ignored]
      exact iff_of_true ⟨h.dr6, h.dr7⟩ fun _ kept => absurd kept.2.2 ignored

/-! ## Histories -/

theorem vcpuStep_drFixed_iff (h : v.state.DrFixed) {step : VcpuStep}
    (hardware : step.HardwareFixed) :
    (vcpuStep info v step).state.DrFixed ↔ step.SourceFixed v := by
  cases step with
  | round sec phys exit => exact iff_of_true (cpuVmxRound_drFixed h phys hardware) trivial
  | failedRound sec₁ sec₂ phys =>
    have failed : (cpuVmxFailedRound sec₁ phys v).state.DrFixed :=
      cpuVmxFailedRound_drFixed h hardware
    exact iff_of_true (vcpuVmreadAll_drFixed (v := { cpuVmxFailedRound sec₁ phys v with
      curState := .stale }) failed) trivial
  | refresh sec =>
    exact iff_of_true (vcpuVmreadAll_drFixed (v := { v with curState := .stale }) h) trivial
  | advanceRip len => exact iff_of_true ⟨h.dr6, h.dr7⟩ trivial
  | writeGpr i val => exact iff_of_true ⟨h.dr6, h.dr7⟩ trivial
  | writeRflags val => exact iff_of_true ⟨h.dr6, h.dr7⟩ trivial
  | crWrite sec cr val pdpt =>
    refine iff_of_true ?_ trivial
    have written : (vcpuWriteCr cr val v).state.DrFixed := by cases cr <;> exact ⟨h.dr6, h.dr7⟩
    change (exitCrWrite info sec cr val pdpt v).state.DrFixed
    unfold exitCrWrite
    cases pdpt with
    | true => exact written.withVmcs ⟨written.dr6, written.dr7⟩
    | false => exact written
  | drAccess sec dreg toGpr gpr len => exact exitDrAccess_drFixed_iff h dreg toGpr gpr len
  | fsBase val => exact iff_of_true ⟨h.dr6, h.dr7⟩ trivial
  | gsBase sec val => exact iff_of_true (h.withVmcs ⟨h.dr6, h.dr7⟩) trivial
  | vmread sec => exact iff_of_true (h.withVmcs ⟨h.dr6, h.dr7⟩) trivial
  | getRegs sec => exact iff_of_true (vcpuVmreadAll_drFixed h) trivial
  | setRegs sec u => exact iff_of_true (vcpuSetRegs_drFixed h u) trivial
  | debug control dr => exact iff_of_true (vcpuDebug_drFixed control dr) trivial

/-- The virtual CPUs reached by a history in which every MOV to a debug register
that is kept has a source with the fixed bits. -/
def DrReached (info : VmxInfo) (cpu : ℕ) (v : Vcpu) : Prop :=
  Reached (vcpuCreate info cpu) (fun v step => step.HardwareFixed ∧ step.SourceFixed v)
    (vcpuStep info) v

theorem DrReached.drFixed {cpu : ℕ} (reached : DrReached info cpu v) : v.state.DrFixed := by
  have start : (vcpuCreate info cpu).state.DrFixed :=
    ⟨show FixedBits dr6Setbits dr6Setbits by decide, show FixedBits dr7Setbits dr7Setbits by decide⟩
  refine reached.invariant (I := fun v => v.state.DrFixed) start fun v step fixed allowed => ?_
  exact (vcpuStep_drFixed_iff fixed allowed.1).mpr allowed.2

/-- As long as every source has the fixed bits, what is loaded is safe; and the
first source that has not makes the next load unsafe. -/
theorem drLoadSafe_of_reached {info : VmxInfo} {cpu : ℕ} {v : Vcpu}
    (reached : DrReached info cpu v) : DrLoadSafe v ∧ ∀ step : VcpuStep, step.HardwareFixed →
      (DrLoadSafe (vcpuStep info v step) ↔ step.SourceFixed v) := by
  refine ⟨drLoadSafe_iff.mpr reached.drFixed, fun step hardware => ?_⟩
  exact drLoadSafe_iff.trans (vcpuStep_drFixed_iff reached.drFixed hardware)

/-- MOV to DR7 from RAX. -/
def movDr7 : VcpuStep := .drAccess {} 7 false 0 3

/-- A guest that has put `val` into RAX. -/
def raxHolds (val : BitVec 64) : Vcpu :=
  vcpuStep plainInfo (vcpuCreate plainInfo 0) (.writeGpr 0 val)

theorem movDr7_loadSafe : DrLoadSafe (vcpuStep plainInfo (raxHolds 0x401) movDr7) := by
  have reached : DrReached plainInfo 0 (raxHolds 0x401) := Reached.step .init ⟨trivial, trivial⟩
  refine ((drLoadSafe_of_reached reached).2 movDr7 trivial).mpr fun _ _ _ => ?_
  decide

theorem movDr7_not_loadSafe : DrReached plainInfo 0 (raxHolds 0) ∧
    ¬ DrLoadSafe (vcpuStep plainInfo (raxHolds 0) movDr7) := by
  refine ⟨Reached.step .init ⟨trivial, trivial⟩, fun safe => ?_⟩
  have loaded := safe 0 { dr := fun _ => 0, dr6 := dr6Setbits, dr7 := dr7Setbits } (by decide)
  exact absurd loaded.2 (by decide)

end Haxm
