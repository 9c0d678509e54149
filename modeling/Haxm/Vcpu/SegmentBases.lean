/-
# Segment bases for the emulator

The emulator takes the base of a segment from `vcpu->state`. After an exit only
CS, DS and ES are read from the VMCS. The bases of SS, FS and GS are those that
were in `vcpu->state` before, and a write of IA32_GS_BASE does not get there
either. So the emulator is told the right base as long as the guest has left
these three alone.
-/

import Haxm.Vcpu.DebugLoad

namespace Haxm

open Lib

/-- `vcpu_get_segment_base`. -/
def vcpuGetSegmentBase (v : Vcpu) : Segment → BitVec 64
  | .cs => (v.state.seg .cs).base
  | .ds => (v.state.seg .ds).base
  | .es => (v.state.seg .es).base
  | .fs => (v.state.seg .fs).base
  | .gs => (v.state.seg .gs).base
  | .ss => (v.state.seg .ss).base
  | _ => (v.state.seg .ds).base

/-- A virtual CPU, and the bases that the guest's segments have. -/
structure BasedVcpu where
  vcpu : Vcpu
  base : Segment → BitVec 64

/-- The bases as the guest leaves them at an exit, and as its intercepted writes of MSRs change
them from there on. A virtual CPU that has panicked does not run. -/
def basesStep (v : Vcpu) (base : Segment → BitVec 64) : VcpuStep → Segment → BitVec 64
  | .round sec _ exit =>
    if v.panicked = false ∧ sec.load = true then fun i => (exit.guest.seg i).base else base
  | .fsBase val => Function.update base .fs val
  | .gsBase sec val => if sec.load then Function.update base .gs val else base
  | _ => base

def basedStep (info : VmxInfo) (s : BasedVcpu) (step : VcpuStep) : BasedVcpu :=
  ⟨vcpuStep info s.vcpu step, basesStep s.vcpu s.base step⟩

def basedCreate (info : VmxInfo) (cpu : ℕ) : BasedVcpu :=
  ⟨vcpuCreate info cpu, fun i => (vcpuInitState.seg i).base⟩

/-- The emulator is told the base that the segment has. -/
def BasesCurrent (s : BasedVcpu) : Prop :=
  ∀ i ∈ [Segment.cs, .ds, .es, .ss, .fs, .gs], vcpuGetSegmentBase s.vcpu i = s.base i

/-- Guest runs, writes of the two MSRs, and what the emulator writes. -/
def VcpuStep.Emulates : VcpuStep → Prop
  | .round .. | .fsBase _ | .gsBase .. | .writeGpr .. | .writeRflags _ | .advanceRip _ => True
  | _ => False

/-- The guest comes back with the bases of SS, FS and GS that are in `vcpu->state`, and writes no
other base to IA32_GS_BASE. -/
def BasesKept (v : Vcpu) : VcpuStep → Prop
  | .round sec _ exit => v.panicked = false ∧ sec.load = true →
      ∀ i ∈ [Segment.ss, .fs, .gs], (exit.guest.seg i).base = (v.state.seg i).base
  | .gsBase sec val => sec.load = true → val = (v.state.seg .gs).base
  | _ => True

section Steps

variable {info : VmxInfo} {s : BasedVcpu} {v : Vcpu} {sec : VmcsSection}

theorem withVmcs_seg {body : Vcpu → Vcpu} (load : sec.load = true) :
    (v.withVmcs sec body).state.seg = (body (v.loadVmcs sec.cpu)).state.seg := by
  unfold Vcpu.withVmcs
  rw [if_pos load]
  dsimp only
  split <;> rfl

/-- After an exit the bases of SS, FS and GS are the old ones. -/
theorem cpuVmxRound_base (runs : v.panicked = false) (load : sec.load = true) (phys : DebugRegs)
    (exit : VmExit) (i : Segment) :
    ((cpuVmxRound info sec phys exit v).state.seg i).base =
      if i ∈ [Segment.cs, .ds, .es] then (exit.guest.seg i).base else (v.state.seg i).base := by
  have entered := congrArg VcpuState.seg (vmEntry_state phys (v.loadVmcs sec.cpu))
  rw [cpuVmxRound, if_neg (by simp [runs]), withVmcs_seg load]
  cases i <;> first | rfl | exact congrArg SegmentDesc.base (congrFun entered _)

/-- A step keeps the bases current exactly if it keeps to the rules. -/
theorem basesCurrent_step_iff (current : BasesCurrent s) (step : VcpuStep)
    (emulates : step.Emulates) :
    BasesCurrent (basedStep info s step) ↔ BasesKept s.vcpu step := by
  cases step with
  | round sec phys exit =>
    by_cases runs : s.vcpu.panicked = false ∧ sec.load = true
    · have base (i : Segment) :
          ((cpuVmxRound info sec phys exit s.vcpu).state.seg i).base = _ :=
        cpuVmxRound_base runs.1 runs.2 phys exit i
      simp only [BasesCurrent, BasesKept, basedStep, basesStep, if_pos runs, List.forall_mem_cons,
        vcpuGetSegmentBase, vcpuStep, base]
      simp [runs, eq_comm]
    · refine iff_of_true ?_ fun h => absurd h runs
      have same : (cpuVmxRound info sec phys exit s.vcpu).state = s.vcpu.state := by
        unfold cpuVmxRound Vcpu.withVmcs
        split_ifs <;> simp_all
      intro i hi
      simp only [basedStep, basesStep, if_neg runs, vcpuStep, ← current i hi]
      cases i <;> simp only [vcpuGetSegmentBase, same]
  | fsBase val =>
    refine iff_of_true (fun i hi => ?_) trivial
    have before := current i hi
    cases i <;> first | rfl | exact before
  | gsBase sec val =>
    cases load : sec.load with
    | false =>
      refine iff_of_true (fun i hi => ?_) (by simp [BasesKept, load])
      have before := current i hi
      simp only [basedStep, basesStep, vcpuStep, writeGsBase, Vcpu.withVmcs, load]
      cases i <;> exact before
    | true =>
      have seg : (writeGsBase sec val s.vcpu).state.seg = s.vcpu.state.seg := withVmcs_seg load
      simp only [BasesCurrent, List.forall_mem_cons, vcpuGetSegmentBase] at current ⊢
      simp [basedStep, basesStep, vcpuStep, BasesKept, load, seg, current, eq_comm]
  | writeGpr => exact iff_of_true current trivial
  | writeRflags => exact iff_of_true current trivial
  | advanceRip => exact iff_of_true current trivial
  | _ => cases emulates

/-- In every history that keeps to the rules the emulator is told the right bases, and the first
step that does not makes one of them wrong. -/
theorem basesCurrent_of_reached {cpu : ℕ}
    (reached : Reached (basedCreate info cpu)
      (fun s step => step.Emulates ∧ BasesKept s.vcpu step) (basedStep info) s) :
    BasesCurrent s ∧ ∀ step : VcpuStep, step.Emulates →
      (BasesCurrent (basedStep info s step) ↔ BasesKept s.vcpu step) := by
  have created : BasesCurrent (basedCreate info cpu) := by
    intro i _
    cases i <;> rfl
  have current : BasesCurrent s := by
    refine reached.invariant created fun s step current ok => ?_
    exact (basesCurrent_step_iff current step ok.1).mpr ok.2
  exact ⟨current, fun step => basesCurrent_step_iff current step⟩

end Steps

/-- A guest that has given a segment the base 0x1000. -/
def segmentExit (i : Segment) : VcpuStep :=
  .round {} ⟨fun _ => 0, 0, 0⟩ {
    regs := fun _ => 0
    cr2 := 0
    dr6 := dr6Setbits
    guest := { vmcsCleared with seg := fun j => if j = i then { base := 0x1000 } else {} } }

theorem dsExit_basesCurrent :
    vcpuGetSegmentBase (basedStep plainInfo (basedCreate plainInfo 0) (segmentExit .ds)).vcpu .ds =
        0x1000 ∧
      BasesCurrent (basedStep plainInfo (basedCreate plainInfo 0) (segmentExit .ds)) := by
  have kept : (segmentExit .ds).Emulates ∧ BasesKept (vcpuCreate plainInfo 0) (segmentExit .ds) :=
    ⟨trivial, fun _ => by decide⟩
  exact ⟨by decide, (basesCurrent_of_reached (.step .init kept)).1⟩

/-- A stack segment that the guest has loaded, and a base of GS that it has written, are not
the ones that the emulator uses. -/
theorem ssExit_gsBase_stale :
    (basedStep plainInfo (basedCreate plainInfo 0) (segmentExit .ss)).base .ss = 0x1000 ∧
      vcpuGetSegmentBase (basedStep plainInfo (basedCreate plainInfo 0) (segmentExit .ss)).vcpu
        .ss = 0 ∧
      (basedStep plainInfo (basedCreate plainInfo 0) (.gsBase {} 0x1000)).base .gs = 0x1000 ∧
      vcpuGetSegmentBase (basedStep plainInfo (basedCreate plainInfo 0) (.gsBase {} 0x1000)).vcpu
        .gs = 0 ∧
      ¬ BasesCurrent (basedStep plainInfo (basedCreate plainInfo 0) (segmentExit .ss)) := by
  refine ⟨by decide, by decide, by decide, by decide, fun current => ?_⟩
  exact absurd (current .ss (by decide)) (by decide)

end Haxm
