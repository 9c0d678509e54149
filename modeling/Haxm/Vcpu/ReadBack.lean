/-
# Reading the registers back

`vcpu_vmread_all` completes the copy in `vcpu->state` after a VM exit. What an exit
handler has changed is dirty and has to last until the next entry, also if user
space asks for the registers in between. RIP and RFLAGS do. The interruptibility
is read back even if it is dirty, and a dirty FS base keeps the rest of FS from
being read.
-/

import Haxm.Vcpu.Entry

namespace Haxm

variable {sec : VmcsSection} {v : Vcpu}

/-- The copy `w` is complete, but what was dirty in `v` has been left alone. -/
structure Refreshed (v w : Vcpu) : Prop where
  rip : w.state.rip = if v.ripDirty then v.state.rip else v.vmcs.rip
  rflags : w.state.rflags = if v.rflagsDirty then v.state.rflags else v.vmcs.rflags
  rsp : w.state.rsp = v.vmcs.rsp
  interruptibility : w.interruptibility =
    if v.interruptibilityDirty then v.interruptibility else v.vmcs.interruptibility
  seg : ∀ i, w.state.seg i = { vmreadSeg (v.vmcs.seg i) (v.state.seg i) with
    base := if i = .fs ∧ v.fsBaseDirty = true then (v.state.seg i).base else (v.vmcs.seg i).base }
  table : ∀ t, w.state.table t = vmreadDesc (v.vmcs.table t) (v.state.table t)

/-- RIP, RFLAGS and the interruptibility in the copy are those of the VMCS, unless they are
dirty. -/
structure Vcpu.Current (v : Vcpu) : Prop where
  rip : v.ripDirty = false → v.state.rip = v.vmcs.rip
  rflags : v.rflagsDirty = false → v.state.rflags = v.vmcs.rflags
  interruptibility : v.interruptibilityDirty = false → v.interruptibility = v.vmcs.interruptibility

/-- The calls of `vcpu_get_regs` between an exit and the next entry. -/
def getRegsRun (secs : List VmcsSection) (v : Vcpu) : Vcpu :=
  secs.foldl (fun v sec => (vcpuGetRegs sec v).2) v

/-- What is dirty does not show: the interruptibility is the one in the VMCS, and FS is there but
for its base. -/
structure Vcpu.ReadsBack (v : Vcpu) : Prop where
  interruptibility : v.interruptibilityDirty = true → v.vmcs.interruptibility = v.interruptibility
  fs : v.fsBaseDirty = true →
    { vmreadSeg (v.vmcs.seg .fs) (v.state.seg .fs) with base := (v.state.seg .fs).base } =
      v.state.seg .fs

/-! ## Between an exit and the next entry -/

/-- An exit brings the three registers into the copy. -/
theorem current_vmExit (info : VmxInfo) (exit : VmExit) (v : Vcpu) : (vmExit info exit v).Current :=
  ⟨fun _ => rfl, fun _ => rfl, fun _ => rfl⟩

/-- A handler that changes one of them makes it dirty. -/
theorem Vcpu.Current.advanceRip (h : v.Current) (len : BitVec 64) :
    (Haxm.advanceRip len v).Current := by
  refine ⟨fun clean => (by cases clean), h.rflags, fun clean => ?_⟩
  simp only [Haxm.advanceRip, decide_eq_false_iff_not, not_or, Bool.not_eq_true] at clean ⊢
  rw [if_neg clean.2]
  exact h.interruptibility clean.1

theorem Vcpu.Current.writeRflags (h : v.Current) (val : BitVec 64) :
    (vcpuWriteRflags val v).Current :=
  ⟨h.rip, fun clean => (by cases clean), h.interruptibility⟩

/-- The virtual CPU `w` differs from `v` in nothing that is written before the next entry. -/
structure Vcpu.WritesAs (v w : Vcpu) : Prop where
  same : w = { v with
    cpuId := w.cpuId, prevCpuId := w.prevCpuId, panicked := w.panicked, curState := w.curState
    state := { v.state with regs := w.state.regs, seg := w.state.seg, table := w.state.table } }
  fs : v.fsBaseDirty = true → w.state.seg .fs = v.state.seg .fs

theorem Vcpu.WritesAs.vmcs {w : Vcpu} (h : v.WritesAs w) :
    (loadDirtyVmcsFields w).vmcs = (loadDirtyVmcsFields v).vmcs := by
  have base : (fun i => if i = .fs ∧ v.fsBaseDirty = true then
      { v.vmcs.seg i with base := (w.state.seg i).base } else v.vmcs.seg i) =
      fun i => if i = .fs ∧ v.fsBaseDirty = true then
        { v.vmcs.seg i with base := (v.state.seg i).base } else v.vmcs.seg i := by
    funext i
    split
    case isTrue dirty => rw [dirty.1, h.fs dirty.2]
    case isFalse => rfl
  rw [h.same]
  unfold loadDirtyVmcsFields loadDebugControl
  split
  all_goals simp only [loadInterruptibility, dirtyFields, base]

section Read

variable (current : v.Current) (back : v.ReadsBack)

include current back

theorem writesAs_vmreadAllFields : v.WritesAs (vmreadAllFields v) := by
  have rip : (if v.ripDirty then v.state.rip else v.vmcs.rip) = v.state.rip := by
    split
    case isTrue => rfl
    case isFalse clean => exact (current.rip (Bool.eq_false_iff.mpr clean)).symm
  have rflags : (if v.rflagsDirty then v.state.rflags else v.vmcs.rflags) = v.state.rflags := by
    split
    case isTrue => rfl
    case isFalse clean => exact (current.rflags (Bool.eq_false_iff.mpr clean)).symm
  have interruptibility : v.vmcs.interruptibility = v.interruptibility := by
    cases dirty : v.interruptibilityDirty with
    | true => exact back.interruptibility dirty
    | false => exact (current.interruptibility dirty).symm
  refine ⟨?_, fun dirty => if_pos ⟨rfl, dirty⟩⟩
  unfold vmreadAllFields
  dsimp only
  rw [rip, rflags, interruptibility]

theorem writesAs_vcpuVmreadAll (sec : VmcsSection) : v.WritesAs (vcpuVmreadAll sec v) := by
  have read : v.WritesAs (vmreadAllFields (v.loadVmcs sec.cpu)) := by
    obtain ⟨same, fs⟩ := writesAs_vmreadAllFields current back
    exact ⟨congrArg (fun w : Vcpu => { w with cpuId := sec.cpu, prevCpuId := v.cpuId }) same, fs⟩
  unfold vcpuVmreadAll Vcpu.withVmcs
  split
  · split
    · dsimp only
      split
      · exact read
      · exact ⟨congrArg (fun w : Vcpu => { w with panicked := true }) read.same, read.fs⟩
    · exact ⟨rfl, fun _ => rfl⟩
  · exact ⟨rfl, fun _ => rfl⟩

/-- Induction on the calls: each leaves the virtual CPU as it was, as far as the entry goes. -/
theorem vmcs_getRegsRun (secs : List VmcsSection) :
    (loadDirtyVmcsFields (getRegsRun secs v)).vmcs = (loadDirtyVmcsFields v).vmcs := by
  induction secs generalizing v with
  | nil => rfl
  | cons sec secs ih =>
    have step := writesAs_vcpuVmreadAll current back sec
    refine Eq.trans ?_ step.vmcs
    rw [show getRegsRun (sec :: secs) v = getRegsRun secs (vcpuVmreadAll sec v) from rfl, step.same]
    refine ih { current with } { back with fs := fun dirty => ?_ }
    dsimp only
    rw [step.fs dirty]
    exact back.fs dirty

end Read

/-- The dirty registers survive, and the others are read, if the VMCS already has what is dirty of
the interruptibility and of FS, and only then. -/
theorem vcpuVmreadAll_refreshed_iff (stale : v.curState = .stale) (load : sec.load = true) :
    (Refreshed v (vcpuVmreadAll sec v) ∧ (v.Current → ∀ secs,
      (loadDirtyVmcsFields (getRegsRun secs v)).vmcs = (loadDirtyVmcsFields v).vmcs)) ↔
      v.ReadsBack := by
  have read : ∃ a b p, vcpuVmreadAll sec v = { vmreadAllFields v with
      cpuId := a, prevCpuId := b, panicked := p } := by
    unfold vcpuVmreadAll Vcpu.withVmcs
    rw [if_pos stale, if_pos load]
    dsimp only
    split
    · exact ⟨sec.cpu, v.cpuId, v.panicked, rfl⟩
    · exact ⟨sec.cpu, v.cpuId, true, rfl⟩
  obtain ⟨_, _, _, read⟩ := read
  constructor
  · rintro ⟨refreshed, -⟩
    rw [read] at refreshed
    refine ⟨fun dirty => ?_, fun dirty => ?_⟩
    · exact refreshed.interruptibility.trans (if_pos dirty)
    · have fs := refreshed.seg .fs
      rw [if_pos ⟨rfl, dirty⟩] at fs
      exact fs.symm.trans (if_pos ⟨rfl, dirty⟩)
  · intro back
    refine ⟨?_, fun current => vmcs_getRegsRun current back⟩
    rw [read]
    refine ⟨rfl, rfl, rfl, ?_, fun i => ?_, fun _ => rfl⟩
    · cases dirty : v.interruptibilityDirty with
      | true => exact back.interruptibility dirty
      | false => rfl
    · show (if i = .fs ∧ v.fsBaseDirty = true then _ else _ : SegmentDesc) = _
      split
      case isTrue dirty =>
        obtain ⟨rfl, dirty⟩ := dirty
        exact (back.fs dirty).symm
      case isFalse => rfl

/-- A guest that exits in the instruction after STI. -/
def stiExit : VmExit where
  regs := fun _ => 0
  cr2 := 0
  dr6 := dr6Setbits
  guest := { vmcsCleared.toVmcsGuest with interruptibility := 1, rflags := 0x202 }

/-- The handler is done with the instruction and drops the blocking. -/
def stiVcpu : Vcpu := advanceRip 2 (vmExit plainInfo stiExit (vcpuCreate plainInfo 0))

theorem stiVcpu_refreshed_iff :
    (Refreshed stiVcpu (vcpuVmreadAll {} stiVcpu) ∧ (stiVcpu.Current → ∀ secs,
      (loadDirtyVmcsFields (getRegsRun secs stiVcpu)).vmcs = (loadDirtyVmcsFields stiVcpu).vmcs)) ↔
      stiVcpu.ReadsBack :=
  vcpuVmreadAll_refreshed_iff rfl rfl

/-- After GET_REGS, the blocking is there again at the next entry. -/
theorem stiVcpu_blocked :
    (loadDirtyVmcsFields stiVcpu).vmcs.interruptibility = 0 ∧
      (loadDirtyVmcsFields (getRegsRun [{}] stiVcpu)).vmcs.interruptibility = 1 := by
  decide

end Haxm
