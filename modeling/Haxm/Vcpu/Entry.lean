/-
# Running the guest

One round of the loop in `cpu_vmx_execute`: the pending registers are written
to the VMCS, the processor runs the guest and leaves new values behind, and
some of them are copied to `vcpu->state`. Then come the exit handlers, as far
as they touch registers. What the guest and the processor do in between is
unconstrained.
-/

import Haxm.Lib.Run
import Haxm.Vcpu.State

namespace Haxm

open Lib

/-! ## Debug registers -/

/-- The debug registers of a processor. -/
structure DebugRegs where
  dr : Fin 4 → BitVec 64
  dr6 : BitVec 64
  dr7 : BitVec 64

def hbreakEnabledMask : BitVec 64 := 0xff
def dr6BD : BitVec 64 := 1 <<< 13
def dr7GD : BitVec 64 := 1 <<< 13

/-- `is_host_debug_enabled`, on the DR7 that `save_host_dr` has kept. -/
def isHostDebugEnabled (hostDr7 : BitVec 64) : Bool := hostDr7 &&& hbreakEnabledMask != 0

/-- `is_thread_migrated`. -/
def isThreadMigrated (v : Vcpu) : Bool := v.cpuId != v.prevCpuId

/-- `is_guest_dr_dirty`. -/
def isGuestDrDirty (v : Vcpu) : Bool := v.drDirty || isThreadMigrated v

/-- `load_guest_dr`, on a processor that has the debug registers `phys`. -/
def loadGuestDr (hostDr7 : BitVec 64) (phys : DebugRegs) (v : Vcpu) : Vcpu × DebugRegs :=
  if isGuestDrDirty v || isHostDebugEnabled hostDr7 then
    ({ v with vmcs := { v.vmcs with dr7 := v.state.dr7 }, drDirty := false },
      { dr := v.state.dr, dr6 := v.state.dr6, dr7 := 0 })
  else (v, phys)

/-! ## VM entry -/

def eflagsTF : BitVec 64 := 1 <<< 8
def eflagsIF : BitVec 64 := 1 <<< 9
def guestIntrstatStiBlocking : BitVec 32 := 1
def guestIntrstatSsBlocking : BitVec 32 := 2

/-- Single-stepping, at the head of `load_dirty_vmcs_fields`. -/
def loadDebugControl (v : Vcpu) : Vcpu :=
  if v.debugControlDirty then
    { v with
      state := { v.state with
        rflags :=
          if v.debugControl &&& haxDebugStep ≠ 0 then v.state.rflags ||| eflagsTF
          else v.state.rflags &&& ~~~eflagsTF }
      rflagsDirty := true
      debugControlDirty := false }
  else v

/-- Blocking by STI is dropped when interrupts are disabled. -/
def loadInterruptibility (v : Vcpu) : Vcpu :=
  let drop := v.state.rflags &&& eflagsIF = 0 ∧
    v.interruptibility &&& guestIntrstatStiBlocking ≠ 0
  let raw := if drop then v.interruptibility &&& ~~~guestIntrstatStiBlocking else v.interruptibility
  let dirty := v.interruptibilityDirty ∨ drop
  { v with
    interruptibility := raw
    interruptibilityDirty := false
    vmcs := { v.vmcs with interruptibility := if dirty then raw else v.vmcs.interruptibility } }

/-- The fields of the VMCS after the writes that were put off. -/
def dirtyFields (v : Vcpu) : Vmcs :=
  { v.vmcs with
    rflags := if v.rflagsDirty then v.state.rflags else v.vmcs.rflags
    rip := if v.ripDirty then v.state.rip else v.vmcs.rip
    seg := fun i =>
      if i = .fs ∧ v.fsBaseDirty = true then { v.vmcs.seg i with base := (v.state.seg i).base }
      else v.vmcs.seg i }

/-- `load_dirty_vmcs_fields`. -/
def loadDirtyVmcsFields (v : Vcpu) : Vcpu :=
  let v := loadDebugControl v
  loadInterruptibility
    { v with vmcs := dirtyFields v, rflagsDirty := false, ripDirty := false, fsBaseDirty := false }

/-! A register is held if it waits to be written or is in the VMCS already. -/

section Held

variable {w : ℕ} {dirty : Bool} {vmcs copy new : BitVec w} (held : dirty = true ∨ vmcs = copy)

include held

theorem held_load : (if dirty then copy else vmcs) = copy := by
  rcases held with rfl | rfl
  · rfl
  · exact ite_self _

theorem held_set : (dirty || copy != new) = true ∨ vmcs = new := by
  by_cases same : copy = new
  · exact held.imp (by simp +contextual) fun eq => eq.trans same
  · left
    simp [same]

end Held

/-- The two access rights that `cpu_vmx_execute` corrects before it enters. -/
def correctAr (i : Segment) (ar : BitVec 32) : BitVec 32 :=
  match i with
  | .cs => if ar &&& 0xf = 0xa then ar + 1 else ar
  | .tr => (ar &&& ~~~0xf) ||| 0xb
  | _ => ar

def correctSegments (v : Vcpu) : Vcpu :=
  { v with vmcs := { v.vmcs with
      seg := fun i => { v.vmcs.seg i with ar := correctAr i (v.vmcs.seg i).ar } } }

/-- What happens to the virtual CPU and to the debug registers of the processor
before `asm_vmxrun`. The host's DR7 is the processor's own. -/
def vmEntry (phys : DebugRegs) (v : Vcpu) : Vcpu × DebugRegs :=
  match loadGuestDr phys.dr7 phys (correctSegments v) with
  | (v, phys) => (loadDirtyVmcsFields v, phys)

/-! ## VM exit -/

/-- What the guest and the processor leave behind. -/
structure VmExit where
  regs : Fin 16 → BitVec 64
  cr2 : BitVec 64
  dr6 : BitVec 64
  guest : VmcsGuest

/-- The registers that `asm_vmxrun`, `vcpu_load_host_state`, `save_guest_dr`
and `cpu_vmx_execute` bring into `vcpu->state`. -/
def vmExit (info : VmxInfo) (exit : VmExit) (v : Vcpu) : Vcpu :=
  let m := { v.vmcs with toVmcsGuest := exit.guest }
  let s := { v.state with
    regs := Function.update exit.regs regRsp m.rsp
    cr2 := exit.cr2
    dr6 := exit.dr6
    rip := m.rip
    rflags := m.rflags
    seg := fun i =>
      match i with
      | .cs | .ds | .es => vmreadSeg (m.seg i) (v.state.seg i)
      | _ => v.state.seg i }
  { vmreadCr info { v with vmcs := m, state := s } with
    interruptibility := m.interruptibility
    curState := .stale }

/-- One round of `cpu_vmx_execute` up to the exit handler. -/
def cpuVmxRound (info : VmxInfo) (sec : VmcsSection) (phys : DebugRegs) (exit : VmExit)
    (v : Vcpu) : Vcpu :=
  if v.panicked then v
  else v.withVmcs sec fun v => vmExit info exit (vmEntry phys v).1

/-- `cur_state = GS_STALE` and `vcpu_vmread_all`, by which `vcpu_execute` ends
when it returns an error. -/
def refreshState (sec : VmcsSection) (v : Vcpu) : Vcpu :=
  vcpuVmreadAll sec { v with curState := .stale }

/-- A VM entry that fails: only DR6 comes back. -/
def cpuVmxFailedRound (sec : VmcsSection) (phys : DebugRegs) (v : Vcpu) : Vcpu :=
  if v.panicked then v
  else v.withVmcs sec fun v =>
    match vmEntry phys v with
    | (v, phys) => { v with state := { v.state with dr6 := phys.dr6 } }

/-! ## Exit handlers -/

/-- `advance_rip`, for an instruction of `len` bytes. -/
def advanceRip (len : BitVec 64) (v : Vcpu) : Vcpu :=
  let blocking := guestIntrstatStiBlocking ||| guestIntrstatSsBlocking
  let blocked := v.interruptibility &&& blocking ≠ 0
  { v with
    state := { v.state with rip := v.state.rip + len }
    ripDirty := true
    interruptibility :=
      if blocked then v.interruptibility &&& ~~~blocking else v.interruptibility
    interruptibilityDirty := v.interruptibilityDirty ∨ blocked }

/-- `vcpu_write_gpr`. -/
def vcpuWriteGpr (i : Fin 16) (val : BitVec 64) (v : Vcpu) : Vcpu :=
  { v with state := { v.state with regs := Function.update v.state.regs i val } }

/-- `vcpu_write_rflags`. -/
def vcpuWriteRflags (val : BitVec 64) (v : Vcpu) : Vcpu :=
  { v with state := { v.state with rflags := val }, rflagsDirty := true }

/-- The control registers whose writes `exit_cr_access` emulates. -/
inductive GuestCr
  | cr0 | cr4
  deriving DecidableEq, Repr

/-- `vcpu_write_cr`. -/
def vcpuWriteCr (cr : GuestCr) (val : BitVec 64) (v : Vcpu) : Vcpu :=
  match cr with
  | .cr0 => { v with state := { v.state with cr0 := val } }
  | .cr4 => { v with state := { v.state with cr4 := val } }

/-- The write of `exit_cr_access`, for MOV, CLTS and LMSW: `pdpt` says whether
the page directory pointers, if they are needed, could be read. -/
def exitCrWrite (info : VmxInfo) (sec : VmcsSection) (cr : GuestCr) (val : BitVec 64)
    (pdpt : Bool) (v : Vcpu) : Vcpu :=
  let w := vcpuWriteCr cr val v
  if pdpt then w.withVmcs sec (vmwriteCr info) else { w with panicked := true }

/-- The write of IA32_FS_BASE. -/
def writeFsBase (val : BitVec 64) (v : Vcpu) : Vcpu :=
  { v with
    state := { v.state with
      seg := Function.update v.state.seg .fs { v.state.seg .fs with base := val } }
    fsBaseDirty := true }

/-- The write of IA32_GS_BASE. -/
def writeGsBase (sec : VmcsSection) (val : BitVec 64) (v : Vcpu) : Vcpu :=
  v.withVmcs sec fun v =>
    { v with vmcs := { v.vmcs with
        seg := Function.update v.vmcs.seg .gs { v.vmcs.seg .gs with base := val } } }

/-- The debug register that `dreg` selects. -/
def readDr (s : VcpuState) (dreg : Fin 8) : BitVec 64 :=
  if h : dreg.val < 4 then s.dr ⟨dreg, h⟩
  else if dreg.val % 2 = 0 then s.dr6 else s.dr7

def writeDr (s : VcpuState) (dreg : Fin 8) (val : BitVec 64) : VcpuState :=
  if h : dreg.val < 4 then { s with dr := Function.update s.dr ⟨dreg, h⟩ val }
  else if dreg.val % 2 = 0 then { s with dr6 := val } else { s with dr7 := val }

/-- The value of DR`dreg` that a guest sees while hardware breakpoints are the
debugger's. -/
def defaultDr (dreg : Fin 8) : BitVec 64 :=
  if dreg = 6 then dr6Setbits else if dreg = 7 then dr7Setbits else 0

/-- `exit_dr_access`. The exceptions that it injects leave the registers alone. -/
def exitDrAccess (sec : VmcsSection) (dreg : Fin 8) (toGpr : Bool) (gpr : Fin 16)
    (len : BitVec 64) (v : Vcpu) : Vcpu :=
  let hbreakEnabled := v.debugControl &&& haxDebugUseHwBp ≠ 0
  if v.state.dr7 &&& dr7GD ≠ 0 then
    let w := { v with state := { v.state with
      dr7 := v.state.dr7 &&& ~~~dr7GD
      dr6 := v.state.dr6 ||| dr6BD } }
    w.withVmcs sec fun w => { w with vmcs := { w.vmcs with dr7 := w.state.dr7 } }
  else if (dreg = 4 ∨ dreg = 5) ∧ v.state.cr4 &&& cr4DE ≠ 0 then v
  else if toGpr then
    advanceRip len
      (vcpuWriteGpr gpr (if hbreakEnabled then defaultDr dreg else readDr v.state dreg) v)
  else
    advanceRip len
      (if hbreakEnabled then v
      else { v with state := writeDr v.state dreg (v.state.regs gpr), drDirty := true })

/-- `vcpu_debug`. -/
def vcpuDebug (control : BitVec 32) (dr : Fin 8 → BitVec 64) (v : Vcpu) : Vcpu :=
  let enabled := control &&& haxDebugEnable ≠ 0
  let hbreak := enabled ∧ control &&& haxDebugUseHwBp ≠ 0
  { v with
    debugControl := if enabled then control else 0
    state := { v.state with
      dr := fun i => if hbreak then dr (i.castLE (by decide)) else 0
      dr7 := if hbreak then fixDr7 (dr 7) else dr7Setbits
      dr6 := dr6Setbits }
    debugControlDirty := true
    drDirty := true }

/-! ## Histories -/

/-- What can happen to a virtual CPU. -/
inductive VcpuStep
  | round (sec : VmcsSection) (phys : DebugRegs) (exit : VmExit)
  | failedRound (sec₁ sec₂ : VmcsSection) (phys : DebugRegs)
  | refresh (sec : VmcsSection)
  | advanceRip (len : BitVec 64)
  | writeGpr (i : Fin 16) (val : BitVec 64)
  | writeRflags (val : BitVec 64)
  | crWrite (sec : VmcsSection) (cr : GuestCr) (val : BitVec 64) (pdpt : Bool)
  | drAccess (sec : VmcsSection) (dreg : Fin 8) (toGpr : Bool) (gpr : Fin 16) (len : BitVec 64)
  | fsBase (val : BitVec 64)
  | gsBase (sec : VmcsSection) (val : BitVec 64)
  /-- A read of the VMCS outside a round. -/
  | vmread (sec : VmcsSection)
  | getRegs (sec : VmcsSection)
  | setRegs (sec : VmcsSection) (u : VcpuState)
  | debug (control : BitVec 32) (dr : Fin 8 → BitVec 64)

def vcpuStep (info : VmxInfo) (v : Vcpu) : VcpuStep → Vcpu
  | .round sec phys exit => cpuVmxRound info sec phys exit v
  | .failedRound sec₁ sec₂ phys => refreshState sec₂ (cpuVmxFailedRound sec₁ phys v)
  | .refresh sec => refreshState sec v
  | .advanceRip len => Haxm.advanceRip len v
  | .writeGpr i val => vcpuWriteGpr i val v
  | .writeRflags val => vcpuWriteRflags val v
  | .crWrite sec cr val pdpt => exitCrWrite info sec cr val pdpt v
  | .drAccess sec dreg toGpr gpr len => exitDrAccess sec dreg toGpr gpr len v
  | .fsBase val => writeFsBase val v
  | .gsBase sec val => writeGsBase sec val v
  | .vmread sec => v.withVmcs sec id
  | .getRegs sec => (vcpuGetRegs sec v).2
  | .setRegs sec u => (vcpuSetRegs info sec u v).2
  | .debug control dr => vcpuDebug control dr v

/-- The guest debugger is not used. -/
def VcpuStep.NoDebug : VcpuStep → Prop
  | .debug .. => False
  | _ => True

/-- The virtual CPUs that a history without the debugger leads to. -/
def VcpuReached (info : VmxInfo) (cpu : ℕ) (v : Vcpu) : Prop :=
  Reached (vcpuCreate info cpu) (fun _ step => step.NoDebug) (vcpuStep info) v

theorem VcpuReached.step {info : VmxInfo} {cpu : ℕ} {v : Vcpu} (h : VcpuReached info cpu v)
    (step : VcpuStep) (noDebug : step.NoDebug) : VcpuReached info cpu (vcpuStep info v step) :=
  Reached.step h noDebug

end Haxm
