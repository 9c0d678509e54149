/-
# Entering and leaving VMX operation

The driver puts a processor into VMX operation only while it needs the VMCS of a
virtual processor. `load_vmcs` opens such a section and `put_vmcs` closes it;
between the two, further calls for the same virtual processor only count. What
the driver has to remember about the host meanwhile, in `per_cpu_data`, is one
flag for CR4.VMXE and one for its own VMXON.

This file has the instructions, as far as they change the state of the
processor, and the functions of `cpu.c` as they run when nothing interrupts
them. No caller passes a null virtual processor, so that case is left out.
-/

import Mathlib.Algebra.Group.Nat.Defs
import Mathlib.Tactic.Common

namespace Haxm

/-- `vmx_result_t`. -/
inductive VmxResult
  | succeed
  | failInvalid
  | failValid
  deriving DecidableEq, Repr

/-- What of the processor decides the outcome of VMXON. Software other than the
driver may be in VMX operation too. -/
structure RootMode where
  cr4Vmxe : Bool
  vmxOn : Bool
  /-- The VMCS that VMREAD and VMWRITE access, by its physical address. -/
  currentVmcs : Option ℕ
  vmxe_of_on : vmxOn = true → cr4Vmxe = true
  none_of_off : vmxOn = false → currentVmcs = none
  deriving DecidableEq

/-- A processor and the driver's data about it. -/
structure RootCpu where
  cr4Vmxe : Bool
  vmxOn : Bool
  currentVmcs : Option ℕ
  /-- Interrupts are not masked. -/
  irq : Bool
  /-- A VMX instruction has raised an invalid-opcode exception. -/
  undefined : Bool
  /-- The INVEPT instructions executed so far. -/
  invepts : ℕ
  /-- `cpu_data->host_cr4_vmxe`. -/
  hostCr4Vmxe : Bool
  /-- The bit `VMXON_HAX` of `cpu_data->vmm_flag`. -/
  vmxonHax : Bool
  vmxonRes : VmxResult
  vmxoffRes : VmxResult
  inveptRes : VmxResult
  /-- `cpu_data->nested`, which has 16 bits. -/
  nested : ℕ
  /-- `is_vmcs_loaded` of the virtual processor that the thread on this processor
  works for. -/
  isVmcsLoaded : Bool
  currentVcpu : Option ℕ
  /-- The calls of `hax_disable_preemption` and of `hax_enable_preemption`. -/
  preemptDisables : ℕ
  preemptEnables : ℕ
  deriving DecidableEq

namespace RootCpu

/-! ## Instructions -/

/-- VMXON. It raises an exception without CR4.VMXE, and fails in VMX operation:
with an error number if there is a VMCS to put it in. -/
def asmVmxon (s : RootCpu) : VmxResult × RootCpu :=
  if s.cr4Vmxe then
    if s.vmxOn then (if s.currentVmcs.isSome then .failValid else .failInvalid, s)
    else (.succeed, { s with vmxOn := true, currentVmcs := none })
  else (.failInvalid, { s with undefined := true })

def asmVmxoff (s : RootCpu) : VmxResult × RootCpu :=
  if s.vmxOn then (.succeed, { s with vmxOn := false, currentVmcs := none })
  else (.failInvalid, { s with undefined := true })

/-- VMPTRLD of a page, which fails if the page is no VMCS region. -/
def asmVmptrld (valid : Bool) (vmcs : ℕ) (s : RootCpu) : VmxResult × RootCpu :=
  if s.vmxOn then
    if valid then (.succeed, { s with currentVmcs := some vmcs })
    else (if s.currentVmcs.isSome then .failValid else .failInvalid, s)
  else (.failInvalid, { s with undefined := true })

/-- VMCLEAR, whose failure the driver only logs. -/
def asmVmclear (vmcs : ℕ) (s : RootCpu) : RootCpu :=
  if s.vmxOn then
    if s.currentVmcs = some vmcs then { s with currentVmcs := none } else s
  else { s with undefined := true }

def asmInvept (s : RootCpu) : VmxResult × RootCpu :=
  if s.vmxOn then (.succeed, { s with invepts := s.invepts + 1 })
  else (.failInvalid, { s with undefined := true })

/-! ## The parts of `cpu_vmxroot_enter` and `cpu_vmxroot_leave` -/

def saveHostCr4Vmxe (s : RootCpu) : RootCpu := { s with hostCr4Vmxe := s.cr4Vmxe }

def setCr4Vmxe (s : RootCpu) : RootCpu := { s with cr4Vmxe := true }

/-- `restore_host_cr4_vmxe`. -/
def restoreHostCr4Vmxe (s : RootCpu) : RootCpu :=
  if s.hostCr4Vmxe then { s with cr4Vmxe := true } else { s with cr4Vmxe := false }

/-- What follows VMXON: every failure is fatal, except on macOS. -/
def noteVmxon (result : VmxResult) (s : RootCpu) : RootCpu :=
  match result with
  | .succeed => { s with vmxonHax := true }
  | _ => s.restoreHostCr4Vmxe

/-- `cpu_vmxroot_enter`. -/
def cpuVmxrootEnter (s : RootCpu) : VmxResult × RootCpu :=
  let (result, s) := s.saveHostCr4Vmxe.setCr4Vmxe.asmVmxon
  (result, { s.noteVmxon result with vmxonRes := result })

/-- `cpu_vmxroot_leave`. -/
def cpuVmxrootLeave (s : RootCpu) : VmxResult × RootCpu :=
  if s.vmxonHax then
    match s.asmVmxoff with
    | (.succeed, s) =>
      (.succeed, { ({ s with vmxonHax := false } : RootCpu).restoreHostCr4Vmxe with
        vmxoffRes := .succeed })
    | (result, s) => (result, { s with vmxoffRes := result })
  else (.failValid, { s with vmxoffRes := .failValid })

/-- `invept_smpfunc`. -/
def inveptSmpfunc (s : RootCpu) : RootCpu :=
  let s := (cpuVmxrootEnter { s with inveptRes := .succeed }).2
  if s.vmxonRes = .succeed then
    let (result, s) := s.asmInvept
    (cpuVmxrootLeave { s with inveptRes := result }).2
  else s

/-! ## Sections -/

def disablePreemption (s : RootCpu) : RootCpu :=
  { s with preemptDisables := s.preemptDisables + 1 }

def enablePreemption (s : RootCpu) : RootCpu :=
  { s with preemptEnables := s.preemptEnables + 1 }

/-- What `load_vmcs` records once the VMCS is current. -/
def noteLoaded (vmcs : ℕ) (s : RootCpu) : RootCpu :=
  { s with isVmcsLoaded := true, currentVcpu := some vmcs }

def vmxonFail : ℕ := 1
def vmptrldFail : ℕ := 2

/-- `load_vmcs` for the virtual processor whose VMCS is at `vmcs`. -/
def loadVmcs (valid : Bool) (vmcs : ℕ) (s : RootCpu) : ℕ × RootCpu :=
  let s := s.disablePreemption
  if s.isVmcsLoaded then (0, { s with nested := (s.nested + 1) % 2 ^ 16 })
  else
    match s.cpuVmxrootEnter with
    | (.succeed, s) =>
      match s.asmVmptrld valid vmcs with
      | (.succeed, s) => (0, s.noteLoaded vmcs)
      | (_, s) => (vmptrldFail, s.cpuVmxrootLeave.2.enablePreemption)
    | (_, s) => (vmxonFail, s.enablePreemption)

/-- `put_vmcs`. -/
def putVmcs (vmcs : ℕ) (s : RootCpu) : VmxResult × RootCpu :=
  if 0 < s.nested then (.succeed, { s with nested := s.nested - 1 }.enablePreemption)
  else
    let (result, s) := { s.asmVmclear vmcs with currentVcpu := none }.cpuVmxrootLeave
    (result, { s with isVmcsLoaded := false }.enablePreemption)

end RootCpu

end Haxm
