/-
# The register state of a virtual CPU

The registers of a guest live in two places: in `vcpu->state`, which the code
reads and writes directly, and in the guest-state fields of the VMCS, which the
processor loads at a VM entry and stores at a VM exit. `cur_state` says whether
the copy in `vcpu->state` is complete; the dirty flags say which registers of
the copy still have to be written back before the next entry.

Left out are the fields that no register passes through: the execution
controls, the EPT pointer, the PAE page directory pointers and EFER.
-/

import Mathlib.Data.Fintype.Pi
import Haxm.Lib.Bits
import Haxm.Memory.Host

namespace Haxm

/-! ## Registers -/

/-- `segment_desc_t`. -/
structure SegmentDesc where
  selector : BitVec 16 := 0
  dummy : BitVec 16 := 0
  limit : BitVec 32 := 0
  base : BitVec 64 := 0
  ar : BitVec 32 := 0
  ipad : BitVec 32 := 0
  deriving DecidableEq, Repr

/-- The bit `null` of the access rights. -/
def arNull : BitVec 32 := 0x10000

inductive Segment
  | cs | ss | ds | es | fs | gs | ldt | tr
  deriving DecidableEq, Repr

inductive DescTable
  | gdt | idt
  deriving DecidableEq, Repr

/-- `vcpu_state_t`. -/
structure VcpuState where
  regs : Fin 16 → BitVec 64
  rip : BitVec 64
  rflags : BitVec 64
  seg : Segment → SegmentDesc
  table : DescTable → SegmentDesc
  cr0 : BitVec 64
  cr2 : BitVec 64
  cr3 : BitVec 64
  cr4 : BitVec 64
  /-- `_dr0` to `_dr3`. -/
  dr : Fin 4 → BitVec 64
  dr6 : BitVec 64
  dr7 : BitVec 64

/-- The index of `_rsp` in `_regs`. -/
def regRsp : Fin 16 := 4

def VcpuState.rsp (s : VcpuState) : BitVec 64 := s.regs regRsp

/-- The guest-state fields of the VMCS for a segment register. -/
structure VmcsSegment where
  selector : BitVec 16 := 0
  base : BitVec 64 := 0
  limit : BitVec 32 := 0
  ar : BitVec 32 := 0
  deriving DecidableEq, Repr

/-- The guest-state fields of the VMCS for a descriptor table register. -/
structure VmcsTable where
  base : BitVec 64 := 0
  limit : BitVec 32 := 0
  deriving DecidableEq, Repr

/-- The guest-state fields of the VMCS, which the processor stores at a VM exit. -/
structure VmcsGuest where
  rip : BitVec 64
  rflags : BitVec 64
  rsp : BitVec 64
  cr0 : BitVec 64
  cr3 : BitVec 64
  cr4 : BitVec 64
  seg : Segment → VmcsSegment
  table : DescTable → VmcsTable
  dr7 : BitVec 64
  interruptibility : BitVec 32

/-- The fields of the VMCS that registers pass through. The masks and the read
shadows are control fields: only software writes them. -/
structure Vmcs extends VmcsGuest where
  cr0Mask : BitVec 64
  cr0Shadow : BitVec 64
  cr4Mask : BitVec 64
  cr4Shadow : BitVec 64

inductive GsState
  | stale | valid
  deriving DecidableEq, Repr

/-- The part of `vcpu_t` that the registers depend on. -/
structure Vcpu where
  cpuId : ℕ
  prevCpuId : ℕ
  state : VcpuState
  vmcs : Vmcs
  panicked : Bool := false
  curState : GsState := .valid
  debugControl : BitVec 32 := 0
  debugControlDirty : Bool := false
  drDirty : Bool := false
  rflagsDirty : Bool := false
  ripDirty : Bool := false
  fsBaseDirty : Bool := false
  interruptibilityDirty : Bool := false
  /-- `vmx(vcpu, interruptibility_state).raw`. -/
  interruptibility : BitVec 32 := 0

/-! ## The host -/

def cr0PE : BitVec 64 := 1 <<< 0
def cr0NW : BitVec 64 := 1 <<< 29
def cr0CD : BitVec 64 := 1 <<< 30
def cr0PG : BitVec 64 := 1 <<< 31
def cr4DE : BitVec 64 := 1 <<< 3
def cr4PAE : BitVec 64 := 1 <<< 5
def cr4MCE : BitVec 64 := 1 <<< 6
def cr4VMXE : BitVec 64 := 1 <<< 13
def cr4SMXE : BitVec 64 := 1 <<< 14

/-- What the host processors report about VMX. A control register bit that must
be 1 may be 1, and protected mode is never forbidden. -/
structure VmxInfo where
  cr0Fixed0 : BitVec 64
  cr0Fixed1 : BitVec 64
  cr4Fixed0 : BitVec 64
  cr4Fixed1 : BitVec 64
  ugEnableFlag : Bool
  /-- `CR3_LOAD_EXITING` is among the primary controls in use. -/
  cr3LoadExiting : Bool
  cr0_fixed : cr0Fixed0 &&& ~~~cr0Fixed1 = 0
  cr4_fixed : cr4Fixed0 &&& ~~~cr4Fixed1 = 0
  cr0_pe : cr0Fixed1.getLsbD 0 = true

/-- An unrestricted guest on a host with the usual fixed bits. -/
def plainInfo : VmxInfo where
  cr0Fixed0 := 0x80000021
  cr0Fixed1 := 0xffffffff
  cr4Fixed0 := 0x2000
  cr4Fixed1 := 0x3727ff
  ugEnableFlag := true
  cr3LoadExiting := false
  cr0_fixed := by decide
  cr4_fixed := by decide
  cr0_pe := by decide

/-! ## VMCS sections -/

/-- A section between `load_vmcs` and `put_vmcs`: the processor that the thread
runs on, and whether the two calls succeed. -/
structure VmcsSection where
  cpu : ℕ := 0
  load : Bool := true
  put : Bool := true
  deriving DecidableEq, Repr

/-- What a successful `load_vmcs` does to the virtual CPU. -/
def Vcpu.loadVmcs (v : Vcpu) (cpu : ℕ) : Vcpu :=
  { v with prevCpuId := v.cpuId, cpuId := cpu }

/-- The body runs if `load_vmcs` succeeds; a failure of either call panics the
virtual CPU. -/
def Vcpu.withVmcs (v : Vcpu) (sec : VmcsSection) (body : Vcpu → Vcpu) : Vcpu :=
  if sec.load then
    let w := body (v.loadVmcs sec.cpu)
    if sec.put then w else { w with panicked := true }
  else { v with panicked := true }

/-! ## Access to the VMCS -/

/-- `VMWRITE_SEG`. -/
def vmwriteSeg (d : SegmentDesc) : VmcsSegment where
  selector := d.selector
  base := d.base
  limit := d.limit
  ar := if d.ar = 0 then arNull else d.ar

/-- `VMREAD_SEG`. -/
def vmreadSeg (m : VmcsSegment) (d : SegmentDesc) : SegmentDesc :=
  { d with
    selector := m.selector
    base := m.base
    limit := m.limit
    ar := if m.ar &&& arNull ≠ 0 then 0 else m.ar }

/-- `VMWRITE_DESC`. -/
def vmwriteDesc (d : SegmentDesc) : VmcsTable where
  base := d.base
  limit := d.limit

/-- `VMREAD_DESC`. -/
def vmreadDesc (m : VmcsTable) (d : SegmentDesc) : SegmentDesc :=
  { d with base := m.base, limit := m.limit }

/-- `vmx(vcpu, cr0_mask)` and `vmx(vcpu, cr0_shadow)`, like those for CR4: zero
from `vcpu_init` on. -/
def vmxCrMask : BitVec 64 := 0
def vmxCrShadow : BitVec 64 := 0

/-- `vmwrite_cr`, as far as it writes control registers. -/
def vmwriteCr (info : VmxInfo) (v : Vcpu) : Vcpu :=
  let s := v.state
  -- the complement is taken at 32 bits
  let cr0 := (s.cr0 &&& info.cr0Fixed1) ||| (info.cr0Fixed0 &&& 0x7ffffffe)
  let cr4 := ((s.cr4 ||| cr4MCE) &&& info.cr4Fixed1) ||| info.cr4Fixed0
  let cr0Mask :=
    if info.ugEnableFlag then
      vmxCrMask ||| cr0CD ||| cr0NW ||| ~~~((info.cr0Fixed0 ^^^ info.cr0Fixed1) ||| cr0PE)
    else
      vmxCrMask ||| cr0CD ||| cr0NW ||| cr0PE ||| cr0PG ||| ~~~(info.cr0Fixed0 ^^^ info.cr0Fixed1)
  let cr4Mask :=
    vmxCrMask ||| ~~~(info.cr4Fixed0 ^^^ info.cr4Fixed1) ||| cr4VMXE ||| cr4SMXE ||| cr4MCE |||
      cr4PAE
  { v with vmcs := { v.vmcs with
      cr3 := s.cr3
      cr0 := cr0
      cr0Mask := cr0Mask
      cr0Shadow := (s.cr0 &&& ~~~vmxCrMask) ||| (vmxCrShadow &&& vmxCrMask)
      cr4 := cr4
      cr4Mask := cr4Mask
      cr4Shadow := (s.cr4 &&& ~~~vmxCrMask) ||| (vmxCrShadow &&& vmxCrMask) } }

/-- `vmread_cr`. -/
def vmreadCr (info : VmxInfo) (v : Vcpu) : Vcpu :=
  let m := v.vmcs
  { v with state := { v.state with
      cr0 := (m.cr0 &&& ~~~m.cr0Mask) ||| (v.state.cr0 &&& m.cr0Mask)
      cr3 := if info.cr3LoadExiting then v.state.cr3 else m.cr3
      cr4 := (m.cr4 &&& ~~~m.cr4Mask) ||| (v.state.cr4 &&& m.cr4Mask) } }

/-- The reads of `vcpu_vmread_all`. -/
def vmreadAllFields (v : Vcpu) : Vcpu :=
  let s := v.state
  let m := v.vmcs
  { v with
    state := { s with
      rip := if v.ripDirty then s.rip else m.rip
      rflags := if v.rflagsDirty then s.rflags else m.rflags
      regs := Function.update s.regs regRsp m.rsp
      seg := fun i =>
        -- a pending FS base keeps the whole descriptor from being read
        if i = .fs ∧ v.fsBaseDirty = true then s.seg i else vmreadSeg (m.seg i) (s.seg i)
      table := fun t => vmreadDesc (m.table t) (s.table t) }
    interruptibility := m.interruptibility
    curState := .valid }

/-- `vcpu_vmread_all`. -/
def vcpuVmreadAll (sec : VmcsSection) (v : Vcpu) : Vcpu :=
  if v.curState = .stale then v.withVmcs sec vmreadAllFields else v

/-- `vcpu_vmwrite_all`. -/
def vcpuVmwriteAll (info : VmxInfo) (v : Vcpu) : Vcpu :=
  let s := v.state
  vmwriteCr info
    { v with
      ripDirty := false
      rflagsDirty := false
      fsBaseDirty := false
      vmcs := { v.vmcs with
        rip := s.rip
        rflags := s.rflags
        rsp := s.rsp
        seg := fun i => vmwriteSeg (s.seg i)
        table := fun t => vmwriteDesc (s.table t)
        interruptibility := v.interruptibility } }

/-! ## GET_REGS and SET_REGS -/

/-- `_copy_desc`: every field that differs is copied, and the result says
whether there was one. -/
def copyDesc (old new : SegmentDesc) : Bool × SegmentDesc :=
  (new ≠ old, if old.ar = 0 then { old with ar := arNull } else old)

/-- `vcpu_get_regs`: what user space is told. -/
def vcpuGetRegs (sec : VmcsSection) (v : Vcpu) : VcpuState × Vcpu :=
  let w := vcpuVmreadAll sec v
  -- the earlier contents of the caller's buffer do not show in the copy
  ({ w.state with
      seg := fun i => (copyDesc (w.state.seg i) {}).2
      table := fun t => (copyDesc (w.state.table t) {}).2 }, w)

def haxDebugEnable : BitVec 32 := 1 <<< 0
def haxDebugStep : BitVec 32 := 1 <<< 1
def haxDebugUseHwBp : BitVec 32 := 1 <<< 3

def dr6Setbits : BitVec 64 := 0xffff0ff0
def dr7Setbits : BitVec 64 := 1 <<< 10

/-- `fix_dr6`. -/
def fixDr6 (val : BitVec 64) : BitVec 64 := (val &&& 0xffffffff) ||| dr6Setbits

/-- `fix_dr7`. -/
def fixDr7 (val : BitVec 64) : BitVec 64 := (val &&& 0xffffffff) ||| dr7Setbits

/-- The general registers are copied before the VMCS is loaded. -/
def setGprs (u : VcpuState) (v : Vcpu) : Vcpu :=
  { v with state := { v.state with regs := u.regs } }

/-- RIP and RFLAGS wait for the next entry; RSP is written at once. -/
def setRip (u : VcpuState) (rspDirty : Bool) (v : Vcpu) : Vcpu :=
  { v with
    state := { v.state with rip := u.rip, rflags := u.rflags }
    ripDirty := v.ripDirty || v.state.rip != u.rip
    rflagsDirty := v.rflagsDirty || v.state.rflags != u.rflags
    vmcs := { v.vmcs with rsp := if rspDirty then u.rsp else v.vmcs.rsp } }

/-- Some control register differs from the copy. -/
def crChanged (u : VcpuState) (s : VcpuState) : Bool :=
  s.cr0 != u.cr0 || s.cr2 != u.cr2 || s.cr3 != u.cr3 || s.cr4 != u.cr4

def setCrs (info : VmxInfo) (u : VcpuState) (v : Vcpu) : Vcpu :=
  let w := { v with
    state := { v.state with cr0 := u.cr0, cr2 := u.cr2, cr3 := u.cr3, cr4 := u.cr4 } }
  if crChanged u v.state then vmwriteCr info w else w

/-- The debug registers belong to the debugger while it is enabled. -/
def setDrs (u : VcpuState) (v : Vcpu) : Vcpu :=
  if v.debugControl &&& haxDebugEnable ≠ 0 then v
  else
    let s := v.state
    { v with
      state := { s with dr := u.dr, dr6 := fixDr6 u.dr6, dr7 := fixDr7 u.dr7 }
      drDirty := s.dr ≠ u.dr ∨ s.dr6 ≠ fixDr6 u.dr6 ∨ s.dr7 ≠ fixDr7 u.dr7 }

/-- The eight `UPDATE_SEGMENT_STATE`, and the same for GDTR and IDTR: only a
register that differs from the copy is written to the VMCS. -/
def setSegments (u : VcpuState) (v : Vcpu) : Vcpu :=
  let s := v.state
  let seg := fun i => copyDesc (u.seg i) (s.seg i)
  let table := fun t => copyDesc (u.table t) (s.table t)
  { v with
    state := { s with seg := fun i => (seg i).2, table := fun t => (table t).2 }
    vmcs := { v.vmcs with
      seg := fun i => if (seg i).1 then vmwriteSeg (seg i).2 else v.vmcs.seg i
      table := fun t => if (table t).1 then vmwriteDesc (table t).2 else v.vmcs.table t } }

/-- `vcpu_set_regs`. -/
def vcpuSetRegs (info : VmxInfo) (sec : VmcsSection) (u : VcpuState) (v : Vcpu) : ℤ × Vcpu :=
  let rspDirty := v.state.rsp != u.rsp
  let w := (setGprs u v).withVmcs sec fun v =>
    setSegments u (setDrs u (setCrs info u (setRip u rspDirty v)))
  (if sec.load then 0 else -EFAULT, w)

/-! ## A new virtual CPU -/

/-- `get_segment_desc_t`. -/
def getSegmentDesc (selector : BitVec 16) (base : BitVec 64) (limit ar : BitVec 32) :
    SegmentDesc :=
  { selector, base, limit, ar }

/-- The state that `vcpu_init` prepares. -/
def vcpuInitState : VcpuState where
  regs := fun _ => 0
  rip := 0xfff0
  rflags := 2
  seg
    | .cs => getSegmentDesc 0xf000 0xffff0000 0xffff 0x93
    | .ldt => getSegmentDesc 0 0 0xffff 0x82
    | .tr => getSegmentDesc 0 0 0xffff 0x83
    | _ => getSegmentDesc 0 0 0xffff 0x93
  table := fun _ => { limit := 0xffff }
  cr0 := 0x60000010
  cr2 := 0
  cr3 := 0
  cr4 := 0
  dr := fun _ => 0
  dr6 := dr6Setbits
  dr7 := dr7Setbits

/-- A VMCS whose guest fields have not been written, apart from the two that
`fill_common_vmcs` sets by itself. -/
def vmcsCleared : Vmcs where
  rip := 0
  rflags := 0
  rsp := 0
  cr0 := 0
  cr3 := 0
  cr4 := 0
  seg := fun _ => {}
  table := fun _ => {}
  dr7 := dr7Setbits
  interruptibility := 0
  cr0Mask := 0
  cr0Shadow := 0
  cr4Mask := 0
  cr4Shadow := 0

/-- The virtual CPU after `vcpu_init` and `vcpu_prepare` on processor `cpu`. -/
def vcpuCreate (info : VmxInfo) (cpu : ℕ) : Vcpu :=
  vcpuVmwriteAll info
    { cpuId := cpu, prevCpuId := 0, state := vcpuInitState, vmcs := vmcsCleared, drDirty := true }

end Haxm
