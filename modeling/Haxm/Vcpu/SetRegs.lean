/-
# Which registers SET_REGS sets

`vcpu_set_regs` writes a register to the VMCS only if it differs from the copy
in `vcpu->state`. For RIP, RFLAGS, the control registers and CS, DS and ES the
copy is kept in step with the VMCS by every round of `cpu_vmx_execute`. For the
other registers it can lag behind: they are read back only by
`vcpu_vmread_all`, and a request that asks for the outdated value is dropped.
-/

import Haxm.Vcpu.Entry

namespace Haxm

open Lib

/-! ## What an entry uses -/

/-- Access rights up to the encodings of the null descriptor. -/
def arNorm (ar : BitVec 32) : BitVec 32 := if ar = 0 ∨ ar &&& arNull ≠ 0 then arNull else ar

def VmcsSegment.norm (m : VmcsSegment) : VmcsSegment := { m with ar := arNorm m.ar }

/-- The registers of a guest. -/
@[ext]
structure Registers where
  gpr : Fin 16 → BitVec 64
  rip : BitVec 64
  rflags : BitVec 64
  cr0 : BitVec 64
  cr2 : BitVec 64
  cr3 : BitVec 64
  cr4 : BitVec 64
  seg : Segment → VmcsSegment
  table : DescTable → VmcsTable

/-- The registers of a descriptor as user space passes it. -/
def SegmentDesc.fields (d : SegmentDesc) : VmcsSegment :=
  VmcsSegment.norm { selector := d.selector, base := d.base, limit := d.limit, ar := d.ar }

def VcpuState.registers (s : VcpuState) : Registers where
  gpr := s.regs
  rip := s.rip
  rflags := s.rflags
  cr0 := s.cr0
  cr2 := s.cr2
  cr3 := s.cr3
  cr4 := s.cr4
  seg := fun i => (s.seg i).fields
  table := fun t => vmwriteDesc (s.table t)

/-- CR0 as the guest sees it: the bits of the mask come from the read shadow. -/
def Vmcs.visibleCr0 (m : Vmcs) : BitVec 64 :=
  (m.cr0 &&& ~~~m.cr0Mask) ||| (m.cr0Shadow &&& m.cr0Mask)

def Vmcs.visibleCr4 (m : Vmcs) : BitVec 64 :=
  (m.cr4 &&& ~~~m.cr4Mask) ||| (m.cr4Shadow &&& m.cr4Mask)

/-- The registers that the processor loads: the VMCS, and from `vcpu->state`
what the VMCS has no field for. -/
def Vcpu.loads (w : Vcpu) : Registers where
  gpr := fun i => if i = regRsp then w.vmcs.rsp else w.state.regs i
  rip := w.vmcs.rip
  rflags := w.vmcs.rflags
  cr0 := w.vmcs.visibleCr0
  cr2 := w.state.cr2
  cr3 := w.vmcs.cr3
  cr4 := w.vmcs.visibleCr4
  seg := fun i => (w.vmcs.seg i).norm
  table := w.vmcs.table

/-- The registers of the next VM entry, after the pending writes and before
`cpu_vmx_execute` corrects the access rights of CS and TR. -/
def Vcpu.entryRegisters (v : Vcpu) : Registers := (loadDirtyVmcsFields v).loads

/-- The access rights of CS and TR as `cpu_vmx_execute` corrects them. -/
def Registers.corrected (r : Registers) : Registers :=
  { r with seg := fun i => { r.seg i with ar := correctAr i (r.seg i).ar } }

/-- After SET_REGS the next entry uses the requested registers, up to the
corrected access rights of CS and TR, and GET_REGS returns them. -/
def TakesEffect (info : VmxInfo) (sec : VmcsSection) (u : VcpuState) (v : Vcpu) : Prop :=
  let w := (vcpuSetRegs info sec u v).2
  w.entryRegisters = u.registers ∧
    ∀ sec', (vcpuGetRegs sec' w).1.registers = u.registers

/-! ## Descriptors through the VMCS -/

theorem arNorm_of_null {ar : BitVec 32} (h : ar &&& arNull ≠ 0) : arNorm ar = arNull :=
  if_pos (.inr h)

theorem arNorm_vmread (ar : BitVec 32) :
    arNorm (if ar &&& arNull ≠ 0 then 0 else ar) = arNorm ar := by
  by_cases h : ar &&& arNull ≠ 0
  · rw [if_pos h, arNorm_of_null h]
    rfl
  · rw [if_neg h]

theorem arNorm_vmwrite (ar : BitVec 32) : arNorm (if ar = 0 then arNull else ar) = arNorm ar := by
  by_cases h : ar = 0
  · subst h
    rfl
  · rw [if_neg h]

theorem fields_vmreadSeg (m : VmcsSegment) (d : SegmentDesc) : (vmreadSeg m d).fields = m.norm := by
  simp only [SegmentDesc.fields, vmreadSeg, VmcsSegment.norm, arNorm_vmread]

theorem norm_vmwriteSeg (d : SegmentDesc) : (vmwriteSeg d).norm = d.fields := by
  simp only [SegmentDesc.fields, vmwriteSeg, VmcsSegment.norm, arNorm_vmwrite]

theorem fields_copyDesc (old new : SegmentDesc) : (copyDesc old new).2.fields = old.fields := by
  unfold copyDesc
  dsimp only
  split
  · rename_i null
    simp only [SegmentDesc.fields, VmcsSegment.norm, null]
    rfl
  · rfl

theorem vmwriteDesc_copyDesc (old new : SegmentDesc) :
    vmwriteDesc (copyDesc old new).2 = vmwriteDesc old := by
  unfold copyDesc
  dsimp only
  split <;> rfl

/-- A copy is reported exactly if the descriptors differ. -/
theorem copyDesc_fst {old new : SegmentDesc} : (copyDesc old new).1 = true ↔ new ≠ old := by
  simp [copyDesc]

/-! ## Control registers through the VMCS -/

/-- A bit that must be 1 may be 1. -/
theorem fixed_bit {f₀ f₁ : BitVec 64} (h : f₀ &&& ~~~f₁ = 0) {i : ℕ} (hi : i < 64)
    (set : f₀.getLsbD i = true) : f₁.getLsbD i = true := by
  have bit := congrArg (fun x => x.getLsbD i) h
  simp only [BitVec.getLsbD_and, BitVec.getLsbD_not, set, hi, BitVec.ofNat_eq_ofNat,
    BitVec.getLsbD_zero, decide_true, Bool.true_and, Bool.not_eq_false'] at bit
  exact bit

/-- A bit is free if it is neither fixed to 0 nor to 1. -/
theorem free_bit {f₀ f₁ : BitVec 64} (h : f₀ &&& ~~~f₁ = 0) {i : ℕ} (hi : i < 64)
    (free : (f₀ ^^^ f₁).getLsbD i = true) : f₀.getLsbD i = false ∧ f₁.getLsbD i = true := by
  rw [BitVec.getLsbD_xor] at free
  cases set : f₀.getLsbD i with
  | true => simp [set, fixed_bit h hi set] at free
  | false => simpa [set] using free

/-- The read shadows hold the registers themselves. -/
theorem crShadow_eq (cr : BitVec 64) :
    (cr &&& ~~~vmxCrMask) ||| (vmxCrShadow &&& vmxCrMask) = cr := by
  simp only [vmxCrMask, vmxCrShadow, BitVec.ofNat_eq_ofNat, BitVec.not_zero, BitVec.and_allOnes,
    BitVec.zero_and, BitVec.or_zero]

variable (info : VmxInfo)

theorem visibleCr0_vmwriteCr (v : Vcpu) : (vmwriteCr info v).vmcs.visibleCr0 = v.state.cr0 := by
  unfold Vmcs.visibleCr0
  apply masked_eq
  · intro i _ _
    exact congrArg (fun x => x.getLsbD i) (crShadow_eq v.state.cr0)
  · intro i hi clear
    -- outside the mask a bit is free, or it is CR0.PE of an unrestricted guest
    have free : i = 0 ∨ (info.cr0Fixed0 ^^^ info.cr0Fixed1).getLsbD i = true := by
      by_contra! fixed
      have pe : cr0PE.getLsbD i = false := by
        simp [cr0PE, fixed.1]
      have both := Bool.eq_false_iff.mpr fixed.2
      simp only [vmwriteCr] at clear
      split at clear <;>
        simp only [BitVec.getLsbD_or, BitVec.getLsbD_not, both, pe, hi, decide_true, Bool.or_false,
          Bool.not_false, Bool.and_true, Bool.or_true, Bool.true_eq_false] at clear
    simp only [vmwriteCr, BitVec.getLsbD_or, BitVec.getLsbD_and]
    rcases free with rfl | free
    · rw [info.cr0_pe]
      simp
    · obtain ⟨zero, one⟩ := free_bit info.cr0_fixed hi free
      simp [zero, one]

theorem visibleCr4_vmwriteCr (v : Vcpu) : (vmwriteCr info v).vmcs.visibleCr4 = v.state.cr4 := by
  unfold Vmcs.visibleCr4
  apply masked_eq
  · intro i _ _
    exact congrArg (fun x => x.getLsbD i) (crShadow_eq v.state.cr4)
  · intro i hi clear
    simp only [vmwriteCr, BitVec.getLsbD_or, Bool.or_eq_false_iff, BitVec.getLsbD_not, hi,
      decide_true, Bool.true_and, Bool.not_eq_false'] at clear
    have mce : cr4MCE.getLsbD i = false := clear.1.2
    obtain ⟨zero, one⟩ := free_bit info.cr4_fixed hi clear.1.1.1.1.2
    simp [vmwriteCr, zero, one, mce]

/-! ## What is kept in step -/

/-- The segment registers that every exit reads back. -/
def Segment.eager : Segment → Bool
  | .cs | .ds | .es => true
  | _ => false

/-- RIP, RFLAGS and the control registers of the VMCS, together with the pending
writes, are those of `vcpu->state`. -/
structure Vcpu.Pending (v : Vcpu) : Prop where
  debug : v.debugControlDirty = false
  rip : v.ripDirty = true ∨ v.vmcs.rip = v.state.rip
  rflags : v.rflagsDirty = true ∨ v.vmcs.rflags = v.state.rflags
  cr0 : v.vmcs.visibleCr0 = v.state.cr0
  cr3 : info.cr3LoadExiting = false → v.vmcs.cr3 = v.state.cr3
  cr4 : v.vmcs.visibleCr4 = v.state.cr4

/-- So are CS, DS and ES. -/
structure Vcpu.Synced (v : Vcpu) : Prop extends Vcpu.Pending info v where
  seg : ∀ i, i.eager = true → (v.vmcs.seg i).norm = (v.state.seg i).fields

/-- A virtual CPU that has panicked is never entered again. -/
def Vcpu.Ok (v : Vcpu) : Prop := v.panicked = true ∨ v.Synced info

variable {info} {v : Vcpu} {sec : VmcsSection} {body : Vcpu → Vcpu}

theorem Vcpu.Pending.loadVmcs (h : v.Pending info) (cpu : ℕ) : (v.loadVmcs cpu).Pending info :=
  { h with }

/-- A section leaves a panicked virtual CPU, or what its body leaves. -/
theorem withVmcs_cases (v : Vcpu) (sec : VmcsSection) (body : Vcpu → Vcpu) :
    (v.withVmcs sec body).panicked = true ∨
      v.withVmcs sec body = body (v.loadVmcs sec.cpu) := by
  unfold Vcpu.withVmcs
  cases sec.load <;> cases sec.put <;> simp

theorem Vcpu.Ok.withVmcs (h : (body (v.loadVmcs sec.cpu)).Synced info) :
    (v.withVmcs sec body).Ok info := by
  rcases withVmcs_cases v sec body with panicked | done
  · exact .inl panicked
  · exact .inr (done ▸ h)

/-- A panic is not forgotten. -/
theorem withVmcs_panicked (after : (body (v.loadVmcs sec.cpu)).panicked = true) :
    (v.withVmcs sec body).panicked = true := by
  rcases withVmcs_cases v sec body with panicked | done
  · exact panicked
  · rw [done]
    exact after

/-! ### Entry and exit -/

theorem loadDirtyVmcsFields_eq (h : v.debugControlDirty = false) :
    loadDirtyVmcsFields v = loadInterruptibility
      { v with vmcs := dirtyFields v, rflagsDirty := false, ripDirty := false,
               fsBaseDirty := false } := by
  simp [loadDirtyVmcsFields, loadDebugControl, h]

theorem Vcpu.Pending.loadDirtyVmcsFields (h : v.Pending info) :
    (loadDirtyVmcsFields v).Pending info := by
  rw [loadDirtyVmcsFields_eq h.debug]
  exact { h with rip := .inr (held_load h.rip), rflags := .inr (held_load h.rflags) }

theorem Vcpu.Pending.vmEntry (h : v.Pending info) (phys : DebugRegs) :
    (vmEntry phys v).1.Pending info := by
  unfold Haxm.vmEntry loadGuestDr
  split
  rename_i loaded
  split at loaded <;> cases loaded <;> exact Vcpu.Pending.loadDirtyVmcsFields { h with }

/-- The processor may have changed every guest field: what the copy needs is
read back, and the guest cannot have changed what it is not shown. -/
theorem Vcpu.Pending.vmExit (h : v.Pending info) (exit : VmExit) :
    (vmExit info exit v).Synced info where
  debug := h.debug
  rip := .inr rfl
  rflags := .inr rfl
  cr0 := congrArg (_ ||| ·) (and_mask_of_masked h.cr0)
  cr3 off := by
    change exit.guest.cr3 = if info.cr3LoadExiting then v.state.cr3 else exit.guest.cr3
    rw [off]
    rfl
  cr4 := congrArg (_ ||| ·) (and_mask_of_masked h.cr4)
  seg i eager := by
    cases i <;> first | exact (fields_vmreadSeg _ _).symm | cases eager

theorem cpuVmxRound_ok (h : v.Synced info) (phys : DebugRegs) (exit : VmExit) :
    (cpuVmxRound info sec phys exit v).Ok info := by
  unfold cpuVmxRound
  split
  · exact .inr h
  · exact .withVmcs (((h.toPending.loadVmcs _).vmEntry phys).vmExit exit)

/-! ### Reading back -/

theorem Vcpu.Pending.vmreadAllFields (h : v.Pending info) : (vmreadAllFields v).Synced info where
  debug := h.debug
  rip := h.rip.imp_right (·.trans (held_load h.rip).symm)
  rflags := h.rflags.imp_right (·.trans (held_load h.rflags).symm)
  cr0 := h.cr0
  cr3 := h.cr3
  cr4 := h.cr4
  seg i eager := by
    have other : i ≠ .fs := by rintro rfl; cases eager
    simp only [Haxm.vmreadAllFields, other, false_and, if_false, fields_vmreadSeg]

theorem vcpuVmreadAll_ok (h : v.Synced info) : (vcpuVmreadAll sec v).Ok info := by
  unfold vcpuVmreadAll
  split
  · exact .withVmcs (Vcpu.Pending.vmreadAllFields { h with })
  · exact .inr h

theorem refreshState_ok (h : v.Pending info) : (refreshState sec v).Ok info :=
  .withVmcs (Vcpu.Pending.vmreadAllFields { h with })

theorem cpuVmxFailedRound_ok (h : v.Pending info) (phys : DebugRegs) :
    (cpuVmxFailedRound sec phys v).panicked = true ∨
      (cpuVmxFailedRound sec phys v).Pending info := by
  unfold cpuVmxFailedRound
  split
  · exact .inr h
  · refine (withVmcs_cases v sec _).imp_right fun done => ?_
    rw [done]
    exact { (h.loadVmcs sec.cpu).vmEntry phys with }

/-! ### Exit handlers -/

theorem vmwriteCr_synced (debug : v.debugControlDirty = false)
    (rip : v.ripDirty = true ∨ v.vmcs.rip = v.state.rip)
    (rflags : v.rflagsDirty = true ∨ v.vmcs.rflags = v.state.rflags)
    (seg : ∀ i, i.eager = true → (v.vmcs.seg i).norm = (v.state.seg i).fields) :
    (vmwriteCr info v).Synced info where
  debug := debug
  rip := rip
  rflags := rflags
  cr0 := visibleCr0_vmwriteCr info v
  cr3 _ := rfl
  cr4 := visibleCr4_vmwriteCr info v
  seg := seg

section Writes

variable (h : v.Synced info)

include h

theorem exitCrWrite_ok (cr : GuestCr) (val : BitVec 64) (pdpt : Bool) :
    (exitCrWrite info sec cr val pdpt v).Ok info := by
  cases pdpt with
  | false => exact .inl rfl
  | true =>
    refine .withVmcs ?_
    cases cr <;> exact vmwriteCr_synced h.debug h.rip h.rflags h.seg

theorem writeFsBase_ok (val : BitVec 64) : (writeFsBase val v).Ok info := by
  refine .inr { h with seg := fun i eager => ?_ }
  have other : i ≠ .fs := by rintro rfl; cases eager
  simpa [writeFsBase, Function.update_of_ne other] using h.seg i eager

theorem writeGsBase_ok (val : BitVec 64) : (writeGsBase sec val v).Ok info := by
  refine .withVmcs { h with seg := fun i eager => ?_ }
  have other : i ≠ .gs := by rintro rfl; cases eager
  simpa [Vcpu.loadVmcs, Function.update_of_ne other] using h.seg i eager

/-- Debug registers have no part in the correspondence. -/
theorem exitDrAccess_ok (dreg : Fin 8) (toGpr : Bool) (gpr : Fin 16) (len : BitVec 64) :
    (exitDrAccess sec dreg toGpr gpr len v).Ok info := by
  unfold exitDrAccess writeDr
  dsimp only
  split
  · exact .withVmcs { h with }
  · repeat' split
    all_goals first | exact .inr h | exact .inr { h with rip := .inl rfl }

end Writes

/-! ## SET_REGS -/

variable {u : VcpuState} {rspDirty : Bool}

/-- What the body of `vcpu_set_regs` turns `v` into. -/
structure Applied (u : VcpuState) (rspDirty : Bool) (v w : Vcpu) : Prop where
  panicked : v.panicked = true → w.panicked = true
  regs : w.state.regs = v.state.regs
  rip : w.state.rip = u.rip
  rflags : w.state.rflags = u.rflags
  cr0 : w.state.cr0 = u.cr0
  cr2 : w.state.cr2 = u.cr2
  cr3 : w.state.cr3 = u.cr3
  cr4 : w.state.cr4 = u.cr4
  seg : ∀ i, w.state.seg i = (copyDesc (u.seg i) (v.state.seg i)).2
  table : ∀ t, w.state.table t = (copyDesc (u.table t) (v.state.table t)).2
  fsBase : w.fsBaseDirty = v.fsBaseDirty
  vmcsRsp : w.vmcs.rsp = if rspDirty then u.rsp else v.vmcs.rsp
  vmcsCr3 : w.vmcs.cr3 = if crChanged u v.state then u.cr3 else v.vmcs.cr3
  vmcsSeg : ∀ i, w.vmcs.seg i =
    if v.state.seg i ≠ u.seg i then vmwriteSeg (w.state.seg i) else v.vmcs.seg i
  vmcsTable : ∀ t, w.vmcs.table t =
    if v.state.table t ≠ u.table t then vmwriteDesc (w.state.table t) else v.vmcs.table t

variable (u) in
/-- The debug registers are apart from everything else. -/
theorem setDrs_eq (v : Vcpu) : ∃ dr dr6 dr7 dirty, setDrs u v =
    { v with state := { v.state with dr := dr, dr6 := dr6, dr7 := dr7 }, drDirty := dirty } := by
  unfold setDrs
  split
  · exact ⟨_, _, _, _, rfl⟩
  · exact ⟨_, _, _, _, rfl⟩

variable (info u) in
theorem applied_setRegs (rspDirty : Bool) (v : Vcpu) : Applied u rspDirty v
    (setSegments u (setDrs u (setCrs info u (setRip u rspDirty v)))) := by
  obtain ⟨dr, dr6, dr7, dirty, eq⟩ := setDrs_eq u (setCrs info u (setRip u rspDirty v))
  rw [eq]
  clear eq
  have same : crChanged u (setRip u rspDirty v).state = crChanged u v.state := rfl
  simp only [setCrs, same]
  cases changed : crChanged u v.state
  all_goals
    constructor
    case vmcsCr3 =>
      rw [changed]
      rfl
    case vmcsSeg =>
      intro i
      simp only [setSegments, copyDesc_fst]
      rfl
    case vmcsTable =>
      intro t
      simp only [setSegments, copyDesc_fst]
      rfl
    all_goals first | rfl | exact id | exact fun _ => rfl

theorem setRip_synced (h : v.Synced info) : (setRip u rspDirty v).Synced info :=
  { h with rip := held_set h.rip, rflags := held_set h.rflags }

theorem setCrs_synced (h : v.Synced info) : (setCrs info u v).Synced info := by
  unfold setCrs
  dsimp only
  split
  · exact vmwriteCr_synced h.debug h.rip h.rflags h.seg
  · rename_i same
    simp only [crChanged, Bool.or_eq_true, bne_iff_ne, ne_eq, not_or, not_not] at same
    obtain ⟨⟨⟨cr0, -⟩, cr3⟩, cr4⟩ := same
    exact { h with
      cr0 := h.cr0.trans cr0
      cr3 := fun off => (h.cr3 off).trans cr3
      cr4 := h.cr4.trans cr4 }

theorem setDrs_synced (h : v.Synced info) : (setDrs u v).Synced info := by
  obtain ⟨dr, dr6, dr7, dirty, eq⟩ := setDrs_eq u v
  rw [eq]
  exact { h with }

theorem setSegments_synced (h : v.Synced info) : (setSegments u v).Synced info := by
  refine { h with seg := fun i eager => ?_ }
  simp only [setSegments, copyDesc_fst, fields_copyDesc]
  split
  · rw [norm_vmwriteSeg, fields_copyDesc]
  · rename_i same
    rw [ne_eq, not_not] at same
    rw [h.seg i eager, same]

theorem setRegs_synced (h : v.Synced info) :
    (setSegments u (setDrs u (setCrs info u (setRip u rspDirty v)))).Synced info :=
  setSegments_synced (setDrs_synced (setCrs_synced (setRip_synced h)))

/-! ## Histories -/

theorem vcpuCreate_synced (cpu : ℕ) : (vcpuCreate info cpu).Synced info :=
  vmwriteCr_synced rfl (.inr rfl) (.inr rfl) fun _ _ => norm_vmwriteSeg _

theorem vcpuStep_panicked (info : VmxInfo) (panicked : v.panicked = true) (step : VcpuStep) :
    (vcpuStep info v step).panicked = true := by
  cases step with
  | round sec phys exit => simp only [vcpuStep, cpuVmxRound, panicked, if_true]
  | failedRound sec₁ sec₂ phys =>
    simp only [vcpuStep, cpuVmxFailedRound, panicked, if_true]
    exact withVmcs_panicked panicked
  | refresh sec => exact withVmcs_panicked panicked
  | crWrite sec cr val pdpt =>
    cases pdpt with
    | false => rfl
    | true => exact withVmcs_panicked (by cases cr <;> exact panicked)
  | drAccess sec dreg toGpr gpr len =>
    unfold vcpuStep exitDrAccess
    dsimp only
    split
    · exact withVmcs_panicked panicked
    · repeat' split
      all_goals exact panicked
  | gsBase sec val => exact withVmcs_panicked panicked
  | vmread sec => exact withVmcs_panicked panicked
  | getRegs sec =>
    change (vcpuVmreadAll sec v).panicked = true
    unfold vcpuVmreadAll
    split
    · exact withVmcs_panicked panicked
    · exact panicked
  | setRegs sec u => exact withVmcs_panicked ((applied_setRegs info u _ _).panicked panicked)
  | _ => exact panicked

theorem vcpuStep_ok (h : v.Ok info) {step : VcpuStep} (noDebug : step.NoDebug) :
    (vcpuStep info v step).Ok info := by
  rcases h with panicked | h
  · exact .inl (vcpuStep_panicked info panicked step)
  cases step with
  | round sec phys exit => exact cpuVmxRound_ok h phys exit
  | failedRound sec₁ sec₂ phys =>
    rcases cpuVmxFailedRound_ok h.toPending phys with panicked | pending
    · exact .inl (withVmcs_panicked panicked)
    · exact refreshState_ok pending
  | refresh sec => exact refreshState_ok h.toPending
  | advanceRip len => exact .inr { h with rip := .inl rfl }
  | writeGpr i val => exact .inr { h with }
  | writeRflags val => exact .inr { h with rflags := .inl rfl }
  | crWrite sec cr val pdpt => exact exitCrWrite_ok h cr val pdpt
  | drAccess sec dreg toGpr gpr len => exact exitDrAccess_ok h dreg toGpr gpr len
  | fsBase val => exact writeFsBase_ok h val
  | gsBase sec val => exact writeGsBase_ok h val
  | vmread sec => exact .withVmcs { h with }
  | getRegs sec => exact vcpuVmreadAll_ok h
  | setRegs sec u => exact .withVmcs (setRegs_synced { h with })
  | debug control dr => exact noDebug.elim

theorem VcpuReached.ok {cpu : ℕ} (h : VcpuReached info cpu v) : v.Ok info :=
  h.invariant (.inr (vcpuCreate_synced cpu)) fun _ _ ok noDebug => vcpuStep_ok ok noDebug

/-! ## The registers that lag behind -/

/-- Every register that can lag behind differs from the copy, so that it is
written, or the VMCS, with its pending writes, has the requested value already.
CR3 is among them on a host where it is never read back. -/
structure WrittenOrHeld (info : VmxInfo) (u : VcpuState) (v : Vcpu) : Prop where
  rsp : v.state.rsp ≠ u.rsp ∨ v.vmcs.rsp = u.rsp
  cr3 : info.cr3LoadExiting = true → crChanged u v.state = true ∨ v.vmcs.cr3 = u.cr3
  seg : ∀ i, i.eager = false →
    v.state.seg i ≠ u.seg i ∨ ((dirtyFields v).seg i).norm = (u.seg i).fields
  table : ∀ t, v.state.table t ≠ u.table t ∨ v.vmcs.table t = vmwriteDesc (u.table t)

theorem Vcpu.Synced.entryRegisters_eq (h : v.Synced info) : v.entryRegisters =
    { gpr := fun i => if i = regRsp then v.vmcs.rsp else v.state.regs i
      rip := v.state.rip
      rflags := v.state.rflags
      cr0 := v.state.cr0
      cr2 := v.state.cr2
      cr3 := v.vmcs.cr3
      cr4 := v.state.cr4
      seg := fun i => ((dirtyFields v).seg i).norm
      table := v.vmcs.table } := by
  unfold Vcpu.entryRegisters Vcpu.loads
  rw [loadDirtyVmcsFields_eq h.debug]
  exact Registers.ext rfl (held_load h.rip) (held_load h.rflags) h.cr0 rfl rfl h.cr4 rfl rfl

section Applied

variable {w : Vcpu} (applied : Applied u rspDirty v w)

include applied

theorem Applied.registers (regs : v.state.regs = u.regs) : w.state.registers = u.registers := by
  apply Registers.ext
  · exact applied.regs.trans regs
  · exact applied.rip
  · exact applied.rflags
  · exact applied.cr0
  · exact applied.cr2
  · exact applied.cr3
  · exact applied.cr4
  · funext i
    exact (congrArg _ (applied.seg i)).trans (fields_copyDesc _ _)
  · funext t
    exact (congrArg _ (applied.table t)).trans (vmwriteDesc_copyDesc _ _)

/-- A segment register that was written is the requested one. -/
theorem Applied.seg_written {i : Segment} (differs : v.state.seg i ≠ u.seg i) :
    ((dirtyFields w).seg i).norm = (u.seg i).fields := by
  have written : w.vmcs.seg i = vmwriteSeg (w.state.seg i) := by
    rw [applied.vmcsSeg, if_pos differs]
  have same : (dirtyFields w).seg i = vmwriteSeg (w.state.seg i) := by
    simp only [dirtyFields, written]
    split <;> rfl
  rw [same, norm_vmwriteSeg, applied.seg, fields_copyDesc]

/-- One that was not is what the VMCS and the pending base make of it. -/
theorem Applied.seg_kept {i : Segment} (same : v.state.seg i = u.seg i) :
    (dirtyFields w).seg i = (dirtyFields v).seg i := by
  have base : (w.state.seg i).base = (v.state.seg i).base := by
    rw [applied.seg, same]
    unfold copyDesc
    dsimp only
    split <;> rfl
  have kept : w.vmcs.seg i = v.vmcs.seg i := by
    rw [applied.vmcsSeg, if_neg (by simp [same])]
  simp only [dirtyFields, kept, base, applied.fsBase]

theorem Applied.seg_iff (h : w.Synced info) :
    (∀ i, ((dirtyFields w).seg i).norm = (u.seg i).fields) ↔ ∀ i, i.eager = false →
      v.state.seg i ≠ u.seg i ∨ ((dirtyFields v).seg i).norm = (u.seg i).fields := by
  refine forall_congr' fun i => ?_
  cases eager : i.eager with
  | true =>
    have other : i ≠ .fs := by rintro rfl; cases eager
    have held : (dirtyFields w).seg i = w.vmcs.seg i := if_neg (by simp [other])
    rw [held, h.seg i eager, applied.seg, fields_copyDesc]
    simp
  | false =>
    simp only [forall_const]
    by_cases same : v.state.seg i = u.seg i
    · rw [applied.seg_kept same]
      simp [same]
    · simp [same, applied.seg_written same]

theorem Applied.table_iff : w.vmcs.table = (fun t => vmwriteDesc (u.table t)) ↔
    ∀ t, v.state.table t ≠ u.table t ∨ v.vmcs.table t = vmwriteDesc (u.table t) := by
  rw [funext_iff]
  refine forall_congr' fun t => ?_
  rw [applied.vmcsTable, applied.table, vmwriteDesc_copyDesc, ite_eq_left_iff,
    ← or_iff_not_imp_left]

theorem Applied.cr3_iff (h : w.Synced info) : w.vmcs.cr3 = u.cr3 ↔
    (info.cr3LoadExiting = true → crChanged u v.state = true ∨ v.vmcs.cr3 = u.cr3) := by
  cases exiting : info.cr3LoadExiting with
  | true => simp only [forall_const, applied.vmcsCr3, ite_eq_left_iff, or_iff_not_imp_left]
  | false => simp [h.cr3 exiting, applied.cr3]

theorem Applied.entryRegisters_iff (h : w.Synced info) (regs : v.state.regs = u.regs) :
    w.entryRegisters = u.registers ↔
      (rspDirty = true ∨ v.vmcs.rsp = u.rsp) ∧
      (info.cr3LoadExiting = true → crChanged u v.state = true ∨ v.vmcs.cr3 = u.cr3) ∧
      (∀ i, i.eager = false →
        v.state.seg i ≠ u.seg i ∨ ((dirtyFields v).seg i).norm = (u.seg i).fields) ∧
      ∀ t, v.state.table t ≠ u.table t ∨ v.vmcs.table t = vmwriteDesc (u.table t) := by
  have gpr : (fun i => if i = regRsp then w.vmcs.rsp else w.state.regs i) = u.regs ↔
      rspDirty = true ∨ v.vmcs.rsp = u.rsp := by
    rw [applied.regs, regs, applied.vmcsRsp, or_iff_not_imp_left, ← ite_eq_left_iff]
    constructor
    · intro eq
      exact (if_pos rfl).symm.trans (congrFun eq regRsp)
    · intro eq
      funext i
      split
      · rename_i isRsp
        rw [eq, isRsp]
        rfl
      · rfl
  rw [← gpr, ← applied.cr3_iff h, ← applied.seg_iff h, ← applied.table_iff, h.entryRegisters_eq,
    Registers.ext_iff, ← funext_iff]
  simp only [VcpuState.registers, applied.rip, applied.rflags, applied.cr0, applied.cr2,
    applied.cr4, true_and]

/-- What is read back is what an entry would use, or it is in the copy. -/
theorem Applied.vmreadAllFields (h : w.Synced info) (regs : v.state.regs = u.regs)
    (entry : w.entryRegisters = u.registers) :
    (vmreadAllFields w).state.registers = u.registers := by
  have state := applied.registers regs
  rw [h.entryRegisters_eq] at entry
  apply Registers.ext
  · refine Eq.trans ?_ (congrArg Registers.gpr entry)
    funext i
    by_cases isRsp : i = regRsp
    · subst isRsp
      simp [VcpuState.registers, Haxm.vmreadAllFields]
    · simp [VcpuState.registers, Haxm.vmreadAllFields, isRsp]
  · exact (held_load h.rip).trans applied.rip
  · exact (held_load h.rflags).trans applied.rflags
  · exact applied.cr0
  · exact applied.cr2
  · exact applied.cr3
  · exact applied.cr4
  · funext i
    have read := congrFun (congrArg Registers.seg entry) i
    have copy := congrFun (congrArg Registers.seg state) i
    simp only [VcpuState.registers, Haxm.vmreadAllFields, dirtyFields] at read copy ⊢
    split
    · exact copy
    · rename_i clean
      rw [if_neg clean] at read
      rw [fields_vmreadSeg, read]
  · have read := congrArg Registers.table entry
    exact read

end Applied

/-- The copy for user space shows the same registers. -/
theorem vcpuGetRegs_registers (v : Vcpu) :
    (vcpuGetRegs sec v).1.registers = (vcpuVmreadAll sec v).state.registers := by
  apply Registers.ext <;> first | rfl | funext i
  · exact fields_copyDesc _ {}
  · exact vmwriteDesc_copyDesc _ {}

theorem vcpuVmreadAll_state (sec : VmcsSection) (v : Vcpu) :
    (vcpuVmreadAll sec v).state = v.state ∨
      (vcpuVmreadAll sec v).state = (vmreadAllFields v).state := by
  unfold vcpuVmreadAll
  split
  · unfold Vcpu.withVmcs
    cases sec.load with
    | false => exact .inl rfl
    | true => cases sec.put <;> exact .inr rfl
  · exact .inl rfl

/-- SET_REGS on a reached virtual CPU takes effect if and only if every register
that can lag behind is written or held. -/
theorem vcpuSetRegs_takesEffect_iff {info : VmxInfo} {cpu : ℕ} {v : Vcpu}
    (reached : VcpuReached info cpu v) (running : v.panicked = false) (sec : VmcsSection)
    (loaded : sec.load = true) (u : VcpuState) :
    TakesEffect info sec u v ↔ WrittenOrHeld info u v := by
  have synced := reached.ok.resolve_left (by simp [running])
  have copied : ((setGprs u v).loadVmcs sec.cpu).Synced info := { synced with }
  -- a failure of `put_vmcs` comes after all the writes
  have result : ∃ w, (vcpuSetRegs info sec u v).2 = w ∧ w.Synced info ∧
      Applied u (v.state.rsp != u.rsp) ((setGprs u v).loadVmcs sec.cpu) w := by
    have applied := applied_setRegs info u (v.state.rsp != u.rsp) ((setGprs u v).loadVmcs sec.cpu)
    have after : Vcpu.Synced info (setSegments u (setDrs u (setCrs info u
        (setRip u (v.state.rsp != u.rsp) ((setGprs u v).loadVmcs sec.cpu))))) :=
      setRegs_synced copied
    refine ⟨_, rfl, ?_⟩
    simp only [vcpuSetRegs, Vcpu.withVmcs, loaded, if_true]
    cases sec.put with
    | true => exact ⟨after, applied⟩
    | false => exact ⟨{ after with }, { applied with panicked := fun _ => rfl }⟩
  obtain ⟨w, eq, after, applied⟩ := result
  have iff := applied.entryRegisters_iff after rfl
  have held : TakesEffect info sec u v ↔ w.entryRegisters = u.registers := by
    unfold TakesEffect
    rw [eq]
    refine ⟨And.left, fun entry => ⟨entry, fun sec' => ?_⟩⟩
    rw [vcpuGetRegs_registers]
    rcases vcpuVmreadAll_state sec' w with copy | read
    · rw [copy, applied.registers rfl]
    · rw [read, applied.vmreadAllFields after rfl entry]
  rw [held, iff, bne_iff_ne]
  exact ⟨fun ⟨rsp, cr3, seg, table⟩ => ⟨rsp, cr3, seg, table⟩,
    fun h => ⟨h.rsp, h.cr3, h.seg, h.table⟩⟩

/-- A round in which the guest sets its GS base to `0x1000`. -/
def gsRound : VcpuStep :=
  let m := (vcpuCreate plainInfo 0).vmcs
  .round {} { dr := fun _ => 0, dr6 := dr6Setbits, dr7 := dr7Setbits }
    { regs := fun _ => 0
      cr2 := 0
      dr6 := dr6Setbits
      guest := { m.toVmcsGuest with
        seg := Function.update m.seg .gs { m.seg .gs with base := 0x1000 } } }

def movedGs : Vcpu := vcpuStep plainInfo (vcpuCreate plainInfo 0) gsRound

theorem movedGs_reached : VcpuReached plainInfo 0 movedGs :=
  VcpuReached.step .init gsRound trivial

/-- The state of a new virtual CPU with another GS base. -/
def withGsBase (base : BitVec 64) : VcpuState :=
  { vcpuInitState with
    seg := Function.update vcpuInitState.seg .gs { vcpuInitState.seg .gs with base } }

theorem movedGs_takesEffect : VcpuReached plainInfo 0 movedGs ∧ movedGs.panicked = false ∧
    TakesEffect plainInfo {} (withGsBase 0x2000) movedGs := by
  refine ⟨movedGs_reached, rfl, (vcpuSetRegs_takesEffect_iff movedGs_reached rfl {} rfl _).mpr ?_⟩
  refine ⟨.inr rfl, nofun, fun i _ => ?_, fun t => .inr (by cases t <;> decide)⟩
  cases i
  case gs => exact .inl (by decide)
  all_goals exact .inr (by decide)

/-- The requested GS base is the one of the copy, and the guest keeps its own. -/
theorem movedGs_not_takesEffect : VcpuReached plainInfo 0 movedGs ∧ movedGs.panicked = false ∧
    ¬ TakesEffect plainInfo {} (withGsBase 0) movedGs := by
  refine ⟨movedGs_reached, rfl, fun effect => ?_⟩
  have base := congrArg (fun r => (r.seg .gs).base) effect.1
  exact absurd base (by decide)

/-- The corrected bits are those of the type. -/
theorem correctAr_null (i : Segment) (ar : BitVec 32) :
    correctAr i ar &&& arNull = ar &&& arNull ∧ (ar ≠ 0 → correctAr i ar ≠ 0) := by
  have set (m b : BitVec 32) (hm : m &&& arNull = arNull) (hb : b &&& arNull = 0 ∧ b ≠ 0) :
      (ar &&& m ||| b) &&& arNull = ar &&& arNull ∧ (ar ≠ 0 → ar &&& m ||| b ≠ 0) := by
    rw [BitVec.and_or_distrib_right, hb.1, BitVec.and_assoc, hm]
    exact ⟨BitVec.or_zero, fun _ zero => hb.2 (BitVec.or_eq_zero_iff.mp zero).2⟩
  unfold correctAr
  split
  · split
    · rename_i kind
      have low : ar &&& 1 = 0 := by
        calc ar &&& 1 = ar &&& 0xf &&& 1 := by rw [BitVec.and_assoc]; rfl
          _ = 0 := by rw [kind]; rfl
      rw [BitVec.add_eq_or_of_and_eq_zero _ _ low]
      simpa only [BitVec.and_allOnes] using set (.allOnes 32) 1 (by decide) (by decide)
    · exact ⟨rfl, id⟩
  · exact set _ _ (by decide) (by decide)
  · exact ⟨rfl, id⟩

/-- A usable descriptor stays usable, and a null one other than TR is left alone. -/
theorem arNorm_correctAr {i : Segment} {ar : BitVec 32} (task : i = .tr → arNorm ar ≠ arNull) :
    arNorm (correctAr i ar) = correctAr i (arNorm ar) := by
  obtain ⟨bit, zero⟩ := correctAr_null i ar
  by_cases null : ar = 0 ∨ ar &&& arNull ≠ 0
  · have norm : arNorm ar = arNull := if_pos null
    rw [norm]
    cases i
    case tr => exact absurd norm (task rfl)
    case cs =>
      rcases null with rfl | null
      · rfl
      · exact arNorm_of_null (bit ▸ null)
    all_goals exact norm
  · have kept : ¬ (correctAr i ar = 0 ∨ correctAr i ar &&& arNull ≠ 0) := by
      rw [bit]
      exact not_or.mpr ⟨zero (not_or.mp null).1, (not_or.mp null).2⟩
    rw [arNorm, if_neg kept, arNorm, if_neg null]

/-- An entry loads what `v` has ready, with CS and TR corrected. -/
theorem Vcpu.Synced.vmEntry_loads (h : v.Synced info) (phys : DebugRegs) (cpu : ℕ)
    (task : (v.entryRegisters.seg .tr).ar ≠ arNull) :
    (vmEntry phys (v.loadVmcs cpu)).1.loads = v.entryRegisters.corrected := by
  rw [Vcpu.entryRegisters, loadDirtyVmcsFields_eq h.debug] at task ⊢
  have seg (i : Segment) : VmcsSegment.norm ((dirtyFields (correctSegments v)).seg i) =
      { ((dirtyFields v).seg i).norm with
        ar := correctAr i ((dirtyFields v).seg i).norm.ar } := by
    have ar : ((dirtyFields v).seg i).ar = (v.vmcs.seg i).ar := by
      unfold dirtyFields
      dsimp only
      split <;> rfl
    have norm : arNorm (correctAr i (v.vmcs.seg i).ar) = correctAr i (arNorm (v.vmcs.seg i).ar) :=
      ar ▸ arNorm_correctAr fun isTr => isTr ▸ task
    simp only [VmcsSegment.norm, ar, ← norm]
    unfold dirtyFields correctSegments
    dsimp only
    split <;> rfl
  unfold vmEntry loadGuestDr
  split_ifs
  all_goals
    dsimp only
    rw [loadDirtyVmcsFields_eq (by exact h.debug)]
    exact Registers.ext rfl rfl rfl rfl rfl rfl rfl (funext seg) rfl

end Haxm
