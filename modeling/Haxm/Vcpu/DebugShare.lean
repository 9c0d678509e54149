/-
# Whose debug registers are in force

Many virtual CPUs run on the same processors and share their debug registers.
`load_guest_dr` reloads them only if the virtual CPU has a pending change or if
its last two VMCS sections were on different processors. Neither says that the
registers of the processor are still those of the virtual CPU: another one may
have run in between, and any section on another processor, not only a run,
counts as the last.

The host's own breakpoints are disabled throughout. A virtual CPU that has
panicked is never entered again and has no say.
-/

import Haxm.Vcpu.DebugLoad

namespace Haxm

open Lib

/-! ## The machine -/

/-- The processors, and the virtual CPUs of all guests. -/
structure DrMachine (ι : Type*) where
  phys : ℕ → DebugRegs
  vcpu : ι → Vcpu

/-- A step runs with the debug registers of the processor it is on. -/
def VcpuStep.on (phys : ℕ → DebugRegs) : VcpuStep → VcpuStep
  | .round sec _ exit => .round sec (phys sec.cpu) exit
  | .failedRound sec₁ sec₂ _ => .failedRound sec₁ sec₂ (phys sec₁.cpu)
  | step => step

/-- The debug registers of the processors after a step of `v`. The guest cannot
change DR0 to DR3 without an exit, and an exit resets DR7. -/
def physAfter (phys : ℕ → DebugRegs) (v : Vcpu) : VcpuStep → ℕ → DebugRegs
  | .round sec _ exit =>
    if v.panicked = false ∧ sec.load = true then
      Function.update phys sec.cpu
        { dr := (vmEntry (phys sec.cpu) (v.loadVmcs sec.cpu)).2.dr, dr6 := exit.dr6,
          dr7 := dr7Setbits }
    else phys
  | .failedRound sec _ _ =>
    if v.panicked = false ∧ sec.load = true then
      Function.update phys sec.cpu (vmEntry (phys sec.cpu) (v.loadVmcs sec.cpu)).2
    else phys
  | _ => phys

def drMachineStep {ι : Type*} [DecidableEq ι] (info : VmxInfo) (s : DrMachine ι)
    (a : ι × VcpuStep) : DrMachine ι where
  phys := physAfter s.phys (s.vcpu a.1) a.2
  vcpu := Function.update s.vcpu a.1 (vcpuStep info (s.vcpu a.1) (a.2.on s.phys))

/-! ## What an entry finds -/

/-- What the debug registers of a virtual CPU depend on. -/
@[ext]
structure DrView where
  panicked : Bool
  cpuId : ℕ
  dr : Fin 4 → BitVec 64
  dr6 : BitVec 64
  dr7 : BitVec 64
  vmcsDr7 : BitVec 64
  dirty : Bool

def Vcpu.drView (v : Vcpu) : DrView where
  panicked := v.panicked
  cpuId := v.cpuId
  dr := v.state.dr
  dr6 := v.state.dr6
  dr7 := v.state.dr7
  vmcsDr7 := v.vmcs.dr7
  dirty := v.drDirty

/-- The processor and the VMCS have the registers of the virtual CPU. -/
structure DrView.HeldBy (x : DrView) (p : DebugRegs) : Prop where
  dr : p.dr = x.dr
  dr6 : p.dr6 = x.dr6
  dr7 : x.vmcsDr7 = x.dr7

/-- An entry of `v` on processor `cpu` has the registers of `v` in force. -/
def EntryMatches (phys : ℕ → DebugRegs) (cpu : ℕ) (v : Vcpu) : Prop :=
  (vmEntry (phys cpu) (v.loadVmcs cpu)).1.drView.HeldBy (vmEntry (phys cpu) (v.loadVmcs cpu)).2

/-- Whichever virtual CPU is entered next, on whichever processor, it has its own
registers. -/
def DrMachine.Safe {ι : Type*} (s : DrMachine ι) : Prop :=
  ∀ i, (s.vcpu i).panicked = false → ∀ cpu, EntryMatches s.phys cpu (s.vcpu i)

variable {phys : ℕ → DebugRegs} {v : Vcpu} {info : VmxInfo} {sec : VmcsSection}

theorem loadDirtyVmcsFields_drView (v : Vcpu) : (loadDirtyVmcsFields v).drView = v.drView := by
  unfold loadDirtyVmcsFields loadDebugControl
  dsimp only
  split <;> rfl

/-- The host has no breakpoints of its own. -/
def HostOff (phys : ℕ → DebugRegs) : Prop := ∀ cpu, isHostDebugEnabled (phys cpu).dr7 = false

/-- An entry reloads, or it takes the registers of the processor as they are. -/
theorem vmEntry_cases (off : HostOff phys) (cpu : ℕ) (v : Vcpu) :
    ((v.drDirty = true ∨ v.cpuId ≠ cpu) ∧
      (vmEntry (phys cpu) (v.loadVmcs cpu)).1.drView =
        { v.drView with cpuId := cpu, vmcsDr7 := v.state.dr7, dirty := false } ∧
      (vmEntry (phys cpu) (v.loadVmcs cpu)).2 = ⟨v.state.dr, v.state.dr6, 0⟩) ∨
    ((v.drDirty = false ∧ v.cpuId = cpu) ∧
      (vmEntry (phys cpu) (v.loadVmcs cpu)).1.drView = v.drView ∧
      (vmEntry (phys cpu) (v.loadVmcs cpu)).2 = phys cpu) := by
  have reload : (isGuestDrDirty (correctSegments (v.loadVmcs cpu)) ||
      isHostDebugEnabled (phys cpu).dr7) = (v.drDirty || cpu != v.cpuId) := by
    rw [off cpu, Bool.or_false]
    rfl
  unfold vmEntry loadGuestDr
  rw [reload]
  by_cases load : v.drDirty = true ∨ v.cpuId ≠ cpu
  · left
    rw [if_pos (by simpa [ne_comm (a := cpu)] using load)]
    exact ⟨load, loadDirtyVmcsFields_drView _, rfl⟩
  · right
    rw [not_or, Bool.not_eq_true, not_not] at load
    obtain ⟨clean, rfl⟩ := load
    rw [clean, Bool.false_or, bne_self_eq_false, if_neg (by decide)]
    exact ⟨⟨rfl, rfl⟩, loadDirtyVmcsFields_drView _, rfl⟩

/-- A change is pending, or the processor of the last section has the registers. -/
def DrView.Current (phys : ℕ → DebugRegs) (x : DrView) : Prop :=
  x.dirty = true ∨ x.HeldBy (phys x.cpuId)

theorem entryMatches_iff (off : HostOff phys) (cpu : ℕ) (v : Vcpu) :
    EntryMatches phys cpu v ↔
      v.drDirty = true ∨ v.cpuId ≠ cpu ∨ v.drView.HeldBy (phys cpu) := by
  unfold EntryMatches
  rcases vmEntry_cases off cpu v with ⟨why, view, regs⟩ | ⟨⟨clean, here⟩, view, regs⟩
  · rw [view, regs]
    exact iff_of_true ⟨rfl, rfl, rfl⟩ (why.imp_right .inl)
  · rw [view, regs]
    simp [clean, here]

theorem forall_entryMatches_iff (off : HostOff phys) (v : Vcpu) :
    (∀ cpu, EntryMatches phys cpu v) ↔ v.drView.Current phys := by
  simp only [entryMatches_iff off]
  constructor
  · intro matches'
    exact (matches' v.cpuId).imp_right fun h => h.resolve_left fun moved => moved rfl
  · rintro (dirty | held) cpu
    · exact .inl dirty
    · by_cases here : v.cpuId = cpu
      · subst here
        exact .inr (.inr held)
      · exact .inr (.inl here)

theorem DrMachine.safe_iff {ι : Type*} {s : DrMachine ι} (off : HostOff s.phys) :
    s.Safe ↔ ∀ i, (s.vcpu i).panicked = false → (s.vcpu i).drView.Current s.phys :=
  forall_congr' fun _ => imp_congr_right fun _ => forall_entryMatches_iff off _

/-! ## What a step needs -/

def VmcsSection.Ok (sec : VmcsSection) : Prop := sec.load = true ∧ sec.put = true

/-- A section on another processor than the last needs a pending change, or finds
the registers there. -/
def SectionKeeps (phys : ℕ → DebugRegs) (v : Vcpu) (sec : VmcsSection) : Prop :=
  sec.Ok → v.cpuId = sec.cpu ∨ v.drDirty = true ∨ v.drView.HeldBy (phys sec.cpu)

/-- SET_REGS changes some debug register. -/
def DrChanged (u s : VcpuState) : Prop :=
  s.dr ≠ u.dr ∨ s.dr6 ≠ fixDr6 u.dr6 ∨ s.dr7 ≠ fixDr7 u.dr7

/-- What a step of `v` needs so that the registers of `v` stay in force. -/
def OwnKept (phys : ℕ → DebugRegs) (v : Vcpu) : VcpuStep → Prop
  -- the processor saves the DR7 that it was entered with
  | .round sec _ exit => sec.Ok → exit.guest.dr7 = v.state.dr7
  -- the registers are read back on the processor of the failed entry, or on one that has them
  | .failedRound sec₁ sec₂ _ => sec₁.Ok → sec₂.Ok → sec₂.cpu = sec₁.cpu ∨
      (phys sec₂.cpu).dr = v.state.dr ∧ (phys sec₂.cpu).dr6 = v.state.dr6
  | .refresh sec | .gsBase sec _ | .vmread sec => SectionKeeps phys v sec
  | .crWrite sec _ _ pdpt => pdpt = true → SectionKeeps phys v sec
  | .getRegs sec => v.curState = .stale → SectionKeeps phys v sec
  -- general detection changes DR6 without a pending change
  | .drAccess sec _ _ _ _ => v.state.dr7 &&& dr7GD ≠ 0 → sec.Ok → v.drDirty = true ∨
      (phys sec.cpu).dr = v.state.dr ∧ (phys sec.cpu).dr6 = v.state.dr6 ||| dr6BD
  -- SET_REGS without a change drops one that is pending
  | .setRegs sec u =>
    if v.debugControl &&& haxDebugEnable ≠ 0 then SectionKeeps phys v sec
    else sec.Ok → DrChanged u v.state ∨ v.drView.HeldBy (phys sec.cpu)
  | _ => True

/-- What a step of `v` needs so that the registers of another virtual CPU `w` stay
in force: a change of `w` is pending, its last section was on another processor,
or it has the same registers. -/
def OtherKept (v w : Vcpu) : VcpuStep → Prop
  | .round sec _ exit => sec.load = true → w.drDirty = true ∨ w.cpuId ≠ sec.cpu ∨
      w.state.dr = v.state.dr ∧ w.state.dr6 = exit.dr6
  | .failedRound sec _ _ => sec.load = true → w.drDirty = true ∨ w.cpuId ≠ sec.cpu ∨
      w.state.dr = v.state.dr ∧ w.state.dr6 = v.state.dr6
  | _ => True

/-- A step that keeps every virtual CPU's registers in force. -/
def DrKept {ι : Type*} (s : DrMachine ι) (a : ι × VcpuStep) : Prop :=
  (s.vcpu a.1).panicked = false → OwnKept s.phys (s.vcpu a.1) a.2 ∧
    ∀ j ≠ a.1, (s.vcpu j).panicked = false → OtherKept (s.vcpu a.1) (s.vcpu j) a.2

/-! ## The steps -/

theorem withVmcs_of_ok (ok : sec.Ok) (v : Vcpu) (body : Vcpu → Vcpu) :
    v.withVmcs sec body = body (v.loadVmcs sec.cpu) := by
  simp [Vcpu.withVmcs, ok.1, ok.2]

theorem withVmcs_of_not_ok (fails : ¬ sec.Ok) (v : Vcpu) (body : Vcpu → Vcpu) :
    (v.withVmcs sec body).panicked = true := by
  unfold VmcsSection.Ok at fails
  unfold Vcpu.withVmcs
  cases load : sec.load <;> cases put : sec.put <;> simp [load, put] at fails ⊢

/-- The registers of a virtual CPU that can still be entered are in force. -/
def DrView.InForce (phys : ℕ → DebugRegs) (x : DrView) : Prop :=
  x.panicked = false → x.Current phys

theorem DrView.inForce_of_panicked {x : DrView} (panicked : x.panicked = true) :
    x.InForce phys := fun running => absurd (panicked.symm.trans running) (by decide)

/-- A section whose result, if it succeeds, is `x`. -/
theorem withVmcs_inForce_iff {body : Vcpu → Vcpu} {x : DrView} {P : Prop}
    (view : (body (v.loadVmcs sec.cpu)).drView = x) (running : x.panicked = false)
    (iff : sec.Ok → (x.Current phys ↔ P)) :
    (v.withVmcs sec body).drView.InForce phys ↔ (sec.Ok → P) := by
  by_cases ok : sec.Ok
  · rw [withVmcs_of_ok ok, view]
    simp only [DrView.InForce, running, true_implies, ok]
    exact iff ok
  · exact iff_of_true (DrView.inForce_of_panicked (withVmcs_of_not_ok ok v body))
      fun h => absurd h ok

/-- A section that leaves the debug registers alone. -/
theorem section_inForce_iff {body : Vcpu → Vcpu}
    (view : (body (v.loadVmcs sec.cpu)).drView = { v.drView with cpuId := sec.cpu })
    (running : v.panicked = false) (current : v.drView.Current phys) :
    (v.withVmcs sec body).drView.InForce phys ↔ SectionKeeps phys v sec := by
  refine withVmcs_inForce_iff view running fun _ => ?_
  constructor
  · exact fun h => .inr (h.imp_right fun held => { held with })
  · rintro (here | dirty | held)
    · exact here ▸ current
    · exact .inl dirty
    · exact .inr { held with }

/-- After an entry the processor has the registers of the virtual CPU. -/
theorem entered (off : HostOff phys) (current : v.drView.Current phys) (cpu : ℕ) :
    (vmEntry (phys cpu) (v.loadVmcs cpu)).1.drView =
        { v.drView with cpuId := cpu, vmcsDr7 := v.state.dr7, dirty := false } ∧
      (vmEntry (phys cpu) (v.loadVmcs cpu)).2.dr = v.state.dr ∧
      (vmEntry (phys cpu) (v.loadVmcs cpu)).2.dr6 = v.state.dr6 := by
  rcases vmEntry_cases off cpu v with ⟨-, view, regs⟩ | ⟨⟨clean, rfl⟩, view, regs⟩
  · rw [regs]
    exact ⟨view, rfl, rfl⟩
  · have held : v.drView.HeldBy (phys v.cpuId) :=
      current.resolve_left fun dirty => absurd (clean.symm.trans dirty) (by decide)
    rw [view, regs]
    refine ⟨?_, held.dr, held.dr6⟩
    ext1 <;> first | rfl | exact held.dr7 | exact clean

instance (u s : VcpuState) : Decidable (DrChanged u s) :=
  inferInstanceAs (Decidable (_ ∨ _ ∨ _))

theorem setDrs_drView (u : VcpuState) (v : Vcpu) : (setDrs u v).drView =
    if v.debugControl &&& haxDebugEnable ≠ 0 then v.drView
    else { v.drView with dr := u.dr, dr6 := fixDr6 u.dr6, dr7 := fixDr7 u.dr7,
                         dirty := decide (DrChanged u v.state) } := by
  unfold setDrs
  split <;> rfl

/-- What SET_REGS does to the debug registers. -/
theorem setRegs_drView (info : VmxInfo) (u : VcpuState) (rspDirty : Bool) (v : Vcpu) :
    (setSegments u (setDrs u (setCrs info u (setRip u rspDirty v)))).drView =
      if v.debugControl &&& haxDebugEnable ≠ 0 then v.drView
      else { v.drView with dr := u.dr, dr6 := fixDr6 u.dr6, dr7 := fixDr7 u.dr7,
                           dirty := decide (DrChanged u v.state) } := by
  refine (setDrs_drView u (setCrs info u (setRip u rspDirty v))).trans ?_
  unfold setCrs
  dsimp only
  cases crChanged u (setRip u rspDirty v).state <;> rfl

section OwnStep

variable (off : HostOff phys) (running : v.panicked = false) (current : v.drView.Current phys)

include running current

theorem drAccess_inForce_iff (sec : VmcsSection) (dreg : Fin 8) (toGpr : Bool) (gpr : Fin 16)
    (len : BitVec 64) : (exitDrAccess sec dreg toGpr gpr len v).drView.InForce phys ↔
      (v.state.dr7 &&& dr7GD ≠ 0 → sec.Ok → v.drDirty = true ∨
        (phys sec.cpu).dr = v.state.dr ∧ (phys sec.cpu).dr6 = v.state.dr6 ||| dr6BD) := by
  unfold exitDrAccess
  dsimp only
  split
  · rename_i detected
    simp only [ne_eq, detected, not_false_eq_true, true_implies]
    refine withVmcs_inForce_iff rfl running fun _ => ?_
    exact or_congr_right ⟨fun held => ⟨held.dr, held.dr6⟩, fun same => ⟨same.1, same.2, rfl⟩⟩
  · rename_i noDetect
    refine iff_of_true ?_ fun detected => absurd detected noDetect
    split
    · exact fun _ => current
    split
    · exact fun _ => current
    · split
      · exact fun _ => current
      · exact fun _ => .inl rfl

theorem setRegs_inForce_iff (sec : VmcsSection) (u : VcpuState) :
    (vcpuSetRegs info sec u v).2.drView.InForce phys ↔
      if v.debugControl &&& haxDebugEnable ≠ 0 then SectionKeeps phys v sec
      else sec.Ok → DrChanged u v.state ∨ v.drView.HeldBy (phys sec.cpu) := by
  have body := setRegs_drView info u (v.state.rsp != u.rsp) ((setGprs u v).loadVmcs sec.cpu)
  have debug : ((setGprs u v).loadVmcs sec.cpu).debugControl = v.debugControl := rfl
  rw [debug] at body
  split
  · rename_i enabled
    rw [if_pos enabled] at body
    exact section_inForce_iff (v := setGprs u v) body running current
  · rename_i disabled
    rw [if_neg disabled] at body
    refine withVmcs_inForce_iff (v := setGprs u v) body running fun _ => ?_
    by_cases changed : DrChanged u v.state
    · exact iff_of_true (.inl (decide_eq_true changed)) (.inl changed)
    · -- nothing changes, and the flag is cleared
      have clean : decide (DrChanged u v.state) = false := decide_eq_false changed
      have same := changed
      simp only [DrChanged, not_or, ne_eq, not_not] at same
      obtain ⟨dr, dr6, dr7⟩ := same
      simp only [changed, false_or]
      constructor
      · rintro (dirty | held)
        · exact absurd (clean.symm.trans dirty) (by decide)
        · exact ⟨held.dr.trans dr.symm, held.dr6.trans dr6.symm, held.dr7.trans dr7.symm⟩
      · exact fun held => .inr ⟨held.dr.trans dr, held.dr6.trans dr6, held.dr7.trans dr7⟩

include off

theorem round_inForce_iff (sec : VmcsSection) (p : DebugRegs) (exit : VmExit) :
    (cpuVmxRound info sec (phys sec.cpu) exit v).drView.InForce
        (physAfter phys v (.round sec p exit)) ↔ (sec.Ok → exit.guest.dr7 = v.state.dr7) := by
  obtain ⟨view, dr, -⟩ := entered off current sec.cpu
  rw [cpuVmxRound, if_neg (by simp [running])]
  refine withVmcs_inForce_iff (x := { v.drView with
    cpuId := sec.cpu, dr6 := exit.dr6, vmcsDr7 := exit.guest.dr7, dirty := false }) ?_ running
    fun ok => ?_
  · change ({ (vmEntry (phys sec.cpu) (v.loadVmcs sec.cpu)).1.drView with
      dr6 := exit.dr6, vmcsDr7 := exit.guest.dr7 } : DrView) = _
    rw [view]
  simp only [physAfter, running, ok.1, and_self, if_true, DrView.Current, Function.update_self]
  constructor
  · rintro (dirty | held)
    · cases dirty
    · exact held.dr7
  · exact fun same => .inr ⟨dr, rfl, same⟩

theorem failedRound_inForce_iff (sec₁ sec₂ : VmcsSection) (p : DebugRegs) :
    (refreshState sec₂ (cpuVmxFailedRound sec₁ (phys sec₁.cpu) v)).drView.InForce
        (physAfter phys v (.failedRound sec₁ sec₂ p)) ↔
      (sec₁.Ok → sec₂.Ok → sec₂.cpu = sec₁.cpu ∨
        (phys sec₂.cpu).dr = v.state.dr ∧ (phys sec₂.cpu).dr6 = v.state.dr6) := by
  obtain ⟨view, dr, dr6⟩ := entered off current sec₁.cpu
  rw [cpuVmxFailedRound, if_neg (by simp [running])]
  by_cases ok : sec₁.Ok
  · simp only [ok, true_implies, withVmcs_of_ok ok]
    refine withVmcs_inForce_iff (x := { v.drView with
      cpuId := sec₂.cpu, vmcsDr7 := v.state.dr7, dirty := false }) ?_ running fun _ => ?_
    · change ({ (vmEntry (phys sec₁.cpu) (v.loadVmcs sec₁.cpu)).1.drView with
        cpuId := sec₂.cpu, dr6 := (vmEntry (phys sec₁.cpu) (v.loadVmcs sec₁.cpu)).2.dr6 } :
          DrView) = _
      rw [view, dr6]
      rfl
    simp only [physAfter, running, ok.1, and_self, if_true, DrView.Current]
    by_cases same : sec₂.cpu = sec₁.cpu
    · rw [same, Function.update_self]
      exact iff_of_true (.inr ⟨dr, dr6, rfl⟩) (.inl rfl)
    · rw [Function.update_of_ne same]
      constructor
      · rintro (dirty | held)
        · cases dirty
        · exact .inr ⟨held.dr, held.dr6⟩
      · rintro (eq | ⟨dr, dr6⟩)
        · exact absurd eq same
        · exact .inr ⟨dr, dr6, rfl⟩
  · refine iff_of_true (DrView.inForce_of_panicked ?_) fun h => absurd h ok
    exact withVmcs_panicked (withVmcs_of_not_ok ok v _)

variable (info) in
/-- Every step of a virtual CPU keeps its own registers in force exactly if it
meets its condition. -/
theorem ownStep_inForce_iff (step : VcpuStep) :
    (vcpuStep info v (step.on phys)).drView.InForce (physAfter phys v step) ↔
      OwnKept phys v step := by
  have kept : v.drView.InForce phys := fun _ => current
  cases step with
  | round sec p exit => exact round_inForce_iff off running current sec p exit
  | failedRound sec₁ sec₂ p => exact failedRound_inForce_iff off running current sec₁ sec₂ p
  | refresh sec =>
    exact section_inForce_iff (v := { v with curState := .stale }) rfl running current
  | advanceRip len => exact iff_of_true kept trivial
  | writeGpr i val => exact iff_of_true kept trivial
  | writeRflags val => exact iff_of_true kept trivial
  | crWrite sec cr val pdpt =>
    change (exitCrWrite info sec cr val pdpt v).drView.InForce phys ↔
      (pdpt = true → SectionKeeps phys v sec)
    unfold exitCrWrite
    cases pdpt with
    | false => exact iff_of_true (DrView.inForce_of_panicked rfl) nofun
    | true =>
      simp only [true_implies, if_true]
      cases cr with
      | cr0 => exact section_inForce_iff (v := vcpuWriteCr .cr0 val v) rfl running current
      | cr4 => exact section_inForce_iff (v := vcpuWriteCr .cr4 val v) rfl running current
  | drAccess sec dreg toGpr gpr len =>
    exact drAccess_inForce_iff running current sec dreg toGpr gpr len
  | fsBase val => exact iff_of_true kept trivial
  | gsBase sec val => exact section_inForce_iff rfl running current
  | vmread sec => exact section_inForce_iff rfl running current
  | getRegs sec =>
    change (vcpuVmreadAll sec v).drView.InForce phys ↔
      (v.curState = .stale → SectionKeeps phys v sec)
    unfold vcpuVmreadAll
    by_cases stale : v.curState = .stale
    · simp only [stale, true_implies, if_true]
      exact section_inForce_iff rfl running current
    · rw [if_neg stale]
      exact iff_of_true kept fun h => absurd h stale
  | setRegs sec u => exact setRegs_inForce_iff running current sec u
  | debug control dr => exact iff_of_true (fun _ => .inl rfl) trivial

/-- A step keeps the registers of another virtual CPU in force exactly if it meets
the condition for that one. -/
theorem otherStep_current_iff {w : Vcpu} (other : w.drView.Current phys) (step : VcpuStep) :
    w.drView.Current (physAfter phys v step) ↔ OtherKept v w step := by
  -- both kinds of entry replace the registers of one processor
  have replaced : ∀ (cpu : ℕ) (p : DebugRegs), w.drView.Current (Function.update phys cpu p) ↔
      w.drDirty = true ∨ w.cpuId ≠ cpu ∨ w.state.dr = p.dr ∧ w.state.dr6 = p.dr6 := by
    intro cpu p
    rcases other with dirty | held
    · exact iff_of_true (.inl dirty) (.inl dirty)
    · by_cases here : w.cpuId = cpu
      · have there : Function.update phys cpu p w.drView.cpuId = p := by
          rw [show w.drView.cpuId = cpu from here, Function.update_self]
        simp only [DrView.Current, there, here, ne_eq, not_true_eq_false, false_or]
        exact or_congr_right ⟨fun h => ⟨h.dr.symm, h.dr6.symm⟩,
          fun h => ⟨h.1.symm, h.2.symm, held.dr7⟩⟩
      · have apart : Function.update phys cpu p w.drView.cpuId = phys w.drView.cpuId :=
          Function.update_of_ne here _ _
        exact iff_of_true (.inr (apart ▸ held)) (.inr (.inl here))
  cases step with
  | round sec p exit =>
    obtain ⟨-, dr, -⟩ := entered off current sec.cpu
    simp only [physAfter, OtherKept, running, true_and]
    by_cases load : sec.load = true
    · rw [if_pos load, replaced, dr]
      simp only [load, true_implies]
    · rw [if_neg load]
      exact iff_of_true other fun h => absurd h load
  | failedRound sec₁ sec₂ p =>
    obtain ⟨-, dr, dr6⟩ := entered off current sec₁.cpu
    simp only [physAfter, OtherKept, running, true_and]
    by_cases load : sec₁.load = true
    · rw [if_pos load, replaced, dr, dr6]
      simp only [load, true_implies]
    · rw [if_neg load]
      exact iff_of_true other fun h => absurd h load
  | _ => exact iff_of_true other trivial

end OwnStep

/-! ## Runs -/

/-- The virtual CPUs as they are created, each on some processor. -/
def drMachineInit {ι : Type*} (info : VmxInfo) (phys : ℕ → DebugRegs) (cpu : ι → ℕ) :
    DrMachine ι where
  phys := phys
  vcpu i := vcpuCreate info (cpu i)

theorem physAfter_hostOff (off : HostOff phys) (v : Vcpu) (step : VcpuStep) :
    HostOff (physAfter phys v step) := by
  have entry : ∀ cpu, isHostDebugEnabled (vmEntry (phys cpu) (v.loadVmcs cpu)).2.dr7 = false := by
    intro cpu
    rcases vmEntry_cases off cpu v with ⟨-, -, regs⟩ | ⟨-, -, regs⟩
    · rw [regs]
      exact show isHostDebugEnabled 0 = false by decide
    · rw [regs]
      exact off cpu
  have replaced : ∀ (cpu : ℕ) (p : DebugRegs), isHostDebugEnabled p.dr7 = false →
      HostOff (Function.update phys cpu p) := by
    intro cpu p clear i
    by_cases here : i = cpu
    · rw [here, Function.update_self, clear]
    · rw [Function.update_of_ne here, off i]
  cases step with
  | round sec p exit =>
    simp only [physAfter]
    split
    · exact replaced _ _ (show isHostDebugEnabled dr7Setbits = false by decide)
    · exact off
  | failedRound sec₁ sec₂ p =>
    simp only [physAfter]
    split
    · exact replaced _ _ (entry _)
    · exact off
  | _ => exact off

/-- Nothing runs on a processor for a virtual CPU that has panicked. -/
theorem physAfter_of_panicked (panicked : v.panicked = true) (step : VcpuStep) :
    physAfter phys v step = phys := by
  cases step <;> simp [physAfter, panicked]

section Machine

variable {ι : Type*} [DecidableEq ι] {s : DrMachine ι}

/-- One step keeps all registers in force exactly if it meets its conditions. -/
theorem drMachineStep_safe_iff (off : HostOff s.phys) (safe : s.Safe) (a : ι × VcpuStep) :
    (drMachineStep info s a).Safe ↔ DrKept s a := by
  rw [DrMachine.safe_iff off] at safe
  rw [DrMachine.safe_iff (s := drMachineStep info s a) (physAfter_hostOff off _ _)]
  obtain ⟨i, step⟩ := a
  have own : (drMachineStep info s (i, step)).vcpu i =
      vcpuStep info (s.vcpu i) (step.on s.phys) := Function.update_self _ _ _
  have others : ∀ j, j ≠ i → (drMachineStep info s (i, step)).vcpu j = s.vcpu j :=
    fun j apart => Function.update_of_ne apart _ _
  unfold DrKept
  by_cases panicked : (s.vcpu i).panicked = true
  · refine iff_of_true (fun j running => ?_) fun running =>
      absurd (panicked.symm.trans running) (by decide)
    have phys : (drMachineStep info s (i, step)).phys = s.phys :=
      physAfter_of_panicked panicked step
    by_cases same : j = i
    · subst same
      rw [own, vcpuStep_panicked info panicked] at running
      cases running
    · rw [others j same] at running ⊢
      rw [phys]
      exact safe j running
  · have running : (s.vcpu i).panicked = false := by simpa using panicked
    have current := safe i running
    simp only [running, true_implies]
    constructor
    · intro all
      refine ⟨(ownStep_inForce_iff info off running current step).mp fun after => ?_,
        fun j apart runs => ?_⟩
      · have held := all i
        rw [own] at held
        exact held after
      · have held := all j
        rw [others j apart] at held
        exact (otherStep_current_iff off running current (safe j runs) step).mp (held runs)
    · rintro ⟨ownKept, othersKept⟩ j runs
      by_cases same : j = i
      · subst same
        rw [own] at runs ⊢
        exact (ownStep_inForce_iff info off running current step).mpr ownKept runs
      · rw [others j same] at runs ⊢
        exact (otherStep_current_iff off running current (safe j runs) step).mpr
          (othersKept j same runs)

/-- The machines that steps with their conditions lead to. -/
def DrMachineReached (info : VmxInfo) (phys : ℕ → DebugRegs) (cpu : ι → ℕ) (s : DrMachine ι) :
    Prop :=
  Reached (drMachineInit info phys cpu) DrKept (drMachineStep info) s

/-- In every interleaving whose steps meet their conditions, every entry of every
virtual CPU has its own debug registers in force; and the first step that does
not meet them leaves a virtual CPU that can be entered without. -/
theorem drMachine_safe_of_reached {info : VmxInfo} {phys : ℕ → DebugRegs} {cpu : ι → ℕ}
    {s : DrMachine ι} (off : HostOff phys) (reached : DrMachineReached info phys cpu s) :
    s.Safe ∧ ∀ a, ((drMachineStep info s a).Safe ↔ DrKept s a) := by
  have start : HostOff (drMachineInit info phys cpu).phys ∧ (drMachineInit info phys cpu).Safe :=
    -- a new virtual CPU has its registers pending
    ⟨off, (DrMachine.safe_iff off).mpr fun _ _ => .inl rfl⟩
  have invariant : HostOff s.phys ∧ s.Safe :=
    reached.invariant (I := fun s => HostOff s.phys ∧ s.Safe) start fun s a ok kept =>
      ⟨physAfter_hostOff ok.1 _ _, (drMachineStep_safe_iff ok.1 ok.2 a).mpr kept⟩
  exact ⟨invariant.2, fun a => drMachineStep_safe_iff invariant.1 invariant.2 a⟩

end Machine

/-- A processor whose debug registers are as after a reset. -/
def resetDebugRegs : DebugRegs where
  dr _ := 0
  dr6 := dr6Setbits
  dr7 := dr7Setbits

theorem resetDebugRegs_hostOff : HostOff fun _ => resetDebugRegs :=
  fun _ => show isHostDebugEnabled dr7Setbits = false by decide

/-- A round on processor 0 in which the guest does nothing. -/
def quietRound : VcpuStep :=
  .round {} resetDebugRegs
    { regs := fun _ => 0
      cr2 := 0
      dr6 := dr6Setbits
      guest := (vcpuCreate plainInfo 0).vmcs.toVmcsGuest }

/-- Two virtual CPUs that were created on processor 0. -/
def twoVcpus : DrMachine Bool := drMachineInit plainInfo (fun _ => resetDebugRegs) fun _ => 0

/-- The first one has set DR0 and run. -/
def firstSetsDr0 : DrMachine Bool :=
  [(true, .writeGpr 0 0x1000), (true, .drAccess {} 0 false 0 3), (true, quietRound)].foldl
    (drMachineStep plainInfo) twoVcpus

theorem firstSetsDr0_reached :
    DrMachineReached plainInfo (fun _ => resetDebugRegs) (fun _ => 0) firstSetsDr0 := by
  refine Reached.foldl .init ⟨?_, ?_, ?_, trivial⟩
  · exact fun _ => ⟨trivial, fun _ _ _ => trivial⟩
  · exact fun _ => ⟨fun detected => absurd detected (by decide), fun _ _ _ => trivial⟩
  · -- the other one has not run yet, so that its registers are pending
    refine fun _ => ⟨fun _ => rfl, fun j apart _ _ => .inl ?_⟩
    cases j with
    | true => exact absurd rfl apart
    | false => rfl

theorem firstSetsDr0_safe : firstSetsDr0.Safe :=
  (drMachine_safe_of_reached resetDebugRegs_hostOff firstSetsDr0_reached).1

/-- After a run of the second one the first one is entered with DR0 of the second. -/
theorem secondRuns_not_safe :
    DrMachineReached plainInfo (fun _ => resetDebugRegs) (fun _ => 0) firstSetsDr0 ∧
      ¬ (drMachineStep plainInfo firstSetsDr0 (false, quietRound)).Safe := by
  refine ⟨firstSetsDr0_reached, fun safe => ?_⟩
  have own := (safe true rfl 0).dr
  exact absurd (congrFun own 0) (by decide)

end Haxm
