/-
# What `cpu_vmx_execute` leaves behind on the host

The loop of `cpu_vmx_execute` opens a section, lets the guest run with
interrupts masked, closes the section and handles the exit, until there is
something to report to user space. On the way it reads and writes VMCS fields in
many places; each such access opens a section of its own where none is open.

The one place where a return is not prepared for is a VM entry that fails.
`cpu_vmx_run` masks interrupts, and the branch that returns `-EINVAL` closes the
section without unmasking them.
-/

import Haxm.Cpu.Interleaving

namespace Haxm

open Lib

/-! ## Model -/

/-- A thread that runs a virtual processor. Where the thread is not in a section
it may be moved to another processor; the state is that of the one it is on. -/
structure ExecState where
  cpu : RootCpu
  panicked : Bool
  deriving DecidableEq

/-- The processor on which a section is about to be opened, in the mode in which
the rest of the host has left it. -/
def RootCpu.onHost (mode : RootMode) (s : RootCpu) : RootCpu :=
  { s with cr4Vmxe := mode.cr4Vmxe, vmxOn := mode.vmxOn, currentVmcs := mode.currentVmcs }

/-- The circumstances of a `load_vmcs`: the mode of the processor and whether
VMPTRLD accepts the VMCS. -/
structure Loading where
  host : RootMode
  valid : Bool

/-- What an exit handler does to the host. -/
inductive HandlerOp
  /-- `vmread` or `vmwrite`. -/
  | access (loading : Loading)
  /-- A section with accesses in it, as in `exit_cr_access`. -/
  | inSection (loading : Loading) (accesses : List Loading)
  /-- `vcpu_set_panic`. -/
  | panic

/-- What the host, user space and the guest do in one iteration of the loop. -/
structure ExecRound where
  paused : Bool
  loading : Loading
  /-- The accesses before interrupts are masked, before VM entry, after a failed
  entry (`cpu_vmentry_failed`) and after an exit. -/
  before : List Loading
  masked : List Loading
  failed : List Loading
  after : List Loading
  /-- The result of `asm_vmxrun`. -/
  entry : VmxResult
  handler : List HandlerOp
  /-- The result of `cpu_vmexit_handler`. -/
  ret : ℤ

section Model

variable (vmcs : ℕ)

/-- `put_vmcs` as its callers use it. -/
def execPut (s : ExecState) : ExecState :=
  match s.cpu.putVmcs vmcs with
  | (.succeed, cpu) => { s with cpu := cpu }
  | (_, cpu) => { cpu := cpu, panicked := true }

/-- `load_vmcs` as its callers use it, the section, and `put_vmcs`. -/
def execSection (loading : Loading) (body : ExecState → ExecState) (s : ExecState) : ExecState :=
  match (s.cpu.onHost loading.host).loadVmcs loading.valid vmcs with
  | (0, cpu) => execPut vmcs (body { s with cpu := cpu })
  | (_, cpu) => { cpu := cpu, panicked := true }

/-- `vmread` and `vmwrite`, which use a section that is open. -/
def execAccess (s : ExecState) (loading : Loading) : ExecState :=
  if s.cpu.isVmcsLoaded then s else execSection vmcs loading id s

def execAccesses (accesses : List Loading) (s : ExecState) : ExecState :=
  accesses.foldl (execAccess vmcs) s

def execHandlerOp (s : ExecState) : HandlerOp → ExecState
  | .access loading => execAccess vmcs s loading
  | .inSection loading accesses => execSection vmcs loading (execAccesses vmcs accesses) s
  | .panic => { s with panicked := true }

/-- `hax_enable_irq` and `hax_disable_irq`. -/
def ExecState.setIrq (on : Bool) (s : ExecState) : ExecState :=
  { s with cpu := { s.cpu with irq := on } }

/-- `cpu_vmx_run`, with the accesses that come before it. -/
def cpuVmxRun (r : ExecRound) (s : ExecState) : ExecState :=
  let s := execAccesses vmcs r.masked ((execAccesses vmcs r.before s).setIrq false)
  if r.entry = .succeed then s else execAccesses vmcs r.failed s

def execEinval : ℤ := -22

/-- One iteration of the loop in `cpu_vmx_execute`, with the value returned if it
is the last. -/
def cpuVmxIteration (s : ExecState) (r : ExecRound) : Option ℤ × ExecState :=
  if r.paused then (some 0, s)
  else if s.panicked then (some 0, s)
  else
    match (s.cpu.onHost r.loading.host).loadVmcs r.loading.valid vmcs with
    | (0, cpu) =>
      let s := cpuVmxRun vmcs r { s with cpu := cpu }
      if r.entry = .succeed then
        let s := (execPut vmcs (execAccesses vmcs r.after s)).setIrq true
        let s := r.handler.foldl (execHandlerOp vmcs) s
        (if r.ret ≤ 0 then some r.ret else none, s)
      else (some execEinval, execPut vmcs s)
    | (_, cpu) => (some 0, { cpu := cpu, panicked := true })

/-- A call of `cpu_vmx_execute` after some iterations. -/
structure Execution where
  ret : Option ℤ
  state : ExecState

def executionStep (e : Execution) (r : ExecRound) : Execution :=
  match e.ret with
  | some _ => e
  | none => ⟨(cpuVmxIteration vmcs e.state r).1, (cpuVmxIteration vmcs e.state r).2⟩

end Model

/-! ## The driver's bookkeeping -/

/-- What sections and interrupt masking change of a processor and its data, besides
its mode. -/
structure Books where
  irq : Bool
  nested : ℕ
  isVmcsLoaded : Bool
  preemptDisables : ℕ
  preemptEnables : ℕ

def RootCpu.books (s : RootCpu) : Books where
  irq := s.irq
  nested := s.nested
  isVmcsLoaded := s.isVmcsLoaded
  preemptDisables := s.preemptDisables
  preemptEnables := s.preemptEnables

section Books

variable {s : RootCpu} (vmcs : ℕ) (valid : Bool)

theorem cpuVmxrootLeave_books (s : RootCpu) : s.cpuVmxrootLeave.2.books = s.books := by
  obtain ⟨_, on, _, _, _, _, host, hax, _, _, _, _, _, _, _, _⟩ := s
  cases hax <;> cases on <;> cases host <;> rfl

theorem asmVmclear_books (s : RootCpu) : (s.asmVmclear vmcs).books = s.books := by
  unfold RootCpu.asmVmclear
  split
  · split <;> rfl
  · rfl

/-- VMXON and VMPTRLD are what decides a `load_vmcs` that does not nest. -/
theorem loadVmcs_eq_zero_iff (unloaded : s.isVmcsLoaded = false) :
    (s.loadVmcs valid vmcs).1 = 0 ↔ s.vmxOn = false ∧ valid = true := by
  obtain ⟨cr4, on, current, _, _, _, _, _, _, _, _, _, loaded, _, _, _⟩ := s
  obtain rfl : loaded = false := unloaded
  cases on with
  | true => cases current <;> simp [RootCpu.loadVmcs, RootCpu.disablePreemption,
      RootCpu.cpuVmxrootEnter, RootCpu.saveHostCr4Vmxe, RootCpu.setCr4Vmxe, RootCpu.asmVmxon,
      RootCpu.vmxonFail]
  | false => cases valid <;> simp [RootCpu.loadVmcs, RootCpu.disablePreemption,
      RootCpu.cpuVmxrootEnter, RootCpu.saveHostCr4Vmxe, RootCpu.setCr4Vmxe, RootCpu.asmVmxon,
      RootCpu.noteVmxon, RootCpu.asmVmptrld, RootCpu.vmptrldFail]

/-- A `load_vmcs` that fails enables preemption again. -/
theorem loadVmcs_books (unloaded : s.isVmcsLoaded = false) :
    (s.loadVmcs valid vmcs).2.books =
      if (s.loadVmcs valid vmcs).1 = 0 then
        { s.books with isVmcsLoaded := true, preemptDisables := s.preemptDisables + 1 }
      else
        { s.books with
          preemptDisables := s.preemptDisables + 1, preemptEnables := s.preemptEnables + 1 } := by
  obtain ⟨cr4, on, current, _, _, _, _, _, _, _, _, _, loaded, _, _, _⟩ := s
  obtain rfl : loaded = false := unloaded
  cases on <;> cases valid <;> cases current <;> cases cr4 <;> rfl

theorem putVmcs_books (outermost : s.nested = 0) :
    (s.putVmcs vmcs).2.books =
      { s.books with isVmcsLoaded := false, preemptEnables := s.preemptEnables + 1 } := by
  have cleared : (s.asmVmclear vmcs).books = s.books := asmVmclear_books vmcs s
  have left := cpuVmxrootLeave_books { s.asmVmclear vmcs with currentVcpu := none }
  have noneInside : ¬ 0 < s.nested := by omega
  rw [RootCpu.putVmcs, if_neg noneInside]
  simp only [RootCpu.books, RootCpu.enablePreemption, Books.mk.injEq] at cleared left ⊢
  obtain ⟨irq, nested, -, disables, enables⟩ := left
  obtain ⟨irq', nested', -, disables', enables'⟩ := cleared
  exact ⟨irq.trans irq', nested.trans nested', trivial, disables.trans disables',
    congrArg (· + 1) (enables.trans enables')⟩

end Books

/-! ## Balance -/

/-- The thread is in an outermost section or in none, preemption has been
disabled accordingly since the entry of the function, and interrupts are masked or
not. -/
structure BalancedSince (entry : RootCpu) (inside irq : Bool) (s : RootCpu) : Prop where
  loaded : s.isVmcsLoaded = inside
  outermost : s.nested = 0
  balance : s.preemptDisables + entry.preemptEnables =
    s.preemptEnables + entry.preemptDisables + inside.toNat
  irq_eq : s.irq = irq

section Balance

variable {entry cpu : RootCpu} {inside irq : Bool} {s : ExecState}

theorem BalancedSince.onHost (balanced : BalancedSince entry inside irq cpu) (mode : RootMode) :
    BalancedSince entry inside irq (cpu.onHost mode) :=
  { balanced with }

theorem BalancedSince.setIrq (balanced : BalancedSince entry inside irq s.cpu) (on : Bool) :
    BalancedSince entry inside on (s.setIrq on).cpu :=
  { balanced with irq_eq := rfl }

variable (vmcs : ℕ)

theorem BalancedSince.loadVmcs (balanced : BalancedSince entry false irq cpu) (valid : Bool) :
    BalancedSince entry (decide ((cpu.loadVmcs valid vmcs).1 = 0)) irq
      (cpu.loadVmcs valid vmcs).2 := by
  obtain ⟨loaded, outermost, balance, irq_eq⟩ := balanced
  have books := loadVmcs_books vmcs valid loaded
  simp only [Bool.toNat_false, Nat.add_zero] at balance
  split at books
  case isTrue ok =>
    simp only [RootCpu.books, Books.mk.injEq] at books
    obtain ⟨irq', nested', loaded', disables, enables⟩ := books
    rw [decide_eq_true ok]
    refine ⟨loaded', nested'.trans outermost, ?_, irq'.trans irq_eq⟩
    rw [disables, enables, Bool.toNat_true]
    omega
  case isFalse failed =>
    simp only [RootCpu.books, Books.mk.injEq] at books
    obtain ⟨irq', nested', loaded', disables, enables⟩ := books
    rw [decide_eq_false failed]
    refine ⟨loaded'.trans loaded, nested'.trans outermost, ?_, irq'.trans irq_eq⟩
    rw [disables, enables, Bool.toNat_false]
    omega

theorem execPut_cpu (s : ExecState) : (execPut vmcs s).cpu = (s.cpu.putVmcs vmcs).2 := by
  unfold execPut
  split <;> simp_all

theorem BalancedSince.execPut (balanced : BalancedSince entry true irq s.cpu) :
    BalancedSince entry false irq (execPut vmcs s).cpu := by
  obtain ⟨-, outermost, balance, irq_eq⟩ := balanced
  have books := putVmcs_books vmcs outermost
  simp only [RootCpu.books, Books.mk.injEq] at books
  obtain ⟨irq', nested', loaded', disables, enables⟩ := books
  rw [execPut_cpu]
  refine ⟨loaded', nested'.trans outermost, ?_, irq'.trans irq_eq⟩
  rw [disables, enables, Bool.toNat_false]
  rw [Bool.toNat_true] at balance
  omega

/-- A section, whether or not it can be opened and closed, is balanced if what
happens in it is. -/
theorem BalancedSince.execSection {body : ExecState → ExecState} (loading : Loading)
    (kept : ∀ s : ExecState, BalancedSince entry true irq s.cpu →
      BalancedSince entry true irq (body s).cpu)
    (balanced : BalancedSince entry false irq s.cpu) :
    BalancedSince entry false irq (execSection vmcs loading body s).cpu := by
  have after := (balanced.onHost loading.host).loadVmcs vmcs loading.valid
  unfold Haxm.execSection
  split
  case h_1 cpu result =>
    rw [result] at after
    exact (kept { s with cpu := cpu } after).execPut vmcs
  case h_2 n cpu failed result =>
    rw [result, decide_eq_false (fun eq => failed eq)] at after
    exact after

theorem BalancedSince.execAccess (balanced : BalancedSince entry inside irq s.cpu)
    (loading : Loading) : BalancedSince entry inside irq (execAccess vmcs s loading).cpu := by
  unfold Haxm.execAccess
  split
  case isTrue => exact balanced
  case isFalse unloaded =>
    rw [balanced.loaded, Bool.not_eq_true] at unloaded
    subst unloaded
    exact balanced.execSection vmcs loading (fun _ => id)

theorem BalancedSince.execAccesses (balanced : BalancedSince entry inside irq s.cpu)
    (accesses : List Loading) :
    BalancedSince entry inside irq (execAccesses vmcs accesses s).cpu := by
  induction accesses generalizing s with
  | nil => exact balanced
  | cons loading accesses ih => exact ih (balanced.execAccess vmcs loading)

theorem BalancedSince.execHandler (balanced : BalancedSince entry false irq s.cpu)
    (ops : List HandlerOp) :
    BalancedSince entry false irq (ops.foldl (execHandlerOp vmcs) s).cpu := by
  induction ops generalizing s with
  | nil => exact balanced
  | cons op ops ih =>
    apply ih
    cases op with
    | access loading => exact balanced.execAccess vmcs loading
    | inSection loading accesses =>
      exact balanced.execSection vmcs loading (fun _ inner => inner.execAccesses vmcs accesses)
    | panic => exact balanced

theorem BalancedSince.cpuVmxRun (balanced : BalancedSince entry true irq s.cpu) (r : ExecRound) :
    BalancedSince entry true false (cpuVmxRun vmcs r s).cpu := by
  have masked := ((balanced.execAccesses vmcs r.before).setIrq false).execAccesses vmcs r.masked
  unfold Haxm.cpuVmxRun
  dsimp only
  split
  · exact masked
  · exact masked.execAccesses vmcs r.failed

end Balance

/-! ## The iterations of a call -/

/-- What a call of `cpu_vmx_execute` that has been entered in the state `entry`
should leave behind. -/
def HostKept (entry s : RootCpu) : Prop :=
  (entry.irq = true → s.irq = true) ∧
    s.preemptDisables + entry.preemptEnables = s.preemptEnables + entry.preemptDisables ∧
    s.isVmcsLoaded = false

/-- The iteration gets as far as VM entry, and VM entry fails. -/
def EntryFails (s : ExecState) (r : ExecRound) : Prop :=
  r.paused = false ∧ s.panicked = false ∧ r.loading.host.vmxOn = false ∧
    r.loading.valid = true ∧ r.entry ≠ .succeed

instance (s : ExecState) (r : ExecRound) : Decidable (EntryFails s r) :=
  inferInstanceAs (Decidable (_ ∧ _))

section Iterations

variable {entry : RootCpu} {irq : Bool} {s : ExecState}

theorem BalancedSince.hostKept {cpu : RootCpu} (balanced : BalancedSince entry false irq cpu)
    (unmasked : entry.irq = true → irq = true) : HostKept entry cpu :=
  ⟨fun on => balanced.irq_eq.trans (unmasked on), balanced.balance, balanced.loaded⟩

/-- What one iteration does to the host, by where it ends. -/
theorem cpuVmxIteration_balanced (vmcs : ℕ) (balanced : BalancedSince entry false irq s.cpu)
    (r : ExecRound) :
    (EntryFails s r ∧ (cpuVmxIteration vmcs s r).1 = some execEinval ∧
        BalancedSince entry false false (cpuVmxIteration vmcs s r).2.cpu) ∨
      (¬ EntryFails s r ∧ ∃ irq', (irq = true → irq' = true) ∧
        BalancedSince entry false irq' (cpuVmxIteration vmcs s r).2.cpu) := by
  unfold cpuVmxIteration
  by_cases paused : r.paused = true
  · rw [if_pos paused]
    exact .inr ⟨fun fails => by simp [fails.1] at paused, irq, id, balanced⟩
  by_cases panicked : s.panicked = true
  · rw [if_neg paused, if_pos panicked]
    exact .inr ⟨fun fails => by simp [fails.2.1] at panicked, irq, id, balanced⟩
  rw [if_neg paused, if_neg panicked]
  have hosted := balanced.onHost r.loading.host
  have after := hosted.loadVmcs vmcs r.loading.valid
  have loads := loadVmcs_eq_zero_iff vmcs r.loading.valid hosted.loaded
  split
  case h_1 cpu result =>
    rw [result] at after loads
    have inside := BalancedSince.cpuVmxRun vmcs (s := { s with cpu := cpu }) after r
    obtain ⟨off, valid⟩ := loads.mp rfl
    by_cases entered : r.entry = .succeed
    · dsimp only
      rw [if_pos entered]
      refine .inr ⟨fun fails => fails.2.2.2.2 entered, true, fun _ => rfl, ?_⟩
      exact (((inside.execAccesses vmcs r.after).execPut vmcs).setIrq true).execHandler vmcs _
    · dsimp only
      rw [if_neg entered]
      refine .inl ⟨⟨by simpa using paused, by simpa using panicked, off, valid, entered⟩, rfl, ?_⟩
      exact inside.execPut vmcs
  case h_2 n cpu failed result =>
    have nonzero : n ≠ 0 := fun eq => failed eq
    rw [result] at after loads
    rw [decide_eq_false nonzero] at after
    exact .inr ⟨fun fails => nonzero (loads.mpr ⟨fails.2.2.1, fails.2.2.2.1⟩), irq, id, after⟩

/-- The guard of a run in which no VM entry fails that would matter. -/
def EntryAllowed (start : ExecState) (e : Execution) (r : ExecRound) : Prop :=
  e.ret = none → start.cpu.irq = true → ¬ EntryFails e.state r

theorem balanced_of_reached {vmcs : ℕ} {start : ExecState} {e : Execution}
    (unloaded : start.cpu.isVmcsLoaded = false) (outermost : start.cpu.nested = 0)
    (reached : Reached ⟨none, start⟩ (EntryAllowed start) (executionStep vmcs) e) :
    ∃ irq, (start.cpu.irq = true → irq = true) ∧
      BalancedSince start.cpu false irq e.state.cpu := by
  induction reached with
  | init => exact ⟨start.cpu.irq, id, unloaded, outermost, Nat.add_comm _ _, rfl⟩
  | @step e r _ allowed ih =>
    obtain ⟨irq, unmasked, balanced⟩ := ih
    unfold executionStep
    split
    case h_1 => exact ⟨irq, unmasked, balanced⟩
    case h_2 running =>
      rcases cpuVmxIteration_balanced vmcs balanced r with
        ⟨fails, -, after⟩ | ⟨-, irq', kept, after⟩
      · exact ⟨false, fun on => absurd fails (allowed running on), after⟩
      · exact ⟨irq', fun on => kept (unmasked on), after⟩

/-- A call in which no VM entry fails, or which was entered with interrupts
masked, leaves the host as it found it on every return. A further iteration of
such a call keeps to that exactly if it is not the first to have its VM entry
fail. -/
theorem cpuVmxExecute_hostKept_iff {vmcs : ℕ} {start : ExecState} {e : Execution}
    (unloaded : start.cpu.isVmcsLoaded = false) (outermost : start.cpu.nested = 0)
    (reached : Reached ⟨none, start⟩ (EntryAllowed start) (executionStep vmcs) e) :
    (e.ret ≠ none → HostKept start.cpu e.state.cpu) ∧
      (e.ret = none → ∀ r,
        (((executionStep vmcs e r).ret ≠ none →
            HostKept start.cpu (executionStep vmcs e r).state.cpu) ↔
          (start.cpu.irq = true → ¬ EntryFails e.state r))) := by
  obtain ⟨irq, unmasked, balanced⟩ := balanced_of_reached unloaded outermost reached
  refine ⟨fun _ => balanced.hostKept unmasked, ?_⟩
  intro running r
  have step : executionStep vmcs e r =
      ⟨(cpuVmxIteration vmcs e.state r).1, (cpuVmxIteration vmcs e.state r).2⟩ := by
    rw [executionStep, running]
  rw [step]
  dsimp only
  rcases cpuVmxIteration_balanced vmcs balanced r with ⟨fails, ret, after⟩ | ⟨ok, irq', kept, after⟩
  · -- The call returns with interrupts masked.
    constructor
    · intro host on
      have left := (host (by simp [ret])).1 on
      simp [after.irq_eq] at left
    · intro never _
      exact after.hostKept fun on => absurd fails (never on)
  · exact ⟨fun _ _ => ok, fun _ _ => after.hostKept fun on => kept (unmasked on)⟩

end Iterations

/-! ### Runs -/

def plainMode : RootMode where
  cr4Vmxe := false
  vmxOn := false
  currentVmcs := none
  vmxe_of_on := nofun
  none_of_off := fun _ => rfl

/-- An iteration that ends with an exit to user space, if VM entry succeeds. -/
def plainRound (entry : VmxResult) : ExecRound where
  paused := false
  loading := ⟨plainMode, true⟩
  before := [⟨plainMode, true⟩]
  masked := [⟨plainMode, true⟩]
  failed := [⟨plainMode, true⟩]
  after := [⟨plainMode, true⟩]
  entry := entry
  handler := [.access ⟨plainMode, true⟩]
  ret := 0

def plainThread : ExecState := ⟨plainCpu false, false⟩

theorem plainRound_hostKept :
    HostKept plainThread.cpu
      (executionStep 7 ⟨none, plainThread⟩ (plainRound .succeed)).state.cpu :=
  ((cpuVmxExecute_hostKept_iff rfl rfl .init).2 rfl (plainRound .succeed)).mpr
    (by decide) (by decide)

theorem failedEntry_not_hostKept :
    (executionStep 7 ⟨none, plainThread⟩ (plainRound .failValid)).ret = some (-22) ∧
      plainThread.cpu.irq = true ∧
      (executionStep 7 ⟨none, plainThread⟩ (plainRound .failValid)).state.cpu.irq = false := by
  decide

end Haxm
