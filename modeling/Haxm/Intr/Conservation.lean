/-
# Interrupts are neither lost nor duplicated

`vcpu_interrupt` may come at any time; VM entries and VM exits alternate, and
between an exit and the next entry the handlers and the other requests of user
space do what they like to the registers, raise exceptions and change the
primary controls. Of the processor it is assumed that every entry succeeds, that
the event of the VM-entry word is delivered by the entry or reported by the exit
that follows, and that the exit clears the valid bit of the word.

Every run is compared with an abstract mailbox (`Haxm.Lib.Mailbox`): the vectors
in the bitmap, together with the one that an entry has failed to deliver, are
exactly those that are owed to the guest.
-/

import Haxm.Lib.Mailbox
import Haxm.Intr.Pending

namespace Haxm

open Lib

/-! ## The flags that an entry looks at -/

def intrBlocking : BitVec 32 := guestIntrstatStiBlocking ||| guestIntrstatSsBlocking

/-- RFLAGS and the interruptibility state of the VMCS, together with the pending
writes, are those that `hax_intr_is_blocked` reads. -/
structure Vcpu.FlagsKept (v : Vcpu) : Prop where
  rflags : v.rflagsDirty = true ∨ v.vmcs.rflags = v.state.rflags
  interruptibility : v.interruptibilityDirty = true ∨ v.vmcs.interruptibility = v.interruptibility

section

variable {info : VmxInfo} {v : Vcpu} {sec : VmcsSection}

theorem Vcpu.FlagsKept.withVmcs {body : Vcpu → Vcpu} (h : v.FlagsKept)
    (keeps : ∀ w : Vcpu, w.FlagsKept → (body w).FlagsKept) : (v.withVmcs sec body).FlagsKept := by
  have inside := keeps (v.loadVmcs sec.cpu) { h with }
  unfold Vcpu.withVmcs
  dsimp only
  split
  · split
    · exact inside
    · exact { inside with }
  · exact { h with }

theorem Vcpu.FlagsKept.advanceRip (h : v.FlagsKept) (len : BitVec 64) :
    (advanceRip len v).FlagsKept := by
  refine ⟨h.rflags, ?_⟩
  unfold Haxm.advanceRip
  dsimp only
  split
  case isTrue blocked => exact .inl (decide_eq_true (.inr blocked))
  case isFalse free =>
    rcases h.interruptibility with dirty | synced
    · exact .inl (decide_eq_true (.inl dirty))
    · exact .inr synced

theorem Vcpu.FlagsKept.vcpuVmreadAll (h : v.FlagsKept) : (vcpuVmreadAll sec v).FlagsKept := by
  unfold Haxm.vcpuVmreadAll
  split
  · refine h.withVmcs fun w _ => ⟨?_, .inr rfl⟩
    by_cases dirty : w.rflagsDirty = true
    · exact .inl dirty
    · exact .inr (by simp [vmreadAllFields, dirty])
  · exact h

theorem Vcpu.FlagsKept.exitDrAccess (h : v.FlagsKept) (dreg : Fin 8) (toGpr : Bool) (gpr : Fin 16)
    (len : BitVec 64) : (exitDrAccess sec dreg toGpr gpr len v).FlagsKept := by
  unfold Haxm.exitDrAccess writeDr
  dsimp only
  split
  · exact Vcpu.FlagsKept.withVmcs { h with } fun w hw => { hw with }
  · repeat' split
    all_goals first | exact h | refine Vcpu.FlagsKept.advanceRip ?_ len
    all_goals exact { h with }

theorem Vcpu.FlagsKept.setRip (h : v.FlagsKept) (u : VcpuState) (rspDirty : Bool) :
    (setRip u rspDirty v).FlagsKept :=
  ⟨held_set h.rflags, h.interruptibility⟩

theorem Vcpu.FlagsKept.setRegs (h : v.FlagsKept) (u : VcpuState) :
    (vcpuSetRegs info sec u v).2.FlagsKept := by
  have gprs : (setGprs u v).FlagsKept := { h with }
  unfold vcpuSetRegs
  dsimp only
  refine gprs.withVmcs fun w hw => ?_
  have flags := hw.setRip u (v.state.rsp != u.rsp)
  unfold setDrs setCrs
  dsimp only
  repeat' split
  all_goals exact { flags with }

/-- What a handler or a request does, as opposed to running the guest. -/
def VcpuStep.Handler : VcpuStep → Prop
  | .round .. | .failedRound .. => False
  | _ => True

theorem Vcpu.FlagsKept.step (h : v.FlagsKept) {step : VcpuStep} (handler : step.Handler) :
    (vcpuStep info v step).FlagsKept := by
  cases step with
  | round | failedRound => exact handler.elim
  | refresh sec =>
    have stale : { v with curState := .stale }.FlagsKept := { h with }
    exact stale.vcpuVmreadAll
  | advanceRip len => exact h.advanceRip len
  | writeRflags val => exact ⟨.inl rfl, h.interruptibility⟩
  | crWrite sec cr val pdpt =>
    have written : (vcpuWriteCr cr val v).FlagsKept := by
      cases cr <;> exact { h with }
    unfold vcpuStep exitCrWrite
    dsimp only
    split
    · exact written.withVmcs fun w hw => { hw with }
    · exact { written with }
  | drAccess sec dreg toGpr gpr len => exact h.exitDrAccess dreg toGpr gpr len
  | gsBase sec val =>
    unfold vcpuStep writeGsBase
    exact h.withVmcs fun w hw => { hw with }
  | vmread sec => exact h.withVmcs fun w hw => hw
  | getRegs sec => exact h.vcpuVmreadAll
  | setRegs sec u => exact h.setRegs u
  | writeGpr | fsBase | debug => exact { h with }

/-- An exit reads both back. -/
theorem flagsKept_vmExit (exit : VmExit) (v : Vcpu) : (vmExit info exit v).FlagsKept :=
  ⟨.inr rfl, .inr rfl⟩

/-- Single-stepping does not touch IF. -/
theorem loadDebugControl_if (v : Vcpu) :
    (loadDebugControl v).state.rflags &&& eflagsIF = v.state.rflags &&& eflagsIF := by
  have set : eflagsTF &&& eflagsIF = 0#64 := by decide
  have clear : ~~~eflagsTF &&& eflagsIF = eflagsIF := by decide
  unfold loadDebugControl
  split
  · dsimp only
    split
    · rw [BitVec.and_or_distrib_right, set, BitVec.or_zero]
    · rw [BitVec.and_assoc, clear]
  · rfl

theorem Vcpu.FlagsKept.loadDebugControl (h : v.FlagsKept) : (loadDebugControl v).FlagsKept := by
  unfold Haxm.loadDebugControl
  split
  · exact ⟨.inl rfl, h.interruptibility⟩
  · exact h

/-- What `hax_intr_is_blocked` has seen is what the guest is entered with. -/
theorem Vcpu.FlagsKept.loadDirtyVmcsFields (h : v.FlagsKept)
    (enabled : v.state.rflags &&& eflagsIF ≠ 0) (free : v.interruptibility &&& intrBlocking = 0) :
    (loadDirtyVmcsFields v).vmcs.rflags &&& eflagsIF ≠ 0 ∧
      (loadDirtyVmcsFields v).vmcs.interruptibility &&& intrBlocking = 0 := by
  have kept := h.loadDebugControl
  have state : (Haxm.loadDebugControl v).state.rflags &&& eflagsIF ≠ 0 := by
    rwa [loadDebugControl_if]
  have raw : (Haxm.loadDebugControl v).interruptibility = v.interruptibility := by
    unfold Haxm.loadDebugControl
    split <;> rfl
  constructor
  · have rflags : (dirtyFields (Haxm.loadDebugControl v)).rflags = _ := held_load kept.rflags
    show (dirtyFields (Haxm.loadDebugControl v)).rflags &&& eflagsIF ≠ 0
    rwa [rflags]
  · unfold Haxm.loadDirtyVmcsFields loadInterruptibility
    dsimp only
    simp only [state, false_and, or_false, if_false, dirtyFields]
    rwa [held_load kept.interruptibility, raw]

theorem Vcpu.FlagsKept.vmEntry (h : v.FlagsKept) (phys : DebugRegs)
    (enabled : v.state.rflags &&& eflagsIF ≠ 0) (free : v.interruptibility &&& intrBlocking = 0) :
    (vmEntry phys v).1.vmcs.rflags &&& eflagsIF ≠ 0 ∧
      (vmEntry phys v).1.vmcs.interruptibility &&& intrBlocking = 0 := by
  unfold Haxm.vmEntry loadGuestDr
  split
  rename_i loaded
  split at loaded <;> cases loaded <;>
    exact Vcpu.FlagsKept.loadDirtyVmcsFields { h with } enabled free

end

/-! ## The system -/

/-- A virtual CPU, the processor that runs it, and what has happened so far. -/
structure IntrSystem where
  vcpu : IntrVcpu
  /-- The guest is running. -/
  running : Bool := false
  /-- The event of the entry was not delivered: the exit will report it. -/
  undelivered : Bool := false
  log : List (Mail (BitVec 8)) := []

def IntrSystem.entryWord (s : IntrSystem) : BitVec 32 := s.vcpu.event.entry.interruptInfo

inductive IntrStep
  /-- `vcpu_interrupt`. -/
  | interrupt (vector : BitVec 8)
  | entry (cpu : ℕ) (phys : DebugRegs) (requestWindow delivered : Bool)
  | exit (exit : VmExit) (idtVec instrLength : BitVec 32)
  /-- A handler or a request that touches the registers. -/
  | handler (step : VcpuStep)
  | exception (vector : BitVec 8) (errorCode : BitVec 32)
  | windowExit (nmi : Bool)
  | resetCtls

/-- The IDT-vectoring word reports the event of the VM-entry word. -/
def SameEvent (w idtVec : BitVec 32) : Prop :=
  infoValid idtVec = true ∧ infoType idtVec = infoType w ∧ infoVector idtVec = infoVector w

/-- When a step can be taken. External interrupts of the host make the guest
exit, so that no other external interrupt is ever reported. -/
def IntrStep.Allowed (s : IntrSystem) : IntrStep → Prop
  | .interrupt _ => True
  | .entry .. => s.running = false ∧ s.vcpu.regs.panicked = false
  | .exit _ idtVec _ =>
    s.running = true ∧
      if s.undelivered then SameEvent s.entryWord idtVec
      else ¬ (infoValid idtVec = true ∧ infoType idtVec = typeInterrupt)
  | .handler step => s.running = false ∧ step.Handler
  | .exception .. | .windowExit _ | .resetCtls => s.running = false

/-- The entry delivers an external interrupt. -/
def deliversInterrupt (w : BitVec 32) (delivered : Bool) : Bool :=
  infoValid w && infoType w == typeInterrupt && delivered

def intrStep (info : VmxInfo) (s : IntrSystem) : IntrStep → IntrSystem
  | .interrupt vector =>
    { s with vcpu := haxSetPendingIntr s.vcpu vector, log := .raised vector :: s.log }
  | .entry cpu phys requestWindow delivered =>
    let c := intrEntry s.vcpu cpu phys requestWindow
    let w := c.event.entry.interruptInfo
    { vcpu := c
      running := true
      undelivered := infoValid w && !delivered
      log := if deliversInterrupt w delivered then .taken (infoVector w) :: s.log else s.log }
  | .exit exit idtVec instrLength =>
    { s with
      vcpu := intrExit info s.vcpu exit idtVec instrLength
      running := false
      undelivered := false }
  | .handler step => { s with vcpu := { s.vcpu with regs := vcpuStep info s.vcpu.regs step } }
  | .exception vector errorCode =>
    { s with vcpu := { s.vcpu with event := haxInjectException s.vcpu.event vector errorCode } }
  | .windowExit nmi => { s with vcpu := exitInterruptWindow nmi s.vcpu }
  | .resetCtls => { s with vcpu := resetPcpuCtls s.vcpu }

/-- A new virtual CPU with the primary controls `ctls`. -/
def intrCreate (info : VmxInfo) (cpu : ℕ) (ctls : BitVec 32) : IntrSystem where
  vcpu :=
    { regs := vcpuCreate info cpu
      pcpuCtls := ctls
      pcpuCtlsBase := ctls
      primaryControls := ctls }

def IntrReached (info : VmxInfo) (cpu : ℕ) (ctls : BitVec 32) (s : IntrSystem) : Prop :=
  Reached (intrCreate info cpu ctls) (fun s step => step.Allowed s) (intrStep info) s

/-! ## What an entry does -/

variable {c : IntrVcpu} {vector u : BitVec 8}

/-- What is asked of a VM entry: it takes only the highest pending vector, only
if the guest is entered with interrupts enabled and not blocked, and if a vector
is left it asks for an exit as soon as one can be taken. -/
structure EntryOk (before after : IntrVcpu) : Prop where
  highest : ∀ vector, IsInterrupt after.event.entry.interruptInfo vector →
    before.pending vector = true ∧ ∀ u, before.pending u = true → u ≤ vector
  ready : ∀ vector, IsInterrupt after.event.entry.interruptInfo vector →
    after.regs.vmcs.rflags &&& eflagsIF ≠ 0 ∧
      after.regs.vmcs.interruptibility &&& intrBlocking = 0
  window : ∀ vector, after.pending vector = true →
    after.primaryControls &&& interruptWindowExiting ≠ 0

/-- The words that wait for the next entry, and the one in the VMCS, are no
external interrupts. -/
structure EventVcpu.Quiet (v : EventVcpu) : Prop where
  entry : NoInterrupt v.entry.interruptInfo
  deferred : v.vmcsPendingEntryIntrInfo = true → NoInterrupt v.entryIntrInfo

theorem noInterrupt_exceptionWord : NoInterrupt (exceptionWord vector) :=
  fun _ => infoType_exceptionWord vector

theorem noInterrupt_exceptionWord_deliver :
    NoInterrupt (exceptionWord vector ||| intrInfoDeliverMask) := by
  intro _
  rw [infoType_or_deliver, infoType_exceptionWord]

theorem EventVcpu.Quiet.injectEvent {v : EventVcpu} (h : v.Quiet) {word : BitVec 32}
    (quiet : NoInterrupt word) (code : Option (BitVec 32)) :
    (injectEvent v vector word code).Quiet := by
  unfold Haxm.injectEvent
  split
  · exact ⟨h.entry, fun _ => quiet⟩
  · exact ⟨quiet, h.deferred⟩

theorem EventVcpu.Quiet.haxInjectException {v : EventVcpu} (h : v.Quiet) (errorCode : BitVec 32) :
    (haxInjectException v vector errorCode).Quiet := by
  unfold Haxm.haxInjectException
  dsimp only
  split_ifs
  · exact h.injectEvent noInterrupt_exceptionWord_deliver none
  · exact h.injectEvent noInterrupt_exceptionWord none
  · exact h.injectEvent noInterrupt_exceptionWord_deliver (some errorCode)
  · exact h.injectEvent noInterrupt_exceptionWord none

theorem EventVcpu.Quiet.vcpuHandleVmcsPending {v : EventVcpu} (h : v.Quiet) :
    (vcpuHandleVmcsPending v).Quiet := by
  unfold Haxm.vcpuHandleVmcsPending
  split
  · refine ⟨?_, by simp⟩
    dsimp only
    split
    case isTrue waits => exact h.deferred waits
    case isFalse => exact h.entry
  · exact h

/-- What is left of `vcpu_inject_intr` when the guest is entered. -/
theorem intrEntry_event (cpu : ℕ) (phys : DebugRegs) (requestWindow : Bool) :
    (intrEntry c cpu phys requestWindow).event = (injectPending (intrReady c cpu)).event ∧
      (intrEntry c cpu phys requestWindow).intrPending =
        (injectPending (intrReady c cpu)).intrPending ∧
      (intrEntry c cpu phys requestWindow).nrPendingIntrs =
        (injectPending (intrReady c cpu)).nrPendingIntrs ∧
      (intrEntry c cpu phys requestWindow).regs =
        (vmEntry phys (injectPending (intrReady c cpu)).regs).1 := by
  unfold intrEntry
  rcases @vcpuInjectIntr_eq (intrReady c cpu) requestWindow with same | window
  · rw [same]
    exact ⟨rfl, rfl, rfl, rfl⟩
  · rw [window]
    exact ⟨rfl, rfl, rfl, rfl⟩

/-- An entry finds no interrupt to deliver, or it moves the highest pending
vector to the VM-entry word. -/
theorem intrEntry_cases (counted : c.Counted) (flags : c.regs.FlagsKept) (quiet : c.event.Quiet)
    (cpu : ℕ) (phys : DebugRegs) (requestWindow : Bool) :
    let d := intrEntry c cpu phys requestWindow
    (NoInterrupt d.event.entry.interruptInfo ∧ ∀ u, d.pending u = c.pending u) ∨
      ∃ vector, d.event.entry.interruptInfo = interruptWord vector ∧ c.pending vector = true ∧
        (∀ u, c.pending u = true → u ≤ vector) ∧
        (∀ u, d.pending u = (decide (u ≠ vector) && c.pending u)) ∧
        d.regs.vmcs.rflags &&& eflagsIF ≠ 0 ∧
        d.regs.vmcs.interruptibility &&& intrBlocking = 0 := by
  obtain ⟨event, bits, -, regs⟩ := @intrEntry_event c cpu phys requestWindow
  have ready : (intrReady c cpu).Counted := counted
  dsimp only [IntrVcpu.pending]
  rw [event, bits, regs]
  rcases injectPending_cases ready with same | ⟨vector, moved, used, max, free, -⟩
  · rw [same]
    exact .inl ⟨quiet.vcpuHandleVmcsPending.entry, fun _ => rfl⟩
  · right
    rw [moved]
    refine ⟨vector, rfl, used, max, fun _ => pending_vcpuAckIntr, ?_⟩
    -- `hax_intr_is_blocked` has read the copies
    simp only [haxIntrIsBlocked, Bool.or_eq_false_iff, beq_eq_false_iff_ne, bne_eq_false_iff_eq]
      at free
    have loaded : (c.regs.loadVmcs cpu).FlagsKept := { flags with }
    exact loaded.vmEntry phys free.1 free.2

theorem Counted.intrEntry (counted : c.Counted) (cpu : ℕ) (phys : DebugRegs)
    (requestWindow : Bool) : (intrEntry c cpu phys requestWindow).Counted := by
  obtain ⟨-, bits, number, -⟩ := @intrEntry_event c cpu phys requestWindow
  have ready : (intrReady c cpu).Counted := counted
  unfold IntrVcpu.Counted
  rw [bits, number]
  exact Counted.injectPending ready

/-- The window bit that `vcpu_inject_intr` has set is still set at the entry. -/
theorem intrEntry_window (counted : c.Counted) {cpu : ℕ} {phys : DebugRegs} {requestWindow : Bool}
    (left : (intrEntry c cpu phys requestWindow).pending vector = true) :
    (intrEntry c cpu phys requestWindow).primaryControls &&& interruptWindowExiting ≠ 0 := by
  obtain ⟨-, bits, -, -⟩ := @intrEntry_event c cpu phys requestWindow
  have ready : (intrReady c cpu).Counted := counted
  rw [IntrVcpu.pending, bits] at left
  have enabled : ∀ ctls : BitVec 32,
      (ctls ||| interruptWindowExiting) &&& interruptWindowExiting ≠ 0 := by
    intro ctls
    rw [BitVec.and_or_distrib_right, BitVec.and_self]
    intro zero
    have bit := congrArg (fun w => w.getLsbD 2) zero
    simp [interruptWindowExiting] at bit
  rw [intrEntry, vcpuInjectIntr_of_pending ready left]
  unfold enterGuest loadPcpuCtls haxEnableIntrWindow
  dsimp only
  split <;> exact enabled _

theorem entryOk_intrEntry (counted : c.Counted) (flags : c.regs.FlagsKept)
    (quiet : c.event.Quiet) (cpu : ℕ) (phys : DebugRegs) (requestWindow : Bool) :
    EntryOk c (intrEntry c cpu phys requestWindow) := by
  have cases := intrEntry_cases counted flags quiet cpu phys requestWindow
  dsimp only at cases
  refine ⟨?_, ?_, fun vector => intrEntry_window counted⟩
  · intro u is
    rcases cases with ⟨none, -⟩ | ⟨vector, word, used, max, -⟩
    · exact absurd is none.not_isInterrupt
    · rw [word, isInterrupt_interruptWord] at is
      exact is ▸ ⟨used, max⟩
  · intro u is
    rcases cases with ⟨none, -⟩ | ⟨vector, -, -, -, -, enabled, free⟩
    · exact absurd is none.not_isInterrupt
    · exact ⟨enabled, free⟩

/-! ## The invariant -/

/-- The vectors that are on their way: those in the bitmap, and the one that the
last entry has not delivered. -/
def IntrSystem.Held (s : IntrSystem) (vector : BitVec 8) : Prop :=
  s.vcpu.pending vector = true ∨ (s.undelivered = true ∧ IsInterrupt s.entryWord vector)

structure IntrSystem.Ok (s : IntrSystem) : Prop where
  counted : s.vcpu.Counted
  flags : s.running = false → s.vcpu.regs.FlagsKept
  deferred : s.vcpu.event.vmcsPendingEntryIntrInfo = true → NoInterrupt s.vcpu.event.entryIntrInfo
  outside : s.running = false → NoInterrupt s.entryWord ∧ s.undelivered = false
  reported : s.undelivered = true → infoValid s.entryWord = true
  held : ∀ vector, s.Held vector ↔ Mail.owed vector s.log = true
  honest : Mail.Honest s.log

variable {info : VmxInfo} {s : IntrSystem}

theorem IntrSystem.Ok.quiet (h : s.Ok) (outside : s.running = false) : s.vcpu.event.Quiet :=
  ⟨(h.outside outside).1, h.deferred⟩

/-- Outside of the guest only the bitmap holds vectors. -/
theorem IntrSystem.Ok.pending_iff (h : s.Ok) (outside : s.running = false) (vector : BitVec 8) :
    s.vcpu.pending vector = true ↔ Mail.owed vector s.log = true := by
  rw [← h.held vector, IntrSystem.Held, (h.outside outside).2]
  simp

/-- Only the bitmap and its counter change. -/
theorem haxSetPendingIntr_eq (c : IntrVcpu) (vector : BitVec 8) : ∃ bits number,
    haxSetPendingIntr c vector = { c with intrPending := bits, nrPendingIntrs := number } := by
  unfold haxSetPendingIntr
  split <;> exact ⟨_, _, rfl⟩

theorem IntrSystem.Ok.interrupt (h : s.Ok) (vector : BitVec 8) :
    (intrStep info s (.interrupt vector)).Ok := by
  have counted : (haxSetPendingIntr s.vcpu vector).Counted := Counted.haxSetPendingIntr h.counted
  have pending (u : BitVec 8) := @pending_haxSetPendingIntr s.vcpu vector u
  dsimp only [intrStep]
  obtain ⟨bits, number, eq⟩ := haxSetPendingIntr_eq s.vcpu vector
  rw [eq] at counted pending ⊢
  exact
    { h with
      counted := counted
      held := by
        intro u
        have old := h.held u
        unfold IntrSystem.Held at old ⊢
        rw [pending, Mail.owed, Bool.or_eq_true, Bool.or_eq_true, ← old, or_assoc]
        rfl
      honest := .raised vector h.honest }

/-- An entry writes every field that was put off. -/
theorem intrEntry_settled (cpu : ℕ) (phys : DebugRegs) (requestWindow : Bool) :
    (intrEntry c cpu phys requestWindow).event.vmcsPendingEntryIntrInfo = false := by
  have settled := (settled_vcpuHandleVmcsPending c.event).flags.2.2
  rw [(@intrEntry_event c cpu phys requestWindow).1]
  unfold injectPending
  dsimp only
  split <;> exact settled

theorem NoInterrupt.deliversInterrupt {w : BitVec 32} (h : NoInterrupt w) (delivered : Bool) :
    deliversInterrupt w delivered = false := by
  unfold Haxm.deliversInterrupt
  by_cases valid : infoValid w = true
  · rw [h valid]
    simp [typeException, typeInterrupt]
  · simp [valid]

theorem deliversInterrupt_interruptWord (delivered : Bool) :
    deliversInterrupt (interruptWord vector) delivered = delivered := by
  simp [deliversInterrupt]

/-- An entry takes a vector that it delivers out of the mailbox; one that it does
not deliver stays in it. -/
theorem IntrSystem.Ok.entry_log (h : s.Ok) (outside : s.running = false) {cpu : ℕ}
    {phys : DebugRegs} {requestWindow delivered : Bool} {s' : IntrSystem}
    (step : s' = intrStep info s (.entry cpu phys requestWindow delivered)) :
    (∀ u, s'.Held u ↔ Mail.owed u s'.log = true) ∧ Mail.Honest s'.log := by
  have cases := intrEntry_cases h.counted (h.flags outside) (h.quiet outside) cpu phys
    requestWindow
  dsimp only at cases
  subst step
  unfold IntrSystem.Held IntrSystem.entryWord
  dsimp only [intrStep]
  rcases cases with ⟨none, bits⟩ | ⟨vector, word, used, -, bits, -⟩
  · rw [none.deliversInterrupt]
    refine ⟨fun u => ?_, h.honest⟩
    rw [bits, if_neg (by decide), ← h.pending_iff outside u]
    simp [none.not_isInterrupt]
  · rw [word, deliversInterrupt_interruptWord, infoVector_interruptWord, infoValid_interruptWord]
    have owed := (h.pending_iff outside vector).mp used
    cases delivered with
    | true =>
      refine ⟨fun u => ?_, .taken owed h.honest⟩
      rw [bits, if_pos rfl, Mail.owed, Bool.and_eq_true, Bool.and_eq_true,
        h.pending_iff outside u]
      simp
    | false =>
      refine ⟨fun u => ?_, h.honest⟩
      rw [bits, if_neg (by decide), ← h.pending_iff outside u, isInterrupt_interruptWord]
      by_cases same : u = vector
      · simp [same, used]
      · simp [same]

theorem IntrSystem.Ok.entry (h : s.Ok) (outside : s.running = false) (cpu : ℕ) (phys : DebugRegs)
    (requestWindow delivered : Bool) :
    (intrStep info s (.entry cpu phys requestWindow delivered)).Ok where
  counted := Counted.intrEntry h.counted cpu phys requestWindow
  flags := by simp [intrStep]
  deferred := by
    intro waits
    have none := @intrEntry_settled s.vcpu cpu phys requestWindow
    exact absurd (none.symm.trans waits) (by decide)
  outside := by simp [intrStep]
  reported := by
    intro undelivered
    exact (Bool.and_eq_true_iff.mp undelivered).1
  held := (h.entry_log outside rfl).1
  honest := (h.entry_log outside rfl).2

/-- What an exit reports goes back into the bitmap. -/
theorem pending_intrExit (exit : VmExit) (idtVec instrLength : BitVec 32) :
    (intrExit info c exit idtVec instrLength).pending u = true ↔
      IsInterrupt idtVec u ∨ c.pending u = true := by
  unfold intrExit haxHandleIdtVectoring IsInterrupt
  split
  case isTrue reported =>
    simp only [Bool.and_eq_true, beq_iff_eq] at reported
    rw [pending_haxSetPendingIntr, Bool.or_eq_true, decide_eq_true_eq]
    simp only [reported, true_and, eq_comm]
    rfl
  case isFalse other =>
    simp only [Bool.and_eq_true, beq_iff_eq] at other
    constructor
    · exact .inr
    · rintro (⟨valid, type, -⟩ | old)
      · exact absurd ⟨valid, type⟩ other
      · exact old

theorem intrExit_eq (exit : VmExit) (idtVec instrLength : BitVec 32) : ∃ bits number,
    intrExit info c exit idtVec instrLength =
      { c with
        regs := vmExit info exit c.regs, event := c.event.vmExit idtVec instrLength
        intrPending := bits, nrPendingIntrs := number } := by
  unfold intrExit haxHandleIdtVectoring
  split
  · obtain ⟨bits, number, eq⟩ := haxSetPendingIntr_eq { c with
      regs := vmExit info exit c.regs, event := c.event.vmExit idtVec instrLength }
      (infoVector idtVec)
    exact ⟨bits, number, eq⟩
  · exact ⟨_, _, rfl⟩

theorem Counted.intrExit (h : c.Counted) (exit : VmExit) (idtVec instrLength : BitVec 32) :
    (intrExit info c exit idtVec instrLength).Counted := by
  unfold Haxm.intrExit haxHandleIdtVectoring
  split
  · exact Counted.haxSetPendingIntr h
  · exact h

/-- The exit leaves no valid VM-entry word. -/
theorem noInterrupt_vmExit (v : EventVcpu) (idtVec instrLength : BitVec 32) :
    NoInterrupt (v.vmExit idtVec instrLength).entry.interruptInfo := by
  intro valid
  have mask : (~~~intrInfoValidMask).getLsbD 31 = false := by decide
  rw [infoValid, EventVcpu.vmExit, BitVec.getLsbD_and, mask, Bool.and_false] at valid
  cases valid

theorem IntrSystem.Ok.exit (h : s.Ok) {exit : VmExit} {idtVec instrLength : BitVec 32}
    (allowed : IntrStep.Allowed s (.exit exit idtVec instrLength)) :
    (intrStep info s (.exit exit idtVec instrLength)).Ok := by
  -- the exit reports exactly the interrupt that was not delivered
  have reports : ∀ u, IsInterrupt idtVec u ↔
      s.undelivered = true ∧ IsInterrupt s.entryWord u := by
    intro u
    have report := allowed.2
    split at report
    case isTrue undelivered =>
      obtain ⟨valid, type, vector⟩ := report
      simp only [IsInterrupt, valid, type, vector, undelivered, h.reported undelivered, true_and]
    case isFalse delivered =>
      constructor
      · rintro ⟨valid, type, -⟩
        exact absurd ⟨valid, type⟩ report
      · rintro ⟨undelivered, -⟩
        exact absurd undelivered delivered
  have counted := @Counted.intrExit s.vcpu info h.counted exit idtVec instrLength
  have pending (u : BitVec 8) := @pending_intrExit s.vcpu u info exit idtVec instrLength
  dsimp only [intrStep]
  obtain ⟨bits, number, eq⟩ := @intrExit_eq s.vcpu info exit idtVec instrLength
  rw [eq] at counted pending ⊢
  exact
    { h with
      counted := counted
      flags := fun _ => flagsKept_vmExit exit s.vcpu.regs
      outside := fun _ => ⟨noInterrupt_vmExit _ _ _, rfl⟩
      reported := (Bool.noConfusion ·)
      held := by
        intro u
        rw [← h.held u, IntrSystem.Held, pending, reports u, IntrSystem.Held]
        simp [or_comm] }

/-- Between an exit and an entry nothing touches the bitmap, and only exceptions
get into the words. -/
theorem IntrSystem.Ok.between (h : s.Ok) (outside : s.running = false) {d : IntrVcpu}
    (bits : d.intrPending = s.vcpu.intrPending) (number : d.nrPendingIntrs = s.vcpu.nrPendingIntrs)
    (flags : d.regs.FlagsKept) (quiet : d.event.Quiet) : { s with vcpu := d }.Ok where
  counted := by
    have counted := h.counted
    unfold IntrVcpu.Counted at counted ⊢
    rw [bits, number]
    exact counted
  flags := fun _ => flags
  deferred := quiet.deferred
  outside := fun _ => ⟨quiet.entry, (h.outside outside).2⟩
  reported := by simp [(h.outside outside).2]
  held := by
    intro u
    rw [← h.pending_iff outside u, IntrSystem.Held, IntrVcpu.pending, bits]
    simp [(h.outside outside).2, IntrVcpu.pending]
  honest := h.honest

theorem IntrSystem.Ok.step (h : s.Ok) {step : IntrStep} (allowed : step.Allowed s) :
    (intrStep info s step).Ok := by
  cases step with
  | interrupt vector => exact h.interrupt vector
  | entry cpu phys requestWindow delivered =>
    exact h.entry allowed.1 cpu phys requestWindow delivered
  | exit exit idtVec instrLength => exact h.exit allowed
  | handler step =>
    exact h.between allowed.1 rfl rfl ((h.flags allowed.1).step allowed.2) (h.quiet allowed.1)
  | exception vector errorCode =>
    exact h.between allowed rfl rfl (h.flags allowed)
      ((h.quiet allowed).haxInjectException errorCode)
  | windowExit nmi => exact h.between allowed rfl rfl (h.flags allowed) (h.quiet allowed)
  | resetCtls =>
    unfold intrStep resetPcpuCtls
    dsimp only
    split <;> exact h.between allowed rfl rfl (h.flags allowed) (h.quiet allowed)

theorem intrCreate_ok (info : VmxInfo) (cpu : ℕ) (ctls : BitVec 32) :
    (intrCreate info cpu ctls).Ok where
  counted := by
    have empty : WordSet.members (fun _ => (0 : BitVec 32)) 256 = ∅ := by
      simp [WordSet.members, WordSet.test]
    show (0 : BitVec 32).toNat = (WordSet.members (fun _ => (0 : BitVec 32)) 256).card
    rw [empty]
    rfl
  flags := fun _ => ⟨.inr rfl, .inr rfl⟩
  deferred := (Bool.noConfusion ·)
  outside := by
    intro _
    have quiet : NoInterrupt 0 := fun valid => absurd valid (by decide)
    exact ⟨quiet, rfl⟩
  reported := (Bool.noConfusion ·)
  held := by
    intro u
    simp [IntrSystem.Held, intrCreate, IntrVcpu.pending, WordSet.test, Mail.owed]
  honest := .nil

/-! ## The result -/

/-- Interrupts are neither lost nor duplicated: the counter counts the bits of
the bitmap; a vector that was raised and not delivered since is in the bitmap or
in a valid VM-entry word; between two raises it is delivered at most once; and
every entry that can follow is as it should be. -/
structure IntrSystem.Conserved (s : IntrSystem) : Prop where
  counted : s.vcpu.nrPendingIntrs.toNat = (WordSet.members s.vcpu.intrPending 256).card
  kept : ∀ vector, Mail.owed vector s.log = true →
    s.vcpu.pending vector = true ∨ IsInterrupt s.entryWord vector
  once : ∀ vector, Mail.takenSince vector s.log ≤ 1
  entry : s.running = false → ∀ cpu phys requestWindow,
    EntryOk s.vcpu (intrEntry s.vcpu cpu phys requestWindow)

theorem intrReached_conserved {cpu : ℕ} {ctls : BitVec 32} (h : IntrReached info cpu ctls s) :
    s.Conserved := by
  have ok : s.Ok := h.invariant (intrCreate_ok info cpu ctls) fun _ _ ok allowed => ok.step allowed
  exact
    { counted := ok.counted
      kept := by
        intro vector owed
        rcases (ok.held vector).mpr owed with pending | ⟨-, word⟩
        · exact .inl pending
        · exact .inr word
      once := ok.honest.takenSince_le
      entry := fun outside cpu phys requestWindow =>
        entryOk_intrEntry ok.counted (ok.flags outside) (ok.quiet outside) cpu phys requestWindow }

/-- A new virtual CPU enables interrupts and is entered with vector 32 pending. -/
def interruptedRun : IntrSystem :=
  let raised := intrStep plainInfo (intrCreate plainInfo 0 0) (.interrupt 32)
  let enabled := intrStep plainInfo raised (.handler (.writeRflags 0x202))
  intrStep plainInfo enabled (.entry 0 ⟨fun _ => 0, 0, 0⟩ false true)

theorem interruptedRun_reached : IntrReached plainInfo 0 0 interruptedRun := by
  unfold IntrReached interruptedRun
  refine Reached.step (Reached.step (Reached.step Reached.init ?_) ?_) ?_
  · exact trivial
  · exact ⟨rfl, trivial⟩
  · exact ⟨rfl, rfl⟩

theorem interruptedRun_conserved :
    IntrReached plainInfo 0 0 interruptedRun ∧ interruptedRun.Conserved ∧
      interruptedRun.log = [.taken 32, .raised 32] :=
  ⟨interruptedRun_reached, intrReached_conserved interruptedRun_reached, by decide⟩

end Haxm
