/-
# Pending interrupts

User space raises an external interrupt by `vcpu_interrupt`. Its vector waits in
the bitmap `intr_pending`, beside which `nr_pending_intrs` counts the bits, until
a VM entry finds the guest ready for it. The entry then takes the highest vector
out of the bitmap and puts it into the VM-entry word, the same word that
exceptions use. If the exit that follows says that the vector was not delivered,
it goes back into the bitmap.

The vector is a number below 256 in the bitmap and eight bits elsewhere.
-/

import Haxm.Lib.WordSet
import Haxm.Intr.Exception
import Haxm.Vcpu.Entry

namespace Haxm

open Lib

/-- The part of `vcpu_t` that interrupts pass through. -/
structure IntrVcpu where
  /-- The registers, with their dirty flags. -/
  regs : Vcpu
  event : EventVcpu := .init
  intrPending : ℕ → BitVec 32 := fun _ => 0
  nrPendingIntrs : BitVec 32 := 0
  /-- `vmx(vcpu, pcpu_ctls)`. -/
  pcpuCtls : BitVec 32
  pcpuCtlsBase : BitVec 32
  pcpuCtlsDirty : Bool := false
  /-- `VMX_PRIMARY_PROCESSOR_CONTROLS`. -/
  primaryControls : BitVec 32

def haxInvalidIntrVector : ℕ := 0x100

/-- `hax_valid_vector`. -/
def haxValidVector (vector : ℕ) : Bool := vector ≤ 0xff

def interruptWindowExiting : BitVec 32 := 1 <<< 2
def nmiWindowExiting : BitVec 32 := 1 <<< 22

/-- The bit of a vector in `intr_pending`. -/
def IntrVcpu.pending (c : IntrVcpu) (vector : BitVec 8) : Bool :=
  WordSet.test c.intrPending vector.toNat

/-- `vcpu_get_pending_intrs`. -/
def vcpuGetPendingIntrs (c : IntrVcpu) : ℕ :=
  if c.nrPendingIntrs = 0 then haxInvalidIntrVector
  else
    match WordSet.highest c.intrPending 8 with
    | none => haxInvalidIntrVector
    | some vector => vector % 256

/-- `hax_set_pending_intr`. -/
def haxSetPendingIntr (c : IntrVcpu) (vector : BitVec 8) : IntrVcpu :=
  if c.pending vector then c
  else
    { c with
      intrPending := WordSet.set c.intrPending vector.toNat
      nrPendingIntrs := c.nrPendingIntrs + 1 }

/-- `vcpu_ack_intr`. -/
def vcpuAckIntr (c : IntrVcpu) (vector : BitVec 8) : IntrVcpu :=
  { c with
    intrPending := WordSet.clear c.intrPending vector.toNat
    nrPendingIntrs := c.nrPendingIntrs - 1 }

/-- The word of an external interrupt. -/
def interruptWord (vector : BitVec 8) : BitVec 32 := intrInfoValidMask ||| vector.setWidth 32

/-- `hax_inject_intr`. -/
def haxInjectIntr (c : IntrVcpu) (vector : BitVec 8) : IntrVcpu :=
  let c := vcpuAckIntr c vector
  { c with event := { c.event with
      entry := { c.event.entry with interruptInfo := interruptWord vector }
      eventInjected := true } }

/-- `hax_enable_intr_window`. -/
def haxEnableIntrWindow (c : IntrVcpu) : IntrVcpu :=
  { c with
    pcpuCtls := c.pcpuCtls ||| interruptWindowExiting
    primaryControls := c.pcpuCtls ||| interruptWindowExiting }

/-- `hax_intr_is_blocked`. -/
def haxIntrIsBlocked (c : IntrVcpu) : Bool :=
  let blocking := guestIntrstatStiBlocking ||| guestIntrstatSsBlocking
  c.regs.state.rflags &&& eflagsIF == 0 || c.regs.interruptibility &&& blocking != 0

/-- `hax_handle_idt_vectoring`. -/
def haxHandleIdtVectoring (c : IntrVcpu) (idtVec : BitVec 32) : IntrVcpu :=
  if infoValid idtVec && infoType idtVec == typeInterrupt then
    haxSetPendingIntr c (infoVector idtVec)
  else c

/-- The first half of `vcpu_inject_intr`. -/
def injectPending (c : IntrVcpu) : IntrVcpu :=
  let vector := vcpuGetPendingIntrs c
  if haxValidVector vector && !c.event.eventInjected && !haxIntrIsBlocked c &&
      !infoValid c.event.entry.interruptInfo then
    haxInjectIntr c (BitVec.ofNat 8 vector)
  else c

/-- `vcpu_inject_intr`; `requestWindow` is `htun->request_interrupt_window`. -/
def vcpuInjectIntr (c : IntrVcpu) (requestWindow : Bool) : IntrVcpu :=
  let c := injectPending c
  if haxValidVector (vcpuGetPendingIntrs c) || requestWindow then haxEnableIntrWindow c else c

/-- The primary controls in `load_dirty_vmcs_fields`. -/
def loadPcpuCtls (c : IntrVcpu) : IntrVcpu :=
  { c with
    primaryControls := if c.pcpuCtlsDirty then c.pcpuCtls else c.primaryControls
    pcpuCtlsDirty := false }

/-- `cpu_vmx_execute` before it calls `vcpu_inject_intr`. -/
def intrReady (c : IntrVcpu) (cpu : ℕ) : IntrVcpu :=
  { c with regs := c.regs.loadVmcs cpu, event := vcpuHandleVmcsPending c.event }

/-- `cpu_vmx_execute` after that, up to the VM entry. -/
def enterGuest (phys : DebugRegs) (c : IntrVcpu) : IntrVcpu :=
  loadPcpuCtls { c with regs := (vmEntry phys c.regs).1 }

def intrEntry (c : IntrVcpu) (cpu : ℕ) (phys : DebugRegs) (requestWindow : Bool) : IntrVcpu :=
  enterGuest phys (vcpuInjectIntr (intrReady c cpu) requestWindow)

/-- `cpu_vmx_execute` from the VM exit to the handler. -/
def intrExit (info : VmxInfo) (c : IntrVcpu) (exit : VmExit) (idtVec instrLength : BitVec 32) :
    IntrVcpu :=
  haxHandleIdtVectoring
    { c with regs := vmExit info exit c.regs, event := c.event.vmExit idtVec instrLength } idtVec

/-- `exit_interrupt_window`, for both of its exit reasons. -/
def exitInterruptWindow (nmi : Bool) (c : IntrVcpu) : IntrVcpu :=
  { c with
    pcpuCtls := c.pcpuCtls &&& ~~~(if nmi then nmiWindowExiting else interruptWindowExiting)
    pcpuCtlsDirty := true }

/-- `vmwrite_cr`, as far as it sets the primary controls. -/
def resetPcpuCtls (c : IntrVcpu) : IntrVcpu :=
  if c.pcpuCtlsBase ≠ c.pcpuCtls then { c with pcpuCtls := c.pcpuCtlsBase, pcpuCtlsDirty := true }
  else c

/-! ## The bitmap and its counter -/

variable {c : IntrVcpu} {vector u : BitVec 8}

/-- The counter is the number of bits. -/
def IntrVcpu.Counted (c : IntrVcpu) : Prop :=
  c.nrPendingIntrs.toNat = (WordSet.members c.intrPending 256).card

theorem toNat_lt_vectors (vector : BitVec 8) : vector.toNat < 256 := vector.isLt

theorem pending_iff_mem : c.pending vector = true ↔
    vector.toNat ∈ WordSet.members c.intrPending 256 := by
  rw [WordSet.mem_members]
  exact ⟨fun h => ⟨vector.isLt, h⟩, And.right⟩

theorem pending_haxSetPendingIntr :
    (haxSetPendingIntr c vector).pending u = (decide (u = vector) || c.pending u) := by
  unfold haxSetPendingIntr
  split
  case isTrue old =>
    by_cases same : u = vector
    · simp [same, old]
    · simp [same]
  case isFalse =>
    show WordSet.test (WordSet.set c.intrPending vector.toNat) u.toNat = _
    rw [WordSet.test_set, IntrVcpu.pending]
    simp [BitVec.toNat_inj]

theorem Counted.haxSetPendingIntr (h : c.Counted) : (haxSetPendingIntr c vector).Counted := by
  unfold Haxm.haxSetPendingIntr
  split
  case isTrue => exact h
  case isFalse free =>
    have unset : WordSet.test c.intrPending vector.toNat = false := Bool.not_eq_true _ ▸ free
    have card := WordSet.card_set (toNat_lt_vectors vector) unset
    have bound : (WordSet.members c.intrPending 256).card ≤ 256 := WordSet.card_members_le
    unfold IntrVcpu.Counted at h ⊢
    rw [card, ← h, BitVec.toNat_add]
    exact Nat.mod_eq_of_lt (by simp; omega)

theorem pending_vcpuAckIntr :
    (vcpuAckIntr c vector).pending u = (decide (u ≠ vector) && c.pending u) := by
  show WordSet.test (WordSet.clear c.intrPending vector.toNat) u.toNat = _
  rw [WordSet.test_clear, IntrVcpu.pending]
  simp [BitVec.toNat_inj]

/-- The assertion of `vcpu_ack_intr` is what keeps the counter right. -/
theorem Counted.vcpuAckIntr (h : c.Counted) (used : c.pending vector = true) :
    (vcpuAckIntr c vector).Counted := by
  have card := WordSet.card_clear (toNat_lt_vectors vector) used
  unfold IntrVcpu.Counted Haxm.vcpuAckIntr at *
  dsimp only
  have one : (1 : BitVec 32) ≤ c.nrPendingIntrs := by
    rw [BitVec.le_def]
    simp
    omega
  rw [BitVec.toNat_sub_of_le one]
  simp
  omega

/-- Either nothing is pending, or the highest pending vector is found. -/
theorem vcpuGetPendingIntrs_cases (h : c.Counted) :
    (vcpuGetPendingIntrs c = haxInvalidIntrVector ∧ ∀ u, c.pending u = false) ∨
      ∃ vector : BitVec 8, vcpuGetPendingIntrs c = vector.toNat ∧ c.pending vector = true ∧
        ∀ u, c.pending u = true → u ≤ vector := by
  have empty : WordSet.members c.intrPending 256 = ∅ → ∀ u, c.pending u = false := by
    intro none u
    by_contra some
    have mem := pending_iff_mem.mp (Bool.not_eq_false _ ▸ some)
    simp [none] at mem
  unfold vcpuGetPendingIntrs
  split
  case isTrue zero =>
    refine .inl ⟨rfl, empty ?_⟩
    rw [← Finset.card_eq_zero, ← h, zero]
    rfl
  case isFalse =>
    cases found : WordSet.highest c.intrPending 8 with
    | none => exact .inl ⟨rfl, empty (WordSet.highest_eq_none found)⟩
    | some k =>
      obtain ⟨mem, max⟩ := WordSet.highest_eq_some found
      have small : k < 256 := (WordSet.mem_members.mp mem).1
      refine .inr ⟨BitVec.ofNat 8 k, ?_, ?_, ?_⟩
      · simp
      · rw [pending_iff_mem]
        simpa [Nat.mod_eq_of_lt small] using mem
      · intro u used
        rw [BitVec.le_def]
        simpa [Nat.mod_eq_of_lt small] using max _ (pending_iff_mem.mp used)

/-! ## The word of an interrupt -/

section

variable (vector)

@[simp] theorem infoValid_interruptWord : infoValid (interruptWord vector) = true := by
  have head : intrInfoValidMask.getLsbD 31 = true := by decide
  unfold infoValid interruptWord
  rw [BitVec.getLsbD_or, head, Bool.true_or]

@[simp] theorem infoType_interruptWord : infoType (interruptWord vector) = typeInterrupt :=
  (infoType_or_vector vector _).trans (by decide)

@[simp] theorem infoVector_interruptWord : infoVector (interruptWord vector) = vector :=
  infoVector_or_vector vector (by decide)

end

/-- A VM-entry word that delivers an external interrupt. -/
def IsInterrupt (w : BitVec 32) (vector : BitVec 8) : Prop :=
  infoValid w = true ∧ infoType w = typeInterrupt ∧ infoVector w = vector

instance (w : BitVec 32) (vector : BitVec 8) : Decidable (IsInterrupt w vector) :=
  inferInstanceAs (Decidable (_ ∧ _))

theorem isInterrupt_interruptWord : IsInterrupt (interruptWord vector) u ↔ u = vector := by
  simp [IsInterrupt, eq_comm]

/-- No external interrupt: the word is not valid, or it is an exception. -/
def NoInterrupt (w : BitVec 32) : Prop := infoValid w = true → infoType w = typeException

theorem NoInterrupt.not_isInterrupt {w : BitVec 32} (h : NoInterrupt w) :
    ¬ IsInterrupt w vector := by
  rintro ⟨valid, type, -⟩
  rw [h valid] at type
  exact absurd type (by decide)

/-! ## One call of `vcpu_inject_intr` -/

/-- What the first half does: nothing, or it moves the highest pending vector
from the bitmap to the VM-entry word. -/
theorem injectPending_cases (h : c.Counted) :
    injectPending c = c ∨
      ∃ vector : BitVec 8, injectPending c = haxInjectIntr c vector ∧ c.pending vector = true ∧
        (∀ u, c.pending u = true → u ≤ vector) ∧ haxIntrIsBlocked c = false ∧
        infoValid c.event.entry.interruptInfo = false := by
  unfold injectPending
  dsimp only
  split
  case isFalse => exact .inl rfl
  case isTrue ready =>
    simp only [Bool.and_eq_true, Bool.not_eq_true'] at ready
    obtain ⟨⟨⟨valid, -⟩, free⟩, invalid⟩ := ready
    rcases vcpuGetPendingIntrs_cases h with ⟨none, -⟩ | ⟨vector, found, used, max⟩
    · rw [none] at valid
      exact absurd valid (by decide)
    · refine .inr ⟨vector, ?_, used, max, free, invalid⟩
      rw [found, BitVec.ofNat_toNat, BitVec.setWidth_eq]

theorem Counted.injectPending (h : c.Counted) : (injectPending c).Counted := by
  rcases injectPending_cases h with same | ⟨vector, moved, used, -⟩
  · rw [same]
    exact h
  · rw [moved]
    exact Counted.vcpuAckIntr h used

/-- The second half touches only the controls. -/
theorem vcpuInjectIntr_eq (requestWindow : Bool) :
    vcpuInjectIntr c requestWindow = injectPending c ∨
      vcpuInjectIntr c requestWindow = haxEnableIntrWindow (injectPending c) := by
  unfold vcpuInjectIntr
  dsimp only
  split
  · exact .inr rfl
  · exact .inl rfl

/-- With a vector left in the bitmap the window is requested. -/
theorem vcpuInjectIntr_of_pending (h : c.Counted) {requestWindow : Bool}
    (left : (injectPending c).pending vector = true) :
    vcpuInjectIntr c requestWindow = haxEnableIntrWindow (injectPending c) := by
  unfold vcpuInjectIntr
  rcases vcpuGetPendingIntrs_cases (Counted.injectPending h) with ⟨-, none⟩ | ⟨found, is, -⟩
  · rw [none] at left
    cases left
  · have valid : haxValidVector found.toNat = true := by
      have := found.isLt
      unfold haxValidVector
      exact decide_eq_true (by omega)
    rw [if_pos (by rw [is, valid]; rfl)]

end Haxm
