/-
# Injected exceptions

An exception that a handler raises in the guest becomes the event of the next
VM entry: an interruption word, an error code and an instruction length in the
VMCS. They get there by two routes. A page fault is raised where the VMCS may
not be loaded, so its fields wait in `vcpu_t` for `vcpu_handle_vmcs_pending`;
every other exception is written at once.

The event is wrong in two ways when the exit itself came during the delivery of
another event. The error code of the new exception is dropped, and a double
fault is delivered with whatever the error code field of the VMCS held before.
-/

import Haxm.Lib.Bits

namespace Haxm

open Lib

/-! ## Interruption words -/

/-- The fields of `interruption_info_t`, the format of the VM-entry word and of
the IDT-vectoring word. -/
def infoVector (w : BitVec 32) : BitVec 8 := w.extractLsb' 0 8
def infoType (w : BitVec 32) : BitVec 3 := w.extractLsb' 8 3
def infoDeliver (w : BitVec 32) : Bool := w.getLsbD 11
def infoValid (w : BitVec 32) : Bool := w.getLsbD 31

/-- The event types `INTERRUPT` and `EXCEPTION`. -/
def typeInterrupt : BitVec 3 := 0
def typeException : BitVec 3 := 3

def intrInfoValidMask : BitVec 32 := 1 <<< 31
def intrInfoVectorMask : BitVec 32 := 0xff
def intrInfoDeliverMask : BitVec 32 := 1 <<< 11

theorem and_validMask_ne_zero (w : BitVec 32) :
    w &&& intrInfoValidMask ≠ 0 ↔ infoValid w = true := by
  have mask : IsMask intrInfoValidMask 31 1 := isMask_of_eq (by decide)
  rw [← bne_iff_ne, mask.and_bne_zero, anyBit_one]
  rfl

theorem setWidth_and_vectorMask (w : BitVec 32) :
    (w &&& intrInfoVectorMask).setWidth 8 = infoVector w := by
  have mask : IsMask intrInfoVectorMask 0 8 := isMask_of_eq (by decide)
  have field := mask.and_ushiftRight w
  rw [BitVec.ushiftRight_zero] at field
  rw [field]
  simp [infoVector]

/-- The word of a hardware exception without an error code. -/
def exceptionWord (vector : BitVec 8) : BitVec 32 :=
  intrInfoValidMask ||| (typeException.setWidth 32 <<< 8) ||| vector.setWidth 32

section

variable (vector : BitVec 8)

/-- The vector is put into a word that has none yet, and changes no other field. -/
theorem infoVector_or_vector {w : BitVec 32} (none : infoVector w = 0#8) :
    infoVector (w ||| vector.setWidth 32) = vector := by
  have tail : (vector.setWidth 32).extractLsb' 0 8 = vector := by
    apply BitVec.eq_of_getLsbD_eq
    intro i hi
    have small : i < 32 := by omega
    simp [hi, small]
  unfold infoVector at none ⊢
  rw [BitVec.extractLsb'_or, none, tail, BitVec.zero_or]

theorem infoType_or_vector (w : BitVec 32) : infoType (w ||| vector.setWidth 32) = infoType w := by
  have tail : (vector.setWidth 32).extractLsb' 8 3 = 0#3 := by
    apply BitVec.eq_of_getLsbD_eq
    intro i _
    simp
  unfold infoType
  rw [BitVec.extractLsb'_or, tail, BitVec.or_zero]

@[simp] theorem infoVector_exceptionWord : infoVector (exceptionWord vector) = vector :=
  infoVector_or_vector vector (by decide)

@[simp] theorem infoType_exceptionWord : infoType (exceptionWord vector) = typeException :=
  (infoType_or_vector vector _).trans (by decide)

/-- Above the vector and the type the word has only its valid bit. -/
theorem getLsbD_exceptionWord {i : ℕ} (hi : 11 ≤ i) :
    (exceptionWord vector).getLsbD i = decide (i = 31) := by
  have head : (intrInfoValidMask ||| (typeException.setWidth 32 <<< 8)) >>> 11 = 1 <<< 20 := by
    decide
  have bit := congrArg (fun w => w.getLsbD (i - 11)) head
  simp only [BitVec.getLsbD_ushiftRight, Nat.add_sub_cancel' hi] at bit
  unfold exceptionWord
  rw [BitVec.getLsbD_or, bit]
  have one : (1 <<< 20 : BitVec 32) = BitVec.twoPow 32 20 := by decide
  rw [one, BitVec.getLsbD_twoPow]
  have small : (vector.setWidth 32).getLsbD i = false := by
    rw [BitVec.getLsbD_setWidth, BitVec.getLsbD_of_ge vector i (by omega), Bool.and_false]
  rw [small]
  by_cases h : i = 31
  · simp [h]
  · have : 20 ≠ i - 11 := by omega
    simp [h, this]

@[simp] theorem infoValid_exceptionWord : infoValid (exceptionWord vector) = true :=
  getLsbD_exceptionWord vector (by decide)

@[simp] theorem infoDeliver_exceptionWord : infoDeliver (exceptionWord vector) = false :=
  getLsbD_exceptionWord vector (by decide)

end

section

variable (w : BitVec 32)

/-- Setting the deliver bit changes no other field. -/
@[simp] theorem infoVector_or_deliver : infoVector (w ||| intrInfoDeliverMask) = infoVector w := by
  have mask : intrInfoDeliverMask.extractLsb' 0 8 = 0#8 := by decide
  unfold infoVector
  rw [BitVec.extractLsb'_or, mask, BitVec.or_zero]

@[simp] theorem infoType_or_deliver : infoType (w ||| intrInfoDeliverMask) = infoType w := by
  have mask : intrInfoDeliverMask.extractLsb' 8 3 = 0#3 := by decide
  unfold infoType
  rw [BitVec.extractLsb'_or, mask, BitVec.or_zero]

@[simp] theorem infoValid_or_deliver : infoValid (w ||| intrInfoDeliverMask) = infoValid w := by
  have mask : intrInfoDeliverMask.getLsbD 31 = false := by decide
  unfold infoValid
  rw [BitVec.getLsbD_or, mask, Bool.or_false]

@[simp] theorem infoDeliver_or_deliver : infoDeliver (w ||| intrInfoDeliverMask) = true := by
  have mask : intrInfoDeliverMask.getLsbD 11 = true := by decide
  unfold infoDeliver
  rw [BitVec.getLsbD_or, mask, Bool.or_true]

end

/-! ## The code -/

/-- The VM-entry fields of the VMCS. -/
structure EntryFields where
  interruptInfo : BitVec 32 := 0
  exceptionErrorCode : BitVec 32 := 0
  instructionLength : BitVec 32 := 0
  deriving DecidableEq, Repr

/-- The part of `vcpu_t` that events pass through. A field waits to be written
only while `vmcs_pending` says that some field does. -/
structure EventVcpu where
  entry : EntryFields := {}
  vmcsPending : Bool := false
  vmcsPendingEntryErrorCode : Bool := false
  vmcsPendingEntryInstrLength : Bool := false
  vmcsPendingEntryIntrInfo : Bool := false
  entryExceptionErrorCode : BitVec 32 := 0
  entryInstrLength : BitVec 32 := 0
  entryIntrInfo : BitVec 32 := 0
  exitIdtVectoring : BitVec 32 := 0
  exitInstrLength : BitVec 32 := 0
  eventInjected : Bool := false
  waiting : vmcsPendingEntryErrorCode = true ∨ vmcsPendingEntryInstrLength = true ∨
    vmcsPendingEntryIntrInfo = true → vmcsPending = true := by simp

/-- Before the first event. -/
def EventVcpu.init : EventVcpu := {}

def noErrorCode : BitVec 32 := ~~~0
def vectorDF : BitVec 8 := 8
def vectorPF : BitVec 8 := 14

/-- `1u << n`; the processor takes the count modulo 32. -/
def excBit (n : BitVec 8) : BitVec 32 := 1 <<< (n.toNat % 32)

def excBitmap1 : BitVec 32 := 0x7c01
def excBitmap2 : BitVec 32 := 0x3c01

/-- `is_double_fault`. -/
def isDoubleFault (firstVec secondVec : BitVec 8) : Bool :=
  -- `is_extern_interrupt`
  if firstVec > 31 then false
  else
    (firstVec == vectorPF && excBitmap1 &&& excBit secondVec != 0) ||
      (excBitmap2 &&& excBit firstVec != 0 && excBitmap2 &&& excBit secondVec != 0)

/-- The end of `hax_inject_exception`: the word, the instruction length and, if
there is one, the error code go to the VMCS or wait for the next entry. -/
def injectEvent (v : EventVcpu) (vector : BitVec 8) (intrInfo : BitVec 32)
    (errorCode : Option (BitVec 32)) : EventVcpu :=
  if vector = vectorPF then
    { v with
      vmcsPendingEntryErrorCode := v.vmcsPendingEntryErrorCode || errorCode.isSome
      entryExceptionErrorCode := errorCode.getD v.entryExceptionErrorCode
      vmcsPendingEntryInstrLength := true
      entryInstrLength := v.exitInstrLength
      vmcsPendingEntryIntrInfo := true
      entryIntrInfo := intrInfo
      vmcsPending := true
      eventInjected := true
      waiting := fun _ => rfl }
  else
    { v with
      entry :=
        { interruptInfo := intrInfo
          exceptionErrorCode := errorCode.getD v.entry.exceptionErrorCode
          instructionLength := v.exitInstrLength }
      eventInjected := true }

/-- `hax_inject_exception`. -/
def haxInjectException (v : EventVcpu) (vector : BitVec 8) (errorCode : BitVec 32) : EventVcpu :=
  let vectInfo := v.exitIdtVectoring
  let firstVec := (vectInfo &&& intrInfoVectorMask).setWidth 8
  if vectInfo &&& intrInfoValidMask ≠ 0 then
    if isDoubleFault firstVec vector then
      -- `error_code = 0` stays a local variable: no field is written
      injectEvent v vector (exceptionWord vectorDF ||| intrInfoDeliverMask) none
    else injectEvent v vector (exceptionWord vector) none
  else if errorCode ≠ noErrorCode then
    injectEvent v vector (exceptionWord vector ||| intrInfoDeliverMask) (some errorCode)
  else injectEvent v vector (exceptionWord vector) none

/-- `vcpu_handle_vmcs_pending`. -/
def vcpuHandleVmcsPending (v : EventVcpu) : EventVcpu :=
  if v.vmcsPending then
    { v with
      entry :=
        { interruptInfo :=
            if v.vmcsPendingEntryIntrInfo then v.entryIntrInfo else v.entry.interruptInfo
          exceptionErrorCode :=
            if v.vmcsPendingEntryErrorCode then v.entryExceptionErrorCode
            else v.entry.exceptionErrorCode
          instructionLength :=
            if v.vmcsPendingEntryInstrLength then v.entryInstrLength
            else v.entry.instructionLength }
      vmcsPendingEntryErrorCode := false
      vmcsPendingEntryInstrLength := false
      vmcsPendingEntryIntrInfo := false
      vmcsPending := false
      waiting := by simp }
  else v

/-- A VM exit: the processor clears the valid bit of the entry word, and
`cpu_vmx_execute` reads how the exit came about. `vcpu_vmexit_handler` starts
with no event. -/
def EventVcpu.vmExit (v : EventVcpu) (idtVectoring instrLength : BitVec 32) : EventVcpu :=
  { v with
    entry := { v.entry with interruptInfo := v.entry.interruptInfo &&& ~~~intrInfoValidMask }
    exitIdtVectoring := idtVectoring
    exitInstrLength := instrLength
    eventInjected := false }

/-! ## What a VM entry finds -/

/-- Nothing waits to be written. -/
def EventVcpu.Settled (v : EventVcpu) : Prop := v.vmcsPending = false

variable {v : EventVcpu}

theorem EventVcpu.Settled.flags (h : v.Settled) :
    v.vmcsPendingEntryErrorCode = false ∧ v.vmcsPendingEntryInstrLength = false ∧
      v.vmcsPendingEntryIntrInfo = false := by
  have none := mt v.waiting (by rw [h]; decide)
  simpa [not_or] using none

/-- An entry leaves nothing waiting, and neither does the exit that follows. -/
theorem settled_vcpuHandleVmcsPending (v : EventVcpu) : (vcpuHandleVmcsPending v).Settled := by
  unfold vcpuHandleVmcsPending EventVcpu.Settled
  split
  case isTrue => rfl
  case isFalse none => exact Bool.not_eq_true _ ▸ none

theorem EventVcpu.Settled.vmExit (h : v.Settled) (idtVectoring instrLength : BitVec 32) :
    (v.vmExit idtVectoring instrLength).Settled := h

/-- By either route the fields are in the VMCS at the next entry. -/
theorem EventVcpu.Settled.entry_injectEvent (h : v.Settled) (vector : BitVec 8) (word : BitVec 32)
    (code : Option (BitVec 32)) :
    (vcpuHandleVmcsPending (injectEvent v vector word code)).entry =
      { interruptInfo := word
        exceptionErrorCode := code.getD v.entry.exceptionErrorCode
        instructionLength := v.exitInstrLength } := by
  obtain ⟨noCode, -, -⟩ := h.flags
  by_cases page : vector = vectorPF
  · cases code <;> simp [injectEvent, vcpuHandleVmcsPending, page, noCode]
  · have settled : v.vmcsPending = false := h
    simp [injectEvent, vcpuHandleVmcsPending, page, settled]

/-! ## What the architecture asks for -/

/-- The contributory exceptions: #DE, #TS, #NP, #SS and #GP. -/
def Contributory (vector : BitVec 8) : Prop := vector ∈ [0, 10, 11, 12, 13]

/-- Two exceptions that make a double fault. -/
def Escalates (first second : BitVec 8) : Prop :=
  (Contributory first ∧ Contributory second) ∨
    (first = vectorPF ∧ (Contributory second ∨ second = vectorPF))

instance (vector : BitVec 8) : Decidable (Contributory vector) :=
  inferInstanceAs (Decidable (_ ∈ _))

instance (first second : BitVec 8) : Decidable (Escalates first second) :=
  inferInstanceAs (Decidable (_ ∨ _))

/-- The exit came while a hardware exception was delivered, and `vector` on top
of it is a double fault. -/
def DoubleFaultDue (vectoring : BitVec 32) (vector : BitVec 8) : Prop :=
  infoValid vectoring = true ∧ infoType vectoring = typeException ∧
    Escalates (infoVector vectoring) vector

instance (vectoring : BitVec 32) (vector : BitVec 8) :
    Decidable (DoubleFaultDue vectoring vector) :=
  inferInstanceAs (Decidable (_ ∧ _))

/-- The entry delivers the exception `vector`, with the error code `code` if it
has one. -/
structure EntryFields.Delivers (e : EntryFields) (vector : BitVec 8)
    (code : Option (BitVec 32)) : Prop where
  valid : infoValid e.interruptInfo = true
  type : infoType e.interruptInfo = typeException
  vector : infoVector e.interruptInfo = vector
  deliver : infoDeliver e.interruptInfo = code.isSome
  code : ∀ c ∈ code, e.exceptionErrorCode = c

/-- The error code that the argument of `hax_inject_exception` stands for. -/
def givenCode (errorCode : BitVec 32) : Option (BitVec 32) :=
  if errorCode = noErrorCode then none else some errorCode

/-- The event of an entry after `vector` was raised at an exit with the
IDT-vectoring word `vectoring`. -/
def EventFormed (vectoring : BitVec 32) (vector : BitVec 8) (errorCode : BitVec 32)
    (e : EntryFields) : Prop :=
  if DoubleFaultDue vectoring vector then e.Delivers vectorDF (some 0)
  else e.Delivers vector (givenCode errorCode)

/-! ## When the event is formed -/

/-- Every pair that makes a double fault is in the bitmaps. -/
theorem isDoubleFault_of_escalates {first second : BitVec 8} (h : Escalates first second) :
    isDoubleFault first second = true := by
  have contributory : ∀ a ∈ ([0, 10, 11, 12, 13] : List (BitVec 8)),
      ∀ b ∈ ([0, 10, 11, 12, 13] : List (BitVec 8)), isDoubleFault a b = true := by decide
  have page : ∀ b ∈ ([0, 10, 11, 12, 13] : List (BitVec 8)),
      isDoubleFault vectorPF b = true := by decide
  rcases h with ⟨ha, hb⟩ | ⟨rfl, hb | rfl⟩
  · exact contributory _ ha _ hb
  · exact page _ hb
  · decide

/-- A double fault is never the second exception of a double fault. -/
theorem isDoubleFault_vectorDF (first : BitVec 8) : isDoubleFault first vectorDF = false := by
  have first1 : excBitmap1 &&& excBit vectorDF = 0 := by decide
  have first2 : excBitmap2 &&& excBit vectorDF = 0 := by decide
  simp [isDoubleFault, first1, first2]

theorem givenCode_isSome (errorCode : BitVec 32) :
    (givenCode errorCode).isSome = true ↔ errorCode ≠ noErrorCode := by
  unfold givenCode
  split <;> simp [*]

/-- What the next entry finds after an exception was raised at a settled exit. -/
theorem EventVcpu.Settled.entry_inject (h : v.Settled) (vector : BitVec 8) (errorCode : BitVec 32) :
    (vcpuHandleVmcsPending (haxInjectException v vector errorCode)).entry =
      if infoValid v.exitIdtVectoring = true then
        { interruptInfo :=
            if isDoubleFault (infoVector v.exitIdtVectoring) vector then
              exceptionWord vectorDF ||| intrInfoDeliverMask
            else exceptionWord vector
          exceptionErrorCode := v.entry.exceptionErrorCode
          instructionLength := v.exitInstrLength }
      else
        { interruptInfo :=
            if errorCode = noErrorCode then exceptionWord vector
            else exceptionWord vector ||| intrInfoDeliverMask
          exceptionErrorCode := (givenCode errorCode).getD v.entry.exceptionErrorCode
          instructionLength := v.exitInstrLength } := by
  unfold haxInjectException givenCode
  simp only [and_validMask_ne_zero, setWidth_and_vectorMask]
  by_cases valid : infoValid v.exitIdtVectoring = true
  · by_cases double : isDoubleFault (infoVector v.exitIdtVectoring) vector = true
    · simp [valid, double, h.entry_injectEvent]
    · simp [valid, double, h.entry_injectEvent]
  · by_cases none : errorCode = noErrorCode
    · simp [valid, none, h.entry_injectEvent]
    · simp [valid, none, h.entry_injectEvent]

theorem EventVcpu.Settled.formed_iff (h : v.Settled) (vector : BitVec 8) (errorCode : BitVec 32) :
    EventFormed v.exitIdtVectoring vector errorCode
        (vcpuHandleVmcsPending (haxInjectException v vector errorCode)).entry ↔
      infoValid v.exitIdtVectoring = false ∨
        (DoubleFaultDue v.exitIdtVectoring vector ∧ v.entry.exceptionErrorCode = 0) ∨
        (¬ DoubleFaultDue v.exitIdtVectoring vector ∧
          isDoubleFault (infoVector v.exitIdtVectoring) vector = false ∧
          errorCode = noErrorCode) := by
  rw [h.entry_inject]
  unfold EventFormed
  by_cases valid : infoValid v.exitIdtVectoring = true
  · rw [if_pos valid]
    by_cases due : DoubleFaultDue v.exitIdtVectoring vector
    · -- the word is right; the field keeps the code of an earlier event
      have double := isDoubleFault_of_escalates due.2.2
      rw [if_pos due, double]
      constructor
      · intro delivers
        exact .inr (.inl ⟨due, delivers.code 0 rfl⟩)
      · rintro (invalid | ⟨-, zero⟩ | ⟨not, -⟩)
        · simp [valid] at invalid
        · exact ⟨by simp, by simp, by simp, by simp, by simpa using zero⟩
        · exact absurd due not
    · rw [if_neg due]
      by_cases double : isDoubleFault (infoVector v.exitIdtVectoring) vector = true
      · -- a double fault that is not due has another vector
        constructor
        · intro delivers
          have same := delivers.vector
          simp only [double, if_true, infoVector_or_deliver, infoVector_exceptionWord] at same
          rw [← same, isDoubleFault_vectorDF] at double
          cases double
        · simp [valid, due, double]
      · have single := Bool.not_eq_true _ ▸ double
        constructor
        · intro delivers
          have dropped := delivers.deliver
          simp only [double, infoDeliver_exceptionWord, Bool.false_eq_true, if_false] at dropped
          have none := mt (givenCode_isSome errorCode).mpr (by simp [← dropped])
          exact .inr (.inr ⟨due, single, not_not.mp none⟩)
        · rintro (invalid | ⟨absurdDue, -⟩ | ⟨-, -, rfl⟩)
          · simp [valid] at invalid
          · exact absurd absurdDue due
          · exact ⟨by simp [single], by simp [single], by simp [single],
              by simp [single, givenCode], by simp [givenCode]⟩
  · have due : ¬ DoubleFaultDue v.exitIdtVectoring vector := fun h => valid h.1
    rw [if_neg due, if_neg valid]
    simp only [Bool.not_eq_true] at valid
    simp only [valid, true_or, iff_true]
    by_cases none : errorCode = noErrorCode
    · exact ⟨by simp [none], by simp [none], by simp [none], by simp [none, givenCode],
        by simp [none, givenCode]⟩
    · exact ⟨by simp [none], by simp [none], by simp [none], by simp [none, givenCode],
        by simp [none, givenCode]⟩

/-- An exception that is raised after an exit is the event that the next entry
should deliver exactly in these cases: the exit did not interrupt the delivery
of another event; or a double fault is due and the error code field of the VMCS
is zero already; or none is due, the bitmaps do not see one and there is no
error code to deliver. -/
theorem haxInjectException_formed_iff (v : EventVcpu) (vectoring instrLength : BitVec 32)
    (vector : BitVec 8) (errorCode : BitVec 32) :
    let exit := (vcpuHandleVmcsPending v).vmExit vectoring instrLength
    EventFormed vectoring vector errorCode
        (vcpuHandleVmcsPending (haxInjectException exit vector errorCode)).entry ↔
      infoValid vectoring = false ∨
        (DoubleFaultDue vectoring vector ∧ exit.entry.exceptionErrorCode = 0) ∨
        (¬ DoubleFaultDue vectoring vector ∧
          isDoubleFault (infoVector vectoring) vector = false ∧ errorCode = noErrorCode) :=
  ((settled_vcpuHandleVmcsPending v).vmExit vectoring instrLength).formed_iff vector errorCode

/-- The delivery of external interrupt 32 runs into an access that raises #GP
with error code 0: the entry has no error code to deliver. -/
theorem vectoredGp_not_formed :
    ¬ EventFormed 0x80000020 13 0
      (vcpuHandleVmcsPending
        (haxInjectException ((vcpuHandleVmcsPending {}).vmExit 0x80000020 0) 13 0)).entry := by
  intro formed
  have due : ¬ DoubleFaultDue 0x80000020 13 := by decide
  rw [EventFormed, if_neg due] at formed
  exact absurd formed.deliver (by decide)

end Haxm
