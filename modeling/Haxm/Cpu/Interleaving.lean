/-
# INVEPT requests between the instructions of a section

`invept` has every processor run `invept_smpfunc`. On Linux the request arrives
as an interrupt, and disabling preemption, which is all that `load_vmcs` does,
does not keep interrupts away. The handler uses `cpu_vmxroot_enter` and
`cpu_vmxroot_leave` itself, on the same `per_cpu_data`.

Here the thread that works on a section takes one step at a time, and the handler
may run as a whole before any of them. There is one step for each read and each
write of what the handler changes too: CR4.VMXE, VMX operation, the saved CR4.VMXE,
`VMXON_HAX` and the results. A bit that is set or cleared in place is read and
written in one step, since what is written to it does not depend on what was read;
what the handler leaves alone is accessed along with the rest. The saved CR4.VMXE is
what goes wrong first: the handler saves its own over it, which does no harm once
`restore_host_cr4_vmxe` has read it. A request that arrives in VMX operation is worse
off. Its VMXON fails, and `invept_smpfunc` then returns without INVEPT.
-/

import Mathlib.Logic.Function.Iterate
import Haxm.Lib.Run
import Haxm.Cpu.Vmxroot

namespace Haxm

open Lib

/-! ## The thread, step by step -/

/-- Where `restore_host_cr4_vmxe` is called from: `cpu_vmxroot_enter` after a VMXON
that failed, or `cpu_vmxroot_leave`. -/
inductive RestoreCall
  | enter (result : VmxResult)
  | leave (put : Bool)
  deriving DecidableEq

/-- Where the thread is: outside of a section, between two accesses of
`load_vmcs` or `put_vmcs`, or in the body of the section. The flag tells
`cpu_vmxroot_leave` in `put_vmcs` from that in `load_vmcs`, and `vmxe` is a value
that was read and is written next. -/
inductive SectionPc
  | idle
  | readCr4
  | saveCr4 (vmxe : Bool)
  | setCr4
  | vmxon
  | noteVmxon
  | storeVmxonRes (result : VmxResult)
  | vmptrld
  | noteLoaded
  | body
  | vmclear
  | leave (put : Bool)
  | vmxoff (put : Bool)
  | clearFlag (put : Bool)
  | readSaved (call : RestoreCall)
  | writeCr4 (call : RestoreCall) (vmxe : Bool)
  | storeVmxoffRes (put : Bool) (result : VmxResult)
  | clearLoaded
  deriving DecidableEq

/-- What follows `restore_host_cr4_vmxe`. -/
def RestoreCall.back : RestoreCall → SectionPc
  | enter result => .storeVmxonRes result
  | leave put => .storeVmxoffRes put .succeed

/-- The value that is written next. -/
def SectionPc.inHand : SectionPc → Option Bool
  | saveCr4 vmxe | writeCr4 _ vmxe => some vmxe
  | _ => none

structure SectionCpu where
  cpu : RootCpu
  pc : SectionPc
  /-- The VMCS of the section, and whether VMPTRLD will accept it. -/
  vmcs : ℕ
  valid : Bool
  /-- CR4.VMXE before the `load_vmcs` that opened the section; outside of a
  section, CR4.VMXE as the host has last set it or a section has found it. -/
  entryCr4Vmxe : Bool
  deriving DecidableEq

namespace SectionCpu

/-- The next access of the thread in `load_vmcs` or `put_vmcs`. -/
def next (m : SectionCpu) : SectionCpu :=
  match m.pc with
  | .idle | .body => m
  | .readCr4 => { m with pc := .saveCr4 m.cpu.cr4Vmxe }
  | .saveCr4 vmxe => { m with cpu := { m.cpu with hostCr4Vmxe := vmxe }, pc := .setCr4 }
  | .setCr4 => { m with cpu := m.cpu.setCr4Vmxe, pc := .vmxon }
  | .vmxon =>
    match m.cpu.asmVmxon with
    | (.succeed, cpu) => { m with cpu := cpu, pc := .noteVmxon }
    | (result, cpu) => { m with cpu := cpu, pc := .readSaved (.enter result) }
  | .noteVmxon =>
    { m with cpu := { m.cpu with vmxonHax := true }, pc := .storeVmxonRes .succeed }
  | .storeVmxonRes .succeed => { m with cpu := { m.cpu with vmxonRes := .succeed }, pc := .vmptrld }
  | .storeVmxonRes result =>
    { m with cpu := { m.cpu with vmxonRes := result }.enablePreemption, pc := .idle }
  | .vmptrld =>
    match m.cpu.asmVmptrld m.valid m.vmcs with
    | (.succeed, cpu) => { m with cpu := cpu, pc := .noteLoaded }
    | (_, cpu) => { m with cpu := cpu, pc := .leave false }
  | .noteLoaded => { m with cpu := m.cpu.noteLoaded m.vmcs, pc := .body }
  | .vmclear =>
    { m with cpu := { m.cpu.asmVmclear m.vmcs with currentVcpu := none }, pc := .leave true }
  | .leave put =>
    { m with pc := if m.cpu.vmxonHax then .vmxoff put else .storeVmxoffRes put .failValid }
  | .vmxoff put =>
    match m.cpu.asmVmxoff with
    | (.succeed, cpu) => { m with cpu := cpu, pc := .clearFlag put }
    | (result, cpu) => { m with cpu := cpu, pc := .storeVmxoffRes put result }
  | .clearFlag put =>
    { m with cpu := { m.cpu with vmxonHax := false }, pc := .readSaved (.leave put) }
  | .readSaved call => { m with pc := .writeCr4 call m.cpu.hostCr4Vmxe }
  | .writeCr4 call vmxe => { m with cpu := { m.cpu with cr4Vmxe := vmxe }, pc := call.back }
  | .storeVmxoffRes true result =>
    { m with cpu := { m.cpu with vmxoffRes := result }, pc := .clearLoaded }
  | .storeVmxoffRes false result =>
    { m with cpu := { m.cpu with vmxoffRes := result }.enablePreemption, pc := .idle }
  | .clearLoaded =>
    { m with cpu := { m.cpu with isVmcsLoaded := false }.enablePreemption, pc := .idle }

/-- The thread calls `load_vmcs`, which nests if the VMCS is loaded. A section
never loads the VMCS of another virtual processor. -/
def load (valid : Bool) (vmcs : ℕ) (m : SectionCpu) : SectionCpu :=
  if m.cpu.isVmcsLoaded then
    { m with cpu := { m.cpu.disablePreemption with nested := (m.cpu.nested + 1) % 2 ^ 16 } }
  else
    { cpu := m.cpu.disablePreemption, pc := .readCr4, vmcs := vmcs, valid := valid,
      entryCr4Vmxe := m.cpu.cr4Vmxe }

/-- The thread calls `put_vmcs`. -/
def put (m : SectionCpu) : SectionCpu :=
  if 0 < m.cpu.nested then
    { m with cpu := { m.cpu with nested := m.cpu.nested - 1 }.enablePreemption }
  else { m with pc := .vmclear }

/-- `invept_smpfunc` runs between two steps of the thread. -/
def ipi (m : SectionCpu) : SectionCpu := { m with cpu := m.cpu.inveptSmpfunc }

end SectionCpu

inductive SectionStep
  /-- Other software of the host changes the mode of the processor. -/
  | host (mode : RootMode)
  | load (valid : Bool) (vmcs : ℕ)
  | put
  | next
  | irq (on : Bool)
  | ipi

/-- One step of the processor. Preemption is disabled in a section, so the rest
of the host has its turn outside of one. -/
def sectionStep (m : SectionCpu) : SectionStep → SectionCpu
  | .host mode =>
    if m.pc = .idle then
      { m with
        cpu := { m.cpu with
          cr4Vmxe := mode.cr4Vmxe, vmxOn := mode.vmxOn, currentVmcs := mode.currentVmcs }
        entryCr4Vmxe := mode.cr4Vmxe }
    else m
  | .load valid vmcs => if m.pc = .idle ∨ m.pc = .body then m.load valid vmcs else m
  | .put => if m.pc = .body then m.put else m
  | .next => m.next
  | .irq on => { m with cpu := { m.cpu with irq := on } }
  | .ipi => m.ipi

/-- A processor that nobody uses for virtualisation yet. -/
def plainCpu (cr4Vmxe : Bool) : RootCpu where
  cr4Vmxe := cr4Vmxe
  vmxOn := false
  currentVmcs := none
  irq := true
  undefined := false
  invepts := 0
  hostCr4Vmxe := false
  vmxonHax := false
  vmxonRes := .succeed
  vmxoffRes := .succeed
  inveptRes := .succeed
  nested := 0
  isVmcsLoaded := false
  currentVcpu := none
  preemptDisables := 0
  preemptEnables := 0

def plainSection (cr4Vmxe : Bool) : SectionCpu where
  cpu := plainCpu cr4Vmxe
  pc := .idle
  vmcs := 0
  valid := false
  entryCr4Vmxe := cr4Vmxe

/-- The handler runs where interrupts are not masked; the guard may ask for
more. -/
def SectionAllowed (guard : SectionCpu → Prop) (m : SectionCpu) : SectionStep → Prop
  | .ipi => m.cpu.irq = true ∧ guard m
  | _ => True

def SectionReached (guard : SectionCpu → Prop) (m : SectionCpu) : Prop :=
  ∃ cr4Vmxe, Reached (plainSection cr4Vmxe) (SectionAllowed guard) sectionStep m

/-! ## What the handler does -/

section Handler

variable {s : RootCpu}

/-- Outside of VMX operation the handler succeeds. All it leaves behind is in
`per_cpu_data`. -/
theorem inveptSmpfunc_of_off (off : s.vmxOn = false) :
    s.inveptSmpfunc = { s with
      currentVmcs := none, invepts := s.invepts + 1, hostCr4Vmxe := s.cr4Vmxe,
      vmxonHax := false, vmxonRes := .succeed, vmxoffRes := .succeed, inveptRes := .succeed } := by
  obtain ⟨cr4, on, _, _, _, _, _, _, _, _, _, _, _, _, _, _⟩ := s
  obtain rfl : on = false := off
  cases cr4 <;> rfl

/-- In VMX operation it only spoils the saved CR4.VMXE. -/
theorem inveptSmpfunc_of_on (on : s.vmxOn = true) :
    s.inveptSmpfunc = { s with
      hostCr4Vmxe := s.cr4Vmxe, inveptRes := .succeed
      vmxonRes := if s.currentVmcs.isSome then .failValid else .failInvalid } := by
  obtain ⟨cr4, on', current, _, _, _, _, _, _, _, _, _, _, _, _, _⟩ := s
  obtain rfl : on' = true := on
  cases cr4 <;> cases current <;> rfl

/-- The handler has executed INVEPT and left the mode of the processor alone. -/
def InveptServed (s : RootCpu) : Prop :=
  s.inveptSmpfunc.invepts = s.invepts + 1 ∧
    (s.inveptSmpfunc.vmxOn = true ↔ s.vmxOn = true) ∧
    s.inveptSmpfunc.currentVmcs = s.currentVmcs

instance : Decidable (InveptServed s) := inferInstanceAs (Decidable (_ ∧ _))

theorem inveptServed_iff (settled : s.vmxOn = false → s.currentVmcs = none) :
    InveptServed s ↔ s.vmxOn = false := by
  cases mode : s.vmxOn with
  | true => simp [InveptServed, inveptSmpfunc_of_on mode]
  | false => simp [InveptServed, inveptSmpfunc_of_off mode, settled mode, mode]

end Handler

/-! ## What the section will restore -/

namespace SectionCpu

/-- The thread's own next step, on the way out of the section. -/
def drive (m : SectionCpu) : SectionCpu := if m.pc = .body then m.put else m.next

/-- Left to itself, the thread finishes the section, and CR4.VMXE is then what it
was before. -/
def Restores (m : SectionCpu) : Prop :=
  ∃ n, (drive^[n] m).pc = .idle ∧ (drive^[n] m).cpu.cr4Vmxe = m.entryCr4Vmxe

/-- What the mode of the processor is at each place of a section, whatever the
handler has done meanwhile. -/
def RootedAt (s : RootCpu) : SectionPc → Prop
  | .vmxon => s.cr4Vmxe = true
  | .noteVmxon | .storeVmxonRes .failInvalid | .storeVmxonRes .failValid => s.vmxOn = true
  | .readSaved (.enter result) | .writeCr4 (.enter result) _ => s.vmxOn = true ∧ result ≠ .succeed
  | .storeVmxonRes .succeed | .vmptrld | .noteLoaded | .body | .vmclear | .leave _
  | .vmxoff _ => s.vmxOn = true ∧ s.vmxonHax = true
  | .clearFlag _ | .readSaved (.leave _) | .writeCr4 (.leave _) _ => s.vmxOn = false
  | .idle | .readCr4 | .saveCr4 _ | .setCr4 | .storeVmxoffRes _ _ | .clearLoaded => True

structure Rooted (m : SectionCpu) : Prop where
  located : RootedAt m.cpu m.pc
  settled : m.cpu.vmxOn = false → m.cpu.currentVmcs = none
  defined : m.cpu.undefined = false

/-- CR4.VMXE as it will be after the section, unless the handler interferes. -/
def restored (m : SectionCpu) : Bool :=
  match m.pc with
  | .saveCr4 vmxe | .writeCr4 _ vmxe => vmxe
  | .idle | .readCr4 | .storeVmxonRes .failInvalid | .storeVmxonRes .failValid
  | .storeVmxoffRes _ _ | .clearLoaded => m.cpu.cr4Vmxe
  | _ => m.cpu.hostCr4Vmxe

/-- What the thread's own steps keep. -/
def kept (m : SectionCpu) : Bool × ℕ × Bool := (m.restored, m.cpu.nested, m.entryCr4Vmxe)

variable {m : SectionCpu}

/-- In VMX operation VMCLEAR changes the current VMCS and nothing else. -/
theorem asmVmclear_eq (vmcs : ℕ) (s : RootCpu) (on : s.vmxOn = true) :
    ∃ current, s.asmVmclear vmcs = { s with currentVmcs := current } := by
  rw [RootCpu.asmVmclear, if_pos on]
  split
  · exact ⟨none, rfl⟩
  · exact ⟨s.currentVmcs, rfl⟩

/-- A step of the thread keeps to the modes of its places and does not change
what the section will restore. -/
theorem Rooted.next (rooted : m.Rooted) : m.next.Rooted ∧ m.next.kept = m.kept := by
  have cleared := asmVmclear_eq m.vmcs m.cpu
  obtain ⟨⟨cr4, on, current, _, _, _, _, hax, _, _, _, _, _, _, _, _⟩, pc, vmcs, valid, _⟩ := m
  obtain ⟨located, settled, defined⟩ := rooted
  cases pc with
  | idle | body => exact ⟨⟨located, settled, defined⟩, rfl⟩
  | readCr4 | saveCr4 => exact ⟨⟨trivial, settled, defined⟩, rfl⟩
  | setCr4 => exact ⟨⟨rfl, settled, defined⟩, rfl⟩
  | vmxon =>
    obtain rfl : cr4 = true := located
    cases on with
    | true => cases current <;> exact ⟨⟨⟨rfl, nofun⟩, settled, defined⟩, rfl⟩
    | false => exact ⟨⟨rfl, nofun, defined⟩, rfl⟩
  | noteVmxon =>
    obtain rfl : on = true := located
    exact ⟨⟨⟨rfl, rfl⟩, nofun, defined⟩, rfl⟩
  | storeVmxonRes result =>
    cases result with
    | succeed => exact ⟨⟨located, settled, defined⟩, rfl⟩
    | failInvalid | failValid => exact ⟨⟨trivial, settled, defined⟩, rfl⟩
  | vmptrld =>
    obtain ⟨rfl, rfl⟩ : on = true ∧ hax = true := located
    cases valid with
    | true => exact ⟨⟨⟨rfl, rfl⟩, nofun, defined⟩, rfl⟩
    | false => cases current <;> exact ⟨⟨⟨rfl, rfl⟩, nofun, defined⟩, rfl⟩
  | noteLoaded => exact ⟨⟨located, settled, defined⟩, rfl⟩
  | vmclear =>
    obtain ⟨rfl, rfl⟩ : on = true ∧ hax = true := located
    dsimp only [SectionCpu.next]
    obtain ⟨left, eq⟩ := cleared rfl
    rw [eq]
    exact ⟨⟨⟨rfl, rfl⟩, nofun, defined⟩, rfl⟩
  | leave put =>
    obtain ⟨rfl, rfl⟩ : on = true ∧ hax = true := located
    exact ⟨⟨⟨rfl, rfl⟩, settled, defined⟩, rfl⟩
  | vmxoff put =>
    obtain ⟨rfl, rfl⟩ : on = true ∧ hax = true := located
    exact ⟨⟨rfl, fun _ => rfl, defined⟩, rfl⟩
  | clearFlag put => exact ⟨⟨located, settled, defined⟩, rfl⟩
  | readSaved call => cases call <;> exact ⟨⟨located, settled, defined⟩, rfl⟩
  | writeCr4 call vmxe =>
    cases call with
    | leave put => exact ⟨⟨trivial, settled, defined⟩, rfl⟩
    | enter result =>
      obtain ⟨rfl, failed⟩ : on = true ∧ result ≠ .succeed := located
      cases result with
      | succeed => exact absurd rfl failed
      | failInvalid | failValid => exact ⟨⟨rfl, nofun, defined⟩, rfl⟩
  | storeVmxoffRes put result => cases put <;> exact ⟨⟨trivial, settled, defined⟩, rfl⟩
  | clearLoaded => exact ⟨⟨trivial, settled, defined⟩, rfl⟩

theorem Rooted.put (rooted : m.Rooted) (place : m.pc = .body) :
    m.put.Rooted ∧ m.put.restored = m.restored := by
  obtain ⟨located, settled, defined⟩ := rooted
  rw [place] at located
  unfold SectionCpu.put
  split
  · exact ⟨⟨by rw [place]; exact located, settled, defined⟩, by simp [restored, place,
      RootCpu.enablePreemption]⟩
  · exact ⟨⟨located, settled, defined⟩, by simp [restored, place]⟩

theorem restored_of_inHand {vmxe : Bool} (hand : m.pc.inHand = some vmxe) : m.restored = vmxe := by
  unfold SectionPc.inHand at hand
  unfold restored
  split at hand <;> simp_all

/-- The handler saves over what the section has saved, unless that has been read. -/
theorem restored_ipi (m : SectionCpu) : m.ipi.restored = m.pc.inHand.getD m.cpu.cr4Vmxe := by
  unfold ipi SectionPc.inHand
  cases mode : m.cpu.vmxOn with
  | true => rw [inveptSmpfunc_of_on mode]; unfold restored; dsimp only; split <;> simp_all
  | false => rw [inveptSmpfunc_of_off mode]; unfold restored; dsimp only; split <;> simp_all

theorem Rooted.ipi (rooted : m.Rooted) : m.ipi.Rooted := by
  obtain ⟨located, settled, defined⟩ := rooted
  unfold SectionCpu.ipi
  cases mode : m.cpu.vmxOn with
  | true =>
    rw [inveptSmpfunc_of_on mode]
    refine ⟨?_, settled, defined⟩
    revert located
    dsimp only
    cases m.pc with
    | storeVmxonRes result => cases result <;> exact id
    | readSaved call | writeCr4 call => cases call <;> exact id
    | _ => exact id
  | false =>
    rw [inveptSmpfunc_of_off mode]
    refine ⟨?_, fun _ => rfl, defined⟩
    revert located
    dsimp only
    cases m.pc with
    | storeVmxonRes result => cases result <;> simp [RootedAt, mode]
    | readSaved call | writeCr4 call => cases call <;> simp [RootedAt, mode]
    | _ => simp [RootedAt, mode]

/-! ### The thread finishes its section -/

/-- How far it is out of the section, without nesting. -/
def distance : SectionPc → ℕ
  | .idle => 0
  | .clearLoaded => 1
  | .storeVmxoffRes _ _ => 2
  | .writeCr4 (.leave _) _ => 3
  | .readSaved (.leave _) => 4
  | .clearFlag _ => 5
  | .vmxoff _ => 6
  | .leave _ => 7
  | .vmclear => 8
  | .body => 9
  | .noteLoaded => 10
  | .vmptrld => 11
  | .storeVmxonRes _ => 12
  | .noteVmxon | .writeCr4 (.enter _) _ => 13
  | .readSaved (.enter _) => 14
  | .vmxon => 15
  | .setCr4 => 16
  | .saveCr4 _ => 17
  | .readCr4 => 18

def rank (m : SectionCpu) : ℕ := m.cpu.nested + distance m.pc

theorem distance_next (busy : m.pc ≠ .idle) (place : m.pc ≠ .body) :
    distance m.next.pc < distance m.pc := by
  obtain ⟨⟨cr4, on, current, _, _, _, _, hax, _, _, _, _, _, _, _, _⟩, pc, _, valid, _⟩ := m
  cases pc with
  | idle => exact absurd rfl busy
  | body => exact absurd rfl place
  | storeVmxonRes result => cases result <;> exact Nat.le_of_ble_eq_true rfl
  | readSaved call | writeCr4 call => cases call <;> exact Nat.le_of_ble_eq_true rfl
  | vmxon => cases cr4 <;> cases on <;> cases current <;> exact Nat.le_of_ble_eq_true rfl
  | vmptrld =>
    cases on <;> cases valid <;> cases current <;> exact Nat.le_of_ble_eq_true rfl
  | leave put => cases hax <;> exact Nat.le_of_ble_eq_true rfl
  | vmxoff put => cases on <;> exact Nat.le_of_ble_eq_true rfl
  | storeVmxoffRes put result => cases put <;> exact Nat.le_of_ble_eq_true rfl
  | _ => exact Nat.le_of_ble_eq_true rfl

theorem Rooted.rank_drive (rooted : m.Rooted) (busy : m.pc ≠ .idle) : m.drive.rank < m.rank := by
  unfold SectionCpu.drive
  split
  case isFalse place =>
    have nested : m.next.cpu.nested = m.cpu.nested := congrArg (·.2.1) rooted.next.2
    unfold rank
    rw [nested]
    exact Nat.add_lt_add_left (distance_next busy place) _
  case isTrue place =>
    unfold SectionCpu.put
    split
    case isTrue inner =>
      simp only [rank, place, RootCpu.enablePreemption]
      omega
    case isFalse => simp [rank, place, distance]

theorem Rooted.drive (rooted : m.Rooted) :
    m.drive.Rooted ∧ m.drive.restored = m.restored ∧ m.drive.entryCr4Vmxe = m.entryCr4Vmxe := by
  unfold SectionCpu.drive
  split
  case isTrue place =>
    obtain ⟨after, same⟩ := rooted.put place
    refine ⟨after, same, ?_⟩
    unfold SectionCpu.put
    split <;> rfl
  case isFalse =>
    obtain ⟨after, same⟩ := rooted.next
    exact ⟨after, congrArg (·.1) same, congrArg (·.2.2) same⟩

theorem Rooted.iterate (rooted : m.Rooted) (n : ℕ) :
    (SectionCpu.drive^[n] m).Rooted ∧ (SectionCpu.drive^[n] m).restored = m.restored := by
  induction n generalizing m with
  | zero => exact ⟨rooted, rfl⟩
  | succ n ih =>
    obtain ⟨after, same, -⟩ := rooted.drive
    obtain ⟨final, eq⟩ := ih after
    exact ⟨final, eq.trans same⟩

theorem Rooted.exists_idle (rooted : m.Rooted) : ∃ n, (SectionCpu.drive^[n] m).pc = .idle := by
  induction rank : m.rank using Nat.strongRecOn generalizing m with
  | ind r ih =>
    by_cases idle : m.pc = .idle
    · exact ⟨0, idle⟩
    · obtain ⟨n, done⟩ := ih m.drive.rank (rank ▸ rooted.rank_drive idle) rooted.drive.1 rfl
      exact ⟨n + 1, done⟩

theorem Rooted.restores_iff (rooted : m.Rooted) :
    m.Restores ↔ m.restored = m.entryCr4Vmxe := by
  -- Once the thread is done, what the section will restore is what it has restored.
  have final : ∀ n, (SectionCpu.drive^[n] m).pc = .idle →
      (SectionCpu.drive^[n] m).cpu.cr4Vmxe = m.restored := by
    intro n idle
    rw [← (rooted.iterate n).2, restored, idle]
  constructor
  · rintro ⟨n, idle, eq⟩
    exact (final n idle).symm.trans eq
  · intro eq
    obtain ⟨n, idle⟩ := rooted.exists_idle
    exact ⟨n, idle, (final n idle).trans eq⟩

end SectionCpu

/-! ## Requests at the right time -/

/-- The processor is not in VMX operation, and CR4.VMXE is as it was before the
section, unless the thread has read what it is going to write. -/
def InveptTimely (m : SectionCpu) : Prop :=
  m.cpu.vmxOn = false ∧ (m.pc.inHand.isSome = true ∨ m.cpu.cr4Vmxe = m.entryCr4Vmxe)

instance (m : SectionCpu) : Decidable (InveptTimely m) := inferInstanceAs (Decidable (_ ∧ _))

/-- The section, if there is one, is going to restore CR4.VMXE. -/
structure SectionOk (m : SectionCpu) : Prop where
  rooted : m.Rooted
  restored_eq : m.restored = m.entryCr4Vmxe

theorem SectionOk.restored_ipi_iff {m : SectionCpu} (ok : SectionOk m) :
    m.ipi.restored = m.entryCr4Vmxe ↔
      m.pc.inHand.isSome = true ∨ m.cpu.cr4Vmxe = m.entryCr4Vmxe := by
  rw [SectionCpu.restored_ipi]
  cases hand : m.pc.inHand with
  | none => simp
  | some vmxe => simpa [← SectionCpu.restored_of_inHand hand] using ok.restored_eq

theorem SectionOk.step {m : SectionCpu} (ok : SectionOk m) (a : SectionStep)
    (allowed : SectionAllowed InveptTimely m a) : SectionOk (sectionStep m a) := by
  have interrupted := ok.restored_ipi_iff
  obtain ⟨rooted, eq⟩ := ok
  cases a with
  | host mode =>
    unfold sectionStep
    dsimp only
    split
    case isTrue idle =>
      refine ⟨⟨?_, mode.none_of_off, rooted.defined⟩, ?_⟩
      · rw [idle]
        trivial
      · simp [SectionCpu.restored, idle]
    case isFalse => exact ⟨rooted, eq⟩
  | load valid vmcs =>
    unfold sectionStep
    dsimp only
    split
    case isFalse => exact ⟨rooted, eq⟩
    case isTrue =>
      unfold SectionCpu.load
      split
      · exact ⟨{ rooted with }, eq⟩
      · exact ⟨{ rooted with located := trivial }, rfl⟩
  | put =>
    unfold sectionStep
    dsimp only
    split
    case isFalse => exact ⟨rooted, eq⟩
    case isTrue place =>
      obtain ⟨after, same⟩ := rooted.put place
      refine ⟨after, same.trans ?_⟩
      unfold SectionCpu.put
      split <;> exact eq
  | next =>
    obtain ⟨after, same⟩ := rooted.next
    exact ⟨after, (congrArg (·.1) same).trans (eq.trans (congrArg (·.2.2) same).symm)⟩
  | irq on => exact ⟨{ rooted with }, eq⟩
  | ipi => exact ⟨rooted.ipi, interrupted.2 allowed.2.2⟩

theorem SectionReached.ok {m : SectionCpu} (reached : SectionReached InveptTimely m) :
    SectionOk m := by
  obtain ⟨cr4Vmxe, reached⟩ := reached
  apply reached.invariant
  · exact ⟨⟨trivial, fun _ => rfl, rfl⟩, rfl⟩
  · exact fun _ a ok allowed => ok.step a allowed

/-- As long as every request is timely, sections restore CR4.VMXE. A further
request is served, and leaves the section able to restore CR4.VMXE, exactly if it
is timely too. -/
theorem inveptSmpfunc_served_iff {m : SectionCpu} (reached : SectionReached InveptTimely m) :
    (m.pc = .idle → m.cpu.cr4Vmxe = m.entryCr4Vmxe) ∧
      (InveptServed m.cpu ∧ m.ipi.Restores ↔ InveptTimely m) := by
  have interrupted := reached.ok.restored_ipi_iff
  obtain ⟨rooted, eq⟩ := reached.ok
  constructor
  · intro idle
    rw [← eq, SectionCpu.restored, idle]
  · have entry : m.ipi.entryCr4Vmxe = m.entryCr4Vmxe := rfl
    rw [inveptServed_iff rooted.settled, rooted.ipi.restores_iff, entry, interrupted]
    exact Iff.rfl

instance (guard : SectionCpu → Prop) [DecidablePred guard] (m : SectionCpu) :
    ∀ a, Decidable (SectionAllowed guard m a)
  | .ipi => inferInstanceAs (Decidable (_ ∧ _))
  | .host _ | .load _ _ | .put | .next | .irq _ => .isTrue trivial

/-- The steps from outside a section into its body. -/
def openSteps : List SectionStep := .load true 7 :: List.replicate 8 .next

/-- The steps from the body of a section out of it. -/
def closeSteps : List SectionStep := .put :: List.replicate 8 .next

/-- A section is being closed, and CR4 is about to be written. -/
def closingSection : SectionCpu :=
  (openSteps ++ closeSteps.take 6).foldl sectionStep (plainSection false)

/-- A request is served where CR4.VMXE is not yet what it was before. -/
theorem closingSection_served : closingSection.cpu.cr4Vmxe ≠ closingSection.entryCr4Vmxe ∧
    InveptServed closingSection.cpu ∧ closingSection.ipi.Restores :=
  have reached : SectionReached InveptTimely closingSection :=
    ⟨false, Reached.init.foldl (by decide)⟩
  ⟨by decide, (inveptSmpfunc_served_iff reached).2.mpr (by decide)⟩

/-- A request in the body of a section is not served, and it costs the host its
CR4.VMXE: clear before the section, it is set afterwards. -/
theorem bodyRequest_not_served :
    ∃ m m', SectionReached (fun _ => True) m ∧ m.cpu.irq = true ∧ ¬ InveptServed m.cpu ∧
      m' = closeSteps.foldl sectionStep m.ipi ∧ SectionReached (fun _ => True) m' ∧
      m'.pc = .idle ∧ m'.entryCr4Vmxe = false ∧ m'.cpu.cr4Vmxe = true :=
  ⟨openSteps.foldl sectionStep (plainSection false),
    (openSteps ++ .ipi :: closeSteps).foldl sectionStep (plainSection false),
    ⟨false, Reached.init.foldl (by decide)⟩, by decide, by decide, by decide,
    ⟨false, Reached.init.foldl (by decide)⟩, by decide, by decide, by decide⟩

end Haxm
