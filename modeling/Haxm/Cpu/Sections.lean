/-
# Balanced VMCS sections

`load_vmcs` and `put_vmcs` are called in pairs, one inside the other, and `vmread`
and `vmx_vmwrite` are such a pair too if the VMCS is not loaded. Whether it is loaded
is a flag of the virtual processor, and how often it has been loaded again is a
counter of the processor. They agree with the depth of the brackets as long as the
counter, which has 16 bits, does not overflow. After 65537 calls of `load_vmcs` it is
zero, and the next `put_vmcs` leaves VMX operation.
-/

import Mathlib.Data.List.Infix
import Haxm.Cpu.Interleaving

namespace Haxm

open Lib

/-- What a thread does with the VMCS. -/
inductive SectionCall
  | load
  | put
  /-- `vmread` or `vmx_vmwrite`. -/
  | access

/-- The instructions that switch VMX operation on and off. -/
inductive VmxSwitch
  | vmxon
  | vmxoff

/-- VMXON and VMXOFF alternate, the last one first; the flag says that it is VMXON. -/
inductive Alternating : Bool → List VmxSwitch → Prop
  | nil : Alternating false []
  | vmxon {l : List VmxSwitch} (off : Alternating false l) : Alternating true (.vmxon :: l)
  | vmxoff {l : List VmxSwitch} (on : Alternating true l) : Alternating false (.vmxoff :: l)

namespace RootCpu

/-- The switches of a `load_vmcs` that succeeds. -/
def loadSwitches (s : RootCpu) : List VmxSwitch := if s.isVmcsLoaded then [] else [.vmxon]

/-- The switches of `put_vmcs`. -/
def putSwitches (s : RootCpu) : List VmxSwitch :=
  if 0 < s.nested then [] else if s.vmxonHax then [.vmxoff] else []

/-- `load_vmcs` of a virtual processor that is not loaded, if VMXON fails with `result` for
whatever reason. -/
def loadRefused (result : VmxResult) (s : RootCpu) : RootCpu :=
  { s.disablePreemption.saveHostCr4Vmxe.setCr4Vmxe.noteVmxon result with
    vmxonRes := result }.enablePreemption

/-- A `load_vmcs` that fails shows in nothing that sections are about. -/
structure Unchanged (s t : RootCpu) : Prop where
  root : t.vmxOn = s.vmxOn
  current : t.currentVmcs = s.currentVmcs
  nested : t.nested = s.nested
  vcpu : t.currentVcpu = s.currentVcpu
  loaded : t.isVmcsLoaded = s.isVmcsLoaded
  balance : ∃ n, t.preemptDisables = s.preemptDisables + n ∧ t.preemptEnables = s.preemptEnables + n
  cr4 : t.cr4Vmxe = s.cr4Vmxe

theorem unchanged_loadRefused {s : RootCpu} {result : VmxResult} (failed : result ≠ .succeed) :
    s.Unchanged (s.loadRefused result) := by
  obtain ⟨cr4, _⟩ := s
  cases result with
  | succeed => exact absurd rfl failed
  | _ => cases cr4 <;> exact ⟨rfl, rfl, rfl, rfl, rfl, ⟨1, rfl, rfl⟩, rfl⟩

/-- No section is open; what the last one has left behind does not matter. -/
def closed (start : RootCpu) (host : Bool) (on off : VmxResult) (n : ℕ) : RootCpu :=
  { start with
    vmxOn := false, currentVmcs := none, hostCr4Vmxe := host, vmxonHax := false, vmxonRes := on
    vmxoffRes := off, nested := 0, isVmcsLoaded := false, currentVcpu := none
    preemptDisables := start.preemptDisables + n, preemptEnables := start.preemptEnables + n }

/-- Sections are open, `d` of them inside the first. -/
def opened (start : RootCpu) (vmcs : ℕ) (off : VmxResult) (n d : ℕ) : RootCpu :=
  { start with
    cr4Vmxe := true, vmxOn := true, currentVmcs := some vmcs, hostCr4Vmxe := start.cr4Vmxe
    vmxonHax := true, vmxonRes := .succeed, vmxoffRes := off, nested := d, isVmcsLoaded := true
    currentVcpu := some vmcs, preemptDisables := start.preemptDisables + n + (d + 1)
    preemptEnables := start.preemptEnables + n }

theorem putVmcs_opened_zero {start : RootCpu} {vmcs n : ℕ} {off : VmxResult} :
    (start.opened vmcs off n 0).putVmcs vmcs =
      (.succeed, start.closed start.cr4Vmxe .succeed .succeed (n + 1)) := by
  obtain ⟨cr4, _⟩ := start
  cases cr4 <;> simp [opened, closed, putVmcs, asmVmclear, cpuVmxrootLeave, asmVmxoff,
    restoreHostCr4Vmxe, enablePreemption, Nat.add_assoc]

theorem putVmcs_opened_succ {start : RootCpu} {vmcs n d : ℕ} {off : VmxResult} :
    (start.opened vmcs off n (d + 1)).putVmcs vmcs =
      (.succeed, start.opened vmcs off (n + 1) d) := by
  simp [putVmcs, opened, enablePreemption]
  omega

end RootCpu

/-- A processor, how many sections are open on it, and the switches so far, the last one first. -/
structure SectionRun where
  depth : ℕ
  cpu : RootCpu
  switches : List VmxSwitch

namespace SectionRun

/-- A call of the thread. -/
def step (vmcs : ℕ) (r : SectionRun) : SectionCall → SectionRun
  | .load => ⟨r.depth + 1, (r.cpu.loadVmcs true vmcs).2, r.cpu.loadSwitches ++ r.switches⟩
  | .put => ⟨r.depth - 1, (r.cpu.putVmcs vmcs).2, r.cpu.putSwitches ++ r.switches⟩
  | .access =>
    if r.cpu.isVmcsLoaded then r
    else
      match r.cpu.loadVmcs true vmcs with
      | (0, s) => ⟨r.depth, (s.putVmcs vmcs).2, s.putSwitches ++ (r.cpu.loadSwitches ++ r.switches)⟩
      | (_, s) => ⟨r.depth, s, r.cpu.loadSwitches ++ r.switches⟩

/-- The state after some calls. -/
def run (vmcs : ℕ) (start : RootCpu) (calls : List SectionCall) : SectionRun :=
  calls.foldl (step vmcs) ⟨0, start, []⟩

/-- Only a section that is open is closed. -/
def Bracketed (r : SectionRun) (c : SectionCall) : Prop := c = .put → 0 < r.depth

/-- The processor, the counter and the host follow the brackets, counted from `start`, and a
`load_vmcs` that fails is not noticed. -/
structure Exact (vmcs : ℕ) (start : RootCpu) (r : SectionRun) : Prop where
  root : r.cpu.vmxOn = decide (0 < r.depth)
  current : r.cpu.currentVmcs = if 0 < r.depth then some vmcs else none
  nested : r.cpu.nested = r.depth - 1
  vcpu : r.cpu.currentVcpu = if 0 < r.depth then some vmcs else none
  alternate : Alternating (decide (0 < r.depth)) r.switches
  balance : ∃ n, r.cpu.preemptDisables = start.preemptDisables + n + r.depth ∧
    r.cpu.preemptEnables = start.preemptEnables + n
  cr4 : r.depth = 0 → r.cpu.cr4Vmxe = start.cr4Vmxe
  /-- VMXON fails. -/
  refused : r.depth = 0 → ∀ result ≠ VmxResult.succeed, r.cpu.Unchanged (r.cpu.loadRefused result)
  /-- VMPTRLD fails. -/
  invalid : r.depth = 0 → r.cpu.Unchanged (r.cpu.loadVmcs false vmcs).2

/-- The driver has left VMX operation, and nobody else is in it. -/
structure Idle (s : RootCpu) : Prop where
  off : s.vmxOn = false
  current : s.currentVmcs = none
  nested : s.nested = 0
  loaded : s.isVmcsLoaded = false
  vcpu : s.currentVcpu = none
  hax : s.vmxonHax = false

/-- The states as they are before the counter overflows. -/
inductive Consistent (vmcs : ℕ) (start : RootCpu) : SectionRun → Prop
  | closed {host : Bool} {on off : VmxResult} {n : ℕ} {l : List VmxSwitch}
      (switched : Alternating false l) : Consistent vmcs start ⟨0, start.closed host on off n, l⟩
  | opened {off : VmxResult} {n d : ℕ} {l : List VmxSwitch} (switched : Alternating true l)
      (small : d < 2 ^ 16) : Consistent vmcs start ⟨d + 1, start.opened vmcs off n d, l⟩

section Step

variable {vmcs : ℕ} {start : RootCpu} {r : SectionRun}

theorem consistent_init (idle : Idle start) : Consistent vmcs start ⟨0, start, []⟩ := by
  obtain ⟨_, _, _, _, _, _, host, _, on, off, _, _, _, _, _, _⟩ := start
  obtain ⟨rfl, rfl, rfl, rfl, rfl, rfl⟩ := idle
  exact .closed (n := 0) .nil

theorem Consistent.exact (h : Consistent vmcs start r) : Exact vmcs start r := by
  cases h with
  | closed switched =>
    refine ⟨rfl, rfl, rfl, rfl, switched, ⟨_, rfl, rfl⟩, fun _ => rfl,
      fun _ _ => RootCpu.unchanged_loadRefused, fun _ => ?_⟩
    obtain ⟨cr4, _⟩ := start
    cases cr4 <;> exact ⟨rfl, rfl, rfl, rfl, rfl, ⟨1, rfl, rfl⟩, rfl⟩
  | opened switched _ =>
    exact ⟨rfl, rfl, rfl, rfl, switched, ⟨_, rfl, rfl⟩, nofun, nofun, nofun⟩

/-- The step that overflows the counter is not exact. -/
theorem Consistent.step {c : SectionCall} (h : Consistent vmcs start r) (bracketed : Bracketed r c)
    (next : Exact vmcs start (r.step vmcs c) ∨ (r.step vmcs c).depth ≤ 2 ^ 16) :
    Consistent vmcs start (r.step vmcs c) := by
  cases h with
  | @closed host on off n l switched =>
    cases c with
    | load => exact .opened (n := n) switched.vmxon (Nat.two_pow_pos 16)
    | put => exact absurd (bracketed rfl) (Nat.lt_irrefl 0)
    | access =>
      change Consistent vmcs start
        ⟨0, ((start.opened vmcs off n 0).putVmcs vmcs).2, .vmxoff :: .vmxon :: l⟩
      rw [RootCpu.putVmcs_opened_zero]
      exact .closed switched.vmxon.vmxoff
  | @opened off n d l switched small =>
    cases c with
    | load =>
      have room : (d + 1) % 2 ^ 16 = d + 1 := by
        rcases next with exact | below
        · exact exact.nested
        · exact Nat.mod_eq_of_lt (Nat.lt_of_succ_le below)
      have load : (start.opened vmcs off n d).loadVmcs true vmcs =
          (0, { start.opened vmcs off n (d + 1) with nested := (d + 1) % 2 ^ 16 }) := rfl
      rw [SectionRun.step, load, room]
      exact .opened switched (room ▸ Nat.mod_lt _ (by decide))
    | put =>
      rw [SectionRun.step]
      cases d with
      | zero =>
        rw [RootCpu.putVmcs_opened_zero]
        exact .closed switched.vmxoff
      | succ d =>
        rw [RootCpu.putVmcs_opened_succ]
        exact .opened switched (Nat.lt_of_succ_lt small)
    | access => exact .opened switched small

end Step

section Run

variable {start : RootCpu} {calls : List SectionCall}

theorem consistent_run (idle : Idle start) {vmcs : ℕ}
    (bracketed : AllowedRun Bracketed (step vmcs) ⟨0, start, []⟩ calls)
    (ok : ∀ pre, pre <+: calls →
      Exact vmcs start (run vmcs start pre) ∨ (run vmcs start pre).depth ≤ 2 ^ 16)
    (pre : List SectionCall) (h : pre <+: calls) : Consistent vmcs start (run vmcs start pre) := by
  induction pre using List.reverseRecOn with
  | nil => exact consistent_init idle
  | append_singleton pre c ih =>
    have next := ok _ h
    have consistent := ih ((List.prefix_append pre [c]).trans h)
    obtain ⟨post, rfl⟩ := h
    rw [List.append_assoc] at bracketed
    rw [run, List.foldl_append] at next ⊢
    exact consistent.step (allowedRun_append.1 bracketed).2.1 next

theorem Consistent.depth_le {vmcs : ℕ} {r : SectionRun} (h : Consistent vmcs start r) :
    r.depth ≤ 2 ^ 16 := by
  cases h with
  | closed => exact Nat.zero_le _
  | opened _ small => exact small

/-- Between all calls the state follows the brackets exactly if there are never more than 65536
open. -/
theorem sections_exact_iff (vmcs : ℕ) (idle : Idle start)
    (bracketed : AllowedRun Bracketed (step vmcs) ⟨0, start, []⟩ calls) :
    (∀ pre, pre <+: calls → Exact vmcs start (run vmcs start pre)) ↔
      ∀ pre, pre <+: calls → (run vmcs start pre).depth ≤ 2 ^ 16 := by
  constructor
  · intro exact pre h
    exact (consistent_run idle bracketed (fun pre h => .inl (exact pre h)) pre h).depth_le
  · intro small pre h
    exact (consistent_run idle bracketed (fun pre h => .inr (small pre h)) pre h).exact

end Run

theorem idle_plainCpu : Idle (plainCpu false) := ⟨rfl, rfl, rfl, rfl, rfl, rfl⟩

/-- An access inside a section. -/
theorem sections_exact_access :
    Exact 1 (plainCpu false) (run 1 (plainCpu false) [.load, .access]) := by
  have bracketed : AllowedRun Bracketed (step 1) ⟨0, plainCpu false, []⟩ [.load, .access] :=
    ⟨nofun, nofun, trivial⟩
  have small : ∀ pre ∈ [SectionCall.load, .access].inits,
      (run 1 (plainCpu false) pre).depth ≤ 2 ^ 16 := by decide
  exact (sections_exact_iff 1 idle_plainCpu bracketed).2
    (fun pre h => small pre ((List.mem_inits _ _).2 h)) _ (List.prefix_refl _)

theorem consistent_loads {n : ℕ} (small : n ≤ 2 ^ 16) :
    Consistent 1 (plainCpu false) (run 1 (plainCpu false) (.replicate n .load)) ∧
      (run 1 (plainCpu false) (.replicate n .load)).depth = n := by
  induction n with
  | zero => exact ⟨consistent_init idle_plainCpu, rfl⟩
  | succ n ih =>
    obtain ⟨h, depth⟩ := ih (by omega)
    rw [List.replicate_succ', run, List.foldl_append]
    have next : (step 1 _ .load).depth = n + 1 := congrArg (· + 1) depth
    exact ⟨h.step (c := .load) nofun (.inr (next ▸ small)), next⟩

/-- The counter overflows, so that a `put_vmcs` at depth 65537 leaves VMX operation. -/
theorem loads_overflow :
    (run 1 (plainCpu false) (.replicate 65537 .load)).depth = 65537 ∧
      (run 1 (plainCpu false) (.replicate 65537 .load)).cpu.nested = 0 ∧
      (run 1 (plainCpu false) (.replicate 65537 .load ++ [.put])).depth = 65536 ∧
      (run 1 (plainCpu false) (.replicate 65537 .load ++ [.put])).cpu.vmxOn = false := by
  obtain ⟨h, depth⟩ := consistent_loads (Nat.le_refl (2 ^ 16))
  rw [show 65537 = 2 ^ 16 + 1 from rfl, List.replicate_succ', run, run, List.foldl_append,
    List.foldl_append, List.foldl_append, ← run]
  generalize run 1 (plainCpu false) (.replicate (2 ^ 16) .load) = r at h depth
  cases h with
  | closed => cases depth
  | opened =>
    cases depth
    refine ⟨rfl, ?_, rfl, ?_⟩
    all_goals simp [step, RootCpu.opened, RootCpu.loadVmcs, RootCpu.disablePreemption,
      RootCpu.putVmcs, RootCpu.asmVmclear, RootCpu.cpuVmxrootLeave, RootCpu.asmVmxoff,
      RootCpu.restoreHostCr4Vmxe, RootCpu.enablePreemption, plainCpu]

end SectionRun

end Haxm
