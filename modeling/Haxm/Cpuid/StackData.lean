/-
# What CPUID shows of the host's stack

`exit_cpuid` leaves EBX and EDX of its arguments uninitialized, and relies on
`cpuid_execute` to overwrite them. Cached and unsupported leaves do. A subleaf
that is not in the table goes to the function of its leaf, and the functions of
leaves 7 and 0DH return without an assignment for the subleaves they do not
know.
-/

import Haxm.Cpuid.Table

namespace Haxm

open Lib

/-! ## The results -/

section Results

variable {table : List CpuidEntry} (host : CpuidHost) (leaf subleaf : BitVec 32)

/-- The requests that no function answers. -/
def Unanswered : Prop := (leaf = 7 ∧ 1 < subleaf) ∨ (leaf = 0xd ∧ 63 < subleaf)

variable {leaf subleaf}

theorem unanswered_of_known (known : subleaf = 0 ∨ subleaf = 1) : ¬ Unanswered leaf subleaf := by
  rintro (⟨-, big⟩ | ⟨-, big⟩) <;> rcases known with rfl | rfl <;> exact absurd big (by decide)

theorem one_lt_of_unknown (unknown : ¬ (subleaf = 0 ∨ subleaf = 1)) : 1 < subleaf := by
  rw [BitVec.lt_def]
  rw [not_or, ← BitVec.toNat_inj, ← BitVec.toNat_inj] at unknown
  change 1 < subleaf.toNat
  have zero : subleaf.toNat ≠ 0 := unknown.1
  have one : subleaf.toNat ≠ 1 := unknown.2
  omega

/-- Leaves 7 and 0DH have the subleaves 0 and 1. Another one goes to the function of its leaf. -/
theorem cpuidExecute_unknown (keys : table.map CpuidEntry.key = cpuidKeys)
    (l : leaf = 7 ∨ leaf = 0xd) (unknown : ¬ (subleaf = 0 ∨ subleaf = 1)) (edx ebx : BitVec 32) :
    cpuidExecute host table ⟨leaf, subleaf, edx, ebx⟩ =
      if leaf = 7 then execute00000007 host ⟨leaf, subleaf, edx, ebx⟩
      else execute0000000d host ⟨leaf, subleaf, edx, ebx⟩ := by
  have missing : findCpuidEntry table leaf subleaf = none := by
    rw [← Option.not_isSome_iff_eq_none, findCpuidEntry_isSome keys]
    rcases l with rfl | rfl <;> simpa [cpuidKeys] using unknown
  have two : (leafEntries leaf table).length = 2 := by
    rw [← List.length_map (f := CpuidEntry.key), leafEntries_keys keys]
    rcases l with rfl | rfl <;> rfl
  obtain ⟨e, e', run⟩ := List.length_eq_two.mp two
  rw [cpuidExecute, cpuidLookup_eq keys missing, run]
  rcases l with rfl | rfl <;> rfl

/-- Without an answer the arguments come back as they are. -/
theorem cpuidExecute_unanswered (keys : table.map CpuidEntry.key = cpuidKeys)
    (unanswered : Unanswered leaf subleaf) (edx ebx : BitVec 32) :
    cpuidExecute host table ⟨leaf, subleaf, edx, ebx⟩ = ⟨leaf, subleaf, edx, ebx⟩ := by
  have unknown : ¬ (subleaf = 0 ∨ subleaf = 1) := fun known => unanswered_of_known known unanswered
  rw [cpuidExecute_unknown host keys (unanswered.imp And.left And.left) unknown]
  rcases unanswered with ⟨rfl, -⟩ | ⟨rfl, big⟩
  · rw [if_pos rfl, execute00000007, if_neg (fun h => unknown (.inl h)),
      if_neg (fun h => unknown (.inr h))]
  · rw [if_neg (by decide), execute0000000d, if_pos big]

/-- Any other result does not depend on EDX and EBX. -/
theorem cpuidExecute_answered (keys : table.map CpuidEntry.key = cpuidKeys)
    (answered : ¬ Unanswered leaf subleaf) (edx ebx edx' ebx' : BitVec 32) :
    cpuidExecute host table ⟨leaf, subleaf, edx, ebx⟩ =
      cpuidExecute host table ⟨leaf, subleaf, edx', ebx'⟩ := by
  by_cases l : leaf = 7 ∨ leaf = 0xd
  · by_cases known : subleaf = 0 ∨ subleaf = 1
    · obtain ⟨e, found⟩ := exists_findCpuidEntry keys leaf subleaf (by
        rcases l with rfl | rfl <;> rcases known with rfl | rfl <;> decide)
      exact (cpuidExecute_present keys found).trans (cpuidExecute_present keys found).symm
    · rw [cpuidExecute_unknown host keys l known, cpuidExecute_unknown host keys l known]
      have notSeven : leaf ≠ 7 := fun h => answered (.inl ⟨h, one_lt_of_unknown known⟩)
      have small : ¬ 63 < subleaf := fun h => answered (.inr ⟨l.resolve_left notSeven, h⟩)
      rw [if_neg notSeven, if_neg notSeven, execute0000000d, execute0000000d, if_neg small,
        if_neg small]
      rfl
  · rw [not_or] at l
    rcases leafEntries_few keys l with none | ⟨e, single⟩
    · exact (cpuidExecute_absent keys none).trans (cpuidExecute_absent keys none).symm
    · exact (cpuidExecute_single keys single).trans (cpuidExecute_single keys single).symm

end Results

theorem lowWord_setLowWord (x : BitVec 64) (val : BitVec 32) :
    lowWord (setLowWord x val) = val := by
  apply BitVec.eq_of_getLsbD_eq
  intro i hi
  have low := BitVec.getLsbD_append (x := x.extractLsb' 32 32) (y := val) (i := i)
  rw [if_pos hi] at low
  rw [lowWord, BitVec.getLsbD_setWidth, setLowWord, low]
  simp [hi]

theorem exitCpuid_rbx (host : CpuidHost) (table : List CpuidEntry) (stack : CpuidArgs)
    (len : BitVec 64) (v : Vcpu) :
    lowWord ((exitCpuid host table stack len v).state.regs 3) = (cpuidExecute host table
      { stack with eax := lowWord (v.state.regs 0), ecx := lowWord (v.state.regs 1) }).ebx :=
  lowWord_setLowWord _ _

/-- What the guest gets is the same for any two contents of the stack. -/
def HidesStack (host : CpuidHost) (table : List CpuidEntry) (v : Vcpu) : Prop :=
  ∀ stack stack' len, exitCpuid host table stack len v = exitCpuid host table stack' len v

/-- CPUID hides the stack if and only if there is an answer to the request. -/
theorem exitCpuid_hidesStack_iff {host : CpuidHost} {table : List CpuidEntry}
    (reached : CpuidReached host table) (v : Vcpu) :
    HidesStack host table v ↔
      ¬ Unanswered (lowWord (v.state.regs 0)) (lowWord (v.state.regs 1)) := by
  have keys := reached.keys
  constructor
  · intro hides unanswered
    -- without an answer the lower half of RBX is the word on the stack
    have shown := congrArg (fun w : Vcpu => lowWord (w.state.regs 3)) (hides {} { ebx := 1 } 0)
    simp only [exitCpuid_rbx, cpuidExecute_unanswered host keys unanswered] at shown
    exact absurd shown (by decide)
  · intro answered stack stack' len
    unfold exitCpuid
    rw [cpuidExecute_answered host keys answered stack.edx stack.ebx stack'.edx stack'.ebx]

/-- A host whose CPUID returns zeroes. -/
def zeroCpuidHost : CpuidHost where
  cpuid _ _ := {}
  hostSupported7Ebx := 0
  supportedXcr0 := 0
  pmuEax := 0
  pmuEbx := 0
  pmuEdx := 0

/-- A guest that asks for a subleaf of leaf 7. -/
def askSeven (subleaf : BitVec 64) : Vcpu :=
  vcpuWriteGpr 1 subleaf (vcpuWriteGpr 0 7 (vcpuCreate plainInfo 0))

theorem askSeven_one_hidesStack :
    HidesStack zeroCpuidHost (cpuidGuestInit zeroCpuidHost {}) (askSeven 1) :=
  (exitCpuid_hidesStack_iff ⟨{}, .init⟩ _).mpr (unanswered_of_known (.inr (by decide)))

theorem askSeven_two_not_hidesStack : CpuidReached zeroCpuidHost (cpuidGuestInit zeroCpuidHost {}) ∧
    ¬ HidesStack zeroCpuidHost (cpuidGuestInit zeroCpuidHost {}) (askSeven 2) := by
  refine ⟨⟨{}, .init⟩, fun hides => ?_⟩
  have shown := congrArg (fun w : Vcpu => lowWord (w.state.regs 3)) (hides {} { ebx := 1 } 0)
  exact absurd shown (by decide)

end Haxm
