/-
# The shape of the CPUID table

User space may call SET_CPUID with any entries in any number and order. For each
leaf of the table, what is asked for is taken over by a function of the leaf or is
copied. All the same, the keys of the table stay as they are, the leaves that say how
many leaves there are stay bounded, and CPUID finds each entry under its key.
-/

import Haxm.Cpuid.Table

namespace Haxm

variable {host : CpuidHost} {stack : CpuidArgs} {start table info : List CpuidEntry} {asked : Prop}

/-- The table after some calls of SET_CPUID. -/
def setCpuidRun (host : CpuidHost) (stack : CpuidArgs) (infos : List (List CpuidEntry)) :
    List CpuidEntry :=
  infos.foldl (fun table info => cpuidSetGuestFeatures info table) (cpuidGuestInit host stack)

/-- What SET_CPUID leaves of the first table. `asked` says that user space has given an entry for
leaf 1. -/
structure KeepsShape (start : List CpuidEntry) (asked : Prop) (table : List CpuidEntry) : Prop where
  keys : table.map CpuidEntry.key = start.map CpuidEntry.key
  basic : ∀ e ∈ findCpuidEntry table 0x0 0, e.eax ≤ maxBasicCpuid
  extended : ∀ e ∈ findCpuidEntry table 0x80000000 0, e.eax ≤ maxExtendedCpuid
  /-- HYPERVISOR and TSC_DEADLINE. -/
  ecx : ∀ e ∈ findCpuidEntry table 0x1 0, e.ecx.getLsbD 31 = true ∧ e.ecx.getLsbD 24 = false
  apic : asked → ∀ e ∈ findCpuidEntry table 0x1 0, e.edx.getLsbD 9 = true
  xsave : ∀ index, findCpuidEntry table 0xd index = findCpuidEntry start 0xd index

/-- CPUID answers with the entry for the subleaf, with the only entry of the leaf, or with zeroes
if the leaf has none. -/
structure AnswersExactly (host : CpuidHost) (table : List CpuidEntry) : Prop where
  present : ∀ args e, findCpuidEntry table args.eax args.ecx = some e →
    cpuidExecute host table args = e.args
  single : ∀ args e, leafEntries args.eax table = [e] → cpuidExecute host table args = e.args
  absent : ∀ args, leafEntries args.eax table = [] → cpuidExecute host table args = {}

theorem minWord_le (a b : BitVec 32) : minWord a b ≤ b := by
  unfold minWord
  split
  case isTrue lt => exact BitVec.le_of_lt lt
  case isFalse => exact BitVec.le_refl b

theorem keepsShape_guestInit :
    KeepsShape (cpuidGuestInit host stack) False (cpuidGuestInit host stack) where
  keys := rfl
  basic := by
    rintro e ⟨⟩
    exact minWord_le _ _
  extended := by
    rintro e ⟨⟩
    exact BitVec.le_refl _
  ecx := by
    rintro e ⟨⟩
    have supported : haxSupported1Ecx.getLsbD 24 = false ∧ featureHypervisor.getLsbD 24 = false ∧
      featureHypervisor.getLsbD 31 = true := by decide
    simp only [cpuidEntry, Option.getD_some, execute00000001, adjust00000001, BitVec.getLsbD_or,
      BitVec.getLsbD_and, supported]
    simp
  apic := False.elim
  xsave _ := rfl

/-- What a controller makes of its entry has a property if the entry has it, and if all that the
controller takes over has it. -/
theorem entry_setGuestFeatures {c : CpuidController} {P : CpuidEntry → Prop}
    (mem : c ∈ kCpuidController) (before : ∀ e ∈ findCpuidEntry table c.leaf c.subleaf, P e)
    (set : ∀ dest src, P ((c.setLeaf.getD fun _ src => src) dest src)) :
    ∀ e ∈ findCpuidEntry (cpuidSetGuestFeatures info table) c.leaf c.subleaf, P e := by
  rw [findCpuidEntry_setGuestFeatures mem]
  intro e here
  obtain ⟨dest, old, rfl⟩ := Option.map_eq_some_iff.mp here
  unfold CpuidController.apply
  split
  · exact before dest old
  · exact set dest _

/-- One call. -/
theorem KeepsShape.setGuestFeatures (h : KeepsShape start asked table) (info : List CpuidEntry) :
    KeepsShape start (asked ∨ (findCpuidEntry info 0x1 0).isSome = true)
      (cpuidSetGuestFeatures info table) where
  keys := (foldl_setFeature_keys kCpuidController_keepsKey info).trans h.keys
  basic := entry_setGuestFeatures (c := ⟨0x0, 0, setLeaf00000000⟩) (by simp [kCpuidController])
    h.basic fun _ _ => minWord_le _ _
  extended := entry_setGuestFeatures (c := ⟨0x80000000, 0, setLeaf80000000⟩)
    (by simp [kCpuidController]) h.extended fun _ _ => minWord_le _ _
  ecx := by
    refine entry_setGuestFeatures (c := ⟨0x1, 0, setLeaf00000001⟩) (by simp [kCpuidController])
      h.ecx fun _ src => ?_
    simp [setLeaf00000001, featureTscDeadline, featureHypervisor, features]
  apic asks e here := by
    rw [findCpuidEntry_setGuestFeatures (c := ⟨0x1, 0, setLeaf00000001⟩)
      (by simp [kCpuidController])] at here
    obtain ⟨dest, old, rfl⟩ := Option.map_eq_some_iff.mp here
    unfold CpuidController.apply
    cases found : findCpuidEntry info 0x1 0 with
    | none =>
      rw [found] at asks
      exact h.apic (asks.resolve_right Bool.false_ne_true) dest old
    | some src => simp [setLeaf00000001, featureApic, features]
  xsave index := by
    have other : ∀ c ∈ kCpuidController, c.leaf ≠ 0xd := by decide
    refine (findCpuidEntry_foldl_of_ne kCpuidController_keepsKey fun c mem same => ?_).trans
      (h.xsave index)
    exact other c mem (congrArg Prod.fst same).symm

/-- The shape of the table is kept by every sequence of calls, and CPUID is answered exactly. -/
theorem setCpuidRun_exact (host : CpuidHost) (stack : CpuidArgs) (infos : List (List CpuidEntry)) :
    KeepsShape (cpuidGuestInit host stack)
        (∃ info ∈ infos, (findCpuidEntry info 0x1 0).isSome = true) (setCpuidRun host stack infos) ∧
      AnswersExactly host (setCpuidRun host stack infos) := by
  have shape : KeepsShape (cpuidGuestInit host stack)
      (∃ info ∈ infos, (findCpuidEntry info 0x1 0).isSome = true)
        (setCpuidRun host stack infos) := by
    induction infos using List.reverseRecOn with
    | nil => simpa [setCpuidRun] using keepsShape_guestInit
    | append_singleton infos info ih =>
      have step := ih.setGuestFeatures info
      simpa [setCpuidRun, or_and_right, exists_or] using step
  have keys := shape.keys.trans (cpuidFill_keys _ stack)
  exact ⟨shape, fun _ _ => cpuidExecute_present keys, fun _ _ => cpuidExecute_single keys,
    fun _ => cpuidExecute_absent keys⟩

/-- An entry is left alone, as two leaves are if they are not complete, or what it is set to does
not depend on what it was set to before. -/
theorem setLeaf_cases : ∀ c ∈ kCpuidController, ∀ f, c.setLeaf.getD (fun _ src => src) = f →
    ∀ src, (∀ dest, f dest src = dest) ∨ ∀ dest src', f (f dest src') src = f dest src := by
  simp only [kCpuidController, List.forall_mem_cons, List.not_mem_nil, IsEmpty.forall_iff,
    implies_true, and_true, forall_eq', Option.getD_some]
  and_intros <;> intro src
  all_goals first | exact .inr fun _ _ => rfl | grind [setLeaf00000015, setLeaf00000016]

theorem CpuidController.apply_cases {c : CpuidController} (mem : c ∈ kCpuidController)
    (info : List CpuidEntry) :
    c.apply info = id ∨ ∀ info', c.apply info ∘ c.apply info' = c.apply info := by
  unfold apply
  cases findCpuidEntry info c.leaf c.subleaf with
  | none => exact .inl rfl
  | some src =>
    refine (setLeaf_cases c mem _ rfl src).imp funext fun set info' => funext fun dest => ?_
    dsimp only [Function.comp]
    cases findCpuidEntry info' c.leaf c.subleaf with
    | none => rfl
    | some src' => exact set dest src'

/-- A call leaves an entry as it is, or makes of it what it makes of the first table: of the calls
before, nothing is left. -/
theorem setCpuidRun_last (infos : List (List CpuidEntry)) (c : {c // c ∈ kCpuidController}) :
    let entry infos := findCpuidEntry (setCpuidRun host stack infos) c.1.leaf c.1.subleaf
    entry (infos ++ [info]) = entry infos ∨ entry (infos ++ [info]) = entry [info] := by
  obtain ⟨c, mem⟩ := c
  dsimp only [setCpuidRun]
  generalize cpuidGuestInit host stack = table
  rcases c.apply_cases mem info with same | decides
  · left
    simp [findCpuidEntry_setGuestFeatures mem, same]
  · right
    induction infos generalizing table with
    | nil => rfl
    | cons info' infos ih =>
      refine (ih _).trans ?_
      simp [findCpuidEntry_setGuestFeatures mem, decides]

end Haxm
