/-
# Who owns the CPUID table

The virtual CPUs of a guest are meant to share one table: the one with the number
0 allocates it, initialises it and frees it, and the others point to it. But the
number of a virtual CPU is set only after `vcpu_alloc_cpuid` has looked at it, so
that every virtual CPU allocates a table. Those with another number then forget
theirs, or keep it uninitialised if there is no number 0 to copy from, and never
free it. And number 0 frees the table whether or not others still point to it.

So the scheme works exactly if there is never another virtual CPU than number 0.
Addresses of tables are never used twice in the model, which tells apart the
tables that a real allocator might put in the same place.
-/

import Haxm.Lib.Run
import Mathlib.Data.List.Infix

namespace Haxm

open Lib

namespace TableLifetime

/-! ## The tables of a guest -/

/-- What has become of the tables that `hax_vmalloc` has returned so far: those
below `next`. -/
structure TableHeap where
  next : ℕ
  initialised : List ℕ
  freed : List ℕ
  deriving DecidableEq, Repr

/-- The part of `struct vcpu_t` that concerns the table. -/
structure CpuidVcpu where
  /-- Stands for the address of the structure. -/
  ref : ℕ
  vcpuId : ℕ
  guestCpuid : Option ℕ
  deriving DecidableEq, Repr

/-- A virtual machine, the last virtual CPU first. -/
structure VmTables where
  heap : TableHeap
  vcpuList : List CpuidVcpu
  nextVcpu : ℕ
  deriving DecidableEq, Repr

def VmTables.init : VmTables := ⟨⟨0, [], []⟩, [], 0⟩

/-- `vcpu_alloc_cpuid`. -/
def vcpuAllocCpuid (failing : Bool) (vcpu : CpuidVcpu) (heap : TableHeap) :
    Bool × CpuidVcpu × TableHeap :=
  if vcpu.vcpuId ≠ 0 then (true, vcpu, heap)
  else if failing then (false, { vcpu with guestCpuid := none }, heap)
  else (true, { vcpu with guestCpuid := some heap.next }, { heap with next := heap.next + 1 })

/-- `vcpu_free_cpuid`. -/
def vcpuFreeCpuid (vcpu : CpuidVcpu) (heap : TableHeap) : CpuidVcpu × TableHeap :=
  if vcpu.vcpuId ≠ 0 then ({ vcpu with guestCpuid := none }, heap)
  else
    match vcpu.guestCpuid with
    | none => (vcpu, heap)
    | some table => ({ vcpu with guestCpuid := none }, { heap with freed := table :: heap.freed })

/-- `hax_get_vcpu`, in the list of the virtual machine. -/
def haxGetVcpu (vcpuList : List CpuidVcpu) (vcpuId : ℕ) : Option CpuidVcpu :=
  vcpuList.find? fun vcpu => vcpu.vcpuId = vcpuId

/-- `vcpu_init_cpuid`. -/
def vcpuInitCpuid (vcpuList : List CpuidVcpu) (vcpu : CpuidVcpu) (heap : TableHeap) :
    CpuidVcpu × TableHeap :=
  if vcpu.vcpuId ≠ 0 then
    match haxGetVcpu vcpuList 0 with
    | none => (vcpu, heap)
    | some vcpu0 => ({ vcpu with guestCpuid := vcpu0.guestCpuid }, heap)
  else
    -- `cpuid_guest_init`
    (vcpu, { heap with initialised := vcpu.guestCpuid.toList ++ heap.initialised })

/-- Where `vcpu_create` fails, if it does: before the table is allocated, at its
allocation, or in `hax_vcpu_create_host`. -/
inductive CreateOutcome
  | early
  | cpuid
  | host
  | created
  deriving DecidableEq, Repr

/-- `HAX_MAX_VCPUS`. -/
def haxMaxVcpus : ℤ := 16

/-- `valid_vcpu_id`. -/
def validVcpuId (vcpuId : ℤ) : Bool := 0 ≤ vcpuId ∧ vcpuId < haxMaxVcpus

/-- `vcpu_create`. The structure is all zeros until its number is set. -/
def vcpuCreate (s : VmTables) (vcpuId : ℤ) (outcome : CreateOutcome) : VmTables :=
  if validVcpuId vcpuId = false then s
  else if outcome = .early then s
  else
    match vcpuAllocCpuid (outcome = .cpuid) ⟨s.nextVcpu, 0, none⟩ s.heap with
    | (false, _, heap) => { s with heap := heap }
    | (true, vcpu, heap) =>
      if outcome = .host then { s with heap := (vcpuFreeCpuid vcpu heap).2 }
      else
        let (vcpu, heap) := vcpuInitCpuid s.vcpuList { vcpu with vcpuId := vcpuId.toNat } heap
        ⟨heap, vcpu :: s.vcpuList, s.nextVcpu + 1⟩

/-- `vcpu_teardown`, of a virtual CPU that is there. -/
def vcpuTeardown (s : VmTables) (ref : ℕ) : VmTables :=
  match s.vcpuList.find? fun vcpu => vcpu.ref = ref with
  | none => s
  | some vcpu =>
    { s with
      heap := (vcpuFreeCpuid vcpu s.heap).2
      vcpuList := s.vcpuList.filter fun vcpu => vcpu.ref ≠ ref }

inductive VcpuInput
  | create (vcpuId : ℤ) (outcome : CreateOutcome)
  | teardown (ref : ℕ)
  deriving DecidableEq, Repr

def vcpuStep (s : VmTables) : VcpuInput → VmTables
  | .create vcpuId outcome => vcpuCreate s vcpuId outcome
  | .teardown ref => vcpuTeardown s ref

/-- All virtual CPUs that are left are torn down. -/
def teardownAll (s : VmTables) : List VcpuInput := s.vcpuList.map fun vcpu => .teardown vcpu.ref

/-! ## What should hold -/

/-- Every virtual CPU has a table that can be used, they all have the same, and no
table is left when no virtual CPU is. -/
structure TablesSound (s : VmTables) : Prop where
  usable : ∀ vcpu ∈ s.vcpuList, ∃ table, vcpu.guestCpuid = some table ∧ table < s.heap.next ∧
    table ∉ s.heap.freed ∧ table ∈ s.heap.initialised
  shared : ∀ vcpu ∈ s.vcpuList, ∀ vcpu' ∈ s.vcpuList, vcpu.guestCpuid = vcpu'.guestCpuid
  released : s.vcpuList = [] → ∀ table < s.heap.next, s.heap.freed.count table = 1

/-- A virtual CPU that is created has the number 0, and there is no other. -/
def SingleVcpu (s : VmTables) : VcpuInput → Prop
  | .create vcpuId outcome => validVcpuId vcpuId = true → outcome = .created →
      vcpuId = 0 ∧ s.vcpuList = []
  | .teardown _ => True

instance (s : VmTables) (input : VcpuInput) : Decidable (SingleVcpu s input) :=
  match input with
  | .create vcpuId outcome => inferInstanceAs (Decidable (validVcpuId vcpuId = true →
      outcome = .created → vcpuId = 0 ∧ s.vcpuList = []))
  | .teardown _ => .isTrue trivial

/-! ## The steps -/

variable {s : VmTables} {vcpuId : ℤ} {outcome : CreateOutcome} {ref : ℕ} {vcpu : CpuidVcpu}

/-- The virtual CPU that `vcpu_create` adds. -/
def createdVcpu (s : VmTables) (vcpuId : ℤ) : CpuidVcpu :=
  ⟨s.nextVcpu, vcpuId.toNat, if vcpuId = 0 then some s.heap.next else
    match haxGetVcpu s.vcpuList 0 with
    | none => some s.heap.next
    | some vcpu0 => vcpu0.guestCpuid⟩

/-- A creation that fails leaves at most a table that has been freed. -/
theorem vcpuCreate_failed (h : validVcpuId vcpuId = true → outcome ≠ .created) :
    vcpuCreate s vcpuId outcome = s ∨
      vcpuCreate s vcpuId outcome =
        { s with heap := ⟨s.heap.next + 1, s.heap.initialised, s.heap.next :: s.heap.freed⟩ } := by
  unfold vcpuCreate
  cases valid : validVcpuId vcpuId with
  | false => exact .inl (if_pos rfl)
  | true =>
    cases outcome with
    | early => exact .inl rfl
    | cpuid => exact .inl rfl
    | host => exact .inr rfl
    | created => exact absurd rfl (h valid)

/-- A creation that succeeds allocates a table, whatever the number. -/
theorem vcpuCreate_created (valid : validVcpuId vcpuId = true) :
    ∃ initialised, vcpuCreate s vcpuId .created =
        ⟨⟨s.heap.next + 1, initialised, s.heap.freed⟩, createdVcpu s vcpuId :: s.vcpuList,
          s.nextVcpu + 1⟩ ∧
      (vcpuId = 0 → initialised = s.heap.next :: s.heap.initialised) := by
  have nonneg : 0 ≤ vcpuId := by
    simp only [validVcpuId, Bool.decide_and, Bool.and_eq_true, decide_eq_true_eq] at valid
    exact valid.1
  have alloc : vcpuAllocCpuid false ⟨s.nextVcpu, 0, none⟩ s.heap =
      (true, ⟨s.nextVcpu, 0, some s.heap.next⟩, { s.heap with next := s.heap.next + 1 }) := rfl
  unfold vcpuCreate
  rw [if_neg (by rw [valid]; decide), if_neg (by decide)]
  simp only [reduceCtorEq, decide_false, alloc, if_false]
  by_cases zero : vcpuId = 0
  · subst zero
    exact ⟨_, rfl, fun _ => rfl⟩
  · have number : vcpuId.toNat ≠ 0 := by omega
    refine ⟨s.heap.initialised, ?_, fun h => absurd h zero⟩
    simp only [vcpuInitCpuid, number, ne_eq, not_false_eq_true, if_true, createdVcpu, zero,
      if_false]
    cases haxGetVcpu s.vcpuList 0 <;> rfl

/-- A virtual CPU that is torn down frees the table if it is number 0. -/
theorem vcpuTeardown_cases (s : VmTables) (ref : ℕ) :
    vcpuTeardown s ref = s ∧ (∀ vcpu ∈ s.vcpuList, vcpu.ref ≠ ref) ∨
      ∃ vcpu ∈ s.vcpuList, vcpu.ref = ref ∧ vcpuTeardown s ref =
        { s with
          heap := { s.heap with
            freed := (if vcpu.vcpuId = 0 then vcpu.guestCpuid.toList else []) ++ s.heap.freed }
          vcpuList := s.vcpuList.filter fun vcpu => vcpu.ref ≠ ref } := by
  unfold vcpuTeardown
  cases found : s.vcpuList.find? fun vcpu => vcpu.ref = ref with
  | none =>
    refine .inl ⟨rfl, fun vcpu mem same => ?_⟩
    exact List.find?_eq_none.1 found vcpu mem (decide_eq_true same)
  | some vcpu =>
    have hit : vcpu.ref = ref := by simpa using List.find?_some found
    refine .inr ⟨vcpu, List.mem_of_find?_eq_some found, hit, ?_⟩
    dsimp only
    unfold vcpuFreeCpuid
    by_cases zero : vcpu.vcpuId = 0
    · rw [if_neg (not_not.2 zero), if_pos zero]
      cases vcpu.guestCpuid <;> rfl
    · rw [if_pos zero, if_neg zero]
      rfl

/-! ## A single virtual CPU -/

/-- All tables but those that are given have been freed, once each. -/
structure Outstanding (heap : TableHeap) (tables : List ℕ) : Prop where
  below : ∀ table ∈ tables ++ heap.freed, table < heap.next
  once : ∀ table < heap.next, (tables ++ heap.freed).count table = 1

theorem Outstanding.alloc {heap : TableHeap} {tables : List ℕ} (h : Outstanding heap tables)
    (heap' : TableHeap) (next : heap'.next = heap.next + 1) (freed : heap'.freed = heap.freed) :
    Outstanding heap' (heap.next :: tables) := by
  refine ⟨fun table mem => ?_, fun table lt => ?_⟩
  · rw [freed] at mem
    rw [next]
    rcases List.mem_cons.1 mem with rfl | mem
    · exact Nat.lt_succ_self _
    · exact Nat.lt_succ_of_lt (h.below table mem)
  · rw [freed, List.cons_append]
    rcases Nat.lt_succ_iff_lt_or_eq.1 (next ▸ lt) with lt | rfl
    · rw [List.count_cons_of_ne (Nat.ne_of_gt lt)]
      exact h.once table lt
    · rw [List.count_cons_self, List.count_eq_zero.2 fun mem => Nat.lt_irrefl _ (h.below _ mem)]

/-- There is at most one virtual CPU, number 0, and its table is the only one left. -/
def Single (s : VmTables) : Prop :=
  s.vcpuList = [] ∧ Outstanding s.heap [] ∨
    ∃ ref table, s.vcpuList = [⟨ref, 0, some table⟩] ∧ Outstanding s.heap [table] ∧
      table ∈ s.heap.initialised

theorem Single.sound (h : Single s) : TablesSound s := by
  rcases h with ⟨none, out⟩ | ⟨ref, table, one, out, initialised⟩
  · exact ⟨by simp [none], by simp [none], fun _ => out.once⟩
  · have lt := out.below table (by simp)
    have kept : table ∉ s.heap.freed := by
      have once := out.once table lt
      rw [List.cons_append, List.nil_append, List.count_cons_self] at once
      exact List.count_eq_zero.1 (Nat.succ.inj once)
    refine ⟨fun vcpu mem => ?_, ?_, by simp [one]⟩
    · obtain rfl : vcpu = ⟨ref, 0, some table⟩ := by simpa [one] using mem
      exact ⟨table, rfl, lt, kept, initialised⟩
    · simp [one]

theorem Single.create (h : Single s) (single : SingleVcpu s (.create vcpuId outcome)) :
    Single (vcpuCreate s vcpuId outcome) := by
  by_cases created : validVcpuId vcpuId = true ∧ outcome = .created
  · obtain ⟨valid, rfl⟩ := created
    obtain ⟨rfl, none⟩ := single valid rfl
    obtain ⟨-, out⟩ | ⟨ref, table, one, -⟩ := h
    · obtain ⟨initialised, step, hinit⟩ := vcpuCreate_created (s := s) valid
      rw [step, none]
      refine .inr ⟨s.nextVcpu, s.heap.next, rfl, out.alloc _ rfl rfl, ?_⟩
      rw [hinit rfl]
      exact List.mem_cons_self
    · simp [none] at one
  · rcases vcpuCreate_failed (s := s) fun valid out => created ⟨valid, out⟩ with same | freed
    · rwa [same]
    · rw [freed]
      -- the table is allocated and freed, which is the same as if it were left
      have next {tables : List ℕ} (out : Outstanding s.heap tables) : Outstanding
          ⟨s.heap.next + 1, s.heap.initialised, s.heap.next :: s.heap.freed⟩ tables := by
        have more := out.alloc ⟨s.heap.next + 1, s.heap.initialised, s.heap.freed⟩ rfl rfl
        have perm : (tables ++ s.heap.next :: s.heap.freed).Perm
            (s.heap.next :: tables ++ s.heap.freed) := List.perm_middle
        exact ⟨fun table mem => more.below table (perm.mem_iff.1 mem),
          fun table lt => (perm.count_eq table).trans (more.once table lt)⟩
      rcases h with ⟨none, out⟩ | ⟨ref, table, one, out, initialised⟩
      · exact .inl ⟨none, next out⟩
      · exact .inr ⟨ref, table, one, next out, initialised⟩

theorem Single.teardown (h : Single s) (ref : ℕ) : Single (vcpuTeardown s ref) := by
  rcases vcpuTeardown_cases s ref with ⟨same, -⟩ | ⟨vcpu, mem, hit, step⟩
  · rwa [same]
  · rw [step]
    rcases h with ⟨none, -⟩ | ⟨ref', table, one, out, -⟩
    · simp [none] at mem
    · obtain rfl : vcpu = ⟨ref', 0, some table⟩ := by simpa [one] using mem
      have hit : ref' = ref := hit
      exact .inl ⟨by simp [one, hit], out.below, out.once⟩

theorem Single.step {input : VcpuInput} (h : Single s) (single : SingleVcpu s input) :
    Single (vcpuStep s input) := by
  cases input with
  | create vcpuId outcome => exact h.create single
  | teardown ref => exact h.teardown ref

theorem single_init : Single .init := .inl ⟨rfl, ⟨by simp [VmTables.init], by simp [VmTables.init]⟩⟩

/-! ## Other virtual CPUs -/

/-- A table that has not been freed and that number 0 does not have. -/
structure Leaked (s : VmTables) (table : ℕ) : Prop where
  allocated : table < s.heap.next
  kept : table ∉ s.heap.freed
  foreign : ∀ vcpu ∈ s.vcpuList, vcpu.vcpuId = 0 → vcpu.guestCpuid ≠ some table

/-- Nobody will free it. -/
theorem Leaked.step {table : ℕ} (h : Leaked s table) (input : VcpuInput) :
    Leaked (vcpuStep s input) table := by
  have other : table ≠ s.heap.next := Nat.ne_of_lt h.allocated
  cases input with
  | create vcpuId outcome =>
    by_cases created : validVcpuId vcpuId = true ∧ outcome = .created
    · obtain ⟨valid, rfl⟩ := created
      obtain ⟨initialised, step, -⟩ := vcpuCreate_created (s := s) valid
      rw [vcpuStep, step]
      refine ⟨Nat.lt_succ_of_lt h.allocated, h.kept, fun vcpu mem zero => ?_⟩
      rcases List.mem_cons.1 mem with rfl | mem
      · have number : vcpuId = 0 := by
          simp only [validVcpuId, Bool.decide_and, Bool.and_eq_true, decide_eq_true_eq] at valid
          have : vcpuId.toNat = 0 := zero
          omega
        rw [createdVcpu, if_pos number]
        exact fun same => other (Option.some.inj same).symm
      · exact h.foreign vcpu mem zero
    · rcases vcpuCreate_failed (s := s) fun valid out => created ⟨valid, out⟩ with same | freed
      · rwa [vcpuStep, same]
      · rw [vcpuStep, freed]
        refine ⟨Nat.lt_succ_of_lt h.allocated, fun mem => ?_, h.foreign⟩
        exact (List.mem_cons.1 mem).elim other h.kept
  | teardown ref =>
    rcases vcpuTeardown_cases s ref with ⟨same, -⟩ | ⟨vcpu, mem, -, step⟩
    · rwa [vcpuStep, same]
    · rw [vcpuStep, step]
      refine ⟨h.allocated, fun freed => ?_,
        fun vcpu mem => h.foreign vcpu (List.mem_filter.1 mem).1⟩
      rcases List.mem_append.1 freed with now | before
      · split_ifs at now with zero
        · exact h.foreign vcpu mem zero (Option.mem_toList.1 now)
        · cases now
      · exact h.kept before

theorem Leaked.run {table : ℕ} (h : Leaked s table) (inputs : List VcpuInput) :
    Leaked (inputs.foldl vcpuStep s) table := by
  induction inputs generalizing s with
  | nil => exact h
  | cons input inputs ih => exact ih (h.step input)

theorem Leaked.not_sound {table : ℕ} (h : Leaked s table) (none : s.vcpuList = []) :
    ¬ TablesSound s := fun sound => by
  have once := sound.released none table h.allocated
  rw [List.count_eq_zero.2 h.kept] at once
  cases once

/-- Every virtual CPU with another number loses its table. -/
theorem Single.leaked (h : Single s) (valid : validVcpuId vcpuId = true) (number : vcpuId ≠ 0) :
    Leaked (vcpuCreate s vcpuId .created) s.heap.next := by
  obtain ⟨initialised, step, -⟩ := vcpuCreate_created (s := s) valid
  have outstanding : ∃ tables, Outstanding s.heap tables ∧
      ∀ vcpu ∈ s.vcpuList, ∀ table, vcpu.guestCpuid = some table → table ∈ tables := by
    rcases h with ⟨none, out⟩ | ⟨ref, table, one, out, -⟩
    · exact ⟨[], out, by simp [none]⟩
    · exact ⟨[table], out, by simp [one, eq_comm]⟩
  obtain ⟨tables, out, owned⟩ := outstanding
  have fresh : s.heap.next ∉ tables ++ s.heap.freed := fun mem => Nat.lt_irrefl _ (out.below _ mem)
  rw [step]
  refine ⟨Nat.lt_succ_self _, fun mem => fresh (List.mem_append_right _ mem),
    fun vcpu mem zero => ?_⟩
  rcases List.mem_cons.1 mem with rfl | mem
  · simp only [validVcpuId, Bool.decide_and, Bool.and_eq_true, decide_eq_true_eq] at valid
    have : vcpuId.toNat = 0 := zero
    omega
  · exact fun same => fresh (List.mem_append_left _ (owned vcpu mem _ same))

/-- Two numbers 0 have two tables. -/
theorem Single.not_shared (h : Single s) (some_vcpu : s.vcpuList ≠ []) :
    ¬ TablesSound (vcpuCreate s 0 .created) := fun sound => by
  obtain ⟨initialised, step, -⟩ := vcpuCreate_created (s := s) (show validVcpuId 0 = true by decide)
  rw [step] at sound
  rcases h with ⟨none, -⟩ | ⟨ref, table, one, out, -⟩
  · exact some_vcpu none
  · have same := sound.shared (createdVcpu s 0) List.mem_cons_self ⟨ref, 0, some table⟩
      (List.mem_cons_of_mem _ (by rw [one]; exact List.mem_cons_self))
    have eq : s.heap.next = table := Option.some.inj same
    exact absurd (out.below table (by simp)) (by omega)

/-! ## Whole runs -/

theorem foldl_teardown (inputs : List CpuidVcpu) (s : VmTables) :
    ((inputs.map fun vcpu => VcpuInput.teardown vcpu.ref).foldl vcpuStep s).vcpuList =
      s.vcpuList.filter fun vcpu => vcpu.ref ∉ inputs.map CpuidVcpu.ref := by
  induction inputs generalizing s with
  | nil => simp
  | cons first rest ih =>
    rw [List.map_cons, List.foldl_cons, ih]
    have once : (vcpuStep s (.teardown first.ref)).vcpuList =
        s.vcpuList.filter fun vcpu => vcpu.ref ≠ first.ref := by
      rcases vcpuTeardown_cases s first.ref with ⟨same, absent⟩ | ⟨_, _, _, step⟩
      · rw [vcpuStep, same]
        exact (List.filter_eq_self.2 fun vcpu mem => decide_eq_true (absent vcpu mem)).symm
      · rw [vcpuStep, step]
    rw [once, List.filter_filter]
    refine List.filter_congr fun vcpu _ => ?_
    simp only [List.map_cons, List.mem_cons, not_or, ne_eq, Bool.decide_and, Bool.and_comm]

theorem teardownAll_vcpuList (s : VmTables) : ((teardownAll s).foldl vcpuStep s).vcpuList = [] := by
  rw [teardownAll, foldl_teardown, List.filter_eq_nil_iff]
  intro vcpu mem
  simpa using ⟨vcpu, mem, rfl⟩

theorem allowedRun_teardownAll (s s' : VmTables) :
    AllowedRun SingleVcpu vcpuStep s (teardownAll s') := by
  unfold teardownAll
  induction s'.vcpuList generalizing s with
  | nil => trivial
  | cons vcpu rest ih => exact ⟨trivial, ih _⟩

/-- The tables are in order in every state of a run and while what is left is torn
down, exactly if the run never creates a virtual CPU but number 0, nor that one
twice. -/
theorem tablesSound_run_iff (inputs : List VcpuInput) :
    (∀ before, before <+: inputs ++ teardownAll (inputs.foldl vcpuStep .init) →
        TablesSound (before.foldl vcpuStep .init)) ↔
      AllowedRun SingleVcpu vcpuStep .init inputs := by
  have single {l : List VcpuInput} (run : AllowedRun SingleVcpu vcpuStep .init l) :
      Single (l.foldl vcpuStep .init) :=
    (Reached.init.foldl run).invariant single_init fun _ _ h => h.step
  constructor
  · intro sound
    by_contra notAllowed
    obtain ⟨pre, input, post, rfl, run, broken⟩ := exists_first_of_not_allowedRun notAllowed
    have before := single run
    generalize hlast : teardownAll _ = last at sound
    cases input with
    | teardown ref => exact broken trivial
    | create vcpuId outcome =>
      simp only [SingleVcpu, not_forall] at broken
      obtain ⟨valid, rfl, other⟩ := broken
      by_cases zero : vcpuId = 0
      · -- the state right after the creation is not in order
        subst zero
        refine before.not_shared (fun none => other ⟨rfl, none⟩) ?_
        have here := sound (pre ++ [.create 0 .created]) ⟨post ++ last, by simp⟩
        rwa [List.foldl_append] at here
      · -- the state at the end is not in order
        have leaked := ((before.leaked valid zero).run post).run last
        have none := teardownAll_vcpuList ((pre ++ .create vcpuId .created :: post).foldl vcpuStep
          .init)
        have ends := sound _ (List.prefix_refl _)
        rw [hlast, List.foldl_append, List.foldl_cons] at none
        rw [List.foldl_append, List.foldl_append, List.foldl_cons] at ends
        exact leaked.not_sound none ends
  · intro run before hbefore
    obtain ⟨after, happend⟩ := hbefore
    have all := allowedRun_append.2 ⟨run, allowedRun_teardownAll _ (inputs.foldl vcpuStep .init)⟩
    rw [← happend] at all
    exact (single (allowedRun_append.1 all).1).sound

-- Number 0 is created, in vain at first, torn down and created again.
example : AllowedRun SingleVcpu vcpuStep .init
    [.create 0 .host, .create 0 .created, .teardown 0, .create 0 .created] := by decide

/-- Two virtual CPUs, of which number 0 goes first. -/
def bootGoesFirst : List VcpuInput := [.create 0 .created, .create 1 .created, .teardown 0]

/-- Then the other one goes, too. -/
def bothGone : List VcpuInput := bootGoesFirst ++ [.teardown 1]

/-- Number 1 is left with a table that has been freed, and when it is gone as well its
own table has not been freed. A number 1 that comes first has a table that has not
been initialised. -/
theorem bootGoesFirst_unsound :
    (bootGoesFirst.foldl vcpuStep .init).vcpuList = [⟨1, 1, some 0⟩] ∧
      0 ∈ (bootGoesFirst.foldl vcpuStep .init).heap.freed ∧
      ¬ TablesSound (bootGoesFirst.foldl vcpuStep .init) ∧
      (bothGone.foldl vcpuStep .init).vcpuList = [] ∧
      1 < (bothGone.foldl vcpuStep .init).heap.next ∧
      1 ∉ (bothGone.foldl vcpuStep .init).heap.freed ∧
      ¬ TablesSound (vcpuStep .init (.create 1 .created)) := by
  refine ⟨by decide, by decide, fun sound => ?_, by decide, by decide, by decide, fun sound => ?_⟩
  · obtain ⟨table, same, -, kept, -⟩ := sound.usable ⟨1, 1, some 0⟩ (by decide)
    obtain rfl := Option.some.inj same
    exact kept (by decide)
  · obtain ⟨table, same, -, -, initialised⟩ := sound.usable ⟨0, 1, some 0⟩ (by decide)
    exact absurd initialised (by simp [vcpuStep, vcpuCreate, vcpuAllocCpuid, vcpuInitCpuid,
      haxGetVcpu, VmTables.init, validVcpuId, haxMaxVcpus])

end TableLifetime

end Haxm
