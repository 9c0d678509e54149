/-
# The common version of performance monitoring

`hax_pmu_init` looks for the lowest version of architectural performance
monitoring among the online processors and takes over the parameters of a
processor that has it. Its accumulator is `hax->apm_version` itself, in which 0
means both that no processor was seen yet and that one has no performance
monitoring at all. Such a processor is forgotten as soon as another one follows.
-/

import Haxm.Cpu.MsrBitmap

namespace Haxm

/-- `cpu_pmu_info`, as leaf 0xa has it. -/
structure PmuInfo where
  eax : BitVec 32 := 0
  ebx : BitVec 32 := 0
  edx : BitVec 32 := 0
  deriving DecidableEq, Repr

namespace PmuInfo

variable (i : PmuInfo)

def apmVersion : ℕ := (i.eax.extractLsb' 0 8).toNat
def apmGeneralCount : ℕ := (i.eax.extractLsb' 8 8).toNat
def apmGeneralBitlen : ℕ := (i.eax.extractLsb' 16 8).toNat
def apmEventCount : ℕ := (i.eax.extractLsb' 24 8).toNat

end PmuInfo

/-- A processor of `cpu_online_map`. -/
structure HostCpu where
  online : Bool
  /-- `hax_cpu_data` is not null. -/
  data : Bool
  maxLeaf : BitVec 32
  leaf0xa : PmuInfo
  deriving DecidableEq, Repr

def cpuPmuInit (cpu : HostCpu) : PmuInfo := if cpu.maxLeaf < 0xa then {} else cpu.leaf0xa

def HostCpu.version (cpu : HostCpu) : ℕ := (cpuPmuInit cpu).apmVersion

/-- The parameters in `hax` and in `hax->apm_cpuid_0xa`. There are no fixed-function counters before
version 2, which is not used. -/
structure Apm where
  version : ℕ := 0
  generalCount : ℕ := 0
  generalBitlen : ℕ := 0
  generalMask : BitVec 64 := 0
  eventCount : ℕ := 0
  eventUnavailability : BitVec 32 := 0
  deriving DecidableEq, Repr

/-- What is taken over from the processor `ref_cpu_id`. -/
def PmuInfo.apm (version : ℕ) (i : PmuInfo) : Apm where
  version := min version 1
  generalCount := min i.apmGeneralCount 4
  generalBitlen := i.apmGeneralBitlen
  generalMask := if i.apmGeneralBitlen > 63 then .allOnes 64 else 1 <<< i.apmGeneralBitlen - 1
  eventCount := min i.apmEventCount 7
  eventUnavailability := i.ebx &&& (1 <<< min i.apmEventCount 7 - 1)

/-- `hax->apm_version` and the processor `ref_cpu_id`. -/
structure CommonApm where
  version : ℕ := 0
  ref : Option HostCpu := none

def pmuStep (acc : CommonApm) (cpu : HostCpu) : CommonApm :=
  if acc.version = 0 ∨ cpu.version < acc.version then ⟨cpu.version, some cpu⟩ else acc

def commonApm (cpus : List HostCpu) : CommonApm :=
  cpus.foldl (fun acc cpu => if cpu.online && cpu.data then pmuStep acc cpu else acc) {}

/-- The parameters, and the MSR bitmaps with the counters and their event selectors opened. -/
def haxPmuInit (page : BitmapPage) (cpus : List HostCpu) : Apm × BitmapPage :=
  let common := commonApm cpus
  if common.version = 0 then ({}, page)
  else
    let apm := (common.ref.elim {} cpuPmuInit).apm common.version
    let opened start : MsrRange := ⟨start, .ofNat 32 apm.generalCount, true, true⟩
    (apm, setMsrAccess (setMsrAccess page (opened 0xc1)) (opened 0x186))

/-! ## The minimum -/

/-- The processors that count. An online one should always have its data. -/
def onlineCpus (cpus : List HostCpu) : List HostCpu := cpus.filter fun cpu => cpu.online && cpu.data

def minVersion (cpus : List HostCpu) : ℕ := ((onlineCpus cpus).map HostCpu.version).min?.getD 0

/-- The lowest version is found, and the parameters are those of a processor that has it. -/
structure SelectsMin (cpus : List HostCpu) (hax : Apm) : Prop where
  loop : (commonApm cpus).version = minVersion cpus
  version : hax.version = min (minVersion cpus) 1
  counters : minVersion cpus ≠ 0 → ∃ cpu ∈ onlineCpus cpus, cpu.version = minVersion cpus ∧
    hax = (cpuPmuInit cpu).apm (minVersion cpus)

/-- What the loop has found in `cpus`. -/
structure CommonApm.Found (cpus : List HostCpu) (acc : CommonApm) : Prop where
  zero : acc.version = 0 ↔ ∀ cpu ∈ cpus.getLast?, cpu.version = 0
  ref : acc.version ≠ 0 → ∃ cpu ∈ cpus, acc = ⟨cpu.version, some cpu⟩
  le : (∀ cpu ∈ cpus, cpu.version ≠ 0) → ∀ cpu ∈ cpus, acc.version ≤ cpu.version

theorem found_commonApm (cpus : List HostCpu) :
    (commonApm cpus).Found (onlineCpus cpus) := by
  have online : commonApm cpus = (onlineCpus cpus).foldl pmuStep {} := by
    rw [onlineCpus, List.foldl_filter]
    rfl
  rw [online]
  induction onlineCpus cpus using List.reverseRecOn with
  | nil => constructor <;> simp
  | append_singleton cpus cpu ih =>
    rw [List.foldl_append, List.foldl_cons, List.foldl_nil]
    generalize cpus.foldl pmuStep {} = acc at ih
    have le (nonzero : ∀ c ∈ cpus ++ [cpu], c.version ≠ 0) (c : HostCpu) (hc : c ∈ cpus) :
        acc.version ≠ 0 ∧ acc.version ≤ c.version := by
      have old := fun c h => nonzero c (List.mem_append_left _ h)
      refine ⟨fun zero => ?_, ih.le old c hc⟩
      have last := List.getLast_mem (List.ne_nil_of_mem hc)
      exact old _ last (ih.zero.1 zero _ (List.getLast?_eq_some_getLast _))
    unfold pmuStep
    split
    case isTrue lower =>
      refine ⟨by simp, fun _ => ⟨cpu, by simp, rfl⟩, fun nonzero c hc => ?_⟩
      rcases List.mem_append.1 hc with hc | hc
      · have := le nonzero c hc
        dsimp only
        omega
      · rw [List.mem_singleton.1 hc]
    case isFalse higher =>
      refine ⟨by simp; omega, fun nonzero => ?_, fun nonzero c hc => ?_⟩
      · obtain ⟨c, hc, rfl⟩ := ih.ref nonzero
        exact ⟨c, List.mem_append_left _ hc, rfl⟩
      · rcases List.mem_append.1 hc with hc | hc
        · exact (le nonzero c hc).2
        · rw [List.mem_singleton.1 hc]
          omega

theorem CommonApm.Found.version_eq_min_iff {cpus : List HostCpu} {acc : CommonApm}
    (found : acc.Found cpus) : acc.version = (cpus.map HostCpu.version).min?.getD 0 ↔
      ((∃ cpu ∈ cpus, cpu.version = 0) → ∀ cpu ∈ cpus.getLast?, cpu.version = 0) := by
  by_cases none : ∃ cpu ∈ cpus, cpu.version = 0
  · have min : (cpus.map HostCpu.version).min? = some 0 :=
      List.min?_eq_some_iff.2 ⟨List.mem_map.2 none, fun _ _ => Nat.zero_le _⟩
    rw [min, ← found.zero]
    exact ⟨fun zero _ => zero, fun zero => zero none⟩
  · rw [forall_prop_of_false none, iff_true]
    by_cases zero : acc.version = 0
    · obtain rfl : cpus = [] := by
        by_contra nonempty
        exact none ⟨_, List.getLast_mem nonempty,
          found.zero.1 zero _ (List.getLast?_eq_some_getLast nonempty)⟩
      exact zero
    · obtain ⟨cpu, member, rfl⟩ := found.ref zero
      have least := found.le fun cpu h zero => none ⟨cpu, h, zero⟩
      have min : (cpus.map HostCpu.version).min? = some cpu.version :=
        List.min?_eq_some_iff.2 ⟨List.mem_map_of_mem member, by simpa using least⟩
      rw [min]
      rfl

/-- The lowest version is selected exactly if the last of the processors is one without performance
monitoring, or none is. -/
theorem haxPmuInit_selectsMin_iff (page : BitmapPage) (cpus : List HostCpu) :
    SelectsMin cpus (haxPmuInit page cpus).1 ↔
      ((∃ cpu ∈ onlineCpus cpus, cpu.version = 0) →
        ∀ cpu ∈ (onlineCpus cpus).getLast?, cpu.version = 0) := by
  have found := found_commonApm cpus
  rw [← found.version_eq_min_iff]
  refine ⟨SelectsMin.loop, fun loop => ?_⟩
  replace loop : (commonApm cpus).version = minVersion cpus := loop
  unfold haxPmuInit
  by_cases zero : (commonApm cpus).version = 0
  · rw [if_pos zero]
    rw [zero] at loop
    refine ⟨zero.trans loop, ?_, fun nonzero => absurd loop.symm nonzero⟩
    rw [← loop]
    rfl
  · obtain ⟨cpu, member, ref⟩ := found.ref zero
    rw [if_neg zero]
    refine ⟨loop, ?_, fun _ => ⟨cpu, member, ?_, ?_⟩⟩
    · rw [← loop]
      rfl
    · rw [← loop, ref]
    · rw [← loop, ref]
      rfl

/-- A processor without performance monitoring, followed by one with version 2. -/
def mixedCpus : List HostCpu :=
  [⟨true, true, 0x5, {}⟩, ⟨true, true, 0x16, { eax := 0x07300402 }⟩]

theorem mixedCpus_not_selectsMin :
    minVersion mixedCpus = 0 ∧ (haxPmuInit .allOnes mixedCpus).1.version = 1 ∧
      ¬ SelectsMin mixedCpus (haxPmuInit .allOnes mixedCpus).1 :=
  ⟨by decide, by decide, fun h => absurd h.loop (by decide)⟩

end Haxm
