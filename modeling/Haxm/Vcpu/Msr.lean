/-
# Model-specific registers that the guest reaches without an exit

Around a run, `cpu_vmx_run` saves these registers of the host, gives the guest
its own, and afterwards does the reverse. The guest's values are not written by
the driver: `load_guest_msr` lists them in `gmsr_autoload`, and the processor
loads as many entries of the list as `VMX_ENTRY_MSR_LOAD_COUNT` says. That count
is written at the end of `load_guest_msr`, behind a return for hosts without
performance monitoring.

The other way round there is no list. `save_guest_msr` reads what the processor
has after `asm_vmxrun`, whether or not the guest has run.
-/

import Mathlib.Data.Fin.VecNotation
import Haxm.Lib.Run

namespace Haxm

open Lib

/-! ## Registers -/

def ia32Efer : ℕ := 0xc0000080
def ia32Star : ℕ := 0xc0000081
def ia32Lstar : ℕ := 0xc0000082
def ia32Cstar : ℕ := 0xc0000083
def ia32SfMask : ℕ := 0xc0000084
def ia32KernelGsBase : ℕ := 0xc0000102
def ia32TscAux : ℕ := 0xc0000103
def ia32Pmc0 : ℕ := 0xc1
def ia32Perfevtsel0 : ℕ := 0x186

def gmsrList : Fin 5 → ℕ := ![ia32Star, ia32Lstar, ia32Cstar, ia32SfMask, ia32KernelGsBase]

def hmsrList : Fin 6 → ℕ := Matrix.vecCons ia32Efer gmsrList

/-- `emt64_msr`, which has one element more than it is given values for. -/
def emt64Msr : List ℕ := [ia32Star, ia32Lstar, ia32Cstar, ia32SfMask, ia32KernelGsBase, 0]

/-- `is_emt64_msr`. -/
def isEmt64Msr (entry : ℕ) : Bool := emt64Msr.contains entry

def nrGmsrAutoload : ℕ := 14
def apmMaxGeneralCount : ℕ := 4

/-- What the driver has found out about the host. -/
structure MsrConfig where
  em64t : Bool
  rdtscp : Bool
  apmVersion : ℕ
  apmGeneralCount : ℕ
  count_le : apmGeneralCount ≤ apmMaxGeneralCount

/-- `vmx_msr`, and an entry of `gmsr_autoload`. -/
structure VmxMsr where
  entry : ℕ
  value : BitVec 64

/-- `gstate`, with `VMX_ENTRY_MSR_LOAD_COUNT` of the VMCS. -/
structure Gstate where
  gmsr : Fin 5 → VmxMsr
  gmsrAutoload : ℕ → VmxMsr
  apmPmcMsrs : ℕ → BitVec 64
  apmPesMsrs : ℕ → BitVec 64
  tscAux : BitVec 64
  entryMsrLoadCount : ℕ

/-- `hstate`, as far as it has to do with these registers. -/
structure Hstate where
  hmsr : Fin 6 → VmxMsr
  apmPmcMsrs : ℕ → BitVec 64
  apmPesMsrs : ℕ → BitVec 64
  tscAux : BitVec 64

/-- The registers of a processor. -/
abbrev MsrFile := ℕ → BitVec 64

/-- Writes to the registers, in this order. -/
def MsrFile.load (file : MsrFile) (l : List VmxMsr) : MsrFile :=
  l.foldl (fun f e => Function.update f e.entry e.value) file

/-! ## Saving and loading -/

variable (c : MsrConfig)

/-- `save_guest_msr`. -/
def saveGuestMsr (file : MsrFile) (g : Gstate) : Gstate :=
  { g with
    gmsr := fun i =>
      { entry := gmsrList i
        value :=
          if c.em64t || !isEmt64Msr (gmsrList i) then file (gmsrList i) else (g.gmsr i).value }
    tscAux := if c.rdtscp then file ia32TscAux else g.tscAux
    apmPmcMsrs := fun i =>
      if c.apmVersion ≠ 0 ∧ i < c.apmGeneralCount then file (ia32Pmc0 + i) else g.apmPmcMsrs i
    apmPesMsrs := fun i =>
      if c.apmVersion ≠ 0 ∧ i < c.apmGeneralCount then file (ia32Perfevtsel0 + i)
      else g.apmPesMsrs i }

/-- The entries that `load_guest_msr` fills in before its early return. -/
def autoloadBase (g : Gstate) : List VmxMsr :=
  ((List.finRange 5).filter fun i => c.em64t || !isEmt64Msr (g.gmsr i).entry).map g.gmsr ++
    if c.rdtscp then [⟨ia32TscAux, g.tscAux⟩] else []

/-- The entries that it fills in afterwards. -/
def autoloadApm (g : Gstate) : List VmxMsr :=
  (List.range c.apmGeneralCount).map (fun i => ⟨ia32Pmc0 + i, g.apmPmcMsrs i⟩) ++
    (List.range c.apmGeneralCount).map fun i => ⟨ia32Perfevtsel0 + i, g.apmPesMsrs i⟩

/-- Everything that `load_guest_msr` fills in. -/
def autoloadFilled (g : Gstate) : List VmxMsr :=
  autoloadBase c g ++ if c.apmVersion = 0 then [] else autoloadApm c g

/-- The array after its first elements have been overwritten. -/
def overwrite (l : List VmxMsr) (old : ℕ → VmxMsr) : ℕ → VmxMsr := fun i => l.getD i (old i)

/-- `load_guest_msr`. -/
def loadGuestMsr (g : Gstate) : Gstate :=
  let filled := { g with gmsrAutoload := overwrite (autoloadFilled c g) g.gmsrAutoload }
  if c.apmVersion = 0 then filled
  else { filled with entryMsrLoadCount := (autoloadFilled c g).length }

/-- `save_host_msr`. -/
def saveHostMsr (file : MsrFile) (h : Hstate) : Hstate :=
  { hmsr := fun i =>
      { entry := hmsrList i
        value :=
          if c.em64t || !isEmt64Msr (hmsrList i) then file (hmsrList i) else (h.hmsr i).value }
    tscAux := if c.rdtscp then file ia32TscAux else h.tscAux
    apmPmcMsrs := fun i =>
      if c.apmVersion ≠ 0 ∧ i < c.apmGeneralCount then file (ia32Pmc0 + i) else h.apmPmcMsrs i
    apmPesMsrs := fun i =>
      if c.apmVersion ≠ 0 ∧ i < c.apmGeneralCount then file (ia32Perfevtsel0 + i)
      else h.apmPesMsrs i }

/-- `load_host_msr`. -/
def loadHostMsr (h : Hstate) (file : MsrFile) : MsrFile :=
  let file := file.load
    (((List.finRange 6).filter fun i => c.em64t || !isEmt64Msr (h.hmsr i).entry).map h.hmsr)
  let file := if c.rdtscp then file.load [⟨ia32TscAux, h.tscAux⟩] else file
  if c.apmVersion = 0 then file
  else file.load ((List.range c.apmGeneralCount).flatMap fun i =>
    [⟨ia32Pmc0 + i, h.apmPmcMsrs i⟩, ⟨ia32Perfevtsel0 + i, h.apmPesMsrs i⟩])

/-! ## A run -/

/-- The registers that the processor has and the guest reaches without an exit. -/
def managedMsrs : List ℕ :=
  (if c.em64t then (List.finRange 5).map gmsrList else []) ++
    (if c.rdtscp then [ia32TscAux] else []) ++
      if c.apmVersion = 0 then []
      else (List.range c.apmGeneralCount).map (ia32Pmc0 + ·) ++
        (List.range c.apmGeneralCount).map (ia32Perfevtsel0 + ·)

/-- What comes of an attempt to enter the guest. -/
inductive EntryOutcome
  /-- The guest runs and leaves these values behind. -/
  | entered (final : MsrFile)
  /-- The entry fails after the first `loaded` entries of the list. -/
  | failed (loaded : ℕ)

/-- The entries that the processor loads. -/
def autoloadLoaded (g : Gstate) : List VmxMsr :=
  (List.range g.entryMsrLoadCount).map g.gmsrAutoload

/-- The registers with which the guest starts. -/
def entryFile (g : Gstate) (file : MsrFile) : MsrFile := file.load (autoloadLoaded g)

/-- The registers after `asm_vmxrun`. -/
def afterVmxrun (g : Gstate) (file : MsrFile) : EntryOutcome → MsrFile
  | .entered final => fun m => if m ∈ managedMsrs c then final m else entryFile g file m
  | .failed loaded => file.load ((autoloadLoaded g).take loaded)

/-- `cpu_vmx_run`: the state of the guest and the registers of the processor. -/
def cpuVmxRunMsr (h : Hstate) (file : MsrFile) (o : EntryOutcome) (g : Gstate) :
    Gstate × MsrFile :=
  let saved := saveHostMsr c file h
  let g := loadGuestMsr c g
  let after := afterVmxrun c g file o
  (saveGuestMsr c after g, loadHostMsr c saved after)

/-- `handle_msr_write`, for the registers at hand. -/
def handleMsrWrite (msr : ℕ) (val : BitVec 64) (g : Gstate) : Gstate :=
  match (List.finRange 5).find? fun i => gmsrList i = msr with
  | some i => { g with gmsr := Function.update g.gmsr i ⟨msr, val⟩ }
  | none =>
    if msr = ia32TscAux then
      if !c.rdtscp || val >>> 32 != 0 then g else { g with tscAux := val }
    else if ia32Pmc0 ≤ msr ∧ msr < ia32Pmc0 + apmMaxGeneralCount then
      if c.apmVersion = 0 then g
      else { g with
        apmPmcMsrs := Function.update g.apmPmcMsrs (msr - ia32Pmc0) (val &&& 0xffffffff) }
    else if ia32Perfevtsel0 ≤ msr ∧ msr < ia32Perfevtsel0 + apmMaxGeneralCount then
      if c.apmVersion = 0 then g
      else { g with
        apmPesMsrs := Function.update g.apmPesMsrs (msr - ia32Perfevtsel0) (val &&& 0xffffffff) }
    else g

/-- `gstate` after `vcpu_init` and `fill_common_vmcs`. -/
def gstateInit : Gstate where
  gmsr i := ⟨gmsrList i, 0⟩
  gmsrAutoload _ := ⟨0, 0⟩
  apmPmcMsrs _ := 0
  apmPesMsrs _ := 0
  tscAux := 0
  entryMsrLoadCount := 0

inductive MsrStep
  /-- A run, on a processor with any registers. -/
  | run (h : Hstate) (file : MsrFile) (o : EntryOutcome)
  /-- A write by the guest or by user space. -/
  | write (msr : ℕ) (val : BitVec 64)

def msrStep (g : Gstate) : MsrStep → Gstate
  | .run h file o => (cpuVmxRunMsr c h file o g).1
  | .write msr val => handleMsrWrite c msr val g

def MsrReached (g : Gstate) : Prop := Reached gstateInit (fun _ _ => True) (msrStep c) g

/-- The guest's value of a register, as `handle_msr_read` looks it up. -/
def Gstate.value (g : Gstate) (msr : ℕ) : BitVec 64 :=
  match (List.finRange 5).find? fun i => (g.gmsr i).entry = msr with
  | some i => (g.gmsr i).value
  | none =>
    if msr = ia32TscAux then g.tscAux
    else if msr < ia32Perfevtsel0 then g.apmPmcMsrs (msr - ia32Pmc0)
    else g.apmPesMsrs (msr - ia32Perfevtsel0)

/-! ## What the list holds -/

/-- Writes whose values depend on the register alone. -/
theorem MsrFile.load_map (v : ℕ → BitVec 64) (keys : List ℕ) (file : MsrFile) (m : ℕ) :
    file.load (keys.map fun k => ⟨k, v k⟩) m = if m ∈ keys then v m else file m := by
  induction keys generalizing file with
  | nil => rfl
  | cons k keys ih =>
    refine (ih (Function.update file k (v k))).trans ?_
    by_cases here : m = k
    · subst here
      simp
    · simp [here]

variable {c} {g : Gstate}

/-- The registers in `gmsr` are those of `gmsr_list`, and without performance
monitoring the count is never written. -/
structure GstateOk (c : MsrConfig) (g : Gstate) : Prop where
  entries : ∀ i, (g.gmsr i).entry = gmsrList i
  count : c.apmVersion = 0 → g.entryMsrLoadCount = 0

theorem isEmt64Msr_gmsrList : ∀ i, isEmt64Msr (gmsrList i) = true := by decide

theorem GstateOk.find_entry (ok : GstateOk c g) (msr : ℕ) :
    (List.finRange 5).find? (fun i => (g.gmsr i).entry = msr) =
      (List.finRange 5).find? fun i => gmsrList i = msr := by
  simp only [ok.entries]

theorem GstateOk.value_gmsr (ok : GstateOk c g) (i : Fin 5) :
    g.value (gmsrList i) = (g.gmsr i).value := by
  have found : ∀ i, ((List.finRange 5).find? fun j => gmsrList j = gmsrList i) = some i := by decide
  simp only [Gstate.value, ok.find_entry, found]

theorem GstateOk.value_tscAux (ok : GstateOk c g) : g.value ia32TscAux = g.tscAux := by
  have other : ((List.finRange 5).find? fun j => gmsrList j = ia32TscAux) = none := by decide
  simp only [Gstate.value, ok.find_entry, other, if_true]

theorem GstateOk.value_pmc (ok : GstateOk c g) {i : ℕ} (small : i < 4) :
    g.value (ia32Pmc0 + i) = g.apmPmcMsrs i := by
  have other : ∀ i < 4, ((List.finRange 5).find? fun j => gmsrList j = ia32Pmc0 + i) = none ∧
      ia32Pmc0 + i ≠ ia32TscAux ∧ ia32Pmc0 + i < ia32Perfevtsel0 := by decide
  obtain ⟨none, notAux, low⟩ := other i small
  simp only [Gstate.value, ok.find_entry, none, notAux, low, if_true, if_false,
    Nat.add_sub_cancel_left]

theorem GstateOk.value_pes (ok : GstateOk c g) {i : ℕ} (small : i < 4) :
    g.value (ia32Perfevtsel0 + i) = g.apmPesMsrs i := by
  have other : ∀ i < 4,
      ((List.finRange 5).find? fun j => gmsrList j = ia32Perfevtsel0 + i) = none ∧
      ia32Perfevtsel0 + i ≠ ia32TscAux ∧ ¬ ia32Perfevtsel0 + i < ia32Perfevtsel0 := by decide
  obtain ⟨none, notAux, high⟩ := other i small
  simp only [Gstate.value, ok.find_entry, none, notAux, high, if_false, Nat.add_sub_cancel_left]

/-- The counters lie within the array of the driver. -/
theorem MsrConfig.lt_four {i : ℕ} (h : i ∈ List.range c.apmGeneralCount) : i < 4 :=
  (List.mem_range.mp h).trans_le c.count_le

/-- `load_guest_msr` lists every register with the guest's value. -/
theorem GstateOk.autoloadFilled_eq (ok : GstateOk c g) :
    autoloadFilled c g = (managedMsrs c).map fun m => ⟨m, g.value m⟩ := by
  have gmsr : ((List.finRange 5).filter fun i => c.em64t || !isEmt64Msr (g.gmsr i).entry).map
      g.gmsr = (if c.em64t then (List.finRange 5).map gmsrList else []).map
        fun m => ⟨m, g.value m⟩ := by
    cases c.em64t with
    | true =>
      have all : (List.finRange 5).filter (fun i => true || !isEmt64Msr (g.gmsr i).entry) =
          List.finRange 5 := List.filter_eq_self.mpr fun _ _ => rfl
      rw [all, if_pos rfl, List.map_map]
      refine List.map_congr_left fun i _ => ?_
      rw [Function.comp_apply, ok.value_gmsr, ← ok.entries]
    | false =>
      simp [ok.entries, isEmt64Msr_gmsrList]
  have tscAux : (if c.rdtscp then [(⟨ia32TscAux, g.tscAux⟩ : VmxMsr)] else []) =
      (if c.rdtscp then [ia32TscAux] else []).map fun m => ⟨m, g.value m⟩ := by
    cases c.rdtscp with
    | true => simp [ok.value_tscAux]
    | false => rfl
  have apm : autoloadApm c g = ((List.range c.apmGeneralCount).map (ia32Pmc0 + ·) ++
      (List.range c.apmGeneralCount).map (ia32Perfevtsel0 + ·)).map fun m => ⟨m, g.value m⟩ := by
    unfold autoloadApm
    rw [List.map_append, List.map_map, List.map_map]
    refine congrArg₂ _ (List.map_congr_left fun i h => ?_) (List.map_congr_left fun i h => ?_)
    · simp only [Function.comp_apply, ok.value_pmc (MsrConfig.lt_four h)]
    · simp only [Function.comp_apply, ok.value_pes (MsrConfig.lt_four h)]
  unfold autoloadFilled autoloadBase managedMsrs
  rw [gmsr, tscAux, ← List.map_append, apm]
  by_cases none : c.apmVersion = 0
  · rw [if_pos none, if_pos none, List.append_nil, List.append_nil]
  · rw [if_neg none, if_neg none, ← List.map_append]

theorem length_managedMsrs_le (c : MsrConfig) : (managedMsrs c).length ≤ nrGmsrAutoload := by
  have bound := c.count_le
  unfold managedMsrs nrGmsrAutoload
  unfold apmMaxGeneralCount at bound
  rw [List.length_append, List.length_append]
  have gmsr : (if c.em64t then (List.finRange 5).map gmsrList else []).length ≤ 5 := by
    split <;> decide
  have tscAux : (if c.rdtscp then [ia32TscAux] else []).length ≤ 1 := by
    split <;> decide
  by_cases none : c.apmVersion = 0
  · rw [if_pos none, List.length_nil]
    omega
  · rw [if_neg none, List.length_append, List.length_map, List.length_map, List.length_range]
    omega

/-- The processor loads the whole list, or nothing of it. -/
theorem GstateOk.autoloadLoaded_eq (ok : GstateOk c g) : autoloadLoaded (loadGuestMsr c g) =
    if c.apmVersion = 0 then [] else (managedMsrs c).map fun m => ⟨m, g.value m⟩ := by
  unfold autoloadLoaded loadGuestMsr
  dsimp only
  split
  · rename_i none
    rw [ok.count none]
    rfl
  · rw [← ok.autoloadFilled_eq]
    apply List.ext_getElem
    · simp
    · intro i _ small
      simp [overwrite, small]

/-- What `save_guest_msr` stores is what the processor has. -/
theorem saveGuestMsr_value (file : MsrFile) (g : Gstate) {m : ℕ} (managed : m ∈ managedMsrs c) :
    (saveGuestMsr c file g).value m = file m := by
  have ok : GstateOk { c with apmVersion := 1 } (saveGuestMsr c file g) := ⟨fun _ => rfl, nofun⟩
  unfold managedMsrs at managed
  rw [List.mem_append, List.mem_append] at managed
  rcases managed with (gmsr | tscAux) | apm
  · cases em64t : c.em64t with
    | false => simp [em64t] at gmsr
    | true =>
      rw [em64t, if_pos rfl, List.mem_map] at gmsr
      obtain ⟨i, -, rfl⟩ := gmsr
      rw [ok.value_gmsr]
      simp [saveGuestMsr, em64t]
  · cases rdtscp : c.rdtscp with
    | false => simp [rdtscp] at tscAux
    | true =>
      rw [rdtscp, if_pos rfl, List.mem_singleton] at tscAux
      rw [tscAux, ok.value_tscAux]
      simp [saveGuestMsr, rdtscp]
  · split at apm
    · simp at apm
    · rename_i some
      rw [List.mem_append, List.mem_map, List.mem_map] at apm
      rcases apm with ⟨i, h, rfl⟩ | ⟨i, h, rfl⟩
      · rw [ok.value_pmc (MsrConfig.lt_four h)]
        simp only [saveGuestMsr, ne_eq, some, not_false_eq_true, List.mem_range.mp h, and_self,
          if_true]
      · rw [ok.value_pes (MsrConfig.lt_four h)]
        simp only [saveGuestMsr, ne_eq, some, not_false_eq_true, List.mem_range.mp h, and_self,
          if_true]

/-! ## Isolation -/

/-- The processor is told to load what was filled in, which fits into the array;
the guest starts with its own values, and its final values are stored. If there
is no guest to leave any, the stored ones stay the guest's. -/
def MsrIsolated (c : MsrConfig) (h : Hstate) (file : MsrFile) (o : EntryOutcome) (g : Gstate) :
    Prop :=
  (loadGuestMsr c g).entryMsrLoadCount = (autoloadFilled c g).length ∧
    (loadGuestMsr c g).entryMsrLoadCount ≤ nrGmsrAutoload ∧
    match o with
    | .entered final => (∀ m ∈ managedMsrs c, entryFile (loadGuestMsr c g) file m = g.value m) ∧
        ∀ m ∈ managedMsrs c, (cpuVmxRunMsr c h file o g).1.value m = final m
    | .failed _ => ∀ m ∈ managedMsrs c, (cpuVmxRunMsr c h file o g).1.value m = g.value m

/-- Where the entry fails, the processor had the guest's values already in the
registers that were not loaded. -/
def FailureHarmless (c : MsrConfig) (g : Gstate) (file : MsrFile) : EntryOutcome → Prop
  | .entered _ => True
  | .failed loaded => ∀ m ∈ managedMsrs c, m ∉ (managedMsrs c).take loaded → file m = g.value m

theorem GstateOk.init (c : MsrConfig) : GstateOk c gstateInit := ⟨fun _ => rfl, fun _ => rfl⟩

theorem GstateOk.step (ok : GstateOk c g) (step : MsrStep) : GstateOk c (msrStep c g step) := by
  cases step with
  | run h file o =>
    refine ⟨fun _ => rfl, fun none => ?_⟩
    change (loadGuestMsr c g).entryMsrLoadCount = 0
    rw [loadGuestMsr, if_pos none]
    exact ok.count none
  | write msr val =>
    change GstateOk c (handleMsrWrite c msr val g)
    unfold handleMsrWrite
    split
    · rename_i i found
      refine ⟨fun j => ?_, ok.count⟩
      have here : gmsrList i = msr := by simpa using List.find?_some found
      dsimp only
      by_cases same : j = i
      · subst same
        rw [Function.update_self, here]
      · rw [Function.update_of_ne same]
        exact ok.entries j
    · repeat' split
      all_goals exact ⟨ok.entries, ok.count⟩

theorem MsrReached.ok (reached : MsrReached c g) : GstateOk c g :=
  reached.invariant (.init c) fun _ step ok _ => ok.step step

/-- Nothing is to be loaded on a host that has none of the registers. -/
theorem managedMsrs_eq_nil_iff (none : c.apmVersion = 0) :
    managedMsrs c = [] ↔ c.em64t = false ∧ c.rdtscp = false := by
  unfold managedMsrs
  rw [if_pos none]
  cases c.em64t <;> cases c.rdtscp <;> simp [List.finRange]

theorem GstateOk.count_eq_iff (ok : GstateOk c g) :
    (loadGuestMsr c g).entryMsrLoadCount = (autoloadFilled c g).length ↔
      c.apmVersion ≠ 0 ∨ c.em64t = false ∧ c.rdtscp = false := by
  unfold loadGuestMsr
  by_cases none : c.apmVersion = 0
  · rw [if_pos none, ok.autoloadFilled_eq, List.length_map, ← managedMsrs_eq_nil_iff none]
    simp only [ok.count none, ne_eq, none, not_true_eq_false, false_or, ← List.length_eq_zero_iff]
    exact eq_comm
  · rw [if_neg none]
    exact iff_of_true rfl (.inl none)

/-- A run isolates the guest's registers from the host's if and only if the count
is written, or nothing is to be loaded, and a failed entry has no effect. -/
theorem cpuVmxRun_isolated_iff {c : MsrConfig} {g : Gstate} (reached : MsrReached c g) (h : Hstate)
    (file : MsrFile) (o : EntryOutcome) :
    MsrIsolated c h file o g ↔
      (c.apmVersion ≠ 0 ∨ c.em64t = false ∧ c.rdtscp = false) ∧ FailureHarmless c g file o := by
  have ok := reached.ok
  unfold MsrIsolated
  rw [ok.count_eq_iff]
  refine and_congr_right fun written => ?_
  have fits : (loadGuestMsr c g).entryMsrLoadCount ≤ nrGmsrAutoload := by
    rw [ok.count_eq_iff.mpr written, ok.autoloadFilled_eq, List.length_map]
    exact length_managedMsrs_le c
  -- either way the processor loads everything there is
  have loaded : autoloadLoaded (loadGuestMsr c g) =
      (managedMsrs c).map fun m => ⟨m, g.value m⟩ := by
    rw [ok.autoloadLoaded_eq]
    split
    · rename_i none
      rw [(managedMsrs_eq_nil_iff none).mpr (written.resolve_left (absurd none))]
      rfl
    · rfl
  have stored : ∀ m ∈ managedMsrs c, (cpuVmxRunMsr c h file o g).1.value m =
      afterVmxrun c (loadGuestMsr c g) file o m := fun m managed => saveGuestMsr_value _ _ managed
  refine (and_iff_right fits).trans ?_
  cases o with
  | entered final =>
    refine iff_of_true ⟨fun m managed => ?_, fun m managed => ?_⟩ trivial
    · rw [entryFile, loaded, MsrFile.load_map, if_pos managed]
    · rw [stored m managed]
      exact if_pos managed
  | failed k =>
    refine forall₂_congr fun m managed => ?_
    rw [stored m managed, afterVmxrun, loaded, ← List.map_take, MsrFile.load_map]
    by_cases early : m ∈ (managedMsrs c).take k
    · simp [early]
    · simp [early]

/-- Everything that `load_host_msr` writes. -/
def hostLoaded (c : MsrConfig) (h : Hstate) : List VmxMsr :=
  ((List.finRange 6).filter fun i => c.em64t || !isEmt64Msr (h.hmsr i).entry).map h.hmsr ++
    (if c.rdtscp then [⟨ia32TscAux, h.tscAux⟩] else []) ++
      if c.apmVersion = 0 then []
      else (List.range c.apmGeneralCount).flatMap fun i =>
        [⟨ia32Pmc0 + i, h.apmPmcMsrs i⟩, ⟨ia32Perfevtsel0 + i, h.apmPesMsrs i⟩]

theorem loadHostMsr_eq (h : Hstate) (file : MsrFile) :
    loadHostMsr c h file = file.load (hostLoaded c h) := by
  unfold loadHostMsr hostLoaded
  cases c.rdtscp <;> by_cases counts : c.apmVersion = 0 <;>
    simp [counts, MsrFile.load, List.foldl_append]

/-- Values that were read before are written back. -/
theorem MsrFile.load_saved {file after : MsrFile} {l : List VmxMsr} {m : ℕ}
    (saved : ∀ e ∈ l, e.value = file e.entry) (h : after m = file m ∨ m ∈ l.map VmxMsr.entry) :
    after.load l m = file m := by
  induction l generalizing after with
  | nil => exact h.resolve_right List.not_mem_nil
  | cons e l ih =>
    refine ih (fun e he => saved e (List.mem_cons_of_mem _ he)) ?_
    dsimp only
    by_cases here : m = e.entry
    · left
      rw [here, Function.update_self, saved e List.mem_cons_self]
    · rw [Function.update_of_ne here]
      simpa [here] using h

theorem hostLoaded_saved (file : MsrFile) (h : Hstate) :
    ∀ e ∈ hostLoaded c (saveHostMsr c file h), e.value = file e.entry := by
  intro e he
  simp only [hostLoaded, List.mem_append, List.mem_map, List.mem_filter, List.mem_finRange,
    true_and] at he
  rcases he with (⟨i, read, rfl⟩ | he) | he
  · exact if_pos read
  · split at he
    case isTrue reads =>
      rw [List.mem_singleton.1 he]
      exact if_pos reads
    case isFalse => cases he
  · split at he
    case isTrue => cases he
    case isFalse counts =>
      obtain ⟨i, small, he⟩ := List.mem_flatMap.1 he
      have read : c.apmVersion ≠ 0 ∧ i < c.apmGeneralCount := ⟨counts, List.mem_range.1 small⟩
      simp only [List.mem_cons, List.not_mem_nil, or_false] at he
      rcases he with rfl | rfl
      · exact if_pos read
      · exact if_pos read

theorem mem_hostLoaded {file : MsrFile} {h : Hstate} {m : ℕ}
    (managed : m = ia32Efer ∨ m ∈ managedMsrs c) :
    m ∈ (hostLoaded c (saveHostMsr c file h)).map VmxMsr.entry := by
  have hmsr (i : Fin 6) (read : c.em64t || !isEmt64Msr (hmsrList i)) :
      hmsrList i ∈ (hostLoaded c (saveHostMsr c file h)).map VmxMsr.entry := by
    refine List.mem_map.2 ⟨(saveHostMsr c file h).hmsr i, ?_, rfl⟩
    refine List.mem_append_left _ (List.mem_append_left _ (List.mem_map.2 ⟨i, ?_, rfl⟩))
    exact List.mem_filter.2 ⟨List.mem_finRange i, read⟩
  rcases managed with rfl | managed
  · exact hmsr 0 (by rw [Bool.or_eq_true]; exact .inr (by decide))
  · simp only [managedMsrs, List.mem_append] at managed
    rcases managed with (managed | managed) | managed
    · split at managed
      case isTrue em64t =>
        obtain ⟨i, -, rfl⟩ := List.mem_map.1 managed
        exact hmsr i.succ (by rw [em64t]; rfl)
      case isFalse => cases managed
    · simp only [hostLoaded, List.map_append, List.mem_append]
      left
      right
      split at managed
      case isTrue reads => simpa [reads] using managed
      case isFalse => cases managed
    · split at managed
      case isTrue => cases managed
      case isFalse counts =>
        simp only [hostLoaded, List.map_append, List.mem_append, counts, if_false]
        right
        simp only [List.mem_append, List.mem_map] at managed ⊢
        rcases managed with ⟨i, small, rfl⟩ | ⟨i, small, rfl⟩
        · exact ⟨_, List.mem_flatMap.2 ⟨i, small, List.mem_cons_self⟩, rfl⟩
        · exact ⟨_, List.mem_flatMap.2 ⟨i, small, List.mem_cons_of_mem _ List.mem_cons_self⟩, rfl⟩

/-- After a run the host has its own registers again, whatever has come of the entry. -/
theorem cpuVmxRunMsr_host (h : Hstate) (file : MsrFile) (o : EntryOutcome) (g : Gstate) {m : ℕ}
    (managed : m = ia32Efer ∨ m ∈ managedMsrs c) : (cpuVmxRunMsr c h file o g).2 m = file m :=
  (congrFun (loadHostMsr_eq _ _) m).trans
    (MsrFile.load_saved (hostLoaded_saved file h) (.inr (mem_hostLoaded managed)))

/-- A 64-bit host with RDTSCP and the given version of performance monitoring. -/
def msrHost (apmVersion : ℕ) : MsrConfig where
  em64t := true
  rdtscp := true
  apmVersion := apmVersion
  apmGeneralCount := 4
  count_le := le_refl _

/-- The host's state and registers before a run. -/
def msrHostState : Hstate where
  hmsr _ := ⟨0, 0⟩
  apmPmcMsrs _ := 0
  apmPesMsrs _ := 0
  tscAux := 0

theorem msrHost_one_isolated :
    MsrIsolated (msrHost 1) msrHostState (fun _ => 1) (.entered fun _ => 2) gstateInit :=
  (cpuVmxRun_isolated_iff .init msrHostState _ _).mpr ⟨.inl (by decide), trivial⟩

/-- The first run of a guest starts with the host's `IA32_STAR`. -/
theorem msrHost_zero_not_isolated : MsrReached (msrHost 0) gstateInit ∧
    ¬ MsrIsolated (msrHost 0) msrHostState (fun _ => 1) (.entered fun _ => 2) gstateInit := by
  refine ⟨.init, fun isolated => ?_⟩
  have star := isolated.2.2.1 ia32Star (by decide)
  exact absurd star (by decide)

end Haxm
