/-
# Reading and changing the CPUID table

The table is used as a map from leaves and subleaves to entries: a change of an
entry is seen under its own key and under no other, and CPUID answers a leaf and
subleaf with the entry of that key. Both hold for every table that has the keys of
`kCpuidManager`, which every reachable table does.
-/

import Haxm.Cpuid.Cpuid

namespace Haxm

open Lib

/-! ## The keys of the table -/

def CpuidEntry.key (e : CpuidEntry) : BitVec 32 × BitVec 32 := (e.function, e.index)

/-- The leaves and subleaves of `kCpuidManager`. -/
def cpuidKeys : List (BitVec 32 × BitVec 32) :=
  [(0x0, 0), (0x1, 0), (0x2, 0), (0x7, 0), (0x7, 1), (0xa, 0), (0xd, 0), (0xd, 1), (0x15, 0),
   (0x16, 0), (0x40000000, 0), (0x80000000, 0), (0x80000001, 0), (0x80000002, 0),
   (0x80000003, 0), (0x80000004, 0), (0x80000006, 0), (0x80000008, 0)]

variable {host : CpuidHost} {table info : List CpuidEntry} {e : CpuidEntry}
  {function index leaf subleaf : BitVec 32} {c : CpuidController}

theorem cpuidFill_keys (l : List CpuidManager) (stack : CpuidArgs) :
    (cpuidFill host l stack).map CpuidEntry.key = l.map fun m => (m.leaf, m.subleaf) := by
  induction l generalizing stack with
  | nil => rfl
  | cons m l ih => exact congrArg₂ List.cons rfl (ih _)

/-- An update that keeps the key of the entry it is meant for keeps all keys. -/
theorem updateCpuidEntry_keys {function index : BitVec 32} {f : CpuidEntry → CpuidEntry}
    (keeps : ∀ e : CpuidEntry, e.key = (function, index) → (f e).key = e.key)
    (table : List CpuidEntry) :
    (updateCpuidEntry function index f table).map CpuidEntry.key = table.map CpuidEntry.key := by
  induction table with
  | nil => rfl
  | cons e l ih =>
    unfold updateCpuidEntry
    split
    · rename_i found
      rw [List.map_cons, List.map_cons, keeps e (Prod.ext found.1 found.2)]
    · rw [List.map_cons, List.map_cons, ih]

/-- A controller does not change the key of an entry. -/
def CpuidController.KeepsKey (c : CpuidController) : Prop :=
  ∀ dest src : CpuidEntry, src.key = dest.key →
    ((c.setLeaf.getD fun _ src => src) dest src).key = dest.key

theorem kCpuidController_keepsKey : ∀ c ∈ kCpuidController, c.KeepsKey := by
  have copied : ∀ dest src : CpuidEntry, src.key = dest.key → src.key = dest.key := fun _ _ => id
  have conditional : ∀ (p : Prop) [Decidable p] (dest src res : CpuidEntry),
      res.key = dest.key → (if p then dest else res).key = dest.key := by
    intro p _ dest src res same
    split
    · rfl
    · exact same
  simp only [kCpuidController, List.forall_mem_cons, List.not_mem_nil, IsEmpty.forall_iff,
    implies_true, and_true]
  refine ⟨fun _ _ _ => rfl, fun _ _ _ => rfl, copied, copied, copied, copied,
    fun dest src same => conditional _ dest src src same,
    fun dest src _ => conditional _ dest src _ rfl, copied, fun _ _ _ => rfl, fun _ _ _ => rfl,
    copied, copied, copied, fun _ _ _ => rfl, fun _ _ _ => rfl⟩

theorem setFeature_keys {c : CpuidController} (keeps : c.KeepsKey) (info : List CpuidEntry) :
    (setFeature info table c).map CpuidEntry.key = table.map CpuidEntry.key := by
  unfold setFeature
  split
  · rfl
  · rename_i src found
    apply updateCpuidEntry_keys
    intro dest same
    have key := List.find?_some found
    simp only [Bool.decide_and, Bool.and_eq_true, decide_eq_true_eq] at key
    exact keeps dest src ((Prod.ext key.1 key.2).trans same.symm)

theorem foldl_setFeature_keys {l : List CpuidController} (keeps : ∀ c ∈ l, c.KeepsKey)
    (info : List CpuidEntry) :
    (l.foldl (setFeature info) table).map CpuidEntry.key = table.map CpuidEntry.key := by
  induction l generalizing table with
  | nil => rfl
  | cons c l ih =>
    obtain ⟨head, tail⟩ := List.forall_mem_cons.mp keeps
    rw [List.foldl_cons, ih tail, setFeature_keys head]

theorem cpuidUpdate_keys (xsave osxsave : Bool) (xcr0 : BitVec 64) :
    (cpuidUpdate host xsave osxsave xcr0 table).map CpuidEntry.key =
      table.map CpuidEntry.key := by
  unfold cpuidUpdate
  dsimp only
  rw [updateCpuidEntry_keys, updateCpuidEntry_keys]
  · split
    · rw [updateCpuidEntry_keys]
      exact fun _ _ => rfl
    · rfl
  · exact fun _ _ => rfl
  · intro e _
    split <;> rfl

theorem CpuidReached.keys (reached : CpuidReached host table) :
    table.map CpuidEntry.key = cpuidKeys := by
  obtain ⟨stack, reached⟩ := reached
  refine reached.invariant (I := fun table => table.map CpuidEntry.key = cpuidKeys)
    (cpuidFill_keys _ stack) fun table call keys _ => ?_
  cases call with
  | setCpuid info => exact (foldl_setFeature_keys kCpuidController_keepsKey info).trans keys
  | update xsave osxsave xcr0 => exact (cpuidUpdate_keys xsave osxsave xcr0).trans keys

/-! ## One entry -/

theorem findCpuidEntry_key (found : findCpuidEntry table function index = some e) :
    e.key = (function, index) := by
  have key := List.find?_some found
  rw [decide_eq_true_eq] at key
  exact Prod.ext key.1 key.2

/-- An update that keeps its key. -/
def KeepsKey (function index : BitVec 32) (f : CpuidEntry → CpuidEntry) : Prop :=
  ∀ e : CpuidEntry, e.key = (function, index) → (f e).key = (function, index)

theorem findCpuidEntry_update {f : CpuidEntry → CpuidEntry} (keeps : KeepsKey function index f)
    (table : List CpuidEntry) :
    findCpuidEntry (updateCpuidEntry function index f table) function index =
      (findCpuidEntry table function index).map f := by
  induction table with
  | nil => rfl
  | cons e l ih =>
    unfold updateCpuidEntry findCpuidEntry
    by_cases same : e.function = function ∧ e.index = index
    · have key := keeps e (Prod.ext same.1 same.2)
      have kept : (f e).function = function ∧ (f e).index = index :=
        ⟨congrArg Prod.fst key, congrArg Prod.snd key⟩
      rw [if_pos same, List.find?_cons_of_pos (by simpa using kept),
        List.find?_cons_of_pos (by simpa using same)]
      rfl
    · rw [if_neg same, List.find?_cons_of_neg (by simpa using same),
        List.find?_cons_of_neg (by simpa using same)]
      exact ih

theorem findCpuidEntry_update_of_ne {f : CpuidEntry → CpuidEntry}
    (keeps : KeepsKey function index f) (other : (leaf, subleaf) ≠ (function, index))
    (table : List CpuidEntry) :
    findCpuidEntry (updateCpuidEntry function index f table) leaf subleaf =
      findCpuidEntry table leaf subleaf := by
  induction table with
  | nil => rfl
  | cons e l ih =>
    unfold updateCpuidEntry findCpuidEntry
    by_cases same : e.function = function ∧ e.index = index
    · -- neither the entry nor its update has the key that is looked for
      have misses : ∀ e' : CpuidEntry, e'.key = (function, index) →
          ¬ (e'.function = leaf ∧ e'.index = subleaf) := by
        rintro e' key ⟨rfl, rfl⟩
        exact other key
      have key : e.key = (function, index) := Prod.ext same.1 same.2
      rw [if_pos same, List.find?_cons_of_neg (by simpa using misses _ (keeps e key)),
        List.find?_cons_of_neg (by simpa using misses e key)]
    · rw [if_neg same]
      by_cases hit : e.function = leaf ∧ e.index = subleaf
      · rw [List.find?_cons_of_pos (by simpa using hit),
          List.find?_cons_of_pos (by simpa using hit)]
      · rw [List.find?_cons_of_neg (by simpa using hit),
          List.find?_cons_of_neg (by simpa using hit)]
        exact ih

/-- Every key of the table has an entry, and nothing else has. -/
theorem findCpuidEntry_isSome (keys : table.map CpuidEntry.key = cpuidKeys) :
    (findCpuidEntry table leaf subleaf).isSome = true ↔ (leaf, subleaf) ∈ cpuidKeys := by
  rw [findCpuidEntry, List.find?_isSome, ← keys, List.mem_map]
  simp [CpuidEntry.key, Prod.ext_iff]

theorem exists_findCpuidEntry (keys : table.map CpuidEntry.key = cpuidKeys)
    (leaf subleaf : BitVec 32) (mem : (leaf, subleaf) ∈ cpuidKeys) :
    ∃ e, findCpuidEntry table leaf subleaf = some e :=
  Option.isSome_iff_exists.mp ((findCpuidEntry_isSome keys).mpr mem)

/-! ## SET_CPUID -/

/-- What a controller makes of its entry. -/
def CpuidController.apply (c : CpuidController) (info : List CpuidEntry) (dest : CpuidEntry) :
    CpuidEntry :=
  match findCpuidEntry info c.leaf c.subleaf with
  | none => dest
  | some src => (c.setLeaf.getD fun _ src => src) dest src

theorem CpuidController.KeepsKey.update (keeps : c.KeepsKey) {src : CpuidEntry}
    (found : findCpuidEntry info c.leaf c.subleaf = some src) :
    Haxm.KeepsKey c.leaf c.subleaf fun dest => (c.setLeaf.getD fun _ src => src) dest src := by
  intro dest key
  have same : src.key = dest.key := (findCpuidEntry_key found).trans key.symm
  exact (keeps dest src same).trans key

theorem findCpuidEntry_setFeature (keeps : c.KeepsKey) :
    findCpuidEntry (setFeature info table c) c.leaf c.subleaf =
      (findCpuidEntry table c.leaf c.subleaf).map (c.apply info) := by
  cases found : findCpuidEntry info c.leaf c.subleaf with
  | none =>
    have kept : c.apply info = id := by
      funext dest
      simp only [CpuidController.apply, found, id_eq]
    rw [kept, Option.map_id_fun, id_eq]
    simp only [setFeature, found]
  | some src =>
    have replaced : c.apply info = fun dest => (c.setLeaf.getD fun _ src => src) dest src := by
      funext dest
      simp only [CpuidController.apply, found]
    rw [replaced, ← findCpuidEntry_update (keeps.update found)]
    simp only [setFeature, found]

theorem findCpuidEntry_setFeature_of_ne (keeps : c.KeepsKey)
    (other : (leaf, subleaf) ≠ (c.leaf, c.subleaf)) :
    findCpuidEntry (setFeature info table c) leaf subleaf =
      findCpuidEntry table leaf subleaf := by
  unfold setFeature
  split
  case _ => rfl
  case _ src found => exact findCpuidEntry_update_of_ne (keeps.update found) other table

theorem findCpuidEntry_foldl_of_ne {l : List CpuidController} (keeps : ∀ c ∈ l, c.KeepsKey)
    (other : ∀ c ∈ l, (leaf, subleaf) ≠ (c.leaf, c.subleaf)) :
    findCpuidEntry (l.foldl (setFeature info) table) leaf subleaf =
      findCpuidEntry table leaf subleaf := by
  induction l generalizing table with
  | nil => rfl
  | cons c l ih =>
    rw [List.forall_mem_cons] at keeps other
    rw [List.foldl_cons, ih keeps.2 other.2, findCpuidEntry_setFeature_of_ne keeps.1 other.1]

/-- A key has one controller, and it alone decides about the entry. -/
theorem findCpuidEntry_foldl {l : List CpuidController} (keeps : ∀ c ∈ l, c.KeepsKey)
    (nodup : (l.map fun c => (c.leaf, c.subleaf)).Nodup) (mem : c ∈ l) :
    findCpuidEntry (l.foldl (setFeature info) table) c.leaf c.subleaf =
      (findCpuidEntry table c.leaf c.subleaf).map (c.apply info) := by
  induction l generalizing table with
  | nil => cases mem
  | cons d l ih =>
    rw [List.forall_mem_cons] at keeps
    rw [List.map_cons, List.nodup_cons] at nodup
    have apart : ∀ d' ∈ l, (d'.leaf, d'.subleaf) ≠ (d.leaf, d.subleaf) :=
      fun d' hd' same => nodup.1 (same ▸ List.mem_map_of_mem hd')
    rw [List.foldl_cons]
    rcases List.mem_cons.mp mem with rfl | later
    · rw [findCpuidEntry_foldl_of_ne keeps.2 fun d' hd' => (apart d' hd').symm,
        findCpuidEntry_setFeature keeps.1]
    · rw [ih keeps.2 nodup.2 later, findCpuidEntry_setFeature_of_ne keeps.1 (apart c later)]

theorem findCpuidEntry_setGuestFeatures (mem : c ∈ kCpuidController) :
    findCpuidEntry (cpuidSetGuestFeatures info table) c.leaf c.subleaf =
      (findCpuidEntry table c.leaf c.subleaf).map (c.apply info) :=
  findCpuidEntry_foldl kCpuidController_keepsKey (by decide) mem

/-! ## `cpuid_update` -/

/-- The three entries that `cpuid_update` writes. -/
def writeOsxsave (osxsave : Bool) (e : CpuidEntry) : CpuidEntry :=
  { e with ecx := if osxsave then e.ecx ||| featureOsxsave else e.ecx &&& ~~~featureOsxsave }

def writeSize (host : CpuidHost) (xcr0 : BitVec 64) (e : CpuidEntry) : CpuidEntry :=
  { e with ebx := calcXstateRequiredSize host xcr0 false }

def writeCompactedSize (host : CpuidHost) (xcr0 : BitVec 64) (e : CpuidEntry) : CpuidEntry :=
  if e.eax &&& featureXsavec ≠ 0 then { e with ebx := calcXstateRequiredSize host xcr0 true }
  else e

theorem keepsKey_writeOsxsave (osxsave : Bool) : KeepsKey 0x1 0 (writeOsxsave osxsave) :=
  fun _ key => key

theorem keepsKey_writeSize (xcr0 : BitVec 64) : KeepsKey 0xd 0 (writeSize host xcr0) :=
  fun _ key => key

theorem keepsKey_writeCompactedSize (xcr0 : BitVec 64) :
    KeepsKey 0xd 1 (writeCompactedSize host xcr0) := by
  intro e key
  unfold writeCompactedSize
  split <;> exact key

theorem cpuidUpdate_eq (osxsave : Bool) (xcr0 : BitVec 64) :
    cpuidUpdate host true osxsave xcr0 table =
      updateCpuidEntry 0xd 1 (writeCompactedSize host xcr0)
        (updateCpuidEntry 0xd 0 (writeSize host xcr0)
          (updateCpuidEntry 0x1 0 (writeOsxsave osxsave) table)) := rfl

theorem findCpuidEntry_cpuidUpdate_1 (osxsave : Bool) (xcr0 : BitVec 64) :
    findCpuidEntry (cpuidUpdate host true osxsave xcr0 table) 0x1 0 =
      (findCpuidEntry table 0x1 0).map (writeOsxsave osxsave) := by
  rw [cpuidUpdate_eq, findCpuidEntry_update_of_ne (keepsKey_writeCompactedSize xcr0) (by decide),
    findCpuidEntry_update_of_ne (keepsKey_writeSize xcr0) (by decide),
    findCpuidEntry_update (keepsKey_writeOsxsave osxsave)]

theorem findCpuidEntry_cpuidUpdate_d (osxsave : Bool) (xcr0 : BitVec 64) :
    findCpuidEntry (cpuidUpdate host true osxsave xcr0 table) 0xd 0 =
      (findCpuidEntry table 0xd 0).map (writeSize host xcr0) := by
  rw [cpuidUpdate_eq, findCpuidEntry_update_of_ne (keepsKey_writeCompactedSize xcr0) (by decide),
    findCpuidEntry_update (keepsKey_writeSize xcr0),
    findCpuidEntry_update_of_ne (keepsKey_writeOsxsave osxsave) (by decide)]

/-! ## CPUID -/

/-- The registers that an entry stands for. -/
def CpuidEntry.args (e : CpuidEntry) : CpuidArgs where
  eax := e.eax
  ecx := e.ecx
  edx := e.edx
  ebx := e.ebx

/-- The entries of a leaf. -/
def leafEntries (leaf : BitVec 32) (table : List CpuidEntry) : List CpuidEntry :=
  table.filter fun d => d.function = leaf

theorem mem_leafEntries : e ∈ leafEntries leaf table ↔ e ∈ table ∧ e.function = leaf := by
  rw [leafEntries, List.mem_filter, decide_eq_true_eq]

theorem mem_leafEntries_of_found (found : findCpuidEntry table leaf subleaf = some e) :
    e ∈ leafEntries leaf table :=
  mem_leafEntries.mpr ⟨List.mem_of_find?_eq_some found,
    congrArg Prod.fst (findCpuidEntry_key found)⟩

section Lookup

variable {d : CpuidEntry} {es : List CpuidEntry} {i : ℕ} {r : CpuidLookup}

theorem leafEntries_cons_of_eq (same : d.function = leaf) :
    leafEntries leaf (d :: table) = d :: leafEntries leaf table :=
  List.filter_cons_of_pos (decide_eq_true same)

theorem leafEntries_cons_of_ne (other : d.function ≠ leaf) :
    leafEntries leaf (d :: table) = leafEntries leaf table :=
  List.filter_cons_of_neg (by simpa using other)

/-- What the variables of the loop are after some more entries of the leaf, the first of them at
place `i`. -/
def CpuidLookup.count (r : CpuidLookup) (i : ℕ) : List CpuidEntry → CpuidLookup
  | [] => r
  | e :: es =>
    if r.supported = 0 then ⟨es.length + 1, i, e⟩
    else { r with supported := r.supported + (es.length + 1) }

theorem CpuidLookup.count_of_ne (some : r.supported ≠ 0) :
    r.count i es = { r with supported := r.supported + es.length } := by
  cases es with
  | nil => rfl
  | cons => exact if_neg some

variable (sorted : (table.map CpuidEntry.function).Pairwise (· ≤ ·))

include sorted

/-- The lookup stops at the entry with the key. It does not stop before, since the entries of
a leaf come one after another. -/
theorem cpuidLookup_found (behind : r.supported ≠ 0 → ∀ d ∈ table, leaf ≤ d.function)
    (found : findCpuidEntry table leaf subleaf = some e) :
    ∃ index, cpuidLookup leaf subleaf i table r = ⟨1, index, e⟩ := by
  induction table generalizing i r with
  | nil => cases found
  | cons d l ih =>
    obtain ⟨before, sorted⟩ := List.pairwise_cons.mp sorted
    have rest : ∀ d' ∈ l, d.function ≤ d'.function := fun d' mem =>
      before _ (List.mem_map_of_mem mem)
    unfold cpuidLookup
    by_cases same : d.function = leaf
    · rw [if_neg (not_not.mpr same)]
      by_cases hit : d.index = subleaf
      · rw [findCpuidEntry, List.find?_cons_of_pos (by simp [same, hit])] at found
        obtain rfl := Option.some.inj found
        exact ⟨r.index, if_pos hit⟩
      · rw [findCpuidEntry, List.find?_cons_of_neg (by simp [hit])] at found
        rw [if_neg hit]
        split <;> exact ih sorted (fun _ => same ▸ rest) found
    · rw [findCpuidEntry, List.find?_cons_of_neg (by simp [same])] at found
      rw [if_pos same]
      split
      case isTrue none => exact ih sorted (fun some => absurd none some) found
      case isFalse some =>
        have leaf_eq : e.function = leaf := congrArg Prod.fst (findCpuidEntry_key found)
        have above := leaf_eq ▸ rest e (List.mem_of_find?_eq_some found)
        exact absurd (BitVec.le_antisymm above (behind some d List.mem_cons_self)) same

/-- If no entry has the key, the entries of the leaf are counted. -/
theorem cpuidLookup_missing (behind : r.supported ≠ 0 → ∀ d ∈ table, leaf ≤ d.function)
    (missing : findCpuidEntry table leaf subleaf = none) :
    cpuidLookup leaf subleaf i table r =
      r.count (i + table.findIdx fun d => d.function = leaf) (leafEntries leaf table) := by
  induction table generalizing i r with
  | nil => rfl
  | cons d l ih =>
    obtain ⟨before, sorted⟩ := List.pairwise_cons.mp sorted
    obtain ⟨miss, missing⟩ := List.forall_mem_cons.mp (List.find?_eq_none.mp missing)
    have missing := List.find?_eq_none.mpr missing
    unfold cpuidLookup
    by_cases same : d.function = leaf
    · have rest : ∀ d' ∈ l, leaf ≤ d'.function := fun d' mem =>
        same ▸ before _ (List.mem_map_of_mem mem)
      rw [if_neg (not_not.mpr same), if_neg fun hit => miss (by simp [same, hit]),
        leafEntries_cons_of_eq same]
      split
      case isTrue some =>
        rw [ih sorted (fun _ => rest) missing, CpuidLookup.count_of_ne some,
          CpuidLookup.count_of_ne (Nat.succ_ne_zero _)]
        simp only [List.length_cons, Nat.add_assoc, Nat.add_comm 1]
      case isFalse none =>
        rw [ih sorted (fun _ => rest) missing, CpuidLookup.count_of_ne Nat.one_ne_zero,
          CpuidLookup.count, if_pos (not_not.mp none), List.findIdx_cons, decide_eq_true same,
          Nat.add_comm 1]
        rfl
    · rw [if_pos same, leafEntries_cons_of_ne same]
      split
      case isTrue none =>
        rw [ih sorted (fun some => absurd none some) missing, List.findIdx_cons,
          decide_eq_false same, Nat.add_right_comm]
        rfl
      case isFalse some =>
        have none : leafEntries leaf l = [] := by
          refine List.eq_nil_iff_forall_not_mem.mpr fun e mem => same ?_
          obtain ⟨later, rfl⟩ := mem_leafEntries.mp mem
          exact BitVec.le_antisymm (before _ (List.mem_map_of_mem later))
            (behind some d List.mem_cons_self)
        rw [none]
        rfl

end Lookup

section Keys

variable (keys : table.map CpuidEntry.key = cpuidKeys) {args : CpuidArgs}

include keys

theorem functions_sorted : (table.map CpuidEntry.function).Pairwise (· ≤ ·) := by
  have functions : table.map CpuidEntry.function = cpuidKeys.map Prod.fst := by
    rw [← keys, List.map_map]
    rfl
  rw [functions]
  decide

theorem leafEntries_keys :
    (leafEntries leaf table).map CpuidEntry.key = cpuidKeys.filter fun k => k.1 = leaf := by
  rw [← keys, List.filter_map]
  rfl

/-- CPUID answers from the entry with the key. -/
theorem cpuidExecute_present (found : findCpuidEntry table args.eax args.ecx = some e) :
    cpuidExecute host table args = e.args := by
  obtain ⟨index, lookup⟩ := cpuidLookup_found (i := 0) (r := {}) (functions_sorted keys)
    (absurd rfl) found
  rw [cpuidExecute, lookup]
  rfl

theorem cpuidLookup_eq (missing : findCpuidEntry table leaf subleaf = none) :
    cpuidLookup leaf subleaf 0 table {} = CpuidLookup.count {}
      (cpuidKeys.findIdx fun k => k.1 = leaf) (leafEntries leaf table) := by
  rw [cpuidLookup_missing (functions_sorted keys) (absurd rfl) missing, ← keys, List.findIdx_map,
    Nat.zero_add]
  rfl

/-- A leaf with one entry is answered from it for every subleaf. -/
theorem cpuidExecute_single (single : leafEntries args.eax table = [e]) :
    cpuidExecute host table args = e.args := by
  cases found : findCpuidEntry table args.eax args.ecx with
  | none =>
    rw [cpuidExecute, cpuidLookup_eq keys found, single]
    rfl
  | some d =>
    have mem := mem_leafEntries_of_found found
    rw [single, List.mem_singleton] at mem
    rw [cpuidExecute_present keys found, mem]

/-- A leaf without entries is answered with zeroes. -/
theorem cpuidExecute_absent (absent : leafEntries args.eax table = []) :
    cpuidExecute host table args = {} := by
  cases found : findCpuidEntry table args.eax args.ecx with
  | none =>
    rw [cpuidExecute, cpuidLookup_eq keys found, absent]
    rfl
  | some d =>
    have mem := mem_leafEntries_of_found found
    rw [absent] at mem
    cases mem

/-- The other leaves have one entry at most. -/
theorem leafEntries_few (other : leaf ≠ 7 ∧ leaf ≠ 0xd) :
    leafEntries leaf table = [] ∨ ∃ e, leafEntries leaf table = [e] := by
  have one : cpuidKeys.all fun k => k.1 ≠ 7 ∧ k.1 ≠ 0xd → cpuidKeys.filter (·.1 = k.1) = [k] := by
    decide
  have entries := @leafEntries_keys table leaf keys
  cases run : leafEntries leaf table with
  | nil => exact .inl rfl
  | cons e es =>
    have here : e ∈ leafEntries leaf table := run ▸ List.mem_cons_self
    obtain ⟨mem, rfl⟩ := mem_leafEntries.mp here
    have key : e.key ∈ cpuidKeys := keys ▸ List.mem_map_of_mem mem
    have all : cpuidKeys.filter (·.1 = e.function) = [e.key] :=
      of_decide_eq_true (List.all_eq_true.1 one _ key) other
    rw [run, all, List.map_cons] at entries
    rw [List.map_eq_nil_iff.mp (List.cons.inj entries).2]
    exact .inr ⟨e, rfl⟩

/-- CPUID answers from the entry: for the first subleaf, and for every subleaf if
the leaf has only one. -/
theorem cpuidExecute_entry (found : findCpuidEntry table leaf 0 = some e) (eax : args.eax = leaf)
    (answered : args.ecx = 0 ∨ (leaf ≠ 7 ∧ leaf ≠ 0xd)) :
    cpuidExecute host table args = e.args := by
  subst eax
  rcases answered with zero | other
  · rw [← zero] at found
    exact cpuidExecute_present keys found
  · have here := mem_leafEntries_of_found found
    rcases leafEntries_few keys other with none | ⟨d, single⟩
    · rw [none] at here
      cases here
    · rw [single, List.mem_singleton] at here
      rw [cpuidExecute_single keys single, here]

end Keys

end Haxm
