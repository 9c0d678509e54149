/-
# Repairing entries of the EPT

When the processor finds an entry that it cannot make sense of, the driver walks to
the page and lets `fix_epte` edit the entries on the way. It sets what has to be set
and clears what has to be clear. Two things go wrong. The memory type is set with
OR, so that an odd type becomes 7 instead of 6; the entry counts as repaired, and
the next call finds nothing wrong with it. And frame numbers of more than 24 bits
are taken for broken, whatever the address width of the processor. A table that cannot be
mapped ends the walk, and what is behind it is not looked at.

The entries are arbitrary here, also those that the driver would never write. The
tables on the way are four different ones.
-/

import Haxm.Ept.Tree

namespace Haxm

open Lib

/-! ## Entries as words -/

namespace Epte

/-- `epte.value`. -/
def value (e : Epte) : BitVec 64 :=
  e.supressVe ++ e.ignored2 ++ e.pfn ++ e.ignored1 ++ e.dirty ++ e.accessed ++ e.isLargePage ++
    e.ignorePatMt ++ e.eptMt ++ e.perm

/-- The fields of a value. -/
def ofValue (v : BitVec 64) : Epte where
  perm := v.extractLsb' 0 3
  eptMt := v.extractLsb' 3 3
  ignorePatMt := v.extractLsb' 6 1
  isLargePage := v.extractLsb' 7 1
  accessed := v.extractLsb' 8 1
  dirty := v.extractLsb' 9 1
  ignored1 := v.extractLsb' 10 2
  pfn := v.extractLsb' 12 40
  ignored2 := v.extractLsb' 52 11
  supressVe := v.extractLsb' 63 1

theorem ofValue_value (e : Epte) : ofValue e.value = e := by
  obtain ⟨perm, eptMt, ignorePatMt, isLargePage, accessed, dirty, ignored1, pfn, ignored2,
    supressVe⟩ := e
  simp only [ofValue, value, Epte.mk.injEq]
  refine ⟨?_, ?_, ?_, ?_, ?_, ?_, ?_, ?_, ?_, ?_⟩ <;>
  · apply BitVec.eq_of_getLsbD_eq
    intro i hi
    simp only [BitVec.getLsbD_extractLsb', BitVec.getLsbD_append, hi, decide_true, Bool.true_and]
    repeat (first | rw [if_pos (by omega)] | rw [if_neg (by omega)])
    try (congr 1; omega)

theorem value_ofValue (v : BitVec 64) : (ofValue v).value = v := by
  apply BitVec.eq_of_getLsbD_eq
  intro i hi
  simp only [ofValue, value, BitVec.getLsbD_extractLsb', BitVec.getLsbD_append]
  split_ifs
  all_goals
    first
    | simp only [decide_eq_true (show _ < _ by omega), Bool.true_and]
      congr 1
      omega
    | obtain rfl : i = 63 := by omega
      rfl

theorem value_eq_iff {e : Epte} {v : BitVec 64} : e.value = v ↔ e = ofValue v :=
  ⟨fun h => h ▸ (ofValue_value e).symm, fun h => h ▸ value_ofValue v⟩

end Epte

/-! ## The walk -/

section Walk

variable {β : Type*}

/-- A visitor of the walk: it may change the entry that it is shown. -/
abbrev EpteVisitor (β : Type*) := (level : ℕ) → Epte → β → Epte × β

/-- `ept_tree_walk` with its visitor, from a table of a level on. -/
def eptTreeVisit (host : Host) (gfn : ℕ) (visit : EpteVisitor β) :
    (level : ℕ) → (table : Pfn) → EptTree → β → EptTree × β
  | 0, table, tree, b =>
    match visit 0 (tree.table table (eptIndex gfn 0)) b with
    | (epte, b) => (tree.setEntry table (eptIndex gfn 0) epte, b)
  | level + 1, table, tree, b =>
    match visit (level + 1) (tree.table table (eptIndex gfn (level + 1))) b with
    | (epte, b) =>
      let tree := tree.setEntry table (eptIndex gfn (level + 1)) epte
      match (eptTreeGetNextTable host tree gfn (level + 1) table false).1 with
      | none => (tree, b)
      | some next => eptTreeVisit host gfn visit level next tree b

/-- The tables that a walk comes through, with their levels. -/
def eptTreePath (host : Host) (gfn : ℕ) (tree : EptTree) : (level : ℕ) → (table : Pfn) →
    List (ℕ × Pfn)
  | 0, table => [(0, table)]
  | level + 1, table =>
    (level + 1, table) ::
      match (eptTreeGetNextTable host tree gfn (level + 1) table false).1 with
      | none => []
      | some next => eptTreePath host gfn tree level next

end Walk

/-! ## The repair -/

/-- The new value that `fix_epte` computes for an entry that is present. -/
def fixedValue (slot : Option Memslot) (level : ℕ) (old : BitVec 64) : BitVec 64 :=
  if level = 0 ∧ slot = none then 0
  else
    let wBit : BitVec 64 := 7 ^^^ 5
    let new := old ||| 7
    let new :=
      if level = 0 then
        (if slot.any fun slot => slot.flags &&& haxMemslotReadonly ≠ 0 then new &&& ~~~wBit
          else new) ||| 6 <<< 3
      else new
    -- `MAXPHYADDR` is assumed to be 36.
    let preserved : BitVec 64 := 7 ||| (1 <<< (36 - 12) - 1) <<< 12 ||| 1 <<< 8
    let preserved := if level = 0 then preserved ||| 7 <<< 3 else preserved
    new &&& preserved

/-- The counts of `epte_fixer_bundle`. -/
structure FixCounts where
  misconfigured : ℕ
  error : ℕ
  deriving DecidableEq, Repr

/-- `fix_epte`. -/
def fixEpte (slot : Option Memslot) : EpteVisitor FixCounts := fun level epte b =>
  if epte.perm = haxEptPermNone then (epte, b)
  else
    let new := fixedValue slot level epte.value
    if epte.value ≠ new then
      if epte.pfn ≠ (Epte.ofValue new).pfn then
        (epte, { misconfigured := b.misconfigured + 1, error := b.error + 1 })
      else (Epte.ofValue new, { b with misconfigured := b.misconfigured + 1 })
    else (epte, b)

/-- `ept_handle_misconfiguration`. -/
def eptHandleMisconfiguration (host : Host) (memslotList : List Memslot) (tree : EptTree)
    (gpa : ℕ) : ℤ × EptTree :=
  let gfn := gpa / 2 ^ pgOrder4K
  let slot := memslotFind memslotList gfn
  match eptTreeVisit host gfn (fixEpte slot) haxEptLevelPml4 tree.root tree ⟨0, 0⟩ with
  | (tree, b) => (if b.error ≠ 0 then -b.error else b.misconfigured, tree)

/-- The new entry, field by field. -/
def repaired (slot : Option Memslot) (level : ℕ) (e : Epte) : Epte :=
  if level = 0 then
    match slot with
    | none => Epte.zero
    | some slot =>
      { perm := if slot.flags &&& haxMemslotReadonly ≠ 0 then haxEptPermRx else haxEptPermRwx
        eptMt := e.eptMt ||| haxEptMemtypeWb
        accessed := e.accessed
        pfn := e.pfn &&& 0xffffff }
  else { perm := haxEptPermRwx, accessed := e.accessed, pfn := e.pfn &&& 0xffffff }

theorem and_or_distrib (x y z : BitVec 64) : x &&& y ||| z = (x ||| z) &&& (y ||| z) := by
  apply BitVec.eq_of_getLsbD_eq
  intro i _
  simp only [BitVec.getLsbD_and, BitVec.getLsbD_or, Bool.or_and_distrib_right]

/-- Setting and clearing bits, field by field. -/
theorem ofValue_or_and (e : Epte) (set keep : BitVec 64) :
    Epte.ofValue ((e.value ||| set) &&& keep) =
      let s := Epte.ofValue set
      let k := Epte.ofValue keep
      { perm := (e.perm ||| s.perm) &&& k.perm
        eptMt := (e.eptMt ||| s.eptMt) &&& k.eptMt
        ignorePatMt := (e.ignorePatMt ||| s.ignorePatMt) &&& k.ignorePatMt
        isLargePage := (e.isLargePage ||| s.isLargePage) &&& k.isLargePage
        accessed := (e.accessed ||| s.accessed) &&& k.accessed
        dirty := (e.dirty ||| s.dirty) &&& k.dirty
        ignored1 := (e.ignored1 ||| s.ignored1) &&& k.ignored1
        pfn := (e.pfn ||| s.pfn) &&& k.pfn
        ignored2 := (e.ignored2 ||| s.ignored2) &&& k.ignored2
        supressVe := (e.supressVe ||| s.supressVe) &&& k.supressVe } := by
  have fields := Epte.ofValue_value e
  generalize e.value = v at *
  subst fields
  simp only [Epte.ofValue, BitVec.extractLsb'_and, BitVec.extractLsb'_or]

/-- What `fix_epte` sets in an entry and what it keeps. -/
theorem fixedValue_eq (slot : Option Memslot) (level : ℕ) (mapped : ¬ (level = 0 ∧ slot = none))
    (old : BitVec 64) :
    fixedValue slot level old =
      if level = 0 then
        (old ||| 0x37) &&& if slot.any fun slot => slot.flags &&& haxMemslotReadonly ≠ 0 then
          0xffffff13d else 0xffffff13f
      else (old ||| 7) &&& 0xffffff107 := by
  unfold fixedValue
  rw [if_neg mapped]
  dsimp only
  split_ifs
  · rw [and_or_distrib, BitVec.or_assoc, BitVec.and_assoc]
    rfl
  · rw [BitVec.or_assoc]
    rfl
  · rfl

theorem ofValue_fixedValue (slot : Option Memslot) (level : ℕ) (e : Epte) :
    Epte.ofValue (fixedValue slot level e.value) = repaired slot level e := by
  by_cases unmapped : level = 0 ∧ slot = none
  · obtain ⟨rfl, rfl⟩ := unmapped
    exact (by decide : Epte.ofValue 0 = Epte.zero)
  have all_set : ∀ field : BitVec 3, field ||| 7#3 = 7#3 := by decide
  have all_kept : ∀ field : BitVec 3, field &&& 7#3 = field := by decide
  have bit_kept : ∀ field : BitVec 1, field &&& 1#1 = field := by decide
  rw [fixedValue_eq slot level unmapped]
  unfold repaired
  by_cases leaf : level = 0
  · obtain ⟨slot, rfl⟩ := Option.ne_none_iff_exists'.1 fun none => unmapped ⟨leaf, none⟩
    rw [if_pos leaf, if_pos leaf, ofValue_or_and]
    simp only [Option.any_some, decide_eq_true_eq]
    split_ifs <;> simp [Epte.ofValue, all_set, all_kept, bit_kept]
  · rw [if_neg leaf, if_neg leaf, ofValue_or_and]
    simp [Epte.ofValue, all_set, bit_kept]

/-! ## One entry -/

section Entry

variable {slot : Option Memslot} {level : ℕ} {e : Epte}

/-- The entry is present. -/
def Epte.Present (e : Epte) : Prop := e.perm ≠ haxEptPermNone

instance (e : Epte) : Decidable e.Present := inferInstanceAs (Decidable (_ ≠ _))

/-- The frame number would change. -/
def Unrepairable (slot : Option Memslot) (level : ℕ) (e : Epte) : Prop :=
  e.Present ∧ e.pfn ≠ (repaired slot level e).pfn

/-- The entry is not as it should be. -/
def Misconfigured (slot : Option Memslot) (level : ℕ) (e : Epte) : Prop :=
  e.Present ∧ e ≠ repaired slot level e

instance : Decidable (Unrepairable slot level e) := inferInstanceAs (Decidable (_ ∧ _))

instance : Decidable (Misconfigured slot level e) := inferInstanceAs (Decidable (_ ∧ _))

/-- What becomes of an entry. -/
def fixedEntry (slot : Option Memslot) (level : ℕ) (e : Epte) : Epte :=
  if e.Present ∧ ¬ Unrepairable slot level e then repaired slot level e else e

theorem fixEpte_eq (b : FixCounts) :
    fixEpte slot level e b = (fixedEntry slot level e,
      ⟨b.misconfigured + (if Misconfigured slot level e then 1 else 0),
        b.error + if Unrepairable slot level e then 1 else 0⟩) := by
  unfold fixEpte fixedEntry
  by_cases absent : e.perm = haxEptPermNone
  · have gone : ¬ e.Present := not_not.2 absent
    rw [if_pos absent, if_neg fun h => gone h.1, if_neg fun h => gone h.1, if_neg fun h => gone h.1]
    rfl
  · rw [if_neg absent]
    simp only [ne_eq, Epte.value_eq_iff, ofValue_fixedValue]
    by_cases same : e = repaired slot level e
    · have fine : ¬ Unrepairable slot level e := fun h => h.2 (congrArg Epte.pfn same)
      rw [if_neg (not_not.2 same), if_pos ⟨absent, fine⟩, if_neg fun h => h.2 same, if_neg fine,
        ← same]
      rfl
    · rw [if_pos same, if_pos (show Misconfigured slot level e from ⟨absent, same⟩)]
      by_cases frame : e.pfn = (repaired slot level e).pfn
      · have fine : ¬ Unrepairable slot level e := fun h => h.2 frame
        rw [if_neg (not_not.2 frame), if_pos ⟨absent, fine⟩, if_neg fine]
        rfl
      · have broken : Unrepairable slot level e := ⟨absent, frame⟩
        rw [if_pos frame, if_neg fun h => h.2 broken, if_pos broken]

/-- An entry that is not cleared stays present. -/
theorem repaired_present (mapped : ¬ (level = 0 ∧ slot = none)) :
    (repaired slot level e).Present := by
  have rx : haxEptPermRx ≠ haxEptPermNone := by decide
  have rwx : haxEptPermRwx ≠ haxEptPermNone := by decide
  unfold repaired
  split_ifs with leaf
  · obtain ⟨s, rfl⟩ := Option.ne_none_iff_exists'.1 fun none => mapped ⟨leaf, none⟩
    change (if _ then haxEptPermRx else haxEptPermRwx) ≠ haxEptPermNone
    split_ifs
    · exact rx
    · exact rwx
  · exact rwx

theorem fixedEntry_pfn : (fixedEntry slot level e).pfn = e.pfn := by
  unfold fixedEntry
  split_ifs with h
  · exact not_not.1 fun broken => h.2 ⟨h.1, fun same => broken same.symm⟩
  · rfl

theorem fixedEntry_present (inner : level ≠ 0) :
    (fixedEntry slot level e).Present ↔ e.Present := by
  unfold fixedEntry
  split_ifs with h
  · exact iff_of_true (repaired_present fun leaf => inner leaf.1) h.1
  · rfl

theorem Unrepairable.misconfigured (h : Unrepairable slot level e) : Misconfigured slot level e :=
  ⟨h.1, fun same => h.2 (congrArg Epte.pfn same)⟩

theorem fixedEntry_eq (fine : ¬ Misconfigured slot level e) : fixedEntry slot level e = e := by
  unfold fixedEntry
  split_ifs with h
  · exact not_not.1 fun differs => fine ⟨h.1, fun same => differs same.symm⟩
  · rfl

theorem and_frameMask_eq_iff (pfn : Pfn) : pfn &&& 0xffffff = pfn ↔ pfn.toNat < 2 ^ 24 := by
  rw [← BitVec.toNat_inj, BitVec.toNat_and,
    show (0xffffff : Pfn).toNat = 2 ^ 24 - 1 from rfl, Nat.and_two_pow_sub_one_eq_mod]
  exact ⟨fun h => h ▸ Nat.mod_lt _ (by decide), Nat.mod_eq_of_lt⟩

/-- Which frame numbers cannot be kept. -/
theorem unrepairable_iff : Unrepairable slot level e ↔
    e.Present ∧ (2 ^ 24 ≤ e.pfn.toNat ∨ level = 0 ∧ slot = none ∧ e.pfn ≠ 0) := by
  refine and_congr_right fun _ => ?_
  unfold repaired
  split_ifs with leaf
  · cases slot with
    | none =>
      have large (h : 2 ^ 24 ≤ e.pfn.toNat) : e.pfn ≠ 0 := fun zero => by
        rw [zero] at h
        exact absurd h (by decide)
      exact ⟨fun h => .inr ⟨leaf, rfl, h⟩, fun h => h.elim large fun h => h.2.2⟩
    | some slot =>
      rw [ne_comm, ne_eq, and_frameMask_eq_iff]
      simp
  · rw [ne_comm, ne_eq, and_frameMask_eq_iff]
    simp [leaf]

/-- The entry is as the processor and the driver want it, if frame numbers are those
of physical addresses with `maxPhyAddr` bits. -/
def WellFormed (maxPhyAddr : ℕ) (slot : Option Memslot) (level : ℕ) (e : Epte) : Prop :=
  e.pfn.toNat < 2 ^ (maxPhyAddr - 12) ∧
    if level = 0 then
      ∃ s, slot = some s ∧ e =
        { perm := if s.flags &&& haxMemslotReadonly ≠ 0 then haxEptPermRx else haxEptPermRwx
          eptMt := haxEptMemtypeWb
          accessed := e.accessed
          pfn := e.pfn }
    else e = { perm := haxEptPermRwx, accessed := e.accessed, pfn := e.pfn }

/-- A well-formed entry is left alone exactly if its frame number has 24 bits. -/
theorem WellFormed.repaired_eq {w : ℕ} (h : WellFormed w slot level e)
    (small : e.pfn.toNat < 2 ^ 24) : repaired slot level e = e := by
  have frame := (and_frameMask_eq_iff e.pfn).2 small
  obtain ⟨-, shape⟩ := h
  unfold repaired
  split_ifs at shape ⊢ with leaf
  · obtain ⟨s, rfl, shape⟩ := shape
    dsimp only
    have type : e.eptMt = haxEptMemtypeWb := congrArg Epte.eptMt shape
    rw [frame, type]
    exact shape.symm
  · rw [frame]
    exact shape.symm

/-- The memory type is set with OR. -/
theorem or_wb_eq_iff : ∀ type : BitVec 3,
    type ||| haxEptMemtypeWb = haxEptMemtypeWb ↔ type.getLsbD 0 = false := by decide

/-- When a repaired entry is well-formed. -/
theorem wellFormed_repaired_iff {w : ℕ} (mapped : ¬ (level = 0 ∧ slot = none))
    (small : e.pfn.toNat < 2 ^ 24) :
    WellFormed w slot level (repaired slot level e) ↔
      e.pfn.toNat < 2 ^ (w - 12) ∧ (level = 0 → e.eptMt.getLsbD 0 = false) := by
  have frame := (and_frameMask_eq_iff e.pfn).2 small
  unfold WellFormed repaired
  split_ifs with leaf
  · obtain ⟨s, rfl⟩ := Option.ne_none_iff_exists'.1 fun none => mapped ⟨leaf, none⟩
    simp only [frame, Option.some.injEq, exists_eq_left', Epte.mk.injEq, true_and, and_true,
      or_wb_eq_iff, leaf, true_imp_iff]
  · simp only [frame, leaf, false_imp_iff]

theorem repaired_repaired :
    repaired slot level (repaired slot level e) = repaired slot level e := by
  unfold repaired
  split_ifs with leaf
  · cases slot with
    | none => rfl
    | some s => simp [BitVec.or_assoc, BitVec.and_assoc]
  · simp [BitVec.and_assoc]

end Entry

/-! ## The entries on the way -/

section Repair

variable {host : Host} {gfn level : ℕ} {tree tree' : EptTree} {table : Pfn} {slot : Option Memslot}

/-- The entry at a table of the walk. -/
def EptTree.entryAt (tree : EptTree) (gfn : ℕ) (p : ℕ × Pfn) : Epte :=
  tree.table p.2 (eptIndex gfn p.1)

/-- A walk that creates nothing looks at the permissions and the frame number, and maps the
frame if it has to. -/
theorem eptTreeGetNextTable_walk (host : Host) (tree : EptTree) (gfn level : ℕ) (table : Pfn) :
    (eptTreeGetNextTable host tree gfn level table false).1 =
      if (tree.entryAt gfn (level, table)).Present then
        match eptTreeGetFreqPage gfn (level - 1) with
        | some i => tree.freqPages i
        | none => if (gfn, (tree.entryAt gfn (level, table)).pfn) ∈ tree.unmapped then none
            else some (tree.entryAt gfn (level, table)).pfn
      else none := by
  have entry : tree.table table (eptIndex gfn level) = tree.entryAt gfn (level, table) := rfl
  unfold eptTreeGetNextTable
  dsimp only
  rw [entry]
  by_cases present : (tree.entryAt gfn (level, table)).Present
  · have zero : tree.entryAt gfn (level, table) ≠ Epte.zero := fun h =>
      present (congrArg Epte.perm h)
    have invalid : tree.entryAt gfn (level, table) ≠ invalidEpte := fun h =>
      present (congrArg Epte.perm h)
    rw [if_neg fun h => present h.1, if_neg zero, if_neg invalid, if_pos present]
    cases eptTreeGetFreqPage gfn (level - 1) <;> rfl
  · rw [if_pos ⟨not_not.1 present, rfl⟩, if_neg present]

/-- The path depends on which entries above the last are present, and on their frame
numbers. -/
theorem eptTreePath_congr (cache : tree'.freqPages = tree.freqPages)
    (unmapped : tree'.unmapped = tree.unmapped)
    (same : ∀ p ∈ eptTreePath host gfn tree level table, p.1 ≠ 0 →
      ((tree'.entryAt gfn p).Present ↔ (tree.entryAt gfn p).Present) ∧
        (tree'.entryAt gfn p).pfn = (tree.entryAt gfn p).pfn) :
    eptTreePath host gfn tree' level table = eptTreePath host gfn tree level table := by
  induction level generalizing table with
  | zero => rfl
  | succ level ih =>
    obtain ⟨present, pfn⟩ := same (level + 1, table) List.mem_cons_self (Nat.succ_ne_zero _)
    have next : (eptTreeGetNextTable host tree' gfn (level + 1) table false).1 =
        (eptTreeGetNextTable host tree gfn (level + 1) table false).1 := by
      simp only [eptTreeGetNextTable_walk, present, pfn, cache, unmapped]
    rw [eptTreePath, next]
    rw [eptTreePath] at same ⊢
    cases hnext : (eptTreeGetNextTable host tree gfn (level + 1) table false).1 with
    | none => rfl
    | some next =>
      rw [hnext] at same
      dsimp only
      rw [ih fun p mem => same p (List.mem_cons_of_mem _ mem)]

theorem entryAt_setEntry_of_ne {p : ℕ × Pfn} {index : ℕ} {e : Epte} (h : p.2 ≠ table) :
    (tree.setEntry table index e).entryAt gfn p = tree.entryAt gfn p :=
  writeEntry_of_ne fun same => h same.1

/-- What a repair does: each entry on the way has been fixed, and the counts are those
of the entries before. -/
structure Fixed (gfn : ℕ) (slot : Option Memslot) (path : List (ℕ × Pfn)) (tree : EptTree)
    (b : FixCounts) (tree' : EptTree) (b' : FixCounts) : Prop where
  entries : ∀ p ∈ path, tree'.entryAt gfn p = fixedEntry slot p.1 (tree.entryAt gfn p)
  others : ∀ q j, (∀ p ∈ path, ¬ (q = p.2 ∧ j = eptIndex gfn p.1)) →
    tree'.table q j = tree.table q j
  rest : ∃ tables, tree' = { tree with table := tables }
  misconfigured : b'.misconfigured = b.misconfigured +
    path.countP fun p => Misconfigured slot p.1 (tree.entryAt gfn p)
  error : b'.error = b.error + path.countP fun p => Unrepairable slot p.1 (tree.entryAt gfn p)

theorem fixed_nil (b : FixCounts) : Fixed gfn slot [] tree b tree b :=
  ⟨by simp, fun _ _ _ => rfl, ⟨tree.table, rfl⟩, rfl, rfl⟩

/-- An entry is fixed, and then those of other tables. -/
theorem Fixed.cons {rest : List (ℕ × Pfn)} {b b' : FixCounts} (apart : ∀ p ∈ rest, p.2 ≠ table)
    (h : Fixed gfn slot rest
      (tree.setEntry table (eptIndex gfn level)
        (fixedEntry slot level (tree.entryAt gfn (level, table))))
      (fixEpte slot level (tree.entryAt gfn (level, table)) b).2 tree' b') :
    Fixed gfn slot ((level, table) :: rest) tree b tree' b' := by
  generalize hfirst : tree.setEntry table (eptIndex gfn level)
    (fixedEntry slot level (tree.entryAt gfn (level, table))) = first at h
  have same (p : ℕ × Pfn) (mem : p ∈ rest) : first.entryAt gfn p = tree.entryAt gfn p := by
    rw [← hfirst]
    exact entryAt_setEntry_of_ne (apart p mem)
  have count (P : ℕ → Epte → Prop) [∀ l e, Decidable (P l e)] :
      (rest.countP fun p => P p.1 (first.entryAt gfn p)) =
        rest.countP fun p => P p.1 (tree.entryAt gfn p) :=
    List.countP_congr fun p mem => by rw [same p mem]
  rw [fixEpte_eq] at h
  refine ⟨fun p mem => ?_, fun q j other => ?_, ?_, ?_, ?_⟩
  · rcases List.mem_cons.1 mem with rfl | mem
    · -- nothing on the rest of the way is in the same table
      rw [EptTree.entryAt, h.others _ _ fun p mem hit => apart p mem hit.1.symm, ← hfirst]
      exact writeEntry_same
    · rw [h.entries p mem, same p mem]
  · rw [h.others q j fun p mem => other p (List.mem_cons_of_mem _ mem), ← hfirst]
    exact writeEntry_of_ne (other _ List.mem_cons_self)
  · obtain ⟨tables, rfl⟩ := h.rest
    exact ⟨tables, by rw [← hfirst]; rfl⟩
  · rw [h.misconfigured, count (Misconfigured slot), List.countP_cons]
    simp only [decide_eq_true_eq]
    omega
  · rw [h.error, count (Unrepairable slot), List.countP_cons]
    simp only [decide_eq_true_eq]
    omega

theorem eptTreeVisit_fixed (slot : Option Memslot) (b : FixCounts)
    (distinct : ((eptTreePath host gfn tree level table).map Prod.snd).Nodup) :
    Fixed gfn slot (eptTreePath host gfn tree level table) tree b
      (eptTreeVisit host gfn (fixEpte slot) level table tree b).1
      (eptTreeVisit host gfn (fixEpte slot) level table tree b).2 := by
  induction level generalizing table tree b with
  | zero =>
    simp only [eptTreePath, eptTreeVisit]
    rw [show (fixEpte slot 0 (tree.table table (eptIndex gfn 0)) b).1 =
      fixedEntry slot 0 (tree.entryAt gfn (0, table)) by rw [fixEpte_eq]; rfl]
    exact .cons (by simp) (fixed_nil _)
  | succ level ih =>
    generalize hfirst : tree.setEntry table (eptIndex gfn (level + 1))
      (fixedEntry slot (level + 1) (tree.entryAt gfn (level + 1, table))) = first
    have entry : first.entryAt gfn (level + 1, table) =
        fixedEntry slot (level + 1) (tree.entryAt gfn (level + 1, table)) := by
      rw [← hfirst]
      exact writeEntry_same
    obtain ⟨cache, unmapped⟩ : first.freqPages = tree.freqPages ∧
        first.unmapped = tree.unmapped := by
      rw [← hfirst]
      exact ⟨rfl, rfl⟩
    -- the repaired entry leads to the same table
    have next : (eptTreeGetNextTable host first gfn (level + 1) table false).1 =
        (eptTreeGetNextTable host tree gfn (level + 1) table false).1 := by
      simp only [eptTreeGetNextTable_walk, entry, fixedEntry_present (Nat.succ_ne_zero level),
        fixedEntry_pfn, cache, unmapped]
    have visit : eptTreeVisit host gfn (fixEpte slot) (level + 1) table tree b =
        match (eptTreeGetNextTable host tree gfn (level + 1) table false).1 with
        | none => (first, (fixEpte slot (level + 1) (tree.entryAt gfn (level + 1, table)) b).2)
        | some next => eptTreeVisit host gfn (fixEpte slot) level next first
            (fixEpte slot (level + 1) (tree.entryAt gfn (level + 1, table)) b).2 := by
      rw [← next, ← hfirst, eptTreeVisit, fixEpte_eq, fixEpte_eq]
      rfl
    rw [visit]
    rw [eptTreePath] at distinct ⊢
    cases hnext : (eptTreeGetNextTable host tree gfn (level + 1) table false).1 with
    | none =>
      dsimp only
      exact .cons (by simp) (hfirst ▸ fixed_nil _)
    | some next =>
      rw [hnext] at distinct
      dsimp only at distinct ⊢
      rw [List.map_cons, List.nodup_cons] at distinct
      have apart (p : ℕ × Pfn) (mem : p ∈ eptTreePath host gfn tree level next) : p.2 ≠ table :=
        fun same => distinct.1 (List.mem_map.2 ⟨p, mem, same⟩)
      have path : eptTreePath host gfn first level next = eptTreePath host gfn tree level next := by
        refine eptTreePath_congr cache unmapped fun p mem _ => ?_
        rw [← hfirst, entryAt_setEntry_of_ne (apart p mem)]
        exact ⟨Iff.rfl, rfl⟩
      have distinct' : ((eptTreePath host gfn first level next).map Prod.snd).Nodup := by
        rw [path]
        exact distinct.2
      have rest := ih (fixEpte slot (level + 1) (tree.entryAt gfn (level + 1, table)) b).2 distinct'
      rw [path] at rest
      exact .cons apart (hfirst ▸ rest)

end Repair

/-! ## The whole repair -/

section Handle

variable {host : Host} {tree : EptTree} {gpa w : ℕ}

/-- The tables on the way to a page, for the processor. -/
def walkPath (host : Host) (tree : EptTree) (gpa : ℕ) : List (ℕ × Pfn) :=
  eptTreePath host (gpa / 2 ^ pgOrder4K) { tree with unmapped := [] } haxEptLevelPml4 tree.root

theorem walkPath_eq (maps : tree.Maps) : walkPath host tree gpa =
    eptTreePath host (gpa / 2 ^ pgOrder4K) tree haxEptLevelPml4 tree.root := by
  have same : { tree with unmapped := [] } = tree := by
    rw [← show tree.unmapped = [] from maps]
  rw [walkPath, same]

/-- The entry at a table on the way to a page. -/
def walkEntry (tree : EptTree) (gpa : ℕ) (p : ℕ × Pfn) : Epte :=
  tree.entryAt (gpa / 2 ^ pgOrder4K) p

/-- The slot of a page. -/
def slotOf (slots : List Memslot) (gpa : ℕ) : Option Memslot :=
  memslotFind slots (gpa / 2 ^ pgOrder4K)

/-- Every entry on the way that is present is well-formed. -/
def WalkWellFormed (maxPhyAddr : ℕ) (host : Host) (slots : List Memslot) (tree : EptTree)
    (gpa : ℕ) : Prop :=
  ∀ p ∈ walkPath host tree gpa, (walkEntry tree gpa p).Present →
    WellFormed maxPhyAddr (slotOf slots gpa) p.1 (walkEntry tree gpa p)

/-- A repair of entries that need none changes nothing. A repair that succeeds leaves
well-formed entries, none for a page without a slot, and nothing for the next. -/
structure Repairs (maxPhyAddr : ℕ) (host : Host) (slots : List Memslot) (tree : EptTree)
    (gpa : ℕ) : Prop where
  complete : WalkWellFormed maxPhyAddr host slots tree gpa →
    eptHandleMisconfiguration host slots tree gpa = (0, tree)
  sound : 0 ≤ (eptHandleMisconfiguration host slots tree gpa).1 →
    WalkWellFormed maxPhyAddr host slots (eptHandleMisconfiguration host slots tree gpa).2 gpa
  zeroed : 0 ≤ (eptHandleMisconfiguration host slots tree gpa).1 → slotOf slots gpa = none →
    ∀ p ∈ walkPath host tree gpa, p.1 = 0 → (walkEntry tree gpa p).Present →
      walkEntry (eptHandleMisconfiguration host slots tree gpa).2 gpa p = Epte.zero
  again : 0 ≤ (eptHandleMisconfiguration host slots tree gpa).1 →
    (eptHandleMisconfiguration host slots (eptHandleMisconfiguration host slots tree gpa).2 gpa).1 =
      0

/-- All entries on the way can be repaired: their frame numbers have 24 bits, and that of
the last is 0 if the page has no slot. -/
def Repairable (host : Host) (slots : List Memslot) (tree : EptTree) (gpa : ℕ) : Prop :=
  ∀ p ∈ walkPath host tree gpa, (walkEntry tree gpa p).Present →
    (walkEntry tree gpa p).pfn.toNat < 2 ^ 24 ∧
      (p.1 = 0 → slotOf slots gpa = none → (walkEntry tree gpa p).pfn = 0)

theorem repairable_iff (slots : List Memslot) : Repairable host slots tree gpa ↔
    ∀ p ∈ walkPath host tree gpa, ¬ Unrepairable (slotOf slots gpa) p.1 (walkEntry tree gpa p) := by
  refine forall₂_congr fun p _ => ?_
  rw [unrepairable_iff, not_and, not_or, not_le]
  simp only [not_and, not_not]

/-- What a call that returns `ret` makes of the tree. -/
structure Handled (host : Host) (slots : List Memslot) (tree : EptTree) (gpa : ℕ) (ret : ℤ)
    (tree' : EptTree) : Prop where
  path : walkPath host tree' gpa = walkPath host tree gpa
  entries : ∀ p ∈ walkPath host tree gpa,
    walkEntry tree' gpa p = fixedEntry (slotOf slots gpa) p.1 (walkEntry tree gpa p)
  nonneg : 0 ≤ ret ↔ Repairable host slots tree gpa
  fine : (∀ p ∈ walkPath host tree gpa,
    ¬ Misconfigured (slotOf slots gpa) p.1 (walkEntry tree gpa p)) → ret = 0 ∧ tree' = tree
  maps : tree'.Maps

theorem eptHandleMisconfiguration_handled (slots : List Memslot) (maps : tree.Maps)
    (distinct : ((walkPath host tree gpa).map Prod.snd).Nodup) :
    Handled host slots tree gpa (eptHandleMisconfiguration host slots tree gpa).1
      (eptHandleMisconfiguration host slots tree gpa).2 := by
  have distinct' := distinct
  rw [walkPath_eq maps] at distinct'
  have fixed := eptTreeVisit_fixed (slotOf slots gpa) ⟨0, 0⟩ distinct'
  rw [← walkPath_eq maps] at fixed
  unfold eptHandleMisconfiguration
  dsimp only
  rw [← slotOf]
  generalize eptTreeVisit host (gpa / 2 ^ pgOrder4K) (fixEpte (slotOf slots gpa)) haxEptLevelPml4
    tree.root tree ⟨0, 0⟩ = r at fixed ⊢
  obtain ⟨tree', b⟩ := r
  dsimp only at fixed ⊢
  have errors : b.error = 0 ↔ Repairable host slots tree gpa := by
    rw [fixed.error, Nat.zero_add, List.countP_eq_zero, repairable_iff]
    simp only [decide_eq_true_eq]
    rfl
  refine ⟨?_, fixed.entries, ?_, fun fine => ⟨?_, ?_⟩, ?_⟩
  · obtain ⟨tables, rfl⟩ := fixed.rest
    refine eptTreePath_congr rfl rfl fun p mem inner => ?_
    have entry := fixed.entries p mem
    change tables p.2 _ = _ at entry
    change (Epte.Present (tables p.2 _) ↔ (tree.entryAt _ p).Present) ∧
      (tables p.2 _).pfn = (tree.entryAt _ p).pfn
    rw [entry]
    exact ⟨fixedEntry_present inner, fixedEntry_pfn⟩
  · rw [← errors]
    split_ifs with h <;> omega
  · have none : b.misconfigured = 0 := by
      rw [fixed.misconfigured, Nat.zero_add, List.countP_eq_zero]
      exact fun p mem wrong => fine p mem (of_decide_eq_true wrong)
    rw [if_neg (not_not.2 (errors.2 ((repairable_iff slots).2 fun p mem broken =>
      fine p mem broken.misconfigured))), none]
    rfl
  · obtain ⟨tables, rfl⟩ := fixed.rest
    congr
    funext q j
    by_cases hit : ∃ p ∈ walkPath host tree gpa,
        q = p.2 ∧ j = eptIndex (gpa / 2 ^ pgOrder4K) p.1
    · obtain ⟨p, mem, rfl, rfl⟩ := hit
      exact (fixed.entries p mem).trans (fixedEntry_eq (fine p mem))
    · exact fixed.others q j fun p mem same => hit ⟨p, mem, same⟩
  · obtain ⟨tables, rfl⟩ := fixed.rest
    exact maps

section Handled

variable {slots : List Memslot} {ret : ℤ} {tree' : EptTree}
  (handled : Handled host slots tree gpa ret tree')

include handled

/-- After a repair that succeeds nothing is left to do. -/
theorem Handled.stable (repairable : Repairable host slots tree gpa) :
    ∀ p ∈ walkPath host tree' gpa,
      ¬ Misconfigured (slotOf slots gpa) p.1 (walkEntry tree' gpa p) := by
  rw [handled.path]
  rintro p mem ⟨present, differs⟩
  rw [handled.entries p mem, fixedEntry] at present differs
  split_ifs at present differs with h
  · exact differs repaired_repaired.symm
  · exact h ⟨present, (repairable_iff slots).1 repairable p mem⟩

/-- A repair that succeeds leaves well-formed entries exactly if the frame numbers are
those of the processor and the memory type of the last entry is even. -/
theorem Handled.wellFormed_iff (repairable : Repairable host slots tree gpa) :
    WalkWellFormed w host slots tree' gpa ↔
      ∀ p ∈ walkPath host tree gpa, (walkEntry tree gpa p).Present →
        (walkEntry tree gpa p).pfn.toNat < 2 ^ (w - 12) ∧
          (p.1 = 0 → (slotOf slots gpa).isSome → (walkEntry tree gpa p).eptMt.getLsbD 0 =
            false) := by
  unfold WalkWellFormed
  rw [handled.path]
  refine forall₂_congr fun p mem => ?_
  rw [handled.entries p mem]
  have fine := (repairable_iff slots).1 repairable p mem
  have kept := repairable p mem
  generalize walkEntry tree gpa p = e at *
  by_cases present : e.Present
  swap
  · rw [fixedEntry, if_neg fun h => present h.1]
    exact ⟨fun _ h => absurd h present, fun _ h => absurd h present⟩
  rw [fixedEntry, if_pos ⟨present, fine⟩]
  obtain ⟨small, unmapped⟩ := kept present
  by_cases gone : p.1 = 0 ∧ slotOf slots gpa = none
  · -- the entry is cleared, and its frame number was 0
    have zero : e.pfn = 0 := unmapped gone.1 gone.2
    have cleared : repaired (slotOf slots gpa) p.1 e = Epte.zero := by
      rw [gone.2]
      simp [repaired, gone.1]
    rw [cleared]
    refine iff_of_true (fun h => absurd rfl h) fun _ => ⟨?_, fun _ mapped => ?_⟩
    · rw [zero]
      exact Nat.two_pow_pos _
    · rw [gone.2] at mapped
      cases mapped
  · rw [wellFormed_repaired_iff gone small]
    have stays : (repaired (slotOf slots gpa) p.1 e).Present := repaired_present gone
    constructor
    · intro h _
      exact ⟨(h stays).1, fun leaf _ => (h stays).2 leaf⟩
    · intro h _
      refine ⟨(h present).1, fun leaf => (h present).2 leaf ?_⟩
      exact Option.isSome_iff_ne_none.2 fun none => gone ⟨leaf, none⟩

end Handled

end Handle

/-- A host without free frames. -/
def fullHost : Host := ⟨fun _ => none, fun _ _ => 0, fun _ _ h => by cases h⟩

/-- The tables for the first page of the guest. -/
def firstPageTree (leaf : Epte) : EptTree where
  pageList := [3, 2, 1, 0]
  root := 0
  table page _ := if page = 3 then leaf else { perm := haxEptPermRwx, pfn := page + 1 }
  freqPages i := if i < 3 then some (BitVec.ofNat 40 i) else none
  inveptPending := false

/-- A slot for the first page. -/
def firstPageSlot : Memslot := ⟨0, 1, some 0, 0, 0⟩

end Haxm
