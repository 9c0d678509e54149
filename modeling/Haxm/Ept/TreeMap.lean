/-
# The EPT over whole runs

Entries are created and removed range by range, in any order. After any such calls
`ept_tree_get_entry` is a function from guest frames to leaf entries, and one more
call changes this function on its range only: creating entries fills the range
unless something else is in the way, removing them clears it.

Both calls count entries in an `int`. The frames of a guest are fewer than `2 ^ 31`,
but the tables have room for `2 ^ 36`, and a range with `2 ^ 32` entries counts as one
without any: they are removed, and no INVEPT is pending.
-/

import Haxm.Ept.Create
import Haxm.Lib.Run

namespace Haxm

open Lib

variable {host : Host} {tree tree' : EptTree} {place : Pfn → Option (ℕ × ℕ)}
  {startGfn npages offsetWithinChunk flags gfn : ℕ} {chunk : Chunk}

/-- What the walk finds is the entry of the map. -/
theorem eptTreeGetEntry_eq (ok : TreeOk tree place) (maps : tree.Maps) (hgfn : GfnOk gfn) :
    eptTreeGetEntry host tree gfn = tree.leaf gfn := by
  rw [eptTreeGetEntry, eptTreeWalk_eq ok hgfn maps]
  cases hp : tree.path gfn 3 with
  | none => exact (EptTree.leaf_of_no_path hp).symm
  | some pt => exact (EptTree.leaf_of_path hp).symm

/-! ## Runs -/

/-- A call that changes the tree. -/
inductive EptCall
  | createEntries (startGfn npages : ℕ) (chunk : Chunk) (offsetWithinChunk flags : ℕ)
  | invalidateEntries (startGfn npages : ℕ)

/-- A range of frames that the tables have room for. -/
def RangeOk (startGfn npages : ℕ) : Prop := 0 < npages ∧ startGfn + npages ≤ 2 ^ 36

/-- Calls are made for such ranges. -/
def EptCall.Ok : EptCall → Prop
  | createEntries startGfn npages _ _ _ => RangeOk startGfn npages
  | invalidateEntries startGfn npages => RangeOk startGfn npages

/-- The tree after a call. -/
def eptStep (host : Host) (tree : EptTree) : EptCall → EptTree
  | .createEntries startGfn npages chunk offsetWithinChunk flags =>
    (eptTreeCreateEntries host tree startGfn npages chunk offsetWithinChunk flags).2
  | .invalidateEntries startGfn npages => (eptTreeInvalidateEntries host tree startGfn npages).2.1

/-- The trees that calls lead to. -/
def EptReached (host : Host) (tree : EptTree) : Prop :=
  ∃ init, eptTreeInit host = some init ∧
    Reached init (fun _ call => call.Ok) (eptStep host) tree

theorem eptStep_ok (call : EptCall) (ok : (∃ place, TreeOk tree place) ∧ tree.Maps)
    (range : call.Ok) :
    (∃ place, TreeOk (eptStep host tree call) place) ∧ (eptStep host tree call).Maps := by
  obtain ⟨⟨place, ok⟩, maps⟩ := ok
  cases call with
  | createEntries startGfn npages chunk offsetWithinChunk flags =>
    rcases h : eptTreeCreateEntries host tree startGfn npages chunk offsetWithinChunk flags with
      ⟨ret, tree'⟩
    have created := (eptTreeCreateEntries_spec ok range.1 range.2 h).1
    rw [eptStep, h]
    exact ⟨created.ok, created.unmapped.trans maps⟩
  | invalidateEntries startGfn npages =>
    rcases h : eptTreeInvalidateEntries host tree startGfn npages with ⟨ret, tree', events⟩
    have inv := (eptTreeInvalidateEntries_spec ok range.2 h).1
    rw [eptStep, h]
    exact ⟨inv.ok, inv.maps maps⟩

theorem EptReached.ok (reached : EptReached host tree) :
    (∃ place, TreeOk tree place) ∧ tree.Maps := by
  obtain ⟨init, hinit, reached⟩ := reached
  apply reached.invariant
  · exact ⟨eptTreeInit_ok hinit, eptTreeInit_maps hinit⟩
  · intro tree call ok range
    exact eptStep_ok call ok range

/-! ## One more call -/

/-- How many frames of the range have no entry. -/
def absentEntries (host : Host) (tree : EptTree) (startGfn npages : ℕ) : ℕ :=
  countIn (fun g => eptTreeGetEntry host tree g = Epte.zero) startGfn (startGfn + npages)

/-- How many frames of the range have an entry. -/
def presentEntries (host : Host) (tree : EptTree) (startGfn npages : ℕ) : ℕ :=
  countIn (fun g => eptTreeGetEntry host tree g ≠ Epte.zero) startGfn (startGfn + npages)

section Call

variable (counted : ℕ → ℤ) (host : Host) (tree : EptTree) (startGfn npages : ℕ)

/-- Entries were created as they should, where `counted` is how a number is returned. -/
structure RangeCreated (entry : ℕ → Epte) (ret : ℤ) (tree' : EptTree) : Prop where
  outside : ∀ g, GfnOk g → ¬ (startGfn ≤ g ∧ g < startGfn + npages) →
    eptTreeGetEntry host tree' g = eptTreeGetEntry host tree g
  filled : (∀ g, startGfn ≤ g ∧ g < startGfn + npages →
      eptTreeGetEntry host tree g = Epte.zero ∨ eptTreeGetEntry host tree g = entry g) →
    (∀ g, startGfn ≤ g ∧ g < startGfn + npages → eptTreeGetEntry host tree' g = entry g) ∧
      ret = counted (absentEntries host tree startGfn npages)

/-- Entries were removed as they should. -/
structure RangeInvalidated (ret : ℤ) (tree' : EptTree) : Prop where
  entries : ∀ g, GfnOk g → eptTreeGetEntry host tree' g =
    if startGfn ≤ g ∧ g < startGfn + npages then Epte.zero else eptTreeGetEntry host tree g
  count : ret = counted (presentEntries host tree startGfn npages)
  pending : tree'.inveptPending =
    (tree.inveptPending || decide (counted (presentEntries host tree startGfn npages) ≠ 0))

/-- One more call on a range changes the map as it should. -/
structure MapRefined (chunk : Chunk) (offsetWithinChunk flags : ℕ) : Prop where
  create : RangeCreated counted host tree startGfn npages
    (chunkEntry host chunk flags startGfn offsetWithinChunk)
    (eptTreeCreateEntries host tree startGfn npages chunk offsetWithinChunk flags).1
    (eptTreeCreateEntries host tree startGfn npages chunk offsetWithinChunk flags).2
  invalidate : RangeInvalidated counted host tree startGfn npages
    (eptTreeInvalidateEntries host tree startGfn npages).1
    (eptTreeInvalidateEntries host tree startGfn npages).2.1

end Call

section Range

variable (ok : TreeOk tree place) (maps : tree.Maps) (range : RangeOk startGfn npages)

include ok maps range

theorem absentEntries_eq :
    absentEntries host tree startGfn npages = tree.absent startGfn (startGfn + npages) := by
  refine countIn_congr fun g hg => ?_
  rw [eptTreeGetEntry_eq ok maps (hg.2.trans_le range.2)]

theorem presentEntries_eq :
    presentEntries host tree startGfn npages = tree.present startGfn (startGfn + npages) := by
  refine countIn_congr fun g hg => ?_
  rw [eptTreeGetEntry_eq ok maps (hg.2.trans_le range.2)]

theorem eptTreeCreateEntries_refines (pages : ¬ OutOfPages host tree (3 * npages)) :
    RangeCreated int32 host tree startGfn npages
      (chunkEntry host chunk flags startGfn offsetWithinChunk)
      (eptTreeCreateEntries host tree startGfn npages chunk offsetWithinChunk flags).1
      (eptTreeCreateEntries host tree startGfn npages chunk offsetWithinChunk flags).2 := by
  obtain ⟨created, outcome⟩ := eptTreeCreateEntries_spec ok range.1 range.2 (Prod.mk.eta
    (p := eptTreeCreateEntries host tree startGfn npages chunk offsetWithinChunk flags)).symm
  generalize eptTreeCreateEntries host tree startGfn npages chunk offsetWithinChunk flags = r at *
  obtain ⟨place', ok'⟩ := created.ok
  have maps' : r.2.Maps := created.unmapped.trans maps
  have inside (g : ℕ) (hg : startGfn ≤ g ∧ g < startGfn + npages) : GfnOk g :=
    hg.2.trans_le range.2
  constructor
  · intro g hgfn hg
    rw [eptTreeGetEntry_eq ok' maps' hgfn, eptTreeGetEntry_eq ok maps hgfn]
    rcases created.leaf g hgfn with same | ⟨hin, -⟩
    · exact same
    · exact absurd hin hg
  · intro free
    rcases outcome with ⟨hret, complete⟩ | ⟨-, out⟩ | ⟨-, g, hg, present, other⟩
    · refine ⟨fun g hg => ?_, ?_⟩
      · rw [eptTreeGetEntry_eq ok' maps' (inside g hg)]
        exact complete g hg
      · rw [hret, Nat.zero_add, absentEntries_eq ok maps range]
    · exact absurd out pages
    · -- nothing was in the way
      have := free g hg
      rw [eptTreeGetEntry_eq ok maps (inside g hg)] at this
      exact (this.elim present other).elim

theorem eptTreeInvalidateEntries_refines :
    RangeInvalidated int32 host tree startGfn npages
      (eptTreeInvalidateEntries host tree startGfn npages).1
      (eptTreeInvalidateEntries host tree startGfn npages).2.1 := by
  rcases h : eptTreeInvalidateEntries host tree startGfn npages with ⟨ret, tree', events⟩
  obtain ⟨inv, pending, count⟩ := eptTreeInvalidateEntries_spec ok range.2 h
  obtain ⟨place', ok'⟩ := inv.ok
  constructor
  · intro g hgfn
    rw [eptTreeGetEntry_eq ok' (inv.maps maps) hgfn, eptTreeGetEntry_eq ok maps hgfn]
    exact inv.leaf_eq maps hgfn
  · rw [presentEntries_eq ok maps range]
    exact count maps
  · rw [presentEntries_eq ok maps range, ← count maps]
    exact pending

end Range

/-- With fewer than `2 ^ 31` frames the counter shows the number. -/
theorem MapRefined.of_int32 (refined : MapRefined int32 host tree startGfn npages chunk
    offsetWithinChunk flags) (small : npages < 2 ^ 31) :
    MapRefined (fun n => n) host tree startGfn npages chunk offsetWithinChunk flags := by
  have absent : int32 (absentEntries host tree startGfn npages) =
      absentEntries host tree startGfn npages :=
    int32_of_lt (countIn_le.trans_lt (by omega))
  have present : int32 (presentEntries host tree startGfn npages) =
      presentEntries host tree startGfn npages :=
    int32_of_lt (countIn_le.trans_lt (by omega))
  obtain ⟨create, invalidate⟩ := refined
  refine ⟨⟨create.outside, fun free => ?_⟩, invalidate.entries, ?_, ?_⟩
  · rw [← absent]
    exact create.filled free
  · rw [← present]
    exact invalidate.count
  · rw [← present]
    exact invalidate.pending

/-- In every tree that is reached, one more call changes the map as it should; the
number returned is an `int`, and the number of entries if the range is not too long. -/
theorem eptTree_mapRefined (reached : EptReached host tree) (range : RangeOk startGfn npages)
    (pages : ¬ OutOfPages host tree (3 * npages)) (chunk : Chunk) (offsetWithinChunk flags : ℕ) :
    MapRefined int32 host tree startGfn npages chunk offsetWithinChunk flags ∧
      (npages < 2 ^ 31 →
        MapRefined (fun n => n) host tree startGfn npages chunk offsetWithinChunk flags) := by
  obtain ⟨⟨place, ok⟩, maps⟩ := reached.ok
  have refined : MapRefined int32 host tree startGfn npages chunk offsetWithinChunk flags :=
    ⟨eptTreeCreateEntries_refines ok maps range pages,
      eptTreeInvalidateEntries_refines ok maps range⟩
  exact ⟨refined, refined.of_int32⟩

/-! ## A host with many frames -/

/-- A host that has a frame as long as not all are in use. -/
def wideHost : Host where
  allocPageFrame used := ((List.range (used.length + 1)).map (BitVec.ofNat 40)).find? (· ∉ used)
  getPfnUser memdesc offset := BitVec.ofNat 40 (memdesc + offset / pageSize4K)
  unused used p h := by simpa using List.find?_some h

/-- Of `n + 1` frames one is not among `n`. -/
theorem wideHost_allocates {used : List Pfn} (few : used.length < 2 ^ 40) :
    wideHost.allocPageFrame used ≠ none := by
  intro none
  have taken : ∀ k < used.length + 1, BitVec.ofNat 40 k ∈ used := by
    simpa [wideHost] using none
  have sub : (List.range (used.length + 1)).map (BitVec.ofNat 40) ⊆ used := by
    intro p mem
    obtain ⟨k, hk, rfl⟩ := List.mem_map.1 mem
    exact taken k (List.mem_range.1 hk)
  have distinct : ((List.range (used.length + 1)).map (BitVec.ofNat 40)).Nodup := by
    refine List.Nodup.map_on (fun a ha b hb same => ?_) List.nodup_range
    have := congrArg BitVec.toNat same
    rw [List.mem_range] at ha hb
    rwa [BitVec.toNat_ofNat, BitVec.toNat_ofNat, Nat.mod_eq_of_lt (by omega),
      Nat.mod_eq_of_lt (by omega)] at this
  have := (distinct.subperm sub).length_le
  rw [List.length_map, List.length_range] at this
  omega

theorem wideHost_not_outOfPages {n : ℕ} (maps : tree.Maps)
    (few : tree.pageList.length + n < 2 ^ 40) : ¬ OutOfPages wideHost tree n := by
  rintro (stuck | ⟨new, hnew, fails⟩)
  · exact stuck maps
  refine wideHost_allocates ?_ fails
  rw [List.length_append]
  omega

/-- The EPT of a new guest on the wide host. -/
def wideTree : EptTree where
  pageList := [0]
  root := 0
  table _ _ := Epte.zero
  freqPages := Function.update (fun _ => none) 0 (some 0)
  inveptPending := false

theorem wideTree_reached : EptReached wideHost wideTree := ⟨wideTree, rfl, .init⟩

/-- Entries in two page tables that follow each other and in one that is far away, one of
which was removed again. -/
def usedTree : EptTree :=
  [.createEntries 510 4 ⟨0, 0, 0x4000⟩ 0 0, .createEntries (2 ^ 35) 1 ⟨9, 0, 0x1000⟩ 0 0,
    .invalidateEntries 512 1].foldl (eptStep wideHost) wideTree

theorem usedTree_reached : EptReached wideHost usedTree := by
  refine ⟨wideTree, rfl, Reached.init.foldl ?_⟩
  norm_num [AllowedRun, EptCall.Ok, RangeOk]

/-- A range with entries that are there, one that is missing and the end of a table. -/
theorem usedTree_mapRefined :
    eptTreeGetEntry wideHost usedTree 511 ≠ Epte.zero ∧
      eptTreeGetEntry wideHost usedTree 512 = Epte.zero ∧
      MapRefined (fun n => n) wideHost usedTree 511 3 ⟨0, 0, 0x4000⟩ 0x1000 0 :=
  ⟨by decide +kernel, by decide +kernel,
    (eptTree_mapRefined usedTree_reached ⟨by norm_num, by norm_num⟩
      (wideHost_not_outOfPages (by decide +kernel) (by decide +kernel)) ⟨0, 0, 0x4000⟩ 0x1000 0).2
        (by norm_num)⟩

section Filled

variable {n : ℕ} (range : RangeOk 0 n)
include range

/-- The EPT after entries for the first `n` frames were created. -/
def filledTree (n : ℕ) : EptTree :=
  (eptTreeCreateEntries wideHost wideTree 0 n ⟨0, 0, pageSize4K * n⟩ 0 0).2

theorem filledTree_reached : EptReached wideHost (filledTree n) := by
  refine ⟨wideTree, rfl, ?_⟩
  change Reached wideTree _ _
    (eptStep wideHost wideTree (.createEntries 0 n ⟨0, 0, pageSize4K * n⟩ 0 0))
  exact Reached.init.step range

theorem filledTree_spec : (∀ g, 0 ≤ g ∧ g < 0 + n → (filledTree n).leaf g ≠ Epte.zero) ∧
    (filledTree n).inveptPending = false := by
  obtain ⟨⟨place, ok⟩, -⟩ := wideTree_reached.ok
  obtain ⟨created, outcome⟩ := eptTreeCreateEntries_spec ok range.1 range.2
    (Prod.mk.eta (p := eptTreeCreateEntries wideHost wideTree 0 n ⟨0, 0, pageSize4K * n⟩ 0 0)).symm
  have bound := range.2
  refine ⟨?_, created.pending⟩
  rcases outcome with ⟨-, complete⟩ | ⟨-, out⟩ | ⟨-, g, hg, present, -⟩
  · intro g hg
    rw [filledTree, complete g hg]
    exact eptLeaf_ne_zero
  · refine absurd out (wideHost_not_outOfPages rfl ?_)
    change 1 + 3 * n < 2 ^ 40
    omega
  · have empty : wideTree.leaf g = Epte.zero := rfl
    exact absurd empty present

/-- All entries are removed, and an INVEPT is pending if their number is not 0 as an `int`. -/
theorem filledTree_invalidated :
    (eptTreeInvalidateEntries wideHost (filledTree n) 0 n).1 = int32 n ∧
      (eptTreeInvalidateEntries wideHost (filledTree n) 0 n).2.1.inveptPending =
        decide (int32 n ≠ 0) ∧
      presentEntries wideHost (filledTree n) 0 n = n := by
  obtain ⟨⟨place, ok⟩, maps⟩ := (filledTree_reached range).ok
  obtain ⟨all, pending⟩ := filledTree_spec range
  have number : presentEntries wideHost (filledTree n) 0 n = n := by
    rw [presentEntries_eq ok maps range, EptTree.present, countIn_of_forall all, Nat.zero_add,
      Nat.sub_zero]
  have refined : RangeInvalidated int32 wideHost (filledTree n) 0 n _ _ :=
    eptTreeInvalidateEntries_refines ok maps range
  refine ⟨?_, ?_, number⟩
  · rw [refined.count, number]
  · rw [refined.pending, number, pending, Bool.false_or]

end Filled

/-- The entries for the first 16 TB are counted as none: they are removed, but nothing is
pending. -/
theorem filledTree_not_mapRefined :
    EptReached wideHost (filledTree (2 ^ 32)) ∧ RangeOk 0 (2 ^ 32) ∧
      (eptTreeInvalidateEntries wideHost (filledTree (2 ^ 32)) 0 (2 ^ 32)).1 = 0 ∧
      (eptTreeInvalidateEntries wideHost (filledTree (2 ^ 32)) 0 (2 ^ 32)).2.1.inveptPending =
        false ∧
      ¬ MapRefined (fun n => n) wideHost (filledTree (2 ^ 32)) 0 (2 ^ 32)
        ⟨0, 0, pageSize4K * 2 ^ 32⟩ 0 0 := by
  have range : RangeOk 0 (2 ^ 32) := ⟨by norm_num, by norm_num⟩
  obtain ⟨count, pending, number⟩ := filledTree_invalidated range
  have zero : int32 (2 ^ 32) = 0 := by decide
  refine ⟨filledTree_reached range, range, ?_, ?_, fun wrong => ?_⟩
  · rw [count, zero]
  · rw [pending, zero]
    rfl
  · have shown := wrong.invalidate.count
    rw [count, number, zero] at shown
    exact absurd shown (by norm_num)

end Haxm
