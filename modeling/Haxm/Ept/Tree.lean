/-
# The EPT of a guest

`hax_ept_tree` holds the tables that the processor walks to translate guest
physical addresses: four levels of 512 entries each. A table lives in a page
frame of the host and is found by the frame number in the entry that refers to
it. The tables used most are also found through a cache.

One thread at a time runs here, so that an exchange with an expected old value
is a comparison and a store, and an entry that another thread is working on is
never seen.
-/

import Haxm.Lib.Radix
import Haxm.Memory.SetMapping

namespace Haxm

open Lib

/-- `INVALID_PFN`, all ones. -/
abbrev invalidPfn : Pfn := BitVec.allOnes 40

/-- What the host answers to requests for page frames. A frame number that
reports an error never gets past the assertions made about it. -/
structure Host where
  /-- `hax_alloc_page_frame`, given the frames in use; fails with `none`. -/
  allocPageFrame : List Pfn → Option Pfn
  /-- `hax_get_pfn_user`: the frame at an offset of pinned memory. -/
  getPfnUser : (memdesc offset : ℕ) → Pfn
  unused : ∀ used p, allocPageFrame used = some p → p ∉ used

/-! ## Tables -/

/-- `HAX_EPT_LEVEL_PML4`. -/
abbrev haxEptLevelPml4 : ℕ := 3

/-- `HAX_EPT_LEVEL_PDPT`. -/
abbrev haxEptLevelPdpt : ℕ := 2

/-- `HAX_EPT_LEVEL_PD`. -/
abbrev haxEptLevelPd : ℕ := 1

/-- `HAX_EPT_TABLE_SHIFT`. -/
abbrev haxEptTableShift : ℕ := 9

/-- `HAX_EPT_TABLE_SIZE`. -/
abbrev haxEptTableSize : ℕ := 2 ^ haxEptTableShift

/-- `HAX_EPT_FREQ_PAGE_COUNT`. -/
abbrev haxEptFreqPageCount : ℕ := 10

/-- `HAX_EPT_PERM_NONE`. -/
abbrev haxEptPermNone : BitVec 3 := 0

/-- `HAX_EPT_PERM_RWX`. -/
abbrev haxEptPermRwx : BitVec 3 := 7

/-- `HAX_EPT_PERM_RX`. -/
abbrev haxEptPermRx : BitVec 3 := 5

/-- `HAX_EPT_MEMTYPE_WB`. -/
abbrev haxEptMemtypeWb : BitVec 3 := 6

/-- The entry whose value is 0. -/
def Epte.zero : Epte := {}

/-- `INVALID_EPTE`. -/
def invalidEpte : Epte := { pfn := invalidPfn }

/-- `hax_ept_tree`. A table is known by the number of its frame. -/
structure EptTree where
  pageList : List Pfn
  root : Pfn
  table : Pfn → ℕ → Epte
  /-- `freq_pages`, by the frame that is mapped. -/
  freqPages : ℕ → Option Pfn
  inveptPending : Bool
  /-- The walks of the current call for which `hax_map_page_frame` fails: the guest frame and
  the table that is not mapped. -/
  unmapped : List (ℕ × Pfn) := []

/-- No mapping fails. -/
def EptTree.Maps (tree : EptTree) : Prop := tree.unmapped = []

instance (tree : EptTree) : Decidable tree.Maps := inferInstanceAs (Decidable (_ = _))

/-- The index of the entry for a frame in a table of a level. -/
def eptIndex (gfn level : ℕ) : ℕ := gfn / 2 ^ (haxEptTableShift * level) % haxEptTableSize

/-- The number of a table of a level, as a `uint`. -/
def eptGrossIndex (gfn level : ℕ) : ℕ := gfn / 2 ^ (haxEptTableShift * level) % 2 ^ 32

/-- `ept_tree_get_freq_page`: the place in the cache for the table of a level
that covers a frame. -/
def eptTreeGetFreqPage (gfn level : ℕ) : Option ℕ :=
  match level with
  | 3 => some 0
  | 2 => if eptGrossIndex gfn 3 = 0 then some 1 else none
  | 1 => if eptGrossIndex gfn 2 < haxEptFreqPageCount - 2 then some (2 + eptGrossIndex gfn 2)
    else none
  | _ => none

/-- `ept_tree_alloc_page`. A new table is filled with zeroes. -/
def eptTreeAllocPage (host : Host) (tree : EptTree) : Option Pfn × EptTree :=
  match host.allocPageFrame tree.pageList with
  | none => (none, tree)
  | some page =>
    (some page,
      { tree with
        pageList := page :: tree.pageList
        table := Function.update tree.table page fun _ => Epte.zero })

/-- `ept_tree_init`. -/
def eptTreeInit (host : Host) : Option EptTree :=
  (host.allocPageFrame []).map fun page =>
    { pageList := [page]
      root := page
      table := fun _ _ => Epte.zero
      freqPages := Function.update (fun _ => none) 0 (some page)
      inveptPending := false }

def EptTree.setEntry (tree : EptTree) (table : Pfn) (index : ℕ) (epte : Epte) : EptTree :=
  { tree with table := writeEntry tree.table table index epte }

def EptTree.setFreqPage (tree : EptTree) (freqPage : Option ℕ) (page : Pfn) : EptTree :=
  match freqPage with
  | none => tree
  | some i => { tree with freqPages := Function.update tree.freqPages i (some page) }

/-- `ept_tree_get_next_table`. -/
def eptTreeGetNextTable (host : Host) (tree : EptTree) (gfn currentLevel : ℕ) (currentTable : Pfn)
    (create : Bool) : Option Pfn × EptTree :=
  let index := eptIndex gfn currentLevel
  let epte := tree.table currentTable index
  let freqPage := eptTreeGetFreqPage gfn (currentLevel - 1)
  if epte.perm = haxEptPermNone ∧ create = false then (none, tree)
  else if epte = Epte.zero then
    match eptTreeAllocPage host tree with
    | (none, tree) => (none, tree)
    | (some page, tree) =>
      (some page, (tree.setFreqPage freqPage page).setEntry currentTable index
        { perm := haxEptPermRwx, pfn := page })
  else if epte = invalidEpte then
    -- nobody is going to complete the entry, and the wait ends after a while
    (none, tree)
  else
    match freqPage with
    | some i => (tree.freqPages i, tree)
    | none => (if (gfn, epte.pfn) ∈ tree.unmapped then none else some epte.pfn, tree)

/-! ## Removing entries -/

/-- `ept_tree_walk`, up to the last table. -/
def eptTreeWalk (host : Host) (tree : EptTree) (gfn : ℕ) : Option Pfn := do
  let pdpt ← (eptTreeGetNextTable host tree gfn haxEptLevelPml4 tree.root false).1
  let pd ← (eptTreeGetNextTable host tree gfn haxEptLevelPdpt pdpt false).1
  (eptTreeGetNextTable host tree gfn haxEptLevelPd pd false).1

/-- `ept_tree_get_entry`. -/
def eptTreeGetEntry (host : Host) (tree : EptTree) (gfn : ℕ) : Epte :=
  match eptTreeWalk host tree gfn with
  | none => Epte.zero
  | some pt => tree.table pt (eptIndex gfn 0)

/-- `ept_tree_invalidate_entry`. -/
def eptTreeInvalidateEntry (host : Host) (tree : EptTree) (gfn : ℕ) :
    Bool × EptTree × List Event :=
  match eptTreeWalk host tree gfn with
  | none => (false, tree, [])
  | some pt =>
    -- `invalidate_pte`
    let pte := tree.table pt (eptIndex gfn 0)
    if pte.perm = haxEptPermNone then (false, tree, [])
    else (true, tree.setEntry pt (eptIndex gfn 0) Epte.zero, [.invalidate gfn pte])

/-- The loop of `ept_tree_invalidate_entries`. -/
def eptTreeInvalidateLoop (host : Host) (gfn : ℕ) :
    ℕ → EptTree → ℕ × EptTree × List Event
  | 0, tree => (0, tree, [])
  | n + 1, tree =>
    match eptTreeInvalidateEntry host tree gfn with
    | (modified, tree, events) =>
      match eptTreeInvalidateLoop host (gfn + 1) n tree with
      | (count, tree, events') => (modified.toNat + count, tree, events ++ events')

/-- `ept_tree_invalidate_entries`. The number of entries is counted in an `int`. -/
def eptTreeInvalidateEntries (host : Host) (tree : EptTree) (startGfn npages : ℕ) :
    ℤ × EptTree × List Event :=
  let endGfn := add64 startGfn npages
  match eptTreeInvalidateLoop host startGfn (endGfn - startGfn) tree with
  | (count, tree, events) =>
    (int32 count, if int32 count ≠ 0 then { tree with inveptPending := true } else tree, events)

/-- The listener that `hax_create_vm` registers: `ept_handle_mapping_removed` and
`ept_handle_mapping_changed`. -/
def eptListener (host : Host) : Listener EptTree where
  mappingAdded := none
  mappingRemoved := some fun tree startGfn npages _ _ =>
    (eptTreeInvalidateEntries host tree startGfn npages).2
  mappingChanged := some fun tree startGfn npages _ _ _ _ =>
    (eptTreeInvalidateEntries host tree startGfn npages).2

/-! ## Creating entries -/

/-- The new leaf entry for an offset in a chunk. -/
def eptLeaf (host : Host) (chunk : Chunk) (flags offset : ℕ) : Epte where
  perm := if flags &&& haxMemslotReadonly ≠ 0 then haxEptPermRx else haxEptPermRwx
  eptMt := haxEptMemtypeWb
  pfn := host.getPfnUser chunk.memdesc offset

/-- The loop of `ept_tree_create_entries` over `n` entries of one table. -/
def eptTreeCreatePtes (host : Host) (chunk : Chunk) (flags : ℕ) (pt : Pfn) (index offset : ℕ) :
    (n created : ℕ) → EptTree → ℤ × ℕ × EptTree
  | 0, created, tree => (0, created, tree)
  | n + 1, created, tree =>
    let newPte := eptLeaf host chunk flags offset
    let pte := tree.table pt index
    if pte = Epte.zero then
      eptTreeCreatePtes host chunk flags pt (index + 1) (offset + pageSize4K) n (created + 1)
        (tree.setEntry pt index newPte)
    else if pte ≠ newPte then (-EEXIST, created, tree)
    else eptTreeCreatePtes host chunk flags pt (index + 1) (offset + pageSize4K) n created tree

/-- The labels of `ept_tree_create_entries`: the table to get next. -/
inductive NextTable
  | nextPdpt
  | nextPd
  | nextPt
  deriving DecidableEq, Repr

/-- Where `ept_tree_create_entries` goes on from one table to the next. -/
def nextTable (gfn : ℕ) : NextTable :=
  if eptIndex gfn haxEptLevelPd ≠ 0 then .nextPt
  else if eptIndex gfn haxEptLevelPdpt ≠ 0 then .nextPd
  else .nextPdpt

/-- `ept_tree_create_entries` from a label on, up to the last table. The tables
above are those at hand. -/
def eptTreeGetTables (host : Host) (label : NextTable) (pdpt pd : Pfn) (gfn : ℕ) (tree : EptTree) :
    Option (Pfn × Pfn × Pfn) × EptTree :=
  match if label = .nextPdpt then
      eptTreeGetNextTable host tree gfn haxEptLevelPml4 tree.root true
    else (some pdpt, tree) with
  | (none, tree) => (none, tree)
  | (some pdpt, tree) =>
    match if label ≠ .nextPt then eptTreeGetNextTable host tree gfn haxEptLevelPdpt pdpt true
      else (some pd, tree) with
    | (none, tree) => (none, tree)
    | (some pd, tree) =>
      match eptTreeGetNextTable host tree gfn haxEptLevelPd pd true with
      | (none, tree) => (none, tree)
      | (some pt, tree) => (some (pdpt, pd, pt), tree)

/-- How many entries to create in the table for `gfn`. -/
def eptTableRun (gfn endGfn : ℕ) : ℕ :=
  let endIndex := if eptGrossIndex gfn 1 < eptGrossIndex endGfn 1 then haxEptTableSize - 1
    else eptIndex endGfn 0
  endIndex + 1 - eptIndex gfn 0

/-- The body of `ept_tree_create_entries` from a label on; `fuel` bounds the
number of tables to go through. `created_count` is an `int`. -/
def eptTreeCreateLoop (host : Host) (chunk : Chunk) (flags endGfn : ℕ) :
    (fuel : ℕ) → NextTable → (pdpt pd : Pfn) → (gfn offset created : ℕ) → EptTree → ℤ × EptTree
  | 0, _, _, _, _, _, created, tree => (int32 created, tree)
  | fuel + 1, label, pdpt, pd, gfn, offset, created, tree =>
    match eptTreeGetTables host label pdpt pd gfn tree with
    | (none, tree) => (-ENOMEM, tree)
    | (some (pdpt, pd, pt), tree) =>
      let n := eptTableRun gfn endGfn
      match eptTreeCreatePtes host chunk flags pt (eptIndex gfn 0) offset n created tree with
      | (ret, created, tree) =>
        if ret ≠ 0 then (ret, tree)
        else if gfn + n ≤ endGfn then
          eptTreeCreateLoop host chunk flags endGfn fuel (nextTable (gfn + n)) pdpt pd (gfn + n)
            (offset + pageSize4K * n) created tree
        else (int32 created, tree)

/-- `ept_tree_create_entries`. Its assertions are made by the caller. -/
def eptTreeCreateEntries (host : Host) (tree : EptTree) (startGfn npages : ℕ) (chunk : Chunk)
    (offsetWithinChunk flags : ℕ) : ℤ × EptTree :=
  eptTreeCreateLoop host chunk flags (startGfn + npages - 1) npages .nextPdpt tree.root tree.root
    startGfn offsetWithinChunk 0 tree

end Haxm
