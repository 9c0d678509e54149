/-
# Memory slots

A memory slot maps a range of guest page frames to a part of a RAM block. The
slots of a guest form a list sorted by guest frame number. A request maps or
unmaps a range by one pass over that list, which first looks for the slot where
the range starts, then deletes the slots that lie inside the range and finally
deals with the slot where the range ends. Slots of the same type, which the
request merely continues, are extended instead of being replaced.

The pass works in place on a linked list. Here the list is cut at the slot
`src` under consideration: a `Walk` holds the slots before it, the nearest one
first, and what stands from `src` on is passed along beside it.

Frame numbers stay below `2 ^ 31` and offsets below `2 ^ 51`, so sums of them
are sums of natural numbers; differences may wrap.
-/

import Haxm.Memory.Ramblock
import Mathlib.Data.Nat.Bitwise

namespace Haxm

open Lib

abbrev haxMemslotReadonly : ℕ := 1
abbrev haxMemslotStandalone : ℕ := 64
abbrev haxMemslotInvalid : ℕ := 128

/-- `sizeof(hax_memslot)` on 64-bit Linux. -/
abbrev sizeofMemslot : ℕ := 56

/-- `hax_memslot`. -/
structure Memslot where
  baseGfn : ℕ
  npages : ℕ
  block : Option ℕ
  offsetWithinBlock : ℕ
  flags : ℕ
  deriving DecidableEq, Repr

/-- The first frame after the slot. -/
def Memslot.endGfn (s : Memslot) : ℕ := s.baseGfn + s.npages

/-- `memslot_is_valid`. -/
def memslotIsValid (flags : ℕ) : Bool := flags &&& haxMemslotInvalid ≠ haxMemslotInvalid

/-- `memslot_is_same_type`. -/
def memslotIsSameType (dest src : Memslot) : Bool :=
  dest.block = src.block &&
    sub64 dest.offsetWithinBlock src.offsetWithinBlock =
      shl64 (sub64 dest.baseGfn src.baseGfn) pgOrder4K &&
    dest.flags &&& haxMemslotReadonly = src.flags &&& haxMemslotReadonly

/-- `memslot_find`. -/
def memslotFind (list : List Memslot) (gfn : ℕ) : Option Memslot :=
  match list with
  | [] => none
  | s :: rest =>
    if s.baseGfn > gfn then none
    else if gfn < s.endGfn then some s
    else memslotFind rest gfn

/-! ## Changes to one slot -/

/-- `memslot_union`: what becomes of `src`. -/
def memslotUnion (dest src : Memslot) : Memslot :=
  { src with
    offsetWithinBlock := min src.offsetWithinBlock dest.offsetWithinBlock
    npages := max src.endGfn dest.endGfn - min src.baseGfn dest.baseGfn
    baseGfn := min src.baseGfn dest.baseGfn }

/-- `memslot_overlap_front`: what becomes of `src`. -/
def memslotOverlapFront (dest src : Memslot) : Memslot :=
  { src with
    offsetWithinBlock := src.offsetWithinBlock + pageSize4K * (dest.endGfn - src.baseGfn)
    npages := src.endGfn - dest.endGfn
    baseGfn := dest.endGfn }

/-- `memslot_overlap_rear`: what becomes of `src`. -/
def memslotOverlapRear (dest src : Memslot) : Memslot :=
  { src with npages := dest.baseGfn - src.baseGfn }

/-- `memslot_dup`. -/
def memslotDup (m : Mem) (slot : Memslot) : Option Memslot × Mem :=
  match m.vmalloc sizeofMemslot with
  | (false, m) => (none, m)
  | (true, m) => (some slot, ramblockRef m slot.block)

/-- The part of `src` that lies behind `dest`. -/
def memslotRest (dest src : Memslot) : Memslot where
  baseGfn := dest.endGfn
  npages := src.endGfn - dest.endGfn
  block := src.block
  offsetWithinBlock := src.offsetWithinBlock + pageSize4K * (dest.endGfn - src.baseGfn)
  flags := src.flags

/-- `memslot_append_rest`. -/
def memslotAppendRest (m : Mem) (dest src : Memslot) : Option Memslot × Mem :=
  memslotDup m (memslotRest dest src)

/-! ## The first slot of the range -/

/-- The list while the pass is at some slot. -/
structure Walk where
  mem : Mem
  /-- The slots before the current one, nearest first. -/
  passed : List Memslot
  /-- Copies of the slots that the range overlaps, in order. -/
  snapshot : List Memslot
  /-- `MEMSLOT_PROCESSING`. -/
  processing : Bool
  /-- `MEMSLOT_TO_INSERT`. -/
  toInsert : Bool

/-- A new slot in front of the current one. -/
def Walk.insertBefore (w : Walk) (dest : Memslot) (after : List Memslot) :
    ℤ × Walk × List Memslot :=
  match memslotDup w.mem dest with
  | (none, m) => (-ENOMEM, { w with mem := m }, after)
  | (some slot, m) => (0, { w with mem := m, passed := slot :: w.passed }, after)

/-- The cases of `memslot_process_start_diff_type` in which the range starts
inside `src` or right behind it. -/
def memslotProcessStartInside (w : Walk) (dest src : Memslot) : ℤ × Walk × List Memslot :=
  if dest.baseGfn < src.endGfn then
    if dest.endGfn < src.endGfn then
      -- (9)
      match memslotDup w.mem dest with
      | (none, m) => (-ENOMEM, { w with mem := m }, [src])
      | (some slot, m) =>
        match memslotAppendRest m slot src with
        | (none, m) => (-ENOMEM, { w with mem := m }, [src, slot])
        | (some rest, m) => (0, { w with mem := m }, [memslotOverlapRear slot src, slot, rest])
    else
      -- (10)(11)
      (0, w, [memslotOverlapRear dest src])
  else
    -- (12)
    (0, w, [src])

/-- `memslot_process_start_diff_type`: the error code, the walk, and what stands
from the place of `src` on. -/
def memslotProcessStartDiffType (w : Walk) (dest src : Memslot) : ℤ × Walk × List Memslot :=
  if dest.endGfn ≤ src.baseGfn then
    -- (1)(2)
    w.insertBefore dest [src]
  else if dest.baseGfn ≤ src.baseGfn then
    if dest.endGfn < src.endGfn then
      -- (3)(6)
      match memslotDup w.mem dest with
      | (none, m) => (-ENOMEM, { w with mem := m }, [src])
      | (some slot, m) =>
        (0, { w with mem := m, passed := slot :: w.passed }, [memslotOverlapFront slot src])
    else
      -- (4)(5)(7)(8): `src` keeps its own block
      (0, w, [{ memslotUnion dest src with flags := dest.flags }])
  else
    memslotProcessStartInside
      (if src.endGfn ≤ dest.endGfn then { w with toInsert := true } else w) dest src

/-- `memslot_process_start_same_type`. -/
def memslotProcessStartSameType (w : Walk) (dest src : Memslot) : ℤ × Walk × List Memslot :=
  if dest.endGfn < src.baseGfn then
    -- (1)
    w.insertBefore dest [src]
  else if src.baseGfn ≤ dest.baseGfn ∧ dest.endGfn ≤ src.endGfn then
    -- (6)(7)(9)(10)
    (0, w, [src])
  else
    -- (2)(3)(4)(5)(8)(11)(12)
    (0, w, [memslotUnion dest src])

/-- `memslot_delete` of a slot that is not put back into the list. -/
def Walk.drop (w : Walk) (slot : Memslot) : Walk :=
  { w with mem := ramblockDeref w.mem slot.block }

/-- `memslot_process_start_invalid`. -/
def memslotProcessStartInvalid (w : Walk) (dest src : Memslot) : ℤ × Walk × List Memslot :=
  if dest.endGfn ≤ src.baseGfn ∨ dest.baseGfn = src.endGfn then
    -- (1)(2)(12)
    (0, w, [src])
  else if dest.baseGfn ≤ src.baseGfn then
    if dest.endGfn < src.endGfn then
      -- (3)(6)
      (0, w, [memslotOverlapFront dest src])
    else
      -- (4)(5)(7)(8)
      (0, w.drop src, [])
  else if dest.endGfn < src.endGfn then
    -- (9)
    match memslotAppendRest w.mem dest src with
    | (none, m) => (-ENOMEM, { w with mem := m }, [src])
    | (some rest, m) => (0, { w with mem := m }, [memslotOverlapRear dest src, rest])
  else
    -- (10)(11)
    (0, w, [memslotOverlapRear dest src])

/-- The table `memslot_process_start`, indexed by the route. -/
def memslotProcessStart (isValid : Bool) (w : Walk) (dest src : Memslot) :
    ℤ × Walk × List Memslot :=
  if isValid then
    if memslotIsSameType dest src then memslotProcessStartSameType w dest src
    else memslotProcessStartDiffType w dest src
  else memslotProcessStartInvalid w dest src

/-! ## The last slot of the range -/

/-- `memslot_process_end_diff_type`. -/
def memslotProcessEndDiffType (w : Walk) (dest src : Memslot) : ℤ × Walk × List Memslot :=
  if dest.endGfn < src.endGfn then
    -- [1][2]
    let src := if src.baseGfn < dest.endGfn then memslotOverlapFront dest src else src
    if w.toInsert then w.insertBefore dest [src] else (0, w, [src])
  else if w.toInsert then
    -- [3]: `memslot_move` turns `src` into the new slot
    (0, { w.drop src with mem := ramblockRef (w.drop src).mem dest.block }, [dest])
  else
    (0, w.drop src, [])

/-- `memslot_process_end_same_type`. The slot in front of `src` is at hand, since
the range started there. -/
def memslotProcessEndSameType (w : Walk) (dest src : Memslot) : ℤ × Walk × List Memslot :=
  if dest.endGfn = src.endGfn ∧ w.toInsert = false then
    -- [3], existed
    (0, w.drop src, [])
  else
    match w.passed with
    | [] => (0, { w with mem := w.mem.fault .overrun }, [src])
    | prev :: passed =>
      let src := memslotUnion (if memslotIsSameType dest prev then prev else dest) src
      if w.toInsert then (0, w, [src])
      else (0, { w.drop prev with passed := passed }, [src])

/-- `memslot_process_end_invalid`. -/
def memslotProcessEndInvalid (w : Walk) (dest src : Memslot) : ℤ × Walk × List Memslot :=
  if dest.endGfn = src.baseGfn then
    -- [1]
    (0, w, [src])
  else if dest.endGfn < src.endGfn then
    -- [2]
    (0, w, [memslotOverlapFront dest src])
  else
    -- [3]
    (0, w.drop src, [])

/-- The table `memslot_process_end`, indexed by the route. -/
def memslotProcessEnd (isValid : Bool) (w : Walk) (dest src : Memslot) :
    ℤ × Walk × List Memslot :=
  if isValid then
    if memslotIsSameType dest src then memslotProcessEndSameType w dest src
    else memslotProcessEndDiffType w dest src
  else memslotProcessEndInvalid w dest src

/-- `memslot_is_inner`; `rest` is what follows `src` in the list. -/
def memslotIsInner (dest src : Memslot) (rest : List Memslot) : Bool :=
  src.endGfn < dest.endGfn ||
    (dest.endGfn = src.endGfn &&
      match rest with
      | [] => false
      | next :: _ => dest.endGfn = next.baseGfn && memslotIsSameType dest next)

/-! ## The pass -/

/-- `memslot_list_enqueue` on the snapshot, if the slot overlaps the range. -/
def Walk.enqueue (w : Walk) (overlaps : Bool) (src : Memslot) : ℤ × Walk :=
  if overlaps then
    match memslotDup w.mem src with
    | (none, m) => (-ENOMEM, { w with mem := m })
    | (some slot, m) => (0, { w with mem := m, snapshot := w.snapshot ++ [slot] })
  else (0, w)

/-- The loop once `is_found` is set. -/
def memslotLoopFound (isValid : Bool) (dest : Memslot) (w : Walk) :
    List Memslot → ℤ × Walk × List Memslot
  | [] => (0, w, [])
  | src :: rest =>
    if dest.endGfn < src.baseGfn then (0, w, src :: rest)
    else
      match w.enqueue (src.baseGfn < dest.endGfn) src with
      | (ret, w) =>
        if ret ≠ 0 then (ret, w, src :: rest)
        else if memslotIsInner dest src rest then memslotLoopFound isValid dest (w.drop src) rest
        else
          match memslotProcessEnd isValid w dest src with
          | (ret, w, after) =>
            if ret ≠ 0 then (ret, w, after ++ rest)
            else (0, { w with processing := false, toInsert := false }, after ++ rest)

/-- The loop until `is_found` is set. -/
def memslotLoop (isValid : Bool) (dest : Memslot) (w : Walk) :
    List Memslot → ℤ × Walk × List Memslot
  | [] => (0, w, [])
  | src :: rest =>
    if src.endGfn < dest.baseGfn then
      match rest with
      | [] =>
        -- (13)
        if isValid then
          match memslotDup w.mem dest with
          | (none, m) => (-ENOMEM, { w with mem := m }, [src])
          | (some slot, m) => (0, { w with mem := m }, [src, slot])
        else (0, w, [src])
      | next :: rest => memslotLoop isValid dest { w with passed := src :: w.passed } (next :: rest)
    else
      match w.enqueue (dest.baseGfn < src.endGfn) src with
      | (ret, w) =>
        if ret ≠ 0 then (ret, w, src :: rest)
        else
          let w := if src.endGfn ≤ dest.endGfn then { w with processing := true } else w
          match memslotProcessStart isValid w dest src with
          | (ret, w, after) =>
            if ret ≠ 0 then (ret, w, after ++ rest)
            else if w.processing then
              memslotLoopFound isValid dest { w with passed := after.reverse ++ w.passed } rest
            else (0, w, after ++ rest)

/-- The pass over the slots: the error code, memory, the slots and the copies of
the overlapped ones. -/
def memslotPass (m : Mem) (isValid : Bool) (dest : Memslot) (list : List Memslot) :
    ℤ × Mem × List Memslot × List Memslot :=
  if list.isEmpty then
    if isValid then
      match memslotDup m dest with
      | (none, m) => (-ENOMEM, m, [], [])
      | (some slot, m) => (0, m, [slot], [])
    else (0, m, [], [])
  else
    match memslotLoop isValid dest ⟨m, [], [], false, false⟩ list with
    | (ret, w, after) =>
      if ret ≠ 0 then (ret, w.mem, w.passed.reverse ++ after, w.snapshot)
      else if w.toInsert then
        match memslotDup w.mem dest with
        | (none, m) => (-ENOMEM, m, w.passed.reverse ++ after, w.snapshot)
        | (some slot, m) => (0, m, w.passed.reverse ++ slot :: after, w.snapshot)
      else (0, w.mem, w.passed.reverse ++ after, w.snapshot)

end Haxm
