/-
# The slots as a linked list

The slots of a guest are nodes of a circular doubly linked list. `memslot_set_mapping`
goes through it with an iterator that remembers the next node, and inserts, removes
and overwrites nodes on the way. The pass is repeated here with the nodes and their
links; what it does to blocks and to the copies in the snapshot is as before.

The functions on links are those of `hax_list.h`. The copies are in a list of their
own, which no other node is part of, and are kept by value.
-/

import Haxm.Lib.LinkedList
import Haxm.Memory.MapUpdate

namespace Haxm

open Lib

namespace SlotLinks

/-- The address of `memslot_list` in `hax_gpa_space`. -/
abbrev listHead : ℕ := 0

/-- The nodes that hold slots. -/
structure SlotHeap where
  links : Links
  slot : ℕ → Memslot
  /-- Nodes from here on were never allocated. -/
  nextNode : ℕ
  freed : List ℕ

/-- The state of the pass. -/
structure LinkWalk where
  mem : Mem
  heap : SlotHeap
  snapshot : List Memslot
  /-- `MEMSLOT_PROCESSING`. -/
  processing : Bool
  /-- `MEMSLOT_TO_INSERT`. -/
  toInsert : Bool

/-! ## Nodes -/

/-- A node is overwritten, but for its links. -/
def LinkWalk.modify (w : LinkWalk) (node : ℕ) (f : Memslot → Memslot) : LinkWalk :=
  { w with heap := { w.heap with
    slot := Function.update w.heap.slot node (f (w.heap.slot node)) } }

theorem LinkWalk.modify_slot (w : LinkWalk) (node : ℕ) (f : Memslot → Memslot) :
    (w.modify node f).heap.slot = Function.update w.heap.slot node (f (w.heap.slot node)) := rfl

/-- `memslot_dup`. -/
def memslotDup (w : LinkWalk) (slot : Memslot) : Option ℕ × LinkWalk :=
  match w.mem.vmalloc sizeofMemslot with
  | (false, m) => (none, { w with mem := m })
  | (true, m) =>
    let node := w.heap.nextNode
    (some node,
      { w with
        mem := ramblockRef m slot.block
        heap := { w.heap with
          links := w.heap.links.init node
          slot := Function.update w.heap.slot node slot
          nextNode := node + 1 } })

/-- `memslot_append_rest`. -/
def memslotAppendRest (w : LinkWalk) (dest : Memslot) (src : ℕ) : Option ℕ × LinkWalk :=
  memslotDup w (memslotRest dest (w.heap.slot src))

/-- `memslot_insert_before`. -/
def memslotInsertBefore (w : LinkWalk) (dest src : ℕ) : LinkWalk :=
  { w with heap := { w.heap with links := w.heap.links.insertBefore dest src } }

/-- `memslot_insert_after`. -/
def memslotInsertAfter (w : LinkWalk) (dest src : ℕ) : LinkWalk :=
  { w with heap := { w.heap with links := w.heap.links.insertAfter dest src } }

/-- `memslot_delete`. -/
def memslotDelete (w : LinkWalk) (dest : ℕ) : LinkWalk :=
  { w with
    mem := ramblockDeref w.mem (w.heap.slot dest).block
    heap := { w.heap with links := w.heap.links.del dest, freed := dest :: w.heap.freed } }

/-- `memslot_move` into a node. The links are written back as they were. -/
def memslotMove (w : LinkWalk) (dest : ℕ) (src : Memslot) : LinkWalk :=
  { w.modify dest fun _ => src with
    mem := ramblockRef (ramblockDeref w.mem (w.heap.slot dest).block) src.block }

/-! ## The first slot of the range -/

/-- `memslot_process_start_diff_type`. -/
def memslotProcessStartDiffType (w : LinkWalk) (dest : Memslot) (src : ℕ) : ℤ × LinkWalk :=
  let s := w.heap.slot src
  if dest.endGfn ≤ s.baseGfn then
    -- (1)(2)
    match memslotDup w dest with
    | (none, w) => (-ENOMEM, w)
    | (some new, w) => (0, memslotInsertBefore w new src)
  else if dest.baseGfn ≤ s.baseGfn then
    if dest.endGfn < s.endGfn then
      -- (3)(6)
      match memslotDup w dest with
      | (none, w) => (-ENOMEM, w)
      | (some new, w) => (0, (memslotInsertBefore w new src).modify src (memslotOverlapFront dest))
    else
      -- (4)(5)(7)(8)
      (0, w.modify src fun s => { memslotUnion dest s with flags := dest.flags })
  else
    let w := if s.endGfn ≤ dest.endGfn then { w with toInsert := true } else w
    if dest.baseGfn < s.endGfn then
      if dest.endGfn < s.endGfn then
        -- (9)
        match memslotDup w dest with
        | (none, w) => (-ENOMEM, w)
        | (some new, w) =>
          let w := memslotInsertAfter w new src
          match memslotAppendRest w dest src with
          | (none, w) => (-ENOMEM, w)
          | (some rest, w) =>
            (0, (memslotInsertAfter w rest new).modify src (memslotOverlapRear dest))
      else
        -- (10)(11)
        (0, w.modify src (memslotOverlapRear dest))
    else
      -- (12)
      (0, w)

/-- `memslot_process_start_same_type`. -/
def memslotProcessStartSameType (w : LinkWalk) (dest : Memslot) (src : ℕ) : ℤ × LinkWalk :=
  let s := w.heap.slot src
  if dest.endGfn < s.baseGfn then
    -- (1)
    match memslotDup w dest with
    | (none, w) => (-ENOMEM, w)
    | (some new, w) => (0, memslotInsertBefore w new src)
  else if s.baseGfn ≤ dest.baseGfn ∧ dest.endGfn ≤ s.endGfn then
    -- (6)(7)(9)(10)
    (0, w)
  else
    -- (2)(3)(4)(5)(8)(11)(12)
    (0, w.modify src (memslotUnion dest))

/-- `memslot_process_start_invalid`. -/
def memslotProcessStartInvalid (w : LinkWalk) (dest : Memslot) (src : ℕ) : ℤ × LinkWalk :=
  let s := w.heap.slot src
  if dest.endGfn ≤ s.baseGfn ∨ dest.baseGfn = s.endGfn then
    -- (1)(2)(12)
    (0, w)
  else if dest.baseGfn ≤ s.baseGfn then
    if dest.endGfn < s.endGfn then
      -- (3)(6)
      (0, w.modify src (memslotOverlapFront dest))
    else
      -- (4)(5)(7)(8)
      (0, memslotDelete w src)
  else if dest.endGfn < s.endGfn then
    -- (9)
    match memslotAppendRest w dest src with
    | (none, w) => (-ENOMEM, w)
    | (some rest, w) => (0, (memslotInsertAfter w rest src).modify src (memslotOverlapRear dest))
  else
    -- (10)(11)
    (0, w.modify src (memslotOverlapRear dest))

/-- The table `memslot_process_start`. -/
def memslotProcessStart (isValid : Bool) (w : LinkWalk) (dest : Memslot) (src : ℕ) : ℤ × LinkWalk :=
  if isValid then
    if memslotIsSameType dest (w.heap.slot src) then memslotProcessStartSameType w dest src
    else memslotProcessStartDiffType w dest src
  else memslotProcessStartInvalid w dest src

/-! ## The last slot of the range -/

/-- `memslot_process_end_diff_type`. -/
def memslotProcessEndDiffType (w : LinkWalk) (dest : Memslot) (src : ℕ) : ℤ × LinkWalk :=
  let s := w.heap.slot src
  if dest.endGfn < s.endGfn then
    -- [1][2]
    let w := if s.baseGfn < dest.endGfn then w.modify src (memslotOverlapFront dest) else w
    if w.toInsert then
      match memslotDup w dest with
      | (none, w) => (-ENOMEM, w)
      | (some new, w) => (0, memslotInsertBefore w new src)
    else (0, w)
  else if w.toInsert then
    -- [3]
    (0, memslotMove w src dest)
  else (0, memslotDelete w src)

/-- `memslot_process_end_same_type`. The head is not part of a slot. -/
def memslotProcessEndSameType (w : LinkWalk) (dest : Memslot) (src : ℕ) : ℤ × LinkWalk :=
  if dest.endGfn = (w.heap.slot src).endGfn ∧ w.toInsert = false then
    -- [3], existed
    (0, memslotDelete w src)
  else
    let prev := w.heap.links.prev src
    if prev = listHead then (0, { w with mem := w.mem.fault .overrun })
    else
      let w := w.modify src
        (memslotUnion (if memslotIsSameType dest (w.heap.slot prev) then w.heap.slot prev
          else dest))
      if w.toInsert then (0, w) else (0, memslotDelete w prev)

/-- `memslot_process_end_invalid`. -/
def memslotProcessEndInvalid (w : LinkWalk) (dest : Memslot) (src : ℕ) : ℤ × LinkWalk :=
  let s := w.heap.slot src
  if dest.endGfn = s.baseGfn then
    -- [1]
    (0, w)
  else if dest.endGfn < s.endGfn then
    -- [2]
    (0, w.modify src (memslotOverlapFront dest))
  else
    -- [3]
    (0, memslotDelete w src)

/-- The table `memslot_process_end`. -/
def memslotProcessEnd (isValid : Bool) (w : LinkWalk) (dest : Memslot) (src : ℕ) : ℤ × LinkWalk :=
  if isValid then
    if memslotIsSameType dest (w.heap.slot src) then memslotProcessEndSameType w dest src
    else memslotProcessEndDiffType w dest src
  else memslotProcessEndInvalid w dest src

/-- `memslot_is_inner`. -/
def memslotIsInner (heap : SlotHeap) (dest : Memslot) (src : ℕ) : Bool :=
  let s := heap.slot src
  let next := heap.links.next src
  s.endGfn < dest.endGfn ||
    (dest.endGfn = s.endGfn && (next ≠ listHead && (dest.endGfn = (heap.slot next).baseGfn &&
      memslotIsSameType dest (heap.slot next))))

/-! ## The pass -/

/-- `memslot_list_enqueue` on the snapshot, if the slot overlaps the range. -/
def LinkWalk.enqueue (w : LinkWalk) (overlaps : Bool) (src : Memslot) : ℤ × LinkWalk :=
  if overlaps then
    match Haxm.memslotDup w.mem src with
    | (none, m) => (-ENOMEM, { w with mem := m })
    | (some slot, m) => (0, { w with mem := m, snapshot := w.snapshot ++ [slot] })
  else (0, w)

/-- The loop of `memslot_set_mapping` from the node `src` on, with the next node `m`; also
the node at which it stops. `fuel` bounds the number of nodes. -/
def memslotLoop (isValid : Bool) (dest : Memslot) :
    (fuel : ℕ) → (isFound : Bool) → LinkWalk → (src m : ℕ) → ℤ × LinkWalk × ℕ
  | 0, _, w, src, _ => (0, w, src)
  | fuel + 1, isFound, w, src, m =>
    if src = listHead then (0, w, src)
    else
      let s := w.heap.slot src
      if isFound = false then
        if s.endGfn < dest.baseGfn then
          if w.heap.links.next src ≠ listHead then
            memslotLoop isValid dest fuel false w m (w.heap.links.next m)
          else if isValid then
            -- (13)
            match memslotDup w dest with
            | (none, w) => (-ENOMEM, w, src)
            | (some new, w) => (0, memslotInsertAfter w new src, src)
          else (0, w, src)
        else
          match w.enqueue (dest.baseGfn < s.endGfn) s with
          | (ret, w) =>
            if ret ≠ 0 then (ret, w, src)
            else
              let w := if s.endGfn ≤ dest.endGfn then { w with processing := true } else w
              match memslotProcessStart isValid w dest src with
              | (ret, w) =>
                if ret ≠ 0 then (ret, w, src)
                else if w.processing then
                  memslotLoop isValid dest fuel true w m (w.heap.links.next m)
                else (0, w, src)
      else if dest.endGfn < s.baseGfn then (0, w, src)
      else
        match w.enqueue (s.baseGfn < dest.endGfn) s with
        | (ret, w) =>
          if ret ≠ 0 then (ret, w, src)
          else if memslotIsInner w.heap dest src then
            let w := memslotDelete w src
            memslotLoop isValid dest fuel true w m (w.heap.links.next m)
          else
            match memslotProcessEnd isValid w dest src with
            | (ret, w) =>
              if ret ≠ 0 then (ret, w, src)
              else (0, { w with processing := false, toInsert := false }, src)

/-- The part of `memslot_set_mapping` that works on the list: the error code, memory, the
nodes and the copies of the overlapped slots. -/
def memslotPass (m : Mem) (isValid : Bool) (dest : Memslot) (heap : SlotHeap) :
    ℤ × Mem × SlotHeap × List Memslot :=
  let w : LinkWalk := ⟨m, heap, [], false, false⟩
  if heap.links.isEmpty listHead then
    if isValid then
      match memslotDup w dest with
      | (none, w) => (-ENOMEM, w.mem, w.heap, [])
      | (some new, w) =>
        -- `memslot_insert_head`
        (0, w.mem, (memslotInsertAfter w new listHead).heap, [])
    else (0, m, heap, [])
  else
    let first := heap.links.next listHead
    match memslotLoop isValid dest heap.nextNode false w first (heap.links.next first) with
    | (ret, w, src) =>
      if ret ≠ 0 then (ret, w.mem, w.heap, w.snapshot)
      else if w.toInsert then
        match memslotDup w dest with
        | (none, w) => (-ENOMEM, w.mem, w.heap, w.snapshot)
        | (some new, w) => (0, w.mem, (memslotInsertBefore w new src).heap, w.snapshot)
      else (0, w.mem, w.heap, w.snapshot)

/-! ## The guest physical address space -/

/-- The nodes of the list, from the head on. -/
def SlotHeap.nodes (heap : SlotHeap) : List ℕ :=
  heap.links.nodesFrom listHead heap.nextNode (heap.links.next listHead)

def SlotHeap.slots (heap : SlotHeap) : List Memslot := heap.nodes.map heap.slot

/-- No node was allocated yet but for the head, which `memslot_init_list` set up. -/
def SlotHeap.empty : SlotHeap where
  links := (⟨id, id⟩ : Links).init listHead
  slot := fun _ => ⟨0, 0, none, 0, 0⟩
  nextNode := 1
  freed := []

/-- `hax_gpa_space`, with its list of slots. -/
structure LinkedSpace (σ : Type*) where
  mem : Mem
  heap : SlotHeap
  listenerList : List (Listener σ)
  prot : GpaProt
  env : σ

variable {σ : Type*}

/-- What a space is apart from the nodes. -/
def LinkedSpace.space (sp : LinkedSpace σ) : GpaSpace σ where
  mem := sp.mem
  memslotList := sp.heap.slots
  listenerList := sp.listenerList
  prot := sp.prot
  env := sp.env

/-- A space with given nodes. -/
def LinkedSpace.ofSpace (heap : SlotHeap) (sp : GpaSpace σ) : LinkedSpace σ where
  mem := sp.mem
  heap := heap
  listenerList := sp.listenerList
  prot := sp.prot
  env := sp.env

def LinkedSpace.init (listeners : List (Listener σ)) (env : σ) : LinkedSpace σ :=
  .ofSpace .empty (GpaSpace.init none listeners env)

/-- `memslot_set_mapping`. The listeners do not use the list. -/
def memslotSetMapping (sp : LinkedSpace σ) (startGfn npages uva flags : ℕ) : ℤ × LinkedSpace σ :=
  if npages = 0 then (-EINVAL, sp)
  else
    match memslotBlock sp.mem npages uva flags with
    | (ret, block, m) =>
      if ret ≠ 0 then (ret, { sp with mem := m })
      else
        let isValid := memslotIsValid flags
        let mapping : MemslotMapping :=
          { startGfn := startGfn, npages := npages, newUva := uva, newFlags := flags }
        let dest := memslotDest m block startGfn npages uva flags
        match memslotPass m isValid dest sp.heap with
        | (ret, m, heap, snapshot) =>
          let notify := ret = 0 ∧ (¬ sp.heap.links.isEmpty listHead ∨ isValid)
          let told : GpaSpace σ := { sp.space with mem := m, memslotList := heap.slots }
          match if notify then mappingBroadcast told mapping dest snapshot
            else (told, snapshot) with
          | (told, snapshot) =>
            (ret, .ofSpace heap
              { told with mem := memslotListClear (ramblockDeref told.mem block) snapshot })

/-- The loop of `memslot_find`. -/
def memslotFindFrom (heap : SlotHeap) (gfn : ℕ) : (fuel memslot : ℕ) → Option ℕ
  | 0, _ => none
  | fuel + 1, memslot =>
    if memslot = listHead then none
    else if (heap.slot memslot).baseGfn > gfn then none
    else if gfn < (heap.slot memslot).endGfn then some memslot
    else memslotFindFrom heap gfn fuel (heap.links.next memslot)

/-- `memslot_find`. -/
def memslotFind (heap : SlotHeap) (gfn : ℕ) : Option ℕ :=
  memslotFindFrom heap gfn heap.nextNode (heap.links.next listHead)

/-- A request on a space with its nodes. -/
def linkStep (sp : LinkedSpace σ) : SlotInput → LinkedSpace σ
  | .addRamblock startUva size => .ofSpace sp.heap (handleAllocRam sp.space startUva size).2
  | .setMapping startGfn npages uva flags => (memslotSetMapping sp startGfn npages uva flags).2

end SlotLinks

end Haxm
