/-
# Mapping and unmapping guest memory

`memslot_set_mapping` finds or creates the RAM block of the request, passes over
the slots, and tells the listeners of the guest physical address space what
became of the slots that the range overlapped. It works on copies of those
slots; the copies keep the blocks of the old slots alive until each listener has
been told.

A listener acts on data of its own and may cause events; here, all listeners of
a space share one such state.
-/

import Haxm.Memory.Memslot

namespace Haxm

open Lib

/-- `hax_gpa_prot`. The bitmap is given byte by byte. -/
structure GpaProt where
  bitmap : ℕ → BitVec 8
  endGfn : ℕ

/-- `hax_gpa_space_listener`. A callback that is not set is `none`. -/
structure Listener (σ : Type*) where
  mappingAdded : Option (σ → (startGfn npages uva flags : ℕ) → σ × List Event)
  mappingRemoved : Option (σ → (startGfn npages uva flags : ℕ) → σ × List Event)
  mappingChanged : Option
    (σ → (startGfn npages oldUva oldFlags newUva newFlags : ℕ) → σ × List Event)

/-- `hax_gpa_space`, with the state of its listeners. -/
structure GpaSpace (σ : Type*) where
  mem : Mem
  memslotList : List Memslot
  listenerList : List (Listener σ)
  prot : GpaProt
  env : σ

/-- `enum callback`; the number 0 stands for no callback. -/
inductive Callback
  | none
  | mappingAdded
  | mappingRemoved
  | mappingChanged
  deriving DecidableEq, Repr

/-- `memslot_mapping`. -/
structure MemslotMapping where
  callback : Callback := .none
  startGfn : ℕ := 0
  npages : ℕ := 0
  oldUva : ℕ := 0
  oldFlags : ℕ := 0
  newUva : ℕ := 0
  newFlags : ℕ := 0
  deriving DecidableEq, Repr

variable {σ : Type*}

/-! ## Telling the listeners -/

/-- A callback runs and its events are recorded. -/
def GpaSpace.call (sp : GpaSpace σ) (callback : Option (σ → σ × List Event)) : GpaSpace σ :=
  match callback with
  | none => sp
  | some f => { sp with env := (f sp.env).1, mem := sp.mem.log (f sp.env).2 }

/-- One round of `mapping_notify_listeners`. Callbacks take 8-bit flags. -/
def notifyListener (hole slot : Option MemslotMapping) (sp : GpaSpace σ) (listener : Listener σ) :
    GpaSpace σ :=
  let sp :=
    match hole with
    | some h =>
      if h.callback = .mappingAdded then
        sp.call (listener.mappingAdded.map fun f env =>
          f env h.startGfn h.npages h.newUva (h.newFlags % 256))
      else sp
    | none => sp
  match slot with
  | none => sp
  | some s =>
    match s.callback with
    | .mappingRemoved =>
      sp.call (listener.mappingRemoved.map fun f env =>
        f env s.startGfn s.npages s.oldUva (s.oldFlags % 256))
    | .mappingChanged =>
      sp.call (listener.mappingChanged.map fun f env =>
        f env s.startGfn s.npages s.oldUva (s.oldFlags % 256) s.newUva (s.newFlags % 256))
    | _ => sp

/-- `mapping_notify_listeners`. -/
def mappingNotifyListeners (sp : GpaSpace σ) (hole slot : Option MemslotMapping) : GpaSpace σ :=
  sp.listenerList.foldl (notifyListener hole slot) sp

/-- `mapping_intersect`: what becomes of `src`. -/
def mappingIntersect (dest src : MemslotMapping) : MemslotMapping :=
  { src with
    npages := min (src.startGfn + src.npages) (dest.startGfn + dest.npages) -
      max src.startGfn dest.startGfn
    startGfn := max src.startGfn dest.startGfn }

/-- `mapping_is_changed`. -/
def mappingIsChanged (dest src : Memslot) (isValid isTerminal : Bool) : Bool :=
  ((isValid && !memslotIsSameType dest src) || !isValid) &&
    ((isTerminal && (src.baseGfn < dest.endGfn && dest.baseGfn < src.endGfn)) || !isTerminal)

/-- The part of `mapping_calc_change` about the hole in front of `src`. -/
def mappingCalcHole (mapping : MemslotMapping) (src : Memslot) (isValid isTerminal : Bool)
    (hole : MemslotMapping) : MemslotMapping :=
  if isValid && hole.startGfn < src.baseGfn then
    let hole :=
      { hole with
        callback := .mappingAdded
        npages := src.baseGfn - hole.startGfn
        newUva := mapping.newUva
        newFlags := mapping.newFlags }
    if isTerminal then mappingIntersect mapping hole else hole
  else { hole with callback := .none }

/-- The part of `mapping_calc_change` about `src` itself, whose block starts at
`baseUva`. -/
def mappingCalcSlot (mapping : MemslotMapping) (src : Memslot) (baseUva : ℕ)
    (isValid isTerminal isChanged : Bool) : MemslotMapping :=
  if isChanged then
    let slot : MemslotMapping :=
      { callback := if isValid then .mappingChanged else .mappingRemoved
        startGfn := src.baseGfn
        npages := src.npages
        oldUva := add64 (add64 baseUva src.offsetWithinBlock)
          (if src.baseGfn < mapping.startGfn
            then shl64 (mapping.startGfn - src.baseGfn) pgOrder4K else 0)
        oldFlags := src.flags
        newUva := if isValid then
            add64 mapping.newUva (if mapping.startGfn < src.baseGfn
              then shl64 (src.baseGfn - mapping.startGfn) pgOrder4K else 0)
          else 0
        newFlags := if isValid then mapping.newFlags else 0 }
    if isTerminal then mappingIntersect mapping slot else slot
  else { callback := .none }

/-- Where the block behind a pointer starts. -/
def Mem.baseUva (m : Mem) (block : Option ℕ) : ℕ :=
  match block.bind m.block? with
  | some b => b.baseUva
  | none => 0

/-- Reading through a pointer to a block. -/
def Mem.touch (m : Mem) (block : Option ℕ) : Mem :=
  match block.bind m.block? with
  | some _ => m
  | none => m.fault .useAfterFree

/-- The loop of `mapping_broadcast` over the copied slots, each of which is
deleted after the listeners were told. -/
def mappingBroadcastLoop (mapping : MemslotMapping) (dest : Memslot) (isValid : Bool)
    (sp : GpaSpace σ) (hole : MemslotMapping) (isFirst : Bool) :
    List Memslot → GpaSpace σ × MemslotMapping
  | [] => (sp, hole)
  | src :: rest =>
    let isTerminal := isFirst || rest.isEmpty
    let isChanged := mappingIsChanged dest src isValid isTerminal
    let sp := if isChanged then { sp with mem := sp.mem.touch src.block } else sp
    let hole := mappingCalcHole mapping src isValid isTerminal hole
    let slot := mappingCalcSlot mapping src (sp.mem.baseUva src.block) isValid isTerminal isChanged
    let sp := mappingNotifyListeners sp (some hole) (some slot)
    mappingBroadcastLoop mapping dest isValid
      { sp with mem := ramblockDeref sp.mem src.block } { hole with startGfn := src.endGfn }
      false rest

/-- `mapping_broadcast`, with the copies that are left behind. -/
def mappingBroadcast (sp : GpaSpace σ) (mapping : MemslotMapping) (dest : Memslot)
    (snapshot : List Memslot) : GpaSpace σ × List Memslot :=
  if sp.listenerList.isEmpty then (sp, snapshot)
  else if snapshot.isEmpty then
    (mappingNotifyListeners sp (some { mapping with callback := .mappingAdded }) none, [])
  else
    let isValid := memslotIsValid mapping.newFlags
    match mappingBroadcastLoop mapping dest isValid sp { startGfn := mapping.startGfn } true
        snapshot with
    | (sp, hole) =>
      if isValid && hole.startGfn < mapping.startGfn + mapping.npages then
        let hole :=
          { hole with
            callback := .mappingAdded
            npages := mapping.startGfn + mapping.npages - hole.startGfn
            newUva := add64 mapping.newUva (shl64 (hole.startGfn - mapping.startGfn) pgOrder4K)
            newFlags := mapping.newFlags }
        (mappingNotifyListeners sp (some hole) none, [])
      else (sp, [])

/-! ## The request -/

/-- The block a request refers to, with a reference to it; an invalid request
has none. -/
def memslotBlock (m : Mem) (npages uva flags : ℕ) : ℤ × Option ℕ × Mem :=
  if memslotIsValid flags then
    if flags &&& haxMemslotStandalone ≠ 0 then
      match ramblockAddStandalone m uva (shl64 npages pgOrder4K) with
      | (ret, none, m) => (if ret < 0 then ret else -EINVAL, none, m)
      | (ret, some addr, m) => (ret, some addr, m)
    else
      match ramblockFind m.ramblockList uva with
      | none => (-EINVAL, none, m)
      | some b => (0, some b.addr, ramblockRef m (some b.addr))
  else (0, none, m)

/-- The slot a request asks for. -/
def memslotDest (m : Mem) (block : Option ℕ) (startGfn npages uva flags : ℕ) : Memslot where
  baseGfn := startGfn
  npages := npages
  block := block
  offsetWithinBlock := if block.isSome then sub64 uva (m.baseUva block) else 0
  flags := flags

/-- `memslot_list_clear`. -/
def memslotListClear (m : Mem) (slots : List Memslot) : Mem :=
  slots.foldl (fun m s => ramblockDeref m s.block) m

/-- `memslot_set_mapping`. -/
def memslotSetMapping (sp : GpaSpace σ) (startGfn npages uva flags : ℕ) : ℤ × GpaSpace σ :=
  if npages = 0 then (-EINVAL, sp)
  else
    match memslotBlock sp.mem npages uva flags with
    | (ret, block, m) =>
      if ret ≠ 0 then (ret, { sp with mem := m })
      else
        let isValid := memslotIsValid flags
        let mapping : MemslotMapping :=
          { startGfn := startGfn, npages := npages, newUva := uva, newFlags := flags }
        let dest := memslotDest m block startGfn npages uva flags
        match memslotPass m isValid dest sp.memslotList with
        | (ret, m, list, snapshot) =>
          let notify := ret = 0 ∧ (sp.memslotList ≠ [] ∨ isValid)
          let sp := { sp with mem := m, memslotList := list }
          match if notify then mappingBroadcast sp mapping dest snapshot else (sp, snapshot) with
          | (sp, snapshot) =>
            (ret, { sp with mem := memslotListClear (ramblockDeref sp.mem block) snapshot })

end Haxm
