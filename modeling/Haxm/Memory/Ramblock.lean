/-
# RAM blocks

A RAM block is a range of user virtual addresses that guest memory may be
mapped to. It is divided into chunks of 2MB, each of which is pinned in host
RAM when it is first needed and stays pinned until the last memory slot that
refers to the block goes away. The blocks of a guest form a list that is meant
to be sorted by address.

Pointers to blocks are addresses; a block that was freed is no longer in the
list, and using its address afterwards is recorded as a fault. Memory for
bookkeeping comes from `hax_vmalloc`, whose size argument is 32 bits wide.
-/

import Haxm.Lib.Word
import Haxm.Memory.Host

namespace Haxm

open Lib

/-- `hax_ramblock`, with the sizes in bytes that its two buffers were allocated
with. -/
structure Ramblock where
  addr : ℕ
  baseUva : ℕ
  size : ℕ
  chunks : ℕ → Option Chunk
  chunksSize : ℕ
  chunksBitmap : ℕ → Bool
  chunksBitmapSize : ℕ
  refCount : ℕ
  isStandalone : Bool

/-- The part of the guest's memory bookkeeping that slot operations act on,
with the allocator's next refusal and the events so far. -/
structure Mem where
  ramblockList : List Ramblock
  /-- Which of the coming `hax_vmalloc` calls fails, if any. -/
  failing : Option ℕ
  /-- The address the next object gets. -/
  nextAddr : ℕ
  trace : List Event

namespace Mem

def log (m : Mem) (events : List Event) : Mem := { m with trace := m.trace ++ events }

def fault (m : Mem) (f : Fault) : Mem := m.log [.fault f]

/-- `hax_assert`. -/
def assert (m : Mem) (condition : Bool) : Mem := m.log (if condition then [] else [.fault .assert])

/-- An access to the first `n` bytes of a buffer of `size` bytes. -/
def access (m : Mem) (size n : ℕ) : Mem := m.log (if n ≤ size then [] else [.fault .overrun])

/-- `hax_vmalloc`: whether it returns memory. A request for nothing, also one
that is zero only after its truncation to 32 bits, returns none. -/
def vmalloc (m : Mem) (size : ℕ) : Bool × Mem :=
  if size % 2 ^ 32 = 0 then (false, m)
  else
    match m.failing with
    | none => (true, m)
    | some 0 => (false, { m with failing := none })
    | some (k + 1) => (true, { m with failing := some k })

/-- The block at an address. -/
def block? (m : Mem) (addr : ℕ) : Option Ramblock :=
  m.ramblockList.find? fun b => b.addr = addr

/-- Replace the block at an address. -/
def setBlock (m : Mem) (addr : ℕ) (f : Ramblock → Ramblock) : Mem :=
  { m with ramblockList := m.ramblockList.map fun b => if b.addr = addr then f b else b }

variable (m : Mem)

/-- Allocating changes nothing but the allocator. -/
theorem vmalloc_eq (size : ℕ) : ∃ ok f, m.vmalloc size = (ok, { m with failing := f }) ∧
    (m.failing = none → f = none) := by
  unfold vmalloc
  split_ifs
  · exact ⟨false, m.failing, rfl, id⟩
  · split
    · exact ⟨true, m.failing, rfl, id⟩
    · exact ⟨false, none, rfl, fun _ => rfl⟩
    · exact ⟨true, _, rfl, fun h => by simp_all⟩

end Mem

/-! ## Allocation -/

/-- `ramblock_count_chunks`. -/
def ramblockCountChunks (size : ℕ) : ℕ := (size - 1) / haxChunkSize + 1

/-- `ramblock_count_bitmap_size`. -/
def ramblockCountBitmapSize (nchunks : ℕ) : ℕ := (nchunks + 7) / 8 + 8

/-- `sizeof(hax_ramblock)`, `sizeof(hax_chunk *)` and `sizeof(hax_chunk)` on
64-bit Linux. -/
abbrev sizeofRamblock : ℕ := 56
abbrev sizeofChunkPointer : ℕ := 8
abbrev sizeofChunk : ℕ := 32

/-- The block that `ramblock_alloc` fills in. -/
def ramblockNew (addr baseUva size : ℕ) : Ramblock where
  addr := addr
  baseUva := baseUva
  size := size
  chunks _ := none
  chunksSize := ramblockCountChunks size * sizeofChunkPointer % 2 ^ 32
  chunksBitmap _ := false
  chunksBitmapSize := ramblockCountBitmapSize (ramblockCountChunks size) % 2 ^ 32
  refCount := 0
  isStandalone := false

/-- `ramblock_alloc`. -/
def ramblockAlloc (m : Mem) (baseUva size : ℕ) : Option Ramblock × Mem :=
  match m.vmalloc sizeofRamblock with
  | (false, m) => (none, m)
  | (true, m) =>
    let nchunks := ramblockCountChunks size
    match m.vmalloc (nchunks * sizeofChunkPointer) with
    | (false, m) => (none, m)
    | (true, m) =>
      -- the buffer has the truncated size, `memset` writes the full one
      let m := m.access (nchunks * sizeofChunkPointer % 2 ^ 32) (nchunks * sizeofChunkPointer)
      let bitmapSize := ramblockCountBitmapSize nchunks
      match m.vmalloc bitmapSize with
      | (false, m) => (none, m)
      | (true, m) =>
        let m := m.access (bitmapSize % 2 ^ 32) bitmapSize
        (some (ramblockNew m.nextAddr baseUva size), { m with nextAddr := m.nextAddr + 1 })

/-! ## The list -/

/-- `ramblock_find`, up to the reference it takes on the block it returns. The
end of each block is computed in 64 bits. -/
def ramblockFind (list : List Ramblock) (uva : ℕ) : Option Ramblock :=
  match list with
  | [] => none
  | b :: rest =>
    if uva < b.baseUva then none
    else if uva < add64 b.baseUva b.size then some b
    else ramblockFind rest uva

/-- The loop of `ramblock_add` that looks for the place of a new block; `none`
when it meets a block that the new one overlaps. -/
def ramblockInsert (block : Ramblock) : List Ramblock → Option (List Ramblock)
  | [] => some [block]
  | b :: rest =>
    if add64 block.baseUva block.size ≤ b.baseUva then some (block :: b :: rest)
    else if add64 b.baseUva b.size ≤ block.baseUva then
      match rest with
      | [] => some [b, block]
      | next :: rest => (ramblockInsert block (next :: rest)).map (b :: ·)
    else none

/-- `ramblock_add`: the error code and, on success, the address of the block. -/
def ramblockAdd (m : Mem) (baseUva size : ℕ) : ℤ × Option ℕ × Mem :=
  match ramblockAlloc m baseUva size with
  | (none, m) => (-ENOMEM, none, m)
  | (some block, m) =>
    match ramblockInsert block m.ramblockList with
    | none => (-EINVAL, none, m)
    | some list => (0, some block.addr, { m with ramblockList := list })

/-! ## Reference counting -/

/-- The chunks of a block that are pinned, in the order `ramblock_free_chunks`
frees them. -/
def Ramblock.pinned (b : Ramblock) : List Event :=
  (List.range (ramblockCountChunks b.size)).filterMap fun i =>
    (b.chunks i).map (Event.unpin b.addr i)

/-- `ramblock_free_chunks` on a block that is kept. -/
def ramblockFreeChunks (b : Ramblock) : Ramblock :=
  { b with
    chunks := fun i => if i < ramblockCountChunks b.size then none else b.chunks i
    chunksBitmap := fun i => if i < ramblockCountBitmapSize (ramblockCountChunks b.size) * 8
      then false else b.chunksBitmap i }

/-- `ramblock_ref`. -/
def ramblockRef (m : Mem) (block : Option ℕ) : Mem :=
  match block with
  | none => m
  | some addr =>
    match m.block? addr with
    | none => m.fault .useAfterFree
    | some _ => m.setBlock addr fun b => { b with refCount := b.refCount + 1 }

/-- `ramblock_remove`, after its chunks were freed. -/
def Mem.removeBlock (m : Mem) (addr : ℕ) : Mem :=
  { m with ramblockList := m.ramblockList.filter fun b => b.addr ≠ addr }

/-- `ramblock_deref`. -/
def ramblockDeref (m : Mem) (block : Option ℕ) : Mem :=
  match block with
  | none => m
  | some addr =>
    match m.block? addr with
    | none => m.fault .useAfterFree
    | some b =>
      if b.refCount = 0 then m.fault .unreferenced
      else if b.refCount = 1 then
        if b.isStandalone then (m.log b.pinned).removeBlock addr
        else (m.log b.pinned).setBlock addr fun b => { ramblockFreeChunks b with refCount := 0 }
      else m.setBlock addr fun b => { b with refCount := b.refCount - 1 }

/-- The "disposable" block of a stand-alone mapping: added, marked and referenced
once, as `memslot_set_mapping` does. -/
def ramblockAddStandalone (m : Mem) (baseUva size : ℕ) : ℤ × Option ℕ × Mem :=
  match ramblockAdd m baseUva size with
  | (ret, none, m) => (ret, none, m)
  | (ret, some addr, m) =>
    (ret, some addr,
      ramblockRef (m.setBlock addr fun b => { b with isStandalone := true }) (some addr))

/-! ## Chunks -/

/-- `chunk_alloc`. What `hax_pin_user_pages` answers is given: the descriptor of
the pinned pages, or nothing if it fails. -/
def chunkAlloc (m : Mem) (pin : Option ℕ) (baseUva size : ℕ) : ℤ × Option Chunk × Mem :=
  if baseUva % pageSize4K ≠ 0 then (-EINVAL, none, m)
  else if size % pageSize4K ≠ 0 then (-EINVAL, none, m)
  else
    match m.vmalloc sizeofChunk with
    | (false, m) => (-ENOMEM, none, m)
    | (true, m) =>
      match pin with
      | none => (-ENOMEM, none, m)
      | some memdesc => (0, some { memdesc := memdesc, baseUva := baseUva, size := size }, m)

/-- The chunk pointer at an index lies in the chunk array, and the 64-bit word
of the bitmap that holds its bit lies in the bitmap. -/
def Ramblock.accessible (b : Ramblock) (index : ℕ) : Bool :=
  (index + 1) * sizeofChunkPointer ≤ b.chunksSize &&
    index < 2 ^ 31 && (index / 64 + 1) * 8 ≤ b.chunksBitmapSize

/-- The size of the chunk at an index; the last one may be smaller. -/
def ramblockChunkSize (size index : ℕ) : ℕ :=
  if size < shl64 (index + 1) haxChunkShift then size % haxChunkSize else haxChunkSize

/-- Enter a chunk into the block and set its bit. -/
def Ramblock.setChunk (b : Ramblock) (index : ℕ) (chunk : Chunk) : Ramblock :=
  { b with
    chunks := Function.update b.chunks index (some chunk)
    chunksBitmap := Function.update b.chunksBitmap index true }

/-- `ramblock_get_chunk` with `alloc` set, run by one thread. A set bit with no
chunk behind it can then only be waited for in vain. -/
def ramblockGetChunk (m : Mem) (pin : Option ℕ) (addr uvaOffset : ℕ) : Option Chunk × Mem :=
  match m.block? addr with
  | none => (none, m.fault .useAfterFree)
  | some b =>
    if b.size ≤ uvaOffset then (none, m)
    else
      let index := uvaOffset / haxChunkSize
      let m := if b.accessible index then m else m.fault .overrun
      if b.chunksBitmap index then (b.chunks index, m)
      else
        let m := m.assert (b.chunks index).isNone
        match chunkAlloc m pin (add64 b.baseUva (shl64 index haxChunkShift))
            (ramblockChunkSize b.size index) with
        | (_, none, m) => (none, m)
        | (_, some chunk, m) => (some chunk, m.setBlock addr fun b => b.setChunk index chunk)

theorem chunkAlloc_spec (m : Mem) (pin : Option ℕ) (baseUva size : ℕ) :
    ∃ ret r f, chunkAlloc m pin baseUva size = (ret, r, { m with failing := f }) ∧
      ∀ c, r = some c → baseUva % pageSize4K = 0 ∧ size % pageSize4K = 0 ∧
        ∃ memdesc, pin = some memdesc ∧ c = ⟨memdesc, baseUva, size⟩ := by
  unfold chunkAlloc
  split_ifs with base whole
  · exact ⟨_, none, m.failing, rfl, nofun⟩
  · exact ⟨_, none, m.failing, rfl, nofun⟩
  · obtain ⟨ok, f, hm, -⟩ := m.vmalloc_eq sizeofChunk
    rw [hm]
    cases ok with
    | false => exact ⟨_, none, f, rfl, nofun⟩
    | true =>
      cases pin with
      | none => exact ⟨_, none, f, rfl, nofun⟩
      | some memdesc =>
        refine ⟨_, _, f, rfl, ?_⟩
        rintro c ⟨⟩
        exact ⟨not_not.1 base, not_not.1 whole, memdesc, rfl, rfl⟩

/-- Bounds and assertions may have been violated, and nothing else has happened. -/
def Mem.Complained (m m' : Mem) : Prop :=
  ∃ f events, (∀ e ∈ events, e = .fault .overrun ∨ e = .fault .assert) ∧
    m' = { m with failing := f, trace := m.trace ++ events }

/-- How `ramblock_get_chunk` ends: without a chunk, with one that is there, or with one that it
has entered. -/
inductive GotChunk (m : Mem) (pin : Option ℕ) (a offset : ℕ) (b : Ramblock) (r : Option Chunk)
    (m' : Mem) : Prop
  | refused (nothing : r = none) (rest : m.Complained m')
  | found (below : offset < b.size) (there : r = b.chunks (offset / haxChunkSize))
      (rest : m.Complained m')
  | pinned {memdesc : ℕ} {c : Chunk} {m₁ : Mem} (below : offset < b.size)
      (clear : b.chunksBitmap (offset / haxChunkSize) = false) (pins : pin = some memdesc)
      (chunk : c = ⟨memdesc, add64 b.baseUva (shl64 (offset / haxChunkSize) haxChunkShift),
        ramblockChunkSize b.size (offset / haxChunkSize)⟩)
      (aligned : c.baseUva % pageSize4K = 0 ∧ c.size % pageSize4K = 0) (result : r = some c)
      (rest : m.Complained m₁)
      (entered : m' = m₁.setBlock a fun b => b.setChunk (offset / haxChunkSize) c)

theorem ramblockGetChunk_got {m m' : Mem} {pin : Option ℕ} {a offset : ℕ} {b : Ramblock}
    {r : Option Chunk} (hb : m.block? a = some b)
    (h : ramblockGetChunk m pin a offset = (r, m')) : GotChunk m pin a offset b r m' := by
  rw [ramblockGetChunk, hb] at h
  dsimp only at h
  by_cases below : b.size ≤ offset
  · rw [if_pos below] at h
    cases h
    exact .refused rfl ⟨m.failing, [], nofun, by simp⟩
  rw [if_neg below] at h
  obtain ⟨events, h₁, only⟩ : ∃ events, (if b.accessible (offset / haxChunkSize) = true then m
      else m.fault .overrun) = m.log events ∧
        ∀ e ∈ events, e = .fault .overrun ∨ e = .fault .assert := by
    split_ifs
    · exact ⟨[], by simp [Mem.log], nofun⟩
    · exact ⟨[.fault .overrun], rfl, by simp⟩
  rw [h₁] at h
  by_cases bit : b.chunksBitmap (offset / haxChunkSize) = true
  · rw [if_pos bit] at h
    cases h
    exact .found (not_le.1 below) rfl ⟨m.failing, events, only, rfl⟩
  rw [if_neg bit] at h
  obtain ⟨ret, c, f, halloc, spec⟩ := chunkAlloc_spec
    ((m.log events).assert (b.chunks (offset / haxChunkSize)).isNone) pin
    (add64 b.baseUva (shl64 (offset / haxChunkSize) haxChunkShift))
    (ramblockChunkSize b.size (offset / haxChunkSize))
  have rest : m.Complained { (m.log events).assert (b.chunks (offset / haxChunkSize)).isNone with
      failing := f } := by
    refine ⟨f, events ++ if (b.chunks (offset / haxChunkSize)).isNone then [] else [.fault .assert],
      fun e he => ?_, by simp [Mem.assert, Mem.log, List.append_assoc]⟩
    rcases List.mem_append.1 he with he | he
    · exact only e he
    · split_ifs at he
      · cases he
      · exact .inr (List.mem_singleton.1 he)
  rw [halloc] at h
  cases c with
  | none =>
    cases h
    exact .refused rfl rest
  | some c =>
    cases h
    obtain ⟨base, whole, memdesc, pins, rfl⟩ := spec c rfl
    exact .pinned (not_le.1 below) (by simpa using bit) pins rfl ⟨base, whole⟩ rfl rest rfl

end Haxm
