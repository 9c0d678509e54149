/-
# Room for the bookkeeping of a RAM block

`ramblock_alloc` allocates one pointer and one bit for each chunk of the new
block. The size of the pointer array is computed in 64 bits and truncated to 32
bits by `hax_vmalloc`. Up to `2 ^ 29 - 1` chunks the array is large enough and
every access to it and to the bitmap stays inside; with more chunks the array
is too small whenever the allocation succeeds, and already the `memset` of
`ramblock_alloc` writes outside of it.
-/

import Haxm.Memory.RefCount

namespace Haxm

open Lib

variable {m : Mem} {failing : Option ℕ} {baseUva size : ℕ}

theorem ramblockRef_nextAddr (m : Mem) (block : Option ℕ) :
    (ramblockRef m block).nextAddr = m.nextAddr := by
  unfold ramblockRef
  split
  · rfl
  · split <;> rfl

theorem ramblockDeref_nextAddr (m : Mem) (block : Option ℕ) :
    (ramblockDeref m block).nextAddr = m.nextAddr := by
  unfold ramblockDeref
  split
  · rfl
  · split
    · rfl
    · split_ifs <;> rfl

theorem ramblockAddStandalone_distinct (distinct : m.Distinct) (baseUva size : ℕ) :
    (ramblockAddStandalone m baseUva size).2.2.Distinct := by
  have added := Mem.ramblockAdd_distinct distinct baseUva size
  unfold ramblockAddStandalone
  split
  · rwa [‹ramblockAdd m baseUva size = _›] at added
  · rw [‹ramblockAdd m baseUva size = _›] at added
    refine Mem.Distinct.of_refines ?_ (ramblockRef_refines _ _) (ramblockRef_nextAddr _ _).ge
    exact added.of_refines (refines_setBlock _ _ (by simp)) le_rfl

/-- Whatever is added, referenced and released, addresses stay distinct. -/
theorem ramblockReached_distinct
    (reached : Reached (Mem.init failing) (fun _ _ => True) ramblockStep m) : m.Distinct := by
  refine reached.invariant ⟨by simp [Mem.init], by simp [Mem.init]⟩ fun m input distinct _ => ?_
  cases input with
  | add baseUva size => exact Mem.ramblockAdd_distinct distinct baseUva size
  | addStandalone baseUva size => exact ramblockAddStandalone_distinct distinct baseUva size
  | ref addr =>
    exact distinct.of_refines (ramblockRef_refines m _) (ramblockRef_nextAddr m _).ge
  | deref addr =>
    exact distinct.of_refines (ramblockDeref_refines m _) (ramblockDeref_nextAddr m _).ge

/-- The new block has room for its chunks: nothing was written outside the two
buffers when they were cleared, they are large enough, and a chunk can be looked
up at every offset in the block without leaving them. -/
structure RamblockRoomy (m : Mem) (baseUva size : ℕ) : Prop where
  cleared : (ramblockAdd m baseUva size).2.2.trace = m.trace
  room : ∃ b, (ramblockAdd m baseUva size).2.2.block? m.nextAddr = some b ∧
    ramblockCountChunks size * sizeofChunkPointer ≤ b.chunksSize ∧
    (ramblockCountChunks size + 7) / 8 ≤ b.chunksBitmapSize ∧
    ∀ uvaOffset < size, b.accessible (uvaOffset / haxChunkSize) = true ∧
      ∀ pin, (ramblockGetChunk (ramblockAdd m baseUva size).2.2 pin b.addr uvaOffset).2.trace =
        (ramblockAdd m baseUva size).2.2.trace

theorem overrunOf_eq_nil {bytes : ℕ} (h : bytes < 2 ^ 32) : overrunOf bytes = [] := by
  unfold overrunOf
  rw [Nat.mod_eq_of_lt h, if_pos le_rfl]

/-- Both buffer sizes survive their truncation. -/
theorem ramblock_sizes_lt (fits : ramblockCountChunks size < 2 ^ 29) :
    ramblockCountChunks size * sizeofChunkPointer < 2 ^ 32 ∧
      ramblockCountBitmapSize (ramblockCountChunks size) < 2 ^ 32 := by
  simp only [sizeofChunkPointer, ramblockCountBitmapSize]
  omega

theorem ramblockOverruns_eq_nil (fits : ramblockCountChunks size < 2 ^ 29) :
    ramblockOverruns size = [] := by
  have hsizes := ramblock_sizes_lt fits
  rw [ramblockOverruns, overrunOf_eq_nil hsizes.1, overrunOf_eq_nil hsizes.2, List.append_nil]

theorem div_lt_ramblockCountChunks {uvaOffset : ℕ} (h : uvaOffset < size) :
    uvaOffset / haxChunkSize < ramblockCountChunks size :=
  Nat.lt_succ_of_le (Nat.div_le_div_right (by omega))

theorem ramblockNew_accessible {index : ℕ} (addr baseUva : ℕ)
    (fits : ramblockCountChunks size < 2 ^ 29) (h : index < ramblockCountChunks size) :
    (ramblockNew addr baseUva size).accessible index := by
  obtain ⟨hchunks, hbitmap⟩ := ramblock_sizes_lt fits
  simp only [Ramblock.accessible, ramblockNew, Nat.mod_eq_of_lt hchunks, Nat.mod_eq_of_lt hbitmap,
    Bool.and_eq_true, decide_eq_true_eq]
  simp only [sizeofChunkPointer, ramblockCountBitmapSize]
  omega

/-- Looking up a chunk that is not there yet, where it may be, causes no event. -/
theorem ramblockGetChunk_trace {addr uvaOffset : ℕ} {b : Ramblock} (pin : Option ℕ)
    (hb : m.block? addr = some b) (inside : uvaOffset < b.size)
    (accessible : b.accessible (uvaOffset / haxChunkSize) = true)
    (absent : b.chunks (uvaOffset / haxChunkSize) = none)
    (clear : b.chunksBitmap (uvaOffset / haxChunkSize) = false) :
    (ramblockGetChunk m pin addr uvaOffset).2.trace = m.trace := by
  unfold ramblockGetChunk
  simp only [hb, if_neg (not_le.2 inside), accessible, clear, absent, if_true, Mem.assert,
    Option.isNone_none, Mem.log_nil]
  obtain ⟨ret, chunk, f, halloc, -⟩ := chunkAlloc_spec m pin
    (add64 b.baseUva (shl64 (uvaOffset / haxChunkSize) haxChunkShift))
    (ramblockChunkSize b.size (uvaOffset / haxChunkSize))
  rw [halloc]
  cases chunk <;> rfl

/-- An addition that succeeds has made enough room exactly if the block has fewer
than `2 ^ 29` chunks. -/
theorem ramblockAdd_roomy_iff
    (reached : Reached (Mem.init failing) (fun _ _ => True) ramblockStep m)
    (succeeds : (ramblockAdd m baseUva size).1 = 0) :
    RamblockRoomy m baseUva size ↔ ramblockCountChunks size < 2 ^ 29 := by
  have distinct := ramblockReached_distinct reached
  rcases ramblockAdd_cases m baseUva size with ⟨_, _, _, _, hret, _, _, _, h⟩ |
    ⟨list, f, hins, _, h⟩
  · rw [h] at succeeds
    exact absurd succeeds hret.ne
  · have lookup : (ramblockAdd m baseUva size).2.2.block? m.nextAddr =
        some (ramblockNew m.nextAddr baseUva size) := by
      rw [(distinct.insert hins (by rw [h]) (by rw [h])).2, if_pos rfl]
    constructor
    · rintro ⟨-, b, hb, hchunks, -⟩
      obtain rfl := Option.some.inj (lookup.symm.trans hb)
      have hmod := Nat.mod_lt (ramblockCountChunks size * sizeofChunkPointer)
        (by norm_num : 0 < 2 ^ 32)
      have hlt : ramblockCountChunks size * sizeofChunkPointer < 2 ^ 32 := hchunks.trans_lt hmod
      simp only [sizeofChunkPointer] at hlt
      omega
    · intro fits
      obtain ⟨hchunks, hbitmap⟩ := ramblock_sizes_lt fits
      refine ⟨by rw [h, ramblockOverruns_eq_nil fits, List.append_nil], _, lookup, ?_, ?_,
        fun uvaOffset hlt => ?_⟩
      · exact (Nat.mod_eq_of_lt hchunks).ge
      · change _ ≤ ramblockCountBitmapSize (ramblockCountChunks size) % 2 ^ 32
        rw [Nat.mod_eq_of_lt hbitmap, ramblockCountBitmapSize]
        omega
      · have accessible := ramblockNew_accessible m.nextAddr baseUva fits
          (div_lt_ramblockCountChunks hlt)
        exact ⟨accessible, fun pin => ramblockGetChunk_trace pin lookup hlt accessible rfl rfl⟩

theorem ramblockAdd_roomy_one_chunk :
    RamblockRoomy (Mem.init none) 0x10000 0x200000 ↔ ramblockCountChunks 0x200000 < 2 ^ 29 :=
  ramblockAdd_roomy_iff .init (by decide)

/-- A block of 1PB and 2MB is accepted with a chunk array of eight bytes. -/
theorem ramblockAdd_truncated :
    ¬ RamblockRoomy (Mem.init none) 0x10000 (2 ^ 50 + 2 ^ 21) ∧
      (ramblockAdd (Mem.init none) 0x10000 (2 ^ 50 + 2 ^ 21)).1 = 0 ∧
      ((ramblockAdd (Mem.init none) 0x10000 (2 ^ 50 + 2 ^ 21)).2.2.block? 0).map
        Ramblock.chunksSize = some 8 ∧
      ramblockCountChunks (2 ^ 50 + 2 ^ 21) * sizeofChunkPointer = 2 ^ 32 + 8 ∧
      (ramblockAdd (Mem.init none) 0x10000 (2 ^ 50 + 2 ^ 21)).2.2.trace = [.fault .overrun] := by
  refine ⟨fun roomy => ?_, by decide⟩
  have cleared := roomy.cleared
  revert cleared
  decide

end Haxm
