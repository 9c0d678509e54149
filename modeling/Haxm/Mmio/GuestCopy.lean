/-
# Copies from and to guest memory

`gpa_space_read_data` and `gpa_space_write_data` map a range of guest memory into
the kernel, copy, and destroy the mapping. What is mapped ends where the slot or
the chunk of the first page ends, if that comes before the end of the range. The
copy is right for every range of a slot that starts at a page of its block and
lies inside it.

The result of `gpa_space_map_range` does not say whether there is a mapping. It is
0 if nothing has been asked for, so that nothing has been mapped, and it is a
difference of two sizes otherwise, which need not be positive when the mapping has
been made. So an empty read destroys a mapping that it has not made. In the other
direction, a write to a read-only slot is refused only after it has been mapped.

Memory is that of the process that runs the guest, by its own addresses. A kernel
mapping starts at the page that contains the offset it is asked for.
-/

import Haxm.Lib.Bytes
import Haxm.Memory.NoticesExact
import Haxm.Vcpu.IoPost
import Haxm.Vm.Vm

namespace Haxm

open Lib

variable {σ : Type*}

/-! ## Kernel mappings -/

/-- The calls that make and destroy mappings. -/
inductive KmapCall
  /-- `hax_map_user_pages` has succeeded and filled in the descriptor. -/
  | map (kmap : Kmap)
  /-- `hax_unmap_user_pages` is given a descriptor, which may be as it was on the
  stack. -/
  | unmap (kmap : Option Kmap)
  deriving DecidableEq, Repr

def KmapCall.isMap : KmapCall → Bool
  | .map _ => true
  | .unmap _ => false

/-- As many mappings are destroyed as are made, and each by the descriptor of one
that has been made before. -/
structure Balanced (calls : List KmapCall) : Prop where
  count : calls.countP (fun c => c.isMap) = calls.countP (fun c => !c.isMap)
  filled : ∀ pre kmap post, calls = pre ++ .unmap kmap :: post →
    ∃ k, kmap = some k ∧ .map k ∈ pre

theorem balanced_nil : Balanced [] := ⟨rfl, by simp⟩

theorem balanced_pair (k : Kmap) : Balanced [.map k, .unmap (some k)] := by
  refine ⟨rfl, fun pre kmap post h => ?_⟩
  rcases pre with _ | ⟨first, _ | ⟨second, rest⟩⟩
  · cases h
  · cases h
    exact ⟨k, rfl, by simp⟩
  · simp at h

theorem not_balanced_map (k : Kmap) : ¬ Balanced [.map k] :=
  fun h => Nat.one_ne_zero h.count

theorem not_balanced_unmap (kmap : Option Kmap) : ¬ Balanced [.unmap kmap] :=
  fun h => Nat.zero_ne_one h.count

/-- The successful calls of `hax_map_user_pages`. -/
def MappedRange.calls (r : MappedRange σ) : List KmapCall := (r.kmap.map KmapCall.map).toList

/-- The copy does not end before the mapping is destroyed. A write ends if the range is
not writable. -/
def MappedRange.Copies (write : Bool) (len : ℤ) (r : MappedRange σ) : Prop :=
  0 ≤ r.ret ∧ (write = true → r.writable = true) ∧ ¬ (r.ret < len ∧ r.ret = 0)

instance (write : Bool) (len : ℤ) (r : MappedRange σ) : Decidable (r.Copies write len) :=
  inferInstanceAs (Decidable (_ ∧ _))

/-- The calls of a copy. -/
def MappedRange.copyCalls (write : Bool) (len : ℤ) (r : MappedRange σ) : List KmapCall :=
  if r.Copies write len then r.calls ++ [.unmap r.kmap] else r.calls

section CopyCalls

variable {r : MappedRange σ} {write : Bool} {len : ℤ}

theorem MappedRange.balanced_iff_of_none (unmapped : r.kmap = none) :
    Balanced (r.copyCalls write len) ↔ ¬ r.Copies write len := by
  unfold MappedRange.copyCalls MappedRange.calls
  rw [unmapped]
  split_ifs with h
  · exact iff_of_false (not_balanced_unmap none) (not_not.2 h)
  · exact iff_of_true balanced_nil h

theorem MappedRange.balanced_iff_of_some {k : Kmap} (mapped : r.kmap = some k) :
    Balanced (r.copyCalls write len) ↔ r.Copies write len := by
  unfold MappedRange.copyCalls MappedRange.calls
  rw [mapped]
  split_ifs with h
  · exact iff_of_true (balanced_pair k) h
  · exact iff_of_false (not_balanced_map k) h

end CopyCalls

/-! ## The functions -/

namespace GuestCopy

/-- What a copy returns, the bytes it has read, and what it leaves behind. -/
structure Copied (σ : Type*) where
  ret : ℤ
  bytes : List (BitVec 8)
  space : GpaSpace σ
  ram : BitVec 64 → BitVec 8
  calls : List KmapCall

/-- `gpa_space_read_data`. The flag says whether there is a buffer. -/
def gpaSpaceReadData (pin : Option ℕ) (kmap : Bool) (sp : GpaSpace σ) (ram : BitVec 64 → BitVec 8)
    (startGpa : ℕ) (len : ℤ) (data : Bool) : Copied σ :=
  if data = false then ⟨-EINVAL, [], sp, ram, []⟩
  else
    let r := gpaSpaceMapRange pin kmap sp startGpa len
    if r.ret < 0 then ⟨r.ret, [], r.space, ram, r.calls⟩
    else if r.ret < len ∧ r.ret = 0 then ⟨0, [], r.space, ram, r.calls⟩
    else
      ⟨r.ret, (List.range r.ret.toNat).map fun i => ram (r.buf + BitVec.ofNat 64 i), r.space, ram,
        r.calls ++ [.unmap r.kmap]⟩

/-- `gpa_space_write_data`. -/
def gpaSpaceWriteData (pin : Option ℕ) (kmap : Bool) (sp : GpaSpace σ) (ram : BitVec 64 → BitVec 8)
    (startGpa : ℕ) (len : ℤ) (data : Option (ℕ → BitVec 8)) : Copied σ :=
  match data with
  | none => ⟨-EINVAL, [], sp, ram, []⟩
  | some data =>
    let r := gpaSpaceMapRange pin kmap sp startGpa len
    if r.ret < 0 then ⟨r.ret, [], r.space, ram, r.calls⟩
    else if r.writable = false then ⟨-EACCES, [], r.space, ram, r.calls⟩
    else if r.ret < len ∧ r.ret = 0 then ⟨0, [], r.space, ram, r.calls⟩
    else
      ⟨r.ret, [], r.space, store ram r.buf r.ret.toNat data, r.calls ++ [.unmap r.kmap]⟩

/-- What a write through the tunnel returns and takes from its buffer. -/
theorem gpaSpaceWriteData_taken (pin : Option ℕ) (kmap : Bool) (sp : GpaSpace σ)
    (ram : BitVec 64 → BitVec 8) (startGpa : ℕ) (len : ℤ) (data : ℕ → BitVec 8) :
    Haxm.gpaSpaceWriteData pin kmap sp startGpa len =
      ((gpaSpaceWriteData pin kmap sp ram startGpa len (some data)).ret,
        (gpaSpaceWriteData pin kmap sp ram startGpa len (some data)).ret.toNat) := by
  unfold Haxm.gpaSpaceWriteData gpaSpaceWriteData
  dsimp only
  split_ifs with failed readOnly nothing
  · rw [Int.toNat_of_nonpos failed.le]
  · rfl
  · rw [nothing.2]
  · rfl

/-! ## What is mapped -/

/-- How much of the chunk that contains an offset lies from there on. -/
def chunkRoom (b : Ramblock) (offset : ℕ) : ℕ :=
  min haxChunkSize (b.size - haxChunkSize * (offset / haxChunkSize)) - offset % haxChunkSize

/-- Where a kernel mapping of a frame of the slot starts. -/
def mappedUva (c : Chunk) (slot : Memslot) (gfn : ℕ) : BitVec 64 :=
  BitVec.ofNat 64 (c.baseUva + pageSize4K * (frameOffset slot gfn % haxChunkSize / pageSize4K))

/-- There is a chunk at the offset, or it passes the checks of `chunk_alloc`. -/
def Pinnable (b : Ramblock) (offset : ℕ) : Prop :=
  offset < b.size ∧ ((b.chunks (offset / haxChunkSize)).isSome ∨
    b.baseUva % pageSize4K = 0 ∧
      ramblockChunkSize b.size (offset / haxChunkSize) % pageSize4K = 0)

/-- The frame is backed, and the call for its chunk returns `c` and leaves `m`. -/
structure Located (sp : GpaSpace σ) (pin : Option ℕ) (gfn : ℕ) (slot : Memslot) (a : ℕ)
    (b : Ramblock) (c : Chunk) (m : Mem) : Prop extends Backed sp gfn slot a b where
  got : ramblockGetChunk sp.mem pin a (frameOffset slot gfn) = (some c, m)

section Mapped

variable {sp : GpaSpace σ} {pin : Option ℕ} {slot : Memslot} {a startGpa : ℕ} {b : Ramblock}
  {c : Chunk} {m m' : Mem} {offset : ℕ} {len : ℤ}

theorem mapRangeInSlot_eq {gfn delta n : ℕ} (inside : gfn < slot.endGfn)
    (small : n + delta + pageSize4K ≤ 2 ^ 32) :
    mapRangeInSlot slot gfn delta n = min (n + delta) (pageSize4K * (slot.endGfn - gfn)) := by
  unfold mapRangeInSlot
  simp only [pageSize4K] at *
  rw [Nat.mod_eq_of_lt (show n + delta < 2 ^ 32 by omega)]
  split <;> omega

theorem mapRangeInChunk_eq {size : ℕ} (inside : offset ≤ c.size) (small : c.size ≤ haxChunkSize) :
    mapRangeInChunk c offset size = min size (c.size - offset) := by
  unfold mapRangeInChunk
  simp only [haxChunkSize, haxChunkShift] at small
  split
  · rw [sub64_of_le inside (by unfold word; omega)]
    omega
  · omega

theorem intOfWord32_sub {size delta : ℕ} (delta_lt : delta < pageSize4K)
    (size_lt : size < 2 ^ 31 + delta) :
    intOfWord32 (size + 2 ^ 32 - delta) = (size : ℤ) - delta := by
  simp only [pageSize4K] at delta_lt
  unfold intOfWord32
  split <;> omega

/-- How much is mapped, counted from the start of the first page. -/
def mappedSize (slot : Memslot) (b : Ramblock) (startGpa len : ℕ) : ℕ :=
  min (len + startGpa % pageSize4K) (min (pageSize4K * (slot.endGfn - startGpa / pageSize4K))
    (chunkRoom b (frameOffset slot (startGpa / pageSize4K))))

theorem mapRange_size (h : Located sp pin (startGpa / pageSize4K) slot a b c m) (ok : b.Ok) {n : ℕ}
    (n_lt : n < 2 ^ 31) :
    mapRangeInChunk c (frameOffset slot (startGpa / pageSize4K) % haxChunkSize)
        (mapRangeInSlot slot (startGpa / pageSize4K) (startGpa % pageSize4K) n) =
      mappedSize slot b startGpa n := by
  obtain ⟨-, size, below, -⟩ := chunk_place h.live ok h.got
  obtain ⟨-, -, inside⟩ := mem_of_memslotFind h.found
  have delta_lt : startGpa % pageSize4K < pageSize4K := Nat.mod_lt _ (by decide)
  have fits : n + startGpa % pageSize4K + pageSize4K ≤ 2 ^ 32 := by
    simp only [pageSize4K] at *
    omega
  have offset_le : frameOffset slot (startGpa / pageSize4K) % haxChunkSize ≤ c.size := by
    have := Nat.div_add_mod (frameOffset slot (startGpa / pageSize4K)) haxChunkSize
    have := Nat.mod_lt (frameOffset slot (startGpa / pageSize4K)) (by decide : 0 < haxChunkSize)
    omega
  rw [mapRangeInSlot_eq inside fits, mapRangeInChunk_eq offset_le (by omega), size, min_assoc]
  rfl

/-- The mapping of a range whose chunk can be had. -/
theorem gpaSpaceMapRange_mapped (h : Located sp pin (startGpa / pageSize4K) slot a b c m)
    (ok : b.Ok) (pos : 0 < len) (len_lt : len < 2 ^ 31) :
    gpaSpaceMapRange pin true sp startGpa len =
      ⟨(mappedSize slot b startGpa len.toNat : ℤ) - (startGpa % pageSize4K : ℕ),
        decide (slot.flags &&& haxMemslotReadonly = 0),
        mappedUva c slot (startGpa / pageSize4K) + BitVec.ofNat 64 (startGpa % pageSize4K),
        some ⟨mappedUva c slot (startGpa / pageSize4K), mappedSize slot b startGpa len.toNat⟩,
        { sp with mem := m }⟩ := by
  have size := mapRange_size h ok (show len.toNat < 2 ^ 31 by omega)
  have delta_lt : startGpa % pageSize4K < pageSize4K := Nat.mod_lt _ (by decide)
  have size_lt : mappedSize slot b startGpa len.toNat < 2 ^ 31 + startGpa % pageSize4K := by
    unfold mappedSize
    omega
  have chunk : frameChunk pin sp slot (startGpa / pageSize4K) =
      (some (c, frameOffset slot (startGpa / pageSize4K) % haxChunkSize),
        { sp with mem := m }) := by
    unfold frameChunk
    rw [h.block]
    dsimp only
    rw [h.live]
    dsimp only
    rw [show pageSize4K * (startGpa / pageSize4K - slot.baseGfn) + slot.offsetWithinBlock =
      frameOffset slot (startGpa / pageSize4K) from rfl, h.got]
    dsimp only
    rw [(chunk_place h.live ok h.got).1]
  unfold gpaSpaceMapRange
  rw [if_neg (by omega), if_neg (by omega)]
  dsimp only
  rw [h.found]
  dsimp only
  rw [chunk]
  dsimp only
  rw [if_pos rfl, size, intOfWord32_sub delta_lt size_lt, mappedUva]

end Mapped

/-! ## Balance -/

section Balance

variable {sp : GpaSpace σ} {pin : Option ℕ} {a startGpa : ℕ} {b : Ramblock} {c : Chunk}
  {m m' : Mem} {offset : ℕ} {len : ℤ}

theorem add64_chunk_aligned (base i : ℕ) :
    add64 base (shl64 i haxChunkShift) % pageSize4K = 0 ↔ base % pageSize4K = 0 := by
  simp only [add64, shl64, haxChunkShift, pageSize4K, word]
  omega

theorem chunkAlloc_succeeds (plenty : m.failing = none) (memdesc : ℕ) {baseUva size : ℕ}
    (base : baseUva % pageSize4K = 0) (whole : size % pageSize4K = 0) :
    chunkAlloc m (some memdesc) baseUva size = (0, some ⟨memdesc, baseUva, size⟩, m) := by
  have alloc : m.vmalloc sizeofChunk = (true, m) := by
    unfold Mem.vmalloc
    rw [if_neg (by decide), plenty]
  rw [chunkAlloc, if_neg (not_not.2 base), if_neg (not_not.2 whole), alloc]

/-- A chunk that is found passes the checks. -/
theorem pinnable_of_getChunk (hb : m.block? a = some b)
    (found : ramblockGetChunk m pin a offset = (some c, m')) : Pinnable b offset := by
  cases ramblockGetChunk_got hb found with
  | refused nothing => cases nothing
  | found below there => exact ⟨below, .inl (by rw [← there]; rfl)⟩
  | pinned below _ _ chunk aligned =>
    rw [chunk] at aligned
    exact ⟨below, .inr ⟨(add64_chunk_aligned _ _).1 aligned.1, aligned.2⟩⟩

/-- A chunk that passes the checks is found if the host has the memory. -/
theorem getChunk_of_pinnable (hb : m.block? a = some b) (ok : b.Ok) (plenty : m.failing = none)
    (pinnable : Pinnable b offset) (memdesc : ℕ) :
    ∃ c m', ramblockGetChunk m (some memdesc) a offset = (some c, m') := by
  obtain ⟨below, checks⟩ := pinnable
  rw [ramblockGetChunk, hb]
  dsimp only
  rw [if_neg (not_le.2 below), ok.bitmap]
  cases hc : b.chunks (offset / haxChunkSize) with
  | some c => exact ⟨c, _, rfl⟩
  | none =>
    obtain ⟨base, size⟩ := checks.resolve_left (by rw [hc]; exact Bool.false_ne_true)
    have aligned := (add64_chunk_aligned b.baseUva (offset / haxChunkSize)).2 base
    generalize hm₁ : (if b.accessible (offset / haxChunkSize) = true then m
      else m.fault .overrun) = m₁
    have plenty₁ : m₁.failing = none := by
      rw [← hm₁]
      split_ifs
      · exact plenty
      · exact plenty
    have alloc := chunkAlloc_succeeds (m := m₁.assert true) plenty₁ memdesc aligned size
    rw [Option.isSome_none, if_neg Bool.false_ne_true, Option.isNone_none, alloc]
    exact ⟨_, _, rfl⟩

variable (ram : BitVec 64 → BitVec 8) (data : ℕ → BitVec 8)

theorem gpaSpaceReadData_calls (kmap : Bool) :
    (gpaSpaceReadData pin kmap sp ram startGpa len true).calls =
      (gpaSpaceMapRange pin kmap sp startGpa len).copyCalls false len := by
  unfold gpaSpaceReadData MappedRange.copyCalls MappedRange.Copies
  rw [if_neg (by decide)]
  dsimp only
  split_ifs <;> first | rfl | grind

theorem gpaSpaceWriteData_calls (kmap : Bool) :
    (gpaSpaceWriteData pin kmap sp ram startGpa len (some data)).calls =
      (gpaSpaceMapRange pin kmap sp startGpa len).copyCalls true len := by
  unfold gpaSpaceWriteData MappedRange.copyCalls MappedRange.Copies
  dsimp only
  split_ifs <;> first | rfl | grind

/-- The first byte is in the block, and in the chunk in which its page starts. -/
def FirstByteMapped (sp : GpaSpace σ) (startGpa : ℕ) : Prop :=
  ∀ slot a b, Backed sp (startGpa / pageSize4K) slot a b →
    Pinnable b (frameOffset slot (startGpa / pageSize4K)) →
    startGpa % pageSize4K < chunkRoom b (frameOffset slot (startGpa / pageSize4K))

/-- The slot of the address, if it can be mapped, is not read-only. -/
def FirstByteWritable (sp : GpaSpace σ) (startGpa : ℕ) : Prop :=
  ∀ slot a b, Backed sp (startGpa / pageSize4K) slot a b →
    Pinnable b (frameOffset slot (startGpa / pageSize4K)) →
    slot.flags &&& haxMemslotReadonly = 0

theorem mappedSize_gt_iff {slot : Memslot} {n : ℕ} (n_pos : 0 < n)
    (inside : startGpa / pageSize4K < slot.endGfn) :
    startGpa % pageSize4K < mappedSize slot b startGpa n ↔
      startGpa % pageSize4K < chunkRoom b (frameOffset slot (startGpa / pageSize4K)) := by
  have delta_lt : startGpa % pageSize4K < pageSize4K := Nat.mod_lt _ (by decide)
  unfold mappedSize
  simp only [pageSize4K] at *
  omega

/-- The calls are balanced whatever the host answers exactly if an empty copy is a write,
and a copy that is not empty goes on when the chunk can be had. -/
theorem forall_balanced_iff (blocks : sp.BlocksOk) (len_lt : len < 2 ^ 31) (write : Bool) :
    (∀ failing pin kmap, Balanced
      ((gpaSpaceMapRange pin kmap (sp.withFailing failing) startGpa len).copyCalls write len)) ↔
      (len = 0 → write = true) ∧ (0 < len → FirstByteMapped sp startGpa) ∧
        (0 < len → write = true → FirstByteWritable sp startGpa) := by
  -- What is decided in the end is the same for all answers with which there is a chunk.
  have key {failing pin slot a b c m} (pos : 0 < len)
      (h : Located (sp.withFailing failing) pin (startGpa / pageSize4K) slot a b c m) :
      Balanced ((gpaSpaceMapRange pin true (sp.withFailing failing) startGpa len).copyCalls write
          len) ↔
        startGpa % pageSize4K < chunkRoom b (frameOffset slot (startGpa / pageSize4K)) ∧
          (write = true → slot.flags &&& haxMemslotReadonly = 0) := by
    obtain ⟨-, -, inside⟩ := mem_of_memslotFind h.found
    rw [gpaSpaceMapRange_mapped h (blocks a b h.live) pos len_lt,
      MappedRange.balanced_iff_of_some rfl, MappedRange.Copies, decide_eq_true_iff,
      ← mappedSize_gt_iff (show 0 < len.toNat by omega) inside]
    dsimp only
    constructor
    · rintro ⟨ret, writable, more⟩
      exact ⟨by omega, writable⟩
    · rintro ⟨room, writable⟩
      exact ⟨by omega, writable, by omega⟩
  constructor
  · intro balanced
    have located {slot a b} (backed : Backed sp (startGpa / pageSize4K) slot a b)
        (pinnable : Pinnable b (frameOffset slot (startGpa / pageSize4K))) :
        ∃ c m, Located (sp.withFailing none) (some 0) (startGpa / pageSize4K) slot a b c m := by
      obtain ⟨c, m, got⟩ := getChunk_of_pinnable (m := (sp.withFailing none).mem) backed.live
        (blocks a b backed.live) rfl pinnable 0
      exact ⟨c, m, { backed with }, got⟩
    refine ⟨?_, fun pos slot a b backed pinnable => ?_, fun pos w slot a b backed pinnable => ?_⟩
    · rintro rfl
      exact not_not.1 fun read => (MappedRange.balanced_iff_of_none rfl).1 (balanced none none true)
        ⟨le_rfl, fun h => absurd h read, fun h => absurd h.1 (lt_irrefl _)⟩
    · obtain ⟨c, m, h⟩ := located backed pinnable
      exact ((key pos h).1 (balanced none (some 0) true)).1
    · obtain ⟨c, m, h⟩ := located backed pinnable
      exact ((key pos h).1 (balanced none (some 0) true)).2 w
  · rintro ⟨empty, inside, writable⟩ failing pin kmap
    have blocks' : (sp.withFailing failing).BlocksOk := blocks
    have maps := gpaSpaceMapRange_maps blocks' pin kmap startGpa len
    generalize run : gpaSpaceMapRange pin kmap (sp.withFailing failing) startGpa len = r at maps
    cases maps with
    | failed error =>
      rw [MappedRange.balanced_iff_of_none rfl]
      rintro ⟨ret, write_ok, -⟩
      rcases error with error | ⟨zero, -, ro⟩
      · exact absurd ret (not_le.2 error)
      · exact Bool.false_ne_true (ro.symm.trans (write_ok (empty zero)))
    | mapped made pos backed got =>
      subst made
      rw [← run]
      have here : Backed sp (startGpa / pageSize4K) _ _ _ := { backed with }
      have pinnable := pinnable_of_getChunk backed.live got
      exact (key pos ⟨backed, got⟩).2 ⟨inside pos _ _ _ here pinnable,
        fun w => writable pos w _ _ _ here pinnable⟩

/-- A read destroys what it maps, whatever the host answers, exactly if it is not
empty and its first byte is mapped; for a write the slot has to be writable as well,
and it may be empty. -/
theorem kmapsBalanced_iff (blocks : sp.BlocksOk) (startGpa : ℕ) (len_lt : len < 2 ^ 31)
    (data : Option (ℕ → BitVec 8)) :
    ((∀ failing pin kmap, Balanced (gpaSpaceReadData pin kmap (sp.withFailing failing) ram startGpa
        len data.isSome).calls) ↔
      (data.isSome → len ≠ 0 ∧ (0 < len → FirstByteMapped sp startGpa))) ∧
    ((∀ failing pin kmap, Balanced (gpaSpaceWriteData pin kmap (sp.withFailing failing) ram startGpa
        len data).calls) ↔
      (data.isSome → 0 < len → FirstByteMapped sp startGpa ∧ FirstByteWritable sp startGpa)) := by
  cases data with
  | none =>
    exact ⟨by simp [gpaSpaceReadData, balanced_nil], by simp [gpaSpaceWriteData, balanced_nil]⟩
  | some data =>
    simp only [gpaSpaceReadData_calls, gpaSpaceWriteData_calls, Option.isSome_some,
      forall_balanced_iff blocks len_lt, true_imp_iff, Bool.false_eq_true, false_imp_iff,
      imp_true_iff, and_true, true_and, forall_and, imp_false, ne_eq]

end Balance

/-- Two pages of guest memory. -/
def copyCalls : List VmCall := [.addRamblock 0x10000 0x2000, .setRam 0 0x2000 0x10000 0]

theorem copyCalls_ok : VmOk smallHost (smallRun copyCalls) := by
  have reached : Reached (vmInit smallHost smallTree) (fun _ i => i.2.Sane) (vmStep smallHost)
      (smallRun copyCalls) := smallRun_reached (by decide +kernel)
  exact reached.invariant (vmInit_ok smallTree_init) fun _ _ => vmStep_ok

theorem copyCalls_backed {gfn a : ℕ} {slot : Memslot} {b : Ramblock} (hgfn : gfn = 0 ∨ gfn = 1)
    (backed : Backed (smallRun copyCalls) gfn slot a b) :
    slot = ⟨0, 2, some 0, 0, 0⟩ ∧ a = 0 ∧ b.size = 0x2000 ∧ b.baseUva = 0x10000 := by
  have found : memslotFind (smallRun copyCalls).memslotList gfn = some ⟨0, 2, some 0, 0, 0⟩ := by
    rcases hgfn with rfl | rfl <;> decide +kernel
  have live : ((smallRun copyCalls).mem.block? 0).map (fun b => (b.size, b.baseUva)) =
      some (0x2000, 0x10000) := by decide +kernel
  obtain rfl := Option.some.inj (found.symm.trans backed.found)
  obtain rfl := Option.some.inj backed.block
  rw [backed.live] at live
  have both := Option.some.inj live
  exact ⟨rfl, rfl, congrArg Prod.fst both, congrArg Prod.snd both⟩

/-- Eight bytes from the first page. -/
theorem copyCalls_balanced :
    Balanced (gpaSpaceReadData (some 100) true ((smallRun copyCalls).withFailing none) (fun _ => 0)
        0x10 8 true).calls ∧
      Balanced (gpaSpaceWriteData (some 100) true ((smallRun copyCalls).withFailing none)
        (fun _ => 0) 0x10 8 (some fun _ => 1)).calls := by
  have inside : FirstByteMapped (smallRun copyCalls) 0x10 := by
    intro slot a b backed _
    obtain ⟨rfl, -, size, -⟩ := copyCalls_backed (by decide) backed
    rw [chunkRoom, size]
    decide
  have writable : FirstByteWritable (smallRun copyCalls) 0x10 := by
    intro slot a b backed _
    obtain ⟨rfl, -⟩ := copyCalls_backed (by decide) backed
    rfl
  obtain ⟨read, write⟩ := kmapsBalanced_iff (fun _ => 0) copyCalls_ok.blocks 0x10
    (by decide : (8 : ℤ) < 2 ^ 31) (some fun _ => 1)
  exact ⟨read.2 (fun _ => ⟨by decide, fun _ => inside⟩) none (some 100) true,
    write.2 (fun _ _ => ⟨inside, writable⟩) none (some 100) true⟩

/-- A page of guest memory that is read-only. -/
def romCopyCalls : List VmCall :=
  [.addRamblock 0x10000 0x1000, .setRam 0 0x1000 0x10000 haxMemslotReadonly]

/-- An empty read destroys a mapping that has not been made, and a write to a
read-only page does not destroy the one that it has made. -/
theorem romCopyCalls_unbalanced :
    (gpaSpaceReadData (some 100) true (smallRun romCopyCalls) (fun _ => 0) 0 0 true).calls =
        [.unmap none] ∧
      ¬ Balanced
        (gpaSpaceReadData (some 100) true (smallRun romCopyCalls) (fun _ => 0) 0 0 true).calls ∧
      (gpaSpaceWriteData (some 100) true (smallRun romCopyCalls) (fun _ => 0) 0 1
        (some fun _ => 1)).calls = [.map ⟨0x10000, 1⟩] ∧
      ¬ Balanced (gpaSpaceWriteData (some 100) true (smallRun romCopyCalls) (fun _ => 0) 0 1
        (some fun _ => 1)).calls := by
  have read : (gpaSpaceReadData (some 100) true (smallRun romCopyCalls) (fun _ => 0) 0 0
      true).calls = [.unmap none] := rfl
  have write : (gpaSpaceWriteData (some 100) true (smallRun romCopyCalls) (fun _ => 0) 0 1
      (some fun _ => 1)).calls = [.map ⟨0x10000, 1⟩] := by decide +kernel
  refine ⟨read, ?_, write, ?_⟩
  · rw [read]
    exact not_balanced_unmap none
  · rw [write]
    exact not_balanced_map _

/-! ## What is copied -/

/-- The user address behind a guest-physical address. -/
def userAddr (sp : GpaSpace σ) (gpa : ℕ) : Option (BitVec 64) :=
  (memslotFind sp.memslotList (gpa / pageSize4K)).bind fun slot =>
    slot.block.bind fun a =>
      (sp.mem.block? a).map fun b =>
        BitVec.ofNat 64 (b.baseUva + (slot.offsetWithinBlock + (gpa - pageSize4K * slot.baseGfn)))

/-- The slots are in order, and each lies inside its block and starts at a page of it. -/
structure PagedLayout (sp : GpaSpace σ) : Prop where
  ordered : SlotsOrdered sp.memslotList
  blocks : sp.BlocksOk
  slots : ∀ s ∈ sp.memslotList, ∃ a b, s.block = some a ∧ sp.mem.block? a = some b ∧
    s.offsetWithinBlock % pageSize4K = 0 ∧ s.offsetWithinBlock + pageSize4K * s.npages ≤ b.size

/-- How many bytes are copied: what has been asked for, up to the end of the slot and
of the chunk. -/
def copyLength (slot : Memslot) (b : Ramblock) (startGpa len : ℕ) : ℕ :=
  min len (min (pageSize4K * slot.endGfn - startGpa)
    (chunkRoom b (slot.offsetWithinBlock + (startGpa - pageSize4K * slot.baseGfn))))

/-- `n` bytes have been read, and nothing has been written. -/
structure ReadsExactly (sp : GpaSpace σ) (ram : BitVec 64 → BitVec 8) (startGpa n : ℕ)
    (r : Copied σ) : Prop where
  ret : r.ret = n
  length : r.bytes.length = n
  bytes : ∀ i < n, ∃ u, userAddr sp (startGpa + i) = some u ∧ r.bytes[i]? = some (ram u)
  ram : r.ram = ram

/-- `n` bytes have been written, and nothing else. -/
structure WritesExactly (sp : GpaSpace σ) (ram : BitVec 64 → BitVec 8) (data : ℕ → BitVec 8)
    (startGpa n : ℕ) (r : Copied σ) : Prop where
  ret : r.ret = n
  written : ∀ i < n, ∃ u, userAddr sp (startGpa + i) = some u ∧ r.ram u = data i
  kept : ∀ u, (∀ i < n, userAddr sp (startGpa + i) ≠ some u) → r.ram u = ram u

section Exact

variable {sp : GpaSpace σ} {pin : Option ℕ} {slot : Memslot} {a startGpa : ℕ} {b : Ramblock}
  {c : Chunk} {m : Mem} {sp' : GpaSpace σ}

theorem PagedLayout.paged (layout : PagedLayout sp)
    (backed : Backed sp (startGpa / pageSize4K) slot a b) :
    slot.offsetWithinBlock % pageSize4K = 0 ∧
      slot.offsetWithinBlock + pageSize4K * slot.npages ≤ b.size := by
  obtain ⟨mem, -, -⟩ := mem_of_memslotFind backed.found
  obtain ⟨a', b', block, live, aligned, inside⟩ := layout.slots slot mem
  obtain rfl := Option.some.inj (backed.block.symm.trans block)
  obtain rfl := Option.some.inj (backed.live.symm.trans live)
  exact ⟨aligned, inside⟩

/-- Pinning more leaves the layout as it is. -/
theorem PagedLayout.added (layout : PagedLayout sp) (h : sp.Added sp') : PagedLayout sp' := by
  have blocks' := h.blocksOk layout.blocks
  obtain ⟨m, added, rfl⟩ := h
  refine ⟨layout.ordered, blocks', fun s hs => ?_⟩
  obtain ⟨a, b, block, live, aligned, inside⟩ := layout.slots s hs
  obtain ⟨b', live', extended⟩ := added.before a b live
  exact ⟨a, b', block, live', aligned, by rwa [extended.size]⟩

/-- The first byte, in the chunk of its page. -/
theorem PagedLayout.first (layout : PagedLayout sp)
    (backed : Backed sp (startGpa / pageSize4K) slot a b) :
    frameOffset slot (startGpa / pageSize4K) % pageSize4K = 0 ∧
      slot.offsetWithinBlock + (startGpa - pageSize4K * slot.baseGfn) =
        frameOffset slot (startGpa / pageSize4K) + startGpa % pageSize4K ∧
      frameOffset slot (startGpa / pageSize4K) + pageSize4K ≤ b.size := by
  obtain ⟨-, first, last⟩ := mem_of_memslotFind backed.found
  obtain ⟨aligned, inside⟩ := layout.paged backed
  have hstart := Nat.div_add_mod startGpa pageSize4K
  unfold frameOffset
  simp only [Memslot.endGfn, pageSize4K] at *
  omega

theorem chunkRoom_add {offset delta : ℕ} (aligned : offset % pageSize4K = 0)
    (delta_lt : delta < pageSize4K) :
    chunkRoom b (offset + delta) = chunkRoom b offset - delta := by
  simp only [chunkRoom, haxChunkSize, haxChunkShift, pageSize4K] at *
  omega

theorem chunkRoom_ge {offset : ℕ} (aligned : offset % pageSize4K = 0)
    (inside : offset + pageSize4K ≤ b.size) : pageSize4K ≤ chunkRoom b offset := by
  simp only [chunkRoom, haxChunkSize, haxChunkShift, pageSize4K] at *
  omega

section Layout

variable (layout : PagedLayout sp)

include layout

theorem PagedLayout.copyLength_eq (backed : Backed sp (startGpa / pageSize4K) slot a b) {n : ℕ}
    (pos : 0 < n) :
    mappedSize slot b startGpa n = copyLength slot b startGpa n + startGpa % pageSize4K ∧
      0 < copyLength slot b startGpa n := by
  obtain ⟨aligned, place, inside⟩ := layout.first backed
  obtain ⟨-, -, last⟩ := mem_of_memslotFind backed.found
  have delta_lt : startGpa % pageSize4K < pageSize4K := Nat.mod_lt _ (by decide)
  have room := chunkRoom_ge aligned inside
  have hstart := Nat.div_add_mod startGpa pageSize4K
  unfold mappedSize copyLength
  rw [place, chunkRoom_add aligned delta_lt]
  simp only [pageSize4K] at *
  omega

/-- The buffer is a mapping of the memory behind the range. -/
theorem PagedLayout.userAddr_eq (h : Located sp pin (startGpa / pageSize4K) slot a b c m)
    {n i : ℕ} (hi : i < copyLength slot b startGpa n) :
    userAddr sp (startGpa + i) = some (mappedUva c slot (startGpa / pageSize4K) +
      BitVec.ofNat 64 (startGpa % pageSize4K) + BitVec.ofNat 64 i) := by
  obtain ⟨aligned, place, -⟩ := layout.first h.toBacked
  obtain ⟨mem, first, last⟩ := mem_of_memslotFind h.found
  obtain ⟨-, -, -, chunk⟩ := chunk_place h.live (layout.blocks a b h.live) h.got
  have hstart := Nat.div_add_mod startGpa pageSize4K
  -- all bytes are in the slot of the first one
  have found : memslotFind sp.memslotList ((startGpa + i) / pageSize4K) = some slot := by
    refine (memslotFind_eq_some_iff layout.ordered).2 ⟨mem, ?_, ?_⟩
    · exact first.trans (Nat.div_le_div_right (Nat.le_add_right _ _))
    · unfold copyLength at hi
      simp only [pageSize4K] at *
      omega
  rw [userAddr, found, Option.bind_some, h.block, Option.bind_some, h.live,
    Option.map_some, mappedUva, ← BitVec.ofNat_add, ← BitVec.ofNat_add]
  congr 1
  apply BitVec.eq_of_toNat_eq
  rw [BitVec.toNat_ofNat, BitVec.toNat_ofNat]
  have back := mod_word_add_of_sub64 (layout.blocks a b h.live).base_lt chunk
    (frameOffset slot (startGpa / pageSize4K) % haxChunkSize + startGpa % pageSize4K + i)
  have split := Nat.div_add_mod (frameOffset slot (startGpa / pageSize4K)) haxChunkSize
  have whole : pageSize4K * (frameOffset slot (startGpa / pageSize4K) % haxChunkSize / pageSize4K) =
      frameOffset slot (startGpa / pageSize4K) % haxChunkSize := by
    simp only [haxChunkSize, haxChunkShift, pageSize4K] at *
    omega
  rw [whole, Nat.add_assoc c.baseUva, Nat.add_assoc c.baseUva, Nat.add_assoc _ _ i] at *
  rw [back]
  congr 2
  simp only [pageSize4K] at *
  omega

/-- The result of mapping a range of the layout. -/
theorem PagedLayout.mapped (h : Located sp pin (startGpa / pageSize4K) slot a b c m)
    {len : ℕ} (pos : 0 < len) (len_lt : len < 2 ^ 31) :
    gpaSpaceMapRange pin true sp startGpa len =
      ⟨copyLength slot b startGpa len, decide (slot.flags &&& haxMemslotReadonly = 0),
        mappedUva c slot (startGpa / pageSize4K) + BitVec.ofNat 64 (startGpa % pageSize4K),
        some ⟨mappedUva c slot (startGpa / pageSize4K), mappedSize slot b startGpa len⟩,
        { sp with mem := m }⟩ := by
  have ret : (mappedSize slot b startGpa len : ℤ) - (startGpa % pageSize4K : ℕ) =
      copyLength slot b startGpa len := by
    rw [(layout.copyLength_eq h.toBacked pos).1, Nat.cast_add, add_sub_cancel_right]
  rw [gpaSpaceMapRange_mapped h (layout.blocks a b h.live) (by omega) (by omega),
    Int.toNat_natCast, ret]

end Layout

variable (ram : BitVec 64 → BitVec 8) (data : ℕ → BitVec 8) {len n : ℕ} {buf : BitVec 64}
  {k : Option Kmap}

/-- What a read does with a range that has been mapped. -/
theorem gpaSpaceReadData_mapped {writable : Bool} (pos : 0 < n)
    (mapped : gpaSpaceMapRange pin true sp startGpa len = ⟨n, writable, buf, k, sp'⟩) :
    ∃ calls, gpaSpaceReadData pin true sp ram startGpa len true =
      ⟨n, (List.range n).map (fun i => ram (buf + BitVec.ofNat 64 i)), sp', ram, calls⟩ := by
  unfold gpaSpaceReadData
  rw [if_neg (by decide), mapped]
  dsimp only
  rw [if_neg (by omega), if_neg (by omega)]
  exact ⟨_, rfl⟩

theorem gpaSpaceWriteData_mapped (pos : 0 < n)
    (mapped : gpaSpaceMapRange pin true sp startGpa len = ⟨n, true, buf, k, sp'⟩) :
    ∃ calls, gpaSpaceWriteData pin true sp ram startGpa len (some data) =
      ⟨n, [], sp', store ram buf n data, calls⟩ := by
  unfold gpaSpaceWriteData
  dsimp only
  rw [mapped]
  dsimp only
  rw [if_neg (by omega), if_neg (by decide), if_neg (by omega)]
  exact ⟨_, rfl⟩

theorem readsExactly_of_mapped {writable : Bool} (pos : 0 < n)
    (mapped : gpaSpaceMapRange pin true sp startGpa len = ⟨n, writable, buf, k, sp'⟩)
    (addresses : ∀ i < n, userAddr sp (startGpa + i) = some (buf + BitVec.ofNat 64 i)) :
    ReadsExactly sp ram startGpa n (gpaSpaceReadData pin true sp ram startGpa len true) := by
  obtain ⟨calls, read⟩ := gpaSpaceReadData_mapped ram pos mapped
  rw [read]
  refine ⟨rfl, by rw [List.length_map, List.length_range], fun i hi => ?_, rfl⟩
  refine ⟨_, addresses i hi, ?_⟩
  rw [List.getElem?_map, List.getElem?_range hi]
  rfl

theorem writesExactly_of_mapped (pos : 0 < n) (n_lt : n < 2 ^ 31)
    (mapped : gpaSpaceMapRange pin true sp startGpa len = ⟨n, true, buf, k, sp'⟩)
    (addresses : ∀ i < n, userAddr sp (startGpa + i) = some (buf + BitVec.ofNat 64 i)) :
    WritesExactly sp ram data startGpa n
      (gpaSpaceWriteData pin true sp ram startGpa len (some data)) := by
  obtain ⟨calls, written⟩ := gpaSpaceWriteData_mapped ram data pos mapped
  rw [written]
  refine ⟨rfl, fun i hi => ⟨_, addresses i hi, ?_⟩, fun u outside => ?_⟩
  · exact store_apply_add hi (by omega)
  · refine store_apply_of_ne fun i hi same => outside i hi ?_
    rw [addresses i hi, same]

/-- A chunk that has been found is found again. -/
theorem getChunk_again (hb : m.block? a = some b) (ok : b.Ok) {m' : Mem} {offset : ℕ}
    (got : ramblockGetChunk m pin a offset = (some c, m')) (pin' : Option ℕ) :
    ∃ b' m'', m'.block? a = some b' ∧ b.Extends b' ∧
      ramblockGetChunk m' pin' a offset = (some c, m'') := by
  obtain ⟨-, chunks⟩ := ramblockGetChunk_added hb ok got
  obtain ⟨below, b', hb', extended, here⟩ := chunks c rfl
  have bit : b'.chunksBitmap (offset / haxChunkSize) = true := by
    rw [(extended.ok ok).bitmap, here]
    rfl
  refine ⟨b', (ramblockGetChunk m' pin' a offset).2, hb', extended, Prod.ext ?_ rfl⟩
  rw [ramblockGetChunk, hb']
  dsimp only
  rw [if_neg (by rw [extended.size]; omega), if_pos bit, here]

/-- A range that starts in a slot of the layout, whose chunk the host has pinned or
can pin. A read returns the bytes behind the range as far as the slot and the chunk
go, which is one byte at least. A write to a slot that is not read-only writes as
many, and a read after it returns what has been written. -/
theorem gpaSpaceCopy_exact (layout : PagedLayout sp)
    (backed : Backed sp (startGpa / pageSize4K) slot a b)
    (pinned : (ramblockGetChunk sp.mem pin a (frameOffset slot (startGpa / pageSize4K))).1.isSome)
    {len : ℕ} (pos : 0 < len) (len_le : len ≤ 2 ^ 31 - 1 - 4096) :
    1 ≤ copyLength slot b startGpa len ∧
      ReadsExactly sp ram startGpa (copyLength slot b startGpa len)
        (gpaSpaceReadData pin true sp ram startGpa len true) ∧
      (slot.flags &&& haxMemslotReadonly = 0 →
        WritesExactly sp ram data startGpa (copyLength slot b startGpa len)
            (gpaSpaceWriteData pin true sp ram startGpa len (some data)) ∧
          ∀ pin', (gpaSpaceReadData pin' true
              (gpaSpaceWriteData pin true sp ram startGpa len (some data)).space
              (gpaSpaceWriteData pin true sp ram startGpa len (some data)).ram startGpa len
              true).bytes =
            (List.range (copyLength slot b startGpa len)).map data) := by
  rcases got : ramblockGetChunk sp.mem pin a (frameOffset slot (startGpa / pageSize4K)) with
    ⟨- | c, m⟩
  · rw [got] at pinned
    cases pinned
  have ok := layout.blocks a b backed.live
  have mapped := layout.mapped ⟨backed, got⟩ pos (by omega)
  have addresses (i : ℕ) (hi : i < copyLength slot b startGpa len) :=
    layout.userAddr_eq ⟨backed, got⟩ hi
  have n_pos := (layout.copyLength_eq backed pos).2
  have n_le : copyLength slot b startGpa len ≤ len := min_le_left _ _
  refine ⟨n_pos, readsExactly_of_mapped ram n_pos mapped addresses, fun writable => ?_⟩
  rw [decide_eq_true writable] at mapped
  refine ⟨writesExactly_of_mapped ram data n_pos (by omega) mapped addresses, fun pin' => ?_⟩
  obtain ⟨calls, written⟩ := gpaSpaceWriteData_mapped ram data n_pos mapped
  obtain ⟨b', m'', live, extended, again⟩ := getChunk_again backed.live ok got pin'
  rw [written]
  -- the chunk is pinned now, so that the second mapping is the same as the first
  have located' : Located { sp with mem := m } pin' (startGpa / pageSize4K) slot a b' c m'' :=
    ⟨⟨backed.found, backed.block, live⟩, again⟩
  have layout' := layout.added ⟨m, (ramblockGetChunk_added backed.live ok got).1, rfl⟩
  have mapped' := layout'.mapped located' pos (by omega)
  have same : copyLength slot b' startGpa len = copyLength slot b startGpa len := by
    unfold copyLength chunkRoom
    rw [extended.size]
  rw [same] at mapped'
  obtain ⟨calls', read⟩ := gpaSpaceReadData_mapped (store ram _ _ data) n_pos mapped'
  rw [read]
  refine List.map_congr_left fun i hi => ?_
  exact store_apply_add (List.mem_range.1 hi) (by omega)

/-- Sixteen bytes from the last eight of two pages on, which are all zeros before: a copy stops at
the end of the slot. -/
theorem copyCalls_exact :
    ReadsExactly (smallRun copyCalls) (fun _ => 0) 0x1ff8 8
        (gpaSpaceReadData (some 100) true (smallRun copyCalls) (fun _ => 0) 0x1ff8 16 true) ∧
      WritesExactly (smallRun copyCalls) (fun _ => 0) (fun _ => 1) 0x1ff8 8
        (gpaSpaceWriteData (some 100) true (smallRun copyCalls) (fun _ => 0) 0x1ff8 16
          (some fun _ => 1)) := by
  have slots : (smallRun copyCalls).memslotList = [⟨0, 2, some 0, 0, 0⟩] := by decide +kernel
  obtain ⟨b, live⟩ : ∃ b, (smallRun copyCalls).mem.block? 0 = some b :=
    Option.isSome_iff_exists.1 (by decide +kernel)
  have backed : Backed (smallRun copyCalls) (0x1ff8 / pageSize4K) ⟨0, 2, some 0, 0, 0⟩ 0 b :=
    ⟨by decide +kernel, rfl, live⟩
  obtain ⟨-, -, size, -⟩ := copyCalls_backed (by decide) backed
  have layout : PagedLayout (smallRun copyCalls) := by
    refine ⟨?_, copyCalls_ok.blocks, fun s hs => ?_⟩
    · rw [slots]
      exact ⟨by simp, by simp [Memslot.endGfn]⟩
    · rw [slots, List.mem_singleton] at hs
      subst hs
      exact ⟨0, b, rfl, live, rfl, by rw [size]; decide⟩
  have n : copyLength ⟨0, 2, some 0, 0, 0⟩ b 0x1ff8 16 = 8 := by
    rw [copyLength, chunkRoom, size]
    decide
  obtain ⟨-, read, write⟩ := gpaSpaceCopy_exact (fun _ => 0) (fun _ => 1) layout backed
    (by decide +kernel : (ramblockGetChunk (smallRun copyCalls).mem (some 100) 0
      (frameOffset ⟨0, 2, some 0, 0, 0⟩ (0x1ff8 / pageSize4K))).1.isSome) (by decide : 0 < 16)
    (by decide)
  rw [n] at read write
  exact ⟨read, (write rfl).1⟩

end Exact

end GuestCopy

end Haxm
