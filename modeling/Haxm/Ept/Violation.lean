/-
# EPT violations

A guest access to a page that has no EPT entry exits to the hypervisor, which
pins the chunk of host memory behind the page and creates the entries for all
pages of the memory slot that the chunk backs. The chunk is a part of the RAM
block, so these pages form a window that is aligned in host memory, but not in
guest memory.
-/

import Haxm.Ept.Create
import Haxm.Memory.Protection

namespace Haxm

open Lib

variable {σ : Type*}

/-! ## Where a guest page is in host memory -/

/-- The lines that `gpa_space_get_pfn` and `ept_handle_access_violation` share:
the block of a slot and the offset within it, with the assertions made on the
way. -/
def memslotLocate (m : Mem) (slot : Memslot) (offsetWithinSlot : ℕ) :
    Option (Ramblock × ℕ) × Mem :=
  let m := m.assert (offsetWithinSlot < pageSize4K * slot.npages)
  match slot.block with
  | none => (none, m.fault .assert)
  | some addr =>
    match m.block? addr with
    | none => (none, m.fault .useAfterFree)
    | some block =>
      let offsetWithinBlock := slot.offsetWithinBlock + offsetWithinSlot
      (some (block, offsetWithinBlock), m.assert (offsetWithinBlock < block.size))

/-- `gpa_space_get_pfn`: the frame and the flags of the slot. -/
def gpaSpaceGetPfn (host : Host) (pin : Option ℕ) (sp : GpaSpace σ) (gfn : ℕ) :
    Pfn × ℕ × GpaSpace σ :=
  match memslotFind sp.memslotList gfn with
  | none => (invalidPfn, haxMemslotInvalid, sp)
  | some slot =>
    match memslotLocate sp.mem slot (pageSize4K * (gfn - slot.baseGfn)) with
    -- a fault has been recorded, and the result has no meaning
    | (none, m) => (invalidPfn, slot.flags, { sp with mem := m })
    | (some (block, offsetWithinBlock), m) =>
      match ramblockGetChunk m pin block.addr offsetWithinBlock with
      | (none, m) => (invalidPfn, slot.flags, { sp with mem := m })
      | (some chunk, m) =>
        let offsetWithinChunk := sub64 offsetWithinBlock (sub64 chunk.baseUva block.baseUva)
        let pfn := host.getPfnUser chunk.memdesc offsetWithinChunk
        (pfn, slot.flags,
          { sp with mem := (m.assert (offsetWithinChunk < chunk.size)).assert (pfn ≠ invalidPfn) })

/-! ## Creating the entries for a chunk -/

/-- The arguments that describe a range of entries to `ept_tree_create_entries`. -/
structure EntryRange where
  startGfn : ℕ
  npages : ℕ
  offsetWithinChunk : ℕ
  deriving DecidableEq, Repr

/-- The pages of a slot that a chunk backs, which starts at a given offset within
the block. -/
def chunkRange (slot : Memslot) (chunkOffsetLow chunkSize : ℕ) : EntryRange :=
  let startGpa := if slot.offsetWithinBlock < chunkOffsetLow
    then pageSize4K * slot.baseGfn + (chunkOffsetLow - slot.offsetWithinBlock)
    else pageSize4K * slot.baseGfn
  let offsetWithinChunk := if slot.offsetWithinBlock < chunkOffsetLow then 0
    else slot.offsetWithinBlock - chunkOffsetLow
  let chunkOffsetHigh := chunkOffsetLow + chunkSize
  let slotOffsetHigh := slot.offsetWithinBlock + pageSize4K * slot.npages
  let size := sub64 chunkSize offsetWithinChunk
  let size := if slotOffsetHigh < chunkOffsetHigh
    then sub64 size (chunkOffsetHigh - slotOffsetHigh) else size
  { startGfn := startGpa / 2 ^ pgOrder4K
    npages := size / 2 ^ pgOrder4K
    offsetWithinChunk := offsetWithinChunk }

/-- The assertions at the beginning of `ept_tree_create_entries`. -/
def EntryRange.fits (r : EntryRange) (chunk : Chunk) : Bool :=
  r.npages ≠ 0 && r.offsetWithinChunk + pageSize4K * r.npages ≤ chunk.size

/-- `HAX_EPT_ACC_W`. -/
abbrev haxEptAccW : ℕ := 2

/-- `ept_handle_access_violation` from the chunk on. -/
def eptFillChunk (host : Host) (sp : GpaSpace EptTree) (slot : Memslot) (block : Ramblock)
    (chunk : Chunk) : ℤ × GpaSpace EptTree :=
  let r := chunkRange slot (sub64 chunk.baseUva block.baseUva) chunk.size
  match eptTreeCreateEntries host sp.env r.startGfn r.npages chunk r.offsetWithinChunk
      slot.flags with
  | (ret, tree) =>
    (if ret < 0 then ret else 1, { sp with env := tree, mem := sp.mem.assert (r.fits chunk) })

/-- `ept_handle_access_violation`: the result, `fault_gfn` if it was set, and the
state. The exit qualification is given as a number. -/
def eptHandleAccessViolation (host : Host) (pin : Option ℕ) (sp : GpaSpace EptTree)
    (qual gpa : ℕ) : ℤ × Option ℕ × GpaSpace EptTree :=
  let gfn := gpa / 2 ^ pgOrder4K
  match memslotFind sp.memslotList gfn with
  | none => (0, none, sp)
  | some slot =>
    -- bits 5..3 are the permissions of the entry that was there
    let combinedPerm := qual / 2 ^ 3 % 8
    if combinedPerm ≠ 0 then
      if qual &&& haxEptAccW ≠ 0 ∧ combinedPerm &&& haxEptAccW = 0 ∧
          slot.flags = haxMemslotReadonly then (0, none, sp)
      else (-EACCES, none, sp)
    else
      match gpaSpaceIsChunkProtected sp.prot gfn with
      | some faultGfn => (-EFAULT, some faultGfn, sp)
      | none =>
        match memslotLocate sp.mem slot (gpa - pageSize4K * slot.baseGfn) with
        -- a fault has been recorded, and the result has no meaning
        | (none, m) => (-EFAULT, none, { sp with mem := m })
        | (some (block, offsetWithinBlock), m) =>
          match ramblockGetChunk m pin block.addr offsetWithinBlock with
          | (none, m) => (-ENOMEM, none, { sp with mem := m })
          | (some chunk, m) =>
            match eptFillChunk host { sp with mem := m } slot block chunk with
            | (ret, sp) => (ret, none, sp)

/-! ## Chunks of a block -/

/-- The chunks of a block are the parts of 2MB of its range, and the bitmap says
which of them are pinned. -/
structure Ramblock.Ok (b : Ramblock) : Prop where
  base_lt : b.baseUva < word
  size_lt : b.size < 2 ^ 50
  inside : ∀ i c, b.chunks i = some c → haxChunkSize * i < b.size
  bitmap : ∀ i, b.chunksBitmap i = (b.chunks i).isSome
  chunk : ∀ i c, b.chunks i = some c → sub64 c.baseUva b.baseUva = haxChunkSize * i ∧
    c.size = min haxChunkSize (b.size - haxChunkSize * i)

variable {m m' m'' : Mem} {b b' b'' : Ramblock} {a i offset : ℕ} {pin : Option ℕ}

theorem ramblockNew_ok {addr baseUva size : ℕ} (base_lt : baseUva < word)
    (size_lt : size < 2 ^ 50) : (ramblockNew addr baseUva size).Ok where
  base_lt := base_lt
  size_lt := size_lt
  inside := by simp [ramblockNew]
  bitmap _ := rfl
  chunk := by simp [ramblockNew]

theorem Ramblock.Ok.contents (ok : b.Ok) (h : b'.contents = b.contents) : b'.Ok := by
  obtain ⟨_, _, _, _, _, _, _, _, _⟩ := b
  obtain ⟨_, _, _, _, _, _, _, _, _⟩ := b'
  simp only [Ramblock.contents, Ramblock.mk.injEq, true_and] at h
  obtain ⟨rfl, rfl, rfl, rfl, rfl, rfl, rfl, rfl⟩ := h
  exact { ok with }

theorem Ramblock.Ok.chunk_lt (ok : b.Ok) {c : Chunk} (h : b.chunks i = some c) :
    i < ramblockCountChunks b.size := by
  have := ok.inside i c h
  simp only [ramblockCountChunks, haxChunkSize, haxChunkShift] at *
  omega

/-- No chunk is left after all have been freed. -/
theorem Ramblock.Ok.freeChunks (ok : b.Ok) : (ramblockFreeChunks b).Ok := by
  have none_left (i : ℕ) : (ramblockFreeChunks b).chunks i = none := by
    simp only [ramblockFreeChunks]
    split_ifs with h
    · rfl
    · by_contra hc
      obtain ⟨c, hc⟩ := Option.ne_none_iff_exists'.1 hc
      exact h (ok.chunk_lt hc)
  refine ⟨ok.base_lt, ok.size_lt, fun i c h => ?_, fun i => ?_, fun i c h => ?_⟩
  · simp [none_left] at h
  · rw [none_left]
    simp only [ramblockFreeChunks]
    split_ifs with h
    · rfl
    · rw [ok.bitmap]
      cases hc : b.chunks i with
      | none => rfl
      | some c =>
        have := ok.chunk_lt hc
        simp only [ramblockCountBitmapSize] at h
        omega
  · simp [none_left] at h

theorem ramblockChunkSize_eq {size : ℕ} (hi : haxChunkSize * i < size) (size_lt : size < 2 ^ 50) :
    ramblockChunkSize size i = min haxChunkSize (size - haxChunkSize * i) := by
  simp only [haxChunkSize, haxChunkShift] at *
  rw [ramblockChunkSize, shl64_of_lt (by simp only [haxChunkShift, word]; omega)]
  simp only [haxChunkSize, haxChunkShift]
  split_ifs <;> omega

/-- The block may have another chunk pinned, and is otherwise the same. -/
structure Ramblock.Extends (b b' : Ramblock) : Prop where
  addr : b'.addr = b.addr
  baseUva : b'.baseUva = b.baseUva
  size : b'.size = b.size
  refCount : b'.refCount = b.refCount
  chunks : ∀ i c, b.chunks i = some c → b'.chunks i = some c
  ok : b.Ok → b'.Ok

theorem Ramblock.Extends.refl (b : Ramblock) : b.Extends b :=
  ⟨rfl, rfl, rfl, rfl, fun _ _ h => h, id⟩

/-- Chunks may have been pinned, and nothing else has happened to the blocks. -/
structure ChunksAdded (m m' : Mem) : Prop where
  distinct : m.Distinct → m'.Distinct
  before : ∀ a b, m.block? a = some b → ∃ b', m'.block? a = some b' ∧ b.Extends b'
  after : ∀ a b', m'.block? a = some b' → ∃ b, m.block? a = some b ∧ b.Extends b'

theorem ChunksAdded.of_same (hlist : m'.ramblockList = m.ramblockList)
    (hnext : m'.nextAddr = m.nextAddr) : ChunksAdded m m' := by
  have lookup (a : ℕ) : m'.block? a = m.block? a := by rw [Mem.block?, hlist, ← Mem.block?]
  refine ⟨fun distinct => ⟨?_, ?_⟩, fun a b h => ⟨b, by rw [lookup, h], .refl b⟩,
    fun a b h => ⟨b, by rw [← lookup, h], .refl b⟩⟩
  · rw [hlist, hnext]
    exact distinct.fresh
  · rw [hlist]
    exact distinct.nodup

theorem ChunksAdded.counted {held : ℕ → ℕ} (added : ChunksAdded m m') (counted : Counted m held) :
    Counted m' held where
  distinct := added.distinct counted.distinct
  count a b' h := by
    obtain ⟨b, hb, extends'⟩ := added.after a b' h
    rw [extends'.refCount]
    exact counted.count a b hb
  live a h := by
    obtain ⟨b, hb⟩ := counted.live a h
    obtain ⟨b', hb', -⟩ := added.before a b hb
    exact ⟨b', hb'⟩

/-- Pinning the chunk at an index where there is none. -/
theorem Ramblock.Ok.pin_extends {memdesc : ℕ} {c : Chunk} (ok : b.Ok) (absent : b.chunks i = none)
    (hi : haxChunkSize * i < b.size)
    (hc : c = ⟨memdesc, add64 b.baseUva (shl64 i haxChunkShift), ramblockChunkSize b.size i⟩) :
    b.Extends (b.setChunk i c) := by
  have place : sub64 c.baseUva b.baseUva = haxChunkSize * i := by
    have hlt : i * 2 ^ haxChunkShift < word := by
      have := ok.size_lt
      simp only [haxChunkSize, haxChunkShift, word] at *
      omega
    rw [hc, shl64_of_lt hlt, sub64_add64_cancel ok.base_lt hlt]
    simp only [haxChunkSize, mul_comm]
  have hsize : c.size = min haxChunkSize (b.size - haxChunkSize * i) := by
    rw [hc]
    exact ramblockChunkSize_eq hi ok.size_lt
  refine ⟨rfl, rfl, rfl, rfl, fun j d hd => ?_, fun _ => ⟨ok.base_lt, ok.size_lt, fun j d hd => ?_,
    fun j => ?_, fun j d hd => ?_⟩⟩
  · rcases eq_or_ne j i with rfl | hj
    · simp [absent] at hd
    · simpa [Ramblock.setChunk, hj] using hd
  · rcases eq_or_ne j i with rfl | hj
    · exact hi
    · exact ok.inside j d (by simpa [Ramblock.setChunk, hj] using hd)
  · rcases eq_or_ne j i with rfl | hj
    · simp [Ramblock.setChunk]
    · simpa [Ramblock.setChunk, hj] using ok.bitmap j
  · rcases eq_or_ne j i with rfl | hj
    · obtain rfl : c = d := by simpa [Ramblock.setChunk] using hd
      exact ⟨place, hsize⟩
    · exact ok.chunk j d (by simpa [Ramblock.setChunk, hj] using hd)

theorem Mem.Complained.chunksAdded (h : m.Complained m') :
    ChunksAdded m m' ∧ ∀ a, m'.block? a = m.block? a := by
  obtain ⟨f, events, -, rfl⟩ := h
  exact ⟨.of_same rfl rfl, fun _ => rfl⟩

theorem ChunksAdded.setBlock {f : Ramblock → Ramblock} (hb : m.block? a = some b)
    (keeps : ∀ b, (f b).addr = b.addr ∧ (f b).baseUva = b.baseUva ∧ (f b).size = b.size)
    (extended : b.Extends (f b)) : ChunksAdded m (m.setBlock a f) := by
  have lookup (x : ℕ) := Mem.block?_setBlock (m := m) (a := x) (fun b => (keeps b).1) a
  have changed (x : ℕ) (b₁ : Ramblock) (hb₁ : m.block? x = some b₁) :
      b₁.Extends (if x = a then f b₁ else b₁) := by
    split_ifs with hx
    · subst hx
      obtain rfl := Option.some.inj (hb.symm.trans hb₁)
      exact extended
    · exact .refl b₁
  refine ⟨fun distinct => distinct.of_refines (refines_setBlock m a keeps) le_rfl,
    fun x b₁ hb₁ => ⟨_, by rw [lookup, hb₁]; rfl, changed x b₁ hb₁⟩, fun x b₂ hb₂ => ?_⟩
  rw [lookup] at hb₂
  obtain ⟨b₁, hb₁, rfl⟩ := Option.map_eq_some_iff.1 hb₂
  exact ⟨b₁, hb₁, changed x b₁ hb₁⟩

theorem Ramblock.Extends.trans (first : b.Extends b') (second : b'.Extends b'') : b.Extends b'' :=
  ⟨second.addr.trans first.addr, second.baseUva.trans first.baseUva, second.size.trans first.size,
    second.refCount.trans first.refCount, fun i c h => second.chunks i c (first.chunks i c h),
    fun h => second.ok (first.ok h)⟩

theorem ChunksAdded.trans (first : ChunksAdded m m') (second : ChunksAdded m' m'') :
    ChunksAdded m m'' where
  distinct h := second.distinct (first.distinct h)
  before a b h := by
    obtain ⟨b', hb', extends'⟩ := first.before a b h
    obtain ⟨b'', hb'', extends''⟩ := second.before a b' hb'
    exact ⟨b'', hb'', extends'.trans extends''⟩
  after a b'' h := by
    obtain ⟨b', hb', extends''⟩ := second.after a b'' h
    obtain ⟨b, hb, extends'⟩ := first.after a b' hb'
    exact ⟨b, hb, extends'.trans extends''⟩

/-- Getting a chunk pins at most that chunk. -/
theorem ramblockGetChunk_added {r : Option Chunk} (hb : m.block? a = some b) (ok : b.Ok)
    (h : ramblockGetChunk m pin a offset = (r, m')) :
    ChunksAdded m m' ∧ ∀ c, r = some c → offset < b.size ∧
      ∃ b', m'.block? a = some b' ∧ b.Extends b' ∧ b'.chunks (offset / haxChunkSize) = some c := by
  cases ramblockGetChunk_got hb h with
  | refused nothing rest => exact ⟨rest.chunksAdded.1, by simp [nothing]⟩
  | found below there rest =>
    obtain ⟨added, same⟩ := rest.chunksAdded
    exact ⟨added, fun c hc => ⟨below, b, (same a).trans hb, .refl b, there.symm.trans hc⟩⟩
  | @pinned memdesc chunk m₁ below clear pins new aligned result rest entered =>
    obtain ⟨added, same⟩ := rest.chunksAdded
    have absent : b.chunks (offset / haxChunkSize) = none := by
      simpa [ok.bitmap] using clear
    have extended : b.Extends (b.setChunk (offset / haxChunkSize) chunk) :=
      ok.pin_extends absent ((Nat.mul_div_le _ _).trans_lt below) new
    have hb₁ := (same a).trans hb
    subst entered
    refine ⟨added.trans (.setBlock hb₁ (fun _ => ⟨rfl, rfl, rfl⟩) extended), fun c hc =>
      ⟨below, _, ?_, extended, ?_⟩⟩
    · rw [Mem.block?_setBlock fun b => (rfl : (b.setChunk _ _).addr = b.addr), hb₁]
      simp
    · simpa [Ramblock.setChunk] using result.symm.trans hc

/-! ## The pages behind a chunk -/

section ChunkRange

variable {slot : Memslot} {low size o : ℕ} (hlow : low ≤ o) (hhigh : o < low + size)
  (hslot : slot.offsetWithinBlock ≤ o)
  (hend : o < slot.offsetWithinBlock + pageSize4K * slot.npages) (size_lt : size < word)

include hlow hhigh hslot hend size_lt

/-- The size of the part that a slot and a chunk share, without the detour through
64-bit words. -/
theorem chunkRange_npages :
    (chunkRange slot low size).npages =
      (min (low + size) (slot.offsetWithinBlock + pageSize4K * slot.npages) -
        max low slot.offsetWithinBlock) / 2 ^ pgOrder4K := by
  have hoffset : (if slot.offsetWithinBlock < low then 0 else slot.offsetWithinBlock - low) =
      slot.offsetWithinBlock - low := by
    split_ifs <;> omega
  change (if _ < _ then _ else _) / 2 ^ pgOrder4K = _
  rw [hoffset, sub64_of_le (by omega) size_lt]
  congr 1
  split_ifs
  · rw [sub64_of_le (by omega) (by omega)]
    omega
  · omega

/-- The pages of the range belong to the slot, and the range lies in the chunk. -/
theorem chunkRange_inside :
    slot.baseGfn ≤ (chunkRange slot low size).startGfn ∧
      (chunkRange slot low size).startGfn + (chunkRange slot low size).npages ≤ slot.endGfn := by
  have hstart : (chunkRange slot low size).startGfn =
      slot.baseGfn + (low - slot.offsetWithinBlock) / 2 ^ pgOrder4K := by
    simp only [chunkRange, pageSize4K, pgOrder4K]
    split_ifs <;> omega
  rw [hstart, chunkRange_npages hlow hhigh hslot hend size_lt, Memslot.endGfn]
  simp only [pageSize4K, pgOrder4K] at *
  omega

theorem chunkRange_fits :
    (chunkRange slot low size).offsetWithinChunk +
      pageSize4K * (chunkRange slot low size).npages ≤ size := by
  have hoffset : (chunkRange slot low size).offsetWithinChunk = slot.offsetWithinBlock - low := by
    simp only [chunkRange]
    split_ifs <;> omega
  rw [hoffset, chunkRange_npages hlow hhigh hslot hend size_lt]
  simp only [pageSize4K, pgOrder4K] at *
  omega

end ChunkRange

/-- In a slot that starts at a page of the block, each page of the range is where
the slot has it. -/
theorem chunkRange_offset {slot : Memslot} {low size gfn : ℕ}
    (aligned : slot.offsetWithinBlock % pageSize4K = 0) (aligned_low : low % pageSize4K = 0)
    (hgfn : (chunkRange slot low size).startGfn ≤ gfn) :
    slot.offsetWithinBlock + pageSize4K * (gfn - slot.baseGfn) =
      low + ((chunkRange slot low size).offsetWithinChunk +
        pageSize4K * (gfn - (chunkRange slot low size).startGfn)) := by
  simp only [chunkRange, pageSize4K, pgOrder4K] at *
  split_ifs at * <;> omega

/-! ## What a violation does -/

/-- The pages of a slot behind the chunk that holds an offset of its block. -/
def offsetRange (slot : Memslot) (blockSize offsetWithinBlock : ℕ) : EntryRange :=
  let low := haxChunkSize * (offsetWithinBlock / haxChunkSize)
  chunkRange slot low (min haxChunkSize (blockSize - low))

/-- The pages that a violation makes accessible, if it does. -/
def violationRange (sp : GpaSpace σ) (gpa : ℕ) : Option EntryRange := do
  let slot ← memslotFind sp.memslotList (gpa / 2 ^ pgOrder4K)
  let block ← slot.block.bind sp.mem.block?
  let offsetWithinBlock := slot.offsetWithinBlock + (gpa - pageSize4K * slot.baseGfn)
  if offsetWithinBlock < block.size then some (offsetRange slot block.size offsetWithinBlock)
  else none

variable {host : Host} {sp sp' : GpaSpace EptTree} {qual gpa : ℕ} {fault : Option ℕ} {ret : ℤ}

/-- The entries for the pages behind a chunk were created, or some of them. The
block is given as it is afterwards, with the chunk pinned. -/
structure Filling (host : Host) (sp : GpaSpace EptTree) (gpa : ℕ) (ret : ℤ)
    (sp' : GpaSpace EptTree) (slot : Memslot) (a : ℕ) (b : Ramblock) (c : Chunk) (o : ℕ)
    (r : EntryRange) : Prop where
  found : memslotFind sp.memslotList (gpa / 2 ^ pgOrder4K) = some slot
  unprotected : gpaSpaceIsChunkProtected sp.prot (gpa / 2 ^ pgOrder4K) = none
  block : slot.block = some a
  offset : o = slot.offsetWithinBlock + (gpa - pageSize4K * slot.baseGfn)
  pinned : sp'.mem.block? a = some b
  ok : b.Ok
  inside : o < b.size
  chunk : b.chunks (o / haxChunkSize) = some c
  range : violationRange sp gpa = some r
  range_eq : r = offsetRange slot b.size o
  created : ∃ ret', eptTreeCreateEntries host sp.env r.startGfn r.npages c r.offsetWithinChunk
    slot.flags = (ret', sp'.env) ∧ ret = if ret' < 0 then ret' else 1

theorem memslotLocate_same {slot : Memslot} {r : Option (Ramblock × ℕ)}
    (h : memslotLocate m slot offset = (r, m')) :
    m'.ramblockList = m.ramblockList ∧ m'.nextAddr = m.nextAddr ∧
      ∀ b o, r = some (b, o) → ∃ a, slot.block = some a ∧ m.block? a = some b ∧
        o = slot.offsetWithinBlock + offset := by
  unfold memslotLocate at h
  dsimp only at h
  split at h
  · cases h
    exact ⟨rfl, rfl, by simp⟩
  · rename_i a ha
    split at h
    · cases h
      exact ⟨rfl, rfl, by simp⟩
    · rename_i b hb
      cases h
      refine ⟨rfl, rfl, fun b' o hr => ?_⟩
      cases hr
      exact ⟨a, ha, hb, rfl⟩

section Filling

variable {slot : Memslot} {c : Chunk} {o : ℕ} {r : EntryRange} {place : Pfn → Option (ℕ × ℕ)}
  (filling : Filling host sp gpa ret sp' slot a b c o r)

include filling

theorem Filling.slot_covers : slot ∈ sp.memslotList ∧ pageSize4K * slot.baseGfn ≤ gpa ∧
    gpa < pageSize4K * slot.endGfn := by
  obtain ⟨hmem, hlo, hhi⟩ := mem_of_memslotFind filling.found
  refine ⟨hmem, ?_, ?_⟩ <;> simp only [pageSize4K, pgOrder4K] at * <;> omega

theorem Filling.range_inside :
    slot.baseGfn ≤ r.startGfn ∧ r.startGfn + r.npages ≤ slot.endGfn := by
  obtain ⟨-, hlo, hhi⟩ := filling.slot_covers
  have ho := filling.offset
  have hinside := filling.inside
  have hmod := Nat.div_add_mod o haxChunkSize
  have hlt : o % haxChunkSize < haxChunkSize := Nat.mod_lt _ (by norm_num)
  rw [filling.range_eq, offsetRange]
  refine chunkRange_inside (o := o) (by omega) (by omega) (by omega) ?_ ?_
  · simp only [Memslot.endGfn, pageSize4K] at *
    omega
  · exact (min_le_left _ _).trans_lt (by norm_num)

/-- Entries appear in the range only, and they map the pages of the chunk. -/
theorem Filling.tree_created (ok : TreeOk sp.env place) (bound : slot.endGfn ≤ 2 ^ 31) :
    Created sp.env r.startGfn (r.startGfn + r.npages)
        (chunkEntry host c slot.flags r.startGfn r.offsetWithinChunk) sp'.env ∧
      (ret = -EEXIST → Clashes sp.env r.startGfn (r.startGfn + r.npages)
        (chunkEntry host c slot.flags r.startGfn r.offsetWithinChunk)) := by
  obtain ⟨ret', hcreate, hret⟩ := filling.created
  obtain ⟨-, hend⟩ := filling.range_inside
  rcases Nat.eq_zero_or_pos r.npages with hzero | pos
  · rw [hzero] at hcreate ⊢
    obtain ⟨rfl, htree⟩ : 0 = ret' ∧ sp.env = sp'.env := Prod.ext_iff.1 hcreate
    refine ⟨?_, fun hexist => ?_⟩
    · rw [← htree]
      exact (Grown.refl sp.env).created ok
    · rw [hret] at hexist
      cases hexist
  · obtain ⟨created, outcome⟩ := eptTreeCreateEntries_spec ok pos (by omega) hcreate
    refine ⟨created, fun hexist => ?_⟩
    rcases outcome with ⟨hcount, -⟩ | ⟨hmem, -⟩ | ⟨-, clashes⟩
    · -- there are not enough frames for the counter to come round to the error
      have few : sp.env.absent r.startGfn (r.startGfn + r.npages) ≤ 2 ^ 31 :=
        countIn_le.trans (by omega)
      rw [Nat.zero_add, int32_eq, Nat.mod_eq_of_lt (by omega)] at hcount
      rw [hret] at hexist
      simp only [EEXIST] at hexist
      split_ifs at hexist hcount <;> omega
    · rw [hret, hmem] at hexist
      cases hexist
    · exact clashes

end Filling

/-- A violation may pin a chunk, and then create entries; everything else stays
as it is. -/
theorem eptHandleAccessViolation_cases (blocks : ∀ a b, sp.mem.block? a = some b → b.Ok)
    (h : eptHandleAccessViolation host pin sp qual gpa = (ret, fault, sp')) :
    ChunksAdded sp.mem sp'.mem ∧ sp' = { sp with mem := sp'.mem, env := sp'.env } ∧
      (sp'.env = sp.env ∨ ∃ slot a b c o r, Filling host sp gpa ret sp' slot a b c o r) := by
  have unchanged (m : Mem) (hsame : ChunksAdded sp.mem m) (hsp : sp' = { sp with mem := m }) :
      ChunksAdded sp.mem sp'.mem ∧ sp' = { sp with mem := sp'.mem, env := sp'.env } ∧
        (sp'.env = sp.env ∨ ∃ slot a b c o r, Filling host sp gpa ret sp' slot a b c o r) := by
    subst hsp
    exact ⟨hsame, rfl, .inl rfl⟩
  unfold eptHandleAccessViolation at h
  dsimp only at h
  rcases found : memslotFind sp.memslotList (gpa / 2 ^ pgOrder4K) with - | slot <;>
    simp only [found] at h
  · cases h
    exact unchanged sp.mem (.of_same rfl rfl) rfl
  · by_cases present : qual / 2 ^ 3 % 8 ≠ 0
    · rw [if_pos present] at h
      split_ifs at h <;> cases h <;> exact unchanged sp.mem (.of_same rfl rfl) rfl
    · rw [if_neg present] at h
      rcases unprotected : gpaSpaceIsChunkProtected sp.prot (gpa / 2 ^ pgOrder4K) with - | g <;>
        simp only [unprotected] at h
      · rcases hlocate : memslotLocate sp.mem slot (gpa - pageSize4K * slot.baseGfn) with
          ⟨- | ⟨block, o⟩, m₁⟩ <;> simp only [hlocate] at h <;>
          obtain ⟨hlist, hnext, located⟩ := memslotLocate_same hlocate
        · cases h
          exact unchanged m₁ (.of_same hlist hnext) rfl
        · obtain ⟨a, ha, hb, ho⟩ := located block o rfl
          have hb₁ : m₁.block? a = some block := by rw [Mem.block?, hlist, ← Mem.block?, hb]
          rw [Mem.addr_of_block? hb] at h
          rcases hget : ramblockGetChunk m₁ pin a o with ⟨- | c, m₂⟩ <;> simp only [hget] at h <;>
            obtain ⟨added, got⟩ := ramblockGetChunk_added hb₁ (blocks a block hb) hget
          · cases h
            exact unchanged _ ((ChunksAdded.of_same hlist hnext).trans added) rfl
          · obtain ⟨inside, b, pinned, extends', chunk⟩ := got c rfl
            have ok := extends'.ok (blocks a block hb)
            have hrange : chunkRange slot (sub64 c.baseUva block.baseUva) c.size =
                offsetRange slot b.size o := by
              obtain ⟨place, hsize⟩ := ok.chunk _ _ chunk
              rw [offsetRange, ← extends'.baseUva, place, hsize]
            unfold eptFillChunk at h
            simp only [hrange] at h
            rcases hcreate : eptTreeCreateEntries host sp.env (offsetRange slot b.size o).startGfn
              (offsetRange slot b.size o).npages c (offsetRange slot b.size o).offsetWithinChunk
              slot.flags with ⟨ret', tree⟩
            simp only [hcreate] at h
            cases h
            refine ⟨((ChunksAdded.of_same hlist hnext).trans added).trans (.of_same rfl rfl), rfl,
              .inr ⟨slot, a, b, c, o, _, found, unprotected, ha, ho, pinned, ok, ?_, chunk, ?_, rfl,
                ret', hcreate, rfl⟩⟩
            · rwa [extends'.size]
            · simp only [violationRange, found, ha, hb, ← ho, ← extends'.size, Option.bind_eq_bind,
                Option.bind_some]
              rw [if_pos (by rwa [extends'.size])]
      · cases h
        exact unchanged sp.mem (.of_same rfl rfl) rfl

end Haxm
