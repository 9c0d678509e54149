/-
# Port input for a string instruction

When the guest executes INS, the exit to user space says how many bytes are
wanted and for which address, in the tunnel page. User space puts the bytes into
the I/O buffer, and at the next run `handle_io_post` copies them to the guest.
It takes their number from the tunnel page again, which user space can write.
The buffer has 64 bytes, while the product of the two fields can be almost
`2 ^ 32`. All that is in between is an assertion of the function that copies.

The memory of the guest takes part in this in two ways. The address is
translated by a walk through page tables that the guest controls, and
`gpa_space_map_range` may find less room than it is asked for.
-/

import Haxm.Ept.Violation
import Haxm.Paging.PageWalker

namespace Haxm

open Lib

variable {σ : Type*}

/-- All blocks are in order. -/
def GpaSpace.BlocksOk (sp : GpaSpace σ) : Prop := ∀ a b, sp.mem.block? a = some b → b.Ok

/-- Chunks may have been pinned, and nothing else has happened. -/
def GpaSpace.Added (sp sp' : GpaSpace σ) : Prop :=
  ∃ m, ChunksAdded sp.mem m ∧ sp' = { sp with mem := m }

theorem GpaSpace.Added.blocksOk {sp sp' : GpaSpace σ} (h : sp.Added sp') (ok : sp.BlocksOk) :
    sp'.BlocksOk := by
  obtain ⟨m, added, rfl⟩ := h
  intro a b' hb'
  obtain ⟨b, hb, extended⟩ := added.after a b' hb'
  exact extended.ok (ok a b hb)

/-! ## Writing to guest memory -/

/-- A 32-bit word as an `int`. -/
def intOfWord32 (n : ℕ) : ℤ := if n % 2 ^ 32 < 2 ^ 31 then n % 2 ^ 32 else (n % 2 ^ 32 : ℕ) - 2 ^ 32

/-- `size` in `gpa_space_map_range`, cut off where the slot ends. -/
def mapRangeInSlot (slot : Memslot) (gfn delta len : ℕ) : ℕ :=
  let size := (len + delta) % 2 ^ 32
  let npages := (size + pageSize4K - 1) % 2 ^ 32 / pageSize4K
  if slot.endGfn < gfn + npages then pageSize4K * (slot.endGfn - gfn) % 2 ^ 32 else size

/-- `size`, cut off where the chunk ends. -/
def mapRangeInChunk (chunk : Chunk) (offsetWithinChunk size : ℕ) : ℕ :=
  if chunk.size < offsetWithinChunk + size then sub64 chunk.size offsetWithinChunk % 2 ^ 32
  else size

/-- `hax_kmap_user`, as a successful `hax_map_user_pages` leaves it: where the
mapping starts and how much has been asked for. -/
structure Kmap where
  startUva : BitVec 64
  size : ℕ
  deriving DecidableEq, Repr

/-- What `gpa_space_map_range` returns and what it stores through its pointers.
`*buf` is given by the user address that it is a mapping of. -/
structure MappedRange (σ : Type*) where
  ret : ℤ
  writable : Bool
  buf : BitVec 64
  kmap : Option Kmap
  space : GpaSpace σ

/-- The chunk behind a frame of the slot, with the offset of the frame in it. -/
def frameChunk (pin : Option ℕ) (sp : GpaSpace σ) (slot : Memslot) (gfn : ℕ) :
    Option (Chunk × ℕ) × GpaSpace σ :=
  match slot.block with
  | none => (none, { sp with mem := sp.mem.fault .assert })
  | some addr =>
    match sp.mem.block? addr with
    | none => (none, { sp with mem := sp.mem.fault .useAfterFree })
    | some block =>
      let offsetWithinBlock := pageSize4K * (gfn - slot.baseGfn) + slot.offsetWithinBlock
      match ramblockGetChunk sp.mem pin addr offsetWithinBlock with
      | (none, m) => (none, { sp with mem := m })
      | (some chunk, m) =>
        (some (chunk, sub64 offsetWithinBlock (sub64 chunk.baseUva block.baseUva)),
          { sp with mem := m })

/-- `gpa_space_map_range`. -/
def gpaSpaceMapRange (pin : Option ℕ) (kmap : Bool) (sp : GpaSpace σ) (startGpa : ℕ) (len : ℤ) :
    MappedRange σ :=
  if len < 0 then ⟨-EINVAL, false, 0, none, sp⟩
  else if len = 0 then ⟨0, false, 0, none, sp⟩
  else
    let gfn := startGpa / pageSize4K
    let delta := startGpa % pageSize4K
    match memslotFind sp.memslotList gfn with
    | none => ⟨-EINVAL, false, 0, none, sp⟩
    | some slot =>
      let writable := slot.flags &&& haxMemslotReadonly = 0
      let size := mapRangeInSlot slot gfn delta len.toNat
      match frameChunk pin sp slot gfn with
      | (none, sp) => ⟨-ENOMEM, writable, 0, none, sp⟩
      | (some (chunk, offsetWithinChunk), sp) =>
        let size := mapRangeInChunk chunk offsetWithinChunk size
        -- `hax_map_user_pages` returns the address of the page.
        let startUva :=
          BitVec.ofNat 64 (chunk.baseUva + pageSize4K * (offsetWithinChunk / pageSize4K))
        if kmap then
          ⟨intOfWord32 (size + 2 ^ 32 - delta), writable, startUva + BitVec.ofNat 64 delta,
            some ⟨startUva, size⟩, sp⟩
        else ⟨-ENOMEM, writable, 0, none, sp⟩

/-- `gpa_space_write_data`: its result, and how many bytes `memcpy_s` takes from
the buffer. -/
def gpaSpaceWriteData (pin : Option ℕ) (kmap : Bool) (sp : GpaSpace σ) (startGpa : ℕ) (len : ℤ) :
    ℤ × ℕ :=
  let r := gpaSpaceMapRange pin kmap sp startGpa len
  if r.ret < 0 then (r.ret, 0)
  else if r.writable = false then (-EACCES, 0)
  else (r.ret, r.ret.toNat)

/-! ## Translation -/

/-- What the driver finds when it writes a piece of the data: the registers of
the guest, its memory and the host's answers. Other processors may change any of
it between two pieces. -/
structure WriteEnv (σ : Type*) where
  cr0 : BitVec 64
  cr3 : BitVec 64
  cr4 : BitVec 64
  efer : BitVec 64
  reservedBitsHighMask : BitVec 32
  mapPage : PwTable → ℕ → Option PwPage
  ram : PwRam
  space : GpaSpace σ
  pin : Option ℕ
  kmap : Bool
  blocks_ok : space.BlocksOk

/-- `vcpu_translate`: the result, the address and how far it can be used. All
modes with paging are left to the walk. -/
def vcpuTranslate (env : WriteEnv σ) (va : BitVec 64) (access : BitVec 32) (len : ℕ)
    (update : Bool) : BitVec 32 × BitVec 64 × ℕ :=
  let (r, pa) :=
    if env.cr0.getLsbD 31 then
      let result := (pwPerformPageWalk
        { virtAddr := va, access := access, setAdBits := update, isFetch := false
          cr0 := env.cr0, cr3 := env.cr3, cr4 := env.cr4, efer := env.efer
          reservedBitsHighMask := env.reservedBitsHighMask, mapPage := env.mapPage } env.ram).1
      (result.retval, result.gpa)
    else (0, va)
  let extend := pageSize4K - va.toNat % pageSize4K
  (r, pa, if r = 0 ∧ (len = 0 ∨ extend < len) then extend else len)

/-- `TF_GP2HP`. -/
def tfGp2hp : BitVec 32 := 0x40000000

/-! ## The copy -/

/-- What `handle_io_post` does with the buffer. -/
inductive IoEvent
  /-- A `hax_assert` whose condition is false. -/
  | assertFailed
  /-- The bytes from `offset` on go to the guest. -/
  | copy (offset len : ℕ)
  deriving DecidableEq, Repr

/-- What it changes of the virtual processor. -/
structure IoVcpu where
  rax : BitVec 64
  cr2 : BitVec 64
  panicked : Bool
  /-- The error code of a page fault that has been injected. -/
  pageFault : Option (BitVec 32)
  deriving DecidableEq

/-- How an iteration of the loop in `vcpu_write_guest_virtual` ends: with a result,
or after some bytes. -/
inductive WritePiece
  | stop (ret : ℕ) (s : IoVcpu)
  | more (n : ℕ) (pos : 0 < n)
  deriving DecidableEq

/-- One iteration, with the number of bytes taken from the buffer. -/
def writeGuestPiece (env : WriteEnv σ) (addr : BitVec 64) (size flag offset : ℕ) (s : IoVcpu) :
    WritePiece × ℕ :=
  let va := addr + BitVec.ofNat 64 offset
  match vcpuTranslate env va tfWrite (size - offset) (flag ≠ 2) with
  | (r, gpa, len) =>
    if r ≠ 0 then
      if flag ≠ 0 then (.stop offset s, 0)
      else
        (.stop 0 { s with
          panicked := s.panicked || r &&& tfGp2hp != 0
          cr2 := va
          pageFault := some (r &&& 0x1f) }, 0)
    else
      let written := gpaSpaceWriteData env.pin env.kmap env.space gpa.toNat len
      if pos : 0 < written.1 then (.more written.1.toNat (Int.lt_toNat.mpr pos), written.2)
      else (.stop 0 { s with panicked := true }, written.2)

/-- The loop of `vcpu_write_guest_virtual`, for what an iteration does at each
offset. -/
def writeLoop (piece : ℕ → WritePiece × ℕ) (done : ℕ) (s : IoVcpu) (size offset : ℕ) :
    ℕ × IoVcpu × List IoEvent :=
  if offset < size then
    match piece offset with
    | (.stop ret s, copied) => (ret, s, [.copy offset copied])
    | (.more n _, copied) =>
      let rest := writeLoop piece done s size (offset + n)
      (rest.1, rest.2.1, .copy offset copied :: rest.2.2)
  else (done, s, [])
termination_by size - offset
decreasing_by omega

/-- `vcpu_write_guest_virtual`. A failed assertion is recorded, and what follows
is what a build without assertions does. -/
def vcpuWriteGuestVirtual (env : ℕ → WriteEnv σ) (addr : BitVec 64) (dstBuflen size flag : ℕ)
    (s : IoVcpu) : ℕ × IoVcpu × List IoEvent :=
  let (ret, s, events) :=
    writeLoop (fun offset => writeGuestPiece (env offset) addr size flag offset s)
      (if flag ≠ 0 then size else 1) s size 0
  (ret, s, (if flag = 0 ∨ flag = 1 then [] else [.assertFailed]) ++
    (if size ≤ dstBuflen then [] else [.assertFailed]) ++ events)

/-- The fields `io` of the tunnel page. -/
structure IoTunnel where
  direction : BitVec 8
  size : BitVec 16
  count : BitVec 16
  flags : BitVec 8
  vaddr : BitVec 64

def haxIoOut : BitVec 8 := 0
def iosMaxBuffer : ℕ := 64

/-- The bytes of the buffer, little-endian, with what comes after the buffer in
memory. -/
def ioBufLoad (ioBuf : ℕ → BitVec 8) : ℕ → BitVec 64
  | 0 => 0
  | n + 1 => ioBufLoad ioBuf n ||| (ioBuf n).setWidth 64 <<< (8 * n)

/-- The low bytes of `rax` that are given, for `_al`, `_ax` and `_eax`. -/
def IoVcpu.setLow (n : ℕ) (v : BitVec 64) (s : IoVcpu) : IoVcpu :=
  { s with rax := s.rax >>> (8 * n) <<< (8 * n) ||| v }

/-- `handle_io_post`. The product of the two fields is an `int` that is passed on
as 32 bits. -/
def handleIoPost (env : ℕ → WriteEnv σ) (t : IoTunnel) (ioBuf : ℕ → BitVec 8) (s : IoVcpu) :
    IoVcpu × List IoEvent :=
  if t.direction = haxIoOut then (s, [])
  else if t.flags = 1 then
    match vcpuWriteGuestVirtual env t.vaddr iosMaxBuffer (t.count.toNat * t.size.toNat % 2 ^ 32) 0
        s with
    | (0, s, events) => ({ s with panicked := true }, events)
    | (_, s, events) => (s, events)
  else
    match t.size.toNat with
    | 1 => (s.setLow 1 (ioBufLoad ioBuf 1), [.copy 0 1])
    | 2 => (s.setLow 2 (ioBufLoad ioBuf 2), [.copy 0 2])
    | 4 => (s.setLow 4 (ioBufLoad ioBuf 4), [.copy 0 4])
    | _ => (s, [])

/-! ## How much is taken from the buffer -/

section Bounds

theorem mapRangeInSlot_le (slot : Memslot) (gfn : ℕ) {delta len : ℕ} :
    mapRangeInSlot slot gfn delta len ≤ len + delta := by
  unfold mapRangeInSlot
  dsimp only [pageSize4K]
  split
  case isFalse => exact Nat.mod_le _ _
  case isTrue cut =>
    -- The slot has fewer pages left than the range needs.
    have fewer : 4096 * (slot.endGfn - gfn) ≤ (len + delta) % 2 ^ 32 := by omega
    exact (Nat.mod_le _ _).trans (fewer.trans (Nat.mod_le _ _))

theorem mapRangeInChunk_le {chunk : Chunk} {offsetWithinChunk : ℕ} (size : ℕ)
    (inside : offsetWithinChunk ≤ chunk.size) (size_lt : chunk.size < word) :
    mapRangeInChunk chunk offsetWithinChunk size ≤ size := by
  unfold mapRangeInChunk
  split
  · rw [sub64_of_le inside size_lt]
    exact (Nat.mod_le _ _).trans (by omega)
  · exact le_rfl

theorem intOfWord32_sub_le {size delta len : ℕ} (le : size ≤ len + delta)
    (delta_lt : delta < pageSize4K) (len_lt : len < 2 ^ 30) :
    intOfWord32 (size + 2 ^ 32 - delta) ≤ len := by
  simp only [pageSize4K] at delta_lt
  unfold intOfWord32
  split <;> omega

/-- The chunk that is found for an offset, and the place of the offset in it. -/
theorem chunk_place {m m' : Mem} {pin : Option ℕ} {a offset : ℕ} {b : Ramblock} {c : Chunk}
    (hb : m.block? a = some b) (ok : b.Ok)
    (found : ramblockGetChunk m pin a offset = (some c, m')) :
    sub64 offset (sub64 c.baseUva b.baseUva) = offset % haxChunkSize ∧
      c.size = min haxChunkSize (b.size - haxChunkSize * (offset / haxChunkSize)) ∧
      offset < b.size ∧ sub64 c.baseUva b.baseUva = haxChunkSize * (offset / haxChunkSize) := by
  obtain ⟨-, chunks⟩ := ramblockGetChunk_added hb ok found
  obtain ⟨below, b', -, extended, here⟩ := chunks c rfl
  obtain ⟨place, size⟩ := (extended.ok ok).chunk _ _ here
  have size_lt := ok.size_lt
  rw [extended.size] at size
  rw [extended.baseUva] at place
  refine ⟨?_, size, below, place⟩
  rw [place, sub64_of_le (Nat.mul_div_le _ _) (by unfold word; omega)]
  have := Nat.div_add_mod offset haxChunkSize
  omega

theorem offsetWithinChunk_le {m m' : Mem} {pin : Option ℕ} {a offset : ℕ} {b : Ramblock}
    {chunk : Chunk} (hb : m.block? a = some b) (ok : b.Ok)
    (found : ramblockGetChunk m pin a offset = (some chunk, m')) :
    sub64 offset (sub64 chunk.baseUva b.baseUva) ≤ chunk.size ∧ chunk.size < word := by
  obtain ⟨place, size, below, -⟩ := chunk_place hb ok found
  rw [place, size]
  simp only [haxChunkSize, haxChunkShift, word] at *
  omega

/-- A frame is in the slot, which is backed by the block. -/
structure Backed (sp : GpaSpace σ) (gfn : ℕ) (slot : Memslot) (a : ℕ) (b : Ramblock) : Prop where
  found : memslotFind sp.memslotList gfn = some slot
  block : slot.block = some a
  live : sp.mem.block? a = some b

/-- The offset of a frame of the slot in the block. -/
def frameOffset (slot : Memslot) (gfn : ℕ) : ℕ :=
  pageSize4K * (gfn - slot.baseGfn) + slot.offsetWithinBlock

/-- How `gpa_space_map_range` ends: with an error, with nothing to be mapped, or with a mapping. -/
inductive MapsRange (pin : Option ℕ) (kmap : Bool) (sp : GpaSpace σ) (startGpa : ℕ) (len : ℤ) :
    MappedRange σ → Prop
  | failed {code : ℤ} {writable : Bool} {m : Mem}
      (error : code < 0 ∨ len = 0 ∧ code = 0 ∧ writable = false) (added : ChunksAdded sp.mem m) :
      MapsRange pin kmap sp startGpa len ⟨code, writable, 0, none, { sp with mem := m }⟩
  | mapped {slot : Memslot} {a : ℕ} {b : Ramblock} {c : Chunk} {m : Mem} {buf : BitVec 64}
      {k : Kmap}
      (made : kmap = true) (pos : 0 < len) (backed : Backed sp (startGpa / pageSize4K) slot a b)
      (got : ramblockGetChunk sp.mem pin a (frameOffset slot (startGpa / pageSize4K)) =
        (some c, m)) :
      MapsRange pin kmap sp startGpa len
        ⟨intOfWord32 (mapRangeInChunk c
          (sub64 (frameOffset slot (startGpa / pageSize4K)) (sub64 c.baseUva b.baseUva))
          (mapRangeInSlot slot (startGpa / pageSize4K) (startGpa % pageSize4K) len.toNat) + 2 ^ 32 -
            startGpa % pageSize4K),
          slot.flags &&& haxMemslotReadonly = 0, buf, some k, { sp with mem := m }⟩

section Range

variable {sp : GpaSpace σ} (ok : sp.BlocksOk) (pin : Option ℕ) (kmap : Bool)

include ok

theorem gpaSpaceMapRange_maps (startGpa : ℕ) (len : ℤ) :
    MapsRange pin kmap sp startGpa len (gpaSpaceMapRange pin kmap sp startGpa len) := by
  have same : ChunksAdded sp.mem sp.mem := .of_same rfl rfl
  unfold gpaSpaceMapRange frameChunk
  split
  · exact .failed (.inl (by decide)) same
  split
  case _ zero => exact .failed (.inr ⟨zero, rfl, rfl⟩) same
  dsimp only
  cases found : memslotFind sp.memslotList (startGpa / pageSize4K) with
  | none => exact .failed (.inl (by decide)) same
  | some slot =>
    dsimp only
    cases block : slot.block with
    | none => exact .failed (.inl (by decide)) (.of_same rfl rfl)
    | some a =>
      dsimp only
      cases live : sp.mem.block? a with
      | none => exact .failed (.inl (by decide)) (.of_same rfl rfl)
      | some b =>
        dsimp only
        rcases got : ramblockGetChunk sp.mem pin a (pageSize4K *
          (startGpa / pageSize4K - slot.baseGfn) + slot.offsetWithinBlock) with ⟨- | c, m⟩ <;>
          obtain ⟨added, -⟩ := ramblockGetChunk_added live (ok a b live) got
        · exact .failed (.inl (by decide)) added
        · cases kmap with
          | false => exact .failed (.inl (by decide)) added
          | true => exact .mapped rfl (by omega) ⟨found, block, live⟩ got

/-- `gpa_space_map_range` never maps more than it is asked for. -/
theorem gpaSpaceMapRange_le (startGpa len : ℕ) (len_lt : len < 2 ^ 30) :
    (gpaSpaceMapRange pin kmap sp startGpa len).ret ≤ len := by
  have maps := gpaSpaceMapRange_maps ok pin kmap startGpa len
  generalize gpaSpaceMapRange pin kmap sp startGpa len = result at maps
  cases maps with
  | failed error => dsimp only; omega
  | mapped _ _ backed got =>
    obtain ⟨inside, size_lt⟩ := offsetWithinChunk_le backed.live (ok _ _ backed.live) got
    apply intOfWord32_sub_le _ (Nat.mod_lt _ (by decide)) len_lt
    exact (mapRangeInChunk_le _ inside size_lt).trans (mapRangeInSlot_le _ _)

theorem gpaSpaceWriteData_le (startGpa len : ℕ) (len_lt : len < 2 ^ 30) :
    (gpaSpaceWriteData pin kmap sp startGpa len).1 ≤ len ∧
      (gpaSpaceWriteData pin kmap sp startGpa len).2 ≤ len := by
  have mapped := gpaSpaceMapRange_le ok pin kmap startGpa len len_lt
  unfold gpaSpaceWriteData
  dsimp only
  split
  · exact ⟨mapped, Nat.zero_le _⟩
  split
  · exact ⟨(show (-EACCES : ℤ) ≤ 0 by decide).trans (Int.natCast_nonneg len), Nat.zero_le _⟩
  · exact ⟨mapped, by omega⟩

end Range

/-- A translation is good for what was asked, and at most for a page. -/
theorem vcpuTranslate_len (env : WriteEnv σ) (va : BitVec 64) (access : BitVec 32) (len : ℕ)
    (update : Bool) (pos : 0 < len) (ok : (vcpuTranslate env va access len update).1 = 0) :
    (vcpuTranslate env va access len update).2.2 ≤ len ∧
      (vcpuTranslate env va access len update).2.2 ≤ pageSize4K := by
  unfold vcpuTranslate at *
  generalize (if env.cr0.getLsbD 31 then _ else _ : BitVec 32 × BitVec 64) = walk at *
  obtain ⟨r, pa⟩ := walk
  dsimp only [pageSize4K] at *
  split
  case isTrue cut => omega
  case isFalse whole =>
    have short : ¬ (len = 0 ∨ 4096 - va.toNat % 4096 < len) := fun cut => whole ⟨ok, cut⟩
    omega

/-- One iteration takes no more from the buffer than is left to write. -/
theorem writeGuestPiece_le (env : WriteEnv σ) (addr : BitVec 64) {size offset : ℕ} (flag : ℕ)
    (s : IoVcpu) (left : offset < size) :
    offset + (writeGuestPiece env addr size flag offset s).2 ≤ size ∧
      ∀ n pos, (writeGuestPiece env addr size flag offset s).1 = .more n pos →
        offset + n ≤ size := by
  have translated := vcpuTranslate_len env (addr + BitVec.ofNat 64 offset) tfWrite
    (size - offset) (flag ≠ 2) (by omega)
  unfold writeGuestPiece
  dsimp only
  generalize vcpuTranslate env (addr + BitVec.ofNat 64 offset) tfWrite (size - offset)
    (flag ≠ 2) = result at *
  obtain ⟨r, gpa, len⟩ := result
  dsimp only at *
  split
  · split <;> exact ⟨left.le, by simp⟩
  case isFalse ok =>
    obtain ⟨len_le, page⟩ := translated (not_not.mp ok)
    obtain ⟨ret_le, copied_le⟩ := gpaSpaceWriteData_le env.blocks_ok env.pin env.kmap gpa.toNat
      len (page.trans_lt (by decide))
    split
    · refine ⟨by omega, ?_⟩
      rintro n pos eq
      cases eq
      omega
    · exact ⟨by omega, by simp⟩

end Bounds

/-! ## What is taken from the buffer -/

/-- The event takes bytes from the first `size` ones only. -/
def IoEvent.Within (size : ℕ) : IoEvent → Prop
  | .assertFailed => False
  | .copy offset len => offset + len ≤ size

instance (size : ℕ) : DecidablePred (IoEvent.Within size)
  | .assertFailed => .isFalse id
  | .copy offset len => inferInstanceAs (Decidable (offset + len ≤ size))

theorem writeLoop_within {piece : ℕ → WritePiece × ℕ} {done size offset : ℕ} {s : IoVcpu}
    (bounded : ∀ offset, offset < size → offset + (piece offset).2 ≤ size) :
    ∀ e ∈ (writeLoop piece done s size offset).2.2, e.Within size := by
  fun_induction writeLoop piece done s size offset with
  | case1 offset left ret s copied eq =>
    have here := bounded offset left
    rw [eq] at here
    simpa [IoEvent.Within] using here
  | case2 offset left n pos copied eq rest ih =>
    have here := bounded offset left
    rw [eq] at here
    intro e mem
    rcases List.mem_cons.mp mem with rfl | mem
    · exact here
    · exact ih e mem
  | case3 => simp

theorem vcpuWriteGuestVirtual_within (env : ℕ → WriteEnv σ) (addr : BitVec 64) {dstBuflen : ℕ}
    {size flag : ℕ} (s : IoVcpu) (flagOk : flag = 0 ∨ flag = 1) (fits : size ≤ dstBuflen) :
    ∀ e ∈ (vcpuWriteGuestVirtual env addr dstBuflen size flag s).2.2, e.Within size := by
  unfold vcpuWriteGuestVirtual
  dsimp only
  rw [if_pos flagOk, if_pos fits]
  exact writeLoop_within fun offset left => (writeGuestPiece_le (env offset) addr flag s left).1

theorem vcpuWriteGuestVirtual_assertFailed (env : ℕ → WriteEnv σ) (addr : BitVec 64)
    {dstBuflen size : ℕ} (flag : ℕ) (s : IoVcpu) (exceeds : dstBuflen < size) :
    .assertFailed ∈ (vcpuWriteGuestVirtual env addr dstBuflen size flag s).2.2 := by
  unfold vcpuWriteGuestVirtual
  dsimp only
  rw [if_neg (by omega : ¬ size ≤ dstBuflen)]
  simp

theorem IoEvent.Within.mono {a b : ℕ} {e : IoEvent} (within : e.Within a) (le : a ≤ b) :
    e.Within b := by
  cases e with
  | assertFailed => exact within
  | copy offset len => exact Nat.le_trans within le

/-- With the flag for string instructions, the events are those of the copy. -/
theorem handleIoPost_string {env : ℕ → WriteEnv σ} {t : IoTunnel} {ioBuf : ℕ → BitVec 8}
    {s : IoVcpu} (input : t.direction ≠ haxIoOut) (string : t.flags = 1) :
    (handleIoPost env t ioBuf s).2 =
      (vcpuWriteGuestVirtual env t.vaddr iosMaxBuffer (t.count.toNat * t.size.toNat) 0 s).2.2 := by
  have product : t.count.toNat * t.size.toNat % 2 ^ 32 = t.count.toNat * t.size.toNat := by
    apply Nat.mod_eq_of_lt
    calc t.count.toNat * t.size.toNat
        ≤ (2 ^ 16 - 1) * (2 ^ 16 - 1) := Nat.mul_le_mul (by omega) (by omega)
      _ < 2 ^ 32 := by decide
  rw [handleIoPost, if_neg input, if_pos string, product]
  split <;> simp_all

/-- User space gets nothing but the buffer copied, and no assertion fails, exactly
if it leaves the fields such that the buffer can hold what they ask for. -/
theorem handleIoPost_within_iff (env : ℕ → WriteEnv σ) (t : IoTunnel) (ioBuf : ℕ → BitVec 8)
    (s : IoVcpu) :
    (∀ e ∈ (handleIoPost env t ioBuf s).2, e.Within iosMaxBuffer) ↔
      (t.direction = haxIoOut ∨ t.flags ≠ 1 ∨ t.count.toNat * t.size.toNat ≤ iosMaxBuffer) := by
  by_cases output : t.direction = haxIoOut
  · simp [handleIoPost, output]
  by_cases string : t.flags = 1
  · rw [handleIoPost_string output string]
    simp only [output, string, ne_eq, not_true_eq_false, false_or]
    constructor
    · intro within
      by_contra exceeds
      exact within _ (vcpuWriteGuestVirtual_assertFailed env t.vaddr 0 s (not_le.mp exceeds))
    · intro fits e mem
      exact (vcpuWriteGuestVirtual_within env t.vaddr s (.inl rfl) fits e mem).mono fits
  · have plain : ∀ e ∈ (handleIoPost env t ioBuf s).2, e.Within iosMaxBuffer := by
      rw [handleIoPost, if_neg output, if_neg string]
      split <;> simp [IoEvent.Within, iosMaxBuffer]
    exact iff_of_true plain (.inr (.inl string))

/-- A guest without paging that has one page of memory. -/
def onePageEnv : WriteEnv Unit where
  cr0 := 0
  cr3 := 0
  cr4 := 0
  efer := 0
  reservedBitsHighMask := 0
  mapPage _ _ := none
  ram _ _ := 0
  space :=
    { mem := ⟨[ramblockNew 1 0x10000 0x1000], none, 2, []⟩
      memslotList := [⟨0, 1, some 1, 0, 0⟩]
      listenerList := []
      prot := ⟨fun _ => 0, 0⟩
      env := () }
  pin := some 0
  kmap := true
  blocks_ok a b hb := by
    obtain rfl := List.mem_singleton.mp (List.mem_of_find?_eq_some hb)
    exact ramblockNew_ok (by decide) (by decide)

/-- The fields ask for 17 elements of 4 bytes at address 0. -/
def longInput : IoTunnel := ⟨1, 4, 17, 1, 0⟩

def plainIoVcpu : IoVcpu := ⟨0, 0, false, none⟩

/-- The assertion fails, and without it four bytes from behind the buffer go to
the guest. -/
theorem longInput_not_within :
    (handleIoPost (fun _ => onePageEnv) longInput (fun _ => 0) plainIoVcpu).2 =
      [.assertFailed, .copy 0 68] := by
  have piece : writeGuestPiece onePageEnv 0 68 0 0 plainIoVcpu = (.more 68 (by decide), 68) := by
    decide +kernel
  have loop : writeLoop (fun offset => writeGuestPiece onePageEnv 0 68 0 offset plainIoVcpu) 1
      plainIoVcpu 68 0 = (1, plainIoVcpu, [.copy 0 68]) := by
    rw [writeLoop, if_pos (by decide), piece]
    dsimp only
    rw [writeLoop, if_neg (by decide)]
  have product : longInput.count.toNat * longInput.size.toNat = 68 := by decide
  rw [handleIoPost_string (by decide) rfl, product, vcpuWriteGuestVirtual]
  dsimp only [longInput]
  rw [if_neg (by decide : ¬ (0 : ℕ) ≠ 0), loop]
  rfl

end Haxm
