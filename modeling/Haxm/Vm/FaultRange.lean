/-
# What a violation maps

A violation at a page without an entry creates the entries of all pages of the
slot that the chunk of the page backs. The range is computed in offsets of the
block and in guest addresses; it is right for every position of the slot
relative to the chunk, also if the chunk is the short last one of its block.

A write to a page that is mapped read-only should be left to be emulated, which
the result 0 says. The code asks whether the flags of the slot are exactly those
of a read-only slot, so that a stand-alone read-only slot is refused.
-/

import Haxm.Vm.PageProtection

namespace Haxm

open Lib

variable {host : Host} {sp sp' : GpaSpace EptTree} {slot : Memslot} {a qual gpa : ℕ} {b : Ramblock}
  {c : Chunk} {pin : Option ℕ}

/-- The range of entries is right for a page of the slot: it is behind the chunk, in
the slot, and leads where the slot does. -/
structure RangeCorrect (slot : Memslot) (b : Ramblock) (c : Chunk) (gfn : ℕ) (r : EntryRange) :
    Prop where
  nonempty : 0 < r.npages
  contains : r.startGfn ≤ gfn ∧ gfn < r.startGfn + r.npages
  inside : slot.baseGfn ≤ r.startGfn ∧ r.startGfn + r.npages ≤ slot.endGfn
  fits : r.offsetWithinChunk + r.npages * 4096 ≤ c.size
  address : ∀ g, r.startGfn ≤ g → g < r.startGfn + r.npages →
    (c.baseUva + r.offsetWithinChunk + (g - r.startGfn) * 4096) % word =
      (b.baseUva + slot.offsetWithinBlock + (g - slot.baseGfn) * 4096) % word

/-- The range of a chunk that contains the offset `o`. Both ends of the slot are
ends of pages, so that no page is cut off. -/
theorem chunkRange_correct {o : ℕ} (ok : b.Ok) (hc : b.chunks (o / haxChunkSize) = some c)
    (aligned : slot.offsetWithinBlock % pageSize4K = 0)
    (inside : slot.offsetWithinBlock + pageSize4K * slot.npages ≤ b.size)
    (hlow : pageSize4K * slot.baseGfn ≤ gpa) (hhigh : gpa < pageSize4K * slot.endGfn)
    (ho : o = slot.offsetWithinBlock + (gpa - pageSize4K * slot.baseGfn)) :
    RangeCorrect slot b c (gpa / 2 ^ pgOrder4K)
      (chunkRange slot (sub64 c.baseUva b.baseUva) c.size) := by
  obtain ⟨place, hsize⟩ := ok.chunk _ _ hc
  have size_lt := ok.size_lt
  have base_lt := ok.base_lt
  rw [place]
  have hmod := Nat.div_add_mod o haxChunkSize
  have hlt : o % haxChunkSize < haxChunkSize := Nat.mod_lt _ (by norm_num)
  generalize hchunk : haxChunkSize * (o / haxChunkSize) = low at *
  have aligned_low : low % pageSize4K = 0 := by
    rw [← hchunk]
    exact Nat.mod_eq_zero_of_dvd (Dvd.dvd.mul_right (by norm_num) _)
  have hend : o < slot.offsetWithinBlock + pageSize4K * slot.npages := by
    simp only [Memslot.endGfn, pageSize4K] at *
    omega
  have hle : low ≤ o := by omega
  have hbelow : o < low + c.size := by omega
  have csize_lt : c.size < word := by
    rw [hsize]
    exact (min_le_left _ _).trans_lt (by norm_num)
  have hnpages := chunkRange_npages hle hbelow (by omega) hend csize_lt
  have hinside := chunkRange_inside hle hbelow (by omega) hend csize_lt
  have hfits := chunkRange_fits hle hbelow (by omega) hend csize_lt
  have hstart : (chunkRange slot low c.size).startGfn =
      slot.baseGfn + (low - slot.offsetWithinBlock) / 2 ^ pgOrder4K := by
    simp only [chunkRange, pageSize4K, pgOrder4K]
    split_ifs <;> omega
  -- the part that slot and chunk share ends at the end of a page
  have aligned_end : min (low + c.size) (slot.offsetWithinBlock + pageSize4K * slot.npages) %
      pageSize4K = 0 := by
    simp only [haxChunkSize, haxChunkShift, pageSize4K] at hsize aligned aligned_low inside ⊢
    omega
  have contains : (chunkRange slot low c.size).startGfn ≤ gpa / 2 ^ pgOrder4K ∧
      gpa / 2 ^ pgOrder4K <
        (chunkRange slot low c.size).startGfn + (chunkRange slot low c.size).npages := by
    rw [hstart, hnpages]
    simp only [pageSize4K, pgOrder4K] at *
    omega
  refine ⟨by omega, contains, hinside, by simpa [Nat.mul_comm] using hfits, fun g hfirst _ => ?_⟩
  have offset := chunkRange_offset aligned aligned_low hfirst
  rw [Nat.mul_comm (g - slot.baseGfn), Nat.add_assoc b.baseUva,
    (offset : slot.offsetWithinBlock + 4096 * (g - slot.baseGfn) = _), Nat.mul_comm (g - _),
    Nat.add_assoc c.baseUva]
  exact mod_word_add_of_sub64 base_lt place _

/-- The chunk that a violation at an address of the slot gets. -/
def violationChunk (pin : Option ℕ) (sp : GpaSpace EptTree) (slot : Memslot) (a gpa : ℕ) :
    Option Chunk :=
  (ramblockGetChunk (memslotLocate sp.mem slot (gpa - pageSize4K * slot.baseGfn)).2 pin a
    (slot.offsetWithinBlock + (gpa - pageSize4K * slot.baseGfn))).1

/-- A violation at a page without an entry, in a slot that starts at a page of its
block and lies inside it, creates the entries of the right range, unless there is no
chunk. -/
def FaultRangeCorrect (host : Host) (pin : Option ℕ) (sp : GpaSpace EptTree)
    (qual gpa : ℕ) : Prop :=
  ∀ slot a b, memslotFind sp.memslotList (gpa / 2 ^ pgOrder4K) = some slot → slot.block = some a →
    sp.mem.block? a = some b → slot.offsetWithinBlock % pageSize4K = 0 →
    slot.offsetWithinBlock + pageSize4K * slot.npages ≤ b.size → qual / 2 ^ 3 % 8 = 0 →
    gpaSpaceIsChunkProtected sp.prot (gpa / 2 ^ pgOrder4K) = none →
    match violationChunk pin sp slot a gpa, eptHandleAccessViolation host pin sp qual gpa with
    | none, (ret, _, sp') => ret = -ENOMEM ∧ sp'.env = sp.env
    | some c, (ret, _, sp') => ∃ r ret', eptTreeCreateEntries host sp.env r.startGfn r.npages c
        r.offsetWithinChunk slot.flags = (ret', sp'.env) ∧ ret = (if ret' < 0 then ret' else 1) ∧
        RangeCorrect slot b c (gpa / 2 ^ pgOrder4K) r

theorem faultRangeCorrect (blocks : ∀ a b, sp.mem.block? a = some b → b.Ok) (pin : Option ℕ)
    (qual gpa : ℕ) : FaultRangeCorrect host pin sp qual gpa := by
  intro slot a b found ha hb aligned inside absent unprotected
  obtain ⟨-, hlow, hhigh⟩ := mem_of_memslotFind found
  obtain ⟨m₁, hlocate⟩ : ∃ m₁, memslotLocate sp.mem slot (gpa - pageSize4K * slot.baseGfn) =
      (some (b, slot.offsetWithinBlock + (gpa - pageSize4K * slot.baseGfn)), m₁) := by
    simp only [memslotLocate, ha, Mem.assert, Mem.block?_log, hb, Prod.mk.injEq, true_and,
      exists_eq']
  obtain ⟨hlist, -, -⟩ := memslotLocate_same hlocate
  have hb₁ : m₁.block? a = some b := by rw [Mem.block?, hlist, ← Mem.block?, hb]
  generalize ho : slot.offsetWithinBlock + (gpa - pageSize4K * slot.baseGfn) = o at hlocate
  unfold violationChunk
  rw [hlocate, ho]
  rcases hget : ramblockGetChunk m₁ pin a o with ⟨- | c, m₂⟩
  · have hresult : eptHandleAccessViolation host pin sp qual gpa =
        (-ENOMEM, none, { sp with mem := m₂ }) := by
      simp only [eptHandleAccessViolation, found, absent, ne_eq, not_true_eq_false, if_false,
        unprotected, hlocate, Mem.addr_of_block? hb, hget]
    rw [hresult]
    exact ⟨rfl, rfl⟩
  · obtain ⟨-, got⟩ := ramblockGetChunk_added hb₁ (blocks a b hb) hget
    obtain ⟨-, b', -, extended, hc⟩ := got c rfl
    have correct := @chunkRange_correct slot _ _ _ _ (extended.ok (blocks a b hb)) hc aligned
      (by rwa [extended.size]) (by simp only [pageSize4K, pgOrder4K] at *; omega)
      (by simp only [pageSize4K, pgOrder4K] at *; omega) ho.symm
    rw [extended.baseUva] at correct
    generalize hr : chunkRange slot (sub64 c.baseUva b.baseUva) c.size = r at correct
    rcases hcreate : eptTreeCreateEntries host sp.env r.startGfn r.npages c r.offsetWithinChunk
      slot.flags with ⟨ret', tree⟩
    have hresult : eptHandleAccessViolation host pin sp qual gpa = (if ret' < 0 then ret' else 1,
        none, { sp with env := tree, mem := m₂.assert (r.fits c) }) := by
      simp only [eptHandleAccessViolation, found, absent, ne_eq, not_true_eq_false, if_false,
        unprotected, hlocate, Mem.addr_of_block? hb, hget, eptFillChunk, hr, hcreate]
    rw [hresult]
    refine ⟨r, ret', hcreate, rfl, { correct with address := fun g hfirst hlast => ?_ }⟩
    rw [correct.address g hfirst hlast, extended.baseUva]

/-- The access was a write to a page that the EPT maps, but not for writing. -/
def WritesMapped (qual : ℕ) : Prop :=
  qual &&& haxEptAccW ≠ 0 ∧ qual / 2 ^ 3 % 8 ≠ 0 ∧ qual / 2 ^ 3 % 8 &&& haxEptAccW = 0

/-- Writes to read-only slots are left to be emulated. -/
def RomWritesEmulated (host : Host) (pin : Option ℕ) (sp : GpaSpace EptTree)
    (qual gpa : ℕ) : Prop :=
  ∀ slot, memslotFind sp.memslotList (gpa / 2 ^ pgOrder4K) = some slot →
    slot.flags &&& haxMemslotReadonly ≠ 0 → WritesMapped qual →
    (eptHandleAccessViolation host pin sp qual gpa).1 = 0

/-- The ranges are right in any case, and writes to a read-only slot are emulated
exactly if the slot has no other flag. -/
theorem eptHandleAccessViolation_correct_iff (blocks : ∀ a b, sp.mem.block? a = some b → b.Ok)
    (pin : Option ℕ) (qual gpa : ℕ) :
    FaultRangeCorrect host pin sp qual gpa ∧ RomWritesEmulated host pin sp qual gpa ↔
      ∀ slot, memslotFind sp.memslotList (gpa / 2 ^ pgOrder4K) = some slot →
        slot.flags &&& haxMemslotReadonly ≠ 0 → WritesMapped qual →
        slot.flags = haxMemslotReadonly := by
  refine Iff.trans (and_iff_right (faultRangeCorrect blocks pin qual gpa)) ?_
  refine forall_congr' fun slot => imp_congr_right fun found => imp_congr_right fun _ =>
    imp_congr_right fun ⟨writes, present, protected'⟩ => ?_
  have hresult : (eptHandleAccessViolation host pin sp qual gpa).1 =
      if slot.flags = haxMemslotReadonly then 0 else -EACCES := by
    simp only [eptHandleAccessViolation, found, present, ne_eq, not_false_eq_true, if_true, writes,
      protected', true_and]
    split_ifs <;> rfl
  rw [hresult]
  split_ifs with exact_flags
  · simp [exact_flags]
  · simp [exact_flags, EACCES]

/-- Two read-only pages of a registered block. -/
def romSlot : List VmCall :=
  [.addRamblock 0x10000 0x4000, .setRam 0x1000 0x2000 0x11000 haxMemslotReadonly]

/-- The guest has read one of them. -/
def romCalls : List VmCall := romSlot ++ [.accessViolation 1 0x2000 (some 100)]

/-- Reading the first page maps both, and a write to them is left to be emulated. -/
theorem romCalls_correct :
    ((eptHandleAccessViolation smallHost (some 100) (smallRun romSlot) 1 0x2000).1 = 1 ∧
      FaultRangeCorrect smallHost (some 100) (smallRun romSlot) 1 0x2000 ∧
      RomWritesEmulated smallHost (some 100) (smallRun romSlot) 1 0x2000) ∧
    ((List.range 4).map fun gfn => ((smallRun romCalls).env.leaf gfn).perm) =
        [0, haxEptPermRx, haxEptPermRx, 0] ∧
      (eptHandleAccessViolation smallHost (some 100) (smallRun romCalls) 0x2a 0x1000).1 = 0 ∧
      FaultRangeCorrect smallHost (some 100) (smallRun romCalls) 0x2a 0x1000 ∧
      RomWritesEmulated smallHost (some 100) (smallRun romCalls) 0x2a 0x1000 := by
  have blocks (calls : List VmCall) (run : AllowedRun (fun _ i => i.2.Sane) (vmStep smallHost)
      (vmInit smallHost smallTree) (calls.map ({}, ·))) :
      ∀ a b, (smallRun calls).mem.block? a = some b → b.Ok :=
    ((smallRun_reached run).invariant (vmInit_ok smallTree_init) fun _ _ => vmStep_ok).blocks
  have flags : (memslotFind (smallRun romCalls).memslotList (0x1000 / 2 ^ pgOrder4K)).map
      Memslot.flags = some haxMemslotReadonly := by decide +kernel
  refine ⟨⟨by decide +kernel, (eptHandleAccessViolation_correct_iff
      (blocks romSlot (by decide +kernel)) (some 100) 1 0x2000).2 fun _ _ _ writes => ?_⟩,
    by decide +kernel, by decide +kernel, (eptHandleAccessViolation_correct_iff
      (blocks romCalls (by decide +kernel)) (some 100) 0x2a 0x1000).2 fun slot found _ _ => ?_⟩
  · exact absurd writes.1 (by decide)
  · rw [found] at flags
    exact Option.some.inj flags

/-- The same with a stand-alone slot. -/
def standaloneRomCalls : List VmCall :=
  [.setRam 0 0x1000 0x10000 (haxMemslotReadonly ||| haxMemslotStandalone),
    .accessViolation 1 0 (some 100)]

/-- The page is mapped read-only, and a write to it is refused. -/
theorem standaloneRomCalls_refused :
    Reached (vmInit smallHost smallTree) (fun _ i => i.2.Sane) (vmStep smallHost)
        (smallRun standaloneRomCalls) ∧
      ((smallRun standaloneRomCalls).env.leaf 0).perm = haxEptPermRx ∧
      (eptHandleAccessViolation smallHost (some 100) (smallRun standaloneRomCalls) 0x2a 0).1 =
        -EACCES ∧
      ¬ RomWritesEmulated smallHost (some 100) (smallRun standaloneRomCalls) 0x2a 0 := by
  have refused : (eptHandleAccessViolation smallHost (some 100) (smallRun standaloneRomCalls) 0x2a
      0).1 = -EACCES := by decide +kernel
  have found : memslotFind (smallRun standaloneRomCalls).memslotList (0 / 2 ^ pgOrder4K) =
      some ⟨0, 1, some 0, 0, haxMemslotReadonly ||| haxMemslotStandalone⟩ := by decide +kernel
  refine ⟨smallRun_reached (by decide +kernel), by decide +kernel, refused, fun emulated => ?_⟩
  have zero := emulated _ found (by decide) ⟨by decide, by decide, by decide⟩
  rw [refused] at zero
  cases zero

end Haxm
