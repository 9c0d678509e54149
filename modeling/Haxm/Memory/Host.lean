/-
# What the memory code shares with the host

Error codes, the objects the host hands out for pinned user pages and the
events by which an execution of the memory code is observed from outside: user
pages being unpinned, leaf EPT entries being removed, INVEPT being executed,
and faults. A fault is a failed `hax_assert` or an access outside an
allocation; C gives no meaning to what follows one, so a run that is to be
continued must not contain any.
-/

import Mathlib.Algebra.Group.Nat.Defs

namespace Haxm

abbrev EACCES : ℤ := 13
abbrev EEXIST : ℤ := 17
abbrev EFAULT : ℤ := 14
abbrev EINVAL : ℤ := 22
abbrev ENOMEM : ℤ := 12

/-- `PG_ORDER_4K`. -/
abbrev pgOrder4K : ℕ := 12

/-- `PAGE_SIZE_4K`. -/
abbrev pageSize4K : ℕ := 4096

/-- `HAX_CHUNK_SHIFT`. -/
abbrev haxChunkShift : ℕ := 21

/-- `HAX_CHUNK_SIZE`, 2MB. -/
abbrev haxChunkSize : ℕ := 2 ^ haxChunkShift

/-- A host page frame number, as wide as the field an EPT entry has for it. -/
abbrev Pfn := BitVec 40

/-- `hax_epte`, field by field. -/
structure Epte where
  perm : BitVec 3 := 0
  eptMt : BitVec 3 := 0
  ignorePatMt : BitVec 1 := 0
  isLargePage : BitVec 1 := 0
  accessed : BitVec 1 := 0
  dirty : BitVec 1 := 0
  ignored1 : BitVec 2 := 0
  pfn : Pfn := 0
  ignored2 : BitVec 11 := 0
  supressVe : BitVec 1 := 0
  deriving DecidableEq, Repr

/-- `hax_chunk`. The descriptor of the pinned pages is a number the host chose. -/
structure Chunk where
  memdesc : ℕ
  baseUva : ℕ
  size : ℕ
  deriving DecidableEq, Repr

/-- What must never happen. -/
inductive Fault
  /-- A `hax_assert` whose condition is false. -/
  | assert
  /-- An access outside the allocation it is meant for. -/
  | overrun
  /-- A RAM block used after it was freed. -/
  | useAfterFree
  /-- A reference dropped that nobody held. -/
  | unreferenced
  deriving DecidableEq, Repr

/-- What can be observed of an execution. -/
inductive Event
  /-- `chunk_free` unpinned the chunk at an index of a RAM block. -/
  | unpin (block index : ℕ) (chunk : Chunk)
  /-- A present leaf EPT entry was removed. -/
  | invalidate (gfn : ℕ) (epte : Epte)
  /-- INVEPT was executed for the VM. -/
  | invept
  /-- A byte of the protection bitmap was written. -/
  | write (index : ℕ)
  | fault (fault : Fault)
  deriving DecidableEq, Repr

end Haxm
