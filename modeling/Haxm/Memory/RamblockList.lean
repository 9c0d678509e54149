/-
# The list of RAM blocks

The list is sorted and its blocks occupy disjoint address ranges, through any
sequence of additions, references and releases, as long as no block added so
far reaches the end of the 64-bit address space. Both loops compute the end of
a block in 64 bits. The end of a block that reaches the last address wraps to a
small number, so such a block is put in front of blocks at lower addresses, is
not checked against the ones it overlaps and is never found again.
-/

import Haxm.Lib.Interval
import Haxm.Lib.Run
import Haxm.Memory.Ramblock

namespace Haxm

open Lib

/-- The end of a block's address range, as a natural number. -/
def Ramblock.endUva (b : Ramblock) : ℕ := b.baseUva + b.size

/-- Sorted by address, nonempty and pairwise disjoint. -/
abbrev RamblocksOrdered : List Ramblock → Prop := Ordered Ramblock.baseUva Ramblock.endUva

/-- No block reaches the end of the address space. -/
def RamblocksBounded (list : List Ramblock) : Prop := ∀ b ∈ list, b.endUva < word

variable {block : Ramblock} {list list' : List Ramblock} {m m' : Mem} {baseUva size : ℕ}

/-! ## The two loops -/

theorem ramblockFind_eq_search (bounded : RamblocksBounded list) (uva : ℕ) :
    ramblockFind list uva = search Ramblock.baseUva Ramblock.endUva uva list := by
  induction list with
  | nil => rfl
  | cons b rest ih =>
    have hb : add64 b.baseUva b.size = b.endUva := add64_of_lt (bounded b (by simp))
    have ih := ih fun c hc => bounded c (by simp [hc])
    simp only [ramblockFind, search, hb, ih]

/-- The loop of `ramblock_add` after its last-entry test is unfolded. -/
theorem ramblockInsert_cons (block b : Ramblock) (rest : List Ramblock) :
    ramblockInsert block (b :: rest) =
      if add64 block.baseUva block.size ≤ b.baseUva then some (block :: b :: rest)
      else if add64 b.baseUva b.size ≤ block.baseUva then (ramblockInsert block rest).map (b :: ·)
      else none := by
  cases rest <;> rfl

/-- Inserting a block keeps the others, in their order. -/
theorem ramblockInsert_perm (h : ramblockInsert block list = some list') :
    list'.Perm (block :: list) := by
  induction list generalizing list' with
  | nil =>
    obtain rfl : [block] = list' := Option.some.inj h
    exact .refl _
  | cons b rest ih =>
    rw [ramblockInsert_cons] at h
    split_ifs at h
    · obtain rfl := Option.some.inj h
      exact .refl _
    · obtain ⟨tail, htail, rfl⟩ := Option.map_eq_some_iff.1 h
      exact ((ih htail).cons b).trans (.swap _ _ _)

theorem mem_ramblockInsert (h : ramblockInsert block list = some list') {b : Ramblock} :
    b ∈ list' ↔ b = block ∨ b ∈ list := by
  rw [(ramblockInsert_perm h).mem_iff, List.mem_cons]

/-- What the search returns contains the address, in the arithmetic of the
search. -/
theorem ramblockFind_some {uva : ℕ} {b : Ramblock} (h : ramblockFind list uva = some b) :
    b ∈ list ∧ b.baseUva ≤ uva ∧ uva < add64 b.baseUva b.size := by
  induction list with
  | nil => cases h
  | cons c rest ih =>
    simp only [ramblockFind] at h
    split_ifs at h with hlo hhi
    · obtain rfl := Option.some.inj h
      exact ⟨by simp, not_lt.1 hlo, hhi⟩
    · obtain ⟨hb, hin⟩ := ih h
      exact ⟨by simp [hb], hin⟩

section Bounded

variable (ordered : RamblocksOrdered list) (bounded : RamblocksBounded list)

include ordered bounded

/-- The loop reports an overlap exactly when a block starts below the end it
computed and ends above the new block's start. It may stop at the first block
that starts after that end, because every later block starts later still. -/
theorem ramblockInsert_eq_none_iff (block : Ramblock) :
    ramblockInsert block list = none ↔
      ∃ b ∈ list, b.baseUva < add64 block.baseUva block.size ∧ block.baseUva < b.endUva := by
  induction list with
  | nil => simp [ramblockInsert]
  | cons b rest ih =>
    obtain ⟨hb, before, rest_ordered⟩ := ordered_cons.1 ordered
    have ih := ih rest_ordered fun c hc => bounded c (by simp [hc])
    have hold : add64 b.baseUva b.size = b.endUva := add64_of_lt (bounded b (by simp))
    rw [ramblockInsert_cons, hold]
    split_ifs with hfront hback
    · constructor
      · intro h
        cases h
      · rintro ⟨c, hc, hlt⟩
        rcases List.mem_cons.1 hc with rfl | hc
        · omega
        · have := before c hc
          omega
    · rw [Option.map_eq_none_iff, ih]
      constructor
      · rintro ⟨c, hc, hlt⟩
        exact ⟨c, by simp [hc], hlt⟩
      · rintro ⟨c, hc, hlt⟩
        rcases List.mem_cons.1 hc with rfl | hc
        · omega
        · exact ⟨c, hc, hlt⟩
    · exact iff_of_true rfl ⟨b, by simp, not_le.1 hfront, not_le.1 hback⟩

theorem ramblockInsert_ordered (fits : block.endUva < word) (nonempty : 0 < block.size)
    (h : ramblockInsert block list = some list') :
    RamblocksOrdered list' := by
  induction list generalizing list' with
  | nil =>
    obtain rfl : [block] = list' := Option.some.inj h
    refine ordered_cons.2 ⟨?_, by simp, ordered_nil⟩
    unfold Ramblock.endUva
    omega
  | cons b rest ih =>
    obtain ⟨hb, before, rest_ordered⟩ := ordered_cons.1 ordered
    have hnew : add64 block.baseUva block.size = block.endUva := add64_of_lt fits
    have hold : add64 b.baseUva b.size = b.endUva := add64_of_lt (bounded b (by simp))
    rw [ramblockInsert_cons, hnew, hold] at h
    split_ifs at h with hfront hback
    · obtain rfl := Option.some.inj h
      refine ordered_cons.2 ⟨by unfold Ramblock.endUva; omega, ?_, ordered⟩
      intro c hc
      rcases List.mem_cons.1 hc with rfl | hc
      · exact hfront
      · have := before c hc
        omega
    · obtain ⟨tail, htail, rfl⟩ := Option.map_eq_some_iff.1 h
      refine ordered_cons.2 ⟨hb, ?_, ih rest_ordered (fun c hc => bounded c (by simp [hc])) htail⟩
      intro c hc
      rcases (mem_ramblockInsert htail).1 hc with rfl | hc
      · exact hback
      · exact before c hc

end Bounded

/-! ## What the operations do to the list -/

/-- The faults of writing a whole buffer that was allocated with a truncated
size. -/
def overrunOf (bytes : ℕ) : List Event :=
  if bytes ≤ bytes % 2 ^ 32 then [] else [.fault .overrun]

/-- The faults of `ramblock_alloc`. -/
def ramblockOverruns (size : ℕ) : List Event :=
  overrunOf (ramblockCountChunks size * sizeofChunkPointer) ++
    overrunOf (ramblockCountBitmapSize (ramblockCountChunks size))

/-- `ramblock_alloc` returns a fresh, empty block or nothing, and touches no
block of the list. -/
theorem ramblockAlloc_cases (m : Mem) (baseUva size : ℕ) :
    (∃ f events, ramblockAlloc m baseUva size =
        (none, { m with failing := f, trace := m.trace ++ events }) ∧
        (m.failing = none → f = none) ∧ ∀ e ∈ events, e ∈ ramblockOverruns size) ∨
      ∃ f, ramblockAlloc m baseUva size =
        (some (ramblockNew m.nextAddr baseUva size),
          { m with
            failing := f
            nextAddr := m.nextAddr + 1
            trace := m.trace ++ ramblockOverruns size }) ∧ (m.failing = none → f = none) := by
  unfold ramblockAlloc
  obtain ⟨ok₁, f₁, h₁, none₁⟩ := m.vmalloc_eq sizeofRamblock
  rw [h₁]
  cases ok₁ with
  | false => exact .inl ⟨f₁, [], by simp, none₁, by simp⟩
  | true =>
    dsimp only
    obtain ⟨ok₂, f₂, h₂, none₂⟩ := Mem.vmalloc_eq { m with failing := f₁ }
      (ramblockCountChunks size * sizeofChunkPointer)
    rw [h₂]
    cases ok₂ with
    | false => exact .inl ⟨f₂, [], by simp, fun h => none₂ (none₁ h), by simp⟩
    | true =>
      dsimp only [Mem.access, Mem.log]
      obtain ⟨ok₃, f₃, h₃, none₃⟩ := Mem.vmalloc_eq
        { m with failing := f₂, trace := m.trace ++
            overrunOf (ramblockCountChunks size * sizeofChunkPointer) }
        (ramblockCountBitmapSize (ramblockCountChunks size))
      have none_of_none (h : m.failing = none) : f₃ = none := none₃ (none₂ (none₁ h))
      unfold overrunOf at h₃
      rw [h₃]
      cases ok₃ with
      | false => exact .inl ⟨f₃, _, rfl, none_of_none, fun e he => List.mem_append_left _ he⟩
      | true => exact .inr ⟨f₃, by simp [ramblockOverruns, overrunOf], none_of_none⟩

/-- `ramblock_add` either leaves the list alone or puts a fresh block into it. -/
theorem ramblockAdd_cases (m : Mem) (baseUva size : ℕ) :
    (∃ ret f n events, ret < 0 ∧ m.nextAddr ≤ n ∧ (m.failing = none → f = none) ∧
        (∀ e ∈ events, e ∈ ramblockOverruns size) ∧
        ramblockAdd m baseUva size =
          (ret, none, { m with failing := f, nextAddr := n, trace := m.trace ++ events })) ∨
      ∃ list f, ramblockInsert (ramblockNew m.nextAddr baseUva size) m.ramblockList = some list ∧
        (m.failing = none → f = none) ∧
        ramblockAdd m baseUva size =
          (0, some m.nextAddr,
            { m with
              ramblockList := list
              failing := f
              nextAddr := m.nextAddr + 1
              trace := m.trace ++ ramblockOverruns size }) := by
  unfold ramblockAdd
  rcases ramblockAlloc_cases m baseUva size with ⟨f, events, h, hf, hevents⟩ | ⟨f, h, hf⟩
  · rw [h]
    exact .inl ⟨_, f, _, events, by decide, le_rfl, hf, hevents, rfl⟩
  · rw [h]
    dsimp only
    cases hlist : ramblockInsert (ramblockNew m.nextAddr baseUva size) m.ramblockList with
    | none =>
      exact .inl ⟨_, f, _, _, by decide, Nat.le_succ _, hf, fun e he => he, rfl⟩
    | some list => exact .inr ⟨list, f, rfl, hf, rfl⟩

/-- Reference counting keeps the blocks where they are: a list comes from
another one by dropping blocks and by changing blocks other than in their
address ranges. -/
def Refines (list list' : List Ramblock) : Prop :=
  ∃ (kept : List Ramblock) (f : Ramblock → Ramblock), kept.Sublist list ∧ list' = kept.map f ∧
    ∀ b, (f b).addr = b.addr ∧ (f b).baseUva = b.baseUva ∧ (f b).size = b.size

theorem Refines.refl (list : List Ramblock) : Refines list list :=
  ⟨list, id, .refl _, by simp, by simp⟩

theorem refines_setBlock (m : Mem) (addr : ℕ) {f : Ramblock → Ramblock}
    (keeps : ∀ b, (f b).addr = b.addr ∧ (f b).baseUva = b.baseUva ∧ (f b).size = b.size) :
    Refines m.ramblockList (m.setBlock addr f).ramblockList := by
  refine ⟨_, _, .refl _, rfl, fun b => ?_⟩
  split_ifs
  · exact keeps b
  · simp

theorem ramblockRef_refines (m : Mem) (addr : Option ℕ) :
    Refines m.ramblockList (ramblockRef m addr).ramblockList := by
  unfold ramblockRef
  split
  · exact .refl _
  · split
    · exact .refl _
    · exact refines_setBlock m _ (by simp)

theorem ramblockDeref_refines (m : Mem) (addr : Option ℕ) :
    Refines m.ramblockList (ramblockDeref m addr).ramblockList := by
  unfold ramblockDeref
  split
  · exact .refl _
  · split
    · exact .refl _
    · split_ifs
      · exact .refl _
      · exact ⟨_, id, List.filter_sublist, (List.map_id _).symm, by simp⟩
      · exact refines_setBlock (m.log _) _ (by simp [ramblockFreeChunks])
      · exact refines_setBlock m _ (by simp)

/-- What every operation on the list keeps. -/
def RamblocksGood (list : List Ramblock) : Prop := RamblocksOrdered list ∧ RamblocksBounded list

theorem Refines.good (refines : Refines list list') (good : RamblocksGood list) :
    RamblocksGood list' := by
  obtain ⟨kept, f, sub, rfl, keeps⟩ := refines
  have hend (b : Ramblock) : (f b).endUva = b.endUva := by simp [Ramblock.endUva, keeps]
  refine ⟨(good.1.sublist sub).map (fun b => (keeps b).2.1) hend, fun b hb => ?_⟩
  obtain ⟨c, hc, rfl⟩ := List.mem_map.1 hb
  rw [hend]
  exact good.2 c (sub.subset hc)

/-- What a request to add a block must meet: its range ends inside the address
space, or else the end that the loop computes happens to lie above the start of
a block that the request overlaps. -/
def RamblockFits (list : List Ramblock) (baseUva size : ℕ) : Prop :=
  baseUva + size < word ∨ ∃ b ∈ list, b.baseUva < add64 baseUva size ∧ baseUva < b.endUva

theorem ramblockAdd_good (good : RamblocksGood m.ramblockList) (nonempty : 0 < size)
    (fits : RamblockFits m.ramblockList baseUva size) :
    RamblocksGood (ramblockAdd m baseUva size).2.2.ramblockList := by
  rcases ramblockAdd_cases m baseUva size with ⟨_, _, _, _, _, _, _, _, h⟩ | ⟨list, _, hins, _, h⟩
  · rw [h]
    exact good
  · rw [h]
    rcases fits with fits | overlap
    · have hend : (ramblockNew m.nextAddr baseUva size).endUva < word := fits
      refine ⟨ramblockInsert_ordered good.1 good.2 hend nonempty hins, fun b hb => ?_⟩
      rcases (mem_ramblockInsert hins).1 hb with rfl | hb
      · exact fits
      · exact good.2 b hb
    · rw [(ramblockInsert_eq_none_iff good.1 good.2 _).2 overlap] at hins
      cases hins

theorem ramblockAddStandalone_good (good : RamblocksGood m.ramblockList) (nonempty : 0 < size)
    (fits : RamblockFits m.ramblockList baseUva size) :
    RamblocksGood (ramblockAddStandalone m baseUva size).2.2.ramblockList := by
  have added := ramblockAdd_good good nonempty fits
  unfold ramblockAddStandalone
  split
  · rwa [‹ramblockAdd m baseUva size = _›] at added
  · rw [‹ramblockAdd m baseUva size = _›] at added
    exact (ramblockRef_refines _ _).good ((refines_setBlock _ _ (by simp)).good added)

/-! ## Every sequence of operations -/

/-- The operations on the list: registering a block, adding the disposable one
of a stand-alone mapping, and taking and dropping references. -/
inductive RamblockInput
  | add (baseUva size : ℕ)
  | addStandalone (baseUva size : ℕ)
  | ref (addr : ℕ)
  | deref (addr : ℕ)

def ramblockStep (m : Mem) : RamblockInput → Mem
  | .add baseUva size => (ramblockAdd m baseUva size).2.2
  | .addStandalone baseUva size => (ramblockAddStandalone m baseUva size).2.2
  | .ref addr => ramblockRef m (some addr)
  | .deref addr => ramblockDeref m (some addr)

/-- Added blocks have a size and do not reach the end of the address space. -/
def RamblockAllowed (m : Mem) : RamblockInput → Prop
  | .add baseUva size | .addStandalone baseUva size =>
    0 < size ∧ RamblockFits m.ramblockList baseUva size
  | .ref _ | .deref _ => True

/-- No blocks, and nothing allocated or observed yet. -/
def Mem.init (failing : Option ℕ) : Mem := ⟨[], failing, 0, []⟩

/-- The list is ordered, and a search finds exactly the block that contains an
address. -/
structure RamblockListCorrect (list : List Ramblock) : Prop where
  ordered : RamblocksOrdered list
  find_some : ∀ uva b, ramblockFind list uva = some b ↔
    b ∈ list ∧ b.baseUva ≤ uva ∧ uva < b.endUva
  find_none : ∀ uva, ramblockFind list uva = none ↔
    ∀ b ∈ list, ¬ (b.baseUva ≤ uva ∧ uva < b.endUva)

theorem RamblocksGood.correct (good : RamblocksGood list) : RamblockListCorrect list where
  ordered := good.1
  find_some uva b := by
    rw [ramblockFind_eq_search good.2, search_eq_some_iff good.1]
  find_none uva := by
    rw [ramblockFind_eq_search good.2, search_eq_none_iff good.1]
    simp [Covers]

/-- A block that reaches the end of the address space is not found at its own
first address. -/
theorem not_correct_of_wraps {b : Ramblock} (hb : b ∈ list) (nonempty : 0 < b.size)
    (base_lt : b.baseUva < word) (size_lt : b.size < word) (wraps : word ≤ b.endUva) :
    ¬ RamblockListCorrect list := by
  intro correct
  have found := (correct.find_some b.baseUva b).2 ⟨hb, le_rfl, by unfold Ramblock.endUva; omega⟩
  have hlt := (ramblockFind_some found).2.2
  rw [add64_of_le base_lt size_lt wraps] at hlt
  omega

theorem ramblockReached_good {failing : Option ℕ}
    (reached : Reached (Mem.init failing) RamblockAllowed ramblockStep m) :
    RamblocksGood m.ramblockList := by
  refine reached.invariant (I := fun m => RamblocksGood m.ramblockList)
    ⟨ordered_nil, by simp [Mem.init, RamblocksBounded]⟩ fun m input good ok => ?_
  cases input with
  | add baseUva size => exact ramblockAdd_good good ok.1 ok.2
  | addStandalone baseUva size => exact ramblockAddStandalone_good good ok.1 ok.2
  | ref addr => exact (ramblockRef_refines m _).good good
  | deref addr => exact (ramblockDeref_refines m _).good good

/-- `ramblock_add` reports an overlap exactly when there is one, and leaves a
correct list. -/
def RamblockAddCorrect (m : Mem) (baseUva size : ℕ) : Prop :=
  ((ramblockAdd m baseUva size).1 = -EINVAL ↔
      ∃ b ∈ m.ramblockList, b.baseUva < baseUva + size ∧ baseUva < b.endUva) ∧
    RamblockListCorrect (ramblockAdd m baseUva size).2.2.ramblockList

theorem ramblockAdd_eq_einval_iff (good : RamblocksGood m.ramblockList)
    (allocated : (ramblockAlloc m baseUva size).1.isSome) :
    (ramblockAdd m baseUva size).1 = -EINVAL ↔
      ∃ b ∈ m.ramblockList, b.baseUva < add64 baseUva size ∧ baseUva < b.endUva := by
  have hnone := ramblockInsert_eq_none_iff good.1 good.2 (ramblockNew m.nextAddr baseUva size)
  refine Iff.trans ?_ hnone
  unfold ramblockAdd
  rcases ramblockAlloc_cases m baseUva size with ⟨f, events, h, -⟩ | ⟨f, h, -⟩
  · rw [h] at allocated
    cases allocated
  · rw [h]
    dsimp only
    cases ramblockInsert (ramblockNew m.nextAddr baseUva size) m.ramblockList with
    | none => exact iff_of_true rfl rfl
    | some list => exact iff_of_false (by simp) (by simp)

/-- An allocated block that overlaps nothing is in the new list. -/
theorem ramblockNew_mem_ramblockAdd (allocated : (ramblockAlloc m baseUva size).1.isSome)
    (accepted : (ramblockAdd m baseUva size).1 ≠ -EINVAL) :
    ramblockNew m.nextAddr baseUva size ∈ (ramblockAdd m baseUva size).2.2.ramblockList := by
  unfold ramblockAdd at *
  rcases ramblockAlloc_cases m baseUva size with ⟨f, events, h, -⟩ | ⟨f, h, -⟩
  · rw [h] at allocated
    cases allocated
  · rw [h] at accepted ⊢
    dsimp only at *
    cases hins : ramblockInsert (ramblockNew m.nextAddr baseUva size) m.ramblockList with
    | none => simp [hins] at accepted
    | some list => exact (mem_ramblockInsert hins).2 (.inl rfl)

/-- Through any sequence of operations that all meet the condition, the list is
correct, and a further addition is handled correctly exactly when it meets the
condition as well. -/
theorem ramblockAdd_correct_iff {failing : Option ℕ} {baseUva size : ℕ}
    (reached : Reached (Mem.init failing) RamblockAllowed ramblockStep m)
    (base_lt : baseUva < word) (size_lt : size < word) (nonempty : 0 < size)
    (allocated : (ramblockAlloc m baseUva size).1.isSome) :
    RamblockListCorrect m.ramblockList ∧
      (RamblockAddCorrect m baseUva size ↔ RamblockFits m.ramblockList baseUva size) := by
  have good := ramblockReached_good reached
  have einval := ramblockAdd_eq_einval_iff good allocated
  refine ⟨good.correct, ⟨fun correct => ?_, fun fits => ⟨?_, ?_⟩⟩⟩
  · -- a wrapped request that is not refused puts a block into the list that is never found
    by_contra unfit
    obtain ⟨wraps, missed⟩ := not_or.1 unfit
    have mem := ramblockNew_mem_ramblockAdd allocated (mt einval.1 missed)
    exact not_correct_of_wraps mem nonempty base_lt size_lt (not_lt.1 wraps) correct.2
  · rw [einval]
    rcases fits with fits | overlap
    · rw [add64_of_lt fits]
    · have hle := add64_le baseUva size
      refine iff_of_true overlap (overlap.imp fun b hb => ⟨hb.1, ?_, hb.2.2⟩)
      omega
  · exact (ramblockAdd_good good nonempty fits).correct

/-- One block of a page at 64KB. -/
def oneRamblock : Mem := ramblockStep (Mem.init none) (.add 0x10000 0x1000)

theorem ramblockAdd_correct_at_oneRamblock :
    RamblockListCorrect oneRamblock.ramblockList ∧
      (RamblockAddCorrect oneRamblock 0x20000 0x1000 ↔
        RamblockFits oneRamblock.ramblockList 0x20000 0x1000) :=
  ramblockAdd_correct_iff (.step .init ⟨by decide, .inl (by decide)⟩) (by decide) (by decide)
    (by decide) (by decide)

/-- A block over the last page and the first one, past the end of the address
space, is accepted, ends up in front of the block at 64KB and is never found. -/
theorem ramblockAdd_wrapping_unsorted :
    (ramblockAdd oneRamblock (2 ^ 64 - 0x1000) 0x2000).1 = 0 ∧
      (ramblockAdd oneRamblock (2 ^ 64 - 0x1000) 0x2000).2.2.ramblockList.map Ramblock.baseUva =
        [2 ^ 64 - 0x1000, 0x10000] ∧
      ¬ RamblockListCorrect
        (ramblockAdd oneRamblock (2 ^ 64 - 0x1000) 0x2000).2.2.ramblockList := by
  refine ⟨by decide, by decide, fun correct => ?_⟩
  exact absurd correct.ordered.1 (by decide)

end Haxm
