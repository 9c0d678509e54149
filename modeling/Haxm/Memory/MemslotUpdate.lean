/-
# What the pass over the slots does to the mapping

The list of slots is a piecewise map from guest frames to places in RAM blocks.
A request that succeeds overwrites its range, or erases it. There is one
exception. If the first slot of the range lies inside the range and is not of
the same type as the request, the pass stretches that slot over the range
instead of replacing it, and the slot keeps its own block. Unless the slot is
dropped again at the end of the range, because the request continues into a
slot of its own type there, the range is then mapped to that block.
`memslotEffective` is the slot that describes where the range ends up.
-/

import Haxm.Lib.IntervalMap
import Haxm.Memory.Memslot

namespace Haxm

open Lib

/-- Where a guest frame is mapped to: a block, an offset, and the read-only bit. -/
abbrev Target := Option ℕ × ℕ × ℕ

/-- Where a slot maps a frame. -/
def Memslot.target (s : Memslot) (gfn : ℕ) : Target :=
  (s.block, s.offsetWithinBlock + pageSize4K * (gfn - s.baseGfn), s.flags &&& haxMemslotReadonly)

/-- Slots as pieces of the guest's memory map. -/
abbrev slotPieces : Pieces Memslot Target := ⟨Memslot.baseGfn, Memslot.endGfn, Memslot.target⟩

abbrev SlotsOrdered : List Memslot → Prop := Ordered Memslot.baseGfn Memslot.endGfn

variable {dest src prev s e q : Memslot} {list list' : List Memslot} {gfn : ℕ}

theorem memslotFind_eq_search (list : List Memslot) (gfn : ℕ) :
    memslotFind list gfn = search Memslot.baseGfn Memslot.endGfn gfn list := by
  induction list with
  | nil => rfl
  | cons s rest ih => simp only [memslotFind, search, ih, gt_iff_lt]

theorem mem_of_memslotFind (h : memslotFind list gfn = some s) :
    s ∈ list ∧ s.baseGfn ≤ gfn ∧ gfn < s.endGfn := by
  rw [memslotFind_eq_search] at h
  exact mem_of_search h

/-! ## Slots of the same type -/

/-- Two slots continue each other: they map the frames of both to the same
places. -/
structure SameType (dest src : Memslot) : Prop where
  block : dest.block = src.block
  offset : dest.offsetWithinBlock + 4096 * src.baseGfn =
    src.offsetWithinBlock + 4096 * dest.baseGfn
  readonly : dest.flags &&& haxMemslotReadonly = src.flags &&& haxMemslotReadonly

/-- The frame number and the offset are far from the end of their ranges. -/
def Memslot.Small (s : Memslot) : Prop := s.offsetWithinBlock < 2 ^ 60 ∧ s.baseGfn < 2 ^ 40

theorem memslotIsSameType_iff (hdest : dest.Small) (hsrc : src.Small) :
    memslotIsSameType dest src = true ↔ SameType dest src := by
  simp only [memslotIsSameType, Bool.and_eq_true, decide_eq_true_eq]
  rw [sub64_eq_shl64_sub64_iff hdest.1 hsrc.1 hdest.2 hsrc.2]
  constructor
  · rintro ⟨⟨hblock, hoffset⟩, hflags⟩
    exact ⟨hblock, hoffset, hflags⟩
  · rintro ⟨hblock, hoffset, hflags⟩
    exact ⟨⟨hblock, hoffset⟩, hflags⟩

theorem SameType.target_eq (same : SameType dest src) (hdest : dest.baseGfn ≤ gfn)
    (hsrc : src.baseGfn ≤ gfn) : dest.target gfn = src.target gfn := by
  have hoffset := same.offset
  simp only [Memslot.target, same.block, same.readonly, pageSize4K, Prod.mk.injEq, true_and,
    and_true]
  omega

/-- The union of two slots that continue each other continues both. -/
theorem SameType.union (same : SameType dest src) : SameType dest (memslotUnion dest src) := by
  have hoffset := same.offset
  refine ⟨same.block, ?_, same.readonly⟩
  simp only [memslotUnion]
  omega

theorem SameType.symm (same : SameType dest src) : SameType src dest :=
  ⟨same.block.symm, same.offset.symm, same.readonly.symm⟩

theorem SameType.trans (first : SameType s dest) (second : SameType dest src) : SameType s src := by
  have h₁ := first.offset
  have h₂ := second.offset
  exact ⟨first.block.trans second.block, by omega, first.readonly.trans second.readonly⟩

/-! ## Changes to one slot -/

@[simp] theorem memslotUnion_baseGfn :
    (memslotUnion dest src).baseGfn = min src.baseGfn dest.baseGfn := rfl

@[simp] theorem memslotUnion_endGfn :
    (memslotUnion dest src).endGfn = max src.endGfn dest.endGfn := by
  simp only [memslotUnion, Memslot.endGfn]
  omega

@[simp] theorem memslotOverlapFront_baseGfn :
    (memslotOverlapFront dest src).baseGfn = dest.endGfn := rfl

theorem memslotOverlapFront_endGfn (h : dest.endGfn ≤ src.endGfn) :
    (memslotOverlapFront dest src).endGfn = src.endGfn := by
  simp only [memslotOverlapFront, Memslot.endGfn] at *
  omega

theorem memslotOverlapFront_target (h : src.baseGfn ≤ dest.endGfn) (hgfn : dest.endGfn ≤ gfn) :
    (memslotOverlapFront dest src).target gfn = src.target gfn := by
  simp only [Memslot.target, memslotOverlapFront, pageSize4K, Prod.mk.injEq, true_and, and_true]
  omega

@[simp] theorem memslotOverlapRear_baseGfn :
    (memslotOverlapRear dest src).baseGfn = src.baseGfn := rfl

theorem memslotOverlapRear_endGfn (h : src.baseGfn ≤ dest.baseGfn) :
    (memslotOverlapRear dest src).endGfn = dest.baseGfn := by
  simp only [memslotOverlapRear, Memslot.endGfn]
  omega

@[simp] theorem memslotOverlapRear_target :
    (memslotOverlapRear dest src).target gfn = src.target gfn := rfl

/-- The range of the request, erased. -/
abbrev Erased (dest : Memslot) (list list' : List Memslot) : Prop :=
  slotPieces.Updated dest.baseGfn dest.endGfn (fun _ => none) list list'

/-- The range of the request, mapped as another slot maps it. -/
abbrev Mapped (dest content : Memslot) (list list' : List Memslot) : Prop :=
  slotPieces.Updated dest.baseGfn dest.endGfn (fun gfn => some (content.target gfn)) list list'

theorem slotsOrdered_singleton (nonempty : s.baseGfn < s.endGfn) : SlotsOrdered [s] :=
  ordered_cons.2 ⟨nonempty, by simp, ordered_nil⟩

theorem erased_apart (nonempty : s.baseGfn < s.endGfn)
    (apart : s.endGfn ≤ dest.baseGfn ∨ dest.endGfn ≤ s.baseGfn) : Erased dest [s] [s] :=
  Pieces.updated_of_apart (slotsOrdered_singleton nonempty) (by simpa using apart)

theorem erased_inside (first : dest.baseGfn ≤ s.baseGfn) (last : s.endGfn ≤ dest.endGfn) :
    Erased dest [s] [] := by
  refine ⟨ordered_nil, fun gfn t => ?_⟩
  split_ifs
  · simp
  · simp only [Pieces.maps_nil, Pieces.maps_cons, or_false, false_iff]
    omega

theorem erased_front (first : dest.baseGfn ≤ s.baseGfn) (inside : s.baseGfn < dest.endGfn)
    (last : dest.endGfn < s.endGfn) : Erased dest [s] [memslotOverlapFront dest s] := by
  have hend : (memslotOverlapFront dest s).endGfn = s.endGfn := memslotOverlapFront_endGfn last.le
  refine ⟨slotsOrdered_singleton (by simpa [hend] using last), fun gfn t => ?_⟩
  simp only [Pieces.maps_cons, Pieces.maps_nil, or_false, memslotOverlapFront_baseGfn, hend]
  split_ifs with hin
  · simp only [iff_false]
    omega
  · constructor
    · rintro ⟨h, rfl⟩
      exact ⟨by omega, (memslotOverlapFront_target inside.le h.1).symm⟩
    · rintro ⟨h, rfl⟩
      exact ⟨by omega, memslotOverlapFront_target inside.le (by omega)⟩

theorem erased_rear (first : s.baseGfn < dest.baseGfn) (inside : dest.baseGfn ≤ s.endGfn)
    (last : s.endGfn ≤ dest.endGfn) : Erased dest [s] [memslotOverlapRear dest s] := by
  have hend : (memslotOverlapRear dest s).endGfn = dest.baseGfn :=
    memslotOverlapRear_endGfn first.le
  refine ⟨slotsOrdered_singleton (by simpa [hend] using first), fun gfn t => ?_⟩
  simp only [Pieces.maps_cons, Pieces.maps_nil, or_false, memslotOverlapRear_baseGfn, hend,
    memslotOverlapRear_target]
  split_ifs with hin
  · simp only [iff_false]
    omega
  · exact and_congr_left fun _ => by omega

/-- A slot that contains the range is cut in two. -/
theorem erased_split (nonempty : dest.baseGfn < dest.endGfn) (first : s.baseGfn < dest.baseGfn)
    (last : dest.endGfn < s.endGfn) :
    Erased dest [s] [memslotOverlapRear dest s, memslotOverlapFront dest s] := by
  have hrear : (memslotOverlapRear dest s).endGfn = dest.baseGfn :=
    memslotOverlapRear_endGfn first.le
  have hfront : (memslotOverlapFront dest s).endGfn = s.endGfn :=
    memslotOverlapFront_endGfn last.le
  refine ⟨ordered_cons.2 ⟨by simpa [hrear] using first, by simpa [hrear] using nonempty.le,
    slotsOrdered_singleton (by simpa [hfront] using last)⟩, fun gfn t => ?_⟩
  simp only [Pieces.maps_cons, Pieces.maps_nil, or_false, memslotOverlapRear_baseGfn, hrear,
    memslotOverlapRear_target, memslotOverlapFront_baseGfn, hfront]
  split_ifs with hin
  · simp only [iff_false]
    omega
  · constructor
    · rintro (⟨h, rfl⟩ | ⟨h, rfl⟩)
      · exact ⟨by omega, rfl⟩
      · exact ⟨by omega, (memslotOverlapFront_target (by omega) h.1).symm⟩
    · rintro ⟨h, rfl⟩
      by_cases hlt : gfn < dest.baseGfn
      · exact .inl ⟨by omega, rfl⟩
      · exact .inr ⟨by omega, memslotOverlapFront_target (by omega) (by omega)⟩

/-- Extending a slot of the same type over the range maps the range. -/
theorem mapped_union (same : SameType dest s) (nonempty : dest.baseGfn < dest.endGfn)
    (first : dest.baseGfn ≤ s.endGfn) (last : s.baseGfn ≤ dest.endGfn) :
    Mapped dest dest [s] [memslotUnion dest s] := by
  have hunion := same.union
  refine ⟨slotsOrdered_singleton (by simp; omega), fun gfn t => ?_⟩
  simp only [Pieces.maps_cons, Pieces.maps_nil, or_false, memslotUnion_baseGfn,
    memslotUnion_endGfn, Option.some.injEq]
  split_ifs with hin
  · rw [hunion.target_eq hin.1 (by simp; omega)]
    exact and_iff_right (by omega)
  · constructor
    · rintro ⟨h, rfl⟩
      exact ⟨by omega, (same.symm.trans hunion).target_eq (by omega) (by simp; omega)⟩
    · rintro ⟨h, rfl⟩
      exact ⟨by omega, (hunion.symm.trans same).target_eq (by simp; omega) h.1⟩

/-- Nothing is to be done in a slot of the same type that contains the range. -/
theorem mapped_covered (same : SameType dest s) (nonempty : dest.baseGfn < dest.endGfn)
    (first : s.baseGfn ≤ dest.baseGfn) (last : dest.endGfn ≤ s.endGfn) :
    Mapped dest dest [s] [s] := by
  refine ⟨slotsOrdered_singleton (by omega), fun gfn t => ?_⟩
  simp only [Pieces.maps_cons, Pieces.maps_nil, or_false, Option.some.injEq]
  split_ifs with hin
  · rw [same.target_eq hin.1 (by omega)]
    exact and_iff_right (by omega)
  · rfl

/-- The slot that cases (4)(5)(7)(8) leave in place of a slot `s` inside the
range: it has the range of the request and the block of `s`. -/
def memslotStretched (dest s : Memslot) : Memslot :=
  { dest with
    block := s.block
    offsetWithinBlock := min s.offsetWithinBlock dest.offsetWithinBlock }

theorem memslotUnion_eq_stretched (first : dest.baseGfn ≤ s.baseGfn)
    (last : s.endGfn ≤ dest.endGfn) :
    { memslotUnion dest s with flags := dest.flags } = memslotStretched dest s := by
  simp only [memslotUnion, memslotStretched, Memslot.mk.injEq, and_true]
  unfold Memslot.endGfn at *
  omega

theorem mapped_stretched (nonempty : dest.baseGfn < dest.endGfn)
    (first : dest.baseGfn ≤ s.baseGfn) (last : s.endGfn ≤ dest.endGfn) :
    Mapped dest (memslotStretched dest s) [s] [memslotStretched dest s] := by
  have erased : Erased dest [s] ([] ++ []) := erased_inside first last
  exact erased.insert (a := memslotStretched dest s) rfl rfl nonempty (by simp) (by simp)

/-- Merging the slot that ends the range with the one that covers it. -/
theorem mapped_merge {slots : List Memslot} (mapped : Mapped dest dest slots [q])
    (same_q : SameType dest q) (same_e : SameType dest e) (hfirst : q.baseGfn ≤ dest.baseGfn)
    (hq : q.endGfn = dest.endGfn) (nonempty : dest.baseGfn < dest.endGfn)
    (first : dest.baseGfn ≤ e.baseGfn) (inside : e.baseGfn ≤ dest.endGfn)
    (last : dest.endGfn ≤ e.endGfn) :
    Mapped dest dest (slots ++ [e]) [memslotUnion q e] := by
  have same : SameType q e := same_q.symm.trans same_e
  have hunion := same.union
  refine ⟨slotsOrdered_singleton (by simp; omega), fun gfn t => ?_⟩
  have old := mapped.maps gfn t
  simp only [Pieces.maps_append, Pieces.maps_cons, Pieces.maps_nil, or_false,
    memslotUnion_baseGfn, memslotUnion_endGfn, Option.some.injEq] at old ⊢
  split_ifs at old ⊢ with hin
  · rw [(same_q.trans hunion).target_eq hin.1 (by simp; omega)]
    exact and_iff_right (by omega)
  · rw [← old]
    constructor
    · rintro ⟨h, rfl⟩
      by_cases hlt : gfn < dest.baseGfn
      · exact .inl ⟨by omega, hunion.target_eq (by omega) (by simp; omega)⟩
      · exact .inr ⟨by omega, (same.symm.trans hunion).target_eq (by omega) (by simp; omega)⟩
    · rintro (⟨h, rfl⟩ | ⟨h, rfl⟩)
      · exact ⟨by omega, hunion.symm.target_eq (by simp; omega) (by omega)⟩
      · exact ⟨by omega, (hunion.symm.trans same).target_eq (by simp; omega) (by omega)⟩

/-! ## The first slot of the range -/

variable {m m' : Mem} {w w' : Walk} {isValid : Bool} {after : List Memslot} {content : Memslot}
  {rest : List Memslot}

/-- What a request maps its range to: as the slot `content` does, or not at all. -/
def mapping (isValid : Bool) (content : Memslot) (gfn : ℕ) : Option Target :=
  if isValid then some (content.target gfn) else none

theorem mapping_true (content : Memslot) :
    mapping true content = fun gfn => some (content.target gfn) := rfl

theorem mapping_false (content : Memslot) : mapping false content = fun _ => none := rfl

/-- The slot that is still to be inserted. -/
def pendingSlot (toInsert : Bool) (dest : Memslot) : List Memslot := if toInsert then [dest] else []

@[simp] theorem pendingSlot_true (dest : Memslot) : pendingSlot true dest = [dest] := rfl

@[simp] theorem pendingSlot_false (dest : Memslot) : pendingSlot false dest = [] := rfl

@[simp] theorem pendingSlot_reverse (toInsert : Bool) (dest : Memslot) :
    (pendingSlot toInsert dest).reverse = pendingSlot toInsert dest := by
  cases toInsert <;> rfl

/-- The request puts its own slot, if it has one, where its range was erased. -/
theorem Erased.put {l₁ l₂ : List Memslot} (erased : Erased dest list (l₁ ++ l₂))
    (range : dest.baseGfn < dest.endGfn) (before : ∀ q ∈ l₁, q.endGfn ≤ dest.baseGfn)
    (behind : ∀ q ∈ l₂, dest.endGfn ≤ q.baseGfn) :
    slotPieces.Updated dest.baseGfn dest.endGfn (mapping isValid dest) list
      (l₁ ++ (pendingSlot isValid dest ++ l₂)) := by
  cases isValid with
  | true => exact erased.insert rfl rfl range before behind
  | false => exact erased

theorem memslotDup_cases (m : Mem) (s : Memslot) :
    ∃ m', memslotDup m s = (none, m') ∨ memslotDup m s = (some s, m') := by
  unfold memslotDup
  rcases m.vmalloc sizeofMemslot with ⟨_ | _, m'⟩
  · exact ⟨m', .inl rfl⟩
  · exact ⟨_, .inr rfl⟩

/-- The memory after a slot was copied, if it was to be copied. -/
def CopyOf (copies : Bool) (m : Mem) (s : Memslot) (m' : Mem) : Prop :=
  if copies then memslotDup m s = (some s, m') else m' = m

section StartStep

variable (isValid : Bool) (w : Walk) (dest s : Memslot)

/-- What the pass does to the first slot `s` of the range. -/
inductive StartStep : ℤ × Walk × List Memslot → Prop
  | refused {m : Mem} {new : Memslot} (dup : memslotDup w.mem new = (none, m))
      (ends : dest.endGfn ≤ s.baseGfn ∨ dest.endGfn < s.endGfn) :
      StartStep (-ENOMEM, { w with mem := m }, [s])
  | refusedRest {m m' : Mem} (dup : CopyOf isValid w.mem dest m)
      (refused : memslotDup m (memslotRest dest s) = (none, m')) (ends : dest.endGfn < s.endGfn) :
      StartStep (-ENOMEM, { w with mem := m' }, s :: pendingSlot isValid dest)
  | before {m : Mem} (dup : CopyOf isValid w.mem dest m) (apart : dest.endGfn ≤ s.baseGfn) :
      StartStep (0, { w with mem := m, passed := pendingSlot isValid dest ++ w.passed }, [s])
  | covered (valid : isValid = true) (same : memslotIsSameType dest s = true)
      (starts : s.baseGfn ≤ dest.baseGfn) (ends : dest.endGfn ≤ s.endGfn) : StartStep (0, w, [s])
  | union (valid : isValid = true) (same : memslotIsSameType dest s = true)
      (reaches : s.baseGfn ≤ dest.endGfn) : StartStep (0, w, [memslotUnion dest s])
  | front {m : Mem} (dup : CopyOf isValid w.mem dest m) (starts : dest.baseGfn ≤ s.baseGfn)
      (inside : s.baseGfn < dest.endGfn) (ends : dest.endGfn < s.endGfn) :
      StartStep (0, { w with mem := m, passed := pendingSlot isValid dest ++ w.passed },
        [memslotOverlapFront dest s])
  | stretch (valid : isValid = true) (differs : memslotIsSameType dest s = false)
      (starts : dest.baseGfn ≤ s.baseGfn) (ends : s.endGfn ≤ dest.endGfn) :
      StartStep (0, w, [memslotStretched dest s])
  | erase (invalid : isValid = false) (starts : dest.baseGfn ≤ s.baseGfn)
      (ends : s.endGfn ≤ dest.endGfn) : StartStep (0, w.drop s, [])
  | split {m m' : Mem} (dup : CopyOf isValid w.mem dest m)
      (rest : memslotDup m (memslotRest dest s) = (some (memslotRest dest s), m'))
      (starts : s.baseGfn < dest.baseGfn) (ends : dest.endGfn < s.endGfn) :
      StartStep (0, { w with mem := m' },
        [memslotOverlapRear dest s] ++ (pendingSlot isValid dest ++ [memslotRest dest s]))
  | rear (differs : isValid = true → memslotIsSameType dest s = false)
      (starts : s.baseGfn < dest.baseGfn) (inside : dest.baseGfn < s.endGfn)
      (ends : s.endGfn ≤ dest.endGfn) :
      StartStep (0, { w with toInsert := isValid || w.toInsert }, [memslotOverlapRear dest s])
  | behind (differs : isValid = true → memslotIsSameType dest s = false)
      (apart : dest.baseGfn = s.endGfn) :
      StartStep (0, { w with toInsert := isValid && s.endGfn ≤ dest.endGfn || w.toInsert }, [s])

variable {isValid w dest s}

theorem insertBefore_step (apart : dest.endGfn ≤ s.baseGfn) :
    StartStep true w dest s (w.insertBefore dest [s]) := by
  unfold Walk.insertBefore
  obtain ⟨m, dup | dup⟩ := memslotDup_cases w.mem dest <;> rw [dup]
  · exact .refused dup (.inl apart)
  · exact .before dup apart

theorem memslotProcessStartDiffType_step (differs : memslotIsSameType dest s = false)
    (found : dest.baseGfn ≤ s.endGfn) :
    StartStep true w dest s (memslotProcessStartDiffType w dest s) := by
  unfold memslotProcessStartDiffType memslotProcessStartInside memslotAppendRest
  by_cases apart : dest.endGfn ≤ s.baseGfn
  · rw [if_pos apart]
    exact insertBefore_step apart
  rw [if_neg apart]
  by_cases starts : dest.baseGfn ≤ s.baseGfn
  · rw [if_pos starts]
    split_ifs with ends
    · obtain ⟨m, dup | dup⟩ := memslotDup_cases w.mem dest <;> rw [dup]
      · exact .refused dup (.inr ends)
      · exact .front dup starts (not_le.1 apart) ends
    · rw [memslotUnion_eq_stretched starts (not_lt.1 ends)]
      exact .stretch rfl differs starts (not_lt.1 ends)
  rw [if_neg starts]
  by_cases inside : dest.baseGfn < s.endGfn
  · rw [if_pos inside]
    by_cases ends : dest.endGfn < s.endGfn
    · rw [if_pos ends, if_neg (not_le.2 ends)]
      obtain ⟨m, dup | dup⟩ := memslotDup_cases w.mem dest <;> rw [dup]
      · exact .refused dup (.inr ends)
      · obtain ⟨m', rest | rest⟩ := memslotDup_cases m (memslotRest dest s) <;> simp only [rest]
        · exact .refusedRest dup rest ends
        · exact .split dup rest (not_le.1 starts) ends
    · rw [if_neg ends, if_pos (not_lt.1 ends)]
      exact .rear (fun _ => differs) (not_le.1 starts) inside (not_lt.1 ends)
  · have step : StartStep true w dest s _ := .behind (fun _ => differs) (by omega)
    rw [if_neg inside]
    split_ifs with ends <;> simpa [ends] using step

theorem memslotProcessStart_step {r : ℤ × Walk × List Memslot} (found : dest.baseGfn ≤ s.endGfn)
    (h : memslotProcessStart isValid w dest s = r) : StartStep isValid w dest s r := by
  subst h
  unfold memslotProcessStart
  split_ifs with valid same
  · subst valid
    unfold memslotProcessStartSameType
    split_ifs with before covered
    · exact insertBefore_step before.le
    · exact .covered rfl same covered.1 covered.2
    · exact .union rfl same (not_lt.1 before)
  · subst valid
    exact memslotProcessStartDiffType_step (by simpa using same) found
  · obtain rfl : isValid = false := by simpa using valid
    unfold memslotProcessStartInvalid memslotAppendRest
    split_ifs with apart starts ends ends
    · rcases apart with apart | apart
      · exact .before rfl apart
      · exact .behind (by simp) apart
    · exact .front rfl starts (by omega) ends
    · exact .erase rfl starts (not_lt.1 ends)
    · obtain ⟨m, dup | dup⟩ := memslotDup_cases w.mem (memslotRest dest s) <;> rw [dup]
      · exact .refused dup (.inr ends)
      · exact .split rfl dup (not_le.1 starts) ends
    · exact .rear (by simp) (by omega) (by omega) (not_lt.1 ends)

/-- Dealing with the first slot makes no copies, and leaves the flags alone but that
`MEMSLOT_TO_INSERT` may be set if the range goes on behind the slot. -/
theorem StartStep.keeps {ret : ℤ} (step : StartStep isValid w dest s (ret, w', after)) :
    w'.snapshot = w.snapshot ∧ w'.processing = w.processing ∧
      (dest.endGfn < s.endGfn → w'.toInsert = w.toInsert) := by
  cases step with
  | rear _ _ _ ends => exact ⟨rfl, rfl, fun h => absurd h ends.not_gt⟩
  | behind => exact ⟨rfl, rfl, fun h => by simp [h]⟩
  | _ => exact ⟨rfl, rfl, fun _ => rfl⟩

end StartStep

/-- How the first slot `s` of the range is left if the range reaches its end:
what is in its place, what the range is mapped to so far, and whether a slot for
the range is still to be inserted. -/
inductive Started (isValid : Bool) (dest s : Memslot) : Memslot → Bool → List Memslot → Prop
  | replace {content : Memslot} {slots : List Memslot} (erased : Erased dest [s] slots)
      (before : ∀ q ∈ slots, q.endGfn ≤ dest.baseGfn)
      (differs : isValid = true → memslotIsSameType dest s = false) (wanted : isValid = true →
        content = dest ∧ ∃ q, slots = [q] ∧ q.Small ∧ ¬ SameType dest q) :
      Started isValid dest s content isValid slots
  | extend {q : Memslot} (valid : isValid = true) (mapped : Mapped dest dest [s] [q])
      (same : SameType dest q) (first : q.baseGfn ≤ dest.baseGfn) (last : q.endGfn = dest.endGfn)
      (small : q.Small) : Started isValid dest s dest false [q]
  | stretch (valid : isValid = true) (first : dest.baseGfn ≤ s.baseGfn)
      (last : s.endGfn ≤ dest.endGfn) :
      Started isValid dest s (memslotStretched dest s) false [memslotStretched dest s]

/-- Where the range is mapped if the pass stops at its first slot `s`. -/
def memslotContent (dest s : Memslot) : Memslot :=
  if dest.baseGfn ≤ s.baseGfn ∧ s.endGfn ≤ dest.endGfn ∧ memslotIsSameType dest s = false
  then memslotStretched dest s else dest

theorem Memslot.Small.union (hsrc : src.Small) : (memslotUnion dest src).Small := by
  have h₁ := hsrc.1
  have h₂ := hsrc.2
  simp only [Memslot.Small, memslotUnion]
  omega

theorem StartStep.started (step : StartStep isValid w dest s (0, w', after))
    (nonempty : s.baseGfn < s.endGfn) (range : dest.baseGfn < dest.endGfn)
    (small_dest : dest.Small) (small : s.Small) (found : dest.baseGfn ≤ s.endGfn)
    (reaches : s.endGfn ≤ dest.endGfn) (waiting : w.toInsert = false) :
    Started isValid dest s (memslotContent dest s) w'.toInsert after ∧ w'.passed = w.passed := by
  have hsame := memslotIsSameType_iff small_dest small
  cases step with
  | before _ apart => omega
  | covered valid same starts ends =>
    have hcontent : memslotContent dest s = dest := by simp [memslotContent, same]
    rw [hcontent, waiting]
    exact ⟨.extend valid (mapped_covered (hsame.1 same) range starts ends) (hsame.1 same) starts
      (by omega) small, rfl⟩
  | union valid same inside =>
    have hcontent : memslotContent dest s = dest := by simp [memslotContent, same]
    rw [hcontent, waiting]
    exact ⟨.extend valid (mapped_union (hsame.1 same) range found inside) (hsame.1 same).union
      (by simp) (by simp [reaches]) small.union, rfl⟩
  | front _ _ _ ends => omega
  | stretch valid differs starts =>
    have hcontent : memslotContent dest s = memslotStretched dest s := by
      simp [memslotContent, differs, starts, reaches]
    rw [hcontent, waiting]
    exact ⟨.stretch valid starts reaches, rfl⟩
  | erase invalid starts =>
    subst invalid
    refine ⟨?_, rfl⟩
    show Started _ _ _ _ w.toInsert _
    rw [waiting]
    exact .replace (erased_inside starts reaches) (by simp) (by simp) (by simp)
  | split _ _ _ ends => omega
  | rear differs starts =>
    rw [waiting, Bool.or_false]
    refine ⟨.replace (erased_rear starts found reaches) ?_ differs
      fun valid => ⟨?_, _, rfl, small, ?_⟩, rfl⟩
    · simpa using (memslotOverlapRear_endGfn starts.le).le
    · simp [memslotContent, not_le.2 starts]
    · rintro ⟨hblock, hoffset, hreadonly⟩
      simpa [differs valid] using hsame.2 ⟨hblock, hoffset, hreadonly⟩
  | behind differs apart =>
    rw [waiting, decide_eq_true reaches, Bool.and_true, Bool.or_false]
    refine ⟨.replace (erased_apart nonempty (.inl apart.ge)) (by simpa using apart.ge) differs
      fun valid => ⟨?_, s, rfl, small, ?_⟩, rfl⟩
    · simp [memslotContent, apart, nonempty]
    · simp [← hsame, differs valid]

/-- If the range ends inside its first slot `s`, that slot is all there is to
change. -/
theorem StartStep.updated (step : StartStep isValid w dest s (0, w', after))
    (nonempty : s.baseGfn < s.endGfn) (range : dest.baseGfn < dest.endGfn)
    (small_dest : dest.Small) (small : s.Small) (ends : dest.endGfn < s.endGfn) :
    ∃ front, w'.passed = front ++ w.passed ∧
      slotPieces.Updated dest.baseGfn dest.endGfn (mapping isValid dest) [s]
        (front.reverse ++ after) := by
  have hsame := memslotIsSameType_iff small_dest small
  cases step with
  | before _ apart =>
    have erased : Erased dest [s] ([] ++ [s]) := erased_apart nonempty (.inr apart)
    refine ⟨_, rfl, ?_⟩
    rw [pendingSlot_reverse]
    exact erased.put range (by simp) (by simpa using apart)
  | covered valid same starts =>
    subst valid
    exact ⟨[], rfl, mapped_covered (hsame.1 same) range starts ends.le⟩
  | union valid same reaches =>
    subst valid
    exact ⟨[], rfl, mapped_union (hsame.1 same) range (by omega) reaches⟩
  | front _ starts inside =>
    have erased : Erased dest [s] ([] ++ [memslotOverlapFront dest s]) :=
      erased_front starts inside ends
    refine ⟨_, rfl, ?_⟩
    rw [pendingSlot_reverse]
    exact erased.put range (by simp) (by simp)
  | stretch _ _ _ last => omega
  | erase _ _ last => omega
  | split _ _ starts =>
    have erased : Erased dest [s] ([memslotOverlapRear dest s] ++ [memslotOverlapFront dest s]) :=
      erased_split range starts ends
    refine ⟨[], rfl, erased.put range ?_ (by simp)⟩
    simpa using (memslotOverlapRear_endGfn starts.le).le
  | rear _ _ _ last => omega
  | behind _ apart => omega

/-! ## The last slot of the range -/

/-- What is left of a slot `e` at the end of the range. -/
def memslotTail (dest e : Memslot) : List Memslot :=
  if dest.endGfn < e.endGfn then
    if e.baseGfn < dest.endGfn then [memslotOverlapFront dest e] else [e]
  else []

theorem erased_tail (nonempty : e.baseGfn < e.endGfn) (first : dest.baseGfn ≤ e.baseGfn)
    (last : dest.endGfn ≤ e.endGfn) : Erased dest [e] (memslotTail dest e) := by
  unfold memslotTail
  split_ifs with hlast hfirst
  · exact erased_front first hfirst hlast
  · exact erased_apart nonempty (by omega)
  · exact erased_inside first (by omega)

theorem tail_behind (slot : Memslot) (h : slot ∈ memslotTail dest e) :
    dest.endGfn ≤ slot.baseGfn := by
  unfold memslotTail at h
  split_ifs at h <;> simp at h <;> subst h
  · exact le_rfl
  · omega

/-- Whether the request continues into the slot `e`. -/
def memslotContinues (dest e : Memslot) : Bool :=
  e.baseGfn ≤ dest.endGfn && dest.endGfn < e.endGfn && memslotIsSameType dest e

theorem not_continues_of_le (h : e.endGfn ≤ dest.endGfn) : memslotContinues dest e = false := by
  simp [memslotContinues, not_lt.2 h]

theorem stretched_small (small_dest : dest.Small) : (memslotStretched dest s).Small := by
  have h₁ := small_dest.1
  have h₂ := small_dest.2
  simp only [Memslot.Small, memslotStretched]
  omega

section EndStep

variable (isValid : Bool) (w : Walk) (dest e : Memslot)

/-- What the pass does to the last slot `e` of the range. -/
inductive EndStep : ℤ × Walk × List Memslot → Prop
  | refused {m : Mem} (waits : w.toInsert = true) (ends : dest.endGfn < e.endGfn)
      (dup : memslotDup w.mem dest = (none, m)) :
      EndStep (-ENOMEM, { w with mem := m }, memslotTail dest e)
  | overrun (valid : isValid = true) (alone : w.passed = []) :
      EndStep (0, { w with mem := w.mem.fault .overrun, passed := [] }, [e])
  | join {prev : Memslot} {passed : List Memslot} (valid : isValid = true)
      (waits : w.toInsert = true) (same : memslotIsSameType dest e = true)
      (last : w.passed = prev :: passed) :
      EndStep (0, w, [memslotUnion (if memslotIsSameType dest prev then prev else dest) e])
  | merge {prev : Memslot} {passed : List Memslot} (valid : isValid = true)
      (waits : w.toInsert = false) (same : memslotIsSameType dest e = true)
      (last : w.passed = prev :: passed) (ends : dest.endGfn ≠ e.endGfn) :
      EndStep (0, { w.drop prev with passed },
        [memslotUnion (if memslotIsSameType dest prev then prev else dest) e])
  | leave (invalid : isValid = false) (apart : dest.endGfn = e.baseGfn) : EndStep (0, w, [e])
  | cut {m : Mem} (dup : CopyOf (isValid && w.toInsert) w.mem dest m)
      (stops : isValid = true → memslotContinues dest e = false) (ends : dest.endGfn < e.endGfn) :
      EndStep
        (0, { w with mem := m, passed := pendingSlot (isValid && w.toInsert) dest ++ w.passed },
          memslotTail dest e)
  | drop (stops : isValid = true → memslotContinues dest e = false)
      (ends : e.endGfn ≤ dest.endGfn) :
      EndStep (0, if isValid && w.toInsert
          then { w.drop e with mem := ramblockRef (w.drop e).mem dest.block } else w.drop e,
        pendingSlot (isValid && w.toInsert) dest)

variable {isValid w dest e}

theorem memslotProcessEndSameType_step (same : memslotIsSameType dest e = true) :
    EndStep true w dest e (memslotProcessEndSameType w dest e) := by
  unfold memslotProcessEndSameType
  by_cases done : dest.endGfn = e.endGfn ∧ w.toInsert = false
  · have step : EndStep true w dest e _ := .drop (fun _ => not_continues_of_le done.1.ge) done.1.ge
    rw [if_pos done]
    simpa [done.2, pendingSlot] using step
  rw [if_neg done]
  cases last : w.passed with
  | nil => exact .overrun rfl last
  | cons prev passed =>
    dsimp only
    cases waits : w.toInsert with
    | true => exact .join rfl waits same last
    | false => exact .merge rfl waits same last fun ends => done ⟨ends, waits⟩

theorem memslotProcessEndDiffType_step (differs : memslotIsSameType dest e = false) :
    EndStep true w dest e (memslotProcessEndDiffType w dest e) := by
  have stops (_ : true = true) : memslotContinues dest e = false := by
    simp [memslotContinues, differs]
  have eq : memslotProcessEndDiffType w dest e =
      if dest.endGfn < e.endGfn then
        if w.toInsert then w.insertBefore dest (memslotTail dest e) else (0, w, memslotTail dest e)
      else if w.toInsert then
        (0, { w.drop e with mem := ramblockRef (w.drop e).mem dest.block }, [dest])
      else (0, w.drop e, []) := by
    unfold memslotProcessEndDiffType memslotTail
    split_ifs <;> rfl
  rw [eq, Walk.insertBefore]
  split_ifs with ends waits waits
  · obtain ⟨m, dup | dup⟩ := memslotDup_cases w.mem dest <;> rw [dup]
    · exact .refused waits ends dup
    · have step : EndStep true w dest e _ := .cut (by rw [waits]; exact dup) stops ends
      simpa [waits] using step
  · have idle : (true && w.toInsert) = false := by simpa using waits
    have step : EndStep true w dest e _ := .cut (m := w.mem) (by rw [idle]; rfl) stops ends
    rwa [idle] at step
  · have step : EndStep true w dest e _ := .drop stops (not_lt.1 ends)
    simpa [waits] using step
  · have step : EndStep true w dest e _ := .drop stops (not_lt.1 ends)
    simpa [waits] using step

theorem memslotProcessEnd_step {r : ℤ × Walk × List Memslot} (inside : e.baseGfn ≤ dest.endGfn)
    (h : memslotProcessEnd isValid w dest e = r) : EndStep isValid w dest e r := by
  subst h
  unfold memslotProcessEnd
  split_ifs with valid same
  · subst valid
    exact memslotProcessEndSameType_step same
  · subst valid
    exact memslotProcessEndDiffType_step (by simpa using same)
  · obtain rfl : isValid = false := by simpa using valid
    unfold memslotProcessEndInvalid
    split_ifs with apart ends
    · exact .leave rfl apart
    · have step : EndStep false w dest e _ := .cut rfl (by simp) ends
      simpa [memslotTail, ends, lt_of_le_of_ne inside (Ne.symm apart)] using step
    · exact .drop (by simp) (not_lt.1 ends)

end EndStep

theorem Started.done_updated {toInsert : Bool}
    (started : Started isValid dest s content toInsert list)
    (range : dest.baseGfn < dest.endGfn) :
    slotPieces.Updated dest.baseGfn dest.endGfn (mapping isValid content) [s]
      (list ++ pendingSlot toInsert dest) := by
  cases started with
  | replace erased before _ wanted =>
    have erased : Erased dest [s] (list ++ []) := by simpa using erased
    have same : mapping isValid content = mapping isValid dest := by
      cases isValid with
      | true => rw [(wanted rfl).1]
      | false => rfl
    rw [same]
    simpa using erased.put range before (by simp)
  | extend valid mapped =>
    subst valid
    simpa [mapping_true] using mapped
  | stretch valid hfirst hlast =>
    subst valid
    exact mapped_stretched range hfirst hlast

/-- The range has been mapped up to the slot `e`, and that slot is cut off. -/
theorem Started.cut_updated {toInsert : Bool}
    (started : Started isValid dest s content toInsert list) (ordered : SlotsOrdered [s, e])
    (range : dest.baseGfn < dest.endGfn) (first : dest.baseGfn ≤ e.baseGfn)
    (last : dest.endGfn ≤ e.endGfn) :
    slotPieces.Updated dest.baseGfn dest.endGfn (mapping isValid content) [s, e]
      (list ++ pendingSlot toInsert dest ++ memslotTail dest e) := by
  have hold : SlotsOrdered ([s] ++ [e]) := ordered
  exact (started.done_updated range).append_erased
    (erased_tail (ordered.2 e (by simp)) first last) hold tail_behind

@[simp] theorem drop_passed (w : Walk) (s : Memslot) : (w.drop s).passed = w.passed := rfl

@[simp] theorem drop_toInsert (w : Walk) (s : Memslot) : (w.drop s).toInsert = w.toInsert := rfl

theorem EndStep.updated {toInsert : Bool} (step : EndStep isValid w dest e (0, w', after))
    (started : Started isValid dest s content toInsert list) (hinsert : w.toInsert = toInsert)
    (hpassed : w.passed = list.reverse ++ rest) (ordered : SlotsOrdered [s, e])
    (range : dest.baseGfn < dest.endGfn) (small_dest : dest.Small) (small : e.Small)
    (first : dest.baseGfn ≤ e.baseGfn) (inside : e.baseGfn ≤ dest.endGfn)
    (last : dest.endGfn ≤ e.endGfn) :
    ∃ front, w'.passed = front ++ rest ∧
      slotPieces.Updated dest.baseGfn dest.endGfn
        (mapping isValid (if memslotContinues dest e then dest else content)) [s, e]
        (front.reverse ++ after) := by
  have hsame := memslotIsSameType_iff small_dest small
  have cut := started.cut_updated ordered range first last
  have waiting : (isValid && w.toInsert) = toInsert := by
    rw [hinsert]
    cases started <;> simp
  have stopped (stops : isValid = true → memslotContinues dest e = false) :
      mapping isValid (if memslotContinues dest e then dest else content) =
        mapping isValid content := by
    cases isValid with
    | true => rw [stops rfl]; rfl
    | false => rfl
  cases step with
  | overrun valid alone =>
    cases started with
    | replace _ _ _ wanted =>
      obtain ⟨-, q, rfl, -⟩ := wanted valid
      simp [alone] at hpassed
    | _ => simp [alone] at hpassed
  | join valid waits same front =>
    -- the request is merged into `e`, behind what is left of `s`
    obtain rfl := waits.symm.trans hinsert
    cases started with
    | replace erased before _ wanted =>
    obtain ⟨rfl, q, rfl, small_q, differs⟩ := wanted rfl
    obtain ⟨rfl, -⟩ : q = _ ∧ rest = _ := by simpa using hpassed.symm.trans front
    rw [ite_self, if_neg ((memslotIsSameType_iff small_dest small_q).not.2 differs)]
    have hold : SlotsOrdered ([s] ++ [e]) := ordered
    refine ⟨[q], by simpa using hpassed, ?_⟩
    exact (mapped_union (hsame.1 same) range (by omega) inside).prepend_erased erased hold before
  | merge valid waits same front ends =>
    obtain rfl := waits.symm.trans hinsert
    subst valid
    have continues : memslotContinues dest e = true := by
      simp [memslotContinues, inside, same, lt_of_le_of_ne last ends]
    rw [if_pos continues]
    cases started with
    | @extend q _ mapped same_q hfirst hlast small_q =>
      obtain ⟨rfl, rfl⟩ : q = _ ∧ rest = _ := by simpa using hpassed.symm.trans front
      rw [if_pos ((memslotIsSameType_iff small_dest small_q).2 same_q)]
      exact ⟨[], rfl,
        mapped_merge mapped same_q (hsame.1 same) hfirst hlast range first inside last⟩
    | stretch _ hfirst hlast =>
      obtain ⟨rfl, rfl⟩ : memslotStretched dest s = _ ∧ rest = _ := by
        simpa using hpassed.symm.trans front
      refine ⟨[], rfl, ?_⟩
      split_ifs with htype
      · have same_q := (memslotIsSameType_iff small_dest (stretched_small small_dest)).1 htype
        have mapped : Mapped dest dest [s] [memslotStretched dest s] :=
          (mapped_stretched range hfirst hlast).congr fun gfn hgfn =>
            congrArg some (same_q.target_eq hgfn hgfn).symm
        exact mapped_merge mapped same_q (hsame.1 same) le_rfl rfl range first inside last
      · -- the stretched slot goes away together with its block
        have mapped : Mapped dest dest ([] ++ [e]) [memslotUnion dest e] :=
          mapped_union (hsame.1 same) range (by omega) inside
        exact mapped.absorb (l := [s]) (by simpa using ⟨hfirst, hlast⟩)
  | leave invalid apart =>
    subst invalid
    obtain rfl : false = toInsert := waiting
    have tail : memslotTail dest e = [e] := by simp [memslotTail, apart, ordered.2 e (by simp)]
    refine ⟨list.reverse, hpassed, ?_⟩
    simpa [tail, mapping_false] using cut
  | cut _ stops ends =>
    rw [stopped stops]
    refine ⟨pendingSlot toInsert dest ++ list.reverse, by simp [hpassed, waiting], ?_⟩
    simpa [pendingSlot_reverse] using cut
  | drop stops ends =>
    rw [stopped stops, waiting]
    refine ⟨list.reverse, by split_ifs <;> simpa using hpassed, ?_⟩
    have tail : memslotTail dest e = [] := if_neg (not_lt.2 ends)
    simpa [tail] using cut

/-! ## The loops -/

theorem not_continues_of_lt (h : dest.endGfn < e.baseGfn) : memslotContinues dest e = false := by
  simp [memslotContinues, not_le.2 h]

/-- Behind the slot that ends the range, no slot continues the request. -/
theorem any_continues_eq_false (ordered : SlotsOrdered (e :: rest))
    (last : dest.endGfn ≤ e.endGfn) (outer : memslotIsInner dest e rest = false) :
    rest.any (memslotContinues dest) = false := by
  rw [List.any_eq_false]
  intro r hr
  obtain ⟨-, behind, rest_ordered⟩ := ordered_cons.1 ordered
  have hbase := behind r hr
  simp only [memslotContinues, Bool.and_eq_true, decide_eq_true_eq, not_and, Bool.not_eq_true]
  intro ⟨hinside, hlast⟩
  cases rest with
  | nil => cases hr
  | cons next rest =>
    obtain ⟨hnext, later, -⟩ := ordered_cons.1 rest_ordered
    have hbehind := behind next (by simp)
    rcases List.mem_cons.1 hr with rfl | hr
    · -- the slot right behind the range is looked at by `memslot_is_inner`
      have hend : dest.endGfn = e.endGfn := by omega
      have hstart : dest.endGfn = r.baseGfn := by omega
      simpa [memslotIsInner, hend, ← hstart] using outer
    · have := later r hr
      omega

end Haxm
