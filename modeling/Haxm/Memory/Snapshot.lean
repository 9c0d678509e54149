/-
# The copies of the old slots

The pass copies every slot that the range overlaps before it changes or deletes
it. The copy of a slot at which the pass stops because the range ends before it
is also made, but then it is the only one.
-/

import Haxm.Memory.PassSteps

namespace Haxm

open Lib

variable {dest src s e : Memslot} {list list' snapshot rest after : List Memslot} {w w' : Walk}
  {isValid : Bool} {ret : ℤ} {m m' : Mem}

/-- Dealing with the last slot makes no copies either. -/
theorem EndStep.snapshot_eq (step : EndStep isValid w dest s (ret, w', after)) :
    w'.snapshot = w.snapshot := by
  cases step with
  | drop => split_ifs <;> rfl
  | _ => rfl

/-- The slot and the range share a page. -/
def Memslot.overlaps (dest s : Memslot) : Bool :=
  dest.baseGfn < s.endGfn && s.baseGfn < dest.endGfn

theorem memslotLoopFound_snapshot (ordered : SlotsOrdered list)
    (h : memslotLoopFound isValid dest w list = (0, w', after)) :
    w'.snapshot = w.snapshot ++ list.filter fun s => s.baseGfn < dest.endGfn := by
  induction list generalizing w with
  | nil =>
    cases h
    simp
  | cons e rest ih =>
    obtain ⟨nonempty, behind, rest_ordered⟩ := ordered_cons.1 ordered
    have filter_nil (hlast : dest.endGfn ≤ e.endGfn) :
        rest.filter (fun s => s.baseGfn < dest.endGfn) = [] := by
      rw [List.filter_eq_nil_iff]
      intro s hs
      have := behind s hs
      simp
      omega
    cases memslotLoopFound_round h with
    | beyond apart =>
      have hnot : ¬ e.baseGfn < dest.endGfn := by omega
      simp [hnot, filter_nil (by omega)]
    | inner _ _ loop =>
      rw [ih rest_ordered loop]
      by_cases hlt : e.baseGfn < dest.endGfn <;> simp [Walk.drop, hlt]
    | last _ outer _ step =>
      have hsnapshot := step.snapshot_eq
      by_cases hlt : e.baseGfn < dest.endGfn <;>
        simp [hsnapshot, hlt, filter_nil (le_endGfn_of_outer outer)]

/-- The copies are those of the overlapped slots, unless there are none and the
pass copied the slot behind the range. -/
def SnapshotOf (dest : Memslot) (list snapshot : List Memslot) : Prop :=
  snapshot = list.filter (Memslot.overlaps dest) ∨
    list.filter (Memslot.overlaps dest) = [] ∧
      ∃ s ∈ list, snapshot = [s] ∧ dest.endGfn ≤ s.baseGfn

/-- The pass copies at least one slot. -/
def CopiesSome (dest : Memslot) (list : List Memslot) : Prop :=
  (∃ s ∈ list, dest.overlaps s = true) ∨
    ∃ s, list.find? (fun s => dest.baseGfn ≤ s.endGfn) = some s ∧ dest.baseGfn < s.endGfn

/-- What is copied, and whether anything is. -/
structure Copied (dest : Memslot) (list snapshot : List Memslot) : Prop where
  snapshotOf : SnapshotOf dest list snapshot
  some_iff : snapshot ≠ [] ↔ CopiesSome dest list

theorem Copied.cons (before : src.endGfn < dest.baseGfn) (h : Copied dest rest snapshot) :
    Copied dest (src :: rest) snapshot := by
  have hsrc : Memslot.overlaps dest src = false := by
    simp only [Memslot.overlaps, Bool.and_eq_false_iff, decide_eq_false_iff_not]
    omega
  have hfilter : (src :: rest).filter (Memslot.overlaps dest) =
      rest.filter (Memslot.overlaps dest) := by simp [hsrc]
  refine ⟨?_, ?_⟩
  · rcases h.snapshotOf with h | ⟨hnone, s, hs, h⟩
    · exact .inl (by rw [hfilter, h])
    · exact .inr ⟨by rw [hfilter, hnone], s, by simp [hs], h⟩
  · rw [h.some_iff]
    simp [CopiesSome, hsrc, not_le.2 before]

theorem Copied.nil : Copied dest [] [] :=
  ⟨.inl rfl, by simp [CopiesSome]⟩

/-- If the first slot that reaches the range starts before its end, all that is copied overlaps
the range. -/
theorem Copied.filter (found : dest.baseGfn ≤ src.endGfn) (first : src.baseGfn < dest.endGfn) :
    Copied dest (src :: rest) ((src :: rest).filter (Memslot.overlaps dest)) := by
  have nonempty_iff (l : List Memslot) :
      l.filter (Memslot.overlaps dest) ≠ [] ↔ ∃ s ∈ l, dest.overlaps s = true := by
    rw [Ne, List.filter_eq_nil_iff]
    simp
  refine ⟨.inl rfl, (nonempty_iff _).trans ⟨.inl, ?_⟩⟩
  rintro (some_overlaps | ⟨s, hs, reaches⟩)
  · exact some_overlaps
  · obtain rfl : src = s := by simpa [found] using hs
    exact ⟨src, by simp, by simp [Memslot.overlaps, reaches, first]⟩

theorem memslotLoop_copied (ordered : SlotsOrdered list) (range : dest.baseGfn < dest.endGfn)
    (hsnapshot : w.snapshot = []) (hprocessing : w.processing = false)
    (h : memslotLoop isValid dest w list = (0, w', after)) : Copied dest list w'.snapshot := by
  induction list generalizing w with
  | nil =>
    cases h
    rw [hsnapshot]
    exact .nil
  | cons src rest ih =>
    obtain ⟨nonempty, behind, rest_ordered⟩ := ordered_cons.1 ordered
    cases memslotLoop_round hprocessing h with
    | pass before _ loop =>
      exact (ih rest_ordered (by exact hsnapshot) (by exact hprocessing) loop).cons before
    | append before alone =>
      subst alone
      rw [hsnapshot]
      exact Copied.nil.cons before
    | enter found _ reaches step loop =>
      have hkept := step.keeps.1
      have hrest : rest.filter (Memslot.overlaps dest) =
          rest.filter fun s => s.baseGfn < dest.endGfn := by
        refine List.filter_congr fun s hs => ?_
        have hbase := behind s hs
        have hend := rest_ordered.2 s hs
        simp only [Memslot.overlaps, decide_eq_true (by omega : dest.baseGfn < s.endGfn),
          Bool.true_and]
      have hin : src.baseGfn < dest.endGfn := by omega
      convert Copied.filter found hin using 1
      rw [memslotLoopFound_snapshot rest_ordered loop]
      by_cases hlt : dest.baseGfn < src.endGfn <;>
        simp [hkept, hsnapshot, hrest, Memslot.overlaps, hlt, hin]
    | stop found _ ends step =>
      have hkept := step.keeps.1
      have hlt : dest.baseGfn < src.endGfn := by omega
      have hrest : rest.filter (Memslot.overlaps dest) = [] := by
        rw [List.filter_eq_nil_iff]
        intro s hs
        have := behind s hs
        simp only [Memslot.overlaps, Bool.and_eq_true, decide_eq_true_eq]
        omega
      have copy : w'.snapshot = [src] := by simp [hkept, hsnapshot, hlt]
      rw [copy]
      by_cases hin : src.baseGfn < dest.endGfn
      · convert (Copied.filter found hin : Copied dest (src :: rest) _) using 1
        simp [hrest, Memslot.overlaps, hlt, hin]
      · exact ⟨.inr ⟨by simp [Memslot.overlaps, hin, hrest], src, by simp, rfl, not_lt.1 hin⟩,
          by simp [CopiesSome, found, hlt]⟩
    | failed _ _ _ failed => exact absurd rfl failed

theorem memslotPass_copied (ordered : SlotsOrdered list) (range : dest.baseGfn < dest.endGfn)
    (h : memslotPass m isValid dest list = (0, m', list', snapshot)) :
    Copied dest list snapshot := by
  obtain ⟨ret₁, w, after, hloop, rfl, hpass⟩ := memslotPass_cases h
  obtain rfl : ret₁ = 0 := by
    rcases hpass with ⟨-, hret, -⟩ | ⟨hret, -⟩
    · exact hret.symm
    · exact hret
  exact memslotLoop_copied ordered range rfl rfl hloop

end Haxm
