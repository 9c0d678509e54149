/-
# Properties that the pass preserves

What can be said about every slot of the list, and about memory, no matter how
the list looks and whether the pass succeeds: a property of slots that survives
cutting a slot, uniting slots of the same type, and stretching the first slot of
the range holds of every slot the pass leaves behind; a property of memory that
taking and dropping references keep is kept by the pass.
-/

import Haxm.Memory.PassSteps

namespace Haxm

open Lib

/-- A property of slots that survives whatever the pass does to slots behind the
first one of the range. -/
structure SlotClosed (isValid : Bool) (dest : Memslot) (P : Memslot → Prop) : Prop where
  new : isValid = true → P dest
  front : ∀ s, P s → s.baseGfn < dest.endGfn → dest.endGfn < s.endGfn →
    P (memslotOverlapFront dest s)
  rear : ∀ s, P s → s.baseGfn < dest.baseGfn → dest.baseGfn < s.endGfn →
    P (memslotOverlapRear dest s)
  union : isValid = true → ∀ s, P s → memslotIsSameType dest s = true → P (memslotUnion dest s)
  join : isValid = true → ∀ p s, P p → P s → memslotIsSameType dest p = true →
    memslotIsSameType dest s = true → P (memslotUnion p s)

/-- A property of memory that taking and dropping references keep. -/
structure MemClosed (Q : Mem → Prop) : Prop where
  dup : ∀ m s, Q m → Q (memslotDup m s).2
  ref : ∀ m block, Q m → Q (ramblockRef m block)
  deref : ∀ m block, Q m → Q (ramblockDeref m block)
  fault : ∀ m f, Q m → Q (m.fault f)

/-- Memory and all slots have the property in question. -/
structure Walk.All (P : Memslot → Prop) (Q : Mem → Prop) (w : Walk) (slots : List Memslot) :
    Prop where
  mem : Q w.mem
  passed : ∀ s ∈ w.passed, P s
  slots : ∀ s ∈ slots, P s

variable {P : Memslot → Prop} {Q : Mem → Prop} {dest s s' : Memslot}
  {old list list' passed snapshot : List Memslot} {isValid : Bool} {ret : ℤ} {m m' : Mem}
  {a b : Walk × List Memslot}

/-- The first slot of the range may be stretched over the range. -/
def StretchClosed (isValid : Bool) (dest s : Memslot) (P : Memslot → Prop) : Prop :=
  isValid = true → dest.baseGfn ≤ s.baseGfn → s.endGfn ≤ dest.endGfn →
    memslotIsSameType dest s = false → P (memslotStretched dest s)

theorem MemClosed.of_dup {slot : Option Memslot} (kept : MemClosed Q) (hm : Q m)
    (h : memslotDup m s = (slot, m')) : Q m' := by
  have := kept.dup m s hm
  rwa [h] at this

section

variable (closed : SlotClosed isValid dest P) (stretch : ∀ s,
  old.find? (fun s => dest.baseGfn ≤ s.endGfn) = some s → StretchClosed isValid dest s P)

include closed stretch

theorem Reshaped.property (shape : Reshaped isValid dest old passed s s') (hs : P s)
    (behind : ∀ s ∈ passed, P s) : P s' := by
  cases shape with
  | front starts ends => exact closed.front s hs starts ends
  | rear starts ends => exact closed.rear s hs starts ends
  | union valid same => exact closed.union valid s hs same
  | join valid mem same => exact closed.join valid _ s (behind _ mem) hs same.1 same.2
  | stretch valid starts ends differs first => exact stretch s first valid starts ends differs

theorem PassStep.all (kept : MemClosed Q) (step : PassStep isValid dest old a b)
    (all : a.1.All P Q a.2) : b.1.All P Q b.2 := by
  obtain ⟨mem, passed, slots⟩ := all
  cases step with
  | flags => exact ⟨mem, passed, slots⟩
  | pass =>
    rw [List.forall_mem_cons] at slots
    exact ⟨mem, List.forall_mem_cons.2 ⟨slots.1, passed⟩, slots.2⟩
  | copy _ dup => exact ⟨kept.of_dup mem dup, passed, slots⟩
  | insert front behind valid dup =>
    refine ⟨kept.of_dup mem dup, passed, ?_⟩
    rw [List.forall_mem_append, List.forall_mem_cons]
    exact ⟨fun s hs => slots s (by simp [hs]), closed.new valid, fun s hs => slots s (by simp [hs])⟩
  | @split w s m between behind starts ends dup =>
    have hs := slots s (by simp)
    have range : dest.baseGfn ≤ dest.endGfn := Nat.le_add_right ..
    refine ⟨kept.of_dup mem dup, passed, ?_⟩
    rw [List.forall_mem_cons, List.forall_mem_append, List.forall_mem_cons]
    exact ⟨closed.rear s hs starts (by omega), fun s hs => slots s (by simp [hs]),
      closed.front s hs (by omega) ends, fun s hs => slots s (by simp [hs])⟩
  | reshape shape =>
    rw [List.forall_mem_cons] at slots
    exact ⟨mem, passed, List.forall_mem_cons.2 ⟨shape.property closed stretch slots.1 passed,
      slots.2⟩⟩
  | drop => exact ⟨kept.deref _ _ mem, passed, fun s hs => slots s (by simp [hs])⟩
  | dropLast last =>
    exact ⟨kept.deref _ _ mem, fun s hs => passed s (by simp [last, hs]), slots⟩
  | ref valid => exact ⟨kept.ref _ _ mem, passed, List.forall_mem_cons.2 ⟨closed.new valid, slots⟩⟩

end

/-- What every slot has before the pass, every slot has afterwards. -/
theorem memslotPass_all (closed : SlotClosed isValid dest P) (kept : MemClosed Q) (hm : Q m)
    (hlist : ∀ s ∈ list, P s)
    (stretch : ∀ s, list.find? (fun s => dest.baseGfn ≤ s.endGfn) = some s →
      StretchClosed isValid dest s P)
    (h : memslotPass m isValid dest list = (ret, m', list', snapshot)) :
    Q m' ∧ ∀ s ∈ list', P s := by
  obtain ⟨w, slots, outcome, rfl, -, rfl⟩ := memslotPass_outcome h
  have reached {b : Walk × List Memslot}
      (run : PassRun isValid dest list (⟨m, [], [], false, false⟩, list) b) : b.1.All P Q b.2 :=
    run.invariant (I := fun a => a.1.All P Q a.2) ⟨hm, by simp, hlist⟩ fun a b step =>
      step.all closed stretch kept
  have all : w.All P Q slots := by
    cases outcome with
    | done run => exact reached run
    | refused run dup _ =>
      obtain ⟨mem, passed, slots⟩ := reached run
      exact ⟨kept.of_dup mem dup, passed, slots⟩
  refine ⟨all.mem, ?_⟩
  rw [List.forall_mem_append]
  exact ⟨fun s hs => all.passed s (List.mem_reverse.1 hs), all.slots⟩

end Haxm
