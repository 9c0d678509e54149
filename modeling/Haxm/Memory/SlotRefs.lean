/-
# Reference counts during a request

While a request is carried out, the holders of references to RAM blocks are the
slots in the list, the copies of slots in the snapshot, and the request itself.
Every step of the pass keeps the reference counts equal to the number of these
holders, whether it succeeds or fails, so that no block goes away while it is in
use.
-/

import Haxm.Memory.PassSteps
import Haxm.Memory.RefCount
import Haxm.Memory.SetMapping

namespace Haxm

open Lib

/-- How many slots refer to the block at an address. -/
def refs (slots : List Memslot) (a : ℕ) : ℕ := (slots.map fun s => holds s.block a).sum

section Refs

variable {s : Memslot} {l₁ l₂ : List Memslot} {a : ℕ}

@[simp] theorem refs_nil : refs [] a = 0 := rfl

@[simp] theorem refs_cons : refs (s :: l₁) a = holds s.block a + refs l₁ a := by simp [refs]

@[simp] theorem refs_append : refs (l₁ ++ l₂) a = refs l₁ a + refs l₂ a := by simp [refs]

@[simp] theorem refs_reverse : refs l₁.reverse a = refs l₁ a := by
  simp [refs, List.sum_reverse]

theorem refs_pos_of_mem (hs : s ∈ l₁) (ha : s.block = some a) : 0 < refs l₁ a := by
  obtain ⟨before, behind, rfl⟩ := List.append_of_mem hs
  simp [holds, ha]

end Refs

variable {m₀ m m' : Mem} {held₀ held : ℕ → ℕ} {dest src s e : Memslot} {w w' : Walk}
  {slots list rest after : List Memslot} {isValid : Bool} {ret : ℤ}

/-- Copying a slot fails exactly when the next allocation is refused. -/
theorem memslotDup_eq (m : Mem) (s : Memslot) :
    memslotDup m s =
      if m.failing = some 0 then (none, { m with failing := none })
      else (some s, ramblockRef { m with failing := m.failing.map (· - 1) } s.block) := by
  obtain ⟨list, failing, nextAddr, trace⟩ := m
  rcases failing with - | - | k <;> rfl

/-- The reference counts agree with the holders at some point of the pass:
`slots` is what stands from the current slot on. -/
def Tracked (m₀ : Mem) (held₀ : ℕ → ℕ) (dest : Memslot) (w : Walk) (slots : List Memslot) : Prop :=
  Since m₀ held₀ w.mem fun a =>
    refs w.passed a + refs slots a + refs w.snapshot a + holds dest.block a

section Tracked

variable (tracked : Tracked m₀ held₀ dest w slots)

include tracked

theorem Tracked.refused (h : memslotDup w.mem s = (none, m)) :
    Tracked m₀ held₀ dest { w with mem := m } slots := by
  have since : Since m₀ held₀ w.mem _ := tracked
  rw [memslotDup_eq] at h
  split_ifs at h with hrefused
  · obtain rfl := (Prod.mk.inj h).2
    exact since.trans (since.counted.failing_since (by simp [hrefused]))
  · cases h

/-- Only the number of holders of each block matters. -/
theorem Tracked.congr (hmem : w'.mem = w.mem)
    (hrefs : ∀ a, refs w'.passed a + refs list a + refs w'.snapshot a =
      refs w.passed a + refs slots a + refs w.snapshot a) :
    Tracked m₀ held₀ dest w' list := by
  unfold Tracked at *
  rw [hmem]
  simp only [hrefs]
  exact tracked

/-- Referring to the block of a slot once more, if it is held. -/
theorem Tracked.ref (live : ∀ a, s.block = some a → 0 < refs slots a + holds dest.block a)
    (hmem : Since w.mem
      (fun a => refs w.passed a + refs slots a + refs w.snapshot a + holds dest.block a) m
      (fun a => refs w.passed a + refs slots a + refs w.snapshot a + holds dest.block a))
    (hrefs : ∀ a, refs w'.passed a + refs list a + refs w'.snapshot a =
      refs w.passed a + refs slots a + refs w.snapshot a + holds s.block a)
    (href : w'.mem = ramblockRef m s.block) : Tracked m₀ held₀ dest w' list := by
  have since : Since m₀ held₀ w.mem _ := tracked
  unfold Tracked
  rw [href]
  refine (since.trans hmem).trans (hmem.counted.ref_since (fun a ha => ?_) fun a => ?_)
  · have := live a ha
    omega
  · rw [hrefs]
    omega

/-- Copying a slot whose block is held, to some place in the list or the snapshot. -/
theorem Tracked.dup {slot : Memslot}
    (live : ∀ a, s.block = some a → 0 < refs slots a + holds dest.block a)
    (h : memslotDup w.mem s = (some slot, m)) (hmem : w'.mem = m)
    (hrefs : ∀ a, refs w'.passed a + refs list a + refs w'.snapshot a =
      refs w.passed a + refs slots a + refs w.snapshot a + holds s.block a) :
    Tracked m₀ held₀ dest w' list := by
  have since : Since m₀ held₀ w.mem _ := tracked
  rw [memslotDup_eq] at h
  split_ifs at h
  · cases h
  · obtain rfl := (Prod.mk.inj h).2
    exact tracked.ref live (since.counted.failing_since (by simp +contextual)) hrefs hmem

/-- Deleting a slot. -/
theorem Tracked.drop (hmem : w'.mem = ramblockDeref w.mem s.block)
    (hrefs : ∀ a, refs w.passed a + refs slots a + refs w.snapshot a =
      refs w'.passed a + refs list a + refs w'.snapshot a + holds s.block a) :
    Tracked m₀ held₀ dest w' list := by
  have since : Since m₀ held₀ w.mem _ := tracked
  unfold Tracked
  rw [hmem]
  refine since.trans (since.counted.deref_since fun a => ?_)
  rw [hrefs]
  omega

end Tracked

/-- A slot that only changes its range still counts once. -/
theorem Reshaped.block_eq {old passed : List Memslot} {s' : Memslot}
    (shape : Reshaped isValid dest old passed s s') : s'.block = s.block := by
  cases shape <;> rfl

theorem PassStep.tracked {old : List Memslot} {a b : Walk × List Memslot}
    (step : PassStep isValid dest old a b) (tracked : Tracked m₀ held₀ dest a.1 a.2) :
    Tracked m₀ held₀ dest b.1 b.2 := by
  have live_dest (slots : List Memslot) (a : ℕ) (ha : dest.block = some a) :
      0 < refs slots a + holds dest.block a := by simp [holds, ha]
  have since : Since m₀ held₀ a.1.mem _ := tracked
  cases step with
  | flags => exact tracked
  | pass => exact tracked.congr rfl fun a => by simp; omega
  | copy _ dup =>
    exact tracked.dup (fun a ha => by simp [holds, ha]) dup rfl fun a => by simp; omega
  | insert _ _ _ dup => exact tracked.dup (live_dest _) dup rfl fun a => by simp; omega
  | @split w s _ _ _ _ _ dup =>
    refine tracked.dup (fun a ha => ?_) dup rfl fun a => ?_
    · simp [holds, show s.block = some a from ha]
    · simp [memslotOverlapRear]
      omega
  | reshape shape => exact tracked.congr rfl fun a => by simp [shape.block_eq]
  | drop => exact tracked.drop rfl fun a => by simp [Walk.drop]; omega
  | dropLast last => exact tracked.drop rfl fun a => by simp [Walk.drop, last]; omega
  | ref =>
    exact tracked.ref (s := dest) (live_dest _) (.refl since.counted) (fun a => by simp; omega) rfl

/-- The holders before the pass, and those after it, among them the copies. -/
theorem memslotPass_since {list' snapshot : List Memslot}
    (counted : Counted m fun a => refs list a + holds dest.block a)
    (h : memslotPass m isValid dest list = (ret, m', list', snapshot)) :
    Since m (fun a => refs list a + holds dest.block a) m'
      fun a => refs list' a + refs snapshot a + holds dest.block a := by
  obtain ⟨w, slots, outcome, rfl, rfl, rfl⟩ := memslotPass_outcome h
  have reached {b : Walk × List Memslot}
      (run : PassRun isValid dest list (⟨m, [], [], false, false⟩, list) b) :
      Tracked m (fun a => refs list a + holds dest.block a) dest b.1 b.2 := by
    refine run.invariant (I := fun a => Tracked m _ dest a.1 a.2) ?_ fun a b step => step.tracked
    simpa [Tracked] using Since.refl counted
  have tracked : Tracked m (fun a => refs list a + holds dest.block a) dest w slots := by
    cases outcome with
    | done run => exact reached run
    | refused run dup _ => exact (reached run).refused dup
  simpa [Tracked] using tracked

end Haxm
