/-
# Requests while memory lasts

As long as every allocation succeeds, a request fails only before it has changed
anything: it asked for no pages, or its block does not exist. So requests need
not succeed for the invariant to hold in every state that user space can bring
about.
-/

import Haxm.Memory.FailureAtomicity
import Haxm.Memory.PassInvariant

namespace Haxm

open Lib

variable {σ : Type*} {sp sp' : GpaSpace σ} {m m' : Mem} {dest s : Memslot}
  {list list' snapshot after : List Memslot} {w w' : Walk} {isValid : Bool} {ret : ℤ}
  {startGfn npages uva flags : ℕ}

theorem unfailing_closed : MemClosed fun m => m.failing = none where
  dup m s h := by
    rw [memslotDup_eq]
    split_ifs
    · simp_all
    · simp [h]
  ref m block h := by simp [h]
  deref m block h := by simp [h]
  fault m f h := h

/-- Any property of slots at all is kept. -/
theorem anySlot_closed (isValid : Bool) (dest : Memslot) : SlotClosed isValid dest fun _ => True :=
  ⟨by simp, by simp, by simp, by simp, by simp⟩

theorem memslotPass_succeeds (memory : m.failing = none)
    (h : memslotPass m isValid dest list = (ret, m', list', snapshot)) : ret = 0 := by
  obtain ⟨w, slots, outcome, -⟩ := memslotPass_outcome h
  cases outcome with
  | done => rfl
  | refused run dup =>
    have reached := run.invariant (I := fun a => a.1.All (fun _ => True) (·.failing = none) a.2)
      ⟨memory, by simp, by simp⟩
      fun a b step => step.all (anySlot_closed isValid dest) (by simp [StretchClosed])
        unfailing_closed
    have exhausted := memslotDup_eq_none dup
    rw [reached.mem] at exhausted
    cases exhausted

/-- A request that fails although memory lasts has changed nothing but the addresses
that were handed out. -/
theorem memslotSetMapping_unfailing (ok : SpaceOk sp) (memory : sp.mem.failing = none)
    (bound : startGfn + npages < 2 ^ 31)
    (h : memslotSetMapping sp startGfn npages uva flags = (ret, sp')) :
    sp'.mem.failing = none ∧ (ret = 0 ∨ sp'.memslotList = sp.memslotList) := by
  cases memslotSetMapping_step h with
  | empty => exact ⟨memory, .inr rfl⟩
  | refused _ answer failed =>
    obtain ⟨-, -, -, -, hfailing⟩ := memslotBlock_failed ok.counted (by omega) answer failed
    exact ⟨hfailing memory, .inr rfl⟩
  | carried carried =>
    have memory₁ := (carried.is_acquired ok.counted (by omega)).failing memory
    exact ⟨(carried.slots_since ok bound).1.failing memory₁,
      .inl (memslotPass_succeeds memory₁ carried.passed)⟩

/-! ## Runs -/

/-- Arguments are 64-bit words, frame numbers are bounded as `handle_set_ram`
requires, and the bookkeeping of a new block does not overrun. A request may be
refused. -/
def SlotRequested (sp : GpaSpace σ) : SlotInput → Prop
  | .addRamblock startUva size =>
    startUva < word ∧ size < word ∧ (handleAllocRam sp startUva size).2.mem.Sound
  | .setMapping startGfn npages uva _ => uva < word ∧ startGfn + npages < 2 ^ 31

instance (sp : GpaSpace σ) (i : SlotInput) : Decidable (SlotRequested sp i) := by
  cases i
  · exact inferInstanceAs (Decidable (_ ∧ _ ∧ _))
  · exact inferInstanceAs (Decidable (_ ∧ _))

/-- The invariant, and every allocation succeeds. -/
structure Unfailing (sp : GpaSpace σ) : Prop where
  ok : SpaceOk sp
  memory : sp.mem.failing = none

theorem handleAllocRam_failing (startUva size : ℕ) (memory : sp.mem.failing = none) :
    (handleAllocRam sp startUva size).2.mem.failing = none := by
  unfold handleAllocRam
  split_ifs
  · exact memory
  · exact memory
  · rcases ramblockAdd_cases sp.mem startUva size with ⟨ret, f, n, events, -, -, hf, -, h⟩ |
      ⟨list, f, -, hf, h⟩
    · rw [h]
      exact hf memory
    · rw [h]
      exact hf memory

theorem Unfailing.step {i : SlotInput} (unfailing : Unfailing sp) (requested : SlotRequested sp i) :
    Unfailing (slotStep sp i) := by
  obtain ⟨ok, memory⟩ := unfailing
  cases i with
  | addRamblock startUva size =>
    exact ⟨handleAllocRam_ok ok requested.2.2, handleAllocRam_failing startUva size memory⟩
  | setMapping startGfn npages uva flags =>
    obtain ⟨uva_lt, bound⟩ := requested
    obtain ⟨memory', hret⟩ := memslotSetMapping_unfailing ok memory bound rfl
    exact ⟨memslotSetMapping_ok ok bound uva_lt rfl hret, memory'⟩

theorem slotRequested_unfailing {listeners : List (Listener σ)} {env : σ}
    (keeps : ListenersKeep listeners)
    (reached : Reached (GpaSpace.init none listeners env) SlotRequested slotStep sp) :
    Unfailing sp :=
  reached.invariant ⟨GpaSpace.init_ok keeps none env, rfl⟩ fun _ _ => Unfailing.step

end Haxm
