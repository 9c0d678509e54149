/-
# Blocks of memory

A memory is a function on 64-bit addresses. Storing a block may wrap around at
the end of the address space. Two blocks that lie side by side can be stored in
either order, and are then the same as one block.
-/

import Mathlib.Algebra.Group.Nat.Defs
import Mathlib.Tactic.Common

namespace Haxm.Lib

variable {α : Type*}

/-- The `len` cells from `start` on are set to `f 0`, `f 1` and so on. -/
def store (mem : BitVec 64 → α) (start : BitVec 64) (len : ℕ) (f : ℕ → α) : BitVec 64 → α :=
  fun a => if (a - start).toNat < len then f (a - start).toNat else mem a

variable {mem : BitVec 64 → α} {start : BitVec 64} {f : ℕ → α}

@[simp] theorem store_zero : store mem start 0 f = mem := by
  funext a
  simp [store]

theorem store_congr {g : ℕ → α} {len : ℕ} (same : ∀ i < len, f i = g i) :
    store mem start len f = store mem start len g := by
  funext a
  unfold store
  split
  case isTrue inside => exact same _ inside
  case isFalse => rfl

theorem store_apply_add {len i : ℕ} (hi : i < len) (hlen : len ≤ 2 ^ 64) :
    store mem start len f (start + BitVec.ofNat 64 i) = f i := by
  have distance : (start + BitVec.ofNat 64 i - start).toNat = i := by
    rw [BitVec.add_comm, BitVec.add_sub_cancel, BitVec.toNat_ofNat,
      Nat.mod_eq_of_lt (Nat.lt_of_lt_of_le hi hlen)]
  unfold store
  rw [distance, if_pos hi]

/-- A cell that is not in the block. -/
theorem store_apply_of_ne {len : ℕ} {a : BitVec 64}
    (outside : ∀ i < len, start + BitVec.ofNat 64 i ≠ a) : store mem start len f a = mem a := by
  unfold store
  rw [if_neg fun inside => outside _ inside ?_]
  rw [BitVec.ofNat_toNat, BitVec.setWidth_eq, BitVec.add_comm, BitVec.sub_add_cancel]

/-- The distance from the second of two adjacent blocks. -/
theorem toNat_sub_add (a start : BitVec 64) {m : ℕ} (hm : m < 2 ^ 64) :
    (a - (start + BitVec.ofNat 64 m)).toNat =
      if m ≤ (a - start).toNat then (a - start).toNat - m
      else (a - start).toNat + (2 ^ 64 - m) := by
  have ha := a.isLt
  have hs := start.isLt
  simp only [BitVec.toNat_sub, BitVec.toNat_add, BitVec.toNat_ofNat]
  split <;> omega

/-- The upper of two adjacent blocks, seen from the start of the lower one. -/
theorem store_above_apply (a : BitVec 64) {m l : ℕ} (fits : m + l < 2 ^ 64) :
    store mem (start + BitVec.ofNat 64 m) l (fun i => f (m + i)) a =
      if m ≤ (a - start).toNat ∧ (a - start).toNat < m + l then f (a - start).toNat
      else mem a := by
  have distance := toNat_sub_add a start (show m < 2 ^ 64 by omega)
  unfold store
  by_cases above : m ≤ (a - start).toNat
  · rw [if_pos above] at distance
    rw [distance]
    dsimp only
    rw [Nat.add_sub_cancel' above]
    by_cases inside : (a - start).toNat < m + l
    · rw [if_pos (by omega), if_pos ⟨above, inside⟩]
    · rw [if_neg (by omega), if_neg (fun h => inside h.2)]
  · rw [if_neg above] at distance
    rw [if_neg (by omega), if_neg (fun h => above h.1)]

/-- The upper block after the lower one. -/
theorem store_store_above {m l : ℕ} (fits : m + l < 2 ^ 64) :
    store (store mem start m f) (start + BitVec.ofNat 64 m) l (fun i => f (m + i)) =
      store mem start (m + l) f := by
  funext a
  rw [store_above_apply a fits]
  unfold store
  split_ifs <;> first | rfl | omega

/-- The lower block after the upper one. -/
theorem store_store_below {m l : ℕ} (fits : m + l < 2 ^ 64) :
    store (store mem (start + BitVec.ofNat 64 m) l (fun i => f (m + i))) start m f =
      store mem start (m + l) f := by
  funext a
  show (if (a - start).toNat < m then f (a - start).toNat
    else store mem (start + BitVec.ofNat 64 m) l (fun i => f (m + i)) a) = _
  rw [store_above_apply a fits]
  unfold store
  split_ifs <;> first | rfl | omega

end Haxm.Lib
