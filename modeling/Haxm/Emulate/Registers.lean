/-
# Registers of the emulator

A register that the emulator works with is the cached one, or the one of the
virtual CPU if it has not been read yet. Writes go to the cache. As long as the
cache is coherent, a flush makes the virtual CPU hold the registers that the
emulator works with.
-/

import Mathlib.Order.Fin.Basic
import Haxm.Emulate.Execute

namespace Haxm

variable {ω : Type} {ops : EmOps ω}

/-- The registers of a virtual CPU are a register file of their own. -/
structure EmOps.Lawful (ops : EmOps ω) : Prop where
  writeGpr : ∀ i x v, ops.readGpr (ops.writeGpr i x v) = Function.update (ops.readGpr v) i x
  writeRflags : ∀ x v, ops.readGpr (ops.writeRflags x v) = ops.readGpr v
  advanceRip : ∀ n v, ops.readGpr (ops.advanceRip n v) = ops.readGpr v
  readMemory : ∀ la x n t v, ops.readGpr (ops.readMemory la x n t v).2.2 = ops.readGpr v
  readMemoryPost : ∀ x n v, ops.readGpr (ops.readMemoryPost x n v).2.2 = ops.readGpr v
  writeMemory : ∀ la x n t v, ops.readGpr (ops.writeMemory la x n t v).2 = ops.readGpr v

/-! ## Bytes of registers -/

theorem lowBytes_eight (v : BitVec 64) : lowBytes 8 v = v := by
  rw [lowBytes, BitVec.setWidth_eq, BitVec.setWidth_eq]

theorem putBytes_zero_eight (v old : BitVec 64) : putBytes 0 8 v old = v := by
  rw [putBytes, lowBytes_eight, lowBytes_eight, Nat.mul_zero, BitVec.shiftLeft_zero,
    BitVec.shiftLeft_zero, BitVec.not_allOnes, BitVec.and_zero, BitVec.zero_or]

theorem getLsbD_lowBytes (size : ℕ) (v : BitVec 64) (n : ℕ) :
    (lowBytes size v).getLsbD n = (decide (n < 8 * size) && v.getLsbD n) := by
  rw [lowBytes, BitVec.getLsbD_setWidth, BitVec.getLsbD_setWidth]
  by_cases inside : n < 64
  · simp [inside]
  · simp [BitVec.getLsbD_of_ge v n (Nat.le_of_not_lt inside)]

theorem getLsbD_putBytes (shift size : ℕ) (v old : BitVec 64) {n : ℕ} (hn : n < 64) :
    (putBytes shift size v old).getLsbD n =
      if 8 * shift ≤ n ∧ n < 8 * shift + 8 * size then v.getLsbD (n - 8 * shift)
      else old.getLsbD n := by
  have sub : n - 8 * shift < 64 := by omega
  rw [putBytes, BitVec.getLsbD_or, BitVec.getLsbD_and, BitVec.getLsbD_not, BitVec.getLsbD_shiftLeft,
    BitVec.getLsbD_shiftLeft, getLsbD_lowBytes, getLsbD_lowBytes, BitVec.getLsbD_allOnes]
  by_cases above : 8 * shift ≤ n
  · by_cases below : n < 8 * shift + 8 * size
    · have inside : n - 8 * shift < 8 * size := by omega
      have reached : ¬ n < 8 * shift := by omega
      simp [hn, above, below, inside, sub, reached]
    · have outside : ¬ n - 8 * shift < 8 * size := by omega
      simp [hn, above, below, outside]
  · simp [hn, above, Nat.lt_of_not_le above]

/-- Writing back what was read changes nothing. -/
theorem putBytes_lowBytes (shift size : ℕ) (v : BitVec 64) :
    putBytes shift size (lowBytes size (v >>> (8 * shift))) v = v := by
  apply BitVec.eq_of_getLsbD_eq
  intro n hn
  rw [getLsbD_putBytes _ _ _ _ hn, getLsbD_lowBytes, BitVec.getLsbD_ushiftRight]
  split_ifs with inside
  · have small : n - 8 * shift < 8 * size := by omega
    rw [decide_eq_true small, Bool.true_and, Nat.add_sub_cancel' inside.1]
  · rfl

/-! ## Reading registers ahead -/

/-- `k'` is the cache `k` with more registers in it, as `gpr` has them. -/
structure GprCache.Filled (gpr : Fin 16 → BitVec 64) (k k' : GprCache) : Prop where
  w : k'.w = k.w
  r : ∀ i, k.r i = true → k'.r i = true
  value : ∀ i, k'.r i = true → k'.value i = if k.r i then k.value i else gpr i

section Filled

variable {gpr : Fin 16 → BitVec 64} {k k' k'' : GprCache}

theorem GprCache.Filled.refl (gpr : Fin 16 → BitVec 64) (k : GprCache) : k.Filled gpr k :=
  ⟨rfl, fun _ h => h, fun _ h => (if_pos h).symm⟩

/-- A register is the same, read from either cache. -/
theorem GprCache.Filled.view (h : k.Filled gpr k') (i : Fin 16) :
    (if k'.r i then k'.value i else gpr i) = if k.r i then k.value i else gpr i := by
  split_ifs with cached present present
  · rw [h.value i cached, if_pos present]
  · rw [h.value i cached, if_neg present]
  · exact absurd (h.r i present) cached
  · rfl

theorem GprCache.Filled.trans (first : k.Filled gpr k') (second : k'.Filled gpr k'') :
    k.Filled gpr k'' := by
  refine ⟨second.w.trans first.w, fun i h => second.r i (first.r i h), fun i h => ?_⟩
  rw [second.value i h]
  exact first.view i

theorem gprFill_filled (gpr : Fin 16 → BitVec 64) (i : Fin 16) (k : GprCache) :
    k.Filled gpr (gprFill gpr i k) := by
  unfold gprFill
  split_ifs with cached
  · exact .refl gpr k
  · refine ⟨rfl, fun j h => ?_, fun j h => ?_⟩
    · by_cases same : j = i <;> simp [same, h]
    · by_cases same : j = i
      · subst same
        simp [cached]
      · have present : k.r j = true := by simpa [same] using h
        simp [same, present]

theorem gprFill_r (gpr : Fin 16 → BitVec 64) (i : Fin 16) (k : GprCache) :
    (gprFill gpr i k).r i = true := by
  unfold gprFill
  split_ifs with cached
  · exact cached
  · exact Function.update_self ..

end Filled

/-! ## The register file of the emulator -/

namespace Emulator

variable (ops) in
/-- A register as the emulator sees it. -/
def reg (s : Emulator ω) (i : Fin 16) : BitVec 64 :=
  if s.ctxt.cache.r i then s.ctxt.cache.value i else ops.readGpr s.vcpu i

variable (ops) in
/-- What is not dirty is as in the virtual CPU. -/
structure Coherent (s : Emulator ω) : Prop where
  dirty : ∀ i, s.ctxt.cache.w i = true → s.ctxt.cache.r i = true
  clean : ∀ i, s.ctxt.cache.r i = true → s.ctxt.cache.w i = false →
    s.ctxt.cache.value i = ops.readGpr s.vcpu i

variable {s t : Emulator ω} {i : Fin 16} {size shift : ℕ} {value : BitVec 64}

/-- A cache without dirty registers. -/
theorem Coherent.reg_eq (coherent : s.Coherent ops) (clean : s.ctxt.cache.w = fun _ => false) :
    s.reg ops = ops.readGpr s.vcpu := by
  funext i
  unfold reg
  split_ifs with cached
  · exact coherent.clean i cached (by rw [clean])
  · rfl

variable (ops) in
/-- `t` has read more registers than `s`, but has the same ones. -/
structure SameRegisters (s t : Emulator ω) : Prop where
  vcpu : ops.readGpr t.vcpu = ops.readGpr s.vcpu
  filled : s.ctxt.cache.Filled (ops.readGpr s.vcpu) t.ctxt.cache

namespace SameRegisters

theorem of_eq (vcpu : ops.readGpr t.vcpu = ops.readGpr s.vcpu)
    (cache : t.ctxt.cache = s.ctxt.cache) : SameRegisters ops s t :=
  ⟨vcpu, cache ▸ .refl _ _⟩

theorem reg (h : SameRegisters ops s t) : t.reg ops = s.reg ops := by
  funext i
  unfold Emulator.reg
  rw [h.vcpu]
  exact h.filled.view i

theorem coherent (h : SameRegisters ops s t) (coherent : s.Coherent ops) : t.Coherent ops := by
  refine ⟨fun i dirty => ?_, fun i cached clean => ?_⟩
  · rw [h.filled.w] at dirty
    exact h.filled.r i (coherent.dirty i dirty)
  · rw [h.filled.w] at clean
    rw [h.filled.value i cached, h.vcpu]
    split_ifs with present
    · exact coherent.clean i present clean
    · rfl

end SameRegisters

theorem gprFill_value (s : Emulator ω) (i : Fin 16) :
    (gprFill (ops.readGpr s.vcpu) i s.ctxt.cache).value i = s.reg ops i :=
  (gprFill_filled _ i _).value i (gprFill_r _ i _)

theorem sameRegisters_gprFill (s : Emulator ω) (i : Fin 16) :
    SameRegisters ops s (s.setCache (gprFill (ops.readGpr s.vcpu) i s.ctxt.cache)) :=
  ⟨rfl, gprFill_filled _ i _⟩

theorem gprReadShifted_fst :
    (s.gprReadShifted ops i size shift).1 = lowBytes size (s.reg ops i >>> (8 * shift)) := by
  rw [gprReadShifted, Haxm.gprReadShifted]
  dsimp only
  rw [gprFill_value]

theorem sameRegisters_gprReadShifted :
    SameRegisters ops s (s.gprReadShifted ops i size shift).2 :=
  sameRegisters_gprFill s i

theorem gprRead_fst : (s.gprRead ops i size).1 = lowBytes size (s.reg ops i) := by
  rw [gprRead, gprReadShifted_fst, Nat.mul_zero, BitVec.ushiftRight_zero]

theorem sameRegisters_gprRead : SameRegisters ops s (s.gprRead ops i size).2 :=
  sameRegisters_gprFill s i

theorem reg_gprWriteShifted :
    (s.gprWriteShifted ops i size value shift).reg ops =
      Function.update (s.reg ops) i (putBytes shift size value (s.reg ops i)) := by
  have present := gprFill_r (ops.readGpr s.vcpu) i s.ctxt.cache
  funext j
  by_cases same : j = i
  · subst same
    rw [Function.update_self, ← gprFill_value s j]
    unfold reg gprWriteShifted Haxm.gprWriteShifted setCache
    simp [present]
  · rw [Function.update_of_ne same, ← (sameRegisters_gprFill s i).reg]
    unfold reg gprWriteShifted Haxm.gprWriteShifted setCache
    simp [same]

theorem Coherent.gprWriteShifted (coherent : s.Coherent ops) :
    (s.gprWriteShifted ops i size value shift).Coherent ops := by
  have filled := (sameRegisters_gprFill s i).coherent coherent
  have present := gprFill_r (ops.readGpr s.vcpu) i s.ctxt.cache
  unfold Emulator.gprWriteShifted Haxm.gprWriteShifted
  refine ⟨fun j dirty => ?_, fun j cached clean => ?_⟩
  · by_cases same : j = i
    · rw [same]
      exact present
    · exact filled.dirty j (by simpa [setCache, same] using dirty)
  · by_cases same : j = i
    · simp [setCache, same] at clean
    · have := filled.clean j (by simpa [setCache, same] using cached)
        (by simpa [setCache, same] using clean)
      simpa [setCache, same] using this

theorem reg_registerAdd (addend : BitVec 64) :
    (s.registerAdd ops i addend).reg ops = Function.update (s.reg ops) i
      (s.reg ops i + addend) := by
  unfold registerAdd
  dsimp only
  rw [gprWrite, reg_gprWriteShifted, gprRead_fst, sameRegisters_gprRead.reg, putBytes_zero_eight,
    lowBytes_eight]

theorem Coherent.registerAdd (coherent : s.Coherent ops) (addend : BitVec 64) :
    (s.registerAdd ops i addend).Coherent ops :=
  (sameRegisters_gprRead.coherent coherent).gprWriteShifted

/-! ## Flushing -/

section Flush

variable (lawful : ops.Lawful)

include lawful

/-- The registers after those of a list were written. -/
theorem readGpr_foldl_writeGpr (w : Fin 16 → Bool) (x : Fin 16 → BitVec 64) (l : List (Fin 16))
    (v : ω) (j : Fin 16) :
    ops.readGpr (l.foldl (fun v i => if w i then ops.writeGpr i (x i) v else v) v) j =
      if j ∈ l ∧ w j = true then x j else ops.readGpr v j := by
  induction l generalizing v with
  | nil => simp
  | cons i l ih =>
    rw [List.foldl_cons, ih]
    by_cases same : j = i
    · subst same
      cases written : w j <;> simp [lawful.writeGpr]
    · by_cases written : w i = true <;> simp [written, lawful.writeGpr, same]

/-- After a flush the virtual CPU has the registers that the emulator works with. -/
theorem Coherent.readGpr_flush (coherent : s.Coherent ops) :
    ops.readGpr (s.gprCacheFlush ops).vcpu = s.reg ops := by
  funext j
  rw [gprCacheFlush, readGpr_foldl_writeGpr lawful, reg]
  cases dirty : s.ctxt.cache.w j with
  | true => rw [if_pos ⟨List.mem_finRange j, rfl⟩, if_pos (coherent.dirty j dirty)]
  | false =>
    rw [if_neg (by simp)]
    split_ifs with cached
    · exact (coherent.clean j cached dirty).symm
    · rfl

theorem Coherent.flush (coherent : s.Coherent ops) : (s.gprCacheFlush ops).Coherent ops := by
  refine ⟨fun i dirty => by simp [gprCacheFlush] at dirty, fun i cached _ => ?_⟩
  rw [coherent.readGpr_flush lawful]
  exact (if_pos cached).symm

theorem Coherent.reg_flush (coherent : s.Coherent ops) :
    (s.gprCacheFlush ops).reg ops = s.reg ops := by
  rw [(coherent.flush lawful).reg_eq rfl, coherent.readGpr_flush lawful]

end Flush

end Emulator

end Haxm
