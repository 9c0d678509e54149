/-
# Protected pages are not mapped

A page that user space has protected must not be accessible to the guest, so it
must not have a present EPT entry. Protecting a page removes its entry. A
violation looks for protected pages in the 2MB of guest memory around the
faulting page, and then creates the entries for all pages behind a chunk of 2MB
of host memory. If the two do not coincide, a protected page may slip through.
The only other way is that the entry cannot be removed, because its table cannot be
mapped: nobody is told.
-/

import Haxm.Vm.Vm

namespace Haxm

open Lib

/-- If the pages that are looked at are not protected, then none of the pages that
a violation makes accessible is protected. -/
def WindowSuffices (sp : GpaSpace EptTree) (gpa : ℕ) : Prop :=
  gpaSpaceIsChunkProtected sp.prot (gpa / 2 ^ pgOrder4K) = none →
    ∀ r ∈ violationRange sp gpa, ∀ g < r.startGfn + r.npages, r.startGfn ≤ g →
      gpaSpaceIsPageProtected sp.prot g = false

instance (sp : GpaSpace EptTree) (gpa : ℕ) : Decidable (WindowSuffices sp gpa) :=
  inferInstanceAs (Decidable (_ → _))

/-- What keeps protected pages unmapped: violations where the window suffices, and tables
that are mapped while pages are protected. -/
def ProtectionKept (sp : GpaSpace EptTree) (answers : VmAnswers) : VmCall → Prop
  | .accessViolation _ gpa _ => WindowSuffices sp gpa
  | .protectRam .. => answers.unmapped = []
  | _ => True

instance (sp : GpaSpace EptTree) (answers : VmAnswers) :
    (call : VmCall) → Decidable (ProtectionKept sp answers call)
  | .accessViolation .. => inferInstanceAs (Decidable (WindowSuffices ..))
  | .protectRam .. => inferInstanceAs (Decidable (_ = _))
  | .addRamblock .. | .setRam .. | .getPfn .. => .isTrue trivial

/-- Such calls, with sane arguments. -/
def ProtectionAllowed (sp : GpaSpace EptTree) (i : VmAnswers × VmCall) : Prop :=
  i.2.Sane ∧ ProtectionKept sp i.1 i.2

instance (sp : GpaSpace EptTree) (i : VmAnswers × VmCall) : Decidable (ProtectionAllowed sp i) :=
  inferInstanceAs (Decidable (_ ∧ _))

/-- The bitmap has no bits behind its end, and pages whose bit is set have no
entry. -/
structure ProtectionOk (sp : GpaSpace EptTree) : Prop where
  ends : ∀ g, Bitmap.test sp.prot.bitmap g = true → g < sp.prot.endGfn
  unmapped : ∀ g, Bitmap.test sp.prot.bitmap g = true → sp.env.leaf g = Epte.zero

variable {host : Host} {sp sp' : GpaSpace EptTree} {ret : ℤ}

/-- Entries may go away and bits may be cleared. -/
theorem ProtectionOk.mono (ok : ProtectionOk sp) (hend : sp.prot.endGfn ≤ sp'.prot.endGfn)
    (bits : ∀ g, Bitmap.test sp'.prot.bitmap g = true → Bitmap.test sp.prot.bitmap g = true)
    (leaves : ∀ g, Bitmap.test sp.prot.bitmap g = true → sp.env.leaf g = Epte.zero →
      sp'.env.leaf g = Epte.zero) : ProtectionOk sp' where
  ends g hg := (ok.ends g (bits g hg)).trans_le hend
  unmapped g hg := leaves g (bits g hg) (ok.unmapped g (bits g hg))

theorem ProtectionOk.gfnOk (ok : ProtectionOk sp) (bound : sp.prot.endGfn < 2 ^ 31) {g : ℕ}
    (hg : Bitmap.test sp.prot.bitmap g = true) : GfnOk g := by
  have := ok.ends g hg
  change g < 2 ^ 36
  omega

theorem GpaSpace.invept_leaf (sp : GpaSpace EptTree) (g : ℕ) :
    sp.invept.env.leaf g = sp.env.leaf g := by
  unfold GpaSpace.invept
  split_ifs <;> rfl

theorem GpaSpace.invept_prot (sp : GpaSpace EptTree) : sp.invept.prot = sp.prot := by
  unfold GpaSpace.invept
  split_ifs <;> rfl

section Steps

variable (ok : VmOk host sp) (safe : ProtectionOk sp)

include ok safe

theorem memslotSetMapping_protectionOk {startGfn npages uva flags : ℕ}
    (bound : startGfn + npages < 2 ^ 31)
    (h : memslotSetMapping sp startGfn npages uva flags = (ret, sp')) : ProtectionOk sp' := by
  cases memslotSetMapping_step h with
  | empty => exact safe
  | refused => exact ⟨safe.ends, safe.unmapped⟩
  | carried carried =>
    obtain ⟨-, -, -, hprot⟩ := ok.carried_since bound carried
    refine safe.mono (by rw [hprot]) (by simp [hprot]) fun g hg hzero => ?_
    exact (ok.carried_pruned bound carried).unmapped (safe.gfnOk ok.prot hg) hzero

theorem handleSetRam_protectionOk {startGpa size startUva flags : ℕ} :
    ProtectionOk (handleSetRam sp startGpa size startUva flags).2 := by
  rcases h : handleSetRam sp startGpa size startUva flags with ⟨ret, sp'⟩
  obtain ⟨sp₀, adjusted, cases⟩ := handleSetRam_cases ok.prot h
  have safe₀ : ProtectionOk sp₀ := by
    obtain ⟨f, -, hsame⟩ := adjusted.same
    refine safe.mono adjusted.grown adjusted.bits fun g _ hzero => ?_
    rw [hsame]
    exact hzero
  rcases cases with ⟨-, rfl⟩ | ⟨bound, sp₁, hset, rfl⟩
  · exact safe₀
  · have safe₁ := memslotSetMapping_protectionOk (adjusted.ok ok) safe₀ bound hset
    dsimp only
    split_ifs
    · exact safe₁.mono (by rw [GpaSpace.invept_prot]) (by simp [GpaSpace.invept_prot])
        fun g _ hzero => by rwa [GpaSpace.invept_leaf]
    · exact safe₁

/-- Setting the bits of a range goes together with removing its entries. -/
theorem haxVmProtectRam_protectionOk {startGpa size flags : ℕ} (fits : startGpa + size ≤ word)
    (maps : sp.env.Maps) :
    ProtectionOk (haxVmProtectRam sp startGpa size flags).2 := by
  rcases h : haxVmProtectRam sp startGpa size flags with ⟨ret, sp'⟩
  rcases haxVmProtectRam_cases ok fits h with ⟨-, rfl⟩ | ⟨-, range⟩
  · exact safe
  · obtain ⟨nonempty, hlast, sp₁, events, -, hsp₁, hend, written, rfl⟩ := range
    generalize (startGpa + size - 1) / 2 ^ pgOrder4K + 1 = last at *
    generalize startGpa / 2 ^ pgOrder4K = first at *
    have henv : sp₁.env = sp.env := by rw [hsp₁]
    have bound := ok.prot
    by_cases set : flags &&& haxRamPermMask = haxRamPermNone
    · obtain ⟨place, tree⟩ := ok.tree
      have removed : Invalidated sp.env first (first + (last - first))
          (eptTreeInvalidateEntries host sp.env first (last - first)).2.1 :=
        eptTreeInvalidateEntries_invalidated tree (by omega)
      have hbit (g : ℕ) : Bitmap.test sp₁.prot.bitmap g =
          if first ≤ g ∧ g < last then true else Bitmap.test sp.prot.bitmap g := by
        simpa [set] using written g
      simp only [set, decide_true, if_true]
      refine ⟨fun g hg => ?_, fun g hg => ?_⟩
      · change Bitmap.test sp₁.prot.bitmap g = true at hg
        change g < sp₁.prot.endGfn
        rw [hbit] at hg
        split_ifs at hg
        · omega
        · have := safe.ends g hg
          omega
      · change Bitmap.test sp₁.prot.bitmap g = true at hg
        change (eptTreeInvalidateEntries host sp₁.env first (last - first)).2.1.leaf g = Epte.zero
        rw [henv]
        rw [hbit] at hg
        split_ifs at hg with hin
        · exact removed.complete maps g hin.1 (by omega)
        · exact removed.pruned.unmapped (safe.gfnOk bound hg) (safe.unmapped g hg)
    · simp only [set, decide_false, Bool.false_eq_true, if_false]
      refine safe.mono hend.ge (fun g hg => ?_) fun g _ hzero => by rwa [henv]
      have hbit := written g
      rw [hg] at hbit
      split_ifs at hbit with hin
      · simp [set] at hbit
      · exact hbit.symm

/-- A violation creates entries for pages that are not protected. -/
theorem eptHandleAccessViolation_protectionOk {pin : Option ℕ} {qual gpa : ℕ}
    (window : WindowSuffices sp gpa) :
    ProtectionOk (eptHandleAccessViolation host pin sp qual gpa).2.2 := by
  rcases h : eptHandleAccessViolation host pin sp qual gpa with ⟨ret, fault, sp'⟩
  obtain ⟨-, hsp', henv | ⟨slot, a, b, c, o, r, filling⟩⟩ :=
    eptHandleAccessViolation_cases ok.blocks h
  · rw [hsp', henv]
    exact ⟨safe.ends, safe.unmapped⟩
  · obtain ⟨place, tree⟩ := ok.tree
    have created := (filling.tree_created tree (ok.slots slot filling.slot_covers.1).2.1).1
    have free := window filling.unprotected r filling.range
    rw [hsp']
    refine safe.mono le_rfl (fun _ => id) fun g hg hzero => ?_
    have hend := safe.ends g hg
    rcases created.leaf g (safe.gfnOk ok.prot hg) with same | ⟨hin, -⟩
    · exact same.trans hzero
    · have hfree := free g hin.2 hin.1
      rw [gpaSpaceIsPageProtected, if_neg (by omega), hg] at hfree
      cases hfree

theorem vmStep_protectionOk {i : VmAnswers × VmCall} (allowed : ProtectionAllowed sp i) :
    ProtectionOk (vmStep host sp i) := by
  obtain ⟨answers, call⟩ := i
  obtain ⟨sane, kept⟩ := allowed
  have ok₀ := ok.withAnswers answers
  have safe₀ : ProtectionOk (sp.withAnswers answers) := ⟨safe.ends, safe.unmapped⟩
  cases call with
  | addRamblock startUva size =>
    obtain ⟨m, h, -⟩ := handleAllocRam_cases ok₀.counted startUva size
    change ProtectionOk (handleAllocRam (sp.withAnswers answers) startUva size).2
    rw [h]
    exact ⟨safe.ends, safe.unmapped⟩
  | setRam startGpa size startUva flags => exact handleSetRam_protectionOk ok₀ safe₀
  | protectRam startGpa size flags => exact haxVmProtectRam_protectionOk ok₀ safe₀ sane kept
  | accessViolation qual gpa pin =>
    exact eptHandleAccessViolation_protectionOk ok₀ safe₀ kept
  | getPfn gfn pin =>
    obtain ⟨m, -, h⟩ := gpaSpaceGetPfn_added ok₀.blocks host pin gfn
    change ProtectionOk (gpaSpaceGetPfn host pin (sp.withAnswers answers) gfn).2.2
    rw [h]
    exact ⟨safe.ends, safe.unmapped⟩

end Steps

/-- In every run in which the window of each violation suffices and `protect_ram` can map
the tables, a protected page has no present EPT entry. -/
theorem protected_not_present {tree : EptTree} (init : eptTreeInit host = some tree)
    (reached : Reached (vmInit host tree) ProtectionAllowed (vmStep host) sp) {g : ℕ}
    (h : gpaSpaceIsPageProtected sp.prot g = true) : (sp.env.leaf g).perm = haxEptPermNone := by
  have ok : VmOk host sp ∧ ProtectionOk sp := by
    refine reached.invariant (I := fun sp => VmOk host sp ∧ ProtectionOk sp)
      ⟨vmInit_ok init, ⟨?_, ?_⟩⟩ fun sp i ⟨ok, safe⟩ allowed =>
        ⟨vmStep_ok ok allowed.1, vmStep_protectionOk ok safe allowed⟩
    · simp [vmInit, GpaSpace.init, Bitmap.test]
    · simp [vmInit, GpaSpace.init, Bitmap.test]
  have hbit : Bitmap.test sp.prot.bitmap g = true := by
    unfold gpaSpaceIsPageProtected at h
    split_ifs at h
    exact h
  rw [ok.2.unmapped g hbit]
  rfl

/-- Two pages of a block are mapped, entered into the EPT, and the second one is
protected. -/
def protectCalls : List VmCall :=
  [.addRamblock 0x10000 0x2000, .setRam 0 0x2000 0x10000 0, .accessViolation 0 0 (some 100),
    .protectRam 0x1000 0x1000 haxRamPermNone]

theorem protectCalls_not_present :
    gpaSpaceIsPageProtected (smallRun protectCalls).prot 1 = true ∧
      ((smallRun protectCalls).env.leaf 0).perm = haxEptPermRwx ∧
      ((smallRun protectCalls).env.leaf 1).perm = haxEptPermNone :=
  ⟨by decide +kernel, by decide +kernel, protected_not_present smallTree_init
    (smallRun_reached (by decide +kernel)) (by decide +kernel)⟩

/-- Two pages of a block are mapped on either side of a 2MB boundary, and the one
behind it is protected. The violation at the other one does not look that far. -/
def straddlingCalls : List VmCall :=
  [.addRamblock 0x10000 0x2000, .setRam 0x1ff000 0x2000 0x10000 0,
    .protectRam 0x200000 0x1000 haxRamPermNone, .accessViolation 0 0x1ff000 (some 100)]

theorem straddlingCalls_present :
    Reached (vmInit smallHost smallTree) (fun _ i => i.2.Sane) (vmStep smallHost)
        (smallRun straddlingCalls) ∧
      gpaSpaceIsPageProtected (smallRun straddlingCalls).prot 512 = true ∧
      ((smallRun straddlingCalls).env.leaf 512).perm = haxEptPermRwx :=
  ⟨smallRun_reached (by decide +kernel), by decide +kernel, by decide +kernel⟩

end Haxm
