/-
# When the page walker translates as the processor does

The walker departs from the architecture in five places. It does not check bit 7
of a PML4 entry, nor bits 8:5 of a 32-bit PAE page-directory-pointer-table
entry, and takes bit 7 of the latter to map a 1-GByte page. It accepts 1-GByte
pages also where the processor has none. It takes the bits by which PSE-36
extends the address of a 4-MByte page to be reserved. It follows all of CR3
where the processor uses the low 32 bits.

Meeting one of these does no harm when both sides refuse the access anyway. The
condition here says exactly that, entry by entry.
-/

import Haxm.Paging.Refinement

namespace Haxm

open Lib

variable {t : Translation}

/-- A result says how the translation ended: success with the address, or failure
with `TF_PROTECT` for a violation and without it for a missing entry. -/
def PwResult.Reports (r : PwResult) : Translation → Prop
  | .page pa => r.retval = tfOk ∧ r.gpa = pa
  | .notPresent => r.retval ≠ tfOk ∧ r.retval &&& tfProtect = 0
  | .violation => r.retval ≠ tfOk ∧ r.retval &&& tfProtect ≠ 0

theorem PwResult.reports_iff {r : PwResult} : r.Reports t ↔ r.translation = t := by
  unfold translation
  by_cases ok : r.retval = tfOk
  · rw [if_pos ok]
    cases t with
    | page pa => simp [Reports, ok]
    | notPresent => exact iff_of_false (fun h => h.1 ok) (by simp)
    | violation => exact iff_of_false (fun h => h.1 ok) (by simp)
  rw [if_neg ok]
  by_cases protect : r.retval &&& tfProtect = 0
  · rw [if_neg (fun h => bne_iff_ne.1 h protect)]
    cases t with
    | page pa => exact iff_of_false (fun h => ok h.1) (by simp)
    | notPresent => exact iff_of_true ⟨ok, protect⟩ rfl
    | violation => exact iff_of_false (fun h => h.2 protect) (by simp)
  · rw [if_pos (bne_iff_ne.2 protect)]
    cases t with
    | page pa => exact iff_of_false (fun h => ok h.1) (by simp)
    | notPresent => exact iff_of_false (fun h => protect h.2) (by simp)
    | violation => exact iff_of_true ⟨ok, protect⟩ rfl

/-! ### One step of a translation -/

section Step

variable {read : PwTable → BitVec 64 → BitVec 32 → Option PwEntry} {permits : PagingRights → Bool}
  {va base : BitVec 64} {l : PagingLevel} {rest : List PagingLevel} {r : PagingRights} {e : PwEntry}

/-- The entry that a level selects. -/
def PagingLevel.entry (l : PagingLevel) (read : PwTable → BitVec 64 → BitVec 32 → Option PwEntry)
    (va base : BitVec 64) : Option PwEntry :=
  read l.table base ((va.extractLsb' l.shift l.width).setWidth 32)

/-- What comes of an entry that is present. -/
def PagingLevel.follow (l : PagingLevel) (read : PwTable → BitVec 64 → BitVec 32 → Option PwEntry)
    (permits : PagingRights → Bool) (va : BitVec 64) (rest : List PagingLevel) (r : PagingRights)
    (e : PwEntry) : Option Translation :=
  if l.reserved e.val then some .violation
  else if l.isPage e.val then
    some (if permits (r.inter (l.rights e.val)) then
      .page (l.frame e.val ||| (va.extractLsb' 0 l.shift).setWidth 64) else .violation)
  else translate read permits va rest (e.val &&& 0x000ffffffffff000) (r.inter (l.rights e.val))

theorem translate_eq : translate read permits va (l :: rest) base r =
    (l.entry read va base).bind fun e =>
      if !e.present then some .notPresent else l.follow read permits va rest r e := rfl

end Step

/-! ### The condition -/

namespace PwInput

variable (f : PagingFeatures) (x : PwInput) (ram : PwRam)

/-- The translation below an entry, by the rules of the walker, ends in a violation. -/
def Denied (levels : List PagingLevel) (e : PwEntry) (r : PagingRights) : Prop :=
  translate (x.entry ram) x.permits x.virtAddr levels (e.val &&& 0x000ffffffffff000) r =
    some .violation

/-- 4-level paging: a PML4 entry with bit 7 set leads to a violation in any case,
and so does an entry for a 1-GByte page that the processor does not have. -/
def LongConforms : Prop :=
  ∀ e₄, (f.pml4Level .all x.isNxe).entry (x.entry ram) x.virtAddr (x.root .all) = some e₄ →
    e₄.present = true → f.reserved64 x.isNxe e₄.val = false →
    if e₄.val.getLsbD 7 then
      x.Denied ram [f.haxm.pdptLevel x.isNxe, pdLevel (f.reserved64 x.isNxe),
        ptLevel (f.reserved64 x.isNxe)] e₄ (.ofEntry e₄.val)
    else
      ∀ e₃, (f.pdptLevel x.isNxe).entry (x.entry ram) x.virtAddr
          (e₄.val &&& 0x000ffffffffff000) = some e₃ →
        e₃.present = true → (f.haxm.pdptLevel x.isNxe).reserved e₃.val = false →
        e₃.val.getLsbD 7 = true → f.page1gb = false →
          x.permits ((PagingRights.ofEntry e₄.val).inter (.ofEntry e₃.val)) = false

/-- 32-bit PAE paging: a page-directory-pointer-table entry with one of the bits
8:5 set does not have bit 7 set and leads to a violation in any case. -/
def PaeConforms : Prop :=
  ∀ e₃, (f.paePdptLevel .all).entry (x.entry ram) x.virtAddr (x.root .all) = some e₃ →
    e₃.present = true → (f.haxm.paePdptLevel .none).reserved e₃.val = false →
    anyBit 5 4 e₃.val = true →
      e₃.val.getLsbD 7 = false ∧
        x.Denied ram [pdLevel (f.reservedPae x.isNxe), ptLevel (f.reservedPae x.isNxe)] e₃ {}

/-- 32-bit paging: a 4-MByte page above 4 GByte is not accessible. -/
def LegacyConforms : Prop :=
  ∀ e₂, (f.pd32Level x.isPse).entry (x.entry ram) x.virtAddr (x.root .all) = some e₂ →
    e₂.present = true → (f.pd32Level x.isPse).isPage e₂.val = true →
    (f.pd32Level x.isPse).reserved e₂.val = false → anyBit 13 9 e₂.val = true →
      x.permits (.ofEntry e₂.val) = false

/-- None of the departures shows. Where CR3 names another table than its low 32
bits do, the two tables lead to the same outcome. -/
def Conforms : Prop :=
  if x.root .all = x.root .none then
    if x.isPae then if x.isLme then x.LongConforms f ram else x.PaeConforms f ram
    else x.LegacyConforms f ram
  else
    x.architectural f ram = some ((x.translation f.haxm .none ram).getD .notPresent)

end PwInput

/-! ### The condition is exact -/

/-- Two outcomes at a level that reads the same entry for both of them: without an entry
that is present there is nothing to compare. -/
theorem outcome_step_iff {read : PwTable → BitVec 64 → BitVec 32 → Option PwEntry}
    {permits : PagingRights → Bool} {va base : BitVec 64} {l l' : PagingLevel}
    {rest rest' : List PagingLevel} {r : PagingRights} {Q : PwEntry → Prop}
    (same : l'.entry read va base = l.entry read va base)
    (arch : translate read permits va (l :: rest) base r = some t)
    (step : ∀ e, l.follow read permits va rest r e = some t →
      ((l'.follow read permits va rest' r e).getD .notPresent = t ↔ Q e)) :
    (translate read permits va (l' :: rest') base r).getD .notPresent = t ↔
      ∀ e, l.entry read va base = some e → e.present = true → Q e := by
  rw [translate_eq] at arch ⊢
  rw [same]
  cases found : l.entry read va base with
  | none =>
    rw [found] at arch
    cases arch
  | some e =>
    rw [found] at arch
    cases present : e.present with
    | false => simpa [present] using arch
    | true => simpa [present] using step e (by simpa [present] using arch)

/-- Where both sides come to the same, the walker's condition has to hold anyway. -/
theorem agree {a : Option Translation} {P : Prop} (arch : a = some t) (h : P := by simp) :
    a.getD .notPresent = t ↔ P := by
  simp [arch, h]

theorem outcome_violation (a : Option Translation) :
    a.getD .notPresent = .violation ↔ a = some .violation := by
  cases a <;> simp

section Exact

variable {f : PagingFeatures} {x : PwInput} {ram : PwRam} {t : Translation}

theorem PagingRights.inter_full (r : PagingRights) : ({} : PagingRights).inter r = r := by
  simp [inter]

/-- Below a PML4 entry without bit 7, only a 1-GByte page makes a difference. -/
theorem PwInput.long_below_iff {rest : List PagingLevel} {base : BitVec 64} {r : PagingRights}
    (arch : translate (x.entry ram) x.permits x.virtAddr (f.pdptLevel x.isNxe :: rest) base r =
      some t) :
    (translate (x.entry ram) x.permits x.virtAddr (f.haxm.pdptLevel x.isNxe :: rest) base r).getD
        .notPresent = t ↔
      ∀ e₃, (f.pdptLevel x.isNxe).entry (x.entry ram) x.virtAddr base = some e₃ →
        e₃.present = true → (f.haxm.pdptLevel x.isNxe).reserved e₃.val = false →
        e₃.val.getLsbD 7 = true → f.page1gb = false →
          x.permits (r.inter (.ofEntry e₃.val)) = false := by
  refine outcome_step_iff rfl arch fun e arch => ?_
  have reserved : (f.pdptLevel x.isNxe).reserved e.val =
      ((f.haxm.pdptLevel x.isNxe).reserved e.val || e.val.getLsbD 7 && !f.page1gb) := by
    simp only [PagingFeatures.pdptLevel, PagingFeatures.haxm, PagingFeatures.reserved64]
    cases f.page1gb <;> cases e.val.getLsbD 7 <;> simp
  have level (g : PagingFeatures) : (g.pdptLevel x.isNxe).isPage e.val = e.val.getLsbD 7 ∧
    (g.pdptLevel x.isNxe).rights = .ofEntry := ⟨rfl, rfl⟩
  simp only [PagingLevel.follow, reserved, level] at arch ⊢
  revert arch
  cases (f.haxm.pdptLevel x.isNxe).reserved e.val
  case true => exact agree
  cases e.val.getLsbD 7
  case false => exact agree
  cases f.page1gb
  case true => exact agree
  rintro ⟨⟩
  cases x.permits (r.inter (.ofEntry e.val)) <;> simp

theorem PwInput.longConforms_iff (isPae : x.isPae = true) (lme : x.isLme = true)
    (roots : x.root .all = x.root .none) (arch : x.architectural f ram = some t) :
    (x.translation f.haxm .none ram).getD .notPresent = t ↔ x.LongConforms f ram := by
  unfold architectural translation levels at arch
  unfold translation levels LongConforms
  simp only [isPae, lme, if_true, ← roots] at arch ⊢
  refine outcome_step_iff rfl arch fun e arch => ?_
  have reserved : (f.pml4Level .all x.isNxe).reserved e.val =
      (f.reserved64 x.isNxe e.val || e.val.getLsbD 7) := by
    simp [PagingFeatures.pml4Level, PagingChecks.all, anyBit_one]
  have reserved' : (f.haxm.pml4Level .none x.isNxe).reserved e.val = f.reserved64 x.isNxe e.val :=
    Bool.or_false _
  have level (g : PagingFeatures) (c : PagingChecks) :
      (g.pml4Level c x.isNxe).isPage e.val = false ∧ (g.pml4Level c x.isNxe).rights = .ofEntry :=
    ⟨rfl, rfl⟩
  simp only [PagingLevel.follow, reserved, reserved', level, PagingRights.inter_full] at arch ⊢
  revert arch
  cases f.reserved64 x.isNxe e.val
  case true => exact agree
  cases e.val.getLsbD 7
  case true =>
    rintro ⟨⟩
    exact (outcome_violation _).trans (by simp [PwInput.Denied]; rfl)
  exact fun arch => (long_below_iff arch).trans (by simp)

theorem PwInput.paeConforms_iff (isPae : x.isPae = true) (noLme : x.isLme = false)
    (roots : x.root .all = x.root .none) (arch : x.architectural f ram = some t) :
    (x.translation f.haxm .none ram).getD .notPresent = t ↔ x.PaeConforms f ram := by
  unfold architectural translation levels at arch
  unfold translation levels PaeConforms
  simp only [isPae, noLme, if_true, Bool.false_eq_true, if_false, ← roots] at arch ⊢
  refine outcome_step_iff rfl arch fun e arch => ?_
  have reserved : (f.paePdptLevel .all).reserved e.val =
      ((f.haxm.paePdptLevel .none).reserved e.val || anyBit 5 4 e.val) := by
    simp [PagingFeatures.paePdptLevel, PagingChecks.all, PagingChecks.none, PagingFeatures.haxm]
  have isPage : (f.paePdptLevel .all).isPage e.val = false := rfl
  have isPage' : (f.haxm.paePdptLevel .none).isPage e.val = e.val.getLsbD 7 := rfl
  have small (clear : anyBit 5 4 e.val = false) : e.val.getLsbD 7 = false :=
    anyBit_eq_false.1 clear 7 (by omega) (by omega)
  simp only [PagingLevel.follow, reserved, isPage, isPage'] at arch ⊢
  revert arch
  cases (f.haxm.paePdptLevel .none).reserved e.val
  case true => exact agree
  cases more : anyBit 5 4 e.val
  case false =>
    rw [small more]
    exact agree
  rintro ⟨⟩
  cases e.val.getLsbD 7
  case false => exact (outcome_violation _).trans (by simp [PwInput.Denied]; rfl)
  -- nothing stands between the access and the page
  have permits : x.permits (({} : PagingRights).inter
      ((f.haxm.paePdptLevel .none).rights e.val)) = true := by
    change x.permits {} = true
    unfold PwInput.permits
    cases x.isWrite <;> cases x.isUser <;> cases x.isFetch && x.isPae && x.isNxe <;> rfl
  simp [permits]

theorem PwInput.legacyConforms_iff (noPae : x.isPae = false)
    (roots : x.root .all = x.root .none) (arch : x.architectural f ram = some t) :
    (x.translation f.haxm .none ram).getD .notPresent = t ↔ x.LegacyConforms f ram := by
  unfold architectural translation levels at arch
  unfold translation levels LegacyConforms
  simp only [noPae, Bool.false_eq_true, if_false, ← roots] at arch ⊢
  refine outcome_step_iff rfl arch fun e arch => ?_
  have reserved : (f.pd32Level x.isPse).reserved e.val = true → anyBit 13 9 e.val = true := by
    intro h
    have width : 32 ≤ f.pseWidth ∧ f.pseWidth ≤ 40 := by
      have low := f.low
      unfold PagingFeatures.pseWidth
      split <;> omega
    obtain ⟨i, lo, hi, set⟩ := anyBit_iff.1 (Bool.and_eq_true_iff.1 h).2
    exact anyBit_iff.2 ⟨i, by omega, by omega, set⟩
  have reserved' : (f.haxm.pd32Level x.isPse).reserved e.val =
    ((f.pd32Level x.isPse).isPage e.val && anyBit 13 9 e.val) := rfl
  have isPage : (f.haxm.pd32Level x.isPse).isPage e.val = (f.pd32Level x.isPse).isPage e.val := rfl
  have rights : (f.pd32Level x.isPse).rights e.val = .ofEntry e.val := rfl
  simp only [PagingLevel.follow, reserved', isPage, rights, PagingRights.inter_full] at arch ⊢
  revert arch
  cases page : (f.pd32Level x.isPse).isPage e.val
  case false =>
    have clear : (f.pd32Level x.isPse).reserved e.val = false := by
      change ((f.pd32Level x.isPse).isPage e.val && _) = false
      rw [page, Bool.false_and]
    rw [clear]
    exact agree
  cases bits : (f.pd32Level x.isPse).reserved e.val
  case true =>
    rw [reserved bits]
    exact agree
  cases anyBit 13 9 e.val
  case false => exact agree
  rintro ⟨⟩
  cases x.permits (.ofEntry e.val) <;> simp

end Exact

/-- The walk reports what the processor finds if and only if none of the
departures shows. The tables that the processor visits are mapped, since its
translation has an outcome. -/
theorem pwPerformPageWalk_reports_iff (f : PagingFeatures) (x : PwInput) (ram : PwRam)
    (ok : x.PagingEnabled) (mask : x.reservedBitsHighMask = pwReservedBitsHighMask f.maxPhyAddr)
    (free : x.access &&& tfProtect = 0) (t : Translation)
    (arch : x.architectural f ram = some t) :
    (pwPerformPageWalk x ram).1.Reports t ↔ x.Conforms f ram := by
  have bit : x.access.getLsbD 0 = false := by
    have low : IsMask tfProtect 0 1 := by decide
    rw [← anyBit_one, ← low.and_bne_zero, free]
    rfl
  rw [PwResult.reports_iff, pwPerformPageWalk_translation f x ram ok mask bit]
  unfold PwInput.Conforms
  by_cases roots : x.root .all = x.root .none
  · rw [if_pos roots]
    cases isPae : x.isPae with
    | false => exact PwInput.legacyConforms_iff isPae roots arch
    | true =>
      cases lme : x.isLme with
      | true => exact PwInput.longConforms_iff isPae lme roots arch
      | false => exact PwInput.paeConforms_iff isPae lme roots arch
  · rw [if_neg roots, arch, Option.some.injEq, eq_comm]

/-- A processor with 36-bit physical addresses. -/
def cpu36 : PagingFeatures where
  maxPhyAddr := 36
  page1gb := true
  pse36 := true
  low := by decide
  high := by decide

/-- A supervisor read at address 0 in 32-bit PAE mode, with all tables in page 0. -/
def paeWalk : PwInput :=
  { flatWalk with cr4 := 0x20, reservedBitsHighMask := pwReservedBitsHighMask 36 }

/-- A page whose first byte is given. -/
def oneByte (b : BitVec 8) : PwRam := fun page offset => if page = 0 ∧ offset = 0 then b else 0

theorem paeWalk_pagingEnabled : paeWalk.PagingEnabled := ⟨rfl, rfl, by decide⟩

theorem paeWalk_reports :
    paeWalk.architectural cpu36 (oneByte 1) = some (.page 0) ∧
      (pwPerformPageWalk paeWalk (oneByte 1)).1.Reports (.page 0) := by
  have arch : paeWalk.architectural cpu36 (oneByte 1) = some (.page 0) := by decide +kernel
  refine ⟨arch, (pwPerformPageWalk_reports_iff cpu36 paeWalk (oneByte 1) paeWalk_pagingEnabled rfl
    (by decide) _ arch).2 ?_⟩
  have roots : paeWalk.root .all = paeWalk.root .none := by decide
  have entry : (cpu36.paePdptLevel .all).entry (paeWalk.entry (oneByte 1)) paeWalk.virtAddr
      (paeWalk.root .all) = some ⟨1⟩ := by decide +kernel
  have low : anyBit 5 4 (1 : BitVec 64) = false := by decide
  rw [PwInput.Conforms, if_pos roots]
  intro e found _ _ more
  obtain rfl := Option.some.inj (entry.symm.trans found)
  exact absurd more (by rw [low]; decide)

/-- A page-directory-pointer-table entry with bit 7 set is refused by the processor
and taken for a 1-GByte page by the walker. -/
theorem paeWalk_not_reports :
    paeWalk.PagingEnabled ∧ paeWalk.architectural cpu36 (oneByte 0x81) = some .violation ∧
      ¬ (pwPerformPageWalk paeWalk (oneByte 0x81)).1.Reports .violation := by
  refine ⟨paeWalk_pagingEnabled, by decide +kernel, ?_⟩
  rw [PwResult.reports_iff]
  decide +kernel

end Haxm
