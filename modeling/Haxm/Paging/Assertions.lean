/-
# Which guest tables trip an assertion of the page walker

Every assertion of the walker says that an index is in range, that a pointer was
set or that an entry is present. The checks of the walk establish each of them
before it is needed, with one exception: the address of the page is taken out of
the page-table entry before that entry is known to be present. A walk therefore
fails an assertion exactly when it gets as far as a page-table entry that is not
present.
-/

import Haxm.Paging.Levels

namespace Haxm

/-! ### The entries a walk gets to -/

namespace PwInput

variable (x : PwInput) (ram : PwRam)

/-- The address in an entry that passed its checks. -/
def below (cleared : PwEntry → Bool) (isPage : PwEntry → Bool) (e : PwEntry) :
    Option (BitVec 64) :=
  if e.present && cleared e && !isPage e then some (pwPhysAddr e x.isPae) else none

/-- The page-directory-pointer table of the walk. -/
def pdptGpa : Option (BitVec 64) :=
  if x.isLme then
    (x.entry ram .pml4t x.firstTable x.indices.pml4te).bind
      (x.below (pwAreReservedBitsInPml4teCleared x.reservedBitsHighMask · x.isNxe) fun _ => false)
  else some x.firstTable

/-- The page directory below a page-directory-pointer table. -/
def pdBelow (pdpt : BitVec 64) : Option (BitVec 64) :=
  (x.entry ram .pdpt pdpt x.indices.pdpte).bind
    (x.below (pwAreReservedBitsInPdpteCleared x.reservedBitsHighMask · x.isNxe x.isLme)
      pwIs1gbPagePdpte)

/-- The page directory of the walk. -/
def pdGpa : Option (BitVec 64) :=
  if x.isPae then (x.pdptGpa ram).bind (x.pdBelow ram) else some x.firstTable

/-- The page table below a page directory. -/
def ptBelow (pd : BitVec 64) : Option (BitVec 64) :=
  (x.entry ram .pd pd x.indices.pde).bind
    (x.below (pwAreReservedBitsInPdeCleared x.reservedBitsHighMask · x.isNxe x.isLme x.isPae
      x.isPse) (pwIsBigPagePde · x.isLme x.isPae x.isPse))

/-- The page-table entry below a page directory. -/
def pteBelow (pd : BitVec 64) : Option PwEntry :=
  (x.ptBelow ram pd).bind fun pt => x.entry ram .pt pt x.indices.pte

/-- The page-table entry of the walk: the tables above it can be mapped, their
entries are present with clear reserved bits, and none of them maps a page. -/
def reachedPte : Option PwEntry := (x.pdGpa ram).bind (x.pteBelow ram)

end PwInput

/-- The control registers of a vCPU that has paging enabled: `LMA` is `LME` and
`PG`, and long mode comes with PAE. -/
structure PwInput.PagingEnabled (x : PwInput) : Prop where
  pg : x.cr0.getLsbD 31
  lma : x.efer.getLsbD 10 = (x.efer.getLsbD 8 && x.cr0.getLsbD 31)
  pae : x.efer.getLsbD 10 → x.cr4.getLsbD 5

theorem PwInput.PagingEnabled.isPae {x : PwInput} (ok : x.PagingEnabled) (lme : x.isLme = true) :
    x.isPae = true := by
  apply ok.pae
  rw [ok.lma, ok.pg, Bool.and_true]
  exact lme

/-! ### States without a failed assertion -/

theorem pwCmpxchg64_clean {s : PwState} (o n : BitVec 64) (p : PwPtr) :
    (pwCmpxchg64 s o n p).Clean ↔ s.Clean := by
  have logged : (s.log (.cmpxchg p)).Clean ↔ s.Clean := PwState.clean_log (by simp)
  unfold pwCmpxchg64
  by_cases same : BitVec.ofNat 64 ((s.log (.cmpxchg p)).ram.load p.base.page p.offset 8) = o
  · rw [if_pos same]
    exact logged
  · rw [if_neg same]
    exact logged

/-! ### The checks before each assertion -/

/-- The entries a walk may hand to the permission checks: those of the levels it
went through, each present. -/
structure PwPassed (x : PwInput) (pml4te pdpte : PwSlot) (pde pte : Option PwSlot) : Prop where
  upper : x.isLme = true → pml4te.ptr.isSome ∧ pdpte.ptr.isSome ∧
    pml4te.val.present = true ∧ pdpte.val.present = true
  directory : pwIs1gbPagePdpte pdpte.val = false →
    ∃ e p, pde = some ⟨some p, e⟩ ∧ e.present = true
  table : ∀ e, pde = some e → pwIsBigPagePde e.val x.isLme x.isPae x.isPse = false →
    ∃ e p, pte = some ⟨some p, e⟩ ∧ e.present = true

variable {x : PwInput} {s : PwState} {pml4te pdpte : PwSlot} {pde pte : Option PwSlot}

/-- The permission checks fail no assertion. -/
theorem PwPassed.allows (h : PwPassed x pml4te pdpte pde pte) (allows : PwEntry → Bool) :
    (pwEveryEntryAllows s allows pml4te.val pdpte.val (pde.map PwSlot.val) (pte.map PwSlot.val)
      x.isLme x.isPae x.isPse).2 = s := by
  have upper : (if x.isLme then (s.assert pml4te.val.present).assert pdpte.val.present else s) =
      s := by
    cases lme : x.isLme with
    | false => rfl
    | true =>
      obtain ⟨-, -, h4, h3⟩ := h.upper lme
      simp [h4, h3]
  unfold pwEveryEntryAllows
  simp only [upper]
  cases denied : x.isLme && !(allows pml4te.val && allows pdpte.val) with
  | true => rfl
  | false =>
    cases huge : pwIs1gbPagePdpte pdpte.val with
    | true => rfl
    | false =>
      obtain ⟨e, p, rfl, he⟩ := h.directory huge
      simp only [Option.map_some, Option.isSome_some, Option.getD_some, he, PwState.assert_true,
        Bool.false_eq_true, if_false]
      cases allowed : allows e with
      | false => rfl
      | true =>
        cases big : pwIsBigPagePde e x.isLme x.isPae x.isPse with
        | true => rfl
        | false =>
          obtain ⟨e', p', rfl, he'⟩ := h.table _ rfl big
          simp [he']

theorem PwSlot.beforeUpdate_present (a : PwSlot) (earlier : List PwSlot) :
    (a.beforeUpdate earlier).present = a.val.present := by
  unfold beforeUpdate
  split <;> simp

theorem pwUpdateAdBitsInEntry_clean {p : Option PwPtr} {old new : PwEntry} (hp : p.isSome)
    (ho : old.present = true) (hn : new.present = true) :
    (pwUpdateAdBitsInEntry s p old new).Clean ↔ s.Clean := by
  obtain ⟨p, rfl⟩ := Option.isSome_iff_exists.1 hp
  simp only [pwUpdateAdBitsInEntry, Option.isSome_some, ho, hn, PwState.assert_true]
  split
  · exact pwCmpxchg64_clean _ _ _
  · exact Iff.rfl

theorem pwIsBigPagePde_setAccessed (e : PwEntry) (isLme isPae isPse : Bool) :
    pwIsBigPagePde e.setAccessed isLme isPae isPse = pwIsBigPagePde e isLme isPae isPse := by
  simp [pwIsBigPagePde]

/-- Marking the entries accessed and dirty fails no assertion. -/
theorem PwPassed.updateAdBits (h : PwPassed x pml4te pdpte pde pte) (isWrite : Bool) :
    (pwUpdateAdBits s pml4te pdpte pde pte isWrite x.isLme x.isPae x.isPse).Clean ↔ s.Clean := by
  have dirty (e : PwEntry) (he : e.present = true) :
      (if isWrite then e.setAccessed.setDirty else e.setAccessed).present = true := by
    cases isWrite <;> simp [he]
  -- the entries above the page directory exist in long mode only
  generalize hs : (if x.isLme then
    pwUpdateAdBitsInEntry
      (pwUpdateAdBitsInEntry ((s.assert pml4te.ptr.isSome).assert pdpte.ptr.isSome) pml4te.ptr
        pml4te.val pml4te.val.setAccessed)
      pdpte.ptr (pdpte.beforeUpdate [pml4te]) pdpte.val.setAccessed else s) = s₁
  have upper : s₁.Clean ↔ s.Clean := by
    rw [← hs]
    cases lme : x.isLme with
    | false => rfl
    | true =>
      obtain ⟨p4, p3, h4, h3⟩ := h.upper lme
      simp only [if_true]
      rw [pwUpdateAdBitsInEntry_clean p3 (by rw [PwSlot.beforeUpdate_present, h3]) (by simp [h3]),
        pwUpdateAdBitsInEntry_clean p4 h4 (by simp [h4]), p4, p3]
      rfl
  unfold pwUpdateAdBits
  simp only [hs, pwIsBigPagePde_setAccessed]
  cases huge : pwIs1gbPagePdpte pdpte.val with
  | true => exact upper
  | false =>
    obtain ⟨e, p, rfl, he⟩ := h.directory huge
    simp only [Option.isSome_some, Option.getD_some, PwState.assert_true, Bool.false_eq_true,
      if_false]
    cases big : pwIsBigPagePde e x.isLme x.isPae x.isPse with
    | true =>
      simp only [if_true]
      rw [pwUpdateAdBitsInEntry_clean rfl (by rw [PwSlot.beforeUpdate_present, he]) (dirty e he),
        upper]
    | false =>
      obtain ⟨e', p', rfl, he'⟩ := h.table _ rfl big
      simp only [Bool.false_eq_true, if_false, Option.isSome_some, Option.getD_some,
        PwState.assert_true]
      rw [pwUpdateAdBitsInEntry_clean rfl (by rw [PwSlot.beforeUpdate_present, he']) (dirty e' he'),
        pwUpdateAdBitsInEntry_clean rfl (by rw [PwSlot.beforeUpdate_present, he]) (by simp [he]),
        upper]

/-- A check that is made only in some cases and leaves the state as it was. -/
theorem exists_checked {c : Prop} [Decidable c] {check : Bool × PwState} (h : check.2 = s) :
    ∃ b, (if c then check else (true, s)) = (b, s) := by
  by_cases hc : c
  · exact ⟨check.1, by rw [if_pos hc, ← h]⟩
  · exact ⟨true, if_neg hc⟩

/-- The end of a walk fails no assertion. -/
theorem PwPassed.finish (h : PwPassed x pml4te pdpte pde pte) (r : PwResult) :
    (pwFinish x s r pml4te pdpte pde pte).2.Clean ↔ s.Clean := by
  have write : (pwIsWriteAccessPermitted s pml4te.val pdpte.val (pde.map PwSlot.val)
      (pte.map PwSlot.val) x.isUser x.isWp x.isLme x.isPae x.isPse).2 = s := by
    unfold pwIsWriteAccessPermitted
    split
    · rfl
    · exact h.allows _
  obtain ⟨w, hw⟩ := exists_checked (c := x.isWrite = true) write
  obtain ⟨u, hu⟩ := exists_checked (c := x.isUser = true) (h.allows (s := s) PwEntry.user)
  obtain ⟨f, hf⟩ := exists_checked (c := (x.isPae && x.isNxe && x.isFetch) = true)
    (h.allows (s := s) fun e => !e.exbOrRes)
  simp only [pwFinish, pwIsUserAccessPermitted, pwIsFetchAccessPermitted, hw, hu, hf]
  cases w with
  | false => exact Iff.rfl
  | true =>
    cases u with
    | false => exact Iff.rfl
    | true =>
      cases f with
      | false => exact Iff.rfl
      | true =>
        cases x.setAdBits with
        | false => exact Iff.rfl
        | true => exact h.updateAdBits x.isWrite

/-! ### The assertions of a whole walk -/

/-- The page-table entry that a descent gets to. -/
def PwInput.reaches (x : PwInput) (ram : PwRam) : List PwLevel → BitVec 64 → Option PwEntry
  | [], _ => none
  | l :: rest, gpa => (x.entry ram l.table gpa l.index).bind fun e =>
    if l.table = .pt then some e else (x.below l.cleared l.isPage e).bind (x.reaches ram rest)

theorem PwInput.reachedPte_eq (x : PwInput) (ram : PwRam) :
    x.reachedPte ram = x.reaches ram x.stages x.firstTable := by
  have pteBelow : x.pteBelow ram = x.reaches ram [x.pdStage, x.ptStage] := by
    funext pd
    simp [PwInput.pteBelow, ptBelow, reaches, pdStage, ptStage, Option.bind_assoc]
  unfold reachedPte pdGpa pdptGpa stages
  rw [pteBelow]
  cases x.isPae <;> cases x.isLme <;>
    simp [reaches, pdBelow, pml4Stage, pdptStage, Option.bind_assoc]

/-- Whatever present entries a descent ends with, its end fails no assertion. -/
def PwInput.EndsClean (x : PwInput) : List PwLevel → List PwSlot → Prop
  | [], _ => True
  | l :: rest, passed => ∀ p e, PwEntry.present e = true → (l.table = .pt → l.isPage e = true) ∧
    if l.isPage e then ∀ s r, (x.finish s r (passed ++ [⟨some p, e⟩])).2.Clean ↔ s.Clean
    else x.EndsClean rest (passed ++ [⟨some p, e⟩])

/-- The one assertion that can fail is that of the page-table entry. -/
theorem PwInput.EndsClean.descend {levels : List PwLevel} {passed : List PwSlot}
    (ends : x.EndsClean levels passed) (gpa : BitVec 64) :
    (x.descend levels passed gpa s).2.Clean ↔ s.Clean ∧
      ∀ pte, x.reaches s.ram levels gpa = some pte → pte.present = true := by
  induction levels generalizing passed gpa s with
  | nil => simp [PwInput.descend, reaches]
  | cons l rest ih =>
    unfold reaches
    rcases descend_cases x l rest passed gpa s with
      ⟨none, run⟩ | ⟨e, p, s', found, ram, clean, -, run⟩
    · simp [none, run]
    rw [run, found, Option.bind_some, PwInput.below]
    by_cases present : e.present = true
    · by_cases cleared : l.cleared e = true
      · obtain ⟨last, ends⟩ := ends p e present
        by_cases isPage : l.isPage e = true
        · rw [if_pos isPage] at ends
          simp [present, cleared, isPage, ends, clean]
        · rw [if_neg isPage] at ends
          have below := ih (s := s') ends (pwPhysAddr e x.isPae)
          have other : l.table ≠ .pt := fun pt => isPage (last pt)
          rw [clean, ram] at below
          simpa [present, cleared, isPage, other] using below
      · simp [present, cleared, clean]
    · simp [present, clean]

/-- The entries above the page directory that long mode has. -/
def PwUpper (x : PwInput) (pml4te pdpte : PwSlot) : Prop :=
  x.isLme = true → pml4te.ptr.isSome ∧ pdpte.ptr.isSome ∧
    pml4te.val.present = true ∧ pdpte.val.present = true

theorem PwUpper.pd (upper : PwUpper x pml4te pdpte) :
    x.EndsClean [x.pdStage, x.ptStage] [pml4te, pdpte] := by
  intro p e he
  have directory := fun _ : pwIs1gbPagePdpte pdpte.val = false => (⟨e, p, rfl, he⟩ :
    ∃ e' p', some (⟨some p, e⟩ : PwSlot) = some ⟨some p', e'⟩ ∧ e'.present = true)
  refine ⟨PwTable.noConfusion, ?_⟩
  split
  case isTrue big =>
    exact fun s r => PwPassed.finish ⟨upper, directory, by rintro _ ⟨⟩ h; cases big.symm.trans h⟩ r
  case isFalse =>
    exact fun p' pte hpte => ⟨fun _ => rfl, fun s r =>
      PwPassed.finish ⟨upper, directory, fun _ _ _ => ⟨pte, p', rfl, hpte⟩⟩ r⟩

theorem endsClean_pdpt
    (pml4 : x.isLme = true → pml4te.ptr.isSome ∧ pml4te.val.present = true) :
    x.EndsClean [x.pdptStage, x.pdStage, x.ptStage] [pml4te] := by
  intro p e he
  have upper : PwUpper x pml4te ⟨some p, e⟩ := fun lme => ⟨(pml4 lme).1, rfl, (pml4 lme).2, he⟩
  refine ⟨PwTable.noConfusion, ?_⟩
  split
  case isTrue huge =>
    exact fun s r => PwPassed.finish ⟨upper, fun small => (by cases huge.symm.trans small),
      by rintro _ ⟨⟩⟩ r
  case isFalse => exact upper.pd

theorem PwInput.PagingEnabled.endsClean (ok : x.PagingEnabled) : x.EndsClean x.stages x.above := by
  unfold PwInput.stages PwInput.above
  cases isPae : x.isPae with
  | false =>
    exact PwUpper.pd fun lme => by cases isPae.symm.trans (ok.isPae lme)
  | true =>
    cases lme : x.isLme with
    | true =>
      exact fun p e he => ⟨PwTable.noConfusion, endsClean_pdpt fun _ => ⟨rfl, he⟩⟩
    | false => exact endsClean_pdpt fun h => by cases lme.symm.trans h

theorem PwState.clean_out (s : PwState) :
    ({ s with mapped := [], trace := s.trace ++ s.mapped.map .unmap } : PwState).Clean ↔
      s.Clean := by
  simp [Clean]

/-- With paging enabled, a walk fails no assertion if and only if the page-table
entry it gets to, if it gets to one, is present. -/
theorem pwPerformPageWalk_clean_iff (x : PwInput) (ok : x.PagingEnabled) (ram : PwRam) :
    (pwPerformPageWalk x ram).2.Clean ↔
      ∀ pte, x.reachedPte ram = some pte → pte.present = true := by
  have start : ({ ram } : PwState).Clean := by simp [PwState.Clean]
  rw [pwPerformPageWalk_eq, x.reachedPte_eq]
  exact (PwState.clean_out _).trans
    ((ok.endsClean.descend x.firstTable).trans (and_iff_right start))

/-- A walk in 32-bit mode whose page `n` lies in host page `n`. -/
def flatWalk : PwInput where
  virtAddr := 0
  access := 0
  setAdBits := false
  isFetch := false
  cr0 := 0x80000001
  cr3 := 0
  cr4 := 0
  efer := 0
  reservedBitsHighMask := 0
  mapPage _ gfn := some ⟨4096 * gfn, gfn⟩

theorem flatWalk_pagingEnabled : flatWalk.PagingEnabled := ⟨rfl, rfl, by decide⟩

/-- A page directory in page 0 whose first entry points to a page table in page 1,
and the lowest byte of the first entry of that page table. -/
def oneTable (pte : BitVec 8) : PwRam := fun page offset =>
  match page, offset with
  | 0, 0 => 0x03
  | 0, 1 => 0x10
  | 1, 0 => pte
  | _, _ => 0

theorem flatWalk_clean : (pwPerformPageWalk flatWalk (oneTable 1)).2.Clean := by
  apply (pwPerformPageWalk_clean_iff flatWalk flatWalk_pagingEnabled (oneTable 1)).2
  have reached : flatWalk.reachedPte (oneTable 1) = some ⟨1⟩ := by decide
  simp only [reached, Option.some.injEq, forall_eq']
  decide

/-- A guest page that is not present, as a guest with demand paging has, trips the
assertion of `pw_retrieve_phys_addr`. -/
theorem flatWalk_not_clean :
    flatWalk.PagingEnabled ∧ ¬ (pwPerformPageWalk flatWalk (oneTable 0)).2.Clean := by
  have failed : PwEvent.fault .assert ∈ (pwPerformPageWalk flatWalk (oneTable 0)).2.trace := by
    decide
  exact ⟨flatWalk_pagingEnabled, fun clean => clean .assert failed⟩

end Haxm
