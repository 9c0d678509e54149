/-
# The walk as a descent

The walk does much the same at each of its tables: it maps the table, reads an
entry, checks it, and ends at a page or goes on to the table below. Here a level
is what differs from one table to the next, and the walk is a descent through a
list of levels.
-/

import Mathlib.Tactic.Common
import Haxm.Paging.PageWalker

namespace Haxm

/-- The entry of a table, if the page of the table can be mapped. -/
def PwInput.entry (x : PwInput) (ram : PwRam) (table : PwTable) (gpa : BitVec 64)
    (index : BitVec 32) : Option PwEntry :=
  (x.mapPage table (gpa >>> 12).toNat).map fun p =>
    pwEntryValue ram (pwRetrieveTableEntry ⟨p, (gpa &&& 0xfff).toNat⟩ index x.isPae) x.isPae

/-- What the walk does at one of its tables. -/
structure PwLevel where
  table : PwTable
  index : BitVec 32
  cleared : PwEntry → Bool
  isPage : PwEntry → Bool
  /-- The result with the page of an entry. -/
  page : PwEntry → PwResult
  /-- What the result has when the table cannot be read or its entry is refused. -/
  seen : Option PwEntry → PwResult := fun _ => {}

namespace PwInput

variable (x : PwInput)

/-- The end of a walk that went by these entries. -/
def finish (s : PwState) (r : PwResult) (passed : List PwSlot) : PwResult × PwState :=
  pwFinish x s r (passed[0]?.getD {}) (passed[1]?.getD {}) passed[2]? passed[3]?

/-- The table at `gpa` and its entry, before the walk goes on with that entry. The
page-table entry has to be present even before that is checked. -/
def visit (l : PwLevel) (gpa : BitVec 64) (s : PwState)
    (next : PwSlot → PwState → PwResult × PwState) : PwResult × PwState :=
  match pwMapTable x s l.table gpa with
  | (none, s) => ({ l.seen none with retval := tfFailed }, s)
  | (some t, s) =>
    let ptr := pwRetrieveTableEntry t l.index x.isPae
    let (e, s) := pwReadEntryValue s ptr x.isPae
    let s := if l.table = .pt then s.assert e.present else s
    if !e.present then ({ l.seen (some e) with retval := tfFailed ||| x.access }, s)
    else if !l.cleared e then
      ({ l.seen (some e) with retval := tfFailed ||| tfProtect ||| tfRsvd ||| x.access }, s)
    else next ⟨some ptr, e⟩ s

/-- The descent from the table at `gpa` on. -/
def descend : List PwLevel → List PwSlot → BitVec 64 → PwState → PwResult × PwState
  | [], _, _, s => ({ retval := tfFailed }, s)
  | l :: rest, passed, gpa, s => x.visit l gpa s fun slot s =>
    if l.isPage slot.val then x.finish s (l.page slot.val) (passed ++ [slot])
    else descend rest (passed ++ [slot]) (pwPhysAddr slot.val x.isPae) s

/-- The large page of an entry. -/
def bigPage (is1gb : Bool) (e : PwEntry) : PwResult where
  gpa := alignBackward (pwPhysAddr e x.isPae) (pwBigPageOrder x.isPae is1gb) +
    (pwGetBigPageOffset x.virtAddr x.isPae is1gb).setWidth 64
  order := some (if is1gb then pgOrder1G else if x.isPae then pgOrder2M else pgOrder4M)

/-- The 4-KByte page of an entry. -/
def smallPage (e : PwEntry) : PwResult where
  gpa := pwPhysAddr e x.isPae ||| (x.virtAddr &&& 0xfff)
  order := some pgOrder4K

def pml4Stage : PwLevel where
  table := .pml4t
  index := x.indices.pml4te
  cleared := (pwAreReservedBitsInPml4teCleared x.reservedBitsHighMask · x.isNxe)
  isPage _ := false
  page _ := {}

def pdptStage : PwLevel where
  table := .pdpt
  index := x.indices.pdpte
  cleared := (pwAreReservedBitsInPdpteCleared x.reservedBitsHighMask · x.isNxe x.isLme)
  isPage := pwIs1gbPagePdpte
  page := x.bigPage true

def pdStage : PwLevel where
  table := .pd
  index := x.indices.pde
  cleared :=
    (pwAreReservedBitsInPdeCleared x.reservedBitsHighMask · x.isNxe x.isLme x.isPae x.isPse)
  isPage := (pwIsBigPagePde · x.isLme x.isPae x.isPse)
  page := x.bigPage false

def ptStage : PwLevel where
  table := .pt
  index := x.indices.pte
  cleared := (pwAreReservedBitsInPteCleared x.reservedBitsHighMask · x.isNxe x.isLme x.isPae)
  isPage _ := true
  page := x.smallPage
  seen e := { order := some pgOrder4K, gpa := e.elim pwInvalidGpa fun e => (x.smallPage e).gpa }

/-- The levels of the paging mode. -/
def stages : List PwLevel :=
  if x.isPae then
    if x.isLme then [x.pml4Stage, x.pdptStage, x.pdStage, x.ptStage]
    else [x.pdptStage, x.pdStage, x.ptStage]
  else [x.pdStage, x.ptStage]

/-- The entries above the first table, which are not read. -/
def above : List PwSlot := if x.isPae then if x.isLme then [] else [{}] else [{}, {}]

end PwInput

/-! ### The stages of the walk -/

/-- The indices are in range whatever the address is. -/
theorem pwRetrieveIndices_eq (s : PwState) (va : BitVec 64) (isPae isLme : Bool) :
    pwRetrieveIndices s va isPae isLme = (pwIndices va isPae isLme, s) := by
  have field (x : BitVec 32) (m : BitVec 32) (k n : ℕ) (hm : (m >>> k).toNat < n) :
      ((x &&& m) >>> k).toNat < n := by
    rw [BitVec.ushiftRight_and_distrib, BitVec.toNat_and]
    exact Nat.lt_of_le_of_lt Nat.and_le_right hm
  cases isPae with
  | false => rfl
  | true =>
    have hpde : (pwIndices va true isLme).pde < 512#32 :=
      BitVec.lt_def.2 (field _ 0x3fe00000 21 512 (by decide))
    have hpte : (pwIndices va true isLme).pte < 512#32 :=
      BitVec.lt_def.2 (field _ 0x1ff000 12 512 (by decide))
    cases isLme with
    | true => simp [pwRetrieveIndices, hpde, hpte]
    | false =>
      have hpdpte : (pwIndices va true false).pdpte < 4#32 :=
        BitVec.lt_def.2 (field _ 0xc0000000 30 4 (by decide))
      simp [pwRetrieveIndices, hpde, hpte, hpdpte]

section Stages

variable {x : PwInput} {s : PwState} {pml4te pdpte pde : PwSlot} {l : PwLevel} {gpa : BitVec 64}

theorem visit_congr {f g : PwSlot → PwState → PwResult × PwState}
    (same : ∀ slot s, slot.val.present = true → f slot s = g slot s) :
    x.visit l gpa s f = x.visit l gpa s g := by
  unfold PwInput.visit
  rcases pwMapTable x s l.table gpa with ⟨_ | t, s⟩
  · rfl
  · dsimp only
    split
    · rfl
    split
    · rfl
    · exact same _ _ (by simp_all)

theorem pwWalkPt_eq (present : pde.val.present = true) :
    pwWalkPt x s pml4te pdpte pde =
      x.descend [x.ptStage] [pml4te, pdpte, pde] (pwPhysAddr pde.val x.isPae) s := by
  have visit : pwWalkPt x s pml4te pdpte pde = x.visit x.ptStage (pwPhysAddr pde.val x.isPae)
      (s.assert pde.val.present) fun pte s =>
        pwFinish x s (x.smallPage pte.val) pml4te pdpte (some pde) (some pte) := rfl
  rw [visit, present]
  rfl

theorem pwWalkPd_eq (pd : BitVec 64) :
    pwWalkPd x s pml4te pdpte pd = x.descend [x.pdStage, x.ptStage] [pml4te, pdpte] pd s :=
  calc pwWalkPd x s pml4te pdpte pd
    _ = x.visit x.pdStage pd s fun pde s =>
      if pwIsBigPagePde pde.val x.isLme x.isPae x.isPse then pwFinish x (s.assert pde.val.present)
        (x.bigPage false pde.val) pml4te pdpte (some pde) none
      else pwWalkPt x s pml4te pdpte pde := rfl
    _ = _ := visit_congr fun pde s present => by
      rw [pwWalkPt_eq present, present]
      rfl

theorem pwWalkPdpte_eq (isPae : x.isPae = true) (present : pdpte.val.present = true) :
    pwWalkPdpte x s pml4te pdpte = if pwIs1gbPagePdpte pdpte.val then
      x.finish s (x.bigPage true pdpte.val) [pml4te, pdpte]
      else x.descend [x.pdStage, x.ptStage] [pml4te, pdpte] (pwPhysAddr pdpte.val x.isPae) s := by
  unfold pwWalkPdpte
  simp only [pwRetrieveBigPagePhysAddr, pwRetrievePhysAddr, present, PwState.assert_true,
    pwWalkPd_eq]
  rw [if_pos isPae]
  rfl

theorem pwWalkPdpt_eq (isPae : x.isPae = true) (pdpt : BitVec 64) :
    pwWalkPdpt x s pml4te pdpt =
      x.descend [x.pdptStage, x.pdStage, x.ptStage] [pml4te] pdpt s :=
  calc pwWalkPdpt x s pml4te pdpt
    _ = x.visit x.pdptStage pdpt s fun pdpte s => pwWalkPdpte x s pml4te pdpte := rfl
    _ = _ := visit_congr fun _ _ => pwWalkPdpte_eq isPae

theorem pwWalkPml4_eq (isPae : x.isPae = true) :
    pwWalkPml4 x s =
      x.descend [x.pml4Stage, x.pdptStage, x.pdStage, x.ptStage] [] x.firstTable s :=
  calc pwWalkPml4 x s
    _ = x.visit x.pml4Stage x.firstTable s fun pml4te s => pwWalkPdpt x
        (s.assert pml4te.val.present) pml4te (pwPhysAddr pml4te.val x.isPae) := rfl
    _ = _ := visit_congr fun pml4te s present => by
      rw [present, pwWalkPdpt_eq isPae]
      rfl

/-- The walk is the descent from the table in CR3. -/
theorem pwPerformPageWalk_eq (x : PwInput) (ram : PwRam) :
    pwPerformPageWalk x ram =
      let (r, s) := x.descend x.stages x.above x.firstTable { ram }
      (r, { s with mapped := [], trace := s.trace ++ s.mapped.map .unmap }) := by
  unfold pwPerformPageWalk PwInput.stages PwInput.above
  rw [pwRetrieveIndices_eq]
  cases isPae : x.isPae with
  | false =>
    have none : pwIs1gbPagePdpte ({} : PwSlot).val = false := rfl
    simp only [Bool.false_eq_true, if_false, pwWalkPdpte, none, isPae, pwWalkPd_eq]
  | true =>
    cases x.isLme with
    | true => simp only [if_true, pwWalkPml4_eq isPae]
    | false => simp only [if_true, Bool.false_eq_true, if_false, pwWalkPdpt_eq isPae]

end Stages

/-! ### What a visit can do -/

/-- No assertion failed so far. -/
def PwState.Clean (s : PwState) : Prop := ∀ f, PwEvent.fault f ∉ s.trace

namespace PwState

variable {s : PwState}

@[simp] theorem log_ram (e : PwEvent) : (s.log e).ram = s.ram := rfl

theorem clean_log {e : PwEvent} (h : ∀ f, e ≠ .fault f) : (s.log e).Clean ↔ s.Clean := by
  simp only [Clean, log, List.mem_append, List.mem_singleton, not_or]
  exact forall_congr' fun f => and_iff_left (h f).symm

@[simp] theorem clean_load (p : PwPtr) (n : ℕ) : (s.log (.load p n)).Clean ↔ s.Clean :=
  clean_log (by simp)

@[simp] theorem clean_assert (c : Bool) : (s.assert c).Clean ↔ s.Clean ∧ c = true := by
  cases c with
  | true => simp
  | false =>
    simp only [assert, Clean, log, Bool.false_eq_true, if_false, and_false, iff_false, not_forall,
      not_not]
    exact ⟨.assert, by simp⟩

end PwState

theorem pwReadEntryValue_clean {s : PwState} (p : PwPtr) (isPae : Bool) :
    (pwReadEntryValue s p isPae).2.Clean ↔ s.Clean := by
  unfold pwReadEntryValue
  cases isPae <;> simp

theorem pwReadEntryValue_ram {s : PwState} (p : PwPtr) (isPae : Bool) :
    (pwReadEntryValue s p isPae).2.ram = s.ram := by
  unfold pwReadEntryValue
  cases isPae <;> rfl

/-- A table is read if it can be mapped. That does not change the memory, and only
the page table can fail an assertion by it. -/
theorem descend_cases (x : PwInput) (l : PwLevel) (rest : List PwLevel) (passed : List PwSlot)
    (gpa : BitVec 64) (s : PwState) :
    (x.entry s.ram l.table gpa l.index = none ∧
      x.descend (l :: rest) passed gpa s = ({ l.seen none with retval := tfFailed }, s)) ∨
    ∃ e p s', x.entry s.ram l.table gpa l.index = some e ∧ s'.ram = s.ram ∧
      (s'.Clean ↔ s.Clean ∧ (l.table = .pt → e.present = true)) ∧
      (∃ page, p = pwRetrieveTableEntry ⟨page, (gpa &&& 0xfff).toNat⟩ l.index x.isPae) ∧
      x.descend (l :: rest) passed gpa s =
        if !e.present then ({ l.seen (some e) with retval := tfFailed ||| x.access }, s')
        else if !l.cleared e then
          ({ l.seen (some e) with retval := tfFailed ||| tfProtect ||| tfRsvd ||| x.access }, s')
        else if l.isPage e then x.finish s' (l.page e) (passed ++ [⟨some p, e⟩])
        else x.descend rest (passed ++ [⟨some p, e⟩]) (pwPhysAddr e x.isPae) s' := by
  rw [PwInput.descend]
  unfold PwInput.visit pwMapTable PwInput.entry
  cases x.mapPage l.table (gpa >>> 12).toNat with
  | none => exact .inl ⟨rfl, rfl⟩
  | some page =>
    let ptr := pwRetrieveTableEntry ⟨page, (gpa &&& 0xfff).toNat⟩ l.index x.isPae
    let read := pwReadEntryValue { s with mapped := s.mapped ++ [l.table] } ptr x.isPae
    have ram : read.2.ram = s.ram := pwReadEntryValue_ram _ _
    have clean : read.2.Clean ↔ s.Clean := pwReadEntryValue_clean _ _
    refine .inr ⟨read.1, ptr, if l.table = .pt then read.2.assert read.1.present else read.2, rfl,
      ?_, ?_, ⟨page, rfl⟩, rfl⟩
    · split
      · exact (PwState.assert_ram _ _).trans ram
      · exact ram
    · split
      case isTrue pt => simp only [PwState.clean_assert, clean, pt, true_implies]
      case isFalse other => simp only [clean, other, false_implies, and_true]

end Haxm
