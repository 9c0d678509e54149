/-
# Creating entries

`ept_tree_create_entries` goes through the tables that cover a range and fills
in the entries that are missing. Whatever comes of it, no entry that was there
is changed, and no entry outside the range appears. It stops with `-EEXIST` only
if an entry with another value was in the way.
-/

import Haxm.Ept.TreeRefine

namespace Haxm

open Lib

variable {host : Host} {tree tree₁ tree₂ tree' : EptTree} {place : Pfn → Option (ℕ × ℕ)}
  {pt pdpt pd : Pfn} {chunk : Chunk} {flags gfn first middle last offset count count' : ℕ}
  {entry : ℕ → Epte} {ret : ℤ}

/-- Missing entries of the range may have been filled in, and nothing else. -/
structure Created (tree : EptTree) (first last : ℕ) (entry : ℕ → Epte) (tree' : EptTree) :
    Prop where
  ok : ∃ place, TreeOk tree' place
  root : tree'.root = tree.root
  pending : tree'.inveptPending = tree.inveptPending
  leaf : ∀ g, GfnOk g → tree'.leaf g = tree.leaf g ∨
    (first ≤ g ∧ g < last) ∧ tree.leaf g = Epte.zero ∧ tree'.leaf g = entry g
  path : ∀ g j p, GfnOk g → j ≤ 3 → tree.path g j = some p → tree'.path g j = some p
  unmapped : tree'.unmapped = tree.unmapped

/-- All entries of the range are there. -/
def Complete (tree : EptTree) (first last : ℕ) (entry : ℕ → Epte) : Prop :=
  ∀ g, first ≤ g ∧ g < last → tree.leaf g = entry g

/-- Some entry of the range was already there with another value. -/
def Clashes (tree : EptTree) (first last : ℕ) (entry : ℕ → Epte) : Prop :=
  ∃ g, (first ≤ g ∧ g < last) ∧ tree.leaf g ≠ Epte.zero ∧ tree.leaf g ≠ entry g

theorem Grown.created (grown : Grown tree tree') (ok : TreeOk tree' place) :
    Created tree first last entry tree' :=
  ⟨⟨place, ok⟩, grown.root, grown.pending, fun g hg => .inl (grown.leaf g hg), grown.path,
    grown.unmapped⟩

theorem Created.trans (lower : Created tree first middle entry tree₁)
    (upper : Created tree₁ middle last entry tree₂) (hfirst : first ≤ middle)
    (hlast : middle ≤ last) : Created tree first last entry tree₂ where
  ok := upper.ok
  root := upper.root.trans lower.root
  pending := upper.pending.trans lower.pending
  leaf := by
    intro g hg
    rcases upper.leaf g hg with h₂ | ⟨hin₂, hzero₂, h₂⟩
    · rcases lower.leaf g hg with h₁ | ⟨hin₁, hzero₁, h₁⟩
      · exact .inl (h₂.trans h₁)
      · exact .inr ⟨by omega, hzero₁, h₂.trans h₁⟩
    · rcases lower.leaf g hg with h₁ | ⟨hin₁, -, -⟩
      · exact .inr ⟨by omega, h₁ ▸ hzero₂, h₂⟩
      · omega
  path g j p hg hj h := upper.path g j p hg hj (lower.path g j p hg hj h)
  unmapped := upper.unmapped.trans lower.unmapped

theorem Created.mono (created : Created tree first middle entry tree₁) (hle : middle ≤ last) :
    Created tree first last entry tree₁ :=
  { created with
    leaf := fun g hg => (created.leaf g hg).imp_right fun ⟨hin, h⟩ => ⟨by omega, h⟩ }

theorem Clashes.mono (clashes : Clashes tree first middle entry) (hle : middle ≤ last) :
    Clashes tree first last entry := by
  obtain ⟨g, hg, h⟩ := clashes
  exact ⟨g, by omega, h⟩

/-- What is there stays there while the rest is filled in. -/
theorem Complete.append (complete : Complete tree₁ first middle entry)
    (upper : Created tree₁ middle last entry tree₂) (rest : Complete tree₂ middle last entry)
    (bound : middle ≤ 2 ^ 36) : Complete tree₂ first last entry := by
  intro g hg
  by_cases hlater : middle ≤ g
  · exact rest g (by omega)
  · rcases upper.leaf g (by unfold GfnOk; omega) with h | ⟨hin, -, -⟩
    · rw [h, complete g (by omega)]
    · omega

/-- What was in the way later was in the way from the beginning. -/
theorem Clashes.of_created (clashes : Clashes tree₁ middle last entry)
    (lower : Created tree first middle entry tree₁) (hfirst : first ≤ middle)
    (bound : last ≤ 2 ^ 36) : Clashes tree first last entry := by
  obtain ⟨g, hg, hpresent, hother⟩ := clashes
  rcases lower.leaf g (by unfold GfnOk; omega) with h | ⟨hin, -, -⟩
  · rw [h] at hpresent hother
    exact ⟨g, by omega, hpresent, hother⟩
  · omega

/-- Entries below a frame do not count for those from it on. -/
theorem Created.absent_eq (lower : Created tree first middle entry tree₁) (bound : last ≤ 2 ^ 36) :
    tree₁.absent middle last = tree.absent middle last := by
  refine countIn_congr fun g hg => ?_
  rcases lower.leaf g (by unfold GfnOk; omega) with h | ⟨hin, -, -⟩
  · rw [h]
  · omega

theorem Created.absent_append (lower : Created tree first middle entry tree₁) (last : ℕ)
    (hfirst : first ≤ middle) (hlast : middle ≤ last) (bound : last ≤ 2 ^ 36) :
    tree.absent first middle + tree₁.absent middle last = tree.absent first last := by
  rw [lower.absent_eq bound]
  exact (countIn_append hfirst hlast).symm

/-! ## One table -/

theorem eptLeaf_perm_ne : (eptLeaf host chunk flags offset).perm ≠ haxEptPermNone := by
  change (if _ then haxEptPermRx else haxEptPermRwx) ≠ haxEptPermNone
  split_ifs <;> decide

theorem eptLeaf_ne_zero : eptLeaf host chunk flags offset ≠ Epte.zero := fun h =>
  eptLeaf_perm_ne (congrArg Epte.perm h)

/-- The entries for a range that starts at an offset of a chunk. -/
def chunkEntry (host : Host) (chunk : Chunk) (flags first offset g : ℕ) : Epte :=
  eptLeaf host chunk flags (offset + pageSize4K * (g - first))

/-- Filling in `n` entries of the table for the frames from `512 * block` on. -/
theorem eptTreeCreatePtes_spec (ok : TreeOk tree place) {block index n : ℕ}
    (hpt : ∀ i < 512, tree.path (512 * block + i) 3 = some pt) (hn : index + n ≤ 512)
    (bound : 512 * block + 512 ≤ 2 ^ 36)
    (entries : ∀ i, entry (512 * block + index + i) =
      eptLeaf host chunk flags (offset + pageSize4K * i))
    (h : eptTreeCreatePtes host chunk flags pt index offset n count tree =
      (ret, count', tree')) :
    Created tree (512 * block + index) (512 * block + index + n) entry tree' ∧
      tree'.pageList = tree.pageList ∧
      ((ret = 0 ∧ Complete tree' (512 * block + index) (512 * block + index + n) entry ∧
          count' = count + tree.absent (512 * block + index) (512 * block + index + n)) ∨
        ret = -EEXIST ∧ Clashes tree (512 * block + index) (512 * block + index + n) entry) := by
  induction n generalizing tree index offset count with
  | zero =>
    cases h
    refine ⟨(Grown.refl _).created ok, rfl, .inl ⟨rfl, fun g hg => ?_, ?_⟩⟩
    · omega
    · rw [Nat.add_zero, EptTree.absent, countIn_self, Nat.add_zero]
  | succ n ih =>
    have hgfn : GfnOk (512 * block + index) := by
      unfold GfnOk
      omega
    have hpath := hpt index (by omega)
    have hleaf := EptTree.leaf_of_path hpath
    have hindex : eptIndex (512 * block + index) 0 = index := by
      simp only [eptIndex, haxEptTableShift, haxEptTableSize]
      omega
    have hentry : entry (512 * block + index) = eptLeaf host chunk flags offset := entries 0
    have entries' (i : ℕ) : entry (512 * block + (index + 1) + i) =
        eptLeaf host chunk flags (offset + pageSize4K + pageSize4K * i) := by
      have := entries (i + 1)
      rw [show 512 * block + (index + 1) + i = 512 * block + index + (i + 1) by omega, this]
      congr 1
      ring
    rw [hindex] at hleaf
    rw [eptTreeCreatePtes, ← hleaf] at h
    rw [show 512 * block + index + (n + 1) = 512 * block + (index + 1) + n by omega]
    have hfirst : tree.absent (512 * block + index) (512 * block + (index + 1)) =
        if tree.leaf (512 * block + index) = Epte.zero then 1 else 0 := countIn_succ
    by_cases clash : tree.leaf (512 * block + index) ≠ Epte.zero ∧
        tree.leaf (512 * block + index) ≠ eptLeaf host chunk flags offset
    · rw [if_neg clash.1, if_pos clash.2] at h
      cases h
      refine ⟨(Grown.refl _).created ok, rfl,
        .inr ⟨rfl, 512 * block + index, by omega, clash.1, ?_⟩⟩
      rw [hentry]
      exact clash.2
    obtain ⟨tree₁, ok₁, hpt₁, step, filled, pages₁, h₁⟩ : ∃ tree₁, TreeOk tree₁ place ∧
        (∀ i < 512, tree₁.path (512 * block + i) 3 = some pt) ∧
        Created tree (512 * block + index) (512 * block + (index + 1)) entry tree₁ ∧
        tree₁.leaf (512 * block + index) = entry (512 * block + index) ∧
        tree₁.pageList = tree.pageList ∧
        eptTreeCreatePtes host chunk flags pt (index + 1) (offset + pageSize4K) n
          (count + if tree.leaf (512 * block + index) = Epte.zero then 1 else 0) tree₁ =
            (ret, count', tree') := by
      by_cases hzero : tree.leaf (512 * block + index) = Epte.zero
      · -- the entry is filled in
        rw [if_pos hzero] at h ⊢
        obtain ⟨ok', leaf', path'⟩ := ok.setLeaf (e := eptLeaf host chunk flags offset) hgfn hpath
          fun hnone => absurd hnone eptLeaf_perm_ne
        rw [hindex] at ok' leaf' path'
        refine ⟨_, ok', fun i hi => ?_,
          ⟨⟨place, ok'⟩, rfl, rfl, fun g hg => ?_, fun g j p hg hj hp => ?_, rfl⟩, ?_, rfl, h⟩
        · rw [path' _ 3 (by unfold GfnOk; omega) le_rfl, hpt i hi]
        · rw [leaf' g hg]
          split_ifs with hfirst
          · subst hfirst
            exact .inr ⟨by omega, hzero, hentry.symm⟩
          · exact .inl rfl
        · rw [path' g j hg hj, hp]
        · rw [leaf' _ hgfn, if_pos rfl, hentry]
      · -- the entry is there already
        have hsame := not_not.1 fun differs => clash ⟨hzero, differs⟩
        rw [if_neg hzero, if_neg (not_not.2 hsame)] at h
        rw [if_neg hzero]
        exact ⟨tree, ok, hpt, (Grown.refl tree).created ok, hsame.trans hentry.symm, rfl, h⟩
    obtain ⟨rest, pages, houtcome⟩ := ih ok₁ hpt₁ (by omega) entries' h₁
    have hcount := step.absent_append (512 * block + (index + 1) + n) (by omega) (by omega)
      (by omega)
    refine ⟨step.trans rest (by omega) (by omega), pages.trans pages₁, ?_⟩
    rcases houtcome with ⟨rfl, complete, rfl⟩ | ⟨rfl, clashes⟩
    · have done : Complete tree₁ (512 * block + index) (512 * block + (index + 1)) entry := by
        intro g hg
        obtain rfl : g = 512 * block + index := by omega
        exact filled
      exact .inl ⟨rfl, done.append rest complete (by omega), by omega⟩
    · exact .inr ⟨rfl, clashes.of_created step (by omega) (by omega)⟩

/-! ## All tables -/

/-- How `ept_tree_create_entries` can end, if `count` entries were created before and
at most `pages` pages are needed. -/
def Outcome (host : Host) (pages count : ℕ) (ret : ℤ) (tree : EptTree) (first last : ℕ)
    (entry : ℕ → Epte) (tree' : EptTree) : Prop :=
  (ret = int32 (count + tree.absent first last) ∧ Complete tree' first last entry) ∨
    (ret = -ENOMEM ∧ OutOfPages host tree pages) ∨
    ret = -EEXIST ∧ Clashes tree first last entry

theorem Outcome.mono {pages pages' : ℕ} (le : pages ≤ pages')
    (outcome : Outcome host pages count ret tree first last entry tree') :
    Outcome host pages' count ret tree first last entry tree' :=
  outcome.imp_right fun h => h.imp_left fun ⟨hret, out⟩ => ⟨hret, out.mono le⟩

theorem Outcome.append {used pages : ℕ} (lower : Created tree first middle entry tree₁)
    (added : AddedPages used tree tree₁) (complete : Complete tree₁ first middle entry)
    (upper : Created tree₁ middle last entry tree₂)
    (outcome : Outcome host pages (count + tree.absent first middle) ret tree₁ middle last
      entry tree₂)
    (hfirst : first ≤ middle) (hlast : middle ≤ last) (bound : last ≤ 2 ^ 36) :
    Outcome host (used + pages) count ret tree first last entry tree₂ := by
  rcases outcome with ⟨rfl, rest⟩ | ⟨hret, out⟩ | ⟨hret, clashes⟩
  · refine .inl ⟨?_, complete.append upper rest (by omega)⟩
    rw [Nat.add_assoc, lower.absent_append last hfirst hlast bound]
  · exact .inr (.inl ⟨hret, out.of_added added lower.unmapped⟩)
  · exact .inr (.inr ⟨hret, clashes.of_created lower hfirst bound⟩)

/-- The tables at hand when the loop goes on at a label. -/
structure AtHand (label : NextTable) (tree : EptTree) (gfn : ℕ) (pdpt pd : Pfn) : Prop where
  pdpt : label ≠ .nextPdpt → tree.path gfn 1 = some pdpt
  pd : label = .nextPt → tree.path gfn 2 = some pd

/-- One table on the way, fetched or at hand. -/
theorem getTable_spec {k : ℕ} {p old : Pfn} {needed : Prop} [Decidable needed] {r : Option Pfn}
    (ok : TreeOk tree place) (hgfn : GfnOk gfn) (hk : k < 3) (hp : tree.path gfn k = some p)
    (atHand : ¬ needed → tree.path gfn (k + 1) = some old)
    (h : (if needed then eptTreeGetNextTable host tree gfn (3 - k) p true else (some old, tree)) =
      (r, tree')) :
    ∃ place', TreeOk tree' place' ∧ Grown tree tree' ∧ AddedPages 1 tree tree' ∧
      (r = none → OutOfPages host tree 0) ∧
      ∀ q, r = some q → tree'.path gfn (k + 1) = some q := by
  split_ifs at h with hneeded
  · rcases eptTreeGetNextTable_create ok hgfn hk hp h with ⟨rfl, rfl, out⟩ |
      ⟨q, place', rfl, ok', grown, hq, added⟩
    · exact ⟨place, ok, .refl _, .of_eq rfl, fun _ => out, by simp⟩
    · refine ⟨place', ok', grown, added, by simp, fun q' hq' => ?_⟩
      rw [hq, hq']
  · cases h
    exact ⟨place, ok, .refl _, .of_eq rfl, by simp, fun q hq => (atHand hneeded).trans hq⟩

/-- Getting the tables from a label on. -/
theorem eptTreeGetTables_spec {label : NextTable} {r : Option (Pfn × Pfn × Pfn)}
    (ok : TreeOk tree place) (hgfn : GfnOk gfn) (atHand : AtHand label tree gfn pdpt pd)
    (h : eptTreeGetTables host label pdpt pd gfn tree = (r, tree')) :
    ∃ place', TreeOk tree' place' ∧ Grown tree tree' ∧ AddedPages 3 tree tree' ∧
      (r = none → OutOfPages host tree 2) ∧
      ∀ pdpt pd pt, r = some (pdpt, pd, pt) → tree'.path gfn 1 = some pdpt ∧
        tree'.path gfn 2 = some pd ∧ tree'.path gfn 3 = some pt := by
  unfold eptTreeGetTables at h
  rcases h₁ : (if label = .nextPdpt then
      eptTreeGetNextTable host tree gfn haxEptLevelPml4 tree.root true
    else (some pdpt, tree)) with ⟨r₁, tree₁⟩
  obtain ⟨place₁, ok₁, grown₁, added₁, out₁, hpath₁⟩ :=
    getTable_spec (k := 0) ok hgfn (by norm_num) rfl atHand.pdpt h₁
  rw [h₁] at h
  cases r₁ with
  | none =>
    cases h
    exact ⟨place₁, ok₁, grown₁, added₁.mono (by norm_num), fun _ => (out₁ rfl).mono (by norm_num),
      by simp⟩
  | some pdpt =>
    dsimp only at h
    rcases h₂ : (if label ≠ .nextPt then
        eptTreeGetNextTable host tree₁ gfn haxEptLevelPdpt pdpt true
      else (some pd, tree₁)) with ⟨r₂, tree₂⟩
    obtain ⟨place₂, ok₂, grown₂, added₂, out₂, hpath₂⟩ := getTable_spec (k := 1) ok₁ hgfn
      (by norm_num) (hpath₁ pdpt rfl)
      (fun hlabel => grown₁.path gfn 2 pd hgfn (by norm_num) (atHand.pd (not_not.1 hlabel))) h₂
    rw [h₂] at h
    have added₁₂ : AddedPages 2 tree tree₂ := added₁.trans added₂
    cases r₂ with
    | none =>
      cases h
      exact ⟨place₂, ok₂, grown₁.trans grown₂, added₁₂.mono (by norm_num),
        fun _ => ((out₂ rfl).of_added added₁ grown₁.unmapped).mono (by norm_num), by simp⟩
    | some pd =>
      dsimp only at h
      rcases h₃ : eptTreeGetNextTable host tree₂ gfn haxEptLevelPd pd true with ⟨r₃, tree₃⟩
      rw [h₃] at h
      rcases eptTreeGetNextTable_create (k := 2) ok₂ hgfn (by norm_num) (hpath₂ pd rfl) h₃ with
        ⟨rfl, rfl, out₃⟩ | ⟨pt, place₃, rfl, ok₃, grown₃, hpt, added₃⟩
      · cases h
        exact ⟨place₂, ok₂, grown₁.trans grown₂, added₁₂.mono (by norm_num),
          fun _ => out₃.of_added added₁₂ (grown₁.trans grown₂).unmapped, by simp⟩
      · cases h
        refine ⟨place₃, ok₃, (grown₁.trans grown₂).trans grown₃, added₁₂.trans added₃, by simp, ?_⟩
        rintro _ _ _ ⟨⟩
        exact ⟨grown₃.path gfn 1 _ hgfn (by norm_num)
          (grown₂.path gfn 1 _ hgfn (by norm_num) (hpath₁ pdpt rfl)),
          grown₃.path gfn 2 _ hgfn (by norm_num) (hpath₂ pd rfl), hpt⟩

theorem EptTree.path_congr {g k : ℕ} (hk : k ≤ 3) (h : eptShape.lead k g = eptShape.lead k gfn) :
    tree.path g k = tree.path gfn k :=
  RadixShape.path_congr eptShape (Nat.le_succ_of_le hk) h

/-- The tables for the last frame of a table are at hand for the next frame,
unless the table was the last one below them. -/
theorem nextTable_atHand (hpdpt : tree.path gfn 1 = some pdpt) (hpd : tree.path gfn 2 = some pd) :
    AtHand (nextTable (512 * (gfn / 512 + 1))) tree (512 * (gfn / 512 + 1)) pdpt pd := by
  have lead_one (x : ℕ) : eptShape.lead 1 x = x / 2 ^ 27 := rfl
  have lead_two (x : ℕ) : eptShape.lead 2 x = x / 2 ^ 18 := rfl
  have hlabel : nextTable (512 * (gfn / 512 + 1)) =
      if 512 * (gfn / 512 + 1) / 2 ^ 9 % 512 ≠ 0 then .nextPt
      else if 512 * (gfn / 512 + 1) / 2 ^ 18 % 512 ≠ 0 then .nextPd else .nextPdpt := rfl
  by_cases hpt : 512 * (gfn / 512 + 1) / 2 ^ 9 % 512 = 0
  · rw [if_neg (not_not.2 hpt)] at hlabel
    by_cases hpd' : 512 * (gfn / 512 + 1) / 2 ^ 18 % 512 = 0
    · rw [hlabel, if_neg (not_not.2 hpd')]
      exact ⟨fun h => absurd rfl h, nofun⟩
    · rw [hlabel, if_pos hpd']
      refine ⟨fun _ => ?_, nofun⟩
      rw [EptTree.path_congr (by norm_num), hpdpt]
      rw [lead_one, lead_one]
      omega
  · rw [hlabel, if_pos hpt]
    refine ⟨fun _ => ?_, fun _ => ?_⟩
    · rw [EptTree.path_congr (by norm_num), hpdpt]
      rw [lead_one, lead_one]
      omega
    · rw [EptTree.path_congr (by norm_num), hpd]
      rw [lead_two, lead_two]
      omega

theorem eptTableRun_eq {endGfn : ℕ} (hle : gfn ≤ endGfn) (bound : endGfn < 2 ^ 36) :
    eptTableRun gfn endGfn =
      if gfn / 512 < endGfn / 512 then 512 - gfn % 512 else endGfn + 1 - gfn := by
  have gross (x : ℕ) (hx : x < 2 ^ 36) : eptGrossIndex x 1 = x / 512 := by
    simp only [eptGrossIndex, haxEptTableShift]
    omega
  have index (x : ℕ) : eptIndex x 0 = x % 512 := by
    simp only [eptIndex, haxEptTableShift, haxEptTableSize]
    omega
  rw [eptTableRun, gross gfn (by omega), gross endGfn bound, index, index]
  simp only [haxEptTableSize, haxEptTableShift]
  split_ifs <;> omega

theorem eptTreeCreateLoop_spec {endGfn fuel : ℕ} {label : NextTable} (ok : TreeOk tree place)
    (hle : gfn ≤ endGfn) (bound : endGfn < 2 ^ 36) (enough : endGfn - gfn < fuel)
    (atHand : AtHand label tree gfn pdpt pd)
    (entries : ∀ g, gfn ≤ g → entry g = eptLeaf host chunk flags (offset + pageSize4K * (g - gfn)))
    (h : eptTreeCreateLoop host chunk flags endGfn fuel label pdpt pd gfn offset count tree =
      (ret, tree')) :
    Created tree gfn (endGfn + 1) entry tree' ∧
      Outcome host (3 * fuel) count ret tree gfn (endGfn + 1) entry tree' := by
  induction fuel generalizing tree place label pdpt pd gfn offset count with
  | zero => omega
  | succ fuel ih =>
    have hgfn : GfnOk gfn := by
      unfold GfnOk
      omega
    rw [eptTreeCreateLoop] at h
    rcases htables : eptTreeGetTables host label pdpt pd gfn tree with ⟨r, tree₁⟩
    obtain ⟨place₁, ok₁, grown, added, out, hpaths⟩ := eptTreeGetTables_spec ok hgfn atHand htables
    rw [htables] at h
    cases r with
    | none =>
      cases h
      exact ⟨grown.created ok₁, .inr (.inl ⟨rfl, (out rfl).mono (by omega)⟩)⟩
    | some tables =>
      obtain ⟨pdpt, pd, pt⟩ := tables
      obtain ⟨hpdpt, hpd, hpt⟩ := hpaths pdpt pd pt rfl
      -- the range inside this table
      have hrun := eptTableRun_eq hle bound
      generalize eptTableRun gfn endGfn = n at h hrun
      have hindex : eptIndex gfn 0 = gfn % 512 := by
        simp only [eptIndex, haxEptTableShift, haxEptTableSize]
        omega
      have hfirst : 512 * (gfn / 512) + gfn % 512 = gfn := by omega
      dsimp only at h
      rw [hindex] at h
      rcases hptes : eptTreeCreatePtes host chunk flags pt (gfn % 512) offset n count tree₁ with
        ⟨ret₁, count₁, tree₂⟩
      have htable (i : ℕ) (hi : i < 512) : tree₁.path (512 * (gfn / 512) + i) 3 = some pt := by
        rw [EptTree.path_congr le_rfl, hpt]
        change (512 * (gfn / 512) + i) / 512 = gfn / 512
        omega
      have hentries (i : ℕ) : entry (512 * (gfn / 512) + gfn % 512 + i) =
          eptLeaf host chunk flags (offset + pageSize4K * i) := by
        rw [hfirst, entries _ (by omega), Nat.add_sub_cancel_left]
      obtain ⟨created, hpages, houtcome⟩ := eptTreeCreatePtes_spec ok₁ htable
        (by split_ifs at hrun <;> omega) (by omega) hentries hptes
      rw [hfirst] at created houtcome
      have hn : 0 < n ∧ gfn + n ≤ endGfn + 1 := by split_ifs at hrun <;> omega
      have begun : Created tree gfn gfn entry tree₁ := grown.created ok₁
      have step : Created tree gfn (gfn + n) entry tree₂ := begun.trans created le_rfl (by omega)
      have added' : AddedPages 3 tree tree₂ := added.trans (.of_eq (n := 0) hpages)
      rw [hptes] at h
      dsimp only at h
      rcases houtcome with ⟨rfl, complete, rfl⟩ | ⟨rfl, clashes⟩
      · rw [if_neg (by simp), begun.absent_eq (by omega)] at h
        by_cases hmore : gfn + n ≤ endGfn
        · -- on to the next table
          rw [if_pos hmore] at h
          have hnext : gfn + n = 512 * (gfn / 512 + 1) := by split_ifs at hrun <;> omega
          obtain ⟨place₂, ok₂⟩ := created.ok
          have atHand₂ : AtHand (nextTable (gfn + n)) tree₂ (gfn + n) pdpt pd := by
            rw [hnext]
            exact nextTable_atHand (created.path gfn 1 pdpt hgfn (by norm_num) hpdpt)
              (created.path gfn 2 pd hgfn (by norm_num) hpd)
          obtain ⟨rest, outcome⟩ := ih ok₂ hmore (by omega) atHand₂
            (fun g hg => by
              rw [entries g (by omega)]
              congr 1
              simp only [pageSize4K]
              omega) h
          exact ⟨step.trans rest (by omega) (by omega),
            .mono (by omega) (.append step added' complete rest outcome (by omega) (by omega)
              (by omega))⟩
        · rw [if_neg hmore] at h
          cases h
          rw [show endGfn + 1 = gfn + n by omega]
          exact ⟨step, .inl ⟨rfl, complete⟩⟩
      · rw [if_pos (by decide)] at h
        cases h
        have clash : Clashes tree gfn (gfn + n) entry := clashes.of_created begun le_rfl (by omega)
        exact ⟨step.mono hn.2, .inr (.inr ⟨rfl, clash.mono hn.2⟩)⟩

/-- `ept_tree_create_entries` fills in entries of the range, or all of them. -/
theorem eptTreeCreateEntries_spec {startGfn npages offsetWithinChunk : ℕ}
    (ok : TreeOk tree place) (pos : 0 < npages) (bound : startGfn + npages ≤ 2 ^ 36)
    (h : eptTreeCreateEntries host tree startGfn npages chunk offsetWithinChunk flags =
      (ret, tree')) :
    Created tree startGfn (startGfn + npages)
        (chunkEntry host chunk flags startGfn offsetWithinChunk) tree' ∧
      Outcome host (3 * npages) 0 ret tree startGfn (startGfn + npages)
        (chunkEntry host chunk flags startGfn offsetWithinChunk) tree' := by
  rw [show startGfn + npages = startGfn + npages - 1 + 1 by omega]
  exact eptTreeCreateLoop_spec ok (by omega) (by omega) (by omega) ⟨fun h => absurd rfl h, nofun⟩
    (fun g _ => rfl) h

end Haxm
