/-
# The EPT as a map

The tables of an EPT form a radix tree, so an EPT is a map from guest frames to
leaf entries. Getting the next table, with or without creating it, does not
change the map; removing and creating entries change it as one expects.
-/

import Haxm.Ept.Tree
import Haxm.Lib.Interval
import Mathlib.Tactic.IntervalCases

namespace Haxm

open Lib

/-- The tables of an EPT. -/
def eptShape : RadixShape Pfn Epte where
  fanout := 512
  depth := 3
  next e := if e.perm = haxEptPermNone then none else some e.pfn
  empty := Epte.zero
  fanout_pos := by norm_num
  next_empty := rfl

/-- Where in the cache the table at a place belongs. -/
def freqPlace : ℕ × ℕ → Option ℕ
  | (0, lead) => if lead = 0 then some 0 else none
  | (1, lead) => if lead = 0 then some 1 else none
  | (2, lead) => if lead < 8 then some (2 + lead) else none
  | _ => none

/-- The frame numbers that four levels of tables can tell apart. -/
abbrev GfnOk (gfn : ℕ) : Prop := gfn < 2 ^ 36

variable {host : Host} {tree tree' : EptTree} {place : Pfn → Option (ℕ × ℕ)} {p q : Pfn}
  {gfn g k : ℕ}

theorem key_of_gfnOk (h : GfnOk gfn) : eptShape.Key gfn := h

theorem eptIndex_eq_digit (k gfn : ℕ) : eptIndex gfn (3 - k) = eptShape.digit k gfn := by
  have hpow : 2 ^ (haxEptTableShift * (3 - k)) = 512 ^ (3 - k) := pow_mul 2 9 (3 - k)
  rw [eptIndex, hpow]
  rfl

/-- The table that the processor finds at a depth on its way to a frame. -/
abbrev EptTree.path (tree : EptTree) (gfn k : ℕ) : Option Pfn :=
  eptShape.path tree.table tree.root gfn k

/-- The leaf entry of a frame, which is zero if there is none. -/
abbrev EptTree.leaf (tree : EptTree) (gfn : ℕ) : Epte :=
  eptShape.lookup tree.table tree.root gfn

/-- How many of the frames from `first` up to `last` have no entry. -/
def EptTree.absent (tree : EptTree) (first last : ℕ) : ℕ :=
  countIn (fun g => tree.leaf g = Epte.zero) first last

/-- How many of the frames from `first` up to `last` have an entry. -/
def EptTree.present (tree : EptTree) (first last : ℕ) : ℕ :=
  countIn (fun g => tree.leaf g ≠ Epte.zero) first last

/-- The tables of an EPT are where they should be. -/
structure TreeOk (tree : EptTree) (place : Pfn → Option (ℕ × ℕ)) : Prop where
  placed : eptShape.Placed tree.table tree.root place
  listed : ∀ p a, place p = some a → p ∈ tree.pageList
  links : ∀ p k l i, place p = some (k, l) → k < 3 →
    tree.table p i = Epte.zero ∨ ∃ q, tree.table p i = { perm := haxEptPermRwx, pfn := q }
  leaves : ∀ p l i, place p = some (3, l) → (tree.table p i).perm = haxEptPermNone →
    tree.table p i = Epte.zero
  freq : ∀ p a i, place p = some a → freqPlace a = some i → tree.freqPages i = some p

theorem eptTreeInit_ok {tree : EptTree} (h : eptTreeInit host = some tree) :
    ∃ place, TreeOk tree place := by
  obtain ⟨page, hpage, rfl⟩ := Option.map_eq_some_iff.1 h
  let place : Pfn → Option (ℕ × ℕ) := fun p => if p = page then some (0, 0) else none
  have only_root {p : Pfn} {a : ℕ × ℕ} (hp : place p = some a) : p = page ∧ a = (0, 0) := by
    simp only [place] at hp
    split_ifs at hp with hpage
    exact ⟨hpage, (Option.some.inj hp).symm⟩
  refine ⟨place, ⟨by simp [place], fun _ _ _ hnext => ?_, fun hq => ?_, fun hp hq => ?_⟩,
    fun p a hp => ?_, fun _ _ _ _ _ _ => .inl rfl, fun _ _ _ _ _ => rfl, fun p a i hp hi => ?_⟩
  · cases hnext
  · cases (only_root hq).2
  · rw [(only_root hp).1, (only_root hq).1]
  · simp [(only_root hp).1]
  · obtain ⟨rfl, rfl⟩ := only_root hp
    cases hi
    simp

theorem freqPlace_inj {a b : ℕ × ℕ} {i : ℕ} (ha : freqPlace a = some i)
    (hb : freqPlace b = some i) : a = b := by
  unfold freqPlace at ha hb
  split at ha <;> split at hb <;> simp_all
  all_goals omega

/-- The cache is consulted for the place of the next table. -/
theorem eptTreeGetFreqPage_eq (hk : k < 3) (hgfn : GfnOk gfn) :
    eptTreeGetFreqPage gfn (3 - k - 1) = freqPlace (k + 1, eptShape.lead (k + 1) gfn) := by
  interval_cases k
  · have hlead : eptShape.lead 1 gfn = gfn / 2 ^ 27 := rfl
    have hgross : eptGrossIndex gfn 3 = gfn / 2 ^ 27 := by
      simp only [eptGrossIndex, haxEptTableShift]
      omega
    simp only [eptTreeGetFreqPage, freqPlace, hlead, hgross]
  · have hlead : eptShape.lead 2 gfn = gfn / 2 ^ 18 := rfl
    have hgross : eptGrossIndex gfn 2 = gfn / 2 ^ 18 := by
      simp only [eptGrossIndex, haxEptTableShift]
      omega
    simp only [eptTreeGetFreqPage, freqPlace, hlead, hgross, haxEptFreqPageCount]
  · rfl

theorem eptTreeInit_maps {tree : EptTree} (h : eptTreeInit host = some tree) : tree.Maps := by
  obtain ⟨page, -, rfl⟩ := Option.map_eq_some_iff.1 h
  rfl

theorem setEntry_table (table : Pfn) (index : ℕ) (epte : Epte) :
    (tree.setEntry table index epte).table = writeEntry tree.table table index epte := rfl

@[simp] theorem setFreqPage_table (freqPage : Option ℕ) (page : Pfn) :
    (tree.setFreqPage freqPage page).table = tree.table := by
  cases freqPage <;> rfl

@[simp] theorem setFreqPage_root (freqPage : Option ℕ) (page : Pfn) :
    (tree.setFreqPage freqPage page).root = tree.root := by
  cases freqPage <;> rfl

@[simp] theorem setFreqPage_pageList (freqPage : Option ℕ) (page : Pfn) :
    (tree.setFreqPage freqPage page).pageList = tree.pageList := by
  cases freqPage <;> rfl

@[simp] theorem setFreqPage_inveptPending (freqPage : Option ℕ) (page : Pfn) :
    (tree.setFreqPage freqPage page).inveptPending = tree.inveptPending := by
  cases freqPage <;> rfl

@[simp] theorem setFreqPage_unmapped (freqPage : Option ℕ) (page : Pfn) :
    (tree.setFreqPage freqPage page).unmapped = tree.unmapped := by
  cases freqPage <;> rfl

/-! ## Getting the next table -/

theorem next_link (q : Pfn) : eptShape.next { perm := haxEptPermRwx, pfn := q } = some q := rfl

theorem EptTree.path_succ (hp : tree.path gfn k = some p) :
    tree.path gfn (k + 1) = eptShape.next (tree.table p (eptShape.digit k gfn)) := by
  change (tree.path gfn k).bind _ = _
  rw [hp, Option.bind_some]

/-- Looking for the next table without creating it, which fails if it cannot be mapped. -/
theorem eptTreeGetNextTable_find (ok : TreeOk tree place) (hgfn : GfnOk gfn) (hk : k < 3)
    (hp : tree.path gfn k = some p) :
    (eptTreeGetNextTable host tree gfn (3 - k) p false).1 = tree.path gfn (k + 1) ∨
      (eptTreeGetNextTable host tree gfn (3 - k) p false).1 = none ∧ ¬ tree.Maps := by
  have hplace := ok.placed.place_path (key_of_gfnOk hgfn) hk.le hp
  have hnext := EptTree.path_succ hp
  rw [eptTreeGetNextTable, eptIndex_eq_digit, eptTreeGetFreqPage_eq hk hgfn]
  rcases ok.links p k _ (eptShape.digit k gfn) hplace hk with hzero | ⟨q, hq⟩
  · rw [hzero] at hnext ⊢
    rw [hnext, if_pos ⟨rfl, rfl⟩]
    exact .inl rfl
  · have hlink := hnext
    rw [hq, next_link] at hlink
    have hqplace := ok.placed.place_path (key_of_gfnOk hgfn) hk hlink
    rw [hq, hlink]
    dsimp only
    rw [if_neg (by simp), if_neg (by simp [Epte.zero]), if_neg (by simp [invalidEpte])]
    cases hfreq : freqPlace (k + 1, eptShape.lead (k + 1) gfn) with
    | none =>
      by_cases fails : (gfn, q) ∈ tree.unmapped
      · exact .inr ⟨if_pos fails, List.ne_nil_of_mem fails⟩
      · exact .inl (if_neg fails)
    | some i => exact .inl (ok.freq q _ i hqplace hfreq)

/-- The tree has grown, but maps the same. -/
structure Grown (tree tree' : EptTree) : Prop where
  root : tree'.root = tree.root
  pending : tree'.inveptPending = tree.inveptPending
  leaf : ∀ g, GfnOk g → tree'.leaf g = tree.leaf g
  path : ∀ g j r, GfnOk g → j ≤ 3 → tree.path g j = some r → tree'.path g j = some r
  unmapped : tree'.unmapped = tree.unmapped

theorem Grown.refl (tree : EptTree) : Grown tree tree :=
  ⟨rfl, rfl, fun _ _ => rfl, fun _ _ _ _ _ h => h, rfl⟩

theorem Grown.trans {tree'' : EptTree} (first : Grown tree tree') (second : Grown tree' tree'') :
    Grown tree tree'' where
  root := second.root.trans first.root
  pending := second.pending.trans first.pending
  leaf g hg := (second.leaf g hg).trans (first.leaf g hg)
  path g j r hg hj h := second.path g j r hg hj (first.path g j r hg hj h)
  unmapped := second.unmapped.trans first.unmapped

/-- At most `n` pages were allocated. -/
def AddedPages (n : ℕ) (tree tree' : EptTree) : Prop :=
  ∃ new, new.length ≤ n ∧ tree'.pageList = new ++ tree.pageList

/-- The host does not map a page, or has none left at some point before `n` more pages are
allocated. -/
def OutOfPages (host : Host) (tree : EptTree) (n : ℕ) : Prop :=
  ¬ tree.Maps ∨ ∃ new, new.length ≤ n ∧ host.allocPageFrame (new ++ tree.pageList) = none

theorem AddedPages.of_eq {n : ℕ} (same : tree'.pageList = tree.pageList) :
    AddedPages n tree tree' :=
  ⟨[], Nat.zero_le n, same⟩

theorem AddedPages.trans {tree'' : EptTree} {m n : ℕ} (first : AddedPages m tree tree')
    (second : AddedPages n tree' tree'') : AddedPages (m + n) tree tree'' := by
  obtain ⟨new, hnew, hpages⟩ := first
  obtain ⟨new', hnew', hpages'⟩ := second
  refine ⟨new' ++ new, ?_, ?_⟩
  · rw [List.length_append]
    omega
  · rw [hpages', hpages, List.append_assoc]

theorem AddedPages.mono {m n : ℕ} (added : AddedPages m tree tree') (le : m ≤ n) :
    AddedPages n tree tree' := by
  obtain ⟨new, hnew, hpages⟩ := added
  exact ⟨new, hnew.trans le, hpages⟩

theorem OutOfPages.of_added {m n : ℕ} (out : OutOfPages host tree' n)
    (added : AddedPages m tree tree') (unmapped : tree'.unmapped = tree.unmapped) :
    OutOfPages host tree (m + n) := by
  obtain ⟨new, hnew, hpages⟩ := added
  obtain stuck | ⟨new', hnew', fails⟩ := out
  · rw [EptTree.Maps, unmapped] at stuck
    exact .inl stuck
  refine .inr ⟨new' ++ new, ?_, ?_⟩
  · rw [List.length_append]
    omega
  · rw [List.append_assoc, ← hpages, fails]

theorem OutOfPages.mono {m n : ℕ} (out : OutOfPages host tree m) (le : m ≤ n) :
    OutOfPages host tree n := by
  exact out.imp_right fun ⟨new, hnew, fails⟩ => ⟨new, hnew.trans le, fails⟩

/-- A new table is linked in and entered into the cache where it belongs. -/
theorem TreeOk.linked {page : Pfn} (ok : TreeOk tree place)
    (linked : eptShape.Linked tree.table tree.root place gfn k p page
      { perm := haxEptPermRwx, pfn := page })
    (htable : tree'.table =
      eptShape.link tree.table gfn k p page { perm := haxEptPermRwx, pfn := page })
    (hroot : tree'.root = tree.root) (hlist : tree'.pageList = page :: tree.pageList)
    (hfreq : ∀ i, tree'.freqPages i =
      if freqPlace (k + 1, eptShape.lead (k + 1) gfn) = some i then some page
      else tree.freqPages i) :
    TreeOk tree' (Function.update place page (some (k + 1, eptShape.lead (k + 1) gfn))) := by
  have old {r : Pfn} {a : ℕ × ℕ} (hne : r ≠ page)
      (h : Function.update place page (some (k + 1, eptShape.lead (k + 1) gfn)) r = some a) :
      place r = some a := by rwa [Function.update_of_ne hne] at h
  refine ⟨?_, fun r a hr => ?_, fun r k' l i hr hk => ?_, fun r l i hr hperm => ?_,
    fun r a i hr ha => ?_⟩
  · rw [htable, hroot]
    exact linked.placed ok.placed
  · rw [hlist]
    by_cases hne : r = page
    · simp [hne]
    · exact List.mem_cons_of_mem _ (ok.listed r a (old hne hr))
  · rw [htable]
    by_cases hne : r = page
    · rw [hne]
      exact .inl (linked.link_at_new ok.placed)
    · by_cases hentry : r = p ∧ i = eptShape.digit k gfn
      · rw [hentry.1, hentry.2, RadixShape.link_at_from]
        exact .inr ⟨page, rfl⟩
      · rw [RadixShape.link_of_ne hne hentry]
        exact ok.links r k' l i (old hne hr) hk
  · rw [htable] at hperm ⊢
    by_cases hne : r = page
    · rw [hne]
      exact linked.link_at_new ok.placed
    · have hlast := old hne hr
      have hentry : ¬ (r = p ∧ i = eptShape.digit k gfn) := by
        rintro ⟨rfl, -⟩
        have hdepth := congrArg Prod.fst (Option.some.inj
          ((linked.place_from ok.placed).symm.trans hlast))
        have hk : k < 3 := linked.depth
        simp only at hdepth
        omega
      rw [RadixShape.link_of_ne hne hentry] at hperm ⊢
      exact ok.leaves r l i hlast hperm
  · rw [hfreq]
    by_cases hne : r = page
    · rw [hne, Function.update_self] at hr
      cases hr
      rw [if_pos ha, hne]
    · have hplace := old hne hr
      have hother : freqPlace (k + 1, eptShape.lead (k + 1) gfn) ≠ some i := by
        intro hsame
        -- the two tables would have the same place
        rw [freqPlace_inj ha hsame] at hr
        exact hne ((linked.placed ok.placed).unique hr (Function.update_self ..))
      rw [if_neg hother]
      exact ok.freq r a i hplace ha

/-- Looking for the next table and creating it if need be. -/
theorem eptTreeGetNextTable_create (ok : TreeOk tree place) (hgfn : GfnOk gfn) (hk : k < 3)
    (hp : tree.path gfn k = some p) {r : Option Pfn}
    (h : eptTreeGetNextTable host tree gfn (3 - k) p true = (r, tree')) :
    (r = none ∧ tree' = tree ∧ OutOfPages host tree 0) ∨
      ∃ q place', r = some q ∧ TreeOk tree' place' ∧ Grown tree tree' ∧
        tree'.path gfn (k + 1) = some q ∧ AddedPages 1 tree tree' := by
  have key := key_of_gfnOk hgfn
  have hplace := ok.placed.place_path key hk.le hp
  have hnext := EptTree.path_succ hp
  rw [eptTreeGetNextTable, eptIndex_eq_digit, eptTreeGetFreqPage_eq hk hgfn] at h
  rcases ok.links p k _ (eptShape.digit k gfn) hplace hk with hzero | ⟨q, hq⟩
  · -- the table is missing
    rw [hzero] at hnext h
    rw [if_neg (by simp), if_pos rfl, eptTreeAllocPage] at h
    cases halloc : host.allocPageFrame tree.pageList with
    | none =>
      rw [halloc] at h
      cases h
      exact .inl ⟨rfl, rfl, .inr ⟨[], le_rfl, halloc⟩⟩
    | some page =>
      rw [halloc] at h
      have hunplaced : place page = none := by
        cases hpage : place page with
        | none => rfl
        | some a => exact absurd (ok.listed page a hpage) (host.unused _ _ halloc)
      have linked : eptShape.Linked tree.table tree.root place gfn k p page
          { perm := haxEptPermRwx, pfn := page } :=
        ⟨key, hk, hp, by rw [hzero]; rfl, hunplaced, next_link page⟩
      have hr := congrArg Prod.fst h
      have htree := congrArg Prod.snd h
      dsimp only at hr htree
      have htable : tree'.table =
          eptShape.link tree.table gfn k p page { perm := haxEptPermRwx, pfn := page } := by
        rw [← htree]
        simp only [EptTree.setEntry, setFreqPage_table]
        rfl
      have hroot : tree'.root = tree.root := by
        rw [← htree]
        simp [EptTree.setEntry]
      have hpages : tree'.pageList = page :: tree.pageList := by
        rw [← htree]
        simp [EptTree.setEntry]
      refine .inr ⟨page, _, hr.symm, ok.linked linked htable hroot hpages fun i => ?_,
        ⟨hroot, ?_, fun g hg => ?_, fun g j r hg hj hpath => ?_, ?_⟩, ?_, [page], le_rfl, hpages⟩
      · rw [← htree]
        cases freqPlace (k + 1, eptShape.lead (k + 1) gfn) with
        | none => rfl
        | some j => simp [EptTree.setEntry, EptTree.setFreqPage, Function.update_apply, eq_comm]
      · rw [← htree]
        simp [EptTree.setEntry]
      · rw [EptTree.leaf, htable, hroot]
        exact linked.lookup_link ok.placed (key_of_gfnOk hg)
      · rw [EptTree.path, htable, hroot]
        exact linked.path_link ok.placed (key_of_gfnOk hg) hj hpath
      · rw [← htree]
        simp [EptTree.setEntry]
      · rw [EptTree.path, htable, hroot]
        exact linked.path_new ok.placed
  · -- the table is there
    have hlink := hnext
    rw [hq, next_link] at hlink
    have hqplace := ok.placed.place_path key hk hlink
    rw [hq] at h
    dsimp only at h
    rw [if_neg (by simp), if_neg (by simp [Epte.zero]), if_neg (by simp [invalidEpte])] at h
    have answer : (r, tree') = (some q, tree) ∨ (r, tree') = (none, tree) ∧ ¬ tree.Maps := by
      rw [← h]
      cases hfreq : freqPlace (k + 1, eptShape.lead (k + 1) gfn) with
      | none =>
        dsimp only
        split_ifs with fails
        · exact .inr ⟨rfl, List.ne_nil_of_mem fails⟩
        · exact .inl rfl
      | some i =>
        dsimp only
        rw [ok.freq q _ i hqplace hfreq]
        exact .inl rfl
    rcases answer with found | ⟨failed, stuck⟩
    · cases found
      exact .inr ⟨q, place, rfl, ok, .refl tree, hlink, .of_eq rfl⟩
    · cases failed
      exact .inl ⟨rfl, rfl, .inl stuck⟩

/-! ## Removing entries -/

/-- Writing a leaf entry changes the map at one frame. -/
theorem TreeOk.setLeaf {e : Epte} (ok : TreeOk tree place) (hgfn : GfnOk gfn)
    (hp : tree.path gfn 3 = some p) (present : e.perm = haxEptPermNone → e = Epte.zero) :
    TreeOk (tree.setEntry p (eptIndex gfn 0) e) place ∧
      (∀ g, GfnOk g → (tree.setEntry p (eptIndex gfn 0) e).leaf g =
        if g = gfn then e else tree.leaf g) ∧
      ∀ g j, GfnOk g → j ≤ 3 → (tree.setEntry p (eptIndex gfn 0) e).path g j = tree.path g j := by
  have last := ok.placed.place_path (key_of_gfnOk hgfn) le_rfl hp
  have hindex : eptIndex gfn 0 = eptShape.digit eptShape.depth gfn := eptIndex_eq_digit 3 gfn
  rw [hindex]
  refine ⟨⟨ok.placed.write_last last, ok.listed, fun r k l i hr hk => ?_, fun r l i hr hperm => ?_,
    ok.freq⟩, fun g hg => ok.placed.lookup_write (key_of_gfnOk hg) (key_of_gfnOk hgfn) hp,
    fun g j hg hj => ok.placed.path_write_last last (key_of_gfnOk hg) hj⟩
  · have hne := RadixShape.Placed.ne_of_last last hk hr
    rw [setEntry_table, writeEntry_of_ne fun h => hne h.1]
    exact ok.links r k l i hr hk
  · by_cases hentry : r = p ∧ i = eptShape.digit eptShape.depth gfn
    · rw [hentry.1, hentry.2, setEntry_table, writeEntry_same] at hperm ⊢
      exact present hperm
    · rw [setEntry_table, writeEntry_of_ne hentry] at hperm ⊢
      exact ok.leaves r l i hr hperm

/-- One more level of a walk. -/
theorem eptTreeGetNextTable_bind (host : Host) {start : Option Pfn} (ok : TreeOk tree place)
    (hgfn : GfnOk gfn) (hk : k < 3) (h : start = tree.path gfn k ∨ start = none ∧ ¬ tree.Maps) :
    (start.bind fun p => (eptTreeGetNextTable host tree gfn (3 - k) p false).1) =
        tree.path gfn (k + 1) ∨
      (start.bind fun p => (eptTreeGetNextTable host tree gfn (3 - k) p false).1) = none ∧
        ¬ tree.Maps := by
  rcases h with rfl | ⟨rfl, fails⟩
  · cases hp : tree.path gfn k with
    | none =>
      refine .inl (Eq.symm ?_)
      change (tree.path gfn k).bind _ = none
      rw [hp]
      rfl
    | some p => exact eptTreeGetNextTable_find ok hgfn hk hp
  · exact .inr ⟨rfl, fails⟩

/-- The walk finds the last table, or cannot map one on its way. -/
theorem eptTreeWalk_cases (host : Host) (ok : TreeOk tree place) (hgfn : GfnOk gfn) :
    eptTreeWalk host tree gfn = tree.path gfn 3 ∨
      eptTreeWalk host tree gfn = none ∧ ¬ tree.Maps := by
  have first : some tree.root = tree.path gfn 0 ∨ some tree.root = none ∧ ¬ tree.Maps := .inl rfl
  have second := eptTreeGetNextTable_bind host ok hgfn (by norm_num) first
  have third := eptTreeGetNextTable_bind host ok hgfn (by norm_num) second
  have walked := eptTreeGetNextTable_bind host ok hgfn (by norm_num) third
  rwa [Option.bind_assoc] at walked

theorem eptTreeWalk_eq (ok : TreeOk tree place) (hgfn : GfnOk gfn) (maps : tree.Maps) :
    eptTreeWalk host tree gfn = tree.path gfn 3 :=
  (eptTreeWalk_cases host ok hgfn).resolve_right fun h => h.2 maps

theorem EptTree.leaf_of_path (hp : tree.path gfn 3 = some p) :
    tree.leaf gfn = tree.table p (eptIndex gfn 0) := by
  have hindex : eptIndex gfn 0 = eptShape.digit eptShape.depth gfn := eptIndex_eq_digit 3 gfn
  rw [hindex]
  exact RadixShape.lookup_of_path hp

theorem EptTree.leaf_of_no_path (hp : tree.path gfn 3 = none) : tree.leaf gfn = Epte.zero :=
  RadixShape.lookup_of_no_path hp

/-- A leaf entry is present exactly if it is not zero. -/
theorem TreeOk.leaf_perm (ok : TreeOk tree place) (hgfn : GfnOk gfn) :
    (tree.leaf gfn).perm = haxEptPermNone ↔ tree.leaf gfn = Epte.zero := by
  refine ⟨fun h => ?_, fun h => by rw [h]; rfl⟩
  cases hp : tree.path gfn 3 with
  | none => exact EptTree.leaf_of_no_path hp
  | some p =>
    rw [EptTree.leaf_of_path hp] at h ⊢
    exact ok.leaves p _ _ (ok.placed.place_path (key_of_gfnOk hgfn) le_rfl hp) h

/-- The entries from `first` up to `last` have been removed, all of them if no mapping fails. -/
structure Invalidated (tree : EptTree) (first last : ℕ) (tree' : EptTree) : Prop where
  ok : ∃ place, TreeOk tree' place
  unmapped : tree'.unmapped = tree.unmapped
  leaf : ∀ g, GfnOk g → tree'.leaf g = tree.leaf g ∨
    (first ≤ g ∧ g < last) ∧ tree'.leaf g = Epte.zero
  complete : tree.Maps → ∀ g, first ≤ g → g < last → tree'.leaf g = Epte.zero

theorem Invalidated.refl {first last : ℕ} (ok : TreeOk tree place)
    (empty : tree.Maps → ∀ g, first ≤ g → g < last → tree.leaf g = Epte.zero) :
    Invalidated tree first last tree :=
  ⟨⟨place, ok⟩, rfl, fun _ _ => .inl rfl, empty⟩

theorem Invalidated.maps {first last : ℕ} (inv : Invalidated tree first last tree')
    (maps : tree.Maps) : tree'.Maps := by
  rwa [EptTree.Maps, inv.unmapped]

/-- Without a failure the map is known. -/
theorem Invalidated.leaf_eq {first last : ℕ} (inv : Invalidated tree first last tree')
    (maps : tree.Maps) (hgfn : GfnOk gfn) :
    tree'.leaf gfn = if first ≤ gfn ∧ gfn < last then Epte.zero else tree.leaf gfn := by
  split_ifs with inside
  · exact inv.complete maps gfn inside.1 inside.2
  · exact (inv.leaf gfn hgfn).resolve_right fun h => inside h.1

theorem Invalidated.trans {first mid last : ℕ} {tree₁ tree₂ : EptTree}
    (one : Invalidated tree first mid tree₁) (two : Invalidated tree₁ mid last tree₂)
    (le₁ : first ≤ mid) (le₂ : mid ≤ last) (bound : last ≤ 2 ^ 36) :
    Invalidated tree first last tree₂ where
  ok := two.ok
  unmapped := two.unmapped.trans one.unmapped
  leaf g hg := by
    rcases two.leaf g hg with same | ⟨inside, gone⟩
    · rw [same]
      exact (one.leaf g hg).imp_right fun h => ⟨by omega, h.2⟩
    · exact .inr ⟨by omega, gone⟩
  complete maps g hfirst hlast := by
    rw [two.leaf_eq (one.maps maps) (hlast.trans_le bound)]
    split_ifs with inside
    · rfl
    · exact one.complete maps g hfirst (by omega)

variable {removed : Bool} {count n : ℕ} {events : List Event}

theorem eptTreeInvalidateEntry_spec (ok : TreeOk tree place) (hgfn : GfnOk gfn)
    (h : eptTreeInvalidateEntry host tree gfn = (removed, tree', events)) :
    Invalidated tree gfn (gfn + 1) tree' ∧ tree'.inveptPending = tree.inveptPending ∧
      (tree.Maps → removed = decide (tree.leaf gfn ≠ Epte.zero)) := by
  have hperm := ok.leaf_perm hgfn
  have kept (zero : tree.Maps → tree.leaf gfn = Epte.zero) :
      Invalidated tree gfn (gfn + 1) tree ∧ tree.inveptPending = tree.inveptPending ∧
        (tree.Maps → false = decide (tree.leaf gfn ≠ Epte.zero)) := by
    refine ⟨.refl ok fun maps g hfirst hlast => ?_, rfl, fun maps => by simp [zero maps]⟩
    obtain rfl : g = gfn := by omega
    exact zero maps
  unfold eptTreeInvalidateEntry at h
  rcases eptTreeWalk_cases host ok hgfn with walk | ⟨walk, fails⟩
  · rw [walk] at h
    cases hp : tree.path gfn 3 with
    | none =>
      rw [hp] at h
      cases h
      exact kept fun _ => EptTree.leaf_of_no_path hp
    | some pt =>
      rw [hp] at h
      dsimp only at h
      rw [← EptTree.leaf_of_path hp] at h
      split_ifs at h with none
      · cases h
        exact kept fun _ => hperm.1 none
      · cases h
        obtain ⟨ok', leaf', -⟩ := ok.setLeaf (e := Epte.zero) hgfn hp fun _ => rfl
        refine ⟨⟨⟨place, ok'⟩, rfl, fun g hg => ?_, fun _ g hfirst hlast => ?_⟩, rfl,
          fun _ => (decide_eq_true (mt hperm.2 none)).symm⟩
        · rw [leaf' g hg]
          split_ifs with same
          · exact .inr ⟨by omega, rfl⟩
          · exact .inl rfl
        · obtain rfl : g = gfn := by omega
          rw [leaf' g hgfn, if_pos rfl]
  · rw [walk] at h
    cases h
    exact kept fun maps => absurd maps fails

theorem eptTreeInvalidateLoop_spec (ok : TreeOk tree place) (bound : gfn + n ≤ 2 ^ 36)
    (h : eptTreeInvalidateLoop host gfn n tree = (count, tree', events)) :
    Invalidated tree gfn (gfn + n) tree' ∧ tree'.inveptPending = tree.inveptPending ∧
      (tree.Maps → count = tree.present gfn (gfn + n)) := by
  induction n generalizing tree gfn place count events with
  | zero =>
    cases h
    exact ⟨.refl ok fun _ g hfirst hlast => by omega, rfl, fun _ => countIn_self.symm⟩
  | succ n ih =>
    rcases hentry : eptTreeInvalidateEntry host tree gfn with ⟨removed, tree₁, events₁⟩
    rcases hloop : eptTreeInvalidateLoop host (gfn + 1) n tree₁ with ⟨count₁, tree₂, events₂⟩
    rw [eptTreeInvalidateLoop, hentry] at h
    dsimp only at h
    rw [hloop] at h
    cases h
    obtain ⟨inv₁, pending₁, removed_eq⟩ :=
      eptTreeInvalidateEntry_spec ok (show gfn < 2 ^ 36 by omega) hentry
    obtain ⟨place₁, ok₁⟩ := inv₁.ok
    obtain ⟨inv₂, pending₂, count_eq⟩ := ih ok₁ (by omega) hloop
    have hend : gfn + (n + 1) = gfn + 1 + n := by omega
    rw [hend]
    refine ⟨inv₁.trans inv₂ (by omega) (by omega) (by omega), pending₂.trans pending₁,
      fun maps => ?_⟩
    have rest : tree₁.present (gfn + 1) (gfn + 1 + n) = tree.present (gfn + 1) (gfn + 1 + n) :=
      countIn_congr fun g hg => by
        rw [inv₁.leaf_eq maps (show g < 2 ^ 36 by omega), if_neg (by omega)]
    rw [count_eq (inv₁.maps maps), removed_eq maps, rest, EptTree.present, EptTree.present,
      countIn_append (Nat.le_succ gfn) (Nat.le_add_right (gfn + 1) n), countIn_succ]
    by_cases hzero : tree.leaf gfn = Epte.zero <;> simp [hzero]

/-- Removing a range of entries. If the count is not 0, an INVEPT is pending. -/
theorem eptTreeInvalidateEntries_spec {startGfn npages : ℕ} {ret : ℤ} (ok : TreeOk tree place)
    (bound : startGfn + npages ≤ 2 ^ 36)
    (h : eptTreeInvalidateEntries host tree startGfn npages = (ret, tree', events)) :
    Invalidated tree startGfn (startGfn + npages) tree' ∧
      tree'.inveptPending = (tree.inveptPending || decide (ret ≠ 0)) ∧
      (tree.Maps → ret = int32 (tree.present startGfn (startGfn + npages))) := by
  have hend : add64 startGfn npages = startGfn + npages :=
    add64_of_lt (bound.trans_lt (by decide))
  rcases hloop : eptTreeInvalidateLoop host startGfn npages tree with ⟨count, tree₁, events₁⟩
  obtain ⟨inv, pending, count_eq⟩ := eptTreeInvalidateLoop_spec ok bound hloop
  rw [eptTreeInvalidateEntries, hend, Nat.add_sub_cancel_left, hloop] at h
  obtain ⟨rfl, rfl, rfl⟩ : int32 count = ret ∧ _ ∧ events₁ = events := by simpa using h
  refine ⟨?_, ?_, fun maps => by rw [count_eq maps]⟩
  · split_ifs
    · exact inv
    · exact { inv with ok := inv.ok.imp fun _ ok => { ok with } }
  · split_ifs with some <;> simp [pending, some]

end Haxm
