/-
# How exact the notices are

A listener that keeps something per guest frame depends on hearing of each frame
whose mapping goes away, and of no other. This is the case: the ranges reported as
removed or changed are disjoint and make up exactly the frames that were mapped
elsewhere than the request maps them.

The notices about new mappings are not exact. If no slot was copied, the whole
range is reported as added, even if the request unmaps it. And the hole between
two old slots is reported with the host address of the start of the range.
-/

import Haxm.Memory.Notices

namespace Haxm

open Lib

variable {σ : Type*} {sp sp' : GpaSpace σ} {mapping : MemslotMapping} {dest src s : Memslot}
  {list list' snapshot rest after : List Memslot} {w w' : Walk} {isValid isFirst isTerminal : Bool}
  {base : Option ℕ → ℕ} {m m' : Mem} {ret : ℤ} {start startGfn npages uva flags gfn : ℕ}
  {told : List Notice}

/-! ## Which slots are copied -/

theorem Memslot.overlaps_iff :
    dest.overlaps s = true ↔ dest.baseGfn < s.endGfn ∧ s.baseGfn < dest.endGfn := by
  simp [Memslot.overlaps]

/-! ## The notices in closed form -/

/-- The old slot maps its part of the range elsewhere. -/
def Memslot.differs (dest : Memslot) (isValid : Bool) (s : Memslot) : Bool :=
  !(isValid && memslotIsSameType dest s)

/-- The notice about the part of the range that an old slot covers. -/
def lostNotice (dest : Memslot) (uva flags : ℕ) (base : Option ℕ → ℕ) (s : Memslot) : Notice :=
  let start := max s.baseGfn dest.baseGfn
  let npages := min s.endGfn dest.endGfn - start
  let oldUva := (base s.block + s.offsetWithinBlock + pageSize4K * (start - s.baseGfn)) % word
  if memslotIsValid flags then
    .changed start npages oldUva (s.flags % 256)
      ((uva + pageSize4K * (start - dest.baseGfn)) % word) (flags % 256)
  else .removed start npages oldUva (s.flags % 256)

/-- The notice about a hole, unless it is empty. -/
def gapNotices (start stop uva flags : ℕ) : List Notice :=
  if start < stop then [.added start (stop - start) uva (flags % 256)] else []

/-- The notices about the holes between the old slots, from `start` on. Only the
hole behind the last slot comes with its own address. -/
def addedNotices (dest : Memslot) (uva flags : ℕ) (start : ℕ) : List Memslot → List Notice
  | [] =>
    gapNotices start dest.endGfn ((uva + pageSize4K * (start - dest.baseGfn)) % word) flags
  | s :: rest =>
    gapNotices start s.baseGfn uva flags ++ addedNotices dest uva flags s.endGfn rest

/-- All notices but the one about the hole behind the last slot. -/
def copyNotices (dest : Memslot) (uva flags : ℕ) (base : Option ℕ → ℕ) (start : ℕ) :
    List Memslot → List Notice
  | [] => []
  | s :: rest =>
    (if memslotIsValid flags then gapNotices start s.baseGfn uva flags else []) ++
      (if dest.differs (memslotIsValid flags) s then [lostNotice dest uva flags base s] else []) ++
      copyNotices dest uva flags base s.endGfn rest

/-- The mapping that a request announces. -/
abbrev requestMapping (startGfn npages uva flags : ℕ) : MemslotMapping :=
  { startGfn := startGfn, npages := npages, newUva := uva, newFlags := flags }

theorem lostNotice_isLost : (lostNotice dest uva flags base s).isLost = true := by
  unfold lostNotice
  dsimp only
  split_ifs <;> rfl

section Gap

variable {stop : ℕ} {n : Notice}

theorem mem_gapNotices : n ∈ gapNotices start stop uva flags ↔
    start < stop ∧ n = .added start (stop - start) uva (flags % 256) := by
  unfold gapNotices
  split_ifs with gap <;> simp [gap]

theorem gapNotices_lost : (gapNotices start stop uva flags).filter Notice.isLost = [] := by
  unfold gapNotices
  split_ifs <;> rfl

theorem gapNotices_added :
    (gapNotices start stop uva flags).filter Notice.isAdded = gapNotices start stop uva flags := by
  unfold gapNotices
  split_ifs <;> rfl

theorem gapNotices_covers : (∃ n ∈ gapNotices start stop uva flags, n.Covers gfn) ↔
    start ≤ gfn ∧ gfn < stop := by
  simp only [mem_gapNotices, and_assoc, exists_and_left, exists_eq_left, Notice.Covers,
    Notice.startGfn, Notice.npages]
  omega

theorem gapNotices_pairwise (R : Notice → Notice → Prop) :
    (gapNotices start stop uva flags).Pairwise R := by
  unfold gapNotices
  split_ifs
  · exact List.pairwise_singleton _ _
  · exact .nil

end Gap

theorem copyNotices_lost :
    (copyNotices dest uva flags base start snapshot).filter Notice.isLost =
      (snapshot.filter (dest.differs (memslotIsValid flags))).map
        (lostNotice dest uva flags base) := by
  induction snapshot generalizing start with
  | nil => rfl
  | cons s rest ih =>
    rw [copyNotices, List.filter_append, ih, List.filter_append, List.filter_cons]
    split_ifs <;> simp [gapNotices_lost, lostNotice_isLost]

/-- The hole behind the last copy completes the notices about new mappings. -/
theorem copyNotices_added (valid : memslotIsValid flags = true) :
    (copyNotices dest uva flags base start snapshot).filter Notice.isAdded ++
        addedNotices dest uva flags (holeStart start snapshot) [] =
      addedNotices dest uva flags start snapshot := by
  induction snapshot generalizing start with
  | nil => rfl
  | cons s rest ih =>
    rw [copyNotices, holeStart, List.filter_append, List.append_assoc, ih, List.filter_append,
      if_pos valid, gapNotices_added, addedNotices]
    split_ifs <;> simp [Notice.isAdded, lostNotice_isLost]

theorem copyNotices_unmap (invalid : memslotIsValid flags = false) :
    (copyNotices dest uva flags base start snapshot).filter Notice.isAdded = [] := by
  induction snapshot generalizing start with
  | nil => rfl
  | cons s rest ih =>
    rw [copyNotices, List.filter_append, ih, List.filter_append]
    have differs : dest.differs false s = true := rfl
    simp [invalid, differs, Notice.isAdded, lostNotice_isLost]

theorem add64_shl64 (a d : ℕ) : add64 a (shl64 d pgOrder4K) = (a + pageSize4K * d) % word := by
  simp only [add64, shl64, pgOrder4K, pageSize4K, word]
  omega

theorem ite_shl64 (a b : ℕ) :
    (if a < b then shl64 (b - a) pgOrder4K else 0) = shl64 (b - a) pgOrder4K := by
  split_ifs with h
  · rfl
  · rw [Nat.sub_eq_zero_of_le (not_lt.1 h)]
    rfl

/-- What is said about one copy. A copy in the middle lies inside the range, so that
it need not be clipped. -/
theorem slotNotice_eq (overlaps : dest.overlaps src = true)
    (inside : isTerminal = false → dest.baseGfn ≤ src.baseGfn ∧ src.endGfn ≤ dest.endGfn) :
    slotNotice (mappingCalcSlot (requestMapping dest.baseGfn dest.npages uva flags) src
        (base src.block) (memslotIsValid flags) isTerminal
        (mappingIsChanged dest src (memslotIsValid flags) isTerminal)) =
      if dest.differs (memslotIsValid flags) src then [lostNotice dest uva flags base src]
        else [] := by
  have hoverlap := Memslot.overlaps_iff.1 overlaps
  have hchanged : mappingIsChanged dest src (memslotIsValid flags) isTerminal =
      dest.differs (memslotIsValid flags) src := by
    cases memslotIsValid flags <;> cases isTerminal <;>
      simp [mappingIsChanged, Memslot.differs, hoverlap]
  rw [hchanged]
  by_cases differs : dest.differs (memslotIsValid flags) src = true
  · rw [differs, if_pos rfl]
    have hold : max src.baseGfn dest.baseGfn - src.baseGfn = dest.baseGfn - src.baseGfn := by omega
    have hnew : max src.baseGfn dest.baseGfn - dest.baseGfn = src.baseGfn - dest.baseGfn := by omega
    simp only [mappingCalcSlot, if_true, ite_shl64, add64_shl64, lostNotice, hold, hnew]
    simp only [add64, Nat.mod_add_mod]
    cases isTerminal with
    | true =>
      cases memslotIsValid flags <;> simp [slotNotice, mappingIntersect, Memslot.endGfn]
    | false =>
      obtain ⟨hlow, hhigh⟩ := inside rfl
      have hclip : min src.endGfn dest.endGfn - src.baseGfn = src.npages := by
        rw [min_eq_left hhigh, Memslot.endGfn, Nat.add_sub_cancel_left]
      cases memslotIsValid flags <;> simp [slotNotice, max_eq_left hlow, hclip]
  · simp [mappingCalcSlot, differs, slotNotice]

/-- What is said about the hole in front of a copy. -/
theorem holeNotice_eq (ahead : dest.baseGfn ≤ start) (inside : src.baseGfn ≤ dest.endGfn) :
    holeNotice (mappingCalcHole (requestMapping dest.baseGfn dest.npages uva flags) src isValid
        isTerminal { startGfn := start }) =
      if isValid then gapNotices start src.baseGfn uva flags else [] := by
  unfold mappingCalcHole gapNotices
  cases isValid with
  | false => rfl
  | true =>
    by_cases hole : start < src.baseGfn
    · have hhigh : min (start + (src.baseGfn - start)) (dest.baseGfn + dest.npages) =
          src.baseGfn := by
        rw [Memslot.endGfn] at inside
        omega
      cases isTerminal <;> simp [hole, holeNotice, mappingIntersect, max_eq_left ahead, hhigh]
    · simp [hole, holeNotice]

/-- The notices about copies of slots that overlap the range, and the holes in front
of them. -/
theorem loopNotices_eq (ordered : SlotsOrdered snapshot)
    (overlaps : ∀ s ∈ snapshot, dest.overlaps s = true)
    (behind : isFirst = false → ∀ s ∈ snapshot, dest.baseGfn ≤ s.baseGfn)
    (ahead : dest.baseGfn ≤ start) :
    loopNotices (requestMapping dest.baseGfn dest.npages uva flags) dest (memslotIsValid flags) base
      start isFirst snapshot = copyNotices dest uva flags base start snapshot := by
  induction snapshot generalizing start isFirst with
  | nil => rfl
  | cons src rest ih =>
    obtain ⟨-, before, rest_ordered⟩ := ordered_cons.1 ordered
    have hsrc := overlaps src (by simp)
    have hsrc' := Memslot.overlaps_iff.1 hsrc
    have rest_behind (s : Memslot) (hs : s ∈ rest) : dest.baseGfn ≤ s.baseGfn :=
      hsrc'.1.le.trans (before s hs)
    -- there is a copy behind one in the middle
    have inside (middle : (isFirst || rest.isEmpty) = false) :
        dest.baseGfn ≤ src.baseGfn ∧ src.endGfn ≤ dest.endGfn := by
      simp only [Bool.or_eq_false_iff] at middle
      obtain ⟨next, hnext⟩ := List.exists_mem_of_ne_nil rest (by simpa using middle.2)
      have hnext' := Memslot.overlaps_iff.1 (overlaps next (by simp [hnext]))
      have := before next hnext
      exact ⟨behind middle.1 src (by simp), by omega⟩
    rw [loopNotices, copyNotices, ih rest_ordered (fun s hs => overlaps s (by simp [hs]))
      (fun _ => rest_behind) hsrc'.1.le]
    rw [slotNotice_eq hsrc inside, holeNotice_eq ahead hsrc'.2.le]

/-- The slot behind the range only ends the hole that the range is. -/
theorem loopNotices_behind (range : 0 < dest.npages) (behind : dest.endGfn ≤ s.baseGfn) :
    loopNotices (requestMapping dest.baseGfn dest.npages uva flags) dest (memslotIsValid flags) base
        dest.baseGfn true [s] =
      if memslotIsValid flags then [.added dest.baseGfn dest.npages uva (flags % 256)] else [] := by
  have unchanged : mappingIsChanged dest s (memslotIsValid flags) true = false := by
    simp [mappingIsChanged, not_lt.2 behind]
  have hslot : slotNotice (mappingCalcSlot (requestMapping dest.baseGfn dest.npages uva flags) s
      (base s.block) (memslotIsValid flags) true false) = [] := rfl
  rw [loopNotices, loopNotices, Bool.true_or, unchanged, hslot, List.append_nil, List.append_nil]
  cases memslotIsValid flags with
  | false => rfl
  | true =>
    rw [Memslot.endGfn] at behind
    have ahead : dest.baseGfn < s.baseGfn := by omega
    simp only [mappingCalcHole, mappingIntersect, holeNotice, ahead, decide_true, Bool.and_true,
      if_true, max_self, List.cons.injEq, Notice.added.injEq, true_and, and_true]
    omega

/-! ## The notices of a request -/

theorem broadcastNotices_nil :
    broadcastNotices (requestMapping startGfn npages uva flags) dest base [] =
      [.added startGfn npages uva (flags % 256)] := rfl

/-- The notices of a broadcast about slots that overlap the range. -/
theorem broadcastNotices_overlapping (ordered : SlotsOrdered snapshot) (nonempty : snapshot ≠ [])
    (overlaps : ∀ s ∈ snapshot, dest.overlaps s = true) :
    broadcastNotices (requestMapping dest.baseGfn dest.npages uva flags) dest base snapshot =
      copyNotices dest uva flags base dest.baseGfn snapshot ++
        if memslotIsValid flags then
          addedNotices dest uva flags (holeStart dest.baseGfn snapshot) []
        else [] := by
  rw [broadcastNotices, if_neg (by simpa using nonempty)]
  dsimp only
  rw [loopNotices_eq ordered overlaps (by simp) le_rfl]
  congr 1
  cases memslotIsValid flags with
  | false => rfl
  | true =>
    simp [addedNotices, gapNotices, add64_shl64, Memslot.endGfn]
    rfl

/-- The notices of a broadcast about the slot behind the range. -/
theorem broadcastNotices_behind (range : 0 < dest.npages) (behind : dest.endGfn ≤ s.baseGfn) :
    broadcastNotices (requestMapping dest.baseGfn dest.npages uva flags) dest base [s] =
      if memslotIsValid flags then [.added dest.baseGfn dest.npages uva (flags % 256)] else [] := by
  have covered : ¬ s.endGfn < dest.endGfn := not_lt.2 (behind.trans (Nat.le_add_right _ _))
  rw [broadcastNotices, if_neg (by simp)]
  dsimp only
  rw [loopNotices_behind range behind, ← Memslot.endGfn]
  simp [holeStart, covered]

section Request

variable (range : 0 < dest.npages) (ordered : SlotsOrdered list)
  (copies : SnapshotOf dest list snapshot)

include range ordered copies

theorem broadcastNotices_lost :
    (broadcastNotices (requestMapping dest.baseGfn dest.npages uva flags) dest base snapshot).filter
        Notice.isLost =
      ((list.filter dest.overlaps).filter (dest.differs (memslotIsValid flags))).map
        (lostNotice dest uva flags base) := by
  rcases copies with rfl | ⟨none_overlap, s, -, rfl, behind⟩
  · by_cases nonempty : list.filter dest.overlaps = []
    · rw [nonempty]
      rfl
    · rw [broadcastNotices_overlapping (ordered.sublist List.filter_sublist) nonempty
        fun s hs => (List.mem_filter.1 hs).2, List.filter_append, copyNotices_lost]
      split_ifs <;> simp [addedNotices, gapNotices_lost]
  · rw [broadcastNotices_behind range behind, none_overlap]
    split_ifs <;> rfl

theorem broadcastNotices_added (uva_lt : uva < word) :
    (broadcastNotices (requestMapping dest.baseGfn dest.npages uva flags) dest base snapshot).filter
        Notice.isAdded =
      if memslotIsValid flags then
        addedNotices dest uva flags dest.baseGfn (list.filter dest.overlaps)
      else if snapshot = [] then [.added dest.baseGfn dest.npages uva (flags % 256)] else [] := by
  -- if there are no old slots, the range is one hole
  have whole : addedNotices dest uva flags dest.baseGfn [] =
      [.added dest.baseGfn dest.npages uva (flags % 256)] := by
    simp [addedNotices, gapNotices, Memslot.endGfn, range, Nat.mod_eq_of_lt uva_lt]
  rcases copies with rfl | ⟨none_overlap, s, -, rfl, behind⟩
  · by_cases nonempty : list.filter dest.overlaps = []
    · rw [nonempty, broadcastNotices_nil, whole, if_pos rfl, ite_self]
      rfl
    · rw [broadcastNotices_overlapping (ordered.sublist List.filter_sublist) nonempty
        fun s hs => (List.mem_filter.1 hs).2, List.filter_append, if_neg nonempty]
      cases valid : memslotIsValid flags with
      | true =>
        rw [if_pos rfl, if_pos rfl]
        exact (congrArg (_ ++ ·) gapNotices_added).trans (copyNotices_added valid)
      | false => simp [copyNotices_unmap valid]
  · rw [broadcastNotices_behind range behind, none_overlap, whole,
      if_neg (List.cons_ne_nil s [])]
    split_ifs <;> rfl

end Request

/-! ## Removals and changes -/

theorem lostNotice_startGfn :
    (lostNotice dest uva flags base s).startGfn = max s.baseGfn dest.baseGfn := by
  unfold lostNotice
  dsimp only
  split_ifs <;> rfl

theorem lostNotice_covers (overlaps : dest.overlaps s = true) :
    (lostNotice dest uva flags base s).Covers gfn ↔
      (s.baseGfn ≤ gfn ∧ gfn < s.endGfn) ∧ dest.baseGfn ≤ gfn ∧ gfn < dest.endGfn := by
  have hoverlap := Memslot.overlaps_iff.1 overlaps
  have hs : s.baseGfn ≤ s.endGfn := Nat.le_add_right _ _
  have hnpages : (lostNotice dest uva flags base s).npages =
      min s.endGfn dest.endGfn - max s.baseGfn dest.baseGfn := by
    unfold lostNotice
    dsimp only
    split_ifs <;> rfl
  rw [Notice.Covers, lostNotice_startGfn, hnpages]
  omega

/-- The reported ranges of removals and changes are what a request takes away. The
address of a removed range is where its first frame was mapped before. -/
structure LossesExact (sp : GpaSpace σ) (startGfn npages uva flags : ℕ) (told : List Notice) :
    Prop where
  disjoint : (told.filter Notice.isLost).Pairwise fun a b => ∀ gfn, ¬ (a.Covers gfn ∧ b.Covers gfn)
  exact : ∀ gfn, (∃ n ∈ told, n.isLost = true ∧ n.Covers gfn) ↔
    (startGfn ≤ gfn ∧ gfn < startGfn + npages) ∧
      ∃ s, memslotFind sp.memslotList gfn = some s ∧ (memslotIsValid flags = true →
        s.target gfn ≠ (requestSlot sp startGfn npages uva flags).target gfn)
  removed : ∀ start n u f, Notice.removed start n u f ∈ told →
    memslotIsValid flags = false ∧ ∃ host ro, sp.look start = some (host, ro) ∧ u = host % word
  changed : ∀ start n u f u' f', Notice.changed start n u f u' f' ∈ told →
    memslotIsValid flags = true ∧
      (∃ host ro, sp.look start = some (host, ro) ∧ u = host % word) ∧
      u' = (uva + (start - startGfn) * 4096) % word

theorem sameType_iff_target_eq (hdest : dest.baseGfn ≤ gfn) (hs : s.baseGfn ≤ gfn) :
    SameType dest s ↔ s.target gfn = dest.target gfn := by
  constructor
  · intro same
    exact (same.target_eq hdest hs).symm
  · intro same
    simp only [Memslot.target, pageSize4K, Prod.mk.injEq] at same
    obtain ⟨hblock, hoffset, hreadonly⟩ := same
    exact ⟨hblock.symm, by omega, hreadonly.symm⟩

/-- An old slot differs from the request if it maps a common frame elsewhere. -/
theorem differs_iff (small_dest : dest.Small) (small : s.Small) (hdest : dest.baseGfn ≤ gfn)
    (hs : s.baseGfn ≤ gfn) :
    dest.differs isValid s = true ↔ (isValid = true → s.target gfn ≠ dest.target gfn) := by
  rw [Ne, ← sameType_iff_target_eq hdest hs, ← memslotIsSameType_iff small_dest small]
  cases isValid <;> simp [Memslot.differs]

theorem memslotFind_eq_some_iff (ordered : SlotsOrdered list) :
    memslotFind list gfn = some s ↔ s ∈ list ∧ s.baseGfn ≤ gfn ∧ gfn < s.endGfn := by
  rw [memslotFind_eq_search, search_eq_some_iff ordered]

/-- The first frame of a reported range was mapped by the slot it is about. -/
theorem SpaceOk.look_first (ok : SpaceOk sp) (hs : s ∈ sp.memslotList)
    (overlaps : dest.overlaps s = true) :
    sp.look (max s.baseGfn dest.baseGfn) = some (sp.mem.baseUva s.block + s.offsetWithinBlock +
      pageSize4K * (max s.baseGfn dest.baseGfn - s.baseGfn), s.flags &&& haxMemslotReadonly) := by
  have hoverlap := Memslot.overlaps_iff.1 overlaps
  have nonempty := ok.ordered.2 s hs
  have hfind : memslotFind sp.memslotList (max s.baseGfn dest.baseGfn) = some s :=
    (memslotFind_eq_some_iff ok.ordered).2 ⟨hs, by omega, by omega⟩
  rw [GpaSpace.look, hfind]
  rfl

theorem lossesExact_of_eq (ok : SpaceOk sp)
    (hdest : dest = requestSlot sp startGfn npages uva flags) (small : dest.Small)
    (h : told.filter Notice.isLost =
      ((sp.memslotList.filter dest.overlaps).filter (dest.differs (memslotIsValid flags))).map
        (lostNotice dest uva flags sp.mem.baseUva)) :
    LossesExact sp startGfn npages uva flags told := by
  have hstart : dest.baseGfn = startGfn := by rw [hdest]; rfl
  have hend : dest.endGfn = startGfn + npages := by rw [hdest]; rfl
  have mem_lost (n : Notice) : n ∈ told ∧ n.isLost = true ↔
      ∃ s ∈ sp.memslotList, dest.overlaps s = true ∧
        dest.differs (memslotIsValid flags) s = true ∧
        lostNotice dest uva flags sp.mem.baseUva s = n := by
    rw [← List.mem_filter, h]
    simp only [List.mem_map, List.mem_filter, and_assoc]
  refine ⟨?_, fun gfn => ?_, fun start n u f hn => ?_, fun start n u f u' f' hn => ?_⟩
  · rw [h, List.pairwise_map]
    have apart :=
      (ok.ordered.sublist ((List.filter_sublist (p := dest.differs (memslotIsValid flags))).trans
      (List.filter_sublist (p := dest.overlaps)))).1
    refine apart.imp_of_mem fun {a b} ha hb hbefore gfn hboth => ?_
    have ha' := (List.mem_filter.1 (List.mem_filter.1 ha).1).2
    have hb' := (List.mem_filter.1 (List.mem_filter.1 hb).1).2
    have hcovers := (lostNotice_covers ha').1 hboth.1
    have hcovers' := (lostNotice_covers hb').1 hboth.2
    omega
  · constructor
    · rintro ⟨n, hn, lost, covers⟩
      obtain ⟨s, hs, overlaps, differs, rfl⟩ := (mem_lost n).1 ⟨hn, lost⟩
      obtain ⟨hin, hrange⟩ := (lostNotice_covers overlaps).1 covers
      refine ⟨by omega, s, (memslotFind_eq_some_iff ok.ordered).2 ⟨hs, hin⟩, ?_⟩
      rw [← hdest]
      exact (differs_iff small (ok.small hs) hrange.1 hin.1).1 differs
    · rintro ⟨hrange, s, hfind, differs⟩
      obtain ⟨hs, hin⟩ := (memslotFind_eq_some_iff ok.ordered).1 hfind
      have overlaps : dest.overlaps s = true := Memslot.overlaps_iff.2 ⟨by omega, by omega⟩
      rw [← hdest] at differs
      obtain ⟨hn, lost⟩ := (mem_lost _).2 ⟨s, hs, overlaps,
        (differs_iff small (ok.small hs) (by omega) hin.1).2 differs, rfl⟩
      exact ⟨_, hn, lost, (lostNotice_covers overlaps).2 ⟨hin, by omega, by omega⟩⟩
  · obtain ⟨s, hs, overlaps, -, hnotice⟩ := (mem_lost _).1 ⟨hn, rfl⟩
    have hlook := ok.look_first hs overlaps
    cases valid : memslotIsValid flags with
    | true => simp [lostNotice, valid] at hnotice
    | false =>
      simp only [lostNotice, valid, Bool.false_eq_true, if_false, Notice.removed.injEq] at hnotice
      obtain ⟨rfl, -, rfl, -⟩ := hnotice
      exact ⟨rfl, _, _, hlook, rfl⟩
  · obtain ⟨s, hs, overlaps, -, hnotice⟩ := (mem_lost _).1 ⟨hn, rfl⟩
    have hlook := ok.look_first hs overlaps
    cases valid : memslotIsValid flags with
    | false => simp [lostNotice, valid] at hnotice
    | true =>
      simp only [lostNotice, valid, if_true, Notice.changed.injEq] at hnotice
      obtain ⟨rfl, -, rfl, -, rfl, -⟩ := hnotice
      refine ⟨rfl, ⟨_, _, hlook, rfl⟩, ?_⟩
      rw [hstart, Nat.mul_comm]

/-- The notices of a request that succeeds, from the copies that its pass made. -/
theorem notices_eq (ok : SpaceOk sp) (bound : startGfn + npages < 2 ^ 31) (uva_lt : uva < word)
    (h : (memslotSetMapping sp startGfn npages uva flags).1 = 0) :
    0 < npages ∧ (requestSlot sp startGfn npages uva flags).Small ∧
      ∃ snapshot, SnapshotOf (requestSlot sp startGfn npages uva flags) sp.memslotList snapshot ∧
        (snapshot ≠ [] ↔ CopiesSome (requestSlot sp startGfn npages uva flags) sp.memslotList) ∧
        notices sp startGfn npages uva flags =
          requestNotices sp startGfn npages uva flags snapshot := by
  rw [← memslotSetMapping_recording_ret] at h
  rcases hresult : memslotSetMapping sp.recording startGfn npages uva flags with ⟨ret, sp'⟩
  rw [hresult] at h
  obtain rfl : ret = 0 := h
  cases memslotSetMapping_step hresult with
  | refused _ _ failed => exact absurd rfl failed
  | @carried _ _ _ dest _ _ _ snapshot _ _ carried =>
    have hdest : dest = requestSlot sp startGfn npages uva flags := carried.dest_eq_requestSlot
    have range := carried.range
    have hrange : dest.baseGfn < dest.endGfn := by
      rw [carried.dest_eq, Memslot.endGfn]
      exact Nat.lt_add_of_pos_right range
    have small := carried.dest_small ok.recording bound uva_lt
    refine ⟨range, hdest ▸ small, snapshot, ?_, ?_, ?_⟩
    · rw [← hdest]
      exact (memslotPass_copied ok.ordered hrange carried.passed).snapshotOf
    · rw [← hdest]
      exact (memslotPass_copied ok.ordered hrange carried.passed).some_iff
    · rw [notices, hresult, carried.env_eq ok.recording bound rfl, recorder_foldl]
      rfl

/-- In every state reached by requests while memory lasts, a request that succeeds
reports exactly the frames whose mapping it takes away. -/
theorem notices_lossesExact {listeners : List (Listener σ)} {env : σ}
    (keeps : ListenersKeep listeners)
    (reached : Reached (GpaSpace.init none listeners env) SlotRequested slotStep sp)
    (bound : startGfn + npages < 2 ^ 31) (uva_lt : uva < word)
    (succeeds : (memslotSetMapping sp startGfn npages uva flags).1 = 0) :
    LossesExact sp startGfn npages uva flags (notices sp startGfn npages uva flags) := by
  have ok := (slotRequested_unfailing keeps reached).ok
  obtain ⟨range, small, snapshot, copies, -, hnotices⟩ := notices_eq ok bound uva_lt succeeds
  refine lossesExact_of_eq ok rfl small ?_
  rw [hnotices, requestNotices]
  split_ifs with tells
  · exact broadcastNotices_lost range ok.ordered copies
  · rw [not_or, not_not] at tells
    rw [tells.1]
    rfl

/-- Two slots with a page between them, in one block. -/
def slotsWithGap : GpaSpace Unit :=
  slotStep (slotStep (slotStep (GpaSpace.init none [] ()) (.addRamblock 0x10000 0x4000))
    (.setMapping 0 1 0x10000 0)) (.setMapping 2 1 0x12000 0)

/-- Mapping all three pages one page further changes both slots. -/
theorem slotsWithGap_lossesExact :
    notices slotsWithGap 0 3 0x11000 0 = [.changed 0 1 0x10000 0 0x11000 0, .added 1 1 0x11000 0,
        .changed 2 1 0x12000 0 0x13000 0] ∧
      LossesExact slotsWithGap 0 3 0x11000 0 (notices slotsWithGap 0 3 0x11000 0) := by
  have reached : Reached (GpaSpace.init none [] ()) SlotRequested slotStep slotsWithGap := by
    refine .step (.step (.step .init ?_) ?_) ?_
    · exact ⟨by decide, by decide, by decide⟩
    · exact ⟨by decide, by decide⟩
    · exact ⟨by decide, by decide⟩
  exact ⟨by decide, notices_lossesExact (by simp [ListenersKeep]) reached (by decide) (by decide)
    (by decide)⟩

/-! ## Additions -/

/-- A frame is mapped by one of the slots. -/
def IsMapped (list : List Memslot) (gfn : ℕ) : Prop := (memslotFind list gfn).isSome = true

theorem isMapped_iff (ordered : SlotsOrdered list) :
    IsMapped list gfn ↔ ∃ s ∈ list, s.baseGfn ≤ gfn ∧ gfn < s.endGfn := by
  rw [IsMapped, Option.isSome_iff_exists]
  exact exists_congr fun s => memslotFind_eq_some_iff ordered

section Holes

variable {n : Notice}

theorem addedNotices_startGfn_ge (ordered : SlotsOrdered list)
    (inside : ∀ s ∈ list, start ≤ s.endGfn)
    (h : n ∈ addedNotices dest uva flags start list) : start ≤ n.startGfn := by
  induction list generalizing start with
  | nil =>
    rw [(mem_gapNotices.1 h).2]
    exact le_rfl
  | cons s rest ih =>
    obtain ⟨-, before, rest_ordered⟩ := ordered_cons.1 ordered
    rcases List.mem_append.1 h with h | h
    · rw [(mem_gapNotices.1 h).2]
      exact le_rfl
    · refine (inside s (by simp)).trans (ih rest_ordered (fun t ht => ?_) h)
      exact (before t ht).trans (Nat.le_add_right _ _)

/-- The holes and the slots make up the range. -/
theorem addedNotices_covers (ordered : SlotsOrdered list)
    (inside : ∀ s ∈ list, start ≤ s.endGfn ∧ s.baseGfn < dest.endGfn) :
    (∃ n ∈ addedNotices dest uva flags start list, n.Covers gfn) ↔
      (start ≤ gfn ∧ gfn < dest.endGfn) ∧ ¬ ∃ s ∈ list, s.baseGfn ≤ gfn ∧ gfn < s.endGfn := by
  induction list generalizing start with
  | nil => simp [addedNotices, gapNotices_covers]
  | cons s rest ih =>
    obtain ⟨nonempty, before, rest_ordered⟩ := ordered_cons.1 ordered
    obtain ⟨hstart, hinside⟩ := inside s (by simp)
    have ih' := @ih s.endGfn rest_ordered fun t ht =>
      ⟨(before t ht).trans (Nat.le_add_right _ _), (inside t (by simp [ht])).2⟩
    have behind (t : Memslot) (ht : t ∈ rest) (hin : t.baseGfn ≤ gfn) : s.endGfn ≤ gfn :=
      (before t ht).trans hin
    rw [addedNotices]
    simp only [List.mem_append, or_and_right, exists_or, gapNotices_covers, ih', List.mem_cons,
      exists_eq_left]
    constructor
    · rintro (hgfn | ⟨hgfn, free⟩)
      · refine ⟨by omega, ?_⟩
        rintro (hin | ⟨t, ht, hin⟩)
        · omega
        · have := behind t ht hin.1
          omega
      · refine ⟨by omega, ?_⟩
        rintro (hin | hin)
        · omega
        · exact free hin
    · rintro ⟨hgfn, free⟩
      rw [not_or] at free
      by_cases hlt : gfn < s.baseGfn
      · exact .inl ⟨hgfn.1, hlt⟩
      · exact .inr ⟨by omega, free.2⟩

theorem addedNotices_pairwise (ordered : SlotsOrdered list)
    (inside : ∀ s ∈ list, start ≤ s.endGfn) :
    (addedNotices dest uva flags start list).Pairwise
      fun a b => ∀ gfn, ¬ (a.Covers gfn ∧ b.Covers gfn) := by
  induction list generalizing start with
  | nil => exact gapNotices_pairwise _
  | cons s rest ih =>
    obtain ⟨nonempty, before, rest_ordered⟩ := ordered_cons.1 ordered
    have rest_inside (t : Memslot) (ht : t ∈ rest) : s.endGfn ≤ t.endGfn :=
      (before t ht).trans (Nat.le_add_right _ _)
    refine List.pairwise_append.2
      ⟨gapNotices_pairwise _, ih rest_ordered rest_inside, fun a ha b hb gfn hboth => ?_⟩
    have hb' := addedNotices_startGfn_ge rest_ordered rest_inside hb
    have ha' := gapNotices_covers.1 ⟨a, ha, hboth.1⟩
    have hb'' := hboth.2.1
    omega

/-- The notice has the address that its range is mapped to. -/
def Notice.AddedAt (startGfn uva : ℕ) : Notice → Prop
  | .added start _ u _ => u = (uva + (start - startGfn) * 4096) % word
  | _ => True

/-- Behind the start of the range, a hole in front of a slot is reported with a
wrong address. -/
theorem addedNotices_addedAt_iff (ordered : SlotsOrdered list)
    (inside : ∀ s ∈ list, start ≤ s.endGfn) (later : dest.baseGfn < start)
    (small : ∀ s ∈ list, s.endGfn ≤ 2 ^ 31) :
    (∀ n ∈ addedNotices dest uva flags start list, n.AddedAt dest.baseGfn uva) ↔
      ∀ gfn, start ≤ gfn → (∃ s ∈ list, gfn < s.baseGfn) →
        ∃ s ∈ list, s.baseGfn ≤ gfn ∧ gfn < s.endGfn := by
  induction list generalizing start with
  | nil => simp +contextual [addedNotices, mem_gapNotices, Notice.AddedAt, pageSize4K, Nat.mul_comm]
  | cons s rest ih =>
    obtain ⟨nonempty, before, rest_ordered⟩ := ordered_cons.1 ordered
    have hs := inside s (by simp)
    have hbound := small s (by simp)
    have ih' := ih rest_ordered (fun t ht => (before t ht).trans (Nat.le_add_right _ _))
      (later.trans_le hs) fun t ht => small t (by simp [ht])
    rw [addedNotices]
    simp only [List.forall_mem_append, ih']
    by_cases hole : start < s.baseGfn
    · refine iff_of_false ?_ ?_
      · rintro ⟨right, -⟩
        have hright := right _ (mem_gapNotices.2 ⟨hole, rfl⟩)
        simp only [Notice.AddedAt, word] at hright
        omega
      · intro free
        obtain ⟨t, ht, hin⟩ := free start le_rfl ⟨s, by simp, hole⟩
        rcases List.mem_cons.1 ht with rfl | ht
        · omega
        · have := before t ht
          omega
    · rw [gapNotices, if_neg hole]
      simp only [List.not_mem_nil, false_implies, implies_true, true_and, List.mem_cons,
        exists_eq_or_imp]
      constructor
      · intro free gfn hgfn hbelow
        by_cases hlt : gfn < s.endGfn
        · exact .inl ⟨by omega, hlt⟩
        · refine .inr (free gfn (by omega) (hbelow.resolve_left ?_))
          omega
      · intro free gfn hgfn hbelow
        refine (free gfn (hs.trans hgfn) (.inr hbelow)).resolve_left ?_
        omega

end Holes

/-- No unmapped frame of the range lies between two mapped ones. -/
def Gapless (list : List Memslot) (startGfn npages : ℕ) : Prop :=
  ∀ f g h, startGfn ≤ f → f < g → g < h → h < startGfn + npages → IsMapped list f →
    IsMapped list h → IsMapped list g

/-- The addresses of all new ranges are right exactly if there is no hole between two
old slots. -/
theorem addedNotices_addedAt_iff_gapless (ordered : SlotsOrdered list) (uva_lt : uva < word)
    (range : dest.baseGfn < dest.endGfn) (small : ∀ s ∈ list, s.endGfn ≤ 2 ^ 31) :
    (∀ n ∈ addedNotices dest uva flags dest.baseGfn (list.filter dest.overlaps),
        n.AddedAt dest.baseGfn uva) ↔ Gapless list dest.baseGfn dest.npages := by
  have hend : dest.baseGfn + dest.npages = dest.endGfn := rfl
  have overlapping (s : Memslot) :
      s ∈ list.filter dest.overlaps ↔ s ∈ list ∧ dest.baseGfn < s.endGfn ∧
        s.baseGfn < dest.endGfn := by
    rw [List.mem_filter, Memslot.overlaps_iff]
  have ordered' : SlotsOrdered (list.filter dest.overlaps) := ordered.sublist List.filter_sublist
  generalize list.filter dest.overlaps = old at overlapping ordered'
  cases old with
  | nil =>
    refine iff_of_true ?_ fun f g h hf hfg hgh hh mapped => ?_
    · simp [addedNotices, gapNotices, range, Notice.AddedAt, Nat.mod_eq_of_lt uva_lt]
    · obtain ⟨s, hs, hin⟩ := (isMapped_iff ordered).1 mapped
      exact absurd ((overlapping s).2 ⟨hs, by omega, by omega⟩) (by simp)
  | cons s rest =>
    obtain ⟨nonempty, before, rest_ordered⟩ := ordered_cons.1 ordered'
    obtain ⟨hs, hlow, hhigh⟩ := (overlapping s).1 (by simp)
    have hrest (t : Memslot) (ht : t ∈ rest) : t ∈ list ∧ t.baseGfn < dest.endGfn :=
      ⟨((overlapping t).1 (by simp [ht])).1, ((overlapping t).1 (by simp [ht])).2.2⟩
    -- the first hole starts where the range does
    have hole : ∀ n ∈ gapNotices dest.baseGfn s.baseGfn uva flags, n.AddedAt dest.baseGfn uva := by
      simp +contextual [mem_gapNotices, Notice.AddedAt, Nat.mod_eq_of_lt uva_lt]
    rw [addedNotices, List.forall_mem_append, addedNotices_addedAt_iff rest_ordered
      (fun t ht => (before t ht).trans (Nat.le_add_right _ _)) hlow
      fun t ht => small t (hrest t ht).1]
    constructor
    · rintro ⟨-, free⟩ f g h hf hfg hgh hh hmf hmh
      by_contra unmapped
      rw [isMapped_iff ordered] at hmf hmh unmapped
      obtain ⟨a, ha, hina⟩ := hmf
      obtain ⟨b, hb, hinb⟩ := hmh
      have ha' := (overlapping a).2 ⟨ha, by omega, by omega⟩
      have hb' := (overlapping b).2 ⟨hb, by omega, by omega⟩
      -- `g` lies behind the first slot and in front of `b`
      have hag : a.endGfn ≤ g := by
        by_contra hlt
        exact unmapped ⟨a, ha, by omega, by omega⟩
      have hgb : g < b.baseGfn := by
        by_contra hge
        exact unmapped ⟨b, hb, by omega, by omega⟩
      have hsg : s.endGfn ≤ g := by
        rcases List.mem_cons.1 ha' with rfl | ha'
        · exact hag
        · have := before a ha'
          omega
      have hbrest : b ∈ rest := by
        rcases List.mem_cons.1 hb' with rfl | hb'
        · omega
        · exact hb'
      obtain ⟨t, ht, hin⟩ := free g hsg ⟨b, hbrest, hgb⟩
      exact unmapped ⟨t, (hrest t ht).1, hin⟩
    · intro gapless
      refine ⟨hole, fun g hsg hbelow => ?_⟩
      obtain ⟨t, ht, hgt⟩ := hbelow
      have ht' := hrest t ht
      have htt := rest_ordered.2 t ht
      have mapped := gapless (max s.baseGfn dest.baseGfn) g t.baseGfn (by omega) (by omega) hgt
        (by omega) ((isMapped_iff ordered).2 ⟨s, hs, by omega, by omega⟩)
        ((isMapped_iff ordered).2 ⟨t, ht'.1, le_rfl, htt⟩)
      obtain ⟨u, hu, hin⟩ := (isMapped_iff ordered).1 mapped
      rcases List.mem_cons.1 ((overlapping u).2 ⟨hu, by omega, by omega⟩) with rfl | hu'
      · omega
      · exact ⟨u, hu', hin⟩

/-- The reported additions are what a request maps that was not mapped before, with
the right addresses. -/
structure AddsExact (sp sp' : GpaSpace σ) (startGfn npages uva flags : ℕ) (told : List Notice) :
    Prop where
  disjoint : (told.filter Notice.isAdded).Pairwise fun a b => ∀ gfn, ¬ (a.Covers gfn ∧ b.Covers gfn)
  exact : ∀ gfn, (∃ n ∈ told, n.isAdded = true ∧ n.Covers gfn) ↔
    (startGfn ≤ gfn ∧ gfn < startGfn + npages) ∧ ¬ IsMapped sp.memslotList gfn ∧
      IsMapped sp'.memslotList gfn
  address : ∀ start n u f, Notice.added start n u f ∈ told →
    u = (uva + (start - startGfn) * 4096) % word
  unmap : memslotIsValid flags = false → ∀ n ∈ told, n.isAdded = false

/-- The request maps a range without holes between old slots, or unmaps a range
for which a slot is copied. -/
def ReportsAdds (sp : GpaSpace σ) (startGfn npages uva flags : ℕ) : Prop :=
  if memslotIsValid flags then Gapless sp.memslotList startGfn npages
  else sp.memslotList = [] ∨
    CopiesSome (requestSlot sp startGfn npages uva flags) sp.memslotList

/-- The frames of the range are mapped after a request that succeeds, or unmapped. -/
theorem memslotSetMapping_isMapped (ok : SpaceOk sp) (bound : startGfn + npages < 2 ^ 31)
    (uva_lt : uva < word) (h : memslotSetMapping sp startGfn npages uva flags = (0, sp'))
    (inside : startGfn ≤ gfn ∧ gfn < startGfn + npages) :
    IsMapped sp'.memslotList gfn ↔ memslotIsValid flags = true := by
  cases memslotSetMapping_step h with
  | refused _ _ failed => exact absurd rfl failed
  | carried carried =>
    have updated := carried.updated ok bound uva_lt rfl
    have look : slotPieces.look sp'.memslotList gfn = _ := updated.look_eq ok.ordered
    rw [if_pos inside, Pieces.look, ← memslotFind_eq_search] at look
    have hsome := congrArg Option.isSome look
    rw [Option.isSome_map] at hsome
    rw [IsMapped, hsome]
    cases memslotIsValid flags <;> simp [mapping]

theorem SpaceOk.endGfn_le (ok : SpaceOk sp) (hs : s ∈ sp.memslotList) : s.endGfn ≤ 2 ^ 31 := by
  have nonempty := ok.ordered.2 s hs
  have hlast : s.baseGfn ≤ s.endGfn - 1 ∧ s.endGfn - 1 < s.endGfn := by omega
  have placed := ok.placed (s.endGfn - 1) _ ⟨s, hs, hlast, rfl⟩
  omega

/-- The notices about new mappings of a request that succeeds. -/
theorem requestNotices_added (ok : SpaceOk sp) (range : 0 < npages) (uva_lt : uva < word)
    (hdest : dest = requestSlot sp startGfn npages uva flags)
    (copies : SnapshotOf dest sp.memslotList snapshot) :
    (requestNotices sp startGfn npages uva flags snapshot).filter Notice.isAdded =
      if memslotIsValid flags then
        addedNotices dest uva flags startGfn (sp.memslotList.filter dest.overlaps)
      else if sp.memslotList ≠ [] ∧ snapshot = [] then [.added startGfn npages uva (flags % 256)]
      else [] := by
  subst hdest
  rw [requestNotices]
  by_cases tells : sp.memslotList ≠ [] ∨ memslotIsValid flags = true
  · rw [if_pos tells]
    refine (broadcastNotices_added range ok.ordered copies uva_lt).trans ?_
    cases valid : memslotIsValid flags with
    | true => rfl
    | false =>
      have nonempty : sp.memslotList ≠ [] := tells.resolve_right (by simp [valid])
      simp [nonempty]
      rfl
  · rw [if_neg tells]
    rw [not_or, not_not] at tells
    simp [tells.1, tells.2]

theorem Notice.isAdded_eq_true {n : Notice} (h : n.isAdded = true) :
    ∃ start npages uva flags, n = .added start npages uva flags := by
  cases n with
  | added start npages uva flags => exact ⟨start, npages, uva, flags, rfl⟩
  | removed => cases h
  | changed => cases h

theorem forall_added_iff :
    (∀ start n u f, Notice.added start n u f ∈ told →
      u = (uva + (start - startGfn) * 4096) % word) ↔
      ∀ n ∈ told.filter Notice.isAdded, n.AddedAt startGfn uva := by
  constructor
  · intro h n hn
    obtain ⟨hn, added⟩ := List.mem_filter.1 hn
    obtain ⟨start, npages, u, f, rfl⟩ := Notice.isAdded_eq_true added
    exact h start npages u f hn
  · intro h start npages u f hn
    exact h _ (List.mem_filter.2 ⟨hn, rfl⟩)

/-- For a request that maps its range, all depends on the addresses. -/
theorem addsExact_iff_gapless (ok : SpaceOk sp) (uva_lt : uva < word)
    (hstart : dest.baseGfn = startGfn) (hnpages : dest.npages = npages) (range : 0 < npages)
    (valid : memslotIsValid flags = true)
    (mapped : ∀ gfn, startGfn ≤ gfn ∧ gfn < startGfn + npages → IsMapped sp'.memslotList gfn)
    (h : told.filter Notice.isAdded = addedNotices dest uva flags startGfn
      (sp.memslotList.filter dest.overlaps)) :
    AddsExact sp sp' startGfn npages uva flags told ↔ Gapless sp.memslotList startGfn npages := by
  have hend : dest.endGfn = startGfn + npages := by rw [Memslot.endGfn, hstart, hnpages]
  have ordered : SlotsOrdered (sp.memslotList.filter dest.overlaps) :=
    ok.ordered.sublist List.filter_sublist
  have inside (s : Memslot) (hs : s ∈ sp.memslotList.filter dest.overlaps) :
      startGfn ≤ s.endGfn ∧ s.baseGfn < dest.endGfn := by
    have := Memslot.overlaps_iff.1 (List.mem_filter.1 hs).2
    omega
  have right : (∀ n ∈ told.filter Notice.isAdded, n.AddedAt startGfn uva) ↔
      Gapless sp.memslotList startGfn npages := by
    rw [h, ← hstart, ← hnpages]
    exact addedNotices_addedAt_iff_gapless ok.ordered uva_lt (by omega) fun s hs => ok.endGfn_le hs
  rw [← right, ← forall_added_iff]
  constructor
  · exact AddsExact.address
  · intro address
    refine ⟨?_, fun gfn => ?_, address, by simp [valid]⟩
    · rw [h]
      exact addedNotices_pairwise ordered fun s hs => (inside s hs).1
    · have covers := @addedNotices_covers dest _ startGfn uva flags gfn ordered inside
      rw [← h] at covers
      simp only [List.mem_filter, and_assoc] at covers
      rw [covers, isMapped_iff ok.ordered, hend]
      constructor
      · rintro ⟨hlow, hhigh, free⟩
        refine ⟨⟨hlow, hhigh⟩, ?_, mapped gfn ⟨hlow, hhigh⟩⟩
        rintro ⟨s, hs, hin⟩
        exact free ⟨s, hs, Memslot.overlaps_iff.2 ⟨by omega, by omega⟩, hin⟩
      · rintro ⟨hgfn, free, -⟩
        refine ⟨hgfn.1, hgfn.2, ?_⟩
        rintro ⟨s, hs, -, hin⟩
        exact free ⟨s, hs, hin⟩

/-- An unmap should not report any additions. -/
theorem addsExact_iff_nil (invalid : memslotIsValid flags = false)
    (unmapped : ∀ gfn, startGfn ≤ gfn ∧ gfn < startGfn + npages → ¬ IsMapped sp'.memslotList gfn) :
    AddsExact sp sp' startGfn npages uva flags told ↔ told.filter Notice.isAdded = [] := by
  have none_iff : told.filter Notice.isAdded = [] ↔ ∀ n ∈ told, n.isAdded = false := by
    simp [List.filter_eq_nil_iff]
  rw [none_iff]
  constructor
  · intro exact_adds
    exact exact_adds.unmap invalid
  · intro quiet
    have hnil := none_iff.2 quiet
    refine ⟨by simp [hnil], fun gfn => ?_, ?_, fun _ => quiet⟩
    · constructor
      · rintro ⟨n, hn, added, -⟩
        rw [quiet n hn] at added
        cases added
      · rintro ⟨hgfn, -, hmapped⟩
        exact absurd hmapped (unmapped gfn hgfn)
    · rw [forall_added_iff, hnil]
      simp

/-- In every state reached by requests that succeeded or failed early, a request
that succeeds reports its additions exactly under the condition. -/
theorem notices_addsExact_iff {listeners : List (Listener σ)} {env : σ}
    (keeps : ListenersKeep listeners)
    (reached : Reached (GpaSpace.init none listeners env) AtomicAllowed atomicStep sp)
    (bound : startGfn + npages < 2 ^ 31) (uva_lt : uva < word)
    (succeeds : memslotSetMapping sp startGfn npages uva flags = (0, sp')) :
    AddsExact sp sp' startGfn npages uva flags (notices sp startGfn npages uva flags) ↔
      ReportsAdds sp startGfn npages uva flags := by
  have ok : SpaceOk sp :=
    reached.invariant (GpaSpace.init_ok keeps none env) fun _ _ => atomicStep_ok
  obtain ⟨range, small, snapshot, copies, copiesSome, hnotices⟩ :=
    notices_eq ok bound uva_lt (by rw [succeeds])
  have mapped (gfn : ℕ) (inside : startGfn ≤ gfn ∧ gfn < startGfn + npages) :=
    memslotSetMapping_isMapped ok bound uva_lt succeeds inside
  have hadded := requestNotices_added ok range uva_lt rfl copies
  rw [← hnotices] at hadded
  rw [ReportsAdds]
  cases valid : memslotIsValid flags with
  | true =>
    rw [valid, if_pos rfl] at hadded
    exact addsExact_iff_gapless ok uva_lt rfl rfl range valid
      (fun gfn inside => (mapped gfn inside).2 valid) hadded
  | false =>
    rw [valid, if_neg (by simp)] at hadded
    have unmapped (gfn : ℕ) (inside : startGfn ≤ gfn ∧ gfn < startGfn + npages) :
        ¬ IsMapped sp'.memslotList gfn := by
      rw [mapped gfn inside, valid]
      exact Bool.false_ne_true
    rw [addsExact_iff_nil valid unmapped, hadded, ← copiesSome]
    by_cases hempty : sp.memslotList = []
    · simp [hempty]
    · by_cases hcopies : snapshot = [] <;> simp [hempty, hcopies]

/-- The same slots as before, by steps in which an allocation may fail. -/
def memslotsWithGap : GpaSpace Unit :=
  atomicStep (atomicStep (atomicStep (GpaSpace.init none [] ()) (none, .addRamblock 0x10000 0x4000))
    (none, .setMapping 0 1 0x10000 0)) (none, .setMapping 2 1 0x12000 0)

theorem memslotsWithGap_reached :
    Reached (GpaSpace.init none [] ()) AtomicAllowed atomicStep memslotsWithGap := by
  refine .step (.step (.step .init ?_) ?_) ?_
  · exact ⟨by decide, by decide, by decide⟩
  · exact ⟨by decide, by decide, .inl (by decide)⟩
  · exact ⟨by decide, by decide, .inl (by decide)⟩

/-- Unmapping a slot reports no additions. -/
theorem memslotsWithGap_addsExact :
    notices memslotsWithGap 0 1 0 haxMemslotInvalid = [.removed 0 1 0x10000 0] ∧
      AddsExact memslotsWithGap (memslotSetMapping memslotsWithGap 0 1 0 haxMemslotInvalid).2 0 1 0
        haxMemslotInvalid (notices memslotsWithGap 0 1 0 haxMemslotInvalid) := by
  have succeeds : memslotSetMapping memslotsWithGap 0 1 0 haxMemslotInvalid = (0, _) :=
    Prod.ext (by decide) rfl
  refine ⟨by decide, (notices_addsExact_iff (by simp [ListenersKeep]) memslotsWithGap_reached
    (by decide) (by decide) succeeds).2 (.inr (.inl ?_))⟩
  exact ⟨⟨0, 1, some 0, 0, 0⟩, by decide, by decide⟩

/-- The page between the slots is reported with the address of the first page when
all three are mapped, and a page that was never mapped is reported as added when
it is unmapped. -/
theorem memslotsWithGap_adds_wrong :
    Reached (GpaSpace.init none [] ()) AtomicAllowed atomicStep memslotsWithGap ∧
      (memslotSetMapping memslotsWithGap 0 3 0x11000 0).1 = 0 ∧
      Notice.added 1 1 0x11000 0 ∈ notices memslotsWithGap 0 3 0x11000 0 ∧
      ¬ AddsExact memslotsWithGap (memslotSetMapping memslotsWithGap 0 3 0x11000 0).2 0 3 0x11000 0
        (notices memslotsWithGap 0 3 0x11000 0) ∧
      (memslotSetMapping memslotsWithGap 5 1 0 haxMemslotInvalid).1 = 0 ∧
      notices memslotsWithGap 5 1 0 haxMemslotInvalid = [.added 5 1 0 haxMemslotInvalid] ∧
      ¬ AddsExact memslotsWithGap (memslotSetMapping memslotsWithGap 5 1 0 haxMemslotInvalid).2 5 1
        0 haxMemslotInvalid (notices memslotsWithGap 5 1 0 haxMemslotInvalid) := by
  have hole : Notice.added 1 1 0x11000 0 ∈ notices memslotsWithGap 0 3 0x11000 0 := by decide
  have unmapped : notices memslotsWithGap 5 1 0 haxMemslotInvalid =
      [.added 5 1 0 haxMemslotInvalid] := by decide
  refine ⟨memslotsWithGap_reached, by decide, hole, fun adds => ?_, by decide, unmapped,
    fun adds => ?_⟩
  · have address := adds.address 1 1 0x11000 0 hole
    revert address
    decide
  · have quiet := adds.unmap (by decide) (.added 5 1 0 haxMemslotInvalid) (by rw [unmapped]; simp)
    cases quiet

end Haxm
