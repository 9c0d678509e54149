/-
# The pass over the slots

The two loops of `memslot_set_mapping` put together: from the list before the
pass, to the list after it. The induction is on what is left of the list; what
has been passed is a frame that the rest of the pass does not touch.
-/

import Haxm.Memory.MemslotUpdate

namespace Haxm

open Lib

variable {dest src s e content : Memslot} {list list' rest after : List Memslot} {w w' : Walk}
  {isValid : Bool}

/-- Where a valid request maps its range in the end. -/
def memslotEffective (dest : Memslot) (list : List Memslot) : Memslot :=
  match list.find? fun s => dest.baseGfn ≤ s.endGfn with
  | none => dest
  | some s => if list.any (memslotContinues dest) then dest else memslotContent dest s

/-! ## One round of each loop -/

theorem enqueue_cases (w : Walk) (overlaps : Bool) (s : Memslot) :
    ∃ m, (overlaps = true ∧ memslotDup w.mem s = (none, m) ∧
        w.enqueue overlaps s = (-ENOMEM, { w with mem := m })) ∨
      CopyOf overlaps w.mem s m ∧ w.enqueue overlaps s =
        (0, { w with mem := m, snapshot := w.snapshot ++ pendingSlot overlaps s }) := by
  unfold Walk.enqueue
  cases overlaps with
  | true =>
    obtain ⟨m, dup | dup⟩ := memslotDup_cases w.mem s <;> refine ⟨m, ?_⟩ <;> rw [dup]
    · exact .inl ⟨rfl, rfl, rfl⟩
    · exact .inr ⟨dup, rfl⟩
  | false => exact ⟨w.mem, .inr ⟨rfl, by simp⟩⟩

section Rounds

variable (isValid : Bool) (dest : Memslot) (w : Walk) (s : Memslot) (rest : List Memslot)

/-- The walk once `s` was copied, with memory `m`. -/
abbrev Walk.copied (overlaps : Bool) (m : Mem) : Walk :=
  { w with mem := m, snapshot := w.snapshot ++ pendingSlot overlaps s }

/-- What a round of the loop can do once the first slot was found: leave in front
of `s`, fail to copy `s`, delete `s`, or deal with `s` as the last slot. -/
inductive FoundRound : ℤ × Walk × List Memslot → Prop
  | beyond (apart : dest.endGfn < s.baseGfn) : FoundRound (0, w, s :: rest)
  | uncopied {m : Mem} (overlap : s.baseGfn < dest.endGfn) (dup : memslotDup w.mem s = (none, m)) :
      FoundRound (-ENOMEM, { w with mem := m }, s :: rest)
  | inner {m : Mem} {r : ℤ × Walk × List Memslot} (inner : memslotIsInner dest s rest = true)
      (copy : CopyOf (s.baseGfn < dest.endGfn) w.mem s m)
      (loop : memslotLoopFound isValid dest ((w.copied s (s.baseGfn < dest.endGfn) m).drop s) rest =
        r) : FoundRound r
  | refused {m m' : Mem} (outer : memslotIsInner dest s rest = false)
      (copy : CopyOf (s.baseGfn < dest.endGfn) w.mem s m) (waits : w.toInsert = true)
      (ends : dest.endGfn < s.endGfn) (dup : memslotDup m dest = (none, m')) :
      FoundRound (-ENOMEM, w.copied s (s.baseGfn < dest.endGfn) m', memslotTail dest s ++ rest)
  | last {m : Mem} {w' : Walk} {after : List Memslot} (reaches : s.baseGfn ≤ dest.endGfn)
      (outer : memslotIsInner dest s rest = false)
      (copy : CopyOf (s.baseGfn < dest.endGfn) w.mem s m)
      (step : EndStep isValid (w.copied s (s.baseGfn < dest.endGfn) m) dest s (0, w', after)) :
      FoundRound (0, { w' with processing := false, toInsert := false }, after ++ rest)

variable {isValid dest w s rest} in
theorem memslotLoopFound_round {r : ℤ × Walk × List Memslot}
    (h : memslotLoopFound isValid dest w (s :: rest) = r) : FoundRound isValid dest w s rest r := by
  rw [memslotLoopFound] at h
  by_cases apart : dest.endGfn < s.baseGfn
  · rw [if_pos apart] at h
    subst h
    exact .beyond apart
  rw [if_neg apart] at h
  obtain ⟨m, ⟨overlap, dup, run⟩ | ⟨copy, run⟩⟩ := enqueue_cases w (s.baseGfn < dest.endGfn) s
  · rw [run] at h
    subst h
    exact .uncopied (by simpa using overlap) dup
  simp only [run, ne_eq, not_true_eq_false, if_false] at h
  by_cases inner : memslotIsInner dest s rest = true
  · rw [if_pos inner] at h
    exact .inner inner copy h
  rw [if_neg inner] at h
  have outer : memslotIsInner dest s rest = false := by simpa using inner
  rcases run : memslotProcessEnd isValid (w.copied s (s.baseGfn < dest.endGfn) m) dest s with
    ⟨ret, w', after⟩
  rw [run] at h
  subst h
  by_cases ok : ret = 0
  · subst ok
    exact .last (not_lt.1 apart) outer copy (memslotProcessEnd_step (not_lt.1 apart) run)
  · dsimp only
    rw [if_pos ok]
    cases memslotProcessEnd_step (not_lt.1 apart) run with
    | refused waits ends dup => exact .refused outer copy waits ends dup
    | _ => exact absurd rfl ok

/-- What a round of the loop can do before that: pass `s`, add a slot behind
the last one, fail to copy `s`, or deal with `s` as the first slot of the
range. -/
inductive LoopRound : ℤ × Walk × List Memslot → Prop
  | pass {r : ℤ × Walk × List Memslot} (before : s.endGfn < dest.baseGfn) (more : rest ≠ [])
      (loop : memslotLoop isValid dest { w with passed := s :: w.passed } rest = r) : LoopRound r
  | refused {m : Mem} (before : s.endGfn < dest.baseGfn) (alone : rest = [])
      (dup : memslotDup w.mem dest = (none, m)) : LoopRound (-ENOMEM, { w with mem := m }, [s])
  | append {m : Mem} (before : s.endGfn < dest.baseGfn) (alone : rest = [])
      (dup : CopyOf isValid w.mem dest m) :
      LoopRound (0, { w with mem := m }, s :: pendingSlot isValid dest)
  | uncopied {m : Mem} (overlap : dest.baseGfn < s.endGfn) (dup : memslotDup w.mem s = (none, m)) :
      LoopRound (-ENOMEM, { w with mem := m }, s :: rest)
  | enter {m : Mem} {w' : Walk} {after : List Memslot} {r : ℤ × Walk × List Memslot}
      (found : dest.baseGfn ≤ s.endGfn) (copy : CopyOf (dest.baseGfn < s.endGfn) w.mem s m)
      (reaches : s.endGfn ≤ dest.endGfn)
      (step : StartStep isValid { w.copied s (dest.baseGfn < s.endGfn) m with processing := true }
        dest s (0, w', after))
      (loop : memslotLoopFound isValid dest { w' with passed := after.reverse ++ w'.passed } rest =
        r) : LoopRound r
  | stop {m : Mem} {w' : Walk} {after : List Memslot} (found : dest.baseGfn ≤ s.endGfn)
      (copy : CopyOf (dest.baseGfn < s.endGfn) w.mem s m) (ends : dest.endGfn < s.endGfn)
      (step : StartStep isValid (w.copied s (dest.baseGfn < s.endGfn) m) dest s (0, w', after)) :
      LoopRound (0, w', after ++ rest)
  | failed {m : Mem} {ret : ℤ} {w' : Walk} {after : List Memslot} (found : dest.baseGfn ≤ s.endGfn)
      (copy : CopyOf (dest.baseGfn < s.endGfn) w.mem s m)
      (step : StartStep isValid { w.copied s (dest.baseGfn < s.endGfn) m with
        processing := s.endGfn ≤ dest.endGfn } dest s (ret, w', after)) (failed : ret ≠ 0) :
      LoopRound (ret, w', after ++ rest)

variable {isValid dest w s rest} in
theorem memslotLoop_round {r : ℤ × Walk × List Memslot} (idle : w.processing = false)
    (h : memslotLoop isValid dest w (s :: rest) = r) : LoopRound isValid dest w s rest r := by
  rw [memslotLoop.eq_def] at h
  change (if s.endGfn < dest.baseGfn then _ else _) = r at h
  by_cases before : s.endGfn < dest.baseGfn
  · rw [if_pos before] at h
    cases rest with
    | cons next rest => exact .pass before (by simp) h
    | nil =>
      cases isValid with
      | true =>
        obtain ⟨m, dup | dup⟩ := memslotDup_cases w.mem dest <;> simp only [dup] at h <;> subst h
        · exact .refused before rfl dup
        · exact .append before rfl dup
      | false =>
        subst h
        exact .append before rfl rfl
  have found := not_lt.1 before
  rw [if_neg before] at h
  obtain ⟨m, ⟨overlap, dup, run⟩ | ⟨copy, run⟩⟩ := enqueue_cases w (dest.baseGfn < s.endGfn) s
  · rw [run] at h
    subst h
    exact .uncopied (by simpa using overlap) dup
  have marked : (if s.endGfn ≤ dest.endGfn
      then { w.copied s (dest.baseGfn < s.endGfn) m with processing := true }
      else w.copied s (dest.baseGfn < s.endGfn) m) =
      { w.copied s (dest.baseGfn < s.endGfn) m with processing := s.endGfn ≤ dest.endGfn } := by
    split_ifs with reaches <;> simp [reaches, idle]
  rcases start : memslotProcessStart isValid { w.copied s (dest.baseGfn < s.endGfn) m with
    processing := s.endGfn ≤ dest.endGfn } dest s with ⟨ret, w', after⟩
  have step := memslotProcessStart_step found start
  have kept : w'.processing = true ↔ s.endGfn ≤ dest.endGfn :=
    (congrArg (· = true) step.keeps.2.1).to_iff.trans decide_eq_true_iff
  simp only [run, ne_eq, not_true_eq_false, if_false, marked, start, ite_not] at h
  split_ifs at h with ok entered
  · subst ok
    have reaches := kept.1 entered
    rw [decide_eq_true reaches] at step
    exact .enter found copy reaches step h
  · subst h ok
    have reaches := kept.not.1 entered
    have same :
        { w.copied s (dest.baseGfn < s.endGfn) m with processing := s.endGfn ≤ dest.endGfn } =
        w.copied s (dest.baseGfn < s.endGfn) m := by simp [reaches, idle]
    rw [same] at step
    exact .stop found copy (not_le.1 reaches) step
  · subst h
    exact .failed found copy step ok

end Rounds

/-- What a pass comes down to: the loop, and then the slot that is still to be inserted. The
first slot of all is inserted in the same way. -/
theorem memslotPass_cases {m m' : Mem} {ret : ℤ} {snapshot : List Memslot}
    (h : memslotPass m isValid dest list = (ret, m', list', snapshot)) :
    ∃ ret₁ w after,
      memslotLoop isValid dest ⟨m, [], [], false, isValid && list.isEmpty⟩ list = (ret₁, w, after) ∧
        w.snapshot = snapshot ∧
        (((ret₁ ≠ 0 ∨ w.toInsert = false) ∧ ret = ret₁ ∧ m' = w.mem ∧
            list' = w.passed.reverse ++ after) ∨
          ret₁ = 0 ∧ w.toInsert = true ∧
            ((ret ≠ 0 ∧ memslotDup w.mem dest = (none, m') ∧ list' = w.passed.reverse ++ after) ∨
              ret = 0 ∧ memslotDup w.mem dest = (some dest, m') ∧
                list' = w.passed.reverse ++ dest :: after)) := by
  rcases hloop : memslotLoop isValid dest ⟨m, [], [], false, isValid && list.isEmpty⟩ list with
    ⟨ret₁, w, after⟩
  refine ⟨ret₁, w, after, rfl, ?_⟩
  obtain ⟨m₁, dup⟩ := memslotDup_cases w.mem dest
  have pass : memslotPass m isValid dest list =
      if ret₁ ≠ 0 then (ret₁, w.mem, w.passed.reverse ++ after, w.snapshot)
      else if w.toInsert then
        (memslotDup w.mem dest).1.elim (-ENOMEM, m₁, w.passed.reverse ++ after, w.snapshot)
          fun slot => (0, m₁, w.passed.reverse ++ slot :: after, w.snapshot)
      else (0, w.mem, w.passed.reverse ++ after, w.snapshot) := by
    cases list with
    | nil => cases isValid <;> cases hloop <;> rcases dup with dup | dup <;> simp [memslotPass, dup]
    | cons s rest =>
      rw [List.isEmpty_cons, Bool.and_false] at hloop
      rcases dup with dup | dup <;> simp [memslotPass, hloop, dup]
  rw [pass] at h
  split_ifs at h with failed insert
  · cases h
    exact ⟨rfl, .inl ⟨.inl failed, rfl, rfl, rfl⟩⟩
  · rcases dup with dup | dup <;> rw [dup] at h <;> cases h
    · exact ⟨rfl, .inr ⟨not_not.1 failed, insert, .inl ⟨by decide, dup, rfl⟩⟩⟩
    · exact ⟨rfl, .inr ⟨not_not.1 failed, insert, .inr ⟨rfl, dup, rfl⟩⟩⟩
  · cases h
    exact ⟨rfl, .inl ⟨.inr (by simpa using insert), (not_not.1 failed).symm, rfl, rfl⟩⟩

theorem endGfn_le_of_inner (inner : memslotIsInner dest e rest = true) :
    e.endGfn ≤ dest.endGfn := by
  simp only [memslotIsInner, Bool.or_eq_true, Bool.and_eq_true, decide_eq_true_eq] at inner
  omega

theorem le_endGfn_of_outer (outer : memslotIsInner dest e rest = false) :
    dest.endGfn ≤ e.endGfn := by
  simp only [memslotIsInner, Bool.or_eq_false_iff, decide_eq_false_iff_not] at outer
  omega

/-! ## The mapping after the loops -/

/-- No slot from `rest` on is touched if the range ends before it. -/
theorem Started.leave_updated {toInsert : Bool} {inner : List Memslot}
    (started : Started isValid dest s content toInsert list) (range : dest.baseGfn < dest.endGfn)
    (ordered : SlotsOrdered (s :: (inner ++ rest)))
    (within : ∀ e ∈ inner, dest.baseGfn ≤ e.baseGfn ∧ e.endGfn ≤ dest.endGfn)
    (beyond : ∀ e ∈ rest, dest.endGfn < e.baseGfn) :
    slotPieces.Updated dest.baseGfn dest.endGfn
      (mapping isValid (if rest.any (memslotContinues dest) then dest else content))
      (s :: (inner ++ rest)) (list ++ pendingSlot toInsert dest ++ rest) := by
  have none_continues : rest.any (memslotContinues dest) = false := by
    rw [List.any_eq_false]
    intro e he
    simp [not_continues_of_lt (beyond e he)]
  have absorbed : slotPieces.Updated dest.baseGfn dest.endGfn (mapping isValid content)
      ([s] ++ inner ++ []) (list ++ pendingSlot toInsert dest) :=
    Pieces.Updated.absorb (by simpa using started.done_updated range) within
  have old_ordered : SlotsOrdered ([s] ++ inner ++ [] ++ rest) := by simpa using ordered
  have framed := absorbed.frame_right old_ordered fun e he => (beyond e he).le
  rw [none_continues, if_neg (by simp)]
  simpa using framed

/-- From the slot `s` where the range starts, through slots `inner` that lie
inside it, to where it ends. -/
theorem memslotLoopFound_updated {toInsert : Bool} {passed : List Memslot}
    (started : Started isValid dest s content toInsert list) (range : dest.baseGfn < dest.endGfn)
    (found : dest.baseGfn ≤ s.endGfn) (small_dest : dest.Small) (small : ∀ e ∈ rest, e.Small)
    (inner : List Memslot) (ordered : SlotsOrdered (s :: (inner ++ rest)))
    (inside : ∀ e ∈ inner, e.endGfn ≤ dest.endGfn)
    (hinsert : w.toInsert = toInsert) (hpassed : w.passed = list.reverse ++ passed)
    (h : memslotLoopFound isValid dest w rest = (0, w', after)) :
    ∃ front, w'.passed = front ++ passed ∧
      slotPieces.Updated dest.baseGfn dest.endGfn
        (mapping isValid (if rest.any (memslotContinues dest) then dest else content))
        (s :: (inner ++ rest)) (front.reverse ++ pendingSlot w'.toInsert dest ++ after) := by
  have within (e : Memslot) (he : e ∈ inner) :
      dest.baseGfn ≤ e.baseGfn ∧ e.endGfn ≤ dest.endGfn :=
    ⟨found.trans ((ordered_cons.1 ordered).2.1 e (by simp [he])), inside e he⟩
  induction rest generalizing w inner with
  | nil =>
    cases h
    refine ⟨list.reverse, hpassed, ?_⟩
    rw [List.reverse_reverse, hinsert]
    exact started.leave_updated range ordered within (by simp)
  | cons e rest ih =>
    obtain ⟨rest_ordered, sep⟩ : SlotsOrdered (e :: rest) ∧ ∀ a ∈ inner, a.endGfn ≤ e.baseGfn := by
      obtain ⟨-, ordered_rest, sep⟩ := ordered_append.1 (ordered_cons.1 ordered).2.2
      exact ⟨ordered_rest, fun a ha => sep a ha e (by simp)⟩
    have hs : s.endGfn ≤ e.baseGfn := (ordered_cons.1 ordered).2.1 e (by simp)
    obtain ⟨nonempty, behind, -⟩ := ordered_cons.1 rest_ordered
    cases memslotLoopFound_round h with
    | beyond apart =>
      refine ⟨list.reverse, hpassed, ?_⟩
      rw [List.reverse_reverse, hinsert]
      refine started.leave_updated range ordered within fun a ha => ?_
      rcases List.mem_cons.1 ha with rfl | ha
      · exact apart
      · have := behind a ha
        omega
    | inner isInner _ loop =>
      -- `e` lies inside the range and joins the slots that are gone
      have hlast := endGfn_le_of_inner isInner
      have within_e (a : Memslot) (ha : a ∈ inner ++ [e]) :
          dest.baseGfn ≤ a.baseGfn ∧ a.endGfn ≤ dest.endGfn := by
        rcases List.mem_append.1 ha with ha | ha
        · exact within a ha
        · obtain rfl := List.mem_singleton.1 ha
          exact ⟨by omega, hlast⟩
      have looped := ih (fun a ha => small a (by simp [ha])) (inner ++ [e])
        (by simpa using ordered) (fun a ha => (within_e a ha).2) (by simpa using hinsert)
        (by simpa using hpassed) loop within_e
      simpa [not_continues_of_le hlast] using looped
    | last reaches outer _ step =>
      have hlast := le_endGfn_of_outer outer
      have pair_ordered : SlotsOrdered [s, e] :=
        ordered.sublist (by simp)
      obtain ⟨front, hfront, updated⟩ := step.updated started hinsert hpassed pair_ordered range
        small_dest (small e (by simp)) (by omega) reaches hlast
      refine ⟨front, hfront, ?_⟩
      have absorbed : slotPieces.Updated _ _ _ ([s] ++ inner ++ [e]) _ :=
        Pieces.Updated.absorb (by simpa using updated) within
      have old_ordered : SlotsOrdered ([s] ++ inner ++ [e] ++ rest) := by simpa using ordered
      have framed := absorbed.frame_right old_ordered fun a ha => hlast.trans (behind a ha)
      simpa [any_continues_eq_false rest_ordered hlast outer] using framed

/-- A slot before the range plays no role. -/
theorem memslotEffective_cons_of_lt (before : src.endGfn < dest.baseGfn)
    (range : dest.baseGfn < dest.endGfn) :
    memslotEffective dest (src :: list) = memslotEffective dest list := by
  have hfind : ¬ dest.baseGfn ≤ src.endGfn := by omega
  have hends : memslotContinues dest src = false := not_continues_of_le (by omega)
  simp [memslotEffective, hfind, hends]

theorem memslotEffective_cons_of_le (found : dest.baseGfn ≤ src.endGfn) :
    memslotEffective dest (src :: list) =
      if (src :: list).any (memslotContinues dest) then dest else memslotContent dest src := by
  simp [memslotEffective, found]

/-- The whole pass, from the slots that have not been passed yet. -/
theorem memslotLoop_updated (range : dest.baseGfn < dest.endGfn) (small_dest : dest.Small)
    (small : ∀ s ∈ list, s.Small) (ordered : SlotsOrdered list)
    (hinsert : w.toInsert = (isValid && list.isEmpty)) (hprocessing : w.processing = false)
    (h : memslotLoop isValid dest w list = (0, w', after)) :
    ∃ front, w'.passed = front ++ w.passed ∧
      slotPieces.Updated dest.baseGfn dest.endGfn (mapping isValid (memslotEffective dest list))
        list (front.reverse ++ pendingSlot w'.toInsert dest ++ after) := by
  induction list generalizing w with
  | nil =>
    have erased : Erased dest [] ([] ++ []) := Pieces.updated_of_apart ordered_nil (by simp)
    cases h
    refine ⟨[], rfl, ?_⟩
    rw [hinsert, List.isEmpty_nil, Bool.and_true]
    simpa [memslotEffective] using erased.put range (by simp) (by simp)
  | cons src rest ih =>
    rw [List.isEmpty_cons, Bool.and_false] at hinsert
    obtain ⟨hsrc, behind, rest_ordered⟩ := ordered_cons.1 ordered
    have small_src := small src (by simp)
    cases memslotLoop_round hprocessing h with
    | pass before more loop =>
      obtain ⟨front, hfront, updated⟩ := ih (fun s hs => small s (by simp [hs])) rest_ordered
        (by simpa [List.isEmpty_eq_false_iff.2 more] using hinsert) (by exact hprocessing) loop
      refine ⟨front ++ [src], by simpa using hfront, ?_⟩
      rw [memslotEffective_cons_of_lt before range]
      have old_ordered : SlotsOrdered ([src] ++ rest) := ordered
      have framed := updated.frame_left old_ordered (by simpa using before.le)
      simpa using framed
    | append before alone =>
      subst alone
      refine ⟨[], rfl, ?_⟩
      have erased : Erased dest [src] ([src] ++ []) := erased_apart hsrc (.inl before.le)
      rw [memslotEffective_cons_of_lt before range]
      simpa [hinsert, memslotEffective] using erased.put range (by simpa using before.le) (by simp)
    | enter found _ reaches step loop =>
      -- the range reaches the end of `src`, and the second loop takes over
      obtain ⟨started, hpassed⟩ := step.started hsrc range small_dest small_src found reaches
        (by exact hinsert)
      have looped := memslotLoopFound_updated started range found small_dest
        (fun e he => small e (by simp [he])) [] (by simpa using ordered) (by simp) (by rfl)
        (by rw [hpassed]) loop
      rw [memslotEffective_cons_of_le found]
      simpa [not_continues_of_le reaches] using looped
    | stop found _ ends step =>
      obtain ⟨front, hfront, updated⟩ := step.updated hsrc range small_dest small_src ends
      have hkeep : w'.toInsert = false := (step.keeps.2.2 ends).trans hinsert
      have hcontent : memslotContent dest src = dest := by simp [memslotContent, not_le.2 ends]
      refine ⟨front, hfront, ?_⟩
      rw [memslotEffective_cons_of_le found, hcontent, ite_self]
      have old_ordered : SlotsOrdered ([src] ++ rest) := ordered
      have framed := updated.frame_right old_ordered fun e he => ends.le.trans (behind e he)
      simpa [hkeep] using framed
    | failed _ _ _ failed => exact absurd rfl failed

/-- A pass that succeeds overwrites or erases the range. -/
theorem memslotPass_updated {m m' : Mem} {snapshot : List Memslot}
    (range : dest.baseGfn < dest.endGfn) (small_dest : dest.Small) (small : ∀ s ∈ list, s.Small)
    (ordered : SlotsOrdered list)
    (h : memslotPass m isValid dest list = (0, m', list', snapshot)) :
    slotPieces.Updated dest.baseGfn dest.endGfn (mapping isValid (memslotEffective dest list))
      list list' := by
  obtain ⟨ret₁, w, after, hloop, -, hpass⟩ := memslotPass_cases h
  obtain rfl : ret₁ = 0 := by
    rcases hpass with ⟨-, hret, -⟩ | ⟨hret, -⟩
    · exact hret.symm
    · exact hret
  obtain ⟨front, hfront, updated⟩ := memslotLoop_updated range small_dest small ordered rfl
    rfl hloop
  obtain rfl : w.passed = front := by simpa using hfront
  rcases hpass with ⟨hstop, -, -, rfl⟩ | ⟨-, hinsert, ⟨hret, -⟩ | ⟨-, -, rfl⟩⟩
  · have hinsert : w.toInsert = false := by simpa using hstop
    simpa [pendingSlot, hinsert] using updated
  · exact absurd rfl hret
  · simpa [pendingSlot, hinsert] using updated

end Haxm
