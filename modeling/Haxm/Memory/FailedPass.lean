/-
# What a failed pass leaves behind

The pass over the slots allocates memory in between its changes of the list, and
does not undo them when an allocation fails. The list is intact only if the
failure came before the first change. Otherwise the list is broken: two slots
overlap, or a page that was mapped is not mapped any more.
-/

import Haxm.Memory.MapUpdate

namespace Haxm

open Lib

variable {m m' : Mem} {dest s e q : Memslot} {list rest after : List Memslot} {w w' : Walk}
  {isValid overlaps : Bool} {ret : ℤ} {gfn : ℕ}

/-! ## Counting allocations -/

@[simp] theorem ramblockRef_failing (m : Mem) (block : Option ℕ) :
    (ramblockRef m block).failing = m.failing := by
  unfold ramblockRef
  split
  · rfl
  · split <;> rfl

@[simp] theorem ramblockDeref_failing (m : Mem) (block : Option ℕ) :
    (ramblockDeref m block).failing = m.failing := by
  unfold ramblockDeref
  split
  · rfl
  · split
    · rfl
    · split_ifs <;> rfl

theorem memslotDup_eq_none (h : memslotDup m s = (none, m')) : m.failing = some 0 := by
  rw [memslotDup_eq] at h
  split_ifs at h with hfailing
  · exact hfailing
  · cases h

theorem memslotDup_failing {slot : Memslot} (h : memslotDup m s = (some slot, m')) :
    m.failing ≠ some 0 ∧ m'.failing = m.failing.map (· - 1) := by
  rw [memslotDup_eq] at h
  split_ifs at h with hfailing
  · cases h
  · obtain rfl := (Prod.mk.inj h).2
    exact ⟨hfailing, by simp⟩

theorem CopyOf.failing {copies : Bool} (copy : CopyOf copies m s m') :
    if copies then m.failing ≠ some 0 ∧ m'.failing = m.failing.map (· - 1)
    else m'.failing = m.failing := by
  cases copies with
  | true => exact memslotDup_failing copy
  | false => exact congrArg Mem.failing copy

/-! ## Broken lists -/

abbrev SlotsCover : List Memslot → ℕ → Prop := Covers Memslot.baseGfn Memslot.endGfn

/-- Slots overlap, or a page was lost. -/
def SlotsBroken (list list' : List Memslot) : Prop :=
  ¬ SlotsOrdered list' ∨ ∃ gfn, SlotsCover list gfn ∧ ¬ SlotsCover list' gfn

/-- The pass fails, in the loop or when it inserts the new slot behind it. -/
def Walk.GivesUp (ret : ℤ) (w : Walk) : Prop :=
  ret ≠ 0 ∨ w.toInsert = true ∧ w.mem.failing = some 0

/-! ## The second loop -/

theorem Walk.GivesUp.of_continues (gives : w.GivesUp 0) :
    w.toInsert = true ∧ w.mem.failing = some 0 :=
  gives.resolve_left fun ne => ne rfl

/-- What a loop that gives up leaves of the slots from the first one on. The slots before
stay, and a slot that is not one of the old ones begins behind the range. If the first
allocation fails, nothing is changed; otherwise the first slot is gone. -/
theorem memslotLoopFound_gaveUp (ordered : SlotsOrdered rest)
    (h : memslotLoopFound isValid dest w rest = (ret, w', after)) (gives : w'.GivesUp ret) :
    w'.passed = w.passed ∧ (∀ a ∈ after, a ∈ rest ∨ dest.endGfn ≤ a.baseGfn) ∧
      (w.toInsert = false → ∃ a ∈ after, a.baseGfn < dest.endGfn) ∧
      if w.mem.failing = some 0 then after = rest
      else ∃ e k, rest = e :: k ∧ ∀ a ∈ after, a ∈ k ∨ e.baseGfn < a.baseGfn := by
  induction rest generalizing w with
  | nil =>
    cases h
    obtain ⟨hinsert, hfailing⟩ := gives.of_continues
    simp [hinsert, hfailing]
  | cons e rest ih =>
    obtain ⟨nonempty, -, rest_ordered⟩ := ordered_cons.1 ordered
    cases memslotLoopFound_round h with
    | beyond =>
      obtain ⟨hinsert, hfailing⟩ := gives.of_continues
      rw [if_pos hfailing]
      exact ⟨rfl, fun a ha => .inl ha, fun none => (by rw [hinsert] at none; cases none), rfl⟩
    | uncopied overlap dup =>
      rw [if_pos (memslotDup_eq_none dup)]
      exact ⟨rfl, fun a ha => .inl ha, fun _ => ⟨e, by simp, overlap⟩, rfl⟩
    | inner inner copy loop =>
      -- `e` was copied and then deleted
      have hlast := endGfn_le_of_inner inner
      have hfailing := copy.failing
      rw [if_pos (by simp; omega)] at hfailing
      obtain ⟨hpassed, kept, front, -⟩ := ih rest_ordered loop
      rw [if_neg hfailing.1]
      refine ⟨hpassed, fun a ha => (kept a ha).imp_left (List.mem_cons_of_mem e), front, e,
        rest, rfl, fun a ha => (kept a ha).imp_right fun behind => ?_⟩
      omega
    | refused _ copy waits ends dup =>
      have hfailing := copy.failing
      rw [memslotTail, if_pos ends]
      refine ⟨rfl, ?_, fun none => (by rw [waits] at none; cases none), ?_⟩
      · intro a ha
        split_ifs at ha <;> rcases List.mem_cons.1 ha with rfl | ha
        · exact .inr le_rfl
        · exact .inl (List.mem_cons_of_mem e ha)
        · exact .inl List.mem_cons_self
        · exact .inl (List.mem_cons_of_mem e ha)
      · by_cases hoverlap : e.baseGfn < dest.endGfn
        · -- `e` was copied and cut
          rw [if_pos (by simpa using hoverlap)] at hfailing
          rw [if_neg hfailing.1, if_pos hoverlap]
          refine ⟨e, rest, rfl, fun a ha => ?_⟩
          rcases List.mem_cons.1 ha with rfl | ha
          · exact .inr hoverlap
          · exact .inl ha
        · rw [if_neg (by simpa using hoverlap)] at hfailing
          rw [if_pos (hfailing.symm.trans (memslotDup_eq_none dup)), if_neg hoverlap]
          rfl
    | last => simp [Walk.GivesUp] at gives

/-- If the range is already covered, the slot that could not be copied overlaps
the slot that covers it. -/
theorem memslotLoopFound_overlapping (hinsert : w.toInsert = false) (hq : q ∈ w.passed)
    (covers : dest.endGfn ≤ q.endGfn) (ordered : SlotsOrdered rest)
    (h : memslotLoopFound isValid dest w rest = (ret, w', after)) (gives : w'.GivesUp ret) :
    ¬ SlotsOrdered (w'.passed.reverse ++ after) := by
  obtain ⟨hpassed, -, front, -⟩ := memslotLoopFound_gaveUp ordered h gives
  obtain ⟨a, ha, hlt⟩ := front hinsert
  intro ordered'
  have := (ordered_append.1 ordered').2.2 q (by simpa [hpassed] using hq) a ha
  omega

theorem not_slotsCover_append {passed : List Memslot}
    (gone : ∀ q ∈ passed, ¬ (q.baseGfn ≤ gfn ∧ gfn < q.endGfn))
    (behind : ∀ e ∈ after, gfn < e.baseGfn) : ¬ SlotsCover (passed.reverse ++ after) gfn := by
  rintro ⟨q, hq, hcovers⟩
  rcases List.mem_append.1 hq with hq | hq
  · exact gone q (by simpa using hq) hcovers
  · have := behind q hq
    omega

/-- A page that has been taken out of the list does not come back. -/
theorem memslotLoopFound_lost (inside : gfn < dest.endGfn)
    (gone : ∀ q ∈ w.passed, ¬ (q.baseGfn ≤ gfn ∧ gfn < q.endGfn))
    (behind : ∀ e ∈ rest, gfn < e.baseGfn) (ordered : SlotsOrdered rest)
    (h : memslotLoopFound isValid dest w rest = (ret, w', after)) (gives : w'.GivesUp ret) :
    ¬ SlotsCover (w'.passed.reverse ++ after) gfn := by
  obtain ⟨hpassed, kept, -⟩ := memslotLoopFound_gaveUp ordered h gives
  rw [hpassed]
  exact not_slotsCover_append gone fun a ha => (kept a ha).elim (behind a) inside.trans_le

/-- If nothing has been changed yet, the next allocation decides. -/
theorem memslotLoopFound_untouched
    (before : ∀ q ∈ w.passed, q.endGfn ≤ dest.baseGfn)
    (behind : ∀ e ∈ rest, dest.baseGfn ≤ e.baseGfn) (ordered : SlotsOrdered rest)
    (h : memslotLoopFound isValid dest w rest = (ret, w', after)) (gives : w'.GivesUp ret) :
    if w.mem.failing = some 0 then w'.passed.reverse ++ after = w.passed.reverse ++ rest
    else ∃ gfn, SlotsCover rest gfn ∧ ¬ SlotsCover (w'.passed.reverse ++ after) gfn := by
  obtain ⟨hpassed, -, -, outcome⟩ := memslotLoopFound_gaveUp ordered h gives
  rw [hpassed]
  split_ifs at outcome ⊢
  · rw [outcome]
  · obtain ⟨e, k, rfl, kept⟩ := outcome
    obtain ⟨nonempty, later, -⟩ := ordered_cons.1 ordered
    refine ⟨e.baseGfn, ⟨e, by simp, le_rfl, nonempty⟩, not_slotsCover_append (fun q hq => ?_)
      fun a ha => (kept a ha).elim (fun ha => nonempty.trans_le (later a ha)) id⟩
    have := before q hq
    have := behind e (by simp)
    omega

/-! ## The first loop -/

/-- Only new slots can fail to be allocated at the start of the range, and only
if the range ends inside the first slot or before it. -/
theorem StartStep.failed (step : StartStep isValid w dest s (ret, w', after)) (hret : ret ≠ 0)
    (nonempty : s.baseGfn < s.endGfn) :
    dest.endGfn < s.endGfn ∧ w'.passed = w.passed ∧
      ((w.mem.failing = some 0 ∧ after = [s]) ∨ w.mem.failing = some 1 ∧ after = [s, dest]) := by
  cases step with
  | refused dup ends => exact ⟨by omega, rfl, .inl ⟨memslotDup_eq_none dup, rfl⟩⟩
  | refusedRest dup refused ends =>
    refine ⟨ends, rfl, ?_⟩
    have hrefused := memslotDup_eq_none refused
    cases isValid with
    | true =>
      obtain ⟨hzero, hfailing⟩ := memslotDup_failing dup
      obtain ⟨k, hk, hpred⟩ := Option.map_eq_some_iff.1 (hfailing.symm.trans hrefused)
      have hpos : k ≠ 0 := fun h => hzero (by rw [hk, h])
      refine .inr ⟨?_, rfl⟩
      rw [hk, Option.some.injEq]
      omega
    | false =>
      obtain rfl := dup
      exact .inl ⟨hrefused, rfl⟩
  | _ => exact absurd rfl hret

/-- A slot right before the range is left alone, unless the request continues it. -/
theorem StartStep.adjacent (step : StartStep isValid w dest s (0, w', after))
    (nonempty : s.baseGfn < s.endGfn) (range : dest.baseGfn < dest.endGfn)
    (adjacent : dest.baseGfn = s.endGfn)
    (differs : ¬ (isValid = true ∧ memslotIsSameType dest s = true)) :
    w'.passed = w.passed ∧ w'.mem = w.mem ∧ after = [s] := by
  cases step with
  | behind => exact ⟨rfl, rfl, rfl⟩
  | covered valid same => exact absurd ⟨valid, same⟩ differs
  | union valid same => exact absurd ⟨valid, same⟩ differs
  | _ => omega

/-- The failure comes before the first change of the list: no slot reaches the
range, or it is the first slot or the slot to be put next to it that could not
be allocated. -/
def FailsEarly (isValid : Bool) (dest : Memslot) (list : List Memslot) (failing : Option ℕ) :
    Prop :=
  match list.find? fun s => dest.baseGfn ≤ s.endGfn with
  | none => True
  | some s =>
    if dest.baseGfn < s.endGfn then
      failing = some 0 ∨ failing = some 1 ∧ dest.endGfn < s.endGfn
    else failing = some 0 ∧ ¬ (isValid = true ∧ memslotIsSameType dest s = true)

instance (isValid : Bool) (dest : Memslot) (list : List Memslot) (failing : Option ℕ) :
    Decidable (FailsEarly isValid dest list failing) := by
  unfold FailsEarly
  split <;> infer_instance

theorem failsEarly_cons_of_lt {f : Option ℕ} (before : s.endGfn < dest.baseGfn) :
    FailsEarly isValid dest (s :: list) f ↔ FailsEarly isValid dest list f := by
  simp [FailsEarly, not_le.2 before]

theorem failsEarly_cons_of_le {v : Bool} {l : List Memslot} {f : Option ℕ}
    (found : dest.baseGfn ≤ s.endGfn) :
    FailsEarly v dest (s :: l) f ↔
      if dest.baseGfn < s.endGfn then f = some 0 ∨ f = some 1 ∧ dest.endGfn < s.endGfn
      else f = some 0 ∧ ¬ (v = true ∧ memslotIsSameType dest s = true) := by
  simp [FailsEarly, found]

/-- Once the first slot has been changed, a failure breaks the list. -/
theorem Started.broken {content : Memslot} {toInsert : Bool} {slots passed : List Memslot}
    (started : Started isValid dest s content toInsert slots) (hinsert : w.toInsert = toInsert)
    (hpassed : w.passed = slots.reverse ++ passed) (reaches : s.endGfn ≤ dest.endGfn)
    (changed : (isValid = true → memslotIsSameType dest s = false) → dest.baseGfn < s.endGfn)
    (ordered : SlotsOrdered (passed.reverse ++ s :: rest))
    (before : ∀ q ∈ passed, q.endGfn < dest.baseGfn)
    (h : memslotLoopFound isValid dest w rest = (ret, w', after)) (gives : w'.GivesUp ret) :
    SlotsBroken (passed.reverse ++ s :: rest) (w'.passed.reverse ++ after) := by
  obtain ⟨nonempty, behind, rest_ordered⟩ := ordered_cons.1 (ordered_append.1 ordered).2.1
  have covering {q : Memslot} (hq : q ∈ slots) (hlast : dest.endGfn ≤ q.endGfn)
      (hfalse : toInsert = false) :
      SlotsBroken (passed.reverse ++ s :: rest) (w'.passed.reverse ++ after) :=
    .inl (memslotLoopFound_overlapping (hinsert.trans hfalse) (by simp [hpassed, hq]) hlast
      rest_ordered h gives)
  -- the first page that both the slot and the range contain is not in the list any more
  have erasing (erased : Erased dest [s] slots) (overlap : dest.baseGfn < s.endGfn) :
      SlotsBroken (passed.reverse ++ s :: rest) (w'.passed.reverse ++ after) := by
    refine .inr ⟨max dest.baseGfn s.baseGfn, ⟨s, by simp, by omega, by omega⟩,
      memslotLoopFound_lost (by omega) (fun q hq hcovers => ?_) (fun e he => ?_) rest_ordered
      h gives⟩
    · rw [hpassed, List.mem_append, List.mem_reverse] at hq
      rcases hq with hq | hq
      · have maps := (erased.maps _ _).1 ⟨q, hq, hcovers, rfl⟩
        rw [if_pos (by omega)] at maps
        cases maps
      · have := before q hq
        omega
    · have := behind e he
      omega
  cases started with
  | replace erased _ differs => exact erasing erased (changed differs)
  | extend valid mapped same first last small => exact covering (by simp) last.ge rfl
  | stretch valid first last => exact covering (List.mem_singleton.2 rfl) le_rfl rfl

theorem memslotLoop_failed (range : dest.baseGfn < dest.endGfn) (small_dest : dest.Small)
    (small : ∀ s ∈ list, s.Small) (ordered : SlotsOrdered (w.passed.reverse ++ list))
    (before : ∀ q ∈ w.passed, q.endGfn < dest.baseGfn) (hinsert : w.toInsert = false)
    (hprocessing : w.processing = false)
    (h : memslotLoop isValid dest w list = (ret, w', after)) (gives : w'.GivesUp ret) :
    if FailsEarly isValid dest list w.mem.failing
    then w'.passed.reverse ++ after = w.passed.reverse ++ list
    else SlotsBroken (w.passed.reverse ++ list) (w'.passed.reverse ++ after) := by
  induction list generalizing w with
  | nil =>
    cases h
    simp [Walk.GivesUp, hinsert] at gives
  | cons s rest ih =>
    obtain ⟨nonempty, behind, rest_ordered⟩ := ordered_cons.1 (ordered_append.1 ordered).2.1
    cases memslotLoop_round hprocessing h with
    | pass hbefore _ loop =>
      have looped := ih (fun s hs => small s (by simp [hs])) (by simpa using ordered)
        (by simpa [hbefore] using before) (by exact hinsert) (by exact hprocessing) loop
      simpa [failsEarly_cons_of_lt hbefore] using looped
    | refused hbefore alone =>
      subst alone
      rw [if_pos ((failsEarly_cons_of_lt hbefore).2 (by simp [FailsEarly]))]
    | append => simp [Walk.GivesUp, hinsert] at gives
    | uncopied overlap dup =>
      rw [if_pos]
      rw [failsEarly_cons_of_le overlap.le, if_pos overlap]
      exact .inl (memslotDup_eq_none dup)
    | failed found copy step hret =>
      -- a slot next to `s` could not be allocated
      have hfailing := copy.failing
      obtain ⟨hend, hpassed, hcases⟩ := step.failed hret nonempty
      have hlt : dest.baseGfn < s.endGfn := by omega
      rw [if_pos (by simpa using hlt)] at hfailing
      have early := failsEarly_cons_of_le (l := rest) (v := isValid) (f := w.mem.failing) found
      rw [if_pos hlt] at early
      rw [hpassed]
      rcases hcases with ⟨hrefused, rfl⟩ | ⟨hrefused, rfl⟩
      · obtain ⟨k, hk, hpred⟩ := Option.map_eq_some_iff.1 (hfailing.2.symm.trans hrefused)
        have hpos : k ≠ 0 := fun hzero => hfailing.1 (by rw [hk, hzero])
        obtain rfl : k = 1 := by omega
        rw [if_pos (early.2 (.inr ⟨hk, hend⟩))]
        rfl
      · obtain ⟨k, hk, hpred⟩ := Option.map_eq_some_iff.1 (hfailing.2.symm.trans hrefused)
        obtain rfl : k = 2 := by omega
        rw [if_neg (by rw [early, hk]; simp)]
        refine .inl fun ordered => ?_
        have := (ordered_cons.1 (ordered_append.1 ordered).2.1).2.1 dest (by simp)
        omega
    | enter found copy reaches step loop =>
      -- the range goes on behind `s`
      have hfailing := copy.failing
      obtain ⟨started, hpassed⟩ := step.started nonempty range small_dest (small s (by simp)) found
        reaches (by exact hinsert)
      have early := failsEarly_cons_of_le (l := rest) (v := isValid) (f := w.mem.failing) found
      have broken (changed : (isValid = true → memslotIsSameType dest s = false) →
          dest.baseGfn < s.endGfn) :=
        started.broken (by rfl) (by simp [hpassed]) reaches changed ordered before loop gives
      by_cases hlt : dest.baseGfn < s.endGfn
      · rw [if_pos hlt] at early
        rw [if_pos (by simpa using hlt)] at hfailing
        rw [if_neg]
        · exact broken fun _ => hlt
        · rw [early]
          rintro (hzero | ⟨-, hend⟩)
          · exact hfailing.1 hzero
          · omega
      · rw [if_neg hlt] at early
        rw [if_neg (by simpa using hlt)] at hfailing
        by_cases hsame : isValid = true ∧ memslotIsSameType dest s = true
        · rw [if_neg fun hearly => (early.1 hearly).2 hsame]
          exact broken fun differs => by simp [differs hsame.1] at hsame
        · have adjacent : dest.baseGfn = s.endGfn := by omega
          obtain ⟨-, hmem, rfl⟩ := step.adjacent nonempty range adjacent hsame
          have passed_before (q : Memslot) (hq : q ∈ [s].reverse ++ w.passed) :
              q.endGfn ≤ dest.baseGfn := by
            rcases List.mem_append.1 hq with hq | hq
            · rw [List.mem_singleton.1 hq]
              exact adjacent.ge
            · exact (before q hq).le
          have touched := memslotLoopFound_untouched (by simpa [hpassed] using passed_before)
            (fun e he => adjacent.trans_le (behind e he)) rest_ordered loop gives
          simp only [hmem, hfailing] at touched
          by_cases hzero : w.mem.failing = some 0
          · rw [if_pos hzero] at touched
            rw [if_pos (early.2 ⟨hzero, hsame⟩)]
            simpa [hpassed] using touched
          · rw [if_neg hzero] at touched
            rw [if_neg fun hearly => hzero (early.1 hearly).1]
            obtain ⟨gfn, ⟨e, he, hcovers⟩, hlost⟩ := touched
            exact .inr ⟨gfn, ⟨e, by simp [he], hcovers⟩, hlost⟩
    | stop _ _ ends step =>
      have hkeep := step.keeps.2.2 ends
      simp [Walk.GivesUp, hkeep, hinsert] at gives

/-- A pass that fails leaves the list alone if it fails early enough, and breaks
it otherwise. -/
theorem memslotPass_failed {list' snapshot : List Memslot} (range : dest.baseGfn < dest.endGfn)
    (small_dest : dest.Small) (small : ∀ s ∈ list, s.Small) (ordered : SlotsOrdered list)
    (h : memslotPass m isValid dest list = (ret, m', list', snapshot)) (hret : ret ≠ 0) :
    if FailsEarly isValid dest list m.failing then list' = list else SlotsBroken list list' := by
  obtain ⟨ret₁, w, after, hloop, -, hpass⟩ := memslotPass_cases h
  obtain rfl | nonempty := eq_or_ne list []
  · rw [if_pos (by simp [FailsEarly])]
    cases hloop
    rcases hpass with ⟨-, rfl, -⟩ | ⟨-, -, ⟨-, -, rfl⟩ | ⟨rfl, -⟩⟩
    · exact absurd rfl hret
    · rfl
    · exact absurd rfl hret
  · rw [List.isEmpty_eq_false_iff.2 nonempty, Bool.and_false] at hloop
    have failed (gives : w.GivesUp ret₁) :=
      memslotLoop_failed range small_dest small (by simpa using ordered) (by simp) rfl rfl hloop
        gives
    rcases hpass with ⟨-, rfl, -, rfl⟩ | ⟨-, hinsert, ⟨-, hdup, rfl⟩ | ⟨rfl, -⟩⟩
    · exact failed (.inl hret)
    · exact failed (.inr ⟨hinsert, memslotDup_eq_none hdup⟩)
    · exact absurd rfl hret

end Haxm
