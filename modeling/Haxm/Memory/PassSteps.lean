/-
# The steps of the pass

Whatever the pass over the slots does, it does in steps of a few kinds, and it
ends early only if a slot cannot be allocated. What all these steps preserve, the
pass preserves, no matter how the list looks and whether the pass succeeds.
-/

import Haxm.Memory.MemslotPass

namespace Haxm

open Lib

variable {isValid : Bool} {dest src s s' : Memslot}
  {old list list' passed rest after : List Memslot}
  {w w' : Walk} {ret : ℤ} {m m' : Mem} {a b : Walk × List Memslot} {r : ℤ × Walk × List Memslot}

variable (isValid dest old) in
/-- What a slot of the range can turn into. Only the first slot of the list `old` that reaches the
range is stretched over it. -/
inductive Reshaped (passed : List Memslot) (s : Memslot) : Memslot → Prop
  | front (starts : s.baseGfn < dest.endGfn) (ends : dest.endGfn < s.endGfn) :
      Reshaped passed s (memslotOverlapFront dest s)
  | rear (starts : s.baseGfn < dest.baseGfn) (ends : dest.baseGfn < s.endGfn) :
      Reshaped passed s (memslotOverlapRear dest s)
  | union (valid : isValid = true) (same : memslotIsSameType dest s = true) :
      Reshaped passed s (memslotUnion dest s)
  | join {prev : Memslot} (valid : isValid = true) (behind : prev ∈ passed)
      (same : memslotIsSameType dest prev = true ∧ memslotIsSameType dest s = true) :
      Reshaped passed s (memslotUnion prev s)
  | stretch (valid : isValid = true) (starts : dest.baseGfn ≤ s.baseGfn)
      (ends : s.endGfn ≤ dest.endGfn) (differs : memslotIsSameType dest s = false)
      (first : old.find? (fun s => dest.baseGfn ≤ s.endGfn) = some s) :
      Reshaped passed s (memslotStretched dest s)

variable (isValid dest old) in
/-- A step of the pass over the list `old`. The slots are those from the current one on. -/
inductive PassStep : Walk × List Memslot → Walk × List Memslot → Prop
  | flags {w : Walk} {slots : List Memslot} (processing toInsert : Bool)
      (waits : toInsert = true → w.toInsert = true ∨ isValid = true) :
      PassStep (w, slots) ({ w with processing, toInsert }, slots)
  | pass {w : Walk} {s : Memslot} {slots : List Memslot} :
      PassStep (w, s :: slots) ({ w with passed := s :: w.passed }, slots)
  | copy {w : Walk} {s : Memslot} {slots : List Memslot} {m : Mem} (mem : s ∈ old)
      (dup : memslotDup w.mem s = (some s, m)) : PassStep (w, s :: slots)
        ({ w with mem := m, snapshot := w.snapshot ++ [s] }, s :: slots)
  | insert {w : Walk} {m : Mem} (front behind : List Memslot) (valid : isValid = true)
      (dup : memslotDup w.mem dest = (some dest, m)) :
      PassStep (w, front ++ behind) ({ w with mem := m }, front ++ dest :: behind)
  | split {w : Walk} {s : Memslot} {m : Mem} (between behind : List Memslot)
      (starts : s.baseGfn < dest.baseGfn) (ends : dest.endGfn < s.endGfn)
      (dup : memslotDup w.mem (memslotRest dest s) = (some (memslotRest dest s), m)) :
      PassStep (w, s :: (between ++ behind)) ({ w with mem := m },
        memslotOverlapRear dest s :: (between ++ memslotRest dest s :: behind))
  | reshape {w : Walk} {s s' : Memslot} {slots : List Memslot}
      (shape : Reshaped isValid dest old w.passed s s') :
      PassStep (w, s :: slots) (w, s' :: slots)
  | drop {w : Walk} {s : Memslot} {slots : List Memslot} :
      PassStep (w, s :: slots) (w.drop s, slots)
  | dropLast {w : Walk} {prev : Memslot} {passed slots : List Memslot}
      (last : w.passed = prev :: passed) :
      PassStep (w, slots) ({ w.drop prev with passed }, slots)
  | ref {w : Walk} {slots : List Memslot} (valid : isValid = true) :
      PassStep (w, slots)
        ({ w with mem := ramblockRef w.mem dest.block }, dest :: slots)

abbrev PassRun (isValid : Bool) (dest : Memslot) (old : List Memslot) :
    Walk × List Memslot → Walk × List Memslot → Prop :=
  Relation.ReflTransGen (PassStep isValid dest old)

theorem PassRun.invariant {I : Walk × List Memslot → Prop} (run : PassRun isValid dest old a b)
    (start : I a) (preserved : ∀ a b, PassStep isValid dest old a b → I a → I b) : I b := by
  induction run with
  | refl => exact start
  | tail _ step ih => exact preserved _ _ step ih

variable (isValid dest old a) in
/-- The steps have been made, or some of them, up to an allocation that was refused. -/
inductive PassOutcome : ℤ × Walk × List Memslot → Prop
  | done {w : Walk} {slots : List Memslot} (run : PassRun isValid dest old a (w, slots)) :
      PassOutcome (0, w, slots)
  | refused {w : Walk} {slots : List Memslot} {s : Memslot} {m : Mem} {ret : ℤ}
      (run : PassRun isValid dest old a (w, slots)) (dup : memslotDup w.mem s = (none, m))
      (failed : ret ≠ 0) : PassOutcome (ret, { w with mem := m }, slots)

theorem PassOutcome.run (h : PassOutcome isValid dest old a (0, w, after)) :
    PassRun isValid dest old a (w, after) := by
  cases h with
  | done run => exact run
  | refused _ _ failed => exact absurd rfl failed

theorem PassRun.outcome (first : PassRun isValid dest old a b)
    (h : PassOutcome isValid dest old b r) : PassOutcome isValid dest old a r := by
  cases h with
  | done run => exact .done (first.trans run)
  | refused run dup failed => exact .refused (first.trans run) dup failed

/-! ## The first slot of the range -/

theorem CopyOf.insert {put : Bool} (dup : CopyOf put w.mem dest m)
    (valid : put = true → isValid = true)
    (front behind : List Memslot) : PassRun isValid dest old (w, front ++ behind)
      ({ w with mem := m }, front ++ (pendingSlot put dest ++ behind)) := by
  cases put with
  | true => exact .single (.insert front behind (valid rfl) dup)
  | false =>
    obtain rfl : m = w.mem := dup
    exact .refl

theorem passRun_pass (slots : List Memslot) :
    PassRun isValid dest old (w, slots ++ rest) ({ w with passed := slots.reverse ++ w.passed },
      rest) := by
  induction slots generalizing w with
  | nil => exact .refl
  | cons s slots ih =>
    refine .head .pass ?_
    simpa using @ih { w with passed := s :: w.passed }

/-- A slot is put in front of the current one. -/
theorem CopyOf.insertBefore {put : Bool} (dup : CopyOf put w.mem dest m)
    (valid : put = true → isValid = true) : PassRun isValid dest old (w, rest)
      ({ w with mem := m, passed := pendingSlot put dest ++ w.passed }, rest) := by
  simpa using (dup.insert valid [] rest).trans (passRun_pass (pendingSlot put dest))

theorem StartStep.outcome (step : StartStep isValid w dest src (ret, w', after))
    (first : old.find? (fun s => dest.baseGfn ≤ s.endGfn) = some src) :
    PassOutcome isValid dest old (w, src :: rest) (ret, w', after ++ rest) := by
  cases step with
  | refused dup => exact .refused .refl dup (by decide)
  | @refusedRest m _ dup refused =>
    exact .refused (w := { w with mem := m }) (dup.insert id [src] rest) refused (by decide)
  | before dup => exact .done (dup.insertBefore id)
  | covered => exact .done .refl
  | union valid same => exact .done (.single (.reshape (.union valid same)))
  | front dup _ inside ends =>
    exact .done ((dup.insertBefore id).tail (.reshape (.front inside ends)))
  | stretch valid differs starts ends =>
    exact .done (.single (.reshape (.stretch valid starts ends differs first)))
  | erase => exact .done (.single .drop)
  | split dup tail starts ends =>
    -- the new slot is in the list before its rest is allocated
    have inserted : PassRun isValid dest old _ _ := dup.insert id [src] rest
    have cut := inserted.tail (.split (pendingSlot isValid dest) rest starts ends tail)
    simpa using PassOutcome.done cut
  | rear _ starts inside =>
    have waits : PassRun isValid dest old (w, src :: rest) _ :=
      .single (.flags w.processing _ fun waits => (Bool.or_eq_true_iff.1 waits).symm)
    exact .done (waits.tail (.reshape (.rear starts inside)))
  | behind =>
    refine .done (.single (.flags w.processing _ fun waits => ?_))
    simp only [Bool.or_eq_true, Bool.and_eq_true] at waits
    exact waits.symm.imp_right And.left

/-! ## The last slot of the range -/

theorem memslotTail_run (ends : dest.endGfn < src.endGfn) :
    PassRun isValid dest old (w, src :: rest) (w, memslotTail dest src ++ rest) := by
  rw [memslotTail, if_pos ends]
  split_ifs with starts
  · exact .single (.reshape (.front starts ends))
  · exact .refl

theorem EndStep.run (step : EndStep isValid w dest src (0, w', after))
    (follows : isValid = true → w.passed ≠ []) :
    PassRun isValid dest old (w, src :: rest) (w', after ++ rest) := by
  have merged {prev : Memslot} {passed : List Memslot} (valid : isValid = true)
      (same : memslotIsSameType dest src = true) (last : w.passed = prev :: passed) :
      Reshaped isValid dest old w.passed src
        (memslotUnion (if memslotIsSameType dest prev then prev else dest) src) := by
    split_ifs with sameprev
    · exact .join valid (by simp [last]) ⟨sameprev, same⟩
    · exact .union valid same
  cases step with
  | overrun valid alone => exact absurd alone (follows valid)
  | join valid _ same last => exact .single (.reshape (merged valid same last))
  | merge valid _ same last =>
    exact .tail (.single (.reshape (merged valid same last))) (.dropLast last)
  | leave => exact .refl
  | cut dup _ ends =>
    exact (memslotTail_run ends).trans (dup.insertBefore fun put => (Bool.and_eq_true_iff.1 put).1)
  | drop =>
    split_ifs with put
    · rw [put]
      exact .tail (.single .drop) (.ref (Bool.and_eq_true_iff.1 put).1)
    · rw [Bool.eq_false_of_not_eq_true put]
      exact .single .drop

/-! ## The loops -/

theorem CopyOf.run {overlaps : Bool} (copy : CopyOf overlaps w.mem src m) (mem : src ∈ old) :
    PassRun isValid dest old (w, src :: rest) (w.copied src overlaps m, src :: rest) := by
  cases overlaps with
  | true => exact .single (.copy mem copy)
  | false =>
    obtain rfl : m = w.mem := copy
    simpa [Walk.copied] using Relation.ReflTransGen.refl

theorem memslotLoopFound_outcome (sub : list ⊆ old) (follows : isValid = true → w.passed ≠ [])
    (h : memslotLoopFound isValid dest w list = (ret, w', after)) :
    PassOutcome isValid dest old (w, list) (ret, w', after) := by
  induction list generalizing w with
  | nil =>
    cases h
    exact .done .refl
  | cons e rest ih =>
    have mem : e ∈ old := sub (by simp)
    cases memslotLoopFound_round h with
    | beyond => exact .done .refl
    | uncopied _ dup => exact .refused .refl dup (by decide)
    | inner _ copy loop =>
      exact PassRun.outcome ((copy.run mem).tail .drop)
        (ih (fun s hs => sub (by simp [hs])) follows loop)
    | @refused m _ _ copy _ ends dup =>
      exact .refused (w := w.copied e _ m) ((copy.run mem).trans (memslotTail_run ends)) dup
        (by decide)
    | last _ _ copy step =>
      exact .done (((copy.run mem).trans (step.run follows)).tail (.flags false false (by simp)))

/-- Starting a valid request leaves a slot in place of the first one. -/
theorem StartStep.ne_nil (step : StartStep isValid w dest src (ret, w', after))
    (valid : isValid = true) : after ≠ [] := by
  cases step with
  | erase invalid => simp [invalid] at valid
  | _ => simp

theorem memslotLoop_outcome (idle : w.processing = false) (sub : list ⊆ old)
    (first : old.find? (fun s => dest.baseGfn ≤ s.endGfn) =
      list.find? fun s => dest.baseGfn ≤ s.endGfn)
    (h : memslotLoop isValid dest w list = (ret, w', after)) :
    PassOutcome isValid dest old (w, list) (ret, w', after) := by
  induction list generalizing w with
  | nil =>
    cases h
    exact .done .refl
  | cons src rest ih =>
    have behind : rest ⊆ old := fun s hs => sub (by simp [hs])
    have mem : src ∈ old := sub (by simp)
    have skip (before : src.endGfn < dest.baseGfn) :
        old.find? (fun s => dest.baseGfn ≤ s.endGfn) =
          rest.find? fun s => dest.baseGfn ≤ s.endGfn := by
      rwa [List.find?_cons_of_neg (by simpa using before)] at first
    have take (found : dest.baseGfn ≤ src.endGfn) :
        old.find? (fun s => dest.baseGfn ≤ s.endGfn) = some src := by
      rwa [List.find?_cons_of_pos (by simpa using found)] at first
    cases memslotLoop_round idle h with
    | pass before _ loop =>
      exact PassRun.outcome (.single .pass) (ih idle behind (skip before) loop)
    | refused _ alone dup =>
      subst alone
      exact .refused .refl dup (by decide)
    | append _ alone dup =>
      subst alone
      simpa using PassOutcome.done (dup.insert id [src] [])
    | uncopied _ dup => exact .refused .refl dup (by decide)
    | @enter _ _ after₁ _ found copy _ step loop =>
      have started : PassOutcome isValid dest old (_, src :: rest) _ := step.outcome (take found)
      have entered := started.run.trans (passRun_pass after₁)
      refine PassRun.outcome (((copy.run mem).tail (.flags true w.toInsert .inl)).trans entered)
        (memslotLoopFound_outcome behind (fun valid => ?_) loop)
      simp [step.ne_nil valid]
    | stop found copy _ step => exact (copy.run mem).outcome (step.outcome (take found))
    | failed found copy step =>
      exact PassRun.outcome ((copy.run mem).tail (.flags _ w.toInsert .inl))
        (step.outcome (take found))

/-- A pass, with the slot that is still to be inserted behind the loop. -/
theorem memslotPass_outcome {snapshot : List Memslot}
    (h : memslotPass m isValid dest list = (ret, m', list', snapshot)) :
    ∃ w slots, PassOutcome isValid dest list (⟨m, [], [], false, false⟩, list) (ret, w, slots) ∧
      w.mem = m' ∧ w.snapshot = snapshot ∧ w.passed.reverse ++ slots = list' := by
  obtain ⟨ret₁, w, after, hloop, hcopies, hpass⟩ := memslotPass_cases h
  have looped : PassOutcome isValid dest list (⟨m, [], [], false, false⟩, list)
      (ret₁, w, after) := by
    refine PassRun.outcome (.single (.flags false (isValid && list.isEmpty) fun waits => .inr ?_))
      (memslotLoop_outcome rfl (List.Subset.refl list) rfl hloop)
    exact (Bool.and_eq_true_iff.1 waits).1
  rcases hpass with ⟨-, rfl, rfl, rfl⟩ | ⟨rfl, waits, ⟨failed, hdup, rfl⟩ | ⟨rfl, hdup, rfl⟩⟩
  · exact ⟨w, after, looped, rfl, hcopies, rfl⟩
  · exact ⟨_, _, .refused looped.run hdup failed, rfl, hcopies, rfl⟩
  · have valid : isValid = true := by
      refine looped.run.invariant (I := fun a => a.1.toInsert = true → isValid = true) (by simp)
        ?_ waits
      rintro a b step ih
      cases step with
      | flags _ _ waits => exact fun set => (waits set).elim ih id
      | _ => exact ih
    exact ⟨_, _, .done (looped.run.tail (.insert [] after valid hdup)), rfl, hcopies, rfl⟩

/-- Whether or not the pass succeeds, what is copied was in the list. -/
theorem memslotPass_snapshot_subset {snapshot : List Memslot}
    (h : memslotPass m isValid dest list = (ret, m', list', snapshot)) (hs : s ∈ snapshot) :
    s ∈ list := by
  obtain ⟨w, slots, outcome, -, rfl, -⟩ := memslotPass_outcome h
  have copies {b : Walk × List Memslot}
      (run : PassRun isValid dest list (⟨m, [], [], false, false⟩, list) b) :
      b.1.snapshot ⊆ list := by
    refine run.invariant (I := fun a => a.1.snapshot ⊆ list) (List.nil_subset list)
      fun a b step ih => ?_
    cases step with
    | copy mem dup => simpa using ⟨ih, mem⟩
    | _ => exact ih
  cases outcome with
  | done run => exact copies run hs
  | refused run dup failed => exact copies run hs

end Haxm
