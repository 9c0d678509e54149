/-
# Requests that fail

A request that reports an error should not have changed anything: the memory map
is the same, the list of slots is well formed, and the blocks are counted. The
reference counts are right in any case. The rest holds exactly if the failure
came before the first change of the list.
-/

import Haxm.Memory.FailedPass

namespace Haxm

open Lib

variable {σ : Type*} {sp sp' : GpaSpace σ} {ret : ℤ} {startGfn npages uva flags : ℕ} {s : Memslot}

/-- The same space, with a choice of the allocation that fails next. -/
def GpaSpace.withFailing (sp : GpaSpace σ) (failing : Option ℕ) : GpaSpace σ :=
  { sp with mem := { sp.mem with failing := failing } }

/-- Nothing that matters has changed, and everything is in order. -/
structure FailureAtomic (sp sp' : GpaSpace σ) : Prop where
  look : ∀ gfn, sp'.look gfn = sp.look gfn
  ordered : SlotsOrdered sp'.memslotList
  counted : ∀ a b, sp'.mem.block? a = some b → b.refCount = refs sp'.memslotList a

/-- The request fails before it changes the list of slots. -/
def RequestFailsEarly (sp : GpaSpace σ) (startGfn npages uva flags : ℕ) : Prop :=
  npages = 0 ∨ (memslotBlock sp.mem npages uva flags).1 ≠ 0 ∨
    FailsEarly (memslotIsValid flags) (requestSlot sp startGfn npages uva flags) sp.memslotList
      (memslotBlock sp.mem npages uva flags).2.2.failing

instance (sp : GpaSpace σ) (startGfn npages uva flags : ℕ) :
    Decidable (RequestFailsEarly sp startGfn npages uva flags) :=
  inferInstanceAs (Decidable (_ ∨ _ ∨ _))

/-! ## What a failed request leaves behind -/

section Space

variable (ok : SpaceOk sp) (bound : startGfn + npages < 2 ^ 31)

include ok bound

theorem memslotSetMapping_failed (uva_lt : uva < word)
    (h : memslotSetMapping sp startGfn npages uva flags = (ret, sp')) (hret : ret ≠ 0) :
    if RequestFailsEarly sp startGfn npages uva flags then sp'.memslotList = sp.memslotList
    else SlotsBroken sp.memslotList sp'.memslotList := by
  cases memslotSetMapping_step h with
  | empty zero => rw [if_pos (.inl zero)]
  | refused _ answer => rw [if_pos (.inr (.inl (by rwa [answer])))]
  | @carried _ _ _ dest m₁ _ _ _ _ _ carried =>
    obtain ⟨-, hlist, -⟩ := carried.slots_since ok bound
    have range := carried.range
    have hbase := carried.dest_baseGfn
    have hend := carried.dest_endGfn
    have failed := memslotPass_failed (by omega) (carried.dest_small ok bound uva_lt)
      (fun s hs => ok.small hs) ok.ordered carried.passed hret
    have early : RequestFailsEarly sp startGfn npages uva flags ↔
        FailsEarly (memslotIsValid flags) dest sp.memslotList m₁.failing := by
      rw [RequestFailsEarly, ← carried.dest_eq_requestSlot, carried.acquired]
      simp [range.ne']
    rw [hlist]
    simpa only [early] using failed

/-- The references are counted however the request ends. -/
theorem memslotSetMapping_counted
    (h : memslotSetMapping sp startGfn npages uva flags = (ret, sp')) :
    Counted sp'.mem (refs sp'.memslotList) := by
  cases memslotSetMapping_step h with
  | empty => exact ok.counted
  | refused _ answer failed => exact (memslotBlock_failed ok.counted (by omega) answer failed).2.1
  | carried carried =>
    obtain ⟨since, hlist, -⟩ := carried.slots_since ok bound
    rw [hlist]
    exact since.counted

/-- Blocks do not move while a slot refers to them. -/
theorem memslotSetMapping_baseUva
    (h : memslotSetMapping sp startGfn npages uva flags = (ret, sp')) (hs : s ∈ sp.memslotList)
    (hs' : s ∈ sp'.memslotList) : sp'.mem.baseUva s.block = sp.mem.baseUva s.block := by
  cases memslotSetMapping_step h with
  | empty => rfl
  | @refused _ _ m _ answer failed =>
    have hlist := (memslotBlock_failed ok.counted (by omega) answer failed).2.2.1
    have hblocks : m.block? = sp.mem.block? := by
      funext a
      rw [Mem.block?, hlist, Mem.block?]
    rw [Mem.baseUva, Mem.baseUva, hblocks]
  | carried carried =>
    rw [carried.baseUva_after ok bound hs' (ok.slot_placed hs).2.2,
      carried.baseUva_before ok bound hs]

end Space

/-- A broken list is not atomic. -/
theorem SlotsBroken.not_atomic (broken : SlotsBroken sp.memslotList sp'.memslotList)
    (ordered : SlotsOrdered sp.memslotList) : ¬ FailureAtomic sp sp' := by
  intro atomic
  rcases broken with unordered | ⟨gfn, ⟨s, hs, hcovers⟩, hlost⟩
  · exact unordered atomic.ordered
  · have before := (Pieces.look_eq_some_iff slotPieces ordered).2 ⟨s, hs, hcovers, rfl⟩
    have hlook := atomic.look gfn
    rw [sp'.look_eq, sp.look_eq, before, Option.map_some, Option.map_eq_some_iff] at hlook
    obtain ⟨t, ht, -⟩ := hlook
    obtain ⟨q, hq, hq_covers, -⟩ := (Pieces.look_eq_some_iff slotPieces atomic.ordered).1 ht
    exact hlost ⟨q, hq, hq_covers⟩

/-! ## Failures along a run -/

/-- Each step comes with a choice of the allocation that fails during it. -/
def atomicStep (sp : GpaSpace σ) (i : Option ℕ × SlotInput) : GpaSpace σ :=
  slotStep (sp.withFailing i.1) i.2

/-- As before, except that a request may fail early. -/
def AtomicAllowed (sp : GpaSpace σ) : Option ℕ × SlotInput → Prop
  | (failing, .addRamblock startUva size) =>
    SlotAllowed (sp.withFailing failing) (.addRamblock startUva size)
  | (failing, .setMapping startGfn npages uva flags) =>
    uva < word ∧ startGfn + npages < 2 ^ 31 ∧
      ((memslotSetMapping (sp.withFailing failing) startGfn npages uva flags).1 = 0 ∨
        RequestFailsEarly (sp.withFailing failing) startGfn npages uva flags)

theorem SpaceOk.withFailing (ok : SpaceOk sp) (failing : Option ℕ) :
    SpaceOk (sp.withFailing failing) :=
  { ok with counted := ⟨ok.counted.distinct.of_refines (.refl _) le_rfl,
    ok.counted.count, ok.counted.live⟩ }

theorem atomicStep_ok {i : Option ℕ × SlotInput} (ok : SpaceOk sp) (allowed : AtomicAllowed sp i) :
    SpaceOk (atomicStep sp i) := by
  obtain ⟨failing, i⟩ := i
  have ok' := ok.withFailing failing
  cases i with
  | addRamblock startUva size => exact handleAllocRam_ok ok' allowed.2.2
  | setMapping startGfn npages uva flags =>
    obtain ⟨uva_lt, bound, hresult⟩ := allowed
    refine memslotSetMapping_ok ok' bound uva_lt rfl ?_
    by_cases hret : (memslotSetMapping (sp.withFailing failing) startGfn npages uva flags).1 = 0
    · exact .inl hret
    · have failed := memslotSetMapping_failed ok' bound uva_lt rfl hret
      rw [if_pos (hresult.resolve_left hret)] at failed
      exact .inr failed

/-- In every state reached by requests that succeeded or failed early, a request
that fails changes nothing exactly if it fails early. -/
theorem memslotSetMapping_failureAtomic_iff {listeners : List (Listener σ)} {env : σ}
    (keeps : ListenersKeep listeners)
    (reached : Reached (GpaSpace.init none listeners env) AtomicAllowed atomicStep sp)
    (bound : startGfn + npages < 2 ^ 31) (uva_lt : uva < word) (failing : Option ℕ)
    (fails : memslotSetMapping (sp.withFailing failing) startGfn npages uva flags = (ret, sp'))
    (hret : ret < 0) :
    FailureAtomic sp sp' ↔
      RequestFailsEarly (sp.withFailing failing) startGfn npages uva flags := by
  have ok : SpaceOk sp :=
    reached.invariant (GpaSpace.init_ok keeps none env) fun _ _ => atomicStep_ok
  have ok' := ok.withFailing failing
  have failed := memslotSetMapping_failed ok' bound uva_lt fails hret.ne
  constructor
  · intro atomic
    by_contra late
    rw [if_neg late] at failed
    have broken : SlotsBroken sp.memslotList sp'.memslotList := failed
    exact broken.not_atomic ok.ordered atomic
  · intro early
    rw [if_pos early] at failed
    refine ⟨fun gfn => ?_, ?_, (memslotSetMapping_counted ok' bound fails).count⟩
    · rw [GpaSpace.look, GpaSpace.look, failed]
      refine Option.map_congr fun s hs => ?_
      have mem : s ∈ sp.memslotList := by
        rw [memslotFind_eq_search] at hs
        exact ((search_eq_some_iff ok.ordered).1 hs).1
      rw [memslotSetMapping_baseUva ok' bound fails mem (by rwa [failed])]
      rfl
    · rw [failed]
      exact ok.ordered

/-- Two slots of one page each, in different blocks. -/
def twoMemslots : GpaSpace Unit :=
  atomicStep (atomicStep (atomicStep (atomicStep (GpaSpace.init none [] ())
    (none, .addRamblock 0x10000 0x1000)) (none, .addRamblock 0x20000 0x1000))
    (none, .setMapping 0 1 0x10000 0)) (none, .setMapping 1 1 0x20000 0)

theorem twoMemslots_reached :
    Reached (GpaSpace.init none [] ()) AtomicAllowed atomicStep twoMemslots := by
  refine .step (.step (.step (.step .init ?_) ?_) ?_) ?_
  · exact ⟨by decide, by decide, by decide⟩
  · exact ⟨by decide, by decide, by decide⟩
  · exact ⟨by decide, by decide, .inl (by decide)⟩
  · exact ⟨by decide, by decide, .inl (by decide)⟩

/-- Unmapping both fails without effect if the first slot cannot be copied. -/
theorem twoMemslots_unmap_atomic :
    (memslotSetMapping (twoMemslots.withFailing (some 0)) 0 2 0 haxMemslotInvalid).1 = -ENOMEM ∧
      FailureAtomic twoMemslots
        (memslotSetMapping (twoMemslots.withFailing (some 0)) 0 2 0 haxMemslotInvalid).2 := by
  have refused :
      (memslotSetMapping (twoMemslots.withFailing (some 0)) 0 2 0 haxMemslotInvalid).1 =
        -ENOMEM := by
    decide
  have fails : memslotSetMapping (twoMemslots.withFailing (some 0)) 0 2 0 haxMemslotInvalid =
      (-ENOMEM, _) := Prod.ext refused rfl
  refine ⟨refused, ?_⟩
  exact (memslotSetMapping_failureAtomic_iff (by simp [ListenersKeep]) twoMemslots_reached
    (by decide) (by decide) (some 0) fails (by decide)).2 (by decide)

/-- If the second slot cannot be copied, the first one is already gone. -/
theorem twoMemslots_unmap_not_atomic :
    Reached (GpaSpace.init none [] ()) AtomicAllowed atomicStep twoMemslots ∧
      (memslotSetMapping (twoMemslots.withFailing (some 1)) 0 2 0 haxMemslotInvalid).1 = -ENOMEM ∧
      twoMemslots.look 0 = some (0x10000, 0) ∧
      (memslotSetMapping (twoMemslots.withFailing (some 1)) 0 2 0 haxMemslotInvalid).2.look 0 =
        none ∧
      ¬ FailureAtomic twoMemslots
        (memslotSetMapping (twoMemslots.withFailing (some 1)) 0 2 0 haxMemslotInvalid).2 := by
  have before : twoMemslots.look 0 = some (0x10000, 0) := by decide
  have lost : (memslotSetMapping (twoMemslots.withFailing (some 1)) 0 2 0 haxMemslotInvalid).2.look
      0 = none := by decide
  refine ⟨twoMemslots_reached, by decide, before, lost, fun atomic => ?_⟩
  have hlook := atomic.look 0
  rw [before, lost] at hlook
  cases hlook

end Haxm
