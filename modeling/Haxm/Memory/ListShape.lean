/-
# The shape of the slot list

The pass over the nodes does to the list what the pass over the plain list of slots
does: after each step the nodes passed by and the nodes to come hold the slots that
the plain pass has there. So in every state that is reached the slots form a
circular doubly linked list of live nodes, and they are in order.
-/

import Haxm.Memory.SlotLinks
import Haxm.Memory.Unfailing

namespace Haxm

open Lib

theorem Walk.enqueue_toInsert (w : Walk) (s : Memslot) (overlaps : Bool) :
    (w.enqueue overlaps s).2.toInsert = w.toInsert := by
  unfold Walk.enqueue
  split_ifs
  · rcases memslotDup w.mem s with ⟨_ | copy, m⟩ <;> rfl
  · rfl

namespace SlotLinks

variable {heap heap' : SlotHeap} {p p' : LinkWalk} {w w' : Walk} {xs l₁ l₂ mid : List ℕ}
  {rest passed : List Memslot} {dest s slot : Memslot} {src new x : ℕ} {isValid : Bool}

/-- The nodes of the list, in order. They are live. -/
structure Represents (heap : SlotHeap) (xs : List ℕ) : Prop where
  list : heap.links.IsList listHead xs
  live : ∀ x ∈ xs, x < heap.nextNode ∧ x ∉ heap.freed
  freed : ∀ x ∈ heap.freed, x < heap.nextNode
  head : listHead < heap.nextNode

/-- A node that is not in the list. -/
structure Fresh (heap : SlotHeap) (new : ℕ) (slot : Memslot) (xs : List ℕ) : Prop where
  alone : new ∉ listHead :: xs
  slot : heap.slot new = slot
  live : new < heap.nextNode ∧ new ∉ heap.freed

/-- The pass over the nodes is at the same place as the pass over the slots, between the
nodes `l₁` and the nodes `l₂`. -/
structure At (p : LinkWalk) (l₁ l₂ : List ℕ) (w : Walk) (rest : List Memslot) : Prop where
  rep : Represents p.heap (l₁ ++ l₂)
  passed : w.passed = (l₁.map p.heap.slot).reverse
  rest : rest = l₂.map p.heap.slot
  mem : p.mem = w.mem
  snapshot : p.snapshot = w.snapshot
  processing : p.processing = w.processing
  toInsert : p.toInsert = w.toInsert

/-! ## Nodes -/

theorem Represents.splice {links : Links} (rep : Represents heap (l₁ ++ l₂))
    (fresh : Fresh heap new slot (l₁ ++ l₂))
    (list : links.IsList listHead (l₁ ++ new :: l₂)) :
    Represents { heap with links := links } (l₁ ++ new :: l₂) := by
  refine ⟨list, fun x mem => ?_, rep.freed, rep.head⟩
  rcases List.mem_cons.1 (List.perm_middle.mem_iff.1 mem) with rfl | mem
  · exact fresh.live
  · exact rep.live x mem

theorem Represents.delete (rep : Represents heap (l₁ ++ x :: l₂)) :
    Represents { heap with links := heap.links.del x, freed := x :: heap.freed } (l₁ ++ l₂) := by
  have outside := (Links.nodup_middle_iff.1 rep.list.nodup).1
  have mem_of {y : ℕ} (mem : y ∈ l₁ ++ l₂) : y ∈ l₁ ++ x :: l₂ :=
    List.perm_middle.mem_iff.2 (List.mem_cons_of_mem x mem)
  refine ⟨rep.list.del, fun y mem => ⟨(rep.live y (mem_of mem)).1, fun gone => ?_⟩,
    fun y gone => ?_, rep.head⟩
  · rcases List.mem_cons.1 gone with rfl | gone
    · exact outside (List.mem_cons_of_mem listHead mem)
    · exact (rep.live y (mem_of mem)).2 gone
  · rcases List.mem_cons.1 gone with rfl | gone
    · exact (rep.live y (by simp)).1
    · exact rep.freed y gone

theorem Represents.fresh_nextNode (rep : Represents heap xs) : heap.nextNode ∉ listHead :: xs := by
  intro mem
  rcases List.mem_cons.1 mem with same | mem
  · exact absurd rep.head (by rw [same]; exact lt_irrefl _)
  · exact absurd (rep.live _ mem).1 (lt_irrefl _)

theorem map_update_of_notMem {f : ℕ → Memslot} (h : x ∉ xs) :
    xs.map (Function.update f x s) = xs.map f :=
  List.map_congr_left fun _ mem => Function.update_of_ne (ne_of_mem_of_not_mem mem h) ..

/-! ## Steps -/

theorem At.slot_eq (h : At p l₁ (x :: l₂) w (s :: rest)) : p.heap.slot x = s :=
  (List.cons.inj h.rest).1.symm

theorem At.notHead (h : At p l₁ (src :: l₂) w rest) : src ≠ listHead := by
  rintro rfl
  exact (List.nodup_cons.1 h.rep.list.nodup).1 (by simp)

/-- The pass moves on by one node. -/
theorem At.next (h : At p l₁ (x :: l₂) w (s :: rest)) :
    At p (l₁ ++ [x]) l₂ { w with passed := s :: w.passed } rest :=
  { h with
    rep := by rw [← List.append_cons]; exact h.rep
    passed := by simp [h.passed, h.slot_eq]
    rest := (List.cons.inj h.rest).2 }

theorem At.back (h : At p (l₁ ++ [x]) l₂ w rest) (first : w.passed = s :: passed) :
    At p l₁ (x :: l₂) { w with passed := passed } (s :: rest) := by
  have split : s = p.heap.slot x ∧ passed = (l₁.map p.heap.slot).reverse := by
    simpa [first] using h.passed
  exact
    { h with
      rep := by rw [List.append_cons]; exact h.rep
      passed := split.2
      rest := by rw [split.1, h.rest]; rfl }

theorem At.modify (h : At p l₁ (x :: l₂) w (s :: rest)) (f : Memslot → Memslot) :
    At (p.modify x f) l₁ (x :: l₂) w (f s :: rest) := by
  have outside := (Links.nodup_middle_iff.1 h.rep.list.nodup).1
  have notMem₁ : x ∉ l₁ := fun mem => outside (by simp [mem])
  have notMem₂ : x ∉ l₂ := fun mem => outside (by simp [mem])
  refine ⟨⟨h.rep.list, h.rep.live, h.rep.freed, h.rep.head⟩, ?_, ?_, h.mem, h.snapshot,
    h.processing, h.toInsert⟩
  · rw [h.passed, p.modify_slot, map_update_of_notMem notMem₁]
  · rw [p.modify_slot, List.map_cons, Function.update_self, map_update_of_notMem notMem₂, h.slot_eq]
    exact congrArg _ (List.cons.inj h.rest).2

theorem At.delete (h : At p l₁ (x :: l₂) w (s :: rest)) :
    At (memslotDelete p x) l₁ l₂ (w.drop s) rest :=
  { h with
    rep := h.rep.delete
    rest := (List.cons.inj h.rest).2
    mem := by rw [memslotDelete, h.slot_eq, h.mem]; rfl }

theorem At.insertBefore (h : At p l₁ l₂ w rest) (fresh : Fresh p.heap new slot (l₁ ++ l₂)) :
    At (memslotInsertBefore p new (l₂.headD listHead)) (l₁ ++ [new]) l₂
      { w with passed := slot :: w.passed } rest :=
  { h with
    rep := by
      rw [← List.append_cons]
      exact h.rep.splice fresh (h.rep.list.insertBefore fresh.alone)
    passed := by simp [h.passed, memslotInsertBefore, fresh.slot] }

theorem At.insertAfter (h : At p l₁ l₂ w rest) (fresh : Fresh p.heap new slot (l₁ ++ l₂)) :
    At (memslotInsertAfter p new (l₁.getLastD listHead)) l₁ (new :: l₂) w (slot :: rest) :=
  { h with
    rep := h.rep.splice fresh (h.rep.list.insertAfter fresh.alone)
    rest := by rw [h.rest, List.map_cons, memslotInsertAfter, fresh.slot] }

/-- A node is inserted behind the current one. -/
theorem At.insertBehind (h : At p l₁ (x :: l₂) w (s :: rest))
    (fresh : Fresh p.heap new slot (l₁ ++ x :: l₂)) :
    At (memslotInsertAfter p new x) l₁ (x :: new :: l₂) w (s :: slot :: rest) := by
  rw [List.append_cons] at fresh
  have inserted := h.next.insertAfter fresh
  rw [List.getLastD_concat] at inserted
  exact inserted.back rfl

/-- Both passes get memory for a copy, or neither does. -/
theorem At.dup {α β : Type*} {R : α → β → Prop} {f : LinkWalk → α} {f' : ℕ → LinkWalk → α}
    {g : Mem → β} {g' : Memslot → Mem → β} (h : At p l₁ l₂ w rest)
    (failed : ∀ m, At { p with mem := m } l₁ l₂ { w with mem := m } rest →
      R (f { p with mem := m }) (g m))
    (copied : ∀ m new p', At p' l₁ l₂ { w with mem := m } rest →
      Fresh p'.heap new slot (l₁ ++ l₂) → R (f' new p') (g' slot m)) :
    R
      (match memslotDup p slot with
        | (none, p) => f p
        | (some new, p) => f' new p)
      (match Haxm.memslotDup w.mem slot with
        | (none, m) => g m
        | (some slot, m) => g' slot m) := by
  have outside := h.rep.fresh_nextNode
  rw [Haxm.memslotDup, memslotDup, h.mem]
  rcases w.mem.vmalloc sizeofMemslot with ⟨_ | _, m⟩
  · exact failed m { h with mem := rfl }
  · refine copied _ _ _ ?_ ⟨outside, Function.update_self .., Nat.lt_succ_self _, ?_⟩
    · have notMem {l : List ℕ} (sub : l ⊆ l₁ ++ l₂) : p.heap.nextNode ∉ l := fun mem =>
        outside (List.mem_cons_of_mem listHead (sub mem))
      refine ⟨⟨h.rep.list.init outside, fun x mem => ?_, fun x gone => ?_, ?_⟩, ?_, ?_, rfl,
        h.snapshot, h.processing, h.toInsert⟩
      · exact (h.rep.live x mem).imp_left Nat.lt_succ_of_lt
      · exact Nat.lt_succ_of_lt (h.rep.freed x gone)
      · exact Nat.lt_succ_of_lt h.rep.head
      · rw [map_update_of_notMem (notMem (List.subset_append_left l₁ l₂))]
        exact h.passed
      · rw [map_update_of_notMem (notMem (List.subset_append_right l₁ l₂))]
        exact h.rest
    · intro gone
      exact absurd (h.rep.freed _ gone) (lt_irrefl _)

/-! ## The slots at the ends of the range -/

/-- Both passes return the same. They are in front of the nodes that stand in the place of
the node they were at, followed by the nodes to come. -/
def Simulates (l₂ : List ℕ) (rest : List Memslot) (r : ℤ × LinkWalk)
    (r' : ℤ × Walk × List Memslot) : Prop :=
  r.1 = r'.1 ∧ ∃ l₁ mid, mid.length = r'.2.2.length ∧ At r.2 l₁ (mid ++ l₂) r'.2.1 (r'.2.2 ++ rest)

theorem Simulates.run {r : ℤ × LinkWalk} {r' : ℤ × Walk × List Memslot}
    (h : Simulates l₂ rest r r') :
    ∃ ret p w after l₁ mid, r = (ret, p) ∧ r' = (ret, w, after) ∧ mid.length = after.length ∧
      At p l₁ (mid ++ l₂) w (after ++ rest) := by
  obtain ⟨same, l₁, mid, length, at_⟩ := h
  exact ⟨_, _, _, _, l₁, mid, rfl, Prod.ext same.symm rfl, length, at_⟩

theorem At.simulates {ret : ℤ} {after : List Memslot} (mid : List ℕ)
    (h : At p l₁ (mid ++ l₂) w (after ++ rest)) (length : mid.length = after.length) :
    Simulates l₂ rest (ret, p) (ret, w, after) :=
  ⟨rfl, l₁, mid, length, h⟩

theorem At.keep {ret : ℤ} (h : At p l₁ (x :: l₂) w (s :: rest)) :
    Simulates l₂ rest (ret, p) (ret, w, [s]) :=
  At.simulates [x] h rfl

theorem At.drop (h : At p l₁ (x :: l₂) w (s :: rest)) :
    Simulates l₂ rest (0, memslotDelete p x) (0, w.drop s, []) :=
  At.simulates [] h.delete rfl

/-- A new slot in front of the current one. -/
theorem At.insertBefore_sim (h : At p l₁ (x :: l₂) w (s :: rest)) (dest : Memslot) :
    Simulates l₂ rest
      (match memslotDup p dest with
        | (none, p) => (-ENOMEM, p)
        | (some new, p) => (0, memslotInsertBefore p new x))
      (w.insertBefore dest [s]) := by
  exact h.dup (fun _ failed => failed.keep) fun _ _ _ copied fresh =>
    (copied.insertBefore fresh).keep

section Start

variable (h : At p l₁ (src :: l₂) w (s :: rest))

include h

theorem memslotProcessStartSameType_sim :
    Simulates l₂ rest (memslotProcessStartSameType p dest src)
      (Haxm.memslotProcessStartSameType w dest s) := by
  unfold memslotProcessStartSameType Haxm.memslotProcessStartSameType
  dsimp only
  rw [h.slot_eq]
  split_ifs
  · exact h.insertBefore_sim dest
  · exact h.keep
  · exact (h.modify _).keep

theorem memslotProcessStartInvalid_sim :
    Simulates l₂ rest (memslotProcessStartInvalid p dest src)
      (Haxm.memslotProcessStartInvalid w dest s) := by
  unfold memslotProcessStartInvalid Haxm.memslotProcessStartInvalid memslotAppendRest
    Haxm.memslotAppendRest
  dsimp only
  rw [h.slot_eq]
  split_ifs
  · exact h.keep
  · exact (h.modify _).keep
  · exact h.drop
  · refine h.dup (fun _ failed => failed.keep) fun m new p' copied fresh => ?_
    exact At.simulates [src, new] ((copied.insertBehind fresh).modify _) rfl
  · exact (h.modify _).keep

/-- The range lies inside a slot, whose parts in front and behind stay. -/
theorem At.split_sim :
    Simulates l₂ rest
      (match memslotDup p dest with
        | (none, p) => (-ENOMEM, p)
        | (some new, p) =>
          match memslotAppendRest (memslotInsertAfter p new src) dest src with
          | (none, p) => (-ENOMEM, p)
          | (some after, p) =>
            (0, (memslotInsertAfter p after new).modify src (memslotOverlapRear dest)))
      (match Haxm.memslotDup w.mem dest with
        | (none, m) => (-ENOMEM, { w with mem := m }, [s])
        | (some slot, m) =>
          match Haxm.memslotAppendRest m slot s with
          | (none, m) => (-ENOMEM, { w with mem := m }, [s, slot])
          | (some after, m) =>
            (0, { w with mem := m }, [memslotOverlapRear slot s, slot, after])) := by
  refine h.dup (fun _ failed => failed.keep) fun m new p₁ copied fresh => ?_
  have inserted := copied.insertBehind fresh
  unfold memslotAppendRest Haxm.memslotAppendRest
  rw [inserted.slot_eq]
  refine inserted.dup (fun _ failed => At.simulates [src, new] failed rfl)
    fun m' after p₂ copied' fresh' => ?_
  rw [List.append_cons] at fresh'
  have both := (copied'.next.insertBehind fresh').back rfl
  exact At.simulates [src, new, after] (both.modify _) rfl

theorem memslotProcessStartDiffType_sim :
    Simulates l₂ rest (memslotProcessStartDiffType p dest src)
      (Haxm.memslotProcessStartDiffType w dest s) := by
  unfold memslotProcessStartDiffType Haxm.memslotProcessStartDiffType memslotProcessStartInside
  dsimp only
  rw [h.slot_eq]
  have inserting : At { p with toInsert := true } l₁ (src :: l₂) { w with toInsert := true }
      (s :: rest) := { h with toInsert := rfl }
  split_ifs
  · exact h.insertBefore_sim dest
  · exact h.dup (fun _ failed => failed.keep) fun _ _ _ copied fresh =>
      ((copied.insertBefore fresh).modify _).keep
  · exact (h.modify _).keep
  · exact inserting.split_sim
  · exact h.split_sim
  · exact (inserting.modify _).keep
  · exact (h.modify _).keep
  · exact inserting.keep
  · exact h.keep

theorem memslotProcessStart_sim :
    Simulates l₂ rest (memslotProcessStart isValid p dest src)
      (Haxm.memslotProcessStart isValid w dest s) := by
  unfold memslotProcessStart Haxm.memslotProcessStart
  rw [h.slot_eq]
  split_ifs
  · exact memslotProcessStartSameType_sim h
  · exact memslotProcessStartDiffType_sim h
  · exact memslotProcessStartInvalid_sim h

end Start

theorem At.move (h : At p l₁ (x :: l₂) w (s :: rest)) (dest : Memslot) :
    At (memslotMove p x dest) l₁ (x :: l₂)
      { w.drop s with mem := ramblockRef (w.drop s).mem dest.block } (dest :: rest) :=
  { h.modify fun _ => dest with
    mem := by rw [memslotMove, h.slot_eq, h.mem]; rfl }

section End

variable (h : At p l₁ (src :: l₂) w (s :: rest))

include h

theorem memslotProcessEndDiffType_sim :
    Simulates l₂ rest (memslotProcessEndDiffType p dest src)
      (Haxm.memslotProcessEndDiffType w dest s) := by
  unfold memslotProcessEndDiffType Haxm.memslotProcessEndDiffType
  dsimp only
  rw [h.slot_eq]
  by_cases beyond : dest.endGfn < s.endGfn
  · rw [if_pos beyond, if_pos beyond]
    have cut : At (if s.baseGfn < dest.endGfn then p.modify src (memslotOverlapFront dest) else p)
        l₁ (src :: l₂) w
        ((if s.baseGfn < dest.endGfn then memslotOverlapFront dest s else s) :: rest) := by
      split_ifs
      · exact h.modify _
      · exact h
    rw [cut.toInsert]
    split_ifs at cut ⊢
    · exact cut.insertBefore_sim dest
    · exact cut.insertBefore_sim dest
    · exact cut.keep
    · exact cut.keep
  · rw [if_neg beyond, if_neg beyond, h.toInsert]
    split_ifs
    · exact (h.move dest).keep
    · exact h.drop

theorem memslotProcessEndSameType_sim :
    Simulates l₂ rest (memslotProcessEndSameType p dest src)
      (Haxm.memslotProcessEndSameType w dest s) := by
  unfold memslotProcessEndSameType Haxm.memslotProcessEndSameType
  dsimp only
  rw [h.slot_eq, h.toInsert, h.rep.list.prev_eq]
  by_cases existed : dest.endGfn = s.endGfn ∧ w.toInsert = false
  · rw [if_pos existed, if_pos existed]
    exact h.drop
  · rw [if_neg existed, if_neg existed]
    -- the node in front of `src` is the last of those passed by
    rcases List.eq_nil_or_concat' l₁ with rfl | ⟨l₁, prev, rfl⟩
    · have none : w.passed = [] := h.passed
      rw [none, List.getLastD_nil, if_pos rfl]
      have faulted : At { p with mem := p.mem.fault .overrun, toInsert := w.toInsert } []
          (src :: l₂)
          { w with mem := w.mem.fault .overrun, passed := [] } (s :: rest) :=
        { h with passed := rfl, mem := by rw [h.mem], toInsert := rfl }
      exact faulted.keep
    · have first : w.passed = p.heap.slot prev :: (l₁.map p.heap.slot).reverse := by
        simpa using h.passed
      have other : prev ≠ listHead := by
        rintro rfl
        exact (List.nodup_cons.1 h.rep.list.nodup).1 (by simp)
      rw [first, List.getLastD_concat, if_neg other]
      dsimp only
      generalize (if memslotIsSameType dest (p.heap.slot prev) then p.heap.slot prev else dest) =
        merged
      have united := h.modify (memslotUnion merged)
      rw [united.toInsert]
      split_ifs with inserting
      · exact united.keep
      · exact (united.back first).delete.keep

theorem memslotProcessEndInvalid_sim :
    Simulates l₂ rest (memslotProcessEndInvalid p dest src)
      (Haxm.memslotProcessEndInvalid w dest s) := by
  unfold memslotProcessEndInvalid Haxm.memslotProcessEndInvalid
  dsimp only
  rw [h.slot_eq]
  split_ifs
  · exact h.keep
  · exact (h.modify _).keep
  · exact h.drop

theorem memslotProcessEnd_sim :
    Simulates l₂ rest (memslotProcessEnd isValid p dest src)
      (Haxm.memslotProcessEnd isValid w dest s) := by
  unfold memslotProcessEnd Haxm.memslotProcessEnd
  rw [h.slot_eq]
  split_ifs
  · exact memslotProcessEndSameType_sim h
  · exact memslotProcessEndDiffType_sim h
  · exact memslotProcessEndInvalid_sim h

theorem memslotIsInner_eq : memslotIsInner p.heap dest src = Haxm.memslotIsInner dest s rest := by
  have tail := (List.cons.inj h.rest).2
  unfold memslotIsInner Haxm.memslotIsInner
  dsimp only
  rw [h.slot_eq, h.rep.list.next_eq, tail]
  cases l₂ with
  | nil => simp
  | cons next l₂ =>
    simp [h.next.notHead]

end End

theorem At.enqueue_sim (h : At p l₁ l₂ w rest) (overlaps : Bool) (slot : Memslot) :
    ∃ ret p' w', p.enqueue overlaps slot = (ret, p') ∧ w.enqueue overlaps slot = (ret, w') ∧
      At p' l₁ l₂ w' rest := by
  unfold LinkWalk.enqueue Walk.enqueue
  rw [h.mem]
  split_ifs
  · rcases Haxm.memslotDup w.mem slot with ⟨_ | copy, m⟩
    · exact ⟨_, _, _, rfl, rfl, { h with mem := rfl }⟩
    · exact ⟨_, _, _, rfl, rfl, { h with mem := rfl, snapshot := by rw [h.snapshot] }⟩
  · exact ⟨_, _, _, rfl, rfl, h⟩

/-! ## The loop -/

/-- Both passes pass by some nodes. -/
theorem At.skip {after : List Memslot} (h : At p l₁ (mid ++ l₂) w (after ++ rest))
    (length : mid.length = after.length) :
    At p (l₁ ++ mid) l₂ { w with passed := after.reverse ++ w.passed } rest := by
  induction mid generalizing l₁ w after with
  | nil =>
    obtain rfl := List.length_eq_zero_iff.1 length.symm
    simpa using h
  | cons x mid ih =>
    obtain ⟨s, after, rfl⟩ := List.exists_cons_of_length_eq_add_one length.symm
    have moved := ih h.next (Nat.succ.inj length)
    simpa using moved

/-- Both loops end alike. If the new slot is still to be inserted, the node at which the
loop stopped is the first of those to come. -/
def LoopSimulates (r : ℤ × LinkWalk × ℕ) (r' : ℤ × Walk × List Memslot) : Prop :=
  r.1 = r'.1 ∧ ∃ l₁ l₂, At r.2.1 l₁ l₂ r'.2.1 r'.2.2 ∧
    (r'.1 = 0 → r'.2.1.toInsert = true → r.2.2 = l₂.headD listHead)

theorem At.stop {ret : ℤ} (h : At p l₁ l₂ w rest)
    (last : ret = 0 → w.toInsert = true → src = l₂.headD listHead) :
    LoopSimulates (ret, p, src) (ret, w, rest) :=
  ⟨rfl, l₁, l₂, h, last⟩

theorem memslotLoopFound_sim {fuel : ℕ} (h : At p l₁ l₂ w rest) (enough : l₂.length ≤ fuel) :
    LoopSimulates
      (memslotLoop isValid dest fuel true p (l₂.headD listHead)
        (p.heap.links.next (l₂.headD listHead)))
      (memslotLoopFound isValid dest w rest) := by
  induction l₂ generalizing p l₁ w rest fuel with
  | nil =>
    obtain rfl : rest = [] := h.rest
    have stopped : LoopSimulates (0, p, listHead) (0, w, []) := h.stop fun _ _ => rfl
    cases fuel <;> exact stopped
  | cons src l₂ ih =>
    cases fuel with
    | zero => cases enough
    | succ fuel =>
      obtain ⟨s, rest, rfl⟩ : ∃ s rest', rest = s :: rest' := ⟨_, _, h.rest⟩
      have behind : p.heap.links.next src = l₂.headD listHead := h.rep.list.next_eq
      rw [List.headD_cons, memslotLoop, if_neg h.notHead, memslotLoopFound]
      dsimp only
      rw [if_neg (by decide), h.slot_eq, behind]
      obtain ⟨ret, p₁, w₁, run, run', queued⟩ := h.enqueue_sim (s.baseGfn < dest.endGfn) s
      obtain ⟨ret₂, p₂, w₂, after, l₁', mid, ends, ends', -, done⟩ :=
        (memslotProcessEnd_sim queued).run
      rw [run, run']
      dsimp only
      rw [memslotIsInner_eq queued, ends, ends']
      dsimp only
      split_ifs with beyond failed inner failed₂
      · exact h.stop fun _ _ => rfl
      · exact queued.stop fun zero => absurd zero failed
      · exact ih queued.delete (Nat.le_of_succ_le_succ enough)
      · exact done.stop fun zero => absurd zero failed₂
      · have reset : At { p₂ with processing := false, toInsert := false } l₁' (mid ++ l₂)
            { w₂ with processing := false, toInsert := false } (after ++ rest) :=
          { done with processing := rfl, toInsert := rfl }
        exact reset.stop fun _ inserting => absurd inserting Bool.false_ne_true

theorem memslotLoop_sim {fuel : ℕ} (h : At p l₁ l₂ w rest) (waiting : w.toInsert = false)
    (enough : l₂.length ≤ fuel) :
    LoopSimulates
      (memslotLoop isValid dest fuel false p (l₂.headD listHead)
        (p.heap.links.next (l₂.headD listHead)))
      (Haxm.memslotLoop isValid dest w rest) := by
  induction l₂ generalizing p l₁ w rest fuel with
  | nil =>
    obtain rfl : rest = [] := h.rest
    have stopped : LoopSimulates (0, p, listHead) (0, w, []) := h.stop fun _ _ => rfl
    cases fuel <;> exact stopped
  | cons src l₂ ih =>
    cases fuel with
    | zero => cases enough
    | succ fuel =>
      obtain ⟨s, rest, rfl⟩ : ∃ s rest', rest = s :: rest' := ⟨_, _, h.rest⟩
      have behind : p.heap.links.next src = l₂.headD listHead := h.rep.list.next_eq
      rw [List.headD_cons, memslotLoop, if_neg h.notHead, Haxm.memslotLoop.eq_def]
      dsimp only
      rw [if_pos rfl, h.slot_eq, behind]
      by_cases before : s.endGfn < dest.baseGfn
      · rw [if_pos before, if_pos before]
        cases l₂ with
        | nil =>
          obtain rfl : rest = [] := (List.cons.inj h.rest).2
          rw [List.headD_nil, if_neg (not_not.2 rfl)]
          dsimp only
          cases isValid with
          | false => exact h.stop fun _ inserting => absurd inserting (by simp [waiting])
          | true =>
            rw [if_pos rfl, if_pos rfl]
            refine h.dup (fun _ failed => failed.stop fun zero => absurd zero (by decide))
              fun m new p' copied fresh => ?_
            exact (copied.insertBehind fresh).stop fun _ inserting =>
              absurd inserting (by simp [waiting])
        | cons y l₂ =>
          have moved := h.next
          obtain ⟨t, rest, rfl⟩ : ∃ t rest', rest = t :: rest' := ⟨_, _, moved.rest⟩
          rw [List.headD_cons, if_pos moved.notHead]
          exact ih moved waiting (Nat.le_of_succ_le_succ enough)
      · rw [if_neg before, if_neg before]
        obtain ⟨ret, p₁, w₁, run, run', queued⟩ := h.enqueue_sim (dest.baseGfn < s.endGfn) s
        have flag := w.enqueue_toInsert s (dest.baseGfn < s.endGfn)
        rw [run'] at flag
        rw [run, run']
        dsimp only
        have marked : At (if s.endGfn ≤ dest.endGfn then { p₁ with processing := true } else p₁)
            l₁ (src :: l₂)
            (if s.endGfn ≤ dest.endGfn then { w₁ with processing := true } else w₁)
              (s :: rest) := by
          split_ifs
          · exact { queued with processing := rfl }
          · exact queued
        have waiting₁ : (if s.endGfn ≤ dest.endGfn then { w₁ with processing := true }
            else w₁).toInsert = false := by
          split_ifs <;> exact flag.trans waiting
        have processing₁ : s.endGfn ≤ dest.endGfn → (if s.endGfn ≤ dest.endGfn then
            { w₁ with processing := true } else w₁).processing = true := by
          intro le
          rw [if_pos le]
        generalize (if s.endGfn ≤ dest.endGfn then { p₁ with processing := true } else p₁) = p₁ at *
        generalize (if s.endGfn ≤ dest.endGfn then { w₁ with processing := true } else w₁) = w₁ at *
        obtain ⟨ret₂, p₂, w₂, after, l₁', mid, starts, starts', length, done⟩ :=
          (memslotProcessStart_sim marked).run
        obtain ⟨-, kept, untouched⟩ :=
          (memslotProcessStart_step (not_lt.1 before) starts').keeps
        rw [starts, starts']
        dsimp only
        rw [done.processing]
        split_ifs with failed failed₂ more
        · exact queued.stop fun zero => absurd zero failed
        · exact done.stop fun zero => absurd zero failed₂
        · exact memslotLoopFound_sim (done.skip length) (Nat.le_of_succ_le_succ enough)
        · refine done.stop fun _ inserting => ?_
          -- the range ends inside the slot, so that nothing is left to insert
          have beyond : dest.endGfn < s.endGfn := not_le.1 fun le =>
            more (kept.trans (processing₁ le))
          rw [untouched beyond, waiting₁] at inserting
          cases inserting

/-! ## The pass -/

theorem Represents.length_lt (rep : Represents heap xs) : xs.length < heap.nextNode := by
  have sub : listHead :: xs ⊆ List.range heap.nextNode := by
    intro x mem
    rcases List.mem_cons.1 mem with rfl | mem
    · exact List.mem_range.2 rep.head
    · exact List.mem_range.2 (rep.live x mem).1
  have le := (rep.list.nodup.subperm sub).length_le
  rw [List.length_cons, List.length_range] at le
  exact le

theorem At.slots (h : At p l₁ l₂ w rest) :
    w.passed.reverse ++ rest = (l₁ ++ l₂).map p.heap.slot := by
  rw [h.passed, h.rest, List.reverse_reverse, List.map_append]

/-- Both passes return the same, and the same slots. -/
def PassSimulates (r : ℤ × Mem × SlotHeap × List Memslot)
    (r' : ℤ × Mem × List Memslot × List Memslot) : Prop :=
  ∃ ret m heap xs snapshot, r = (ret, m, heap, snapshot) ∧ Represents heap xs ∧
    r' = (ret, m, xs.map heap.slot, snapshot)

theorem At.done (h : At p l₁ l₂ w rest) (ret : ℤ) :
    PassSimulates (ret, p.mem, p.heap, p.snapshot)
      (ret, w.mem, w.passed.reverse ++ rest, w.snapshot) :=
  ⟨_, _, _, _, _, rfl, h.rep, by rw [h.slots, h.mem, h.snapshot]⟩

/-- The pass over the nodes does what the pass over the slots does. -/
theorem memslotPass_sim (m : Mem) (rep : Represents heap xs) :
    PassSimulates (memslotPass m isValid dest heap)
      (Haxm.memslotPass m isValid dest (xs.map heap.slot)) := by
  have start : At ⟨m, heap, [], false, false⟩ [] xs ⟨m, [], [], false, false⟩ (xs.map heap.slot) :=
    ⟨rep, rfl, rfl, rfl, rfl, rfl, rfl⟩
  unfold memslotPass Haxm.memslotPass
  dsimp only
  cases xs with
  | nil =>
    rw [if_pos (rep.list.isEmpty_iff.2 rfl), List.map_nil, List.isEmpty_nil, if_pos rfl]
    cases isValid with
    | false => exact start.done 0
    | true =>
      rw [if_pos rfl, if_pos rfl]
      refine start.dup (fun _ failed => failed.done (-ENOMEM)) fun m' new p' copied fresh => ?_
      have inserted := (copied.insertAfter fresh).done 0
      rw [show (memslotInsertAfter p' new ([].getLastD listHead)).snapshot = [] from
        copied.snapshot] at inserted
      exact inserted
  | cons x xs =>
    have nonempty : ¬ heap.links.isEmpty listHead = true := by simp [rep.list.isEmpty_iff]
    rw [if_neg nonempty, List.map_cons, List.isEmpty_cons, if_neg Bool.false_ne_true,
      rep.list.next_head]
    have looped : LoopSimulates (memslotLoop isValid dest heap.nextNode false
          ⟨m, heap, [], false, false⟩ x (heap.links.next x))
        (Haxm.memslotLoop isValid dest ⟨m, [], [], false, false⟩
          (heap.slot x :: xs.map heap.slot)) :=
      memslotLoop_sim start rfl rep.length_lt.le
    rw [List.headD_cons]
    generalize memslotLoop isValid dest heap.nextNode false _ x _ = r at *
    generalize Haxm.memslotLoop isValid dest _ _ = r' at *
    obtain ⟨ret, p, src⟩ := r
    obtain ⟨ret', w, rest⟩ := r'
    obtain ⟨rfl, l₁, l₂, h, last⟩ := looped
    dsimp only at h last ⊢
    by_cases failed : ret ≠ 0
    · rw [if_pos failed, if_pos failed]
      exact h.done ret
    · rw [if_neg failed, if_neg failed, h.toInsert]
      by_cases inserting : w.toInsert = true
      · rw [if_pos inserting, if_pos inserting]
        rw [last (not_not.1 failed) inserting]
        refine h.dup (fun _ failed => failed.done (-ENOMEM)) fun m' new p' copied fresh => ?_
        have inserted := (copied.insertBefore fresh).done 0
        rw [List.reverse_cons, List.append_assoc] at inserted
        exact inserted
      · rw [if_neg inserting, if_neg inserting]
        exact h.done 0

/-! ## Requests -/

theorem Represents.nodes_eq (rep : Represents heap xs) : heap.nodes = xs := by
  have list : heap.links.IsList listHead ([] ++ xs) := rep.list
  rw [SlotHeap.nodes, rep.list.next_head, list.nodesFrom_eq rep.length_lt.le]

theorem Represents.slots_eq (rep : Represents heap xs) : heap.slots = xs.map heap.slot := by
  rw [SlotHeap.slots, rep.nodes_eq]

theorem represents_empty : Represents .empty [] :=
  ⟨Links.isList_init, by simp, by simp [SlotHeap.empty], Nat.one_pos⟩

variable {σ : Type*} {sp sp' : LinkedSpace σ} {ret : ℤ} {startGfn npages uva flags gfn : ℕ}

theorem LinkedSpace.space_ofSpace {told : GpaSpace σ} (same : told.memslotList = heap.slots) :
    (LinkedSpace.ofSpace heap told).space = told := by
  unfold LinkedSpace.space LinkedSpace.ofSpace
  rw [← same]

/-- Requests on a space and on one with nodes do the same. -/
def RequestSimulates (r : ℤ × LinkedSpace σ) (r' : ℤ × GpaSpace σ) : Prop :=
  r' = (r.1, r.2.space) ∧ ∃ xs, Represents r.2.heap xs

/-- A request on the nodes is the request on the slots. -/
theorem memslotSetMapping_sim (rep : Represents sp.heap xs) :
    RequestSimulates (memslotSetMapping sp startGfn npages uva flags)
      (Haxm.memslotSetMapping sp.space startGfn npages uva flags) := by
  have slots : sp.space.memslotList = xs.map sp.heap.slot := rep.slots_eq
  have emptiness : xs.map sp.heap.slot ≠ [] ↔ ¬ sp.heap.links.isEmpty listHead = true := by
    rw [rep.list.isEmpty_iff, Ne, List.map_eq_nil_iff]
  unfold memslotSetMapping Haxm.memslotSetMapping
  by_cases zero : npages = 0
  · rw [if_pos zero, if_pos zero]
    exact ⟨rfl, xs, rep⟩
  rw [if_neg zero, if_neg zero, show sp.space.mem = sp.mem from rfl]
  generalize memslotBlock sp.mem npages uva flags = r
  obtain ⟨ret, block, m⟩ := r
  dsimp only
  by_cases failed : ret ≠ 0
  · rw [if_pos failed, if_pos failed]
    exact ⟨rfl, xs, rep⟩
  rw [if_neg failed, if_neg failed, slots]
  generalize memslotDest m block startGfn npages uva flags = dest
  have passed : PassSimulates (memslotPass m (memslotIsValid flags) dest sp.heap)
      (Haxm.memslotPass m (memslotIsValid flags) dest (xs.map sp.heap.slot)) :=
        memslotPass_sim m rep
  obtain ⟨ret, m, heap, xs', snapshot, hpass, rep', hpass'⟩ := passed
  rw [hpass, hpass', ← rep'.slots_eq]
  simp only [emptiness]
  refine ⟨?_, xs', rep'⟩
  rw [LinkedSpace.space_ofSpace]
  dsimp only
  split_ifs
  · exact mappingBroadcast_memslotList _ _ dest snapshot
  · rfl

/-! ## Looking up a page -/

theorem memslotFindFrom_eq {fuel : ℕ} (list : heap.links.IsList listHead (l₁ ++ l₂))
    (enough : l₂.length ≤ fuel) :
    memslotFindFrom heap gfn fuel (l₂.headD listHead) =
      search (fun x => (heap.slot x).baseGfn) (fun x => (heap.slot x).endGfn) gfn l₂ := by
  induction fuel generalizing l₁ l₂ with
  | zero =>
    obtain rfl := List.length_eq_zero_iff.1 (Nat.le_zero.1 enough)
    rfl
  | succ fuel ih =>
    cases l₂ with
    | nil => rfl
    | cons x l₂ =>
      have other : x ≠ listHead := by
        rintro rfl
        exact (List.nodup_cons.1 list.nodup).1 (by simp)
      have next := list.next_eq
      rw [List.append_cons] at list
      rw [List.headD_cons, memslotFindFrom, if_neg other, search, next,
        ih list (Nat.le_of_succ_le_succ enough)]

theorem Represents.memslotFind_eq (rep : Represents heap xs) :
    memslotFind heap gfn =
      search (fun x => (heap.slot x).baseGfn) (fun x => (heap.slot x).endGfn) gfn xs := by
  have list : heap.links.IsList listHead ([] ++ xs) := rep.list
  rw [memslotFind, rep.list.next_head, memslotFindFrom_eq list rep.length_lt.le]

/-! ## Runs -/

/-- The guest frame number is one of a slot's. -/
def Contains (s : Memslot) (gfn : ℕ) : Prop := s.baseGfn ≤ gfn ∧ gfn < s.baseGfn + s.npages

/-- The shape of the list: the nodes from the head on are live and closed to a circle in both
directions, their slots are in order and apart from each other, and a page is found exactly in the
one slot that contains it. -/
structure ListShape (heap : SlotHeap) : Prop where
  circular : heap.links.IsList listHead heap.nodes
  live : ∀ x ∈ heap.nodes, x < heap.nextNode ∧ x ∉ heap.freed
  sorted : heap.nodes.Pairwise fun x y => (heap.slot x).baseGfn < (heap.slot y).baseGfn
  nonempty : ∀ x ∈ heap.nodes, 0 < (heap.slot x).npages
  apart : heap.nodes.IsChain fun x y =>
    (heap.slot x).baseGfn + (heap.slot x).npages ≤ (heap.slot y).baseGfn
  find_some : ∀ gfn x, memslotFind heap gfn = some x ↔
    (x ∈ heap.nodes ∧ Contains (heap.slot x) gfn) ∧
      ∀ y ∈ heap.nodes, Contains (heap.slot y) gfn → y = x
  find_none : ∀ gfn, memslotFind heap gfn = none ↔
    ∀ x ∈ heap.nodes, ¬ Contains (heap.slot x) gfn

theorem Represents.listShape (rep : Represents heap xs)
    (ordered : SlotsOrdered (xs.map heap.slot)) : ListShape heap := by
  have nodes_ordered :
      Ordered (fun x => (heap.slot x).baseGfn) (fun x => (heap.slot x).endGfn) xs := by
    obtain ⟨pairwise, nonempty⟩ := ordered
    exact ⟨List.pairwise_map.1 pairwise, List.forall_mem_map.1 nonempty⟩
  have find_some (gfn x : ℕ) :
      memslotFind heap gfn = some x ↔ x ∈ xs ∧ Contains (heap.slot x) gfn := by
    rw [rep.memslotFind_eq, search_eq_some_iff nodes_ordered]
    rfl
  have nodes := rep.nodes_eq
  refine ⟨?_, ?_, ?_, ?_, ?_, fun gfn x => ?_, fun gfn => ?_⟩
  · rw [nodes]
    exact rep.list
  · rw [nodes]
    exact rep.live
  · rw [nodes]
    refine nodes_ordered.1.imp_of_mem fun {x y} mem _ le => ?_
    exact (nodes_ordered.2 x mem).trans_le le
  · rw [nodes]
    intro x mem
    have range := nodes_ordered.2 x mem
    dsimp only [Memslot.endGfn] at range
    omega
  · rw [nodes]
    exact nodes_ordered.1.isChain
  · rw [nodes, find_some]
    refine ⟨fun found => ⟨found, fun y mem inside => ?_⟩, And.left⟩
    -- both are what is found
    have same := ((find_some gfn y).2 ⟨mem, inside⟩).symm.trans ((find_some gfn x).2 found)
    exact Option.some.inj same
  · rw [nodes, Option.eq_none_iff_forall_ne_some]
    refine forall_congr' fun x => ?_
    rw [Ne, find_some, not_and]

/-- The guard of a request does not look at the nodes. -/
def LinkRequested (sp : LinkedSpace σ) (i : SlotInput) : Prop := SlotRequested sp.space i

instance (sp : LinkedSpace σ) (i : SlotInput) : Decidable (LinkRequested sp i) :=
  inferInstanceAs (Decidable (SlotRequested sp.space i))

theorem linkStep_sim (rep : Represents sp.heap xs) (i : SlotInput) :
    (linkStep sp i).space = slotStep sp.space i ∧ ∃ xs, Represents (linkStep sp i).heap xs := by
  cases i with
  | addRamblock startUva size =>
    refine ⟨LinkedSpace.space_ofSpace ?_, xs, rep⟩
    unfold handleAllocRam
    split_ifs <;> rfl
  | setMapping startGfn npages uva flags =>
    obtain ⟨same, xs', rep'⟩ := memslotSetMapping_sim rep
    refine ⟨?_, xs', rep'⟩
    rw [linkStep, slotStep, same]

/-- In every state that is reached the slots are those of the plain model. -/
theorem linkReached_space {listeners : List (Listener σ)} {env : σ}
    (reached : Reached (LinkedSpace.init listeners env) LinkRequested linkStep sp) :
    Reached (GpaSpace.init none listeners env) SlotRequested slotStep sp.space ∧
      ∃ xs, Represents sp.heap xs := by
  induction reached with
  | init =>
    have start : (LinkedSpace.init listeners env).space = GpaSpace.init none listeners env :=
      LinkedSpace.space_ofSpace represents_empty.slots_eq.symm
    rw [start]
    exact ⟨.init, [], represents_empty⟩
  | step _ allowed ih =>
    obtain ⟨reached, xs, rep⟩ := ih
    obtain ⟨same, rep'⟩ := linkStep_sim rep _
    rw [same]
    exact ⟨.step reached allowed, rep'⟩

/-- As long as allocations succeed, the list keeps its shape. -/
theorem listShape_run {listeners : List (Listener σ)} {env : σ} (keeps : ListenersKeep listeners)
    (reached : Reached (LinkedSpace.init listeners env) LinkRequested linkStep sp) :
    ListShape sp.heap := by
  obtain ⟨reached, xs, rep⟩ := linkReached_space reached
  have ordered := (slotRequested_unfailing keeps reached).ok.ordered
  apply rep.listShape
  rw [← rep.slots_eq]
  exact ordered

/-- Four pages are mapped, the second one is unmapped and the page behind them is mapped
elsewhere. -/
def splitSpace : LinkedSpace Unit :=
  [.addRamblock 0x10000 0x4000, .addRamblock 0x20000 0x1000, .setMapping 0 4 0x10000 0,
    .setMapping 1 1 0 haxMemslotInvalid, .setMapping 4 1 0x20000 0].foldl linkStep (.init [] ())

/-- Three nodes are left, and the page in the gap is in none of them. -/
theorem splitSpace_listShape :
    splitSpace.heap.nodes = [1, 2, 3] ∧ memslotFind splitSpace.heap 1 = none ∧
      ListShape splitSpace.heap := by
  refine ⟨by decide, by decide, listShape_run (by simp [ListenersKeep]) (Reached.foldl .init ?_)⟩
  decide

end SlotLinks

end Haxm
