/-
# Circular doubly linked lists

A node is known by its address and points to the next and to the previous node. The
nodes of a list form a circle with one node more, the head, which holds no element.
Inserting and removing a node are a few assignments each; what they do to the list
is said once, for a node that is spliced in between two neighbours and for one that
is taken out from between them.
-/

import Mathlib.Data.List.Chain
import Mathlib.Data.List.Nodup

namespace Haxm.Lib

/-- The two links of every node. -/
structure Links where
  next : ℕ → ℕ
  prev : ℕ → ℕ

namespace Links

variable {h h' : Links} {head a b e p r new x : ℕ} {l xs l₁ l₂ : List ℕ}

/-! ## Operations -/

def setNext (h : Links) (a b : ℕ) : Links := { h with next := Function.update h.next a b }

def setPrev (h : Links) (a b : ℕ) : Links := { h with prev := Function.update h.prev a b }

/-- A node that is alone, or the head of an empty list. -/
def init (h : Links) (a : ℕ) : Links := (h.setPrev a a).setNext a a

/-- Inserts a node after another. -/
def insertAfter (h : Links) (new ref : ℕ) : Links :=
  let h := h.setNext new (h.next ref)
  let h := h.setPrev (h.next ref) new
  let h := h.setPrev new ref
  h.setNext ref new

/-- Inserts a node before another. -/
def insertBefore (h : Links) (new ref : ℕ) : Links :=
  let h := h.setNext new ref
  let h := h.setNext (h.prev ref) new
  let h := h.setPrev new (h.prev ref)
  h.setPrev ref new

/-- Takes a node out of its list. -/
def del (h : Links) (e : ℕ) : Links :=
  let h := h.setNext (h.prev e) (h.next e)
  let h := h.setPrev (h.next e) (h.prev e)
  h.init e

/-- The list is empty. -/
def isEmpty (h : Links) (head : ℕ) : Bool := h.next head = head ∧ h.prev head = head

/-- The nodes from `a` on, up to the head. -/
def nodesFrom (h : Links) (head : ℕ) : (fuel : ℕ) → (a : ℕ) → List ℕ
  | 0, _ => []
  | fuel + 1, a => if a = head then [] else a :: h.nodesFrom head fuel (h.next a)

@[simp] theorem setNext_next : (h.setNext a b).next x = if x = a then b else h.next x :=
  Function.update_apply ..

@[simp] theorem setNext_prev : (h.setNext a b).prev = h.prev := rfl

@[simp] theorem setPrev_prev : (h.setPrev a b).prev x = if x = a then b else h.prev x :=
  Function.update_apply ..

@[simp] theorem setPrev_next : (h.setPrev a b).next = h.next := rfl

/-! ## Lists -/

/-- Two nodes point at each other. -/
def Joined (h : Links) (a b : ℕ) : Prop := h.next a = b ∧ h.prev b = a

/-- The nodes behind a head, in order. -/
structure IsList (h : Links) (head : ℕ) (xs : List ℕ) : Prop where
  nodup : (head :: xs).Nodup
  chain : (head :: xs ++ [head]).IsChain h.Joined

/-- The links of a chain are those out of all nodes but the last and into all but the
first. -/
theorem isChain_congr (nodup : l.Nodup) (chain : l.IsChain h.Joined)
    (next : ∀ a ∈ l, l.getLast? ≠ some a → h'.next a = h.next a)
    (prev : ∀ b ∈ l, l.head? ≠ some b → h'.prev b = h.prev b) : l.IsChain h'.Joined := by
  induction chain with
  | nil => exact .nil
  | singleton a => exact .singleton a
  | @cons_cons a b l joined rest ih =>
    obtain ⟨distinct, nodup⟩ := List.nodup_cons.1 nodup
    refine .cons_cons ⟨?_, ?_⟩ (ih nodup (fun c mem last => ?_) fun c mem first => ?_)
    · rw [next a List.mem_cons_self fun last => distinct ?_, joined.1]
      rw [List.getLast?_cons_cons] at last
      exact List.mem_of_getLast? last
    · rw [prev b (by simp) fun first => distinct ?_, joined.2]
      cases first
      exact List.mem_cons_self
    · apply next c (List.mem_cons_of_mem a mem)
      rwa [List.getLast?_cons_cons]
    · apply prev c (List.mem_cons_of_mem a mem)
      rintro ⟨⟩
      exact distinct mem

/-- A list around some place in it. -/
theorem isList_append_iff : h.IsList head (l₁ ++ l₂) ↔ (head :: (l₁ ++ l₂)).Nodup ∧
    (head :: l₁).IsChain h.Joined ∧ (l₂ ++ [head]).IsChain h.Joined ∧
      h.Joined (l₁.getLastD head) (l₂.headD head) := by
  have ends : (∀ x ∈ (head :: l₁).getLast?, ∀ y ∈ (l₂ ++ [head]).head?, h.Joined x y) ↔
      h.Joined (l₁.getLastD head) (l₂.headD head) := by
    rw [List.getLast?_cons, List.head?_append]
    cases l₂ <;> simp [List.getLastD_eq_getLast?]
  constructor
  · rintro ⟨nodup, chain⟩
    rw [List.cons_append, List.append_assoc, ← List.cons_append, List.isChain_append, ends] at chain
    exact ⟨nodup, chain⟩
  · rintro ⟨nodup, chain⟩
    refine ⟨nodup, ?_⟩
    rw [List.cons_append, List.append_assoc, ← List.cons_append, List.isChain_append, ends]
    exact chain

theorem IsList.joined (list : h.IsList head (l₁ ++ l₂)) :
    h.Joined (l₁.getLastD head) (l₂.headD head) :=
  (isList_append_iff.1 list).2.2.2

theorem IsList.next_eq (list : h.IsList head (l₁ ++ x :: l₂)) : h.next x = l₂.headD head := by
  rw [List.append_cons] at list
  have joined := list.joined
  rw [List.getLastD_concat] at joined
  exact joined.1

theorem IsList.prev_eq (list : h.IsList head (l₁ ++ x :: l₂)) : h.prev x = l₁.getLastD head :=
  list.joined.2

theorem IsList.next_head (list : h.IsList head xs) : h.next head = xs.headD head := by
  have joined : h.Joined (([] : List ℕ).getLastD head) (xs.headD head) := IsList.joined list
  exact joined.1

theorem IsList.prev_head (list : h.IsList head xs) : h.prev head = xs.getLastD head := by
  rw [← List.append_nil xs] at list
  exact list.joined.2

theorem IsList.isEmpty_iff (list : h.IsList head xs) : h.isEmpty head = true ↔ xs = [] := by
  rw [isEmpty, decide_eq_true_eq, list.next_head, list.prev_head]
  cases xs with
  | nil => exact iff_of_true ⟨rfl, rfl⟩ rfl
  | cons x xs =>
    refine iff_of_false (fun alone => ?_) (List.cons_ne_nil x xs)
    have distinct := (List.nodup_cons.1 list.nodup).1
    have same : x = head := alone.1
    exact distinct (same ▸ List.mem_cons_self)

theorem isList_init : (h.init head).IsList head [] := by
  refine ⟨List.nodup_singleton head, ?_⟩
  simp [Joined, init]

/-- The nodes are found one after another. -/
theorem IsList.nodesFrom_eq (list : h.IsList head (l₁ ++ l₂)) {fuel : ℕ}
    (enough : l₂.length ≤ fuel) : h.nodesFrom head fuel (l₂.headD head) = l₂ := by
  induction fuel generalizing l₁ l₂ with
  | zero =>
    obtain rfl := List.length_eq_zero_iff.1 (Nat.le_zero.1 enough)
    rfl
  | succ fuel ih =>
    cases l₂ with
    | nil => simp [nodesFrom]
    | cons x l₂ =>
      have other : x ≠ head := by
        rintro rfl
        exact (List.nodup_cons.1 list.nodup).1 (by simp)
      rw [List.headD_cons, nodesFrom, if_neg other, list.next_eq]
      rw [List.append_cons] at list
      rw [ih list (Nat.le_of_succ_le_succ enough)]

/-! ## Splicing -/

theorem getLastD_mem (head : ℕ) (l₁ l₂ : List ℕ) : l₁.getLastD head ∈ head :: (l₁ ++ l₂) := by
  induction l₁ using List.reverseRecOn with
  | nil => exact List.mem_cons_self
  | append_singleton l x => simp

theorem headD_mem (head : ℕ) (l₁ l₂ : List ℕ) : l₂.headD head ∈ head :: (l₁ ++ l₂) := by
  cases l₂ <;> simp

/-- No links have changed but those of a node and those of its neighbours to it. -/
structure ChangedAt (h : Links) (p x r : ℕ) (h' : Links) : Prop where
  next_eq : ∀ a, a ≠ p → a ≠ x → h'.next a = h.next a
  prev_eq : ∀ b, b ≠ r → b ≠ x → h'.prev b = h.prev b

/-- A node was put between two others. -/
structure Spliced (h : Links) (p new r : ℕ) (h' : Links) : Prop extends ChangedAt h p new r h' where
  before : h'.Joined p new
  after : h'.Joined new r

/-- A node was taken from between two others. -/
structure Unspliced (h : Links) (p e r : ℕ) (h' : Links) : Prop extends ChangedAt h p e r h' where
  joined : h'.Joined p r

/-- The parts in front of the node and behind it are chains still. -/
theorem ChangedAt.chains (changed : h.ChangedAt (l₁.getLastD head) x (l₂.headD head) h')
    (nodup : (head :: (l₁ ++ l₂)).Nodup) (fresh : x ∉ head :: (l₁ ++ l₂))
    (lower : (head :: l₁).IsChain h.Joined) (upper : (l₂ ++ [head]).IsChain h.Joined) :
    (head :: l₁).IsChain h'.Joined ∧ (l₂ ++ [head]).IsChain h'.Joined := by
  have distinct {a : ℕ} (mem : a ∈ head :: (l₁ ++ l₂)) : a ≠ x := fun same => fresh (same ▸ mem)
  have perm := List.perm_append_singleton head l₂
  constructor
  · refine isChain_congr (nodup.sublist ((List.sublist_append_left l₁ l₂).cons_cons head)) lower
      (fun a mem last => changed.next_eq a ?_ (distinct ?_)) fun b mem first =>
        changed.prev_eq b ?_ (distinct ?_)
    · rintro rfl
      exact last (by rw [List.getLast?_cons, List.getLastD_eq_getLast?])
    · exact List.cons_subset_cons head (List.subset_append_left l₁ l₂) mem
    · have mem := (List.mem_cons.1 mem).resolve_left (by rintro rfl; exact first rfl)
      cases l₂ <;> grind
    · exact List.cons_subset_cons head (List.subset_append_left l₁ l₂) mem
  · refine isChain_congr (perm.nodup_iff.2
      (nodup.sublist ((List.sublist_append_right l₁ l₂).cons_cons head))) upper
      (fun a mem last => changed.next_eq a ?_ (distinct ?_)) fun b mem first =>
        changed.prev_eq b ?_ (distinct ?_)
    · have mem : a ∈ l₂ := by
        rcases List.mem_append.1 mem with mem | mem
        · exact mem
        · rw [List.mem_singleton.1 mem] at last
          exact absurd (List.getLast?_concat ..) last
      cases l₁ using List.reverseRecOn <;> grind
    · exact List.cons_subset_cons head (List.subset_append_right l₁ l₂) (perm.mem_iff.1 mem)
    · rintro rfl
      apply first
      cases l₂ <;> rfl
    · exact List.cons_subset_cons head (List.subset_append_right l₁ l₂) (perm.mem_iff.1 mem)

theorem nodup_middle_iff :
    (head :: (l₁ ++ e :: l₂)).Nodup ↔ e ∉ head :: (l₁ ++ l₂) ∧ (head :: (l₁ ++ l₂)).Nodup := by
  have perm : (head :: (l₁ ++ e :: l₂)).Perm (e :: head :: (l₁ ++ l₂)) :=
    (List.Perm.cons head List.perm_middle).trans (List.Perm.swap e head _)
  rw [perm.nodup_iff, List.nodup_cons]

/-- A new node that is spliced in is in the list. -/
theorem IsList.splice (list : h.IsList head (l₁ ++ l₂)) (fresh : new ∉ head :: (l₁ ++ l₂))
    (spliced : h.Spliced (l₁.getLastD head) new (l₂.headD head) h') :
    h'.IsList head (l₁ ++ new :: l₂) := by
  obtain ⟨nodup, lower, upper, -⟩ := isList_append_iff.1 list
  obtain ⟨lower, upper⟩ := spliced.chains nodup fresh lower upper
  refine isList_append_iff.2 ⟨nodup_middle_iff.2 ⟨fresh, nodup⟩, lower, ?_, spliced.before⟩
  have first := spliced.after
  cases l₂ <;> exact .cons_cons first upper

/-- A node that is taken out is not in the list any more. -/
theorem IsList.unsplice (list : h.IsList head (l₁ ++ e :: l₂))
    (unspliced : h.Unspliced (l₁.getLastD head) e (l₂.headD head) h') :
    h'.IsList head (l₁ ++ l₂) := by
  obtain ⟨outside, nodup⟩ := nodup_middle_iff.1 list.nodup
  obtain ⟨-, lower, upper, -⟩ := isList_append_iff.1 list
  obtain ⟨lower, upper⟩ := unspliced.chains nodup outside lower upper.of_cons
  exact isList_append_iff.2 ⟨nodup, lower, upper, unspliced.joined⟩

/-! ## What the operations do -/

theorem insertAfter_spliced (hr : h.next p = r) (hp : p ≠ new) (hnew : r ≠ new) :
    h.Spliced p new r (h.insertAfter new p) := by
  refine ⟨⟨fun a ha hne => ?_, fun b hb hne => ?_⟩, ⟨?_, ?_⟩, ⟨?_, ?_⟩⟩ <;>
    simp [insertAfter, *, hp.symm]

theorem insertBefore_spliced (hp : h.prev r = p) (hr : r ≠ new) (hnew : p ≠ new) :
    h.Spliced p new r (h.insertBefore new r) := by
  refine ⟨⟨fun a ha hne => ?_, fun b hb hne => ?_⟩, ⟨?_, ?_⟩, ⟨?_, ?_⟩⟩ <;>
    simp [insertBefore, *, hr.symm, hnew.symm]

theorem del_unspliced (hp : h.prev e = p) (hr : h.next e = r) (hpe : p ≠ e) (hre : r ≠ e) :
    h.Unspliced p e r (h.del e) := by
  refine ⟨⟨fun a ha hne => ?_, fun b hb hne => ?_⟩, ⟨?_, ?_⟩⟩ <;>
    simp [del, init, *, hpe.symm]

/-- A node that is not in the list is not one of the two nodes around a place in it. -/
theorem ends_ne (fresh : new ∉ head :: (l₁ ++ l₂)) :
    l₁.getLastD head ≠ new ∧ l₂.headD head ≠ new := by
  constructor
  · rintro rfl
    exact fresh (getLastD_mem head l₁ l₂)
  · rintro rfl
    exact fresh (headD_mem head l₁ l₂)

theorem IsList.insertAfter (list : h.IsList head (l₁ ++ l₂)) (fresh : new ∉ head :: (l₁ ++ l₂)) :
    (h.insertAfter new (l₁.getLastD head)).IsList head (l₁ ++ new :: l₂) :=
  list.splice fresh (insertAfter_spliced list.joined.1 (ends_ne fresh).1 (ends_ne fresh).2)

theorem IsList.insertBefore (list : h.IsList head (l₁ ++ l₂)) (fresh : new ∉ head :: (l₁ ++ l₂)) :
    (h.insertBefore new (l₂.headD head)).IsList head (l₁ ++ new :: l₂) :=
  list.splice fresh (insertBefore_spliced list.joined.2 (ends_ne fresh).2 (ends_ne fresh).1)

theorem IsList.del (list : h.IsList head (l₁ ++ e :: l₂)) : (h.del e).IsList head (l₁ ++ l₂) := by
  obtain ⟨outside, -⟩ := nodup_middle_iff.1 list.nodup
  have ends := ends_ne outside
  exact list.unsplice (del_unspliced list.prev_eq list.next_eq ends.1 ends.2)

/-- The links of other nodes do not matter. -/
theorem IsList.init (list : h.IsList head xs) (alone : a ∉ head :: xs) :
    (h.init a).IsList head xs := by
  have distinct {b : ℕ} (mem : b ∈ head :: xs ++ [head]) : b ≠ a := by
    rintro rfl
    apply alone
    rcases List.mem_append.1 mem with mem | mem
    · exact mem
    · rw [List.mem_singleton.1 mem]
      exact List.mem_cons_self
  refine ⟨list.nodup, list.chain.imp_of_mem_imp fun b c hb hc joined => ⟨?_, ?_⟩⟩
  · simpa [Links.init, distinct hb] using joined.1
  · simpa [Links.init, distinct hc] using joined.2

end Links

end Haxm.Lib
