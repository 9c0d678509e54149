/-
# Radix trees in memory

A radix tree of fixed depth, laid out as tables of entries in a store. An entry
may refer to another table. To look a key up, one starts at the root and follows
the entries that the digits of the key select; the last digit selects an entry
of the table one arrives at.

`Placed` says that each table has one place in the tree. Under it, changing an
entry of a last table changes what one key is mapped to, and linking a new and
empty table into the tree changes nothing.
-/

import Mathlib.Tactic.Ring

namespace Haxm.Lib

/-- The store with one entry changed. -/
def writeEntry {P E : Type*} [DecidableEq P] (store : P → ℕ → E) (p : P) (i : ℕ) (e : E) :
    P → ℕ → E :=
  Function.update store p (Function.update (store p) i e)

section WriteEntry

variable {P E : Type*} [DecidableEq P] {store : P → ℕ → E} {p q : P} {i j : ℕ} {e : E}

theorem writeEntry_same : writeEntry store p i e p i = e := by simp [writeEntry]

theorem writeEntry_of_ne (h : ¬ (q = p ∧ j = i)) : writeEntry store p i e q j = store q j := by
  by_cases hq : q = p
  · subst hq
    have hj : j ≠ i := fun hj => h ⟨rfl, hj⟩
    simp [writeEntry, hj]
  · simp [writeEntry, hq]

end WriteEntry

/-- The shape of a radix tree: how many entries a table has, how many digits
follow the first one, and which table an entry refers to. -/
structure RadixShape (P E : Type*) where
  fanout : ℕ
  depth : ℕ
  next : E → Option P
  empty : E
  fanout_pos : 0 < fanout
  next_empty : next empty = none

namespace RadixShape

variable {P E : Type*} (S : RadixShape P E) {store : P → ℕ → E} {root p q : P} {k x y i : ℕ}

/-- The digit of `x` that selects an entry of a table at depth `k`. -/
def digit (k x : ℕ) : ℕ := x / S.fanout ^ (S.depth - k) % S.fanout

/-- The digits of `x` that lead to a table at depth `k`. -/
def lead (k x : ℕ) : ℕ := x / S.fanout ^ (S.depth + 1 - k)

/-- Keys have `depth + 1` digits. -/
def Key (x : ℕ) : Prop := x < S.fanout ^ (S.depth + 1)

theorem digit_lt : S.digit k x < S.fanout := Nat.mod_lt _ S.fanout_pos

theorem lead_zero (key : S.Key x) : S.lead 0 x = 0 := Nat.div_eq_of_lt key

theorem lead_eq_div (hk : k ≤ S.depth) : S.lead k x = S.lead (k + 1) x / S.fanout := by
  rw [lead, lead, Nat.div_div_eq_div_mul, ← pow_succ]
  congr 2
  omega

theorem digit_eq_mod : S.digit k x = S.lead (k + 1) x % S.fanout := by
  rw [digit, lead, Nat.succ_sub_succ]

theorem lead_succ_eq (hk : k ≤ S.depth) (hlead : S.lead k x = S.lead k y)
    (hdigit : S.digit k x = S.digit k y) : S.lead (k + 1) x = S.lead (k + 1) y := by
  rw [S.lead_eq_div hk, S.lead_eq_div hk] at hlead
  rw [digit_eq_mod, digit_eq_mod] at hdigit
  rw [← Nat.div_add_mod' (S.lead (k + 1) x) S.fanout, hlead, hdigit, Nat.div_add_mod']

theorem lead_last : S.lead (S.depth + 1) x = x := by simp [lead]

/-- The table at depth `k` on the way to `x`. -/
def path (store : P → ℕ → E) (root : P) (x : ℕ) : ℕ → Option P
  | 0 => some root
  | k + 1 => (path store root x k).bind fun p => S.next (store p (S.digit k x))

/-- What the tree maps a key to. -/
def lookup (store : P → ℕ → E) (root : P) (x : ℕ) : E :=
  match S.path store root x S.depth with
  | some p => store p (S.digit S.depth x)
  | none => S.empty

variable {S} in
theorem lookup_of_path (h : S.path store root x S.depth = some p) :
    S.lookup store root x = store p (S.digit S.depth x) := by
  rw [lookup, h]

variable {S} in
theorem lookup_of_no_path (h : S.path store root x S.depth = none) :
    S.lookup store root x = S.empty := by
  rw [lookup, h]

/-- The way to a table depends on the leading digits only. -/
theorem path_congr (hk : k ≤ S.depth + 1) (h : S.lead k x = S.lead k y) :
    S.path store root x k = S.path store root y k := by
  induction k with
  | zero => rfl
  | succ k ih =>
    have hdigit : S.digit k x = S.digit k y := by rw [digit_eq_mod, digit_eq_mod, h]
    have hlead : S.lead k x = S.lead k y := by
      rw [S.lead_eq_div (Nat.le_of_succ_le_succ hk), h, ← S.lead_eq_div (Nat.le_of_succ_le_succ hk)]
    rw [path, path, ih (by omega) hlead, hdigit]

/-- Every table that is in use has a place in the tree: its depth and the digits
that lead to it. -/
structure Placed (store : P → ℕ → E) (root : P) (place : P → Option (ℕ × ℕ)) : Prop where
  root : place root = some (0, 0)
  child : ∀ {p q k l i}, place p = some (k, l) → k < S.depth → i < S.fanout →
    S.next (store p i) = some q → place q = some (k + 1, l * S.fanout + i)
  parent : ∀ {q k l}, place q = some (k + 1, l) → k < S.depth ∧
    ∃ p, place p = some (k, l / S.fanout) ∧ S.next (store p (l % S.fanout)) = some q
  unique : ∀ {p q a}, place p = some a → place q = some a → p = q

variable {S} {place : P → Option (ℕ × ℕ)}

theorem Placed.place_path (placed : S.Placed store root place) (key : S.Key x) (hk : k ≤ S.depth)
    (h : S.path store root x k = some p) : place p = some (k, S.lead k x) := by
  induction k generalizing p with
  | zero =>
    cases h
    rw [placed.root, S.lead_zero key]
  | succ k ih =>
    obtain ⟨p', hp', hnext⟩ := Option.bind_eq_some_iff.1 h
    have hplace := placed.child (ih (by omega) hp') (by omega) S.digit_lt hnext
    rw [hplace, S.lead_eq_div (by omega), digit_eq_mod, Nat.div_add_mod']

/-- A table with a place is on the way to the keys under it. -/
theorem Placed.path_of_place (placed : S.Placed store root place) (hk : k ≤ S.depth)
    (h : place p = some (k, S.lead k x)) (key : S.Key x) : S.path store root x k = some p := by
  induction k generalizing p with
  | zero =>
    rw [S.lead_zero key] at h
    rw [path, placed.unique placed.root h]
  | succ k ih =>
    obtain ⟨-, p', hp', hnext⟩ := placed.parent h
    rw [← S.lead_eq_div (by omega)] at hp'
    rw [← digit_eq_mod] at hnext
    rw [path, ih (by omega) hp', Option.bind_some, hnext]

theorem Placed.ne_of_last (last : place p = some (S.depth, i)) {l : ℕ} (hk : k < S.depth)
    (h : place q = some (k, l)) : q ≠ p := by
  rintro rfl
  rw [h] at last
  have := congrArg Prod.fst (Option.some.inj last)
  omega

/-- A new table `q`, linked to from the table on the way to `y` at depth `k`. -/
structure Linked (S : RadixShape P E) (store : P → ℕ → E) (root : P)
    (place : P → Option (ℕ × ℕ)) (y k : ℕ) (p q : P) (e : E) : Prop where
  key : S.Key y
  depth : k < S.depth
  from_path : S.path store root y k = some p
  unused : S.next (store p (S.digit k y)) = none
  unplaced : place q = none
  link : S.next e = some q

section Linked

variable {e : E} (linked : S.Linked store root place y k p q e)
  (placed : S.Placed store root place)

include linked placed

theorem Linked.place_from : place p = some (k, S.lead k y) :=
  placed.place_path linked.key linked.depth.le linked.from_path

theorem Linked.ne : p ≠ q := by
  rintro rfl
  have := linked.place_from placed
  rw [linked.unplaced] at this
  cases this

end Linked

section Write

variable [DecidableEq P] {e : E}

/-- Entries of the last tables are not on the way to any table. -/
theorem Placed.path_write_last (placed : S.Placed store root place) {l : ℕ}
    (last : place p = some (S.depth, l)) (key : S.Key x) (hk : k ≤ S.depth) :
    S.path (writeEntry store p i e) root x k = S.path store root x k := by
  induction k with
  | zero => rfl
  | succ k ih =>
    rw [path, path, ih (by omega)]
    cases hp : S.path store root x k with
    | none => rfl
    | some p' =>
      have hplace := placed.place_path key (by omega) hp
      have hne : p' ≠ p := by
        rintro rfl
        rw [hplace] at last
        have := congrArg Prod.fst (Option.some.inj last)
        omega
      rw [Option.bind_some, Option.bind_some, writeEntry_of_ne fun h => hne h.1]

theorem Placed.write_last (placed : S.Placed store root place) {l : ℕ}
    (last : place p = some (S.depth, l)) : S.Placed (writeEntry store p i e) root place where
  root := placed.root
  child := by
    intro p' q k l' j hplace hk hj hnext
    rw [writeEntry_of_ne fun h => ne_of_last last hk hplace h.1] at hnext
    exact placed.child hplace hk hj hnext
  parent := by
    intro q k l' hq
    obtain ⟨hk, p', hp', hnext⟩ := placed.parent hq
    refine ⟨hk, p', hp', ?_⟩
    rw [writeEntry_of_ne fun h => ne_of_last last hk hp' h.1]
    exact hnext
  unique := placed.unique

/-- Changing an entry of a last table changes what one key is mapped to. -/
theorem Placed.lookup_write (placed : S.Placed store root place) (key_x : S.Key x)
    (key_y : S.Key y) (hy : S.path store root y S.depth = some p) :
    S.lookup (writeEntry store p (S.digit S.depth y) e) root x =
      if x = y then e else S.lookup store root x := by
  have last := placed.place_path key_y le_rfl hy
  rw [lookup, lookup, placed.path_write_last last key_x le_rfl]
  by_cases hxy : x = y
  · subst hxy
    simp only [hy, if_true]
    exact writeEntry_same
  · rw [if_neg hxy]
    cases hx : S.path store root x S.depth with
    | none => rfl
    | some q =>
      have hplace := placed.place_path key_x le_rfl hx
      refine writeEntry_of_ne fun ⟨hq, hdigit⟩ => hxy ?_
      -- the same table and the same last digit make the same key
      have hlead : S.lead S.depth x = S.lead S.depth y := by
        rw [hq, last] at hplace
        exact (congrArg Prod.snd (Option.some.inj hplace)).symm
      have hkeys := S.lead_succ_eq le_rfl hlead hdigit
      rwa [S.lead_last, S.lead_last] at hkeys

/-- The store with the new table in it. -/
def link (S : RadixShape P E) (store : P → ℕ → E) (y k : ℕ) (p q : P) (e : E) : P → ℕ → E :=
  writeEntry (Function.update store q fun _ => S.empty) p (S.digit k y) e

theorem Linked.link_at_new (linked : S.Linked store root place y k p q e)
    (placed : S.Placed store root place) : S.link store y k p q e q i = S.empty := by
  rw [RadixShape.link, writeEntry_of_ne fun h => linked.ne placed h.1.symm, Function.update_self]

theorem link_at_from : S.link store y k p q e p (S.digit k y) = e := writeEntry_same

theorem link_of_ne {p' : P} (hq : p' ≠ q) (h : ¬ (p' = p ∧ i = S.digit k y)) :
    S.link store y k p q e p' i = store p' i := by
  rw [link, writeEntry_of_ne h, Function.update_of_ne hq]

theorem Linked.placed (linked : S.Linked store root place y k p q e)
    (placed : S.Placed store root place) :
    S.Placed (S.link store y k p q e) root
      (Function.update place q (some (k + 1, S.lead (k + 1) y))) := by
  have hfrom := linked.place_from placed
  have hlead : S.lead k y * S.fanout + S.digit k y = S.lead (k + 1) y := by
    rw [S.lead_eq_div linked.depth.le, digit_eq_mod, Nat.div_add_mod']
  have old {p' : P} {a : ℕ × ℕ} (h : place p' = some a) : p' ≠ q := by
    rintro rfl
    rw [linked.unplaced] at h
    cases h
  have keep {p' : P} {a : ℕ × ℕ} (h : place p' = some a) :
      Function.update place q (some (k + 1, S.lead (k + 1) y)) p' = some a := by
    rw [Function.update_of_ne (old h), h]
  -- no other table has the place of the new one, since the entry there was unused
  have vacant {r : P} (h : place r = some (k + 1, S.lead (k + 1) y)) : False := by
    obtain ⟨-, p', hp', hnext⟩ := placed.parent h
    rw [← S.lead_eq_div linked.depth.le] at hp'
    rw [placed.unique hp' hfrom, ← digit_eq_mod, linked.unused] at hnext
    cases hnext
  refine ⟨keep placed.root, ?_, ?_, ?_⟩
  · intro p' r k' l i hplace hk hi hnext
    by_cases hq : p' = q
    · subst hq
      rw [linked.link_at_new placed, S.next_empty] at hnext
      cases hnext
    · rw [Function.update_of_ne hq] at hplace
      by_cases hentry : p' = p ∧ i = S.digit k y
      · obtain ⟨rfl, rfl⟩ := hentry
        rw [link_at_from, linked.link] at hnext
        rw [hfrom] at hplace
        cases hplace
        cases hnext
        rw [Function.update_self, hlead]
      · rw [link_of_ne hq hentry] at hnext
        exact keep (placed.child hplace hk hi hnext)
  · intro r k' l hr
    by_cases hq : r = q
    · subst hq
      rw [Function.update_self] at hr
      cases hr
      refine ⟨linked.depth, p, keep ?_, ?_⟩
      · rw [hfrom, ← S.lead_eq_div linked.depth.le]
      · rw [← digit_eq_mod, link_at_from, linked.link]
    · rw [Function.update_of_ne hq] at hr
      obtain ⟨hk, p', hp', hnext⟩ := placed.parent hr
      refine ⟨hk, p', keep hp', ?_⟩
      rw [link_of_ne (old hp'), hnext]
      rintro ⟨rfl, hi⟩
      rw [hi, linked.unused] at hnext
      cases hnext
  · intro p' r a hp' hr
    by_cases hq : p' = q
    · by_cases hq' : r = q
      · rw [hq, hq']
      · rw [hq, Function.update_self] at hp'
        rw [Function.update_of_ne hq', ← hp'] at hr
        exact absurd hr vacant
    · by_cases hq' : r = q
      · rw [hq', Function.update_self] at hr
        rw [Function.update_of_ne hq, ← hr] at hp'
        exact absurd hp' vacant
      · rw [Function.update_of_ne hq] at hp'
        rw [Function.update_of_ne hq'] at hr
        exact placed.unique hp' hr

section Linked

variable (linked : S.Linked store root place y k p q e) (placed : S.Placed store root place)

include linked placed

/-- The way to any table that was there is as before. -/
theorem Linked.path_link {j : ℕ} {r : P} (key : S.Key x) (hj : j ≤ S.depth)
    (h : S.path store root x j = some r) : S.path (S.link store y k p q e) root x j = some r := by
  refine (linked.placed placed).path_of_place hj ?_ key
  have hplace := placed.place_path key hj h
  rw [Function.update_of_ne, hplace]
  rintro rfl
  rw [linked.unplaced] at hplace
  cases hplace

theorem Linked.path_new : S.path (S.link store y k p q e) root y (k + 1) = some q :=
  (linked.placed placed).path_of_place linked.depth (Function.update_self ..) linked.key

/-- The new table maps nothing. -/
theorem Linked.lookup_link (key : S.Key x) :
    S.lookup (S.link store y k p q e) root x = S.lookup store root x := by
  rw [lookup, lookup]
  cases hx : S.path store root x S.depth with
  | some r =>
    have hplace := placed.place_path key le_rfl hx
    rw [linked.path_link placed key le_rfl hx]
    refine link_of_ne ?_ ?_
    · rintro rfl
      rw [linked.unplaced] at hplace
      cases hplace
    · rintro ⟨rfl, -⟩
      have := (linked.place_from placed).symm.trans hplace
      have := congrArg Prod.fst (Option.some.inj this)
      have := linked.depth
      omega
  | none =>
    cases hx' : S.path (S.link store y k p q e) root x S.depth with
    | none => rfl
    | some r =>
      have hplace := (linked.placed placed).place_path key le_rfl hx'
      by_cases hq : r = q
      · rw [hq]
        exact linked.link_at_new placed
      · rw [Function.update_of_ne hq] at hplace
        rw [placed.path_of_place le_rfl hplace key] at hx
        cases hx

end Linked

end Write

end RadixShape

end Haxm.Lib
