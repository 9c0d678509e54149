/-
# Reference counts of RAM blocks

Every memory slot holds one reference to its block, and so does a request while
it is being carried out. `Counted m held` says that the reference counts agree
with the number of holders `held` of each block; a block that is held is then
never freed. `Since` relates two points of an execution between which references
were only taken and dropped: whatever is still held at the later point has kept
its contents, and chunks are unpinned exactly if their block lost its last holder.
Each elementary step is such a change, and changes compose.
-/

import Haxm.Memory.RamblockList

namespace Haxm

open Lib

variable {m m' m'' : Mem} {held held' held'' : ℕ → ℕ} {a : ℕ} {b : Ramblock}
  {f : Ramblock → Ramblock}

/-! ## Blocks by address -/

namespace Mem

/-- Addresses of blocks are distinct, and the next one is not in use. -/
structure Distinct (m : Mem) : Prop where
  fresh : ∀ b ∈ m.ramblockList, b.addr < m.nextAddr
  nodup : (m.ramblockList.map Ramblock.addr).Nodup

theorem addr_of_block? (h : m.block? a = some b) : b.addr = a := by
  simpa using List.find?_some h

theorem mem_of_block? (h : m.block? a = some b) : b ∈ m.ramblockList := List.mem_of_find?_eq_some h

theorem block?_eq_some_iff (distinct : m.Distinct) :
    m.block? a = some b ↔ b ∈ m.ramblockList ∧ b.addr = a := by
  refine ⟨fun h => ⟨mem_of_block? h, addr_of_block? h⟩, fun ⟨hb, ha⟩ => ?_⟩
  obtain ⟨c, hc⟩ : ∃ c, m.block? a = some c := by
    rw [← Option.isSome_iff_exists, block?, List.find?_isSome]
    exact ⟨b, hb, by simpa using ha⟩
  have same := List.inj_on_of_nodup_map distinct.nodup (mem_of_block? hc) hb
    ((addr_of_block? hc).trans ha.symm)
  rw [hc, same]

theorem log_nil (m : Mem) : m.log [] = m := by simp [log]

@[simp] theorem block?_log (events : List Event) : (m.log events).block? a = m.block? a := rfl

theorem block?_setBlock (keeps : ∀ b, (f b).addr = b.addr) (c : ℕ) :
    (m.setBlock c f).block? a = (m.block? a).map fun b => if a = c then f b else b := by
  have hcongr : ((fun b : Ramblock => decide (b.addr = a)) ∘
      fun b => if b.addr = c then f b else b) = fun b => decide (b.addr = a) := by
    funext b
    simp only [Function.comp_apply]
    split_ifs
    · rw [keeps]
    · rfl
  rw [block?, setBlock, List.find?_map, hcongr]
  rw [← block?]
  cases h : m.block? a with
  | none => rfl
  | some b => simp [addr_of_block? h]

theorem block?_setBlock_of (hb : m.block? a = some b) (keeps : ∀ b, (f b).addr = b.addr) (x : ℕ) :
    (m.setBlock a f).block? x = if x = a then some (f b) else m.block? x := by
  rw [block?_setBlock keeps]
  by_cases hx : x = a
  · subst hx
    simp [hb]
  · simp [hx]

theorem block?_removeBlock (c : ℕ) :
    (m.removeBlock c).block? a = if a = c then none else m.block? a := by
  rw [block?, removeBlock, List.find?_filter]
  split_ifs with h
  · subst h
    simp
  · unfold block?
    congr 1
    funext b
    by_cases hb : b.addr = a <;> simp [hb, h]

/-- A block that was just added is the one at the address it got, and the others
stay where they are. -/
theorem Distinct.insert {baseUva size : ℕ} {list : List Ramblock} (distinct : m.Distinct)
    (hins : ramblockInsert (ramblockNew m.nextAddr baseUva size) m.ramblockList = some list)
    (hlist : m'.ramblockList = list) (hnext : m'.nextAddr = m.nextAddr + 1) :
    m'.Distinct ∧ ∀ a, m'.block? a =
      if a = m.nextAddr then some (ramblockNew m.nextAddr baseUva size) else m.block? a := by
  have perm := ramblockInsert_perm hins
  have distinct' : m'.Distinct := by
    refine ⟨fun b hb => ?_, ?_⟩
    · rw [hlist, perm.mem_iff] at hb
      rcases List.mem_cons.1 hb with rfl | hb
      · simp [hnext, ramblockNew]
      · have := distinct.fresh b hb
        omega
    · rw [hlist, (perm.map _).nodup_iff, List.map_cons, List.nodup_cons]
      refine ⟨fun hmem => ?_, distinct.nodup⟩
      obtain ⟨b, hb, haddr⟩ := List.mem_map.1 hmem
      exact (distinct.fresh b hb).ne haddr
  refine ⟨distinct', fun a => ?_⟩
  ext b
  rw [block?_eq_some_iff distinct', hlist, mem_ramblockInsert hins]
  split_ifs with ha
  · subst ha
    rw [Option.some.injEq]
    constructor
    · rintro ⟨rfl | hb, haddr⟩
      · rfl
      · exact absurd haddr (distinct.fresh b hb).ne
    · rintro rfl
      exact ⟨.inl rfl, rfl⟩
  · rw [block?_eq_some_iff distinct]
    constructor
    · rintro ⟨rfl | hb, haddr⟩
      · exact absurd haddr.symm ha
      · exact ⟨hb, haddr⟩
    · rintro ⟨hb, haddr⟩
      exact ⟨.inr hb, haddr⟩

theorem Distinct.of_refines (distinct : m.Distinct)
    (refines : Refines m.ramblockList m'.ramblockList) (hnext : m.nextAddr ≤ m'.nextAddr) :
    m'.Distinct := by
  obtain ⟨kept, f, sub, hlist, keeps⟩ := refines
  refine ⟨fun b hb => ?_, ?_⟩
  · rw [hlist] at hb
    obtain ⟨c, hc, rfl⟩ := List.mem_map.1 hb
    rw [(keeps c).1]
    exact (distinct.fresh c (sub.subset hc)).trans_le hnext
  · have haddr : Ramblock.addr ∘ f = Ramblock.addr := funext fun b => (keeps b).1
    rw [hlist, List.map_map, haddr]
    exact distinct.nodup.sublist (sub.map _)

theorem ramblockAdd_distinct (distinct : m.Distinct) (baseUva size : ℕ) :
    (ramblockAdd m baseUva size).2.2.Distinct := by
  rcases ramblockAdd_cases m baseUva size with ⟨_, _, _, _, _, hn, _, _, h⟩ | ⟨list, _, hins, _, h⟩
  · rw [h]
    exact distinct.of_refines (.refl _) hn
  · rw [h]
    exact (distinct.insert hins rfl rfl).1

end Mem

/-! ## Counted references -/

/-- A block apart from its reference count. -/
def Ramblock.contents (b : Ramblock) : Ramblock := { b with refCount := 0 }

@[simp] theorem Ramblock.contents_size (b : Ramblock) : b.contents.size = b.size := rfl

@[simp] theorem Ramblock.contents_baseUva (b : Ramblock) : b.contents.baseUva = b.baseUva := rfl

@[simp] theorem ramblockFreeChunks_size (b : Ramblock) : (ramblockFreeChunks b).size = b.size := rfl

theorem ramblockFreeChunks_contents (b : Ramblock) :
    (ramblockFreeChunks b).contents = ramblockFreeChunks b.contents := rfl

theorem ramblockFreeChunks_twice (b : Ramblock) :
    ramblockFreeChunks (ramblockFreeChunks b) = ramblockFreeChunks b := by
  simp only [ramblockFreeChunks, Ramblock.mk.injEq, true_and, and_true]
  constructor <;> funext i <;> split_ifs <;> rfl

/-- The reference counts agree with the number of holders, and what is held is
in the list. -/
structure Counted (m : Mem) (held : ℕ → ℕ) : Prop where
  distinct : m.Distinct
  count : ∀ a b, m.block? a = some b → b.refCount = held a
  live : ∀ a, 0 < held a → ∃ b, m.block? a = some b

/-- How often a block pointer counts as a holder of the block at an address. -/
def holds (block : Option ℕ) (a : ℕ) : ℕ := if block = some a then 1 else 0

@[simp] theorem holds_none (a : ℕ) : holds none a = 0 := rfl

/-- An event that leaves the pinned pages and the protection bitmap alone and is
no fault. -/
def Event.Keeps : Event → Prop
  | .unpin .. | .write _ | .fault _ => False
  | _ => True

/-- The block at `a` has lost its last holder: its chunks are unpinned, and it is gone or
has no chunks any more. -/
structure Released (a : ℕ) (b : Ramblock) (m' : Mem) (events : List Event) : Prop where
  unpinned : ∀ e ∈ b.pinned, e ∈ events
  left : ∀ b', m'.block? a = some b' →
    b.isStandalone = false ∧ b'.contents = ramblockFreeChunks b

/-- What happened to memory between two points, with the holders at each. -/
structure Since (m : Mem) (held : ℕ → ℕ) (m' : Mem) (held' : ℕ → ℕ) : Prop where
  counted : Counted m' held'
  subset : ∀ a, 0 < held' a → 0 < held a
  contents : ∀ a, 0 < held' a →
    (m'.block? a).map Ramblock.contents = (m.block? a).map Ramblock.contents
  blocks : ∀ a b', m'.block? a = some b' → ∃ b, m.block? a = some b ∧
    (b'.contents = b.contents ∨ b'.contents = (ramblockFreeChunks b).contents)
  trace : ∃ events, m'.trace = m.trace ++ events ∧ ∀ a i c, Event.unpin a i c ∈ events →
    0 < held a ∧ held' a = 0 ∧ ∃ b, m.block? a = some b ∧ b.chunks i = some c
  released : ∀ a b, m.block? a = some b → 0 < held a → held' a = 0 →
    ∀ events, m'.trace = m.trace ++ events → Released a b.contents m' events
  faults : ∀ f, Event.fault f ∈ m'.trace → Event.fault f ∈ m.trace
  good : RamblocksGood m.ramblockList → RamblocksGood m'.ramblockList
  failing : m.failing = none → m'.failing = none
  nextAddr : m'.nextAddr = m.nextAddr

theorem Since.refl (counted : Counted m held) : Since m held m held where
  counted := counted
  subset _ h := h
  contents _ _ := rfl
  blocks a b' h := ⟨b', h, .inl rfl⟩
  trace := ⟨[], by simp, by simp⟩
  released _ _ _ pos zero := absurd zero pos.ne'
  faults _ h := h
  good h := h
  failing h := h
  nextAddr := rfl

theorem Since.trans (first : Since m held m' held') (second : Since m' held' m'' held'') :
    Since m held m'' held'' where
  counted := second.counted
  subset a h := first.subset a (second.subset a h)
  contents a h := (second.contents a h).trans (first.contents a (second.subset a h))
  blocks a b'' h := by
    obtain ⟨b', hb', h₂⟩ := second.blocks a b'' h
    obtain ⟨b, hb, h₁⟩ := first.blocks a b' hb'
    refine ⟨b, hb, ?_⟩
    rcases h₂ with h₂ | h₂ <;> rcases h₁ with h₁ | h₁
    · exact .inl (h₂.trans h₁)
    · exact .inr (h₂.trans h₁)
    · rw [ramblockFreeChunks_contents, h₁] at h₂
      exact .inr h₂
    · rw [ramblockFreeChunks_contents, h₁, ← ramblockFreeChunks_contents,
        ramblockFreeChunks_twice] at h₂
      exact .inr h₂
  trace := by
    obtain ⟨events₁, h₁, unpin₁⟩ := first.trace
    obtain ⟨events₂, h₂, unpin₂⟩ := second.trace
    refine ⟨events₁ ++ events₂, by rw [h₂, h₁, List.append_assoc], fun a i c h => ?_⟩
    rcases List.mem_append.1 h with h | h
    · obtain ⟨hheld, hfree, hb⟩ := unpin₁ a i c h
      have := second.subset a
      exact ⟨hheld, by omega, hb⟩
    · obtain ⟨hheld, hfree, b', hb', hc⟩ := unpin₂ a i c h
      have hcontents := first.contents a hheld
      rw [hb'] at hcontents
      obtain ⟨b, hb, hbb'⟩ := Option.map_eq_some_iff.1 hcontents.symm
      refine ⟨first.subset a hheld, hfree, b, hb, ?_⟩
      exact (congrFun (congrArg Ramblock.chunks hbb') i).trans hc
  released a b hb pos zero events htrace := by
    obtain ⟨events₁, h₁, -⟩ := first.trace
    obtain ⟨events₂, h₂, -⟩ := second.trace
    obtain rfl : events₁ ++ events₂ = events := by
      rwa [h₂, h₁, List.append_assoc, List.append_cancel_left_eq] at htrace
    rcases Nat.eq_zero_or_pos (held' a) with dropped | kept
    · -- a registered block may be referenced and released once more
      obtain ⟨unpinned, left⟩ := first.released a b hb pos dropped events₁ h₁
      refine ⟨fun e he => List.mem_append_left _ (unpinned e he), fun b'' hb'' => ?_⟩
      obtain ⟨b', hb', same⟩ := second.blocks a b'' hb''
      obtain ⟨listed, freed⟩ := left b' hb'
      refine ⟨listed, ?_⟩
      rcases same with same | same
      · exact same.trans freed
      · rw [same, ramblockFreeChunks_contents, freed, ramblockFreeChunks_twice]
    · have contents := first.contents a kept
      rw [hb] at contents
      obtain ⟨b', hb', same⟩ := Option.map_eq_some_iff.1 contents
      obtain ⟨unpinned, left⟩ := second.released a b' hb' kept zero events₂ h₂
      rw [same] at unpinned left
      exact ⟨fun e he => List.mem_append_right _ (unpinned e he), left⟩
  faults f h := first.faults f (second.faults f h)
  good h := second.good (first.good h)
  failing h := second.failing (first.failing h)
  nextAddr := second.nextAddr.trans first.nextAddr

/-! ## The elementary steps -/

theorem Ramblock.mem_pinned {x i : ℕ} {c : Chunk} (h : Event.unpin x i c ∈ b.pinned) :
    x = b.addr ∧ b.chunks i = some c := by
  obtain ⟨j, -, hj⟩ := List.mem_filterMap.1 h
  obtain ⟨d, hd, heq⟩ := Option.map_eq_some_iff.1 hj
  cases heq
  exact ⟨rfl, hd⟩

theorem Ramblock.fault_not_mem_pinned (f : Fault) : Event.fault f ∉ b.pinned := by
  intro h
  obtain ⟨i, -, hi⟩ := List.mem_filterMap.1 h
  obtain ⟨c, -, heq⟩ := Option.map_eq_some_iff.1 hi
  cases heq

section Steps

variable (counted : Counted m held) {events : List Event}

include counted

theorem Counted.log_since (keeps : ∀ e ∈ events, e.Keeps) : Since m held (m.log events) held := by
  refine { Since.refl counted with
    counted := ⟨⟨counted.distinct.fresh, counted.distinct.nodup⟩, counted.count, counted.live⟩
    trace := ⟨events, rfl, fun a i c h => (keeps _ h).elim⟩
    released := fun _ _ _ pos zero => absurd zero pos.ne'
    faults := fun f h => (List.mem_append.1 h).elim id fun h => (keeps _ h).elim }

/-- An allocation may consume the refusal that is due. -/
theorem Counted.failing_since {f : Option ℕ} (none_of_none : m.failing = none → f = none) :
    Since m held { m with failing := f } held :=
  { Since.refl counted with
    counted := ⟨⟨counted.distinct.fresh, counted.distinct.nodup⟩, counted.count, counted.live⟩
    released := fun _ _ _ pos zero => absurd zero pos.ne'
    failing := none_of_none }

/-- One block changes and stays held, or its chunks are unpinned with its last reference and
it may be gone. -/
theorem Counted.replace_since {o : Option Ramblock} (hb : m.block? a = some b) (pos : 0 < held a)
    (lookup : ∀ x, m'.block? x = if x = a then o else m.block? x)
    (refines : Refines m.ramblockList m'.ramblockList) (hnext : m'.nextAddr = m.nextAddr)
    (hfailing : m'.failing = m.failing) (others : ∀ x, x ≠ a → held' x = held x)
    (count : ∀ c ∈ o, c.refCount = held' a)
    (change : (∃ c, o = some c ∧ c.contents = b.contents) ∧ 0 < held' a ∧ m'.trace = m.trace ∨
      (∀ c ∈ o, b.isStandalone = false ∧ c.contents = (ramblockFreeChunks b).contents) ∧
        held' a = 0 ∧ m'.trace = m.trace ++ b.pinned) : Since m held m' held' := by
  have here : m'.block? a = o := by rw [lookup, if_pos rfl]
  have there {x : ℕ} (hx : x ≠ a) : m'.block? x = m.block? x := by rw [lookup, if_neg hx]
  refine
    { counted := ⟨counted.distinct.of_refines refines hnext.ge, fun x c hc => ?_, fun x hpos => ?_⟩
      subset := fun x hpos => ?_
      contents := fun x hpos => ?_
      blocks := fun x c hc => ?_
      trace := ?_
      released := fun x c hc hpos hzero events htrace => ?_
      faults := fun f h => ?_
      good := refines.good
      failing := hfailing.trans
      nextAddr := hnext }
  · rcases eq_or_ne x a with rfl | hx
    · exact count c (here.symm.trans hc)
    · rw [others x hx]
      exact counted.count x c ((there hx).symm.trans hc)
  · rcases eq_or_ne x a with rfl | hx
    · rcases change with ⟨⟨c, rfl, -⟩, -⟩ | ⟨-, zero, -⟩
      · exact ⟨c, here⟩
      · omega
    · rw [there hx]
      exact counted.live x (others x hx ▸ hpos)
  · rcases eq_or_ne x a with rfl | hx
    · exact pos
    · exact others x hx ▸ hpos
  · rcases eq_or_ne x a with rfl | hx
    · rcases change with ⟨⟨c, rfl, same⟩, -⟩ | ⟨-, zero, -⟩
      · rw [here, hb, Option.map_some, Option.map_some, same]
      · omega
    · rw [there hx]
  · rcases eq_or_ne x a with rfl | hx
    · have mem : c ∈ o := here.symm.trans hc
      refine ⟨b, hb, ?_⟩
      rcases change with ⟨⟨c, rfl, same⟩, -⟩ | ⟨freed, -⟩
      · cases mem
        exact .inl same
      · exact .inr (freed c mem).2
    · exact ⟨c, (there hx).symm.trans hc, .inl rfl⟩
  · rcases change with ⟨-, -, htrace⟩ | ⟨-, zero, htrace⟩
    · exact ⟨[], by simpa using htrace, by simp⟩
    · refine ⟨b.pinned, htrace, fun x i c h => ?_⟩
      obtain ⟨rfl, hc⟩ := Ramblock.mem_pinned h
      obtain rfl := Mem.addr_of_block? hb
      exact ⟨pos, zero, b, hb, hc⟩
  · obtain rfl : x = a := by
      by_contra hx
      rw [others x hx] at hzero
      omega
    obtain rfl := Option.some.inj (hb.symm.trans hc)
    rcases change with ⟨-, stays, -⟩ | ⟨freed, -, pinned⟩
    · omega
    · rw [pinned, List.append_cancel_left_eq] at htrace
      exact ⟨fun e he => htrace ▸ he, fun c hc => freed c (here.symm.trans hc)⟩
  · rcases change with ⟨-, -, htrace⟩ | ⟨-, -, htrace⟩
    · rwa [htrace] at h
    · rw [htrace] at h
      exact (List.mem_append.1 h).resolve_right (Ramblock.fault_not_mem_pinned f)

theorem Counted.ref_since {block : Option ℕ} (live : ∀ a, block = some a → 0 < held a)
    (hheld : ∀ x, held' x = held x + holds block x) :
    Since m held (ramblockRef m block) held' := by
  cases block with
  | none =>
    obtain rfl : held = held' := by
      funext x
      simp [hheld]
    exact .refl counted
  | some a =>
    obtain ⟨b, hb⟩ := counted.live a (live a rfl)
    have hcount := counted.count a b hb
    have hnew : held' a = held a + 1 := by simp [hheld, holds]
    have others (x : ℕ) (hx : x ≠ a) : held' x = held x := by simp [hheld, holds, hx.symm]
    have refines := ramblockRef_refines m (some a)
    rw [ramblockRef, hb] at refines ⊢
    refine counted.replace_since hb (live a rfl) (Mem.block?_setBlock_of hb (by simp)) refines
      rfl rfl others ?_ (.inl ⟨⟨_, rfl, rfl⟩, by omega, rfl⟩)
    simp [hnew, hcount]

theorem Counted.deref_since {block : Option ℕ}
    (hheld : ∀ x, held x = held' x + holds block x) :
    Since m held (ramblockDeref m block) held' := by
  cases block with
  | none =>
    obtain rfl : held = held' := by
      funext x
      simp [hheld]
    exact .refl counted
  | some a =>
    have hpos : held a = held' a + 1 := by simp [hheld, holds]
    have others (x : ℕ) (hx : x ≠ a) : held' x = held x := by simp [hheld, holds, hx.symm]
    obtain ⟨b, hb⟩ := counted.live a (by omega)
    have hcount := counted.count a b hb
    have refines := ramblockDeref_refines m (some a)
    rw [ramblockDeref, hb] at refines ⊢
    dsimp only at refines ⊢
    rw [if_neg (by omega)] at refines ⊢
    by_cases hlast : b.refCount = 1
    · have hzero : held' a = 0 := by omega
      rw [if_pos hlast] at refines ⊢
      split_ifs at refines ⊢ with alone
      · exact counted.replace_since hb (by omega) (fun x => Mem.block?_removeBlock a) refines
          rfl rfl others (by simp) (.inr ⟨by simp, hzero, rfl⟩)
      · have listed : b.isStandalone = false := by simpa using alone
        have lookup (x : ℕ) := Mem.block?_setBlock_of (m := m.log b.pinned) (a := a)
          (f := fun b => { ramblockFreeChunks b with refCount := 0 }) hb
          (by simp [ramblockFreeChunks]) x
        refine counted.replace_since hb (by omega) lookup refines rfl rfl others ?_
          (.inr ⟨?_, hzero, rfl⟩)
        · simp [hzero]
        · simp [listed, Ramblock.contents]
    · rw [if_neg hlast] at refines ⊢
      refine counted.replace_since hb (by omega) (Mem.block?_setBlock_of hb (by simp)) refines
        rfl rfl others ?_ (.inl ⟨⟨_, rfl, rfl⟩, by omega, rfl⟩)
      simp [hcount, hpos]

end Steps

end Haxm
