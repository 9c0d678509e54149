/-
# One request from beginning to end

The parts of `memslot_set_mapping` put together. A request that cannot get its
block changes nothing. Otherwise it takes a reference to the block, passes over
the slots, tells the listeners and releases the reference and the copies of the
old slots; afterwards the references are exactly those of the slots.
-/

import Haxm.Memory.RamblockAlloc
import Haxm.Memory.SlotRefs
import Haxm.Memory.Snapshot

namespace Haxm

open Lib

variable {σ : Type*} {m m' : Mem} {held held' : ℕ → ℕ} {block : Option ℕ} {a npages uva flags : ℕ}
  {ret : ℤ} {sp sp' : GpaSpace σ}

/-! ## The block of a request -/

/-- What it means to have got hold of the block of a request: the references are
counted, the blocks there were are still there, and the block contains the
address asked for. -/
structure Acquired (m : Mem) (held : ℕ → ℕ) (npages uva : ℕ) (block : Option ℕ) (m' : Mem) :
    Prop where
  counted : Counted m' fun a => held a + holds block a
  kept : ∀ a b, m.block? a = some b → ∃ b', m'.block? a = some b' ∧ b'.contents = b.contents
  origin : ∀ a b', m'.block? a = some b' → (∃ b, m.block? a = some b ∧ b'.contents = b.contents) ∨
    block = some a ∧ m.block? a = none ∧
      b'.contents = { ramblockNew a uva (shl64 npages pgOrder4K) with isStandalone := true }
  inside : ∀ a, block = some a →
    ∃ b, m'.block? a = some b ∧ b.baseUva ≤ uva ∧ uva < b.baseUva + b.size
  trace : m'.trace = m.trace
  failing : m.failing = none → m'.failing = none

/-- The bookkeeping of a block of fewer than `2 ^ 31` pages always fits. -/
theorem standalone_fits (bound : npages < 2 ^ 31) :
    ramblockCountChunks (shl64 npages pgOrder4K) < 2 ^ 29 := by
  simp only [ramblockCountChunks, shl64, pgOrder4K, haxChunkSize, haxChunkShift, word]
  omega

theorem Counted.held_eq_zero (counted : Counted m held) (h : m.block? a = none) : held a = 0 := by
  by_contra hpos
  obtain ⟨b, hb⟩ := counted.live a (Nat.pos_of_ne_zero hpos)
  rw [h] at hb
  cases hb

theorem Mem.Distinct.block?_nextAddr (distinct : m.Distinct) : m.block? m.nextAddr = none := by
  cases h : m.block? m.nextAddr with
  | none => rfl
  | some b =>
    have haddr := Mem.addr_of_block? h
    have := distinct.fresh b (Mem.mem_of_block? h)
    omega

/-- The stand-alone block after it was added, marked and referenced. -/
theorem ramblockAddStandalone_cases (distinct : m.Distinct) (uva size : ℕ) :
    (∃ ret f n events, ret < 0 ∧ m.nextAddr ≤ n ∧ (m.failing = none → f = none) ∧
        (∀ e ∈ events, e ∈ ramblockOverruns size) ∧
        ramblockAddStandalone m uva size =
          (ret, none, { m with failing := f, nextAddr := n, trace := m.trace ++ events })) ∨
      ∃ m', ramblockAddStandalone m uva size = (0, some m.nextAddr, m') ∧ m'.Distinct ∧
        (∀ x, m'.block? x = if x = m.nextAddr then
          some { ramblockNew m.nextAddr uva size with isStandalone := true, refCount := 1 }
          else m.block? x) ∧
        m'.trace = m.trace ++ ramblockOverruns size ∧ (m.failing = none → m'.failing = none) := by
  rcases ramblockAdd_cases m uva size with ⟨ret, f, n, events, hret, hn, hf, hevents, h⟩ |
    ⟨list, f, hins, hf, h⟩
  · refine .inl ⟨ret, f, n, events, hret, hn, hf, hevents, ?_⟩
    rw [ramblockAddStandalone, h]
  · generalize hm₁ : ({ m with
      ramblockList := list
      failing := f
      nextAddr := m.nextAddr + 1
      trace := m.trace ++ ramblockOverruns size } : Mem) = m₁ at h
    obtain ⟨distinct₁, lookup₁⟩ := distinct.insert hins (by rw [← hm₁] : m₁.ramblockList = list)
      (by rw [← hm₁])
    have lookup₂ (x : ℕ) : (m₁.setBlock m.nextAddr
        fun b => { b with isStandalone := true }).block? x =
        if x = m.nextAddr then some { ramblockNew m.nextAddr uva size with isStandalone := true }
        else m.block? x := by
      rw [Mem.block?_setBlock (by simp), lookup₁]
      split_ifs <;> simp
    refine .inr ⟨_, by rw [ramblockAddStandalone, h], ?_, fun x => ?_, ?_, ?_⟩
    · refine Mem.Distinct.of_refines ?_ (ramblockRef_refines _ _) (ramblockRef_nextAddr _ _).ge
      exact distinct₁.of_refines (refines_setBlock _ _ (by simp)) le_rfl
    all_goals
      rw [ramblockRef, lookup₂, if_pos rfl]
    · rw [Mem.block?_setBlock (by simp), lookup₂]
      split_ifs
      · rfl
      · simp
    · simp [Mem.setBlock, ← hm₁]
    · simpa [Mem.setBlock, ← hm₁] using hf

theorem memslotBlock_failed (counted : Counted m held) (bound : npages < 2 ^ 31)
    (h : memslotBlock m npages uva flags = (ret, block, m')) (hret : ret ≠ 0) :
    ret < 0 ∧ Counted m' held ∧ m'.ramblockList = m.ramblockList ∧
      m'.trace = m.trace ∧ (m.failing = none → m'.failing = none) := by
  unfold memslotBlock at h
  split_ifs at h with hvalid hstandalone
  · have hfits := ramblockOverruns_eq_nil (standalone_fits bound)
    rcases ramblockAddStandalone_cases counted.distinct uva (shl64 npages pgOrder4K) with
      ⟨ret, f, n, events, hneg, hn, hf, hevents, h'⟩ | ⟨m₁, h', -⟩
    · obtain rfl : events = [] := by
        rw [hfits] at hevents
        exact List.eq_nil_iff_forall_not_mem.2 fun e he => by simpa using hevents e he
      rw [h'] at h
      simp only [if_pos hneg] at h
      cases h
      refine ⟨hneg, ⟨counted.distinct.of_refines (.refl _) hn, counted.count, counted.live⟩, rfl,
        by simp, hf⟩
    · rw [h'] at h
      cases h
      exact absurd rfl hret
  · split at h
    · cases h
      exact ⟨by decide, counted, rfl, rfl, id⟩
    · cases h
      exact absurd rfl hret
  · cases h
    exact absurd rfl hret

/-- One block has been added, or one that was there has got a reference. -/
theorem Counted.acquired {c : Ramblock} (counted : Counted m held) (distinct : m'.Distinct)
    (lookup : ∀ x, m'.block? x = if x = a then some c else m.block? x)
    (count : c.refCount = held a + 1)
    (origin : (∃ b, m.block? a = some b ∧ c.contents = b.contents) ∨ m.block? a = none ∧
      c.contents = { ramblockNew a uva (shl64 npages pgOrder4K) with isStandalone := true })
    (inside : c.baseUva ≤ uva ∧ uva < c.baseUva + c.size) (trace : m'.trace = m.trace)
    (failing : m.failing = none → m'.failing = none) :
    Acquired m held npages uva (some a) m' := by
  have here : m'.block? a = some c := by rw [lookup, if_pos rfl]
  have others {x : ℕ} (hx : x ≠ a) : held x + holds (some a) x = held x := by simp [holds, hx.symm]
  refine ⟨⟨distinct, fun x b hb => ?_, fun x hx => ?_⟩, fun x b hb => ?_, fun x b hb => ?_,
    ?_, trace, failing⟩
  · rw [lookup] at hb
    split_ifs at hb with hx
    · obtain rfl := Option.some.inj hb
      simp [holds, hx, count]
    · rw [others hx]
      exact counted.count x b hb
  · rw [lookup]
    split_ifs with h
    · exact ⟨c, rfl⟩
    · exact counted.live x (by rwa [others h] at hx)
  · rcases eq_or_ne x a with rfl | hx
    · rcases origin with ⟨b₀, hb₀, same⟩ | ⟨absent, -⟩
      · exact ⟨c, here, by rw [same, Option.some.inj (hb₀.symm.trans hb)]⟩
      · rw [absent] at hb
        cases hb
    · exact ⟨b, by rw [lookup, if_neg hx, hb], rfl⟩
  · rw [lookup] at hb
    split_ifs at hb with hx
    · subst hx
      obtain rfl := Option.some.inj hb
      exact origin.imp_right fun new => ⟨rfl, new⟩
    · exact .inl ⟨b, hb, rfl⟩
  · rintro _ ⟨⟩
    exact ⟨c, here, inside⟩

theorem memslotBlock_acquired (counted : Counted m held) (range : 0 < npages)
    (bound : npages < 2 ^ 31) (h : memslotBlock m npages uva flags = (0, block, m')) :
    Acquired m held npages uva block m' ∧ (block.isSome = memslotIsValid flags) := by
  unfold memslotBlock at h
  split_ifs at h with hvalid hstandalone
  · have hfits := ramblockOverruns_eq_nil (standalone_fits bound)
    rcases ramblockAddStandalone_cases counted.distinct uva (shl64 npages pgOrder4K) with
      ⟨ret, f, n, events, hret, -, -, -, h'⟩ | ⟨m₁, h', distinct', lookup, htrace, hfailing⟩
    · rw [h'] at h
      simp only [if_pos hret] at h
      exact absurd (congrArg Prod.fst h) hret.ne
    · rw [h'] at h
      cases h
      have absent := counted.distinct.block?_nextAddr
      have unheld := counted.held_eq_zero absent
      refine ⟨counted.acquired distinct' lookup (by simp [unheld]) (.inr ⟨absent, rfl⟩) ⟨le_rfl, ?_⟩
        (by rw [htrace, hfits, List.append_nil]) hfailing, by simp [hvalid]⟩
      simp only [ramblockNew, shl64, pgOrder4K, word]
      omega
  · split at h
    · cases h
    · rename_i b hfind
      cases h
      obtain ⟨hmem, hlow, hhigh⟩ := ramblockFind_some hfind
      have hb : m.block? b.addr = some b :=
        (Mem.block?_eq_some_iff counted.distinct).2 ⟨hmem, rfl⟩
      have distinct := counted.distinct.of_refines (ramblockRef_refines m (some b.addr))
        (ramblockRef_nextAddr m _).ge
      rw [ramblockRef, hb] at distinct ⊢
      refine ⟨counted.acquired distinct (Mem.block?_setBlock_of hb (by simp)) ?_ (.inl ⟨b, hb, rfl⟩)
        ⟨hlow, hhigh.trans_le (add64_le _ _)⟩ rfl id, by simp [hvalid]⟩
      rw [counted.count _ b hb]
  · cases h
    simp only [Bool.not_eq_true] at hvalid
    refine ⟨⟨by simpa using counted, fun a b hb => ⟨b, hb, rfl⟩, fun a b hb => .inl ⟨b, hb, rfl⟩,
      by simp, rfl, id⟩, by simp [hvalid]⟩

/-! ## Telling the listeners -/

/-- The callbacks of a listener neither unpin pages nor fault. -/
structure Listener.Keeps (l : Listener σ) : Prop where
  added : ∀ f, l.mappingAdded = some f → ∀ env s n u fl, ∀ e ∈ (f env s n u fl).2, e.Keeps
  removed : ∀ f, l.mappingRemoved = some f → ∀ env s n u fl, ∀ e ∈ (f env s n u fl).2, e.Keeps
  changed : ∀ f, l.mappingChanged = some f →
    ∀ env s n u fl u' fl', ∀ e ∈ (f env s n u fl u' fl').2, e.Keeps

def ListenersKeep (listeners : List (Listener σ)) : Prop := ∀ l ∈ listeners, l.Keeps

/-- What the events of a listener's callbacks have in common. -/
def Listener.Emits (E : Event → Prop) (l : Listener σ) : Prop :=
  (∀ f, l.mappingAdded = some f → ∀ env s n u fl, ∀ e ∈ (f env s n u fl).2, E e) ∧
    (∀ f, l.mappingRemoved = some f → ∀ env s n u fl, ∀ e ∈ (f env s n u fl).2, E e) ∧
    ∀ f, l.mappingChanged = some f → ∀ env s n u fl u' fl', ∀ e ∈ (f env s n u fl u' fl').2, E e

theorem ListenersKeep.emits {listeners : List (Listener σ)} (keeps : ListenersKeep listeners) :
    ∀ l ∈ listeners, l.Emits Event.Keeps :=
  fun l hl => ⟨(keeps l hl).added, (keeps l hl).removed, (keeps l hl).changed⟩

section Hear

variable {E : Event → Prop} {P : GpaSpace σ → Prop}
  (hear : ∀ (sp : GpaSpace σ) env events, (∀ e ∈ events, E e) → P sp →
    P { sp with mem := sp.mem.log events, env := env })

section Listeners

include hear

theorem call_all {τ : Type*} {callback : Option τ} {f : τ → σ → σ × List Event}
    (emits : ∀ c, callback = some c → ∀ env, ∀ e ∈ (f c env).2, E e) (h : P sp) :
    P (sp.call (callback.map f)) := by
  cases callback with
  | none => exact h
  | some c => exact hear _ _ _ (emits c rfl _) h

/-- A listener is told about the hole first, then about the slot. -/
theorem notifyListener_all {hole slot : Option MemslotMapping} {l : Listener σ} (emits : l.Emits E)
    (h : P sp) : P (notifyListener hole slot sp l) := by
  obtain ⟨added, removed, changed⟩ := emits
  have about_slot {sp₁ : GpaSpace σ} (h₁ : P sp₁) : P (notifyListener none slot sp₁ l) := by
    unfold notifyListener
    dsimp only
    split
    · exact h₁
    · split
      · exact call_all hear (fun f hf env => removed f hf env _ _ _ _) h₁
      · exact call_all hear (fun f hf env => changed f hf env _ _ _ _ _ _) h₁
      · exact h₁
  cases hole with
  | none => exact about_slot h
  | some hole =>
    by_cases hadded : hole.callback = .mappingAdded
    · have told : P (sp.call (l.mappingAdded.map fun f env =>
          f env hole.startGfn hole.npages hole.newUva (hole.newFlags % 256))) :=
        call_all hear (fun f hf env => added f hf env _ _ _ _) h
      simpa [notifyListener, hadded] using about_slot told
    · simpa [notifyListener, hadded] using about_slot h

theorem mappingNotifyListeners_all (hole slot : Option MemslotMapping)
    (emits : ∀ l ∈ sp.listenerList, l.Emits E) (h : P sp) :
    P (mappingNotifyListeners sp hole slot) := by
  unfold mappingNotifyListeners
  generalize sp.listenerList = ls at emits
  induction ls generalizing sp with
  | nil => exact h
  | cons l ls ih =>
    exact ih (notifyListener_all hear (emits l (by simp)) h) fun l hl => emits l (by simp [hl])

end Listeners

/-- Callbacks have no way to change the list of listeners. -/
@[simp] theorem mappingNotifyListeners_listeners (sp : GpaSpace σ)
    (hole slot : Option MemslotMapping) :
    (mappingNotifyListeners sp hole slot).listenerList = sp.listenerList := by
  refine mappingNotifyListeners_all (E := fun _ => True)
    (P := fun sp' => sp'.listenerList = sp.listenerList) (fun _ _ _ _ h => h) hole slot ?_ rfl
  exact fun _ _ => ⟨by simp, by simp, by simp⟩

variable (touch : ∀ (sp : GpaSpace σ) block, P sp → P { sp with mem := sp.mem.touch block })
  (release : ∀ (sp : GpaSpace σ) block, P sp → P { sp with mem := ramblockDeref sp.mem block })

include hear touch release

theorem mappingBroadcastLoop_all (mapping hole : MemslotMapping) (dest : Memslot)
    (isValid isFirst : Bool) (snapshot : List Memslot)
    (emits : ∀ l ∈ sp.listenerList, l.Emits E) (h : P sp) :
    P (mappingBroadcastLoop mapping dest isValid sp hole isFirst snapshot).1 ∧
      (mappingBroadcastLoop mapping dest isValid sp hole isFirst snapshot).1.listenerList =
        sp.listenerList := by
  induction snapshot generalizing sp hole isFirst with
  | nil => exact ⟨h, rfl⟩
  | cons src rest ih =>
    rw [mappingBroadcastLoop]
    generalize hsp₀ : (if mappingIsChanged dest src isValid (isFirst || rest.isEmpty) = true
      then { sp with mem := sp.mem.touch src.block } else sp) = sp₀
    obtain ⟨h₀, hl₀⟩ : P sp₀ ∧ sp₀.listenerList = sp.listenerList := by
      rw [← hsp₀]
      split_ifs
      · exact ⟨touch sp src.block h, rfl⟩
      · exact ⟨h, rfl⟩
    rw [← hl₀] at emits ⊢
    have told (hole slot : Option MemslotMapping) :=
      release _ src.block (mappingNotifyListeners_all hear hole slot emits h₀)
    refine And.imp_right (fun hl => hl.trans (mappingNotifyListeners_listeners _ _ _))
      (ih _ _ ?_ (told _ _))
    simpa using emits

/-- What hearing of changes and releasing copies keep is kept by the broadcast. -/
theorem mappingBroadcast_all (mapping : MemslotMapping) (dest : Memslot) (snapshot : List Memslot)
    (emits : ∀ l ∈ sp.listenerList, l.Emits E) (h : P sp) :
    P (mappingBroadcast sp mapping dest snapshot).1 := by
  unfold mappingBroadcast
  split_ifs
  · exact h
  · exact mappingNotifyListeners_all hear _ _ emits h
  · obtain ⟨looped, hl⟩ := mappingBroadcastLoop_all hear touch release mapping
      { startGfn := mapping.startGfn } dest (memslotIsValid mapping.newFlags) true snapshot emits h
    dsimp only
    split_ifs
    · exact mappingNotifyListeners_all hear _ _ (by rwa [hl]) looped
    · exact looped

end Hear

theorem mappingBroadcast_memslotList (sp : GpaSpace σ) (mapping : MemslotMapping) (dest : Memslot)
    (snapshot : List Memslot) :
    (mappingBroadcast sp mapping dest snapshot).1.memslotList = sp.memslotList := by
  refine mappingBroadcast_all (E := fun _ => True)
    (P := fun sp' => sp'.memslotList = sp.memslotList) (fun _ _ _ _ h => h) (fun _ _ h => h)
    (fun _ _ h => h) mapping dest snapshot ?_ rfl
  exact fun _ _ => ⟨by simp, by simp, by simp⟩

/-- What telling listeners leaves alone, and how it may change memory. -/
structure Told (held : ℕ → ℕ) (sp sp' : GpaSpace σ) (held' : ℕ → ℕ) : Prop where
  since : Since sp.mem held sp'.mem held'
  memslotList : sp'.memslotList = sp.memslotList
  listenerList : sp'.listenerList = sp.listenerList
  prot : sp'.prot = sp.prot

theorem Told.refl (counted : Counted sp.mem held) : Told held sp sp held :=
  ⟨.refl counted, rfl, rfl, rfl⟩

theorem Told.trans {sp₁ sp₂ sp₃ : GpaSpace σ} {held₁ held₂ held₃ : ℕ → ℕ}
    (first : Told held₁ sp₁ sp₂ held₂) (second : Told held₂ sp₂ sp₃ held₃) :
    Told held₁ sp₁ sp₃ held₃ :=
  ⟨first.since.trans second.since, second.memslotList.trans first.memslotList,
    second.listenerList.trans first.listenerList, second.prot.trans first.prot⟩

theorem mappingNotifyListeners_told (hole slot : Option MemslotMapping)
    (keeps : ListenersKeep sp.listenerList) (counted : Counted sp.mem held) :
    Told held sp (mappingNotifyListeners sp hole slot) held := by
  refine mappingNotifyListeners_all (P := fun sp' => Told held sp sp' held)
    (fun sp' env events keep told => ?_) hole slot keeps.emits (.refl counted)
  exact { told with since := told.since.trans (told.since.counted.log_since keep) }

theorem touch_eq (counted : Counted m held) (h : block = some a) (hpos : 0 < held a) :
    m.touch block = m := by
  obtain ⟨b, hb⟩ := counted.live a hpos
  simp [Mem.touch, h, hb]

/-- Releasing one of the copies. -/
theorem Told.release {src : Memslot} {rest : List Memslot}
    (told : Told held sp sp' fun a => refs (src :: rest) a + held' a) :
    Told held sp { sp' with mem := ramblockDeref sp'.mem src.block }
      fun a => refs rest a + held' a := by
  refine { told with since := told.since.trans (told.since.counted.deref_since fun a => ?_) }
  simp
  omega

theorem mappingBroadcastLoop_told {mapping hole hole' : MemslotMapping} {dest : Memslot}
    {isValid isFirst : Bool} {snapshot : List Memslot} (keeps : ListenersKeep sp.listenerList)
    (counted : Counted sp.mem fun a => refs snapshot a + held a)
    (live : ∀ s ∈ snapshot, s.block.isSome)
    (h : mappingBroadcastLoop mapping dest isValid sp hole isFirst snapshot = (sp', hole')) :
    Told (fun a => refs snapshot a + held a) sp sp' held := by
  induction snapshot generalizing sp hole isFirst with
  | nil =>
    cases h
    simp only [refs_nil, zero_add] at counted ⊢
    exact .refl counted
  | cons src rest ih =>
    obtain ⟨a, ha⟩ := Option.isSome_iff_exists.1 (live src (by simp))
    have touched : sp.mem.touch src.block = sp.mem :=
      touch_eq counted ha (by simp [holds, ha])
    simp only [mappingBroadcastLoop, touched, ite_self] at h
    have told := (mappingNotifyListeners_told
      (some (mappingCalcHole mapping src isValid (isFirst || rest.isEmpty) hole))
      (some (mappingCalcSlot mapping src (sp.mem.baseUva src.block) isValid
        (isFirst || rest.isEmpty) (mappingIsChanged dest src isValid (isFirst || rest.isEmpty))))
      keeps counted).release
    refine told.trans (ih ?_ told.since.counted (fun s hs => live s (by simp [hs])) h)
    rw [told.listenerList]
    exact keeps

theorem mappingBroadcast_told {mapping : MemslotMapping} {dest : Memslot}
    {snapshot left : List Memslot} (keeps : ListenersKeep sp.listenerList)
    (counted : Counted sp.mem fun a => refs snapshot a + held a)
    (live : ∀ s ∈ snapshot, s.block.isSome)
    (h : mappingBroadcast sp mapping dest snapshot = (sp', left)) :
    Told (fun a => refs snapshot a + held a) sp sp' fun a => refs left a + held a := by
  unfold mappingBroadcast at h
  split_ifs at h with hlisteners hempty
  · cases h
    exact .refl counted
  · obtain rfl := List.isEmpty_iff.1 hempty
    cases h
    exact mappingNotifyListeners_told _ _ keeps counted
  · rcases hloop : mappingBroadcastLoop mapping dest (memslotIsValid mapping.newFlags) sp
      { startGfn := mapping.startGfn } true snapshot with ⟨sp₁, hole⟩
    have told := mappingBroadcastLoop_told keeps counted live hloop
    have keeps₁ : ListenersKeep sp₁.listenerList := by
      rw [told.listenerList]
      exact keeps
    simp only [hloop] at h
    split_ifs at h
    · cases h
      simp only [refs_nil, zero_add]
      exact told.trans (mappingNotifyListeners_told _ _ keeps₁ told.since.counted)
    · cases h
      simp only [refs_nil, zero_add]
      exact told

theorem memslotListClear_since {slots : List Memslot}
    (counted : Counted m fun a => refs slots a + held a) :
    Since m (fun a => refs slots a + held a) (memslotListClear m slots) held := by
  induction slots generalizing m with
  | nil =>
    simp only [refs_nil, zero_add] at counted ⊢
    exact .refl counted
  | cons s rest ih =>
    have released : Since m (fun a => refs (s :: rest) a + held a) (ramblockDeref m s.block)
        fun a => refs rest a + held a :=
      counted.deref_since fun a => by
        simp
        omega
    exact released.trans (ih released.counted)

/-! ## The whole request -/

/-- What a request that got its block does, with the points in between: `m₁` has
the block, `m₂` is memory after the pass, `sp₁` the space after the listeners
were told and `left` the copies that are still to be released. -/
structure Carried (sp : GpaSpace σ) (startGfn npages uva flags : ℕ) (ret : ℤ) (sp' : GpaSpace σ)
    (block : Option ℕ) (dest : Memslot) (m₁ m₂ : Mem) (list snapshot left : List Memslot)
    (sp₁ : GpaSpace σ) : Prop where
  range : 0 < npages
  acquired : memslotBlock sp.mem npages uva flags = (0, block, m₁)
  dest_eq : dest = memslotDest m₁ block startGfn npages uva flags
  passed : memslotPass m₁ (memslotIsValid flags) dest sp.memslotList = (ret, m₂, list, snapshot)
  told : (if ret = 0 ∧ (sp.memslotList ≠ [] ∨ memslotIsValid flags) then
      mappingBroadcast { sp with mem := m₂, memslotList := list }
        { startGfn := startGfn, npages := npages, newUva := uva, newFlags := flags } dest snapshot
      else ({ sp with mem := m₂, memslotList := list }, snapshot)) = (sp₁, left)
  released : sp' = { sp₁ with mem := memslotListClear (ramblockDeref sp₁.mem block) left }

/-- How a request ends. -/
inductive SetMapping (sp : GpaSpace σ) (startGfn npages uva flags : ℕ) : ℤ → GpaSpace σ → Prop
  | empty (zero : npages = 0) : SetMapping sp startGfn npages uva flags (-EINVAL) sp
  | refused {ret : ℤ} {block : Option ℕ} {m : Mem} (range : 0 < npages)
      (answer : memslotBlock sp.mem npages uva flags = (ret, block, m)) (failed : ret ≠ 0) :
      SetMapping sp startGfn npages uva flags ret { sp with mem := m }
  | carried {ret : ℤ} {sp' : GpaSpace σ} {block : Option ℕ} {dest m₁ m₂ list snapshot left sp₁}
      (carried : Carried sp startGfn npages uva flags ret sp' block dest m₁ m₂ list snapshot
        left sp₁) :
      SetMapping sp startGfn npages uva flags ret sp'

theorem memslotSetMapping_step {startGfn : ℕ}
    (h : memslotSetMapping sp startGfn npages uva flags = (ret, sp')) :
    SetMapping sp startGfn npages uva flags ret sp' := by
  unfold memslotSetMapping at h
  by_cases hzero : npages = 0
  · rw [if_pos hzero] at h
    cases h
    exact .empty hzero
  · rw [if_neg hzero] at h
    have range := Nat.pos_of_ne_zero hzero
    rcases hblock : memslotBlock sp.mem npages uva flags with ⟨ret₀, block, m₁⟩
    simp only [hblock] at h
    by_cases hret : ret₀ = 0
    · subst hret
      rcases hpass : memslotPass m₁ (memslotIsValid flags)
        (memslotDest m₁ block startGfn npages uva flags) sp.memslotList with
        ⟨ret₁, m₂, list, snapshot⟩
      simp only [hpass, ne_eq, not_true_eq_false, if_false] at h
      cases h
      exact .carried ⟨range, hblock, rfl, hpass, rfl, rfl⟩
    · rw [if_pos hret] at h
      cases h
      exact .refused range hblock hret

section Carried

variable {startGfn : ℕ} {dest : Memslot} {m₁ m₂ : Mem} {list snapshot left : List Memslot}
  {sp₁ : GpaSpace σ}
  (carried : Carried sp startGfn npages uva flags ret sp' block dest m₁ m₂ list snapshot left sp₁)
  (keeps : ListenersKeep sp.listenerList) (counted : Counted sp.mem (refs sp.memslotList))
  (blocks : ∀ s ∈ sp.memslotList, s.block.isSome) (bound : npages < 2 ^ 31)

include carried

theorem Carried.dest_block : dest.block = block := by rw [carried.dest_eq]; rfl

theorem Carried.dest_baseGfn : dest.baseGfn = startGfn := by rw [carried.dest_eq]; rfl

theorem Carried.dest_endGfn : dest.endGfn = startGfn + npages := by rw [carried.dest_eq]; rfl

include counted bound

theorem Carried.is_acquired : Acquired sp.mem (refs sp.memslotList) npages uva block m₁ :=
  (memslotBlock_acquired counted carried.range bound carried.acquired).1

theorem Carried.block_isSome : block.isSome = memslotIsValid flags :=
  (memslotBlock_acquired counted carried.range bound carried.acquired).2

theorem Carried.pass_since :
    Since m₁ (fun a => refs sp.memslotList a + holds block a) m₂
      fun a => refs list a + refs snapshot a + holds block a := by
  have acquired := (carried.is_acquired counted bound).counted
  have hblock := carried.dest_block
  rw [← hblock] at acquired ⊢
  exact memslotPass_since acquired carried.passed

include keeps blocks

/-- After the request, the references are those of the slots. -/
theorem Carried.since :
    Since m₁ (fun a => refs sp.memslotList a + holds block a) sp'.mem (refs list) ∧
      sp'.memslotList = list ∧ sp'.listenerList = sp.listenerList ∧ sp'.prot = sp.prot := by
  have passed := carried.pass_since counted bound
  have live (s : Memslot) (hs : s ∈ snapshot) : s.block.isSome :=
    blocks s (memslotPass_snapshot_subset carried.passed hs)
  have hheld : (fun a => refs list a + refs snapshot a + holds block a) =
      fun a => refs snapshot a + (refs list a + holds block a) := by
    funext a
    omega
  rw [hheld] at passed
  have told : Told (fun a => refs snapshot a + (refs list a + holds block a))
      { sp with mem := m₂, memslotList := list } sp₁
      fun a => refs left a + (refs list a + holds block a) := by
    have htold := carried.told
    split_ifs at htold
    · exact mappingBroadcast_told keeps passed.counted live htold
    · cases htold
      exact .refl passed.counted
  have released : Since sp₁.mem (fun a => refs left a + (refs list a + holds block a))
      (memslotListClear (ramblockDeref sp₁.mem block) left) (refs list) := by
    have dropped : Since sp₁.mem (fun a => refs left a + (refs list a + holds block a))
        (ramblockDeref sp₁.mem block) fun a => refs left a + refs list a :=
      told.since.counted.deref_since fun a => by omega
    exact dropped.trans (memslotListClear_since dropped.counted)
  rw [carried.released]
  exact ⟨(passed.trans told.since).trans released, told.memslotList, told.listenerList, told.prot⟩

end Carried

end Haxm
