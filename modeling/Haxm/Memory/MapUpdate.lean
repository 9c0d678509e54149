/-
# Requests as updates of a map

Abstractly, the guest's memory map takes each frame to a host address and a
read-only bit, and a request overwrites or erases a range of it. This is what
`memslot_set_mapping` does to the map that `memslot_find` reads from the slots,
in any state that user space can bring about, with exactly one exception: a
request whose first slot lies inside its range, is of another type and is not
replaced by a slot behind the range. Then that slot is stretched over the range
and keeps its block, so that the range ends up wherever that block and the
smaller of the two offsets happen to lead.
-/

import Haxm.Memory.Request

namespace Haxm

open Lib

variable {σ : Type*}

/-! ## What user space can do -/

/-- The state after `gpa_space_init` and the registration of listeners. -/
def GpaSpace.init (failing : Option ℕ) (listeners : List (Listener σ)) (env : σ) : GpaSpace σ where
  mem := Mem.init failing
  memslotList := []
  listenerList := listeners
  prot := ⟨fun _ => 0, 0⟩
  env := env

/-- `handle_alloc_ram`. -/
def handleAllocRam (sp : GpaSpace σ) (startUva size : ℕ) : ℤ × GpaSpace σ :=
  if startUva = 0 then (-EINVAL, sp)
  else if size = 0 then (-EINVAL, sp)
  else
    match ramblockAdd sp.mem startUva size with
    | (ret, _, m) => (ret, { sp with mem := m })

def Event.isFault : Event → Bool
  | .fault _ => true
  | _ => false

/-- Nothing has happened so far that C leaves undefined. -/
def Mem.Sound (m : Mem) : Prop := ∀ e ∈ m.trace, e.isFault = false

instance (m : Mem) : Decidable m.Sound := inferInstanceAs (Decidable (∀ e ∈ m.trace, _))

inductive SlotInput
  | addRamblock (startUva size : ℕ)
  | setMapping (startGfn npages uva flags : ℕ)

def slotStep (sp : GpaSpace σ) : SlotInput → GpaSpace σ
  | .addRamblock startUva size => (handleAllocRam sp startUva size).2
  | .setMapping startGfn npages uva flags => (memslotSetMapping sp startGfn npages uva flags).2

/-- Arguments are 64-bit words, frame numbers are bounded as `handle_set_ram`
requires, requests succeed, and no undefined behaviour occurs. -/
def SlotAllowed (sp : GpaSpace σ) : SlotInput → Prop
  | .addRamblock startUva size =>
    startUva < word ∧ size < word ∧ (handleAllocRam sp startUva size).2.mem.Sound
  | .setMapping startGfn npages uva flags =>
    uva < word ∧ startGfn + npages < 2 ^ 31 ∧ (memslotSetMapping sp startGfn npages uva flags).1 = 0

/-! ## The invariant -/

/-- What every request preserves. -/
structure SpaceOk (sp : GpaSpace σ) : Prop where
  counted : Counted sp.mem (refs sp.memslotList)
  ordered : SlotsOrdered sp.memslotList
  placed : ∀ gfn t, slotPieces.Maps sp.memslotList gfn t →
    gfn < 2 ^ 31 ∧ t.2.1 < 2 ^ 51 ∧ t.1.isSome
  blocks : ∀ a b, sp.mem.block? a = some b → b.size < 2 ^ 50
  keeps : ListenersKeep sp.listenerList

variable {sp sp' : GpaSpace σ} {ret : ℤ} {startGfn npages uva flags : ℕ} {s : Memslot}

/-- The first page of a slot stands for the slot. -/
theorem SpaceOk.slot_placed (ok : SpaceOk sp) (hs : s ∈ sp.memslotList) :
    s.baseGfn < 2 ^ 31 ∧ s.offsetWithinBlock < 2 ^ 51 ∧ s.block.isSome := by
  have nonempty := ok.ordered.2 s hs
  simpa [Memslot.target] using
    ok.placed s.baseGfn (s.target s.baseGfn) ⟨s, hs, ⟨le_rfl, nonempty⟩, rfl⟩

theorem SpaceOk.small (ok : SpaceOk sp) (hs : s ∈ sp.memslotList) : s.Small := by
  have := ok.slot_placed hs
  exact ⟨by omega, by omega⟩

theorem GpaSpace.init_ok {listeners : List (Listener σ)} (keeps : ListenersKeep listeners)
    (failing : Option ℕ) (env : σ) : SpaceOk (GpaSpace.init failing listeners env) where
  counted := ⟨⟨by simp [GpaSpace.init, Mem.init], by simp [GpaSpace.init, Mem.init]⟩,
    by simp [GpaSpace.init, Mem.init, Mem.block?], by simp [GpaSpace.init]⟩
  ordered := ordered_nil
  placed := by simp [GpaSpace.init]
  blocks := by simp [GpaSpace.init, Mem.init, Mem.block?]
  keeps := keeps

/-- An addition without faults has room for its bookkeeping, which bounds the
size of the block. -/
theorem size_lt_of_sound {m m' : Mem} {size : ℕ} (sound : m'.Sound)
    (htrace : m'.trace = m.trace ++ ramblockOverruns size) : size < 2 ^ 50 := by
  have room : ramblockCountChunks size * sizeofChunkPointer ≤
      ramblockCountChunks size * sizeofChunkPointer % 2 ^ 32 := by
    by_contra hover
    have overrun : Event.fault .overrun ∈ m'.trace := by
      rw [htrace, ramblockOverruns, overrunOf, if_neg hover]
      simp
    simpa [Event.isFault] using sound _ overrun
  have hmod := Nat.mod_lt (ramblockCountChunks size * sizeofChunkPointer)
    (by norm_num : 0 < 2 ^ 32)
  have hlt := room.trans_lt hmod
  simp only [ramblockCountChunks, sizeofChunkPointer, haxChunkSize, haxChunkShift] at hlt
  omega

/-- The blocks after a request to add one: those there were, and the new one if it
could be added. -/
theorem handleAllocRam_cases {held : ℕ → ℕ} (counted : Counted sp.mem held) (startUva size : ℕ) :
    ∃ m, (handleAllocRam sp startUva size).2 = { sp with mem := m } ∧ Counted m held ∧
      (∃ events, m.trace = sp.mem.trace ++ events ∧ ∀ e ∈ events, e = .fault .overrun) ∧
      ((∀ a, m.block? a = sp.mem.block? a) ∨
        m.trace = sp.mem.trace ++ ramblockOverruns size ∧ held sp.mem.nextAddr = 0 ∧
          ∀ a, m.block? a = if a = sp.mem.nextAddr
            then some (ramblockNew sp.mem.nextAddr startUva size) else sp.mem.block? a) := by
  have distinct := counted.distinct
  have overruns (e : Event) (he : e ∈ ramblockOverruns size) : e = .fault .overrun := by
    unfold ramblockOverruns overrunOf at he
    split_ifs at he <;> simp_all
  unfold handleAllocRam
  split_ifs
  · exact ⟨sp.mem, rfl, counted, ⟨[], by simp, by simp⟩, .inl fun _ => rfl⟩
  · exact ⟨sp.mem, rfl, counted, ⟨[], by simp, by simp⟩, .inl fun _ => rfl⟩
  · rcases ramblockAdd_cases sp.mem startUva size with ⟨ret, f, n, events, _, hn, _, hevents, h⟩ |
      ⟨list, f, hins, _, h⟩
    · rw [h]
      exact ⟨_, rfl, ⟨distinct.of_refines (.refl _) hn, counted.count, counted.live⟩,
        ⟨events, rfl, fun e he => overruns e (hevents e he)⟩, .inl fun _ => rfl⟩
    · rw [h]
      refine ⟨_, rfl, ?_⟩
      generalize hm : ({ sp.mem with
        ramblockList := list
        failing := f
        nextAddr := sp.mem.nextAddr + 1
        trace := sp.mem.trace ++ ramblockOverruns size } : Mem) = m
      obtain ⟨distinct', lookup⟩ := distinct.insert hins (by rw [← hm] : m.ramblockList = list)
        (by rw [← hm])
      have unheld := counted.held_eq_zero distinct.block?_nextAddr
      refine ⟨⟨distinct', fun a b hb => ?_, fun a ha => ?_⟩, ⟨_, by rw [← hm], overruns⟩,
        .inr ⟨by rw [← hm], unheld, lookup⟩⟩
      · rw [lookup] at hb
        split_ifs at hb with hnew
        · obtain rfl := Option.some.inj hb
          rw [hnew]
          exact unheld.symm
        · exact counted.count a b hb
      · obtain ⟨b, hb⟩ := counted.live a ha
        refine ⟨b, ?_⟩
        rw [lookup, if_neg, hb]
        rintro rfl
        omega

theorem handleAllocRam_ok {startUva size : ℕ} (ok : SpaceOk sp)
    (sound : (handleAllocRam sp startUva size).2.mem.Sound) :
    SpaceOk (handleAllocRam sp startUva size).2 := by
  obtain ⟨m, h, counted, -, blocks⟩ := handleAllocRam_cases ok.counted startUva size
  rw [h] at sound ⊢
  refine { ok with counted := counted, blocks := fun a b hb => ?_ }
  rcases blocks with same | ⟨htrace, -, lookup⟩
  · rw [same] at hb
    exact ok.blocks a b hb
  · rw [lookup] at hb
    split_ifs at hb
    · obtain rfl := Option.some.inj hb
      exact size_lt_of_sound sound htrace
    · exact ok.blocks a b hb

/-! ## The slot a request asks for -/

/-- The slot of a request, as a function of the state before it. -/
def requestSlot (sp : GpaSpace σ) (startGfn npages uva flags : ℕ) : Memslot :=
  memslotDest (memslotBlock sp.mem npages uva flags).2.2 (memslotBlock sp.mem npages uva flags).2.1
    startGfn npages uva flags

section Carried

variable {block : Option ℕ} {dest : Memslot} {m₁ m₂ : Mem} {list snapshot left : List Memslot}
  {sp₁ : GpaSpace σ}
  (carried : Carried sp startGfn npages uva flags ret sp' block dest m₁ m₂ list snapshot left sp₁)
  (ok : SpaceOk sp) (bound : startGfn + npages < 2 ^ 31) (uva_lt : uva < word)

include carried

theorem Carried.dest_eq_requestSlot : dest = requestSlot sp startGfn npages uva flags := by
  rw [carried.dest_eq, requestSlot, carried.acquired]

include ok bound

theorem Carried.slots_since :
    Since m₁ (fun a => refs sp.memslotList a + holds block a) sp'.mem (refs list) ∧
      sp'.memslotList = list ∧ sp'.listenerList = sp.listenerList ∧ sp'.prot = sp.prot :=
  carried.since ok.keeps ok.counted (fun s hs => (ok.slot_placed hs).2.2) (by omega)

/-- Blocks are still bounded once the request has its own. -/
theorem Carried.size_lt {a : ℕ} {b : Ramblock} (hb : m₁.block? a = some b) : b.size < 2 ^ 50 := by
  have acquired := carried.is_acquired ok.counted (by omega)
  rcases acquired.origin a b hb with ⟨b₀, hb₀, hsame⟩ | ⟨-, -, hnew⟩
  · have hsize := congrArg Ramblock.size hsame
    exact hsize.trans_lt (ok.blocks a b₀ hb₀)
  · have hsize := congrArg Ramblock.size hnew
    simp only [Ramblock.contents, ramblockNew, shl64, pgOrder4K, word] at hsize
    omega

include uva_lt

/-- The address asked for is where the slot of the request points to. -/
theorem Carried.dest_offset {a : ℕ} (ha : block = some a) :
    m₁.baseUva block + dest.offsetWithinBlock = uva ∧ dest.offsetWithinBlock < 2 ^ 50 := by
  have acquired := carried.is_acquired ok.counted (by omega)
  obtain ⟨b, hb, hlow, hhigh⟩ := acquired.inside a ha
  have hsize := carried.size_lt ok bound hb
  have hbase : m₁.baseUva block = b.baseUva := by simp [Mem.baseUva, ha, hb]
  have hoffset : dest.offsetWithinBlock = uva - b.baseUva := by
    rw [carried.dest_eq, memslotDest, hbase, ha]
    exact sub64_of_le hlow uva_lt
  omega

theorem Carried.dest_small : dest.Small := by
  have hbase := carried.dest_baseGfn
  cases hblock : block with
  | none =>
    have hoffset : dest.offsetWithinBlock = 0 := by rw [carried.dest_eq, hblock]; rfl
    exact ⟨by omega, by omega⟩
  | some a =>
    have := (carried.dest_offset ok bound uva_lt hblock).2
    exact ⟨by omega, by omega⟩

theorem Carried.updated (succeeds : ret = 0) :
    slotPieces.Updated startGfn (startGfn + npages)
      (mapping (memslotIsValid flags) (memslotEffective dest sp.memslotList)) sp.memslotList
      sp'.memslotList := by
  have range := carried.range
  have hpass := carried.passed
  rw [succeeds] at hpass
  have small := carried.dest_small ok bound uva_lt
  have hend := carried.dest_endGfn
  have hbase := carried.dest_baseGfn
  rw [(carried.slots_since ok bound).2.1, ← hend, ← hbase]
  exact memslotPass_updated (by omega) small (fun s hs => ok.small hs) ok.ordered hpass

end Carried

/-- The range ends up in the block of the request or in the block of an old slot,
and not behind the offset of the request. -/
theorem memslotEffective_cases (dest : Memslot) (list : List Memslot) :
    memslotEffective dest list = dest ∨
      ∃ s ∈ list, memslotEffective dest list = memslotStretched dest s := by
  unfold memslotEffective memslotContent
  split
  · exact .inl rfl
  · rename_i s hfind
    split_ifs
    · exact .inl rfl
    · exact .inr ⟨s, List.mem_of_find?_eq_some hfind, rfl⟩
    · exact .inl rfl

theorem Carried.effective_placed {block : Option ℕ} {dest : Memslot} {m₁ m₂ : Mem}
    {list snapshot left : List Memslot} {sp₁ : GpaSpace σ}
    (carried : Carried sp startGfn npages uva flags ret sp' block dest m₁ m₂ list snapshot left sp₁)
    (ok : SpaceOk sp) (bound : startGfn + npages < 2 ^ 31) (uva_lt : uva < word)
    (valid : memslotIsValid flags = true) :
    (memslotEffective dest sp.memslotList).offsetWithinBlock < 2 ^ 50 ∧
      (memslotEffective dest sp.memslotList).block.isSome := by
  have hsome := (carried.block_isSome ok.counted (by omega)).trans valid
  obtain ⟨a, ha⟩ := Option.isSome_iff_exists.1 hsome
  have hoffset := (carried.dest_offset ok bound uva_lt ha).2
  rcases memslotEffective_cases dest sp.memslotList with heff | ⟨s, hs, heff⟩
  · rw [heff, carried.dest_block]
    exact ⟨hoffset, hsome⟩
  · rw [heff]
    exact ⟨(min_le_right _ _).trans_lt hoffset, (ok.slot_placed hs).2.2⟩

/-- A request that succeeds, or that fails without having changed the slots,
preserves the invariant. -/
theorem memslotSetMapping_ok (ok : SpaceOk sp) (bound : startGfn + npages < 2 ^ 31)
    (uva_lt : uva < word) (h : memslotSetMapping sp startGfn npages uva flags = (ret, sp'))
    (hret : ret = 0 ∨ sp'.memslotList = sp.memslotList) : SpaceOk sp' := by
  cases memslotSetMapping_step h with
  | empty => exact ok
  | refused _ answer failed =>
    obtain ⟨-, counted, hlist, -⟩ := memslotBlock_failed ok.counted (by omega) answer failed
    refine { ok with counted := counted, blocks := fun a b hb => ok.blocks a b ?_ }
    rwa [Mem.block?, hlist] at hb
  | carried carried =>
    obtain ⟨since, hlist, hlisteners, -⟩ := carried.slots_since ok bound
    have blocks (a : ℕ) (b : Ramblock) (hb : sp'.mem.block? a = some b) : b.size < 2 ^ 50 := by
      obtain ⟨b₁, hb₁, hsame⟩ := since.blocks a b hb
      have hsize : b.size = b₁.size := by
        rcases hsame with hsame | hsame
        · simpa using congrArg Ramblock.size hsame
        · simpa using congrArg Ramblock.size hsame
      rw [hsize]
      exact carried.size_lt ok bound hb₁
    rw [← hlist] at since
    refine ⟨since.counted, ?_, ?_, blocks, by rw [hlisteners]; exact ok.keeps⟩
    · rcases hret with rfl | hret
      · exact (carried.updated ok bound uva_lt rfl).ordered
      · rw [hret]
        exact ok.ordered
    · intro gfn t ht
      rcases hret with rfl | hret
      · rw [(carried.updated ok bound uva_lt rfl).maps] at ht
        split_ifs at ht with hinside
        · obtain ⟨valid, htarget⟩ := Option.ite_none_right_eq_some.1 ht
          obtain ⟨hoffset, hblock⟩ := carried.effective_placed ok bound uva_lt valid
          obtain rfl := Option.some.inj htarget
          have hgfn : gfn < 2 ^ 31 := by omega
          refine ⟨hgfn, ?_, hblock⟩
          simp only [Memslot.target, pageSize4K]
          omega
        · exact ok.placed gfn t ht
      · rw [hret] at ht
        exact ok.placed gfn t ht

theorem slotStep_ok {i : SlotInput} (ok : SpaceOk sp) (allowed : SlotAllowed sp i) :
    SpaceOk (slotStep sp i) := by
  cases i with
  | addRamblock startUva size => exact handleAllocRam_ok ok allowed.2.2
  | setMapping startGfn npages uva flags =>
    exact memslotSetMapping_ok ok allowed.2.1 allowed.1 rfl (.inl allowed.2.2)

theorem slotReached_ok {listeners : List (Listener σ)} {failing : Option ℕ} {env : σ}
    (keeps : ListenersKeep listeners)
    (reached : Reached (GpaSpace.init failing listeners env) SlotAllowed slotStep sp) :
    SpaceOk sp :=
  reached.invariant (GpaSpace.init_ok keeps failing env) fun _ _ => slotStep_ok

/-! ## The memory map -/

/-- The host address and the read-only bit of a guest frame. -/
def GpaSpace.look (sp : GpaSpace σ) (gfn : ℕ) : Option (ℕ × ℕ) :=
  (memslotFind sp.memslotList gfn).map fun s =>
    (sp.mem.baseUva s.block + s.offsetWithinBlock + pageSize4K * (gfn - s.baseGfn),
      s.flags &&& haxMemslotReadonly)

/-- The place in a block as a host address. -/
def Mem.resolve (m : Mem) (t : Target) : ℕ × ℕ := (m.baseUva t.1 + t.2.1, t.2.2)

theorem GpaSpace.look_eq (sp : GpaSpace σ) (gfn : ℕ) :
    sp.look gfn = (slotPieces.look sp.memslotList gfn).map sp.mem.resolve := by
  simp only [GpaSpace.look, Pieces.look, memslotFind_eq_search, Option.map_map]
  congr 1
  funext s
  simp [Mem.resolve, Memslot.target, Nat.add_assoc]

/-- The map `sp'` is the map `sp` with the range mapped to `uva` and the
following addresses, or unmapped. -/
def MapsAsAsked (sp sp' : GpaSpace σ) (startGfn npages uva flags : ℕ) : Prop :=
  ∀ gfn, sp'.look gfn =
    if startGfn ≤ gfn ∧ gfn < startGfn + npages then
      if memslotIsValid flags then
        some (uva + pageSize4K * (gfn - startGfn), flags &&& haxMemslotReadonly)
      else none
    else sp.look gfn

/-- The request changes the flags of an old slot and stretches it over the range,
but what the old slot points to is not where the request wants it. -/
def KeepsOldBlock (sp : GpaSpace σ) (startGfn npages uva flags : ℕ) : Prop :=
  memslotIsValid flags = true ∧
    ∃ s, sp.memslotList.find? (fun s => startGfn ≤ s.endGfn) = some s ∧
      startGfn ≤ s.baseGfn ∧ s.endGfn ≤ startGfn + npages ∧
      memslotIsSameType (requestSlot sp startGfn npages uva flags) s = false ∧
      sp.memslotList.any (memslotContinues (requestSlot sp startGfn npages uva flags)) = false ∧
      sp.mem.baseUva s.block +
        min s.offsetWithinBlock (requestSlot sp startGfn npages uva flags).offsetWithinBlock ≠ uva

theorem Mem.baseUva_eq_of_contents {m m' : Mem} {a : ℕ}
    (h : (m'.block? a).map Ramblock.contents = (m.block? a).map Ramblock.contents) :
    m'.baseUva (some a) = m.baseUva (some a) := by
  have hbase := congrArg (Option.map Ramblock.baseUva) h
  simp only [Option.map_map, Function.comp_def, Ramblock.contents_baseUva] at hbase
  cases h₁ : m.block? a <;> cases h₂ : m'.block? a <;> simp_all [Mem.baseUva]

section Carried

variable {block : Option ℕ} {dest : Memslot} {m₁ m₂ : Mem} {list snapshot left : List Memslot}
  {sp₁ : GpaSpace σ}
  (carried : Carried sp startGfn npages uva flags ret sp' block dest m₁ m₂ list snapshot left sp₁)
  (ok : SpaceOk sp) (bound : startGfn + npages < 2 ^ 31) (uva_lt : uva < word)

include carried ok bound

theorem Carried.baseUva_before (hs : s ∈ sp.memslotList) :
    m₁.baseUva s.block = sp.mem.baseUva s.block := by
  obtain ⟨a, ha⟩ := Option.isSome_iff_exists.1 (ok.slot_placed hs).2.2
  obtain ⟨b, hb⟩ := ok.counted.live a (refs_pos_of_mem hs ha)
  obtain ⟨b', hb', hsame⟩ := (carried.is_acquired ok.counted (by omega)).kept a b hb
  rw [ha]
  apply Mem.baseUva_eq_of_contents
  rw [hb, hb', Option.map_some, Option.map_some, hsame]

theorem Carried.baseUva_after (hs : s ∈ sp'.memslotList) (hblock : s.block.isSome) :
    sp'.mem.baseUva s.block = m₁.baseUva s.block := by
  obtain ⟨since, hlist, -⟩ := carried.slots_since ok bound
  obtain ⟨a, ha⟩ := Option.isSome_iff_exists.1 hblock
  rw [hlist] at hs
  rw [ha]
  exact Mem.baseUva_eq_of_contents (since.contents a (refs_pos_of_mem hs ha))

include uva_lt

/-- What a request that succeeds does to the map. -/
theorem Carried.look_eq (succeeds : ret = 0) (gfn : ℕ) :
    sp'.look gfn =
      if startGfn ≤ gfn ∧ gfn < startGfn + npages then
        if memslotIsValid flags then
          some (m₁.baseUva (memslotEffective dest sp.memslotList).block +
              (memslotEffective dest sp.memslotList).offsetWithinBlock +
              pageSize4K * (gfn - startGfn),
            flags &&& haxMemslotReadonly)
        else none
      else sp.look gfn := by
  have updated := carried.updated ok bound uva_lt succeeds
  -- a block that a new slot refers to is where it was when the pass began
  have after (t : Target) (ht : slotPieces.look sp'.memslotList gfn = some t) (hsome : t.1.isSome) :
      sp'.mem.resolve t = m₁.resolve t := by
    obtain ⟨s, hs, -, rfl⟩ := (Pieces.look_eq_some_iff _ updated.ordered).1 ht
    exact congrArg (fun base => (base + _, _)) (carried.baseUva_after ok bound hs hsome)
  have hlook := updated.look_eq (x := gfn) ok.ordered
  rw [sp'.look_eq, sp.look_eq]
  split_ifs at hlook ⊢ with hinside valid
  · obtain ⟨-, hsome⟩ := carried.effective_placed ok bound uva_lt valid
    rw [mapping, if_pos valid] at hlook
    rw [hlook, Option.map_some, after _ hlook hsome]
    obtain ⟨hbase, hflags⟩ : (memslotEffective dest sp.memslotList).baseGfn = startGfn ∧
        (memslotEffective dest sp.memslotList).flags = flags := by
      rcases memslotEffective_cases dest sp.memslotList with heff | ⟨s, -, heff⟩
      all_goals
        rw [heff, carried.dest_eq]
        exact ⟨rfl, rfl⟩
    simp [Mem.resolve, Memslot.target, hbase, hflags, Nat.add_assoc]
  · rw [mapping, if_neg valid] at hlook
    rw [hlook, Option.map_none]
  · rw [hlook]
    cases hold : slotPieces.look sp.memslotList gfn with
    | none => rfl
    | some t =>
      have maps := (Pieces.look_eq_some_iff _ ok.ordered).1 hold
      rw [Option.map_some, Option.map_some, after t (by rw [hlook, hold])
        (ok.placed gfn t maps).2.2]
      obtain ⟨s, hs, -, rfl⟩ := maps
      exact congrArg (fun base => some (base + _, _)) (carried.baseUva_before ok bound hs)

/-- The exception, in terms of where the range ends up. -/
theorem Carried.keepsOldBlock_iff (valid : memslotIsValid flags = true) :
    KeepsOldBlock sp startGfn npages uva flags ↔
      m₁.baseUva (memslotEffective dest sp.memslotList).block +
        (memslotEffective dest sp.memslotList).offsetWithinBlock ≠ uva := by
  have hbase := carried.dest_baseGfn
  have hend := carried.dest_endGfn
  have hsome := (carried.block_isSome ok.counted (by omega)).trans valid
  obtain ⟨a, ha⟩ := Option.isSome_iff_exists.1 hsome
  have hdest := (carried.dest_offset ok bound uva_lt ha).1
  rw [← carried.dest_block] at hdest
  rw [KeepsOldBlock, ← carried.dest_eq_requestSlot, memslotEffective, hbase]
  constructor
  · rintro ⟨-, s, hfind, hfirst, hlast, hdiff, hnone, hne⟩
    have before := carried.baseUva_before ok bound (List.mem_of_find?_eq_some hfind)
    rw [hfind]
    dsimp only
    rw [if_neg (by simp [hnone]), memslotContent, if_pos ⟨by omega, by omega, hdiff⟩]
    rwa [← before] at hne
  · intro hne
    refine ⟨valid, ?_⟩
    cases hfind : sp.memslotList.find? fun s => startGfn ≤ s.endGfn with
    | none =>
      rw [hfind] at hne
      exact absurd hdest hne
    | some s =>
      have before := carried.baseUva_before ok bound (List.mem_of_find?_eq_some hfind)
      rw [hfind] at hne
      dsimp only at hne
      rw [memslotContent] at hne
      split_ifs at hne with hcontinues hstretch
      · exact absurd hdest hne
      · refine ⟨s, rfl, by omega, by omega, hstretch.2.2, by simpa using hcontinues, ?_⟩
        rwa [← before]
      · exact absurd hdest hne

end Carried

/-! ## The refinement -/

/-- In every state that user space can bring about, a request that succeeds
updates the map as asked, unless it keeps an old block. -/
theorem memslotSetMapping_mapsAsAsked_iff {listeners : List (Listener σ)} {failing : Option ℕ}
    {env : σ} (keeps : ListenersKeep listeners)
    (reached : Reached (GpaSpace.init failing listeners env) SlotAllowed slotStep sp)
    (bound : startGfn + npages < 2 ^ 31) (uva_lt : uva < word)
    (succeeds : memslotSetMapping sp startGfn npages uva flags = (0, sp')) :
    MapsAsAsked sp sp' startGfn npages uva flags ↔
      ¬ KeepsOldBlock sp startGfn npages uva flags := by
  have ok := slotReached_ok keeps reached
  cases memslotSetMapping_step succeeds with
  | refused _ _ failed => exact absurd rfl failed
  | carried carried =>
    have hlook := carried.look_eq ok bound uva_lt rfl
    by_cases valid : memslotIsValid flags = true
    · have hkeeps := carried.keepsOldBlock_iff ok bound uva_lt valid
      rw [hkeeps, not_not]
      constructor
      · intro asked
        -- the first frame of the range shows where the whole range went
        have hfirst := (hlook startGfn).symm.trans (asked startGfn)
        simpa [valid, carried.range] using hfirst
      · intro hplace gfn
        rw [hlook, hplace]
    · refine ⟨fun _ hkept => valid hkept.1, fun _ gfn => ?_⟩
      rw [hlook, if_neg valid, if_neg valid]

/-- Two blocks of one page, the first of which is mapped at frame 0. -/
def twoRamblocks : GpaSpace Unit :=
  slotStep (slotStep (slotStep (GpaSpace.init none [] ())
    (.addRamblock 0x10000 0x1000)) (.addRamblock 0x20000 0x1000)) (.setMapping 0 1 0x10000 0)

theorem twoRamblocks_reached :
    Reached (GpaSpace.init none [] ()) SlotAllowed slotStep twoRamblocks :=
  .step (.step (.step .init ⟨by decide, by decide, by decide⟩) ⟨by decide, by decide, by decide⟩)
    ⟨by decide, by decide, by decide⟩

/-- The second block can be mapped behind the first. -/
theorem twoRamblocks_mapsAsAsked :
    MapsAsAsked twoRamblocks (memslotSetMapping twoRamblocks 1 1 0x20000 0).2 1 1 0x20000 0 :=
  (memslotSetMapping_mapsAsAsked_iff (by simp [ListenersKeep]) twoRamblocks_reached (by decide)
    (by decide) rfl).2 (by
      rintro ⟨-, s, hfind, hfirst, -⟩
      obtain rfl : s = ⟨0, 1, some 0, 0, 0⟩ := (Option.some.inj hfind).symm
      cases hfirst)

/-- Mapping the second block where the first one is has no effect, though it
reports success. -/
theorem twoRamblocks_remap_ignored :
    Reached (GpaSpace.init none [] ()) SlotAllowed slotStep twoRamblocks ∧
      (memslotSetMapping twoRamblocks 0 1 0x20000 0).1 = 0 ∧
      (memslotSetMapping twoRamblocks 0 1 0x20000 0).2.look 0 = some (0x10000, 0) ∧
      ¬ MapsAsAsked twoRamblocks (memslotSetMapping twoRamblocks 0 1 0x20000 0).2 0 1 0x20000
        0 := by
  have hlook : (memslotSetMapping twoRamblocks 0 1 0x20000 0).2.look 0 = some (0x10000, 0) := by
    decide
  refine ⟨twoRamblocks_reached, by decide, hlook, fun asked => ?_⟩
  have hasked := asked 0
  rw [hlook] at hasked
  revert hasked
  decide

end Haxm
