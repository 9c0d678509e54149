/-
# The lifetime of RAM blocks

A block is released when its last reference is dropped: its chunks are unpinned
and, if it is stand-alone, it is removed from the list. Between two requests the
references are those of the slots, so a block is released in exactly the request
after which no slot refers to it. Within a request its count may go up and down,
but nothing ever drops a reference that is not there.
-/

import Haxm.Memory.Unfailing

namespace Haxm

open Lib

variable {σ : Type*} {sp sp' : GpaSpace σ} {m m' m'' : Mem} {a : ℕ} {b b' : Ramblock}
  {startGfn npages uva flags : ℕ} {ret : ℤ} {events : List Event}

theorem Ramblock.isStandalone_eq (same : b'.contents = b.contents) :
    b'.isStandalone = b.isStandalone := by
  have halone := congrArg Ramblock.isStandalone same
  exact halone

theorem Ramblock.chunks_eq (same : b'.contents = b.contents) :
    b'.chunks = b.chunks ∧ b'.size = b.size := by
  have hchunks := congrArg Ramblock.chunks same
  have hsize := congrArg Ramblock.size same
  exact ⟨hchunks, hsize⟩

/-! ## Runs -/

inductive BlockInput
  | addRamblock (startUva size : ℕ)
  | setMapping (startGfn npages uva flags : ℕ)
  /-- `ramblock_get_chunk` on the block of a slot; `pin` is what the host answers. -/
  | getChunk (slot : Memslot) (offset : ℕ) (pin : Option ℕ)

/-- Each step comes with a choice of the allocation that fails during it. -/
def blockStep (sp : GpaSpace σ) : Option ℕ × BlockInput → GpaSpace σ
  | (failing, .addRamblock startUva size) =>
    (handleAllocRam (sp.withFailing failing) startUva size).2
  | (failing, .setMapping startGfn npages uva flags) =>
    (memslotSetMapping (sp.withFailing failing) startGfn npages uva flags).2
  | (failing, .getChunk slot offset pin) =>
    match slot.block with
    | none => sp
    | some a => { sp with mem := (ramblockGetChunk (sp.withFailing failing).mem pin a offset).2 }

/-- Frame numbers are bounded as `handle_set_ram` requires, and chunks are asked for
through slots. -/
def BlockAllowed (sp : GpaSpace σ) : Option ℕ × BlockInput → Prop
  | (_, .addRamblock _ _) => True
  | (_, .setMapping startGfn npages _ _) => startGfn + npages < 2 ^ 31
  | (_, .getChunk slot _ _) => slot ∈ sp.memslotList

/-- No reference was taken or dropped that could not be. -/
def DerefsSound (m : Mem) : Prop :=
  Event.fault .useAfterFree ∉ m.trace ∧ Event.fault .unreferenced ∉ m.trace

/-- What every step preserves. -/
structure BlocksOk (sp : GpaSpace σ) : Prop where
  counted : Counted sp.mem (refs sp.memslotList)
  slots : ∀ s ∈ sp.memslotList, s.block.isSome
  keeps : ListenersKeep sp.listenerList
  referenced : ∀ a b, sp.mem.block? a = some b → b.isStandalone = true → 0 < refs sp.memslotList a
  chunks : ∀ a b i c, sp.mem.block? a = some b → b.chunks i = some c →
    i < ramblockCountChunks b.size ∧ 0 < refs sp.memslotList a
  sound : DerefsSound sp.mem

/-- What a step does to the blocks. -/
structure BlocksAccounted (sp sp' : GpaSpace σ) : Prop where
  counted : ∀ a b, sp'.mem.block? a = some b → b.refCount = refs sp'.memslotList a
  live : ∀ s ∈ sp'.memslotList, ∃ a b, s.block = some a ∧ sp'.mem.block? a = some b
  sound : DerefsSound sp'.mem
  referenced : ∀ a b, sp'.mem.block? a = some b → b.isStandalone = true →
    0 < refs sp'.memslotList a
  removed : ∀ a b, sp.mem.block? a = some b → b.isStandalone = true →
    (sp'.mem.block? a = none ↔ refs sp'.memslotList a = 0)
  unpinned : ∃ events, sp'.mem.trace = sp.mem.trace ++ events ∧
    ∀ a b i c, sp.mem.block? a = some b → (Event.unpin a i c ∈ events ↔
      b.chunks i = some c ∧ 0 < refs sp.memslotList a ∧ refs sp'.memslotList a = 0)
  clear : ∀ a b, sp'.mem.block? a = some b → refs sp'.memslotList a = 0 → ∀ i, b.chunks i = none

/-- The invariant after the step accounts for most of it. -/
theorem BlocksOk.accounted (after : BlocksOk sp')
    (standalone : ∀ a b b', sp.mem.block? a = some b → sp'.mem.block? a = some b' →
      b'.isStandalone = b.isStandalone)
    (unpinned : ∃ events, sp'.mem.trace = sp.mem.trace ++ events ∧
      ∀ a b i c, sp.mem.block? a = some b → (Event.unpin a i c ∈ events ↔
        b.chunks i = some c ∧ 0 < refs sp.memslotList a ∧ refs sp'.memslotList a = 0)) :
    BlocksAccounted sp sp' where
  counted := after.counted.count
  live s hs := by
    obtain ⟨a, ha⟩ := Option.isSome_iff_exists.1 (after.slots s hs)
    obtain ⟨b, hb⟩ := after.counted.live a (refs_pos_of_mem hs ha)
    exact ⟨a, b, ha, hb⟩
  sound := after.sound
  referenced := after.referenced
  removed a b hb alone := by
    constructor
    · exact after.counted.held_eq_zero
    · intro unheld
      cases hb' : sp'.mem.block? a with
      | none => rfl
      | some b' =>
        have := after.referenced a b' hb' ((standalone a b b' hb hb').trans alone)
        omega
  unpinned := unpinned
  clear a b hb unheld i := by
    cases hc : b.chunks i with
    | none => rfl
    | some c =>
      have := (after.chunks a b i c hb hc).2
      omega

theorem BlocksOk.withFailing (ok : BlocksOk sp) (failing : Option ℕ) :
    BlocksOk (sp.withFailing failing) :=
  { ok with counted := ⟨ok.counted.distinct.of_refines (.refl _) le_rfl,
    ok.counted.count, ok.counted.live⟩ }

/-- A step after which the same slots refer to the same blocks, in which chunks may have been
pinned, apart from new blocks that nobody refers to. -/
theorem BlocksOk.extend (ok : BlocksOk sp) {m : Mem} (counted : Counted m (refs sp.memslotList))
    (events : List Event) (htrace : m.trace = sp.mem.trace ++ events)
    (faults : ∀ e ∈ events, e = .fault .overrun ∨ e = .fault .assert)
    (old : ∀ a b, m.block? a = some b →
      (∃ b₀, sp.mem.block? a = some b₀ ∧ b.isStandalone = b₀.isStandalone ∧ ∀ i c,
        b.chunks i = some c → i < ramblockCountChunks b.size ∧ 0 < refs sp.memslotList a) ∨
      b.isStandalone = false ∧ (∀ i, b.chunks i = none) ∧ sp.mem.block? a = none) :
    BlocksOk { sp with mem := m } ∧ BlocksAccounted sp { sp with mem := m } := by
  have after : BlocksOk { sp with mem := m } := by
    refine ⟨counted, ok.slots, ok.keeps, fun a b hb alone => ?_, fun a b i c hb hc => ?_, ?_, ?_⟩
    · rcases old a b hb with ⟨b₀, hb₀, same, -⟩ | ⟨listed, -⟩
      · exact ok.referenced a b₀ hb₀ (same.symm.trans alone)
      · rw [listed] at alone
        cases alone
    · rcases old a b hb with ⟨-, -, -, chunks⟩ | ⟨-, unpinned, -⟩
      · exact chunks i c hc
      · rw [unpinned] at hc
        cases hc
    all_goals
      intro h
      rw [htrace] at h
      rcases List.mem_append.1 h with h | h
    · exact ok.sound.1 h
    · rcases faults _ h with h | h <;> cases h
    · exact ok.sound.2 h
    · rcases faults _ h with h | h <;> cases h
  refine ⟨after, after.accounted (fun a b b' hb hb' => ?_) ⟨events, htrace, fun a b i c hb => ?_⟩⟩
  · rcases old a b' hb' with ⟨b₀, hb₀, same, -⟩ | ⟨-, -, absent⟩
    · rw [same, Option.some.inj (hb₀.symm.trans hb)]
    · rw [absent] at hb
      cases hb
  · constructor
    · intro h
      rcases faults _ h with h | h <;> cases h
    · rintro ⟨-, held, unheld⟩
      exact absurd unheld held.ne'

theorem BlocksOk.unchanged (ok : BlocksOk sp) (hb : sp.mem.block? a = some b) :
    ∃ b₀, sp.mem.block? a = some b₀ ∧ b.isStandalone = b₀.isStandalone ∧ ∀ i c,
      b.chunks i = some c → i < ramblockCountChunks b.size ∧ 0 < refs sp.memslotList a :=
  ⟨b, hb, rfl, fun i c => ok.chunks a b i c hb⟩

theorem handleAllocRam_accounted (ok : BlocksOk sp) (startUva size : ℕ) :
    BlocksOk (handleAllocRam sp startUva size).2 ∧
      BlocksAccounted sp (handleAllocRam sp startUva size).2 := by
  obtain ⟨m, h, counted, ⟨events, htrace, overruns⟩, blocks⟩ :=
    handleAllocRam_cases ok.counted startUva size
  rw [h]
  refine ok.extend counted events htrace (fun e he => .inl (overruns e he)) fun a b hb => ?_
  rcases blocks with same | ⟨-, -, lookup⟩
  · exact .inl (ok.unchanged ((same a).symm.trans hb))
  · rw [lookup] at hb
    split_ifs at hb with hnew
    · obtain rfl := Option.some.inj hb
      exact .inr ⟨rfl, fun _ => rfl, hnew ▸ ok.counted.distinct.block?_nextAddr⟩
    · exact .inl (ok.unchanged hb)

theorem ramblockGetChunk_accounted (ok : BlocksOk sp) {s : Memslot} (hs : s ∈ sp.memslotList)
    (ha : s.block = some a) (pin : Option ℕ) (offset : ℕ) :
    BlocksOk { sp with mem := (ramblockGetChunk sp.mem pin a offset).2 } ∧
      BlocksAccounted sp { sp with mem := (ramblockGetChunk sp.mem pin a offset).2 } := by
  have held := refs_pos_of_mem hs ha
  have counted := ok.counted
  obtain ⟨b, hb⟩ := counted.live a held
  rcases hget : ramblockGetChunk sp.mem pin a offset with ⟨r, m'⟩
  obtain ⟨f, events, only, hcases⟩ : ∃ f events, (∀ e ∈ events, e = .fault .overrun ∨
      e = .fault .assert) ∧ (m' = { sp.mem with failing := f, trace := sp.mem.trace ++ events } ∨
        offset < b.size ∧ ∃ c, m' =
          ({ sp.mem with failing := f, trace := sp.mem.trace ++ events } : Mem).setBlock a
            fun b => b.setChunk (offset / haxChunkSize) c) := by
    rcases ramblockGetChunk_got hb hget with ⟨-, f, events, only, h⟩ | ⟨-, -, f, events, only, h⟩ |
      ⟨below, -, -, -, -, -, ⟨f, events, only, rfl⟩, h⟩
    · exact ⟨f, events, only, .inl h⟩
    · exact ⟨f, events, only, .inl h⟩
    · exact ⟨f, events, only, .inr ⟨below, _, h⟩⟩
  dsimp only
  rcases hcases with rfl | ⟨inside, d, rfl⟩
  · exact ok.extend ⟨counted.distinct.of_refines (.refl _) le_rfl, counted.count, counted.live⟩
      events rfl only fun x c hc => .inl (ok.unchanged hc)
  have keeps (b : Ramblock) : (b.setChunk (offset / haxChunkSize) d).addr = b.addr := rfl
  have lookup (x : ℕ) : Mem.block? (Mem.setBlock _ a _) x = _ :=
    Mem.block?_setBlock_of (m := { sp.mem with failing := f, trace := sp.mem.trace ++ events }) hb
      keeps x
  have refines := refines_setBlock sp.mem a (f := fun b => b.setChunk (offset / haxChunkSize) d)
    (by simp [Ramblock.setChunk])
  refine ok.extend ⟨counted.distinct.of_refines refines le_rfl, fun x c hc => ?_, fun x hx => ?_⟩
    events rfl only fun x c hc => .inl ?_
  · rw [lookup] at hc
    split_ifs at hc with hx
    · obtain rfl := Option.some.inj hc
      rw [hx]
      exact counted.count a b hb
    · exact counted.count x c hc
  · rw [lookup]
    split_ifs
    · exact ⟨_, rfl⟩
    · exact counted.live x hx
  · rw [lookup] at hc
    split_ifs at hc with hx
    · obtain rfl := Option.some.inj hc
      subst hx
      refine ⟨b, hb, rfl, fun i e he => ?_⟩
      by_cases hi : i = offset / haxChunkSize
      · refine ⟨?_, held⟩
        rw [hi, ramblockCountChunks]
        exact Nat.lt_succ_of_le (Nat.div_le_div_right (Nat.le_sub_one_of_lt inside))
      · exact ok.chunks x b i e hb (by simpa [Ramblock.setChunk, hi] using he)
    · exact ok.unchanged hc

section Carried

variable {block : Option ℕ} {dest : Memslot} {m₁ m₂ : Mem} {list snapshot left : List Memslot}
  {sp₁ : GpaSpace σ}
  (carried : Carried sp startGfn npages uva flags ret sp' block dest m₁ m₂ list snapshot left sp₁)
  (ok : BlocksOk sp) (bound : npages < 2 ^ 31)

include carried ok bound

theorem Carried.slots_isSome : ∀ s ∈ list, s.block.isSome := by
  have hvalid : memslotIsValid flags = true → dest.block.isSome := by
    rw [carried.dest_block, carried.block_isSome ok.counted bound]
    exact id
  have closed : SlotClosed (memslotIsValid flags) dest fun s => s.block.isSome = true :=
    ⟨hvalid, fun s hs _ _ => hs, fun s hs _ _ => hs, fun _ s hs _ => hs, fun _ p s _ hs _ _ => hs⟩
  exact (memslotPass_all closed (Q := fun _ => True) ⟨by simp, by simp, by simp, by simp⟩ trivial
    ok.slots (fun s hs _ _ _ _ => ok.slots s (List.mem_of_find?_eq_some hs)) carried.passed).2

/-- Blocks of `m₁` with chunks were there before, with the same chunks. -/
theorem Carried.chunks_before {i : ℕ} {c : Chunk} (hb : m₁.block? a = some b)
    (hc : b.chunks i = some c) : i < ramblockCountChunks b.size ∧ 0 < refs sp.memslotList a := by
  rcases (carried.is_acquired ok.counted bound).origin a b hb with ⟨b₀, hb₀, same⟩ | ⟨-, -, hnew⟩
  · obtain ⟨hchunks, hsize⟩ := Ramblock.chunks_eq same
    rw [hchunks] at hc
    rw [hsize]
    exact ok.chunks a b₀ i c hb₀ hc
  · have hchunks : b.chunks = fun _ => none := congrArg Ramblock.chunks hnew
    rw [hchunks] at hc
    cases hc

theorem Carried.blocksOk : BlocksOk sp' := by
  have acquired := carried.is_acquired ok.counted bound
  obtain ⟨since, hlist, hlisteners, -⟩ := carried.since ok.keeps ok.counted ok.slots bound
  obtain ⟨events, htrace, -⟩ := since.trace
  refine ⟨hlist ▸ since.counted, hlist ▸ carried.slots_isSome ok bound, hlisteners ▸ ok.keeps,
    fun a b' hb' alone => ?_, fun a b' i c hb' hc => ?_, ?_⟩
  · rw [hlist]
    by_contra unheld
    obtain ⟨b, hb, same⟩ := since.blocks a b' hb'
    have halone : b.isStandalone = true := by
      rcases same with same | same
      · exact (Ramblock.isStandalone_eq same).symm.trans alone
      · have : b'.isStandalone = b.isStandalone := (Ramblock.isStandalone_eq same :)
        exact this.symm.trans alone
    have hcount := acquired.counted.count a b hb
    by_cases held : 0 < b.refCount
    · have released := since.released a b hb (by omega) (by omega) events htrace
      cases (released.left b' hb').1.symm.trans halone
    · -- a block nobody holds was there before, and stand-alone blocks were held then
      rcases acquired.origin a b hb with ⟨b₀, hb₀, same₀⟩ | ⟨hblock, -⟩
      · have := ok.referenced a b₀ hb₀ ((Ramblock.isStandalone_eq same₀).symm.trans halone)
        omega
      · simp only [holds, hblock, if_true] at hcount
        omega
  · rw [hlist]
    obtain ⟨b, hb, same⟩ := since.blocks a b' hb'
    have hbefore : b.chunks i = some c ∧ b'.size = b.size := by
      rcases same with same | same
      · obtain ⟨hchunks, hsize⟩ := Ramblock.chunks_eq same
        exact ⟨hchunks ▸ hc, hsize⟩
      · obtain ⟨hchunks, hsize⟩ := Ramblock.chunks_eq same
        rw [hchunks] at hc
        simp only [ramblockFreeChunks] at hc hsize
        split_ifs at hc
        exact ⟨hc, hsize⟩
    obtain ⟨hi, held⟩ := carried.chunks_before ok bound hb hbefore.1
    refine ⟨hbefore.2 ▸ hi, Nat.pos_of_ne_zero fun unheld => ?_⟩
    have released := since.released a b hb (by omega) unheld events htrace
    have freed := congrFun (congrArg Ramblock.chunks (released.left b' hb').2) i
    rw [show b'.contents.chunks i = some c from hc] at freed
    simp [ramblockFreeChunks, hi] at freed
  · have hold (f : Fault) (h : Event.fault f ∈ sp'.mem.trace) : Event.fault f ∈ sp.mem.trace := by
      have := since.faults f h
      rwa [acquired.trace] at this
    exact ⟨fun h => ok.sound.1 (hold _ h), fun h => ok.sound.2 (hold _ h)⟩

theorem Carried.accounted : BlocksAccounted sp sp' := by
  have acquired := carried.is_acquired ok.counted bound
  obtain ⟨since, hlist, -⟩ := carried.since ok.keeps ok.counted ok.slots bound
  obtain ⟨events, htrace, unpins⟩ := since.trace
  refine (carried.blocksOk ok bound).accounted (fun a b b' hb hb' => ?_)
    ⟨events, by rw [htrace, acquired.trace], fun a b i c hb => ?_⟩
  · obtain ⟨b₁, hb₁, same₁⟩ := acquired.kept a b hb
    obtain ⟨b₂, hb₂, same⟩ := since.blocks a b' hb'
    obtain rfl := Option.some.inj (hb₁.symm.trans hb₂)
    rw [← Ramblock.isStandalone_eq same₁]
    rcases same with same | same
    · exact Ramblock.isStandalone_eq same
    · exact (Ramblock.isStandalone_eq same :)
  · obtain ⟨b₁, hb₁, same₁⟩ := acquired.kept a b hb
    have hchunks := (Ramblock.chunks_eq same₁).1
    rw [hlist]
    constructor
    · intro h
      obtain ⟨-, unheld, b₂, hb₂, hc⟩ := unpins a i c h
      obtain rfl := Option.some.inj (hb₁.symm.trans hb₂)
      exact ⟨hchunks ▸ hc, (carried.chunks_before ok bound hb₁ hc).2, unheld⟩
    · rintro ⟨hc, held, unheld⟩
      rw [← hchunks] at hc
      have released := since.released a b₁ hb₁ (by omega) unheld events htrace
      refine released.unpinned _ (List.mem_filterMap.2 ⟨i, ?_, ?_⟩)
      · exact List.mem_range.2 (carried.chunks_before ok bound hb₁ hc).1
      · show (b₁.chunks i).map (Event.unpin b₁.addr i) = _
        rw [hc, Mem.addr_of_block? hb₁]
        rfl

end Carried

theorem memslotSetMapping_accounted (ok : BlocksOk sp) (bound : startGfn + npages < 2 ^ 31)
    (h : memslotSetMapping sp startGfn npages uva flags = (ret, sp')) :
    BlocksOk sp' ∧ BlocksAccounted sp sp' := by
  cases memslotSetMapping_step h with
  | empty => exact ok.extend ok.counted [] (by simp) (by simp) fun a b hb => .inl (ok.unchanged hb)
  | refused _ answer failed =>
    obtain ⟨-, counted, hlist, htrace, -⟩ := memslotBlock_failed ok.counted (by omega) answer failed
    refine ok.extend counted [] (by simpa using htrace) (by simp) fun a b hb =>
      .inl (ok.unchanged ?_)
    rwa [Mem.block?, hlist] at hb
  | carried carried =>
    exact ⟨carried.blocksOk ok (by omega), carried.accounted ok (by omega)⟩

theorem blockStep_accounted {i : Option ℕ × BlockInput} (ok : BlocksOk sp)
    (allowed : BlockAllowed sp i) :
    BlocksOk (blockStep sp i) ∧ BlocksAccounted sp (blockStep sp i) := by
  obtain ⟨failing, i⟩ := i
  have ok' := ok.withFailing failing
  -- nothing but the choice of a failure has changed so far
  have same {sp' : GpaSpace σ} (h : BlocksOk sp' ∧ BlocksAccounted (sp.withFailing failing) sp') :
      BlocksOk sp' ∧ BlocksAccounted sp sp' :=
    ⟨h.1, h.2.counted, h.2.live, h.2.sound, h.2.referenced, h.2.removed, h.2.unpinned, h.2.clear⟩
  cases i with
  | addRamblock startUva size => exact same (handleAllocRam_accounted ok' startUva size)
  | setMapping startGfn npages uva flags =>
    exact same (memslotSetMapping_accounted ok' allowed rfl)
  | getChunk slot offset pin =>
    obtain ⟨a, ha⟩ := Option.isSome_iff_exists.1 (ok.slots slot allowed)
    have h := same (ramblockGetChunk_accounted ok' (by exact allowed) ha pin offset)
    rw [blockStep, ha]
    exact h

theorem GpaSpace.init_blocksOk {listeners : List (Listener σ)} (keeps : ListenersKeep listeners)
    (env : σ) : BlocksOk (GpaSpace.init none listeners env) where
  counted := (GpaSpace.init_ok keeps none env).counted
  slots := by simp [GpaSpace.init]
  keeps := keeps
  referenced := by simp [GpaSpace.init, Mem.init, Mem.block?]
  chunks := by simp [GpaSpace.init, Mem.init, Mem.block?]
  sound := by simp [GpaSpace.init, Mem.init, DerefsSound]

/-- In every state that calls can bring about, each further call accounts for the
references, releases and chunks of all blocks. -/
theorem blockStep_accounts {listeners : List (Listener σ)} {env : σ}
    (keeps : ListenersKeep listeners) {i : Option ℕ × BlockInput}
    (reached : Reached (GpaSpace.init none listeners env) BlockAllowed blockStep sp)
    (allowed : BlockAllowed sp i) : BlocksAccounted sp (blockStep sp i) := by
  have ok : BlocksOk sp := reached.invariant (GpaSpace.init_blocksOk keeps env)
    fun _ _ ok allowed => (blockStep_accounted ok allowed).1
  exact (blockStep_accounted ok allowed).2

/-- A stand-alone page whose chunk is pinned. -/
def pinnedStandalone : GpaSpace Unit :=
  blockStep (blockStep (GpaSpace.init none [] ())
    (none, .setMapping 0 1 0x10000 haxMemslotStandalone))
    (none, .getChunk ⟨0, 1, some 0, 0, haxMemslotStandalone⟩ 0 (some 7))

/-- Unmapping the page unpins the chunk and removes the block. -/
theorem pinnedStandalone_accounts :
    (blockStep pinnedStandalone (none, .setMapping 0 1 0 haxMemslotInvalid)).mem.trace =
        [.unpin 0 0 ⟨7, 0x10000, 0x1000⟩] ∧
      BlocksAccounted pinnedStandalone
        (blockStep pinnedStandalone (none, .setMapping 0 1 0 haxMemslotInvalid)) := by
  have reached : Reached (GpaSpace.init none [] ()) BlockAllowed blockStep pinnedStandalone := by
    refine .step (.step .init ?_) ?_
    · show 0 + 1 < 2 ^ 31
      decide
    · show (⟨0, 1, some 0, 0, haxMemslotStandalone⟩ : Memslot) ∈ _
      decide
  exact ⟨by decide, blockStep_accounts (by simp [ListenersKeep]) reached
    (by decide : 0 + 1 < 2 ^ 31)⟩

end Haxm
