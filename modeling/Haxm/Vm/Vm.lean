/-
# The memory of a guest

What user space and the guest can do to the memory of a virtual machine: RAM
blocks are added, guest memory is mapped, unmapped and protected, and accesses
of the guest to pages without an EPT entry are handled. The state is the guest
physical address space with the EPT as its listener. Calls come one at a time;
each brings along which of its allocations fails, if any, and which tables of the
EPT cannot be mapped.
-/

import Haxm.Memory.FailureAtomicity
import Haxm.Vm.Notify

namespace Haxm

open Lib

/-! ## The calls -/

/-- INVEPT is executed if it is pending. -/
def GpaSpace.invept (sp : GpaSpace EptTree) : GpaSpace EptTree :=
  if sp.env.inveptPending then
    { sp with env := { sp.env with inveptPending := false }, mem := sp.mem.log [.invept] }
  else sp

/-- `handle_set_ram`, behind `hax_vm_set_ram` and `hax_vm_set_ram2`. -/
def handleSetRam (sp : GpaSpace EptTree) (startGpa size startUva flags : ℕ) :
    ℤ × GpaSpace EptTree :=
  if flags &&& haxMemslotInvalid ≠ 0 ∧ (flags ≠ haxMemslotInvalid ∨ startUva ≠ 0) then (-EINVAL, sp)
  else if flags &&& haxMemslotInvalid = 0 ∧ startUva = 0 then (-EINVAL, sp)
  else if size = 0 then (-EINVAL, sp)
  else
    let startGfn := startGpa / 2 ^ pgOrder4K
    let npages := size / 2 ^ pgOrder4K
    match gpaSpaceAdjustProtBitmap sp (startGfn + npages) with
    | (ret, sp) =>
      if ret ≠ 0 then (ret, sp)
      else
        match memslotSetMapping sp startGfn npages startUva flags with
        | (ret, sp) => if ret ≠ 0 then (ret, sp) else (0, sp.invept)

/-- `hax_vm_protect_ram`. -/
def haxVmProtectRam (sp : GpaSpace EptTree) (startGpa size flags : ℕ) : ℤ × GpaSpace EptTree :=
  gpaSpaceProtectRange sp startGpa size flags

inductive VmCall
  | addRamblock (startUva size : ℕ)
  | setRam (startGpa size startUva flags : ℕ)
  | protectRam (startGpa size flags : ℕ)
  /-- An EPT violation, with what `hax_pin_user_pages` would answer. -/
  | accessViolation (qual gpa : ℕ) (pin : Option ℕ)
  | getPfn (gfn : ℕ) (pin : Option ℕ)

/-- What the host answers during a call: the allocation that fails, if any, and the tables
that cannot be mapped. -/
structure VmAnswers where
  failing : Option ℕ := none
  unmapped : List (ℕ × Pfn) := []

def GpaSpace.withAnswers (sp : GpaSpace EptTree) (answers : VmAnswers) : GpaSpace EptTree :=
  { sp.withFailing answers.failing with env := { sp.env with unmapped := answers.unmapped } }

/-- The call that is made, after the choice of the answers. -/
def vmCall (host : Host) (sp : GpaSpace EptTree) : VmCall → GpaSpace EptTree
  | .addRamblock startUva size => (handleAllocRam sp startUva size).2
  | .setRam startGpa size startUva flags => (handleSetRam sp startGpa size startUva flags).2
  | .protectRam startGpa size flags => (haxVmProtectRam sp startGpa size flags).2
  | .accessViolation qual gpa pin => (eptHandleAccessViolation host pin sp qual gpa).2.2
  | .getPfn gfn pin => (gpaSpaceGetPfn host pin sp gfn).2.2

def vmStep (host : Host) (sp : GpaSpace EptTree) (i : VmAnswers × VmCall) : GpaSpace EptTree :=
  vmCall host (sp.withAnswers i.1) i.2

/-- The state after `hax_create_vm`. -/
def vmInit (host : Host) (tree : EptTree) : GpaSpace EptTree :=
  GpaSpace.init none [eptListener host] tree

/-- Arguments are 64-bit words, blocks have a size that fits into an address
space, and ranges to be protected do not wrap around. -/
def VmCall.Sane : VmCall → Prop
  | .addRamblock startUva size => startUva < word ∧ size < 2 ^ 50
  | .setRam startGpa size startUva _ => startGpa < word ∧ size < word ∧ startUva < word
  | .protectRam startGpa size _ => startGpa + size ≤ word
  | .accessViolation _ gpa _ => gpa < word
  | .getPfn .. => True

instance (call : VmCall) : Decidable call.Sane := by
  cases call <;> unfold VmCall.Sane <;> infer_instance

/-! ## The invariant -/

/-- What every call preserves, also when it fails for lack of memory. The list of
slots need not be ordered. -/
structure VmOk (host : Host) (sp : GpaSpace EptTree) : Prop where
  listeners : sp.listenerList = [eptListener host]
  counted : Counted sp.mem (refs sp.memslotList)
  slots : ∀ s ∈ sp.memslotList, s.baseGfn < s.endGfn ∧ s.endGfn ≤ 2 ^ 31 ∧ s.block.isSome
  blocks : ∀ a b, sp.mem.block? a = some b → b.Ok
  tree : ∃ place, TreeOk sp.env place
  prot : sp.prot.endGfn < 2 ^ 31

variable {host : Host} {sp sp' sp₁ : GpaSpace EptTree} {ret : ℤ}

theorem VmOk.keeps (ok : VmOk host sp) : ListenersKeep sp.listenerList := by
  rw [ok.listeners]
  exact eptListener_keeps host

theorem VmOk.withFailing (ok : VmOk host sp) (failing : Option ℕ) :
    VmOk host (sp.withFailing failing) :=
  { ok with counted := ⟨⟨ok.counted.distinct.fresh, ok.counted.distinct.nodup⟩, ok.counted.count,
      ok.counted.live⟩ }

theorem VmOk.withAnswers (ok : VmOk host sp) (answers : VmAnswers) :
    VmOk host (sp.withAnswers answers) :=
  { ok.withFailing answers.failing with tree := ok.tree.imp fun _ tree => { tree with } }

/-- Pinning chunks is harmless. -/
theorem VmOk.chunksAdded {m : Mem} (ok : VmOk host sp) (added : ChunksAdded sp.mem m) :
    VmOk host { sp with mem := m } :=
  { ok with
    counted := added.counted ok.counted
    blocks := fun a b' hb' => by
      obtain ⟨b, hb, extended⟩ := added.after a b' hb'
      exact extended.ok (ok.blocks a b hb) }

theorem vmInit_ok {tree : EptTree} (h : eptTreeInit host = some tree) :
    VmOk host (vmInit host tree) where
  listeners := rfl
  counted := (GpaSpace.init_ok (eptListener_keeps host) none tree).counted
  slots := by simp [vmInit, GpaSpace.init]
  blocks := by simp [vmInit, GpaSpace.init, Mem.init, Mem.block?]
  tree := eptTreeInit_ok h
  prot := by simp [vmInit, GpaSpace.init]

/-! ## Requests -/

theorem handleAllocRam_vmOk {startUva size : ℕ} (ok : VmOk host sp) (uva_lt : startUva < word)
    (size_lt : size < 2 ^ 50) : VmOk host (handleAllocRam sp startUva size).2 := by
  obtain ⟨m, h, counted, -, blocks⟩ := handleAllocRam_cases ok.counted startUva size
  rw [h]
  refine { ok with counted := counted, blocks := fun a b hb => ?_ }
  rcases blocks with same | ⟨-, -, lookup⟩
  · exact ok.blocks a b (by rwa [same] at hb)
  · rw [lookup] at hb
    split_ifs at hb
    · obtain rfl := Option.some.inj hb
      exact ramblockNew_ok uva_lt size_lt
    · exact ok.blocks a b hb

section SetMapping

variable {startGfn npages uva flags : ℕ} {block : Option ℕ} {dest : Memslot} {m₁ m₂ : Mem}
  {list snapshot left : List Memslot}

/-- Whatever the pass does, slots stay within bounds. -/
theorem slotBounds_closed {isValid : Bool} (range : dest.baseGfn < dest.endGfn)
    (bound : dest.endGfn ≤ 2 ^ 31) (hblock : isValid = true → dest.block.isSome) :
    SlotClosed isValid dest fun s => s.baseGfn < s.endGfn ∧ s.endGfn ≤ 2 ^ 31 ∧ s.block.isSome where
  new valid := ⟨range, bound, hblock valid⟩
  front s hs hlo hhi := by
    rw [memslotOverlapFront_endGfn hhi.le]
    exact ⟨hhi, hs.2⟩
  rear s hs hlo hhi := by
    rw [memslotOverlapRear_endGfn hlo.le]
    exact ⟨hlo, by omega, hs.2.2⟩
  union _ s hs _ := by
    rw [memslotUnion_baseGfn, memslotUnion_endGfn]
    exact ⟨by omega, by omega, hs.2.2⟩
  join _ p s hp hs _ _ := by
    rw [memslotUnion_baseGfn, memslotUnion_endGfn]
    exact ⟨by omega, by omega, hs.2.2⟩

theorem slotBounds_stretch {isValid : Bool} (range : dest.baseGfn < dest.endGfn)
    (bound : dest.endGfn ≤ 2 ^ 31) {s : Memslot} (hs : s.block.isSome) :
    StretchClosed isValid dest s
      fun s => s.baseGfn < s.endGfn ∧ s.endGfn ≤ 2 ^ 31 ∧ s.block.isSome :=
  fun _ _ _ _ => ⟨range, bound, hs⟩

/-- The block that a request got hold of is in order, and so are the others. -/
theorem Acquired.blocks_ok {held : ℕ → ℕ} {m m' : Mem}
    (acquired : Acquired m held npages uva block m')
    (ok : ∀ a b, m.block? a = some b → b.Ok) (uva_lt : uva < word) (bound : npages < 2 ^ 31) :
    ∀ a b, m'.block? a = some b → b.Ok := by
  intro a b' hb'
  rcases acquired.origin a b' hb' with ⟨b, hb, same⟩ | ⟨-, -, hnew⟩
  · exact (ok a b hb).contents same
  · have size_lt : shl64 npages pgOrder4K < 2 ^ 50 := by
      rw [shl64_of_lt (by simp only [pgOrder4K, word]; omega)]
      simp only [pgOrder4K]
      omega
    have fresh : (ramblockNew a uva (shl64 npages pgOrder4K)).Ok := ramblockNew_ok uva_lt size_lt
    have marked : ({ ramblockNew a uva (shl64 npages pgOrder4K) with isStandalone := true } :
        Ramblock).Ok := { fresh with }
    exact marked.contents hnew

theorem Since.blocks_ok {held held' : ℕ → ℕ} {m m' : Mem} (since : Since m held m' held')
    (ok : ∀ a b, m.block? a = some b → b.Ok) : ∀ a b, m'.block? a = some b → b.Ok := by
  intro a b' hb'
  obtain ⟨b, hb, same | freed⟩ := since.blocks a b' hb'
  · exact (ok a b hb).contents same
  · exact (ok a b hb).freeChunks.contents freed

variable (ok : VmOk host sp) (bound : startGfn + npages < 2 ^ 31) (uva_lt : uva < word)
  (carried : Carried sp startGfn npages uva flags ret sp' block dest m₁ m₂ list snapshot left sp₁)

include ok bound carried

theorem VmOk.carried_pruned : Pruned sp.env sp'.env := by
  obtain ⟨place, tree⟩ := ok.tree
  exact carried.pruned ok.listeners tree (fun s hs => (ok.slots s hs).2.1) bound.le

theorem VmOk.carried_since :
    Since m₁ (fun a => refs sp.memslotList a + holds block a) sp'.mem (refs list) ∧
      sp'.memslotList = list ∧ sp'.listenerList = sp.listenerList ∧ sp'.prot = sp.prot :=
  carried.since ok.keeps ok.counted (fun s hs => (ok.slots s hs).2.2) (by omega)

include uva_lt

theorem VmOk.carried_ok : VmOk host sp' := by
  have acquired := carried.is_acquired ok.counted (by omega)
  obtain ⟨since, hlist, hlisteners, hprot⟩ := ok.carried_since bound carried
  have hbase := carried.dest_baseGfn
  have hend := carried.dest_endGfn
  have range := carried.range
  have hvalid : memslotIsValid flags = true → dest.block.isSome := by
    rw [carried.dest_block, carried.block_isSome ok.counted (by omega)]
    exact id
  have slots := (memslotPass_all (Q := fun _ => True)
    (slotBounds_closed (by omega) (by omega) hvalid) ⟨by simp, by simp, by simp, by simp⟩ trivial
    ok.slots (fun s hs => slotBounds_stretch (by omega) (by omega)
      (ok.slots s (List.mem_of_find?_eq_some hs)).2.2) carried.passed).2
  refine ⟨hlisteners.trans ok.listeners, ?_, ?_, ?_, (ok.carried_pruned bound carried).ok, ?_⟩
  · rw [hlist]
    exact since.counted
  · rw [hlist]
    exact slots
  · exact since.blocks_ok (acquired.blocks_ok ok.blocks uva_lt (by omega))
  · rw [hprot]
    exact ok.prot

end SetMapping

/-- The bitmap may have grown, which keeps what it says, and an allocation may
have been made. -/
structure Adjusted (sp sp' : GpaSpace EptTree) : Prop where
  same : ∃ f, (sp.mem.failing = none → f = none) ∧
    sp' = { sp with mem := { sp.mem with failing := f }, prot := sp'.prot }
  grown : sp.prot.endGfn ≤ sp'.prot.endGfn
  bound : sp'.prot.endGfn < 2 ^ 31
  bits : ∀ g, Bitmap.test sp'.prot.bitmap g = true → Bitmap.test sp.prot.bitmap g = true

theorem Adjusted.refl (bound : sp.prot.endGfn < 2 ^ 31) : Adjusted sp sp :=
  ⟨⟨sp.mem.failing, id, rfl⟩, le_rfl, bound, fun _ => id⟩

theorem Adjusted.ok (adjusted : Adjusted sp sp') (ok : VmOk host sp) : VmOk host sp' := by
  obtain ⟨f, -, h⟩ := adjusted.same
  have bound := adjusted.bound
  rw [h] at bound ⊢
  exact { ok.withFailing f with prot := bound }

theorem gpaSpaceAdjustProtBitmap_adjusted {endGfn : ℕ} (bound : sp.prot.endGfn < 2 ^ 31)
    (h : gpaSpaceAdjustProtBitmap sp endGfn = (ret, sp')) :
    Adjusted sp sp' ∧ (ret = 0 → endGfn < 2 ^ 31) := by
  unfold gpaSpaceAdjustProtBitmap at h
  split_ifs at h with hle hsize
  · cases h
    exact ⟨.refl bound, fun _ => by omega⟩
  · cases h
    exact ⟨.refl bound, by simp⟩
  · have hlt : endGfn < 2 ^ 31 := by
      unfold gpaSpaceProtBitmapSize at hsize
      split_ifs at hsize with hbig
      · simp at hsize
      · omega
    obtain ⟨allocated, f, hm, hf⟩ := sp.mem.vmalloc_eq (gpaSpaceProtBitmapSize endGfn)
    rw [hm] at h
    cases allocated with
    | false =>
      cases h
      exact ⟨⟨⟨f, hf, rfl⟩, le_rfl, bound, fun _ => id⟩, by simp⟩
    | true =>
      cases h
      refine ⟨⟨⟨f, hf, rfl⟩, (not_le.1 hle).le, hlt, fun g hg => ?_⟩, fun _ => hlt⟩
      simp only [Bitmap.test] at hg ⊢
      split_ifs at hg
      · exact hg
      · simp at hg

/-- The part of `handle_set_ram` before the slots are touched, and the rest. -/
theorem handleSetRam_cases {startGpa size startUva flags : ℕ} (bound : sp.prot.endGfn < 2 ^ 31)
    (h : handleSetRam sp startGpa size startUva flags = (ret, sp')) :
    ∃ sp₀, Adjusted sp sp₀ ∧ ((ret ≠ 0 ∧ sp' = sp₀) ∨
      startGpa / 2 ^ pgOrder4K + size / 2 ^ pgOrder4K < 2 ^ 31 ∧
        ∃ sp₁, memslotSetMapping sp₀ (startGpa / 2 ^ pgOrder4K) (size / 2 ^ pgOrder4K) startUva
        flags =
            (ret, sp₁) ∧
          sp' = if ret = 0 then sp₁.invept else sp₁) := by
  unfold handleSetRam at h
  split_ifs at h with hunmap hmap hsize
  · cases h
    exact ⟨sp, .refl bound, .inl ⟨by decide, rfl⟩⟩
  · cases h
    exact ⟨sp, .refl bound, .inl ⟨by decide, rfl⟩⟩
  · cases h
    exact ⟨sp, .refl bound, .inl ⟨by decide, rfl⟩⟩
  · rcases hadjust : gpaSpaceAdjustProtBitmap sp
      (startGpa / 2 ^ pgOrder4K + size / 2 ^ pgOrder4K) with ⟨ret₀, sp₀⟩
    obtain ⟨adjusted, hend⟩ := gpaSpaceAdjustProtBitmap_adjusted bound hadjust
    refine ⟨sp₀, adjusted, ?_⟩
    dsimp only at h
    rw [hadjust] at h
    dsimp only at h
    by_cases hret₀ : ret₀ ≠ 0
    · rw [if_pos hret₀] at h
      cases h
      exact .inl ⟨hret₀, rfl⟩
    · rw [if_neg hret₀] at h
      rcases hset : memslotSetMapping sp₀ (startGpa / 2 ^ pgOrder4K) (size / 2 ^ pgOrder4K) startUva
        flags with ⟨ret₁, sp₁⟩
      rw [hset] at h
      dsimp only at h
      refine .inr ⟨hend (not_not.1 hret₀), sp₁, ?_⟩
      split_ifs at h with hret₁ <;> cases h
      · exact ⟨rfl, by rw [if_neg hret₁]⟩
      · rw [not_not.1 hret₁]
        exact ⟨rfl, rfl⟩

theorem VmOk.invept (ok : VmOk host sp) : VmOk host sp.invept := by
  unfold GpaSpace.invept
  split_ifs
  · obtain ⟨place, tree⟩ := ok.tree
    refine { ok with counted := ?_, tree := ⟨place, ?_⟩ }
    · exact ⟨⟨ok.counted.distinct.fresh, ok.counted.distinct.nodup⟩, ok.counted.count,
        ok.counted.live⟩
    · exact { tree with }
  · exact ok

theorem memslotSetMapping_vmOk {startGfn npages uva flags : ℕ} (ok : VmOk host sp)
    (bound : startGfn + npages < 2 ^ 31) (uva_lt : uva < word)
    (h : memslotSetMapping sp startGfn npages uva flags = (ret, sp')) : VmOk host sp' := by
  cases memslotSetMapping_step h with
  | empty => exact ok
  | refused _ answer failed =>
    obtain ⟨-, counted, hlist, -, -⟩ := memslotBlock_failed ok.counted (by omega) answer failed
    refine { ok with counted := counted, blocks := fun a b hb => ok.blocks a b ?_ }
    rwa [Mem.block?, hlist, ← Mem.block?] at hb
  | carried carried => exact ok.carried_ok bound uva_lt carried

theorem handleSetRam_vmOk {startGpa size startUva flags : ℕ} (ok : VmOk host sp)
    (uva_lt : startUva < word) : VmOk host (handleSetRam sp startGpa size startUva flags).2 := by
  rcases h : handleSetRam sp startGpa size startUva flags with ⟨ret, sp'⟩
  obtain ⟨sp₀, adjusted, ⟨-, rfl⟩ | ⟨bound, sp₁, hset, rfl⟩⟩ := handleSetRam_cases ok.prot h
  · exact adjusted.ok ok
  · have ok₁ := memslotSetMapping_vmOk (adjusted.ok ok) bound uva_lt hset
    dsimp only
    split_ifs
    · exact ok₁.invept
    · exact ok₁

/-! ## The other calls -/

theorem protectNotify_eq {firstGfn npages : ℕ} (hl : sp.listenerList = [eptListener host]) :
    protectNotify firstGfn npages sp = sp.invalidate host firstGfn npages := by
  simp only [protectNotify, hl, List.foldl_cons, List.foldl_nil]
  rfl

/-- The bits of the pages from `first` up to `last` have been set or cleared; if
they were set, the EPT entries of these pages have been removed. -/
structure ProtectedRange (host : Host) (sp : GpaSpace EptTree) (first last : ℕ) (set : Bool)
    (sp' : GpaSpace EptTree) : Prop where
  nonempty : first < last
  bound : last ≤ sp.prot.endGfn
  result : ∃ sp₁ events, (∀ e ∈ events, ∃ i, e = .write i) ∧
    sp₁ = { sp with mem := sp.mem.log events, prot := sp₁.prot } ∧
    sp₁.prot.endGfn = sp.prot.endGfn ∧
    Bitmap.Overwritten sp.prot.bitmap sp₁.prot.bitmap first last set ∧
    sp' = if set then sp₁.invalidate host first (last - first) else sp₁

theorem haxVmProtectRam_cases {startGpa size flags : ℕ} (ok : VmOk host sp)
    (fits : startGpa + size ≤ word) (h : haxVmProtectRam sp startGpa size flags = (ret, sp')) :
    (ret ≠ 0 ∧ sp' = sp) ∨
      ret = 0 ∧ ProtectedRange host sp (startGpa / 2 ^ pgOrder4K)
        ((startGpa + size - 1) / 2 ^ pgOrder4K + 1) (flags &&& haxRamPermMask = haxRamPermNone)
          sp' := by
  cases gpaSpaceProtectRange_step ok.prot fits h with
  | refused failed => exact .inl ⟨failed, rfl⟩
  | @done _ _ bitmap events _ hfirst hlast nonempty inside perm bits written writes =>
    subst hfirst hlast
    refine .inr ⟨rfl, nonempty, inside, { sp with
      mem := sp.mem.log events
      prot := { sp.prot with bitmap := bitmap } }, events, fun e he => ?_, rfl, rfl, written, ?_⟩
    · obtain ⟨i, hi, -⟩ := writes e he
      exact ⟨i, hi⟩
    · rw [gpaSpaceSetProt, bits]
      rcases perm with perm | perm <;> rw [perm]
      · exact protectNotify_eq ok.listeners
      · rfl

theorem haxVmProtectRam_vmOk {startGpa size flags : ℕ} (ok : VmOk host sp)
    (fits : startGpa + size ≤ word) : VmOk host (haxVmProtectRam sp startGpa size flags).2 := by
  rcases h : haxVmProtectRam sp startGpa size flags with ⟨ret, sp'⟩
  rcases haxVmProtectRam_cases ok fits h with ⟨-, rfl⟩ | ⟨-, range⟩
  · exact ok
  · have bound := ok.prot
    obtain ⟨nonempty, hlast, sp₁, events, -, hsp₁, hend, -, rfl⟩ := range
    have ok₁ : VmOk host sp₁ := by
      rw [hsp₁]
      exact { ok with
        counted := ⟨⟨ok.counted.distinct.fresh, ok.counted.distinct.nodup⟩, ok.counted.count,
          ok.counted.live⟩
        prot := by rwa [hend] }
    dsimp only
    split_ifs
    · obtain ⟨place, tree⟩ := ok₁.tree
      exact { ok₁ with
        counted := ⟨⟨ok₁.counted.distinct.fresh, ok₁.counted.distinct.nodup⟩, ok₁.counted.count,
          ok₁.counted.live⟩
        tree := (eptTreeInvalidateEntries_invalidated tree (by omega)).ok }
    · exact ok₁

theorem eptHandleAccessViolation_vmOk {pin : Option ℕ} {qual gpa : ℕ} (ok : VmOk host sp) :
    VmOk host (eptHandleAccessViolation host pin sp qual gpa).2.2 := by
  rcases h : eptHandleAccessViolation host pin sp qual gpa with ⟨ret, fault, sp'⟩
  obtain ⟨added, hsp', henv | ⟨slot, a, b, c, o, r, filling⟩⟩ :=
    eptHandleAccessViolation_cases ok.blocks h
  · rw [hsp', henv]
    exact ok.chunksAdded added
  · obtain ⟨place, tree⟩ := ok.tree
    have created := (filling.tree_created tree (ok.slots slot filling.slot_covers.1).2.1).1
    rw [hsp']
    exact { ok.chunksAdded added with tree := created.ok }

theorem gpaSpaceGetPfn_added (blocks : ∀ a b, sp.mem.block? a = some b → b.Ok) (host : Host)
    (pin : Option ℕ) (gfn : ℕ) :
    ∃ m, ChunksAdded sp.mem m ∧ (gpaSpaceGetPfn host pin sp gfn).2.2 = { sp with mem := m } := by
  unfold gpaSpaceGetPfn
  rcases memslotFind sp.memslotList gfn with - | slot
  · exact ⟨sp.mem, .of_same rfl rfl, rfl⟩
  · dsimp only
    rcases hlocate : memslotLocate sp.mem slot (pageSize4K * (gfn - slot.baseGfn)) with
      ⟨- | ⟨block, o⟩, m₁⟩ <;> obtain ⟨hlist, hnext, located⟩ := memslotLocate_same hlocate
    · exact ⟨m₁, .of_same hlist hnext, rfl⟩
    · obtain ⟨a, -, hb, -⟩ := located block o rfl
      have hb₁ : m₁.block? a = some block := by rw [Mem.block?, hlist, ← Mem.block?, hb]
      have same : ChunksAdded sp.mem m₁ := .of_same hlist hnext
      dsimp only
      rw [Mem.addr_of_block? hb]
      rcases hget : ramblockGetChunk m₁ pin a o with ⟨- | c, m₂⟩ <;>
        obtain ⟨added, -⟩ := ramblockGetChunk_added hb₁ (blocks a block hb) hget
      · exact ⟨m₂, same.trans added, rfl⟩
      · refine ⟨_, ?_, rfl⟩
        exact (same.trans added).trans (.of_same rfl rfl)

theorem gpaSpaceGetPfn_vmOk {pin : Option ℕ} {gfn : ℕ} (ok : VmOk host sp) :
    VmOk host (gpaSpaceGetPfn host pin sp gfn).2.2 := by
  obtain ⟨m, added, h⟩ := gpaSpaceGetPfn_added ok.blocks host pin gfn
  rw [h]
  exact ok.chunksAdded added

theorem vmStep_ok {i : VmAnswers × VmCall} (ok : VmOk host sp) (sane : i.2.Sane) :
    VmOk host (vmStep host sp i) := by
  obtain ⟨answers, call⟩ := i
  have ok₀ := ok.withAnswers answers
  cases call with
  | addRamblock startUva size => exact handleAllocRam_vmOk ok₀ sane.1 sane.2
  | setRam startGpa size startUva flags => exact handleSetRam_vmOk ok₀ sane.2.2
  | protectRam startGpa size flags => exact haxVmProtectRam_vmOk ok₀ sane
  | accessViolation qual gpa pin => exact eptHandleAccessViolation_vmOk ok₀
  | getPfn gfn pin => exact gpaSpaceGetPfn_vmOk ok₀

/-! ## A small host -/

/-- A host with 64 page frames for tables, where pinned memory is contiguous. -/
def smallHost : Host where
  allocPageFrame used := ((List.range 64).map (BitVec.ofNat 40)).find? (!used.contains ·)
  getPfnUser memdesc offset := BitVec.ofNat 40 (memdesc + offset / pageSize4K)
  unused used p h := by simpa using List.find?_some h

/-- The EPT of a new guest on the small host. -/
def smallTree : EptTree where
  pageList := [0]
  root := 0
  table _ _ := Epte.zero
  freqPages := Function.update (fun _ => none) 0 (some 0)
  inveptPending := false

theorem smallTree_init : eptTreeInit smallHost = some smallTree := rfl

/-- The state after a sequence of calls on the small host, none of which is
refused anything. -/
def smallRun (calls : List VmCall) : GpaSpace EptTree :=
  (calls.map ({}, ·)).foldl (vmStep smallHost) (vmInit smallHost smallTree)

theorem smallRun_reached {allowed : GpaSpace EptTree → VmAnswers × VmCall → Prop}
    {calls : List VmCall}
    (run : AllowedRun allowed (vmStep smallHost) (vmInit smallHost smallTree)
      (calls.map ({}, ·))) :
    Reached (vmInit smallHost smallTree) allowed (vmStep smallHost) (smallRun calls) :=
  Reached.init.foldl run

end Haxm
