/-
# What the EPT is told

The EPT of a guest is the one listener of its memory map: when a mapping goes
away or changes, the entries of its range are removed. `Pruned` follows these
removals through a request; an entry stays where a table cannot be mapped.
-/

import Haxm.Ept.Violation
import Haxm.Memory.PassInvariant

namespace Haxm

open Lib

/-! ## Removals -/

/-- Entries have been removed, and nothing else has changed. -/
structure Pruned (tree tree' : EptTree) : Prop where
  ok : ∃ place, TreeOk tree' place
  leaf : ∀ g, GfnOk g → tree'.leaf g = tree.leaf g ∨ tree'.leaf g = Epte.zero

variable {tree tree₁ tree₂ : EptTree} {place : Pfn → Option (ℕ × ℕ)} {host : Host}
  {startGfn npages : ℕ}

theorem Pruned.refl (ok : TreeOk tree place) : Pruned tree tree :=
  ⟨⟨place, ok⟩, fun _ _ => .inl rfl⟩

theorem Pruned.trans (first : Pruned tree tree₁) (second : Pruned tree₁ tree₂) :
    Pruned tree tree₂ where
  ok := second.ok
  leaf g hg := by
    rcases second.leaf g hg with same | gone
    · rw [same]
      exact first.leaf g hg
    · exact .inr gone

/-- A page without an entry gets none. -/
theorem Pruned.unmapped {g : ℕ} (pruned : Pruned tree tree₁) (hg : GfnOk g)
    (h : tree.leaf g = Epte.zero) : tree₁.leaf g = Epte.zero :=
  (pruned.leaf g hg).elim (·.trans h) id

theorem Invalidated.pruned {first last : ℕ} (inv : Invalidated tree first last tree₁) :
    Pruned tree tree₁ :=
  ⟨inv.ok, fun g hg => (inv.leaf g hg).imp_right And.right⟩

theorem eptTreeInvalidateEntries_invalidated (ok : TreeOk tree place)
    (bound : startGfn + npages ≤ 2 ^ 36) : Invalidated tree startGfn (startGfn + npages)
      (eptTreeInvalidateEntries host tree startGfn npages).2.1 :=
  (eptTreeInvalidateEntries_spec ok bound rfl).1

/-! ## The listener -/

/-- A removal neither unpins pages nor faults. -/
theorem eptTreeInvalidateLoop_keeps (n gfn : ℕ) (tree : EptTree) :
    ∀ e ∈ (eptTreeInvalidateLoop host gfn n tree).2.2, e.Keeps := by
  induction n generalizing gfn tree with
  | zero => simp [eptTreeInvalidateLoop]
  | succ n ih =>
    intro e he
    rw [eptTreeInvalidateLoop] at he
    rcases List.mem_append.1 he with he | he
    · unfold eptTreeInvalidateEntry at he
      split at he
      · simp at he
      · dsimp only at he
        split_ifs at he
        · simp at he
        · rw [List.mem_singleton.1 he]
          trivial
    · exact ih _ _ e he

theorem eptListener_keeps (host : Host) : ListenersKeep [eptListener host] := by
  intro l hl
  obtain rfl := List.mem_singleton.1 hl
  refine ⟨fun f hf => ?_, fun f hf env s n u fl => ?_, fun f hf env s n u fl u' fl' => ?_⟩
  · cases hf
  · cases hf
    exact eptTreeInvalidateLoop_keeps _ _ _
  · cases hf
    exact eptTreeInvalidateLoop_keeps _ _ _

/-- The entries of a range are removed from the EPT of a guest. -/
def GpaSpace.invalidate (host : Host) (sp : GpaSpace EptTree) (startGfn npages : ℕ) :
    GpaSpace EptTree :=
  { sp with
    env := (eptTreeInvalidateEntries host sp.env startGfn npages).2.1
    mem := sp.mem.log (eptTreeInvalidateEntries host sp.env startGfn npages).2.2 }

variable {sp sp' sp₁ : GpaSpace EptTree}

theorem mappingNotifyListeners_eq (hl : sp.listenerList = [eptListener host])
    (hole slot : MemslotMapping) :
    mappingNotifyListeners sp (some hole) (some slot) =
      if slot.callback = .mappingRemoved ∨ slot.callback = .mappingChanged
      then sp.invalidate host slot.startGfn slot.npages else sp := by
  -- the EPT does not want to know about new mappings
  have hole_ignored : (if hole.callback = .mappingAdded then
      sp.call ((eptListener host).mappingAdded.map fun f env =>
        f env hole.startGfn hole.npages hole.newUva (hole.newFlags % 256)) else sp) = sp :=
    ite_self sp
  simp only [mappingNotifyListeners, hl, List.foldl_cons, List.foldl_nil, notifyListener,
    hole_ignored]
  rcases hcallback : slot.callback with - | - | - | - <;>
    simp [GpaSpace.call, eptListener, GpaSpace.invalidate]

theorem mappingNotifyListeners_hole (hl : sp.listenerList = [eptListener host])
    (hole : MemslotMapping) : mappingNotifyListeners sp (some hole) none = sp := by
  simp only [mappingNotifyListeners, hl, List.foldl_cons, List.foldl_nil, notifyListener]
  exact ite_self sp

theorem mappingNotifyListeners_pruned (hl : sp.listenerList = [eptListener host])
    (ok : TreeOk sp.env place) (hole : MemslotMapping) {slot : MemslotMapping}
    (bound : slot.startGfn + slot.npages ≤ 2 ^ 36) :
    Pruned sp.env (mappingNotifyListeners sp (some hole) (some slot)).env := by
  rw [mappingNotifyListeners_eq hl]
  split_ifs
  · exact (eptTreeInvalidateEntries_invalidated ok bound).pruned
  · exact .refl ok

/-! ## The broadcast -/

variable {dest src : Memslot} {mapping hole hole' : MemslotMapping}
  {isValid isFirst : Bool} {snapshot left : List Memslot}

/-- What the listeners are told about one of the copies lies within the tables. -/
theorem mappingCalcSlot_bound (hmapping : mapping.startGfn + mapping.npages ≤ 2 ^ 31)
    (hsrc : src.endGfn ≤ 2 ^ 31) (uva : ℕ) (isValid isTerminal isChanged : Bool) :
    (mappingCalcSlot mapping src uva isValid isTerminal isChanged).startGfn +
      (mappingCalcSlot mapping src uva isValid isTerminal isChanged).npages ≤ 2 ^ 36 := by
  unfold Memslot.endGfn at hsrc
  cases isChanged <;> cases isTerminal <;> simp [mappingCalcSlot, mappingIntersect] <;> omega

section Broadcast

variable (hl : sp.listenerList = [eptListener host]) (ok : TreeOk sp.env place)
  (hmapping : mapping.startGfn + mapping.npages ≤ 2 ^ 31)
  (bound : ∀ s ∈ snapshot, s.endGfn ≤ 2 ^ 31)

include hl ok hmapping bound

theorem mappingBroadcastLoop_pruned
    (h : mappingBroadcastLoop mapping dest isValid sp hole isFirst snapshot = (sp', hole')) :
    Pruned sp.env sp'.env ∧ sp'.listenerList = [eptListener host] := by
  induction snapshot generalizing sp hole isFirst place with
  | nil =>
    cases h
    exact ⟨.refl ok, hl⟩
  | cons src rest ih =>
    rw [mappingBroadcastLoop] at h
    generalize (isFirst || rest.isEmpty) = isTerminal at h
    generalize hsp₀ : (if mappingIsChanged dest src isValid isTerminal = true
      then { sp with mem := sp.mem.touch src.block } else sp) = sp₀ at h
    obtain ⟨henv, hl₀⟩ : sp₀.env = sp.env ∧ sp₀.listenerList = [eptListener host] := by
      rw [← hsp₀]
      split_ifs <;> exact ⟨rfl, hl⟩
    rw [← henv] at ok ⊢
    have told := mappingNotifyListeners_pruned hl₀ ok
      (mappingCalcHole mapping src isValid isTerminal hole)
      (mappingCalcSlot_bound hmapping (bound src (by simp)) (sp₀.mem.baseUva src.block) isValid
        isTerminal (mappingIsChanged dest src isValid isTerminal))
    have hl₁ := (mappingNotifyListeners_listeners sp₀ (some (mappingCalcHole mapping src isValid
      isTerminal hole)) (some (mappingCalcSlot mapping src (sp₀.mem.baseUva src.block) isValid
      isTerminal (mappingIsChanged dest src isValid isTerminal)))).trans hl₀
    generalize mappingNotifyListeners sp₀ _ _ = sp₁ at h told hl₁
    obtain ⟨place₁, ok₁⟩ := told.ok
    obtain ⟨pruned, hl'⟩ := ih (by exact hl₁) (by exact ok₁) (fun s hs => bound s (by simp [hs])) h
    exact ⟨told.trans pruned, hl'⟩

theorem mappingBroadcast_pruned (h : mappingBroadcast sp mapping dest snapshot = (sp', left)) :
    Pruned sp.env sp'.env := by
  rw [mappingBroadcast, if_neg (by simp [hl])] at h
  by_cases hempty : snapshot.isEmpty = true
  · rw [if_pos hempty, mappingNotifyListeners_hole hl] at h
    cases h
    exact .refl ok
  · rw [if_neg hempty] at h
    rcases hloop : mappingBroadcastLoop mapping dest (memslotIsValid mapping.newFlags) sp
      { startGfn := mapping.startGfn } true snapshot with ⟨sp₁, hole⟩
    obtain ⟨pruned, hl₁⟩ := mappingBroadcastLoop_pruned hl ok hmapping bound hloop
    simp only [hloop] at h
    split_ifs at h
    · rw [mappingNotifyListeners_hole hl₁] at h
      cases h
      exact pruned
    · cases h
      exact pruned

end Broadcast

/-! ## The whole request -/

/-- A request removes entries at most. -/
theorem Carried.pruned {uva flags : ℕ} {ret : ℤ} {block : Option ℕ} {m₁ m₂ : Mem}
    {list : List Memslot}
    (carried : Carried sp startGfn npages uva flags ret sp' block dest m₁ m₂ list snapshot left sp₁)
    (hl : sp.listenerList = [eptListener host]) (ok : TreeOk sp.env place)
    (bound : ∀ s ∈ sp.memslotList, s.endGfn ≤ 2 ^ 31) (range : startGfn + npages ≤ 2 ^ 31) :
    Pruned sp.env sp'.env := by
  rw [carried.released]
  change Pruned sp.env sp₁.env
  have copied (s : Memslot) (hs : s ∈ snapshot) : s.endGfn ≤ 2 ^ 31 :=
    bound s (memslotPass_snapshot_subset carried.passed hs)
  have htold := carried.told
  generalize hsp₀ : ({ sp with mem := m₂, memslotList := list } : GpaSpace EptTree) = sp₀ at htold
  obtain ⟨hl₀, henv⟩ : sp₀.listenerList = [eptListener host] ∧ sp₀.env = sp.env := by
    rw [← hsp₀]
    exact ⟨hl, rfl⟩
  rw [← henv] at ok ⊢
  split_ifs at htold
  · exact mappingBroadcast_pruned hl₀ ok range copied htold
  · cases htold
    exact .refl ok

end Haxm
