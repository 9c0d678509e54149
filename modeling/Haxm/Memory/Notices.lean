/-
# What a listener is told

A request tells a listener about the ranges that it adds, removes or changes.
These notices do not depend on the listener: any listener acts on the notices
that a listener hears that only writes them down. They are computed from the
copies of the old slots, one after the other, together with the holes in front
of each copy and behind the last one.
-/

import Haxm.Memory.Unfailing

namespace Haxm

open Lib

/-- A call of one of the callbacks, with its arguments. -/
inductive Notice
  | added (startGfn npages uva flags : ℕ)
  | removed (startGfn npages uva flags : ℕ)
  | changed (startGfn npages oldUva oldFlags newUva newFlags : ℕ)
  deriving DecidableEq, Repr

namespace Notice

def startGfn : Notice → ℕ
  | added s .. | removed s .. | changed s .. => s

def npages : Notice → ℕ
  | added _ n .. | removed _ n .. | changed _ n .. => n

/-- The frame lies in the range of the notice. -/
def Covers (n : Notice) (gfn : ℕ) : Prop := n.startGfn ≤ gfn ∧ gfn < n.startGfn + n.npages

/-- The notice is about a mapping that goes away or changes. -/
def isLost : Notice → Bool
  | added .. => false
  | removed .. | changed .. => true

/-- The notice is about a new mapping. -/
def isAdded (n : Notice) : Bool := !n.isLost

end Notice

variable {σ : Type*}

/-- A listener acts on a notice, if it has the callback. -/
def Listener.hear (l : Listener σ) (env : σ) : Notice → σ
  | .added s n u f => l.mappingAdded.elim env fun callback => (callback env s n u f).1
  | .removed s n u f => l.mappingRemoved.elim env fun callback => (callback env s n u f).1
  | .changed s n u f u' f' =>
    l.mappingChanged.elim env fun callback => (callback env s n u f u' f').1

/-- A listener that writes down what it is told. -/
def recorder : Listener (List Notice) where
  mappingAdded := some fun env s n u f => (env ++ [.added s n u f], [])
  mappingRemoved := some fun env s n u f => (env ++ [.removed s n u f], [])
  mappingChanged := some fun env s n u f u' f' => (env ++ [.changed s n u f u' f'], [])

/-- The same space, listened to by a recorder only. -/
def GpaSpace.recording (sp : GpaSpace σ) : GpaSpace (List Notice) where
  mem := sp.mem
  memslotList := sp.memslotList
  listenerList := [recorder]
  prot := sp.prot
  env := []

/-- What a request tells a listener. -/
def notices (sp : GpaSpace σ) (startGfn npages uva flags : ℕ) : List Notice :=
  (memslotSetMapping sp.recording startGfn npages uva flags).2.env

@[simp] theorem recorder_hear (env : List Notice) (n : Notice) :
    recorder.hear env n = env ++ [n] := by
  cases n <;> rfl

theorem recorder_foldl (env l : List Notice) : l.foldl recorder.hear env = env ++ l := by
  induction l generalizing env with
  | nil => simp
  | cons n l ih => simp [ih]

theorem recorder_keeps : recorder.Keeps where
  added f hf := by
    cases hf
    simp
  removed f hf := by
    cases hf
    simp
  changed f hf := by
    cases hf
    simp

/-! ## One call of `mapping_notify_listeners` -/

def holeNotice (hole : MemslotMapping) : List Notice :=
  if hole.callback = .mappingAdded then
    [.added hole.startGfn hole.npages hole.newUva (hole.newFlags % 256)]
  else []

def slotNotice (slot : MemslotMapping) : List Notice :=
  match slot.callback with
  | .mappingRemoved => [.removed slot.startGfn slot.npages slot.oldUva (slot.oldFlags % 256)]
  | .mappingChanged => [.changed slot.startGfn slot.npages slot.oldUva (slot.oldFlags % 256)
      slot.newUva (slot.newFlags % 256)]
  | _ => []

variable {sp sp' : GpaSpace σ} {l : Listener σ} {hole hole' slot mapping : MemslotMapping}
  {dest src s : Memslot} {snapshot list rest left : List Memslot}
  {isValid isFirst isTerminal : Bool}
  {base : Option ℕ → ℕ} {held : ℕ → ℕ} {start startGfn npages uva flags : ℕ}

theorem notifyListener_hole_env :
    (notifyListener (some hole) none sp l).env = (holeNotice hole).foldl l.hear sp.env := by
  unfold notifyListener holeNotice
  by_cases added : hole.callback = .mappingAdded
  · cases hl : l.mappingAdded <;> simp [added, Listener.hear, GpaSpace.call, hl]
  · simp [added]

theorem notifyListener_slot_env :
    (notifyListener none (some slot) sp l).env = (slotNotice slot).foldl l.hear sp.env := by
  unfold notifyListener slotNotice
  rcases hcallback : slot.callback with - | - | - | -
  · simp [hcallback]
  · simp [hcallback]
  · cases hl : l.mappingRemoved <;> simp [hcallback, Listener.hear, GpaSpace.call, hl]
  · cases hl : l.mappingChanged <;> simp [hcallback, Listener.hear, GpaSpace.call, hl]

/-- A listener is told about the hole first, then about the slot. -/
theorem notifyListener_env :
    (notifyListener (some hole) (some slot) sp l).env =
      (holeNotice hole ++ slotNotice slot).foldl l.hear sp.env := by
  have split : notifyListener (some hole) (some slot) sp l =
      notifyListener none (some slot) (notifyListener (some hole) none sp l) l := rfl
  rw [split, notifyListener_slot_env, notifyListener_hole_env, List.foldl_append]

/-! ## The broadcast -/

/-- The notices about the copies from `isFirst` on, and about the holes in front of
them; `start` is where the first hole starts and `base` where the blocks do. -/
def loopNotices (mapping : MemslotMapping) (dest : Memslot) (isValid : Bool) (base : Option ℕ → ℕ)
    (start : ℕ) (isFirst : Bool) : List Memslot → List Notice
  | [] => []
  | src :: rest =>
    let isTerminal := isFirst || rest.isEmpty
    holeNotice (mappingCalcHole mapping src isValid isTerminal { startGfn := start }) ++
      slotNotice (mappingCalcSlot mapping src (base src.block) isValid isTerminal
        (mappingIsChanged dest src isValid isTerminal)) ++
      loopNotices mapping dest isValid base src.endGfn false rest

/-- Where the hole behind the copies starts. -/
def holeStart (start : ℕ) : List Memslot → ℕ
  | [] => start
  | src :: rest => holeStart src.endGfn rest

/-- The notices of `mapping_broadcast`. -/
def broadcastNotices (mapping : MemslotMapping) (dest : Memslot) (base : Option ℕ → ℕ)
    (snapshot : List Memslot) : List Notice :=
  if snapshot.isEmpty then holeNotice { mapping with callback := .mappingAdded }
  else
    let isValid := memslotIsValid mapping.newFlags
    let start := holeStart mapping.startGfn snapshot
    loopNotices mapping dest isValid base mapping.startGfn true snapshot ++
      if isValid && start < mapping.startGfn + mapping.npages then
        [.added start (mapping.startGfn + mapping.npages - start)
          (add64 mapping.newUva (shl64 (start - mapping.startGfn) pgOrder4K))
          (mapping.newFlags % 256)]
      else []

/-- Only the start of the hole is carried from one round to the next. -/
theorem holeNotice_calcHole :
    holeNotice (mappingCalcHole mapping src isValid isTerminal hole) =
      holeNotice
        (mappingCalcHole mapping src isValid isTerminal { startGfn := hole.startGfn }) := by
  unfold mappingCalcHole
  by_cases ahead : (isValid && hole.startGfn < src.baseGfn) = true
  · rw [if_pos ahead, if_pos ahead]
    cases isTerminal <;> rfl
  · rw [if_neg ahead, if_neg ahead]
    rfl

section Broadcast

variable (hl : sp.listenerList = [l]) (keeps : l.Keeps)
  (counted : Counted sp.mem fun a => refs snapshot a + held a)
  (live : ∀ s ∈ snapshot, s.block.isSome)
  (hbase : ∀ s ∈ snapshot, sp.mem.baseUva s.block = base s.block)

include hl keeps counted live hbase

/-- The copies keep their blocks alive, and so the addresses that the notices
mention are those from before the request. -/
theorem mappingBroadcastLoop_env
    (h : mappingBroadcastLoop mapping dest isValid sp hole isFirst snapshot = (sp', hole')) :
    sp'.env = (loopNotices mapping dest isValid base hole.startGfn isFirst snapshot).foldl l.hear
        sp.env ∧
      hole'.startGfn = holeStart hole.startGfn snapshot ∧ sp'.listenerList = [l] := by
  induction snapshot generalizing sp hole isFirst with
  | nil =>
    cases h
    exact ⟨rfl, rfl, hl⟩
  | cons src rest ih =>
    obtain ⟨a, ha⟩ := Option.isSome_iff_exists.1 (live src (by simp))
    have touched : sp.mem.touch src.block = sp.mem := touch_eq counted ha (by simp [holds, ha])
    simp only [mappingBroadcastLoop, touched, ite_self, hbase src (by simp)] at h
    generalize hterminal : (isFirst || rest.isEmpty) = isTerminal at h
    generalize hcalc : mappingCalcHole mapping src isValid isTerminal hole = newHole at h
    generalize hslot : mappingCalcSlot mapping src (base src.block) isValid isTerminal
      (mappingIsChanged dest src isValid isTerminal) = slot at h
    have keeps' : ListenersKeep sp.listenerList := by
      rw [hl]
      intro l' hl'
      obtain rfl := List.mem_singleton.1 hl'
      exact keeps
    have told := (mappingNotifyListeners_told (some newHole) (some slot) keeps' counted).release
    have henv : (mappingNotifyListeners sp (some newHole) (some slot)).env =
        (holeNotice newHole ++ slotNotice slot).foldl l.hear sp.env := by
      rw [mappingNotifyListeners, hl, List.foldl_cons, List.foldl_nil, notifyListener_env]
    -- what the other copies refer to has not moved
    have hbase' (s : Memslot) (hs : s ∈ rest) :
        (ramblockDeref (mappingNotifyListeners sp (some newHole) (some slot)).mem
          src.block).baseUva s.block = base s.block := by
      obtain ⟨b, hb⟩ := Option.isSome_iff_exists.1 (live s (by simp [hs]))
      rw [← hbase s (by simp [hs]), hb]
      refine Mem.baseUva_eq_of_contents (told.since.contents b ?_)
      have := refs_pos_of_mem hs hb
      omega
    obtain ⟨henv', hstart, hl'⟩ := ih (told.listenerList.trans hl) told.since.counted
      (fun s hs => live s (by simp [hs])) hbase' h
    refine ⟨?_, hstart, hl'⟩
    rw [henv']
    change List.foldl l.hear (mappingNotifyListeners sp (some newHole) (some slot)).env _ = _
    rw [henv, ← List.foldl_append, loopNotices]
    simp only [hterminal, hslot]
    rw [← holeNotice_calcHole, hcalc]

theorem mappingBroadcast_env (h : mappingBroadcast sp mapping dest snapshot = (sp', left)) :
    sp'.env = (broadcastNotices mapping dest base snapshot).foldl l.hear sp.env := by
  rw [mappingBroadcast, if_neg (by simp [hl])] at h
  by_cases hempty : snapshot.isEmpty = true
  · rw [if_pos hempty] at h
    cases h
    rw [mappingNotifyListeners, hl, List.foldl_cons, List.foldl_nil, notifyListener_hole_env,
      broadcastNotices, if_pos hempty]
  · rw [if_neg hempty] at h
    rcases hloop : mappingBroadcastLoop mapping dest (memslotIsValid mapping.newFlags) sp
      { startGfn := mapping.startGfn } true snapshot with ⟨sp₁, hole⟩
    obtain ⟨henv, hstart, hl₁⟩ := mappingBroadcastLoop_env hl keeps counted live hbase hloop
    simp only [hloop, hstart] at h
    rw [broadcastNotices, if_neg hempty]
    dsimp only
    split_ifs at h ⊢ with htail
    · cases h
      rw [mappingNotifyListeners, hl₁, List.foldl_cons, List.foldl_nil, notifyListener_hole_env,
        henv, List.foldl_append]
      rfl
    · cases h
      rw [henv, List.append_nil]

end Broadcast

/-! ## The request -/

/-- What a request with these copies tells. -/
def requestNotices (sp : GpaSpace σ) (startGfn npages uva flags : ℕ) (snapshot : List Memslot) :
    List Notice :=
  if sp.memslotList ≠ [] ∨ memslotIsValid flags then
    broadcastNotices { startGfn := startGfn, npages := npages, newUva := uva, newFlags := flags }
      (requestSlot sp startGfn npages uva flags) sp.mem.baseUva snapshot
  else []

section Carried

variable {block : Option ℕ} {m₁ m₂ : Mem} {sp₁ : GpaSpace σ}
  (carried : Carried sp startGfn npages uva flags 0 sp' block dest m₁ m₂ list snapshot left sp₁)
  (ok : SpaceOk sp) (bound : startGfn + npages < 2 ^ 31)

include carried ok bound

theorem Carried.env_eq (hl : sp.listenerList = [l]) :
    sp'.env = (requestNotices sp startGfn npages uva flags snapshot).foldl l.hear sp.env := by
  have keeps : l.Keeps := ok.keeps l (by simp [hl])
  have passed := carried.pass_since ok.counted (by omega)
  have copied (s : Memslot) (hs : s ∈ snapshot) : s ∈ sp.memslotList :=
    memslotPass_snapshot_subset carried.passed hs
  have live (s : Memslot) (hs : s ∈ snapshot) : s.block.isSome := (ok.slot_placed (copied s hs)).2.2
  have hbase (s : Memslot) (hs : s ∈ snapshot) :
      m₂.baseUva s.block = sp.mem.baseUva s.block := by
    obtain ⟨a, ha⟩ := Option.isSome_iff_exists.1 (live s hs)
    rw [← carried.baseUva_before ok bound (copied s hs), ha]
    refine Mem.baseUva_eq_of_contents (passed.contents a ?_)
    have := refs_pos_of_mem hs ha
    omega
  have counted : Counted m₂ fun a => refs snapshot a + (refs list a + holds block a) := by
    convert passed.counted using 2
    omega
  have htold := carried.told
  have henv : sp'.env = sp₁.env := by rw [carried.released]
  rw [henv, requestNotices, ← carried.dest_eq_requestSlot]
  split_ifs at htold ⊢ with hnotify htells htells
  · generalize hsp₀ : ({ sp with mem := m₂, memslotList := list } : GpaSpace σ) = sp₀ at htold
    obtain ⟨hmem, hl₀, henv₀⟩ : sp₀.mem = m₂ ∧ sp₀.listenerList = [l] ∧ sp₀.env = sp.env := by
      rw [← hsp₀]
      exact ⟨rfl, hl, rfl⟩
    rw [← hmem] at counted hbase
    rw [← henv₀]
    exact mappingBroadcast_env hl₀ keeps counted live hbase htold
  · exact absurd ⟨rfl, hnotify⟩ htells
  · exact absurd htells.2 hnotify
  · cases htold
    rfl

end Carried

/-- Putting a recorder in the place of the listeners changes nothing else. -/
theorem SpaceOk.recording (ok : SpaceOk sp) : SpaceOk sp.recording where
  counted := ok.counted
  ordered := ok.ordered
  placed := ok.placed
  blocks := ok.blocks
  keeps l hl := by
    obtain rfl := List.mem_singleton.1 hl
    exact recorder_keeps

/-- Whether a request succeeds does not depend on the listeners. -/
theorem memslotSetMapping_recording_ret (sp : GpaSpace σ) (startGfn npages uva flags : ℕ) :
    (memslotSetMapping sp.recording startGfn npages uva flags).1 =
      (memslotSetMapping sp startGfn npages uva flags).1 := by
  have hmem : sp.recording.mem = sp.mem := rfl
  have hlist : sp.recording.memslotList = sp.memslotList := rfl
  unfold memslotSetMapping
  rw [hmem, hlist]
  split_ifs
  · rfl
  · rcases memslotBlock sp.mem npages uva flags with ⟨ret, block, m⟩
    dsimp only
    split_ifs <;> rfl

end Haxm
