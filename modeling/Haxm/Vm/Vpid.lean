/-
# Virtual processor identifiers

A VPID has the identifier of the virtual machine in its high byte and one more than a
free bit of the machine's `vpid_seed` in its low byte. The identifiers of machines
come from a bitmap of their own, which gets one back only when a machine without
virtual processors is torn down. A bitmap is given by the numbers of its set bits.
-/

import Mathlib.Algebra.Group.Nat.Defs
import Mathlib.Data.Finset.Card

namespace Haxm

/-- `HAX_MAX_VMS`. -/
def haxMaxVms (netbsd : Bool) : ℕ := if netbsd then 8 else 64

/-- The first clear bit below `max`; `hax_test_and_set_bit` changes nothing on the way to it. -/
def firstClear (bitmap : Finset ℕ) (max : ℕ) : Option ℕ := (List.range max).find? (· ∉ bitmap)

/-- A virtual machine with the `vpid` of each of its virtual processors. -/
structure VpidVm where
  vmId : ℕ
  vpidSeed : Finset ℕ
  vcpus : Multiset ℕ

/-- The VPID made of an identifier and a bit. -/
def vpidOf (vmId bit : ℕ) : ℕ := (vmId <<< 8 % 2 ^ 16 + (bit + 1)) % 2 ^ 16

/-- `vcpu_vpid_alloc` for a virtual processor with the given `vpid`: the result, its `vpid` and the
seed. -/
def vcpuVpidAlloc (vm : VpidVm) (vpid : ℕ) : ℤ × ℕ × Finset ℕ :=
  if vpid ≠ 0 then (-1, vpid, vm.vpidSeed) else
  match firstClear vm.vpidSeed 64 with
  | none => (-2, vpid, vm.vpidSeed)
  | some bit => (0, vpidOf vm.vmId bit, insert bit vm.vpidSeed)

def vcpuVpidFree (vm : VpidVm) (vpid : ℕ) : ℤ × ℕ × Finset ℕ :=
  if vpid = 0 then (-1, vpid, vm.vpidSeed) else
  (0, 0, vm.vpidSeed.erase (((vpid &&& 0xff) + 0xff) % 2 ^ 8))

def VpidVm.createVcpu (vm : VpidVm) : VpidVm :=
  let alloc := vcpuVpidAlloc vm 0
  { vm with vpidSeed := alloc.2.2, vcpus := alloc.2.1 ::ₘ vm.vcpus }

def VpidVm.teardownVcpu (vm : VpidVm) (vpid : ℕ) : VpidVm :=
  { vm with vpidSeed := (vcpuVpidFree vm vpid).2.2, vcpus := vm.vcpus.erase vpid }

structure VpidSystem where
  vmMidBits : Finset ℕ
  vms : Multiset VpidVm

/-- The creations and teardowns that are not refused. -/
inductive VpidStep (netbsd : Bool) : VpidSystem → VpidSystem → Prop
  | createVm {mids vms id} (clear : firstClear mids (haxMaxVms netbsd) = some id) :
      VpidStep netbsd ⟨mids, vms⟩ ⟨insert id mids, ⟨id, ∅, 0⟩ ::ₘ vms⟩
  | teardownVm {mids vms vm} (unused : vm.vcpus = 0) :
      VpidStep netbsd ⟨mids, vm ::ₘ vms⟩ ⟨mids.erase vm.vmId, vms⟩
  | createVcpu {mids vms vm} :
      VpidStep netbsd ⟨mids, vm ::ₘ vms⟩ ⟨mids, vm.createVcpu ::ₘ vms⟩
  | teardownVcpu {mids vms vm vpid} (mem : vpid ∈ vm.vcpus) :
      VpidStep netbsd ⟨mids, vm ::ₘ vms⟩ ⟨mids, vm.teardownVcpu vpid ::ₘ vms⟩

/-- The virtual processors that have a VPID. -/
def VpidVm.holding (vm : VpidVm) : Multiset ℕ := vm.vcpus.filter (· ≠ 0)

structure VpidsUnique (s : VpidSystem) : Prop where
  nodup : ∀ vm ∈ s.vms, vm.holding.Nodup
  disjoint : ∀ vm others, s.vms = vm ::ₘ others → ∀ vm' ∈ others,
    Disjoint vm.holding vm'.holding
  /-- An allocation with room takes a free bit, and nobody has the VPID that is made of it. -/
  alloc : ∀ vm ∈ s.vms, vm.holding.card < 64 → ∃ bit < 64, bit ∉ vm.vpidSeed ∧
    vcpuVpidAlloc vm 0 = (0, vpidOf vm.vmId bit, insert bit vm.vpidSeed) ∧
    vpidOf vm.vmId bit ≠ 0 ∧ ∀ vm' ∈ s.vms, vpidOf vm.vmId bit ∉ vm'.holding
  /-- After freeing, a number is available if it was before or is the one freed. -/
  free : ∀ vm ∈ s.vms, ∀ vpid ∈ vm.holding, ∀ bit < 64,
    bit ∉ (vcpuVpidFree vm vpid).2.2 ↔ bit ∉ vm.vpidSeed ∨ vpidOf vm.vmId bit = vpid

variable {netbsd : Bool} {s t : VpidSystem} {vm : VpidVm} {bit vpid : ℕ}

theorem firstClear_eq_some {bitmap : Finset ℕ} {max : ℕ} (h : firstClear bitmap max = some bit) :
    bit < max ∧ bit ∉ bitmap :=
  ⟨List.mem_range.1 (List.mem_of_find?_eq_some h), by simpa using List.find?_some h⟩

theorem vpidOf_eq {vmId : ℕ} (id : vmId < 64) (small : bit < 64) :
    vpidOf vmId bit = vmId * 256 + bit + 1 := by
  rw [vpidOf, Nat.shiftLeft_eq]
  omega

/-- The seed has the bits that the VPIDs in use are made of. -/
structure VpidVm.Ok (vm : VpidVm) : Prop where
  vmId : vm.vmId < 64
  seed : ∀ bit ∈ vm.vpidSeed, bit < 64
  holding : vm.holding = vm.vpidSeed.val.map (vm.vmId * 256 + · + 1)

namespace VpidVm.Ok
variable (h : vm.Ok)
include h

theorem mem_holding :
    vpid ∈ vm.holding ↔ ∃ bit ∈ vm.vpidSeed, vm.vmId * 256 + bit + 1 = vpid := by
  rw [h.holding, Multiset.mem_map]
  rfl

theorem vcpuVpidFree_eq (used : bit ∈ vm.vpidSeed) :
    vcpuVpidFree vm (vm.vmId * 256 + bit + 1) = (0, 0, vm.vpidSeed.erase bit) := by
  have small := h.seed bit used
  rw [vcpuVpidFree, if_neg (by omega), Nat.and_two_pow_sub_one_eq_mod _ 8]
  rw [show ((vm.vmId * 256 + bit + 1) % 2 ^ 8 + 255) % 2 ^ 8 = bit by omega]

theorem createVcpu : vm.createVcpu.Ok := by
  cases found : firstClear vm.vpidSeed 64 with
  | none =>
    refine ⟨h.vmId, ?_, ?_⟩
    · simpa [VpidVm.createVcpu, vcpuVpidAlloc, found] using h.seed
    · simpa [VpidVm.createVcpu, vcpuVpidAlloc, found, VpidVm.holding] using h.holding
  | some bit =>
    obtain ⟨small, fresh⟩ := firstClear_eq_some found
    simp only [VpidVm.createVcpu, vcpuVpidAlloc, found, vpidOf_eq h.vmId small]
    refine ⟨h.vmId, by simpa [small] using h.seed, ?_⟩
    simpa [VpidVm.holding, fresh] using h.holding

theorem teardownVcpu (mem : vpid ∈ vm.vcpus) : (vm.teardownVcpu vpid).Ok := by
  obtain ⟨rest, split⟩ := Multiset.exists_cons_of_mem mem
  have holding := h.holding
  rw [VpidVm.teardownVcpu, split, Multiset.erase_cons_head]
  rw [VpidVm.holding, split] at holding
  by_cases zero : vpid = 0
  · subst zero
    rw [Multiset.filter_cons_of_neg _ (by simp)] at holding
    exact ⟨h.vmId, h.seed, holding⟩
  · obtain ⟨bit, used, rfl⟩ := h.mem_holding.1 (Multiset.mem_filter.2 ⟨mem, zero⟩)
    rw [Multiset.filter_cons_of_pos (p := (· ≠ 0)) _ zero, ← Multiset.cons_erase used,
      Multiset.map_cons] at holding
    rw [h.vcpuVpidFree_eq used]
    exact ⟨h.vmId, fun b hb => h.seed b (Finset.mem_of_mem_erase hb),
      (Multiset.cons_inj_right _).1 holding⟩

end VpidVm.Ok

structure VpidSystem.Ok (s : VpidSystem) : Prop where
  ids : (s.vms.map VpidVm.vmId).Nodup
  vms : ∀ vm ∈ s.vms, vm.Ok ∧ vm.vmId ∈ s.vmMidBits

theorem VpidSystem.ok_cons {mids : Finset ℕ} {vms : Multiset VpidVm} : Ok ⟨mids, vm ::ₘ vms⟩ ↔
    (vm.Ok ∧ vm.vmId ∈ mids ∧ ∀ vm' ∈ vms, vm'.vmId ≠ vm.vmId) ∧ Ok ⟨mids, vms⟩ := by
  constructor
  · rintro ⟨ids, all⟩
    rw [Multiset.map_cons, Multiset.nodup_cons] at ids
    rw [Multiset.forall_mem_cons] at all
    exact ⟨⟨all.1.1, all.1.2, fun vm' mem same => ids.1 (same ▸ Multiset.mem_map_of_mem _ mem)⟩,
      ids.2, all.2⟩
  · rintro ⟨⟨ok, used, others⟩, ids, all⟩
    refine ⟨?_, Multiset.forall_mem_cons.2 ⟨⟨ok, used⟩, all⟩⟩
    rw [Multiset.map_cons, Multiset.nodup_cons]
    exact ⟨by simpa using others, ids⟩

theorem VpidSystem.Ok.step (h : s.Ok) (step : VpidStep netbsd s t) : t.Ok := by
  cases step with
  | createVm clear =>
    obtain ⟨small, fresh⟩ := firstClear_eq_some clear
    refine ok_cons.2 ⟨⟨⟨?_, by simp, rfl⟩, Finset.mem_insert_self _ _, fun vm mem same => ?_⟩,
      h.ids, fun vm mem => (h.vms vm mem).imp_right Finset.mem_insert_of_mem⟩
    · exact small.trans_le (by rw [haxMaxVms]; split <;> decide)
    · have used := (h.vms vm mem).2
      rw [same] at used
      exact fresh used
  | teardownVm =>
    obtain ⟨⟨-, -, others⟩, ids, vms⟩ := ok_cons.1 h
    exact ⟨ids, fun vm mem => (vms vm mem).imp_right (Finset.mem_erase.2 ⟨others vm mem, ·⟩)⟩
  | createVcpu =>
    obtain ⟨⟨ok, distinct⟩, rest⟩ := ok_cons.1 h
    exact ok_cons.2 ⟨⟨ok.createVcpu, distinct⟩, rest⟩
  | teardownVcpu mem =>
    obtain ⟨⟨ok, distinct⟩, rest⟩ := ok_cons.1 h
    exact ok_cons.2 ⟨⟨ok.teardownVcpu mem, distinct⟩, rest⟩

/-- Who has the VPID made of an identifier and a bit has both. -/
theorem VpidSystem.Ok.not_held {vm' : VpidVm} (h : s.Ok) (mem : vm ∈ s.vms) (mem' : vm' ∈ s.vms)
    (small : bit < 64) (fresh : bit ∉ vm.vpidSeed) : vpidOf vm.vmId bit ∉ vm'.holding := by
  intro held
  have ok := (h.vms vm mem).1
  have ok' := (h.vms vm' mem').1
  obtain ⟨bit', used, same⟩ := ok'.mem_holding.1 held
  rw [vpidOf_eq ok.vmId small] at same
  have small' := ok'.seed bit' used
  obtain ⟨ids, rfl⟩ : vm'.vmId = vm.vmId ∧ bit' = bit := by omega
  obtain rfl : vm' = vm := Multiset.inj_on_of_nodup_map h.ids vm' mem' vm mem ids
  exact fresh used

theorem vpids_unique (run : Relation.ReflTransGen (VpidStep netbsd) ⟨∅, 0⟩ s) :
    VpidsUnique s := by
  have ok : s.Ok := by
    induction run with
    | refl => exact ⟨by simp, by simp⟩
    | tail _ step ih => exact ih.step step
  refine ⟨fun vm mem => ?_, ?_, fun vm mem room => ?_, fun vm mem vpid held bit small => ?_⟩
  · have h := (ok.vms vm mem).1
    rw [h.holding]
    exact vm.vpidSeed.nodup.map fun x y same => by simpa using same
  · rintro vm others split vm' mem'
    obtain ⟨mids, vms⟩ := s
    obtain rfl := split
    obtain ⟨⟨h, -, distinct⟩, rest⟩ := VpidSystem.ok_cons.1 ok
    have h' := (rest.vms vm' mem').1
    rw [Multiset.disjoint_left]
    intro vpid held held'
    obtain ⟨bit, used, rfl⟩ := h.mem_holding.1 held
    obtain ⟨bit', used', same⟩ := h'.mem_holding.1 held'
    have := h.seed bit used
    have := h'.seed bit' used'
    exact distinct vm' mem' (by omega)
  · have h := (ok.vms vm mem).1
    cases clear : firstClear vm.vpidSeed 64 with
    | some bit =>
      obtain ⟨small, fresh⟩ := firstClear_eq_some clear
      refine ⟨bit, small, fresh, by simp [vcpuVpidAlloc, clear], ?_, fun vm' mem' =>
        ok.not_held mem mem' small fresh⟩
      rw [vpidOf_eq h.vmId small]
      omega
    | none =>
      have full : Finset.range 64 ⊆ vm.vpidSeed := by
        simpa [firstClear, Finset.subset_iff] using clear
      have := Finset.card_le_card full
      rw [h.holding, Multiset.card_map, Finset.card_val] at room
      rw [Finset.card_range] at this
      omega
  · have h := (ok.vms vm mem).1
    obtain ⟨k, used, rfl⟩ := h.mem_holding.1 held
    rw [h.vcpuVpidFree_eq used, vpidOf_eq h.vmId small]
    by_cases same : bit = k <;> simp [same]

theorem vpids_unique_two :
    VpidsUnique ⟨insert 0 ∅, (VpidVm.mk 0 ∅ 0).createVcpu.createVcpu ::ₘ 0⟩ :=
  @vpids_unique false _ (.tail (.tail (.tail .refl (.createVm rfl)) .createVcpu) .createVcpu)

end Haxm
