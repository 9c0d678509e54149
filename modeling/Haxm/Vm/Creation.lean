/-
# What a failed creation leaves behind

`hax_create_vm` and `vcpu_create` acquire what they need piece by piece, some of it
in functions with a clean-up of their own, and release it through labels that fall
through to each other. Each call has a ledger of what it holds, and which pieces the
host refuses is arbitrary. The functions of the host are those of Linux, where three
clean-ups are incomplete: a buffer of the tunnel stays mapped into user space, the
descriptor of a page is never freed, and a device that cannot be registered keeps its
name. `gpa_space_init` acquires nothing and refuses only a null pointer. `vcpu_id` is
still 0 when `vcpu_alloc_cpuid` and `vcpu_free_cpuid` look at it, so both act in every
call.
-/

import Mathlib.Tactic.Common

namespace Haxm

/-- The buffers that a virtual processor shares with user space. -/
inductive VcpuBuffer
  | tunnel | iobuf
  deriving DecidableEq, Repr

/-- The pages of a virtual processor. -/
inductive VcpuPage
  | vmcs | gfx
  deriving DecidableEq, Repr

/-- Blocks, page frames, mappings, locks, devices, the bits of the two identifiers, and the places
on the lists of virtual machines and processors. -/
inductive Resource
  | vmId | vm | eptLock | eptPage | eptPageFrame | vmLock | vmLinux | vmDevname | vmDevice
    | vmListed
  | vcpu | vcpumem (b : VcpuBuffer) | hinfo (b : VcpuBuffer) | pages (b : VcpuBuffer)
  | mapping (b : VcpuBuffer) | pinned (b : VcpuBuffer) | kva (b : VcpuBuffer)
  | haxPage (p : VcpuPage) | frames (p : VcpuPage) | vcpuState | tmutex | guestCpuid
  | vcpuLinux | vcpuDevname | vcpuDevice | vpid | vcpuListed
  deriving DecidableEq, Repr

/-- What a call holds, the latest first, and what it released without holding it. -/
structure Ledger where
  held : List Resource
  stray : List Resource
  deriving DecidableEq, Repr

namespace Ledger

def empty : Ledger := ⟨[], []⟩

def take (r : Resource) (s : Ledger) : Ledger := { s with held := r :: s.held }

def release (r : Resource) (s : Ledger) : Ledger :=
  if r ∈ s.held then { s with held := s.held.erase r } else { s with stray := r :: s.stray }

/-- A release that does nothing for a null pointer. -/
def releaseHeld (r : Resource) (s : Ledger) : Ledger := if r ∈ s.held then s.release r else s

end Ledger

open Ledger

/-- A function that acquires things, and whether it succeeds. -/
abbrev Creation := Ledger → Bool × Ledger

namespace Creation

/-- A failing `f` goes to `label`. -/
def orGoto (f : Creation) (label : Ledger → Ledger) : Creation := fun s =>
  if (f s).1 then f s else (false, label (f s).2)

def sequence : List Creation → Creation
  | [] => fun s => (true, s)
  | f :: l => fun s => if (f s).1 then sequence l (f s).2 else f s

/-- Nothing is left of a call that fails, and nothing was released twice. -/
def Clean (f : Creation) : Prop := (f empty).1 = false → (f empty).2 = empty

section
variable (fails : Resource → Bool)

def acquire (r : Resource) : Creation := fun s => if fails r then (false, s) else (true, s.take r)

/-- What a function does that cannot fail. -/
def always (f : Ledger → Ledger) : Creation := fun s => (true, f s)

/-! ## A virtual machine -/

/-- `ept_tree_alloc_page`. -/
def eptTreeAllocPage : Creation :=
  sequence [acquire fails .eptPage, (acquire fails .eptPageFrame).orGoto (release .eptPage)]

/-- `ept_tree_init`. -/
def eptTreeInit : Creation :=
  sequence [acquire fails .eptLock, (eptTreeAllocPage fails).orGoto (release .eptLock)]

/-- `hax_vm_create_host`. The name is not checked: without memory for it the kernel faults. -/
def haxVmCreateHost : Creation :=
  sequence [acquire fails .vmLinux, always (take .vmDevname),
    (acquire fails .vmDevice).orGoto (release .vmLinux)]

/-- The label `fail1` of `hax_create_vm`. -/
def vmFail1 (s : Ledger) : Ledger := release .vmId (release .vm s)

def vmFail2 (s : Ledger) : Ledger := vmFail1 (release .vmLock s)

def haxCreateVm (enabled : Bool) : Creation :=
  sequence [fun s => (enabled, s),
    acquire fails .vmId,
    (acquire fails .vm).orGoto (release .vmId),
    (eptTreeInit fails).orGoto vmFail1,
    (acquire fails .vmLock).orGoto vmFail1,
    (haxVmCreateHost fails).orGoto vmFail2,
    always (take .vmListed)]

/-! ## A virtual processor -/

/-- The label `fail` of `hax_setup_vcpumem`. -/
def vcpumemFail (b : VcpuBuffer) (s : Ledger) : Ledger :=
  releaseHeld (.hinfo b) (releaseHeld (.pages b) s)

/-- `hax_setup_vcpumem`. That `vmap` may return a null pointer is not checked, and `vunmap` accepts
one. -/
def haxSetupVcpumem (b : VcpuBuffer) : Creation :=
  sequence [(acquire fails (.hinfo b)).orGoto (vcpumemFail b),
    (acquire fails (.pages b)).orGoto (vcpumemFail b),
    (acquire fails (.mapping b)).orGoto (vcpumemFail b),
    (acquire fails (.pinned b)).orGoto (vcpumemFail b),
    always (take (.kva b))]

/-- `hax_clear_vcpumem`, which does not unmap. -/
def haxClearVcpumem (b : VcpuBuffer) (s : Ledger) : Ledger :=
  release (.hinfo b) (release (.pages b) (release (.pinned b) (release (.kva b) s)))

/-- A buffer is released with the block that describes it, if there is one. -/
def releaseBuffer (clear : VcpuBuffer → Ledger → Ledger) (b : VcpuBuffer) (s : Ledger) : Ledger :=
  if .vcpumem b ∈ s.held then release (.vcpumem b) (clear b s) else s

/-- The label `error` of `hax_vcpu_setup_hax_tunnel`, which clears a buffer that was set up. -/
def tunnelError (s : Ledger) : Ledger :=
  let clear b s := if .pinned b ∈ s.held then haxClearVcpumem b s else s
  releaseBuffer clear .iobuf (releaseBuffer clear .tunnel s)

def haxVcpuSetupHaxTunnel : Creation :=
  sequence [(acquire fails (.vcpumem .tunnel)).orGoto tunnelError,
    (acquire fails (.vcpumem .iobuf)).orGoto tunnelError,
    (haxSetupVcpumem fails .tunnel).orGoto tunnelError,
    (haxSetupVcpumem fails .iobuf).orGoto tunnelError]

def haxVcpuDestroyHaxTunnel (s : Ledger) : Ledger :=
  releaseBuffer haxClearVcpumem .iobuf (releaseBuffer haxClearVcpumem .tunnel s)

/-- `hax_alloc_pages`. -/
def haxAllocPages (p : VcpuPage) : Creation :=
  sequence [acquire fails (.haxPage p), (acquire fails (.frames p)).orGoto (release (.haxPage p))]

/-- `hax_free_pages`, which keeps the descriptor. -/
def haxFreePages (p : VcpuPage) : Ledger → Ledger := release (.frames p)

/-- `hax_vcpu_destroy_linux`. -/
def haxVcpuDestroyLinux (s : Ledger) : Ledger := release .vcpuLinux (haxVcpuDestroyHaxTunnel s)

/-- `hax_vcpu_create_host`, with a name as above. -/
def haxVcpuCreateHost : Creation :=
  sequence [acquire fails .vcpuLinux, always (take .vcpuDevname),
    (acquire fails .vcpuDevice).orGoto haxVcpuDestroyLinux]

/-- The label `fail_n` of `vcpu_create`, which falls through to the later ones. -/
def vcpuFail (n : ℕ) (s : Ledger) : Ledger :=
  ([release .guestCpuid, release .tmutex, release .vcpuState,
    fun s => if .frames .gfx ∈ s.held then haxFreePages .gfx s else s, haxFreePages .vmcs,
    haxVcpuDestroyHaxTunnel, release .vcpu].drop (7 - n)).foldl (fun s f => f s) s

def vcpuCreate (validId : Bool) : Creation :=
  sequence [fun s => (validId, s),
    (acquire fails .vcpu).orGoto (vcpuFail 0),
    (haxVcpuSetupHaxTunnel fails).orGoto (vcpuFail 1),
    (haxAllocPages fails .vmcs).orGoto (vcpuFail 2),
    (haxAllocPages fails .gfx).orGoto (vcpuFail 3),
    (acquire fails .vcpuState).orGoto (vcpuFail 4),
    (acquire fails .tmutex).orGoto (vcpuFail 5),
    (acquire fails .guestCpuid).orGoto (vcpuFail 6),
    (haxVcpuCreateHost fails).orGoto (vcpuFail 7),
    -- a virtual processor may go without a VPID
    always fun s => (acquire fails .vpid s).2.take .vcpuListed]

/-! ## The first refusal -/

/-- The host refuses none of these. -/
def Granted (rs : List Resource) : Prop := ∀ r ∈ rs, fails r = false

/-- What the function needs, in order, with what it leaves if that is the first to be refused. If
nothing is refused, it leads from `s` to `s'`. -/
def Ends (f : Creation) (s s' : Ledger) (needs : List (Resource × Ledger)) : Prop :=
  f s = match needs.find? fun o => fails o.1 with
    | none => (true, s')
    | some (_, left) => (false, left)

variable {fails} {f : Creation} {steps : List Creation} {r : Resource} {s s₁ s₂ : Ledger}
  {needs needs' : List (Resource × Ledger)}

theorem ends_acquire : Ends fails (acquire fails r) s (s.take r) [(r, s)] := by
  cases refused : fails r <;> simp [Ends, acquire, refused]

theorem ends_always {g : Ledger → Ledger} : Ends fails (always g) s (g s) [] := rfl

theorem ends_nil : Ends fails (sequence []) s s [] := rfl

theorem Ends.orGoto {label : Ledger → Ledger} (h : Ends fails f s s₁ needs) :
    Ends fails (f.orGoto label) s s₁ (needs.map (Prod.map id label)) := by
  rw [Ends, Creation.orGoto, h, List.find?_map]
  change _ = match (needs.find? fun o => fails o.1).map (Prod.map id label) with
    | none => (true, s₁)
    | some (_, left) => (false, left)
  cases needs.find? fun o => fails o.1 <;> rfl

theorem Ends.cons (h : Ends fails f s s₁ needs) (rest : Ends fails (sequence steps) s₁ s₂ needs') :
    Ends fails (sequence (f :: steps)) s s₂ (needs ++ needs') := by
  change (if (f s).1 then sequence steps (f s).2 else f s) = _
  rw [h, List.find?_append]
  cases needs.find? fun o => fails o.1 with
  | none => exact rest
  | some o => rfl

/-- Up to the point of no return a refusal leaves nothing, and from there on something. -/
theorem Ends.clean_iff (h : Ends fails f empty s needs) (n : ℕ)
    (clean : ∀ o ∈ needs.take n, o.2 = empty) (leaks : ∀ o ∈ needs.drop n, o.2 ≠ empty) :
    f.Clean ↔ (Granted fails ((needs.take n).map Prod.fst) →
      Granted fails ((needs.drop n).map Prod.fst)) := by
  have granted (l : List (Resource × Ledger)) :
      Granted fails (l.map Prod.fst) ↔ l.find? (fun o => fails o.1) = none := by
    simp [Granted]
  rw [← List.take_append_drop n needs, Ends, List.find?_append] at h
  rw [Clean, h, granted, granted]
  cases early : (needs.take n).find? fun o => fails o.1 with
  | some o => simpa using clean o (List.mem_of_find?_eq_some early)
  | none =>
    cases late : (needs.drop n).find? fun o => fails o.1 with
    | some o => simpa using leaks o (List.mem_of_find?_eq_some late)
    | none => simp

/-- A check of the arguments comes first. -/
theorem clean_check (b : Bool) :
    (sequence ((fun s => (b, s)) :: steps)).Clean ↔ (b = true → (sequence steps).Clean) := by
  cases b <;> simp [Clean, sequence]

/-! ## The two calls -/

theorem haxCreateVm_clean_iff (enabled : Bool) : (haxCreateVm fails enabled).Clean ↔
    (enabled = true → Granted fails [.vmId, .vm, .eptLock, .eptPage, .eptPageFrame] →
      Granted fails [.vmLock, .vmLinux, .vmDevice]) := by
  have tree {s : Ledger} : Ends fails (eptTreeInit fails) s _ _ :=
    ends_acquire.cons <| (ends_acquire.cons <| ends_acquire.orGoto.cons ends_nil).orGoto.cons
      ends_nil
  have host {s : Ledger} : Ends fails (haxVmCreateHost fails) s _ _ :=
    ends_acquire.cons <| ends_always.cons <| ends_acquire.orGoto.cons ends_nil
  rw [haxCreateVm, clean_check]
  exact imp_congr_right fun _ => Ends.clean_iff (ends_acquire.cons <| ends_acquire.orGoto.cons <|
    tree.orGoto.cons <| ends_acquire.orGoto.cons <| host.orGoto.cons <| ends_always.cons ends_nil)
    5 (by decide) (by decide)

theorem vcpuCreate_clean_iff (validId : Bool) : (vcpuCreate fails validId).Clean ↔
    (validId = true → Granted fails [.vcpu, .vcpumem .tunnel, .vcpumem .iobuf, .hinfo .tunnel,
        .pages .tunnel, .mapping .tunnel] →
      Granted fails [.pinned .tunnel, .hinfo .iobuf, .pages .iobuf, .mapping .iobuf, .pinned .iobuf,
        .haxPage .vmcs, .frames .vmcs, .haxPage .gfx, .frames .gfx, .vcpuState, .tmutex,
        .guestCpuid, .vcpuLinux, .vcpuDevice]) := by
  have buffer (b : VcpuBuffer) {s : Ledger} : Ends fails (haxSetupVcpumem fails b) s _ _ :=
    ends_acquire.orGoto.cons <| ends_acquire.orGoto.cons <| ends_acquire.orGoto.cons <|
      ends_acquire.orGoto.cons <| ends_always.cons ends_nil
  have tunnel {s : Ledger} : Ends fails (haxVcpuSetupHaxTunnel fails) s _ _ :=
    ends_acquire.orGoto.cons <| ends_acquire.orGoto.cons <| (buffer .tunnel).orGoto.cons <|
      (buffer .iobuf).orGoto.cons ends_nil
  have page (p : VcpuPage) {s : Ledger} : Ends fails (haxAllocPages fails p) s _ _ :=
    ends_acquire.cons <| ends_acquire.orGoto.cons ends_nil
  have host {s : Ledger} : Ends fails (haxVcpuCreateHost fails) s _ _ :=
    ends_acquire.cons <| ends_always.cons <| ends_acquire.orGoto.cons ends_nil
  rw [vcpuCreate, clean_check]
  exact imp_congr_right fun _ => Ends.clean_iff (ends_acquire.orGoto.cons <| tunnel.orGoto.cons <|
    (page .vmcs).orGoto.cons <| (page .gfx).orGoto.cons <| ends_acquire.orGoto.cons <|
    ends_acquire.orGoto.cons <| ends_acquire.orGoto.cons <| host.orGoto.cons <|
    ends_always.cons ends_nil) 6 (by decide) (by decide)

/-- For everything that the host may refuse, both creations release what they acquired exactly if a
virtual machine that has got its EPT tree also gets its lock and its device, and a virtual processor
that has mapped its tunnel also gets everything else. -/
theorem creation_clean_iff (enabled validId : Bool) :
    (haxCreateVm fails enabled).Clean ∧ (vcpuCreate fails validId).Clean ↔
      (enabled = true → Granted fails [.vmId, .vm, .eptLock, .eptPage, .eptPageFrame] →
        Granted fails [.vmLock, .vmLinux, .vmDevice]) ∧
      (validId = true → Granted fails [.vcpu, .vcpumem .tunnel, .vcpumem .iobuf, .hinfo .tunnel,
          .pages .tunnel, .mapping .tunnel] →
        Granted fails [.pinned .tunnel, .hinfo .iobuf, .pages .iobuf, .mapping .iobuf,
          .pinned .iobuf, .haxPage .vmcs, .frames .vmcs, .haxPage .gfx, .frames .gfx, .vcpuState,
          .tmutex, .guestCpuid, .vcpuLinux, .vcpuDevice]) :=
  and_congr (haxCreateVm_clean_iff enabled) (vcpuCreate_clean_iff validId)

end

/-- Without a lock the EPT tree is left behind, and without a device its name, the descriptors of
the pages and the mappings of the tunnel. -/
theorem creation_not_clean :
    haxCreateVm (· = .vmLock) true empty = (false, ⟨[.eptPageFrame, .eptPage, .eptLock], []⟩) ∧
      ¬ (haxCreateVm (· = .vmLock) true).Clean ∧
      vcpuCreate (· = .vcpuDevice) true empty = (false, ⟨[.vcpuDevname, .haxPage .gfx,
        .haxPage .vmcs, .mapping .iobuf, .mapping .tunnel], []⟩) ∧
      ¬ (vcpuCreate (· = .vcpuDevice) true).Clean :=
  ⟨by decide, fun clean => absurd (clean rfl) (by decide), by decide,
    fun clean => absurd (clean rfl) (by decide)⟩

end Creation

end Haxm
