/-
# Registers of 32 bits

In `vcpu_state_t` the names `_al`, `_ax` and `_eax` are parts of RAX, so that an
assignment to `_eax` leaves the upper half of RAX as it was. The processor clears it
for CPUID and for a port input of 32 bits. `exit_xsetbv` takes RAX and RDX as they are,
since the mask `~0UL` has 64 bits.
-/

import Haxm.Cpuid.SharedTable
import Haxm.Vcpu.IoPost

namespace Haxm

variable {x : BitVec 64}

/-- The upper half of a register. -/
def highWord (x : BitVec 64) : BitVec 32 := x.extractLsb' 32 32

/-- Results of 32 bits fill a register, shorter ones leave the rest of RAX alone, and XSETBV takes
EDX and EAX. -/
structure Vcpu.Exact32 (host : CpuidHost) (v : Vcpu) : Prop where
  cpuid : ∀ table stack len,
    let args := cpuidExecute host table
      { stack with eax := lowWord (v.state.regs 0), ecx := lowWord (v.state.regs 1) }
    let regs := (exitCpuid host table stack len v).state.regs
    regs 0 = args.eax.setWidth 64 ∧ regs 1 = args.ecx.setWidth 64 ∧
      regs 2 = args.edx.setWidth 64 ∧ regs 3 = args.ebx.setWidth 64
  input : ∀ {σ : Type} (env : ℕ → WriteEnv σ) (t : IoTunnel) (ioBuf : ℕ → BitVec 8) (s : IoVcpu),
    s.rax = v.state.regs 0 → t.direction ≠ haxIoOut → t.flags ≠ 1 →
    let rax := (handleIoPost env t ioBuf s).1.rax
    (t.size = 1 → rax = s.rax.extractLsb' 8 56 ++ ioBuf 0) ∧
      (t.size = 2 → rax = s.rax.extractLsb' 16 48 ++ (ioBuf 1 ++ ioBuf 0)) ∧
      (t.size = 4 → rax = (ioBuf 3 ++ ioBuf 2 ++ ioBuf 1 ++ ioBuf 0).setWidth 64)
  xsetbv : ∀ {n : ℕ} (s : XsaveVm n) (i : Fin n) (cpl : ℕ),
    Haxm.xsetbv host s i cpl (v.state.regs 1) (v.state.regs 0) (v.state.regs 2) =
      if (s.vcpu i).cr4 &&& cr4OSXSAVE = 0 ∨ cpl > 0 then s
      else vcpuSetXcr host s i (lowWord (v.state.regs 1))
        (lowWord (v.state.regs 2) ++ lowWord (v.state.regs 0))

theorem highWord_eq_zero_iff : highWord x = 0 ↔ ∀ i, 32 ≤ i → x.getLsbD i = false := by
  constructor
  · intro high i le
    have bit := congrArg (fun w => w.getLsbD (i - 32)) high
    simp [highWord, BitVec.getLsbD_extractLsb'] at bit
    grind
  · intro clear
    ext i lt
    simp [highWord, clear]

theorem setLowWord_eq_setWidth_iff (val : BitVec 32) :
    setLowWord x val = val.setWidth 64 ↔ highWord x = 0 := by
  rw [highWord_eq_zero_iff]
  constructor
  · intro same i le
    have bit := congrArg (fun w => w.getLsbD i) same
    simp [setLowWord] at bit
    grind
  · intro clear
    ext i lt
    simp [setLowWord]
    grind

theorem setLow_one (ioBuf : ℕ → BitVec 8) :
    x >>> 8 <<< 8 ||| ioBufLoad ioBuf 1 = x.extractLsb' 8 56 ++ ioBuf 0 := by
  unfold ioBufLoad ioBufLoad
  ext i lt
  simp
  grind

theorem setLow_two (ioBuf : ℕ → BitVec 8) :
    x >>> 16 <<< 16 ||| ioBufLoad ioBuf 2 = x.extractLsb' 16 48 ++ (ioBuf 1 ++ ioBuf 0) := by
  unfold ioBufLoad ioBufLoad ioBufLoad
  ext i lt
  simp
  grind

theorem setLow_four (high : highWord x = 0) (ioBuf : ℕ → BitVec 8) :
    x >>> 32 <<< 32 ||| ioBufLoad ioBuf 4 =
      (ioBuf 3 ++ ioBuf 2 ++ ioBuf 1 ++ ioBuf 0).setWidth 64 := by
  have clear := highWord_eq_zero_iff.mp high
  unfold ioBufLoad ioBufLoad ioBufLoad ioBufLoad ioBufLoad
  ext i lt
  simp
  grind

theorem xsetbvValue_eq (high : highWord x = 0) (rdx : BitVec 64) :
    xsetbvValue x rdx = lowWord rdx ++ lowWord x := by
  have clear := highWord_eq_zero_iff.mp high
  ext i lt
  simp [xsetbvValue, lowWord]
  grind

/-- All this holds exactly while the upper halves of RAX, RCX, RDX and RBX are zero. -/
theorem exact32_iff (host : CpuidHost) (v : Vcpu) :
    v.Exact32 host ↔ ∀ i ≤ 3, highWord (v.state.regs i) = 0 := by
  constructor
  · rintro ⟨cpuid, -, -⟩ i le
    obtain ⟨rax, rcx, rdx, rbx⟩ := cpuid [] {} 0
    rcases (by omega : i = 0 ∨ i = 1 ∨ i = 2 ∨ i = 3) with rfl | rfl | rfl | rfl
    · exact (setLowWord_eq_setWidth_iff _).mp rax
    · exact (setLowWord_eq_setWidth_iff _).mp rcx
    · exact (setLowWord_eq_setWidth_iff _).mp rdx
    · exact (setLowWord_eq_setWidth_iff _).mp rbx
  · intro high
    have rax := high 0 (by decide)
    refine ⟨fun table stack len => ?_, fun env t ioBuf s same input plain => ?_, fun s i cpl => ?_⟩
    · exact ⟨(setLowWord_eq_setWidth_iff _).mpr rax,
        (setLowWord_eq_setWidth_iff _).mpr (high 1 (by decide)),
        (setLowWord_eq_setWidth_iff _).mpr (high 2 (by decide)),
        (setLowWord_eq_setWidth_iff _).mpr (high 3 (by decide))⟩
    · rw [handleIoPost, if_neg input, if_neg plain]
      refine ⟨fun size => ?_, fun size => ?_, fun size => ?_⟩ <;> rw [size]
      · exact setLow_one ioBuf
      · exact setLow_two ioBuf
      · rw [← same] at rax
        exact setLow_four rax ioBuf
    · rw [Haxm.xsetbv, xsetbvValue_eq rax]

/-- A virtual CPU with all bits of RAX set. -/
def fullRax : Vcpu := vcpuWriteGpr 0 (-1) (vcpuCreate plainInfo 0)

/-- A zero of 32 bits is read from a port into RAX. -/
theorem handleIoPost_high :
    (handleIoPost (fun _ => onePageEnv) ⟨1, 4, 1, 0, 0⟩ (fun _ => 0)
        { plainIoVcpu with rax := -1 }).1.rax = 0xffffffff00000000 ∧
      ∀ host, ¬ fullRax.Exact32 host := by
  refine ⟨by decide, fun host exact32 => ?_⟩
  have wide := (exact32.input (fun _ => onePageEnv) ⟨1, 4, 1, 0, 0⟩ (fun _ => 0)
    { plainIoVcpu with rax := -1 } rfl (by decide) (by decide)).2.2 rfl
  revert wide
  decide

end Haxm
