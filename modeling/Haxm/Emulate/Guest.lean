/-
# A guest to emulate

A virtual CPU for the emulator: registers, flags, segment bases and a memory of
bytes. The environment decides of each memory access whether it is answered at
once. The guest keeps a log of the calls that others can see, which the program
does not have; a memory access is logged with the registers that the virtual CPU
has at that moment.
-/

import Haxm.Lib.Bytes
import Haxm.Emulate.Registers

namespace Haxm

open Lib

inductive GuestEvent
  | read (la : BitVec 64) (size : ℕ) (value : BitVec 64) (gpr : Fin 16 → BitVec 64)
  | write (la : BitVec 64) (size : ℕ) (value : BitVec 64) (gpr : Fin 16 → BitVec 64)
  | advanceRip (len : ℕ)

def GuestEvent.isWrite : GuestEvent → Bool
  | .write .. => true
  | _ => false

def GuestEvent.isAccess : GuestEvent → Bool
  | .advanceRip _ => false
  | _ => true

@[ext] structure Guest where
  gpr : Fin 16 → BitVec 64
  rflags : BitVec 64
  rip : BitVec 64
  segBase : EmSegment → BitVec 64
  mem : BitVec 64 → BitVec 8
  /-- What user space answers to a read that is pending. -/
  reply : BitVec 64
  log : List GuestEvent

namespace Guest

/-- Everything is zero. -/
def blank : Guest where
  gpr _ := 0
  rflags := 0
  rip := 0
  segBase _ := 0
  mem _ := 0
  reply := 0
  log := []

variable (g : Guest)

/-- The number in the `size` bytes from `la` on. -/
def load (la : BitVec 64) (size : ℕ) : BitVec 64 :=
  loadLe (fun i => g.mem (la + BitVec.ofNat 64 i)) 0 size

def store (la : BitVec 64) (size : ℕ) (value : BitVec 64) : Guest :=
  { g with mem := Lib.store g.mem la size fun i => value.extractLsb' (8 * i) 8 }

def record (event : GuestEvent) : Guest := { g with log := g.log ++ [event] }

def setGpr (i : Fin 16) (x : BitVec 64) : Guest := { g with gpr := Function.update g.gpr i x }

/-- A read that is answered at once. -/
def read (la : BitVec 64) (size : ℕ) : Guest := g.record (.read la size (g.load la size) g.gpr)

/-- A write that is carried out at once. -/
def write (la : BitVec 64) (size : ℕ) (value : BitVec 64) : Guest :=
  (g.store la size value).record (.write la size (lowBytes size value) g.gpr)

/-- The event of an advance. -/
def advance (len : ℕ) : Guest :=
  { g with rip := g.rip + BitVec.ofNat 64 len }.record (.advanceRip len)

theorem gpr_setGpr_self (i : Fin 16) (x : BitVec 64) : (g.setGpr i x).gpr i = x :=
  Function.update_self ..

theorem gpr_setGpr_of_ne {i j : Fin 16} (other : j ≠ i) (x : BitVec 64) :
    (g.setGpr i x).gpr j = g.gpr j :=
  Function.update_of_ne other ..

end Guest

/-- The operations of a guest, where the environment answers an access with `status`. -/
def guestOps (status : Guest → BitVec 64 → EmStatus) : EmOps Guest where
  readGpr := Guest.gpr
  writeGpr i x g := g.setGpr i x
  readRflags := Guest.rflags
  writeRflags x g := { g with rflags := x }
  getSegmentBase := Guest.segBase
  advanceRip len g := g.advance len
  readMemory la value size _ g :=
    if status g la = .continue then
      (.continue, putBytes 0 size (g.load la size) value, g.read la size)
    else (status g la, value, g.record (.read la size value g.gpr))
  readMemoryPost value size g := (.continue, putBytes 0 size g.reply value, g)
  writeMemory la value size _ g :=
    if status g la = .continue then (.continue, g.write la size value)
    else (status g la, g.record (.write la size (lowBytes size value) g.gpr))

/-- Every access is answered at once. -/
def promptOps : EmOps Guest := guestOps fun _ _ => .continue

/-- A host that clears the flags that are undefined. -/
def clearFlags : HostFlags := fun _ _ _ => ⟨false, false, false, false, false, false⟩

theorem guestOps_lawful (status : Guest → BitVec 64 → EmStatus) : (guestOps status).Lawful where
  writeGpr _ _ _ := rfl
  writeRflags _ _ := rfl
  advanceRip _ _ := rfl
  readMemory la x n t g := by
    show (ite _ _ _ : EmStatus × BitVec 64 × Guest).2.2.gpr = g.gpr
    split <;> rfl
  readMemoryPost _ _ _ := rfl
  writeMemory la x n t g := by
    show (ite _ _ _ : EmStatus × Guest).2.gpr = g.gpr
    split <;> rfl

/-! ## The guest that the emulator works with -/

namespace Emulator

variable {status : Guest → BitVec 64 → EmStatus} {s : Emulator Guest} {i : Fin 16}

/-- A register of the emulator. -/
abbrev gpr (s : Emulator Guest) : Fin 16 → BitVec 64 := s.reg promptOps

/-- The virtual CPU with all registers written back. -/
def guest (s : Emulator Guest) : Guest := { s.vcpu with gpr := s.gpr }

/-- A property of the virtual CPU that does not depend on its registers. -/
theorem flush_frame {β : Type} (f : Guest → β) (same : ∀ i x g, f (g.setGpr i x) = f g) :
    f (s.gprCacheFlush (guestOps status)).vcpu = f s.vcpu := by
  have fold (l : List (Fin 16)) (g : Guest) :
      f (l.foldl (fun v i => if s.ctxt.cache.w i then
        (guestOps status).writeGpr i (s.ctxt.cache.value i) v else v) g) = f g := by
    induction l generalizing g with
    | nil => rfl
    | cons i l ih =>
      rw [List.foldl_cons, ih]
      split
      · exact same i _ g
      · rfl
  exact fold _ _

theorem Coherent.vcpu_flush (coherent : s.Coherent (guestOps status)) :
    (s.gprCacheFlush (guestOps status)).vcpu = s.guest := by
  have gpr := coherent.readGpr_flush (guestOps_lawful status)
  refine Guest.ext gpr ?_ ?_ ?_ ?_ ?_ ?_
  all_goals
    refine flush_frame _ ?_
    intros
    rfl

/-- Nothing is dirty. -/
theorem Coherent.guest_eq (coherent : s.Coherent (guestOps status))
    (clean : s.ctxt.cache.w = fun _ => false) : s.guest = s.vcpu := by
  have gpr := coherent.reg_eq clean
  exact Guest.ext gpr rfl rfl rfl rfl rfl rfl

theorem guest_registerAdd (addend : BitVec 64) :
    (s.registerAdd (guestOps status) i addend).guest = s.guest.setGpr i (s.gpr i + addend) := by
  refine Guest.ext ?_ rfl rfl rfl rfl rfl rfl
  exact reg_registerAdd addend

theorem guest_gprWriteShifted (size : ℕ) (value : BitVec 64) (shift : ℕ) :
    (s.gprWriteShifted (guestOps status) i size value shift).guest =
      s.guest.setGpr i (putBytes shift size value (s.gpr i)) := by
  refine Guest.ext ?_ rfl rfl rfl rfl rfl rfl
  exact reg_gprWriteShifted

/-- The end of an instruction. -/
theorem Coherent.emFinish_vcpu (coherent : s.Coherent (guestOps status)) :
    (emFinish (guestOps status) .done s).2.vcpu = s.guest.advance s.ctxt.cursor.len := by
  have same : SameRegisters (guestOps status) s
      ⟨{ s.ctxt with finished := true }, s.vcpu.advance s.ctxt.cursor.len⟩ := .of_eq rfl rfl
  exact (same.coherent coherent).vcpu_flush

end Emulator

end Haxm
