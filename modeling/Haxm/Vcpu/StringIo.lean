/-
# String I/O

INS and OUTS move elements between a port and memory, one per iteration, and with
REP as many as RCX says. One exit of such an instruction is answered for as many
elements as the I/O buffer can hold: `handle_string_io` fills the buffer or says
where it is to go, user space does the port accesses, and `handle_io_post` writes
what was read. The guest then executes the same instruction again, until RIP is
moved on.

An exit should have the effect of some number of iterations. It often does not:
RCX is decremented without REP as well; the count is taken from all of RCX,
whatever the address size; and the number of bytes is computed modulo `2 ^ 64`,
so that it can be zero for a count that is not.

All accesses to guest memory are taken to succeed, so that memory is a function
on linear addresses.
-/

import Mathlib.Data.BitVec
import Mathlib.Tactic.Abel
import Haxm.Lib.Bytes
import Haxm.Vcpu.IoPost

namespace Haxm

open Lib

/-! ## The instruction -/

inductive AddressSize
  | bits16 | bits32 | bits64
  deriving DecidableEq, Repr

def AddressSize.width : AddressSize → ℕ
  | .bits16 => 16
  | .bits32 => 32
  | .bits64 => 64

inductive ElemSize
  | byte | word | dword
  deriving DecidableEq, Repr

/-- `qual->io.size + 1`. -/
def ElemSize.bytes : ElemSize → ℕ
  | .byte => 1
  | .word => 2
  | .dword => 4

/-- An exit by INS (`input`) or OUTS: what `exit_io_access` finds in the exit
qualification. -/
structure StringQual where
  size : ElemSize
  input : Bool
  rep : Bool
  deriving DecidableEq, Repr

/-- The registers and the memory that string I/O touches. An instruction has at
least one byte. -/
structure StringVcpu where
  rcx : BitVec 64
  rsi : BitVec 64
  rdi : BitVec 64
  rip : BitVec 64
  rflags : BitVec 64
  /-- `vmx(vcpu, exit_instr_length)`. -/
  instrLength : BitVec 32
  mem : BitVec 64 → BitVec 8
  ioBuf : ℕ → BitVec 8
  length_pos : instrLength ≠ 0

def eflagsDF : BitVec 64 := 1 <<< 10

def StringVcpu.df (s : StringVcpu) : Bool := s.rflags &&& eflagsDF != 0

/-! ## The code -/

variable (q : StringQual) (s : StringVcpu)

/-- `elem_size`, and `count` in `handle_string_io`. -/
def stringElemSize : BitVec 32 := BitVec.ofNat 32 q.size.bytes
def stringCount : BitVec 64 := if q.rep then s.rcx else 1

/-- `n`. -/
def stringElems : BitVec 32 :=
  let totalSize := stringCount q s * (stringElemSize q).setWidth 64
  if totalSize > BitVec.ofNat 64 iosMaxBuffer then
    BitVec.ofNat 32 iosMaxBuffer / stringElemSize q
  else (stringCount q s).setWidth 32

/-- `copy_size`. -/
def stringCopySize : BitVec 32 := stringElems q s * stringElemSize q

/-- `start_gva`; the difference is taken at 32 bits. -/
def stringStartGva (gla : BitVec 64) : BitVec 64 :=
  if s.df then gla - ((stringElems q s - 1) * stringElemSize q).setWidth 64 else gla

/-- `handle_string_io` for the guest linear address `gla`. -/
def handleStringIo (gla : BitVec 64) : StringVcpu × IoTunnel :=
  let n := stringElems q s
  let copySize := (stringCopySize q s).setWidth 64
  let startGva := stringStartGva q s gla
  let move := fun reg : BitVec 64 => if s.df then reg - copySize else reg + copySize
  ({ s with
      ioBuf := fun i =>
        if ¬ q.input ∧ i < (stringCopySize q s).toNat then s.mem (startGva + BitVec.ofNat 64 i)
        else s.ioBuf i
      rcx := s.rcx - n.setWidth 64
      rip :=
        if n.setWidth 64 = stringCount q s then s.rip + s.instrLength.setWidth 64 else s.rip
      rsi := if q.input then s.rsi else move s.rsi
      rdi := if q.input then move s.rdi else s.rdi },
    { direction := if q.input then 1 else haxIoOut
      size := BitVec.ofNat 16 q.size.bytes
      count := n.setWidth 16
      flags := 1
      vaddr := startGva })

/-- `handle_io_post` for a string instruction, with writes that succeed. -/
def handleStringIoPost (t : IoTunnel) (s : StringVcpu) : StringVcpu :=
  if t.direction = haxIoOut then s
  else { s with mem := store s.mem t.vaddr (t.count.toNat * t.size.toNat % 2 ^ 32) s.ioBuf }

/-- User space reads from the port into the buffer. -/
def fillIoBuf (input : ℕ → BitVec 8) (s : StringVcpu) : StringVcpu :=
  if q.input then { s with ioBuf := input } else s

/-- One exit: the handler, user space, and the start of the next run. -/
def stringIoExit (gla : BitVec 64) (input : ℕ → BitVec 8) : StringVcpu :=
  let (s, t) := handleStringIo q s gla
  handleStringIoPost t (fillIoBuf q input s)

/-! ## The architecture -/

/-- The instruction between two iterations: the index and the count have the
width of the address size. The elements of the port are those that have been
written to it, or that are still to be read. -/
structure StringArch (w size : ℕ) where
  mem : BitVec 64 → BitVec 8
  addr : BitVec 64
  index : BitVec w
  count : BitVec w
  port : List (Fin size → BitVec 8)

section Architecture

variable {w size : ℕ} (input rep df : Bool)

/-- A step up, or down if DF is set. -/
def moveBy {w : ℕ} (x : BitVec w) (n : ℕ) : BitVec w :=
  if df then x - BitVec.ofNat w n else x + BitVec.ofNat w n

def loadElem (mem : BitVec 64 → BitVec 8) (addr : BitVec 64) : Fin size → BitVec 8 :=
  fun b => mem (addr + BitVec.ofNat 64 b)

def storeElem (mem : BitVec 64 → BitVec 8) (addr : BitVec 64) (e : Fin size → BitVec 8) :
    BitVec 64 → BitVec 8 :=
  store mem addr size fun i => if h : i < size then e ⟨i, h⟩ else 0

/-- The registers after an iteration. -/
def StringArch.advance (a : StringArch w size) : StringArch w size :=
  { a with
    addr := moveBy df a.addr size
    index := moveBy df a.index size
    count := if rep then a.count - 1 else a.count }

/-- One iteration. -/
def StringArch.iteration (a : StringArch w size) : StringArch w size :=
  if input then
    match a.port with
    | [] => a
    | e :: rest => { a.advance rep df with mem := storeElem a.mem a.addr e, port := rest }
  else { a.advance rep df with port := a.port ++ [loadElem a.mem a.addr] }

end Architecture

/-! ## Refinement -/

/-- Where the element of the `k`th of `n` iterations is in the buffer, which has
the elements by rising addresses. -/
def bufOffset (df : Bool) (n size k : ℕ) : ℕ := if df then (n - 1 - k) * size else k * size

/-- The first `n` elements of the buffer, in the order of the iterations. -/
def bufElems (df : Bool) (n size : ℕ) (buf : ℕ → BitVec 8) : List (Fin size → BitVec 8) :=
  (List.range n).map fun k b => buf (bufOffset df n size k + b)

/-- The iterations that are left. -/
def remaining (w : ℕ) : ℕ := if q.rep then (s.rcx.setWidth w).toNat else 1

def stringIndex (s : StringVcpu) : BitVec 64 := if q.input then s.rdi else s.rsi

/-- The instruction as the processor has left it. -/
def archBefore (w : ℕ) (gla : BitVec 64) (port : List (Fin q.size.bytes → BitVec 8)) :
    StringArch w q.size.bytes where
  mem := s.mem
  addr := gla
  index := (stringIndex q s).setWidth w
  count := s.rcx.setWidth w
  port := port

/-- The instruction after `n` iterations; for INS the elements come from `buf`. -/
def archAfter (w : ℕ) (gla : BitVec 64) (buf : ℕ → BitVec 8) (n : ℕ) :
    StringArch w q.size.bytes :=
  (StringArch.iteration q.input q.rep s.df)^[n]
    (archBefore q s w gla (if q.input then bufElems s.df n q.size.bytes buf else []))

/-- From `s` to `s'` the instruction has made `n` iterations, with the port
accesses that the tunnel `t` asks for. -/
structure Iterated (w : ℕ) (gla : BitVec 64) (t : IoTunnel) (s' : StringVcpu) (n : ℕ) : Prop where
  pos : 1 ≤ n
  le_remaining : n ≤ remaining q s w
  fits : n * q.size.bytes ≤ iosMaxBuffer
  asked : t.count.toNat = n
  mem : s'.mem = (archAfter q s w gla s'.ioBuf n).mem
  index : (stringIndex q s').setWidth w = (archAfter q s w gla s'.ioBuf n).index
  count : s'.rcx.setWidth w = (archAfter q s w gla s'.ioBuf n).count
  port : (if q.input then [] else bufElems s.df n q.size.bytes s'.ioBuf) =
    (archAfter q s w gla s'.ioBuf n).port
  unrepeated : q.rep = false → s'.rcx = s.rcx
  rip : s'.rip = if n = remaining q s w then s.rip + s.instrLength.setWidth 64 else s.rip

/-- With REP, and for a count that either fits into the address size and does
not overflow to zero bytes, or is cut off below the buffer's size in any case. -/
def StringIoFits (w : ℕ) : Prop :=
  q.rep = true ∧
    ((s.rcx.toNat < 2 ^ w ∧ s.rcx.toNat * q.size.bytes % 2 ^ 64 ≠ 0) ∨
      (2 ^ w ≤ s.rcx.toNat ∧ iosMaxBuffer < s.rcx.toNat * q.size.bytes % 2 ^ 64 ∧
        iosMaxBuffer / q.size.bytes < s.rcx.toNat % 2 ^ w))

/-! ## Iterations -/

section Iterations

variable {w size : ℕ} {df rep : Bool}

theorem moveBy_moveBy (x : BitVec w) (m n : ℕ) :
    moveBy df (moveBy df x m) n = moveBy df x (m + n) := by
  unfold moveBy
  cases df with
  | true => rw [if_pos rfl, if_pos rfl, if_pos rfl, BitVec.sub_sub, BitVec.ofNat_add]
  | false => rw [if_neg (by decide), if_neg (by decide), if_neg (by decide), BitVec.add_assoc,
      BitVec.ofNat_add]

@[simp] theorem moveBy_zero (x : BitVec w) : moveBy df x 0 = x := by
  unfold moveBy
  cases df <;> simp

theorem setWidth_moveBy (x : BitVec 64) (n : ℕ) (hw : w ≤ 64) :
    (moveBy df x n).setWidth w = moveBy df (x.setWidth w) n := by
  have cast : (BitVec.ofNat 64 n).setWidth w = BitVec.ofNat w n := by
    apply BitVec.eq_of_toNat_eq
    rw [BitVec.toNat_setWidth, BitVec.toNat_ofNat, BitVec.toNat_ofNat,
      Nat.mod_mod_of_dvd n (Nat.pow_dvd_pow 2 hw)]
  unfold moveBy
  cases df with
  | true =>
    rw [if_pos rfl, if_pos rfl]
    apply eq_sub_of_add_eq
    rw [← cast, ← BitVec.setWidth_add _ _ hw, sub_add_cancel]
  | false => rw [if_neg (by decide), if_neg (by decide), BitVec.setWidth_add _ _ hw, cast]

/-- A count after `n` iterations. -/
def countAfter (rep : Bool) (x : BitVec w) (n : ℕ) : BitVec w :=
  if rep then x - BitVec.ofNat w n else x

theorem countAfter_succ (x : BitVec w) (n : ℕ) :
    (if rep then countAfter rep x n - 1 else countAfter rep x n) = countAfter rep x (n + 1) := by
  unfold countAfter
  cases rep with
  | true =>
    rw [if_pos rfl, if_pos rfl, if_pos rfl, BitVec.sub_sub, BitVec.ofNat_add]
    rfl
  | false => rfl

theorem outs_iterations (a : StringArch w size) (n : ℕ) :
    (StringArch.iteration false rep df)^[n] a =
      { a with
        addr := moveBy df a.addr (n * size)
        index := moveBy df a.index (n * size)
        count := countAfter rep a.count n
        port := a.port ++ (List.range n).map fun k =>
          loadElem a.mem (moveBy df a.addr (k * size)) } := by
  induction n with
  | zero => cases rep <;> simp [countAfter]
  | succ n ih =>
    rw [Function.iterate_succ_apply', ih, StringArch.iteration, if_neg (by decide),
      StringArch.advance]
    simp only [moveBy_moveBy, countAfter_succ, Nat.succ_mul, List.range_succ, List.map_append,
      List.map_cons, List.map_nil, List.append_assoc]

/-- What the first `k` of `n` iterations of INS store. -/
def storeFirst (mem : BitVec 64 → BitVec 8) (addr : BitVec 64) (df : Bool) (n size : ℕ)
    (buf : ℕ → BitVec 8) (k : ℕ) : BitVec 64 → BitVec 8 :=
  if df then
    store mem (addr + BitVec.ofNat 64 size - BitVec.ofNat 64 (k * size)) (k * size)
      fun i => buf ((n - k) * size + i)
  else store mem addr (k * size) buf

/-- One more element goes beside those that are stored already. -/
theorem storeFirst_succ {mem : BitVec 64 → BitVec 8} {addr : BitVec 64} {buf : ℕ → BitVec 8}
    {n k : ℕ} (hk : k < n) (fits : n * size < 2 ^ 64) :
    store (storeFirst mem addr df n size buf k) (moveBy df addr (k * size)) size
        (fun i => buf (bufOffset df n size k + i)) =
      storeFirst mem addr df n size buf (k + 1) := by
  have inside : k * size + size < 2 ^ 64 := by
    have le : (k + 1) * size ≤ n * size := Nat.mul_le_mul_right size hk
    rw [Nat.succ_mul] at le
    omega
  unfold storeFirst moveBy bufOffset
  cases df with
  | false =>
    simp only [Bool.false_eq_true, if_false]
    rw [store_store_above inside, Nat.succ_mul]
  | true =>
    simp only [if_true]
    have upper : addr + BitVec.ofNat 64 size - BitVec.ofNat 64 (k * size) =
        addr - BitVec.ofNat 64 (k * size) + BitVec.ofNat 64 size := by abel
    have lower : addr + BitVec.ofNat 64 size - BitVec.ofNat 64 ((k + 1) * size) =
        addr - BitVec.ofNat 64 (k * size) := by
      rw [Nat.succ_mul, BitVec.ofNat_add]
      abel
    have place : n - k = n - 1 - k + 1 := by omega
    have source : (fun i => buf ((n - k) * size + i)) =
        fun i => buf ((n - 1 - k) * size + (size + i)) := by
      funext i
      rw [place, Nat.succ_mul, Nat.add_assoc]
    have last : n - (k + 1) = n - 1 - k := by omega
    have glued := @store_store_below _ mem (addr - BitVec.ofNat 64 (k * size))
      (fun i => buf ((n - 1 - k) * size + i)) size (k * size) (by omega)
    rw [upper, lower, source, glued, last, Nat.succ_mul, Nat.add_comm size]

theorem ins_iterations (a : StringArch w size) {buf : ℕ → BitVec 8} {n : ℕ}
    (port : a.port = bufElems df n size buf) (fits : n * size < 2 ^ 64) {k : ℕ} (hk : k ≤ n) :
    (StringArch.iteration true rep df)^[k] a =
      { mem := storeFirst a.mem a.addr df n size buf k
        addr := moveBy df a.addr (k * size)
        index := moveBy df a.index (k * size)
        count := countAfter rep a.count k
        port := (bufElems df n size buf).drop k } := by
  induction k with
  | zero => cases rep <;> cases df <;> simp [countAfter, storeFirst, ← port]
  | succ k ih =>
    have next : (bufElems df n size buf).drop k =
        (fun b : Fin size => buf (bufOffset df n size k + b)) ::
          (bufElems df n size buf).drop (k + 1) := by
      have short : k < (bufElems df n size buf).length := by
        simp [bufElems]
        omega
      rw [List.drop_eq_getElem_cons short]
      simp [bufElems]
    have element : storeElem (storeFirst a.mem a.addr df n size buf k)
        (moveBy df a.addr (k * size)) (fun b : Fin size => buf (bufOffset df n size k + b)) =
        storeFirst a.mem a.addr df n size buf (k + 1) := by
      rw [← storeFirst_succ hk fits]
      apply store_congr
      intro i hi
      rw [dif_pos hi]
    rw [Function.iterate_succ_apply', ih (by omega), StringArch.iteration, if_pos rfl]
    simp only [next, StringArch.advance, element, moveBy_moveBy, countAfter_succ, Nat.succ_mul]

end Iterations

/-! ## One exit -/

section Exit

variable {q : StringQual} {s : StringVcpu}

theorem bytes_cases (size : ElemSize) : size.bytes = 1 ∨ size.bytes = 2 ∨ size.bytes = 4 := by
  cases size <;> simp [ElemSize.bytes]

variable (q s) in
theorem toNat_stringElems :
    (stringElems q s).toNat =
      if iosMaxBuffer < (stringCount q s).toNat * q.size.bytes % 2 ^ 64 then
        iosMaxBuffer / q.size.bytes
      else (stringCount q s).toNat % 2 ^ 32 := by
  have total : (stringCount q s * (stringElemSize q).setWidth 64).toNat =
      (stringCount q s).toNat * q.size.bytes % 2 ^ 64 := by
    rw [BitVec.toNat_mul]
    rcases bytes_cases q.size with h | h | h <;> simp [stringElemSize, h]
  have quotient : (BitVec.ofNat 32 iosMaxBuffer / stringElemSize q).toNat =
      iosMaxBuffer / q.size.bytes := by
    rcases bytes_cases q.size with h | h | h <;> simp [stringElemSize, iosMaxBuffer, h]
  have limit : (BitVec.ofNat 64 iosMaxBuffer).toNat = iosMaxBuffer := rfl
  unfold stringElems
  dsimp only
  rw [apply_ite BitVec.toNat, quotient, BitVec.toNat_setWidth]
  simp only [gt_iff_lt, BitVec.lt_def, total, limit]

theorem toNat_stringElemSize : (stringElemSize q).toNat = q.size.bytes := by
  rcases bytes_cases q.size with h | h | h <;> simp [stringElemSize, h]

variable {n : ℕ} (elems : (stringElems q s).toNat = n)

include elems

/-- The elements fit into the buffer, even if their number is wrong. -/
theorem stringElems_fits : n * q.size.bytes ≤ iosMaxBuffer := by
  have count := (stringCount q s).isLt
  rw [← elems, toNat_stringElems]
  by_cases cut : iosMaxBuffer < (stringCount q s).toNat * q.size.bytes % 2 ^ 64
  · rw [if_pos cut]
    exact Nat.div_mul_le_self _ _
  · -- the total is below the limit only if the count is, up to a multiple of `2 ^ 62`
    rw [if_neg cut]
    simp only [iosMaxBuffer] at cut ⊢
    rcases bytes_cases q.size with h | h | h <;> rw [h] at cut ⊢ <;> omega

theorem toNat_stringCopySize : (stringCopySize q s).toNat = n * q.size.bytes := by
  have fits := stringElems_fits elems
  rw [stringCopySize, BitVec.toNat_mul, toNat_stringElemSize, elems]
  apply Nat.mod_eq_of_lt
  simp only [iosMaxBuffer] at fits
  omega

theorem setWidth_stringCopySize :
    (stringCopySize q s).setWidth 64 = BitVec.ofNat 64 (n * q.size.bytes) := by
  apply BitVec.eq_of_toNat_eq
  rw [BitVec.toNat_setWidth, toNat_stringCopySize elems, BitVec.toNat_ofNat]

/-- With DF the block ends with the first element. -/
theorem stringStartGva_eq (gla : BitVec 64) (pos : 1 ≤ n) :
    stringStartGva q s gla =
      if s.df then gla + BitVec.ofNat 64 q.size.bytes - BitVec.ofNat 64 (n * q.size.bytes)
      else gla := by
  have back : ((stringElems q s - 1) * stringElemSize q).setWidth 64 =
      BitVec.ofNat 64 ((n - 1) * q.size.bytes) := by
    have less : (n - 1) * q.size.bytes ≤ iosMaxBuffer :=
      (Nat.mul_le_mul_right _ (Nat.sub_le _ _)).trans (stringElems_fits elems)
    have one : (1 : BitVec 32) ≤ stringElems q s := BitVec.le_def.mpr (elems ▸ pos)
    apply BitVec.eq_of_toNat_eq
    rw [BitVec.toNat_setWidth, BitVec.toNat_mul, BitVec.toNat_sub_of_le one, toNat_stringElemSize,
      elems, BitVec.toNat_ofNat, Nat.mod_eq_of_lt (show _ < 2 ^ 32 by
        simp only [iosMaxBuffer] at less
        exact less.trans_lt (by decide))]
    rfl
  unfold stringStartGva
  split
  case isFalse => rfl
  case isTrue =>
    have split : n * q.size.bytes = (n - 1) * q.size.bytes + q.size.bytes := by
      rw [← Nat.succ_mul, Nat.succ_eq_add_one, Nat.sub_add_cancel pos]
    rw [back, split, BitVec.ofNat_add]
    abel

theorem toNat_count_handleStringIo (gla : BitVec 64) :
    (handleStringIo q s gla).2.count.toNat = n := by
  have fits := stringElems_fits elems
  have small : n < 2 ^ 16 := by
    simp only [iosMaxBuffer] at fits
    rcases bytes_cases q.size with h | h | h <;> rw [h] at fits <;> omega
  show ((stringElems q s).setWidth 16).toNat = _
  rw [BitVec.toNat_setWidth, elems, Nat.mod_eq_of_lt small]

section Result

variable {gla : BitVec 64} {input : ℕ → BitVec 8} {s' : StringVcpu}
  (run : stringIoExit q s gla input = s')

include run

omit elems in
/-- After the handler only memory and the buffer change. -/
theorem stringIoExit_registers :
    s'.rcx = (handleStringIo q s gla).1.rcx ∧ s'.rip = (handleStringIo q s gla).1.rip ∧
      s'.rsi = (handleStringIo q s gla).1.rsi ∧ s'.rdi = (handleStringIo q s gla).1.rdi := by
  subst run
  unfold stringIoExit handleStringIoPost fillIoBuf
  dsimp only
  split <;> split <;> exact ⟨rfl, rfl, rfl, rfl⟩

theorem stringIoExit_rcx : s'.rcx = s.rcx - BitVec.ofNat 64 n := by
  rw [(stringIoExit_registers run).1, ← elems, BitVec.ofNat_toNat]
  rfl

theorem stringIndex_stringIoExit :
    stringIndex q s' = moveBy s.df (stringIndex q s) (n * q.size.bytes) := by
  obtain ⟨-, -, rsi, rdi⟩ := stringIoExit_registers run
  rw [stringIndex, rsi, rdi, stringIndex, moveBy, ← setWidth_stringCopySize elems]
  cases h : q.input <;> simp [h, handleStringIo]

/-- OUTS leaves memory alone and has copied the block into the buffer. -/
theorem stringIoExit_outs (out : q.input = false) :
    s'.mem = s.mem ∧ ∀ i < n * q.size.bytes,
      s'.ioBuf i = s.mem (stringStartGva q s gla + BitVec.ofNat 64 i) := by
  subst run
  unfold stringIoExit handleStringIoPost fillIoBuf handleStringIo
  rw [← toNat_stringCopySize elems]
  refine ⟨by simp [out, haxIoOut], fun i hi => ?_⟩
  simp [out, haxIoOut, hi]

/-- INS stores the block that user space has read. -/
theorem stringIoExit_ins (inp : q.input = true) :
    s'.ioBuf = input ∧
      s'.mem = store s.mem (stringStartGva q s gla) (n * q.size.bytes) input := by
  have fits := stringElems_fits elems
  simp only [iosMaxBuffer] at fits
  have count := toNat_count_handleStringIo elems gla
  have size : (handleStringIo q s gla).2.size.toNat = q.size.bytes := by
    rcases bytes_cases q.size with h | h | h <;> simp [handleStringIo, h]
  have direction : (handleStringIo q s gla).2.direction ≠ haxIoOut := by
    simp [handleStringIo, inp, haxIoOut]
  subst run
  unfold stringIoExit handleStringIoPost fillIoBuf
  simp only [inp, if_true, if_neg direction]
  refine ⟨trivial, ?_⟩
  rw [count, size, Nat.mod_eq_of_lt (by omega)]
  rfl

omit run in
/-- The block is that of the iterations: the `k`th element of OUTS is where the
`k`th iteration reads. -/
theorem stringStartGva_bufOffset {k : ℕ} (hk : k < n) :
    stringStartGva q s gla + BitVec.ofNat 64 (bufOffset s.df n q.size.bytes k) =
      moveBy s.df gla (k * q.size.bytes) := by
  rw [stringStartGva_eq elems gla (by omega), bufOffset, moveBy]
  cases s.df with
  | false => rfl
  | true =>
    have whole : n * q.size.bytes =
        (n - 1 - k) * q.size.bytes + k * q.size.bytes + q.size.bytes := by
      rw [← Nat.add_mul, ← Nat.succ_mul]
      congr 1
      omega
    simp only [if_true]
    rw [whole, BitVec.ofNat_add, BitVec.ofNat_add]
    abel

omit elems run in
theorem bufOffset_lt {df : Bool} {size k b : ℕ} (hk : k < n) (hb : b < size) :
    bufOffset df n size k + b < n * size := by
  have up : ∀ j < n, j * size + b < n * size := fun j hj => by
    have le : (j + 1) * size ≤ n * size := Nat.mul_le_mul_right size hj
    rw [Nat.succ_mul] at le
    omega
  unfold bufOffset
  cases df with
  | false => exact up k hk
  | true => exact up (n - 1 - k) (by omega)

variable {w : ℕ}

/-- The processor after as many iterations as the exit has elements. -/
theorem archAfter_eq (pos : 1 ≤ n) :
    archAfter q s w gla s'.ioBuf n =
      { mem := s'.mem
        addr := moveBy s.df gla (n * q.size.bytes)
        index := moveBy s.df ((stringIndex q s).setWidth w) (n * q.size.bytes)
        count := countAfter q.rep (s.rcx.setWidth w) n
        port := if q.input then [] else bufElems s.df n q.size.bytes s'.ioBuf } := by
  cases h : q.input with
  | false =>
    obtain ⟨mem, buf⟩ := stringIoExit_outs elems run h
    have port : ((List.range n).map fun k =>
        (loadElem s.mem (moveBy s.df gla (k * q.size.bytes)) : Fin q.size.bytes → BitVec 8)) =
        bufElems s.df n q.size.bytes s'.ioBuf := by
      apply List.map_congr_left
      intro k hk
      have hk := List.mem_range.mp hk
      funext b
      rw [buf _ (bufOffset_lt hk b.isLt), loadElem, BitVec.ofNat_add, ← BitVec.add_assoc,
        stringStartGva_bufOffset elems hk]
    rw [archAfter, h, outs_iterations, mem, ← port]
    rfl
  | true =>
    obtain ⟨buf, mem⟩ := stringIoExit_ins elems run h
    have fits := stringElems_fits elems
    simp only [iosMaxBuffer] at fits
    have stored : storeFirst s.mem gla s.df n q.size.bytes input n = s'.mem := by
      rw [mem, stringStartGva_eq elems gla pos, storeFirst]
      cases s.df with
      | false => rfl
      | true => simp
    rw [archAfter, h, if_pos rfl, ins_iterations (n := n) _ rfl (by omega) le_rfl, buf, ← stored]
    simp [archBefore, bufElems]

/-- A count goes down as an index does with DF. -/
theorem setWidth_stringIoExit_rcx (hw : w ≤ 64) :
    s'.rcx.setWidth w = s.rcx.setWidth w - BitVec.ofNat w n := by
  rw [stringIoExit_rcx elems run]
  exact @setWidth_moveBy w true s.rcx n hw

end Result

/-- RIP moves on exactly if the elements are the whole count. -/
theorem rip_moves_iff {gla : BitVec 64} {x y : ℕ} :
    ((handleStringIo q s gla).1.rip = if x = y then s.rip + s.instrLength.setWidth 64 else s.rip) ↔
      (n = (stringCount q s).toNat ↔ x = y) := by
  have moves : s.rip + s.instrLength.setWidth 64 ≠ s.rip := by
    intro h
    apply s.length_pos
    have zero : s.instrLength.setWidth 64 = 0#64 := by simpa using h
    have nat := congrArg BitVec.toNat zero
    have small := s.instrLength.isLt
    apply BitVec.eq_of_toNat_eq
    rw [BitVec.toNat_setWidth, Nat.mod_eq_of_lt (by omega)] at nat
    exact nat
  have whole : (stringElems q s).setWidth 64 = stringCount q s ↔ n = (stringCount q s).toNat := by
    have small := (stringElems q s).isLt
    rw [← BitVec.toNat_inj, BitVec.toNat_setWidth, Nat.mod_eq_of_lt (by omega), elems]
  simp only [handleStringIo, whole]
  by_cases all : n = (stringCount q s).toNat <;> by_cases last : x = y <;>
    simp only [all, last, if_true, if_false, iff_self, true_iff, false_iff, not_true,
      moves, moves.symm]

variable {gla : BitVec 64} {input : ℕ → BitVec 8} {w : ℕ}

/-- An exit makes iterations exactly if its number of elements could be theirs. -/
theorem exists_iterated_iff (hw : w ≤ 64) :
    (∃ n, Iterated q s w gla (handleStringIo q s gla).2 (stringIoExit q s gla input) n) ↔
      q.rep = true ∧ 1 ≤ n ∧ n ≤ remaining q s w ∧
        (n = (stringCount q s).toNat ↔ n = remaining q s w) := by
  generalize run : stringIoExit q s gla input = s'
  have rip := (stringIoExit_registers run).2.1
  constructor
  · rintro ⟨k, h⟩
    obtain rfl : n = k := (toNat_count_handleStringIo elems gla).symm.trans h.asked
    refine ⟨?_, h.pos, h.le_remaining, ?_⟩
    · -- without REP the one element is taken off RCX
      by_contra single
      have kept := h.unrepeated (by simpa using single)
      have one : n = 1 := by
        have le := h.le_remaining
        rw [remaining, if_neg single] at le
        exact le_antisymm le h.pos
      rw [stringIoExit_rcx elems run, one] at kept
      exact absurd (sub_eq_self.mp kept) (by decide)
    · exact (rip_moves_iff elems).1 (rip.symm.trans h.rip)
  · rintro ⟨rep, pos, le, last⟩
    have after := @archAfter_eq q s n elems gla input s' run w pos
    exact ⟨n, {
      pos := pos
      le_remaining := le
      fits := stringElems_fits elems
      asked := toNat_count_handleStringIo elems gla
      mem := by rw [after]
      index := by rw [after, stringIndex_stringIoExit elems run, setWidth_moveBy _ _ hw]
      count := by rw [after, setWidth_stringIoExit_rcx elems run hw, countAfter, if_pos rep]
      port := by rw [after]
      unrepeated := fun single => absurd (rep.symm.trans single) (by decide)
      rip := rip.trans ((rip_moves_iff elems).2 last) }⟩

/-- What is left decreases by the elements. -/
theorem remaining_stringIoExit (hw : w ≤ 64) (rep : q.rep = true) (le : n ≤ remaining q s w) :
    remaining q (stringIoExit q s gla input) w = remaining q s w - n := by
  have down := @setWidth_stringIoExit_rcx q s n elems gla input _ rfl w hw
  rw [remaining, if_pos rep, remaining, if_pos rep, down]
  rw [remaining, if_pos rep] at le
  have small : n < 2 ^ w := le.trans_lt (BitVec.isLt _)
  have value : (BitVec.ofNat w n).toNat = n := by
    rw [BitVec.toNat_ofNat, Nat.mod_eq_of_lt small]
  rw [BitVec.toNat_sub_of_le (by rw [BitVec.le_def, value]; exact le), value]

/-- The condition in the numbers of the code. -/
theorem stringIoFits_iff (a : AddressSize) :
    StringIoFits q s a.width ↔
      q.rep = true ∧ 1 ≤ n ∧ n ≤ remaining q s a.width ∧
        (n = (stringCount q s).toNat ↔ n = remaining q s a.width) := by
  subst elems
  unfold StringIoFits
  apply and_congr_right
  intro rep
  have count := s.rcx.isLt
  rw [toNat_stringElems, remaining, if_pos rep, stringCount, if_pos rep, BitVec.toNat_setWidth]
  generalize s.rcx.toNat = c at count ⊢
  by_cases cut : iosMaxBuffer < c * q.size.bytes % 2 ^ 64
  · rw [if_pos cut]
    simp only [iosMaxBuffer] at cut ⊢
    rcases bytes_cases q.size with h | h | h <;> rw [h] at cut ⊢ <;>
      cases a <;> simp only [AddressSize.width] <;> omega
  · rw [if_neg cut]
    simp only [iosMaxBuffer] at cut ⊢
    rcases bytes_cases q.size with h | h | h <;> rw [h] at cut ⊢ <;>
      cases a <;> simp only [AddressSize.width, iff_true] <;> omega

omit elems in
theorem width_le (a : AddressSize) : a.width ≤ 64 := by
  cases a <;> decide

omit elems in
/-- An exit that meets the condition leaves fewer iterations. -/
theorem remaining_stringIoExit_lt (a : AddressSize) (fits : StringIoFits q s a.width) :
    remaining q (stringIoExit q s gla input) a.width + 1 ≤ remaining q s a.width := by
  obtain ⟨rep, pos, le, -⟩ := (stringIoFits_iff rfl a).mp fits
  rw [remaining_stringIoExit rfl (width_le a) rep le]
  omega

end Exit

/-! ## Main result -/

/-- An exit by INS or OUTS has the effect of some iterations exactly under
`StringIoFits`, and there are at most as many exits that meet it as iterations
are left at the first. -/
theorem stringIoExit_iterated_iff (q : StringQual) (a : AddressSize) (s : StringVcpu)
    (gla : BitVec 64) (input : ℕ → BitVec 8) :
    ((∃ n, Iterated q s a.width gla (handleStringIo q s gla).2 (stringIoExit q s gla input) n) ↔
      StringIoFits q s a.width) ∧
    ∀ run : ℕ → StringVcpu, run 0 = s →
      ∀ k, (∀ i < k, StringIoFits q (run i) a.width ∧
          ∃ gla input, run (i + 1) = stringIoExit q (run i) gla input) →
        remaining q (run k) a.width + k ≤ remaining q s a.width := by
  refine ⟨(exists_iterated_iff rfl (width_le a)).trans (stringIoFits_iff rfl a).symm, ?_⟩
  intro run start k exits
  induction k with
  | zero => rw [start, Nat.add_zero]
  | succ k ih =>
    obtain ⟨fits, gla, input, next⟩ := exits k (Nat.lt_succ_self k)
    have earlier := ih fun i hi => exits i (Nat.lt_succ_of_lt hi)
    have less := @remaining_stringIoExit_lt q (run k) gla input a fits
    rw [← next] at less
    omega

/-- OUTSB with RCX = 5 and no REP: the instruction is done, and RCX is 4. -/
def singleOuts : StringVcpu where
  rcx := 5
  rsi := 0x1000
  rdi := 0
  rip := 0x400
  rflags := 2
  instrLength := 1
  mem := fun _ => 0
  ioBuf := fun _ => 0
  length_pos := by decide

theorem singleOuts_not_iterated :
    let q : StringQual := { size := .byte, input := false, rep := false }
    (stringIoExit q singleOuts 0x1000 fun _ => 0).rcx = 4 ∧
      ¬ ∃ n, Iterated q singleOuts 64 0x1000 (handleStringIo q singleOuts 0x1000).2
        (stringIoExit q singleOuts 0x1000 fun _ => 0) n := by
  intro q
  have rcx : (stringIoExit q singleOuts 0x1000 fun _ => 0).rcx = 4 :=
    (stringIoExit_rcx (q := q) (s := singleOuts) rfl rfl).trans (by decide)
  refine ⟨rcx, ?_⟩
  rintro ⟨n, h⟩
  exact absurd (h.unrepeated rfl) (by rw [rcx]; decide)

end Haxm
