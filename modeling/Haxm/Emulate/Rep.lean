/-
# Repeated string instructions

`em_emulate_insn` goes back to its start after each iteration of an instruction
with a repeat prefix, with operands decoded again from registers that have been
written back. This comes to the same as carrying the instruction out without the
prefix, over and over, until the count register is used up or a comparison ends
the repetition.
-/

import Haxm.Emulate.StringOps

namespace Haxm

open Lib

/-! ## String instructions in the tables -/

section Tables

instance (k : StringOp) (e : EmOpcode) : Decidable (k.Entry e) :=
  decidable_of_iff
    (e.target = .handler k.handler ∧ e.decodeDst = some k.dst ∧ e.decodeSrc1 = some k.src ∧
      e.decodeSrc2 = some .none ∧ e.has insnDstNr = decide (k ≠ .cmps) ∧
      e.has insnDstNw = decide (k = .cmps) ∧ e.has insnFastop = decide (k = .cmps) ∧
      e.has insnRepx = decide (k = .cmps) ∧ e.has insnNoflags = false ∧ e.has insnBitop = false)
    ⟨fun ⟨h₁, h₂, h₃, h₄, h₅, h₆, h₇, h₈, h₉, h₁₀⟩ => ⟨h₁, h₂, h₃, h₄, h₅, h₆, h₇, h₈, h₉, h₁₀⟩,
      fun h => ⟨h.target, h.dst, h.src1, h.src2, h.dstNr, h.dstNw, h.fastop, h.repx, h.noflags,
        h.bitop⟩⟩

/-- The entry of one of the four string instructions. -/
def EmOpcode.stringOp (e : EmOpcode) : Option StringOp :=
  [StringOp.movs, .cmps, .stos, .lods].find? fun k => k.Entry e

theorem all_stringOp (m : OpcodeMap) :
    m.all (fun e => !e.has insnString || e.stringOp.isSome) = true := by
  cases m <;> decide +kernel

variable {mode : EmMode} {insn : ℕ → BitVec 8} {l : Layout} {e : EmOpcode}

theorem Implements.exists_entry (imp : Implements mode insn l e)
    (string : e.has insnString = true) : ∃ k : StringOp, k.Entry e := by
  have found := imp.of_all all_stringOp
  rw [string, Bool.not_true, Bool.false_or, Option.isSome_iff_exists] at found
  obtain ⟨k, found⟩ := found
  have entry := List.find?_some found
  exact ⟨k, of_decide_eq_true entry⟩

/-- Only string instructions are repeated. -/
theorem Implements.string_of_rep (imp : Implements mode insn l e) (rep : (prefixSet insn).rep ≠ 0) :
    ∃ k : StringOp, k.Entry e := by
  by_contra other
  exact rep (imp.rep_eq_zero (Bool.eq_false_iff.2 (mt imp.exists_entry other)))

/-- The form of a string instruction. -/
def stringForm (mode : EmMode) (insn : ℕ → BitVec 8) (l : Layout) (e : EmOpcode) (k : StringOp) :
    StringForm where
  op := k
  size := l.entrySize mode e
  addressSize := prefixedAddressSize mode insn
  mode := mode
  seg := if (prefixSet insn).overrideSegment ≠ .none then (prefixSet insn).overrideSegment else .ds

/-- A string instruction that has just been decoded. -/
theorem Implements.ready (imp : Implements mode insn l e) {k : StringOp} (entry : k.Entry e)
    (g : Guest) : (stringForm mode insn l e k).Ready (decodedInsn mode insn g) := by
  obtain ⟨c, before, run⟩ := imp.emDecodeInsn_eq g.rip
  have operands := before.operands
  simp only [EmContext.operands, Prod.mk.injEq] at operands
  obtain ⟨dst, src1, -, cache⟩ := operands
  have context : (stringForm mode insn l e k).Context (Emulator.mk c g).ctxt := {
    entry := by
      rw [before.opcode]
      exact entry
    size := before.operandSize
    addressSize := before.addressSize
    mode := before.sameMode
    seg := by
      rw [overriddenSegment, before.prefixes]
      rfl
    sized := before.sized imp.1 }
  have zero (n : ℕ) : lowBytes n ({} : EmOperand).value = ({} : EmOperand).value := lowBytes_zero n
  have ready := context.decodeOperands (s := ⟨c, g⟩) insn (by rw [dst]; exact zero _)
    (by rw [src1]; exact zero _)
  have coherent : (Emulator.mk c g).Coherent promptOps := by
    refine ⟨fun i dirty => ?_, fun i cached => ?_⟩
    · rw [cache] at dirty
      cases dirty
    · rw [cache] at cached
      cases cached
  unfold decodedInsn
  rw [run]
  exact ready.ready context coherent (by rw [cache])

end Tables

/-! ## One iteration of the emulator -/

namespace StringForm

variable {f : StringForm} {s : Emulator Guest} (insn : ℕ → BitVec 8)

/-- The registers that have been read do not matter. -/
theorem Ready.of_cache {k : GprCache} (ready : f.Ready s)
    (filled : s.ctxt.cache.Filled s.vcpu.gpr k) : f.Ready (s.setCache k) := by
  have same : Emulator.SameRegisters promptOps s (s.setCache k) := ⟨rfl, filled⟩
  exact ⟨ready.context.of_kept rfl, same.coherent ready.coherent, filled.w.trans ready.clean,
    ready.dst, ready.src1, ready.src2⟩

theorem Ready.setFinished (ready : f.Ready s) :
    f.Ready { s with ctxt := { s.ctxt with finished := false } } :=
  ⟨ready.context.of_kept rfl, ⟨ready.coherent.dirty, ready.coherent.clean⟩, ready.clean, ready.dst,
    ready.src1, ready.src2⟩

/-- The count register at the address size. -/
def count (f : StringForm) (g : Guest) : BitVec 64 := lowBytes f.addressSize (g.gpr regRcx)

/-- An iteration and the count register after it. -/
def iteration (f : StringForm) (host : HostFlags) (g : Guest) : Guest :=
  (f.run g host).setGpr regRcx ((f.run g host).gpr regRcx + -1)

/-- The comparison ends the repetition. -/
def ends (f : StringForm) (rep : BitVec 8) (g : Guest) : Bool :=
  decide (f.op = .cmps) && ((rep == prefixRepne && rflagsZf g.rflags) ||
    (rep == prefixRepe && !rflagsZf g.rflags))

theorem Done.repEnds {t : Emulator Guest} {after : Guest} (done : f.Done s t after)
    (context : f.Context s.ctxt) : repEnds t.ctxt = f.ends s.ctxt.prefixes.rep after := by
  have prefixes : t.ctxt.prefixes = s.ctxt.prefixes :=
    congrArg (fun x => x.2.2.2.2.2.1) done.kept
  unfold Haxm.repEnds ends
  rw [(done.context context).entry.repx, done.rflags, prefixes]

/-- The guest has become `after`, except that registers may still have to be written back. -/
structure Settled (s t : Emulator Guest) (after : Guest) : Prop where
  kept : t.ctxt.instruction = s.ctxt.instruction
  guest : t.guest = after
  coherent : t.Coherent promptOps

variable (host : HostFlags)

/-- Where a round leads to, if the instruction has a repeat prefix and makes `after` of the
guest. -/
structure RoundRep (f : StringForm) (s : Emulator Guest) (after : Guest)
    (r : Next × Emulator Guest) : Prop where
  ends : f.ends s.ctxt.prefixes.rep after = true → r.1 = .done ∧ Settled s r.2 after
  goes : f.ends s.ctxt.prefixes.rep after = false → r.1 = .restart ∧ f.Ready r.2 ∧
    r.2.vcpu = after ∧ r.2.ctxt.instruction = s.ctxt.instruction

theorem Done.repeatInsn {t : Emulator Guest} {g : Guest} (done : f.Done s t g)
    (context : f.Context s.ctxt) :
    RoundRep f s (g.setGpr regRcx (g.gpr regRcx + -1)) (repeatInsn promptOps insn t) := by
  have counted := done.registerAdd regRcx (-1)
  have ends := counted.repEnds context
  have decoded := (counted.context context).decodeOperands insn counted.dst counted.src1
  have ready := decoded.ready_flush (counted.context context) counted.coherent
  unfold Haxm.repeatInsn
  dsimp only
  rw [ends]
  constructor
  · intro ended
    rw [if_pos ended]
    exact ⟨rfl, counted.kept, counted.guest, counted.coherent⟩
  · intro goes
    rw [show promptOps.readGpr (t.registerAdd promptOps regRcx (-1)).vcpu =
      (t.registerAdd promptOps regRcx (-1)).vcpu.gpr from rfl]
    generalize decodeOperands (t.registerAdd promptOps regRcx (-1)).vcpu.gpr insn
      (t.registerAdd promptOps regRcx (-1)).ctxt = r at decoded ready
    obtain ⟨rc, c⟩ := r
    obtain rfl : rc = .continue := decoded.status
    rw [if_neg (Bool.eq_false_iff.mp goes)]
    exact ⟨rfl, ready.1, ready.2.trans counted.guest, decoded.kept.trans counted.kept⟩

theorem RoundRep.of_kept {s' : Emulator Guest} {after : Guest} {r : Next × Emulator Guest}
    (h : RoundRep f s' after r) (kept : s'.ctxt.instruction = s.ctxt.instruction) :
    RoundRep f s after r := by
  have prefixes : s'.ctxt.prefixes = s.ctxt.prefixes := congrArg (fun x => x.2.2.2.2.2.1) kept
  constructor
  · intro ended
    obtain ⟨next, settled⟩ := h.ends (prefixes ▸ ended)
    exact ⟨next, settled.kept.trans kept, settled.guest, settled.coherent⟩
  · intro goes
    obtain ⟨next, ready, vcpu, same⟩ := h.goes (prefixes ▸ goes)
    exact ⟨next, ready, vcpu, same.trans kept⟩

/-- A round with a repeat prefix. -/
theorem Ready.emRound_rep (ready : f.Ready s) (rep : s.ctxt.prefixes.rep ≠ 0) :
    (f.count s.vcpu = 0 → ∃ t, emRound promptOps host insn s = (.done, t) ∧
      Settled s t s.vcpu) ∧
    (f.count s.vcpu ≠ 0 →
      RoundRep f s (f.iteration host s.vcpu) (emRound promptOps host insn s)) := by
  have count : (s.gprRead promptOps regRcx s.ctxt.addressSize).1 = f.count s.vcpu := by
    rw [Emulator.gprRead_fst, ready.context.addressSize, count, ← ready.gpr_eq]
  have filled := @Emulator.sameRegisters_gprRead _ promptOps s regRcx s.ctxt.addressSize
  have next : f.Ready (s.gprRead promptOps regRcx s.ctxt.addressSize).2 :=
    ready.of_cache filled.filled
  unfold emRound
  rw [if_pos rep]
  dsimp only
  rw [count]
  constructor
  · intro zero
    rw [if_pos zero]
    exact ⟨_, rfl, rfl, next.coherent.guest_eq next.clean, next.coherent⟩
  · intro positive
    obtain ⟨t, once, done⟩ := next.iterate host
    have prefixes : (advanceIndexes promptOps t).ctxt.prefixes = s.ctxt.prefixes :=
      congrArg (fun x => x.2.2.2.2.2.1) done.kept
    rw [if_neg positive, once]
    dsimp only
    rw [prefixes, if_pos rep]
    exact (done.repeatInsn insn next.context).of_kept rfl

/-- The loop, as long as there is fuel: what the rounds make of the guest. -/
def rounds (f : StringForm) (host : HostFlags) (rep : BitVec 8) : ℕ → Guest → Guest
  | 0, g => g
  | fuel + 1, g =>
    if f.count g = 0 then g
    else if f.ends rep (f.iteration host g) then f.iteration host g
    else rounds f host rep fuel (f.iteration host g)

/-! ## Termination -/

theorem run_gpr_rcx (f : StringForm) (g : Guest) (host : HostFlags) :
    (f.run g host).gpr regRcx = g.gpr regRcx := by
  have access : (f.access g host).gpr regRcx = g.gpr regRcx := by
    unfold StringForm.access
    split
    · rfl
    · rfl
    · rfl
    · exact Guest.gpr_setGpr_of_ne _ (show regRcx ≠ regRax by decide) _
  have di (g : Guest) (x : BitVec 64) : (g.setGpr regRdi x).gpr regRcx = g.gpr regRcx :=
    g.gpr_setGpr_of_ne (by decide) x
  have si (g : Guest) (x : BitVec 64) : (g.setGpr regRsi x).gpr regRcx = g.gpr regRcx :=
    g.gpr_setGpr_of_ne (by decide) x
  unfold StringForm.run StringForm.move
  dsimp only
  split_ifs <;> simp only [di, si, access]

theorem toNat_lowBytes (n : ℕ) (v : BitVec 64) :
    (lowBytes n v).toNat = v.toNat % 2 ^ (8 * n) := by
  have small : v.toNat % 2 ^ (8 * n) < 2 ^ 64 :=
    Nat.lt_of_le_of_lt (Nat.mod_le _ _) v.isLt
  rw [lowBytes, BitVec.toNat_setWidth, BitVec.toNat_setWidth, Nat.mod_eq_of_lt small]

/-- A count that is not zero goes down by one. -/
theorem toNat_lowBytes_pred {n : ℕ} (size : n = 2 ∨ n = 4 ∨ n = 8) {v : BitVec 64}
    (positive : lowBytes n v ≠ 0) : (lowBytes n (v + -1)).toNat + 1 = (lowBytes n v).toNat := by
  have nonzero : (lowBytes n v).toNat ≠ 0 := fun zero => positive (BitVec.eq_of_toNat_eq zero)
  have pred : (v + -1).toNat = (v.toNat + (2 ^ 64 - 1)) % 2 ^ 64 := by
    rw [BitVec.toNat_add]
    rfl
  have bound := v.isLt
  rcases size with rfl | rfl | rfl
  all_goals
    rw [toNat_lowBytes] at nonzero
    rw [toNat_lowBytes, toNat_lowBytes, pred]
    omega

theorem count_iteration (size : f.addressSize = 2 ∨ f.addressSize = 4 ∨ f.addressSize = 8)
    {g : Guest} (positive : f.count g ≠ 0) :
    (f.count (f.iteration host g)).toNat + 1 = (f.count g).toNat := by
  have register : (f.iteration host g).gpr regRcx = g.gpr regRcx + -1 := by
    rw [iteration, Guest.gpr_setGpr_self, run_gpr_rcx]
  unfold count at positive ⊢
  rw [register]
  exact toNat_lowBytes_pred size positive

theorem Context.addressSize_cases (context : f.Context s.ctxt) :
    f.addressSize = 2 ∨ f.addressSize = 4 ∨ f.addressSize = 8 :=
  context.addressSize ▸ context.sized.address

/-- With enough fuel the loop comes to its end. -/
theorem Ready.emRounds_rep {fuel : ℕ} (ready : f.Ready s) (rep : s.ctxt.prefixes.rep ≠ 0)
    (enough : (f.count s.vcpu).toNat < fuel) :
    ∃ t, emRounds promptOps host insn fuel s = (.done, t) ∧
      Settled s t (f.rounds host s.ctxt.prefixes.rep fuel s.vcpu) := by
  induction fuel generalizing s with
  | zero => omega
  | succ fuel ih =>
    obtain ⟨zero, positive⟩ := ready.emRound_rep insn host rep
    unfold emRounds rounds
    by_cases none : f.count s.vcpu = 0
    · obtain ⟨t, run, settled⟩ := zero none
      rw [run, if_pos none]
      exact ⟨t, rfl, settled⟩
    · have round := positive none
      have less := f.count_iteration host ready.context.addressSize_cases none
      generalize emRound promptOps host insn s = r at round
      obtain ⟨next, t⟩ := r
      rw [if_neg none]
      by_cases ended : f.ends s.ctxt.prefixes.rep (f.iteration host s.vcpu) = true
      · obtain ⟨rfl, settled⟩ := round.ends ended
        rw [if_pos ended]
        exact ⟨t, rfl, settled⟩
      · obtain ⟨rfl, again, vcpu, kept⟩ := round.goes (Bool.eq_false_iff.mpr ended)
        have prefixes : t.ctxt.prefixes = s.ctxt.prefixes := congrArg (fun x => x.2.2.2.2.2.1) kept
        dsimp only at vcpu
        obtain ⟨u, run, settled⟩ := ih again (prefixes ▸ rep) (by rw [vcpu]; omega)
        rw [if_neg ended]
        rw [vcpu, prefixes] at settled
        exact ⟨u, run, settled.kept.trans kept, settled.guest, settled.coherent⟩

/-! ## Whole instructions -/

/-- Without a repeat prefix there is one iteration. -/
theorem Ready.emEmulateInsn_single (ready : f.Ready s) (rep : s.ctxt.prefixes.rep = 0) :
    (emEmulateInsn promptOps host insn s).1 = .continue ∧
      (emEmulateInsn promptOps host insn s).2.vcpu =
        (f.run s.vcpu host).advance s.ctxt.cursor.len := by
  obtain ⟨t, once, done⟩ := ready.setFinished.iterate host
  have cursor : (advanceIndexes promptOps t).ctxt.cursor = s.ctxt.cursor :=
    congrArg (fun x => x.2.2.2.2.1) done.kept
  rw [emEmulateInsn_unrepeated rep once, if_pos rfl]
  refine ⟨rfl, ?_⟩
  rw [← cursor, ← done.guest]
  exact done.coherent.emFinish_vcpu

/-- The number of rounds that the emulator allows for is enough. -/
theorem Ready.emCount_eq (ready : f.Ready s) :
    emCount promptOps s = (f.count s.vcpu).toNat := by
  rw [emCount, Emulator.gprRead_fst, ready.context.addressSize, count, ← ready.gpr_eq]

theorem Ready.terminates (ready : f.Ready s) (rep : s.ctxt.prefixes.rep ≠ 0) :
    (emRounds promptOps host insn (emCount promptOps s + 1)
      ⟨{ s.ctxt with finished := false }, s.vcpu⟩).1 = .done := by
  obtain ⟨t, run, -⟩ := ready.setFinished.emRounds_rep insn host rep (Nat.lt_succ_self _)
  rw [ready.emCount_eq, run]

theorem Ready.emEmulateInsn_rep (ready : f.Ready s) (rep : s.ctxt.prefixes.rep ≠ 0) :
    (emEmulateInsn promptOps host insn s).1 = .continue ∧
      (emEmulateInsn promptOps host insn s).2.vcpu =
        (f.rounds host s.ctxt.prefixes.rep ((f.count s.vcpu).toNat + 1) s.vcpu).advance
          s.ctxt.cursor.len := by
  have start := ready.setFinished
  obtain ⟨t, run, settled⟩ := start.emRounds_rep insn host rep (Nat.lt_succ_self _)
  have cursor : t.ctxt.cursor = s.ctxt.cursor := congrArg (fun x => x.2.2.2.2.1) settled.kept
  have finish := settled.coherent.emFinish_vcpu
  unfold emEmulateInsn
  dsimp only
  rw [start.emCount_eq, run]
  refine ⟨rfl, ?_⟩
  rw [settled.guest, cursor] at finish
  exact finish

end StringForm

/-! ## Iteration without the prefix -/

/-- The accesses in the log, each with the registers that the virtual CPU had then. -/
def Guest.accesses (g : Guest) : List GuestEvent := g.log.filter GuestEvent.isAccess

/-- The two guests differ in RIP, and in when it was advanced, at most. -/
structure Guest.Alike (g g' : Guest) : Prop where
  gpr : g.gpr = g'.gpr
  rflags : g.rflags = g'.rflags
  segBase : g.segBase = g'.segBase
  mem : g.mem = g'.mem
  accesses : g.accesses = g'.accesses

namespace Guest.Alike

variable {g g' : Guest}

theorem setGpr (h : g.Alike g') (i : Fin 16) (x : BitVec 64) :
    (g.setGpr i x).Alike (g'.setGpr i x) :=
  { h with gpr := by rw [Guest.setGpr, Guest.setGpr, h.gpr] }

theorem record (h : g.Alike g') (event : GuestEvent) :
    (g.record event).Alike (g'.record event) := by
  refine { h with accesses := ?_ }
  unfold Guest.accesses Guest.record
  rw [List.filter_append, List.filter_append]
  exact congrArg (· ++ _) h.accesses

theorem load (h : g.Alike g') (la : BitVec 64) (size : ℕ) : g.load la size = g'.load la size := by
  unfold Guest.load
  rw [h.mem]

theorem read (h : g.Alike g') (la : BitVec 64) (size : ℕ) :
    (g.read la size).Alike (g'.read la size) := by
  unfold Guest.read
  rw [h.load, h.gpr]
  exact h.record _

theorem write (h : g.Alike g') (la : BitVec 64) (size : ℕ) (value : BitVec 64) :
    (g.write la size value).Alike (g'.write la size value) := by
  have stored : (g.store la size value).Alike (g'.store la size value) :=
    { h with mem := by rw [Guest.store, Guest.store, h.mem] }
  unfold Guest.write
  rw [h.gpr]
  exact stored.record _

theorem refl (g : Guest) : g.Alike g := ⟨rfl, rfl, rfl, rfl, rfl⟩

theorem advance (h : g.Alike g') (len : ℕ) : g.Alike (g'.advance len) := by
  refine { h with accesses := h.accesses.trans ?_ }
  unfold Guest.accesses Guest.advance Guest.record
  rw [List.filter_append]
  exact (List.append_nil _).symm

variable (f : StringForm) (host : HostFlags)

theorem access (h : g.Alike g') : (f.access g host).Alike (f.access g' host) := by
  have di : f.diAddress g = f.diAddress g' := by
    unfold StringForm.diAddress
    rw [h.segBase, h.gpr]
  have si : f.siAddress g = f.siAddress g' := by
    unfold StringForm.siAddress
    rw [h.segBase, h.gpr]
  have diValue : f.diValue g = f.diValue g' := by
    rw [StringForm.diValue, StringForm.diValue, di, h.load]
  have siValue : f.siValue g = f.siValue g' := by
    rw [StringForm.siValue, StringForm.siValue, si, h.load]
  have compare : f.compare g host = f.compare g' host := by
    rw [StringForm.compare, StringForm.compare, diValue, siValue, h.rflags]
  unfold StringForm.access
  cases f.op with
  | movs =>
    dsimp only
    rw [di, si, siValue]
    exact (h.read _ _).write _ _ _
  | cmps =>
    have read := (h.read (f.diAddress g') f.size).read (f.siAddress g') f.size
    dsimp only
    rw [di, si, compare]
    exact { read with rflags := rfl }
  | stos =>
    dsimp only
    rw [di, h.gpr]
    exact h.write _ _ _
  | lods =>
    dsimp only
    rw [si, siValue, h.gpr]
    exact (h.read _ _).setGpr _ _

theorem move (h : g.Alike g') : (f.move g).Alike (f.move g') := by
  have step {g g' : Guest} (h : g.Alike g') (p : Bool) (i : Fin 16) :
      (if p then g.setGpr i (g.gpr i + f.step g) else g).Alike
        (if p then g'.setGpr i (g'.gpr i + f.step g') else g') := by
    have same : f.step g = f.step g' := by
      rw [StringForm.step, StringForm.step, h.rflags]
    split
    · rw [same, h.gpr]
      exact h.setGpr _ _
    · exact h
  exact step (step h f.usesDi regRdi) f.usesSi regRsi

theorem run (h : g.Alike g') : (f.run g host).Alike (f.run g' host) :=
  (h.access f host).move f

end Guest.Alike

/-- The context without its repeat prefix. -/
def EmContext.withoutRep (c : EmContext) : EmContext :=
  { c with prefixes := { c.prefixes with rep := 0 } }

theorem StringForm.Ready.withoutRep {f : StringForm} {s : Emulator Guest} (ready : f.Ready s) :
    f.Ready ⟨s.ctxt.withoutRep, s.vcpu⟩ := by
  have sized := ready.context.sized
  exact
    { ready with
      context := { ready.context with sized := ⟨sized.1, sized.2⟩ }
      coherent := { ready.coherent with } }

section Reference

variable (mode : EmMode) (insn : ℕ → BitVec 8) (e : EmOpcode) (host : HostFlags)

/-- The guest after the same instruction without its repeat prefix. -/
def runWithoutRep (g : Guest) : Guest :=
  (emEmulateInsn promptOps host insn ⟨(decodedInsn mode insn g).ctxt.withoutRep, g⟩).2.vcpu

/-- CX, ECX or RCX. -/
def countRegister (g : Guest) : BitVec 64 :=
  lowBytes (prefixedAddressSize mode insn) (g.gpr regRcx)

/-- One is taken from CX, ECX or RCX. -/
def decrementCount (g : Guest) : Guest :=
  g.setGpr regRcx
    (putBytes 0 (prefixedAddressSize mode insn) (countRegister mode insn g - 1) (g.gpr regRcx))

/-- The condition of REPE or REPNE does not hold after a comparison. -/
def RepFails (g : Guest) : Prop :=
  e.has insnRepx = true ∧
    ((prefixSet insn).rep = prefixRepe ∧ rflagsZf g.rflags = false ∨
      (prefixSet insn).rep = prefixRepne ∧ rflagsZf g.rflags = true)

/-- The instruction without its prefix is carried out until the count register is zero, or the
condition of the prefix fails. -/
inductive Iterates : Guest → Guest → Prop
  | zero {g : Guest} : countRegister mode insn g = 0 → Iterates g g
  | last {g : Guest} : countRegister mode insn g ≠ 0 →
      RepFails insn e (decrementCount mode insn (runWithoutRep mode insn host g)) →
      Iterates g (decrementCount mode insn (runWithoutRep mode insn host g))
  | next {g g' : Guest} : countRegister mode insn g ≠ 0 →
      ¬ RepFails insn e (decrementCount mode insn (runWithoutRep mode insn host g)) →
      Iterates (decrementCount mode insn (runWithoutRep mode insn host g)) g' → Iterates g g'

end Reference

/-- The bytes that are kept, and the new ones. -/
theorem putBytes_eq_add (n : ℕ) (x v : BitVec 64) :
    putBytes 0 n x v = (v &&& ~~~lowBytes n (BitVec.allOnes 64)) + lowBytes n x := by
  have disjoint : (v &&& ~~~lowBytes n (BitVec.allOnes 64)) &&& lowBytes n x = 0#64 := by
    apply BitVec.eq_of_getLsbD_eq
    intro i hi
    simp only [BitVec.getLsbD_and, BitVec.getLsbD_not, getLsbD_lowBytes, BitVec.getLsbD_allOnes]
    cases decide (i < 8 * n) <;> simp [hi]
  rw [BitVec.add_eq_or_of_and_eq_zero _ _ disjoint, putBytes, Nat.mul_zero, BitVec.shiftLeft_zero,
    BitVec.shiftLeft_zero]

/-- A decrement that does not borrow. -/
theorem putBytes_pred {n : ℕ} {v : BitVec 64} (positive : lowBytes n v ≠ 0) :
    putBytes 0 n (lowBytes n v - 1) v = v + -1 := by
  have nonzero : (lowBytes n v).toNat ≠ 0 := fun zero => positive (BitVec.eq_of_toNat_eq zero)
  have low : lowBytes n (lowBytes n v - 1) = lowBytes n v - 1 := by
    apply BitVec.eq_of_toNat_eq
    have pred : (lowBytes n v - 1).toNat = (lowBytes n v).toNat - 1 := by
      have := (lowBytes n v).isLt
      rw [BitVec.toNat_sub]
      simp
      omega
    have small : (lowBytes n v).toNat < 2 ^ (8 * n) := by
      rw [StringForm.toNat_lowBytes]
      exact Nat.mod_lt _ (Nat.two_pow_pos _)
    rw [StringForm.toNat_lowBytes, pred]
    exact Nat.mod_eq_of_lt (by omega)
  have whole := putBytes_eq_add n (lowBytes n v) v
  have same : putBytes 0 n (lowBytes n v) v = v := by
    simpa using putBytes_lowBytes 0 n v
  rw [same, lowBytes_lowBytes] at whole
  rw [putBytes_eq_add, low, BitVec.sub_eq_add_neg, ← BitVec.add_assoc, ← whole]

section Refinement

variable {mode : EmMode} {insn : ℕ → BitVec 8} {l : Layout} {e : EmOpcode} {k : StringOp}
  (imp : Implements mode insn l e) (entry : k.Entry e) (host : HostFlags)

include imp entry

theorem runWithoutRep_alike (g : Guest) :
    ((stringForm mode insn l e k).run g host).Alike (runWithoutRep mode insn host g) := by
  have without := (imp.ready entry g).withoutRep
  have single := (without.emEmulateInsn_single insn host rfl).2
  show Guest.Alike _ (emEmulateInsn promptOps host insn
    ⟨(decodedInsn mode insn g).ctxt.withoutRep, (decodedInsn mode insn g).vcpu⟩).2.vcpu
  rw [single]
  exact (Guest.Alike.refl _).advance _

/-- One iteration of the emulator and one of the reference. -/
theorem iteration_alike {g g' : Guest} (alike : g.Alike g')
    (positive : countRegister mode insn g' ≠ 0) :
    ((stringForm mode insn l e k).iteration host g).Alike
      (decrementCount mode insn (runWithoutRep mode insn host g')) := by
  have run := runWithoutRep_alike imp entry host g'
  have same := alike.run (stringForm mode insn l e k) host
  have kept : (runWithoutRep mode insn host g').gpr regRcx = g'.gpr regRcx := by
    rw [← run.gpr, StringForm.run_gpr_rcx]
  have register : ((stringForm mode insn l e k).run g host).gpr regRcx = g'.gpr regRcx := by
    rw [same.gpr, StringForm.run_gpr_rcx]
  have pred := putBytes_pred positive
  unfold StringForm.iteration decrementCount countRegister
  rw [kept, register, pred]
  exact Guest.Alike.setGpr ⟨same.gpr.trans run.gpr, same.rflags.trans run.rflags,
    same.segBase.trans run.segBase, same.mem.trans run.mem, same.accesses.trans run.accesses⟩ _ _

omit imp in
theorem ends_iff (g : Guest) :
    (stringForm mode insn l e k).ends (prefixSet insn).rep g = true ↔ RepFails insn e g := by
  unfold StringForm.ends RepFails
  rw [entry.repx]
  cases rflagsZf g.rflags <;> simp [stringForm]

/-- The reference comes to an end as well, with the same result. -/
theorem exists_iterates {fuel : ℕ} {g g' : Guest} (alike : g.Alike g')
    (enough : ((stringForm mode insn l e k).count g).toNat < fuel) :
    ∃ h, Iterates mode insn e host g' h ∧
      ((stringForm mode insn l e k).rounds host (prefixSet insn).rep fuel g).Alike h := by
  induction fuel generalizing g g' with
  | zero => omega
  | succ fuel ih =>
    have count : (stringForm mode insn l e k).count g = countRegister mode insn g' := by
      unfold StringForm.count countRegister
      rw [alike.gpr]
      rfl
    unfold StringForm.rounds
    by_cases none : (stringForm mode insn l e k).count g = 0
    · rw [if_pos none]
      exact ⟨g', .zero (count.symm.trans none), alike⟩
    · have positive : countRegister mode insn g' ≠ 0 := count ▸ none
      have next := iteration_alike imp entry host alike positive
      have less := StringForm.count_iteration host (f := stringForm mode insn l e k)
        prefixedAddressSize_cases none
      have fails : (stringForm mode insn l e k).ends (prefixSet insn).rep
          ((stringForm mode insn l e k).iteration host g) = true ↔
          RepFails insn e (decrementCount mode insn (runWithoutRep mode insn host g')) := by
        rw [ends_iff entry, RepFails, RepFails, next.rflags]
      rw [if_neg none]
      by_cases ended : (stringForm mode insn l e k).ends (prefixSet insn).rep
          ((stringForm mode insn l e k).iteration host g) = true
      · rw [if_pos ended]
        exact ⟨_, .last positive (fails.mp ended), next⟩
      · obtain ⟨h, iterates, result⟩ := ih next (by omega)
        rw [if_neg ended]
        exact ⟨h, .next positive (fun stop => ended (fails.mpr stop)) iterates, result⟩

end Refinement

/-! ## The log -/

/-- Nothing but accesses has been added to the log. -/
structure Guest.OnlyAccesses (g g' : Guest) : Prop where
  rip : g'.rip = g.rip
  log : ∃ new, g'.log = g.log ++ new ∧ ∀ event ∈ new, event.isAccess = true

namespace Guest.OnlyAccesses

variable {g g' g'' : Guest}

theorem refl (g : Guest) : g.OnlyAccesses g := ⟨rfl, [], (List.append_nil _).symm, by simp⟩

theorem trans (first : g.OnlyAccesses g') (second : g'.OnlyAccesses g'') : g.OnlyAccesses g'' := by
  obtain ⟨new, log, all⟩ := first.log
  obtain ⟨new', log', all'⟩ := second.log
  refine ⟨second.rip.trans first.rip, new ++ new', ?_, ?_⟩
  · rw [log', log, List.append_assoc]
  · intro event mem
    exact (List.mem_append.mp mem).elim (all event) (all' event)

theorem record (g : Guest) {event : GuestEvent} (access : event.isAccess = true) :
    g.OnlyAccesses (g.record event) :=
  ⟨rfl, [event], rfl, fun _ mem => List.mem_singleton.mp mem ▸ access⟩

/-- Registers, flags and memory do not matter. -/
theorem of_eq (rip : g'.rip = g.rip) (log : g'.log = g.log) : g.OnlyAccesses g' :=
  ⟨rip, [], log.trans (List.append_nil _).symm, by simp⟩

theorem read (g : Guest) (la : BitVec 64) (size : ℕ) : g.OnlyAccesses (g.read la size) :=
  record g rfl

theorem write (g : Guest) (la : BitVec 64) (size : ℕ) (value : BitVec 64) :
    g.OnlyAccesses (g.write la size value) :=
  have stored : g.OnlyAccesses (g.store la size value) := of_eq rfl rfl
  stored.trans (record _ rfl)

variable (f : StringForm) (host : HostFlags)

theorem run (g : Guest) : g.OnlyAccesses (f.run g host) := by
  have access : g.OnlyAccesses (f.access g host) := by
    unfold StringForm.access
    split
    · exact (read g _ _).trans (write _ _ _ _)
    · exact ((read g _ _).trans (read _ _ _)).trans (of_eq rfl rfl)
    · exact write g _ _ _
    · exact (read g _ _).trans (of_eq rfl rfl)
  refine access.trans ?_
  unfold StringForm.run StringForm.move
  dsimp only
  split_ifs <;> exact of_eq rfl rfl

theorem rounds (rep : BitVec 8) (fuel : ℕ) (g : Guest) :
    g.OnlyAccesses (f.rounds host rep fuel g) := by
  induction fuel generalizing g with
  | zero => exact refl g
  | succ fuel ih =>
    have iteration : g.OnlyAccesses (f.iteration host g) := (run f host g).trans (of_eq rfl rfl)
    unfold StringForm.rounds
    split
    · exact refl g
    split
    · exact iteration
    · exact iteration.trans (ih _)

end Guest.OnlyAccesses

/-! ## The refinement -/

/-- What `em_emulate_insn` does with a string instruction that has a repeat prefix, against the
iteration of the instruction without it. -/
structure RefinesIteration (mode : EmMode) (insn : ℕ → BitVec 8) (e : EmOpcode) (host : HostFlags)
    (g : Guest) (s : Emulator Guest) (r : EmStatus × Emulator Guest) : Prop where
  /-- The loop ends before the rounds that it is given are used up. -/
  terminates : (emRounds promptOps host insn (emCount promptOps s + 1)
    ⟨{ s.ctxt with finished := false }, s.vcpu⟩).1 = .done
  status : r.1 = .continue
  /-- Registers, flags, memory and the accesses are those of the iteration. The registers that are
  logged with an access are those of the virtual CPU: what earlier iterations did to them has been
  written back. -/
  result : ∃ g', Iterates mode insn e host g g' ∧ r.2.vcpu.gpr = g'.gpr ∧
    r.2.vcpu.rflags = g'.rflags ∧ r.2.vcpu.mem = g'.mem ∧ r.2.vcpu.accesses = g'.accesses
  /-- RIP is advanced once, after all accesses. -/
  rip : r.2.vcpu.rip = g.rip + BitVec.ofNat 64 s.ctxt.cursor.len ∧
    ∃ new, r.2.vcpu.log = g.log ++ new ++ [.advanceRip s.ctxt.cursor.len] ∧
      ∀ event ∈ new, event.isAccess = true

/-- A repeat prefix stands for iteration, for every string instruction and every guest. -/
theorem emEmulateInsn_refinesIteration {mode : EmMode} {insn : ℕ → BitVec 8} {l : Layout}
    {e : EmOpcode} (imp : Implements mode insn l e) (repeats : repeated insn = true)
    (host : HostFlags) (g : Guest) :
    RefinesIteration mode insn e host g (decodedInsn mode insn g)
      (emEmulateInsn promptOps host insn (decodedInsn mode insn g)) := by
  obtain ⟨k, entry⟩ := imp.exists_entry (imp.2.2.2 repeats)
  have ready := imp.ready entry g
  have prefixes := (imp.decoded g).prefixes
  have rep : (decodedInsn mode insn g).ctxt.prefixes.rep ≠ 0 := by
    rw [prefixes, ne_eq, prefixSet_rep, repeats]
    decide
  obtain ⟨status, vcpu⟩ := ready.emEmulateInsn_rep insn host rep
  obtain ⟨g', iterates, same⟩ :=
    exists_iterates imp entry host (Guest.Alike.refl g) (Nat.lt_succ_self _)
  have only := Guest.OnlyAccesses.rounds (stringForm mode insn l e k) host (prefixSet insn).rep
    (((stringForm mode insn l e k).count g).toNat + 1) g
  rw [prefixes] at vcpu
  change _ = Guest.advance
    (StringForm.rounds _ _ _ (((stringForm mode insn l e k).count g).toNat + 1) g) _ at vcpu
  generalize (stringForm mode insn l e k).rounds host (prefixSet insn).rep
    (((stringForm mode insn l e k).count g).toNat + 1) g = final at vcpu same only
  obtain ⟨new, log, all⟩ := only.log
  have result (len : ℕ) :
      (final.advance len).gpr = g'.gpr ∧ (final.advance len).rflags = g'.rflags ∧
      (final.advance len).mem = g'.mem ∧ (final.advance len).accesses = g'.accesses :=
    ⟨same.gpr, same.rflags, same.mem,
      ((Guest.Alike.refl final).advance len).accesses.symm.trans same.accesses⟩
  have rip (len : ℕ) : (final.advance len).rip = g.rip + BitVec.ofNat 64 len ∧
      (final.advance len).log = g.log ++ new ++ [.advanceRip len] := by
    rw [← only.rip, ← log]
    exact ⟨rfl, rfl⟩
  exact {
    terminates := ready.terminates insn host rep
    status := status
    result := by
      rw [vcpu]
      exact ⟨g', iterates, result _⟩
    rip := by
      rw [vcpu]
      exact ⟨(rip _).1, new, (rip _).2, all⟩ }

/-- REP MOVSB. -/
def repMovsb : ℕ → BitVec 8
  | 0 => 0xf3
  | 1 => 0xa4
  | _ => 0

theorem implements_repMovsb :
    Implements .prot32 repMovsb (legacyLayout .prot32 repMovsb .oneByte 1)
      (OpcodeMap.oneByte.entry 0xa4) :=
  ⟨rfl, rfl, ⟨rfl, by decide⟩, by decide⟩

theorem repMovsb_refinesIteration :
    repeated repMovsb = true ∧
      RefinesIteration .prot32 repMovsb (OpcodeMap.oneByte.entry 0xa4) clearFlags
        (Guest.blank.setGpr regRcx 3)
        (decodedInsn .prot32 repMovsb (Guest.blank.setGpr regRcx 3))
        (emEmulateInsn promptOps clearFlags repMovsb
          (decodedInsn .prot32 repMovsb (Guest.blank.setGpr regRcx 3))) :=
  ⟨by decide, emEmulateInsn_refinesIteration implements_repMovsb (by decide) _ _⟩

end Haxm
