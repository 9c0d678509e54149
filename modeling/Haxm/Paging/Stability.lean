/-
# Walking again

A walk that only reads gives an outcome that depends on the entries it gets to,
and of these not on the accessed bit. So it can be repeated: after the walk has
marked its entries, and when more pages can be mapped than before, the same
address leads to the same page.
-/

import Haxm.Lib.Run
import Haxm.Paging.Refinement

namespace Haxm

open Lib

/-! ## The accessed bit -/

namespace PwEntry

/-- `e'` is `e`, except that the accessed bit may have been set. -/
def MarkedAs (e e' : PwEntry) : Prop := e' = e ∨ e' = e.setAccessed

/-- The accessed bit is the sixth. -/
theorem setAccessed_and (mask : BitVec 64) (clear : 0x20 &&& mask = 0) (e : PwEntry) :
    e.setAccessed.val &&& mask = e.val &&& mask := by
  rw [setAccessed, BitVec.and_or_distrib_right, clear]
  exact BitVec.or_zero

variable (e : PwEntry)

@[simp] theorem setAccessed_addrBaseLow : e.setAccessed.addrBaseLow = e.addrBaseLow := by
  simp [setAccessed, addrBaseLow, BitVec.extractLsb'_or]

@[simp] theorem setAccessed_addrBaseHigh : e.setAccessed.addrBaseHigh = e.addrBaseHigh := by
  simp [setAccessed, addrBaseHigh, BitVec.extractLsb'_or]

@[simp] theorem setAccessed_avlOrRes : e.setAccessed.avlOrRes = e.avlOrRes := by
  simp [setAccessed, avlOrRes, BitVec.extractLsb'_or]

@[simp] theorem setAccessed_exbOrRes : e.setAccessed.exbOrRes = e.exbOrRes := by
  simp [setAccessed, exbOrRes]

@[simp] theorem setAccessed_writable : e.setAccessed.writable = e.writable := by
  simp [setAccessed, writable]

@[simp] theorem setAccessed_user : e.setAccessed.user = e.user := by
  simp [setAccessed, user]

theorem setAccessed_nonPaeVal : e.setAccessed.nonPaeVal = e.nonPaeVal ||| 0x20 := by
  rw [nonPaeVal, setAccessed, BitVec.setWidth_or]
  rfl

end PwEntry

section Marked

variable (e : PwEntry) (mask : BitVec 32) (isNxe isLme isPae isPse : Bool)

theorem pwPhysAddr_setAccessed : pwPhysAddr e.setAccessed isPae = pwPhysAddr e isPae := by
  simp [pwPhysAddr]

theorem pwHighReserved_setAccessed : pwHighReserved mask e.setAccessed = pwHighReserved mask e := by
  simp [pwHighReserved]

theorem pwPml4teCleared_setAccessed :
    pwAreReservedBitsInPml4teCleared mask e.setAccessed isNxe =
      pwAreReservedBitsInPml4teCleared mask e isNxe := by
  simp [pwAreReservedBitsInPml4teCleared, pwHighReserved_setAccessed]

theorem pwPdpteCleared_setAccessed :
    pwAreReservedBitsInPdpteCleared mask e.setAccessed isNxe isLme =
      pwAreReservedBitsInPdpteCleared mask e isNxe isLme := by
  have low := PwEntry.setAccessed_and 0x3fffe000#64 (by decide) e
  simp [pwAreReservedBitsInPdpteCleared, pwHighReserved_setAccessed, pwIs1gbPagePdpte, low]

theorem pwPdeCleared_setAccessed :
    pwAreReservedBitsInPdeCleared mask e.setAccessed isNxe isLme isPae isPse =
      pwAreReservedBitsInPdeCleared mask e isNxe isLme isPae isPse := by
  have low := PwEntry.setAccessed_and 0x1fe000#64 (by decide) e
  have legacy : e.setAccessed.nonPaeVal &&& 0x3fe000#32 = e.nonPaeVal &&& 0x3fe000#32 := by
    rw [PwEntry.setAccessed_nonPaeVal, BitVec.and_or_distrib_right]
    exact BitVec.or_zero
  simp [pwAreReservedBitsInPdeCleared, pwHighReserved_setAccessed, pwIsBigPagePde_setAccessed, low,
    legacy]

theorem pwPteCleared_setAccessed :
    pwAreReservedBitsInPteCleared mask e.setAccessed isNxe isLme isPae =
      pwAreReservedBitsInPteCleared mask e isNxe isLme isPae := by
  simp [pwAreReservedBitsInPteCleared, pwHighReserved_setAccessed]

end Marked

/-! ## What a walk leaves in memory -/

/-- The number of bytes of an entry. -/
def PwInput.entrySize (x : PwInput) : ℕ := if x.isPae then 8 else 4

namespace PwRam

/-- Bytes at multiples of `w` may have got the accessed bit. -/
def MarkedAs (w : ℕ) (ram ram' : PwRam) : Prop :=
  ∀ page o, ram' page o = ram page o ∨ w ∣ o ∧ ram' page o = ram page o ||| 0x20

variable {w page o : ℕ} {ram ram' ram'' : PwRam}

theorem MarkedAs.refl (w : ℕ) (ram : PwRam) : ram.MarkedAs w ram := fun _ _ => .inl rfl

theorem MarkedAs.trans (h : ram.MarkedAs w ram') (h' : ram'.MarkedAs w ram'') :
    ram.MarkedAs w ram'' := by
  intro page o
  rcases h page o with same | ⟨aligned, marked⟩
  · rw [← same]
    exact h' page o
  · rcases h' page o with same' | ⟨-, marked'⟩
    · exact .inr ⟨aligned, same'.trans marked⟩
    · exact .inr ⟨aligned, by rw [marked', marked, BitVec.or_assoc, BitVec.or_self]⟩

theorem load_congr {n : ℕ} (same : ∀ i, o ≤ i → i < o + n → ram' page i = ram page i) :
    ram'.load page o n = ram.load page o n := by
  induction n generalizing o with
  | zero => rfl
  | succ n ih =>
    rw [load, load, same o (Nat.le_refl _) (by omega), ih fun i hlo hhi =>
      same i (by omega) (by omega)]

theorem load_lt (ram : PwRam) (page o n : ℕ) : ram.load page o n < 256 ^ n := by
  induction n generalizing o with
  | zero => exact Nat.one_pos
  | succ n ih =>
    have byte := (ram page o).isLt
    have rest := ih (o + 1)
    rw [load, Nat.pow_succ]
    omega

/-- Each byte can be read off the number. -/
theorem load_byte {n k : ℕ} (ram : PwRam) (page o : ℕ) (hk : k < n) :
    ram.load page o n / 256 ^ k % 256 = (ram page (o + k)).toNat := by
  induction n generalizing o k with
  | zero => omega
  | succ n ih =>
    have byte := (ram page o).isLt
    cases k with
    | zero =>
      rw [load, Nat.pow_zero, Nat.div_one, Nat.add_mul_mod_self_left]
      exact Nat.mod_eq_of_lt byte
    | succ k =>
      have skip : ram.load page o (n + 1) / 256 = ram.load page (o + 1) n := by
        rw [load]
        omega
      rw [Nat.pow_succ', ← Nat.div_div_eq_div_mul, skip, ih (o + 1) (by omega)]
      congr 2
      omega

/-- Only the first byte of an entry is marked. -/
theorem MarkedAs.load (h : ram.MarkedAs w ram') (page n : ℕ) (aligned : w ∣ o) (hn : n + 1 ≤ w) :
    ram'.load page o (n + 1) = ram.load page o (n + 1) ∨
      ram'.load page o (n + 1) = ram.load page o (n + 1) ||| 32 := by
  have rest : ram'.load page (o + 1) n = ram.load page (o + 1) n := by
    refine load_congr fun i hlo hhi => (h page i).resolve_right fun marked => ?_
    have : w ∣ i - o := Nat.dvd_sub marked.1 aligned
    have := Nat.le_of_dvd (by omega) this
    omega
  rw [PwRam.load, PwRam.load, rest]
  rcases h page o with same | ⟨-, marked⟩
  · exact .inl (by rw [same])
  · right
    have byte := (ram page o).isLt
    have low : (ram page o).toNat ||| 32 < 2 ^ 8 := Nat.or_lt_two_pow byte (by decide)
    rw [marked, BitVec.toNat_or, Nat.add_comm, Nat.add_comm (ram page o).toNat]
    show 2 ^ 8 * _ + ((ram page o).toNat ||| 32) = (2 ^ 8 * _ + (ram page o).toNat) ||| 32
    rw [Nat.two_pow_add_eq_or_of_lt low, Nat.two_pow_add_eq_or_of_lt byte, Nat.or_assoc]

/-- Setting the accessed bit of the number in memory. -/
theorem store_markedAs {v : BitVec 64} (aligned : w ∣ o)
    (held : BitVec.ofNat 64 (ram.load page o 8) = v) :
    ram.MarkedAs w (ram.store page o (v ||| 0x20)) := by
  intro p i
  unfold store
  by_cases inside : p = page ∧ o ≤ i ∧ i < o + 8
  swap
  · exact .inl (if_neg inside)
  obtain ⟨rfl, hlo, hhi⟩ := inside
  obtain ⟨k, rfl⟩ := Nat.exists_eq_add_of_le hlo
  have byte : (v >>> (8 * k)).setWidth 8 = ram p (o + k) := by
    have small : ram.load p o 8 < 2 ^ 64 := load_lt ram p o 8
    apply BitVec.eq_of_toNat_eq
    rw [← held, BitVec.toNat_setWidth, BitVec.toNat_ushiftRight, BitVec.toNat_ofNat,
      Nat.mod_eq_of_lt small, Nat.shiftRight_eq_div_pow, Nat.pow_mul]
    exact load_byte ram p o (by omega)
  rw [if_pos ⟨rfl, hlo, hhi⟩, Nat.add_sub_cancel_left, BitVec.ushiftRight_or_distrib,
    BitVec.setWidth_or, byte]
  rcases k with _ | k
  · exact .inr ⟨aligned, rfl⟩
  · left
    have gone : (0x20 : BitVec 64) >>> (8 * (k + 1)) = 0 := by
      apply BitVec.eq_of_toNat_eq
      rw [BitVec.toNat_ushiftRight, Nat.shiftRight_eq_div_pow]
      apply Nat.div_eq_of_lt
      exact Nat.lt_of_lt_of_le (by decide : 32 < 2 ^ 8)
        (Nat.pow_le_pow_right (by decide) (by omega))
    rw [gone]
    exact BitVec.or_zero

end PwRam

theorem pwEntryValue_markedAs {ram ram' : PwRam} {isPae : Bool} {p : PwPtr}
    (h : ram.MarkedAs (if isPae then 8 else 4) ram')
    (aligned : (if isPae then 8 else 4) ∣ p.offset) :
    (pwEntryValue ram p isPae).MarkedAs (pwEntryValue ram' p isPae) := by
  have or_ofNat (w n : ℕ) : BitVec.ofNat w (n ||| 32) = BitVec.ofNat w n ||| BitVec.ofNat w 32 :=
    BitVec.ofNat_or
  cases isPae with
  | true =>
    rcases h.load p.base.page 7 aligned (Nat.le_refl _) with same | marked
    · exact .inl (by simp only [pwEntryValue, if_true, same])
    · exact .inr (by simp only [pwEntryValue, if_true, marked, or_ofNat]; rfl)
  | false =>
    rcases h.load p.base.page 3 aligned (Nat.le_refl _) with same | marked
    · exact .inl (by simp only [pwEntryValue, Bool.false_eq_true, if_false, same])
    · refine .inr ?_
      simp only [pwEntryValue, Bool.false_eq_true, if_false, marked, or_ofNat, BitVec.setWidth_or]
      rfl

/-- A slot whose pointer, if it has one, is that of an entry. -/
def PwSlot.Aligned (w : ℕ) (a : PwSlot) : Prop := ∀ p, a.ptr = some p → w ∣ p.offset

theorem PwSlot.aligned_default (w : ℕ) : ({} : PwSlot).Aligned w := by
  intro p h
  cases h

section Update

variable {w : ℕ} {s : PwState} {a : PwSlot}

theorem pwCmpxchg64_markedAs {p : PwPtr} {v : BitVec 64} (aligned : w ∣ p.offset) :
    s.ram.MarkedAs w (pwCmpxchg64 s v (v ||| 0x20) p).ram := by
  unfold pwCmpxchg64
  by_cases held : BitVec.ofNat 64 (s.ram.load p.base.page p.offset 8) = v
  · dsimp only
    rw [PwState.log_ram, if_pos held]
    exact PwRam.store_markedAs aligned held
  · dsimp only
    rw [PwState.log_ram, if_neg held]
    exact .refl w s.ram

/-- An entry is exchanged only for itself with the accessed bit set. -/
theorem pwUpdateAdBitsInEntry_markedAs (aligned : a.Aligned w) (earlier : List PwSlot) :
    s.ram.MarkedAs w
      (pwUpdateAdBitsInEntry s a.ptr (a.beforeUpdate earlier) a.val.setAccessed).ram := by
  unfold pwUpdateAdBitsInEntry
  cases hp : a.ptr with
  | none => simpa using PwRam.MarkedAs.refl w s.ram
  | some p =>
    dsimp only
    by_cases changed : (a.beforeUpdate earlier).nonPaeVal = a.val.setAccessed.nonPaeVal
    · simpa [changed] using PwRam.MarkedAs.refl w s.ram
    · have before : a.beforeUpdate earlier = a.val := by
        unfold PwSlot.beforeUpdate at changed ⊢
        split_ifs at changed ⊢
        · exact absurd rfl changed
        · rfl
      have after : a.val.setAccessed.nonPaeVal.setWidth 64 =
          a.val.nonPaeVal.setWidth 64 ||| 0x20 := by
        rw [PwEntry.setAccessed_nonPaeVal, BitVec.setWidth_or]
        rfl
      rw [before] at changed ⊢
      rw [if_pos (by simpa using changed), after]
      refine (?_ : s.ram.MarkedAs w _).trans (pwCmpxchg64_markedAs (aligned p hp))
      simpa using PwRam.MarkedAs.refl w s.ram

theorem pwUpdateAdBits_markedAs {pml4te pdpte : PwSlot} {pde pte : Option PwSlot}
    {isLme isPae isPse : Bool} (h4 : pml4te.Aligned w) (h3 : pdpte.Aligned w)
    (h2 : (pde.getD {}).Aligned w) (h1 : (pte.getD {}).Aligned w) :
    s.ram.MarkedAs w (pwUpdateAdBits s pml4te pdpte pde pte false isLme isPae isPse).ram := by
  have upper : s.ram.MarkedAs w (if isLme then
      pwUpdateAdBitsInEntry
        (pwUpdateAdBitsInEntry ((s.assert pml4te.ptr.isSome).assert pdpte.ptr.isSome) pml4te.ptr
          pml4te.val pml4te.val.setAccessed)
        pdpte.ptr (pdpte.beforeUpdate [pml4te]) pdpte.val.setAccessed else s).ram := by
    cases isLme with
    | false => exact .refl w s.ram
    | true =>
      refine PwRam.MarkedAs.trans ?_ (pwUpdateAdBitsInEntry_markedAs h3 [pml4te])
      have first := pwUpdateAdBitsInEntry_markedAs
        (s := (s.assert pml4te.ptr.isSome).assert pdpte.ptr.isSome) h4 []
      simpa [PwSlot.beforeUpdate] using first
  unfold pwUpdateAdBits
  simp only [Bool.false_eq_true, if_false]
  generalize (if isLme then _ else s) = s₁ at upper ⊢
  split_ifs
  · exact upper
  · refine upper.trans ?_
    simpa using pwUpdateAdBitsInEntry_markedAs (s := s₁.assert pde.isSome) h2 [pml4te, pdpte]
  · refine upper.trans (PwRam.MarkedAs.trans ?_ (pwUpdateAdBitsInEntry_markedAs h1 _))
    simpa using pwUpdateAdBitsInEntry_markedAs (s := s₁.assert pde.isSome) h2 [pml4te, pdpte]

end Update

/-- The walk asks for nothing but a translation: no right is checked. -/
structure PwInput.Plain (x : PwInput) : Prop where
  access : x.access = 0
  notFetch : x.isFetch = false

/-- The address of a table, which has none of the low five bits set. -/
def TableAddress (gpa : BitVec 64) : Prop := 32 ∣ gpa.toNat

theorem tableAddress_of_and {v : BitVec 64} (h : v &&& 0x1f = 0) : TableAddress v := by
  have := congrArg BitVec.toNat h
  rw [BitVec.toNat_and] at this
  exact Nat.dvd_of_mod_eq_zero ((Nat.and_two_pow_sub_one_eq_mod v.toNat 5).symm.trans this)

theorem pwPhysAddr_and (e : PwEntry) (isPae : Bool) : pwPhysAddr e isPae &&& 0xfff = 0 := by
  cases isPae with
  | true =>
    rw [pwPhysAddr_pae, BitVec.and_assoc]
    exact BitVec.and_zero
  | false =>
    apply BitVec.eq_of_getLsbD_eq
    intro i hi
    have mask : IsMask (0xfff : BitVec 64) 0 12 := isMask_of_eq (by decide)
    simp only [pwPhysAddr, Bool.false_eq_true, if_false, BitVec.getLsbD_and, mask.getLsbD,
      BitVec.getLsbD_shiftLeft]
    by_cases small : i < 12
    · simp [small]
    · simp [show ¬ i < 0 + 12 by omega]

theorem pwPhysAddr_tableAddress (e : PwEntry) (isPae : Bool) :
    TableAddress (pwPhysAddr e isPae) := by
  apply tableAddress_of_and
  calc pwPhysAddr e isPae &&& 0x1f
    _ = pwPhysAddr e isPae &&& (0xfff &&& 0x1f) := rfl
    _ = 0 := by
      rw [← BitVec.and_assoc, pwPhysAddr_and]
      exact BitVec.zero_and

theorem PwInput.firstTable_tableAddress (x : PwInput) : TableAddress x.firstTable := by
  apply tableAddress_of_and
  unfold firstTable pwRetrieveTableFromCr3 alignBackward
  split_ifs
  · rw [BitVec.and_assoc]
    exact BitVec.and_zero
  · rw [BitVec.and_assoc]
    exact BitVec.and_zero

/-- The entries of a table are aligned. -/
theorem TableAddress.dvd {gpa : BitVec 64} (h : TableAddress gpa) (x : PwInput) (page : PwPage)
    (index : BitVec 32) :
    x.entrySize ∣ (pwRetrieveTableEntry ⟨page, (gpa &&& 0xfff).toNat⟩ index x.isPae).offset := by
  have base : 32 ∣ (gpa &&& 0xfff).toNat := by
    have low : (gpa &&& 0xfff).toNat = gpa.toNat % 2 ^ 12 := by
      rw [BitVec.toNat_and]
      exact Nat.and_two_pow_sub_one_eq_mod gpa.toNat 12
    rw [low]
    exact (Nat.dvd_mod_iff (by decide)).2 h
  have entry (k : ℕ) (hk : k ∣ 2 ^ 32) : k ∣ index.toNat * k % 2 ^ 32 :=
    (Nat.dvd_mod_iff hk).2 (Nat.dvd_mul_left k _)
  unfold pwRetrieveTableEntry PwInput.entrySize
  cases x.isPae with
  | true => exact Nat.dvd_add (Nat.dvd_trans (by decide) base) (entry 8 (by decide))
  | false => exact Nat.dvd_add (Nat.dvd_trans (by decide) base) (entry 4 (by decide))

section Walk

variable {x : PwInput} {s : PwState} {passed : List PwSlot} {gpa : BitVec 64}

/-- The end of a walk that only translates. -/
theorem PwInput.Plain.finish_eq (plain : x.Plain) (r : PwResult) :
    x.finish s r passed = (r, if x.setAdBits then pwUpdateAdBits s (passed[0]?.getD {})
      (passed[1]?.getD {}) passed[2]? passed[3]? false x.isLme x.isPae x.isPse else s) := by
  have noWrite : x.isWrite = false := by simp [PwInput.isWrite, plain.access]
  have noUser : x.isUser = false := by simp [PwInput.isUser, plain.access]
  simp only [PwInput.finish, pwFinish, noWrite, noUser, plain.notFetch, Bool.and_false,
    Bool.false_eq_true, if_false, Bool.not_true]

theorem PwInput.Plain.finish (plain : x.Plain) (r : PwResult)
    (aligned : ∀ a ∈ passed, a.Aligned x.entrySize) :
    s.ram.MarkedAs x.entrySize (x.finish s r passed).2.ram := by
  have slot (i : ℕ) : (passed[i]?.getD {}).Aligned x.entrySize := by
    cases found : passed[i]? with
    | none => exact PwSlot.aligned_default _
    | some a => exact aligned a (List.mem_of_getElem? found)
  rw [plain.finish_eq]
  dsimp only
  split
  · exact pwUpdateAdBits_markedAs (slot 0) (slot 1) (slot 2) (slot 3)
  · exact .refl _ _

theorem PwInput.Plain.descend (plain : x.Plain) {levels : List PwLevel}
    (aligned : ∀ a ∈ passed, a.Aligned x.entrySize) (table : TableAddress gpa) :
    s.ram.MarkedAs x.entrySize (x.descend levels passed gpa s).2.ram := by
  induction levels generalizing passed gpa s with
  | nil => exact .refl _ _
  | cons l rest ih =>
    rcases descend_cases x l rest passed gpa s with
      ⟨-, run⟩ | ⟨e, p, s', -, ram, -, ⟨page, hp⟩, run⟩
    · rw [run]
      exact .refl _ _
    have more : ∀ a ∈ passed ++ [⟨some p, e⟩], a.Aligned x.entrySize := by
      intro a ha
      rcases List.mem_append.1 ha with old | new
      · exact aligned a old
      · rw [List.mem_singleton.1 new, hp]
        rintro _ ⟨⟩
        exact table.dvd x page l.index
    rw [run, ← ram]
    split_ifs
    · exact .refl _ _
    · exact .refl _ _
    · exact plain.finish _ more
    · exact ih more (pwPhysAddr_tableAddress e x.isPae)

/-- A walk that only translates changes accessed bits at most. -/
theorem PwInput.Plain.performPageWalk (plain : x.Plain) (ram : PwRam) :
    ram.MarkedAs x.entrySize (pwPerformPageWalk x ram).2.ram := by
  rw [pwPerformPageWalk_eq]
  refine plain.descend (s := { ram }) (fun a ha => ?_) x.firstTable_tableAddress
  have none : a = {} := by
    unfold PwInput.above at ha
    split_ifs at ha <;> simp_all
  rw [none]
  exact PwSlot.aligned_default _

end Walk

/-! ## Walking again -/

/-- The entries that a descent gets to: the table, its address and the index. -/
def PwInput.walked (x : PwInput) (ram : PwRam) :
    List PwLevel → BitVec 64 → List (PwTable × BitVec 64 × BitVec 32)
  | [], _ => []
  | l :: rest, gpa => (l.table, gpa, l.index) ::
    match x.entry ram l.table gpa l.index with
    | some e => if l.isPage e then [] else x.walked ram rest (pwPhysAddr e x.isPae)
    | none => []

/-- What a walk gets to see of the tables. -/
abbrev PwRead := PwTable → BitVec 64 → BitVec 32 → Option PwEntry

/-- Whatever was read of these entries before is still read, up to the accessed bit. -/
def PwRead.Extends (entries : List (PwTable × BitVec 64 × BitVec 32))
    (read read' : PwRead) : Prop :=
  ∀ table gpa index, (table, gpa, index) ∈ entries → TableAddress gpa →
    ∀ e, read table gpa index = some e → ∃ e', read' table gpa index = some e' ∧ e.MarkedAs e'

theorem PwEntry.MarkedAs.same {α : Type*} {e e' : PwEntry} (h : e.MarkedAs e') (f : PwEntry → α)
    (hf : f e.setAccessed = f e) : f e' = f e := by
  rcases h with rfl | rfl
  · rfl
  · exact hf

/-- The pages that could be mapped still can be, with marks made on them. -/
theorem PwInput.entry_extends {x : PwInput} {view : PwTable → ℕ → Option PwPage} {ram ram' : PwRam}
    (maps : ∀ table (gpa : BitVec 64) p, x.mapPage table (gpa >>> 12).toNat = some p →
      ∃ p', view table (gpa >>> 12).toNat = some p' ∧ p'.page = p.page)
    (marked : ram.MarkedAs x.entrySize ram') (entries : List (PwTable × BitVec 64 × BitVec 32)) :
    PwRead.Extends entries (x.entry ram) (PwInput.entry { x with mapPage := view } ram') := by
  intro table gpa index _ aligned e found
  obtain ⟨p, hp, rfl⟩ := Option.map_eq_some_iff.1 found
  obtain ⟨p', hp', same⟩ := maps _ _ _ hp
  have moved : pwEntryValue ram' (pwRetrieveTableEntry ⟨p', (gpa &&& 0xfff).toNat⟩ index x.isPae)
      x.isPae = pwEntryValue ram' (pwRetrieveTableEntry ⟨p, (gpa &&& 0xfff).toNat⟩ index x.isPae)
      x.isPae := by
    simp only [pwEntryValue, pwRetrieveTableEntry, same]
  refine ⟨_, Option.map_eq_some_iff.2 ⟨p', hp', moved⟩, ?_⟩
  exact pwEntryValue_markedAs marked (aligned.dvd x p index)

/-- Results for two addresses of one page: both are failures, or they are the same
page, and the second is `va'` inside it. -/
structure PwResult.Alongside (r r' : PwResult) (va' : BitVec 64) : Prop where
  retval : r'.retval = r.retval
  page : r.retval = tfOk → r'.gpa >>> 12 = r.gpa >>> 12
  offset : r.retval = tfOk → r'.gpa &&& 0xfff = va' &&& 0xfff

/-- Levels that lead to the same pages for two addresses of one page, whether or not their entries
are marked. -/
structure PwLevel.Alongside (va' : BitVec 64) (l l' : PwLevel) : Prop where
  table : l'.table = l.table
  index : l'.index = l.index
  cleared : ∀ {e e'}, PwEntry.MarkedAs e e' → l'.cleared e' = l.cleared e
  isPage : ∀ {e e'}, PwEntry.MarkedAs e e' → l'.isPage e' = l.isPage e
  page : ∀ {e e'}, PwEntry.MarkedAs e e' → l.isPage e = true → (l.page e).Alongside (l'.page e') va'

/-- A walk that found a page finds it again when it can read as much as before. -/
theorem descend_alongside {x x' : PwInput} {va' gpa : BitVec 64} {ram ram' : PwRam}
    {s s' : PwState} {passed passed' : List PwSlot} {levels levels' : List PwLevel}
    (plain : x.Plain) (plain' : x'.Plain) (mode : x'.isPae = x.isPae)
    (reads : PwRead.Extends (x.walked ram levels gpa) (x.entry ram) (x'.entry ram'))
    (along : List.Forall₂ (PwLevel.Alongside va') levels levels') (table : TableAddress gpa)
    (hs : s.ram = ram) (hs' : s'.ram = ram')
    (ok : (x.descend levels passed gpa s).1.retval = tfOk) :
    (x.descend levels passed gpa s).1.Alongside (x'.descend levels' passed' gpa s').1 va' := by
  induction along generalizing passed passed' gpa s s' with
  | nil => cases ok
  | @cons l l' rest rest' level _ ih =>
    rcases descend_cases x l rest passed gpa s with
      ⟨-, run⟩ | ⟨e, p, t, found, same, -, -, run⟩
    · rw [run] at ok
      cases ok
    rw [hs] at found
    obtain ⟨e', found', marked⟩ := reads _ _ _ List.mem_cons_self table e found
    rcases descend_cases x' l' rest' passed' gpa s' with
      ⟨none, -⟩ | ⟨e'', p', t', again, same', -, -, run'⟩
    · rw [level.table, level.index, hs', found'] at none
      cases none
    rw [level.table, level.index, hs', found'] at again
    obtain rfl := Option.some.inj again
    have present := marked.same PwEntry.present e.setAccessed_present
    have below := marked.same (pwPhysAddr · x.isPae) (pwPhysAddr_setAccessed e x.isPae)
    rw [run] at ok ⊢
    rw [run', present, level.cleared marked, level.isPage marked, mode, below]
    split_ifs at ok ⊢ with absent reserved isPage
    · rw [plain.access] at ok
      cases ok
    · rw [plain.access] at ok
      cases ok
    · rw [plain.finish_eq, plain'.finish_eq]
      exact level.page marked isPage
    · refine ih (fun t g i mem => reads t g i (List.mem_cons_of_mem _ ?_))
        (pwPhysAddr_tableAddress e x.isPae) (same.trans hs) (same'.trans hs') ok
      rw [found]
      dsimp only
      rwa [if_neg isPage]

/-! ## The addresses of one page -/

theorem extractLsb_of_page {va va' : BitVec 64} (page : va' >>> 12 = va >>> 12) (lo n : ℕ)
    (hlo : 12 ≤ lo) : va'.extractLsb' lo n = va.extractLsb' lo n := by
  apply BitVec.eq_of_getLsbD_eq
  intro i hi
  have bit := congrArg (BitVec.getLsbD · (lo - 12 + i)) page
  simp only [BitVec.getLsbD_ushiftRight] at bit
  rw [show 12 + (lo - 12 + i) = lo + i by omega] at bit
  rw [BitVec.getLsbD_extractLsb', BitVec.getLsbD_extractLsb', bit]

/-- The tables are indexed alike for all addresses of a page. -/
theorem pwIndices_of_page {va va' : BitVec 64} (page : va' >>> 12 = va >>> 12)
    (isPae isLme : Bool) : pwIndices va' isPae isLme = pwIndices va isPae isLme := by
  have field := extractLsb_of_page page
  cases isPae with
  | false =>
    rw [pwIndices_legacy rfl, pwIndices_legacy rfl, field 22 10 (by decide),
      field 12 10 (by decide)]
  | true =>
    rw [pwIndices_pae rfl, pwIndices_pae rfl, field 39 9 (by decide), field 30 _ (by decide),
      field 21 9 (by decide), field 12 9 (by decide)]

/-- Two addresses inside a page of at least 4 KByte. -/
theorem frame_or_alongside {frame va va' : BitVec 64} (page : va' >>> 12 = va >>> 12) {k : ℕ}
    (hk : 12 ≤ k) (low : frame &&& 0xfff = 0) :
    (frame ||| (va'.extractLsb' 0 k).setWidth 64) >>> 12 =
        (frame ||| (va.extractLsb' 0 k).setWidth 64) >>> 12 ∧
      (frame ||| (va'.extractLsb' 0 k).setWidth 64) &&& 0xfff = va' &&& 0xfff := by
  constructor
  · apply BitVec.eq_of_getLsbD_eq
    intro i hi
    have bit := congrArg (BitVec.getLsbD · i) page
    simp only [BitVec.getLsbD_ushiftRight] at bit
    simp only [BitVec.getLsbD_ushiftRight, BitVec.getLsbD_or, BitVec.getLsbD_setWidth,
      BitVec.getLsbD_extractLsb', Nat.zero_add, bit]
  · have mask : IsMask (0xfff : BitVec 64) 0 12 := isMask_of_eq (by decide)
    rw [BitVec.and_or_distrib_right, low]
    apply BitVec.eq_of_getLsbD_eq
    intro i hi
    simp only [BitVec.getLsbD_and, BitVec.getLsbD_or, BitVec.getLsbD_setWidth, mask.getLsbD,
      BitVec.getLsbD_extractLsb', Nat.zero_add]
    by_cases small : i < 12
    · simp [hi, small, show i < k by omega]
    · simp [small]

section Page

variable {x : PwInput} {va' : BitVec 64} {view : PwTable → ℕ → Option PwPage} {update : Bool}

/-- A walk for another address, through tables that are mapped as `view` says. -/
def PwInput.again (x : PwInput) (va' : BitVec 64) (view : PwTable → ℕ → Option PwPage)
    (update : Bool) : PwInput :=
  { x with virtAddr := va', mapPage := view, setAdBits := update }

variable (page : va' >>> 12 = x.virtAddr >>> 12) {e e' : PwEntry} (marked : e.MarkedAs e')
include page marked

theorem smallPage_alongside :
    (x.smallPage e).Alongside ((x.again va' view update).smallPage e') va' := by
  rw [marked.same (x.again va' view update).smallPage
    (by simp only [PwInput.smallPage, pwPhysAddr_setAccessed])]
  obtain ⟨same, inside⟩ := frame_or_alongside page (Nat.le_refl 12) (pwPhysAddr_and e x.isPae)
  rw [← pageOffset_eq, ← pageOffset_eq] at same
  rw [← pageOffset_eq] at inside
  exact ⟨rfl, fun _ => same, fun _ => inside⟩

theorem bigPage_alongside (is1gb : Bool) :
    (x.bigPage is1gb e).Alongside ((x.again va' view update).bigPage is1gb e') va' := by
  rw [marked.same ((x.again va' view update).bigPage is1gb)
    (by simp only [PwInput.bigPage, pwPhysAddr_setAccessed])]
  have big : 12 ≤ pwBigPageOrder x.isPae is1gb ∧ pwBigPageOrder x.isPae is1gb ≤ 32 := by
    unfold pwBigPageOrder
    split_ifs <;> decide
  have sum (va : BitVec 64) := @alignBackward_add (pwPhysAddr e x.isPae) va _ big.2
  have aligned : pwPhysAddr e x.isPae &&& ~~~ (1#64 <<< pwBigPageOrder x.isPae is1gb - 1) &&& 0xfff
      = 0 := by
    rw [BitVec.and_assoc, BitVec.and_comm _ 0xfff, ← BitVec.and_assoc, pwPhysAddr_and]
    exact BitVec.zero_and
  obtain ⟨same, inside⟩ := frame_or_alongside page big.1 aligned
  rw [← sum, ← sum] at same
  rw [← sum] at inside
  exact ⟨rfl, fun _ => same, fun _ => inside⟩

omit marked

theorem stages_alongside :
    List.Forall₂ (PwLevel.Alongside va') x.stages (x.again va' view update).stages := by
  have index : (x.again va' view update).indices = x.indices := pwIndices_of_page page _ _
  have pt : x.ptStage.Alongside va' (x.again va' view update).ptStage :=
    ⟨rfl, congrArg PwIndices.pte index, fun h => h.same _ (pwPteCleared_setAccessed _ _ _ _ _),
      fun _ => rfl, fun h _ => smallPage_alongside page h⟩
  have pd : x.pdStage.Alongside va' (x.again va' view update).pdStage :=
    ⟨rfl, congrArg PwIndices.pde index, fun h => h.same _ (pwPdeCleared_setAccessed _ _ _ _ _ _),
      fun h => h.same _ (pwIsBigPagePde_setAccessed _ _ _ _), fun h _ => bigPage_alongside page h _⟩
  have pdpt : x.pdptStage.Alongside va' (x.again va' view update).pdptStage :=
    ⟨rfl, congrArg PwIndices.pdpte index, fun h => h.same _ (pwPdpteCleared_setAccessed _ _ _ _),
      fun h => h.same _ (PwEntry.setAccessed_pageSize _), fun h _ => bigPage_alongside page h _⟩
  have pml4 : x.pml4Stage.Alongside va' (x.again va' view update).pml4Stage :=
    ⟨rfl, congrArg PwIndices.pml4te index, fun h => h.same _ (pwPml4teCleared_setAccessed _ _ _),
      fun _ => rfl, fun _ => nofun⟩
  unfold PwInput.stages
  change List.Forall₂ _ _ (if x.isPae then if x.isLme then _ else _ else _)
  split_ifs
  · exact .cons pml4 (.cons pdpt (.cons pd (.cons pt .nil)))
  · exact .cons pdpt (.cons pd (.cons pt .nil))
  · exact .cons pd (.cons pt .nil)

/-- A walk that found a page finds it again for every address of that page, if the entries that it
gets to are still there. -/
theorem PwInput.Plain.again (plain : x.Plain) {ram ram' : PwRam}
    (reads : PwRead.Extends (x.walked ram x.stages x.firstTable) (x.entry ram)
      (PwInput.entry { x with mapPage := view } ram'))
    (ok : (pwPerformPageWalk x ram).1.retval = tfOk) :
    (pwPerformPageWalk x ram).1.Alongside
      (pwPerformPageWalk (x.again va' view update) ram').1 va' := by
  rw [pwPerformPageWalk_eq] at ok ⊢
  rw [pwPerformPageWalk_eq]
  exact descend_alongside plain ⟨plain.access, plain.notFetch⟩ rfl reads (stages_alongside page)
    x.firstTable_tableAddress rfl rfl ok

end Page

/-- A walk that only translates finds its page again after any others, whatever they have marked. -/
theorem pwPerformPageWalk_undisturbed {x : PwInput} (plain : x.Plain) {ram ram' : PwRam}
    (walks : Reached ram (fun _ y => y.Plain ∧ y.entrySize = x.entrySize)
      (fun ram y => (pwPerformPageWalk y ram).2.ram) ram')
    (ok : (pwPerformPageWalk x ram).1.retval = tfOk) :
    (pwPerformPageWalk x ram).1.Alongside (pwPerformPageWalk x ram').1 x.virtAddr := by
  have marked : ram.MarkedAs x.entrySize ram' := by
    refine walks.invariant (.refl _ ram) fun ram' y marked other => marked.trans ?_
    rw [← other.2]
    exact other.1.performPageWalk ram'
  exact @PwInput.Plain.again x x.virtAddr x.mapPage x.setAdBits rfl plain ram ram'
    (PwInput.entry_extends (fun _ _ p mapped => ⟨p, mapped, rfl⟩) marked _) ok

/-- A walk that marks its entries is repeated. -/
theorem flatWalk_undisturbed : (pwPerformPageWalk flatWalk (oneTable 1)).1.Alongside
    (pwPerformPageWalk flatWalk
      (pwPerformPageWalk { flatWalk with setAdBits := true } (oneTable 1)).2.ram).1 0 :=
  pwPerformPageWalk_undisturbed ⟨rfl, rfl⟩ (.step .init ⟨⟨rfl, rfl⟩, rfl⟩) (by decide)

end Haxm
