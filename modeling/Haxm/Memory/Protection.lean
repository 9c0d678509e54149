/-
# The protection bitmap

`gpa_space_protect_range` sets or clears the bits of a range of guest pages in
the bitmap that says which pages the guest must not touch. The range comes from
user space and its end is computed in 64 bits. As long as that does not wrap
around, the update is exact and stays inside the bitmap; if it does, it is
neither.
-/

import Haxm.Lib.Bitmap
import Haxm.Memory.MapUpdate

namespace Haxm

open Lib

/-- `HAX_RAM_PERM_NONE`. -/
abbrev haxRamPermNone : ℕ := 0

/-- `HAX_RAM_PERM_RWX`. -/
abbrev haxRamPermRwx : ℕ := 7

/-- `HAX_RAM_PERM_MASK`. -/
abbrev haxRamPermMask : ℕ := 7

/-! ## Setting bits -/

/-- `set_bits_in_byte`. -/
def setBitsInByte (byte : BitVec 8) (start : ℕ) (nbits : ℤ) (set : Bool) :
    BitVec 8 × List Event :=
  if 0 ≤ nbits ∧ start + nbits ≤ 8 then (Bitmap.put byte start nbits.toNat set, [])
  else (byte, [.fault .assert])

/-- `set_bits_in_byte` on a byte of a bitmap. -/
def setBitsAt (bitmap : Bitmap) (index start : ℕ) (nbits : ℤ) (set : Bool) :
    Bitmap × List Event :=
  match setBitsInByte (bitmap index) start nbits set with
  | (byte, events) => (Function.update bitmap index byte, events ++ [.write index])

/-- The loop of `set_bit_block` over `count` whole bytes. -/
def setBytes (set : Bool) (bitmap : Bitmap) (i : ℕ) : ℕ → Bitmap × List Event
  | 0 => (bitmap, [])
  | count + 1 =>
    match setBytes set (Function.update bitmap i (if set then 0xff else 0)) (i + 1) count with
    | (bitmap, events) => (bitmap, .write i :: events)

/-- `set_bit_block`, once the number of the last bit is known. -/
def setBitsUpTo (bitmap : Bitmap) (start last nbits : ℕ) (set : Bool) : Bitmap × List Event :=
  if start / 8 = last / 8 then
    -- the conversion to `int` keeps the low 32 bits
    setBitsAt bitmap (start / 8) (start % 8) (BitVec.ofNat 32 nbits).toInt set
  else
    match setBitsAt bitmap (start / 8) (start % 8) (8 - (start % 8 : ℕ)) set with
    | (bitmap, events₁) =>
      match setBytes set bitmap (start / 8 + 1) (last / 8 - (start / 8 + 1)) with
      | (bitmap, events₂) =>
        match setBitsAt bitmap (last / 8) 0 ((last % 8 : ℕ) + 1) set with
        | (bitmap, events₃) => (bitmap, events₁ ++ events₂ ++ events₃)

/-- `set_bit_block`. -/
def setBitBlock (bitmap : Bitmap) (start nbits : ℕ) (set : Bool) : Bitmap × List Event :=
  setBitsUpTo bitmap start (sub64 (add64 start nbits) 1) nbits set

/-! ## The bitmap of a guest -/

variable {σ : Type*}

/-- `gpa_space_prot_bitmap_size`; 0 if the number of pages is too large. -/
def gpaSpaceProtBitmapSize (npages : ℕ) : ℕ :=
  if npages / 2 ^ 31 ≠ 0 then 0 else (npages + 7) / 8 + 8

/-- `gpa_space_adjust_prot_bitmap`. New memory is zeroed. -/
def gpaSpaceAdjustProtBitmap (sp : GpaSpace σ) (endGfn : ℕ) : ℤ × GpaSpace σ :=
  if endGfn ≤ sp.prot.endGfn then (0, sp)
  else if gpaSpaceProtBitmapSize endGfn = 0 then (-EINVAL, sp)
  else
    match sp.mem.vmalloc (gpaSpaceProtBitmapSize endGfn) with
    | (false, m) => (-ENOMEM, { sp with mem := m })
    | (true, m) =>
      let oldSize := gpaSpaceProtBitmapSize sp.prot.endGfn
      (0, { sp with
        mem := m
        prot := { bitmap := fun i => if i < oldSize then sp.prot.bitmap i else 0, endGfn := endGfn }
        })

/-- `gpa_space_is_page_protected`. -/
def gpaSpaceIsPageProtected (prot : GpaProt) (gfn : ℕ) : Bool :=
  if prot.endGfn ≤ gfn then false else Bitmap.test prot.bitmap gfn

/-- `HAX_CHUNK_NR_PAGES`. -/
abbrev haxChunkNrPages : ℕ := haxChunkSize / pageSize4K

/-- `gpa_space_is_chunk_protected`: the first protected page of the chunk. -/
def gpaSpaceIsChunkProtected (prot : GpaProt) (gfn : ℕ) : Option ℕ :=
  (List.range' (gfn / haxChunkNrPages * haxChunkNrPages) haxChunkNrPages).find?
    (gpaSpaceIsPageProtected prot)

/-- The loop of `gpa_space_protect_range` over the listeners. -/
def protectNotify (firstGfn npages : ℕ) (sp : GpaSpace σ) : GpaSpace σ :=
  sp.listenerList.foldl (fun sp listener =>
    sp.call (listener.mappingRemoved.map fun f env => f env firstGfn npages 0 0)) sp

/-- What `gpa_space_protect_range` does once the range has been accepted. -/
def gpaSpaceSetProt (sp : GpaSpace σ) (firstGfn npages perm : ℕ) : GpaSpace σ :=
  match setBitBlock sp.prot.bitmap firstGfn npages (perm = haxRamPermNone) with
  | (bitmap, events) =>
    let sp := { sp with prot := { sp.prot with bitmap := bitmap }, mem := sp.mem.log events }
    if perm = haxRamPermRwx then sp else protectNotify firstGfn npages sp

/-- `gpa_space_protect_range`. -/
def gpaSpaceProtectRange (sp : GpaSpace σ) (startGpa len flags : ℕ) : ℤ × GpaSpace σ :=
  let perm := flags &&& haxRamPermMask
  if len = 0 then (-EINVAL, sp)
  else if perm ≠ haxRamPermNone ∧ perm ≠ haxRamPermRwx then (-EINVAL, sp)
  else
    let firstGfn := startGpa / 2 ^ pgOrder4K
    let lastGfn := sub64 (add64 startGpa len) 1 / 2 ^ pgOrder4K
    if sp.prot.endGfn ≤ lastGfn then (-EINVAL, sp)
    else (0, gpaSpaceSetProt sp firstGfn (add64 (sub64 lastGfn firstGfn) 1) perm)

/-! ## Exactness of `set_bit_block` -/

variable {bitmap : Bitmap} {start nbits : ℕ} {set : Bool}

theorem setBitsAt_eq {index : ℕ} (hend : start + nbits ≤ 8) :
    setBitsAt bitmap index start nbits set =
      (Function.update bitmap index (Bitmap.put (bitmap index) start nbits set),
        [.write index]) := by
  have hint : 0 ≤ (nbits : ℤ) ∧ (start : ℤ) + nbits ≤ 8 := by omega
  rw [setBitsAt, setBitsInByte, if_pos hint]
  simp

theorem setBytes_overwritten (bitmap : Bitmap) (set : Bool) (i count : ℕ) :
    Bitmap.Overwritten bitmap (setBytes set bitmap i count).1 (8 * i) (8 * (i + count)) set := by
  induction count generalizing bitmap i with
  | zero => exact .refl
  | succ count ih =>
    have rest := ih (Function.update bitmap i (if set then 0xff else 0)) (i + 1)
    rw [show i + 1 + count = i + (count + 1) by omega] at rest
    exact Bitmap.Overwritten.trans (by omega) (by omega) Bitmap.overwritten_byte rest

theorem setBytes_events (bitmap : Bitmap) (set : Bool) (i count : ℕ) :
    ∀ e ∈ (setBytes set bitmap i count).2, ∃ j, e = .write j ∧ j < i + count := by
  induction count generalizing bitmap i with
  | zero => simp [setBytes]
  | succ count ih =>
    intro e he
    rcases List.mem_cons.1 he with rfl | he
    · exact ⟨i, rfl, by omega⟩
    · obtain ⟨j, rfl, hj⟩ := ih _ (i + 1) e he
      exact ⟨j, rfl, by omega⟩

/-- A small number survives the conversion to `int`. -/
theorem toInt_ofNat_of_lt {n : ℕ} (bound : n < 2 ^ 31) : (BitVec.ofNat 32 n).toInt = n :=
  int32_of_lt bound

theorem setBitsUpTo_overwritten {last : ℕ} (hlast : last + 1 = start + nbits) (pos : 0 < nbits) :
    Bitmap.Overwritten bitmap (setBitsUpTo bitmap start last nbits set).1 start (start + nbits)
        set ∧
      ∀ e ∈ (setBitsUpTo bitmap start last nbits set).2,
        ∃ j, e = .write j ∧ 8 * j < start + nbits := by
  unfold setBitsUpTo
  by_cases hbyte : start / 8 = last / 8
  · rw [if_pos hbyte, toInt_ofNat_of_lt (by omega), setBitsAt_eq (by omega)]
    refine ⟨Bitmap.overwritten_put (by omega), fun e he => ?_⟩
    obtain rfl := List.mem_singleton.1 he
    exact ⟨_, rfl, by omega⟩
  · -- the rest of the first byte, whole bytes, and the beginning of the last byte
    have hfirst : (8 : ℤ) - (start % 8 : ℕ) = (8 - start % 8 : ℕ) := by omega
    have hrest : ((last % 8 : ℕ) : ℤ) + 1 = (last % 8 + 1 : ℕ) := by omega
    rw [if_neg hbyte, hfirst, hrest, setBitsAt_eq (by omega)]
    dsimp only
    generalize hmiddle : Function.update bitmap (start / 8)
      (Bitmap.put (bitmap (start / 8)) (start % 8) (8 - start % 8) set) = middle
    have front : Bitmap.Overwritten bitmap middle start (8 * (start / 8 + 1)) set := by
      rw [← hmiddle, show 8 * (start / 8 + 1) = start + (8 - start % 8) by omega]
      exact Bitmap.overwritten_put (by omega)
    have whole := setBytes_overwritten middle set (start / 8 + 1) (last / 8 - (start / 8 + 1))
    have events := setBytes_events middle set (start / 8 + 1) (last / 8 - (start / 8 + 1))
    rw [show start / 8 + 1 + (last / 8 - (start / 8 + 1)) = last / 8 by omega] at whole events
    rcases hset : setBytes set middle (start / 8 + 1) (last / 8 - (start / 8 + 1)) with
      ⟨upper, events₂⟩
    rw [hset] at whole events
    dsimp only at whole events ⊢
    rw [setBitsAt_eq (by omega)]
    refine ⟨?_, fun e he => ?_⟩
    · have back : Bitmap.Overwritten upper _ (8 * (last / 8)) (8 * (last / 8) + (last % 8 + 1))
        set :=
        Bitmap.overwritten_put (by omega)
      rw [show 8 * (last / 8) / 8 = last / 8 by omega, show 8 * (last / 8) % 8 = 0 by omega,
        show 8 * (last / 8) + (last % 8 + 1) = start + nbits by omega] at back
      exact (front.trans (by omega) (by omega) whole).trans (by omega) (by omega) back
    · simp only [List.mem_append, List.mem_singleton] at he
      rcases he with (rfl | he) | rfl
      · exact ⟨_, rfl, by omega⟩
      · obtain ⟨j, rfl, hj⟩ := events e he
        exact ⟨j, rfl, by omega⟩
      · exact ⟨_, rfl, by omega⟩

theorem setBitBlock_overwritten {b : Bitmap} {s n : ℕ} {v : Bool} (pos : 0 < n)
    (bound : s + n < 2 ^ 31) :
    Bitmap.Overwritten b (setBitBlock b s n v).1 s (s + n) v ∧
      ∀ e ∈ (setBitBlock b s n v).2, ∃ j, e = .write j ∧ 8 * j < s + n := by
  have hword : s + n ≤ word := (bound.trans (by decide)).le
  rw [setBitBlock, sub64_add64_one (by omega) hword]
  exact setBitsUpTo_overwritten (by omega) pos

/-! ## Exactness of `gpa_space_protect_range` -/

variable {sp sp' : GpaSpace σ} {startGpa len flags : ℕ} {ret : ℤ}

/-- Some byte of the page lies in the range `[startGpa, startGpa + len)`. -/
def PageIntersects (startGpa len gfn : ℕ) : Prop :=
  startGpa < pageSize4K * (gfn + 1) ∧ pageSize4K * gfn < startGpa + len

instance (startGpa len gfn : ℕ) : Decidable (PageIntersects startGpa len gfn) :=
  inferInstanceAs (Decidable (_ ∧ _))

/-- The update wrote inside the bitmap only, and gave the new value to the bits
of the pages in the range and to no others. -/
structure ProtectExact (sp sp' : GpaSpace σ) (startGpa len flags : ℕ) : Prop where
  inBounds : ∃ events, sp'.mem.trace = sp.mem.trace ++ events ∧
    ∀ i, Event.write i ∈ events → i < (sp.prot.endGfn + 7) / 8
  endGfn : sp'.prot.endGfn = sp.prot.endGfn
  bits : ∀ gfn,
    if PageIntersects startGpa len gfn then
      gfn < sp.prot.endGfn ∧
        Bitmap.test sp'.prot.bitmap gfn = decide (flags &&& haxRamPermMask = haxRamPermNone)
    else Bitmap.test sp'.prot.bitmap gfn = Bitmap.test sp.prot.bitmap gfn

/-- Callbacks act on the data of the listeners and cause harmless events. -/
def Logged (sp sp' : GpaSpace σ) : Prop :=
  ∃ events, (∀ e ∈ events, e.Keeps) ∧ sp' = { sp with mem := sp.mem.log events, env := sp'.env }

theorem Logged.refl (sp : GpaSpace σ) : Logged sp sp := ⟨[], by simp, by rw [Mem.log_nil]⟩

theorem Logged.trans {sp₁ sp₂ sp₃ : GpaSpace σ} (first : Logged sp₁ sp₂)
    (second : Logged sp₂ sp₃) : Logged sp₁ sp₃ := by
  obtain ⟨events₁, keeps₁, h₁⟩ := first
  obtain ⟨events₂, keeps₂, h₂⟩ := second
  refine ⟨events₁ ++ events₂, fun e he => ?_, ?_⟩
  · rcases List.mem_append.1 he with he | he
    · exact keeps₁ e he
    · exact keeps₂ e he
  · rw [h₂, h₁]
    simp [Mem.log]

theorem call_logged {callback : Option (σ → σ × List Event)}
    (keeps : ∀ f, callback = some f → ∀ e ∈ (f sp.env).2, e.Keeps) :
    Logged sp (sp.call callback) := by
  cases callback with
  | none => exact .refl sp
  | some f => exact ⟨_, keeps f rfl, rfl⟩

theorem protectNotify_logged {s : GpaSpace σ} (firstGfn npages : ℕ)
    (keeps : ListenersKeep s.listenerList) : Logged s (protectNotify firstGfn npages s) := by
  have all (ls : List (Listener σ)) (hls : ∀ l ∈ ls, l.Keeps) :
      ∀ sp' : GpaSpace σ, Logged s sp' → Logged s (ls.foldl (fun sp listener =>
        sp.call (listener.mappingRemoved.map fun f env => f env firstGfn npages 0 0)) sp') := by
    induction ls with
    | nil => exact fun sp' logged => logged
    | cons l ls ih =>
      intro sp' logged
      refine ih (fun l hl => hls l (by simp [hl])) _ (logged.trans (call_logged ?_))
      intro c hc
      obtain ⟨f, hf, rfl⟩ := Option.map_eq_some_iff.1 hc
      exact (hls l (by simp)).removed f hf sp'.env firstGfn npages 0 0
  exact all _ keeps s (.refl s)

theorem gpaSpaceSetProt_eq (firstGfn npages perm : ℕ) (keeps : ListenersKeep sp.listenerList) :
    ∃ callbacks, (∀ e ∈ callbacks, e.Keeps) ∧
      gpaSpaceSetProt sp firstGfn npages perm = { sp with
        prot := { sp.prot with bitmap :=
          (setBitBlock sp.prot.bitmap firstGfn npages (perm = haxRamPermNone)).1 }
        mem := sp.mem.log
          ((setBitBlock sp.prot.bitmap firstGfn npages (perm = haxRamPermNone)).2 ++ callbacks)
        env := (gpaSpaceSetProt sp firstGfn npages perm).env } := by
  unfold gpaSpaceSetProt
  rcases setBitBlock sp.prot.bitmap firstGfn npages (perm = haxRamPermNone) with ⟨bitmap, events⟩
  dsimp only
  split_ifs
  · exact ⟨[], by simp, by simp⟩
  · obtain ⟨callbacks, hkeeps, hlogged⟩ := protectNotify_logged firstGfn npages (s := { sp with
      prot := { sp.prot with bitmap := bitmap }, mem := sp.mem.log events }) keeps
    refine ⟨callbacks, hkeeps, ?_⟩
    rw [hlogged]
    simp [Mem.log]

/-- The range of pages of a range that does not wrap. -/
theorem pageIntersects_iff {gfn : ℕ} (pos : 0 < len) :
    PageIntersects startGpa len gfn ↔
      startGpa / 2 ^ pgOrder4K ≤ gfn ∧ gfn < (startGpa + len - 1) / 2 ^ pgOrder4K + 1 := by
  simp only [PageIntersects, pageSize4K, pgOrder4K]
  omega

/-- The number of pages of a range that does not wrap. -/
theorem add64_sub64_one {first last : ℕ} (hle : first ≤ last) (bound : last < 2 ^ 31) :
    add64 (sub64 last first) 1 = last + 1 - first := by
  have hword : 2 ^ 31 < word := by decide
  rw [sub64_of_le hle (bound.trans hword), add64_of_lt (by omega)]
  omega

/-- What a call for a range that does not wrap does. -/
inductive ProtectStep (sp : GpaSpace σ) (startGpa len flags : ℕ) : ℤ → GpaSpace σ → Prop
  | refused {ret : ℤ} (failed : ret ≠ 0) : ProtectStep sp startGpa len flags ret sp
  | done {first last : ℕ} {bitmap : Bitmap} {events : List Event} (pos : 0 < len)
      (hfirst : first = startGpa / 2 ^ pgOrder4K)
      (hlast : last = (startGpa + len - 1) / 2 ^ pgOrder4K + 1) (nonempty : first < last)
      (inside : last ≤ sp.prot.endGfn)
      (perm : flags &&& haxRamPermMask = haxRamPermNone ∨ flags &&& haxRamPermMask = haxRamPermRwx)
      (bits : setBitBlock sp.prot.bitmap first (last - first)
        (flags &&& haxRamPermMask = haxRamPermNone) = (bitmap, events))
      (written : Bitmap.Overwritten sp.prot.bitmap bitmap first last
        (flags &&& haxRamPermMask = haxRamPermNone))
      (writes : ∀ e ∈ events, ∃ j, e = .write j ∧ 8 * j < last) :
      ProtectStep sp startGpa len flags 0
        (gpaSpaceSetProt sp first (last - first) (flags &&& haxRamPermMask))

theorem gpaSpaceProtectRange_step (bound : sp.prot.endGfn < 2 ^ 31) (fits : startGpa + len ≤ word)
    (h : gpaSpaceProtectRange sp startGpa len flags = (ret, sp')) :
    ProtectStep sp startGpa len flags ret sp' := by
  unfold gpaSpaceProtectRange at h
  dsimp only at h
  split_ifs at h with hlen hperm hend
  · cases h
    exact .refused (by decide)
  · cases h
    exact .refused (by decide)
  · cases h
    exact .refused (by decide)
  · cases h
    rw [sub64_add64_one (by omega) fits] at hend ⊢
    have hle : startGpa / 2 ^ pgOrder4K ≤ (startGpa + len - 1) / 2 ^ pgOrder4K :=
      Nat.div_le_div_right (by omega)
    rw [add64_sub64_one hle ((not_le.1 hend).trans bound)]
    generalize hfirst : startGpa / 2 ^ pgOrder4K = first at *
    generalize hlast : (startGpa + len - 1) / 2 ^ pgOrder4K = last at *
    obtain ⟨written, writes⟩ := setBitBlock_overwritten (b := sp.prot.bitmap)
      (v := flags &&& haxRamPermMask = haxRamPermNone) (s := first) (n := last + 1 - first)
        (by omega)
      (by omega)
    rw [show first + (last + 1 - first) = last + 1 by omega] at written writes
    exact .done (Nat.pos_of_ne_zero hlen) hfirst.symm (by rw [hlast]) (by omega) (not_le.1 hend)
      (by tauto) rfl written writes

/-- An update of a range that does not wrap is exact. -/
theorem gpaSpaceProtectRange_exact (keeps : ListenersKeep sp.listenerList)
    (bound : sp.prot.endGfn < 2 ^ 31) (fits : startGpa + len ≤ word)
    (h : gpaSpaceProtectRange sp startGpa len flags = (0, sp')) :
    ProtectExact sp sp' startGpa len flags := by
  cases gpaSpaceProtectRange_step bound fits h with
  | refused failed => exact absurd rfl failed
  | @done first last _ _ pos hfirst hlast _ inside _ bits written writes =>
    have hpages (gfn : ℕ) := @pageIntersects_iff startGpa len gfn pos
    rw [← hfirst, ← hlast] at hpages
    obtain ⟨callbacks, hkeeps, hset⟩ := gpaSpaceSetProt_eq first (last - first)
      (flags &&& haxRamPermMask) keeps
    rw [bits] at hset
    rw [hset]
    refine ⟨⟨_, rfl, fun i hi => ?_⟩, rfl, fun gfn => ?_⟩
    · rcases List.mem_append.1 hi with hi | hi
      · obtain ⟨j, hj, hlt⟩ := writes _ hi
        obtain rfl := Event.write.inj hj
        omega
      · exact absurd (hkeeps _ hi) id
    · have hbit := written gfn
      dsimp only
      by_cases hin : first ≤ gfn ∧ gfn < last
      · rw [if_pos hin] at hbit
        rw [if_pos ((hpages gfn).2 hin), hbit]
        exact ⟨by omega, rfl⟩
      · rw [if_neg hin] at hbit
        rw [if_neg (mt (hpages gfn).1 hin), hbit]

/-- The update is exact if and only if the range does not wrap around. -/
theorem gpaSpaceProtectRange_exact_iff (keeps : ListenersKeep sp.listenerList)
    (bound : sp.prot.endGfn < 2 ^ 31) (start_lt : startGpa < word)
    (h : gpaSpaceProtectRange sp startGpa len flags = (0, sp')) :
    ProtectExact sp sp' startGpa len flags ↔ startGpa + len ≤ word := by
  refine ⟨fun exact => ?_, fun fits => gpaSpaceProtectRange_exact keeps bound fits h⟩
  by_contra wraps
  -- the last page of the address space is in the range, but has no bit
  have hpage : PageIntersects startGpa len (2 ^ 52 - 1) := by
    simp only [PageIntersects, pageSize4K, word] at *
    omega
  have hbits := exact.bits (2 ^ 52 - 1)
  rw [if_pos hpage] at hbits
  omega

/-- A space with a bitmap for 16 pages. -/
def sixteenPages : GpaSpace Unit :=
  (gpaSpaceAdjustProtBitmap (GpaSpace.init none [] ()) 16).2

/-- Protecting two pages in the middle is exact. -/
theorem sixteenPages_protect_exact :
    (gpaSpaceProtectRange sixteenPages 0x1000 0x2000 haxRamPermNone).1 = 0 ∧
      ProtectExact sixteenPages (gpaSpaceProtectRange sixteenPages 0x1000 0x2000 haxRamPermNone).2
        0x1000 0x2000 haxRamPermNone := by
  have accepted : (gpaSpaceProtectRange sixteenPages 0x1000 0x2000 haxRamPermNone).1 = 0 := by
    decide
  have h : gpaSpaceProtectRange sixteenPages 0x1000 0x2000 haxRamPermNone = (0, _) :=
    Prod.ext accepted rfl
  have keeps : ListenersKeep sixteenPages.listenerList := fun l hl => by cases hl
  exact ⟨accepted, (gpaSpaceProtectRange_exact_iff keeps (by decide) (by decide) h).2 (by decide)⟩

/-- A range that wraps around is accepted, and its first byte is written far
behind the end of the bitmap. -/
theorem sixteenPages_protect_wraps :
    (gpaSpaceProtectRange sixteenPages (2 ^ 64 - 0x1000) 0x2000 haxRamPermNone).1 = 0 ∧
      (gpaSpaceProtectRange sixteenPages (2 ^ 64 - 0x1000) 0x2000 haxRamPermNone).2.mem.trace =
        [.write (2 ^ 49 - 1), .write 0] ∧
      ¬ ProtectExact sixteenPages
        (gpaSpaceProtectRange sixteenPages (2 ^ 64 - 0x1000) 0x2000 haxRamPermNone).2
        (2 ^ 64 - 0x1000) 0x2000 haxRamPermNone := by
  have htrace : (gpaSpaceProtectRange sixteenPages (2 ^ 64 - 0x1000) 0x2000
      haxRamPermNone).2.mem.trace = [.write (2 ^ 49 - 1), .write 0] := by
    decide
  refine ⟨by decide, htrace, fun exact => ?_⟩
  obtain ⟨events, hevents, bound⟩ := exact.inBounds
  have hold : sixteenPages.mem.trace = [] := by decide
  rw [htrace, hold, List.nil_append] at hevents
  have := bound (2 ^ 49 - 1) (by simp [← hevents])
  revert this
  decide

end Haxm
