/-
# The guest page walker

`pw_perform_page_walk` reads the guest's own paging structures to translate a
guest-virtual address. It maps each table page into the kernel, reads one entry
of it, checks that entry and goes one level down. Three page sizes end the walk;
each of them checks the permissions of all entries passed and, when asked to,
marks these entries accessed and dirty.

The host page behind a table page is a number and its contents are bytes. Where
a table is mapped is the host's choice, one for each of the four tables, so that
a page which appears at two levels may have one address or two.
-/

import Haxm.Memory.Host

namespace Haxm

/-- `PW_PAGE_ENTRY`. The 32-bit format is the low half of the 64-bit one. -/
structure PwEntry where
  val : BitVec 64
  deriving DecidableEq, Repr

namespace PwEntry

def present (e : PwEntry) : Bool := e.val.getLsbD 0
def writable (e : PwEntry) : Bool := e.val.getLsbD 1
def user (e : PwEntry) : Bool := e.val.getLsbD 2
def pageSize (e : PwEntry) : Bool := e.val.getLsbD 7
def addrBaseLow (e : PwEntry) : BitVec 20 := e.val.extractLsb' 12 20
def addrBaseHigh (e : PwEntry) : BitVec 20 := e.val.extractLsb' 32 20
def avlOrRes (e : PwEntry) : BitVec 11 := e.val.extractLsb' 52 11
def exbOrRes (e : PwEntry) : Bool := e.val.getLsbD 63

/-- `non_pae_entry.val`. -/
def nonPaeVal (e : PwEntry) : BitVec 32 := e.val.setWidth 32

/-- The entry with `accessed` set. -/
def setAccessed (e : PwEntry) : PwEntry := ⟨e.val ||| 0x20⟩

/-- The entry with `dirty` set. -/
def setDirty (e : PwEntry) : PwEntry := ⟨e.val ||| 0x40⟩

@[simp] theorem setAccessed_present (e : PwEntry) : e.setAccessed.present = e.present := by
  simp [setAccessed, present]

@[simp] theorem setDirty_present (e : PwEntry) : e.setDirty.present = e.present := by
  simp [setDirty, present]

@[simp] theorem setAccessed_pageSize (e : PwEntry) : e.setAccessed.pageSize = e.pageSize := by
  simp [setAccessed, pageSize]

end PwEntry

/-! ### The memory the walker works on -/

/-- The four tables, each mapped through a `hax_kmap_user` of its own. -/
inductive PwTable
  | pml4t
  | pdpt
  | pd
  | pt
  deriving DecidableEq, Repr

/-- A mapped page: its kernel address and the host page behind it. -/
structure PwPage where
  kva : ℕ
  page : ℕ
  deriving DecidableEq, Repr

/-- A pointer into a mapped page. -/
structure PwPtr where
  base : PwPage
  offset : ℕ
  deriving DecidableEq, Repr

/-- The address a pointer holds; pointers are compared by it. -/
def PwPtr.addr (p : PwPtr) : ℕ := p.base.kva + p.offset

/-- The bytes of each host page. -/
abbrev PwRam := ℕ → ℕ → BitVec 8

/-- The number held by `n` bytes from an offset on, lowest byte first. -/
def PwRam.load (ram : PwRam) (page : ℕ) : ℕ → ℕ → ℕ
  | _, 0 => 0
  | offset, n + 1 => (ram page offset).toNat + 256 * PwRam.load ram page (offset + 1) n

/-- Eight bytes replaced. -/
def PwRam.store (ram : PwRam) (page offset : ℕ) (v : BitVec 64) : PwRam := fun p o =>
  if p = page ∧ offset ≤ o ∧ o < offset + 8 then (v >>> (8 * (o - offset))).setWidth 8 else ram p o

/-- What the walker does to the host, as far as it is seen from outside. -/
inductive PwEvent
  /-- `size` bytes were read. -/
  | load (ptr : PwPtr) (size : ℕ)
  /-- `hax_cmpxchg64`. -/
  | cmpxchg (ptr : PwPtr)
  | unmap (table : PwTable)
  | fault (fault : Fault)
  deriving DecidableEq, Repr

/-- A walk in progress: the memory, the tables mapped so far in their order, and
what was done. -/
structure PwState where
  ram : PwRam
  mapped : List PwTable := []
  trace : List PwEvent := []

namespace PwState

def log (s : PwState) (e : PwEvent) : PwState := { s with trace := s.trace ++ [e] }

/-- `hax_assert`. -/
def assert (s : PwState) (condition : Bool) : PwState :=
  if condition then s else s.log (.fault .assert)

@[simp] theorem assert_true (s : PwState) : s.assert true = s := rfl

@[simp] theorem assert_ram (s : PwState) (c : Bool) : (s.assert c).ram = s.ram := by
  cases c <;> rfl

end PwState

/-- `hax_cmpxchg64`, whose result the walker ignores. -/
def pwCmpxchg64 (s : PwState) (oldVal newVal : BitVec 64) (p : PwPtr) : PwState :=
  let s := s.log (.cmpxchg p)
  if BitVec.ofNat 64 (s.ram.load p.base.page p.offset 8) = oldVal then
    { s with ram := s.ram.store p.base.page p.offset newVal }
  else
    s

/-! ### Entries, indices and addresses -/

abbrev tfOk : BitVec 32 := 0
abbrev tfFailed : BitVec 32 := 0x80000000
abbrev tfProtect : BitVec 32 := 1
abbrev tfWrite : BitVec 32 := 2
abbrev tfUser : BitVec 32 := 4
abbrev tfRsvd : BitVec 32 := 8

abbrev pwInvalidGpa : BitVec 64 := BitVec.allOnes 64
abbrev pwInvalidIndex : BitVec 32 := BitVec.allOnes 32

abbrev pgOrder2M : ℕ := 21
abbrev pgOrder4M : ℕ := 22
abbrev pgOrder1G : ℕ := 30

/-- `ALIGN_BACKWARD(address, 1 << order)`. -/
def alignBackward (address : BitVec 64) (order : ℕ) : BitVec 64 :=
  address &&& ~~~ (1#64 <<< order - 1)

/-- `pw_retrieve_table_from_cr3`. -/
def pwRetrieveTableFromCr3 (cr3 : BitVec 64) (isPae isLme : Bool) : BitVec 64 :=
  if !isPae || isLme then alignBackward cr3 pgOrder4K else alignBackward cr3 5

/-- The four indices `pw_retrieve_indices` hands back. -/
structure PwIndices where
  pml4te : BitVec 32
  pdpte : BitVec 32
  pde : BitVec 32
  pte : BitVec 32
  deriving DecidableEq, Repr

/-- `pw_retrieve_indices` without its assertions. -/
def pwIndices (virtualAddress : BitVec 64) (isPae isLme : Bool) : PwIndices :=
  let low : BitVec 32 := virtualAddress.setWidth 32
  if isPae then
    { pml4te :=
        if isLme then ((virtualAddress &&& 0x0000ff8000000000) >>> 39).setWidth 32
        else pwInvalidIndex
      pdpte :=
        if isLme then ((virtualAddress &&& 0x0000007fc0000000) >>> 30).setWidth 32
        else (low &&& 0xc0000000) >>> 30
      pde := (low &&& 0x3fe00000) >>> 21
      pte := (low &&& 0x1ff000) >>> 12 }
  else
    { pml4te := pwInvalidIndex
      pdpte := pwInvalidIndex
      pde := (low &&& 0xffc00000) >>> 22
      pte := (low &&& 0x3ff000) >>> 12 }

/-- `pw_retrieve_indices`. -/
def pwRetrieveIndices (s : PwState) (virtualAddress : BitVec 64) (isPae isLme : Bool) :
    PwIndices × PwState :=
  let i := pwIndices virtualAddress isPae isLme
  if isPae then
    let s := if isLme then s else s.assert (i.pdpte < 4)
    (i, (s.assert (i.pde < 512)).assert (i.pte < 512))
  else
    (i, s)

/-- `pw_retrieve_table_entry`. -/
def pwRetrieveTableEntry (table : PwPtr) (entryIndex : BitVec 32) (isPae : Bool) : PwPtr :=
  { table with offset := table.offset + (entryIndex * if isPae then 8 else 4).toNat }

/-- The entry a pointer points to. -/
def pwEntryValue (ram : PwRam) (p : PwPtr) (isPae : Bool) : PwEntry :=
  if isPae then ⟨BitVec.ofNat 64 (ram.load p.base.page p.offset 8)⟩
  else ⟨(BitVec.ofNat 32 (ram.load p.base.page p.offset 4)).setWidth 64⟩

/-- `pw_read_entry_value`. A 64-bit entry is read until two reads agree, which
they do at once while nobody else writes. -/
def pwReadEntryValue (s : PwState) (fillFrom : PwPtr) (isPae : Bool) : PwEntry × PwState :=
  (pwEntryValue s.ram fillFrom isPae,
    if isPae then (s.log (.load fillFrom 8)).log (.load fillFrom 8) else s.log (.load fillFrom 4))

/-- `pw_is_big_page_pde`. -/
def pwIsBigPagePde (entry : PwEntry) (isLme isPae isPse : Bool) : Bool :=
  if !entry.pageSize then false
  else if isLme || isPae then true
  else isPse

/-- `pw_is_1gb_page_pdpte`. -/
def pwIs1gbPagePdpte (entry : PwEntry) : Bool := entry.pageSize

/-- The test of the high address bits that all 64-bit entries share. The 20-bit
field is compared with a 32-bit mask. -/
def pwHighReserved (reservedBitsHighMask : BitVec 32) (entry : PwEntry) : Bool :=
  entry.addrBaseHigh.setWidth 32 &&& reservedBitsHighMask != 0

/-- `pw_are_reserved_bits_in_pml4te_cleared`. -/
def pwAreReservedBitsInPml4teCleared (mask : BitVec 32) (entry : PwEntry) (isNxe : Bool) : Bool :=
  if pwHighReserved mask entry then false
  else if !isNxe && entry.exbOrRes then false
  else true

/-- `pw_are_reserved_bits_in_pdpte_cleared`. -/
def pwAreReservedBitsInPdpteCleared (mask : BitVec 32) (entry : PwEntry) (isNxe isLme : Bool) :
    Bool :=
  if pwHighReserved mask entry then false
  else if !isLme then
    if entry.avlOrRes != 0 || entry.exbOrRes || entry.writable || entry.user then false else true
  else if !isNxe && entry.exbOrRes then false
  else if pwIs1gbPagePdpte entry && entry.val &&& 0x3fffe000 != 0 then false
  else true

/-- `pw_are_reserved_bits_in_pde_cleared`. -/
def pwAreReservedBitsInPdeCleared (mask : BitVec 32) (entry : PwEntry)
    (isNxe isLme isPae isPse : Bool) : Bool :=
  if isPae then
    if pwHighReserved mask entry then false
    else if !isNxe && entry.exbOrRes then false
    else if !isLme && entry.avlOrRes != 0 then false
    else if pwIsBigPagePde entry isLme isPae isPse && entry.val &&& 0x1fe000 != 0 then false
    else true
  else if pwIsBigPagePde entry isLme isPae isPse && entry.nonPaeVal &&& 0x3fe000 != 0 then false
  else true

/-- `pw_are_reserved_bits_in_pte_cleared`. -/
def pwAreReservedBitsInPteCleared (mask : BitVec 32) (pte : PwEntry) (isNxe isLme isPae : Bool) :
    Bool :=
  if !isPae then true
  else if pwHighReserved mask pte then false
  else if !isLme && pte.avlOrRes != 0 then false
  else if !isNxe && pte.exbOrRes then false
  else true

/-! ### Permissions -/

/-- What `pw_is_write_access_permitted`, `pw_is_user_access_permitted` and
`pw_is_fetch_access_permitted` have in common: every entry passed allows the
access. The first two entries are locals of the walk, so that the assertions
that they are not NULL cannot fail; the other two are NULL below a large page. -/
def pwEveryEntryAllows (s : PwState) (allows : PwEntry → Bool) (pml4te pdpte : PwEntry)
    (pde pte : Option PwEntry) (isLme isPae isPse : Bool) : Bool × PwState :=
  let s := if isLme then (s.assert pml4te.present).assert pdpte.present else s
  if isLme && !(allows pml4te && allows pdpte) then (false, s)
  else if pwIs1gbPagePdpte pdpte then (true, s)
  else
    let s := s.assert pde.isSome
    let pde := pde.getD ⟨0⟩
    let s := s.assert pde.present
    if !allows pde then (false, s)
    else if pwIsBigPagePde pde isLme isPae isPse then (true, s)
    else
      let s := s.assert pte.isSome
      let pte := pte.getD ⟨0⟩
      (allows pte, s.assert pte.present)

/-- `pw_is_write_access_permitted`. -/
def pwIsWriteAccessPermitted (s : PwState) (pml4te pdpte : PwEntry) (pde pte : Option PwEntry)
    (isUser isWp isLme isPae isPse : Bool) : Bool × PwState :=
  if !isUser && !isWp then (true, s)
  else pwEveryEntryAllows s PwEntry.writable pml4te pdpte pde pte isLme isPae isPse

/-- `pw_is_user_access_permitted`. -/
def pwIsUserAccessPermitted (s : PwState) (pml4te pdpte : PwEntry) (pde pte : Option PwEntry)
    (isLme isPae isPse : Bool) : Bool × PwState :=
  pwEveryEntryAllows s PwEntry.user pml4te pdpte pde pte isLme isPae isPse

/-- `pw_is_fetch_access_permitted`. -/
def pwIsFetchAccessPermitted (s : PwState) (pml4te pdpte : PwEntry) (pde pte : Option PwEntry)
    (isLme isPae isPse : Bool) : Bool × PwState :=
  pwEveryEntryAllows s (fun e => !e.exbOrRes) pml4te pdpte pde pte isLme isPae isPse

/-! ### Addresses -/

/-- The address in an entry. -/
def pwPhysAddr (entry : PwEntry) (isPae : Bool) : BitVec 64 :=
  if isPae then
    let addrLow : BitVec 32 := entry.addrBaseLow.setWidth 32 <<< 12
    entry.addrBaseHigh.setWidth 64 <<< 32 ||| addrLow.setWidth 64
  else
    entry.addrBaseLow.setWidth 64 <<< 12

/-- `pw_retrieve_phys_addr`. -/
def pwRetrievePhysAddr (s : PwState) (entry : PwEntry) (isPae : Bool) : BitVec 64 × PwState :=
  (pwPhysAddr entry isPae, s.assert entry.present)

/-- The order of a large page. -/
def pwBigPageOrder (isPae is1gb : Bool) : ℕ :=
  if isPae then if is1gb then pgOrder1G else pgOrder2M else pgOrder4M

/-- `pw_retrieve_big_page_phys_addr`. -/
def pwRetrieveBigPagePhysAddr (s : PwState) (entry : PwEntry) (isPae is1gb : Bool) :
    BitVec 64 × PwState :=
  let (base, s) := pwRetrievePhysAddr s entry isPae
  (alignBackward base (pwBigPageOrder isPae is1gb), s)

/-- `pw_get_big_page_offset`. -/
def pwGetBigPageOffset (virtualAddress : BitVec 64) (isPae is1gb : Bool) : BitVec 32 :=
  (virtualAddress &&& (1#64 <<< pwBigPageOrder isPae is1gb - 1)).setWidth 32

/-! ### Accessed and dirty bits -/

/-- `pw_update_ad_bits_in_entry`. Both values are taken from the 32-bit format,
while 64 bits of memory are compared and exchanged. -/
def pwUpdateAdBitsInEntry (s : PwState) (nativeEntry : Option PwPtr)
    (oldNativeValue newNativeValue : PwEntry) : PwState :=
  let s := s.assert nativeEntry.isSome
  let s := (s.assert oldNativeValue.present).assert newNativeValue.present
  match nativeEntry with
  | some p =>
    if oldNativeValue.nonPaeVal != newNativeValue.nonPaeVal then
      pwCmpxchg64 s (oldNativeValue.nonPaeVal.setWidth 64) (newNativeValue.nonPaeVal.setWidth 64) p
    else s
  | none => s

/-- An entry of the walk: where it was read from, NULL where the mode has no
such level, and its value. -/
structure PwSlot where
  ptr : Option PwPtr := none
  val : PwEntry := ⟨0⟩
  deriving DecidableEq, Repr

/-- Two pointers hold the same address. -/
def PwSlot.same (a b : PwSlot) : Bool := a.ptr.map PwPtr.addr == b.ptr.map PwPtr.addr

/-- The value an entry is taken to have in memory before its own update: an entry
that is the same as an earlier one was marked accessed there. -/
def PwSlot.beforeUpdate (a : PwSlot) (earlier : List PwSlot) : PwEntry :=
  if earlier.any (·.same a) then a.val.setAccessed else a.val

/-- `pw_update_ad_bits`. -/
def pwUpdateAdBits (s : PwState) (pml4te pdpte : PwSlot) (pde pte : Option PwSlot)
    (isWriteAccess isLme isPae isPse : Bool) : PwState :=
  let s :=
    if isLme then
      let s := (s.assert pml4te.ptr.isSome).assert pdpte.ptr.isSome
      let s := pwUpdateAdBitsInEntry s pml4te.ptr pml4te.val pml4te.val.setAccessed
      pwUpdateAdBitsInEntry s pdpte.ptr (pdpte.beforeUpdate [pml4te]) pdpte.val.setAccessed
    else s
  if pwIs1gbPagePdpte pdpte.val then s
  else
    let s := s.assert pde.isSome
    let pde := pde.getD {}
    let pdeAfter := pde.val.setAccessed
    let pdeBefore := pde.beforeUpdate [pml4te, pdpte]
    if pwIsBigPagePde pdeAfter isLme isPae isPse then
      pwUpdateAdBitsInEntry s pde.ptr pdeBefore
        (if isWriteAccess then pdeAfter.setDirty else pdeAfter)
    else
      let s := pwUpdateAdBitsInEntry s pde.ptr pdeBefore pdeAfter
      let s := s.assert pte.isSome
      let pte := pte.getD {}
      let pteAfter := pte.val.setAccessed
      pwUpdateAdBitsInEntry s pte.ptr (pte.beforeUpdate [pml4te, pdpte, pde])
        (if isWriteAccess then pteAfter.setDirty else pteAfter)

/-! ### The walk -/

/-- What the walk reads: its arguments, the registers of the vCPU, the mask
`pw_reserved_bits_high_mask` and which table pages `gpa_space_map_page` can map. -/
structure PwInput where
  virtAddr : BitVec 64
  access : BitVec 32
  setAdBits : Bool
  isFetch : Bool
  cr0 : BitVec 64
  cr3 : BitVec 64
  cr4 : BitVec 64
  efer : BitVec 64
  reservedBitsHighMask : BitVec 32
  mapPage : PwTable → ℕ → Option PwPage

namespace PwInput

def isNxe (x : PwInput) : Bool := x.efer.getLsbD 11
def isLme (x : PwInput) : Bool := x.efer.getLsbD 8
def isWp (x : PwInput) : Bool := x.cr0.getLsbD 16
def isPae (x : PwInput) : Bool := x.cr4.getLsbD 5
def isPse (x : PwInput) : Bool := x.cr4.getLsbD 4
def isWrite (x : PwInput) : Bool := x.access &&& tfWrite != 0
def isUser (x : PwInput) : Bool := x.access &&& tfUser != 0

def indices (x : PwInput) : PwIndices := pwIndices x.virtAddr x.isPae x.isLme
def firstTable (x : PwInput) : BitVec 64 := pwRetrieveTableFromCr3 x.cr3 x.isPae x.isLme

end PwInput

/-- What the walk returns. `order` is written only where the walk gets to a page. -/
structure PwResult where
  retval : BitVec 32 := tfOk
  gpa : BitVec 64 := pwInvalidGpa
  order : Option ℕ := none
  deriving DecidableEq, Repr

/-- `gpa_space_map_page` for a table. Only a 32-bit PAE page-directory-pointer
table has an offset in its page. -/
def pwMapTable (x : PwInput) (s : PwState) (table : PwTable) (gpa : BitVec 64) :
    Option PwPtr × PwState :=
  match x.mapPage table (gpa >>> 12).toNat with
  | some p => (some ⟨p, (gpa &&& 0xfff).toNat⟩, { s with mapped := s.mapped ++ [table] })
  | none => (none, s)

/-- The end of the walk for each of the three page sizes: the permission checks
and the accessed and dirty bits. -/
def pwFinish (x : PwInput) (s : PwState) (r : PwResult) (pml4te pdpte : PwSlot)
    (pde pte : Option PwSlot) : PwResult × PwState :=
  let denied := { r with retval := tfFailed ||| tfProtect ||| x.access }
  let pdeVal := pde.map PwSlot.val
  let pteVal := pte.map PwSlot.val
  let (writeOk, s) :=
    if x.isWrite then
      pwIsWriteAccessPermitted s pml4te.val pdpte.val pdeVal pteVal x.isUser x.isWp x.isLme x.isPae
        x.isPse
    else (true, s)
  if !writeOk then (denied, s)
  else
    let (userOk, s) :=
      if x.isUser then
        pwIsUserAccessPermitted s pml4te.val pdpte.val pdeVal pteVal x.isLme x.isPae x.isPse
      else (true, s)
    if !userOk then (denied, s)
    else
      let (fetchOk, s) :=
        if x.isPae && x.isNxe && x.isFetch then
          pwIsFetchAccessPermitted s pml4te.val pdpte.val pdeVal pteVal x.isLme x.isPae x.isPse
        else (true, s)
      if !fetchOk then (denied, s)
      else
        (r, if x.setAdBits then
              pwUpdateAdBits s pml4te pdpte pde pte x.isWrite x.isLme x.isPae x.isPse
            else s)

/-- The walk from the page table on. -/
def pwWalkPt (x : PwInput) (s : PwState) (pml4te pdpte pde : PwSlot) : PwResult × PwState :=
  let r : PwResult := { order := some pgOrder4K }
  let (ptGpa, s) := pwRetrievePhysAddr s pde.val x.isPae
  match pwMapTable x s .pt ptGpa with
  | (none, s) => ({ r with retval := tfFailed }, s)
  | (some pt, s) =>
    let ptePtr := pwRetrieveTableEntry pt x.indices.pte x.isPae
    let (pteVal, s) := pwReadEntryValue s ptePtr x.isPae
    let (gpa, s) := pwRetrievePhysAddr s pteVal x.isPae
    let r := { r with gpa := gpa ||| (x.virtAddr &&& 0xfff) }
    if !pteVal.present then
      ({ r with retval := tfFailed ||| x.access }, s)
    else if
      !pwAreReservedBitsInPteCleared x.reservedBitsHighMask pteVal x.isNxe x.isLme x.isPae then
      ({ r with retval := tfFailed ||| tfProtect ||| tfRsvd ||| x.access }, s)
    else
      pwFinish x s r pml4te pdpte (some pde) (some ⟨some ptePtr, pteVal⟩)

/-- The walk from the page directory on. -/
def pwWalkPd (x : PwInput) (s : PwState) (pml4te pdpte : PwSlot) (pdGpa : BitVec 64) :
    PwResult × PwState :=
  match pwMapTable x s .pd pdGpa with
  | (none, s) => ({ retval := tfFailed }, s)
  | (some pd, s) =>
    let pdePtr := pwRetrieveTableEntry pd x.indices.pde x.isPae
    let (pdeVal, s) := pwReadEntryValue s pdePtr x.isPae
    let pde : PwSlot := ⟨some pdePtr, pdeVal⟩
    if !pdeVal.present then
      ({ retval := tfFailed ||| x.access }, s)
    else if !pwAreReservedBitsInPdeCleared x.reservedBitsHighMask pdeVal x.isNxe x.isLme x.isPae
        x.isPse then
      ({ retval := tfFailed ||| tfProtect ||| tfRsvd ||| x.access }, s)
    else if pwIsBigPagePde pdeVal x.isLme x.isPae x.isPse then
      let (bigPageAddr, s) := pwRetrieveBigPagePhysAddr s pdeVal x.isPae false
      let offsetInBigPage := pwGetBigPageOffset x.virtAddr x.isPae false
      let r : PwResult :=
        { gpa := bigPageAddr + offsetInBigPage.setWidth 64
          order := some (if x.isPae then pgOrder2M else pgOrder4M) }
      pwFinish x s r pml4te pdpte (some pde) none
    else
      pwWalkPt x s pml4te pdpte pde

/-- The walk once the PDPTE is known, which is zero outside PAE. -/
def pwWalkPdpte (x : PwInput) (s : PwState) (pml4te pdpte : PwSlot) : PwResult × PwState :=
  if pwIs1gbPagePdpte pdpte.val then
    let (bigPageAddr, s) := pwRetrieveBigPagePhysAddr s pdpte.val x.isPae true
    let offsetInBigPage := pwGetBigPageOffset x.virtAddr x.isPae true
    let r : PwResult :=
      { gpa := bigPageAddr + offsetInBigPage.setWidth 64, order := some pgOrder1G }
    pwFinish x s r pml4te pdpte none none
  else
    let (pdGpa, s) :=
      if x.isPae then pwRetrievePhysAddr s pdpte.val x.isPae else (x.firstTable, s)
    pwWalkPd x s pml4te pdpte pdGpa

/-- The walk from the page-directory-pointer table on. -/
def pwWalkPdpt (x : PwInput) (s : PwState) (pml4te : PwSlot) (pdptGpa : BitVec 64) :
    PwResult × PwState :=
  match pwMapTable x s .pdpt pdptGpa with
  | (none, s) => ({ retval := tfFailed }, s)
  | (some pdpt, s) =>
    let pdptePtr := pwRetrieveTableEntry pdpt x.indices.pdpte x.isPae
    let (pdpteVal, s) := pwReadEntryValue s pdptePtr x.isPae
    if !pdpteVal.present then
      ({ retval := tfFailed ||| x.access }, s)
    else if !pwAreReservedBitsInPdpteCleared x.reservedBitsHighMask pdpteVal x.isNxe x.isLme then
      ({ retval := tfFailed ||| tfProtect ||| tfRsvd ||| x.access }, s)
    else
      pwWalkPdpte x s pml4te ⟨some pdptePtr, pdpteVal⟩

/-- The walk from the PML4 table on. -/
def pwWalkPml4 (x : PwInput) (s : PwState) : PwResult × PwState :=
  match pwMapTable x s .pml4t x.firstTable with
  | (none, s) => ({ retval := tfFailed }, s)
  | (some pml4t, s) =>
    let pml4tePtr := pwRetrieveTableEntry pml4t x.indices.pml4te x.isPae
    let (pml4teVal, s) := pwReadEntryValue s pml4tePtr x.isPae
    if !pml4teVal.present then
      ({ retval := tfFailed ||| x.access }, s)
    else if !pwAreReservedBitsInPml4teCleared x.reservedBitsHighMask pml4teVal x.isNxe then
      ({ retval := tfFailed ||| tfProtect ||| tfRsvd ||| x.access }, s)
    else
      let (pdptGpa, s) := pwRetrievePhysAddr s pml4teVal x.isPae
      pwWalkPdpt x s ⟨some pml4tePtr, pml4teVal⟩ pdptGpa

/-- `pw_perform_page_walk`. -/
def pwPerformPageWalk (x : PwInput) (ram : PwRam) : PwResult × PwState :=
  let (_, s) := pwRetrieveIndices { ram } x.virtAddr x.isPae x.isLme
  let (r, s) :=
    if x.isPae then
      if x.isLme then pwWalkPml4 x s else pwWalkPdpt x s {} x.firstTable
    else
      pwWalkPdpte x s {} {}
  -- the label `out`
  (r, { s with mapped := [], trace := s.trace ++ s.mapped.map .unmap })

end Haxm
