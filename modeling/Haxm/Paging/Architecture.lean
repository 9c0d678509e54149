/-
# Paging as the processor does it

A reference for the page walker, stated on its own: a paging mode is a list of
levels, and a level says which bits of the linear address select its entry,
which bits of the entry are reserved, when the entry maps a page and which
rights it gives. The translation goes through the levels from the table that
CR3 names. It ends at the first entry that is not present or has a reserved bit
set, or at the page, where the rights of all entries passed are compared with
the access.

The rules are those of Volume 3A, Chapter 4 of the Intel manual with SMEP, SMAP
and protection keys off. What the manual makes depend on the processor is a
parameter: the physical address width, 1-GByte pages and PSE-36. Three more
parameters switch off single checks; a processor has all of them.
-/

import Haxm.Lib.Bits
import Haxm.Paging.Assertions

namespace Haxm

open Lib

/-- How a translation ends. -/
inductive Translation
  | page (pa : BitVec 64)
  /-- Some entry is not present. -/
  | notPresent
  /-- A reserved bit is set or the rights do not allow the access. -/
  | violation
  deriving DecidableEq, Repr

/-- The rights that entries give. -/
structure PagingRights where
  write : Bool := true
  user : Bool := true
  exec : Bool := true
  deriving DecidableEq, Repr

namespace PagingRights

/-- What two entries allow together. -/
def inter (a b : PagingRights) : PagingRights :=
  ⟨a.write && b.write, a.user && b.user, a.exec && b.exec⟩

/-- The R/W, U/S and XD bits of an entry. -/
def ofEntry (e : BitVec 64) : PagingRights := ⟨e.getLsbD 1, e.getLsbD 2, !e.getLsbD 63⟩

end PagingRights

/-- The properties of a processor that paging depends on. -/
structure PagingFeatures where
  /-- MAXPHYADDR. -/
  maxPhyAddr : ℕ
  page1gb : Bool
  pse36 : Bool
  low : 32 ≤ maxPhyAddr
  high : maxPhyAddr ≤ 52

/-- Which checks are made besides. -/
structure PagingChecks where
  /-- Bit 7 of a PML4 entry is reserved. -/
  pml4PageSize : Bool
  /-- Bits 8:5 of a 32-bit PAE page-directory-pointer-table entry are reserved.
  Otherwise bit 7 maps a page there too. -/
  paePdpte : Bool
  /-- The modes with 32-bit linear addresses take 32 bits of CR3. -/
  cr3Low : Bool

/-- All of them. -/
def PagingChecks.all : PagingChecks := ⟨true, true, true⟩

/-- One level of the paging structures. -/
structure PagingLevel where
  table : PwTable
  /-- The lowest bit of the linear address that selects an entry. -/
  shift : ℕ
  /-- The number of such bits. -/
  width : ℕ
  isPage : BitVec 64 → Bool
  reserved : BitVec 64 → Bool
  /-- The address of the page that an entry maps. -/
  frame : BitVec 64 → BitVec 64 := fun e => e &&& (0x000fffffffffffff#64 >>> shift) <<< shift
  rights : BitVec 64 → PagingRights := .ofEntry

/-- A page directory of 64-bit entries, with the reserved bits of its mode. -/
def pdLevel (rsvd : BitVec 64 → Bool) : PagingLevel where
  table := .pd
  shift := 21
  width := 9
  isPage e := e.getLsbD 7
  reserved e := rsvd e || e.getLsbD 7 && anyBit 13 8 e

/-- A page table of 64-bit entries. -/
def ptLevel (rsvd : BitVec 64 → Bool) : PagingLevel where
  table := .pt
  shift := 12
  width := 9
  isPage _ := true
  reserved := rsvd

def pt32Level : PagingLevel where
  table := .pt
  shift := 12
  width := 10
  isPage _ := true
  reserved _ := false

namespace PagingFeatures

variable (f : PagingFeatures) (c : PagingChecks) (nxe : Bool)

/-- The physical address width that 4-MByte pages have. -/
def pseWidth : ℕ := if f.pse36 then min 40 f.maxPhyAddr else 32

/-- Bit 63 where it is not XD. -/
def xdReserved (e : BitVec 64) : Bool := !nxe && anyBit 63 1 e

/-- The reserved bits that the entries of 4-level paging share. -/
def reserved64 (e : BitVec 64) : Bool :=
  anyBit f.maxPhyAddr (52 - f.maxPhyAddr) e || xdReserved nxe e

/-- The reserved bits that the lower entries of PAE paging share. -/
def reservedPae (e : BitVec 64) : Bool :=
  anyBit f.maxPhyAddr (63 - f.maxPhyAddr) e || xdReserved nxe e

def pml4Level : PagingLevel where
  table := .pml4t
  shift := 39
  width := 9
  isPage _ := false
  reserved e := f.reserved64 nxe e || c.pml4PageSize && anyBit 7 1 e

def pdptLevel : PagingLevel where
  table := .pdpt
  shift := 30
  width := 9
  isPage e := e.getLsbD 7
  reserved e := f.reserved64 nxe e || e.getLsbD 7 && (!f.page1gb || anyBit 13 17 e)

def paePdptLevel : PagingLevel where
  table := .pdpt
  shift := 30
  width := 2
  isPage e := !c.paePdpte && e.getLsbD 7
  reserved e := anyBit 1 2 e || anyBit f.maxPhyAddr (64 - f.maxPhyAddr) e ||
    c.paePdpte && anyBit 5 4 e
  rights _ := {}

/-- A page directory of 32-bit entries. With PSE-36, bits 20:13 of an entry that
maps a page are bits 39:32 of its address. -/
def pd32Level (pse : Bool) : PagingLevel where
  table := .pd
  shift := 22
  width := 10
  isPage e := pse && e.getLsbD 7
  reserved e := pse && e.getLsbD 7 && anyBit (f.pseWidth - 19) (41 - f.pseWidth) e
  frame e := e &&& 0xffc00000 ||| (e.extractLsb' 13 8).setWidth 64 <<< 32

end PagingFeatures

/-- The translation through a list of levels: `read` gives the entry of a table,
`permits` says whether rights are enough for the access. There is no outcome
when a table cannot be read. -/
def translate (read : PwTable → BitVec 64 → BitVec 32 → Option PwEntry)
    (permits : PagingRights → Bool) (va : BitVec 64) :
    List PagingLevel → BitVec 64 → PagingRights → Option Translation
  | [], _, _ => none
  | l :: rest, base, r =>
    (read l.table base ((va.extractLsb' l.shift l.width).setWidth 32)).bind fun entry =>
      let e := entry.val
      if !e.getLsbD 0 then some .notPresent
      else if l.reserved e then some .violation
      else if l.isPage e then
        some (if permits (r.inter (l.rights e)) then
            .page (l.frame e ||| (va.extractLsb' 0 l.shift).setWidth 64)
          else .violation)
      else
        translate read permits va rest (e &&& 0x000ffffffffff000) (r.inter (l.rights e))

namespace PwInput

/-- The rights are enough for the access. A supervisor may write anywhere unless
CR0.WP is set, and fetches are restricted only where entries have an XD bit. -/
def permits (x : PwInput) (r : PagingRights) : Bool :=
  (!x.isWrite || r.write || !x.isUser && !x.isWp) && (!x.isUser || r.user) &&
    (!(x.isFetch && x.isPae && x.isNxe) || r.exec)

/-- The levels of the paging mode. -/
def levels (f : PagingFeatures) (c : PagingChecks) (x : PwInput) : List PagingLevel :=
  if x.isPae then
    if x.isLme then
      [f.pml4Level c x.isNxe, f.pdptLevel x.isNxe, pdLevel (f.reserved64 x.isNxe),
        ptLevel (f.reserved64 x.isNxe)]
    else
      [f.paePdptLevel c, pdLevel (f.reservedPae x.isNxe), ptLevel (f.reservedPae x.isNxe)]
  else [f.pd32Level x.isPse, pt32Level]

/-- The address of the first table. -/
def root (c : PagingChecks) (x : PwInput) : BitVec 64 :=
  let cr3 := if c.cr3Low && !x.isLme then x.cr3 &&& 0xffffffff else x.cr3
  if x.isPae && !x.isLme then cr3 &&& ~~~ 0x1f else cr3 &&& ~~~ 0xfff

/-- The translation with given checks. -/
def translation (f : PagingFeatures) (c : PagingChecks) (x : PwInput) (ram : PwRam) :
    Option Translation :=
  translate (x.entry ram) x.permits x.virtAddr (x.levels f c) (x.root c) {}

/-- The translation as the processor does it. -/
def architectural (f : PagingFeatures) (x : PwInput) (ram : PwRam) : Option Translation :=
  x.translation f .all ram

end PwInput

end Haxm
