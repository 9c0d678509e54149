/-
# The CPUID instruction of a guest

A guest has a table with one entry for each supported leaf and subleaf. The
table is filled when the first virtual CPU is created and changed by user space
and when the guest enables extended states. CPUID is answered from the table,
or, for a subleaf that the table does not have, by the function that filled in
the leaf.
-/

import Haxm.Vcpu.Entry

namespace Haxm

open Lib

/-- `cpuid_args_t`: the registers before and after CPUID. -/
structure CpuidArgs where
  eax : BitVec 32 := 0
  ecx : BitVec 32 := 0
  edx : BitVec 32 := 0
  ebx : BitVec 32 := 0
  deriving DecidableEq, Repr

/-- `hax_cpuid_entry`. -/
structure CpuidEntry where
  function : BitVec 32 := 0
  index : BitVec 32 := 0
  flags : BitVec 32 := 0
  eax : BitVec 32 := 0
  ebx : BitVec 32 := 0
  ecx : BitVec 32 := 0
  edx : BitVec 32 := 0
  deriving DecidableEq, Repr

/-- What the answers depend on outside the guest: the CPUID function of the
processor and what the driver has kept from its initialization. -/
structure CpuidHost where
  /-- The result for EAX and ECX. -/
  cpuid : BitVec 32 → BitVec 32 → CpuidArgs
  /-- `cache.host_supported[1].ebx`. -/
  hostSupported7Ebx : BitVec 32
  /-- `hax->supported_xcr0`. -/
  supportedXcr0 : BitVec 64
  /-- `hax->apm_cpuid_0xa`. -/
  pmuEax : BitVec 32
  pmuEbx : BitVec 32
  pmuEdx : BitVec 32

variable (host : CpuidHost)

/-- `asm_cpuid`. -/
def asmCpuid (args : CpuidArgs) : CpuidArgs := host.cpuid args.eax args.ecx

/-! ## Features -/

/-- The mask of a set of feature bits. -/
def features (bits : List ℕ) : BitVec 32 := bits.foldl (fun m b => m ||| 1 <<< b) 0

def featureXsavec : BitVec 32 := features [1]
def featureTscDeadline : BitVec 32 := features [24]
def featureOsxsave : BitVec 32 := features [27]
def featureHypervisor : BitVec 32 := features [31]
def featureApic : BitVec 32 := features [9]

/-- `cache.hax_supported[0]`: SSE3, SSSE3, SSE4.1, SSE4.2, CMPXCHG16B, MOVBE,
AESNI, PCLMULQDQ, POPCNT, XSAVE, AVX and F16C. -/
def haxSupported1Ecx : BitVec 32 := features [0, 9, 19, 20, 13, 22, 25, 1, 23, 26, 28, 29]

/-- PAT, FPU, VME, DE, TSC, MSR, PAE, MCE, CX8, APIC, SEP, MTRR, PGE, MCA, CMOV,
CLFSH, MMX, FXSR, SSE, SSE2, SS, PSE and HTT. -/
def haxSupported1Edx : BitVec 32 :=
  features [16, 0, 1, 2, 4, 5, 6, 7, 8, 9, 11, 12, 13, 14, 15, 19, 23, 24, 25, 26, 27, 3, 28]

/-- `cache.hax_supported[1]`: ERMS and INVPCID. -/
def haxSupported7Ebx : BitVec 32 := features [9, 10]

/-- `cache.hax_supported[2]`: XSAVEOPT, XSAVEC and XGETBV1. -/
def haxSupportedDEax : BitVec 32 := features [0, 1, 2]

/-- `cache.hax_supported[3]`: nothing in ECX; NX, SYSCALL, RDTSCP and EM64T. -/
def haxSupported80000001Ecx : BitVec 32 := features []
def haxSupported80000001Edx : BitVec 32 := features [20, 11, 27, 29]

def maxBasicCpuid : BitVec 32 := 0x16
def maxExtendedCpuid : BitVec 32 := 0x80000008

/-- `min` on 32-bit words. -/
def minWord (a b : BitVec 32) : BitVec 32 := if a < b then a else b
def maxWord (a b : BitVec 32) : BitVec 32 := if a > b then a else b

/-- `XFEATURE_MASK_EXTENDED`: every state component but x87 and SSE. -/
def xfeatureMaskExtended : BitVec 64 := ~~~(3 ||| 1 <<< 63)

/-- `calc_xstate_required_size`. -/
def calcXstateRequiredSize (xstateBv : BitVec 64) (isCompacted : Bool) : BitVec 32 :=
  (List.range 64).foldl (fun size bit =>
    if (xstateBv &&& xfeatureMaskExtended).getLsbD bit then
      let args := asmCpuid host { eax := 0x0d, ecx := BitVec.ofNat 32 bit }
      maxWord size ((if isCompacted then size else args.ebx) + args.eax)
    else size) (64 + 512)

/-! ## The functions for the leaves -/

/-- `adjust_0000_0001`: newer processors of family 6 pass for an older one. -/
def adjust00000001 (args : CpuidArgs) : CpuidArgs :=
  let family := args.eax.extractLsb' 8 4
  let extFamily := args.eax.extractLsb' 20 8
  let model := args.eax.extractLsb' 4 4
  let extModel := args.eax.extractLsb' 16 4
  let hwFamily := family.toNat + (if family = 0xf then 16 * extFamily.toNat else 0)
  let hwModel := model.toNat + (if family = 0x6 ∨ family = 0xf then 16 * extModel.toNat else 0)
  { eax := if hwFamily = 0x06 ∧ hwModel > 0x1f then 0x106f1 else args.eax
    ebx := 0x10800
    ecx := (args.ecx &&& haxSupported1Ecx) ||| featureHypervisor
    edx := args.edx &&& haxSupported1Edx }

/-- `adjust_8000_0001`. -/
def adjust80000001 (args : CpuidArgs) : CpuidArgs where
  eax := 0
  ebx := 0
  ecx := args.ecx &&& haxSupported80000001Ecx
  edx := args.edx &&& haxSupported80000001Edx

def execute00000000 (args : CpuidArgs) : CpuidArgs :=
  let args := asmCpuid host args
  { args with eax := minWord args.eax maxBasicCpuid }

def execute00000001 (args : CpuidArgs) : CpuidArgs := adjust00000001 (asmCpuid host args)

def execute00000002 (_ : CpuidArgs) : CpuidArgs where
  eax := 0x03020101
  edx := 0x0c040844

/-- `execute_0000_0007`. For the other subleaves nothing is assigned. -/
def execute00000007 (args : CpuidArgs) : CpuidArgs :=
  if args.ecx = 0 then { ebx := host.hostSupported7Ebx &&& haxSupported7Ebx }
  else if args.ecx = 1 then {}
  else args

def execute0000000a (_ : CpuidArgs) : CpuidArgs where
  eax := host.pmuEax
  ebx := host.pmuEbx
  edx := host.pmuEdx

/-- `execute_0000_000d`. Beyond subleaf 63 nothing is assigned. -/
def execute0000000d (args : CpuidArgs) : CpuidArgs :=
  if args.ecx > 63 then args
  else if args.ecx = 0 then
    let res := asmCpuid host args
    let size := calcXstateRequiredSize host host.supportedXcr0 false
    { eax := res.eax &&& host.supportedXcr0.setWidth 32
      ebx := size
      ecx := size
      edx := res.edx &&& (host.supportedXcr0 >>> 32).setWidth 32 }
  else if args.ecx = 1 then
    { eax := haxSupportedDEax
      ebx :=
        if haxSupportedDEax &&& featureXsavec ≠ 0 then
          calcXstateRequiredSize host host.supportedXcr0 true
        else 0 }
  else if host.supportedXcr0.getLsbD args.ecx.toNat then { asmCpuid host args with edx := 0 }
  else {}

/-- `execute_4000_0000`: the signature is "HAXMHAXMHAXM". -/
def execute40000000 (_ : CpuidArgs) : CpuidArgs where
  eax := 0x40000000
  ebx := 0x4d584148
  ecx := 0x4d584148
  edx := 0x4d584148

def execute80000000 (_ : CpuidArgs) : CpuidArgs where
  eax := maxExtendedCpuid

def execute80000001 (args : CpuidArgs) : CpuidArgs := adjust80000001 (asmCpuid host args)

def execute80000002 (_ : CpuidArgs) : CpuidArgs where
  eax := 0x74726956
  ebx := 0x206c6175
  ecx := 0x20555043

def execute80000003 (_ : CpuidArgs) : CpuidArgs where

def execute80000006 (_ : CpuidArgs) : CpuidArgs where
  ecx := 0x04008040

/-- `execute_8000_0008`, which also sets the mask of reserved address bits that
the page walker uses. -/
def execute80000008 (args : CpuidArgs) : CpuidArgs where
  eax := (asmCpuid host args).eax

/-- `cpuid_manager_t`. -/
structure CpuidManager where
  leaf : BitVec 32
  subleaf : BitVec 32
  execute : Option (CpuidArgs → CpuidArgs)

/-- `kCpuidManager`. -/
def kCpuidManager : List CpuidManager :=
  [⟨0x00000000, 0, execute00000000 host⟩,
   ⟨0x00000001, 0, execute00000001 host⟩,
   ⟨0x00000002, 0, execute00000002⟩,
   ⟨0x00000007, 0, execute00000007 host⟩,
   ⟨0x00000007, 1, execute00000007 host⟩,
   ⟨0x0000000a, 0, execute0000000a host⟩,
   ⟨0x0000000d, 0, execute0000000d host⟩,
   ⟨0x0000000d, 1, execute0000000d host⟩,
   ⟨0x00000015, 0, none⟩,
   ⟨0x00000016, 0, none⟩,
   ⟨0x40000000, 0, execute40000000⟩,
   ⟨0x80000000, 0, execute80000000⟩,
   ⟨0x80000001, 0, execute80000001 host⟩,
   ⟨0x80000002, 0, execute80000002⟩,
   ⟨0x80000003, 0, execute80000003⟩,
   ⟨0x80000004, 0, execute80000003⟩,
   ⟨0x80000006, 0, execute80000006⟩,
   ⟨0x80000008, 0, execute80000008 host⟩]

/-! ## The table -/

/-- The entry that `cpuid_guest_init` writes for a result. -/
def cpuidEntry (m : CpuidManager) (args : CpuidArgs) : CpuidEntry where
  function := m.leaf
  index := m.subleaf
  eax := args.eax
  ebx := args.ebx
  ecx := args.ecx
  edx := args.edx

/-- The loop of `cpuid_guest_init`. EBX and EDX come from the round before, and
in the first round from the stack. -/
def cpuidFill : List CpuidManager → CpuidArgs → List CpuidEntry
  | [], _ => []
  | m :: l, stack =>
    let args := m.execute.getD (asmCpuid host) { stack with eax := m.leaf, ecx := m.subleaf }
    cpuidEntry m args :: cpuidFill l args

/-- `cpuid_guest_init`. -/
def cpuidGuestInit (stack : CpuidArgs) : List CpuidEntry :=
  cpuidFill host (kCpuidManager host) stack

/-- `find_cpuid_entry`. -/
def findCpuidEntry (table : List CpuidEntry) (function index : BitVec 32) : Option CpuidEntry :=
  table.find? fun e => e.function = function ∧ e.index = index

/-- A change of the entry that `find_cpuid_entry` finds. -/
def updateCpuidEntry (function index : BitVec 32) (f : CpuidEntry → CpuidEntry) :
    List CpuidEntry → List CpuidEntry
  | [] => []
  | e :: l =>
    if e.function = function ∧ e.index = index then f e :: l
    else e :: updateCpuidEntry function index f l

/-! ### SET_CPUID -/

def setLeaf00000000 (dest src : CpuidEntry) : CpuidEntry :=
  { dest with eax := minWord src.eax maxBasicCpuid }

def setLeaf00000001 (dest src : CpuidEntry) : CpuidEntry :=
  { dest with
    eax := src.eax
    ebx := src.ebx
    ecx := (src.ecx &&& ~~~featureTscDeadline) ||| featureHypervisor
    edx := src.edx ||| featureApic }

def setLeaf00000015 (dest src : CpuidEntry) : CpuidEntry :=
  if src.eax = 0 ∨ src.ebx = 0 then dest else src

def setLeaf00000016 (dest src : CpuidEntry) : CpuidEntry :=
  if src.eax = 0 ∨ src.ebx = 0 ∨ src.ecx = 0 then dest
  else { dest with
    eax := src.eax &&& 0xffff
    ebx := src.ebx &&& 0xffff
    ecx := src.ecx &&& 0xffff
    edx := 0 }

def setLeaf80000000 (dest src : CpuidEntry) : CpuidEntry :=
  { dest with eax := minWord src.eax maxExtendedCpuid }

def setLeaf80000001 (dest src : CpuidEntry) : CpuidEntry :=
  { dest with eax := src.eax, ebx := 0, ecx := src.ecx, edx := src.edx }

def setLeaf80000006 (dest src : CpuidEntry) : CpuidEntry :=
  { dest with eax := 0, ebx := 0, ecx := src.ecx, edx := 0 }

def setLeaf80000008 (dest src : CpuidEntry) : CpuidEntry :=
  { dest with eax := src.eax, ebx := src.ebx, ecx := 0, edx := 0 }

/-- `cpuid_controller_t`. -/
structure CpuidController where
  leaf : BitVec 32
  subleaf : BitVec 32
  setLeaf : Option (CpuidEntry → CpuidEntry → CpuidEntry)

/-- `kCpuidController`. -/
def kCpuidController : List CpuidController :=
  [⟨0x00000000, 0, setLeaf00000000⟩,
   ⟨0x00000001, 0, setLeaf00000001⟩,
   ⟨0x00000002, 0, none⟩,
   ⟨0x00000007, 0, none⟩,
   ⟨0x00000007, 1, none⟩,
   ⟨0x0000000a, 0, none⟩,
   ⟨0x00000015, 0, setLeaf00000015⟩,
   ⟨0x00000016, 0, setLeaf00000016⟩,
   ⟨0x40000000, 0, none⟩,
   ⟨0x80000000, 0, setLeaf80000000⟩,
   ⟨0x80000001, 0, setLeaf80000001⟩,
   ⟨0x80000002, 0, none⟩,
   ⟨0x80000003, 0, none⟩,
   ⟨0x80000004, 0, none⟩,
   ⟨0x80000006, 0, setLeaf80000006⟩,
   ⟨0x80000008, 0, setLeaf80000008⟩]

/-- `set_feature`: the entry is copied as a whole where there is no `set_leaf`. -/
def setFeature (info : List CpuidEntry) (table : List CpuidEntry) (c : CpuidController) :
    List CpuidEntry :=
  match findCpuidEntry info c.leaf c.subleaf with
  | none => table
  | some src =>
    updateCpuidEntry c.leaf c.subleaf
      (fun dest => (c.setLeaf.getD fun _ src => src) dest src) table

/-- `cpuid_set_guest_features`. -/
def cpuidSetGuestFeatures (info table : List CpuidEntry) : List CpuidEntry :=
  kCpuidController.foldl (setFeature info) table

/-- `cpuid_update`: `xsave` says whether the host has XSAVE, `osxsave` whether the
guest has enabled it. -/
def cpuidUpdate (xsave osxsave : Bool) (xcr0 : BitVec 64) (table : List CpuidEntry) :
    List CpuidEntry :=
  let table :=
    if xsave then
      updateCpuidEntry 0x01 0 (fun e => { e with
        ecx := if osxsave then e.ecx ||| featureOsxsave else e.ecx &&& ~~~featureOsxsave }) table
    else table
  let table :=
    updateCpuidEntry 0x0d 0
      (fun e => { e with ebx := calcXstateRequiredSize host xcr0 false }) table
  updateCpuidEntry 0x0d 1 (fun e =>
    if e.eax &&& featureXsavec ≠ 0 then
      { e with ebx := calcXstateRequiredSize host xcr0 true }
    else e) table

/-! ## The instruction -/

/-- The variables of the loop in `cpuid_execute`. The index and the entry have no
meaning while nothing is supported. -/
structure CpuidLookup where
  supported : ℕ := 0
  index : ℕ := 0
  entry : CpuidEntry := {}

/-- The loop of `cpuid_execute`, from the `i`th entry on. -/
def cpuidLookup (leaf subleaf : BitVec 32) : ℕ → List CpuidEntry → CpuidLookup → CpuidLookup
  | _, [], r => r
  | i, e :: l, r =>
    if e.function ≠ leaf then
      if r.supported = 0 then cpuidLookup leaf subleaf (i + 1) l r else r
    else if e.index = subleaf then { r with supported := 1, entry := e }
    else if r.supported ≠ 0 then
      cpuidLookup leaf subleaf (i + 1) l { r with supported := r.supported + 1 }
    else cpuidLookup leaf subleaf (i + 1) l { supported := 1, index := i, entry := e }

/-- `cpuid_execute`. -/
def cpuidExecute (table : List CpuidEntry) (args : CpuidArgs) : CpuidArgs :=
  let r := cpuidLookup args.eax args.ecx 0 table {}
  match r.supported with
  | 0 => {}
  | 1 => { eax := r.entry.eax, ebx := r.entry.ebx, ecx := r.entry.ecx, edx := r.entry.edx }
  | _ =>
    match (kCpuidManager host)[r.index]? with
    | some ⟨_, _, some execute⟩ => execute args
    | _ => args

/-- The lower half of a register. -/
def lowWord (x : BitVec 64) : BitVec 32 := x.setWidth 32

def setLowWord (x : BitVec 64) (val : BitVec 32) : BitVec 64 := x.extractLsb' 32 32 ++ val

/-- The four results in RAX, RCX, RDX and RBX. -/
def cpuidResult (args : CpuidArgs) (regs : Fin 16 → BitVec 64) : Fin 16 → BitVec 64 :=
  fun i =>
    if i = 0 then setLowWord (regs i) args.eax
    else if i = 1 then setLowWord (regs i) args.ecx
    else if i = 2 then setLowWord (regs i) args.edx
    else if i = 3 then setLowWord (regs i) args.ebx
    else regs i

/-- `exit_cpuid`, with what is on the stack where `args` lies. -/
def exitCpuid (table : List CpuidEntry) (stack : CpuidArgs) (len : BitVec 64) (v : Vcpu) : Vcpu :=
  let args := cpuidExecute host table
    { stack with eax := lowWord (v.state.regs 0), ecx := lowWord (v.state.regs 1) }
  advanceRip len { v with state := { v.state with regs := cpuidResult args v.state.regs } }

/-! ## Reachable tables -/

inductive CpuidCall
  | setCpuid (info : List CpuidEntry)
  | update (xsave osxsave : Bool) (xcr0 : BitVec 64)

def cpuidStep (table : List CpuidEntry) : CpuidCall → List CpuidEntry
  | .setCpuid info => cpuidSetGuestFeatures info table
  | .update xsave osxsave xcr0 => cpuidUpdate host xsave osxsave xcr0 table

/-- The tables that a guest can have, whatever was on the stack when the first
one was filled. -/
def CpuidReached (table : List CpuidEntry) : Prop :=
  ∃ stack, Reached (cpuidGuestInit host stack) (fun _ _ => True) (cpuidStep host) table

end Haxm
