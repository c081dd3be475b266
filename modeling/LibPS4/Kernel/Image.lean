/-
The kernel's own image, `source/ps4/kernel.c`.

Before the first lookup the kernel's ELF image is looked for in memory, first where it is
known to be and then page by page; its dynamic table says where the symbols and their
strings are, and its first segment is where executable memory is taken from.  What was
found is kept in four statics, and a flag says that it was.

If no image is found nothing is kept and nothing is reported: the callers go on with the
statics as they are, which is zero.  If there is an image but something is missing in it, a
`NULL` pointer is read through, which in the kernel is the end.
-/
import LibPS4.Elf.Loaded
import LibPS4.Kernel.Symbols

namespace LibPS4

open Effects

def ps4KernelElfSeekAddress : U64 := 0xffffffff80000000
def ps4KernelElfSeekSize : Nat := 0x02000000
def ps4KernelElfSeekStaticAddress : U64 := 0xffffffff80700000
def ps4KernelElfSize : U64 := 0x00EAC180
def ps4KernelElfPageSize : Nat := 16 * 1024

def dtStrtab : U64 := 5
def dtSymtab : U64 := 6

/-- Where the code stops without returning: in the ELF functions, or in the lookup. -/
inductive ImageFault
  | elf (e : Fault)
  | symbols (e : KernelFault)
  deriving DecidableEq, Repr

abbrev ImageProg (α : Type) := ByteProg ImageFault α

/-- The statics of `kernel.c`. -/
structure PS4KernelState extends PS4KernelStatics where
  executableAddress : U64
  deriving DecidableEq, Repr

/-- As the kernel starts with them. -/
def PS4KernelState.zero : PS4KernelState := ⟨⟨false, 0, 0⟩, 0⟩

/-! ### The search -/

def elfMagic : List Byte := [0x7f, 0x45, 0x4c, 0x46, 0x02, 0x01, 0x01, 0x09, 0x00]

/-- Does the loop over the magic bytes at `m` get to its end? -/
def magicAt (m : U64) : ImageProg Bool := do
  let i ← Prog.findFrom (fun i => do
    if (← fetch8 (m + BitVec.ofNat 64 i)) = elfMagic.getD i 0 then
      return none
    return some i) elfMagic.length 0
  return i = none

def ps4KernelElfSeek : ImageProg (Option U64) := do
  if ← magicAt ps4KernelElfSeekStaticAddress then
    return some ps4KernelElfSeekStaticAddress
  Prog.findFrom (fun i => do
    let m := ps4KernelElfSeekAddress + BitVec.ofNat 64 (i * ps4KernelElfPageSize)
    if ← magicAt m then
      return some m
    return none) (ps4KernelElfSeekSize / ps4KernelElfPageSize) 0

/-! ### Reading the image -/

/-- `elfDynamicAttribute(dyn, ElfDynamicAttributePointer)` for the first entry with a tag. -/
def dynamicPointer (kernelAddress : U64) (kernel : Option Elf) (tag : U64) : ElfProg U64 := do
  match (← elfLoadedDynamic kernelAddress kernel 0 .tag tag).1 with
  | some dyn => elfDynamicAttribute dyn .pointer
  | none => Prog.raise .nullDereference

/-- `elfSegment(kernel, NULL, ElfSegmentAttributeType, PT_LOAD)->p_vaddr` -/
def firstLoadAddress (kernelAddress : U64) (kernel : Option Elf) : ElfProg U64 :=
  inPlace kernelAddress do
    match (← elfSegment kernel 0 .type (ptLoad.setWidth 64)).1 with
    | some h => ElfSegment.pVaddr h
    | none => Prog.raise .nullDereference

def ps4KernelInternalInitialize (k : PS4KernelState) : ImageProg PS4KernelState := do
  match ← ps4KernelElfSeek with
  | none => return k
  | some kernelAddress => do
      let kernel := elfCreateLocalUnchecked false (kernelAddress == 0) ps4KernelElfSize
      let elfSymbols ← (dynamicPointer kernelAddress kernel dtSymtab).mapFault .elf
      let elfStrings ← (dynamicPointer kernelAddress kernel dtStrtab).mapFault .elf
      let executableAddress ← (firstLoadAddress kernelAddress kernel).mapFault .elf
      return ⟨⟨true, elfSymbols, elfStrings⟩, executableAddress⟩

/-- `if(!ps4KernelInternalInitialized) ps4KernelInternalInitialize();` -/
def whenInitialized (k : PS4KernelState) : ImageProg PS4KernelState :=
  if k.initialized then pure k else ps4KernelInternalInitialize k

/-! ### What the image is asked for -/

def ps4KernelExecutableMemoryMalloc (size : U64) (k : PS4KernelState) :
    ImageProg (U64 × PS4KernelState) := do
  let k ← whenInitialized k
  return (k.executableAddress, { k with executableAddress := k.executableAddress + size })

/-- Nothing is given back. -/
def ps4KernelExecutableMemoryFree (_addr : U64) (k : PS4KernelState) :
    ImageProg (U64 × PS4KernelState) :=
  pure (0, k)

/-- The branch of `ps4KernelDlSym` that is taken in the kernel. -/
def kernelDlSym (name : U64) (k : PS4KernelState) : ImageProg (U64 × PS4KernelState) := do
  let k ← whenInitialized k
  let value ← (kernelSymbols k.toPS4KernelStatics name).mapFault .symbols
  return (value, k)

end LibPS4
