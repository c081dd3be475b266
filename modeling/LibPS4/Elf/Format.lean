/-
The ELF structures as the loader reads them.

A pointer into the file is an offset from `elf->data`, and dereferencing it is a
fetch; a field of a structure is a fetch at the field's offset.  The offsets are
those of `include/sys/elf64.h`, the constants those of `include/sys/elf_common.h`,
the enumerations those of `include/ps4/elfloader.h`.

The file buffer is the input of these programs and the target memory their output,
so a load never reads what it has written: the buffer and the target are two objects.
`Proofs/Determinism.lean` runs the same programs in one memory that holds both.
-/
import LibPS4.Base.Bytes

namespace LibPS4

open Effects

/-- How the C code can stop without returning. -/
inductive Fault
  | nullDereference
  | divisionByZero
  | diverges
  deriving DecidableEq, Repr

abbrev ElfProg (α : Type) := ByteProg Fault α

/-- Follow a pointer that may be `NULL`. -/
def deref {α : Type} : Option α → ElfProg α
  | some a => pure a
  | none => Prog.raise .nullDereference

/-- `p && q && ...`, left to right, stopping at the first failure. -/
def allOf : List (ElfProg Bool) → ElfProg Bool
  | [] => pure true
  | p :: rest => do
      if ← p then allOf rest else pure false

/-- The handle.  `elf->data` is the programs' input; no function reads `elf->size`. -/
structure Elf where
  size : U64
  deriving DecidableEq, Repr

/-! ### Constants -/

def elfClass64 : Byte := 2
def elfData2Lsb : Byte := 1
def evCurrent : Byte := 1
def elfOsabiSysv : Byte := 0
def elfOsabiFreebsd : Byte := 9
def etDyn : U16 := 3
def emX8664 : U16 := 62
def shtSymtab : U32 := 2
def shtRela : U32 := 4
def shtDynsym : U32 := 11
def shfAlloc : U64 := 0x2
def shfExecinstr : U64 := 0x4
def ptLoad : U32 := 1
def pfX : U32 := 0x1
def rX866464 : U16 := 1
def rX8664GlobDat : U16 := 6
def rX8664JmpSlot : U16 := 7
def rX8664Relative : U16 := 8

def elfMaximalStringLength : Nat := 4096

/-- `ElfLoaderReturn`. -/
inductive ElfLoaderReturn
  | ok
  | elfNull
  | writableMemoryNull
  | executableMemoryNull
  | noElf
  | unknownRelocation
  | addressNotFound
  | noSectionsOrSegments
  | isNotLoadable
  deriving DecidableEq, Repr

/-- The `int` a status is returned as. -/
def ElfLoaderReturn.code : ElfLoaderReturn → Int
  | ok => 0
  | elfNull => -1
  | writableMemoryNull => -2
  | executableMemoryNull => -3
  | noElf => -4
  | unknownRelocation => -5
  | addressNotFound => -6
  | noSectionsOrSegments => -7
  | isNotLoadable => -8

/-! ### Structures -/

-- `ElfHeader` sits at offset 0.
namespace ElfHeader

@[simp] def eIdent (k : U64) : ElfProg Byte := fetch8 k
@[simp] def eType : ElfProg U16 := fetch16 16
@[simp] def eMachine : ElfProg U16 := fetch16 18
@[simp] def eVersion : ElfProg U32 := fetch32 20
@[simp] def ePhoff : ElfProg U64 := fetch64 32
@[simp] def eShoff : ElfProg U64 := fetch64 40
@[simp] def ePhentsize : ElfProg U16 := fetch16 54
@[simp] def ePhnum : ElfProg U16 := fetch16 56
@[simp] def eShentsize : ElfProg U16 := fetch16 58
@[simp] def eShnum : ElfProg U16 := fetch16 60
@[simp] def eShstrndx : ElfProg U16 := fetch16 62

end ElfHeader

-- A program header.
namespace ElfSegment

@[simp] def pType (s : U64) : ElfProg U32 := fetch32 s
@[simp] def pFlags (s : U64) : ElfProg U32 := fetch32 (s + 4)
@[simp] def pOffset (s : U64) : ElfProg U64 := fetch64 (s + 8)
@[simp] def pVaddr (s : U64) : ElfProg U64 := fetch64 (s + 16)
@[simp] def pPaddr (s : U64) : ElfProg U64 := fetch64 (s + 24)
@[simp] def pFilesz (s : U64) : ElfProg U64 := fetch64 (s + 32)
@[simp] def pMemsz (s : U64) : ElfProg U64 := fetch64 (s + 40)
@[simp] def pAlign (s : U64) : ElfProg U64 := fetch64 (s + 48)

end ElfSegment

-- A section header.
namespace ElfSection

@[simp] def shName (s : U64) : ElfProg U32 := fetch32 s
@[simp] def shType (s : U64) : ElfProg U32 := fetch32 (s + 4)
@[simp] def shFlags (s : U64) : ElfProg U64 := fetch64 (s + 8)
@[simp] def shAddr (s : U64) : ElfProg U64 := fetch64 (s + 16)
@[simp] def shOffset (s : U64) : ElfProg U64 := fetch64 (s + 24)
@[simp] def shSize (s : U64) : ElfProg U64 := fetch64 (s + 32)
@[simp] def shLink (s : U64) : ElfProg U32 := fetch32 (s + 40)
@[simp] def shInfo (s : U64) : ElfProg U32 := fetch32 (s + 44)
@[simp] def shAddralign (s : U64) : ElfProg U64 := fetch64 (s + 48)
@[simp] def shEntsize (s : U64) : ElfProg U64 := fetch64 (s + 56)

end ElfSection

namespace ElfAddendRelocation

@[simp] def rOffset (r : U64) : ElfProg U64 := fetch64 r
@[simp] def rInfo (r : U64) : ElfProg U64 := fetch64 (r + 8)
@[simp] def rAddend (r : U64) : ElfProg U64 := fetch64 (r + 16)

end ElfAddendRelocation

namespace ElfSymbol

@[simp] def stValue (s : U64) : ElfProg U64 := fetch64 (s + 8)

end ElfSymbol

/-- `ELF64_R_TYPE`. -/
def elfRelocationType (info : U64) : U64 := info &&& 0xffffffff

/-- `ELF64_R_SYM`. -/
def elfRelocationSymbol (info : U64) : U64 := info >>> 32

/-! ### Attributes -/

inductive ElfSectionAttribute
  | none | name | type | flags | address | offset | size | link | info
  | memoryAlignment | entrySize
  deriving DecidableEq, Repr

inductive ElfSegmentAttribute
  | none | type | flags | offset | virtualAddress | physicalAddress | fileSize
  | memorySize | alignment
  deriving DecidableEq, Repr

def elfSectionAttribute (s : U64) : ElfSectionAttribute → ElfProg U64
  | .name => do return (← ElfSection.shName s).setWidth 64
  | .type => do return (← ElfSection.shType s).setWidth 64
  | .flags => ElfSection.shFlags s
  | .address => ElfSection.shAddr s
  | .offset => ElfSection.shOffset s
  | .size => ElfSection.shSize s
  | .link => do return (← ElfSection.shLink s).setWidth 64
  | .info => do return (← ElfSection.shInfo s).setWidth 64
  | .memoryAlignment => ElfSection.shAddralign s
  | .entrySize => ElfSection.shEntsize s
  | .none => pure 0

def elfSegmentAttribute (s : U64) : ElfSegmentAttribute → ElfProg U64
  | .type => do return (← ElfSegment.pType s).setWidth 64
  | .flags => do return (← ElfSegment.pFlags s).setWidth 64
  | .offset => ElfSegment.pOffset s
  | .virtualAddress => ElfSegment.pVaddr s
  | .physicalAddress => ElfSegment.pPaddr s
  | .fileSize => ElfSegment.pFilesz s
  | .memorySize => ElfSegment.pMemsz s
  | .alignment => ElfSegment.pAlign s
  | .none => pure 0

end LibPS4
