/-
The loader of `source/ps4/elfloader.c`.

`writable`, `executable` and `memory` are addresses of the target, with `NULL` the
address 0; the address arithmetic is that of 64-bit pointers and wraps.  Nothing is
checked here that the source does not check: every program header is copied whatever
its type, and a relocation is applied wherever its offset points.
-/
import LibPS4.Elf.Access

namespace LibPS4

open Effects

def elfLoaderIsLoadable (elf : Option Elf) : ElfProg Bool := do
  if (← elfIsElf elf) = false then
    return false
  allOf [do return (← elfClass elf) = elfClass64,
    do return (← elfEncoding elf) = elfData2Lsb,
    do return (← elfVersion elf) = evCurrent,
    do
      if (← elfABI elf) = elfOsabiSysv then return true
      return (← elfABI elf) = elfOsabiFreebsd,
    do return (← ElfHeader.eType) = etDyn,
    do return (← ElfHeader.ePhoff) ≠ 0,
    do return (← ElfHeader.eShoff) ≠ 0,
    do return (← ElfHeader.eMachine) = emX8664,
    do return (← ElfHeader.eVersion) = evCurrent.setWidth 32]

/-! ### Instantiation -/

/-- The body of the segment loop of `elfLoaderInstantiate`. -/
def instantiateSegment (memory s : U64) : ElfProg Unit := do
  if (← ElfSegment.pFilesz s) ≠ 0 then
    memcpy (memory + (← ElfSegment.pPaddr s)) (← ElfSegment.pOffset s) (← ElfSegment.pFilesz s)
  if (← ElfSegment.pMemsz s) - (← ElfSegment.pFilesz s) ≠ 0 then
    memset (memory + (← ElfSegment.pPaddr s) + (← ElfSegment.pFilesz s)) 0
      ((← ElfSegment.pMemsz s) - (← ElfSegment.pFilesz s))

/-- The body of the section loop of `elfLoaderInstantiate`. -/
def instantiateSection (memory s : U64) : ElfProg Unit := do
  if (← ElfSection.shFlags s) &&& shfAlloc = 0 then
    return ()
  if (← ElfSection.shSize s) ≠ 0 then
    memcpy (memory + (← ElfSection.shAddr s)) (← ElfSection.shOffset s) (← ElfSection.shSize s)

def elfLoaderInstantiate (elf : Option Elf) (memory : U64) : ElfProg ElfLoaderReturn :=
  match elf with
  | none => pure .elfNull
  | some _ => do
      if memory = 0 then
        return .writableMemoryNull
      match ← elfSegments elf with
      | some t => do
          Prog.forFrom (fun index => instantiateSegment memory (t.entry index)) t.length.toNat 0
          return .ok
      | none =>
          match ← elfSections elf with
          | none => return .ok
          | some t => do
              Prog.forFrom (fun index => instantiateSection memory (t.entry index))
                t.length.toNat 0
              return .ok

/-! ### Relocation -/

/-- The first header of a table whose closed range holds `address`, and its flag. -/
def flagOfAddress (addr size : U64 → ElfProg U64) (flag : U64 → ElfProg U32) (t : Table)
    (address : U64) : ElfProg (Option U32) :=
  Prog.findFrom (fun index => do
    let s := t.entry index
    let a ← addr s
    if address < a then
      return none
    let n ← size s
    if a + n < address then
      return none
    return some (← flag s)) t.length.toNat 0

/-- The `int` is zero for an address of a non-executable segment. -/
def elfLoaderRelativeAddressIsExecutable (elf : Option Elf) (address : U64) : ElfProg U32 :=
  match elf with
  | none => pure 0
  | some _ => do
      match ← elfSegments elf with
      | some t => do
          let found ← flagOfAddress ElfSegment.pPaddr ElfSegment.pMemsz
            (fun s => do return (← ElfSegment.pFlags s) &&& pfX) t address
          return found.getD 1
      | none =>
          match ← elfSections elf with
          | none => return BitVec.ofInt 32 ElfLoaderReturn.noSectionsOrSegments.code
          | some t => do
              let found ← flagOfAddress ElfSection.shAddr ElfSection.shSize
                (fun s => do return ((← ElfSection.shFlags s) &&& shfExecinstr).setWidth 32)
                t address
              return found.getD 1

/-- The `st_value` of entry number `relocationSymbol` of the dynamic symbols. -/
def symbolValue (dynamicSymbols : Option U64) (dynamicSymbolSize relocationSymbol : U16) :
    ElfProg U64 := do
  let base ← deref dynamicSymbols
  ElfSymbol.stValue (base + entryOffset relocationSymbol.toNat dynamicSymbolSize)

/-- The `switch` of `elfLoaderRelocate`; nothing for an unknown type. -/
def relocationValue (dynamicSymbols : Option U64) (dynamicSymbolSize : U16) (relocation : U64)
    (relocationType relocationSymbol : U16) : ElfProg (Option U64) := do
  if relocationType = rX8664Relative then
    return some (← ElfAddendRelocation.rAddend relocation)
  else if relocationType = rX866464 then
    let value ← symbolValue dynamicSymbols dynamicSymbolSize relocationSymbol
    return some (value + (← ElfAddendRelocation.rAddend relocation))
  else if relocationType = rX8664JmpSlot ∨ relocationType = rX8664GlobDat then
    return some (← symbolValue dynamicSymbols dynamicSymbolSize relocationSymbol)
  else
    return none

/-- The body of the inner loop of `elfLoaderRelocate`; an answer leaves both loops. -/
def relocateEntry (elf : Option Elf) (writable executable : U64) (dynamicSymbols : Option U64)
    (dynamicSymbolSize : U16) (relocation : U64) : ElfProg (Option ElfLoaderReturn) := do
  let info ← ElfAddendRelocation.rInfo relocation
  let relocationType := (elfRelocationType info).setWidth 16
  let relocationSymbol := (elfRelocationSymbol info).setWidth 16
  let offset := writable + (← ElfAddendRelocation.rOffset relocation)
  match ← relocationValue dynamicSymbols dynamicSymbolSize relocation relocationType
      relocationSymbol with
  | none => return some .unknownRelocation
  | some value => do
      if (← elfLoaderRelativeAddressIsExecutable elf value) ≠ 0 then
        store64 offset (executable + value)
      else
        store64 offset (writable + value)
      return none

/-- The inner loop of `elfLoaderRelocate`, over the table of one name. -/
def relocateTable (elf : Option Elf) (writable executable : U64) (dynamicSymbols : Option U64)
    (dynamicSymbolSize : U16) (name : List Byte) : ElfProg (Option ElfLoaderReturn) := do
  match ← elfAddendRelocations elf name with
  | none => return none
  | some t =>
      Prog.findFrom (fun i => relocateEntry elf writable executable dynamicSymbols
        dynamicSymbolSize (t.entry i)) t.length.toNat 0

/-- `".dynsym"`. -/
def dynsymName : List Byte := [0x2e, 0x64, 0x79, 0x6e, 0x73, 0x79, 0x6d]

/-- `".rela.dyn"`. -/
def relaDynName : List Byte := [0x2e, 0x72, 0x65, 0x6c, 0x61, 0x2e, 0x64, 0x79, 0x6e]

/-- `".rela.plt"`. -/
def relaPltName : List Byte := [0x2e, 0x72, 0x65, 0x6c, 0x61, 0x2e, 0x70, 0x6c, 0x74]

def elfLoaderRelocate (elf : Option Elf) (writable executable : U64) :
    ElfProg ElfLoaderReturn :=
  match elf with
  | none => pure .elfNull
  | some _ => do
      if writable = 0 then
        return .writableMemoryNull
      if executable = 0 then
        return .executableMemoryNull
      let symbols ← elfSymbols elf dynsymName
      let dynamicSymbols := symbols.map Table.base
      let dynamicSymbolSize := (symbols.map Table.size).getD 0
      match ← relocateTable elf writable executable dynamicSymbols dynamicSymbolSize
          relaDynName with
      | some r => return r
      | none =>
          match ← relocateTable elf writable executable dynamicSymbols dynamicSymbolSize
              relaPltName with
          | some r => return r
          | none => return .ok

/-! ### The whole load -/

def elfLoaderLoad (elf : Option Elf) (writable executable : U64) : ElfProg ElfLoaderReturn :=
  match elf with
  | none => pure .elfNull
  | some _ => do
      if writable = 0 then
        return .writableMemoryNull
      if executable = 0 then
        return .executableMemoryNull
      if (← elfLoaderIsLoadable elf) = false then
        return .isNotLoadable
      match ← elfLoaderInstantiate elf writable with
      | .ok => elfLoaderRelocate elf writable executable
      | r => return r

end LibPS4
