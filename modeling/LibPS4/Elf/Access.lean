/-
The accessors of `source/ps4/elfloader.c`: tables, lookups and strings.

Every table is walked the same way: from a base, entry `index` is at
`base + index * size`, where `index` and `size` are `uint16_t`.  C multiplies them
as `int`, so the product is a 32-bit signed number that is sign-extended when it is
added to the pointer; `entryOffset` does just that, with the two's complement result
where the product does not fit.

An `ElfSection *index` argument that is `NULL` stands for a local cursor starting at
zero, so it is the cursor 0 here, and the cursor's final value is returned beside the
entry.
-/
import LibPS4.Elf.Format

namespace LibPS4

open Effects

/-- A table of the file: where it starts, its stride and its number of entries. -/
structure Table where
  base : U64
  size : U16
  length : U16
  deriving DecidableEq, Repr

/-- `index * size`, two `uint16_t` multiplied as `int`. -/
def entryOffset (index : Nat) (size : U16) : U64 :=
  (BitVec.ofNat 32 (index * size.toNat)).signExtend 64

/-- Entry `index` of a table. -/
def Table.entry (t : Table) (index : Nat) : U64 := t.base + entryOffset index t.size

/-! ### Header -/

/-- `IS_ELF(*elfHeader(e))`, which follows the handle without a check. -/
def elfIsElf (elf : Option Elf) : ElfProg Bool := do
  let _ ← deref elf
  allOf [do return (← ElfHeader.eIdent 0) = 0x7f,
    do return (← ElfHeader.eIdent 1) = 0x45,
    do return (← ElfHeader.eIdent 2) = 0x4c,
    do return (← ElfHeader.eIdent 3) = 0x46]

/-- `elfClass`, `elfEncoding`, `elfVersion` and `elfABI`: byte `k` of the header. -/
def elfIdentByte (elf : Option Elf) (k : U64) : ElfProg Byte :=
  match elf with
  | none => pure 0
  | some _ => ElfHeader.eIdent k

def elfClass (elf : Option Elf) : ElfProg Byte := elfIdentByte elf 4
def elfEncoding (elf : Option Elf) : ElfProg Byte := elfIdentByte elf 5
def elfVersion (elf : Option Elf) : ElfProg Byte := elfIdentByte elf 6
def elfABI (elf : Option Elf) : ElfProg Byte := elfIdentByte elf 7

/-! ### Sections -/

def elfSections (elf : Option Elf) : ElfProg (Option Table) :=
  match elf with
  | none => pure none
  | some _ => do
      if (← ElfHeader.eShoff) = 0 then
        return none
      let size ← ElfHeader.eShentsize
      let length ← ElfHeader.eShnum
      return some ⟨← ElfHeader.eShoff, size, length⟩

/-- The loop of `elfSection`, from the cursor on. -/
def elfSectionLoop (h : Table) (attr : ElfSectionAttribute) (value : U64) (n index : Nat) :
    ElfProg (Option (U64 × Nat)) :=
  Prog.findFrom (fun i => do
    let t := h.entry i
    if attr = .none then
      return some (t, i)
    if (← elfSectionAttribute t attr) = value then
      return some (t, i)
    return none) n index

def elfSection (elf : Option Elf) (index : U16) (attr : ElfSectionAttribute) (value : U64) :
    ElfProg (Option U64 × U16) := do
  match ← elfSections elf with
  | none => return (none, index)
  | some h =>
      match ← elfSectionLoop h attr value (h.length.toNat - index.toNat) index.toNat with
      | some (t, i) => return (some t, BitVec.ofNat 16 i)
      | none => return (none, if index < h.length then h.length else index)

/-- The section name table: its offset and its size. -/
def elfSectionStrings (elf : Option Elf) : ElfProg (U64 × U64) := do
  let _ ← deref elf
  let i ← ElfHeader.eShstrndx
  let s ← deref (← elfSection elf i .none 0).1
  let size ← ElfSection.shSize s
  return (← ElfSection.shOffset s, size)

/-! ### Segments -/

def elfSegments (elf : Option Elf) : ElfProg (Option Table) :=
  match elf with
  | none => pure none
  | some _ => do
      if (← ElfHeader.ePhoff) = 0 then
        return none
      let size ← ElfHeader.ePhentsize
      let length ← ElfHeader.ePhnum
      return some ⟨← ElfHeader.ePhoff, size, length⟩

/-- The loop of `elfSegment`, from the cursor on. -/
def elfSegmentLoop (h : Table) (attr : ElfSegmentAttribute) (value : U64) (n index : Nat) :
    ElfProg (Option (U64 × Nat)) :=
  Prog.findFrom (fun i => do
    let t := h.entry i
    if attr = .none then
      return some (t, i)
    if (← elfSegmentAttribute t attr) = value then
      return some (t, i)
    return none) n index

def elfSegment (elf : Option Elf) (index : U16) (attr : ElfSegmentAttribute) (value : U64) :
    ElfProg (Option U64 × U16) := do
  match ← elfSegments elf with
  | none => return (none, index)
  | some h =>
      match ← elfSegmentLoop h attr value (h.length.toNat - index.toNat) index.toNat with
      | some (t, i) => return (some t, BitVec.ofNat 16 i)
      | none => return (none, if index < h.length then h.length else index)

/-- The `while(1)` of `elfLargestAlignment`, with a bound on its iterations. -/
def elfLargestAlignmentLoop (elf : Option Elf) : Nat → U16 → U64 → ElfProg U64
  | 0, _, _ => Prog.raise .diverges
  | n + 1, index, alignment => do
      match ← elfSegment elf index .type (ptLoad.setWidth 64) with
      | (none, _) => return alignment
      | (some h, index) => do
          let align ← ElfSegment.pAlign h
          let alignment := if alignment < align ∧ align < 0x200000 then align else alignment
          elfLargestAlignmentLoop elf n (index + 1) alignment

/-- The cursor takes each of its 65536 values at most once. -/
def elfLargestAlignment (elf : Option Elf) : ElfProg U64 :=
  elfLargestAlignmentLoop elf 65536 0 0

/-- The running maximum of both loops of `elfMemorySize`. -/
def maxEnd (addr size : U64 → ElfProg U64) (t : Table) : ElfProg U64 :=
  Prog.foldFrom (fun index memorySize => do
    let s := t.entry index
    let a ← addr s
    let n ← size s
    return if memorySize < a + n then a + n else memorySize) t.length.toNat 0 0

def elfMemorySize (elf : Option Elf) : ElfProg U64 :=
  match elf with
  | none => pure 0
  | some _ => do
      match ← elfSegments elf with
      | some t => maxEnd ElfSegment.pPaddr ElfSegment.pMemsz t
      | none =>
          match ← elfSections elf with
          | none => return 0
          | some t => maxEnd ElfSection.shAddr ElfSection.shSize t

/-! ### Strings and named sections -/

/-- The inner loop of `elfStringToOffset`: does `str` stand at `mem + i`?  A C string is
the list of its bytes before the terminator, so `str[j]` past the list is `'\0'`. -/
def stringMatches (mem : U64) (str : List Byte) (i : Nat) : ElfProg Bool := do
  let found ← Prog.findFrom (fun j => do
    if (← fetch8 (mem + BitVec.ofNat 64 (i + j))) ≠ str.getD j 0 then
      return some false
    if str.getD j 0 = 0 then
      return some true
    return none) elfMaximalStringLength 0
  return found = some true

def elfStringToOffset (mem size : U64) (str : Option (List Byte)) : ElfProg U32 :=
  match str with
  | none => pure 0
  | some str => do
      let found ← Prog.findFrom (fun i => do
        if ← stringMatches mem str i then
          return some i
        return none) size.toNat 0
      return BitVec.ofNat 32 (found.getD 0)

def elfStringFromOffset (mem : Option U64) (size : U64) (offset : U32) : Option U64 :=
  match mem with
  | none => none
  | some mem => if size ≤ offset.setWidth 64 then none else some (mem + offset.setWidth 64)

/-- The terminators are counted in a `uint64_t`, and `size - 1` wraps for an empty table. -/
def elfStringFromIndex (mem : Option U64) (size : U64) (index : U32) : ElfProg (Option U64) :=
  match mem with
  | none => pure none
  | some mem =>
      if index = 0 then
        pure (some mem)
      else
        Prog.scanFrom (fun i (j : U64) => do
          if (← fetch8 (mem + BitVec.ofNat 64 i)) = 0 then
            if j + 1 = index.setWidth 64 then
              return .inl (mem + BitVec.ofNat 64 i + 1)
            return .inr (j + 1)
          return .inr j) (size - 1).toNat 0 0

/-- The same inner loop as `elfStringToOffset`, with the terminators counted on the way. -/
def elfStringToIndex (mem size : U64) (str : Option (List Byte)) : ElfProg U32 :=
  match str with
  | none => pure 0
  | some str => do
      let found ← Prog.scanFrom (fun i (index : U64) => do
        if ← stringMatches mem str i then
          return .inl index
        if (← fetch8 (mem + BitVec.ofNat 64 i)) = 0 then
          return .inr (index + 1)
        return .inr index) size.toNat 0 0
      return (found.getD 0).setWidth 32

def elfSectionByName (elf : Option Elf) (name : Option (List Byte)) : ElfProg (Option U64) := do
  let (mem, size) ← elfSectionStrings elf
  let offset ← elfStringToOffset mem size name
  return (← elfSection elf 0 .name (offset.setWidth 64)).1

/-- The common body of `elfAddendRelocations` and `elfSymbols`: the named section as a
table, if its type is accepted.  Stride and length are narrowed to `uint16_t`. -/
def elfNamedTable (accepts : U32 → Bool) (elf : Option Elf) (name : Option (List Byte)) :
    ElfProg (Option Table) := do
  match ← elfSectionByName elf name with
  | none => return none
  | some h => do
      if accepts (← ElfSection.shType h) = false then
        return none
      let size ← ElfSection.shEntsize h
      let bytes ← ElfSection.shSize h
      if size = 0 then
        Prog.raise .divisionByZero
      else do
        return some ⟨← ElfSection.shOffset h, size.setWidth 16, (bytes / size).setWidth 16⟩

def elfAddendRelocations (elf : Option Elf) (name : List Byte) : ElfProg (Option Table) :=
  elfNamedTable (fun type => type = shtRela) elf (some name)

def elfSymbols (elf : Option Elf) (name : List Byte) : ElfProg (Option Table) :=
  elfNamedTable (fun type => type = shtSymtab ∨ type = shtDynsym) elf (some name)

/-! ### Actions -/

end LibPS4
