/-
Small files, byte by byte.

The encoders that go with the decoders of `Elf/View.lean`: a file is the list of its
bytes, zero past the end.  They are what concrete inputs are written with.
-/
import LibPS4.Elf.View

namespace LibPS4

open Effects

/-- The `n` little-endian bytes of a number. -/
def leBytes : Nat → Nat → List Byte
  | 0, _ => []
  | n + 1, v => BitVec.ofNat 8 v :: leBytes n (v / 256)

/-- The file with these bytes. -/
def File.ofBytes (bytes : List Byte) : File := fun a => bytes.getD a.toNat 0

/-- The fields of the ELF header that the loader reads beyond its acceptance test. -/
structure Header where
  phoff : Nat
  shoff : Nat
  phentsize : Nat := 56
  phnum : Nat
  shentsize : Nat := 64
  shnum : Nat
  shstrndx : Nat := 0

/-- The 64 bytes of a header the loader accepts, if both table offsets are set. -/
def Header.bytes (h : Header) : List Byte :=
  [0x7f, 0x45, 0x4c, 0x46, 2, 1, 1, 9] ++ leBytes 8 0 ++ leBytes 2 3 ++ leBytes 2 62 ++
    leBytes 4 1 ++ leBytes 8 0 ++ leBytes 8 h.phoff ++ leBytes 8 h.shoff ++ leBytes 4 0 ++
    leBytes 2 64 ++ leBytes 2 h.phentsize ++ leBytes 2 h.phnum ++ leBytes 2 h.shentsize ++
    leBytes 2 h.shnum ++ leBytes 2 h.shstrndx

def Segment.bytes (s : Segment) : List Byte :=
  leBytes 4 s.type.toNat ++ leBytes 4 s.flags.toNat ++ leBytes 8 s.offset.toNat ++
    leBytes 8 s.vaddr.toNat ++ leBytes 8 s.paddr.toNat ++ leBytes 8 s.filesz.toNat ++
    leBytes 8 s.memsz.toNat ++ leBytes 8 s.align.toNat

def Section.bytes (s : Section) : List Byte :=
  leBytes 4 s.name.toNat ++ leBytes 4 s.type.toNat ++ leBytes 8 s.flags.toNat ++
    leBytes 8 s.addr.toNat ++ leBytes 8 s.offset.toNat ++ leBytes 8 s.size.toNat ++
    leBytes 4 0 ++ leBytes 4 0 ++ leBytes 8 0 ++ leBytes 8 s.entsize.toNat

def Rela.bytes (r : Rela) : List Byte :=
  leBytes 8 r.offset.toNat ++ leBytes 8 r.info.toNat ++ leBytes 8 r.addend.toNat

/-- A section to be laid out: its name, its header as far as it is not a matter of layout,
and its contents. -/
structure NamedSection where
  name : List Byte
  type : U32
  flags : U64 := 0
  addr : U64 := 0
  size : Nat
  entsize : U64 := 0
  contents : List Byte

/-- The headers of some sections, given where their names and their contents go. -/
def layOut : List NamedSection → (name offset : Nat) → List Section
  | [], _, _ => []
  | s :: rest, name, offset =>
      ⟨BitVec.ofNat 32 name, s.type, s.flags, s.addr, BitVec.ofNat 64 offset,
        BitVec.ofNat 64 s.size, s.entsize⟩ ::
        layOut rest (name + s.name.length + 1) (offset + s.contents.length)

/-- `".shstrtab"`. -/
def shstrtabName : List Byte := [0x2e, 0x73, 0x68, 0x73, 0x74, 0x72, 0x74, 0x61, 0x62]

/-- A loadable file with these program headers and, between the null section and the
section name table, these sections. -/
def fileBytes (segments : List Segment) (sections : List NamedSection) : List Byte :=
  let strings := 0 :: sections.flatMap (fun s => s.name ++ [0]) ++ shstrtabName ++ [0]
  let shoff := 64 + 56 * segments.length
  let names := shoff + 64 * (sections.length + 2)
  let header : Header :=
    { phoff := 64, shoff := shoff, phnum := segments.length, shnum := sections.length + 2,
      shstrndx := sections.length + 1 }
  let nameTable : NamedSection :=
    { name := shstrtabName, type := 3, size := strings.length, contents := [] }
  header.bytes ++ segments.flatMap Segment.bytes ++
    (⟨0, 0, 0, 0, 0, 0, 0⟩ : Section).bytes ++
    (layOut sections 1 (names + strings.length)).flatMap Section.bytes ++
    (layOut [nameTable] (strings.length - 10) names).flatMap Section.bytes ++
    strings ++ sections.flatMap NamedSection.contents

/-- A `.rela.dyn` section of `size` bytes that starts with these entries. -/
def relaDyn (size : Nat) (relas : List Rela) : NamedSection :=
  { name := relaDynName, type := shtRela, size := size, entsize := 24,
    contents := relas.flatMap Rela.bytes }

/-- A `.dynsym` section with symbols of these values. -/
def dynsym (values : List U64) : NamedSection :=
  { name := dynsymName, type := shtDynsym, size := 24 * values.length, entsize := 24,
    contents := values.flatMap fun v => leBytes 8 0 ++ leBytes 8 v.toNat ++ leBytes 8 0 }

end LibPS4
