/-
The dynamic table of an image that is already in memory, `source/ps4/elfloader.c`.

`elfLoadedDynamics` is for an image that somebody else has loaded.  The headers are read
where the image stands; the table is not looked for there, but at the address the program
header has for it, which is absolute.  So the programs here read memory, and those of
`Elf/Access.lean`, which read a file, are run in place.

The pointers into the image are still offsets from `elf->data` and never `NULL`; the one to
the table is an address of its own, and may be.
-/
import LibPS4.Base.Rename
import LibPS4.Elf.Dynamic

namespace LibPS4

open Effects

/-- A program over a file, where the file stands in memory at `data`. -/
def inPlace {α : Type} (data : U64) (p : ElfProg α) : ElfProg α := p.mapFetch (data + ·)

/-- `elfDynamicsLength`, on a pointer that may be `NULL`. -/
def elfLoadedDynamicsLength (dyn : U64) : ElfProg U16 :=
  if dyn = 0 then pure 0 else elfDynamicsLength dyn

/-- A table at `NULL` is none to the caller. -/
def elfLoadedDynamics (data : U64) (elf : Option Elf) : ElfProg (Option Table) :=
  match elf with
  | none => pure none
  | some _ => do
      match (← inPlace data (elfSegment elf 0 .type (ptDynamic.setWidth 64))).1 with
      | some h2 => do
          let dyn ← inPlace data (ElfSegment.pVaddr h2)
          let length ← elfLoadedDynamicsLength dyn
          return if dyn = 0 then none else some ⟨dyn, BitVec.ofNat 16 elfDynamicSize, length⟩
      | none => return none

def elfLoadedDynamic (data : U64) (elf : Option Elf) (index : U16) (attr : ElfDynamicAttribute)
    (value : U64) : ElfProg (Option U64 × U16) := do
  match ← elfLoadedDynamics data elf with
  | none => return (none, index)
  | some h =>
      match ← elfDynamicLoop h attr value (h.length.toNat - index.toNat) index.toNat with
      | some (t, i) => return (some t, BitVec.ofNat 16 i)
      | none => return (none, if index < h.length then h.length else index)

/-- `elfCreateLocalUnchecked` on a place for the record and a buffer of `size` bytes. -/
def elfCreateLocalUnchecked (elflIsNull dataIsNull : Bool) (size : U64) : Option Elf :=
  if elflIsNull || dataIsNull then none else some ⟨size⟩

end LibPS4
