/-
The dynamic table of `source/ps4/elfloader.c`.

The table has two descriptions.  A section of type `SHT_DYNAMIC` gives its stride and its
size; without one, a segment of type `PT_DYNAMIC` gives only where it starts, and the
entries are counted up to the first tag `DT_NULL`.  The count is a `uint16_t` that nothing
bounds.  Its pointer wraps after 2^60 entries of 16 bytes, so a table in which none of these
has the tag `DT_NULL` is counted forever.

A pointer into the file is an offset from `elf->data`, so the `NULL` that
`elfDynamicsLength` looks for does not occur.
-/
import LibPS4.Elf.Access

namespace LibPS4

open Effects

def shtDynamic : U32 := 6
def ptDynamic : U32 := 2
def dtNull : U64 := 0

/-- `sizeof(ElfDynamic)`. -/
def elfDynamicSize : Nat := 16

namespace ElfDynamic

@[simp] def dTag (d : U64) : ElfProg U64 := fetch64 d
@[simp] def dVal (d : U64) : ElfProg U64 := fetch64 (d + 8)
@[simp] def dPtr (d : U64) : ElfProg U64 := fetch64 (d + 8)

end ElfDynamic

inductive ElfDynamicAttribute
  | none | tag | value | pointer
  deriving DecidableEq, Repr

def elfDynamicAttribute (d : U64) : ElfDynamicAttribute → ElfProg U64
  | .tag => ElfDynamic.dTag d
  | .value => ElfDynamic.dVal d
  | .pointer => ElfDynamic.dPtr d
  | .none => pure 0

/-- One step of `elfDynamicsLength`: is `dyn[i]` the end of the table? -/
def endsAt (dyn : U64) (i : Nat) : ElfProg (Option Nat) := do
  if (← ElfDynamic.dTag (dyn + BitVec.ofNat 64 (i * elfDynamicSize))) = dtNull then
    return some i
  return none

def elfDynamicsLength (dyn : U64) : ElfProg U16 := do
  match ← Prog.findFrom (endsAt dyn) (2 ^ 60) 0 with
  | some i => return BitVec.ofNat 16 i
  | none => Prog.raise .diverges

def elfDynamics (elf : Option Elf) : ElfProg (Option Table) :=
  match elf with
  | none => pure none
  | some _ => do
      match (← elfSection elf 0 .type (shtDynamic.setWidth 64)).1 with
      | some h => do
          let size ← ElfSection.shEntsize h
          let bytes ← ElfSection.shSize h
          if size = 0 then
            Prog.raise .divisionByZero
          else do
            return some ⟨← ElfSection.shOffset h, size.setWidth 16, (bytes / size).setWidth 16⟩
      | none =>
          match (← elfSegment elf 0 .type (ptDynamic.setWidth 64)).1 with
          | some h2 => do
              let length ← elfDynamicsLength (← ElfSegment.pOffset h2)
              return some ⟨← ElfSegment.pOffset h2, BitVec.ofNat 16 elfDynamicSize, length⟩
          | none => return none

/-- The loop of `elfDynamic`, from the cursor on. -/
def elfDynamicLoop (h : Table) (attr : ElfDynamicAttribute) (value : U64) (n index : Nat) :
    ElfProg (Option (U64 × Nat)) :=
  Prog.findFrom (fun i => do
    let t := h.entry i
    if attr = .none then
      return some (t, i)
    if (← elfDynamicAttribute t attr) = value then
      return some (t, i)
    return none) n index

def elfDynamic (elf : Option Elf) (index : U16) (attr : ElfDynamicAttribute) (value : U64) :
    ElfProg (Option U64 × U16) := do
  match ← elfDynamics elf with
  | none => return (none, index)
  | some h =>
      match ← elfDynamicLoop h attr value (h.length.toNat - index.toNat) index.toNat with
      | some (t, i) => return (some t, BitVec.ofNat 16 i)
      | none => return (none, if index < h.length then h.length else index)

end LibPS4
