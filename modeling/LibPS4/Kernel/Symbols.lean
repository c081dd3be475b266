/-
The symbol lookup of `source/ps4/kernel.c`.

`ps4KernelDlSym` walks the kernel's symbol table in place and compares the name asked for
with the string each entry points at.  Nothing says how long the table is: the walk ends
where the string table begins, which is expected right behind it.  Both loops are over the
kernel's memory, so a program here reads at absolute addresses.

The comparison counts in an `int`.  Counting past its largest value is undefined, and is a
fault here.  The pointer of the walk is back where it started after 2^61 entries.
-/
import LibPS4.Stub.Resolve

namespace LibPS4

open Effects

/-- How the lookup can stop without returning. -/
inductive KernelFault
  | signedOverflow
  | diverges
  deriving DecidableEq, Repr

abbrev KernelProg (α : Type) := ByteProg KernelFault α

/-- The statics `ps4KernelInternalInitialized`, `ps4KernelElfSymbols` and
`ps4KernelElfStrings`. -/
structure PS4KernelStatics where
  initialized : Bool
  elfSymbols : U64
  elfStrings : U64
  deriving DecidableEq, Repr

namespace KernelSymbol

/-- `sizeof(ElfSymbol)`. -/
def size : Nat := 24

@[simp] def stName (s : U64) : KernelProg U32 := fetch32 s
@[simp] def stValue (s : U64) : KernelProg U64 := fetch64 (s + 8)

end KernelSymbol

/-- One step of the inner loop, which goes on while `n[j] == name[j] && n[j] != 0`. -/
def partsAt (n name : U64) (j : Nat) : KernelProg (Option Nat) := do
  if (← fetch8 (n + BitVec.ofNat 64 j)) ≠ (← fetch8 (name + BitVec.ofNat 64 j)) then
    return some j
  if (← fetch8 (n + BitVec.ofNat 64 j)) = 0 then
    return some j
  return none

/-- `j` after the inner loop. -/
def commonLength (n name : U64) : KernelProg Nat := do
  match ← Prog.findFrom (partsAt n name) (2 ^ 31) 0 with
  | some j => return j
  | none => Prog.raise .signedOverflow

/-- `j > 0 && n[j] == '\0' && name[j] == '\0'`. -/
def endsBoth (n name : U64) (j : Nat) : KernelProg Bool :=
  if j = 0 then
    return false
  else do
    if (← fetch8 (n + BitVec.ofNat 64 j)) ≠ 0 then
      return false
    return (← fetch8 (name + BitVec.ofNat 64 j)) = 0

/-- One round of the walk, at entry `i`: the loop's end, or what the entry answers. -/
def symbolAt (k : PS4KernelStatics) (name : U64) (i : Nat) : KernelProg (Option U64) :=
  let symbol := k.elfSymbols + BitVec.ofNat 64 (KernelSymbol.size * i)
  if symbol + BitVec.ofNat 64 KernelSymbol.size < k.elfStrings then do
    let n := k.elfStrings + (← KernelSymbol.stName symbol).setWidth 64
    let j ← commonLength n name
    if ← endsBoth n name j then
      return some (← KernelSymbol.stValue symbol)
    return none
  else
    return some 0

/-- From the loop on. -/
def kernelSymbols (k : PS4KernelStatics) (name : U64) : KernelProg U64 := do
  match ← Prog.findFrom (symbolAt k name) (2 ^ 61) 0 with
  | some value => return value
  | none => Prog.raise .diverges

/-- On the stack `sp`.  `runMain` is `argv[0]` after `ps4KernelRunMain` has run
`ps4KernelDlSymWrapper` on the name in the kernel, `internalInitialize`
is `ps4KernelInternalInitialize`. -/
def ps4KernelDlSym (runMain : U64 → KernelProg U64)
    (internalInitialize : PS4KernelStatics → KernelProg PS4KernelStatics) (sp : U64)
    (k : PS4KernelStatics) (name : U64) : KernelProg U64 :=
  if ps4KernelIsInKernel sp = false then
    runMain name
  else do
    let k ← if k.initialized then pure k else internalInitialize k
    kernelSymbols k name

end LibPS4
