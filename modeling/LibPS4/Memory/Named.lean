/-
Named memory, `source/ps4/namedmemory.c`.

`ps4NamedMemoryOpen` is one function with a chain of labels at its end, into which every
failure jumps at its own place.  The labels are functions here, `shmopen`, `freepath` and
`freeandreturn`, each of which does its own part and goes on with the next.  The part
between the calls is the size to map: what was asked for, or what is there already, in
whole pages.
-/
import LibPS4.Memory.System

namespace LibPS4

open Effects Calls

/-- A C string is the list of its bytes before the terminating zero. -/
def strnlen (s : List Byte) (maxlen : Nat) : Nat := min s.length maxlen

/-- The record, with its own address and the one of its path. -/
structure PS4NamedMemory where
  memory : Nat
  address : Nat
  size : U64
  path : List Byte
  pathPointer : Nat
  deriving DecidableEq, Repr

/-- `sizeof(PS4NamedMemory)` -/
def sizeofPS4NamedMemory : Nat := 24

/-- `memory->size`. -/
def namedMemorySize (pageSize size fileSize : U64) : U64 :=
  if size = 0 ∧ 0 < fileSize then ((fileSize - 1) / pageSize + 1) * pageSize
  else if size = 0 then pageSize
  else ((size - 1) / pageSize + 1) * pageSize

/-! ### The labels -/

def freeandreturn (memory : Nat) : Calls Call Reply (Option PS4NamedMemory) := do
  let _ ← ask (.free memory)
  pure none

def freepath (memory pathPointer : Nat) : Calls Call Reply (Option PS4NamedMemory) := do
  let _ ← ask (.free pathPointer)
  freeandreturn memory

def shmopen (memory pathPointer : Nat) (name : List Byte) (handle : Nat) :
    Calls Call Reply (Option PS4NamedMemory) := do
  let _ ← ask (.close handle)
  let _ ← ask (.shmUnlink name)
  freepath memory pathPointer

/-! ### Opening -/

/-- From `mmap` on. -/
def openMapped (memory pathPointer : Nat) (name : List Byte) (handle : Nat) (size : U64) :
    Calls Call Reply (Option PS4NamedMemory) := do
  match ← ask (.mmap size handle) with
  | none => shmopen memory pathPointer name handle
  | some address =>
      let _ ← ask (.close handle)
      pure (some ⟨memory, address, size, name, pathPointer⟩)

/-- From the check whether the object has to grow. -/
def openSized (memory pathPointer : Nat) (name : List Byte) (handle : Nat)
    (size fileSize : U64) : Calls Call Reply (Option PS4NamedMemory) :=
  if size > fileSize then do
    match ← ask (.ftruncate handle size) with
    | none => shmopen memory pathPointer name handle
    | some _ => openMapped memory pathPointer name handle size
  else
    openMapped memory pathPointer name handle size

/-- From `fstat` on. -/
def openHandle (pageSize : U64) (memory pathPointer : Nat) (name : List Byte) (size : U64)
    (handle : Nat) : Calls Call Reply (Option PS4NamedMemory) := do
  let st ← ask (.fstat handle)
  -- A failing `fstat` is taken for an empty object.
  let fileSize : U64 := match st with
    | some n => BitVec.ofNat 64 n
    | none => 0
  openSized memory pathPointer name handle (namedMemorySize pageSize size fileSize) fileSize

def ps4NamedMemoryOpen (pageSize : U64) (path : List Byte) (size : U64) :
    Calls Call Reply (Option PS4NamedMemory) := do
  let l := strnlen path 255
  match ← ask (.malloc sizeofPS4NamedMemory) with
  | none => pure none
  | some memory =>
      match ← ask (.malloc (l + 1)) with
      | none => freeandreturn memory
      | some pathPointer =>
          let name := path.take l
          match ← ask (.shmOpen path) with
          | none => freepath memory pathPointer
          | some handle => openHandle pageSize memory pathPointer name size handle

/-! ### Closing -/

/-- A call's `int`. -/
def Reply.int : Reply → U32
  | some _ => 0
  | none => -1

def ps4NamedMemoryClose : Option PS4NamedMemory → Calls Call Reply U32
  | none => pure (-1)
  | some memory => do
      let r ← ask (.munmap memory.address memory.size)
      let _ ← ask (.free memory.pathPointer)
      let _ ← ask (.free memory.memory)
      pure (Reply.int r)

def ps4NamedMemoryUnlink : Option PS4NamedMemory → Calls Call Reply U32
  | none => pure (-1)
  | some memory => do
      let r ← ask (.shmUnlink memory.path)
      let r' ← ps4NamedMemoryClose (some memory)
      pure (Reply.int r ||| r')

/-! ### Looking -/

def ps4NamedMemoryAddress (memory : Option PS4NamedMemory) : Option Nat :=
  memory.map PS4NamedMemory.address

def ps4NamedMemorySize : Option PS4NamedMemory → U64
  | none => 0
  | some memory => memory.size

end LibPS4
