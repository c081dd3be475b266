/-
Protected memory, `source/ps4/protectedmemory.c`.

`ps4ProtectedMemoryCreate` obtains a record, two handles to one piece of memory and a
mapping of each, and gives the handles back.  The labels at its end are functions here, as
in `Memory/Named.lean`.

The two handles are locals without an initial value, so their first values are arguments
of the model.  The JIT calls report through them only: a call that fails leaves its handle
as it was, and what the code looks at afterwards is the handle.
-/
import LibPS4.Base.Bytes
import LibPS4.Base.Calls
import LibPS4.Base.Ledger

namespace LibPS4.ProtectedMemory

open Effects Calls

/-! ### Calls -/

/-- `PROT_READ`, `PROT_WRITE`, `PROT_EXEC`, `MAP_SHARED`, `MAP_PRIVATE` and `MAP_TYPE`. -/
def protRead : Nat := 0x01
def protWrite : Nat := 0x02
def protExec : Nat := 0x04
def mapShared : Nat := 0x0001
def mapPrivate : Nat := 0x0002
def mapType : Nat := 0x0f

inductive Call
  | malloc (size : Nat)
  | free (pointer : Int)
  | jitCreateSharedMemory (flags : Nat) (size : U64) (protection : Nat)
  | jitCreateAliasOfSharedMemory (handle : Int) (protection : Nat)
  | mmap (length : U64) (protection flags : Nat) (handle : Int)
  | munmap (address : Int) (length : U64)
  | close (handle : Int)
  deriving DecidableEq, Repr

/-- An address, or a handle that a JIT call has written; `none` for a failure. -/
abbrev Reply := Option Int

inductive Resource
  | record (pointer : Int)
  | handle (handle : Int)
  | mapping (address : Int) (length : U64)
  deriving DecidableEq, Repr

/-- One call with a given outcome.  What succeeds hands out what the outcome says. -/
def perform (outcome : Reply) (c : Call) (l : Ledger Resource) : Reply × Ledger Resource :=
  match c with
  | .malloc _ =>
      match outcome with
      | some pointer => (outcome, l.acquire (.record pointer))
      | none => (none, l)
  | .free pointer => (some 0, l.release (.record pointer))
  | .jitCreateSharedMemory _ _ _ | .jitCreateAliasOfSharedMemory _ _ =>
      match outcome with
      | some handle => (outcome, l.acquire (.handle handle))
      | none => (none, l)
  | .mmap length _ _ handle =>
      match outcome with
      | some address => (outcome, (l.use (.handle handle)).acquire (.mapping address length))
      | none => (none, l.use (.handle handle))
  | .munmap address length => (some 0, l.release (.mapping address length))
  | .close handle => (some 0, l.release (.handle handle))

/-- The outcomes of the five calls that may fail, in their order.  A handle or an address is
not handed out again while it is in use. -/
structure Outcomes where
  malloc : Reply
  createShared : Reply
  createAlias : Reply
  mapExecutable : Reply
  mapWritable : Reply
  handles_ne : ∀ handle, createShared = some handle → createAlias ≠ some handle
  addresses_ne : ∀ address, mapExecutable = some address → mapWritable ≠ some address

/-- The outcome of the `n`th call. -/
def Outcomes.choice (o : Outcomes) : Nat → Reply
  | 0 => o.malloc
  | 1 => o.createShared
  | 2 => o.createAlias
  | 3 => o.mapExecutable
  | 4 => o.mapWritable
  | _ => none

/-! ### The record -/

/-- With its own address. -/
structure PS4ProtectedMemory where
  memory : Int
  writable : Int
  executable : Int
  size : U64
  deriving DecidableEq, Repr

/-- `sizeof(PS4ProtectedMemory)` -/
def sizeofPS4ProtectedMemory : Nat := 24

/-- `memory->size`. -/
def protectedMemorySize (pageSize size : U64) : U64 := (size / pageSize + 1) * pageSize

/-! ### The labels -/

def freeandreturn (memory : Int) : Calls Call Reply (Option PS4ProtectedMemory) := do
  let _ ← ask (.free memory)
  pure none

def closee (memory executableHandle : Int) : Calls Call Reply (Option PS4ProtectedMemory) := do
  let _ ← ask (.close executableHandle)
  freeandreturn memory

def closew (memory executableHandle writableHandle : Int) :
    Calls Call Reply (Option PS4ProtectedMemory) := do
  let _ ← ask (.close writableHandle)
  closee memory executableHandle

def munmape (memory executableHandle writableHandle executable : Int) (size : U64) :
    Calls Call Reply (Option PS4ProtectedMemory) := do
  let _ ← ask (.munmap executable size)
  closew memory executableHandle writableHandle

/-! ### Creating -/

/-- From the first `mmap` on. -/
def createMapped (memory executableHandle writableHandle : Int) (size : U64) :
    Calls Call Reply (Option PS4ProtectedMemory) := do
  match ← ask (.mmap size (protRead ||| protExec) mapShared executableHandle) with
  | none => closew memory executableHandle writableHandle
  | some executable =>
      match ← ask (.mmap size (protRead ||| protWrite) (mapPrivate ||| mapType) writableHandle) with
      | none => munmape memory executableHandle writableHandle executable size
      | some writable =>
          let _ ← ask (.close executableHandle)
          let _ ← ask (.close writableHandle)
          pure (some ⟨memory, writable, executable, size⟩)

/-- From the second JIT call on; `writableHandle` is what the local holds before. -/
def createAlias (memory executableHandle writableHandle : Int) (size : U64) :
    Calls Call Reply (Option PS4ProtectedMemory) := do
  let r ← ask (.jitCreateAliasOfSharedMemory executableHandle (protRead ||| protWrite))
  let writableHandle := r.getD writableHandle
  if writableHandle = 0 then closee memory executableHandle
  else createMapped memory executableHandle writableHandle size

/-- From the first JIT call on. -/
def createShared (memory executableHandle writableHandle : Int) (size : U64) :
    Calls Call Reply (Option PS4ProtectedMemory) := do
  let r ← ask (.jitCreateSharedMemory 0 size (protRead ||| protWrite ||| protExec))
  let executableHandle := r.getD executableHandle
  if executableHandle = 0 then freeandreturn memory
  else createAlias memory executableHandle writableHandle size

/-- `sysconf` has answered `pageSize`; the locals hold whatever they hold. -/
def ps4ProtectedMemoryCreate (pageSize : U64) (executableHandle writableHandle : Int)
    (size : U64) : Calls Call Reply (Option PS4ProtectedMemory) :=
  if size = 0 then pure none
  else do
    match ← ask (.malloc sizeofPS4ProtectedMemory) with
    | none => pure none
    | some memory =>
        createShared memory executableHandle writableHandle (protectedMemorySize pageSize size)

/-! ### Destroying -/

/-- A call's `int`. -/
def Reply.int : Reply → U32
  | some _ => 0
  | none => -1

def ps4ProtectedMemoryDestroy : Option PS4ProtectedMemory → Calls Call Reply U32
  | none => pure (-1)
  | some memory => do
      let r ← ask (.munmap memory.writable memory.size)
      let r' ← ask (.munmap memory.executable memory.size)
      let _ ← ask (.free memory.memory)
      pure (Reply.int r ||| Reply.int r')

/-! ### Looking -/

def ps4ProtectedMemoryWritableAddress (memory : Option PS4ProtectedMemory) : Option Int :=
  memory.map PS4ProtectedMemory.writable

def ps4ProtectedMemoryExecutableAddress (memory : Option PS4ProtectedMemory) : Option Int :=
  memory.map PS4ProtectedMemory.executable

def ps4ProtectedMemorySize : Option PS4ProtectedMemory → U64
  | none => 0
  | some memory => memory.size

end LibPS4.ProtectedMemory
