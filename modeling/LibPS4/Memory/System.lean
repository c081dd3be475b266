/-
What `namedmemory.c` calls: the allocator, and POSIX shared memory.

Objects live in one namespace that all processes share; descriptors, mappings and
allocations belong to a process.  All of these are tables that only grow, an entry is
marked when it is released, so that what a call hands out is fresh and what a program gives
back can be checked.  Giving back something that is not held, or not held any more, is
recorded as a misuse.

`perform` is one call, done at once.  The calls that may fail take a flag that says
whether they do.
-/
import LibPS4.Base.Bytes
import LibPS4.Base.Calls

namespace LibPS4

open Effects

/-! ### State -/

/-- A shared-memory object.  The contents count below `size`. -/
structure ShmObject where
  size : Nat
  contents : Nat → Byte

/-- Set the size; what is added reads as zero. -/
def ShmObject.truncate (n : Nat) (object : ShmObject) : ShmObject :=
  ⟨n, fun k => if k < object.size then object.contents k else 0⟩

/-- The objects, and the names of some of them. -/
structure Shm where
  objects : List ShmObject
  names : List Byte → Option Nat
  names_lt : ∀ name o, names name = some o → o < objects.length

def Shm.size (shm : Shm) (o : Nat) : Nat := (shm.objects[o]?.map ShmObject.size).getD 0

/-- A new object of size zero under a name. -/
def Shm.create (shm : Shm) (name : List Byte) : Shm where
  objects := shm.objects ++ [⟨0, fun _ => 0⟩]
  names := Function.update shm.names name (some shm.objects.length)
  names_lt := by
    intro name' o h
    rw [List.length_append, List.length_singleton]
    by_cases hname : name' = name
    · subst hname
      rw [Function.update_self] at h
      cases h
      omega
    · rw [Function.update_of_ne hname] at h
      have hlt := shm.names_lt name' o h
      omega

def Shm.truncate (shm : Shm) (o n : Nat) : Shm where
  objects := shm.objects.modify o (ShmObject.truncate n)
  names := shm.names
  names_lt := by
    intro name o' h
    rw [List.length_modify]
    exact shm.names_lt name o' h

def Shm.unlink (shm : Shm) (name : List Byte) : Shm where
  objects := shm.objects
  names := Function.update shm.names name none
  names_lt := by
    intro name' o h
    by_cases hname : name' = name
    · subst hname
      rw [Function.update_self] at h
      cases h
    · rw [Function.update_of_ne hname] at h
      exact shm.names_lt name' o h

structure Mapping where
  object : Nat
  length : Nat
  deriving DecidableEq, Repr

structure Process where
  /-- Allocations by address, true until they are freed. -/
  heap : List Bool
  /-- The objects descriptors stand for. -/
  descriptors : List (Option Nat)
  mappings : List (Option Mapping)
  misused : Bool
  deriving DecidableEq, Repr

/-- The object behind an open descriptor. -/
def Process.object (p : Process) (handle : Nat) : Option Nat := p.descriptors[handle]?.join

/-! ### Calls -/

inductive Call
  | malloc (size : Nat)
  | free (pointer : Nat)
  /-- With `O_CREAT | O_RDWR`. -/
  | shmOpen (path : List Byte)
  | fstat (handle : Nat)
  | ftruncate (handle : Nat) (length : U64)
  | mmap (length : U64) (handle : Nat)
  | munmap (address : Nat) (length : U64)
  | close (handle : Nat)
  | shmUnlink (path : List Byte)
  deriving DecidableEq, Repr

/-- What a call returns, with `none` for a failure. -/
abbrev Reply := Option Nat

def Process.free (p : Process) (pointer : Nat) : Process :=
  if p.heap[pointer]? = some true then { p with heap := p.heap.set pointer false }
  else { p with misused := true }

def Process.close (p : Process) (handle : Nat) : Process :=
  if (p.object handle).isSome then { p with descriptors := p.descriptors.set handle none }
  else { p with misused := true }

def Process.munmap (p : Process) (address : Nat) (length : U64) : Process :=
  match p.mappings[address]?.join with
  | some m =>
      if m.length = length.toNat then { p with mappings := p.mappings.set address none }
      else { p with misused := true }
  | none => { p with misused := true }

def perform (fails : Bool) : Call → Shm → Process → Reply × Shm × Process
  | .malloc _, shm, p =>
      if fails then (none, shm, p)
      else (some p.heap.length, shm, { p with heap := p.heap ++ [true] })
  | .free pointer, shm, p => (some 0, shm, p.free pointer)
  | .shmOpen path, shm, p =>
      if fails then (none, shm, p)
      else
        match shm.names path with
        | some o =>
            (some p.descriptors.length, shm, { p with descriptors := p.descriptors ++ [some o] })
        | none =>
            (some p.descriptors.length, shm.create path,
              { p with descriptors := p.descriptors ++ [some shm.objects.length] })
  | .fstat handle, shm, p =>
      if fails then (none, shm, p) else ((p.object handle).map shm.size, shm, p)
  | .ftruncate handle length, shm, p =>
      if fails then (none, shm, p)
      else
        match p.object handle with
        | some o => (some 0, shm.truncate o length.toNat, p)
        | none => (none, shm, p)
  | .mmap length handle, shm, p =>
      if fails then (none, shm, p)
      else
        match p.object handle with
        | some o =>
            (some p.mappings.length, shm,
              { p with mappings := p.mappings ++ [some ⟨o, length.toNat⟩] })
        | none => (none, shm, p)
  | .munmap address length, shm, p => (some 0, shm, p.munmap address length)
  | .close handle, shm, p => (some 0, shm, p.close handle)
  | .shmUnlink path, shm, p =>
      match shm.names path with
      | some _ => (some 0, shm.unlink path, p)
      | none => (none, shm, p)

/-! ### What the calls do -/

section Perform

variable {shm : Shm} {p : Process} {handle o : Nat}

@[simp] theorem perform_malloc (size : Nat) :
    perform false (.malloc size) shm p
      = (some p.heap.length, shm, { p with heap := p.heap ++ [true] }) := rfl

@[simp] theorem perform_malloc_fails (size : Nat) :
    perform true (.malloc size) shm p = (none, shm, p) := rfl

@[simp] theorem perform_free (fails : Bool) (pointer : Nat) :
    perform fails (.free pointer) shm p = (some 0, shm, p.free pointer) := rfl

@[simp] theorem perform_shmOpen_fails (path : List Byte) :
    perform true (.shmOpen path) shm p = (none, shm, p) := rfl

theorem perform_shmOpen_some {path : List Byte} (h : shm.names path = some o) :
    perform false (.shmOpen path) shm p
      = (some p.descriptors.length, shm, { p with descriptors := p.descriptors ++ [some o] }) := by
  simp only [perform, h]
  rfl

theorem perform_shmOpen_none {path : List Byte} (h : shm.names path = none) :
    perform false (.shmOpen path) shm p
      = (some p.descriptors.length, shm.create path,
          { p with descriptors := p.descriptors ++ [some shm.objects.length] }) := by
  simp only [perform, h]
  rfl

@[simp] theorem perform_fstat_fails :
    perform true (.fstat handle) shm p = (none, shm, p) := rfl

theorem perform_fstat (h : p.object handle = some o) :
    perform false (.fstat handle) shm p = (some (shm.size o), shm, p) := by
  simp only [perform, h]
  rfl

@[simp] theorem perform_ftruncate_fails (length : U64) :
    perform true (.ftruncate handle length) shm p = (none, shm, p) := rfl

theorem perform_ftruncate (length : U64) (h : p.object handle = some o) :
    perform false (.ftruncate handle length) shm p
      = (some 0, shm.truncate o length.toNat, p) := by
  simp only [perform, h]
  rfl

@[simp] theorem perform_mmap_fails (length : U64) :
    perform true (.mmap length handle) shm p = (none, shm, p) := rfl

theorem perform_mmap (length : U64) (h : p.object handle = some o) :
    perform false (.mmap length handle) shm p
      = (some p.mappings.length, shm,
          { p with mappings := p.mappings ++ [some ⟨o, length.toNat⟩] }) := by
  simp only [perform, h]
  rfl

@[simp] theorem perform_munmap (fails : Bool) (address : Nat) (length : U64) :
    perform fails (.munmap address length) shm p = (some 0, shm, p.munmap address length) := rfl

@[simp] theorem perform_close (fails : Bool) :
    perform fails (.close handle) shm p = (some 0, shm, p.close handle) := rfl

theorem perform_shmUnlink_some (fails : Bool) {path : List Byte} (h : shm.names path = some o) :
    perform fails (.shmUnlink path) shm p = (some 0, shm.unlink path, p) := by
  simp only [perform, h]

theorem perform_shmUnlink_none (fails : Bool) {path : List Byte} (h : shm.names path = none) :
    perform fails (.shmUnlink path) shm p = (none, shm, p) := by
  simp only [perform, h]

/-- The descriptor a process got last. -/
theorem object_append (p : Process) (o : Nat) :
    { p with descriptors := p.descriptors ++ [some o] }.object p.descriptors.length = some o := by
  unfold Process.object
  rw [List.getElem?_concat_length]
  rfl

@[simp] theorem mappings_free (p : Process) (pointer : Nat) :
    (p.free pointer).mappings = p.mappings := by
  unfold Process.free
  split <;> rfl

@[simp] theorem mappings_close (p : Process) (handle : Nat) :
    (p.close handle).mappings = p.mappings := by
  unfold Process.close
  split <;> rfl

theorem mem_mappings_munmap {p : Process} {address : Nat} {length : U64} {m : Mapping}
    (h : some m ∈ (p.munmap address length).mappings) : some m ∈ p.mappings := by
  unfold Process.munmap at h
  split at h
  · split at h
    · rcases List.mem_or_eq_of_mem_set h with h | h
      · exact h
      · cases h
    · exact h
  · exact h

end Perform

end LibPS4
