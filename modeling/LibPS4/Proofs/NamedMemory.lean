/-
One client opening and unlinking a named memory, with calls that may fail.

`openAlone_eq` says what `ps4NamedMemoryOpen` does for every pattern of failures.  What it
does to the shared memory is right as long as nothing fails after `shm_open`; from there
on every failure unlinks a name, whoever made the object, and the name is the copy of the
path that was kept for later, of at most 255 bytes.  What it does to the process is right
always.
-/
import LibPS4.Memory.Named
import LibPS4.Proofs.Interleavings

namespace LibPS4

open Effects Calls

/-! ### Running alone -/

/-- The calls of a single client. -/
def performIn (fails : Bool) (c : Call) (s : Shm × Process) : Reply × Shm × Process :=
  perform fails c s.1 s.2

/-- `ps4NamedMemoryOpen` when the `n`th call fails or not as `fails n` says. -/
def openAlone (pageSize : U64) (path : List Byte) (size : U64) (fails : Nat → Bool) (shm : Shm)
    (p : Process) : Option PS4NamedMemory × Shm × Process :=
  (ps4NamedMemoryOpen pageSize path size).run performIn fails (shm, p)

def unlinkAlone (memory : PS4NamedMemory) (fails : Nat → Bool) (shm : Shm) (p : Process) :
    U32 × Shm × Process :=
  (ps4NamedMemoryUnlink (some memory)).run performIn fails (shm, p)

/-- The object behind a name, made if need be. -/
def Shm.attach (shm : Shm) (path : List Byte) : Shm × Nat :=
  match shm.names path with
  | some o => (shm, o)
  | none => (shm.create path, shm.objects.length)

theorem perform_shmOpen (shm : Shm) (p : Process) (path : List Byte) :
    perform false (.shmOpen path) shm p
      = (some p.descriptors.length, (shm.attach path).1,
          { p with descriptors := p.descriptors ++ [some (shm.attach path).2] }) := by
  unfold Shm.attach
  cases h : shm.names path with
  | some o => exact perform_shmOpen_some h
  | none => exact perform_shmOpen_none h

theorem unlink_eq_self {shm : Shm} {name : List Byte} (h : shm.names name = none) :
    shm.unlink name = shm := by
  have hnames : Function.update shm.names name none = shm.names := by
    rw [← h, Function.update_eq_self]
  cases shm
  simp only [Shm.unlink, Shm.mk.injEq, true_and]
  exact hnames

theorem perform_shmUnlink (fails : Bool) (shm : Shm) (p : Process) (name : List Byte) :
    (perform fails (.shmUnlink name) shm p).2 = (shm.unlink name, p) := by
  cases h : shm.names name with
  | some o => rw [perform_shmUnlink_some fails h]
  | none => rw [perform_shmUnlink_none fails h, unlink_eq_self h]

/-! ### Giving back -/

section Release

variable {p : Process}

/-- What was allocated is freed. -/
theorem free_at {before after : List Bool} (h : p.heap = before ++ true :: after) :
    p.free before.length = { p with heap := before ++ false :: after } := by
  have hlive : p.heap[before.length]? = some true := by
    rw [h, List.getElem?_append_right (Nat.le_refl _), Nat.sub_self]
    rfl
  unfold Process.free
  rw [if_pos hlive, h, List.set_append_right _ _ (Nat.le_refl _), Nat.sub_self]
  rfl

theorem close_at {before after : List (Option Nat)} {o : Nat}
    (h : p.descriptors = before ++ some o :: after) :
    p.close before.length = { p with descriptors := before ++ none :: after } := by
  have hopen : p.object before.length = some o := by
    unfold Process.object
    rw [h, List.getElem?_append_right (Nat.le_refl _), Nat.sub_self]
    rfl
  unfold Process.close
  rw [if_pos (by rw [hopen]; rfl), h, List.set_append_right _ _ (Nat.le_refl _), Nat.sub_self]
  rfl

end Release

/-- A process that holds what another does: nothing was kept and nothing given back that
was not its own. -/
structure HoldsSame (p p' : Process) : Prop where
  heap : ∀ a : Nat, p'.heap[a]? = some true ↔ p.heap[a]? = some true
  descriptors : ∀ handle, p'.object handle = p.object handle
  mappings : p'.mappings = p.mappings
  misused : p'.misused = p.misused

namespace Process

variable (p : Process)

/-- After two allocations and with a descriptor of an object. -/
def holding (o : Nat) : Process :=
  { p with heap := p.heap ++ [true] ++ [true], descriptors := p.descriptors ++ [some o] }

/-- The same with all of it given back. -/
def released : Process :=
  { p with heap := p.heap ++ [false, false], descriptors := p.descriptors ++ [none] }

/-- With the two allocations and a mapping. -/
def mapped (o length : Nat) : Process :=
  { p with
    heap := p.heap ++ [true] ++ [true]
    descriptors := p.descriptors ++ [none]
    mappings := p.mappings ++ [some ⟨o, length⟩] }

theorem object_holding (o : Nat) : (p.holding o).object p.descriptors.length = some o := by
  unfold Process.object holding
  rw [List.getElem?_concat_length]
  rfl

theorem release_holding (o : Nat) :
    (((p.holding o).close p.descriptors.length).free (p.heap ++ [true]).length).free p.heap.length
      = p.released := by
  have hclose : (p.holding o).close p.descriptors.length
      = { p.holding o with descriptors := p.descriptors ++ [none] } := close_at rfl
  have hpath : ({ p.holding o with descriptors := p.descriptors ++ [none] } : Process).free
      (p.heap ++ [true]).length
      = { p.holding o with
          heap := p.heap ++ [true] ++ [false]
          descriptors := p.descriptors ++ [none] } := free_at rfl
  rw [hclose, hpath]
  exact free_at (List.append_assoc _ _ _)

theorem close_mapped (o length : Nat) :
    ({ p.holding o with mappings := p.mappings ++ [some ⟨o, length⟩] } : Process).close
      p.descriptors.length = p.mapped o length :=
  close_at rfl

/-- Entries that are given back do not count. -/
theorem holdsSame_append (heap : List Bool) (descriptors : List (Option Nat))
    (hheap : ∀ b ∈ heap, b = false) (hdescriptors : ∀ d ∈ descriptors, d = none) :
    HoldsSame p { p with heap := p.heap ++ heap, descriptors := p.descriptors ++ descriptors } := by
  refine ⟨fun a => ?_, fun handle => ?_, rfl, rfl⟩
  · show (p.heap ++ heap)[a]? = some true ↔ _
    by_cases ha : a < p.heap.length
    · rw [List.getElem?_append_left ha]
    · rw [List.getElem?_append_right (by omega),
        List.getElem?_eq_none (show p.heap.length ≤ a by omega)]
      refine iff_of_false (fun h => ?_) (fun h => (nomatch h))
      cases hheap true (List.mem_of_getElem? h)
  · show (p.descriptors ++ descriptors)[handle]?.join = p.descriptors[handle]?.join
    by_cases hh : handle < p.descriptors.length
    · rw [List.getElem?_append_left hh]
    · rw [List.getElem?_append_right (by omega),
        List.getElem?_eq_none (show p.descriptors.length ≤ handle by omega)]
      cases hd : descriptors[handle - p.descriptors.length]? with
      | none => rfl
      | some d =>
          rw [hdescriptors d (List.mem_of_getElem? hd)]
          rfl

theorem holdsSame_released : HoldsSame p p.released :=
  p.holdsSame_append [false, false] [none] (by simp) (by simp)

end Process

/-! ### What an open does -/

section Spec

variable (shm : Shm) (p : Process) (o : Nat) (name : List Byte) (fails : Nat → Bool)

theorem run_shmopen :
    (shmopen p.heap.length (p.heap ++ [true]).length name p.descriptors.length).run performIn fails
        (shm, p.holding o)
      = (none, shm.unlink name, p.released) := by
  have hunlink := perform_shmUnlink (fails 1) shm ((p.holding o).close p.descriptors.length) name
  show (none,
      (perform (fails 1) (.shmUnlink name) shm ((p.holding o).close p.descriptors.length)).2.1,
      ((perform (fails 1) (.shmUnlink name) shm ((p.holding o).close p.descriptors.length)).2.2.free
        (p.heap ++ [true]).length).free p.heap.length) = _
  rw [hunlink, p.release_holding o]

theorem run_openMapped (size : U64) :
    (openMapped p.heap.length (p.heap ++ [true]).length name p.descriptors.length size).run
        performIn fails (shm, p.holding o)
      = if fails 0 then (none, shm.unlink name, p.released)
        else (some ⟨p.heap.length, p.mappings.length, size, name, (p.heap ++ [true]).length⟩, shm,
          p.mapped o size.toNat) := by
  unfold openMapped
  rw [ask_bind, run_call]
  cases fails 0 with
  | true => exact run_shmopen shm p o name _
  | false =>
      have hmmap : performIn false (.mmap size p.descriptors.length) (shm, p.holding o)
          = (some p.mappings.length, shm,
              { p.holding o with mappings := p.mappings ++ [some ⟨o, size.toNat⟩] }) :=
        perform_mmap size (p.object_holding o)
      rw [hmmap]
      show (some _, shm, ({ p.holding o with mappings := _ } : Process).close _) = _
      rw [p.close_mapped]
      rfl

theorem run_openSized (size fileSize : U64) :
    (openSized p.heap.length (p.heap ++ [true]).length name p.descriptors.length size
        fileSize).run performIn fails (shm, p.holding o)
      = if size > fileSize then
          if fails 0 then (none, shm.unlink name, p.released)
          else if fails 1 then (none, (shm.truncate o size.toNat).unlink name, p.released)
          else (some ⟨p.heap.length, p.mappings.length, size, name, (p.heap ++ [true]).length⟩,
            shm.truncate o size.toNat, p.mapped o size.toNat)
        else if fails 0 then (none, shm.unlink name, p.released)
        else (some ⟨p.heap.length, p.mappings.length, size, name, (p.heap ++ [true]).length⟩, shm,
          p.mapped o size.toNat) := by
  unfold openSized
  by_cases hlt : size > fileSize
  · rw [if_pos hlt, if_pos hlt, ask_bind, run_call]
    cases fails 0 with
    | true => exact run_shmopen shm p o name _
    | false =>
        have htruncate : performIn false (.ftruncate p.descriptors.length size) (shm, p.holding o)
            = (some 0, shm.truncate o size.toNat, p.holding o) :=
          perform_ftruncate size (p.object_holding o)
        rw [htruncate]
        exact run_openMapped (shm.truncate o size.toNat) p o name _ size
  · rw [if_neg hlt, if_neg hlt]
    exact run_openMapped shm p o name fails size

end Spec

/-- The name that is kept. -/
theorem take_strnlen (path : List Byte) (n : Nat) : path.take (strnlen path n) = path.take n := by
  unfold strnlen
  rcases Nat.le_total path.length n with h | h
  · rw [Nat.min_eq_left h, List.take_length, List.take_of_length_le h]
  · rw [Nat.min_eq_right h]

section Open

variable (pageSize : U64) (path : List Byte) (size : U64) (fails : Nat → Bool) (shm : Shm)
  (p : Process)

/-- The size an object is taken to have. -/
def seenSize : U64 :=
  if fails 3 then 0 else BitVec.ofNat 64 ((shm.attach path).1.size (shm.attach path).2)

/-- The size that is mapped. -/
def wantedSize : U64 := namedMemorySize pageSize size (seenSize path fails shm)

/-- An early failure: there is no descriptor yet. -/
def FailsEarly : Prop := fails 0 = true ∨ fails 1 = true ∨ fails 2 = true

/-- The object is given a new size. -/
def Resized : Prop :=
  wantedSize pageSize path size fails shm > seenSize path fails shm ∧ fails 4 = false

instance : Decidable (Resized pageSize path size fails shm) :=
  inferInstanceAs (Decidable (_ ∧ _))

/-- A failure after `shm_open`: of `ftruncate`, if there is something to do for it, or of
`mmap`. -/
def FailsLate : Prop :=
  ¬ FailsEarly fails ∧
    if wantedSize pageSize path size fails shm > seenSize path fails shm then
      fails 4 = true ∨ fails 5 = true
    else fails 4 = true

/-- The shared memory when the object has the size it is given. -/
def sizedShm : Shm :=
  if Resized pageSize path size fails shm then
    (shm.attach path).1.truncate (shm.attach path).2
      (wantedSize pageSize path size fails shm).toNat
  else (shm.attach path).1

section Steps

variable {fails}

/-- Past the two allocations. -/
theorem openAlone_allocated (h0 : fails 0 = false) (h1 : fails 1 = false) :
    openAlone pageSize path size fails shm p
      = (call (.shmOpen path) fun r => match r with
          | none => freepath p.heap.length (p.heap ++ [true]).length
          | some handle =>
              openHandle pageSize p.heap.length (p.heap ++ [true]).length
                (path.take (strnlen path 255)) size handle :
          Calls Call Reply (Option PS4NamedMemory)).run performIn (fun n => fails (n + 2))
          (shm, { p with heap := p.heap ++ [true] ++ [true] }) := by
  have hmemory : performIn (fails 0) (.malloc sizeofPS4NamedMemory) (shm, p)
      = (some p.heap.length, shm, { p with heap := p.heap ++ [true] }) := by
    rw [h0]
    rfl
  have hpath : performIn (fails 1) (.malloc (strnlen path 255 + 1))
      (shm, { p with heap := p.heap ++ [true] })
      = (some (p.heap ++ [true]).length, shm, { p with heap := p.heap ++ [true] ++ [true] }) := by
    rw [h1]
    rfl
  unfold openAlone ps4NamedMemoryOpen
  rw [ask_bind, run_call, hmemory]
  dsimp only
  rw [ask_bind, run_call, hpath]
  rfl

/-- Past `shm_open`. -/
theorem openAlone_opened (h0 : fails 0 = false) (h1 : fails 1 = false) (h2 : fails 2 = false) :
    openAlone pageSize path size fails shm p
      = (openHandle pageSize p.heap.length (p.heap ++ [true]).length (path.take 255) size
          p.descriptors.length).run performIn (fun n => fails (n + 3))
          ((shm.attach path).1, p.holding (shm.attach path).2) := by
  have hopen : performIn (fails 2) (.shmOpen path)
      (shm, { p with heap := p.heap ++ [true] ++ [true] })
      = (some p.descriptors.length, (shm.attach path).1, p.holding (shm.attach path).2) := by
    rw [h2]
    exact perform_shmOpen shm _ path
  rw [openAlone_allocated pageSize path size shm p h0 h1, run_call, take_strnlen]
  rw [hopen]

theorem openAlone_early (h : FailsEarly fails) :
    ∃ p', openAlone pageSize path size fails shm p = (none, shm, p') ∧ HoldsSame p p' := by
  cases h0 : fails 0 with
  | true =>
      have hsame := p.holdsSame_append [] [] (by simp) (by simp)
      rw [List.append_nil, List.append_nil] at hsame
      refine ⟨p, ?_, hsame⟩
      unfold openAlone ps4NamedMemoryOpen
      rw [ask_bind, run_call, h0]
      rfl
  | false =>
      cases h1 : fails 1 with
      | true =>
          have hsame := p.holdsSame_append [false] [] (by simp) (by simp)
          rw [List.append_nil] at hsame
          refine ⟨{ p with heap := p.heap ++ [false] }, ?_, hsame⟩
          have hfree : ({ p with heap := p.heap ++ [true] } : Process).free p.heap.length
              = { p with heap := p.heap ++ [false] } := free_at rfl
          rw [← hfree]
          unfold openAlone ps4NamedMemoryOpen
          rw [ask_bind, run_call, h0]
          show run performIn (call _ _) (fun n => fails (n + 1)) _ = _
          rw [run_call, h1]
          rfl
      | false =>
          have h2 : fails 2 = true := by
            rcases h with h | h | h
            · exact absurd h (by rw [h0]; decide)
            · exact absurd h (by rw [h1]; decide)
            · exact h
          have hsame := p.holdsSame_append [false, false] [] (by simp) (by simp)
          rw [List.append_nil] at hsame
          refine ⟨{ p with heap := p.heap ++ [false, false] }, ?_, hsame⟩
          have hpath : ({ p with heap := p.heap ++ [true] ++ [true] } : Process).free
              (p.heap ++ [true]).length = { p with heap := p.heap ++ [true] ++ [false] } :=
            free_at rfl
          have hmemory : ({ p with heap := p.heap ++ [true] ++ [false] } : Process).free
              p.heap.length = { p with heap := p.heap ++ [false, false] } :=
            free_at (List.append_assoc _ _ _)
          rw [openAlone_allocated pageSize path size shm p h0 h1, run_call, h2, ← hmemory, ← hpath]
          rfl

/-- Past `fstat`. -/
theorem openAlone_seen (h : ¬ FailsEarly fails) :
    openAlone pageSize path size fails shm p
      = (openSized p.heap.length (p.heap ++ [true]).length (path.take 255) p.descriptors.length
          (wantedSize pageSize path size fails shm) (seenSize path fails shm)).run performIn
          (fun n => fails (n + 4)) ((shm.attach path).1, p.holding (shm.attach path).2) := by
  have h0 : fails 0 = false := by
    rw [← Bool.not_eq_true]
    exact fun hc => h (.inl hc)
  have h1 : fails 1 = false := by
    rw [← Bool.not_eq_true]
    exact fun hc => h (.inr (.inl hc))
  have h2 : fails 2 = false := by
    rw [← Bool.not_eq_true]
    exact fun hc => h (.inr (.inr hc))
  rw [openAlone_opened pageSize path size shm p h0 h1 h2]
  unfold openHandle wantedSize seenSize
  rw [ask_bind, run_call]
  cases h3 : fails 3 with
  | true => rfl
  | false =>
      have hstat : performIn false (.fstat p.descriptors.length)
          ((shm.attach path).1, p.holding (shm.attach path).2)
          = (some ((shm.attach path).1.size (shm.attach path).2), (shm.attach path).1,
              p.holding (shm.attach path).2) :=
        perform_fstat (p.object_holding _)
      rw [hstat]
      rfl

/-- **A late failure.** -/
theorem openAlone_late (h : FailsLate pageSize path size fails shm) :
    openAlone pageSize path size fails shm p
      = (none, (sizedShm pageSize path size fails shm).unlink (path.take 255), p.released) := by
  obtain ⟨hearly, hlate⟩ := h
  rw [openAlone_seen pageSize path size shm p hearly, run_openSized]
  by_cases hlt : wantedSize pageSize path size fails shm > seenSize path fails shm
  · rw [if_pos hlt] at hlate ⊢
    by_cases h4 : fails 4 = true
    · have hkept : ¬ Resized pageSize path size fails shm := fun hc =>
        Bool.noConfusion (h4.symm.trans hc.2)
      rw [if_pos (by exact h4), sizedShm, if_neg hkept]
    · have hsized : Resized pageSize path size fails shm := ⟨hlt, Bool.not_eq_true _ ▸ h4⟩
      have h5 : fails 5 = true := hlate.resolve_left h4
      rw [if_neg (by exact h4), if_pos (by exact h5), sizedShm, if_pos hsized]
  · rw [if_neg hlt] at hlate ⊢
    rw [if_pos (by exact hlate), sizedShm, if_neg fun hc => hlt hc.1]

/-- **No failure.** -/
theorem openAlone_ok (hearly : ¬ FailsEarly fails)
    (hlate : ¬ FailsLate pageSize path size fails shm) :
    openAlone pageSize path size fails shm p
      = (some ⟨p.heap.length, p.mappings.length, wantedSize pageSize path size fails shm,
            path.take 255, (p.heap ++ [true]).length⟩,
          sizedShm pageSize path size fails shm,
          p.mapped (shm.attach path).2 (wantedSize pageSize path size fails shm).toNat) := by
  have hlate' := fun hc => hlate ⟨hearly, hc⟩
  rw [openAlone_seen pageSize path size shm p hearly, run_openSized]
  by_cases hlt : wantedSize pageSize path size fails shm > seenSize path fails shm
  · rw [if_pos hlt] at hlate' ⊢
    have h4 : ¬ fails 4 = true := fun hc => hlate' (.inl hc)
    have h5 : ¬ fails 5 = true := fun hc => hlate' (.inr hc)
    have hsized : Resized pageSize path size fails shm := ⟨hlt, Bool.not_eq_true _ ▸ h4⟩
    rw [if_neg (by exact h4), if_neg (by exact h5), sizedShm, if_pos hsized]
  · rw [if_neg hlt] at hlate' ⊢
    rw [if_neg (by exact hlate'), sizedShm, if_neg fun hc => hlt hc.1]

end Steps

end Open

/-! ### The shared memory afterwards -/

section After

variable (pageSize : U64) (path : List Byte) (size : U64) (fails : Nat → Bool) (shm : Shm)

theorem names_attach_self : (shm.attach path).1.names path = some (shm.attach path).2 := by
  unfold Shm.attach
  cases h : shm.names path with
  | some o => exact h
  | none => exact Function.update_self ..

theorem names_attach_of_ne {name : List Byte} (hne : name ≠ path) :
    (shm.attach path).1.names name = shm.names name := by
  unfold Shm.attach
  cases h : shm.names path with
  | some o => rfl
  | none => exact Function.update_of_ne hne ..

theorem names_sizedShm :
    (sizedShm pageSize path size fails shm).names = (shm.attach path).1.names := by
  unfold sizedShm
  split <;> rfl

theorem names_unlink_self (name : List Byte) : (shm.unlink name).names name = none :=
  Function.update_self ..

theorem names_unlink_of_ne {name name' : List Byte} (hne : name' ≠ name) :
    (shm.unlink name).names name' = shm.names name' :=
  Function.update_of_ne hne ..

/-- The objects there were, apart from the one that is opened. -/
theorem objects_sizedShm_of_ne {o : Nat} (ho : o < shm.objects.length)
    (hne : shm.names path ≠ some o) :
    (sizedShm pageSize path size fails shm).objects[o]? = shm.objects[o]? := by
  have hattach : (shm.attach path).1.objects[o]? = shm.objects[o]? ∧ (shm.attach path).2 ≠ o := by
    unfold Shm.attach
    cases h : shm.names path with
    | some o' => exact ⟨rfl, fun hc => hne (h.trans (congrArg some hc))⟩
    | none => exact ⟨List.getElem?_append_left ho, Nat.ne_of_gt ho⟩
  unfold sizedShm
  split
  · show ((shm.attach path).1.objects.modify _ _)[o]? = _
    rw [List.getElem?_modify_ne _ _ hattach.2]
    exact hattach.1
  · exact hattach.1

end After

/-! ### A failed open -/

/-- The same object: its size, and the contents up to it. -/
structure SameObject (a b : ShmObject) : Prop where
  size : b.size = a.size
  contents : ∀ k < a.size, b.contents k = a.contents k

/-- What was there is there, under the same name and unchanged; nothing else is; and the
process holds what it did. -/
structure LeftAlone (shm : Shm) (p : Process) (shm' : Shm) (p' : Process) : Prop where
  kept : ∀ name o, shm.names name = some o → shm'.names name = some o ∧
    ∃ a b, shm.objects[o]? = some a ∧ shm'.objects[o]? = some b ∧ SameObject a b
  none_left : ∀ name, shm.names name = none → shm'.names name = none
  holds : HoldsSame p p'

theorem SameObject.refl (a : ShmObject) : SameObject a a := ⟨rfl, fun _ _ => rfl⟩

theorem leftAlone_self {shm : Shm} {p p' : Process} (h : HoldsSame p p') :
    LeftAlone shm p shm p' := by
  refine ⟨fun name o hname => ⟨hname, ?_⟩, fun _ hname => hname, h⟩
  have hget := List.getElem?_eq_getElem (shm.names_lt name o hname)
  exact ⟨_, _, hget, hget, SameObject.refl _⟩

/-- The late failures that do no harm: of a call that made the object, and of a call for
an object whose name is too long to be unlinked, if it is left as it was. -/
def HarmlessLate (pageSize : U64) (path : List Byte) (size : U64) (fails : Nat → Bool)
    (shm : Shm) : Prop :=
  (shm.names path = none ∧ path.length ≤ 255) ∨
    ∃ o, shm.names path = some o ∧ 255 < path.length ∧ shm.names (path.take 255) = none ∧
      (Resized pageSize path size fails shm →
        shm.size o = (wantedSize pageSize path size fails shm).toNat)

section Failed

variable (pageSize : U64) (path : List Byte) (size : U64) (fails : Nat → Bool) (shm : Shm)
  (p : Process)

/-- A name that is cut off is another name. -/
theorem take_ne_self {path : List Byte} (h : 255 < path.length) : path ≠ path.take 255 := by
  intro hc
  have hlen := congrArg List.length hc
  rw [List.length_take] at hlen
  omega

/-- An object that is only ever called by a name of this call. -/
theorem leftAlone_created (hnone : shm.names path = none) (hlen : path.length ≤ 255) :
    LeftAlone shm p ((sizedShm pageSize path size fails shm).unlink (path.take 255))
      p.released := by
  rw [List.take_of_length_le hlen]
  refine ⟨fun name o hname => ⟨?_, ?_⟩, fun name hname => ?_, p.holdsSame_released⟩
  · have hne : name ≠ path := by
      rintro rfl
      rw [hnone] at hname
      cases hname
    rw [names_unlink_of_ne _ hne, names_sizedShm, names_attach_of_ne path shm hne]
    exact hname
  · have ho := shm.names_lt name o hname
    have hget := List.getElem?_eq_getElem ho
    refine ⟨_, _, hget, ?_, SameObject.refl _⟩
    show (sizedShm pageSize path size fails shm).objects[o]? = _
    rw [objects_sizedShm_of_ne pageSize path size fails shm ho
      (by rw [hnone]; exact (Option.some_ne_none o).symm)]
    exact hget
  · by_cases hne : name = path
    · subst hne
      exact names_unlink_self _ _
    · rw [names_unlink_of_ne _ hne, names_sizedShm, names_attach_of_ne path shm hne]
      exact hname

/-- An object whose name is too long to be unlinked, and the cut name nobody's. -/
theorem leftAlone_long {o : Nat} (hpath : shm.names path = some o)
    (hcut : shm.names (path.take 255) = none)
    (hsize : Resized pageSize path size fails shm →
      shm.size o = (wantedSize pageSize path size fails shm).toNat) :
    LeftAlone shm p ((sizedShm pageSize path size fails shm).unlink (path.take 255))
      p.released := by
  have hattach : shm.attach path = (shm, o) := by
    unfold Shm.attach
    rw [hpath]
  have hnames : (sizedShm pageSize path size fails shm).names = shm.names := by
    rw [names_sizedShm, hattach]
  have hself : (sizedShm pageSize path size fails shm).unlink (path.take 255)
      = sizedShm pageSize path size fails shm := unlink_eq_self (by rw [hnames, hcut])
  rw [hself]
  refine ⟨fun name o' hname => ⟨by rw [hnames, hname], ?_⟩, fun name hname => by rw [hnames, hname],
    p.holdsSame_released⟩
  have ho' := shm.names_lt name o' hname
  have hget := List.getElem?_eq_getElem ho'
  by_cases heq : o' = o
  · subst heq
    unfold sizedShm
    by_cases hres : Resized pageSize path size fails shm
    · -- Set to the size it had.
      rw [if_pos hres, hattach]
      refine ⟨shm.objects[o'],
        shm.objects[o'].truncate (wantedSize pageSize path size fails shm).toNat, hget, ?_, ?_, ?_⟩
      · show (shm.objects.modify o' _)[o']? = _
        rw [List.getElem?_modify_eq, hget]
        rfl
      · have hold : shm.size o' = shm.objects[o'].size := by
          unfold Shm.size
          rw [hget]
          rfl
        rw [← hold, hsize hres]
        rfl
      · intro k hk
        exact if_pos hk
    · rw [if_neg hres, hattach]
      exact ⟨_, _, hget, hget, SameObject.refl _⟩
  · refine ⟨_, _, hget, ?_, SameObject.refl _⟩
    rw [objects_sizedShm_of_ne pageSize path size fails shm ho' ?_]
    · exact hget
    · rw [hpath]
      exact fun hc => heq (Option.some.inj hc).symm

/-- The name is gone, or one too many is left. -/
theorem harmlessLate_of_leftAlone
    (h : LeftAlone shm p ((sizedShm pageSize path size fails shm).unlink (path.take 255))
      p.released) : HarmlessLate pageSize path size fails shm := by
  have hself : (sizedShm pageSize path size fails shm).names path = some (shm.attach path).2 := by
    rw [names_sizedShm, names_attach_self]
  cases hpath : shm.names path with
  | none =>
      refine .inl ⟨hpath, ?_⟩
      by_contra hlong
      have hleft := h.none_left path hpath
      rw [names_unlink_of_ne _ (take_ne_self (by omega)), hself] at hleft
      cases hleft
  | some o =>
      obtain ⟨hname, a, b, ha, hb, hsame⟩ := h.kept path o hpath
      have hlong : 255 < path.length := by
        by_contra hshort
        rw [List.take_of_length_le (by omega), names_unlink_self] at hname
        cases hname
      refine .inr ⟨o, hpath, hlong, ?_, fun hres => ?_⟩
      · -- Whoever has the cut name loses it.
        cases hcut : shm.names (path.take 255) with
        | none => rfl
        | some o' =>
            have hgone := (h.kept _ o' hcut).1
            rw [names_unlink_self] at hgone
            cases hgone
      · have hattach : shm.attach path = (shm, o) := by
          unfold Shm.attach
          rw [hpath]
        have hb' : (shm.truncate o (wantedSize pageSize path size fails shm).toNat).objects[o]?
            = some b := by
          rw [← hb]
          show _ = (sizedShm pageSize path size fails shm).objects[o]?
          unfold sizedShm
          rw [if_pos hres, hattach]
        have hsize := size_truncate shm (shm.names_lt path o hpath)
          (wantedSize pageSize path size fails shm).toNat
        unfold Shm.size at hsize ⊢
        rw [hb'] at hsize
        rw [ha, ← hsize]
        exact hsame.size.symm

end Failed

/--
**When a failed open leaves existing named memory alone.**

For every state of the shared memory, every path and size, and every pattern of failures.
-/
theorem failedOpen_leftAlone_iff (pageSize : U64) (path : List Byte) (size : U64)
    (fails : Nat → Bool) (shm : Shm) (p : Process) :
    ((openAlone pageSize path size fails shm p).1 = none →
      LeftAlone shm p (openAlone pageSize path size fails shm p).2.1
        (openAlone pageSize path size fails shm p).2.2) ↔
      (FailsLate pageSize path size fails shm → HarmlessLate pageSize path size fails shm) := by
  by_cases hearly : FailsEarly fails
  · obtain ⟨p', hrun, hsame⟩ := openAlone_early pageSize path size shm p hearly
    rw [hrun]
    exact iff_of_true (fun _ => leftAlone_self hsame) fun hlate => absurd hearly hlate.1
  · by_cases hlate : FailsLate pageSize path size fails shm
    · rw [openAlone_late pageSize path size shm p hlate]
      constructor
      · intro h _
        exact harmlessLate_of_leftAlone pageSize path size fails shm p (h rfl)
      · intro h _
        rcases h hlate with ⟨hnone, hlen⟩ | ⟨o, hpath, -, hcut, hsize⟩
        · exact leftAlone_created pageSize path size fails shm p hnone hlen
        · exact leftAlone_long pageSize path size fails shm p hpath hcut hsize
    · rw [openAlone_ok pageSize path size shm p hearly hlate]
      exact iff_of_true (fun h => (nomatch h)) fun h => absurd h hlate

/-- Somebody else's memory of one page. -/
def othersMemory : Shm where
  objects := [⟨0x4000, fun _ => 0⟩]
  names := Function.update (fun _ => none) [0x2f, 0x61] (some 0)
  names_lt := by
    intro name o h
    by_cases hname : name = [0x2f, 0x61]
    · subst hname
      rw [Function.update_self] at h
      cases h
      decide
    · rw [Function.update_of_ne hname] at h
      cases h

/-- It is unlinked by a client that fails to map it. -/
theorem othersMemory_unlinked :
    (openAlone 0x4000 [0x2f, 0x61] 0x4000 (fun n => n == 4) othersMemory Process.fresh).1 = none ∧
      ¬ LeftAlone othersMemory Process.fresh
        (openAlone 0x4000 [0x2f, 0x61] 0x4000 (fun n => n == 4) othersMemory Process.fresh).2.1
        (openAlone 0x4000 [0x2f, 0x61] 0x4000 (fun n => n == 4) othersMemory
          Process.fresh).2.2 := by
  refine ⟨by decide, fun h => ?_⟩
  have hkept := (h.kept [0x2f, 0x61] 0 (by decide)).1
  revert hkept
  decide

/-! ### Unlinking -/

theorem unlinkAlone_shm (m : PS4NamedMemory) (fails : Nat → Bool) (shm : Shm) (p : Process) :
    (unlinkAlone m fails shm p).2.1 = shm.unlink m.path := by
  show (perform (fails 0) (.shmUnlink m.path) shm p).2.1 = _
  rw [perform_shmUnlink]

/-- Unlinking takes away the entry the open made or found, and no other, whatever the
others add in the meantime; and an open that fails takes away no entry but that of its own
name. -/
structure UnlinksExactly (pageSize : U64) (path : List Byte) (size : U64) (fails : Nat → Bool)
    (shm : Shm) (p : Process) : Prop where
  unlink : ∀ m shm' p', openAlone pageSize path size fails shm p = (some m, shm', p') →
    ∃ o, shm'.names path = some o ∧ (shm.names path = some o ∨ shm.names path = none) ∧
      ∀ fails' shm₂ p₂, (∀ name o, shm'.names name = some o → shm₂.names name = some o) →
        (unlinkAlone m fails' shm₂ p₂).2.1.names path = none ∧
        ∀ name, name ≠ path → (unlinkAlone m fails' shm₂ p₂).2.1.names name = shm₂.names name
  failed : ∀ shm' p', openAlone pageSize path size fails shm p = (none, shm', p') →
    ∀ name, name ≠ path → shm'.names name = shm.names name

section Unlink

variable (pageSize : U64) (path : List Byte) (size : U64) (fails : Nat → Bool) (shm : Shm)
  (p : Process)

theorem unlinksExactly_short (hlen : path.length ≤ 255) :
    UnlinksExactly pageSize path size fails shm p := by
  by_cases hearly : FailsEarly fails
  · obtain ⟨p', hrun, -⟩ := openAlone_early pageSize path size shm p hearly
    refine ⟨fun m shm' p' h => ?_, fun shm' p' h name _ => ?_⟩
    · rw [hrun] at h
      cases h
    · rw [hrun] at h
      cases h
      rfl
  · by_cases hlate : FailsLate pageSize path size fails shm
    · have hrun := openAlone_late pageSize path size shm p hlate
      rw [List.take_of_length_le hlen] at hrun
      refine ⟨fun m shm' p' h => ?_, fun shm' p' h name hne => ?_⟩
      · rw [hrun] at h
        cases h
      · rw [hrun] at h
        cases h
        rw [names_unlink_of_ne _ hne, names_sizedShm, names_attach_of_ne path shm hne]
    · have hrun := openAlone_ok pageSize path size shm p hearly hlate
      rw [List.take_of_length_le hlen] at hrun
      refine ⟨fun m shm' p' h => ?_, fun shm' p' h => ?_⟩
      · rw [hrun] at h
        cases h
        refine ⟨(shm.attach path).2, ?_, ?_, fun fails' shm₂ p₂ _ => ⟨?_, fun name hne => ?_⟩⟩
        · rw [names_sizedShm, names_attach_self]
        · unfold Shm.attach
          cases shm.names path with
          | some o => exact .inl rfl
          | none => exact .inr rfl
        · rw [unlinkAlone_shm]
          exact names_unlink_self _ _
        · rw [unlinkAlone_shm]
          exact names_unlink_of_ne _ hne
      · rw [hrun] at h
        cases h

/-- With a longer name the entry stays when the open succeeds, and another one goes when it
fails after `shm_open`. -/
theorem unlinksExactly_long (hlen : 255 < path.length) :
    UnlinksExactly pageSize path size fails shm p ↔ FailsEarly fails ∨
      FailsLate pageSize path size fails shm ∧ shm.names (path.take 255) = none := by
  by_cases hearly : FailsEarly fails
  · obtain ⟨p', hrun, -⟩ := openAlone_early pageSize path size shm p hearly
    refine iff_of_true ⟨fun m shm' p' h => ?_, fun shm' p' h name _ => ?_⟩ (Or.inl hearly)
    · rw [hrun] at h
      cases h
    · rw [hrun] at h
      cases h
      rfl
  · by_cases hlate : FailsLate pageSize path size fails shm
    · have hrun := openAlone_late pageSize path size shm p hlate
      have hne : path.take 255 ≠ path := (take_ne_self hlen).symm
      simp only [hearly, hlate, true_and, false_or]
      constructor
      · intro h
        have hcut := h.failed _ _ hrun (path.take 255) hne
        rw [names_unlink_self] at hcut
        exact hcut.symm
      · intro hnone
        refine ⟨fun m shm' p' h => ?_, fun shm' p' h name hname => ?_⟩
        · rw [hrun] at h
          cases h
        · rw [hrun] at h
          cases h
          by_cases hcut : name = path.take 255
          · rw [hcut, names_unlink_self, hnone]
          · rw [names_unlink_of_ne _ hcut, names_sizedShm, names_attach_of_ne path shm hname]
    · refine iff_of_false (fun h => ?_) fun hc => ?_
      · obtain ⟨o, ho, -, hgone⟩ := h.unlink _ _ _
          (openAlone_ok pageSize path size shm p hearly hlate)
        have hnone := (hgone (fun _ => false) _ p fun _ _ hname => hname).1
        rw [unlinkAlone_shm, names_unlink_of_ne _ (take_ne_self hlen), ho] at hnone
        cases hnone
      · rcases hc with hc | ⟨hc, -⟩
        · exact hearly hc
        · exact hlate hc

end Unlink

theorem not_failsEarly_none : ¬ FailsEarly (fun _ => false) := by
  rintro (hc | hc | hc) <;> cases hc

theorem not_failsLate_none (pageSize : U64) (path : List Byte) (size : U64) (shm : Shm) :
    ¬ FailsLate pageSize path size (fun _ => false) shm := by
  rintro ⟨-, hc⟩
  split at hc
  · rcases hc with hc | hc <;> cases hc
  · cases hc

/--
**When unlink removes exactly the opened object.**

The name is kept in at most 255 bytes, and from 256 on it is another one.  For a name that
long nothing else happens only if nothing is opened in the first place, or if the open fails
later on and the cut name is nobody's.
-/
theorem unlinksExactly_iff (pageSize : U64) (path : List Byte) (shm : Shm) (p : Process) :
    (∀ size fails, UnlinksExactly pageSize path size fails shm p ↔
      path.length ≤ 255 ∨ FailsEarly fails ∨
        FailsLate pageSize path size fails shm ∧ shm.names (path.take 255) = none) ∧
    ((∀ size fails, UnlinksExactly pageSize path size fails shm p) ↔ path.length ≤ 255) := by
  have hall : ∀ size fails, UnlinksExactly pageSize path size fails shm p ↔
      path.length ≤ 255 ∨ FailsEarly fails ∨
        FailsLate pageSize path size fails shm ∧ shm.names (path.take 255) = none := by
    intro size fails
    by_cases hlen : path.length ≤ 255
    · exact iff_of_true (unlinksExactly_short pageSize path size fails shm p hlen) (Or.inl hlen)
    · rw [unlinksExactly_long pageSize path size fails shm p (by omega)]
      simp only [hlen, false_or]
  refine ⟨hall, fun h => ?_, fun hlen size fails => (hall size fails).mpr (Or.inl hlen)⟩
  rcases (hall 0 fun _ => false).mp (h 0 fun _ => false) with hlen | hearly | ⟨hlate, -⟩
  · exact hlen
  · exact absurd hearly not_failsEarly_none
  · exact absurd hlate (not_failsLate_none pageSize path 0 shm)

/-- A name of 256 bytes. -/
def longName : List Byte := List.replicate 256 0x61

/-- Its entry survives being unlinked. -/
theorem longName_survives :
    ¬ UnlinksExactly 0x4000 longName 0 (fun _ => false) Shm.empty Process.fresh := by
  have hlen : longName.length = 256 := List.length_replicate
  intro h
  rcases (unlinksExactly_long 0x4000 longName 0 _ Shm.empty Process.fresh
    (by rw [hlen]; decide)).mp h with hearly | ⟨hlate, -⟩
  · exact not_failsEarly_none hearly
  · exact not_failsLate_none 0x4000 longName 0 Shm.empty hlate

end LibPS4
