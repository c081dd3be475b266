/-
Several clients opening one named memory at the same time.

A client decides from the size `fstat` gave it whether the object has to grow, and then
sets the size it wants.  In between another client may have made the object larger, and
the `ftruncate` that was meant to grow it cuts it down, under the mappings of whoever was
faster.  As long as that does not happen, nothing does: no object ever gets smaller, and
every mapping lies within its object.

What a client relies on is that objects do not shrink (`Grows`).  The proof walks once
through the program, with the others interfering before every call; the rest is
`AllGuarded.along`.
-/
import LibPS4.Memory.Named

namespace LibPS4

open Effects Calls

/-! ### Sizes -/

section Sizes

variable (shm : Shm)

theorem size_create (name : List Byte) (o : Nat) : (shm.create name).size o = shm.size o := by
  unfold Shm.size Shm.create
  dsimp only
  rcases Nat.lt_trichotomy o shm.objects.length with h | h | h
  · rw [List.getElem?_append_left h]
  · subst h
    rw [List.getElem?_concat_length, List.getElem?_eq_none (Nat.le_refl _)]
    rfl
  · rw [List.getElem?_eq_none (by simp; omega), List.getElem?_eq_none (by omega)]

theorem size_truncate {o : Nat} (h : o < shm.objects.length) (n : Nat) :
    (shm.truncate o n).size o = n := by
  unfold Shm.size Shm.truncate
  dsimp only
  rw [List.getElem?_modify_eq, List.getElem?_eq_getElem h]
  rfl

theorem size_truncate_of_ne {o o' : Nat} (h : o' ≠ o) (n : Nat) :
    (shm.truncate o n).size o' = shm.size o' := by
  unfold Shm.size Shm.truncate
  dsimp only
  rw [List.getElem?_modify_ne _ _ (Ne.symm h)]

theorem lt_of_size {o : Nat} (h : shm.size o ≠ 0) : o < shm.objects.length := by
  by_contra hc
  refine h ?_
  unfold Shm.size
  rw [List.getElem?_eq_none (by omega)]
  rfl

end Sizes

/-- No object is gone, and none has become smaller. -/
structure Grows (shm shm' : Shm) : Prop where
  length : shm.objects.length ≤ shm'.objects.length
  size : ∀ o, shm.size o ≤ shm'.size o

theorem Grows.refl (shm : Shm) : Grows shm shm := ⟨Nat.le_refl _, fun _ => Nat.le_refl _⟩

theorem Grows.trans (a b c : Shm) (h : Grows a b) (h' : Grows b c) : Grows a c :=
  ⟨Nat.le_trans h.length h'.length, fun o => Nat.le_trans (h.size o) (h'.size o)⟩

/-- The mappings of a process lie within their objects. -/
def MappingsFit (shm : Shm) (p : Process) : Prop :=
  ∀ m, some m ∈ p.mappings → m.length ≤ shm.size m.object

theorem MappingsFit.grows {shm shm' : Shm} {p : Process} (h : MappingsFit shm p)
    (hg : Grows shm shm') : MappingsFit shm' p :=
  fun m hm => Nat.le_trans (h m hm) (hg.size m.object)

/-- A call that cuts no object down. -/
def NoCut : Call → Shm → Process → Prop
  | .ftruncate handle length, shm, p => ∀ o, p.object handle = some o → shm.size o ≤ length.toNat
  | _, _, _ => True

/-! ### The calls of a client -/

/-- Clients whose calls all succeed. -/
abbrev GuardedClient (program : Calls Call Reply Unit) : Shm → Process → Prop :=
  Guarded (perform false) NoCut Grows MappingsFit program

section Client

variable {rest : Option PS4NamedMemory → Calls Call Reply Unit}
  (hrest : ∀ m shm p, MappingsFit shm p → GuardedClient (rest (some m)) shm p)
  {memory pathPointer handle o : Nat} {name : List Byte} {shm : Shm} {p : Process}

/-- A call that leaves the shared memory alone. -/
theorem guarded_private {c : Call} {k : Reply → Calls Call Reply Unit} (hfits : MappingsFit shm p)
    (h : ∀ shm', Grows shm shm' → (perform false c shm' p).2.1 = shm' ∧
      GuardedClient (k (perform false c shm' p).1) shm' (perform false c shm' p).2.2) :
    GuardedClient (.call c k) shm p := by
  intro shm' hgrows
  obtain ⟨hsame, hk⟩ := h shm' hgrows
  refine ⟨hfits.grows hgrows, fun _ => ?_⟩
  rw [hsame]
  exact ⟨Grows.refl shm', hk⟩

include hrest

theorem guarded_openMapped {size : U64} (hobject : p.object handle = some o)
    (hsize : size.toNat ≤ shm.size o) (hfits : MappingsFit shm p) :
    GuardedClient (openMapped memory pathPointer name handle size >>= rest) shm p := by
  refine guarded_private hfits fun shm' hgrows => ?_
  rw [perform_mmap size hobject]
  refine ⟨rfl, ?_⟩
  have hfits' : MappingsFit shm' { p with mappings := p.mappings ++ [some ⟨o, size.toNat⟩] } := by
    intro m hm
    rcases List.mem_append.mp hm with hm | hm
    · exact hfits.grows hgrows m hm
    · cases List.mem_singleton.mp hm
      exact Nat.le_trans hsize (hgrows.size o)
  refine guarded_private hfits' fun shm'' hgrows' => ⟨rfl, hrest _ _ _ fun m hm => ?_⟩
  rw [perform_close, mappings_close] at hm
  exact hfits'.grows hgrows' m hm

theorem guarded_openSized {size fileSize : U64} (hobject : p.object handle = some o)
    (ho : o < shm.objects.length) (hfile : fileSize.toNat ≤ shm.size o)
    (hfits : MappingsFit shm p) :
    GuardedClient (openSized memory pathPointer name handle size fileSize >>= rest) shm p := by
  unfold openSized
  by_cases hlt : size > fileSize
  · rw [if_pos hlt]
    intro shm' hgrows
    refine ⟨hfits.grows hgrows, fun hallowed => ?_⟩
    have hcut : shm'.size o ≤ size.toNat := hallowed o hobject
    have ho' : o < shm'.objects.length := Nat.lt_of_lt_of_le ho hgrows.length
    have hgrown : Grows shm' (shm'.truncate o size.toNat) := by
      refine ⟨Nat.le_of_eq (List.length_modify ..).symm, fun o' => ?_⟩
      by_cases h : o' = o
      · subst h
        exact Nat.le_trans hcut (Nat.le_of_eq (size_truncate shm' ho' _).symm)
      · exact Nat.le_of_eq (size_truncate_of_ne shm' h _).symm
    rw [perform_ftruncate size hobject]
    exact ⟨hgrown, guarded_openMapped hrest hobject
      (Nat.le_of_eq (size_truncate shm' ho' _).symm) ((hfits.grows hgrows).grows hgrown)⟩
  · rw [if_neg hlt]
    refine guarded_openMapped hrest hobject (Nat.le_trans ?_ hfile) hfits
    exact Nat.le_of_not_lt hlt

theorem guarded_openHandle {pageSize size : U64} (hobject : p.object handle = some o)
    (ho : o < shm.objects.length) (hfits : MappingsFit shm p) :
    GuardedClient (openHandle pageSize memory pathPointer name size handle >>= rest) shm p := by
  refine guarded_private hfits fun shm' hgrows => ?_
  rw [perform_fstat hobject]
  refine ⟨rfl, guarded_openSized hrest hobject (Nat.lt_of_lt_of_le ho hgrows.length) ?_
    (hfits.grows hgrows)⟩
  -- What `fstat` reports may be cut to 64 bits, which makes it smaller.
  show (BitVec.ofNat 64 (shm'.size o)).toNat ≤ shm'.size o
  rw [BitVec.toNat_ofNat]
  exact Nat.mod_le _ _

theorem guarded_open (pageSize size : U64) (path : List Byte) (hfits : MappingsFit shm p) :
    GuardedClient (ps4NamedMemoryOpen pageSize path size >>= rest) shm p := by
  refine guarded_private hfits fun shm₁ hgrows₁ => ⟨rfl, ?_⟩
  have hfits₁ : MappingsFit shm₁ { p with heap := p.heap ++ [true] } := hfits.grows hgrows₁
  refine guarded_private hfits₁ fun shm₂ hgrows₂ => ⟨rfl, ?_⟩
  intro shm₃ hgrows₃
  have hfits₃ := (hfits₁.grows hgrows₂).grows hgrows₃
  refine ⟨hfits₃, fun _ => ?_⟩
  cases hname : shm₃.names path with
  | some o =>
      rw [perform_shmOpen_some hname]
      exact ⟨Grows.refl _, guarded_openHandle hrest (object_append _ o) (shm₃.names_lt path o hname)
        hfits₃⟩
  | none =>
      have hcreate : Grows shm₃ (shm₃.create path) := by
        refine ⟨?_, fun o => Nat.le_of_eq (size_create shm₃ path o).symm⟩
        show _ ≤ (shm₃.objects ++ _).length
        rw [List.length_append]
        omega
      rw [perform_shmOpen_none hname]
      refine ⟨hcreate, guarded_openHandle hrest (object_append _ _) ?_ (hfits₃.grows hcreate)⟩
      show _ < (shm₃.objects ++ _).length
      rw [List.length_append, List.length_singleton]
      omega

omit hrest in
theorem guarded_close (m : PS4NamedMemory) (hfits : MappingsFit shm p) :
    GuardedClient (ps4NamedMemoryClose (some m) >>= fun _ => pure ()) shm p := by
  refine guarded_private hfits fun shm₁ hgrows₁ => ⟨rfl, ?_⟩
  have hfits₁ : MappingsFit shm₁ (p.munmap m.address m.size) := fun m' hm' =>
    hfits.grows hgrows₁ m' (mem_mappings_munmap hm')
  refine guarded_private hfits₁ fun shm₂ hgrows₂ => ⟨rfl, ?_⟩
  have hfits₂ : MappingsFit shm₂ ((p.munmap m.address m.size).free m.pathPointer) := by
    intro m' hm'
    rw [mappings_free] at hm'
    exact hfits₁.grows hgrows₂ m' hm'
  refine guarded_private hfits₂ fun shm₃ hgrows₃ => ⟨rfl, fun shm₄ hgrows₄ m' hm' => ?_⟩
  rw [perform_free, mappings_free] at hm'
  exact (hfits₂.grows hgrows₃).grows hgrows₄ m' hm'

end Client

/-! ### Clients -/

/-- Open the memory, and close it again or keep it. -/
def namedMemoryClient (pageSize : U64) (path : List Byte) (size : U64) (closes : Bool) :
    Calls Call Reply Unit := do
  let memory ← ps4NamedMemoryOpen pageSize path size
  if closes then
    let _ ← ps4NamedMemoryClose memory
  pure ()

/-- A process that holds nothing. -/
def Process.fresh : Process := ⟨[], [], [], false⟩

/-- Clients of one path, each with a size of its own. -/
def openers {ι : Type} (pageSize : U64) (path : List Byte) (sizes : ι → U64) (closes : ι → Bool)
    (shm : Shm) : System Call Reply Shm Process ι where
  shared := shm
  own _ := Process.fresh
  program i := namedMemoryClient pageSize path (sizes i) (closes i)

theorem guarded_client (pageSize : U64) (path : List Byte) (size : U64) (closes : Bool)
    {shm : Shm} {p : Process} (hfits : MappingsFit shm p) :
    GuardedClient (namedMemoryClient pageSize path size closes) shm p := by
  refine guarded_open ?_ pageSize size path hfits
  intro m shm p hfits
  cases closes with
  | true => exact guarded_close m hfits
  | false => exact fun shm' hgrows => hfits.grows hgrows

section Runs

variable {ι : Type} [DecidableEq ι]

/-- A run in which every mapping stays within its object and no object gets smaller. -/
def NeverUndersized (schedule : List ι) (s : System Call Reply Shm Process ι) : Prop :=
  System.Along (perform false) (fun s => ∀ i, MappingsFit s.shared (s.own i))
    (fun s i => Grows s.shared (s.step (perform false) i).shared) schedule s

/-- A run in which no `ftruncate` comes upon an object that is larger than the size it is
about to set. -/
def NeverCut (schedule : List ι) (s : System Call Reply Shm Process ι) : Prop :=
  System.Along (perform false) (fun _ => True) (System.Allows NoCut) schedule s

/-- A cut makes an object smaller. -/
theorem allows_of_grows {s : System Call Reply Shm Process ι} {i : ι}
    (h : Grows s.shared (s.step (perform false) i).shared) : s.Allows NoCut i := by
  intro c k hp
  cases c with
  | ftruncate handle length =>
      intro o ho
      by_contra hcut
      have hlt : o < s.shared.objects.length := lt_of_size s.shared (by omega)
      have hsize := h.size o
      rw [System.step_call hp, perform_ftruncate length ho] at hsize
      rw [size_truncate s.shared hlt] at hsize
      omega
  | _ => trivial

/--
**When interleaved opens never undersize a mapping.**

For any number of clients of one path, any sizes and any order of their calls, from any
state of the shared memory.
-/
theorem neverUndersized_iff (pageSize : U64) (path : List Byte) (sizes : ι → U64)
    (closes : ι → Bool) (shm : Shm) (schedule : List ι) :
    NeverUndersized schedule (openers pageSize path sizes closes shm) ↔
      NeverCut schedule (openers pageSize path sizes closes shm) := by
  constructor
  · exact System.Along.mono (fun _ _ => trivial) (fun _ _ => allows_of_grows) _ _
  · refine System.AllGuarded.along Grows.refl Grows.trans _ _ fun i => ?_
    exact guarded_client pageSize path (sizes i) (closes i) fun m hm => (nomatch hm)

end Runs

/-- No shared memory yet. -/
def Shm.empty : Shm := ⟨[], fun _ => none, fun _ _ h => (nomatch h)⟩

/-- One client wants a page, the other two.  The first has looked at the size when the
second opens the memory and maps it, and then sets its own. -/
theorem openers_undersized :
    ¬ NeverUndersized [false, false, false, false, true, true, true, true, true, true, false]
      (openers 0x4000 [0x2f, 0x61] (fun i => if i then 0x8000 else 0x4000) (fun _ => false)
        Shm.empty) := by
  intro h
  have hfits := System.Along.last _ _ h true ⟨0, 0x8000⟩ (by decide)
  revert hfits
  decide

end LibPS4
