/-
Finding and reading the kernel's image.

The search looks at one address first and then at every page of a window, so what it finds
is the static address or the lowest page that starts like an ELF image; it reads nothing
outside the window.  What is read from the image is read through one program header and a
table that ends at its first `DT_NULL`, counted in 16 bits.  Put together this says exactly
from which memories the initialisation returns, and with which statics.
-/
import LibPS4.Kernel.Image
import LibPS4.Proofs.Dynamics
import LibPS4.Proofs.KernelSymbols

namespace LibPS4

open Effects Prog

variable {f : File}

/-! ### The search -/

/-- The bytes an image starts with stand at `m`. -/
def File.Magic (f : File) (m : U64) : Prop :=
  ∀ i < elfMagic.length, f (m + BitVec.ofNat 64 i) = elfMagic.getD i 0

instance (m : U64) : Decidable (f.Magic m) :=
  inferInstanceAs (Decidable (∀ i < elfMagic.length, _))

/-- The pages of the window. -/
def seekPage (i : Nat) : U64 := ps4KernelElfSeekAddress + BitVec.ofNat 64 (i * ps4KernelElfPageSize)

def seekPages : Nat := ps4KernelElfSeekSize / ps4KernelElfPageSize

/-- What a search in `f` has to find. -/
structure Sought (f : File) (o : Option U64) : Prop where
  known : f.Magic ps4KernelElfSeekStaticAddress → o = some ps4KernelElfSeekStaticAddress
  lowest : ¬ f.Magic ps4KernelElfSeekStaticAddress →
    ∃ i, First (fun i => f.Magic (seekPage i)) seekPages i ∧ o = i.map seekPage

theorem Sought.unique {o o' : Option U64} (h : Sought f o) (h' : Sought f o') : o = o' := by
  by_cases hmagic : f.Magic ps4KernelElfSeekStaticAddress
  · rw [h.known hmagic, h'.known hmagic]
  · obtain ⟨i, hi, rfl⟩ := h.lowest hmagic
    obtain ⟨i', hi', rfl⟩ := h'.lowest hmagic
    rw [hi.unique hi']

theorem result_magicByte (m : U64) (i : Nat) :
    result f (do
      if (← fetch8 (m + BitVec.ofNat 64 i)) = elfMagic.getD i 0 then
        return none
      return some i : ImageProg (Option Nat))
      = .ok (if f (m + BitVec.ofNat 64 i) ≠ elfMagic.getD i 0 then some i else none) := by
  rw [result_bind, result_fetch8, ok_bind, result_ite, pure_eq, pure_eq, result_ret, result_ret,
    ite_not, ← apply_ite Except.ok]

theorem result_magicAt (m : U64) : result f (magicAt m) = .ok (decide (f.Magic m)) := by
  obtain ⟨o, hfirst, hres⟩ := findFrom_isFirst (result_magicByte (f := f) m) elfMagic.length
  rw [magicAt, result_bind, hres, ok_bind, Option.map_id_fun']
  cases o with
  | none =>
      have hmagic : f.Magic m := fun i hi => not_not.mp (hfirst i hi)
      rw [decide_eq_true hmagic]
      rfl
  | some i =>
      have hmagic : ¬ f.Magic m := fun h => hfirst.2.1 (h i hfirst.1)
      rw [decide_eq_false hmagic]
      rfl

/-- The body of the search over the pages. -/
def seekAt (i : Nat) : ImageProg (Option U64) := do
  if ← magicAt (seekPage i) then
    return some (seekPage i)
  return none

theorem result_seekAt (i : Nat) :
    result f (seekAt i) = .ok (if f.Magic (seekPage i) then some (seekPage i) else none) := by
  rw [seekAt, result_bind, result_magicAt, ok_bind]
  by_cases hmagic : f.Magic (seekPage i)
  · rw [decide_eq_true hmagic, if_pos rfl, if_pos hmagic]
    rfl
  · rw [decide_eq_false hmagic, if_neg Bool.false_ne_true, if_neg hmagic]
    rfl

theorem ps4KernelElfSeek_eq : ps4KernelElfSeek = (magicAt ps4KernelElfSeekStaticAddress >>= fun b =>
    if b then pure (some ps4KernelElfSeekStaticAddress) else findFrom seekAt seekPages 0) := rfl

theorem result_ps4KernelElfSeek (f : File) :
    ∃ o, result f ps4KernelElfSeek = .ok o ∧ Sought f o := by
  rw [ps4KernelElfSeek_eq, result_bind, result_magicAt, ok_bind]
  by_cases hmagic : f.Magic ps4KernelElfSeekStaticAddress
  · rw [decide_eq_true hmagic, if_pos rfl]
    exact ⟨_, rfl, fun _ => rfl, fun h => absurd hmagic h⟩
  · rw [decide_eq_false hmagic, if_neg Bool.false_ne_true]
    obtain ⟨o, hfirst, hres⟩ := findFrom_isFirst (result_seekAt (f := f)) seekPages
    exact ⟨_, hres, fun h => absurd h hmagic, fun _ => ⟨o, hfirst, rfl⟩⟩

/-! ### What it reads -/

/-- The addresses of the window. -/
def InWindow (a : U64) : Prop := (a - ps4KernelElfSeekAddress).toNat < ps4KernelElfSeekSize

theorem inWindow_page {i j : Nat} (hi : i < seekPages) (hj : j < ps4KernelElfPageSize) :
    InWindow (seekPage i + BitVec.ofNat 64 j) := by
  have hpages : seekPages = 2048 := by decide
  have hsize : ps4KernelElfPageSize = 16384 := by decide
  have hsum : seekPage i + BitVec.ofNat 64 j - ps4KernelElfSeekAddress
      = BitVec.ofNat 64 (i * 16384 + j) := by
    rw [seekPage, hsize]
    bv_omega
  unfold InWindow ps4KernelElfSeekSize
  rw [hsum, BitVec.toNat_ofNat]
  omega

theorem readsIn_magicAt {m : U64}
    (h : ∀ j < ps4KernelElfPageSize, InWindow (m + BitVec.ofNat 64 j)) :
    ReadsIn f InWindow (magicAt m) := by
  rw [magicAt, readsIn_bind]
  refine ⟨?_, fun a _ => by simp⟩
  rw [readsIn_findFrom]
  intro i hi
  obtain ⟨-, hlt, -⟩ := mem_visited.mp hi
  have hin : InWindow (m + BitVec.ofNat 64 i) := h i (by
    have hlen : elfMagic.length = 9 := rfl
    have hsize : ps4KernelElfPageSize = 16384 := by decide
    omega)
  rw [readsIn_bind]
  refine ⟨(readsIn_get _).mpr hin, fun b _ => ?_⟩
  split
  · exact readsIn_ret _
  · exact readsIn_ret _

theorem readsIn_ps4KernelElfSeek (f : File) : ReadsIn f InWindow ps4KernelElfSeek := by
  have hstatic : ps4KernelElfSeekStaticAddress = seekPage 448 := by decide
  rw [ps4KernelElfSeek_eq, readsIn_bind]
  refine ⟨?_, fun b _ => ?_⟩
  · rw [hstatic]
    exact readsIn_magicAt fun j hj => inWindow_page (by decide) hj
  · split
    · exact readsIn_ret _
    · rw [readsIn_findFrom]
      intro i hi
      obtain ⟨-, hlt, -⟩ := mem_visited.mp hi
      rw [seekAt, readsIn_bind]
      refine ⟨readsIn_magicAt fun j hj => inWindow_page (by omega) hj, fun b _ => ?_⟩
      split
      · exact readsIn_ret _
      · exact readsIn_ret _

/--
**The search is complete.**

For every memory: what is found is a page of the window that starts like an image, nothing
is found only if no page does, the known address goes first and else the lowest page does,
and nothing outside the window is read.
-/
theorem ps4KernelElfSeek_finds (f : File) : ∃ o, result f ps4KernelElfSeek = .ok o ∧
    ReadsIn f InWindow ps4KernelElfSeek ∧
    (∀ d, o = some d → f.Magic d ∧ ∃ i < seekPages, d = seekPage i) ∧
    (o = none ↔ ∀ i < seekPages, ¬ f.Magic (seekPage i)) ∧
    (f.Magic ps4KernelElfSeekStaticAddress → o = some ps4KernelElfSeekStaticAddress) ∧
    (¬ f.Magic ps4KernelElfSeekStaticAddress → ∀ i < seekPages, f.Magic (seekPage i) →
      ∃ j ≤ i, o = some (seekPage j)) := by
  have hstatic : ps4KernelElfSeekStaticAddress = seekPage 448 := by decide
  obtain ⟨o, hres, hsought⟩ := result_ps4KernelElfSeek f
  refine ⟨o, hres, readsIn_ps4KernelElfSeek f, ?_⟩
  by_cases hmagic : f.Magic ps4KernelElfSeekStaticAddress
  · obtain rfl := hsought.known hmagic
    have hpage : f.Magic (seekPage 448) := by rwa [← hstatic]
    refine ⟨?_, ⟨fun h => ?_, fun h => ?_⟩, fun _ => rfl, fun h => absurd hmagic h⟩
    · rintro d hd
      obtain rfl := Option.some.inj hd
      exact ⟨hmagic, 448, by decide, hstatic⟩
    · cases h
    · exact absurd hpage (h 448 (by decide))
  · obtain ⟨i, hfirst, rfl⟩ := hsought.lowest hmagic
    refine ⟨fun d hd => ?_, ⟨fun h => ?_, fun h => ?_⟩, fun h => absurd h hmagic,
      fun _ j hj hm => ?_⟩
    · cases i with
      | none => cases hd
      | some i =>
          obtain rfl := Option.some.inj hd
          exact ⟨hfirst.2.1, i, hfirst.1, rfl⟩
    · cases i with
      | none => exact hfirst
      | some i => cases h
    · cases i with
      | none => rfl
      | some i => exact absurd hfirst.2.1 (h i hfirst.1)
    · cases i with
      | none => exact absurd hm (hfirst j hj)
      | some i => exact ⟨i, Nat.not_lt.mp fun hlt => hfirst.2.2 j hlt hm, rfl⟩

/-! ### Reading the image -/

/-- The file that starts at `d`. -/
def File.at (f : File) (d : U64) : File := fun o => f (d + o)

/-- The first program header of a type, if there is one. -/
structure File.FirstSegment (g : File) (type : U32) (o : Option Nat) : Prop where
  absent : g.phoff = 0 → o = none
  first : g.phoff ≠ 0 → First (fun k => (g.segmentAt (g.segmentTable.entry k)).type = type)
    g.segmentTable.length.toNat o

theorem File.FirstSegment.unique {g : File} {type : U32} {o o' : Option Nat}
    (h : g.FirstSegment type o) (h' : g.FirstSegment type o') : o = o' := by
  by_cases hphoff : g.phoff = 0
  · rw [h.absent hphoff, h'.absent hphoff]
  · exact (h.first hphoff).unique (h'.first hphoff)

theorem elfSegment_first (g : File) (elf : Elf) (type : U32) : ∃ o j, g.FirstSegment type o ∧
    result g (elfSegment (some elf) 0 .type (type.setWidth 64))
      = .ok (o.map g.segmentTable.entry, j) := by
  have hsegments := @result_elfSegments g elf
  by_cases hphoff : g.phoff = 0
  · rw [if_pos hphoff] at hsegments
    refine ⟨none, 0, ⟨fun _ => rfl, fun h => absurd hphoff h⟩, ?_⟩
    rw [elfSegment, result_bind, hsegments]
    rfl
  · rw [if_neg hphoff] at hsegments
    obtain ⟨o, j, hfirst, hres⟩ := (steps_elfSegment .type (type.setWidth 64) hsegments).first
    refine ⟨o, j, ⟨fun h => absurd h hphoff, fun _ => ?_⟩, hres⟩
    exact hfirst.congr fun k _ => passes_segmentType_iff _ _ k

/-- The virtual address in a program header. -/
def File.vaddrAt (g : File) (k : Nat) : U64 := le64 g (g.segmentTable.entry k + 16)

@[simp] theorem result_inPlace {α : Type} (d : U64) (p : ElfProg α) :
    result f (inPlace d p) = result (f.at d) p := result_mapFetch _ _ p

/-- The table that is seen of the image at `d`: its address and the number of its entries. -/
structure LoadedTable (f : File) (d base : U64) (count : Nat) : Prop where
  header : ∃ k, (f.at d).FirstSegment ptDynamic (some k) ∧ (f.at d).vaddrAt k = base
  base_ne : base ≠ 0
  counted : ∃ e, First (fun i => (f.dynamicAt base i).tag = dtNull) (2 ^ 60) (some e) ∧
    e % 2 ^ 16 = count

section Loaded

variable {d : U64} {elf : Elf}

theorem result_elfLoadedDynamics_none (h : (f.at d).FirstSegment ptDynamic none) :
    result f (elfLoadedDynamics d (some elf)) = .ok none := by
  obtain ⟨o, j, hfirst, hres⟩ := elfSegment_first (f.at d) elf ptDynamic
  obtain rfl := hfirst.unique h
  rw [elfLoadedDynamics, result_bind, result_inPlace, hres]
  rfl

theorem result_elfLoadedDynamics_some {k : Nat} (h : (f.at d).FirstSegment ptDynamic (some k)) :
    result f (elfLoadedDynamics d (some elf))
      = result f (elfLoadedDynamicsLength ((f.at d).vaddrAt k)) >>= fun length =>
        .ok (if (f.at d).vaddrAt k = 0 then none else some ⟨(f.at d).vaddrAt k, 16, length⟩) := by
  obtain ⟨o, j, hfirst, hres⟩ := elfSegment_first (f.at d) elf ptDynamic
  obtain rfl := hfirst.unique h
  have hvaddr : result f (inPlace d (ElfSegment.pVaddr ((f.at d).segmentTable.entry k)))
      = .ok ((f.at d).vaddrAt k) := by
    rw [result_inPlace, ElfSegment.pVaddr, result_fetch64]
    rfl
  rw [elfLoadedDynamics, result_bind, result_inPlace, hres, ok_bind]
  simp only [Option.map_some]
  rw [result_bind, hvaddr, ok_bind, result_bind]
  rfl

theorem elfLoadedDynamics_eq_some_iff {t : Table} :
    result f (elfLoadedDynamics d (some elf)) = .ok (some t) ↔
      t.size = 16 ∧ LoadedTable f d t.base t.length.toNat := by
  constructor
  · intro hres
    obtain ⟨o, -, hfirst, -⟩ := elfSegment_first (f.at d) elf ptDynamic
    cases o with
    | none =>
        rw [result_elfLoadedDynamics_none hfirst] at hres
        cases Except.ok.inj hres
    | some k =>
        have hsome := @result_elfLoadedDynamics_some f d elf k hfirst
        rw [hsome, elfLoadedDynamicsLength] at hres
        by_cases hbase : (f.at d).vaddrAt k = 0
        · rw [if_pos hbase, pure_eq, result_ret, ok_bind, if_pos hbase] at hres
          cases Except.ok.inj hres
        · rw [if_neg hbase] at hres
          simp only [if_neg hbase] at hres
          obtain ⟨o, hnull, hlength⟩ := elfDynamicsLength_first f ((f.at d).vaddrAt k)
          rw [hlength] at hres
          cases o with
          | none => cases hres
          | some e =>
              obtain rfl := Option.some.inj (Except.ok.inj hres)
              refine ⟨rfl, ⟨k, hfirst, rfl⟩, hbase, e, hnull, ?_⟩
              exact (BitVec.toNat_ofNat e 16).symm
  · rintro ⟨hsize, ⟨k, hk, hvaddr⟩, hbase, e, hnull, hcount⟩
    obtain ⟨o, hnull', hlength⟩ := elfDynamicsLength_first f t.base
    have ho : o = some e := hnull'.unique hnull
    subst ho
    have hlen : BitVec.ofNat 16 e = t.length := by
      apply BitVec.eq_of_toNat_eq
      rw [BitVec.toNat_ofNat, hcount]
    rw [result_elfLoadedDynamics_some hk, elfLoadedDynamicsLength, hvaddr, if_neg hbase, hlength,
      ok_bind, if_neg hbase, hlen, ← hsize]

theorem LoadedTable.reported {base : U64} {count : Nat} (h : LoadedTable f d base count)
    (elf : Elf) :
    ∃ t, result f (elfLoadedDynamics d (some elf)) = .ok (some t) ∧ t.base = base ∧
      t.length.toNat = count := by
  obtain ⟨e, -, hcount⟩ := h.counted
  have hlength : (BitVec.ofNat 16 count).toNat = count := by
    rw [BitVec.toNat_ofNat]
    omega
  refine ⟨⟨base, 16, BitVec.ofNat 16 count⟩, ?_, rfl, hlength⟩
  rw [elfLoadedDynamics_eq_some_iff]
  exact ⟨rfl, by rwa [hlength]⟩

theorem elfLoadedDynamic_eq_search (index : U16) (attr : ElfDynamicAttribute) (value : U64) :
    elfLoadedDynamic d (some elf) index attr value
      = search (elfLoadedDynamics d (some elf))
          (entryTest (attr = .none) (elfDynamicAttribute · attr) value) index :=
  search_eq (attr = .none) (elfDynamicAttribute · attr) value (elfLoadedDynamics d (some elf)) index

theorem elfLoadedDynamic_first {t : Table}
    (ht : result f (elfLoadedDynamics d (some elf)) = .ok (some t)) (attr : ElfDynamicAttribute)
    (value : U64) :
    ∃ o last, First (fun i => (f.dynamicAt t.base i).Matches attr value) t.length.toNat o ∧
      result f (elfLoadedDynamic d (some elf) 0 attr value)
        = .ok (o.map (dynamicAddress t.base), last) := by
  have hsize := (elfLoadedDynamics_eq_some_iff.mp ht).1
  have hsteps : Steps f
      (search (elfLoadedDynamics d (some elf))
        (entryTest (attr = .none) (elfDynamicAttribute · attr) value))
      (Passes f (attr = .none) (elfDynamicAttribute · attr) value t) t.entry t.length.toNat :=
    steps_search (elfDynamicAttribute_returns attr) ht
  obtain ⟨o, last, hfirst, hres⟩ := hsteps.first
  rw [← elfLoadedDynamic_eq_search] at hres
  refine ⟨o, last, hfirst.congr fun i hi => ?_, ?_⟩
  · unfold Passes Dynamic.Matches
    rw [entry_eq_dynamicAddress hsize hi, result_elfDynamicAttribute, Except.ok.injEq]
  · rw [hres]
    cases o with
    | none => rfl
    | some k => rw [Option.map_some, Option.map_some, entry_eq_dynamicAddress hsize hfirst.1]

end Loaded

/-- The pointer of the first entry with a tag, in the table that is seen at `d`. -/
def TagPointer (f : File) (d tag v : U64) : Prop :=
  ∃ base count i, LoadedTable f d base count ∧
    First (fun i => (f.dynamicAt base i).tag = tag) count (some i) ∧ (f.dynamicAt base i).value = v

theorem elfLoadedDynamics_of_dynamicPointer {d tag v : U64} {elf : Elf}
    (h : result f (dynamicPointer d (some elf) tag) = .ok v) :
    ∃ t, result f (elfLoadedDynamics d (some elf)) = .ok (some t) := by
  rw [dynamicPointer, elfLoadedDynamic, result_bind, result_bind] at h
  cases hdyn : result f (elfLoadedDynamics d (some elf)) with
  | error e =>
      rw [hdyn] at h
      cases h
  | ok o =>
      cases o with
      | some t => exact ⟨t, rfl⟩
      | none =>
          rw [hdyn] at h
          cases h

theorem result_dynamicPointer {d tag : U64} {elf : Elf} {t : Table}
    (ht : result f (elfLoadedDynamics d (some elf)) = .ok (some t)) :
    ∃ o, First (fun i => (f.dynamicAt t.base i).tag = tag) t.length.toNat o ∧
      result f (dynamicPointer d (some elf) tag)
        = (o.map fun i => (f.dynamicAt t.base i).value).elim (.error .nullDereference) .ok := by
  obtain ⟨o, last, hfirst, hres⟩ := elfLoadedDynamic_first ht .tag tag
  refine ⟨o, hfirst.congr fun i _ => ?_, ?_⟩
  · simp [Dynamic.Matches, Dynamic.attribute]
  · rw [dynamicPointer, result_bind, hres, ok_bind]
    cases o with
    | none => rfl
    | some i => exact result_elfDynamicAttribute _ _ _

theorem dynamicPointer_eq_iff {d tag v : U64} {elf : Elf} :
    result f (dynamicPointer d (some elf) tag) = .ok v ↔ TagPointer f d tag v := by
  constructor
  · intro hres
    obtain ⟨t, ht⟩ := elfLoadedDynamics_of_dynamicPointer hres
    obtain ⟨o, hfirst, hpointer⟩ := @result_dynamicPointer f d tag elf t ht
    rw [hpointer] at hres
    cases o with
    | none => cases hres
    | some i =>
        exact ⟨t.base, t.length.toNat, i, (elfLoadedDynamics_eq_some_iff.mp ht).2, hfirst,
          Except.ok.inj hres⟩
  · rintro ⟨base, count, i, htable, hfirst, hvalue⟩
    obtain ⟨t, ht, rfl, rfl⟩ := htable.reported elf
    obtain ⟨o, hfirst', hpointer⟩ := @result_dynamicPointer f d tag elf t ht
    obtain rfl := hfirst'.unique hfirst
    rw [hpointer, ← hvalue]
    rfl

/-! ### The statics -/

/-- The virtual address of the first segment of a type. -/
def SegmentAddress (f : File) (d : U64) (type : U32) (v : U64) : Prop :=
  ∃ k, (f.at d).FirstSegment type (some k) ∧ (f.at d).vaddrAt k = v

theorem firstLoadAddress_eq_iff {d v : U64} {elf : Elf} :
    result f (firstLoadAddress d (some elf)) = .ok v ↔ SegmentAddress f d ptLoad v := by
  obtain ⟨o, j, hfirst, hres⟩ := elfSegment_first (f.at d) elf ptLoad
  have hload : result f (firstLoadAddress d (some elf))
      = (o.map (f.at d).vaddrAt).elim (.error .nullDereference) .ok := by
    rw [firstLoadAddress, result_inPlace, result_bind, hres, ok_bind]
    cases o with
    | none => rfl
    | some k => exact result_fetch64 _
  rw [hload]
  constructor
  · intro h
    cases o with
    | none => cases h
    | some k => exact ⟨k, hfirst, Except.ok.inj h⟩
  · rintro ⟨k, hk, rfl⟩
    obtain rfl := hfirst.unique hk
    rfl

/-- The statics say where the parts of the image at `d` are. -/
structure KernelImage (f : File) (d : U64) (k : PS4KernelState) : Prop where
  initialized : k.initialized = true
  symbols : TagPointer f d dtSymtab k.elfSymbols
  strings : TagPointer f d dtStrtab k.elfStrings
  executable : SegmentAddress f d ptLoad k.executableAddress

theorem Sought.page {d : U64} (h : Sought f (some d)) : ∃ i < seekPages, d = seekPage i := by
  by_cases hmagic : f.Magic ps4KernelElfSeekStaticAddress
  · have hd := Option.some.inj (h.known hmagic)
    exact ⟨448, by decide, hd⟩
  · obtain ⟨o, hfirst, hd⟩ := h.lowest hmagic
    cases o with
    | none => cases hd
    | some i => exact ⟨i, hfirst.1, Option.some.inj hd⟩

theorem seekPage_ne_zero {i : Nat} (hi : i < seekPages) : seekPage i ≠ 0 := by
  have hpages : seekPages = 2048 := by decide
  have hsize : ps4KernelElfPageSize = 16384 := by decide
  rw [seekPage, hsize]
  unfold ps4KernelElfSeekAddress
  bv_omega

theorem ps4KernelInternalInitialize_unfound (h : Sought f none) (k : PS4KernelState) :
    result f (ps4KernelInternalInitialize k) = .ok k := by
  obtain ⟨o, hseek, hsought⟩ := result_ps4KernelElfSeek f
  obtain rfl := hsought.unique h
  rw [ps4KernelInternalInitialize, result_bind, hseek]
  rfl

theorem ps4KernelInternalInitialize_found {d : U64} {k k' : PS4KernelState}
    (h : Sought f (some d)) :
    result f (ps4KernelInternalInitialize k) = .ok k' ↔ KernelImage f d k' := by
  obtain ⟨o, hseek, hsought⟩ := result_ps4KernelElfSeek f
  obtain rfl := hsought.unique h
  obtain ⟨i, hi, hpage⟩ := h.page
  have hd : (d == 0) = false := beq_false_of_ne (hpage ▸ seekPage_ne_zero hi)
  have hkernel :
      elfCreateLocalUnchecked false (d == 0) ps4KernelElfSize = some ⟨ps4KernelElfSize⟩ := by
    rw [hd]
    rfl
  rw [ps4KernelInternalInitialize, result_bind, hseek, ok_bind]
  simp only [hkernel, result_bind, bind_eq_ok, result_mapFault_eq_ok, dynamicPointer_eq_iff,
    firstLoadAddress_eq_iff]
  constructor
  · rintro ⟨symbols, hsymbols, strings, hstrings, executable, hexecutable, hk⟩
    obtain rfl := Except.ok.inj hk
    exact ⟨rfl, hsymbols, hstrings, hexecutable⟩
  · intro himage
    refine ⟨_, himage.symbols, _, himage.strings, _, himage.executable, ?_⟩
    rw [← himage.initialized]
    rfl

/--
**What the initialisation keeps.**

For every memory and statics: it returns `k'` exactly if no page of the window starts like
an image and `k'` are the statics as they were, or if at the one it finds there are a
segment to load, a dynamic table and entries for the symbols and the strings, the first of
each kind, and `k'` has their addresses.
-/
theorem ps4KernelInternalInitialize_eq_iff (f : File) (k k' : PS4KernelState) :
    result f (ps4KernelInternalInitialize k) = .ok k' ↔
      (Sought f none ∧ k' = k) ∨ ∃ d, Sought f (some d) ∧ KernelImage f d k' := by
  obtain ⟨o, -, hsought⟩ := result_ps4KernelElfSeek f
  cases o with
  | none =>
      rw [ps4KernelInternalInitialize_unfound hsought, Except.ok.injEq]
      constructor
      · rintro rfl
        exact .inl ⟨hsought, rfl⟩
      · rintro (⟨-, rfl⟩ | ⟨d, hd, -⟩)
        · rfl
        · cases hsought.unique hd
  | some d =>
      rw [ps4KernelInternalInitialize_found hsought]
      constructor
      · intro h
        exact .inr ⟨d, hsought, h⟩
      · rintro (⟨hnone, -⟩ | ⟨d', hd', himage⟩)
        · cases hsought.unique hnone
        · obtain rfl := Option.some.inj (hsought.unique hd')
          exact himage

end LibPS4
