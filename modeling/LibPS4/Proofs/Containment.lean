/-
Where the loader writes.

`elfMemorySize` is the number a caller sizes the target by: the largest
`p_paddr + p_memsz`, the sum taken in 64 bits.  The two passes do not consult it.  A
segment stays inside it when it neither copies more than its memory size nor wraps, and
then the end of each segment is below the maximum by construction; a segment that does
one of the two reaches the last byte of the address space, which no size covers.  A
relocation slot stays inside when some segment ends at or after it.
-/
import LibPS4.Proofs.Instantiate
import LibPS4.Proofs.Relocate

namespace LibPS4

open Effects Prog

variable {f : File} {elf : Elf} {w e : U64}

/-! ### The acceptance test -/

theorem result_allOf {l : List (ElfProg Bool)} (h : result f (allOf l) = .ok true) :
    ∀ p ∈ l, result f p = .ok true := by
  induction l with
  | nil => simp
  | cons p rest ih =>
      rw [allOf, result_bind] at h
      cases hp : result f p with
      | error err => rw [hp] at h; cases h
      | ok b =>
          rw [hp, ok_bind, result_ite] at h
          cases b with
          | false => cases h
          | true =>
              intro q hq
              rcases List.mem_cons.mp hq with rfl | hrest
              · exact hp
              · exact ih h q hrest

theorem quiet_elfIsElf : Quiet (elfIsElf (some elf)) := by
  refine (quiet_deref (some elf)).bind fun _ => quiet_allOf fun p hp => ?_
  simp only [List.mem_cons, List.not_mem_nil, or_false] at hp
  rcases hp with rfl | rfl | rfl | rfl <;> exact (quiet_fetch8 _).bind fun _ => quiet_ret _

theorem quiet_elfLoaderIsLoadable : Quiet (elfLoaderIsLoadable (some elf)) := by
  refine quiet_elfIsElf.bind fun b => Quiet.ite (quiet_ret false) (quiet_allOf fun p hp => ?_)
  simp only [List.mem_cons, List.not_mem_nil, or_false] at hp
  rcases hp with rfl | rfl | rfl | rfl | rfl | rfl | rfl | rfl | rfl
  · exact (quiet_fetch8 _).bind fun _ => quiet_ret _
  · exact (quiet_fetch8 _).bind fun _ => quiet_ret _
  · exact (quiet_fetch8 _).bind fun _ => quiet_ret _
  · refine (quiet_fetch8 _).bind fun _ => Quiet.ite (quiet_ret true) ?_
    exact (quiet_fetch8 _).bind fun _ => quiet_ret _
  · exact (quiet_fetch16 _).bind fun _ => quiet_ret _
  · exact (quiet_fetch64 _).bind fun _ => quiet_ret _
  · exact (quiet_fetch64 _).bind fun _ => quiet_ret _
  · exact (quiet_fetch16 _).bind fun _ => quiet_ret _
  · exact (quiet_fetch32 _).bind fun _ => quiet_ret _

/-- An accepted file has both tables. -/
theorem tables_of_loadable (h : result f (elfLoaderIsLoadable (some elf)) = .ok true) :
    f.phoff ≠ 0 ∧ f.shoff ≠ 0 := by
  rw [elfLoaderIsLoadable, result_bind] at h
  cases hself : result f (elfIsElf (some elf)) with
  | error err => rw [hself] at h; cases h
  | ok b =>
      rw [hself, ok_bind, result_ite] at h
      cases b with
      | false => cases h
      | true =>
          have htests := result_allOf (by simpa using h)
          have hph := htests (do return (← ElfHeader.ePhoff) ≠ 0) (by simp)
          have hsh := htests (do return (← ElfHeader.eShoff) ≠ 0) (by simp)
          exact ⟨by simpa [File.phoff] using hph, by simpa [File.shoff] using hsh⟩

/-! ### The stores of a load -/

theorem stores_elfLoaderLoad (hw : w ≠ 0) (he : e ≠ 0)
    (hload : result f (elfLoaderIsLoadable (some elf)) = .ok true) :
    stores f (elfLoaderLoad (some elf) w e)
      = f.segments.flatMap (segmentStores f w) ++ relocateStores f elf w e := by
  have hph := (tables_of_loadable hload).1
  simp only [elfLoaderLoad, hw, he, if_false, stores_bind, hload, onOk_ok,
    quiet_elfLoaderIsLoadable.stores_eq, List.nil_append, Bool.true_eq_false,
    stores_elfLoaderInstantiate hw, result_elfLoaderInstantiate hw, stores_elfLoaderRelocate hw he,
    instantiateStores]
  rw [if_pos hph]

/-- The addresses of a header's stores. -/
theorem mem_segmentStores {s : Segment} {a : U64} :
    a ∈ (segmentStores f w s).map Prod.fst ↔ (a - (w + s.paddr)).toNat < s.filesz.toNat ∨
      (a - (w + s.paddr + s.filesz)).toNat < (s.memsz - s.filesz).toNat := by
  rw [segmentStores, List.map_append, List.mem_append, map_fst_span, map_fst_span,
    mem_extent (by omega), mem_extent (by omega)]

/-- The entries `elfLoaderRelocate` applies: those before the first that has no value. -/
def appliedRelocations (f : File) (elf : Elf) : List Rela :=
  onOk (result f (elfSymbols (some elf) dynsymName)) fun symbols =>
    (relocations f elf).takeWhile (Rela.applies f symbols)

theorem entryStores_fst {symbols : Option Table} {r : Rela} (h : r.applies f symbols = true) :
    (entryStores f w e symbols r).map Prod.fst = extent (w + r.offset) 8 := by
  obtain ⟨v, hv⟩ := value_of_applies h
  unfold entryStores
  rw [hv]
  exact map_fst_span _ _ _

theorem mem_relocateStores {a : U64} :
    a ∈ (relocateStores f elf w e).map Prod.fst ↔
      ∃ r ∈ appliedRelocations f elf, a ∈ extent (w + r.offset) 8 := by
  unfold relocateStores appliedRelocations
  cases result f (elfSymbols (some elf) dynsymName) with
  | error err => simp
  | ok symbols =>
      simp only [onOk_ok, walkStores, List.map_flatMap, List.mem_flatMap]
      constructor
      · rintro ⟨r, hr, ha⟩
        rw [entryStores_fst (List.mem_takeWhile_imp hr)] at ha
        exact ⟨r, hr, ha⟩
      · rintro ⟨r, hr, ha⟩
        rw [← entryStores_fst (w := w) (e := e) (List.mem_takeWhile_imp hr)] at ha
        exact ⟨r, hr, ha⟩

/-! ### The size of the image -/

theorem lt_foldl_end (l : List (U64 × U64)) (x : Nat) : ∀ m : U64,
    x < (l.foldl (fun m r => if m < r.1 + r.2 then r.1 + r.2 else m) m).toNat
      ↔ x < m.toNat ∨ ∃ r ∈ l, x < (r.1 + r.2).toNat := by
  induction l with
  | nil => intro m; simp
  | cons r rest ih =>
      intro m
      rw [List.foldl_cons, ih]
      simp only [List.mem_cons, exists_eq_or_imp]
      by_cases hlt : m < r.1 + r.2
      · have hlt' : m.toNat < (r.1 + r.2).toNat := hlt
        rw [if_pos hlt]
        constructor
        · rintro (h | h)
          · exact Or.inr (Or.inl h)
          · exact Or.inr (Or.inr h)
        · rintro (h | h | h)
          · exact Or.inl (by omega)
          · exact Or.inl h
          · exact Or.inr h
      · have hle : (r.1 + r.2).toNat ≤ m.toNat := Nat.not_lt.mp hlt
        rw [if_neg hlt]
        constructor
        · rintro (h | h)
          · exact Or.inl h
          · exact Or.inr (Or.inr h)
        · rintro (h | h | h)
          · exact Or.inl h
          · exact Or.inl (by omega)
          · exact Or.inr h

/-- An offset is below the memory size exactly when some header ends after it. -/
theorem lt_memorySize (hph : f.phoff ≠ 0) (x : Nat) :
    x < f.memorySize.toNat ↔ ∃ s ∈ f.segments, x < (s.paddr + s.memsz).toNat := by
  unfold File.memorySize largestEnd
  rw [if_pos hph, lt_foldl_end]
  simp

/-! ### Containment -/

/-- Every byte a load writes is at an offset below `elfMemorySize` from `w`. -/
def WritesContained (f : File) (elf : Elf) (w e : U64) : Prop :=
  ∀ (mem : U64 → Byte) (n : U64), result f (elfMemorySize (some elf)) = .ok n →
    ∀ a ∈ (exec f (elfLoaderLoad (some elf) w e) mem).written, (a - w).toNat < n.toNat

/-- No program header copies more than its memory size, or wraps. -/
def SegmentsFit (f : File) : Prop :=
  ∀ s ∈ f.segments, s.filesz.toNat ≤ s.memsz.toNat ∧ s.paddr.toNat + s.memsz.toNat < 2 ^ 64

/-- Every slot that is relocated ends at or before the end of some program header. -/
def SlotsFit (f : File) (elf : Elf) : Prop :=
  ∀ r ∈ appliedRelocations f elf, ∃ s ∈ f.segments,
    r.offset.toNat + 8 ≤ s.paddr.toNat + s.memsz.toNat

/-- A header that fits writes below its own end. -/
theorem lt_end_of_fits {s : Segment} (hfile : s.filesz.toNat ≤ s.memsz.toNat)
    (hwrap : s.paddr.toNat + s.memsz.toNat < 2 ^ 64) {a : U64}
    (ha : a ∈ (segmentStores f w s).map Prod.fst) :
    (a - w).toNat < (s.paddr + s.memsz).toNat := by
  rw [mem_segmentStores] at ha
  have h1 : a - (w + s.paddr) = a - w - s.paddr := by bv_omega
  have h2 : a - (w + s.paddr + s.filesz) = a - w - s.paddr - s.filesz := by bv_omega
  rw [h1, h2] at ha
  generalize a - w = x at ha ⊢
  generalize s.paddr = p at ha hwrap ⊢
  generalize s.filesz = n at ha hfile
  generalize s.memsz = m at ha hfile hwrap ⊢
  have hsum : (p + m).toNat = p.toNat + m.toNat := by bv_omega
  have hdiff : (m - n).toNat = m.toNat - n.toNat := by bv_omega
  have hsplit : p.toNat ≤ x.toNat ∧ (x - p).toNat = x.toNat - p.toNat ∨
      x.toNat < p.toNat ∧ (x - p).toNat = 2 ^ 64 + x.toNat - p.toNat := by bv_omega
  rw [hsum]
  rcases ha with ha | ha
  · omega
  · rw [hdiff] at ha
    generalize x - p = d at ha hsplit
    have hd : d.toNat < m.toNat := by bv_omega
    omega

/-- A header that does not fit writes the last byte of the address space. -/
theorem top_of_not_fits {s : Segment}
    (h : ¬ (s.filesz.toNat ≤ s.memsz.toNat ∧ s.paddr.toNat + s.memsz.toNat < 2 ^ 64)) :
    w + BitVec.ofNat 64 (2 ^ 64 - 1) ∈ (segmentStores f w s).map Prod.fst := by
  rw [mem_segmentStores]
  have h1 : w + BitVec.ofNat 64 (2 ^ 64 - 1) - (w + s.paddr)
      = BitVec.ofNat 64 (2 ^ 64 - 1) - s.paddr := by bv_omega
  have h2 : w + BitVec.ofNat 64 (2 ^ 64 - 1) - (w + s.paddr + s.filesz)
      = BitVec.ofNat 64 (2 ^ 64 - 1) - s.paddr - s.filesz := by bv_omega
  rw [h1, h2]
  have hpaddr : (BitVec.ofNat 64 (2 ^ 64 - 1) - s.paddr).toNat = 2 ^ 64 - 1 - s.paddr.toNat := by
    bv_omega
  by_cases hc : (BitVec.ofNat 64 (2 ^ 64 - 1) - s.paddr).toNat < s.filesz.toNat
  · exact Or.inl hc
  · refine Or.inr ?_
    generalize BitVec.ofNat 64 (2 ^ 64 - 1) - s.paddr = d at hc hpaddr
    have hd : (d - s.filesz).toNat = d.toNat - s.filesz.toNat := by bv_omega
    have hm : s.filesz.toNat ≤ s.memsz.toNat ∧
        (s.memsz - s.filesz).toNat = s.memsz.toNat - s.filesz.toNat ∨
        s.memsz.toNat < s.filesz.toNat ∧
        (s.memsz - s.filesz).toNat = 2 ^ 64 + s.memsz.toNat - s.filesz.toNat := by bv_omega
    rw [hd]
    omega

theorem mem_written (hw : w ≠ 0) (he : e ≠ 0)
    (hload : result f (elfLoaderIsLoadable (some elf)) = .ok true) (mem : U64 → Byte) (a : U64) :
    a ∈ (exec f (elfLoaderLoad (some elf) w e) mem).written ↔
      (∃ s ∈ f.segments, a ∈ (segmentStores f w s).map Prod.fst) ∨
        ∃ r ∈ appliedRelocations f elf, a ∈ extent (w + r.offset) 8 := by
  rw [exec_eq, stores_elfLoaderLoad hw he hload, List.map_append, List.mem_append,
    mem_relocateStores, List.map_flatMap, List.mem_flatMap]

/-- With a base that is `NULL` the loader writes nothing. -/
theorem written_of_null (f : File) (elf : Elf) {w e : U64} (h : w = 0 ∨ e = 0)
    (mem : U64 → Byte) : (exec f (elfLoaderLoad (some elf) w e) mem).written = [] := by
  unfold elfLoaderLoad
  by_cases hw : w = 0
  · rw [if_pos hw]
    rfl
  · rw [if_neg hw, if_pos (h.resolve_left hw)]
    rfl

/-- A slot lies below the memory size exactly when some header ends at or after its end. -/
theorem slot_contained_iff (hph : f.phoff ≠ 0) (hfit : SegmentsFit f) (r : Rela) :
    (∀ a ∈ extent (w + r.offset) 8, (a - w).toNat < f.memorySize.toNat) ↔
      ∃ s ∈ f.segments, r.offset.toNat + 8 ≤ s.paddr.toNat + s.memsz.toNat := by
  have hrel : (∀ a ∈ extent (w + r.offset) 8, (a - w).toNat < f.memorySize.toNat) ↔
      ∀ x ∈ extent r.offset 8, x.toNat < f.memorySize.toNat := by
    simp only [mem_extent (n := 8) (by omega)]
    constructor
    · intro h x hx
      have hback : w + x - w = x := by bv_omega
      have := h (w + x) (by rw [show w + x - (w + r.offset) = x - r.offset by bv_omega]; exact hx)
      rwa [hback] at this
    · intro h a ha
      exact h (a - w) (by rw [show a - w - r.offset = a - (w + r.offset) by bv_omega]; exact ha)
  have hend : ∀ s ∈ f.segments, (s.paddr + s.memsz).toNat = s.paddr.toNat + s.memsz.toNat := by
    intro s hs
    have := (hfit s hs).2
    bv_omega
  rw [hrel, extent_below (by omega) (by omega) f.memorySize.isLt]
  have hlt : r.offset.toNat + 8 ≤ f.memorySize.toNat
      ↔ r.offset.toNat + 7 < f.memorySize.toNat := by omega
  rw [hlt, lt_memorySize hph]
  constructor
  · rintro ⟨s, hs, hx⟩
    rw [hend s hs] at hx
    exact ⟨s, hs, by omega⟩
  · rintro ⟨s, hs, hx⟩
    refine ⟨s, hs, ?_⟩
    rw [hend s hs]
    omega

theorem writesContained_of_null (f : File) (elf : Elf) {w e : U64} (h : w = 0 ∨ e = 0) :
    WritesContained f elf w e := by
  intro mem n _ a ha
  rw [written_of_null f elf h] at ha
  exact absurd ha List.not_mem_nil

/-- With two bases, every header and every slot has to fit. -/
theorem writesContained_iff_fit (hw : w ≠ 0) (he : e ≠ 0)
    (hload : result f (elfLoaderIsLoadable (some elf)) = .ok true) :
    WritesContained f elf w e ↔ SegmentsFit f ∧ SlotsFit f elf := by
  have hph := (tables_of_loadable hload).1
  constructor
  · intro h
    have hin := h (fun _ => 0) _ result_elfMemorySize
    have hfit : SegmentsFit f := by
      intro s hs
      by_contra hc
      have htop := hin _ ((mem_written hw he hload _ _).mpr
        (Or.inl ⟨s, hs, top_of_not_fits (f := f) (w := w) hc⟩))
      have hsize := f.memorySize.isLt
      bv_omega
    refine ⟨hfit, fun r hr => (slot_contained_iff (w := w) hph hfit r).mp fun a ha => ?_⟩
    exact hin a ((mem_written hw he hload _ _).mpr (Or.inr ⟨r, hr, ha⟩))
  · rintro ⟨hfit, hslots⟩ mem n hn a ha
    have hsize : f.memorySize = n := Except.ok.inj (result_elfMemorySize.symm.trans hn)
    rw [← hsize]
    rcases (mem_written hw he hload _ _).mp ha with ⟨s, hs, hmem⟩ | ⟨r, hr, hmem⟩
    · exact (lt_memorySize hph _).mpr
        ⟨s, hs, lt_end_of_fits (hfit s hs).1 (hfit s hs).2 hmem⟩
    · exact (slot_contained_iff hph hfit r).mpr (hslots r hr) a hmem

/-- A segment of sixteen bytes, and one relative relocation at `offset`. -/
def slotFile (offset : U64) : File :=
  File.ofBytes (fileBytes [⟨ptLoad, 6, 0, 0, 0, 1, 16, 0⟩] [relaDyn 24 [⟨offset, 8, 0⟩]])

end LibPS4
