/-
Which alias a pointer is rebased to.

`elfLoaderRelativeAddressIsExecutable` returns the flag of the first header whose range
holds the address, and its test includes both ends of the range.  A header therefore
claims one address more than it has, and a header that is not mapped at all claims
addresses like any other.  Both only matter when such a header stands in front of the
segment the address belongs to and the two differ in being executable; `NotShadowed`
says that this does not happen, and it is all the law needs.

The search over program headers and the one over sections are the same search, so the
argument is made once, over any list of ranges.
-/
import LibPS4.Proofs.Instantiate
import LibPS4.Proofs.Relocate

namespace LibPS4

open Effects Prog

/-! ### A search with closed ranges -/

section Search

variable {α : Type} (addr size : α → U64) (flag : α → U32) (mapped executable : α → Bool)

/-- `a` lies in `[addr, addr + size)`. -/
def Inside (s : α) (a : U64) : Prop :=
  (addr s).toNat ≤ a.toNat ∧ a.toNat < (addr s).toNat + (size s).toNat

/-- `a` lies in `[addr, addr + size]`, tested as the code does. -/
def Claims (s : α) (a : U64) : Prop := addr s ≤ a ∧ a ≤ addr s + size s

instance (s : α) (a : U64) : Decidable (Claims addr size s a) :=
  inferInstanceAs (Decidable (addr s ≤ a ∧ a ≤ addr s + size s))

/-- No header that differs from a mapped one in being executable is the first in the list
to claim an address of it. -/
def NotShadowed (l : List α) : Prop :=
  ∀ before t between s after, l = before ++ t :: (between ++ s :: after) → mapped s = true →
    executable t ≠ executable s → ∀ a, Inside addr size s a → Claims addr size t a →
      ∃ u ∈ before, Claims addr size u a

/-- The mapped ranges do not wrap and do not overlap. -/
structure RangesDisjoint (l : List α) : Prop where
  noWrap : ∀ s ∈ l, mapped s = true → (addr s).toNat + (size s).toNat < 2 ^ 64
  disjoint : (l.filter mapped).Pairwise fun s t =>
    ∀ a, Inside addr size s a → ¬ Inside addr size t a

variable {addr size flag mapped executable}

theorem claims_of_inside {s : α} {a : U64} (hwrap : (addr s).toNat + (size s).toNat < 2 ^ 64)
    (h : Inside addr size s a) : Claims addr size s a := by
  obtain ⟨hlo, hhi⟩ := h
  exact ⟨hlo, by bv_omega⟩

theorem firstFlag_of_claims {l after : List α} {s : α} {a : U64}
    (hl : ∀ u ∈ l, ¬ Claims addr size u a) (hs : Claims addr size s a) :
    firstFlag addr size flag a (l ++ s :: after) = some (flag s) := by
  unfold Claims at hs
  unfold firstFlag
  rw [List.findSome?_append, List.findSome?_cons, if_pos hs]
  have hnone : (l.findSome? fun u =>
      if addr u ≤ a ∧ a ≤ addr u + size u then some (flag u) else none) = none :=
    List.findSome?_eq_none_iff.mpr fun u hu => if_neg (hl u hu)
  rw [hnone, Option.none_or]

/-- Either nothing in a list claims an address, or something is the first to. -/
theorem first_claims (l : List α) (a : U64) : (∀ u ∈ l, ¬ Claims addr size u a) ∨
    ∃ before t after, l = before ++ t :: after ∧ Claims addr size t a ∧
      ∀ u ∈ before, ¬ Claims addr size u a := by
  induction l with
  | nil => exact Or.inl (by simp)
  | cons s rest ih =>
      by_cases hs : Claims addr size s a
      · exact Or.inr ⟨[], s, rest, rfl, hs, by simp⟩
      · rcases ih with hnone | ⟨before, t, after, rfl, ht, hbefore⟩
        · exact Or.inl (List.forall_mem_cons.mpr ⟨hs, hnone⟩)
        · exact Or.inr ⟨s :: before, t, after, rfl, ht, List.forall_mem_cons.mpr ⟨hs, hbefore⟩⟩

/-- **The search answers for the range an address is in** exactly when no range is
shadowed. -/
theorem firstFlag_iff_notShadowed (hflag : ∀ s, flag s ≠ 0 ↔ executable s = true) {l : List α}
    (hwrap : ∀ s ∈ l, mapped s = true → (addr s).toNat + (size s).toNat < 2 ^ 64) :
    (∀ s ∈ l, mapped s = true → ∀ a, Inside addr size s a →
      ((firstFlag addr size flag a l).getD 1 ≠ 0 ↔ executable s = true))
      ↔ NotShadowed addr size mapped executable l := by
  constructor
  · intro h before t between s after hl hmapped hdiff a ha ht
    by_contra hc
    have hbefore : ∀ u ∈ before, ¬ Claims addr size u a := fun u hu hclaims => hc ⟨u, hu, hclaims⟩
    have hs := h s (by rw [hl]; simp) hmapped a ha
    rw [hl, firstFlag_of_claims hbefore ht, Option.getD_some, hflag] at hs
    exact hdiff (Bool.eq_iff_iff.mpr hs)
  · intro h s hs hmapped a ha
    obtain ⟨pre, post, hl⟩ := List.append_of_mem hs
    rcases first_claims pre a with hnone | ⟨before, t, between, hpre, ht, hbefore⟩
    · have hclaims := claims_of_inside (hwrap s hs hmapped) ha
      rw [hl, firstFlag_of_claims hnone hclaims, Option.getD_some, hflag]
    · have hl' : l = before ++ t :: (between ++ s :: post) := by rw [hl, hpre]; simp
      have heq : executable t = executable s := by
        by_contra hdiff
        obtain ⟨u, hu, hclaims⟩ := h before t between s post hl' hmapped hdiff a ha ht
        exact hbefore u hu hclaims
      rw [hl', firstFlag_of_claims hbefore ht, Option.getD_some, hflag, heq]

/-- In particular when no mapped range meets the closed range of an earlier header. -/
theorem notShadowed_of_pairwise {l : List α}
    (h : l.Pairwise fun t s =>
      mapped s = true → ∀ a, Inside addr size s a → ¬ Claims addr size t a) :
    NotShadowed addr size mapped executable l := by
  intro before t between s after hl hmapped _ a ha ht
  rw [hl, List.pairwise_append] at h
  have hts := List.rel_of_pairwise_cons h.2.1 (show s ∈ between ++ s :: after by simp)
  exact absurd ht (hts hmapped a ha)

end Search

/-! ### Segments and sections -/

variable {f : File} {elf : Elf}

def Segment.isExecutable (s : Segment) : Bool := s.flags &&& pfX ≠ 0

/-- The section is `SHF_ALLOC`. -/
def Section.isAlloc (s : Section) : Bool := s.flags &&& shfAlloc ≠ 0

def Section.isExecutable (s : Section) : Bool := s.flags &&& shfExecinstr ≠ 0

theorem pfX_ne_zero (s : Segment) : s.flags &&& pfX ≠ 0 ↔ s.isExecutable = true := by
  rw [Segment.isExecutable, decide_eq_true_iff]

theorem setWidth_shfExecinstr_ne_zero (s : Section) :
    (s.flags &&& shfExecinstr).setWidth 32 ≠ 0 ↔ s.isExecutable = true := by
  have hbit : ∀ x : U64, (x &&& 0x4).toNat < 2 ^ 32 := by
    intro x
    have hle : (x &&& 0x4).toNat ≤ 4 := by
      rw [BitVec.toNat_and]
      exact Nat.and_le_right
    omega
  have hlt := hbit s.flags
  rw [Section.isExecutable, decide_eq_true_iff]
  show (s.flags &&& 0x4).setWidth 32 ≠ 0 ↔ s.flags &&& 0x4 ≠ 0
  generalize s.flags &&& 0x4 = x at hlt
  refine not_congr ?_
  rw [← BitVec.toNat_inj, ← BitVec.toNat_inj, BitVec.toNat_setWidth, Nat.mod_eq_of_lt hlt]
  rfl

/-- For every address of a mapped range the executability test answers for that range, and
a relocation whose value is that address stores it from the range's own base. -/
def RebasesByRange {α : Type} (addr size : α → U64) (mapped executable : α → Bool) (l : List α)
    (f : File) (elf : Elf) : Prop :=
  ∀ s ∈ l, mapped s = true → ∀ a, Inside addr size s a →
    (∃ v, result f (elfLoaderRelativeAddressIsExecutable (some elf) a) = .ok v ∧
      (v ≠ 0 ↔ executable s = true)) ∧
    ∀ (w e : U64) (symbols : Option Table) (r : U64),
      (f.relaAt r).value f symbols = .ok (some a) →
      stores f (relocateEntry (some elf) w e (symbols.map Table.base)
        ((symbols.map Table.size).getD 0) r)
        = span (w + (f.relaAt r).offset) 8
            (byteOf ((if executable s = true then e else w) + a).toNat)

theorem rebasesByRange_iff {α : Type} {addr size : α → U64} {mapped executable : α → Bool}
    {l : List α} :
    RebasesByRange addr size mapped executable l f elf ↔
      ∀ s ∈ l, mapped s = true → ∀ a, Inside addr size s a →
        (f.isExecutable a ≠ 0 ↔ executable s = true) := by
  unfold RebasesByRange
  constructor
  · intro h s hs hmapped a ha
    obtain ⟨v, hv, hiff⟩ := (h s hs hmapped a ha).1
    rw [result_elfLoaderRelativeAddressIsExecutable] at hv
    rwa [Except.ok.inj hv]
  · intro h s hs hmapped a ha
    have hiff := h s hs hmapped a ha
    refine ⟨⟨_, result_elfLoaderRelativeAddressIsExecutable a, hiff⟩, fun w e symbols r hr => ?_⟩
    rw [stores_relocateEntry, entryStores, hr]
    simp only [File.rebased, hiff]

/--
**When a pointer is rebased to the alias of the range it points into.**

Exactly when, among the program headers, or the sections where there are none, no header
of the other kind in front of a mapped one is the first to claim one of its addresses.
-/
theorem elfLoaderRelocate_rebases_iff (f : File) (elf : Elf) :
    (f.phoff ≠ 0 → RangesDisjoint Segment.paddr Segment.memsz Segment.isLoad f.segments →
      (RebasesByRange Segment.paddr Segment.memsz Segment.isLoad Segment.isExecutable f.segments
          f elf ↔
        NotShadowed Segment.paddr Segment.memsz Segment.isLoad Segment.isExecutable
          f.segments)) ∧
    (f.phoff = 0 → f.shoff ≠ 0 →
      RangesDisjoint Section.addr Section.size Section.isAlloc f.sections →
      (RebasesByRange Section.addr Section.size Section.isAlloc Section.isExecutable f.sections
          f elf ↔
        NotShadowed Section.addr Section.size Section.isAlloc Section.isExecutable
          f.sections)) := by
  refine ⟨fun hph hranges => ?_, fun hph hsh hranges => ?_⟩
  · rw [rebasesByRange_iff, ← firstFlag_iff_notShadowed pfX_ne_zero hranges.noWrap]
    simp only [File.isExecutable, if_pos hph]
  · rw [rebasesByRange_iff,
      ← firstFlag_iff_notShadowed setWidth_shfExecinstr_ne_zero hranges.noWrap]
    simp only [File.isExecutable, if_neg (not_not.mpr hph), if_pos hsh]

/-- Sixteen bytes of code and, from `start` on, sixteen bytes of data. -/
def codeDataFile (start : U64) : File :=
  File.ofBytes ((headerOf 2).bytes ++ (⟨ptLoad, 5, 0, 0, 0, 16, 16, 0⟩ : Segment).bytes ++
    (⟨ptLoad, 6, 0, 0, start, 16, 16, 0⟩ : Segment).bytes)

theorem codeDataFile_segments (start : U64) (h : start = 16 ∨ start = 32) :
    (codeDataFile start).segments
      = [⟨ptLoad, 5, 0, 0, 0, 16, 16, 0⟩, ⟨ptLoad, 6, 0, 0, start, 16, 16, 0⟩] := by
  rcases h with rfl | rfl <;> decide +kernel

theorem codeDataFile_ranges (start : U64) (h : start = 16 ∨ start = 32) :
    RangesDisjoint Segment.paddr Segment.memsz Segment.isLoad (codeDataFile start).segments := by
  rw [codeDataFile_segments start h]
  refine ⟨?_, ?_⟩
  · rcases h with rfl | rfl <;> decide
  · refine List.pairwise_pair.mpr fun a hcode hdata => ?_
    have hhi : a.toNat < 16 := hcode.2
    have hlo : start.toNat ≤ a.toNat := hdata.1
    rcases h with rfl | rfl
    · exact absurd (show 16 ≤ a.toNat from hlo) (by omega)
    · exact absurd (show 32 ≤ a.toNat from hlo) (by omega)

/-- With a gap between code and data every pointer gets its own alias. -/
theorem codeDataFile_rebases :
    RebasesByRange Segment.paddr Segment.memsz Segment.isLoad Segment.isExecutable
      (codeDataFile 32).segments (codeDataFile 32) ⟨176⟩ := by
  refine ((elfLoaderRelocate_rebases_iff (codeDataFile 32) ⟨176⟩).1 (by decide +kernel)
    (codeDataFile_ranges 32 (Or.inr rfl))).mpr (notShadowed_of_pairwise ?_)
  rw [codeDataFile_segments 32 (Or.inr rfl)]
  refine List.pairwise_pair.mpr fun _ a hin hclaims => ?_
  have hlo : 32 ≤ a.toNat := hin.1
  have hhi : a.toNat ≤ 16 := hclaims.2
  omega

/-- Where data starts right after code, a pointer to its first byte gets the alias of the
code. -/
theorem codeDataFile_not_rebases :
    ¬ ∀ (f : File) (elf : Elf), f.phoff ≠ 0 →
      RangesDisjoint Segment.paddr Segment.memsz Segment.isLoad f.segments →
      RebasesByRange Segment.paddr Segment.memsz Segment.isLoad Segment.isExecutable f.segments
        f elf := by
  intro h
  have hlaw := h (codeDataFile 16) ⟨176⟩ (by decide +kernel) (codeDataFile_ranges 16 (Or.inl rfl))
    ⟨ptLoad, 6, 0, 0, 16, 16, 16, 0⟩ (by rw [codeDataFile_segments 16 (Or.inl rfl)]; simp)
    (by decide) 16 ⟨by decide, by decide⟩
  obtain ⟨v, hv, hiff⟩ := hlaw.1
  have hone : result (codeDataFile 16)
      (elfLoaderRelativeAddressIsExecutable (some ⟨176⟩) 16) = .ok 1 := by decide +kernel
  rw [hone] at hv
  have hexec := hiff.mp (by rw [← Except.ok.inj hv]; decide)
  exact absurd hexec (by decide)

end LibPS4
