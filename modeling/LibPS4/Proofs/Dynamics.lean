/-
The dynamic table through either of its headers.

A dynamic table ends at its first entry with the tag `DT_NULL`, and the byte range that a
header gives for it may go on behind that entry.  Through the section header
`elfDynamics` counts the entries of the whole range; through the program header it counts
up to the first `DT_NULL`, which may be behind the range.  Both counts are cut to 16 bits.
A table is therefore seen alike if nothing in its range is `DT_NULL` and the first entry
behind it is, which is not how a linker lays it out.
-/
import LibPS4.Elf.Build
import LibPS4.Proofs.Enumerate
import LibPS4.Proofs.Named

namespace LibPS4

open Effects Prog

variable {f f' : File} {elf : Elf} {base : U64} {n : Nat}

/-! ### The table -/

/-- An entry. -/
structure Dynamic where
  tag : U64
  value : U64
  deriving DecidableEq, Repr

/-- The attribute of an entry, 0 for `ElfDynamicAttributeNone`. -/
def Dynamic.attribute (d : Dynamic) : ElfDynamicAttribute → U64
  | .tag => d.tag
  | .value => d.value
  | .pointer => d.value
  | .none => 0

/-- Where entry `i` of the table at `base` is. -/
def dynamicAddress (base : U64) (i : Nat) : U64 := base + BitVec.ofNat 64 (i * elfDynamicSize)

/-- Entry `i` of the table at `base`. -/
def File.dynamicAt (f : File) (base : U64) (i : Nat) : Dynamic :=
  ⟨le64 f (dynamicAddress base i), le64 f (dynamicAddress base i + 8)⟩

/-- The number of entries before the first `DT_NULL`, of `n` entries. -/
def File.liveEntries (f : File) (base : U64) (n : Nat) : Nat :=
  ((List.range n).find? fun i => (f.dynamicAt base i).tag = dtNull).getD n

/-- The entry has the attribute value; any entry for the attribute `None`. -/
def Dynamic.Matches (d : Dynamic) (attr : ElfDynamicAttribute) (value : U64) : Prop :=
  attr = .none ∨ d.attribute attr = value

/-- What the code sees is the table of `count` entries at `base`. -/
structure SeesTable (f : File) (elf : Elf) (base : U64) (count : Nat) : Prop where
  reported : ∃ t, result f (elfDynamics (some elf)) = .ok (some t) ∧ t.base = base ∧
    t.length.toNat = count
  found : ∀ attr value, ∃ o last,
    First (fun i => (f.dynamicAt base i).Matches attr value) count o ∧
      result f (elfDynamic (some elf) 0 attr value) = .ok (o.map (dynamicAddress base), last)

/-- A file `f` in which a `SHT_DYNAMIC` section and the `PT_DYNAMIC` segment give one byte
range, and `f'`, the file without its section table. -/
structure DescribedTwice (f f' : File) (s : Section) (p : Segment) : Prop where
  sections : f.shoff ≠ 0
  dynamicSection : ∃ k, First (fun k => (f.sectionAt (f.sectionTable.entry k)).type = shtDynamic)
    f.sectionTable.length.toNat (some k) ∧ f.sectionAt (f.sectionTable.entry k) = s
  entsize : s.entsize = 16
  removed : f'.shoff = 0
  segments : f'.phoff ≠ 0
  dynamicSegment : ∃ k, First (fun k => (f'.segmentAt (f'.segmentTable.entry k)).type = ptDynamic)
    f'.segmentTable.length.toNat (some k) ∧ f'.segmentAt (f'.segmentTable.entry k) = p
  offset : p.offset = s.offset
  bytes : p.filesz = s.size
  entries : ∀ i < s.size.toNat / 16, f'.dynamicAt s.offset i = f.dynamicAt s.offset i

/-- The entries of the range. -/
def Section.dynamicCount (s : Section) : Nat := s.size.toNat / 16

/-- The table is the same through both headers: the entries of the range before the first
`DT_NULL`. -/
structure SeenAlike (f f' : File) (elf : Elf) (s : Section) : Prop where
  bySection : SeesTable f elf s.offset (f.liveEntries s.offset s.dynamicCount)
  bySegment : SeesTable f' elf s.offset (f.liveEntries s.offset s.dynamicCount)
  alike : ∀ attr value, (result f (elfDynamic (some elf) 0 attr value)).map Prod.fst
    = (result f' (elfDynamic (some elf) 0 attr value)).map Prod.fst
  inside : f.liveEntries s.offset s.dynamicCount ≤ s.dynamicCount

/-- Both counts, in 16 bits, are the number of entries before the first `DT_NULL` of the range:
the number of all entries of the range, and the number of entries before the first `DT_NULL`
from its start on. -/
structure CountsAgree (f f' : File) (s : Section) : Prop where
  range : s.dynamicCount % 2 ^ 16 = f.liveEntries s.offset s.dynamicCount
  terminator : ∃ e < 2 ^ 60, (f'.dynamicAt s.offset e).tag = dtNull ∧
    (∀ i < e, (f'.dynamicAt s.offset i).tag ≠ dtNull) ∧
    e % 2 ^ 16 = f.liveEntries s.offset s.dynamicCount

theorem liveEntries_le (f : File) (base : U64) (n : Nat) : f.liveEntries base n ≤ n := by
  unfold File.liveEntries
  cases h : (List.range n).find? fun i => (f.dynamicAt base i).tag = dtNull with
  | none => exact Nat.le_refl n
  | some i => exact Nat.le_of_lt (List.mem_range.mp (List.mem_of_find?_eq_some h))

/-! ### What the code counts -/

theorem result_endsAt (base : U64) (i : Nat) :
    result f (endsAt base i)
      = .ok (if (f.dynamicAt base i).tag = dtNull then some i else none) := by
  rw [endsAt, ElfDynamic.dTag, result_bind, result_fetch64, ok_bind, result_ite, pure_eq, pure_eq,
    result_ret, result_ret, ← apply_ite Except.ok]
  rfl

variable (f base) in
/-- The first `DT_NULL`, if there is one before the pointer wraps. -/
theorem elfDynamicsLength_first :
    ∃ o, First (fun i => (f.dynamicAt base i).tag = dtNull) (2 ^ 60) o ∧
      result f (elfDynamicsLength base)
        = match o with
          | some e => .ok (BitVec.ofNat 16 e)
          | none => .error .diverges := by
  obtain ⟨o, hfirst, hres⟩ := findFrom_isFirst (result_endsAt (f := f) base) (2 ^ 60)
  refine ⟨o, hfirst, ?_⟩
  rw [elfDynamicsLength, result_bind, hres, Option.map_id_fun']
  cases o with
  | none => rfl
  | some e => rfl

section Paths

variable {s : Section} {p : Segment} (h : DescribedTwice f f' s p)

variable (elf) in
include h in
theorem DescribedTwice.result_bySection :
    result f (elfDynamics (some elf)) = .ok (some ⟨s.offset, 16, (s.size / 16).setWidth 16⟩) := by
  have htable : result f (elfSections (some elf)) = .ok (some f.sectionTable) := by
    rw [result_elfSections, if_neg h.sections]
  obtain ⟨o, j, hfirst, hres⟩ := (steps_elfSection .type (shtDynamic.setWidth 64) htable).first
  obtain ⟨k, hk, hs⟩ := h.dynamicSection
  have ho : o = some k := (hfirst.congr fun k _ => passes_sectionType_iff _ _ k).unique hk
  have hent : le64 f (f.sectionTable.entry k + 56) = 16 :=
    (congrArg Section.entsize hs).trans h.entsize
  have hne : ¬ (16 : U64) = 0 := by decide
  have hsize : le64 f (f.sectionTable.entry k + 32) = s.size := by
    rw [← hs]
    rfl
  have hoffset : le64 f (f.sectionTable.entry k + 24) = s.offset := by
    rw [← hs]
    rfl
  rw [elfDynamics, result_bind, hres, ho]
  simp only [ok_bind, Option.map_some, ElfSection.shEntsize, ElfSection.shSize, ElfSection.shOffset,
    result_bind, result_fetch64, hent, hsize, if_neg hne, hoffset, pure_eq, result_ret]
  rfl

variable (elf) in
include h in
theorem DescribedTwice.result_bySegment :
    result f' (elfDynamics (some elf)) = result f' (elfDynamicsLength s.offset) >>= fun length =>
      .ok (some ⟨s.offset, 16, length⟩) := by
  have hnone : result f' (elfSections (some elf)) = .ok none := by
    rw [result_elfSections, if_pos h.removed]
  have htable : result f' (elfSegments (some elf)) = .ok (some f'.segmentTable) := by
    rw [result_elfSegments, if_neg h.segments]
  obtain ⟨o, j, hfirst, hres⟩ := (steps_elfSegment .type (ptDynamic.setWidth 64) htable).first
  obtain ⟨k, hk, hp⟩ := h.dynamicSegment
  have ho : o = some k := (hfirst.congr fun k _ => passes_segmentType_iff _ _ k).unique hk
  have hoffset : le64 f' (f'.segmentTable.entry k + 8) = s.offset :=
    (congrArg Segment.offset hp).trans h.offset
  have hsection : result f' (elfSection (some elf) 0 .type (shtDynamic.setWidth 64))
      = .ok (none, 0) := by
    rw [elfSection, result_bind, hnone]
    rfl
  rw [elfDynamics, result_bind, hsection]
  simp only [ok_bind, result_bind, hres, ho, Option.map_some, ElfSegment.pOffset, result_fetch64,
    hoffset]
  rfl

end Paths

/-! ### What the code finds -/

theorem entry_eq_dynamicAddress {t : Table} (hsize : t.size = 16) {i : Nat}
    (hi : i < t.length.toNat) : t.entry i = dynamicAddress t.base i := by
  have hlength := t.length.isLt
  have hstride : t.size.toNat = 16 := by rw [hsize]; rfl
  have hoffset : entryOffset i t.size = BitVec.ofNat 64 (i * t.size.toNat) := by
    refine (entryOffset_eq_iff ?_).mpr ?_
    · rw [hstride]
      omega
    · rw [hstride]
      omega
  rw [Table.entry, hoffset, hstride]
  rfl

theorem result_elfDynamicAttribute (base : U64) (i : Nat) (attr : ElfDynamicAttribute) :
    result f (elfDynamicAttribute (dynamicAddress base i) attr)
      = .ok ((f.dynamicAt base i).attribute attr) := by
  cases attr with
  | none => rfl
  | tag | value | pointer => exact result_fetch64 _

/-- A table of the right stride is seen as it is reported. -/
theorem seesTable_of_reported {t : Table} (ht : result f (elfDynamics (some elf)) = .ok (some t))
    (hsize : t.size = 16) : SeesTable f elf t.base t.length.toNat := by
  refine ⟨⟨t, ht, rfl, rfl⟩, fun attr value => ?_⟩
  obtain ⟨o, last, hfirst, hres⟩ := (steps_elfDynamic attr value ht).first
  refine ⟨o, last, hfirst.congr fun i hi => ?_, ?_⟩
  · unfold Passes Dynamic.Matches
    rw [entry_eq_dynamicAddress hsize hi, result_elfDynamicAttribute, Except.ok.injEq]
  · rw [hres]
    cases o with
    | none => rfl
    | some k => rw [Option.map_some, Option.map_some, entry_eq_dynamicAddress hsize hfirst.1]

/-- The same entries are found alike. -/
theorem found_alike {count : Nat} (hsees : SeesTable f elf base count)
    (hsees' : SeesTable f' elf base count)
    (hsame : ∀ i < count, f'.dynamicAt base i = f.dynamicAt base i)
    (attr : ElfDynamicAttribute) (value : U64) :
    (result f (elfDynamic (some elf) 0 attr value)).map Prod.fst
      = (result f' (elfDynamic (some elf) 0 attr value)).map Prod.fst := by
  obtain ⟨o, last, hfirst, hres⟩ := hsees.found attr value
  obtain ⟨o', last', hfirst', hres'⟩ := hsees'.found attr value
  have ho : o = o' := hfirst.unique (hfirst'.congr fun i hi => by rw [hsame i hi])
  rw [hres, hres', ho]
  rfl

theorem toNat_dynamicCount (s : Section) :
    ((s.size / 16).setWidth 16).toNat = s.dynamicCount % 2 ^ 16 := by
  rw [BitVec.toNat_setWidth, BitVec.toNat_udiv]
  rfl

/-- **The dynamic table through either header.** -/
theorem elfDynamics_alike_iff (f f' : File) (elf : Elf) (s : Section) (p : Segment)
    (h : DescribedTwice f f' s p) : SeenAlike f f' elf s ↔ CountsAgree f f' s := by
  have hsection := h.result_bySection elf
  have hsegment := h.result_bySegment elf
  obtain ⟨o, hfirst, hlength⟩ := elfDynamicsLength_first f' s.offset
  rw [hlength] at hsegment
  constructor
  · intro halike
    obtain ⟨t, ht, -, hcount⟩ := halike.bySection.reported
    obtain ⟨t', ht', -, hcount'⟩ := halike.bySegment.reported
    refine ⟨?_, ?_⟩
    · rw [hsection] at ht
      rw [← hcount, ← Option.some.inj (Except.ok.inj ht), ← toNat_dynamicCount]
    · rw [hsegment] at ht'
      cases o with
      | none => cases ht'
      | some e =>
          obtain ⟨he, htag, hbefore⟩ := hfirst
          refine ⟨e, he, htag, hbefore, ?_⟩
          rw [← hcount', ← Option.some.inj (Except.ok.inj ht'), BitVec.toNat_ofNat]
  · rintro ⟨hrange, e, he, htag, hbefore, hterminator⟩
    have ho : o = some e := hfirst.unique ⟨he, htag, hbefore⟩
    rw [ho] at hsegment
    have hsees := seesTable_of_reported hsection rfl
    have hsees' := seesTable_of_reported hsegment rfl
    have hlive := liveEntries_le f s.offset s.dynamicCount
    simp only [toNat_dynamicCount, hrange] at hsees
    simp only [BitVec.toNat_ofNat, hterminator] at hsees'
    refine ⟨hsees, hsees', found_alike hsees hsees' fun i hi => ?_, hlive⟩
    exact h.entries i (Nat.lt_of_lt_of_le hi hlive)

/-- `".dynamic"`. -/
def dynamicName : List Byte := [0x2e, 0x64, 0x79, 0x6e, 0x61, 0x6d, 0x69, 0x63]

/-- The bytes of an entry. -/
def Dynamic.bytes (d : Dynamic) : List Byte := leBytes 8 d.tag.toNat ++ leBytes 8 d.value.toNat

/-- A file with these entries as its dynamic table, in a section and a segment. -/
def dynamicFile (entries : List Dynamic) : File :=
  File.ofBytes (fileBytes
    [⟨ptDynamic, 4, 332, 0, 0, BitVec.ofNat 64 (16 * entries.length),
      BitVec.ofNat 64 (16 * entries.length), 8⟩]
    [{ name := dynamicName, type := shtDynamic, size := 16 * entries.length, entsize := 16,
       contents := entries.flatMap Dynamic.bytes }])

/-- The file without `e_shoff`. -/
def File.withoutSections (f : File) : File :=
  fun a => if 40 ≤ a.toNat ∧ a.toNat < 48 then 0 else f a

/-- One entry, and nothing in the range to end the table. -/
def openTable : File := dynamicFile [⟨5, 7⟩]

/-- One entry and the end of the table. -/
def closedTable : File := dynamicFile [⟨5, 7⟩, ⟨0, 0⟩]

/-- The section header of a table of `size` bytes. -/
def dynamicHeader (size : U64) : Section := ⟨1, shtDynamic, 0, 0, 332, size, 16⟩

theorem openTable_twice : DescribedTwice openTable openTable.withoutSections (dynamicHeader 16)
    ⟨ptDynamic, 4, 332, 0, 0, 16, 16, 8⟩ where
  sections := by decide +kernel
  dynamicSection :=
    ⟨1, ⟨by decide +kernel, by decide +kernel, by decide +kernel⟩, by decide +kernel⟩
  entsize := rfl
  removed := by decide +kernel
  segments := by decide +kernel
  dynamicSegment :=
    ⟨0, ⟨by decide +kernel, by decide +kernel, by decide +kernel⟩, by decide +kernel⟩
  offset := rfl
  bytes := rfl
  entries := by decide +kernel

theorem closedTable_twice : DescribedTwice closedTable closedTable.withoutSections
    (dynamicHeader 32) ⟨ptDynamic, 4, 332, 0, 0, 32, 32, 8⟩ where
  sections := by decide +kernel
  dynamicSection :=
    ⟨1, ⟨by decide +kernel, by decide +kernel, by decide +kernel⟩, by decide +kernel⟩
  entsize := rfl
  removed := by decide +kernel
  segments := by decide +kernel
  dynamicSegment :=
    ⟨0, ⟨by decide +kernel, by decide +kernel, by decide +kernel⟩, by decide +kernel⟩
  offset := rfl
  bytes := rfl
  entries := by decide +kernel

/-- Nothing behind the table is part of it. -/
theorem openTable_alike :
    SeenAlike openTable openTable.withoutSections ⟨348⟩ (dynamicHeader 16) := by
  refine (elfDynamics_alike_iff openTable openTable.withoutSections ⟨348⟩ (dynamicHeader 16)
    ⟨ptDynamic, 4, 332, 0, 0, 16, 16, 8⟩ openTable_twice).mpr ⟨by decide +kernel, 1, by decide, ?_⟩
  exact ⟨by decide +kernel, by decide +kernel, by decide +kernel⟩

/-- Through the section the end of the table counts as an entry. -/
theorem closedTable_not_alike :
    ¬ ∀ (f f' : File) (elf : Elf) (s : Section) (p : Segment), DescribedTwice f f' s p →
      SeenAlike f f' elf s := by
  intro h
  have halike := h closedTable closedTable.withoutSections ⟨364⟩ (dynamicHeader 32)
    ⟨ptDynamic, 4, 332, 0, 0, 32, 32, 8⟩ closedTable_twice
  obtain ⟨t, ht, -, hcount⟩ := halike.bySection.reported
  have htable : result closedTable (elfDynamics (some ⟨364⟩)) = .ok (some ⟨332, 16, 2⟩) := by
    decide +kernel
  have hlive : closedTable.liveEntries (dynamicHeader 32).offset (dynamicHeader 32).dynamicCount
      = 1 := by decide +kernel
  rw [htable] at ht
  rw [hlive, ← Option.some.inj (Except.ok.inj ht)] at hcount
  exact absurd hcount (by decide)

end LibPS4
