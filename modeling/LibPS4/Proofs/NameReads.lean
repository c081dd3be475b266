/-
Where the file is read to find a section by its name.

The chain is the longest of the loader: `e_shstrndx` gives a section header, that header
gives the string table, the string table is scanned for the name, and the offset found is
looked for among the names of all sections.  Every link is an offset from the file, and
each function here reads as far as its answer forces it to: the scan of a string stops at
the first byte that differs, the scan of the table at the first string that matches.
-/
import LibPS4.Proofs.Reads
import LibPS4.Proofs.Named

namespace LibPS4

open Effects Prog

variable {f : File} {elf : Elf} {size : U64}

/-! ### The string table -/

/-- `e_shstrndx`. -/
def File.shstrndx (f : File) : Nat := (le16 f 62).toNat

/-- There is a section header for the section names. -/
def File.HasNames (f : File) : Prop :=
  f.shoff ≠ 0 ∧ f.shstrndx < f.sectionTable.length.toNat

instance (f : File) : Decidable f.HasNames :=
  inferInstanceAs (Decidable (f.shoff ≠ 0 ∧ f.shstrndx < f.sectionTable.length.toNat))

/-- Where it is. -/
def File.namesHeader (f : File) : U64 := f.sectionTable.entry f.shstrndx

/-- Without an attribute to compare, the search ends where it starts, if that is an entry. -/
theorem elfSectionLoop_none (t : Table) (n i : Nat) :
    elfSectionLoop t .none 0 n i = if n = 0 then ret none else ret (some (t.entry i, i)) := by
  cases n with
  | zero => rfl
  | succ n => rfl

variable (elf) in
theorem elfSection_none_of_hasNames (h : f.HasNames) :
    ∃ j, result f (elfSection (some elf) (le16 f 62) .none 0)
      = .ok (some f.namesHeader, j) := by
  obtain ⟨hsh, hlt⟩ := h
  have hn : ¬ f.sectionTable.length.toNat - (le16 f 62).toNat = 0 := Nat.sub_ne_zero_of_lt hlt
  unfold elfSection
  rw [result_bind, result_elfSections, ok_bind]
  simp only [if_neg hsh, elfSectionLoop_none, if_neg hn]
  exact ⟨_, rfl⟩

variable (elf) in
theorem elfSection_none_of_not_hasNames (h : ¬ f.HasNames) :
    ∃ j, result f (elfSection (some elf) (le16 f 62) .none 0) = .ok (none, j) := by
  unfold elfSection
  rw [result_bind, result_elfSections, ok_bind]
  by_cases hsh : f.shoff = 0
  · rw [if_pos hsh]
    exact ⟨_, rfl⟩
  · have hn : f.sectionTable.length.toNat - (le16 f 62).toNat = 0 :=
      Nat.sub_eq_zero_of_le (Nat.not_lt.mp fun hlt => h ⟨hsh, hlt⟩)
    simp only [if_neg hsh, elfSectionLoop_none, if_pos hn]
    exact ⟨_, rfl⟩

theorem readsIn_elfSection_none (h : 64 ≤ size.toNat) (index : U16) :
    ReadsIn f (InFile size) (elfSection (some elf) index .none 0) := by
  unfold elfSection
  rw [readsIn_bind_of_ok result_elfSections]
  refine ⟨readsIn_elfSections h, ?_⟩
  by_cases hsh : f.shoff = 0
  · rw [if_pos hsh]
    exact readsIn_ret _
  · simp only [if_neg hsh, elfSectionLoop_none]
    by_cases hn : f.sectionTable.length.toNat - index.toNat = 0
    · rw [if_pos hn]
      exact readsIn_ret _
    · rw [if_neg hn]
      exact readsIn_ret _

variable (elf) in
/-- The string table, or a crash. -/
theorem result_elfSectionStrings :
    result f (elfSectionStrings (some elf))
      = if f.HasNames then .ok (le64 f (f.namesHeader + 24), le64 f (f.namesHeader + 32))
        else .error .nullDereference := by
  simp only [elfSectionStrings, deref, ElfHeader.eShstrndx, ElfSection.shSize, ElfSection.shOffset,
    pure_eq, ret_bind, result_bind, result_fetch16, ok_bind]
  by_cases hn : f.HasNames
  · obtain ⟨j, hj⟩ := elfSection_none_of_hasNames elf hn
    rw [if_pos hn, hj]
    simp only [ok_bind, result_ret, result_fetch64]
  · obtain ⟨j, hj⟩ := elfSection_none_of_not_hasNames elf hn
    rw [if_neg hn, hj]
    rfl

theorem readsIn_elfSectionStrings :
    ReadsIn f (InFile size) (elfSectionStrings (some elf)) ↔ Fits size 62 2 ∧
      (ReadsIn f (InFile size) (elfSection (some elf) (le16 f 62) .none 0) ∧
      (f.HasNames → Fits size (f.namesHeader + 32) 8 ∧ Fits size (f.namesHeader + 24) 8)) := by
  simp only [elfSectionStrings, deref, ElfHeader.eShstrndx, ElfSection.shSize, ElfSection.shOffset,
    pure_eq, ret_bind, readsIn_fetch16_bind]
  refine and_congr_right fun _ => ?_
  by_cases hn : f.HasNames
  · obtain ⟨j, hj⟩ := elfSection_none_of_hasNames elf hn
    rw [readsIn_bind_of_ok hj]
    simp only [ret_bind, readsIn_fetch64_bind, readsIn_ret, and_true, hn, true_implies]
  · obtain ⟨j, hj⟩ := elfSection_none_of_not_hasNames elf hn
    rw [readsIn_bind_of_ok hj]
    exact and_congr_right fun _ => iff_of_true (readsIn_raise _) fun hc => absurd hc hn

/-! ### Strings -/

/-- The byte at `mem[i + j]`. -/
def File.charAt (f : File) (mem : U64) (i j : Nat) : Byte := f (mem + BitVec.ofNat 64 (i + j))

/-- The bytes of `str` before its byte `j` stand at `mem + i`, and none of them ends it. -/
def File.AgreesBefore (f : File) (mem : U64) (str : List Byte) (i j : Nat) : Prop :=
  ∀ k < j, f.charAt mem i k = str.getD k 0 ∧ str.getD k 0 ≠ 0

/-- `str` stands at `mem + i`, as `elfStringToOffset` compares. -/
def File.matchesAt (f : File) (mem : U64) (str : List Byte) (i : Nat) : Bool :=
  (List.range' 0 elfMaximalStringLength).findSome? (fun j =>
    if f.charAt mem i j ≠ str.getD j 0 then some false
    else if str.getD j 0 = 0 then some true else none) = some true

/-- One comparison of the inner loop. -/
def charBody (mem : U64) (str : List Byte) (i j : Nat) : ElfProg (Option Bool) := do
  if (← fetch8 (mem + BitVec.ofNat 64 (i + j))) ≠ str.getD j 0 then
    return some false
  if str.getD j 0 = 0 then
    return some true
  return none

theorem result_charBody (mem : U64) (str : List Byte) (i j : Nat) :
    result f (charBody mem str i j)
      = .ok (if f.charAt mem i j ≠ str.getD j 0 then some false
          else if str.getD j 0 = 0 then some true else none) := by
  simp only [charBody, result_bind, result_fetch8, ok_bind, result_ite, pure_eq, result_ret,
    File.charAt, ← apply_ite Except.ok]
  rfl

theorem readsIn_charBody {Q : U64 → Prop} (mem : U64) (str : List Byte) (i j : Nat) :
    ReadsIn f Q (charBody mem str i j) ↔ Q (mem + BitVec.ofNat 64 (i + j)) := by
  simp only [charBody, readsIn_byte_bind, readsIn_ite, pure_eq, readsIn_ret, implies_true,
    and_true]

theorem result_stringMatches (mem : U64) (str : List Byte) (i : Nat) :
    result f (stringMatches mem str i) = .ok (f.matchesAt mem str i) := by
  show result f (findFrom (charBody mem str i) elfMaximalStringLength 0 >>= _) = _
  rw [result_bind, result_findFrom (result_charBody mem str i)]
  rfl

theorem readsIn_stringMatches {Q : U64 → Prop} (mem : U64) (str : List Byte) (i : Nat) :
    ReadsIn f Q (stringMatches mem str i) ↔
      ∀ j < elfMaximalStringLength, f.AgreesBefore mem str i j →
        Q (mem + BitVec.ofNat 64 (i + j)) := by
  have hgoes : ∀ j, result f (charBody mem str i j) = .ok none ↔
      f.charAt mem i j = str.getD j 0 ∧ str.getD j 0 ≠ 0 := by
    intro j
    rw [result_charBody]
    generalize str.getD j 0 = c
    by_cases h1 : f.charAt mem i j = c
    · simp [h1]
    · simp [h1]
  show ReadsIn f Q (findFrom (charBody mem str i) elfMaximalStringLength 0 >>= _) ↔ _
  rw [readsIn_bind_of_ok (result_findFrom (result_charBody mem str i) _ _), readsIn_findFrom]
  simp only [pure_eq, readsIn_ret, and_true, readsIn_charBody, mem_visited, hgoes, Nat.zero_le,
    true_and, true_implies, Nat.zero_add, and_imp, File.AgreesBefore]

/-- The bytes a scan of the string table for `str` looks at. -/
def ScanFits (f : File) (size mem length : U64) (str : List Byte) : Prop :=
  ∀ i < length.toNat, (∀ k < i, f.matchesAt mem str k = false) →
    ∀ j < elfMaximalStringLength, f.AgreesBefore mem str i j →
      InFile size (mem + BitVec.ofNat 64 (i + j))

/-- One iteration of the outer loop. -/
def stringBody (mem : U64) (str : List Byte) (i : Nat) : ElfProg (Option Nat) := do
  if ← stringMatches mem str i then
    return some i
  return none

theorem result_stringBody (mem : U64) (str : List Byte) (i : Nat) :
    result f (stringBody mem str i)
      = .ok (if f.matchesAt mem str i = true then some i else none) := by
  simp only [stringBody, result_bind, result_stringMatches, ok_bind, result_ite, pure_eq,
    result_ret, ← apply_ite Except.ok]

theorem readsIn_stringBody {Q : U64 → Prop} (mem : U64) (str : List Byte) (i : Nat) :
    ReadsIn f Q (stringBody mem str i) ↔ ReadsIn f Q (stringMatches mem str i) := by
  simp only [stringBody, readsIn_bind_of_ok (result_stringMatches mem str i), readsIn_ite, pure_eq,
    readsIn_ret, implies_true, and_true]

/-- The offset the scan finds, 0 when it finds none. -/
def File.stringOffset (f : File) (mem length : U64) (str : List Byte) : U32 :=
  BitVec.ofNat 32 (((List.range' 0 length.toNat).findSome? fun i =>
    if f.matchesAt mem str i = true then some i else none).getD 0)

theorem result_elfStringToOffset (mem length : U64) (str : List Byte) :
    result f (elfStringToOffset mem length (some str)) = .ok (f.stringOffset mem length str) := by
  show result f (findFrom (stringBody mem str) length.toNat 0 >>= _) = _
  rw [result_bind, result_findFrom (result_stringBody mem str)]
  rfl

/-- The scan returns the first match. -/
theorem elfStringToOffset_isFirst (mem length : U64) (str : List Byte) :
    ∃ o, First (fun i => f.matchesAt mem str i = true) length.toNat o ∧
      result f (elfStringToOffset mem length (some str)) = .ok (BitVec.ofNat 32 (o.getD 0)) := by
  obtain ⟨o, hfirst, hres⟩ := findFrom_isFirst (result_stringBody (f := f) mem str) length.toNat
  refine ⟨o, hfirst, ?_⟩
  show result f (findFrom (stringBody mem str) length.toNat 0 >>= _) = _
  rw [result_bind, hres, ok_bind, Option.map_id_fun']
  rfl

theorem readsIn_elfStringToOffset {Q : U64 → Prop} (mem length : U64) (str : List Byte) :
    ReadsIn f Q (elfStringToOffset mem length (some str)) ↔
      ∀ i < length.toNat, (∀ k < i, f.matchesAt mem str k = false) →
        ∀ j < elfMaximalStringLength, f.AgreesBefore mem str i j →
          Q (mem + BitVec.ofNat 64 (i + j)) := by
  show ReadsIn f Q (findFrom (stringBody mem str) length.toNat 0 >>= _) ↔ _
  rw [readsIn_bind_of_ok (result_findFrom (result_stringBody mem str) _ _),
    readsIn_findFrom_first (result_stringBody mem str)]
  simp only [pure_eq, readsIn_ret, and_true, readsIn_stringBody, readsIn_stringMatches,
    Nat.zero_le, true_implies, Nat.zero_add, Bool.not_eq_true]

/-! ### Sections by name -/

/-- One iteration of the search for a name. -/
def nameBody (t : Table) (value : U64) (i : Nat) : ElfProg (Option (U64 × Nat)) := do
  if (← elfSectionAttribute (t.entry i) .name) = value then
    return some (t.entry i, i)
  return none

theorem elfSectionLoop_name (t : Table) (value : U64) (n i : Nat) :
    elfSectionLoop t .name value n i = findFrom (nameBody t value) n i := rfl

theorem result_nameBody (t : Table) (offset : U32) (k : Nat) :
    result f (nameBody t (offset.setWidth 64) k)
      = .ok (if (f.sectionAt (t.entry k)).name = offset then some (t.entry k, k) else none) := by
  simp only [nameBody, elfSectionAttribute, ElfSection.shName, bind_assoc, pure_eq, ret_bind,
    result_bind, result_fetch32, ok_bind, result_ite, result_ret, setWidth_inj,
    ← apply_ite Except.ok]
  rfl

theorem readsIn_nameBody (t : Table) (value : U64) (k : Nat) :
    ReadsIn f (InFile size) (nameBody t value k) ↔ Fits size (t.entry k) 4 := by
  simp only [nameBody, elfSectionAttribute, ElfSection.shName, bind_assoc, pure_eq, ret_bind,
    readsIn_fetch32_bind, readsIn_ite, readsIn_ret, implies_true, and_true]

theorem readsIn_elfSection_name (h : 64 ≤ size.toNat) (hsh : f.shoff ≠ 0) (offset : U32) :
    ReadsIn f (InFile size) (elfSection (some elf) 0 .name (offset.setWidth 64)) ↔
      ∀ k < f.sectionTable.length.toNat,
        (∀ j < k, (f.sectionAt (f.sectionTable.entry j)).name ≠ offset) →
          Fits size (f.sectionTable.entry k) 4 := by
  have hzero : (0 : U16).toNat = 0 := rfl
  unfold elfSection
  rw [readsIn_bind_of_ok result_elfSections, if_neg hsh]
  simp only [readsIn_elfSections h, true_and, elfSectionLoop_name, hzero, Nat.sub_zero]
  rw [readsIn_bind, readsIn_findFrom_first (result_nameBody f.sectionTable offset)]
  simp only [readsIn_nameBody, Nat.zero_le, true_implies, Nat.zero_add]
  refine and_iff_left fun o _ => ?_
  cases o with
  | none => exact readsIn_ret _
  | some c => exact readsIn_ret _

/-- The offset of a name in the section name table. -/
def File.nameOffset (f : File) (name : List Byte) : U32 :=
  f.stringOffset (le64 f (f.namesHeader + 24)) (le64 f (f.namesHeader + 32)) name

/-- What a lookup reads once there is a section name table: where the table is, the bytes
scanned for the name, and the names of the sections up to the one found. -/
structure NamesFit (f : File) (size : U64) (name : List Byte) : Prop where
  bytes : Fits size (f.namesHeader + 32) 8
  offset : Fits size (f.namesHeader + 24) 8
  scan : ScanFits f size (le64 f (f.namesHeader + 24)) (le64 f (f.namesHeader + 32)) name
  headers : ∀ k < f.sectionTable.length.toNat,
    (∀ j < k, (f.sectionAt (f.sectionTable.entry j)).name ≠ f.nameOffset name) →
      Fits size (f.sectionTable.entry k) 4

/-- The header itself is read to its end. -/
theorem header_of_elfSectionByName {name : List Byte}
    (h : ReadsIn f (InFile size) (elfSectionByName (some elf) (some name))) :
    64 ≤ size.toNat := by
  rw [elfSectionByName, readsIn_bind, readsIn_elfSectionStrings] at h
  exact h.1.1

theorem readsIn_elfSectionByName (h : 64 ≤ size.toNat) (name : List Byte) :
    ReadsIn f (InFile size) (elfSectionByName (some elf) (some name)) ↔
      (f.HasNames → NamesFit f size name) := by
  have hstrings : ReadsIn f (InFile size) (elfSectionStrings (some elf)) ↔
      (f.HasNames → Fits size (f.namesHeader + 32) 8 ∧ Fits size (f.namesHeader + 24) 8) := by
    have hindex : Fits size 62 2 := fits_of_header h (by decide)
    rw [readsIn_elfSectionStrings]
    simp only [readsIn_elfSection_none h, hindex, true_and]
  unfold elfSectionByName
  by_cases hn : f.HasNames
  · have hres := result_elfSectionStrings (f := f) elf
    rw [if_pos hn] at hres
    rw [readsIn_bind_of_ok hres, hstrings]
    simp only
    rw [readsIn_bind_of_ok (result_elfStringToOffset _ _ _), readsIn_elfStringToOffset,
      readsIn_bind, readsIn_elfSection_name h hn.1]
    simp only [hn, true_implies, pure_eq, readsIn_ret, implies_true, and_true]
    constructor
    · rintro ⟨⟨hbytes, hoffset⟩, hscan, hheaders⟩
      exact ⟨hbytes, hoffset, hscan, hheaders⟩
    · intro hfit
      exact ⟨⟨hfit.bytes, hfit.offset⟩, hfit.scan, hfit.headers⟩
  · have hres := result_elfSectionStrings (f := f) elf
    rw [if_neg hn] at hres
    rw [readsIn_bind, hstrings, hres]
    exact iff_of_true ⟨fun hc => absurd hc hn, fun a ha => by cases ha⟩ fun hc => absurd hc hn

/-- What looking up a table by name reads: the names, and the header found. -/
structure LookupFits (f : File) (elf : Elf) (size : U64) (accepts : U32 → Bool)
    (name : List Byte) : Prop where
  names : f.HasNames → NamesFit f size name
  header : ∀ h, result f (elfSectionByName (some elf) (some name)) = .ok (some h) →
    Fits size (h + 4) 4 ∧ (accepts (f.sectionAt h).type = true →
      Fits size (h + 56) 8 ∧ Fits size (h + 32) 8 ∧
      ((f.sectionAt h).entsize ≠ 0 → Fits size (h + 24) 8))

theorem readsIn_elfNamedTable (h : 64 ≤ size.toNat) (accepts : U32 → Bool) (name : List Byte) :
    ReadsIn f (InFile size) (elfNamedTable accepts (some elf) (some name)) ↔
      LookupFits f elf size accepts name := by
  have hheader : ∀ p : U64, ReadsIn f (InFile size) (do
      if accepts (← ElfSection.shType p) = false then
        return none
      let entsize ← ElfSection.shEntsize p
      let bytes ← ElfSection.shSize p
      if entsize = 0 then
        raise .divisionByZero
      else do
        return some (⟨← ElfSection.shOffset p, entsize.setWidth 16,
          (bytes / entsize).setWidth 16⟩ : Table)) ↔
      Fits size (p + 4) 4 ∧ (accepts (f.sectionAt p).type = true →
        Fits size (p + 56) 8 ∧ Fits size (p + 32) 8 ∧
        ((f.sectionAt p).entsize ≠ 0 → Fits size (p + 24) 8)) := by
    intro p
    simp only [ElfSection.shType, ElfSection.shEntsize, ElfSection.shSize, ElfSection.shOffset,
      readsIn_fetch32_bind, readsIn_fetch64_bind, readsIn_ite, pure_eq, readsIn_ret, readsIn_raise,
      implies_true, true_and, and_true, Bool.not_eq_false, File.sectionAt, ne_eq]
  unfold elfNamedTable
  rw [readsIn_bind, readsIn_elfSectionByName h]
  constructor
  · rintro ⟨hnames, hrest⟩
    exact ⟨hnames, fun p hp => (hheader p).mp (hrest (some p) hp)⟩
  · intro hfit
    refine ⟨hfit.names, fun o ho => ?_⟩
    cases o with
    | none => exact readsIn_ret _
    | some p => exact (hheader p).mpr (hfit.header p ho)

end LibPS4
