/-
When a section is found by its name.

`elfSectionByName` turns the name into an offset first, the first place of the string table
where the name stands, and then looks for a section with that offset.  A section has one
offset for its name and the table may hold the name in several places, on its own or as the
tail of a longer one, so the section is found if its offset is the first of them.  A name
that is not in the table at all becomes the offset 0, which is the one the null section
has.
-/
import LibPS4.Elf.Build
import LibPS4.Proofs.NameReads

namespace LibPS4

open Effects Prog

variable {f : File} {elf : Elf} {name : List Byte}

/-! ### Names -/

/-- The section that holds the names. -/
def File.nameTable (f : File) : Section := f.sectionAt f.namesHeader

/-- The name and its terminator stand at an offset of the string table. -/
def File.NameAt (f : File) (name : List Byte) (i : Nat) : Prop :=
  i < f.nameTable.size.toNat ∧
    ∀ j ≤ name.length, f.charAt f.nameTable.offset i j = name.getD j 0

instance (i : Nat) : Decidable (f.NameAt name i) := inferInstanceAs (Decidable (_ ∧ _))

/-- The `sh_name` of a section. -/
def File.nameOf (f : File) (k : Nat) : U32 := (f.sectionAt (f.sectionTable.entry k)).name

/-- A C string that `elfStringToOffset` compares to its end. -/
structure ShortName (name : List Byte) : Prop where
  noZero : ∀ b ∈ name, b ≠ 0
  short : name.length < elfMaximalStringLength

/-- The lookup returns the first section with the name, and nothing if there is none. -/
def LookupExact (f : File) (elf : Elf) (name : List Byte) : Prop :=
  ∃ o, First (fun k => f.NameAt name (f.nameOf k).toNat) f.sectionTable.length.toNat o ∧
    result f (elfSectionByName (some elf) (some name)) = .ok (o.map f.sectionTable.entry)

/-- The offset of the name is not mistaken for another one. -/
structure NamesApart (f : File) (name : List Byte) : Prop where
  /-- The first section with the name has the first offset where the name stands. -/
  first : ∀ k < f.sectionTable.length.toNat, f.NameAt name (f.nameOf k).toNat →
    (∀ j < k, ¬ f.NameAt name (f.nameOf j).toNat) →
    ∀ i < (f.nameOf k).toNat, ¬ f.NameAt name i
  /-- If the name stands nowhere, no section has the offset 0. -/
  absent : (∀ i, ¬ f.NameAt name i) → ∀ k < f.sectionTable.length.toNat, f.nameOf k ≠ 0
  /-- If it stands beyond 4 GiB only, no section has the lower half of that offset. -/
  far : ∀ i, 2 ^ 32 ≤ i → f.NameAt name i → (∀ j < i, ¬ f.NameAt name j) →
    ∀ k < f.sectionTable.length.toNat, f.nameOf k ≠ BitVec.ofNat 32 i

/-! ### The three searches -/

theorem getD_ne_zero (h : ShortName name) {j : Nat} (hj : j < name.length) :
    name.getD j 0 ≠ 0 := by
  have hget : name.getD j 0 = name[j] := by
    rw [List.getD_eq_getElem?_getD, List.getElem?_eq_getElem hj, Option.getD_some]
  rw [hget]
  exact h.noZero _ (List.getElem_mem hj)

theorem getD_length : name.getD name.length 0 = 0 := by
  rw [List.getD_eq_getElem?_getD, List.getElem?_eq_none (Nat.le_refl _), Option.getD_none]

/-- Where the inner loop stops. -/
def File.StopsAt (f : File) (mem : U64) (name : List Byte) (i j : Nat) : Prop :=
  f.charAt mem i j ≠ name.getD j 0 ∨ name.getD j 0 = 0

instance (mem : U64) (i j : Nat) : Decidable (f.StopsAt mem name i j) :=
  inferInstanceAs (Decidable (_ ∨ _))

theorem charBody_stopsAt (mem : U64) (name : List Byte) (i j : Nat) :
    result f (charBody mem name i j) = .ok (if f.StopsAt mem name i j
      then some (decide (f.charAt mem i j = name.getD j 0)) else none) := by
  rw [result_charBody]
  by_cases heq : f.charAt mem i j = name.getD j 0
  · rw [if_neg (Classical.not_not.mpr heq)]
    by_cases hzero : name.getD j 0 = 0
    · have hstop : f.StopsAt mem name i j := Or.inr hzero
      rw [if_pos hzero, if_pos hstop, decide_eq_true heq]
    · have hgo : ¬ f.StopsAt mem name i j := not_or.mpr ⟨Classical.not_not.mpr heq, hzero⟩
      rw [if_neg hzero, if_neg hgo]
  · have hstop : f.StopsAt mem name i j := Or.inl heq
    rw [if_pos heq, if_pos hstop, decide_eq_false heq]

/-- The inner loop compares the name and its terminator. -/
theorem matchesAt_iff (h : ShortName name) (mem : U64) (i : Nat) :
    f.matchesAt mem name i = true ↔
      ∀ j ≤ name.length, f.charAt mem i j = name.getD j 0 := by
  obtain ⟨o, hfirst, hres⟩ := findFrom_isFirst (charBody_stopsAt (f := f) mem name i)
    elfMaximalStringLength
  rw [result_findFrom (result_charBody mem name i)] at hres
  unfold File.matchesAt
  rw [Except.ok.inj hres, decide_eq_true_iff]
  cases o with
  | none => exact absurd (Or.inr getD_length) (hfirst name.length h.short)
  | some k =>
      obtain ⟨-, hstop, hbefore⟩ := hfirst
      have hle : k ≤ name.length := by
        refine Nat.not_lt.mp fun hlt => ?_
        exact hbefore name.length hlt (Or.inr getD_length)
      rw [Option.map_some, Option.some_inj, decide_eq_true_iff]
      constructor
      · intro heq j hj
        -- The loop stops at the terminator, since it does not at a difference.
        have hend : k = name.length := by
          refine Nat.le_antisymm hle (Nat.not_lt.mp fun hlt => ?_)
          obtain hne | hzero := hstop
          · exact hne heq
          · exact getD_ne_zero h hlt hzero
        obtain hlt | hjk := Nat.lt_or_eq_of_le hj
        · exact Classical.not_not.mp fun hne => hbefore j (hend ▸ hlt) (Or.inl hne)
        · rw [hjk, ← hend]
          exact heq
      · intro hall
        exact hall k hle

/-- The first offset where the name stands, if it does. -/
theorem elfStringToOffset_first (h : ShortName name) :
    ∃ o, First (f.NameAt name) f.nameTable.size.toNat o ∧
      result f (elfStringToOffset f.nameTable.offset f.nameTable.size (some name))
        = .ok (BitVec.ofNat 32 (o.getD 0)) := by
  obtain ⟨o, hfirst, hres⟩ := elfStringToOffset_isFirst (f := f) f.nameTable.offset
    f.nameTable.size name
  refine ⟨o, hfirst.congr fun i hi => ?_, hres⟩
  rw [matchesAt_iff h]
  exact ⟨fun hall => ⟨hi, hall⟩, fun hat => hat.2⟩

variable (elf) in
/-- The first section with an offset. -/
theorem elfSection_name_first (hsh : f.shoff ≠ 0) (offset : U32) :
    ∃ o j, First (fun k => f.nameOf k = offset) f.sectionTable.length.toNat o ∧
      result f (elfSection (some elf) 0 .name (offset.setWidth 64))
        = .ok (o.map f.sectionTable.entry, j) := by
  obtain ⟨o, hfirst, hres⟩ := findFrom_isFirst
    (result_nameBody (f := f) f.sectionTable offset) f.sectionTable.length.toNat
  unfold elfSection
  rw [result_bind, result_elfSections, ok_bind, if_neg hsh]
  simp only [elfSectionLoop_name]
  rw [result_bind, show (0 : U16).toNat = 0 from rfl, Nat.sub_zero, hres, ok_bind]
  cases o with
  | none => exact ⟨none, _, hfirst, rfl⟩
  | some k => exact ⟨some k, _, hfirst, rfl⟩

variable (elf) in
/-- The two, one after the other. -/
theorem elfSectionByName_first (hn : f.HasNames) (h : ShortName name) :
    ∃ o o', First (f.NameAt name) f.nameTable.size.toNat o ∧
      First (fun k => f.nameOf k = BitVec.ofNat 32 (o.getD 0)) f.sectionTable.length.toNat o' ∧
      result f (elfSectionByName (some elf) (some name))
        = .ok (o'.map f.sectionTable.entry) := by
  obtain ⟨o, hfirst, hoffset⟩ := elfStringToOffset_first (f := f) h
  obtain ⟨o', j, hsection, hres⟩ := elfSection_name_first elf hn.1
    (BitVec.ofNat 32 (o.getD 0))
  refine ⟨o, o', hfirst, hsection, ?_⟩
  unfold elfSectionByName
  rw [result_bind, result_elfSectionStrings, if_pos hn, ok_bind]
  show result f (elfStringToOffset f.nameTable.offset f.nameTable.size (some name) >>= _) = _
  rw [result_bind, hoffset, ok_bind, result_bind, hres]
  rfl

/-! ### Exactness -/

theorem nameOf_of_entry {k k' : Nat} (h : f.sectionTable.entry k = f.sectionTable.entry k') :
    f.nameOf k = f.nameOf k' := by
  unfold File.nameOf
  rw [h]

/-- The offset found, where it fits. -/
theorem toNat_offset {i : Nat} (h : i < 2 ^ 32) : (BitVec.ofNat 32 i).toNat = i := by
  rw [BitVec.toNat_ofNat, Nat.mod_eq_of_lt h]

/-- The first offset is the one of a section, if a section has the name. -/
theorem first_le {i : Nat} (h : First (f.NameAt name) f.nameTable.size.toNat (some i)) {j : Nat}
    (hj : f.NameAt name j) : i ≤ j :=
  Nat.not_lt.mp fun hlt => h.2.2 j hlt hj

section Exact

variable {o o' : Option Nat} (ho : First (f.NameAt name) f.nameTable.size.toNat o)
  (ho' : First (fun k => f.nameOf k = BitVec.ofNat 32 (o.getD 0)) f.sectionTable.length.toNat o')

include ho ho' in
/-- What the two searches find is the first section with the name only if the name's offset
is not mistaken. -/
theorem namesApart_of_first {found : Option Nat}
    (hfound : First (fun k => f.NameAt name (f.nameOf k).toNat) f.sectionTable.length.toNat found)
    (heq : o'.map f.sectionTable.entry = found.map f.sectionTable.entry) :
    NamesApart f name := by
  have hnone : found = none → ∀ k < f.sectionTable.length.toNat,
      f.nameOf k ≠ BitVec.ofNat 32 (o.getD 0) := by
    intro hf
    rw [hf, Option.map_none, Option.map_eq_none_iff] at heq
    rw [heq] at ho'
    exact ho'
  refine ⟨fun k hk hat hbefore i hi => ?_, fun habsent => ?_, fun i hfar hat hbefore => ?_⟩
  · have hf : found = some k := hfound.unique ⟨hk, hat, hbefore⟩
    rw [hf, Option.map_some] at heq
    obtain ⟨k', hk', hentry⟩ := Option.map_eq_some_iff.mp heq
    rw [hk'] at ho'
    have hname : f.nameOf k = BitVec.ofNat 32 (o.getD 0) :=
      (nameOf_of_entry hentry).symm.trans ho'.2.1
    cases o with
    | none => exact absurd hat (ho _ hat.1)
    | some i' =>
        have hle := first_le ho hat
        have hlt := (f.nameOf k).isLt
        rw [hname, Option.getD_some, toNat_offset (by omega)] at hi
        exact ho.2.2 i hi
  · have hf : found = none := hfound.unique fun k _ => habsent _
    have hsearch : o = none := ho.unique fun i _ => habsent i
    have hno := hnone hf
    rw [hsearch] at hno
    exact hno
  · have hsearch : o = some i := ho.unique ⟨hat.1, hat, hbefore⟩
    have hf : found = none := by
      refine hfound.unique fun k _ hk => hbefore _ ?_ hk
      have hlt := (f.nameOf k).isLt
      omega
    have hno := hnone hf
    rw [hsearch] at hno
    exact hno

include ho ho' in
theorem first_of_namesApart (h : NamesApart f name) :
    First (fun k => f.NameAt name (f.nameOf k).toNat) f.sectionTable.length.toNat o' := by
  obtain ⟨found, hfound⟩ :=
    First.exists (fun k => f.NameAt name (f.nameOf k).toNat) f.sectionTable.length.toNat
  cases found with
  | some k =>
      have hearlier := h.first k hfound.1 hfound.2.1 hfound.2.2
      have hsearch : o = some (f.nameOf k).toNat :=
        ho.unique ⟨hfound.2.1.1, hfound.2.1, hearlier⟩
      have hoffset : BitVec.ofNat 32 (o.getD 0) = f.nameOf k := by
        rw [hsearch, Option.getD_some, BitVec.ofNat_toNat, BitVec.setWidth_eq]
      rw [hoffset] at ho'
      have hsame : o' = some k := by
        refine ho'.unique ⟨hfound.1, rfl, fun j hj hname => hfound.2.2 j hj ?_⟩
        show f.NameAt name (f.nameOf j).toNat
        rw [hname]
        exact hfound.2.1
      rw [hsame]
      exact hfound
  | none =>
      have hsame : o' = none := by
        refine ho'.unique fun k hk hname => ?_
        cases o with
        | none =>
            have habsent : ∀ i, ¬ f.NameAt name i := fun i hat => ho i hat.1 hat
            exact h.absent habsent k hk hname
        | some i =>
            by_cases hfar : 2 ^ 32 ≤ i
            · exact h.far i hfar ho.2.1 ho.2.2 k hk hname
            · refine hfound k hk ?_
              show f.NameAt name (f.nameOf k).toNat
              rw [hname, Option.getD_some, toNat_offset (by omega)]
              exact ho.2.1
      rw [hsame]
      exact hfound

end Exact

/-- **When a section is found by its name.**  For every file with a section name table and
every name the search compares to its end. -/
theorem elfSectionByName_exact_iff (f : File) (elf : Elf) (name : List Byte) (hn : f.HasNames)
    (h : ShortName name) : LookupExact f elf name ↔ NamesApart f name := by
  obtain ⟨o, o', ho, ho', hres⟩ := elfSectionByName_first elf hn h
  unfold LookupExact
  constructor
  · intro hexact
    obtain ⟨found, hfound, hreturned⟩ := hexact
    rw [hres] at hreturned
    exact namesApart_of_first ho ho' hfound (Except.ok.inj hreturned)
  · intro hapart
    exact ⟨o', first_of_namesApart ho ho' hapart, hres⟩

/-- `".plt"`. -/
def pltName : List Byte := [0x2e, 0x70, 0x6c, 0x74]

/-- A file with a section `.rela.plt` and a section `.plt`, in this order. -/
def pltFile : File :=
  File.ofBytes (fileBytes [] [{ name := relaPltName, type := shtRela, size := 0, contents := [] },
    { name := pltName, type := 1, size := 0, contents := [] }])

/-- The longer name is found. -/
theorem pltFile_exact : LookupExact pltFile ⟨346⟩ relaPltName := by
  have hshort : ShortName relaPltName := ⟨by decide, by decide⟩
  refine (elfSectionByName_exact_iff pltFile ⟨346⟩ relaPltName (by decide +kernel) hshort).mpr
    ⟨?_, ?_, ?_⟩
  · decide +kernel
  · intro habsent
    have hat : pltFile.NameAt relaPltName 1 := by decide +kernel
    exact absurd hat (habsent 1)
  · intro i hfar hat
    have hsize : pltFile.nameTable.size.toNat < 2 ^ 32 := by decide +kernel
    have hlt := hat.1
    omega

/-- The name `.plt` stands in `.rela.plt` first, at an offset no section has. -/
theorem pltFile_not_exact :
    ¬ ∀ (f : File) (elf : Elf) (name : List Byte), f.HasNames →
      f.charAt f.nameTable.offset (f.nameTable.size.toNat - 1) 0 = 0 → name ≠ [] →
      ShortName name → LookupExact f elf name := by
  intro h
  have hshort : ShortName pltName := ⟨by decide, by decide⟩
  obtain ⟨o, hfirst, hres⟩ := h pltFile ⟨346⟩ pltName (by decide +kernel) (by decide +kernel)
    (by decide) hshort
  have hnull : result pltFile (elfSectionByName (some ⟨346⟩) (some pltName)) = .ok none := by
    decide +kernel
  rw [hnull] at hres
  have hnone : o = none := Option.map_eq_none_iff.mp (Except.ok.inj hres).symm
  rw [hnone] at hfirst
  have hat : pltFile.NameAt pltName (pltFile.nameOf 2).toNat := by decide +kernel
  exact hfirst 2 (by decide +kernel) hat

end LibPS4
