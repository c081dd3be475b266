/-
Which accepted files crash the relocation.

`elfLoaderIsLoadable` looks at the ELF header alone.  Three steps of `elfLoaderRelocate`
rest on more than that: the header of the section names is followed without a look at
`e_shstrndx`, the size of a table is divided by its `sh_entsize`, and the symbol of an entry
is read from a `.dynsym` that may not be there.  None of them is checked anywhere, so the
condition for the pass to return is that none of them goes wrong on the entries it gets to,
which are those before the first one of an unknown type.
-/
import LibPS4.Proofs.Containment
import LibPS4.Proofs.SectionNames

namespace LibPS4

open Effects Prog

variable {f : File} {elf : Elf} {w e : U64}

/-! ### What can be missing -/

/-- The section `elfSymbols` takes the dynamic symbols from. -/
def File.dynsymSection (f : File) (elf : Elf) : Option Section :=
  f.acceptedSection elf (fun type => type = shtSymtab ∨ type = shtDynsym) dynsymName

/-- An entry whose value is that of a symbol. -/
def Rela.usesSymbol (r : Rela) : Bool :=
  r.type = rX866464 ∨ r.type = rX8664JmpSlot ∨ r.type = rX8664GlobDat

/-- An entry with a case of its own in the `switch`. -/
def Rela.known (r : Rela) : Bool := r.type = rX8664Relative ∨ r.usesSymbol = true

/-- No name is looked up without the section names. -/
theorem hasNames_of_named {name : List Byte} {o : Option Section}
    (h : f.named elf name = .ok o) : f.HasNames := by
  refine Classical.byContradiction fun hn => ?_
  unfold File.named elfSectionByName at h
  rw [result_bind, result_elfSectionStrings, if_neg hn] at h
  cases h

theorem hasNames_of_elfNamedTable {accepts : U32 → Bool} {name : List Byte} {t : Option Table}
    (h : result f (elfNamedTable accepts (some elf) (some name)) = .ok t) : f.HasNames := by
  rw [result_elfNamedTable] at h
  obtain ⟨o, hnamed, -⟩ := bind_eq_ok.mp h
  exact hasNames_of_named hnamed

section Walk

variable {symbols : Option Table} {r : Rela} {l l₁ l₂ : List Rela}

theorem value_of_unknown (h : r.known = false) : r.value f symbols = .ok none := by
  unfold Rela.known Rela.usesSymbol at h
  simp only [decide_eq_true_eq, decide_eq_false_iff_not, not_or] at h
  obtain ⟨hrelative, h64, hslots⟩ := h
  unfold Rela.value
  rw [if_neg hrelative, if_neg h64, if_neg (not_or.mpr hslots)]

/-- A known entry has a value, unless the symbol it uses is not there. -/
theorem applies_of_known (h : r.known = true) (hbound : symbols = none → r.usesSymbol = false) :
    r.applies f symbols = true := by
  cases hsym : symbols with
  | none =>
      have huses := hbound hsym
      unfold Rela.known at h
      rw [huses] at h
      have hrelative : r.type = rX8664Relative := by simpa using h
      unfold Rela.applies Rela.value
      rw [if_pos hrelative]
  | some t =>
      unfold Rela.known Rela.usesSymbol at h
      simp only [decide_eq_true_eq] at h
      unfold Rela.applies Rela.value
      by_cases hrelative : r.type = rX8664Relative
      · rw [if_pos hrelative]
      · rw [if_neg hrelative]
        by_cases h64 : r.type = rX866464
        · rw [if_pos h64]
          rfl
        · have hslots := (h.resolve_left hrelative).resolve_left h64
          rw [if_neg h64, if_pos hslots]
          rfl

theorem value_of_unbound (h : r.usesSymbol = true) :
    r.value f none = .error .nullDereference := by
  unfold Rela.usesSymbol at h
  simp only [decide_eq_true_eq] at h
  unfold Rela.value
  obtain h | h | h := h
  all_goals rw [h]; rfl

theorem value_ne_none_of_known (h : r.known = true) : r.value f symbols ≠ .ok none := by
  intro hvalue
  by_cases hbound : symbols = none → r.usesSymbol = false
  · have happlies := applies_of_known (f := f) h hbound
    unfold Rela.applies at happlies
    rw [hvalue] at happlies
    cases happlies
  · obtain ⟨hnone, huses⟩ := Classical.not_imp.mp hbound
    rw [hnone, value_of_unbound ((Bool.not_eq_false _).mp huses)] at hvalue
    cases hvalue

end Walk

/-! ### The pass -/

/-- The pass, one lookup and one walk after the other. -/
theorem result_elfLoaderRelocate_eq (hw : w ≠ 0) (he : e ≠ 0) :
    result f (elfLoaderRelocate (some elf) w e) = (do
      let symbols ← result f (elfSymbols (some elf) dynsymName)
      let dyn ← result f (elfAddendRelocations (some elf) relaDynName)
      match ← walkResult f symbols (f.entries dyn) with
      | some status => .ok status
      | none => do
          let plt ← result f (elfAddendRelocations (some elf) relaPltName)
          let status ← walkResult f symbols (f.entries plt)
          .ok (status.getD .ok)) := by
  simp only [elfLoaderRelocate, hw, he, if_false, result_bind, result_relocateTable, bind_assoc]
  refine congrArg _ (funext fun symbols => congrArg _ (funext fun dyn => ?_))
  refine congrArg _ (funext fun o => ?_)
  cases o with
  | some status => rfl
  | none =>
      simp only [result_bind, result_relocateTable, bind_assoc]
      refine congrArg _ (funext fun plt => congrArg _ (funext fun o => ?_))
      cases o <;> rfl

theorem shortName_relaDyn : ShortName relaDynName := ⟨by decide, by decide⟩

theorem shortName_relaPlt : ShortName relaPltName := ⟨by decide, by decide⟩

/-- A file with one entry of `.rela.dyn` and no `.dynsym`. -/
def oneEntryFile (info : U64) : File :=
  File.ofBytes (fileBytes [⟨ptLoad, 6, 0, 0, 0, 1, 16, 0⟩] [relaDyn 24 [⟨8, info, 0⟩]])

end LibPS4
