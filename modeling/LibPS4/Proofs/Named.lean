/-
Tables found by name, and how much of them is walked.

`elfAddendRelocations` and `elfSymbols` look a section up by its name and hand its
stride and its number of entries back in two `uint16_t`.  The section header has both
in 64 bits, so what the caller gets is the section's table only as far as the two fit;
and the loop over it multiplies index and stride as `int`, which is a third width the
last entry has to fit.
-/
import LibPS4.Proofs.Relocate

namespace LibPS4

open Effects Prog

variable {f : File} {elf : Elf} {w e : U64}

/-! ### The section behind a name -/

/-- The table a section header describes, as the accessors narrow it. -/
def Section.table (s : Section) : Table :=
  ⟨s.offset, s.entsize.setWidth 16, (s.size / s.entsize).setWidth 16⟩

/-- The number of entries, without narrowing. -/
def Section.count (s : Section) : Nat := s.size.toNat / s.entsize.toNat

/-- The section a name leads to. -/
def File.named (f : File) (elf : Elf) (name : List Byte) : Except Fault (Option Section) :=
  (result f (elfSectionByName (some elf) (some name))).map (Option.map f.sectionAt)

theorem result_elfNamedTable (accepts : U32 → Bool) (name : List Byte) :
    result f (elfNamedTable accepts (some elf) (some name))
      = f.named elf name >>= fun
          | none => .ok none
          | some s =>
              if accepts s.type = false then .ok none
              else if s.entsize = 0 then .error .divisionByZero
              else .ok (some s.table) := by
  unfold elfNamedTable File.named
  rw [result_bind]
  cases result f (elfSectionByName (some elf) (some name)) with
  | error err => rfl
  | ok o =>
      cases o with
      | none => rfl
      | some h =>
          simp only [ok_bind, ElfSection.shType, ElfSection.shEntsize, ElfSection.shSize,
            ElfSection.shOffset, result_bind, result_fetch32, result_fetch64, result_ite, pure_eq,
            result_ret, result_raise, Except.map, Option.map_some]
          rfl

/-- The two names the pass looks up. -/
theorem relaNames_cases {name : List Byte} (h : name ∈ [relaDynName, relaPltName]) :
    name = relaDynName ∨ name = relaPltName := by
  simpa only [List.mem_cons, List.not_mem_nil, or_false] using h

/-- The `SHT_RELA` section a name leads to. -/
def File.relaSection (f : File) (elf : Elf) (name : List Byte) : Option Section :=
  match f.named elf name with
  | .ok (some s) => if s.type = shtRela then some s else none
  | _ => none

theorem relaSection_of_named {name : List Byte} {s : Section}
    (h : f.named elf name = .ok (some s)) :
    f.relaSection elf name = if s.type = shtRela then some s else none := by
  unfold File.relaSection
  rw [h]

/-- The section a name leads to, if its type is accepted. -/
def File.acceptedSection (f : File) (elf : Elf) (accepts : U32 → Bool) (name : List Byte) :
    Option Section :=
  match f.named elf name with
  | .ok (some s) => if accepts s.type = false then none else some s
  | _ => none

theorem acceptedSection_rela (name : List Byte) :
    f.acceptedSection elf (fun type => type = shtRela) name = f.relaSection elf name := by
  unfold File.acceptedSection File.relaSection
  cases f.named elf name with
  | error err => rfl
  | ok o =>
      cases o with
      | none => rfl
      | some s =>
          by_cases htype : s.type = shtRela
          · simp only [htype, decide_true, Bool.true_eq_false, if_false, if_true]
          · simp only [htype, decide_false, if_false, if_true]

/-- What a lookup of a table returns, when it returns. -/
theorem elfNamedTable_eq_ok {accepts : U32 → Bool} {name : List Byte} {t : Option Table}
    (h : result f (elfNamedTable accepts (some elf) (some name)) = .ok t) :
    t = (f.acceptedSection elf accepts name).map Section.table ∧
      ∀ s, f.acceptedSection elf accepts name = some s → s.entsize ≠ 0 := by
  rw [result_elfNamedTable] at h
  obtain ⟨o, hnamed, h⟩ := bind_eq_ok.mp h
  unfold File.acceptedSection
  rw [hnamed]
  cases o with
  | none => exact ⟨(Except.ok.inj h).symm, nofun⟩
  | some s =>
      by_cases haccepts : accepts s.type = false
      · simp only [if_pos haccepts] at h ⊢
        exact ⟨(Except.ok.inj h).symm, nofun⟩
      · simp only [if_neg haccepts] at h ⊢
        by_cases hent : s.entsize = 0
        · rw [if_pos hent] at h
          cases h
        · rw [if_neg hent] at h
          exact ⟨(Except.ok.inj h).symm, fun s' hs' => Option.some.inj hs' ▸ hent⟩

theorem elfAddendRelocations_eq_ok {name : List Byte} {t : Option Table}
    (h : result f (elfAddendRelocations (some elf) name) = .ok t) :
    t = (f.relaSection elf name).map Section.table ∧
      ∀ s, f.relaSection elf name = some s → s.entsize ≠ 0 := by
  rw [← acceptedSection_rela]
  exact elfNamedTable_eq_ok h

/-! ### A walk that ends well -/

/-- Everything behind a status of `ElfLoaderReturnOK`: the lookups returned, and every
entry was applied. -/
theorem elfLoaderRelocate_eq_ok (h : result f (elfLoaderRelocate (some elf) w e) = .ok .ok) :
    w ≠ 0 ∧ e ≠ 0 ∧ ∃ symbols dyn plt,
      result f (elfSymbols (some elf) dynsymName) = .ok symbols ∧
      result f (elfAddendRelocations (some elf) relaDynName) = .ok dyn ∧
      result f (elfAddendRelocations (some elf) relaPltName) = .ok plt ∧
      ∀ r ∈ f.entries dyn ++ f.entries plt, r.applies f symbols = true := by
  have hw : w ≠ 0 := by
    intro hw
    simp [elfLoaderRelocate, hw] at h
  have he : e ≠ 0 := by
    intro he
    rw [elfLoaderRelocate, if_neg hw, if_pos he] at h
    cases h
  refine ⟨hw, he, ?_⟩
  simp only [elfLoaderRelocate, hw, he, if_false, result_bind] at h
  obtain ⟨symbols, hsym, h⟩ := bind_eq_ok.mp h
  obtain ⟨o₁, hwalk₁, h⟩ := bind_eq_ok.mp h
  rw [result_relocateTable] at hwalk₁
  obtain ⟨dyn, hdyn, hwalk₁⟩ := bind_eq_ok.mp hwalk₁
  cases o₁ with
  | some status =>
      have hstatus : status = .ok := Except.ok.inj h
      have hunknown := walkResult_eq_some hwalk₁
      rw [hstatus] at hunknown
      cases hunknown
  | none =>
      rw [result_bind] at h
      obtain ⟨o₂, hwalk₂, h⟩ := bind_eq_ok.mp h
      rw [result_relocateTable] at hwalk₂
      obtain ⟨plt, hplt, hwalk₂⟩ := bind_eq_ok.mp hwalk₂
      cases o₂ with
      | some status =>
          have hstatus : status = .ok := Except.ok.inj h
          have hunknown := walkResult_eq_some hwalk₂
          rw [hstatus] at hunknown
          cases hunknown
      | none =>
          refine ⟨symbols, dyn, plt, hsym, hdyn, hplt, List.forall_mem_append.mpr ⟨?_, ?_⟩⟩
          · exact walkResult_eq_ok_none.mp hwalk₁
          · exact walkResult_eq_ok_none.mp hwalk₂

/-! ### Three widths -/

/-- The offset the code computes, where index and stride fit their sixteen bits: past
`INT_MAX` the product is negative. -/
theorem toNat_entryOffset {i : Nat} {size : U16} (h : i * size.toNat < 2 ^ 32) :
    (entryOffset i size).toNat
      = if i * size.toNat < 2 ^ 31 then i * size.toNat
        else i * size.toNat + (2 ^ 64 - 2 ^ 32) := by
  unfold entryOffset
  rw [BitVec.toNat_signExtend, BitVec.toNat_setWidth, BitVec.toNat_ofNat, Nat.mod_eq_of_lt h,
    Nat.mod_eq_of_lt (by omega), BitVec.msb_eq_decide, BitVec.toNat_ofNat, Nat.mod_eq_of_lt h]
  by_cases hlt : i * size.toNat < 2 ^ 31
  · rw [if_pos hlt, if_neg (by simpa using hlt)]
    rfl
  · rw [if_neg hlt, if_pos (by simpa using hlt)]

theorem entryOffset_eq_iff {i : Nat} {size : U16} (h : i * size.toNat < 2 ^ 32) :
    entryOffset i size = BitVec.ofNat 64 (i * size.toNat) ↔ i * size.toNat < 2 ^ 31 := by
  rw [← BitVec.toNat_inj, toNat_entryOffset h, BitVec.toNat_ofNat, Nat.mod_eq_of_lt (by omega)]
  by_cases hlt : i * size.toNat < 2 ^ 31
  · rw [if_pos hlt]
    exact ⟨fun _ => hlt, fun _ => rfl⟩
  · rw [if_neg hlt]
    omega

/-- The table handed out is the section's: its stride, its length, and where the loop looks
for each entry. -/
def Section.TableExact (s : Section) (t : Table) : Prop :=
  t.size.toNat = s.entsize.toNat ∧ t.length.toNat = s.count ∧
    ∀ i < s.count, t.entry i = s.offset + BitVec.ofNat 64 (i * s.entsize.toNat)

/-- The table handed out for one section is another's: stride and length are the same once
they are narrowed, the offset of the last entry fits an `int`, and an entry there is where the
other has it. -/
structure Section.WalkedAs (s' s : Section) : Prop where
  stride : s'.entsize.toNat % 2 ^ 16 = s.entsize.toNat
  length : s'.count % 2 ^ 16 = s.count
  last : (s.count - 1) * s.entsize.toNat < 2 ^ 31
  offset : 0 < s.count → s'.offset = s.offset

theorem toNat_table_size (s : Section) : s.table.size.toNat = s.entsize.toNat % 2 ^ 16 :=
  BitVec.toNat_setWidth ..

theorem toNat_table_length (s : Section) : s.table.length.toNat = s.count % 2 ^ 16 := by
  have hcount : (s.size / s.entsize).toNat = s.count := BitVec.toNat_udiv
  rw [← hcount]
  exact BitVec.toNat_setWidth ..

/-- Below `INT_MAX` the entries are where the table's offset and stride put them. -/
theorem entry_eq_of_lt {s s' : Section} (hsize : s'.table.size.toNat = s.entsize.toNat) {i : Nat}
    (hi : i * s.entsize.toNat < 2 ^ 31) :
    s'.table.entry i = s'.offset + BitVec.ofNat 64 (i * s.entsize.toNat) := by
  have hbound : i * s'.table.size.toNat < 2 ^ 31 := by
    rw [hsize]
    exact hi
  have hoff := (entryOffset_eq_iff (by omega)).mpr hbound
  rw [Table.entry, hoff, hsize]
  rfl

theorem tableExact_iff_walkedAs (s s' : Section) : s.TableExact s'.table ↔ s'.WalkedAs s := by
  constructor
  · rintro ⟨hsize, hlen, hentry⟩
    have hent : s.entsize.toNat < 2 ^ 16 := hsize ▸ s'.table.size.isLt
    have hcnt : s.count < 2 ^ 16 := hlen ▸ s'.table.length.isLt
    have hfirst : 0 < s.count → s'.offset = s.offset := by
      intro hpos
      have h0 := hentry 0 hpos
      rw [entry_eq_of_lt hsize (by omega)] at h0
      exact (BitVec.add_left_inj _).mp h0
    refine ⟨?_, ?_, ?_, hfirst⟩
    · rw [← toNat_table_size, hsize]
    · rw [← toNat_table_length, hlen]
    · by_cases hzero : s.count = 0
      · rw [hzero]
        simp
      · have hlast := hentry (s.count - 1) (by omega)
        have hprod : (s.count - 1) * s'.table.size.toNat < 2 ^ 32 := by
          rw [hsize]
          calc (s.count - 1) * s.entsize.toNat ≤ (2 ^ 16 - 1) * (2 ^ 16 - 1) :=
                Nat.mul_le_mul (by omega) (by omega)
            _ < 2 ^ 32 := by decide
        rw [← hfirst (by omega), ← hsize] at hlast
        rw [← hsize]
        exact (entryOffset_eq_iff hprod).mp ((BitVec.add_right_inj s'.offset).mp hlast)
  · intro h
    have hsize : s'.table.size.toNat = s.entsize.toNat := (toNat_table_size s').trans h.stride
    refine ⟨hsize, (toNat_table_length s').trans h.length, fun i hi => ?_⟩
    rw [entry_eq_of_lt hsize, h.offset (by omega)]
    exact Nat.lt_of_le_of_lt (Nat.mul_le_mul_right _ (by omega)) h.last

/-- Stride and number of entries fit sixteen bits, and the last entry's offset an `int`. -/
def Section.CountFits (s : Section) : Prop :=
  s.entsize.toNat < 2 ^ 16 ∧ s.count < 2 ^ 16 ∧ (s.count - 1) * s.entsize.toNat < 2 ^ 31

theorem walkedAs_self_iff (s : Section) : s.WalkedAs s ↔ s.CountFits := by
  constructor
  · intro h
    exact ⟨(Nat.mod_eq_iff_lt (by decide)).mp h.stride, (Nat.mod_eq_iff_lt (by decide)).mp h.length,
      h.last⟩
  · rintro ⟨hent, hcnt, hlast⟩
    exact ⟨Nat.mod_eq_of_lt hent, Nat.mod_eq_of_lt hcnt, hlast, fun _ => rfl⟩

theorem tableExact_iff (s : Section) : s.TableExact s.table ↔ s.CountFits :=
  (tableExact_iff_walkedAs s s).trans (walkedAs_self_iff s)

end LibPS4
