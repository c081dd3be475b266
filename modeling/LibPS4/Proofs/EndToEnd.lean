/-
Relocation from end to end.

The specification side of this file is written with the numbers of the format: 24-byte
entries at `sh_offset + 24 * i`, the full 32-bit type and symbol index of `r_info`, the
four formulas.  The code narrows types, indices, strides and counts to sixteen bits and
multiplies as `int`; under the stated bounds none of this loses anything, and what the
pass leaves in memory is the specification.

The memory argument is that of writers on pairwise different cells: whatever order the
slots are stored in, each slot holds its own word at the end.
-/
import Mathlib.Data.List.Basic
import LibPS4.Proofs.Named

namespace LibPS4

open Effects Prog

variable {f : File} {elf : Elf} {w e : U64}

/-! ### The specification -/

/-- `ELF64_R_TYPE`, all 32 bits of it. -/
def Rela.fullType (r : Rela) : Nat := r.info.toNat % 2 ^ 32

/-- `ELF64_R_SYM`. -/
def Rela.fullSym (r : Rela) : Nat := r.info.toNat / 2 ^ 32

/-- One of the four types the loader knows. -/
def Rela.supported (r : Rela) : Bool :=
  r.fullType = rX8664Relative.toNat ∨ r.fullType = rX866464.toNat ∨
    r.fullType = rX8664JmpSlot.toNat ∨ r.fullType = rX8664GlobDat.toNat

/-- The `st_value` of entry `i` of a section of symbols. -/
def Section.symbolValueAt (f : File) (syms : Section) (i : Nat) : U64 :=
  le64 f (syms.offset + BitVec.ofNat 64 (24 * i) + 8)

/-- What the slot of a supported entry points to. -/
def Rela.target (f : File) (syms : Section) (r : Rela) : U64 :=
  if r.fullType = rX8664Relative.toNat then r.addend
  else if r.fullType = rX866464.toNat then syms.symbolValueAt f r.fullSym + r.addend
  else syms.symbolValueAt f r.fullSym

/-- The entries of the section of a name; none when there is no such section. -/
def File.relas (f : File) (elf : Elf) (name : List Byte) : List Rela :=
  match f.relaSection elf name with
  | none => []
  | some s => (List.range s.count).map fun i => f.relaAt (s.offset + BitVec.ofNat 64 (24 * i))

/-- The entries of `.rela.dyn` and then those of `.rela.plt`. -/
def File.allRelas (f : File) (elf : Elf) : List Rela :=
  f.relas elf relaDynName ++ f.relas elf relaPltName

/-- The file has a `.dynsym`, the lookups of the relocation tables return, and everything is
as wide as the format says and no more than the loader's variables hold. -/
structure Relocatable (f : File) (elf : Elf) (syms : Section) : Prop where
  dynsym : f.named elf dynsymName = .ok (some syms)
  symbols : result f (elfSymbols (some elf) dynsymName) = .ok (some syms.table)
  symbolsFit : syms.entsize = 24 ∧ syms.count < 2 ^ 16
  tables : ∀ name ∈ [relaDynName, relaPltName],
    ∃ t, result f (elfAddendRelocations (some elf) name) = .ok t
  tablesFit : ∀ name ∈ [relaDynName, relaPltName], ∀ s, f.relaSection elf name = some s →
    s.entsize = 24 ∧ s.count < 2 ^ 16
  narrow : ∀ r ∈ f.allRelas elf, r.fullType < 2 ^ 16 ∧ r.fullSym < syms.count
  disjoint : (f.allRelas elf).Pairwise fun r s => ∀ x ∈ extent r.offset 8, x ∉ extent s.offset 8

/-! ### Nothing is lost in narrowing -/

theorem countFits_of_entsize {s : Section} (hent : s.entsize = 24) (hcount : s.count < 2 ^ 16) :
    s.CountFits := by
  have hent' : s.entsize.toNat = 24 := by rw [hent]; rfl
  refine ⟨by omega, hcount, ?_⟩
  rw [hent']
  omega

theorem entries_eq_relas {name : List Byte} (h : ∀ s, f.relaSection elf name = some s →
    s.entsize = 24 ∧ s.count < 2 ^ 16) :
    f.entries ((f.relaSection elf name).map Section.table) = f.relas elf name := by
  unfold File.relas
  cases hs : f.relaSection elf name with
  | none => rfl
  | some s =>
      obtain ⟨hent, hcount⟩ := h s hs
      obtain ⟨-, hlen, hentry⟩ := (tableExact_iff s).mpr (countFits_of_entsize hent hcount)
      simp only [Option.map_some, File.entries, File.records, hlen]
      refine List.map_congr_left fun i hi => ?_
      rw [hentry i (List.mem_range.mp hi), hent, Nat.mul_comm]
      rfl

/-- What is left of the type. -/
theorem toNat_type_mod (r : Rela) : r.type.toNat = r.fullType % 2 ^ 16 := by
  have hmask : (elfRelocationType r.info).toNat = r.fullType := by
    unfold elfRelocationType Rela.fullType
    rw [BitVec.toNat_and]
    exact Nat.and_two_pow_sub_one_eq_mod r.info.toNat 32
  rw [Rela.type, BitVec.toNat_setWidth, hmask]

theorem toNat_type {r : Rela} (h : r.fullType < 2 ^ 16) : r.type.toNat = r.fullType := by
  rw [toNat_type_mod, Nat.mod_eq_of_lt h]

/-- What is left of the symbol index. -/
theorem toNat_sym_mod (r : Rela) : r.sym.toNat = r.fullSym % 2 ^ 16 := by
  have hshift : (elfRelocationSymbol r.info).toNat = r.fullSym := by
    unfold elfRelocationSymbol Rela.fullSym
    rw [BitVec.toNat_ushiftRight, Nat.shiftRight_eq_div_pow]
  rw [Rela.sym, BitVec.toNat_setWidth, hshift]

theorem toNat_sym {r : Rela} (h : r.fullSym < 2 ^ 16) : r.sym.toNat = r.fullSym := by
  rw [toNat_sym_mod, Nat.mod_eq_of_lt h]

theorem symbolValue_eq {syms : Section} (hent : syms.entsize = 24) {r : Rela}
    (hsym : r.fullSym < 2 ^ 16) :
    r.symbolValue f (some syms.table) = .ok (syms.symbolValueAt f r.fullSym) := by
  have hsize : syms.table.size.toNat = 24 := by
    unfold Section.table
    rw [hent]
    rfl
  have hoff : entryOffset r.sym.toNat syms.table.size = BitVec.ofNat 64 (24 * r.fullSym) := by
    rw [toNat_sym hsym, (entryOffset_eq_iff (by rw [hsize]; omega)).mpr (by rw [hsize]; omega),
      hsize, Nat.mul_comm]
  show Except.ok (le64 f (syms.offset + entryOffset r.sym.toNat syms.table.size + 8)) = _
  rw [hoff]
  rfl

/-- The value the code computes is the specified one, and there is one exactly for the
supported types. -/
theorem value_eq_target {syms : Section} (hent : syms.entsize = 24) {r : Rela}
    (htype : r.fullType < 2 ^ 16) (hsym : r.fullSym < 2 ^ 16) :
    r.value f (some syms.table)
      = .ok (if r.supported = true then some (r.target f syms) else none) := by
  have hiff : ∀ c : U16, r.type = c ↔ r.fullType = c.toNat := by
    intro c
    rw [← BitVec.toNat_inj, toNat_type htype]
  unfold Rela.value Rela.target Rela.supported
  simp only [hiff, symbolValue_eq hent hsym, ok_bind, pure, Except.pure]
  by_cases h8 : r.fullType = rX8664Relative.toNat
  · simp [h8]
  · rw [if_neg h8]
    by_cases h1 : r.fullType = rX866464.toNat
    · simp [h1, rX8664Relative, rX866464]
    · rw [if_neg h1]
      by_cases h67 : r.fullType = rX8664JmpSlot.toNat ∨ r.fullType = rX8664GlobDat.toNat
      · rw [if_pos h67, if_pos (by simp [h67]), if_neg h8, if_neg h1]
      · rw [if_neg h67, if_neg (by simpa [h8, h1] using h67)]

/-! ### The pass -/

/-- The word an applied entry stores. -/
def Rela.word (f : File) (syms : Section) (w e : U64) (r : Rela) : U64 :=
  f.rebased w e (r.target f syms)

/-- Its slot, byte by byte. -/
def Rela.slotStores (f : File) (syms : Section) (w e : U64) (r : Rela) : List (U64 × Byte) :=
  span (w + r.offset) 8 (byteOf (r.word f syms w e).toNat)

@[simp] theorem map_fst_slotStores (syms : Section) (r : Rela) :
    (r.slotStores f syms w e).map Prod.fst = extent (w + r.offset) 8 :=
  map_fst_span _ _ _

section Pass

variable {syms : Section} (h : Relocatable f elf syms)
include h

theorem Relocatable.value_eq {r : Rela} (hr : r ∈ f.allRelas elf) :
    r.value f (some syms.table)
      = .ok (if r.supported = true then some (r.target f syms) else none) := by
  obtain ⟨htype, hsym⟩ := h.narrow r hr
  exact value_eq_target h.symbolsFit.1 htype (Nat.lt_trans hsym h.symbolsFit.2)

theorem Relocatable.applies_eq {r : Rela} (hr : r ∈ f.allRelas elf) :
    r.applies f (some syms.table) = r.supported := by
  unfold Rela.applies
  rw [h.value_eq hr]
  cases r.supported <;> rfl

theorem Relocatable.relocations_eq : relocations f elf = f.allRelas elf := by
  obtain ⟨dyn, hdyn⟩ := h.tables relaDynName (by simp)
  obtain ⟨plt, hplt⟩ := h.tables relaPltName (by simp)
  unfold relocations File.allRelas
  rw [hdyn, hplt, onOk_ok, onOk_ok, (elfAddendRelocations_eq_ok hdyn).1,
    (elfAddendRelocations_eq_ok hplt).1, entries_eq_relas (h.tablesFit relaDynName (by simp)),
    entries_eq_relas (h.tablesFit relaPltName (by simp))]

/-- The entries before the first unsupported one are those the walk applies. -/
theorem Relocatable.takeWhile_eq :
    (f.allRelas elf).takeWhile (Rela.applies f (some syms.table))
      = (f.allRelas elf).takeWhile Rela.supported := by
  have hcongr : ∀ l : List Rela, (∀ r ∈ l, r.applies f (some syms.table) = r.supported) →
      l.takeWhile (Rela.applies f (some syms.table)) = l.takeWhile Rela.supported := by
    intro l
    induction l with
    | nil => intro _; rfl
    | cons r rest ih =>
        intro hl
        rw [List.takeWhile_cons, List.takeWhile_cons, hl r List.mem_cons_self,
          ih fun s hs => hl s (List.mem_cons_of_mem r hs)]
  exact hcongr _ fun r hr => h.applies_eq hr

theorem Relocatable.entryStores_eq {r : Rela} (hr : r ∈ f.allRelas elf)
    (hsupp : r.supported = true) :
    entryStores f w e (some syms.table) r = r.slotStores f syms w e := by
  unfold entryStores
  rw [h.value_eq hr, if_pos hsupp]
  rfl

theorem Relocatable.stores_eq (hw : w ≠ 0) (he : e ≠ 0) :
    stores f (elfLoaderRelocate (some elf) w e)
      = ((f.allRelas elf).takeWhile Rela.supported).flatMap (Rela.slotStores f syms w e) := by
  rw [stores_elfLoaderRelocate hw he, relocateStores, h.symbols, onOk_ok, h.relocations_eq,
    walkStores, h.takeWhile_eq]
  refine List.flatMap_congr fun r hr => ?_
  exact h.entryStores_eq ((List.takeWhile_prefix _).subset hr) (List.mem_takeWhile_imp hr)

/-- With symbols at hand the walk always returns. -/
theorem Relocatable.walkResult_eq : ∀ l : List Rela, (∀ r ∈ l, r ∈ f.allRelas elf) →
    walkResult f (some syms.table) l
      = .ok (if ∀ r ∈ l, r.supported = true then none else some .unknownRelocation) := by
  intro l
  induction l with
  | nil => intro _; simp [walkResult]
  | cons r rest ih =>
      intro hl
      have hr := hl r List.mem_cons_self
      rw [walkResult, h.value_eq hr]
      cases hsupp : r.supported with
      | false => simp [entryResult, hsupp, pure, Except.pure]
      | true =>
          have hrest := ih fun s hs => hl s (List.mem_cons_of_mem r hs)
          simp only [if_true, entryResult, ok_bind, hrest, List.forall_mem_cons, hsupp, true_and]

theorem Relocatable.result_eq (hw : w ≠ 0) (he : e ≠ 0) :
    result f (elfLoaderRelocate (some elf) w e)
      = .ok (if ∀ r ∈ f.allRelas elf, r.supported = true then .ok else .unknownRelocation) := by
  obtain ⟨dyn, hdyn⟩ := h.tables relaDynName (by simp)
  obtain ⟨plt, hplt⟩ := h.tables relaPltName (by simp)
  have hentries : f.entries dyn ++ f.entries plt = f.allRelas elf := by
    rw [← h.relocations_eq, relocations, hdyn, hplt, onOk_ok, onOk_ok]
  rw [result_elfLoaderRelocate hw he h.symbols hdyn hplt, hentries,
    h.walkResult_eq _ fun r hr => hr, ok_bind]
  by_cases hall : ∀ r ∈ f.allRelas elf, r.supported = true
  · rw [if_pos hall, if_pos hall]
    rfl
  · rw [if_neg hall, if_neg hall]
    rfl

/-- The slots stay pairwise apart wherever they are mapped. -/
theorem Relocatable.slots_disjoint (w : U64) : ((f.allRelas elf).takeWhile Rela.supported).Pairwise
    fun r s => ∀ a ∈ extent (w + r.offset) 8, a ∉ extent (w + s.offset) 8 := by
  have hshift : ∀ a x : U64, a - (w + x) = a - w - x := by
    intro a x
    bv_omega
  refine (h.disjoint.sublist (List.takeWhile_prefix _).sublist).imp fun hrs a hr hs => ?_
  rw [mem_extent (by omega), hshift] at hr hs
  exact hrs (a - w) ((mem_extent (by omega)).mpr hr) ((mem_extent (by omega)).mpr hs)

/-- The word in an applied slot, once the pass is over. -/
theorem Relocatable.slot_eq (hw : w ≠ 0) (he : e ≠ 0) (mem : U64 → Byte) {r : Rela}
    (hr : r ∈ (f.allRelas elf).takeWhile Rela.supported) :
    le64 (exec f (elfLoaderRelocate (some elf) w e) mem).memory (w + r.offset)
      = r.word f syms w e := by
  have hdisj : ((f.allRelas elf).takeWhile Rela.supported).Pairwise fun r s =>
      ∀ a ∈ (r.slotStores f syms w e).map Prod.fst,
        a ∉ (s.slotStores f syms w e).map Prod.fst := by
    simpa only [map_fst_slotStores] using h.slots_disjoint w
  refine le64_of_bytes fun k hk => ?_
  have hdist := toNat_add_ofNat_sub (w + r.offset) (k := k) (by omega)
  have hin : w + r.offset + BitVec.ofNat 64 k ∈ (r.slotStores f syms w e).map Prod.fst := by
    rw [map_fst_slotStores, mem_extent (by omega), hdist]
    exact hk
  rw [memory_exec, h.stores_eq hw he, replay_flatMap_of_disjoint hin hdisj hr, Rela.slotStores,
    replay_span (by omega), hdist, if_pos hk]

end Pass

/--
**Relocation, end to end.**

The status tells whether some entry is unsupported; the entries before the first such
one are applied, in the sense that exactly their slots are written, each with its target
added to the base of the target's alias; every other byte keeps its value.
-/
theorem elfLoaderRelocate_relocates (f : File) (elf : Elf) (syms : Section)
    (h : Relocatable f elf syms) (w e : U64) (hw : w ≠ 0) (he : e ≠ 0) (mem : U64 → Byte) :
    let o := exec f (elfLoaderRelocate (some elf) w e) mem
    let applied := (f.allRelas elf).takeWhile Rela.supported
    (o.result = .ok .unknownRelocation ↔ ∃ r ∈ f.allRelas elf, r.supported = false) ∧
    (o.result = .ok .ok ↔ ∀ r ∈ f.allRelas elf, r.supported = true) ∧
    o.written = applied.flatMap (fun r => extent (w + r.offset) 8) ∧
    (∀ r ∈ applied, ∃ x,
      result f (elfLoaderRelativeAddressIsExecutable (some elf) (r.target f syms)) = .ok x ∧
      le64 o.memory (w + r.offset) = (if x ≠ 0 then e else w) + r.target f syms) ∧
    ∀ a, (∀ r ∈ applied, a ∉ extent (w + r.offset) 8) → o.memory a = mem a := by
  intro o applied
  have hresult : o.result
      = .ok (if ∀ r ∈ f.allRelas elf, r.supported = true then .ok else .unknownRelocation) := by
    show (exec f _ mem).result = _
    rw [exec_eq]
    exact h.result_eq hw he
  have hwritten : o.written = applied.flatMap fun r => extent (w + r.offset) 8 := by
    show (exec f _ mem).written = _
    rw [exec_eq, h.stores_eq hw he, List.map_flatMap]
    simp only [map_fst_slotStores]
    rfl
  refine ⟨?_, ?_, hwritten, fun r hr => ?_, fun a ha => ?_⟩
  · rw [hresult]
    by_cases hall : ∀ r ∈ f.allRelas elf, r.supported = true
    · rw [if_pos hall]
      refine iff_of_false (by simp) ?_
      rintro ⟨r, hr, hsupp⟩
      rw [hall r hr] at hsupp
      cases hsupp
    · rw [if_neg hall]
      refine iff_of_true rfl ?_
      simpa using hall
  · rw [hresult]
    by_cases hall : ∀ r ∈ f.allRelas elf, r.supported = true
    · rw [if_pos hall]
      exact iff_of_true rfl hall
    · rw [if_neg hall]
      exact iff_of_false (by simp) hall
  · exact ⟨_, result_elfLoaderRelativeAddressIsExecutable _, h.slot_eq hw he mem hr⟩
  · have hnot : a ∉ o.written := by
      rw [hwritten, List.mem_flatMap]
      rintro ⟨r, hr, har⟩
      exact ha r hr har
    exact (exec_agree (elfLoaderRelocate (some elf) w e) mem mem).2.2.2 a hnot

/-- One segment of code and one of data, a symbol in the code, and a relocation of each
kind of formula, the last of an unsupported type. -/
def symbolFile : File :=
  File.ofBytes (fileBytes [⟨ptLoad, 5, 0, 0, 0, 16, 16, 0⟩, ⟨ptLoad, 6, 0, 0, 64, 32, 64, 0⟩]
    [dynsym [0, 4], relaDyn 72 [⟨64, 8, 70⟩, ⟨72, 0x100000001, 2⟩, ⟨80, 0x100000002, 0⟩]])

/-- The symbols of `symbolFile`. -/
def symbolFileDynsym : Section := ⟨1, shtDynsym, 0, 0, 0x1cd, 48, 24⟩

/-- Its relocations. -/
def symbolFileRelaDyn : Section := ⟨9, shtRela, 0, 0, 0x1fd, 72, 24⟩

theorem symbolFile_named :
    symbolFile.named ⟨581⟩ dynsymName = .ok (some symbolFileDynsym) ∧
    symbolFile.named ⟨581⟩ relaDynName = .ok (some symbolFileRelaDyn) ∧
    symbolFile.named ⟨581⟩ relaPltName = .ok (some ⟨0, 0, 0, 0, 0, 0, 0⟩) := by
  decide +kernel

theorem symbolFile_relaSection :
    symbolFile.relaSection ⟨581⟩ relaDynName = some symbolFileRelaDyn ∧
    symbolFile.relaSection ⟨581⟩ relaPltName = none := by
  obtain ⟨-, hdyn, hplt⟩ := symbolFile_named
  exact ⟨(relaSection_of_named hdyn).trans (if_pos rfl),
    (relaSection_of_named hplt).trans (if_neg (by decide))⟩

theorem symbolFile_allRelas : symbolFile.allRelas ⟨581⟩
    = [⟨64, 8, 70⟩, ⟨72, 0x100000001, 2⟩, ⟨80, 0x100000002, 0⟩] := by
  unfold File.allRelas File.relas
  rw [symbolFile_relaSection.1, symbolFile_relaSection.2]
  decide +kernel

theorem symbolFile_relocatable : Relocatable symbolFile ⟨581⟩ symbolFileDynsym := by
  obtain ⟨hsym, hdyn, hplt⟩ := symbolFile_named
  have hsections : ∀ name ∈ [relaDynName, relaPltName], ∀ s,
      symbolFile.relaSection ⟨581⟩ name = some s → s = symbolFileRelaDyn := by
    intro name hname s hs
    obtain rfl | rfl := relaNames_cases hname
    · rw [symbolFile_relaSection.1] at hs
      exact (Option.some.inj hs).symm
    · rw [symbolFile_relaSection.2] at hs
      cases hs
  refine ⟨hsym, ?_, by decide, fun name hname => ?_, fun name hname s hs => ?_, ?_, ?_⟩
  · rw [elfSymbols, result_elfNamedTable, hsym]
    rfl
  · obtain rfl | rfl := relaNames_cases hname
    · refine ⟨some symbolFileRelaDyn.table, ?_⟩
      rw [elfAddendRelocations, result_elfNamedTable, hdyn]
      rfl
    · refine ⟨none, ?_⟩
      rw [elfAddendRelocations, result_elfNamedTable, hplt]
      rfl
  · rw [hsections name hname s hs]
    decide
  · rw [symbolFile_allRelas]
    decide +kernel
  · rw [symbolFile_allRelas]
    have hsorted : ([⟨64, 8, 70⟩, ⟨72, 0x100000001, 2⟩, ⟨80, 0x100000002, 0⟩] : List Rela).Pairwise
        fun r s => r.offset.toNat + 8 ≤ s.offset.toNat ∧ s.offset.toNat + 8 ≤ 2 ^ 64 := by
      decide
    refine hsorted.imp fun hrs x hr hs => ?_
    rw [mem_extent (by omega)] at hr hs
    bv_omega

/-- The first two slots are relocated, into the data and into the code; the third entry is
reported. -/
theorem symbolFile_relocates :
    (exec symbolFile (elfLoaderRelocate (some ⟨581⟩) 0x1000 0x2000) fun _ => 0).result
      = .ok .unknownRelocation ∧
    le64 (exec symbolFile (elfLoaderRelocate (some ⟨581⟩) 0x1000 0x2000) fun _ => 0).memory
      (0x1000 + 72) = 0x2000 + 6 := by
  obtain ⟨hstatus, -, -, hslots, -⟩ := elfLoaderRelocate_relocates symbolFile ⟨581⟩
    symbolFileDynsym symbolFile_relocatable 0x1000 0x2000 (by decide) (by decide) fun _ => 0
  rw [symbolFile_allRelas] at hstatus hslots
  refine ⟨hstatus.mpr (by decide), ?_⟩
  obtain ⟨x, hx, hslot⟩ := hslots ⟨72, 0x100000001, 2⟩ (by decide)
  have htarget : (⟨72, 0x100000001, 2⟩ : Rela).target symbolFile symbolFileDynsym = 6 := by
    decide +kernel
  have hexec : result symbolFile (elfLoaderRelativeAddressIsExecutable (some ⟨581⟩) 6) = .ok 1 := by
    decide +kernel
  rw [htarget] at hx hslot
  have hone : x = 1 := Except.ok.inj (hx.symm.trans hexec)
  rw [hone, if_pos (by decide)] at hslot
  exact hslot

end LibPS4
