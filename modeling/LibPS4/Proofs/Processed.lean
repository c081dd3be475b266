/-
When a relocation pass that succeeds has lost nothing.

Two things lie between a section with relocations and the entries that are walked for it.
The section is looked for by its name, and the lookup goes by the first place where the name
stands in the section name table, which may belong to a longer name; and its table is handed
out in two `uint16_t` and walked with an `int`.  Whatever is lost at either of the two leaves
no trace in the status.

The sections meant here are those of the file: of type `SHT_RELA`, with the bytes of the name
at their `sh_name`.
-/
import LibPS4.Proofs.Faults

namespace LibPS4

open Effects Prog

variable {f : File} {elf : Elf} {w e : U64} {name : List Byte} {s s' : Section}

/-! ### The sections with a name, and the one that is found -/

/-- The header number `k` of the section table. -/
def File.headerAt (f : File) (k : Nat) : Section := f.sectionAt (f.sectionTable.entry k)

/-- The sections with a name that hold relocations, in the order of their headers. -/
def File.relaSections (f : File) (name : List Byte) : List Section :=
  (List.range f.sectionTable.length.toNat).filterMap fun k =>
    if f.NameAt name (f.nameOf k).toNat ∧ (f.headerAt k).type = shtRela then some (f.headerAt k)
    else none

/-- The entries of a section, none of its numbers narrowed. -/
def Section.relas (f : File) (s : Section) : List Rela :=
  (List.range s.count).map fun i => f.relaAt (s.offset + BitVec.ofNat 64 (i * s.entsize.toNat))

/-- Where the search for a name ends: at the first section whose `sh_name` is the first place
of the name in the section name table. -/
def File.LeadsTo (f : File) (name : List Byte) (s : Section) : Prop :=
  ∃ i k, First (f.NameAt name) f.nameTable.size.toNat (some i) ∧
    First (fun k => f.nameOf k = BitVec.ofNat 32 i) f.sectionTable.length.toNat (some k) ∧
    f.headerAt k = s

theorem mem_relaSections : s ∈ f.relaSections name ↔
    ∃ k < f.sectionTable.length.toNat, f.NameAt name (f.nameOf k).toNat ∧
      f.headerAt k = s ∧ s.type = shtRela := by
  simp only [File.relaSections, List.mem_filterMap, List.mem_range, Option.ite_none_right_eq_some,
    Option.some_inj]
  constructor
  · rintro ⟨k, hk, ⟨hat, htype⟩, rfl⟩
    exact ⟨k, hk, hat, rfl, htype⟩
  · rintro ⟨k, hk, hat, rfl, htype⟩
    exact ⟨k, hk, ⟨hat, htype⟩, rfl⟩

/-- The section the code takes for a name is the one the search leads to. -/
theorem relaSection_eq_some_iff (hn : f.HasNames) (hname : ShortName name) {i : Nat}
    (hat : f.NameAt name i) :
    f.relaSection elf name = some s ↔ f.LeadsTo name s ∧ s.type = shtRela := by
  obtain ⟨o, o', ho, ho', hres⟩ := elfSectionByName_first elf hn hname
  have hnamed : f.named elf name = .ok (o'.map f.headerAt) := by
    unfold File.named
    rw [hres]
    simp only [Except.map, Option.map_map]
    rfl
  obtain ⟨j, hj⟩ : ∃ j, o = some j := by
    cases o with
    | none => exact absurd hat (ho i hat.1)
    | some j => exact ⟨j, rfl⟩
  rw [hj] at ho ho'
  constructor
  · intro h
    unfold File.relaSection at h
    rw [hnamed] at h
    cases o' with
    | none => cases h
    | some k =>
        obtain ⟨htype, hs⟩ := Option.ite_none_right_eq_some.mp h
        have heq : f.headerAt k = s := Option.some.inj hs
        exact ⟨⟨j, k, ho, ho', heq⟩, heq ▸ htype⟩
  · rintro ⟨⟨i', k, hi', hk, heq⟩, htype⟩
    have hsame : some j = some i' := ho.unique hi'
    rw [hsame, Option.getD_some] at ho'
    rw [ho'.unique hk, Option.map_some, heq] at hnamed
    rw [relaSection_of_named hnamed, if_pos htype]

/-! ### No relocation is lost -/

/-- The stretch of stores that belongs to a name is one word for every entry of a section with
this name. -/
def StoresEntries (f : File) (w e : U64) (symbols : Option Table) (name : List Byte)
    (l : List (U64 × Byte)) : Prop :=
  ∀ s ∈ f.relaSections name,
    l = (s.relas f).flatMap (entryStores f w e symbols) ∧ l.length = 8 * s.count

/-- For both names the table handed out is that of the file's section, and the pass stores a
word for every entry of the two sections. -/
def EveryEntryProcessed (f : File) (elf : Elf) (w e : U64) : Prop :=
  (∀ name ∈ [relaDynName, relaPltName], ∀ s ∈ f.relaSections name,
    ∃ t, result f (elfAddendRelocations (some elf) name) = .ok (some t) ∧ s.TableExact t) ∧
  ∃ symbols dyn plt, result f (elfSymbols (some elf) dynsymName) = .ok symbols ∧
    stores f (elfLoaderRelocate (some elf) w e) = dyn ++ plt ∧
    StoresEntries f w e symbols relaDynName dyn ∧ StoresEntries f w e symbols relaPltName plt

/-- For both names, the search leads to a section that is walked as any section with this name
would be: that one itself if it fits the widths, or one with the same table. -/
def TablesReached (f : File) : Prop :=
  ∀ name ∈ [relaDynName, relaPltName], ∀ s ∈ f.relaSections name,
    ∃ s', f.LeadsTo name s' ∧ s'.type = shtRela ∧ s'.WalkedAs s

theorem length_entryStores {symbols : Option Table} {r : Rela} (h : r.applies f symbols = true) :
    (entryStores f w e symbols r).length = 8 := by
  obtain ⟨v, hv⟩ := value_of_applies h
  unfold entryStores
  rw [hv]
  exact length_span _ _ _

theorem walkStores_of_all {symbols : Option Table} {l : List Rela}
    (h : ∀ r ∈ l, r.applies f symbols = true) :
    walkStores f w e symbols l = l.flatMap (entryStores f w e symbols) := by
  unfold walkStores
  rw [List.takeWhile_eq_self_iff.mpr h]

/-- Entries that are all applied store eight bytes each. -/
theorem length_flatMap_entryStores {symbols : Option Table} {l : List Rela}
    (h : ∀ r ∈ l, r.applies f symbols = true) :
    (l.flatMap (entryStores f w e symbols)).length = 8 * l.length := by
  have hmap : l.map (fun r => (entryStores f w e symbols r).length) = l.map fun _ => 8 :=
    List.map_congr_left fun r hr => length_entryStores (h r hr)
  rw [List.length_flatMap, hmap, List.map_const', List.sum_replicate_nat, Nat.mul_comm]

/-- The entries walked are those of the section. -/
theorem entries_of_tableExact {t : Table} (h : s.TableExact t) :
    f.entries (some t) = s.relas f := by
  obtain ⟨-, hlen, hentry⟩ := h
  simp only [File.entries, File.records, Section.relas, hlen]
  exact List.map_congr_left fun i hi => by rw [hentry i (List.mem_range.mp hi)]

/-- The walk over an exact table stores what `StoresEntries` asks for. -/
theorem storesEntries_of_exact {symbols t : Option Table}
    (h : ∀ s ∈ f.relaSections name, ∃ t', t = some t' ∧ s.TableExact t')
    (happ : ∀ r ∈ f.entries t, r.applies f symbols = true) :
    StoresEntries f w e symbols name (walkStores f w e symbols (f.entries t)) := by
  intro s hs
  obtain ⟨t', rfl, hexact⟩ := h s hs
  rw [walkStores_of_all happ, length_flatMap_entryStores happ, entries_of_tableExact hexact]
  refine ⟨rfl, ?_⟩
  rw [Section.relas, List.length_map, List.length_range]

/--
**When a relocation pass that reports success has lost nothing.**

Exactly when both names lead to the table of the file's section, and this table fits the
widths it is walked with.
-/
theorem elfLoaderRelocate_processes_iff (f : File) (elf : Elf) (w e : U64)
    (hok : result f (elfLoaderRelocate (some elf) w e) = .ok .ok) :
    EveryEntryProcessed f elf w e ↔ TablesReached f := by
  obtain ⟨hw, he, symbols, dyn, plt, hsym, hdyn, hplt, happ⟩ := elfLoaderRelocate_eq_ok hok
  have hn := hasNames_of_elfNamedTable hsym
  have hreturns : ∀ name ∈ [relaDynName, relaPltName], ShortName name ∧
      result f (elfAddendRelocations (some elf) name)
        = .ok ((f.relaSection elf name).map Section.table) := by
    intro name hname
    obtain rfl | rfl := relaNames_cases hname
    · exact ⟨shortName_relaDyn, hdyn.trans (congrArg _ (elfAddendRelocations_eq_ok hdyn).1)⟩
    · exact ⟨shortName_relaPlt, hplt.trans (congrArg _ (elfAddendRelocations_eq_ok hplt).1)⟩
  constructor
  · intro h name hname s hs
    obtain ⟨hshort, hreturn⟩ := hreturns name hname
    obtain ⟨t, ht, hexact⟩ := h.1 name hname s hs
    obtain ⟨k, -, hat, -⟩ := mem_relaSections.mp hs
    obtain ⟨s', hs', rfl⟩ := Option.map_eq_some_iff.mp (Except.ok.inj (hreturn.symm.trans ht))
    obtain ⟨hleads, htype⟩ := (relaSection_eq_some_iff hn hshort hat).mp hs'
    exact ⟨s', hleads, htype, (tableExact_iff_walkedAs s s').mp hexact⟩
  · intro h
    have htable : ∀ name ∈ [relaDynName, relaPltName], ∀ s ∈ f.relaSections name,
        ∃ t, result f (elfAddendRelocations (some elf) name) = .ok (some t) ∧ s.TableExact t := by
      intro name hname s hs
      obtain ⟨hshort, hreturn⟩ := hreturns name hname
      obtain ⟨s', hleads, htype, hwalked⟩ := h name hname s hs
      obtain ⟨k, -, hat, -⟩ := mem_relaSections.mp hs
      rw [(relaSection_eq_some_iff hn hshort hat).mpr ⟨hleads, htype⟩] at hreturn
      exact ⟨s'.table, hreturn, (tableExact_iff_walkedAs s s').mpr hwalked⟩
    have hstores : ∀ name ∈ [relaDynName, relaPltName], ∀ o,
        result f (elfAddendRelocations (some elf) name) = .ok o →
        (∀ r ∈ f.entries o, r.applies f symbols = true) →
        StoresEntries f w e symbols name (walkStores f w e symbols (f.entries o)) := by
      intro name hname o ho happ
      refine storesEntries_of_exact (fun s hs => ?_) happ
      obtain ⟨t, ht, hexact⟩ := htable name hname s hs
      exact ⟨t, Except.ok.inj (ho.symm.trans ht), hexact⟩
    obtain ⟨happ₁, happ₂⟩ := List.forall_mem_append.mp happ
    refine ⟨htable, symbols, _, _, hsym, ?_, hstores relaDynName (by simp) dyn hdyn happ₁,
      hstores relaPltName (by simp) plt hplt happ₂⟩
    rw [stores_elfLoaderRelocate hw he, relocateStores, hsym, onOk_ok, relocations, hdyn,
      onOk_ok, hplt, onOk_ok, walkStores_append_of_all happ₁]

/-- A file whose `.rela.dyn` claims `count` entries and has one. -/
def countFile (count : Nat) : File :=
  File.ofBytes (fileBytes [⟨ptLoad, 6, 0, 0, 0, 1, 16, 0⟩] [relaDyn (24 * count) [⟨8, 8, 0⟩]])

theorem countFile_one_processed : EveryEntryProcessed (countFile 1) ⟨357⟩ 0x1000 0x2000 := by
  have hsections : (countFile 1).relaSections relaDynName = [(countFile 1).headerAt 1] ∧
      (countFile 1).relaSections relaPltName = [] := by
    decide +kernel
  have hheader : ((countFile 1).headerAt 1).type = shtRela ∧
      ((countFile 1).headerAt 1).CountFits := by
    unfold Section.CountFits Section.count
    decide +kernel
  refine (elfLoaderRelocate_processes_iff (countFile 1) ⟨357⟩ 0x1000 0x2000
    (by decide +kernel)).mpr fun name hname s hs => ?_
  obtain rfl | rfl := relaNames_cases hname
  · rw [hsections.1] at hs
    obtain rfl := List.mem_singleton.mp hs
    refine ⟨_, ⟨1, 1, ?_, ?_, rfl⟩, hheader.1, (walkedAs_self_iff _).mpr hheader.2⟩
    · unfold First
      decide +kernel
    · unfold First
      decide +kernel
  · rw [hsections.2] at hs
    cases hs

/-- 65536 entries are none, and the pass reports success. -/
theorem countFile_not_processed :
    ¬ ∀ (f : File) (elf : Elf) (w e : U64), result f (elfLoaderIsLoadable (some elf)) = .ok true →
      (∀ name ∈ [relaDynName, relaPltName], ∀ s ∈ f.relaSections name, 24 ≤ s.entsize.toNat) →
      result f (elfLoaderRelocate (some elf) w e) = .ok .ok → EveryEntryProcessed f elf w e := by
  intro h
  have hall := h (countFile 65536) ⟨357⟩ 0x1000 0x2000 (by decide +kernel) (by decide +kernel)
    (by decide +kernel)
  have hmem : (countFile 65536).headerAt 1 ∈ (countFile 65536).relaSections relaDynName := by
    decide +kernel
  have hcount : ((countFile 65536).headerAt 1).count = 65536 := by decide +kernel
  obtain ⟨t, -, -, hlen, -⟩ := hall.1 relaDynName (by simp) _ hmem
  have hlt := t.length.isLt
  omega

/-- `".rela.dyn"` stands in `"x.rela.dyn"` first, and its table is not found. -/
example :
    let f := File.ofBytes (fileBytes [⟨ptLoad, 6, 0, 0, 0, 1, 16, 0⟩]
      [{ name := 0x78 :: relaDynName, type := 1, size := 0, contents := [] },
        relaDyn 24 [⟨8, 8, 0⟩]])
    f.relaSections relaDynName = [f.headerAt 2] ∧
      result f (elfLoaderRelocate (some ⟨500⟩) 0x1000 0x2000) = .ok .ok ∧
      result f (elfAddendRelocations (some ⟨500⟩) relaDynName) = .ok none := by
  decide +kernel

end LibPS4
