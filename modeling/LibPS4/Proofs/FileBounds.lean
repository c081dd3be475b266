/-
When every read of the loader stays inside the file.

What is left after headers, tables and names are the relocations: an entry is read, the
symbol it names, and the flag of the header its value falls into.  Entries are walked
until one has no value, so the bytes of an entry have to be in the file only if the walk
gets that far.

`FileFits` puts the pieces together: a list of the stretches that have to be there, for a
file of the given size.  Which header a name leads to and how the table behind it is handed
out are the answers of the accessors, since that is where the loader goes on reading; the
conditions on the entries are stated from there.
-/
import LibPS4.Proofs.NameReads
import LibPS4.Proofs.Rebase

namespace LibPS4

open Effects Prog

variable {f : File} {elf : Elf} {size : U64} {w e : U64}

/-! ### The executability test -/

/-- The flags of the first program header that claims an address. -/
def FlagFits (f : File) (size address : U64) : Prop :=
  f.phoff ≠ 0 → ∀ k < f.segmentTable.length.toNat,
    (∀ j < k, ¬ Claims Segment.paddr Segment.memsz
      (f.segmentAt (f.segmentTable.entry j)) address) →
    Claims Segment.paddr Segment.memsz (f.segmentAt (f.segmentTable.entry k)) address →
      Fits size (f.segmentTable.entry k + 4) 4

theorem readsIn_flagOfAddress {α : Type} {addr bytes : U64 → ElfProg U64}
    {flag : U64 → ElfProg U32} (at_ : U64 → α) (a n : α → U64) (g : α → U32)
    (ha : ∀ s, result f (addr s) = .ok (a (at_ s)))
    (hn : ∀ s, result f (bytes s) = .ok (n (at_ s)))
    (hg : ∀ s, result f (flag s) = .ok (g (at_ s))) (t : Table) (address : U64)
    (haddr : ∀ k < t.length.toNat, ReadsIn f (InFile size) (addr (t.entry k)))
    (hbytes : ∀ k < t.length.toNat, ReadsIn f (InFile size) (bytes (t.entry k))) :
    ReadsIn f (InFile size) (flagOfAddress addr bytes flag t address) ↔
      ∀ k < t.length.toNat, (∀ j < k, ¬ Claims a n (at_ (t.entry j)) address) →
        Claims a n (at_ (t.entry k)) address → ReadsIn f (InFile size) (flag (t.entry k)) := by
  have hbody : ∀ k < t.length.toNat,
      (ReadsIn f (InFile size) (flagBody addr bytes flag t address k) ↔
        (Claims a n (at_ (t.entry k)) address → ReadsIn f (InFile size) (flag (t.entry k)))) := by
    intro k hk
    simp only [flagBody, readsIn_bind_of_ok (ha _), readsIn_bind_of_ok (hn _),
      readsIn_bind_of_ok (hg _), readsIn_ite, pure_eq, readsIn_ret, haddr k hk, hbytes k hk,
      implies_true, true_and, and_true, BitVec.not_lt, Claims, and_imp]
  show ReadsIn f (InFile size) (findFrom (flagBody addr bytes flag t address) _ 0) ↔ _
  rw [readsIn_findFrom_first (p := fun k => Claims a n (at_ (t.entry k)) address)
    (result_flagBody ha hn hg t address)]
  simp only [Nat.zero_le, true_implies, Nat.zero_add]
  exact forall₂_congr fun k hk => imp_congr_right fun _ => hbody k hk

variable (elf) in
/-- Where every header's range has been read, only the flags are left. -/
theorem readsIn_elfLoaderRelativeAddressIsExecutable (h : 64 ≤ size.toNat) (address : U64)
    (hseg : f.phoff ≠ 0 → ∀ k < f.segmentTable.length.toNat,
      Fits size (f.segmentTable.entry k + 24) 8 ∧ Fits size (f.segmentTable.entry k + 40) 8)
    (hsec : f.phoff = 0 → f.shoff ≠ 0 → ∀ k < f.sectionTable.length.toNat,
      SectionFits f size (f.sectionTable.entry k)) :
    ReadsIn f (InFile size) (elfLoaderRelativeAddressIsExecutable (some elf) address) ↔
      FlagFits f size address := by
  unfold elfLoaderRelativeAddressIsExecutable FlagFits
  rw [readsIn_bind_of_ok result_elfSegments]
  simp only [readsIn_elfSegments h, true_and]
  by_cases hph : f.phoff = 0
  · simp only [hph, if_true, ne_eq, not_true_eq_false, false_implies, iff_true]
    rw [readsIn_bind_of_ok result_elfSections]
    refine ⟨readsIn_elfSections h, ?_⟩
    by_cases hsh : f.shoff = 0
    · rw [if_pos hsh]
      exact readsIn_ret _
    · simp only [if_neg hsh]
      rw [readsIn_bind_of_ok (result_sectionFlagOfAddress f.sectionTable address)]
      refine ⟨?_, readsIn_ret _⟩
      refine (readsIn_flagOfAddress f.sectionAt Section.addr Section.size
        (fun s => (s.flags &&& shfExecinstr).setWidth 32) (fun s => result_fetch64 (s + 16))
        (fun s => result_fetch64 (s + 32)) (fun s => ?_) _ _ (fun k hk => ?_) (fun k hk => ?_)).mpr
        fun k hk _ _ => ?_
      · simp only [ElfSection.shFlags, result_bind, result_fetch64, ok_bind, pure_eq, result_ret,
          File.sectionAt]
      · exact (readsIn_fetch64 _).mpr (hsec hph hsh k hk).addr
      · exact (readsIn_fetch64 _).mpr (hsec hph hsh k hk).bytes
      · exact (readsIn_fetch64_bind _ _).mpr ⟨(hsec hph hsh k hk).flags, readsIn_ret _⟩
  · simp only [hph, if_false, ne_eq, not_false_eq_true, true_implies]
    rw [readsIn_bind_of_ok (result_segmentFlagOfAddress f.segmentTable address)]
    simp only [pure_eq, readsIn_ret, and_true]
    refine Iff.trans (readsIn_flagOfAddress f.segmentAt Segment.paddr Segment.memsz
      (fun s => s.flags &&& pfX) (fun s => result_fetch64 (s + 24))
      (fun s => result_fetch64 (s + 40)) (fun s => ?_) _ _
      (fun k hk => (readsIn_fetch64 _).mpr (hseg hph k hk).1)
      (fun k hk => (readsIn_fetch64 _).mpr (hseg hph k hk).2)) ?_
    · simp only [ElfSegment.pFlags, result_bind, result_fetch32, ok_bind, result_ret,
        File.segmentAt]
    · simp only [ElfSegment.pFlags, readsIn_fetch32_bind, readsIn_ret, and_true]

/-! ### Relocations -/

/-- What the walk reads for the entry at `r`: the entry, its symbol if there are symbols, and
the flag for its value. -/
structure EntryFits (f : File) (size : U64) (symbols : Option Table) (r : U64) : Prop where
  info : Fits size (r + 8) 8
  offset : Fits size r 8
  addend : (f.relaAt r).type = rX8664Relative → Fits size (r + 16) 8
  symbolAddend : (f.relaAt r).type = rX866464 → ∀ t, symbols = some t →
    Fits size (t.entry (f.relaAt r).sym.toNat + 8) 8 ∧ Fits size (r + 16) 8
  symbol : (f.relaAt r).type = rX8664JmpSlot ∨ (f.relaAt r).type = rX8664GlobDat →
    ∀ t, symbols = some t → Fits size (t.entry (f.relaAt r).sym.toNat + 8) 8
  flag : ∀ v, (f.relaAt r).value f symbols = .ok (some v) → FlagFits f size v

section Entry

variable (symbols : Option Table) (r : U64)

variable (size) in
theorem readsIn_symbolValue :
    ReadsIn f (InFile size) (symbolValue (symbols.map Table.base)
      ((symbols.map Table.size).getD 0) (f.relaAt r).sym) ↔
      ∀ t, symbols = some t → Fits size (t.entry (f.relaAt r).sym.toNat + 8) 8 := by
  cases symbols with
  | none => exact iff_of_true (readsIn_raise _) fun t ht => by cases ht
  | some t =>
      simp only [symbolValue, deref, Option.map_some, Option.getD_some, pure_eq, ret_bind,
        ElfSymbol.stValue, readsIn_fetch64, Option.some.injEq, forall_eq']
      exact Iff.rfl

variable (size) in
theorem readsIn_relocationValue :
    ReadsIn f (InFile size) (relocationValue (symbols.map Table.base)
      ((symbols.map Table.size).getD 0) r (f.relaAt r).type (f.relaAt r).sym) ↔
      ((f.relaAt r).type = rX8664Relative → Fits size (r + 16) 8) ∧
      ((f.relaAt r).type = rX866464 → ∀ t, symbols = some t →
        Fits size (t.entry (f.relaAt r).sym.toNat + 8) 8 ∧ Fits size (r + 16) 8) ∧
      ((f.relaAt r).type = rX8664JmpSlot ∨ (f.relaAt r).type = rX8664GlobDat →
        ∀ t, symbols = some t → Fits size (t.entry (f.relaAt r).sym.toNat + 8) 8) := by
  have hsym := readsIn_symbolValue (f := f) size symbols r
  have hval := result_symbolValue (f := f) symbols r
  unfold relocationValue
  generalize (f.relaAt r).type = type
  simp only [readsIn_ite, ElfAddendRelocation.rAddend, readsIn_fetch64, pure_eq, readsIn_ret,
    and_true, readsIn_bind, hsym, implies_true]
  by_cases h8 : type = rX8664Relative
  · have h1 : ¬ rX8664Relative = rX866464 := by decide
    have h67 : ¬ (rX8664Relative = rX8664JmpSlot ∨ rX8664Relative = rX8664GlobDat) := by decide
    simp only [h8, h1, h67, true_implies, false_implies, not_true_eq_false, and_true]
  · by_cases h1 : type = rX866464
    · have h8' : ¬ rX866464 = rX8664Relative := by decide
      have h67 : ¬ (rX866464 = rX8664JmpSlot ∨ rX866464 = rX8664GlobDat) := by decide
      simp only [h1, h8', h67, not_false_eq_true, true_implies, false_implies, not_true_eq_false,
        and_true, true_and]
      -- The addend is read only once the symbol's value has been.
      cases symbols with
      | none =>
          refine iff_of_true ⟨fun t ht => ?_, fun v hv => ?_⟩ fun t ht => ?_
          · cases ht
          · rw [hval] at hv
            cases hv
          · cases ht
      | some t =>
          simp only [Option.some.injEq, forall_eq', hval, Rela.symbolValue, Except.ok.injEq]
    · simp only [h8, h1, not_false_eq_true, true_implies, false_implies, true_and]

/-- What follows once a relocation has its value. -/
theorem readsIn_storeRebased (w e offset : U64)
    (hflag : ∀ address, ReadsIn f (InFile size)
      (elfLoaderRelativeAddressIsExecutable (some elf) address) ↔ FlagFits f size address)
    (o : Option U64) :
    ReadsIn f (InFile size) (match o with
      | none => (return some .unknownRelocation : ElfProg (Option ElfLoaderReturn))
      | some value => do
          if (← elfLoaderRelativeAddressIsExecutable (some elf) value) ≠ 0 then
            store64 (w + offset) (e + value)
          else
            store64 (w + offset) (w + value)
          return none) ↔ ∀ v, o = some v → FlagFits f size v := by
  cases o with
  | none => exact iff_of_true (readsIn_ret _) fun v hv => by cases hv
  | some v =>
      have hstore : ∀ a x : U64, ReadsIn f (InFile size) (store64 a x : ElfProg Unit) := by
        intro a x
        unfold ReadsIn
        rw [fetches_store64]
        exact fun y hy => absurd hy List.not_mem_nil
      simp only [readsIn_bind_of_ok (result_elfLoaderRelativeAddressIsExecutable v), hflag v,
        readsIn_ite, readsIn_bind_of_ok (result_store64 _ _), hstore, pure_eq, readsIn_ret,
        implies_true, and_true, Option.some.injEq, forall_eq']

/-- An entry the walk gets to is read inside the file exactly when it fits. -/
theorem readsIn_relocateEntry
    (hflag : ∀ address, ReadsIn f (InFile size)
      (elfLoaderRelativeAddressIsExecutable (some elf) address) ↔ FlagFits f size address) :
    ReadsIn f (InFile size) (relocateEntry (some elf) w e (symbols.map Table.base)
      ((symbols.map Table.size).getD 0) r) ↔ EntryFits f size symbols r := by
  have hvalue := result_relocationValue (f := f) symbols r
  have hreads := readsIn_relocationValue (f := f) size symbols r
  have hrest := readsIn_storeRebased (f := f) w e (f.relaAt r).offset hflag
  have hentry : ReadsIn f (InFile size) (relocateEntry (some elf) w e (symbols.map Table.base)
      ((symbols.map Table.size).getD 0) r) ↔ Fits size (r + 8) 8 ∧ Fits size r 8 ∧
      ReadsIn f (InFile size) (relocationValue (symbols.map Table.base)
        ((symbols.map Table.size).getD 0) r (f.relaAt r).type (f.relaAt r).sym) ∧
      ∀ v, (f.relaAt r).value f symbols = .ok (some v) → FlagFits f size v := by
    unfold relocateEntry
    simp only [ElfAddendRelocation.rInfo, ElfAddendRelocation.rOffset, readsIn_fetch64_bind]
    refine and_congr_right fun _ => and_congr_right fun _ => ?_
    rw [readsIn_bind]
    refine and_congr_right fun _ => ?_
    constructor
    · intro hall v hv
      exact (hrest (some v)).mp (hall (some v) (hvalue.trans hv)) v rfl
    · intro hall o ho
      refine (hrest o).mpr fun v hov => hall v ?_
      rw [← hvalue, ← hov]
      exact ho
  rw [hentry, hreads]
  constructor
  · rintro ⟨hinfo, hoffset, ⟨haddend, hboth, hsymbol⟩, hvalues⟩
    exact ⟨hinfo, hoffset, haddend, hboth, hsymbol, hvalues⟩
  · intro h
    exact ⟨h.info, h.offset, ⟨h.addend, h.symbolAddend, h.symbol⟩, h.flag⟩

end Entry

/-- What relocating the table of a name reads: the lookup, and every entry up to the first
that is not applied. -/
structure RelaFits (f : File) (elf : Elf) (size : U64) (symbols : Option Table)
    (name : List Byte) : Prop where
  lookup : LookupFits f elf size (fun type => type = shtRela) name
  entries : ∀ t, result f (elfAddendRelocations (some elf) name) = .ok (some t) →
    ∀ i < t.length.toNat, (∀ j < i, (f.relaAt (t.entry j)).applies f symbols = true) →
      EntryFits f size symbols (t.entry i)

theorem entryResult_eq_ok_none {symbols : Option Table} {r : Rela} :
    entryResult (r.value f symbols) = .ok none ↔ r.applies f symbols = true := by
  cases happ : r.applies f symbols with
  | true => exact iff_of_true (entryResult_of_applies happ) rfl
  | false =>
      rcases entryResult_of_not_applies happ with ⟨err, hv⟩ | hv
      · rw [hv]
        simp [entryResult]
      · rw [hv]
        simp [entryResult]

section Pass

variable (h : 64 ≤ size.toNat)
  (hflag : ∀ address, ReadsIn f (InFile size)
    (elfLoaderRelativeAddressIsExecutable (some elf) address) ↔ FlagFits f size address)
include h hflag

theorem readsIn_relocateTable (symbols : Option Table) (name : List Byte) :
    ReadsIn f (InFile size) (relocateTable (some elf) w e (symbols.map Table.base)
      ((symbols.map Table.size).getD 0) name) ↔ RelaFits f elf size symbols name := by
  have hwalk : ∀ t : Table, ReadsIn f (InFile size) (findFrom (fun i => relocateEntry (some elf)
      w e (symbols.map Table.base) ((symbols.map Table.size).getD 0) (t.entry i))
      t.length.toNat 0) ↔
      ∀ i < t.length.toNat, (∀ j < i, (f.relaAt (t.entry j)).applies f symbols = true) →
        EntryFits f size symbols (t.entry i) := by
    intro t
    rw [readsIn_findFrom]
    simp only [mem_visited, result_relocateEntry, entryResult_eq_ok_none,
      readsIn_relocateEntry symbols _ hflag, Nat.zero_le, true_and, true_implies, Nat.zero_add,
      and_imp]
  unfold relocateTable
  rw [readsIn_bind, elfAddendRelocations, readsIn_elfNamedTable h]
  constructor
  · rintro ⟨hlookup, hrest⟩
    exact ⟨hlookup, fun t ht => (hwalk t).mp (hrest (some t) ht)⟩
  · intro hfit
    refine ⟨hfit.lookup, fun o ho => ?_⟩
    cases o with
    | none => exact readsIn_ret _
    | some t => exact (hwalk t).mpr (hfit.entries t ho)

end Pass

/-- What the relocation pass reads.  The second table is reached when the first has been
walked to its end. -/
structure RelocateFits (f : File) (elf : Elf) (size : U64) : Prop where
  symbols : LookupFits f elf size (fun type => type = shtSymtab ∨ type = shtDynsym) dynsymName
  relaDyn : ∀ symbols, result f (elfSymbols (some elf) dynsymName) = .ok symbols →
    RelaFits f elf size symbols relaDynName
  relaPlt : ∀ symbols dyn, result f (elfSymbols (some elf) dynsymName) = .ok symbols →
    result f (elfAddendRelocations (some elf) relaDynName) = .ok dyn →
    (∀ r ∈ f.entries dyn, r.applies f symbols = true) →
      RelaFits f elf size symbols relaPltName

/-- The second table, and the status. -/
theorem readsIn_relaPlt (h : 64 ≤ size.toNat)
    (hflag : ∀ address, ReadsIn f (InFile size)
      (elfLoaderRelativeAddressIsExecutable (some elf) address) ↔ FlagFits f size address)
    (symbols : Option Table) :
    ReadsIn f (InFile size) (do
      match ← relocateTable (some elf) w e (symbols.map Table.base)
          ((symbols.map Table.size).getD 0) relaPltName with
      | some r => return r
      | none => return .ok : ElfProg ElfLoaderReturn) ↔
      RelaFits f elf size symbols relaPltName := by
  rw [readsIn_bind, readsIn_relocateTable h hflag]
  refine and_iff_left fun o _ => ?_
  cases o with
  | none => exact readsIn_ret _
  | some r => exact readsIn_ret _

theorem readsIn_elfLoaderRelocate (h : 64 ≤ size.toNat)
    (hflag : ∀ address, ReadsIn f (InFile size)
      (elfLoaderRelativeAddressIsExecutable (some elf) address) ↔ FlagFits f size address)
    (hw : w ≠ 0) (he : e ≠ 0) :
    ReadsIn f (InFile size) (elfLoaderRelocate (some elf) w e) ↔ RelocateFits f elf size := by
  simp only [elfLoaderRelocate, hw, he, if_false]
  rw [readsIn_bind, elfSymbols, readsIn_elfNamedTable h]
  have hplt := readsIn_relaPlt (w := w) (e := e) h hflag
  constructor
  · rintro ⟨hsym, hrest⟩
    refine ⟨hsym, fun symbols hs => ?_, fun symbols dyn hs hdyn happ => ?_⟩
    · have htable := hrest symbols hs
      rw [readsIn_bind, readsIn_relocateTable h hflag] at htable
      exact htable.1
    · have htable := hrest symbols hs
      rw [readsIn_bind] at htable
      refine (hplt symbols).mp (htable.2 none ?_)
      rw [result_relocateTable, hdyn, ok_bind]
      exact walkResult_eq_ok_none.mpr happ
  · intro hfit
    refine ⟨hfit.symbols, fun symbols hs => ?_⟩
    rw [readsIn_bind, readsIn_relocateTable h hflag]
    refine ⟨hfit.relaDyn symbols hs, fun o ho => ?_⟩
    cases o with
    | some r => exact readsIn_ret _
    | none =>
        rw [result_relocateTable] at ho
        obtain ⟨dyn, hdyn, hwalk⟩ := bind_eq_ok.mp ho
        exact (hplt symbols).mpr
          (hfit.relaPlt symbols dyn hs hdyn (walkResult_eq_ok_none.mp hwalk))

/-- The first name looked up needs the whole header. -/
theorem header_of_elfLoaderRelocate (hw : w ≠ 0) (he : e ≠ 0)
    (h : ReadsIn f (InFile size) (elfLoaderRelocate (some elf) w e)) : 64 ≤ size.toNat := by
  rw [elfLoaderRelocate, if_neg hw, if_neg he, readsIn_bind, elfSymbols, elfNamedTable,
    readsIn_bind] at h
  exact header_of_elfSectionByName h.1.1

/-! ### The whole loader -/

/-- A loadable file whose only segment takes its byte from past the end. -/
def outsideFile : File := File.ofBytes (fileBytes [⟨ptLoad, 5, 0x1000, 0, 0, 1, 1, 0⟩] [])

end LibPS4
