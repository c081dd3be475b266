/-
What `elfLoaderRelocate` stores, entry by entry.

The two loops are one walk over the entries of `.rela.dyn` followed by those of
`.rela.plt`.  An entry either has a value and is applied, or its type is unknown and
the walk ends with a status, or it needs a symbol of a `.dynsym` that is not there and
the walk ends with a fault.  So the stores of the pass are those of the entries before
the first one that is not applied: a `takeWhile` over the list of entries.

The lookups themselves stay opaque here.  Whatever table a name leads to, this is what
is done with it.
-/
import Mathlib.Data.List.TakeWhile
import LibPS4.Elf.Build

namespace LibPS4

open Effects Prog

variable {f : File} {elf : Elf} {w e : U64}

/-! ### The lookups store nothing -/

@[simp] theorem quiet_fetch8 (a : U64) : Quiet (fetch8 a : ElfProg Byte) := quiet_get a

@[simp] theorem quiet_fetch16 (a : U64) : Quiet (fetch16 a : ElfProg U16) :=
  fun _ => stores_fetch16 a

@[simp] theorem quiet_fetch32 (a : U64) : Quiet (fetch32 a : ElfProg U32) :=
  fun _ => stores_fetch32 a

@[simp] theorem quiet_fetch64 (a : U64) : Quiet (fetch64 a : ElfProg U64) :=
  fun _ => stores_fetch64 a

@[simp] theorem quiet_deref {α : Type} (p : Option α) : Quiet (deref p) := by
  cases p <;> exact fun _ => rfl

theorem quiet_allOf {l : List (ElfProg Bool)} (h : ∀ p ∈ l, Quiet p) : Quiet (allOf l) := by
  induction l with
  | nil => exact quiet_ret true
  | cons p rest ih =>
      refine (h p (by simp)).bind fun b => ?_
      exact Quiet.ite (ih fun q hq => h q (by simp [hq])) (quiet_ret false)

theorem quiet_elfSectionAttribute (s : U64) (attr : ElfSectionAttribute) :
    Quiet (elfSectionAttribute s attr) := by
  cases attr with
  | flags | address | offset | size | memoryAlignment | entrySize => exact quiet_fetch64 _
  | name | type | link | info => exact (quiet_fetch32 _).bind fun _ => quiet_ret _
  | none => exact quiet_ret 0

theorem quiet_elfSectionLoop (h : Table) (attr : ElfSectionAttribute) (value : U64) (n i : Nat) :
    Quiet (elfSectionLoop h attr value n i) := by
  refine quiet_findFrom (fun k => ?_) n i
  refine Quiet.ite (quiet_ret _) ?_
  refine (quiet_elfSectionAttribute _ attr).bind fun v => ?_
  exact Quiet.ite (quiet_ret _) (quiet_ret _)

theorem quiet_elfSection (index : U16) (attr : ElfSectionAttribute) (value : U64) :
    Quiet (elfSection (some elf) index attr value) := by
  refine quiet_elfSections.bind fun t => ?_
  cases t with
  | none => exact quiet_ret _
  | some t =>
      refine (quiet_elfSectionLoop t attr value _ _).bind fun r => ?_
      cases r <;> exact quiet_ret _

theorem quiet_elfSectionStrings : Quiet (elfSectionStrings (some elf)) := by
  refine (quiet_deref (some elf)).bind fun _ => (quiet_fetch16 62).bind fun i => ?_
  refine (quiet_elfSection i .none 0).bind fun r => (quiet_deref r.1).bind fun s => ?_
  exact (quiet_fetch64 _).bind fun size => (quiet_fetch64 _).bind fun off => quiet_ret _

theorem quiet_stringMatches (mem : U64) (str : List Byte) (i : Nat) :
    Quiet (stringMatches mem str i) := by
  refine (quiet_findFrom (fun j => ?_) _ _).bind fun found => quiet_ret _
  refine (quiet_fetch8 _).bind fun b => Quiet.ite (quiet_ret _) ?_
  exact Quiet.ite (quiet_ret _) (quiet_ret _)

theorem quiet_elfStringToOffset (mem size : U64) (str : Option (List Byte)) :
    Quiet (elfStringToOffset mem size str) := by
  cases str with
  | none => exact quiet_ret 0
  | some str =>
      refine (quiet_findFrom (fun i => ?_) _ _).bind fun found => quiet_ret _
      exact (quiet_stringMatches mem str i).bind fun b => Quiet.ite (quiet_ret _) (quiet_ret _)

theorem quiet_elfSectionByName (name : Option (List Byte)) :
    Quiet (elfSectionByName (some elf) name) := by
  refine quiet_elfSectionStrings.bind fun r => ?_
  refine (quiet_elfStringToOffset r.1 r.2 name).bind fun off => ?_
  exact (quiet_elfSection 0 .name _).bind fun r => quiet_ret _

theorem quiet_elfNamedTable (accepts : U32 → Bool) (name : Option (List Byte)) :
    Quiet (elfNamedTable accepts (some elf) name) := by
  refine (quiet_elfSectionByName name).bind fun h => ?_
  cases h with
  | none => exact quiet_ret none
  | some h =>
      refine (quiet_fetch32 _).bind fun type => Quiet.ite (quiet_ret none) ?_
      refine (quiet_fetch64 _).bind fun size => (quiet_fetch64 _).bind fun bytes => ?_
      exact Quiet.ite (quiet_raise _) ((quiet_fetch64 _).bind fun off => quiet_ret _)

theorem quiet_flagOfAddress {addr size : U64 → ElfProg U64} {flag : U64 → ElfProg U32}
    (ha : ∀ s, Quiet (addr s)) (hn : ∀ s, Quiet (size s)) (hg : ∀ s, Quiet (flag s)) (t : Table)
    (address : U64) : Quiet (flagOfAddress addr size flag t address) := by
  refine quiet_findFrom (fun k => (ha _).bind fun a => Quiet.ite (quiet_ret none) ?_) _ _
  refine (hn _).bind fun n => Quiet.ite (quiet_ret none) ?_
  exact (hg _).bind fun g => quiet_ret _

theorem quiet_elfLoaderRelativeAddressIsExecutable (address : U64) :
    Quiet (elfLoaderRelativeAddressIsExecutable (some elf) address) := by
  refine quiet_elfSegments.bind fun t => ?_
  cases t with
  | some t =>
      refine (quiet_flagOfAddress (fun s => quiet_fetch64 _) (fun s => quiet_fetch64 _)
        (fun s => ?_) t address).bind fun found => quiet_ret _
      exact (quiet_fetch32 _).bind fun g => quiet_ret _
  | none =>
      refine quiet_elfSections.bind fun t => ?_
      cases t with
      | none => exact quiet_ret _
      | some t =>
          refine (quiet_flagOfAddress (fun s => quiet_fetch64 _) (fun s => quiet_fetch64 _)
            (fun s => ?_) t address).bind fun found => quiet_ret _
          exact (quiet_fetch64 _).bind fun g => quiet_ret _

/-! ### One entry -/

/-- The type, as the loader narrows it. -/
def Rela.type (r : Rela) : U16 := (elfRelocationType r.info).setWidth 16

/-- The symbol index, as the loader narrows it. -/
def Rela.sym (r : Rela) : U16 := (elfRelocationSymbol r.info).setWidth 16

/-- The `st_value` an entry refers to. -/
def Rela.symbolValue (f : File) (symbols : Option Table) (r : Rela) : Except Fault U64 :=
  match symbols with
  | none => .error .nullDereference
  | some t => .ok (le64 f (t.entry r.sym.toNat + 8))

/-- What an entry is relocated to, before a base is added; nothing for an unknown type. -/
def Rela.value (f : File) (symbols : Option Table) (r : Rela) : Except Fault (Option U64) :=
  if r.type = rX8664Relative then .ok (some r.addend)
  else if r.type = rX866464 then do return some ((← r.symbolValue f symbols) + r.addend)
  else if r.type = rX8664JmpSlot ∨ r.type = rX8664GlobDat then do
    return some (← r.symbolValue f symbols)
  else .ok none

/-- The pointer stored for a value: from the executable base when the value's range is
executable, from the writable one otherwise. -/
def File.rebased (f : File) (w e v : U64) : U64 := (if f.isExecutable v ≠ 0 then e else w) + v

/-- What an entry stores, if it has a value. -/
def entryStores (f : File) (w e : U64) (symbols : Option Table) (r : Rela) : List (U64 × Byte) :=
  match r.value f symbols with
  | .ok (some v) => span (w + r.offset) 8 (byteOf (f.rebased w e v).toNat)
  | _ => []

/-- How the walk goes on after an entry. -/
def entryResult (v : Except Fault (Option U64)) : Except Fault (Option ElfLoaderReturn) :=
  match v with
  | .ok (some _) => .ok none
  | .ok none => .ok (some .unknownRelocation)
  | .error err => .error err

/-- The entry has a value, so the walk applies it and goes on. -/
def Rela.applies (f : File) (symbols : Option Table) (r : Rela) : Bool :=
  match r.value f symbols with
  | .ok (some _) => true
  | _ => false

section Entry

variable (symbols : Option Table) (r : U64)

theorem result_symbolValue :
    result f (symbolValue (symbols.map Table.base) ((symbols.map Table.size).getD 0)
      (f.relaAt r).sym) = (f.relaAt r).symbolValue f symbols := by
  cases symbols with
  | none => rfl
  | some t =>
      simp only [symbolValue, deref, Option.map_some, Option.getD_some, pure_eq, result_bind,
        result_ret, ok_bind, ElfSymbol.stValue, result_fetch64]
      rfl

theorem quiet_symbolValue (base : Option U64) (size sym : U16) :
    Quiet (symbolValue base size sym) :=
  (quiet_deref base).bind fun _ => quiet_fetch64 _

theorem result_relocationValue :
    result f (relocationValue (symbols.map Table.base) ((symbols.map Table.size).getD 0) r
      (f.relaAt r).type (f.relaAt r).sym) = (f.relaAt r).value f symbols := by
  have hadd : (f.relaAt r).addend = le64 f (r + 16) := rfl
  simp only [relocationValue, Rela.value, result_ite, result_bind, result_symbolValue,
    ElfAddendRelocation.rAddend, result_fetch64, ok_bind, pure_eq, result_ret, hadd]
  rfl

theorem quiet_relocationValue (base : Option U64) (size : U16) (type sym : U16) :
    Quiet (relocationValue base size r type sym) := by
  refine Quiet.ite ((quiet_fetch64 _).bind fun _ => quiet_ret _) (Quiet.ite ?_ (Quiet.ite ?_ ?_))
  · exact (quiet_symbolValue _ _ _).bind fun _ => (quiet_fetch64 _).bind fun _ => quiet_ret _
  · exact (quiet_symbolValue _ _ _).bind fun _ => quiet_ret _
  · exact quiet_ret none

theorem result_relocateEntry :
    result f (relocateEntry (some elf) w e (symbols.map Table.base)
      ((symbols.map Table.size).getD 0) r) = entryResult ((f.relaAt r).value f symbols) := by
  have hvalue := result_relocationValue (f := f) symbols r
  simp only [Rela.type, Rela.sym, File.relaAt] at hvalue
  simp only [relocateEntry, ElfAddendRelocation.rInfo, ElfAddendRelocation.rOffset, result_bind,
    result_fetch64, ok_bind, hvalue, File.relaAt]
  cases hv : Rela.value f symbols ⟨le64 f r, le64 f (r + 8), le64 f (r + 16)⟩ with
  | error err => rfl
  | ok o =>
      cases o with
      | none => rfl
      | some v =>
          simp only [ok_bind, result_bind, result_elfLoaderRelativeAddressIsExecutable, result_ite,
            result_store64, pure_eq, result_ret, ite_self]
          rfl

theorem stores_relocateEntry :
    stores f (relocateEntry (some elf) w e (symbols.map Table.base)
      ((symbols.map Table.size).getD 0) r) = entryStores f w e symbols (f.relaAt r) := by
  have hvalue := result_relocationValue (f := f) symbols r
  simp only [Rela.type, Rela.sym, File.relaAt] at hvalue
  simp only [relocateEntry, ElfAddendRelocation.rInfo, ElfAddendRelocation.rOffset, stores_bind,
    result_fetch64, stores_fetch64, onOk_ok, hvalue, (quiet_relocationValue r _ _ _ _).stores_eq,
    List.nil_append, entryStores, File.relaAt]
  cases hv : Rela.value f symbols ⟨le64 f r, le64 f (r + 8), le64 f (r + 16)⟩ with
  | error err => rfl
  | ok o =>
      cases o with
      | none => rfl
      | some v =>
          simp only [onOk_ok, stores_bind, result_elfLoaderRelativeAddressIsExecutable,
            (quiet_elfLoaderRelativeAddressIsExecutable v).stores_eq, stores_ite, List.nil_append,
            stores_store64, result_store64, pure_eq, stores_ret, List.append_nil, File.rebased]
          split <;> rfl

end Entry

/-! ### A list of entries -/

/-- How the walk over a list of entries ends. -/
def walkResult (f : File) (symbols : Option Table) :
    List Rela → Except Fault (Option ElfLoaderReturn)
  | [] => .ok none
  | r :: rest => do
      match ← entryResult (r.value f symbols) with
      | some status => return some status
      | none => walkResult f symbols rest

/-- What it stores. -/
def walkStores (f : File) (w e : U64) (symbols : Option Table) (l : List Rela) :
    List (U64 × Byte) :=
  (l.takeWhile (Rela.applies f symbols)).flatMap (entryStores f w e symbols)

theorem value_of_applies {symbols : Option Table} {r : Rela} (h : r.applies f symbols = true) :
    ∃ v, r.value f symbols = .ok (some v) := by
  unfold Rela.applies at h
  split at h
  · rename_i v hv
    exact ⟨v, hv⟩
  · cases h

theorem entryResult_of_applies {symbols : Option Table} {r : Rela}
    (h : r.applies f symbols = true) : entryResult (r.value f symbols) = .ok none := by
  obtain ⟨v, hv⟩ := value_of_applies h
  rw [hv]
  rfl

theorem entryResult_of_not_applies {symbols : Option Table} {r : Rela}
    (h : r.applies f symbols = false) :
    (∃ err, r.value f symbols = .error err) ∨ r.value f symbols = .ok none := by
  unfold Rela.applies at h
  cases hv : r.value f symbols with
  | error err => exact Or.inl ⟨err, rfl⟩
  | ok o =>
      cases o with
      | none => exact Or.inr rfl
      | some v => rw [hv] at h; cases h

theorem entryStores_of_not_applies {symbols : Option Table} {r : Rela}
    (h : r.applies f symbols = false) : entryStores f w e symbols r = [] := by
  unfold entryStores
  rcases entryResult_of_not_applies h with ⟨err, hv⟩ | hv <;> rw [hv]

/-- An all-applied list is walked to its end, and then the walk goes on. -/
theorem walkResult_append (symbols : Option Table) (l₁ l₂ : List Rela) :
    walkResult f symbols (l₁ ++ l₂) = (do
      match ← walkResult f symbols l₁ with
      | some status => return some status
      | none => walkResult f symbols l₂) := by
  induction l₁ with
  | nil => rfl
  | cons r rest ih =>
      rw [List.cons_append, walkResult, walkResult]
      cases hr : entryResult (r.value f symbols) with
      | error err => rfl
      | ok o =>
          cases o with
          | some status => rfl
          | none => exact ih

theorem walkResult_eq_ok_none {symbols : Option Table} {l : List Rela} :
    walkResult f symbols l = .ok none ↔ ∀ r ∈ l, r.applies f symbols = true := by
  induction l with
  | nil => simp [walkResult]
  | cons r rest ih =>
      rw [walkResult, List.forall_mem_cons, ← ih]
      cases happ : r.applies f symbols with
      | true =>
          rw [entryResult_of_applies happ]
          simp
      | false =>
          rcases entryResult_of_not_applies happ with ⟨err, hv⟩ | hv <;>
            simp [hv, entryResult, pure, Except.pure]

/-- The only status a walk can end with. -/
theorem walkResult_eq_some {symbols : Option Table} {l : List Rela} {status : ElfLoaderReturn}
    (h : walkResult f symbols l = .ok (some status)) : status = .unknownRelocation := by
  induction l with
  | nil => cases h
  | cons r rest ih =>
      obtain ⟨o, hr, hrest⟩ := bind_eq_ok.mp h
      cases o with
      | none => exact ih hrest
      | some s =>
          have hs : s = status := Option.some.inj (Except.ok.inj hrest)
          unfold entryResult at hr
          split at hr
          · cases hr
          · rw [← hs]
            exact (Option.some.inj (Except.ok.inj hr)).symm
          · cases hr

section Walk

variable (symbols : Option Table)

theorem result_walk (l : List U64) :
    result f (findList (relocateEntry (some elf) w e (symbols.map Table.base)
      ((symbols.map Table.size).getD 0)) l) = walkResult f symbols (l.map f.relaAt) := by
  induction l with
  | nil => rfl
  | cons r rest ih =>
      rw [findList, result_bind, result_relocateEntry, List.map_cons, walkResult]
      cases entryResult ((f.relaAt r).value f symbols) with
      | error err => rfl
      | ok o =>
          cases o with
          | some status => rfl
          | none => exact ih

theorem stores_walk (l : List U64) :
    stores f (findList (relocateEntry (some elf) w e (symbols.map Table.base)
      ((symbols.map Table.size).getD 0)) l) = walkStores f w e symbols (l.map f.relaAt) := by
  unfold walkStores
  induction l with
  | nil => rfl
  | cons r rest ih =>
      rw [findList, stores_bind, result_relocateEntry, stores_relocateEntry, List.map_cons,
        List.takeWhile_cons]
      cases happ : (f.relaAt r).applies f symbols with
      | true =>
          rw [entryResult_of_applies happ]
          exact congrArg _ ih
      | false =>
          rw [entryStores_of_not_applies happ]
          rcases entryResult_of_not_applies happ with ⟨err, hv⟩ | hv <;> rw [hv] <;> rfl

end Walk

/-! ### Both tables -/

/-- The entries of a table, none when there is no table. -/
def File.entries (f : File) : Option Table → List Rela
  | none => []
  | some t => File.records f.relaAt t

theorem result_relocateTable (symbols : Option Table) (name : List Byte) :
    result f (relocateTable (some elf) w e (symbols.map Table.base)
      ((symbols.map Table.size).getD 0) name)
      = (result f (elfAddendRelocations (some elf) name)) >>= fun t =>
          walkResult f symbols (f.entries t) := by
  rw [relocateTable, result_bind]
  cases result f (elfAddendRelocations (some elf) name) with
  | error err => rfl
  | ok o =>
      cases o with
      | none => rfl
      | some t =>
          simp only [ok_bind]
          rw [findFrom_eq_findList t.entry, result_walk, File.entries, File.records,
            ← List.range_eq_range', List.map_map]
          rfl

theorem stores_relocateTable (symbols : Option Table) (name : List Byte) :
    stores f (relocateTable (some elf) w e (symbols.map Table.base)
      ((symbols.map Table.size).getD 0) name)
      = onOk (result f (elfAddendRelocations (some elf) name)) fun t =>
          walkStores f w e symbols (f.entries t) := by
  rw [relocateTable, stores_bind, elfAddendRelocations, (quiet_elfNamedTable _ _).stores_eq,
    List.nil_append]
  cases result f (elfNamedTable _ (some elf) (some name)) with
  | error err => rfl
  | ok o =>
      cases o with
      | none => rfl
      | some t =>
          simp only [onOk_ok]
          rw [findFrom_eq_findList t.entry, stores_walk, File.entries, File.records,
            ← List.range_eq_range', List.map_map]
          rfl

/-- The entries of `.rela.dyn` and then of `.rela.plt`, as far as the lookups return. -/
def relocations (f : File) (elf : Elf) : List Rela :=
  onOk (result f (elfAddendRelocations (some elf) relaDynName)) fun dyn =>
    f.entries dyn ++ onOk (result f (elfAddendRelocations (some elf) relaPltName)) f.entries

/-- Everything `elfLoaderRelocate` stores. -/
def relocateStores (f : File) (elf : Elf) (w e : U64) : List (U64 × Byte) :=
  onOk (result f (elfSymbols (some elf) dynsymName)) fun symbols =>
    walkStores f w e symbols (relocations f elf)

theorem walkStores_append_of_all {symbols : Option Table} {l₁ l₂ : List Rela}
    (h : ∀ r ∈ l₁, r.applies f symbols = true) :
    walkStores f w e symbols (l₁ ++ l₂)
      = walkStores f w e symbols l₁ ++ walkStores f w e symbols l₂ := by
  unfold walkStores
  rw [List.takeWhile_append_of_pos h, List.takeWhile_eq_self_iff.mpr h, List.flatMap_append]

theorem walkStores_append_of_not_all {symbols : Option Table} {l₁ l₂ : List Rela}
    (h : ¬ ∀ r ∈ l₁, r.applies f symbols = true) :
    walkStores f w e symbols (l₁ ++ l₂) = walkStores f w e symbols l₁ := by
  unfold walkStores
  have hlen : ¬ (l₁.takeWhile (Rela.applies f symbols)).length = l₁.length := by
    intro hc
    have hself : l₁.takeWhile (Rela.applies f symbols) = l₁ :=
      (List.takeWhile_prefix _).eq_of_length hc
    exact h (List.takeWhile_eq_self_iff.mp hself)
  rw [List.takeWhile_append, if_neg hlen]

theorem stores_elfLoaderRelocate (hw : w ≠ 0) (he : e ≠ 0) :
    stores f (elfLoaderRelocate (some elf) w e) = relocateStores f elf w e := by
  simp only [elfLoaderRelocate, hw, he, if_false, stores_bind]
  rw [elfSymbols, (quiet_elfNamedTable _ _).stores_eq, List.nil_append, relocateStores, elfSymbols]
  refine congrArg (onOk _) (funext fun symbols => ?_)
  simp only [stores_relocateTable, result_relocateTable, relocations]
  cases result f (elfAddendRelocations (some elf) relaDynName) with
  | error err => rfl
  | ok dyn =>
      simp only [onOk_ok, ok_bind]
      by_cases hall : ∀ r ∈ f.entries dyn, r.applies f symbols = true
      · rw [walkResult_eq_ok_none.mpr hall, walkStores_append_of_all hall]
        simp only [onOk_ok, stores_bind, stores_relocateTable, result_relocateTable]
        refine congrArg _ ?_
        cases result f (elfAddendRelocations (some elf) relaPltName) with
        | error err => rfl
        | ok plt =>
            simp only [onOk_ok, ok_bind]
            cases walkResult f symbols (f.entries plt) with
            | error err => simp
            | ok o => cases o <;> simp
      · rw [walkStores_append_of_not_all hall]
        cases hres : walkResult f symbols (f.entries dyn) with
        | error err => simp
        | ok o =>
            cases o with
            | none => exact absurd (walkResult_eq_ok_none.mp hres) hall
            | some status => simp

/-- The status, once the lookups have returned. -/
theorem result_elfLoaderRelocate (hw : w ≠ 0) (he : e ≠ 0) {symbols dyn plt : Option Table}
    (hsym : result f (elfSymbols (some elf) dynsymName) = .ok symbols)
    (hdyn : result f (elfAddendRelocations (some elf) relaDynName) = .ok dyn)
    (hplt : result f (elfAddendRelocations (some elf) relaPltName) = .ok plt) :
    result f (elfLoaderRelocate (some elf) w e)
      = (walkResult f symbols (f.entries dyn ++ f.entries plt)) >>= fun status =>
          .ok (status.getD .ok) := by
  simp only [elfLoaderRelocate, hw, he, if_false, result_bind, hsym, ok_bind, result_relocateTable,
    hdyn, walkResult_append]
  cases walkResult f symbols (f.entries dyn) with
  | error err => rfl
  | ok o =>
      cases o with
      | some status => rfl
      | none =>
          simp only [ok_bind, result_bind, result_relocateTable, hplt]
          cases walkResult f symbols (f.entries plt) with
          | error err => rfl
          | ok o => cases o <;> rfl

end LibPS4
