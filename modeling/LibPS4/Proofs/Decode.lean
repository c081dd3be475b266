/-
What is left of a relocation entry's `r_info`.

`r_info` has a type and a symbol index of 32 bits each, and the loop keeps sixteen of both.
A type that loses bits is unknown, but what is left of it may be one of the known types; a
symbol index that loses bits leads to another symbol.  The specification here is the same
pass with nothing lost: it stops at the first entry whose whole type is not one of the
four, and takes the value of the symbol with the whole number.  The code is that pass as
long as the entries it gets to keep what matters of them.

The walk is compared entry by entry, by its status and its stores together: the stores show
an entry that is applied and should not be, unless it faults, and the status shows that.
-/
import LibPS4.Base.Cells
import LibPS4.Proofs.EndToEnd
import LibPS4.Proofs.Faults

namespace LibPS4

open Effects Prog

variable {f : File} {elf : Elf} {w e : U64}

/-! ### The specification -/

/-- The `st_value` of symbol number `i`, at the section's own stride. -/
def Section.numberedSymbol (f : File) (syms : Section) (i : Nat) : U64 :=
  le64 f (syms.offset + BitVec.ofNat 64 (i * syms.entsize.toNat) + 8)

/-- The whole type is one whose value is that of a symbol. -/
def Rela.fullUses (r : Rela) : Bool :=
  r.fullType = rX866464.toNat ∨ r.fullType = rX8664JmpSlot.toNat ∨
    r.fullType = rX8664GlobDat.toNat

/-- What the slot of a supported entry points to. -/
def Rela.decoded (f : File) (syms : Option Section) (r : Rela) : U64 :=
  let value := (syms.map fun s => s.numberedSymbol f r.fullSym).getD 0
  if r.fullType = rX8664Relative.toNat then r.addend
  else if r.fullType = rX866464.toNat then value + r.addend
  else value

/-- How a list of entries ends, by their whole types. -/
def fullStatus (l : List Rela) : Option ElfLoaderReturn :=
  if ∀ r ∈ l, r.supported = true then none else some .unknownRelocation

/-- What it stores. -/
def fullStores (f : File) (syms : Option Section) (w e : U64) (l : List Rela) :
    List (U64 × Byte) :=
  (l.takeWhile Rela.supported).flatMap fun r =>
    span (w + r.offset) 8 (byteOf (f.rebased w e (r.decoded f syms)).toNat)

/-- The status of the pass. -/
def fullResult (f : File) (elf : Elf) : Except Fault ElfLoaderReturn := do
  let _ ← result f (elfSymbols (some elf) dynsymName)
  let dyn ← result f (elfAddendRelocations (some elf) relaDynName)
  match fullStatus (f.entries dyn) with
  | some status => .ok status
  | none => do
      let plt ← result f (elfAddendRelocations (some elf) relaPltName)
      .ok ((fullStatus (f.entries plt)).getD .ok)

/-- The entries of both tables, if the pass gets to them. -/
def File.passEntries (f : File) (elf : Elf) : List Rela :=
  onOk (result f (elfSymbols (some elf) dynsymName)) fun _ => relocations f elf

/-- The pass treats every entry by its whole type and its whole symbol index. -/
def DecodedInFull (f : File) (elf : Elf) : Prop :=
  ∀ w e, w ≠ 0 → e ≠ 0 →
    result f (elfLoaderRelocate (some elf) w e) = fullResult f elf ∧
    stores f (elfLoaderRelocate (some elf) w e)
      = fullStores f (f.dynsymSection elf) w e (f.passEntries elf)

/-! ### What has to be left -/

/-- The entries up to and including the first unsupported one. -/
def reached : List Rela → List Rela
  | [] => []
  | r :: rest => if r.supported = true then r :: reached rest else [r]

/-- What is left of an entry is enough: a type that lost bits is not taken for a known one,
and the symbol index and the stride of the symbols fit their sixteen bits and the offset an
`int`, or the symbol that is read instead has the same value. -/
structure Rela.Kept (f : File) (syms : Option Section) (r : Rela) : Prop where
  type : r.fullType < 2 ^ 16 ∨ r.known = false
  symbol : r.fullUses = true → ∀ s, syms = some s →
    (r.fullSym < 2 ^ 16 ∧ s.entsize.toNat < 2 ^ 16 ∧ r.fullSym * s.entsize.toNat < 2 ^ 31) ∨
      le64 f (s.table.entry (r.fullSym % 2 ^ 16) + 8) = s.numberedSymbol f r.fullSym

/-! ### One entry -/

section Entry

variable {r : Rela} {syms : Option Section}

theorem type_eq_iff (h : r.fullType < 2 ^ 16) (c : U16) : r.type = c ↔ r.fullType = c.toNat := by
  rw [← BitVec.toNat_inj, toNat_type h]

theorem supported_of_known (h : r.fullType < 2 ^ 16) : r.supported = r.known := by
  unfold Rela.supported Rela.known Rela.usesSymbol
  simp only [type_eq_iff h, decide_eq_true_eq]

theorem fullUses_eq (h : r.fullType < 2 ^ 16) : r.fullUses = r.usesSymbol := by
  unfold Rela.fullUses Rela.usesSymbol
  simp only [type_eq_iff h]

/-- The known types have sixteen bits. -/
theorem fullType_lt_of_supported (h : r.supported = true) : r.fullType < 2 ^ 16 := by
  unfold Rela.supported at h
  simp only [decide_eq_true_eq] at h
  obtain h | h | h | h := h
  all_goals
    rw [h]
    decide

theorem supported_of_fullUses (h : r.fullUses = true) : r.supported = true := by
  unfold Rela.fullUses at h
  unfold Rela.supported
  simp only [decide_eq_true_eq] at h ⊢
  exact Or.inr h

/-- The symbol that is read is the one with the number, where everything fits. -/
theorem entry_of_fits {s : Section} (hsym : r.fullSym < 2 ^ 16) (hent : s.entsize.toNat < 2 ^ 16)
    (hoffset : r.fullSym * s.entsize.toNat < 2 ^ 31) :
    le64 f (s.table.entry (r.fullSym % 2 ^ 16) + 8) = s.numberedSymbol f r.fullSym := by
  have hsize : s.table.size.toNat = s.entsize.toNat :=
    (toNat_table_size s).trans (Nat.mod_eq_of_lt hent)
  have hentry : entryOffset r.fullSym s.table.size
      = BitVec.ofNat 64 (r.fullSym * s.entsize.toNat) := by
    rw [(entryOffset_eq_iff (by rw [hsize]; omega)).mpr (by rw [hsize]; exact hoffset), hsize]
  unfold Section.numberedSymbol Table.entry
  rw [Nat.mod_eq_of_lt hsym, hentry]
  rfl

theorem kept_symbol_iff {s : Section} (huses : r.fullUses = true) (h : r.fullType < 2 ^ 16) :
    r.Kept f (some s) ↔
      le64 f (s.table.entry (r.fullSym % 2 ^ 16) + 8) = s.numberedSymbol f r.fullSym := by
  constructor
  · intro hkept
    obtain ⟨hsym, hent, hoffset⟩ | heq := hkept.symbol huses s rfl
    · exact entry_of_fits hsym hent hoffset
    · exact heq
  · intro heq
    refine ⟨Or.inl h, fun _ s' hs' => Or.inr ?_⟩
    rw [← Option.some.inj hs']
    exact heq

/-- What the loop is to make of an entry. -/
def Rela.fullValue (f : File) (syms : Option Section) (r : Rela) : Except Fault (Option U64) :=
  .ok (if r.supported = true then some (r.decoded f syms) else none)

/-- The value of an entry that uses a symbol, with the symbols at hand. -/
theorem value_of_uses {s : Section} (huses : r.fullUses = true) (h : r.fullType < 2 ^ 16) :
    r.value f (some s.table) = r.fullValue f (some s) ↔
      le64 f (s.table.entry (r.fullSym % 2 ^ 16) + 8) = s.numberedSymbol f r.fullSym := by
  have hvalue : r.symbolValue f (some s.table)
      = .ok (le64 f (s.table.entry (r.fullSym % 2 ^ 16) + 8)) := by
    rw [← toNat_sym_mod]
    rfl
  have hdecoded : (some s).map (fun s => s.numberedSymbol f r.fullSym)
      = some (s.numberedSymbol f r.fullSym) := rfl
  unfold Rela.fullValue Rela.value Rela.decoded
  rw [if_pos (supported_of_fullUses huses), hvalue, hdecoded, Option.getD_some]
  simp only [type_eq_iff h]
  unfold Rela.fullUses at huses
  simp only [decide_eq_true_eq] at huses
  have hrelative : ¬ r.fullType = rX8664Relative.toNat := by
    intro hr
    rw [hr] at huses
    revert huses
    decide
  rw [if_neg hrelative, if_neg hrelative]
  by_cases h64 : r.fullType = rX866464.toNat
  · rw [if_pos h64, if_pos h64]
    show Except.ok (some (_ + _)) = Except.ok (some (_ + _)) ↔ _
    rw [Except.ok.injEq, Option.some_inj, BitVec.add_left_inj]
  · rw [if_neg h64, if_neg h64, if_pos (huses.resolve_left h64)]
    show Except.ok (some _) = Except.ok (some _) ↔ _
    rw [Except.ok.injEq, Option.some_inj]

/-- **One entry.**  The code makes of it what it is to make, if what is left of it is
enough. -/
theorem value_eq_fullValue_iff (hvalid : r.fullUses = true → syms ≠ none) :
    r.value f (syms.map Section.table) = r.fullValue f syms ↔ r.Kept f syms := by
  by_cases hnarrow : r.fullType < 2 ^ 16
  · by_cases huses : r.fullUses = true
    · obtain ⟨s, hs⟩ := Option.ne_none_iff_exists'.mp (hvalid huses)
      rw [hs, kept_symbol_iff huses hnarrow]
      exact value_of_uses huses hnarrow
    · have hkept : r.Kept f syms := ⟨Or.inl hnarrow, fun hu => absurd hu huses⟩
      refine iff_of_true ?_ hkept
      unfold Rela.fullValue
      rw [supported_of_known hnarrow]
      cases hknown : r.known with
      | false => exact value_of_unknown hknown
      | true =>
          rw [fullUses_eq hnarrow] at huses
          have hrelative : r.type = rX8664Relative := by
            simpa [Rela.known, huses] using hknown
          unfold Rela.value Rela.decoded
          rw [if_pos hrelative, if_pos ((type_eq_iff hnarrow _).mp hrelative), if_pos rfl]
  · have hunsupported : r.supported = false :=
      Bool.eq_false_iff.mpr fun hsupp => hnarrow (fullType_lt_of_supported hsupp)
    have hnone : r.fullValue f syms = .ok none := by
      unfold Rela.fullValue
      rw [hunsupported]
      rfl
    rw [hnone]
    constructor
    · intro hvalue
      refine ⟨Or.inr (Bool.eq_false_iff.mpr fun hknown => ?_), fun huses => ?_⟩
      · exact value_ne_none_of_known hknown hvalue
      · exact absurd (fullType_lt_of_supported (supported_of_fullUses huses)) hnarrow
    · intro hkept
      exact value_of_unknown (hkept.type.resolve_left hnarrow)

end Entry

/-! ### A list of entries -/

section Walk

variable {r : Rela} {rest : List Rela} {syms : Option Section}

/-- What a walk makes of its end. -/
def afterWalk (next : Except Fault ElfLoaderReturn) :
    Option ElfLoaderReturn → Except Fault ElfLoaderReturn
  | some status => .ok status
  | none => next

/-- The stored word tells the value, from bases that are the same. -/
theorem rebased_inj {u v : U64} (h : f.rebased 1 1 u = f.rebased 1 1 v) : u = v := by
  unfold File.rebased at h
  rw [ite_self, ite_self] at h
  exact (BitVec.add_right_inj 1).mp h

theorem span_word_inj {a u v : U64}
    (h : span a 8 (byteOf u.toNat) = span a 8 (byteOf v.toNat)) : u = v := by
  have hu := le64_replay_self (a := a) (fun _ => 0) u
  rw [h, le64_replay_self] at hu
  exact hu.symm

theorem fullStatus_cons_of_supported (h : r.supported = true) :
    fullStatus (r :: rest) = fullStatus rest := by
  unfold fullStatus
  simp only [List.forall_mem_cons, h, true_and]

theorem fullStatus_cons_of_not_supported (h : r.supported = false) :
    fullStatus (r :: rest) = some .unknownRelocation := by
  unfold fullStatus
  rw [if_neg fun hall => ?_]
  have hr := hall r List.mem_cons_self
  rw [h] at hr
  cases hr

theorem fullStores_cons_of_supported (h : r.supported = true) :
    fullStores f syms w e (r :: rest)
      = span (w + r.offset) 8 (byteOf (f.rebased w e (r.decoded f syms)).toNat)
        ++ fullStores f syms w e rest := by
  unfold fullStores
  rw [List.takeWhile_cons_of_pos h, List.flatMap_cons]

theorem fullStores_cons_of_not_supported (h : r.supported = false) :
    fullStores f syms w e (r :: rest) = [] := by
  unfold fullStores
  rw [List.takeWhile_cons_of_neg (by rw [h]; exact Bool.false_ne_true)]
  rfl

theorem walkStores_cons_of_value {symbols : Option Table} {v : U64}
    (h : r.value f symbols = .ok (some v)) :
    walkStores f w e symbols (r :: rest)
      = span (w + r.offset) 8 (byteOf (f.rebased w e v).toNat)
        ++ walkStores f w e symbols rest := by
  have happlies : r.applies f symbols = true := by
    unfold Rela.applies
    rw [h]
  unfold walkStores
  rw [List.takeWhile_cons_of_pos happlies, List.flatMap_cons]
  unfold entryStores
  rw [h]

theorem walkStores_cons_of_no_value {symbols : Option Table}
    (h : r.applies f symbols = false) : walkStores f w e symbols (r :: rest) = [] := by
  unfold walkStores
  rw [List.takeWhile_cons_of_neg (by rw [h]; exact Bool.false_ne_true)]
  rfl

/-- A stored word is something. -/
theorem span_append_ne_nil (a : U64) (g : Nat → Byte) (l : List (U64 × Byte)) :
    span a 8 g ++ l ≠ [] := by
  intro h
  have hlength := congrArg List.length h
  rw [List.length_append, length_span, List.length_nil] at hlength
  omega

/-- The code's walk over a list is the specified one. -/
def WalkDecoded (f : File) (syms : Option Section) (next : Except Fault ElfLoaderReturn)
    (l : List Rela) : Prop :=
  (walkResult f (syms.map Section.table) l >>= afterWalk next) = afterWalk next (fullStatus l) ∧
    ∀ w e, w ≠ 0 → e ≠ 0 →
      walkStores f w e (syms.map Section.table) l = fullStores f syms w e l

variable {next : Except Fault ElfLoaderReturn}

theorem fullValue_of_supported (h : r.supported = true) :
    r.fullValue f syms = .ok (some (r.decoded f syms)) := by
  unfold Rela.fullValue
  rw [if_pos h]

theorem fullValue_of_not_supported (h : r.supported = false) :
    r.fullValue f syms = .ok none := by
  unfold Rela.fullValue
  rw [h]
  rfl

/-- A walk that does not apply a supported entry lacks its stores. -/
theorem not_walkDecoded_of_no_value (hsupp : r.supported = true)
    (h : r.applies f (syms.map Section.table) = false) :
    ¬ WalkDecoded f syms next (r :: rest) := by
  intro hdecoded
  have hstores := hdecoded.2 1 1 (by decide) (by decide)
  rw [walkStores_cons_of_no_value h, fullStores_cons_of_supported hsupp] at hstores
  exact span_append_ne_nil _ _ _ hstores.symm

theorem walkDecoded_cons_of_supported (hsupp : r.supported = true) :
    WalkDecoded f syms next (r :: rest) ↔
      r.value f (syms.map Section.table) = r.fullValue f syms ∧ WalkDecoded f syms next rest := by
  rw [fullValue_of_supported hsupp]
  by_cases happlies : r.applies f (syms.map Section.table) = true
  · obtain ⟨v, hv⟩ := value_of_applies happlies
    have hresult : walkResult f (syms.map Section.table) (r :: rest)
        = walkResult f (syms.map Section.table) rest := by
      rw [walkResult, hv]
      rfl
    unfold WalkDecoded
    rw [hresult, fullStatus_cons_of_supported hsupp, hv, Except.ok.injEq, Option.some_inj]
    simp only [walkStores_cons_of_value hv, fullStores_cons_of_supported hsupp]
    constructor
    · intro h
      have hsplit := fun (w e : U64) (hw : w ≠ 0) (he : e ≠ 0) =>
        List.append_inj (h.2 w e hw he) (by rw [length_span, length_span])
      refine ⟨?_, h.1, fun w e hw he => (hsplit w e hw he).2⟩
      exact rebased_inj (span_word_inj (hsplit 1 1 (by decide) (by decide)).1)
    · intro h
      obtain ⟨hvalue, hstatus, hstores⟩ := h
      refine ⟨hstatus, fun w e hw he => ?_⟩
      rw [hvalue, hstores w e hw he]
  · have hno : r.applies f (syms.map Section.table) = false := Bool.eq_false_iff.mpr happlies
    refine iff_of_false (not_walkDecoded_of_no_value hsupp hno) fun h => happlies ?_
    unfold Rela.applies
    rw [h.1]

theorem walkDecoded_cons_of_not_supported (hsupp : r.supported = false) :
    WalkDecoded f syms next (r :: rest) ↔
      r.value f (syms.map Section.table) = r.fullValue f syms := by
  rw [fullValue_of_not_supported hsupp]
  unfold WalkDecoded
  rw [fullStatus_cons_of_not_supported hsupp]
  cases hv : r.value f (syms.map Section.table) with
  | error err =>
      have hresult : walkResult f (syms.map Section.table) (r :: rest) = .error err := by
        rw [walkResult, hv]
        rfl
      rw [hresult]
      refine iff_of_false (fun h => ?_) fun h => ?_
      · cases h.1
      · cases h
  | ok o =>
      cases o with
      | none =>
          have hresult : walkResult f (syms.map Section.table) (r :: rest)
              = .ok (some .unknownRelocation) := by
            rw [walkResult, hv]
            rfl
          have hno : r.applies f (syms.map Section.table) = false := by
            unfold Rela.applies
            rw [hv]
          refine iff_of_true ⟨?_, fun w e _ _ => ?_⟩ rfl
          · rw [hresult]
            rfl
          · rw [walkStores_cons_of_no_value hno, fullStores_cons_of_not_supported hsupp]
      | some v =>
          refine iff_of_false (fun h => ?_) fun h => ?_
          · have hstores := h.2 1 1 (by decide) (by decide)
            rw [walkStores_cons_of_value hv, fullStores_cons_of_not_supported hsupp] at hstores
            exact span_append_ne_nil _ _ _ hstores
          · cases h

variable (next) in
/-- **A list of entries.** -/
theorem walkDecoded_iff : ∀ l : List Rela, (∀ r ∈ l, r.fullUses = true → syms ≠ none) →
    (WalkDecoded f syms next l ↔ ∀ r ∈ reached l, r.Kept f syms) := by
  intro l
  induction l with
  | nil => intro _; exact iff_of_true ⟨rfl, fun _ _ _ _ => rfl⟩ nofun
  | cons r rest ih =>
      intro hvalid
      have hr := value_eq_fullValue_iff (f := f) (hvalid r List.mem_cons_self)
      cases hsupp : r.supported with
      | true =>
          have hreached : reached (r :: rest) = r :: reached rest := if_pos hsupp
          rw [hreached, List.forall_mem_cons, walkDecoded_cons_of_supported hsupp, hr,
            ih fun s hs => hvalid s (List.mem_cons_of_mem r hs)]
      | false =>
          have hreached : reached (r :: rest) = [r] := if_neg (by rw [hsupp]; decide)
          rw [hreached, List.forall_mem_singleton, walkDecoded_cons_of_not_supported hsupp, hr]

end Walk

/-! ### The pass -/

theorem fullStatus_append (l₁ l₂ : List Rela) :
    fullStatus (l₁ ++ l₂) = (fullStatus l₁).or (fullStatus l₂) := by
  unfold fullStatus
  by_cases h : ∀ r ∈ l₁, r.supported = true
  · rw [if_pos h, Option.none_or]
    refine ite_congr (propext ?_) (fun _ => rfl) fun _ => rfl
    exact List.forall_mem_append.trans (and_iff_right h)
  · have hboth : ¬ ∀ r ∈ l₁ ++ l₂, r.supported = true :=
      fun hall => h (List.forall_mem_append.mp hall).1
    rw [if_neg hboth, if_neg h]
    rfl

/-- What is left to do once all entries are applied: `.rela.plt` may not be found. -/
def afterEntries (f : File) (elf : Elf) : Except Fault ElfLoaderReturn :=
  result f (elfAddendRelocations (some elf) relaPltName) >>= fun _ => .ok .ok

section Pass

variable {symbols dyn : Option Table}
  (hsym : result f (elfSymbols (some elf) dynsymName) = .ok symbols)
  (hdyn : result f (elfAddendRelocations (some elf) relaDynName) = .ok dyn)

include hsym hdyn

theorem result_eq_walk (hw : w ≠ 0) (he : e ≠ 0) :
    result f (elfLoaderRelocate (some elf) w e)
      = walkResult f symbols (relocations f elf) >>= afterWalk (afterEntries f elf) := by
  rw [result_elfLoaderRelocate_eq hw he, hsym, ok_bind, hdyn, ok_bind]
  unfold relocations afterEntries
  rw [hdyn, onOk_ok, walkResult_append]
  generalize result f (elfAddendRelocations (some elf) relaPltName) = lookup
  generalize walkResult f symbols (f.entries dyn) = walk
  cases walk with
  | error err => rfl
  | ok o =>
      cases o with
      | some status => rfl
      | none =>
          cases lookup with
          | error err => rfl
          | ok plt =>
              simp only [ok_bind, onOk_ok]
              refine congrArg _ (funext fun o => ?_)
              cases o <;> rfl

theorem fullResult_eq :
    fullResult f elf = afterWalk (afterEntries f elf) (fullStatus (relocations f elf)) := by
  unfold fullResult relocations afterEntries
  rw [hsym, ok_bind, hdyn, ok_bind, onOk_ok, fullStatus_append]
  generalize result f (elfAddendRelocations (some elf) relaPltName) = lookup
  cases fullStatus (f.entries dyn) with
  | some status => rfl
  | none =>
      rw [Option.none_or]
      cases lookup with
      | error err => rfl
      | ok plt =>
          simp only [ok_bind, onOk_ok]
          cases fullStatus (f.entries plt) <;> rfl

end Pass

/-- Without the lookups there is no entry to treat. -/
theorem decodedInFull_of_no_entries (hempty : f.passEntries elf = [])
    (h : ∀ w e, w ≠ 0 → e ≠ 0 →
      result f (elfLoaderRelocate (some elf) w e) = fullResult f elf ∧
      stores f (elfLoaderRelocate (some elf) w e) = []) :
    DecodedInFull f elf ↔ ∀ r ∈ reached (f.passEntries elf), r.Kept f (f.dynsymSection elf) := by
  rw [hempty]
  refine iff_of_true (fun w e hw he => ?_) nofun
  rw [hempty]
  exact h w e hw he

theorem stores_elfLoaderRelocate_of_symbols {symbols : Option Table}
    (hsym : result f (elfSymbols (some elf) dynsymName) = .ok symbols) (hw : w ≠ 0) (he : e ≠ 0) :
    stores f (elfLoaderRelocate (some elf) w e) = walkStores f w e symbols (relocations f elf) := by
  rw [stores_elfLoaderRelocate hw he, relocateStores, hsym, onOk_ok]

/-- **When relocation entries are decoded in full.**  For every file whose entries of a type
with a symbol have a valid symbol index. -/
theorem elfLoaderRelocate_decodes_iff (f : File) (elf : Elf)
    (hvalid : ∀ r ∈ f.passEntries elf, r.fullUses = true →
      ∃ s, f.dynsymSection elf = some s ∧ r.fullSym < s.count) :
    DecodedInFull f elf ↔
      ∀ r ∈ reached (f.passEntries elf), r.Kept f (f.dynsymSection elf) := by
  cases hsym : result f (elfSymbols (some elf) dynsymName) with
  | error err =>
      have hempty : f.passEntries elf = [] := by
        unfold File.passEntries
        rw [hsym, onOk_error]
      refine decodedInFull_of_no_entries hempty fun w e hw he => ⟨?_, ?_⟩
      · unfold fullResult
        rw [result_elfLoaderRelocate_eq hw he, hsym, error_bind, error_bind]
      · rw [stores_elfLoaderRelocate hw he, relocateStores, hsym, onOk_error]
  | ok symbols =>
      have hentries : f.passEntries elf = relocations f elf := by
        unfold File.passEntries
        rw [hsym, onOk_ok]
      cases hdyn : result f (elfAddendRelocations (some elf) relaDynName) with
      | error err =>
          have hempty : relocations f elf = [] := by
            unfold relocations
            rw [hdyn, onOk_error]
          refine decodedInFull_of_no_entries (hentries.trans hempty) fun w e hw he => ⟨?_, ?_⟩
          · unfold fullResult
            rw [result_elfLoaderRelocate_eq hw he, hsym, ok_bind, ok_bind, hdyn, error_bind,
              error_bind]
          · rw [stores_elfLoaderRelocate_of_symbols hsym hw he, hempty]
            rfl
      | ok dyn =>
          have hsymbols : ∀ r ∈ f.passEntries elf, r.fullUses = true →
              f.dynsymSection elf ≠ none := by
            intro r hr huses
            obtain ⟨s, hs, -⟩ := hvalid r hr huses
            rw [hs]
            exact Option.some_ne_none s
          have htable : symbols = (f.dynsymSection elf).map Section.table :=
            (elfNamedTable_eq_ok hsym).1
          rw [← walkDecoded_iff (f := f) (afterEntries f elf) _ hsymbols]
          unfold DecodedInFull WalkDecoded
          rw [hentries, fullResult_eq hsym hdyn, ← htable]
          constructor
          · intro h
            refine ⟨?_, fun w e hw he => ?_⟩
            · rw [← result_eq_walk (w := 1) (e := 1) hsym hdyn (by decide) (by decide)]
              exact (h 1 1 (by decide) (by decide)).1
            · rw [← stores_elfLoaderRelocate_of_symbols hsym hw he]
              exact (h w e hw he).2
          · intro h w e hw he
            rw [result_eq_walk hsym hdyn hw he, stores_elfLoaderRelocate_of_symbols hsym hw he]
            exact ⟨h.1, h.2 w e hw he⟩

theorem symbolFile_passEntries : symbolFile.passEntries ⟨581⟩
    = [⟨64, 8, 70⟩, ⟨72, 0x100000001, 2⟩, ⟨80, 0x100000002, 0⟩] := by
  unfold File.passEntries
  rw [symbolFile_relocatable.symbols, onOk_ok, symbolFile_relocatable.relocations_eq,
    symbolFile_allRelas]

theorem symbolFile_dynsymSection : symbolFile.dynsymSection ⟨581⟩ = some symbolFileDynsym := by
  unfold File.dynsymSection File.acceptedSection
  rw [symbolFile_named.1]
  rfl

/-- Two entries of types the loader knows and one of a type it does not. -/
theorem symbolFile_decoded : DecodedInFull symbolFile ⟨581⟩ := by
  have hvalid : ∀ r ∈ symbolFile.passEntries ⟨581⟩, r.fullType < 2 ^ 16 ∧ r.fullSym < 2 := by
    rw [symbolFile_passEntries]
    decide
  refine (elfLoaderRelocate_decodes_iff symbolFile ⟨581⟩ fun r hr _ => ?_).mpr fun r hr => ?_
  · exact ⟨symbolFileDynsym, symbolFile_dynsymSection, (hvalid r hr).2⟩
  · rw [symbolFile_passEntries] at hvalid hr
    have hmem : ∀ r ∈ reached [⟨64, 8, 70⟩, ⟨72, 0x100000001, 2⟩, ⟨80, 0x100000002, 0⟩],
        r ∈ ([⟨64, 8, 70⟩, ⟨72, 0x100000001, 2⟩, ⟨80, 0x100000002, 0⟩] : List Rela) := by
      decide
    obtain ⟨htype, hsym⟩ := hvalid r (hmem r hr)
    refine ⟨Or.inl htype, fun _ s hs => Or.inl ?_⟩
    rw [symbolFile_dynsymSection] at hs
    have hent : s.entsize.toNat = 24 := by
      rw [← Option.some.inj hs]
      rfl
    rw [hent]
    omega

/-- Type `0x10008` is taken for `R_X86_64_RELATIVE`, and the pass reports success. -/
theorem wideType_not_decoded :
    ¬ ∀ (f : File) (elf : Elf), (∀ r ∈ f.passEntries elf, r.fullUses = true →
      ∃ s, f.dynsymSection elf = some s ∧ r.fullSym < s.count) → DecodedInFull f elf := by
  intro h
  have huses : ∀ r ∈ (oneEntryFile 0x10008).passEntries ⟨357⟩, r.fullUses = false := by
    decide +kernel
  have hdecoded := h (oneEntryFile 0x10008) ⟨357⟩ fun r hr hu => by
    rw [huses r hr] at hu
    cases hu
  have hresult := (hdecoded 0x1000 0x2000 (by decide) (by decide)).1
  have hok : result (oneEntryFile 0x10008) (elfLoaderRelocate (some ⟨357⟩) 0x1000 0x2000)
      = .ok .ok := by decide +kernel
  have hfull : fullResult (oneEntryFile 0x10008) ⟨357⟩ = .ok .unknownRelocation := by
    decide +kernel
  rw [hok, hfull] at hresult
  cases hresult

end LibPS4
