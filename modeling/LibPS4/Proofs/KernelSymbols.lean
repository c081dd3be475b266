/-
What the kernel's symbol lookup finds.

Two terminated strings are compared up to where they differ or end together, so for a
name that is not empty the comparison tells exactly whether the two are the same; only for
strings that agree over 2^31 bytes does its counter overflow.

The walk stops before the last entry: `symbol + 1 < strings` is false there already, since
what follows the last entry is the string table itself.  A name that only the last entry
has is not found.
-/
import LibPS4.Kernel.Symbols
import LibPS4.Proofs.Strings

namespace LibPS4

open Effects Prog

variable {f : File}

/-! ### Comparing two strings -/

/-- The two strings agree for longer than an `int` can count. -/
def AgreeTooLong (s str : List Byte) : Prop :=
  ∀ j < 2 ^ 31, s.getD j 0 = str.getD j 0 ∧ s.getD j 0 ≠ 0

/-- A name of ordinary length never does. -/
theorem not_agreeTooLong {s str : List Byte} (h : str.length < 2 ^ 31) : ¬ AgreeTooLong s str := by
  intro hlong
  obtain ⟨hsame, hnz⟩ := hlong str.length h
  rw [hsame, List.getD_eq_default _ _ (Nat.le_refl _)] at hnz
  exact hnz rfl

/-- Where a comparison stops. -/
def Parts (f : File) (n name : U64) (j : Nat) : Prop :=
  f (n + BitVec.ofNat 64 j) ≠ f (name + BitVec.ofNat 64 j) ∨ f (n + BitVec.ofNat 64 j) = 0

instance (n name : U64) : DecidablePred (Parts f n name) := fun _ =>
  inferInstanceAs (Decidable (_ ∨ _))

theorem result_partsAt (n name : U64) (j : Nat) :
    result f (partsAt n name j) = .ok (if Parts f n name j then some j else none) := by
  simp only [partsAt, result_bind, result_fetch8, ok_bind, result_ite, pure_eq, result_ret]
  by_cases hne : f (n + BitVec.ofNat 64 j) ≠ f (name + BitVec.ofNat 64 j)
  · have hparts : Parts f n name j := Or.inl hne
    rw [if_pos hne, if_pos hparts]
  · rw [if_neg hne]
    by_cases hz : f (n + BitVec.ofNat 64 j) = 0
    · have hparts : Parts f n name j := Or.inr hz
      rw [if_pos hz, if_pos hparts]
    · have hparts : ¬ Parts f n name j := not_or.mpr ⟨hne, hz⟩
      rw [if_neg hz, if_neg hparts]

theorem eq_length_of_getD {l : List Byte} {j : Nat} (h0 : 0 ∉ l) (hj : j ≤ l.length)
    (hz : l.getD j 0 = 0) : j = l.length := by
  refine Nat.le_antisymm hj (Nat.not_lt.mp fun hlt => h0 ?_)
  rw [List.getD_eq_getElem _ _ hlt] at hz
  rw [← hz]
  exact List.getElem_mem hlt

section Compare

variable {n name : U64} {s str : List Byte} (hs : f.Spells n s) (hname : f.Spells name str)

include hs hname

/-- A comparison that has not stopped is inside both strings. -/
theorem inside_of_notParts {j : Nat} (h : ∀ i < j, ¬ Parts f n name i) :
    j ≤ s.length ∧ j ≤ str.length := by
  refine ⟨Nat.not_lt.mp fun hlt => ?_, Nat.not_lt.mp fun hlt => ?_⟩
  · have hend := hs s.length (Nat.le_refl _)
    rw [List.getD_eq_default _ _ (Nat.le_refl _)] at hend
    exact h s.length hlt (Or.inr hend)
  · have hend := hname str.length (Nat.le_refl _)
    rw [List.getD_eq_default _ _ (Nat.le_refl _)] at hend
    refine h str.length hlt ?_
    by_cases hz : f (n + BitVec.ofNat 64 str.length) = 0
    · exact Or.inr hz
    · exact Or.inl fun heq => hz (heq.trans hend)

/-- There the strings agree. -/
theorem agree_of_notParts {j : Nat} (h : ∀ i < j, ¬ Parts f n name i) :
    ∀ i < j, s.getD i 0 = str.getD i 0 ∧ s.getD i 0 ≠ 0 := by
  intro i hi
  obtain ⟨hj, hj'⟩ := inside_of_notParts hs hname h
  have hno := h i hi
  rw [Parts, not_or, not_not, hs i (by omega), hname i (by omega)] at hno
  exact hno

theorem result_commonLength :
    (result f (commonLength n name) = .error .signedOverflow ∧ AgreeTooLong s str) ∨
      ∃ j, result f (commonLength n name) = .ok j ∧ ¬ AgreeTooLong s str ∧ Parts f n name j ∧
        ∀ i < j, ¬ Parts f n name i := by
  obtain ⟨o, hfirst, hres⟩ := findFrom_isFirst (result_partsAt (f := f) n name) (2 ^ 31)
  cases o with
  | none =>
      refine Or.inl ⟨?_, agree_of_notParts hs hname hfirst⟩
      rw [commonLength, result_bind, hres]
      rfl
  | some j =>
      obtain ⟨hlt, hparts, hbefore⟩ := hfirst
      refine Or.inr ⟨j, ?_, fun hlong => ?_, hparts, hbefore⟩
      · rw [commonLength, result_bind, hres]
        rfl
      · obtain ⟨hj, hj'⟩ := inside_of_notParts hs hname hbefore
        rw [Parts, hs j hj, hname j hj'] at hparts
        obtain ⟨hsame, hnz⟩ := hlong j hlt
        rcases hparts with hdiff | hz
        · exact hdiff hsame
        · exact hnz hz

omit hs hname in
theorem result_endsBoth (j : Nat) : result f (endsBoth n name j)
    = .ok (decide (j ≠ 0 ∧ f (n + BitVec.ofNat 64 j) = 0 ∧ f (name + BitVec.ofNat 64 j) = 0)) := by
  unfold endsBoth
  by_cases hj : j = 0
  · rw [if_pos hj, decide_eq_false fun h => h.1 hj]
    rfl
  · rw [if_neg hj]
    simp only [result_bind, result_fetch8, ok_bind, result_ite, pure_eq, result_ret]
    by_cases hz : f (n + BitVec.ofNat 64 j) = 0
    · rw [if_neg (not_not.mpr hz)]
      simp only [hj, hz, ne_eq, not_false_eq_true, true_and]
    · rw [if_pos hz, decide_eq_false fun h => hz h.2.1]

/-- Where a comparison stops, it has seen whether the strings are the same. -/
theorem ends_iff (hs0 : 0 ∉ s) (hstr0 : 0 ∉ str) (hne : str ≠ []) {j : Nat}
    (hparts : Parts f n name j) (hbefore : ∀ i < j, ¬ Parts f n name i) :
    (j ≠ 0 ∧ f (n + BitVec.ofNat 64 j) = 0 ∧ f (name + BitVec.ofNat 64 j) = 0) ↔ s = str := by
  obtain ⟨hj, hj'⟩ := inside_of_notParts hs hname hbefore
  have hagree := agree_of_notParts hs hname hbefore
  rw [hs j hj, hname j hj']
  constructor
  · rintro ⟨-, hz, hz'⟩
    have hend : j = s.length := eq_length_of_getD hs0 hj hz
    have hend' : j = str.length := eq_length_of_getD hstr0 hj' hz'
    refine List.ext_getElem (hend.symm.trans hend') fun i h1 h2 => ?_
    have hi := (hagree i (by omega)).1
    rw [List.getD_eq_getElem _ _ h1, List.getD_eq_getElem _ _ h2] at hi
    exact hi
  · rintro rfl
    -- The strings do not differ, so it is the end that stopped the comparison.
    rw [Parts, hs j hj, hname j hj'] at hparts
    have hz := hparts.resolve_left (not_not.mpr rfl)
    refine ⟨?_, hz, hz⟩
    have hend := eq_length_of_getD hs0 hj hz
    have hpos := List.length_pos_iff.mpr hne
    omega

end Compare

/-! ### The walk -/

/-- Entry number `i`. -/
def PS4KernelStatics.entry (k : PS4KernelStatics) (i : Nat) : U64 :=
  k.elfSymbols + BitVec.ofNat 64 (KernelSymbol.size * i)

def File.symbolValue (f : File) (k : PS4KernelStatics) (i : Nat) : U64 := le64 f (k.entry i + 8)

def File.symbolName (f : File) (k : PS4KernelStatics) (i : Nat) : U64 :=
  k.elfStrings + (le32 f (k.entry i)).setWidth 64

/-- A symbol table of `n` entries right before the string table, entry `i` with the
terminated string `names i`.  The table, or the one entry a walk looks ahead, does not
wrap around the address space. -/
structure SymbolTable (f : File) (k : PS4KernelStatics) (n : Nat) (names : Nat → List Byte) :
    Prop where
  initialized : k.initialized = true
  strings : k.elfStrings = k.entry n
  fits : k.elfSymbols.toNat + KernelSymbol.size * max n 1 < 2 ^ 64
  spelled : ∀ i < n, f.Spells (f.symbolName k i) (names i)
  terminated : ∀ i < n, 0 ∉ names i

/-- The walk returns what the first entry says that does not let it go on. -/
theorem result_kernelSymbols {k : PS4KernelStatics} {name : U64} {i : Nat}
    (hstop : result f (symbolAt k name i) ≠ .ok none) (hi : i < 2 ^ 61)
    (hgo : ∀ j, 0 ≤ j → j < i → result f (symbolAt k name j) = .ok none) :
    result f (kernelSymbols k name) = (result f (symbolAt k name i)).map (·.getD 0) := by
  rw [kernelSymbols, result_bind,
    result_findFrom_of_stop hstop (2 ^ 61) 0 (Nat.zero_le i) (by omega) hgo]
  cases hr : result f (symbolAt k name i) with
  | error e => rfl
  | ok o =>
      cases o with
      | none => exact absurd hr hstop
      | some value => rfl

section Walk

variable {k : PS4KernelStatics} {n : Nat} {names : Nat → List Byte} {name : U64} {str : List Byte}
  (ht : SymbolTable f k n names)

include ht

/-- The look-ahead leaves the last entry out. -/
theorem SymbolTable.ahead_iff {i : Nat} (hi : i + 1 ≤ max n 1) :
    k.entry i + BitVec.ofNat 64 KernelSymbol.size < k.elfStrings ↔ i + 1 < n := by
  have hfits := ht.fits
  unfold KernelSymbol.size at hfits
  have hentry : ∀ m ≤ max n 1, (k.entry m).toNat = k.elfSymbols.toNat + 24 * m := by
    intro m hm
    rw [PS4KernelStatics.entry, BitVec.toNat_add, BitVec.toNat_ofNat, KernelSymbol.size]
    omega
  have hnext : k.entry i + BitVec.ofNat 64 KernelSymbol.size = k.entry (i + 1) := by
    rw [PS4KernelStatics.entry, PS4KernelStatics.entry, BitVec.add_assoc, ← BitVec.ofNat_add,
      Nat.mul_succ]
  rw [hnext, ht.strings, BitVec.lt_def, hentry (i + 1) hi, hentry n (by omega)]
  omega

theorem SymbolTable.result_last {i : Nat} (hi : i + 1 = max n 1) :
    result f (symbolAt k name i) = .ok (some 0) := by
  have hno : ¬ (k.entry i + BitVec.ofNat 64 KernelSymbol.size < k.elfStrings) := by
    rw [ht.ahead_iff (by omega)]
    omega
  unfold symbolAt
  dsimp only
  rw [← PS4KernelStatics.entry, if_neg hno]
  rfl

/-- What an entry before the last answers. -/
theorem SymbolTable.result_entry (hname : f.Spells name str) (h0 : 0 ∉ str) (hne : str ≠ [])
    {i : Nat} (hi : i + 1 < n) :
    (result f (symbolAt k name i) = .error .signedOverflow ∧ AgreeTooLong (names i) str) ∨
      (result f (symbolAt k name i)
          = .ok (if names i = str then some (f.symbolValue k i) else none) ∧
        ¬ AgreeTooLong (names i) str) := by
  have hahead := (ht.ahead_iff (i := i) (by omega)).mpr hi
  have hs := ht.spelled i (by omega)
  have hres : result f (symbolAt k name i) = (result f (commonLength (f.symbolName k i) name)
      >>= fun j => result f (endsBoth (f.symbolName k i) name j) >>= fun b =>
        if b then .ok (some (f.symbolValue k i)) else .ok none) := by
    unfold symbolAt
    dsimp only
    rw [← PS4KernelStatics.entry, if_pos hahead]
    simp only [result_bind, KernelSymbol.stName, KernelSymbol.stValue, result_fetch32,
      result_fetch64, ok_bind, result_ite, pure_eq, result_ret]
    rfl
  obtain ⟨hover, hlong⟩ | ⟨j, hj, hshort, hparts, hbefore⟩ := result_commonLength hs hname
  · left
    rw [hres, hover]
    exact ⟨rfl, hlong⟩
  · right
    refine ⟨?_, hshort⟩
    rw [hres, hj, ok_bind, result_endsBoth, ok_bind]
    have hends := ends_iff hs hname (ht.terminated i (by omega)) h0 hne hparts hbefore
    by_cases heq : names i = str
    · rw [if_pos heq, if_pos (decide_eq_true (hends.mpr heq))]
    · rw [if_neg heq, if_neg]
      rw [decide_eq_true_eq, hends]
      exact heq

/-- How a lookup ends, and that it does: at the last entry, which it does not look at, or
at the first one before that has the name or is too long to compare. -/
inductive WalkEnds (f : File) (k : PS4KernelStatics) (n : Nat) (names : Nat → List Byte)
    (str : List Byte) (r : Except KernelFault U64) (i : Nat) : Prop
  | last (h : n ≤ i + 1) (hr : r = .ok 0)
  | overflow (h : i + 1 < n) (hlong : AgreeTooLong (names i) str) (hr : r = .error .signedOverflow)
  | found (h : i + 1 < n) (hshort : ¬ AgreeTooLong (names i) str) (heq : names i = str)
      (hr : r = .ok (f.symbolValue k i))

theorem SymbolTable.walkEnds (hname : f.Spells name str) (h0 : 0 ∉ str) (hne : str ≠ []) :
    ∃ i, (∀ j < i, j + 1 < n ∧ ¬ AgreeTooLong (names j) str ∧ names j ≠ str) ∧
      WalkEnds f k n names str (result f (kernelSymbols k name)) i := by
  have hfits := ht.fits
  unfold KernelSymbol.size at hfits
  obtain ⟨i, hle, hi, hmin⟩ : ∃ i, i < max n 1 ∧
      (n ≤ i + 1 ∨ AgreeTooLong (names i) str ∨ names i = str) ∧
      ∀ j < i, ¬ (n ≤ j + 1 ∨ AgreeTooLong (names j) str ∨ names j = str) := by
    obtain ⟨o, ho⟩ := First.exists
      (fun i => n ≤ i + 1 ∨ AgreeTooLong (names i) str ∨ names i = str) (max n 1)
    cases o with
    | none => exact absurd (Or.inl (by omega)) (ho (n - 1) (by omega))
    | some i => exact ⟨i, ho⟩
  have hbefore : ∀ j < i, j + 1 < n ∧ ¬ AgreeTooLong (names j) str ∧ names j ≠ str := by
    intro j hj
    have hno := hmin j hj
    rw [not_or, not_or, Nat.not_le] at hno
    exact hno
  have hgo : ∀ j, 0 ≤ j → j < i → result f (symbolAt k name j) = .ok none := by
    intro j _ hj
    obtain ⟨hlt, hshort, hother⟩ := hbefore j hj
    obtain ⟨-, hlong⟩ | ⟨hres, -⟩ := ht.result_entry hname h0 hne hlt
    · exact absurd hlong hshort
    · rw [hres, if_neg hother]
  have hwalk : ∀ r, result f (symbolAt k name i) = r → r ≠ .ok none →
      result f (kernelSymbols k name) = r.map (·.getD 0) := by
    intro r hr hstop
    subst hr
    exact result_kernelSymbols hstop (by omega) hgo
  refine ⟨i, hbefore, ?_⟩
  by_cases hend : n ≤ i + 1
  · have hlast : i + 1 = max n 1 := by omega
    exact .last hend (hwalk _ (ht.result_last hlast) (by simp))
  · obtain ⟨hres, hlong⟩ | ⟨hres, hshort⟩ := ht.result_entry hname h0 hne (Nat.not_le.mp hend)
    · exact .overflow (Nat.not_le.mp hend) hlong (hwalk _ hres (by simp))
    · have heq := (hi.resolve_left hend).resolve_left hshort
      rw [if_pos heq] at hres
      exact .found (Nat.not_le.mp hend) hshort heq (hwalk _ hres (by simp))

/-- In the kernel, with the tables known, the lookup is the walk. -/
theorem SymbolTable.lookupEnds (hname : f.Spells name str) (h0 : 0 ∉ str) (hne : str ≠ [])
    (runMain : U64 → KernelProg U64)
    (internalInitialize : PS4KernelStatics → KernelProg PS4KernelStatics) {sp : U64}
    (hsp : ps4KernelIsInKernel sp = true) :
    ∃ i, (∀ j < i, j + 1 < n ∧ ¬ AgreeTooLong (names j) str ∧ names j ≠ str) ∧
      WalkEnds f k n names str
        (result f (ps4KernelDlSym runMain internalInitialize sp k name)) i := by
  have hbranch : ps4KernelDlSym runMain internalInitialize sp k name = kernelSymbols k name := by
    unfold ps4KernelDlSym
    rw [hsp, if_neg (by decide), ht.initialized, if_pos rfl]
    rfl
  rw [hbranch]
  exact ht.walkEnds hname h0 hne

end Walk

/-! ### What is found -/

/-- The value of the first entry with the name, and NULL where there is none. -/
structure FindsFirst (f : File) (k : PS4KernelStatics) (n : Nat) (names : Nat → List Byte)
    (str : List Byte) (r : U64) : Prop where
  value : ∀ i < n, names i = str → (∀ j < i, names j ≠ str) → r = f.symbolValue k i
  null : r = 0 ↔ ∀ i < n, names i ≠ str

/-- No entry before the last agrees with the name for longer than the comparison can
count, and the first entry with the name is not the last one and has a value. -/
structure WithinWalk (f : File) (k : PS4KernelStatics) (n : Nat) (names : Nat → List Byte)
    (str : List Byte) : Prop where
  comparable : ∀ i, i + 1 < n → ¬ AgreeTooLong (names i) str
  notLast : ∀ i < n, names i = str → (∀ j < i, names j ≠ str) →
    i + 1 < n ∧ f.symbolValue k i ≠ 0

section Found

variable {k : PS4KernelStatics} {n : Nat} {names : Nat → List Byte} {str : List Byte}

/-- Two entries that both have the name and are preceded by no other are the same. -/
theorem first_unique {i i' : Nat} (h : names i = str) (hbefore : ∀ j < i, names j ≠ str)
    (h' : names i' = str) (hbefore' : ∀ j < i', names j ≠ str) : i = i' := by
  have hle : ¬ i < i' := fun hlt => hbefore' i hlt h
  have hge : ¬ i' < i := fun hlt => hbefore i' hlt h'
  omega

theorem finds_iff {r : Except KernelFault U64} {i : Nat}
    (hbefore : ∀ j < i, j + 1 < n ∧ ¬ AgreeTooLong (names j) str ∧ names j ≠ str)
    (hends : WalkEnds f k n names str r i) :
    (∃ v, r = .ok v ∧ FindsFirst f k n names str v) ↔ WithinWalk f k n names str := by
  have hfirst : ∀ j < i, names j ≠ str := fun j hj => (hbefore j hj).2.2
  cases hends with
  | last hlast hr =>
      subst hr
      constructor
      · rintro ⟨v, hv, hfinds⟩
        cases hv
        have hnone := hfinds.null.mp rfl
        exact ⟨fun j hj => (hbefore j (by omega)).2.1, fun j hj heq _ => absurd heq (hnone j hj)⟩
      · intro h
        have hnone : ∀ j < n, names j ≠ str := by
          intro j hj heq
          by_cases hlt : j < i
          · exact hfirst j hlt heq
          · -- An entry from here on is the last one.
            have hj' := (h.notLast j hj heq fun j' hj' => hfirst j' (by omega)).1
            omega
        exact ⟨0, rfl, fun j hj heq _ => absurd heq (hnone j hj), fun _ => hnone, fun _ => rfl⟩
  | overflow hlt hlong hr =>
      subst hr
      constructor
      · rintro ⟨v, hv, -⟩
        cases hv
      · intro h
        exact absurd hlong (h.comparable i hlt)
  | found hlt hshort heq hr =>
      subst hr
      constructor
      · rintro ⟨v, hv, hfinds⟩
        obtain rfl := Except.ok.inj hv
        refine ⟨fun j hj hlong => hshort ?_, fun j hj hjeq hjbefore => ?_⟩
        · -- The name itself would be too long.
          rw [heq]
          exact fun m hm => ⟨rfl, fun hz => (hlong m hm).2 ((hlong m hm).1.trans hz)⟩
        · obtain rfl := first_unique hjeq hjbefore heq hfirst
          exact ⟨hlt, fun hz => hfinds.null.mp hz j hj heq⟩
      · intro h
        have hi : i < n := by omega
        refine ⟨_, rfl, fun j hj hjeq hjbefore => ?_, fun hz => ?_, fun hnone => ?_⟩
        · obtain rfl := first_unique hjeq hjbefore heq hfirst
          rfl
        · exact absurd hz (h.notLast i hi heq hfirst).2
        · exact absurd heq (hnone i hi)

end Found

/--
**When the kernel's symbol lookup is complete.**

For every table and every name: unless the entry asked for is the last of the table, or a
comparison has to count past an `int`.  An entry whose value is NULL cannot be told from
no entry.
-/
theorem ps4KernelDlSym_complete_iff (f : File) (runMain : U64 → KernelProg U64)
    (internalInitialize : PS4KernelStatics → KernelProg PS4KernelStatics) (sp : U64)
    (k : PS4KernelStatics) (n : Nat) (names : Nat → List Byte) (name : U64) (str : List Byte)
    (hsp : ps4KernelIsInKernel sp = true) (ht : SymbolTable f k n names)
    (hname : f.Spells name str) (h0 : 0 ∉ str) (hne : str ≠ []) :
    (∃ r, result f (ps4KernelDlSym runMain internalInitialize sp k name) = .ok r ∧
        FindsFirst f k n names str r) ↔
      WithinWalk f k n names str := by
  obtain ⟨i, hbefore, hends⟩ :=
    ht.lookupEnds hname h0 hne runMain internalInitialize hsp
  exact finds_iff hbefore hends

/-- Two symbols, `a` with the value 1 and `b` with the value 2, their strings and, behind
them, the two names once more. -/
def twoSymbols : File := fun a =>
  ([0, 0, 0, 0, 0, 0, 0, 0, 1, 0, 0, 0, 0, 0, 0, 0, 0, 0, 0, 0, 0, 0, 0, 0] ++
    [2, 0, 0, 0, 0, 0, 0, 0, 2, 0, 0, 0, 0, 0, 0, 0, 0, 0, 0, 0, 0, 0, 0, 0] ++
    [0x61, 0, 0x62, 0] ++ [0x61, 0, 0x62, 0]).getD (a - 0xffffffff80700000).toNat 0

def twoStatics : PS4KernelStatics := ⟨true, 0xffffffff80700000, 0xffffffff80700030⟩

def twoNames : Nat → List Byte
  | 0 => [0x61]
  | _ => [0x62]

theorem twoSymbols_table : SymbolTable twoSymbols twoStatics 2 twoNames :=
  ⟨rfl, by decide, by decide, by decide, by decide⟩

/-- The first symbol is found. -/
theorem twoSymbols_first : ∃ r, result twoSymbols (ps4KernelDlSym (fun _ => pure 0) pure
      0xffff800000010000 twoStatics 0xffffffff80700034) = .ok r ∧
    FindsFirst twoSymbols twoStatics 2 twoNames [0x61] r := by
  refine (ps4KernelDlSym_complete_iff twoSymbols (fun _ => pure 0) pure 0xffff800000010000
    twoStatics 2 twoNames 0xffffffff80700034 [0x61] (by decide) twoSymbols_table (by decide)
    (by decide) (by decide)).mpr ⟨fun i _ => ?_, ?_⟩
  · exact not_agreeTooLong (by decide)
  · decide

/-- The last one is not. -/
theorem twoSymbols_last : ¬ ∃ r, result twoSymbols (ps4KernelDlSym (fun _ => pure 0) pure
      0xffff800000010000 twoStatics 0xffffffff80700036) = .ok r ∧
    FindsFirst twoSymbols twoStatics 2 twoNames [0x62] r := by
  have hname : twoSymbols.Spells 0xffffffff80700036 [0x62] := by decide
  have hsp : ps4KernelIsInKernel 0xffff800000010000 = true := by decide
  obtain ⟨i, hbefore, hends⟩ := twoSymbols_table.lookupEnds hname (by decide) (by decide)
    (fun _ => pure 0) pure hsp
  rw [finds_iff hbefore hends]
  intro h
  have hlast := (h.notLast 1 (by decide) rfl (by decide)).1
  omega

end LibPS4
