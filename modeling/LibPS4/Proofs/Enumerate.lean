/-
The cursors of `elfSection`, `elfSegment` and `elfDynamic`.

The three lookups are one function: get the table, test its entries from the cursor on,
leave the cursor at the entry found.  Whoever adds one to the cursor and asks again goes
through all entries that pass the test, in order, and gets `NULL` in the end, also for a
table of 65535 entries: the last index that is asked for is then 65535, which is not below
the length.

`elfLargestAlignment` is such a caller.
-/
import LibPS4.Base.Cursor
import LibPS4.Elf.Build
import LibPS4.Elf.Dynamic
import LibPS4.Proofs.Reads

namespace LibPS4

open Effects Prog

variable {f : File} {elf : Option Elf}

/-! ### One lookup -/

/-- The test of one entry; `all` is the attribute `None`. -/
def entryTest (all : Prop) [Decidable all] (field : U64 → ElfProg U64) (value : U64)
    (h : Table) (i : Nat) : ElfProg (Option U64) := do
  if all then
    return some (h.entry i)
  if (← field (h.entry i)) = value then
    return some (h.entry i)
  return none

/-- The common body of the three lookups, with the cursor in 16 bits. -/
def search (table : ElfProg (Option Table)) (test : Table → Nat → ElfProg (Option U64))
    (index : U16) : ElfProg (Option U64 × U16) := do
  match ← table with
  | none => return (none, index)
  | some h => cursorLoop .diverges (test h) h.length (2 ^ 16) index

section Search

variable {all : Prop} [Decidable all] {field : U64 → ElfProg U64} {value : U64}

/-- The test as the loops make it, with the index beside the entry. -/
theorem entryTest_indexed (h : Table) (i : Nat) :
    (entryTest all field value h i >>= fun o => ret (o.map fun t => (t, i)))
      = (do
          if all then
            return some (h.entry i, i)
          if (← field (h.entry i)) = value then
            return some (h.entry i, i)
          return none) := by
  rw [entryTest]
  by_cases hall : all
  · rw [if_pos hall, if_pos hall]
    rfl
  · rw [if_neg hall, if_neg hall, bind_bind]
    refine congrArg (field (h.entry i) >>= ·) (funext fun v => ?_)
    by_cases hv : v = value
    · rw [if_pos hv, if_pos hv]
      rfl
    · rw [if_neg hv, if_neg hv]
      rfl

variable (all field value) in
/-- A lookup that runs over natural numbers is the one with the cursor in 16 bits. -/
theorem search_eq (table : ElfProg (Option Table)) (index : U16) :
    (do
      match ← table with
      | none => return (none, index)
      | some h =>
          match ← findFrom (fun i => do
              if all then
                return some (h.entry i, i)
              if (← field (h.entry i)) = value then
                return some (h.entry i, i)
              return none) (h.length.toNat - index.toNat) index.toNat with
          | some (t, i) => return (some t, BitVec.ofNat 16 i)
          | none => return (none, if index < h.length then h.length else index))
      = search table (entryTest all field value) index := by
  refine congrArg (table >>= ·) (funext fun o => ?_)
  cases o with
  | none => rfl
  | some h =>
      have hlt := h.length.isLt
      have hloop := cursorLoop_eq Fault.diverges (entryTest all field value h) h.length (2 ^ 16)
        index (by omega)
      rw [funext (entryTest_indexed h)] at hloop
      refine Eq.trans ?_ hloop.symm
      refine congrArg (findFrom _ _ _ >>= ·) (funext fun o => ?_)
      cases o with
      | none => rfl
      | some c => rfl

end Search

variable (elf) in
theorem elfSection_eq_search (index : U16) (attr : ElfSectionAttribute) (value : U64) :
    elfSection elf index attr value
      = search (elfSections elf) (entryTest (attr = .none) (elfSectionAttribute · attr) value)
          index :=
  search_eq (attr = .none) (elfSectionAttribute · attr) value (elfSections elf) index

variable (elf) in
theorem elfSegment_eq_search (index : U16) (attr : ElfSegmentAttribute) (value : U64) :
    elfSegment elf index attr value
      = search (elfSegments elf) (entryTest (attr = .none) (elfSegmentAttribute · attr) value)
          index :=
  search_eq (attr = .none) (elfSegmentAttribute · attr) value (elfSegments elf) index

variable (elf) in
theorem elfDynamic_eq_search (index : U16) (attr : ElfDynamicAttribute) (value : U64) :
    elfDynamic elf index attr value
      = search (elfDynamics elf) (entryTest (attr = .none) (elfDynamicAttribute · attr) value)
          index :=
  search_eq (attr = .none) (elfDynamicAttribute · attr) value (elfDynamics elf) index

/-! ### All lookups -/

/-- The entry passes the test: any entry for the attribute `None`, else one whose attribute
has the value. -/
def Passes (f : File) (all : Prop) (field : U64 → ElfProg U64) (value : U64) (t : Table)
    (k : Nat) : Prop :=
  all ∨ result f (field (t.entry k)) = .ok value

instance (all : Prop) [Decidable all] (field : U64 → ElfProg U64) (value : U64) (t : Table) :
    DecidablePred (Passes f all field value t) :=
  fun _ => inferInstanceAs (Decidable (_ ∨ _))

/-- Repeating `call, then ++index` from 0 visits the entries with the property, each once and
in increasing order, then gets `NULL`; no index it is at is the last of the 16 bits. -/
structure Enumerates (f : File) (call : U16 → ElfProg (Option U64 × U16)) (t : Table)
    (p : Nat → Prop) [DecidablePred p] : Prop where
  visits : ∃ visited, result f (drain .diverges call (2 ^ 16) 0) = .ok (visited, t.length) ∧
    visited = ((List.range t.length.toNat).filter fun k => p k).map
      fun k => (t.entry k, BitVec.ofNat 16 k)
  increasing : ∀ visited last, result f (drain .diverges call (2 ^ 16) 0) = .ok (visited, last) →
    visited.Pairwise fun a b => a.2 < b.2
  noWrap : ∀ visited last, result f (drain .diverges call (2 ^ 16) 0) = .ok (visited, last) →
    ∀ a ∈ visited, a.2 < t.length ∧ (a.2 + 1).toNat = a.2.toNat + 1

/-- A call that finds the next entry with the property enumerates them. -/
theorem enumerates_of_steps {call : U16 → ElfProg (Option U64 × U16)} {t : Table}
    {p : Nat → Prop} [DecidablePred p] (h : Steps f call p t.entry t.length.toNat) :
    Enumerates f call t p := by
  have hlength := t.length.isLt
  have hlast : BitVec.ofNat 16 t.length.toNat = t.length := by
    rw [BitVec.ofNat_toNat, BitVec.setWidth_eq]
  have hdrain := result_drain Fault.diverges h (2 ^ 16) 0 (Nat.zero_le _) (by omega)
  rw [Nat.sub_zero, hlast] at hdrain
  refine ⟨⟨_, hdrain, by rw [List.range_eq_range']⟩, ?_, ?_⟩
  · intro visited last hres
    obtain ⟨rfl, -⟩ := Prod.mk.inj (Except.ok.inj (hdrain.symm.trans hres))
    exact drained_increasing hlength t.entry
  · intro visited last hres a ha
    obtain ⟨rfl, -⟩ := Prod.mk.inj (Except.ok.inj (hdrain.symm.trans hres))
    obtain ⟨k, hk, rfl⟩ := List.mem_map.mp ha
    have hlt := (List.mem_range'_1.mp (List.mem_of_mem_filter hk)).2
    have hnat : (BitVec.ofNat 16 k).toNat = k := by
      rw [BitVec.toNat_ofNat, Nat.mod_eq_of_lt (by omega)]
    refine ⟨?_, ?_⟩
    · rw [BitVec.lt_def, hnat]
      omega
    · show (BitVec.ofNat 16 k + 1).toNat = (BitVec.ofNat 16 k).toNat + 1
      rw [BitVec.toNat_add, hnat, show (1 : U16).toNat = 1 from rfl, Nat.mod_eq_of_lt (by omega)]

section Lookups

variable {all : Prop} [Decidable all] {field : U64 → ElfProg U64} {value : U64}
  (hfield : ∀ a, ∃ v, result f (field a) = .ok v)

variable (all value) in
include hfield in
theorem result_entryTest (t : Table) (k : Nat) :
    result f (entryTest all field value t k >>= fun o => ret (o.map fun a => (a, k)))
      = .ok (if Passes f all field value t k then some (t.entry k, k) else none) := by
  rw [result_bind, entryTest]
  by_cases hall : all
  · have hpass : Passes f all field value t k := Or.inl hall
    rw [if_pos hall, if_pos hpass]
    rfl
  · obtain ⟨v, hv⟩ := hfield (t.entry k)
    rw [if_neg hall, result_bind, hv, ok_bind]
    by_cases heq : v = value
    · have hpass : Passes f all field value t k := Or.inr (heq ▸ hv)
      rw [if_pos heq, if_pos hpass]
      rfl
    · have hfail : ¬ Passes f all field value t k := by
        rintro (hc | hc)
        · exact hall hc
        · exact heq (Except.ok.inj (hv.symm.trans hc))
      rw [if_neg heq, if_neg hfail]
      rfl

include hfield in
/-- One lookup finds the next entry that passes. -/
theorem steps_search {table : ElfProg (Option Table)} {t : Table}
    (ht : result f table = .ok (some t)) :
    Steps f (search table (entryTest all field value)) (Passes f all field value t) t.entry
      t.length.toNat := by
  intro i hi
  have hlength := t.length.isLt
  have hnat : (BitVec.ofNat 16 i).toNat = i := by
    rw [BitVec.toNat_ofNat, Nat.mod_eq_of_lt (by omega)]
  have hlast : BitVec.ofNat 16 t.length.toNat = t.length := by
    rw [BitVec.ofNat_toNat, BitVec.setWidth_eq]
  rw [search, result_bind, ht, ok_bind]
  simp only
  rw [cursorLoop_eq _ _ _ _ _ (by omega), result_bind, hnat]
  obtain ⟨hres, hnone⟩ | ⟨k, hlo, hhi, hk, hbefore, hres⟩ :=
    findFrom_first (result_entryTest all value hfield t) (t.length.toNat - i) i
  · refine Or.inl ⟨?_, fun k hlo hhi => hnone k hlo (by omega)⟩
    rw [hres]
    show Except.ok (none, if BitVec.ofNat 16 i < t.length then t.length else BitVec.ofNat 16 i)
      = _
    rw [hlast]
    by_cases hlt : BitVec.ofNat 16 i < t.length
    · rw [if_pos hlt]
    · have heq : BitVec.ofNat 16 i = t.length := by
        apply BitVec.eq_of_toNat_eq
        rw [BitVec.lt_def, hnat] at hlt
        omega
      rw [if_neg hlt, heq]
  · refine Or.inr ⟨k, hlo, by omega, hk, hbefore, ?_⟩
    rw [hres]
    rfl

end Lookups

/-! ### The attributes -/

theorem fetch64_returns (a : U64) : ∃ v, result f (fetch64 a : ElfProg U64) = .ok v :=
  ⟨_, result_fetch64 a⟩

theorem fetch32_returns (a : U64) :
    ∃ v, result f (do return (← fetch32 a).setWidth 64 : ElfProg U64) = .ok v := by
  refine ⟨(le32 f a).setWidth 64, ?_⟩
  rw [result_bind, result_fetch32, ok_bind, pure_eq, result_ret]

theorem elfSectionAttribute_returns (attr : ElfSectionAttribute) (a : U64) :
    ∃ v, result f (elfSectionAttribute a attr) = .ok v := by
  cases attr with
  | none => exact ⟨0, rfl⟩
  | name | type | link | info => exact fetch32_returns _
  | flags | address | offset | size | memoryAlignment | entrySize => exact fetch64_returns _

theorem elfSegmentAttribute_returns (attr : ElfSegmentAttribute) (a : U64) :
    ∃ v, result f (elfSegmentAttribute a attr) = .ok v := by
  cases attr with
  | none => exact ⟨0, rfl⟩
  | type | flags => exact fetch32_returns _
  | offset | virtualAddress | physicalAddress | fileSize | memorySize | alignment =>
      exact fetch64_returns _

theorem elfDynamicAttribute_returns (attr : ElfDynamicAttribute) (a : U64) :
    ∃ v, result f (elfDynamicAttribute a attr) = .ok v := by
  cases attr with
  | none => exact ⟨0, rfl⟩
  | tag | value | pointer => exact fetch64_returns _

/-! ### The largest alignment -/

/-- The largest `p_align` below 2 MiB of the `PT_LOAD` headers, 0 if there is none. -/
structure LargestAlignment (f : File) (t : Table) (a : U64) : Prop where
  bound : ∀ k < t.length.toNat, (f.segmentAt (t.entry k)).type = ptLoad →
    (f.segmentAt (t.entry k)).align < 0x200000 → (f.segmentAt (t.entry k)).align ≤ a
  attained : a = 0 ∨ ∃ k < t.length.toNat, (f.segmentAt (t.entry k)).type = ptLoad ∧
    (f.segmentAt (t.entry k)).align < 0x200000 ∧ a = (f.segmentAt (t.entry k)).align

section Maximum

variable (limit : U64) (g : Nat → U64)

/-- A running maximum of the values below a limit. -/
def maxBelow (a : U64) (k : Nat) : U64 := if a < g k ∧ g k < limit then g k else a

theorem le_maxBelow (a : U64) (k : Nat) : a ≤ maxBelow limit g a k := by
  by_cases h : a < g k ∧ g k < limit
  · rw [maxBelow, if_pos h]
    exact BitVec.le_of_lt h.1
  · rw [maxBelow, if_neg h]
    exact BitVec.le_refl a

theorem le_maxBelow_of_lt (a : U64) {k : Nat} (h : g k < limit) : g k ≤ maxBelow limit g a k := by
  by_cases hlt : a < g k
  · rw [maxBelow, if_pos ⟨hlt, h⟩]
    exact BitVec.le_refl _
  · rw [maxBelow, if_neg fun hc => hlt hc.1]
    exact BitVec.not_lt.mp hlt

theorem le_foldl_maxBelow (l : List Nat) :
    ∀ a, a ≤ l.foldl (maxBelow limit g) a ∧
      ∀ k ∈ l, g k < limit → g k ≤ l.foldl (maxBelow limit g) a := by
  induction l with
  | nil => intro a; exact ⟨BitVec.le_refl a, nofun⟩
  | cons k l ih =>
      intro a
      obtain ⟨hle, hall⟩ := ih (maxBelow limit g a k)
      refine ⟨BitVec.le_trans (le_maxBelow limit g a k) hle, fun k' hk' hsmall => ?_⟩
      obtain rfl | hk' := List.mem_cons.mp hk'
      · exact BitVec.le_trans (le_maxBelow_of_lt limit g a hsmall) hle
      · exact hall k' hk' hsmall

theorem foldl_maxBelow_attained (l : List Nat) :
    ∀ a, l.foldl (maxBelow limit g) a = a ∨
      ∃ k ∈ l, g k < limit ∧ l.foldl (maxBelow limit g) a = g k := by
  induction l with
  | nil => intro a; exact Or.inl rfl
  | cons k l ih =>
      intro a
      rw [List.foldl_cons]
      obtain heq | ⟨k', hk', hsmall, heq⟩ := ih (maxBelow limit g a k)
      · by_cases hstep : a < g k ∧ g k < limit
        · refine Or.inr ⟨k, List.mem_cons_self, hstep.2, ?_⟩
          rw [heq, maxBelow, if_pos hstep]
        · left
          rw [heq, maxBelow, if_neg hstep]
      · exact Or.inr ⟨k', List.mem_cons_of_mem k hk', hsmall, heq⟩

end Maximum

/-- The alignment of an entry. -/
def File.alignAt (f : File) (t : Table) (k : Nat) : U64 := (f.segmentAt (t.entry k)).align

/-- The loop of `elfLargestAlignment` goes through every `PT_LOAD` header. -/
theorem result_elfLargestAlignmentLoop {t : Table} {p : Nat → Prop} [DecidablePred p]
    (h : Steps f (fun i => elfSegment elf i .type (ptLoad.setWidth 64)) p t.entry
      t.length.toNat) :
    ∀ m i a, i ≤ t.length.toNat → t.length.toNat - i < m →
      result f (elfLargestAlignmentLoop elf m (BitVec.ofNat 16 i) a)
        = .ok (((List.range' i (t.length.toNat - i)).filter fun k => p k).foldl
            (maxBelow 0x200000 (f.alignAt t)) a) := by
  intro m
  induction m with
  | zero => intro i a _ hm; exact absurd hm (Nat.not_lt_zero _)
  | succ m ih =>
      intro i a hi hm
      rw [elfLargestAlignmentLoop, result_bind]
      obtain ⟨hres, hnone⟩ | ⟨k, hlo, hhi, hk, hbefore, hres⟩ := h i hi
      · rw [hres, filter_eq_nil_of_none hnone]
        rfl
      · have hnext : BitVec.ofNat 16 k + 1 = BitVec.ofNat 16 (k + 1) :=
          (BitVec.ofNat_add k 1).symm
        rw [hres, filter_eq_cons_of_first hlo hhi hk hbefore, ok_bind, List.foldl_cons]
        simp only
        rw [hnext, result_bind, ElfSegment.pAlign, result_fetch64, ok_bind,
          ih (k + 1) _ hhi (by omega)]
        rfl

variable (f elf) in
theorem elfSegments_returns : ∃ o, result f (elfSegments elf) = .ok o := by
  cases elf with
  | none => exact ⟨none, rfl⟩
  | some e => exact ⟨_, result_elfSegments⟩

theorem steps_elfSection (attr : ElfSectionAttribute) (value : U64) {t : Table}
    (ht : result f (elfSections elf) = .ok (some t)) :
    Steps f (fun i => elfSection elf i attr value)
      (Passes f (attr = .none) (elfSectionAttribute · attr) value t) t.entry t.length.toNat := by
  simp only [elfSection_eq_search]
  exact steps_search (elfSectionAttribute_returns attr) ht

theorem steps_elfDynamic (attr : ElfDynamicAttribute) (value : U64) {t : Table}
    (ht : result f (elfDynamics elf) = .ok (some t)) :
    Steps f (fun i => elfDynamic elf i attr value)
      (Passes f (attr = .none) (elfDynamicAttribute · attr) value t) t.entry t.length.toNat := by
  simp only [elfDynamic_eq_search]
  exact steps_search (elfDynamicAttribute_returns attr) ht

theorem steps_elfSegment (attr : ElfSegmentAttribute) (value : U64) {t : Table}
    (ht : result f (elfSegments elf) = .ok (some t)) :
    Steps f (fun i => elfSegment elf i attr value)
      (Passes f (attr = .none) (elfSegmentAttribute · attr) value t) t.entry t.length.toNat := by
  simp only [elfSegment_eq_search]
  exact steps_search (elfSegmentAttribute_returns attr) ht

/-- Where not every entry passes, a 32-bit field passes when it is the value. -/
theorem passes_iff_of_wide {all : Prop} {field : U64 → ElfProg U64} {t : Table} {k : Nat}
    {found : U32} (hall : ¬ all)
    (hfield : result f (field (t.entry k)) = .ok (found.setWidth 64)) (value : U32) :
    Passes f all field (value.setWidth 64) t k ↔ found = value := by
  unfold Passes
  rw [hfield, Except.ok.injEq, setWidth_inj]
  exact or_iff_right hall

theorem passes_segmentType_iff (type : U32) (t : Table) (k : Nat) :
    Passes f (ElfSegmentAttribute.type = .none) (elfSegmentAttribute · .type)
      (type.setWidth 64) t k ↔ (f.segmentAt (t.entry k)).type = type := by
  refine passes_iff_of_wide (by decide) ?_ type
  rw [elfSegmentAttribute, ElfSegment.pType, result_bind, result_fetch32]
  rfl

theorem passes_sectionType_iff (type : U32) (t : Table) (k : Nat) :
    Passes f (ElfSectionAttribute.type = .none) (elfSectionAttribute · .type)
      (type.setWidth 64) t k ↔ (f.sectionAt (t.entry k)).type = type := by
  refine passes_iff_of_wide (by decide) ?_ type
  rw [elfSectionAttribute, ElfSection.shType, result_bind, result_fetch32]
  rfl

/-- What a running maximum over the `PT_LOAD` headers ends with. -/
theorem largestAlignment_foldl {t : Table} {l : List Nat}
    (hmem : ∀ k, k ∈ l ↔ k < t.length.toNat ∧ (f.segmentAt (t.entry k)).type = ptLoad) :
    LargestAlignment f t (l.foldl (maxBelow 0x200000 (f.alignAt t)) 0) := by
  refine ⟨fun k hk htype hsmall => ?_, ?_⟩
  · have hin : k ∈ l := (hmem k).mpr ⟨hk, htype⟩
    exact (le_foldl_maxBelow 0x200000 (f.alignAt t) l 0).2 k hin hsmall
  · obtain hzero | ⟨k, hk, hsmall, heq⟩ := foldl_maxBelow_attained 0x200000 (f.alignAt t) l 0
    · exact Or.inl hzero
    · obtain ⟨hlt, htype⟩ := (hmem k).mp hk
      exact Or.inr ⟨k, hlt, htype, hsmall, heq⟩

theorem elfLargestAlignment_largest {t : Table}
    (ht : result f (elfSegments elf) = .ok (some t)) :
    ∃ a, result f (elfLargestAlignment elf) = .ok a ∧ LargestAlignment f t a := by
  have hlength := t.length.isLt
  have hres := result_elfLargestAlignmentLoop (steps_elfSegment .type (ptLoad.setWidth 64) ht)
    65536 0 0 (Nat.zero_le _) (by omega)
  rw [Nat.sub_zero] at hres
  refine ⟨_, hres, largestAlignment_foldl fun k => ?_⟩
  rw [List.mem_filter, decide_eq_true_iff, passes_segmentType_iff, ← List.range_eq_range',
    List.mem_range]

/-- **The cursor protocol.**  For every file, table, attribute and value. -/
theorem cursors_enumerate (f : File) (elf : Option Elf) :
    (∀ attr value t, result f (elfSections elf) = .ok (some t) →
      Enumerates f (fun i => elfSection elf i attr value) t
        (Passes f (attr = .none) (elfSectionAttribute · attr) value t)) ∧
    (∀ attr value t, result f (elfSegments elf) = .ok (some t) →
      Enumerates f (fun i => elfSegment elf i attr value) t
        (Passes f (attr = .none) (elfSegmentAttribute · attr) value t)) ∧
    (∀ attr value t, result f (elfDynamics elf) = .ok (some t) →
      Enumerates f (fun i => elfDynamic elf i attr value) t
        (Passes f (attr = .none) (elfDynamicAttribute · attr) value t)) ∧
    ∃ a, result f (elfLargestAlignment elf) = .ok a ∧
      (∀ t, result f (elfSegments elf) = .ok (some t) → LargestAlignment f t a) ∧
      (result f (elfSegments elf) = .ok none → a = 0) := by
  refine ⟨fun attr value t ht => ?_, fun attr value t ht => ?_, fun attr value t ht => ?_, ?_⟩
  · exact enumerates_of_steps (steps_elfSection attr value ht)
  · exact enumerates_of_steps (steps_elfSegment attr value ht)
  · exact enumerates_of_steps (steps_elfDynamic attr value ht)
  · obtain ⟨o, ho⟩ := elfSegments_returns f elf
    cases o with
    | some t =>
        obtain ⟨a, hres, hlargest⟩ := elfLargestAlignment_largest ho
        refine ⟨a, hres, fun t' ht' => ?_, fun hnone => ?_⟩
        · rw [← Option.some.inj (Except.ok.inj (ho.symm.trans ht'))]
          exact hlargest
        · exact absurd (Except.ok.inj (ho.symm.trans hnone)) nofun
    | none =>
        refine ⟨0, ?_, fun t ht => absurd (Except.ok.inj (ho.symm.trans ht)) nofun, fun _ => rfl⟩
        rw [elfLargestAlignment, elfLargestAlignmentLoop, elfSegment_eq_search, search, result_bind,
          result_bind, ho]
        rfl

/-- Three program headers, of the types `PT_LOAD`, `PT_NOTE` and `PT_LOAD`. -/
def twoLoadsFile : File :=
  File.ofBytes (({ phoff := 64, shoff := 0, phnum := 3, shnum := 0 } : Header).bytes ++
    (⟨ptLoad, 5, 0, 0, 0, 1, 1, 0x1000⟩ : Segment).bytes ++
    (⟨4, 4, 0, 0, 0, 1, 1, 4⟩ : Segment).bytes ++
    (⟨ptLoad, 6, 0, 0, 0x4000, 1, 1, 0x4000⟩ : Segment).bytes)

/-- The two loadable ones are visited. -/
theorem twoLoadsFile_enumerated :
    Enumerates twoLoadsFile (fun i => elfSegment (some ⟨232⟩) i .type (ptLoad.setWidth 64))
      twoLoadsFile.segmentTable
      (Passes twoLoadsFile (ElfSegmentAttribute.type = .none) (elfSegmentAttribute · .type)
        (ptLoad.setWidth 64) twoLoadsFile.segmentTable) := by
  refine (cursors_enumerate twoLoadsFile (some ⟨232⟩)).2.1 .type (ptLoad.setWidth 64) _ ?_
  have hph : twoLoadsFile.phoff ≠ 0 := by decide +kernel
  rw [result_elfSegments, if_neg hph]

end LibPS4
