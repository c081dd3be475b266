/-
String tables: offsets and indices.

A string table is given to these functions as a pointer and a size, and a string of it is
named by its offset or by its number.  An offset may lie inside a string, so every tail of
a string of the table has one; a number may not.  `elfStringToOffset` finds the first
offset at which the string asked for stands, and the final terminator of the table is what
keeps it inside: a comparison cannot get past it, since the string asked for has none
before its end.

`elfStringToIndex` makes the same search and counts terminators on the way, so it returns
the number of the first string that *ends in* the one asked for.  That is the number of
the string itself only if no earlier string has it as a tail.
-/
import LibPS4.Base.Strings
import LibPS4.Proofs.SectionNames

namespace LibPS4

open Effects Prog

variable {f : File} {mem size : U64} {str : List Byte}

/-- The C string at `p` is `str`. -/
def File.Spells (f : File) (p : U64) (str : List Byte) : Prop :=
  ∀ j ≤ str.length, f (p + BitVec.ofNat 64 j) = str.getD j 0

instance (p : U64) : Decidable (f.Spells p str) := Nat.decidableBallLE _ _

/-- A string table: it has a last byte, and that byte is a terminator. -/
structure StringTable (f : File) (mem size : U64) : Prop where
  nonempty : 0 < size.toNat
  terminated : f (mem + BitVec.ofNat 64 (size.toNat - 1)) = 0

theorem charAt_eq (mem : U64) (i j : Nat) :
    f.charAt mem i j = f (mem + BitVec.ofNat 64 i + BitVec.ofNat 64 j) := by
  unfold File.charAt
  rw [BitVec.ofNat_add, BitVec.add_assoc]

theorem matchesAt_iff_spells (h : ShortName str) (mem : U64) (i : Nat) :
    f.matchesAt mem str i = true ↔ f.Spells (mem + BitVec.ofNat 64 i) str := by
  rw [matchesAt_iff h]
  simp only [charAt_eq]
  exact Iff.rfl

/-! ### Offsets -/

/-- A comparison that has not stopped is still before the final terminator. -/
theorem StringTable.inside (ht : StringTable f mem size) {i j : Nat} (hi : i < size.toNat)
    (hagree : f.AgreesBefore mem str i j) : i + j < size.toNat := by
  refine Nat.not_le.mp fun hle => ?_
  have hnonempty := ht.nonempty
  obtain ⟨hsame, hne⟩ := hagree (size.toNat - 1 - i) (by omega)
  have hlast : f.charAt mem i (size.toNat - 1 - i) = 0 := by
    unfold File.charAt
    rw [Nat.add_sub_cancel' (by omega)]
    exact ht.terminated
  exact hne (hsame.symm.trans hlast)

/-- What the scan for a string reads stays in the table. -/
theorem StringTable.readsIn (ht : StringTable f mem size) (str : List Byte) :
    ReadsIn f (fun a => (a - mem).toNat < size.toNat) (elfStringToOffset mem size (some str)) := by
  rw [readsIn_elfStringToOffset]
  intro i hi _ j _ hagree
  have hinside := ht.inside hi hagree
  have hlt := size.isLt
  show (mem + BitVec.ofNat 64 (i + j) - mem).toNat < size.toNat
  rw [toNat_add_ofNat_sub mem (by omega)]
  exact hinside

/-- The least offset below `size` where the string stands, and 0 when there is none. -/
def LeastOffset (f : File) (mem size : U64) (str : List Byte) (r : U32) : Prop :=
  (r.toNat < size.toNat ∧ f.Spells (mem + r.setWidth 64) str ∧
    (∀ j < r.toNat, ¬ f.Spells (mem + BitVec.ofNat 64 j) str) ∧
    ∃ p, elfStringFromOffset (some mem) size r = some p ∧ f.Spells p str) ∨
  ((∀ i < size.toNat, ¬ f.Spells (mem + BitVec.ofNat 64 i) str) ∧ r = 0)

theorem setWidth_ofNat {i : Nat} (h : i < 2 ^ 32) :
    (BitVec.ofNat 32 i).setWidth 64 = BitVec.ofNat 64 i := by
  apply BitVec.eq_of_toNat_eq
  rw [BitVec.toNat_setWidth, BitVec.toNat_ofNat, BitVec.toNat_ofNat, Nat.mod_eq_of_lt h]

/-- A found offset is returned whole. -/
theorem leastOffset_of_first (hsize : size.toNat ≤ 2 ^ 32) {o : Option Nat}
    (h : First (fun i => f.Spells (mem + BitVec.ofNat 64 i) str) size.toNat o) :
    LeastOffset f mem size str (BitVec.ofNat 32 (o.getD 0)) := by
  cases o with
  | none => exact Or.inr ⟨h, rfl⟩
  | some i =>
      obtain ⟨hi, hspells, hbefore⟩ := h
      have hlt : i < 2 ^ 32 := Nat.lt_of_lt_of_le hi hsize
      have hwide := setWidth_ofNat hlt
      left
      rw [Option.getD_some, toNat_offset hlt, hwide]
      refine ⟨hi, hspells, hbefore, mem + BitVec.ofNat 64 i, ?_, hspells⟩
      have hinside : ¬ size ≤ BitVec.ofNat 64 i := by
        rw [BitVec.le_def, BitVec.toNat_ofNat, Nat.mod_eq_of_lt (by omega)]
        omega
      rw [elfStringFromOffset, hwide, if_neg hinside]

/-- **The search for an offset.**  It stays in the table and returns the least offset where
the string stands. -/
theorem elfStringToOffset_least (f : File) (mem size : U64) (str : List Byte)
    (ht : StringTable f mem size) (hsize : size.toNat ≤ 2 ^ 32) (h : ShortName str) :
    ReadsIn f (fun a => (a - mem).toNat < size.toNat) (elfStringToOffset mem size (some str)) ∧
      ∃ r, result f (elfStringToOffset mem size (some str)) = .ok r ∧
        LeastOffset f mem size str r := by
  refine ⟨ht.readsIn str, ?_⟩
  obtain ⟨o, hfirst, hres⟩ := elfStringToOffset_isFirst (f := f) mem size str
  refine ⟨BitVec.ofNat 32 (o.getD 0), hres, ?_⟩
  refine leastOffset_of_first hsize (hfirst.congr fun i _ => ?_)
  exact matchesAt_iff_spells h mem i

/-- The strings `ab`, `b` and `b`, in this order. -/
def tailFile : File := File.ofBytes [0x61, 0x62, 0, 0x62, 0, 0x62, 0]

theorem tailFile_table : StringTable tailFile 0 7 := ⟨by decide, by decide⟩

/-- The string `b` is found as a tail of `ab`. -/
theorem tailFile_least : ∃ r, result tailFile (elfStringToOffset 0 7 (some [0x62])) = .ok r ∧
    LeastOffset tailFile 0 7 [0x62] r :=
  (elfStringToOffset_least tailFile 0 7 [0x62] tailFile_table (by decide)
    ⟨by decide, by decide⟩).2

/-! ### Indices -/

/-- The strings of a table. -/
def File.strings (f : File) (mem size : U64) : List (List Byte) :=
  Terminated.strings 0 ((extent mem size.toNat).map f)

/-- The number of terminators among the first `i` bytes. -/
def File.terminators (f : File) (mem : U64) (i : Nat) : Nat := ((extent mem i).map f).count 0

theorem extent_add_one (a : U64) (n : Nat) :
    extent a (n + 1) = extent a n ++ [a + BitVec.ofNat 64 n] := by
  unfold extent
  rw [List.range_succ, List.map_append, List.map_singleton]

theorem terminators_succ (i : Nat) : f.terminators mem (i + 1)
    = f.terminators mem i + if f (mem + BitVec.ofNat 64 i) = 0 then 1 else 0 := by
  unfold File.terminators
  rw [extent_add_one, List.map_append, List.count_append, List.map_singleton,
    List.count_singleton]
  simp only [beq_iff_eq]

section Table

variable (ht : StringTable f mem size)

include ht in
/-- The table is the text of its strings. -/
theorem StringTable.text_eq :
    Terminated.text 0 (f.strings mem size) = (extent mem size.toNat).map f := by
  refine Terminated.text_strings ?_
  have hsucc : size.toNat = size.toNat - 1 + 1 := (Nat.sub_add_cancel ht.nonempty).symm
  rw [hsucc, extent_add_one, List.map_append, List.map_singleton, List.getLast?_concat,
    ht.terminated]

include ht in
theorem StringTable.length_text :
    (Terminated.text 0 (f.strings mem size)).length = size.toNat := by
  rw [ht.text_eq, List.length_map, extent, List.length_map, List.length_range]

include ht in
theorem StringTable.getD_text {i : Nat} (hi : i < size.toNat) :
    (Terminated.text 0 (f.strings mem size)).getD i 0 = f (mem + BitVec.ofNat 64 i) := by
  rw [ht.text_eq]
  simp [extent, hi]

include ht in
theorem StringTable.count_take {i : Nat} (hi : i ≤ size.toNat) :
    ((Terminated.text 0 (f.strings mem size)).take i).count 0 = f.terminators mem i := by
  rw [ht.text_eq, File.terminators, ← List.map_take]
  congr 2
  unfold extent
  rw [← List.map_take, List.take_range, Nat.min_eq_left hi]

include ht in
/-- A terminator of the table and the number of the string after it. -/
theorem StringTable.terminator_iff {i k : Nat} (hi : i + 1 < size.toNat) :
    f (mem + BitVec.ofNat 64 i) = 0 ∧ f.terminators mem i = k ↔
      k + 1 < (f.strings mem size).length ∧
        i + 1 = Terminated.start (f.strings mem size) (k + 1) := by
  have hz : ∀ s ∈ f.strings mem size, 0 ∉ s := fun s hs => Terminated.notMem_of_mem_strings hs
  have hinside : i < size.toNat := Nat.lt_of_succ_lt hi
  have htext : i < (Terminated.text 0 (f.strings mem size)).length := by
    rw [ht.length_text]
    exact hinside
  rw [← ht.getD_text hinside, ← ht.count_take (Nat.le_of_lt hinside)]
  constructor
  · rintro ⟨hterm, rfl⟩
    obtain ⟨k, hk, hstart, hcount⟩ := Terminated.terminator_at hz htext hterm
    rw [hcount]
    refine ⟨Nat.lt_of_le_of_ne hk fun hlast => ?_, hstart⟩
    -- The terminator of the last string is the last byte of the table.
    rw [hlast, Terminated.start_length 0, ht.length_text] at hstart
    omega
  · rintro ⟨hk, hstart⟩
    have hget := List.getElem?_eq_getElem (Nat.lt_of_succ_lt hk)
    rw [Terminated.start_succ hget] at hstart
    rw [Nat.succ.inj hstart]
    refine ⟨?_, Terminated.count_take_text hz hget (Nat.le_refl _)⟩
    rw [Terminated.getD_text hget (Nat.le_refl _), getD_length]

end Table

/-- One iteration of the loop of `elfStringFromIndex`. -/
def fromIndexBody (mem : U64) (index : U32) (i : Nat) (j : U64) : ElfProg (U64 ⊕ U64) := do
  if (← fetch8 (mem + BitVec.ofNat 64 i)) = 0 then
    if j + 1 = index.setWidth 64 then
      return .inl (mem + BitVec.ofNat 64 i + 1)
    return .inr (j + 1)
  return .inr j

/-- The counter is the number of terminators before the index. -/
theorem result_fromIndexBody (mem : U64) (index : U32) (i : Nat) :
    result f (fromIndexBody mem index i (BitVec.ofNat 64 (f.terminators mem i)))
      = .ok (if f (mem + BitVec.ofNat 64 i) = 0 ∧
            BitVec.ofNat 64 (f.terminators mem i + 1) = index.setWidth 64
          then .inl (mem + BitVec.ofNat 64 i + 1)
          else .inr (BitVec.ofNat 64 (f.terminators mem (i + 1)))) := by
  rw [fromIndexBody, result_bind, result_fetch8, ok_bind, terminators_succ]
  by_cases hterm : f (mem + BitVec.ofNat 64 i) = 0
  · rw [if_pos hterm, if_pos hterm, BitVec.ofNat_add]
    by_cases hindex : BitVec.ofNat 64 (f.terminators mem i) + 1 = index.setWidth 64
    · rw [if_pos hindex, if_pos ⟨hterm, hindex⟩]
      rfl
    · rw [if_neg hindex, if_neg fun hc => hindex hc.2]
      rfl
  · rw [if_neg hterm, if_neg hterm, if_neg fun hc => hterm hc.1]
    rfl

/-- The loop of `elfStringFromIndex` stops before the start of the string. -/
theorem StringTable.fromIndex_first (ht : StringTable f mem size) {index : U32} {k : Nat}
    (hk : index.toNat = k + 1) :
    ∃ o, First (fun i => k + 1 < (f.strings mem size).length ∧
        i + 1 = Terminated.start (f.strings mem size) (k + 1)) (size.toNat - 1) o ∧
      result f (elfStringFromIndex (some mem) size index)
        = .ok (o.map fun i => mem + BitVec.ofNat 64 i + 1) := by
  have hzero : index ≠ 0 := by
    intro hc
    rw [hc] at hk
    exact absurd hk.symm (Nat.succ_ne_zero k)
  have hbound : (size - 1).toNat = size.toNat - 1 := by
    have hnonempty := ht.nonempty
    bv_omega
  obtain ⟨o, hfirst, hres⟩ := scanFrom_isFirst (result_fromIndexBody (f := f) mem index)
    (size - 1).toNat
  rw [elfStringFromIndex, if_neg hzero]
  refine ⟨o, ?_, hres⟩
  rw [hbound] at hfirst
  refine hfirst.congr fun i hi => ?_
  rw [← ht.terminator_iff (by omega)]
  refine and_congr_right fun _ => ?_
  -- The counter is below the size of the table, so it does not wrap.
  have hlt := size.isLt
  have hle : f.terminators mem i ≤ i := by
    refine Nat.le_trans List.count_le_length ?_
    rw [List.length_map, extent, List.length_map, List.length_range]
  rw [← BitVec.toNat_inj, BitVec.toNat_ofNat, BitVec.toNat_setWidth, hk,
    Nat.mod_eq_of_lt (by omega), Nat.mod_eq_of_lt (by omega)]
  omega

/-- Where a string of the table starts, and nothing for a number that no string has. -/
theorem StringTable.result_elfStringFromIndex (ht : StringTable f mem size) (index : U32) :
    result f (elfStringFromIndex (some mem) size index)
      = .ok (if index.toNat < (f.strings mem size).length
          then some (mem + BitVec.ofNat 64 (Terminated.start (f.strings mem size) index.toNat))
          else none) := by
  cases hindex : index.toNat with
  | zero =>
      have hpos : 0 < (f.strings mem size).length :=
        List.length_pos_iff.mpr (Terminated.strings_ne_nil 0 _)
      have hzero : index = 0 := BitVec.eq_of_toNat_eq hindex
      rw [elfStringFromIndex, if_pos hzero, if_pos hpos, Terminated.start_zero,
        show mem + BitVec.ofNat 64 0 = mem from BitVec.add_zero mem, pure_eq, result_ret]
  | succ k =>
      obtain ⟨o, hfirst, hres⟩ := ht.fromIndex_first hindex
      rw [hres]
      by_cases hin : k + 1 < (f.strings mem size).length
      · have hend := Terminated.end_lt 0 (List.getElem?_eq_getElem hin)
        have hprev := Terminated.start_succ (List.getElem?_eq_getElem (Nat.lt_of_succ_lt hin))
        rw [ht.length_text] at hend
        obtain ⟨i, hi⟩ : ∃ i, Terminated.start (f.strings mem size) (k + 1) = i + 1 := ⟨_, hprev⟩
        have ho : o = some i := by
          refine hfirst.unique ⟨by omega, ⟨hin, hi.symm⟩, fun j hj hc => ?_⟩
          have heq := hc.2
          omega
        rw [ho, if_pos hin, Option.map_some, hi, BitVec.ofNat_add, BitVec.add_assoc]
        rfl
      · have ho : o = none := hfirst.unique fun j _ hc => hin hc.1
        rw [ho, if_neg hin]
        rfl

/-- What stands at a place is one string. -/
theorem spells_unique {p : U64} {a b : List Byte} (ha : 0 ∉ a) (hb : 0 ∉ b)
    (hspells : f.Spells p a) (hspells' : f.Spells p b) : a = b := by
  have hlength : ∀ {a b : List Byte}, 0 ∉ b → f.Spells p a → f.Spells p b →
      b.length ≤ a.length := by
    intro a b hb hsa hsb
    refine Nat.not_lt.mp fun hlt => hb ?_
    have hzero : b.getD a.length 0 = 0 := by
      rw [← hsb _ (Nat.le_of_lt hlt), hsa _ (Nat.le_refl _), getD_length]
    rw [List.getD_eq_getElem _ _ hlt] at hzero
    exact hzero ▸ List.getElem_mem hlt
  have hsame : a.length = b.length :=
    Nat.le_antisymm (hlength ha hspells' hspells) (hlength hb hspells hspells')
  refine List.ext_getElem hsame fun j hja hjb => ?_
  rw [← List.getD_eq_getElem _ 0 hja, ← List.getD_eq_getElem _ 0 hjb,
    ← hspells j (Nat.le_of_lt hja), ← hspells' j (Nat.le_of_lt hjb)]

/-- At a distance into a string of the table stands the rest of it. -/
theorem StringTable.spells_iff (ht : StringTable f mem size) {k d : Nat} {s : List Byte}
    (hk : (f.strings mem size)[k]? = some s) (hd : d ≤ s.length) (hstr : 0 ∉ str) :
    f.Spells (mem + BitVec.ofNat 64 (Terminated.start (f.strings mem size) k + d)) str ↔
      s.drop d = str := by
  have hend := Terminated.end_lt 0 hk
  rw [ht.length_text] at hend
  have hs : 0 ∉ s.drop d := fun hmem =>
    Terminated.notMem_of_mem_strings (List.mem_of_getElem? hk) (List.mem_of_mem_drop hmem)
  have hrest : f.Spells (mem + BitVec.ofNat 64 (Terminated.start (f.strings mem size) k + d))
      (s.drop d) := by
    intro j hj
    rw [List.length_drop] at hj
    rw [BitVec.add_assoc, ← BitVec.ofNat_add, ← ht.getD_text (by omega), Nat.add_assoc,
      Terminated.getD_text hk (by omega)]
    simp only [List.getD_eq_getElem?_getD, List.getElem?_drop]
  constructor
  · intro hspells
    exact spells_unique hs hstr hrest hspells
  · intro heq
    rw [← heq]
    exact hrest

/-- One iteration of the loop of `elfStringToIndex`. -/
def toIndexBody (mem : U64) (str : List Byte) (i : Nat) (index : U64) : ElfProg (U64 ⊕ U64) := do
  if ← stringMatches mem str i then
    return .inl index
  if (← fetch8 (mem + BitVec.ofNat 64 i)) = 0 then
    return .inr (index + 1)
  return .inr index

theorem result_toIndexBody (mem : U64) (str : List Byte) (i : Nat) :
    result f (toIndexBody mem str i (BitVec.ofNat 64 (f.terminators mem i)))
      = .ok (if f.matchesAt mem str i = true then .inl (BitVec.ofNat 64 (f.terminators mem i))
          else .inr (BitVec.ofNat 64 (f.terminators mem (i + 1)))) := by
  rw [toIndexBody, result_bind, result_stringMatches, ok_bind]
  by_cases hmatch : f.matchesAt mem str i = true
  · rw [if_pos hmatch, if_pos hmatch]
    rfl
  · rw [if_neg hmatch, if_neg hmatch, result_bind, result_fetch8, ok_bind, terminators_succ]
    by_cases hterm : f (mem + BitVec.ofNat 64 i) = 0
    · rw [if_pos hterm, if_pos hterm, BitVec.ofNat_add]
      rfl
    · rw [if_neg hterm, if_neg hterm]
      rfl

/-- The first string that ends in the one asked for. -/
theorem StringTable.toIndex_first (ht : StringTable f mem size) (h : ShortName str)
    (hmem : str ∈ f.strings mem size) :
    ∃ j, First (fun j => ∃ s, (f.strings mem size)[j]? = some s ∧ str <:+ s)
        (f.strings mem size).length (some j) ∧
      result f (elfStringToIndex mem size (some str)) = .ok (BitVec.ofNat 32 j) := by
  have hz : ∀ s ∈ f.strings mem size, 0 ∉ s := fun s hs => Terminated.notMem_of_mem_strings hs
  have hstr : 0 ∉ str := hz str hmem
  have hend : ∀ {k s}, (f.strings mem size)[k]? = some s →
      Terminated.start (f.strings mem size) k + s.length < size.toNat := by
    intro k s hk
    rw [← ht.length_text]
    exact Terminated.end_lt 0 hk
  obtain ⟨o, hfirst, hres⟩ := scanFrom_isFirst (result_toIndexBody (f := f) mem str) size.toNat
  replace hfirst := hfirst.congr fun i _ => matchesAt_iff_spells h mem i
  cases o with
  | none =>
      obtain ⟨k, hk, hget⟩ := List.mem_iff_getElem.mp hmem
      have hat : (f.strings mem size)[k]? = some str := by rw [List.getElem?_eq_getElem hk, hget]
      have hspells := (ht.spells_iff hat (Nat.zero_le _) hstr).mpr List.drop_zero
      exact absurd hspells (hfirst _ (Nat.lt_of_le_of_lt (Nat.le_add_right _ _) (hend hat)))
  | some i =>
      obtain ⟨hi, hspells, hbefore⟩ := hfirst
      obtain ⟨j, s, d, hj, hd, rfl⟩ := Terminated.exists_at 0 (f.strings mem size) i
        (by rw [ht.length_text]; exact hi)
      have hcount : f.terminators mem (Terminated.start (f.strings mem size) j + d) = j := by
        rw [← ht.count_take (Nat.le_of_lt hi)]
        exact Terminated.count_take_text hz hj hd
      refine ⟨j, ⟨(List.getElem?_eq_some_iff.mp hj).1, ⟨s, hj, ?_⟩, ?_⟩, ?_⟩
      · rw [← (ht.spells_iff hj hd hstr).mp hspells]
        exact List.drop_suffix d s
      · -- A string before it that ends in `str` would have been found first.
        rintro j' hj' ⟨s', hs', t, rfl⟩
        have hat := (ht.spells_iff hs' (Nat.le_add_right t.length _ |>.trans_eq
          List.length_append.symm) hstr).mpr List.drop_left
        have hnext := Terminated.start_succ hs'
        have hmono : Terminated.start (f.strings mem size) (j' + 1)
            ≤ Terminated.start (f.strings mem size) j := Terminated.start_mono hj'
        rw [List.length_append] at hnext
        exact hbefore _ (by omega) hat
      · show result f (scanFrom (toIndexBody mem str) size.toNat 0 0 >>= _) = _
        rw [result_bind, show (0 : U64) = BitVec.ofNat 64 (f.terminators mem 0) from rfl, hres,
          ok_bind, Option.map_some, hcount]
        show Except.ok ((BitVec.ofNat 64 j).setWidth 32) = _
        rw [BitVec.setWidth_ofNat_of_le (by decide)]

/-! ### The round trip -/

/-- From number `k` to the string and from the string to its first number. -/
structure IndexRoundTrip (f : File) (mem size : U64) (k : Nat) (s : List Byte) : Prop where
  start : result f (elfStringFromIndex (some mem) size (BitVec.ofNat 32 k))
    = .ok (some (mem + BitVec.ofNat 64 (Terminated.start (f.strings mem size) k)))
  least : ∃ k', First (fun i => (f.strings mem size)[i]? = some s) (f.strings mem size).length
      (some k') ∧
    result f (elfStringToIndex mem size (some s)) = .ok (BitVec.ofNat 32 k')
  again : ∃ index p, result f (elfStringToIndex mem size (some s)) = .ok index ∧
    result f (elfStringFromIndex (some mem) size index) = .ok (some p) ∧ f.Spells p s
  beyond : ∀ index : U32, (f.strings mem size).length ≤ index.toNat →
    result f (elfStringFromIndex (some mem) size index) = .ok none

/-- No string before the first one equal to `s` ends in `s`. -/
def NoEarlierTail (f : File) (mem size : U64) (s : List Byte) : Prop :=
  ∀ j : Nat, (∀ i ≤ j, (f.strings mem size)[i]? ≠ some s) →
    ∀ s', (f.strings mem size)[j]? = some s' → ¬ s <:+ s'

theorem StringTable.length_strings_le (ht : StringTable f mem size) :
    (f.strings mem size).length ≤ size.toNat := by
  have hz : ∀ s ∈ f.strings mem size, 0 ∉ s := fun s hs => Terminated.notMem_of_mem_strings hs
  rw [← ht.length_text, ← Terminated.count_text hz]
  exact List.count_le_length

/-- **Numbers and strings.**  For every table with a final terminator and every string of it
that the search compares to its end. -/
theorem elfStringToIndex_roundTrip_iff (f : File) (mem size : U64) (k : Nat) (s : List Byte)
    (ht : StringTable f mem size) (hsize : size.toNat < 2 ^ 32)
    (hk : (f.strings mem size)[k]? = some s) (hs : s.length < elfMaximalStringLength) :
    IndexRoundTrip f mem size k s ↔ NoEarlierTail f mem size s := by
  have hmem : s ∈ f.strings mem size := List.mem_of_getElem? hk
  have hzero : 0 ∉ s := Terminated.notMem_of_mem_strings hmem
  have hshort : ShortName s := ⟨fun b hb hc => hzero (hc ▸ hb), hs⟩
  have hcount := ht.length_strings_le
  obtain ⟨j, hfirst, hres⟩ := ht.toIndex_first hshort hmem
  obtain ⟨hj, ⟨s₁, hs₁, htail⟩, hbefore⟩ := hfirst
  constructor
  · intro hround i hnone s' hs' hsuffix
    obtain ⟨k', ⟨hk', heq, -⟩, hreturned⟩ := hround.least
    rw [hres] at hreturned
    have hsame : j = k' := by
      have hnat := congrArg BitVec.toNat (Except.ok.inj hreturned)
      rwa [toNat_offset (by omega), toNat_offset (by omega)] at hnat
    have hle : j ≤ i := Nat.not_lt.mp fun hlt => hbefore i hlt ⟨s', hs', hsuffix⟩
    exact hnone j hle (hsame ▸ heq)
  · intro hnone
    -- The string found is equal to `s`, or one before it would be.
    have hequal : ∃ i ≤ j, (f.strings mem size)[i]? = some s := by
      by_contra hc
      exact hnone j (fun i hi heq => hc ⟨i, hi, heq⟩) s₁ hs₁ htail
    have hat : (f.strings mem size)[j]? = some s := by
      obtain ⟨i, hi, heq⟩ := hequal
      obtain hlt | rfl := Nat.lt_or_eq_of_le hi
      · exact absurd ⟨s, heq, List.suffix_refl s⟩ (hbefore i hlt)
      · exact heq
    have hstarts : ∀ i, i < (f.strings mem size).length →
        result f (elfStringFromIndex (some mem) size (BitVec.ofNat 32 i))
          = .ok (some (mem + BitVec.ofNat 64 (Terminated.start (f.strings mem size) i))) := by
      intro i hi
      rw [ht.result_elfStringFromIndex, toNat_offset (by omega), if_pos hi]
    refine ⟨hstarts k (List.getElem?_eq_some_iff.mp hk).1, ⟨j, ⟨hj, hat, fun i hi heq => ?_⟩, hres⟩,
      ⟨_, _, hres, hstarts j hj, ?_⟩, fun index hindex => ?_⟩
    · exact hbefore i hi ⟨s, heq, List.suffix_refl s⟩
    · exact (ht.spells_iff hat (Nat.zero_le _) hzero).mpr List.drop_zero
    · rw [ht.result_elfStringFromIndex, if_neg (Nat.not_lt.mpr hindex)]

theorem tailFile_strings : tailFile.strings 0 7 = [[0x61, 0x62], [0x62], [0x62]] := by
  decide +kernel

/-- The first string is numbered as it should. -/
theorem tailFile_roundTrip : IndexRoundTrip tailFile 0 7 0 [0x61, 0x62] := by
  refine (elfStringToIndex_roundTrip_iff tailFile 0 7 0 [0x61, 0x62] tailFile_table (by decide)
    (by rw [tailFile_strings]; rfl) (by decide)).mpr fun j hnone => ?_
  have hfirst := hnone 0 (Nat.zero_le j)
  rw [tailFile_strings] at hfirst
  exact absurd rfl hfirst

/-- The second is a tail of the first and gets its number. -/
theorem tailFile_not_roundTrip :
    ¬ ∀ (f : File) (mem size : U64) (k : Nat) (s : List Byte), StringTable f mem size →
      size.toNat < 2 ^ 32 → (f.strings mem size)[k]? = some s →
      s.length < elfMaximalStringLength → IndexRoundTrip f mem size k s := by
  intro h
  have hround := h tailFile 0 7 1 [0x62] tailFile_table (by decide) (by rw [tailFile_strings]; rfl)
    (by decide)
  obtain ⟨k', ⟨-, heq, -⟩, hres⟩ := hround.least
  have hzero : result tailFile (elfStringToIndex 0 7 (some [0x62])) = .ok 0 := by decide +kernel
  rw [hzero] at hres
  rw [tailFile_strings] at heq
  match k' with
  | 0 => exact absurd heq (by decide)
  | 1 => exact absurd hres (by decide)
  | 2 => exact absurd hres (by decide)
  | k + 3 => exact absurd heq (by simp)

end LibPS4
