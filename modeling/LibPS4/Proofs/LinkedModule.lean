/-
From what is linked to what is loaded.

A linked module is described without any bytes of the format: parts with their addresses
and contents, the values of the symbols, and the two lists of relocations.  What it should
look like in memory is said on the description alone.  The file that is laid out for it
goes through the loader, and the memory is that.

So the headers, tables, names and widths between the two ends cancel out: the loader
undoes the layout.
-/
import LibPS4.Proofs.FileLayout
import LibPS4.Proofs.LoadedImage

namespace LibPS4

open Effects Prog
open X64 (HoldsBytes holdsBytes_append)

/-! ### Descriptions -/

/-- A part of the image: where it goes, and its contents, with zeros behind them. -/
structure Part where
  flags : U32
  addr : U64
  size : U64
  contents : List Byte

def Part.Covers (p : Part) (x : U64) : Prop :=
  p.addr.toNat ≤ x.toNat ∧ x.toNat < p.addr.toNat + p.size.toNat

def Part.isExecutable (p : Part) : Bool := p.flags &&& pfX ≠ 0

structure LinkedModule where
  parts : List Part
  symbols : List U64
  dyn : List Rela
  plt : List Rela

namespace LinkedModule

/-- Those of `.rela.dyn` go first. -/
def relas (m : LinkedModule) : List Rela := m.dyn ++ m.plt

/-- What the slot of a relocation points to. -/
def target (m : LinkedModule) (r : Rela) : U64 :=
  if r.fullType = rX8664Relative.toNat then r.addend
  else if r.fullType = rX866464.toNat then m.symbols.getD r.fullSym 0 + r.addend
  else m.symbols.getD r.fullSym 0

/-- The base the loader adds to an address: that of the first part that has it, its end
included, and the executable one if there is none. -/
def rebased (m : LinkedModule) (w e v : U64) : U64 :=
  if (firstFlag Part.addr Part.size (fun p => p.flags &&& pfX) v m.parts).getD 1 ≠ 0 then e + v
  else w + v

/-- The base the loader adds is that of the part an address lies in: no part of the other kind
in front of it reaches up to the address, and none ends where the addresses do. -/
structure AliasesClear (m : LinkedModule) : Prop where
  noWrap : ∀ p ∈ m.parts, p.addr.toNat + p.size.toNat < 2 ^ 64
  notShadowed : NotShadowed Part.addr Part.size (fun _ => true) Part.isExecutable m.parts

/-- No slot that is relocated reaches offset `x`. -/
def Unrelocated (m : LinkedModule) (x : U64) : Prop :=
  ∀ r ∈ m.relas.takeWhile Rela.supported, x ∉ extent r.offset 8

/-! ### Its file -/

/-- `".data"`. -/
def dataName : List Byte := [0x2e, 0x64, 0x61, 0x74, 0x61]

/-- A `.rela.plt` section with these entries. -/
def relaPlt (relas : List Rela) : NamedSection :=
  { relaDyn (24 * relas.length) relas with name := relaPltName }

def sections (m : LinkedModule) : List NamedSection :=
  [dynsym m.symbols, relaDyn (24 * m.dyn.length) m.dyn, relaPlt m.plt,
    { name := dataName, type := 1, size := (m.parts.flatMap Part.contents).length,
      contents := m.parts.flatMap Part.contents }]

/-- Where the contents of the parts start in the file. -/
def dataOffset (m : LinkedModule) : Nat :=
  64 + 56 * m.parts.length + 64 * 6 + (nameBytes m.sections).length +
    (24 * m.symbols.length + 24 * m.dyn.length + 24 * m.plt.length)

/-- The program headers of some parts whose contents start at `offset`. -/
def layParts : List Part → Nat → List Segment
  | [], _ => []
  | p :: rest, offset =>
      ⟨ptLoad, p.flags, BitVec.ofNat 64 offset, p.addr, p.addr, BitVec.ofNat 64 p.contents.length,
        p.size, 0x1000⟩ :: layParts rest (offset + p.contents.length)

def segments (m : LinkedModule) : List Segment := layParts m.parts m.dataOffset

def file (m : LinkedModule) : File := File.ofBytes (fileBytes m.segments m.sections)

/-- The parts are apart and fit, the slots are apart, the relocations are of symbols there
are, and nothing is larger than the fields of the format and the loader. -/
structure WellFormed (m : LinkedModule) : Prop where
  partCount : m.parts.length < 2 ^ 16
  symbolCount : m.symbols.length < 2 ^ 16
  dynCount : m.dyn.length < 2 ^ 16
  pltCount : m.plt.length < 2 ^ 16
  bytes : (fileBytes m.segments m.sections).length ≤ 2 ^ 32
  contents : ∀ p ∈ m.parts, p.contents.length ≤ p.size.toNat
  noWrap : ∀ p ∈ m.parts, p.addr.toNat + p.size.toNat ≤ 2 ^ 64
  apart : m.parts.Pairwise fun p q => ∀ x, p.Covers x → ¬ q.Covers x
  narrow : ∀ r ∈ m.relas, r.fullType < 2 ^ 16 ∧ r.fullSym < m.symbols.length
  slots : m.relas.Pairwise fun r s => ∀ x ∈ extent r.offset 8, x ∉ extent s.offset 8

/-! ### The program headers -/

theorem getElem?_layParts : ∀ (l : List Part) (offset i : Nat),
    (layParts l offset)[i]? = l[i]?.map fun p =>
      ⟨ptLoad, p.flags, BitVec.ofNat 64 (offset + ((l.take i).flatMap Part.contents).length),
        p.addr, p.addr, BitVec.ofNat 64 p.contents.length, p.size, 0x1000⟩ := by
  intro l
  induction l with
  | nil => intro _ _; rfl
  | cons p l ih =>
      intro offset i
      cases i with
      | zero => rfl
      | succ i =>
          rw [layParts, List.getElem?_cons_succ, List.getElem?_cons_succ, ih]
          simp only [List.take_succ_cons, List.flatMap_cons, List.length_append, Nat.add_assoc]

@[simp] theorem length_layParts : ∀ (l : List Part) (offset : Nat),
    (layParts l offset).length = l.length := by
  intro l
  induction l with
  | nil => intro _; rfl
  | cons p l ih => intro offset; rw [layParts, List.length_cons, ih, List.length_cons]

theorem isLoad_of_mem : ∀ {l : List Part} {offset : Nat} {s : Segment}, s ∈ layParts l offset →
    s.isLoad = true := by
  intro l
  induction l with
  | nil => intro offset s hs; cases hs
  | cons p l ih =>
      intro offset s hs
      rcases List.mem_cons.mp hs with rfl | hs
      · rfl
      · exact ih hs

/-- What is kept of a part in its header. -/
theorem map_layParts {α : Type} (g : U64 → U64 → U32 → α) : ∀ (l : List Part) (offset : Nat),
    (layParts l offset).map (fun s => g s.paddr s.memsz s.flags)
      = l.map fun p => g p.addr p.size p.flags := by
  intro l
  induction l with
  | nil => intro _; rfl
  | cons p l ih => intro offset; rw [layParts, List.map_cons, List.map_cons, ih]

variable {m : LinkedModule}

theorem mem_segments {s : Segment} (hs : s ∈ m.segments) :
    ∃ p ∈ m.parts, s.paddr = p.addr ∧ s.memsz = p.size := by
  have hmem : (s.paddr, s.memsz) ∈ m.segments.map fun s => (s.paddr, s.memsz) :=
    List.mem_map_of_mem hs
  have hmap := map_layParts (fun addr size _ => (addr, size)) m.parts m.dataOffset
  rw [segments, hmap] at hmem
  obtain ⟨p, hp, heq⟩ := List.mem_map.mp hmem
  exact ⟨p, hp, (congrArg Prod.fst heq).symm, (congrArg Prod.snd heq).symm⟩

theorem length_segments : m.segments.length = m.parts.length := length_layParts _ _

theorem WellFormed.fits (h : m.WellFormed) : LayoutFits m.segments m.sections := by
  have hcount := h.partCount
  rw [← length_segments] at hcount
  exact ⟨hcount, by simp [sections], h.bytes⟩

/-- The names do not depend on what is linked. -/
def names : List (List Byte) := [dynsymName, relaDynName, relaPltName, dataName]

theorem map_name : m.sections.map NamedSection.name = names := rfl

theorem names_noZero : ∀ s ∈ m.sections, 0 ∉ s.name := by
  intro s hs
  have hnames : ∀ name ∈ names, 0 ∉ name := by decide
  exact hnames s.name (map_name ▸ List.mem_map_of_mem hs)

theorem WellFormed.laidOut (h : m.WellFormed) : LaidOut m.segments m.sections m.file :=
  laidOut_ofBytes h.fits

theorem WellFormed.segments_eq (h : m.WellFormed) : m.file.segments = m.segments :=
  h.laidOut.segments_eq h.fits

theorem filesz_of_mem (h : m.WellFormed) {s : Segment} (hs : s ∈ m.segments) :
    s.filesz.toNat ≤ s.memsz.toNat := by
  obtain ⟨i, hi⟩ := List.getElem?_of_mem hs
  rw [segments, getElem?_layParts] at hi
  obtain ⟨p, hp, rfl⟩ := Option.map_eq_some_iff.mp hi
  have hcontents := h.contents p (List.mem_of_getElem? hp)
  exact Nat.le_trans (Nat.mod_le _ _) hcontents

theorem WellFormed.loads (h : m.WellFormed) : LoadsWellFormed m.file := by
  refine ⟨fun s hs _ => ?_, fun s hs _ => ?_, ?_⟩
  · rw [h.segments_eq] at hs
    exact filesz_of_mem h hs
  · rw [h.segments_eq] at hs
    obtain ⟨p, hp, haddr, hsize⟩ := mem_segments hs
    rw [haddr, hsize]
    exact h.noWrap p hp
  · have hall : m.segments.filter Segment.isLoad = m.segments :=
      List.filter_eq_self.mpr fun s hs => isLoad_of_mem hs
    rw [h.segments_eq, hall]
    -- Only the addresses and sizes matter, and these are the parts'.
    have hapart : (m.parts.map fun p => (p.addr, p.size)).Pairwise fun a b : U64 × U64 =>
        ∀ x : U64, a.1.toNat ≤ x.toNat ∧ x.toNat < a.1.toNat + a.2.toNat →
          ¬ (b.1.toNat ≤ x.toNat ∧ x.toNat < b.1.toNat + b.2.toNat) :=
      List.pairwise_map.mpr h.apart
    rw [← map_layParts (fun addr size _ => (addr, size)) m.parts m.dataOffset] at hapart
    exact List.pairwise_map.mp hapart

theorem WellFormed.others (h : m.WellFormed) : OthersHarmless m.file := by
  intro before s after hsplit hnot
  have hs : s ∈ m.segments := by
    rw [← h.segments_eq, hsplit]
    exact List.mem_append_right _ List.mem_cons_self
  rw [isLoad_of_mem hs] at hnot
  cases hnot

/-! ### The tables -/

theorem name_eq {j : Nat} {s : NamedSection} (hs : m.sections[j]? = some s) :
    names.getD j [] = s.name := by
  rw [List.getD_eq_getElem?_getD, ← map_name (m := m), List.getElem?_map, hs]
  rfl

/-- None of the names the loader looks for is the end of one before. -/
theorem findable {j : Nat} (hj : j < 3) {s : NamedSection} (hs : m.sections[j]? = some s) :
    Findable m.sections j s.name := by
  have hnames : ∀ j < 3, names.getD j [] ≠ [] ∧ (∀ b ∈ names.getD j [], b ≠ 0) ∧
      (names.getD j []).length < elfMaximalStringLength ∧
      ∀ i < j, ¬ names.getD j [] <:+ names.getD i [] := by decide
  obtain ⟨hne, hzero, hlength, hfirst⟩ := hnames j hj
  rw [name_eq hs] at hne hzero hlength hfirst
  refine ⟨hne, ⟨hzero, hlength⟩, fun i hi t ht => ?_⟩
  rw [← name_eq ht]
  exact hfirst i hi

/-- The header of section `j`. -/
def header (m : LinkedModule) (j : Nat) (s : NamedSection) : Section :=
  sectionHeader m.segments m.sections j s

theorem WellFormed.named (h : m.WellFormed) (elf : Elf) {j : Nat} (hj : j < 3) {s : NamedSection}
    (hs : m.sections[j]? = some s) : m.file.named elf s.name = .ok (some (m.header j s)) :=
  h.laidOut.named_eq elf h.fits names_noZero hs (findable hj hs)

/-- A section of `n` entries of 24 bytes. -/
theorem count_header {j n : Nat} {s : NamedSection} (hent : s.entsize = 24)
    (hsize : s.size = 24 * n) (hn : n < 2 ^ 16) : (m.header j s).count = n := by
  have hentsize : (m.header j s).entsize.toNat = 24 := by
    show s.entsize.toNat = 24
    rw [hent]
    rfl
  have hbytes : (m.header j s).size.toNat = 24 * n := by
    show (BitVec.ofNat 64 s.size).toNat = 24 * n
    rw [hsize, BitVec.toNat_ofNat, Nat.mod_eq_of_lt (by omega)]
  rw [Section.count, hentsize, hbytes]
  omega

/-- Section `j` is a table of relocations. -/
structure RelaSection (m : LinkedModule) (j : Nat) (s : NamedSection) (l : List Rela) : Prop where
  number : j < 3
  at_ : m.sections[j]? = some s
  type : s.type = shtRela
  entsize : s.entsize = 24
  size : s.size = 24 * l.length
  contents : s.contents = l.flatMap Rela.bytes
  count : l.length < 2 ^ 16

section Tables

variable (h : m.WellFormed) (elf : Elf)
include h

theorem WellFormed.dynSection :
    m.RelaSection 1 (relaDyn (24 * m.dyn.length) m.dyn) m.dyn :=
  ⟨by decide, rfl, rfl, rfl, rfl, rfl, h.dynCount⟩

theorem WellFormed.pltSection : m.RelaSection 2 (relaPlt m.plt) m.plt :=
  ⟨by decide, rfl, rfl, rfl, rfl, rfl, h.pltCount⟩

variable {j : Nat} {s : NamedSection} {l : List Rela} (hs : m.RelaSection j s l)
include hs

theorem RelaSection.relaSection_eq : m.file.relaSection elf s.name = some (m.header j s) :=
  (relaSection_of_named (h.named elf hs.number hs.at_)).trans (if_pos hs.type)

theorem RelaSection.table_eq : result m.file (elfAddendRelocations (some elf) s.name)
    = .ok (some (m.header j s).table) := by
  have hent : (m.header j s).entsize = 24 := hs.entsize
  have htype : (m.header j s).type = shtRela := hs.type
  rw [elfAddendRelocations, result_elfNamedTable, h.named elf hs.number hs.at_, ok_bind]
  simp only [htype, hent, decide_true, Bool.true_eq_false, if_false]
  rfl

theorem RelaSection.relas_eq : m.file.relas elf s.name = l := by
  unfold File.relas
  rw [hs.relaSection_eq h elf]
  dsimp only
  rw [count_header hs.entsize hs.size hs.count]
  refine List.ext_getElem (by simp) fun i hi hi' => ?_
  rw [List.getElem_map, List.getElem_range, Nat.mul_comm]
  have hcontents := h.laidOut.contents_at hs.at_
  rw [hs.contents] at hcontents
  exact relaAt_of_holds (hcontents.record length_relaBytes (List.getElem?_eq_getElem hi'))

end Tables

theorem WellFormed.allRelas_eq (h : m.WellFormed) (elf : Elf) : m.file.allRelas elf = m.relas := by
  have hdyn := h.dynSection.relas_eq h elf
  have hplt := h.pltSection.relas_eq h elf
  unfold File.allRelas relas
  exact congrArg₂ (· ++ ·) hdyn hplt

/-! ### The symbols -/

/-- The section of the symbols. -/
def symbolSection (m : LinkedModule) : Section := m.header 0 (dynsym m.symbols)

theorem WellFormed.symbolCount_eq (h : m.WellFormed) : m.symbolSection.count = m.symbols.length :=
  count_header rfl rfl h.symbolCount

theorem WellFormed.symbolValue (h : m.WellFormed) {i : Nat} (hi : i < m.symbols.length) :
    m.symbolSection.symbolValueAt m.file i = m.symbols.getD i 0 := by
  have hcontents := h.laidOut.contents_at (show m.sections[0]? = some (dynsym m.symbols) from rfl)
  have hrecord := X64.HoldsBytes.record (n := 24) hcontents (fun v => by simp)
    (List.getElem?_eq_getElem hi)
  simp only [holdsBytes_append, List.length_append, length_leBytes] at hrecord
  obtain ⟨⟨-, hvalue⟩, -⟩ := hrecord
  unfold Section.symbolValueAt
  rw [List.getD_eq_getElem _ _ hi, Nat.mul_comm]
  exact word64_of_holds hvalue

theorem target_eq (h : m.WellFormed) {r : Rela} (hr : r ∈ m.relas) :
    r.target m.file m.symbolSection = m.target r := by
  unfold Rela.target target
  rw [h.symbolValue (h.narrow r hr).2]

/-! ### The load -/

theorem WellFormed.relocatable (h : m.WellFormed) (elf : Elf) :
    Relocatable m.file elf m.symbolSection := by
  have hdynsym := h.named elf (show 0 < 3 by decide)
    (show m.sections[0]? = some (dynsym m.symbols) from rfl)
  -- Both names lead to a table of relocations.
  have htables : ∀ name ∈ [relaDynName, relaPltName],
      ∃ j s l, m.RelaSection j s l ∧ s.name = name := by
    intro name hname
    obtain rfl | rfl := relaNames_cases hname
    · exact ⟨_, _, _, h.dynSection, rfl⟩
    · exact ⟨_, _, _, h.pltSection, rfl⟩
  refine ⟨hdynsym, ?_, ⟨rfl, ?_⟩, fun name hname => ?_, fun name hname t ht => ?_, ?_, ?_⟩
  · rw [elfSymbols, result_elfNamedTable, show m.file.named elf dynsymName = _ from hdynsym]
    rfl
  · rw [h.symbolCount_eq]
    exact h.symbolCount
  · obtain ⟨j, s, l, hs, rfl⟩ := htables name hname
    exact ⟨_, hs.table_eq h elf⟩
  · obtain ⟨j, s, l, hs, rfl⟩ := htables name hname
    rw [hs.relaSection_eq h elf] at ht
    obtain rfl := Option.some.inj ht
    exact ⟨hs.entsize, (count_header hs.entsize hs.size hs.count).symm ▸ hs.count⟩
  · rw [h.allRelas_eq, h.symbolCount_eq]
    exact h.narrow
  · rw [h.allRelas_eq]
    exact h.slots

theorem WellFormed.loadable (h : m.WellFormed) (elf : Elf) :
    Loadable m.file elf m.symbolSection :=
  ⟨h.laidOut.accepted elf h.fits, h.loads, h.others, h.relocatable elf⟩

theorem WellFormed.unrelocated_iff (h : m.WellFormed) (elf : Elf) (x : U64) :
    LibPS4.Unrelocated m.file elf x ↔ m.Unrelocated x := by
  unfold LibPS4.Unrelocated Unrelocated
  rw [h.allRelas_eq]

theorem findSome?_eq_map {α β : Type} (g : α → Option β) (l : List α) :
    l.findSome? g = (l.map g).findSome? id := by
  rw [List.findSome?_map]
  rfl

theorem WellFormed.rebased_eq (h : m.WellFormed) (w e v : U64) :
    m.file.rebased w e v = m.rebased w e v := by
  have hph := (tables_of_loadable (h.laidOut.accepted ⟨0⟩ h.fits)).1
  have hflag : firstFlag Segment.paddr Segment.memsz (fun s => s.flags &&& pfX) v m.segments
      = firstFlag Part.addr Part.size (fun p => p.flags &&& pfX) v m.parts := by
    have hmap := map_layParts (fun addr size flags =>
      if addr ≤ v ∧ v ≤ addr + size then some (flags &&& pfX) else none) m.parts m.dataOffset
    unfold firstFlag
    refine (findSome?_eq_map _ _).trans (Eq.trans ?_ (findSome?_eq_map _ _).symm)
    exact congrArg (List.findSome? id) hmap
  unfold File.rebased File.isExecutable rebased
  rw [if_pos hph, h.segments_eq, hflag]
  split <;> rfl

theorem AliasesClear.rebased_eq (h : m.AliasesClear) (w e : U64) {p : Part} (hp : p ∈ m.parts)
    {v : U64} (hv : p.Covers v) :
    m.rebased w e v = (if p.isExecutable = true then e else w) + v := by
  have hpfX : ∀ p : Part, p.flags &&& pfX ≠ 0 ↔ p.isExecutable = true := fun p => by
    rw [Part.isExecutable, decide_eq_true_iff]
  have hflag := (firstFlag_iff_notShadowed hpfX fun p hp _ => h.noWrap p hp).mpr h.notShadowed p hp
    rfl v hv
  unfold rebased
  by_cases hexec : p.isExecutable = true
  · rw [if_pos (hflag.mpr hexec), if_pos hexec]
  · rw [if_neg fun hc => hexec (hflag.mp hc), if_neg hexec]

theorem dataOffset_eq : contentsOffset m.segments m.sections +
    ((m.sections.take 3).flatMap NamedSection.contents).length = m.dataOffset := by
  have hsymbols : (dynsym m.symbols).contents.length = 24 * m.symbols.length :=
    X64.length_flatMap_records (fun v => by simp) _
  have hdyn : (relaDyn (24 * m.dyn.length) m.dyn).contents.length = 24 * m.dyn.length :=
    X64.length_flatMap_records length_relaBytes _
  have hplt : (relaPlt m.plt).contents.length = 24 * m.plt.length :=
    X64.length_flatMap_records length_relaBytes _
  have htake : m.sections.take 3 = [dynsym m.symbols, relaDyn (24 * m.dyn.length) m.dyn,
    relaPlt m.plt] := rfl
  have hcount : m.sections.length = 4 := rfl
  rw [htake, List.flatMap_cons, List.flatMap_cons, List.flatMap_cons, List.flatMap_nil,
    List.append_nil, List.length_append, List.length_append, hsymbols, hdyn, hplt, contentsOffset,
    namesOffset, sectionsOffset, length_segments, hcount, dataOffset]
  omega

/-- The contents of a part stand where its header says. -/
theorem WellFormed.image_eq (h : m.WellFormed) {i : Nat} {p : Part} (hp : m.parts[i]? = some p) :
    ∃ s ∈ m.file.segments, s.paddr = p.addr ∧ s.memsz = p.size ∧
      ∀ k, s.image m.file k = p.contents.getD k 0 := by
  have hdata : m.sections[3]? = some _ := rfl
  have hcontents := (h.laidOut.contents_at hdata).piece hp
  have hs := getElem?_layParts m.parts m.dataOffset i
  rw [hp, Option.map_some] at hs
  have hmem := List.mem_of_getElem? hs
  rw [show layParts m.parts m.dataOffset = m.file.segments from h.segments_eq.symm] at hmem
  refine ⟨_, hmem, rfl, rfl, fun k => ?_⟩
  have hlength : p.contents.length < 2 ^ 64 :=
    Nat.lt_of_le_of_lt (h.contents p (List.mem_of_getElem? hp)) p.size.isLt
  unfold Segment.image
  dsimp only
  rw [BitVec.toNat_ofNat, Nat.mod_eq_of_lt hlength]
  by_cases hk : k < p.contents.length
  · rw [if_pos hk, List.getD_eq_getElem _ _ hk, BitVec.ofNat_add, ← dataOffset_eq]
    exact hcontents k _ (List.getElem?_eq_getElem hk)
  · rw [if_neg hk, List.getD_eq_default _ _ (Nat.not_lt.mp hk)]

end LinkedModule

/--
**What is linked is loaded.**

For every well-formed module, any two bases that are not `NULL` and any memory: the load of
the file laid out for it tells whether all relocations are of a supported type; a slot
before the first unsupported one holds its target, added to the base
`elfLoaderRelativeAddressIsExecutable` picks for it, which is that of the part the target lies
in if no part of the other kind reaches up to it; every other byte of a part is the part's; and
every other byte of memory keeps its value.
-/
theorem linkedModule_loads (m : LinkedModule) (h : m.WellFormed) (elf : Elf) (w e : U64)
    (hw : w ≠ 0) (he : e ≠ 0) (mem : U64 → Byte) :
    let o := exec m.file (elfLoaderLoad (some elf) w e) mem
    o.result = .ok (if ∀ r ∈ m.relas, r.supported = true then .ok else .unknownRelocation) ∧
    (∀ r ∈ m.relas.takeWhile Rela.supported,
      le64 o.memory (w + r.offset) = m.rebased w e (m.target r)) ∧
    (m.AliasesClear → ∀ r ∈ m.relas.takeWhile Rela.supported, ∀ p ∈ m.parts,
      p.Covers (m.target r) →
        le64 o.memory (w + r.offset) = (if p.isExecutable = true then e else w) + m.target r) ∧
    (∀ p ∈ m.parts, ∀ k < p.size.toNat, m.Unrelocated (p.addr + BitVec.ofNat 64 k) →
      o.memory (w + (p.addr + BitVec.ofNat 64 k)) = p.contents.getD k 0) ∧
    ∀ x, m.Unrelocated x → (∀ p ∈ m.parts, ¬ p.Covers x) → o.memory (w + x) = mem (w + x) := by
  intro o
  have hload := h.loadable elf
  have hslot : ∀ r ∈ m.relas.takeWhile Rela.supported,
      le64 o.memory (w + r.offset) = m.rebased w e (m.target r) := by
    intro r hr
    rw [← LinkedModule.target_eq h ((List.takeWhile_prefix _).subset hr), ← h.rebased_eq]
    rw [← h.allRelas_eq elf] at hr
    exact hload.slot hw he mem hr
  refine ⟨?_, hslot, fun hclear r hr p hp htarget => ?_, fun p hp k hk hx => ?_,
    fun x hx hout => ?_⟩
  · rw [← h.allRelas_eq elf]
    exact hload.status hw he mem
  · rw [hslot r hr, hclear.rebased_eq w e hp htarget]
  · obtain ⟨i, hi⟩ := List.getElem?_of_mem hp
    obtain ⟨s, hs, haddr, hsize, himage⟩ := h.image_eq hi
    rw [← haddr] at hx ⊢
    rw [← hsize] at hk
    rw [← himage k]
    exact hload.inside hw he mem hs (LinkedModule.isLoad_of_mem (h.segments_eq ▸ hs)) hk
      ((h.unrelocated_iff elf _).mpr hx)
  · refine hload.outside hw he mem ((h.unrelocated_iff elf x).mpr hx) fun s hs _ hcovers => ?_
    obtain ⟨p, hp, haddr, hsize⟩ := LinkedModule.mem_segments (h.segments_eq ▸ hs)
    refine hout p hp ?_
    unfold Segment.Covers at hcovers
    rwa [haddr, hsize] at hcovers

/-- Code with a symbol in it, and data with a pointer to itself and one to the symbol. -/
def smallModule : LinkedModule where
  parts := [⟨5, 0, 16, [0x90, 0xc3]⟩, ⟨6, 64, 32, [1, 2, 3]⟩]
  symbols := [0, 1]
  dyn := [⟨64, 8, 70⟩]
  plt := [⟨72, 0x100000007, 0⟩]

theorem smallModule_wellFormed : smallModule.WellFormed where
  partCount := by decide
  symbolCount := by decide
  dynCount := by decide
  pltCount := by decide
  bytes := by decide +kernel
  contents := by decide
  noWrap := by decide
  apart := by
    have hsorted : smallModule.parts.Pairwise fun p q =>
        p.addr.toNat + p.size.toNat ≤ q.addr.toNat := by decide
    exact hsorted.imp fun hpq x hp hq => Nat.lt_irrefl _
      (Nat.lt_of_lt_of_le hp.2 (Nat.le_trans hpq hq.1))
  narrow := by decide
  slots := by
    have hsorted : smallModule.relas.Pairwise fun r s =>
        r.offset.toNat + 8 ≤ s.offset.toNat ∧ s.offset.toNat + 8 ≤ 2 ^ 64 := by decide
    refine hsorted.imp fun hrs x hr hs => ?_
    rw [mem_extent (by omega)] at hr hs
    bv_omega

theorem smallModule_aliasesClear : smallModule.AliasesClear := by
  refine ⟨by decide, notShadowed_of_pairwise (List.pairwise_pair.mpr fun _ a hin hclaims => ?_)⟩
  have hlo : 64 ≤ a.toNat := hin.1
  have hhi : a.toNat ≤ 16 := hclaims.2
  omega

/-- The return of the code is in place; the first pointer leads to the data it is in, and the
second to the code. -/
theorem smallModule_loads :
    (exec smallModule.file (elfLoaderLoad (some ⟨0⟩) 0x1000 0x2000) fun _ => 7).memory
        (0x1000 + (0 + BitVec.ofNat 64 1)) = 0xc3 ∧
      le64 (exec smallModule.file (elfLoaderLoad (some ⟨0⟩) 0x1000 0x2000) fun _ => 7).memory
        (0x1000 + 64) = 0x1000 + 70 ∧
      le64 (exec smallModule.file (elfLoaderLoad (some ⟨0⟩) 0x1000 0x2000) fun _ => 7).memory
        (0x1000 + 72) = 0x2000 + 1 := by
  obtain ⟨-, -, hslots, hparts, -⟩ := linkedModule_loads smallModule smallModule_wellFormed ⟨0⟩
    0x1000 0x2000 (by decide) (by decide) fun _ => 7
  have hapart : smallModule.Unrelocated (0 + BitVec.ofNat 64 1) := by
    unfold LinkedModule.Unrelocated
    decide
  have hcode := hparts ⟨5, 0, 16, [0x90, 0xc3]⟩ (List.mem_cons_self ..) 1 (by decide) hapart
  have hbyte : ([0x90, 0xc3] : List Byte).getD 1 0 = 0xc3 := rfl
  dsimp only at hcode
  rw [hbyte] at hcode
  have hdata := hslots smallModule_aliasesClear ⟨64, 8, 70⟩ (by decide)
    ⟨6, 64, 32, [1, 2, 3]⟩ (by simp [smallModule])
  have hfunction := hslots smallModule_aliasesClear ⟨72, 0x100000007, 0⟩ (by decide)
    ⟨5, 0, 16, [0x90, 0xc3]⟩ (by simp [smallModule])
  have htargets : smallModule.target ⟨64, 8, 70⟩ = 70 ∧
      smallModule.target ⟨72, 0x100000007, 0⟩ = 1 := by decide
  rw [htargets.1] at hdata
  rw [htargets.2] at hfunction
  exact ⟨hcode, hdata ⟨by decide, by decide⟩, hfunction ⟨by decide, by decide⟩⟩

end LibPS4
