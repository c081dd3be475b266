/-
A file that is laid out is read back.

`Elf/Build.lean` writes a file: the header, the program headers, the section headers, the
names and the contents, one after the other.  Here the accessors of the loader read it
again.  What they find is what was written, for any program headers and any sections, as
long as the counts fit the header and the offsets of the names fit their fields.

A section is found under its name if no name before it ends in that name, since the search
for the name finds tails, too.
-/
import LibPS4.Base.Written
import LibPS4.Proofs.Containment
import LibPS4.Proofs.Named
import LibPS4.Proofs.Strings

namespace LibPS4

open Effects Prog
open X64 (HoldsBytes holdsBytes_append)

variable {f : File} {elf : Elf} {a : U64}

/-! ### Words -/

@[simp] theorem length_leBytes : ∀ n v, (leBytes n v).length = n := by
  intro n
  induction n with
  | zero => intro v; rfl
  | succ n ih => intro v; rw [leBytes, List.length_cons, ih]

theorem getElem?_leBytes : ∀ n v k, k < n → (leBytes n v)[k]? = some (byteOf v k) := by
  intro n
  induction n with
  | zero => intro v k hk; exact absurd hk (Nat.not_lt_zero k)
  | succ n ih =>
      intro v k hk
      cases k with
      | zero => simp [leBytes, byteOf]
      | succ k =>
          rw [leBytes, List.getElem?_cons_succ, ih _ k (by omega), byteOf, byteOf,
            Nat.div_div_eq_div_mul, Nat.pow_succ, Nat.mul_comm]

theorem leNat_of_holds {n v : Nat} (h : HoldsBytes f a (leBytes n v)) :
    leNat f n a = v % 256 ^ n :=
  leNat_of_bytes f n a v fun k hk => h k _ (getElem?_leBytes n v k hk)

theorem ofNat_mod_bytes {w n : Nat} (h : 256 ^ n = 2 ^ w) (v : Nat) :
    BitVec.ofNat w (v % 256 ^ n) = BitVec.ofNat w v := by
  apply BitVec.eq_of_toNat_eq
  rw [h, BitVec.toNat_ofNat, BitVec.toNat_ofNat, Nat.mod_mod]

theorem le16_of_holds {v : Nat} (h : HoldsBytes f a (leBytes 2 v)) :
    le16 f a = BitVec.ofNat 16 v := by
  rw [le16, leNat_of_holds h, ofNat_mod_bytes (by decide)]

theorem le32_of_holds {v : Nat} (h : HoldsBytes f a (leBytes 4 v)) :
    le32 f a = BitVec.ofNat 32 v := by
  rw [le32, leNat_of_holds h, ofNat_mod_bytes (by decide)]

theorem le64_of_holds {v : Nat} (h : HoldsBytes f a (leBytes 8 v)) :
    le64 f a = BitVec.ofNat 64 v := by
  rw [le64, leNat_of_holds h, ofNat_mod_bytes (by decide)]

theorem word32_of_holds {v : U32} (h : HoldsBytes f a (leBytes 4 v.toNat)) : le32 f a = v := by
  rw [le32_of_holds h, BitVec.ofNat_toNat, BitVec.setWidth_eq]

theorem word64_of_holds {v : U64} (h : HoldsBytes f a (leBytes 8 v.toNat)) : le64 f a = v := by
  rw [le64_of_holds h, BitVec.ofNat_toNat, BitVec.setWidth_eq]

theorem start_add (x : U64) : (0 : U64) + x = x := BitVec.zero_add x

/-! ### Records -/

@[simp] theorem length_segmentBytes (s : Segment) : s.bytes.length = 56 := by
  simp [Segment.bytes]

@[simp] theorem length_sectionBytes (s : Section) : s.bytes.length = 64 := by
  simp [Section.bytes]

@[simp] theorem length_relaBytes (r : Rela) : r.bytes.length = 24 := by
  simp [Rela.bytes]

theorem segmentAt_of_holds {s : Segment} (h : HoldsBytes f a s.bytes) : f.segmentAt a = s := by
  simp only [Segment.bytes, holdsBytes_append, List.length_append, length_leBytes] at h
  obtain ⟨⟨⟨⟨⟨⟨⟨htype, hflags⟩, hoffset⟩, hvaddr⟩, hpaddr⟩, hfilesz⟩, hmemsz⟩, halign⟩ := h
  cases s
  simp only [File.segmentAt, Segment.mk.injEq]
  exact ⟨word32_of_holds htype, word32_of_holds hflags, word64_of_holds hoffset,
    word64_of_holds hvaddr, word64_of_holds hpaddr, word64_of_holds hfilesz,
    word64_of_holds hmemsz, word64_of_holds halign⟩

theorem sectionAt_of_holds {s : Section} (h : HoldsBytes f a s.bytes) : f.sectionAt a = s := by
  simp only [Section.bytes, holdsBytes_append, List.length_append, length_leBytes] at h
  obtain ⟨⟨⟨⟨⟨⟨⟨⟨⟨hname, htype⟩, hflags⟩, haddr⟩, hoffset⟩, hsize⟩, -⟩, -⟩, -⟩, hentsize⟩ := h
  cases s
  simp only [File.sectionAt, Section.mk.injEq]
  exact ⟨word32_of_holds hname, word32_of_holds htype, word64_of_holds hflags,
    word64_of_holds haddr, word64_of_holds hoffset, word64_of_holds hsize,
    word64_of_holds hentsize⟩

theorem relaAt_of_holds {r : Rela} (h : HoldsBytes f a r.bytes) : f.relaAt a = r := by
  simp only [Rela.bytes, holdsBytes_append, List.length_append, length_leBytes] at h
  obtain ⟨⟨hoffset, hinfo⟩, haddend⟩ := h
  cases r
  simp only [File.relaAt, Rela.mk.injEq]
  exact ⟨word64_of_holds hoffset, word64_of_holds hinfo, word64_of_holds haddend⟩

/-- A table is the list of the records that stand at its entries. -/
theorem records_eq {α : Type} {at_ : U64 → α} {t : Table} {l : List α}
    (hlength : t.length.toNat = l.length) (h : ∀ i x, l[i]? = some x → at_ (t.entry i) = x) :
    File.records at_ t = l := by
  unfold File.records
  rw [hlength]
  refine List.ext_getElem? fun i => ?_
  rw [List.getElem?_map]
  by_cases hi : i < l.length
  · rw [List.getElem?_range hi, Option.map_some, List.getElem?_eq_getElem hi,
      h i _ (List.getElem?_eq_getElem hi)]
  · rw [List.getElem?_eq_none (by simpa using hi), List.getElem?_eq_none (Nat.not_lt.mp hi)]
    rfl

/-- Where an entry is, as long as it is not too far. -/
theorem entry_eq {t : Table} {i : Nat} (h : i * t.size.toNat < 2 ^ 31) :
    t.entry i = t.base + BitVec.ofNat 64 (i * t.size.toNat) := by
  rw [← (entryOffset_eq_iff (by omega)).mpr h]
  rfl

/-! ### The pieces of a file -/

section Pieces

variable (segments : List Segment) (sections : List NamedSection)

/-- The names in the order of the section headers, the null section first. -/
def sectionNames : List (List Byte) := [] :: sections.map NamedSection.name ++ [shstrtabName]

def nameBytes : List Byte := Terminated.text 0 (sectionNames sections)

def sectionsOffset : Nat := 64 + 56 * segments.length

def namesOffset : Nat := sectionsOffset segments + 64 * (sections.length + 2)

def contentsOffset : Nat := namesOffset segments sections + (nameBytes sections).length

def fileHeader : Header :=
  { phoff := 64, shoff := sectionsOffset segments, phnum := segments.length,
    shnum := sections.length + 2, shstrndx := sections.length + 1 }

/-- The header of the section that holds the names. -/
def namesSection : Section :=
  ⟨BitVec.ofNat 32 ((nameBytes sections).length - 10), 3, 0, 0,
    BitVec.ofNat 64 (namesOffset segments sections), BitVec.ofNat 64 (nameBytes sections).length, 0⟩

def sectionHeaders : List Section :=
  ⟨0, 0, 0, 0, 0, 0, 0⟩ :: layOut sections 1 (contentsOffset segments sections) ++
    [namesSection segments sections]

theorem nameBytes_eq :
    nameBytes sections
      = 0 :: sections.flatMap (fun s => s.name ++ [0]) ++ shstrtabName ++ [0] := by
  unfold nameBytes sectionNames
  rw [Terminated.text_append, Terminated.text, List.flatMap_cons, List.flatMap_map, Terminated.text,
    List.flatMap_cons, List.flatMap_nil, List.append_nil]
  simp only [List.nil_append, List.cons_append, List.append_assoc]

theorem fileBytes_eq :
    fileBytes segments sections = (fileHeader segments sections).bytes ++
      segments.flatMap Segment.bytes ++ (sectionHeaders segments sections).flatMap Section.bytes ++
      nameBytes sections ++ sections.flatMap NamedSection.contents := by
  unfold fileBytes sectionHeaders contentsOffset namesSection
  rw [nameBytes_eq]
  simp only [List.flatMap_cons, List.flatMap_append, List.append_assoc]
  rfl

/-- The file has the pieces where they belong. -/
structure LaidOut (f : File) : Prop where
  header : HoldsBytes f 0 (fileHeader segments sections).bytes
  programHeaders : HoldsBytes f 64 (segments.flatMap Segment.bytes)
  headers : HoldsBytes f (BitVec.ofNat 64 (sectionsOffset segments))
    ((sectionHeaders segments sections).flatMap Section.bytes)
  names : HoldsBytes f (BitVec.ofNat 64 (namesOffset segments sections)) (nameBytes sections)
  contents : HoldsBytes f (BitVec.ofNat 64 (contentsOffset segments sections))
    (sections.flatMap NamedSection.contents)

/-- The counts fit the header, and every offset into the file fits 32 bits. -/
structure LayoutFits : Prop where
  phnum : segments.length < 2 ^ 16
  shnum : sections.length + 2 < 2 ^ 16
  bytes : (fileBytes segments sections).length ≤ 2 ^ 32

end Pieces

section ReadBack

variable {segments : List Segment} {sections : List NamedSection}

@[simp] theorem length_headerBytes (h : Header) : h.bytes.length = 64 := by
  simp [Header.bytes]

@[simp] theorem length_layOut : ∀ (l : List NamedSection) (name offset : Nat),
    (layOut l name offset).length = l.length := by
  intro l
  induction l with
  | nil => intro _ _; rfl
  | cons s l ih => intro name offset; rw [layOut, List.length_cons, ih, List.length_cons]

@[simp] theorem length_sectionHeaders :
    (sectionHeaders segments sections).length = sections.length + 2 := by
  simp [sectionHeaders]

theorem length_fileBytes :
    (fileBytes segments sections).length = contentsOffset segments sections +
      (sections.flatMap NamedSection.contents).length := by
  rw [fileBytes_eq, List.length_append, List.length_append, List.length_append, List.length_append,
    length_headerBytes, X64.length_flatMap_records length_segmentBytes,
    X64.length_flatMap_records length_sectionBytes, length_sectionHeaders, contentsOffset,
    namesOffset, sectionsOffset]

/-- A file of these bytes, whatever follows them. -/
theorem laidOut_of_holds (h : HoldsBytes f 0 (fileBytes segments sections)) :
    LaidOut segments sections f := by
  rw [fileBytes_eq] at h
  simp only [holdsBytes_append, List.length_append, length_headerBytes,
    X64.length_flatMap_records length_segmentBytes,
    X64.length_flatMap_records length_sectionBytes, length_sectionHeaders, start_add] at h
  obtain ⟨⟨⟨⟨hheader, hprogram⟩, hsections⟩, hnames⟩, hcontents⟩ := h
  exact ⟨hheader, hprogram, hsections, hnames, hcontents⟩

theorem laidOut_ofBytes (h : LayoutFits segments sections) :
    LaidOut segments sections (File.ofBytes (fileBytes segments sections)) := by
  refine laidOut_of_holds fun k b hb => ?_
  obtain ⟨hk, -⟩ := List.getElem?_eq_some_iff.mp hb
  have hbytes := h.bytes
  rw [File.ofBytes, start_add, BitVec.toNat_ofNat, Nat.mod_eq_of_lt (by omega),
    List.getD_eq_getElem?_getD, hb, Option.getD_some]

/-- What the loader reads of the header. -/
structure HeaderReads (f : File) (segments : List Segment) (sections : List NamedSection) :
    Prop where
  ident : f 0 = 0x7f ∧ f 1 = 0x45 ∧ f 2 = 0x4c ∧ f 3 = 0x46 ∧ f 4 = 2 ∧ f 5 = 1 ∧ f 6 = 1 ∧ f 7 = 9
  type : le16 f 16 = 3
  machine : le16 f 18 = 62
  version : le32 f 20 = 1
  phoff : le64 f 32 = 64
  shoff : le64 f 40 = BitVec.ofNat 64 (sectionsOffset segments)
  phentsize : le16 f 54 = 56
  phnum : le16 f 56 = BitVec.ofNat 16 segments.length
  shentsize : le16 f 58 = 64
  shnum : le16 f 60 = BitVec.ofNat 16 (sections.length + 2)
  shstrndx : le16 f 62 = BitVec.ofNat 16 (sections.length + 1)

theorem result_allOf_of_forall {l : List (ElfProg Bool)} (h : ∀ p ∈ l, result f p = .ok true) :
    result f (allOf l) = .ok true := by
  induction l with
  | nil => rfl
  | cons p l ih =>
      rw [allOf, result_bind, h p List.mem_cons_self, ok_bind]
      exact ih fun q hq => h q (List.mem_cons_of_mem p hq)

namespace LaidOut

section Header

variable (h : LaidOut segments sections f)
include h

theorem headerReads : HeaderReads f segments sections := by
  have hheader := h.header
  simp only [Header.bytes, holdsBytes_append, List.length_append, length_leBytes, List.length_cons,
    List.length_nil, start_add] at hheader
  obtain ⟨⟨⟨⟨⟨⟨⟨⟨⟨⟨⟨⟨⟨⟨hident, -⟩, htype⟩, hmachine⟩, hversion⟩, -⟩, hphoff⟩, hshoff⟩, -⟩, -⟩,
    hphentsize⟩, hphnum⟩, hshentsize⟩, hshnum⟩, hshstrndx⟩ := hheader
  have hbyte : ∀ k b, _ → f (BitVec.ofNat 64 k) = b := fun k b hb =>
    (congrArg f (start_add _)).symm.trans (hident k b hb)
  exact ⟨⟨hbyte 0 _ rfl, hbyte 1 _ rfl, hbyte 2 _ rfl, hbyte 3 _ rfl, hbyte 4 _ rfl, hbyte 5 _ rfl,
    hbyte 6 _ rfl, hbyte 7 _ rfl⟩, le16_of_holds htype, le16_of_holds hmachine,
    le32_of_holds hversion, le64_of_holds hphoff, le64_of_holds hshoff, le16_of_holds hphentsize,
    le16_of_holds hphnum, le16_of_holds hshentsize, le16_of_holds hshnum, le16_of_holds hshstrndx⟩

theorem segmentTable_eq : f.segmentTable = ⟨64, 56, BitVec.ofNat 16 segments.length⟩ := by
  have hreads := h.headerReads
  unfold File.segmentTable File.phoff
  rw [hreads.phoff, hreads.phentsize, hreads.phnum]

theorem sectionTable_eq : f.sectionTable
    = ⟨BitVec.ofNat 64 (sectionsOffset segments), 64, BitVec.ofNat 16 (sections.length + 2)⟩ := by
  have hreads := h.headerReads
  unfold File.sectionTable File.shoff
  rw [hreads.shoff, hreads.shentsize, hreads.shnum]

end Header

variable (h : LaidOut segments sections f) (hfits : LayoutFits segments sections)
include h hfits

theorem shoff_ne : f.shoff ≠ 0 := by
  have hcount := hfits.phnum
  unfold File.shoff
  rw [h.headerReads.shoff]
  intro hzero
  have hnat := congrArg BitVec.toNat hzero
  rw [BitVec.toNat_ofNat, sectionsOffset, Nat.mod_eq_of_lt (by omega)] at hnat
  have hpos : (0 : U64).toNat = 0 := rfl
  omega

variable (elf) in
theorem accepted : result f (elfLoaderIsLoadable (some elf)) = .ok true := by
  have hreads := h.headerReads
  obtain ⟨h0, h1, h2, h3, h4, h5, h6, h7⟩ := hreads.ident
  have hshoff : le64 f 40 ≠ 0 := h.shoff_ne hfits
  have hself : result f (elfIsElf (some elf)) = .ok true := by
    unfold elfIsElf
    rw [result_bind, show result f (deref (some elf)) = .ok elf from rfl, ok_bind]
    refine result_allOf_of_forall ?_
    simp only [List.forall_mem_cons, List.not_mem_nil, false_implies, implies_true,
      ElfHeader.eIdent, result_bind, result_fetch8, ok_bind, pure_eq, result_ret, h0, h1, h2, h3,
      decide_true, and_self]
  unfold elfLoaderIsLoadable
  rw [result_bind, hself, ok_bind, if_neg (by decide)]
  refine result_allOf_of_forall ?_
  simp only [List.forall_mem_cons, List.not_mem_nil, false_implies, implies_true, and_true,
    elfClass, elfEncoding, elfVersion, elfABI, elfIdentByte, ElfHeader.eIdent, ElfHeader.eType,
    ElfHeader.ePhoff, ElfHeader.eShoff, ElfHeader.eMachine, ElfHeader.eVersion, result_bind,
    result_fetch8, result_fetch16, result_fetch32, result_fetch64, result_ite, ok_bind, pure_eq,
    result_ret, h4, h5, h6, h7, hreads.type, hreads.machine, hreads.version, hreads.phoff,
    decide_eq_true hshoff]
  decide

theorem segments_eq : f.segments = segments := by
  have hcount := hfits.phnum
  have htable := h.segmentTable_eq
  refine records_eq ?_ fun i s hs => ?_
  · rw [htable]
    exact Nat.mod_eq_of_lt hcount
  · obtain ⟨hi, -⟩ := List.getElem?_eq_some_iff.mp hs
    have hsize : f.segmentTable.size.toNat = 56 := by rw [htable]; rfl
    rw [entry_eq (by rw [hsize]; omega), hsize, htable]
    exact segmentAt_of_holds (h.programHeaders.record length_segmentBytes hs)

theorem sectionEntry {k : Nat} {s : Section}
    (hs : (sectionHeaders segments sections)[k]? = some s) :
    f.sectionAt (f.sectionTable.entry k) = s := by
  have hcount := hfits.shnum
  have htable := h.sectionTable_eq
  obtain ⟨hk, -⟩ := List.getElem?_eq_some_iff.mp hs
  rw [length_sectionHeaders] at hk
  have hsize : f.sectionTable.size.toNat = 64 := by rw [htable]; rfl
  rw [entry_eq (by rw [hsize]; omega), hsize, htable]
  exact sectionAt_of_holds (h.headers.record length_sectionBytes hs)

theorem sectionCount : f.sectionTable.length.toNat = sections.length + 2 := by
  rw [h.sectionTable_eq]
  exact Nat.mod_eq_of_lt hfits.shnum

theorem sections_eq : f.sections = sectionHeaders segments sections := by
  refine records_eq ?_ fun i s hs => h.sectionEntry hfits hs
  rw [h.sectionCount hfits, length_sectionHeaders]

end LaidOut

/-! ### Names -/

theorem getElem?_layOut : ∀ (l : List NamedSection) (name offset j : Nat),
    (layOut l name offset)[j]? = l[j]?.map fun s =>
      ⟨BitVec.ofNat 32 (name + ((l.take j).map fun s => s.name.length + 1).sum), s.type, s.flags,
        s.addr, BitVec.ofNat 64 (offset + ((l.take j).flatMap NamedSection.contents).length),
        BitVec.ofNat 64 s.size, s.entsize⟩ := by
  intro l
  induction l with
  | nil => intro _ _ _; rfl
  | cons s l ih =>
      intro name offset j
      cases j with
      | zero => rfl
      | succ j =>
          rw [layOut, List.getElem?_cons_succ, List.getElem?_cons_succ, ih]
          simp only [List.take_succ_cons, List.map_cons, List.sum_cons, List.flatMap_cons,
            List.length_append, Nat.add_assoc]

/-- Section number `j`, as it is laid out. -/
def sectionHeader (segments : List Segment) (sections : List NamedSection) (j : Nat)
    (s : NamedSection) : Section :=
  ⟨BitVec.ofNat 32 (Terminated.start (sectionNames sections) (j + 1)), s.type, s.flags, s.addr,
    BitVec.ofNat 64 (contentsOffset segments sections +
      ((sections.take j).flatMap NamedSection.contents).length), BitVec.ofNat 64 s.size, s.entsize⟩

theorem start_sectionNames {j : Nat} (hj : j ≤ sections.length) :
    Terminated.start (sectionNames sections) (j + 1)
      = 1 + ((sections.take j).map fun s => s.name.length + 1).sum := by
  unfold sectionNames
  rw [List.cons_append, Terminated.start_cons, Terminated.start,
    List.take_append_of_le_length (by rw [List.length_map]; exact hj), ← List.map_take,
    List.map_map]
  rfl

theorem getElem?_sectionHeaders {j : Nat} {s : NamedSection} (hs : sections[j]? = some s) :
    (sectionHeaders segments sections)[j + 1]? = some (sectionHeader segments sections j s) := by
  obtain ⟨hj, -⟩ := List.getElem?_eq_some_iff.mp hs
  unfold sectionHeaders sectionHeader
  rw [List.cons_append, List.getElem?_cons_succ,
    List.getElem?_append_left (by rw [length_layOut]; exact hj), getElem?_layOut, hs,
    Option.map_some, start_sectionNames (Nat.le_of_lt hj)]

theorem getElem?_sectionHeaders_last :
    (sectionHeaders segments sections)[sections.length + 1]?
      = some (namesSection segments sections) := by
  unfold sectionHeaders
  rw [List.cons_append, List.getElem?_cons_succ,
    List.getElem?_append_right (by rw [length_layOut]), length_layOut, Nat.sub_self]
  rfl

/-- Memory that holds some bytes is read as these bytes. -/
theorem map_extent_of_holds {bytes : List Byte} (h : HoldsBytes f a bytes) :
    (extent a bytes.length).map f = bytes := by
  refine List.ext_getElem (by simp [extent]) fun k hk hk' => ?_
  simp only [extent, List.getElem_map, List.getElem_range]
  exact h k _ (List.getElem?_eq_getElem hk')

namespace LaidOut

variable (h : LaidOut segments sections f) (hfits : LayoutFits segments sections)
include h hfits

theorem shstrndx_eq : f.shstrndx = sections.length + 1 := by
  have hcount := hfits.shnum
  unfold File.shstrndx
  rw [h.headerReads.shstrndx]
  exact Nat.mod_eq_of_lt (by omega)

theorem hasNames : f.HasNames := by
  refine ⟨h.shoff_ne hfits, ?_⟩
  rw [h.shstrndx_eq hfits, h.sectionCount hfits]
  omega

theorem nameTable_eq : f.nameTable = namesSection segments sections := by
  unfold File.nameTable File.namesHeader
  rw [h.shstrndx_eq hfits]
  exact h.sectionEntry hfits getElem?_sectionHeaders_last

omit h in
theorem length_nameBytes_lt : (nameBytes sections).length < 2 ^ 32 := by
  have hbytes := hfits.bytes
  rw [length_fileBytes, contentsOffset, namesOffset, sectionsOffset] at hbytes
  omega

theorem nameTable_size : f.nameTable.size.toNat = (nameBytes sections).length := by
  have hlt := length_nameBytes_lt hfits
  rw [h.nameTable_eq hfits]
  exact Nat.mod_eq_of_lt (by omega)

theorem stringTable : StringTable f f.nameTable.offset f.nameTable.size := by
  have hlength : (nameBytes sections).length = ((0 :: sections.flatMap (fun s => s.name ++ [0]) ++
      shstrtabName ++ [0]) : List Byte).length := by rw [nameBytes_eq]
  rw [List.length_append, List.length_singleton] at hlength
  refine ⟨by rw [h.nameTable_size hfits]; omega, ?_⟩
  rw [h.nameTable_size hfits, h.nameTable_eq hfits]
  refine h.names _ 0 ?_
  rw [hlength, nameBytes_eq, Nat.add_sub_cancel]
  exact List.getElem?_concat_length

theorem strings_eq (hz : ∀ s ∈ sections, 0 ∉ s.name) :
    f.strings f.nameTable.offset f.nameTable.size = sectionNames sections := by
  have hmap : (extent f.nameTable.offset f.nameTable.size.toNat).map f = nameBytes sections := by
    rw [h.nameTable_size hfits, h.nameTable_eq hfits]
    exact map_extent_of_holds h.names
  unfold File.strings
  rw [hmap]
  refine Terminated.strings_text (by simp [sectionNames]) fun name hname => ?_
  simp only [sectionNames, List.cons_append, List.mem_cons, List.mem_append, List.mem_map,
    List.not_mem_nil, or_false] at hname
  rcases hname with rfl | ⟨s, hs, rfl⟩ | rfl
  · exact List.not_mem_nil
  · exact hz s hs
  · decide

end LaidOut

theorem nameAt_iff_spells {name : List Byte} {i : Nat} :
    f.NameAt name i ↔ i < f.nameTable.size.toNat ∧
      f.Spells (f.nameTable.offset + BitVec.ofNat 64 i) name := by
  unfold File.NameAt File.Spells
  simp only [charAt_eq]

theorem getElem?_sectionNames {j : Nat} {s : NamedSection} (hs : sections[j]? = some s) :
    (sectionNames sections)[j + 1]? = some s.name := by
  obtain ⟨hj, -⟩ := List.getElem?_eq_some_iff.mp hs
  unfold sectionNames
  rw [List.cons_append, List.getElem?_cons_succ,
    List.getElem?_append_left (by rw [List.length_map]; exact hj), List.getElem?_map, hs]
  rfl

theorem start_lt_start {ss : List (List Byte)} {k j : Nat} (hkj : k < j) (hj : j ≤ ss.length) :
    Terminated.start ss k < Terminated.start ss j := by
  have hnext := Terminated.start_succ (List.getElem?_eq_getElem (Nat.lt_of_lt_of_le hkj hj))
  have hmono : Terminated.start ss (k + 1) ≤ Terminated.start ss j := Terminated.start_mono hkj
  omega

/-- No name is mistaken for that of section `j`: it is not empty, it is a C string that is
compared to its end, and no section before has a name that ends in it. -/
structure Findable (sections : List NamedSection) (j : Nat) (name : List Byte) : Prop where
  ne_nil : name ≠ []
  short : ShortName name
  first : ∀ i < j, ∀ s, sections[i]? = some s → ¬ name <:+ s.name

namespace LaidOut

variable (h : LaidOut segments sections f) (hfits : LayoutFits segments sections)
  (hz : ∀ s ∈ sections, 0 ∉ s.name)
include h hfits

theorem nameOf_eq {k : Nat} (hk : k ≤ sections.length) :
    f.nameOf k = BitVec.ofNat 32 (Terminated.start (sectionNames sections) k) := by
  unfold File.nameOf
  cases k with
  | zero => rw [h.sectionEntry hfits (s := ⟨0, 0, 0, 0, 0, 0, 0⟩) rfl]; rfl
  | succ k =>
      rw [h.sectionEntry hfits (getElem?_sectionHeaders (List.getElem?_eq_getElem hk))]
      rfl

include hz

/-- Where a name stands first. -/
theorem first_nameAt {j : Nat} {s : NamedSection} (hs : sections[j]? = some s)
    (hfind : Findable sections j s.name) :
    First (f.NameAt s.name) f.nameTable.size.toNat
      (some (Terminated.start (sectionNames sections) (j + 1))) := by
  have ht := h.stringTable hfits
  have hstrings := h.strings_eq hfits hz
  have hzero := hz s (List.mem_of_getElem? hs)
  have hname := getElem?_sectionNames hs
  have hspells : ∀ {k d : Nat} {t : List Byte}, (sectionNames sections)[k]? = some t →
      d ≤ t.length → (f.Spells (f.nameTable.offset +
        BitVec.ofNat 64 (Terminated.start (sectionNames sections) k + d)) s.name
          ↔ t.drop d = s.name) := by
    intro k d t hk hd
    rw [← hstrings] at hk ⊢
    exact ht.spells_iff hk hd hzero
  have hsize : f.nameTable.size.toNat = (Terminated.text 0 (sectionNames sections)).length := by
    rw [← ht.length_text, hstrings]
  have hin := Terminated.end_lt 0 hname
  refine ⟨by omega, nameAt_iff_spells.mpr ⟨by omega, ?_⟩, fun i hi hat => ?_⟩
  · exact (hspells hname (Nat.zero_le _)).mpr List.drop_zero
  · -- Another place is in the string of a section before, or it is the empty one.
    obtain ⟨hlt, hat⟩ := nameAt_iff_spells.mp hat
    obtain ⟨k, t, d, hk, hd, rfl⟩ := Terminated.exists_at 0 (sectionNames sections) i (by omega)
    have htail : s.name <:+ t := (hspells hk hd).mp hat ▸ List.drop_suffix d t
    have hkj : k < j + 1 := by
      refine Nat.not_le.mp fun hle => ?_
      have hmono : Terminated.start (sectionNames sections) (j + 1)
          ≤ Terminated.start (sectionNames sections) k := Terminated.start_mono hle
      omega
    cases k with
    | zero =>
        have hnil : t = [] := (Option.some.inj hk).symm
        rw [hnil] at htail
        exact hfind.ne_nil (List.suffix_nil.mp htail)
    | succ k =>
        obtain ⟨hj, -⟩ := List.getElem?_eq_some_iff.mp hs
        have hsection := List.getElem?_eq_getElem (show k < sections.length by omega)
        rw [getElem?_sectionNames hsection] at hk
        exact hfind.first k (by omega) _ hsection (Option.some.inj hk ▸ htail)

omit h hz in
/-- The offset of a name fits its field. -/
theorem start_small {j : Nat} {s : NamedSection} (hs : sections[j]? = some s) :
    Terminated.start (sectionNames sections) (j + 1) < 2 ^ 32 := by
  have hend := Terminated.end_lt 0 (getElem?_sectionNames hs)
  have hlt := length_nameBytes_lt hfits
  unfold nameBytes at hlt
  omega

variable (elf) in
theorem found {j : Nat} {s : NamedSection} (hs : sections[j]? = some s)
    (hfind : Findable sections j s.name) :
    result f (elfSectionByName (some elf) (some s.name))
      = .ok (some (f.sectionTable.entry (j + 1))) := by
  obtain ⟨hj, -⟩ := List.getElem?_eq_some_iff.mp hs
  obtain ⟨o, o', ho, ho', hres⟩ := elfSectionByName_first elf (h.hasNames hfits) hfind.short
  have hsearch : o = some (Terminated.start (sectionNames sections) (j + 1)) :=
    ho.unique (h.first_nameAt hfits hz hs hfind)
  rw [hsearch, Option.getD_some] at ho'
  have hlength : (sectionNames sections).length = sections.length + 2 := by simp [sectionNames]
  have hsmall := start_small hfits hs
  have hfound : o' = some (j + 1) := by
    refine ho'.unique ⟨?_, h.nameOf_eq hfits hj, fun k hk heq => ?_⟩
    · rw [h.sectionCount hfits]
      omega
    · -- The names of the sections before stand further up.
      have hbefore := start_lt_start hk (show j + 1 ≤ (sectionNames sections).length by omega)
      have hname := h.nameOf_eq hfits (show k ≤ sections.length by omega)
      have hnat := congrArg BitVec.toNat (hname.symm.trans heq)
      rw [BitVec.toNat_ofNat, BitVec.toNat_ofNat, Nat.mod_eq_of_lt (by omega),
        Nat.mod_eq_of_lt hsmall] at hnat
      omega
  rw [hres, hfound, Option.map_some]

variable (elf) in
theorem named_eq {j : Nat} {s : NamedSection} (hs : sections[j]? = some s)
    (hfind : Findable sections j s.name) :
    f.named elf s.name = .ok (some (sectionHeader segments sections j s)) := by
  unfold File.named
  rw [h.found elf hfits hz hs hfind, Except.map, Option.map_some,
    h.sectionEntry hfits (getElem?_sectionHeaders hs)]

/-- A section that is found has the first name that ends so. -/
theorem first_of_found {j : Nat} {s : NamedSection} (hs : sections[j]? = some s)
    (hshort : ShortName s.name)
    (hres : result f (elfSectionByName (some elf) (some s.name))
      = .ok (some (f.sectionTable.entry (j + 1)))) :
    ∀ i < j, ∀ t, sections[i]? = some t → ¬ s.name <:+ t.name := by
  intro i hi t ht htail
  obtain ⟨hj, -⟩ := List.getElem?_eq_some_iff.mp hs
  obtain ⟨o, o', ho, ho', hres'⟩ := elfSectionByName_first elf (h.hasNames hfits) hshort
  rw [hres] at hres'
  obtain ⟨k, rfl, hentry⟩ := Option.map_eq_some_iff.mp (Except.ok.inj hres').symm
  -- The name stands in that of the earlier section, too.
  have hstrings := h.strings_eq hfits hz
  have hname := getElem?_sectionNames ht
  have htable := h.stringTable hfits
  have hend := Terminated.end_lt 0 hname
  rw [← hstrings, htable.length_text] at hend
  have hle := htail.length_le
  have hat : f.NameAt s.name (Terminated.start (sectionNames sections) (i + 1) +
      (t.name.length - s.name.length)) := by
    rw [← hstrings] at hname ⊢
    refine nameAt_iff_spells.mpr ⟨by omega, ?_⟩
    refine (htable.spells_iff hname (by omega) (hz s (List.mem_of_getElem? hs))).mpr ?_
    exact (List.suffix_iff_eq_drop.mp htail).symm
  have hoffset := (nameOf_of_entry hentry).symm.trans ho'.2.1
  rw [h.nameOf_eq hfits hj] at hoffset
  cases o with
  | none => exact ho _ hat.1 hat
  | some p =>
      have hfirst := first_le ho hat
      have hsmall := start_small hfits hs
      have hnext := Terminated.start_succ hname
      have hlength : (sectionNames sections).length = sections.length + 2 := by simp [sectionNames]
      have hmono : Terminated.start (sectionNames sections) (i + 1 + 1)
          ≤ Terminated.start (sectionNames sections) (j + 1) := Terminated.start_mono (by omega)
      have hnat := congrArg BitVec.toNat hoffset
      rw [Option.getD_some, BitVec.toNat_ofNat, BitVec.toNat_ofNat, Nat.mod_eq_of_lt hsmall,
        Nat.mod_eq_of_lt (by omega)] at hnat
      omega

omit hfits hz in
/-- The contents of a section stand where its header says. -/
theorem contents_at {j : Nat} {s : NamedSection} (hs : sections[j]? = some s) :
    HoldsBytes f (sectionHeader segments sections j s).offset s.contents := by
  have hpiece := h.contents.piece hs
  rw [← BitVec.ofNat_add] at hpiece
  exact hpiece

end LaidOut

end ReadBack

/--
**What is laid out is read back.**

For any program headers and any sections with names that are C strings, as long as the file
is not too large for its own fields: the file is accepted, its two tables are read as they
were written, the contents of each section stand where its header says, and a section is
found under its name exactly if no section before it has a name that ends in it.
-/
theorem fileBytes_readBack (segments : List Segment) (sections : List NamedSection)
    (hfits : LayoutFits segments sections) (hz : ∀ s ∈ sections, 0 ∉ s.name) (elf : Elf) :
    let f := File.ofBytes (fileBytes segments sections)
    result f (elfLoaderIsLoadable (some elf)) = .ok true ∧
    f.segments = segments ∧ f.sections = sectionHeaders segments sections ∧
    ∀ j s, sections[j]? = some s →
      (sectionHeaders segments sections)[j + 1]? = some (sectionHeader segments sections j s) ∧
      (∀ k b, s.contents[k]? = some b →
        f ((sectionHeader segments sections j s).offset + BitVec.ofNat 64 k) = b) ∧
      (s.name ≠ [] → s.name.length < elfMaximalStringLength →
        (result f (elfSectionByName (some elf) (some s.name))
            = .ok (some (f.sectionTable.entry (j + 1))) ↔
          ∀ i < j, ∀ t, sections[i]? = some t → ¬ s.name <:+ t.name)) := by
  intro f
  have h : LaidOut segments sections f := laidOut_ofBytes hfits
  refine ⟨h.accepted elf hfits, h.segments_eq hfits, h.sections_eq hfits, fun j s hs => ?_⟩
  refine ⟨getElem?_sectionHeaders hs, h.contents_at hs, fun hne hlength => ?_⟩
  have hshort : ShortName s.name :=
    ⟨fun b hb hb0 => hz s (List.mem_of_getElem? hs) (hb0 ▸ hb), hlength⟩
  constructor
  · exact h.first_of_found hfits hz hs hshort
  · intro hfirst
    exact h.found elf hfits hz hs ⟨hne, hshort, hfirst⟩

/-- The sections `.rela.plt` and `.plt`, in this order. -/
def pltSections : List NamedSection :=
  [{ name := relaPltName, type := shtRela, size := 0, contents := [] },
    { name := pltName, type := 1, size := 0, contents := [] }]

theorem pltSections_fits : LayoutFits [] pltSections :=
  ⟨by decide, by decide, by decide +kernel⟩

/-- The first one is found, the second one is not. -/
theorem pltSections_readBack :
    result (File.ofBytes (fileBytes [] pltSections)) (elfSectionByName (some ⟨346⟩)
        (some relaPltName))
      = .ok (some ((File.ofBytes (fileBytes [] pltSections)).sectionTable.entry 1)) ∧
    result (File.ofBytes (fileBytes [] pltSections)) (elfSectionByName (some ⟨346⟩) (some pltName))
      ≠ .ok (some ((File.ofBytes (fileBytes [] pltSections)).sectionTable.entry 2)) := by
  obtain ⟨-, -, -, hread⟩ := fileBytes_readBack [] pltSections pltSections_fits (by decide) ⟨346⟩
  obtain ⟨-, -, hfirst⟩ := hread 0 _ rfl
  obtain ⟨-, -, hsecond⟩ := hread 1 _ rfl
  refine ⟨(hfirst (by decide) (by decide)).mpr fun i hi => absurd hi (Nat.not_lt_zero i), ?_⟩
  intro hfound
  exact (hsecond (by decide) (by decide)).mp hfound 0 (by decide) _ rfl (by decide)

end LibPS4
