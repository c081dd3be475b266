/-
What `elfLoaderInstantiate` leaves in memory.

The pass is a list of writers, one per header, run in table order; `segmentStores`
and `sectionStores` are what one header stores, and the memory afterwards is the
overlay of the headers over the memory before.

The loop does not look at `p_type`.  A header that is not `PT_LOAD` therefore writes
like the others, and the image is the image of the `PT_LOAD` segments exactly when
these extra writes change nothing: wherever such a header has the last word, some
`PT_LOAD` segment must put the same byte.
-/
import Mathlib.Data.List.Pairwise
import LibPS4.Base.Overlay
import LibPS4.Elf.Build

namespace LibPS4

open Effects Prog

variable {f : File} {elf : Elf} {memory : U64}

/-! ### The stores of one header -/

/-- The `memcpy` and the `memset` of a program header. -/
def segmentStores (f : File) (memory : U64) (s : Segment) : List (U64 × Byte) :=
  span (memory + s.paddr) s.filesz.toNat (fun k => f (s.offset + BitVec.ofNat 64 k)) ++
    span (memory + s.paddr + s.filesz) (s.memsz - s.filesz).toNat fun _ => 0

/-- The `memcpy` of a section header. -/
def sectionStores (f : File) (memory : U64) (s : Section) : List (U64 × Byte) :=
  if s.flags &&& shfAlloc = 0 then []
  else span (memory + s.addr) s.size.toNat fun k => f (s.offset + BitVec.ofNat 64 k)

theorem result_instantiateSegment (s : U64) :
    result f (instantiateSegment memory s) = .ok () := by
  simp only [instantiateSegment, ElfSegment.pFilesz, ElfSegment.pPaddr, ElfSegment.pOffset,
    ElfSegment.pMemsz, result_bind, result_fetch64, ok_bind, result_ite, result_memcpy,
    result_memset, pure_eq, result_ret, ite_self]

theorem stores_instantiateSegment (s : U64) :
    stores f (instantiateSegment memory s) = segmentStores f memory (f.segmentAt s) := by
  simp only [instantiateSegment, ElfSegment.pFilesz, ElfSegment.pPaddr, ElfSegment.pOffset,
    ElfSegment.pMemsz, stores_bind, result_fetch64, stores_fetch64, onOk_ok, stores_ite,
    stores_memcpy, stores_memset, result_memcpy, pure_eq, stores_ret, List.nil_append,
    segmentStores, File.segmentAt]
  -- Each `if` only skips an empty span.
  rw [ite_span_append, ite_span]

theorem result_instantiateSection (s : U64) :
    result f (instantiateSection memory s) = .ok () := by
  simp only [instantiateSection, ElfSection.shFlags, ElfSection.shSize, ElfSection.shAddr,
    ElfSection.shOffset, result_bind, result_fetch64, ok_bind, result_ite, result_memcpy,
    pure_eq, result_ret, ite_self]

theorem stores_instantiateSection (s : U64) :
    stores f (instantiateSection memory s) = sectionStores f memory (f.sectionAt s) := by
  simp only [instantiateSection, ElfSection.shFlags, ElfSection.shSize, ElfSection.shAddr,
    ElfSection.shOffset, stores_bind, result_fetch64, stores_fetch64, onOk_ok, stores_ite,
    stores_memcpy, pure_eq, stores_ret, List.nil_append, sectionStores,
    File.sectionAt]
  rw [ite_span]
  rfl

/-! ### The stores of the pass -/

/-- Everything `elfLoaderInstantiate` stores. -/
def instantiateStores (f : File) (memory : U64) : List (U64 × Byte) :=
  if f.phoff ≠ 0 then f.segments.flatMap (segmentStores f memory)
  else if f.shoff ≠ 0 then f.sections.flatMap (sectionStores f memory)
  else []

theorem result_elfLoaderInstantiate (hm : memory ≠ 0) :
    result f (elfLoaderInstantiate (some elf) memory) = .ok .ok := by
  simp only [elfLoaderInstantiate, hm, if_false, result_bind, result_elfSegments, ok_bind]
  by_cases hph : f.phoff = 0
  · simp only [hph, if_pos, result_bind, result_elfSections, ok_bind]
    by_cases hsh : f.shoff = 0
    · simp [hsh]
    · simp only [hsh, if_false, result_bind, result_forFrom (fun k => result_instantiateSection _),
        ok_bind, pure_eq, result_ret]
  · simp only [hph, if_false, result_bind, result_forFrom (fun k => result_instantiateSegment _),
      ok_bind, pure_eq, result_ret]

theorem stores_elfLoaderInstantiate (hm : memory ≠ 0) :
    stores f (elfLoaderInstantiate (some elf) memory) = instantiateStores f memory := by
  simp only [elfLoaderInstantiate, hm, if_false, stores_bind, quiet_elfSegments.stores_eq,
    List.nil_append, result_elfSegments, onOk_ok, instantiateStores]
  by_cases hph : f.phoff = 0
  · simp only [hph, if_pos, stores_bind, quiet_elfSections.stores_eq, result_elfSections, onOk_ok,
      List.nil_append, ne_eq, not_true_eq_false, if_false]
    by_cases hsh : f.shoff = 0
    · simp [hsh]
    · simp only [hsh, if_false, stores_bind, not_false_eq_true, if_true,
        stores_forFrom (fun k => result_instantiateSection _),
        result_forFrom (fun k => result_instantiateSection _), onOk_ok, pure_eq, stores_ret,
        List.append_nil, stores_instantiateSection, flatMap_records f.sectionAt]
      rfl
  · simp only [hph, if_false, stores_bind, ne_eq, not_false_eq_true, if_true,
      stores_forFrom (fun k => result_instantiateSegment _),
      result_forFrom (fun k => result_instantiateSegment _), onOk_ok, pure_eq, stores_ret,
      List.append_nil, stores_instantiateSegment, flatMap_records f.segmentAt]
    rfl

/-! ### Headers as writers

Offsets are relative to `memory`.  The `memset` comes after the `memcpy`, so where the
two overlap, which they do when `p_filesz` exceeds `p_memsz`, it is the zero that stays.
-/

/-- What a program header puts at offset `x`, if it writes there at all. -/
def Segment.writes (f : File) (s : Segment) (x : U64) : Option Byte :=
  if (x - (s.paddr + s.filesz)).toNat < (s.memsz - s.filesz).toNat then some 0
  else if (x - s.paddr).toNat < s.filesz.toNat then some (f (s.offset + (x - s.paddr)))
  else none

theorem replay_segmentStores (s : Segment) (mem : U64 → Byte) (x : U64) :
    replay (segmentStores f memory s) mem (memory + x)
      = (s.writes f x).getD (mem (memory + x)) := by
  have hd1 : memory + x - (memory + s.paddr) = x - s.paddr := by bv_omega
  have hd2 : memory + x - (memory + s.paddr + s.filesz) = x - (s.paddr + s.filesz) := by bv_omega
  unfold segmentStores Segment.writes
  rw [replay_append, replay_span (by omega), replay_span (by omega), hd1, hd2]
  split
  · rfl
  · split
    · rw [BitVec.ofNat_toNat, BitVec.setWidth_eq]
      rfl
    · rfl

/-- The memory after the pass, byte by byte. -/
theorem memory_elfLoaderInstantiate (hph : f.phoff ≠ 0) (hm : memory ≠ 0) (mem : U64 → Byte)
    (x : U64) :
    (exec f (elfLoaderInstantiate (some elf) memory) mem).memory (memory + x)
      = (overlay (Segment.writes f) f.segments x).getD (mem (memory + x)) := by
  rw [exec_eq, stores_elfLoaderInstantiate hm, instantiateStores, if_pos hph]
  exact replay_flatMap replay_segmentStores f.segments mem x

/-! ### Loadable segments -/

/-- The header is a `PT_LOAD`. -/
def Segment.isLoad (s : Segment) : Bool := s.type = ptLoad

/-- `x` lies in `[p_paddr, p_paddr + p_memsz)`. -/
def Segment.Covers (s : Segment) (x : U64) : Prop :=
  s.paddr.toNat ≤ x.toNat ∧ x.toNat < s.paddr.toNat + s.memsz.toNat

/-- The `PT_LOAD` segments fit their memory size, do not wrap, and do not overlap. -/
structure LoadsWellFormed (f : File) : Prop where
  filesz : ∀ s ∈ f.segments, s.isLoad = true → s.filesz.toNat ≤ s.memsz.toNat
  noWrap : ∀ s ∈ f.segments, s.isLoad = true → s.paddr.toNat + s.memsz.toNat ≤ 2 ^ 64
  disjoint : (f.segments.filter Segment.isLoad).Pairwise fun s t => ∀ x, s.Covers x → ¬ t.Covers x

/-- The byte a loadable segment has at its offset `k`. -/
def Segment.image (f : File) (s : Segment) (k : Nat) : Byte :=
  if k < s.filesz.toNat then f (s.offset + BitVec.ofNat 64 k) else 0

theorem writes_of_covers {s : Segment} (hfile : s.filesz.toNat ≤ s.memsz.toNat)
    (hwrap : s.paddr.toNat + s.memsz.toNat ≤ 2 ^ 64) {x : U64} (hx : s.Covers x) :
    s.writes f x = some (s.image f (x - s.paddr).toNat) := by
  obtain ⟨hlo, hhi⟩ := hx
  have hd : (x - s.paddr).toNat = x.toNat - s.paddr.toNat := by bv_omega
  unfold Segment.writes Segment.image
  by_cases hk : (x - s.paddr).toNat < s.filesz.toNat
  · have htail : ¬ (x - (s.paddr + s.filesz)).toNat < (s.memsz - s.filesz).toNat := by bv_omega
    rw [if_neg htail, if_pos hk, if_pos hk, BitVec.ofNat_toNat, BitVec.setWidth_eq]
  · have htail : (x - (s.paddr + s.filesz)).toNat < (s.memsz - s.filesz).toNat := by bv_omega
    rw [if_pos htail, if_neg hk]

theorem covers_of_writes {s : Segment} (hfile : s.filesz.toNat ≤ s.memsz.toNat)
    (hwrap : s.paddr.toNat + s.memsz.toNat ≤ 2 ^ 64) {x : U64} {b : Byte}
    (hx : s.writes f x = some b) : s.Covers x := by
  unfold Segment.writes at hx
  unfold Segment.Covers
  split at hx
  · bv_omega
  · split at hx
    · bv_omega
    · cases hx

/-- Two loadable segments never put different bytes in one place. -/
theorem loads_agree (hwf : LoadsWellFormed f) (x : U64) :
    ∀ s ∈ f.segments.filter Segment.isLoad, ∀ t ∈ f.segments.filter Segment.isLoad, ∀ b c,
      s.writes f x = some b → t.writes f x = some c → b = c := by
  have hcovers : ∀ s ∈ f.segments.filter Segment.isLoad, ∀ b, s.writes f x = some b →
      s.Covers x := by
    intro s hs b hb
    obtain ⟨hmem, hload⟩ := List.mem_filter.mp hs
    exact covers_of_writes (hwf.filesz s hmem hload) (hwf.noWrap s hmem hload) hb
  have hpair : (f.segments.filter Segment.isLoad).Pairwise fun s t =>
      ∀ b c, s.writes f x = some b → t.writes f x = some c → b = c := by
    refine hwf.disjoint.imp_of_mem fun hs ht hdisj b c hb hc => ?_
    exact absurd (hcovers _ ht c hc) (hdisj x (hcovers _ hs b hb))
  have hself : ∀ s ∈ f.segments.filter Segment.isLoad, ∀ b c, s.writes f x = some b →
      s.writes f x = some c → b = c := by
    intro s _ b c hb hc
    rw [hb] at hc
    exact Option.some.inj hc
  exact hpair.forall_of_forall_of_flip hself
    (hpair.imp fun h b c hb hc => (h c b hc hb).symm)

/-- What the loadable segments alone leave at `x`, inside one of them and outside all. -/
theorem overlay_loads_of_covers (hwf : LoadsWellFormed f) {s : Segment} (hs : s ∈ f.segments)
    (hload : s.isLoad = true) {x : U64} (hx : s.Covers x) :
    overlay (Segment.writes f) (f.segments.filter Segment.isLoad) x
      = some (s.image f (x - s.paddr).toNat) :=
  overlay_of_agree (loads_agree hwf x) (List.mem_filter.mpr ⟨hs, hload⟩)
    (writes_of_covers (hwf.filesz s hs hload) (hwf.noWrap s hs hload) hx)

theorem overlay_loads_of_not_covers (hwf : LoadsWellFormed f) {x : U64}
    (hx : ∀ s ∈ f.segments, s.isLoad = true → ¬ s.Covers x) :
    overlay (Segment.writes f) (f.segments.filter Segment.isLoad) x = none := by
  refine overlay_eq_none.mpr fun s hs => ?_
  obtain ⟨hmem, hload⟩ := List.mem_filter.mp hs
  cases hw : s.writes f x with
  | none => rfl
  | some b =>
      exact absurd (covers_of_writes (hwf.filesz s hmem hload) (hwf.noWrap s hmem hload) hw)
        (hx s hmem hload)

/-! ### The image of the loadable segments -/

/-- After the pass every byte of a loadable segment is the segment's, and every byte outside
all of them is as it was. -/
def InstantiatesLoads (f : File) (elf : Elf) (memory : U64) : Prop :=
  ∀ mem : U64 → Byte,
    (∀ s ∈ f.segments, s.isLoad = true → ∀ k < s.memsz.toNat,
      (exec f (elfLoaderInstantiate (some elf) memory) mem).memory
        (memory + (s.paddr + BitVec.ofNat 64 k))
          = if k < s.filesz.toNat then f (s.offset + BitVec.ofNat 64 k) else 0) ∧
    ∀ x, (∀ s ∈ f.segments, s.isLoad = true → ¬ s.Covers x) →
      (exec f (elfLoaderInstantiate (some elf) memory) mem).memory (memory + x) = mem (memory + x)

/-- Wherever a header other than `PT_LOAD` is the last in the table to write a byte, some
`PT_LOAD` header of the table puts the same byte there. -/
def OthersHarmless (f : File) : Prop :=
  ∀ before s after, f.segments = before ++ s :: after → s.isLoad = false →
    ∀ x b, s.writes f x = some b → (∀ t ∈ after, t.writes f x = none) →
      ∃ t ∈ f.segments, t.isLoad = true ∧ t.writes f x = some b

theorem instantiatesLoads_iff_overlay (hph : f.phoff ≠ 0) (hm : memory ≠ 0)
    (hwf : LoadsWellFormed f) :
    InstantiatesLoads f elf memory ↔ ∀ x, overlay (Segment.writes f) f.segments x
      = overlay (Segment.writes f) (f.segments.filter Segment.isLoad) x := by
  unfold InstantiatesLoads
  constructor
  · intro h x
    by_cases hx : ∃ s ∈ f.segments, s.isLoad = true ∧ s.Covers x
    · obtain ⟨s, hs, hload, hcov⟩ := hx
      have hd : (x - s.paddr).toNat < s.memsz.toNat := by
        obtain ⟨hlo, hhi⟩ := hcov
        bv_omega
      have hw := writes_of_covers (f := f) (hwf.filesz s hs hload) (hwf.noWrap s hs hload) hcov
      have hbyte := (h fun _ => 0).1 s hs hload _ hd
      rw [add_distance, memory_elfLoaderInstantiate hph hm] at hbyte
      rw [overlay_loads_of_covers hwf hs hload hcov]
      cases hov : overlay (Segment.writes f) f.segments x with
      | none => rw [overlay_eq_none.mp hov s hs] at hw; cases hw
      | some b =>
          rw [hov, Option.getD_some] at hbyte
          exact congrArg some hbyte
    · have hout : ∀ s ∈ f.segments, s.isLoad = true → ¬ s.Covers x :=
        fun s hs hload hcov => hx ⟨s, hs, hload, hcov⟩
      rw [overlay_loads_of_not_covers hwf hout]
      cases hov : overlay (Segment.writes f) f.segments x with
      | none => rfl
      | some b =>
          -- A start memory with another byte at `x` tells a write from no write.
          have hbyte := (h fun _ => b + 1).2 x hout
          rw [memory_elfLoaderInstantiate hph hm, hov, Option.getD_some] at hbyte
          exact absurd hbyte (by bv_omega)
  · intro h mem
    refine ⟨fun s hs hload k hk => ?_, fun x hx => ?_⟩
    · have hwrap := hwf.noWrap s hs hload
      have hcov : s.Covers (s.paddr + BitVec.ofNat 64 k) := by
        unfold Segment.Covers
        bv_omega
      rw [memory_elfLoaderInstantiate hph hm, h, overlay_loads_of_covers hwf hs hload hcov,
        toNat_add_ofNat_sub _ (by omega)]
      rfl
    · rw [memory_elfLoaderInstantiate hph hm, h, overlay_loads_of_not_covers hwf hx]
      rfl

/--
**When the instantiated image is the image of the `PT_LOAD` segments.**

Exactly when no other header has the last word on a byte, unless it repeats what a
`PT_LOAD` segment puts there.
-/
theorem elfLoaderInstantiate_loads_iff (f : File) (elf : Elf) (memory : U64)
    (hph : f.phoff ≠ 0) (hm : memory ≠ 0) (hwf : LoadsWellFormed f) :
    InstantiatesLoads f elf memory ↔ OthersHarmless f := by
  rw [instantiatesLoads_iff_overlay hph hm hwf]
  exact overlay_eq_filter_iff Segment.isLoad (loads_agree hwf)

def headerOf (n : Nat) : Header := { phoff := 64, shoff := 0, phnum := n, shnum := 0 }

/-- The first four bytes of the file and twelve zeros. -/
def headLoad : Segment := ⟨ptLoad, 5, 0, 0, 0, 4, 16, 0⟩

/-- A `PT_NOTE` header inside it. -/
def headNote : Segment := ⟨4, 4, 1, 1, 1, 2, 2, 0⟩

/-- Two bytes of the file and six zeros, further up. -/
def tailLoad : Segment := ⟨ptLoad, 6, 32, 32, 32, 2, 8, 0⟩

def loadsNoteFile : File :=
  File.ofBytes ((headerOf 3).bytes ++ headLoad.bytes ++ headNote.bytes ++ tailLoad.bytes)

theorem loadsNoteFile_segments : loadsNoteFile.segments = [headLoad, headNote, tailLoad] := by
  decide +kernel

theorem loadsNoteFile_wellFormed : LoadsWellFormed loadsNoteFile := by
  have hfilter : [headLoad, headNote, tailLoad].filter Segment.isLoad = [headLoad, tailLoad] := by
    decide
  refine ⟨?_, ?_, ?_⟩
  · rw [loadsNoteFile_segments]; decide
  · rw [loadsNoteFile_segments]; decide
  · rw [loadsNoteFile_segments, hfilter]
    refine List.pairwise_pair.mpr fun x hhead htail => ?_
    have hhi : x.toNat < 16 := hhead.2
    have hlo : 32 ≤ x.toNat := htail.1
    omega

/-- The note repeats what the segment around it puts there. -/
theorem loadsNoteFile_harmless : OthersHarmless loadsNoteFile := by
  intro before s after hl hload x b hb _
  have hs : s ∈ loadsNoteFile.segments := by rw [hl]; simp
  rw [loadsNoteFile_segments] at hs ⊢
  obtain rfl : s = headNote := by
    simp only [List.mem_cons, List.not_mem_nil, or_false] at hs
    rcases hs with rfl | rfl | rfl
    · cases hload
    · rfl
    · cases hload
  refine ⟨headLoad, by simp, by decide, ?_⟩
  have hnone : ¬ (x - (headNote.paddr + headNote.filesz)).toNat
      < (headNote.memsz - headNote.filesz).toNat := Nat.not_lt_zero _
  rw [Segment.writes, if_neg hnone] at hb
  by_cases hx : (x - headNote.paddr).toNat < headNote.filesz.toNat
  · have hnote : (x - 1).toNat < 2 := hx
    have hzeros : ¬ (x - (headLoad.paddr + headLoad.filesz)).toNat
        < (headLoad.memsz - headLoad.filesz).toNat := by
      show ¬ (x - (0 + 4)).toNat < ((16 : U64) - 4).toNat
      bv_omega
    have hcopy : (x - headLoad.paddr).toNat < headLoad.filesz.toNat := by
      show (x - 0).toNat < (4 : U64).toNat
      bv_omega
    have hsame : headLoad.offset + (x - headLoad.paddr)
        = headNote.offset + (x - headNote.paddr) := by
      show (0 : U64) + (x - 0) = 1 + (x - 1)
      bv_omega
    rw [if_pos hx] at hb
    rw [Segment.writes, if_neg hzeros, if_pos hcopy, hsame]
    exact hb
  · rw [if_neg hx] at hb
    cases hb

/-- Two loadable segments with zeros at their ends, and a note that says nothing new. -/
theorem loadsNoteFile_instantiates : InstantiatesLoads loadsNoteFile ⟨232⟩ 0x1000 :=
  (elfLoaderInstantiate_loads_iff loadsNoteFile ⟨232⟩ 0x1000 (by decide +kernel) (by decide)
    loadsNoteFile_wellFormed).mpr loadsNoteFile_harmless

/-- One loadable byte, the first of the file, at address 0. -/
def oneByteLoad : Segment := ⟨ptLoad, 5, 0, 0, 0, 1, 1, 0⟩

/-- A `PT_TLS` header whose template is one zero byte at address 0. -/
def zeroTls : Segment := ⟨7, 4, 0, 0, 0, 0, 1, 0⟩

def loadTlsFile : File := File.ofBytes ((headerOf 2).bytes ++ oneByteLoad.bytes ++ zeroTls.bytes)

theorem loadTlsFile_segments : loadTlsFile.segments = [oneByteLoad, zeroTls] := by decide +kernel

theorem loadTlsFile_wellFormed : LoadsWellFormed loadTlsFile := by
  have hfilter : [oneByteLoad, zeroTls].filter Segment.isLoad = [oneByteLoad] := by decide
  refine ⟨?_, ?_, ?_⟩
  · rw [loadTlsFile_segments]; decide
  · rw [loadTlsFile_segments]; decide
  · rw [loadTlsFile_segments, hfilter]; exact List.pairwise_singleton _ _

/-- The zero template of a `PT_TLS` header that follows erases the loaded byte. -/
theorem loadTlsFile_not_instantiates :
    ¬ ∀ (f : File) (elf : Elf) (memory : U64), f.phoff ≠ 0 → memory ≠ 0 → LoadsWellFormed f →
      InstantiatesLoads f elf memory := by
  intro h
  have hbyte := (h loadTlsFile ⟨176⟩ 0x1000 (by decide +kernel) (by decide) loadTlsFile_wellFormed
    fun _ => 0).1 oneByteLoad (by rw [loadTlsFile_segments]; decide) (by decide) 0 (by decide)
  have hzero : (exec loadTlsFile (elfLoaderInstantiate (some ⟨176⟩) 0x1000) fun _ => 0).memory
      (0x1000 + (oneByteLoad.paddr + BitVec.ofNat 64 0)) = 0 := by decide +kernel
  rw [hzero] at hbyte
  exact absurd hbyte (by decide +kernel)

end LibPS4
