/-
The image without program headers.

A file without program headers is instantiated from its sections: every section with
`SHF_ALLOC` is copied to its address.  Where the sections lie in the `PT_LOAD` segments at
matching addresses and offsets, the copied bytes are the segments' own.  The tails of the
segments, which the other loop fills with zeros, belong to sections of type `SHT_NOBITS`.
These have a size and an offset but no bytes in the file, and the loop copies them like
the others, from whatever stands at that offset.
-/
import LibPS4.Proofs.Instantiate
import LibPS4.Proofs.Rebase

namespace LibPS4

open Effects Prog

variable {f f' : File} {elf : Elf} {memory : U64}

def shtNobits : U32 := 8

/-! ### Sections as writers -/

/-- What a section header puts at offset `x`, if it writes there at all. -/
def Section.writes (f : File) (t : Section) (x : U64) : Option Byte :=
  if t.isAlloc = true ∧ (x - t.addr).toNat < t.size.toNat then some (f (t.offset + (x - t.addr)))
  else none

theorem replay_sectionStores (t : Section) (mem : U64 → Byte) (x : U64) :
    replay (sectionStores f memory t) mem (memory + x)
      = (t.writes f x).getD (mem (memory + x)) := by
  have hd : memory + x - (memory + t.addr) = x - t.addr := by bv_omega
  unfold sectionStores Section.writes Section.isAlloc
  by_cases halloc : t.flags &&& shfAlloc = 0
  · rw [if_pos halloc, if_neg (by simp [halloc])]
    rfl
  · rw [if_neg halloc, replay_span (by omega), hd]
    by_cases hx : (x - t.addr).toNat < t.size.toNat
    · rw [if_pos hx, if_pos ⟨decide_eq_true halloc, hx⟩, BitVec.ofNat_toNat, BitVec.setWidth_eq]
      rfl
    · rw [if_neg hx, if_neg fun h => hx h.2]
      rfl

/-- The memory after the other loop, byte by byte. -/
theorem memory_instantiate_sections (hph : f.phoff = 0) (hsh : f.shoff ≠ 0) (hm : memory ≠ 0)
    (mem : U64 → Byte) (x : U64) :
    (exec f (elfLoaderInstantiate (some elf) memory) mem).memory (memory + x)
      = (overlay (Section.writes f) f.sections x).getD (mem (memory + x)) := by
  rw [exec_eq, stores_elfLoaderInstantiate hm, instantiateStores, if_neg (not_not.mpr hph),
    if_pos hsh]
  exact replay_flatMap replay_sectionStores f.sections mem x

/-! ### One image, described both ways -/

/-- The section lies in the segment: among its bytes in the file at the same offset as
among its addresses, or in its tail if it has no bytes in the file. -/
structure Section.PlacedIn (t : Section) (s : Segment) : Prop where
  start : s.paddr.toNat ≤ t.addr.toNat
  bits : t.type ≠ shtNobits → t.offset - s.offset = t.addr - s.paddr ∧
    t.addr.toNat + t.size.toNat ≤ s.paddr.toNat + s.filesz.toNat
  tail : t.type = shtNobits → s.paddr.toNat + s.filesz.toNat ≤ t.addr.toNat ∧
    t.addr.toNat + t.size.toNat ≤ s.paddr.toNat + s.memsz.toNat

/-- A file `f` whose allocated sections are the contents of its `PT_LOAD` segments, gaps
aside, and that has no other program headers; and `f'`, the file with `e_phoff` set to 0. -/
structure DescribedBothWays (f f' : File) : Prop where
  segments : f.phoff ≠ 0
  onlyLoads : ∀ s ∈ f.segments, s.isLoad = true
  loads : LoadsWellFormed f
  placed : ∀ t ∈ f.sections, t.isAlloc = true → 0 < t.size.toNat →
    ∃ s ∈ f.segments, t.PlacedIn s
  removed : f'.phoff = 0
  table : f'.shoff ≠ 0
  sections : f'.sections = f.sections
  contents : ∀ t ∈ f.sections, t.isAlloc = true → t.type ≠ shtNobits →
    ∀ k < t.size.toNat, f' (t.offset + BitVec.ofNat 64 k) = f (t.offset + BitVec.ofNat 64 k)

/-- On every byte of an allocated section both loops leave the same value, and zero for a
section without bytes in the file. -/
def SameImage (f f' : File) (elf : Elf) (memory : U64) : Prop :=
  ∀ (mem : U64 → Byte), ∀ t ∈ f.sections, t.isAlloc = true → ∀ k < t.size.toNat,
    (exec f' (elfLoaderInstantiate (some elf) memory) mem).memory
        (memory + (t.addr + BitVec.ofNat 64 k))
      = (exec f (elfLoaderInstantiate (some elf) memory) mem).memory
        (memory + (t.addr + BitVec.ofNat 64 k)) ∧
    (t.type = shtNobits → (exec f' (elfLoaderInstantiate (some elf) memory) mem).memory
      (memory + (t.addr + BitVec.ofNat 64 k)) = 0)

/-- Wherever an allocated section without bytes in the file is the last of the table to
hold an address, the file happens to have a zero where its bytes would be. -/
def NobitsZeroInFile (f f' : File) : Prop :=
  ∀ before t after, f.sections = before ++ t :: after → t.isAlloc = true → t.type = shtNobits →
    ∀ k < t.size.toNat,
      (∀ u ∈ after, u.isAlloc = true →
        ¬ (t.addr + BitVec.ofNat 64 k - u.addr).toNat < u.size.toNat) →
      f' (t.offset + BitVec.ofNat 64 k) = 0

section Images

/-- A section puts its byte at each of its addresses. -/
theorem writes_section {t : Section} (halloc : t.isAlloc = true) {k : Nat}
    (hk : k < t.size.toNat) : t.writes f (t.addr + BitVec.ofNat 64 k)
      = some (f (t.offset + BitVec.ofNat 64 k)) := by
  have hd : t.addr + BitVec.ofNat 64 k - t.addr = BitVec.ofNat 64 k := by bv_omega
  have hlt : (BitVec.ofNat 64 k).toNat < t.size.toNat := by
    rw [BitVec.toNat_ofNat, Nat.mod_eq_of_lt (by omega)]
    exact hk
  unfold Section.writes
  rw [hd, if_pos ⟨halloc, hlt⟩]

/-- Only there. -/
theorem at_of_writes_section {t : Section} {x : U64} {b : Byte} (h : t.writes f x = some b) :
    t.isAlloc = true ∧ ∃ k < t.size.toNat, x = t.addr + BitVec.ofNat 64 k ∧
      b = f (t.offset + BitVec.ofNat 64 k) := by
  unfold Section.writes at h
  split at h
  · rename_i hx
    refine ⟨hx.1, (x - t.addr).toNat, hx.2, (add_distance t.addr x).symm, ?_⟩
    rw [BitVec.ofNat_toNat, BitVec.setWidth_eq]
    exact (Option.some.inj h).symm
  · cases h

theorem writes_section_eq_none {t : Section} {x : U64} :
    t.writes f x = none ↔ (t.isAlloc = true → ¬ (x - t.addr).toNat < t.size.toNat) := by
  unfold Section.writes
  rw [ite_eq_right_iff]
  constructor
  · intro h halloc hx
    exact nomatch h ⟨halloc, hx⟩
  · intro h hx
    exact absurd hx.2 (h hx.1)

variable (h : DescribedBothWays f f')

include h

/-- What the segments have at an address of an allocated section. -/
theorem DescribedBothWays.segmentByte {t : Section} (ht : t ∈ f.sections)
    (halloc : t.isAlloc = true) {k : Nat} (hk : k < t.size.toNat) :
    overlay (Segment.writes f) f.segments (t.addr + BitVec.ofNat 64 k)
      = some (if t.type = shtNobits then 0 else f' (t.offset + BitVec.ofNat 64 k)) := by
  obtain ⟨s, hs, hplaced⟩ := h.placed t ht halloc (by omega)
  have hload := h.onlyLoads s hs
  have hfile := h.loads.filesz s hs hload
  have hwrap := h.loads.noWrap s hs hload
  have hall : f.segments.filter Segment.isLoad = f.segments :=
    List.filter_eq_self.mpr h.onlyLoads
  have hstart := hplaced.start
  have hend : t.addr.toNat + t.size.toNat ≤ s.paddr.toNat + s.memsz.toNat := by
    by_cases hbits : t.type = shtNobits
    · exact (hplaced.tail hbits).2
    · have hle := (hplaced.bits hbits).2
      omega
  have hcov : s.Covers (t.addr + BitVec.ofNat 64 k) := by
    unfold Segment.Covers
    bv_omega
  have hoverlay := overlay_loads_of_covers h.loads hs hload hcov
  rw [hall] at hoverlay
  rw [hoverlay]
  refine congrArg some ?_
  unfold Segment.image
  by_cases hbits : t.type = shtNobits
  · have htail := (hplaced.tail hbits).1
    rw [if_pos hbits, if_neg]
    bv_omega
  · obtain ⟨hoffset, hle⟩ := hplaced.bits hbits
    have hin : (t.addr + BitVec.ofNat 64 k - s.paddr).toNat < s.filesz.toNat := by bv_omega
    have hbyte : s.offset + BitVec.ofNat 64 (t.addr + BitVec.ofNat 64 k - s.paddr).toNat
        = t.offset + BitVec.ofNat 64 k := by
      rw [BitVec.ofNat_toNat, BitVec.setWidth_eq]
      bv_omega
    rw [if_neg hbits, if_pos hin, hbyte, h.contents t ht halloc hbits k hk]

/-- What the sections leave at an address of one of them: the byte of the last section
that has the address. -/
theorem DescribedBothWays.sectionByte {t : Section} (ht : t ∈ f.sections)
    (halloc : t.isAlloc = true) {k : Nat} (hk : k < t.size.toNat) :
    ∃ before u after j, f.sections = before ++ u :: after ∧ u.isAlloc = true ∧ j < u.size.toNat ∧
      t.addr + BitVec.ofNat 64 k = u.addr + BitVec.ofNat 64 j ∧
      (∀ v ∈ after, v.writes f' (t.addr + BitVec.ofNat 64 k) = none) ∧
      overlay (Section.writes f') f'.sections (t.addr + BitVec.ofNat 64 k)
        = some (f' (u.offset + BitVec.ofNat 64 j)) := by
  rw [h.sections]
  cases hov : overlay (Section.writes f') f.sections (t.addr + BitVec.ofNat 64 k) with
  | none =>
      have hno := overlay_eq_none.mp hov t ht
      rw [writes_section halloc hk] at hno
      cases hno
  | some b =>
      obtain ⟨before, u, after, hl, hu, hafter⟩ := overlay_eq_some.mp hov
      obtain ⟨hualloc, j, hj, hx, rfl⟩ := at_of_writes_section hu
      exact ⟨before, u, after, j, hl, hualloc, hj, hx, hafter, rfl⟩

/-- The two loops agree at an address whose last section has its bytes in the file, or a
zero in their place. -/
theorem DescribedBothWays.same_of_zero (hzero : NobitsZeroInFile f f') {t : Section}
    (ht : t ∈ f.sections) (halloc : t.isAlloc = true) {k : Nat} (hk : k < t.size.toNat) :
    overlay (Section.writes f') f'.sections (t.addr + BitVec.ofNat 64 k)
      = overlay (Segment.writes f) f.segments (t.addr + BitVec.ofNat 64 k) := by
  obtain ⟨before, u, after, j, hl, hualloc, hj, hx, hafter, hbyte⟩ := h.sectionByte ht halloc hk
  have hu : u ∈ f.sections := by rw [hl]; simp
  rw [hbyte, hx, h.segmentByte hu hualloc hj]
  by_cases hbits : u.type = shtNobits
  · rw [if_pos hbits, hzero before u after hl hualloc hbits j hj fun v hv hvalloc => ?_]
    rw [← hx]
    exact writes_section_eq_none.mp (hafter v hv) hvalloc
  · rw [if_neg hbits]

theorem DescribedBothWays.memory_sections (hm : memory ≠ 0) (mem : U64 → Byte) (x : U64) :
    (exec f' (elfLoaderInstantiate (some elf) memory) mem).memory (memory + x)
      = (overlay (Section.writes f') f'.sections x).getD (mem (memory + x)) :=
  memory_instantiate_sections h.removed h.table hm mem x

theorem DescribedBothWays.memory_segments (hm : memory ≠ 0) (mem : U64 → Byte) (x : U64) :
    (exec f (elfLoaderInstantiate (some elf) memory) mem).memory (memory + x)
      = (overlay (Segment.writes f) f.segments x).getD (mem (memory + x)) :=
  memory_elfLoaderInstantiate h.segments hm mem x

/-- The byte the section loop leaves in a section it has the last word on. -/
theorem DescribedBothWays.lastByte {before after : List Section} {t : Section}
    (hl : f.sections = before ++ t :: after) (halloc : t.isAlloc = true) {k : Nat}
    (hk : k < t.size.toNat) (hafter : ∀ u ∈ after, u.isAlloc = true →
      ¬ (t.addr + BitVec.ofNat 64 k - u.addr).toNat < u.size.toNat)
    (hm : memory ≠ 0) (mem : U64 → Byte) :
    (exec f' (elfLoaderInstantiate (some elf) memory) mem).memory
      (memory + (t.addr + BitVec.ofNat 64 k)) = f' (t.offset + BitVec.ofNat 64 k) := by
  have hov : overlay (Section.writes f') f'.sections (t.addr + BitVec.ofNat 64 k)
      = some (f' (t.offset + BitVec.ofNat 64 k)) := by
    rw [h.sections]
    refine overlay_eq_some.mpr ⟨before, t, after, hl, writes_section halloc hk, fun u hu => ?_⟩
    exact writes_section_eq_none.mpr (hafter u hu)
  rw [h.memory_sections hm, hov]
  rfl

end Images

/--
**When the section fallback builds the image of the segments.**

Exactly when the file has zeros where the sections without bytes in it would have theirs,
as far as no later section covers them.  Everywhere else the two loops agree.
-/
theorem elfLoaderInstantiate_fallback_iff (f f' : File) (elf : Elf) (memory : U64)
    (h : DescribedBothWays f f') (hm : memory ≠ 0) :
    SameImage f f' elf memory ↔ NobitsZeroInFile f f' := by
  constructor
  · intro hsame before t after hl halloc hbits k hk hafter
    have ht : t ∈ f.sections := by rw [hl]; simp
    have hzero := (hsame (fun _ => 0) t ht halloc k hk).2 hbits
    rw [h.lastByte hl halloc hk hafter hm] at hzero
    exact hzero
  · intro hzero mem t ht halloc k hk
    have hsame := h.same_of_zero hzero ht halloc hk
    refine ⟨?_, fun hbits => ?_⟩
    · rw [h.memory_sections hm, h.memory_segments hm, hsame]
    · rw [h.memory_sections hm, hsame, h.segmentByte ht halloc hk, if_pos hbits]
      rfl

/-- One byte of data and one byte of `.bss`, both in one segment; `offset` is where the
header of `.bss` says its bytes would be. -/
def dataBssFile (offset : U64) (phoff : Nat) : File :=
  File.ofBytes
    (({ phoff := phoff, shoff := 120, phnum := 1, shnum := 2 } : Header).bytes ++
      (⟨ptLoad, 6, 248, 0, 0, 1, 2, 0⟩ : Segment).bytes ++
      (⟨0, 1, 2, 0, 248, 1, 0⟩ : Section).bytes ++
      (⟨0, shtNobits, 2, 1, offset, 1, 0⟩ : Section).bytes ++ [0x11, 0x22])

theorem dataBssFile_segments (offset : U64) (hoffset : offset = 249 ∨ offset = 250) :
    (dataBssFile offset 64).segments = [⟨ptLoad, 6, 248, 0, 0, 1, 2, 0⟩] := by
  rcases hoffset with rfl | rfl <;> decide +kernel

theorem dataBssFile_sections (offset : U64) (hoffset : offset = 249 ∨ offset = 250) (phoff : Nat)
    (hphoff : phoff = 0 ∨ phoff = 64) : (dataBssFile offset phoff).sections
      = [⟨0, 1, 2, 0, 248, 1, 0⟩, ⟨0, shtNobits, 2, 1, offset, 1, 0⟩] := by
  rcases hoffset with rfl | rfl <;> rcases hphoff with rfl | rfl <;> decide +kernel

theorem dataBssFile_described (offset : U64) (hoffset : offset = 249 ∨ offset = 250) :
    DescribedBothWays (dataBssFile offset 64) (dataBssFile offset 0) := by
  have hsegments := dataBssFile_segments offset hoffset
  have hsections := dataBssFile_sections offset hoffset 64 (Or.inr rfl)
  have hsections' := dataBssFile_sections offset hoffset 0 (Or.inl rfl)
  refine ⟨?_, ?_, ⟨?_, ?_, ?_⟩, ?_, ?_, ?_, hsections'.trans hsections.symm, ?_⟩
  · rcases hoffset with rfl | rfl <;> decide +kernel
  · rw [hsegments]; decide
  · rw [hsegments]; decide
  · rw [hsegments]; decide
  · rw [hsegments]; exact List.pairwise_singleton _ _
  · intro t ht _ _
    refine ⟨_, hsegments ▸ List.mem_singleton.mpr rfl, ?_⟩
    rw [hsections, List.mem_cons, List.mem_singleton] at ht
    rcases ht with rfl | rfl
    · exact ⟨by decide, fun _ => by decide, fun hbits => absurd hbits (by decide)⟩
    · exact ⟨Nat.zero_le 1, fun hbits => absurd rfl hbits, fun _ => ⟨Nat.le_refl 1, Nat.le_refl 2⟩⟩
  · rcases hoffset with rfl | rfl <;> decide +kernel
  · rcases hoffset with rfl | rfl <;> decide +kernel
  · intro t ht _ hbits k hk
    rw [hsections, List.mem_cons, List.mem_singleton] at ht
    rcases ht with rfl | rfl
    · have hk0 : k = 0 := Nat.lt_one_iff.mp hk
      subst hk0
      rcases hoffset with rfl | rfl <;> decide +kernel
    · exact absurd rfl hbits

/-- With the offset of `.bss` behind the end of the file the images are the same. -/
theorem dataBssFile_same : SameImage (dataBssFile 250 64) (dataBssFile 250 0) ⟨250⟩ 0x1000 := by
  refine (elfLoaderInstantiate_fallback_iff (dataBssFile 250 64) (dataBssFile 250 0) ⟨250⟩ 0x1000
    (dataBssFile_described 250 (Or.inr rfl)) (by decide)).mpr ?_
  intro before t after hl _ hbits k hk _
  have ht : t ∈ (dataBssFile 250 64).sections := by rw [hl]; simp
  rw [dataBssFile_sections 250 (Or.inr rfl) 64 (Or.inr rfl), List.mem_cons,
    List.mem_singleton] at ht
  rcases ht with rfl | rfl
  · exact absurd hbits (by decide)
  · have hk0 : k = 0 := Nat.lt_one_iff.mp hk
    subst hk0
    decide +kernel

/-- With other contents of the file there, `.bss` starts out with them. -/
theorem dataBssFile_not_same :
    ¬ ∀ (f f' : File) (elf : Elf) (memory : U64), DescribedBothWays f f' → memory ≠ 0 →
      SameImage f f' elf memory := by
  intro h
  have hbyte := (h (dataBssFile 249 64) (dataBssFile 249 0) ⟨250⟩ 0x1000
    (dataBssFile_described 249 (Or.inl rfl)) (by decide) (fun _ => 0)
    ⟨0, shtNobits, 2, 1, 249, 1, 0⟩
    (by rw [dataBssFile_sections 249 (Or.inl rfl) 64 (Or.inr rfl)]; decide) (by decide) 0
    (by decide)).2 rfl
  exact absurd hbyte (by decide +kernel)

end LibPS4
