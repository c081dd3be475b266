/-
What a load leaves in memory.

The two passes are one list of writers: the program headers in the order of their table,
and then the slots that are relocated, in theirs.  The memory after a load is what the last
of them puts in each byte.  That holds of every accepted file, however its headers and
slots overlap, and also of a load that stops at a relocation it does not know.

For a well-formed file the list can be read backwards: a byte is that of its slot, or else
that of its loadable segment, or else what it was.
-/
import LibPS4.Proofs.Containment
import LibPS4.Proofs.EndToEnd
import LibPS4.Proofs.Instantiate
import LibPS4.Proofs.Rebase

namespace LibPS4

open Effects Prog

variable {f : File} {elf : Elf} {w e : U64}

/-! ### Writers -/

/-- A program header, or eight bytes at an offset. -/
inductive Piece
  | segment (s : Segment)
  | slot (offset word : U64)

/-- What it puts at offset `x`, if it writes there. -/
def Piece.writes (f : File) : Piece → U64 → Option Byte
  | .segment s, x => s.writes f x
  | .slot offset word, x =>
      if (x - offset).toNat < 8 then some (byteOf word.toNat (x - offset).toNat) else none

def Piece.stores (f : File) (w : U64) : Piece → List (U64 × Byte)
  | .segment s => segmentStores f w s
  | .slot offset word => span (w + offset) 8 (byteOf word.toNat)

theorem Piece.replay_stores (p : Piece) (mem : U64 → Byte) (x : U64) :
    replay (p.stores f w) mem (w + x) = (p.writes f x).getD (mem (w + x)) := by
  cases p with
  | segment s => exact replay_segmentStores s mem x
  | slot offset word =>
      have hdist : w + x - (w + offset) = x - offset := by bv_omega
      simp only [Piece.stores, Piece.writes]
      rw [replay_span (by omega), hdist]
      split <;> rfl

/-- The slot of an entry, with the word that is stored there if it has a value. -/
def Rela.slot (f : File) (w e : U64) (symbols : Option Table) (r : Rela) : Piece :=
  .slot r.offset (match r.value f symbols with
    | .ok (some v) => f.rebased w e v
    | _ => 0)

/-- The slots that are relocated. -/
def appliedSlots (f : File) (elf : Elf) (w e : U64) : List Piece :=
  onOk (result f (elfSymbols (some elf) dynsymName)) fun symbols =>
    ((relocations f elf).takeWhile (Rela.applies f symbols)).map (Rela.slot f w e symbols)

def pieces (f : File) (elf : Elf) (w e : U64) : List Piece :=
  f.segments.map .segment ++ appliedSlots f elf w e

theorem stores_slot {symbols : Option Table} {r : Rela} (h : r.applies f symbols = true) :
    (r.slot f w e symbols).stores f w = entryStores f w e symbols r := by
  obtain ⟨v, hv⟩ := value_of_applies h
  simp only [Rela.slot, Piece.stores, entryStores, hv]

theorem flatMap_appliedSlots :
    (appliedSlots f elf w e).flatMap (Piece.stores f w) = relocateStores f elf w e := by
  unfold appliedSlots relocateStores
  cases result f (elfSymbols (some elf) dynsymName) with
  | error err => rfl
  | ok symbols =>
      rw [onOk_ok, onOk_ok, walkStores, List.flatMap_map]
      exact List.flatMap_congr fun r hr => stores_slot (List.mem_takeWhile_imp hr)

theorem flatMap_pieces (hw : w ≠ 0) (he : e ≠ 0)
    (hload : result f (elfLoaderIsLoadable (some elf)) = .ok true) :
    (pieces f elf w e).flatMap (Piece.stores f w) = stores f (elfLoaderLoad (some elf) w e) := by
  rw [pieces, List.flatMap_append, List.flatMap_map, flatMap_appliedSlots,
    stores_elfLoaderLoad hw he hload]
  rfl

/--
**A load is the overlay of its pieces.**

For every file that is accepted, well formed or not, every two bases that are not `NULL`,
every memory and whatever the load returns: every byte of memory holds what the last of the
program headers and the relocated slots puts there, and keeps its value if none does.
-/
theorem elfLoaderLoad_image (f : File) (elf : Elf) (w e : U64) (mem : U64 → Byte) (x : U64)
    (hw : w ≠ 0) (he : e ≠ 0) (hload : result f (elfLoaderIsLoadable (some elf)) = .ok true) :
    (exec f (elfLoaderLoad (some elf) w e) mem).memory (w + x)
      = (overlay (Piece.writes f) (pieces f elf w e) x).getD (mem (w + x)) := by
  rw [memory_exec, ← flatMap_pieces hw he hload]
  exact replay_flatMap Piece.replay_stores (pieces f elf w e) mem x

/-- The first byte of the segment, the second of the slot over its middle, and nothing
beyond. -/
theorem slotFile_image :
    (exec (slotFile 8) (elfLoaderLoad (some ⟨357⟩) 0x1000 0x2000) fun _ => 7).memory (0x1000 + 0)
        = 0x7f ∧
      (exec (slotFile 8) (elfLoaderLoad (some ⟨357⟩) 0x1000 0x2000) fun _ => 7).memory (0x1000 + 9)
        = 0x10 ∧
      (exec (slotFile 8) (elfLoaderLoad (some ⟨357⟩) 0x1000 0x2000) fun _ => 7).memory (0x1000 + 20)
        = 7 := by
  have himage := fun x => elfLoaderLoad_image (slotFile 8) ⟨357⟩ 0x1000 0x2000 (fun _ => 7) x
    (by decide) (by decide) (by decide +kernel)
  rw [himage 0, himage 9, himage 20]
  decide +kernel

/-! ### Well-formed files -/

theorem memory_elfLoaderLoad (hw : w ≠ 0) (he : e ≠ 0)
    (hload : result f (elfLoaderIsLoadable (some elf)) = .ok true) (mem : U64 → Byte) :
    (exec f (elfLoaderLoad (some elf) w e) mem).memory
      = (exec f (elfLoaderRelocate (some elf) w e)
          (exec f (elfLoaderInstantiate (some elf) w) mem).memory).memory := by
  have hph := (tables_of_loadable hload).1
  rw [memory_exec, memory_exec, memory_exec, stores_elfLoaderLoad hw he hload, replay_append,
    stores_elfLoaderRelocate hw he, stores_elfLoaderInstantiate hw, instantiateStores, if_pos hph]

theorem result_elfLoaderLoad (hw : w ≠ 0) (he : e ≠ 0)
    (hload : result f (elfLoaderIsLoadable (some elf)) = .ok true) :
    result f (elfLoaderLoad (some elf) w e) = result f (elfLoaderRelocate (some elf) w e) := by
  simp only [elfLoaderLoad, hw, he, if_false, result_bind, hload, ok_bind, Bool.true_eq_false,
    result_elfLoaderInstantiate hw]

/-- No slot before the first unsupported entry reaches offset `x`. -/
def Unrelocated (f : File) (elf : Elf) (x : U64) : Prop :=
  ∀ r ∈ (f.allRelas elf).takeWhile Rela.supported, x ∉ extent r.offset 8

/-- The relocations leave the rest of memory alone. -/
theorem Relocatable.memory_unrelocated {syms : Section} (h : Relocatable f elf syms) (hw : w ≠ 0)
    (he : e ≠ 0) (mem : U64 → Byte) {x : U64} (hx : Unrelocated f elf x) :
    (exec f (elfLoaderRelocate (some elf) w e) mem).memory (w + x) = mem (w + x) := by
  rw [memory_exec, h.stores_eq hw he]
  refine replay_of_notMem ?_ mem
  rw [List.map_flatMap, List.mem_flatMap]
  rintro ⟨r, hr, hmem⟩
  rw [map_fst_slotStores, mem_extent (by omega)] at hmem
  refine hx r hr ((mem_extent (by omega)).mpr ?_)
  rwa [show w + x - (w + r.offset) = x - r.offset by bv_omega] at hmem

/-- A file with everything in its place: the loadable segments do not overlap and nothing
else spoils them, and the relocations can be read. -/
structure Loadable (f : File) (elf : Elf) (syms : Section) : Prop where
  accepted : result f (elfLoaderIsLoadable (some elf)) = .ok true
  segments : LoadsWellFormed f
  others : OthersHarmless f
  relocations : Relocatable f elf syms

theorem Loadable.instantiates {syms : Section} (h : Loadable f elf syms) (hw : w ≠ 0) :
    InstantiatesLoads f elf w := by
  rw [instantiatesLoads_iff_overlay (tables_of_loadable h.accepted).1 hw h.segments]
  exact (overlay_eq_filter_iff Segment.isLoad (loads_agree h.segments)).mpr h.others

/-- The alias picked for an address of a loadable segment is the segment's: no header of the
other kind claims the address first, and no segment ends where the addresses do. -/
structure AliasesClear (f : File) : Prop where
  noWrap : ∀ s ∈ f.segments, s.isLoad = true → s.paddr.toNat + s.memsz.toNat < 2 ^ 64
  notShadowed : NotShadowed Segment.paddr Segment.memsz Segment.isLoad Segment.isExecutable
    f.segments

theorem AliasesClear.rebased_eq (h : AliasesClear f) (hph : f.phoff ≠ 0) {s : Segment}
    (hs : s ∈ f.segments) (hload : s.isLoad = true) {v : U64} (hv : s.Covers v) :
    f.rebased w e v = (if s.isExecutable = true then e else w) + v := by
  have hflag := (firstFlag_iff_notShadowed pfX_ne_zero h.noWrap).mpr h.notShadowed s hs
    hload v hv
  unfold File.rebased File.isExecutable
  rw [if_pos hph]
  by_cases hexec : s.isExecutable = true
  · rw [if_pos (hflag.mpr hexec), if_pos hexec]
  · rw [if_neg fun hc => hexec (hflag.mp hc), if_neg hexec]

section Loads

variable {syms : Section} (h : Loadable f elf syms) (hw : w ≠ 0) (he : e ≠ 0) (mem : U64 → Byte)
include h hw he

theorem Loadable.status : (exec f (elfLoaderLoad (some elf) w e) mem).result
    = .ok (if ∀ r ∈ f.allRelas elf, r.supported = true then .ok else .unknownRelocation) := by
  rw [exec_eq]
  exact (result_elfLoaderLoad hw he h.accepted).trans (h.relocations.result_eq hw he)

theorem Loadable.slot {r : Rela} (hr : r ∈ (f.allRelas elf).takeWhile Rela.supported) :
    le64 (exec f (elfLoaderLoad (some elf) w e) mem).memory (w + r.offset)
      = f.rebased w e (r.target f syms) := by
  rw [memory_elfLoaderLoad hw he h.accepted]
  exact h.relocations.slot_eq hw he _ hr

theorem Loadable.inside {s : Segment} (hs : s ∈ f.segments) (hload : s.isLoad = true) {k : Nat}
    (hk : k < s.memsz.toNat) (hx : Unrelocated f elf (s.paddr + BitVec.ofNat 64 k)) :
    (exec f (elfLoaderLoad (some elf) w e) mem).memory (w + (s.paddr + BitVec.ofNat 64 k))
      = s.image f k := by
  rw [memory_elfLoaderLoad hw he h.accepted, h.relocations.memory_unrelocated hw he _ hx]
  exact (h.instantiates hw mem).1 s hs hload k hk

theorem Loadable.outside {x : U64} (hx : Unrelocated f elf x)
    (hout : ∀ s ∈ f.segments, s.isLoad = true → ¬ s.Covers x) :
    (exec f (elfLoaderLoad (some elf) w e) mem).memory (w + x) = mem (w + x) := by
  rw [memory_elfLoaderLoad hw he h.accepted, h.relocations.memory_unrelocated hw he _ hx]
  exact (h.instantiates hw mem).2 x hout

end Loads

/--
**What a load of a well-formed file does.**

The status says whether every relocation is of a supported type.  A slot before the first
unsupported one holds its target, added to the base `elfLoaderRelativeAddressIsExecutable`
picks for it, which is that of the segment the target lies in if no header gets in the way of
it; any other byte of a loadable segment is the byte of the file, or zero past the file's part
of it; and every byte outside the segments and the slots keeps its value.
-/
theorem elfLoaderLoad_loads (f : File) (elf : Elf) (syms : Section) (h : Loadable f elf syms)
    (w e : U64) (hw : w ≠ 0) (he : e ≠ 0) (mem : U64 → Byte) :
    let o := exec f (elfLoaderLoad (some elf) w e) mem
    o.result = .ok (if ∀ r ∈ f.allRelas elf, r.supported = true then .ok else .unknownRelocation) ∧
    (∀ r ∈ (f.allRelas elf).takeWhile Rela.supported,
      le64 o.memory (w + r.offset) = f.rebased w e (r.target f syms)) ∧
    (AliasesClear f → ∀ r ∈ (f.allRelas elf).takeWhile Rela.supported, ∀ s ∈ f.segments,
      s.isLoad = true → s.Covers (r.target f syms) →
        le64 o.memory (w + r.offset)
          = (if s.isExecutable = true then e else w) + r.target f syms) ∧
    (∀ s ∈ f.segments, s.isLoad = true → ∀ k < s.memsz.toNat,
      Unrelocated f elf (s.paddr + BitVec.ofNat 64 k) →
        o.memory (w + (s.paddr + BitVec.ofNat 64 k)) = s.image f k) ∧
    ∀ x, Unrelocated f elf x → (∀ s ∈ f.segments, s.isLoad = true → ¬ s.Covers x) →
      o.memory (w + x) = mem (w + x) := by
  intro o
  have hph := (tables_of_loadable h.accepted).1
  refine ⟨h.status hw he mem, fun r hr => h.slot hw he mem hr,
    fun hclear r hr s hs hload htarget => ?_, fun s hs hload k hk hx => ?_,
    fun x hx hout => h.outside hw he mem hx hout⟩
  · exact (h.slot hw he mem hr).trans (hclear.rebased_eq hph hs hload htarget)
  · exact h.inside hw he mem hs hload hk hx

theorem symbolFile_segments : symbolFile.segments
    = [⟨ptLoad, 5, 0, 0, 0, 16, 16, 0⟩, ⟨ptLoad, 6, 0, 0, 64, 32, 64, 0⟩] := by
  decide +kernel

theorem symbolFile_loadable : Loadable symbolFile ⟨581⟩ symbolFileDynsym := by
  have hloads : ∀ s ∈ symbolFile.segments, s.isLoad = true := by
    rw [symbolFile_segments]
    decide
  refine ⟨by decide +kernel, ⟨?_, ?_, ?_⟩, fun before s after hsplit hnot => ?_,
    symbolFile_relocatable⟩
  · rw [symbolFile_segments]
    decide
  · rw [symbolFile_segments]
    decide
  · have happart : (symbolFile.segments.filter Segment.isLoad).Pairwise fun s t =>
        s.paddr.toNat + s.memsz.toNat ≤ t.paddr.toNat := by
      rw [symbolFile_segments]
      decide
    exact happart.imp fun hst x hs ht => Nat.lt_irrefl _
      (Nat.lt_of_lt_of_le hs.2 (Nat.le_trans hst ht.1))
  · rw [hloads s (by rw [hsplit]; simp)] at hnot
    cases hnot

theorem symbolFile_aliasesClear : AliasesClear symbolFile := by
  constructor
  · rw [symbolFile_segments]
    decide
  · rw [symbolFile_segments]
    refine notShadowed_of_pairwise (List.pairwise_pair.mpr fun _ a hin hclaims => ?_)
    have hlo : 64 ≤ a.toNat := hin.1
    have hhi : a.toNat ≤ 16 := hclaims.2
    omega

/-- The load stops at the third relocation, with the second slot in place: it leads to the
executable alias of the first segment. -/
theorem symbolFile_loads :
    (exec symbolFile (elfLoaderLoad (some ⟨581⟩) 0x1000 0x2000) fun _ => 7).result
        = .ok .unknownRelocation ∧
      le64 (exec symbolFile (elfLoaderLoad (some ⟨581⟩) 0x1000 0x2000) fun _ => 7).memory
        (0x1000 + 72) = 0x2000 + 6 := by
  obtain ⟨hresult, -, halias, -⟩ := elfLoaderLoad_loads symbolFile ⟨581⟩ symbolFileDynsym
    symbolFile_loadable 0x1000 0x2000 (by decide) (by decide) fun _ => 7
  have htarget : Rela.target symbolFile symbolFileDynsym ⟨72, 0x100000001, 2⟩ = 6 := by
    decide +kernel
  have hslot := halias symbolFile_aliasesClear ⟨72, 0x100000001, 2⟩
    (by rw [symbolFile_allRelas]; decide) ⟨ptLoad, 5, 0, 0, 0, 16, 16, 0⟩
    (by rw [symbolFile_segments]; simp) (by decide)
  rw [htarget] at hslot
  rw [symbolFile_allRelas] at hresult
  exact ⟨hresult.trans (by decide), hslot ⟨by decide, by decide⟩⟩

end LibPS4
