/-
How far into a table its entries are.

Stride and length of a table are 16 bits wide and unsigned, but the product of an index and
the stride is an `int`: the offset of an entry is exact up to `INT_MAX`, which is half of
what the operands could reach.  The last entry of a table has the largest offset, so a
table is walked exactly if its last entry is.

The tables are those of the section headers, of the program headers and of the dynamic
symbols.  `LoopsOver` says of each function that walks one of them which addresses its loop
goes over.
-/
import LibPS4.Elf.Build
import LibPS4.Proofs.Instantiate
import LibPS4.Proofs.Named

namespace LibPS4

open Effects Prog

/-- Every entry of the table is at the exact product of its index and the stride. -/
def Table.OffsetsExact (t : Table) : Prop :=
  ∀ i < t.length.toNat, (t.entry i - t.base).toNat = i * t.size.toNat

/-- The offset of the last entry is an `int`. -/
def Table.LastFits (t : Table) : Prop := (t.length.toNat - 1) * t.size.toNat < 2 ^ 31

instance (t : Table) : Decidable t.LastFits := inferInstanceAs (Decidable (_ < _))

theorem Table.offset_eq_iff (t : Table) {i : Nat} (hi : i < t.length.toNat) :
    (t.entry i - t.base).toNat = i * t.size.toNat ↔ i * t.size.toNat < 2 ^ 31 := by
  have hlength := t.length.isLt
  have hsize := t.size.isLt
  have hproduct : i * t.size.toNat < 2 ^ 32 := by
    calc i * t.size.toNat ≤ 2 ^ 16 * t.size.toNat := Nat.mul_le_mul_right _ (by omega)
      _ < 2 ^ 32 := by omega
  have hoffset : t.entry i - t.base = entryOffset i t.size := by
    unfold Table.entry
    rw [BitVec.add_comm, BitVec.add_sub_cancel]
  rw [hoffset, ← entryOffset_eq_iff hproduct, ← BitVec.toNat_inj, BitVec.toNat_ofNat,
    Nat.mod_eq_of_lt (by omega)]

theorem Table.offsetsExact_iff (t : Table) : t.OffsetsExact ↔ t.LastFits := by
  unfold Table.OffsetsExact Table.LastFits
  constructor
  · intro h
    by_cases hempty : t.length.toNat = 0
    · rw [hempty]
      omega
    · exact (t.offset_eq_iff (by omega)).mp (h (t.length.toNat - 1) (by omega))
  · intro hlast i hi
    refine (t.offset_eq_iff hi).mpr ?_
    calc i * t.size.toNat ≤ (t.length.toNat - 1) * t.size.toNat :=
          Nat.mul_le_mul_right _ (by omega)
      _ < 2 ^ 31 := hlast

/-! ### The functions that walk tables -/

inductive Walker
  | elfSection
  | elfSegment
  | elfMemorySize
  | elfLoaderInstantiate
  | elfLoaderRelativeAddressIsExecutable
  | elfLoaderRelocate

/-- Those that take the segments, or the sections where there are none. -/
def Walker.walksEither : Walker → Bool
  | .elfMemorySize | .elfLoaderInstantiate | .elfLoaderRelativeAddressIsExecutable => true
  | _ => false

/-- The table a function walks in a file. -/
inductive Walks (f : File) (elf : Elf) : Walker → Table → Prop
  | elfSection {t : Table} (h : result f (elfSections (some elf)) = .ok (some t)) :
      Walks f elf .elfSection t
  | elfSegment {t : Table} (h : result f (elfSegments (some elf)) = .ok (some t)) :
      Walks f elf .elfSegment t
  | segments {w : Walker} {t : Table} (hw : w.walksEither = true)
      (h : result f (elfSegments (some elf)) = .ok (some t)) : Walks f elf w t
  | sections {w : Walker} {t : Table} (hw : w.walksEither = true)
      (hnone : result f (elfSegments (some elf)) = .ok none)
      (h : result f (elfSections (some elf)) = .ok (some t)) : Walks f elf w t
  | elfLoaderRelocate {t : Table}
      (h : result f (elfSymbols (some elf) dynsymName) = .ok (some t)) :
      Walks f elf .elfLoaderRelocate t

/-- Where a function looks for an entry of the table. -/
def Walker.entry (t : Table) (index : Nat) : Walker → U64
  | .elfLoaderRelocate => t.base + entryOffset index t.size
  | _ => t.entry index

/-- The loop of a function goes over these addresses: it knows the table by them only.
`elfLoaderInstantiate` stores what its body stores at each of them, and `elfLoaderRelocate`,
which has no loop over the symbols, gets to the one it needs. -/
def LoopsOver : Walker → Prop
  | .elfSection => ∀ attr value, ∃ body : U64 → Nat → ElfProg (Option (U64 × Nat)),
      ∀ t n index, elfSectionLoop t attr value n index
        = Prog.findFrom (fun i => body (Walker.elfSection.entry t i) i) n index
  | .elfSegment => ∀ attr value, ∃ body : U64 → Nat → ElfProg (Option (U64 × Nat)),
      ∀ t n index, elfSegmentLoop t attr value n index
        = Prog.findFrom (fun i => body (Walker.elfSegment.entry t i) i) n index
  | .elfMemorySize => ∀ addr size, ∃ body : U64 → U64 → ElfProg U64,
      ∀ t, maxEnd addr size t
        = Prog.foldFrom (fun i => body (Walker.elfMemorySize.entry t i)) t.length.toNat 0 0
  | .elfLoaderInstantiate => ∀ (f : File) elf memory t, memory ≠ 0 →
      Walks f elf .elfLoaderInstantiate t →
      let body := if f.phoff = 0 then instantiateSection memory else instantiateSegment memory
      stores f (elfLoaderInstantiate (some elf) memory)
        = stores f (Prog.forFrom (fun i => body (Walker.elfLoaderInstantiate.entry t i))
            t.length.toNat 0)
  | .elfLoaderRelativeAddressIsExecutable => ∀ addr size flag,
      ∃ body : U64 → U64 → ElfProg (Option U32), ∀ t address, flagOfAddress addr size flag t address
        = Prog.findFrom
          (fun i => body address (Walker.elfLoaderRelativeAddressIsExecutable.entry t i))
          t.length.toNat 0
  | .elfLoaderRelocate => ∀ t symbol, symbolValue (some t.base) t.size symbol
      = ElfSymbol.stValue (Walker.elfLoaderRelocate.entry t symbol.toNat)

theorem loopsOver_elfLoaderInstantiate : LoopsOver .elfLoaderInstantiate := by
  intro f elf memory t hm ht
  unfold elfLoaderInstantiate
  dsimp only
  rw [if_neg hm, stores_bind, quiet_elfSegments.stores_eq, List.nil_append]
  cases ht with
  | segments _ h =>
      have hph : f.phoff ≠ 0 := by
        intro hph
        rw [result_elfSegments, if_pos hph] at h
        cases h
      rw [h, if_neg hph, onOk_ok]
      dsimp only
      rw [stores_bind, result_forFrom fun k => result_instantiateSegment _, onOk_ok]
      exact List.append_nil _
  | sections _ hnone h =>
      have hph : f.phoff = 0 := by
        by_contra hph
        rw [result_elfSegments, if_neg hph] at hnone
        cases hnone
      rw [hnone, if_pos hph, onOk_ok]
      dsimp only
      rw [stores_bind, quiet_elfSections.stores_eq, List.nil_append, h, onOk_ok]
      dsimp only
      rw [stores_bind, result_forFrom fun k => result_instantiateSection _, onOk_ok]
      exact List.append_nil _

theorem loopsOver (w : Walker) : LoopsOver w := by
  cases w with
  | elfSection =>
      intro attr value
      refine ⟨fun t i => do
        if attr = .none then
          return some (t, i)
        if (← elfSectionAttribute t attr) = value then
          return some (t, i)
        return none, fun _ _ _ => rfl⟩
  | elfSegment =>
      intro attr value
      refine ⟨fun t i => do
        if attr = .none then
          return some (t, i)
        if (← elfSegmentAttribute t attr) = value then
          return some (t, i)
        return none, fun _ _ _ => rfl⟩
  | elfMemorySize =>
      intro addr size
      refine ⟨fun s memorySize => do
        let a ← addr s
        let n ← size s
        return if memorySize < a + n then a + n else memorySize, fun _ => rfl⟩
  | elfLoaderInstantiate => exact loopsOver_elfLoaderInstantiate
  | elfLoaderRelativeAddressIsExecutable =>
      intro addr size flag
      refine ⟨fun address s => do
        let a ← addr s
        if address < a then
          return none
        let n ← size s
        if a + n < address then
          return none
        return some (← flag s), fun _ _ => rfl⟩
  | elfLoaderRelocate => exact fun _ _ => rfl

/-- **Offsets into tables.**  The loops go over these addresses, and every offset of every walk
is exact if and only if the offset of each table's last entry is an `int`. -/
theorem walks_exact_iff (f : File) (elf : Elf) :
    (∀ w, LoopsOver w) ∧
      ((∀ w t, Walks f elf w t → ∀ i < t.length.toNat,
          (w.entry t i - t.base).toNat = i * t.size.toNat) ↔
        ∀ w t, Walks f elf w t → t.LastFits) := by
  refine ⟨loopsOver, forall_congr' fun w => forall_congr' fun t => forall_congr' fun _ => ?_⟩
  rw [← t.offsetsExact_iff]
  cases w <;> exact Iff.rfl

/-- A header that announces 65535 sections of 65535 bytes. -/
def wideFile : File :=
  File.ofBytes
    ({ phoff := 64, shoff := 64, phnum := 0, shentsize := 65535, shnum := 65535 } : Header).bytes

/-- The entry with index 65534 is before the table. -/
theorem wideFile_not_exact :
    ¬ ∀ (f : File) (elf : Elf) (w : Walker) (t : Table), Walks f elf w t →
      ∀ i < t.length.toNat, (w.entry t i - t.base).toNat = i * t.size.toNat := by
  intro h
  have hwalk : Walks wideFile ⟨64⟩ .elfSection wideFile.sectionTable :=
    .elfSection (by rw [result_elfSections, if_neg (by decide +kernel)])
  have hexact := h wideFile ⟨64⟩ .elfSection wideFile.sectionTable hwalk 65534 (by decide +kernel)
  have hoffset : (Walker.elfSection.entry wideFile.sectionTable 65534
      - wideFile.sectionTable.base).toNat = 2 ^ 64 - 196606 := by decide +kernel
  have hproduct : 65534 * wideFile.sectionTable.size.toNat = 65534 * 65535 := by decide +kernel
  rw [hoffset, hproduct] at hexact
  exact absurd hexact (by decide)

end LibPS4
