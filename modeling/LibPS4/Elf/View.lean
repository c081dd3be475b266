/-
What a file says, read without a program.

The loader's tables, as lists of records over the bytes of the file.  The records
are those the accessors of `Elf/Access.lean` walk: entry `i` is where the code looks
for it, so a table here is the table the loader sees.
-/
import LibPS4.Elf.Loader

namespace LibPS4

open Effects

/-- The bytes reachable from `elf->data`. -/
abbrev File := U64 → Byte

/-- A program header. -/
structure Segment where
  type : U32
  flags : U32
  offset : U64
  vaddr : U64
  paddr : U64
  filesz : U64
  memsz : U64
  align : U64
  deriving DecidableEq, Repr

/-- A section header. -/
structure Section where
  name : U32
  type : U32
  flags : U64
  addr : U64
  offset : U64
  size : U64
  entsize : U64
  deriving DecidableEq, Repr

/-- A relocation entry. -/
structure Rela where
  offset : U64
  info : U64
  addend : U64
  deriving DecidableEq, Repr

namespace File

variable (f : File)

def segmentAt (s : U64) : Segment where
  type := le32 f s
  flags := le32 f (s + 4)
  offset := le64 f (s + 8)
  vaddr := le64 f (s + 16)
  paddr := le64 f (s + 24)
  filesz := le64 f (s + 32)
  memsz := le64 f (s + 40)
  align := le64 f (s + 48)

def sectionAt (s : U64) : Section where
  name := le32 f s
  type := le32 f (s + 4)
  flags := le64 f (s + 8)
  addr := le64 f (s + 16)
  offset := le64 f (s + 24)
  size := le64 f (s + 32)
  entsize := le64 f (s + 56)

def relaAt (r : U64) : Rela where
  offset := le64 f r
  info := le64 f (r + 8)
  addend := le64 f (r + 16)

def phoff : U64 := le64 f 32
def shoff : U64 := le64 f 40

/-- The program header table, as `elfSegments` describes it. -/
def segmentTable : Table := ⟨f.phoff, le16 f 54, le16 f 56⟩

/-- The section header table, as `elfSections` describes it. -/
def sectionTable : Table := ⟨f.shoff, le16 f 58, le16 f 60⟩

/-- The records of a table. -/
def records {α : Type} (at_ : U64 → α) (t : Table) : List α :=
  (List.range t.length.toNat).map fun i => at_ (t.entry i)

/-- The program headers, in table order. -/
def segments : List Segment := records f.segmentAt f.segmentTable

/-- The section headers, in table order. -/
def sections : List Section := records f.sectionAt f.sectionTable

end File

/-! ### The accessors read the tables -/

section Accessors

variable {f : File} {elf : Elf}

open Prog

theorem foldl_records {α σ : Type} (at_ : U64 → α) (t : Table) (g : σ → α → σ) (s : σ) :
    (List.range' 0 t.length.toNat).foldl (fun s i => g s (at_ (t.entry i))) s
      = (File.records at_ t).foldl g s := by
  rw [File.records, List.foldl_map, List.range_eq_range']

theorem flatMap_records {α δ : Type} (at_ : U64 → α) (t : Table) (g : α → List δ) :
    ((List.range' 0 t.length.toNat).flatMap fun i => g (at_ (t.entry i)))
      = (File.records at_ t).flatMap g := by
  rw [File.records, List.flatMap_map, List.range_eq_range']

theorem findSome_records {α δ : Type} (at_ : U64 → α) (t : Table) (g : α → Option δ) :
    ((List.range' 0 t.length.toNat).findSome? fun i => g (at_ (t.entry i)))
      = (File.records at_ t).findSome? g := by
  rw [File.records, List.findSome?_map, List.range_eq_range']
  rfl

@[simp] theorem result_elfSegments :
    result f (elfSegments (some elf))
      = .ok (if f.phoff = 0 then none else some f.segmentTable) := by
  simp only [elfSegments, ElfHeader.ePhoff, ElfHeader.ePhentsize, ElfHeader.ePhnum, result_bind,
    result_fetch64, result_fetch16, ok_bind, result_ite, pure_eq, result_ret]
  unfold File.phoff File.segmentTable
  split <;> rfl

@[simp] theorem result_elfSections :
    result f (elfSections (some elf))
      = .ok (if f.shoff = 0 then none else some f.sectionTable) := by
  simp only [elfSections, ElfHeader.eShoff, ElfHeader.eShentsize, ElfHeader.eShnum, result_bind,
    result_fetch64, result_fetch16, ok_bind, result_ite, pure_eq, result_ret]
  unfold File.shoff File.sectionTable
  split <;> rfl

@[simp] theorem quiet_elfSegments : Quiet (elfSegments (some elf)) := by
  intro f
  simp only [elfSegments, ElfHeader.ePhoff, ElfHeader.ePhentsize, ElfHeader.ePhnum, stores_bind,
    result_fetch64, result_fetch16, stores_fetch64, stores_fetch16, onOk_ok, stores_ite, pure_eq,
    stores_ret]
  split <;> rfl

@[simp] theorem quiet_elfSections : Quiet (elfSections (some elf)) := by
  intro f
  simp only [elfSections, ElfHeader.eShoff, ElfHeader.eShentsize, ElfHeader.eShnum, stores_bind,
    result_fetch64, result_fetch16, stores_fetch64, stores_fetch16, onOk_ok, stores_ite, pure_eq,
    stores_ret]
  split <;> rfl

/-! ### How large the image is -/

/-- The largest end of a list of ranges, computed as the code does: wrapping sums. -/
def largestEnd (l : List (U64 × U64)) : U64 :=
  l.foldl (fun m r => if m < r.1 + r.2 then r.1 + r.2 else m) 0

/-- What `elfMemorySize` returns. -/
def File.memorySize (f : File) : U64 :=
  if f.phoff ≠ 0 then largestEnd (f.segments.map fun s => (s.paddr, s.memsz))
  else if f.shoff ≠ 0 then largestEnd (f.sections.map fun s => (s.addr, s.size))
  else 0

theorem result_maxEnd {α : Type} {addr size : U64 → ElfProg U64} (at_ : U64 → α)
    (a n : α → U64) (ha : ∀ s, result f (addr s) = .ok (a (at_ s)))
    (hn : ∀ s, result f (size s) = .ok (n (at_ s))) (t : Table) :
    result f (maxEnd addr size t)
      = .ok (largestEnd ((File.records at_ t).map fun s => (a s, n s))) := by
  unfold maxEnd largestEnd
  rw [List.foldl_map, ← foldl_records]
  refine result_foldFrom (fun k m => ?_) _ _ _
  simp only [result_bind, ha, hn, ok_bind, pure_eq, result_ret]

theorem result_elfMemorySize : result f (elfMemorySize (some elf)) = .ok f.memorySize := by
  simp only [elfMemorySize, result_bind, result_elfSegments, ok_bind, File.memorySize]
  by_cases hph : f.phoff = 0
  · simp only [hph, if_pos, result_bind, result_elfSections, ok_bind, ne_eq, not_true_eq_false,
      if_false]
    by_cases hsh : f.shoff = 0
    · simp [hsh]
    · simp only [hsh, if_false, not_false_eq_true, if_true]
      exact result_maxEnd f.sectionAt Section.addr Section.size (fun s => result_fetch64 _)
        (fun s => result_fetch64 _) _
  · simp only [hph, if_false, ne_eq, not_false_eq_true, if_true]
    exact result_maxEnd f.segmentAt Segment.paddr Segment.memsz (fun s => result_fetch64 _)
      (fun s => result_fetch64 _) _

/-! ### Which alias an address belongs to -/

/-- The flag of the first range that holds `address`, both ends included. -/
def firstFlag {α : Type} (addr size : α → U64) (flag : α → U32) (address : U64) (l : List α) :
    Option U32 :=
  l.findSome? fun s =>
    if addr s ≤ address ∧ address ≤ addr s + size s then some (flag s) else none

/-- What `elfLoaderRelativeAddressIsExecutable` returns. -/
def File.isExecutable (f : File) (address : U64) : U32 :=
  if f.phoff ≠ 0 then
    (firstFlag Segment.paddr Segment.memsz (fun s => s.flags &&& pfX) address f.segments).getD 1
  else if f.shoff ≠ 0 then
    (firstFlag Section.addr Section.size (fun s => (s.flags &&& shfExecinstr).setWidth 32) address
      f.sections).getD 1
  else BitVec.ofInt 32 ElfLoaderReturn.noSectionsOrSegments.code

/-- One iteration of `flagOfAddress`. -/
def flagBody (addr size : U64 → ElfProg U64) (flag : U64 → ElfProg U32) (t : Table)
    (address : U64) (index : Nat) : ElfProg (Option U32) := do
  let a ← addr (t.entry index)
  if address < a then
    return none
  let n ← size (t.entry index)
  if a + n < address then
    return none
  return some (← flag (t.entry index))

theorem result_flagBody {α : Type} {addr size : U64 → ElfProg U64} {flag : U64 → ElfProg U32}
    {at_ : U64 → α} {a n : α → U64} {g : α → U32} (ha : ∀ s, result f (addr s) = .ok (a (at_ s)))
    (hn : ∀ s, result f (size s) = .ok (n (at_ s)))
    (hg : ∀ s, result f (flag s) = .ok (g (at_ s))) (t : Table) (address : U64) (k : Nat) :
    result f (flagBody addr size flag t address k)
      = .ok (if a (at_ (t.entry k)) ≤ address ∧ address ≤ a (at_ (t.entry k)) + n (at_ (t.entry k))
          then some (g (at_ (t.entry k))) else none) := by
  simp only [flagBody, result_bind, ha, hn, hg, ok_bind, result_ite, pure_eq, result_ret]
  by_cases h1 : address < a (at_ (t.entry k))
  · rw [if_pos h1, if_neg (by rw [BitVec.not_le.symm] at h1; exact fun hc => h1 hc.1)]
  · rw [if_neg h1]
    by_cases h2 : a (at_ (t.entry k)) + n (at_ (t.entry k)) < address
    · rw [if_pos h2, if_neg (fun hc => BitVec.not_le.mpr h2 hc.2)]
    · rw [if_neg h2, if_pos ⟨BitVec.not_lt.mp h1, BitVec.not_lt.mp h2⟩]

theorem result_flagOfAddress {α : Type} {addr size : U64 → ElfProg U64}
    {flag : U64 → ElfProg U32} (at_ : U64 → α) (a n : α → U64) (g : α → U32)
    (ha : ∀ s, result f (addr s) = .ok (a (at_ s)))
    (hn : ∀ s, result f (size s) = .ok (n (at_ s)))
    (hg : ∀ s, result f (flag s) = .ok (g (at_ s))) (t : Table) (address : U64) :
    result f (flagOfAddress addr size flag t address)
      = .ok (firstFlag a n g address (File.records at_ t)) := by
  unfold firstFlag
  rw [← findSome_records]
  exact result_findFrom (result_flagBody ha hn hg t address) _ _

theorem result_segmentFlagOfAddress (t : Table) (address : U64) :
    result f (flagOfAddress ElfSegment.pPaddr ElfSegment.pMemsz
        (fun s => do return (← ElfSegment.pFlags s) &&& pfX) t address)
      = .ok (firstFlag Segment.paddr Segment.memsz (fun s => s.flags &&& pfX) address
          (File.records f.segmentAt t)) := by
  refine result_flagOfAddress f.segmentAt Segment.paddr Segment.memsz (fun s => s.flags &&& pfX)
    (fun s => result_fetch64 (s + 24)) (fun s => result_fetch64 (s + 40)) (fun s => ?_) t address
  simp only [ElfSegment.pFlags, result_bind, result_fetch32, ok_bind, pure_eq, result_ret,
    File.segmentAt]

theorem result_sectionFlagOfAddress (t : Table) (address : U64) :
    result f (flagOfAddress ElfSection.shAddr ElfSection.shSize
        (fun s => do return ((← ElfSection.shFlags s) &&& shfExecinstr).setWidth 32) t address)
      = .ok (firstFlag Section.addr Section.size (fun s => (s.flags &&& shfExecinstr).setWidth 32)
          address (File.records f.sectionAt t)) := by
  refine result_flagOfAddress f.sectionAt Section.addr Section.size
    (fun s => (s.flags &&& shfExecinstr).setWidth 32) (fun s => result_fetch64 (s + 16))
    (fun s => result_fetch64 (s + 32)) (fun s => ?_) t address
  simp only [ElfSection.shFlags, result_bind, result_fetch64, ok_bind, pure_eq, result_ret,
    File.sectionAt]

@[simp] theorem result_elfLoaderRelativeAddressIsExecutable (address : U64) :
    result f (elfLoaderRelativeAddressIsExecutable (some elf) address)
      = .ok (f.isExecutable address) := by
  simp only [elfLoaderRelativeAddressIsExecutable, result_bind, result_elfSegments, ok_bind,
    File.isExecutable]
  by_cases hph : f.phoff = 0
  · simp only [hph, if_pos, result_bind, result_elfSections, ok_bind, ne_eq, not_true_eq_false,
      if_false]
    by_cases hsh : f.shoff = 0
    · simp [hsh]
    · simp only [hsh, if_false, not_false_eq_true, if_true, result_bind,
        result_sectionFlagOfAddress]
      rfl
  · simp only [hph, if_false, ne_eq, not_false_eq_true, if_true, result_bind,
      result_segmentFlagOfAddress]
    rfl

end Accessors

end LibPS4
