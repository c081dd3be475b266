/-
Modules loaded into one memory.

The files are in this memory too, each in a buffer of its own.  What keeps the loads apart
is then a matter of three things: each load stays inside its file and its target, the targets
have no byte in common, and no target lies over a buffer, its own or another's.  The loads
are writers on pairwise disjoint cells, the files survive every one of them, and the order
in which they run leaves no trace.
-/
import Mathlib.Data.List.Basic
import LibPS4.Proofs.Determinism

namespace LibPS4

open Effects Prog

/-- A file, the buffer it is in and where it is loaded. -/
structure Module where
  file : File
  elf : Elf
  data : U64
  writable : U64
  executable : U64

namespace Module

/-- The outcome of loading the module. -/
def loaded (m : Module) (mem : U64 → Byte) : Outcome U64 Byte Fault ElfLoaderReturn :=
  loadInPlace m.elf m.data m.writable m.executable mem

/-- The memory after the module is loaded. -/
def load (mem : U64 → Byte) (m : Module) : U64 → Byte := (m.loaded mem).memory

def stores (m : Module) : List (U64 × Byte) :=
  Prog.stores m.file (elfLoaderLoad (some m.elf) m.writable m.executable)

/-- The memory a module asks for. -/
def Region (m : Module) (a : U64) : Prop := (a - m.writable).toNat < m.file.memorySize.toNat

/-- The bytes its file is in. -/
def Buffer (m : Module) (a : U64) : Prop := ∃ off, InFile m.elf.size off ∧ a = m.data + off

/-- Its file is there. -/
def Held (m : Module) (mem : U64 → Byte) : Prop := HoldsFile m.file m.elf m.data mem

/-- It reads its file, and writes the memory it asks for. -/
def Confined (m : Module) : Prop := LoadConfined m.file m.elf m.writable m.executable

/-- The memories of two modules have no byte in common. -/
def Apart (m m' : Module) : Prop := ∀ a, m.Region a → ¬ m'.Region a

instance : Std.Symm Apart := ⟨fun _ _ h a ha' ha => h a ha ha'⟩

theorem Confined.region {m : Module} (h : m.Confined) {a : U64}
    (ha : a ∈ m.stores.map Prod.fst) : m.Region a := by
  have hin := ((loadConfined_iff_staysInside _ _ _ _).mp h).2 (fun _ => 0) _
    result_elfMemorySize a
  rw [exec_eq] at hin
  exact hin ha

end Module

/-- Each stays in its own memory, the memories are apart, and no file is in any of them. -/
structure SideBySide (l : List Module) : Prop where
  confined : ∀ m ∈ l, m.Confined
  apart : l.Pairwise Module.Apart
  buffers : ∀ m ∈ l, ∀ m' ∈ l, ∀ a, m.Buffer a → ¬ m'.Region a

namespace SideBySide

variable {l l' : List Module} {m m' : Module} {mem : U64 → Byte} {a : U64}

theorem stores_apart (h : SideBySide l) :
    l.Pairwise fun m m' => ∀ a ∈ m.stores.map Prod.fst, a ∉ m'.stores.map Prod.fst := by
  refine h.apart.imp_of_mem fun hm hm' happart a ha ha' => ?_
  exact happart a ((h.confined _ hm).region ha) ((h.confined _ hm').region ha')

theorem perm (h : SideBySide l) (hperm : l.Perm l') : SideBySide l' := by
  refine ⟨fun m hm => h.confined m (hperm.mem_iff.mpr hm), ?_, fun m hm m' hm' => ?_⟩
  · exact h.apart.perm hperm fun hab a hb ha => hab a ha hb
  · exact h.buffers m (hperm.mem_iff.mpr hm) m' (hperm.mem_iff.mpr hm')

/-- With its file in place, a load does what the file says. -/
theorem loaded_eq (h : SideBySide l) (hm : m ∈ l) (hmem : m.Held mem) :
    m.loaded mem = exec m.file (elfLoaderLoad (some m.elf) m.writable m.executable) mem :=
  loadInPlace_eq (h.confined m hm)
    (fun off hoff => h.buffers m hm m hm (m.data + off) ⟨off, hoff, rfl⟩) hmem

theorem load_eq (h : SideBySide l) (hm : m ∈ l) (hmem : m.Held mem) :
    m.load mem = replay m.stores mem := by
  rw [Module.load, h.loaded_eq hm hmem, memory_exec]
  rfl

/-- The files survive a load. -/
theorem held_load (h : SideBySide l) (hm : m ∈ l) (hm' : m' ∈ l) (hmem : m.Held mem)
    (hmem' : m'.Held mem) : m'.Held (m.load mem) := by
  intro off hoff
  have hout : m'.data + off ∉ m.stores.map Prod.fst := fun hc =>
    h.buffers m' hm' m hm (m'.data + off) ⟨off, hoff, rfl⟩ ((h.confined m hm).region hc)
  rw [h.load_eq hm hmem, replay_of_notMem hout]
  exact hmem' off hoff

/-- So do they several loads, which store what they store one after another. -/
theorem foldl_load (h : SideBySide l) {part : List Module} (hsub : ∀ m ∈ part, m ∈ l) :
    ∀ mem, (∀ m ∈ l, m.Held mem) →
      part.foldl Module.load mem = replay (part.flatMap Module.stores) mem ∧
        ∀ m ∈ l, m.Held (part.foldl Module.load mem) := by
  induction part with
  | nil => exact fun mem hmem => ⟨rfl, hmem⟩
  | cons m rest ih =>
      intro mem hmem
      have hm := hsub m List.mem_cons_self
      have hnext : ∀ m' ∈ l, m'.Held (m.load mem) := fun m' hm' =>
        h.held_load hm hm' (hmem m hm) (hmem m' hm')
      obtain ⟨hstores, hheld⟩ := ih (fun m' hm' => hsub m' (List.mem_cons_of_mem m hm'))
        (m.load mem) hnext
      rw [List.foldl_cons, List.flatMap_cons, replay_append, ← h.load_eq hm (hmem m hm)]
      exact ⟨hstores, hheld⟩

/-- A byte one of the modules writes is as if that module were loaded alone. -/
theorem load_of_mem (h : SideBySide l) (hmem : ∀ m ∈ l, m.Held mem) (hm : m ∈ l)
    (ha : a ∈ m.stores.map Prod.fst) : l.foldl Module.load mem a = m.load mem a := by
  rw [(h.foldl_load (fun _ hm => hm) mem hmem).1, h.load_eq hm (hmem m hm),
    replay_flatMap_of_disjoint ha h.stores_apart hm]

theorem load_of_forall_notMem (h : SideBySide l) (hmem : ∀ m ∈ l, m.Held mem)
    (ha : ∀ m ∈ l, a ∉ m.stores.map Prod.fst) : l.foldl Module.load mem a = mem a := by
  rw [(h.foldl_load (fun _ hm => hm) mem hmem).1]
  refine replay_of_notMem ?_ mem
  rw [List.map_flatMap, List.mem_flatMap]
  rintro ⟨m, hm, hstored⟩
  exact ha m hm hstored

end SideBySide

/--
**Modules that are loaded side by side do not disturb each other.**

For every list of modules whose files are in memory, whose targets are apart from each other
and from the files, and whose loads stay in file and target: each returns the status it
returns alone and leaves in its own memory what it leaves there alone, outside of all targets
nothing changes, and the order in which they are loaded does not matter.
-/
theorem loads_sideBySide (l l' : List Module) (h : SideBySide l) (hperm : l.Perm l')
    (mem : U64 → Byte) (hmem : ∀ m ∈ l, m.Held mem) :
    (∀ before m after, l = before ++ m :: after →
      (m.loaded (before.foldl Module.load mem)).result = (m.loaded mem).result) ∧
    (∀ m ∈ l, ∀ a, m.Region a → l.foldl Module.load mem a = m.load mem a) ∧
    (∀ a, (∀ m ∈ l, ¬ m.Region a) → l.foldl Module.load mem a = mem a) ∧
    l.foldl Module.load mem = l'.foldl Module.load mem := by
  refine ⟨fun before m after hl => ?_, fun m hm a ha => ?_, fun a ha => ?_, funext fun a => ?_⟩
  · have hm : m ∈ l := by
      rw [hl]
      simp
    have hsub : ∀ m' ∈ before, m' ∈ l := by
      intro m' hm'
      rw [hl]
      exact List.mem_append_left _ hm'
    rw [h.loaded_eq hm ((h.foldl_load hsub mem hmem).2 m hm), h.loaded_eq hm (hmem m hm),
      exec_eq, exec_eq]
  · by_cases hstored : a ∈ m.stores.map Prod.fst
    · exact h.load_of_mem hmem hm hstored
    · have hnone : ∀ m' ∈ l, a ∉ m'.stores.map Prod.fst := by
        intro m' hm' hstored'
        by_cases heq : m = m'
        · subst heq
          exact hstored hstored'
        · exact h.apart.forall hm hm' heq a ha ((h.confined m' hm').region hstored')
      rw [h.load_of_forall_notMem hmem hnone, h.load_eq hm (hmem m hm)]
      exact (replay_of_notMem hstored mem).symm
  · exact h.load_of_forall_notMem hmem fun m hm hstored =>
      ha m hm ((h.confined m hm).region hstored)
  · have hmem' : ∀ m ∈ l', m.Held mem := fun m hm => hmem m (hperm.mem_iff.mpr hm)
    by_cases hwritten : ∃ m ∈ l, a ∈ m.stores.map Prod.fst
    · obtain ⟨m, hm, hstored⟩ := hwritten
      rw [h.load_of_mem hmem hm hstored,
        (h.perm hperm).load_of_mem hmem' (hperm.mem_iff.mp hm) hstored]
    · have hnone : ∀ m ∈ l, a ∉ m.stores.map Prod.fst :=
        fun m hm hstored => hwritten ⟨m, hm, hstored⟩
      rw [h.load_of_forall_notMem hmem hnone, (h.perm hperm).load_of_forall_notMem hmem'
        fun m hm => hnone m (hperm.mem_iff.mpr hm)]

/-- Two copies of one file. -/
def twoModules : List Module :=
  [⟨slotFile 8, ⟨357⟩, 0x10000, 0x1000, 0x2000⟩, ⟨slotFile 8, ⟨357⟩, 0x20000, 0x3000, 0x4000⟩]

/-- A memory that holds both. -/
def twoFiles (a : U64) : Byte :=
  if a < 0x20000 then slotFile 8 (a - 0x10000) else slotFile 8 (a - 0x20000)

theorem region_slotFile {data w e a : U64} :
    Module.Region ⟨slotFile 8, ⟨357⟩, data, w, e⟩ a ↔ (a - w).toNat < 16 := by
  unfold Module.Region
  rw [slotFile_memorySize]
  rfl

theorem twoModules_sideBySide : SideBySide twoModules := by
  refine ⟨fun m hm => ?_,
    List.Pairwise.cons (fun m hm a ha ha' => ?_) (List.pairwise_singleton _ _),
    fun m hm m' hm' a ha ha' => ?_⟩
  · rcases List.mem_pair.mp hm with rfl | rfl
    · exact slotFile_confined (by decide) (by decide)
    · exact slotFile_confined (by decide) (by decide)
  · obtain rfl := List.mem_singleton.mp hm
    rw [region_slotFile] at ha ha'
    bv_omega
  · obtain ⟨off, hoff, rfl⟩ := ha
    unfold InFile at hoff
    rcases List.mem_pair.mp hm with rfl | rfl
    · rcases List.mem_pair.mp hm' with rfl | rfl <;> rw [region_slotFile] at ha' <;> bv_omega
    · rcases List.mem_pair.mp hm' with rfl | rfl <;> rw [region_slotFile] at ha' <;> bv_omega

theorem twoFiles_held : ∀ m ∈ twoModules, m.Held twoFiles := by
  intro m hm off hoff
  unfold InFile at hoff
  rcases List.mem_pair.mp hm with rfl | rfl
  · have hlow : (0x10000 : U64) + off < 0x20000 := by bv_omega
    show twoFiles (0x10000 + off) = slotFile 8 off
    rw [twoFiles, if_pos hlow, show (0x10000 : U64) + off - 0x10000 = off by bv_omega]
  · have hhigh : ¬ (0x20000 : U64) + off < 0x20000 := by bv_omega
    show twoFiles (0x20000 + off) = slotFile 8 off
    rw [twoFiles, if_neg hhigh, show (0x20000 : U64) + off - 0x20000 = off by bv_omega]

theorem twoModules_reversed :
    twoModules.foldl Module.load twoFiles = twoModules.reverse.foldl Module.load twoFiles :=
  (loads_sideBySide twoModules twoModules.reverse twoModules_sideBySide
    (List.reverse_perm _).symm twoFiles twoFiles_held).2.2.2

end LibPS4
