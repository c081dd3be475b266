/-
When loading is a function of the file and the bases.

The model keeps the file buffer and the target memory apart, so the loader's fetches
never see its stores, and status and stores depend on the file alone.  A real process has
one address space.  `execFlat` is the run in it, with the buffer at `data`: what is read past
the file is whatever the memory holds there, and what is written outside the target may be
the file.  Nothing in the loader prevents either, and then two loads of one file need not do
the same.

Where both stay inside, the run in one memory is the run on two, by `execFlat_eq`, and the
library's `execFlat_agree` and `execFlat_again` apply.  The file and the target only have to
be disjoint; that no byte read is a byte written follows.
-/
import LibPS4.Proofs.LoadReads

namespace LibPS4

open Effects Prog

variable {f : File} {elf : Elf} {data w e : U64}

/-! ### A file in memory -/

/-- The buffer at `data` holds the file. -/
def HoldsFile (f : File) (elf : Elf) (data : U64) (mem : U64 → Byte) : Prop :=
  ∀ off, InFile elf.size off → mem (data + off) = f off

/-- No byte of the buffer at `data` is one of the target at `w`. -/
def BufferApart (f : File) (elf : Elf) (data w : U64) : Prop :=
  ∀ off, InFile elf.size off → ¬ (data + off - w).toNat < f.memorySize.toNat

/-- `elfLoaderLoad` in one memory. -/
def loadInPlace (elf : Elf) (data w e : U64) (mem : U64 → Byte) :
    Outcome U64 Byte Fault ElfLoaderReturn :=
  execFlat (data + ·) (elfLoaderLoad (some elf) w e) mem

theorem apart_of_staysInside (h : StaysInside f elf w e) (hdisj : BufferApart f elf data w) :
    Apart (data + ·) f (elfLoaderLoad (some elf) w e) := by
  intro off hoff hwritten
  have hin := h.2 (fun _ => 0) _ result_elfMemorySize (data + off)
  rw [exec_eq] at hin
  exact hdisj off (h.1 off hoff) (hin hwritten)

theorem HoldsFile.holdsInput {mem : U64 → Byte} (hmem : HoldsFile f elf data mem)
    (h : StaysInside f elf w e) : HoldsInput (data + ·) f (elfLoaderLoad (some elf) w e) mem :=
  fun off hoff => hmem off (h.1 off hoff)

/-- In one memory a load is what it is in two. -/
theorem loadInPlace_eq {mem : U64 → Byte} (h : LoadConfined f elf w e)
    (hdisj : BufferApart f elf data w) (hmem : HoldsFile f elf data mem) :
    loadInPlace elf data w e mem = exec f (elfLoaderLoad (some elf) w e) mem := by
  have hinside := (loadConfined_iff_staysInside f elf w e).mp h
  exact execFlat_eq (apart_of_staysInside hinside hdisj) mem (hmem.holdsInput hinside)

/-! ### Two loads of one file -/

/-- Two memories with the file end up the same where they are written, and nowhere else
written; a second load changes nothing. -/
structure FunctionOfFile (f : File) (elf : Elf) (data w e : U64) : Prop where
  alike : ∀ m₁ m₂, HoldsFile f elf data m₁ → HoldsFile f elf data m₂ →
    (loadInPlace elf data w e m₁).written = (loadInPlace elf data w e m₂).written ∧
    (loadInPlace elf data w e m₁).result = (loadInPlace elf data w e m₂).result ∧
    (∀ a ∈ (loadInPlace elf data w e m₁).written,
      (loadInPlace elf data w e m₁).memory a = (loadInPlace elf data w e m₂).memory a) ∧
    ∀ a, a ∉ (loadInPlace elf data w e m₁).written →
      (loadInPlace elf data w e m₁).memory a = m₁ a ∧
        (loadInPlace elf data w e m₂).memory a = m₂ a
  again : ∀ m, HoldsFile f elf data m →
    (loadInPlace elf data w e (loadInPlace elf data w e m).memory).memory
        = (loadInPlace elf data w e m).memory ∧
      (loadInPlace elf data w e (loadInPlace elf data w e m).memory).result
        = (loadInPlace elf data w e m).result

/--
**When loading is a function of the file and the bases.**

For every file, accepted or not, whose buffer is disjoint from the target: as soon as the load
reads only the file and writes only the target.  That is a condition on the file, and the
files it leaves out are those on which the load does go outside.
-/
theorem elfLoaderLoad_function_of_file (f : File) (elf : Elf) (data w e : U64)
    (hdisj : BufferApart f elf data w) :
    (LoadConfined f elf w e → FunctionOfFile f elf data w e) ∧
      (LoadConfined f elf w e ↔ StaysInside f elf w e) := by
  refine ⟨fun h => ?_, loadConfined_iff_staysInside f elf w e⟩
  have hinside := (loadConfined_iff_staysInside f elf w e).mp h
  have happart := apart_of_staysInside hinside hdisj
  refine ⟨fun m₁ m₂ h₁ h₂ => ?_, fun m hm => execFlat_again happart (hm.holdsInput hinside)⟩
  have hinput₁ := h₁.holdsInput hinside
  have hinput₂ := h₂.holdsInput hinside
  obtain ⟨hwritten, hresult, hagree, hout₁⟩ := execFlat_agree happart hinput₁ hinput₂
  obtain ⟨-, -, -, hout₂⟩ := execFlat_agree happart hinput₂ hinput₁
  exact ⟨hwritten, hresult, hagree, fun a ha => ⟨hout₁ a ha, hout₂ a (hwritten ▸ ha)⟩⟩

theorem slotFile_memorySize : (slotFile 8).memorySize = 16 := by decide +kernel

/-- Of the bases only that they are not `NULL` matters. -/
theorem slotFile_confined (hw : w ≠ 0) (he : e ≠ 0) : LoadConfined (slotFile 8) ⟨357⟩ w e := by
  have hload : result (slotFile 8) (elfLoaderIsLoadable (some ⟨357⟩)) = .ok true := by
    decide +kernel
  have hreads : ReadsIn (slotFile 8) (InFile 357) (elfLoaderLoad (some ⟨357⟩) 1 1) := by
    decide +kernel
  have hfit : SegmentsFit (slotFile 8) := by
    unfold SegmentsFit
    decide +kernel
  have hslots : SlotsFit (slotFile 8) ⟨357⟩ := by
    unfold SlotsFit
    decide +kernel
  refine (loadConfined_iff_staysInside _ _ _ _).mpr
    ⟨(readsIn_elfLoaderLoad_accepted hload hw he).mpr ?_,
      (writesContained_iff_fit hw he hload).mpr ⟨hfit, hslots⟩⟩
  exact (readsIn_elfLoaderLoad_accepted hload (by decide) (by decide)).mp hreads

/-- A segment and a slot inside it, the file at `0x10000`. -/
theorem slotFile_function_of_file : FunctionOfFile (slotFile 8) ⟨357⟩ 0x10000 0x1000 0x2000 := by
  have hdisj : BufferApart (slotFile 8) ⟨357⟩ 0x10000 0x1000 := by
    intro off hoff
    rw [slotFile_memorySize]
    unfold InFile at hoff
    bv_omega
  exact (elfLoaderLoad_function_of_file (slotFile 8) ⟨357⟩ 0x10000 0x1000 0x2000 hdisj).1
    (slotFile_confined (by decide) (by decide))

/-- `outsideFile` at `0x10000`, and a byte where its segment is taken from. -/
def outsideMemory (b : Byte) (a : U64) : Byte :=
  if a = 0x11000 then b else outsideFile (a - 0x10000)

theorem outsideMemory_holdsFile (b : Byte) :
    HoldsFile outsideFile ⟨259⟩ 0x10000 (outsideMemory b) := by
  intro off hoff
  unfold InFile at hoff
  have hne : (0x10000 : U64) + off ≠ 0x11000 := by bv_omega
  rw [outsideMemory, if_neg hne, show (0x10000 : U64) + off - 0x10000 = off by bv_omega]

/-- The target is `0x11000`, one byte long; what it holds after the load is what it held
before. -/
theorem outsideFile_not_function :
    ¬ ∀ (f : File) (elf : Elf) (data w e : U64), BufferApart f elf data w →
      FunctionOfFile f elf data w e := by
  intro h
  have hsize : outsideFile.memorySize = 1 := by decide +kernel
  have hdisj : BufferApart outsideFile ⟨259⟩ 0x10000 0x11000 := by
    intro off hoff
    rw [hsize]
    unfold InFile at hoff
    bv_omega
  obtain ⟨-, -, hagree, -⟩ := (h outsideFile ⟨259⟩ 0x10000 0x11000 0x20000 hdisj).alike
    (outsideMemory 1) (outsideMemory 2) (outsideMemory_holdsFile 1) (outsideMemory_holdsFile 2)
  have hone := hagree 0x11000 (by decide +kernel)
  exact absurd hone (by decide +kernel)

end LibPS4
