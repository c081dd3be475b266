/-
Where the file is read: headers, tables and segment contents.

No function compares an offset with `elf->size`, so what keeps a read inside the buffer
is the file alone.  Each lemma here says for one function exactly which stretches of the
file it needs: `Fits size a n` for the `n` bytes at `a`.  The sums are those of 64-bit
pointers, so a stretch that wraps around does not fit.

The functions read in straight lines, and the reads of a straight line are the reads of
its steps; `readsIn_fetch64_bind` and its siblings peel one field at a time.  The one
loop that needs an argument is `elfLargestAlignment`, which restarts its search after
every segment it finds.
-/
import LibPS4.Proofs.Containment

namespace LibPS4

open Effects Prog

/-- The offset is inside the buffer. -/
def InFile (size : U64) (a : U64) : Prop := a.toNat < size.toNat

instance (size : U64) : DecidablePred (InFile size) := fun _ => inferInstanceAs (Decidable (_ < _))

/-- The `n` bytes at `a` are inside the buffer. -/
def Fits (size : U64) (a : U64) (n : Nat) : Prop := a.toNat + n ≤ size.toNat

variable {f : File} {elf : Elf} {size : U64}

/-! ### Fields -/

theorem readsIn_extent {a : U64} {n : Nat} (hpos : 0 < n) (hn : n ≤ 2 ^ 64) :
    (∀ x ∈ extent a n, InFile size x) ↔ Fits size a n :=
  extent_below hpos hn size.isLt

section Fields

variable {α : Type} (a : U64)

theorem readsIn_fetchNat_bind {n : Nat} (hpos : 0 < n) (hn : n ≤ 2 ^ 64) (k : Nat → ElfProg α) :
    ReadsIn f (InFile size) (fetchNat n a >>= k)
      ↔ Fits size a n ∧ ReadsIn f (InFile size) (k (leNat f n a)) := by
  rw [readsIn_bind_of_ok (result_fetchNat n a)]
  refine and_congr_left' ?_
  unfold ReadsIn
  rw [fetches_fetchNat]
  exact readsIn_extent hpos hn

/-- A byte is read where it is, whatever the reads are held to. -/
theorem readsIn_byte_bind {Q : U64 → Prop} (k : Byte → ElfProg α) :
    ReadsIn f Q (fetch8 a >>= k) ↔ Q a ∧ ReadsIn f Q (k (f a)) := by
  rw [readsIn_bind_of_ok (result_fetch8 a)]
  exact and_congr_left' (readsIn_get a)

theorem readsIn_fetch8_bind (k : Byte → ElfProg α) :
    ReadsIn f (InFile size) (fetch8 a >>= k)
      ↔ Fits size a 1 ∧ ReadsIn f (InFile size) (k (f a)) := readsIn_byte_bind a k

theorem readsIn_fetch16_bind (k : U16 → ElfProg α) :
    ReadsIn f (InFile size) (fetch16 a >>= k)
      ↔ Fits size a 2 ∧ ReadsIn f (InFile size) (k (le16 f a)) := by
  unfold fetch16
  rw [bind_assoc, readsIn_fetchNat_bind a (by omega) (by omega)]
  rfl

theorem readsIn_fetch32_bind (k : U32 → ElfProg α) :
    ReadsIn f (InFile size) (fetch32 a >>= k)
      ↔ Fits size a 4 ∧ ReadsIn f (InFile size) (k (le32 f a)) := by
  unfold fetch32
  rw [bind_assoc, readsIn_fetchNat_bind a (by omega) (by omega)]
  rfl

theorem readsIn_fetch64_bind (k : U64 → ElfProg α) :
    ReadsIn f (InFile size) (fetch64 a >>= k)
      ↔ Fits size a 8 ∧ ReadsIn f (InFile size) (k (le64 f a)) := by
  unfold fetch64
  rw [bind_assoc, readsIn_fetchNat_bind a (by omega) (by omega)]
  rfl

theorem readsIn_fetch64 : ReadsIn f (InFile size) (fetch64 a : ElfProg U64) ↔ Fits size a 8 := by
  rw [← bind_pure (fetch64 a : ElfProg U64), readsIn_fetch64_bind]
  exact and_iff_left (readsIn_ret _)

theorem readsIn_ite {Q : U64 → Prop} (c : Prop) [Decidable c] (p q : ElfProg α) :
    ReadsIn f Q (if c then p else q) ↔ (c → ReadsIn f Q p) ∧ (¬ c → ReadsIn f Q q) := by
  by_cases hc : c
  · simp [hc]
  · simp [hc]

theorem readsIn_memset (dst : U64) (c : Byte) (n : U64) :
    ReadsIn f (InFile size) (memset dst c n : ElfProg Unit) := by
  unfold ReadsIn
  rw [fetches_memset]
  exact fun x hx => absurd hx List.not_mem_nil

/-- A copy reads its source, unless it copies nothing. -/
theorem readsIn_memcpy (dst src n : U64) (hn : n ≠ 0) :
    ReadsIn f (InFile size) (memcpy dst src n : ElfProg Unit) ↔ Fits size src n.toNat := by
  have hpos : 0 < n.toNat := by
    have hne : n.toNat ≠ 0 := fun hc => hn (BitVec.eq_of_toNat_eq hc)
    omega
  unfold ReadsIn
  rw [fetches_memcpy]
  exact readsIn_extent hpos (Nat.le_of_lt n.isLt)

theorem readsIn_memcpy_bind (dst src n : U64) (k : Unit → ElfProg α) :
    ReadsIn f (InFile size) (memcpy dst src n >>= k)
      ↔ ReadsIn f (InFile size) (memcpy dst src n : ElfProg Unit) ∧
        ReadsIn f (InFile size) (k ()) :=
  readsIn_bind_of_ok (result_memcpy dst src n) k

end Fields

/-! ### The header -/

theorem fits_of_header (h : 64 ≤ size.toNat) {a : U64} {n : Nat} (ha : a.toNat + n ≤ 64) :
    Fits size a n := Nat.le_trans ha h

theorem readsIn_allOf {l : List (ElfProg Bool)} (h : ∀ p ∈ l, ReadsIn f (InFile size) p) :
    ReadsIn f (InFile size) (allOf l) := by
  induction l with
  | nil => exact readsIn_ret true
  | cons p rest ih =>
      rw [allOf, readsIn_bind]
      refine ⟨h p List.mem_cons_self, fun b _ => (readsIn_ite _ _ _).mpr ⟨fun _ => ?_, fun _ => ?_⟩⟩
      · exact ih fun q hq => h q (List.mem_cons_of_mem p hq)
      · exact readsIn_ret false

section Header

variable (h : 64 ≤ size.toNat)
include h

theorem readsIn_elfIsElf : ReadsIn f (InFile size) (elfIsElf (some elf)) := by
  show ReadsIn f (InFile size) (allOf _)
  refine readsIn_allOf fun p hp => ?_
  simp only [List.mem_cons, List.not_mem_nil, or_false] at hp
  rcases hp with rfl | rfl | rfl | rfl <;>
    exact (readsIn_fetch8_bind _ _).mpr ⟨fits_of_header h (by decide), readsIn_ret _⟩

theorem readsIn_elfLoaderIsLoadable : ReadsIn f (InFile size) (elfLoaderIsLoadable (some elf)) := by
  have h8 : ∀ (k : U64) (g : Byte → Bool), k.toNat + 1 ≤ 64 →
      ReadsIn f (InFile size) (do return g (← ElfHeader.eIdent k)) := fun k g hk =>
    (readsIn_fetch8_bind k _).mpr ⟨fits_of_header h hk, readsIn_ret _⟩
  have h16 : ∀ (k : U64) (g : U16 → Bool), k.toNat + 2 ≤ 64 →
      ReadsIn f (InFile size) (fetch16 k >>= fun x => pure (g x)) := fun k g hk =>
    (readsIn_fetch16_bind k _).mpr ⟨fits_of_header h hk, readsIn_ret _⟩
  have h32 : ∀ (k : U64) (g : U32 → Bool), k.toNat + 4 ≤ 64 →
      ReadsIn f (InFile size) (fetch32 k >>= fun x => pure (g x)) := fun k g hk =>
    (readsIn_fetch32_bind k _).mpr ⟨fits_of_header h hk, readsIn_ret _⟩
  have h64 : ∀ (k : U64) (g : U64 → Bool), k.toNat + 8 ≤ 64 →
      ReadsIn f (InFile size) (fetch64 k >>= fun x => pure (g x)) := fun k g hk =>
    (readsIn_fetch64_bind k _).mpr ⟨fits_of_header h hk, readsIn_ret _⟩
  rw [elfLoaderIsLoadable, readsIn_bind]
  refine ⟨readsIn_elfIsElf h,
    fun b _ => (readsIn_ite _ _ _).mpr ⟨fun _ => readsIn_ret _, fun _ => ?_⟩⟩
  refine readsIn_allOf fun p hp => ?_
  simp only [List.mem_cons, List.not_mem_nil, or_false] at hp
  rcases hp with rfl | rfl | rfl | rfl | rfl | rfl | rfl | rfl | rfl
  · exact h8 4 _ (by decide)
  · exact h8 5 _ (by decide)
  · exact h8 6 _ (by decide)
  · refine (readsIn_fetch8_bind 7 _).mpr ⟨fits_of_header h (by decide), ?_⟩
    exact (readsIn_ite _ _ _).mpr ⟨fun _ => readsIn_ret _, fun _ => h8 7 _ (by decide)⟩
  · exact h16 16 _ (by decide)
  · exact h64 32 _ (by decide)
  · exact h64 40 _ (by decide)
  · exact h16 18 _ (by decide)
  · exact h32 20 _ (by decide)

theorem readsIn_elfSegments : ReadsIn f (InFile size) (elfSegments (some elf)) := by
  simp only [elfSegments, ElfHeader.ePhoff, ElfHeader.ePhentsize, ElfHeader.ePhnum,
    readsIn_fetch64_bind, readsIn_fetch16_bind, readsIn_ite, pure_eq, readsIn_ret]
  have hoff : Fits size 32 8 := fits_of_header h (by decide)
  exact ⟨hoff, fun _ => trivial, fun _ => ⟨fits_of_header h (by decide),
    fits_of_header h (by decide), hoff, trivial⟩⟩

theorem readsIn_elfSections : ReadsIn f (InFile size) (elfSections (some elf)) := by
  simp only [elfSections, ElfHeader.eShoff, ElfHeader.eShentsize, ElfHeader.eShnum,
    readsIn_fetch64_bind, readsIn_fetch16_bind, readsIn_ite, pure_eq, readsIn_ret]
  have hoff : Fits size 40 8 := fits_of_header h (by decide)
  exact ⟨hoff, fun _ => trivial, fun _ => ⟨fits_of_header h (by decide),
    fits_of_header h (by decide), hoff, trivial⟩⟩

end Header

/-! ### Size and contents -/

/-- The same for the section header at `p`, where there are no program headers. -/
structure SectionFits (f : File) (size p : U64) : Prop where
  flags : Fits size (p + 8) 8
  addr : Fits size (p + 16) 8
  bytes : Fits size (p + 32) 8
  contents : (f.sectionAt p).flags &&& shfAlloc ≠ 0 → (f.sectionAt p).size ≠ 0 →
    Fits size (p + 24) 8 ∧ Fits size (f.sectionAt p).offset (f.sectionAt p).size.toNat

/-- The offset and the address of a header are read only for a copy or for zeros. -/
theorem readsIn_instantiateSegment {memory p : U64} :
    ReadsIn f (InFile size) (instantiateSegment memory p) ↔
      Fits size (p + 32) 8 ∧ ((f.segmentAt p).filesz ≠ 0 → Fits size (p + 24) 8 ∧
        Fits size (p + 8) 8 ∧ Fits size (f.segmentAt p).offset (f.segmentAt p).filesz.toNat) ∧
      Fits size (p + 40) 8 ∧
        ((f.segmentAt p).memsz - (f.segmentAt p).filesz ≠ 0 → Fits size (p + 24) 8) := by
  simp only [instantiateSegment, ElfSegment.pMemsz, ElfSegment.pFilesz, ElfSegment.pPaddr,
    ElfSegment.pOffset, readsIn_fetch64_bind, readsIn_ite, readsIn_memcpy_bind, readsIn_memset,
    pure_eq, readsIn_ret, and_true, implies_true, File.segmentAt]
  by_cases hne : le64 f (p + 32) = 0
  · simp only [hne, ne_eq, not_true_eq_false, false_implies, not_false_eq_true, true_implies,
      true_and]
    refine and_congr_right fun hfilesz => and_congr_right fun hmemsz => ?_
    simp only [hfilesz, hmemsz, and_true, true_and]
  · simp only [hne, ne_eq, not_false_eq_true, true_implies, not_true_eq_false, false_implies,
      and_true, readsIn_memcpy _ _ _ hne]
    refine and_congr_right fun hfilesz => ?_
    simp only [hfilesz, true_and, and_true, and_assoc]
    refine and_congr_right fun _ => and_congr_right fun _ => and_congr_right fun _ => ?_
    exact and_congr_right fun hmemsz => by simp only [hmemsz, and_true]

/-- With program headers, a copy reads what each of them asks for. -/
theorem readsIn_elfLoaderInstantiate_segments {memory : U64} (h : 64 ≤ size.toNat)
    (hm : memory ≠ 0) (hph : f.phoff ≠ 0) :
    ReadsIn f (InFile size) (elfLoaderInstantiate (some elf) memory) ↔
      ∀ k < f.segmentTable.length.toNat,
        ReadsIn f (InFile size) (instantiateSegment memory (f.segmentTable.entry k)) := by
  unfold elfLoaderInstantiate
  rw [if_neg hm, readsIn_bind_of_ok result_elfSegments]
  simp only [hph, if_false, readsIn_elfSegments h, true_and]
  rw [readsIn_bind_of_ok (result_forFrom (fun k => result_instantiateSegment _) _ _),
    readsIn_forFrom (fun k => result_instantiateSegment _)]
  simp only [Nat.zero_le, true_implies, Nat.zero_add, pure_eq, readsIn_ret, and_true]

section Alignment

theorem setWidth_inj (x y : U32) : x.setWidth 64 = y.setWidth 64 ↔ x = y := by
  rw [← BitVec.toNat_inj, ← BitVec.toNat_inj, BitVec.toNat_setWidth, BitVec.toNat_setWidth,
    Nat.mod_eq_of_lt (by omega), Nat.mod_eq_of_lt (by omega)]

end Alignment

end LibPS4
