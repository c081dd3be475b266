/-
What a load reads, and where it writes.

`FileFits` covers every operation on a file.  A load is three of them: the acceptance test,
which reads one field after another and stops at the first that it does not like; the copy
of the program headers; and the relocations.  It never asks for the type or the alignment of
a header, and a file that is not accepted is read no further.

`LoadConfined` is a condition on the file for both directions of traffic: every byte read is
in the file, and every byte written in the memory the file asks for.
-/
import LibPS4.Proofs.FileBounds

namespace LibPS4

open Effects Prog

variable {f : File} {elf : Elf} {size : U64} {w e : U64}

/-! ### The acceptance test -/

/-- A test of the header: whether the file passes it, and the field that is looked at. -/
structure HeaderTest where
  passes : Bool
  field : U64
  bytes : Nat

/-- The tests of `elfIsElf` and of `elfLoaderIsLoadable`, in their order. -/
def File.magicTests (f : File) : List HeaderTest :=
  [⟨f 0 = 0x7f, 0, 1⟩, ⟨f 1 = 0x45, 1, 1⟩, ⟨f 2 = 0x4c, 2, 1⟩, ⟨f 3 = 0x46, 3, 1⟩]

@[inherit_doc File.magicTests]
def File.loadableTests (f : File) : List HeaderTest :=
  [⟨f 4 = elfClass64, 4, 1⟩, ⟨f 5 = elfData2Lsb, 5, 1⟩, ⟨f 6 = evCurrent, 6, 1⟩,
    ⟨f 7 = elfOsabiSysv ∨ f 7 = elfOsabiFreebsd, 7, 1⟩, ⟨le16 f 16 = etDyn, 16, 2⟩,
    ⟨f.phoff ≠ 0, 32, 8⟩, ⟨f.shoff ≠ 0, 40, 8⟩, ⟨le16 f 18 = emX8664, 18, 2⟩,
    ⟨le32 f 20 = evCurrent.setWidth 32, 20, 4⟩]

/-- The fields are in the file, up to the first test that fails. -/
def TestsFit (size : U64) : List HeaderTest → Prop
  | [] => True
  | t :: rest => Fits size t.field t.bytes ∧ (t.passes = true → TestsFit size rest)

/-- The program performs the test. -/
def Performs (f : File) (size : U64) (p : ElfProg Bool) (t : HeaderTest) : Prop :=
  result f p = .ok t.passes ∧ (ReadsIn f (InFile size) p ↔ Fits size t.field t.bytes)

theorem performs_fetch8 (a : U64) (g : Byte → Bool) :
    Performs f size (fetch8 a >>= fun x => pure (g x)) ⟨g (f a), a, 1⟩ := by
  refine ⟨by simp, ?_⟩
  rw [readsIn_fetch8_bind]
  exact and_iff_left (readsIn_ret _)

theorem performs_fetch16 (a : U64) (g : U16 → Bool) :
    Performs f size (fetch16 a >>= fun x => pure (g x)) ⟨g (le16 f a), a, 2⟩ := by
  refine ⟨by simp, ?_⟩
  rw [readsIn_fetch16_bind]
  exact and_iff_left (readsIn_ret _)

theorem performs_fetch32 (a : U64) (g : U32 → Bool) :
    Performs f size (fetch32 a >>= fun x => pure (g x)) ⟨g (le32 f a), a, 4⟩ := by
  refine ⟨by simp, ?_⟩
  rw [readsIn_fetch32_bind]
  exact and_iff_left (readsIn_ret _)

theorem performs_fetch64 (a : U64) (g : U64 → Bool) :
    Performs f size (fetch64 a >>= fun x => pure (g x)) ⟨g (le64 f a), a, 8⟩ := by
  refine ⟨by simp, ?_⟩
  rw [readsIn_fetch64_bind]
  exact and_iff_left (readsIn_ret _)

/-- The test of the ABI looks at its byte again if it is not the first it would take. -/
theorem performs_abi : Performs f size (do
    if (← ElfHeader.eIdent 7) = elfOsabiSysv then return true
    return (← ElfHeader.eIdent 7) = elfOsabiFreebsd)
    ⟨f 7 = elfOsabiSysv ∨ f 7 = elfOsabiFreebsd, 7, 1⟩ := by
  constructor
  · simp only [ElfHeader.eIdent, result_bind, result_fetch8, ok_bind, result_ite, pure_eq,
      result_ret]
    generalize f 7 = b
    by_cases hsysv : b = elfOsabiSysv
    · simp [hsysv]
    · simp [hsysv]
  · simp only [ElfHeader.eIdent, readsIn_fetch8_bind, readsIn_ite, pure_eq, readsIn_ret]
    exact ⟨fun h => h.1, fun h => ⟨h, fun _ => trivial, fun _ => ⟨h, trivial⟩⟩⟩

/-- A chain of tests ends at the first that fails. -/
theorem performs_allOf {l : List (ElfProg Bool)} {ts : List HeaderTest}
    (h : List.Forall₂ (Performs f size) l ts) :
    result f (allOf l) = .ok (ts.all HeaderTest.passes) ∧
      (ReadsIn f (InFile size) (allOf l) ↔ TestsFit size ts) := by
  induction h with
  | nil => exact ⟨rfl, iff_of_true (readsIn_ret true) trivial⟩
  | @cons p t l ts hp _ ih =>
      obtain ⟨hres, hreads⟩ := hp
      rw [allOf, result_bind, hres, ok_bind, result_ite, readsIn_bind_of_ok hres, hreads,
        readsIn_ite, List.all_cons, ih.1, ih.2]
      cases hpass : t.passes with
      | true => simp [TestsFit, hpass]
      | false => simp [TestsFit, hpass]

theorem performs_magicTests (f : File) (elf : Elf) (size : U64) :
    result f (elfIsElf (some elf)) = .ok (f.magicTests.all HeaderTest.passes) ∧
      (ReadsIn f (InFile size) (elfIsElf (some elf)) ↔ TestsFit size f.magicTests) := by
  refine performs_allOf (.cons (performs_fetch8 0 fun x => x = 0x7f) ?_)
  refine .cons (performs_fetch8 1 fun x => x = 0x45) ?_
  refine .cons (performs_fetch8 2 fun x => x = 0x4c) ?_
  exact .cons (performs_fetch8 3 fun x => x = 0x46) .nil

theorem forall₂_loadableTests (f : File) (elf : Elf) (size : U64) : List.Forall₂ (Performs f size)
    [do return (← elfClass (some elf)) = elfClass64,
      do return (← elfEncoding (some elf)) = elfData2Lsb,
      do return (← elfVersion (some elf)) = evCurrent,
      do
        if (← elfABI (some elf)) = elfOsabiSysv then return true
        return (← elfABI (some elf)) = elfOsabiFreebsd,
      do return (← ElfHeader.eType) = etDyn,
      do return (← ElfHeader.ePhoff) ≠ 0,
      do return (← ElfHeader.eShoff) ≠ 0,
      do return (← ElfHeader.eMachine) = emX8664,
      do return (← ElfHeader.eVersion) = evCurrent.setWidth 32] f.loadableTests := by
  refine .cons (performs_fetch8 4 fun x => x = elfClass64) ?_
  refine .cons (performs_fetch8 5 fun x => x = elfData2Lsb) ?_
  refine .cons (performs_fetch8 6 fun x => x = evCurrent) (.cons performs_abi ?_)
  refine .cons (performs_fetch16 16 fun x => x = etDyn) ?_
  refine .cons (performs_fetch64 32 fun x => x ≠ 0) (.cons (performs_fetch64 40 fun x => x ≠ 0) ?_)
  refine .cons (performs_fetch16 18 fun x => x = emX8664) ?_
  exact .cons (performs_fetch32 20 fun x => x = evCurrent.setWidth 32) .nil

theorem testsFit_append {ts ts' : List HeaderTest} :
    TestsFit size (ts ++ ts') ↔
      TestsFit size ts ∧ (ts.all HeaderTest.passes = true → TestsFit size ts') := by
  induction ts with
  | nil => simp [TestsFit]
  | cons t rest ih =>
      rw [List.cons_append, TestsFit, TestsFit, ih, List.all_cons]
      cases t.passes with
      | true => simp [and_assoc]
      | false => simp

/-- The acceptance test is the tests one after the other. -/
theorem performs_elfLoaderIsLoadable (f : File) (elf : Elf) (size : U64) :
    result f (elfLoaderIsLoadable (some elf))
        = .ok ((f.magicTests ++ f.loadableTests).all HeaderTest.passes) ∧
      (ReadsIn f (InFile size) (elfLoaderIsLoadable (some elf)) ↔
        TestsFit size (f.magicTests ++ f.loadableTests)) := by
  obtain ⟨hmagic, hmagicReads⟩ := performs_magicTests f elf size
  obtain ⟨hrest, hrestReads⟩ := performs_allOf (forall₂_loadableTests f elf size)
  unfold elfLoaderIsLoadable
  rw [result_bind, hmagic, ok_bind, result_ite, readsIn_bind_of_ok hmagic, hmagicReads,
    testsFit_append, List.all_append, readsIn_ite]
  cases f.magicTests.all HeaderTest.passes with
  | true =>
      simp only [Bool.true_eq_false, if_false, Bool.true_and, false_implies, not_false_eq_true,
        true_implies, true_and]
      exact ⟨hrest, and_congr_right fun _ => hrestReads⟩
  | false => simp

/-! ### An accepted file -/

/-- What the copy of the header at `p` reads, and the relocations after it. -/
structure CopyFits (f : File) (size p : U64) : Prop where
  paddr : Fits size (p + 24) 8
  filesz : Fits size (p + 32) 8
  memsz : Fits size (p + 40) 8
  contents : (f.segmentAt p).filesz ≠ 0 → Fits size (p + 8) 8 ∧
    Fits size (f.segmentAt p).offset (f.segmentAt p).filesz.toNat

/-- Everything that is read of an accepted file is in it. -/
structure ImageFits (f : File) (elf : Elf) : Prop where
  header : 64 ≤ elf.size.toNat
  segments : ∀ k < f.segmentTable.length.toNat, CopyFits f elf.size (f.segmentTable.entry k)
  relocations : RelocateFits f elf elf.size

/-- The first bytes of an accepted file, and the first byte of its type. -/
theorem bytes_of_loadable (h : result f (elfLoaderIsLoadable (some elf)) = .ok true) :
    f 0 = 0x7f ∧ f 16 = 3 := by
  rw [(performs_elfLoaderIsLoadable f elf 0).1] at h
  have hall := List.all_eq_true.mp (Except.ok.inj h)
  have hmagic : f 0 = 0x7f :=
    of_decide_eq_true (hall ⟨f 0 = 0x7f, 0, 1⟩ (by simp [File.magicTests]))
  have htype : le16 f 16 = etDyn :=
    of_decide_eq_true (hall ⟨le16 f 16 = etDyn, 16, 2⟩ (by simp [File.loadableTests]))
  refine ⟨hmagic, ?_⟩
  have hsum : (f 16).toNat + 256 * ((f 17).toNat + 256 * 0) = 3 := by
    have hlt : leNat f 2 16 < 2 ^ 16 := leNat_lt f 2 16
    have hnat := congrArg BitVec.toNat htype
    rw [le16, BitVec.toNat_ofNat, Nat.mod_eq_of_lt hlt] at hnat
    exact hnat
  exact BitVec.eq_of_toNat_eq (show (f 16).toNat = 3 by omega)

/-- The address of a header is in an accepted file if its sizes are: a header that begins
below the file would have its sizes in the first bytes of it, and these are not zero. -/
theorem paddr_fits (h : result f (elfLoaderIsLoadable (some elf)) = .ok true) {p : U64}
    (hfilesz : Fits size (p + 32) 8)
    (hread : (f.segmentAt p).filesz ≠ 0 ∨ (f.segmentAt p).memsz - (f.segmentAt p).filesz ≠ 0 →
      Fits size (p + 24) 8) : Fits size (p + 24) 8 := by
  unfold Fits at hfilesz
  by_cases hbelow : 8 ≤ (p + 32).toNat
  · unfold Fits
    bv_omega
  · refine hread (Classical.byContradiction fun hnone => ?_)
    obtain ⟨hmagic, htype⟩ := bytes_of_loadable h
    obtain ⟨hfile, hdiff⟩ := not_or.mp hnone
    have hfile : le64 f (p + 32) = 0 := Classical.not_not.mp hfile
    have hmem : le64 f (p + 40) = 0 := by
      have hdiff : le64 f (p + 40) - le64 f (p + 32) = 0 := Classical.not_not.mp hdiff
      rw [hfile] at hdiff
      exact (BitVec.sub_zero _).symm.trans hdiff
    by_cases hzero : (p + 32).toNat = 0
    · have hat : p + 32 = 0 := BitVec.eq_of_toNat_eq hzero
      have hbyte := le64_eq_zero hfile (i := 0) (by decide)
      rw [hat, show (0 : U64) + BitVec.ofNat 64 0 = 0 from rfl, hmagic] at hbyte
      cases hbyte
    · have hbyte := le64_eq_zero hmem (i := 8 - (p + 32).toNat) (by omega)
      have hat : p + 40 + BitVec.ofNat 64 (8 - (p + 32).toNat) = 16 := by bv_omega
      rw [hat, htype] at hbyte
      cases hbyte

section Accepted

variable (hload : result f (elfLoaderIsLoadable (some elf)) = .ok true)
include hload

theorem readsIn_copies (h : 64 ≤ size.toNat) (hw : w ≠ 0) :
    ReadsIn f (InFile size) (elfLoaderInstantiate (some elf) w) ↔
      ∀ k < f.segmentTable.length.toNat, CopyFits f size (f.segmentTable.entry k) := by
  rw [readsIn_elfLoaderInstantiate_segments h hw (tables_of_loadable hload).1]
  refine forall₂_congr fun k _ => ?_
  rw [readsIn_instantiateSegment]
  constructor
  · rintro ⟨hfilesz, hcopy, hmemsz, hzeros⟩
    have hpaddr := paddr_fits hload hfilesz
      fun hread => hread.elim (fun hne => (hcopy hne).1) hzeros
    exact ⟨hpaddr, hfilesz, hmemsz, fun hne => (hcopy hne).2⟩
  · intro hfit
    exact ⟨hfit.filesz, fun hne => ⟨hfit.paddr, hfit.contents hne⟩, hfit.memsz,
      fun _ => hfit.paddr⟩

theorem readsIn_relocations (h : 64 ≤ size.toNat) (hw : w ≠ 0) (he : e ≠ 0)
    (hseg : ∀ k < f.segmentTable.length.toNat, CopyFits f size (f.segmentTable.entry k)) :
    ReadsIn f (InFile size) (elfLoaderRelocate (some elf) w e) ↔ RelocateFits f elf size := by
  refine readsIn_elfLoaderRelocate h (fun address => ?_) hw he
  refine readsIn_elfLoaderRelativeAddressIsExecutable elf h address
    (fun _ k hk => ⟨(hseg k hk).paddr, (hseg k hk).memsz⟩) fun hph => ?_
  exact absurd hph (tables_of_loadable hload).1

theorem readsIn_elfLoaderLoad_accepted (hw : w ≠ 0) (he : e ≠ 0) :
    ReadsIn f (InFile elf.size) (elfLoaderLoad (some elf) w e) ↔ ImageFits f elf := by
  simp only [elfLoaderLoad, hw, he, if_false]
  rw [readsIn_bind_of_ok hload, if_neg Bool.noConfusion,
    readsIn_bind_of_ok (result_elfLoaderInstantiate hw)]
  constructor
  · rintro ⟨-, hcopy, hreloc⟩
    have hheader := header_of_elfLoaderRelocate hw he hreloc
    have hseg := (readsIn_copies hload hheader hw).mp hcopy
    exact ⟨hheader, hseg, (readsIn_relocations hload hheader hw he hseg).mp hreloc⟩
  · intro hfit
    exact ⟨readsIn_elfLoaderIsLoadable hfit.header,
      (readsIn_copies hload hfit.header hw).mpr hfit.segments,
      (readsIn_relocations hload hfit.header hw he hfit.segments).mpr hfit.relocations⟩

end Accepted

/-! ### A load -/

/-- The tests stay in the file, and if they are passed so does everything the file refers to,
while its segments and slots stay in the memory it asks for. -/
def LoadConfined (f : File) (elf : Elf) (w e : U64) : Prop :=
  w = 0 ∨ e = 0 ∨ TestsFit elf.size (f.magicTests ++ f.loadableTests) ∧
    (result f (elfLoaderIsLoadable (some elf)) = .ok true →
      ImageFits f elf ∧ SegmentsFit f ∧ SlotsFit f elf)

/-- Nothing is read past the file, and nothing written outside the memory it asks for. -/
def StaysInside (f : File) (elf : Elf) (w e : U64) : Prop :=
  ReadsIn f (InFile elf.size) (elfLoaderLoad (some elf) w e) ∧ WritesContained f elf w e

/-- The condition leaves out only the files on which the load goes outside. -/
theorem loadConfined_iff_staysInside (f : File) (elf : Elf) (w e : U64) :
    LoadConfined f elf w e ↔ StaysInside f elf w e := by
  unfold LoadConfined StaysInside
  by_cases hw : w = 0
  · refine iff_of_true (Or.inl hw) ⟨?_, writesContained_of_null f elf (Or.inl hw)⟩
    rw [elfLoaderLoad, if_pos hw]
    exact readsIn_ret _
  by_cases he : e = 0
  · refine iff_of_true (Or.inr (Or.inl he)) ⟨?_, writesContained_of_null f elf (Or.inr he)⟩
    rw [elfLoaderLoad, if_neg hw, if_pos he]
    exact readsIn_ret _
  obtain ⟨hres, hreads⟩ := performs_elfLoaderIsLoadable f elf elf.size
  simp only [hw, he, false_or]
  cases hpass : (f.magicTests ++ f.loadableTests).all HeaderTest.passes with
  | true =>
      rw [hpass] at hres
      rw [readsIn_elfLoaderLoad_accepted hres hw he, writesContained_iff_fit hw he hres]
      simp only [hres, true_implies]
      refine and_iff_right_of_imp fun hfit => ?_
      exact hreads.mp (readsIn_elfLoaderIsLoadable hfit.1.header)
  | false =>
      rw [hpass] at hres
      have hnot : ¬ result f (elfLoaderIsLoadable (some elf)) = .ok true := by
        rw [hres]
        exact fun hc => Bool.noConfusion (Except.ok.inj hc)
      have hwritten : WritesContained f elf w e := by
        intro mem n _ a ha
        simp only [exec_eq, elfLoaderLoad, hw, he, if_false, stores_bind, hres, onOk_ok, if_true,
          quiet_elfLoaderIsLoadable.stores_eq, pure_eq, stores_ret, List.append_nil, List.map_nil,
          List.not_mem_nil] at ha
      simp only [hnot, false_implies, and_true, hwritten]
      simp only [elfLoaderLoad, hw, he, if_false]
      rw [readsIn_bind_of_ok hres, if_pos rfl, hreads]
      exact (and_iff_left (readsIn_ret _)).symm

end LibPS4
