/-
Kernel stubs are bound to the kernel's own symbols.

The three parts of a resolution in the kernel meet here: the search for the image and its
tables, the walk through the symbols, and the resolver that stores what was found in the
cell of a stub.  The first call finds the image, which is not looked at again; the others
read the symbols, their strings and the name, and each call stores in one cell.  As long as
the cells are apart from what is read, the calls do not disturb each other: whatever the
order, a cell ends up with the value the image has for the stub's name.

The lookup never sees the last symbol, so that one is left out of what a name is bound to.
-/
import LibPS4.Kernel.Resolve
import LibPS4.Proofs.KernelRuns
import LibPS4.Proofs.KernelSymbols
import LibPS4.Proofs.MixedModes

namespace LibPS4

open Effects Prog

/-! ### What a name is bound to -/

/-- The first symbol with the name, the last symbol aside. -/
def boundEntry (n : Nat) (names : Nat → List Byte) (str : List Byte) : Option Nat :=
  (List.range (n - 1)).find? fun i => names i = str

/-- Its value, and `NULL` if there is none. -/
def boundTo (f : File) (k : PS4KernelStatics) (n : Nat) (names : Nat → List Byte)
    (str : List Byte) : U64 :=
  (boundEntry n names str).elim 0 (f.symbolValue k)

section Lookup

variable {f : File} {k : PS4KernelStatics} {n : Nat} {names : Nat → List Byte} {name : U64}
  {str : List Byte}

theorem SymbolTable.result_bound (ht : SymbolTable f k n names) (hname : f.Spells name str)
    (h0 : 0 ∉ str) (hne : str ≠ []) (hshort : str.length < 2 ^ 31) :
    result f (kernelSymbols k name) = .ok (boundTo f k n names str) := by
  obtain ⟨i, hbefore, hends⟩ := ht.walkEnds hname h0 hne
  cases hends with
  | last h hr =>
      have hnone : boundEntry n names str = none := by
        rw [boundEntry, List.find?_eq_none]
        intro j hj
        rw [List.mem_range] at hj
        have hj' := (hbefore j (by omega)).2.2
        rwa [decide_eq_true_eq]
      rw [hr, boundTo, hnone]
      rfl
  | overflow h hlong hr => exact absurd hlong (not_agreeTooLong hshort)
  | found h _ heq hr =>
      have hsome : boundEntry n names str = some i := by
        rw [boundEntry, List.find?_range_eq_some]
        refine ⟨decide_eq_true heq, List.mem_range.mpr (by omega), fun j hj => ?_⟩
        rw [Bool.not_eq_true', decide_eq_false_iff_not]
        exact (hbefore j hj).2.2
      rw [hr, boundTo, hsome]
      rfl

/-! ### Memory that is left alone -/

/-- Memory is the same where the symbols and their strings are. -/
structure SameTable (f g : File) (k : PS4KernelStatics) (n : Nat) (names : Nat → List Byte) :
    Prop where
  symbols : ∀ j < KernelSymbol.size * n,
    g (k.elfSymbols + BitVec.ofNat 64 j) = f (k.elfSymbols + BitVec.ofNat 64 j)
  strings : ∀ i < n, ∀ j ≤ (names i).length,
    g (f.symbolName k i + BitVec.ofNat 64 j) = f (f.symbolName k i + BitVec.ofNat 64 j)

/-- The bytes of an entry. -/
theorem SameTable.entry {g : File} (h : SameTable f g k n names) {i o m : Nat} (hi : i < n)
    (hm : o + m ≤ KernelSymbol.size) :
    leNat g m (k.entry i + BitVec.ofNat 64 o) = leNat f m (k.entry i + BitVec.ofNat 64 o) := by
  refine leNat_congr m _ fun j hj => ?_
  rw [PS4KernelStatics.entry, BitVec.add_assoc, BitVec.add_assoc, ← BitVec.ofNat_add,
    ← BitVec.ofNat_add]
  refine h.symbols _ ?_
  have hle : KernelSymbol.size * (i + 1) ≤ KernelSymbol.size * n := Nat.mul_le_mul_left _ hi
  rw [Nat.mul_succ] at hle
  omega

theorem SameTable.symbolName {g : File} (h : SameTable f g k n names) {i : Nat} (hi : i < n) :
    g.symbolName k i = f.symbolName k i := by
  have hentry := h.entry (o := 0) (m := 4) hi (by decide)
  rw [BitVec.add_zero] at hentry
  unfold File.symbolName le32
  rw [hentry]

theorem SameTable.symbolValue {g : File} (h : SameTable f g k n names) {i : Nat} (hi : i < n) :
    g.symbolValue k i = f.symbolValue k i :=
  congrArg (BitVec.ofNat 64) (h.entry (o := 8) (m := 8) hi (by decide))

theorem SymbolTable.of_same {g : File} (ht : SymbolTable f k n names)
    (h : SameTable f g k n names) : SymbolTable g k n names := by
  refine ⟨ht.initialized, ht.strings, ht.fits, fun i hi j hj => ?_, ht.terminated⟩
  rw [h.symbolName hi, h.strings i hi j hj]
  exact ht.spelled i hi j hj

theorem SameTable.boundTo {g : File} (h : SameTable f g k n names) (str : List Byte) :
    boundTo g k n names str = boundTo f k n names str := by
  unfold LibPS4.boundTo
  cases hfind : boundEntry n names str with
  | none => rw [Option.elim_none, Option.elim_none]
  | some i =>
      have hi := List.mem_range.mp (List.mem_of_find?_eq_some hfind)
      rw [Option.elim_some, Option.elim_some]
      exact h.symbolValue (by omega)

end Lookup

/-! ### One call -/

/-- On the kernel's stack nothing of the outside is asked but the one name, whatever the
arguments are. -/
theorem resolver_asks {ext ext' : Externals} {sp : U64} {arguments : ResolveArguments} {w : World}
    (hsp : ps4KernelIsInKernel sp = true)
    (h : ∀ name, lookedUpName w.mem arguments = some name →
      ext.kernelDlSym name = ext'.kernelDlSym name) :
    ps4ResolveModuleAndSymbolOrKernelSymbol Handlers.none ext sp arguments w =
      ps4ResolveModuleAndSymbolOrKernelSymbol Handlers.none ext' sp arguments w := by
  rw [resolver_none, resolver_none, hsp]
  dsimp only
  rw [Bool.true_or, if_pos rfl, if_pos rfl]
  unfold resolveKernelSymbol
  by_cases htype : ps4StubType w.mem arguments.function = ps4StubTypeFunction
  · rw [failIf_of_bad (by decide) (decide_eq_true htype),
      failIf_of_bad (by decide) (decide_eq_true htype)]
  · rw [failIf_of_good _ (decide_eq_false htype), failIf_of_good _ (decide_eq_false htype)]
    by_cases hnull : arguments.symbol = 0 ∨ arguments.kernelAddress = 0
    · have hbad : (decide (arguments.symbol = 0) || decide (arguments.kernelAddress = 0))
          = true := by
        rwa [Bool.or_eq_true, decide_eq_true_eq, decide_eq_true_eq]
      rw [failIf_of_bad (by decide) hbad, failIf_of_bad (by decide) hbad]
    · have hname : lookedUpName w.mem arguments = some arguments.symbol :=
        if_neg (not_or.mpr ⟨htype, hnull⟩)
      have hgood : (decide (arguments.symbol = 0) || decide (arguments.kernelAddress = 0))
          = false := by
        rw [not_or] at hnull
        rw [decide_eq_false hnull.1, decide_eq_false hnull.2]
        rfl
      rw [failIf_of_good _ hgood, failIf_of_good _ hgood]
      dsimp only
      rw [h _ hname]

namespace MixedStubs

variable {platform : Platform} {ι κ : Type} (stubs : MixedStubs platform ι κ)

/-- What the lookups for the stubs need: the image's symbols and the stubs' names are
terminated strings, and all of it is apart from the cells that are stored in. -/
structure Bindable (f : File) (k : PS4KernelStatics) (n : Nat) (names : Nat → List Byte)
    (strs : κ → List Byte) : Prop where
  table : SymbolTable f k n names
  spelled : ∀ j, f.Spells (stubs.kernelOperands j).symbol (strs j)
  terminated : ∀ j, 0 ∉ strs j
  nonempty : ∀ j, strs j ≠ []
  short : ∀ j, (strs j).length < 2 ^ 31
  cell_symbols : ∀ j, Separate (stubs.kernelOperands j).kernelAddress 8 k.elfSymbols
    (KernelSymbol.size * n)
  cell_strings : ∀ j, ∀ i < n, Separate (stubs.kernelOperands j).kernelAddress 8
    (f.symbolName k i) ((names i).length + 1)
  cell_names : ∀ j j', Separate (stubs.kernelOperands j).kernelAddress 8
    (stubs.kernelOperands j').symbol ((strs j').length + 1)

variable {stubs} {f : File} {k : PS4KernelStatics} {n : Nat} {names : Nat → List Byte}
  {strs : κ → List Byte}

/-- A stub with a cell for a kernel function gets as far as the lookup. -/
theorem lookedUpName_eq {w : World} (h : stubs.KernelInstalled w) {j : κ}
    {arguments : ResolveArguments} (harguments : stubs.Names j arguments) :
    lookedUpName w.mem arguments = some (stubs.kernelOperands j).symbol := by
  have hcell := Stub.cell_of_isKernelFunction (stubs.kernel j) (stubs.kernelLinked j).function
  have htype := ps4StubType_installed hcell (h j)
  unfold lookedUpName
  rw [harguments.symbol, harguments.kernelAddress, harguments.function, htype, if_neg]
  rintro (h | h | h)
  · exact absurd h (by decide)
  · exact stubs.kernelSymbol_ne j h
  · exact stubs.kernelAddress_ne j h

/-- The addresses of the symbols, of their strings and of the stubs' names. -/
inductive Reads (stubs : MixedStubs platform ι κ) (f : File) (k : PS4KernelStatics) (n : Nat)
    (names : Nat → List Byte) (strs : κ → List Byte) : U64 → Prop
  | symbol {m : Nat} (h : m < KernelSymbol.size * n) :
      Reads stubs f k n names strs (k.elfSymbols + BitVec.ofNat 64 m)
  | string {i m : Nat} (hi : i < n) (h : m ≤ (names i).length) :
      Reads stubs f k n names strs (f.symbolName k i + BitVec.ofNat 64 m)
  | name (j : κ) {m : Nat} (h : m ≤ (strs j).length) :
      Reads stubs f k n names strs ((stubs.kernelOperands j).symbol + BitVec.ofNat 64 m)

/-- None of it is in a cell. -/
theorem Bindable.reads_outside (hb : stubs.Bindable f k n names strs) {a : U64}
    (h : stubs.Reads f k n names strs a) (j : κ) :
    8 ≤ (a - (stubs.kernelOperands j).kernelAddress).toNat := by
  cases h with
  | symbol h => exact (hb.cell_symbols j).outside h
  | string hi h => exact (hb.cell_strings j _ hi).outside (Nat.lt_succ_of_le h)
  | name j' h => exact (hb.cell_names j j').outside (Nat.lt_succ_of_le h)

/-- In memory that is the same there, every name is bound as before. -/
theorem Bindable.lookup (hb : stubs.Bindable f k n names strs) {g : File}
    (h : ∀ a, stubs.Reads f k n names strs a → g a = f a) (j : κ) :
    result g (kernelSymbols k (stubs.kernelOperands j).symbol)
      = .ok (boundTo f k n names (strs j)) := by
  have hsame : SameTable f g k n names :=
    ⟨fun m hm => h _ (.symbol hm), fun i hi m hm => h _ (.string hi hm)⟩
  have hname : g.Spells (stubs.kernelOperands j).symbol (strs j) := by
    intro m hm
    rw [h _ (.name j hm)]
    exact hb.spelled j m hm
  rw [(hb.table.of_same hsame).result_bound hname (hb.terminated j) (hb.nonempty j) (hb.short j),
    hsame.boundTo]

/-- What the resolver returns for a stub that is bound to `v`. -/
def boundStatus (v : U64) : Except NullUse PS4ResolveStatus :=
  if v = 0 then .ok .kernelFunctionResolveError else .ok .success

variable {k₀ : PS4KernelState}

/-- **One call of the resolver.**  The stub's cell gets what its name is bound to. -/
theorem Bindable.resolver {w : World} {kk : PS4KernelState}
    (hb : stubs.Bindable f k₀.toPS4KernelStatics n names strs)
    (hinstalled : stubs.KernelInstalled w)
    (h : ∀ a, stubs.Reads f k₀.toPS4KernelStatics n names strs a → w.mem a = f a)
    (hk : result w.mem (whenInitialized kk) = .ok k₀) (ext : Externals) {sp : U64}
    (hsp : ps4KernelIsInKernel sp = true) {j : κ} {arguments : ResolveArguments}
    (harguments : stubs.Names j arguments) :
    resolveInKernel ext sp arguments w kk =
      .ok ((boundStatus (boundTo f k₀.toPS4KernelStatics n names (strs j)),
        w.store (stubs.kernelOperands j).kernelAddress 8
          (boundTo f k₀.toPS4KernelStatics n names (strs j)).toNat), k₀) := by
  have hlookup : result w.mem (kernelDlSym (stubs.kernelOperands j).symbol kk)
      = .ok (boundTo f k₀.toPS4KernelStatics n names (strs j), k₀) := by
    have hlooks : (KernelRequest.dlSym (stubs.kernelOperands j).symbol).Looks := trivial
    exact (serve_of_whenInitialized hk hlooks).mpr ⟨hb.lookup h j, rfl⟩
  unfold resolveInKernel
  rw [lookedUpName_eq hinstalled harguments]
  dsimp only
  rw [hlookup, ok_bind]
  have hresolve := resolver_kernel hinstalled harguments
    { ext with kernelDlSym := fun _ => boundTo f k₀.toPS4KernelStatics n names (strs j) } hsp
  dsimp only
  rw [hresolve]
  rfl

/-- The code is in place, and outside the cells memory is what it was in `f`. -/
structure Undisturbed (stubs : MixedStubs platform ι κ) (f : File) (w : World) : Prop where
  installed : stubs.KernelInstalled w
  same : ∀ a, (∀ j, 8 ≤ (a - (stubs.kernelOperands j).kernelAddress).toNat) → w.mem a = f a

theorem Undisturbed.store {w : World} (h : stubs.Undisturbed f w) (j : κ) (v : Nat) :
    stubs.Undisturbed f (w.store (stubs.kernelOperands j).kernelAddress 8 v) := by
  refine ⟨h.installed.of_same (fun j' m hm => ?_) _ _, fun a ha => ?_⟩
  · exact replay_span_of_separate w.mem _ (stubs.kernel_code j j') hm
  · show Prog.replay (span (stubs.kernelOperands j).kernelAddress 8 (byteOf v)) w.mem a = f a
    have hout := ha j
    rw [replay_span (by decide), if_neg (by omega)]
    exact h.same a ha

/-- **One call.** -/
theorem Bindable.resolve {w : World} {kk : PS4KernelState}
    (hb : stubs.Bindable f k₀.toPS4KernelStatics n names strs) (h : stubs.Undisturbed f w)
    (hk : result w.mem (whenInitialized kk) = .ok k₀) (ext : Externals) {sp : U64}
    (hsp : ps4KernelIsInKernel sp = true) (j : κ) :
    ps4ResolveInKernel ext sp (stubs.kernelLinked j).function w kk =
      .ok ((boundStatus (boundTo f k₀.toPS4KernelStatics n names (strs j)),
        w.store (stubs.kernelOperands j).kernelAddress 8
          (boundTo f k₀.toPS4KernelStatics n names (strs j)).toNat), k₀) := by
  unfold ps4ResolveInKernel
  rw [kernelResolveOperands h.installed j]
  exact hb.resolver h.installed (fun a ha => h.same a (hb.reads_outside ha)) hk ext hsp
    ⟨rfl, rfl, kernelOperands_function j⟩

/-! ### Runs -/

/-- The calls by stack pointer and address. -/
def kernelCalls (stubs : MixedStubs platform ι κ) (calls : List (κ × U64)) : List (U64 × U64) :=
  calls.map fun c => (c.2, (stubs.kernelLinked c.1).function)

/-- Each cell asked for holds what its stub's name is bound to, and the others are as they
were. -/
def Filled (stubs : MixedStubs platform ι κ) [DecidableEq κ] (value : κ → U64) (asked : List κ)
    (w w' : World) : Prop :=
  ∀ j, stubs.kernelCell w' j = if j ∈ asked then value j else stubs.kernelCell w j

/-- The first call of a run, if there is one, sees to it that the image is known. -/
theorem Bindable.resolveAll [DecidableEq κ]
    (hb : stubs.Bindable f k₀.toPS4KernelStatics n names strs) (ext : Externals)
    (calls : List (κ × U64)) (hcalls : ∀ c ∈ calls, ps4KernelIsInKernel c.2 = true) {w : World}
    {kk : PS4KernelState} (h : stubs.Undisturbed f w)
    (hk : result w.mem (whenInitialized kk) = .ok k₀) :
    ∃ w', ps4ResolveAllInKernel ext (stubs.kernelCalls calls) w kk =
        .ok (calls.map fun c =>
          boundStatus (boundTo f k₀.toPS4KernelStatics n names (strs c.1)), w',
          if calls.isEmpty then kk else k₀) ∧
      stubs.Undisturbed f w' ∧
      stubs.Filled (fun j => boundTo f k₀.toPS4KernelStatics n names (strs j))
        (calls.map Prod.fst) w w' := by
  induction calls generalizing w kk with
  | nil => exact ⟨w, rfl, h, fun j => (if_neg List.not_mem_nil).symm⟩
  | cons c calls ih =>
      obtain ⟨j, sp⟩ := c
      have hsp : ps4KernelIsInKernel sp = true := hcalls (j, sp) List.mem_cons_self
      have hstep := hb.resolve h hk ext hsp j
      have hinit : ∀ g : File, result g (whenInitialized k₀) = .ok k₀ := by
        intro g
        rw [whenInitialized, if_pos hb.table.initialized]
        rfl
      obtain ⟨w', hrest, hundisturbed, hfilled⟩ :=
        ih (fun c hc => hcalls c (List.mem_cons_of_mem _ hc))
          (h.store j (boundTo f k₀.toPS4KernelStatics n names (strs j)).toNat) (hinit _)
      rw [ite_self] at hrest
      refine ⟨w', ?_, hundisturbed, fun j' => ?_⟩
      · show (ps4ResolveInKernel ext sp (stubs.kernelLinked j).function w kk >>= fun r => _) = _
        rw [hstep, ok_bind]
        show (ps4ResolveAllInKernel ext (stubs.kernelCalls calls) _ k₀ >>= fun r => _) = _
        rw [hrest]
        rfl
      · rw [hfilled j', kernelCell_store, List.map_cons]
        by_cases hlater : j' ∈ calls.map Prod.fst
        · rw [if_pos hlater, if_pos (List.mem_cons_of_mem _ hlater)]
        · rw [if_neg hlater]
          by_cases hj : j' = j
          · subst hj
            rw [Function.update_self, if_pos List.mem_cons_self]
          · have hnot : j' ∉ j :: calls.map Prod.fst := by
              rw [List.mem_cons, not_or]
              exact ⟨hj, hlater⟩
            rw [Function.update_of_ne hj, if_neg hnot]

/--
**Stubs are bound to the kernel's own symbols.**

For every memory in which the image is found, every image whose symbols and strings lie as
they should, and stubs whose cells are apart from these and from the stubs' names: however
often and in whatever order the stubs are resolved in the kernel, no call fails to return,
each one returns success exactly if its name is bound to something, and in the end the cell
of every stub that was resolved holds the value of the first symbol with its name, the last
symbol aside.  The other cells and all other memory are as they were.
-/
theorem kernelStubs_bound [DecidableEq κ] (stubs : MixedStubs platform ι κ) (ext : Externals)
    (w : World) (k k₀ : PS4KernelState) (d : U64) (n : Nat) (names : Nat → List Byte)
    (strs : κ → List Byte) (hinstalled : stubs.KernelInstalled w) (hk : k.initialized = false)
    (hsought : Sought w.mem (some d)) (himage : KernelImage w.mem d k₀)
    (hb : stubs.Bindable w.mem k₀.toPS4KernelStatics n names strs) (calls : List (κ × U64))
    (hcalls : ∀ c ∈ calls, ps4KernelIsInKernel c.2 = true) :
    let value := fun j => boundTo w.mem k₀.toPS4KernelStatics n names (strs j)
    ∃ w', ps4ResolveAllInKernel ext (stubs.kernelCalls calls) w k =
        .ok (calls.map fun c => boundStatus (value c.1), w',
          if calls.isEmpty then k else k₀) ∧
      stubs.Filled value (calls.map Prod.fst) w w' ∧
      ∀ a, (∀ j, 8 ≤ (a - (stubs.kernelOperands j).kernelAddress).toNat) →
        w'.mem a = w.mem a := by
  have hfound : result w.mem (whenInitialized k) = .ok k₀ := by
    rw [whenInitialized, hk, if_neg Bool.false_ne_true]
    exact (ps4KernelInternalInitialize_found hsought).mpr himage
  obtain ⟨w', hrun, hundisturbed, hfilled⟩ :=
    hb.resolveAll ext calls hcalls ⟨hinstalled, fun _ _ => rfl⟩ hfound
  exact ⟨w', hrun, hfilled, hundisturbed.same⟩

end MixedStubs

/-- The small kernel, a stub with a cell for each side, and its name `a`. -/
def boundWorld : World :=
  ⟨fun a => if a = 0x500010 then 0x61
    else if (a - 0xffffffff80700000).toNat < 0x200 then smallKernel a else oneWorld.mem a, 0, []⟩

def smallImage : PS4KernelState :=
  ⟨⟨true, 0xffffffff807000e0, 0xffffffff80700110⟩, 0xffffffff80700000⟩

theorem boundWorld_sought : Sought boundWorld.mem (some 0xffffffff80700000) := by
  obtain ⟨o, hseek, hsought⟩ := result_ps4KernelElfSeek boundWorld.mem
  have hknown : result boundWorld.mem ps4KernelElfSeek = .ok (some 0xffffffff80700000) := by
    decide +kernel
  rw [hknown] at hseek
  rwa [Except.ok.inj hseek]

theorem boundWorld_image : KernelImage boundWorld.mem 0xffffffff80700000 smallImage := by
  rw [← ps4KernelInternalInitialize_found (k := .zero) boundWorld_sought]
  decide +kernel

theorem boundWorld_installed : oneMixed.KernelInstalled boundWorld :=
  oneWorld_fresh.installed.of_same (by decide +kernel) 0 []

theorem boundWorld_bindable :
    oneMixed.Bindable boundWorld.mem smallImage.toPS4KernelStatics 2 twoNames fun _ => [0x61] where
  table := ⟨rfl, by decide, by decide, by decide +kernel, by decide⟩
  spelled := by decide +kernel
  terminated := by decide
  nonempty := by decide
  short := by decide
  cell_symbols := by decide
  cell_strings := by decide +kernel
  cell_names := by decide

/-- The stub is resolved twice. -/
theorem boundWorld_bound : ∃ w', ps4ResolveAllInKernel findsAll
      [(0xffffffff80000000, 0x400000), (0xffffffff80000000, 0x400000)] boundWorld .zero
        = .ok ([.ok .success, .ok .success], w', smallImage) ∧
    oneMixed.kernelCell w' 0 = 1 := by
  have hcalls : ∀ c ∈ [((0 : Fin 1), (0xffffffff80000000 : U64)), (0, 0xffffffff80000000)],
      ps4KernelIsInKernel c.2 = true := by
    intro c hc
    simp only [List.mem_cons, List.not_mem_nil, or_false] at hc
    rcases hc with rfl | rfl <;> rfl
  obtain ⟨w', hrun, hfilled, -⟩ := MixedStubs.kernelStubs_bound oneMixed findsAll boundWorld .zero
    smallImage 0xffffffff80700000 2 twoNames (fun _ => [0x61]) boundWorld_installed rfl
    boundWorld_sought boundWorld_image boundWorld_bindable _ hcalls
  have hvalue : boundTo boundWorld.mem smallImage.toPS4KernelStatics 2 twoNames [0x61] = 1 := by
    decide +kernel
  refine ⟨w', ?_, ?_⟩
  · simp only [hvalue] at hrun
    exact hrun
  · rw [hfilled 0, if_pos (by decide)]
    exact hvalue

end LibPS4
