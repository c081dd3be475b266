/-
Stubs that are resolved from both sides.

A program may run in the user's world and in the kernel's, and one stub may have a cell for
each.  `ps4Resolve` is told the stub and takes the mode from its own stack.  Here calls of
it come in any order from both modes, for any of the stubs, and any of the outside's answers
may be a failure.  The two sides do not see each other: a resolution fills the cells of its own
mode, and the caches of both stay sound.

A lookup in the kernel that fails is written down, too, so it empties a cell that was
filled.  The stub then asks again.

`Beside` carries the run of both sides and the run of the user's calls alone next to each
other, in worlds that look alike to the user's side.
-/
import LibPS4.Proofs.Layout
import LibPS4.Proofs.Observers

namespace LibPS4

open Effects X64

/-! ### Stubs of the kernel -/

def Stub.isKernelFunction : Stub → Bool
  | .kernelFunction .. | .functionAndKernelFunction .. | .syscallAndKernelFunction .. => true
  | _ => false

theorem Stub.cell_of_isKernelFunction {stub : Stub} (h : stub.isKernelFunction = true)
    (function : U64) : stub.cell true = some (stub.operands function).kernelAddress := by
  cases stub with
  | function => cases h
  | syscall => cases h
  | _ => rfl

/-- Stubs with cells for user functions, stubs with cells for kernel functions, where one
stub may be both, and what the kernel has under a name.  No cell shares a byte with another
or with a stub. -/
structure MixedStubs (platform : Platform) (ι κ : Type) extends UserStubs platform ι where
  kernelLinked : κ → LinkedStub
  kernelSymbol : U64 → U64
  kernel : ∀ k, (kernelLinked k).stub.isKernelFunction = true
  kernelSymbol_ne : ∀ k, (kernelLinked k).operands.symbol ≠ 0
  kernelAddress_ne : ∀ k, (kernelLinked k).operands.kernelAddress ≠ 0
  kernelAddresses : ∀ k k', k ≠ k' →
    Separate (kernelLinked k).operands.kernelAddress 8 (kernelLinked k').operands.kernelAddress 8
  kernel_handles : ∀ k i,
    Separate (kernelLinked k).operands.kernelAddress 8 (linked i).operands.moduleId 4
  kernel_addresses : ∀ k i,
    Separate (kernelLinked k).operands.kernelAddress 8 (linked i).operands.userAddress 8
  kernel_userCode : ∀ k i,
    Separate (kernelLinked k).operands.kernelAddress 8 (linked i).function (linked i).size
  kernel_code : ∀ k k', Separate (kernelLinked k).operands.kernelAddress 8
    (kernelLinked k').function (kernelLinked k').size
  handles_kernelCode : ∀ i k, Separate (linked i).operands.moduleId 4
    (kernelLinked k).function (kernelLinked k).size
  addresses_kernelCode : ∀ i k, Separate (linked i).operands.userAddress 8
    (kernelLinked k).function (kernelLinked k).size

/-- A call of `ps4Resolve` on a stub, with its stack pointer and what the outside answers.  It is
stray in a mode that the stub has no cell for. -/
inductive MixedCall (ι κ : Type)
  | user (i : ι) (sp : U64) (ext : Externals)
  | kernel (k : κ) (sp : U64) (ext : Externals)
  | stray (stub : ι ⊕ κ) (sp : U64) (ext : Externals)

namespace MixedStubs

variable {platform : Platform} {ι κ : Type} (stubs : MixedStubs platform ι κ)

/-- In its own mode, with answers the outside may give.  A name the kernel does not find is
answered with `NULL`.  Whatever would be answered to a stray call, it is in the other mode, and
the stub has no operands for that. -/
def Allowed : MixedCall ι κ → Prop
  | .user _ sp ext => ps4KernelIsInKernel sp = false ∧ platform.Answers ext
  | .kernel _ sp ext => ps4KernelIsInKernel sp = true ∧
      ∀ name, ext.kernelDlSym name = stubs.kernelSymbol name ∨ ext.kernelDlSym name = 0
  | .stray (.inl i) sp _ => ps4KernelIsInKernel sp = true ∧
      (stubs.linked i).operands.kernelAddress = 0
  | .stray (.inr k) sp _ => ps4KernelIsInKernel sp = false ∧
      (stubs.kernelLinked k).operands.moduleId = 0

def resolve (w : World) : MixedCall ι κ → Except NullUse PS4ResolveStatus × World
  | .user i sp ext => ps4Resolve Handlers.none ext sp (stubs.linked i).function w
  | .kernel k sp ext => ps4Resolve Handlers.none ext sp (stubs.kernelLinked k).function w
  | .stray (.inl i) sp ext => ps4Resolve Handlers.none ext sp (stubs.linked i).function w
  | .stray (.inr k) sp ext => ps4Resolve Handlers.none ext sp (stubs.kernelLinked k).function w

def run (calls : List (MixedCall ι κ)) (w : World) : World :=
  calls.foldl (fun w call => (stubs.resolve w call).2) w

def kernelOperands (k : κ) : ResolveArguments := (stubs.kernelLinked k).operands

/-- What a kernel cell holds, and what belongs there. -/
def kernelCell (w : World) (k : κ) : U64 := le64 w.mem (stubs.kernelOperands k).kernelAddress

def ownKernelAddress (k : κ) : U64 := stubs.kernelSymbol (stubs.kernelOperands k).symbol

def KernelInstalled (w : World) : Prop :=
  ∀ k, (stubs.kernelLinked k).stub.Installed (stubs.kernelLinked k).function stubs.symbol w.mem

/-- The code is in place and no cell of either side is poisoned. -/
structure Kept (w : World) : Prop where
  user : stubs.toUserStubs.Kept w
  installed : stubs.KernelInstalled w
  kernel : ∀ k, stubs.kernelCell w k = 0 ∨ stubs.kernelCell w k = stubs.ownKernelAddress k

variable {stubs} {w : World}

/-! ### Memory that is left alone -/

theorem KernelInstalled.of_same {mem : U64 → Byte} (h : stubs.KernelInstalled w)
    (hmem : ∀ k, ∀ n < (stubs.kernelLinked k).size,
      mem ((stubs.kernelLinked k).function + BitVec.ofNat 64 n)
        = w.mem ((stubs.kernelLinked k).function + BitVec.ofNat 64 n))
    (lsm : U64) (written : List (U64 × Nat)) : stubs.KernelInstalled ⟨mem, lsm, written⟩ := by
  intro k n b hb
  have hn : n < (stubs.kernelLinked k).size := by
    obtain ⟨hn, -⟩ := List.getElem?_eq_some_iff.mp hb
    rw [assembleAt, length_assemble] at hn
    exact hn
  rw [← h k n b hb]
  exact hmem k n hn

/-- From inside one stretch it is at least the length of the other to its start. -/
theorem inside_outside {a b x : U64} {n m : Nat} (h : Separate a n b m) (hx : (x - b).toNat < m) :
    n ≤ (x - a).toNat := by
  have hout := h.outside hx
  have hx' : b + BitVec.ofNat 64 (x - b).toNat = x := by
    rw [BitVec.ofNat_toNat, BitVec.setWidth_eq, BitVec.add_comm, BitVec.sub_add_cancel]
  rwa [hx'] at hout

/-- The cells of the kernel are apart from everything of the user's. -/
theorem owns_outside {a : U64} (h : stubs.Owns a) (k : κ) :
    8 ≤ (a - (stubs.kernelOperands k).kernelAddress).toNat := by
  obtain ⟨i, h | h | h⟩ := h
  · exact inside_outside (stubs.kernel_handles k i) h
  · exact inside_outside (stubs.kernel_addresses k i) h
  · exact inside_outside (stubs.kernel_userCode k i) h

/-! ### A call from the user's side -/

theorem resolve_user (h : stubs.toUserStubs.Installed w) (i : ι) (sp : U64) (ext : Externals) :
    stubs.resolve w (.user i sp ext)
      = (stubs.toUserStubs.resolve ⟨i, 0, sp, ext⟩ w).returned := by
  have hops := ps4ResolveOperands_installed (UserStubs.cell_eq i) (h i)
  have harguments : stubs.toUserStubs.arguments ⟨i, 0, sp, ext⟩ = stubs.operands i := by
    have huser := stubs.user i
    unfold UserStubs.arguments UserStubs.operands LinkedStub.operands
    cases hstub : (stubs.linked i).stub with
    | function => rfl
    | functionAndKernelFunction => rfl
    | _ =>
        rw [hstub] at huser
        cases huser
  unfold UserStubs.resolve
  rw [harguments]
  show ps4Resolve Handlers.none ext sp (stubs.linked i).function w = _
  unfold ps4Resolve
  rw [hops]
  rfl

/-- Nothing of the kernel's side is touched. -/
theorem Kept.user_step (h : stubs.Kept w) {i : ι} {sp : U64} {ext : Externals}
    (hcall : stubs.Allowed (.user i sp ext)) :
    stubs.Kept (stubs.resolve w (.user i sp ext)).2 ∧
      ∀ k, stubs.kernelCell (stubs.resolve w (.user i sp ext)).2 k = stubs.kernelCell w k := by
  have hallowed : (⟨i, 0, sp, ext⟩ : UserCall ι).Allowed platform := ⟨hcall.1, hcall.2⟩
  rw [resolve_user h.user.installed]
  dsimp only [Resolution.returned]
  have hspec := UserStubs.resolve_spec hallowed h.user
  have hsame := UserStubs.resolve_sameOutside hallowed h.user
  -- What is apart from both cells of the stub is what it was.
  have hkeep : ∀ {b : U64} {m : Nat}, Separate (stubs.operands i).moduleId 4 b m →
      Separate (stubs.operands i).userAddress 8 b m → ∀ n < m,
      (stubs.toUserStubs.resolve ⟨i, 0, sp, ext⟩ w).world.mem (b + BitVec.ofNat 64 n)
        = w.mem (b + BitVec.ofNat 64 n) := by
    intro b m hhandle haddress n hn
    refine hsame _ fun c hc => ?_
    simp only [List.mem_cons, List.not_mem_nil, or_false] at hc
    rcases hc with rfl | rfl
    · exact hhandle.outside hn
    · exact haddress.outside hn
  have hcells : ∀ k, stubs.kernelCell (stubs.toUserStubs.resolve ⟨i, 0, sp, ext⟩ w).world k
      = stubs.kernelCell w k := by
    intro k
    refine congrArg (BitVec.ofNat 64) (leNat_congr 8 _ ?_)
    exact hkeep (stubs.kernel_handles k i).symm (stubs.kernel_addresses k i).symm
  refine ⟨⟨hspec.kept, ?_, fun k => ?_⟩, hcells⟩
  · exact h.installed.of_same
      (fun k => hkeep (stubs.handles_kernelCode i k) (stubs.addresses_kernelCode i k)) _ _
  · rw [hcells k]
    exact h.kernel k

/-! ### A call from the kernel's side -/

theorem kernelOperands_function (k : κ) :
    (stubs.kernelOperands k).function = (stubs.kernelLinked k).function := by
  unfold kernelOperands LinkedStub.operands
  cases (stubs.kernelLinked k).stub <;> rfl

/-- The arguments that count in the kernel are the stub's. -/
structure Names (stubs : MixedStubs platform ι κ) (k : κ) (arguments : ResolveArguments) : Prop
    where
  symbol : arguments.symbol = (stubs.kernelOperands k).symbol
  kernelAddress : arguments.kernelAddress = (stubs.kernelOperands k).kernelAddress
  function : arguments.function = (stubs.kernelLinked k).function

/-- What the lookup finds is stored, and a `NULL` is an error. -/
theorem resolver_kernel (h : stubs.KernelInstalled w) {k : κ} {arguments : ResolveArguments}
    (harguments : stubs.Names k arguments) {sp : U64} (ext : Externals)
    (hsp : ps4KernelIsInKernel sp = true) :
    (ps4ResolveModuleAndSymbolOrKernelSymbol Handlers.none ext sp arguments w).returned =
      (if ext.kernelDlSym (stubs.kernelOperands k).symbol = 0
        then .ok .kernelFunctionResolveError else .ok .success,
      w.store (stubs.kernelOperands k).kernelAddress 8
        (ext.kernelDlSym (stubs.kernelOperands k).symbol).toNat) := by
  obtain ⟨hsymbol, haddress, hfunction⟩ := harguments
  have hcell := Stub.cell_of_isKernelFunction (stubs.kernel k) (stubs.kernelLinked k).function
  have htype := ps4StubType_installed hcell (h k)
  have hself := le64_replay_self (a := (stubs.kernelOperands k).kernelAddress) w.mem
    (ext.kernelDlSym (stubs.kernelOperands k).symbol)
  have hsymbol_ne : ¬ (stubs.kernelOperands k).symbol = 0 := stubs.kernelSymbol_ne k
  have haddress_ne : ¬ (stubs.kernelOperands k).kernelAddress = 0 := stubs.kernelAddress_ne k
  have hgood : (decide (arguments.symbol = 0) || decide (arguments.kernelAddress = 0))
      = false := by
    rw [hsymbol, haddress, decide_eq_false hsymbol_ne, decide_eq_false haddress_ne]
    rfl
  rw [resolver_none, hsp]
  dsimp only
  rw [Bool.true_or, if_pos rfl, hfunction]
  unfold resolveKernelSymbol through
  rw [failIf_of_good _ (by rw [htype]; rfl), failIf_of_good _ hgood]
  dsimp only
  rw [hsymbol, haddress, if_neg hsymbol_ne, if_neg haddress_ne,
    show le64 (w.store _ _ _).mem _ = _ from hself]
  by_cases hzero : ext.kernelDlSym (stubs.kernelOperands k).symbol = 0
  · rw [failIf_of_bad (by decide) (decide_eq_true hzero), if_pos hzero]
    rfl
  · rw [failIf_of_good _ (decide_eq_false hzero), if_neg hzero]
    rfl

theorem kernelResolveOperands (h : stubs.KernelInstalled w) (k : κ) :
    ps4ResolveOperands w.mem (stubs.kernelLinked k).function = .inr (stubs.kernelOperands k) :=
  ps4ResolveOperands_installed
    (Stub.cell_of_isKernelFunction (stubs.kernel k) (stubs.kernelLinked k).function) (h k)

theorem resolve_kernel (h : stubs.KernelInstalled w) (k : κ) {sp : U64} (ext : Externals)
    (hsp : ps4KernelIsInKernel sp = true) :
    stubs.resolve w (.kernel k sp ext) =
      (if ext.kernelDlSym (stubs.kernelOperands k).symbol = 0
        then .ok .kernelFunctionResolveError else .ok .success,
      w.store (stubs.kernelOperands k).kernelAddress 8
        (ext.kernelDlSym (stubs.kernelOperands k).symbol).toNat) := by
  show ps4Resolve Handlers.none ext sp (stubs.kernelLinked k).function w = _
  unfold ps4Resolve
  rw [kernelResolveOperands h k]
  exact resolver_kernel h ⟨rfl, rfl, kernelOperands_function k⟩ ext hsp

theorem kernelCell_store [DecidableEq κ] (w : World) (k k' : κ) (v : U64) :
    stubs.kernelCell (w.store (stubs.kernelOperands k).kernelAddress 8 v.toNat) k'
      = Function.update (stubs.kernelCell w) k v k' := by
  by_cases hk : k' = k
  · subst hk
    rw [Function.update_self]
    exact le64_replay_self w.mem v
  · rw [Function.update_of_ne hk]
    exact le64_replay_of_separate w.mem _ (stubs.kernelAddresses k k' (Ne.symm hk))

/-- Nothing of the user's side is touched. -/
theorem agree_storeKernel (w : World) (k : κ) (v : Nat) :
    Agree stubs.Owns (w.store (stubs.kernelOperands k).kernelAddress 8 v) w := by
  refine ⟨rfl, fun a ha => ?_⟩
  show Prog.replay (span (stubs.kernelOperands k).kernelAddress 8 (byteOf v)) w.mem a = w.mem a
  have hout := owns_outside ha k
  rw [replay_span (by decide), if_neg (by omega)]

theorem Kept.kernel_step [DecidableEq κ] (h : stubs.Kept w) {k : κ} {sp : U64} {ext : Externals}
    (hcall : stubs.Allowed (.kernel k sp ext)) :
    stubs.Kept (stubs.resolve w (.kernel k sp ext)).2 := by
  rw [resolve_kernel h.installed k ext hcall.1]
  refine ⟨h.user.of_same (agree_storeKernel w k _).mem _, ?_, fun k' => ?_⟩
  · refine h.installed.of_same (fun k' n hn => ?_) _ _
    exact replay_span_of_separate w.mem _ (stubs.kernel_code k k') hn
  · rw [kernelCell_store]
    by_cases hk : k' = k
    · subst hk
      rw [Function.update_self]
      exact (hcall.2 _).symm
    · rw [Function.update_of_ne hk]
      exact h.kernel k'

/-! ### A call from nowhere -/

/-- The check of the operands sends a stray call away.  In user mode it gets to that check,
since the byte that should hold a stub's kind sends none to the kernel branch. -/
theorem resolve_stray (h : stubs.Kept w) {stub : ι ⊕ κ} {sp : U64} {ext : Externals}
    (hcall : stubs.Allowed (.stray stub sp ext)) :
    stubs.resolve w (.stray stub sp ext) = (.ok .argumentError, w) := by
  cases stub with
  | inl i =>
      obtain ⟨hsp, haddress⟩ := hcall
      show ps4Resolve Handlers.none ext sp (stubs.linked i).function w = _
      unfold ps4Resolve
      rw [ps4ResolveOperands_installed (UserStubs.cell_eq i) (h.user.installed i)]
      dsimp only
      rw [resolver_none, hsp]
      dsimp only
      rw [Bool.true_or, if_pos rfl, kernel_guarded _ _ _ _ (.inr haddress)]
      rfl
  | inr k =>
      obtain ⟨hsp, hhandle⟩ := hcall
      have hcell := Stub.cell_of_isKernelFunction (stubs.kernel k) (stubs.kernelLinked k).function
      have htype := ps4StubType_installed hcell (h.installed k)
      have hbranch : (ps4KernelIsInKernel sp || decide (ps4StubType w.mem
          (stubs.kernelLinked k).function = ps4StubTypeKernelFunction)) = false := by
        rw [hsp, htype]
        rfl
      show ps4Resolve Handlers.none ext sp (stubs.kernelLinked k).function w = _
      unfold ps4Resolve
      rw [kernelResolveOperands h.installed k]
      dsimp only
      rw [resolver_none]
      dsimp only
      rw [kernelOperands_function, if_neg (by rw [hbranch]; exact Bool.false_ne_true),
        user_guarded _ _ _ (.inl hhandle)]
      rfl

/-! ### Runs -/

/-- As linked: nothing is resolved on either side. -/
structure Fresh (stubs : MixedStubs platform ι κ) (w : World) : Prop where
  user : stubs.toUserStubs.Fresh w
  installed : stubs.KernelInstalled w
  kernel : ∀ k, stubs.kernelCell w k = 0

theorem Fresh.kept (h : stubs.Fresh w) : stubs.Kept w :=
  ⟨UserStubs.Fresh.kept h.user, h.installed, fun k => .inl (h.kernel k)⟩

/-- The calls from the user's side. -/
def userCalls (calls : List (MixedCall ι κ)) : List (UserCall ι) :=
  calls.filterMap fun
    | .user i sp ext => some ⟨i, 0, sp, ext⟩
    | _ => none

theorem resolve_user_agree {v : World} (hw : stubs.Kept w) (hv : stubs.toUserStubs.Kept v)
    (h : Agree stubs.Owns w v) {i : ι} {sp : U64} {ext : Externals}
    (hcall : stubs.Allowed (.user i sp ext)) :
    (stubs.resolve w (.user i sp ext)).1 = (stubs.toUserStubs.resolve ⟨i, 0, sp, ext⟩ v).status ∧
      Agree stubs.Owns (stubs.resolve w (.user i sp ext)).2
        (stubs.toUserStubs.resolve ⟨i, 0, sp, ext⟩ v).world := by
  have hallowed : (⟨i, 0, sp, ext⟩ : UserCall ι).Allowed platform := ⟨hcall.1, hcall.2⟩
  rw [resolve_user hw.user.installed, UserStubs.resolve_eq_user hallowed hw.user.installed,
    UserStubs.resolve_eq_user hallowed hv.installed]
  refine h.resolveUserSymbol observe_none ?_
  rw [UserStubs.arguments_moduleId]
  exact UserStubs.covers_handle i

/-- The world of both sides next to that of the user's calls alone, and the kernel's cells. -/
structure Beside (stubs : MixedStubs platform ι κ) (w v : World) (cells : κ → U64) : Prop where
  kept : stubs.Kept w
  alone : stubs.toUserStubs.Kept v
  agree : Agree stubs.Owns w v
  cells : stubs.kernelCell w = cells

theorem Beside.user {v : World} {cells : κ → U64} (h : stubs.Beside w v cells) {i : ι} {sp : U64}
    {ext : Externals} (hcall : stubs.Allowed (.user i sp ext)) :
    stubs.Beside (stubs.resolve w (.user i sp ext)).2
      (stubs.toUserStubs.resolve ⟨i, 0, sp, ext⟩ v).world cells := by
  obtain ⟨hkept, hcells⟩ := h.kept.user_step hcall
  have hallowed : (⟨i, 0, sp, ext⟩ : UserCall ι).Allowed platform := ⟨hcall.1, hcall.2⟩
  refine ⟨hkept, (UserStubs.resolve_spec hallowed h.alone).kept, ?_, ?_⟩
  · exact (resolve_user_agree h.kept h.alone h.agree hcall).2
  · rw [funext hcells]
    exact h.cells

variable [DecidableEq κ]

/-- What the calls from the kernel's side make of its cells. -/
def kernelRun (stubs : MixedStubs platform ι κ) (calls : List (MixedCall ι κ)) (cells : κ → U64) :
    κ → U64 :=
  calls.foldl (fun cells call =>
    match call with
    | .kernel k _ ext => Function.update cells k (ext.kernelDlSym (stubs.kernelOperands k).symbol)
    | _ => cells)
    cells

theorem Beside.kernel {v : World} {cells : κ → U64} (h : stubs.Beside w v cells) {k : κ} {sp : U64}
    {ext : Externals} (hcall : stubs.Allowed (.kernel k sp ext)) :
    stubs.Beside (stubs.resolve w (.kernel k sp ext)).2 v
      (Function.update cells k (ext.kernelDlSym (stubs.kernelOperands k).symbol)) := by
  have hkept := h.kept.kernel_step hcall
  rw [resolve_kernel h.kept.installed k ext hcall.1] at hkept ⊢
  have hagree : Agree stubs.Owns (w.store (stubs.kernelOperands k).kernelAddress 8
      (ext.kernelDlSym (stubs.kernelOperands k).symbol).toNat) w := agree_storeKernel w k _
  refine ⟨hkept, h.alone, hagree.trans h.agree, ?_⟩
  rw [← h.cells]
  exact funext fun k' => kernelCell_store w k k' _

omit [DecidableEq κ] in
theorem Beside.stray {v : World} {cells : κ → U64} (h : stubs.Beside w v cells) {stub : ι ⊕ κ}
    {sp : U64} {ext : Externals} (hcall : stubs.Allowed (.stray stub sp ext)) :
    stubs.Beside (stubs.resolve w (.stray stub sp ext)).2 v cells := by
  rw [resolve_stray h.kept hcall]
  exact h

theorem Beside.run : ∀ (calls : List (MixedCall ι κ)) {w v : World} {cells : κ → U64},
    stubs.Beside w v cells → (∀ call ∈ calls, stubs.Allowed call) →
    stubs.Beside (stubs.run calls w) (stubs.toUserStubs.run (userCalls calls) v)
      (stubs.kernelRun calls cells) := by
  intro calls
  induction calls with
  | nil => intro w v cells h _; exact h
  | cons call calls ih =>
      intro w v cells h hcalls
      have hcall := hcalls call (List.mem_cons_self ..)
      have hrest := fun c hc => hcalls c (List.mem_cons_of_mem call hc)
      cases call with
      | user i sp ext => exact ih (h.user hcall) hrest
      | kernel k sp ext => exact ih (h.kernel hcall) hrest
      | stray stub sp ext => exact ih (h.stray hcall) hrest

/--
**The two sides do not see each other.**

Calls of `ps4Resolve` come from both modes in any order, for any of the stubs, and any lookup
may fail.  What the user's side finds in its cells is what it would find had only its own
calls been made, and what the kernel's side finds is what its own lookups found last.  No
cell is poisoned, and every further call ends as it would on its own side alone; in a mode
that the stub has no cell for it is an error, and that is all.
-/
theorem sides_apart {platform : Platform} {ι κ : Type} [DecidableEq κ]
    (stubs : MixedStubs platform ι κ) (w₀ : World) (hfresh : stubs.Fresh w₀)
    (calls : List (MixedCall ι κ)) (hcalls : ∀ call ∈ calls, stubs.Allowed call) :
    let w := stubs.run calls w₀
    let v := stubs.toUserStubs.run (userCalls calls) w₀
    (w.lsm = v.lsm ∧ ∀ i, stubs.handle w i = stubs.handle v i ∧
      stubs.address w i = stubs.address v i) ∧
    stubs.kernelCell w = stubs.kernelRun calls (fun _ => 0) ∧
    stubs.toUserStubs.Sound w ∧
    (∀ k, stubs.kernelCell w k = 0 ∨ stubs.kernelCell w k = stubs.ownKernelAddress k) ∧
    (∀ i sp ext, stubs.Allowed (.user i sp ext) →
      (stubs.resolve w (.user i sp ext)).1
        = (stubs.toUserStubs.resolve ⟨i, 0, sp, ext⟩ v).status) ∧
    (∀ k sp ext, stubs.Allowed (.kernel k sp ext) →
      ((stubs.resolve w (.kernel k sp ext)).1 = .ok .success ↔
        ext.kernelDlSym (stubs.kernelOperands k).symbol ≠ 0)) ∧
    ∀ stub sp ext, stubs.Allowed (.stray stub sp ext) →
      stubs.resolve w (.stray stub sp ext) = (.ok .argumentError, w) := by
  intro w v
  have hstart : stubs.Beside w₀ w₀ (fun _ => 0) :=
    ⟨hfresh.kept, UserStubs.Fresh.kept hfresh.user, Agree.refl w₀, funext hfresh.kernel⟩
  have h : stubs.Beside w v (stubs.kernelRun calls fun _ => 0) := hstart.run calls hcalls
  refine ⟨⟨h.agree.lsm, fun i => ⟨?_, ?_⟩⟩, h.cells, h.kept.user.sound, h.kept.kernel,
    fun i sp ext hcall => ?_, fun k sp ext hcall => ?_,
    fun stub sp ext hcall => resolve_stray h.kept hcall⟩
  · exact h.agree.le32_eq (UserStubs.covers_handle i)
  · exact h.agree.le64_eq (UserStubs.covers_address i)
  · exact (resolve_user_agree h.kept h.alone h.agree hcall).1
  · rw [resolve_kernel h.kept.installed k ext hcall.1]
    by_cases hzero : ext.kernelDlSym (stubs.kernelOperands k).symbol = 0
    · rw [if_pos hzero]
      refine iff_of_false (fun h => ?_) (not_not.mpr hzero)
      cases h
    · rw [if_neg hzero]
      exact iff_of_true rfl hzero

end MixedStubs

/-- One stub with a cell for each side. -/
def bothStub : Stub := .functionAndKernelFunction 0x500000 0x500010 0x600010 0x600000 0x600020

def oneMixed : MixedStubs onePlatform (Fin 1) (Fin 1) where
  linked _ := ⟨bothStub, 0x400000⟩
  symbol _ := 0x410000
  user := by decide
  module_ne := by decide
  symbol_ne := by decide
  moduleId_ne := by decide
  userAddress_ne := by decide
  handles _ _ := .inl ⟨rfl, rfl⟩
  addresses := by decide
  handles_addresses := by decide
  handles_code := by decide
  addresses_code := by decide
  kernelLinked _ := ⟨bothStub, 0x400000⟩
  kernelSymbol _ := 1
  kernel := by decide
  kernelSymbol_ne := by decide
  kernelAddress_ne := by decide
  kernelAddresses := by decide
  kernel_handles := by decide
  kernel_addresses := by decide
  kernel_userCode := by decide
  kernel_code := by decide
  handles_kernelCode := by decide
  addresses_kernelCode := by decide

/-- Nothing but its code. -/
def oneWorld : World := ⟨(caller bothStub 0 0 0).mem, 0, []⟩

theorem oneWorld_fresh : oneMixed.Fresh oneWorld where
  user := ⟨fun _ => caller_installed bothStub 0 0 0, rfl, by decide +kernel, by decide +kernel⟩
  installed _ := caller_installed bothStub 0 0 0
  kernel := by decide +kernel

/-- A failed load, a failed lookup in the kernel, and then a call for which all is found. -/
def mixedCalls : List (MixedCall (Fin 1) (Fin 1)) :=
  [.user 0 0x7fff0000 loadFails,
    .kernel 0 0xffffffff80000000 { findsAll with kernelDlSym := fun _ => 0 },
    .user 0 0x7fff0000 findsAll]

/-- Two functions of the user's, and none of the kernel's. -/
def userMixed : MixedStubs onePlatform Bool Empty :=
  { twoStubs with
    kernelLinked := nofun
    kernelSymbol := id
    kernel := nofun
    kernelSymbol_ne := nofun
    kernelAddress_ne := nofun
    kernelAddresses := nofun
    kernel_handles := nofun
    kernel_addresses := nofun
    kernel_userCode := nofun
    kernel_code := nofun
    handles_kernelCode := nofun
    addresses_kernelCode := nofun }

/-- The first one is asked for in the kernel, too. -/
def strayCalls : List (MixedCall Bool Empty) :=
  [.stray (.inl false) 0xffffffff80000000 findsAll, .user false 0x7fff0000 findsAll]

/-- The user's side is as if the kernel had never asked, and where there is nothing to ask for it
is told so. -/
theorem oneMixed_apart :
    (oneMixed.kernelCell (oneMixed.run mixedCalls oneWorld) 0 = 0 ∧
      oneMixed.address (oneMixed.run mixedCalls oneWorld) 0
        = oneMixed.address (oneMixed.toUserStubs.run
          [⟨0, 0, 0x7fff0000, loadFails⟩, ⟨0, 0, 0x7fff0000, findsAll⟩] oneWorld) 0) ∧
      userMixed.address (userMixed.run strayCalls twoWorld) false
        = twoStubs.address (twoStubs.run [⟨false, 0, 0x7fff0000, findsAll⟩] twoWorld) false ∧
      (userMixed.resolve (userMixed.run strayCalls twoWorld)
        (.stray (.inl true) 0xffffffff80000000 findsAll)).1 = .ok .argumentError := by
  obtain ⟨⟨-, haddress⟩, hkernel, -⟩ := MixedStubs.sides_apart oneMixed oneWorld oneWorld_fresh
    mixedCalls fun call hcall => by
      simp only [mixedCalls, List.mem_cons, List.not_mem_nil, or_false] at hcall
      rcases hcall with rfl | rfl | rfl
      · exact ⟨rfl, loadFails_answers⟩
      · exact ⟨rfl, fun _ => .inr rfl⟩
      · exact ⟨rfl, findsAll_answers⟩
  obtain ⟨⟨-, hstray⟩, -, -, -, -, -, herror⟩ := MixedStubs.sides_apart userMixed twoWorld
    ⟨twoWorld_fresh, nofun, nofun⟩ strayCalls fun call hcall => by
      simp only [strayCalls, List.mem_cons, List.not_mem_nil, or_false] at hcall
      rcases hcall with rfl | rfl
      · exact ⟨rfl, rfl⟩
      · exact ⟨rfl, findsAll_answers⟩
  refine ⟨⟨?_, (haddress 0).2⟩, (hstray false).2, ?_⟩
  · rw [hkernel]
    rfl
  · rw [herror (.inl true) 0xffffffff80000000 findsAll ⟨rfl, rfl⟩]

end LibPS4
