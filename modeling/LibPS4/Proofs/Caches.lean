/-
What the resolver keeps between resolutions.

A resolution fills up to three cells: the static `lsm`, the handle of the module, which
all functions of a module share, and the address of the function.  Any of the calls it
makes may fail, and it returns from wherever it is then; a failed load even leaves its
error code in the shared handle.  `Sound` is what survives all of this: whatever a cell
holds that would be taken for filled is what the outside has under that name.

The statement is about runs.  One resolution from a sound world is described by
`resolve_spec`, which also says which of the calls it made decided it, and
`Sound.run` is the induction over a sequence of them.
-/
import LibPS4.Base.Cells
import LibPS4.Proofs.Cells

namespace LibPS4

open Effects X64

/-! ### The outside -/

/-- What there is to be found: modules by name, and in each of them symbols by name. -/
structure Platform where
  libkernel : U32
  sceKernelLoadStartModule : U64
  moduleId : U64 → U32
  symbolAddress : U32 → U64 → U64
  loader_ne : sceKernelLoadStartModule ≠ 0
  moduleId_pos : ∀ name, 0 < (moduleId name).toInt
  symbolAddress_ne : ∀ id name, symbolAddress id name ≠ 0

/-- What the outside may answer during one resolution.  Every call may fail. -/
structure Platform.Answers (platform : Platform) (ext : Externals) : Prop where
  /-- Syscall 594 writes a positive id only on success. -/
  libkernel : 0 < ext.libkernel.toInt → ext.libkernel = platform.libkernel
  /-- Syscall 591 returns 0 and stores the address, or something else and stores nothing. -/
  findLsm : ext.findLsm platform.libkernel = (0, some platform.sceKernelLoadStartModule) ∨
    ∃ e, e ≠ 0 ∧ ext.findLsm platform.libkernel = (e, none)
  lsm : ∀ name,
    ext.lsm platform.sceKernelLoadStartModule name = platform.moduleId name ∨
      (ext.lsm platform.sceKernelLoadStartModule name).toInt ≤ 0
  findSymbol : ∀ id name, ext.findSymbol id name = (0, some (platform.symbolAddress id name)) ∨
    ∃ e, e ≠ 0 ∧ ext.findSymbol id name = (e, none)

/-! ### The calls of a resolution -/

inductive ExternalCall
  /-- `ps4ResolveSyscall(594, "libkernel.sprx", 0, &k, 0)` -/
  | libkernel
  /-- `ps4ResolveSyscall(591, k, "sceKernelLoadStartModule", &lsm)` -/
  | findLsm (k : U32)
  /-- `lsm(module, 0, NULL, 0, 0, 0)` -/
  | lsm (loader module : U64)
  /-- `ps4ResolveSyscall(591, id, symbol, userAddress)` -/
  | findSymbol (id : U32) (symbol : U64)
  deriving DecidableEq, Repr

def ExternalCall.succeeds (ext : Externals) : ExternalCall → Bool
  | .libkernel => 0 < ext.libkernel.toInt
  | .findLsm k => (ext.findLsm k).1 = 0
  | .lsm loader module => 0 < (ext.lsm loader module).toInt
  | .findSymbol id symbol => (ext.findSymbol id symbol).1 = 0

/-- The two answers to a call are the same. -/
def ExternalCall.Same (ext ext' : Externals) : ExternalCall → Prop
  | .libkernel => ext.libkernel = ext'.libkernel
  | .findLsm k => ext.findLsm k = ext'.findLsm k
  | .lsm loader module => ext.lsm loader module = ext'.lsm loader module
  | .findSymbol id symbol => ext.findSymbol id symbol = ext'.findSymbol id symbol

section Calls

variable (ext : Externals) (arguments : ResolveArguments)

/-- From the call of the loader on. -/
def loadCalls (loader : U64) : List ExternalCall :=
  let id := ext.lsm loader arguments.module
  .lsm loader arguments.module ::
    if id.toInt ≤ 0 then [] else [.findSymbol id arguments.symbol]

/-- The calls the user branch makes in `w` when nobody handles its errors, past the check
for NULL. -/
def externalCalls (w : World) : List ExternalCall :=
  let id := le32 w.mem arguments.moduleId
  if id.toInt ≤ 0 then
    if w.lsm = 0 then
      .libkernel :: if ext.libkernel.toInt ≤ 0 then [] else
        .findLsm ext.libkernel :: if (ext.findLsm ext.libkernel).1 ≠ 0 then [] else
          -- Without an address the NULL in `lsm` is called.
          match (ext.findLsm ext.libkernel).2 with
          | some loader => loadCalls ext arguments loader
          | none => []
    else
      loadCalls ext arguments w.lsm
  else
    [.findSymbol id arguments.symbol]

end Calls

section Same

variable {ext ext' : Externals} {state : PS4ResolveState} {w : World}

theorem resolveSymbol_eq_of_same
    (h : (ExternalCall.findSymbol (le32 w.mem state.moduleId) state.symbol).Same ext ext') :
    resolveSymbol Handlers.none ext' state w = resolveSymbol Handlers.none ext state w := by
  have h' : ext.findSymbol (le32 w.mem state.moduleId) state.symbol
      = ext'.findSymbol (le32 w.mem state.moduleId) state.symbol := h
  unfold resolveSymbol
  rw [h']

theorem loadModule_eq_of_same
    (h : ∀ c ∈ loadCalls ext state.toResolveArguments w.lsm, c.Same ext ext') :
    loadModule Handlers.none ext' (resolveSymbol Handlers.none ext') state w
      = loadModule Handlers.none ext (resolveSymbol Handlers.none ext) state w := by
  have hid : ext.lsm w.lsm state.module = ext'.lsm w.lsm state.module :=
    h (.lsm w.lsm state.module) (List.mem_cons_self ..)
  have hself : ∀ v : U32, le32 (w.store state.moduleId 4 v.toNat).mem state.moduleId = v :=
    fun v => le32_replay_self w.mem v
  unfold loadModule
  dsimp only
  rw [← hid, hself]
  refine congrArg (through w.lsm state w) (congrArg (through state.moduleId state w) ?_)
  by_cases hle : (ext.lsm w.lsm state.module).toInt ≤ 0
  · rw [failIf_of_bad (by decide) (decide_eq_true hle),
      failIf_of_bad (by decide) (decide_eq_true hle)]
  · rw [failIf_of_good _ (decide_eq_false hle), failIf_of_good _ (decide_eq_false hle)]
    refine resolveSymbol_eq_of_same ?_
    rw [hself]
    refine h (.findSymbol (ext.lsm w.lsm state.module) state.symbol) ?_
    unfold loadCalls
    dsimp only
    rw [if_neg hle]
    simp

/-- **Nothing else is asked.**  The answer to any other call makes no difference. -/
theorem resolveUserSymbol_eq_of_same
    (h : ∀ c ∈ externalCalls ext state.toResolveArguments w, c.Same ext ext') :
    resolveUserSymbol Handlers.none ext' state w = resolveUserSymbol Handlers.none ext state w := by
  unfold resolveUserSymbol
  cases hbad : (state.moduleId = 0 || state.userAddress = 0 || state.module = 0 ||
      state.symbol = 0) with
  | true => rw [failIf_of_bad (by decide) rfl, failIf_of_bad (by decide) rfl]
  | false =>
      rw [failIf_of_good _ rfl, failIf_of_good _ rfl, resolveModule_eq, resolveModule_eq]
      refine congrArg (through state.moduleId state w) ?_
      unfold externalCalls at h
      dsimp only at h
      by_cases hid : (le32 w.mem state.moduleId).toInt ≤ 0
      · rw [if_pos hid] at h ⊢
        rw [if_pos hid]
        unfold resolveLsm
        by_cases hlsm : w.lsm = 0
        · rw [if_pos hlsm] at h ⊢
          rw [if_pos hlsm]
          have hkernel : ext.libkernel = ext'.libkernel := h .libkernel (List.mem_cons_self ..)
          rw [← hkernel]
          by_cases hk : ext.libkernel.toInt ≤ 0
          · rw [failIf_of_bad (by decide) (decide_eq_true hk),
              failIf_of_bad (by decide) (decide_eq_true hk)]
          · rw [if_neg hk] at h
            rw [failIf_of_good _ (decide_eq_false hk), failIf_of_good _ (decide_eq_false hk)]
            have hfind : ext.findLsm ext.libkernel = ext'.findLsm ext.libkernel :=
              h (.findLsm ext.libkernel) (by simp)
            rw [← hfind]
            by_cases he : (ext.findLsm ext.libkernel).1 = 0
            · rw [if_neg (not_not.mpr he)] at h
              cases hloader : (ext.findLsm ext.libkernel).2 with
              | none =>
                  -- The NULL that stays in `lsm` is called by both.
                  dsimp only
                  rw [failIf_of_good _ (by simpa using he), failIf_of_good _ (by simpa using he)]
                  unfold loadModule through
                  rw [if_pos hlsm, if_pos hlsm]
              | some loader =>
                  rw [hloader] at h
                  dsimp only
                  rw [failIf_of_good _ (by simpa using he), failIf_of_good _ (by simpa using he)]
                  refine loadModule_eq_of_same fun c hc => h c ?_
                  exact List.mem_cons_of_mem _ (List.mem_cons_of_mem _ hc)
            · dsimp only
              rw [failIf_of_bad (by decide) (by simpa using he),
                failIf_of_bad (by decide) (by simpa using he)]
        · rw [if_neg hlsm] at h ⊢
          rw [if_neg hlsm]
          exact loadModule_eq_of_same h
      · rw [if_neg hid] at h ⊢
        rw [if_neg hid]
        exact resolveSymbol_eq_of_same (h _ (List.mem_singleton.mpr rfl))

end Same

/-! ### Stubs -/

def Stub.isUserFunction : Stub → Bool
  | .function .. | .functionAndKernelFunction .. => true
  | _ => false

/-- A stub at its address. -/
structure LinkedStub where
  stub : Stub
  function : U64

def LinkedStub.operands (s : LinkedStub) : ResolveArguments := s.stub.operands s.function

def LinkedStub.size (s : LinkedStub) : Nat := textLength (s.stub.text s.function)

/-- Stubs of user functions linked into one program.  Every stub has a cell of its own
for its function; the handle may be shared among the functions of a module. -/
structure UserStubs (platform : Platform) (ι : Type) where
  linked : ι → LinkedStub
  symbol : StubSymbol → U64
  user : ∀ i, (linked i).stub.isUserFunction = true
  module_ne : ∀ i, (linked i).operands.module ≠ 0
  symbol_ne : ∀ i, (linked i).operands.symbol ≠ 0
  moduleId_ne : ∀ i, (linked i).operands.moduleId ≠ 0
  userAddress_ne : ∀ i, (linked i).operands.userAddress ≠ 0
  handles : ∀ i j,
    ((linked i).operands.moduleId = (linked j).operands.moduleId ∧
      platform.moduleId (linked i).operands.module
        = platform.moduleId (linked j).operands.module) ∨
    Separate (linked i).operands.moduleId 4 (linked j).operands.moduleId 4
  addresses : ∀ i j, i ≠ j →
    Separate (linked i).operands.userAddress 8 (linked j).operands.userAddress 8
  handles_addresses : ∀ i j,
    Separate (linked i).operands.moduleId 4 (linked j).operands.userAddress 8
  handles_code : ∀ i j,
    Separate (linked i).operands.moduleId 4 (linked j).function (linked j).size
  addresses_code : ∀ i j,
    Separate (linked i).operands.userAddress 8 (linked j).function (linked j).size

/-- One resolution: of which stub, what the caller has in `%r8`, the stack pointer, and
what the outside answers. -/
structure UserCall (ι : Type) where
  index : ι
  r8 : U64
  sp : U64
  ext : Externals

/-- In user mode, with answers the platform may give. -/
structure UserCall.Allowed {ι : Type} (platform : Platform) (call : UserCall ι) : Prop where
  user : ps4KernelIsInKernel call.sp = false
  answers : platform.Answers call.ext

namespace UserStubs

variable {platform : Platform} {ι : Type} (stubs : UserStubs platform ι)

def operands (i : ι) : ResolveArguments := (stubs.linked i).operands

/-- What the resolver is called with.  A plain user function passes on `%r8`. -/
def arguments (call : UserCall ι) : ResolveArguments :=
  match (stubs.linked call.index).stub with
  | .functionAndKernelFunction .. => stubs.operands call.index
  | _ => { stubs.operands call.index with kernelAddress := call.r8 }

def resolve (call : UserCall ι) (w : World) : Resolution :=
  ps4ResolveModuleAndSymbolOrKernelSymbol Handlers.none call.ext call.sp (stubs.arguments call) w

def run (calls : List (UserCall ι)) (w : World) : World :=
  calls.foldl (fun w call => (stubs.resolve call w).world) w

/-- The handle of a stub's module, and the address of its function. -/
def handle (w : World) (i : ι) : U32 := le32 w.mem (stubs.operands i).moduleId

def address (w : World) (i : ι) : U64 := le64 w.mem (stubs.operands i).userAddress

/-- What belongs into the two cells. -/
def ownModule (i : ι) : U32 := platform.moduleId (stubs.operands i).module

def ownAddress (i : ι) : U64 :=
  platform.symbolAddress (stubs.ownModule i) (stubs.operands i).symbol

/-- The stubs are in memory. -/
def Installed (w : World) : Prop :=
  ∀ i, (stubs.linked i).stub.Installed (stubs.linked i).function stubs.symbol w.mem

/-- As linked: nothing is resolved yet. -/
structure Fresh (w : World) : Prop where
  installed : stubs.Installed w
  lsm : w.lsm = 0
  handle : ∀ i, stubs.handle w i = 0
  address : ∀ i, stubs.address w i = 0

/-- No cache is poisoned. -/
structure Sound (w : World) : Prop where
  lsm : w.lsm = 0 ∨ w.lsm = platform.sceKernelLoadStartModule
  handle : ∀ i, 0 < (stubs.handle w i).toInt → stubs.handle w i = stubs.ownModule i
  address : ∀ i, stubs.address w i ≠ 0 → stubs.address w i = stubs.ownAddress i

/-- Every call a resolution makes succeeds. -/
def AllSucceed (call : UserCall ι) (w : World) : Prop :=
  ∀ c ∈ externalCalls call.ext (stubs.arguments call) w, c.succeeds call.ext = true

/-- What every step keeps: the stubs' code and the soundness of the caches. -/
structure Kept (w : World) : Prop where
  installed : stubs.Installed w
  sound : stubs.Sound w

/-! ### Stores into the cells -/

section Stores

variable {stubs} {w : World}

theorem Installed.store {a : U64} {n v : Nat} (h : stubs.Installed w)
    (hcode : ∀ j, Separate a n (stubs.linked j).function (stubs.linked j).size) :
    stubs.Installed (w.store a n v) := by
  intro i k b hb
  have hk : k < (stubs.linked i).size := by
    obtain ⟨hk, -⟩ := List.getElem?_eq_some_iff.mp hb
    rw [assembleAt, length_assemble] at hk
    exact hk
  show Prog.replay (span a n (byteOf v)) w.mem _ = b
  rw [replay_span_of_separate w.mem _ (hcode i) hk]
  exact h i k b hb

theorem handle_storeHandle (w : World) (i j : ι) (v : U32) :
    stubs.handle (w.store (stubs.operands i).moduleId 4 v.toNat) j = v ∧
        stubs.ownModule i = stubs.ownModule j ∨
      stubs.handle (w.store (stubs.operands i).moduleId 4 v.toNat) j = stubs.handle w j := by
  rcases stubs.handles i j with ⟨heq, hown⟩ | hsep
  · refine .inl ⟨?_, hown⟩
    show le32 (Prog.replay (span (stubs.linked i).operands.moduleId 4 _) w.mem)
      (stubs.linked j).operands.moduleId = v
    rw [← heq]
    exact le32_replay_self w.mem v
  · exact .inr (le32_replay_of_separate w.mem _ hsep)

theorem address_storeHandle (w : World) (i j : ι) (v : Nat) :
    stubs.address (w.store (stubs.operands i).moduleId 4 v) j = stubs.address w j :=
  le64_replay_of_separate w.mem _ (stubs.handles_addresses i j)

theorem handle_storeAddress (w : World) (i j : ι) (v : Nat) :
    stubs.handle (w.store (stubs.operands i).userAddress 8 v) j = stubs.handle w j :=
  le32_replay_of_separate w.mem _ (stubs.handles_addresses j i).symm

theorem address_storeAddress (w : World) (i : ι) (v : U64) :
    stubs.address (w.store (stubs.operands i).userAddress 8 v.toNat) i = v :=
  le64_replay_self w.mem v

theorem address_storeAddress_of_ne (w : World) {i j : ι} (h : i ≠ j) (v : Nat) :
    stubs.address (w.store (stubs.operands i).userAddress 8 v) j = stubs.address w j :=
  le64_replay_of_separate w.mem _ (stubs.addresses i j h)

theorem Kept.withLsm (h : stubs.Kept w) :
    stubs.Kept { w with lsm := platform.sceKernelLoadStartModule } :=
  ⟨h.installed, .inr rfl, h.sound.handle, h.sound.address⟩

theorem Kept.storeHandle (h : stubs.Kept w) (i : ι) {v : U32}
    (hv : v = stubs.ownModule i ∨ v.toInt ≤ 0) :
    stubs.Kept (w.store (stubs.operands i).moduleId 4 v.toNat) := by
  refine ⟨h.installed.store fun j => stubs.handles_code i j, h.sound.lsm, fun j hpos => ?_,
    fun j hne => ?_⟩
  · rcases handle_storeHandle w i j v with ⟨heq, hown⟩ | heq
    · rw [heq] at hpos ⊢
      rcases hv with hv | hv
      · rw [hv, hown]
      · omega
    · rw [heq] at hpos ⊢
      exact h.sound.handle j hpos
  · rw [address_storeHandle] at hne ⊢
    exact h.sound.address j hne

theorem Kept.storeAddress (h : stubs.Kept w) (i : ι) :
    stubs.Kept (w.store (stubs.operands i).userAddress 8 (stubs.ownAddress i).toNat) := by
  refine ⟨h.installed.store fun j => stubs.addresses_code i j, h.sound.lsm, fun j hpos => ?_,
    fun j hne => ?_⟩
  · rw [handle_storeAddress] at hpos ⊢
    exact h.sound.handle j hpos
  · by_cases hij : i = j
    · subst hij
      exact address_storeAddress w i _
    · rw [address_storeAddress_of_ne w hij] at hne ⊢
      exact h.sound.address j hne

end Stores

/-! ### One resolution -/

/-- A resolution that made these calls, from `w`. -/
structure Resolves (call : UserCall ι) (w : World) (calls : List ExternalCall)
    (r : Resolution) : Prop where
  kept : stubs.Kept r.world
  outcome :
    (r.status = .ok .success ∧ (∀ c ∈ calls, c.succeeds call.ext = true) ∧
      stubs.address r.world call.index = stubs.ownAddress call.index) ∨
    (∃ e, e ≠ .success ∧ r.status = .ok e ∧ (∃ c ∈ calls, c.succeeds call.ext = false) ∧
      ∀ j, stubs.address r.world j = stubs.address w j)

section Phases

variable {stubs} {call : UserCall ι} {w w' : World} {calls : List ExternalCall}
  {c : ExternalCall} {r : Resolution} {state : PS4ResolveState}

/-- Once a call has succeeded, the others decide. -/
theorem Resolves.cons (h : stubs.Resolves call w' calls r)
    (hsame : ∀ j, stubs.address w' j = stubs.address w j) (hc : c.succeeds call.ext = true) :
    stubs.Resolves call w (c :: calls) r := by
  refine ⟨h.kept, ?_⟩
  rcases h.outcome with ⟨hr, hcalls, haddress⟩ | ⟨e, he, hr, ⟨d, hd, hfail⟩, hkeep⟩
  · refine .inl ⟨hr, fun d hd => ?_, haddress⟩
    rcases List.mem_cons.mp hd with rfl | hd
    · exact hc
    · exact hcalls d hd
  · refine .inr ⟨e, he, hr, ⟨d, List.mem_cons_of_mem c hd, hfail⟩, fun j => ?_⟩
    rw [hkeep j, hsame j]

/-- A call that fails is the last one. -/
theorem Resolves.stop (h : stubs.Kept w') (hsame : ∀ j, stubs.address w' j = stubs.address w j)
    (hc : c.succeeds call.ext = false) {e : PS4ResolveStatus} (he : e ≠ .success) :
    stubs.Resolves call w [c] ⟨.ok e, w', state⟩ :=
  ⟨h, .inr ⟨e, he, rfl, ⟨c, List.mem_singleton.mpr rfl, hc⟩, hsame⟩⟩

/-! What is in `%r8` does not matter for a user function. -/

@[simp] theorem arguments_module (call : UserCall ι) :
    (stubs.arguments call).module = (stubs.operands call.index).module := by
  unfold arguments
  split <;> rfl

@[simp] theorem arguments_symbol (call : UserCall ι) :
    (stubs.arguments call).symbol = (stubs.operands call.index).symbol := by
  unfold arguments
  split <;> rfl

@[simp] theorem arguments_moduleId (call : UserCall ι) :
    (stubs.arguments call).moduleId = (stubs.operands call.index).moduleId := by
  unfold arguments
  split <;> rfl

@[simp] theorem arguments_userAddress (call : UserCall ι) :
    (stubs.arguments call).userAddress = (stubs.operands call.index).userAddress := by
  unfold arguments
  split <;> rfl

@[simp] theorem arguments_function (call : UserCall ι) :
    (stubs.arguments call).function = (stubs.linked call.index).function := by
  unfold arguments operands LinkedStub.operands
  split <;> cases (stubs.linked call.index).stub <;> rfl

/-- The last call. -/
theorem resolveSymbol_resolves (hext : platform.Answers call.ext)
    (hs : state.toResolveArguments = stubs.arguments call) (hw : stubs.Kept w)
    (hid : stubs.handle w call.index = stubs.ownModule call.index) :
    stubs.Resolves call w [.findSymbol (stubs.ownModule call.index) (stubs.arguments call).symbol]
      (resolveSymbol Handlers.none call.ext state w) := by
  have hne : ¬ state.moduleId = 0 := by
    rw [hs, arguments_moduleId]
    exact stubs.moduleId_ne call.index
  have hle : le32 w.mem state.moduleId = stubs.ownModule call.index := by
    rw [hs, arguments_moduleId]
    exact hid
  have haddress : ¬ (stubs.operands call.index).userAddress = 0 := stubs.userAddress_ne call.index
  unfold resolveSymbol storeAnswer through
  dsimp only
  rw [if_neg hne, hle, hs, arguments_symbol, arguments_userAddress]
  rcases hext.findSymbol (stubs.ownModule call.index) (stubs.operands call.index).symbol with
    hfound | ⟨e, he, hfound⟩
  · rw [hfound]
    dsimp only
    rw [if_neg haddress]
    refine ⟨hw.storeAddress call.index, .inl ⟨rfl, fun d hd => ?_, address_storeAddress w _ _⟩⟩
    rw [List.mem_singleton.mp hd]
    simp [ExternalCall.succeeds, hfound]
  · rw [hfound, failIf_of_bad (by decide) (decide_eq_true he)]
    exact .stop hw (fun _ => rfl) (by simpa [ExternalCall.succeeds, hfound] using he) (by decide)

/-- From the call of the loader on. -/
theorem loadModule_resolves (hext : platform.Answers call.ext)
    (hs : state.toResolveArguments = stubs.arguments call) (hw : stubs.Kept w)
    (hlsm : w.lsm = platform.sceKernelLoadStartModule) :
    stubs.Resolves call w (loadCalls call.ext (stubs.arguments call) w.lsm)
      (loadModule Handlers.none call.ext (resolveSymbol Handlers.none call.ext) state w) := by
  have hid : state.moduleId = (stubs.operands call.index).moduleId := by
    rw [hs, arguments_moduleId]
  have hne : ¬ state.moduleId = 0 := hid ▸ stubs.moduleId_ne call.index
  have hloader : ¬ platform.sceKernelLoadStartModule = 0 := platform.loader_ne
  unfold loadModule loadCalls through
  dsimp only
  rw [hlsm, if_neg hloader, if_neg hne, hs, arguments_module, arguments_symbol]
  generalize hv : call.ext.lsm platform.sceKernelLoadStartModule
    (stubs.operands call.index).module = v
  have hself : le32 (w.store (stubs.operands call.index).moduleId 4 v.toNat).mem
      (stubs.operands call.index).moduleId = v := le32_replay_self w.mem v
  have hcall : (ExternalCall.lsm platform.sceKernelLoadStartModule
      (stubs.operands call.index).module).succeeds call.ext = decide (0 < v.toInt) := by
    rw [ExternalCall.succeeds, hv]
  rw [arguments_moduleId, hself]
  have hsame : ∀ j, stubs.address (w.store (stubs.operands call.index).moduleId 4 v.toNat) j
      = stubs.address w j := fun j => address_storeHandle w call.index j v.toNat
  by_cases hle : v.toInt ≤ 0
  · -- The error code stays in the handle, where it counts as not loaded.
    rw [if_pos hle, failIf_of_bad (by decide) (decide_eq_true hle)]
    exact .stop (hw.storeHandle call.index (.inr hle)) hsame
      (hcall.trans (decide_eq_false (by omega))) (by decide)
  · have hown : v = stubs.ownModule call.index := by
      rw [← hv] at hle ⊢
      exact (hext.lsm _).resolve_right hle
    rw [if_neg hle, failIf_of_good _ (decide_eq_false hle)]
    refine Resolves.cons ?_ hsame (hcall.trans (decide_eq_true (by omega)))
    rw [hown, ← arguments_symbol]
    exact resolveSymbol_resolves hext hs (hw.storeHandle call.index (.inl rfl))
      (le32_replay_self w.mem _)

/-- With an empty `lsm`, the loader is looked up first. -/
theorem resolveLsm_resolves (hext : platform.Answers call.ext)
    (hs : state.toResolveArguments = stubs.arguments call) (hw : stubs.Kept w)
    (hid : (le32 w.mem (stubs.arguments call).moduleId).toInt ≤ 0) :
    stubs.Resolves call w (externalCalls call.ext (stubs.arguments call) w)
      (resolveLsm Handlers.none call.ext state w
        (loadModule Handlers.none call.ext (resolveSymbol Handlers.none call.ext))) := by
  unfold resolveLsm externalCalls
  dsimp only
  rw [if_pos hid]
  by_cases hlsm : w.lsm = 0
  · rw [if_pos hlsm, if_pos hlsm]
    by_cases hk : call.ext.libkernel.toInt ≤ 0
    · rw [if_pos hk, failIf_of_bad (by decide) (decide_eq_true hk)]
      have hfail : ExternalCall.libkernel.succeeds call.ext = false := decide_eq_false (by omega)
      exact .stop hw (fun _ => rfl) hfail (by decide)
    · rw [if_neg hk, failIf_of_good _ (decide_eq_false hk), hext.libkernel (by omega)]
      have hload : ExternalCall.libkernel.succeeds call.ext = true := decide_eq_true (by omega)
      refine Resolves.cons ?_ (fun j => Eq.refl (stubs.address w j)) hload
      rcases hext.findLsm with hfound | ⟨e, he, hfound⟩
      · rw [hfound]
        have hfind : (ExternalCall.findLsm platform.libkernel).succeeds call.ext = true := by
          simp [ExternalCall.succeeds, hfound]
        have hnext := loadModule_resolves (w := { w with lsm := platform.sceKernelLoadStartModule })
          hext hs hw.withLsm rfl
        exact hnext.cons (fun _ => rfl) hfind
      · rw [hfound, failIf_of_bad (by decide) (decide_eq_true he), if_pos he]
        have hfail : (ExternalCall.findLsm platform.libkernel).succeeds call.ext = false := by
          simpa [ExternalCall.succeeds, hfound] using he
        exact .stop hw (fun _ => rfl) hfail (by decide)
  · rw [if_neg hlsm, if_neg hlsm]
    exact loadModule_resolves hext hs hw (hw.sound.lsm.resolve_left hlsm)

theorem resolveUserSymbol_resolves (hext : platform.Answers call.ext)
    (hs : state.toResolveArguments = stubs.arguments call) (hw : stubs.Kept w) :
    stubs.Resolves call w (externalCalls call.ext (stubs.arguments call) w)
      (resolveUserSymbol Handlers.none call.ext state w) := by
  have hne : ¬ (stubs.operands call.index).moduleId = 0 := stubs.moduleId_ne call.index
  have hgood : (state.moduleId = 0 || state.userAddress = 0 || state.module = 0 ||
      state.symbol = 0) = false := by
    have haddress : ¬ (stubs.operands call.index).userAddress = 0 :=
      stubs.userAddress_ne call.index
    have hmodule : ¬ (stubs.operands call.index).module = 0 := stubs.module_ne call.index
    have hsymbol : ¬ (stubs.operands call.index).symbol = 0 := stubs.symbol_ne call.index
    rw [hs, arguments_moduleId, arguments_userAddress, arguments_module, arguments_symbol,
      decide_eq_false hne, decide_eq_false haddress, decide_eq_false hmodule,
      decide_eq_false hsymbol]
    rfl
  unfold resolveUserSymbol
  rw [failIf_of_good _ hgood, resolveModule_eq, through, hs, arguments_moduleId, if_neg hne]
  by_cases hid : (stubs.handle w call.index).toInt ≤ 0
  · rw [if_pos (by exact hid)]
    refine resolveLsm_resolves hext hs hw ?_
    rw [arguments_moduleId]
    exact hid
  · -- A positive handle is taken for the module's.
    have hown := hw.sound.handle call.index (by omega)
    have hcalls : externalCalls call.ext (stubs.arguments call) w
        = [.findSymbol (stubs.ownModule call.index) (stubs.arguments call).symbol] := by
      unfold externalCalls
      dsimp only
      rw [arguments_moduleId, if_neg (by exact hid)]
      exact congrArg (fun id => [ExternalCall.findSymbol id _]) hown
    rw [if_neg (by exact hid), hcalls]
    exact resolveSymbol_resolves hext hs hw hown

/-- **One resolution.**  In user mode the byte that should hold a stub's kind never sends
a user function to the kernel branch. -/
theorem resolve_spec (hcall : call.Allowed platform) (hw : stubs.Kept w) :
    stubs.Resolves call w (externalCalls call.ext (stubs.arguments call) w)
      (stubs.resolve call w) := by
  have htype : ps4StubType w.mem (stubs.arguments call).function = 0x49 := by
    have hinst := hw.installed call.index
    have huser := stubs.user call.index
    rw [arguments_function]
    cases hstub : (stubs.linked call.index).stub with
    | function moduleName functionName moduleHandle functionAddress =>
        rw [hstub] at hinst
        have hcell : (Stub.function moduleName functionName moduleHandle functionAddress).cell false
            = some functionAddress := rfl
        exact ps4StubType_installed hcell hinst
    | functionAndKernelFunction moduleName functionName moduleHandle user kernel =>
        rw [hstub] at hinst
        have hcell : (Stub.functionAndKernelFunction moduleName functionName moduleHandle user
            kernel).cell false = some user := rfl
        exact ps4StubType_installed hcell hinst
    | _ =>
        rw [hstub] at huser
        cases huser
  have hbranch : (ps4KernelIsInKernel call.sp ||
      decide (ps4StubType w.mem (stubs.arguments call).function = ps4StubTypeKernelFunction))
      = false := by
    rw [hcall.user, htype]
    rfl
  unfold resolve
  rw [resolver_none]
  dsimp only
  rw [if_neg (by rw [hbranch]; exact Bool.false_ne_true)]
  exact resolveUserSymbol_resolves hcall.answers rfl hw

end Phases

/-! ### Runs -/

section Runs

variable {stubs} {w : World} {call : UserCall ι}

theorem Fresh.kept (h : stubs.Fresh w) : stubs.Kept w := by
  refine ⟨h.installed, .inl h.lsm, fun i hpos => ?_, fun i hne => ?_⟩
  · rw [h.handle i] at hpos
    exact absurd hpos (by decide)
  · exact absurd (h.address i) hne

theorem Kept.run : ∀ (calls : List (UserCall ι)) (w : World), stubs.Kept w →
    (∀ call ∈ calls, call.Allowed platform) → stubs.Kept (stubs.run calls w) := by
  intro calls
  induction calls with
  | nil => intro w hw _; exact hw
  | cons call calls ih =>
      intro w hw hcalls
      refine ih _ ?_ fun c hc => hcalls c (List.mem_cons_of_mem call hc)
      exact (resolve_spec (hcalls call (List.mem_cons_self ..)) hw).kept

theorem resolve_success_iff (hcall : call.Allowed platform) (hw : stubs.Kept w) :
    (stubs.resolve call w).status = .ok .success ↔ stubs.AllSucceed call w := by
  rcases (resolve_spec hcall hw).outcome with ⟨hr, hall, -⟩ | ⟨e, he, hr, ⟨c, hc, hfail⟩, -⟩
  · exact iff_of_true hr hall
  · refine iff_of_false (fun h => ?_) fun h => ?_
    · rw [hr] at h
      exact he (Except.ok.inj h)
    · rw [h c hc] at hfail
      cases hfail

theorem resolve_address (hcall : call.Allowed platform) (hw : stubs.Kept w)
    (h : (stubs.resolve call w).status = .ok .success) :
    stubs.address (stubs.resolve call w).world call.index = stubs.ownAddress call.index := by
  rcases (resolve_spec hcall hw).outcome with ⟨-, -, haddress⟩ | ⟨e, he, hr, -, -⟩
  · exact haddress
  · rw [hr] at h
    exact absurd (Except.ok.inj h) he

theorem resolve_failed (hcall : call.Allowed platform) (hw : stubs.Kept w)
    (h : (stubs.resolve call w).status ≠ .ok .success) (j : ι) :
    stubs.address (stubs.resolve call w).world j = stubs.address w j := by
  rcases (resolve_spec hcall hw).outcome with ⟨hr, -, -⟩ | ⟨e, -, -, -, hkeep⟩
  · exact absurd hr h
  · exact hkeep j

end Runs

/--
**The caches are never poisoned.**

After any sequence of resolutions, whatever failed on the way: the caches are sound, the
next resolution succeeds exactly when the calls it makes do, a success has filled the
function's cell and a failure no cell of any function, and a resolution after a failure is
as good as any other.
-/
theorem caches_sound {platform : Platform} {ι : Type} (stubs : UserStubs platform ι) (w₀ : World)
    (hfresh : stubs.Fresh w₀) (calls : List (UserCall ι))
    (hcalls : ∀ call ∈ calls, call.Allowed platform) :
    let w := stubs.run calls w₀
    stubs.Sound w ∧
    ∀ call : UserCall ι, call.Allowed platform →
      ((stubs.resolve call w).status = .ok .success ↔ stubs.AllSucceed call w) ∧
      ((stubs.resolve call w).status = .ok .success →
        stubs.address (stubs.resolve call w).world call.index = stubs.ownAddress call.index ∧
        stubs.address (stubs.resolve call w).world call.index ≠ 0) ∧
      ((stubs.resolve call w).status ≠ .ok .success →
        (∀ j, stubs.address (stubs.resolve call w).world j = stubs.address w j) ∧
        ∀ (between : List (UserCall ι)) (later : UserCall ι),
          (∀ c ∈ between, c.Allowed platform) → later.Allowed platform →
          let w' := stubs.run between (stubs.resolve call w).world
          stubs.AllSucceed later w' → (stubs.resolve later w').status = .ok .success) := by
  intro w
  have hw : stubs.Kept w := Kept.run calls w₀ hfresh.kept hcalls
  refine ⟨hw.sound, fun call hcall => ⟨resolve_success_iff hcall hw, fun h => ?_, fun h => ?_⟩⟩
  · have haddress := resolve_address hcall hw h
    refine ⟨haddress, ?_⟩
    rw [haddress]
    exact platform.symbolAddress_ne _ _
  · refine ⟨resolve_failed hcall hw h, fun between later hbetween hlater => ?_⟩
    intro w' hall
    have hw' : stubs.Kept w' := Kept.run between _ (resolve_spec hcall hw).kept hbetween
    exact (resolve_success_iff hlater hw').mpr hall

end UserStubs

/-- An outside with one module of one symbol, as `findsAll` finds it. -/
def onePlatform : Platform where
  libkernel := 1
  sceKernelLoadStartModule := 1
  moduleId _ := 1
  symbolAddress _ _ := 1
  loader_ne := by decide
  moduleId_pos _ := by decide
  symbolAddress_ne _ _ := by decide

/-- Two functions of one module. -/
def twoStubs : UserStubs onePlatform Bool where
  linked
    | false => ⟨userStub, 0x400000⟩
    | true => ⟨.function 0x500000 0x500020 0x600010 0x600020, 0x401000⟩
  symbol _ := 0x410000
  user := by decide
  module_ne := by decide
  symbol_ne := by decide
  moduleId_ne := by decide
  userAddress_ne := by decide
  handles _ _ := .inl (by decide +revert)
  addresses := by decide
  handles_addresses := by decide
  handles_code := by decide
  addresses_code := by decide

/-- Nothing but their code. -/
def twoWorld : World where
  mem x :=
    if (x - 0x401000).toNat < 0x1000 then
      image (assembleAt twoStubs.symbol 0x401000 ((twoStubs.linked true).stub.text 0x401000))
        0x401000 x
    else
      image (assembleAt twoStubs.symbol 0x400000 (userStub.text 0x400000)) 0x400000 x
  lsm := 0
  written := []

theorem twoWorld_installed : twoStubs.Installed twoWorld := by
  have hsize : ∀ i, (twoStubs.linked i).size < 0x1000 := by decide
  intro i k b hb
  have hk : k < 0x1000 := by
    obtain ⟨hk, -⟩ := List.getElem?_eq_some_iff.mp hb
    rw [assembleAt, length_assemble] at hk
    exact Nat.lt_trans hk (hsize i)
  cases i with
  | false =>
      have hout : ¬ ((0x400000 : U64) + BitVec.ofNat 64 k - 0x401000).toNat < 0x1000 := by
        have hk' : (BitVec.ofNat 64 k).toNat = k := by
          rw [BitVec.toNat_ofNat, Nat.mod_eq_of_lt (by omega)]
        bv_omega
      show (if _ then _ else _) = b
      rw [if_neg (by exact hout)]
      exact caller_installed userStub 0 0 0 k b hb
  | true =>
      have hin : ((0x401000 : U64) + BitVec.ofNat 64 k - 0x401000).toNat < 0x1000 := by
        rw [toNat_add_ofNat_sub _ (by omega)]
        exact hk
      show (if _ then _ else _) = b
      rw [if_pos (by exact hin)]
      refine holdsBytes_image ?_ _ k b hb
      have hlen := textLength_text_lt (twoStubs.linked true).stub 0x401000
      rw [assembleAt, length_assemble]
      omega

theorem twoWorld_fresh : twoStubs.Fresh twoWorld :=
  ⟨twoWorld_installed, rfl, by decide +kernel, by decide +kernel⟩

/-- Everything is found except the module, for which the loader has an error code. -/
def loadFails : Externals := { findsAll with lsm := fun _ _ => 0x80020002 }

theorem findsAll_answers : onePlatform.Answers findsAll :=
  ⟨fun _ => rfl, .inl rfl, fun _ => .inl rfl, fun _ _ => .inl rfl⟩

theorem loadFails_answers : onePlatform.Answers loadFails :=
  have herror : (0x80020002 : U32).toInt ≤ 0 := by decide
  ⟨fun _ => rfl, .inl rfl, fun _ => .inr herror, fun _ _ => .inl rfl⟩

/-- After a failed load for one function, the other function of the module resolves. -/
theorem twoStubs_recover :
    twoStubs.Sound (twoStubs.run [⟨false, 0, 0x7fff0000, loadFails⟩] twoWorld) ∧
    (twoStubs.resolve ⟨true, 0, 0x7fff0000, findsAll⟩
      (twoStubs.run [⟨false, 0, 0x7fff0000, loadFails⟩] twoWorld)).status = .ok .success := by
  obtain ⟨hsound, hnext⟩ := UserStubs.caches_sound twoStubs twoWorld twoWorld_fresh
    [⟨false, 0, 0x7fff0000, loadFails⟩] fun call hcall => by
      rw [List.mem_singleton.mp hcall]
      exact ⟨rfl, loadFails_answers⟩
  refine ⟨hsound, (hnext ⟨true, 0, 0x7fff0000, findsAll⟩ ⟨rfl, findsAll_answers⟩).1.mpr ?_⟩
  intro c _
  cases c <;> rfl

end LibPS4
