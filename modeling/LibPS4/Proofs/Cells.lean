/-
Which cells a resolution writes.

Without handlers the resolver stores through `kernelAddress` in its kernel branch and
through `moduleId` and `userAddress` in the other.  Whether these are the stub's own cells
depends on which branch it takes, and for which arguments the template has loaded a
register.  The guard that should send a stub away in a mode it does not support compares
the wrong byte of the stub's code, so what is left in its place is the check for NULL:
the resolution of a stub in the wrong mode stays harmless exactly as long as the caller
has zero in one of the registers the stub does not load.
-/
import LibPS4.Proofs.Arguments

namespace LibPS4

open Effects X64

/-- The part of `resolveModule` that calls the loader. -/
def loadModule (handlers : Handlers) (ext : Externals) (go : Continuation) : Continuation :=
  fun state w =>
    through w.lsm state w <|
    through state.moduleId state w <|
    let w := w.store state.moduleId 4 (ext.lsm w.lsm state.module).toNat
    failIf ((le32 w.mem state.moduleId).toInt ≤ 0) handlers.error .moduleLoadError state w go

theorem resolveModule_eq (handlers : Handlers) (ext : Externals) (state : PS4ResolveState)
    (w : World) (go : Continuation) :
    resolveModule handlers ext state w go =
      through state.moduleId state w
        (if (le32 w.mem state.moduleId).toInt ≤ 0 then
          resolveLsm handlers ext state w (loadModule handlers ext go)
        else go state w) := rfl

/-! ### Without handlers -/

/-- From `w` on, a resolution stores through these cells only. -/
def StoresThrough (cells : List (U64 × Nat)) (w : World) (r : Resolution) : Prop :=
  ∃ l, r.world.written = w.written ++ l ∧ ∀ c ∈ l, c ∈ cells

section Stores

variable {cells : List (U64 × Nat)} {w : World} {state : PS4ResolveState} {go : Continuation}
  {status : PS4ResolveStatus} {r : Resolution}

theorem storesThrough_stop (x : Except NullUse PS4ResolveStatus) :
    StoresThrough cells w ⟨x, w, state⟩ :=
  ⟨[], (List.append_nil _).symm, fun _ h => (nomatch h)⟩

theorem storesThrough_store {a : U64} {n : Nat} (v : Nat) (hc : (a, n) ∈ cells)
    (h : StoresThrough cells (w.store a n v) r) : StoresThrough cells w r := by
  obtain ⟨l, hl, hcells⟩ := h
  refine ⟨(a, n) :: l, ?_, fun c hcl => ?_⟩
  · rw [hl, World.store, List.append_assoc]
    rfl
  · rcases List.mem_cons.mp hcl with rfl | hcl
    · exact hc
    · exact hcells c hcl

theorem failIf_of_bad {bad : Bool} (h : status ≠ .interceptContinue) (hbad : bad = true) :
    failIf bad Handlers.none.error status state w go = ⟨.ok status, w, { state with status }⟩ := by
  subst hbad
  show (if status ≠ .interceptContinue then (⟨.ok status, w, { state with status }⟩ : Resolution)
    else go { state with status } w) = _
  rw [if_pos h]

theorem failIf_of_good {bad : Bool} (handler : Option PS4ResolveHandler) (hbad : bad = false) :
    failIf bad handler status state w go = go state w := by
  subst hbad
  rfl

theorem storesThrough_failIf (bad : Bool) (h : status ≠ .interceptContinue)
    (hgo : StoresThrough cells w (go state w)) :
    StoresThrough cells w (failIf bad Handlers.none.error status state w go) := by
  cases bad with
  | false => exact hgo
  | true =>
      rw [failIf_of_bad h rfl]
      exact storesThrough_stop _

theorem storesThrough_through {pointer : U64} (h : StoresThrough cells w r) :
    StoresThrough cells w (through pointer state w r) := by
  unfold through
  split
  · exact storesThrough_stop _
  · exact h

theorem storesThrough_answer {answer : Option U64} {go : World → Resolution}
    (hc : (state.userAddress, 8) ∈ cells) (hgo : ∀ w', StoresThrough cells w' (go w')) :
    StoresThrough cells w (storeAnswer answer state w go) := by
  cases answer with
  | none => exact hgo w
  | some address =>
      exact storesThrough_through (storesThrough_store address.toNat hc (hgo _))

/-- What has been stored through stays on record. -/
theorem mem_written_of_store (cells : List (U64 × Nat)) {a : U64} {n v : Nat}
    (h : StoresThrough cells (w.store a n v) r) :
    (a, n) ∈ r.world.written := by
  obtain ⟨l, hl, -⟩ := h
  rw [hl, World.store]
  simp

theorem storesThrough_finish : StoresThrough cells w (finish Handlers.none state w) :=
  storesThrough_stop _

end Stores

section Branches

variable (ext : Externals) (state : PS4ResolveState) (w : World)

theorem storesThrough_kernel (function : U64) :
    StoresThrough [(state.kernelAddress, 8)] w
      (resolveKernelSymbol Handlers.none ext function state w) := by
  refine storesThrough_failIf _ (by decide) ?_
  refine storesThrough_failIf _ (by decide) ?_
  refine storesThrough_through (storesThrough_through ?_)
  refine storesThrough_store (ext.kernelDlSym state.symbol).toNat (List.mem_singleton.mpr rfl) ?_
  exact storesThrough_failIf _ (by decide) storesThrough_finish

theorem storesThrough_symbol {cells : List (U64 × Nat)} (hc : (state.userAddress, 8) ∈ cells) :
    StoresThrough cells w (resolveSymbol Handlers.none ext state w) := by
  refine storesThrough_through ?_
  refine storesThrough_answer hc fun w' => ?_
  exact storesThrough_failIf _ (by decide) storesThrough_finish

theorem storesThrough_lsm {cells : List (U64 × Nat)} {go : Continuation}
    (hgo : ∀ lsm, StoresThrough cells { w with lsm } (go state { w with lsm })) :
    StoresThrough cells w (resolveLsm Handlers.none ext state w go) := by
  unfold resolveLsm
  split
  · refine storesThrough_failIf _ (by decide) ?_
    cases (ext.findLsm ext.libkernel).2 with
    | none => exact storesThrough_failIf _ (by decide) (hgo w.lsm)
    | some address =>
        -- The static is not one of the program's cells.
        exact storesThrough_failIf (w := { w with lsm := address }) _ (by decide) (hgo address)
  · exact hgo w.lsm

theorem storesThrough_module {cells : List (U64 × Nat)} {go : Continuation}
    (hc : (state.moduleId, 4) ∈ cells) (hgo : ∀ w', StoresThrough cells w' (go state w')) :
    StoresThrough cells w (resolveModule Handlers.none ext state w go) := by
  refine storesThrough_through ?_
  split
  · refine storesThrough_lsm ext state w fun lsm => ?_
    refine storesThrough_through (storesThrough_through ?_)
    refine storesThrough_store (ext.lsm lsm state.module).toNat hc ?_
    exact storesThrough_failIf _ (by decide) (hgo _)
  · exact hgo w

theorem storesThrough_user :
    StoresThrough [(state.moduleId, 4), (state.userAddress, 8)] w
      (resolveUserSymbol Handlers.none ext state w) := by
  refine storesThrough_failIf _ (by decide) ?_
  refine storesThrough_module ext state w (by simp) fun w' => ?_
  exact storesThrough_symbol ext state w' (by simp)

/-- The check for NULL in the kernel branch. -/
theorem kernel_guarded (function : U64) (h : state.symbol = 0 ∨ state.kernelAddress = 0) :
    resolveKernelSymbol Handlers.none ext function state w
      = ⟨.ok .argumentError, w, { state with status := .argumentError }⟩ := by
  have hbad : (state.symbol = 0 || state.kernelAddress = 0) = true := by
    simpa using h
  unfold resolveKernelSymbol
  cases htype : decide (ps4StubType w.mem function = ps4StubTypeFunction) with
  | true => exact failIf_of_bad (by decide) rfl
  | false => rw [failIf_of_good _ rfl, failIf_of_bad (by decide) hbad]

/-- The one of the other branch. -/
theorem user_guarded (h : state.moduleId = 0 ∨ state.userAddress = 0 ∨ state.module = 0 ∨
    state.symbol = 0) :
    resolveUserSymbol Handlers.none ext state w
      = ⟨.ok .argumentError, w, { state with status := .argumentError }⟩ := by
  have hbad : (state.moduleId = 0 || state.userAddress = 0 || state.module = 0 ||
      state.symbol = 0) = true := by
    simpa [or_assoc] using h
  exact failIf_of_bad (by decide) hbad

/-- Past the checks the kernel branch stores. -/
theorem kernel_stores (function : U64) (htype : ps4StubType w.mem function ≠ ps4StubTypeFunction)
    (h : ¬ (state.symbol = 0 ∨ state.kernelAddress = 0)) :
    (state.kernelAddress, 8) ∈
      (resolveKernelSymbol Handlers.none ext function state w).world.written := by
  have hgood : (state.symbol = 0 || state.kernelAddress = 0) = false := by
    simpa using h
  unfold resolveKernelSymbol through
  rw [failIf_of_good _ (decide_eq_false htype), failIf_of_good _ hgood,
    if_neg fun hc => h (.inl hc), if_neg fun hc => h (.inr hc)]
  exact mem_written_of_store [] (storesThrough_failIf _ (by decide) storesThrough_finish)

/-- Past the checks the other branch stores, where the loader is known and finds
whatever it is asked for. -/
theorem user_stores (hlsm : w.lsm ≠ 0) (hfind : ∀ id name, ∃ v, (ext.findSymbol id name).2 = some v)
    (h : ¬ (state.moduleId = 0 ∨ state.userAddress = 0 ∨ state.module = 0 ∨ state.symbol = 0)) :
    (resolveUserSymbol Handlers.none ext state w).world.written ≠ [] := by
  have hgood : (state.moduleId = 0 || state.userAddress = 0 || state.module = 0 ||
      state.symbol = 0) = false := by
    simpa [and_assoc] using h
  have hid : state.moduleId ≠ 0 := fun hc => h (.inl hc)
  unfold resolveUserSymbol resolveModule through
  rw [failIf_of_good _ hgood, if_neg hid]
  split
  · -- The handle is filled first.
    unfold resolveLsm
    rw [if_neg hlsm]
    dsimp only
    rw [if_neg hlsm, if_neg hid]
    refine List.ne_nil_of_mem (mem_written_of_store [(state.userAddress, 8)]
      (storesThrough_failIf _ (by decide) ?_))
    exact storesThrough_symbol ext state _ (List.mem_singleton.mpr rfl)
  · obtain ⟨v, hv⟩ := hfind (le32 w.mem state.moduleId) state.symbol
    have haddress : state.userAddress ≠ 0 := fun hc => h (.inr (.inl hc))
    unfold resolveSymbol storeAnswer through
    dsimp only
    rw [if_neg hid, hv]
    dsimp only
    rw [if_neg haddress]
    exact List.ne_nil_of_mem (mem_written_of_store []
      (storesThrough_failIf _ (by decide) storesThrough_finish))

end Branches

/-- Which branch the resolver takes. -/
theorem resolver_none (ext : Externals) (sp : U64) (arguments : ResolveArguments) (w : World) :
    ps4ResolveModuleAndSymbolOrKernelSymbol Handlers.none ext sp arguments w =
      let state : PS4ResolveState :=
        { arguments with isKernel := ps4KernelIsInKernel sp, status := .interceptContinue }
      if ps4KernelIsInKernel sp ||
          ps4StubType w.mem arguments.function = ps4StubTypeKernelFunction then
        resolveKernelSymbol Handlers.none ext arguments.function state w
      else
        resolveUserSymbol Handlers.none ext state w := rfl

/-! ### A stub resolving itself -/

def PS4ResolveStatus.isError : PS4ResolveStatus → Bool
  | .success | .interceptContinue => false
  | _ => true

/-- The cells a stub has the addresses of, with their widths. -/
def Stub.cells : Stub → List (U64 × Nat)
  | .function _ _ moduleHandle functionAddress => [(moduleHandle, 4), (functionAddress, 8)]
  | .kernelFunction _ functionAddress => [(functionAddress, 8)]
  | .functionAndKernelFunction _ _ moduleHandle userFunctionAddress kernelFunctionAddress =>
      [(moduleHandle, 4), (userFunctionAddress, 8), (kernelFunctionAddress, 8)]
  | .syscallAndKernelFunction _ functionAddress _ => [(functionAddress, 8)]
  | .syscall _ => []

/-- The modes a stub may be called in: user functions on a user stack and kernel
functions on a kernel stack, as the comments on the templates say. -/
def Stub.supports (kernel : Bool) : Stub → Bool
  | .function .. => !kernel
  | .kernelFunction .. => kernel
  | _ => true

/-- A resolution that keeps to the stub's cells, and fails without storing anything in a
mode the stub does not support. -/
structure ResolutionConfined (stub : Stub) (kernel : Bool) (r : Resolution) : Prop where
  cells : ∀ c ∈ r.world.written, c ∈ stub.cells
  unsupported : stub.supports kernel = false →
    (∃ status, r.status = .ok status ∧ status.isError = true) ∧ r.world.written = []

/-- What a stub may do to memory while it resolves itself: on the way to the resolver and
back it changes the 248 bytes below the caller's stack pointer, and in between the
resolver is confined, whatever the outside answers. -/
structure SelfConfined (stub : Stub) (function : U64) (s : State) : Prop where
  there : ∀ t, Leaves (stub.placed function none) s
      (.called .ps4ResolveModuleAndSymbolOrKernelSymbol) t →
    ∀ a, 248 ≤ (a - (s.reg .rsp - 248)).toNat → t.mem a = s.mem a
  resolution : ∀ t, Leaves (stub.placed function none) s
      (.called .ps4ResolveModuleAndSymbolOrKernelSymbol) t →
    ∀ ext lsm sp, ps4KernelIsInKernel sp = onKernelStack s →
      ResolutionConfined stub (onKernelStack s)
        (ps4ResolveModuleAndSymbolOrKernelSymbol Handlers.none ext sp (passed t) ⟨t.mem, lsm, []⟩)
  back : ∀ t u, Leaves (stub.placed function none) s
      (.called .ps4ResolveModuleAndSymbolOrKernelSymbol) t →
    u.rip = loadWord t.mem (t.reg .rsp) → u.reg .rsp = t.reg .rsp + 8 →
    ∃ v, Reaches (stub.placed function none) u v ∧
      v.rip = (stub.placed function none).after
        (upToExit stub.head (stub.arguments function)) ∧
      ∀ a, 248 ≤ (a - (s.reg .rsp - 248)).toNat → v.mem a = u.mem a

/-- The check for NULL stops the resolution, thanks to an argument the stub does not
load or a name it does not have. -/
def Stub.Guarded (s : State) : Stub → Prop
  | .function _ functionName _ _ => functionName = 0 ∨ s.reg .r8 = 0
  | .kernelFunction functionName _ =>
      s.reg .rdx = 0 ∨ s.reg .rcx = 0 ∨ s.reg .rdi = 0 ∨ functionName = 0
  | _ => True

section Resolving

variable {stub : Stub} {function cell : U64} {symbol : StubSymbol → U64} {s t : State}

/-- Only a stub with an empty cell calls the resolver. -/
theorem calls_cases (hrip : s.rip = function)
    (ht : Leaves (stub.placed function none) s
      (.called .ps4ResolveModuleAndSymbolOrKernelSymbol) t) :
    ∃ cell, stub.cell (onKernelStack s) = some cell ∧ loadWord s.mem cell = 0 ∧
      ResolverCall (stub.arguments function) (stub.resolverReturn function) s t := by
  cases hcell : stub.cell (onKernelStack s) with
  | none =>
      obtain ⟨t', ht'⟩ := stub_tails hcell hrip
      exact nomatch (ht.unique ht').1
  | some cell =>
      refine ⟨cell, rfl, ?_⟩
      by_cases hempty : loadWord s.mem cell = 0
      · obtain ⟨t', ht', hcall⟩ := stub_calls hcell hrip hempty
        obtain ⟨-, rfl⟩ := ht.unique ht'
        exact ⟨hempty, hcall⟩
      · obtain ⟨t', ht', -⟩ := stub_jumps none hcell hrip hempty
        exact nomatch (ht.unique ht').1

/-- The byte the resolver takes for the kind of a stub is the start of its second
instruction. -/
theorem ps4StubType_installed {kernel : Bool} {mem : U64 → Byte}
    (hcell : stub.cell kernel = some cell) (hinst : stub.Installed function symbol mem) :
    ps4StubType mem function = 0x49 := by
  have ho : opAt (stub.text function) 2 = some (.plain (.mov .rax .r11)) := by
    cases stub with
    | syscall number => cases hcell
    | _ => rfl
  have hbyte : mem (function + 2) = 0x49 := byte_of_plain hinst ho (j := 0) rfl
  rw [ps4StubType, hbyte]
  rfl

theorem ps4StubType_called {kernel : Bool} {ret : U64} (hcell : stub.cell kernel = some cell)
    (hinst : stub.Installed function symbol s.mem)
    (hcode : 248 ≤ (function + 2 - (s.reg .rsp - 248)).toNat)
    (hcall : ResolverCall (stub.arguments function) ret s t) :
    ps4StubType t.mem function = 0x49 := by
  rw [ps4StubType, hcall.outside _ hcode, ← ps4StubType, ps4StubType_installed hcell hinst]

/-- The resolution a stub starts. -/
def selfResolution (stub : Stub) (function : U64) (s : State) (ext : Externals) (w : World) :
    Resolution :=
  let state : PS4ResolveState :=
    { stub.passes function s with
      isKernel := onKernelStack s
      status := .interceptContinue }
  if onKernelStack s then resolveKernelSymbol Handlers.none ext function state w
  else resolveUserSymbol Handlers.none ext state w

theorem selfResolution_eq (hcell : stub.cell (onKernelStack s) = some cell)
    (hinst : stub.Installed function symbol s.mem)
    (hcode : 248 ≤ (function + 2 - (s.reg .rsp - 248)).toNat)
    (hcall : ResolverCall (stub.arguments function) (stub.resolverReturn function) s t)
    (ext : Externals) (lsm : U64) {sp : U64} (hsp : ps4KernelIsInKernel sp = onKernelStack s) :
    ps4ResolveModuleAndSymbolOrKernelSymbol Handlers.none ext sp (passed t) ⟨t.mem, lsm, []⟩
      = selfResolution stub function s ext ⟨t.mem, lsm, []⟩ := by
  have hfunction : (stub.passes function s).function = function := by
    cases stub with
    | syscall number => cases hcell
    | _ => rfl
  have hkind : decide (ps4StubType t.mem function = ps4StubTypeKernelFunction) = false := by
    rw [ps4StubType_called hcell hinst hcode hcall]
    rfl
  rw [resolver_none, passed_eq hcall, hfunction, hsp]
  dsimp only
  rw [hkind, Bool.or_false]
  rfl

theorem confined_of_storesThrough {kernel : Bool} {cells : List (U64 × Nat)} {w : World}
    {r : Resolution} (hw : w.written = []) (hsup : stub.supports kernel = true)
    (h : StoresThrough cells w r) (hcells : ∀ c ∈ cells, c ∈ stub.cells) :
    ResolutionConfined stub kernel r := by
  obtain ⟨l, hl, hmem⟩ := h
  rw [hw, List.nil_append] at hl
  refine ⟨fun c hc => ?_, fun hno => ?_⟩
  · rw [hl] at hc
    exact hcells c (hmem c hc)
  · rw [hsup] at hno
    cases hno

theorem confined_of_argumentError {kernel : Bool} {w : World} {state : PS4ResolveState}
    (hw : w.written = []) : ResolutionConfined stub kernel ⟨.ok .argumentError, w, state⟩ := by
  refine ⟨fun c hc => ?_, fun _ => ⟨⟨_, rfl, rfl⟩, hw⟩⟩
  rw [hw] at hc
  cases hc

/-- In a mode the stub supports, and where the check for NULL stops it. -/
theorem selfResolution_confined (hcell : stub.cell (onKernelStack s) = some cell)
    (h : stub.supports (onKernelStack s) = true ∨ stub.Guarded s) (ext : Externals) {w : World}
    (hw : w.written = []) :
    ResolutionConfined stub (onKernelStack s) (selfResolution stub function s ext w) := by
  unfold selfResolution
  cases hmode : onKernelStack s with
  | false =>
      rw [hmode] at hcell h
      rw [if_neg Bool.false_ne_true]
      cases stub with
      | function moduleName functionName moduleHandle functionAddress =>
          exact confined_of_storesThrough hw rfl (storesThrough_user ext _ w) fun c hc => hc
      | kernelFunction functionName functionAddress =>
          have hguard := h.resolve_left Bool.false_ne_true
          rw [user_guarded ext _ w (by exact hguard)]
          exact confined_of_argumentError hw
      | functionAndKernelFunction moduleName functionName moduleHandle user kernel =>
          refine confined_of_storesThrough hw rfl (storesThrough_user ext _ w) fun c hc => ?_
          exact List.mem_append_left [(kernel, 8)] hc
      | syscallAndKernelFunction functionName functionAddress number => cases hcell
      | syscall number => cases hcell
  | true =>
      rw [hmode] at hcell h
      rw [if_pos rfl]
      cases stub with
      | function moduleName functionName moduleHandle functionAddress =>
          have hguard := h.resolve_left Bool.false_ne_true
          rw [kernel_guarded ext _ w function (by exact hguard)]
          exact confined_of_argumentError hw
      | kernelFunction functionName functionAddress =>
          exact confined_of_storesThrough hw rfl (storesThrough_kernel ext _ w function)
            fun c hc => hc
      | functionAndKernelFunction moduleName functionName moduleHandle user kernel =>
          refine confined_of_storesThrough hw rfl (storesThrough_kernel ext _ w function)
            fun c hc => ?_
          exact List.mem_append_right [(moduleHandle, 4), (user, 8)] hc
      | syscallAndKernelFunction functionName functionAddress number =>
          exact confined_of_storesThrough hw rfl (storesThrough_kernel ext _ w function)
            fun c hc => hc
      | syscall number => cases hcell

/-- Answers that find whatever is asked for. -/
def findsAll : Externals where
  libkernel := 1
  findLsm _ := (0, some 1)
  lsm _ _ := 1
  findSymbol _ _ := (0, some 1)
  kernelDlSym _ := 1

/-- In any other mode something is stored. -/
theorem selfResolution_stores {w : World} (htype : ps4StubType w.mem function = 0x49)
    (hlsm : w.lsm ≠ 0) (hsup : stub.supports (onKernelStack s) = false) (h : ¬ stub.Guarded s) :
    (selfResolution stub function s findsAll w).world.written ≠ [] := by
  unfold selfResolution
  cases hmode : onKernelStack s with
  | false =>
      rw [hmode] at hsup
      rw [if_neg Bool.false_ne_true]
      cases stub with
      | kernelFunction functionName functionAddress =>
          exact user_stores findsAll _ w hlsm (fun _ _ => ⟨1, rfl⟩) h
      | _ => cases hsup
  | true =>
      rw [hmode] at hsup
      rw [if_pos rfl]
      cases stub with
      | function moduleName functionName moduleHandle functionAddress =>
          have hkind : ps4StubType w.mem function ≠ ps4StubTypeFunction := by
            rw [htype]
            decide
          exact List.ne_nil_of_mem (kernel_stores findsAll _ w function hkind h)
      | _ => cases hsup

/-- In a mode it does not support, an unguarded stub writes something. -/
theorem not_selfConfined (hrip : s.rip = function) (hinst : stub.Installed function symbol s.mem)
    (hcode : 248 ≤ (function + 2 - (s.reg .rsp - 248)).toNat)
    (hcell : stub.cell (onKernelStack s) = some cell) (hempty : loadWord s.mem cell = 0)
    (hsup : stub.supports (onKernelStack s) = false) (hguard : ¬ stub.Guarded s) :
    ¬ SelfConfined stub function s := by
  intro h
  obtain ⟨t, ht, hcall⟩ := stub_calls hcell hrip hempty
  have hconf := h.resolution t ht findsAll 1 (s.reg .rsp) rfl
  rw [selfResolution_eq hcell hinst hcode hcall findsAll 1 rfl] at hconf
  have hlsm : (1 : U64) ≠ 0 := by decide
  exact selfResolution_stores (w := ⟨t.mem, 1, []⟩) (ps4StubType_called hcell hinst hcode hcall)
    hlsm hsup hguard (hconf.unsupported hsup).2

end Resolving

/--
**When a stub that resolves itself writes only its own cells.**

In every mode it supports, and in the other one exactly when the check for NULL stops the
resolver.  A stub whose cell is filled, or that has none in its mode, does not resolve.
-/
theorem stub_confined_iff (stub : Stub) (function : U64) (symbol : StubSymbol → U64) (s : State)
    (hrip : s.rip = function) (hinst : stub.Installed function symbol s.mem)
    (hcode : 248 ≤ (function + 2 - (s.reg .rsp - 248)).toNat) :
    SelfConfined stub function s ↔
      ∀ cell, stub.cell (onKernelStack s) = some cell → loadWord s.mem cell = 0 →
        stub.supports (onKernelStack s) = true ∨ stub.Guarded s := by
  constructor
  · intro h cell hcell hempty
    by_contra hcon
    rw [not_or, Bool.not_eq_true] at hcon
    exact not_selfConfined hrip hinst hcode hcell hempty hcon.1 hcon.2 h
  · intro h
    refine ⟨fun t ht => ?_, fun t ht ext lsm sp hsp => ?_, fun t u ht hurip hursp => ?_⟩
    · obtain ⟨cell, -, -, hcall⟩ := calls_cases hrip ht
      exact hcall.outside
    · obtain ⟨cell, hcell, hempty, hcall⟩ := calls_cases hrip ht
      rw [selfResolution_eq hcell hinst hcode hcall ext lsm hsp]
      exact selfResolution_confined hcell (h cell hcell hempty) ext rfl
    · obtain ⟨cell, hcell, -, hcall⟩ := calls_cases hrip ht
      rw [hcall.rsp, hcall.ret] at hurip
      obtain ⟨v, hv, hvrip, -, hrestored⟩ := slowPath_restores (textLength_text_lt stub function)
        (text_of_cell hcell) rfl hurip
      refine ⟨v, hv, hvrip, fun a ha => hrestored.outside a ?_⟩
      rw [hursp, BitVec.add_sub_cancel, hcall.rsp]
      exact ha

/-- On a user stack a user function resolves into its own cells. -/
theorem caller_confined : SelfConfined userStub 0x400000 (caller userStub 0x7fff0000 1 0) :=
  (stub_confined_iff userStub 0x400000 (fun _ => 0x410000) (caller userStub 0x7fff0000 1 0) rfl
    (caller_installed userStub 0x7fff0000 1 0) (by decide)).mpr fun _ _ _ => .inl rfl

/-- On a kernel stack it stores through whatever the caller has in `%r8`. -/
theorem caller_not_confined :
    ¬ SelfConfined userStub 0x400000 (caller userStub 0xffff800000010000 1 0) := by
  have hcell : userStub.cell (onKernelStack (caller userStub 0xffff800000010000 1 0))
      = some 0x600000 := rfl
  refine not_selfConfined rfl (caller_installed userStub 0xffff800000010000 1 0) (by decide) hcell
    (caller_empty ..) rfl ?_
  show ¬ ((0x500010 : U64) = 0 ∨ (1 : U64) = 0)
  decide

end LibPS4
