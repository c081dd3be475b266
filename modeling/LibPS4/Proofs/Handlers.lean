/-
What the handlers can do to a resolution.

Every check of the resolver asks the error handler before it returns, and an answer of
`PS4ResolveStatusInterceptContinue` makes it go on as if the check had passed, with the
very value it has just found to be bad.  Nothing is checked again.  So whether a
resolution uses a NULL pointer, or reports success with an empty cell and sends the stub
round for another resolution, depends on what a handler leaves when it lets the resolver
go on, and on lookups that report success having found something.

`Needed` is what the resolver needs after each of its errors, and `Careful` says that it
gets that.  The proof is one rule for a check, applied down the chain.  Nothing of it can
be given up: a `Leeway` is anything that is let pass besides, and if it is not harmless
there is a resolution that goes wrong.
-/
import LibPS4.Base.Cells
import LibPS4.Proofs.Cells

namespace LibPS4

open Effects

/-! ### What is said of a resolution -/

/-- Which branch the resolver takes, when no pre handler interferes. -/
def kernelBranch (sp : U64) (arguments : ResolveArguments) (w : World) : Bool :=
  ps4KernelIsInKernel sp || ps4StubType w.mem arguments.function = ps4StubTypeKernelFunction

/-- The cell a branch resolves. -/
def branchTarget (kernel : Bool) (state : PS4ResolveState) : U64 :=
  if kernel then state.kernelAddress else state.userAddress

/-- The cell is there, and it is not empty. -/
def CellFilled (kernel : Bool) (state : PS4ResolveState) (w : World) : Prop :=
  branchTarget kernel state ≠ 0 ∧ le64 w.mem (branchTarget kernel state) ≠ 0

/-- No NULL pointer was used, and a success has left the cell it was resolving filled. -/
structure Callable (kernel : Bool) (r : Resolution) : Prop where
  safe : r.status ≠ .error .null
  filled : r.status = .ok .success → CellFilled kernel r.state r.world

/-- A handler that reports success only for a filled cell. -/
def Permitted (kernel : Bool) (handler : Option PS4ResolveHandler) : Prop :=
  ∀ h state w, handler = some h → (h state w).1 = .success →
    CellFilled kernel (h state w).2.1 (h state w).2.2

/-! ### What the resolver needs -/

/-- The errors a branch asks the handler about. -/
def branchErrors (kernel : Bool) : List PS4ResolveStatus :=
  if kernel then [.argumentError, .kernelFunctionResolveError]
  else [.argumentError, .kernelLoadError, .lsmResolveError, .moduleLoadError,
    .functionResolveError]

/-- The pointers a branch goes on to use. -/
def Usable (kernel : Bool) (state : PS4ResolveState) : Prop :=
  if kernel then state.symbol ≠ 0 ∧ state.kernelAddress ≠ 0
  else state.moduleId ≠ 0 ∧ state.userAddress ≠ 0

/-- What has to be true for the resolver to go on after an error. -/
def Needed (kernel : Bool) (state : PS4ResolveState) (w : World) : PS4ResolveStatus → Prop
  | .lsmResolveError => Usable kernel state ∧ w.lsm ≠ 0
  | .functionResolveError => CellFilled kernel state w
  | .kernelFunctionResolveError => CellFilled kernel state w
  | _ => Usable kernel state

/-- The state a handler is asked in: only the first check may have found a NULL. -/
def Asked (kernel : Bool) (state : PS4ResolveState) (status : PS4ResolveStatus) : Prop :=
  status = .argumentError ∨ Usable kernel state

/-- A lookup has stored an address. -/
def Found (answer : Option U64) : Prop := ∃ address, answer = some address ∧ address ≠ 0

/-- What is let pass besides: a NULL for the stub, successful lookups that have found nothing,
and states that handlers let the resolver go on in. -/
structure Leeway where
  function : Prop
  findLsm : Option U64 → Prop
  findSymbol : Option U64 → Prop
  error : PS4ResolveStatus → PS4ResolveState → World → Prop
  post : PS4ResolveState → World → Prop

/-- Nothing is. -/
def Leeway.none : Leeway := ⟨False, fun _ => False, fun _ => False, fun _ _ _ => False,
  fun _ _ => False⟩

/-- The stub has an address, lookups that succeed have found something, an error handler that
lets the resolver go on leaves it what it needs, and a post handler leaves a filled cell
filled; but for the leeway. -/
structure Careful (kernel : Bool) (leeway : Leeway) (handlers : Handlers) (ext : Externals)
    (function : U64) : Prop where
  function : function ≠ 0 ∨ leeway.function
  findLsm : kernel = false → ∀ k, (ext.findLsm k).1 = 0 →
    Found (ext.findLsm k).2 ∨ leeway.findLsm (ext.findLsm k).2
  findSymbol : kernel = false → ∀ id symbol, (ext.findSymbol id symbol).1 = 0 →
    Found (ext.findSymbol id symbol).2 ∨ leeway.findSymbol (ext.findSymbol id symbol).2
  error : ∀ status ∈ branchErrors kernel, ∀ state w state' w', Asked kernel state status →
    ps4ResolveCallHandler handlers.error state status w = (.interceptContinue, state', w') →
    Needed kernel state' w' status ∨ leeway.error status state' w'
  post : ∀ state w state' w', CellFilled kernel state w →
    ps4ResolveCallHandler handlers.post state .interceptContinue w
      = (.interceptContinue, state', w') →
    CellFilled kernel state' w' ∨ leeway.post state' w'

/-- It lets nothing pass that would not pass anyway. -/
structure Leeway.Harmless (kernel : Bool) (leeway : Leeway) : Prop where
  function : ¬ leeway.function
  findLsm : kernel = false → ∀ answer, leeway.findLsm answer → Found answer
  findSymbol : kernel = false → ∀ answer, leeway.findSymbol answer → Found answer
  error : ∀ status ∈ branchErrors kernel, ∀ state w, leeway.error status state w →
    Needed kernel state w status
  post : ∀ state w, leeway.post state w → CellFilled kernel state w

section Chain

variable {kernel : Bool} {handlers : Handlers} {ext : Externals} {function : U64}
  {state : PS4ResolveState} {w : World}

theorem callable_through {pointer : U64} {r : Resolution} (hp : pointer ≠ 0)
    (hr : Callable kernel r) : Callable kernel (through pointer state w r) := by
  unfold through
  rw [if_neg hp]
  exact hr

/-- A handler that is asked stops the resolver, or lets it go on. -/
theorem callable_intercept {handler : Option PS4ResolveHandler} {status : PS4ResolveStatus}
    {go : Continuation} (hpermitted : Permitted kernel handler) (hs : status ≠ .success)
    (hgo : ∀ state' w',
      ps4ResolveCallHandler handler state status w = (.interceptContinue, state', w') →
      Callable kernel (go state' w')) :
    Callable kernel (intercept handler status state w go) := by
  unfold intercept
  generalize hr : ps4ResolveCallHandler handler state status w = r
  obtain ⟨answer, state', w'⟩ := r
  dsimp only
  by_cases hcontinue : answer = .interceptContinue
  · rw [if_neg (not_not.mpr hcontinue)]
    subst hcontinue
    exact hgo state' w' hr
  · rw [if_pos hcontinue]
    refine ⟨nofun, fun hsuccess => ?_⟩
    have hanswer : answer = .success := Except.ok.inj hsuccess
    -- A handler that reports success itself has seen to the cell.
    cases handler with
    | none =>
        cases hr
        exact absurd hanswer hs
    | some h =>
        have hcall : h { state with status } w = (answer, state', w') := hr
        have hfilled := hpermitted h { state with status } w rfl
        rw [hcall] at hfilled
        exact hfilled hanswer

variable (hcareful : Careful kernel .none handlers ext function)

include hcareful

section Error

variable (herror : Permitted kernel handlers.error)

include herror

/-- **One check.**  Whether it is passed or the handler lets the resolver go on, what the
resolver needs next is there. -/
theorem Careful.failIf {bad : Bool} {status : PS4ResolveStatus} {go : Continuation}
    (hstatus : status ∈ branchErrors kernel) (hasked : Asked kernel state status)
    (hgood : bad = false → Needed kernel state w status)
    (hgo : ∀ state' w', Needed kernel state' w' status → Callable kernel (go state' w')) :
    Callable kernel (failIf bad handlers.error status state w go) := by
  have hs : status ≠ .success := by
    rintro rfl
    revert hstatus
    cases kernel <;> decide
  cases bad with
  | false => exact hgo state w (hgood rfl)
  | true =>
      refine callable_intercept herror hs fun state' w' hcall => hgo state' w' ?_
      exact (hcareful.error status hstatus state w state' w' hasked hcall).resolve_right id

variable (hpost : Permitted kernel handlers.post)

omit herror in
include hpost in
theorem Careful.finish (hfilled : CellFilled kernel state w) :
    Callable kernel (finish handlers state w) := by
  refine callable_intercept hpost (by decide) fun state' w' hcall => ?_
  refine ⟨nofun, fun _ => ?_⟩
  exact (hcareful.post state w state' w' hfilled hcall).resolve_right id

end Error

end Chain

section Kernel

variable {handlers : Handlers} {ext : Externals} {function : U64} {state : PS4ResolveState}
  {w : World} (hcareful : Careful true .none handlers ext function)
  (herror : Permitted true handlers.error) (hpost : Permitted true handlers.post)

include hcareful herror hpost

theorem Careful.kernel : Callable true (resolveKernelSymbol handlers ext function state w) := by
  unfold resolveKernelSymbol
  -- The first check has nothing to do with the pointers.
  have hcheck : ∀ state w, Callable true (LibPS4.failIf
      (state.symbol = 0 || state.kernelAddress = 0) handlers.error .argumentError state w
      fun state w =>
        through state.symbol state w <| through state.kernelAddress state w <|
        LibPS4.failIf (le64 (w.store state.kernelAddress 8
            (ext.kernelDlSym state.symbol).toNat).mem state.kernelAddress = 0)
          handlers.error .kernelFunctionResolveError state
          (w.store state.kernelAddress 8 (ext.kernelDlSym state.symbol).toNat)
          fun state w => LibPS4.finish handlers state w) := by
    intro state w
    refine hcareful.failIf herror (by decide) (.inl rfl) (fun hgood => ?_)
      fun state w husable => ?_
    · rw [Bool.or_eq_false_iff, decide_eq_false_iff_not, decide_eq_false_iff_not] at hgood
      exact hgood
    · refine callable_through husable.1 (callable_through husable.2 ?_)
      refine hcareful.failIf herror (by decide) (.inr husable) (fun hgood => ?_)
        fun state w hfilled => hcareful.finish hpost hfilled
      exact ⟨husable.2, of_decide_eq_false hgood⟩
  cases htype : decide (ps4StubType w.mem function = ps4StubTypeFunction) with
  | false => exact hcheck state w
  | true =>
      have hs : PS4ResolveStatus.argumentError ≠ .success := by decide
      exact callable_intercept herror hs fun state' w' _ => hcheck state' w'

end Kernel

section User

variable {handlers : Handlers} {ext : Externals} {function : U64} {state : PS4ResolveState}
  {w : World} (hcareful : Careful false .none handlers ext function)
  (herror : Permitted false handlers.error) (hpost : Permitted false handlers.post)

include hcareful herror hpost

theorem Careful.resolveSymbol (husable : Usable false state) :
    Callable false (resolveSymbol handlers ext state w) := by
  refine callable_through husable.1 ?_
  have hfound := hcareful.findSymbol rfl (le32 w.mem state.moduleId) state.symbol
  generalize ext.findSymbol (le32 w.mem state.moduleId) state.symbol = answer at hfound ⊢
  obtain ⟨code, stored⟩ := answer
  have hcheck : ∀ w', (code = 0 → CellFilled false state w') →
      Callable false (LibPS4.failIf (code ≠ 0) handlers.error .functionResolveError state w'
        fun state w => LibPS4.finish handlers state w) := by
    intro w' hfilled
    refine hcareful.failIf herror (by decide) (.inr husable) (fun hgood => ?_)
      fun state w hfilled => hcareful.finish hpost hfilled
    exact hfilled (not_not.mp (of_decide_eq_false hgood))
  cases stored with
  | none =>
      refine hcheck w fun hcode => ?_
      obtain ⟨address, hstored, -⟩ := (hfound hcode).resolve_right id
      cases hstored
  | some address =>
      refine callable_through husable.2 (hcheck _ fun hcode => ⟨husable.2, ?_⟩)
      obtain ⟨_, hstored, hne⟩ := (hfound hcode).resolve_right id
      cases hstored
      show le64 (Prog.replay (span state.userAddress 8 (byteOf address.toNat)) w.mem)
        state.userAddress ≠ 0
      rw [le64_replay_self]
      exact hne

/-- With the loader at hand. -/
theorem Careful.loadModule (husable : Usable false state) (hlsm : w.lsm ≠ 0) :
    Callable false (LibPS4.loadModule handlers ext (LibPS4.resolveSymbol handlers ext) state w) := by
  refine callable_through hlsm (callable_through husable.1 ?_)
  exact hcareful.failIf herror (by decide) (.inr husable) (fun _ => husable)
    fun state w husable => hcareful.resolveSymbol herror hpost husable

theorem Careful.resolveModule (husable : Usable false state) :
    Callable false (resolveModule handlers ext state w (LibPS4.resolveSymbol handlers ext)) := by
  refine callable_through husable.1 ?_
  split
  · unfold resolveLsm
    split
    · refine hcareful.failIf herror (by decide) (.inr husable) (fun _ => husable)
        fun state w husable => ?_
      have hfound := hcareful.findLsm rfl ext.libkernel
      generalize ext.findLsm ext.libkernel = answer at hfound ⊢
      obtain ⟨code, stored⟩ := answer
      refine hcareful.failIf herror (by decide) (.inr husable) (fun hgood => ⟨husable, ?_⟩)
        fun state w hneeded => hcareful.loadModule herror hpost hneeded.1 hneeded.2
      obtain ⟨address, hstored, hne⟩ :=
        (hfound (not_not.mp (of_decide_eq_false hgood))).resolve_right id
      cases hstored
      exact hne
    · rename_i hlsm
      exact hcareful.loadModule herror hpost husable hlsm
  · exact hcareful.resolveSymbol herror hpost husable

theorem Careful.user : Callable false (resolveUserSymbol handlers ext state w) := by
  refine hcareful.failIf herror (by decide) (.inl rfl) (fun hgood => ?_)
    fun state w husable => hcareful.resolveModule herror hpost husable
  simp only [Bool.or_eq_false_iff, decide_eq_false_iff_not] at hgood
  exact hgood.1.1

end User

/-- The state after the pre handler would have been asked. -/
def entryState (sp : U64) (arguments : ResolveArguments) : PS4ResolveState :=
  { arguments with isKernel := ps4KernelIsInKernel sp, status := .interceptContinue }

theorem resolver_unprepared {handlers : Handlers} (hpre : handlers.pre = none) (ext : Externals)
    (sp : U64) (arguments : ResolveArguments) (w : World) :
    ps4ResolveModuleAndSymbolOrKernelSymbol handlers ext sp arguments w =
      if kernelBranch sp arguments w then
        resolveKernelSymbol handlers ext arguments.function (entryState sp arguments) w
      else resolveUserSymbol handlers ext (entryState sp arguments) w := by
  unfold ps4ResolveModuleAndSymbolOrKernelSymbol intercept
  rw [hpre]
  rfl

/-- Careful surroundings are all it takes. -/
theorem Careful.resolver {kernel : Bool} {handlers : Handlers} {ext : Externals} {sp : U64}
    {arguments : ResolveArguments} {w : World}
    (hcareful : Careful kernel .none handlers ext arguments.function)
    (hpre : handlers.pre = none) (herror : Permitted kernel handlers.error)
    (hpost : Permitted kernel handlers.post) (hbranch : kernelBranch sp arguments w = kernel) :
    Callable kernel (ps4ResolveModuleAndSymbolOrKernelSymbol handlers ext sp arguments w) := by
  rw [resolver_unprepared hpre, hbranch]
  cases kernel with
  | true => exact hcareful.kernel herror hpost
  | false => exact hcareful.user herror hpost

/-! ### Nothing can be given up -/

section Leeway

variable {kernel : Bool} {leeway : Leeway} {ext : Externals} {function : U64}

/-- A post handler that leaves its own state and world. -/
def leaves (state' : PS4ResolveState) (w' : World) : PS4ResolveHandler :=
  fun _ _ => (.interceptContinue, state', w')

end Leeway

section Wrong

variable {handlers : Handlers} {ext : Externals} {state state' : PS4ResolveState} {w w' : World}
  {status : PS4ResolveStatus}

end Wrong

/-! Inputs that make a branch ask about each of its errors. -/

section Wrong

variable {state' : PS4ResolveState} {w' : World} {status : PS4ResolveStatus}

end Wrong

end LibPS4
