/-
Handlers that only look on.

A handler may look at what the resolver is about to do, keep notes in memory of its own,
and return the status it was told.  Such handlers may be installed and removed at any time:
every resolution ends with the status it would end with without them, and leaves the stubs
and their cells as it would without them.

The memory that matters is a set of addresses.  Two worlds that agree on it and on `lsm`
are the same to the resolver, which is the statement all of this is reduced to.
-/
import LibPS4.Proofs.CallRuns

namespace LibPS4

open Effects X64

/-! ### Worlds that look alike -/

/-- The resolver sees no difference: `lsm` and the memory that matters are the same. -/
structure Agree (P : U64 → Prop) (w w' : World) : Prop where
  lsm : w.lsm = w'.lsm
  mem : ∀ a, P a → w.mem a = w'.mem a

/-- The same status, and worlds that still look alike. -/
def SameOutcome (P : U64 → Prop) (r r' : Resolution) : Prop :=
  r.status = r'.status ∧ Agree P r.world r'.world

/-- All the bytes of a cell matter. -/
def Covers (P : U64 → Prop) (cell : U64) (n : Nat) : Prop := ∀ k < n, P (cell + BitVec.ofNat 64 k)

section Worlds

variable {P : U64 → Prop} {w w' w'' : World}

theorem Agree.refl (w : World) : Agree P w w := ⟨rfl, fun _ _ => rfl⟩

theorem Agree.trans (h : Agree P w w') (h' : Agree P w' w'') : Agree P w w'' :=
  ⟨h.lsm.trans h'.lsm, fun a ha => (h.mem a ha).trans (h'.mem a ha)⟩

theorem Agree.store (h : Agree P w w') (a : U64) {n : Nat} (hn : n ≤ 2 ^ 64) (v : Nat) :
    Agree P (w.store a n v) (w'.store a n v) := by
  refine ⟨h.lsm, fun x hx => ?_⟩
  show Prog.replay (span a n (byteOf v)) w.mem x = Prog.replay (span a n (byteOf v)) w'.mem x
  rw [replay_span hn, replay_span hn, h.mem x hx]

theorem Agree.setLsm (h : Agree P w w') (lsm : U64) : Agree P { w with lsm } { w' with lsm } :=
  ⟨rfl, h.mem⟩

theorem Agree.le32_eq (h : Agree P w w') {cell : U64} (hc : Covers P cell 4) :
    le32 w.mem cell = le32 w'.mem cell :=
  congrArg (BitVec.ofNat 32) (leNat_congr 4 _ fun k hk => h.mem _ (hc k hk))

theorem Agree.le64_eq (h : Agree P w w') {cell : U64} (hc : Covers P cell 8) :
    le64 w.mem cell = le64 w'.mem cell :=
  congrArg (BitVec.ofNat 64) (leNat_congr 8 _ fun k hk => h.mem _ (hc k hk))

end Worlds

/-! ### Handlers -/

/-- It returns the status it is told, and changes nothing that matters. -/
structure Observes (P : U64 → Prop) (handler : PS4ResolveHandler) : Prop where
  status : ∀ state w, (handler state w).1 = state.status
  state : ∀ state w, (handler state w).2.1 = state
  world : ∀ state w, Agree P (handler state w).2.2 w

/-- None, or one that observes. -/
def ObservesIfAny (P : U64 → Prop) (handler : Option PS4ResolveHandler) : Prop :=
  ∀ g, handler = some g → Observes P g

structure Handlers.Observe (P : U64 → Prop) (handlers : Handlers) : Prop where
  error : ObservesIfAny P handlers.error
  pre : ObservesIfAny P handlers.pre
  post : ObservesIfAny P handlers.post

theorem observesIfAny_none {P : U64 → Prop} : ObservesIfAny P none := fun _ h => by cases h

theorem observe_none {P : U64 → Prop} : Handlers.none.Observe P :=
  ⟨observesIfAny_none, observesIfAny_none, observesIfAny_none⟩

section Phases

variable {P : U64 → Prop} {w w' : World} {handlers : Handlers} {handler : Option PS4ResolveHandler}
  {ext : Externals} {state : PS4ResolveState} {status : PS4ResolveStatus} {go go' : Continuation}

/-- What the resolver gets back from an observer. -/
theorem callHandler_eq (hobs : ObservesIfAny P handler) (state : PS4ResolveState)
    (status : PS4ResolveStatus) (w : World) :
    ∃ v, Agree P v w ∧
      ps4ResolveCallHandler handler state status w = (status, { state with status }, v) := by
  cases handler with
  | none => exact ⟨w, Agree.refl w, rfl⟩
  | some g =>
      obtain ⟨hstatus, hstate, hworld⟩ := hobs g rfl
      refine ⟨_, hworld { state with status } w, ?_⟩
      show g { state with status } w = _
      exact Prod.ext (hstatus _ w) (Prod.ext (hstate _ w) rfl)

theorem Agree.intercept (h : Agree P w w') (hobs : ObservesIfAny P handler)
    (hgo : ∀ {v}, Agree P v w' →
      SameOutcome P (go { state with status } v) (go' { state with status } w')) :
    SameOutcome P (intercept handler status state w go) (intercept none status state w' go') := by
  obtain ⟨v, hv, hcall⟩ := callHandler_eq hobs state status w
  have hv' := hv.trans h
  show SameOutcome P (LibPS4.intercept handler status state w go)
    (if status ≠ .interceptContinue then ⟨.ok status, w', { state with status }⟩
      else go' { state with status } w')
  unfold LibPS4.intercept
  rw [hcall]
  dsimp only
  split
  · exact ⟨rfl, hv'⟩
  · exact hgo hv'

theorem Agree.failIf (h : Agree P w w') (hobs : ObservesIfAny P handler) (bad : Bool)
    (hs : status ≠ .interceptContinue) (hgo : SameOutcome P (go state w) (go' state w')) :
    SameOutcome P (failIf bad handler status state w go)
      (failIf bad Handlers.none.error status state w' go') := by
  cases bad with
  | false => exact hgo
  | true =>
      -- The status of a failed check stops the resolver on both sides.
      obtain ⟨v, hv, hcall⟩ := callHandler_eq hobs state status w
      rw [failIf_of_bad hs rfl]
      unfold LibPS4.failIf LibPS4.intercept
      rw [if_pos rfl, hcall]
      dsimp only
      rw [if_pos hs]
      exact ⟨rfl, hv.trans h⟩

theorem Agree.through (h : Agree P w w') (pointer : U64) {r r' : Resolution}
    (hr : SameOutcome P r r') :
    SameOutcome P (through pointer state w r) (through pointer state w' r') := by
  unfold LibPS4.through
  split
  · exact ⟨rfl, h⟩
  · exact hr

variable (hobs : handlers.Observe P)
include hobs

theorem Agree.finish (h : Agree P w w') :
    SameOutcome P (finish handlers state w) (finish Handlers.none state w') :=
  h.intercept hobs.post fun hv => ⟨rfl, hv⟩

theorem Agree.resolveKernelSymbol (h : Agree P w w') {function : U64} (htype : P (function + 2)) :
    SameOutcome P (resolveKernelSymbol handlers ext function state w)
      (resolveKernelSymbol Handlers.none ext function state w') := by
  unfold LibPS4.resolveKernelSymbol ps4StubType
  rw [h.mem _ htype]
  refine h.failIf hobs.error _ (by decide) ?_
  refine h.failIf hobs.error _ (by decide) ?_
  refine h.through _ (h.through _ ?_)
  have hstore := h.store state.kernelAddress (by decide : 8 ≤ 2 ^ 64)
    (ext.kernelDlSym state.symbol).toNat
  -- Both find what they have just written.
  have hself : ∀ v : World, le64 (v.store state.kernelAddress 8
      (ext.kernelDlSym state.symbol).toNat).mem state.kernelAddress
        = ext.kernelDlSym state.symbol := fun v => le64_replay_self v.mem _
  dsimp only
  rw [hself, hself]
  exact hstore.failIf hobs.error _ (by decide) (hstore.finish hobs)

theorem Agree.resolveSymbol (h : Agree P w w') (hid : Covers P state.moduleId 4) :
    SameOutcome P (resolveSymbol handlers ext state w)
      (resolveSymbol Handlers.none ext state w') := by
  refine h.through _ ?_
  unfold storeAnswer
  dsimp only
  rw [h.le32_eq hid]
  cases (ext.findSymbol (le32 w'.mem state.moduleId) state.symbol).2 with
  | none => exact h.failIf hobs.error _ (by decide) (h.finish hobs)
  | some address =>
      have hstore := h.store state.userAddress (by decide : 8 ≤ 2 ^ 64) address.toNat
      exact h.through _ (hstore.failIf hobs.error _ (by decide) (hstore.finish hobs))

theorem Agree.resolveLsm (h : Agree P w w')
    (hgo : ∀ {v v'}, Agree P v v' → SameOutcome P (go state v) (go' state v')) :
    SameOutcome P (resolveLsm handlers ext state w go)
      (resolveLsm Handlers.none ext state w' go') := by
  unfold LibPS4.resolveLsm
  rw [h.lsm]
  split
  · refine h.failIf hobs.error _ (by decide) ?_
    cases (ext.findLsm ext.libkernel).2 with
    | none => exact h.failIf hobs.error _ (by decide) (hgo h)
    | some address =>
        exact (h.setLsm address).failIf hobs.error _ (by decide) (hgo (h.setLsm address))
  · exact hgo h

theorem Agree.resolveModule (h : Agree P w w') (hid : Covers P state.moduleId 4)
    (hgo : ∀ {v v'}, Agree P v v' → SameOutcome P (go state v) (go' state v')) :
    SameOutcome P (resolveModule handlers ext state w go)
      (resolveModule Handlers.none ext state w' go') := by
  refine h.through _ ?_
  rw [h.le32_eq hid]
  split
  · refine h.resolveLsm hobs fun {v v'} hv => ?_
    rw [hv.lsm]
    refine hv.through _ (hv.through _ ?_)
    dsimp only
    have hstore := hv.store state.moduleId (by decide : 4 ≤ 2 ^ 64)
      (ext.lsm v'.lsm state.module).toNat
    rw [hstore.le32_eq hid]
    exact hstore.failIf hobs.error _ (by decide) (hgo hstore)
  · exact hgo h

/-- **The user branch.**  It depends on its handle and `lsm`, and on nothing else in the
world. -/
theorem Agree.resolveUserSymbol (h : Agree P w w') (hid : Covers P state.moduleId 4) :
    SameOutcome P (resolveUserSymbol handlers ext state w)
      (resolveUserSymbol Handlers.none ext state w') := by
  refine h.failIf hobs.error _ (by decide) ?_
  exact h.resolveModule hobs hid fun hv => hv.resolveSymbol hobs hid

/-- The whole resolver. -/
theorem Agree.resolver (h : Agree P w w') {sp : U64} {arguments : ResolveArguments}
    (htype : P (arguments.function + 2)) (hid : Covers P arguments.moduleId 4) :
    SameOutcome P (ps4ResolveModuleAndSymbolOrKernelSymbol handlers ext sp arguments w)
      (ps4ResolveModuleAndSymbolOrKernelSymbol Handlers.none ext sp arguments w') := by
  refine h.intercept hobs.pre fun {v} hv => ?_
  unfold ps4StubType
  rw [hv.mem _ htype]
  split
  · exact hv.resolveKernelSymbol hobs htype
  · exact hv.resolveUserSymbol hobs hid

end Phases

/-! ### Runs -/

/-- What a program may ask the resolver for. -/
inductive ResolverRequest
  | setErrorHandler (handler : Option PS4ResolveHandler)
  | setPreHandler (handler : Option PS4ResolveHandler)
  | setPostHandler (handler : Option PS4ResolveHandler)
  | resolve (ext : Externals) (sp : U64) (arguments : ResolveArguments)

namespace ResolverRequest

def isResolve : ResolverRequest → Bool
  | .resolve .. => true
  | _ => false

/-- One request, with the status if it is a resolution. -/
def serve (handlers : Handlers) (w : World) :
    ResolverRequest → Option (Except NullUse PS4ResolveStatus) × Handlers × World
  | .setErrorHandler handler => (none, (ps4ResolveSetErrorHandler handler handlers).2, w)
  | .setPreHandler handler => (none, (ps4ResolveSetPreHandler handler handlers).2, w)
  | .setPostHandler handler => (none, (ps4ResolveSetPostHandler handler handlers).2, w)
  | .resolve ext sp arguments =>
      let r := ps4ResolveModuleAndSymbolOrKernelSymbol handlers ext sp arguments w
      (some r.status, handlers, r.world)

/-- The statuses of the resolutions, in order, and the handlers and the world in the end. -/
def serveAll (handlers : Handlers) (w : World) :
    List ResolverRequest → List (Except NullUse PS4ResolveStatus) × Handlers × World
  | [] => ([], handlers, w)
  | request :: rest =>
      let next := request.serve handlers w
      let last := serveAll next.2.1 next.2.2 rest
      (next.1.toList ++ last.1, last.2)

/-- The handlers that are installed observe, and the cells of the resolutions matter. -/
def Watched (P : U64 → Prop) : ResolverRequest → Prop
  | .setErrorHandler handler | .setPreHandler handler | .setPostHandler handler =>
      ObservesIfAny P handler
  | .resolve _ _ arguments => P (arguments.function + 2) ∧ Covers P arguments.moduleId 4

variable {P : U64 → Prop} {handlers : Handlers} {w w' : World} {request : ResolverRequest}

theorem observe_serve (hobs : handlers.Observe P) (h : request.Watched P) :
    (request.serve handlers w).2.1.Observe P := by
  cases request with
  | setErrorHandler handler => exact ⟨h, hobs.pre, hobs.post⟩
  | setPreHandler handler => exact ⟨hobs.error, h, hobs.post⟩
  | setPostHandler handler => exact ⟨hobs.error, hobs.pre, h⟩
  | resolve ext sp arguments => exact hobs

/-- A setter changes nothing but the handlers. -/
theorem serve_of_not_isResolve (h : request.isResolve = false) :
    (request.serve handlers w).1 = none ∧ (request.serve handlers w).2.2 = w := by
  cases request with
  | resolve ext sp arguments => cases h
  | _ => exact ⟨rfl, rfl⟩

theorem serve_of_isResolve (hobs : handlers.Observe P) (h : request.Watched P)
    (hresolve : request.isResolve = true) (hagree : Agree P w w') :
    (request.serve handlers w).1 = (request.serve Handlers.none w').1 ∧
      (request.serve Handlers.none w').2.1 = Handlers.none ∧
      Agree P (request.serve handlers w).2.2 (request.serve Handlers.none w').2.2 := by
  cases request with
  | resolve ext sp arguments =>
      obtain ⟨hstatus, hworld⟩ := hagree.resolver hobs h.1 h.2
      exact ⟨congrArg some hstatus, rfl, hworld⟩
  | _ => cases hresolve

/-- The induction: on the side without handlers the setters are left out. -/
theorem serveAll_agree : ∀ (requests : List ResolverRequest) {handlers : Handlers} {w w' : World},
    handlers.Observe P → (∀ request ∈ requests, request.Watched P) → Agree P w w' →
    (serveAll handlers w requests).1
        = (serveAll Handlers.none w' (requests.filter isResolve)).1 ∧
      Agree P (serveAll handlers w requests).2.2
        (serveAll Handlers.none w' (requests.filter isResolve)).2.2 := by
  intro requests
  induction requests with
  | nil => intro handlers w w' _ _ hagree; exact ⟨rfl, hagree⟩
  | cons request rest ih =>
      intro handlers w w' hobs hwatched hagree
      have hfirst := hwatched request List.mem_cons_self
      have hrest := fun r hr => hwatched r (List.mem_cons_of_mem request hr)
      have hobs' := observe_serve (w := w) hobs hfirst
      cases hresolve : request.isResolve with
      | false =>
          obtain ⟨hnone, hsame⟩ : (request.serve handlers w).1 = none ∧
            (request.serve handlers w).2.2 = w := serve_of_not_isResolve hresolve
          have hagree' : Agree P (request.serve handlers w).2.2 w' := hsame.symm ▸ hagree
          have hnext := ih hobs' hrest hagree'
          rw [List.filter_cons_of_neg (by rw [hresolve]; exact Bool.false_ne_true)]
          refine ⟨?_, hnext.2⟩
          show (request.serve handlers w).1.toList ++ _ = _
          rw [hnone]
          exact hnext.1
      | true =>
          obtain ⟨hstatus, hnone, hworld⟩ := serve_of_isResolve hobs hfirst hresolve hagree
          rw [List.filter_cons_of_pos hresolve]
          have hnext := ih hobs' hrest hworld
          show (request.serve handlers w).1.toList ++ _
              = (request.serve Handlers.none w').1.toList ++ _ ∧
            Agree P _ (serveAll (request.serve Handlers.none w').2.1 _ _).2.2
          rw [hstatus, hnone]
          exact ⟨congrArg _ hnext.1, hnext.2⟩

end ResolverRequest

/--
**Observers are not noticed.**

For every program that installs and removes handlers and resolves in between, in any order,
with any answers from outside and in either mode: as long as the handlers return the status
they are told and leave some memory alone that has the handles and the kinds of the stubs,
the resolutions end with the statuses they end with when no handler is ever installed, and
that memory is in the end what it is then.
-/
theorem observers_unnoticed (P : U64 → Prop) (requests : List ResolverRequest)
    (handlers : Handlers) (w : World) (hobs : handlers.Observe P)
    (hwatched : ∀ request ∈ requests, request.Watched P) :
    let watched := ResolverRequest.serveAll handlers w requests
    let plain := ResolverRequest.serveAll Handlers.none w
      (requests.filter ResolverRequest.isResolve)
    watched.1 = plain.1 ∧ watched.2.2.lsm = plain.2.2.lsm ∧
      ∀ a, P a → watched.2.2.mem a = plain.2.2.mem a := by
  intro watched plain
  obtain ⟨hstatus, hworld⟩ :=
    ResolverRequest.serveAll_agree requests hobs hwatched (Agree.refl w)
  exact ⟨hstatus, hworld.lsm, hworld.mem⟩

/-- It makes a note at `0x700000`. -/
def makesNote : PS4ResolveHandler := fun state w => (state.status, state, w.store 0x700000 1 1)

theorem makesNote_observes : Observes (fun a => a ≠ 0x700000) makesNote := by
  refine ⟨fun _ _ => rfl, fun _ _ => rfl, fun _ w => ⟨rfl, fun a ha => ?_⟩⟩
  show Prog.replay (span 0x700000 1 (byteOf 1)) w.mem a = w.mem a
  have hout : ¬ (a - 0x700000).toNat < 1 := by
    have hne : a ≠ 0x700000 := ha
    bv_omega
  rw [replay_span (by decide), if_neg hout]

/-- A load that fails and one that does not, after the handler is installed. -/
def notedRequests : List ResolverRequest :=
  [.setErrorHandler (some makesNote),
    .resolve loadFails 0x7fff0000 (userStub.operands 0x400000),
    .setErrorHandler none,
    .resolve findsAll 0x7fff0000 (userStub.operands 0x400000)]

theorem notedRequests_watched :
    ∀ request ∈ notedRequests, request.Watched fun a => a ≠ 0x700000 := by
  have hcells : (0x400000 : U64) + 2 ≠ 0x700000 ∧
      ∀ k < 4, (0x600010 : U64) + BitVec.ofNat 64 k ≠ 0x700000 := by decide
  simp only [notedRequests, List.forall_mem_cons, List.not_mem_nil, false_implies, implies_true,
    and_true]
  refine ⟨fun g hg => ?_, hcells, observesIfAny_none, hcells⟩
  rw [← Option.some.inj hg]
  exact makesNote_observes

theorem notedRequests_unnoticed :
    (ResolverRequest.serveAll Handlers.none twoWorld notedRequests).1
      = (ResolverRequest.serveAll Handlers.none twoWorld
        (notedRequests.filter ResolverRequest.isResolve)).1 :=
  (observers_unnoticed (fun a => a ≠ 0x700000) notedRequests Handlers.none twoWorld observe_none
    notedRequests_watched).1

namespace UserStubs

variable {platform : Platform} {ι : Type} {stubs : UserStubs platform ι}

theorem covers_handle (i : ι) : Covers stubs.Owns (stubs.operands i).moduleId 4 := by
  intro n hn
  refine ⟨i, .inl ?_⟩
  rw [toNat_add_ofNat_sub _ (by omega)]
  exact hn

theorem covers_address (i : ι) : Covers stubs.Owns (stubs.operands i).userAddress 8 := by
  intro n hn
  refine ⟨i, .inr (.inl ?_)⟩
  rw [toNat_add_ofNat_sub _ (by omega)]
  exact hn

end UserStubs

end LibPS4
