/-
Calls through stubs, one after the other.

A program calls its stubs in any order and does what it likes in between, as long as it
leaves the stubs and their cells alone.  A call finds its cell filled, and is gone; or it
goes through `ps4Pushall`, the resolver, which is C code and keeps to what the C function
does, `ps4Popall`, and then either through the head of the stub once more or back to the
caller.

What is shown is that a call arrives where it should: whatever was resolved before, in
whatever order, and whatever failed on the way, a call through a stub enters the function
the stub is named after, or it comes back to its caller.  There is no third way.
-/
import LibPS4.Base.Answered
import LibPS4.Proofs.Caches

namespace LibPS4

open Effects X64

/-! ### What the resolver leaves alone -/

/-- A relation between worlds that stores into the given cells, and into `lsm`, stay in. -/
structure AllowsStores (cells : List (U64 × Nat)) (R : World → World → Prop) : Prop where
  refl : ∀ w, R w w
  trans : ∀ {w w' w''}, R w w' → R w' w'' → R w w''
  store : ∀ w a n v, (a, n) ∈ cells → R w (w.store a n v)
  lsm : ∀ w lsm, R w { w with lsm }

section Stores

variable {cells : List (U64 × Nat)} {R : World → World → Prop} (hR : AllowsStores cells R)
  {ext : Externals} {state : PS4ResolveState} {w : World} {go : Continuation}

include hR

theorem AllowsStores.failIf (bad : Bool) {status : PS4ResolveStatus}
    (h : status ≠ .interceptContinue) (hgo : R w (go state w).world) :
    R w (failIf bad Handlers.none.error status state w go).world := by
  cases bad with
  | false => exact hgo
  | true =>
      rw [failIf_of_bad h rfl]
      exact hR.refl w

theorem AllowsStores.through {pointer : U64} {r : Resolution} (h : R w r.world) :
    R w (through pointer state w r).world := by
  unfold LibPS4.through
  split
  · exact hR.refl w
  · exact h

theorem AllowsStores.resolveSymbol (hc : (state.userAddress, 8) ∈ cells) :
    R w (resolveSymbol Handlers.none ext state w).world := by
  refine hR.through ?_
  unfold storeAnswer
  dsimp only
  cases (ext.findSymbol (le32 w.mem state.moduleId) state.symbol).2 with
  | none => exact hR.failIf _ (by decide) (hR.refl w)
  | some address =>
      refine hR.through ?_
      refine hR.trans (hR.store w state.userAddress 8 address.toNat hc) ?_
      exact hR.failIf _ (by decide) (hR.refl _)

theorem AllowsStores.resolveLsm (hgo : ∀ w', R w' (go state w').world) :
    R w (resolveLsm Handlers.none ext state w go).world := by
  unfold LibPS4.resolveLsm
  split
  · refine hR.failIf _ (by decide) ?_
    cases (ext.findLsm ext.libkernel).2 with
    | none => exact hR.failIf _ (by decide) (hgo w)
    | some address =>
        exact hR.trans (hR.lsm w address) (hR.failIf _ (by decide) (hgo _))
  · exact hgo w

theorem AllowsStores.resolveModule (hc : (state.moduleId, 4) ∈ cells)
    (hgo : ∀ w', R w' (go state w').world) :
    R w (resolveModule Handlers.none ext state w go).world := by
  refine hR.through ?_
  split
  · refine hR.resolveLsm fun w' => ?_
    refine hR.through (hR.through ?_)
    refine hR.trans (hR.store w' state.moduleId 4 (ext.lsm w'.lsm state.module).toNat hc) ?_
    exact hR.failIf _ (by decide) (hgo _)
  · exact hgo w

/-- The rule for the user branch. -/
theorem AllowsStores.resolveUserSymbol (hid : (state.moduleId, 4) ∈ cells)
    (haddress : (state.userAddress, 8) ∈ cells) :
    R w (resolveUserSymbol Handlers.none ext state w).world := by
  refine hR.failIf _ (by decide) ?_
  refine hR.resolveModule hid fun w' => ?_
  exact hR.resolveSymbol haddress

end Stores

/-- Outside the cells memory is what it was. -/
def SameOutside (cells : List (U64 × Nat)) (w w' : World) : Prop :=
  ∀ a, (∀ c ∈ cells, c.2 ≤ (a - c.1).toNat) → w'.mem a = w.mem a

theorem allowsStores_sameOutside {cells : List (U64 × Nat)} (hsize : ∀ c ∈ cells, c.2 ≤ 2 ^ 64) :
    AllowsStores cells (SameOutside cells) where
  refl _ _ _ := rfl
  trans h h' a ha := (h' a ha).trans (h a ha)
  store w a n v hc x hx := by
    have hout : n ≤ (x - a).toNat := hx (a, n) hc
    show Prog.replay (span a n (byteOf v)) w.mem x = w.mem x
    rw [replay_span (hsize (a, n) hc), if_neg (by omega)]
  lsm _ _ _ _ := rfl

/-! ### One call -/

/-- The resolver, entered in `t` with its static, returns in `u`.  What it does is what the C
function does on the arguments in the registers; besides, it uses `scratch`, and it
returns to where it was called from with its status in `%rax`. -/
structure Conduct (ext : Externals) (sp : U64) (scratch : U64 → Prop) (t u : State × U64) :
    Prop where
  rip : u.1.rip = loadWord t.1.mem (t.1.reg .rsp)
  rsp : u.1.reg .rsp = t.1.reg .rsp + 8
  mem : ∀ a, ¬ scratch a → u.1.mem a = (ps4ResolveModuleAndSymbolOrKernelSymbol Handlers.none ext sp
    (passed t.1) ⟨t.1.mem, t.2, []⟩).world.mem a
  lsm : u.2 = (ps4ResolveModuleAndSymbolOrKernelSymbol Handlers.none ext sp (passed t.1)
    ⟨t.1.mem, t.2, []⟩).world.lsm
  status : u.1.reg .rax = 0 ↔ (ps4ResolveModuleAndSymbolOrKernelSymbol Handlers.none ext sp
    (passed t.1) ⟨t.1.mem, t.2, []⟩).status = .ok .success

/-- In `t` the stack pointer, the registers that `ps4Pushall` saves, the return address and
the vector registers that carry arguments are the caller's.  Of `%xmm7` this is the lower
half only, since `ps4Popall` spoils the upper one. -/
structure SameCaller (s t : State) : Prop where
  rsp : t.reg .rsp = s.reg .rsp
  reg : ∀ r d, slotOf r = some d → t.reg r = s.reg r
  ret : loadWord t.mem (s.reg .rsp) = loadWord s.mem (s.reg .rsp)
  xmm : ∀ x : Fin 16, x < 7 → t.xmm x = s.xmm x
  xmm7 : lower (t.xmm 7) = lower (s.xmm 7)

theorem sameCaller_of_untouched {s t : State} (h : Untouched s t) : SameCaller s t := by
  refine ⟨h.reg .rsp (by decide), fun r d hd => h.reg r ?_, ?_, fun x _ => ?_, ?_⟩
  · rintro rfl
    cases hd
  · rw [h.mem]
  · rw [h.xmm]
  · rw [h.xmm]

theorem SameCaller.trans {s t u : State} (h : SameCaller s t) (h' : SameCaller t u) :
    SameCaller s u := by
  refine ⟨h'.rsp.trans h.rsp, fun r d hd => ?_, ?_, fun x hx => ?_, h'.xmm7.trans h.xmm7⟩
  · rw [h'.reg r d hd, h.reg r d hd]
  · rw [← h.ret, ← h.rsp, h'.ret]
  · rw [h'.xmm x hx, h.xmm x hx]

/-- How a call that was made in `s` may end: in the function at `a`, entered with what the
caller passed, or back with the caller, whose registers are its own. -/
inductive Delivered (a : U64) (s : State) : Exit StubSymbol → State → Prop
  | entered {t : State} (rip : t.rip = a) (same : SameCaller s t) : Delivered a s .jumped t
  | refused {t : State} (rip : t.rip = loadWord s.mem (s.reg .rsp))
      (rsp : t.reg .rsp = s.reg .rsp + 8) (reg : ∀ r d, slotOf r = some d → t.reg r = s.reg r) :
      Delivered a s .returned t

/-- Behind `ps4Popall` the caller is restored if nobody has written into the frame. -/
theorem sameCaller_of_restored {args : List (U64 × Reg)} {ret ret' : U64} {s t u w : State}
    (hcall : ResolverCall args ret s t) (hrsp : u.reg .rsp = t.reg .rsp + 8)
    (hframe : ∀ k < 248, u.mem (t.reg .rsp + 8 + BitVec.ofNat 64 k)
      = t.mem (t.reg .rsp + 8 + BitVec.ofNat 64 k))
    (h : Restored ret' u w) :
    SameCaller s w ∧ ∀ a, 248 ≤ (a - (s.reg .rsp - 248)).toNat → w.mem a = u.mem a := by
  have hword : ∀ d, 8 ≤ d → d ≤ 248 → loadWord u.mem (t.reg .rsp + BitVec.ofNat 64 d)
      = loadWord t.mem (t.reg .rsp + BitVec.ofNat 64 d) := by
    intro d hd hd'
    refine loadWord_congr fun k hk => ?_
    have hf := hframe (d - 8 + k) (by omega)
    have haddr : t.reg .rsp + 8 + BitVec.ofNat 64 (d - 8 + k)
        = t.reg .rsp + BitVec.ofNat 64 d + BitVec.ofNat 64 k := by bv_omega
    rwa [haddr] at hf
  have hbottom : u.reg .rsp - 8 = t.reg .rsp := by rw [hrsp, BitVec.add_sub_cancel]
  have ht := hcall.rsp
  obtain ⟨hwrsp, hwreg, hwxmm, hwxmm7, hwmem⟩ := h
  simp only [hbottom] at hwreg hwxmm hwxmm7 hwmem
  have hsaved := hcall.saved
  have hsavedX := hcall.savedX
  have hout := hcall.outside
  simp only [← ht] at hsaved hsavedX hout ⊢
  have hsp : s.reg .rsp = t.reg .rsp + BitVec.ofNat 64 248 := by
    rw [ht]
    bv_omega
  refine ⟨⟨?_, fun r d hd => ?_, ?_, fun x hx => ?_, ?_⟩, hwmem⟩
  · rw [hwrsp, hrsp, hsp]
    bv_omega
  · obtain ⟨hpos, hle, -⟩ := slot_of_slotOf hd
    rw [hwreg r d hd, hword d hpos (by omega), hsaved r d hd]
  · -- The caller's return address is the last word of the frame.
    have hw' : loadWord w.mem (s.reg .rsp) = loadWord u.mem (s.reg .rsp) :=
      loadWord_congr fun k hk => hwmem _ (by rw [hsp]; bv_omega)
    have ht' : loadWord t.mem (s.reg .rsp) = loadWord s.mem (s.reg .rsp) :=
      loadWord_congr fun k hk => hout _ (by rw [hsp]; bv_omega)
    rw [hw', ← ht', hsp, hword 248 (by decide) (by decide)]
  · have hx' : x.val < 7 := hx
    rw [hwxmm x hx, loadWords, hword _ (by omega) (by omega), hword _ (by omega) (by omega),
      ← hsavedX x (by omega), loadWords]
  · have h7 := hsavedX 7 (by decide)
    have hlow : loadWord t.mem (t.reg .rsp + BitVec.ofNat 64 232) = lower (s.xmm 7) := by
      rw [← h7]
      exact (lower_append _ _).symm
    rw [hwxmm7, hword 232 (by decide) (by decide), hlow, lower_append]

/-- The resolver, entered in `t`, has returned in `u` and left the frame of the stub alone. -/
structure ReturnsTo (t u : State) : Prop where
  rip : u.rip = loadWord t.mem (t.reg .rsp)
  rsp : u.reg .rsp = t.reg .rsp + 8
  frame : ∀ k < 248, u.mem (t.reg .rsp + 8 + BitVec.ofNat 64 k)
    = t.mem (t.reg .rsp + 8 + BitVec.ofNat 64 k)

section Returned

variable {stub : Stub} {function cell : U64} {s t u : State}
  (hcell : stub.cell (onKernelStack s) = some cell)
  (hcall : ResolverCall (stub.arguments function) (stub.resolverReturn function) s t)
  (hu : ReturnsTo t u)

include hcall hu

theorem ReturnsTo.rip_eq : u.rip = (stub.placed function none).after (upToResolver stub.head
    (stub.arguments function) ++ [.op (.call .ps4ResolveModuleAndSymbolOrKernelSymbol)]) := by
  rw [hu.rip, hcall.rsp, hcall.ret]
  rfl

include hcell

/-- The rule for a resolver that reports success.  The stub starts again, and its cell is
filled now. -/
theorem ReturnsTo.jumps (hrax : u.reg .rax = 0)
    (hout : ∀ k < 8, 248 ≤ (cell + BitVec.ofNat 64 k - (s.reg .rsp - 248)).toNat)
    (hfilled : loadWord u.mem cell ≠ 0) :
    ∃ v, Leaves (stub.placed function none) u .jumped v ∧ v.rip = loadWord u.mem cell ∧
      SameCaller s v ∧ ∀ a, 248 ≤ (a - (s.reg .rsp - 248)).toNat → v.mem a = u.mem a := by
  obtain ⟨w, hreach, hwrip, hrestored⟩ := slowPath_retries (textLength_text_lt _ _)
    (text_of_cell hcell) rfl (hu.rip_eq hcall) hrax
  rw [labelAddress_function hcell] at hwrip
  obtain ⟨hsame, hmem⟩ := sameCaller_of_restored hcall hu.rsp hu.frame hrestored
  have hload : loadWord w.mem cell = loadWord u.mem cell :=
    loadWord_congr fun k hk => hmem _ (hout k hk)
  have hstack : onKernelStack w = onKernelStack s := by
    unfold onKernelStack
    rw [hsame.rsp]
  obtain ⟨v, hv, huntouched, hrip⟩ :=
    stub_jumps none (hstack ▸ hcell) hwrip (by rw [hload]; exact hfilled)
  refine ⟨v, hreach.leaves hv, hrip.trans hload,
    hsame.trans (sameCaller_of_untouched huntouched), fun a ha => ?_⟩
  rw [huntouched.mem, hmem a ha]

/-- The rule for one that does not.  The stub returns to its caller. -/
theorem ReturnsTo.returns (hrax : u.reg .rax ≠ 0) :
    ∃ v, Leaves (stub.placed function none) u .returned v ∧
      v.rip = loadWord s.mem (s.reg .rsp) ∧ v.reg .rsp = s.reg .rsp + 8 ∧
      (∀ r d, slotOf r = some d → v.reg r = s.reg r) ∧
      ∀ a, 248 ≤ (a - (s.reg .rsp - 248)).toNat → v.mem a = u.mem a := by
  have hno : (.label .exit : Line StubLabel StubSymbol) ∉ stub.head := by
    cases stub <;> simp [Stub.head, throughCell, testMode]
  obtain ⟨w, hreach, hstep, hrestored⟩ := slowPath_returns (textLength_text_lt _ _)
    (text_of_cell hcell) rfl hno (hu.rip_eq hcall) hrax
  obtain ⟨hsame, hmem⟩ := sameCaller_of_restored hcall hu.rsp hu.frame hrestored
  have hleaves : Leaves (stub.placed function none) w .returned w.pop :=
    ⟨1, by rw [Placed.run, hstep]⟩
  refine ⟨w.pop, hreach.leaves hleaves, ?_, ?_, fun r d hd => ?_, hmem⟩
  · show loadWord w.mem (w.reg .rsp) = _
    rw [hsame.rsp, hsame.ret]
  · show (if Reg.rsp = .rsp then w.reg .rsp + 8 else w.reg .rsp) = _
    rw [if_pos rfl, hsame.rsp]
  · have hr : r ≠ .rsp := by
      rintro rfl
      cases hd
    show (if r = .rsp then w.reg .rsp + 8 else w.reg r) = _
    rw [if_neg hr, hsame.reg r d hd]

end Returned

/-- What a call is of: the stub, and for the resolver what the outside answers, its stack
pointer and what it uses besides. -/
structure CallOf (ι : Type) where
  index : ι
  ext : Externals
  sp : U64
  scratch : U64 → Prop

namespace UserStubs

variable {platform : Platform} {ι : Type} (stubs : UserStubs platform ι)

/-- The addresses of the stubs' code and cells. -/
def Owns (a : U64) : Prop :=
  ∃ i, (a - (stubs.operands i).moduleId).toNat < 4 ∨
    (a - (stubs.operands i).userAddress).toNat < 8 ∨
    (a - (stubs.linked i).function).toNat < (stubs.linked i).size

variable {stubs}

/-- What is kept depends on nothing else in memory. -/
theorem Kept.of_same {w : World} (h : stubs.Kept w) {mem : U64 → Byte}
    (hmem : ∀ a, stubs.Owns a → mem a = w.mem a) (written : List (U64 × Nat)) :
    stubs.Kept ⟨mem, w.lsm, written⟩ := by
  have hhandle : ∀ i, stubs.handle ⟨mem, w.lsm, written⟩ i = stubs.handle w i := by
    intro i
    refine congrArg (BitVec.ofNat 32) (leNat_congr 4 _ fun k hk => hmem _ ⟨i, .inl ?_⟩)
    rw [toNat_add_ofNat_sub _ (by omega)]
    exact hk
  have haddress : ∀ i, stubs.address ⟨mem, w.lsm, written⟩ i = stubs.address w i := by
    intro i
    refine congrArg (BitVec.ofNat 64) (leNat_congr 8 _ fun k hk => hmem _ ⟨i, .inr (.inl ?_)⟩)
    rw [toNat_add_ofNat_sub _ (by omega)]
    exact hk
  refine ⟨fun i k b hb => ?_, h.sound.lsm, fun i => ?_, fun i => ?_⟩
  · have hk : k < (stubs.linked i).size := by
      obtain ⟨hk, -⟩ := List.getElem?_eq_some_iff.mp hb
      rw [assembleAt, length_assemble] at hk
      exact hk
    have hlt : k < 2 ^ 64 := Nat.lt_trans hk (textLength_text_lt _ _)
    rw [← h.installed i k b hb]
    exact hmem _ ⟨i, .inr (.inr (by rw [toNat_add_ofNat_sub _ hlt]; exact hk))⟩
  · rw [hhandle]
    exact h.sound.handle i
  · rw [haddress]
    exact h.sound.address i

/-- In user mode a stub looks up the cell of its user function. -/
theorem cell_eq (i : ι) :
    (stubs.linked i).stub.cell false = some (stubs.operands i).userAddress := by
  have huser := stubs.user i
  unfold operands LinkedStub.operands
  cases hstub : (stubs.linked i).stub with
  | function => rfl
  | functionAndKernelFunction => rfl
  | _ =>
      rw [hstub] at huser
      cases huser

/-- What a stub passes is what the resolver is said to be called with. -/
theorem arguments_eq_passes (i : ι) (s : State) (sp : U64) (ext : Externals) :
    stubs.arguments ⟨i, s.reg .r8, sp, ext⟩
      = (stubs.linked i).stub.passes (stubs.linked i).function s := by
  have huser := stubs.user i
  unfold arguments operands LinkedStub.operands
  cases hstub : (stubs.linked i).stub with
  | function => rfl
  | functionAndKernelFunction => rfl
  | _ =>
      rw [hstub] at huser
      cases huser

/-- In user mode an installed stub is resolved by the user branch. -/
theorem resolve_eq_user {call : UserCall ι} {w : World} (hcall : call.Allowed platform)
    (hw : stubs.Installed w) :
    stubs.resolve call w = resolveUserSymbol Handlers.none call.ext
      { stubs.arguments call with
        isKernel := ps4KernelIsInKernel call.sp, status := .interceptContinue } w := by
  have htype : ps4StubType w.mem (stubs.arguments call).function = 0x49 := by
    rw [arguments_function]
    exact ps4StubType_installed (cell_eq call.index) (hw call.index)
  have hbranch : ¬ (ps4KernelIsInKernel call.sp ||
      decide (ps4StubType w.mem (stubs.arguments call).function = ps4StubTypeKernelFunction))
      = true := by
    rw [hcall.user, htype]
    decide
  unfold resolve
  rw [resolver_none]
  exact if_neg hbranch

/-- In user mode a resolution changes the two cells of its stub and nothing else. -/
theorem resolve_sameOutside {call : UserCall ι} {w : World} (hcall : call.Allowed platform)
    (hw : stubs.Kept w) :
    SameOutside [((stubs.operands call.index).moduleId, 4),
      ((stubs.operands call.index).userAddress, 8)] w (stubs.resolve call w).world := by
  rw [resolve_eq_user hcall hw.installed]
  refine (allowsStores_sameOutside ?_).resolveUserSymbol ?_ ?_
  · intro c hc
    simp only [List.mem_cons, List.not_mem_nil, or_false] at hc
    rcases hc with rfl | rfl
    · show 4 ≤ 2 ^ 64
      decide
    · show 8 ≤ 2 ^ 64
      decide
  · rw [← arguments_moduleId]
    exact List.mem_cons_self ..
  · rw [← arguments_userAddress]
    exact List.mem_cons_of_mem _ (List.mem_cons_self ..)

/-- A stub is called in `s`, in user mode and with room on the stack: the 248 bytes below the
stack pointer and the return address are apart from the stubs and their cells, and so is
what the resolver uses besides. -/
structure Proper (stubs : UserStubs platform ι) (i : ι) (ext : Externals) (sp : U64)
    (scratch : U64 → Prop) (s : State) : Prop where
  rip : s.rip = (stubs.linked i).function
  user : onKernelStack s = false
  resolver_user : ps4KernelIsInKernel sp = false
  answers : platform.Answers ext
  stack : ∀ a, stubs.Owns a → 256 ≤ (a - (s.reg .rsp - 248)).toNat
  scratch : ∀ a, scratch a → ¬ stubs.Owns a ∧ 248 ≤ (a - (s.reg .rsp - 240)).toNat

section OneCall

variable {i : ι} {ext : Externals} {sp lsm : U64} {scratch : U64 → Prop} {s : State}

/-- The stub's part of the machine. -/
abbrev placed (stubs : UserStubs platform ι) (i : ι) : Placed StubLabel StubSymbol :=
  (stubs.linked i).stub.placed (stubs.linked i).function none

/-- A filled cell. -/
theorem filled_call (h : Proper stubs i ext sp scratch s) (hw : stubs.Kept ⟨s.mem, lsm, []⟩)
    (hfilled : loadWord s.mem (stubs.operands i).userAddress ≠ 0) :
    ∃ t, Leaves (stubs.placed i) s .jumped t ∧ Delivered (stubs.ownAddress i) s .jumped t ∧
      t.mem = s.mem := by
  have hcell : (stubs.linked i).stub.cell false = some (stubs.operands i).userAddress := cell_eq i
  rw [← h.user] at hcell
  obtain ⟨t, ht, hsame, hrip⟩ := stub_jumps none hcell h.rip hfilled
  refine ⟨t, ht, .entered ?_ (sameCaller_of_untouched hsame), hsame.mem⟩
  rw [hrip]
  exact hw.sound.address i hfilled

/-- The resolver finds the stubs and their cells as the caller left them. -/
theorem kept_at_resolver {args : List (U64 × Reg)} {ret : U64} {t : State}
    (h : Proper stubs i ext sp scratch s) (hw : stubs.Kept ⟨s.mem, lsm, []⟩)
    (hcall : ResolverCall args ret s t) : stubs.Kept ⟨t.mem, lsm, []⟩ :=
  hw.of_same (fun a ha => hcall.outside a (by have := h.stack a ha; omega)) []

/-- What the resolver does, in the terms of `resolve`. -/
structure Answer (stubs : UserStubs platform ι) (i : ι) (ext : Externals) (sp : U64)
    (s t : State) (lsm : U64) (u : State × U64) : Prop where
  returns : ReturnsTo t u.1
  owned : ∀ a, stubs.Owns a →
    u.1.mem a = (stubs.resolve ⟨i, s.reg .r8, sp, ext⟩ ⟨t.mem, lsm, []⟩).world.mem a
  static : u.2 = (stubs.resolve ⟨i, s.reg .r8, sp, ext⟩ ⟨t.mem, lsm, []⟩).world.lsm
  status : u.1.reg .rax = 0 ↔
    (stubs.resolve ⟨i, s.reg .r8, sp, ext⟩ ⟨t.mem, lsm, []⟩).status = .ok .success

/-- It does not write into the frame of the stub, since no cell is there. -/
theorem answer_of_conduct {ret : U64} {t : State} {u : State × U64}
    (h : Proper stubs i ext sp scratch s) (hw : stubs.Kept ⟨s.mem, lsm, []⟩)
    (hcall : ResolverCall ((stubs.linked i).stub.arguments (stubs.linked i).function) ret s t)
    (hu : Conduct ext sp scratch (t, lsm) u) : stubs.Answer i ext sp s t lsm u := by
  obtain ⟨hrip, hrsp, hmem, hlsm, hstatus⟩ := hu
  have hpassed : passed t = stubs.arguments ⟨i, s.reg .r8, sp, ext⟩ := by
    rw [passed_eq hcall, arguments_eq_passes]
  simp only [hpassed] at hmem hlsm hstatus
  have hallowed : UserCall.Allowed platform (⟨i, s.reg .r8, sp, ext⟩ : UserCall ι) :=
    ⟨h.resolver_user, h.answers⟩
  have hsame := resolve_sameOutside hallowed (kept_at_resolver h hw hcall)
  have hbase : t.reg .rsp + 8 = s.reg .rsp - 240 := by
    rw [hcall.rsp]
    bv_omega
  refine ⟨⟨hrip, hrsp, fun k hk => ?_⟩, fun a ha => hmem a fun hs => (h.scratch a hs).1 ha, hlsm,
    hstatus⟩
  rw [hbase]
  have hoff : (s.reg .rsp - 240 + BitVec.ofNat 64 k - (s.reg .rsp - 240)).toNat = k :=
    toNat_add_ofNat_sub _ (by omega)
  have hfar : ∀ a, stubs.Owns a → a ≠ s.reg .rsp - 240 + BitVec.ofNat 64 k := by
    rintro a ha rfl
    have hout := h.stack _ ha
    have hdist : (s.reg .rsp - 240 + BitVec.ofNat 64 k - (s.reg .rsp - 248)).toNat = k + 8 := by
      bv_omega
    omega
  have hscratch : ¬ scratch (s.reg .rsp - 240 + BitVec.ofNat 64 k) := by
    intro hs
    have hout := (h.scratch _ hs).2
    omega
  rw [hmem _ hscratch]
  refine hsame _ fun c hc => Nat.not_lt.mp fun hlt => ?_
  simp only [List.mem_cons, List.not_mem_nil, or_false] at hc
  rcases hc with rfl | rfl
  · exact hfar _ ⟨i, .inl hlt⟩ rfl
  · exact hfar _ ⟨i, .inr (.inl hlt)⟩ rfl

/-- After a success the stub finds its cell filled. -/
theorem retried_call {t : State} {u : State × U64} (h : Proper stubs i ext sp scratch s)
    (hw : stubs.Kept ⟨s.mem, lsm, []⟩)
    (hcall : ResolverCall ((stubs.linked i).stub.arguments (stubs.linked i).function)
      ((stubs.linked i).stub.resolverReturn (stubs.linked i).function) s t)
    (hu : stubs.Answer i ext sp s t lsm u) (hrax : u.1.reg .rax = 0) :
    ∃ v, Leaves (stubs.placed i) u.1 .jumped v ∧ Delivered (stubs.ownAddress i) s .jumped v ∧
      stubs.Kept ⟨v.mem, u.2, []⟩ := by
  have hcell : (stubs.linked i).stub.cell (onKernelStack s)
      = some (stubs.operands i).userAddress := by
    rw [h.user]
    exact cell_eq i
  have hallowed : UserCall.Allowed platform (⟨i, s.reg .r8, sp, ext⟩ : UserCall ι) :=
    ⟨h.resolver_user, h.answers⟩
  have ht := kept_at_resolver h hw hcall
  have hown : ∀ k < 8, stubs.Owns ((stubs.operands i).userAddress + BitVec.ofNat 64 k) := by
    intro k hk
    refine ⟨i, .inr (.inl ?_)⟩
    rw [toNat_add_ofNat_sub _ (by omega)]
    exact hk
  have haddress : loadWord u.1.mem (stubs.operands i).userAddress = stubs.ownAddress i := by
    have hfound := resolve_address hallowed ht (hu.status.mp hrax)
    exact Eq.trans (loadWord_congr fun k hk => hu.owned _ (hown k hk)) hfound
  obtain ⟨v, hv, hrip, hsame, hmem⟩ := hu.returns.jumps hcell hcall hrax
    (fun k hk => by have := h.stack _ (hown k hk); omega)
    (by rw [haddress]; exact platform.symbolAddress_ne _ _)
  refine ⟨v, hv, .entered (hrip.trans haddress) hsame, ?_⟩
  rw [hu.static]
  -- The stubs and their cells are as the resolver left them.
  refine (resolve_spec hallowed ht).kept.of_same (fun a ha => ?_) []
  rw [hmem a (by have := h.stack a ha; omega), hu.owned a ha]

/-- After a failure the stub returns. -/
theorem refused_call {t : State} {u : State × U64} (h : Proper stubs i ext sp scratch s)
    (hw : stubs.Kept ⟨s.mem, lsm, []⟩)
    (hcall : ResolverCall ((stubs.linked i).stub.arguments (stubs.linked i).function)
      ((stubs.linked i).stub.resolverReturn (stubs.linked i).function) s t)
    (hu : stubs.Answer i ext sp s t lsm u) (hrax : u.1.reg .rax ≠ 0) :
    ∃ v, Leaves (stubs.placed i) u.1 .returned v ∧ Delivered (stubs.ownAddress i) s .returned v ∧
      stubs.Kept ⟨v.mem, u.2, []⟩ := by
  have hcell : (stubs.linked i).stub.cell (onKernelStack s)
      = some (stubs.operands i).userAddress := by
    rw [h.user]
    exact cell_eq i
  have hallowed : UserCall.Allowed platform (⟨i, s.reg .r8, sp, ext⟩ : UserCall ι) :=
    ⟨h.resolver_user, h.answers⟩
  obtain ⟨v, hv, hrip, hrsp, hreg, hmem⟩ := hu.returns.returns hcell hcall hrax
  refine ⟨v, hv, .refused hrip hrsp hreg, ?_⟩
  rw [hu.static]
  refine (resolve_spec hallowed (kept_at_resolver h hw hcall)).kept.of_same (fun a ha => ?_) []
  rw [hmem a (by have := h.stack a ha; omega), hu.owned a ha]

/-- The stub runs with its calls of the resolver answered. -/
abbrev Runs (stubs : UserStubs platform ι) (i : ι) (ext : Externals) (sp : U64)
    (scratch : U64 → Prop) : State × U64 → Exit StubSymbol → State × U64 → Prop :=
  Answered (stubs.placed i) .ps4ResolveModuleAndSymbolOrKernelSymbol (Conduct ext sp scratch)

/-- **One call.**  The stub is left, or it calls the resolver once and is left whatever the
resolver answers. -/
theorem call_cases (h : Proper stubs i ext sp scratch s) (hw : stubs.Kept ⟨s.mem, lsm, []⟩) :
    (∃ t, Leaves (stubs.placed i) s .jumped t ∧ Delivered (stubs.ownAddress i) s .jumped t ∧
      stubs.Kept ⟨t.mem, lsm, []⟩) ∨
    ∃ t, Leaves (stubs.placed i) s (.called .ps4ResolveModuleAndSymbolOrKernelSymbol) t ∧
      ∀ u, Conduct ext sp scratch (t, lsm) u →
        ∃ e v, e ≠ .called .ps4ResolveModuleAndSymbolOrKernelSymbol ∧
          Leaves (stubs.placed i) u.1 e v ∧ Delivered (stubs.ownAddress i) s e v ∧
          stubs.Kept ⟨v.mem, u.2, []⟩ := by
  have hcell : (stubs.linked i).stub.cell false = some (stubs.operands i).userAddress := cell_eq i
  rw [← h.user] at hcell
  by_cases hempty : loadWord s.mem (stubs.operands i).userAddress = 0
  · obtain ⟨t, ht, hcall⟩ := stub_calls hcell h.rip hempty
    refine .inr ⟨t, ht, fun u hu => ?_⟩
    have hanswer := answer_of_conduct h hw hcall hu
    by_cases hrax : u.1.reg .rax = 0
    · exact ⟨_, _, by decide, (retried_call h hw hcall hanswer hrax).choose_spec⟩
    · exact ⟨_, _, by decide, (refused_call h hw hcall hanswer hrax).choose_spec⟩
  · obtain ⟨t, ht, hdelivered, hmem⟩ := filled_call h hw hempty
    exact .inl ⟨t, ht, hdelivered, by rw [hmem]; exact hw⟩

theorem call_delivered (h : Proper stubs i ext sp scratch s) (hw : stubs.Kept ⟨s.mem, lsm, []⟩)
    {e : Exit StubSymbol} {d : State × U64} (hrun : stubs.Runs i ext sp scratch (s, lsm) e d) :
    Delivered (stubs.ownAddress i) s e d.1 ∧ stubs.Kept ⟨d.1.mem, d.2, []⟩ := by
  obtain ⟨t, ht, hdelivered, hkept⟩ | ⟨t, ht, hanswered⟩ := call_cases h hw
  · obtain ⟨rfl, rfl⟩ := hrun.eq_of_leaves ht (by decide)
    exact ⟨hdelivered, hkept⟩
  · obtain ⟨u, hu, hrest⟩ := hrun.of_called ht
    obtain ⟨e', v, he, hv, hdelivered, hkept⟩ := hanswered u hu
    obtain ⟨rfl, rfl⟩ := hrest.eq_of_leaves hv he
    exact ⟨hdelivered, hkept⟩

/-- A call comes to an end if the resolver does. -/
theorem call_ends (h : Proper stubs i ext sp scratch s) (hw : stubs.Kept ⟨s.mem, lsm, []⟩)
    (hreturns : ∀ t, ∃ u, Conduct ext sp scratch t u) :
    ∃ e d, stubs.Runs i ext sp scratch (s, lsm) e d := by
  obtain ⟨t, ht, -⟩ | ⟨t, ht, hanswered⟩ := call_cases h hw
  · exact ⟨_, _, .leaves ht (by decide)⟩
  · obtain ⟨u, hu⟩ := hreturns (t, lsm)
    obtain ⟨e, v, he, hv, -⟩ := hanswered u hu
    exact ⟨e, (v, u.2), .called ht hu (.leaves hv he)⟩

end OneCall

/-! ### Many calls -/

/-- The calls a program makes, of stubs and with answers that are proper. -/
abbrev History (stubs : UserStubs platform ι) :
    (U64 → Byte) → U64 → List (CallRecord (CallOf ι) StubSymbol U64) → Prop :=
  X64.History stubs.Owns (fun c => Proper stubs c.index c.ext c.sp c.scratch)
    (fun c => stubs.Runs c.index c.ext c.sp c.scratch)

/-- What carries the induction over the calls is that no cache is poisoned. -/
theorem History.delivered {calls : List (CallRecord (CallOf ι) StubSymbol U64)}
    {mem : U64 → Byte} {lsm : U64} (hw : stubs.Kept ⟨mem, lsm, []⟩)
    (h : stubs.History mem lsm calls) :
    (∀ call ∈ calls, Delivered (stubs.ownAddress call.info.index) call.entry call.exit call.left) ∧
      stubs.Kept ⟨(afterCalls mem lsm calls).1, (afterCalls mem lsm calls).2, []⟩ := by
  refine X64.History.all (fun mem lsm => stubs.Kept ⟨mem, lsm, []⟩)
    (fun c s e t => Delivered (stubs.ownAddress c.index) s e t) ?_ ?_ calls mem lsm hw h
  · intro mem mem' lsm hw hmem
    exact hw.of_same hmem []
  · intro c s lsm e d hproper hw hrun
    exact call_delivered hproper hw hrun

/--
**Every call arrives.**

In a program that is linked with any number of stubs of user functions and that calls them
in any order, any number of times, each call enters the function that the module of the
stub has under the stub's name, with the arguments and the return address the caller
passed, or it returns to the caller.  And a further call does come to an end, as long as
the resolver returns.
-/
theorem calls_delivered {platform : Platform} {ι : Type} (stubs : UserStubs platform ι)
    (w : World) (hfresh : stubs.Fresh w) (calls : List (CallRecord (CallOf ι) StubSymbol U64))
    (hhistory : stubs.History w.mem w.lsm calls) :
    (∀ call ∈ calls, Delivered (stubs.ownAddress call.info.index) call.entry call.exit call.left) ∧
    ∀ (i : ι) (ext : Externals) (sp : U64) (scratch : U64 → Prop) (s : State),
      (∀ a, stubs.Owns a → s.mem a = (afterCalls w.mem w.lsm calls).1 a) →
      Proper stubs i ext sp scratch s → (∀ t, ∃ u, Conduct ext sp scratch t u) →
      ∃ e t lsm, stubs.Runs i ext sp scratch (s, (afterCalls w.mem w.lsm calls).2) e (t, lsm) ∧
        Delivered (stubs.ownAddress i) s e t := by
  have hkept : stubs.Kept ⟨w.mem, w.lsm, []⟩ := hfresh.kept.of_same (fun _ _ => rfl) []
  obtain ⟨hdelivered, hlast⟩ := History.delivered hkept hhistory
  refine ⟨hdelivered, fun i ext sp scratch s hsame hproper hreturns => ?_⟩
  have hentry := hlast.of_same hsame []
  obtain ⟨e, ⟨t, lsm⟩, hrun⟩ := call_ends hproper hentry hreturns
  exact ⟨e, t, lsm, hrun, (call_delivered hproper hentry hrun).1⟩

end UserStubs

/-! ### A program with two stubs -/

/-- The C function as compiled code that needs no stack of its own. -/
def compiled (ext : Externals) (sp : U64) (t : State × U64) : State × U64 :=
  let r := ps4ResolveModuleAndSymbolOrKernelSymbol Handlers.none ext sp (passed t.1)
    ⟨t.1.mem, t.2, []⟩
  ({ t.1.pop.setReg .rax (if r.status = .ok .success then 0 else 1) with mem := r.world.mem },
    r.world.lsm)

theorem compiled_conduct (ext : Externals) (sp : U64) (t : State × U64) :
    Conduct ext sp (fun _ => False) t (compiled ext sp t) := by
  refine ⟨rfl, rfl, fun _ _ => rfl, rfl, ?_⟩
  show (if _ then (0 : U64) else 1) = 0 ↔ _
  split <;> simp_all

/-- A caller of the first stub. -/
def twoCaller : State where
  reg r := if r = .rsp then 0x7fff0000 else 0
  xmm _ := 0
  zf := false
  mem := twoWorld.mem
  rip := 0x400000

theorem twoCaller_proper :
    UserStubs.Proper twoStubs false findsAll 0x7ffe0000 (fun _ => False) twoCaller := by
  refine ⟨rfl, by decide, by decide, findsAll_answers, fun a ha => ?_, fun a ha => ha.elim⟩
  obtain ⟨i, hi⟩ := ha
  have hstart : twoCaller.reg .rsp - 248 = 0x7ffeff08 := by decide
  rw [hstart]
  cases i with
  | false =>
      have hsize : (twoStubs.linked false).size = 107 := by decide
      rw [hsize] at hi
      change (a - 0x600010).toNat < 4 ∨ (a - 0x600000).toNat < 8 ∨ (a - 0x400000).toNat < 107 at hi
      bv_omega
  | true =>
      have hsize : (twoStubs.linked true).size = 107 := by decide
      rw [hsize] at hi
      change (a - 0x600010).toNat < 4 ∨ (a - 0x600020).toNat < 8 ∨ (a - 0x401000).toNat < 107 at hi
      bv_omega

/-- Its first call arrives. -/
theorem twoCaller_delivered :
    ∃ call : CallRecord (CallOf Bool) StubSymbol U64, call.entry = twoCaller ∧
    twoStubs.History twoWorld.mem twoWorld.lsm [call] ∧
    Delivered 1 call.entry call.exit call.left := by
  have hkept : twoStubs.Kept ⟨twoCaller.mem, 0, []⟩ :=
    twoWorld_fresh.kept.of_same (fun _ _ => rfl) []
  obtain ⟨e, ⟨t, lsm⟩, hrun⟩ := UserStubs.call_ends twoCaller_proper hkept
    fun t => ⟨_, compiled_conduct findsAll 0x7ffe0000 t⟩
  have hhistory : twoStubs.History twoWorld.mem twoWorld.lsm
      [⟨⟨false, findsAll, 0x7ffe0000, fun _ => False⟩, twoCaller, e, t, lsm⟩] :=
    ⟨fun _ _ => rfl, twoCaller_proper, hrun, trivial⟩
  exact ⟨_, rfl, hhistory,
    (UserStubs.calls_delivered twoStubs twoWorld twoWorld_fresh _ hhistory).1 _
      (List.mem_cons_self ..)⟩

end LibPS4
