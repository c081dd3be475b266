/-
The stack of a stub that resolves itself.

With `S` the stack pointer of the caller, the call of `ps4Pushall` is made with `S`, its
return leaves `S - 240`, the call of the resolver makes that `S - 248`, the resolver's
return `S - 240` again, and `ps4Popall` closes the frame.  All the two routines store is
in the 248 bytes below `S`, and both exits find `S` as it was.  What the frame does not do
is keep the alignment of the ABI: 240 is a multiple of sixteen, so a stack pointer that is
eight off on entry of the stub is still eight off where the resolver is called.
-/
import LibPS4.Proofs.SlowPath

namespace LibPS4

open Effects X64

/-! ### What is claimed of the stack -/

/-- The resolver is called with an aligned stack: `t` is the state it is entered in, with
the return address already pushed. -/
def AlignedCall (stub : Stub) (function : U64) (s : State) : Prop :=
  ∀ t, Leaves (stub.placed function none) s (.called .ps4ResolveModuleAndSymbolOrKernelSymbol) t →
    (t.reg .rsp + 8).toNat % 16 = 0

/-- The resolver, entered in `t`, returned in `u`. -/
structure ResolverReturned (t u : State) : Prop where
  rip : u.rip = loadWord t.mem (t.reg .rsp)
  rsp : u.reg .rsp = t.reg .rsp + 8

/-- The words a routine stores when it is called in `u` are all strictly below `S`. -/
def StoresBelow (body : List FrameInstr) (u : State) (S : U64) : Prop :=
  ∀ a ∈ storedAt body (u.push (u.rip + 5)), a.toNat + 8 ≤ S.toNat

/-- Memory at `S` and above is the same in both states. -/
def SameFrom (S : U64) (s t : State) : Prop := ∀ a : U64, S.toNat ≤ a.toNat → t.mem a = s.mem a

/-- What the stub itself does with the stack, from its entry in `s` to either exit, around
any resolver that returns where it was called from. -/
structure BalancedStack (stub : Stub) (function : U64) (s : State) : Prop where
  pushall : ∃ u, Reaches (stub.placed function none) s u ∧
    opAt (stub.text function) (u.rip - function).toNat = some (.call .ps4Pushall) ∧
    StoresBelow ps4Pushall u (s.reg .rsp)
  there : ∀ t, Leaves (stub.placed function none) s
      (.called .ps4ResolveModuleAndSymbolOrKernelSymbol) t → SameFrom (s.reg .rsp) s t
  popall : ∀ t u, Leaves (stub.placed function none) s
      (.called .ps4ResolveModuleAndSymbolOrKernelSymbol) t → ResolverReturned t u →
    ∃ v, Reaches (stub.placed function none) u v ∧
      opAt (stub.text function) (v.rip - function).toNat = some (.call .ps4Popall) ∧
      StoresBelow ps4Popall v (s.reg .rsp)
  retry : ∀ t u, Leaves (stub.placed function none) s
      (.called .ps4ResolveModuleAndSymbolOrKernelSymbol) t → ResolverReturned t u →
    u.reg .rax = 0 → ∃ v, Reaches (stub.placed function none) u v ∧ v.rip = function ∧
      v.reg .rsp = s.reg .rsp ∧ SameFrom (s.reg .rsp) u v
  ret : ∀ t u, Leaves (stub.placed function none) s
      (.called .ps4ResolveModuleAndSymbolOrKernelSymbol) t → ResolverReturned t u →
    u.reg .rax ≠ 0 → ∃ v, Reaches (stub.placed function none) u v ∧
      (stub.placed function none).step v = some (some .returned, v.pop) ∧
      v.reg .rsp = s.reg .rsp ∧ SameFrom (s.reg .rsp) u v

/-! ### The two routines -/

theorem storedAt_ps4Pushall (s : State) : storedAt ps4Pushall s
    = (pushed s).map fun w => s.reg .rsp - 240 + BitVec.ofNat 64 w.1 := by
  have hfirst : storedAt [FrameInstr.sub 240, .store .rax 8, .load 240 .rax] s
      = [s.reg .rsp - 240 + BitVec.ofNat 64 8] := rfl
  have hsaves := storedAt_stores saves (opened s) (by decide)
  rw [ps4Pushall_eq, storedAt_append, hfirst, ← opened, hsaves, rsp_opened, pushed, List.map_cons]
  rfl

theorem storedAt_ps4Popall (s : State) :
    storedAt ps4Popall s = [s.reg .rsp + BitVec.ofNat 64 240] := by
  have hfirst : storedAt [FrameInstr.load 0 .rax, .store .rax 240] s
      = [s.reg .rsp + BitVec.ofNat 64 240] := rfl
  have hrestores : ∀ t, storedAt restores t = [] := fun t => storedAt_loads restores t (by decide)
  rw [ps4Popall_eq, storedAt_append, storedAt_append, hfirst, hrestores]
  rfl

/-- The frame is below a stack pointer that leaves room for it. -/
theorem below_of_inFrame {S a : U64} (hroom : 248 ≤ S.toNat)
    (h : (a - (S - 248)).toNat + 8 ≤ 248) : a.toNat + 8 ≤ S.toNat := by
  bv_omega

theorem sameFrom_of_outside {S : U64} {s t : State} (hroom : 248 ≤ S.toNat)
    (h : ∀ a, 248 ≤ (a - (S - 248)).toNat → t.mem a = s.mem a) : SameFrom S s t := by
  intro a ha
  refine h a ?_
  bv_omega

theorem storesBelow_ps4Pushall {S : U64} {u : State} (hroom : 248 ≤ S.toNat)
    (hrsp : u.reg .rsp = S) : StoresBelow ps4Pushall u S := by
  intro a ha
  rw [storedAt_ps4Pushall, List.mem_map] at ha
  obtain ⟨w, hw, rfl⟩ := ha
  have hslot := (slot_of_mem_pushed hw).2
  refine below_of_inFrame hroom ?_
  rw [reg_push, if_pos rfl, hrsp]
  bv_omega

theorem storesBelow_ps4Popall {S : U64} {v : State} (hroom : 248 ≤ S.toNat)
    (hrsp : v.reg .rsp = S - 240) : StoresBelow ps4Popall v S := by
  intro a ha
  rw [storedAt_ps4Popall, List.mem_singleton] at ha
  refine below_of_inFrame hroom ?_
  rw [ha, reg_push, if_pos rfl, hrsp]
  bv_omega

/-- Either exit leaves the caller's stack as it was. -/
theorem restored_stack {ret : U64} {s u v : State} (hroom : 248 ≤ (s.reg .rsp).toNat)
    (hursp : u.reg .rsp = s.reg .rsp - 240) (h : Restored ret u v) :
    v.reg .rsp = s.reg .rsp ∧ SameFrom (s.reg .rsp) u v := by
  refine ⟨?_, sameFrom_of_outside hroom fun a ha => h.outside a ?_⟩
  · rw [h.rsp, hursp, BitVec.sub_add_cancel]
  · rw [hursp]
    bv_omega

/-! ### The slow path -/

section Discipline

variable {stub : Stub} {function cell : U64} {s : State}
  (hcell : stub.cell (onKernelStack s) = some cell) (hrip : s.rip = function)
  (hempty : loadWord s.mem cell = 0)

include hcell hrip hempty

/-- The one state in which the resolver is entered. -/
theorem resolverCall_of_leaves {t : State} (ht : Leaves (stub.placed function none) s
    (.called .ps4ResolveModuleAndSymbolOrKernelSymbol) t) :
    ResolverCall (stub.arguments function) (stub.resolverReturn function) s t := by
  obtain ⟨t', ht', hcall⟩ := stub_calls hcell hrip hempty
  obtain ⟨-, rfl⟩ := ht.unique ht'
  exact hcall

/-- Eight off on entry is eight off at the call. -/
theorem call_misaligned (hS : (s.reg .rsp).toNat % 16 = 8) {t : State}
    (ht : Leaves (stub.placed function none) s
      (.called .ps4ResolveModuleAndSymbolOrKernelSymbol) t) :
    (t.reg .rsp + 8).toNat % 16 = 8 := by
  rw [(resolverCall_of_leaves hcell hrip hempty ht).rsp]
  bv_omega

theorem not_alignedCall (hS : (s.reg .rsp).toNat % 16 = 8) : ¬ AlignedCall stub function s := by
  intro h
  obtain ⟨t, ht, -⟩ := stub_calls hcell hrip hempty
  have haligned := h t ht
  have hmis := call_misaligned hcell hrip hempty hS ht
  omega

/-- What the resolver's return leaves to the second half of the slow path. -/
theorem returned_eq {t u : State} (ht : Leaves (stub.placed function none) s
      (.called .ps4ResolveModuleAndSymbolOrKernelSymbol) t) (hu : ResolverReturned t u) :
    u.rip = stub.resolverReturn function ∧ u.reg .rsp = s.reg .rsp - 240 := by
  have hcall := resolverCall_of_leaves hcell hrip hempty ht
  refine ⟨?_, ?_⟩
  · rw [hu.rip, hcall.rsp, hcall.ret]
  · rw [hu.rsp, hcall.rsp]
    bv_omega

theorem balancedStack (hroom : 248 ≤ (s.reg .rsp).toNat) : BalancedStack stub function s := by
  have hlen := textLength_text_lt stub function
  have htext : stub.text function = stub.head ++ slowPath (stub.arguments function) :=
    text_of_cell hcell
  refine ⟨?_, fun t ht => ?_, fun t u ht hu => ?_, fun t u ht hu hrax => ?_,
    fun t u ht hu hrax => ?_⟩
  · obtain ⟨u, hu, hsame, hurip⟩ := stub_resolves none hcell hrip hempty
    refine ⟨u, hu, ?_, storesBelow_ps4Pushall hroom (hsame.reg .rsp (by decide))⟩
    exact opAt_after (p := stub.placed function none) hlen hurip (text_pushall htext)
  · exact sameFrom_of_outside hroom (resolverCall_of_leaves hcell hrip hempty ht).outside
  · obtain ⟨hurip, hursp⟩ := returned_eq hcell hrip hempty ht hu
    obtain ⟨v, hv, hvrip, -, hvrsp, -⟩ := slowPath_keeps hlen htext hurip
    refine ⟨v, hv, ?_, storesBelow_ps4Popall hroom (hvrsp.trans hursp)⟩
    exact opAt_after (p := stub.placed function none) hlen hvrip (text_popall htext)
  · obtain ⟨hurip, hursp⟩ := returned_eq hcell hrip hempty ht hu
    obtain ⟨v, hv, hvrip, hrestored⟩ := slowPath_retries hlen htext rfl hurip hrax
    rw [labelAddress_function hcell] at hvrip
    exact ⟨v, hv, hvrip, restored_stack hroom hursp hrestored⟩
  · obtain ⟨hurip, hursp⟩ := returned_eq hcell hrip hempty ht hu
    have hno : (.label .exit : Line StubLabel StubSymbol) ∉ stub.head := by
      cases stub <;> simp [Stub.head, throughCell, testMode]
    obtain ⟨v, hv, hstep, hrestored⟩ := slowPath_returns hlen htext rfl hno hurip hrax
    exact ⟨v, hv, hstep, restored_stack hroom hursp hrestored⟩

end Discipline

/--
**No stub that resolves itself keeps the alignment of the stack.**

Whatever its operands, for every caller that follows the ABI.  The rest of the discipline
holds wherever the stack pointer leaves room for the frame: the two routines store
strictly below it, and both exits find it, and the memory above it, as they were.
-/
theorem stub_misaligned (stub : Stub) (function cell : U64) (s : State)
    (hcell : stub.cell (onKernelStack s) = some cell) (hrip : s.rip = function)
    (hempty : loadWord s.mem cell = 0) (hS : (s.reg .rsp).toNat % 16 = 8) :
    ¬ (AlignedCall stub function s ∧ BalancedStack stub function s) ∧
      (∀ t, Leaves (stub.placed function none) s
          (.called .ps4ResolveModuleAndSymbolOrKernelSymbol) t →
        (t.reg .rsp + 8).toNat % 16 = 8) ∧
      (248 ≤ (s.reg .rsp).toNat → BalancedStack stub function s) := by
  refine ⟨fun h => ?_, fun t ht => ?_, fun hroom => ?_⟩
  · exact not_alignedCall hcell hrip hempty hS h.1
  · exact call_misaligned hcell hrip hempty hS ht
  · exact balancedStack hcell hrip hempty hroom

/-- A user function called with a stack pointer as the ABI has it. -/
theorem caller_balanced : BalancedStack userStub 0x400000 (caller userStub 0x7fff0008 0 0) :=
  (stub_misaligned userStub 0x400000 0x600000 (caller userStub 0x7fff0008 0 0) rfl rfl
    (caller_empty ..) rfl).2.2 (by decide)

theorem caller_misaligned :
    ((caller userStub 0x7fff0008 0 0).reg .rsp).toNat % 16 = 8 ∧
      loadWord (caller userStub 0x7fff0008 0 0).mem 0x600000 = 0 ∧
      ¬ (AlignedCall userStub 0x400000 (caller userStub 0x7fff0008 0 0) ∧
        BalancedStack userStub 0x400000 (caller userStub 0x7fff0008 0 0)) := by
  have hcell : userStub.cell (onKernelStack (caller userStub 0x7fff0008 0 0))
      = some 0x600000 := rfl
  refine ⟨rfl, caller_empty .., fun h => ?_⟩
  exact not_alignedCall hcell rfl (caller_empty ..) rfl h.1

end LibPS4
