/-
The two ways into the resolver.

A stub calls the resolver with what its template loads into the six argument registers,
over whatever the caller had there.  `ps4Resolve` takes the operands back out of the
stub's code and passes NULL for the ones a kind does not have.  The two agree for the one
kind that loads all six registers, and for the others only on callers that happen to have
zero in the rest; the kind that loads the symbol into the register of the module never
agrees unless there is no symbol.
-/
import LibPS4.Proofs.SlowPath
import LibPS4.Stub.Resolve

namespace LibPS4

open Effects X64

/-! ### The code of a stub -/

theorem textLength_arguments (args : List (U64 × Reg)) :
    textLength (args.map fun a => (.op (.plain (.movImm a.1 a.2)) : Line StubLabel StubSymbol))
      = 10 * args.length := by
  induction args with
  | nil => rfl
  | cons a args ih =>
      rw [List.map_cons, textLength_cons, ih, List.length_cons]
      simp only [Line.length, Op.length, Instr.encode, List.length_append, length_immediate]
      simp
      omega

/-- The instruction that loads an argument. -/
theorem opAt_argument (head : StubText) (before after : List (U64 × Reg)) (a : U64 × Reg) :
    opAt (head ++ slowPath (before ++ a :: after)) (textLength head + 5 + 10 * before.length)
      = some (.plain (.movImm a.1 a.2)) := by
  have htext : head ++ slowPath (before ++ a :: after)
      = head ++ [.label .resolve, .op (.call .ps4Pushall)] ++
        before.map (fun a => .op (.plain (.movImm a.1 a.2))) ++
        .op (.plain (.movImm a.1 a.2)) ::
          (after.map (fun a => .op (.plain (.movImm a.1 a.2))) ++ (slowPath []).drop 2) := by
    simp [slowPath]
  have hlen : textLength (head ++ [.label .resolve, .op (.call .ps4Pushall)] ++
      before.map fun a => .op (.plain (.movImm a.1 a.2)))
      = textLength head + 5 + 10 * before.length := by
    rw [textLength_append, textLength_append, textLength_arguments]
    rfl
  rw [htext, ← hlen]
  exact opAt_append_op _ _ _

theorem textLength_head (stub : Stub) : textLength stub.head = match stub with
    | .function .. => 25
    | .kernelFunction .. => 25
    | .functionAndKernelFunction .. => 57
    | .syscallAndKernelFunction .. => 49
    | .syscall _ => 14 := by
  cases stub <;>
    simp [Stub.head, throughCell, testMode, Line.length, Op.length, Instr.encode, Reg.number]

section Installed

variable {stub : Stub} {function cell : U64} {symbol : StubSymbol → U64} {mem : U64 → Byte}
  {kernel : Bool} (hcell : stub.cell kernel = some cell)
  (hinst : stub.Installed function symbol mem)

include hcell hinst

/-- The operands stand ten bytes apart. -/
theorem operand_eq (before : List (U64 × Reg)) {after : List (U64 × Reg)} {v : U64} {r : Reg}
    (h : stub.arguments function = before ++ (v, r) :: after) {k : Nat}
    (hk : textLength stub.head + 7 + 10 * before.length = k) :
    le64 mem (function + BitVec.ofNat 64 k) = v := by
  have ho : opAt (stub.text function) (textLength stub.head + 5 + 10 * before.length)
      = some (.plain (.movImm v r)) := by
    rw [text_of_cell hcell, h]
    exact opAt_argument stub.head before after (v, r)
  have hoff : k = textLength stub.head + 5 + 10 * before.length + 2 := by omega
  rw [hoff]
  exact loadWord_movImm hinst ho

end Installed

/-- What the operands of a stub are, as arguments of the resolver. -/
def Stub.operands (function : U64) : Stub → ResolveArguments
  | .function moduleName functionName moduleHandle functionAddress =>
      ⟨moduleName, functionName, moduleHandle, functionAddress, 0, function⟩
  | .kernelFunction functionName functionAddress =>
      ⟨0, functionName, 0, 0, functionAddress, function⟩
  | .functionAndKernelFunction moduleName functionName moduleHandle userFunctionAddress
      kernelFunctionAddress =>
      ⟨moduleName, functionName, moduleHandle, userFunctionAddress, kernelFunctionAddress, function⟩
  | .syscallAndKernelFunction functionName functionAddress _ =>
      ⟨0, functionName, 0, 0, functionAddress, function⟩
  | .syscall _ => ⟨0, 0, 0, 0, 0, function⟩

/-- The marker and the kind, in the first two bytes. -/
theorem marker_eq {stub : Stub} {function : U64} {symbol : StubSymbol → U64} {mem : U64 → Byte}
    (hinst : stub.Installed function symbol mem) :
    mem function = 0xa8 ∧ mem (function + 1) = stub.type := by
  have ho : opAt (stub.text function) 0 = some (.plain (.testAl stub.type)) := by
    cases stub <;> rfl
  have h0 := byte_of_plain hinst ho (j := 0) rfl
  have h1 := byte_of_plain hinst ho (j := 1) rfl
  rw [BitVec.add_zero] at h0
  exact ⟨h0, h1⟩

/-- `ps4Resolve` finds the operands the template put there. -/
theorem ps4ResolveOperands_installed {stub : Stub} {function cell : U64}
    {symbol : StubSymbol → U64} {mem : U64 → Byte} {kernel : Bool}
    (hcell : stub.cell kernel = some cell) (hinst : stub.Installed function symbol mem) :
    ps4ResolveOperands mem function = .inr (stub.operands function) := by
  obtain ⟨h0, h1⟩ := marker_eq hinst
  have operand := @operand_eq stub function cell symbol mem kernel hcell hinst
  have hhead := textLength_head stub
  cases stub with
  | function moduleName functionName moduleHandle functionAddress =>
      have hmodule := operand [] rfl (k := 32) (by rw [hhead]; rfl)
      have hsymbol := operand [_] rfl (k := 42) (by rw [hhead]; rfl)
      have hid := operand [_, _] rfl (k := 52) (by rw [hhead]; rfl)
      have huser := operand [_, _, _] rfl (k := 62) (by rw [hhead]; rfl)
      have hfn := operand [_, _, _, _] rfl (k := 72) (by rw [hhead]; rfl)
      simp only [ps4ResolveOperands, h0, h1, Stub.type, hmodule, hsymbol, hid, huser, hfn]
      simp [Stub.operands]
  | kernelFunction functionName functionAddress =>
      have hsymbol := operand [] rfl (k := 32) (by rw [hhead]; rfl)
      have hkernel := operand [_] rfl (k := 42) (by rw [hhead]; rfl)
      have hfn := operand [_, _] rfl (k := 52) (by rw [hhead]; rfl)
      simp only [ps4ResolveOperands, h0, h1, Stub.type, hsymbol, hkernel, hfn]
      simp [Stub.operands]
  | functionAndKernelFunction moduleName functionName moduleHandle user kernel =>
      have hmodule := operand [] rfl (k := 64) (by rw [hhead]; rfl)
      have hsymbol := operand [_] rfl (k := 74) (by rw [hhead]; rfl)
      have hid := operand [_, _] rfl (k := 84) (by rw [hhead]; rfl)
      have huser := operand [_, _, _] rfl (k := 94) (by rw [hhead]; rfl)
      have hkernel := operand [_, _, _, _] rfl (k := 104) (by rw [hhead]; rfl)
      have hfn := operand [_, _, _, _, _] rfl (k := 114) (by rw [hhead]; rfl)
      simp only [ps4ResolveOperands, h0, h1, Stub.type, hmodule, hsymbol, hid, huser, hkernel, hfn]
      simp [Stub.operands]
  | syscallAndKernelFunction functionName functionAddress number =>
      have hsymbol := operand [] rfl (k := 56) (by rw [hhead]; rfl)
      have hkernel := operand [_] rfl (k := 66) (by rw [hhead]; rfl)
      have hfn := operand [_, _] rfl (k := 76) (by rw [hhead]; rfl)
      simp only [ps4ResolveOperands, h0, h1, Stub.type, hsymbol, hkernel, hfn]
      simp [Stub.operands]
  | syscall number => cases hcell

/-! ### The six registers -/

/-- The arguments a call finds in the registers. -/
def passed (t : State) : ResolveArguments :=
  ⟨t.reg .rdi, t.reg .rsi, t.reg .rdx, t.reg .rcx, t.reg .r8, t.reg .r9⟩

/-- What a stub passes for a caller in state `s`. -/
def Stub.passes (function : U64) (s : State) : Stub → ResolveArguments
  | .function moduleName functionName moduleHandle functionAddress =>
      ⟨moduleName, functionName, moduleHandle, functionAddress, s.reg .r8, function⟩
  | .kernelFunction functionName functionAddress =>
      ⟨s.reg .rdi, functionName, s.reg .rdx, s.reg .rcx, functionAddress, function⟩
  | .functionAndKernelFunction moduleName functionName moduleHandle userFunctionAddress
      kernelFunctionAddress =>
      ⟨moduleName, functionName, moduleHandle, userFunctionAddress, kernelFunctionAddress, function⟩
  | .syscallAndKernelFunction functionName functionAddress _ =>
      ⟨functionName, s.reg .rsi, s.reg .rdx, s.reg .rcx, functionAddress, function⟩
  | .syscall _ => passed s

theorem passed_eq {stub : Stub} {function ret : U64} {s t : State}
    (h : ResolverCall (stub.arguments function) ret s t) : passed t = stub.passes function s := by
  have hdi := h.argument .rdi (by decide) (by decide) (by decide)
  have hsi := h.argument .rsi (by decide) (by decide) (by decide)
  have hdx := h.argument .rdx (by decide) (by decide) (by decide)
  have hcx := h.argument .rcx (by decide) (by decide) (by decide)
  have h8 := h.argument .r8 (by decide) (by decide) (by decide)
  have h9 := h.argument .r9 (by decide) (by decide) (by decide)
  unfold passed
  rw [hdi, hsi, hdx, hcx, h8, h9]
  cases stub <;> rfl

/-- The callers for which the registers a stub does not load are what they should be. -/
def Stub.AgreesFor (s : State) : Stub → Prop
  | .function .. => s.reg .r8 = 0
  | .kernelFunction .. => s.reg .rdi = 0 ∧ s.reg .rdx = 0 ∧ s.reg .rcx = 0
  | .functionAndKernelFunction .. => True
  | .syscallAndKernelFunction functionName .. =>
      functionName = 0 ∧ s.reg .rsi = 0 ∧ s.reg .rdx = 0 ∧ s.reg .rcx = 0
  | .syscall _ => False

theorem passes_eq_operands_iff {stub : Stub} {function cell : U64} {kernel : Bool}
    (hcell : stub.cell kernel = some cell) (s : State) :
    stub.passes function s = stub.operands function ↔ stub.AgreesFor s := by
  cases stub with
  | syscallAndKernelFunction functionName functionAddress number =>
      simp only [Stub.passes, Stub.operands, Stub.AgreesFor, ResolveArguments.mk.injEq, and_true]
      refine and_congr_right fun h => ?_
      rw [h]
  | syscall number => cases hcell
  | _ => simp [Stub.operands, Stub.passes, Stub.AgreesFor]

/--
**When a stub and `ps4Resolve` pass the same arguments.**

For a stub that resolves itself, whatever its operands are and wherever the things it
calls are linked.
-/
theorem stub_agrees_iff (stub : Stub) (function cell : U64) (symbol : StubSymbol → U64)
    (s : State) (hrip : s.rip = function) (hcell : stub.cell (onKernelStack s) = some cell)
    (hempty : loadWord s.mem cell = 0) (hinst : stub.Installed function symbol s.mem) :
    (∃ t, Leaves (stub.placed function none) s
        (.called .ps4ResolveModuleAndSymbolOrKernelSymbol) t ∧
      ps4ResolveOperands s.mem function = .inr (passed t)) ↔ stub.AgreesFor s := by
  obtain ⟨t, ht, hcall⟩ := stub_calls hcell hrip hempty
  rw [ps4ResolveOperands_installed hcell hinst]
  rw [← passes_eq_operands_iff hcell s, ← passed_eq hcall]
  constructor
  · rintro ⟨t', ht', heq⟩
    obtain ⟨-, rfl⟩ := ht.unique ht'
    exact (Sum.inr.inj heq).symm
  · intro heq
    exact ⟨t, ht, congrArg Sum.inr heq.symm⟩

/-- With zero in the registers the stub does not load, the two agree. -/
theorem caller_agrees :
    ∃ t, Leaves (userStub.placed 0x400000 none) (caller userStub 0x7fff0000 0 0)
        (.called .ps4ResolveModuleAndSymbolOrKernelSymbol) t ∧
      ps4ResolveOperands (caller userStub 0x7fff0000 0 0).mem 0x400000 = .inr (passed t) :=
  (stub_agrees_iff userStub 0x400000 0x600000 (fun _ => 0x410000)
    (caller userStub 0x7fff0000 0 0) rfl rfl (caller_empty ..)
    (caller_installed userStub 0x7fff0000 0 0)).mpr rfl

/-- A caller with anything else in `%r8` passes it on as the address of a kernel cell. -/
theorem caller_not_agrees :
    ¬ ∃ t, Leaves (userStub.placed 0x400000 none) (caller userStub 0x7fff0000 1 0)
        (.called .ps4ResolveModuleAndSymbolOrKernelSymbol) t ∧
      ps4ResolveOperands (caller userStub 0x7fff0000 1 0).mem 0x400000 = .inr (passed t) := by
  have hcell : userStub.cell (onKernelStack (caller userStub 0x7fff0000 1 0)) = some 0x600000 := rfl
  rintro ⟨t, ht, heq⟩
  obtain ⟨t', ht', hcall⟩ := stub_calls hcell rfl (caller_empty ..)
  obtain ⟨-, rfl⟩ := ht.unique ht'
  have hinst := caller_installed userStub 0x7fff0000 1 0
  rw [ps4ResolveOperands_installed hcell hinst, passed_eq hcall] at heq
  have hr8 : (0 : U64) = 1 := congrArg ResolveArguments.kernelAddress (Sum.inr.inj heq)
  revert hr8
  decide

end LibPS4
