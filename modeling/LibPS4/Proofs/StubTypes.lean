/-
The kind of a stub, read in two places.

A template marks its kind in the operand of its first instruction, `test $k, %al`, which
is two bytes long.  `ps4Resolve` takes the kind from the second byte.  The macro
`ps4StubType` takes the third one, where the next instruction starts: `mov %rax, %r11` for
the kinds that resolve themselves, `movq $n, %rax` for a plain syscall.  No kind is read
back by the macro as what it is, so the comparisons of the resolver with a kind never hold
and only its mode decides on the branch.
-/
import LibPS4.Proofs.Handlers

namespace LibPS4

open Effects X64

/-! ### What the macro reads -/

/-- The opcode of a plain syscall's second instruction. -/
theorem ps4StubType_syscall {number : U32} {function : U64} {symbol : StubSymbol → U64}
    {mem : U64 → Byte} (hinst : (Stub.syscall number).Installed function symbol mem) :
    ps4StubType mem function = 0x48 := by
  have ho : opAt ((Stub.syscall number).text function) 2
      = some (.plain (.movImm32 number .rax)) := rfl
  have hbyte : mem (function + 2) = 0x48 := byte_of_plain hinst ho (j := 0) rfl
  rw [ps4StubType, hbyte]
  rfl

theorem ps4StubType_eq {stub : Stub} {function : U64} {symbol : StubSymbol → U64}
    {mem : U64 → Byte} (hinst : stub.Installed function symbol mem) :
    ps4StubType mem function = if stub.type = 4 then 0x48 else 0x49 := by
  -- In the kernel every kind but the last has a cell.
  have hcells : ∀ cell, stub.cell true = some cell → ps4StubType mem function = 0x49 :=
    fun cell hcell => ps4StubType_installed hcell hinst
  cases stub with
  | syscall number => exact ps4StubType_syscall hinst
  | _ => exact hcells _ rfl

/-- It is no kind at all. -/
theorem ps4StubType_gt {stub : Stub} {function : U64} {symbol : StubSymbol → U64}
    {mem : U64 → Byte} (hinst : stub.Installed function symbol mem) :
    4 < ps4StubType mem function := by
  rw [ps4StubType_eq hinst]
  split <;> decide

/-! ### What follows for the resolver -/

/-- What the kind is there for: the macro reads what `ps4Resolve` dispatches on, a kernel
function is resolved in the kernel branch whatever the mode, and a user function called in
kernel mode is sent away with nothing stored.  `arguments` is any call of the resolver
with the stub's own address, as the stub itself and `ps4Resolve` make it. -/
structure TagConsistent (stub : Stub) (arguments : ResolveArguments) (mem : U64 → Byte) :
    Prop where
  tag : ps4StubType mem arguments.function = (mem (arguments.function + 1)).toNat
  branch : ∀ sp lsm, kernelBranch sp arguments ⟨mem, lsm, []⟩ = true ↔
    ps4KernelIsInKernel sp = true ∨ stub.type = 1
  guard : stub.type = 0 → ∀ ext sp lsm, ps4KernelIsInKernel sp = true →
    (ps4ResolveModuleAndSymbolOrKernelSymbol Handlers.none ext sp arguments
      ⟨mem, lsm, []⟩).returned = (.ok .argumentError, ⟨mem, lsm, []⟩)

section Misread

variable {stub : Stub} {symbol : StubSymbol → U64} {mem : U64 → Byte}
  {arguments : ResolveArguments}

theorem not_tagConsistent (hinst : stub.Installed arguments.function symbol mem) :
    ¬ TagConsistent stub arguments mem := by
  intro h
  have htag := h.tag
  have hgt := ps4StubType_gt hinst
  have hkind : stub.type.toNat ≤ 4 := by
    cases stub <;> simp [Stub.type]
  rw [htag, (marker_eq hinst).2] at hgt
  omega

/-- Only the mode decides. -/
theorem kernelBranch_eq (hinst : stub.Installed arguments.function symbol mem) (sp lsm : U64) :
    kernelBranch sp arguments ⟨mem, lsm, []⟩ = ps4KernelIsInKernel sp := by
  have hgt := ps4StubType_gt hinst
  have hno : decide (ps4StubType mem arguments.function = ps4StubTypeKernelFunction) = false := by
    rw [decide_eq_false_iff_not, ps4StubTypeKernelFunction]
    omega
  show (ps4KernelIsInKernel sp ||
    decide (ps4StubType mem arguments.function = ps4StubTypeKernelFunction)) = _
  rw [hno, Bool.or_false]

theorem resolver_inKernel (ext : Externals) {sp : U64} (w : World)
    (hsp : ps4KernelIsInKernel sp = true) :
    ps4ResolveModuleAndSymbolOrKernelSymbol Handlers.none ext sp arguments w
      = resolveKernelSymbol Handlers.none ext arguments.function
        { arguments with isKernel := true, status := .interceptContinue } w := by
  rw [resolver_none]
  dsimp only
  rw [hsp, Bool.true_or, if_pos rfl]

/-- What sends a call away in the kernel is the check for NULL. -/
theorem sentAway_iff (hinst : stub.Installed arguments.function symbol mem) {sp : U64}
    (hsp : ps4KernelIsInKernel sp = true) :
    (∀ ext lsm, (ps4ResolveModuleAndSymbolOrKernelSymbol Handlers.none ext sp arguments
        ⟨mem, lsm, []⟩).returned = (.ok .argumentError, ⟨mem, lsm, []⟩)) ↔
      arguments.symbol = 0 ∨ arguments.kernelAddress = 0 := by
  constructor
  · intro h
    by_contra hgood
    have hno : ps4StubType mem arguments.function ≠ ps4StubTypeFunction := by
      have hgt := ps4StubType_gt hinst
      rw [ps4StubTypeFunction]
      omega
    have hmem := kernel_stores findsAll
      { arguments with isKernel := true, status := .interceptContinue } ⟨mem, 0, []⟩
      arguments.function hno hgood
    have hworld := congrArg Prod.snd (h findsAll 0)
    dsimp only [Resolution.returned] at hworld
    rw [← resolver_inKernel findsAll ⟨mem, 0, []⟩ hsp, hworld] at hmem
    exact nomatch hmem
  · intro h ext lsm
    rw [resolver_inKernel ext ⟨mem, lsm, []⟩ hsp, kernel_guarded ext _ _ arguments.function h,
      Resolution.returned]

end Misread

/--
**The kind of a stub is never read consistently.**

For no kind and no operands.  What the macro reads is the first byte of the second
instruction, so the resolver takes its kernel branch exactly in kernel mode, a kernel
function on a user stack included, and a call in kernel mode is sent away exactly where
the name or the kernel's cell is NULL, whatever kind of stub it comes from.
-/
theorem stubType_misread (stub : Stub) (symbol : StubSymbol → U64) (mem : U64 → Byte)
    (arguments : ResolveArguments) (hinst : stub.Installed arguments.function symbol mem) :
    ¬ TagConsistent stub arguments mem ∧
      ps4StubType mem arguments.function = (if stub.type = 4 then 0x48 else 0x49) ∧
      (∀ sp lsm, kernelBranch sp arguments ⟨mem, lsm, []⟩ = ps4KernelIsInKernel sp) ∧
      ∀ sp, ps4KernelIsInKernel sp = true →
        ((∀ ext lsm, (ps4ResolveModuleAndSymbolOrKernelSymbol Handlers.none ext sp arguments
            ⟨mem, lsm, []⟩).returned = (.ok .argumentError, ⟨mem, lsm, []⟩)) ↔
          arguments.symbol = 0 ∨ arguments.kernelAddress = 0) := by
  refine ⟨not_tagConsistent hinst, ps4StubType_eq hinst, fun sp lsm => ?_, fun sp hsp => ?_⟩
  · exact kernelBranch_eq hinst sp lsm
  · exact sentAway_iff hinst hsp

/-- A user function, called by a caller that has 1 in `%r8`. -/
theorem caller_misread :
    ¬ TagConsistent userStub (userStub.passes 0x400000 (caller userStub 0xffff800000010000 1 0))
        (caller userStub 0xffff800000010000 1 0).mem ∧
      ps4StubType (caller userStub 0xffff800000010000 1 0).mem 0x400000 = 0x49 := by
  have h := stubType_misread userStub (fun _ => 0x410000)
    (caller userStub 0xffff800000010000 1 0).mem
    (userStub.passes 0x400000 (caller userStub 0xffff800000010000 1 0))
    (caller_installed userStub 0xffff800000010000 1 0)
  exact ⟨h.1, h.2.1⟩

/-- A kernel function whose cell is at `0x600000`. -/
def kernelStub : Stub := .kernelFunction 0x500010 0x600000

/-- On a user stack the kernel function is resolved in the branch for user functions. -/
theorem kernelStub_not_consistent :
    ¬ ∀ (stub : Stub) (symbol : StubSymbol → U64) (mem : U64 → Byte)
      (arguments : ResolveArguments), stub.Installed arguments.function symbol mem →
        TagConsistent stub arguments mem := by
  intro h
  have hinst : kernelStub.Installed
      (kernelStub.passes 0x400000 (caller kernelStub 0x7fff0000 0 0)).function (fun _ => 0x410000)
      (caller kernelStub 0x7fff0000 0 0).mem := caller_installed kernelStub 0x7fff0000 0 0
  have hkernel := ((h _ _ _ _ hinst).branch 0x7fff0000 0).mpr (.inr rfl)
  rw [kernelBranch_eq hinst] at hkernel
  exact absurd hkernel (by decide)

end LibPS4
