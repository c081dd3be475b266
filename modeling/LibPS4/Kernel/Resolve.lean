/-
The resolver inside the kernel, `source/ps4/internal/resolve.c` over `source/ps4/kernel.c`.

In the kernel the resolver asks `ps4KernelDlSym`, so its answer is not one of the outside: it
is looked up in the kernel's own image, in memory as it is at the call.  Nothing is stored
before the lookup, and there is at most one.  A lookup that does not return takes the resolver
with it.
-/
import LibPS4.Kernel.Image

namespace LibPS4

open Effects

/-- The name that is looked up for these arguments, if it gets that far. -/
def lookedUpName (mem : U64 → Byte) (arguments : ResolveArguments) : Option U64 :=
  if ps4StubType mem arguments.function = ps4StubTypeFunction ∨ arguments.symbol = 0 ∨
      arguments.kernelAddress = 0 then
    none
  else
    some arguments.symbol

/-- `ps4ResolveModuleAndSymbolOrKernelSymbol` on the kernel's stack `sp` and without handlers.
The rest of `ext` is never asked. -/
def resolveInKernel (ext : Externals) (sp : U64) (arguments : ResolveArguments) (w : World)
    (k : PS4KernelState) :
    Except ImageFault ((Except NullUse PS4ResolveStatus × World) × PS4KernelState) :=
  match lookedUpName w.mem arguments with
  | none =>
      .ok ((ps4ResolveModuleAndSymbolOrKernelSymbol Handlers.none ext sp arguments w).returned, k)
  | some name => do
      let (v, k) ← Prog.result w.mem (kernelDlSym name k)
      return ((ps4ResolveModuleAndSymbolOrKernelSymbol Handlers.none
        { ext with kernelDlSym := fun _ => v } sp arguments w).returned, k)

/-- `ps4Resolve`, likewise. -/
def ps4ResolveInKernel (ext : Externals) (sp function : U64) (w : World) (k : PS4KernelState) :
    Except ImageFault ((Except NullUse PS4ResolveStatus × World) × PS4KernelState) :=
  match ps4ResolveOperands w.mem function with
  | .inl status => .ok ((.ok status, w), k)
  | .inr arguments => resolveInKernel ext sp arguments w k

/-- One stub after the other, by stack pointer and address. -/
def ps4ResolveAllInKernel (ext : Externals) : List (U64 × U64) → World → PS4KernelState →
    Except ImageFault (List (Except NullUse PS4ResolveStatus) × World × PS4KernelState)
  | [], w, k => .ok ([], w, k)
  | (sp, function) :: rest, w, k => do
      let (r, k) ← ps4ResolveInKernel ext sp function w k
      let (statuses, w, k) ← ps4ResolveAllInKernel ext rest r.2 k
      return (r.1 :: statuses, w, k)

end LibPS4
