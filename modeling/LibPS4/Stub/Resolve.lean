/-
The resolver of `source/ps4/internal/resolve.c`.

The resolver reads and writes the program's memory through pointers it is given, asks
the kernel and the module loader for addresses, and lets three handlers interfere.  What
the outside answers is a parameter, `Externals`; what the handlers do to the state and to
memory is one, too.  The world records every cell stored through, with its width.

The C function is one chain of checks that may each return.  A check is written as the
code that runs when it lets the resolver go on, which is what the handlers may make it do
even where it found something wrong.  Using a NULL pointer ends the run; so does handing one
to `ps4KernelDlSym`, which reads the name, and to syscall 591 for an address it has found.
The code of a stub is read wherever `function` points.
-/
import LibPS4.Base.Bytes

namespace LibPS4

open Effects

/-! ### Data -/

inductive PS4ResolveStatus
  | success
  | interceptContinue
  | interceptFailure
  | argumentError
  | kernelLoadError
  | lsmResolveError
  | moduleLoadError
  | functionResolveError
  | kernelFunctionResolveError
  deriving DecidableEq, Repr

/-- The arguments of the resolver. -/
structure ResolveArguments where
  module : U64
  symbol : U64
  moduleId : U64
  userAddress : U64
  kernelAddress : U64
  function : U64
  deriving DecidableEq, Repr

structure PS4ResolveState extends ResolveArguments where
  isKernel : Bool
  status : PS4ResolveStatus
  deriving DecidableEq, Repr

/-- Memory, the static `lsm`, and the cells stored through so far with their widths. -/
structure World where
  mem : U64 → Byte
  lsm : U64
  written : List (U64 × Nat)

/-- Store `n` bytes through a pointer. -/
def World.store (w : World) (a : U64) (n v : Nat) : World :=
  { w with
    mem := Prog.replay (span a n (byteOf v)) w.mem
    written := w.written ++ [(a, n)] }

/-- What the outside answers. -/
structure Externals where
  /-- `k` after syscall 594 for `libkernel.sprx`. -/
  libkernel : U32
  /-- Syscall 591 for `sceKernelLoadStartModule`: its result, and what it stored. -/
  findLsm : U32 → U64 × Option U64
  /-- A call of `lsm` with the name of a module. -/
  lsm : U64 → U64 → U32
  /-- Syscall 591 for a symbol of a module. -/
  findSymbol : U32 → U64 → U64 × Option U64
  kernelDlSym : U64 → U64

abbrev PS4ResolveHandler := PS4ResolveState → World → PS4ResolveStatus × PS4ResolveState × World

/-- `ps4ResolveErrorHandler`, `ps4ResolvePreHandler` and `ps4ResolvePostHandler`. -/
structure Handlers where
  error : Option PS4ResolveHandler
  pre : Option PS4ResolveHandler
  post : Option PS4ResolveHandler

/-- No handlers installed. -/
def Handlers.none : Handlers := ⟨Option.none, Option.none, Option.none⟩

/-- A NULL pointer was dereferenced or called. -/
inductive NullUse
  | null
  deriving DecidableEq, Repr

/-- How the resolver ends: what it returns, and the world and the state it ends in. -/
structure Resolution where
  status : Except NullUse PS4ResolveStatus
  world : World
  state : PS4ResolveState

/-- What the caller gets to see. -/
def Resolution.returned (r : Resolution) : Except NullUse PS4ResolveStatus × World :=
  (r.status, r.world)

/-! ### The resolver -/

def ps4KernelIsKernelAddress (addr : U64) : Bool := addr >>> 48 != 0

/-- With `sp` its own stack pointer. -/
def ps4KernelIsInKernel (sp : U64) : Bool := ps4KernelIsKernelAddress sp

/-- The macro `ps4StubType`: a byte of the code as a signed number. -/
def ps4StubType (mem : U64 → Byte) (fn : U64) : Int := (mem (fn + 2)).toInt

def ps4StubTypeFunction : Int := 0
def ps4StubTypeKernelFunction : Int := 1

def ps4ResolveCallHandler (handler : Option PS4ResolveHandler) (state : PS4ResolveState)
    (status : PS4ResolveStatus) (w : World) : PS4ResolveStatus × PS4ResolveState × World :=
  let state := { state with status }
  match handler with
  | none => (status, state, w)
  | some handler => handler state w

abbrev Continuation := PS4ResolveState → World → Resolution

/-- Ask a handler, and go on if it says so. -/
def intercept (handler : Option PS4ResolveHandler) (status : PS4ResolveStatus)
    (state : PS4ResolveState) (w : World) (go : Continuation) : Resolution :=
  match ps4ResolveCallHandler handler state status w with
  | (status, state, w) => if status ≠ .interceptContinue then ⟨.ok status, w, state⟩ else go state w

/-- `if(bad) if((status = ...) != PS4ResolveStatusInterceptContinue) return status;` -/
def failIf (bad : Bool) (handler : Option PS4ResolveHandler) (status : PS4ResolveStatus)
    (state : PS4ResolveState) (w : World) (go : Continuation) : Resolution :=
  if bad then intercept handler status state w go else go state w

/-- Use a pointer. -/
def through (pointer : U64) (state : PS4ResolveState) (w : World) (go : Resolution) :
    Resolution :=
  if pointer = 0 then ⟨.error .null, w, state⟩ else go

/-- What syscall 591 stores through `userAddress`, if anything. -/
def storeAnswer (answer : Option U64) (state : PS4ResolveState) (w : World)
    (go : World → Resolution) : Resolution :=
  match answer with
  | some address =>
      through state.userAddress state w <| go (w.store state.userAddress 8 address.toNat)
  | none => go w

section Resolver

variable (handlers : Handlers) (ext : Externals)

/-- The post handler and the final status. -/
def finish : Continuation := fun state w =>
  intercept handlers.post .interceptContinue state w fun state w => ⟨.ok .success, w, state⟩

/-- `ps4KernelDlSym` reads the name it is given. -/
def resolveKernelSymbol (function : U64) : Continuation := fun state w =>
  failIf (ps4StubType w.mem function = ps4StubTypeFunction) handlers.error .argumentError
    state w fun state w =>
  failIf (state.symbol = 0 || state.kernelAddress = 0) handlers.error .argumentError
    state w fun state w =>
  through state.symbol state w <|
  through state.kernelAddress state w <|
  let w := w.store state.kernelAddress 8 (ext.kernelDlSym state.symbol).toNat
  failIf (le64 w.mem state.kernelAddress = 0) handlers.error .kernelFunctionResolveError
    state w fun state w =>
  finish handlers state w

/-- Fill the static `lsm`. -/
def resolveLsm (state : PS4ResolveState) (w : World) (go : Continuation) : Resolution :=
  if w.lsm = 0 then
    failIf (ext.libkernel.toInt ≤ 0) handlers.error .kernelLoadError state w fun state w =>
    let w := match (ext.findLsm ext.libkernel).2 with
      | some address => { w with lsm := address }
      | none => w
    failIf ((ext.findLsm ext.libkernel).1 ≠ 0) handlers.error .lsmResolveError state w go
  else
    go state w

/-- Fill the cell of the module's handle. -/
def resolveModule (state : PS4ResolveState) (w : World) (go : Continuation) : Resolution :=
  through state.moduleId state w <|
  if (le32 w.mem state.moduleId).toInt ≤ 0 then
    resolveLsm handlers ext state w fun state w =>
    through w.lsm state w <|
    through state.moduleId state w <|
    let w := w.store state.moduleId 4 (ext.lsm w.lsm state.module).toNat
    failIf ((le32 w.mem state.moduleId).toInt ≤ 0) handlers.error .moduleLoadError state w go
  else
    go state w

/-- Fill the cell of the function. -/
def resolveSymbol : Continuation := fun state w =>
  through state.moduleId state w <|
  let answer := ext.findSymbol (le32 w.mem state.moduleId) state.symbol
  storeAnswer answer.2 state w fun w =>
  failIf (answer.1 ≠ 0) handlers.error .functionResolveError state w fun state w =>
  finish handlers state w

def resolveUserSymbol : Continuation := fun state w =>
  failIf (state.moduleId = 0 || state.userAddress = 0 || state.module = 0 || state.symbol = 0)
    handlers.error .argumentError state w fun state w =>
  resolveModule handlers ext state w fun state w =>
  resolveSymbol handlers ext state w

def ps4ResolveModuleAndSymbolOrKernelSymbol (sp : U64) (arguments : ResolveArguments)
    (w : World) : Resolution :=
  let state : PS4ResolveState :=
    { arguments with
      isKernel := ps4KernelIsInKernel sp
      status := .success }
  intercept handlers.pre .interceptContinue state w fun state w =>
  if state.isKernel || ps4StubType w.mem arguments.function = ps4StubTypeKernelFunction then
    resolveKernelSymbol handlers ext arguments.function state w
  else
    resolveUserSymbol handlers ext state w

/-! ### Resolving a stub by its address -/

/-- What `ps4Resolve` takes from the code of a stub: a status to return, or the arguments
of the resolver. -/
def ps4ResolveOperands (mem : U64 → Byte) (function : U64) :
    PS4ResolveStatus ⊕ ResolveArguments :=
  let operand (k : Nat) : U64 := le64 mem (function + BitVec.ofNat 64 k)
  let checked (fn : U64) (arguments : ResolveArguments) : PS4ResolveStatus ⊕ ResolveArguments :=
    if fn ≠ function then .inl .functionResolveError else .inr arguments
  if mem function ≠ 0xa8 then
    .inl .functionResolveError
  else if mem (function + 1) = 0x00 then
    checked (operand 72)
      { module := operand 32, symbol := operand 42, moduleId := operand 52,
        userAddress := operand 62, kernelAddress := 0, function }
  else if mem (function + 1) = 0x01 then
    checked (operand 52)
      { module := 0, symbol := operand 32, moduleId := 0, userAddress := 0,
        kernelAddress := operand 42, function }
  else if mem (function + 1) = 0x02 then
    checked (operand 114)
      { module := operand 64, symbol := operand 74, moduleId := operand 84,
        userAddress := operand 94, kernelAddress := operand 104, function }
  else if mem (function + 1) = 0x03 then
    checked (operand 76)
      { module := 0, symbol := operand 56, moduleId := 0, userAddress := 0,
        kernelAddress := operand 66, function }
  else if mem (function + 1) = 0x04 then
    .inl .success
  else
    .inl .functionResolveError

/-- The resolver's state is gone when it has returned. -/
def ps4Resolve (sp function : U64) (w : World) : Except NullUse PS4ResolveStatus × World :=
  match ps4ResolveOperands w.mem function with
  | .inl status => (.ok status, w)
  | .inr arguments =>
      (ps4ResolveModuleAndSymbolOrKernelSymbol handlers ext sp arguments w).returned

end Resolver

/-! ### Installing handlers -/

/-- The setters return the handler there was. -/
def ps4ResolveSetErrorHandler (handler : Option PS4ResolveHandler) (handlers : Handlers) :
    Option PS4ResolveHandler × Handlers :=
  (handlers.error, { handlers with error := handler })

def ps4ResolveSetPreHandler (handler : Option PS4ResolveHandler) (handlers : Handlers) :
    Option PS4ResolveHandler × Handlers :=
  (handlers.pre, { handlers with pre := handler })

def ps4ResolveSetPostHandler (handler : Option PS4ResolveHandler) (handlers : Handlers) :
    Option PS4ResolveHandler × Handlers :=
  (handlers.post, { handlers with post := handler })

end LibPS4
