/-
The stubs of `include/ps4/internal/stub.h` and the two routines of
`source/ps4/internal/pushpop.s`.

A stub is an assembly template instantiated with addresses.  The four kinds that
resolve themselves share everything from `.LfunctionR` on: save the registers, load some
of the six arguments, call the resolver, restore, and retry or return.  `slowPath` is
that common part; which arguments a kind loads, and into which registers, is its own.
-/
import LibPS4.Base.X64

namespace LibPS4

open Effects X64

/-! ### Saving and restoring -/

def ps4Pushall : List FrameInstr :=
  [.sub 240,
    .store .rax 8, .load 240 .rax,
    .storeX 7 232, .storeX 6 216, .storeX 5 200, .storeX 4 184,
    .storeX 3 168, .storeX 2 152, .storeX 1 136, .storeX 0 120,
    .store .r15 104, .store .r14 96, .store .r13 88, .store .r12 80, .store .r10 72,
    .store .r9 64, .store .r8 56, .store .rdi 48, .store .rsi 40, .store .rdx 32,
    .store .rcx 24, .store .rbx 16,
    .store .rax 0]

def ps4Popall : List FrameInstr :=
  [.load 0 .rax, .store .rax 240,
    .load 8 .rax, .load 16 .rbx, .load 24 .rcx, .load 32 .rdx, .load 40 .rsi, .load 48 .rdi,
    .load 56 .r8, .load 64 .r9,
    .load 72 .r10, .load 80 .r12, .load 88 .r13, .load 96 .r14, .load 104 .r15,
    .loadX 120 0, .loadX 136 1, .loadX 152 2, .loadX 168 3,
    .loadX 184 4, .loadX 200 5, .loadX 216 6, .loadX 232 7,
    .add 240]

/-! ### Templates -/

/-- The labels of a template: the function itself, `.LfunctionK`, `.LfunctionR` and
`.LfunctionE`. -/
inductive StubLabel
  | function | kernel | resolve | exit
  deriving DecidableEq, Repr

/-- The symbols a template refers to. -/
inductive StubSymbol
  | ps4Pushall | ps4Popall | ps4ResolveModuleAndSymbolOrKernelSymbol | ps4Kerncall
  deriving DecidableEq, Repr

abbrev StubText := List (Line StubLabel StubSymbol)

/-- A stub with its operands. -/
inductive Stub
  | function (moduleName functionName moduleHandle functionAddress : U64)
  | kernelFunction (functionName functionAddress : U64)
  | functionAndKernelFunction
      (moduleName functionName moduleHandle userFunctionAddress kernelFunctionAddress : U64)
  | syscallAndKernelFunction (functionName functionAddress : U64) (number : U32)
  | syscall (number : U32)
  deriving DecidableEq, Repr

/-- `PS4StubType`. -/
def Stub.type : Stub → Byte
  | .function .. => 0
  | .kernelFunction .. => 1
  | .functionAndKernelFunction .. => 2
  | .syscallAndKernelFunction .. => 3
  | .syscall .. => 4

/-- Look up a cell, and jump through it or resolve. -/
def throughCell (cell : U64) : StubText :=
  [.op (.plain (.loadAbs cell)),
    .op (.plain (.xchgRax .r11)),
    .op (.plain (.test .r11)),
    .op (.jz .resolve),
    .op (.jmpReg .r11)]

/-- Is the stack a kernel stack?  If so, to `.LfunctionK`. -/
def testMode : StubText :=
  [.op (.plain (.mov .rsp .rax)),
    .op (.plain (.shr 48 .rax)),
    .op (.plain (.test .rax)),
    .op (.jnz .kernel)]

/-- From `.LfunctionR` to the end, loading these arguments. -/
def slowPath (arguments : List (U64 × Reg)) : StubText :=
  [.label .resolve, .op (.call .ps4Pushall)] ++
    arguments.map (fun a => .op (.plain (.movImm a.1 a.2))) ++
    [.op (.plain (.xor .rax)),
      .op (.call .ps4ResolveModuleAndSymbolOrKernelSymbol),
      .op (.plain (.mov .rax .r11)),
      .op (.call .ps4Popall),
      .op (.plain (.test .r11)),
      .op (.jnz .exit),
      .op (.jmp .function),
      .label .exit,
      .op .ret]

/-- The arguments a stub at `function` loads before it calls the resolver. -/
def Stub.arguments (function : U64) : Stub → List (U64 × Reg)
  | .function moduleName functionName moduleHandle functionAddress =>
      [(moduleName, .rdi), (functionName, .rsi), (moduleHandle, .rdx), (functionAddress, .rcx),
        (function, .r9)]
  | .kernelFunction functionName functionAddress =>
      [(functionName, .rsi), (functionAddress, .r8), (function, .r9)]
  | .functionAndKernelFunction moduleName functionName moduleHandle userFunctionAddress
      kernelFunctionAddress =>
      [(moduleName, .rdi), (functionName, .rsi), (moduleHandle, .rdx), (userFunctionAddress, .rcx),
        (kernelFunctionAddress, .r8), (function, .r9)]
  | .syscallAndKernelFunction functionName functionAddress _ =>
      [(functionName, .rdi), (functionAddress, .r8), (function, .r9)]
  | .syscall _ => []

/-- What comes before `.LfunctionR`. -/
def Stub.head : Stub → StubText
  | .function _ _ _ functionAddress =>
      [.label .function, .op (.plain (.testAl 0)), .op (.plain (.mov .rax .r11))] ++
        throughCell functionAddress
  | .kernelFunction _ functionAddress =>
      [.label .function, .op (.plain (.testAl 1)), .op (.plain (.mov .rax .r11))] ++
        throughCell functionAddress
  | .functionAndKernelFunction _ _ _ userFunctionAddress kernelFunctionAddress =>
      [.label .function, .op (.plain (.testAl 2)), .op (.plain (.mov .rax .r11))] ++
        testMode ++ throughCell userFunctionAddress ++
        [.label .kernel] ++ throughCell kernelFunctionAddress
  | .syscallAndKernelFunction _ functionAddress number =>
      [.label .function, .op (.plain (.testAl 3)), .op (.plain (.mov .rax .r11))] ++
        testMode ++ [.op (.plain (.movImm32 number .rax)), .op (.jmpSym .ps4Kerncall)] ++
        [.label .kernel] ++ throughCell functionAddress
  | .syscall number =>
      [.label .function, .op (.plain (.testAl 4)), .op (.plain (.movImm32 number .rax)),
        .op (.jmpSym .ps4Kerncall)]

/-- The whole text of a stub at `function`; a plain syscall has no slow path. -/
def Stub.text (function : U64) (stub : Stub) : StubText :=
  match stub with
  | .syscall _ => stub.head
  | _ => stub.head ++ slowPath (stub.arguments function)

/-- A stub in memory, with the resolver it is linked against, if any.  `ps4Kerncall` is
only ever jumped to. -/
def Stub.placed (stub : Stub) (function : U64) (resolver : Option (State → State)) :
    Placed StubLabel StubSymbol where
  text := stub.text function
  base := function
  called
    | .ps4Pushall => some (runRoutine ps4Pushall)
    | .ps4Popall => some (runRoutine ps4Popall)
    | .ps4ResolveModuleAndSymbolOrKernelSymbol => resolver
    | .ps4Kerncall => none

end LibPS4
