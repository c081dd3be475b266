/-
A fragment of x86-64, enough for short hand-written stubs.

Two kinds of code are told apart.  A `Line` program is a piece of text with labels that
tests, jumps and calls; it is placed at an address, fetched by address and runs until
control leaves it.  A routine is a straight line of moves between registers and the
stack that ends in a return; it is called from a program and is run as a whole.  Where a
program calls something that is not a routine of this kind, the environment says what it
does to the machine; where the environment says nothing, the call is where a run ends.

The machine has the sixteen integer registers, the sixteen vector registers, the zero
flag, a byte memory and the instruction pointer.  The other flags are written by these
instructions and read by none of them.
-/
import LibPS4.Base.Bytes

namespace X64

open Effects

/-! ### The machine -/

inductive Reg
  | rax | rcx | rdx | rbx | rsp | rbp | rsi | rdi
  | r8 | r9 | r10 | r11 | r12 | r13 | r14 | r15
  deriving DecidableEq, Repr

/-- The number an instruction encodes a register by. -/
def Reg.number : Reg → Nat
  | .rax => 0 | .rcx => 1 | .rdx => 2 | .rbx => 3
  | .rsp => 4 | .rbp => 5 | .rsi => 6 | .rdi => 7
  | .r8 => 8 | .r9 => 9 | .r10 => 10 | .r11 => 11
  | .r12 => 12 | .r13 => 13 | .r14 => 14 | .r15 => 15

def Reg.all : List Reg :=
  [.rax, .rcx, .rdx, .rbx, .rsp, .rbp, .rsi, .rdi,
    .r8, .r9, .r10, .r11, .r12, .r13, .r14, .r15]

theorem Reg.mem_all (r : Reg) : r ∈ Reg.all := by cases r <;> decide

@[ext] structure State where
  reg : Reg → U64
  xmm : Fin 16 → BitVec 128
  zf : Bool
  mem : U64 → Byte
  rip : U64

/-- The little-endian word at `a`. -/
def loadWord (m : U64 → Byte) (a : U64) : U64 := le64 m a

def storeWord (m : U64 → Byte) (a v : U64) : U64 → Byte :=
  Prog.replay (span a 8 (byteOf v.toNat)) m

/-- The two words of a vector register. -/
def lower (v : BitVec 128) : U64 := v.extractLsb' 0 64
def upper (v : BitVec 128) : U64 := v.extractLsb' 64 64

namespace State

def setReg (s : State) (r : Reg) (v : U64) : State :=
  { s with reg := fun x => if x = r then v else s.reg x }

def setXmm (s : State) (x : Fin 16) (v : BitVec 128) : State :=
  { s with xmm := fun y => if y = x then v else s.xmm y }

def setRip (s : State) (a : U64) : State := { s with rip := a }

/-- Push a word. -/
def push (s : State) (v : U64) : State :=
  { s.setReg .rsp (s.reg .rsp - 8) with mem := storeWord s.mem (s.reg .rsp - 8) v }

/-- Return to the address on top of the stack. -/
def pop (s : State) : State :=
  { s.setReg .rsp (s.reg .rsp + 8) with rip := loadWord s.mem (s.reg .rsp) }

end State

/-! ### Straight lines over the stack -/

/-- Moves between registers and the stack; displacements are from `%rsp`. -/
inductive FrameInstr
  | sub (n : Nat)
  | add (n : Nat)
  | store (r : Reg) (disp : Nat)
  | load (disp : Nat) (r : Reg)
  | storeX (x : Fin 16) (disp : Nat)
  | loadX (disp : Nat) (x : Fin 16)
  deriving DecidableEq, Repr

def FrameInstr.exec (s : State) : FrameInstr → State
  | .sub n =>
      { s.setReg .rsp (s.reg .rsp - BitVec.ofNat 64 n) with
        zf := s.reg .rsp - BitVec.ofNat 64 n = 0 }
  | .add n =>
      { s.setReg .rsp (s.reg .rsp + BitVec.ofNat 64 n) with
        zf := s.reg .rsp + BitVec.ofNat 64 n = 0 }
  | .store r disp => { s with mem := storeWord s.mem (s.reg .rsp + BitVec.ofNat 64 disp) (s.reg r) }
  | .load disp r => s.setReg r (loadWord s.mem (s.reg .rsp + BitVec.ofNat 64 disp))
  | .storeX x disp =>
      let low := storeWord s.mem (s.reg .rsp + BitVec.ofNat 64 disp) (lower (s.xmm x))
      { s with mem := storeWord low (s.reg .rsp + BitVec.ofNat 64 (disp + 8)) (upper (s.xmm x)) }
  | .loadX disp x =>
      s.setXmm x (loadWord s.mem (s.reg .rsp + BitVec.ofNat 64 (disp + 8)) ++
        loadWord s.mem (s.reg .rsp + BitVec.ofNat 64 disp))

/-- Run a routine that ends in `ret`. -/
def runRoutine (body : List FrameInstr) (s : State) : State := (body.foldl FrameInstr.exec s).pop

/-! ### Text with labels -/

/-- Instructions on registers and absolute addresses. -/
inductive Instr
  | testAl (k : Byte)
  | mov (src dst : Reg)
  | loadAbs (a : U64)
  | movImm (v : U64) (dst : Reg)
  | movImm32 (v : U32) (dst : Reg)
  | xchgRax (r : Reg)
  | test (r : Reg)
  | xor (r : Reg)
  | shr (n : Nat) (r : Reg)
  deriving DecidableEq, Repr

def Instr.exec (s : State) : Instr → State
  | .testAl k => { s with zf := (s.reg .rax).setWidth 8 &&& k = 0 }
  | .mov src dst => s.setReg dst (s.reg src)
  | .loadAbs a => s.setReg .rax (loadWord s.mem a)
  | .movImm v dst => s.setReg dst v
  | .movImm32 v dst => s.setReg dst (v.signExtend 64)
  | .xchgRax r => (s.setReg .rax (s.reg r)).setReg r (s.reg .rax)
  | .test r => { s with zf := s.reg r = 0 }
  | .xor r => { s.setReg r 0 with zf := true }
  | .shr n r => { s.setReg r (s.reg r >>> n) with zf := s.reg r >>> n = 0 }

/-- An operation of a program with labels in `lab` that calls `sym`. -/
inductive Op (lab sym : Type)
  | plain (i : Instr)
  | jz (l : lab)
  | jnz (l : lab)
  | jmp (l : lab)
  | jmpSym (f : sym)
  | jmpReg (r : Reg)
  | call (f : sym)
  | ret
  deriving DecidableEq, Repr

inductive Line (lab sym : Type)
  | label (l : lab)
  | op (o : Op lab sym)
  deriving DecidableEq, Repr

/-! ### Encodings -/

/-- The `REX.W` prefix, with the high bits of the two register fields. -/
def rex (reg rm : Reg) : Byte :=
  0x48 ||| (if 8 ≤ reg.number then 4 else 0) ||| (if 8 ≤ rm.number then 1 else 0)

/-- A `ModRM` byte for two registers. -/
def modrm (reg rm : Reg) : Byte :=
  BitVec.ofNat 8 (0xc0 + 8 * (reg.number % 8) + rm.number % 8)

/-- The low `n` bytes of a word, in memory order. -/
def immediate (n : Nat) (v : U64) : List Byte := (List.range n).map (byteOf v.toNat)

def Instr.encode : Instr → List Byte
  | .testAl k => [0xa8, k]
  | .mov src dst => [rex src dst, 0x89, modrm src dst]
  | .loadAbs a => [0x48, 0xa1] ++ immediate 8 a
  | .movImm v dst => [rex .rax dst, BitVec.ofNat 8 (0xb8 + dst.number % 8)] ++ immediate 8 v
  | .movImm32 v dst => [rex .rax dst, 0xc7, modrm .rax dst] ++ immediate 4 (v.setWidth 64)
  | .xchgRax r => [rex .rax r, BitVec.ofNat 8 (0x90 + r.number % 8)]
  | .test r => [rex r r, 0x85, modrm r r]
  | .xor r => [rex r r, 0x31, modrm r r]
  | .shr n r => [rex .rax r, 0xc1, BitVec.ofNat 8 (0xe8 + r.number % 8), BitVec.ofNat 8 n]

section Text

variable {lab sym : Type} [DecidableEq lab]

/-- Conditional jumps are short, calls and jumps have 32-bit displacements. -/
def Op.length : Op lab sym → Nat
  | .plain i => i.encode.length
  | .jz _ | .jnz _ => 2
  | .jmp _ | .jmpSym _ | .call _ => 5
  | .jmpReg r => if 8 ≤ r.number then 3 else 2
  | .ret => 1

def Line.length : Line lab sym → Nat
  | .label _ => 0
  | .op o => o.length

/-- Where a label is, from the start of the text. -/
def offsetOf (l : lab) : List (Line lab sym) → Nat
  | [] => 0
  | .label l' :: rest => if l = l' then 0 else offsetOf l rest
  | .op o :: rest => o.length + offsetOf l rest

/-- The operation at an offset. -/
def opAt : List (Line lab sym) → Nat → Option (Op lab sym)
  | [], _ => none
  | .label _ :: rest, n => opAt rest n
  | .op o :: rest, n =>
      if n = 0 then some o else if n < o.length then none else opAt rest (n - o.length)

/-- The bytes of an operation at `rip`; `label` and `symbol` say where its targets are. -/
def Op.encode (label : lab → U64) (symbol : sym → U64) (rip : U64) : Op lab sym → List Byte
  | .plain i => i.encode
  | .jz l => 0x74 :: immediate 1 (label l - (rip + 2))
  | .jnz l => 0x75 :: immediate 1 (label l - (rip + 2))
  | .jmp l => 0xe9 :: immediate 4 (label l - (rip + 5))
  | .jmpSym f => 0xe9 :: immediate 4 (symbol f - (rip + 5))
  | .jmpReg r =>
      (if 8 ≤ r.number then [0x41] else []) ++ [0xff, BitVec.ofNat 8 (0xe0 + r.number % 8)]
  | .call f => 0xe8 :: immediate 4 (symbol f - (rip + 5))
  | .ret => [0xc3]

/-- The bytes of a text from `rip` on. -/
def assemble (label : lab → U64) (symbol : sym → U64) : U64 → List (Line lab sym) → List Byte
  | _, [] => []
  | rip, .label _ :: rest => assemble label symbol rip rest
  | rip, .op o :: rest =>
      o.encode label symbol rip ++ assemble label symbol (rip + BitVec.ofNat 64 o.length) rest

/-- The bytes of a text placed at `base`. -/
def assembleAt (symbol : sym → U64) (base : U64) (text : List (Line lab sym)) : List Byte :=
  assemble (fun l => base + BitVec.ofNat 64 (offsetOf l text)) symbol base text

/-! ### Running -/

/-- A text at an address, and what the things it calls do between call and return.  A
call of a symbol that is not linked leaves the text. -/
structure Placed (lab sym : Type) where
  text : List (Line lab sym)
  base : U64
  called : sym → Option (State → State)

/-- How control leaves a text. -/
inductive Exit (sym : Type)
  | jumped
  | tail (f : sym)
  | called (f : sym)
  | returned
  deriving DecidableEq, Repr

variable (p : Placed lab sym)

def Placed.labelAddress (l : lab) : U64 := p.base + BitVec.ofNat 64 (offsetOf l p.text)

/-- What an operation does: the state after it, and whether control left the text. -/
def Placed.exec (s : State) (o : Op lab sym) : Option (Exit sym) × State :=
  let next := s.rip + BitVec.ofNat 64 o.length
  match o with
  | .plain i => (none, (i.exec s).setRip next)
  | .jz l => (none, s.setRip (if s.zf then p.labelAddress l else next))
  | .jnz l => (none, s.setRip (if s.zf then next else p.labelAddress l))
  | .jmp l => (none, s.setRip (p.labelAddress l))
  | .jmpSym f => (some (.tail f), s)
  | .jmpReg r => (some .jumped, s.setRip (s.reg r))
  | .call f =>
      match p.called f with
      | some g => (none, g (s.push next))
      | none => (some (.called f), s.push next)
  | .ret => (some .returned, s.pop)

def Placed.step (s : State) : Option (Option (Exit sym) × State) :=
  (opAt p.text (s.rip - p.base).toNat).map (p.exec s)

/-- Run until control leaves the text, for at most that many steps. -/
def Placed.run : Nat → State → Option (Exit sym × State)
  | 0, _ => none
  | n + 1, s =>
      match p.step s with
      | none => none
      | some (some e, s') => some (e, s')
      | some (none, s') => Placed.run n s'

end Text

/-! ### Words in memory -/

theorem loadWord_congr {m m' : U64 → Byte} {a : U64}
    (h : ∀ k < 8, m (a + BitVec.ofNat 64 k) = m' (a + BitVec.ofNat 64 k)) :
    loadWord m a = loadWord m' a := by
  have hnat : ∀ n b, (∀ k < n, m (b + BitVec.ofNat 64 k) = m' (b + BitVec.ofNat 64 k)) →
      leNat m n b = leNat m' n b := by
    intro n
    induction n with
    | zero => intro b _; rfl
    | succ n ih =>
        intro b hb
        have h0 := hb 0 (by omega)
        simp only [BitVec.add_zero] at h0
        rw [leNat, leNat, h0, ih (b + 1) fun k hk => ?_]
        rw [add_one_add_ofNat]
        exact hb (k + 1) (by omega)
  unfold loadWord le64
  rw [hnat 8 a h]

theorem storeWord_of_outside (m : U64 → Byte) {a v x : U64} (h : 8 ≤ (x - a).toNat) :
    storeWord m a v x = m x := by
  unfold storeWord
  rw [replay_span (by omega), if_neg (by omega)]

@[simp] theorem loadWord_storeWord_self (m : U64 → Byte) (a v : U64) :
    loadWord (storeWord m a v) a = v := by
  refine le64_of_bytes fun k hk => ?_
  unfold storeWord
  rw [replay_span (by omega), toNat_add_ofNat_sub a (by omega), if_pos hk]

/-- Words at different multiples of eight from one base do not meet. -/
theorem loadWord_storeWord_of_ne (m : U64 → Byte) (p v : U64) {i j : Nat} (hi : i % 8 = 0)
    (hj : j % 8 = 0) (hib : i < 2 ^ 32) (hjb : j < 2 ^ 32) (h : i ≠ j) :
    loadWord (storeWord m (p + BitVec.ofNat 64 i) v) (p + BitVec.ofNat 64 j)
      = loadWord m (p + BitVec.ofNat 64 j) := by
  refine loadWord_congr fun k hk => storeWord_of_outside _ ?_
  have hd : p + BitVec.ofNat 64 j + BitVec.ofNat 64 k - (p + BitVec.ofNat 64 i)
      = BitVec.ofNat 64 (j + k) - BitVec.ofNat 64 i := by
    rw [BitVec.ofNat_add]
    bv_omega
  rw [hd]
  bv_omega

theorem upper_append_lower (v : BitVec 128) : upper v ++ lower v = v :=
  BitVec.extractLsb'_append_extractLsb'

theorem upper_append (h l : U64) : upper (h ++ l) = h := by
  unfold upper
  apply BitVec.eq_of_getLsbD_eq
  intro i hi
  rw [BitVec.getLsbD_extractLsb', BitVec.getLsbD_append]
  simp [hi]

theorem lower_append (h l : U64) : lower (h ++ l) = l := by
  unfold lower
  apply BitVec.eq_of_getLsbD_eq
  intro i hi
  rw [BitVec.getLsbD_extractLsb', BitVec.getLsbD_append]
  simp [hi]

/-- A register put together from its own lower word and another upper one. -/
theorem append_lower_eq_iff (h : U64) (v : BitVec 128) : h ++ lower v = v ↔ upper v = h := by
  constructor
  · intro heq
    rw [← heq, upper_append]
  · intro heq
    rw [← heq, upper_append_lower]

/-! ### Fields -/

section Fields

variable (s : State) (r x : Reg) (v : U64)

@[simp] theorem reg_setReg : (s.setReg r v).reg x = if x = r then v else s.reg x := rfl
@[simp] theorem xmm_setReg : (s.setReg r v).xmm = s.xmm := rfl
@[simp] theorem zf_setReg : (s.setReg r v).zf = s.zf := rfl
@[simp] theorem mem_setReg : (s.setReg r v).mem = s.mem := rfl
@[simp] theorem rip_setReg : (s.setReg r v).rip = s.rip := rfl

@[simp] theorem reg_setRip : (s.setRip v).reg = s.reg := rfl
@[simp] theorem xmm_setRip : (s.setRip v).xmm = s.xmm := rfl
@[simp] theorem zf_setRip : (s.setRip v).zf = s.zf := rfl
@[simp] theorem mem_setRip : (s.setRip v).mem = s.mem := rfl
@[simp] theorem rip_setRip : (s.setRip v).rip = v := rfl

@[simp] theorem reg_push : (s.push v).reg x = if x = .rsp then s.reg .rsp - 8 else s.reg x := rfl
@[simp] theorem xmm_push : (s.push v).xmm = s.xmm := rfl
@[simp] theorem mem_push : (s.push v).mem = storeWord s.mem (s.reg .rsp - 8) v := rfl

variable (y z : Fin 16) (u : BitVec 128)

@[simp] theorem xmm_setXmm : (s.setXmm y u).xmm z = if z = y then u else s.xmm z := rfl
@[simp] theorem reg_setXmm : (s.setXmm y u).reg = s.reg := rfl
@[simp] theorem zf_setXmm : (s.setXmm y u).zf = s.zf := rfl
@[simp] theorem mem_setXmm : (s.setXmm y u).mem = s.mem := rfl
@[simp] theorem rip_setXmm : (s.setXmm y u).rip = s.rip := rfl

end Fields

end X64
