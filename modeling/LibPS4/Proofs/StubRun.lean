/-
How a stub runs.

The head of a stub looks its cell up and either jumps or falls into the slow path with
nothing changed but scratch registers.  The slow path is the same text in all four
kinds up to the arguments it loads, so its two halves are run once: from `.LfunctionR` to
the call of the resolver, and from the resolver's return to the jump back to the start.
-/
import LibPS4.Base.Text
import LibPS4.Proofs.PushPop

namespace LibPS4

open Effects X64

/-! ### The head -/

/-- The mode test of the templates. -/
def onKernelStack (s : State) : Bool := s.reg .rsp >>> 48 != 0

/-- The cell a stub looks up in a mode; none where it does not resolve at all. -/
def Stub.cell (kernel : Bool) : Stub → Option U64
  | .function _ _ _ functionAddress => some functionAddress
  | .kernelFunction _ functionAddress => some functionAddress
  | .functionAndKernelFunction _ _ _ userFunctionAddress kernelFunctionAddress =>
      some (if kernel then kernelFunctionAddress else userFunctionAddress)
  | .syscallAndKernelFunction _ functionAddress _ => if kernel then some functionAddress else none
  | .syscall _ => none

/-- The same to the caller: only `%r11`, the flags and the instruction pointer differ. -/
structure Untouched (s t : State) : Prop where
  reg : ∀ r, r ≠ .r11 → t.reg r = s.reg r
  xmm : t.xmm = s.xmm
  mem : t.mem = s.mem

theorem Untouched.setRip {s t : State} (h : Untouched s t) (a : U64) : Untouched s (t.setRip a) :=
  ⟨h.reg, h.xmm, h.mem⟩

/-- `%rax` is in `%r11`, and nothing else has changed but `%rax`. -/
structure Stashed (s t : State) : Prop where
  r11 : t.reg .r11 = s.reg .rax
  reg : ∀ r, r ≠ .r11 → r ≠ .rax → t.reg r = s.reg r
  xmm : t.xmm = s.xmm
  mem : t.mem = s.mem

/-- The lookup of a cell. -/
def lookUp (cell : U64) : List Instr := [.loadAbs cell, .xchgRax .r11, .test .r11]

theorem zf_lookUp (cell : U64) (s : State) :
    ((lookUp cell).foldl Instr.exec s).zf = decide (loadWord s.mem cell = 0) := by
  simp [lookUp, Instr.exec]

theorem r11_lookUp (cell : U64) (s : State) :
    ((lookUp cell).foldl Instr.exec s).reg .r11 = loadWord s.mem cell := by
  simp [lookUp, Instr.exec]

theorem Stashed.lookUp {s t : State} (h : Stashed s t) (cell : U64) :
    Untouched s ((lookUp cell).foldl Instr.exec t) := by
  refine ⟨fun r hr => ?_, h.xmm, h.mem⟩
  by_cases hrax : r = .rax
  · subst hrax
    rw [← h.r11]
    simp [LibPS4.lookUp, Instr.exec]
  · rw [← h.reg r hr hrax]
    simp [LibPS4.lookUp, Instr.exec, hr, hrax]

section ThroughCell

variable {p : Placed StubLabel StubSymbol} {before rest : StubText} {cell : U64} {s t : State}
  (hlen : textLength p.text < 2 ^ 64) (htext : p.text = before ++ throughCell cell ++ rest)
  (hrip : t.rip = p.after before) (hst : Stashed s t)

include hlen htext hrip hst

/-- The lookup, up to the jump. -/
theorem throughCell_looks : ∃ u, Reaches p t u ∧ Untouched s u ∧
    u.rip = p.after (before ++ plains (lookUp cell)) ∧
    u.reg .r11 = loadWord s.mem cell ∧ u.zf = decide (loadWord s.mem cell = 0) := by
  have hblock : p.text = before ++ plains (lookUp cell) ++
      (.op (.jz .resolve) :: .op (.jmpReg .r11) :: rest) := by
    rw [htext]
    simp [throughCell, plains, lookUp]
  refine ⟨_, reaches_block hlen _ (lookUp cell) before t hblock hrip,
    (hst.lookUp cell).setRip _, rip_setRip _ _, ?_, ?_⟩
  · rw [reg_setRip, r11_lookUp, hst.mem]
  · rw [zf_setRip, zf_lookUp, hst.mem]

/-- An empty cell leads to the slow path. -/
theorem throughCell_resolves (h : loadWord s.mem cell = 0) :
    ∃ u, Reaches p t u ∧ Untouched s u ∧ u.rip = p.labelAddress .resolve := by
  obtain ⟨u, hu, hsame, hurip, -, hz⟩ := throughCell_looks hlen htext hrip hst
  have hjz : p.text = before ++ plains (lookUp cell) ++
      .op (.jz .resolve) :: (.op (.jmpReg .r11) :: rest) := by
    rw [htext]
    simp [throughCell, plains, lookUp]
  have hstep := reaches_jz hlen hurip hjz
  rw [hz, h, decide_eq_true rfl, if_pos rfl] at hstep
  exact ⟨_, hu.trans hstep, hsame.setRip _, rip_setRip _ _⟩

/-- A full one is jumped through. -/
theorem throughCell_jumps (h : loadWord s.mem cell ≠ 0) :
    ∃ u, Leaves p t .jumped u ∧ Untouched s u ∧ u.rip = loadWord s.mem cell := by
  obtain ⟨u, hu, hsame, hurip, hr11, hz⟩ := throughCell_looks hlen htext hrip hst
  have hjz : p.text = before ++ plains (lookUp cell) ++
      .op (.jz .resolve) :: (.op (.jmpReg .r11) :: rest) := by
    rw [htext]
    simp [throughCell, plains, lookUp]
  have hjmp : p.text = before ++ plains (lookUp cell) ++ [.op (.jz .resolve)] ++
      .op (.jmpReg .r11) :: rest := by
    rw [hjz]
    simp
  have hstep := reaches_jz hlen hurip hjz
  rw [hz, decide_eq_false h, if_neg Bool.false_ne_true] at hstep
  have hleaves := (hu.trans hstep).leaves (leaves_jmpReg hlen rfl hjmp)
  exact ⟨_, hleaves, (hsame.setRip _).setRip _, hr11⟩

end ThroughCell

/-- The marker of a stub, and `%rax` out of the way. -/
def stash (k : Byte) : List Instr := [.testAl k, .mov .rax .r11]

theorem stashed_stash (k : Byte) (s : State) : Stashed s ((stash k).foldl Instr.exec s) := by
  refine ⟨?_, fun r hr _ => ?_, rfl, rfl⟩
  · simp [stash, Instr.exec]
  · simp [stash, Instr.exec, hr]

theorem Stashed.setRip {s t : State} (h : Stashed s t) (a : U64) : Stashed s (t.setRip a) :=
  ⟨h.r11, h.reg, h.xmm, h.mem⟩

/-- The mode test, up to the jump. -/
def readMode : List Instr := [.mov .rsp .rax, .shr 48 .rax, .test .rax]

theorem Stashed.readMode {s t : State} (h : Stashed s t) :
    Stashed s (readMode.foldl Instr.exec t) := by
  refine ⟨?_, fun r hr hrax => ?_, h.xmm, h.mem⟩
  · rw [← h.r11]
    simp [LibPS4.readMode, Instr.exec]
  · rw [← h.reg r hr hrax]
    simp [LibPS4.readMode, Instr.exec, hrax]

theorem Stashed.zf_readMode {s t : State} (h : Stashed s t) :
    (LibPS4.readMode.foldl Instr.exec t).zf = !onKernelStack s := by
  have hrsp := h.reg .rsp (by decide) (by decide)
  have hzf : (LibPS4.readMode.foldl Instr.exec t).zf = decide (s.reg .rsp >>> 48 = 0) := by
    simp [LibPS4.readMode, Instr.exec, hrsp]
  rw [hzf, onKernelStack, bne, Bool.not_not]
  rfl

section Heads

variable {p : Placed StubLabel StubSymbol} {rest : StubText} {k : Byte} {s : State}
  (hlen : textLength p.text < 2 ^ 64) (hrip : s.rip = p.base)

include hlen hrip

theorem stash_run (htext : p.text = [.label .function] ++ plains (stash k) ++ rest) :
    ∃ t, Reaches p s t ∧ Stashed s t ∧
      t.rip = p.after ([.label .function] ++ plains (stash k)) := by
  have hstart : s.rip = p.after [.label .function] := by
    rw [hrip]
    exact (BitVec.add_zero p.base).symm
  exact ⟨_, reaches_block hlen rest (stash k) _ s htext hstart, (stashed_stash k s).setRip _,
    rip_setRip _ _⟩

/-- The two ways out of the mode test. -/
theorem testMode_run
    (htext : p.text = [.label .function] ++ plains (stash k) ++ testMode ++ rest) :
    ∃ t, Reaches p s t ∧ Stashed s t ∧ t.rip = if onKernelStack s then p.labelAddress .kernel else
      p.after ([.label .function] ++ plains (stash k) ++ testMode) := by
  have hmode : (testMode : StubText) = plains readMode ++ [.op (.jnz .kernel)] := rfl
  have hfirst : p.text = [.label .function] ++ plains (stash k) ++ (testMode ++ rest) := by
    rw [htext, List.append_assoc]
  have hread : p.text = [.label .function] ++ plains (stash k) ++ plains readMode ++
      (.op (.jnz .kernel) :: rest) := by
    rw [htext, hmode]
    simp
  obtain ⟨t, ht, hst, htrip⟩ := stash_run hlen hrip hfirst
  obtain ⟨u, hu, husame, huz, hurip⟩ : ∃ u, Reaches p t u ∧ Stashed s u ∧
      u.zf = (!onKernelStack s) ∧
      u.rip = p.after ([.label .function] ++ plains (stash k) ++ plains readMode) := by
    refine ⟨_, reaches_block hlen _ readMode _ t hread htrip, hst.readMode.setRip _, ?_,
      rip_setRip _ _⟩
    rw [zf_setRip, hst.zf_readMode]
  refine ⟨_, (ht.trans hu).trans (reaches_jnz hlen hurip hread), husame.setRip _, ?_⟩
  rw [rip_setRip, huz, hmode, ← List.append_assoc]
  cases onKernelStack s with
  | false => rw [if_neg Bool.false_ne_true, Bool.not_false, if_pos rfl]
  | true => rw [if_pos rfl, Bool.not_true, if_neg Bool.false_ne_true]

end Heads

theorem textLength_text_le (stub : Stub) (function : U64) :
    textLength (stub.text function) ≤ 149 := by
  cases stub <;>
    simp [Stub.text, Stub.head, throughCell, testMode, slowPath, Stub.arguments, Line.length,
      Op.length, Instr.encode, Reg.number]

theorem textLength_text_lt (stub : Stub) (function : U64) :
    textLength (stub.text function) < 2 ^ 64 :=
  Nat.lt_of_le_of_lt (textLength_text_le stub function) (by decide)

section Lookup

variable {stub : Stub} {function cell : U64} {resolver : Option (State → State)} {s : State}

/-- Every kind of stub arrives at the lookup of the cell of its mode. -/
theorem head_run (hcell : stub.cell (onKernelStack s) = some cell) (hrip : s.rip = function) :
    ∃ before rest t, stub.text function = before ++ throughCell cell ++ rest ∧
      Reaches (stub.placed function resolver) s t ∧ Stashed s t ∧
      t.rip = (stub.placed function resolver).after before := by
  have hlen := textLength_text_lt stub function
  cases stub with
  | function moduleName functionName moduleHandle functionAddress =>
      cases hcell
      obtain ⟨t, ht, hst, htrip⟩ := stash_run (p := (Stub.function moduleName functionName
        moduleHandle cell).placed function resolver) hlen hrip rfl
      exact ⟨_, _, t, rfl, ht, hst, htrip⟩
  | kernelFunction functionName functionAddress =>
      cases hcell
      obtain ⟨t, ht, hst, htrip⟩ := stash_run (p := (Stub.kernelFunction functionName
        cell).placed function resolver) hlen hrip rfl
      exact ⟨_, _, t, rfl, ht, hst, htrip⟩
  | functionAndKernelFunction moduleName functionName moduleHandle user kernel =>
      let p := (Stub.functionAndKernelFunction moduleName functionName moduleHandle user
        kernel).placed function resolver
      obtain ⟨t, ht, hst, htrip⟩ := testMode_run (p := p) hlen hrip rfl
      cases hmode : onKernelStack s with
      | false =>
          rw [hmode] at hcell htrip
          cases hcell
          exact ⟨_, _, t, rfl, ht, hst, htrip⟩
      | true =>
          rw [hmode] at hcell htrip
          cases hcell
          have hlabel : p.labelAddress .kernel = p.after (_ ++ [.label .kernel]) :=
            labelAddress_eq ([.label .function] ++ plains (stash 2) ++ testMode ++
              throughCell user) rfl (by simp [plains, stash, testMode, throughCell])
          rw [if_pos rfl, hlabel] at htrip
          exact ⟨_, _, t, rfl, ht, hst, htrip⟩
  | syscallAndKernelFunction functionName functionAddress number =>
      let p := (Stub.syscallAndKernelFunction functionName functionAddress
        number).placed function resolver
      obtain ⟨t, ht, hst, htrip⟩ := testMode_run (p := p) hlen hrip rfl
      cases hmode : onKernelStack s with
      | false => rw [hmode] at hcell; cases hcell
      | true =>
          rw [hmode] at hcell htrip
          cases hcell
          have hlabel : p.labelAddress .kernel = p.after (_ ++ [.label .kernel]) :=
            labelAddress_eq ([.label .function] ++ plains (stash 3) ++ testMode ++
              [.op (.plain (.movImm32 number .rax)), .op (.jmpSym .ps4Kerncall)]) rfl
              (by simp [plains, stash, testMode])
          rw [if_pos rfl, hlabel] at htrip
          exact ⟨_, _, t, rfl, ht, hst, htrip⟩
  | syscall number => cases hcell

theorem kerncall_run {p : Placed StubLabel StubSymbol} {before rest : StubText} {block : List Instr}
    {t : State} (hlen : textLength p.text < 2 ^ 64)
    (htext : p.text = before ++ plains block ++ .op (.jmpSym .ps4Kerncall) :: rest)
    (hrip : t.rip = p.after before) : ∃ u, Leaves p t (.tail .ps4Kerncall) u := by
  have hblock := reaches_block hlen _ block before t htext hrip
  exact ⟨_, hblock.leaves (leaves_jmpSym hlen (rip_setRip _ _) htext)⟩

/-- A stub that has no cell in its mode goes to the kernel. -/
theorem stub_tails (hcell : stub.cell (onKernelStack s) = none) (hrip : s.rip = function) :
    ∃ t, Leaves (stub.placed function resolver) s (.tail .ps4Kerncall) t := by
  have hlen := textLength_text_lt stub function
  cases stub with
  | syscallAndKernelFunction functionName functionAddress number =>
      let p := (Stub.syscallAndKernelFunction functionName functionAddress
        number).placed function resolver
      obtain ⟨t, ht, -, htrip⟩ := testMode_run (p := p) hlen hrip rfl
      cases hmode : onKernelStack s with
      | true => rw [hmode] at hcell; cases hcell
      | false =>
          rw [hmode, if_neg Bool.false_ne_true] at htrip
          have htext : p.text = [.label .function] ++ plains (stash 3) ++ testMode ++
              plains [.movImm32 number .rax] ++ .op (.jmpSym .ps4Kerncall) ::
                ([.label .kernel] ++ throughCell functionAddress ++
                  slowPath ((Stub.syscallAndKernelFunction functionName functionAddress
                    number).arguments function)) := rfl
          obtain ⟨u, hu⟩ := kerncall_run (p := p) hlen htext htrip
          exact ⟨u, ht.leaves hu⟩
  | syscall number =>
      let p := (Stub.syscall number).placed function resolver
      have hstart : s.rip = p.after [.label .function] := by
        rw [hrip]
        exact (BitVec.add_zero function).symm
      have htext : p.text = [.label .function] ++ plains [.testAl 4, .movImm32 number .rax] ++
          .op (.jmpSym .ps4Kerncall) :: [] := rfl
      exact kerncall_run (p := p) hlen htext hstart
  | _ => cases hcell

end Lookup

/-! ### To the call of the resolver -/

/-- The instructions between the two calls. -/
def argumentBlock (args : List (U64 × Reg)) : List Instr :=
  args.map (fun a => .movImm a.1 a.2) ++ [.xor .rax]

/-- The argument a register is loaded with. -/
def lastArgument (r : Reg) : List (U64 × Reg) → Option U64
  | [] => none
  | a :: rest => (lastArgument r rest).or (if a.2 = r then some a.1 else none)

theorem foldl_movImm (args : List (U64 × Reg)) : ∀ s : State,
    let t := (args.map fun a => Instr.movImm a.1 a.2).foldl Instr.exec s
    t.mem = s.mem ∧ t.xmm = s.xmm ∧ ∀ r, t.reg r = (lastArgument r args).getD (s.reg r) := by
  induction args with
  | nil => intro s; exact ⟨rfl, rfl, fun _ => rfl⟩
  | cons a args ih =>
      intro s
      obtain ⟨hmem, hxmm, hreg⟩ := ih (s.setReg a.2 a.1)
      refine ⟨hmem, hxmm, fun r => ?_⟩
      refine (hreg r).trans ?_
      rw [lastArgument, reg_setReg]
      cases lastArgument r args with
      | some v => rfl
      | none =>
          by_cases hr : r = a.2
          · rw [if_pos hr, if_pos hr.symm]; rfl
          · rw [if_neg hr, if_neg (Ne.symm hr)]; rfl

theorem mem_argumentBlock (args : List (U64 × Reg)) (s : State) :
    ((argumentBlock args).foldl Instr.exec s).mem = s.mem := by
  rw [argumentBlock, List.foldl_append]
  exact (foldl_movImm args s).1

theorem reg_argumentBlock (args : List (U64 × Reg)) (s : State) {r : Reg} (h : r ≠ .rax) :
    ((argumentBlock args).foldl Instr.exec s).reg r = (lastArgument r args).getD (s.reg r) := by
  rw [argumentBlock, List.foldl_append, ← (foldl_movImm args s).2.2 r]
  show (if r = .rax then _ else State.reg _ r) = _
  rw [if_neg h]

end LibPS4
