/-
The first call through a stub, seen by its caller.

A call is transparent when the target is entered as if it had been called directly: the
same registers, the same vector registers, the same return address.  A filled cell makes
every call so.  An empty one goes through `ps4Pushall`, the resolver and `ps4Popall`,
and all of that is invisible but for one thing: `ps4Popall` has put its return address
where the upper half of `%xmm7` was saved.  So the first call is transparent exactly
when the caller happens to have that address there.
-/
import LibPS4.Proofs.SlowPath

namespace LibPS4

open Effects X64

/-! ### What the caller and the resolver promise -/

/-- The target `a` is entered in `t` as the stub was in `s`. -/
structure Transparent (a : U64) (s t : State) : Prop where
  rip : t.rip = a
  reg : ∀ r ∈ [Reg.rsp, .rax, .rbx, .rcx, .rdx, .rsi, .rdi, .r8, .r9, .r10, .r12, .r13, .r14,
    .r15], t.reg r = s.reg r
  ret : loadWord t.mem (s.reg .rsp) = loadWord s.mem (s.reg .rsp)
  xmm : ∀ x : Fin 16, x < 8 → t.xmm x = s.xmm x

/-- One call of a resolver, entered in `t` and left in `u`: it keeps to the calling
convention, leaves the 248 bytes above its return address alone (the frame of the stub and
the return address of the stub's caller), returns zero and fills the cell with `a`. -/
structure Resolves (cell a : U64) (t u : State) : Prop where
  rip : u.rip = loadWord t.mem (t.reg .rsp)
  rsp : u.reg .rsp = t.reg .rsp + 8
  calleeSaved : ∀ r ∈ [Reg.rbx, .rbp, .r12, .r13, .r14, .r15], u.reg r = t.reg r
  frame : ∀ k < 248, u.mem (t.reg .rsp + 8 + BitVec.ofNat 64 k)
    = t.mem (t.reg .rsp + 8 + BitVec.ofNat 64 k)
  status : u.reg .rax = 0
  filled : loadWord u.mem cell = a

/-- The cell is not in the stack below the caller's stack pointer. -/
def ApartFromStack (cell : U64) (s : State) : Prop :=
  ∀ k < 8, 248 ≤ (cell + BitVec.ofNat 64 k - (s.reg .rsp - 248)).toNat

/-- The offset after the call of `ps4Popall` in a stub. -/
def Stub.popallOffset : Stub → Nat
  | .function .. => 96
  | .kernelFunction .. => 76
  | .functionAndKernelFunction .. => 138
  | .syscallAndKernelFunction .. => 100
  | .syscall _ => 0

/-- The return address of the stub's call of `ps4Popall`. -/
def Stub.popallReturn (stub : Stub) (function : U64) : U64 :=
  function + BitVec.ofNat 64 stub.popallOffset

/-! ### The slow path, seen by the caller -/

section Slow

variable {stub : Stub} {function cell a : U64} {resolver : State → State} {s : State}

theorem placed_link (stub : Stub) (function : U64) (resolver : State → State) :
    (stub.placed function none).link .ps4ResolveModuleAndSymbolOrKernelSymbol resolver
      = stub.placed function (some resolver) := by
  unfold Placed.link Stub.placed
  congr 1
  funext f
  cases f <;> rfl

theorem after_upToPopall {kernel : Bool} (h : stub.cell kernel = some cell) :
    (stub.placed function (some resolver)).after
      (upToPopall stub.head (stub.arguments function) ++ [.op (.call .ps4Popall)])
      = stub.popallReturn function := by
  have hlen : textLength (upToPopall stub.head (stub.arguments function) ++
      [.op (.call .ps4Popall)]) = stub.popallOffset := by
    cases stub with
    | syscall number => cases h
    | _ =>
        simp [upToPopall, upToResolver, Stub.head, Stub.arguments, throughCell, testMode, plains,
          argumentBlock, Line.length, Op.length, Instr.encode, Reg.number, Stub.popallOffset]
  rw [Placed.after, hlen]
  rfl

/-- Words of the frame and of the caller are the same before and after the resolver. -/
theorem Resolves.loadWord {t u : State} (h : Resolves cell a t u) {d : Nat} (hd : 8 ≤ d)
    (hd' : d ≤ 248) : loadWord u.mem (t.reg .rsp + BitVec.ofNat 64 d)
      = loadWord t.mem (t.reg .rsp + BitVec.ofNat 64 d) := by
  refine loadWord_congr fun k hk => ?_
  have hf := h.frame (d - 8 + k) (by omega)
  have haddr : t.reg .rsp + 8 + BitVec.ofNat 64 (d - 8 + k)
      = t.reg .rsp + BitVec.ofNat 64 d + BitVec.ofNat 64 k := by bv_omega
  rwa [haddr] at hf

/-- The stub goes back to its start with everything but the upper half of `%xmm7` as it
was, and with the cell filled. -/
theorem stub_retries (hcell : stub.cell (onKernelStack s) = some cell) (hrip : s.rip = function)
    (hempty : loadWord s.mem cell = 0) (happ : ApartFromStack cell s)
    (hres : ∀ t, Leaves (stub.placed function none) s
      (.called .ps4ResolveModuleAndSymbolOrKernelSymbol) t → Resolves cell a t (resolver t)) :
    ∃ w, Reaches (stub.placed function (some resolver)) s w ∧ w.rip = function ∧
      w.reg .rsp = s.reg .rsp ∧ (∀ r d, slotOf r = some d → w.reg r = s.reg r) ∧
      (∀ x : Fin 16, x < 7 → w.xmm x = s.xmm x) ∧
      w.xmm 7 = stub.popallReturn function ++ lower (s.xmm 7) ∧
      loadWord w.mem (s.reg .rsp) = loadWord s.mem (s.reg .rsp) ∧ loadWord w.mem cell = a := by
  obtain ⟨t, ht, hcall⟩ := stub_calls hcell hrip hempty
  have hr := hres t ht
  have hlink := reaches_of_leaves_called rfl resolver ht
  rw [placed_link] at hlink
  generalize resolver t = u at hlink hr
  have hurip : u.rip = (stub.placed function (some resolver)).after
      (upToResolver stub.head (stub.arguments function) ++
        [.op (.call .ps4ResolveModuleAndSymbolOrKernelSymbol)]) := by
    rw [hr.rip, hcall.rsp, hcall.ret]
    rfl
  obtain ⟨w, hw, hwrip, hrestored⟩ := slowPath_retries (textLength_text_lt stub function)
    (text_of_cell hcell) rfl hurip hr.status
  rw [labelAddress_function hcell] at hwrip
  rw [after_upToPopall hcell] at hrestored
  -- The frame is where it was when the resolver was entered.
  have hframe : u.reg .rsp - 8 = t.reg .rsp := by
    rw [hr.rsp, BitVec.add_sub_cancel]
  have hrsp := hcall.rsp
  obtain ⟨hwrsp, hwreg, hwxmm, hwxmm7, hwmem⟩ := hrestored
  simp only [hframe] at hwreg hwxmm hwxmm7 hwmem
  have hsaved := hcall.saved
  have hsavedX := hcall.savedX
  have hout := hcall.outside
  simp only [← hrsp] at hsaved hsavedX hout
  refine ⟨w, hlink.trans hw, hwrip, ?_, fun r d hd => ?_, fun x hx => ?_, ?_, ?_, ?_⟩
  · rw [hwrsp, hr.rsp, hrsp]
    bv_omega
  · obtain ⟨hpos, hle, -⟩ := slot_of_slotOf hd
    rw [hwreg r d hd, hr.loadWord hpos (by omega), hsaved r d hd]
  · have hx' : x.val < 7 := hx
    rw [hwxmm x hx, loadWords, hr.loadWord (by omega) (by omega),
      hr.loadWord (by omega) (by omega), ← hsavedX x (by omega), loadWords]
  · have h7 := hsavedX 7 (by decide)
    have hlow : X64.loadWord t.mem (t.reg .rsp + BitVec.ofNat 64 232) = lower (s.xmm 7) := by
      rw [← h7]
      exact (lower_append _ _).symm
    rw [hwxmm7, hr.loadWord (by decide) (by decide), hlow]
  · -- The caller's return address is above the frame.
    have hsp : s.reg .rsp = t.reg .rsp + BitVec.ofNat 64 248 := by
      rw [hrsp]
      bv_omega
    have hw' : X64.loadWord w.mem (s.reg .rsp) = X64.loadWord u.mem (s.reg .rsp) :=
      loadWord_congr fun k hk => hwmem _ (by rw [hsp]; bv_omega)
    have ht' : X64.loadWord t.mem (s.reg .rsp) = X64.loadWord s.mem (s.reg .rsp) :=
      loadWord_congr fun k hk => hout _ (by rw [hsp]; bv_omega)
    rw [hw', ← ht', hsp, hr.loadWord (by decide) (by decide)]
  · have hc : X64.loadWord w.mem cell = X64.loadWord u.mem cell :=
      loadWord_congr fun k hk => hwmem _ (by rw [hrsp]; exact happ k hk)
    rw [hc, hr.filled]

/-- The target is entered from the slow path, with `%xmm7` as `ps4Popall` left it. -/
theorem slow_run (hcell : stub.cell (onKernelStack s) = some cell) (hrip : s.rip = function)
    (hempty : loadWord s.mem cell = 0) (ha : a ≠ 0) (happ : ApartFromStack cell s)
    (hres : ∀ t, Leaves (stub.placed function none) s
      (.called .ps4ResolveModuleAndSymbolOrKernelSymbol) t → Resolves cell a t (resolver t)) :
    ∃ t, Leaves (stub.placed function (some resolver)) s .jumped t ∧
      t.xmm 7 = stub.popallReturn function ++ lower (s.xmm 7) ∧
      (t.xmm 7 = s.xmm 7 → Transparent a s t) := by
  obtain ⟨w, hw, hwrip, hrsp, hreg, hxmm, hxmm7, hret, hfilled⟩ :=
    stub_retries hcell hrip hempty happ hres
  have hmode : onKernelStack w = onKernelStack s := by rw [onKernelStack, hrsp, onKernelStack]
  rw [← hmode] at hcell
  obtain ⟨t, ht, hsame, htrip⟩ := stub_jumps (some resolver) hcell hwrip
    (by rw [hfilled]; exact ha)
  refine ⟨t, hw.leaves ht, by rw [hsame.xmm, hxmm7], fun h7 => ⟨by rw [htrip, hfilled], ?_, ?_, ?_⟩⟩
  · -- Every register of the list but `%rsp` has a slot in the frame.
    have hslots : ∀ r ∈ [Reg.rsp, .rax, .rbx, .rcx, .rdx, .rsi, .rdi, .r8, .r9, .r10, .r12, .r13,
        .r14, .r15], r ≠ .r11 ∧ (r = .rsp ∨ (slotOf r).isSome) := by decide
    intro r hr
    obtain ⟨hne, hslot⟩ := hslots r hr
    rw [hsame.reg r hne]
    rcases hslot with rfl | hsome
    · exact hrsp
    · obtain ⟨d, hd⟩ := Option.isSome_iff_exists.mp hsome
      exact hreg r d hd
  · rw [hsame.mem, hret]
  · intro x hx
    by_cases hx7 : x = 7
    · rw [hx7, h7]
    · rw [hsame.xmm, hxmm x (by omega)]

end Slow

/-! ### The two paths -/

section Paths

variable {stub : Stub} {function cell a : U64} {resolver : Option (State → State)} {s : State}

/-- A call through a filled cell is transparent. -/
theorem fast_run (hcell : stub.cell (onKernelStack s) = some cell) (hrip : s.rip = function)
    (hfilled : loadWord s.mem cell = a) (ha : a ≠ 0) :
    ∃ t, Leaves (stub.placed function resolver) s .jumped t ∧ Transparent a s t := by
  obtain ⟨t, ht, hsame, htrip⟩ := stub_jumps resolver hcell hrip
    (by rw [hfilled]; exact ha)
  have hne : ∀ r ∈ [Reg.rsp, .rax, .rbx, .rcx, .rdx, .rsi, .rdi, .r8, .r9, .r10, .r12, .r13,
      .r14, .r15], r ≠ .r11 := by decide
  exact ⟨t, ht, by rw [htrip, hfilled], fun r hr => hsame.reg r (hne r hr), by rw [hsame.mem],
    fun x _ => by rw [hsame.xmm]⟩

end Paths

/--
**When the first call through a stub is transparent.**

Given a resolver that keeps to the calling convention, leaves the stub's frame alone,
returns zero and fills the cell, the first call enters the target with the caller's
registers exactly when the upper half of `%xmm7` was the return address of the stub's own
call of `ps4Popall`.  Once the cell is filled the call always is transparent.
-/
theorem stub_transparent_iff (stub : Stub) (function cell a : U64) (resolver : State → State)
    (s : State) (hrip : s.rip = function) (hcell : stub.cell (onKernelStack s) = some cell)
    (hempty : loadWord s.mem cell = 0) (ha : a ≠ 0) (happ : ApartFromStack cell s)
    (hres : ∀ t, Leaves (stub.placed function none) s
      (.called .ps4ResolveModuleAndSymbolOrKernelSymbol) t → Resolves cell a t (resolver t)) :
    ((∃ t, Leaves (stub.placed function (some resolver)) s .jumped t ∧ Transparent a s t) ↔
      upper (s.xmm 7) = stub.popallReturn function) ∧
    ∃ t, Leaves (stub.placed function (some resolver))
        { s with mem := storeWord s.mem cell a } .jumped t ∧
      Transparent a { s with mem := storeWord s.mem cell a } t := by
  refine ⟨?_, fast_run hcell hrip (loadWord_storeWord_self s.mem cell a) ha⟩
  obtain ⟨t, ht, h7, htransparent⟩ := slow_run hcell hrip hempty ha happ hres
  constructor
  · rintro ⟨t', ht', h'⟩
    obtain ⟨-, rfl⟩ := ht.unique ht'
    have heq := h'.xmm 7 (by decide)
    rw [h7] at heq
    exact (append_lower_eq_iff _ _).mp heq
  · intro hupper
    refine ⟨t, ht, htransparent ?_⟩
    rw [h7]
    exact (append_lower_eq_iff _ _).mpr hupper

/-! ### One stub -/

/-- A resolver that fills the cell and returns zero. -/
def fillCell (cell a : U64) (t : State) : State :=
  { (t.setReg .rsp (t.reg .rsp + 8)).setReg .rax 0 with
    mem := storeWord t.mem cell a
    rip := loadWord t.mem (t.reg .rsp) }

theorem fillCell_resolves {cell a : U64} {t : State}
    (h : ∀ k < 248, 8 ≤ (t.reg .rsp + 8 + BitVec.ofNat 64 k - cell).toNat) :
    Resolves cell a t (fillCell cell a t) := by
  refine ⟨rfl, rfl, fun r hr => ?_, fun k hk => storeWord_of_outside _ (h k hk), rfl,
    loadWord_storeWord_self t.mem cell a⟩
  have hne : ∀ r ∈ [Reg.rbx, .rbp, .r12, .r13, .r14, .r15], r ≠ .rax ∧ r ≠ .rsp := by decide
  obtain ⟨hrax, hrsp⟩ := hne r hr
  show (if r = .rax then _ else if r = .rsp then _ else t.reg r) = _
  rw [if_neg hrax, if_neg hrsp]

theorem caller_cell (v : BitVec 128) :
    userStub.cell (onKernelStack (caller userStub 0x7fff0000 0 v)) = some 0x600000 := rfl

theorem caller_apart (v : BitVec 128) :
    ApartFromStack 0x600000 (caller userStub 0x7fff0000 0 v) := by
  intro k hk
  show 248 ≤ (0x600000 + BitVec.ofNat 64 k - ((0x7fff0000 : U64) - 248)).toNat
  bv_omega

theorem caller_resolves (v : BitVec 128) (a : U64) :
    ∀ t, Leaves (userStub.placed 0x400000 none) (caller userStub 0x7fff0000 0 v)
      (.called .ps4ResolveModuleAndSymbolOrKernelSymbol) t →
      Resolves 0x600000 a t (fillCell 0x600000 a t) := by
  intro t ht
  obtain ⟨t', ht', hcall⟩ := stub_calls (caller_cell v) rfl (caller_empty ..)
  obtain ⟨-, rfl⟩ := ht.unique ht'
  refine fillCell_resolves fun k hk => ?_
  have hrsp : t.reg .rsp = 0x7fff0000 - 248 := hcall.rsp
  rw [hrsp]
  bv_omega

/-- With the return address in `%xmm7` nothing is lost. -/
theorem caller_transparent :
    ∃ t, Leaves (userStub.placed 0x400000 (some (fillCell 0x600000 0x800000)))
        (caller userStub 0x7fff0000 0 ((0x400060 : U64) ++ (7 : U64))) .jumped t ∧
      Transparent 0x800000 (caller userStub 0x7fff0000 0 ((0x400060 : U64) ++ (7 : U64))) t :=
  (stub_transparent_iff userStub 0x400000 0x600000 0x800000 (fillCell 0x600000 0x800000)
    (caller userStub 0x7fff0000 0 ((0x400060 : U64) ++ (7 : U64))) rfl (caller_cell _)
    (caller_empty ..) (by decide) (caller_apart _) (caller_resolves _ _)).1.mpr (upper_append _ _)

/-- The first call with another value there loses its upper half. -/
theorem caller_not_transparent :
    (∀ t, Leaves (userStub.placed 0x400000 none) (caller userStub 0x7fff0000 0 0)
      (.called .ps4ResolveModuleAndSymbolOrKernelSymbol) t →
      Resolves 0x600000 0x800000 t (fillCell 0x600000 0x800000 t)) ∧
    ¬ ∃ t, Leaves (userStub.placed 0x400000 (some (fillCell 0x600000 0x800000)))
        (caller userStub 0x7fff0000 0 0) .jumped t ∧
      Transparent 0x800000 (caller userStub 0x7fff0000 0 0) t := by
  refine ⟨caller_resolves 0 _, ?_⟩
  rintro ⟨t, ht, htransparent⟩
  obtain ⟨t', ht', h7, -⟩ := slow_run (caller_cell 0) rfl (caller_empty ..) (by decide)
    (caller_apart 0) (caller_resolves 0 0x800000)
  obtain ⟨-, rfl⟩ := ht.unique ht'
  have heq := htransparent.xmm 7 (by decide)
  rw [h7] at heq
  have hupper := (append_lower_eq_iff _ _).mp heq
  revert hupper
  decide

end LibPS4
