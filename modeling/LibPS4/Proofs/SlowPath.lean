/-
The slow path of a stub.

With `S` the stack pointer of the caller, the frame is the 248 bytes below `S`.  The
resolver is entered with its return address at the bottom of the frame and everything
`ps4Pushall` saved above it.  `ResolverCall` is the state in which it is called, and
`Restored` what the stub makes of the state in which it returns.
-/
import LibPS4.Proofs.StubRun

namespace LibPS4

open Effects X64

/-- `s` is the state at `.LfunctionR`, `t` the one in which the resolver is entered. -/
structure ResolverCall (args : List (U64 × Reg)) (ret : U64) (s t : State) : Prop where
  rsp : t.reg .rsp = s.reg .rsp - 248
  ret : loadWord t.mem (s.reg .rsp - 248) = ret
  argument : ∀ r, r ≠ .rsp → r ≠ .rax → r ≠ .r11 →
    t.reg r = (lastArgument r args).getD (s.reg r)
  saved : ∀ r d, slotOf r = some d →
    loadWord t.mem (s.reg .rsp - 248 + BitVec.ofNat 64 d) = s.reg r
  savedX : ∀ x : Fin 16, x < 8 →
    loadWords t.mem (s.reg .rsp - 248) (120 + 16 * x.val) = s.xmm x
  outside : ∀ a, 248 ≤ (a - (s.reg .rsp - 248)).toNat → t.mem a = s.mem a

/-- The resolver returned in `t`, and the stub is through with `ps4Popall` in `u`; `ret`
is the return address of that call. -/
structure Restored (ret : U64) (t u : State) : Prop where
  rsp : u.reg .rsp = t.reg .rsp + 240
  restored : ∀ r d, slotOf r = some d →
    u.reg r = loadWord t.mem (t.reg .rsp - 8 + BitVec.ofNat 64 d)
  restoredX : ∀ x : Fin 16, x < 7 → u.xmm x = loadWords t.mem (t.reg .rsp - 8) (120 + 16 * x.val)
  xmm7 : u.xmm 7 = ret ++ loadWord t.mem (t.reg .rsp - 8 + BitVec.ofNat 64 232)
  outside : ∀ a, 248 ≤ (a - (t.reg .rsp - 8)).toNat → u.mem a = t.mem a

theorem Restored.setRip {ret a : U64} {t u : State} (h : Restored ret t u) :
    Restored ret t (u.setRip a) :=
  ⟨h.rsp, h.restored, h.restoredX, h.xmm7, h.outside⟩

theorem Restored.test {ret : U64} {t u : State} (h : Restored ret t u) :
    Restored ret t ([Instr.test .r11].foldl Instr.exec u) :=
  ⟨h.rsp, h.restored, h.restoredX, h.xmm7, h.outside⟩

/-- The head of the stub changes nothing the slow path looks at. -/
theorem ResolverCall.of_untouched {args : List (U64 × Reg)} {ret : U64} {s s' t : State}
    (h : ResolverCall args ret s' t) (hs : Untouched s s') : ResolverCall args ret s t := by
  have hrsp : s'.reg .rsp = s.reg .rsp := hs.reg .rsp (by decide)
  obtain ⟨h1, h2, h3, h4, h5, h6⟩ := h
  rw [hrsp] at h1 h2
  simp only [hrsp] at h4 h5 h6
  refine ⟨h1, h2, fun r hr hr' hr11 => ?_, fun r d hd => ?_, fun x hx => ?_, fun a ha => ?_⟩
  · rw [h3 r hr hr' hr11, hs.reg r hr11]
  · have hr11 : r ≠ .r11 := by
      rintro rfl
      cases hd
    rw [h4 r d hd, hs.reg r hr11]
  · rw [h5 x hx, hs.xmm]
  · rw [h6 a ha, hs.mem]

/-- A word pushed under the frame leaves the words of the frame alone. -/
theorem loadWord_under (m : U64 → Byte) (a v : U64) {d : Nat} (hd : Slot d) (hpos : 0 < d) :
    loadWord (storeWord m a v) (a + BitVec.ofNat 64 d) = loadWord m (a + BitVec.ofNat 64 d) := by
  have h := loadWord_storeWord_of_ne m a v (i := 0) (by decide) hd.1 (by decide) hd.2
    (Nat.ne_of_lt hpos)
  rw [BitVec.add_zero] at h
  exact h

theorem loadWords_under (m : U64 → Byte) (a v : U64) {d : Nat} (hd : Slot d) (hd' : Slot (d + 8))
    (hpos : 0 < d) : loadWords (storeWord m a v) a d = loadWords m a d := by
  rw [loadWords, loadWord_under m a v hd' (by omega), loadWord_under m a v hd hpos]
  rfl

theorem slot_xmm (x : Fin 16) : Slot (120 + 16 * x.val) ∧ Slot (120 + 16 * x.val + 8) :=
  ⟨⟨by omega, by omega⟩, ⟨by omega, by omega⟩⟩

/-- The arguments are loaded between the two calls, and leave the frame as it is. -/
theorem resolverCall_of_pushed {args : List (U64 × Reg)} {s t : State} {ret ret' a : U64}
    (h : Pushed (s.push ret') t) (hargs : lastArgument .rsp args = none) :
    ResolverCall args ret s
      ((((argumentBlock args).foldl Instr.exec t).setRip a).push ret) := by
  -- The frame starts 248 bytes below the caller's stack pointer.
  have hbase : (s.push ret').reg .rsp - 240 = s.reg .rsp - 248 := by
    rw [reg_push, if_pos rfl]
    bv_omega
  have hrsp : ((argumentBlock args).foldl Instr.exec t).reg .rsp - 8 = s.reg .rsp - 248 := by
    rw [reg_argumentBlock args t (by decide), hargs, Option.getD_none, h.rsp, hbase,
      BitVec.add_sub_cancel]
  refine ⟨?_, ?_, fun r hr hr' _ => ?_, fun r d hd => ?_, fun x hx => ?_, fun b hb => ?_⟩
  · rw [reg_push, if_pos rfl, reg_setRip, hrsp]
  · rw [mem_push, reg_setRip, hrsp, loadWord_storeWord_self]
  · rw [reg_push, if_neg hr, reg_setRip, reg_argumentBlock args t hr', h.reg r hr hr', reg_push,
      if_neg hr]
  · obtain ⟨hpos, -, hslot⟩ := slot_of_slotOf hd
    have hr : r ≠ .rsp := by
      rintro rfl
      cases hd
    have hsaved := h.saved r d hd
    rw [hbase, reg_push, if_neg hr] at hsaved
    rw [mem_push, reg_setRip, hrsp, mem_setRip, mem_argumentBlock,
      loadWord_under _ _ _ hslot (by omega), hsaved]
  · obtain ⟨hlow, hhigh⟩ := slot_xmm x
    have hsaved := h.savedX x hx
    rw [hbase, xmm_push] at hsaved
    rw [mem_push, reg_setRip, hrsp, mem_setRip, mem_argumentBlock,
      loadWords_under _ _ _ hlow hhigh (by omega), hsaved]
  · have hout := h.outside b
    rw [hbase, mem_push] at hout
    rw [mem_push, reg_setRip, hrsp, mem_setRip, mem_argumentBlock,
      storeWord_of_outside _ (by omega), hout hb]
    refine storeWord_of_outside _ ?_
    bv_omega

/-- `ps4Popall` after the call that entered it. -/
theorem restored_of_popped {s t u : State} {ret : U64} (hmem : t.mem = s.mem)
    (hrsp : t.reg .rsp = s.reg .rsp) (h : Popped (t.push ret) u) : Restored ret s u := by
  have hbase : (t.push ret).reg .rsp = s.reg .rsp - 8 := by rw [reg_push, if_pos rfl, hrsp]
  have hstack : (t.push ret).mem = storeWord s.mem (s.reg .rsp - 8) ret := by
    rw [mem_push, hmem, hrsp]
  refine ⟨?_, fun r d hd => ?_, fun x hx => ?_, ?_, fun a ha => ?_⟩
  · rw [h.rsp, hbase]
    bv_omega
  · obtain ⟨hpos, -, hslot⟩ := slot_of_slotOf hd
    rw [h.restored r d hd, hstack, hbase, loadWord_under _ _ _ hslot (by omega)]
  · obtain ⟨hlow, hhigh⟩ := slot_xmm x
    rw [h.restoredX x hx, hstack, hbase, loadWords_under _ _ _ hlow hhigh (by omega)]
  · rw [h.xmm7, hstack, hbase, loadWord_storeWord_self,
      loadWord_under _ _ _ (by decide) (by decide)]
  · rw [h.mem, hstack, hbase]
    have hout : 8 ≤ (a - (s.reg .rsp - 8 + BitVec.ofNat 64 240)).toNat := by bv_omega
    rw [storeWord_of_outside _ hout, storeWord_of_outside _ (by omega)]

/-! ### Prefixes of the text -/

/-- Up to the call of the resolver. -/
def upToResolver (head : StubText) (args : List (U64 × Reg)) : StubText :=
  head ++ [.label .resolve] ++ [.op (.call .ps4Pushall)] ++ plains (argumentBlock args)

/-- Up to the call of `ps4Popall`. -/
def upToPopall (head : StubText) (args : List (U64 × Reg)) : StubText :=
  upToResolver head args ++ [.op (.call .ps4ResolveModuleAndSymbolOrKernelSymbol)] ++
    plains [.mov .rax .r11]

/-- Up to the test of the status. -/
def upToExit (head : StubText) (args : List (U64 × Reg)) : StubText :=
  upToPopall head args ++ [.op (.call .ps4Popall)] ++ plains [.test .r11]

/-- What follows the call of the resolver. -/
def afterResolver : StubText :=
  [.op (.plain (.mov .rax .r11)), .op (.call .ps4Popall), .op (.plain (.test .r11)),
    .op (.jnz .exit), .op (.jmp .function), .label .exit, .op .ret]

theorem append_slowPath (head : StubText) (args : List (U64 × Reg)) :
    head ++ slowPath args = upToResolver head args ++
      .op (.call .ps4ResolveModuleAndSymbolOrKernelSymbol) :: afterResolver := by
  simp [slowPath, upToResolver, plains, argumentBlock, afterResolver, Function.comp_def]

section Run

variable {p : Placed StubLabel StubSymbol} {head : StubText} {args : List (U64 × Reg)} {s : State}
  (hlen : textLength p.text < 2 ^ 64) (htext : p.text = head ++ slowPath args)

include hlen htext

omit hlen in
theorem text_pushall : p.text = head ++ [.label .resolve] ++ .op (.call .ps4Pushall) ::
    (plains (argumentBlock args) ++
      (.op (.call .ps4ResolveModuleAndSymbolOrKernelSymbol) :: afterResolver)) := by
  rw [htext, append_slowPath, upToResolver]
  simp

/-- From `.LfunctionR` the stub calls the resolver. -/
theorem slowPath_calls (hpush : p.called .ps4Pushall = some (runRoutine ps4Pushall))
    (hres : p.called .ps4ResolveModuleAndSymbolOrKernelSymbol = none)
    (hargs : lastArgument .rsp args = none) (hrip : s.rip = p.after (head ++ [.label .resolve])) :
    ∃ t, Leaves p s (.called .ps4ResolveModuleAndSymbolOrKernelSymbol) t ∧
      ResolverCall args (p.after (upToResolver head args ++
        [.op (.call .ps4ResolveModuleAndSymbolOrKernelSymbol)])) s t := by
  have hblock : p.text = head ++ [.label .resolve] ++ [.op (.call .ps4Pushall)] ++
      plains (argumentBlock args) ++
      (.op (.call .ps4ResolveModuleAndSymbolOrKernelSymbol) :: afterResolver) := by
    rw [htext, append_slowPath, upToResolver]
  have hcall := text_pushall htext
  -- The three stretches of the run.
  have hfirst := reaches_call hlen hrip hcall hpush
  have hpushed := runRoutine_ps4Pushall
    (s.push (p.after (head ++ [.label .resolve] ++ [.op (.call .ps4Pushall)])))
  generalize runRoutine ps4Pushall
      (s.push (p.after (head ++ [.label .resolve] ++ [.op (.call .ps4Pushall)]))) = t
    at hfirst hpushed
  have htrip : t.rip = p.after (head ++ [.label .resolve] ++ [.op (.call .ps4Pushall)]) := by
    rw [hpushed.rip, mem_push, reg_push, if_pos rfl, loadWord_storeWord_self]
  have hsecond := reaches_block hlen _ (argumentBlock args) _ t hblock htrip
  have hlast :=
    leaves_call hlen (rip_setRip ((argumentBlock args).foldl Instr.exec t) _) hblock hres
  refine ⟨_, (hfirst.trans hsecond).leaves hlast, ?_⟩
  exact resolverCall_of_pushed hpushed hargs

/-- From the return of the resolver to the call of `ps4Popall`. -/
theorem slowPath_keeps (hrip : s.rip = p.after (upToResolver head args ++
      [.op (.call .ps4ResolveModuleAndSymbolOrKernelSymbol)])) :
    ∃ t, Reaches p s t ∧ t.rip = p.after (upToPopall head args) ∧ t.mem = s.mem ∧
      t.reg .rsp = s.reg .rsp ∧ t.reg .r11 = s.reg .rax := by
  have hmov : p.text = upToResolver head args ++
      [.op (.call .ps4ResolveModuleAndSymbolOrKernelSymbol)] ++ plains [.mov .rax .r11] ++
      afterResolver.tail := by
    rw [htext, append_slowPath]
    simp [afterResolver, plains]
  have hfirst := reaches_block hlen _ [.mov .rax .r11] _ s hmov hrip
  exact ⟨_, hfirst, by rw [rip_setRip, upToPopall], rfl, rfl, rfl⟩

omit hlen in
theorem text_popall : p.text = upToPopall head args ++ .op (.call .ps4Popall) ::
    afterResolver.tail.tail := by
  rw [htext, append_slowPath, upToPopall]
  simp [afterResolver, plains]

/-- From the return of the resolver to the test of its status. -/
theorem slowPath_restores (hpop : p.called .ps4Popall = some (runRoutine ps4Popall))
    (hrip : s.rip = p.after (upToResolver head args ++
      [.op (.call .ps4ResolveModuleAndSymbolOrKernelSymbol)])) :
    ∃ t, Reaches p s t ∧ t.rip = p.after (upToExit head args) ∧
      t.zf = decide (s.reg .rax = 0) ∧
      Restored (p.after (upToPopall head args ++ [.op (.call .ps4Popall)])) s t := by
  have hcall := text_popall htext
  have htest : p.text = upToPopall head args ++ [.op (.call .ps4Popall)] ++ plains [.test .r11] ++
      afterResolver.tail.tail.tail := by
    rw [hcall]
    simp [afterResolver, plains]
  obtain ⟨t, hfirst, htrip, htmem, htrsp, htr11⟩ := slowPath_keeps hlen htext hrip
  -- The call moves the return address into the frame and out of it again.
  have hsecond := reaches_call hlen htrip hcall hpop
  have hpopped := runRoutine_ps4Popall
    (t.push (p.after (upToPopall head args ++ [.op (.call .ps4Popall)])))
  generalize runRoutine ps4Popall
    (t.push (p.after (upToPopall head args ++ [.op (.call .ps4Popall)]))) = u at hsecond hpopped
  have hurip : u.rip = p.after (upToPopall head args ++ [.op (.call .ps4Popall)]) := by
    rw [hpopped.rip, mem_push, reg_push, if_pos rfl, loadWord_storeWord_self]
  have hur11 : u.reg .r11 = s.reg .rax := by
    rw [hpopped.kept .r11 (by decide) (by decide), reg_push, if_neg (by decide), htr11]
  have hrestored := restored_of_popped htmem htrsp hpopped
  have hthird := reaches_block hlen _ [.test .r11] _ u htest hurip
  refine ⟨_, (hfirst.trans hsecond).trans hthird, by rw [rip_setRip, upToExit], ?_, ?_⟩
  · rw [zf_setRip, ← hur11]
    rfl
  · exact hrestored.test.setRip

omit hlen in
theorem text_exit : p.text = upToExit head args ++ .op (.jnz .exit) ::
    [.op (.jmp .function), .label .exit, .op .ret] := by
  rw [htext, append_slowPath, upToExit, upToPopall]
  simp [afterResolver, plains]

/-- A status of zero leads back to the start of the stub. -/
theorem slowPath_retries (hpop : p.called .ps4Popall = some (runRoutine ps4Popall))
    (hrip : s.rip = p.after (upToResolver head args ++
      [.op (.call .ps4ResolveModuleAndSymbolOrKernelSymbol)])) (hrax : s.reg .rax = 0) :
    ∃ t, Reaches p s t ∧ t.rip = p.labelAddress .function ∧
      Restored (p.after (upToPopall head args ++ [.op (.call .ps4Popall)])) s t := by
  obtain ⟨t, ht, htrip, hz, hrestored⟩ := slowPath_restores hlen htext hpop hrip
  have hjnz := text_exit htext
  have hjmp : p.text = upToExit head args ++ [.op (.jnz .exit)] ++ .op (.jmp .function) ::
      [.label .exit, .op .ret] := by
    rw [hjnz]
    simp
  have hfall := reaches_jnz hlen htrip hjnz
  rw [hz, hrax, decide_eq_true rfl, if_pos rfl] at hfall
  have hback := reaches_jmp hlen (rip_setRip t _) hjmp
  exact ⟨_, (ht.trans hfall).trans hback, rip_setRip _ _, hrestored.setRip.setRip⟩

/-- Any other one leads to the `ret`. -/
theorem slowPath_returns (hpop : p.called .ps4Popall = some (runRoutine ps4Popall))
    (hno : (.label .exit : Line StubLabel StubSymbol) ∉ head)
    (hrip : s.rip = p.after (upToResolver head args ++
      [.op (.call .ps4ResolveModuleAndSymbolOrKernelSymbol)])) (hrax : s.reg .rax ≠ 0) :
    ∃ t, Reaches p s t ∧ p.step t = some (some .returned, t.pop) ∧
      Restored (p.after (upToPopall head args ++ [.op (.call .ps4Popall)])) s t := by
  obtain ⟨t, ht, htrip, hz, hrestored⟩ := slowPath_restores hlen htext hpop hrip
  have hjnz := text_exit htext
  have hlabel : p.text = upToExit head args ++ [.op (.jnz .exit), .op (.jmp .function)] ++
      .label .exit :: [.op .ret] := by
    rw [hjnz]
    simp
  have hret : p.text = upToExit head args ++ [.op (.jnz .exit), .op (.jmp .function)] ++
      [.label .exit] ++ .op .ret :: [] := by
    rw [hlabel]
    simp
  have hjump := reaches_jnz hlen htrip hjnz
  rw [hz, decide_eq_false hrax, if_neg Bool.false_ne_true,
    labelAddress_eq _ hlabel (by simp [upToExit, upToPopall, upToResolver, plains, hno])] at hjump
  exact ⟨_, ht.trans hjump, step_after hlen (rip_setRip t _) hret, hrestored.setRip⟩

end Run

/-! ### The four stubs -/

section Stubs

variable {stub : Stub} {function cell : U64} {s : State}

theorem text_of_cell {kernel : Bool} (h : stub.cell kernel = some cell) :
    stub.text function = stub.head ++ slowPath (stub.arguments function) := by
  cases stub with
  | syscall number => cases h
  | _ => rfl

theorem labelAddress_resolve {kernel : Bool} (h : stub.cell kernel = some cell)
    (resolver : Option (State → State)) :
    (stub.placed function resolver).labelAddress .resolve
      = (stub.placed function resolver).after (stub.head ++ [.label .resolve]) := by
  have hno : (.label .resolve : Line StubLabel StubSymbol) ∉ stub.head := by
    cases stub <;> simp [Stub.head, throughCell, testMode]
  exact labelAddress_eq stub.head (text_of_cell h) hno

theorem labelAddress_function {kernel : Bool} (h : stub.cell kernel = some cell)
    (resolver : Option (State → State)) :
    (stub.placed function resolver).labelAddress .function = function := by
  have hzero : offsetOf StubLabel.function (stub.text function) = 0 := by
    cases stub with
    | syscall number => cases h
    | _ => rfl
  rw [Placed.labelAddress, Stub.placed, hzero, BitVec.add_zero]

theorem lastArgument_rsp (stub : Stub) (function : U64) :
    lastArgument .rsp (stub.arguments function) = none := by
  cases stub <;> rfl

/-- Where the resolver returns to. -/
def Stub.resolverReturn (stub : Stub) (function : U64) : U64 :=
  (stub.placed function none).after (upToResolver stub.head (stub.arguments function) ++
    [.op (.call .ps4ResolveModuleAndSymbolOrKernelSymbol)])

/-- A stub whose cell is empty takes the slow path. -/
theorem stub_resolves (resolver : Option (State → State))
    (hcell : stub.cell (onKernelStack s) = some cell) (hrip : s.rip = function)
    (hempty : loadWord s.mem cell = 0) :
    ∃ t, Reaches (stub.placed function resolver) s t ∧ Untouched s t ∧
      t.rip = (stub.placed function resolver).after (stub.head ++ [.label .resolve]) := by
  have hlen := textLength_text_lt stub function
  obtain ⟨before, rest, u, htext, hu, hst, hurip⟩ := head_run hcell hrip
  obtain ⟨t, ht, hsame, htrip⟩ := throughCell_resolves hlen htext hurip hst hempty
  rw [labelAddress_resolve hcell] at htrip
  exact ⟨t, hu.trans ht, hsame, htrip⟩

/-- There it calls the resolver. -/
theorem stub_calls (hcell : stub.cell (onKernelStack s) = some cell) (hrip : s.rip = function)
    (hempty : loadWord s.mem cell = 0) :
    ∃ t, Leaves (stub.placed function none) s
        (.called .ps4ResolveModuleAndSymbolOrKernelSymbol) t ∧
      ResolverCall (stub.arguments function) (stub.resolverReturn function) s t := by
  obtain ⟨v, hv, hsame, hvrip⟩ := stub_resolves none hcell hrip hempty
  obtain ⟨t, ht, hcall⟩ := slowPath_calls (textLength_text_lt stub function) (text_of_cell hcell)
    rfl rfl (lastArgument_rsp stub function) hvrip
  exact ⟨t, hv.leaves ht, hcall.of_untouched hsame⟩

/-- A stub whose cell is filled jumps through it. -/
theorem stub_jumps (resolver : Option (State → State))
    (hcell : stub.cell (onKernelStack s) = some cell) (hrip : s.rip = function)
    (hfilled : loadWord s.mem cell ≠ 0) :
    ∃ t, Leaves (stub.placed function resolver) s .jumped t ∧ Untouched s t ∧
      t.rip = loadWord s.mem cell := by
  have hlen := textLength_text_lt stub function
  obtain ⟨before, rest, u, htext, hu, hst, hurip⟩ := head_run hcell hrip
  obtain ⟨t, ht, hsame, htrip⟩ := throughCell_jumps hlen htext hurip hst hfilled
  exact ⟨t, hu.leaves ht, hsame, htrip⟩

end Stubs

/-! ### A caller -/

/-- The assembled stub is in memory at `function`. -/
def Stub.Installed (stub : Stub) (function : U64) (symbol : StubSymbol → U64)
    (mem : U64 → Byte) : Prop :=
  HoldsBytes mem function (assembleAt symbol function (stub.text function))

/-- A user function whose cell is at `0x600000`. -/
def userStub : Stub := .function 0x500000 0x500010 0x600010 0x600000

/-- A call of a stub at `0x400000` with nothing in memory but its code: the stack pointer
is `sp`, the other registers hold `x` and the vector registers `v`. -/
def caller (stub : Stub) (sp x : U64) (v : BitVec 128) : State where
  reg r := if r = .rsp then sp else x
  xmm _ := v
  zf := false
  mem := image (assembleAt (fun _ => 0x410000) 0x400000 (stub.text 0x400000)) 0x400000
  rip := 0x400000

theorem caller_installed (stub : Stub) (sp x : U64) (v : BitVec 128) :
    stub.Installed 0x400000 (fun _ => 0x410000) (caller stub sp x v).mem := by
  refine holdsBytes_image ?_ _
  have hlen := textLength_text_lt stub 0x400000
  rw [assembleAt, length_assemble]
  omega

theorem caller_empty (stub : Stub) (sp x : U64) (v : BitVec 128) :
    loadWord (caller stub sp x v).mem 0x600000 = 0 := by
  refine loadWord_image_of_outside fun k hk => ?_
  have hlen := textLength_text_le stub 0x400000
  rw [assembleAt, length_assemble]
  have hfar : (0x600000 + BitVec.ofNat 64 k - (0x400000 : U64)).toNat = 0x200000 + k := by bv_omega
  omega

end LibPS4
