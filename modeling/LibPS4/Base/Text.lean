/-
Runs of a placed text.

A run is a chain of steps that stay inside the text, and it ends by leaving it.  Where a
step is taken is a question of offsets, so the lemmas about `opAt` come first: an
operation is found behind whatever stands before it, and its bytes are where it is.

`reaches_block` is the rule for a straight line of plain instructions, and
`reaches_of_leaves_called` the one for linking: a text that calls out in state `t` goes
on, once the callee is linked, from what the callee makes of `t`.
-/
import LibPS4.Base.X64
import Mathlib.Logic.Relation

namespace X64

open Effects

variable {lab sym : Type}

/-! ### Offsets -/

def textLength (text : List (Line lab sym)) : Nat := (text.map Line.length).sum

@[simp] theorem textLength_nil : textLength ([] : List (Line lab sym)) = 0 := rfl

@[simp] theorem textLength_cons (l : Line lab sym) (rest : List (Line lab sym)) :
    textLength (l :: rest) = l.length + textLength rest := rfl

@[simp] theorem textLength_append (xs ys : List (Line lab sym)) :
    textLength (xs ++ ys) = textLength xs + textLength ys := by
  simp [textLength]

@[simp] theorem length_immediate (n : Nat) (v : U64) : (immediate n v).length = n := by
  simp [immediate]

theorem Op.length_pos (o : Op lab sym) : 0 < o.length := by
  cases o with
  | plain i => cases i <;> simp [Op.length, Instr.encode]
  | jmpReg r =>
      simp only [Op.length]
      split <;> omega
  | _ => simp [Op.length]

/-- What stands before an operation only shifts it. -/
theorem opAt_append (xs ys : List (Line lab sym)) (n : Nat) :
    opAt (xs ++ ys) (textLength xs + n) = opAt ys n := by
  induction xs with
  | nil => simp
  | cons l xs ih =>
      cases l with
      | label l =>
          rw [List.cons_append, opAt, textLength_cons, Line.length, Nat.zero_add]
          exact ih
      | op o =>
          have hpos := o.length_pos
          have hsub : o.length + textLength xs + n - o.length = textLength xs + n := by omega
          rw [List.cons_append, opAt, textLength_cons, Line.length, if_neg (by omega),
            if_neg (by omega), hsub]
          exact ih

/-- The operation right after `xs`. -/
theorem opAt_append_op (xs rest : List (Line lab sym)) (o : Op lab sym) :
    opAt (xs ++ .op o :: rest) (textLength xs) = some o := by
  have h := opAt_append xs (.op o :: rest) 0
  rw [Nat.add_zero] at h
  rw [h, opAt, if_pos rfl]

/-- A label is where it first stands. -/
theorem offsetOf_append [DecidableEq lab] (l : lab) (rest : List (Line lab sym)) :
    ∀ xs : List (Line lab sym), (.label l : Line lab sym) ∉ xs →
      offsetOf l (xs ++ .label l :: rest) = textLength xs := by
  intro xs
  induction xs with
  | nil => intro _; simp [offsetOf]
  | cons x xs ih =>
      intro h
      rw [List.mem_cons, not_or] at h
      cases x with
      | label l' =>
          have hne : l ≠ l' := fun hc => h.1 (congrArg Line.label hc)
          rw [List.cons_append, offsetOf, if_neg hne, ih h.2]
          simp [Line.length]
      | op o =>
          rw [List.cons_append, offsetOf, ih h.2]
          rfl

theorem Op.length_encode (label : lab → U64) (symbol : sym → U64) (rip : U64)
    (o : Op lab sym) : (o.encode label symbol rip).length = o.length := by
  cases o with
  | plain i => rfl
  | jmpReg r =>
      simp only [Op.encode, Op.length]
      split <;> rfl
  | _ => simp [Op.encode, Op.length]

/-- The bytes of an operation stand at its offset. -/
theorem assemble_getElem? (label : lab → U64) (symbol : sym → U64) (o : Op lab sym) :
    ∀ (text : List (Line lab sym)) (rip : U64) (n : Nat), opAt text n = some o →
      ∀ j < o.length, (assemble label symbol rip text)[n + j]?
        = (o.encode label symbol (rip + BitVec.ofNat 64 n))[j]? := by
  intro text
  induction text with
  | nil => intro rip n h; cases h
  | cons l text ih =>
      intro rip n h j hj
      cases l with
      | label l => exact ih rip n h j hj
      | op o' =>
          rw [assemble]
          rw [opAt] at h
          by_cases hn : n = 0
          · rw [if_pos hn] at h
            cases h
            rw [hn, Nat.zero_add, BitVec.add_zero, List.getElem?_append_left]
            rw [Op.length_encode]
            exact hj
          · rw [if_neg hn] at h
            by_cases hlt : n < o'.length
            · rw [if_pos hlt] at h
              cases h
            · rw [if_neg hlt] at h
              have hlen := o'.length_encode label symbol rip
              have hrip : rip + BitVec.ofNat 64 o'.length + BitVec.ofNat 64 (n - o'.length)
                  = rip + BitVec.ofNat 64 n := by
                rw [BitVec.add_assoc, ← BitVec.ofNat_add, Nat.add_sub_cancel' (by omega)]
              rw [List.getElem?_append_right (by omega), hlen,
                show n + j - o'.length = n - o'.length + j by omega, ih _ _ h j hj, hrip]

/-- Memory holds these bytes from `a` on. -/
def HoldsBytes (m : U64 → Byte) (a : U64) (bytes : List Byte) : Prop :=
  ∀ k b, bytes[k]? = some b → m (a + BitVec.ofNat 64 k) = b

/-- A memory with nothing but these bytes in it. -/
def image (bytes : List Byte) (a : U64) : U64 → Byte := fun x => bytes[(x - a).toNat]?.getD 0

theorem holdsBytes_image {bytes : List Byte} (h : bytes.length ≤ 2 ^ 64) (a : U64) :
    HoldsBytes (image bytes a) a bytes := by
  intro k b hb
  obtain ⟨hk, -⟩ := List.getElem?_eq_some_iff.mp hb
  rw [image, toNat_add_ofNat_sub a (by omega), hb]
  rfl

theorem loadWord_image_of_outside {bytes : List Byte} {a x : U64}
    (h : ∀ k < 8, bytes.length ≤ (x + BitVec.ofNat 64 k - a).toNat) :
    loadWord (image bytes a) x = 0 := by
  refine le64_of_bytes fun k hk => ?_
  rw [image, List.getElem?_eq_none (h k hk)]
  show (0 : Byte) = byteOf 0 k
  rw [byteOf, Nat.zero_div]
  rfl

theorem length_assemble (label : lab → U64) (symbol : sym → U64) :
    ∀ (text : List (Line lab sym)) (rip : U64),
      (assemble label symbol rip text).length = textLength text := by
  intro text
  induction text with
  | nil => intro rip; rfl
  | cons l text ih =>
      intro rip
      cases l with
      | label l =>
          rw [assemble, ih, textLength_cons, Line.length, Nat.zero_add]
      | op o =>
          rw [assemble, List.length_append, ih, Op.length_encode, textLength_cons, Line.length]

section Bytes

variable [DecidableEq lab] {symbol : sym → U64} {base : U64} {text : List (Line lab sym)}
  {m : U64 → Byte} (hm : HoldsBytes m base (assembleAt symbol base text)) {n : Nat}

include hm

/-- Bytes of an operation whose encoding does not depend on where it is. -/
theorem byte_of_plain {i : Instr} (ho : opAt text n = some (.plain i)) {j : Nat} {b : Byte}
    (hb : i.encode[j]? = some b) : m (base + BitVec.ofNat 64 (n + j)) = b := by
  refine hm (n + j) b ?_
  obtain ⟨hj, -⟩ := List.getElem?_eq_some_iff.mp hb
  unfold assembleAt
  rw [assemble_getElem? _ _ _ text base n ho j hj]
  exact hb

/-- An immediate operand is read back from the code. -/
theorem loadWord_movImm {v : U64} {r : Reg} (ho : opAt text n = some (.plain (.movImm v r))) :
    loadWord m (base + BitVec.ofNat 64 (n + 2)) = v := by
  refine le64_of_bytes fun k hk => ?_
  have hb : (Instr.movImm v r).encode[2 + k]? = some (byteOf v.toNat k) := by
    rw [Instr.encode, List.getElem?_append_right (by simp)]
    simp [immediate, hk]
  have hbyte := byte_of_plain hm ho hb
  rwa [← Nat.add_assoc, BitVec.ofNat_add (n + 2) k, ← BitVec.add_assoc] at hbyte

end Bytes

/-! ### Steps and runs -/

section Runs

variable [DecidableEq lab] {p : Placed lab sym}

/-- A run that leaves the text does so with more steps allowed, too. -/
theorem run_add {n : Nat} {s : State} {c : Exit sym × State} (h : p.run n s = some c) :
    ∀ k, p.run (n + k) s = some c := by
  induction n generalizing s with
  | zero => cases h
  | succ n ih =>
      intro k
      rw [Nat.add_right_comm, Placed.run]
      rw [Placed.run] at h
      cases hs : p.step s with
      | none => rw [hs] at h; cases h
      | some o =>
          obtain ⟨e, s'⟩ := o
          rw [hs] at h
          cases e with
          | some e => exact h
          | none => exact ih h k

/-- Control leaves the text with `e`, in state `t`. -/
def Leaves (p : Placed lab sym) (s : State) (e : Exit sym) (t : State) : Prop :=
  ∃ n, p.run n s = some (e, t)

theorem Leaves.unique {s t t' : State} {e e' : Exit sym} (h : Leaves p s e t)
    (h' : Leaves p s e' t') : e = e' ∧ t = t' := by
  obtain ⟨n, hn⟩ := h
  obtain ⟨m, hm⟩ := h'
  have h1 := run_add hn m
  have h2 := run_add hm n
  rw [Nat.add_comm, h2] at h1
  have heq := Option.some.inj h1
  exact ⟨(congrArg Prod.fst heq).symm, (congrArg Prod.snd heq).symm⟩

/-- Steps inside the text lead from `s` to `t`. -/
def Reaches (p : Placed lab sym) : State → State → Prop :=
  Relation.ReflTransGen fun s t => p.step s = some (none, t)

theorem Reaches.single {s t : State} (h : p.step s = some (none, t)) : Reaches p s t :=
  Relation.ReflTransGen.single h

theorem Reaches.head {s t u : State} (h : p.step s = some (none, t)) (h' : Reaches p t u) :
    Reaches p s u := Relation.ReflTransGen.head h h'

theorem Reaches.trans {s t u : State} (h : Reaches p s t) (h' : Reaches p t u) :
    Reaches p s u := Relation.ReflTransGen.trans h h'

theorem Reaches.leaves {s t u : State} {e : Exit sym} (h : Reaches p s t)
    (ht : Leaves p t e u) : Leaves p s e u := by
  induction h using Relation.ReflTransGen.head_induction_on with
  | refl => exact ht
  | head hstep _ ih =>
      obtain ⟨n, hn⟩ := ih
      refine ⟨n + 1, ?_⟩
      rw [Placed.run, hstep]
      exact hn

/-! ### One operation after a prefix of the text -/

/-- The address after a prefix of the text. -/
def Placed.after (p : Placed lab sym) (before : List (Line lab sym)) : U64 :=
  p.base + BitVec.ofNat 64 (textLength before)

theorem labelAddress_eq {l : lab} (before : List (Line lab sym)) {rest : List (Line lab sym)}
    (htext : p.text = before ++ .label l :: rest) (h : (.label l : Line lab sym) ∉ before) :
    p.labelAddress l = p.after (before ++ [.label l]) := by
  rw [Placed.labelAddress, htext, offsetOf_append l rest before h, Placed.after, textLength_append]
  rfl

section Rules

variable {before rest : List (Line lab sym)} {s : State}

omit [DecidableEq lab] in
theorem next_eq (hrip : s.rip = p.after before) (o : Op lab sym) :
    s.rip + BitVec.ofNat 64 o.length = p.after (before ++ [.op o]) := by
  unfold Placed.after at hrip ⊢
  rw [hrip, BitVec.add_assoc, ← BitVec.ofNat_add, textLength_append]
  rfl

variable (hlen : textLength p.text < 2 ^ 64) (hrip : s.rip = p.after before)

include hlen hrip

omit [DecidableEq lab] in
theorem opAt_after {o : Op lab sym} (htext : p.text = before ++ .op o :: rest) :
    opAt p.text (s.rip - p.base).toNat = some o := by
  have hbefore : textLength before < 2 ^ 64 := by
    rw [htext, textLength_append] at hlen
    omega
  rw [hrip, Placed.after, toNat_add_ofNat_sub p.base hbefore, htext, opAt_append_op]

theorem step_after {o : Op lab sym} (htext : p.text = before ++ .op o :: rest) :
    p.step s = some (p.exec s o) := by
  unfold Placed.step
  rw [opAt_after hlen hrip htext]
  rfl

theorem reaches_plain {i : Instr} (htext : p.text = before ++ .op (.plain i) :: rest) :
    Reaches p s ((i.exec s).setRip (p.after (before ++ [.op (.plain i)]))) := by
  apply Reaches.single
  rw [step_after hlen hrip htext, ← next_eq hrip]
  rfl

theorem reaches_call {f : sym} {g : State → State}
    (htext : p.text = before ++ .op (.call f) :: rest) (hf : p.called f = some g) :
    Reaches p s (g (s.push (p.after (before ++ [.op (.call f)])))) := by
  apply Reaches.single
  rw [step_after hlen hrip htext, ← next_eq hrip]
  simp only [Placed.exec, hf]

theorem leaves_call {f : sym} (htext : p.text = before ++ .op (.call f) :: rest)
    (hf : p.called f = none) :
    Leaves p s (.called f) (s.push (p.after (before ++ [.op (.call f)]))) := by
  refine ⟨1, ?_⟩
  rw [Placed.run, step_after hlen hrip htext, ← next_eq hrip]
  simp only [Placed.exec, hf]

theorem reaches_jz {l : lab} (htext : p.text = before ++ .op (.jz l) :: rest) :
    Reaches p s (s.setRip
      (if s.zf then p.labelAddress l else p.after (before ++ [.op (.jz l)]))) := by
  apply Reaches.single
  rw [step_after hlen hrip htext, ← next_eq hrip]
  rfl

theorem reaches_jnz {l : lab} (htext : p.text = before ++ .op (.jnz l) :: rest) :
    Reaches p s (s.setRip
      (if s.zf then p.after (before ++ [.op (.jnz l)]) else p.labelAddress l)) := by
  apply Reaches.single
  rw [step_after hlen hrip htext, ← next_eq hrip]
  rfl

theorem reaches_jmp {l : lab} (htext : p.text = before ++ .op (.jmp l) :: rest) :
    Reaches p s (s.setRip (p.labelAddress l)) := by
  apply Reaches.single
  rw [step_after hlen hrip htext]
  rfl

theorem leaves_jmpReg {r : Reg} (htext : p.text = before ++ .op (.jmpReg r) :: rest) :
    Leaves p s .jumped (s.setRip (s.reg r)) := by
  refine ⟨1, ?_⟩
  rw [Placed.run, step_after hlen hrip htext]
  rfl

theorem leaves_jmpSym {f : sym} (htext : p.text = before ++ .op (.jmpSym f) :: rest) :
    Leaves p s (.tail f) s := by
  refine ⟨1, ?_⟩
  rw [Placed.run, step_after hlen hrip htext]
  rfl

end Rules

/-! ### Straight lines -/

/-- Plain instructions do not look at the instruction pointer. -/
theorem exec_setRip (s : State) (a : U64) (i : Instr) :
    i.exec (s.setRip a) = (i.exec s).setRip a := by
  cases i <;> rfl

theorem foldl_exec_setRip (block : List Instr) : ∀ (s : State) (a : U64),
    block.foldl Instr.exec (s.setRip a) = (block.foldl Instr.exec s).setRip a := by
  induction block with
  | nil => intro s a; rfl
  | cons i block ih =>
      intro s a
      rw [List.foldl_cons, List.foldl_cons, exec_setRip, ih]

/-- Plain instructions as lines. -/
def plains (block : List Instr) : List (Line lab sym) := block.map fun i => .op (.plain i)

/-- A block of plain instructions runs as a whole. -/
theorem reaches_block (hlen : textLength p.text < 2 ^ 64) (rest : List (Line lab sym))
    (block : List Instr) : ∀ (before : List (Line lab sym)) (s : State),
    p.text = before ++ plains block ++ rest → s.rip = p.after before →
    Reaches p s ((block.foldl Instr.exec s).setRip (p.after (before ++ plains block))) := by
  induction block with
  | nil =>
      intro before s _ hrip
      rw [plains, List.map_nil, List.append_nil, ← hrip]
      exact Relation.ReflTransGen.refl
  | cons i block ih =>
      intro before s htext hrip
      have hcons : before ++ plains (i :: block)
          = before ++ [Line.op (Op.plain i)] ++ plains block := by
        simp [plains]
      have hplain : p.text = before ++ .op (.plain i) :: (plains block ++ rest) := by
        rw [htext, hcons]
        simp
      have hrest := ih (before ++ [Line.op (Op.plain i)])
        ((i.exec s).setRip (p.after (before ++ [Line.op (Op.plain i)]))) (by rw [htext, hcons]) rfl
      rw [foldl_exec_setRip] at hrest
      rw [hcons, List.foldl_cons]
      exact (reaches_plain hlen hrip hplain).trans hrest

/-! ### Linking -/

/-- The same text with `f` linked to `g`. -/
def Placed.link [DecidableEq sym] (p : Placed lab sym) (f : sym) (g : State → State) :
    Placed lab sym :=
  { p with called := fun x => if x = f then some g else p.called x }

section Link

variable [DecidableEq sym] {f : sym} {s t : State}

/-- Steps that stay inside the text do not call what is not linked. -/
theorem exec_link_of_inside (hf : p.called f = none) (g : State → State) {o : Op lab sym}
    (h : p.exec s o = (none, t)) : (p.link f g).exec s o = (none, t) := by
  cases o with
  | call f' =>
      have hne : f' ≠ f := by
        rintro rfl
        simp only [Placed.exec, hf] at h
        cases h
      simp only [Placed.exec, Placed.link, if_neg hne]
      exact h
  | _ => exact h

theorem exec_link_of_called (hf : p.called f = none) (g : State → State) {o : Op lab sym}
    (h : p.exec s o = (some (.called f), t)) : (p.link f g).exec s o = (none, g t) := by
  cases o with
  | call f' =>
      cases hc : p.called f' with
      | some g' => simp only [Placed.exec, hc] at h; cases h
      | none =>
          simp only [Placed.exec, hc, Prod.mk.injEq, Option.some.injEq, Exit.called.injEq] at h
          obtain ⟨rfl, rfl⟩ := h
          simp only [Placed.exec, Placed.link, if_pos]
  | _ => cases h

/-- A text that calls `f` in state `t` goes on, with `f` linked, from what `f` makes of
`t`. -/
theorem reaches_of_leaves_called (hf : p.called f = none) (g : State → State)
    (h : Leaves p s (.called f) t) : Reaches (p.link f g) s (g t) := by
  obtain ⟨n, hn⟩ := h
  induction n generalizing s with
  | zero => cases hn
  | succ n ih =>
      rw [Placed.run] at hn
      cases ho : opAt p.text (s.rip - p.base).toNat with
      | none =>
          rw [Placed.step, ho] at hn
          cases hn
      | some o =>
          have hstep : p.step s = some (p.exec s o) := by rw [Placed.step, ho]; rfl
          have hlink : (p.link f g).step s = some ((p.link f g).exec s o) := by
            show (opAt p.text (s.rip - p.base).toNat).map _ = _
            rw [ho]
            rfl
          rcases hexec : p.exec s o with ⟨e, u⟩
          rw [hstep, hexec] at hn
          cases e with
          | none =>
              refine Reaches.head ?_ (ih hn)
              rw [hlink, exec_link_of_inside hf g hexec]
          | some e =>
              cases hn
              apply Reaches.single
              rw [hlink, exec_link_of_called hf g hexec]

end Link

end Runs

end X64
