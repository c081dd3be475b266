/-
Routines that save registers on the stack and routines that load them back.

A run of stores leaves the registers alone and puts a list of words into memory; a run of
loads leaves the memory alone and takes each register from the last word loaded into it.
So what a saving routine and a restoring one do to a register together is a comparison of
two lists of displacements.
-/
import LibPS4.Base.X64

namespace X64

open Effects

/-! ### Stores -/

/-- Store words at displacements from `a`, first to last. -/
def storeWords (m : U64 → Byte) (a : U64) (words : List (Nat × U64)) : U64 → Byte :=
  words.foldl (fun m w => storeWord m (a + BitVec.ofNat 64 w.1) w.2) m

theorem storeWords_cons (m : U64 → Byte) (a : U64) (w : Nat × U64) (words : List (Nat × U64)) :
    storeWords m a (w :: words) = storeWords (storeWord m (a + BitVec.ofNat 64 w.1) w.2) a words :=
  rfl

/-- A displacement a word can stand at without meeting another one. -/
def Slot (d : Nat) : Prop := d % 8 = 0 ∧ d < 2 ^ 32

instance (d : Nat) : Decidable (Slot d) := inferInstanceAs (Decidable (_ ∧ _))

theorem loadWord_storeWords_of_notMem (a : U64) {d : Nat} (hd : Slot d) :
    ∀ (words : List (Nat × U64)) (m : U64 → Byte), (∀ w ∈ words, Slot w.1) →
      (∀ w ∈ words, w.1 ≠ d) → loadWord (storeWords m a words) (a + BitVec.ofNat 64 d)
        = loadWord m (a + BitVec.ofNat 64 d) := by
  intro words
  induction words with
  | nil => intro m _ _; rfl
  | cons w words ih =>
      intro m hslot hne
      have hw := hslot w (by simp)
      rw [storeWords_cons, ih _ (fun x hx => hslot x (by simp [hx]))
        fun x hx => hne x (by simp [hx])]
      exact loadWord_storeWord_of_ne m a w.2 hw.1 hd.1 hw.2 hd.2 (hne w (by simp))

/-- A word stored at a displacement of its own is there afterwards. -/
theorem loadWord_storeWords (a : U64) {d : Nat} {v : U64} :
    ∀ (words : List (Nat × U64)) (m : U64 → Byte), (∀ w ∈ words, Slot w.1) →
      (words.map Prod.fst).Nodup → (d, v) ∈ words →
      loadWord (storeWords m a words) (a + BitVec.ofNat 64 d) = v := by
  intro words
  induction words with
  | nil => intro m _ _ h; cases h
  | cons w words ih =>
      intro m hslot hnodup h
      have hslot' : ∀ x ∈ words, Slot x.1 := fun x hx => hslot x (by simp [hx])
      rw [List.map_cons, List.nodup_cons] at hnodup
      rw [storeWords_cons]
      rcases List.mem_cons.mp h with rfl | h
      · -- Stored first: no later word has the same displacement.
        rw [loadWord_storeWords_of_notMem a (hslot (d, v) (by simp)) words _ hslot' fun x hx hxd =>
          hnodup.1 (List.mem_map.mpr ⟨x, hx, hxd⟩)]
        exact loadWord_storeWord_self m _ v
      · exact ih _ hslot' hnodup.2 h

theorem storeWords_of_outside (a : U64) {n : Nat} (hn : n < 2 ^ 64) {x : U64}
    (hx : n ≤ (x - a).toNat) : ∀ (words : List (Nat × U64)) (m : U64 → Byte),
    (∀ w ∈ words, w.1 + 8 ≤ n) → storeWords m a words x = m x := by
  intro words
  induction words with
  | nil => intro m _; rfl
  | cons w words ih =>
      intro m h
      have hw := h w (by simp)
      rw [storeWords_cons, ih _ fun y hy => h y (by simp [hy])]
      exact storeWord_of_outside m (by bv_omega)

namespace FrameInstr

def isStore : FrameInstr → Bool
  | .store .. | .storeX .. => true
  | _ => false

/-- The words a store puts into memory, with their displacements. -/
def stored (s : State) : FrameInstr → List (Nat × U64)
  | .store r disp => [(disp, s.reg r)]
  | .storeX x disp => [(disp, lower (s.xmm x)), (disp + 8, upper (s.xmm x))]
  | _ => []

end FrameInstr

theorem FrameInstr.stored_mem (m : U64 → Byte) (s : State) (i : FrameInstr) :
    i.stored { s with mem := m } = i.stored s := by
  cases i <;> rfl

theorem exec_isStore {i : FrameInstr} (h : i.isStore = true) (s : State) :
    i.exec s = { s with mem := storeWords s.mem (s.reg .rsp) (i.stored s) } := by
  cases i with
  | store r disp => rfl
  | storeX x disp => rfl
  | _ => cases h

/-- A run of stores. -/
theorem foldl_stores (body : List FrameInstr) : ∀ s : State, (∀ i ∈ body, i.isStore = true) →
    body.foldl FrameInstr.exec s
      = { s with mem := storeWords s.mem (s.reg .rsp) (body.flatMap fun i => i.stored s) } := by
  induction body with
  | nil => intro s _; rfl
  | cons i body ih =>
      intro s h
      rw [List.foldl_cons, exec_isStore (h i (by simp)), ih _ fun j hj => h j (by simp [hj])]
      simp only [FrameInstr.stored_mem, List.flatMap_cons, storeWords, List.foldl_append]

/-- Where a body puts its words, in order. -/
def storedAt : List FrameInstr → State → List U64
  | [], _ => []
  | i :: rest, s =>
      (i.stored s).map (fun w => s.reg .rsp + BitVec.ofNat 64 w.1) ++ storedAt rest (i.exec s)

theorem storedAt_append (xs ys : List FrameInstr) : ∀ s : State,
    storedAt (xs ++ ys) s = storedAt xs s ++ storedAt ys (xs.foldl FrameInstr.exec s) := by
  induction xs with
  | nil => intro s; rfl
  | cons i xs ih =>
      intro s
      rw [List.cons_append, storedAt, ih, storedAt, List.append_assoc]
      rfl

/-- A run of stores does not move the stack pointer. -/
theorem storedAt_stores (body : List FrameInstr) : ∀ s : State, (∀ i ∈ body, i.isStore = true) →
    storedAt body s = (body.flatMap fun i => i.stored s).map
      fun w => s.reg .rsp + BitVec.ofNat 64 w.1 := by
  induction body with
  | nil => intro s _; rfl
  | cons i body ih =>
      intro s h
      rw [storedAt, exec_isStore (h i (by simp)), ih _ fun j hj => h j (by simp [hj])]
      simp only [FrameInstr.stored_mem, List.flatMap_cons, List.map_append]

/-! ### Loads -/

namespace FrameInstr

/-- Loads, but not of the stack pointer. -/
def isLoad : FrameInstr → Bool
  | .load _ r => r != .rsp
  | .loadX .. => true
  | _ => false

/-- Where an instruction takes a register from. -/
def source (r : Reg) : FrameInstr → Option Nat
  | .load disp r' => if r' = r then some disp else none
  | _ => none

def sourceX (x : Fin 16) : FrameInstr → Option Nat
  | .loadX disp y => if y = x then some disp else none
  | _ => none

end FrameInstr

/-- Where the last instruction that loads it takes a register from. -/
def lastSource (source : FrameInstr → Option Nat) : List FrameInstr → Option Nat
  | [] => none
  | i :: rest => (lastSource source rest).or (source i)

/-- Two words of memory as a vector register. -/
def loadWords (m : U64 → Byte) (a : U64) (disp : Nat) : BitVec 128 :=
  loadWord m (a + BitVec.ofNat 64 (disp + 8)) ++ loadWord m (a + BitVec.ofNat 64 disp)

section Load

variable {i : FrameInstr} (h : i.isLoad = true) (s : State)

include h

theorem mem_isLoad : (i.exec s).mem = s.mem := by
  cases i with
  | load disp r => rfl
  | loadX disp x => rfl
  | _ => cases h

theorem rip_isLoad : (i.exec s).rip = s.rip := by
  cases i with
  | load disp r => rfl
  | loadX disp x => rfl
  | _ => cases h

theorem reg_isLoad (r : Reg) : (i.exec s).reg r
    = (i.source r).elim (s.reg r) fun d => loadWord s.mem (s.reg .rsp + BitVec.ofNat 64 d) := by
  cases i with
  | load disp r' =>
      rw [FrameInstr.exec, reg_setReg, FrameInstr.source]
      by_cases hr : r = r'
      · rw [if_pos hr, if_pos hr.symm]; rfl
      · rw [if_neg hr, if_neg (Ne.symm hr)]; rfl
  | loadX disp x => rfl
  | _ => cases h

theorem xmm_isLoad (x : Fin 16) : (i.exec s).xmm x
    = (i.sourceX x).elim (s.xmm x) (loadWords s.mem (s.reg .rsp)) := by
  cases i with
  | load disp r => rfl
  | loadX disp y =>
      rw [FrameInstr.exec, xmm_setXmm, FrameInstr.sourceX]
      by_cases hx : x = y
      · rw [if_pos hx, if_pos hx.symm]; rfl
      · rw [if_neg hx, if_neg (Ne.symm hx)]; rfl
  | _ => cases h

theorem rsp_isLoad : (i.exec s).reg .rsp = s.reg .rsp := by
  have hnone : i.source .rsp = none := by
    cases i with
    | load disp r =>
        rw [FrameInstr.source, if_neg]
        simpa [FrameInstr.isLoad] using h
    | _ => rfl
  rw [reg_isLoad h, hnone]
  rfl

end Load

/-- A run of loads stores nothing. -/
theorem storedAt_loads (body : List FrameInstr) : ∀ s : State, (∀ i ∈ body, i.isLoad = true) →
    storedAt body s = [] := by
  induction body with
  | nil => intro s _; rfl
  | cons i body ih =>
      intro s h
      have hnone : i.stored s = [] := by
        have hi := h i (by simp)
        cases i with
        | store r disp => cases hi
        | storeX x disp => cases hi
        | _ => rfl
      rw [storedAt, hnone, ih _ fun j hj => h j (by simp [hj])]
      rfl

/-- What a run of loads leaves. -/
structure Loaded (body : List FrameInstr) (s t : State) : Prop where
  mem : t.mem = s.mem
  rip : t.rip = s.rip
  rsp : t.reg .rsp = s.reg .rsp
  reg : ∀ r, t.reg r = (lastSource (FrameInstr.source r) body).elim (s.reg r)
    fun d => loadWord s.mem (s.reg .rsp + BitVec.ofNat 64 d)
  xmm : ∀ x, t.xmm x = (lastSource (FrameInstr.sourceX x) body).elim (s.xmm x)
    (loadWords s.mem (s.reg .rsp))

/-- A run of loads. -/
theorem foldl_loads (body : List FrameInstr) : ∀ s : State, (∀ i ∈ body, i.isLoad = true) →
    Loaded body s (body.foldl FrameInstr.exec s) := by
  induction body with
  | nil => intro s _; exact ⟨rfl, rfl, rfl, fun _ => rfl, fun _ => rfl⟩
  | cons i body ih =>
      intro s h
      have hi := h i (by simp)
      have hbody := ih (i.exec s) fun j hj => h j (by simp [hj])
      rw [List.foldl_cons]
      refine ⟨?_, ?_, ?_, fun r => ?_, fun x => ?_⟩
      · rw [hbody.mem, mem_isLoad hi]
      · rw [hbody.rip, rip_isLoad hi]
      · rw [hbody.rsp, rsp_isLoad hi]
      · rw [hbody.reg, mem_isLoad hi, rsp_isLoad hi, reg_isLoad hi, lastSource]
        cases lastSource (FrameInstr.source r) body <;> rfl
      · rw [hbody.xmm, mem_isLoad hi, rsp_isLoad hi, xmm_isLoad hi, lastSource]
        cases lastSource (FrameInstr.sourceX x) body <;> rfl

end X64
