/-
What `ps4Pushall` and `ps4Popall` do to a call frame.

Both are entered by a call, so both find a return address on top of the stack and have to
move it across the frame they open or close.  The frame is one word larger than the 240
bytes they allocate: the return address of `ps4Pushall` stands in the upper half of the
slot of `%xmm7`, and so does the one `ps4Popall` leaves for its own `ret`.  The first
routine takes its return address away before it saves `%xmm7`; the second writes its own
there before it has reloaded the register.
-/
import LibPS4.Base.Routine
import LibPS4.Stub.Template

namespace LibPS4

open Effects X64

/-- The stores of `ps4Pushall`, after it has taken its return address away. -/
def saves : List FrameInstr := ps4Pushall.drop 3

/-- The loads of `ps4Popall`, after it has moved its return address. -/
def restores : List FrameInstr := (ps4Popall.drop 2).take 21

/-- Where the frame holds a register. -/
def slotOf (r : Reg) : Option Nat := lastSource (FrameInstr.source r) restores

theorem ps4Pushall_eq : ps4Pushall = [.sub 240, .store .rax 8, .load 240 .rax] ++ saves := rfl

theorem ps4Popall_eq : ps4Popall = [.load 0 .rax, .store .rax 240] ++ restores ++ [.add 240] := rfl

/-- What the one routine saves the other restores from the same place. -/
theorem store_mem_saves {r : Reg} {d : Nat} (h : slotOf r = some d) :
    r = .rax ∧ d = 8 ∨ r ≠ .rax ∧ r ≠ .rsp ∧ FrameInstr.store r d ∈ saves := by
  have hall : ∀ r ∈ Reg.all, ∀ d ∈ slotOf r,
      r = .rax ∧ d = 8 ∨ r ≠ .rax ∧ r ≠ .rsp ∧ FrameInstr.store r d ∈ saves := by
    decide
  exact hall r r.mem_all d h

theorem slot_of_slotOf {r : Reg} {d : Nat} (h : slotOf r = some d) : 8 ≤ d ∧ d ≤ 104 ∧ Slot d := by
  have hall : ∀ r ∈ Reg.all, ∀ d ∈ slotOf r, 8 ≤ d ∧ d ≤ 104 ∧ Slot d := by decide
  exact hall r r.mem_all d h

theorem storeX_mem_saves : ∀ x : Fin 16, x < 8 →
    lastSource (FrameInstr.sourceX x) restores = some (120 + 16 * x.val) ∧
      FrameInstr.storeX x (120 + 16 * x.val) ∈ saves := by
  decide

/-! ### Saving -/

/-- `ps4Pushall`, entered in `s`, returns in `t`. -/
structure Pushed (s t : State) : Prop where
  rip : t.rip = loadWord s.mem (s.reg .rsp)
  rsp : t.reg .rsp = s.reg .rsp - 240 + 8
  reg : ∀ r, r ≠ .rsp → r ≠ .rax → t.reg r = s.reg r
  xmm : t.xmm = s.xmm
  saved : ∀ r d, slotOf r = some d →
    loadWord t.mem (s.reg .rsp - 240 + BitVec.ofNat 64 d) = s.reg r
  savedX : ∀ x : Fin 16, x < 8 →
    loadWords t.mem (s.reg .rsp - 240) (120 + 16 * x.val) = s.xmm x
  outside : ∀ a, 248 ≤ (a - (s.reg .rsp - 240)).toNat → t.mem a = s.mem a

/-- The frame is open and the return address is taken away. -/
def opened (s : State) : State :=
  [FrameInstr.sub 240, .store .rax 8, .load 240 .rax].foldl FrameInstr.exec s

/-- The words `ps4Pushall` stores. -/
def pushed (s : State) : List (Nat × U64) :=
  (8, s.reg .rax) :: saves.flatMap fun i => i.stored (opened s)

theorem rax_opened (s : State) : (opened s).reg .rax = loadWord s.mem (s.reg .rsp) := by
  show loadWord (storeWord s.mem (s.reg .rsp - 240 + BitVec.ofNat 64 8) (s.reg .rax))
    (s.reg .rsp - 240 + BitVec.ofNat 64 240) = _
  rw [loadWord_storeWord_of_ne _ _ _ (by decide) (by decide) (by decide) (by decide) (by decide)]
  congr 1
  bv_omega

theorem reg_opened (s : State) {r : Reg} (h : r ≠ .rsp) (h' : r ≠ .rax) :
    (opened s).reg r = s.reg r := by
  show (if r = .rax then _ else if r = .rsp then _ else s.reg r) = _
  rw [if_neg h', if_neg h]

theorem rsp_opened (s : State) : (opened s).reg .rsp = s.reg .rsp - 240 := rfl

theorem mem_opened (s : State) :
    (opened s).mem = storeWord s.mem (s.reg .rsp - 240 + BitVec.ofNat 64 8) (s.reg .rax) := rfl

theorem foldl_ps4Pushall (s : State) : ps4Pushall.foldl FrameInstr.exec s
    = { opened s with mem := storeWords s.mem (s.reg .rsp - 240) (pushed s) } := by
  have hsaves := foldl_stores saves (opened s) (by decide)
  rw [mem_opened, rsp_opened] at hsaves
  rw [ps4Pushall_eq, List.foldl_append, pushed, storeWords_cons]
  exact hsaves

/-- The displacements do not depend on the state. -/
theorem map_fst_pushed (s : State) : (pushed s).map Prod.fst =
    [8, 232, 240, 216, 224, 200, 208, 184, 192, 168, 176, 152, 160, 136, 144, 120, 128,
      104, 96, 88, 80, 72, 64, 56, 48, 40, 32, 24, 16, 0] := rfl

theorem slot_of_mem_pushed {s : State} {w : Nat × U64} (h : w ∈ pushed s) :
    Slot w.1 ∧ w.1 + 8 ≤ 248 := by
  have hmem : w.1 ∈ (pushed s).map Prod.fst := List.mem_map_of_mem h
  rw [map_fst_pushed] at hmem
  revert hmem
  generalize w.1 = d
  have hall : ∀ d ∈ [8, 232, 240, 216, 224, 200, 208, 184, 192, 168, 176, 152, 160, 136, 144,
      120, 128, 104, 96, 88, 80, 72, 64, 56, 48, 40, 32, 24, 16, 0], Slot d ∧ d + 8 ≤ 248 := by
    decide
  exact hall d

theorem loadWord_pushed {s : State} {d : Nat} {v : U64} (h : (d, v) ∈ pushed s) :
    loadWord (storeWords s.mem (s.reg .rsp - 240) (pushed s))
      (s.reg .rsp - 240 + BitVec.ofNat 64 d) = v := by
  refine loadWord_storeWords _ _ _ (fun w hw => (slot_of_mem_pushed hw).1) ?_ h
  rw [map_fst_pushed]
  decide

theorem runRoutine_ps4Pushall (s : State) : Pushed s (runRoutine ps4Pushall s) := by
  have hrun : runRoutine ps4Pushall s
      = ({ opened s with mem := storeWords s.mem (s.reg .rsp - 240) (pushed s) } : State).pop := by
    rw [runRoutine, foldl_ps4Pushall]
  have hstored : ∀ i ∈ saves, ∀ w ∈ i.stored (opened s), w ∈ pushed s := fun i hi w hw =>
    List.mem_cons_of_mem _ (List.mem_flatMap.mpr ⟨i, hi, hw⟩)
  rw [hrun]
  refine ⟨?_, rfl, fun r h h' => ?_, rfl, fun r d h => ?_, fun x hx => ?_, fun a ha => ?_⟩
  · -- The last word stored is the return address, at the bottom of the frame.
    have hret : (0, loadWord s.mem (s.reg .rsp)) ∈ pushed s := by
      rw [← rax_opened]
      exact hstored (.store .rax 0) (by decide) _ (by simp [FrameInstr.stored])
    have h0 := loadWord_pushed hret
    rw [BitVec.add_zero] at h0
    exact h0
  · show (if r = .rsp then _ else (opened s).reg r) = _
    rw [if_neg h, reg_opened s h h']
  · refine loadWord_pushed ?_
    rcases store_mem_saves h with ⟨rfl, rfl⟩ | ⟨hrax, hrsp, hmem⟩
    · exact List.mem_cons_self ..
    · rw [← reg_opened s hrsp hrax]
      exact hstored _ hmem _ (by simp [FrameInstr.stored])
  · obtain ⟨-, hmem⟩ := storeX_mem_saves x hx
    have hlow := loadWord_pushed (hstored _ hmem (120 + 16 * x.val, lower (s.xmm x))
      (by simp [FrameInstr.stored]; rfl))
    have hhigh := loadWord_pushed (hstored _ hmem (120 + 16 * x.val + 8, upper (s.xmm x))
      (by simp [FrameInstr.stored]; rfl))
    have happend := congrArg₂ (fun h l : U64 => (h ++ l : BitVec 128)) hhigh hlow
    exact happend.trans (upper_append_lower (s.xmm x))
  · exact storeWords_of_outside _ (by decide) ha _ _ fun w hw => (slot_of_mem_pushed hw).2

/-! ### Restoring -/

/-- `ps4Popall`, entered in `s`, returns in `t`. -/
structure Popped (s t : State) : Prop where
  rip : t.rip = loadWord s.mem (s.reg .rsp)
  rsp : t.reg .rsp = s.reg .rsp + 248
  restored : ∀ r d, slotOf r = some d → t.reg r = loadWord s.mem (s.reg .rsp + BitVec.ofNat 64 d)
  kept : ∀ r, r ≠ .rsp → slotOf r = none → t.reg r = s.reg r
  restoredX : ∀ x : Fin 16, x < 7 → t.xmm x = loadWords s.mem (s.reg .rsp) (120 + 16 * x.val)
  -- The return address has replaced the upper half by then.
  xmm7 : t.xmm 7 = loadWord s.mem (s.reg .rsp) ++
    loadWord s.mem (s.reg .rsp + BitVec.ofNat 64 232)
  mem : t.mem = storeWord s.mem (s.reg .rsp + BitVec.ofNat 64 240) (loadWord s.mem (s.reg .rsp))

/-- The return address is where the final `ret` expects it. -/
def returning (s : State) : State :=
  [FrameInstr.load 0 .rax, .store .rax 240].foldl FrameInstr.exec s

/-- The frame is closed. -/
def closed (u : State) : State := (FrameInstr.exec u (.add 240)).pop

theorem rip_closed (u : State) :
    (closed u).rip = loadWord u.mem (u.reg .rsp + BitVec.ofNat 64 240) := rfl

theorem rsp_closed (u : State) : (closed u).reg .rsp = u.reg .rsp + BitVec.ofNat 64 240 + 8 := rfl

theorem mem_closed (u : State) : (closed u).mem = u.mem := rfl

theorem xmm_closed (u : State) : (closed u).xmm = u.xmm := rfl

theorem reg_closed (u : State) {r : Reg} (h : r ≠ .rsp) : (closed u).reg r = u.reg r := by
  show (if r = .rsp then _ else if r = .rsp then _ else u.reg r) = _
  rw [if_neg h, if_neg h]

theorem reg_returning (s : State) {r : Reg} (h : r ≠ .rax) : (returning s).reg r = s.reg r := by
  show (if r = .rax then _ else s.reg r) = _
  rw [if_neg h]

theorem rsp_returning (s : State) : (returning s).reg .rsp = s.reg .rsp := rfl

theorem mem_returning (s : State) : (returning s).mem
    = storeWord s.mem (s.reg .rsp + BitVec.ofNat 64 240) (loadWord s.mem (s.reg .rsp)) := by
  show storeWord s.mem (s.reg .rsp + BitVec.ofNat 64 240)
    (loadWord s.mem (s.reg .rsp + BitVec.ofNat 64 0)) = _
  rw [BitVec.add_zero]

theorem loadWord_returning (s : State) {d : Nat} (h : Slot d) (hne : 240 ≠ d) :
    loadWord (returning s).mem (s.reg .rsp + BitVec.ofNat 64 d)
      = loadWord s.mem (s.reg .rsp + BitVec.ofNat 64 d) := by
  rw [mem_returning]
  exact loadWord_storeWord_of_ne _ _ _ (by decide) h.1 (by decide) h.2 hne

theorem loadWord_returning_self (s : State) :
    loadWord (returning s).mem (s.reg .rsp + BitVec.ofNat 64 240)
      = loadWord s.mem (s.reg .rsp) := by
  rw [mem_returning]
  exact loadWord_storeWord_self ..

theorem runRoutine_ps4Popall (s : State) : Popped s (runRoutine ps4Popall s) := by
  have hloads := foldl_loads restores (returning s) (by decide)
  generalize hu : restores.foldl FrameInstr.exec (returning s) = u at hloads
  have hrun : runRoutine ps4Popall s = closed u := by
    rw [runRoutine, ps4Popall_eq, List.foldl_append, List.foldl_append, List.foldl_cons,
      List.foldl_nil, closed, ← hu, returning]
  obtain ⟨hmem, -, hrsp, hreg, hxmm⟩ := hloads
  rw [rsp_returning] at hrsp
  rw [hrun]
  refine ⟨?_, ?_, fun r d h => ?_, fun r hr h => ?_, fun x hx => ?_, ?_, ?_⟩
  · rw [rip_closed, hmem, hrsp, loadWord_returning_self]
  · rw [rsp_closed, hrsp, BitVec.add_assoc]
    rfl
  · have hne : r ≠ .rsp := by
      rintro rfl
      cases h
    obtain ⟨-, hd, hslot⟩ := slot_of_slotOf h
    unfold slotOf at h
    rw [reg_closed u hne, hreg r, h, Option.elim_some, rsp_returning,
      loadWord_returning s hslot (by omega)]
  · have hrax : r ≠ .rax := by
      rintro rfl
      cases h
    unfold slotOf at h
    rw [reg_closed u hr, hreg r, h, Option.elim_none, reg_returning s hrax]
  · have hx' : x.val < 7 := hx
    rw [xmm_closed, hxmm x, (storeX_mem_saves x (by omega)).1, Option.elim_some, rsp_returning,
      loadWords,
      loadWord_returning s ⟨by omega, by omega⟩ (by omega),
      loadWord_returning s ⟨by omega, by omega⟩ (by omega)]
    rfl
  · rw [xmm_closed, hxmm 7, (storeX_mem_saves 7 (by decide)).1, Option.elim_some, rsp_returning]
    have hlow := loadWord_returning s (d := 232) (by decide) (by decide)
    exact congrArg₂ (fun h l : U64 => (h ++ l : BitVec 128)) (loadWord_returning_self s) hlow
  · rw [mem_closed, hmem, mem_returning]

end LibPS4
