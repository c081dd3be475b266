/-
Cursors of a fixed width.

A lookup with a cursor takes the index to start from, returns what it finds first and
leaves the cursor there; the caller adds one and asks again.  The cursor is a machine
integer that both sides advance, over a table whose length is an integer of the same
width, so the longest table leaves no room for an index behind its last entry.

`cursorLoop` is the loop of the callee with the increments in the width of the cursor, and
`cursorLoop_eq` says that it is the loop over natural numbers: it is entered only below
the length, so its increment does not wrap.  `drain` is the caller, and `result_drain` says
what it collects.
-/
import LibPS4.Base.Loop
import Mathlib.Data.List.Range

namespace Effects.Prog

variable {ρ ω β ε γ : Type} {w : Nat}

/-- `for(; *index < length; ++(*index)) if(c = body(*index)) return c;`, in the width of
the cursor; `stuck` stands for a loop that goes on after `n` iterations. -/
def cursorLoop (stuck : ε) (body : Nat → Prog ρ ω β ε (Option γ)) (length : BitVec w) :
    Nat → BitVec w → Prog ρ ω β ε (Option γ × BitVec w)
  | 0, _ => raise stuck
  | n + 1, index =>
      if index < length then
        body index.toNat >>= fun
          | some c => ret (some c, index)
          | none => cursorLoop stuck body length n (index + 1)
      else ret (none, index)

/-- Repeat `call, then ++index` until there is no answer: the answers, each with the cursor
at it, and the cursor at the end. -/
def drain (stuck : ε) (call : BitVec w → Prog ρ ω β ε (Option γ × BitVec w)) :
    Nat → BitVec w → Prog ρ ω β ε (List (γ × BitVec w) × BitVec w)
  | 0, _ => raise stuck
  | n + 1, index => call index >>= fun
      | (none, last) => ret ([], last)
      | (some c, index) => drain stuck call n (index + 1) >>= fun
          | (rest, last) => ret ((c, index) :: rest, last)

/-! ### The callee -/

/-- The answer of a search from a cursor, and where it leaves the cursor. -/
def withCursor (index length : BitVec w) : Option (γ × Nat) → Option γ × BitVec w
  | some (c, i) => (some c, BitVec.ofNat w i)
  | none => (none, if index < length then length else index)

/-- The loop over natural numbers is the loop of the source. -/
theorem cursorLoop_eq (stuck : ε) (body : Nat → Prog ρ ω β ε (Option γ)) (length : BitVec w) :
    ∀ (m : Nat) (index : BitVec w), length.toNat - index.toNat < m →
      cursorLoop stuck body length m index
        = (findFrom (fun i => body i >>= fun o => ret (o.map fun c => (c, i)))
            (length.toNat - index.toNat) index.toNat >>= fun o =>
              ret (withCursor index length o)) := by
  intro m
  induction m with
  | zero => intro index hm; exact absurd hm (Nat.not_lt_zero _)
  | succ m ih =>
      intro index hm
      rw [cursorLoop]
      by_cases hlt : index < length
      · have hnat : index.toNat < length.toNat := hlt
        have hmax := length.isLt
        have hone : (1 : BitVec w).toNat = 1 :=
          (BitVec.toNat_ofNat 1 w).trans (Nat.mod_eq_of_lt (by omega))
        have hnext : (index + 1).toNat = index.toNat + 1 := by
          rw [BitVec.toNat_add, hone, Nat.mod_eq_of_lt (by omega)]
        obtain ⟨n, hn⟩ : ∃ n, length.toNat - index.toNat = n + 1 :=
          Nat.exists_eq_succ_of_ne_zero (by omega)
        have hrest : length.toNat - (index + 1).toNat = n := by omega
        -- Behind the cursor the two searches end at the same place.
        have hend : ∀ o : Option (γ × Nat),
            withCursor (index + 1) length o = withCursor index length o := by
          intro o
          cases o with
          | some c => rfl
          | none =>
              by_cases hlt' : index + 1 < length
              · simp only [withCursor, if_pos hlt, if_pos hlt']
              · have heq : index + 1 = length := by
                  apply BitVec.eq_of_toNat_eq
                  rw [BitVec.lt_def] at hlt'
                  omega
                rw [withCursor, withCursor, if_neg hlt', if_pos hlt, heq]
        rw [if_pos hlt, hn, findFrom, bind_bind, bind_bind]
        refine congrArg (body index.toNat >>= ·) (funext fun o => ?_)
        cases o with
        | some c =>
            show ret (some c, index) = ret (some c, BitVec.ofNat w index.toNat)
            rw [BitVec.ofNat_toNat, BitVec.setWidth_eq]
        | none =>
            show cursorLoop stuck body length m (index + 1) = _
            rw [ih (index + 1) (by omega), hrest, hnext]
            simp only [hend]
            rfl
      · have hzero : length.toNat - index.toNat = 0 := by
          rw [BitVec.lt_def] at hlt
          omega
        rw [if_neg hlt, hzero]
        show ret (none, index) = ret (none, if index < length then length else index)
        rw [if_neg hlt]

/-! ### The caller -/

variable {file : ρ → β} {p : Nat → Prop} [DecidablePred p] {c : Nat → γ} {n : Nat}

theorem filter_eq_nil_of_none {i : Nat} (h : ∀ k, i ≤ k → k < n → ¬ p k) :
    ((List.range' i (n - i)).filter fun k => p k) = [] := by
  refine List.filter_eq_nil_iff.mpr fun k hk => ?_
  obtain ⟨hlo, hhi⟩ := List.mem_range'_1.mp hk
  rw [decide_eq_true_iff]
  exact h k hlo (by omega)

/-- The first index with the property, and those after it. -/
theorem filter_eq_cons_of_first {i k : Nat} (hlo : i ≤ k) (hhi : k < n) (hk : p k)
    (hbefore : ∀ j, i ≤ j → j < k → ¬ p j) :
    ((List.range' i (n - i)).filter fun k => p k)
      = k :: (List.range' (k + 1) (n - (k + 1))).filter fun k => p k := by
  have hsplit : List.range' i (n - i)
      = List.range' i (k - i) ++ k :: List.range' (k + 1) (n - (k + 1)) := by
    rw [← List.range'_succ, show n - (k + 1) + 1 = n - k by omega]
    have happend := @List.range'_append_1 i (k - i) (n - k)
    rw [show i + (k - i) = k by omega, show k - i + (n - k) = n - i by omega] at happend
    exact happend.symm
  rw [hsplit, List.filter_append, filter_eq_nil_of_none hbefore, List.nil_append,
    List.filter_cons, if_pos (decide_eq_true hk)]

/-- A call finds the next index with the property and leaves the cursor there, or finds
that there is none and leaves the cursor at the end. -/
def Steps (file : ρ → β) (call : BitVec w → Prog ρ ω β ε (Option γ × BitVec w)) (p : Nat → Prop)
    (c : Nat → γ) (n : Nat) : Prop :=
  ∀ i ≤ n, (result file (call (BitVec.ofNat w i)) = .ok (none, BitVec.ofNat w n) ∧
      ∀ k, i ≤ k → k < n → ¬ p k) ∨
    ∃ k, i ≤ k ∧ k < n ∧ p k ∧ (∀ j, i ≤ j → j < k → ¬ p j) ∧
      result file (call (BitVec.ofNat w i)) = .ok (some (c k), BitVec.ofNat w k)

omit [DecidablePred p] in
/-- The first call finds the first index with the property. -/
theorem Steps.first {call : BitVec w → Prog ρ ω β ε (Option γ × BitVec w)}
    (h : Steps file call p c n) :
    ∃ o j, First p n o ∧ result file (call 0) = .ok (o.map c, j) := by
  obtain ⟨hres, hnone⟩ | ⟨k, -, hhi, hk, hbefore, hres⟩ := h 0 (Nat.zero_le n)
  · exact ⟨none, _, fun k hk => hnone k (Nat.zero_le k) hk, hres⟩
  · exact ⟨some k, _, ⟨hhi, hk, fun j hj => hbefore j (Nat.zero_le j) hj⟩, hres⟩

/-- **What a caller collects.**  The indices with the property, each once and in order. -/
theorem result_drain (stuck : ε) {call : BitVec w → Prog ρ ω β ε (Option γ × BitVec w)}
    (h : Steps file call p c n) : ∀ m i, i ≤ n → n - i < m →
      result file (drain stuck call m (BitVec.ofNat w i))
        = .ok (((List.range' i (n - i)).filter fun k => p k).map fun k => (c k, BitVec.ofNat w k),
            BitVec.ofNat w n) := by
  intro m
  induction m with
  | zero => intro i _ hm; exact absurd hm (Nat.not_lt_zero _)
  | succ m ih =>
      intro i hi hm
      rw [drain, result_bind]
      obtain ⟨hres, hnone⟩ | ⟨k, hlo, hhi, hk, hbefore, hres⟩ := h i hi
      · rw [hres, filter_eq_nil_of_none hnone]
        rfl
      · rw [hres, filter_eq_cons_of_first hlo hhi hk hbefore]
        have hnext : BitVec.ofNat w k + 1 = BitVec.ofNat w (k + 1) := (BitVec.ofNat_add k 1).symm
        show result file (drain stuck call m (BitVec.ofNat w k + 1) >>= _) = _
        rw [hnext, result_bind, ih (k + 1) hhi (by omega)]
        rfl

/-- The collected cursors are below the length and increase. -/
theorem drained_increasing (hn : n < 2 ^ w) (c : Nat → γ) :
    (((List.range' 0 n).filter fun k => p k).map fun k => (c k, BitVec.ofNat w k)).Pairwise
      fun a b => a.2 < b.2 := by
  refine List.pairwise_map.mpr (List.Pairwise.imp_of_mem ?_
    (List.Pairwise.filter _ List.pairwise_lt_range'))
  intro j k hj hk hlt
  have hj' := (List.mem_range'_1.mp (List.mem_of_mem_filter hj)).2
  have hk' := (List.mem_range'_1.mp (List.mem_of_mem_filter hk)).2
  show (BitVec.ofNat w j).toNat < (BitVec.ofNat w k).toNat
  rw [BitVec.toNat_ofNat, BitVec.toNat_ofNat, Nat.mod_eq_of_lt (by omega),
    Nat.mod_eq_of_lt (by omega)]
  exact hlt

end Effects.Prog
