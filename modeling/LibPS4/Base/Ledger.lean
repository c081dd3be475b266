/-
What a program obtains and gives back.

A ledger has two columns, what was obtained and what was released, and a mark for a
misuse: something released, or used, that was not held at that moment.  `Keeps l kept`
says that the columns differ by exactly `kept` and nothing was misused, so that everything
else was released as often as it was obtained.  A program that does well is followed by
what its ledger keeps, a program that does not by `AtMost`: it keeps too few of a kind for
the releases still to come, and one of these is a misuse.
-/
import Mathlib.Algebra.Ring.Nat
import Mathlib.Data.List.Count
import Mathlib.Data.List.Perm.Basic

namespace Effects

structure Ledger (R : Type) where
  obtained : List R
  released : List R
  misused : Bool
  deriving DecidableEq, Repr

namespace Ledger

variable {R : Type}

def empty : Ledger R := ⟨[], [], false⟩

def acquire (r : R) (l : Ledger R) : Ledger R := { l with obtained := l.obtained ++ [r] }

def misuse (l : Ledger R) : Ledger R := { l with misused := true }

/-! ### What is kept -/

/-- Nothing was misused, and what was not released is `kept`. -/
structure Keeps (l : Ledger R) (kept : List R) : Prop where
  proper : l.misused = false
  balance : l.obtained.Perm (l.released ++ kept)

variable {l : Ledger R} {kept kept' : List R} {r : R}

theorem Keeps.empty : (Ledger.empty : Ledger R).Keeps [] := ⟨rfl, List.Perm.refl _⟩

theorem Keeps.of_perm (h : l.Keeps kept) (hperm : kept.Perm kept') : l.Keeps kept' :=
  ⟨h.proper, h.balance.trans (hperm.append_left l.released)⟩

/-- A ledger keeps one list only, up to the order. -/
theorem Keeps.perm (h : l.Keeps kept) (h' : l.Keeps kept') : kept.Perm kept' :=
  (List.perm_append_left_iff l.released).mp (h.balance.symm.trans h'.balance)

theorem Keeps.acquire (h : l.Keeps kept) : (l.acquire r).Keeps (r :: kept) := by
  refine ⟨h.proper, ?_⟩
  show (l.obtained ++ [r]).Perm (l.released ++ r :: kept)
  have hlast : (l.obtained ++ [r]).Perm (r :: l.obtained) := List.perm_append_singleton r _
  exact hlast.trans ((h.balance.cons r).trans List.perm_middle.symm)

theorem not_keeps_of_misused (h : l.misused = true) : ¬ l.Keeps kept := by
  intro hkeeps
  have hproper := hkeeps.proper
  rw [h] at hproper
  cases hproper

/-! ### Releasing and using -/

variable [DecidableEq R]

/-- Obtained more often than released. -/
def Holds (l : Ledger R) (r : R) : Prop := l.released.count r < l.obtained.count r

instance (l : Ledger R) (r : R) : Decidable (l.Holds r) :=
  inferInstanceAs (Decidable (l.released.count r < l.obtained.count r))

def release (r : R) (l : Ledger R) : Ledger R :=
  if l.Holds r then { l with released := l.released ++ [r] } else l.misuse

/-- Something is used that stays. -/
def use (r : R) (l : Ledger R) : Ledger R := if l.Holds r then l else l.misuse

@[simp] theorem obtained_release (r : R) (l : Ledger R) :
    (l.release r).obtained = l.obtained := by
  unfold Ledger.release
  split <;> rfl

theorem Keeps.holds_iff (h : l.Keeps kept) : l.Holds r ↔ r ∈ kept := by
  have hcount := h.balance.count_eq r
  rw [List.count_append] at hcount
  show l.released.count r < l.obtained.count r ↔ r ∈ kept
  rw [← List.count_pos_iff]
  omega

theorem Keeps.released (h : l.Keeps kept) (hr : r ∈ kept) :
    (l.release r).released = l.released ++ [r] := by
  unfold Ledger.release
  rw [if_pos (h.holds_iff.mpr hr)]

theorem Keeps.release (h : l.Keeps (r :: kept)) : (l.release r).Keeps kept := by
  unfold Ledger.release
  rw [if_pos (h.holds_iff.mpr List.mem_cons_self)]
  refine ⟨h.proper, ?_⟩
  show l.obtained.Perm (l.released ++ [r] ++ kept)
  rw [List.append_assoc]
  exact h.balance

theorem Keeps.use (h : l.Keeps kept) (hr : r ∈ kept) : l.use r = l := by
  unfold Ledger.use
  rw [if_pos (h.holds_iff.mpr hr)]

/-! ### A misuse stays -/

theorem Keeps.misused_release (h : l.Keeps kept) (hr : r ∉ kept) :
    (l.release r).misused = true := by
  unfold Ledger.release
  rw [if_neg fun hheld => hr (h.holds_iff.mp hheld)]
  rfl

theorem misused_release (h : l.misused = true) : (l.release r).misused = true := by
  unfold Ledger.release
  split
  · exact h
  · rfl

/-! ### Too few -/

/-- There was a misuse, or at most `n` of the resources of a kind are kept. -/
def AtMost (kind : R → Bool) (n : Nat) (l : Ledger R) : Prop :=
  l.misused = true ∨ ∃ kept, l.Keeps kept ∧ kept.countP kind ≤ n

variable {kind : R → Bool} {n : Nat}

omit [DecidableEq R] in
theorem AtMost.acquire (h : l.AtMost kind n) (hr : kind r = false) :
    (l.acquire r).AtMost kind n := by
  obtain h | ⟨kept, hkeeps, hcount⟩ := h
  · exact Or.inl h
  · refine Or.inr ⟨r :: kept, hkeeps.acquire, ?_⟩
    rw [List.countP_cons_of_neg (by rw [hr]; exact Bool.false_ne_true)]
    exact hcount

theorem AtMost.use (h : l.AtMost kind n) : (l.use r).AtMost kind n := by
  unfold Ledger.use
  split
  · exact h
  · exact Or.inl rfl

/-- What a release leaves. -/
theorem AtMost.release_of (h : l.AtMost kind n) :
    (l.release r).misused = true ∨
      ∃ kept, (l.release r).Keeps kept ∧ (r :: kept).countP kind ≤ n := by
  obtain h | ⟨kept, hkeeps, hcount⟩ := h
  · exact Or.inl (misused_release h)
  · by_cases hr : r ∈ kept
    · have hperm := List.perm_cons_erase hr
      refine Or.inr ⟨kept.erase r, (hkeeps.of_perm hperm).release, ?_⟩
      rw [← hperm.countP_eq]
      exact hcount
    · exact Or.inl (hkeeps.misused_release hr)

theorem AtMost.release (h : l.AtMost kind n) : (l.release r).AtMost kind n := by
  obtain h | ⟨kept, hkeeps, hcount⟩ := h.release_of (r := r)
  · exact Or.inl h
  · refine Or.inr ⟨kept, hkeeps, ?_⟩
    rw [List.countP_cons] at hcount
    omega

/-- One of the kind is gone. -/
theorem AtMost.release_succ (h : l.AtMost kind (n + 1)) (hr : kind r = true) :
    (l.release r).AtMost kind n := by
  obtain h | ⟨kept, hkeeps, hcount⟩ := h.release_of (r := r)
  · exact Or.inl h
  · refine Or.inr ⟨kept, hkeeps, ?_⟩
    rw [List.countP_cons_of_pos hr] at hcount
    omega

/-- There is none of the kind to release. -/
theorem AtMost.misused_release (h : l.AtMost kind 0) (hr : kind r = true) :
    (l.release r).misused = true := by
  obtain h | ⟨kept, hkeeps, hcount⟩ := h.release_of (r := r)
  · exact h
  · rw [List.countP_cons_of_pos hr] at hcount
    omega

end Ledger

end Effects
