/-
What is held, over whole runs.

A provider hands out handles and takes them back, and a handle stands for some resources of
a state.  `Provider.run` is a client that acquires and releases in any order, each handle
once.  If an acquisition that fails keeps nothing, one that succeeds keeps what its handle
stands for, and a release gives that back, then at any time what is held is what the live
handles stand for: `Provider.Lawful.run`.

What it is to keep a list of resources is left open.  `Holder.Keeps` is one answer, for a
state in which a resource is held or not, and counts from any state on.
-/
import Mathlib.Data.List.Perm.Basic

namespace Effects

/-! ### Beyond a state -/

/-- Which resources a state holds, and whether something was done with one that it did
not. -/
structure Holder (σ R : Type) where
  holds : σ → R → Prop
  misused : σ → Prop

namespace Holder

variable {σ R : Type} {H : Holder σ R} {s₀ s s' : σ} {r : R} {kept kept' : List R}

/-- Beyond what `s₀` holds, `s` holds `kept`. -/
structure Keeps (H : Holder σ R) (s₀ s : σ) (kept : List R) : Prop where
  nodup : kept.Nodup
  fresh : ∀ r ∈ kept, ¬ H.holds s₀ r
  exact : ∀ r, H.holds s r ↔ H.holds s₀ r ∨ r ∈ kept
  used : H.misused s → H.misused s₀

theorem Keeps.refl (H : Holder σ R) (s₀ : σ) : H.Keeps s₀ s₀ [] := by
  refine ⟨List.nodup_nil, fun r hr => absurd hr List.not_mem_nil, fun r => ?_, id⟩
  exact ⟨Or.inl, fun h => h.resolve_right List.not_mem_nil⟩

theorem Keeps.perm (h : H.Keeps s₀ s kept) (hperm : kept.Perm kept') : H.Keeps s₀ s kept' := by
  refine ⟨hperm.nodup_iff.mp h.nodup, fun r hr => h.fresh r (hperm.mem_iff.mpr hr), fun r => ?_,
    h.used⟩
  rw [h.exact, hperm.mem_iff]

/-- A resource that was not held is. -/
theorem Keeps.gain (h : H.Keeps s₀ s kept) (hnew : ¬ H.holds s r)
    (hs : ∀ r', H.holds s' r' ↔ H.holds s r' ∨ r' = r) (hm : H.misused s' → H.misused s) :
    H.Keeps s₀ s' (r :: kept) := by
  rw [h.exact, not_or] at hnew
  refine ⟨List.nodup_cons.mpr ⟨hnew.2, h.nodup⟩, fun r' hr' => ?_, fun r' => ?_,
    fun hc => h.used (hm hc)⟩
  · rcases List.mem_cons.mp hr' with rfl | hr'
    · exact hnew.1
    · exact h.fresh r' hr'
  · rw [hs, h.exact, List.mem_cons, or_assoc, @or_comm (r' ∈ kept)]

/-- One that is kept is given back. -/
theorem Keeps.lose (h : H.Keeps s₀ s (r :: kept))
    (hs : ∀ r', H.holds s' r' ↔ H.holds s r' ∧ r' ≠ r) (hm : H.misused s' → H.misused s) :
    H.Keeps s₀ s' kept := by
  obtain ⟨hr, hnodup⟩ := List.nodup_cons.mp h.nodup
  refine ⟨hnodup, fun r' hr' => h.fresh r' (List.mem_cons_of_mem r hr'), fun r' => ?_,
    fun hc => h.used (hm hc)⟩
  rw [hs, h.exact, List.mem_cons]
  constructor
  · rintro ⟨h₀ | rfl | hr', hne⟩
    · exact .inl h₀
    · exact absurd rfl hne
    · exact .inr hr'
  · rintro (h₀ | hr')
    · refine ⟨.inl h₀, ?_⟩
      rintro rfl
      exact h.fresh r' List.mem_cons_self h₀
    · refine ⟨.inr (.inr hr'), ?_⟩
      rintro rfl
      exact hr hr'

theorem Keeps.holds (h : H.Keeps s₀ s kept) (hr : r ∈ kept) : H.holds s r :=
  (h.exact r).mpr (.inr hr)

end Holder

/-! ### Tables

A table that only grows hands out the index of its next entry. -/

section Table

variable {α : Type} {l : List α} {x : α} {a b : Nat} {P : Option α → Prop}

theorem concat_entry (hnone : ¬ P none) :
    P (l ++ [x])[b]? ↔ P l[b]? ∨ (b = l.length ∧ P (some x)) := by
  rcases Nat.lt_trichotomy b l.length with hlt | rfl | hgt
  · rw [List.getElem?_append_left hlt]
    exact ⟨.inl, fun h => h.resolve_right fun hb => absurd hb.1 (Nat.ne_of_lt hlt)⟩
  · rw [List.getElem?_concat_length, List.getElem?_eq_none (Nat.le_refl _)]
    exact ⟨fun h => .inr ⟨rfl, h⟩, fun h => (h.resolve_left hnone).2⟩
  · have hlen : (l ++ [x]).length ≤ b := by
      rw [List.length_append, List.length_singleton]
      exact hgt
    rw [List.getElem?_eq_none hlen, List.getElem?_eq_none (Nat.le_of_lt hgt)]
    exact ⟨.inl, fun h => h.resolve_right fun hb => absurd hb.1 (Nat.ne_of_gt hgt)⟩

theorem set_entry (ha : a < l.length) (hx : ¬ P (some x)) :
    P (l.set a x)[b]? ↔ P l[b]? ∧ b ≠ a := by
  by_cases hb : b = a
  · subst hb
    rw [List.getElem?_set_self ha]
    exact iff_of_false hx fun h => h.2 rfl
  · rw [List.getElem?_set_ne (Ne.symm hb)]
    exact ⟨fun h => ⟨h, hb⟩, And.left⟩

end Table

/-! ### Handles -/

/-- What acquires and releases handles of type `μ`, on requests that say how. -/
structure Provider (σ μ A B : Type) where
  acquire : A → σ → Option μ × σ
  /-- `none` is a handle that is not there. -/
  release : B → Option μ → σ → σ

/-- Acquire, or release the `n`th live handle. -/
inductive Request (A B : Type)
  | acquire (a : A)
  | release (b : B) (n : Nat)

/-- A state, and the handles a client has to it. -/
structure Client (σ μ : Type) where
  state : σ
  live : List μ

namespace Provider

variable {σ μ A B R : Type} (P : Provider σ μ A B)

def step (c : Client σ μ) : Request A B → Client σ μ
  | .acquire a => ⟨(P.acquire a c.state).2, (P.acquire a c.state).1.toList ++ c.live⟩
  | .release b n => ⟨P.release b c.live[n]? c.state, c.live.eraseIdx n⟩

def run (requests : List (Request A B)) (c : Client σ μ) : Client σ μ :=
  requests.foldl P.step c

/-- For requests that are `allowed`, an acquisition keeps what its handle stands for and
nothing if it fails, and a release gives that back. -/
structure Lawful (resources : μ → List R) (keeps : σ → List R → Prop) (allowed : A → Prop) :
    Prop where
  perm : ∀ {s kept kept'}, keeps s kept → kept.Perm kept' → keeps s kept'
  acquire : ∀ {a s kept}, allowed a → keeps s kept →
    keeps (P.acquire a s).2 ((P.acquire a s).1.toList.flatMap resources ++ kept)
  release : ∀ {b m s kept}, keeps s (resources m ++ kept) → keeps (P.release b (some m) s) kept
  none : ∀ {b s}, P.release b none s = s

/-- The acquisitions among some requests are allowed ones. -/
def Allowed (allowed : A → Prop) (requests : List (Request A B)) : Prop :=
  ∀ a, .acquire a ∈ requests → allowed a

variable {P} {resources : μ → List R} {keeps : σ → List R → Prop} {allowed : A → Prop}

/-- What is kept for one of the handles. -/
theorem Lawful.live (hP : P.Lawful resources keeps allowed) {s : σ} {live : List μ} {n : Nat}
    (hn : n < live.length) (h : keeps s (live.flatMap resources)) :
    keeps s (resources live[n] ++ (live.eraseIdx n).flatMap resources) := by
  have hlive := (List.getElem_cons_eraseIdx_perm hn).symm.flatMap_right resources
  rw [List.flatMap_cons] at hlive
  exact hP.perm h hlive

theorem Lawful.step (hP : P.Lawful resources keeps allowed) {c : Client σ μ}
    {request : Request A B} (hallowed : ∀ a, request = .acquire a → allowed a)
    (h : keeps c.state (c.live.flatMap resources)) :
    keeps (P.step c request).state ((P.step c request).live.flatMap resources) := by
  cases request with
  | acquire a =>
      simp only [Provider.step]
      rw [List.flatMap_append]
      exact hP.acquire (hallowed a rfl) h
  | release b n =>
      simp only [Provider.step]
      by_cases hn : n < c.live.length
      · rw [List.getElem?_eq_getElem hn]
        exact hP.release (hP.live hn h)
      · rw [List.getElem?_eq_none (Nat.not_lt.mp hn), hP.none,
          List.eraseIdx_of_length_le (Nat.not_lt.mp hn)]
        exact h

/-- **A whole run.**  What is kept is what the live handles stand for. -/
theorem Lawful.run (hP : P.Lawful resources keeps allowed) {requests : List (Request A B)}
    {c : Client σ μ} (hallowed : Allowed allowed requests)
    (h : keeps c.state (c.live.flatMap resources)) :
    keeps (P.run requests c).state ((P.run requests c).live.flatMap resources) := by
  induction requests generalizing c with
  | nil => exact h
  | cons request requests ih =>
      refine ih (fun a ha => hallowed a (List.mem_cons_of_mem request ha)) ?_
      refine hP.step (fun a ha => hallowed a ?_) h
      rw [ha]
      exact List.mem_cons_self

end Provider

end Effects
