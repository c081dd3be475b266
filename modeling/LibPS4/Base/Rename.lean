/-
The same program elsewhere.

A program that was written for an array of its own may find that array as a stretch of a
larger one, and its faults may be some of many.  `mapFetch` moves where a program fetches
and `mapFault` what it calls its faults; neither changes what it does, so both observations
of it are those of the program it was made from.
-/
import LibPS4.Base.Prog

namespace Effects.Prog

variable {ρ ρ' ω β ε ε' α γ : Type}

/-- Fetch at `g r` instead of `r`. -/
def mapFetch (g : ρ → ρ') : Prog ρ ω β ε α → Prog ρ' ω β ε α
  | ret a => ret a
  | fault e => fault e
  | fetch r k => fetch (g r) fun b => (k b).mapFetch g
  | store w b k => store w b (k.mapFetch g)

/-- Fault with `h e` instead of `e`. -/
def mapFault (h : ε → ε') : Prog ρ ω β ε α → Prog ρ ω β ε' α
  | ret a => ret a
  | fault e => fault (h e)
  | fetch r k => fetch r fun b => (k b).mapFault h
  | store w b k => store w b (k.mapFault h)

@[simp] theorem result_mapFetch (g : ρ → ρ') (file : ρ' → β) (p : Prog ρ ω β ε α) :
    result file (p.mapFetch g) = result (fun r => file (g r)) p := by
  induction p with
  | ret a => rfl
  | fault e => rfl
  | fetch r k ih => exact ih _
  | store w b k ih => exact ih

@[simp] theorem result_mapFault (h : ε → ε') (file : ρ → β) (p : Prog ρ ω β ε α) :
    result file (p.mapFault h) = (result file p).mapError h := by
  induction p with
  | ret a => rfl
  | fault e => rfl
  | fetch r k ih => exact ih _
  | store w b k ih => exact ih

/-- Renaming the faults leaves what is returned. -/
theorem result_mapFault_eq_ok {h : ε → ε'} {file : ρ → β} {p : Prog ρ ω β ε α} {a : α} :
    result file (p.mapFault h) = .ok a ↔ result file p = .ok a := by
  rw [result_mapFault]
  cases result file p with
  | error e => exact ⟨fun h => (by cases h), fun h => (by cases h)⟩
  | ok b => simp only [Except.mapError, Except.ok.injEq]

end Effects.Prog
