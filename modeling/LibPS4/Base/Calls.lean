/-
Programs that call out, alone and side by side.

A `Calls` program makes calls and goes on with the answers.  What a call does is up to an
environment, which keeps a state and is told, for each call, which of its outcomes to
take: `run` is a program alone with it, under every choice of outcomes.

Several programs share an environment one call at a time.  Each has a state of its own
besides the shared one, so what a program has to expect of the others is a relation
between shared states, and `Guarded` is the assertion that a program keeps to that
relation and to an invariant as long as the others do.  It is stable under what the others
do by construction, which makes `AllGuarded.along` an induction over the schedule and
nothing else.
-/
import Mathlib.Algebra.Ring.Nat
import Mathlib.Logic.Function.Basic

namespace Effects

/-- Make a call, go on with the answer. -/
inductive Calls (κ ρ α : Type) : Type
  | done (a : α)
  | call (c : κ) (k : ρ → Calls κ ρ α)

namespace Calls

variable {κ ρ α β : Type}

protected def bind : Calls κ ρ α → (α → Calls κ ρ β) → Calls κ ρ β
  | done a, f => f a
  | call c k, f => call c fun r => (k r).bind f

instance : Monad (Calls κ ρ) where
  pure := done
  bind := Calls.bind

/-- One call. -/
def ask (c : κ) : Calls κ ρ ρ := call c done

@[simp] theorem pure_eq (a : α) : (pure a : Calls κ ρ α) = done a := rfl

@[simp] theorem done_bind (a : α) (f : α → Calls κ ρ β) : (done a >>= f) = f a := rfl

@[simp] theorem call_bind (c : κ) (k : ρ → Calls κ ρ α) (f : α → Calls κ ρ β) :
    (call c k >>= f) = call c fun r => k r >>= f := rfl

@[simp] theorem ask_bind (c : κ) (f : ρ → Calls κ ρ β) : (ask c >>= f) = call c f := rfl

/-! ### Alone -/

section Alone

variable {σ φ : Type}

/-- Run a program; the `n`th call takes outcome `choice n`. -/
def run (perform : φ → κ → σ → ρ × σ) : Calls κ ρ α → (Nat → φ) → σ → α × σ
  | done a, _, s => (a, s)
  | call c k, choice, s =>
      let answer := perform (choice 0) c s
      run perform (k answer.1) (fun n => choice (n + 1)) answer.2

variable (perform : φ → κ → σ → ρ × σ) (choice : Nat → φ) (s : σ)

@[simp] theorem run_done (a : α) : run perform (done a) choice s = (a, s) := rfl

theorem run_call (c : κ) (k : ρ → Calls κ ρ α) :
    run perform (call c k) choice s
      = run perform (k (perform (choice 0) c s).1) (fun n => choice (n + 1))
          (perform (choice 0) c s).2 := rfl

end Alone

/-! ### With any replies -/

/-- The program returns `b` for some replies that the environment may give. -/
def Returns (reply : κ → ρ → Prop) : Calls κ ρ α → α → Prop
  | done a, b => a = b
  | call c k, b => ∃ r, reply c r ∧ Returns reply (k r) b

section Replies

variable {reply : κ → ρ → Prop} {b : α}

@[simp] theorem returns_done (a : α) : Returns reply (done a) b ↔ a = b := Iff.rfl

@[simp] theorem returns_call (c : κ) (k : ρ → Calls κ ρ α) :
    Returns reply (call c k) b ↔ ∃ r, reply c r ∧ Returns reply (k r) b := Iff.rfl

end Replies

/-! ### Side by side -/

section SideBySide

variable {σ τ ι : Type} (perform : κ → σ → τ → ρ × σ × τ)

/-- The shared state, and each program with its own. -/
structure System (κ ρ σ τ ι : Type) where
  shared : σ
  own : ι → τ
  program : ι → Calls κ ρ Unit

variable [DecidableEq ι]

/-- Program `i` makes its next call, if it has one. -/
def System.step (i : ι) (s : System κ ρ σ τ ι) : System κ ρ σ τ ι :=
  match s.program i with
  | done _ => s
  | call c k =>
      let answer := perform c s.shared (s.own i)
      { shared := answer.2.1
        own := Function.update s.own i answer.2.2
        program := Function.update s.program i (k answer.1) }

/-- The state after a schedule. -/
def System.run (schedule : List ι) (s : System κ ρ σ τ ι) : System κ ρ σ τ ι :=
  schedule.foldl (fun s i => s.step perform i) s

/-- Along a schedule: `p` holds of every state, and `q` of every step. -/
def System.Along (p : System κ ρ σ τ ι → Prop) (q : System κ ρ σ τ ι → ι → Prop) :
    List ι → System κ ρ σ τ ι → Prop
  | [], s => p s
  | i :: schedule, s => p s ∧ q s i ∧ System.Along p q schedule (s.step perform i)

variable {perform}

theorem System.Along.mono {p p' : System κ ρ σ τ ι → Prop} {q q' : System κ ρ σ τ ι → ι → Prop}
    (hp : ∀ s, p s → p' s) (hq : ∀ s i, q s i → q' s i) : ∀ schedule s,
    System.Along perform p q schedule s → System.Along perform p' q' schedule s := by
  intro schedule
  induction schedule with
  | nil => intro s h; exact hp s h
  | cons i schedule ih =>
      intro s h
      exact ⟨hp s h.1, hq s i h.2.1, ih _ h.2.2⟩

theorem System.Along.last {p : System κ ρ σ τ ι → Prop} {q : System κ ρ σ τ ι → ι → Prop} :
    ∀ schedule s, System.Along perform p q schedule s → p (s.run perform schedule) := by
  intro schedule
  induction schedule with
  | nil => intro s h; exact h
  | cons i schedule ih => intro s h; exact ih _ h.2.2

theorem System.step_done {i : ι} {s : System κ ρ σ τ ι} {a : Unit} (h : s.program i = done a) :
    s.step perform i = s := by
  unfold System.step
  rw [h]

theorem System.step_call {i : ι} {s : System κ ρ σ τ ι} {c : κ} {k : ρ → Calls κ ρ Unit}
    (h : s.program i = call c k) :
    s.step perform i =
      { shared := (perform c s.shared (s.own i)).2.1
        own := Function.update s.own i (perform c s.shared (s.own i)).2.2
        program := Function.update s.program i (k (perform c s.shared (s.own i)).1) } := by
  unfold System.step
  rw [h]

end SideBySide

/-! ### What a program can rely on -/

section Guarded

variable {σ τ ι : Type} (perform : κ → σ → τ → ρ × σ × τ) (allowed : κ → σ → τ → Prop)
  (rely : σ → σ → Prop) (inv : σ → τ → Prop)

/-- Whenever the others have done what `rely` lets them, the invariant holds, and the next
call, if it is allowed, keeps to `rely` and leaves the rest guarded. -/
def Guarded : Calls κ ρ α → σ → τ → Prop
  | done _, s, t => ∀ s', rely s s' → inv s' t
  | call c k, s, t => ∀ s', rely s s' → inv s' t ∧
      (allowed c s' t → rely s' (perform c s' t).2.1 ∧
        Guarded (k (perform c s' t).1) (perform c s' t).2.1 (perform c s' t).2.2)

variable {perform allowed rely inv}
  (hrefl : ∀ s, rely s s) (htrans : ∀ s s' s'', rely s s' → rely s' s'' → rely s s'')

include htrans in
theorem Guarded.stable {p : Calls κ ρ α} {s s' : σ} {t : τ}
    (h : Guarded perform allowed rely inv p s t) (hs : rely s s') :
    Guarded perform allowed rely inv p s' t := by
  cases p with
  | done a => exact fun s'' hs' => h s'' (htrans s s' s'' hs hs')
  | call c k => exact fun s'' hs' => h s'' (htrans s s' s'' hs hs')

include hrefl in
theorem Guarded.holds {p : Calls κ ρ α} {s : σ} {t : τ}
    (h : Guarded perform allowed rely inv p s t) : inv s t := by
  cases p with
  | done a => exact h s (hrefl s)
  | call c k => exact (h s (hrefl s)).1

variable [DecidableEq ι]

/-- Every program of a system is guarded. -/
def System.AllGuarded (perform : κ → σ → τ → ρ × σ × τ) (allowed : κ → σ → τ → Prop)
    (rely : σ → σ → Prop) (inv : σ → τ → Prop) (s : System κ ρ σ τ ι) : Prop :=
  ∀ i, Guarded perform allowed rely inv (s.program i) s.shared (s.own i)

/-- The next call of program `i` is an allowed one. -/
def System.Allows (allowed : κ → σ → τ → Prop) (s : System κ ρ σ τ ι) (i : ι) : Prop :=
  ∀ c k, s.program i = call c k → allowed c s.shared (s.own i)

/-- **One step.**  An allowed call keeps to what the others rely on, and all stay guarded. -/
theorem System.AllGuarded.step (hrefl : ∀ s, rely s s)
    (htrans : ∀ s s' s'', rely s s' → rely s' s'' → rely s s'') {s : System κ ρ σ τ ι} {i : ι}
    (h : s.AllGuarded perform allowed rely inv) (hi : s.Allows allowed i) :
    rely s.shared (s.step perform i).shared ∧
      (s.step perform i).AllGuarded perform allowed rely inv := by
  cases hp : s.program i with
  | done a =>
      rw [System.step_done hp]
      exact ⟨hrefl _, h⟩
  | call c k =>
      have hcall := h i
      rw [hp] at hcall
      obtain ⟨hrely, hnext⟩ := (hcall s.shared (hrefl _)).2 (hi c k hp)
      rw [System.step_call hp]
      refine ⟨hrely, fun j => ?_⟩
      by_cases hj : j = i
      · subst hj
        show Guarded perform allowed rely inv (Function.update s.program j _ j) _
          (Function.update s.own j _ j)
        rw [Function.update_self, Function.update_self]
        exact hnext
      · show Guarded perform allowed rely inv (Function.update s.program i _ j) _
          (Function.update s.own i _ j)
        rw [Function.update_of_ne hj, Function.update_of_ne hj]
        exact (h j).stable htrans hrely

/-- **A whole schedule.**  As long as every call is allowed. -/
theorem System.AllGuarded.along (hrefl : ∀ s, rely s s)
    (htrans : ∀ s s' s'', rely s s' → rely s' s'' → rely s s'') : ∀ (schedule : List ι)
    (s : System κ ρ σ τ ι), s.AllGuarded perform allowed rely inv →
    System.Along perform (fun _ => True) (System.Allows allowed) schedule s →
    System.Along perform (fun s => ∀ i, inv s.shared (s.own i))
      (fun s i => rely s.shared (s.step perform i).shared) schedule s := by
  intro schedule
  induction schedule with
  | nil => intro s h _ i; exact (h i).holds hrefl
  | cons i schedule ih =>
      intro s h hallowed
      obtain ⟨-, hi, hrest⟩ := hallowed
      obtain ⟨hrely, hnext⟩ := h.step hrefl htrans hi
      exact ⟨fun j => (h j).holds hrefl, hrely, ih _ hnext hrest⟩

end Guarded

end Calls

end Effects
