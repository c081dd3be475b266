/-
Texts that call out.

A text that calls something unlinked stops there.  Here what it calls is somebody else's
code, known by what it does to the machine and to a state of its own: `Answered` is the
run of the text with each such call answered in one of the ways this code may take.  A run
of a text is determined up to the call, so what is known of the stretch before it and of
the stretch behind it is known of every answered run.

A program makes many such runs, and in between it does what it likes with all memory that is
not the texts' own.  What depends on that memory alone and is kept by one run is kept by all
of them.
-/
import LibPS4.Base.Text

namespace X64

open Effects

variable {lab sym τ : Type} [DecidableEq lab] {p : Placed lab sym} {f : sym}
  {answer : State × τ → State × τ → Prop}

/-- Run from a state until control is left for good; the calls of `f` are answered. -/
inductive Answered (p : Placed lab sym) (f : sym) (answer : State × τ → State × τ → Prop) :
    State × τ → Exit sym → State × τ → Prop
  | leaves {s t : State} {x : τ} {e : Exit sym} (h : Leaves p s e t) (he : e ≠ .called f) :
      Answered p f answer (s, x) e (t, x)
  | called {s t : State} {x : τ} {c d : State × τ} {e : Exit sym}
      (h : Leaves p s (.called f) t) (ha : answer (t, x) c) (hrest : Answered p f answer c e d) :
      Answered p f answer (s, x) e d

/-- Where the text is left for good without a call, this is all there is. -/
theorem Answered.eq_of_leaves {s t : State} {x : τ} {e e' : Exit sym} {d : State × τ}
    (h : Answered p f answer (s, x) e' d) (hs : Leaves p s e t) (he : e ≠ .called f) :
    e' = e ∧ d = (t, x) := by
  cases h with
  | leaves h' =>
      obtain ⟨rfl, rfl⟩ := h'.unique hs
      exact ⟨rfl, rfl⟩
  | called h' =>
      obtain ⟨rfl, -⟩ := h'.unique hs
      exact absurd rfl he

/-- Where it calls, the call is answered and the run goes on from the answer. -/
theorem Answered.of_called {s t : State} {x : τ} {e : Exit sym} {d : State × τ}
    (h : Answered p f answer (s, x) e d) (hs : Leaves p s (.called f) t) :
    ∃ c, answer (t, x) c ∧ Answered p f answer c e d := by
  cases h with
  | leaves h' he =>
      obtain ⟨rfl, -⟩ := h'.unique hs
      exact absurd rfl he
  | called h' ha hrest =>
      obtain ⟨-, rfl⟩ := h'.unique hs
      exact ⟨_, ha, hrest⟩

/-! ### Programs that make many calls -/

/-- One call: what it is of, the state in which it is made, how it ended and in which state,
and the state of the other code then. -/
structure CallRecord (α sym τ : Type) where
  info : α
  entry : State
  exit : Exit sym
  left : State
  static : τ

section Histories

variable {α sym τ : Type} (owns : U64 → Prop) (proper : α → State → Prop)
  (runs : α → State × τ → Exit sym → State × τ → Prop)

/-- The calls a program makes when memory and the other code's state are `mem` and `x`: before
each one it has left alone what is owned. -/
def History : (U64 → Byte) → τ → List (CallRecord α sym τ) → Prop
  | _, _, [] => True
  | mem, x, call :: rest =>
      (∀ a, owns a → call.entry.mem a = mem a) ∧ proper call.info call.entry ∧
      runs call.info (call.entry, x) call.exit (call.left, call.static) ∧
      History call.left.mem call.static rest

/-- Memory and the other code's state when the calls are through. -/
def afterCalls (mem : U64 → Byte) (x : τ) (calls : List (CallRecord α sym τ)) :
    (U64 → Byte) × τ :=
  calls.foldl (fun _ call => (call.left.mem, call.static)) (mem, x)

variable {owns proper runs}

/-- The induction over the calls. -/
theorem History.all (Kept : (U64 → Byte) → τ → Prop) (Done : α → State → Exit sym → State → Prop)
    (hsame : ∀ {mem mem' : U64 → Byte} {x : τ}, Kept mem x →
      (∀ a, owns a → mem' a = mem a) → Kept mem' x)
    (hcall : ∀ {c : α} {s : State} {x : τ} {e : Exit sym} {d : State × τ}, proper c s →
      Kept s.mem x → runs c (s, x) e d → Done c s e d.1 ∧ Kept d.1.mem d.2) :
    ∀ (calls : List (CallRecord α sym τ)) (mem : U64 → Byte) (x : τ), Kept mem x →
      History owns proper runs mem x calls →
      (∀ call ∈ calls, Done call.info call.entry call.exit call.left) ∧
        Kept (afterCalls mem x calls).1 (afterCalls mem x calls).2 := by
  intro calls
  induction calls with
  | nil => intro mem x hkept _; exact ⟨fun call hmem => absurd hmem List.not_mem_nil, hkept⟩
  | cons first rest ih =>
      intro mem x hkept hhistory
      obtain ⟨halone, hproper, hrun, hrest⟩ := hhistory
      obtain ⟨hdone, hleft⟩ := hcall hproper (hsame hkept halone) hrun
      obtain ⟨hlater, hlast⟩ := ih _ _ hleft hrest
      refine ⟨fun call hmem => ?_, hlast⟩
      rcases List.mem_cons.mp hmem with rfl | hmem
      · exact hdone
      · exact hlater call hmem

end Histories

end X64
