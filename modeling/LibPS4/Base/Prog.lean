/-
Programs that read one array of cells and write another.

A `Prog` is the tree of everything a piece of code may do: fetch a cell of its
input, store a cell of its output, stop with a fault, or return.  Nothing here
knows what the input or the output is; the reads are addressed by `ρ`, the writes
by `ω`, and both carry values in `β`.

The tree has one meaning, `exec`, which threads the output through the run.  What
the theorems talk about are the four observations of it: the `result`, the cells
it `fetches`, the cells it `stores`, and the final output.  Since a program never
reads back what it stores, the first three are functions of the input alone;
`exec_eq` is that fact, and it is what makes two runs from different outputs
comparable.  `execFlat` drops the separation: there input and output are one array,
and `execFlat_eq` says when it makes no difference.
-/
import Mathlib.Algebra.Ring.Nat
import Mathlib.Logic.Function.Basic

namespace Effects

/-- Fetches, stores, faults and results, as a tree. -/
inductive Prog (ρ ω β ε α : Type) : Type
  | ret (a : α)
  | fault (e : ε)
  | fetch (r : ρ) (k : β → Prog ρ ω β ε α)
  | store (w : ω) (b : β) (k : Prog ρ ω β ε α)

namespace Prog

variable {ρ ω β ε α γ : Type}

/-- Run `p`, then `k` on what it returns. -/
protected def bind : Prog ρ ω β ε α → (α → Prog ρ ω β ε γ) → Prog ρ ω β ε γ
  | ret a, k => k a
  | fault e, _ => fault e
  | fetch r c, k => fetch r fun b => (c b).bind k
  | store w b c, k => store w b (c.bind k)

instance : Monad (Prog ρ ω β ε) where
  pure := ret
  bind := Prog.bind

/-- One fetch. -/
def get (r : ρ) : Prog ρ ω β ε β := fetch r ret

/-- One store. -/
def put (w : ω) (b : β) : Prog ρ ω β ε Unit := store w b (ret ())

/-- Stop here. -/
def raise (e : ε) : Prog ρ ω β ε α := fault e

/-! ### What a run shows -/

variable (file : ρ → β)

/-- What the program returns on input `file`. -/
def result : Prog ρ ω β ε α → Except ε α
  | ret a => .ok a
  | fault e => .error e
  | fetch r k => result (k (file r))
  | store _ _ k => result k

/-- The cells fetched on input `file`, in order. -/
def fetches : Prog ρ ω β ε α → List ρ
  | ret _ => []
  | fault _ => []
  | fetch r k => r :: fetches (k (file r))
  | store _ _ k => fetches k

/-- The cells stored on input `file`, in order, with their values. -/
def stores : Prog ρ ω β ε α → List (ω × β)
  | ret _ => []
  | fault _ => []
  | fetch r k => stores (k (file r))
  | store w b k => (w, b) :: stores k

/-- The outcome of a run. -/
structure Outcome (ω β ε α : Type) where
  result : Except ε α
  memory : ω → β
  written : List ω

/-- The run itself, from output `mem`. -/
def exec [DecidableEq ω] : Prog ρ ω β ε α → (ω → β) → Outcome ω β ε α
  | ret a, mem => ⟨.ok a, mem, []⟩
  | fault e, mem => ⟨.error e, mem, []⟩
  | fetch r k, mem => exec (k (file r)) mem
  | store w b k, mem =>
      let o := exec k (Function.update mem w b)
      { o with written := w :: o.written }

/-- Apply a list of stores, first to last. -/
def replay [DecidableEq ω] : List (ω × β) → (ω → β) → (ω → β)
  | [], mem => mem
  | (w, b) :: rest, mem => replay rest (Function.update mem w b)

/-! ### The monad laws, and how the observations compose -/

section Laws

variable {file}

@[simp] theorem pure_eq (a : α) : (pure a : Prog ρ ω β ε α) = ret a := rfl

@[simp] theorem ret_bind (a : α) (k : α → Prog ρ ω β ε γ) : (ret a >>= k) = k a := rfl

@[simp] theorem fault_bind (e : ε) (k : α → Prog ρ ω β ε γ) :
    ((fault e : Prog ρ ω β ε α) >>= k) = fault e := rfl

@[simp] theorem fetch_bind (r : ρ) (c : β → Prog ρ ω β ε α) (k : α → Prog ρ ω β ε γ) :
    (fetch r c >>= k) = fetch r fun b => c b >>= k := rfl

@[simp] theorem store_bind (w : ω) (b : β) (c : Prog ρ ω β ε α) (k : α → Prog ρ ω β ε γ) :
    (store w b c >>= k) = store w b (c >>= k) := rfl

theorem bind_ret (p : Prog ρ ω β ε α) : (p >>= ret) = p := by
  induction p with
  | ret a => rfl
  | fault e => rfl
  | fetch r k ih => exact congrArg (fetch r) (funext fun b => ih b)
  | store w b k ih => exact congrArg (store w b) ih

theorem bind_bind {δ : Type} (p : Prog ρ ω β ε α) (f : α → Prog ρ ω β ε γ)
    (g : γ → Prog ρ ω β ε δ) : ((p >>= f) >>= g) = (p >>= fun a => f a >>= g) := by
  induction p with
  | ret a => rfl
  | fault e => rfl
  | fetch r k ih => exact congrArg (fetch r) (funext fun b => ih b)
  | store w b k ih => exact congrArg (store w b) ih

instance : LawfulMonad (Prog ρ ω β ε) :=
  LawfulMonad.mk' _ (fun p => bind_ret p) (fun _ _ => rfl) (fun p f g => bind_bind p f g)

@[simp] theorem result_ret (a : α) : result file (ret a : Prog ρ ω β ε α) = .ok a := rfl

@[simp] theorem result_raise (e : ε) : result file (raise e : Prog ρ ω β ε α) = .error e := rfl

@[simp] theorem result_get (r : ρ) : result file (get r : Prog ρ ω β ε β) = .ok (file r) := rfl

@[simp] theorem result_put (w : ω) (b : β) :
    result file (put w b : Prog ρ ω β ε Unit) = .ok () := rfl

@[simp] theorem fetches_ret (a : α) : fetches file (ret a : Prog ρ ω β ε α) = [] := rfl

@[simp] theorem fetches_raise (e : ε) : fetches file (raise e : Prog ρ ω β ε α) = [] := rfl

@[simp] theorem fetches_get (r : ρ) : fetches file (get r : Prog ρ ω β ε β) = [r] := rfl

@[simp] theorem fetches_put (w : ω) (b : β) :
    fetches file (put w b : Prog ρ ω β ε Unit) = [] := rfl

@[simp] theorem stores_ret (a : α) : stores file (ret a : Prog ρ ω β ε α) = [] := rfl

@[simp] theorem stores_raise (e : ε) : stores file (raise e : Prog ρ ω β ε α) = [] := rfl

@[simp] theorem stores_get (r : ρ) : stores file (get r : Prog ρ ω β ε β) = [] := rfl

@[simp] theorem stores_put (w : ω) (b : β) :
    stores file (put w b : Prog ρ ω β ε Unit) = [(w, b)] := rfl

/-- The value a run continues with, or nothing when it faulted. -/
def onOk {δ : Type} (r : Except ε α) (k : α → List δ) : List δ :=
  match r with
  | .ok a => k a
  | .error _ => []

@[simp] theorem onOk_ok {δ : Type} (a : α) (k : α → List δ) :
    onOk (.ok a : Except ε α) k = k a := rfl

@[simp] theorem onOk_error {δ : Type} (e : ε) (k : α → List δ) :
    onOk (.error e : Except ε α) k = [] := rfl

theorem mem_onOk {δ : Type} {r : Except ε α} {k : α → List δ} {x : δ} :
    x ∈ onOk r k ↔ ∃ a, r = .ok a ∧ x ∈ k a := by
  cases r <;> simp

@[simp] theorem result_bind (p : Prog ρ ω β ε α) (k : α → Prog ρ ω β ε γ) :
    result file (p >>= k) = result file p >>= fun a => result file (k a) := by
  induction p with
  | ret a => rfl
  | fault e => rfl
  | fetch r c ih => exact ih (file r)
  | store w b c ih => exact ih

@[simp] theorem fetches_bind (p : Prog ρ ω β ε α) (k : α → Prog ρ ω β ε γ) :
    fetches file (p >>= k)
      = fetches file p ++ onOk (result file p) fun a => fetches file (k a) := by
  induction p with
  | ret a => rfl
  | fault e => rfl
  | fetch r c ih => exact congrArg (r :: ·) (ih (file r))
  | store w b c ih => exact ih

@[simp] theorem stores_bind (p : Prog ρ ω β ε α) (k : α → Prog ρ ω β ε γ) :
    stores file (p >>= k)
      = stores file p ++ onOk (result file p) fun a => stores file (k a) := by
  induction p with
  | ret a => rfl
  | fault e => rfl
  | fetch r c ih => exact ih (file r)
  | store w b c ih => exact congrArg ((w, b) :: ·) ih

@[simp] theorem ok_bind (a : α) (k : α → Except ε γ) : ((Except.ok a : Except ε α) >>= k) = k a :=
  rfl

@[simp] theorem error_bind (e : ε) (k : α → Except ε γ) :
    ((Except.error e : Except ε α) >>= k) = .error e := rfl

/-- A sequence returns when both of its parts do. -/
theorem bind_eq_ok {x : Except ε α} {k : α → Except ε γ} {c : γ} :
    (x >>= k) = .ok c ↔ ∃ a, x = .ok a ∧ k a = .ok c := by
  cases x with
  | error e => exact ⟨fun h => (nomatch h), fun ⟨_, h, _⟩ => (nomatch h)⟩
  | ok a =>
      refine ⟨fun h => ⟨a, rfl, h⟩, fun ⟨b, hb, hk⟩ => ?_⟩
      rw [hb]
      exact hk

theorem result_ite (c : Prop) [Decidable c] (p q : Prog ρ ω β ε α) :
    result file (if c then p else q) = if c then result file p else result file q :=
  apply_ite _ c p q

theorem stores_ite (c : Prop) [Decidable c] (p q : Prog ρ ω β ε α) :
    stores file (if c then p else q) = if c then stores file p else stores file q :=
  apply_ite _ c p q

/-! ### Programs that store nothing -/

/-- The program stores nothing, on any input. -/
def Quiet (p : Prog ρ ω β ε α) : Prop := ∀ file, stores file p = []

theorem Quiet.stores_eq {p : Prog ρ ω β ε α} (h : Quiet p) : stores file p = [] := h file

@[simp] theorem quiet_ret (a : α) : Quiet (ret a : Prog ρ ω β ε α) := fun _ => rfl

@[simp] theorem quiet_raise (e : ε) : Quiet (raise e : Prog ρ ω β ε α) := fun _ => rfl

@[simp] theorem quiet_get (r : ρ) : Quiet (get r : Prog ρ ω β ε β) := fun _ => rfl

theorem Quiet.bind {p : Prog ρ ω β ε α} {k : α → Prog ρ ω β ε γ} (hp : Quiet p)
    (hk : ∀ a, Quiet (k a)) : Quiet (p >>= k) := by
  intro file
  rw [stores_bind, hp file, List.nil_append]
  cases result file p with
  | error e => rfl
  | ok a => exact hk a file

theorem Quiet.ite {c : Prop} [Decidable c] {p q : Prog ρ ω β ε α} (hp : Quiet p)
    (hq : Quiet q) : Quiet (if c then p else q) := by
  split
  · exact hp
  · exact hq

/-! ### Where a program reads -/

/-- Every cell fetched on input `file` satisfies `Q`. -/
def ReadsIn (file : ρ → β) (Q : ρ → Prop) (p : Prog ρ ω β ε α) : Prop :=
  ∀ r ∈ fetches file p, Q r

variable {Q : ρ → Prop}

variable (file Q) in
/-- The test of it, made while the program runs. -/
def readsAll [DecidablePred Q] : Prog ρ ω β ε α → Bool
  | ret _ => true
  | fault _ => true
  | fetch r k => decide (Q r) && readsAll (k (file r))
  | store _ _ k => readsAll k

theorem readsAll_iff [DecidablePred Q] (p : Prog ρ ω β ε α) :
    readsAll file Q p = true ↔ ReadsIn file Q p := by
  unfold ReadsIn
  induction p with
  | ret a => simp [readsAll, fetches]
  | fault e => simp [readsAll, fetches]
  | fetch r k ih => simp [readsAll, fetches, ih]
  | store w b k ih => exact ih

instance [DecidablePred Q] (p : Prog ρ ω β ε α) : Decidable (ReadsIn file Q p) :=
  decidable_of_iff _ (readsAll_iff p)

@[simp] theorem readsIn_ret (a : α) : ReadsIn file Q (ret a : Prog ρ ω β ε α) := by
  simp [ReadsIn]

@[simp] theorem readsIn_raise (e : ε) : ReadsIn file Q (raise e : Prog ρ ω β ε α) := by
  simp [ReadsIn]

@[simp] theorem readsIn_put (w : ω) (b : β) :
    ReadsIn file Q (put w b : Prog ρ ω β ε Unit) := by
  simp [ReadsIn]

@[simp] theorem readsIn_get (r : ρ) : ReadsIn file Q (get r : Prog ρ ω β ε β) ↔ Q r := by
  simp [ReadsIn]

/-- A sequence reads inside `Q` exactly when its first part does and, if that part
returns, so does the rest. -/
theorem readsIn_bind (p : Prog ρ ω β ε α) (k : α → Prog ρ ω β ε γ) :
    ReadsIn file Q (p >>= k)
      ↔ ReadsIn file Q p ∧ ∀ a, result file p = .ok a → ReadsIn file Q (k a) := by
  constructor
  · intro h
    refine ⟨fun r hr => h r (by simp [hr]), fun a ha r hr => h r ?_⟩
    simp [ha, hr]
  · rintro ⟨hp, hk⟩ r hr
    rw [fetches_bind, List.mem_append] at hr
    rcases hr with hr | hr
    · exact hp r hr
    · obtain ⟨a, ha, hra⟩ := mem_onOk.mp hr
      exact hk a ha r hra

theorem readsIn_bind_of_ok {p : Prog ρ ω β ε α} {a : α} (h : result file p = .ok a)
    (k : α → Prog ρ ω β ε γ) :
    ReadsIn file Q (p >>= k) ↔ ReadsIn file Q p ∧ ReadsIn file Q (k a) := by
  rw [readsIn_bind]
  refine and_congr_right fun _ => ⟨fun hk => hk a h, fun hk b hb => ?_⟩
  rw [h] at hb
  cases hb
  exact hk

end Laws

/-! ### A run is its observations -/

section Runs

variable [DecidableEq ω] {file}

/-- The run threads nothing but its stores. -/
theorem exec_eq (p : Prog ρ ω β ε α) : ∀ mem : ω → β,
    exec file p mem
      = ⟨result file p, replay (stores file p) mem, (stores file p).map Prod.fst⟩ := by
  induction p with
  | ret a => intro mem; rfl
  | fault e => intro mem; rfl
  | fetch r k ih => intro mem; exact ih (file r) mem
  | store w b k ih =>
      intro mem
      simp only [exec, ih, result, stores, replay, List.map_cons]

theorem memory_exec (p : Prog ρ ω β ε α) (mem : ω → β) :
    (exec file p mem).memory = replay (stores file p) mem := by
  rw [exec_eq]

theorem replay_append (l₁ l₂ : List (ω × β)) : ∀ mem : ω → β,
    replay (l₁ ++ l₂) mem = replay l₂ (replay l₁ mem) := by
  induction l₁ with
  | nil => intro mem; rfl
  | cons x rest ih => intro mem; exact ih _

/-- A cell no store names keeps its value. -/
theorem replay_of_notMem {l : List (ω × β)} {a : ω} (h : a ∉ l.map Prod.fst) :
    ∀ mem : ω → β, replay l mem a = mem a := by
  induction l with
  | nil => intro mem; rfl
  | cons x rest ih =>
      intro mem
      obtain ⟨hne, hrest⟩ : a ≠ x.1 ∧ a ∉ rest.map Prod.fst := by simpa using h
      rw [replay, ih hrest, Function.update_of_ne hne]

/-- A cell some store names ends up the same from any start. -/
theorem replay_agree {l : List (ω × β)} {a : ω} (h : a ∈ l.map Prod.fst) :
    ∀ m₁ m₂ : ω → β, replay l m₁ a = replay l m₂ a := by
  induction l with
  | nil => simp at h
  | cons x rest ih =>
      intro m₁ m₂
      by_cases hrest : a ∈ rest.map Prod.fst
      · exact ih hrest _ _
      · have hax : a = x.1 := by
          rcases List.mem_cons.mp h with heq | hmem
          · exact heq
          · exact absurd hmem hrest
        subst hax
        rw [replay, replay, replay_of_notMem hrest, replay_of_notMem hrest,
          Function.update_self, Function.update_self]

/-- Replaying the same stores a second time changes nothing. -/
theorem replay_idem (l : List (ω × β)) (mem : ω → β) :
    replay l (replay l mem) = replay l mem := by
  funext a
  by_cases h : a ∈ l.map Prod.fst
  · exact replay_agree h _ _
  · rw [replay_of_notMem h]

/-- Among writers that touch pairwise different cells, each has the last word on its own. -/
theorem replay_flatMap_of_disjoint {δ : Type} {g : δ → List (ω × β)} {x : δ} {a : ω}
    (ha : a ∈ (g x).map Prod.fst) {l : List δ}
    (hdisj : l.Pairwise fun y z => ∀ b ∈ (g y).map Prod.fst, b ∉ (g z).map Prod.fst)
    (hx : x ∈ l) : ∀ mem : ω → β, replay (l.flatMap g) mem a = replay (g x) mem a := by
  induction l with
  | nil => cases hx
  | cons y rest ih =>
      intro mem
      obtain ⟨hy, hrest⟩ := List.pairwise_cons.mp hdisj
      rw [List.flatMap_cons, replay_append]
      rcases List.mem_cons.mp hx with rfl | hmem
      · refine replay_of_notMem ?_ _
        rw [List.map_flatMap, List.mem_flatMap]
        rintro ⟨z, hz, haz⟩
        exact hy z hz a ha haz
      · rw [ih hrest hmem]
        exact replay_agree ha _ _

/-- Two runs on one input write the same cells with the same values, and nothing else. -/
theorem exec_agree (p : Prog ρ ω β ε α) (m₁ m₂ : ω → β) :
    (exec file p m₁).written = (exec file p m₂).written ∧
      (exec file p m₁).result = (exec file p m₂).result ∧
      (∀ a ∈ (exec file p m₁).written, (exec file p m₁).memory a = (exec file p m₂).memory a) ∧
      ∀ a, a ∉ (exec file p m₁).written → (exec file p m₁).memory a = m₁ a := by
  simp only [exec_eq]
  refine ⟨trivial, trivial, fun a ha => ?_, fun a ha => ?_⟩
  · exact replay_agree ha m₁ m₂
  · exact replay_of_notMem ha m₁

/-- A second run changes nothing. -/
theorem exec_again (p : Prog ρ ω β ε α) (m : ω → β) :
    (exec file p (exec file p m).memory).memory = (exec file p m).memory ∧
      (exec file p (exec file p m).memory).result = (exec file p m).result := by
  simp only [exec_eq]
  exact ⟨replay_idem _ m, trivial⟩

/-! ### One array for both -/

/-- The run in which the input cell `r` lives at `emb r` of the output itself. -/
def execFlat (emb : ρ → ω) : Prog ρ ω β ε α → (ω → β) → Outcome ω β ε α
  | ret a, mem => ⟨.ok a, mem, []⟩
  | fault e, mem => ⟨.error e, mem, []⟩
  | fetch r k, mem => execFlat emb (k (mem (emb r))) mem
  | store w b k, mem =>
      let o := execFlat emb k (Function.update mem w b)
      { o with written := w :: o.written }

/-- No cell the program fetches is one it stores. -/
def Apart (emb : ρ → ω) (file : ρ → β) (p : Prog ρ ω β ε α) : Prop :=
  ∀ r ∈ fetches file p, emb r ∉ (stores file p).map Prod.fst

/-- What the program fetches is in the array. -/
def HoldsInput (emb : ρ → ω) (file : ρ → β) (p : Prog ρ ω β ε α) (mem : ω → β) : Prop :=
  ∀ r ∈ fetches file p, mem (emb r) = file r

section Flat

variable {emb : ρ → ω} {p : Prog ρ ω β ε α}

/-- As long as nothing the program fetches is a cell it stores, reading back from the
array being written is reading the original. -/
theorem execFlat_eq (h : Apart emb file p) : ∀ mem : ω → β, HoldsInput emb file p mem →
    execFlat emb p mem = exec file p mem := by
  unfold Apart HoldsInput at *
  induction p with
  | ret a => intro mem _; rfl
  | fault e => intro mem _; rfl
  | fetch r k ih =>
      intro mem hsame
      have hr : mem (emb r) = file r := hsame r (by simp [fetches])
      rw [execFlat, hr]
      exact ih (file r) (fun x hx => h x (by simp [fetches, hx])) mem
        (fun x hx => hsame x (by simp [fetches, hx]))
  | store w b k ih =>
      intro mem hsame
      have hrest := ih (fun x hx hmem => h x hx (List.mem_cons_of_mem w hmem))
        (Function.update mem w b) fun x hx => ?_
      · rw [execFlat, exec, hrest]
      · have hne : emb x ≠ w := fun hc => h x hx (by simp [stores, hc])
        rw [Function.update_of_ne hne]
        exact hsame x hx

/-- The input survives the run. -/
theorem HoldsInput.exec {mem : ω → β} (h : Apart emb file p) (hmem : HoldsInput emb file p mem) :
    HoldsInput emb file p (exec file p mem).memory := by
  intro r hr
  rw [memory_exec, replay_of_notMem (h r hr)]
  exact hmem r hr

/-- **Two runs in one array.**  If the cells fetched are apart from the cells stored and
hold the same values in both arrays, the runs differ only where neither stores. -/
theorem execFlat_agree {m₁ m₂ : ω → β} (h : Apart emb file p) (h₁ : HoldsInput emb file p m₁)
    (h₂ : HoldsInput emb file p m₂) :
    (execFlat emb p m₁).written = (execFlat emb p m₂).written ∧
      (execFlat emb p m₁).result = (execFlat emb p m₂).result ∧
      (∀ a ∈ (execFlat emb p m₁).written,
        (execFlat emb p m₁).memory a = (execFlat emb p m₂).memory a) ∧
      ∀ a, a ∉ (execFlat emb p m₁).written → (execFlat emb p m₁).memory a = m₁ a := by
  rw [execFlat_eq h m₁ h₁, execFlat_eq h m₂ h₂]
  exact exec_agree p m₁ m₂

/-- **A second run in one array.**  It changes nothing. -/
theorem execFlat_again {mem : ω → β} (h : Apart emb file p) (hmem : HoldsInput emb file p mem) :
    (execFlat emb p (execFlat emb p mem).memory).memory = (execFlat emb p mem).memory ∧
      (execFlat emb p (execFlat emb p mem).memory).result = (execFlat emb p mem).result := by
  rw [execFlat_eq h mem hmem, execFlat_eq h _ (hmem.exec h)]
  exact exec_again p mem

end Flat

end Runs

end Prog

end Effects
