/-
Counting loops over programs.

The two shapes of C loop the development meets are a loop that runs to its bound,
`foldFrom`, and a loop that leaves early with an answer, `findFrom`.  Both take the
number of iterations left and the current index, so that the induction is on the
former and the body sees the latter.

For the first kind the interesting case is a body that never faults: then the run
is the run of every iteration, one after another.  For the second kind it is not,
since the relocation loop stops both on an answer and on a fault; `visited` is the
list of the indices whose body is entered, and everything observable of the loop is
read off it.
-/
import LibPS4.Base.Prog

namespace Effects.Prog

variable {ρ ω β ε σ γ : Type}

/-- `for (; n left; ++i) s = body i s`. -/
def foldFrom (body : Nat → σ → Prog ρ ω β ε σ) : Nat → Nat → σ → Prog ρ ω β ε σ
  | 0, _, s => ret s
  | n + 1, i, s => body i s >>= foldFrom body n (i + 1)

/-- `for (; n left; ++i) body i`. -/
def forFrom (body : Nat → Prog ρ ω β ε Unit) (n i : Nat) : Prog ρ ω β ε Unit :=
  foldFrom (fun k _ => body k) n i ()

/-- `for (; n left; ++i) if (c = body i) return c;` and nothing when the bound is reached. -/
def findFrom (body : Nat → Prog ρ ω β ε (Option γ)) : Nat → Nat → Prog ρ ω β ε (Option γ)
  | 0, _ => ret none
  | n + 1, i => body i >>= fun
      | some c => ret (some c)
      | none => findFrom body n (i + 1)

/-- `for (; n left; ++i) if (c = body i s) return c; else s = body i s;`. -/
def scanFrom (body : Nat → σ → Prog ρ ω β ε (γ ⊕ σ)) :
    Nat → Nat → σ → Prog ρ ω β ε (Option γ)
  | 0, _, _ => ret none
  | n + 1, i, s => body i s >>= fun
      | .inl c => ret (some c)
      | .inr s => scanFrom body n (i + 1) s

/-- `findFrom` over the elements of a list. -/
def findList {α : Type} (body : α → Prog ρ ω β ε (Option γ)) : List α → Prog ρ ω β ε (Option γ)
  | [] => ret none
  | a :: rest => body a >>= fun
      | some c => ret (some c)
      | none => findList body rest

theorem findFrom_eq_findList {α : Type} (g : Nat → α) (body : α → Prog ρ ω β ε (Option γ)) :
    ∀ n i, findFrom (fun k => body (g k)) n i = findList body ((List.range' i n).map g) := by
  intro n
  induction n with
  | zero => intro i; rfl
  | succ n ih =>
      intro i
      rw [findFrom, List.range'_succ, List.map_cons, findList]
      refine congrArg (body (g i) >>= ·) (funext fun o => ?_)
      cases o with
      | some c => rfl
      | none => exact ih (i + 1)

variable {file : ρ → β}

/-! ### Loops that run to their bound -/

theorem result_foldFrom {body : Nat → σ → Prog ρ ω β ε σ} {g : σ → Nat → σ}
    (h : ∀ k s, result file (body k s) = .ok (g s k)) :
    ∀ n i s, result file (foldFrom body n i s) = .ok ((List.range' i n).foldl g s) := by
  intro n
  induction n with
  | zero => intro i s; rfl
  | succ n ih =>
      intro i s
      rw [foldFrom, result_bind, h]
      exact ih (i + 1) (g s i)

/-- When no body faults and what a body reads does not depend on the accumulator, the
loop reads where its bodies read. -/
theorem readsIn_foldFrom {body : Nat → σ → Prog ρ ω β ε σ} {Q : ρ → Prop} {R : Nat → Prop}
    (hok : ∀ k s, ∃ s', result file (body k s) = .ok s')
    (hR : ∀ k s, ReadsIn file Q (body k s) ↔ R k) :
    ∀ n i s, ReadsIn file Q (foldFrom body n i s) ↔ ∀ k, i ≤ k → k < i + n → R k := by
  intro n
  induction n with
  | zero =>
      intro i s
      simp only [foldFrom, readsIn_ret, true_iff]
      intro k h1 h2
      omega
  | succ n ih =>
      intro i s
      obtain ⟨s', hs'⟩ := hok i s
      rw [foldFrom, readsIn_bind_of_ok hs', hR, ih]
      constructor
      · rintro ⟨h0, hrest⟩ k h1 h2
        rcases Nat.eq_or_lt_of_le h1 with rfl | hlt
        · exact h0
        · exact hrest k hlt (by omega)
      · intro h
        exact ⟨h i (Nat.le_refl i) (by omega), fun k h1 h2 => h k (by omega) (by omega)⟩

theorem result_forFrom {body : Nat → Prog ρ ω β ε Unit}
    (h : ∀ k, result file (body k) = .ok ()) (n i : Nat) :
    result file (forFrom body n i) = .ok () :=
  result_foldFrom (fun k _ => h k) n i ()

theorem stores_forFrom {body : Nat → Prog ρ ω β ε Unit}
    (h : ∀ k, result file (body k) = .ok ()) :
    ∀ n i, stores file (forFrom body n i)
      = (List.range' i n).flatMap fun k => stores file (body k) := by
  intro n
  induction n with
  | zero => intro i; rfl
  | succ n ih =>
      intro i
      rw [forFrom, foldFrom, stores_bind, h, List.range'_succ, List.flatMap_cons]
      exact congrArg _ (ih (i + 1))

theorem readsIn_forFrom {body : Nat → Prog ρ ω β ε Unit} {Q : ρ → Prop}
    (h : ∀ k, result file (body k) = .ok ()) (n i : Nat) :
    ReadsIn file Q (forFrom body n i) ↔ ∀ k, i ≤ k → k < i + n → ReadsIn file Q (body k) :=
  readsIn_foldFrom (fun k _ => ⟨(), h k⟩) (fun _ _ => Iff.rfl) n i ()

/-! ### Loops that leave early -/

theorem result_findFrom {body : Nat → Prog ρ ω β ε (Option γ)} {g : Nat → Option γ}
    (h : ∀ k, result file (body k) = .ok (g k)) :
    ∀ n i, result file (findFrom body n i) = .ok ((List.range' i n).findSome? g) := by
  intro n
  induction n with
  | zero => intro i; rfl
  | succ n ih =>
      intro i
      rw [findFrom, result_bind, h, List.range'_succ, List.findSome?_cons]
      cases hg : g i with
      | some c => rfl
      | none => exact ih (i + 1)

/-- A search for the first index with a property ends there, or finds that there is none. -/
theorem findFrom_first {body : Nat → Prog ρ ω β ε (Option γ)} {p : Nat → Prop} [DecidablePred p]
    {c : Nat → γ} (h : ∀ k, result file (body k) = .ok (if p k then some (c k) else none)) :
    ∀ n i, (result file (findFrom body n i) = .ok none ∧ ∀ k, i ≤ k → k < i + n → ¬ p k) ∨
      ∃ k, i ≤ k ∧ k < i + n ∧ p k ∧ (∀ j, i ≤ j → j < k → ¬ p j) ∧
        result file (findFrom body n i) = .ok (some (c k)) := by
  intro n
  induction n with
  | zero => intro i; exact Or.inl ⟨rfl, fun k h1 h2 => by omega⟩
  | succ n ih =>
      intro i
      have hstep : result file (findFrom body (n + 1) i)
          = if p i then .ok (some (c i)) else result file (findFrom body n (i + 1)) := by
        rw [findFrom, result_bind, h]
        split <;> rfl
      by_cases hp : p i
      · rw [hstep, if_pos hp]
        exact Or.inr ⟨i, Nat.le_refl i, by omega, hp, fun j h1 h2 => by omega, rfl⟩
      · rw [hstep, if_neg hp]
        rcases ih (i + 1) with ⟨hres, hnone⟩ | ⟨k, h1, h2, hk, hbefore, hres⟩
        · refine Or.inl ⟨hres, fun k h1 h2 => ?_⟩
          rcases Nat.eq_or_lt_of_le h1 with rfl | hlt
          · exact hp
          · exact hnone k hlt (by omega)
        · refine Or.inr ⟨k, by omega, by omega, hk, fun j h3 h4 => ?_, hres⟩
          rcases Nat.eq_or_lt_of_le h3 with rfl | hlt
          · exact hp
          · exact hbefore j hlt h4

/-- The first index below `n` with a property, or none. -/
def First (p : Nat → Prop) (n : Nat) : Option Nat → Prop
  | none => ∀ k < n, ¬ p k
  | some k => k < n ∧ p k ∧ ∀ j < k, ¬ p j

theorem First.unique {p : Nat → Prop} {n : Nat} {o o' : Option Nat} (h : First p n o)
    (h' : First p n o') : o = o' := by
  cases o with
  | none =>
      cases o' with
      | none => rfl
      | some k => exact absurd h'.2.1 (h k h'.1)
  | some k =>
      cases o' with
      | none => exact absurd h.2.1 (h' k h.1)
      | some k' =>
          have hle : ¬ k < k' := fun hlt => h'.2.2 k hlt h.2.1
          have hge : ¬ k' < k := fun hlt => h.2.2 k' hlt h'.2.1
          rw [Nat.le_antisymm (Nat.not_lt.mp hge) (Nat.not_lt.mp hle)]

theorem First.congr {p q : Nat → Prop} {n : Nat} {o : Option Nat} (hpq : ∀ k < n, p k ↔ q k)
    (h : First p n o) : First q n o := by
  cases o with
  | none => exact fun k hk hq => h k hk ((hpq k hk).mpr hq)
  | some k =>
      refine ⟨h.1, (hpq k h.1).mp h.2.1, fun j hj hq => ?_⟩
      exact h.2.2 j hj ((hpq j (Nat.lt_trans hj h.1)).mpr hq)

/-- There is always an answer. -/
theorem First.exists (p : Nat → Prop) : ∀ n, ∃ o, First p n o := by
  intro n
  induction n with
  | zero => exact ⟨none, fun k hk => absurd hk (Nat.not_lt_zero k)⟩
  | succ n ih =>
      obtain ⟨o, ho⟩ := ih
      cases o with
      | some k => exact ⟨some k, Nat.lt_succ_of_lt ho.1, ho.2⟩
      | none =>
          by_cases hn : p n
          · exact ⟨some n, Nat.lt_succ_self n, hn, ho⟩
          · refine ⟨none, fun k hk => ?_⟩
            obtain hlt | heq := Nat.lt_or_eq_of_le (Nat.le_of_lt_succ hk)
            · exact ho k hlt
            · rw [heq]
              exact hn

/-- What a search from the beginning finds is the first index with the property. -/
theorem findFrom_isFirst {body : Nat → Prog ρ ω β ε (Option γ)} {p : Nat → Prop}
    [DecidablePred p] {c : Nat → γ}
    (h : ∀ k, result file (body k) = .ok (if p k then some (c k) else none)) (n : Nat) :
    ∃ o, First p n o ∧ result file (findFrom body n 0) = .ok (o.map c) := by
  obtain ⟨hres, hnone⟩ | ⟨k, -, hlt, hk, hbefore, hres⟩ := findFrom_first h n 0
  · exact ⟨none, fun k hk => hnone k (Nat.zero_le k) (by omega), hres⟩
  · exact ⟨some k, ⟨by omega, hk, fun j hj => hbefore j (Nat.zero_le j) hj⟩, hres⟩

/-- A search whose state is a function of the index is a search without a state. -/
theorem scanFrom_isFirst {body : Nat → σ → Prog ρ ω β ε (γ ⊕ σ)} {p : Nat → Prop}
    [DecidablePred p] {c : Nat → γ} {st : Nat → σ}
    (h : ∀ k, result file (body k (st k)) = .ok (if p k then .inl (c k) else .inr (st (k + 1))))
    (n : Nat) :
    ∃ o, First p n o ∧ result file (scanFrom body n 0 (st 0)) = .ok (o.map c) := by
  have hanswer : ∀ k, result file (ret (if p k then some (c k) else none) :
      Prog ρ ω β ε (Option γ)) = .ok (if p k then some (c k) else none) := fun k => rfl
  have hsame : ∀ n i, result file (scanFrom body n i (st i)) = result file (findFrom
      (fun k => (ret (if p k then some (c k) else none) : Prog ρ ω β ε (Option γ))) n i) := by
    intro n
    induction n with
    | zero => intro i; rfl
    | succ n ih =>
        intro i
        rw [scanFrom, findFrom, result_bind, result_bind, h, hanswer]
        by_cases hp : p i
        · rw [if_pos hp, if_pos hp]
          rfl
        · rw [if_neg hp, if_neg hp]
          exact ih (i + 1)
  obtain ⟨o, hfirst, hres⟩ := findFrom_isFirst hanswer n
  exact ⟨o, hfirst, (hsame n 0).trans hres⟩

/-- A search ends with what the first body that does not let it go on comes to. -/
theorem result_findFrom_of_stop {body : Nat → Prog ρ ω β ε (Option γ)} {k : Nat}
    (hstop : result file (body k) ≠ .ok none) :
    ∀ n i, i ≤ k → k < i + n → (∀ j, i ≤ j → j < k → result file (body j) = .ok none) →
      result file (findFrom body n i) = result file (body k) := by
  intro n
  induction n with
  | zero => intro i h1 h2 _; omega
  | succ n ih =>
      intro i h1 h2 hbefore
      rw [findFrom, result_bind]
      rcases Nat.eq_or_lt_of_le h1 with rfl | hlt
      · cases hres : result file (body i) with
        | error e => rfl
        | ok o =>
            cases o with
            | some c => rfl
            | none => exact absurd hres hstop
      · rw [hbefore i (Nat.le_refl i) hlt]
        exact ih (i + 1) hlt (by omega) fun j h3 h4 => hbefore j (by omega) h4

/-- The indices whose body the loop enters. -/
def visited (file : ρ → β) (body : Nat → Prog ρ ω β ε (Option γ)) : Nat → Nat → List Nat
  | 0, _ => []
  | n + 1, i =>
      match result file (body i) with
      | .ok none => i :: visited file body n (i + 1)
      | _ => [i]

/-- An index is visited when the loop gets to it: every earlier body answered nothing. -/
theorem mem_visited {body : Nat → Prog ρ ω β ε (Option γ)} {k : Nat} :
    ∀ {n i : Nat}, k ∈ visited file body n i
      ↔ i ≤ k ∧ k < i + n ∧ ∀ j, i ≤ j → j < k → result file (body j) = .ok none := by
  intro n
  induction n with
  | zero => intro i; simp [visited]; omega
  | succ n ih =>
      intro i
      by_cases hi : result file (body i) = .ok none
      · have hv : visited file body (n + 1) i = i :: visited file body n (i + 1) := by
          simp only [visited, hi]
        rw [hv, List.mem_cons, ih]
        constructor
        · rintro (rfl | ⟨h1, h2, h3⟩)
          · exact ⟨Nat.le_refl _, by omega, fun j h4 h5 => by omega⟩
          · refine ⟨by omega, by omega, fun j h4 h5 => ?_⟩
            rcases Nat.eq_or_lt_of_le h4 with rfl | hlt
            · exact hi
            · exact h3 j hlt h5
        · rintro ⟨h1, h2, h3⟩
          rcases Nat.eq_or_lt_of_le h1 with rfl | hlt
          · exact Or.inl rfl
          · exact Or.inr ⟨hlt, by omega, fun j h4 h5 => h3 j (by omega) h5⟩
      · have hv : visited file body (n + 1) i = [i] := by
          simp only [visited]
        rw [hv, List.mem_singleton]
        constructor
        · rintro rfl
          exact ⟨Nat.le_refl _, by omega, fun j h4 h5 => by omega⟩
        · rintro ⟨h1, -, h3⟩
          rcases Nat.eq_or_lt_of_le h1 with rfl | hlt
          · rfl
          · exact absurd (h3 i (Nat.le_refl i) hlt) hi

theorem stores_findFrom (body : Nat → Prog ρ ω β ε (Option γ)) :
    ∀ n i, stores file (findFrom body n i)
      = (visited file body n i).flatMap fun k => stores file (body k) := by
  intro n
  induction n with
  | zero => intro i; rfl
  | succ n ih =>
      intro i
      rw [findFrom, stores_bind, visited]
      cases hr : result file (body i) with
      | error e => simp
      | ok o =>
          cases o with
          | some c => simp
          | none => simp [ih]

theorem quiet_findFrom {body : Nat → Prog ρ ω β ε (Option γ)} (h : ∀ k, Quiet (body k))
    (n i : Nat) : Quiet (findFrom body n i) := by
  intro file
  rw [stores_findFrom]
  simp [fun k => h k file]

theorem readsIn_findFrom (body : Nat → Prog ρ ω β ε (Option γ)) {Q : ρ → Prop} :
    ∀ n i, ReadsIn file Q (findFrom body n i)
      ↔ ∀ k ∈ visited file body n i, ReadsIn file Q (body k) := by
  intro n
  induction n with
  | zero => intro i; simp [findFrom, visited]
  | succ n ih =>
      intro i
      rw [findFrom, readsIn_bind, visited]
      cases hr : result file (body i) with
      | error e => simp
      | ok o =>
          cases o with
          | some c => simp
          | none => simp [ih]

/-- A search for the first index with a property reads where its bodies read, up to and
including that index. -/
theorem readsIn_findFrom_first {body : Nat → Prog ρ ω β ε (Option γ)} {Q : ρ → Prop}
    {p : Nat → Prop} [DecidablePred p] {c : Nat → γ}
    (h : ∀ k, result file (body k) = .ok (if p k then some (c k) else none)) (n i : Nat) :
    ReadsIn file Q (findFrom body n i) ↔ ∀ k, i ≤ k → k < i + n → (∀ j, i ≤ j → j < k → ¬ p j) →
      ReadsIn file Q (body k) := by
  have hnone : ∀ k, result file (body k) = .ok none ↔ ¬ p k := by
    intro k
    rw [h]
    by_cases hk : p k
    · simp [hk]
    · simp [hk]
  rw [readsIn_findFrom]
  simp only [mem_visited, hnone, and_imp]

end Effects.Prog
