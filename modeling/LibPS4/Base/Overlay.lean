/-
Layers of partial writes.

A writer says, for every cell, which value it puts there, if any.  Running a list of
writers one after another leaves in each cell the value of the last one that wrote
it; `overlay` is that partial image.

The question the loader raises is what happens when a list holds writers that should
not have been run.  `overlay_eq_filter_iff` answers it exactly: they do no harm as
long as every cell in which one of them has the last word is a cell where one of the
wanted writers puts the same value.
-/
import LibPS4.Base.Bytes

namespace Effects

variable {σ ι β : Type}

/-- What a list of writers leaves in a cell: the value of the last that wrote it. -/
def overlay (w : σ → ι → Option β) : List σ → ι → Option β
  | [], _ => none
  | s :: rest, x => (overlay w rest x).or (w s x)

variable {w : σ → ι → Option β}

theorem overlay_eq_none {l : List σ} {x : ι} :
    overlay w l x = none ↔ ∀ s ∈ l, w s x = none := by
  induction l with
  | nil => simp [overlay]
  | cons s rest ih =>
      rw [overlay, Option.or_eq_none_iff, ih, List.forall_mem_cons]
      exact And.comm

/-- The value left is that of a writer after which nothing writes the cell. -/
theorem overlay_eq_some {l : List σ} {x : ι} {b : β} :
    overlay w l x = some b ↔ ∃ before s after, l = before ++ s :: after ∧ w s x = some b ∧
      ∀ t ∈ after, w t x = none := by
  induction l with
  | nil => simp [overlay]
  | cons s rest ih =>
      rw [overlay, Option.or_eq_some_iff]
      constructor
      · rintro (h | ⟨hnone, hs⟩)
        · obtain ⟨before, t, after, hl, ht, hafter⟩ := ih.mp h
          exact ⟨s :: before, t, after, by rw [hl, List.cons_append], ht, hafter⟩
        · exact ⟨[], s, rest, rfl, hs, overlay_eq_none.mp hnone⟩
      · rintro ⟨before, t, after, hl, ht, hafter⟩
        cases before with
        | nil =>
            obtain ⟨rfl, rfl⟩ : s = t ∧ rest = after := by simpa using hl
            exact Or.inr ⟨overlay_eq_none.mpr hafter, ht⟩
        | cons u before =>
            obtain ⟨rfl, hrest⟩ : s = u ∧ rest = before ++ t :: after := by simpa using hl
            exact Or.inl (ih.mpr ⟨before, t, after, hrest, ht, hafter⟩)

theorem exists_of_overlay {l : List σ} {x : ι} {b : β} (h : overlay w l x = some b) :
    ∃ s ∈ l, w s x = some b := by
  obtain ⟨before, s, after, hl, hs, -⟩ := overlay_eq_some.mp h
  exact ⟨s, by simp [hl], hs⟩

/-- Where the writers never contradict each other, any of them gives the value. -/
theorem overlay_of_agree {l : List σ} {x : ι}
    (hagree : ∀ s ∈ l, ∀ t ∈ l, ∀ b c, w s x = some b → w t x = some c → b = c)
    {s : σ} (hs : s ∈ l) {b : β} (hb : w s x = some b) : overlay w l x = some b := by
  cases hov : overlay w l x with
  | none => rw [overlay_eq_none.mp hov s hs] at hb; cases hb
  | some c =>
      obtain ⟨t, ht, htc⟩ := exists_of_overlay hov
      rw [hagree s hs t ht b c hb htc]

/-- What writers that store relative to a base leave in memory. -/
theorem replay_flatMap {base : U64} {stores : σ → List (U64 × Byte)} {w : σ → U64 → Option Byte}
    (h : ∀ s mem x, Prog.replay (stores s) mem (base + x) = (w s x).getD (mem (base + x))) :
    ∀ (l : List σ) (mem : U64 → Byte) (x : U64),
      Prog.replay (l.flatMap stores) mem (base + x) = (overlay w l x).getD (mem (base + x)) := by
  intro l
  induction l with
  | nil => intro mem x; rfl
  | cons s rest ih =>
      intro mem x
      rw [List.flatMap_cons, Prog.replay_append, ih, h, overlay]
      cases overlay w rest x <;> rfl

/-- **When the unwanted writers do no harm.** -/
theorem overlay_eq_filter_iff (good : σ → Bool) {l : List σ}
    (hagree : ∀ x, ∀ s ∈ l.filter good, ∀ t ∈ l.filter good, ∀ b c,
      w s x = some b → w t x = some c → b = c) :
    (∀ x, overlay w l x = overlay w (l.filter good) x) ↔
      ∀ before s after, l = before ++ s :: after → good s = false →
        ∀ x b, w s x = some b → (∀ t ∈ after, w t x = none) →
          ∃ t ∈ l, good t = true ∧ w t x = some b := by
  constructor
  · intro h before s after hl _ x b hb hafter
    have hov : overlay w l x = some b := overlay_eq_some.mpr ⟨before, s, after, hl, hb, hafter⟩
    rw [h x] at hov
    obtain ⟨t, ht, htb⟩ := exists_of_overlay hov
    obtain ⟨hmem, hgood⟩ := List.mem_filter.mp ht
    exact ⟨t, hmem, hgood, htb⟩
  · intro h x
    cases hov : overlay w l x with
    | none =>
        refine (overlay_eq_none.mpr fun s hs => ?_).symm
        exact overlay_eq_none.mp hov s (List.mem_filter.mp hs).1
    | some b =>
        obtain ⟨before, s, after, hl, hs, hafter⟩ := overlay_eq_some.mp hov
        -- The last writer is a wanted one, or some wanted writer agrees with it.
        obtain ⟨t, ht, hgood, htb⟩ : ∃ t ∈ l, good t = true ∧ w t x = some b := by
          cases hgood : good s with
          | true => exact ⟨s, by simp [hl], hgood, hs⟩
          | false => exact h before s after hl hgood x b hs hafter
        exact (overlay_of_agree (hagree x) (List.mem_filter.mpr ⟨ht, hgood⟩) htb).symm

end Effects
