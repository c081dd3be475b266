/-
Memory that holds a list of bytes, taken apart.

What is written one after the other is found one after the other: a list that is made of
pieces is held exactly if every piece is, at the end of the ones before.  For records of
one size that end is a multiple of the size.
-/
import LibPS4.Base.Text

namespace X64

open Effects

variable {m : U64 → Byte} {a : U64} {α : Type}

theorem HoldsBytes.congr {bytes bytes' : List Byte} (h : HoldsBytes m a bytes)
    (heq : bytes = bytes') : HoldsBytes m a bytes' := heq ▸ h

theorem holdsBytes_append {xs ys : List Byte} :
    HoldsBytes m a (xs ++ ys) ↔
      HoldsBytes m a xs ∧ HoldsBytes m (a + BitVec.ofNat 64 xs.length) ys := by
  constructor
  · intro h
    refine ⟨fun k b hb => h k b ?_, fun k b hb => ?_⟩
    · obtain ⟨hk, -⟩ := List.getElem?_eq_some_iff.mp hb
      rw [List.getElem?_append_left hk, hb]
    · have hk : (xs ++ ys)[xs.length + k]? = some b := by
        rw [List.getElem?_append_right (Nat.le_add_right _ _), Nat.add_sub_cancel_left, hb]
      rw [BitVec.add_assoc, ← BitVec.ofNat_add]
      exact h _ b hk
  · rintro ⟨hx, hy⟩ k b hb
    by_cases hk : k < xs.length
    · rw [List.getElem?_append_left hk] at hb
      exact hx k b hb
    · rw [List.getElem?_append_right (Nat.not_lt.mp hk)] at hb
      have hfound := hy _ b hb
      rwa [BitVec.add_assoc, ← BitVec.ofNat_add, Nat.add_sub_cancel' (Nat.not_lt.mp hk)] at hfound

/-- One of the pieces stands behind those before it. -/
theorem HoldsBytes.piece {l : List α} {g : α → List Byte} (h : HoldsBytes m a (l.flatMap g))
    {i : Nat} {x : α} (hx : l[i]? = some x) :
    HoldsBytes m (a + BitVec.ofNat 64 ((l.take i).flatMap g).length) (g x) := by
  obtain ⟨hi, hget⟩ := List.getElem?_eq_some_iff.mp hx
  have hsplit : l = l.take i ++ x :: l.drop (i + 1) := by
    rw [← hget, ← List.drop_eq_getElem_cons hi, List.take_append_drop]
  have hparts := h.congr (congrArg (List.flatMap g) hsplit)
  rw [List.flatMap_append, List.flatMap_cons, holdsBytes_append, holdsBytes_append] at hparts
  exact hparts.2.1

theorem length_flatMap_records {g : α → List Byte} {n : Nat} (hn : ∀ x, (g x).length = n)
    (l : List α) : (l.flatMap g).length = n * l.length := by
  induction l with
  | nil => rfl
  | cons x l ih =>
      rw [List.flatMap_cons, List.length_append, hn, ih, List.length_cons, Nat.mul_succ]
      omega

/-- A record, where all have one size. -/
theorem HoldsBytes.record {l : List α} {g : α → List Byte} {n : Nat}
    (h : HoldsBytes m a (l.flatMap g)) (hn : ∀ x, (g x).length = n) {i : Nat} {x : α}
    (hx : l[i]? = some x) : HoldsBytes m (a + BitVec.ofNat 64 (i * n)) (g x) := by
  obtain ⟨hi, -⟩ := List.getElem?_eq_some_iff.mp hx
  have hpiece := h.piece hx
  rw [length_flatMap_records hn, List.length_take, Nat.min_eq_left (Nat.le_of_lt hi),
    Nat.mul_comm] at hpiece
  exact hpiece

end X64
