/-
Tables of terminated strings.

A table is a list of strings written one after another, each followed by a terminator
that occurs in none of them.  A position in such a table is a string and a distance into
it, the terminator being at the distance of the string's length; what stands at a
position, and how many terminators stand before it, are read off that pair.

A list that ends with the terminator is such a table in one way only: its strings are
what `List.splitOn` makes of everything before the last terminator.
-/
import Mathlib.Algebra.Ring.Nat
import Mathlib.Data.List.GetD

namespace Terminated

variable {α : Type} {z : α} {ss : List (List α)} {s : List α} {k j i : Nat}

/-- The strings, each with its terminator. -/
def text (z : α) (ss : List (List α)) : List α := ss.flatMap (· ++ [z])

/-- Where string number `k` starts. -/
def start (ss : List (List α)) (k : Nat) : Nat := ((ss.take k).map fun s => s.length + 1).sum

theorem text_append (z : α) (ss ss' : List (List α)) :
    text z (ss ++ ss') = text z ss ++ text z ss' := List.flatMap_append

theorem length_text (z : α) (ss : List (List α)) :
    (text z ss).length = (ss.map fun s => s.length + 1).sum := by
  unfold text
  rw [List.length_flatMap]
  simp only [List.length_append, List.length_singleton]

theorem length_text_take (z : α) (ss : List (List α)) (k : Nat) :
    (text z (ss.take k)).length = start ss k := length_text z (ss.take k)

theorem start_zero (ss : List (List α)) : start ss 0 = 0 := rfl

theorem start_succ (h : ss[k]? = some s) : start ss (k + 1) = start ss k + s.length + 1 := by
  unfold start
  rw [List.take_add_one, h, List.map_append, List.sum_append]
  simp only [Option.toList_some, List.map_cons, List.map_nil, List.sum_singleton]
  omega

theorem start_cons (s : List α) (ss : List (List α)) (k : Nat) :
    start (s :: ss) (k + 1) = s.length + 1 + start ss k := by
  unfold start
  rw [List.take_succ_cons, List.map_cons, List.sum_cons]

theorem start_length (z : α) (ss : List (List α)) : start ss ss.length = (text z ss).length := by
  rw [← length_text_take z, List.take_length]

theorem start_mono (h : k ≤ j) : start ss k ≤ start ss j := by
  unfold start
  have htake : ss.take j = ss.take k ++ (ss.drop k).take (j - k) := by
    rw [← List.take_add, Nat.add_sub_cancel' h]
  rw [htake, List.map_append, List.sum_append]
  omega

/-! ### Positions -/

/-- The table around one of its strings. -/
theorem text_at (h : ss[k]? = some s) :
    text z ss = text z (ss.take k) ++ (s ++ z :: text z (ss.drop (k + 1))) := by
  obtain ⟨hlt, hget⟩ := List.getElem?_eq_some_iff.mp h
  have hsplit : ss = ss.take k ++ s :: ss.drop (k + 1) := by
    rw [← hget, ← List.drop_eq_getElem_cons hlt, List.take_append_drop]
  calc text z ss = text z (ss.take k ++ s :: ss.drop (k + 1)) := by rw [← hsplit]
    _ = text z (ss.take k) ++ ((s ++ [z]) ++ text z (ss.drop (k + 1))) := text_append z _ _
    _ = _ := by rw [List.append_assoc, List.singleton_append]

/-- A string ends inside its table. -/
theorem end_lt (z : α) (h : ss[k]? = some s) : start ss k + s.length < (text z ss).length := by
  rw [text_at h, List.length_append, List.length_append, length_text_take, List.length_cons]
  omega

/-- What stands at a position. -/
theorem getD_text (h : ss[k]? = some s) (hj : j ≤ s.length) :
    (text z ss).getD (start ss k + j) z = s.getD j z := by
  rw [text_at h, ← length_text_take z ss k, List.getD_append_right _ _ _ _ (Nat.le_add_right _ _),
    Nat.add_sub_cancel_left]
  obtain hlt | rfl := Nat.lt_or_eq_of_le hj
  · exact List.getD_append _ _ _ _ hlt
  · rw [List.getD_append_right _ _ _ _ (Nat.le_refl _), Nat.sub_self, List.getD_cons_zero,
      List.getD_eq_default _ _ (Nat.le_refl _)]

/-- Every position of the table is one of a string. -/
theorem exists_at (z : α) : ∀ (ss : List (List α)) (i : Nat), i < (text z ss).length →
    ∃ k s j, ss[k]? = some s ∧ j ≤ s.length ∧ i = start ss k + j := by
  intro ss
  induction ss with
  | nil => intro i hi; exact absurd hi (Nat.not_lt_zero i)
  | cons s ss ih =>
      intro i hi
      have hlength : (text z (s :: ss)).length = s.length + 1 + (text z ss).length := by
        rw [length_text, length_text, List.map_cons, List.sum_cons]
      by_cases hs : i ≤ s.length
      · exact ⟨0, s, i, rfl, hs, (Nat.zero_add i).symm⟩
      · obtain ⟨k, s', j, hk, hj, heq⟩ := ih (i - (s.length + 1)) (by omega)
        refine ⟨k + 1, s', j, hk, hj, ?_⟩
        rw [start_cons]
        omega

section Count

variable [DecidableEq α] (hz : ∀ s ∈ ss, z ∉ s)

include hz in
/-- One terminator a string. -/
theorem count_text : (text z ss).count z = ss.length := by
  induction ss with
  | nil => rfl
  | cons s ss ih =>
      have hs : s.count z = 0 := List.count_eq_zero.mpr (hz s List.mem_cons_self)
      have hrest := ih fun s' hs' => hz s' (List.mem_cons_of_mem s hs')
      unfold text at hrest ⊢
      rw [List.flatMap_cons, List.count_append, List.count_append, hs, hrest,
        List.count_singleton_self, List.length_cons]
      omega

include hz in
/-- How many terminators stand before a position. -/
theorem count_take_text (h : ss[k]? = some s) (hj : j ≤ s.length) :
    ((text z ss).take (start ss k + j)).count z = k := by
  obtain ⟨hlt, hget⟩ := List.getElem?_eq_some_iff.mp h
  have hs : z ∉ s.take j := fun hmem =>
    hz s (hget ▸ List.getElem_mem hlt) (List.mem_of_mem_take hmem)
  have htake : (text z (ss.take k)).count z = k := by
    rw [count_text fun s' hs' => hz s' (List.mem_of_mem_take hs'), List.length_take]
    omega
  rw [text_at h, ← length_text_take z ss k, List.take_length_add_append,
    List.take_append_of_le_length hj, List.count_append, htake, List.count_eq_zero.mpr hs]
  rfl

include hz in
/-- A terminator is at the end of a string. -/
theorem terminator_at (hi : i < (text z ss).length) (hterm : (text z ss).getD i z = z) :
    ∃ k < ss.length, i + 1 = start ss (k + 1) ∧ ((text z ss).take i).count z = k := by
  obtain ⟨k, s, j, hk, hj, rfl⟩ := exists_at z ss i hi
  obtain ⟨hlt, hget⟩ := List.getElem?_eq_some_iff.mp hk
  refine ⟨k, hlt, ?_, count_take_text hz hk hj⟩
  rw [getD_text hk hj] at hterm
  have hend : j = s.length := by
    refine Nat.le_antisymm hj (Nat.not_lt.mp fun hlt' => ?_)
    rw [List.getD_eq_getElem _ _ hlt'] at hterm
    exact hz s (hget ▸ List.getElem_mem hlt) (hterm ▸ List.getElem_mem hlt')
  rw [start_succ hk, hend]

end Count

/-! ### The strings of a table -/

theorem text_eq_intercalate (z : α) : ∀ ss : List (List α), ss ≠ [] →
    text z ss = [z].intercalate ss ++ [z] := by
  intro ss
  induction ss with
  | nil => intro h; exact absurd rfl h
  | cons s ss ih =>
      intro _
      cases ss with
      | nil => simp [text]
      | cons s' ss =>
          rw [List.intercalate_cons_cons, List.append_assoc, List.append_assoc,
            ← ih (List.cons_ne_nil s' ss)]
          simp [text]

section Split

variable [DecidableEq α]

/-- The strings of a table that ends with a terminator. -/
def strings (z : α) (l : List α) : List (List α) := l.dropLast.splitOn z

theorem notMem_of_mem_splitOn : ∀ (l : List α), ∀ s ∈ l.splitOn z, z ∉ s := by
  intro l
  induction l with
  | nil =>
      intro s hs
      rw [List.splitOn_nil, List.mem_singleton] at hs
      rw [hs]
      exact List.not_mem_nil
  | cons a l ih =>
      intro s hs
      rw [List.splitOn_cons_eq_if_modifyHead] at hs
      by_cases ha : a = z
      · rw [if_pos (beq_iff_eq.mpr ha), List.mem_cons] at hs
        obtain rfl | hs := hs
        · exact List.not_mem_nil
        · exact ih s hs
      · rw [if_neg (fun hc => ha (beq_iff_eq.mp hc))] at hs
        -- The element goes to the front of the first string.
        cases hsplit : l.splitOn z with
        | nil => exact absurd hsplit (List.splitOn_ne_nil z l)
        | cons first rest =>
            rw [hsplit, List.modifyHead_cons, List.mem_cons] at hs
            obtain rfl | hs := hs
            · intro hz
              obtain hza | hz := List.mem_cons.mp hz
              · exact ha hza.symm
              · exact ih first (hsplit ▸ List.mem_cons_self) hz
            · exact ih s (hsplit ▸ List.mem_cons_of_mem first hs)

theorem notMem_of_mem_strings {l : List α} (hs : s ∈ strings z l) : z ∉ s :=
  notMem_of_mem_splitOn _ s hs

/-- A list that ends with a terminator is the text of its strings. -/
theorem text_strings {l : List α} (h : l.getLast? = some z) : text z (strings z l) = l := by
  obtain ⟨l', rfl⟩ := List.getLast?_eq_some_iff.mp h
  unfold strings
  rw [List.dropLast_concat, text_eq_intercalate z _ (List.splitOn_ne_nil z l'),
    List.intercalate_splitOn]

/-- Strings without terminators are the strings of their text. -/
theorem strings_text (hss : ss ≠ []) (hz : ∀ s ∈ ss, z ∉ s) : strings z (text z ss) = ss := by
  unfold strings
  rw [text_eq_intercalate z ss hss, List.dropLast_concat, List.splitOn_intercalate z hz hss]

theorem strings_ne_nil (z : α) (l : List α) : strings z l ≠ [] := List.splitOn_ne_nil z _

end Split

end Terminated
