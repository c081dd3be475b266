/-
Words kept in memory.

A cell is a stretch of a few bytes that is only ever read and written as one
little-endian number.  What programs over such cells need is that a store is read back,
and that it leaves alone every stretch it has no byte in common with.
-/
import LibPS4.Base.Bytes

namespace Effects

/-- No byte of the `n` from `a` is among the `m` from `b`, on the circle of addresses. -/
def Separate (a : U64) (n : Nat) (b : U64) (m : Nat) : Prop :=
  n ≤ (b - a).toNat ∧ m ≤ (a - b).toNat

instance (a : U64) (n : Nat) (b : U64) (m : Nat) : Decidable (Separate a n b m) :=
  inferInstanceAs (Decidable (_ ∧ _))

theorem Separate.symm {a b : U64} {n m : Nat} (h : Separate a n b m) : Separate b m a n :=
  ⟨h.2, h.1⟩

/-- From inside one stretch it is at least the length of the other to its start. -/
theorem Separate.outside {a b : U64} {n m k : Nat} (h : Separate a n b m) (hk : k < m) :
    n ≤ (b + BitVec.ofNat 64 k - a).toNat := by
  obtain ⟨h₁, h₂⟩ := h
  have hm : m < 2 ^ 64 := Nat.lt_of_le_of_lt h₂ (a - b).isLt
  by_cases hab : a = b
  · subst hab
    have hz : (a - a).toNat = 0 := by simp
    omega
  · have hne : a.toNat ≠ b.toNat := fun hc => hab (BitVec.eq_of_toNat_eq hc)
    have hk' : (BitVec.ofNat 64 k).toNat = k := by
      rw [BitVec.toNat_ofNat, Nat.mod_eq_of_lt (by omega)]
    bv_omega

theorem leNat_congr {f g : U64 → Byte} : ∀ n a,
    (∀ k < n, f (a + BitVec.ofNat 64 k) = g (a + BitVec.ofNat 64 k)) →
    leNat f n a = leNat g n a := by
  intro n
  induction n with
  | zero => intro a _; rfl
  | succ n ih =>
      intro a h
      have h0 := h 0 (by omega)
      rw [BitVec.add_zero] at h0
      rw [leNat, leNat, h0, ih (a + 1) fun k hk => ?_]
      rw [add_one_add_ofNat]
      exact h (k + 1) (by omega)

section Store

variable {a b : U64} {n m : Nat} (mem : U64 → Byte)

theorem replay_span_of_separate (g : Nat → Byte) (h : Separate a n b m) {k : Nat} (hk : k < m) :
    Prog.replay (span a n g) mem (b + BitVec.ofNat 64 k) = mem (b + BitVec.ofNat 64 k) := by
  have hn : n ≤ 2 ^ 64 := Nat.le_of_lt (Nat.lt_of_le_of_lt h.1 (b - a).isLt)
  have hout := h.outside hk
  rw [replay_span hn, if_neg (by omega)]

/-- A store elsewhere is not seen. -/
theorem leNat_replay_of_separate (g : Nat → Byte) (h : Separate a n b m) :
    leNat (Prog.replay (span a n g) mem) m b = leNat mem m b :=
  leNat_congr m b fun _ hk => replay_span_of_separate mem g h hk

/-- A store is read back. -/
theorem leNat_replay_self (hn : n < 2 ^ 64) (v : Nat) :
    leNat (Prog.replay (span a n (byteOf v)) mem) n a = v % 256 ^ n := by
  refine leNat_of_bytes _ n a v fun k hk => ?_
  have hd := toNat_add_ofNat_sub a (show k < 2 ^ 64 by omega)
  rw [replay_span (by omega), hd, if_pos hk]

theorem le32_replay_self (v : U32) :
    le32 (Prog.replay (span a 4 (byteOf v.toNat)) mem) a = v := by
  have hlt : v.toNat < 256 ^ 4 := v.isLt
  unfold le32
  rw [leNat_replay_self mem (by decide), Nat.mod_eq_of_lt hlt]
  simp

theorem le64_replay_self (v : U64) :
    le64 (Prog.replay (span a 8 (byteOf v.toNat)) mem) a = v := by
  have hlt : v.toNat < 256 ^ 8 := v.isLt
  unfold le64
  rw [leNat_replay_self mem (by decide), Nat.mod_eq_of_lt hlt]
  simp

theorem le32_replay_of_separate (g : Nat → Byte) (h : Separate a n b 4) :
    le32 (Prog.replay (span a n g) mem) b = le32 mem b := by
  unfold le32
  rw [leNat_replay_of_separate mem g h]

theorem le64_replay_of_separate (g : Nat → Byte) (h : Separate a n b 8) :
    le64 (Prog.replay (span a n g) mem) b = le64 mem b := by
  unfold le64
  rw [leNat_replay_of_separate mem g h]

end Store

end Effects
