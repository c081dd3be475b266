/-
Bytes, little-endian words and stretches of a 64-bit address space.

Addresses are `BitVec 64` and wrap.  A stretch of `n` bytes from `a` is therefore
not an interval of numbers, and membership is stated the one way that survives
wrapping: `x` lies in it when the distance `x - a`, taken in 64 bits, is below `n`.

Everything a C program writes in one go — a `memcpy`, a `memset`, a word — stores a
`span`: consecutive addresses with a value for each.  `replay_span` is the only
lemma about memory contents that the rest of the development needs.
-/
import LibPS4.Base.Loop

namespace Effects

abbrev Byte := BitVec 8
abbrev U16 := BitVec 16
abbrev U32 := BitVec 32
abbrev U64 := BitVec 64

/-- Programs that fetch bytes at 64-bit offsets and store bytes at 64-bit addresses. -/
abbrev ByteProg (ε α : Type) := Prog U64 U64 Byte ε α

/-! ### Stretches of addresses -/

/-- The addresses `a`, `a + 1`, ..., `n` of them. -/
def extent (a : U64) (n : Nat) : List U64 := (List.range n).map fun k => a + BitVec.ofNat 64 k

theorem add_one_add_ofNat (a : U64) (k : Nat) :
    a + 1 + BitVec.ofNat 64 k = a + BitVec.ofNat 64 (k + 1) := by
  rw [BitVec.ofNat_add, BitVec.add_assoc, BitVec.add_comm (BitVec.ofNat 64 k)]
  rfl

@[simp] theorem extent_zero (a : U64) : extent a 0 = [] := rfl

theorem extent_succ (a : U64) (n : Nat) : extent a (n + 1) = a :: extent (a + 1) n := by
  unfold extent
  rw [List.range_succ_eq_map, List.map_cons, List.map_map]
  congr 1
  · simp
  · refine List.map_congr_left fun k _ => ?_
    simp only [Function.comp_apply, Nat.succ_eq_add_one, add_one_add_ofNat]

theorem toNat_add_ofNat_sub (a : U64) {k : Nat} (hk : k < 2 ^ 64) :
    (a + BitVec.ofNat 64 k - a).toNat = k := by
  rw [BitVec.add_comm, BitVec.add_sub_cancel, BitVec.toNat_ofNat, Nat.mod_eq_of_lt hk]

theorem add_distance (a x : U64) : a + BitVec.ofNat 64 (x - a).toNat = x := by
  have h : BitVec.ofNat 64 (x - a).toNat = x - a := by
    simp only [BitVec.ofNat_toNat, BitVec.setWidth_eq]
  rw [h, BitVec.add_comm, BitVec.sub_add_cancel]

theorem mem_extent {a x : U64} {n : Nat} (hn : n ≤ 2 ^ 64) :
    x ∈ extent a n ↔ (x - a).toNat < n := by
  unfold extent
  rw [List.mem_map]
  constructor
  · rintro ⟨k, hk, rfl⟩
    rw [List.mem_range] at hk
    rw [toNat_add_ofNat_sub a (by omega)]
    exact hk
  · intro h
    exact ⟨(x - a).toNat, List.mem_range.mpr h, add_distance a x⟩

/-- A non-empty stretch stays below `size` exactly when it ends there, without wrapping. -/
theorem extent_below {a : U64} {n size : Nat} (hpos : 0 < n) (hn : n ≤ 2 ^ 64)
    (hsize : size < 2 ^ 64) : (∀ x ∈ extent a n, x.toNat < size) ↔ a.toNat + n ≤ size := by
  constructor
  · intro h
    by_contra hc
    -- The stretch leaves `[0, size)`: at its last byte, or at the top of the address space.
    have ha : a.toNat < size := h a ((mem_extent hn).mpr (by simpa using hpos))
    have hx : BitVec.ofNat 64 size ∈ extent a n := by
      rw [mem_extent hn]
      have : (BitVec.ofNat 64 size - a).toNat = size - a.toNat := by bv_omega
      omega
    have := h _ hx
    rw [BitVec.toNat_ofNat, Nat.mod_eq_of_lt hsize] at this
    exact absurd this (Nat.lt_irrefl size)
  · intro h x hx
    rw [mem_extent hn] at hx
    bv_omega

/-! ### Spans of stores -/

/-- Stores of `g 0`, `g 1`, ... at `a`, `a + 1`, ... -/
def span (a : U64) (n : Nat) (g : Nat → Byte) : List (U64 × Byte) :=
  (List.range n).map fun k => (a + BitVec.ofNat 64 k, g k)

@[simp] theorem span_zero (a : U64) (g : Nat → Byte) : span a 0 g = [] := rfl

theorem span_succ (a : U64) (n : Nat) (g : Nat → Byte) :
    span a (n + 1) g = (a, g 0) :: span (a + 1) n fun k => g (k + 1) := by
  unfold span
  rw [List.range_succ_eq_map, List.map_cons, List.map_map]
  congr 1
  · simp
  · refine List.map_congr_left fun k _ => ?_
    simp only [Function.comp_apply, Nat.succ_eq_add_one, add_one_add_ofNat]

@[simp] theorem map_fst_span (a : U64) (n : Nat) (g : Nat → Byte) :
    (span a n g).map Prod.fst = extent a n := by
  unfold span extent
  rw [List.map_map]
  rfl

@[simp] theorem length_span (a : U64) (n : Nat) (g : Nat → Byte) : (span a n g).length = n := by
  simp [span]

/-- Skipping a span of length zero skips nothing. -/
theorem ite_span_append (a n : U64) (g : Nat → Byte) (rest : List (U64 × Byte)) :
    (if n ≠ 0 then span a n.toNat g ++ rest else rest) = span a n.toNat g ++ rest := by
  split
  · rfl
  · rename_i h
    have hn : n = 0 := not_not.mp h
    have hz : n.toNat = 0 := by rw [hn]; rfl
    rw [hz, span_zero, List.nil_append]

theorem ite_span (a n : U64) (g : Nat → Byte) :
    (if n ≠ 0 then span a n.toNat g else []) = span a n.toNat g := by
  have h := ite_span_append a n g []
  rwa [List.append_nil] at h

/-- **What a span leaves in memory.** -/
theorem replay_span {a : U64} {n : Nat} (hn : n ≤ 2 ^ 64) (g : Nat → Byte) (mem : U64 → Byte)
    (x : U64) :
    Prog.replay (span a n g) mem x = if (x - a).toNat < n then g (x - a).toNat else mem x := by
  induction n generalizing a g mem with
  | zero => rfl
  | succ n ih =>
      rw [span_succ, Prog.replay, ih (by omega)]
      by_cases hx : x = a
      · subst hx
        have h1 : (x - (x + 1)).toNat = 2 ^ 64 - 1 := by bv_omega
        have h2 : (x - x).toNat = 0 := by simp
        rw [if_neg (by omega), h2, if_pos (by omega), Function.update_self]
      · -- Away from `a` the distance to `a + 1` is one less.
        have hd : (x - a).toNat = (x - (a + 1)).toNat + 1 := by
          have hne : x.toNat ≠ a.toNat := fun hc => hx (BitVec.eq_of_toNat_eq hc)
          bv_omega
        rw [hd, Function.update_of_ne hx]
        by_cases hlt : (x - (a + 1)).toNat < n
        · rw [if_pos hlt, if_pos (by omega)]
        · rw [if_neg hlt, if_neg (by omega)]

/-! ### Words -/

/-- The number whose little-endian digits are the `n` bytes at `a`. -/
def leNat (f : U64 → Byte) : Nat → U64 → Nat
  | 0, _ => 0
  | n + 1, a => (f a).toNat + 256 * leNat f n (a + 1)

def le16 (f : U64 → Byte) (a : U64) : U16 := BitVec.ofNat 16 (leNat f 2 a)
def le32 (f : U64 → Byte) (a : U64) : U32 := BitVec.ofNat 32 (leNat f 4 a)
def le64 (f : U64 → Byte) (a : U64) : U64 := BitVec.ofNat 64 (leNat f 8 a)

theorem leNat_lt (m : U64 → Byte) : ∀ n a, leNat m n a < 256 ^ n := by
  intro n
  induction n with
  | zero => intro a; exact Nat.one_pos
  | succ n ih =>
      intro a
      have hlow := (m a).isLt
      have hhigh := ih (a + 1)
      rw [leNat, Nat.pow_succ]
      omega

theorem leNat_eq_zero {m : U64 → Byte} : ∀ {n : Nat} {a : U64}, leNat m n a = 0 →
    ∀ {i : Nat}, i < n → m (a + BitVec.ofNat 64 i) = 0 := by
  intro n
  induction n with
  | zero => intro a _ i hi; omega
  | succ n ih =>
      intro a h i hi
      have hsum : (m a).toNat + 256 * leNat m n (a + 1) = 0 := h
      cases i with
      | zero =>
          rw [show a + BitVec.ofNat 64 0 = a from BitVec.add_zero a]
          exact BitVec.eq_of_toNat_eq (show (m a).toNat = 0 by omega)
      | succ i =>
          rw [← add_one_add_ofNat]
          exact ih (by omega) (by omega)

/-- A word is zero only if each of its bytes is. -/
theorem le64_eq_zero {m : U64 → Byte} {a : U64} (h : le64 m a = 0) {i : Nat} (hi : i < 8) :
    m (a + BitVec.ofNat 64 i) = 0 := by
  have hlt : leNat m 8 a < 2 ^ 64 := leNat_lt m 8 a
  have hzero := congrArg BitVec.toNat h
  rw [le64, BitVec.toNat_ofNat, Nat.mod_eq_of_lt hlt] at hzero
  exact leNat_eq_zero hzero hi

/-- Byte `k` of a number. -/
def byteOf (v k : Nat) : Byte := BitVec.ofNat 8 (v / 256 ^ k)

/-- A number is read back from its bytes. -/
theorem leNat_of_bytes (m : U64 → Byte) : ∀ n a v,
    (∀ k < n, m (a + BitVec.ofNat 64 k) = byteOf v k) → leNat m n a = v % 256 ^ n := by
  intro n
  induction n with
  | zero => intro a v _; simp [leNat, Nat.mod_one]
  | succ n ih =>
      intro a v h
      have hlow : (m a).toNat = v % 256 := by
        have h0 := h 0 (by omega)
        simp only [BitVec.add_zero, byteOf, Nat.pow_zero, Nat.div_one] at h0
        rw [h0, BitVec.toNat_ofNat]
      have hhigh : leNat m n (a + 1) = v / 256 % 256 ^ n := by
        refine ih (a + 1) (v / 256) fun k hk => ?_
        rw [add_one_add_ofNat, h (k + 1) (by omega), byteOf, byteOf, Nat.pow_succ, Nat.mul_comm,
          Nat.div_div_eq_div_mul]
      rw [leNat, hlow, hhigh, Nat.pow_succ, Nat.mul_comm (256 ^ n), Nat.mod_mul]

theorem le64_of_bytes {m : U64 → Byte} {a v : U64}
    (h : ∀ k < 8, m (a + BitVec.ofNat 64 k) = byteOf v.toNat k) : le64 m a = v := by
  have hlt : v.toNat < 256 ^ 8 := v.isLt
  unfold le64
  rw [leNat_of_bytes m 8 a v.toNat h, Nat.mod_eq_of_lt hlt]
  simp

section Programs

variable {ε : Type}

/-- Fetch `n` bytes as a little-endian number. -/
def fetchNat : Nat → U64 → ByteProg ε Nat
  | 0, _ => pure 0
  | n + 1, a => do
      let b ← Prog.get a
      let rest ← fetchNat n (a + 1)
      pure (b.toNat + 256 * rest)

def fetch8 (a : U64) : ByteProg ε Byte := Prog.get a

def fetch16 (a : U64) : ByteProg ε U16 := do
  let v ← fetchNat 2 a
  pure (BitVec.ofNat 16 v)

def fetch32 (a : U64) : ByteProg ε U32 := do
  let v ← fetchNat 4 a
  pure (BitVec.ofNat 32 v)

def fetch64 (a : U64) : ByteProg ε U64 := do
  let v ← fetchNat 8 a
  pure (BitVec.ofNat 64 v)

/-- Store the low `n` bytes of a number, little-endian. -/
def storeNat : Nat → U64 → Nat → ByteProg ε Unit
  | 0, _, _ => pure ()
  | n + 1, a, v => do
      Prog.put a (BitVec.ofNat 8 v)
      storeNat n (a + 1) (v / 256)

def store64 (a v : U64) : ByteProg ε Unit := storeNat 8 a v.toNat

/-- Copy `n` bytes of the input to the output. -/
def copy : Nat → U64 → U64 → ByteProg ε Unit
  | 0, _, _ => pure ()
  | n + 1, dst, src => do
      let b ← Prog.get src
      Prog.put dst b
      copy n (dst + 1) (src + 1)

/-- Store `n` copies of a byte. -/
def fill : Nat → U64 → Byte → ByteProg ε Unit
  | 0, _, _ => pure ()
  | n + 1, dst, c => do
      Prog.put dst c
      fill n (dst + 1) c

def memcpy (dst src n : U64) : ByteProg ε Unit := copy n.toNat dst src

def memset (dst : U64) (c : Byte) (n : U64) : ByteProg ε Unit := fill n.toNat dst c

variable {f : U64 → Byte}

@[simp] theorem result_fetchNat (n : Nat) (a : U64) :
    Prog.result f (fetchNat n a : ByteProg ε Nat) = .ok (leNat f n a) := by
  induction n generalizing a with
  | zero => rfl
  | succ n ih =>
      simp only [fetchNat, Prog.result_bind, Prog.result_get, ih, leNat]
      rfl

@[simp] theorem stores_fetchNat (n : Nat) (a : U64) :
    Prog.stores f (fetchNat n a : ByteProg ε Nat) = [] := by
  induction n generalizing a with
  | zero => rfl
  | succ n ih => simp [fetchNat, ih]

theorem fetches_fetchNat (n : Nat) (a : U64) :
    Prog.fetches f (fetchNat n a : ByteProg ε Nat) = extent a n := by
  induction n generalizing a with
  | zero => rfl
  | succ n ih => simp [fetchNat, ih, extent_succ]

@[simp] theorem result_fetch8 (a : U64) :
    Prog.result f (fetch8 a : ByteProg ε Byte) = .ok (f a) := rfl

@[simp] theorem result_fetch16 (a : U64) :
    Prog.result f (fetch16 a : ByteProg ε U16) = .ok (le16 f a) := by
  simp only [fetch16, Prog.result_bind, result_fetchNat]
  rfl

@[simp] theorem result_fetch32 (a : U64) :
    Prog.result f (fetch32 a : ByteProg ε U32) = .ok (le32 f a) := by
  simp only [fetch32, Prog.result_bind, result_fetchNat]
  rfl

@[simp] theorem result_fetch64 (a : U64) :
    Prog.result f (fetch64 a : ByteProg ε U64) = .ok (le64 f a) := by
  simp only [fetch64, Prog.result_bind, result_fetchNat]
  rfl

@[simp] theorem stores_fetch8 (a : U64) :
    Prog.stores f (fetch8 a : ByteProg ε Byte) = [] := rfl

@[simp] theorem stores_fetch16 (a : U64) :
    Prog.stores f (fetch16 a : ByteProg ε U16) = [] := by simp [fetch16]

@[simp] theorem stores_fetch32 (a : U64) :
    Prog.stores f (fetch32 a : ByteProg ε U32) = [] := by simp [fetch32]

@[simp] theorem stores_fetch64 (a : U64) :
    Prog.stores f (fetch64 a : ByteProg ε U64) = [] := by simp [fetch64]

@[simp] theorem result_storeNat (n : Nat) (a : U64) (v : Nat) :
    Prog.result f (storeNat n a v : ByteProg ε Unit) = .ok () := by
  induction n generalizing a v with
  | zero => rfl
  | succ n ih =>
      simp only [storeNat, Prog.result_bind, Prog.result_put]
      exact ih (a + 1) (v / 256)

theorem stores_storeNat (n : Nat) (a : U64) (v : Nat) :
    Prog.stores f (storeNat n a v : ByteProg ε Unit) = span a n (byteOf v) := by
  induction n generalizing a v with
  | zero => rfl
  | succ n ih =>
      simp only [storeNat, Prog.stores_bind, Prog.stores_put, Prog.result_put, Prog.onOk_ok, ih]
      rw [span_succ, List.singleton_append]
      congr 2
      · simp [byteOf]
      · funext k
        rw [byteOf, byteOf, Nat.pow_succ, Nat.mul_comm, Nat.div_div_eq_div_mul]

@[simp] theorem fetches_storeNat (n : Nat) (a : U64) (v : Nat) :
    Prog.fetches f (storeNat n a v : ByteProg ε Unit) = [] := by
  induction n generalizing a v with
  | zero => rfl
  | succ n ih => simp [storeNat, ih]

@[simp] theorem result_store64 (a v : U64) :
    Prog.result f (store64 a v : ByteProg ε Unit) = .ok () := by simp [store64]

@[simp] theorem stores_store64 (a v : U64) :
    Prog.stores f (store64 a v : ByteProg ε Unit) = span a 8 (byteOf v.toNat) :=
  stores_storeNat 8 a v.toNat

@[simp] theorem fetches_store64 (a v : U64) :
    Prog.fetches f (store64 a v : ByteProg ε Unit) = [] := by simp [store64]

@[simp] theorem result_memcpy (dst src n : U64) :
    Prog.result f (memcpy dst src n : ByteProg ε Unit) = .ok () := by
  unfold memcpy
  generalize n.toNat = m
  induction m generalizing dst src with
  | zero => rfl
  | succ m ih =>
      simp only [copy, Prog.result_bind, Prog.result_get, Prog.result_put]
      exact ih (dst + 1) (src + 1)

@[simp] theorem result_memset (dst : U64) (c : Byte) (n : U64) :
    Prog.result f (memset dst c n : ByteProg ε Unit) = .ok () := by
  unfold memset
  generalize n.toNat = m
  induction m generalizing dst with
  | zero => rfl
  | succ m ih =>
      simp only [fill, Prog.result_bind, Prog.result_put]
      exact ih (dst + 1)

@[simp] theorem stores_memcpy (dst src n : U64) :
    Prog.stores f (memcpy dst src n : ByteProg ε Unit)
      = span dst n.toNat fun k => f (src + BitVec.ofNat 64 k) := by
  unfold memcpy
  generalize n.toNat = m
  induction m generalizing dst src with
  | zero => rfl
  | succ m ih =>
      simp only [copy, Prog.stores_bind, Prog.stores_get, Prog.result_get, Prog.onOk_ok,
        Prog.stores_put, Prog.result_put, ih, List.nil_append]
      rw [span_succ, List.singleton_append]
      congr 2
      · simp
      · funext k
        rw [add_one_add_ofNat]

@[simp] theorem stores_memset (dst : U64) (c : Byte) (n : U64) :
    Prog.stores f (memset dst c n : ByteProg ε Unit) = span dst n.toNat fun _ => c := by
  unfold memset
  generalize n.toNat = m
  induction m generalizing dst with
  | zero => rfl
  | succ m ih =>
      simp only [fill, Prog.stores_bind, Prog.stores_put, Prog.result_put, Prog.onOk_ok, ih]
      rw [span_succ, List.singleton_append]

@[simp] theorem fetches_memset (dst : U64) (c : Byte) (n : U64) :
    Prog.fetches f (memset dst c n : ByteProg ε Unit) = [] := by
  unfold memset
  generalize n.toNat = m
  induction m generalizing dst with
  | zero => rfl
  | succ m ih => simp [fill, ih]

theorem fetches_memcpy (dst src n : U64) :
    Prog.fetches f (memcpy dst src n : ByteProg ε Unit) = extent src n.toNat := by
  unfold memcpy
  generalize n.toNat = m
  induction m generalizing dst src with
  | zero => rfl
  | succ m ih => simp [copy, ih, extent_succ]

end Programs

end Effects
