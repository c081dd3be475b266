/-
How many bytes the two allocators ask for.

Both round a size up to whole pages, one by `((size - 1) / pageSize + 1) * pageSize` and one
by `(size / pageSize + 1) * pageSize`.  The first is the least multiple of the page size that
holds the request; where that multiple is 2^64 the product is zero, a mapping of length zero
is refused and the open fails.  The second adds a page to a request that is a multiple
already.

What an allocator records is the size in the records it can return, for all replies of the
system; the one thing the replies are held to is that `mmap` fails for a length of zero.
-/
import Mathlib.Order.Bounds.Basic
import LibPS4.Memory.Named
import LibPS4.Memory.Protected

namespace LibPS4

open Effects Calls

variable {pageSize size s : U64}

/-! ### What is recorded -/

/-- The replies to `ps4NamedMemoryOpen` for an object of `fileSize` bytes. -/
def namedReplies (fileSize : Nat) : Call → Reply → Prop
  | .fstat _, r => r = some fileSize
  | .mmap length _, r => length = 0 → r = none
  | _, _ => True

/-- The replies to `ps4ProtectedMemoryCreate`. -/
def protectedReplies : ProtectedMemory.Call → ProtectedMemory.Reply → Prop
  | .mmap length _ _ _, r => length = 0 → r = none
  | _, _ => True

/-- The sizes in the records `ps4NamedMemoryOpen` can return. -/
def NamedSize (pageSize : U64) (path : List Byte) (size : U64) (fileSize : Nat) (z : U64) : Prop :=
  ∃ m, (ps4NamedMemoryOpen pageSize path size).Returns (namedReplies fileSize) (some m) ∧
    m.size = z

/-- The sizes in the records `ps4ProtectedMemoryCreate` can return. -/
def ProtectedSize (pageSize : U64) (executableHandle writableHandle : Int) (size z : U64) : Prop :=
  ∃ m, (ProtectedMemory.ps4ProtectedMemoryCreate pageSize executableHandle writableHandle
      size).Returns protectedReplies (some m) ∧ m.size = z

section Named

variable {fileSize memory pathPointer handle : Nat} {name path : List Byte} {m : PS4NamedMemory}

/-- The labels return `NULL`. -/
theorem not_returns_shmopen : ¬ (shmopen memory pathPointer name handle).Returns
    (namedReplies fileSize) (some m) := by
  rintro ⟨_, _, _, _, _, _, _, _, hnone⟩
  cases hnone

theorem returns_openMapped
    (h : (openMapped memory pathPointer name handle size).Returns (namedReplies fileSize)
      (some m)) : m.size = size ∧ size ≠ 0 := by
  obtain ⟨r, hr, h⟩ := h
  cases r with
  | none => exact absurd h not_returns_shmopen
  | some address =>
      obtain ⟨_, _, hm⟩ := h
      refine ⟨by rw [← Option.some.inj hm], fun hzero => ?_⟩
      exact nomatch hr hzero

theorem returns_openSized {seen : U64}
    (h : (openSized memory pathPointer name handle size seen).Returns (namedReplies fileSize)
      (some m)) : m.size = size ∧ size ≠ 0 := by
  unfold openSized at h
  by_cases hgrow : size > seen
  · rw [if_pos hgrow] at h
    obtain ⟨r, -, h⟩ := h
    cases r with
    | none => exact absurd h not_returns_shmopen
    | some _ => exact returns_openMapped h
  · rw [if_neg hgrow] at h
    exact returns_openMapped h

theorem returns_ps4NamedMemoryOpen
    (h : (ps4NamedMemoryOpen pageSize path size).Returns (namedReplies fileSize) (some m)) :
    m.size = namedMemorySize pageSize size (BitVec.ofNat 64 fileSize) ∧
      namedMemorySize pageSize size (BitVec.ofNat 64 fileSize) ≠ 0 := by
  obtain ⟨r, -, h⟩ := h
  cases r with
  | none => cases h
  | some memory =>
      obtain ⟨r, -, h⟩ := h
      cases r with
      | none =>
          obtain ⟨_, _, hnone⟩ := h
          cases hnone
      | some pathPointer =>
          obtain ⟨r, -, h⟩ := h
          cases r with
          | none =>
              obtain ⟨_, _, _, _, hnone⟩ := h
              cases hnone
          | some handle =>
              obtain ⟨r, rfl, h⟩ := h
              exact returns_openSized h

variable (fileSize) in
/-- A run in which nothing fails. -/
theorem openSized_returns (memory pathPointer : Nat) (name : List Byte) (handle : Nat)
    (seen : U64) (h : size ≠ 0) :
    (openSized memory pathPointer name handle size seen).Returns (namedReplies fileSize)
      (some ⟨memory, 0, size, name, pathPointer⟩) := by
  have hmapped : (openMapped memory pathPointer name handle size).Returns (namedReplies fileSize)
      (some ⟨memory, 0, size, name, pathPointer⟩) :=
    ⟨some 0, fun hc => absurd hc h, none, trivial, rfl⟩
  unfold openSized
  by_cases hgrow : size > seen
  · rw [if_pos hgrow]
    exact ⟨some 0, trivial, hmapped⟩
  · rw [if_neg hgrow]
    exact hmapped

theorem namedSize_iff (pageSize : U64) (path : List Byte) (size : U64) (fileSize : Nat) (z : U64) :
    NamedSize pageSize path size fileSize z ↔
      z = namedMemorySize pageSize size (BitVec.ofNat 64 fileSize) ∧ z ≠ 0 := by
  constructor
  · rintro ⟨m, hm, rfl⟩
    obtain ⟨hsize, hne⟩ := returns_ps4NamedMemoryOpen hm
    rw [hsize]
    exact ⟨rfl, hne⟩
  · rintro ⟨rfl, hne⟩
    have hsized := openSized_returns fileSize 0 0 (path.take (strnlen path 255)) 0
      (BitVec.ofNat 64 fileSize) hne
    exact ⟨_, ⟨some 0, trivial, some 0, trivial, some 0, trivial, some fileSize, rfl, hsized⟩, rfl⟩

end Named

section Protected

open ProtectedMemory

variable {memory executableHandle writableHandle : Int} {m : PS4ProtectedMemory}

theorem not_returns_closew : ¬ (closew memory executableHandle writableHandle).Returns
    protectedReplies (some m) := by
  rintro ⟨_, _, _, _, _, _, hnone⟩
  cases hnone

theorem returns_createMapped
    (h : (createMapped memory executableHandle writableHandle size).Returns protectedReplies
      (some m)) : m.size = size ∧ size ≠ 0 := by
  obtain ⟨r, hr, h⟩ := h
  cases r with
  | none => exact absurd h not_returns_closew
  | some executable =>
      obtain ⟨r, -, h⟩ := h
      cases r with
      | none =>
          obtain ⟨_, _, h⟩ := h
          exact absurd h not_returns_closew
      | some writable =>
          obtain ⟨_, _, _, _, hm⟩ := h
          refine ⟨by rw [← Option.some.inj hm], fun hzero => ?_⟩
          exact nomatch hr hzero

theorem returns_createAlias
    (h : (createAlias memory executableHandle writableHandle size).Returns protectedReplies
      (some m)) : m.size = size ∧ size ≠ 0 := by
  obtain ⟨r, -, h⟩ := h
  replace h : (if r.getD writableHandle = 0 then closee memory executableHandle
    else createMapped memory executableHandle (r.getD writableHandle) size).Returns
      protectedReplies (some m) := h
  split at h
  · obtain ⟨_, _, _, _, hnone⟩ := h
    cases hnone
  · exact returns_createMapped h

theorem returns_createShared
    (h : (createShared memory executableHandle writableHandle size).Returns protectedReplies
      (some m)) : m.size = size ∧ size ≠ 0 := by
  obtain ⟨r, -, h⟩ := h
  replace h : (if r.getD executableHandle = 0 then ProtectedMemory.freeandreturn memory
    else createAlias memory (r.getD executableHandle) writableHandle size).Returns
      protectedReplies (some m) := h
  split at h
  · obtain ⟨_, _, hnone⟩ := h
    cases hnone
  · exact returns_createAlias h

variable (pageSize) in
theorem protectedSize_iff (executableHandle writableHandle : Int) (hs : size ≠ 0) (z : U64) :
    ProtectedSize pageSize executableHandle writableHandle size z ↔
      z = protectedMemorySize pageSize size ∧ z ≠ 0 := by
  unfold ProtectedSize ps4ProtectedMemoryCreate
  rw [if_neg hs]
  constructor
  · rintro ⟨m, ⟨r, -, h⟩, rfl⟩
    cases r with
    | none => cases h
    | some memory =>
        obtain ⟨hsize, hne⟩ := returns_createShared h
        rw [hsize]
        exact ⟨rfl, hne⟩
  · rintro ⟨rfl, hne⟩
    -- Both handles are 1, and all calls succeed.
    refine ⟨⟨0, 0, 0, protectedMemorySize pageSize size⟩, ⟨some 0, trivial, ?_⟩, rfl⟩
    refine ⟨some 1, trivial, some 1, trivial, some 0, fun hc => absurd hc hne, ?_⟩
    exact ⟨some 0, fun hc => absurd hc hne, none, trivial, none, trivial, rfl⟩

end Protected

/-! ### Rounding -/

/-- The records have the least multiple of the page size that is at least `s`; if there is one
below 2^64, a record can be returned. -/
def Rounds (pageSize s : U64) (recorded : U64 → Prop) : Prop :=
  (∀ z, recorded z → IsLeast {m | pageSize.toNat ∣ m ∧ s.toNat ≤ m} z.toNat) ∧
    ((∃ m < 2 ^ 64, pageSize.toNat ∣ m ∧ s.toNat ≤ m) → ∃ z, recorded z)

/-- Both allocators round `s` up to whole pages. -/
structure TightRounding (pageSize s : U64) : Prop where
  requested : ∀ path fileSize, Rounds pageSize s (NamedSize pageSize path s fileSize)
  present : ∀ path, Rounds pageSize s (NamedSize pageSize path 0 s.toNat)
  created : ∀ executableHandle writableHandle,
    Rounds pageSize s (ProtectedSize pageSize executableHandle writableHandle s)

/-- The least multiple of `p` that is at least `n`. -/
theorem isLeast_roundUp {p n : Nat} (hp : 0 < p) (hn : 0 < n) :
    IsLeast {m | p ∣ m ∧ n ≤ m} (((n - 1) / p + 1) * p) := by
  refine ⟨⟨Nat.dvd_mul_left p _, ?_⟩, ?_⟩
  · have hlt := Nat.lt_div_mul_add (a := n - 1) hp
    rw [Nat.add_mul]
    omega
  · rintro m ⟨⟨k, rfl⟩, hle⟩
    have hlt : (n - 1) / p < k := by
      rw [Nat.div_lt_iff_lt_mul hp, Nat.mul_comm]
      omega
    rw [Nat.mul_comm p]
    exact Nat.mul_le_mul_right p hlt

theorem toNat_pages (a p : U64) :
    ((a / p + 1) * p).toNat = (a.toNat / p.toNat + 1) * p.toNat % 2 ^ 64 := by
  rw [BitVec.toNat_mul, BitVec.toNat_add, BitVec.toNat_udiv]
  show (a.toNat / p.toNat + 1) % 2 ^ 64 * p.toNat % 2 ^ 64 = _
  rw [Nat.mod_mul_mod]

/-- The number of bytes in a rounding formula that is right up to 2^64. -/
theorem rounds_of_roundUp {recorded : U64 → Prop} {c : U64} (hp : pageSize.toNat ∣ 2 ^ 64)
    (hpos : 0 < pageSize.toNat) (hs : s ≠ 0)
    (hc : c.toNat = ((s.toNat - 1) / pageSize.toNat + 1) * pageSize.toNat % 2 ^ 64)
    (h : ∀ z, recorded z ↔ z = c ∧ z ≠ 0) : Rounds pageSize s recorded := by
  have hspos : 0 < s.toNat := by
    refine Nat.pos_of_ne_zero fun hzero => hs ?_
    exact BitVec.eq_of_toNat_eq hzero
  have hleast := isLeast_roundUp hpos hspos
  have hle : ((s.toNat - 1) / pageSize.toNat + 1) * pageSize.toNat ≤ 2 ^ 64 :=
    hleast.2 ⟨hp, Nat.le_of_lt s.isLt⟩
  refine ⟨fun z hz => ?_, ?_⟩
  · obtain ⟨rfl, hne⟩ := (h z).mp hz
    have hlt : ((s.toNat - 1) / pageSize.toNat + 1) * pageSize.toNat < 2 ^ 64 := by
      refine Nat.lt_of_le_of_ne hle fun htop => hne ?_
      apply BitVec.eq_of_toNat_eq
      rw [hc, htop]
      rfl
    rw [hc, Nat.mod_eq_of_lt hlt]
    exact hleast
  · rintro ⟨m, hm, hdvd, hsm⟩
    refine ⟨c, (h c).mpr ⟨rfl, fun hzero => ?_⟩⟩
    have hlt := Nat.lt_of_le_of_lt (hleast.2 ⟨hdvd, hsm⟩) hm
    rw [hzero, Nat.mod_eq_of_lt hlt] at hc
    have hpos' : 0 < ((s.toNat - 1) / pageSize.toNat + 1) * pageSize.toNat :=
      Nat.mul_pos (Nat.succ_pos _) hpos
    exact absurd hc.symm (Nat.ne_of_gt hpos')

section Sizes

variable (hp : pageSize.toNat ∣ 2 ^ 64) (hpos : 0 < pageSize.toNat) (hs : s ≠ 0)

include hp hpos hs

/-- `ps4NamedMemoryOpen` rounds what is asked for. -/
theorem rounds_requested (path : List Byte) (fileSize : Nat) :
    Rounds pageSize s (NamedSize pageSize path s fileSize) := by
  refine rounds_of_roundUp hp hpos hs ?_ (namedSize_iff pageSize path s fileSize)
  unfold namedMemorySize
  rw [if_neg fun hc => hs hc.1, if_neg hs, toNat_pages]
  have hone : (s - 1).toNat = s.toNat - 1 := by
    have hne : s.toNat ≠ 0 := fun hzero => hs (BitVec.eq_of_toNat_eq hzero)
    bv_omega
  rw [hone]

/-- It rounds what is there the same way. -/
theorem rounds_present (path : List Byte) :
    Rounds pageSize s (NamedSize pageSize path 0 s.toNat) := by
  have hne : s.toNat ≠ 0 := fun hzero => hs (BitVec.eq_of_toNat_eq hzero)
  have hfile : BitVec.ofNat 64 s.toNat = s := by rw [BitVec.ofNat_toNat, BitVec.setWidth_eq]
  refine rounds_of_roundUp hp hpos hs ?_ (namedSize_iff pageSize path 0 s.toNat)
  have hlt : (0 : U64) < s := by
    rw [BitVec.lt_def]
    exact Nat.pos_of_ne_zero hne
  unfold namedMemorySize
  rw [hfile, if_pos ⟨rfl, hlt⟩, toNat_pages]
  have hone : (s - 1).toNat = s.toNat - 1 := by bv_omega
  rw [hone]

/-- `ps4ProtectedMemoryCreate` rounds what is not a multiple already. -/
theorem rounds_created_iff (executableHandle writableHandle : Int) :
    Rounds pageSize s (ProtectedSize pageSize executableHandle writableHandle s) ↔
      ¬ pageSize.toNat ∣ s.toNat := by
  have hne : s.toNat ≠ 0 := fun hzero => hs (BitVec.eq_of_toNat_eq hzero)
  have hsizes := protectedSize_iff pageSize executableHandle writableHandle hs
  have hsize : (ProtectedMemory.protectedMemorySize pageSize s).toNat
      = (s.toNat / pageSize.toNat + 1) * pageSize.toNat % 2 ^ 64 := toNat_pages s pageSize
  constructor
  · rintro ⟨hleast, hexists⟩ hdvd
    obtain ⟨z, hz⟩ := hexists ⟨s.toNat, s.isLt, hdvd, Nat.le_refl _⟩
    have hzleast := hleast z hz
    obtain ⟨rfl, hnonzero⟩ := (hsizes z).mp hz
    -- The least multiple is `s` itself, but a page has been added.
    have hself : IsLeast {m | pageSize.toNat ∣ m ∧ s.toNat ≤ m} s.toNat :=
      ⟨⟨hdvd, Nat.le_refl _⟩, fun m hm => hm.2⟩
    have heq := hzleast.unique hself
    rw [hsize, Nat.add_mul, Nat.div_mul_cancel hdvd, Nat.one_mul] at heq
    have hle : s.toNat + pageSize.toNat ≤ 2 ^ 64 := by
      obtain ⟨a, ha⟩ := hp
      obtain ⟨b, hb⟩ := hdvd
      have hlt : b < a := by
        refine Nat.lt_of_mul_lt_mul_left (a := pageSize.toNat) ?_
        rw [← ha, ← hb]
        exact s.isLt
      calc s.toNat + pageSize.toNat = pageSize.toNat * (b + 1) := by rw [hb, Nat.mul_succ]
        _ ≤ pageSize.toNat * a := Nat.mul_le_mul_left _ hlt
        _ = 2 ^ 64 := ha.symm
    obtain hlt | htop := Nat.lt_or_eq_of_le hle
    · rw [Nat.mod_eq_of_lt hlt] at heq
      omega
    · rw [htop, Nat.mod_self] at heq
      exact hne heq.symm
  · intro hdvd
    refine rounds_of_roundUp hp hpos hs ?_ hsizes
    have hdiv : (s.toNat - 1) / pageSize.toNat = s.toNat / pageSize.toNat := by
      obtain ⟨k, hk⟩ := Nat.exists_eq_succ_of_ne_zero hne
      rw [hk, Nat.succ_eq_add_one, Nat.add_sub_cancel,
        Nat.succ_div_of_not_dvd fun hc => hdvd (hk ▸ hc)]
    rw [hsize, hdiv]

end Sizes

/-- **Rounding to pages.**  For every page size and every size, requested or present. -/
theorem tightRounding_iff (pageSize s : U64)
    (hp : ∃ k, 0 < k ∧ k < 63 ∧ pageSize.toNat = 2 ^ k) (hs : s ≠ 0) :
    TightRounding pageSize s ↔ ¬ pageSize.toNat ∣ s.toNat := by
  obtain ⟨k, -, hk, hpage⟩ := hp
  have hdvd : pageSize.toNat ∣ 2 ^ 64 := by
    rw [hpage]
    exact Nat.pow_dvd_pow 2 (by omega)
  have hpos : 0 < pageSize.toNat := by
    rw [hpage]
    exact Nat.two_pow_pos k
  constructor
  · intro h
    exact (rounds_created_iff hdvd hpos hs 0 0).mp (h.created 0 0)
  · intro h
    exact ⟨rounds_requested hdvd hpos hs, rounds_present hdvd hpos hs,
      fun executableHandle writableHandle =>
        (rounds_created_iff hdvd hpos hs executableHandle writableHandle).mpr h⟩

/-- One byte more than a page. -/
theorem overPage_tight : TightRounding 0x4000 0x4001 :=
  (tightRounding_iff 0x4000 0x4001 ⟨14, by decide, by decide, by decide⟩ (by decide)).mpr
    (by decide)

/-- A page gets two. -/
theorem onePage_not_tight :
    ¬ ∀ (pageSize s : U64), (∃ k, 0 < k ∧ k < 63 ∧ pageSize.toNat = 2 ^ k) → s ≠ 0 →
      TightRounding pageSize s := by
  intro h
  have htight := h 0x4000 0x4000 ⟨14, by decide, by decide, by decide⟩ (by decide)
  have hrecorded : ProtectedSize 0x4000 0 0 0x4000 0x8000 :=
    (protectedSize_iff 0x4000 0 0 (by decide) 0x8000).mpr ⟨by decide, by decide⟩
  have hle := ((htight.created 0 0).1 0x8000 hrecorded).2 ⟨by decide, Nat.le_refl _⟩
  exact absurd hle (by decide)

end LibPS4
