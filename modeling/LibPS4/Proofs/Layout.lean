/-
The layout of the stubs, and the offsets `ps4Resolve` knows of it.

`ps4Resolve` is told the address of a stub and takes the operands out of its code, at
offsets that are written down in two places: as numbers in `resolve.c`, and as the lengths
of all the instructions before the operand in the template.  They agree for every kind,
whatever the operands are and wherever the stub is.  The other direction is the check it
makes of what it is pointed at: the marker, the kind and the stub's own address.
-/
import LibPS4.Proofs.Arguments

namespace LibPS4

open Effects X64

/-- What `ps4Resolve` should make of a stub. -/
def Stub.recovered (function : U64) (stub : Stub) : PS4ResolveStatus ⊕ ResolveArguments :=
  match stub with
  | .syscall _ => .inl .success
  | _ => .inr (stub.operands function)

theorem ps4ResolveOperands_recovered {stub : Stub} {function : U64} {symbol : StubSymbol → U64}
    {mem : U64 → Byte} (hinst : stub.Installed function symbol mem) :
    ps4ResolveOperands mem function = stub.recovered function := by
  -- In the kernel every kind that is resolved at all has a cell.
  have hcells : ∀ cell, stub.cell true = some cell →
      ps4ResolveOperands mem function = .inr (stub.operands function) :=
    fun cell hcell => ps4ResolveOperands_installed hcell hinst
  cases stub with
  | syscall number =>
      obtain ⟨h0, h1⟩ := marker_eq hinst
      simp only [ps4ResolveOperands, h0, h1, Stub.type]
      rfl
  | _ => exact hcells _ rfl

/-- The offset of the stub's own address, by kind. -/
def selfOffset (kind : Byte) : Option Nat :=
  if kind = 0 then some 72
  else if kind = 1 then some 52
  else if kind = 2 then some 114
  else if kind = 3 then some 76
  else none

/-- Code that is no stub at this address: not the marker, no kind there is, or a kind that
has its own address among the operands and another one there. -/
def NoStub (mem : U64 → Byte) (function : U64) : Prop :=
  mem function ≠ 0xa8 ∨ 4 < (mem (function + 1)).toNat ∨
    ∃ k, selfOffset (mem (function + 1)) = some k ∧
      le64 mem (function + BitVec.ofNat 64 k) ≠ function

theorem ps4ResolveOperands_noStub {mem : U64 → Byte} {function : U64} (h : NoStub mem function) :
    ps4ResolveOperands mem function = .inl .functionResolveError := by
  unfold ps4ResolveOperands
  dsimp only
  by_cases hmarker : mem function = 0xa8
  · rw [if_neg (not_not.mpr hmarker)]
    have h' := h.resolve_left (not_not.mpr hmarker)
    generalize hkind : mem (function + 1) = kind at h'
    -- A kind with its own address among the operands has another one there.
    have hself : ∀ k, selfOffset kind = some k →
        le64 mem (function + BitVec.ofNat 64 k) ≠ function := by
      intro k hk
      rcases h' with hlarge | ⟨k', hk', hne⟩
      · have hnone : selfOffset kind = none := by
          unfold selfOffset
          have hsmall : ∀ n : Byte, n.toNat ≤ 4 → kind ≠ n := by
            rintro n hn rfl
            omega
          rw [if_neg (hsmall 0 (by decide)), if_neg (hsmall 1 (by decide)),
            if_neg (hsmall 2 (by decide)), if_neg (hsmall 3 (by decide))]
        rw [hnone] at hk
        cases hk
      · rw [hk'] at hk
        cases hk
        exact hne
    by_cases h0 : kind = 0
    · subst h0
      rw [if_pos rfl, if_pos (hself 72 rfl)]
    · rw [if_neg h0]
      by_cases h1 : kind = 1
      · subst h1
        rw [if_pos rfl, if_pos (hself 52 rfl)]
      · rw [if_neg h1]
        by_cases h2 : kind = 2
        · subst h2
          rw [if_pos rfl, if_pos (hself 114 rfl)]
        · rw [if_neg h2]
          by_cases h3 : kind = 3
          · subst h3
            rw [if_pos rfl, if_pos (hself 76 rfl)]
          · rw [if_neg h3]
            by_cases h4 : kind = 4
            · subst h4
              rcases h' with hlarge | ⟨k, hk, -⟩
              · exact absurd hlarge (by decide)
              · cases hk
            · rw [if_neg h4]
  · rw [if_pos hmarker]

/--
**Stubs are read back, and nothing else is.**

A stub laid out at any address, with any operands and linked against anything, makes
`ps4Resolve` call the resolver with exactly its operands; a plain syscall has nothing to
resolve.  What is no stub at that address is refused without resolving anything.
-/
theorem ps4Resolve_layout (handlers : Handlers) (ext : Externals) (sp function : U64) (w : World) :
    (∀ (stub : Stub) (symbol : StubSymbol → U64), stub.Installed function symbol w.mem →
      ps4ResolveOperands w.mem function = stub.recovered function ∧
      ps4Resolve handlers ext sp function w = match stub with
        | .syscall _ => (.ok .success, w)
        | _ => (ps4ResolveModuleAndSymbolOrKernelSymbol handlers ext sp (stub.operands function)
            w).returned) ∧
    (NoStub w.mem function →
      ps4Resolve handlers ext sp function w = (.ok .functionResolveError, w)) := by
  refine ⟨fun stub symbol hinst => ?_, fun h => ?_⟩
  · have hops := ps4ResolveOperands_recovered hinst
    refine ⟨hops, ?_⟩
    unfold ps4Resolve
    rw [hops]
    cases stub <;> rfl
  · unfold ps4Resolve
    rw [ps4ResolveOperands_noStub h]

/-- Answers that find nothing. -/
def findsNothing : Externals where
  libkernel := 0
  findLsm _ := (1, none)
  lsm _ _ := 0
  findSymbol _ _ := (1, none)
  kernelDlSym _ := 0

/-- A user function is read back from its code, and refused where there is none. -/
theorem caller_layout :
    ps4Resolve Handlers.none findsNothing 0x7fff0000 0x400000
          ⟨(caller userStub 0x7fff0000 0 0).mem, 0, []⟩
        = (ps4ResolveModuleAndSymbolOrKernelSymbol Handlers.none findsNothing 0x7fff0000
          ⟨0x500000, 0x500010, 0x600010, 0x600000, 0, 0x400000⟩
          ⟨(caller userStub 0x7fff0000 0 0).mem, 0, []⟩).returned ∧
      ps4Resolve Handlers.none findsNothing 0x7fff0000 0x400000 ⟨fun _ => 0, 0, []⟩
        = (.ok .functionResolveError, ⟨fun _ => 0, 0, []⟩) := by
  refine ⟨?_, ?_⟩
  · exact ((ps4Resolve_layout Handlers.none findsNothing _ _ _).1 userStub (fun _ => 0x410000)
      (caller_installed userStub 0x7fff0000 0 0)).2
  · have hmarker : (0 : Byte) ≠ 0xa8 := by decide
    exact (ps4Resolve_layout Handlers.none findsNothing _ _ ⟨fun _ => 0, 0, []⟩).2 (.inl hmarker)

end LibPS4
