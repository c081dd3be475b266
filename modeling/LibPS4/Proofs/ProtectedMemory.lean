/-
Creating protected memory, with calls that may fail.

Every way through `ps4ProtectedMemoryCreate` ends in a chain of releases that fits what has
been obtained if the handles tell it: zero where the JIT call has failed, not zero where it
has not.  Nothing makes sure of that.  A handle that was not written holds what the stack
held, so that after a failure the code goes on with somebody else's handle and closes it,
and a handle may be zero, which is then never closed.

The two directions go by what the ledger keeps: exactly the right things before each label
in the good case, and too few handles for the closes ahead in the bad ones.
-/
import LibPS4.Memory.Protected

namespace LibPS4.ProtectedMemory

open Effects Calls

/-- A handle of whatever memory. -/
def Resource.isHandle : Resource → Bool
  | .handle _ => true
  | _ => false

/-- `ps4ProtectedMemoryCreate` with nothing obtained yet. -/
def createAlone (pageSize : U64) (executableHandle writableHandle : Int) (size : U64)
    (o : Outcomes) : Option PS4ProtectedMemory × Ledger Resource :=
  (ps4ProtectedMemoryCreate pageSize executableHandle writableHandle size).run perform o.choice
    Ledger.empty

/-- What a created memory stands for. -/
def PS4ProtectedMemory.resources (memory : PS4ProtectedMemory) : List Resource :=
  [.mapping memory.writable memory.size, .mapping memory.executable memory.size,
    .record memory.memory]

/-- `ps4ProtectedMemoryDestroy` gives back these and nothing else. -/
def DestroyReleases (memory : PS4ProtectedMemory) (l : Ledger Resource) : Prop :=
  ∀ choice, ∃ l', (ps4ProtectedMemoryDestroy (some memory)).run perform choice l = (0, l') ∧
    l'.Keeps [] ∧ l'.obtained = l.obtained ∧ l'.released = l.released ++ memory.resources

/-- No memory and nothing kept; or a memory, with its record and its two mappings kept and
its two handles closed, and these are what `ps4ProtectedMemoryDestroy` gives back. -/
def AllOrNothing : Option PS4ProtectedMemory × Ledger Resource → Prop
  | (none, l) => l.Keeps []
  | (some memory, l) =>
      l.Keeps memory.resources ∧ memory.executable ≠ memory.writable ∧
      (∃ executableHandle writableHandle, executableHandle ≠ writableHandle ∧
        l.released = [.handle executableHandle, .handle writableHandle]) ∧
      DestroyReleases memory l

/-- A handle is zero exactly if its JIT call has failed. -/
def HandlesTell (o : Outcomes) (executableHandle writableHandle : Int) : Prop :=
  match o.createShared with
  | none => executableHandle = 0
  | some executableHandle => executableHandle ≠ 0 ∧
      match o.createAlias with
      | none => writableHandle = 0
      | some writableHandle => writableHandle ≠ 0

/-! ### Destroying -/

theorem destroyReleases {memory : PS4ProtectedMemory} {l : Ledger Resource}
    (h : l.Keeps memory.resources) : DestroyReleases memory l := by
  intro choice
  have hw := h.release
  have he := hw.release
  have hreturn : Reply.int (some 0) ||| Reply.int (some 0) = 0 := by decide
  refine ⟨_, congrArg (·, _) hreturn, he.release, ?_, ?_⟩
  · show (((l.release _).release _).release _).obtained = l.obtained
    simp only [Ledger.obtained_release]
  · show (((l.release _).release _).release _).released = _
    rw [he.released List.mem_cons_self, hw.released List.mem_cons_self,
      h.released List.mem_cons_self, List.append_assoc, List.append_assoc]
    rfl

/-! ### The labels, after what they release -/

section Labels

variable {l : Ledger Resource} (choice : Nat → Reply) {memory e w executable : Int} {size : U64}

theorem run_freeandreturn : (freeandreturn memory).run perform choice l
    = (none, l.release (.record memory)) := rfl

theorem run_closee : (closee memory e).run perform choice l
    = (none, (l.release (.handle e)).release (.record memory)) := rfl

theorem run_closew : (closew memory e w).run perform choice l
    = (none, ((l.release (.handle w)).release (.handle e)).release (.record memory)) := rfl

theorem run_munmape : (munmape memory e w executable size).run perform choice l
    = (closew memory e w).run perform (fun n => choice (n + 1))
        (l.release (.mapping executable size)) := rfl

theorem allOrNothing_closew (h : l.Keeps [.handle w, .handle e, .record memory]) :
    AllOrNothing ((closew memory e w).run perform choice l) := by
  rw [run_closew]
  exact h.release.release.release

/-! ### With handles that tell -/

theorem perform_mmap {handle : Int} (address : Int) (protection flags : Nat) :
    perform (some address) (.mmap size protection flags handle) l
      = (some address, (l.use (.handle handle)).acquire (.mapping address size)) := rfl

theorem perform_mmap_fails {handle : Int} (protection flags : Nat) :
    perform none (.mmap size protection flags handle) l = (none, l.use (.handle handle)) := rfl

theorem perform_mmap_some {kept : List Resource} {handle : Int} (address : Int)
    (protection flags : Nat) (h : l.Keeps kept) (hmem : .handle handle ∈ kept) :
    perform (some address) (.mmap size protection flags handle) l
      = (some address, l.acquire (.mapping address size)) := by
  rw [perform_mmap, h.use hmem]

theorem perform_mmap_none {kept : List Resource} {handle : Int}
    (protection flags : Nat) (h : l.Keeps kept) (hmem : .handle handle ∈ kept) :
    perform none (.mmap size protection flags handle) l = (none, l) := by
  rw [perform_mmap_fails, h.use hmem]

/-- Both handles closed, in the order of the success path. -/
theorem allOrNothing_closed {writable : Int} (hew : e ≠ w) (hne : executable ≠ writable)
    (h : l.Keeps [.mapping writable size, .mapping executable size, .handle w, .handle e,
      .record memory]) (hreleased : l.released = []) :
    AllOrNothing (some ⟨memory, writable, executable, size⟩,
      (l.release (.handle e)).release (.handle w)) := by
  have hfirst : l.Keeps [.handle e, .handle w, .mapping writable size, .mapping executable size,
      .record memory] := by
    refine h.of_perm ?_
    exact List.perm_iff_count.mpr fun r => by simp only [List.count_cons, List.count_nil]; omega
  have hclosed := hfirst.release.release
  refine ⟨hclosed, hne, ⟨e, w, hew, ?_⟩, destroyReleases hclosed⟩
  rw [hfirst.release.released List.mem_cons_self, hfirst.released List.mem_cons_self, hreleased]
  rfl

theorem allOrNothing_createMapped (hew : e ≠ w)
    (hne : ∀ address, choice 0 = some address → choice 1 ≠ some address)
    (h : l.Keeps [.handle w, .handle e, .record memory]) (hreleased : l.released = []) :
    AllOrNothing ((createMapped memory e w size).run perform choice l) := by
  unfold createMapped
  rw [ask_bind, run_call]
  have he : Resource.handle e ∈ [Resource.handle w, .handle e, .record memory] :=
    List.mem_cons_of_mem _ List.mem_cons_self
  cases hexecutable : choice 0 with
  | none =>
      rw [perform_mmap_none _ _ h he]
      exact allOrNothing_closew _ h
  | some executable =>
      rw [perform_mmap_some executable _ _ h he]
      simp only [ask_bind]
      rw [run_call]
      have hmapped := h.acquire (r := .mapping executable size)
      have hw : Resource.handle w ∈
          [Resource.mapping executable size, .handle w, .handle e, .record memory] :=
        List.mem_cons_of_mem _ List.mem_cons_self
      cases hwritable : choice 1 with
      | none =>
          rw [perform_mmap_none _ _ hmapped hw, run_munmape]
          exact allOrNothing_closew _ hmapped.release
      | some writable =>
          rw [perform_mmap_some writable _ _ hmapped hw]
          have hdistinct : executable ≠ writable := by
            intro heq
            subst heq
            exact hne executable hexecutable hwritable
          exact allOrNothing_closed hew hdistinct hmapped.acquire hreleased

/-- The part that follows the JIT calls. -/
def afterAlias (memory e w : Int) (size : U64) : Calls Call Reply (Option PS4ProtectedMemory) :=
  if w = 0 then closee memory e else createMapped memory e w size

def afterShared (memory e w : Int) (size : U64) : Calls Call Reply (Option PS4ProtectedMemory) :=
  if e = 0 then freeandreturn memory else createAlias memory e w size

theorem run_createAlias_none (h : choice 0 = none) :
    (createAlias memory e w size).run perform choice l
      = (afterAlias memory e w size).run perform (fun n => choice (n + 1)) l := by
  unfold createAlias
  rw [ask_bind, run_call, h]
  rfl

theorem run_createAlias_some {w' : Int} (h : choice 0 = some w') :
    (createAlias memory e w size).run perform choice l
      = (afterAlias memory e w' size).run perform (fun n => choice (n + 1))
          (l.acquire (.handle w')) := by
  unfold createAlias
  rw [ask_bind, run_call, h]
  rfl

theorem run_createShared_none (h : choice 0 = none) :
    (createShared memory e w size).run perform choice l
      = (afterShared memory e w size).run perform (fun n => choice (n + 1)) l := by
  unfold createShared
  rw [ask_bind, run_call, h]
  rfl

theorem run_createShared_some {e' : Int} (h : choice 0 = some e') :
    (createShared memory e w size).run perform choice l
      = (afterShared memory e' w size).run perform (fun n => choice (n + 1))
          (l.acquire (.handle e')) := by
  unfold createShared
  rw [ask_bind, run_call, h]
  rfl

/-- **Handles that tell.** -/
theorem allOrNothing_createShared {o : Outcomes} (htell : HandlesTell o e w)
    (h : l.Keeps [.record memory]) (hreleased : l.released = []) :
    AllOrNothing ((createShared memory e w size).run perform
      (fun n => o.choice (n + 1)) l) := by
  unfold HandlesTell at htell
  cases hcreate : o.createShared with
  | none =>
      rw [hcreate] at htell
      rw [run_createShared_none _ hcreate, afterShared, if_pos htell, run_freeandreturn]
      exact h.release
  | some e' =>
      rw [hcreate] at htell
      obtain ⟨he, htell⟩ := htell
      rw [run_createShared_some _ hcreate, afterShared, if_neg he]
      have hshared := h.acquire (r := .handle e')
      cases halias : o.createAlias with
      | none =>
          rw [halias] at htell
          rw [run_createAlias_none _ halias, afterAlias, if_pos htell, run_closee]
          exact hshared.release.release
      | some w' =>
          rw [halias] at htell
          rw [run_createAlias_some _ halias, afterAlias, if_neg htell]
          have hew : e' ≠ w' := by
            intro heq
            subst heq
            exact o.handles_ne e' hcreate halias
          exact allOrNothing_createMapped _ hew o.addresses_ne hshared.acquire hreleased

/-! ### With handles that do not -/

theorem not_allOrNothing_of_misused {memory : Option PS4ProtectedMemory}
    (h : l.misused = true) : ¬ AllOrNothing (memory, l) := by
  cases memory with
  | none => exact Ledger.not_keeps_of_misused h
  | some memory => exact fun hall => Ledger.not_keeps_of_misused h hall.1

/-- The last label does not make up for it. -/
theorem not_allOrNothing_freed (h : l.misused = true) :
    ¬ AllOrNothing (none, l.release (.record memory)) :=
  not_allOrNothing_of_misused (Ledger.misused_release h)

theorem misused_close_close (a b : Int) (h : l.AtMost Resource.isHandle 1) :
    ((l.release (.handle a)).release (.handle b)).misused = true :=
  (h.release_succ rfl).misused_release rfl

theorem not_allOrNothing_closew (h : l.AtMost Resource.isHandle 1) :
    ¬ AllOrNothing ((closew memory e w).run perform choice l) := by
  rw [run_closew]
  exact not_allOrNothing_freed (misused_close_close w e h)

/-- Two handles are closed on every way from here. -/
theorem not_allOrNothing_createMapped (h : l.AtMost Resource.isHandle 1) :
    ¬ AllOrNothing ((createMapped memory e w size).run perform choice l) := by
  unfold createMapped
  rw [ask_bind, run_call]
  have hexecutable : (l.use (.handle e)).AtMost Resource.isHandle 1 := h.use
  cases choice 0 with
  | none =>
      rw [perform_mmap_fails]
      exact not_allOrNothing_closew _ hexecutable
  | some executable =>
      rw [perform_mmap]
      simp only [ask_bind]
      rw [run_call]
      have hmapped := hexecutable.acquire (r := .mapping executable size) rfl
      have hwritable := hmapped.use (r := .handle w)
      cases choice 1 with
      | none =>
          rw [perform_mmap_fails, run_munmape]
          exact not_allOrNothing_closew _ hwritable.release
      | some writable =>
          rw [perform_mmap]
          have hboth := hwritable.acquire (r := .mapping writable size) rfl
          exact not_allOrNothing_of_misused (misused_close_close e w hboth)

theorem not_allOrNothing_leak {handle : Int} (h : l.Keeps [.handle handle]) :
    ¬ AllOrNothing (none, l) := by
  intro hall
  have hperm := h.perm hall
  exact List.cons_ne_nil _ _ hperm.eq_nil

/-- A second handle that is not its own. -/
theorem not_allOrNothing_createAlias {o : Outcomes}
    (htell : ¬ match o.createAlias with | none => w = 0 | some w => w ≠ 0)
    (h : l.Keeps [.handle e, .record memory]) :
    ¬ AllOrNothing ((createAlias memory e w size).run perform (fun n => o.choice (n + 2)) l) := by
  cases halias : o.createAlias with
  | none =>
      rw [halias] at htell
      rw [run_createAlias_none _ halias, afterAlias, if_neg htell]
      exact not_allOrNothing_createMapped _ (Or.inr ⟨_, h, Nat.le_refl 1⟩)
  | some w' =>
      rw [halias] at htell
      have hzero : w' = 0 := Classical.not_not.mp htell
      rw [run_createAlias_some _ halias, afterAlias, if_pos hzero, run_closee]
      -- The handle is zero, which is taken for a failure.
      have hkeeps : (l.acquire (.handle w')).Keeps [.handle e, .record memory, .handle w'] :=
        h.acquire.of_perm (List.perm_append_singleton _ [_, _]).symm
      exact not_allOrNothing_leak hkeeps.release.release

/-- A first handle that is not its own. -/
theorem not_allOrNothing_stale {o : Outcomes} (he : e ≠ 0) (h : l.Keeps [.record memory]) :
    ¬ AllOrNothing ((createAlias memory e w size).run perform (fun n => o.choice (n + 2)) l) := by
  have hnone : l.AtMost Resource.isHandle 0 := Or.inr ⟨_, h, Nat.le_refl 0⟩
  cases halias : o.createAlias with
  | none =>
      rw [run_createAlias_none _ halias, afterAlias]
      by_cases hw : w = 0
      · rw [if_pos hw, run_closee]
        exact not_allOrNothing_freed (hnone.misused_release rfl)
      · rw [if_neg hw]
        exact not_allOrNothing_createMapped _ (Or.inr ⟨_, h, Nat.zero_le 1⟩)
  | some w' =>
      rw [run_createAlias_some _ halias, afterAlias]
      have hkeeps := h.acquire (r := .handle w')
      by_cases hw : w' = 0
      · rw [if_pos hw, run_closee]
        have hother : Resource.handle e ∉ [Resource.handle w', .record memory] := by
          intro hmem
          have heq : e = w' := by simpa using hmem
          exact he (heq.trans hw)
        exact not_allOrNothing_freed (hkeeps.misused_release hother)
      · rw [if_neg hw]
        exact not_allOrNothing_createMapped _ (Or.inr ⟨_, hkeeps, Nat.le_refl 1⟩)

theorem not_allOrNothing_createShared {o : Outcomes} (htell : ¬ HandlesTell o e w)
    (h : l.Keeps [.record memory]) :
    ¬ AllOrNothing ((createShared memory e w size).run perform (fun n => o.choice (n + 1)) l) := by
  unfold HandlesTell at htell
  cases hcreate : o.createShared with
  | none =>
      rw [hcreate] at htell
      rw [run_createShared_none _ hcreate, afterShared, if_neg htell]
      exact not_allOrNothing_stale htell h
  | some e' =>
      rw [hcreate] at htell
      rw [run_createShared_some _ hcreate, afterShared]
      have hshared := h.acquire (r := .handle e')
      by_cases he : e' = 0
      · rw [if_pos he, run_freeandreturn]
        have hkeeps := hshared.of_perm (List.Perm.swap _ _ [])
        exact not_allOrNothing_leak hkeeps.release
      · rw [if_neg he]
        exact not_allOrNothing_createAlias (fun hmatch => htell ⟨he, hmatch⟩) hshared

end Labels

/-! ### The whole function -/

/-- **All or nothing, if the handles tell.**  For every size and page size, every outcome of
the calls and every value the two locals start with. -/
theorem create_allOrNothing_iff (pageSize : U64) (executableHandle writableHandle : Int)
    (size : U64) (o : Outcomes) :
    AllOrNothing (createAlone pageSize executableHandle writableHandle size o) ↔
      size = 0 ∨ o.malloc = none ∨ HandlesTell o executableHandle writableHandle := by
  unfold createAlone ps4ProtectedMemoryCreate
  by_cases hsize : size = 0
  · rw [if_pos hsize]
    exact ⟨fun _ => Or.inl hsize, fun _ => Ledger.Keeps.empty⟩
  rw [if_neg hsize, ask_bind, run_call]
  cases hmalloc : o.malloc with
  | none =>
      have hchoice : o.choice 0 = none := hmalloc
      rw [hchoice]
      exact ⟨fun _ => Or.inr (Or.inl rfl), fun _ => Ledger.Keeps.empty⟩
  | some memory =>
      have hchoice : o.choice 0 = some memory := hmalloc
      rw [hchoice]
      have hrecord := Ledger.Keeps.empty.acquire (r := Resource.record memory)
      constructor
      · intro hall
        refine Or.inr (Or.inr (Classical.byContradiction fun htell => ?_))
        exact not_allOrNothing_createShared htell hrecord hall
      · intro h
        obtain h | h | htell := h
        · exact absurd h hsize
        · cases h
        · exact allOrNothing_createShared htell hrecord rfl

/-- The first JIT call fails and its handle held 5 by chance: the memory is mapped from, and
the handle closed of, whatever 5 is. -/
theorem staleHandle_not_allOrNothing :
    ¬ ∀ (pageSize : U64) (executableHandle writableHandle : Int) (size : U64) (o : Outcomes),
    size ≠ 0 →
    AllOrNothing (createAlone pageSize executableHandle writableHandle size o) := by
  intro hall
  have hkeeps := hall 0x4000 5 0 1
    ⟨some 1, none, none, none, none, nofun, nofun⟩ (by decide)
  have hproper : _ = false := hkeeps.proper
  revert hproper
  decide

end LibPS4.ProtectedMemory
