/-
A client of named memory over a whole run.

One process opens, closes and unlinks in any order, and between any two of its calls the
others may do to the shared memory what they like: a call sees whatever shared memory its
turn has, and fails if its turn says so.  What the process has to give back later does not
depend on any of it, so its resources are followed alone, and `Base/Holding.lean` makes a
run of the two facts that an open keeps what its handle stands for and a close gives that
back.
-/
import LibPS4.Base.Holding
import LibPS4.Memory.Named

namespace LibPS4

open Effects Calls

/-! ### The process by itself -/

/-- What a process may have to give back. -/
inductive ProcessResource
  | pointer (address : Nat)
  | descriptor (handle : Nat)
  | mapping (address length : Nat)
  deriving DecidableEq, Repr

def Process.Holds (p : Process) : ProcessResource → Prop
  | .pointer a => p.heap[a]? = some true
  | .descriptor handle => (p.object handle).isSome = true
  | .mapping a n => p.mappings[a]?.join.map Mapping.length = some n

def processHolder : Holder Process ProcessResource where
  holds := Process.Holds
  misused p := p.misused = true

/-- Whether a call fails, and the shared memory it finds. -/
abbrev Turn := Bool × Shm

/-- A call, as far as the process sees it. -/
def performOwn (turn : Turn) (c : Call) (p : Process) : Reply × Process :=
  ((perform turn.1 c turn.2 p).1, (perform turn.1 c turn.2 p).2.2)

/-- Resources of the other kinds are as they were. -/
theorem holds_or_of_ne {P : Prop} {r r' : ProcessResource} (h : r' ≠ r) : P ↔ P ∨ r' = r :=
  ⟨.inl, fun hp => hp.resolve_right h⟩

theorem holds_and_of_ne {P : Prop} {r r' : ProcessResource} (h : r' ≠ r) : P ↔ P ∧ r' ≠ r :=
  ⟨fun hp => ⟨hp, h⟩, And.left⟩

section Calls

variable {p₀ p : Process} {kept : List ProcessResource} (turn : Turn)

theorem keeps_malloc (h : processHolder.Keeps p₀ p kept) (size : Nat) :
    (∃ p', performOwn turn (.malloc size) p = (none, p') ∧ processHolder.Keeps p₀ p' kept) ∨
      ∃ a p', performOwn turn (.malloc size) p = (some a, p') ∧
        processHolder.Keeps p₀ p' (.pointer a :: kept) := by
  obtain ⟨fails, shm⟩ := turn
  cases fails with
  | true => exact .inl ⟨p, rfl, h⟩
  | false =>
      have hentry {b : Nat} : (p.heap ++ [true])[b]? = some true ↔
          p.heap[b]? = some true ∨ (b = p.heap.length ∧ some true = some true) :=
        concat_entry (P := fun o => o = some true) fun h => by cases h
      refine .inr ⟨p.heap.length, { p with heap := p.heap ++ [true] }, rfl, h.gain ?_ ?_ id⟩
      · show ¬ p.heap[p.heap.length]? = some true
        rw [List.getElem?_eq_none (Nat.le_refl _)]
        exact fun h => by cases h
      · intro r
        cases r with
        | pointer b =>
            rw [ProcessResource.pointer.injEq]
            exact hentry.trans (or_congr_right (and_iff_left rfl))
        | descriptor handle => exact holds_or_of_ne fun hr => by cases hr
        | mapping b n => exact holds_or_of_ne fun hr => by cases hr

theorem keeps_free {a : Nat} (h : processHolder.Keeps p₀ p (.pointer a :: kept)) :
    performOwn turn (.free a) p = (some 0, p.free a) ∧ processHolder.Keeps p₀ (p.free a) kept := by
  have hheld : p.heap[a]? = some true := h.holds List.mem_cons_self
  refine ⟨rfl, ?_⟩
  rw [Process.free, if_pos hheld]
  refine h.lose (fun r => ?_) id
  cases r with
  | pointer b =>
      rw [ne_eq, ProcessResource.pointer.injEq]
      exact set_entry (P := fun o => o = some true) (List.getElem?_eq_some_iff.mp hheld).1
        fun h => by cases h
  | descriptor handle => exact holds_and_of_ne fun hr => by cases hr
  | mapping b n => exact holds_and_of_ne fun hr => by cases hr

theorem keeps_shmOpen (h : processHolder.Keeps p₀ p kept) (path : List Byte) :
    (∃ p', performOwn turn (.shmOpen path) p = (none, p') ∧ processHolder.Keeps p₀ p' kept) ∨
      ∃ handle p', performOwn turn (.shmOpen path) p = (some handle, p') ∧
        processHolder.Keeps p₀ p' (.descriptor handle :: kept) := by
  obtain ⟨fails, shm⟩ := turn
  cases fails with
  | true => exact .inl ⟨p, rfl, h⟩
  | false =>
      have hopen : ∃ o, performOwn (false, shm) (.shmOpen path) p
          = (some p.descriptors.length, { p with descriptors := p.descriptors ++ [some o] }) := by
        cases hname : shm.names path with
        | some o => exact ⟨o, by rw [performOwn, perform_shmOpen_some hname]⟩
        | none => exact ⟨_, by rw [performOwn, perform_shmOpen_none hname]⟩
      obtain ⟨o, hopen⟩ := hopen
      refine .inr ⟨_, _, hopen, h.gain ?_ (fun r => ?_) id⟩
      · show ¬ p.descriptors[p.descriptors.length]?.join.isSome = true
        rw [List.getElem?_eq_none (Nat.le_refl _)]
        exact fun h => by cases h
      · cases r with
        | pointer b => exact holds_or_of_ne fun hr => by cases hr
        | descriptor handle =>
            rw [ProcessResource.descriptor.injEq]
            exact (concat_entry (P := fun o => o.join.isSome = true) fun h => by cases h).trans
              (or_congr_right (and_iff_left rfl))
        | mapping b n => exact holds_or_of_ne fun hr => by cases hr

theorem keeps_close {handle : Nat} (h : processHolder.Keeps p₀ p (.descriptor handle :: kept)) :
    performOwn turn (.close handle) p = (some 0, p.close handle) ∧
      processHolder.Keeps p₀ (p.close handle) kept := by
  have hheld : (p.object handle).isSome = true := h.holds List.mem_cons_self
  have hlt : handle < p.descriptors.length := by
    by_contra hc
    rw [Process.object, List.getElem?_eq_none (Nat.not_lt.mp hc)] at hheld
    cases hheld
  refine ⟨rfl, ?_⟩
  rw [Process.close, if_pos hheld]
  refine h.lose (fun r => ?_) id
  cases r with
  | pointer b => exact holds_and_of_ne fun hr => by cases hr
  | descriptor handle' =>
      rw [ne_eq, ProcessResource.descriptor.injEq]
      exact set_entry (P := fun o => o.join.isSome = true) hlt fun h => by cases h
  | mapping b n => exact holds_and_of_ne fun hr => by cases hr

theorem keeps_mmap (h : processHolder.Keeps p₀ p kept) (length : U64) (handle : Nat) :
    (∃ p', performOwn turn (.mmap length handle) p = (none, p') ∧ processHolder.Keeps p₀ p' kept) ∨
      ∃ a p', performOwn turn (.mmap length handle) p = (some a, p') ∧
        processHolder.Keeps p₀ p' (.mapping a length.toNat :: kept) := by
  obtain ⟨fails, shm⟩ := turn
  cases fails with
  | true => exact .inl ⟨p, rfl, h⟩
  | false =>
      cases hobject : p.object handle with
      | none =>
          refine .inl ⟨p, ?_, h⟩
          simp only [performOwn, perform, hobject]
          rfl
      | some o =>
          have hmmap : performOwn (false, shm) (.mmap length handle) p
              = (some p.mappings.length,
                  { p with mappings := p.mappings ++ [some ⟨o, length.toNat⟩] }) := by
            rw [performOwn, perform_mmap length hobject]
          refine .inr ⟨_, _, hmmap, h.gain ?_ (fun r => ?_) id⟩
          · show ¬ p.mappings[p.mappings.length]?.join.map Mapping.length = some length.toNat
            rw [List.getElem?_eq_none (Nat.le_refl _)]
            exact fun h => by cases h
          · cases r with
            | pointer b => exact holds_or_of_ne fun hr => by cases hr
            | descriptor handle => exact holds_or_of_ne fun hr => by cases hr
            | mapping b n =>
                rw [ProcessResource.mapping.injEq]
                refine (concat_entry (P := fun o => o.join.map Mapping.length = some n)
                  fun h => by cases h).trans (or_congr_right (and_congr_right fun _ => ?_))
                exact Option.some_inj.trans eq_comm

theorem keeps_munmap {a : Nat} {length : U64}
    (h : processHolder.Keeps p₀ p (.mapping a length.toNat :: kept)) :
    performOwn turn (.munmap a length) p = (some 0, p.munmap a length) ∧
      processHolder.Keeps p₀ (p.munmap a length) kept := by
  have hheld : p.mappings[a]?.join.map Mapping.length = some length.toNat :=
    h.holds List.mem_cons_self
  obtain ⟨m, hm, hlength⟩ := Option.map_eq_some_iff.mp hheld
  have hlt : a < p.mappings.length := by
    by_contra hc
    rw [List.getElem?_eq_none (Nat.not_lt.mp hc)] at hm
    cases hm
  have hunmap : p.munmap a length = { p with mappings := p.mappings.set a none } := by
    unfold Process.munmap
    rw [hm]
    exact if_pos hlength
  refine ⟨rfl, ?_⟩
  rw [hunmap]
  refine h.lose (fun r => ?_) id
  cases r with
  | pointer b => exact holds_and_of_ne fun hr => by cases hr
  | descriptor handle => exact holds_and_of_ne fun hr => by cases hr
  | mapping b n =>
      rw [ne_eq, ProcessResource.mapping.injEq]
      refine (set_entry (P := fun o => o.join.map Mapping.length = some n) hlt
        fun h => by cases h).trans (and_congr_right fun hn => not_congr ?_)
      refine ⟨fun hb => ⟨hb, ?_⟩, And.left⟩
      subst hb
      rw [hheld] at hn
      exact (Option.some.inj hn).symm

end Calls

/-! ### The labels -/

/-- What a handle stands for. -/
def PS4NamedMemory.resources (m : PS4NamedMemory) : List ProcessResource :=
  [.mapping m.address m.size.toNat, .pointer m.pathPointer, .pointer m.memory]

/-- An open that fails keeps nothing, and one that does not keeps what its handle stands
for. -/
def OpenKeeps (p₀ : Process) (kept : List ProcessResource)
    (r : Option PS4NamedMemory × Process) : Prop :=
  processHolder.Keeps p₀ r.2 (r.1.toList.flatMap PS4NamedMemory.resources ++ kept)

section Labels

variable {p₀ p : Process} {kept : List ProcessResource} {memory pathPointer handle : Nat}
  (turns : Nat → Turn)

theorem keeps_freeandreturn (h : processHolder.Keeps p₀ p (.pointer memory :: kept)) :
    OpenKeeps p₀ kept ((freeandreturn memory).run performOwn turns p) := by
  obtain ⟨hfree, hk⟩ := keeps_free (turns 0) h
  rw [freeandreturn, ask_bind, run_call, hfree]
  exact hk

theorem keeps_freepath
    (h : processHolder.Keeps p₀ p (.pointer pathPointer :: .pointer memory :: kept)) :
    OpenKeeps p₀ kept ((freepath memory pathPointer).run performOwn turns p) := by
  obtain ⟨hfree, hk⟩ := keeps_free (turns 0) h
  rw [freepath, ask_bind, run_call, hfree]
  exact keeps_freeandreturn _ hk

theorem performOwn_shmUnlink (turn : Turn) (path : List Byte) :
    ∃ reply, performOwn turn (.shmUnlink path) p = (reply, p) := by
  cases hname : turn.2.names path with
  | some o => exact ⟨some 0, by rw [performOwn, perform_shmUnlink_some turn.1 hname]⟩
  | none => exact ⟨none, by rw [performOwn, perform_shmUnlink_none turn.1 hname]⟩

theorem keeps_shmopen (name : List Byte) (h : processHolder.Keeps p₀ p
      (.descriptor handle :: .pointer pathPointer :: .pointer memory :: kept)) :
    OpenKeeps p₀ kept ((shmopen memory pathPointer name handle).run performOwn turns p) := by
  obtain ⟨hclose, hk⟩ := keeps_close (turns 0) h
  obtain ⟨reply, hunlink⟩ := @performOwn_shmUnlink (p.close handle) (turns 1) name
  rw [shmopen, ask_bind, run_call, hclose, ask_bind, run_call, hunlink]
  exact keeps_freepath _ hk

theorem keeps_openMapped (name : List Byte) (size : U64) (h : processHolder.Keeps p₀ p
      (.descriptor handle :: .pointer pathPointer :: .pointer memory :: kept)) :
    OpenKeeps p₀ kept
      ((openMapped memory pathPointer name handle size).run performOwn turns p) := by
  rw [openMapped, ask_bind, run_call]
  obtain ⟨p', hmmap, hk⟩ | ⟨address, p', hmmap, hk⟩ := keeps_mmap (turns 0) h size handle
  · rw [hmmap]
    exact keeps_shmopen _ name hk
  · rw [hmmap]
    obtain ⟨hclose, hk⟩ := keeps_close (turns 1) (hk.perm (List.Perm.swap _ _ _))
    dsimp only
    rw [ask_bind, run_call, hclose]
    exact hk

theorem keeps_openSized (name : List Byte) (size fileSize : U64) (h : processHolder.Keeps p₀ p
      (.descriptor handle :: .pointer pathPointer :: .pointer memory :: kept)) :
    OpenKeeps p₀ kept
      ((openSized memory pathPointer name handle size fileSize).run performOwn turns p) := by
  rw [openSized]
  split
  · have htruncate : (performOwn (turns 0) (.ftruncate handle size) p).2 = p := by
      simp only [performOwn, perform]
      split
      · rfl
      · split <;> rfl
    rw [ask_bind, run_call, htruncate]
    cases (performOwn (turns 0) (.ftruncate handle size) p).1 with
    | none => exact keeps_shmopen _ name h
    | some _ => exact keeps_openMapped _ name size h
  · exact keeps_openMapped turns name size h

theorem keeps_openHandle (pageSize : U64) (name : List Byte) (size : U64)
    (h : processHolder.Keeps p₀ p
      (.descriptor handle :: .pointer pathPointer :: .pointer memory :: kept)) :
    OpenKeeps p₀ kept
      ((openHandle pageSize memory pathPointer name size handle).run performOwn turns p) := by
  have hstat : (performOwn (turns 0) (.fstat handle) p).2 = p := by
    simp only [performOwn, perform]
    split <;> rfl
  rw [openHandle, ask_bind, run_call, hstat]
  exact keeps_openSized _ name _ _ h

theorem keeps_open (pageSize : U64) (path : List Byte) (size : U64)
    (h : processHolder.Keeps p₀ p kept) :
    OpenKeeps p₀ kept ((ps4NamedMemoryOpen pageSize path size).run performOwn turns p) := by
  rw [ps4NamedMemoryOpen, ask_bind, run_call]
  obtain ⟨p', hmalloc, hk⟩ | ⟨memory, p', hmalloc, hk⟩ :=
    keeps_malloc (turns 0) h sizeofPS4NamedMemory
  · rw [hmalloc]
    exact hk
  · rw [hmalloc]
    dsimp only
    rw [ask_bind, run_call]
    obtain ⟨p', hmalloc, hk⟩ | ⟨pathPointer, p', hmalloc, hk⟩ :=
      keeps_malloc (turns 1) hk (strnlen path 255 + 1)
    · rw [hmalloc]
      exact keeps_freeandreturn _ hk
    · rw [hmalloc]
      dsimp only
      rw [ask_bind, run_call]
      obtain ⟨p', hopen, hk⟩ | ⟨handle, p', hopen, hk⟩ := keeps_shmOpen (turns 2) hk path
      · rw [hopen]
        exact keeps_freepath _ hk
      · rw [hopen]
        exact keeps_openHandle _ pageSize _ size hk

theorem keeps_closeMemory (m : PS4NamedMemory)
    (h : processHolder.Keeps p₀ p (m.resources ++ kept)) :
    (((ps4NamedMemoryClose (some m)).run performOwn turns p).1 = 0) ∧
      processHolder.Keeps p₀ ((ps4NamedMemoryClose (some m)).run performOwn turns p).2 kept := by
  obtain ⟨hunmap, hk⟩ := keeps_munmap (turns 0) h
  obtain ⟨hpath, hk⟩ := keeps_free (turns 1) hk
  obtain ⟨hmemory, hk⟩ := keeps_free (turns 2) hk
  rw [ps4NamedMemoryClose, ask_bind, run_call, hunmap, ask_bind, run_call, hpath, ask_bind,
    run_call, hmemory]
  exact ⟨rfl, hk⟩

theorem keeps_unlinkMemory (m : PS4NamedMemory)
    (h : processHolder.Keeps p₀ p (m.resources ++ kept)) :
    processHolder.Keeps p₀ ((ps4NamedMemoryUnlink (some m)).run performOwn turns p).2 kept := by
  obtain ⟨reply, hunlink⟩ := @performOwn_shmUnlink p (turns 0) m.path
  obtain ⟨hunmap, hk⟩ := keeps_munmap (turns 1) h
  obtain ⟨hpath, hk⟩ := keeps_free (turns 2) hk
  obtain ⟨hmemory, hk⟩ := keeps_free (turns 3) hk
  rw [ps4NamedMemoryUnlink, ask_bind, run_call, hunlink, ps4NamedMemoryClose, ask_bind, call_bind,
    run_call, hunmap, ask_bind, call_bind, run_call, hpath, ask_bind, call_bind, run_call, hmemory]
  exact hk

end Labels

/-! ### A run -/

structure OpenRequest where
  pageSize : U64
  path : List Byte
  size : U64
  turns : Nat → Turn

structure CloseRequest where
  unlinks : Bool
  turns : Nat → Turn

def namedMemory : Provider Process PS4NamedMemory OpenRequest CloseRequest where
  acquire a p := (ps4NamedMemoryOpen a.pageSize a.path a.size).run performOwn a.turns p
  release b m p :=
    if b.unlinks then ((ps4NamedMemoryUnlink m).run performOwn b.turns p).2
    else ((ps4NamedMemoryClose m).run performOwn b.turns p).2

theorem lawful_namedMemory (p₀ : Process) :
    namedMemory.Lawful PS4NamedMemory.resources (processHolder.Keeps p₀) (fun _ => True) where
  perm h hperm := h.perm hperm
  acquire _ h := keeps_open _ _ _ _ h
  release {b m p kept} h := by
    simp only [namedMemory]
    split
    · exact keeps_unlinkMemory b.turns m h
    · exact (keeps_closeMemory b.turns m h).2
  none {b p} := by
    simp only [namedMemory]
    split <;> rfl

/--
**A process holds what its named memories are made of.**

For every process and every run of opens, closes and unlinks on the handles it has, or on
`NULL`, whatever fails in it and whatever others do to the shared memory between any two
calls: beyond what it held before, the process holds the mapping, the record and the path of
each handle that is still open, all of them different, no descriptor, and nothing else;
nothing was given back that was not its own; each of these handles is mapped at the address
and with the size it reports, and closing it succeeds.
-/
theorem namedMemory_holds_live (p₀ : Process)
    (requests : List (Request OpenRequest CloseRequest)) :
    processHolder.Keeps p₀ (namedMemory.run requests ⟨p₀, []⟩).state
        ((namedMemory.run requests ⟨p₀, []⟩).live.flatMap PS4NamedMemory.resources) ∧
      ∀ m ∈ (namedMemory.run requests ⟨p₀, []⟩).live,
        (∃ a, ps4NamedMemoryAddress (some m) = some a ∧
          (namedMemory.run requests ⟨p₀, []⟩).state.Holds
            (.mapping a (ps4NamedMemorySize (some m)).toNat)) ∧
        ∀ turns, ((ps4NamedMemoryClose (some m)).run performOwn turns
          (namedMemory.run requests ⟨p₀, []⟩).state).1 = 0 := by
  have hlawful := lawful_namedMemory p₀
  have hkeeps := @Provider.Lawful.run _ _ _ _ _ _ _ _ _ hlawful requests ⟨p₀, []⟩
    (fun _ _ => trivial) (Holder.Keeps.refl processHolder p₀)
  refine ⟨hkeeps, fun m hm => ?_⟩
  obtain ⟨n, hn, rfl⟩ := List.getElem_of_mem hm
  have hlive := hlawful.live hn hkeeps
  refine ⟨⟨_, rfl, ?_⟩, fun turns => (keeps_closeMemory turns _ hlive).1⟩
  exact hlive.holds (List.mem_append_left _ List.mem_cons_self)

end LibPS4
