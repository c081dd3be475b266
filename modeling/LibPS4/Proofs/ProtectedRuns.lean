/-
Protected memories over a whole run.

Several of them are created and destroyed in any order, by a program that may hold other
things besides.  `Proofs/ProtectedMemory.lean` says when one creation that starts with
nothing is all or nothing; here that is said beside whatever is kept already, which is what
a run needs.
-/
import LibPS4.Base.Holding
import LibPS4.Proofs.ProtectedMemory

namespace LibPS4.ProtectedMemory

open Effects Calls

/-- A creation that fails keeps nothing, and one that does not keeps what its memory stands
for. -/
def CreateKeeps (kept : List Resource) (r : Option PS4ProtectedMemory × Ledger Resource) : Prop :=
  r.2.Keeps (r.1.toList.flatMap PS4ProtectedMemory.resources ++ kept)

section Beside

variable {l : Ledger Resource} {kept : List Resource} {memory e w : Int} {size : U64}
  (choice : Nat → Reply)

theorem createKeeps_closew (h : l.Keeps (.handle w :: .handle e :: .record memory :: kept)) :
    CreateKeeps kept ((closew memory e w).run perform choice l) := by
  rw [run_closew]
  exact h.release.release.release

theorem createKeeps_createMapped
    (h : l.Keeps (.handle w :: .handle e :: .record memory :: kept)) :
    CreateKeeps kept ((createMapped memory e w size).run perform choice l) := by
  have he : Resource.handle e ∈ Resource.handle w :: .handle e :: .record memory :: kept :=
    List.mem_cons_of_mem _ List.mem_cons_self
  unfold createMapped
  rw [ask_bind, run_call]
  cases choice 0 with
  | none =>
      rw [perform_mmap_none _ _ h he]
      exact createKeeps_closew _ h
  | some executable =>
      rw [perform_mmap_some executable _ _ h he]
      simp only [ask_bind]
      rw [run_call]
      have hmapped := h.acquire (r := .mapping executable size)
      have hw : Resource.handle w ∈
          Resource.mapping executable size :: .handle w :: .handle e :: .record memory :: kept :=
        List.mem_cons_of_mem _ List.mem_cons_self
      cases choice 1 with
      | none =>
          rw [perform_mmap_none _ _ hmapped hw, run_munmape]
          exact createKeeps_closew _ hmapped.release
      | some writable =>
          rw [perform_mmap_some writable _ _ hmapped hw]
          have hboth : (l.acquire (.mapping executable size)).acquire (.mapping writable size)
              |>.Keeps (.handle e :: .handle w :: .mapping writable size ::
                .mapping executable size :: .record memory :: kept) := by
            refine hmapped.acquire.of_perm ?_
            exact List.perm_iff_count.mpr fun r => by simp only [List.count_cons]; omega
          exact hboth.release.release

theorem createKeeps_createShared {o : Outcomes} (htell : HandlesTell o e w)
    (h : l.Keeps (.record memory :: kept)) :
    CreateKeeps kept
      ((createShared memory e w size).run perform (fun n => o.choice (n + 1)) l) := by
  unfold HandlesTell at htell
  cases hcreate : o.createShared with
  | none =>
      rw [hcreate] at htell
      rw [run_createShared_none _ hcreate, afterShared, if_pos htell, run_freeandreturn]
      exact h.release
  | some e' =>
      rw [hcreate] at htell
      obtain ⟨he, htell⟩ := htell
      rw [run_createShared_some _ hcreate, afterShared, if_neg he]
      have hshared := h.acquire (r := .handle e')
      cases halias : o.createAlias with
      | none =>
          rw [halias] at htell
          rw [run_createAlias_none _ halias, afterAlias, if_pos htell, run_closee]
          exact hshared.release.release
      | some w' =>
          rw [halias] at htell
          rw [run_createAlias_some _ halias, afterAlias, if_neg htell]
          exact createKeeps_createMapped _ hshared.acquire

/-- There is nothing to tell, or the handles tell it. -/
def Tells (size : U64) (o : Outcomes) (e w : Int) : Prop :=
  size = 0 ∨ o.malloc = none ∨ HandlesTell o e w

theorem createKeeps_create {o : Outcomes} (pageSize : U64) (htell : Tells size o e w)
    (h : l.Keeps kept) :
    CreateKeeps kept ((ps4ProtectedMemoryCreate pageSize e w size).run perform o.choice l) := by
  unfold ps4ProtectedMemoryCreate
  by_cases hsize : size = 0
  · rw [if_pos hsize]
    exact h
  rw [if_neg hsize, ask_bind, run_call]
  cases hmalloc : o.malloc with
  | none =>
      rw [show o.choice 0 = none from hmalloc]
      exact h
  | some memory =>
      rw [show o.choice 0 = some memory from hmalloc]
      rcases htell with hzero | hnone | htell
      · exact absurd hzero hsize
      · rw [hmalloc] at hnone
        cases hnone
      · exact createKeeps_createShared htell h.acquire

theorem keeps_destroy (m : PS4ProtectedMemory) (h : l.Keeps (m.resources ++ kept)) :
    ((ps4ProtectedMemoryDestroy (some m)).run perform choice l).1 = 0 ∧
      ((ps4ProtectedMemoryDestroy (some m)).run perform choice l).2.Keeps kept := by
  refine ⟨?_, h.release.release.release⟩
  show Reply.int (some 0) ||| Reply.int (some 0) = 0
  decide

end Beside

/-! ### A run -/

structure CreateRequest where
  pageSize : U64
  executableHandle : Int
  writableHandle : Int
  size : U64
  outcomes : Outcomes

def CreateRequest.Tells (a : CreateRequest) : Prop :=
  ProtectedMemory.Tells a.size a.outcomes a.executableHandle a.writableHandle

def protectedMemory :
    Provider (Ledger Resource) PS4ProtectedMemory CreateRequest (Nat → Reply) where
  acquire a l :=
    (ps4ProtectedMemoryCreate a.pageSize a.executableHandle a.writableHandle a.size).run perform
      a.outcomes.choice l
  release choice m l := ((ps4ProtectedMemoryDestroy m).run perform choice l).2

/-- Beside whatever else is kept. -/
theorem lawful_protectedMemory (others : List Resource) :
    protectedMemory.Lawful PS4ProtectedMemory.resources (fun l kept => l.Keeps (kept ++ others))
      CreateRequest.Tells where
  perm h hperm := h.of_perm (hperm.append_right others)
  acquire ha h := by
    rw [List.append_assoc]
    exact createKeeps_create _ ha h
  release {choice m _ _} h := by
    rw [List.append_assoc] at h
    exact (keeps_destroy choice m h).2
  none := rfl

/--
**A program holds what its protected memories are made of.**

For every run of creates and destroys in which the handles of each create tell whether
their calls have failed, on top of a ledger that keeps anything: what is kept then is that
and, of each memory that is not destroyed yet, the two mappings and the record; no handle
stays open; nothing was used or given back that was not held; each of these memories is
mapped at the two addresses and with the size it reports, and destroying it succeeds.
-/
theorem protectedMemory_keeps_live (l : Ledger Resource) (others : List Resource)
    (requests : List (Request CreateRequest (Nat → Reply))) (hl : l.Keeps others)
    (htell : Provider.Allowed CreateRequest.Tells requests) :
    (protectedMemory.run requests ⟨l, []⟩).state.Keeps
        ((protectedMemory.run requests ⟨l, []⟩).live.flatMap PS4ProtectedMemory.resources
          ++ others) ∧
      ∀ m ∈ (protectedMemory.run requests ⟨l, []⟩).live,
        (∃ w e, ps4ProtectedMemoryWritableAddress (some m) = some w ∧
          ps4ProtectedMemoryExecutableAddress (some m) = some e ∧
          ∀ a ∈ [w, e], (protectedMemory.run requests ⟨l, []⟩).state.Holds
            (.mapping a (ps4ProtectedMemorySize (some m)))) ∧
        ∀ choice, ((ps4ProtectedMemoryDestroy (some m)).run perform choice
          (protectedMemory.run requests ⟨l, []⟩).state).1 = 0 := by
  have hlawful := lawful_protectedMemory others
  have hkeeps := @Provider.Lawful.run _ _ _ _ _ _ _ _ _ hlawful requests ⟨l, []⟩ htell hl
  refine ⟨hkeeps, fun m hm => ?_⟩
  obtain ⟨n, hn, rfl⟩ := List.getElem_of_mem hm
  have hlive := hlawful.live hn hkeeps
  rw [List.append_assoc] at hlive
  refine ⟨⟨_, _, rfl, rfl, fun a ha => ?_⟩, fun choice => (keeps_destroy choice _ hlive).1⟩
  rw [hlive.holds_iff]
  refine List.mem_append_left _ ?_
  rcases List.mem_pair.mp ha with rfl | rfl
  · exact List.mem_cons_self
  · exact List.mem_cons_of_mem _ List.mem_cons_self

/-- All calls succeed, with a record at `pointer`, the next two handles and two pages from
`address` on. -/
def plainOutcomes (pointer address : Int) : Outcomes where
  malloc := some pointer
  createShared := some (pointer + 1)
  createAlias := some (pointer + 2)
  mapExecutable := some address
  mapWritable := some (address + 0x8000)
  handles_ne := by
    rintro handle ⟨⟩ hc
    have heq := Option.some.inj hc
    omega
  addresses_ne := by
    rintro address ⟨⟩ hc
    have heq := Option.some.inj hc
    omega

theorem plainOutcomes_tells (e w : Int) {pointer address : Int} (h : 0 ≤ pointer) :
    HandlesTell (plainOutcomes pointer address) e w := by
  refine ⟨?_, ?_⟩
  · show pointer + 1 ≠ 0
    omega
  · show pointer + 2 ≠ 0
    omega

/-- Two are created, and the first of them is destroyed. -/
theorem plainOutcomes_keeps :
    (protectedMemory.run [.acquire ⟨0x4000, 0, 0, 0x100, plainOutcomes 1 0x10000⟩,
        .acquire ⟨0x4000, 0, 0, 0x5000, plainOutcomes 10 0x40000⟩, .release (fun _ => none) 1]
      ⟨Ledger.empty, []⟩).state.Keeps
      [.mapping 0x48000 0x8000, .mapping 0x40000 0x8000, .record 10] :=
  (protectedMemory_keeps_live Ledger.empty [] _ Ledger.Keeps.empty fun a ha => .inr (.inr (by
    have heq : a = ⟨0x4000, 0, 0, 0x100, plainOutcomes 1 0x10000⟩ ∨
        a = ⟨0x4000, 0, 0, 0x5000, plainOutcomes 10 0x40000⟩ := by
      simpa using ha
    rcases heq with rfl | rfl
    · exact plainOutcomes_tells 0 0 (by decide)
    · exact plainOutcomes_tells 0 0 (by decide)))).1

end LibPS4.ProtectedMemory
