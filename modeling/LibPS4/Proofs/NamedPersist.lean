/-
Named memory keeps what is written to it.

`namedmemory.c` is there for memory that outlives its mapping: a process writes through a
handle, closes it, and whoever opens the name again finds what was written.  Here one
client opens, closes and writes in any order, over any number of names.  Opening never
makes an object smaller as long as `fstat` says how large it is, and a failure unlinks a
name only after `shm_open`; without these two a byte can only be changed by writing it.
-/
import LibPS4.Proofs.NamedMemory
import Mathlib.Data.List.Perm.Basic

namespace LibPS4

open Effects Calls

/-! ### Objects -/

/-- A byte of an object, up to its size. -/
def Shm.byte (shm : Shm) (o k : Nat) : Option Byte :=
  shm.objects[o]?.bind fun object => if k < object.size then some (object.contents k) else none

def ShmObject.write (k : Nat) (v : Byte) (object : ShmObject) : ShmObject :=
  ⟨object.size, Function.update object.contents k v⟩

def Shm.write (shm : Shm) (o k : Nat) (v : Byte) : Shm where
  objects := shm.objects.modify o (ShmObject.write k v)
  names := shm.names
  names_lt := by
    intro name o' h
    rw [List.length_modify]
    exact shm.names_lt name o' h

/-- A name stands for an object of its own, and a size fits in 64 bits. -/
structure Shm.Regular (shm : Shm) : Prop where
  injective : ∀ {x y o}, shm.names x = some o → shm.names y = some o → x = y
  small : ∀ o, shm.size o < 2 ^ 64

/-- Nothing is lost. -/
structure Shm.Extends (shm shm' : Shm) : Prop where
  names : ∀ {x o}, shm.names x = some o → shm'.names x = some o
  bytes : ∀ {o k b}, shm.byte o k = some b → shm'.byte o k = some b

section Objects

variable {shm shm' shm'' : Shm}

theorem Shm.Extends.refl (shm : Shm) : shm.Extends shm := ⟨id, id⟩

theorem Shm.Extends.trans (h : shm.Extends shm') (h' : shm'.Extends shm'') : shm.Extends shm'' :=
  ⟨fun hx => h'.names (h.names hx), fun hb => h'.bytes (h.bytes hb)⟩

theorem isSome_byte {o k : Nat} : (shm.byte o k).isSome = true ↔ k < shm.size o := by
  unfold Shm.byte Shm.size
  cases shm.objects[o]? with
  | none => simp
  | some object =>
      show (if k < object.size then some (object.contents k) else none).isSome = true ↔
        k < object.size
      split
      · exact iff_of_true rfl ‹_›
      · exact iff_of_false (fun h => by cases h) ‹_›

theorem Shm.Extends.size (h : shm.Extends shm') (o : Nat) : shm.size o ≤ shm'.size o := by
  by_contra hc
  obtain ⟨b, hb⟩ := Option.isSome_iff_exists.mp (isSome_byte.mpr (Nat.lt_of_not_le hc))
  have hlt := isSome_byte.mp (Option.isSome_iff_exists.mpr ⟨b, h.bytes hb⟩)
  exact Nat.lt_irrefl _ hlt

theorem extends_create {name : List Byte} (h : shm.names name = none) :
    shm.Extends (shm.create name) := by
  refine ⟨fun {x o} hx => ?_, fun {o k b} hb => ?_⟩
  · have hne : x ≠ name := fun hc => by rw [hc, h] at hx; cases hx
    exact (Function.update_of_ne hne ..).trans hx
  · have ho : o < shm.objects.length := by
      by_contra hc
      rw [Shm.byte, List.getElem?_eq_none (Nat.not_lt.mp hc)] at hb
      cases hb
    rw [← hb]
    unfold Shm.byte Shm.create
    dsimp only
    rw [List.getElem?_append_left ho]

theorem extends_attach (path : List Byte) : shm.Extends (shm.attach path).1 := by
  unfold Shm.attach
  cases h : shm.names path with
  | some o => exact Shm.Extends.refl shm
  | none => exact extends_create h

/-- An object that does not become smaller keeps its bytes. -/
theorem extends_truncate {o n : Nat} (h : shm.size o ≤ n) : shm.Extends (shm.truncate o n) := by
  refine ⟨id, fun {o' k b} hb => ?_⟩
  unfold Shm.byte Shm.truncate at *
  dsimp only
  by_cases ho : o' = o
  · subst ho
    rw [List.getElem?_modify_eq]
    cases hobject : shm.objects[o']? with
    | none =>
        rw [hobject] at hb
        cases hb
    | some object =>
        have hsize : object.size ≤ n := by
          rwa [Shm.size, hobject] at h
        rw [hobject] at hb
        simp only [Option.bind_some] at hb
        split at hb
        · have hlt : k < object.size := ‹_›
          show (if k < n then some (if k < object.size then object.contents k else 0) else none) = _
          rw [if_pos (Nat.lt_of_lt_of_le hlt hsize), if_pos hlt, hb]
        · cases hb
  · rw [List.getElem?_modify_ne _ _ (Ne.symm ho)]
    exact hb

/-- A name stands for the new object only if it is the new name. -/
theorem names_create_new {path x : List Byte}
    (h : (shm.create path).names x = some shm.objects.length) : x = path := by
  by_contra hne
  rw [show (shm.create path).names x = shm.names x from Function.update_of_ne hne ..] at h
  exact Nat.lt_irrefl _ (shm.names_lt x _ h)

theorem Shm.Regular.attach (h : shm.Regular) (path : List Byte) : (shm.attach path).1.Regular := by
  unfold Shm.attach
  cases hpath : shm.names path with
  | some o => exact h
  | none =>
      refine ⟨fun {x y o} hx hy => ?_, fun o => ?_⟩
      · by_cases ho : o = shm.objects.length
        · subst ho
          rw [names_create_new hx, names_create_new hy]
        · have hold {z : List Byte} (hz : (shm.create path).names z = some o) :
              shm.names z = some o := by
            by_cases hne : z = path
            · subst hne
              rw [show (shm.create z).names z = some _ from Function.update_self ..] at hz
              exact absurd (Option.some.inj hz).symm ho
            · rwa [show (shm.create path).names z = _ from Function.update_of_ne hne ..] at hz
          exact h.injective (hold hx) (hold hy)
      · rw [size_create]
        exact h.small o

theorem Shm.Regular.truncate (h : shm.Regular) (o : Nat) (n : U64) :
    (shm.truncate o n.toNat).Regular := by
  refine ⟨fun hx hy => h.injective hx hy, fun o' => ?_⟩
  by_cases ho : o' = o
  · subst ho
    by_cases hlt : o' < shm.objects.length
    · rw [size_truncate shm hlt]
      exact n.isLt
    · rw [Shm.size, List.getElem?_eq_none (by rw [Shm.truncate, List.length_modify]; omega)]
      decide
  · rw [size_truncate_of_ne shm ho]
    exact h.small o'

theorem size_write (o k : Nat) (v : Byte) (o' : Nat) : (shm.write o k v).size o' = shm.size o' := by
  unfold Shm.size Shm.write
  dsimp only
  by_cases ho : o' = o
  · subst ho
    rw [List.getElem?_modify_eq]
    cases shm.objects[o']? <;> rfl
  · rw [List.getElem?_modify_ne _ _ (Ne.symm ho)]

theorem byte_write_self {o k : Nat} (v : Byte) (hk : k < shm.size o) :
    (shm.write o k v).byte o k = some v := by
  unfold Shm.byte Shm.write
  unfold Shm.size at hk
  dsimp only
  rw [List.getElem?_modify_eq]
  cases hobject : shm.objects[o]? with
  | none =>
      rw [hobject] at hk
      exact absurd hk (Nat.not_lt_zero _)
  | some object =>
      rw [hobject] at hk
      have hlt : k < object.size := hk
      show (if k < object.size then some (Function.update object.contents k v k) else none) = some v
      rw [if_pos hlt, Function.update_self]

theorem byte_write_of_ne {o k o' k' : Nat} (v : Byte) (h : o' = o → k' ≠ k) :
    (shm.write o k v).byte o' k' = shm.byte o' k' := by
  unfold Shm.byte Shm.write
  dsimp only
  by_cases ho : o' = o
  · subst ho
    rw [List.getElem?_modify_eq]
    cases shm.objects[o']? with
    | none => rfl
    | some object =>
        show (if k' < object.size then some (Function.update object.contents k v k') else none) = _
        rw [Function.update_of_ne (h rfl)]
        rfl
  · rw [List.getElem?_modify_ne _ _ (Ne.symm ho)]

end Objects

/-! ### Opening -/

section Opening

variable {pageSize : U64} {path : List Byte} {size : U64} {fails : Nat → Bool} {shm : Shm}

/-- The size of the object is the one that was seen. -/
theorem toNat_seenSize (hshm : shm.Regular) (hstat : fails 3 = false) :
    (seenSize path fails shm).toNat = (shm.attach path).1.size (shm.attach path).2 := by
  unfold seenSize
  rw [hstat, if_neg Bool.false_ne_true, BitVec.toNat_ofNat,
    Nat.mod_eq_of_lt ((hshm.attach path).small _)]

theorem extends_sizedShm (hshm : shm.Regular) (hstat : fails 3 = false) :
    shm.Extends (sizedShm pageSize path size fails shm) := by
  unfold sizedShm
  split
  · have hlt : seenSize path fails shm < wantedSize pageSize path size fails shm := ‹Resized ..›.1
    refine (extends_attach path).trans (extends_truncate ?_)
    rw [← toNat_seenSize hshm hstat]
    exact Nat.le_of_lt hlt
  · exact extends_attach path

theorem regular_sizedShm (hshm : shm.Regular) :
    (sizedShm pageSize path size fails shm).Regular := by
  unfold sizedShm
  split
  · exact (hshm.attach path).truncate _ _
  · exact hshm.attach path

theorem attach_lt (path : List Byte) : (shm.attach path).2 < (shm.attach path).1.objects.length :=
  (shm.attach path).1.names_lt path _ (names_attach_self path shm)

/-- What is mapped is there. -/
theorem wantedSize_le (hshm : shm.Regular) (hstat : fails 3 = false) (h4 : fails 4 = false ∨
      ¬ wantedSize pageSize path size fails shm > seenSize path fails shm) :
    (wantedSize pageSize path size fails shm).toNat
      ≤ (sizedShm pageSize path size fails shm).size (shm.attach path).2 := by
  unfold sizedShm
  split
  · rw [size_truncate _ (attach_lt path)]
  · have hle : wantedSize pageSize path size fails shm ≤ seenSize path fails shm := by
      rcases h4 with h4 | hle
      · refine BitVec.not_lt.mp fun hlt => ‹¬ Resized ..› ⟨hlt, h4⟩
      · exact BitVec.not_lt.mp hle
    rw [← toNat_seenSize hshm hstat]
    exact hle

end Opening

/-! ### A client -/

/-- The shared memory, a process, and the handles it has open with the paths they were
opened with. -/
structure MemoryWorld where
  shm : Shm
  process : Process
  live : List (List Byte × PS4NamedMemory)

inductive MemoryEvent
  | opens (pageSize : U64) (path : List Byte) (size : U64) (fails : Nat → Bool)
  | closes (n : Nat) (fails : Nat → Bool)
  /-- Store a byte through the `n`th handle. -/
  | writes (n k : Nat) (v : Byte)

namespace MemoryWorld

/-- What the `n`th handle has mapped. -/
def mapping (w : MemoryWorld) (n : Nat) : Option Mapping :=
  w.live[n]?.bind fun x => w.process.mappings[x.2.address]?.join

def read (w : MemoryWorld) (n k : Nat) : Option Byte :=
  (w.mapping n).bind fun m => if k < m.length then w.shm.byte m.object k else none

def write (w : MemoryWorld) (n k : Nat) (v : Byte) : MemoryWorld :=
  match w.mapping n with
  | some m => if k < m.length then { w with shm := w.shm.write m.object k v } else w
  | none => w

def step (w : MemoryWorld) : MemoryEvent → MemoryWorld
  | .opens pageSize path size fails =>
      let r := openAlone pageSize path size fails w.shm w.process
      ⟨r.2.1, r.2.2, w.live ++ r.1.toList.map (path, ·)⟩
  | .closes n fails =>
      let r := (ps4NamedMemoryClose (w.live[n]?.map Prod.snd)).run performIn fails
        (w.shm, w.process)
      ⟨r.2.1, r.2.2, w.live.eraseIdx n⟩
  | .writes n k v => w.write n k v

def run (events : List MemoryEvent) (w : MemoryWorld) : MemoryWorld := events.foldl step w

/-- Every handle maps the object its path stands for, which is large enough. -/
structure Consistent (w : MemoryWorld) : Prop where
  regular : w.shm.Regular
  maps : ∀ x ∈ w.live, ∃ o, w.shm.names x.1 = some o ∧
    w.process.mappings[x.2.address]?.join = some ⟨o, x.2.size.toNat⟩ ∧
    x.2.size.toNat ≤ w.shm.size o
  distinct : (w.live.map fun x => x.2.address).Nodup

/-- `fstat` says what there is, and nothing fails after `shm_open`. -/
def Harmless (w : MemoryWorld) : MemoryEvent → Prop
  | .opens pageSize path size fails =>
      fails 3 = false ∧ ¬ FailsLate pageSize path size fails w.shm
  | .closes _ _ | .writes _ _ _ => True

/-- The byte at `k` under the name `x` is not written. -/
def Spares (x : List Byte) (k : Nat) (w : MemoryWorld) : MemoryEvent → Prop
  | .opens _ _ _ _ | .closes _ _ => True
  | .writes n k' _ => ∀ m, w.live[n]? = some (x, m) → k' ≠ k

/-- Of every event of a run, in the world it happens in. -/
def Along (P : MemoryWorld → MemoryEvent → Prop) : List MemoryEvent → MemoryWorld → Prop
  | [], _ => True
  | e :: events, w => P w e ∧ Along P events (w.step e)

end MemoryWorld

section Steps

variable {w : MemoryWorld} {n : Nat}

/-! ### One event -/

/-- An open either leaves everything as it is, or adds a handle. -/
theorem step_opens {pageSize : U64} {path : List Byte} {size : U64} {fails : Nat → Bool}
    (hw : w.Consistent) (h : w.Harmless (.opens pageSize path size fails)) :
    (∃ p', w.step (.opens pageSize path size fails) = ⟨w.shm, p', w.live⟩ ∧
        p'.mappings = w.process.mappings) ∨
      ∃ m p', w.step (.opens pageSize path size fails)
          = ⟨sizedShm pageSize path size fails w.shm, p', w.live ++ [(path, m)]⟩ ∧
        m.address = w.process.mappings.length ∧
        p'.mappings = w.process.mappings ++ [some ⟨(w.shm.attach path).2, m.size.toNat⟩] ∧
        m.size.toNat ≤ (sizedShm pageSize path size fails w.shm).size (w.shm.attach path).2 := by
  obtain ⟨hstat, hlate⟩ := h
  by_cases hearly : FailsEarly fails
  · obtain ⟨p', hopen, hsame⟩ := openAlone_early pageSize path size w.shm w.process hearly
    refine .inl ⟨p', ?_, hsame.mappings⟩
    simp only [MemoryWorld.step, hopen, Option.toList_none, List.map_nil, List.append_nil]
  · have hopen := openAlone_ok pageSize path size w.shm w.process hearly hlate
    have h4 : fails 4 = false ∨ ¬ wantedSize pageSize path size fails w.shm
        > seenSize path fails w.shm := by
      by_contra hc
      obtain ⟨h4, hgt⟩ := not_or.mp hc
      refine hlate ⟨hearly, ?_⟩
      rw [if_pos (not_not.mp hgt)]
      exact .inl (Bool.not_eq_false _ ▸ h4)
    refine .inr ⟨⟨w.process.heap.length, w.process.mappings.length,
      wantedSize pageSize path size fails w.shm, path.take 255, (w.process.heap ++ [true]).length⟩,
      w.process.mapped (w.shm.attach path).2 (wantedSize pageSize path size fails w.shm).toNat,
      ?_, rfl, rfl, wantedSize_le hw.regular hstat h4⟩
    simp only [MemoryWorld.step, hopen, Option.toList_some, List.map_cons, List.map_nil]

/-- A handle's mapping is one of the process. -/
theorem MemoryWorld.Consistent.address_lt (hw : w.Consistent) {x : List Byte × PS4NamedMemory}
    (hx : x ∈ w.live) : x.2.address < w.process.mappings.length := by
  obtain ⟨o, -, hmap, -⟩ := hw.maps x hx
  by_contra hc
  rw [List.getElem?_eq_none (Nat.not_lt.mp hc)] at hmap
  cases hmap

theorem MemoryWorld.Consistent.opens {pageSize : U64} {path : List Byte} {size : U64}
    {fails : Nat → Bool} (hw : w.Consistent) (h : w.Harmless (.opens pageSize path size fails)) :
    (w.step (.opens pageSize path size fails)).Consistent := by
  obtain ⟨p', hstep, hmappings⟩ | ⟨m, p', hstep, haddress, hmappings, hsize⟩ := step_opens hw h
  · rw [hstep]
    refine ⟨hw.regular, fun x hx => ?_, hw.distinct⟩
    rw [hmappings]
    exact hw.maps x hx
  · have hext := @extends_sizedShm pageSize path size fails w.shm hw.regular h.1
    rw [hstep]
    refine ⟨regular_sizedShm hw.regular, fun x hx => ?_, ?_⟩
    · rw [hmappings]
      rcases List.mem_append.mp hx with hx | hx
      · obtain ⟨o, hname, hmap, hle⟩ := hw.maps x hx
        refine ⟨o, hext.names hname, ?_, Nat.le_trans hle (hext.size o)⟩
        rw [List.getElem?_append_left (hw.address_lt hx)]
        exact hmap
      · obtain rfl := List.mem_singleton.mp hx
        refine ⟨(w.shm.attach path).2, ?_, ?_, hsize⟩
        · rw [names_sizedShm]
          exact names_attach_self path w.shm
        · rw [haddress, List.getElem?_concat_length]
          rfl
    · rw [List.map_append, List.nodup_append]
      refine ⟨hw.distinct, List.pairwise_singleton _ _, fun a ha b hb => ?_⟩
      obtain ⟨x, hx, rfl⟩ := List.mem_map.mp ha
      obtain rfl := List.mem_singleton.mp hb
      show x.2.address ≠ m.address
      rw [haddress]
      exact Nat.ne_of_lt (hw.address_lt hx)

/-- A close takes the handle's own mapping away and no other. -/
theorem step_closes (fails : Nat → Bool) (hw : w.Consistent) {x : List Byte × PS4NamedMemory}
    (hx : w.live[n]? = some x) : ∃ p', w.step (.closes n fails) = ⟨w.shm, p', w.live.eraseIdx n⟩ ∧
      p'.mappings = w.process.mappings.set x.2.address none := by
  obtain ⟨o, -, hmap, -⟩ := hw.maps x (List.mem_of_getElem? hx)
  have hunmap : (w.process.munmap x.2.address x.2.size).mappings
      = w.process.mappings.set x.2.address none := by
    unfold Process.munmap
    rw [hmap]
    simp only [if_true]
  refine ⟨((w.process.munmap x.2.address x.2.size).free x.2.pathPointer).free x.2.memory, ?_, ?_⟩
  · simp only [MemoryWorld.step, hx]
    rfl
  · rw [mappings_free, mappings_free, hunmap]

theorem step_closes_none (fails : Nat → Bool) (hn : w.live[n]? = none) :
    w.step (.closes n fails) = w := by
  simp only [MemoryWorld.step, hn, List.eraseIdx_of_length_le (List.getElem?_eq_none_iff.mp hn)]
  rfl

theorem MemoryWorld.Consistent.closes (hw : w.Consistent) (fails : Nat → Bool) :
    (w.step (.closes n fails)).Consistent := by
  cases hx : w.live[n]? with
  | none =>
      rw [step_closes_none fails hx]
      exact hw
  | some x =>
      obtain ⟨p', hstep, hmappings⟩ := step_closes fails hw hx
      obtain ⟨hn, rfl⟩ := List.getElem?_eq_some_iff.mp hx
      have hperm := (List.getElem_cons_eraseIdx_perm hn).symm
      have hnodup := ((hperm.map fun x => x.2.address).nodup_iff).mp hw.distinct
      rw [List.map_cons, List.nodup_cons] at hnodup
      rw [hstep]
      refine ⟨hw.regular, fun y hy => ?_, hnodup.2⟩
      obtain ⟨o, hname, hmap, hle⟩ := hw.maps y (List.mem_of_mem_eraseIdx hy)
      refine ⟨o, hname, ?_, hle⟩
      have hne : w.live[n].2.address ≠ y.2.address := by
        intro hc
        rw [hc] at hnodup
        exact hnodup.1 (List.mem_map_of_mem hy)
      rw [hmappings, List.getElem?_set_ne hne]
      exact hmap

theorem MemoryWorld.Consistent.writes (hw : w.Consistent) (k : Nat) (v : Byte) :
    (w.step (.writes n k v)).Consistent := by
  simp only [MemoryWorld.step, MemoryWorld.write]
  cases w.mapping n with
  | none => exact hw
  | some m =>
      dsimp only
      split
      · refine ⟨⟨fun hx hy => hw.regular.injective hx hy, fun o => ?_⟩, fun x hx => ?_, hw.distinct⟩
        · rw [size_write]
          exact hw.regular.small o
        · obtain ⟨o, hname, hmap, hle⟩ := hw.maps x hx
          exact ⟨o, hname, hmap, by rwa [size_write]⟩
      · exact hw

theorem MemoryWorld.Consistent.step (hw : w.Consistent) {e : MemoryEvent} (h : w.Harmless e) :
    (w.step e).Consistent := by
  cases e with
  | opens pageSize path size fails => exact hw.opens h
  | closes n fails => exact hw.closes fails
  | writes n k v => exact hw.writes k v

/-- What a handle reads is the byte under its name. -/
theorem MemoryWorld.Consistent.read (hw : w.Consistent) {x : List Byte} {m : PS4NamedMemory}
    {k o : Nat} (hn : w.live[n]? = some (x, m)) (hk : k < m.size.toNat)
    (ho : w.shm.names x = some o) :
    w.read n k = w.shm.byte o k := by
  obtain ⟨o', hname, hmap, -⟩ := hw.maps (x, m) (List.mem_of_getElem? hn)
  obtain rfl := Option.some.inj (hname.symm.trans ho)
  have hmapping : w.mapping n = some ⟨o', m.size.toNat⟩ := by
    rw [MemoryWorld.mapping, hn]
    exact hmap
  rw [MemoryWorld.read, hmapping]
  exact if_pos hk

theorem MemoryWorld.Consistent.write_self (hw : w.Consistent) {x : List Byte} {m : PS4NamedMemory}
    {k : Nat} (v : Byte) (hn : w.live[n]? = some (x, m)) (hk : k < m.size.toNat) :
    ∃ o, (w.step (.writes n k v)).shm.names x = some o ∧
      (w.step (.writes n k v)).shm.byte o k = some v := by
  obtain ⟨o, hname, hmap, hle⟩ := hw.maps (x, m) (List.mem_of_getElem? hn)
  have hmapping : w.mapping n = some ⟨o, m.size.toNat⟩ := by
    rw [MemoryWorld.mapping, hn]
    exact hmap
  have hwrite : w.step (.writes n k v) = { w with shm := w.shm.write o k v } := by
    simp only [MemoryWorld.step, MemoryWorld.write, hmapping]
    exact if_pos hk
  rw [hwrite]
  exact ⟨o, hname, byte_write_self v (Nat.lt_of_lt_of_le hk hle)⟩

/-- **One event.**  A byte that is not written stays under its name. -/
theorem MemoryWorld.Consistent.spares (hw : w.Consistent) {e : MemoryEvent} {x : List Byte}
    {k o : Nat} {b : Byte} (h : w.Harmless e) (hspares : MemoryWorld.Spares x k w e)
    (ho : w.shm.names x = some o) (hb : w.shm.byte o k = some b) :
    (w.step e).shm.names x = some o ∧ (w.step e).shm.byte o k = some b := by
  cases e with
  | opens pageSize path size fails =>
      obtain ⟨p', hstep, -⟩ | ⟨m, p', hstep, -⟩ := step_opens hw h
      · rw [hstep]
        exact ⟨ho, hb⟩
      · rw [hstep]
        have hext := @extends_sizedShm pageSize path size fails w.shm hw.regular h.1
        exact ⟨hext.names ho, hext.bytes hb⟩
  | closes n fails =>
      cases hx : w.live[n]? with
      | none =>
          rw [step_closes_none fails hx]
          exact ⟨ho, hb⟩
      | some y =>
          obtain ⟨p', hstep, -⟩ := step_closes fails hw hx
          rw [hstep]
          exact ⟨ho, hb⟩
  | writes n k' v =>
      simp only [MemoryWorld.step, MemoryWorld.write]
      cases hmapping : w.mapping n with
      | none => exact ⟨ho, hb⟩
      | some m =>
          dsimp only
          split
          · refine ⟨ho, ?_⟩
            obtain ⟨⟨y, m'⟩, hn, hmap⟩ := Option.bind_eq_some_iff.mp hmapping
            obtain ⟨o', hname, hmap', -⟩ := hw.maps (y, m') (List.mem_of_getElem? hn)
            obtain rfl := Option.some.inj (hmap.symm.trans hmap')
            rw [byte_write_of_ne v fun hoo => ?_]
            · exact hb
            · -- The same object has the same name, and its byte is spared.
              subst hoo
              obtain rfl := hw.regular.injective ho hname
              exact Ne.symm (hspares m' hn)
          · exact ⟨ho, hb⟩

/-! ### A run -/

theorem MemoryWorld.Consistent.run {events : List MemoryEvent} (hw : w.Consistent)
    (h : MemoryWorld.Along MemoryWorld.Harmless events w) : (w.run events).Consistent := by
  induction events generalizing w with
  | nil => exact hw
  | cons e events ih => exact ih (hw.step h.1) h.2

theorem MemoryWorld.Consistent.keeps {events : List MemoryEvent} {x : List Byte} {k o : Nat}
    {b : Byte} (hw : w.Consistent)
    (h : MemoryWorld.Along (fun w e => w.Harmless e ∧ MemoryWorld.Spares x k w e) events w)
    (ho : w.shm.names x = some o) (hb : w.shm.byte o k = some b) :
    (w.run events).Consistent ∧ (w.run events).shm.names x = some o ∧
      (w.run events).shm.byte o k = some b := by
  induction events generalizing w with
  | nil => exact ⟨hw, ho, hb⟩
  | cons e events ih =>
      obtain ⟨⟨hharmless, hspares⟩, hrest⟩ := h
      obtain ⟨ho, hb⟩ := hw.spares hharmless hspares ho hb
      exact ih (hw.step hharmless) hrest ho hb

end Steps

/--
**What is written to a named memory is read again.**

For every shared memory, every process and every run of opens, closes and writes: if a byte
is written through a handle of some path, then through any handle of that path that is open
later, the same or one that was opened since, and that reaches as far, that byte is read
until it is written again.  Opens may fail up to `shm_open`, but not after it, and `fstat`
does not.
-/
theorem namedMemory_persists (shm : Shm) (p : Process) (hshm : shm.Regular)
    (before after : List MemoryEvent) (n k : Nat) (v : Byte) (x : List Byte) (m : PS4NamedMemory)
    (hbefore : MemoryWorld.Along MemoryWorld.Harmless before ⟨shm, p, []⟩)
    (hn : (MemoryWorld.run before ⟨shm, p, []⟩).live[n]? = some (x, m)) (hk : k < m.size.toNat)
    (hafter : MemoryWorld.Along (fun w e => w.Harmless e ∧ MemoryWorld.Spares x k w e) after
      ((MemoryWorld.run before ⟨shm, p, []⟩).step (.writes n k v)))
    (n' : Nat) (m' : PS4NamedMemory)
    (hn' : (MemoryWorld.run (before ++ .writes n k v :: after) ⟨shm, p, []⟩).live[n']? =
      some (x, m'))
    (hk' : k < m'.size.toNat) :
    (MemoryWorld.run (before ++ .writes n k v :: after) ⟨shm, p, []⟩).read n' k = some v := by
  have hstart : MemoryWorld.Consistent ⟨shm, p, []⟩ :=
    ⟨hshm, fun x hx => absurd hx List.not_mem_nil, List.Pairwise.nil⟩
  have hw := hstart.run hbefore
  obtain ⟨o, ho, hb⟩ := hw.write_self v hn hk
  have hrun : MemoryWorld.run (before ++ .writes n k v :: after) ⟨shm, p, []⟩
      = ((MemoryWorld.run before ⟨shm, p, []⟩).step (.writes n k v)).run after := by
    rw [MemoryWorld.run, List.foldl_append]
    rfl
  rw [hrun] at hn' ⊢
  obtain ⟨hend, ho, hb⟩ := (hw.writes k v).keeps hafter ho hb
  rw [hend.read hn' hk' ho, hb]

theorem MemoryWorld.harmless_opens (w : MemoryWorld) (pageSize : U64) (path : List Byte)
    (size : U64) :
    w.Harmless (.opens pageSize path size fun _ => false) := by
  refine ⟨rfl, fun h => ?_⟩
  have hlate := h.2
  split at hlate
  · rcases hlate with hlate | hlate <;> cases hlate
  · cases hlate

theorem shmEmpty_regular : Shm.empty.Regular := by
  refine ⟨fun {x y o} h => (by cases h), fun o => ?_⟩
  rw [Shm.size, List.getElem?_eq_none (Nat.zero_le o)]
  decide

/-- Opened, written, closed and opened again. -/
theorem shmEmpty_persists :
    (MemoryWorld.run ([.opens 0x4000 [0x78] 0 fun _ => false] ++ .writes 0 3 7 ::
        [.closes 0 fun _ => false, .opens 0x4000 [0x78] 0 fun _ => false])
      ⟨Shm.empty, Process.fresh, []⟩).read 0 3 = some 7 :=
  namedMemory_persists Shm.empty Process.fresh shmEmpty_regular
    [.opens 0x4000 [0x78] 0 fun _ => false]
    [.closes 0 fun _ => false, .opens 0x4000 [0x78] 0 fun _ => false] 0 3 7
    [0x78] ⟨0, 0, 0x4000, [0x78], 1⟩ ⟨MemoryWorld.harmless_opens .., trivial⟩ rfl (by decide)
    ⟨⟨trivial, trivial⟩, ⟨MemoryWorld.harmless_opens .., trivial⟩, trivial⟩ 0
    ⟨2, 1, 0x4000, [0x78], 3⟩ rfl (by decide)

end LibPS4
