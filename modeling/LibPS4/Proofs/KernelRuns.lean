/-
The statics of the kernel's image over a whole run.

Requests come one after the other, and the memory may be any other one each time.  The
image is searched for again and again until it is found once; from then on it is never
looked at again, whatever becomes of it, and every answer is given by what was found then.
Until then the statics are zero, no symbol is found, and executable memory is handed out
from address zero on.

A block is handed out by moving a pointer, so blocks are apart as long as the pointer does
not come around.  Nothing is ever given back.
-/
import LibPS4.Proofs.KernelImage

namespace LibPS4

open Effects Prog

inductive KernelRequest
  | malloc (size : U64)
  | free (addr : U64)
  | dlSym (name : U64)
  deriving DecidableEq, Repr

namespace KernelRequest

def serve : KernelRequest → PS4KernelState → ImageProg (U64 × PS4KernelState)
  | .malloc size => ps4KernelExecutableMemoryMalloc size
  | .free addr => ps4KernelExecutableMemoryFree addr
  | .dlSym name => kernelDlSym name

/-- All but `free` want the image. -/
def Looks : KernelRequest → Prop
  | .malloc _ | .dlSym _ => True
  | .free _ => False

/-- What is answered in the memory `f` from the statics `k`. -/
def Answer (f : File) (k : PS4KernelState) (v : U64) : KernelRequest → Prop
  | .malloc _ => v = k.executableAddress
  | .free _ => v = 0
  | .dlSym name => result f (kernelSymbols k.toPS4KernelStatics name) = .ok v

/-- The statics afterwards. -/
def after (k : PS4KernelState) : KernelRequest → PS4KernelState
  | .malloc size => { k with executableAddress := k.executableAddress + size }
  | .free _ | .dlSym _ => k

@[simp] theorem toPS4KernelStatics_after (k : PS4KernelState) (r : KernelRequest) :
    (r.after k).toPS4KernelStatics = k.toPS4KernelStatics := by
  cases r <;> rfl

end KernelRequest

/-- Each request comes with the memory as it is then. -/
abbrev KernelEvent := File × KernelRequest

def serveAll : PS4KernelState → List KernelEvent → Except ImageFault (List U64 × PS4KernelState)
  | k, [] => .ok ([], k)
  | k, x :: rest => do
      let (v, k) ← result x.1 (x.2.serve k)
      let (vs, k) ← serveAll k rest
      return (v :: vs, k)

/-- Every request is answered from statics that only its answers move. -/
inductive ServedFrom : PS4KernelState → List KernelEvent → List U64 → PS4KernelState → Prop
  | done (k : PS4KernelState) : ServedFrom k [] [] k
  | next {k k' : PS4KernelState} {x : KernelEvent} {rest : List KernelEvent} {v : U64}
      {vs : List U64} (hanswer : x.2.Answer x.1 k v) (hrest : ServedFrom (x.2.after k) rest vs k') :
      ServedFrom k (x :: rest) (v :: vs) k'

/-! ### One request -/

variable {f : File} {k k' : PS4KernelState} {r : KernelRequest} {v : U64}

theorem serve_of_looks (hr : r.Looks) :
    result f (r.serve k) = .ok (v, k') ↔
      ∃ k₀, result f (whenInitialized k) = .ok k₀ ∧ r.Answer f k₀ v ∧ k' = r.after k₀ := by
  cases r with
  | free addr => exact hr.elim
  | malloc size =>
      rw [KernelRequest.serve, ps4KernelExecutableMemoryMalloc, result_bind, bind_eq_ok]
      simp only [pure_eq, result_ret, Except.ok.injEq, Prod.mk.injEq]
      exact exists_congr fun k₀ => and_congr_right fun _ => and_congr eq_comm eq_comm
  | dlSym name =>
      rw [KernelRequest.serve, kernelDlSym, result_bind, bind_eq_ok]
      refine exists_congr fun k₀ => and_congr_right fun _ => ?_
      rw [result_bind, bind_eq_ok]
      simp only [result_mapFault_eq_ok, pure_eq, result_ret, Except.ok.injEq, Prod.mk.injEq]
      constructor
      · rintro ⟨a, ha, rfl, rfl⟩
        exact ⟨ha, rfl⟩
      · rintro ⟨ha, rfl⟩
        exact ⟨v, ha, rfl, rfl⟩

/-- With the statics `k₀` once the image has been looked for. -/
theorem serve_of_whenInitialized {k₀ : PS4KernelState} (h : result f (whenInitialized k) = .ok k₀)
    (hr : r.Looks) :
    result f (r.serve k) = .ok (v, k') ↔ r.Answer f k₀ v ∧ k' = r.after k₀ := by
  simp only [serve_of_looks hr, h, Except.ok.injEq, exists_eq_left']

theorem serve_of_not_looks (hr : ¬ r.Looks) :
    result f (r.serve k) = .ok (v, k') ↔ r.Answer f k v ∧ k' = r.after k := by
  cases r with
  | malloc size => exact absurd trivial hr
  | dlSym name => exact absurd trivial hr
  | free addr =>
      rw [KernelRequest.serve, ps4KernelExecutableMemoryFree, pure_eq, result_ret, Except.ok.injEq,
        Prod.mk.injEq]
      exact and_congr eq_comm eq_comm

theorem serve_initialized (hk : k.initialized = true) :
    result f (r.serve k) = .ok (v, k') ↔ r.Answer f k v ∧ k' = r.after k := by
  by_cases hr : r.Looks
  · refine serve_of_whenInitialized ?_ hr
    rw [whenInitialized, if_pos hk]
    rfl
  · exact serve_of_not_looks hr

theorem serve_unfound (hk : k.initialized = false) (h : r.Looks → Sought f none) :
    result f (r.serve k) = .ok (v, k') ↔ r.Answer f k v ∧ k' = r.after k := by
  by_cases hr : r.Looks
  · refine serve_of_whenInitialized ?_ hr
    rw [whenInitialized, hk, if_neg Bool.false_ne_true]
    exact ps4KernelInternalInitialize_unfound (h hr) k
  · exact serve_of_not_looks hr

theorem serve_found {d : U64} (hk : k.initialized = false) (hr : r.Looks) (h : Sought f (some d)) :
    result f (r.serve k) = .ok (v, k') ↔
      ∃ k₀, KernelImage f d k₀ ∧ r.Answer f k₀ v ∧ k' = r.after k₀ := by
  rw [serve_of_looks hr, whenInitialized, hk, if_neg Bool.false_ne_true]
  simp only [ps4KernelInternalInitialize_found h]

/-! ### A run -/

variable {xs : List KernelEvent} {vs : List U64}

theorem serveAll_cons_eq_ok {x : KernelEvent} :
    serveAll k (x :: xs) = .ok (vs, k') ↔ ∃ v k₁ vs', result x.1 (x.2.serve k) = .ok (v, k₁) ∧
      serveAll k₁ xs = .ok (vs', k') ∧ vs = v :: vs' := by
  rw [serveAll, bind_eq_ok]
  constructor
  · rintro ⟨⟨v, k₁⟩, hserve, hrest⟩
    obtain ⟨⟨vs', k₂⟩, hall, heq⟩ := bind_eq_ok.mp hrest
    obtain ⟨rfl, rfl⟩ := Prod.mk.inj (Except.ok.inj heq)
    exact ⟨v, k₁, vs', hserve, hall, rfl⟩
  · rintro ⟨v, k₁, vs', hserve, hall, rfl⟩
    exact ⟨(v, k₁), hserve, bind_eq_ok.mpr ⟨(vs', k'), hall, rfl⟩⟩

/-- The image is not looked at again. -/
theorem serveAll_initialized (hk : k.initialized = true) :
    serveAll k xs = .ok (vs, k') ↔ ServedFrom k xs vs k' := by
  induction xs generalizing k vs with
  | nil =>
      constructor
      · intro h
        obtain ⟨rfl, rfl⟩ := Prod.mk.inj (Except.ok.inj h)
        exact .done k
      · rintro ⟨⟩
        rfl
  | cons x xs ih =>
      have hafter : (x.2.after k).initialized = true := by
        rw [KernelRequest.toPS4KernelStatics_after, hk]
      rw [serveAll_cons_eq_ok]
      constructor
      · rintro ⟨v, k₁, vs', hserve, hall, rfl⟩
        obtain ⟨hanswer, rfl⟩ := (serve_initialized hk).mp hserve
        exact .next hanswer ((ih hafter).mp hall)
      · rintro (_ | ⟨hanswer, hrest⟩)
        exact ⟨_, _, _, (serve_initialized hk).mpr ⟨hanswer, rfl⟩, (ih hafter).mpr hrest, rfl⟩

/-- The two lives of the statics: the image is never there when it is looked for, or it is
found once, and everything from that request on is answered from what was found. -/
inductive Life : PS4KernelState → List KernelEvent → List U64 → PS4KernelState → Prop
  | unfound {k k' : PS4KernelState} {xs : List KernelEvent} {vs : List U64}
      (hnone : ∀ x ∈ xs, x.2.Looks → Sought x.1 none) (hserved : ServedFrom k xs vs k') :
      Life k xs vs k'
  | found {k k₀ k₁ k' : PS4KernelState} {before rest : List KernelEvent} {x : KernelEvent}
      {vs vs' : List U64} {d : U64}
      (hnone : ∀ x ∈ before, x.2.Looks → Sought x.1 none) (hbefore : ServedFrom k before vs k₀)
      (hlooks : x.2.Looks) (hsought : Sought x.1 (some d)) (himage : KernelImage x.1 d k₁)
      (hserved : ServedFrom k₁ (x :: rest) vs' k') :
      Life k (before ++ x :: rest) (vs ++ vs') k'

theorem Life.next {x : KernelEvent} (hnone : x.2.Looks → Sought x.1 none)
    (hanswer : x.2.Answer x.1 k v) (h : Life (x.2.after k) xs vs k') :
    Life k (x :: xs) (v :: vs) k' := by
  have hall {before : List KernelEvent} (h : ∀ y ∈ before, y.2.Looks → Sought y.1 none) :
      ∀ y ∈ x :: before, y.2.Looks → Sought y.1 none := by
    intro y hy
    rcases List.mem_cons.mp hy with rfl | hy
    · exact hnone
    · exact h y hy
  cases h with
  | unfound hrest hserved => exact .unfound (hall hrest) (.next hanswer hserved)
  | found hrest hbefore hlooks hsought himage hserved =>
      exact .found (hall hrest) (.next hanswer hbefore) hlooks hsought himage hserved

theorem life_of_serveAll (hk : k.initialized = false) (h : serveAll k xs = .ok (vs, k')) :
    Life k xs vs k' := by
  induction xs generalizing k vs with
  | nil =>
      obtain ⟨rfl, rfl⟩ := Prod.mk.inj (Except.ok.inj h)
      exact .unfound (fun x hx => absurd hx List.not_mem_nil) (.done k)
  | cons x xs ih =>
      obtain ⟨v, k₁, vs', hserve, hall, rfl⟩ := serveAll_cons_eq_ok.mp h
      obtain ⟨o, -, hsought⟩ := result_ps4KernelElfSeek x.1
      by_cases hnone : x.2.Looks → Sought x.1 none
      · obtain ⟨hanswer, rfl⟩ := (serve_unfound hk hnone).mp hserve
        have hafter : (x.2.after k).initialized = false := by
          rw [KernelRequest.toPS4KernelStatics_after, hk]
        exact (ih hafter hall).next hnone hanswer
      · obtain ⟨hlooks, hne⟩ := Classical.not_imp.mp hnone
        cases o with
        | none => exact absurd hsought hne
        | some d =>
            obtain ⟨k₀, himage, hanswer, rfl⟩ := (serve_found hk hlooks hsought).mp hserve
            have hafter : (x.2.after k₀).initialized = true := by
              rw [KernelRequest.toPS4KernelStatics_after, himage.initialized]
            show Life k ([] ++ x :: xs) ([] ++ v :: vs') k'
            exact .found (fun x hx => absurd hx List.not_mem_nil) (.done k) hlooks hsought himage
              (.next hanswer ((serveAll_initialized hafter).mp hall))

theorem ServedFrom.statics (h : ServedFrom k xs vs k') :
    k'.toPS4KernelStatics = k.toPS4KernelStatics := by
  induction h with
  | done k => rfl
  | next _ _ ih => rw [ih, KernelRequest.toPS4KernelStatics_after]

theorem serveAll_unfound {k₀ : PS4KernelState} {before : List KernelEvent} {vs' : List U64}
    (hk : k.initialized = false) (hnone : ∀ x ∈ before, x.2.Looks → Sought x.1 none)
    (h : ServedFrom k before vs k₀) (hrest : serveAll k₀ xs = .ok (vs', k')) :
    serveAll k (before ++ xs) = .ok (vs ++ vs', k') := by
  induction h with
  | done k => exact hrest
  | @next k _ x rest v vs hanswer _ ih =>
      have hafter : (x.2.after k).initialized = false := by
        rw [KernelRequest.toPS4KernelStatics_after, hk]
      have hserve := (serve_unfound hk (hnone x List.mem_cons_self)).mpr ⟨hanswer, rfl⟩
      have hall := ih hafter (fun y hy => hnone y (List.mem_cons_of_mem x hy)) hrest
      exact serveAll_cons_eq_ok.mpr ⟨v, _, _, hserve, hall, rfl⟩

theorem serveAll_of_life (hk : k.initialized = false) (h : Life k xs vs k') :
    serveAll k xs = .ok (vs, k') := by
  cases h with
  | unfound hnone hserved =>
      have hall := serveAll_unfound hk hnone hserved (serveAll.eq_1 k')
      rwa [List.append_nil, List.append_nil] at hall
  | found hnone hbefore hlooks hsought himage hserved =>
      refine serveAll_unfound hk hnone hbefore ?_
      obtain _ | ⟨hanswer, hrest⟩ := hserved
      refine serveAll_cons_eq_ok.mpr ⟨_, _, _, (serve_found ?_ hlooks hsought).mpr
        ⟨_, himage, hanswer, rfl⟩, (serveAll_initialized ?_).mpr hrest, rfl⟩
      · rw [hbefore.statics, hk]
      · rw [KernelRequest.toPS4KernelStatics_after, himage.initialized]

/--
**The image is found once.**

For every run from statics that are not initialised, and every memory at each request: the
run returns with some answers and statics exactly if they are those of a life in which the
image is never there when looked for, or in which all is answered from the statics as they
are up to the first request that finds it, and from there on from what that request found.
-/
theorem serveAll_eq_ok_iff_life (k k' : PS4KernelState) (xs : List KernelEvent) (vs : List U64)
    (hk : k.initialized = false) : serveAll k xs = .ok (vs, k') ↔ Life k xs vs k' :=
  ⟨life_of_serveAll hk, serveAll_of_life hk⟩

/-- An image at the known address, 64 bytes to load, the table, two symbols and their
strings. -/
def smallKernel : File := fun a =>
  ((⟨64, 0, 56, 2, 64, 0, 0⟩ : Header).bytes ++
    (⟨ptLoad, 5, 0, 0xffffffff80700000, 0, 64, 64, 0⟩ : Segment).bytes ++
    (⟨ptDynamic, 6, 0xb0, 0xffffffff807000b0, 0, 48, 48, 0⟩ : Segment).bytes ++
    leBytes 8 5 ++ leBytes 8 0xffffffff80700110 ++ leBytes 8 6 ++ leBytes 8 0xffffffff807000e0 ++
    leBytes 16 0 ++
    leBytes 8 0 ++ leBytes 8 1 ++ leBytes 8 0 ++ leBytes 8 2 ++ leBytes 8 2 ++ leBytes 8 0 ++
    [0x61, 0, 0x62, 0]).getD (a - 0xffffffff80700000).toNat 0

/-- Two blocks from the image and a symbol. -/
theorem smallKernel_life : Life .zero
    [(fun _ => 0, .free 16), (smallKernel, .malloc 0x40), (fun _ => 0, .malloc 0x20),
      (smallKernel, .dlSym 0xffffffff80700110)]
    [0, 0xffffffff80700000, 0xffffffff80700040, 1]
    ⟨⟨true, 0xffffffff807000e0, 0xffffffff80700110⟩, 0xffffffff80700060⟩ :=
  (serveAll_eq_ok_iff_life _ _ _ _ rfl).mp (by decide +kernel)

/-! ### Blocks -/

/-- The blocks that were handed out, by address and size. -/
def blocks : List KernelEvent → List U64 → List (U64 × U64)
  | (_, .malloc size) :: xs, v :: vs => (v, size) :: blocks xs vs
  | (_, .free _) :: xs, _ :: vs | (_, .dlSym _) :: xs, _ :: vs => blocks xs vs
  | [], _ | _ :: _, [] => []

/-- All the bytes that were asked for. -/
def allocated : List KernelEvent → Nat
  | [] => 0
  | (_, .malloc size) :: xs => size.toNat + allocated xs
  | (_, .free _) :: xs | (_, .dlSym _) :: xs => allocated xs

/-- The first ends where the second starts, or before. -/
def Before (a b : U64 × U64) : Prop := a.1.toNat + a.2.toNat ≤ b.1.toNat

/-- Between two addresses. -/
def Within (low high : Nat) (b : U64 × U64) : Prop :=
  low ≤ b.1.toNat ∧ b.1.toNat + b.2.toNat ≤ high

theorem Within.mono {low low' high : Nat} {b : U64 × U64} (h : Within low high b)
    (hlow : low' ≤ low) : Within low' high b := ⟨hlow.trans h.1, h.2⟩

/-- The blocks lie one behind the other from where the pointer is. -/
theorem ServedFrom.blocks (h : ServedFrom k xs vs k')
    (hroom : k.executableAddress.toNat + allocated xs < 2 ^ 64) :
    k'.executableAddress.toNat = k.executableAddress.toNat + allocated xs ∧
      (blocks xs vs).Pairwise Before ∧
      ∀ b ∈ LibPS4.blocks xs vs,
        Within k.executableAddress.toNat (k.executableAddress.toNat + allocated xs) b := by
  induction h with
  | done k => exact ⟨rfl, List.Pairwise.nil, fun b hb => absurd hb List.not_mem_nil⟩
  | @next k k' x rest v vs hanswer _ ih =>
      obtain ⟨f, r⟩ := x
      cases r with
      | free addr => exact ih hroom
      | dlSym name => exact ih hroom
      | malloc size =>
          simp only [allocated] at hroom
          have hpointer : (k.executableAddress + size).toNat
              = k.executableAddress.toNat + size.toNat := by
            rw [BitVec.toNat_add]
            exact Nat.mod_eq_of_lt (by omega)
          obtain rfl : v = k.executableAddress := hanswer
          simp only [KernelRequest.after] at ih
          rw [hpointer, Nat.add_assoc] at ih
          obtain ⟨hlast, hpairs, hwithin⟩ := ih hroom
          refine ⟨hlast, List.pairwise_cons.mpr ⟨fun b hb => (hwithin b hb).1, hpairs⟩, ?_⟩
          intro b hb
          rcases List.mem_cons.mp hb with rfl | hb
          · exact ⟨Nat.le_refl _, by simp only [allocated]; omega⟩
          · exact (hwithin b hb).mono (Nat.le_add_right _ _)

/--
**Blocks of executable memory are apart.**

For every run from statics that are initialised, in whatever memories: the statics stay,
and if the sizes asked for fit behind the pointer, then every block handed out lies behind
the one before and below where the pointer is in the end, over all frees and lookups.
-/
theorem serveAll_blocks (k k' : PS4KernelState) (xs : List KernelEvent) (vs : List U64)
    (hk : k.initialized = true) (h : serveAll k xs = .ok (vs, k'))
    (hroom : k.executableAddress.toNat + allocated xs < 2 ^ 64) :
    k'.toPS4KernelStatics = k.toPS4KernelStatics ∧ (blocks xs vs).Pairwise Before ∧
      ∀ b ∈ blocks xs vs, Within k.executableAddress.toNat k'.executableAddress.toNat b := by
  have hserved := (serveAll_initialized hk).mp h
  obtain ⟨hlast, hpairs, hwithin⟩ := hserved.blocks hroom
  rw [← hlast] at hwithin
  exact ⟨hserved.statics, hpairs, hwithin⟩

theorem smallKernel_blocks :
    (blocks [(smallKernel, .malloc 0x40), (smallKernel, .free 0xffffffff80700000),
        (smallKernel, .malloc 0x20)] [0xffffffff80700000, 0, 0xffffffff80700040]).Pairwise Before :=
  (serveAll_blocks ⟨⟨true, 0xffffffff807000e0, 0xffffffff80700110⟩, 0xffffffff80700000⟩
    ⟨⟨true, 0xffffffff807000e0, 0xffffffff80700110⟩, 0xffffffff80700060⟩ _ _ rfl (by decide +kernel)
    (by decide +kernel)).2.1

end LibPS4
