import Ipcpp.Stl.FirstFit
import Ipcpp.Stl.StrongGuarantee

/-!
# Vectors of trivially copyable elements

If the elements are bytes, the functions of `VectorSteps` are those of `Vector` and `VectorInsert`, which
return the new `vector_data` where the code assigns to it: they do the same to the pool, return the same,
and throw the same with `vector_data` as it was (`pushBack_follows` and the theorems behind it).
-/

namespace Ipcpp
namespace Stl
open Objects (Thrown)
open Prog

namespace VectorState

section
variable {α β γ δ : Type}

/-- from the pool `p` and the data `d`, `m` does what `m'` does from `p`; `out` is what `m` returns and the
data it leaves -/
def Follows (m : VectorM α) (p : Pool) (d : VecData) (m' : PoolM β) (out : β → α × VecData) : Prop :=
  m.run ⟨p, d⟩ =
    match m'.run p with
    | .ok b q => .ok (out b).1 ⟨q, (out b).2⟩
    | .throw e q => .throw (.error e) ⟨q, d⟩
    | .stuck => .stuck

variable {m : VectorM α} {p : Pool} {d : VecData} {m' : PoolM β}

theorem follows_onPool (m' : PoolM β) : Follows (onPool m') p d m' (fun b => (b, d)) := by
  unfold Follows onPool zoom
  dsimp only
  cases m'.run p with
  | ok b q => rfl
  | throw e q => rfl
  | stuck => rfl

theorem follows_pure (a : α) {b : β} {out : β → α × VecData} (h : out b = (a, d)) :
    Follows (pure a) p d (pure b) out := by
  show Outcome.ok a (⟨p, d⟩ : VectorState) = .ok (out b).1 ⟨p, (out b).2⟩
  rw [h]

theorem follows_stuck {out : β → α × VecData} (h : m.run ⟨p, d⟩ = .stuck) (h' : m'.run p = .stuck) :
    Follows m p d m' out := by
  unfold Follows
  rw [h, h']

/-- a step of `m'` that only reads the pool -/
theorem Follows.of_ok {f' : β → PoolM γ} {out : γ → α × VecData} {b : β} (h : m'.run p = .ok b p)
    (hf : Follows m p d (f' b) out) : Follows m p d (m' >>= f') out := by
  unfold Follows at hf ⊢
  rw [bind_ok h]
  exact hf

/-- a step of `m` that only reads the state -/
theorem Follows.look {f : α → VectorM γ} {out : β → γ × VecData} {a : α} (h : m.run ⟨p, d⟩ = .ok a ⟨p, d⟩)
    (hf : Follows (f a) p d m' out) : Follows (m >>= f) p d m' out := by
  unfold Follows at hf ⊢
  rw [bind_ok h]
  exact hf

/-- a step of both, which leaves the data as it is -/
theorem Follows.bind {f : α → VectorM γ} {f' : β → PoolM δ} {g : β → α} {out : δ → γ × VecData}
    (h : Follows m p d m' fun b => (g b, d))
    (hf : ∀ b q, m'.run p = .ok b q → Follows (f (g b)) q d (f' b) out) :
    Follows (m >>= f) p d (m' >>= f') out := by
  unfold Follows at h ⊢
  cases hm : m'.run p with
  | ok b q =>
    rw [hm] at h
    rw [bind_ok h, bind_ok hm]
    exact hf b q hm
  | throw e q =>
    rw [hm] at h
    rw [bind_throw h, bind_throw hm]
  | stuck =>
    rw [hm] at h
    rw [bind_stuck h, bind_stuck hm]

/-- where nothing is thrown, the data may have been changed before -/
theorem Follows.assigned {m₁ : VectorM α} {d₁ : VecData} {out : β → α × VecData}
    (h : Follows m₁ p d₁ m' out) (hrun : m.run ⟨p, d⟩ = m₁.run ⟨p, d₁⟩) (hnever : Never Set.univ m') : Follows m p d m' out := by
  unfold Follows at h ⊢
  rw [hrun, h]
  cases hm : m'.run p with
  | ok b q => rfl
  | throw e q => exact absurd (Set.mem_univ e) (hnever p e q hm)
  | stuck => rfl

/-- `m'` returns something else, and `out` knows -/
theorem Follows.map {g : β → δ} {out : δ → α × VecData} (h : Follows m p d m' fun b => out (g b)) :
    Follows m p d (m' >>= fun b => pure (g b)) out := by
  unfold Follows at h ⊢
  rw [h]
  cases hm : m'.run p with
  | ok b q => rw [bind_ok hm]; rfl
  | throw e q => rw [bind_throw hm]
  | stuck => rw [bind_stuck hm]

/-- what is not thrown here is not thrown there -/
theorem Follows.never {out : β → α × VecData} (h : ∀ p, Follows m p d m' out) (hm : Never storageErrors m) :
    Never Set.univ m' := by
  intro p e q hrun
  have hfollows := h p
  unfold Follows at hfollows
  rw [hrun] at hfollows
  exact absurd ⟨e, rfl⟩ (hm ⟨p, d⟩ _ _ hfollows)

/-- a step of both that changes the data, if nothing is thrown from then on -/
theorem Follows.bind_commit {f : α → VectorM γ} {f' : β → PoolM δ} {out₁ : β → α × VecData}
    {out : δ → γ × VecData} (h : Follows m p d m' out₁)
    (hf : ∀ b q, m'.run p = .ok b q → Follows (f (out₁ b).1) q (out₁ b).2 (f' b) out)
    (hnever : ∀ b, Never Set.univ (f' b)) : Follows (m >>= f) p d (m' >>= f') out := by
  unfold Follows at h ⊢
  cases hm : m'.run p with
  | ok b q =>
    rw [hm] at h
    rw [bind_ok h, bind_ok hm]
    refine (hf b q hm).trans ?_
    cases hrest : (f' b).run q with
    | ok c r => rfl
    | throw e r => exact absurd (Set.mem_univ e) (hnever b q e r hrest)
    | stuck => rfl
  | throw e q =>
    rw [hm] at h
    rw [bind_throw h, bind_throw hm]
  | stuck =>
    rw [hm] at h
    rw [bind_stuck h, bind_stuck hm]

end

/-! ## elements -/

section
variable {T : ElemType} {p : Pool} {d : VecData}

/-- `ctor` constructs the element that `value` reads -/
def Makes (T : ElemType) (ctor : Constructor) (value : PoolM Value) : Prop :=
  ∀ a p, (value.run p = .stuck ∧ (ctor a).run p = .stuck) ∨
    ∃ v, value.run p = .ok v p ∧ (ctor a).run p = (bytesConstructor T v a).run p

theorem makes_pure (v : Value) : Makes T (bytesConstructor T v) (pure v) := fun _ _ => .inr ⟨v, rfl, rfl⟩

theorem makes_copy (src : Nat) (n : Nat) :
    Makes T ((ElementOps.bytes T).copy (src + n * T.size)) (readElement T (some src) n) :=
  fun _ p => .inr ⟨p.memory.bytes (src + n * T.size) T.size, rfl, rfl⟩

theorem makes_move (start : Option Nat) (j : Nat) :
    Makes T (fun a => do
      let src ← Prog.ofOption start
      (ElementOps.bytes T).move (src + j * T.size) a) (readElement T start j) := by
  intro a p
  cases start with
  | none => exact .inl ⟨rfl, rfl⟩
  | some src => exact .inr ⟨p.memory.bytes (src + j * T.size) T.size, rfl, rfl⟩

theorem Makes.looks {ctor : Constructor} {value : PoolM Value} (h : Makes T ctor value) : Looks value := by
  intro p
  rcases h 0 p with ⟨hv, -⟩ | ⟨v, hv, -⟩
  · exact .inl hv
  · exact .inr ⟨v, hv⟩

theorem Makes.follows {ctor : Constructor} {value : PoolM Value} (h : Makes T ctor value)
    (ptr : Option Nat) (i : Nat) :
    Follows (constructAt T ptr i ctor) p d (do
      let v ← value
      Stl.constructAt T ptr i v) (fun b => (b, d)) := by
  cases ptr with
  | none =>
    refine follows_stuck rfl ?_
    rcases h.looks p with hv | ⟨v, hv⟩
    · exact bind_stuck hv
    · exact (bind_ok hv).trans rfl
  | some a =>
    rcases h (a + i * T.size) p with ⟨hv, hctor⟩ | ⟨v, hv, hctor⟩
    · refine follows_stuck ?_ (bind_stuck hv)
      show (onElement (ctor (a + i * T.size))).run ⟨p, d⟩ = .stuck
      unfold onElement zoom
      dsimp only
      rw [hctor]
    · refine Follows.of_ok hv ?_
      show (onElement (ctor (a + i * T.size))).run ⟨p, d⟩ = _
      unfold onElement zoom
      dsimp only
      rw [hctor]
      rfl

theorem keeps_constructAt (ptr : Option Nat) (i : Nat) (v : Value) :
    Keeps Pool.size (Stl.constructAt T ptr i v) :=
  (looks_ofOption ptr).reads.keeps.bind fun _ => keeps_modify fun _ => rfl

theorem keeps_constructLoop {value : Nat → PoolM Value} (h : ∀ j, Looks (value j)) (ptr : Option Nat)
    (i n : Nat) : Keeps Pool.size (Stl.constructLoop T ptr value i n) := by
  induction n generalizing i with
  | zero => exact (looks_pure ()).reads.keeps
  | succ n ih =>
    exact (h i).reads.keeps.bind fun v => (keeps_constructAt ptr i v).bind fun _ => ih (i + 1)

theorem never_stlConstructAt (ptr : Option Nat) (i : Nat) (v : Value) :
    Never Set.univ (Stl.constructAt T ptr i v) := (looks_ofOption ptr).never.bind fun _ => never_modify _

theorem never_stlConstructLoop {value : Nat → PoolM Value} (h : ∀ j, Looks (value j)) (ptr : Option Nat)
    (i n : Nat) : Never Set.univ (Stl.constructLoop T ptr value i n) := by
  induction n generalizing i with
  | zero => exact never_pure ()
  | succ n ih =>
    exact (h i).never.bind fun v => (never_stlConstructAt ptr i v).bind fun _ => ih (i + 1)

/-! ## the loops -/

section
variable {ctor : Nat → Constructor} {value : Nat → PoolM Value}

/-- one round of a loop -/
theorem Makes.follows_bind {c : Constructor} {v : PoolM Value} (h : Makes T c v) (ptr : Option Nat)
    (i : Nat) {β γ : Type} {f : VectorM γ} {f' : PoolM β} {out : β → γ × VecData}
    (hf : ∀ q, Follows f q d f' out) :
    Follows (constructAt T ptr i c >>= fun _ => f) p d
      (v >>= fun x => Stl.constructAt T ptr i x >>= fun _ => f') out := by
  have hround : Follows (constructAt T ptr i c >>= fun _ => f) p d
      ((v >>= fun x => Stl.constructAt T ptr i x) >>= fun _ => f') out :=
    (h.follows ptr i).bind fun _ q _ => hf q
  unfold Follows at hround ⊢
  rw [hround, Prog.bind_assoc]

theorem constructLoop_follows (h : ∀ j, Makes T (ctor j) (value j)) (ptr : Option Nat) (i n : Nat) :
    Follows (constructLoop T ptr ctor i n) p d (Stl.constructLoop T ptr value i n) (fun b => (b, d)) := by
  induction n generalizing i p with
  | zero => exact follows_pure () rfl
  | succ n ih => exact (h i).follows_bind ptr i fun q => ih (i + 1)

/-- `_m_finish` is moved step by step, or at the end -/
theorem constructEach_follows (h : ∀ j, Makes T (ctor j) (value j)) (ptr : Option Nat) (i n : Nat) :
    Follows (constructEach T ptr ctor i n) p d (Stl.constructLoop T ptr value i n)
      (fun b => (b, { d with finish := d.finish + (n * T.size : Nat) })) := by
  induction n generalizing i p d with
  | zero =>
    refine follows_pure () ?_
    simp
  | succ n ih =>
    have hlooks : ∀ j, Looks (value j) := fun j => (h j).looks
    have hdata : (fun b : Unit => (b, { d with finish := d.finish + ((n + 1) * T.size : Nat) })) =
        fun b => (b, { d with finish := d.finish + (T.size : Int) + (n * T.size : Nat) }) := by
      funext b
      rw [Nat.succ_mul]
      push_cast
      rw [Int.add_assoc, Int.add_comm (T.size : Int)]
    rw [hdata]
    refine (h i).follows_bind ptr i fun q => ?_
    -- `_m_finish` is moved behind this element, and from there behind the others
    have hrest := ih (d := { d with finish := d.finish + T.size }) (p := q) (i + 1)
    exact hrest.assigned rfl (never_stlConstructLoop hlooks ptr (i + 1) n)

end

theorem uninitializedMove_follows (srcStart srcEnd dst : Option Nat) :
    Follows (uninitializedMove T (.bytes T) srcStart srcEnd dst) p d
      (Stl.uninitializedMove T srcStart srcEnd dst) (fun b => (b, d)) := by
  refine (follows_onPool _).bind fun n q _ => ?_
  exact (constructLoop_follows (makes_move srcStart) dst 0 n).bind fun _ r _ => follows_pure _ rfl

section
variable {ops : ElementOps} (hcopy : ops.copy = (ElementOps.bytes T).copy)
include hcopy

theorem moveForward_follows (dstIt first n : Nat) :
    Follows (moveForward T ops dstIt first n) p d (Stl.moveForward T dstIt first n) (fun b => (b, d)) := by
  induction n generalizing first p with
  | zero => exact follows_pure () rfl
  | succ n ih =>
    have hmakes : Makes T (ops.copy first) (readElement T (some first) 0) := by
      have := makes_copy (T := T) first 0
      rwa [Nat.zero_mul, Nat.add_zero, ← hcopy] at this
    exact hmakes.follows_bind _ 0 fun q => ih (first + T.size)

theorem moveBackward_follows (first dstIt n : Nat) :
    Follows (moveBackward T ops first dstIt n) p d (Stl.moveBackward T first dstIt n) (fun b => (b, d)) := by
  induction n generalizing p with
  | zero => exact follows_pure () rfl
  | succ n ih => exact (hcopy ▸ makes_copy first n).follows_bind _ n fun q => ih

end

/-- an option that must not be `none` -/
theorem follows_ofOption {α β γ : Type} {x : Option α} {f : α → VectorM β} {f' : α → PoolM γ}
    {out : γ → β × VecData} (h : ∀ a, x = some a → Follows (f a) p d (f' a) out) :
    Follows (Prog.ofOption x >>= f) p d (Prog.ofOption x >>= f') out := by
  cases x with
  | none => exact follows_stuck rfl rfl
  | some a => exact h a rfl

/-- what moves elements inside of the storage copies them -/
theorem moveTo_follows {ops : ElementOps} (hcopy : ops.copy = (ElementOps.bytes T).copy)
    (first last dst : Option Nat) :
    Follows (moveTo T ops first last dst) p d (Stl.moveTo T d first last dst) (fun b => (b, d)) := by
  unfold moveTo Stl.moveTo
  split
  · exact follows_pure () rfl
  · refine follows_ofOption fun first _ => follows_ofOption fun last _ => follows_ofOption fun dst _ => ?_
    refine Follows.look (a := p.offsetToPointer d.start) rfl (Follows.of_ok (b := p) rfl ?_)
    refine follows_ofOption fun start _ => (follows_onPool _).bind fun off q _ => ?_
    dsimp only
    split
    · exact moveForward_follows hcopy _ _ _
    · exact (follows_onPool _).bind fun n r _ => moveBackward_follows hcopy _ _ _

/-! ## storage -/

theorem keeps_modifyNode (a : Nat) (f : AllocatorListNode → AllocatorListNode) :
    Keeps Pool.size (modifyNode a f) :=
  (looks_readNode a).reads.keeps.bind fun _ => keeps_modify fun _ => rfl

theorem keeps_insertNode (node : Nat) (off : Int) (size : Nat) :
    Keeps Pool.size (insertNode node off size) := by
  refine (looks_readNode node).reads.keeps.bind fun nd => (keeps_modifyNode _ _).bind fun _ => ?_
  refine (looks_deref off).reads.keeps.bind fun new => (looks_offsetOf _).reads.keeps.bind fun prev => ?_
  refine Keeps.bind (keeps_modify fun _ => rfl) fun _ => ?_
  split
  · exact (looks_deref _).reads.keeps.bind fun _ => keeps_modifyNode _ _
  · exact (looks_pure ()).reads.keeps

theorem keeps_takeNode (a bytes : Nat) : Keeps Pool.size (takeNode a bytes) := by
  refine (keeps_modifyNode a _).bind fun _ => (looks_readNode a).reads.keeps.bind fun nd => ?_
  have hsize : Keeps Pool.size (do pure (← readNode a).size : PoolM Nat) :=
    (looks_readNode a).reads.keeps.bind fun _ => (looks_pure _).reads.keeps
  split
  · refine (looks_offsetOf _).reads.keeps.bind fun off => (keeps_insertNode _ _ _).bind fun _ => ?_
    exact (keeps_modifyNode a _).bind fun _ => hsize
  · exact hsize

/-- what was returned was found, and taken -/
theorem keeps_allocate (n : Nat) : Keeps Pool.size (Stl.allocate T n) := by
  unfold Stl.allocate
  split
  · exact (looks_pure _).reads.keeps
  · have hnode : Keeps Pool.size (allocateNode (alignUp (n * T.size % 2^64))) := by
      rintro q ⟨a, size⟩ q' hrun
      exact keeps_takeNode _ _ q _ q' (allocateNode_ok hrun)
    exact hnode.bind fun _ => (looks_offsetOf _).reads.keeps.bind fun _ => (looks_pure _).reads.keeps

theorem keeps_uninitializedMove (srcStart srcEnd dst : Option Nat) :
    Keeps Pool.size (Stl.uninitializedMove T srcStart srcEnd dst) := by
  refine (looks_pointerDiff T _ _).reads.keeps.bind fun n => ?_
  refine (keeps_constructLoop (fun j => (makes_move srcStart j).looks) _ _ _).bind fun _ => ?_
  exact (looks_pure _).reads.keeps

/-- pointers depend on the size of the pool alone -/
theorem offsetToPointer_of_size {q : Pool} (h : q.size = p.size) (off : Int) :
    q.offsetToPointer off = p.offsetToPointer off := by
  unfold Pool.offsetToPointer
  rw [h]

theorem pointerDiff_any {a b : Option Nat} {n : Nat} {q r : Pool}
    (h : (pointerDiff T a b).run q = .ok n q) : (pointerDiff T a b).run r = .ok n r := by
  unfold pointerDiff at h ⊢
  split
  · exact congrArg (fun k => Outcome.ok k r) (Outcome.ok.inj h).1
  · dsimp only at h
    split
    · rename_i hok
      rw [if_pos hok] at h
      exact congrArg (fun k => Outcome.ok k r) (Outcome.ok.inj h).1
    · rename_i hno
      rw [if_neg hno] at h
      cases h
  · rename_i hn hs
    split at h
    · exact absurd rfl (hn rfl)
    · exact absurd rfl (hs _ _ rfl)
    · cases h

theorem size_of_size {q : Pool} (h : q.size = p.size) {n : Nat} (hn : (Stl.size T d).run p = .ok n p) :
    (Stl.size T d).run q = .ok n q := by
  show (pointerDiff T (q.offsetToPointer d.start) (q.offsetToPointer d.finish)).run q = .ok n q
  rw [offsetToPointer_of_size h, offsetToPointer_of_size h]
  exact pointerDiff_any hn

theorem realloc_follows {len n : Nat} {extra : VectorM Nat} {v : Value}
    (hextra : ∀ q : Pool, q.size = p.size → extra.run ⟨q, d⟩ = .ok n ⟨q, d⟩) :
    Follows (realloc T (.bytes T) len extra (bytesConstructor T v)) p d (Stl.realloc T d len n v)
      (fun e => ((), e)) := by
  refine Follows.look (a := p.offsetToPointer d.start) rfl ?_
  refine Follows.look (a := p.offsetToPointer d.finish) rfl ?_
  refine Follows.of_ok (b := p) rfl ((follows_onPool _).bind fun r q hq => ?_)
  obtain ⟨newStart, newSize⟩ := r
  have hsize : q.size = p.size := keeps_allocate len p _ q hq
  refine Follows.look (a := p.offsetToPointer newStart) ?_ ?_
  · show Outcome.ok (q.offsetToPointer newStart) (⟨q, d⟩ : VectorState) = _
    rw [offsetToPointer_of_size hsize]
  refine (uninitializedMove_follows _ _ _).bind fun newFinish q1 hq1 => ?_
  have hsize1 : q1.size = p.size := (keeps_uninitializedMove _ _ _ q _ q1 hq1).trans hsize
  refine Follows.look (hextra q1 hsize1) ?_
  refine (constructLoop_follows (fun _ => makes_pure v) _ 0 n).bind fun _ q2 _ => ?_
  refine Follows.bind (g := id) (Follows.look (a := ⟨q2, d⟩) rfl (follows_onPool _)) fun _ q3 _ => ?_
  refine (follows_onPool _).bind fun _ q4 _ => ?_
  rfl

theorem checkLength_follows (n : Nat) :
    Follows (checkLength T n) p d (Stl.checkLength T d n) (fun b => (b, d)) :=
  Follows.look (a := ⟨p, d⟩) rfl (follows_onPool _)

theorem size_follows : Follows (size T) p d (Stl.size T d) (fun b => (b, d)) :=
  Follows.look (a := ⟨p, d⟩) rfl (follows_onPool _)

theorem capacity_follows : Follows (capacity T) p d (Stl.capacity T d) (fun b => (b, d)) :=
  Follows.look (a := ⟨p, d⟩) rfl (follows_onPool _)

theorem reallocAppend_follows (v : Value) :
    Follows (reallocAppend T (.bytes T) (bytesConstructor T v)) p d (Stl.reallocAppend T d v)
      (fun e => ((), e)) :=
  (checkLength_follows 1).bind fun _ _ _ => realloc_follows fun _ _ => rfl

/-- the check has looked at the size too, and left the pool as it was -/
theorem of_checkLength_ok {n len : Nat} {q : Pool} (h : (Stl.checkLength T d n).run p = .ok len q) :
    q = p ∧ ∃ k, (Stl.size T d).run p = .ok k p := by
  have hsame := (reads_checkLength T d n).ok p len q h
  refine ⟨hsame, ?_⟩
  rcases looks_size T d p with hstuck | hok
  · have hno : (Stl.checkLength T d n).run p = .stuck :=
      (bind_ok (a := p) (t := p) rfl).trans (bind_stuck hstuck)
    rw [hno] at h
    cases h
  · exact hok

theorem reallocAppendN_follows (n : Nat) (v : Value) :
    Follows (reallocAppendN T (.bytes T) n (bytesConstructor T v)) p d (Stl.reallocAppendN T d n v)
      (fun e => ((), e)) := by
  refine (checkLength_follows n).bind fun len q hq => ?_
  obtain ⟨rfl, k, hk⟩ := of_checkLength_ok hq
  refine Follows.of_ok hk (realloc_follows fun r hr => ?_)
  -- the size is the same behind the moves
  refine (bind_ok (a := k) (t := ⟨r, d⟩) ?_).trans rfl
  exact size_follows.trans (by rw [size_of_size hr hk])

theorem uninitializedReallocN_follows (n : Nat) :
    Follows (uninitializedReallocN T (.bytes T) n) p d (Stl.uninitializedReallocN T d n)
      (fun e => ((), e)) :=
  (checkLength_follows n).bind fun _ _ _ => realloc_follows fun _ _ => rfl

theorem reallocCopy_follows (n : Nat) :
    Follows (reallocCopy T (.bytes T) n) p d (Stl.reallocCopy T d n) (fun e => ((), e)) := by
  refine Follows.look (a := ⟨p, d⟩) rfl (Follows.of_ok (b := p) rfl ?_)
  dsimp only
  split
  · rfl
  · exact realloc_follows fun _ _ => rfl

/-! ## the member functions -/

theorem reserve_follows (newCap : Nat) :
    Follows (reserve T (.bytes T) newCap) p d (Stl.reserve T d newCap) (fun e => ((), e)) := by
  refine capacity_follows.bind fun cap q _ => ?_
  split
  · exact follows_pure () rfl
  · exact reallocCopy_follows newCap

theorem shrinkToFit_follows :
    Follows (shrinkToFit T (.bytes T)) p d (Stl.shrinkToFit T d) (fun e => ((), e)) := by
  refine capacity_follows.bind fun cap q _ => size_follows.bind fun n r _ => ?_
  split
  · exact follows_pure () rfl
  · exact reallocCopy_follows n

theorem append_follows (v : Value) :
    Follows (append T (.bytes T) (bytesConstructor T v) (bytesConstructor T v)) p d (Stl.pushBack T d v)
      (fun e => ((), e)) := by
  refine Follows.look (a := ⟨p, d⟩) rfl ?_
  unfold Stl.pushBack
  split
  · refine Follows.look (a := p.offsetToPointer d.finish) rfl (Follows.of_ok (b := p) rfl ?_)
    exact ((makes_pure v).follows _ 0).bind fun _ q _ => rfl
  · exact reallocAppend_follows v

theorem pushBack_follows (v : Value) :
    Follows (pushBack T (.bytes T) (bytesConstructor T v)) p d (Stl.pushBack T d v) (fun e => ((), e)) :=
  append_follows v

theorem emplaceBack_follows (v : Value) :
    Follows (emplaceBack T (.bytes T) (bytesConstructor T v) (bytesConstructor T v)) p d
      (Stl.emplaceBack T d v) (fun e => ((), e)) := by
  refine (append_follows v).bind_commit ?_ ?_
  · exact fun e q _ => size_follows.bind fun n r _ => rfl
  · exact fun e => (looks_size T e).never.bind fun _ => never_pure e

/-- a vector that has elements has storage -/
theorem start_of_size {n : Nat} {q : Pool} (h : (Stl.size T d).run p = .ok n q) (hn : 0 < n) :
    q = p ∧ ∃ a, p.offsetToPointer d.start = some a := by
  refine ⟨(looks_size T d).reads.ok p n q h, ?_⟩
  have hdiff : (pointerDiff T (p.offsetToPointer d.start) (p.offsetToPointer d.finish)).run p = .ok n q := h
  cases hstart : p.offsetToPointer d.start with
  | some a => exact ⟨a, rfl⟩
  | none =>
    rw [hstart] at hdiff
    cases hfinish : p.offsetToPointer d.finish with
    | none =>
      rw [hfinish] at hdiff
      have hzero : 0 = n := (Outcome.ok.inj hdiff).1
      omega
    | some b =>
      rw [hfinish] at hdiff
      cases hdiff

theorem destroyLoop_bytes (a i n : Nat) :
    (destroyLoop T (.bytes T) (some a) i n).run ⟨p, d⟩ = .ok () ⟨p, d⟩ := by
  induction n generalizing i with
  | zero => rfl
  | succ n ih => exact ih (i + 1)

theorem resize_follows (count : Nat) (v : Value) :
    Follows (resize T (.bytes T) count (bytesConstructor T v)) p d (Stl.resize T d count v)
      (fun e => ((), e)) := by
  refine size_follows.bind fun n q hq => ?_
  split
  · exact follows_pure () rfl
  · split
    · rename_i hne hlt
      obtain ⟨rfl, a, ha⟩ := start_of_size hq (Nat.zero_lt_of_lt hlt)
      refine Follows.look (a := some a) (congrArg (fun x => Outcome.ok x (⟨q, d⟩ : VectorState)) ha) ?_
      exact Follows.look (a := ()) (destroyLoop_bytes a count (n - count)) rfl
    · refine capacity_follows.bind fun cap r _ => ?_
      split
      · refine Follows.look (a := r.offsetToPointer d.start) rfl (Follows.of_ok (b := r) rfl ?_)
        exact (constructLoop_follows (fun _ => makes_pure v) _ n (count - n)).bind fun _ q _ => rfl
      · exact reallocAppendN_follows count v

/-! ## `insert` -/

theorem advance_follows (ptr : Option Nat) (n : Int) :
    Follows (advance T ptr n) p d (Stl.advance T ptr n) (fun b => (b, d)) := follows_onPool _

theorem keeps_moveForward (dstIt first n : Nat) : Keeps Pool.size (Stl.moveForward T dstIt first n) := by
  induction n generalizing first with
  | zero => exact (looks_pure ()).reads.keeps
  | succ n ih =>
    refine (looks_readElement _ 0).reads.keeps.bind fun v => ?_
    exact (keeps_constructAt _ 0 v).bind fun _ => ih (first + T.size)

theorem keeps_moveBackward (first dstIt n : Nat) : Keeps Pool.size (Stl.moveBackward T first dstIt n) := by
  induction n with
  | zero => exact (looks_pure ()).reads.keeps
  | succ n ih =>
    exact (looks_readElement _ n).reads.keeps.bind fun v => (keeps_constructAt _ n v).bind fun _ => ih

theorem keeps_moveTo (first last dst : Option Nat) : Keeps Pool.size (Stl.moveTo T d first last dst) := by
  unfold Stl.moveTo
  split
  · exact (looks_pure ()).reads.keeps
  · refine (looks_ofOption first).reads.keeps.bind fun first => ?_
    refine (looks_ofOption last).reads.keeps.bind fun last => ?_
    refine (looks_ofOption dst).reads.keeps.bind fun dst => looks_get.reads.keeps.bind fun p => ?_
    refine (looks_ofOption _).reads.keeps.bind fun start => ?_
    refine (looks_distance T _ _).reads.keeps.bind fun off => ?_
    dsimp only
    split
    · exact keeps_moveForward _ _ _
    · exact (looks_distance T _ _).reads.keeps.bind fun n => keeps_moveBackward _ _ _

section
variable {ctor : Nat → Constructor} {value : Nat → PoolM Value}

theorem insertAt_follows {ops : ElementOps} (hcopy : ops.copy = (ElementOps.bytes T).copy)
    (h : ∀ j, Makes T (ctor j) (value j)) (pos : Option Nat) (offset : Int) (count : Nat) :
    Follows (insertAt T ops pos offset count ctor) p d (Stl.insertAt T d pos offset count value)
      (fun r => (r.2, r.1)) := by
  have hlooks : ∀ j, Looks (value j) := fun j => (h j).looks
  refine Follows.look (a := p.offsetToPointer d.start) rfl (Follows.of_ok (b := p) rfl ?_)
  refine (advance_follows _ _).bind fun position q hq => ?_
  obtain rfl := (looks_advance T _ _).reads.ok p position q hq
  refine Follows.look (a := q.offsetToPointer d.start) rfl (size_follows.bind fun n q1 hq1 => ?_)
  obtain rfl := (looks_size T d).reads.ok q n q1 hq1
  refine (advance_follows _ _).bind fun cend q2 hq2 => ?_
  obtain rfl := (looks_advance T _ _).reads.ok q1 cend q2 hq2
  refine (advance_follows _ _).bind fun dst q3 hq3 => ?_
  obtain rfl := (looks_advance T _ _).reads.ok q2 dst q3 hq3
  refine (moveTo_follows hcopy pos cend dst).bind fun _ q4 hq4 => ?_
  refine (constructEach_follows h position 0 count).bind_commit (fun _ q5 hq5 => ?_) fun _ =>
    (looks_advance T _ _).never.bind fun it => never_pure _
  have hsize : q5.size = q3.size :=
    (keeps_constructLoop hlooks _ _ _ q4 _ q5 hq5).trans (keeps_moveTo _ _ _ q3 _ q4 hq4)
  refine Follows.look (a := q3.offsetToPointer d.start) ?_ ((advance_follows _ _).map)
  exact congrArg (fun x => Outcome.ok x _) (offsetToPointer_of_size hsize d.start)

theorem never_stlInsertAt (h : ∀ j, Makes T (ctor j) (value j)) (pos : Option Nat) (offset : Int)
    (count : Nat) : Never Set.univ (Stl.insertAt T d pos offset count value) :=
  Follows.never (fun _ => insertAt_follows rfl h pos offset count) (never_insertAt T _ pos offset count ctor)

theorem insertFill_follows (pos : Option Nat) (count : Nat) (v : Value) :
    Follows (insertFill T (.bytes T) pos count (bytesConstructor T v)) p d (Stl.insertFill T d pos count v)
      (fun r => (r.2, r.1)) := by
  have hmakes : ∀ _ : Nat, Makes T (bytesConstructor T v) (pure v) := fun _ => makes_pure v
  refine Follows.look (a := p.offsetToPointer d.start) rfl (Follows.of_ok (b := p) rfl ?_)
  refine (follows_onPool _).bind fun offset q _ => capacity_follows.bind fun cap q1 _ => ?_
  refine size_follows.bind fun n q2 _ => ?_
  split
  · refine (uninitializedReallocN_follows count).bind_commit (fun e r _ => ?_) fun e => ?_
    · refine Follows.look (a := r.offsetToPointer e.start) rfl (Follows.of_ok (b := r) rfl ?_)
      exact (advance_follows _ _).bind fun pos r1 _ => insertAt_follows rfl hmakes pos offset count
    · refine looks_get.never.bind fun r => (looks_advance T _ _).never.bind fun pos => ?_
      exact never_stlInsertAt hmakes _ _ _
  · exact insertAt_follows rfl hmakes pos offset count

/-- the values of a range, as constructors -/
def rangeConstructor (T : ElemType) (vs : List Value) (j : Nat) : Constructor := fun a => do
  let v ← Prog.ofOption vs[j]?
  bytesConstructor T v a

theorem makes_range (vs : List Value) (j : Nat) :
    Makes T (rangeConstructor T vs j) (Prog.ofOption vs[j]?) := by
  intro a p
  unfold rangeConstructor
  cases vs[j]? with
  | none => exact .inl ⟨rfl, rfl⟩
  | some v => exact .inr ⟨v, rfl, rfl⟩

theorem insertRange_follows (pos : Option Nat) (vs : List Value) :
    Follows (insertRange T (.bytes T) pos vs.length (rangeConstructor T vs)) p d (Stl.insertRange T d pos vs)
      (fun r => (r.2, r.1)) := by
  refine Follows.look (a := p.offsetToPointer d.start) rfl (Follows.of_ok (b := p) rfl ?_)
  refine (follows_onPool _).bind fun offset q _ => capacity_follows.bind fun cap q1 _ => ?_
  refine size_follows.bind fun n q2 _ => ?_
  split
  · refine (uninitializedReallocN_follows vs.length).bind_commit (fun e r _ => ?_) fun e => ?_
    · exact insertAt_follows rfl (makes_range vs) pos offset vs.length
    · exact never_stlInsertAt (makes_range vs) _ _ _
  · exact insertAt_follows rfl (makes_range vs) pos offset vs.length

end

end

end VectorState

end Stl
end Ipcpp
