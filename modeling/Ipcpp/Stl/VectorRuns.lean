import Ipcpp.Lib.Runs
import Ipcpp.Stl.PoolInvariant
import Ipcpp.Stl.VectorOps

/-!
# Vectors that share a pool

The state is a pool, the vectors in it (of any element types; a slot of a destroyed vector stays empty)
and the blocks of other users of the pool.  An action constructs, changes or destroys a vector, or is an
allocation or deallocation of somebody else.  Actions that the compiler would reject, on a vector that
does not exist or with values of another type, are not enabled.

`Safe w a` is the condition on the state before the action under which the code does not leave the storage
of the vector.  `step_spec`: a safe action is defined; it keeps the invariant `World.Inv`, and it does to
the elements of the vectors what `listStep` does to a list for each of them, or throws and changes nothing.
-/

namespace Ipcpp
namespace Stl
open Runs

deriving instance DecidableEq for ElemType

structure Vec where
  ty : ElemType
  data : VecData

inductive Ctor where
  | empty
  | sized (n : Nat)
  | fill (n : Nat) (v : Value)
  | list (vs : List Value)

inductive Method where
  | pushBack (v : Value)
  | emplaceBack (v : Value)
  | popBack
  | reserve (newCap : Nat)
  | shrinkToFit
  | resize (count : Nat)
  | resizeFill (count : Nat) (v : Value)
  | clear

inductive Action where
  | construct (T : ElemType) (c : Ctor)
  | copy (j : Nat)
  | move (j : Nat)
  | call (k : Nat) (f : Method)
  | swap (k j : Nat)
  | moveAssign (k j : Nat)
  | destroy (k : Nat)
  | allocate (sz n : Nat)
  | deallocate (b : Block)

/-! ## constructors and methods -/

namespace Ctor

def run (T : ElemType) : Ctor → PoolM VecData
  | empty => pure {}
  | sized n => newSized T n
  | fill n v => newFill T n v
  | list vs => newList T vs

/-- the arguments are values of the type; an array has less than `2^63` bytes -/
def Typed (T : ElemType) : Ctor → Prop
  | fill _ v => v.length = T.size
  | list vs => (∀ v ∈ vs, v.length = T.size) ∧ vs.length * T.size < 2^63
  | _ => True

/-- the bytes can be counted, and rounded up, in 64 bits -/
def Safe (T : ElemType) : Ctor → Prop
  | sized n => n * T.size + 15 < 2^64
  | fill n _ => n * T.size + 15 < 2^64
  | _ => True

/-- the list that is constructed -/
def elements (T : ElemType) : Ctor → List Value
  | empty => []
  | sized n => List.replicate n T.zero
  | fill n v => List.replicate n v
  | list vs => vs

instance (T : ElemType) : (c : Ctor) → Decidable (c.Typed T)
  | fill _ v => inferInstanceAs (Decidable (v.length = T.size))
  | list vs => inferInstanceAs (Decidable ((∀ v ∈ vs, v.length = T.size) ∧ vs.length * T.size < 2^63))
  | empty => isTrue trivial
  | sized _ => isTrue trivial

instance (T : ElemType) : (c : Ctor) → Decidable (c.Safe T)
  | sized n => inferInstanceAs (Decidable (n * T.size + 15 < 2^64))
  | fill n _ => inferInstanceAs (Decidable (n * T.size + 15 < 2^64))
  | empty => isTrue trivial
  | list _ => isTrue trivial

theorem spec {T : ElemType} {p : Pool} {l : List Chunk} {rest : List Block} {c : Ctor}
    (h : PoolOk p l rest) (ht : c.Typed T) (hs : c.Safe T) : Spec T p rest (c.run T) (c.elements T) := by
  cases c with
  | empty => exact Spec.pure (o := []) h .none (contents_none p)
  | sized n => exact newSized_spec h hs
  | fill n v => exact newFill_spec h hs ht
  | list vs =>
    have := ht.2
    exact newList_spec h (by omega) ht.1

end Ctor

namespace Method

def run (T : ElemType) (d : VecData) : Method → PoolM VecData
  | pushBack v => Stl.pushBack T d v
  | emplaceBack v => Stl.emplaceBack T d v
  | popBack => Stl.popBack T d
  | reserve n => Stl.reserve T d n
  | shrinkToFit => Stl.shrinkToFit T d
  | resize n => Stl.resize T d n T.zero
  | resizeFill n v => Stl.resize T d n v
  | clear => Stl.clear d

def Typed (T : ElemType) : Method → Prop
  | pushBack v => v.length = T.size
  | emplaceBack v => v.length = T.size
  | resizeFill _ v => v.length = T.size
  | _ => True

/-- one more element fits or the storage is full, there is an element to remove, the capacity that is
computed is a number of elements -/
def Safe (T : ElemType) (d : VecData) : Method → Prop
  | pushBack _ => Fits T d
  | emplaceBack _ => Fits T d
  | popBack => d.start < d.finish
  | reserve _ => Whole T d
  | shrinkToFit => Whole T d
  | resize n => (d.finish - d.start).toNat / T.size < n → Whole T d
  | resizeFill n _ => (d.finish - d.start).toNat / T.size < n → Whole T d
  | clear => True

/-- the same on a list -/
def elements (T : ElemType) (xs : List Value) : Method → List Value
  | pushBack v => xs ++ [v]
  | emplaceBack v => xs ++ [v]
  | popBack => xs.dropLast
  | reserve _ => xs
  | shrinkToFit => xs
  | resize n => xs.take n ++ List.replicate (n - xs.length) T.zero
  | resizeFill n v => xs.take n ++ List.replicate (n - xs.length) v
  | clear => []

instance (T : ElemType) (d : VecData) : Decidable (Fits T d) := inferInstanceAs (Decidable (_ ∨ _))

instance (T : ElemType) (d : VecData) : Decidable (Whole T d) :=
  inferInstanceAs (Decidable ((T.size : Int) ∣ d.endOfStorage - d.start))

instance (T : ElemType) : (f : Method) → Decidable (f.Typed T)
  | pushBack v => inferInstanceAs (Decidable (v.length = T.size))
  | emplaceBack v => inferInstanceAs (Decidable (v.length = T.size))
  | resizeFill _ v => inferInstanceAs (Decidable (v.length = T.size))
  | popBack => isTrue trivial
  | reserve _ => isTrue trivial
  | shrinkToFit => isTrue trivial
  | resize _ => isTrue trivial
  | clear => isTrue trivial

instance (T : ElemType) (d : VecData) : (f : Method) → Decidable (f.Safe T d)
  | pushBack _ => inferInstanceAs (Decidable (Fits T d))
  | emplaceBack _ => inferInstanceAs (Decidable (Fits T d))
  | popBack => inferInstanceAs (Decidable (d.start < d.finish))
  | reserve _ => inferInstanceAs (Decidable (Whole T d))
  | shrinkToFit => inferInstanceAs (Decidable (Whole T d))
  | resize n => inferInstanceAs (Decidable ((d.finish - d.start).toNat / T.size < n → Whole T d))
  | resizeFill n _ => inferInstanceAs (Decidable ((d.finish - d.start).toNat / T.size < n → Whole T d))
  | clear => isTrue trivial

theorem count_eq {T : ElemType} {d : VecData} {o : List Block} {k : Nat} (hd : Storage T.size d o k) :
    (d.finish - d.start).toNat / T.size = k := by
  cases hd with
  | none => simp
  | @some b k hk =>
    have h1 : (((b.off + k * T.size : Nat) : Int) - (b.off : Nat)).toNat = k * T.size := by omega
    show (((b.off + k * T.size : Nat) : Int) - (b.off : Nat)).toNat / T.size = k
    rw [h1, Nat.mul_div_cancel _ T.pos]

theorem spec {T : ElemType} {p : Pool} {l : List Chunk} {rest : List Block} {d : VecData} {f : Method}
    {o : List Block} {k : Nat} (h : PoolOk p l (o ++ rest)) (hd : Storage T.size d o k) (hp : p.size < 2^64)
    (ht : f.Typed T) (hs : f.Safe T d) :
    Spec T p rest (f.run T d) (f.elements T (contents T p d)) := by
  have hlen : (contents T p d).length = k := hd.length_contents
  cases f with
  | pushBack v => exact pushBack_spec h hd hp hs ht
  | emplaceBack v => exact emplaceBack_spec h hd hp hs ht
  | popBack => exact popBack_spec h hd hs
  | reserve n => exact reserve_spec h hd hp hs n
  | shrinkToFit => exact shrinkToFit_spec h hd hp hs
  | resize n =>
    unfold elements
    rw [hlen]
    exact resize_spec h hd hp (fun hn => hs (by rw [count_eq hd]; exact hn)) T.zero_length
  | resizeFill n v =>
    unfold elements
    rw [hlen]
    exact resize_spec h hd hp (fun hn => hs (by rw [count_eq hd]; exact hn)) ht
  | clear => exact clear_spec h hd

end Method

/-! ## the system -/

structure World where
  pool : Pool
  vecs : List (Option Vec)
  /-- the blocks of other users of the pool -/
  others : List Block
  /-- the vector that the last action was about -/
  last : Nat
  /-- what the last action has thrown -/
  thrown : Option Error

namespace World
variable (w : World)

def init (size : Nat) : World := ⟨Pool.new size, [], [], 0, none⟩

/-- the vector in slot `k` -/
def vec (k : Nat) : Option Vec := w.vecs[k]?.join

/-- the state after a call, `f` if it returns -/
def after {α : Type} (f : α → World → World) : Prog.Outcome Error Pool α → Option World
  | .ok a p => some (f a { w with pool := p, thrown := none })
  | .throw e p => some { w with pool := p, thrown := some e }
  | .stuck => none

/-- a new slot -/
def append (T : ElemType) (d : VecData) : World :=
  { w with vecs := w.vecs ++ [some ⟨T, d⟩], last := w.vecs.length }

/-- slot `k` gets the data `d` -/
def assign (k : Nat) (T : ElemType) (d : VecData) : World :=
  { w with vecs := w.vecs.set k (some ⟨T, d⟩), last := k }

/-- exchange the data of two vectors -/
def exchange (k j : Nat) : Option World := do
  let v ← w.vec k
  let u ← w.vec j
  if v.ty = u.ty then
    let (d, e) := swapData v.data u.data
    w.after (fun _ w => (w.assign k v.ty d).assign j v.ty e) (.ok () w.pool.fresh)
  else none

def step (w : World) : Action → Option World
  | .construct T c =>
    if c.Typed T then w.after (fun d w => w.append T d) ((c.run T).run w.pool.fresh) else none
  | .copy j => (w.vec j).bind fun v =>
    w.after (fun d w => w.append v.ty d) ((newCopy v.ty v.data).run w.pool.fresh)
  | .move j => (w.vec j).bind fun v =>
    let (d, e) := moveData v.data
    w.after (fun _ w => (w.assign j v.ty e).append v.ty d) (.ok () w.pool.fresh)
  | .call k f => (w.vec k).bind fun v =>
    if f.Typed v.ty then w.after (fun d w => w.assign k v.ty d) ((f.run v.ty v.data).run w.pool.fresh)
    else none
  | .swap k j => w.exchange k j
  | .moveAssign k j => w.exchange k j
  | .destroy k => (w.vec k).bind fun v =>
    w.after (fun _ w => { w with vecs := w.vecs.set k none, last := k })
      ((destroy v.ty v.data).run w.pool.fresh)
  | .allocate sz n =>
    w.after (fun r w => { w with others := ⟨r.1.toNat, r.2⟩ :: w.others })
      ((allocateAtLeastOffset sz n).run w.pool.fresh)
  | .deallocate b =>
    if b ∈ w.others then
      w.after (fun _ w => { w with others := w.others.erase b }) ((deallocate b.off).run w.pool.fresh)
    else none

/-- what the compiler accepts, on vectors that exist and blocks that are live -/
def Allowed : Action → Prop
  | .construct T c => c.Typed T
  | .copy j => ∃ v, w.vec j = some v
  | .move j => ∃ v, w.vec j = some v
  | .call k f => ∃ v, w.vec k = some v ∧ f.Typed v.ty
  | .swap k j => ∃ v u, w.vec k = some v ∧ w.vec j = some u ∧ v.ty = u.ty
  | .moveAssign k j => ∃ v u, w.vec k = some v ∧ w.vec j = some u ∧ v.ty = u.ty
  | .destroy k => ∃ v, w.vec k = some v
  | .allocate _ _ => True
  | .deallocate b => b ∈ w.others

/-- the condition on a vector, if there is one in slot `k` -/
def On (k : Nat) (P : Vec → Prop) : Prop := ∀ v, w.vec k = some v → P v

def Safe : Action → Prop
  | .construct T c => c.Safe T
  | .call k f => w.On k fun v => f.Safe v.ty v.data
  | .destroy k => w.On k fun v => Whole v.ty v.data
  | _ => True

end World

/-- a list for each vector, with its element type -/
abbrev Lists := List (Option (ElemType × List Value))

/-- the actions on lists -/
def listStep (m : Lists) : Action → Lists
  | .construct T c => m ++ [some (T, c.elements T)]
  | .copy j => m ++ [m[j]?.join]
  | .move j => m.set j (m[j]?.join.map fun x => (x.1, [])) ++ [m[j]?.join]
  | .call k f => m.set k (m[k]?.join.map fun x => (x.1, f.elements x.1 x.2))
  | .swap k j => (m.set k m[j]?.join).set j m[k]?.join
  | .moveAssign k j => (m.set k m[j]?.join).set j m[k]?.join
  | .destroy k => m.set k none
  | .allocate _ _ => m
  | .deallocate _ => m

/-! ## blocks and elements of all vectors -/

def ownOpt : Option Vec → List Block
  | none => []
  | some v => own v.data

/-- the blocks of the vectors -/
def owned (vs : List (Option Vec)) : List Block := vs.flatMap ownOpt

/-- the elements of a vector -/
def Vec.view (p : Pool) (v : Vec) : ElemType × List Value := (v.ty, contents v.ty p v.data)

def view (p : Pool) (vs : List (Option Vec)) : Lists := vs.map (Option.map (Vec.view p))

/-- every vector has its elements at the front of its block -/
def AllStored (vs : List (Option Vec)) : Prop :=
  ∀ v, some v ∈ vs → ∃ k, Storage v.ty.size v.data (own v.data) k

theorem owned_set {vs : List (Option Vec)} {k : Nat} {x : Option Vec} (hx : vs[k]? = some x)
    (y : Option Vec) : (ownOpt x ++ owned (vs.set k y)).Perm (ownOpt y ++ owned vs) := by
  induction vs generalizing k with
  | nil => simp at hx
  | cons z vs ih =>
    cases k with
    | zero =>
      obtain rfl : z = x := by simpa using hx
      exact List.perm_append_comm_assoc _ _ _
    | succ k =>
      have hx' : vs[k]? = some x := by simpa using hx
      calc (ownOpt x ++ (ownOpt z ++ owned (vs.set k y))).Perm
            (ownOpt z ++ (ownOpt x ++ owned (vs.set k y))) := List.perm_append_comm_assoc _ _ _
        _ |>.Perm (ownOpt z ++ (ownOpt y ++ owned vs)) := (ih hx').append_left _
        _ |>.Perm (ownOpt y ++ (ownOpt z ++ owned vs)) := List.perm_append_comm_assoc _ _ _

theorem owned_append (vs vs' : List (Option Vec)) : owned (vs ++ vs') = owned vs ++ owned vs' := by
  simp [owned]

theorem own_subset_owned {vs : List (Option Vec)} {v : Vec} (hv : some v ∈ vs) {b : Block}
    (hb : b ∈ own v.data) : b ∈ owned vs :=
  List.mem_flatMap.mpr ⟨some v, hv, hb⟩

theorem Storage.contents_kept {T : ElemType} {p p' : Pool} {d : VecData} {o : List Block} {k : Nat}
    (hd : Storage T.size d o k) (h : Kept p p' o) : contents T p' d = contents T p d := by
  cases hd with
  | none => rw [contents_none, contents_none]
  | some hk => rw [contents_stored, contents_stored, h.cells List.mem_cons_self hk]

theorem view_congr {p p' : Pool} {vs : List (Option Vec)} (hs : AllStored vs)
    (h : Kept p p' (owned vs)) : view p' vs = view p vs := by
  refine List.map_congr_left fun x hx => ?_
  cases x with
  | none => rfl
  | some v =>
    obtain ⟨k, hk⟩ := hs v hx
    show some (v.ty, contents v.ty p' v.data) = some (v.ty, contents v.ty p v.data)
    rw [hk.contents_kept (h.mono fun b hb => own_subset_owned hx hb)]

theorem view_get (p : Pool) (vs : List (Option Vec)) (k : Nat) :
    (view p vs)[k]?.join = vs[k]?.join.map (Vec.view p) := by
  unfold view
  rw [List.getElem?_map]
  cases vs[k]? <;> rfl

theorem view_append (p : Pool) (vs : List (Option Vec)) (v : Vec) :
    view p (vs ++ [some v]) = view p vs ++ [some (v.view p)] := List.map_append

theorem view_set (p : Pool) (vs : List (Option Vec)) (k : Nat) (x : Option Vec) :
    view p (vs.set k x) = (view p vs).set k (x.map (Vec.view p)) := List.map_set

theorem AllStored.set {vs : List (Option Vec)} (h : AllStored vs) (k : Nat) {x : Option Vec}
    (hx : ∀ v, x = some v → ∃ n, Storage v.ty.size v.data (own v.data) n) : AllStored (vs.set k x) := by
  intro v hv
  rcases List.mem_or_eq_of_mem_set hv with hv | hv
  · exact h v hv
  · exact hx v hv.symm

theorem AllStored.append {vs : List (Option Vec)} (h : AllStored vs) {v : Vec}
    (hv : ∃ n, Storage v.ty.size v.data (own v.data) n) : AllStored (vs ++ [some v]) := by
  intro u hu
  rcases List.mem_append.mp hu with hu | hu
  · exact h u hu
  · obtain rfl : u = v := Option.some.inj (List.mem_singleton.mp hu)
    exact hv

/-! ## the invariant -/

/-- the bytes `e` are in the block of `v` -/
def Vec.Holds (v : Vec) (e : Nat × Nat) : Prop := ∃ b ∈ own v.data, b.off ≤ e.1 ∧ e.1 + e.2 ≤ b.off + b.size

namespace World

structure Inv (size : Nat) (w : World) : Prop where
  size : w.pool.size = size
  ok : ∃ l, PoolOk w.pool l (owned w.vecs ++ w.others)
  stored : AllStored w.vecs
  written : ∀ e ∈ w.pool.elements, ∃ v, w.vec w.last = some v ∧ v.Holds e

/-- what is known of the state after an action -/
structure Stepped (size : Nat) (w : World) (a : Action) (w' : World) : Prop where
  inv : Inv size w'
  returned : w'.thrown = none → view w'.pool w'.vecs = listStep (view w.pool w.vecs) a
  failed : w'.thrown ≠ none → view w'.pool w'.vecs = view w.pool w.vecs

variable {w : World} {size k j : Nat} {v : Vec}

theorem init_inv (h : headerSize + nodeSize ≤ size) : Inv size (init size) :=
  ⟨rfl, ⟨_, Pool.new_ok h⟩, fun _ hv => (List.not_mem_nil hv).elim, fun _ he => (List.not_mem_nil he).elim⟩

theorem getElem_of_vec (h : w.vec k = some v) : w.vecs[k]? = some (some v) := by
  unfold vec at h
  rcases hx : w.vecs[k]? with _ | x
  · rw [hx] at h
    cases h
  · rw [hx] at h
    exact congrArg some h

theorem Inv.vec_stored (h : Inv size w) (hv : w.vec k = some v) :
    ∃ n, Storage v.ty.size v.data (own v.data) n :=
  h.stored v (List.mem_of_getElem? (getElem_of_vec hv))

theorem lt_of_vec (h : w.vec k = some v) : k < w.vecs.length :=
  (List.getElem?_eq_some_iff.mp (getElem_of_vec h)).1

/-- everything that is live except for the storage of slot `k` -/
def restOf (w : World) (k : Nat) : List Block := owned (w.vecs.set k none) ++ w.others

theorem restOf_perm (hv : w.vec k = some v) :
    (own v.data ++ w.restOf k).Perm (owned w.vecs ++ w.others) := by
  rw [restOf, ← List.append_assoc]
  exact (owned_set (getElem_of_vec hv) none).append_right _

theorem Inv.split (h : Inv size w) (hv : w.vec k = some v) :
    ∃ l, PoolOk w.pool.fresh l (own v.data ++ w.restOf k) := by
  obtain ⟨l, hl⟩ := h.ok
  exact ⟨l, (Pool.fresh_ok hl).perm (restOf_perm hv).symm⟩

theorem view_vec (hv : w.vec k = some v) : (view w.pool w.vecs)[k]?.join = some (v.view w.pool) := by
  rw [view_get]
  exact congrArg (Option.map _) hv

/-- the action throws: nothing has changed -/
theorem Inv.throw (h : Inv size w) (a : Action) (e : Error) :
    Stepped size w a { w with pool := w.pool.fresh, thrown := some e } := by
  obtain ⟨l, hl⟩ := h.ok
  refine ⟨⟨h.size, ⟨l, Pool.fresh_ok hl⟩, h.stored, fun x hx => by cases hx⟩, ?_, fun _ => rfl⟩
  intro hnone
  cases hnone

theorem written_last {T : ElemType} {p p' : Pool} {rest : List Block} {d : VecData} {xs : List Value}
    (h : After T p.fresh rest p' d xs) : ∀ e ∈ p'.elements, (Vec.mk T d).Holds e := by
  obtain ⟨es, hes, hin⟩ := h.written
  intro e he
  have he' : e ∈ es := by
    rw [hes] at he
    simpa [Pool.fresh] using he
  exact hin e he'

/-- a vector gets new data -/
theorem Inv.assign (h : Inv size w) (hv : w.vec k = some v) {p' : Pool} {d : VecData} {xs : List Value}
    (ha : After v.ty w.pool.fresh (w.restOf k) p' d xs) :
    Inv size (World.assign { w with pool := p', thrown := none } k v.ty d) ∧
      view p' (w.vecs.set k (some ⟨v.ty, d⟩)) = (view w.pool w.vecs).set k (some (v.ty, xs)) := by
  have hk := lt_of_vec hv
  obtain ⟨l, hl⟩ := ha.ok
  have hset : (w.vecs.set k none).set k (some ⟨v.ty, d⟩) = w.vecs.set k (some ⟨v.ty, d⟩) := List.set_set ..
  have hget : (w.vecs.set k none)[k]? = some none := List.getElem?_set_self hk
  refine ⟨⟨ha.size.trans h.size, ⟨l, hl.perm ?_⟩, ?_, fun e he => ⟨⟨v.ty, d⟩, ?_, written_last ha e he⟩⟩, ?_⟩
  · have hperm := owned_set hget (some ⟨v.ty, d⟩)
    rw [hset] at hperm
    show (own d ++ (owned (w.vecs.set k none) ++ w.others)).Perm
      (owned (w.vecs.set k (some ⟨v.ty, d⟩)) ++ w.others)
    rw [← List.append_assoc]
    exact hperm.symm.append_right _
  · exact h.stored.set k fun u hu => by
      obtain rfl := Option.some.inj hu
      exact ha.stored
  · show (w.vecs.set k (some ⟨v.ty, d⟩))[k]?.join = _
    rw [List.getElem?_set_self hk]
    rfl
  · have hrest : view p' (w.vecs.set k none) = view w.pool (w.vecs.set k none) :=
      view_congr (h.stored.set k fun u hu => by cases hu)
        (ha.kept.mono fun b hb => List.mem_append_left _ hb)
    rw [← hset, view_set, hrest, view_set, List.set_set]
    show (view w.pool w.vecs).set k (some (v.ty, contents v.ty p' d)) = _
    rw [ha.contents]

/-- a new vector -/
theorem Inv.append (h : Inv size w) {T : ElemType} {p' : Pool} {d : VecData} {xs : List Value}
    (ha : After T w.pool.fresh (owned w.vecs ++ w.others) p' d xs) :
    Inv size (World.append { w with pool := p', thrown := none } T d) ∧
      view p' (w.vecs ++ [some ⟨T, d⟩]) = view w.pool w.vecs ++ [some (T, xs)] := by
  obtain ⟨l, hl⟩ := ha.ok
  refine ⟨⟨ha.size.trans h.size, ⟨l, hl.perm ?_⟩, h.stored.append ha.stored,
    fun e he => ⟨⟨T, d⟩, ?_, written_last ha e he⟩⟩, ?_⟩
  · show (own d ++ (owned w.vecs ++ w.others)).Perm (owned (w.vecs ++ [some ⟨T, d⟩]) ++ w.others)
    rw [owned_append, List.append_assoc]
    have hnew : owned [some (Vec.mk T d)] = own d := List.append_nil _
    rw [hnew]
    exact List.perm_append_comm_assoc _ _ _
  · show (w.vecs ++ [some (Vec.mk T d)])[w.vecs.length]?.join = _
    rw [List.getElem?_concat_length]
    rfl
  · have hold : view p' w.vecs = view w.pool w.vecs :=
      view_congr h.stored (ha.kept.mono fun b hb => List.mem_append_left _ hb)
    rw [view_append, hold]
    show _ ++ [some (T, contents T p' d)] = _
    rw [ha.contents]

/-- a call that constructs a vector -/
theorem Inv.append_after (h : Inv size w) {T : ElemType} {m : PoolM VecData} {xs : List Value}
    (hspec : Spec T w.pool.fresh (owned w.vecs ++ w.others) m xs) {a : Action}
    (ha : listStep (view w.pool w.vecs) a = view w.pool w.vecs ++ [some (T, xs)]) :
    ∃ w', w.after (fun d w => w.append T d) (m.run w.pool.fresh) = some w' ∧ Stepped size w a w' := by
  rcases hspec with ⟨d, p', hrun, hafter⟩ | ⟨e, hrun⟩
  · obtain ⟨hinv, hview⟩ := h.append hafter
    rw [hrun]
    exact ⟨_, rfl, hinv, fun _ => hview.trans ha.symm, fun hne => (hne rfl).elim⟩
  · rw [hrun]
    exact ⟨_, rfl, h.throw _ e⟩

/-- a call that changes the vector in slot `k` -/
theorem Inv.assign_after (h : Inv size w) (hv : w.vec k = some v) {m : PoolM VecData} {xs : List Value}
    (hspec : Spec v.ty w.pool.fresh (w.restOf k) m xs) {a : Action}
    (ha : listStep (view w.pool w.vecs) a = (view w.pool w.vecs).set k (some (v.ty, xs))) :
    ∃ w', w.after (fun d w => w.assign k v.ty d) (m.run w.pool.fresh) = some w' ∧ Stepped size w a w' := by
  rcases hspec with ⟨d, p', hrun, hafter⟩ | ⟨e, hrun⟩
  · obtain ⟨hinv, hview⟩ := h.assign hv hafter
    rw [hrun]
    exact ⟨_, rfl, hinv, fun _ => hview.trans ha.symm, fun hne => (hne rfl).elim⟩
  · rw [hrun]
    exact ⟨_, rfl, h.throw _ e⟩

/-! ## one action -/

section
variable (h : Inv size w) (hp : size < 2^64)
include h

theorem construct_spec {T : ElemType} {c : Ctor} (ht : c.Typed T) (hs : c.Safe T) :
    ∃ w', w.step (.construct T c) = some w' ∧ Stepped size w (.construct T c) w' := by
  have hstep : w.step (.construct T c)
      = w.after (fun d w => w.append T d) ((c.run T).run w.pool.fresh) := if_pos ht
  obtain ⟨l, hl⟩ := h.ok
  rw [hstep]
  exact h.append_after (Ctor.spec (Pool.fresh_ok hl) ht hs) rfl

theorem deallocate_other {b : Block} (hb : b ∈ w.others) :
    ∃ w', w.step (.deallocate b) = some w' ∧ Stepped size w (.deallocate b) w' := by
  have hstep : w.step (.deallocate b) = w.after (fun _ w => { w with others := w.others.erase b })
      ((deallocate b.off).run w.pool.fresh) := if_pos hb
  obtain ⟨l, hl⟩ := h.ok
  have hperm : (owned w.vecs ++ w.others).Perm (b :: (owned w.vecs ++ w.others.erase b)) :=
    ((List.perm_cons_erase hb).append_left _).trans List.perm_middle
  have hl' := (Pool.fresh_ok hl).perm hperm
  obtain ⟨p', l', hs, hrun, hframe, hw, hok⟩ := dealloc_spec hl' List.mem_cons_self
  rw [List.erase_cons_head] at hok
  have hkept : Kept _ _ (owned w.vecs) := (hframe.kept hl' hw).mono
    fun c hc => List.mem_cons_of_mem _ (List.mem_append_left _ hc)
  rw [hstep, hrun]
  refine ⟨_, rfl, ⟨hframe.size.trans h.size, ⟨l', hok⟩, h.stored, fun e he => ?_⟩,
    fun _ => view_congr h.stored hkept, fun hne => (hne rfl).elim⟩
  have he' : e ∈ p'.elements := he
  rw [hframe.elements] at he'
  cases he'

theorem allocate_other (sz n : Nat) :
    ∃ w', w.step (.allocate sz n) = some w' ∧ Stepped size w (.allocate sz n) w' := by
  have hstep : w.step (.allocate sz n)
      = w.after (fun r w => { w with others := ⟨r.1.toNat, r.2⟩ :: w.others })
        ((allocateFromList (alignUp (n * sz % 2^64))).run w.pool.fresh) := rfl
  obtain ⟨l, hl⟩ := h.ok
  rw [hstep]
  rcases alloc_spec (Pool.fresh_ok hl) (dvd_alignUp (n * sz % 2^64)) with
    ⟨a, bytes, p', l', hs, hrun, -, hframe, hw, hok⟩ | hrun
  · have hkept : Kept _ _ (owned w.vecs) := (hframe.kept hok hw).mono
      fun c hc => List.mem_cons_of_mem _ (List.mem_append_left _ hc)
    have hoff : ((a : Int) + nodeSize).toNat = a + nodeSize := by omega
    rw [allocateFromList_ok hrun hok]
    refine ⟨_, rfl, ⟨hframe.size.trans h.size, ⟨l', hok.perm ?_⟩, h.stored, fun e he => ?_⟩,
      fun _ => view_congr h.stored hkept, fun hne => (hne rfl).elim⟩
    · show (_ :: (owned w.vecs ++ w.others)).Perm
        (owned w.vecs ++ ⟨((a : Int) + nodeSize).toNat, bytes⟩ :: w.others)
      rw [hoff]
      exact List.perm_middle.symm
    · have he' : e ∈ p'.elements := he
      rw [hframe.elements] at he'
      cases he'
  · have hthrow : (allocateFromList (alignUp (n * sz % 2^64))).run w.pool.fresh
        = .throw .badAlloc w.pool.fresh := Prog.bind_throw hrun
    rw [hthrow]
    exact ⟨_, rfl, h.throw _ _⟩

theorem destroy_spec (hv : w.vec k = some v) (hs : Whole v.ty v.data) :
    ∃ w', w.step (.destroy k) = some w' ∧ Stepped size w (.destroy k) w' := by
  have hstep : w.step (.destroy k)
      = w.after (fun _ w => { w with vecs := w.vecs.set k none, last := k })
        ((destroy v.ty v.data).run w.pool.fresh) := by
    show (w.vec k).bind _ = _
    rw [hv]
    rfl
  obtain ⟨l, hl⟩ := h.split hv
  obtain ⟨n, hd⟩ := h.vec_stored hv
  obtain ⟨p', l', hrun, hok, hkept, hsize, helems⟩ := destroy_run hl hd hs
  have hstored : AllStored (w.vecs.set k none) := h.stored.set k fun u hu => by cases hu
  rw [hstep, hrun]
  refine ⟨_, rfl, ⟨hsize.trans h.size, ⟨l', hok⟩, hstored, fun e he => ?_⟩, fun _ => ?_,
    fun hne => (hne rfl).elim⟩
  · have he' : e ∈ p'.elements := he
    rw [helems] at he'
    cases he'
  · show view p' (w.vecs.set k none) = (view w.pool w.vecs).set k none
    rw [view_congr hstored (hkept.mono fun b hb => List.mem_append_left _ hb), view_set]
    rfl

theorem move_spec (hv : w.vec k = some v) :
    ∃ w', w.step (.move k) = some w' ∧ Stepped size w (.move k) w' := by
  have hstep : w.step (.move k) = some (World.append (World.assign { w with pool := w.pool.fresh, thrown := none }
      k v.ty {}) v.ty v.data) := by
    show (w.vec k).bind _ = _
    rw [hv]
    rfl
  obtain ⟨l, hl⟩ := h.split hv
  have hk := lt_of_vec hv
  -- the old vector has no storage any more, the new one has it
  have hset : (w.vecs.set k none).set k (some ⟨v.ty, {}⟩) = w.vecs.set k (some ⟨v.ty, {}⟩) := List.set_set ..
  have hget : (w.vecs.set k none)[k]? = some none := List.getElem?_set_self hk
  have hperm := owned_set hget (some (Vec.mk v.ty {}))
  rw [hset] at hperm
  rw [hstep]
  refine ⟨_, rfl, ⟨h.size, ⟨l, hl.perm ?_⟩, ?_, fun e he => by cases he⟩, fun _ => ?_, fun hne => (hne rfl).elim⟩
  · show (own v.data ++ (owned (w.vecs.set k none) ++ w.others)).Perm
      (owned (w.vecs.set k (some ⟨v.ty, {}⟩) ++ [some ⟨v.ty, v.data⟩]) ++ w.others)
    have hnew : owned [some (Vec.mk v.ty v.data)] = own v.data := List.append_nil _
    rw [owned_append, hnew, List.append_assoc]
    refine (List.perm_append_comm_assoc _ _ _).trans ?_
    exact hperm.symm.append_right _
  · exact (h.stored.set k fun u hu => by
      obtain rfl := Option.some.inj hu
      exact ⟨0, .none⟩).append (h.vec_stored hv)
  · show view w.pool (w.vecs.set k (some ⟨v.ty, {}⟩) ++ [some v])
      = (view w.pool w.vecs).set k ((view w.pool w.vecs)[k]?.join.map fun x => (x.1, []))
        ++ [(view w.pool w.vecs)[k]?.join]
    rw [view_vec hv, view_append, view_set]
    show (view w.pool w.vecs).set k (some (v.ty, contents v.ty w.pool {})) ++ _ = _
    rw [contents_none]
    rfl

theorem exchange_spec {u : Vec} (hv : w.vec k = some v) (hu : w.vec j = some u) (hty : v.ty = u.ty)
    {a : Action} (ha : ∀ m : Lists, listStep m a = (m.set k m[j]?.join).set j m[k]?.join) :
    ∃ w', w.exchange k j = some w' ∧ Stepped size w a w' := by
  have hstep : w.exchange k j = some (World.assign (World.assign { w with pool := w.pool.fresh, thrown := none }
      k v.ty u.data) j v.ty v.data) := by
    unfold exchange
    rw [hv, hu]
    show (if v.ty = u.ty then _ else none) = _
    rw [if_pos hty]
    rfl
  have hk := lt_of_vec hv
  obtain ⟨l, hl⟩ := h.ok
  -- slot `j` of the first new list still has the block of `u`
  obtain ⟨x, hx, hxd⟩ : ∃ x, (w.vecs.set k (some ⟨v.ty, u.data⟩))[j]? = some (some x) ∧ x.data = u.data := by
    by_cases hjk : k = j
    · rw [← hjk, List.getElem?_set_self hk]
      exact ⟨_, rfl, rfl⟩
    · rw [List.getElem?_set_ne hjk, getElem_of_vec hu]
      exact ⟨u, rfl, rfl⟩
  have hperm1 := owned_set (getElem_of_vec hv) (some ⟨v.ty, u.data⟩)
  have hperm2 := owned_set hx (some ⟨v.ty, v.data⟩)
  have hown : ownOpt (some x) = own u.data := congrArg own hxd
  rw [hown] at hperm2
  have hperm := (List.perm_append_left_iff _).mp (hperm2.trans hperm1)
  rw [hstep]
  refine ⟨_, rfl, ⟨h.size, ⟨l, (Pool.fresh_ok hl).perm (hperm.symm.append_right _)⟩, ?_,
    fun e he => by cases he⟩, fun _ => ?_, fun hne => (hne rfl).elim⟩
  · refine AllStored.set (AllStored.set h.stored k fun y hy => ?_) j fun y hy => ?_
    · obtain rfl := Option.some.inj hy
      show ∃ n, Storage v.ty.size u.data (own u.data) n
      rw [hty]
      exact h.vec_stored hu
    · obtain rfl := Option.some.inj hy
      exact h.vec_stored hv
  · rw [ha, view_vec hv, view_vec hu]
    show view w.pool ((w.vecs.set k (some ⟨v.ty, u.data⟩)).set j (some ⟨v.ty, v.data⟩)) = _
    rw [view_set, view_set, hty]
    show _ = ((view w.pool w.vecs).set k (some (u.view w.pool))).set j (some (v.ty, contents v.ty w.pool v.data))
    rw [hty]
    rfl

include hp

theorem copy_spec (hv : w.vec k = some v) :
    ∃ w', w.step (.copy k) = some w' ∧ Stepped size w (.copy k) w' := by
  have hstep : w.step (.copy k)
      = w.after (fun d w => w.append v.ty d) ((newCopy v.ty v.data).run w.pool.fresh) := by
    show (w.vec k).bind _ = _
    rw [hv]
    rfl
  obtain ⟨l, hl⟩ := h.split hv
  obtain ⟨n, hd⟩ := h.vec_stored hv
  have hspec := newCopy_spec hl hd (show w.pool.fresh.size < 2^64 from h.size ▸ hp)
  rw [hstep]
  refine h.append_after (hspec.perm (restOf_perm hv)) ?_
  show view w.pool w.vecs ++ [(view w.pool w.vecs)[k]?.join] = _
  rw [view_vec hv]
  rfl

theorem call_spec (hv : w.vec k = some v) {f : Method} (ht : f.Typed v.ty) (hs : f.Safe v.ty v.data) :
    ∃ w', w.step (.call k f) = some w' ∧ Stepped size w (.call k f) w' := by
  have hstep : w.step (.call k f)
      = w.after (fun d w => w.assign k v.ty d) ((f.run v.ty v.data).run w.pool.fresh) := by
    show (w.vec k).bind _ = _
    rw [hv]
    exact if_pos ht
  obtain ⟨l, hl⟩ := h.split hv
  obtain ⟨n, hd⟩ := h.vec_stored hv
  rw [hstep]
  refine h.assign_after hv (Method.spec hl hd (show w.pool.fresh.size < 2^64 from h.size ▸ hp) ht hs) ?_
  show (view w.pool w.vecs).set k ((view w.pool w.vecs)[k]?.join.map fun x => (x.1, f.elements x.1 x.2)) = _
  rw [view_vec hv]
  rfl

/-- **One action**: if it is safe, it is defined, and it does to the vectors what it does to lists or
throws and changes nothing. -/
theorem step_spec {a : Action} (ha : w.Allowed a) (hs : w.Safe a) :
    ∃ w', w.step a = some w' ∧ Stepped size w a w' := by
  cases a with
  | construct T c => exact construct_spec h ha hs
  | copy k => exact copy_spec h hp ha.choose_spec
  | move k => exact move_spec h ha.choose_spec
  | call k f =>
    obtain ⟨v, hv, ht⟩ := ha
    exact call_spec h hp hv ht (hs v hv)
  | swap k j =>
    obtain ⟨v, u, hv, hu, hty⟩ := ha
    exact exchange_spec h hv hu hty fun _ => rfl
  | moveAssign k j =>
    obtain ⟨v, u, hv, hu, hty⟩ := ha
    exact exchange_spec h hv hu hty fun _ => rfl
  | destroy k =>
    obtain ⟨v, hv⟩ := ha
    exact destroy_spec h hv (hs v hv)
  | allocate sz n => exact allocate_other h sz n
  | deallocate b => exact deallocate_other h ha

end

theorem allowed_of_step {w' : World} {a : Action} (h : w.step a = some w') : w.Allowed a := by
  have hbind : ∀ {i : Nat} {f : Vec → Option World}, (w.vec i).bind f = some w' →
      ∃ v, w.vec i = some v ∧ f v = some w' := fun hb => Option.bind_eq_some_iff.mp hb
  have hguard : ∀ {c : Prop} [Decidable c] {r : Option World}, (if c then r else none) = some w' → c := by
    intro c _ r hc
    by_contra hn
    rw [if_neg hn] at hc
    cases hc
  have hexchange : ∀ {k j : Nat}, w.exchange k j = some w' →
      ∃ v u, w.vec k = some v ∧ w.vec j = some u ∧ v.ty = u.ty := by
    intro k j he
    obtain ⟨v, hv, he⟩ := hbind he
    obtain ⟨u, hu, he⟩ := hbind he
    exact ⟨v, u, hv, hu, hguard he⟩
  cases a with
  | construct T c => exact hguard (c := c.Typed T) h
  | copy j => exact (hbind h).imp fun v hv => hv.1
  | move j => exact (hbind h).imp fun v hv => hv.1
  | call k f => exact (hbind h).imp fun v hv => ⟨hv.1, hguard hv.2⟩
  | swap k j => exact hexchange h
  | moveAssign k j => exact hexchange h
  | destroy k => exact (hbind h).imp fun v hv => hv.1
  | allocate sz n => trivial
  | deallocate b => exact hguard (c := b ∈ w.others) h

theorem stepped_of_step (h : Inv size w) (hp : size < 2^64) {w' : World} {a : Action}
    (ht : w.step a = some w') (hs : w.Safe a) : Stepped size w a w' := by
  obtain ⟨u, hu, hstepped⟩ := step_spec h hp (allowed_of_step ht) hs
  obtain rfl : u = w' := Option.some.inj (hu.symm.trans ht)
  exact hstepped

end World

end Stl
end Ipcpp
