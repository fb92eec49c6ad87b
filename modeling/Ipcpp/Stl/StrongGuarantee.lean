import Ipcpp.Stl.VectorSteps

/-!
# The strong guarantee of the growing functions

A growing function checks the length and asks the allocator for a block before it moves an element, writes
to `vector_data` or gives the old block back; from then on the storage helpers throw nothing.  And the
allocator throws only when it has come to the end of its list without writing to it.  So a call that ends in a
`length_error` or a `bad_alloc` of the storage helpers has changed neither the vector nor the pool
(`eq_of_throw`).

But `insert(pos, T&&)` has moved its argument to `tmp` by then, and `tmp` is destroyed on the way out: if it is
a vector in the same pool, its block is freed (`insertMoved_frees_block`).  `strong_guarantee_iff` is exact.
-/

namespace Ipcpp
namespace Stl
open Objects (Thrown)
open Prog

/-! ## the allocator -/

section
variable {E : Set Error}

theorem looks_readNode (a : Nat) : Looks (readNode a) := looks_get.bind fun _ => looks_ofOption _

theorem looks_deref (off : Int) : Looks (deref off) := looks_get.bind fun _ => looks_ofOption _

theorem looks_offsetOf (a : Option Nat) : Looks (offsetOf a) := looks_get.bind fun _ => looks_pure _

theorem never_modifyNode (a : Nat) (f : AllocatorListNode → AllocatorListNode) : Never E (modifyNode a f) :=
  (looks_readNode a).never.bind fun _ => never_modify _

theorem never_insertNode (node : Nat) (off : Int) (size : Nat) : Never E (insertNode node off size) := by
  refine (looks_readNode node).never.bind fun nd => (never_modifyNode _ _).bind fun _ => ?_
  refine (looks_deref off).never.bind fun new => (looks_offsetOf _).never.bind fun prev => ?_
  refine (never_modify _).bind fun _ => ?_
  split
  · exact (looks_deref _).never.bind fun _ => never_modifyNode _ _
  · exact never_pure ()

theorem never_takeNode (a bytes : Nat) : Never E (takeNode a bytes) := by
  refine (never_modifyNode a _).bind fun _ => (looks_readNode a).never.bind fun nd => ?_
  split
  · refine (looks_offsetOf _).never.bind fun off => (never_insertNode _ _ _).bind fun _ => ?_
    exact (never_modifyNode a _).bind fun _ => (looks_readNode a).never.bind fun _ => never_pure _
  · exact (looks_readNode a).never.bind fun _ => never_pure _

/-- the search only reads, and what follows it does not throw -/
theorem strong_allocateLoop (bytes fuel a : Nat) : Strong E (allocateLoop bytes fuel a) := by
  induction fuel generalizing a with
  | zero => exact (looks_ofOption none).reads.strong
  | succ fuel ih =>
    refine (looks_readNode a).reads.bind_strong fun nd => ?_
    split
    · exact ((never_takeNode a bytes).bind fun _ => never_pure _).strong
    · split
      · exact (reads_throw _).strong
      · exact (looks_deref _).reads.bind_strong fun next => ih next

theorem strong_allocateAtLeastOffset (sz n : Nat) : Strong E (allocateAtLeastOffset sz n) := by
  have hnode : Strong E (allocateNode (alignUp (n * sz % 2^64))) :=
    looks_get.reads.bind_strong fun p =>
      (looks_deref _).reads.bind_strong fun node => strong_allocateLoop _ _ node
  exact hnode.bind_never fun _ => (looks_offsetOf _).never.bind fun _ => never_pure _

theorem never_mergeForwardLoop (node fuel size : Nat) (next : Option Nat) :
    Never E (mergeForwardLoop node fuel size next) := by
  induction fuel generalizing size next with
  | zero => exact (looks_ofOption none).never
  | succ fuel ih =>
    cases next with
    | none => exact (never_modifyNode node _).bind fun _ => never_pure _
    | some a =>
      refine (looks_readNode a).never.bind fun nd => ?_
      split
      · exact looks_get.never.bind fun p => ih _ _
      · exact (looks_offsetOf _).never.bind fun _ => (never_modifyNode a _).bind fun _ => never_pure _

theorem never_mergeForward (node : Nat) : Never E (mergeForward node) := by
  refine (looks_readNode node).never.bind fun nd => ?_
  split
  · exact never_pure ()
  · refine looks_get.never.bind fun p => (never_mergeForwardLoop _ _ _ _).bind fun r => ?_
    exact (looks_offsetOf _).never.bind fun _ => never_modifyNode node _

theorem never_mergeBackwardLoop (fuel size next : Nat) (prev : Option Nat) :
    Never E (mergeBackwardLoop fuel size next prev) := by
  induction fuel generalizing size next prev with
  | zero => exact (looks_ofOption none).never
  | succ fuel ih =>
    cases prev with
    | none => exact never_pure _
    | some a =>
      refine (looks_readNode a).never.bind fun nd => ?_
      split
      · exact looks_get.never.bind fun p => ih _ _ _
      · exact never_pure _

theorem never_setPrev (node : Nat) (next : Option Nat) : Never E (setPrev node next) := by
  cases next with
  | none => exact never_pure ()
  | some a => exact (looks_offsetOf _).never.bind fun _ => never_modifyNode a _

theorem never_mergeBackward (node : Nat) : Never E (mergeBackward node) := by
  refine (looks_readNode node).never.bind fun nd => ?_
  split
  · exact never_pure ()
  · refine looks_get.never.bind fun p => (never_mergeBackwardLoop _ _ _ _).bind fun r => ?_
    refine (never_modifyNode _ _).bind fun _ => (looks_readNode node).never.bind fun _ => ?_
    exact (never_setPrev _ _).bind fun _ => (looks_readNode node).never.bind fun _ => never_modifyNode _ _

theorem never_deallocatePtr (ptr : Option Nat) : Never E (deallocatePtr ptr) := by
  cases ptr with
  | none => exact never_pure ()
  | some a =>
    exact (never_modifyNode _ _).bind fun _ => (never_mergeForward _).bind fun _ => never_mergeBackward _

end

/-! ## reading a vector -/

section
variable (T : ElemType)

theorem looks_pointerDiff (a b : Option Nat) : Looks (pointerDiff T a b) := by
  unfold pointerDiff
  split
  · exact looks_pure 0
  · split
    · exact looks_pure _
    · exact looks_ofOption none
  · exact looks_ofOption none

theorem looks_size (d : VecData) : Looks (Stl.size T d) := looks_get.bind fun _ => looks_pointerDiff T _ _

theorem looks_capacity (d : VecData) : Looks (Stl.capacity T d) :=
  looks_get.bind fun _ => looks_pointerDiff T _ _

theorem looks_distance (a b : Nat) : Looks (distance T a b) := by
  unfold distance
  split
  · exact looks_pure _
  · exact looks_ofOption none

theorem looks_difference (a b : Option Nat) : Looks (difference T a b) := by
  unfold difference
  split
  · exact looks_pure 0
  · exact looks_distance T _ _
  · exact looks_ofOption none

theorem looks_advance (ptr : Option Nat) (n : Int) : Looks (Stl.advance T ptr n) := by
  unfold Stl.advance
  split
  · exact looks_pure _
  · split
    · exact looks_pure none
    · exact looks_ofOption none

/-- `_m_check_length` may throw -/
theorem reads_checkLength (d : VecData) (n : Nat) : Reads (Stl.checkLength T d n) := by
  refine looks_get.reads.bind fun p => (looks_size T d).reads.bind fun size => ?_
  unfold lengthOrThrow
  split
  · exact reads_throw _
  · exact (looks_pure _).reads

theorem strong_allocate {E : Set Error} (n : Nat) : Strong E (Stl.allocate T n) := by
  unfold Stl.allocate
  split
  · exact (looks_pure _).reads.strong
  · exact strong_allocateAtLeastOffset T.size n

end

namespace VectorState

def storageErrors : Set Thrown := Set.range Thrown.error

section
variable {α : Type} {E : Set Thrown}

theorem looks_onPool {m : PoolM α} (h : Looks m) : Looks (onPool m) := h.zoom fun _ => rfl

theorem reads_onPool {m : PoolM α} (h : Reads m) : Reads (onPool m) := h.zoom fun _ => rfl

theorem never_onElement (m : ElementM α) : Never storageErrors (onElement m) := by
  refine Never.zoom fun s e t _ he => ?_
  obtain ⟨e', he'⟩ := he
  cases he'

theorem looks_pointerOf (off : Int) : Looks (pointerOf off) := looks_get.bind fun _ => looks_pure _

theorem looks_startPtr : Looks startPtr := looks_get.bind fun _ => looks_pointerOf _

theorem looks_finishPtr : Looks finishPtr := looks_get.bind fun _ => looks_pointerOf _

end

section
variable (T : ElemType) (ops : ElementOps)

theorem looks_vectorSize : Looks (size T) := looks_get.bind fun _ => looks_onPool (looks_size T _)

theorem looks_vectorCapacity : Looks (capacity T) :=
  looks_get.bind fun _ => looks_onPool (looks_capacity T _)

theorem looks_vectorAdvance (ptr : Option Nat) (n : Int) : Looks (advance T ptr n) :=
  looks_onPool (looks_advance T ptr n)

/-! ## behind the allocation -/

theorem never_constructAt (ptr : Option Nat) (i : Nat) (ctor : Constructor) :
    Never storageErrors (constructAt T ptr i ctor) :=
  (looks_ofOption ptr).never.bind fun _ => never_onElement _

theorem never_constructLoop (ptr : Option Nat) (ctor : Nat → Constructor) (i n : Nat) :
    Never storageErrors (constructLoop T ptr ctor i n) := by
  induction n generalizing i with
  | zero => exact never_pure ()
  | succ n ih => exact (never_constructAt T ptr i _).bind fun _ => ih (i + 1)

theorem never_constructEach (ptr : Option Nat) (ctor : Nat → Constructor) (i n : Nat) :
    Never storageErrors (constructEach T ptr ctor i n) := by
  induction n generalizing i with
  | zero => exact never_pure ()
  | succ n ih =>
    refine (never_constructAt T ptr i _).bind fun _ => looks_get.never.bind fun s => ?_
    exact (never_modify _).bind fun _ => ih (i + 1)

theorem never_destroyLoop (ptr : Option Nat) (i n : Nat) :
    Never storageErrors (destroyLoop T ops ptr i n) := by
  induction n generalizing i with
  | zero => exact never_pure ()
  | succ n ih =>
    exact (looks_ofOption ptr).never.bind fun _ => (never_onElement _).bind fun _ => ih (i + 1)

theorem never_uninitializedMove (srcStart srcEnd dst : Option Nat) :
    Never storageErrors (uninitializedMove T ops srcStart srcEnd dst) := by
  refine (looks_onPool (looks_pointerDiff T _ _)).never.bind fun n => ?_
  exact (never_constructLoop T dst _ 0 n).bind fun _ => never_pure _

theorem never_moveForward (dstIt first n : Nat) :
    Never storageErrors (moveForward T ops dstIt first n) := by
  induction n generalizing first with
  | zero => exact never_pure ()
  | succ n ih => exact (never_constructAt T _ _ _).bind fun _ => ih (first + T.size)

theorem never_moveBackward (first dstIt n : Nat) :
    Never storageErrors (moveBackward T ops first dstIt n) := by
  induction n with
  | zero => exact never_pure ()
  | succ n ih => exact (never_constructAt T _ _ _).bind fun _ => ih

theorem never_moveTo (first last dst : Option Nat) :
    Never storageErrors (moveTo T ops first last dst) := by
  unfold moveTo
  split
  · exact never_pure ()
  · refine (looks_ofOption first).never.bind fun first => (looks_ofOption last).never.bind fun last => ?_
    refine (looks_ofOption dst).never.bind fun dst => looks_startPtr.never.bind fun ptr => ?_
    refine (looks_ofOption ptr).never.bind fun start => ?_
    refine (looks_onPool (looks_distance T _ _)).never.bind fun off => ?_
    split
    · exact never_moveForward T ops _ _ _
    · exact (looks_onPool (looks_distance T _ _)).never.bind fun n => never_moveBackward T ops _ _ _

/-- what `insert` does when there is room asks for no storage -/
theorem never_insertAt (pos : Option Nat) (offset : Int) (count : Nat) (value : Nat → Constructor) :
    Never storageErrors (insertAt T ops pos offset count value) := by
  refine looks_startPtr.never.bind fun ptr => (looks_vectorAdvance T _ _).never.bind fun position => ?_
  refine looks_startPtr.never.bind fun start => (looks_vectorSize T).never.bind fun size => ?_
  refine (looks_vectorAdvance T _ _).never.bind fun cend => ?_
  refine (looks_vectorAdvance T _ _).never.bind fun dst => ?_
  refine (never_moveTo T ops _ _ _).bind fun _ => (never_constructEach T _ _ _ _).bind fun _ => ?_
  exact looks_startPtr.never.bind fun ptr => (looks_vectorAdvance T _ _).never

/-! ## up to the allocation -/

/-- the allocation comes first, the old block goes last -/
theorem strong_realloc (len : Nat) {extra : VectorM Nat} (hextra : Looks extra) (args : Constructor) :
    Strong storageErrors (realloc T ops len extra args) := by
  refine looks_startPtr.reads.bind_strong fun oldStart => ?_
  refine looks_finishPtr.reads.bind_strong fun oldFinish => ?_
  have halloc : Strong storageErrors (onPool (Stl.allocate T len)) :=
    (strong_allocate T len).zoom fun _ => rfl
  refine halloc.bind_never fun r => (looks_pointerOf _).never.bind fun ptr => ?_
  refine (never_uninitializedMove T ops _ _ _).bind fun newFinish => ?_
  refine hextra.never.bind fun n => (never_constructLoop T _ _ _ _).bind fun _ => ?_
  have hdealloc : Never storageErrors (onPool (deallocatePtr oldStart)) :=
    (never_deallocatePtr oldStart).zoom
  refine (looks_vectorCapacity T).never.bind fun _ => hdealloc.bind fun _ => ?_
  refine (never_modify _).bind fun _ => ?_
  refine (looks_onPool (looks_offsetOf _)).never.bind fun finish => ?_
  exact (never_modify _).bind fun _ => never_modify _

theorem reads_vectorCheckLength (n : Nat) : Reads (checkLength T n) :=
  looks_get.reads.bind fun _ => reads_onPool (reads_checkLength T _ n)

theorem strong_reallocAppend (args : Constructor) : Strong storageErrors (reallocAppend T ops args) :=
  (reads_vectorCheckLength T 1).bind_strong fun len => strong_realloc T ops len (looks_pure 1) args

theorem strong_reallocAppendN (n : Nat) (args : Constructor) :
    Strong storageErrors (reallocAppendN T ops n args) := by
  refine (reads_vectorCheckLength T n).bind_strong fun len => strong_realloc T ops len ?_ args
  exact (looks_vectorSize T).bind fun _ => looks_pure _

theorem strong_uninitializedReallocN (n : Nat) : Strong storageErrors (uninitializedReallocN T ops n) :=
  (reads_vectorCheckLength T n).bind_strong fun len => strong_realloc T ops len (looks_pure 0) _

theorem strong_reallocCopy (n : Nat) : Strong storageErrors (reallocCopy T ops n) := by
  refine looks_get.reads.bind_strong fun s => ?_
  split
  · exact (reads_throw _).strong
  · exact strong_realloc T ops n (looks_pure 0) _

/-! ## the member functions -/

theorem strong_reserve (newCap : Nat) : Strong storageErrors (reserve T ops newCap) := by
  refine (looks_vectorCapacity T).reads.bind_strong fun cap => ?_
  split
  · exact (never_pure ()).strong
  · exact strong_reallocCopy T ops newCap

theorem strong_shrinkToFit : Strong storageErrors (shrinkToFit T ops) := by
  refine (looks_vectorCapacity T).reads.bind_strong fun cap => ?_
  refine (looks_vectorSize T).reads.bind_strong fun size => ?_
  split
  · exact (never_pure ()).strong
  · exact strong_reallocCopy T ops size

theorem strong_append (room full : Constructor) : Strong storageErrors (append T ops room full) := by
  refine looks_get.reads.bind_strong fun s => ?_
  split
  · refine Never.strong ((looks_pointerOf _).never.bind fun ptr => ?_)
    exact (never_constructAt T ptr 0 room).bind fun _ => looks_get.never.bind fun s => never_modify _
  · exact strong_reallocAppend T ops full

theorem strong_emplaceBack (args tmp : Constructor) : Strong storageErrors (emplaceBack T ops args tmp) :=
  (strong_append T ops tmp args).bind_never fun _ => (looks_vectorSize T).never.bind fun _ => never_pure ()

/-- what an insertion reads before it changes anything -/
theorem strong_insert {β : Type} (pos : Option Nat) {body : Int → Nat → Nat → VectorM β}
    (h : ∀ offset cap size, Strong storageErrors (body offset cap size)) :
    Strong storageErrors (do
      let offset ← onPool (difference T (← startPtr) pos)
      let cap ← VectorState.capacity T
      let sz ← VectorState.size T
      body offset cap sz) := by
  refine looks_startPtr.reads.bind_strong fun start => ?_
  refine (looks_onPool (looks_difference T _ _)).reads.bind_strong fun offset => ?_
  refine (looks_vectorCapacity T).reads.bind_strong fun cap => ?_
  exact (looks_vectorSize T).reads.bind_strong fun size => h offset cap size

theorem strong_insertFill (pos : Option Nat) (count : Nat) (value : Constructor) :
    Strong storageErrors (insertFill T ops pos count value) := by
  refine strong_insert T pos fun offset cap size => ?_
  split
  · refine (strong_uninitializedReallocN T ops count).bind_never fun _ => ?_
    refine looks_startPtr.never.bind fun ptr => ?_
    exact (looks_vectorAdvance T _ _).never.bind fun pos => never_insertAt T ops _ _ _ _
  · exact (never_insertAt T ops _ _ _ _).strong

theorem strong_insertRange (pos : Option Nat) (count : Nat) (value : Nat → Constructor) :
    Strong storageErrors (insertRange T ops pos count value) := by
  refine strong_insert T pos fun offset cap size => ?_
  split
  · exact (strong_uninitializedReallocN T ops count).bind_never fun _ => never_insertAt T ops _ _ _ _
  · exact (never_insertAt T ops _ _ _ _).strong

theorem strong_resize (count : Nat) (value : Constructor) :
    Strong storageErrors (resize T ops count value) := by
  refine (looks_vectorSize T).reads.bind_strong fun size => ?_
  split
  · exact (never_pure ()).strong
  · split
    · refine Never.strong (looks_startPtr.never.bind fun ptr => ?_)
      refine (never_destroyLoop T ops _ _ _).bind fun _ => ?_
      exact looks_get.never.bind fun s => never_modify _
    · refine (looks_vectorCapacity T).reads.bind_strong fun cap => ?_
      split
      · refine Never.strong (looks_startPtr.never.bind fun ptr => ?_)
        refine (never_constructLoop T _ _ _ _).bind fun _ => ?_
        exact looks_get.never.bind fun s => never_modify _
      · exact strong_reallocAppendN T ops count value

end

inductive Method where
  | pushBack (v : Constructor)
  | emplaceBack (args tmp : Constructor)
  | insertFill (pos : Option Nat) (count : Nat) (value : Constructor)
  | insertMoved (pos : Option Nat) (move : ElementM Temporary)
  | insertRange (pos : Option Nat) (count : Nat) (value : Nat → Constructor)
  | reserve (newCap : Nat)
  | resize (count : Nat) (value : Constructor)
  | shrinkToFit

/-- the function, without the iterator that `insert` returns -/
def Method.body (T : ElemType) (ops : ElementOps) : Method → VectorM Unit
  | .pushBack v => VectorState.pushBack T ops v
  | .emplaceBack args tmp => VectorState.emplaceBack T ops args tmp
  | .insertFill pos count value => do
    let _ ← VectorState.insertFill T ops pos count value
    pure ()
  | .insertMoved pos move => do
    let _ ← VectorState.insertMoved T ops pos move
    pure ()
  | .insertRange pos count value => do
    let _ ← VectorState.insertRange T ops pos count value
    pure ()
  | .reserve newCap => VectorState.reserve T ops newCap
  | .resize count value => VectorState.resize T ops count value
  | .shrinkToFit => VectorState.shrinkToFit T ops

/-- no local object of the element type is destroyed when the storage helpers throw -/
def Method.Plain : Method → Prop
  | .insertMoved _ _ => False
  | _ => True

theorem Method.strong (T : ElemType) (ops : ElementOps) {m : Method} (hm : m.Plain) :
    Strong storageErrors (m.body T ops) := by
  cases m with
  | pushBack v => exact strong_append T ops v v
  | emplaceBack args tmp => exact strong_emplaceBack T ops args tmp
  | insertFill pos count value =>
    exact (strong_insertFill T ops pos count value).bind_never fun _ => never_pure ()
  | insertMoved pos move => cases hm
  | insertRange pos count value =>
    exact (strong_insertRange T ops pos count value).bind_never fun _ => never_pure ()
  | reserve newCap => exact strong_reserve T ops newCap
  | resize count value => exact strong_resize T ops count value
  | shrinkToFit => exact strong_shrinkToFit T ops

/-- the vector has the offsets and elements, and the pool the list of nodes, that they had in `s` -/
structure Unchanged (T : ElemType) (s t : VectorState) : Prop where
  data : t.data = s.data
  contents : contents T t.pool t.data = contents T s.pool s.data
  walk : walk t.pool = walk s.pool

theorem Unchanged.refl (T : ElemType) (s : VectorState) : Unchanged T s s := ⟨rfl, rfl, rfl⟩

/-- moving the argument of `insert(pos, T&&)` to `tmp` and destroying `tmp`, with nothing in between, changes
neither the elements nor the list of the nodes -/
def Method.Tidy (T : ElemType) (s : VectorState) : Method → Prop
  | .insertMoved _ move => ∀ tmp p q, move.run s.pool = .ok tmp p → tmp.destroy.run p = .ok () q →
      Unchanged T s { s with pool := q }
  | _ => True

/-- what `insert(pos, T&&)` leaves when it ends in an exception of the storage helpers: `tmp` came and went -/
theorem of_insertMoved_throw (T : ElemType) (ops : ElementOps) {pos : Option Nat} {move : ElementM Temporary}
    {s t : VectorState} {e : Error} (h : (insertMoved T ops pos move).run s = .throw (.error e) t) :
    ∃ tmp p q, move.run s.pool = .ok tmp p ∧ tmp.destroy.run p = .ok () q ∧ t = { s with pool := q } := by
  rcases of_bind_throw h with hmove | ⟨tmp, s', hmove, hinsert⟩
  · exact absurd ⟨e, rfl⟩ (never_onElement move _ _ _ hmove)
  · obtain ⟨u, hthrow, hdestroy⟩ := of_withCleanup_throw hinsert
    obtain rfl := strong_insertFill T ops pos 1 tmp.copy _ _ _ ⟨e, rfl⟩ hthrow
    obtain ⟨p, hp, rfl⟩ := of_zoom_ok hmove
    obtain ⟨q, hq, rfl⟩ := of_zoom_ok hdestroy
    exact ⟨tmp, p, q, hp, hq, rfl⟩

/-- without a `tmp` the whole state is what it was -/
theorem eq_of_throw {T : ElemType} {ops : ElementOps} {m : Method} {s t : VectorState} {e : Error}
    (h : (m.body T ops).run s = .throw (.error e) t) (hm : m.Plain) : t = s :=
  Method.strong T ops hm s (.error e) t ⟨e, rfl⟩ h

/-- **The strong guarantee.**  For every vector and every pool, whatever the elements do: a growing
function that ends in an exception of the storage helpers leaves `vector_data`, the elements and the list of
the nodes as they were, exactly if the coming and going of `tmp` does. -/
theorem strong_guarantee_iff (T : ElemType) (ops : ElementOps) (m : Method) {s t : VectorState} {e : Error}
    (h : (m.body T ops).run s = .throw (.error e) t) : Unchanged T s t ↔ m.Tidy T s := by
  cases m with
  | insertMoved pos move =>
    obtain ⟨tmp, p, q, hmove, hdestroy, rfl⟩ : ∃ tmp p q, move.run s.pool = .ok tmp p ∧
        tmp.destroy.run p = .ok () q ∧ t = { s with pool := q } := by
      rcases of_bind_throw h with hthrow | ⟨_, _, _, hpure⟩
      · exact of_insertMoved_throw T ops hthrow
      · cases hpure
    refine ⟨fun hun tmp' p' q' hmove' hdestroy' => ?_, fun htidy => htidy tmp p q hmove hdestroy⟩
    obtain ⟨rfl, rfl⟩ := Outcome.ok.inj (hmove.symm.trans hmove')
    obtain ⟨-, rfl⟩ := Outcome.ok.inj (hdestroy.symm.trans hdestroy')
    exact hun
  | _ =>
    obtain rfl := eq_of_throw h trivial
    exact iff_of_true (Unchanged.refl T t) trivial

/-- sixteen elements of one byte, in a pool with no other block -/
def full : VectorState where
  pool := ((Pool.new 176).putNode 0 ⟨16, invalidOffset, invalidOffset, false⟩).putElement 32 16 fun j =>
    some (UInt8.ofNat j)
  data := ⟨32, 48, 48⟩

/-- the call throws, and leaves the vector and the pool as they are -/
def ThrowsUnchanged (m : Method) (s : VectorState) (e : Error) : Prop :=
  ∃ t, (m.body octet (.bytes octet)).run s = .throw (.error e) t ∧ Unchanged octet s t

/-- `push_back` finds no block, and `reserve` is asked for too much -/
theorem strong_guarantee_iff_example :
    ThrowsUnchanged (.pushBack (bytesConstructor octet [some 7])) full .badAlloc ∧
      ThrowsUnchanged (.reserve 145) full .lengthError := by
  have hpush : ((Method.body octet (.bytes octet) (.pushBack (bytesConstructor octet [some 7]))).run full)
      = .throw (.error .badAlloc) full := by rfl
  have hreserve : ((Method.body octet (.bytes octet) (.reserve 145)).run full)
      = .throw (.error .lengthError) full := by rfl
  exact ⟨⟨full, hpush, (strong_guarantee_iff octet (.bytes octet) _ hpush).mpr trivial⟩,
    ⟨full, hreserve, (strong_guarantee_iff octet (.bytes octet) _ hreserve).mpr trivial⟩⟩

end VectorState

/-! ## vectors as elements -/

/-- the eight bytes of a `difference_type` -/
def offsetBytes (off : Int) : Value :=
  (List.range 8).map fun i => some (UInt8.ofNat ((off % 2^64).toNat / 256 ^ i))

/-- `vector<uint8_t>`, whose three offsets are its bytes -/
def VecData.bytes (d : VecData) : Value :=
  offsetBytes d.start ++ offsetBytes d.finish ++ offsetBytes d.endOfStorage

def vectorType : ElemType := ⟨24, Nat.succ_pos _, VecData.bytes {}, rfl⟩

namespace VectorState

/-- the `difference_type` at an address -/
def readOffset (p : Pool) (a : Nat) : Option Int := do
  let bs ← (p.memory.bytes a 8).mapM id
  pure (Int.bmod (bs.foldr (fun b n => b.toNat + 256 * n) 0) (2^64))

def readVector (a : Nat) : ElementM VecData := do
  let p ← Prog.get
  Prog.ofOption (do pure ⟨← readOffset p a, ← readOffset p (a + 8), ← readOffset p (a + 16)⟩)

/-- a member function of an element, whose exceptions are those of an element -/
def ofElement {α : Type} (m : PoolM α) : ElementM α := Prog.zoom id (fun p _ => p) (fun _ => ()) m

/-- the copy constructor of `vector<uint8_t>` -/
def copyVector (d : VecData) : Constructor := fun a => do
  let d' ← ofElement (newCopy octet d)
  bytesConstructor vectorType d'.bytes a

/-- `vector<vector<uint8_t>>`, all vectors in one pool -/
def vectors : ElementOps where
  default := bytesConstructor vectorType (VecData.bytes {})
  copy src := fun a => do
    let d ← readVector src
    copyVector d a
  move src := fun a => do
    let (d, rest) := moveData (← readVector src)
    bytesConstructor vectorType rest.bytes src
    bytesConstructor vectorType d.bytes a
  destroy a := do
    let d ← readVector a
    ofElement (Stl.destroy octet d)

/-- a `vector<uint8_t>` outside of the pool, whose data is `d`, is moved to `tmp` -/
def moveLocal (d : VecData) : ElementM Temporary :=
  pure ⟨copyVector (moveData d).1, ofElement (Stl.destroy octet (moveData d).1)⟩

/-- a vector of two empty vectors, and the vector `{7}` -/
def nested : PoolM (VecData × VecData) := do
  let v ← newList vectorType [VecData.bytes {}, VecData.bytes {}]
  let x ← newList octet [[some 7]]
  pure (v, x)

/-- they fill a pool of 320 bytes but for a node of 32 -/
def crowded : VectorState where
  pool := (nested.run (Pool.new 320)).toOption.elim (Pool.new 320) Prod.snd
  data := ⟨32, 80, 80⟩

/-- `v.insert(v.cbegin(), std::move(x))` finds no block for a third element, and frees the block of `x` -/
theorem insertMoved_frees_block :
    (nested.run (Pool.new 320)).toOption.map Prod.fst = some (crowded.data, ⟨112, 113, 128⟩) ∧
      ∃ t, (Method.body vectorType vectors (.insertMoved (some 32) (moveLocal ⟨112, 113, 128⟩))).run crowded
          = .throw (.error .badAlloc) t ∧ ¬ Unchanged vectorType crowded t := by
  refine ⟨by decide +kernel, ?_⟩
  have hrun : (((Method.body vectorType vectors (.insertMoved (some 32) (moveLocal ⟨112, 113, 128⟩))).run
      crowded).thrown.map fun x => (x.1, inUse x.2.pool)) = some (.error .badAlloc, [⟨32, 48⟩]) := by
    decide +kernel
  have hbefore : inUse crowded.pool = [⟨32, 48⟩, ⟨112, 16⟩] := by decide +kernel
  obtain ⟨⟨e, t⟩, ht, heq⟩ := Option.map_eq_some_iff.mp hrun
  obtain ⟨rfl, hafter⟩ := Prod.mk.inj heq
  refine ⟨t, Outcome.of_thrown ht, fun hun => ?_⟩
  have hsame : inUse t.pool = inUse crowded.pool := by
    unfold inUse
    rw [hun.walk]
  rw [hafter, hbefore] at hsame
  cases hsame

end VectorState
end Stl
end Ipcpp
