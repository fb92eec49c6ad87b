import Ipcpp.Stl.PoolInvariant

/-!
# The four entry points and the mutex

`allocate`, `allocate_offset`, `allocate_at_least` and `allocate_at_least_offset` with the mutex of the
pool header, and with the asserts of the private helpers that it is locked.  An assert is written down
and not acted on (`asserts`), as in a build without asserts; so what the functions do and whether their
asserts hold can be said apart.

The last three lock the mutex and round the byte count up: they agree in everything
(`locking_entryPoints_agree`).  `allocate` does neither: its assert fails in every state
(`entryPoints_disagree`), and the block it takes is not rounded, so that the next one may start at an
address that is no multiple of 16 (`allocate_misaligns`).  It takes the block the others take where there
is nothing to round (`sameBlock_of_dvd`).
-/

namespace Ipcpp
namespace Stl
open Chunks Runs PoolState

/-- a pool with its mutex, and the values of the asserts that were evaluated -/
structure LockedPool where
  pool : Pool
  isLocked : Bool
  asserts : List Bool

abbrev LockedM := Prog Error LockedPool

namespace LockedPool

def onPool {α : Type} (m : PoolM α) : LockedM α := ⟨fun s =>
  match m.run s.pool with
  | .ok a p => .ok a { s with pool := p }
  | .throw e p => .throw e { s with pool := p }
  | .stuck => .stuck⟩

/-- `assert(_header->mutex_.is_locked())` -/
def assertLocked : LockedM Unit := Prog.modify fun s => { s with asserts := s.isLocked :: s.asserts }

/-- `std::unique_lock lock(_header->mutex_)` around a function: a thread that holds the mutex already
waits for itself -/
def withLock {α : Type} (m : LockedM α) : LockedM α := ⟨fun s =>
  if s.isLocked then .stuck
  else
    match m.run { s with isLocked := true } with
    | .ok a t => .ok a { t with isLocked := false }
    | .throw e t => .throw e { t with isLocked := false }
    | .stuck => .stuck⟩

/-! ## the private helpers -/

/-- `_m_insert_node` -/
def insertNode (node : Nat) (newNodesOffset : Int) (newNodesSize : Nat) : LockedM Unit := do
  assertLocked
  onPool (Stl.insertNode node newNodesOffset newNodesSize)

/-- `Stl.takeNode`, with this `_m_insert_node` -/
def takeNode (a bytes : Nat) : LockedM Nat := do
  onPool (modifyNode a fun nd => { nd with isFree := false })
  let nd ← onPool (readNode a)
  if nd.size - bytes > nodeSize then
    insertNode a ((← onPool (offsetOf (some a))) + nodeSize + bytes) (nd.size - bytes - nodeSize)
    onPool (modifyNode a fun nd => { nd with size := bytes })
  pure (← onPool (readNode a)).size

/-- `Stl.allocateLoop`, with this `takeNode` -/
def allocateLoop (bytes : Nat) : Nat → Nat → LockedM (Nat × Nat)
  | 0, _ => onPool (Prog.ofOption none)
  | fuel + 1, a => do
    let nd ← onPool (readNode a)
    if nd.isFree ∧ nd.size ≥ bytes then
      let size ← takeNode a bytes
      pure (a, size)
    else if nd.nextOffset = invalidOffset then
      onPool (Prog.throw .badAlloc)
    else
      let next ← onPool (deref nd.nextOffset)
      allocateLoop bytes fuel next

/-- what `_m_allocate_from_list` and `_m_allocate_from_list_ptr` share -/
def allocateNode (bytes : Nat) : LockedM (Nat × Nat) := do
  assertLocked
  let p ← onPool Prog.get
  let node ← onPool (deref p.listHeadOffset)
  allocateLoop bytes p.size node

/-- `_m_allocate_from_list_ptr` -/
def allocateFromListPtr (bytes : Nat) : LockedM (Nat × Nat) := do
  let (node, size) ← allocateNode bytes
  pure (node + nodeSize, size)

/-- `_m_allocate_from_list` -/
def allocateFromList (sizeBytes : Nat) : LockedM (Int × Nat) := do
  let (node, size) ← allocateNode sizeBytes
  pure ((← onPool (offsetOf (some node))) + nodeSize, size)

/-! ## the public functions, for an element size `sz` -/

/-- `allocate(n)` -/
def allocate (sz n : Nat) : LockedM Nat := do
  let (ptr, _) ← allocateFromListPtr (n * sz % 2^64)
  pure ptr

/-- `allocate_offset(n)` -/
def allocateOffset (sz n : Nat) : LockedM Int := withLock do
  let (off, _) ← allocateFromList (alignUp (n * sz % 2^64))
  pure off

/-- `allocate_at_least(n)` -/
def allocateAtLeast (sz n : Nat) : LockedM (Nat × Nat) :=
  withLock (allocateFromListPtr (alignUp (n * sz % 2^64)))

/-- `allocate_at_least_offset(n)` -/
def allocateAtLeastOffset (sz n : Nat) : LockedM (Int × Nat) :=
  withLock (allocateFromList (alignUp (n * sz % 2^64)))

/-! ## the same functions without the mutex -/

/-- `m` does to the pool what `m'` does, and evaluates at least `k` asserts, all with the mutex as it is -/
def Refines {α : Type} (k : Nat) (m : LockedM α) (m' : PoolM α) : Prop :=
  ∀ s : LockedPool, ∃ j ≥ k, m.run s =
    match m'.run s.pool with
    | .ok a p => .ok a ⟨p, s.isLocked, List.replicate j s.isLocked ++ s.asserts⟩
    | .throw e p => .throw e ⟨p, s.isLocked, List.replicate j s.isLocked ++ s.asserts⟩
    | .stuck => .stuck

section
variable {α β : Type}

theorem refines_onPool (m : PoolM α) : Refines 0 (onPool m) m := fun _ => ⟨0, le_rfl, rfl⟩

theorem refines_pure (a : α) : Refines 0 (pure a) (pure a) := fun _ => ⟨0, le_rfl, rfl⟩

theorem Refines.bind {k : Nat} {m : LockedM α} {m' : PoolM α} {f : α → LockedM β} {f' : α → PoolM β}
    (h : Refines k m m') (hf : ∀ a, Refines 0 (f a) (f' a)) : Refines k (m >>= f) (m' >>= f') := by
  intro s
  obtain ⟨j, hj, hrun⟩ := h s
  cases hm : m'.run s.pool with
  | ok a p =>
    rw [hm] at hrun
    obtain ⟨i, -, hrest⟩ := hf a ⟨p, s.isLocked, List.replicate j s.isLocked ++ s.asserts⟩
    refine ⟨i + j, by omega, ?_⟩
    rw [Prog.bind_ok hrun, Prog.bind_ok hm, hrest]
    dsimp only
    rw [← List.append_assoc, List.replicate_append_replicate]
  | throw e p =>
    rw [hm] at hrun
    refine ⟨j, hj, ?_⟩
    rw [Prog.bind_throw hrun, Prog.bind_throw hm]
  | stuck =>
    rw [hm] at hrun
    refine ⟨j, hj, ?_⟩
    rw [Prog.bind_stuck hrun, Prog.bind_stuck hm]

theorem Refines.assert {k : Nat} {m : LockedM α} {m' : PoolM α} (h : Refines k m m') :
    Refines (k + 1) (assertLocked >>= fun _ => m) m' := by
  intro s
  obtain ⟨j, hj, hrun⟩ := h { s with asserts := s.isLocked :: s.asserts }
  refine ⟨j + 1, by omega, hrun.trans ?_⟩
  rw [List.replicate_succ', List.append_assoc]
  rfl

theorem Refines.mono {j k : Nat} {m : LockedM α} {m' : PoolM α} (h : Refines k m m') (hjk : j ≤ k) :
    Refines j m m' := by
  intro s
  obtain ⟨i, hi, hrun⟩ := h s
  exact ⟨i, hjk.trans hi, hrun⟩

end

theorem refines_insertNode (node : Nat) (off : Int) (size : Nat) :
    Refines 0 (insertNode node off size) (Stl.insertNode node off size) :=
  (refines_onPool _).assert.mono (Nat.zero_le _)

theorem refines_takeNode (a bytes : Nat) : Refines 0 (takeNode a bytes) (Stl.takeNode a bytes) := by
  refine (refines_onPool _).bind fun _ => (refines_onPool _).bind fun nd => ?_
  split
  · refine (refines_onPool _).bind fun off => (refines_insertNode _ _ _).bind fun _ => ?_
    exact (refines_onPool _).bind fun _ => (refines_onPool _).bind fun _ => refines_pure _
  · exact (refines_onPool _).bind fun _ => refines_pure _

theorem refines_allocateLoop (bytes fuel a : Nat) :
    Refines 0 (allocateLoop bytes fuel a) (Stl.allocateLoop bytes fuel a) := by
  induction fuel generalizing a with
  | zero => exact refines_onPool _
  | succ fuel ih =>
    refine (refines_onPool _).bind fun nd => ?_
    split
    · exact (refines_takeNode a bytes).bind fun _ => refines_pure _
    · split
      · exact refines_onPool _
      · exact (refines_onPool _).bind fun next => ih next

theorem refines_allocateNode (bytes : Nat) : Refines 1 (allocateNode bytes) (Stl.allocateNode bytes) :=
  Refines.assert ((refines_onPool _).bind fun p => (refines_onPool _).bind fun node =>
    refines_allocateLoop bytes p.size node)

theorem refines_allocateFromListPtr (bytes : Nat) :
    Refines 1 (allocateFromListPtr bytes) (Stl.allocateFromListPtr bytes) :=
  (refines_allocateNode bytes).bind fun _ => refines_pure _

theorem refines_allocateFromList (bytes : Nat) :
    Refines 1 (allocateFromList bytes) (Stl.allocateFromList bytes) :=
  (refines_allocateNode bytes).bind fun _ => (refines_onPool _).bind fun _ => refines_pure _

/-! ## agreement -/

def idle (p : Pool) : LockedPool := ⟨p, false, []⟩

def Checked {α : Type} : Prog.Outcome Error LockedPool α → Prop
  | .ok _ s => ∀ b ∈ s.asserts, b = true
  | .throw _ s => ∀ b ∈ s.asserts, b = true
  | .stuck => False

/-- four outcomes that are one: a pointer, an offset, and both with a size -/
inductive SameBlock (o₁ : Prog.Outcome Error LockedPool Nat) (o₂ : Prog.Outcome Error LockedPool Int)
    (o₃ : Prog.Outcome Error LockedPool (Nat × Nat)) (o₄ : Prog.Outcome Error LockedPool (Int × Nat)) : Prop where
  | succeed {ptr size : Nat} {off : Int} {s₁ s₂ s₃ s₄ : LockedPool}
      (h₁ : o₁ = .ok ptr s₁) (h₂ : o₂ = .ok off s₂) (h₃ : o₃ = .ok (ptr, size) s₃)
      (h₄ : o₄ = .ok (off, size) s₄) (pointer : s₁.pool.offsetToPointer off = some ptr)
      (offset : s₁.pool.pointerToOffset (some ptr) = off) (aligned : (16 : Int) ∣ off)
      (list₂ : walk s₂.pool = walk s₁.pool) (list₃ : walk s₃.pool = walk s₁.pool)
      (list₄ : walk s₄.pool = walk s₁.pool)
  | throw {s₁ s₂ s₃ s₄ : LockedPool} (h₁ : o₁ = .throw .badAlloc s₁) (h₂ : o₂ = .throw .badAlloc s₂)
      (h₃ : o₃ = .throw .badAlloc s₃) (h₄ : o₄ = .throw .badAlloc s₄)
      (list₂ : walk s₂.pool = walk s₁.pool) (list₃ : walk s₃.pool = walk s₁.pool)
      (list₄ : walk s₄.pool = walk s₁.pool)

/-- the four entry points agree on the pool `p`, and their asserts hold -/
structure Agree (p : Pool) (sz n : Nat) : Prop where
  same : SameBlock ((allocate sz n).run (idle p)) ((allocateOffset sz n).run (idle p))
    ((allocateAtLeast sz n).run (idle p)) ((allocateAtLeastOffset sz n).run (idle p))
  allocate : Checked ((allocate sz n).run (idle p))
  allocateOffset : Checked ((allocateOffset sz n).run (idle p))
  allocateAtLeast : Checked ((allocateAtLeast sz n).run (idle p))
  allocateAtLeastOffset : Checked ((allocateAtLeastOffset sz n).run (idle p))

theorem Refines.not_checked {α : Type} {m : LockedM α} {m' : PoolM α} (h : Refines 1 m m') (p : Pool) :
    ¬ Checked (m.run (idle p)) := by
  obtain ⟨j, hj, hrun⟩ := h (idle p)
  have hmem : false ∈ List.replicate j false ++ ([] : List Bool) :=
    List.mem_append_left _ (List.mem_replicate.mpr ⟨by omega, rfl⟩)
  rw [hrun]
  intro hc
  cases hm : m'.run (idle p).pool with
  | ok a q =>
    rw [hm] at hc
    exact absurd (hc false hmem) Bool.false_ne_true
  | throw e q =>
    rw [hm] at hc
    exact absurd (hc false hmem) Bool.false_ne_true
  | stuck =>
    rw [hm] at hc
    exact hc

theorem withLock_run {α : Type} (m : LockedM α) (p : Pool) :
    (withLock m).run (idle p) =
      match m.run ⟨p, true, []⟩ with
      | .ok a t => .ok a { t with isLocked := false }
      | .throw e t => .throw e { t with isLocked := false }
      | .stuck => Prog.Outcome.stuck := rfl

theorem all_true (j : Nat) : ∀ b ∈ List.replicate j true ++ [], b = true := by
  intro b hb
  rw [List.append_nil] at hb
  exact (List.mem_replicate.mp hb).2

/-- a function under the lock does what it does without it, and its asserts hold -/
theorem Refines.withLock_ok {α : Type} {k : Nat} {m : LockedM α} {m' : PoolM α} (h : Refines k m m')
    {p q : Pool} {a : α} (hm : m'.run p = .ok a q) :
    ∃ s, (withLock m).run (idle p) = .ok a s ∧ s.pool = q ∧ ∀ b ∈ s.asserts, b = true := by
  obtain ⟨j, -, hrun⟩ := h ⟨p, true, []⟩
  rw [hm] at hrun
  refine ⟨⟨q, false, List.replicate j true ++ []⟩, ?_, rfl, all_true j⟩
  rw [withLock_run, hrun]

theorem Refines.withLock_throw {α : Type} {k : Nat} {m : LockedM α} {m' : PoolM α} (h : Refines k m m')
    {p q : Pool} {e : Error} (hm : m'.run p = .throw e q) :
    ∃ s, (withLock m).run (idle p) = .throw e s ∧ s.pool = q ∧ ∀ b ∈ s.asserts, b = true := by
  obtain ⟨j, -, hrun⟩ := h ⟨p, true, []⟩
  rw [hm] at hrun
  refine ⟨⟨q, false, List.replicate j true ++ []⟩, ?_, rfl, all_true j⟩
  rw [withLock_run, hrun]

/-- **The entry points do not agree, for any pool and any request**: the assert of `allocate` fails. -/
theorem entryPoints_disagree (p : Pool) (sz n : Nat) : ¬ Agree p sz n := by
  intro h
  have hrefines : Refines 1 (LockedPool.allocate sz n) (do
      let (ptr, _) ← Stl.allocateFromListPtr (n * sz % 2^64)
      pure ptr) :=
    (refines_allocateFromListPtr _).bind fun _ => refines_pure _
  exact hrefines.not_checked p h.allocate

/-- the asserts of a call that succeeds, and where the nodes of its list stand -/
def trail {α : Type} (o : Prog.Outcome Error LockedPool α) : Option (List Bool × List Nat) :=
  o.toOption.map fun r => (r.2.asserts, (walk r.2.pool).map Placed.off)

/-- **Four bytes from a fresh pool**: the asserts of `allocate` fail, and it leaves a node at offset 36. -/
theorem allocate_misaligns :
    ¬ Agree (Pool.new 1024) 4 1 ∧
      trail ((allocate 4 1).run (idle (Pool.new 1024))) = some ([false, false], [0, 36]) ∧
      trail ((allocateOffset 4 1).run (idle (Pool.new 1024))) = some ([true, true], [0, 48]) ∧
      trail ((allocateAtLeast 4 1).run (idle (Pool.new 1024))) = some ([true, true], [0, 48]) ∧
      trail ((allocateAtLeastOffset 4 1).run (idle (Pool.new 1024))) = some ([true, true], [0, 48]) := by
  have halloc : trail ((allocate 4 1).run (idle (Pool.new 1024))) = some ([false, false], [0, 36]) := by
    decide +kernel
  refine ⟨?_, halloc, by decide +kernel, by decide +kernel, by decide +kernel⟩
  intro h
  obtain ⟨⟨ptr, s⟩, hrun, htrail⟩ := Option.map_eq_some_iff.mp halloc
  have hchecked := h.allocate
  rw [Prog.Outcome.of_toOption hrun] at hchecked
  have hasserts : s.asserts = [false, false] := congrArg Prod.fst htrail
  exact absurd (hchecked false (by rw [hasserts]; exact List.mem_cons_self)) Bool.false_ne_true

theorem refines_allocateOffset (sz n : Nat) :
    Refines 1 (do
      let (off, _) ← allocateFromList (alignUp (n * sz % 2^64))
      pure off) (Stl.allocateOffset sz n) :=
  (refines_allocateFromList _).bind fun _ => refines_pure _

/-- **The three entry points that lock agree**, in every state with the invariant of `PoolOk`: they take
one block, leave one pool, and their asserts hold. -/
theorem locking_entryPoints_agree {p : Pool} {l : List Chunk} {live : List Block} (h : PoolOk p l live)
    (sz n : Nat) :
    ∃ (s₂ s₃ s₄ : LockedPool) (q : Pool),
      (∀ s ∈ [s₂, s₃, s₄], s.pool = q ∧ ∀ b ∈ s.asserts, b = true) ∧
      ((∃ a size : Nat, 16 ∣ a ∧ q.offsetToPointer a = some a ∧ q.pointerToOffset (some a) = a ∧
          (allocateOffset sz n).run (idle p) = .ok (a : Int) s₂ ∧
          (allocateAtLeast sz n).run (idle p) = .ok (a, size) s₃ ∧
          (allocateAtLeastOffset sz n).run (idle p) = .ok ((a : Int), size) s₄) ∨
        (q = p ∧ (allocateOffset sz n).run (idle p) = .throw .badAlloc s₂ ∧
          (allocateAtLeast sz n).run (idle p) = .throw .badAlloc s₃ ∧
          (allocateAtLeastOffset sz n).run (idle p) = .throw .badAlloc s₄)) := by
  have hlist := refines_allocateFromList (alignUp (n * sz % 2^64))
  have hptr := refines_allocateFromListPtr (alignUp (n * sz % 2^64))
  have hthree : ∀ {s₂ s₃ s₄ : LockedPool} {q : Pool},
      (s₂.pool = q ∧ ∀ b ∈ s₂.asserts, b = true) → (s₃.pool = q ∧ ∀ b ∈ s₃.asserts, b = true) →
      (s₄.pool = q ∧ ∀ b ∈ s₄.asserts, b = true) →
      ∀ s ∈ [s₂, s₃, s₄], s.pool = q ∧ ∀ b ∈ s.asserts, b = true := by
    intro s₂ s₃ s₄ q h₂ h₃ h₄ s hs
    simp only [List.mem_cons, List.not_mem_nil, or_false] at hs
    rcases hs with rfl | rfl | rfl
    · exact h₂
    · exact h₃
    · exact h₄
  rcases allocateNode_run h.chunked h.room (dvd_alignUp (n * sz % 2^64)) with
    ⟨L, c, R, q, hs, hrun, hall⟩ | ⟨hrun, -⟩
  · have hok := h.allocates hall
    have hfrom := allocateFromList_ok hrun hok
    obtain ⟨s₂, h₂, hs₂⟩ := (refines_allocateOffset sz n).withLock_ok ((Prog.bind_ok hfrom).trans rfl)
    obtain ⟨s₃, h₃, hs₃⟩ := hptr.withLock_ok ((Prog.bind_ok hrun).trans rfl)
    obtain ⟨s₄, h₄, hs₄⟩ := hlist.withLock_ok hfrom
    have hle : c.off + nodeSize ≤ q.size := by
      have := hok.stop_le List.mem_cons_self
      dsimp only at this
      omega
    have h16 : 16 ∣ c.off := by
      refine h.chunked.aligned c ?_
      rw [hall.fit.eq]
      simp
    exact ⟨s₂, s₃, s₄, q, hthree hs₂ hs₃ hs₄, .inl ⟨c.off + nodeSize, _, Nat.dvd_add h16 (by decide),
      offsetToPointer_nat hle, pointerToOffset_nat hle, h₂, h₃, h₄⟩⟩
  · have hoffset : (Stl.allocateOffset sz n).run p = .throw .badAlloc p :=
      Prog.bind_throw (Prog.bind_throw hrun)
    obtain ⟨s₂, h₂, hs₂⟩ := (refines_allocateOffset sz n).withLock_throw hoffset
    obtain ⟨s₃, h₃, hs₃⟩ := hptr.withLock_throw (Prog.bind_throw hrun)
    obtain ⟨s₄, h₄, hs₄⟩ := hlist.withLock_throw (Prog.bind_throw hrun)
    exact ⟨s₂, s₃, s₄, p, hthree hs₂ hs₃ hs₄, .inr ⟨rfl, h₂, h₃, h₄⟩⟩

/-- a function that leaves the lock alone does to the pool what it does without it -/
theorem Refines.run_idle {α : Type} {k : Nat} {m : LockedM α} {m' : PoolM α} (h : Refines k m m') (p : Pool) :
    ∃ asserts, m.run (idle p) =
      match m'.run p with
      | .ok a q => .ok a ⟨q, false, asserts⟩
      | .throw e q => .throw e ⟨q, false, asserts⟩
      | .stuck => .stuck := by
  obtain ⟨j, -, hrun⟩ := h (idle p)
  exact ⟨_, hrun⟩

/-- **What `allocate` still shares with the others**: if the bytes asked for are a multiple of 16, it takes
the same block and leaves the same list. -/
theorem sameBlock_of_dvd {p : Pool} {l : List Chunk} {live : List Block} (h : PoolOk p l live) {sz n : Nat}
    (hdvd : 16 ∣ n * sz % 2^64) :
    SameBlock ((allocate sz n).run (idle p)) ((allocateOffset sz n).run (idle p))
      ((allocateAtLeast sz n).run (idle p)) ((allocateAtLeastOffset sz n).run (idle p)) := by
  have hbytes : alignUp (n * sz % 2^64) = n * sz % 2^64 := by
    have hlt : n * sz % 2^64 < 2^64 := Nat.mod_lt _ (by decide)
    rw [alignUp_eq]
    omega
  have hptr := refines_allocateFromListPtr (n * sz % 2^64)
  obtain ⟨asserts, halloc⟩ := hptr.run_idle p
  obtain ⟨s₂, s₃, s₄, q, hpools, hcases⟩ := locking_entryPoints_agree h sz n
  have hwalk : ∀ s ∈ [s₂, s₃, s₄], walk s.pool = walk q := fun s hs => congrArg walk (hpools s hs).1
  simp only [List.mem_cons, List.not_mem_nil, or_false, forall_eq_or_imp, forall_eq] at hwalk
  obtain ⟨hwalk₂, hwalk₃, hwalk₄⟩ := hwalk
  have hpool₃ : s₃.pool = q := (hpools s₃ (by simp)).1
  cases hm : (Stl.allocateFromListPtr (n * sz % 2^64)).run p with
  | ok r t =>
    obtain ⟨u, hrun, hu, -⟩ := hptr.withLock_ok hm
    rw [← hbytes] at hrun
    rw [hm] at halloc
    rcases hcases with ⟨a, size, h16, hto, hfrom, h₂, h₃, h₄⟩ | ⟨-, -, h₃, -⟩
    · obtain ⟨rfl, rfl⟩ : (a, size) = r ∧ s₃ = u := by
        have := h₃.symm.trans hrun
        exact ⟨(Prog.Outcome.ok.inj this).1, (Prog.Outcome.ok.inj this).2⟩
      obtain rfl : q = t := hpool₃.symm.trans hu
      exact .succeed (Prog.bind_ok halloc) h₂ h₃ h₄ hto hfrom (Int.natCast_dvd_natCast.mpr h16)
        hwalk₂ hwalk₃ hwalk₄
    · have hno : Prog.Outcome.throw Error.badAlloc s₃ = .ok r u := h₃.symm.trans hrun
      cases hno
  | throw e t =>
    obtain ⟨u, hrun, hu, -⟩ := hptr.withLock_throw hm
    rw [← hbytes] at hrun
    rw [hm] at halloc
    rcases hcases with ⟨a, size, -, -, -, -, h₃, -⟩ | ⟨-, h₂, h₃, h₄⟩
    · have hno : Prog.Outcome.ok (a, size) s₃ = .throw e u := h₃.symm.trans hrun
      cases hno
    · obtain ⟨rfl, rfl⟩ : Error.badAlloc = e ∧ s₃ = u := by
        have := h₃.symm.trans hrun
        exact ⟨(Prog.Outcome.throw.inj this).1, (Prog.Outcome.throw.inj this).2⟩
      obtain rfl : q = t := hpool₃.symm.trans hu
      exact .throw (Prog.bind_throw halloc) h₂ h₃ h₄ hwalk₂ hwalk₃ hwalk₄
  | stuck =>
    have hstuck : (allocateAtLeast sz n).run (idle p) = .stuck := by
      obtain ⟨j, -, hrun⟩ := hptr ⟨p, true, []⟩
      rw [hm] at hrun
      show (withLock (allocateFromListPtr (alignUp (n * sz % 2^64)))).run (idle p) = .stuck
      rw [hbytes, withLock_run, hrun]
    rcases hcases with ⟨a, size, -, -, -, -, h₃, -⟩ | ⟨-, -, h₃, -⟩
    · rw [h₃] at hstuck
      cases hstuck
    · rw [h₃] at hstuck
      cases hstuck

end LockedPool

end Stl
end Ipcpp
