import Ipcpp.Stl.Runtime

/-!
# The allocator factory of one process

`initialize_factory(addr, size)` of `pool_allocator<T>` constructs a pool at `addr`, as the initial value
of a function-local static, and makes `addr` the address that `get_singleton` uses.  The static exists once
for every `T`; the address is one for all of them.

The system: one process, which calls both overloads of `initialize_factory` and the functions of
`get_singleton()`, of any element types, in any order; between its calls the memory may change in any way
(other processes, pools that overlap).  `initialises_iff`: a call with two arguments leaves a new pool at
`addr` exactly when it is the first such call for its `T` (`mem_constructed_iff`), or when a new pool of that
size has been there before.
-/

namespace Ipcpp
namespace Stl
open Chunks Runs

/-- the two members of a `pool_allocator` -/
structure PoolAllocator where
  header : Nat
  memory : Nat
deriving DecidableEq

/-- `pool_allocator(addr)` -/
def PoolAllocator.attach (addr : Nat) : PoolAllocator := ⟨addr, addr + headerSize⟩

/-- a process; `T` is the type of its element types -/
structure Factory (T : Type) where
  /-- the element types whose static is constructed -/
  constructed : List T
  singletonProcessAddr : Nat
  /-- what stands at each address, read as a pool -/
  pools : Nat → Pool

namespace Factory
variable {T : Type} [DecidableEq T]

/-- a process that starts, whatever is in its memory -/
def start (pools : Nat → Pool) : Factory T := ⟨[], 0, pools⟩

section
variable (s : Factory T)

/-- `initialize_factory(addr, size)` of `pool_allocator<t>` -/
def initializeFactory (t : T) (addr size : Nat) : Factory T :=
  if t ∈ s.constructed then
    { s with singletonProcessAddr := addr }
  else
    ⟨t :: s.constructed, addr, Function.update s.pools addr ((s.pools addr).construct size)⟩

/-- `initialize_factory(addr)` -/
def attachFactory (addr : Nat) : Factory T := { s with singletonProcessAddr := addr }

/-- `get_singleton()` of `pool_allocator<t>` -/
def getSingleton (_t : T) : Except String PoolAllocator :=
  if s.singletonProcessAddr = 0 then
    .error "Allocator Factory not initialized. Call DynamicAllocator<T_p>::initialize_factory first."
  else
    .ok (.attach s.singletonProcessAddr)

end

/-- the functions of a `pool_allocator` -/
inductive Method where
  | allocateOffset (n : Nat)
  | allocateAtLeast (n : Nat)
  | allocateAtLeastOffset (n : Nat)
  | deallocate (ptr : Nat)

def Method.body (sz : Nat) : Method → PoolM Unit
  | .allocateOffset n => do
    let _ ← Stl.allocateOffset sz n
    pure ()
  | .allocateAtLeast n => do
    let _ ← Stl.allocateAtLeast sz n
    pure ()
  | .allocateAtLeastOffset n => do
    let _ ← Stl.allocateAtLeastOffset sz n
    pure ()
  | .deallocate ptr => Stl.deallocate ptr

inductive Action (T : Type) where
  /-- `initialize_factory(addr, size)` -/
  | initializeFactory (t : T) (addr size : Nat)
  /-- `initialize_factory(addr)` -/
  | attachFactory (t : T) (addr : Nat)
  /-- a call of a function of `get_singleton()` -/
  | call (t : T) (m : Method)
  /-- whatever else writes to the memory -/
  | write (pools : Nat → Pool)

/-- the pool at `addr` after a call -/
def putPool (s : Factory T) (addr : Nat) : Prog.Outcome Error Pool Unit → Option (Factory T)
  | .ok _ p => some { s with pools := Function.update s.pools addr p }
  | .throw _ p => some { s with pools := Function.update s.pools addr p }
  | .stuck => none

/-- one call, of element types of `sizeof` bytes.  A pool needs an address and room for its header and one
node; without that the constructor has no meaning. -/
def step (sizeof : T → Nat) (s : Factory T) : Action T → Option (Factory T)
  | .initializeFactory t addr size =>
    if addr ≠ 0 ∧ headerSize + nodeSize ≤ size then some (s.initializeFactory t addr size) else none
  | .attachFactory _ addr => some (s.attachFactory addr)
  | .call t m =>
    match s.getSingleton t with
    | .ok alloc => s.putPool alloc.header ((m.body (sizeof t)).run (s.pools alloc.header))
    | .error _ => some s
  | .write pools => some { s with pools }

/-! ## what a call of `initialize_factory` does -/

/-- a pool of `size` bytes with one free node, which takes up all of it -/
structure IsNew (size : Nat) (p : Pool) : Prop where
  header : p.size = size
  list : walk p = [⟨0, ⟨size - headerSize - nodeSize, invalidOffset, invalidOffset, true⟩⟩]

theorem construct_isNew (p : Pool) {size : Nat} (h : headerSize + nodeSize ≤ size) :
    IsNew size (p.construct size) :=
  ⟨rfl, (p.construct_ok h).chunked.walk_eq h⟩

section
variable (s : Factory T)

/-- a call with two arguments leaves a new pool at `addr`, and every element type uses it -/
def Initialises : Action T → Prop
  | .initializeFactory t addr size =>
    IsNew size ((s.initializeFactory t addr size).pools addr) ∧
      ∀ t', (s.initializeFactory t addr size).getSingleton t' = .ok (.attach addr)
  | _ => True

/-- a call with two arguments is the first one of its element type, or finds a new pool of that size -/
def Constructs : Action T → Prop
  | .initializeFactory t addr size => t ∉ s.constructed ∨ IsNew size (s.pools addr)
  | _ => True

end

variable {s : Factory T}

omit [DecidableEq T] in
theorem getSingleton_of_ne {addr : Nat} (h : addr ≠ 0) (hs : s.singletonProcessAddr = addr) (t : T) :
    s.getSingleton t = .ok (.attach addr) := by
  unfold getSingleton
  rw [hs, if_neg h]

theorem initializeFactory_singleton (t : T) (addr size : Nat) :
    (s.initializeFactory t addr size).singletonProcessAddr = addr := by
  unfold initializeFactory
  split
  · rfl
  · rfl

theorem initializeFactory_pools (t : T) (addr size : Nat) :
    (s.initializeFactory t addr size).pools addr =
      if t ∈ s.constructed then s.pools addr else (s.pools addr).construct size := by
  unfold initializeFactory
  split
  · rfl
  · exact Function.update_self _ _ _

/-- **One call**: the pool is new after it exactly if it was constructed, or new before. -/
theorem isNew_initializeFactory {size : Nat} (h : headerSize + nodeSize ≤ size) (t : T) (addr : Nat) :
    IsNew size ((s.initializeFactory t addr size).pools addr) ↔
      t ∉ s.constructed ∨ IsNew size (s.pools addr) := by
  rw [initializeFactory_pools]
  by_cases ht : t ∈ s.constructed
  · rw [if_pos ht, or_iff_right (not_not_intro ht)]
  · rw [if_neg ht]
    exact iff_of_true (construct_isNew _ h) (.inl ht)

theorem step_initialises_iff {sizeof : T → Nat} {a : Action T} {u : Factory T}
    (hu : s.step sizeof a = some u) : s.Initialises a ↔ s.Constructs a := by
  cases a with
  | initializeFactory t addr size =>
    by_cases henabled : addr ≠ 0 ∧ headerSize + nodeSize ≤ size
    · refine Iff.trans ?_ (isNew_initializeFactory henabled.2 t addr)
      exact and_iff_left (getSingleton_of_ne henabled.1 (initializeFactory_singleton t addr size))
    · have hno : s.step sizeof (.initializeFactory t addr size) = none := if_neg henabled
      rw [hno] at hu
      cases hu
  | attachFactory t addr => exact Iff.rfl
  | call t m => exact Iff.rfl
  | write pools => exact Iff.rfl

/-- **The calls of `initialize_factory` of one process.**  In every sequence of calls, of any element types
and with any changes of the memory between them, each call with two arguments leaves a new pool of the
given size at the given address, for every element type, exactly when each of them is the first one of its
element type or finds such a pool there. -/
theorem initialises_iff (sizeof : T → Nat) (pools : Nat → Pool) (as : List (Action T)) :
    Every (step sizeof) Initialises (start pools) as ↔ Every (step sizeof) Constructs (start pools) as :=
  every_congr (fun _ _ _ hu => step_initialises_iff hu) as

def blank : Nat → Pool := fun _ => ⟨0, 0, Memory.empty, [], []⟩

/-- two pools of one element type, at two addresses -/
def twoPools : List (Action Nat) := [.initializeFactory 1 4096 1024, .initializeFactory 1 8192 2048]

/-- the second one is not constructed -/
theorem second_pool_not_constructed : ¬ Every (step id) Initialises (start blank) twoPools := by
  intro h
  obtain ⟨-, hrest⟩ := h _ rfl
  obtain ⟨hinit, -⟩ := hrest _ rfl
  have hsize : (blank 8192).size = 2048 := hinit.1.header
  exact absurd hsize (by decide)

/-! ## the history of the calls -/

theorem initializeFactory_constructed (t t' : T) (addr size : Nat) :
    t' ∈ (s.initializeFactory t addr size).constructed ↔ t' ∈ s.constructed ∨ t' = t := by
  unfold initializeFactory
  split
  · rename_i ht
    refine ⟨.inl, ?_⟩
    rintro (ht' | rfl)
    · exact ht'
    · exact ht
  · exact List.mem_cons.trans or_comm

omit [DecidableEq T] in
theorem putPool_constructed {addr : Nat} {o : Prog.Outcome Error Pool Unit} {u : Factory T}
    (hu : s.putPool addr o = some u) : u.constructed = s.constructed := by
  cases o with
  | ok a p =>
    obtain rfl := Option.some.inj hu
    rfl
  | throw e p =>
    obtain rfl := Option.some.inj hu
    rfl
  | stuck => cases hu

theorem step_constructed {sizeof : T → Nat} {a : Action T} {u : Factory T}
    (hu : s.step sizeof a = some u) (t : T) :
    t ∈ u.constructed ↔ t ∈ s.constructed ∨ ∃ addr size, a = .initializeFactory t addr size := by
  cases a with
  | initializeFactory t' addr size =>
    have hstep : (if addr ≠ 0 ∧ headerSize + nodeSize ≤ size then some (s.initializeFactory t' addr size)
        else none) = some u := hu
    split at hstep
    · obtain rfl := Option.some.inj hstep
      rw [initializeFactory_constructed]
      refine or_congr_right ⟨?_, ?_⟩
      · rintro rfl
        exact ⟨addr, size, rfl⟩
      · rintro ⟨addr', size', h⟩
        exact (Action.initializeFactory.inj h).1.symm
    · cases hstep
  | attachFactory t' addr =>
    obtain rfl := Option.some.inj hu
    simp [attachFactory]
  | call t' m =>
    have hstep : (match s.getSingleton t' with
        | .ok alloc => s.putPool alloc.header ((m.body (sizeof t')).run (s.pools alloc.header))
        | .error _ => some s) = some u := hu
    have hsame : u.constructed = s.constructed := by
      split at hstep
      · exact putPool_constructed hstep
      · exact congrArg constructed (Option.some.inj hstep).symm
    simp [hsame]
  | write pools =>
    obtain rfl := Option.some.inj hu
    simp

theorem run_constructed {sizeof : T → Nat} (as : List (Action T)) (t : T) :
    ∀ {s u : Factory T}, run (step sizeof) s as = some u →
      (t ∈ u.constructed ↔ t ∈ s.constructed ∨ ∃ addr size, .initializeFactory t addr size ∈ as) := by
  induction as with
  | nil =>
    intro s u hu
    obtain rfl := Option.some.inj hu
    simp
  | cons a as ih =>
    intro s u hu
    obtain ⟨v, hv, hrest⟩ := run_cons.mp hu
    rw [ih hrest, step_constructed hv, or_assoc, ← exists_or]
    refine or_congr_right (exists_congr fun addr => ?_)
    rw [← exists_or]
    exact exists_congr fun size => (List.mem_cons.trans (or_congr_left eq_comm)).symm

/-- **The static of `t` is constructed** exactly when a call with two arguments was made for `t`. -/
theorem mem_constructed_iff {sizeof : T → Nat} {pools : Nat → Pool} {as : List (Action T)} {u : Factory T}
    (hu : run (step sizeof) (start pools) as = some u) (t : T) :
    t ∈ u.constructed ↔ ∃ addr size, .initializeFactory t addr size ∈ as :=
  (run_constructed as t hu).trans (or_iff_right List.not_mem_nil)

/-! ## the processes of `Runtime` -/

/-- **A process of `Runtime` is a factory.**  If the static is constructed in both or in neither, and the
object is mapped at `addr`, then `initialize_factory` does the same to the pool and to the static in
both. -/
theorem runtime_initializeFactory {r : Runtime} {t : T} {p addr : Nat}
    (hstatic : t ∈ s.constructed ↔ p ∈ r.attached) (hpool : (s.pools addr).fresh = r.heap.pool.fresh) (size : Nat) :
    ((s.initializeFactory t addr size).pools addr).fresh = (r.initializeFactory p size).heap.pool.fresh ∧
      (t ∈ (s.initializeFactory t addr size).constructed ↔ p ∈ (r.initializeFactory p size).attached) := by
  rw [initializeFactory_pools, initializeFactory_constructed]
  unfold Runtime.initializeFactory
  by_cases hp : p ∈ r.attached
  · rw [if_pos (hstatic.mpr hp), if_pos hp]
    exact ⟨hpool, iff_of_true (.inr rfl) hp⟩
  · rw [if_neg (fun ht => hp (hstatic.mp ht)), if_neg hp]
    refine ⟨?_, iff_of_true (.inr rfl) List.mem_cons_self⟩
    show ((s.pools addr).fresh.construct size).fresh = (r.heap.pool.fresh.construct size).fresh
    rw [hpool]

end Factory

end Stl
end Ipcpp
