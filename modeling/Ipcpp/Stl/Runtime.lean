import Ipcpp.Stl.PoolInvariant

/-!
# Attaching processes to the shared heap

`initialize_runtime` maps the shared memory object `global` (created by the first call that finds none)
and makes the allocator of this process work on it.  Both of its branches call
`initialize_factory(addr, size)`, whose function-local static runs the constructor that writes a pool
header and one free node: once in every process, at its first successful call.

The system: any number of processes that call `initialize_runtime` with or without a size, and, once
they have succeeded, allocate blocks and give back blocks of each other.  `attach_keeps_blocks`: the
blocks stay what they are as long as no process makes its first successful call while a block is live,
and not longer.
-/

namespace Ipcpp
namespace Stl
open Chunks Runs

theorem Pool.construct_inUse (p : Pool) {size : Nat} (h : headerSize + nodeSize ≤ size) :
    inUse (p.construct size) = [] :=
  (p.construct_ok h).represents.blocks.eq_nil

/-- `align_up(size, getpagesize())`, in 64 bits, for pages of 4096 bytes -/
def pageUp (size : Nat) : Nat := ((size + 4095) % 2^64) &&& (2^64 - 4096)

theorem pageUp_room {size : Nat} (h : pageUp size ≠ 0) : headerSize + nodeSize ≤ pageUp size := by
  have hmask : pageUp size = (size + 4095) % 2^64 / 4096 * 4096 :=
    Numeric.and_mask (k := 12) (by decide) (Nat.mod_lt _ (by decide))
  unfold headerSize nodeSize
  omega

structure Runtime where
  /-- the size of the shared memory object `global`, if it exists -/
  shm : Option Nat
  /-- the pool in it, with the blocks that were allocated and not given back, by any process -/
  heap : PoolState
  /-- the processes that have mapped it, and so have constructed their static allocator -/
  attached : List Nat

namespace Runtime
variable (s : Runtime)

def start : Runtime := ⟨none, ⟨⟨0, 0, Memory.empty, [], []⟩, [], []⟩, []⟩

/-- `get_shm_entry("global", minShmSize)`: the size of the mapping.  An existing object is opened, whatever
size is asked for; else it is created.  Creation may fail for reasons of the system (`created`), and
does fail for a size of no page: `mmap` refuses it. -/
def getShmEntry (minShmSize : Nat) (created : Bool) : Option Nat :=
  match s.shm with
  | some size => some size
  | none => if created ∧ pageUp minShmSize ≠ 0 then some (pageUp minShmSize) else none

/-- `initialize_factory(addr, size)` in process `p`: the static is constructed only the first time -/
def initializeFactory (p size : Nat) : Runtime :=
  if p ∈ s.attached then
    { s with shm := some size }
  else
    ⟨some size, ⟨s.heap.pool.fresh.construct size, s.heap.live, s.heap.live⟩, p :: s.attached⟩

/-- `initialize_runtime(size)`; the default size is `0` -/
def initializeRuntime (p size : Nat) (created : Bool) : Runtime :=
  if size ≠ 0 then
    match s.getShmEntry size created with
    | some mapped => s.initializeFactory p mapped
    | none => s
  else
    match s.getShmEntry 0 created with
    | some mapped => s.initializeFactory p mapped
    | none => s

inductive Action where
  /-- process `p` calls `initialize_runtime(size)` -/
  | initializeRuntime (p size : Nat) (created : Bool)
  /-- process `p` calls a function of its allocator -/
  | call (p : Nat) (c : Call)

def step (s : Runtime) : Action → Option Runtime
  | .initializeRuntime p size created => some (s.initializeRuntime p size created)
  | .call p c => if p ∈ s.attached then (s.heap.step c).map fun heap => { s with heap } else none

/-- every live block is the payload of a node in use, and no two of them overlap -/
def Intact : Prop :=
  (∀ b ∈ s.heap.live, b ∈ inUse s.heap.pool) ∧
    s.heap.live.Pairwise fun b b' => Apart b.off b.size b'.off b'.size

instance : DecidablePred Intact := fun _ =>
  haveI : DecidableRel fun b b' : Block => Apart b.off b.size b'.off b'.size := fun b b' =>
    inferInstanceAs (Decidable (b.off + b.size ≤ b'.off ∨ b'.off + b'.size ≤ b.off))
  inferInstanceAs (Decidable (_ ∧ _))

/-- the first successful call of a process: it has not mapped the object, and it can open or create it -/
def FirstSuccess (p size : Nat) (created : Bool) : Prop :=
  p ∉ s.attached ∧ (s.getShmEntry size created).isSome

/-- a process that attaches finds no live block -/
def NothingLive : Action → Prop
  | .initializeRuntime p size created => s.FirstSuccess p size created → s.heap.live = []
  | .call _ _ => True

structure Inv : Prop where
  /-- the object has room for a pool -/
  room : ∀ size ∈ s.shm, headerSize + nodeSize ≤ size
  /-- before the first process has attached there is no pool, but no block either -/
  heap : (s.attached = [] ∧ s.heap.live = []) ∨ ∃ size, s.shm = some size ∧ s.heap.Inv size

theorem start_inv : start.Inv := by
  refine ⟨fun size h => ?_, .inl ⟨rfl, rfl⟩⟩
  cases h

variable {s}

theorem initializeRuntime_eq (p size : Nat) (created : Bool) :
    s.initializeRuntime p size created =
      match s.getShmEntry size created with
      | some mapped => s.initializeFactory p mapped
      | none => s := by
  unfold initializeRuntime
  by_cases h : size ≠ 0
  · rw [if_pos h]
  · rw [if_neg h, Decidable.not_not.mp h]

theorem Inv.intact (h : s.Inv) : s.Intact := by
  rcases h.heap with ⟨-, hlive⟩ | ⟨size, -, hheap⟩
  · refine ⟨fun b hb => ?_, ?_⟩
    · rw [hlive] at hb
      cases hb
    · rw [hlive]
      exact .nil
  · obtain ⟨l, hl⟩ := hheap.ok
    exact ⟨fun b hb => hl.represents.blocks.mem_iff.mpr hb, hl.pairwise⟩

theorem Inv.mapped_room (h : s.Inv) {size mapped : Nat} {created : Bool}
    (hm : s.getShmEntry size created = some mapped) : headerSize + nodeSize ≤ mapped := by
  unfold getShmEntry at hm
  split at hm
  · rename_i n hn
    exact h.room mapped (hn.trans hm)
  · split at hm
    · rename_i hok
      exact Option.some.inj hm ▸ pageUp_room hok.2
    · cases hm

/-- an attached process has an object to be attached to -/
theorem getShmEntry_of_shm {size n mapped : Nat} {created : Bool} (hn : s.shm = some n)
    (hm : s.getShmEntry size created = some mapped) : mapped = n := by
  unfold getShmEntry at hm
  rw [hn] at hm
  exact (Option.some.inj hm).symm

theorem Inv.initializeFactory (h : s.Inv) {p size : Nat} (hroom : headerSize + nodeSize ≤ size)
    (hshm : ∀ n, s.shm = some n → n = size) (hlive : p ∉ s.attached → s.heap.live = []) :
    (s.initializeFactory p size).Inv := by
  unfold Runtime.initializeFactory
  by_cases hp : p ∈ s.attached
  · -- the static is constructed already: nothing is written
    rw [if_pos hp]
    refine ⟨fun n hn => Option.some.inj hn ▸ hroom, ?_⟩
    rcases h.heap with ⟨hnone, -⟩ | ⟨n, hn, hheap⟩
    · rw [hnone] at hp
      cases hp
    · exact .inr ⟨size, rfl, hshm n hn ▸ hheap⟩
  · rw [if_neg hp, hlive hp]
    refine ⟨fun n hn => Option.some.inj hn ▸ hroom, .inr ⟨size, rfl, rfl, ⟨_, Pool.construct_ok _ hroom⟩, ?_⟩⟩
    intro x _ b hb
    cases hb

/-- **One step**: if nothing is live when a process attaches, the invariant is kept. -/
theorem Inv.step (h : s.Inv) {a : Action} (hC : s.NothingLive a) {t : Runtime}
    (ht : s.step a = some t) : t.Inv := by
  cases a with
  | initializeRuntime p size created =>
    obtain rfl : s.initializeRuntime p size created = t := Option.some.inj ht
    rw [initializeRuntime_eq]
    cases hm : s.getShmEntry size created with
    | none => exact h
    | some mapped =>
      refine h.initializeFactory (h.mapped_room hm) (fun n hn => (getShmEntry_of_shm hn hm).symm) ?_
      exact fun hp => hC ⟨hp, by rw [hm]; rfl⟩
  | call p c =>
    have ht' : (if p ∈ s.attached then (s.heap.step c).map fun heap => { s with heap } else none)
        = some t := ht
    split at ht'
    · rename_i hp
      obtain ⟨heap, hheap, rfl⟩ := Option.map_eq_some_iff.mp ht'
      refine ⟨h.room, ?_⟩
      rcases h.heap with ⟨hnone, -⟩ | ⟨n, hn, hinv⟩
      · rw [hnone] at hp
        cases hp
      · obtain ⟨u, hu, huinv⟩ := PoolState.step_inv hinv (PoolState.allowed_of_step hheap)
        obtain rfl : u = heap := Option.some.inj (hu.symm.trans hheap)
        exact .inr ⟨n, hn, huinv⟩
    · cases ht'

/-- **A process that attaches while a block is live destroys it**: the new pool has no node in use. -/
theorem nothingLive_of_intact (h : s.Inv) {a : Action} {t : Runtime} (hP : t.Intact)
    (ht : s.step a = some t) : s.NothingLive a := by
  cases a with
  | initializeRuntime p size created =>
    rintro ⟨hp, hsome⟩
    obtain ⟨mapped, hm⟩ := Option.isSome_iff_exists.mp hsome
    obtain rfl : s.initializeRuntime p size created = t := Option.some.inj ht
    rw [initializeRuntime_eq, hm] at hP
    dsimp only at hP
    unfold initializeFactory at hP
    rw [if_neg hp] at hP
    rw [List.eq_nil_iff_forall_not_mem]
    intro b hb
    have hin : b ∈ inUse (s.heap.pool.fresh.construct mapped) := hP.1 b hb
    rw [Pool.construct_inUse _ (h.mapped_room hm)] at hin
    cases hin
  | call p c => exact trivial

/-- **Attaching and the blocks of the shared heap.**  In a run of any number of processes, every block
that was allocated and not given back stays a block in use, apart from all the others, exactly when no
process makes its first successful call of `initialize_runtime` while a block is live. -/
theorem attach_keeps_blocks (as : List Action) :
    Always step Intact start as ↔ Every step NothingLive start as :=
  always_iff_every_of (Q := Inv) (fun _ h => h.intact) (fun _ _ _ h hC ht => h.step hC ht)
    (fun _ _ _ h hP ht => nothingLive_of_intact h hP ht) as start_inv

/-- the first process creates the heap and allocates a block; the second one attaches, with no size -/
def secondProcess : List Action :=
  [.initializeRuntime 0 16384 true, .call 0 (.allocateOffset 8 1), .initializeRuntime 1 0 true]

theorem second_process_frees_block : ¬ Always step Intact start secondProcess := by
  decide +kernel

end Runtime

end Stl
end Ipcpp
