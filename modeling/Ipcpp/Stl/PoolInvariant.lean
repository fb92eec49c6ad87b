import Ipcpp.Lib.Runs
import Ipcpp.Stl.Blocks

/-!
# The representation of a pool, over any sequence of calls

`walk p` follows `next_offset` from `list_head_offset`.  `Represents p live` is what the list of nodes it
visits says about the memory and about the blocks that were handed out and not yet given back.

The state of the system is a pool with its live blocks; an action is a call of one of the public
functions, with any element size and any count, or the return of a live block.
`representation` is about every state of every run, `Represents` and the places of the node headers that
the last call wrote; in such a state no call gets stuck.
-/

namespace Ipcpp
namespace Stl
open Chunks Runs

/-! ## walking the list -/

/-- a node and where it stands -/
structure Placed where
  off : Nat
  node : AllocatorListNode

def Placed.stop (x : Placed) : Nat := x.off + nodeSize + x.node.size

def Placed.payload (x : Placed) : Block := ⟨x.off + nodeSize, x.node.size⟩

/-- the nodes from `off` on -/
def walkFrom (p : Pool) : Nat → Int → List Placed
  | 0, _ => []
  | fuel + 1, off =>
    match p.offsetToPointer off with
    | none => []
    | some a =>
      match p.memory.record a with
      | none => []
      | some nd => ⟨a, nd⟩ :: walkFrom p fuel nd.nextOffset

def walk (p : Pool) : List Placed := walkFrom p p.size p.listHeadOffset

/-- the payloads of the nodes that are not free -/
def inUse (p : Pool) : List Block := ((walk p).filter fun x => !x.node.isFree).map Placed.payload

/-- `x` is followed by `y`, in the memory and in both links -/
structure Neighbours (x y : Placed) : Prop where
  next : x.node.nextOffset = (x.off + nodeSize + x.node.size : Nat)
  off : y.off = x.off + nodeSize + x.node.size
  prev : y.node.prevOffset = x.off
  used : ¬ (x.node.isFree = true ∧ y.node.isFree = true)

structure Represents (p : Pool) (live : List Block) : Prop where
  tiles : Tiled Placed.off Placed.stop 0 (walk p) (p.size - headerSize)
  first : ∀ x ∈ (walk p).head?, x.node.prevOffset = invalidOffset
  last : ∀ x ∈ (walk p).getLast?, x.node.nextOffset = invalidOffset
  neighbours : (walk p).IsChain Neighbours
  aligned : ∀ x ∈ walk p, 16 ∣ x.off
  blocks : (inUse p).Perm live
  disjoint : live.Pairwise fun b b' => Apart b.off b.size b'.off b'.size
  inside : ∀ b ∈ live, b.off + b.size ≤ p.size - headerSize

/-- the nodes of linked chunks -/
def placed (prev : Int) : List Chunk → List Placed
  | [] => []
  | c :: l => ⟨c.off, ⟨c.size, Chunks.first Chunk.addr invalidOffset l, prev, c.free⟩⟩ :: placed c.addr l

theorem walkFrom_eq {p : Pool} (l : List Chunk) :
    ∀ (prev : Int) (fuel : Nat), Linked p.memory prev l invalidOffset → (∀ c ∈ l, c.off ≤ p.size) →
      l.length ≤ fuel → walkFrom p fuel (Chunks.first Chunk.addr invalidOffset l) = placed prev l := by
  induction l with
  | nil =>
    intro prev fuel _ _ _
    cases fuel with
    | zero => rfl
    | succ fuel =>
      unfold walkFrom
      rw [first_nil, offsetToPointer_invalid]
      rfl
  | cons c l ih =>
    intro prev fuel h hle hfuel
    obtain ⟨f, rfl⟩ : ∃ f, fuel = f + 1 := ⟨fuel - 1, by simp at hfuel; omega⟩
    have hptr : p.offsetToPointer (Chunks.first Chunk.addr invalidOffset (c :: l)) = some c.off :=
      offsetToPointer_nat (hle c List.mem_cons_self)
    have hnode : p.memory.record c.off = _ := h.1
    unfold walkFrom
    rw [hptr]
    dsimp only
    rw [hnode]
    dsimp only
    rw [ih c.addr f h.2 (fun d hd => hle d (List.mem_cons_of_mem _ hd)) (by simpa using hfuel)]
    rfl

theorem Chunked.walk_eq {p : Pool} {l : List Chunk} (h : Chunked p l)
    (hp : headerSize + nodeSize ≤ p.size) : walk p = placed invalidOffset l := by
  have hhead : p.listHeadOffset = Chunks.first Chunk.addr invalidOffset l := by
    obtain ⟨c, R, rfl, h0⟩ := h.exists_first hp
    rw [h.head]
    show (0 : Int) = (c.off : Int)
    rw [h0]
    rfl
  unfold walk
  rw [hhead]
  refine walkFrom_eq l invalidOffset p.size h.linked (fun c hc => ?_)
    (Nat.le_of_lt (h.length_lt (Nat.le_trans (Nat.le_add_right _ _) hp)))
  have hbound := (h.tiled.bounds Chunk.off_le_stop hc).2
  have := c.off_le_stop
  omega

theorem placed_tiled {a b : Nat} {l : List Chunk} (prev : Int) (h : Tiled Chunk.off Chunk.stop a l b) :
    Tiled Placed.off Placed.stop a (placed prev l) b := by
  induction l generalizing a prev with
  | nil => exact h
  | cons c l ih => exact ⟨h.1, ih c.addr h.2⟩

theorem placed_neighbours {a b : Nat} {l : List Chunk} (prev : Int) (h : Tiled Chunk.off Chunk.stop a l b)
    (hc : l.IsChain NotBothFree) : (placed prev l).IsChain Neighbours := by
  induction l generalizing a prev with
  | nil => exact .nil
  | cons c l ih =>
    refine .cons (ih c.addr h.2 (List.isChain_cons.mp hc).2) fun y hy => ?_
    cases l with
    | nil => cases hy
    | cons d l =>
      obtain rfl : _ = y := Option.some.inj hy
      have hd : d.off = c.off + nodeSize + c.size := h.2.1
      exact ⟨congrArg Nat.cast hd, hd, rfl, (List.isChain_cons.mp hc).1 d rfl⟩

theorem placed_head {prev : Int} {l : List Chunk} {x : Placed} (hx : x ∈ (placed prev l).head?) :
    x.node.prevOffset = prev := by
  cases l with
  | nil => cases hx
  | cons c l =>
    obtain rfl : _ = x := Option.some.inj hx
    rfl

theorem placed_last {prev : Int} {l : List Chunk} {x : Placed} (hx : x ∈ (placed prev l).getLast?) :
    x.node.nextOffset = invalidOffset := by
  induction l generalizing prev with
  | nil => cases hx
  | cons c l ih =>
    cases l with
    | nil =>
      obtain rfl : _ = x := Option.some.inj hx
      rfl
    | cons d l =>
      refine @ih c.addr ?_
      have hxs : (placed prev (c :: d :: l)).getLast? = some x := hx
      exact hxs

theorem placed_payloads (prev : Int) (l : List Chunk) :
    ((placed prev l).filter fun x => !x.node.isFree).map Placed.payload = used l := by
  induction l generalizing prev with
  | nil => rfl
  | cons c l ih =>
    unfold placed
    cases hc : c.free with
    | true =>
      rw [used_cons_free hc, ← ih c.addr]
      simp
    | false =>
      rw [used_cons hc, ← ih c.addr]
      simp [Placed.payload, Chunk.block]

theorem placed_mem {prev : Int} {l : List Chunk} {x : Placed} (hx : x ∈ placed prev l) :
    ∃ c ∈ l, c.off = x.off := by
  induction l generalizing prev with
  | nil => cases hx
  | cons c l ih =>
    rcases List.mem_cons.mp hx with rfl | hx
    · exact ⟨c, List.mem_cons_self, rfl⟩
    · obtain ⟨d, hd, hoff⟩ := ih hx
      exact ⟨d, List.mem_cons_of_mem _ hd, hoff⟩

theorem PoolOk.represents {p : Pool} {l : List Chunk} {live : List Block} (h : PoolOk p l live) :
    Represents p live := by
  have hw := h.chunked.walk_eq h.room
  have hblocks : inUse p = used l := by
    unfold inUse
    rw [hw, placed_payloads]
  refine ⟨?_, ?_, ?_, ?_, ?_, hblocks ▸ h.live, h.pairwise, fun b hb => h.stop_le hb⟩ <;> rw [hw]
  · exact placed_tiled _ h.chunked.tiled
  · exact fun x hx => placed_head hx
  · exact fun x hx => placed_last hx
  · exact placed_neighbours _ h.chunked.tiled h.coalesced
  · intro x hx
    obtain ⟨c, hc, hoff⟩ := placed_mem hx
    exact hoff ▸ h.chunked.aligned c hc

/-! ## runs -/

structure PoolState where
  pool : Pool
  live : List Block
  /-- the blocks that were live before the last call -/
  before : List Block

inductive Call where
  | allocateOffset (sz n : Nat)
  | allocateAtLeast (sz n : Nat)
  | allocateAtLeastOffset (sz n : Nat)
  | deallocate (b : Block)

/-- forget what was written so far -/
def Pool.fresh (p : Pool) : Pool := { p with headers := [], elements := [] }

/-- the payload behind the node header that ends at `off` -/
def payloadAt (p : Pool) (off : Int) : Option Block :=
  (p.memory.record (off.toNat - nodeSize)).map fun nd => ⟨off.toNat, nd.size⟩

namespace PoolState
variable (s : PoolState)

def init (size : Nat) : PoolState := ⟨Pool.new size, [], []⟩

/-- the state after an allocation; `block` is the block it has handed out -/
def handOut {α : Type} (block : Pool → α → Option Block) : Prog.Outcome Error Pool α → Option PoolState
  | .ok a p => (block p a).map fun b => ⟨p, b :: s.live, s.live⟩
  | .throw _ p => some ⟨p, s.live, s.live⟩
  | .stuck => none

def takeBack (b : Block) : Prog.Outcome Error Pool Unit → Option PoolState
  | .ok _ p => some ⟨p, s.live.erase b, s.live⟩
  | .throw _ p => some ⟨p, s.live, s.live⟩
  | .stuck => none

/-- one call, if it is allowed and not stuck -/
def step (s : PoolState) : Call → Option PoolState
  | .allocateOffset sz n => s.handOut payloadAt ((allocateOffset sz n).run s.pool.fresh)
  | .allocateAtLeast sz n =>
    s.handOut (fun _ r => some ⟨r.1, r.2⟩) ((allocateAtLeast sz n).run s.pool.fresh)
  | .allocateAtLeastOffset sz n =>
    s.handOut (fun _ r => some ⟨r.1.toNat, r.2⟩) ((allocateAtLeastOffset sz n).run s.pool.fresh)
  | .deallocate b => if b ∈ s.live then s.takeBack b ((deallocate b.off).run s.pool.fresh) else none

/-- only live blocks are given back -/
def Allowed : Call → Prop
  | .deallocate b => b ∈ s.live
  | _ => True

/-- the node headers that the last call wrote are in no block, before or after it -/
def HeadersApart : Prop :=
  ∀ a ∈ s.pool.headers, ∀ b ∈ s.before ++ s.live, Apart a nodeSize b.off b.size

structure Inv (size : Nat) : Prop where
  size : s.pool.size = size
  ok : ∃ l, PoolOk s.pool l s.live
  apart : s.HeadersApart

end PoolState

theorem Pool.fresh_ok {p : Pool} {l : List Chunk} {live : List Block} (h : PoolOk p l live) :
    PoolOk p.fresh l live :=
  ⟨h.room, ⟨h.chunked.head, h.chunked.tiled, h.chunked.linked, h.chunked.aligned⟩, h.coalesced, h.live⟩

/-- the headers written since `fresh` are where the list `l` has its nodes -/
theorem headersApart_of {p q p' : Pool} {hs : List Nat} (hf : Frame p.fresh p' hs) {l : List Chunk}
    {live : List Block} (h : PoolOk q l live) (hw : ∀ a ∈ hs, ∃ d ∈ l, d.off = a) {a : Nat}
    (ha : a ∈ p'.headers) {b : Block} (hb : b ∈ live) : Apart a nodeSize b.off b.size := by
  rw [hf.headers] at ha
  have ha' : a ∈ hs := by simpa [Pool.fresh] using ha
  obtain ⟨d, hd, rfl⟩ := hw a ha'
  exact h.header_apart hd hb

/-- whatever was there before, the pool is one free node afterwards -/
theorem Pool.construct_ok (p : Pool) {size : Nat} (h : headerSize + nodeSize ≤ size) :
    PoolOk (p.construct size) [⟨0, size - headerSize - nodeSize, true⟩] [] := by
  refine ⟨h, ⟨rfl, ⟨rfl, ?_⟩, ⟨putNode_record_self _ _ _, trivial⟩, ?_⟩, .singleton _, .refl _⟩
  · show 0 + nodeSize + (size - headerSize - nodeSize) = size - headerSize
    omega
  · intro c hc
    rw [List.mem_singleton.mp hc]
    exact Nat.dvd_zero 16

theorem Pool.new_ok {size : Nat} (h : headerSize + nodeSize ≤ size) :
    PoolOk (Pool.new size) [⟨0, size - headerSize - nodeSize, true⟩] [] :=
  Pool.construct_ok ⟨size, 0, Memory.empty, [], []⟩ h

/-- the node of a live block is its size -/
theorem PoolOk.payloadAt {p : Pool} {l : List Chunk} {live : List Block} (h : PoolOk p l live) {a size : Nat}
    (hb : ⟨a + nodeSize, size⟩ ∈ live) :
    Stl.payloadAt p ((a : Int) + nodeSize) = some ⟨a + nodeSize, size⟩ := by
  obtain ⟨c, hc, -, hcb⟩ := h.mem hb
  obtain ⟨X, Y, rfl⟩ := List.append_of_mem hc
  have hnode := (chunked_iff_zipper.mp h.chunked).node
  have hoff : c.off = a := Nat.add_right_cancel (congrArg Block.off hcb)
  have hsize : c.size = size := congrArg Block.size hcb
  have hcast : ((a : Int) + nodeSize).toNat = a + nodeSize := by omega
  unfold Stl.payloadAt
  rw [hcast, Nat.add_sub_cancel, ← hoff, hnode, Option.map_some, hsize]

/-- `m` hands out, as `block` reads it off, the node that `allocateNode` takes for `bytes` bytes -/
structure EntryPoint {α : Type} (bytes : Nat) (block : Pool → α → Option Block) (m : PoolM α) : Prop where
  ok : ∀ {p p' : Pool} {a n : Nat} {l : List Chunk} {live : List Block},
    (allocateNode bytes).run p = .ok (a, n) p' → PoolOk p' l (⟨a + nodeSize, n⟩ :: live) →
      ∃ r, m.run p = .ok r p' ∧ block p' r = some ⟨a + nodeSize, n⟩
  throw : ∀ {p p' : Pool} {e : Error}, (allocateNode bytes).run p = .throw e p' → m.run p = .throw e p'

theorem entry_allocateOffset (sz n : Nat) :
    EntryPoint (alignUp (n * sz % 2^64)) payloadAt (allocateOffset sz n) where
  ok hrun hl := ⟨_, (Prog.bind_ok (allocateFromList_ok hrun hl)).trans rfl, hl.payloadAt List.mem_cons_self⟩
  throw hrun := Prog.bind_throw (Prog.bind_throw hrun)

theorem entry_allocateAtLeast (sz n : Nat) :
    EntryPoint (alignUp (n * sz % 2^64)) (fun _ r => some ⟨r.1, r.2⟩) (allocateAtLeast sz n) where
  ok hrun _ := ⟨_, (Prog.bind_ok hrun).trans rfl, rfl⟩
  throw hrun := Prog.bind_throw hrun

theorem entry_allocateAtLeastOffset (sz n : Nat) :
    EntryPoint (alignUp (n * sz % 2^64)) (fun _ r => some ⟨r.1.toNat, r.2⟩) (allocateAtLeastOffset sz n) where
  ok hrun hl := ⟨_, allocateFromList_ok hrun hl, rfl⟩
  throw hrun := Prog.bind_throw hrun

namespace PoolState
variable {s : PoolState} {size : Nat}

theorem init_inv (h : headerSize + nodeSize ≤ size) : Inv (init size) size := by
  refine ⟨rfl, ⟨_, Pool.new_ok h⟩, ?_⟩
  intro a _ b hb
  simp [init] at hb

/-- an allocation keeps the invariant -/
theorem handOut_inv (h : Inv s size) {α : Type} {block : Pool → α → Option Block} {bytes : Nat}
    (h16 : 16 ∣ bytes) {m : PoolM α} (hm : EntryPoint bytes block m) :
    ∃ t, s.handOut block (m.run s.pool.fresh) = some t ∧ Inv t size := by
  obtain ⟨l, hl⟩ := h.ok
  rcases alloc_spec (Pool.fresh_ok hl) h16 with ⟨a, n, p', l', hs, hrun, -, hframe, hw, hl'⟩ | hrun
  · obtain ⟨r, hrun, hb⟩ := hm.ok hrun hl'
    refine ⟨⟨p', ⟨a + nodeSize, n⟩ :: s.live, s.live⟩, ?_, hframe.size.trans h.size, ⟨l', hl'⟩, ?_⟩
    · rw [hrun]
      show (block p' r).map _ = _
      rw [hb]
      rfl
    · intro x hx b hb
      refine headersApart_of hframe hl' hw hx ?_
      rcases List.mem_append.mp hb with hb | hb
      · exact List.mem_cons_of_mem _ hb
      · exact hb
  · rw [hm.throw hrun]
    refine ⟨⟨s.pool.fresh, s.live, s.live⟩, rfl, h.size, ⟨l, Pool.fresh_ok hl⟩, ?_⟩
    intro x hx
    cases hx

/-- **One call**: it is defined, and the invariant holds after it. -/
theorem step_inv (h : Inv s size) {a : Call} (ha : s.Allowed a) : ∃ t, s.step a = some t ∧ Inv t size := by
  cases a with
  | allocateOffset sz n => exact handOut_inv h (dvd_alignUp _) (entry_allocateOffset sz n)
  | allocateAtLeast sz n => exact handOut_inv h (dvd_alignUp _) (entry_allocateAtLeast sz n)
  | allocateAtLeastOffset sz n => exact handOut_inv h (dvd_alignUp _) (entry_allocateAtLeastOffset sz n)
  | deallocate b =>
    obtain ⟨l, hl⟩ := h.ok
    obtain ⟨p', l', hs, hrun, hframe, hw, hl'⟩ := dealloc_spec (Pool.fresh_ok hl) ha
    refine ⟨⟨p', s.live.erase b, s.live⟩, ?_, hframe.size.trans h.size, ⟨l', hl'⟩, ?_⟩
    · show (if b ∈ s.live then s.takeBack b ((deallocate b.off).run s.pool.fresh) else none) = _
      rw [if_pos (show b ∈ s.live from ha), hrun]
      rfl
    · intro x hx d hd
      refine headersApart_of hframe hl hw hx ?_
      rcases List.mem_append.mp hd with hd | hd
      · exact hd
      · exact List.mem_of_mem_erase hd

theorem allowed_of_step {t : PoolState} {a : Call} (h : s.step a = some t) : s.Allowed a := by
  cases a with
  | deallocate b =>
    by_contra hb
    have hnone : s.step (.deallocate b) = none := if_neg hb
    rw [hnone] at h
    cases h
  | _ => trivial

theorem run_inv_from (hs : Inv s size) {as : List Call} {t : PoolState} (hr : run step s as = some t) :
    Inv t size := by
  refine run_inv (I := fun s => Inv s size) ?_ as hs hr
  intro s a t hs ht
  obtain ⟨u, hu, hinv⟩ := step_inv hs (allowed_of_step ht)
  obtain rfl : u = t := Option.some.inj (hu.symm.trans ht)
  exact hinv

theorem run_inv_pool (hsize : headerSize + nodeSize ≤ size) {as : List Call}
    (hr : run step (init size) as = some s) : Inv s size :=
  run_inv_from (init_inv hsize) hr

end PoolState

open PoolState

/-- **The representation of a pool.**  In every state that calls can lead to, the list of nodes tiles the
pool, both links agree with it, no two neighbours are free, and the nodes in use are the live blocks; the
last call wrote no node header into a block that was live before or after it; and every call that gives
back only live blocks is defined. -/
theorem representation {size : Nat} (hsize : headerSize + nodeSize ≤ size) {as : List Call} {s : PoolState}
    (hr : run PoolState.step (init size) as = some s) :
    s.pool.size = size ∧ Represents s.pool s.live ∧ s.HeadersApart ∧
      ∀ a, s.Allowed a → (s.step a).isSome := by
  have hinv := run_inv_pool hsize hr
  obtain ⟨l, hl⟩ := hinv.ok
  refine ⟨hinv.size, hl.represents, hinv.apart, fun a ha => ?_⟩
  obtain ⟨t, ht, -⟩ := step_inv hinv ha
  rw [ht]
  rfl

/-- three blocks, of which the first is given back; then one that fits in its place without a split -/
def exampleCalls : List Call :=
  [.allocateAtLeastOffset 8 6, .allocateOffset 4 1, .allocateAtLeast 1 100, .deallocate ⟨32, 48⟩,
    .allocateAtLeastOffset 8 3]

theorem representation_example :
    ∃ s, run PoolState.step (init 1024) exampleCalls = some s ∧
      s.live = [⟨32, 48⟩, ⟨160, 112⟩, ⟨112, 16⟩] ∧ Represents s.pool s.live ∧ s.HeadersApart := by
  have hsome : (run PoolState.step (init 1024) exampleCalls).isSome = true := by decide +kernel
  obtain ⟨s, hs⟩ := Option.isSome_iff_exists.mp hsome
  have hlive : (run PoolState.step (init 1024) exampleCalls).map PoolState.live
      = some [⟨32, 48⟩, ⟨160, 112⟩, ⟨112, 16⟩] := by decide +kernel
  rw [hs] at hlive
  obtain ⟨-, hrep, happ, -⟩ := representation (by decide) hs
  exact ⟨s, hs, Option.some.inj hlive, hrep, happ⟩

end Stl
end Ipcpp
