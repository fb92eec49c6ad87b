import Ipcpp.Lib.Answers
import Ipcpp.Lib.Prog
import Ipcpp.Stl.Elements
import Ipcpp.Stl.Factory

/-!
# One pool in several processes

A process has the pool where it has mapped the shared memory, and each has mapped it elsewhere.  What stands in
the pool are offsets; a `pool_allocator` turns them into addresses of its process, and back, at each step.
Here are its functions with these addresses.  Each of them holds the mutex in the header while it is at work,
so that a call is one step of the system.

* `same_everywhere`   calls of any processes, wherever they have the pool, answer what they would if addresses
                      were offsets, and leave the same pool;
* `reads_back`        the pool is a heap that they share: a call on blocks that are there always returns, the
                      blocks are apart, and a byte of one of them has the value that a process has last written
                      to it, in every process.
-/

namespace Ipcpp
namespace Stl
open Chunks Runs

/-! ## the functions of a process -/

namespace PoolAllocator
variable (w : PoolAllocator)

/-- `offset_to_pointer`; `nullptr` is zero -/
def offsetToPointer (p : Pool) (off : Int) : Nat :=
  if off < 0 ∨ off.toNat > p.size then 0 else w.memory + off.toNat

/-- `pointer_to_offset` -/
def pointerToOffset (p : Pool) (addr : Nat) : Int :=
  if addr = 0 ∨ addr > w.memory + p.size then invalidOffset else (addr : Int) - w.memory

/-- what is at address `addr` of the process; in front of `_memory` no node stands -/
def readNode (addr : Nat) : PoolM AllocatorListNode :=
  if addr < w.memory then Prog.ofOption none else Stl.readNode (addr - w.memory)

def writeNode (addr : Nat) (nd : AllocatorListNode) : PoolM Unit :=
  if addr < w.memory then Prog.ofOption none else Stl.writeNode (addr - w.memory) nd

def modifyNode (addr : Nat) (f : AllocatorListNode → AllocatorListNode) : PoolM Unit := do
  let nd ← w.readNode addr
  w.writeNode addr (f nd)

/-- the pointer of an offset, which must not be null -/
def deref (off : Int) : PoolM Nat := do
  let p ← Prog.get
  if w.offsetToPointer p off = 0 then Prog.ofOption none else pure (w.offsetToPointer p off)

def offsetOf (addr : Nat) : PoolM Int := do
  let p ← Prog.get
  pure (w.pointerToOffset p addr)

/-- `_m_insert_node` -/
def insertNode (node : Nat) (newNodesOffset : Int) (newNodesSize : Nat) : PoolM Unit := do
  let nextOffset := (← w.readNode node).nextOffset
  w.modifyNode node fun nd => { nd with nextOffset := newNodesOffset }
  let new ← w.deref newNodesOffset
  w.writeNode new ⟨newNodesSize, nextOffset, ← w.offsetOf node, true⟩
  if nextOffset ≠ invalidOffset then
    let nextNode ← w.deref nextOffset
    w.modifyNode nextNode fun nd => { nd with prevOffset := newNodesOffset }

/-- `Stl.takeNode`, with addresses -/
def takeNode (node sizeBytes : Nat) : PoolM Nat := do
  w.modifyNode node fun nd => { nd with isFree := false }
  let nd ← w.readNode node
  if nd.size - sizeBytes > nodeSize then
    w.insertNode node ((← w.offsetOf node) + nodeSize + sizeBytes) (nd.size - sizeBytes - nodeSize)
    w.modifyNode node fun nd => { nd with size := sizeBytes }
  pure (← w.readNode node).size

/-- `Stl.allocateLoop`, with addresses -/
def allocateLoop (sizeBytes : Nat) : Nat → Nat → PoolM (Nat × Nat)
  | 0, _ => Prog.ofOption none
  | fuel + 1, node => do
    let nd ← w.readNode node
    if nd.isFree ∧ nd.size ≥ sizeBytes then
      let size ← w.takeNode node sizeBytes
      pure (node, size)
    else if nd.nextOffset = invalidOffset then
      Prog.throw .badAlloc
    else
      let next ← w.deref nd.nextOffset
      allocateLoop sizeBytes fuel next

def allocateNode (sizeBytes : Nat) : PoolM (Nat × Nat) := do
  let p ← Prog.get
  let node ← w.deref p.listHeadOffset
  w.allocateLoop sizeBytes p.size node

/-- `_m_allocate_from_list` -/
def allocateFromList (sizeBytes : Nat) : PoolM (Int × Nat) := do
  let (node, size) ← w.allocateNode sizeBytes
  pure ((← w.offsetOf node) + nodeSize, size)

/-- `_m_allocate_from_list_ptr` -/
def allocateFromListPtr (bytes : Nat) : PoolM (Nat × Nat) := do
  let (node, size) ← w.allocateNode bytes
  pure (node + nodeSize, size)

/-- the loop of `_m_merge_forward`: the merged size and the first node that is not merged -/
def mergeForwardLoop (node : Nat) : Nat → Nat → Nat → PoolM (Nat × Nat)
  | 0, _, _ => Prog.ofOption none
  | fuel + 1, mergedSize, nextNode => do
    if nextNode = 0 then
      w.modifyNode node fun nd => { nd with nextOffset := -1 }
      pure (mergedSize, nextNode)
    else
      let nd ← w.readNode nextNode
      if nd.isFree then
        let p ← Prog.get
        mergeForwardLoop node fuel (mergedSize + (nd.size + nodeSize)) (w.offsetToPointer p nd.nextOffset)
      else
        let off ← w.offsetOf node
        w.modifyNode nextNode fun nd => { nd with prevOffset := off }
        pure (mergedSize, nextNode)

/-- `_m_merge_forward` -/
def mergeForward (node : Nat) : PoolM Unit := do
  let nd ← w.readNode node
  if nd.nextOffset = invalidOffset then
    pure ()
  else
    let p ← Prog.get
    let (mergedSize, nextNode) ← w.mergeForwardLoop node p.size nd.size (w.offsetToPointer p nd.nextOffset)
    let off ← w.offsetOf nextNode
    w.modifyNode node fun nd => { nd with size := mergedSize, nextOffset := off }

/-- the loop of `_m_merge_backward`: the merged size and the first of the merged nodes -/
def mergeBackwardLoop : Nat → Nat → Nat → Nat → PoolM (Nat × Nat)
  | 0, _, _, _ => Prog.ofOption none
  | fuel + 1, mergedSize, prevNextNode, prevNode => do
    if prevNode = 0 then
      pure (mergedSize, prevNextNode)
    else
      let nd ← w.readNode prevNode
      if nd.isFree then
        let p ← Prog.get
        mergeBackwardLoop fuel (mergedSize + (nd.size + nodeSize)) prevNode (w.offsetToPointer p nd.prevOffset)
      else
        pure (mergedSize, prevNextNode)

/-- `node` becomes the predecessor of `nextNode`, if that is not null -/
def setPrev (node nextNode : Nat) : PoolM Unit := do
  if nextNode = 0 then
    pure ()
  else
    let off ← w.offsetOf node
    w.modifyNode nextNode fun nd => { nd with prevOffset := off }

/-- `_m_merge_backward` -/
def mergeBackward (node : Nat) : PoolM Unit := do
  let nd ← w.readNode node
  if nd.prevOffset = invalidOffset then
    pure ()
  else
    let p ← Prog.get
    let (mergedSize, prevNextNode) ←
      w.mergeBackwardLoop p.size nd.size node (w.offsetToPointer p nd.prevOffset)
    w.modifyNode prevNextNode fun nd => { nd with size := mergedSize }
    let nextOffset := (← w.readNode node).nextOffset
    w.setPrev prevNextNode (w.offsetToPointer p nextOffset)
    let nextOffset := (← w.readNode node).nextOffset
    w.modifyNode prevNextNode fun nd => { nd with nextOffset := nextOffset }

/-! ### the public ones -/

/-- `allocate_offset(n)` -/
def allocateOffset (sz n : Nat) : PoolM Int := do
  let (off, _) ← w.allocateFromList (alignUp (n * sz % 2^64))
  pure off

/-- `allocate_at_least(n)` -/
def allocateAtLeast (sz n : Nat) : PoolM (Nat × Nat) := w.allocateFromListPtr (alignUp (n * sz % 2^64))

/-- `allocate_at_least_offset(n)` -/
def allocateAtLeastOffset (sz n : Nat) : PoolM (Int × Nat) :=
  w.allocateFromList (alignUp (n * sz % 2^64))

/-- `deallocate(ptr, n)` -/
def deallocate (ptr : Nat) : PoolM Unit := do
  let node := ptr - nodeSize
  w.modifyNode node fun nd => { nd with isFree := true }
  w.mergeForward node
  w.mergeBackward node

/-! ## addresses are offsets that are counted from `_memory` -/

def pointer : Option Nat → Nat
  | none => 0
  | some a => w.memory + a

section
variable {w} (hw : 0 < w.memory)

theorem offsetToPointer_eq (p : Pool) (off : Int) : w.offsetToPointer p off = w.pointer (p.offsetToPointer off) := by
  unfold offsetToPointer Pool.offsetToPointer
  split <;> rfl

include hw

theorem pointer_ne_zero (a : Nat) : w.pointer (some a) ≠ 0 := (Nat.lt_of_lt_of_le hw (Nat.le_add_right _ a)).ne'

theorem pointerToOffset_eq (p : Pool) (a : Option Nat) :
    w.pointerToOffset p (w.pointer a) = p.pointerToOffset a := by
  cases a with
  | none => exact if_pos (.inl rfl)
  | some a =>
    show _ = if a > p.size then invalidOffset else (a : Int)
    by_cases ha : a > p.size
    · rw [if_pos ha]
      exact if_pos (.inr (Nat.add_lt_add_left ha _))
    · rw [if_neg ha]
      refine (if_neg (not_or.mpr ⟨pointer_ne_zero hw a, fun h => ha (Nat.lt_of_add_lt_add_left h)⟩)).trans ?_
      show ((w.memory + a : Nat) : Int) - w.memory = a
      omega

theorem renames_deref (off : Int) : Prog.Renames (w.memory + ·) (w.deref off) (Stl.deref off) := by
  refine Prog.Renames.get_bind fun p => ?_
  rw [offsetToPointer_eq]
  cases p.offsetToPointer off with
  | none => exact Prog.renames_stuck _
  | some a =>
    rw [if_neg (pointer_ne_zero hw a)]
    exact Prog.renames_pure _ a

theorem renames_offsetOf (a : Option Nat) : Prog.Renames id (w.offsetOf (w.pointer a)) (Stl.offsetOf a) := by
  refine Prog.Renames.get_bind fun p => ?_
  rw [pointerToOffset_eq hw]
  exact Prog.renames_pure id _

end

theorem renames_readNode (a : Nat) : Prog.Renames id (w.readNode (w.memory + a)) (Stl.readNode a) := by
  unfold readNode
  rw [if_neg (by omega), Nat.add_sub_cancel_left]
  exact Prog.renames_self _

theorem renames_writeNode (a : Nat) (nd : AllocatorListNode) :
    Prog.Renames id (w.writeNode (w.memory + a) nd) (Stl.writeNode a nd) := by
  unfold writeNode
  rw [if_neg (by omega), Nat.add_sub_cancel_left]
  exact Prog.renames_self _

theorem renames_modifyNode (a : Nat) (f : AllocatorListNode → AllocatorListNode) :
    Prog.Renames id (w.modifyNode (w.memory + a) f) (Stl.modifyNode a f) :=
  (w.renames_readNode a).bind fun nd => w.renames_writeNode a (f nd)

section
variable {w} (hw : 0 < w.memory)
include hw

theorem renames_insertNode (a : Nat) (off : Int) (size : Nat) :
    Prog.Renames id (w.insertNode (w.memory + a) off size) (Stl.insertNode a off size) := by
  refine (w.renames_readNode a).bind fun nd => (w.renames_modifyNode a _).bind fun _ => ?_
  refine (renames_deref hw off).bind fun new => (renames_offsetOf hw (some a)).bind fun prev => ?_
  refine (w.renames_writeNode new _).bind fun _ => ?_
  dsimp only [id]
  split
  · exact (renames_deref hw _).bind fun next => w.renames_modifyNode next _
  · exact Prog.renames_pure id _

theorem renames_takeNode (a bytes : Nat) :
    Prog.Renames id (w.takeNode (w.memory + a) bytes) (Stl.takeNode a bytes) := by
  refine (w.renames_modifyNode a _).bind fun _ => (w.renames_readNode a).bind fun nd => ?_
  dsimp only [id]
  split
  · refine (renames_offsetOf hw (some a)).bind fun off => (renames_insertNode hw a _ _).bind fun _ => ?_
    refine (w.renames_modifyNode a _).bind fun _ => ?_
    exact (w.renames_readNode a).bind fun nd => Prog.renames_pure id _
  · exact (w.renames_readNode a).bind fun nd => Prog.renames_pure id _

/-- a node, and its size -/
theorem renames_allocateLoop (bytes fuel a : Nat) :
    Prog.Renames (fun r => (w.memory + r.1, r.2)) (w.allocateLoop bytes fuel (w.memory + a))
      (Stl.allocateLoop bytes fuel a) := by
  induction fuel generalizing a with
  | zero => exact Prog.renames_stuck _
  | succ fuel ih =>
    refine (w.renames_readNode a).bind fun nd => ?_
    dsimp only [id]
    split
    · exact (renames_takeNode hw a bytes).bind fun size => Prog.renames_pure _ (a, size)
    · split
      · exact Prog.renames_throw _ _
      · exact (renames_deref hw _).bind fun next => ih next

theorem renames_allocateNode (bytes : Nat) :
    Prog.Renames (fun r => (w.memory + r.1, r.2)) (w.allocateNode bytes) (Stl.allocateNode bytes) :=
  Prog.Renames.get_bind fun p => (renames_deref hw _).bind fun node => renames_allocateLoop hw bytes p.size node

theorem renames_allocateFromList (bytes : Nat) :
    Prog.Renames id (w.allocateFromList bytes) (Stl.allocateFromList bytes) :=
  (renames_allocateNode hw bytes).bind fun r => (renames_offsetOf hw (some r.1)).bind fun _ =>
    Prog.renames_pure id _

theorem renames_allocateFromListPtr (bytes : Nat) :
    Prog.Renames (fun r => (w.memory + r.1, r.2)) (w.allocateFromListPtr bytes) (Stl.allocateFromListPtr bytes) := by
  refine (renames_allocateNode hw bytes).bind fun r => ?_
  dsimp only
  rw [Nat.add_assoc]
  exact Prog.renames_pure (fun r : Nat × Nat => (w.memory + r.1, r.2)) (r.1 + nodeSize, r.2)

theorem renames_allocateOffset (sz n : Nat) :
    Prog.Renames id (w.allocateOffset sz n) (Stl.allocateOffset sz n) :=
  (renames_allocateFromList hw _).bind fun r => Prog.renames_pure id r.1

theorem renames_mergeForwardLoop (a fuel merged : Nat) (next : Option Nat) :
    Prog.Renames (fun r => (r.1, w.pointer r.2)) (w.mergeForwardLoop (w.memory + a) fuel merged (w.pointer next))
      (Stl.mergeForwardLoop a fuel merged next) := by
  induction fuel generalizing merged next with
  | zero => exact Prog.renames_stuck _
  | succ fuel ih =>
    unfold mergeForwardLoop
    cases next with
    | none => exact (w.renames_modifyNode a _).bind fun _ => Prog.renames_pure _ (merged, none)
    | some b =>
      rw [if_neg (pointer_ne_zero hw b)]
      refine (w.renames_readNode b).bind fun nd => ?_
      dsimp only [id]
      split
      · refine Prog.Renames.get_bind fun p => ?_
        rw [offsetToPointer_eq]
        exact ih _ _
      · refine (renames_offsetOf hw (some a)).bind fun off => (w.renames_modifyNode b _).bind fun _ => ?_
        exact Prog.renames_pure _ (merged, some b)

theorem renames_mergeForward (a : Nat) :
    Prog.Renames id (w.mergeForward (w.memory + a)) (Stl.mergeForward a) := by
  refine (w.renames_readNode a).bind fun nd => ?_
  dsimp only [id]
  split
  · exact Prog.renames_pure id _
  · refine Prog.Renames.get_bind fun p => ?_
    rw [offsetToPointer_eq]
    refine (renames_mergeForwardLoop hw a p.size nd.size _).bind fun r => ?_
    exact (renames_offsetOf hw r.2).bind fun off => w.renames_modifyNode a _

theorem renames_mergeBackwardLoop (fuel merged a : Nat) (prev : Option Nat) :
    Prog.Renames (fun r => (r.1, w.memory + r.2))
      (w.mergeBackwardLoop fuel merged (w.memory + a) (w.pointer prev))
      (Stl.mergeBackwardLoop fuel merged a prev) := by
  induction fuel generalizing merged a prev with
  | zero => exact Prog.renames_stuck _
  | succ fuel ih =>
    unfold mergeBackwardLoop
    cases prev with
    | none => exact Prog.renames_pure _ (merged, a)
    | some b =>
      rw [if_neg (pointer_ne_zero hw b)]
      refine (w.renames_readNode b).bind fun nd => ?_
      dsimp only [id]
      split
      · refine Prog.Renames.get_bind fun p => ?_
        rw [offsetToPointer_eq]
        exact ih _ b _
      · exact Prog.renames_pure _ (merged, a)

theorem renames_setPrev (a : Nat) (next : Option Nat) :
    Prog.Renames id (w.setPrev (w.memory + a) (w.pointer next)) (Stl.setPrev a next) := by
  unfold setPrev
  cases next with
  | none => exact Prog.renames_pure id _
  | some b =>
    rw [if_neg (pointer_ne_zero hw b)]
    exact (renames_offsetOf hw (some a)).bind fun off => w.renames_modifyNode b _

theorem renames_mergeBackward (a : Nat) :
    Prog.Renames id (w.mergeBackward (w.memory + a)) (Stl.mergeBackward a) := by
  refine (w.renames_readNode a).bind fun nd => ?_
  dsimp only [id]
  split
  · exact Prog.renames_pure id _
  · refine Prog.Renames.get_bind fun p => ?_
    rw [offsetToPointer_eq]
    refine (renames_mergeBackwardLoop hw p.size nd.size a _).bind fun r => ?_
    refine (w.renames_modifyNode r.2 _).bind fun _ => (w.renames_readNode a).bind fun nd => ?_
    rw [offsetToPointer_eq]
    refine (renames_setPrev hw r.2 _).bind fun _ => (w.renames_readNode a).bind fun nd => ?_
    exact w.renames_modifyNode r.2 _

/-- of a block, in front of which there is room for a node -/
theorem renames_deallocate {a : Nat} (ha : nodeSize ≤ a) :
    Prog.Renames id (w.deallocate (w.memory + a)) (Stl.deallocate a) := by
  unfold deallocate
  dsimp only
  rw [Nat.add_sub_assoc ha]
  exact (w.renames_modifyNode _ _).bind fun _ => (renames_mergeForward hw _).bind fun _ =>
    renames_mergeBackward hw _

end

end PoolAllocator

/-! ## the system -/

/-- the pool, the blocks that were handed out and are not given back, and (never read) the bytes that were written
to these -/
structure Shared where
  pool : Pool
  live : List Block
  written : Nat → Option UInt8

namespace Shared
variable (s : Shared)

def init (size : Nat) : Shared := ⟨Pool.new size, [], fun _ => none⟩

inductive Call where
  | allocateOffset (sz n : Nat)
  | allocateAtLeast (sz n : Nat)
  | allocateAtLeastOffset (sz n : Nat)
  /-- `deallocate` of the block at this offset -/
  | deallocate (off : Nat)
  /-- bytes are written from this offset on, or read -/
  | write (off : Nat) (v : List UInt8)
  | read (off n : Nat)

/-- a process that gets a pointer passes its offset on -/
inductive Answer where
  | offset (off : Int)
  | block (off : Int) (size : Nat)
  | badAlloc
  | done
  | bytes (v : List (Option UInt8))
deriving DecidableEq

def Within (off n : Nat) : Prop := ∃ b ∈ s.live, b.off ≤ off ∧ off + n ≤ b.off + b.size

instance (off n : Nat) : Decidable (s.Within off n) :=
  inferInstanceAs (Decidable (∃ b ∈ s.live, b.off ≤ off ∧ off + n ≤ b.off + b.size))

def forget (b : Block) : Nat → Option UInt8 := fun x =>
  if b.off ≤ x ∧ x < b.off + b.size then none else s.written x

/-- an allocation has handed out `block` -/
def handOut {α : Type} (block : Pool → α → Option Block) (answer : Pool → α → Answer) :
    Prog.Outcome Error Pool α → Option (Shared × Answer)
  | .ok a p => (block p a).map fun b => (⟨p, b :: s.live, s.forget b⟩, answer p a)
  | .throw _ p => some ({ s with pool := p }, .badAlloc)
  | .stuck => none

def takeBack (b : Block) : Prog.Outcome Error Pool Unit → Option (Shared × Answer)
  | .ok _ p => some (⟨p, s.live.erase b, s.forget b⟩, .done)
  | .throw _ p => some ({ s with pool := p }, .badAlloc)
  | .stuck => none

/-- the bytes `v` are written from byte `a` of the pool on -/
def put (a : Nat) (v : List UInt8) : Shared where
  pool := s.pool.putElement a v.length fun i => v[i]?
  live := s.live
  written x := if a ≤ x ∧ x < a + v.length then v[x - a]? else s.written x

def get (a n : Nat) : Answer := .bytes (s.pool.memory.bytes a n)

/-- a call in a process that has the pool at `addr` -/
def callAt (addr : Nat) : Call → Option (Shared × Answer)
  | .allocateOffset sz n =>
    s.handOut payloadAt (fun _ off => .offset off) (((PoolAllocator.attach addr).allocateOffset sz n).run s.pool)
  | .allocateAtLeast sz n =>
    let w := PoolAllocator.attach addr
    s.handOut (fun _ r => some ⟨r.1 - w.memory, r.2⟩) (fun p r => .block (w.pointerToOffset p r.1) r.2)
      ((w.allocateAtLeast sz n).run s.pool)
  | .allocateAtLeastOffset sz n =>
    s.handOut (fun _ r => some ⟨r.1.toNat, r.2⟩) (fun _ r => .block r.1 r.2)
      (((PoolAllocator.attach addr).allocateAtLeastOffset sz n).run s.pool)
  | .deallocate off => (s.live.find? fun b => b.off = off).bind fun b =>
      let w := PoolAllocator.attach addr
      s.takeBack b ((w.deallocate (w.offsetToPointer s.pool off)).run s.pool)
  | .write off v =>
    let w := PoolAllocator.attach addr
    if s.Within off v.length then some (s.put (w.offsetToPointer s.pool off - w.memory) v, .done) else none
  | .read off n =>
    let w := PoolAllocator.attach addr
    if s.Within off n then some (s, s.get (w.offsetToPointer s.pool off - w.memory) n) else none

def call : Call → Option (Shared × Answer)
  | .allocateOffset sz n => s.handOut payloadAt (fun _ off => .offset off) ((Stl.allocateOffset sz n).run s.pool)
  | .allocateAtLeast sz n =>
    s.handOut (fun _ r => some ⟨r.1, r.2⟩) (fun p r => .block (p.pointerToOffset (some r.1)) r.2)
      ((Stl.allocateAtLeast sz n).run s.pool)
  | .allocateAtLeastOffset sz n =>
    s.handOut (fun _ r => some ⟨r.1.toNat, r.2⟩) (fun _ r => .block r.1 r.2)
      ((Stl.allocateAtLeastOffset sz n).run s.pool)
  | .deallocate off => (s.live.find? fun b => b.off = off).bind fun b =>
      s.takeBack b ((Stl.deallocate off).run s.pool)
  | .write off v => if s.Within off v.length then some (s.put off v, .done) else none
  | .read off n => if s.Within off n then some (s, s.get off n) else none

/-- what is given back, written or read is in a live block -/
def Allowed : Call → Prop
  | .deallocate off => ∃ b ∈ s.live, b.off = off
  | .write off v => s.Within off v.length
  | .read off n => s.Within off n
  | _ => True

structure Inv : Prop where
  ok : ∃ l, PoolOk s.pool l s.live
  kept : ∀ x v, s.written x = some v → s.Within x 1 ∧ s.pool.memory.byte x = some v

variable {s}

/-! ### a call keeps the invariant -/

theorem find_off {bs : List Block} {b : Block} {off : Nat} (h : bs.find? (fun b => b.off = off) = some b) :
    b ∈ bs ∧ b.off = off := ⟨List.mem_of_find?_eq_some h, by simpa using List.find?_some h⟩

theorem init_inv {size : Nat} (hsize : headerSize + nodeSize ≤ size) : (init size).Inv :=
  ⟨⟨_, Pool.new_ok hsize⟩, nofun⟩

/-- what was written to the blocks that stay live is still known, and still there -/
theorem Inv.kept_of (h : s.Inv) {p : Pool} {live : List Block} {b : Block} (hp : Kept s.pool p s.live)
    (hlive : ∀ c ∈ s.live, c = b ∨ c ∈ live) (x : Nat) (v : UInt8) (hx : s.forget b x = some v) :
    (∃ c ∈ live, c.off ≤ x ∧ x + 1 ≤ c.off + c.size) ∧ p.memory.byte x = some v := by
  unfold forget at hx
  split at hx
  · cases hx
  · rename_i hout
    obtain ⟨⟨c, hc, hle, hlt⟩, hbyte⟩ := h.kept x v hx
    refine ⟨⟨c, (hlive c hc).resolve_left fun hcb => hout (hcb ▸ ⟨hle, hlt⟩), hle, hlt⟩, ?_⟩
    rw [hp c hc x hle hlt, hbyte]

theorem Inv.handOut (h : s.Inv) {α : Type} {block : Pool → α → Option Block} {answer : Pool → α → Answer}
    {bytes : Nat} (h16 : 16 ∣ bytes) {m : PoolM α} (hm : EntryPoint bytes block m) :
    ∃ t a, s.handOut block answer (m.run s.pool) = some (t, a) ∧ t.Inv := by
  obtain ⟨l, hl⟩ := h.ok
  rcases alloc_spec hl h16 with ⟨a, n, p, l', hs, hrun, -, hframe, hw, hl'⟩ | hrun
  · obtain ⟨r, hrun, hb⟩ := hm.ok hrun hl'
    refine ⟨⟨p, ⟨a + nodeSize, n⟩ :: s.live, s.forget ⟨a + nodeSize, n⟩⟩, answer p r, ?_, ⟨l', hl'⟩, ?_⟩
    · rw [hrun]
      show (block p r).map _ = _
      rw [hb]
      rfl
    · exact h.kept_of ((hframe.kept hl' hw).mono fun c hc => List.mem_cons_of_mem _ hc) fun c hc =>
        .inr (List.mem_cons_of_mem _ hc)
  · rw [hm.throw hrun]
    exact ⟨s, .badAlloc, rfl, h⟩

theorem Inv.takeBack (h : s.Inv) {b : Block} (hb : b ∈ s.live) :
    ∃ t a, s.takeBack b ((Stl.deallocate b.off).run s.pool) = some (t, a) ∧ t.Inv := by
  obtain ⟨l, hl⟩ := h.ok
  obtain ⟨p, l', hs, hrun, hframe, hw, hl'⟩ := dealloc_spec hl hb
  refine ⟨⟨p, s.live.erase b, s.forget b⟩, .done, ?_, ⟨l', hl'⟩, ?_⟩
  · rw [hrun]
    rfl
  · refine h.kept_of (hframe.kept hl hw) fun c hc => ?_
    by_cases hcb : c = b
    · exact .inl hcb
    · exact .inr ((List.mem_erase_of_ne hcb).mpr hc)

theorem Inv.put (h : s.Inv) {a : Nat} {v : List UInt8} (ha : s.Within a v.length) : (s.put a v).Inv := by
  obtain ⟨l, hl⟩ := h.ok
  obtain ⟨b, hb, hle, hlt⟩ := ha
  refine ⟨⟨l, hl.of_wrote (wrote_putElement _ _ _ _) hb hle hlt⟩, fun x u hx => ?_⟩
  have hx : (if a ≤ x ∧ x < a + v.length then v[x - a]? else s.written x) = some u := hx
  split at hx
  · rename_i hin
    refine ⟨⟨b, hb, by omega, by omega⟩, ?_⟩
    exact (Memory.putBytes_byte_of_mem _ _ _ hin.1 hin.2).trans hx
  · rename_i hout
    obtain ⟨hwithin, hbyte⟩ := h.kept x u hx
    exact ⟨hwithin, (Memory.putBytes_byte _ _ _ (by omega)).trans hbyte⟩

/-- **A call on live blocks** returns, and keeps the invariant. -/
theorem Inv.call (h : s.Inv) {c : Call} (hc : s.Allowed c) : ∃ t a, s.call c = some (t, a) ∧ t.Inv := by
  cases c with
  | allocateOffset sz n => exact h.handOut (dvd_alignUp _) (entry_allocateOffset sz n)
  | allocateAtLeast sz n => exact h.handOut (dvd_alignUp _) (entry_allocateAtLeast sz n)
  | allocateAtLeastOffset sz n => exact h.handOut (dvd_alignUp _) (entry_allocateAtLeastOffset sz n)
  | deallocate off =>
    obtain ⟨b, hb, rfl⟩ := hc
    cases hfind : s.live.find? fun c => c.off = b.off with
    | none => exact absurd (decide_eq_true rfl) (List.find?_eq_none.mp hfind b hb)
    | some c =>
      obtain ⟨hc, hoff⟩ := find_off hfind
      obtain ⟨t, a, ht, hinv⟩ := h.takeBack hc
      rw [hoff] at ht
      refine ⟨t, a, ?_, hinv⟩
      show (s.live.find? fun c => c.off = b.off).bind _ = _
      rw [hfind]
      exact ht
  | write off v => exact ⟨s.put off v, .done, if_pos hc, h.put hc⟩
  | read off n => exact ⟨s, s.get off n, if_pos hc, h⟩

theorem allowed_of_call {t : Shared} {a : Answer} {c : Call} (h : s.call c = some (t, a)) : s.Allowed c := by
  cases c with
  | deallocate off =>
    obtain ⟨b, hb, -⟩ := Option.bind_eq_some_iff.mp h
    exact ⟨b, find_off hb⟩
  | write off v => exact (Option.ite_none_right_eq_some.mp h).1
  | read off n => exact (Option.ite_none_right_eq_some.mp h).1
  | _ => trivial

/-! ### addresses make no difference -/

section
variable {addr : Nat}

theorem attach_memory_pos (addr : Nat) : 0 < (PoolAllocator.attach addr).memory :=
  Nat.lt_of_lt_of_le (by decide) (Nat.le_add_left headerSize addr)

theorem handOut_renames {α β : Type} {f : α → β} {m : PoolM β} {m' : PoolM α} (h : Prog.Renames f m m')
    {block : Pool → β → Option Block} {block' : Pool → α → Option Block} {answer : Pool → β → Answer}
    {answer' : Pool → α → Answer} (hblock : ∀ p a, block p (f a) = block' p a)
    (hanswer : ∀ p a, answer p (f a) = answer' p a) :
    s.handOut block answer (m.run s.pool) = s.handOut block' answer' (m'.run s.pool) := by
  rw [h s.pool]
  cases m'.run s.pool with
  | ok a p =>
    show (block p (f a)).map _ = (block' p a).map _
    rw [hblock, hanswer]
  | throw e p => rfl
  | stuck => rfl

/-- the address of an offset in a live block -/
theorem Inv.offsetToPointer (h : s.Inv) {b : Block} (hb : b ∈ s.live) {off : Nat} (hoff : off ≤ b.off + b.size) :
    (PoolAllocator.attach addr).offsetToPointer s.pool off = (PoolAllocator.attach addr).memory + off := by
  obtain ⟨l, hl⟩ := h.ok
  have hle := hl.stop_le hb
  rw [PoolAllocator.offsetToPointer_eq, offsetToPointer_nat (by omega)]
  rfl

/-- **Wherever a process has the pool**, its calls do the same. -/
theorem Inv.callAt_eq (h : s.Inv) (c : Call) : s.callAt addr c = s.call c := by
  have hw := attach_memory_pos addr
  cases c with
  | allocateOffset sz n =>
    exact handOut_renames (PoolAllocator.renames_allocateOffset hw sz n) (fun _ _ => rfl) fun _ _ => rfl
  | allocateAtLeast sz n =>
    refine handOut_renames (PoolAllocator.renames_allocateFromListPtr hw _) (fun p r => ?_) fun p r => ?_
    · dsimp only
      rw [Nat.add_sub_cancel_left]
    · dsimp only
      rw [← PoolAllocator.pointerToOffset_eq hw]
      rfl
  | allocateAtLeastOffset sz n =>
    exact handOut_renames (PoolAllocator.renames_allocateFromList hw _) (fun _ _ => rfl) fun _ _ => rfl
  | deallocate off =>
    simp only [Shared.callAt, Shared.call]
    cases hfind : s.live.find? fun b => b.off = off with
    | none => rfl
    | some b =>
      obtain ⟨l, hl⟩ := h.ok
      obtain ⟨hb, hoff⟩ := find_off hfind
      obtain ⟨d, -, -, hd⟩ := hl.mem hb
      have hnode : nodeSize ≤ off := by
        rw [← hoff, ← hd]
        exact Nat.le_add_left _ _
      dsimp only [Option.bind_some]
      rw [h.offsetToPointer hb (by omega), (PoolAllocator.renames_deallocate hw hnode).run_eq]
  | write off v =>
    simp only [Shared.callAt, Shared.call]
    by_cases hin : s.Within off v.length
    · obtain ⟨b, hb, -, hle⟩ := id hin
      rw [if_pos hin, if_pos hin, h.offsetToPointer hb (by omega), Nat.add_sub_cancel_left]
    · rw [if_neg hin, if_neg hin]
  | read off n =>
    simp only [Shared.callAt, Shared.call]
    by_cases hin : s.Within off n
    · obtain ⟨b, hb, -, hle⟩ := id hin
      rw [if_pos hin, if_pos hin, h.offsetToPointer hb (by omega), Nat.add_sub_cancel_left]
    · rw [if_neg hin, if_neg hin]

end

/-! ### the results -/

section
variable {P : Type} (addr : P → Nat)

/-- the invariant holds after any calls of any processes -/
theorem call_rel (s t : Shared) (c : P × Call) (h : s = t ∧ t.Inv) :
    Option.Rel (SameAnswer fun s t => s = t ∧ t.Inv) (s.callAt (addr c.1) c.2) (t.call c.2) := by
  obtain ⟨rfl, h⟩ := h
  rw [h.callAt_eq]
  cases hc : s.call c.2 with
  | none => exact .none
  | some r =>
    obtain ⟨t, a, ht, hinv⟩ := h.call (allowed_of_call hc)
    rw [hc] at ht
    obtain rfl := Option.some.inj ht
    exact .some ⟨⟨rfl, hinv⟩, rfl⟩

theorem calls_rel {size : Nat} (hsize : headerSize + nodeSize ≤ size) (calls : List (P × Call)) :
    Option.Rel (SameAnswer fun s t => s = t ∧ t.Inv)
      (answers (fun s c => s.callAt (addr c.1) c.2) (init size) calls)
      (answers (fun s c => s.call c.2) (init size) calls) :=
  answers_rel (C := fun _ _ => True) (fun s t c h _ => call_rel addr s t c h) calls ⟨rfl, init_inv hsize⟩
    (obeys_of_forall (fun _ _ => trivial) _ _)

/-- **Wherever the processes have the pool, their calls answer the same** and leave the same pool. -/
theorem same_everywhere {size : Nat} (hsize : headerSize + nodeSize ≤ size) (calls : List (P × Call)) :
    answers (fun s c => s.callAt (addr c.1) c.2) (init size) calls =
      answers (fun s c => s.call c.2) (init size) calls := by
  have h := calls_rel addr hsize calls
  cases hx : answers (fun s c => s.callAt (addr c.1) c.2) (init size) calls <;>
    cases hy : answers (fun s c => s.call c.2) (init size) calls <;> rw [hx, hy] at h
  · cases h
  · cases h
  · cases h with
    | some hxy => exact congrArg some (Prod.ext hxy.1.1 hxy.2)

/-- **The processes share a heap.**  After any calls the live blocks are the nodes in use, in the pool and apart from
each other; every call on live blocks returns; and a byte that was written to one of them is what each process
reads there. -/
theorem reads_back {size : Nat} (hsize : headerSize + nodeSize ≤ size) {calls : List (P × Call)} {s : Shared}
    {as : List Answer} (hrun : answers (fun s c => s.callAt (addr c.1) c.2) (init size) calls = some (s, as)) :
    Represents s.pool s.live ∧ (∀ p c, s.Allowed c → ∃ t a, s.callAt (addr p) c = some (t, a)) ∧
      ∀ x v, s.written x = some v → ∀ p, s.callAt (addr p) (.read x 1) = some (s, .bytes [some v]) := by
  have hrel := calls_rel addr hsize calls
  rw [hrun] at hrel
  obtain ⟨t, -, rfl, h⟩ := SameAnswer.exists_of_rel hrel
  obtain ⟨l, hl⟩ := h.ok
  refine ⟨hl.represents, fun p c hc => ?_, fun x v hx p => ?_⟩
  · obtain ⟨t, a, ht, -⟩ := h.call hc
    exact ⟨t, a, h.callAt_eq c ▸ ht⟩
  · obtain ⟨hwithin, hbyte⟩ := h.kept x v hx
    rw [h.callAt_eq]
    refine (if_pos hwithin).trans (congrArg (fun v => some (s, Answer.bytes v)) ?_)
    show [s.pool.memory.byte (x + 0)] = _
    rw [Nat.add_zero, hbyte]

end

/-- the first process makes a block and writes to it; the second one reads that, makes a block of its own, which the
first one gives back, and writes to the first block -/
def twoProcesses : List (Bool × Call) :=
  [(false, .allocateAtLeast 1 40), (false, .write 32 [104, 105]), (true, .allocateOffset 8 2), (true, .read 32 2),
    (true, .write 112 [1, 2, 3]), (false, .deallocate 112), (true, .write 33 [111])]

def twoAddresses (p : Bool) : Nat := if p then 65536 else 4096

theorem same_everywhere_example :
    (answers (fun s c => s.callAt (twoAddresses c.1) c.2) (init 1024) twoProcesses).map Prod.snd =
      some [.block 32 48, .done, .offset 112, .bytes [some 104, some 105], .done, .done, .done] := by
  rw [same_everywhere twoAddresses (by decide)]
  decide +kernel

theorem reads_back_example : ∃ s as,
    answers (fun s c => s.callAt (twoAddresses c.1) c.2) (init 1024) twoProcesses = some (s, as) ∧
      s.callAt 4096 (.read 33 1) = some (s, .bytes [some 111]) := by
  obtain ⟨⟨s, as⟩, hrun, hwritten⟩ := Option.map_eq_some_iff.mp
    (show (answers (fun s c => s.callAt (twoAddresses c.1) c.2) (init 1024) twoProcesses).map
      (fun r => r.1.written 33) = some (some 111) by decide +kernel)
  exact ⟨s, as, hrun, (reads_back twoAddresses (by decide) hrun).2.2 33 111 hwritten false⟩

end Shared

end Stl
end Ipcpp
