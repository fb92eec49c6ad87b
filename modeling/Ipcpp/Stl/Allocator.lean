import Ipcpp.Lib.Memory
import Ipcpp.Lib.Prog

/-!
# The pool allocator

`pool_allocator` keeps a doubly linked list of `AllocatorListNode`s in the pool itself: each node stands
right in front of its payload.  Addresses here are byte offsets from `_memory` (the end of the pool
header), a pointer is an `Option Nat` with `none` for `nullptr`, offsets are integers with `-1` for
`invalid_offset`.

The public functions are `allocateOffset`, `allocateAtLeast`, `allocateAtLeastOffset` and `deallocate`.
Byte counts are computed in 64 bits (`alignUp`); offsets are plain integers, as a pool is far smaller
than `2^63` bytes.  The lock is not modelled: a function is one step.  The loops take the pool size as
fuel; a node takes up at least 32 bytes, so that is more than enough.

Following a link to an address where no node stands is stuck, and so is dereferencing `nullptr`.
-/

namespace Ipcpp
namespace Stl

/-- `align_up(sizeof(Header))` -/
def headerSize : Nat := 128

/-- `align_up(sizeof(AllocatorListNode))` -/
def nodeSize : Nat := 32

def invalidOffset : Int := -1

/-- `align_up(size)` in 64 bits: the low four bits are masked out -/
def alignUp (size : Nat) : Nat := ((size + 15) % 2^64) &&& (2^64 - 16)

structure AllocatorListNode where
  size : Nat
  nextOffset : Int
  prevOffset : Int
  isFree : Bool
deriving DecidableEq

/-- the pool: the fields of its header, its memory, and (never read) the addresses of the node headers
and the byte ranges of the elements that were written -/
structure Pool where
  size : Nat
  listHeadOffset : Int
  memory : Memory AllocatorListNode
  headers : List Nat := []
  elements : List (Nat × Nat) := []

inductive Error where
  | badAlloc
  | lengthError
deriving DecidableEq

abbrev PoolM := Prog Error Pool

namespace Pool
variable (p : Pool)

/-- `offset_to_pointer` -/
def offsetToPointer (off : Int) : Option Nat :=
  if off < 0 ∨ off.toNat > p.size then none else some off.toNat

/-- `pointer_to_offset` -/
def pointerToOffset : Option Nat → Int
  | none => invalidOffset
  | some a => if a > p.size then invalidOffset else a

def putNode (a : Nat) (nd : AllocatorListNode) : Pool :=
  { p with memory := p.memory.putRec nodeSize a nd, headers := a :: p.headers }

def putElement (a n : Nat) (f : Nat → Option UInt8) : Pool :=
  { p with memory := p.memory.putBytes nodeSize a n f, elements := (a, n) :: p.elements }

end Pool

/-- `pool_allocator(addr, size)` -/
def Pool.new (size : Nat) : Pool :=
  Pool.putNode ⟨size, 0, Memory.empty, [], []⟩ 0
    ⟨size - headerSize - nodeSize, invalidOffset, invalidOffset, true⟩

/-- the constructor `pool_allocator(addr, size)` on memory that may be in use: it writes the header and
the first node, and leaves the rest as it is -/
def Pool.construct (p : Pool) (size : Nat) : Pool :=
  Pool.putNode { p with size := size, listHeadOffset := 0 } 0
    ⟨size - headerSize - nodeSize, invalidOffset, invalidOffset, true⟩

/-! ## nodes -/

def readNode (a : Nat) : PoolM AllocatorListNode := do
  let p ← Prog.get
  Prog.ofOption (p.memory.record a)

def writeNode (a : Nat) (nd : AllocatorListNode) : PoolM Unit := Prog.modify fun p => p.putNode a nd

/-- assign to fields of the node at `a` -/
def modifyNode (a : Nat) (f : AllocatorListNode → AllocatorListNode) : PoolM Unit := do
  let nd ← readNode a
  writeNode a (f nd)

/-- the pointer of an offset, which must not be null -/
def deref (off : Int) : PoolM Nat := do
  let p ← Prog.get
  Prog.ofOption (p.offsetToPointer off)

/-- `pointer_to_offset` of a node -/
def offsetOf (a : Option Nat) : PoolM Int := do
  let p ← Prog.get
  pure (p.pointerToOffset a)

/-- `_m_insert_node` -/
def insertNode (node : Nat) (newNodesOffset : Int) (newNodesSize : Nat) : PoolM Unit := do
  let nextOffset := (← readNode node).nextOffset
  modifyNode node fun nd => { nd with nextOffset := newNodesOffset }
  let new ← deref newNodesOffset
  writeNode new ⟨newNodesSize, nextOffset, ← offsetOf (some node), true⟩
  if nextOffset ≠ invalidOffset then
    let nextNode ← deref nextOffset
    modifyNode nextNode fun nd => { nd with prevOffset := newNodesOffset }

/-- use the node at `a`: mark it, and split off what is left if that is more than a node header -/
def takeNode (a sizeBytes : Nat) : PoolM Nat := do
  modifyNode a fun nd => { nd with isFree := false }
  let nd ← readNode a
  if nd.size - sizeBytes > nodeSize then
    insertNode a ((← offsetOf (some a)) + nodeSize + sizeBytes) (nd.size - sizeBytes - nodeSize)
    modifyNode a fun nd => { nd with size := sizeBytes }
  pure (← readNode a).size

/-- the loop of `_m_allocate_from_list`, with the node it has come to: the node used, and its size -/
def allocateLoop (sizeBytes : Nat) : Nat → Nat → PoolM (Nat × Nat)
  | 0, _ => Prog.ofOption none
  | fuel + 1, a => do
    let nd ← readNode a
    if nd.isFree ∧ nd.size ≥ sizeBytes then
      let size ← takeNode a sizeBytes
      pure (a, size)
    else if nd.nextOffset = invalidOffset then
      Prog.throw .badAlloc
    else
      let next ← deref nd.nextOffset
      allocateLoop sizeBytes fuel next

/-- what `_m_allocate_from_list` and `_m_allocate_from_list_ptr` share -/
def allocateNode (sizeBytes : Nat) : PoolM (Nat × Nat) := do
  let p ← Prog.get
  let node ← deref p.listHeadOffset
  allocateLoop sizeBytes p.size node

/-- `_m_allocate_from_list` -/
def allocateFromList (sizeBytes : Nat) : PoolM (Int × Nat) := do
  let (node, size) ← allocateNode sizeBytes
  pure ((← offsetOf (some node)) + nodeSize, size)

/-- `_m_allocate_from_list_ptr` -/
def allocateFromListPtr (bytes : Nat) : PoolM (Nat × Nat) := do
  let (node, size) ← allocateNode bytes
  pure (node + nodeSize, size)

/-- the loop of `_m_merge_forward`: the merged size and the first node that is not merged -/
def mergeForwardLoop (node : Nat) : Nat → Nat → Option Nat → PoolM (Nat × Option Nat)
  | 0, _, _ => Prog.ofOption none
  | _ + 1, mergedSize, none => do
    modifyNode node fun nd => { nd with nextOffset := -1 }
    pure (mergedSize, none)
  | fuel + 1, mergedSize, some nextNode => do
    let nd ← readNode nextNode
    if nd.isFree then
      let p ← Prog.get
      mergeForwardLoop node fuel (mergedSize + (nd.size + nodeSize)) (p.offsetToPointer nd.nextOffset)
    else
      let off ← offsetOf (some node)
      modifyNode nextNode fun nd => { nd with prevOffset := off }
      pure (mergedSize, some nextNode)

/-- `_m_merge_forward` -/
def mergeForward (node : Nat) : PoolM Unit := do
  let nd ← readNode node
  if nd.nextOffset = invalidOffset then
    pure ()
  else
    let p ← Prog.get
    let (mergedSize, nextNode) ← mergeForwardLoop node p.size nd.size (p.offsetToPointer nd.nextOffset)
    let off ← offsetOf nextNode
    modifyNode node fun nd => { nd with size := mergedSize, nextOffset := off }

/-- the loop of `_m_merge_backward`: the merged size and the first of the merged nodes -/
def mergeBackwardLoop : Nat → Nat → Nat → Option Nat → PoolM (Nat × Nat)
  | 0, _, _, _ => Prog.ofOption none
  | _ + 1, mergedSize, prevNextNode, none => pure (mergedSize, prevNextNode)
  | fuel + 1, mergedSize, prevNextNode, some prevNode => do
    let nd ← readNode prevNode
    if nd.isFree then
      let p ← Prog.get
      mergeBackwardLoop fuel (mergedSize + (nd.size + nodeSize)) prevNode
        (p.offsetToPointer nd.prevOffset)
    else
      pure (mergedSize, prevNextNode)

/-- `node` becomes the predecessor of `nextNode`, if that is not null -/
def setPrev (node : Nat) : Option Nat → PoolM Unit
  | some nextNode => do
    let off ← offsetOf (some node)
    modifyNode nextNode fun nd => { nd with prevOffset := off }
  | none => pure ()

/-- `_m_merge_backward` -/
def mergeBackward (node : Nat) : PoolM Unit := do
  let nd ← readNode node
  if nd.prevOffset = invalidOffset then
    pure ()
  else
    let p ← Prog.get
    let (mergedSize, prevNextNode) ←
      mergeBackwardLoop p.size nd.size node (p.offsetToPointer nd.prevOffset)
    modifyNode prevNextNode fun nd => { nd with size := mergedSize }
    let nextOffset := (← readNode node).nextOffset
    setPrev prevNextNode (p.offsetToPointer nextOffset)
    let nextOffset := (← readNode node).nextOffset
    modifyNode prevNextNode fun nd => { nd with nextOffset := nextOffset }

/-! ## the public functions -/

/-- `allocate_offset(n)` for an element size `sz` -/
def allocateOffset (sz n : Nat) : PoolM Int := do
  let (off, _) ← allocateFromList (alignUp (n * sz % 2^64))
  pure off

/-- `allocate_at_least(n)` -/
def allocateAtLeast (sz n : Nat) : PoolM (Nat × Nat) := allocateFromListPtr (alignUp (n * sz % 2^64))

/-- `allocate_at_least_offset(n)` -/
def allocateAtLeastOffset (sz n : Nat) : PoolM (Int × Nat) :=
  allocateFromList (alignUp (n * sz % 2^64))

/-- `deallocate(ptr, n)`; `n` is not looked at -/
def deallocate (ptr : Nat) : PoolM Unit := do
  let node := ptr - nodeSize
  modifyNode node fun nd => { nd with isFree := true }
  mergeForward node
  mergeBackward node

/-- `max_size()` for an element size `sz` -/
def maxSize (p : Pool) (sz : Nat) : Nat := (p.size - nodeSize) / sz

end Stl
end Ipcpp
