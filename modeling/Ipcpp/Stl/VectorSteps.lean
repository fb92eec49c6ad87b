import Ipcpp.Lib.Guarantee
import Ipcpp.Stl.Objects
import Ipcpp.Stl.VectorInsert

/-!
# The growing functions, one assignment at a time

`push_back`, `emplace_back`, `insert`, `reserve`, `resize` and `shrink_to_fit` once more, for elements of
any type: `vector_data` is part of the state and is assigned to where the code assigns to it, and what the
member functions of the elements do is left open.

A `Constructor` is a constructor of the element type with its arguments.  It may read and write the pool
(an element may be a vector itself, and an argument may be an element of this vector), and throw; its
exceptions are `Thrown.element`, whatever their type, and those of the storage helpers `Thrown.error`.

For trivially copyable elements the functions are those of `Vector` and `VectorInsert`
(`TrivialElements`).
-/

namespace Ipcpp
namespace Stl
open Objects (Thrown)

structure VectorState where
  pool : Pool
  data : VecData

abbrev VectorM := Prog Thrown VectorState

abbrev ElementM := Prog Unit Pool

/-- a constructor with its arguments: it constructs an element at an address -/
abbrev Constructor := Nat → ElementM Unit

/-- the special member functions of the element type -/
structure ElementOps where
  /-- `value_type()` -/
  default : Constructor
  /-- `value_type(*src)` -/
  copy (src : Nat) : Constructor
  /-- a temporary from `std::move(*src)`, and an element from the temporary -/
  move (src : Nat) : Constructor
  destroy (a : Nat) : ElementM Unit

structure Temporary where
  /-- an element that is copied from it -/
  copy : Constructor
  destroy : ElementM Unit

/-- the bytes of `v`, written to an address -/
def bytesConstructor (T : ElemType) (v : Value) : Constructor := fun a =>
  Prog.modify fun p => p.putElement a T.size fun j => v[j]?.join

/-- trivially copyable elements: to copy or move one copies its bytes, to destroy one does nothing -/
def ElementOps.bytes (T : ElemType) : ElementOps where
  default := bytesConstructor T T.zero
  copy src := fun a => do
    let p ← Prog.get
    bytesConstructor T (p.memory.bytes src T.size) a
  move src := fun a => do
    let p ← Prog.get
    bytesConstructor T (p.memory.bytes src T.size) a
  destroy _ := pure ()

namespace VectorState

/-- a function of the storage, which leaves `vector_data` alone -/
def onPool {α : Type} (m : PoolM α) : VectorM α :=
  Prog.zoom pool (fun p s => { s with pool := p }) .error m

def onElement {α : Type} (m : ElementM α) : VectorM α :=
  Prog.zoom pool (fun p s => { s with pool := p }) (fun _ => .element) m

def setStart (off : Int) : VectorM Unit :=
  Prog.modify fun s => { s with data := { s.data with start := off } }

def setFinish (off : Int) : VectorM Unit :=
  Prog.modify fun s => { s with data := { s.data with finish := off } }

def setEndOfStorage (off : Int) : VectorM Unit :=
  Prog.modify fun s => { s with data := { s.data with endOfStorage := off } }

/-- `alloc_traits::offset_to_pointer` -/
def pointerOf (off : Int) : VectorM (Option Nat) := do
  let s ← Prog.get
  pure (s.pool.offsetToPointer off)

def startPtr : VectorM (Option Nat) := do
  let s ← Prog.get
  pointerOf s.data.start

def finishPtr : VectorM (Option Nat) := do
  let s ← Prog.get
  pointerOf s.data.finish

section
variable (T : ElemType) (ops : ElementOps)

def size : VectorM Nat := do
  let s ← Prog.get
  onPool (Stl.size T s.data)

def capacity : VectorM Nat := do
  let s ← Prog.get
  onPool (Stl.capacity T s.data)

/-- `ptr + n` -/
def advance (ptr : Option Nat) (n : Int) : VectorM (Option Nat) := onPool (Stl.advance T ptr n)

/-! ## elements -/

/-- `_m_construct_at(ptr + i, args…)` -/
def constructAt (ptr : Option Nat) (i : Nat) (ctor : Constructor) : VectorM Unit := do
  let a ← Prog.ofOption ptr
  onElement (ctor (a + i * T.size))

/-- construct the elements `ptr[i], …, ptr[i + n - 1]`, the one at `j` with `ctor j` -/
def constructLoop (ptr : Option Nat) (ctor : Nat → Constructor) : Nat → Nat → VectorM Unit
  | _, 0 => pure ()
  | i, n + 1 => do
    constructAt T ptr i (ctor i)
    constructLoop ptr ctor (i + 1) n

/-- the same, with `_m_finish` moved behind each element -/
def constructEach (ptr : Option Nat) (ctor : Nat → Constructor) : Nat → Nat → VectorM Unit
  | _, 0 => pure ()
  | i, n + 1 => do
    constructAt T ptr i (ctor i)
    let s ← Prog.get
    setFinish (s.data.finish + T.size)
    constructEach ptr ctor (i + 1) n

/-- `_m_destroy(ptr + i, ptr + i + n)` -/
def destroyLoop (ptr : Option Nat) : Nat → Nat → VectorM Unit
  | _, 0 => pure ()
  | i, n + 1 => do
    let a ← Prog.ofOption ptr
    onElement (ops.destroy (a + i * T.size))
    destroyLoop ptr (i + 1) n

/-- `_m_uninitialized_move` -/
def uninitializedMove (srcStart srcEnd dst : Option Nat) : VectorM (Option Nat) := do
  let n ← onPool (pointerDiff T srcStart srcEnd)
  constructLoop T dst (fun j a => do
    let src ← Prog.ofOption srcStart
    ops.move (src + j * T.size) a) 0 n
  pure (dst.map fun a => a + n * T.size)

/-- the forward loop of `_m_move_to` -/
def moveForward (dstIt : Nat) : Nat → Nat → VectorM Unit
  | _, 0 => pure ()
  | first, n + 1 => do
    constructAt T (some dstIt) 0 (ops.copy first)
    moveForward dstIt (first + T.size) n

/-- the backward loop of `_m_move_to` -/
def moveBackward (first dstIt : Nat) : Nat → VectorM Unit
  | 0 => pure ()
  | n + 1 => do
    constructAt T (some dstIt) n (ops.copy (first + n * T.size))
    moveBackward first dstIt n

/-- `_m_move_to` -/
def moveTo (first last dst : Option Nat) : VectorM Unit :=
  if dst = first then
    pure ()
  else do
    let first ← Prog.ofOption first
    let last ← Prog.ofOption last
    let dst ← Prog.ofOption dst
    let start ← Prog.ofOption (← startPtr)
    let off ← onPool (distance T start dst)
    let dstIt := ((start : Int) + off * T.size).toNat
    if dst < first ∨ dst > last + T.size then
      moveForward T ops dstIt first ((last - first + (T.size - 1)) / T.size)
    else
      let n ← onPool (distance T first last)
      moveBackward T ops first dstIt n.toNat

/-! ## storage -/

/-- `_m_check_length` -/
def checkLength (n : Nat) : VectorM Nat := do
  let s ← Prog.get
  onPool (Stl.checkLength T s.data n)

/-- what the `_m_realloc_` functions share, behind the check of the length: new storage for `len` elements,
to which the elements are moved, and behind them `extra` new ones -/
def realloc (len : Nat) (extra : VectorM Nat) (args : Constructor) : VectorM Unit := do
  let oldStart ← startPtr
  let oldFinish ← finishPtr
  let (newStart, newSize) ← onPool (allocate T len)
  let newFinish ← uninitializedMove T ops oldStart oldFinish (← pointerOf newStart)
  let n ← extra
  constructLoop T newFinish (fun _ => args) 0 n
  let _ ← capacity T
  onPool (deallocatePtr oldStart)
  setStart newStart
  setFinish (← onPool (offsetOf (newFinish.map fun a => a + n * T.size)))
  setEndOfStorage (newStart + newSize)

/-- `_m_realloc_append` -/
def reallocAppend (args : Constructor) : VectorM Unit := do
  let len ← checkLength T 1
  realloc T ops len (pure 1) args

/-- `_m_realloc_append_n`, whose loop goes from `size()` to `n` -/
def reallocAppendN (n : Nat) (args : Constructor) : VectorM Unit := do
  let len ← checkLength T n
  realloc T ops len (do pure (n - (← size T))) args

/-- `_m_uninitialized_realloc_n` -/
def uninitializedReallocN (n : Nat) : VectorM Unit := do
  let len ← checkLength T n
  realloc T ops len (pure 0) ops.default

/-- `_m_realloc_copy` -/
def reallocCopy (n : Nat) : VectorM Unit := do
  let s ← Prog.get
  if maxSize s.pool T.size < n then
    Prog.throw (.error .lengthError)
  else
    realloc T ops n (pure 0) ops.default

/-! ## the member functions -/

def reserve (newCap : Nat) : VectorM Unit := do
  let cap ← capacity T
  if newCap ≤ cap then pure () else reallocCopy T ops newCap

def shrinkToFit : VectorM Unit := do
  let cap ← capacity T
  let sz ← size T
  if cap = sz then pure () else reallocCopy T ops sz

/-- `push_back` and `emplace_back`: `room` constructs the element where there is room, `full` in new
storage -/
def append (room full : Constructor) : VectorM Unit := do
  let s ← Prog.get
  if s.data.finish ≠ s.data.endOfStorage then
    constructAt T (← pointerOf s.data.finish) 0 room
    setFinish ((← Prog.get).data.finish + T.size)
  else
    reallocAppend T ops full

/-- `push_back(v)`: `v` is the copy constructor applied to it -/
def pushBack (v : Constructor) : VectorM Unit := append T ops v v

/-- `emplace_back(args…)`, also called by `push_back(std::move(v))`.  Where there is room, the element is
moved from a temporary (`tmp`), else it is constructed from the arguments.  For `back()` the size is
computed. -/
def emplaceBack (args tmp : Constructor) : VectorM Unit := do
  append T ops tmp args
  let _ ← size T
  pure ()

/-- what both overloads of `insert` do when there is room for the `count` elements -/
def insertAt (pos : Option Nat) (offset : Int) (count : Nat) (value : Nat → Constructor) :
    VectorM (Option Nat) := do
  let position ← advance T (← startPtr) offset
  let start ← startPtr
  let cend ← advance T start (← size T)
  let dst ← advance T pos count
  moveTo T ops pos cend dst
  constructEach T position value 0 count
  advance T (← startPtr) offset

/-- `insert(pos, count, value)` -/
def insertFill (pos : Option Nat) (count : Nat) (value : Constructor) : VectorM (Option Nat) := do
  let offset ← onPool (difference T (← startPtr) pos)
  let cap ← capacity T
  let sz ← size T
  if cap < (sz + count) % 2^64 then
    uninitializedReallocN T ops count
    -- `pos = cbegin() + offset`
    let pos ← advance T (← startPtr) offset
    insertAt T ops pos offset count fun _ => value
  else
    insertAt T ops pos offset count fun _ => value

/-- `insert(pos, first, last)`, for `count` elements, the one at `j` constructed with `value j` -/
def insertRange (pos : Option Nat) (count : Nat) (value : Nat → Constructor) : VectorM (Option Nat) := do
  let offset ← onPool (difference T (← startPtr) pos)
  let cap ← capacity T
  let sz ← size T
  if cap < (sz + count) % 2^64 then
    uninitializedReallocN T ops count
    insertAt T ops pos offset count value
  else
    insertAt T ops pos offset count value

/-- `insert(pos, std::move(value))`: `tmp` is moved from `value` (`move`), inserted, and destroyed on every way
out -/
def insertMoved (pos : Option Nat) (move : ElementM Temporary) : VectorM (Option Nat) := do
  let tmp ← onElement move
  Prog.withCleanup (insertFill T ops pos 1 tmp.copy) (onElement tmp.destroy)

/-- `resize(count, value)`; `resize(count)` is the same with the default constructor -/
def resize (count : Nat) (value : Constructor) : VectorM Unit := do
  let sz ← size T
  if count = sz then
    pure ()
  else if count < sz then
    destroyLoop T ops (← startPtr) count (sz - count)
    setFinish ((← Prog.get).data.start + (count * T.size : Nat))
  else
    let cap ← capacity T
    if count ≤ cap then
      constructLoop T (← startPtr) (fun _ => value) sz (count - sz)
      setFinish ((← Prog.get).data.start + (count * T.size : Nat))
    else
      reallocAppendN T ops count value

end

end VectorState

end Stl
end Ipcpp
