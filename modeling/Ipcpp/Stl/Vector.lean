import Ipcpp.Stl.Allocator

/-!
# The vector

`ipcpp::vector` over the pool allocator.  Its state is `vector_data`: three offsets in the pool, all `-1`
as long as there is no storage.  The functions take the `VecData` of the vector and return the new one;
they change it only at their end, so that a function that throws leaves it as it was.

An element is its bytes.  Elements are trivially copyable: copying and moving one copies its bytes,
destroying one does nothing.  The difference of two pointers is defined if it is a multiple of the element
size (or if both are null), and stuck otherwise; so is an access through a null pointer.
-/

namespace Ipcpp
namespace Stl

/-- the bytes of an object; `none` is a byte without a value, as in padding -/
abbrev Value := List (Option UInt8)

structure ElemType where
  size : Nat
  pos : 0 < size
  /-- `value_type()` -/
  zero : Value
  zero_length : zero.length = size

/-- `vector_data` -/
structure VecData where
  start : Int := -1
  finish : Int := -1
  endOfStorage : Int := -1
deriving DecidableEq

section
variable (T : ElemType)

/-! ## pointers -/

/-- `b - a` in elements -/
def pointerDiff : Option Nat → Option Nat → PoolM Nat
  | none, none => pure 0
  | some a, some b => if a ≤ b ∧ T.size ∣ b - a then pure ((b - a) / T.size) else Prog.ofOption none
  | _, _ => Prog.ofOption none

def size (d : VecData) : PoolM Nat := do
  let p ← Prog.get
  pointerDiff T (p.offsetToPointer d.start) (p.offsetToPointer d.finish)

def capacity (d : VecData) : PoolM Nat := do
  let p ← Prog.get
  pointerDiff T (p.offsetToPointer d.start) (p.offsetToPointer d.endOfStorage)

/-- the element `ptr[i]` -/
def readElement (ptr : Option Nat) (i : Nat) : PoolM Value := do
  let a ← Prog.ofOption ptr
  let p ← Prog.get
  pure (p.memory.bytes (a + i * T.size) T.size)

/-- `_m_construct_at(ptr + i, v)` -/
def constructAt (ptr : Option Nat) (i : Nat) (v : Value) : PoolM Unit := do
  let a ← Prog.ofOption ptr
  Prog.modify fun p => p.putElement (a + i * T.size) T.size fun j => v[j]?.join

/-- construct the elements `ptr[i], …, ptr[i + n - 1]`, the one at `j` from `value j` -/
def constructLoop (ptr : Option Nat) (value : Nat → PoolM Value) : Nat → Nat → PoolM Unit
  | _, 0 => pure ()
  | i, n + 1 => do
    let v ← value i
    constructAt T ptr i v
    constructLoop ptr value (i + 1) n

/-! ## storage -/

/-- `_m_allocate` -/
def allocate (n : Nat) : PoolM (Int × Nat) :=
  if n = 0 then pure (-1, 0) else allocateAtLeastOffset T.size n

/-- `_m_deallocate`, whose second argument is not looked at -/
def deallocatePtr : Option Nat → PoolM Unit
  | none => pure ()
  | some a => deallocate a

/-- `_m_create_storage` -/
def createStorage (n : Nat) : PoolM VecData := do
  let (start, bytes) ← allocate T n
  pure ⟨start, start, start + bytes⟩

/-- `_m_create_storage(n)`, and then one of `_m_default_initialize`, `_m_fill_initialize` and
`_m_copy_initialize`: `n` elements, the one at `j` from `value j` -/
def createWith (n : Nat) (value : Nat → PoolM Value) : PoolM VecData := do
  let d ← createStorage T n
  let p ← Prog.get
  constructLoop T (p.offsetToPointer d.start) value 0 n
  pure { d with finish := d.finish + (n * T.size % 2^64 : Nat) }

/-- `_m_uninitialized_move` -/
def uninitializedMove (srcStart srcEnd dst : Option Nat) : PoolM (Option Nat) := do
  let n ← pointerDiff T srcStart srcEnd
  constructLoop T dst (readElement T srcStart) 0 n
  pure (dst.map fun a => a + n * T.size)

/-- the length that `_m_check_length` returns, with `max_size()` and `size()`; `none` if it throws -/
def grownLength (maxSize size n : Nat) : Option Nat :=
  if (2^64 + maxSize - size) % 2^64 < n then none
  else
    let len := (size + max size n) % 2^64
    some (if len < size ∨ len > maxSize then maxSize else len)

def lengthOrThrow : Option Nat → PoolM Nat
  | none => Prog.throw .lengthError
  | some len => pure len

/-- `_m_check_length` -/
def checkLength (d : VecData) (n : Nat) : PoolM Nat := do
  let p ← Prog.get
  let size ← size T d
  lengthOrThrow (grownLength (maxSize p T.size) size n)

/-- what `_m_realloc_append`, `_m_realloc_append_n` and `_m_realloc_copy` share: new storage for `len`
elements, to which the elements are moved, and behind them `extra` new elements `v` -/
def realloc (d : VecData) (len extra : Nat) (v : Value) : PoolM VecData := do
  let p ← Prog.get
  let oldStart := p.offsetToPointer d.start
  let oldFinish := p.offsetToPointer d.finish
  let (newStart, newSize) ← allocate T len
  let newFinish ← uninitializedMove T oldStart oldFinish (p.offsetToPointer newStart)
  constructLoop T newFinish (fun _ => pure v) 0 extra
  let _ ← capacity T d
  deallocatePtr oldStart
  let finish ← offsetOf (newFinish.map fun a => a + extra * T.size)
  pure ⟨newStart, finish, newStart + newSize⟩

/-- `_m_realloc_append` -/
def reallocAppend (d : VecData) (v : Value) : PoolM VecData := do
  let len ← checkLength T d 1
  realloc T d len 1 v

/-- `_m_realloc_append_n` -/
def reallocAppendN (d : VecData) (n : Nat) (v : Value) : PoolM VecData := do
  let len ← checkLength T d n
  let size ← size T d
  realloc T d len (n - size) v

/-- `_m_realloc_copy` -/
def reallocCopy (d : VecData) (n : Nat) : PoolM VecData := do
  let p ← Prog.get
  if maxSize p T.size < n then
    Prog.throw .lengthError
  else
    realloc T d n 0 T.zero

/-! ## constructors and destructor -/

/-- `vector(n)` -/
def newSized (n : Nat) : PoolM VecData := createWith T n fun _ => pure T.zero

/-- `vector(n, v)` -/
def newFill (n : Nat) (v : Value) : PoolM VecData := createWith T n fun _ => pure v

/-- `vector({...})` -/
def newList (vs : List Value) : PoolM VecData := createWith T vs.length fun i => Prog.ofOption vs[i]?

/-- `vector(other)` -/
def newCopy (other : VecData) : PoolM VecData := do
  let n ← size T other
  let p ← Prog.get
  createWith T n (readElement T (p.offsetToPointer other.start))

/-- `~vector()` -/
def destroy (d : VecData) : PoolM Unit := do
  let p ← Prog.get
  let _ ← capacity T d
  deallocatePtr (p.offsetToPointer d.start)

/-! ## capacity and modifiers -/

def reserve (d : VecData) (newCap : Nat) : PoolM VecData := do
  let cap ← capacity T d
  if newCap ≤ cap then pure d else reallocCopy T d newCap

def shrinkToFit (d : VecData) : PoolM VecData := do
  let cap ← capacity T d
  let size ← size T d
  if cap = size then pure d else reallocCopy T d size

def clear (d : VecData) : PoolM VecData := pure { d with finish := d.start }

def pushBack (d : VecData) (v : Value) : PoolM VecData := do
  if d.finish ≠ d.endOfStorage then
    let p ← Prog.get
    constructAt T (p.offsetToPointer d.finish) 0 v
    pure { d with finish := d.finish + T.size }
  else
    reallocAppend T d v

/-- `emplace_back`, with the value that is constructed from its arguments; it returns `back()`, for which
the size is computed -/
def emplaceBack (d : VecData) (v : Value) : PoolM VecData := do
  let d ← pushBack T d v
  let _ ← size T d
  pure d

def popBack (d : VecData) : PoolM VecData := pure { d with finish := d.finish - T.size }

/-- `resize(count, v)`; `resize(count)` is the same with a default constructed element -/
def resize (d : VecData) (count : Nat) (v : Value) : PoolM VecData := do
  let size ← size T d
  if count = size then
    pure d
  else if count < size then
    pure { d with finish := d.start + (count * T.size : Nat) }
  else
    let cap ← capacity T d
    if count ≤ cap then
      let p ← Prog.get
      constructLoop T (p.offsetToPointer d.start) (fun _ => pure v) size (count - size)
      pure { d with finish := d.start + (count * T.size : Nat) }
    else
      reallocAppendN T d count v

end

/-- `_m_swap_data` -/
def swapData (d e : VecData) : VecData × VecData := (e, d)

/-- `vector_data(vector_data&&)`: the new data, and what is left in the old -/
def moveData (d : VecData) : VecData × VecData := (d, {})

end Stl
end Ipcpp
