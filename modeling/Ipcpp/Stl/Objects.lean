import Ipcpp.Lib.Lifetimes
import Ipcpp.Lib.Runs
import Ipcpp.Stl.Blocks
import Ipcpp.Stl.Vector

/-!
# The objects in a vector

`ipcpp::vector` for elements of any type, seen from the elements: a log of the constructions and
destructions in storage, by address.  What the elements are worth does not matter, nor do temporaries.

The functions work on the state `Call` of one call.  Pointers are addresses, `0` is `nullptr`; the three
offsets of `vector_data` are kept as the address of the first slot, the number of ELEMENTS up to `_m_finish`
and the number of BYTES up to `_m_end_of_storage`.  Outside of a call's control are

* the allocator: `answer` is what it returns if it is called, `none` if it throws;
* the constructors of the elements: `patience` is how many of them succeed before one throws, `none` if
  none throws.

The allocator returns a block that is not allocated.  The difference of two pointers that are not a whole
number of elements apart has no meaning, and the call is stuck.  `pop_back` of an empty vector and iterators
that do not point into the vector are the caller's errors, and not actions.
-/

namespace Ipcpp
namespace Stl
namespace Objects
open Lifetimes Runs

/-- `sizeof(value_type)` and `max_size()` -/
structure Params where
  size : Nat
  pos : 0 < size
  maxSize : Nat
  /-- there is room for an element -/
  maxSize_pos : 0 < maxSize

/-- `vector_data` -/
structure Data where
  start : Nat := 0
  count : Nat := 0
  bytes : Nat := 0
deriving DecidableEq

structure Call where
  /-- the vector -/
  this : Data
  /-- the blocks that are allocated, by this vector and by others -/
  heap : List Block
  log : List (Event Nat)
  answer : Option Block
  patience : Option Nat

inductive Thrown where
  | error (e : Error)
  /-- an exception from the constructor of an element -/
  | element
deriving DecidableEq

abbrev CallM := Prog Thrown Call

section
variable (P : Params)

/-- the address of `start[i]` -/
def slot (start i : Nat) : Nat := start + i * P.size

/-! ## constructing and destroying -/

/-- `_m_construct_at` -/
def constructAt (a : Nat) : CallM Unit := do
  let s ← Prog.get
  if s.patience = some 0 then
    Prog.throw .element
  else
    Prog.modify fun s => { s with log := .construct a :: s.log, patience := s.patience.map (· - 1) }

/-- `std::destroy_at` -/
def destroyAt (a : Nat) : CallM Unit := Prog.modify fun s => { s with log := .destroy a :: s.log }

/-- construct at `start[i], …, start[i + n - 1]` -/
def constructLoop (start : Nat) : Nat → Nat → CallM Unit
  | _, 0 => pure ()
  | i, n + 1 => do
    constructAt (slot P start i)
    constructLoop start (i + 1) n

/-- `_m_destroy(start + i, start + i + n)` -/
def destroyLoop (start : Nat) : Nat → Nat → CallM Unit
  | _, 0 => pure ()
  | i, n + 1 => do
    destroyAt (slot P start i)
    destroyLoop start (i + 1) n

/-- `_m_finish` is moved behind `count` elements -/
def setCount (count : Nat) : CallM Unit :=
  Prog.modify fun s => { s with this := { s.this with count := count } }

/-- construct at `begin()[i], …, begin()[i + n - 1]`, and advance `_m_finish` after each -/
def constructEach : Nat → Nat → CallM Unit
  | _, 0 => pure ()
  | i, n + 1 => do
    let s ← Prog.get
    constructAt (slot P s.this.start i)
    setCount (s.this.count + 1)
    constructEach (i + 1) n

/-- `_m_default_initialize(n)`, `_m_fill_initialize(n, v)` and `_m_copy_initialize(n, first)`:
`_m_finish` is advanced at the end -/
def fillInitialize (n : Nat) : CallM Unit := do
  let s ← Prog.get
  constructLoop P s.this.start 0 n
  setCount (s.this.count + n)

/-- `_m_copy_initialize(first, last)` and `_m_move_initialize` -/
def copyInitialize (n : Nat) : CallM Unit := constructEach P 0 n

/-! ## storage -/

/-- `_m_allocate` -/
def allocate (n : Nat) : CallM Block :=
  if n = 0 then
    pure ⟨0, 0⟩
  else do
    let s ← Prog.get
    match s.answer with
    | none => Prog.throw (.error .badAlloc)
    | some b =>
      if 0 < b.off ∧ 0 < b.size ∧ ∀ c ∈ s.heap, Apart b.off b.size c.off c.size then
        Prog.modify fun s => { s with heap := b :: s.heap }
        pure b
      else
        Prog.ofOption none

/-- `_m_deallocate` -/
def deallocate (a : Nat) : CallM Unit :=
  if a = 0 then pure () else Prog.modify fun s => { s with heap := s.heap.filter fun c => c.off ≠ a }

/-- `_m_create_storage` -/
def createStorage (n : Nat) : CallM Unit := do
  let b ← allocate n
  Prog.modify fun s => { s with this := ⟨b.off, 0, b.size⟩ }

def capacity : CallM Nat := do
  let s ← Prog.get
  if P.size ∣ s.this.bytes then pure (s.this.bytes / P.size) else Prog.ofOption none

/-- `_m_check_length` -/
def checkLength (n : Nat) : CallM Nat := do
  let s ← Prog.get
  match grownLength P.maxSize s.this.count n with
  | none => Prog.throw (.error .lengthError)
  | some len => pure len

/-- what the `_m_realloc_` functions share: new storage for `len` elements, to which the elements are
moved, and behind them `extra` new elements.  The old elements are not destroyed. -/
def realloc (len extra : Nat) : CallM Unit := do
  let s ← Prog.get
  let b ← allocate len
  constructLoop P b.off 0 s.this.count
  constructLoop P b.off s.this.count extra
  let _ ← capacity P
  deallocate s.this.start
  Prog.modify fun t => { t with this := ⟨b.off, s.this.count + extra, b.size⟩ }

/-- `_m_realloc_append` -/
def reallocAppend : CallM Unit := do
  let len ← checkLength P 1
  realloc P len 1

/-- `_m_realloc_append_n` -/
def reallocAppendN (n : Nat) : CallM Unit := do
  let len ← checkLength P n
  let s ← Prog.get
  realloc P len (n - s.this.count)

/-- `_m_uninitialized_realloc_n` -/
def uninitializedReallocN (n : Nat) : CallM Unit := do
  let len ← checkLength P n
  realloc P len 0

/-- `_m_realloc_copy` -/
def reallocCopy (n : Nat) : CallM Unit :=
  if P.maxSize < n then Prog.throw (.error .lengthError) else realloc P n 0

/-! ## shifting elements -/

/-- construct `n` times at the same address -/
def constructSame (a : Nat) : Nat → CallM Unit
  | 0 => pure ()
  | n + 1 => do
    constructAt a
    constructSame a n

/-- construct at `dst[n - 1], …, dst[0]` -/
def constructBack (dst : Nat) : Nat → CallM Unit
  | 0 => pure ()
  | n + 1 => do
    constructAt (slot P dst n)
    constructBack dst n

/-- `_m_move_to`, of pointers.  The loop of the first branch advances `first` and `dst`, but constructs at
`dst_it`, which stays. -/
def moveTo (first last dst : Nat) : CallM Unit :=
  if dst = first then
    pure ()
  else if dst < first ∨ last + P.size < dst then
    constructSame dst ((last - first + P.size - 1) / P.size)
  else if P.size ∣ last - first then
    constructBack P dst ((last - first) / P.size)
  else
    Prog.ofOption none

/-! ## constructors, destructor and assignment -/

/-- `vector(n)`, `vector(n, v)` and `vector(other)` with `n` elements in `other` -/
def newSized (n : Nat) : CallM Unit := do
  createStorage n
  fillInitialize P n

/-- `vector(first, last)` and `vector({...})`; the first half of `vector(vector<value_type, T_Allocator2>&&)`
-/
def newRange (n : Nat) : CallM Unit := do
  createStorage n
  copyInitialize P n

/-- `~vector()` -/
def destroy : CallM Unit := do
  let s ← Prog.get
  destroyLoop P s.this.start 0 s.this.count
  let _ ← capacity P
  deallocate s.this.start

/-- what the assignments of `n` elements share: `other` is done if the storage suffices, `init` constructs
the new elements -/
def assignWith (other init : CallM Unit) (n : Nat) : CallM Unit := do
  let s ← Prog.get
  destroyLoop P s.this.start 0 s.this.count
  let cap ← capacity P
  if cap < n then
    deallocate s.this.start
    createStorage n
  else
    other
  init

/-- `operator=(const vector&)` of another vector, and `assign(count, value)` -/
def assignFill (n : Nat) : CallM Unit := assignWith P (pure ()) (fillInitialize P n) n

/-- `assign(first, last)` and `assign({...})` -/
def assignRange (n : Nat) : CallM Unit := assignWith P (pure ()) (copyInitialize P n) n

/-- `operator=({...})` -/
def assignList (n : Nat) : CallM Unit := assignWith P (setCount 0) (copyInitialize P n) n

/-! ## capacity and modifiers -/

def reserve (newCap : Nat) : CallM Unit := do
  let cap ← capacity P
  if newCap ≤ cap then pure () else reallocCopy P newCap

def shrinkToFit : CallM Unit := do
  let cap ← capacity P
  let s ← Prog.get
  if cap = s.this.count then pure () else reallocCopy P s.this.count

def clear : CallM Unit := do
  let s ← Prog.get
  destroyLoop P s.this.start 0 s.this.count
  setCount 0

/-- `push_back` and `emplace_back` -/
def pushBack : CallM Unit := do
  let s ← Prog.get
  if s.this.count * P.size ≠ s.this.bytes then
    constructAt (slot P s.this.start s.this.count)
    setCount (s.this.count + 1)
  else
    reallocAppend P

def popBack : CallM Unit := do
  let s ← Prog.get
  destroyAt (slot P s.this.start (s.this.count - 1))
  setCount (s.this.count - 1)

/-- both `resize` -/
def resize (count : Nat) : CallM Unit := do
  let s ← Prog.get
  if count = s.this.count then
    pure ()
  else if count < s.this.count then
    destroyLoop P s.this.start count (s.this.count - count)
    setCount count
  else
    let cap ← capacity P
    if count ≤ cap then
      constructLoop P s.this.start s.this.count (count - s.this.count)
      setCount count
    else
      reallocAppendN P count

/-- `insert(pos, count, value)`; the other ones of a value call it with `count = 1` -/
def insert (pos count : Nat) : CallM Unit := do
  let cap ← capacity P
  let s ← Prog.get
  if cap < (s.this.count + count) % 2^64 then
    uninitializedReallocN P count
  let s ← Prog.get
  let p := slot P s.this.start pos
  moveTo P p (slot P s.this.start s.this.count) (p + count * P.size)
  constructEach P pos count

/-- `insert(pos, first, last)` of `count` elements, and `insert(pos, {...})`.  After a reallocation `pos` still
points into the old storage. -/
def insertRange (pos count : Nat) : CallM Unit := do
  let cap ← capacity P
  let s ← Prog.get
  let p := slot P s.this.start pos
  if cap < (s.this.count + count) % 2^64 then
    uninitializedReallocN P count
  let s ← Prog.get
  moveTo P p (slot P s.this.start s.this.count) (p + count * P.size)
  constructEach P pos count

/-- `erase(pos)` -/
def erase (pos : Nat) : CallM Unit := do
  let s ← Prog.get
  if pos + 1 = s.this.count then
    destroyAt (slot P s.this.start pos)
    setCount (s.this.count - 1)
  else
    moveTo P (slot P s.this.start (pos + 1)) (slot P s.this.start s.this.count) (slot P s.this.start pos)
    setCount (s.this.count - 1)

/-- `erase(first, last)` -/
def eraseRange (first last : Nat) : CallM Unit := do
  let s ← Prog.get
  if last ≤ first then
    pure ()
  else
    moveTo P (slot P s.this.start last) (slot P s.this.start s.this.count) (slot P s.this.start first)
    setCount (s.this.count - (last - first))

end

/-! ## programs with vectors -/

inductive Method where
  | pushBack
  | popBack
  | reserve (newCap : Nat)
  | shrinkToFit
  | clear
  | resize (count : Nat)
  | insert (pos count : Nat)
  | insertRange (pos count : Nat)
  | erase (pos : Nat)
  | eraseRange (first last : Nat)
  | assign (n : Nat)
  | assignRange (n : Nat)
  | assignList (n : Nat)

namespace Method

def run (P : Params) : Method → CallM Unit
  | pushBack => Objects.pushBack P
  | popBack => Objects.popBack P
  | reserve n => Objects.reserve P n
  | shrinkToFit => Objects.shrinkToFit P
  | clear => Objects.clear P
  | resize n => Objects.resize P n
  | insert pos count => Objects.insert P pos count
  | insertRange pos count => Objects.insertRange P pos count
  | erase pos => Objects.erase P pos
  | eraseRange first last => Objects.eraseRange P first last
  | assign n => assignFill P n
  | assignRange n => Objects.assignRange P n
  | assignList n => Objects.assignList P n

/-- there is an element to remove, and iterators point into the vector -/
def Valid (d : Data) : Method → Prop
  | popBack => 0 < d.count
  | insert pos _ => pos ≤ d.count
  | insertRange pos _ => pos ≤ d.count
  | erase pos => pos < d.count
  | eraseRange first last => first ≤ d.count ∧ last ≤ d.count
  | _ => True

instance (d : Data) : (f : Method) → Decidable (f.Valid d)
  | popBack => inferInstanceAs (Decidable (0 < d.count))
  | insert pos _ => inferInstanceAs (Decidable (pos ≤ d.count))
  | insertRange pos _ => inferInstanceAs (Decidable (pos ≤ d.count))
  | erase pos => inferInstanceAs (Decidable (pos < d.count))
  | eraseRange first last => inferInstanceAs (Decidable (first ≤ d.count ∧ last ≤ d.count))
  | pushBack => isTrue trivial
  | reserve _ => isTrue trivial
  | shrinkToFit => isTrue trivial
  | clear => isTrue trivial
  | resize _ => isTrue trivial
  | assign _ => isTrue trivial
  | assignRange _ => isTrue trivial
  | assignList _ => isTrue trivial

end Method

/-- the vectors are variables `0, 1, …` -/
inductive Op where
  /-- `vector()` -/
  | empty (k : Nat)
  /-- `vector(n)` and `vector(n, v)` -/
  | sized (k n : Nat)
  /-- `vector(first, last)` and `vector({...})` -/
  | range (k n : Nat)
  /-- `vector(other)` -/
  | copy (k j : Nat)
  /-- `vector(std::move(other))` -/
  | move (k j : Nat)
  /-- the same with an `other` that has another allocator -/
  | moveOther (k j : Nat)
  | call (k : Nat) (f : Method)
  | copyAssign (k j : Nat)
  /-- `operator=(vector&&)` and `swap` -/
  | swap (k j : Nat)
  | destroy (k : Nat)

structure Action where
  op : Op
  answer : Option Block := none
  patience : Option Nat := none

structure World where
  vec : Nat → Option Data
  heap : List Block
  log : List (Event Nat)

namespace World
variable (P : Params) (w : World)

def init : World := ⟨fun _ => none, [], []⟩

/-- variable `k` is now `x` -/
def put (k : Nat) (x : Option Data) : World := { w with vec := fun j => if j = k then x else w.vec j }

/-- the state in which a call on `d` starts -/
def enter (d : Data) (a : Action) : Call := ⟨d, w.heap, w.log, a.answer, a.patience⟩

def leave (t : Call) : World := { w with heap := t.heap, log := t.log }

/-- a call on the vector `d` in variable `k`: what it has done to the vector stays if it throws -/
def invoke (k : Nat) (d : Data) (p : CallM Unit) (a : Action) : Option World :=
  match p.run (w.enter d a) with
  | .ok _ t => some ((w.leave t).put k (some t.this))
  | .throw _ t => some ((w.leave t).put k (some t.this))
  | .stuck => none

/-- a constructor, and what is done after it: there is no vector, and no destructor, if it throws -/
def make (k : Nat) (p : CallM Unit) (a : Action) (andThen : World → Option World) : Option World :=
  if w.vec k = none then
    match p.run (w.enter {} a) with
    | .ok _ t => andThen ((w.leave t).put k (some t.this))
    | .throw _ t => some (w.leave t)
    | .stuck => none
  else none

/-- the second half of `vector(vector<value_type, T_Allocator2>&&)` -/
def release : CallM Unit := do
  clear P
  shrinkToFit P

def step (w : World) (a : Action) : Option World :=
  match a.op with
  | .empty k => w.make k (pure ()) a some
  | .sized k n => w.make k (newSized P n) a some
  | .range k n => w.make k (newRange P n) a some
  | .copy k j => (w.vec j).bind fun e => w.make k (newSized P e.count) a some
  | .move k j => (w.vec j).bind fun e =>
    if w.vec k = none then some ((w.put j (some {})).put k (some e)) else none
  | .moveOther k j => (w.vec j).bind fun e =>
    w.make k (newRange P e.count) a fun w => w.invoke j e (release P) a
  | .call k f => (w.vec k).bind fun d => if f.Valid d then w.invoke k d (f.run P) a else none
  | .copyAssign k j => (w.vec k).bind fun d => (w.vec j).bind fun e =>
    if k = j then some w else w.invoke k d (assignFill P e.count) a
  | .swap k j => (w.vec k).bind fun d => (w.vec j).bind fun e =>
    some ((w.put k (some e)).put j (some d))
  | .destroy k => (w.vec k).bind fun d =>
    match (destroy P).run (w.enter d a) with
    | .ok _ t => some ((w.leave t).put k none)
    | .throw _ _ => none
    | .stuck => none

end World

end Objects
end Stl
end Ipcpp
