import Ipcpp.Lib.Runs
import Ipcpp.Lib.Ring

/-!
# The queue in shared memory (`ipcpp::shm::FixedSizeQueue`)

A ring with a head, a tail and a counter of its own for the size.  The tail advances modulo the capacity; the
head advances by `(head_idx + 1) & capacity`, a mask where a remainder is meant.  `fifo_iff`: the queue is
first-in first-out as long as the two agree whenever it is popped, and not longer; with a power of two of
slots they never do (`not_wrapsRight_two_pow`).

No code instantiates this template.  The functions are read as they are meant where the text falls short of
that: `*tail()` is the slot at `tail_idx`, and a `push` that was not refused returns.
-/

namespace Ipcpp
namespace Shm
open Runs

/-- `QueueItem<T>` -/
structure QueueItem (T : Type) where
  numUniqueReads : Nat := 0
  value : T

namespace FixedSizeQueue

/-- `shm::FixedSizeQueue::Header` -/
structure Header where
  headIdx : Nat := 0
  tailIdx : Nat := 0
  size : Nat := 0
  capacity : Nat := 0

end FixedSizeQueue

structure FixedSizeQueue (T : Type) where
  header : FixedSizeQueue.Header
  items : Nat → QueueItem T

namespace FixedSizeQueue
variable {T : Type}

/-- the constructor, on memory with these items -/
def construct (capacity : Nat) (items : Nat → QueueItem T) : FixedSizeQueue T := ⟨{ capacity := capacity }, items⟩

section
variable (q : FixedSizeQueue T)

/-- `push`; a full queue refuses -/
def push (item : T) : FixedSizeQueue T :=
  if q.header.capacity ≤ q.header.size then q
  else
    { header := { q.header with
        tailIdx := (q.header.tailIdx + 1) % 2^64 % q.header.capacity, size := (q.header.size + 1) % 2^64 },
      items := Function.update q.items q.header.tailIdx { value := item } }

/-- the index that `pop` makes the head -/
def nextHead : Nat := (q.header.headIdx + 1) % 2^64 &&& q.header.capacity

def pop : FixedSizeQueue T :=
  { q with header := { q.header with headIdx := q.nextHead, size := (q.header.size + (2^64 - 1)) % 2^64 } }

def front : QueueItem T := q.items q.header.headIdx

def empty : Bool := q.header.size = 0

def size : Nat := q.header.size

end

inductive Op (T : Type) where
  | push (item : T)
  | pop

/-- a call; the queue is popped only when it is not empty -/
def step (q : FixedSizeQueue T) : Op T → Option (FixedSizeQueue T)
  | .push item => some (q.push item)
  | .pop => if q.empty then none else some q.pop

/-- the same calls on a list of at most `capacity` values -/
def listStep (capacity : Nat) (l : List T) : Op T → Option (List T)
  | .push item => some (Ring.push capacity item l)
  | .pop => if l.isEmpty then none else some l.tail

/-- `front` is the oldest of the values, the two positions are ones of the ring, and the size is right -/
structure Fifo (capacity : Nat) (p : FixedSizeQueue T × List T) : Prop where
  front_eq : ∀ v, p.2.head? = some v → p.1.front.value = v
  head_lt : p.1.header.headIdx < capacity
  tail_lt : p.1.header.tailIdx < capacity
  size_eq : p.1.size = p.2.length
  tail_eq : p.1.header.tailIdx = (p.1.header.headIdx + p.1.size) % capacity

/-- a pop masks the new head to what the remainder is -/
def WrapsRight (p : FixedSizeQueue T × List T) : Op T → Prop
  | .push _ => True
  | .pop => (p.1.header.headIdx + 1) &&& p.1.header.capacity = (p.1.header.headIdx + 1) % p.1.header.capacity

instance (p : FixedSizeQueue T × List T) : (op : Op T) → Decidable (WrapsRight p op)
  | .push _ => isTrue trivial
  | .pop => inferInstanceAs (Decidable (_ = _))

/-- the mask is the remainder below the capacity only, and only if it has all the bits of the index -/
theorem and_eq_mod_iff {i c : Nat} (hi : 0 < i) (hc : i ≤ c) : i &&& c = i % c ↔ i < c ∧ i &&& c = i := by
  rcases Nat.lt_or_eq_of_le hc with hlt | rfl
  · rw [Nat.mod_eq_of_lt hlt]
    exact ⟨fun h => ⟨hlt, h⟩, And.right⟩
  · rw [Nat.and_self, Nat.mod_self]
    omega

theorem not_wrapsRight_two_pow {k : Nat} (p : FixedSizeQueue T × List T) (hcap : p.1.header.capacity = 2^k)
    (hlt : p.1.header.headIdx < 2^k) : ¬ WrapsRight p .pop := by
  intro h
  have hmask : (p.1.header.headIdx + 1) &&& 2^k = (p.1.header.headIdx + 1) % 2^k := hcap ▸ h
  obtain ⟨hi, hand⟩ := (and_eq_mod_iff (Nat.succ_pos _) hlt).mp hmask
  rw [Nat.and_two_pow, Nat.testBit_lt_two_pow hi] at hand
  simp at hand

/-! ## the list in the ring -/

variable {q : FixedSizeQueue T}

def values (q : FixedSizeQueue T) (i : Nat) : T := (q.items i).value

theorem values_update (header : Header) (i : Nat) (item : QueueItem T) :
    values ⟨header, Function.update q.items i item⟩ = Function.update q.values i item.value :=
  Function.comp_update QueueItem.value q.items i item

structure Stores (capacity : Nat) (p : FixedSizeQueue T × List T) : Prop where
  capacity_eq : p.1.header.capacity = capacity
  head_lt : p.1.header.headIdx < capacity
  length_le : p.2.length ≤ capacity
  size_eq : p.1.header.size = p.2.length
  tail_eq : p.1.header.tailIdx = Ring.slot capacity p.1.header.headIdx p.2.length
  window_eq : Ring.window p.1.values capacity p.1.header.headIdx p.2.length = p.2

variable {capacity : Nat} {l : List T}

theorem Stores.fifo {p : FixedSizeQueue T × List T} (h : Stores capacity p) : Fifo capacity p where
  front_eq _ hv := Ring.eq_head h.head_lt h.window_eq hv
  head_lt := h.head_lt
  tail_lt := h.tail_eq ▸ Ring.slot_lt (Nat.zero_lt_of_lt h.head_lt) _ _
  size_eq := h.size_eq
  tail_eq := h.tail_eq.trans (congrArg (fun n => (p.1.header.headIdx + n) % capacity) h.size_eq.symm)

theorem construct_stores (hpos : 0 < capacity) (items : Nat → QueueItem T) :
    Stores capacity (construct capacity items, []) where
  capacity_eq := rfl
  head_lt := hpos
  length_le := Nat.zero_le _
  size_eq := rfl
  tail_eq := (Ring.slot_zero hpos).symm
  window_eq := rfl

theorem Stores.push (h : Stores capacity (q, l)) (hw : capacity < 2^64) (item : T) :
    Stores capacity (q.push item, Ring.push capacity item l) := by
  have hsize : q.header.size = l.length := h.size_eq
  have hcap : q.header.capacity = capacity := h.capacity_eq
  unfold FixedSizeQueue.push
  rw [hcap, hsize]
  rcases Nat.lt_or_eq_of_le (show l.length ≤ capacity from h.length_le) with hlt | heq
  · have htail : q.header.tailIdx = Ring.slot capacity q.header.headIdx l.length := h.tail_eq
    have hslot := Ring.slot_lt (Nat.zero_lt_of_lt hlt) q.header.headIdx l.length
    rw [if_neg (Nat.not_le_of_lt hlt), Ring.push_of_lt hlt]
    refine ⟨hcap, h.head_lt, ?_, ?_, ?_, ?_⟩
    · rw [List.length_append, List.length_singleton]
      exact hlt
    · rw [List.length_append, List.length_singleton]
      exact Nat.mod_eq_of_lt (show l.length + 1 < 2^64 by omega)
    · rw [List.length_append, List.length_singleton]
      show (q.header.tailIdx + 1) % 2^64 % capacity = _
      rw [htail, Nat.mod_eq_of_lt (show _ + 1 < 2^64 by omega), Ring.slot_succ]
    · show Ring.window (values ⟨_, Function.update q.items q.header.tailIdx { value := item }⟩) _ _ _ = _
      rw [values_update, htail]
      exact Ring.window_push h.head_lt hlt h.window_eq item
  · rw [if_pos heq.ge, Ring.push_of_eq heq]
    exact h

theorem nextHead_eq (h : Stores capacity (q, l)) (hw : capacity < 2^64) :
    q.nextHead = (q.header.headIdx + 1) &&& capacity := by
  have hlt : q.header.headIdx < capacity := h.head_lt
  rw [nextHead, show q.header.capacity = capacity from h.capacity_eq, Nat.mod_eq_of_lt (show _ + 1 < 2^64 by omega)]

theorem Stores.pop_size {v : T} (h : Stores capacity (q, v :: l)) (hw : capacity < 2^64) :
    q.pop.header.size = l.length := by
  have hsize : q.header.size = l.length + 1 := h.size_eq
  have hle : l.length + 1 ≤ capacity := h.length_le
  show (q.header.size + (2^64 - 1)) % 2^64 = _
  omega

theorem Stores.pop {v : T} (h : Stores capacity (q, v :: l)) (hw : capacity < 2^64)
    (hC : WrapsRight (q, v :: l) .pop) : Stores capacity (q.pop, l) := by
  have hle : l.length + 1 ≤ capacity := h.length_le
  have hcap : q.header.capacity = capacity := h.capacity_eq
  have hmask : (q.header.headIdx + 1) &&& q.header.capacity = (q.header.headIdx + 1) % q.header.capacity := hC
  have hhead : q.pop.header.headIdx = (q.header.headIdx + 1) % capacity := by
    show q.nextHead = _
    rw [nextHead_eq h hw, ← hcap, hmask]
  refine ⟨hcap, ?_, Nat.le_of_succ_le hle, h.pop_size hw, ?_, ?_⟩
  · rw [hhead]
    exact Nat.mod_lt _ (Nat.zero_lt_of_lt hle)
  · rw [hhead, Ring.slot_behind]
    exact h.tail_eq
  · rw [hhead]
    exact Ring.window_tail h.head_lt h.window_eq

theorem Fifo.head_eq {i : Nat} (h : Fifo capacity (q, l)) (htail : q.header.tailIdx = (i + l.length) % capacity) :
    q.header.headIdx = i % capacity := by
  have hsize : q.size = l.length := h.size_eq
  have hlt : q.header.headIdx < capacity := h.head_lt
  have hnew : q.header.tailIdx = (q.header.headIdx + q.size) % capacity := h.tail_eq
  rw [htail, hsize] at hnew
  have hmod : i % capacity = q.header.headIdx % capacity := Nat.ModEq.add_right_cancel' l.length hnew
  rw [hmod, Nat.mod_eq_of_lt hlt]

/-- **A pop that leaves the positions right masked the head right.** -/
theorem Stores.wrapsRight {v : T} (h : Stores capacity (q, v :: l)) (hw : capacity < 2^64)
    (hF : Fifo capacity (q.pop, l)) : WrapsRight (q, v :: l) .pop := by
  have hcap : q.header.capacity = capacity := h.capacity_eq
  have htail : q.header.tailIdx = (q.header.headIdx + 1 + l.length) % capacity := by
    rw [Nat.add_assoc, Nat.add_comm 1]
    exact h.tail_eq
  have hhead : q.nextHead = (q.header.headIdx + 1) % capacity := hF.head_eq htail
  show (q.header.headIdx + 1) &&& q.header.capacity = (q.header.headIdx + 1) % q.header.capacity
  rw [hcap, ← hhead, nextHead_eq h hw]

/-! ## whole runs -/

theorem pop_cases {p p' : FixedSizeQueue T × List T} (ht : both step (listStep capacity) p .pop = some p') :
    ∃ q v l, p = (q, v :: l) ∧ p' = (q.pop, l) := by
  obtain ⟨q, l⟩ := p
  obtain ⟨q', l'⟩ := p'
  obtain ⟨hq, hl⟩ := both_eq_some.mp ht
  obtain ⟨-, hq⟩ := Option.ite_none_left_eq_some.mp hq
  obtain ⟨hne, hl⟩ := Option.ite_none_left_eq_some.mp hl
  cases l with
  | nil => exact absurd rfl hne
  | cons v l =>
    obtain rfl := Option.some.inj hq
    obtain rfl := Option.some.inj hl
    exact ⟨q, v, l, rfl, rfl⟩

theorem Stores.step {p p' : FixedSizeQueue T × List T} (h : Stores capacity p) (hw : capacity < 2^64) (op : Op T)
    (hC : WrapsRight p op) (ht : both step (listStep capacity) p op = some p') : Stores capacity p' := by
  cases op with
  | push item =>
    obtain ⟨hq, hl⟩ := both_eq_some.mp ht
    have hp' : p' = (p.1.push item, Ring.push capacity item p.2) :=
      Prod.ext (Option.some.inj hq).symm (Option.some.inj hl).symm
    exact hp' ▸ h.push hw item
  | pop =>
    obtain ⟨q, v, l, rfl, rfl⟩ := pop_cases ht
    exact h.pop hw hC

/-- **First-in first-out exactly as long as every pop masks the head right.** -/
theorem fifo_iff (capacity : Nat) (items : Nat → QueueItem T) (ops : List (Op T)) (hpos : 0 < capacity)
    (hw : capacity < 2^64) :
    Always (both step (listStep capacity)) (Fifo capacity) (construct capacity items, []) ops
      ↔ Every (both step (listStep capacity)) WrapsRight (construct capacity items, []) ops := by
  refine always_iff_every_of (fun _ h => h.fifo) (fun _ op _ h hC ht => h.step hw op hC ht) ?_ ops
    (construct_stores hpos items)
  intro p op p' h hF ht
  cases op with
  | push item => exact trivial
  | pop =>
    obtain ⟨q, v, l, rfl, rfl⟩ := pop_cases ht
    exact h.wrapsRight hw hF

/-- the head of a queue of three goes to the second slot and not to the third -/
theorem fifo_iff_three :
    Always (both step (listStep 3)) (Fifo 3) (construct 3 fun _ => { value := 0 }, [])
        [.push 1, .push 2, .pop, .push 3, .push 4]
      ↔ Every (both step (listStep 3)) WrapsRight (construct 3 fun _ => { value := 0 }, [])
        [.push 1, .push 2, .pop, .push 3, .push 4] :=
  fifo_iff 3 _ _ (by decide) (by decide)

/-- the first value comes again -/
theorem first_value_again :
    ¬ Always (both step (listStep 2)) (Fifo 2) (construct 2 fun _ => { value := 0 }, [])
      [.push 1, .push 2, .pop] := by
  intro h
  have hfront := (always_head (((h.2 _ rfl).2 _ rfl).2 _ rfl)).front_eq 2 rfl
  exact absurd hfront (by decide)

end FixedSizeQueue
end Shm
end Ipcpp
