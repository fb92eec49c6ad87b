import Ipcpp.Lib.Runs
import Ipcpp.Lib.Ring

/-!
# The queue of fixed size (`ipcpp::FixedSizeQueue`)

A ring of `_capacity` elements that is filled at the tail and emptied at both ends.  The head and the tail are
at the same slot when the queue is empty and when it is full; `_is_full` tells the two apart.  Each function
holds the lock of the queue for its whole body, so the calls of a run come one after the other.

`run_agrees`: whatever is called, the queue answers as the list of the stored values does.
-/

namespace Ipcpp
open Runs

/-- `std::tuple<T, std::atomic_size_t>` -/
structure Element (T : Type) where
  value : T
  counter : Nat

/-- `fetch_add(1)` on the reference counter -/
def Element.count {T : Type} (e : Element T) : Element T := { e with counter := (e.counter + 1) % 2^64 }

namespace FixedSizeQueue

/-- `FixedSizeQueue::Header` -/
structure Header where
  isFull : Bool := false
  headIdx : Nat := 0
  tailIdx : Nat := 0
  capacity : Nat

end FixedSizeQueue

/-- the header of a queue and the slots behind it, whatever they hold -/
structure FixedSizeQueue (T : Type) where
  header : FixedSizeQueue.Header
  items : Nat → Element T

namespace FixedSizeQueue
variable {T : Type}

/-- the constructor that initialises the queue; it leaves the slots as they are -/
def construct (capacity : Nat) (items : Nat → Element T) : FixedSizeQueue T := ⟨{ capacity := capacity }, items⟩

section
variable (q : FixedSizeQueue T)

/-- `push`; the two overloads differ in how the value gets into the element -/
def push (item : T) : FixedSizeQueue T :=
  if q.header.isFull then q
  else
    let tailIdx := (q.header.tailIdx + 1) % 2^64 % q.header.capacity
    { header := { q.header with
        tailIdx := tailIdx, isFull := if tailIdx = q.header.headIdx then true else q.header.isFull },
      items := Function.update q.items q.header.tailIdx ⟨item, 0⟩ }

/-- `pop_front` -/
def popFront : FixedSizeQueue T :=
  { q with header := { q.header with
      headIdx := (q.header.headIdx + 1) % 2^64 % q.header.capacity, isFull := false } }

/-- the index in front of the tail, as `pop_back` and `back` compute it; `_capacity - 1` wraps at zero -/
def beforeTail : Nat :=
  if q.header.tailIdx = 0 then (q.header.capacity + (2^64 - 1)) % 2^64 else q.header.tailIdx - 1

/-- `pop_back` -/
def popBack : FixedSizeQueue T :=
  { q with header := { q.header with tailIdx := q.beforeTail, isFull := false } }

/-- the element at slot `i` is counted and its value returned -/
def access (i : Nat) : T × FixedSizeQueue T :=
  ((q.items i).value, { q with items := Function.update q.items i (q.items i).count })

def front : T × FixedSizeQueue T := q.access q.header.headIdx

def back : T × FixedSizeQueue T := q.access q.beforeTail

def empty : Bool := q.header.headIdx = q.header.tailIdx && !q.header.isFull

def size : Nat :=
  if q.header.tailIdx = q.header.headIdx then
    if q.header.isFull then q.header.capacity else 0
  else if q.header.headIdx ≤ q.header.tailIdx then q.header.tailIdx - q.header.headIdx
  else (q.header.tailIdx + q.header.capacity + (2^64 - q.header.headIdx)) % 2^64

def isFull : Bool := q.header.capacity = q.size

end

inductive Op (T : Type) where
  | push (item : T)
  | popFront
  | popBack
  | front
  | back

/-- a call; the queue is popped and its ends are looked at only when it is not empty -/
def step (q : FixedSizeQueue T) : Op T → Option (FixedSizeQueue T)
  | .push item => some (q.push item)
  | .popFront => if q.empty then none else some q.popFront
  | .popBack => if q.empty then none else some q.popBack
  | .front => if q.empty then none else some q.front.2
  | .back => if q.empty then none else some q.back.2

/-- the same calls on a list of at most `capacity` values -/
def listStep (capacity : Nat) (l : List T) : Op T → Option (List T)
  | .push item => some (Ring.push capacity item l)
  | .popFront => if l.isEmpty then none else some l.tail
  | .popBack => if l.isEmpty then none else some l.dropLast
  | .front => if l.isEmpty then none else some l
  | .back => if l.isEmpty then none else some l

/-- the queue answers as the list does, and every slot that a call uses is one of the queue -/
structure Agrees (capacity : Nat) (q : FixedSizeQueue T) (l : List T) : Prop where
  bounded : l.length ≤ capacity
  size_eq : q.size = l.length
  empty_eq : q.empty = l.isEmpty
  isFull_eq : q.isFull = decide (l.length = capacity)
  front_eq : ∀ v, l.head? = some v → q.front.1 = v
  back_eq : ∀ v, l.getLast? = some v → q.back.1 = v
  slots_lt : q.header.headIdx < capacity ∧ q.header.tailIdx < capacity ∧ q.beforeTail < capacity

/-! ## the list in the ring -/

def values (q : FixedSizeQueue T) (i : Nat) : T := (q.items i).value

theorem values_update (q : FixedSizeQueue T) (header : Header) (i : Nat) (e : Element T) :
    values ⟨header, Function.update q.items i e⟩ = Function.update q.values i e.value :=
  Function.comp_update Element.value q.items i e

/-- the queue stores the list `l` -/
structure Stores (capacity : Nat) (q : FixedSizeQueue T) (l : List T) : Prop where
  capacity_eq : q.header.capacity = capacity
  head_lt : q.header.headIdx < capacity
  length_le : l.length ≤ capacity
  tail_eq : q.header.tailIdx = Ring.slot capacity q.header.headIdx l.length
  full_iff : q.header.isFull = true ↔ l.length = capacity
  window_eq : Ring.window q.values capacity q.header.headIdx l.length = l

variable {capacity : Nat} {q : FixedSizeQueue T} {l : List T}

theorem Stores.tail_lt (h : Stores capacity q l) : q.header.tailIdx < capacity := by
  rw [h.tail_eq]
  exact Ring.slot_lt (Nat.zero_lt_of_lt h.head_lt) _ _

/-- the ends meet when the queue is empty and when it is full -/
theorem Stores.ends_meet (h : Stores capacity q l) :
    q.header.tailIdx = q.header.headIdx ↔ l.length = 0 ∨ l.length = capacity := by
  rw [h.tail_eq]
  exact Ring.slot_eq_self h.head_lt h.length_le

theorem Stores.empty_eq (h : Stores capacity q l) : q.empty = l.isEmpty := by
  have hpos := Nat.zero_lt_of_lt h.head_lt
  have hmeet := h.ends_meet
  have hfull := h.full_iff
  rw [Bool.eq_iff_iff, List.isEmpty_iff_length_eq_zero, empty, Bool.and_eq_true, decide_eq_true_eq,
    Bool.not_eq_true', Bool.eq_false_iff, ne_eq, hfull, eq_comm, hmeet]
  omega

theorem Stores.size_eq (h : Stores capacity q l) (hw : capacity < 2^64) : q.size = l.length := by
  have hmeet := h.ends_meet
  have hhead := h.head_lt
  have hlen := h.length_le
  unfold size
  rw [h.capacity_eq]
  by_cases heq : q.header.tailIdx = q.header.headIdx
  · rw [if_pos heq]
    by_cases hf : q.header.isFull = true
    · rw [if_pos hf, h.full_iff.mp hf]
    · have hne := mt h.full_iff.mpr hf
      rw [if_neg hf]
      exact ((hmeet.mp heq).resolve_right hne).symm
  · rw [if_neg heq]
    by_cases hle : q.header.headIdx ≤ q.header.tailIdx
    · have hlt : q.header.headIdx < Ring.slot capacity q.header.headIdx l.length :=
        h.tail_eq ▸ Nat.lt_of_le_of_ne hle (Ne.symm heq)
      rw [if_pos hle, h.tail_eq]
      exact Ring.length_of_gt hhead hlen hlt
    · have hlt : Ring.slot capacity q.header.headIdx l.length < q.header.headIdx := h.tail_eq ▸ Nat.lt_of_not_le hle
      have hdist := Ring.length_of_lt hhead hlen hlt
      rw [if_neg hle, h.tail_eq]
      omega

theorem Stores.isFull_eq (h : Stores capacity q l) (hw : capacity < 2^64) :
    q.isFull = decide (l.length = capacity) := by
  rw [isFull, h.capacity_eq, h.size_eq hw]
  exact decide_eq_decide.mpr eq_comm

theorem beforeTail_eq (hcap : q.header.capacity = capacity) (hpos : 0 < capacity) (hw : capacity < 2^64) :
    q.beforeTail = if q.header.tailIdx = 0 then capacity - 1 else q.header.tailIdx - 1 := by
  unfold beforeTail
  rw [hcap]
  split
  · omega
  · rfl

theorem Stores.beforeTail_lt (h : Stores capacity q l) (hw : capacity < 2^64) : q.beforeTail < capacity := by
  have htail := h.tail_lt
  rw [beforeTail_eq h.capacity_eq (Nat.zero_lt_of_lt htail) hw]
  split <;> omega

theorem Stores.beforeTail_last (h : Stores capacity q l) (hw : capacity < 2^64) (hl : l ≠ []) :
    q.beforeTail = Ring.slot capacity q.header.headIdx (l.length - 1) := by
  have hpos := List.length_pos_iff.mpr hl
  have hlen := h.length_le
  rw [beforeTail_eq h.capacity_eq (Nat.zero_lt_of_lt h.head_lt) hw, h.tail_eq,
    Ring.slot_pred h.head_lt (show l.length - 1 < capacity by omega), Nat.sub_add_cancel hpos]

/-- **A queue that stores the list answers as the list does.** -/
theorem Stores.agrees (h : Stores capacity q l) (hw : capacity < 2^64) : Agrees capacity q l where
  bounded := h.length_le
  size_eq := h.size_eq hw
  empty_eq := h.empty_eq
  isFull_eq := h.isFull_eq hw
  front_eq _ hv := Ring.eq_head h.head_lt h.window_eq hv
  back_eq v hv := by
    have hl : l ≠ [] := fun hl => by
      rw [hl] at hv
      cases hv
    have hlast := Ring.eq_last h.window_eq hv
    rw [← h.beforeTail_last hw hl] at hlast
    exact hlast
  slots_lt := ⟨h.head_lt, h.tail_lt, h.beforeTail_lt hw⟩

/-! ## the calls -/

theorem construct_stores (hpos : 0 < capacity) (items : Nat → Element T) :
    Stores capacity (construct capacity items) [] where
  capacity_eq := rfl
  head_lt := hpos
  length_le := Nat.zero_le _
  tail_eq := (Ring.slot_zero hpos).symm
  full_iff := iff_of_false Bool.false_ne_true hpos.ne
  window_eq := rfl

theorem next_index {i : Nat} (hi : i < capacity) (hw : capacity < 2^64) :
    (i + 1) % 2^64 % capacity = (i + 1) % capacity := by
  rw [Nat.mod_eq_of_lt (show i + 1 < 2^64 by omega)]

theorem Stores.push (h : Stores capacity q l) (hw : capacity < 2^64) (item : T) :
    Stores capacity (q.push item) (Ring.push capacity item l) := by
  unfold FixedSizeQueue.push
  by_cases hf : q.header.isFull = true
  · rw [if_pos hf, Ring.push_of_eq (h.full_iff.mp hf)]
    exact h
  · have hlt : l.length < capacity := Nat.lt_of_le_of_ne h.length_le (mt h.full_iff.mpr hf)
    have hnext : (q.header.tailIdx + 1) % 2^64 % q.header.capacity
        = Ring.slot capacity q.header.headIdx (l.length + 1) := by
      rw [h.capacity_eq, next_index h.tail_lt hw, h.tail_eq, Ring.slot_succ]
    rw [if_neg hf, Ring.push_of_lt hlt, hnext]
    refine ⟨h.capacity_eq, h.head_lt, ?_, ?_, ?_, ?_⟩
    · rw [List.length_append, List.length_singleton]
      exact hlt
    · rw [List.length_append, List.length_singleton]
    · show (if Ring.slot capacity q.header.headIdx (l.length + 1) = q.header.headIdx then true
        else q.header.isFull) = true ↔ (l ++ [item]).length = capacity
      rw [List.length_append, List.length_singleton]
      have hmeet : Ring.slot capacity q.header.headIdx (l.length + 1) = q.header.headIdx
          ↔ l.length + 1 = capacity := by
        rw [Ring.slot_eq_self h.head_lt hlt]
        omega
      split
      · exact iff_of_true rfl (hmeet.mp ‹_›)
      · exact iff_of_false hf (mt hmeet.mpr ‹_›)
    · show Ring.window (values ⟨_, Function.update q.items q.header.tailIdx ⟨item, 0⟩⟩) _ _ _ = _
      rw [values_update, h.tail_eq]
      exact Ring.window_push h.head_lt hlt h.window_eq item

/-- a queue from which a value was removed is not full -/
theorem not_full_of_lt {q' : FixedSizeQueue T} {l' : List T} (hf : q'.header.isFull = false)
    (hlt : l'.length < capacity) :
    q'.header.isFull = true ↔ l'.length = capacity :=
  iff_of_false (by rw [hf]; exact Bool.false_ne_true) hlt.ne

theorem Stores.popFront {v : T} (h : Stores capacity q (v :: l)) (hw : capacity < 2^64) :
    Stores capacity q.popFront l := by
  have hlen : l.length + 1 ≤ capacity := h.length_le
  have hnext : q.popFront.header.headIdx = (q.header.headIdx + 1) % capacity := by
    show (q.header.headIdx + 1) % 2^64 % q.header.capacity = _
    rw [h.capacity_eq, next_index h.head_lt hw]
  refine ⟨h.capacity_eq, ?_, by omega, ?_, not_full_of_lt rfl hlen, ?_⟩
  · rw [hnext]
    exact Nat.mod_lt _ (Nat.zero_lt_of_lt hlen)
  · rw [hnext, Ring.slot_behind]
    exact h.tail_eq
  · rw [hnext]
    exact Ring.window_tail h.head_lt h.window_eq

theorem Stores.popBack {v : T} (h : Stores capacity q (l ++ [v])) (hw : capacity < 2^64) :
    Stores capacity q.popBack l := by
  have hlen := h.length_le
  have hlast := h.beforeTail_last hw (List.append_ne_nil_of_right_ne_nil l (List.cons_ne_nil v []))
  rw [List.length_append, List.length_singleton] at hlen hlast
  exact ⟨h.capacity_eq, h.head_lt, by omega, hlast, not_full_of_lt rfl hlen, Ring.window_dropLast h.window_eq⟩

theorem Stores.access (h : Stores capacity q l) (i : Nat) : Stores capacity (q.access i).2 l := by
  refine ⟨h.capacity_eq, h.head_lt, h.length_le, h.tail_eq, h.full_iff, ?_⟩
  have hvalues : (q.access i).2.values = q.values :=
    (values_update q q.header i _).trans (Function.update_eq_self i q.values)
  rw [hvalues]
  exact h.window_eq

/-- **One call** -/
theorem Stores.step (h : Stores capacity q l) (hw : capacity < 2^64) (op : Op T) :
    Option.Rel (Stores capacity) (q.step op) (listStep capacity l op) := by
  cases op with
  | push item => exact .some (h.push hw item)
  | popFront =>
    refine rel_guard h.empty_eq fun hl => ?_
    obtain ⟨v, l', rfl⟩ := List.exists_cons_of_ne_nil (List.isEmpty_eq_false_iff.mp hl)
    exact h.popFront hw
  | popBack =>
    refine rel_guard h.empty_eq fun hl => ?_
    have hsplit := List.dropLast_concat_getLast (List.isEmpty_eq_false_iff.mp hl)
    exact Stores.popBack (by rwa [hsplit]) hw
  | front => exact rel_guard h.empty_eq fun _ => h.access _
  | back => exact rel_guard h.empty_eq fun _ => h.access _

/-- **Whatever is called, the queue answers as the list of its values does**, and the two allow the same calls. -/
theorem run_agrees (capacity : Nat) (items : Nat → Element T) (ops : List (Op T)) (hpos : 0 < capacity)
    (hw : capacity < 2^64) :
    Option.Rel (Agrees capacity) (run step (construct capacity items) ops) (run (listStep capacity) [] ops) := by
  have hrun := run_rel (fun _ _ op h => Stores.step h hw op) ops (construct_stores hpos items)
  cases hq : run step (construct capacity items) ops <;> cases hl : run (listStep capacity) [] ops <;>
    rw [hq, hl] at hrun
  · exact .none
  · cases hrun
  · cases hrun
  · cases hrun with
    | some h => exact .some (h.agrees hw)

/-- three values in a ring of two: the third is dropped, and both ends are taken -/
theorem run_agrees_two : Option.Rel (Agrees 2)
    (run step (construct 2 fun _ => ⟨0, 0⟩)
      [.push 1, .push 2, .push 3, .popFront, .push 4, .back, .popBack, .front])
    (run (listStep 2) [] [.push 1, .push 2, .push 3, .popFront, .push 4, .back, .popBack, .front]) :=
  run_agrees 2 (fun _ => ⟨0, 0⟩) _ (by decide) (by decide)

end FixedSizeQueue
end Ipcpp
