import Ipcpp.Stl.FixedSizeQueue

/-!
# The stack of fixed size (`ipcpp::FixedSizeStack`)

`_head_idx` is the number of elements and the slot of the next one.  `push` refuses when `_head_idx` is above
`_capacity`, where it should refuse from `_capacity` on: one element more than there are slots is constructed,
behind the last slot.  `agrees_iff`: the stack is one of at most `_capacity` values as long as it is not
pushed when it is full, and not longer.
-/

namespace Ipcpp
open Runs

namespace FixedSizeStack

/-- `FixedSizeStack::Header`; the policy that it also keeps is never read -/
structure Header where
  headIdx : Nat := 0
  capacity : Nat

end FixedSizeStack

structure FixedSizeStack (T : Type) where
  header : FixedSizeStack.Header
  items : Nat → Element T

namespace FixedSizeStack
variable {T : Type}

/-- the constructor that initialises the stack; it leaves the slots as they are -/
def construct (capacity : Nat) (items : Nat → Element T) : FixedSizeStack T := ⟨{ capacity := capacity }, items⟩

section
variable (s : FixedSizeStack T)

/-- the slot that `push` constructs an element in -/
def pushSlot : Option Nat := if s.header.capacity < s.header.headIdx then none else some s.header.headIdx

/-- `push`; the two overloads differ in how the value gets into the element -/
def push (item : T) : FixedSizeStack T :=
  match s.pushSlot with
  | none => s
  | some i =>
    { header := { s.header with headIdx := (s.header.headIdx + 1) % 2^64 },
      items := Function.update s.items i ⟨item, 0⟩ }

def pop : FixedSizeStack T :=
  if s.header.headIdx = 0 then s else { s with header := { s.header with headIdx := s.header.headIdx - 1 } }

/-- the index `_head_idx - 1`, which wraps at zero -/
def frontIdx : Nat := (s.header.headIdx + (2^64 - 1)) % 2^64

def front : T × FixedSizeStack T :=
  ((s.items s.frontIdx).value, { s with items := Function.update s.items s.frontIdx (s.items s.frontIdx).count })

def empty : Bool := s.header.headIdx = 0

def size : Nat := if s.header.capacity < s.header.headIdx then s.header.capacity else s.header.headIdx

end

inductive Op (T : Type) where
  | push (item : T)
  | pop
  | front

/-- a stack and the slots that were constructed so far -/
structure Traced (T : Type) where
  stack : FixedSizeStack T
  written : List Nat

/-- a call; the front is looked at only when the stack is not empty -/
def step (s : Traced T) : Op T → Option (Traced T)
  | .push item => some ⟨s.stack.push item, s.stack.pushSlot.toList ++ s.written⟩
  | .pop => some { s with stack := s.stack.pop }
  | .front => if s.stack.empty then none else some { s with stack := s.stack.front.2 }

/-- the same calls on a list of at most `capacity` values, the newest first -/
def listStep (capacity : Nat) (l : List T) : Op T → Option (List T)
  | .push item => some (if l.length < capacity then item :: l else l)
  | .pop => some l.tail
  | .front => if l.isEmpty then none else some l

/-- the stack answers as the list does, and every slot that was written is one of the stack -/
structure Agrees (capacity : Nat) (p : Traced T × List T) : Prop where
  bounded : p.2.length ≤ capacity
  size_eq : p.1.stack.size = p.2.length
  empty_eq : p.1.stack.empty = p.2.isEmpty
  front_eq : ∀ v, p.2.head? = some v → p.1.stack.front.1 = v
  written_lt : ∀ i ∈ p.1.written, i < capacity

/-- the stack is not pushed when it is full -/
def PushesWithRoom (p : Traced T × List T) : Op T → Prop
  | .push _ => p.1.stack.size < p.1.stack.header.capacity
  | _ => True

instance (p : Traced T × List T) : (op : Op T) → Decidable (PushesWithRoom p op)
  | .push _ => inferInstanceAs (Decidable (_ < _))
  | .pop => isTrue trivial
  | .front => isTrue trivial

/-! ## the list in the slots -/

def values (s : FixedSizeStack T) (i : Nat) : T := (s.items i).value

theorem values_update (s : FixedSizeStack T) (header : Header) (i : Nat) (e : Element T) :
    values ⟨header, Function.update s.items i e⟩ = Function.update s.values i e.value :=
  Function.comp_update Element.value s.items i e

structure Stores (capacity : Nat) (s : FixedSizeStack T) (l : List T) : Prop where
  capacity_eq : s.header.capacity = capacity
  head_eq : s.header.headIdx = l.length
  length_le : l.length ≤ capacity
  values_eq : (List.range l.length).map s.values = l.reverse

variable {capacity : Nat} {s : FixedSizeStack T} {l : List T}

theorem Stores.size_eq (h : Stores capacity s l) : s.size = l.length := by
  rw [size, h.capacity_eq, h.head_eq, if_neg h.length_le.not_gt]

theorem Stores.empty_eq (h : Stores capacity s l) : s.empty = l.isEmpty := by
  rw [Bool.eq_iff_iff, List.isEmpty_iff_length_eq_zero, ← h.head_eq]
  exact decide_eq_true_iff

theorem Stores.values_cons {v : T} (h : Stores capacity s (v :: l)) :
    (List.range l.length).map s.values = l.reverse ∧ s.values l.length = v := by
  have hval := h.values_eq
  rw [List.length_cons, List.range_succ, List.map_append, List.reverse_cons] at hval
  obtain ⟨hrest, hlast⟩ := List.append_inj' hval rfl
  exact ⟨hrest, (List.cons.inj hlast).1⟩

theorem Stores.front_eq (h : Stores capacity s l) (hw : capacity < 2^64) {v : T} (hv : l.head? = some v) :
    s.front.1 = v := by
  cases l with
  | nil => cases hv
  | cons a l =>
    obtain rfl := Option.some.inj hv
    have hlen : l.length + 1 ≤ capacity := h.length_le
    have hindex : s.frontIdx = l.length := by
      rw [frontIdx, h.head_eq, List.length_cons]
      omega
    show s.values s.frontIdx = a
    rw [hindex]
    exact h.values_cons.2

theorem Stores.pushSlot_eq (h : Stores capacity s l) : s.pushSlot = some l.length := by
  rw [pushSlot, h.capacity_eq, h.head_eq, if_neg h.length_le.not_gt]

/-! ## the calls -/

theorem construct_stores (capacity : Nat) (items : Nat → Element T) :
    Stores capacity (construct capacity items) [] where
  capacity_eq := rfl
  head_eq := rfl
  length_le := Nat.zero_le _
  values_eq := rfl

theorem Stores.push (h : Stores capacity s l) (hw : capacity < 2^64) (hlt : l.length < capacity) (item : T) :
    Stores capacity (s.push item) (item :: l) := by
  unfold FixedSizeStack.push
  rw [h.pushSlot_eq]
  refine ⟨h.capacity_eq, ?_, hlt, ?_⟩
  · show (s.header.headIdx + 1) % 2^64 = l.length + 1
    rw [h.head_eq]
    exact Nat.mod_eq_of_lt (by omega)
  · rw [List.length_cons, List.range_succ, List.map_append, List.reverse_cons, ← h.values_eq]
    show (List.range l.length).map (values ⟨_, Function.update s.items l.length ⟨item, 0⟩⟩) ++ _ = _
    rw [values_update]
    refine congrArg₂ _ (List.map_congr_left fun i hi => ?_) (congrArg (· :: []) (Function.update_self _ _ _))
    exact Function.update_of_ne (List.mem_range.mp hi).ne _ _

theorem Stores.pop (h : Stores capacity s l) : Stores capacity s.pop l.tail := by
  unfold FixedSizeStack.pop
  cases l with
  | nil =>
    have hhead : s.header.headIdx = 0 := h.head_eq
    rw [if_pos hhead]
    exact h
  | cons v l =>
    have hhead : s.header.headIdx = l.length + 1 := h.head_eq
    have hle : l.length + 1 ≤ capacity := h.length_le
    rw [if_neg (by omega)]
    refine ⟨h.capacity_eq, ?_, Nat.le_of_succ_le hle, h.values_cons.1⟩
    show s.header.headIdx - 1 = l.length
    omega

theorem Stores.front (h : Stores capacity s l) : Stores capacity s.front.2 l := by
  refine ⟨h.capacity_eq, h.head_eq, h.length_le, ?_⟩
  have hvalues : s.front.2.values = s.values :=
    (values_update s s.header _ _).trans (Function.update_eq_self _ s.values)
  rw [hvalues]
  exact h.values_eq

/-! ## whole runs -/

/-- the list is in the slots, and no other slot was written -/
structure Kept (capacity : Nat) (p : Traced T × List T) : Prop where
  stores : Stores capacity p.1.stack p.2
  written_lt : ∀ i ∈ p.1.written, i < capacity

theorem Kept.agrees {p : Traced T × List T} (h : Kept capacity p) (hw : capacity < 2^64) : Agrees capacity p where
  bounded := h.stores.length_le
  size_eq := h.stores.size_eq
  empty_eq := h.stores.empty_eq
  front_eq _ hv := h.stores.front_eq hw hv
  written_lt := h.written_lt

theorem Kept.room_iff {p : Traced T × List T} (h : Kept capacity p) (item : T) :
    PushesWithRoom p (.push item) ↔ p.2.length < capacity := by
  show p.1.stack.size < p.1.stack.header.capacity ↔ _
  rw [h.stores.size_eq, h.stores.capacity_eq]

/-- **A call with room keeps the list.** -/
theorem Kept.step {p p' : Traced T × List T} (h : Kept capacity p) (hw : capacity < 2^64) (op : Op T)
    (hC : PushesWithRoom p op) (ht : both step (listStep capacity) p op = some p') : Kept capacity p' := by
  obtain ⟨s, l⟩ := p
  obtain ⟨s', l'⟩ := p'
  obtain ⟨hs, hl⟩ := both_eq_some.mp ht
  cases op with
  | push item =>
    have hlt : l.length < capacity := (h.room_iff item).mp hC
    obtain rfl := Option.some.inj hs
    obtain rfl : item :: l = l' := (if_pos hlt).symm.trans (Option.some.inj hl)
    refine ⟨h.stores.push hw hlt item, fun i hi => ?_⟩
    have hi : i ∈ s.stack.pushSlot.toList ++ s.written := hi
    rw [show s.stack.pushSlot = some l.length from h.stores.pushSlot_eq] at hi
    rcases List.mem_cons.mp hi with rfl | hi
    · exact hlt
    · exact h.written_lt i hi
  | pop =>
    obtain rfl := Option.some.inj hs
    obtain rfl := Option.some.inj hl
    exact ⟨h.stores.pop, h.written_lt⟩
  | front =>
    obtain rfl := Option.some.inj (Option.ite_none_left_eq_some.mp hs).2
    obtain rfl := Option.some.inj (Option.ite_none_left_eq_some.mp hl).2
    exact ⟨h.stores.front, h.written_lt⟩

/-- **A push without room writes the slot behind the last one.** -/
theorem Kept.room_of_agrees {p p' : Traced T × List T} (h : Kept capacity p) (op : Op T) (hA : Agrees capacity p')
    (ht : both FixedSizeStack.step (listStep capacity) p op = some p') : PushesWithRoom p op := by
  cases op with
  | push item =>
    obtain ⟨s, l⟩ := p
    obtain ⟨s', l'⟩ := p'
    obtain rfl := Option.some.inj (both_eq_some.mp ht).1
    refine (h.room_iff item).mpr (hA.written_lt l.length ?_)
    show l.length ∈ s.stack.pushSlot.toList ++ s.written
    rw [show s.stack.pushSlot = some l.length from h.stores.pushSlot_eq]
    exact List.mem_cons_self
  | _ => exact trivial

/-- **A bounded stack exactly as long as it is not pushed when it is full** -/
theorem agrees_iff (capacity : Nat) (items : Nat → Element T) (ops : List (Op T)) (hw : capacity < 2^64) :
    Always (both step (listStep capacity)) (Agrees capacity) (⟨construct capacity items, []⟩, []) ops
      ↔ Every (both step (listStep capacity)) PushesWithRoom (⟨construct capacity items, []⟩, []) ops := by
  have hstart : Kept capacity ((⟨construct capacity items, []⟩ : Traced T), ([] : List T)) :=
    ⟨construct_stores capacity items, fun _ hi => absurd hi List.not_mem_nil⟩
  exact always_iff_every_of (fun _ h => h.agrees hw) (fun _ op _ h hC ht => h.step hw op hC ht)
    (fun _ op _ h hA ht => h.room_of_agrees op hA ht) ops hstart

theorem agrees_iff_two :
    Always (both step (listStep 2)) (Agrees 2) (⟨construct 2 fun _ => ⟨0, 0⟩, []⟩, [])
        [.pop, .push 1, .push 2, .front, .pop]
      ↔ Every (both step (listStep 2)) PushesWithRoom (⟨construct 2 fun _ => ⟨0, 0⟩, []⟩, [])
        [.pop, .push 1, .push 2, .front, .pop] :=
  agrees_iff 2 _ _ (by decide)

/-- the second push on a stack of one writes slot `1` -/
theorem pushed_when_full :
    ¬ Always (both step (listStep 1)) (Agrees 1) (⟨construct 1 fun _ => ⟨0, 0⟩, []⟩, []) [.push 7, .push 8] := by
  intro h
  have hlt := (always_head ((h.2 _ rfl).2 _ rfl)).written_lt 1 (by decide)
  exact absurd hlt (by decide)

end FixedSizeStack
end Ipcpp
