import Ipcpp.Shm.ChunkAllocator
import Ipcpp.Shm.ChunkLayout

/-!
# The list in shared memory (`shm::List`)

The nodes are chunks of a `ChunkAllocator`, and indices stand for pointers.  Each end has an index of its own
in the header, and a node is linked in one direction only: one that was pushed at the front to the front
before it, one that was pushed at the back to the back before it.  So there are two stacks, and nothing
between them; 0, the index that both ends start with and that the first node of each stack is linked to, is a
node like any other.

A pop takes the top of the stack of its end.  If that stack is empty while the list is not, this is node 0,
whatever it is.  `refines_iff`: the list is a double-ended one as long as the element a pop should return was
pushed at the same end or is in node 0, and not longer.

No two calls overlap, so the steps of a call of the allocator come one after the other (`run_allocate`,
`run_deallocate`).
-/

namespace Ipcpp
namespace ChunkAllocator
open Runs

/-- `allocate_get_index`, if nobody else is there; it throws if no chunk is free -/
def State.pop (s : State) : Option (Nat × State) :=
  if s.head = 0 then none else some (s.slots (s.head - 1), { s with head := s.head - 1 })

/-- the steps of `allocate_get_index` -/
theorem run_allocate (s : State) {i : Nat} {t : State} (h : s.pop = some (i, t)) :
    run State.step s [.allocate, .go s.calls.length, .go s.calls.length]
      = some { t with calls := s.calls ++ [.done], held := i :: s.held } := by
  obtain ⟨hhead, h⟩ := Option.ite_none_left_eq_some.mp h
  obtain ⟨rfl, rfl⟩ := Prod.mk.inj (Option.some.inj h)
  simp [run, State.step, State.next, hhead]

theorem run_deallocate (s : State) {i : Nat} (h : i ∈ s.held) :
    run State.step s [.deallocate i, .go s.calls.length, .go s.calls.length, .go s.calls.length]
      = some { s.push i with calls := s.calls ++ [.done], held := s.held.erase i } := by
  simp [run, State.step, State.next, State.push, h]

theorem pop_stack {s t : State} {i : Nat} (h0 : 0 ≤ s.head) (h : s.pop = some (i, t)) :
    0 ≤ t.head ∧ s.stack = t.stack ++ [i] := by
  obtain ⟨hhead, h⟩ := Option.ite_none_left_eq_some.mp h
  obtain ⟨rfl, rfl⟩ := Prod.mk.inj (Option.some.inj h)
  have h1 : 0 ≤ s.head - 1 := by omega
  exact ⟨h1, State.stack_top (s := { s with head := s.head - 1 }) h1 (Int.sub_add_cancel s.head 1).symm
    fun _ _ _ => rfl⟩

theorem push_stack {s : State} (h0 : 0 ≤ s.head) (i : Nat) : (s.push i).stack = s.stack ++ [i] := by
  have htop := State.stack_top (s := s) (t := s.push i) h0 rfl fun j _ hj => push_slots_ne s i (by omega)
  rwa [push_slots_self] at htop

end ChunkAllocator

namespace ShmList

inductive End where
  | front
  | back
deriving DecidableEq

def End.other : End → End
  | .front => .back
  | .back => .front

/-- `List::ListNode` -/
structure ListNode (T : Type) where
  value : T
  indexNext : Nat
  indexPrev : Nat

/-- the link that the pops of an end follow -/
def ListNode.link {T : Type} (n : ListNode T) : End → Nat
  | .front => n.indexPrev
  | .back => n.indexNext

/-- the node that is pushed at an end, before the one with index `link` -/
def ListNode.pushed {T : Type} (e : End) (value : T) (link : Nat) : ListNode T :=
  match e with
  | .front => { value := value, indexNext := 0, indexPrev := link }
  | .back => { value := value, indexNext := link, indexPrev := 0 }

/-- `List::Header` -/
structure Header where
  headerIndex : Nat := 0
  tailIndex : Nat := 0

def Header.index (h : Header) : End → Nat
  | .front => h.headerIndex
  | .back => h.tailIndex

def Header.setIndex (h : Header) (i : Nat) : End → Header
  | .front => { h with headerIndex := i }
  | .back => { h with tailIndex := i }

end ShmList

open ShmList

/-- `shm::List`: the header, the allocator and the nodes, in use or not -/
structure ShmList (T : Type) where
  header : Header
  allocator : ChunkAllocator.State
  nodes : Nat → ListNode T

namespace ShmList
variable {T : Type}

/-- `List(addr, size)`, on memory with room for `capacity` nodes -/
def construct (memory : Int → Nat) (capacity : Nat) (nodes : Nat → ListNode T) : ShmList T :=
  ⟨{}, ChunkAllocator.init memory capacity, nodes⟩

section
variable (s : ShmList T)

/-- a push at an end, and the node it takes -/
def push (e : End) (value : T) : Option (Nat × ShmList T) :=
  s.allocator.pop.map fun p =>
    (p.1, ⟨s.header.setIndex p.1 e, p.2, Function.update s.nodes p.1 (.pushed e value (s.header.index e))⟩)

/-- a pop at an end.  What a move leaves in the node is not said; it is left as it was. -/
def pop (e : End) : T × ShmList T :=
  let node := s.nodes (s.header.index e)
  (node.value, ⟨s.header.setIndex (node.link e) e, s.allocator.push (s.header.index e), s.nodes⟩)

def pushFront (value : T) : Option (Nat × ShmList T) := s.push .front value

def pushBack (value : T) : Option (Nat × ShmList T) := s.push .back value

def popFront : T × ShmList T := s.pop .front

def popBack : T × ShmList T := s.pop .back

end

/-- `required_size(num_nodes)`, for a header of `hs` bytes and nodes of `sz` bytes -/
def requiredSize (hs sz numNodes : Nat) : Nat :=
  (ChunkAllocator.alignUp hs + ChunkAllocator.requiredMemorySize sz numNodes) % 2^64

/-! ## next to a deque -/

/-- an element of the deque: the value, and in which node it was put at which end -/
structure Cell (T : Type) where
  value : T
  node : Nat
  pushedAt : End

/-- the list as it is seen from an end -/
def seen {α : Type} : End → List α → List α
  | .front, l => l
  | .back, l => l.reverse

inductive Op (T : Type) where
  | pushFront (value : T)
  | pushBack (value : T)
  | popFront
  | popBack

/-- a list, the deque next to it, and what the pops of the two returned -/
structure Session (T : Type) where
  list : ShmList T
  deque : List (Cell T)
  returned : List (T × T)

namespace Session

section
variable (s : Session T)

def push (e : End) (value : T) (r : Option (Nat × ShmList T)) : Option (Session T) :=
  r.map fun p => { s with list := p.2, deque := seen e (⟨value, p.1, e⟩ :: seen e s.deque) }

def pop (e : End) (r : T × ShmList T) : Option (Session T) :=
  match seen e s.deque with
  | [] => none
  | c :: l => some ⟨r.2, seen e l, (r.1, c.value) :: s.returned⟩

/-- a push while a node is free, or a pop of a list that is not empty -/
def step : Op T → Option (Session T)
  | .pushFront value => s.push .front value (s.list.pushFront value)
  | .pushBack value => s.push .back value (s.list.pushBack value)
  | .popFront => s.pop .front s.list.popFront
  | .popBack => s.pop .back s.list.popBack

def nodes : List Nat := s.deque.map Cell.node

/-- every pop returned what the deque did, and every node is either free or in the list -/
structure Refines (capacity : Nat) : Prop where
  returned_eq : ∀ r ∈ s.returned, r.1 = r.2
  one_place : ∀ i, s.list.allocator.stack.count i + s.nodes.count i = if i < capacity then 1 else 0

/-- the element that a pop at this end should return was pushed there, or is in node 0 -/
def PopsOwn (e : End) : Prop := ∀ c, (seen e s.deque).head? = some c → c.pushedAt = e ∨ c.node = 0

def OwnEnd : Op T → Prop
  | .popFront => s.PopsOwn .front
  | .popBack => s.PopsOwn .back
  | _ => True

end

end Session

/-! ## the ends -/

@[simp] theorem other_other (e : End) : e.other.other = e := by cases e <;> rfl

theorem other_ne (e : End) : e.other ≠ e := by cases e <;> decide

theorem eq_or_other (e e' : End) : e' = e ∨ e' = e.other := by cases e <;> cases e' <;> decide

@[simp] theorem seen_seen {α : Type} (e : End) (l : List α) : seen e (seen e l) = l := by
  cases e with
  | front => rfl
  | back => exact List.reverse_reverse l

theorem mem_seen {α : Type} {e : End} {l : List α} {a : α} : a ∈ seen e l ↔ a ∈ l := by
  cases e with
  | front => exact Iff.rfl
  | back => exact List.mem_reverse

theorem seen_perm {α : Type} (e : End) (l : List α) : (seen e l).Perm l := by
  cases e with
  | front => exact .refl l
  | back => exact List.reverse_perm l

@[simp] theorem index_setIndex (h : Header) (i : Nat) (e : End) : (h.setIndex i e).index e = i := by cases e <;> rfl

@[simp] theorem index_setIndex_other (h : Header) (i : Nat) (e : End) :
    (h.setIndex i e).index e.other = h.index e.other := by cases e <;> rfl

@[simp] theorem pushed_value (e : End) (v : T) (i : Nat) : (ListNode.pushed e v i).value = v := by cases e <;> rfl

@[simp] theorem pushed_link (e : End) (v : T) (i : Nat) : (ListNode.pushed e v i).link e = i := by cases e <;> rfl

@[simp] theorem pushed_link_other (e : End) (v : T) (i : Nat) : (ListNode.pushed e v i).link e.other = 0 := by
  cases e <;> rfl

/-! ## two stacks -/

/-- the elements that were pushed at an end are linked from the index `i` of this end to 0 -/
def Chain (nodes : Nat → ListNode T) (e : End) : Nat → List (Cell T) → Prop
  | i, [] => i = 0
  | i, c :: l => c.node = i ∧ c.pushedAt = e ∧ (nodes i).value = c.value ∧ (nodes i).link e.other = 0
    ∧ Chain nodes e ((nodes i).link e) l

section
variable {nodes : Nat → ListNode T} {e : End} {l : List (Cell T)}

theorem Chain.mem {i : Nat} (h : Chain nodes e i l) {c : Cell T} (hc : c ∈ l) :
    c.pushedAt = e ∧ (nodes c.node).value = c.value ∧ (nodes c.node).link e.other = 0 := by
  induction l generalizing i with
  | nil => cases hc
  | cons d l ih =>
    obtain ⟨hnode, hend, hvalue, hlink, hrest⟩ := h
    rcases List.mem_cons.mp hc with rfl | hc
    · rw [hnode]
      exact ⟨hend, hvalue, hlink⟩
    · exact ih hrest hc

theorem Chain.update {i j : Nat} (h : Chain nodes e i l) (hj : ∀ c ∈ l, c.node ≠ j) (n : ListNode T) :
    Chain (Function.update nodes j n) e i l := by
  induction l generalizing i with
  | nil => exact h
  | cons c l ih =>
    obtain ⟨hnode, hend, hvalue, hlink, hrest⟩ := h
    have hsame : Function.update nodes j n i = nodes i :=
      Function.update_of_ne (hnode ▸ hj c List.mem_cons_self) _ _
    refine ⟨hnode, hend, ?_, ?_, ?_⟩
    · rw [hsame]
      exact hvalue
    · rw [hsame]
      exact hlink
    · rw [hsame]
      exact ih hrest fun d hd => hj d (List.mem_cons_of_mem _ hd)

/-- node 0 at the far end of a stack may be taken away: what was linked to it is linked to 0 -/
theorem Chain.of_append {i : Nat} {c : Cell T} (h : Chain nodes e i (l ++ [c])) (hc : c.node = 0) :
    Chain nodes e i l := by
  induction l generalizing i with
  | nil => exact h.1.symm.trans hc
  | cons d l ih =>
    obtain ⟨hnode, hend, hvalue, hlink, hrest⟩ := h
    exact ⟨hnode, hend, hvalue, hlink, ih hrest⟩

end

/-- the deque is the stack of one end and, the other way round, that of the other -/
def Split (d : List (Cell T)) (K : End → List (Cell T)) : Prop := ∀ e, seen e d = K e ++ (K e.other).reverse

/-- it may be seen from either end -/
theorem Split.of_end {d : List (Cell T)} {K : End → List (Cell T)} (e : End)
    (h : seen e d = K e ++ (K e.other).reverse) : Split d K := by
  intro e'
  rcases eq_or_other e e' with rfl | rfl
  · exact h
  · rw [other_other]
    have hrev : seen e.other d = (seen e d).reverse := by
      cases e with
      | front => rfl
      | back => exact (List.reverse_reverse d).symm
    rw [hrev, h, List.reverse_append, List.reverse_reverse]

namespace Session

structure Inv (capacity : Nat) (s : Session T) : Prop where
  head_nonneg : 0 ≤ s.list.allocator.head
  refines : s.Refines capacity
  linked : ∃ K, Split s.deque K ∧ ∀ e, Chain s.list.nodes e (s.list.header.index e) (K e)

variable {capacity : Nat} {s t : Session T}

theorem Inv.count_le_one (h : s.Inv capacity) (i : Nat) :
    s.list.allocator.stack.count i + s.nodes.count i ≤ 1 := by
  rw [h.refines.one_place]
  split <;> omega

theorem count_nodes (e : End) (l : List (Cell T)) (i : Nat) :
    ((seen e l).map Cell.node).count i = (l.map Cell.node).count i :=
  ((seen_perm e l).map Cell.node).count_eq i

/-- **A push** takes a free node on top of the stack of its end. -/
theorem Inv.push (h : s.Inv capacity) (e : End) (value : T) (ht : s.push e value (s.list.push e value) = some t) :
    t.Inv capacity := by
  obtain ⟨p, hp, rfl⟩ := Option.map_eq_some_iff.mp ht
  obtain ⟨⟨i, a⟩, ha, rfl⟩ := Option.map_eq_some_iff.mp hp
  obtain ⟨h0, hstack⟩ := ChunkAllocator.pop_stack h.head_nonneg ha
  obtain ⟨K, hsplit, hchain⟩ := h.linked
  have hfree : ∀ j, s.list.allocator.stack.count j = a.stack.count j + [i].count j := fun j => by
    rw [hstack, List.count_append]
  -- the node is in no element
  have hfresh : ∀ c ∈ s.deque, c.node ≠ i := fun c hc hi => by
    have hpos : 0 < s.nodes.count i := List.count_pos_iff.mpr (List.mem_map.mpr ⟨c, hc, hi⟩)
    have hone := h.count_le_one i
    have hi := hfree i
    rw [List.count_singleton_self] at hi
    omega
  have hother : ∀ e', ∀ c ∈ K e', c.node ≠ i := fun e' c hc =>
    hfresh c (mem_seen.mp ((hsplit e').symm ▸ List.mem_append_left _ hc))
  refine ⟨h0, ⟨h.refines.returned_eq, fun j => ?_⟩, Function.update K e (⟨value, i, e⟩ :: K e),
    Split.of_end e ?_, fun e' => ?_⟩
  · rw [← h.refines.one_place j, hfree j]
    show a.stack.count j + ((seen e (⟨value, i, e⟩ :: seen e s.deque)).map Cell.node).count j = _
    rw [count_nodes, List.map_cons, List.count_cons, count_nodes, List.count_singleton]
    exact (Nat.add_left_comm _ _ _).trans (Nat.add_comm _ _)
  · rw [Function.update_self, Function.update_of_ne (other_ne e), seen_seen, hsplit e]
    rfl
  · rcases eq_or_other e e' with rfl | rfl
    · rw [Function.update_self]
      show Chain (Function.update s.list.nodes i _) e' ((s.list.header.setIndex i e').index e') _
      rw [index_setIndex]
      refine ⟨rfl, rfl, ?_, ?_, ?_⟩ <;> rw [Function.update_self]
      · exact pushed_value _ _ _
      · exact pushed_link_other _ _ _
      · rw [pushed_link]
        exact (hchain e').update (hother e') _
    · rw [Function.update_of_ne (other_ne e)]
      show Chain (Function.update s.list.nodes i _) e.other ((s.list.header.setIndex i e).index e.other) _
      rw [index_setIndex_other]
      exact (hchain e.other).update (hother e.other) _

theorem pop_cases {e : End} (h0 : 0 ≤ s.list.allocator.head) (ht : s.pop e (s.list.pop e) = some t) :
    ∃ c l, seen e s.deque = c :: l ∧ t.deque = seen e l
      ∧ t.returned = ((s.list.nodes (s.list.header.index e)).value, c.value) :: s.returned
      ∧ t.list = (s.list.pop e).2 ∧ 0 ≤ t.list.allocator.head
      ∧ (∀ i, t.list.allocator.stack.count i
        = s.list.allocator.stack.count i + if s.list.header.index e = i then 1 else 0)
      ∧ ∀ i, s.nodes.count i = t.nodes.count i + if c.node = i then 1 else 0 := by
  unfold Session.pop at ht
  split at ht
  · cases ht
  · rename_i c l hd
    obtain rfl := Option.some.inj ht
    refine ⟨c, l, hd, rfl, rfl, rfl, Int.le_add_one h0, fun i => ?_, fun i => ?_⟩
    · show (s.list.allocator.push (s.list.header.index e)).stack.count i = _
      rw [ChunkAllocator.push_stack h0, List.count_append, List.count_singleton]
      simp
    · show (s.deque.map Cell.node).count i = ((seen e l).map Cell.node).count i + _
      rw [← count_nodes e, hd, count_nodes, List.map_cons, List.count_cons]
      simp

/-- **A pop of the element it should return** keeps every node in one place. -/
theorem Inv.pop (h : s.Inv capacity) (e : End) (hC : s.PopsOwn e) (ht : s.pop e (s.list.pop e) = some t) :
    t.Inv capacity := by
  obtain ⟨c, l, hd, hdeque, hreturned, hlist, h0, hstack, hnodes⟩ := pop_cases h.head_nonneg ht
  obtain ⟨K, hsplit, hchain⟩ := h.linked
  have hown : c.pushedAt = e ∨ c.node = 0 := hC c (by rw [hd]; rfl)
  have hseen : seen e t.deque = l := by rw [hdeque, seen_seen]
  have hsee := hsplit e
  rw [hd] at hsee
  -- the element is the one at the index of this end
  have hcell : s.list.header.index e = c.node ∧ (s.list.nodes (s.list.header.index e)).value = c.value
      ∧ ∃ K', Split t.deque K' ∧ ∀ e', Chain t.list.nodes e' (t.list.header.index e') (K' e') := by
    rw [hlist]
    show _ ∧ _ ∧ ∃ K', Split t.deque K' ∧ ∀ e', Chain s.list.nodes e'
      ((s.list.header.setIndex ((s.list.nodes (s.list.header.index e)).link e) e).index e') (K' e')
    cases hK : K e with
    | cons c' k =>
      rw [hK, List.cons_append] at hsee
      obtain ⟨rfl, rfl⟩ := List.cons.inj hsee
      have htop := hchain e
      rw [hK] at htop
      obtain ⟨hnode, -, hvalue, -, hrest⟩ := htop
      refine ⟨hnode.symm, hvalue, Function.update K e k, Split.of_end e ?_, fun e' => ?_⟩
      · rw [Function.update_self, Function.update_of_ne (other_ne e), hseen]
      · rcases eq_or_other e e' with rfl | rfl
        · rw [Function.update_self, index_setIndex]
          exact hrest
        · rw [Function.update_of_ne (other_ne e), index_setIndex_other]
          exact hchain e.other
    | nil =>
      -- the element was pushed at the other end, so it is in node 0, where the index of an empty stack is
      rw [hK] at hsee
      have hother : K e.other = l.reverse ++ [c] := by
        rw [← List.reverse_cons, hsee, List.nil_append, List.reverse_reverse]
      have hindex : s.list.header.index e = 0 := by
        have hempty := hchain e
        rw [hK] at hempty
        exact hempty
      have hbottom := hchain e.other
      rw [hother] at hbottom
      obtain ⟨hend, hvalue, hlink⟩ := hbottom.mem (List.mem_append_right _ (List.mem_singleton.mpr rfl))
      have hzero : c.node = 0 := hown.resolve_left (hend ▸ other_ne e)
      rw [hzero] at hvalue hlink
      rw [other_other] at hlink
      rw [hindex, hlink]
      refine ⟨hzero.symm, hvalue, Function.update K e.other l.reverse, Split.of_end e ?_, fun e' => ?_⟩
      · rw [Function.update_self, Function.update_of_ne (other_ne e).symm, hK, hseen, List.reverse_reverse]
        rfl
      · rcases eq_or_other e e' with rfl | rfl
        · rw [Function.update_of_ne (other_ne e').symm, index_setIndex, hK]
          exact rfl
        · rw [Function.update_self, index_setIndex_other]
          exact hbottom.of_append hzero
  obtain ⟨hindex, hvalue, hlinked⟩ := hcell
  refine ⟨h0, ⟨?_, fun i => ?_⟩, hlinked⟩
  · rw [hreturned]
    intro r hr
    rcases List.mem_cons.mp hr with rfl | hr
    · exact hvalue
    · exact h.refines.returned_eq r hr
  · have hone := h.refines.one_place i
    rw [hnodes i] at hone
    rw [hstack i, hindex]
    omega

/-- **And a pop of another one** frees node 0 while it is free or in the list. -/
theorem Inv.own (h : s.Inv capacity) (e : End) (hR : t.Refines capacity) (ht : s.pop e (s.list.pop e) = some t) :
    s.PopsOwn e := by
  obtain ⟨c, l, hd, -, -, -, -, hstack, hnodes⟩ := pop_cases h.head_nonneg ht
  obtain ⟨K, hsplit, hchain⟩ := h.linked
  intro c' hc'
  obtain rfl : c = c' := by
    rw [hd] at hc'
    exact Option.some.inj hc'
  cases hK : K e with
  | cons d k =>
    have hsee := hsplit e
    rw [hd, hK] at hsee
    obtain rfl : c = d := (List.cons.inj hsee).1
    exact .inl ((hchain e).mem (hK ▸ List.mem_cons_self)).1
  | nil =>
    have hindex : s.list.header.index e = 0 := by
      have hempty := hchain e
      rw [hK] at hempty
      exact hempty
    refine .inr ?_
    by_contra hne
    have hbefore := h.refines.one_place 0
    have hafter := hR.one_place 0
    rw [hnodes 0, if_neg hne] at hbefore
    rw [hstack 0, if_pos hindex] at hafter
    omega

/-! ## whole runs -/

theorem Inv.step (h : s.Inv capacity) (op : Op T) (hC : s.OwnEnd op) (ht : s.step op = some t) :
    t.Inv capacity := by
  cases op with
  | pushFront value => exact h.push .front value ht
  | pushBack value => exact h.push .back value ht
  | popFront => exact h.pop .front hC ht
  | popBack => exact h.pop .back hC ht

theorem Inv.ownEnd (h : s.Inv capacity) (op : Op T) (hR : t.Refines capacity) (ht : s.step op = some t) :
    s.OwnEnd op := by
  cases op with
  | pushFront value => exact trivial
  | pushBack value => exact trivial
  | popFront => exact h.own .front hR ht
  | popBack => exact h.own .back hR ht

/-- a new list, next to an empty deque -/
def start (memory : Int → Nat) (capacity : Nat) (nodes : Nat → ListNode T) : Session T :=
  ⟨construct memory capacity nodes, [], []⟩

theorem start_inv (memory : Int → Nat) (capacity : Nat) (nodes : Nat → ListNode T) :
    (start memory capacity nodes).Inv capacity := by
  refine ⟨?_, ⟨fun r hr => absurd hr List.not_mem_nil, fun i => ?_⟩, fun _ => [], fun e => ?_, fun e => ?_⟩
  · show 0 ≤ (ChunkAllocator.init memory capacity).head
    rw [ChunkAllocator.init_head]
    exact Int.natCast_nonneg capacity
  · show (ChunkAllocator.init memory capacity).stack.count i + [].count i = _
    rw [ChunkAllocator.init_stack, List.count_nil, Nat.add_zero]
    by_cases hi : i < capacity
    · rw [if_pos hi, List.count_eq_one_of_mem List.nodup_range (List.mem_range.mpr hi)]
    · rw [if_neg hi, List.count_eq_zero.mpr fun h => hi (List.mem_range.mp h)]
  · cases e <;> rfl
  · cases e <;> rfl

/-- **The list is a deque exactly as long as every pop finds an element of its own end, or node 0.** -/
theorem refines_iff (memory : Int → Nat) (capacity : Nat) (nodes : Nat → ListNode T) (ops : List (Op T)) :
    Runs.Always Session.step (Refines · capacity) (start memory capacity nodes) ops
      ↔ Runs.Every Session.step OwnEnd (start memory capacity nodes) ops :=
  Runs.always_iff_every_of (fun _ h => h.refines) (fun _ op _ h hC ht => h.step op hC ht)
    (fun _ op _ h hR ht => h.ownEnd op hR ht) ops (start_inv memory capacity nodes)

/-- one element, pushed at the back and popped at the front: node 0 is returned, and is free twice -/
theorem popped_at_other_end :
    ¬ Runs.Always Session.step (Refines · 2) (start (fun _ => 0) 2 fun _ => ⟨0, 0, 0⟩)
      [.pushBack 7, .popFront] := by
  intro h
  have hR := Runs.always_head ((h.2 _ rfl).2 _ rfl)
  exact absurd (hR.returned_eq (0, 7) (by decide)) (by decide)

end Session

end ShmList
end Ipcpp
