import Ipcpp.Lib.Counting
import Ipcpp.Lib.Runs

/-!
# The chunk allocator

The indices of the free chunks are on a stack in shared memory: `head` is an atomic counter, the slots are
plain memory.  `allocate_get_index` loads `head` and throws if it is zero; then `pop_from_stack` decrements
`head` and reads the slot it has uncovered.  `deallocate` goes to `push_to_stack`, which loads `head`, writes
the slot at that position and increments `head`.  There is no lock around any of this (the one in
`deallocate` is released before the push), so each of the steps is one of its own here.

`owned_iff`: every index keeps exactly one place, on the stack, with a call or with a caller, as long as the
steps are `Orderly`, and not longer; `orderly_handsOutOnce`: then no index is handed out twice.  Under the
lock that the comments ask for (`Exclusive`) the steps are orderly.
-/

namespace Ipcpp
namespace ChunkAllocator
open Counting Runs

/-- where a call is -/
inductive Call where
  /-- of `allocate_get_index`: the test was passed, the next step is the `fetch_sub` -/
  | tested
  /-- at the read of this slot -/
  | popping (index : Int)
  /-- of `deallocate(value)`: at the load of `head` -/
  | pushing (value : Nat)
  /-- at the write to this slot -/
  | writing (value : Nat) (slot : Int)
  /-- at the increment of `head` -/
  | written (value : Nat)
  | done
deriving DecidableEq

/-- the index that a call has, when it is neither on the stack nor with a caller -/
def Call.owns (slots : Int → Nat) : Call → Option Nat
  | .popping i => some (slots i)
  | .pushing v => some v
  | .writing v _ => some v
  | .written v => some v
  | .tested => none
  | .done => none

/-- `held`: the indices that were returned and not deallocated since -/
structure State where
  head : Int
  slots : Int → Nat
  calls : List Call
  held : List Nat

/-- `push_to_stack`, if nobody else is there -/
def State.push (s : State) (value : Nat) : State :=
  { s with slots := Function.update s.slots s.head value, head := s.head + 1 }

/-- the constructor, on memory with these values -/
def init (memory : Int → Nat) (capacity : Nat) : State :=
  (List.range capacity).foldl State.push ⟨0, memory, [], []⟩

inductive Action where
  /-- a call of `allocate_get_index`, with its load of `head` -/
  | allocate
  /-- a call of `deallocate(index)` by a holder of `index` -/
  | deallocate (index : Nat)
  /-- the next step of call `k` -/
  | go (k : Nat)

namespace State

section
variable (s : State)

def next (k : Nat) : Call → Option State
  | .tested => some { s with calls := s.calls.set k (.popping (s.head - 1)), head := s.head - 1 }
  | .popping i => some { s with calls := s.calls.set k .done, held := s.slots i :: s.held }
  | .pushing v => some { s with calls := s.calls.set k (.writing v s.head) }
  | .writing v i => some { s with calls := s.calls.set k (.written v), slots := Function.update s.slots i v }
  | .written _ => some { s with calls := s.calls.set k .done, head := s.head + 1 }
  | .done => none

def step : Action → Option State
  | .allocate => some (if s.head = 0 then s else { s with calls := s.calls ++ [.tested] })
  | .deallocate v =>
    if v ∈ s.held then some { s with calls := s.calls ++ [.pushing v], held := s.held.erase v } else none
  | .go k => (s.calls[k]?).bind (s.next k)

/-! ## what is meant to hold -/

/-- `head` is a position of the stack, and no index is handed out twice -/
structure HandsOutOnce (capacity : Nat) : Prop where
  head_nonneg : 0 ≤ s.head
  head_le : s.head ≤ capacity
  below : ∀ i ∈ s.held, i < capacity
  once : s.held.Nodup

/-- `head` is decremented only if it is positive; a slot is written only if it is not on the stack and no call
is about to read it; `head` is incremented only over the value that is pushed -/
def OrderlyStep : Call → Prop
  | .tested => 0 < s.head
  | .writing _ i => s.head ≤ i ∧ ∀ c ∈ s.calls, c ≠ .popping i
  | .written v => s.slots s.head = v
  | _ => True

def Orderly : Action → Prop
  | .go k => ∀ c, s.calls[k]? = some c → s.OrderlyStep c
  | _ => True

/-- no other call is on its way -/
def Exclusive : Action → Prop
  | .go k => ∀ j c, s.calls[j]? = some c → j ≠ k → c = .done
  | _ => ∀ c ∈ s.calls, c = .done

/-! ## every index has one place -/

/-- the indices on the stack -/
def stack : List Nat := (List.range s.head.toNat).map fun i : Nat => s.slots i

/-- the number of places of an index -/
def places (i : Nat) : Nat := s.stack.count i + hits (Call.owns s.slots) s.calls i + s.held.count i

structure Owned (capacity : Nat) : Prop where
  head_nonneg : 0 ≤ s.head
  /-- a slot that was loaded is one of the stack -/
  slot_nonneg : ∀ c ∈ s.calls, ∀ v i, c = .writing v i → 0 ≤ i
  one_place : ∀ i, s.places i = if i < capacity then 1 else 0

end

variable {s t : State} {capacity k : Nat}

theorem Owned.places_le_one (h : s.Owned capacity) (i : Nat) : s.places i ≤ 1 := by
  rw [h.one_place]
  split <;> omega

theorem Owned.lt_of_places (h : s.Owned capacity) {i : Nat} (hi : 0 < s.places i) : i < capacity := by
  rw [h.one_place] at hi
  by_contra hn
  rw [if_neg hn] at hi
  exact Nat.lt_irrefl 0 hi

theorem count_stack_le (s : State) (i : Nat) : s.stack.count i ≤ s.places i := by
  unfold places
  omega

theorem stack_length (s : State) : s.stack.length = s.head.toNat := by
  rw [stack, List.length_map, List.length_range]

theorem Owned.head_le (h : s.Owned capacity) : s.head ≤ capacity := by
  have hnodup : s.stack.Nodup :=
    List.nodup_iff_count_le_one.mpr fun i => (count_stack_le s i).trans (h.places_le_one i)
  have hsub : s.stack ⊆ List.range capacity := fun i hi =>
    List.mem_range.mpr (h.lt_of_places (Nat.lt_of_lt_of_le (List.count_pos_iff.mpr hi) (count_stack_le s i)))
  have hlen := (hnodup.subperm hsub).length_le
  rw [stack_length, List.length_range] at hlen
  omega

theorem Owned.handsOutOnce (h : s.Owned capacity) : s.HandsOutOnce capacity := by
  have hheld : ∀ i, s.held.count i ≤ s.places i := fun i => by
    unfold places
    omega
  exact ⟨h.head_nonneg, h.head_le,
    fun i hi => h.lt_of_places (Nat.lt_of_lt_of_le (List.count_pos_iff.mpr hi) (hheld i)),
    List.nodup_iff_count_le_one.mpr fun i => (hheld i).trans (h.places_le_one i)⟩

theorem mem_stack {i : Nat} : i ∈ s.stack ↔ ∃ j : Int, 0 ≤ j ∧ j < s.head ∧ s.slots j = i := by
  unfold stack
  rw [List.mem_map]
  constructor
  · rintro ⟨j, hj, rfl⟩
    have hlt := List.mem_range.mp hj
    exact ⟨j, by omega, by omega, rfl⟩
  · rintro ⟨j, h0, hlt, rfl⟩
    refine ⟨j.toNat, List.mem_range.mpr (by omega), ?_⟩
    rw [Int.toNat_of_nonneg h0]

theorem stack_top (h0 : 0 ≤ s.head) (hhead : t.head = s.head + 1)
    (hslots : ∀ j, 0 ≤ j → j < s.head → t.slots j = s.slots j) : t.stack = s.stack ++ [t.slots s.head] := by
  obtain ⟨n, hn⟩ := Int.eq_ofNat_of_zero_le h0
  unfold stack
  rw [hhead, hn, show (n + 1 : Int).toNat = n + 1 from rfl, List.range_succ, List.map_append]
  refine congrArg (· ++ _) (List.map_congr_left fun j hj => ?_)
  have hlt := List.mem_range.mp hj
  exact hslots j (by omega) (by omega)

theorem stack_congr (hhead : t.head = s.head) (hslots : ∀ j, 0 ≤ j → j < s.head → t.slots j = s.slots j) :
    t.stack = s.stack := by
  unfold stack
  rw [hhead]
  refine List.map_congr_left fun j hj => ?_
  have hlt := List.mem_range.mp hj
  exact hslots j (by omega) (by omega)

/-- the places of an index after a step of call `k` -/
theorem hits_set_call {c : Call} (hc : s.calls[k]? = some c) (c' : Call) (i : Nat) :
    hits (Call.owns s.slots) (s.calls.set k c') i + hit (c.owns s.slots) i
      = hits (Call.owns s.slots) s.calls i + hit (c'.owns s.slots) i :=
  hits_set (Call.owns s.slots) hc c' i

/-! ## one step -/

theorem slot_nonneg_set (h : s.Owned capacity) {c' : Call} (hc' : ∀ v i, c' = .writing v i → 0 ≤ i) :
    ∀ c ∈ s.calls.set k c', ∀ v i, c = .writing v i → 0 ≤ i := by
  intro c hc
  rcases mem_set_cases hc with rfl | ⟨j, -, hj⟩
  · exact hc'
  · exact h.slot_nonneg c (List.mem_of_getElem? hj)

theorem Owned.allocate (h : s.Owned capacity) : Owned { s with calls := s.calls ++ [.tested] } capacity := by
  refine ⟨h.head_nonneg, fun c hc => ?_, fun i => ?_⟩
  · rcases List.mem_append.mp hc with hc | hc
    · exact h.slot_nonneg c hc
    · intro v i hw
      rw [List.mem_singleton.mp hc] at hw
      cases hw
  · rw [← h.one_place i]
    show s.stack.count i + hits (Call.owns s.slots) (s.calls ++ [.tested]) i + s.held.count i = s.places i
    rw [hits_append, hits_singleton]
    rfl

theorem Owned.deallocate (h : s.Owned capacity) {v : Nat} (hv : v ∈ s.held) :
    Owned { s with calls := s.calls ++ [.pushing v], held := s.held.erase v } capacity := by
  refine ⟨h.head_nonneg, fun c hc => ?_, fun i => ?_⟩
  · rcases List.mem_append.mp hc with hc | hc
    · exact h.slot_nonneg c hc
    · intro w i hw
      rw [List.mem_singleton.mp hc] at hw
      cases hw
  · rw [← h.one_place i]
    show s.stack.count i + hits (Call.owns s.slots) (s.calls ++ [.pushing v]) i + (s.held.erase v).count i = _
    unfold places
    rw [hits_append, hits_singleton, show Call.owns s.slots (.pushing v) = some v from rfl, hit_some]
    by_cases hi : v = i
    · subst hi
      have hpos := List.count_pos_iff.mpr hv
      rw [if_pos rfl, List.count_erase_self]
      omega
    · rw [if_neg hi, List.count_erase_of_ne (Ne.symm hi)]
      omega

/-- **An orderly step of a call** moves an index from one place to another. -/
theorem Owned.next (h : s.Owned capacity) {c : Call} (hc : s.calls[k]? = some c) (hC : s.OrderlyStep c)
    (ht : s.next k c = some t) : t.Owned capacity := by
  have hgo := hits_set_call hc
  cases c with
  | tested =>
    obtain rfl := Option.some.inj ht
    have hpos : 0 < s.head := hC
    refine ⟨show 0 ≤ s.head - 1 by omega, slot_nonneg_set h (by simp), fun i => ?_⟩
    have hstack : s.stack = _ ++ [s.slots (s.head - 1)] :=
      stack_top (s := { s with calls := s.calls.set k (.popping (s.head - 1)), head := s.head - 1 })
        (show 0 ≤ s.head - 1 by omega) (show s.head = s.head - 1 + 1 by omega) (fun _ _ _ => rfl)
    have hi := hgo (.popping (s.head - 1)) i
    rw [← h.one_place i]
    unfold places
    rw [hstack, List.count_append]
    show _ + hits (Call.owns s.slots) (s.calls.set k (.popping (s.head - 1))) i + s.held.count i = _
    have hone : hit (Call.owns s.slots (.popping (s.head - 1))) i = [s.slots (s.head - 1)].count i := by
      rw [show Call.owns s.slots (.popping (s.head - 1)) = some (s.slots (s.head - 1)) from rfl, hit_some]
      simp [List.count_singleton]
    have hzero : hit (Call.owns s.slots .tested) i = 0 := rfl
    omega
  | popping j =>
    obtain rfl := Option.some.inj ht
    refine ⟨h.head_nonneg, slot_nonneg_set h (by simp), fun i => ?_⟩
    have hi := hgo .done i
    rw [← h.one_place i]
    show s.stack.count i + hits (Call.owns s.slots) (s.calls.set k .done) i + (s.slots j :: s.held).count i = _
    unfold places
    have hone : hit (Call.owns s.slots (.popping j)) i + s.held.count i = (s.slots j :: s.held).count i := by
      rw [show Call.owns s.slots (.popping j) = some (s.slots j) from rfl, hit_some, List.count_cons]
      simp [Nat.add_comm]
    have hzero : hit (Call.owns s.slots .done) i = 0 := rfl
    omega
  | pushing v =>
    obtain rfl := Option.some.inj ht
    refine ⟨h.head_nonneg, slot_nonneg_set h ?_, fun i => ?_⟩
    · rintro w i hw
      cases hw
      exact h.head_nonneg
    · have hi := hgo (.writing v s.head) i
      rw [← h.one_place i]
      show s.stack.count i + hits (Call.owns s.slots) (s.calls.set k (.writing v s.head)) i + s.held.count i = _
      unfold places
      have hsame : hit (Call.owns s.slots (.writing v s.head)) i = hit (Call.owns s.slots (.pushing v)) i := rfl
      omega
  | writing v j =>
    obtain rfl := Option.some.inj ht
    obtain ⟨hle, hunread⟩ := hC
    refine ⟨h.head_nonneg, slot_nonneg_set h (by simp), fun i => ?_⟩
    have hi := hgo (.written v) i
    rw [← h.one_place i]
    -- the slot is not one of the stack, and of no call that pops
    have hstack : stack { s with calls := s.calls.set k (.written v), slots := Function.update s.slots j v } = s.stack :=
      stack_congr rfl fun a _ ha => Function.update_of_ne (show a ≠ j by omega) v s.slots
    have howns : ∀ c ∈ s.calls.set k (.written v),
        Call.owns (Function.update s.slots j v) c = Call.owns s.slots c := by
      intro c hmem
      cases c with
      | popping a =>
        rcases mem_set_cases hmem with hpop | ⟨n, -, hn⟩
        · cases hpop
        · have hne : a ≠ j := fun haj => hunread _ (List.mem_of_getElem? hn) (congrArg Call.popping haj)
          exact congrArg some (Function.update_of_ne hne v s.slots)
      | _ => rfl
    have hcalls : hits (Call.owns (Function.update s.slots j v)) (s.calls.set k (.written v)) i
        = hits (Call.owns s.slots) (s.calls.set k (.written v)) i :=
      List.countP_congr fun c hmem => by rw [howns c hmem]
    unfold places
    rw [hstack]
    show _ + hits (Call.owns (Function.update s.slots j v)) (s.calls.set k (.written v)) i + s.held.count i = _
    have hsame : hit (Call.owns s.slots (.writing v j)) i = hit (Call.owns s.slots (.written v)) i := rfl
    omega
  | written v =>
    obtain rfl := Option.some.inj ht
    have hv : s.slots s.head = v := hC
    have h0 := h.head_nonneg
    refine ⟨show 0 ≤ s.head + 1 by omega, slot_nonneg_set h (by simp), fun i => ?_⟩
    have hstack : stack { s with calls := s.calls.set k .done, head := s.head + 1 } = s.stack ++ [s.slots s.head] :=
      stack_top h0 rfl fun _ _ _ => rfl
    have hi := hgo .done i
    rw [← h.one_place i]
    unfold places
    rw [hstack, List.count_append, hv]
    show _ + hits (Call.owns s.slots) (s.calls.set k .done) i + s.held.count i = _
    have hone : hit (Call.owns s.slots (.written v)) i = [v].count i := by
      rw [show Call.owns s.slots (.written v) = some v from rfl, hit_some]
      simp [List.count_singleton]
    have hzero : hit (Call.owns s.slots .done) i = 0 := rfl
    omega
  | done => cases ht

theorem Owned.step (h : s.Owned capacity) {a : Action} (hC : s.Orderly a) (ht : s.step a = some t) :
    t.Owned capacity := by
  cases a with
  | allocate =>
    obtain rfl := Option.some.inj ht
    split
    · exact h
    · exact h.allocate
  | deallocate v =>
    obtain ⟨hv, ht⟩ := Option.ite_none_right_eq_some.mp ht
    exact Option.some.inj ht ▸ h.deallocate hv
  | go k =>
    obtain ⟨c, hc, hn⟩ := Option.bind_eq_some_iff.mp ht
    exact h.next hc (hC c hc) hn

/-- **And a step that is not orderly** leaves an index with two places, or with none. -/
theorem Owned.orderly (h : s.Owned capacity) {a : Action} (hT : t.Owned capacity) (ht : s.step a = some t) :
    s.Orderly a := by
  cases a with
  | go k =>
    intro c hc
    obtain ⟨c', hc', hn⟩ := Option.bind_eq_some_iff.mp ht
    obtain rfl : c = c' := Option.some.inj (hc.symm.trans hc')
    have hk : k < s.calls.length := (List.getElem?_eq_some_iff.mp hc).1
    have hgo := hits_set_call hc
    cases c with
    | tested =>
      obtain rfl := Option.some.inj hn
      have hnonneg : 0 ≤ s.head - 1 := hT.head_nonneg
      show 0 < s.head
      omega
    | writing v j =>
      obtain rfl := Option.some.inj hn
      have hle := hT.places_le_one v
      unfold places at hle
      have hself : (s.calls.set k (.written v))[k]? = some (.written v) := List.getElem?_set_self hk
      refine ⟨Int.not_lt.mp fun hlt => ?_, fun c' hmem hpop => ?_⟩
      · -- the value is on the stack, and the call has it too
        have hj := h.slot_nonneg _ (List.mem_of_getElem? hc) v j rfl
        have hmem : v ∈ stack { s with calls := s.calls.set k (.written v), slots := Function.update s.slots j v } :=
          mem_stack.mpr ⟨j, hj, hlt, Function.update_self j v s.slots⟩
        have hstack := List.count_pos_iff.mpr hmem
        have hcall := hits_pos (Call.owns (Function.update s.slots j v)) (List.mem_of_getElem? hself)
          (show Call.owns (Function.update s.slots j v) (.written v) = some v from rfl)
        have hsum : _ + hits (Call.owns (Function.update s.slots j v)) (s.calls.set k (.written v)) v + _ ≤ 1 := hle
        omega
      · -- the call that pops is going to read the value
        subst hpop
        obtain ⟨n, hn⟩ := List.mem_iff_getElem?.mp hmem
        have hne : n ≠ k := fun hnk => by
          rw [hnk, hc] at hn
          cases hn
        have hpop : (s.calls.set k (.written v))[n]? = some (.popping j) := by
          rw [List.getElem?_set_ne (Ne.symm hne), hn]
        have htwo := two_le_hits (Call.owns (Function.update s.slots j v)) hne hpop hself (i := v)
          (congrArg some (Function.update_self j v s.slots)) rfl
        have hsum : _ + hits (Call.owns (Function.update s.slots j v)) (s.calls.set k (.written v)) v + _ ≤ 1 := hle
        omega
    | written v =>
      obtain rfl := Option.some.inj hn
      have h0 := h.head_nonneg
      have hstack : stack { s with calls := s.calls.set k .done, head := s.head + 1 } = s.stack ++ [s.slots s.head] :=
        stack_top h0 rfl fun _ _ _ => rfl
      have hi := hgo .done (s.slots s.head)
      -- the number of places of what comes on the stack is the same before and after
      have hsame := (hT.one_place (s.slots s.head)).trans (h.one_place (s.slots s.head)).symm
      unfold places at hsame
      rw [hstack, List.count_append, List.count_singleton_self] at hsame
      have hsum : _ + 1 + hits (Call.owns s.slots) (s.calls.set k .done) (s.slots s.head) + s.held.count (s.slots s.head)
        = _ := hsame
      have hzero : hit (Call.owns s.slots .done) (s.slots s.head) = 0 := rfl
      have hhit : hit (Call.owns s.slots (.written v)) (s.slots s.head) = 1 := by omega
      show s.slots s.head = v
      rw [show Call.owns s.slots (.written v) = some v from rfl, hit_some] at hhit
      by_contra hv
      rw [if_neg (Ne.symm hv)] at hhit
      cases hhit
    | popping _ => exact trivial
    | pushing _ => exact trivial
    | done => exact trivial
  | _ => exact trivial

/-! ## under a lock -/

/-- what a call relies on if no other one is on its way -/
def Alone (s : State) : Call → Prop
  | .tested => 0 < s.head
  | .writing _ i => i = s.head
  | .written v => s.slots s.head = v
  | _ => True

structure Serial (s : State) (capacity : Nat) : Prop where
  owned : s.Owned capacity
  alone : ∀ k c, s.calls[k]? = some c → s.Exclusive (.go k) → s.Alone c

theorem Serial.orderly (h : s.Serial capacity) {a : Action} (hC : s.Exclusive a) : s.Orderly a := by
  cases a with
  | go k =>
    intro c hc
    have halone := h.alone k c hc hC
    cases c with
    | writing v i =>
      have hi : i = s.head := halone
      refine ⟨hi ▸ Int.le_refl s.head, fun c' hmem hpop => ?_⟩
      obtain ⟨j, hj⟩ := List.mem_iff_getElem?.mp hmem
      by_cases hjk : j = k
      · rw [hjk, hc] at hj
        exact Call.noConfusion ((Option.some.inj hj).trans hpop)
      · exact Call.noConfusion ((hC j c' hj hjk).symm.trans hpop)
    | tested => exact halone
    | written v => exact halone
    | popping _ => exact trivial
    | pushing _ => exact trivial
    | done => exact trivial
  | _ => exact trivial

theorem alone_append {c : Call} (ht : t.calls = s.calls ++ [c]) (hc : c ≠ .done) (halone : t.Alone c) :
    ∀ k c', t.calls[k]? = some c' → t.Exclusive (.go k) → t.Alone c' := by
  intro k c' hk hother
  have hlast : t.calls[s.calls.length]? = some c := by
    rw [ht, List.getElem?_append_right (Nat.le_refl _), Nat.sub_self]
    rfl
  by_cases hne : s.calls.length = k
  · rw [← hne, hlast] at hk
    exact Option.some.inj hk ▸ halone
  · exact absurd (hother _ c hlast hne) hc

/-- the others are done when a call goes on alone -/
theorem alone_set {c : Call} (hothers : s.Exclusive (.go k)) (ht : t.calls = s.calls.set k c)
    (halone : t.Alone c) : ∀ j c', t.calls[j]? = some c' → t.Exclusive (.go j) → t.Alone c' := by
  intro j c' hj _
  rw [ht, List.getElem?_set] at hj
  split at hj
  · split at hj
    · exact Option.some.inj hj ▸ halone
    · cases hj
  · rename_i hne
    rw [hothers j c' hj (Ne.symm hne)]
    exact trivial

theorem Serial.step (h : s.Serial capacity) {a : Action} (hC : s.Exclusive a) (ht : s.step a = some t) :
    t.Serial capacity := by
  refine ⟨h.owned.step (h.orderly hC) ht, ?_⟩
  cases a with
  | allocate =>
    obtain rfl := Option.some.inj ht
    split
    · exact h.alone
    · rename_i hne
      have h0 := h.owned.head_nonneg
      exact alone_append rfl (by simp) (show 0 < s.head by omega)
  | deallocate v =>
    obtain ⟨-, ht⟩ := Option.ite_none_right_eq_some.mp ht
    obtain rfl := Option.some.inj ht
    exact alone_append rfl (by simp) trivial
  | go k =>
    obtain ⟨c, hc, hn⟩ := Option.bind_eq_some_iff.mp ht
    have halone := h.alone k c hc hC
    cases c with
    | tested =>
      obtain rfl := Option.some.inj hn
      exact alone_set hC rfl trivial
    | popping i =>
      obtain rfl := Option.some.inj hn
      exact alone_set hC rfl trivial
    | pushing v =>
      obtain rfl := Option.some.inj hn
      exact alone_set hC rfl rfl
    | writing v i =>
      obtain rfl := Option.some.inj hn
      have hi : i = s.head := halone
      refine alone_set hC rfl ?_
      show Function.update s.slots i v s.head = v
      rw [hi]
      exact Function.update_self s.head v s.slots
    | written v =>
      obtain rfl := Option.some.inj hn
      exact alone_set hC rfl trivial
    | done => cases hn

/-! ## decidable, so that runs can be tested -/

instance : (s : State) → (c : Call) → Decidable (s.OrderlyStep c)
  | s, .tested => inferInstanceAs (Decidable (0 < s.head))
  | s, .writing _ i => inferInstanceAs (Decidable (s.head ≤ i ∧ ∀ c ∈ s.calls, c ≠ .popping i))
  | s, .written v => inferInstanceAs (Decidable (s.slots s.head = v))
  | _, .popping _ => isTrue trivial
  | _, .pushing _ => isTrue trivial
  | _, .done => isTrue trivial

instance : (s : State) → (a : Action) → Decidable (s.Orderly a)
  | s, .go k => inferInstanceAs (Decidable (∀ c ∈ s.calls[k]?, s.OrderlyStep c))
  | _, .allocate => isTrue trivial
  | _, .deallocate _ => isTrue trivial

end State

/-! ## the constructor -/

section
variable (memory : Int → Nat)

theorem init_succ (n : Nat) : init memory (n + 1) = (init memory n).push n := by
  unfold init
  rw [List.range_succ, List.foldl_append]
  rfl

theorem push_slots_self (s : State) (v : Nat) : (s.push v).slots s.head = v := by
  show Function.update s.slots s.head v s.head = v
  exact Function.update_self s.head v s.slots

theorem push_slots_ne (s : State) (v : Nat) {j : Int} (hj : j ≠ s.head) : (s.push v).slots j = s.slots j := by
  show Function.update s.slots s.head v j = s.slots j
  exact Function.update_of_ne hj v s.slots

theorem init_calls (n : Nat) : (init memory n).calls = [] ∧ (init memory n).held = [] := by
  induction n with
  | zero => exact ⟨rfl, rfl⟩
  | succ n ih =>
    rw [init_succ]
    exact ih

theorem init_head (n : Nat) : (init memory n).head = n := by
  induction n with
  | zero => rfl
  | succ n ih =>
    rw [init_succ]
    show (init memory n).head + 1 = _
    rw [ih, Nat.cast_succ]

theorem init_stack (n : Nat) : (init memory n).stack = List.range n := by
  induction n with
  | zero => rfl
  | succ n ih =>
    have h0 : 0 ≤ (init memory n).head := by
      rw [init_head]
      omega
    have htop := State.stack_top (s := init memory n) (t := (init memory n).push n) h0 rfl
      fun j _ hj => push_slots_ne _ n (by omega)
    rw [init_succ, htop, push_slots_self, ih, List.range_succ]

theorem init_owned (capacity : Nat) : (init memory capacity).Owned capacity := by
  obtain ⟨hcalls, hheld⟩ := init_calls memory capacity
  refine ⟨?_, ?_, fun i => ?_⟩
  · rw [init_head]
    omega
  · rw [hcalls]
    simp
  · unfold State.places
    rw [init_stack, hcalls, hheld, hits_nil, List.count_nil]
    by_cases hi : i < capacity
    · rw [if_pos hi, List.count_eq_one_of_mem List.nodup_range (List.mem_range.mpr hi)]
    · rw [if_neg hi, List.count_eq_zero.mpr fun h => hi (List.mem_range.mp h)]

/-! ## whole runs -/

/-- **Every index keeps exactly one place** as long as all steps are orderly, and not longer. -/
theorem owned_iff (capacity : Nat) (as : List Action) :
    Always State.step (State.Owned · capacity) (init memory capacity) as
      ↔ Every State.step State.Orderly (init memory capacity) as :=
  always_iff_every_of (fun _ h => h) (fun _ _ _ h hC ht => h.step hC ht) (fun _ _ _ h hT ht => h.orderly hT ht)
    as (init_owned memory capacity)

/-- **Each chunk is handed out once**, in every run of orderly steps. -/
theorem orderly_handsOutOnce (capacity : Nat) (as : List Action)
    (h : Every State.step State.Orderly (init memory capacity) as) :
    Always State.step (State.HandsOutOnce · capacity) (init memory capacity) as :=
  Always.mono (fun _ h => h.handsOutOnce) as ((owned_iff memory capacity as).mpr h)

/-- **The lock of the comments is enough**: if no two calls overlap, every step is orderly. -/
theorem orderly_of_exclusive (capacity : Nat) (as : List Action)
    (h : Every State.step State.Exclusive (init memory capacity) as) :
    Every State.step State.Orderly (init memory capacity) as := by
  refine Every.of_inv (I := (State.Serial · capacity)) (fun _ _ _ h hC ht => h.step hC ht)
    (fun _ _ h hC => h.orderly hC) as ⟨init_owned memory capacity, fun k c hk => ?_⟩ h
  rw [(init_calls memory capacity).1] at hk
  cases hk

end

/-- two chunks are taken in turns, one of them comes back and is taken again -/
theorem turns_handOutOnce :
    Always State.step (State.HandsOutOnce · 2) (init (fun _ => 0) 2)
      [.allocate, .allocate, .go 1, .go 0, .go 0, .go 1, .deallocate 1, .go 2, .go 2, .go 2, .allocate, .go 3,
        .go 3] :=
  orderly_handsOutOnce (fun _ => 0) 2 _ (by decide +kernel)

/-- two calls find the last chunk; `head` goes below zero -/
theorem last_chunk_found_twice :
    ¬ Always State.step (State.HandsOutOnce · 1) (init (fun _ => 0) 1) [.allocate, .allocate, .go 0, .go 1] := by
  intro h
  have hlast := ((((h.2 _ rfl).2 _ rfl).2 _ rfl).2 _ rfl).head_nonneg
  exact absurd hlast (by decide)

end ChunkAllocator
end Ipcpp
