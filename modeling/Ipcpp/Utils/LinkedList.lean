import Ipcpp.Lib.Chunks

/-!
# Nodes of a doubly linked list

`utils::linked_list::Node<T>`: an element and two pointers.  Nodes stand on the heap; a pointer to a node is
an address, the null pointer is `null`, and a new node gets an address that no node has had before.  A
function that follows a pointer to no node, or to one that was deleted, is stuck (`none`).

`Chain h l`: the nodes of the list `l` stand in the heap `h` and are linked to each other in this order.
`insert_run`, `pop_run` and `Chain.delete` say what becomes of the list.
-/

namespace Ipcpp
namespace LinkedList
open Chunks

/-- `nullptr` -/
def null : Int := -1

structure Node (T : Type) where
  element : T
  prev : Int
  next : Int

/-- the nodes by their address; `fresh` is where the next one goes -/
structure Nodes (T : Type) where
  node : Int → Option (Node T)
  fresh : Nat

namespace Nodes

section
variable {T : Type} (h : Nodes T)

def empty : Nodes T := ⟨fun _ => none, 0⟩

def put (a : Int) (n : Node T) : Nodes T := { h with node := Function.update h.node a (some n) }

def modify (a : Int) (f : Node T → Node T) : Option (Nodes T) := (h.node a).map fun n => h.put a (f n)

/-- `new Node(element)` -/
def new (element : T) : Nodes T × Int :=
  ({ h.put h.fresh ⟨element, null, null⟩ with fresh := h.fresh + 1 }, h.fresh)

def delete (a : Int) : Nodes T := { h with node := Function.update h.node a none }

/-- `Node::insert`: a new node behind `this` -/
def insert (this : Int) (element : T) : Option (Nodes T × Int) := do
  let (h, new) := h.new element
  let h ← h.modify new fun n => { n with prev := this }
  let t ← h.node this
  let h ← (if t.next ≠ null then do
      let h ← h.modify t.next fun n => { n with prev := new }
      h.modify new fun n => { n with next := t.next }
    else some h)
  let h ← h.modify this fun n => { n with next := new }
  some (h, new)

/-- `Node::pop`: the neighbours of `this` are linked to each other -/
def pop (this : Int) : Option (Nodes T) := do
  let t ← h.node this
  let h ← (if t.prev ≠ null then h.modify t.prev fun n => { n with next := t.next } else some h)
  let t ← h.node this
  if t.next ≠ null then h.modify t.next fun n => { n with prev := t.prev } else some h

@[simp] theorem put_fresh (a : Int) (n : Node T) : (h.put a n).fresh = h.fresh := rfl

@[simp] theorem put_node_self (a : Int) (n : Node T) : (h.put a n).node a = some n := by
  show Function.update h.node a (some n) a = some n
  exact Function.update_self a (some n) h.node

theorem put_node {a b : Int} (n : Node T) (hb : b ≠ a) : (h.put a n).node b = h.node b := by
  show Function.update h.node a (some n) b = h.node b
  exact Function.update_of_ne hb (some n) h.node

theorem delete_node {a b : Int} (hb : b ≠ a) : (h.delete a).node b = h.node b := by
  show Function.update h.node a none b = h.node b
  exact Function.update_of_ne hb none h.node

variable {h} in
theorem modify_run {a : Int} {n : Node T} (hn : h.node a = some n) (f : Node T → Node T) :
    h.modify a f = some (h.put a (f n)) := by
  unfold modify
  rw [hn]
  rfl

end

end Nodes

/-! ## lists in the heap -/

section
variable {T γ : Type} (addr : γ → Int) (elem : γ → T)

/-- the node of `c` stands in `h`, between `p` and `n` -/
def Holds (h : Nodes T) (c : γ) (p n : Int) : Prop := h.node (addr c) = some ⟨elem c, p, n⟩

/-- the nodes of `l` stand in `h` in this order, between `p` and `n` -/
def Linked (h : Nodes T) (p : Int) (l : List γ) (n : Int) : Prop := Seg addr (Holds addr elem h) p l n

structure Chain (h : Nodes T) (l : List γ) : Prop where
  linked : Linked addr elem h null l null
  nodup : (l.map addr).Nodup
  nonneg : ∀ c ∈ l, 0 ≤ addr c
  lt : ∀ c ∈ l, addr c < h.fresh

variable {addr elem} {h h' : Nodes T} {L R : List γ} {x y : γ}

theorem Linked.mono {p n : Int} {l : List γ} (hl : Linked addr elem h p l n)
    (hh : ∀ c ∈ l, h'.node (addr c) = h.node (addr c)) : Linked addr elem h' p l n :=
  Seg.mono hl fun c hc _ _ hn => (hh c hc).trans hn

theorem ne_null_of_nonneg {a : Int} (ha : 0 ≤ a) : a ≠ null := by
  unfold null
  omega

theorem Chain.ne_null (hc : Chain addr elem h L) (hx : x ∈ L) : addr x ≠ null :=
  ne_null_of_nonneg (hc.nonneg x hx)

theorem Chain.addr_ne (hc : Chain addr elem h (L ++ x :: R)) :
    (∀ c ∈ L, addr c ≠ addr x) ∧ (∀ c ∈ R, addr c ≠ addr x) ∧ ∀ c ∈ L, ∀ d ∈ R, addr c ≠ addr d := by
  have hnd := hc.nodup
  rw [List.map_append, List.map_cons, List.nodup_append] at hnd
  obtain ⟨-, hxR, hLR⟩ := hnd
  refine ⟨fun c hcL => hLR _ (List.mem_map_of_mem hcL) _ List.mem_cons_self, fun c hcR he => ?_,
    fun c hcL d hdR => hLR _ (List.mem_map_of_mem hcL) _ (List.mem_cons_of_mem _ (List.mem_map_of_mem hdR))⟩
  exact (List.nodup_cons.mp hxR).1 (he ▸ List.mem_map_of_mem hcR)

theorem Chain.cut (hc : Chain addr elem h (L ++ x :: R)) :
    Linked addr elem h null L (addr x) ∧ h.node (addr x) = some ⟨elem x, last addr null L, first addr null R⟩ ∧
      Linked addr elem h (addr x) R null :=
  seg_append.mp hc.linked

theorem Chain.nodup_right (hc : Chain addr elem h (L ++ x :: R)) : (R.map addr).Nodup := by
  have hnd := hc.nodup
  rw [List.map_append, List.map_cons] at hnd
  exact (List.nodup_cons.mp (List.nodup_append.mp hnd).2.1).2

/-- the heap with the previous link of the first node of `R` set to `p` -/
def relink (addr : γ → Int) (elem : γ → T) (h : Nodes T) (p : Int) : List γ → Nodes T
  | [] => h
  | d :: R => h.put (addr d) ⟨elem d, p, first addr null R⟩

theorem relink_node {p a : Int} (ha : ∀ c ∈ R, addr c ≠ a) : (relink addr elem h p R).node a = h.node a := by
  cases R with
  | nil => rfl
  | cons d R => exact h.put_node _ (ha d List.mem_cons_self).symm

theorem relink_fresh (p : Int) : (relink addr elem h p R).fresh = h.fresh := by
  cases R <;> rfl

theorem relink_linked {q : Int} (p : Int) (hl : Linked addr elem h q R null) (hnd : (R.map addr).Nodup) :
    Linked addr elem (relink addr elem h p R) p R null := by
  cases R with
  | nil => trivial
  | cons d R =>
    refine ⟨h.put_node_self _ _, Linked.mono hl.2 fun c hc => h.put_node _ fun he => ?_⟩
    exact (List.nodup_cons.mp hnd).1 (he ▸ List.mem_map_of_mem hc)

/-- assigning the previous link of the node behind, if there is one -/
theorem modify_first {q : Int} (p : Int) (hl : Linked addr elem h q R null) (hnonneg : ∀ c ∈ R, 0 ≤ addr c) :
    (if first addr null R ≠ null then h.modify (first addr null R) fun n => { n with prev := p } else some h)
      = some (relink addr elem h p R) := by
  cases R with
  | nil => rfl
  | cons d R =>
    have hne : first addr null (d :: R) ≠ null := ne_null_of_nonneg (hnonneg d List.mem_cons_self)
    rw [if_pos hne]
    exact Nodes.modify_run hl.1 _

/-- the two assignments of `insert` to the new node `f` and the one behind it, if there is one -/
theorem link_new {q f : Int} {e : T} (hl : Linked addr elem h q R null) (hnonneg : ∀ c ∈ R, 0 ≤ addr c)
    (hf : h.node f = some ⟨e, q, null⟩) (hRf : ∀ c ∈ R, addr c ≠ f) :
    ∃ h', (if first addr null R ≠ null then do
        let h ← h.modify (first addr null R) fun n => { n with prev := f }
        h.modify f fun n => { n with next := first addr null R }
      else some h) = some h' ∧
      h'.node f = some ⟨e, q, first addr null R⟩ ∧ h'.fresh = h.fresh ∧
      ∀ a, a ≠ f → h'.node a = (relink addr elem h f R).node a := by
  cases R with
  | nil => exact ⟨h, rfl, hf, rfl, fun _ _ => rfl⟩
  | cons d R =>
    have hne : first addr null (d :: R) ≠ null := ne_null_of_nonneg (hnonneg d List.mem_cons_self)
    have hdf : addr d ≠ f := hRf d List.mem_cons_self
    have hf' : (h.put (addr d) ⟨elem d, f, first addr null R⟩).node f = some ⟨e, q, null⟩ :=
      (Nodes.put_node _ _ hdf.symm).trans hf
    rw [if_pos hne]
    refine ⟨(h.put (addr d) ⟨elem d, f, first addr null R⟩).put f ⟨e, q, addr d⟩, ?_, Nodes.put_node_self _ _ _,
      rfl, fun a ha => Nodes.put_node _ _ ha⟩
    refine (Option.bind_eq_some_iff.mpr ⟨_, Nodes.modify_run hl.1 _, ?_⟩)
    exact Nodes.modify_run hf' _

/-- **`insert`** puts a new node behind `x`. -/
theorem insert_run (hc : Chain addr elem h (L ++ x :: R)) (hy : addr y = h.fresh) :
    ∃ h', h.insert (addr x) (elem y) = some (h', (h.fresh : Int)) ∧ h'.fresh = h.fresh + 1 ∧
      Chain addr elem h' (L ++ x :: y :: R) := by
  obtain ⟨hL, hx, hR⟩ := hc.cut
  obtain ⟨hLx, hRx, hLR⟩ := hc.addr_ne
  have hmem : ∀ c, c ∈ L ∨ c = x ∨ c ∈ R → c ∈ L ++ x :: R := fun c h => by simpa using h
  have hlt : ∀ c, c ∈ L ∨ c = x ∨ c ∈ R → addr c ≠ h.fresh := fun c hc' => Int.ne_of_lt (hc.lt c (hmem c hc'))
  have hxf : addr x ≠ h.fresh := hlt x (.inr (.inl rfl))
  have hRf : ∀ c ∈ R, addr c ≠ h.fresh := fun c hcR => hlt c (.inr (.inr hcR))
  have hnonneg : ∀ c ∈ R, 0 ≤ addr c := fun c hcR => hc.nonneg c (hmem c (.inr (.inr hcR)))
  -- the new node, with its link back
  let h1 : Nodes T := (h.new (elem y)).1
  let h2 := h1.put h.fresh ⟨elem y, addr x, null⟩
  have h1f : h1.node h.fresh = some ⟨elem y, null, null⟩ := Nodes.put_node_self h _ _
  have hkeep : ∀ a, a ≠ (h.fresh : Int) → h2.node a = h.node a := fun a ha =>
    (Nodes.put_node h1 _ ha).trans (Nodes.put_node h _ ha)
  have hR2 : Linked addr elem h2 (addr x) R null := hR.mono fun c hcR => hkeep _ (hRf c hcR)
  obtain ⟨h3, hmid, hnew, hfresh, hrest⟩ :=
    link_new (f := h.fresh) hR2 hnonneg (Nodes.put_node_self h1 _ _) hRf
  have hx3 : h3.node (addr x) = some ⟨elem x, last addr null L, first addr null R⟩ := by
    rw [hrest _ hxf, relink_node hRx, hkeep _ hxf, hx]
  have hrun : h.insert (addr x) (elem y)
      = some (h3.put (addr x) ⟨elem x, last addr null L, h.fresh⟩, (h.fresh : Int)) := by
    refine Option.bind_eq_some_iff.mpr ⟨h2, Nodes.modify_run h1f _, ?_⟩
    refine Option.bind_eq_some_iff.mpr ⟨_, (hkeep _ hxf).trans hx, ?_⟩
    refine Option.bind_eq_some_iff.mpr ⟨h3, hmid, ?_⟩
    exact Option.bind_eq_some_iff.mpr ⟨_, Nodes.modify_run hx3 _, rfl⟩
  have hfresh4 : (h3.put (addr x) ⟨elem x, last addr null L, h.fresh⟩).fresh = h.fresh + 1 := hfresh
  refine ⟨_, hrun, hfresh4, seg_append.mpr ⟨?_, ?_, ?_, ?_⟩, ?_, ?_, ?_⟩
  · refine hL.mono fun c hcL => ?_
    rw [Nodes.put_node _ _ (hLx c hcL), hrest _ (hlt c (.inl hcL)),
      relink_node fun d hd => (hLR c hcL d hd).symm, hkeep _ (hlt c (.inl hcL))]
  · show Nodes.node _ (addr x) = some ⟨elem x, last addr null L, addr y⟩
    rw [hy]
    exact Nodes.put_node_self _ _ _
  · show Nodes.node _ (addr y) = some ⟨elem y, addr x, first addr null R⟩
    rw [hy, Nodes.put_node _ _ hxf.symm]
    exact hnew
  · rw [hy]
    refine Linked.mono (relink_linked _ hR2 hc.nodup_right) fun c hcR => ?_
    rw [Nodes.put_node _ _ (hRx c hcR), hrest _ (hRf c hcR)]
  · have hnd := hc.nodup
    have hperm : ((L ++ x :: y :: R).map addr).Perm (addr y :: (L ++ x :: R).map addr) := by
      rw [List.map_append, List.map_append]
      exact (List.Perm.append_left _ (List.Perm.swap _ _ _)).trans List.perm_middle
    refine hperm.nodup_iff.mpr (List.nodup_cons.mpr ⟨fun hin => ?_, hnd⟩)
    obtain ⟨c, hcm, he⟩ := List.mem_map.mp hin
    exact hlt c (by simpa using hcm) (he.trans hy)
  · intro c hcm
    rcases (show c = y ∨ (c ∈ L ∨ c = x ∨ c ∈ R) by simp at hcm; tauto) with rfl | hcm
    · rw [hy]
      exact Int.natCast_nonneg _
    · exact hc.nonneg c (hmem c hcm)
  · intro c hcm
    rw [hfresh4]
    rcases (show c = y ∨ (c ∈ L ∨ c = x ∨ c ∈ R) by simp at hcm; tauto) with rfl | hcm
    · omega
    · have := hc.lt c (hmem c hcm)
      omega

/-- **`pop`** of a node that has one in front of it takes it out of the list; the node itself stays on the
heap as it was. -/
theorem pop_run (hc : Chain addr elem h (L ++ x :: y :: R)) :
    ∃ h', h.pop (addr y) = some h' ∧ h'.fresh = h.fresh ∧ h'.node (addr y) = h.node (addr y) ∧
      Chain addr elem h' (L ++ x :: R) := by
  obtain ⟨hL, hx, hyR⟩ := hc.cut
  obtain ⟨hLx, hRx, hLR⟩ := hc.addr_ne
  have hcy : Chain addr elem h ((L ++ [x]) ++ y :: R) := by
    rw [List.append_assoc]
    exact hc
  obtain ⟨-, hRy, -⟩ := hcy.addr_ne
  have hxy : addr x ≠ addr y := (hRx y List.mem_cons_self).symm
  have hmem : ∀ c, c ∈ L ∨ c = x ∨ c ∈ R → c ∈ L ++ x :: y :: R := fun c h => by
    simp only [List.mem_append, List.mem_cons]
    tauto
  have hy : h.node (addr y) = some ⟨elem y, addr x, first addr null R⟩ := hyR.1
  have hxnull : addr x ≠ null := hc.ne_null (hmem x (.inr (.inl rfl)))
  let h1 := h.put (addr x) ⟨elem x, last addr null L, first addr null R⟩
  have hR1 : Linked addr elem h1 (addr y) R null :=
    Linked.mono hyR.2 fun c hcR => Nodes.put_node _ _ (hRx c (List.mem_cons_of_mem _ hcR))
  have hmid : (if addr x ≠ null then h.modify (addr x) fun n => { n with next := first addr null R } else some h)
      = some h1 := by
    rw [if_pos hxnull]
    exact Nodes.modify_run hx _
  have hy1 : h1.node (addr y) = some ⟨elem y, addr x, first addr null R⟩ :=
    (Nodes.put_node _ _ hxy.symm).trans hy
  have hrun : h.pop (addr y) = some (relink addr elem h1 (addr x) R) := by
    refine Option.bind_eq_some_iff.mpr ⟨_, hy, ?_⟩
    refine Option.bind_eq_some_iff.mpr ⟨_, hmid, ?_⟩
    refine Option.bind_eq_some_iff.mpr ⟨_, hy1, ?_⟩
    exact modify_first (addr x) hR1 fun c hcR => hc.nonneg c (hmem c (.inr (.inr hcR)))
  have hfresh : (relink addr elem h1 (addr x) R).fresh = h.fresh := relink_fresh _
  refine ⟨_, hrun, hfresh, ?_, seg_append.mpr ⟨?_, ?_, ?_⟩, ?_, ?_, ?_⟩
  · rw [relink_node hRy, hy1, hy]
  · refine hL.mono fun c hcL => ?_
    rw [relink_node fun d hd => (hLR c hcL d (List.mem_cons_of_mem _ hd)).symm]
    exact Nodes.put_node _ _ (hLx c hcL)
  · show Nodes.node _ (addr x) = some ⟨elem x, last addr null L, first addr null R⟩
    rw [relink_node fun d hd => hRx d (List.mem_cons_of_mem _ hd)]
    exact Nodes.put_node_self _ _ _
  · exact relink_linked _ hR1 hcy.nodup_right
  · have hsub : (L ++ x :: R).Sublist (L ++ x :: y :: R) :=
      List.Sublist.append_left (List.Sublist.cons_cons x (List.sublist_cons_self y R)) L
    exact hc.nodup.sublist (hsub.map addr)
  · exact fun c hcm => hc.nonneg c (hmem c (by simpa using hcm))
  · intro c hcm
    rw [hfresh]
    exact hc.lt c (hmem c (by simpa using hcm))

/-- a node that is not in the list may be deleted -/
theorem Chain.delete {a : Int} (hc : Chain addr elem h L) (ha : ∀ c ∈ L, addr c ≠ a) :
    Chain addr elem (h.delete a) L :=
  ⟨hc.linked.mono fun c hcL => Nodes.delete_node _ (ha c hcL), hc.nodup, hc.nonneg, hc.lt⟩

end

end LinkedList
end Ipcpp
