import Ipcpp.Stl.Blocks
import Ipcpp.Stl.Vector

/-!
# Constructing elements

`Wrote p p' a n`: what constructing elements in `[a, a + n)` may have changed.  Inside of a live block
that keeps the list of nodes (`PoolOk.of_wrote`) and all the other blocks (`PoolOk.kept_of_wrote`).

`Built T p q S`: the elements constructed between `p` and `q` are those at the addresses in `S`.  A slot of
the storage in which no element was constructed is no element of the vector, whatever its bytes are.

`cells m a sz k` are the `k` elements from `a` on.  `fill_run` is the one fact about the loops of the
vector: behind `k` elements of a block with room for `n` more they construct these `n`.
-/

namespace Ipcpp
namespace Stl

/-- the bytes of the blocks `bs` are the same in `p'` as in `p` -/
def Kept (p p' : Pool) (bs : List Block) : Prop :=
  ∀ b ∈ bs, ∀ x, b.off ≤ x → x < b.off + b.size → p'.memory.byte x = p.memory.byte x

theorem Kept.refl (p : Pool) (bs : List Block) : Kept p p bs := fun _ _ _ _ _ => rfl

theorem Kept.trans {p q r : Pool} {bs : List Block} (h : Kept p q bs) (h' : Kept q r bs) : Kept p r bs :=
  fun b hb x hx hx' => (h' b hb x hx hx').trans (h b hb x hx hx')

theorem Kept.mono {p q : Pool} {bs bs' : List Block} (h : Kept p q bs) (hsub : ∀ b ∈ bs', b ∈ bs) :
    Kept p q bs' :=
  fun b hb => h b (hsub b hb)

theorem Frame.kept {p p' : Pool} {hs : List Nat} (hf : Frame p p' hs) {q : Pool} {l : List Chunk}
    {live : List Block} (h : PoolOk q l live) (hw : ∀ a ∈ hs, ∃ d ∈ l, d.off = a) : Kept p p' live :=
  fun _ hb _ hx hx' => hf.byte_eq h hw hb hx hx'

/-! ## what is written -/

structure Wrote (p p' : Pool) (a n : Nat) : Prop where
  size : p'.size = p.size
  head : p'.listHeadOffset = p.listHeadOffset
  headers : p'.headers = p.headers
  elements : ∃ es, p'.elements = es ++ p.elements ∧ ∀ e ∈ es, a ≤ e.1 ∧ e.1 + e.2 ≤ a + n
  record : ∀ b, Apart b nodeSize a n → p'.memory.record b = p.memory.record b
  byte : ∀ x, x < a ∨ a + n ≤ x → p'.memory.byte x = p.memory.byte x

theorem Wrote.refl (p : Pool) (a n : Nat) : Wrote p p a n :=
  ⟨rfl, rfl, rfl, ⟨[], rfl, by simp⟩, fun _ _ => rfl, fun _ _ => rfl⟩

theorem wrote_putElement (p : Pool) (a n : Nat) (f : Nat → Option UInt8) :
    Wrote p (p.putElement a n f) a n := by
  refine ⟨rfl, rfl, rfl, ⟨[(a, n)], rfl, fun e he => ?_⟩, fun b hb => Memory.putBytes_record _ _ _ hb,
    fun x hx => Memory.putBytes_byte _ _ _ hx⟩
  rw [List.mem_singleton.mp he]
  exact ⟨Nat.le_refl _, Nat.le_refl _⟩

theorem Wrote.mono {p p' : Pool} {a n a' n' : Nat} (h : Wrote p p' a n) (ha : a' ≤ a)
    (hn : a + n ≤ a' + n') : Wrote p p' a' n' := by
  obtain ⟨es, hes, hin⟩ := h.elements
  refine ⟨h.size, h.head, h.headers, ⟨es, hes, fun e he => ?_⟩, fun b hb => h.record b ?_,
    fun x hx => h.byte x ?_⟩
  · have := hin e he
    omega
  · unfold Apart at *
    omega
  · omega

theorem Wrote.trans {p q r : Pool} {a n : Nat} (h : Wrote p q a n) (h' : Wrote q r a n) :
    Wrote p r a n := by
  obtain ⟨es, hes, hin⟩ := h.elements
  obtain ⟨es', hes', hin'⟩ := h'.elements
  refine ⟨h'.size.trans h.size, h'.head.trans h.head, h'.headers.trans h.headers,
    ⟨es' ++ es, ?_, fun e he => ?_⟩, fun b hb => (h'.record b hb).trans (h.record b hb),
    fun x hx => (h'.byte x hx).trans (h.byte x hx)⟩
  · rw [hes', hes, List.append_assoc]
  · rcases List.mem_append.mp he with he | he
    · exact hin' e he
    · exact hin e he

section
variable {p p' : Pool} {l : List Chunk} {live : List Block} {b : Block} {a n : Nat}

/-- no node header stands where elements are constructed in a live block -/
theorem PoolOk.of_wrote (h : PoolOk p l live) (hw : Wrote p p' a n) (hb : b ∈ live) (ha : b.off ≤ a)
    (hn : a + n ≤ b.off + b.size) : PoolOk p' l live := by
  refine ⟨?_, ⟨hw.head.trans h.chunked.head, ?_, h.chunked.linked.mono fun c hc => hw.record _ ?_,
    h.chunked.aligned⟩, h.coalesced, h.live⟩
  · rw [hw.size]
    exact h.room
  · rw [hw.size]
    exact h.chunked.tiled
  · have := h.header_apart hc hb
    unfold Apart at *
    omega

theorem PoolOk.kept_of_wrote (h : PoolOk p l (b :: live)) (hw : Wrote p p' a n) (ha : b.off ≤ a)
    (hn : a + n ≤ b.off + b.size) : Kept p p' live := by
  intro c hc x hx hx'
  have hap := (List.pairwise_cons.mp h.pairwise).1 c hc
  refine hw.byte x ?_
  unfold Apart at hap
  omega

theorem PoolOk.perm (h : PoolOk p l live) {live' : List Block} (hp : live.Perm live') : PoolOk p l live' :=
  ⟨h.room, h.chunked, h.coalesced, h.live.trans hp⟩

end

/-! ## what was constructed -/

/-- the elements constructed since `p` -/
def newElements (p q : Pool) : List (Nat × Nat) :=
  q.elements.take (q.elements.length - p.elements.length)

/-- the elements constructed since `p` are those at the addresses in `S` -/
def Built (T : ElemType) (p q : Pool) (S : Set Nat) : Prop :=
  ∃ es, q.elements = es ++ p.elements ∧ ∀ e, e ∈ es ↔ e.1 ∈ S ∧ e.2 = T.size

section
variable {T : ElemType} {p q r : Pool} {S S' : Set Nat}

theorem Built.refl (T : ElemType) (h : q.elements = p.elements) : Built T p q ∅ :=
  ⟨[], h, fun e => by simp⟩

theorem Built.trans (h : Built T p q S) (h' : Built T q r S') : Built T p r (S ∪ S') := by
  obtain ⟨es, hes, hin⟩ := h
  obtain ⟨es', hes', hin'⟩ := h'
  refine ⟨es' ++ es, by rw [hes', hes, List.append_assoc], fun e => ?_⟩
  rw [List.mem_append, hin, hin', Set.mem_union]
  tauto

theorem Built.congr (h : Built T p q S) (hS : ∀ a, a ∈ S ↔ a ∈ S') : Built T p q S' := by
  obtain ⟨es, hes, hin⟩ := h
  exact ⟨es, hes, fun e => by rw [hin, hS]⟩

theorem Built.of_none (h : q.elements = p.elements) (hS : ∀ a, a ∉ S) : Built T p q S :=
  (Built.refl T h).congr fun a => iff_of_false id (hS a)

/-- before and after, nothing was constructed -/
theorem Built.between {p' q' : Pool} (h : Built T p q S) (hp : p.elements = p'.elements)
    (hq : q'.elements = q.elements) : Built T p' q' S := by
  obtain ⟨es, hes, hin⟩ := h
  exact ⟨es, by rw [hq, hes, hp], hin⟩

/-- slot `i`, and those behind it -/
theorem Built.cons {a i m : Nat} (hi : i < m) (h : Built T p q {a + i * T.size})
    (h' : Built T q r { x | ∃ j, i + 1 ≤ j ∧ j < m ∧ x = a + j * T.size }) :
    Built T p r { x | ∃ j, i ≤ j ∧ j < m ∧ x = a + j * T.size } := by
  refine (h.trans h').congr fun x => ?_
  constructor
  · rintro (hx | ⟨j, h1, h2, hx⟩)
    · exact ⟨i, Nat.le_refl _, hi, hx⟩
    · exact ⟨j, by omega, h2, hx⟩
  · rintro ⟨j, h1, h2, hx⟩
    rcases Nat.eq_or_lt_of_le h1 with rfl | h1
    · exact .inl hx
    · exact .inr ⟨j, h1, h2, hx⟩

/-- the slots behind slot `k`, counted from `a` -/
theorem Built.shift {a k n : Nat} (h : Built T p q { x | ∃ j < n, x = a + k * T.size + j * T.size }) :
    Built T p q { x | ∃ j, k ≤ j ∧ j < k + n ∧ x = a + j * T.size } := by
  refine h.congr fun x => ?_
  constructor
  · rintro ⟨j, hj, hx⟩
    refine ⟨k + j, Nat.le_add_right _ _, Nat.add_lt_add_left hj k, ?_⟩
    rw [hx, Nat.add_mul, Nat.add_assoc]
  · rintro ⟨j, hkj, hj, hx⟩
    refine ⟨j - k, by omega, ?_⟩
    rw [hx, Nat.add_assoc, ← Nat.add_mul, Nat.add_sub_cancel' hkj]

/-- the first `k` slots, and `n` from slot `k` on -/
theorem Built.append {a k n : Nat} (h : Built T p q { x | ∃ j < k, x = a + j * T.size })
    (h' : Built T q r { x | ∃ j < n, x = a + k * T.size + j * T.size }) :
    Built T p r { x | ∃ j < k + n, x = a + j * T.size } := by
  refine (h.trans h'.shift).congr fun x => ?_
  constructor
  · rintro (⟨j, hj, hx⟩ | ⟨j, -, hj, hx⟩)
    · exact ⟨j, Nat.lt_add_right n hj, hx⟩
    · exact ⟨j, hj, hx⟩
  · rintro ⟨j, hj, hx⟩
    rcases Nat.lt_or_ge j k with hjk | hkj
    · exact .inl ⟨j, hjk, hx⟩
    · exact .inr ⟨j, hkj, hj, hx⟩

theorem Built.mem_newElements (h : Built T p q S) (a : Nat) : (a, T.size) ∈ newElements p q ↔ a ∈ S := by
  obtain ⟨es, hes, hin⟩ := h
  unfold newElements
  rw [hes, List.length_append, Nat.add_sub_cancel, List.take_left, hin]
  exact and_iff_left rfl

theorem built_putElement (p : Pool) (a : Nat) (f : Nat → Option UInt8) :
    Built T p (p.putElement a T.size f) {a} := by
  refine ⟨[(a, T.size)], rfl, fun e => ?_⟩
  rw [List.mem_singleton, Set.mem_singleton_iff, Prod.ext_iff]

end

/-! ## elements -/

/-- `k` elements of size `sz` from `a` on -/
def cells (m : Memory AllocatorListNode) (a sz k : Nat) : List Value :=
  (List.range k).map fun j => m.bytes (a + j * sz) sz

@[simp] theorem cells_zero (m : Memory AllocatorListNode) (a sz : Nat) : cells m a sz 0 = [] := rfl

theorem cells_append (m : Memory AllocatorListNode) (a sz k n : Nat) :
    cells m a sz (k + n) = cells m a sz k ++ (List.range n).map fun j => m.bytes (a + (k + j) * sz) sz := by
  simp [cells, List.range_add, Function.comp_def]

theorem cell_le (sz : Nat) {j k : Nat} (h : j < k) : j * sz + sz ≤ k * sz := by
  have := Nat.mul_le_mul_right sz (Nat.succ_le_of_lt h)
  rwa [Nat.succ_mul] at this

theorem cells_congr {m m' : Memory AllocatorListNode} {a sz k : Nat}
    (h : ∀ x, a ≤ x → x < a + k * sz → m'.byte x = m.byte x) : cells m' a sz k = cells m a sz k := by
  refine List.map_congr_left fun j hj => Memory.bytes_congr fun x hx hx' => h x (by omega) ?_
  have := cell_le sz (List.mem_range.mp hj)
  omega

theorem cells_take (m : Memory AllocatorListNode) (a sz : Nat) {k n : Nat} (h : n ≤ k) :
    cells m a sz n = (cells m a sz k).take n := by
  obtain ⟨r, rfl⟩ := Nat.le.dest h
  rw [cells_append, List.take_append_of_le_length (by simp [cells])]
  exact (List.take_of_length_le (by simp [cells])).symm

theorem Kept.cells {p p' : Pool} {bs : List Block} (h : Kept p p' bs) {b : Block} (hb : b ∈ bs) {sz k : Nat}
    (hk : k * sz ≤ b.size) : Stl.cells p'.memory b.off sz k = Stl.cells p.memory b.off sz k :=
  cells_congr fun x hx hx' => h b hb x hx (by omega)

/-! ## the loops -/

variable {T : ElemType}

theorem constructAt_run (p : Pool) (a i : Nat) (v : Value) :
    (constructAt T (some a) i v).run p
      = .ok () (p.putElement (a + i * T.size) T.size fun j => v[j]?.join) := rfl

/-- the loop from `i` on: what it writes, and where; `value` may look at everything else -/
theorem constructLoop_run {a : Nat} (value : Nat → PoolM Value) (vals : Nat → Value) (n : Nat) :
    ∀ (i : Nat) (p : Pool),
      (∀ j, i ≤ j → j < i + n → (vals j).length = T.size ∧
        ∀ q, Wrote p q (a + i * T.size) (n * T.size) → (value j).run q = .ok (vals j) q) →
      ∃ q, (constructLoop T (some a) value i n).run p = .ok () q ∧
        Wrote p q (a + i * T.size) (n * T.size) ∧
        ∀ j, i ≤ j → j < i + n → q.memory.bytes (a + j * T.size) T.size = vals j := by
  induction n with
  | zero =>
    intro i p _
    refine ⟨p, rfl, Wrote.refl _ _ _, fun j h1 h2 => ?_⟩
    omega
  | succ n ih =>
    intro i p hvals
    have hi : (i + 1) * T.size = i * T.size + T.size := Nat.succ_mul _ _
    have hn : (n + 1) * T.size = n * T.size + T.size := Nat.succ_mul _ _
    obtain ⟨hlen, hrun⟩ := hvals i (Nat.le_refl _) (by omega)
    have hw1 := wrote_putElement p (a + i * T.size) T.size fun j => (vals i)[j]?.join
    have hw1' : Wrote p _ (a + i * T.size) ((n + 1) * T.size) := hw1.mono (Nat.le_refl _) (by omega)
    obtain ⟨q, hq, hw, hcells⟩ := ih (i + 1) (p.putElement (a + i * T.size) T.size fun j => (vals i)[j]?.join)
      fun j h1 h2 => by
        obtain ⟨hl, hr⟩ := hvals j (by omega) (by omega)
        exact ⟨hl, fun q hwq => hr q (hw1'.trans (hwq.mono (by omega) (by omega)))⟩
    refine ⟨q, ?_, hw1'.trans (hw.mono (by omega) (by omega)), fun j h1 h2 => ?_⟩
    · refine (Prog.bind_ok (hrun p (Wrote.refl _ _ _))).trans ?_
      exact (Prog.bind_ok (constructAt_run p a i (vals i))).trans hq
    · by_cases hij : j = i
      · -- the later elements are behind this one
        rw [hij, Memory.bytes_congr fun x _ hx => hw.byte x (.inl (by omega))]
        have hread := Memory.putBytes_bytes nodeSize p.memory (a + i * T.size) (vals i)
        rw [hlen] at hread
        exact hread
      · exact hcells j (by omega) (by omega)

/-- the loops of the vector construct one element after the other -/
theorem constructLoop_built {a : Nat} {value : Nat → PoolM Value}
    (hvalue : ∀ j r v r', (value j).run r = .ok v r' → r' = r) (n : Nat) :
    ∀ (i : Nat) (p q : Pool), (constructLoop T (some a) value i n).run p = .ok () q →
      Built T p q { x | ∃ j, i ≤ j ∧ j < i + n ∧ x = a + j * T.size } := by
  induction n with
  | zero =>
    intro i p q h
    cases h
    refine Built.of_none rfl fun x => ?_
    rintro ⟨j, h1, h2, -⟩
    omega
  | succ n ih =>
    intro i p q h
    obtain ⟨v, r, hv, hrest⟩ := Prog.of_bind_ok h
    obtain rfl := hvalue i p v r hv
    rw [Prog.bind_ok (constructAt_run r a i v)] at hrest
    have hlater := ih (i + 1) _ _ hrest
    rw [Nat.add_right_comm] at hlater
    exact (built_putElement r (a + i * T.size) _).cons (by omega) hlater

/-- the same for a loop that starts with the first element -/
theorem constructLoop_built_all {a n : Nat} {value : Nat → PoolM Value}
    (hvalue : ∀ j r v r', (value j).run r = .ok v r' → r' = r) {p q : Pool}
    (h : (constructLoop T (some a) value 0 n).run p = .ok () q) :
    Built T p q { x | ∃ j < n, x = a + j * T.size } := by
  have hbuilt := constructLoop_built hvalue n 0 p q h
  rw [Nat.zero_add] at hbuilt
  exact hbuilt.congr fun x => by simp

/-- **The loops of the vector**: `n` elements behind the `k` that a block has, from the pointer `a` with
index `i` on. -/
theorem fill_run (value : Nat → PoolM Value) (vals : Nat → Value) {p : Pool} {l : List Chunk}
    {rest : List Block} {b : Block} (h : PoolOk p l (b :: rest)) {k n a i : Nat}
    (hroom : (k + n) * T.size ≤ b.size) (ha : a + i * T.size = b.off + k * T.size)
    (hvals : ∀ j, i ≤ j → j < i + n → (vals j).length = T.size ∧
      ∀ q, q.size = p.size → Kept p q rest → (value j).run q = .ok (vals j) q) :
    ∃ q, (constructLoop T (some a) value i n).run p = .ok () q ∧
      Wrote p q (b.off + k * T.size) (n * T.size) ∧ PoolOk q l (b :: rest) ∧ Kept p q rest ∧
      cells q.memory b.off T.size (k + n)
        = cells p.memory b.off T.size k ++ (List.range n).map fun j => vals (i + j) := by
  rw [Nat.add_mul] at hroom
  have hin : b.off ≤ b.off + k * T.size ∧ b.off + k * T.size + n * T.size ≤ b.off + b.size := by omega
  obtain ⟨q, hrun, hw, hcells⟩ := constructLoop_run (T := T) (a := a) value vals n i p
    fun j h1 h2 => by
      obtain ⟨hl, hr⟩ := hvals j h1 h2
      rw [ha]
      exact ⟨hl, fun q hw => hr q hw.size (h.kept_of_wrote hw hin.1 hin.2)⟩
  rw [ha] at hw
  refine ⟨q, hrun, hw, h.of_wrote hw List.mem_cons_self hin.1 hin.2, h.kept_of_wrote hw hin.1 hin.2, ?_⟩
  rw [cells_append]
  congr 1
  · exact cells_congr fun x _ hx => hw.byte x (.inl hx)
  · refine List.map_congr_left fun j hj => ?_
    have hj' := List.mem_range.mp hj
    rw [← hcells (i + j) (by omega) (by omega)]
    have hoff : b.off + (k + j) * T.size = a + (i + j) * T.size := by
      rw [Nat.add_mul, Nat.add_mul]
      omega
    rw [hoff]

end Stl
end Ipcpp
