import Ipcpp.Stl.VectorShift

/-!
# Inserting elements into a vector

Both overloads make sure that there is room, move the elements behind `pos` away with `_m_move_to` and
construct the new ones in the gap.  The forward loop of `_m_move_to` is taken if the new elements are more
than one more than those behind `pos`; it moves only one element, so of two or more only the last one
arrives, and the slots behind it have no element in them.

The overload for a range does not look for `pos` again when the storage was replaced, and goes on with an
iterator into the old block.

* `insertFill_iff`: what `insert(pos, count, value)` leaves is right exactly if at most one element is
  behind `pos`, or `count` is at most one more than these elements are;
* `insertRange_iff`: the same of a range as long as the storage is not replaced, and then nothing is
  written outside of it.
-/

namespace Ipcpp
namespace Stl

section
variable (T : ElemType)

/-- `_m_uninitialized_realloc_n` -/
def uninitializedReallocN (d : VecData) (n : Nat) : PoolM VecData := do
  let len ← checkLength T d n
  realloc T d len 0 T.zero

/-- what both overloads do when there is room for the `count` elements: `begin()` is looked up again, `pos`
is what the caller has -/
def insertAt (d : VecData) (pos : Option Nat) (offset : Int) (count : Nat) (value : Nat → PoolM Value) :
    PoolM (VecData × Option Nat) := do
  let p ← Prog.get
  let start := p.offsetToPointer d.start
  let position ← advance T start offset
  let size ← size T d
  let cend ← advance T start size
  let dst ← advance T pos count
  moveTo T d pos cend dst
  constructLoop T position value 0 count
  let it ← advance T start offset
  pure ({ d with finish := d.finish + (count * T.size : Nat) }, it)

/-- `insert(pos, count, value)` -/
def insertFill (d : VecData) (pos : Option Nat) (count : Nat) (v : Value) : PoolM (VecData × Option Nat) := do
  let p ← Prog.get
  let offset ← difference T (p.offsetToPointer d.start) pos
  let cap ← capacity T d
  let size ← size T d
  if cap < (size + count) % 2^64 then
    let d ← uninitializedReallocN T d count
    let q ← Prog.get
    -- `pos = cbegin() + offset`
    let pos ← advance T (q.offsetToPointer d.start) offset
    insertAt T d pos offset count fun _ => pure v
  else
    insertAt T d pos offset count fun _ => pure v

/-- `insert(pos, first, last)`, with the values of the range -/
def insertRange (d : VecData) (pos : Option Nat) (vs : List Value) : PoolM (VecData × Option Nat) := do
  let p ← Prog.get
  let offset ← difference T (p.offsetToPointer d.start) pos
  let cap ← capacity T d
  let size ← size T d
  if cap < (size + vs.length) % 2^64 then
    let d ← uninitializedReallocN T d vs.length
    insertAt T d pos offset vs.length fun i => Prog.ofOption vs[i]?
  else
    insertAt T d pos offset vs.length fun i => Prog.ofOption vs[i]?

end

/-- `insert` has left `xs` and returned the iterator at index `i`; every element of `xs` was constructed, by
this call or before -/
structure Inserted (T : ElemType) (p p' : Pool) (d d' : VecData) (it : Option Nat) (i : Nat)
    (xs : List Value) : Prop where
  contents : contents T p' d' = xs
  size : (size T d').run p' = .ok xs.length p'
  iterator : it = iteratorAt T p' d' i
  constructed : ∀ j < xs.length, d'.start = d.start ∧ j < (Stl.contents T p d).length ∨
    (d'.start.toNat + j * T.size, T.size) ∈ newElements p p'

/-- all that was constructed is inside of the storage -/
def Inside (p p' : Pool) (d' : VecData) : Prop :=
  ∀ e ∈ newElements p p', d'.start ≤ e.1 ∧ (e.1 : Int) + e.2 ≤ d'.endOfStorage

/-- at most one element is behind index `i` of `k`, or `n` is at most one more than these -/
def Shiftable (i k n : Nat) : Prop := n ≤ k - i + 1 ∨ k - i ≤ 1

instance (i k n : Nat) : Decidable (Shiftable i k n) := inferInstanceAs (Decidable (_ ∨ _))

variable {T : ElemType} {p : Pool} {l : List Chunk} {rest : List Block} {d : VecData} {o : List Block}
  {k : Nat}

/-! ## slots -/

section
variable {i n j : Nat}

theorem moved_insert_front (hj : j < i) : moved i k (i + n) j = j := by
  refine moved_of_not_target fun h => ?_
  rcases h with ⟨-, -, ⟨-, h⟩ | ⟨-, h, -⟩⟩ <;> omega

theorem moved_insert_behind (hs : Shiftable i k n) (hj : i + n ≤ j) (hjk : j < k + n) :
    moved i k (i + n) j = j - n := by
  by_cases hn : n = 0
  · rw [moved_of_not_target fun h => h.1 (by omega), hn, Nat.sub_zero]
  by_cases hf : Forward i k (i + n)
  · -- one element behind the gap
    have hone : k = i + 1 := by
      unfold Forward at hf
      unfold Shiftable at hs
      omega
    rw [moved, if_pos ⟨by omega, by omega, .inl ⟨hf, by omega⟩⟩, if_pos hf]
    omega
  · rw [moved, if_pos ⟨by omega, by omega, .inr ⟨hf, hj, by omega⟩⟩, if_neg hf]
    omega

theorem target_insert (hs : Shiftable i k n) (hj : i + n ≤ j) (hkj : k ≤ j) (hjk : j < k + n) :
    Target i k (i + n) j := by
  refine ⟨by omega, by omega, ?_⟩
  by_cases hf : Forward i k (i + n)
  · refine .inl ⟨hf, ?_⟩
    unfold Forward at hf
    unfold Shiftable at hs
    omega
  · exact .inr ⟨hf, hj, by omega⟩

theorem not_target_last (hs : ¬ Shiftable i k n) : ¬ Target i k (i + n) (k + n - 1) := by
  unfold Shiftable at hs
  rintro ⟨-, -, ⟨-, h⟩ | ⟨hnf, -⟩⟩
  · omega
  · unfold Forward at hnf
    omega

theorem map_slots_eq {f g : Nat → Value} {vals : Nat → Value} (hik : i ≤ k)
    (hfront : ∀ t < i, g t = f t) (hgap : ∀ t < n, g (i + t) = vals t)
    (hbehind : ∀ t < k - i, g (i + n + t) = f (i + t)) :
    (List.range (k + n)).map g
      = ((List.range k).map f).take i ++ (List.range n).map vals ++ ((List.range k).map f).drop i := by
  have hsplit : k + n = i + (n + (k - i)) := by omega
  have htake : ((List.range k).map f).take i = (List.range i).map f := by
    rw [← List.map_take, List.take_range, Nat.min_eq_left hik]
  have hdrop : ((List.range k).map f).drop i = (List.range (k - i)).map fun t => f (i + t) := by
    conv_lhs => rw [← Nat.add_sub_cancel' hik]
    rw [List.range_add, List.map_append, List.drop_left' (by simp), List.map_map]
    rfl
  rw [htake, hdrop, hsplit, List.range_add, List.range_add, List.map_append, List.map_append,
    List.map_append, List.append_assoc]
  congr 1
  · exact List.map_congr_left fun t ht => hfront t (List.mem_range.mp ht)
  · rw [List.map_map, List.map_map, List.map_map]
    congr 1
    · exact List.map_congr_left fun t ht => hgap t (List.mem_range.mp ht)
    · refine List.map_congr_left fun t ht => ?_
      show g (i + (n + t)) = f (i + t)
      rw [← Nat.add_assoc]
      exact hbehind t (List.mem_range.mp ht)

end

/-! ## the shared part -/

/-- **The shared part** on a vector that has storage: the new elements are in the gap, every other slot has
what `_m_move_to` has left in it.  Nothing is said about where the storage ends, and `value` may look at what
`_m_move_to` has left. -/
theorem insertAt_fill {b : Block} {i n : Nat} (value : Nat → PoolM Value) (vals : Nat → Value)
    (h : PoolOk p l (b :: rest)) (hk : k * T.size ≤ b.size) (hik : i ≤ k)
    (hfill : ∀ q1, Wrote p q1 (b.off + (i + n) * T.size) ((k - i) * T.size) →
      (∀ j, q1.memory.bytes (b.off + j * T.size) T.size
        = p.memory.bytes (b.off + moved i k (i + n) j * T.size) T.size) →
      ∃ q, (constructLoop T (some (b.off + i * T.size)) value 0 n).run q1 = .ok () q ∧
        Wrote q1 q (b.off + i * T.size) (n * T.size) ∧
        ∀ t < n, q.memory.bytes (b.off + (i + t) * T.size) T.size = vals t)
    (hstate : ∀ j r v r', (value j).run r = .ok v r' → r' = r) :
    ∃ q, (insertAt T (stored b T.size k) (some (b.off + i * T.size)) i n value).run p
        = .ok (stored b T.size (k + n), some (b.off + i * T.size)) q ∧
      Wrote p q (b.off + i * T.size) ((k - i + n) * T.size) ∧
      (∀ t < n, q.memory.bytes (b.off + (i + t) * T.size) T.size = vals t) ∧
      (∀ j, j < i ∨ i + n ≤ j → q.memory.bytes (b.off + j * T.size) T.size
        = p.memory.bytes (b.off + moved i k (i + n) j * T.size) T.size) ∧
      Built T p q { x | ∃ j, (Target i k (i + n) j ∨ i ≤ j ∧ j < i + n) ∧ x = b.off + j * T.size } := by
  have hb : b.off + b.size ≤ p.size - headerSize := h.stop_le List.mem_cons_self
  have hstart : p.offsetToPointer (stored b T.size k).start = some b.off := offsetToPointer_nat (by omega)
  obtain ⟨q1, hmove, hw1, hcells1, hbuilt1⟩ := moveTo_run (T := T) (m := i + n) hstart hik
  obtain ⟨q, hloop, hw, hcells⟩ := hfill q1 hw1 hcells1
  have hbuilt := (constructLoop_built_all hstate hloop).shift
  have hmul : (i + n) * T.size = i * T.size + n * T.size := Nat.add_mul _ _ _
  have hmul' : (k - i + n) * T.size = (k - i) * T.size + n * T.size := Nat.add_mul _ _ _
  refine ⟨q, ?_, (hw1.mono (by omega) (by omega)).trans (hw.mono (by omega) (by omega)), hcells,
    fun j hj => ?_, (hbuilt1.trans hbuilt).congr fun x => ?_⟩
  · refine (Prog.get_bind_run _ _).trans ?_
    rw [hstart]
    refine (Prog.bind_ok (advance_run b.off i p)).trans ?_
    refine (Prog.bind_ok (size_run (o := [b]) (.some hk) h)).trans ?_
    refine (Prog.bind_ok (advance_run b.off k p)).trans ?_
    refine (Prog.bind_ok (advance_run (b.off + i * T.size) n p)).trans ?_
    rw [Nat.add_assoc, ← Nat.add_mul]
    refine (Prog.bind_ok hmove).trans ?_
    refine (Prog.bind_ok hloop).trans ?_
    refine (Prog.bind_ok (advance_run b.off i q)).trans ?_
    unfold stored
    rw [Nat.add_mul, ← Nat.add_assoc]
    push_cast
    rfl
  · rw [hw.bytes, hcells1]
    unfold Apart
    rcases hj with hj | hj
    · have := cell_le T.size hj
      omega
    · have := Nat.mul_le_mul_right T.size hj
      omega
  · constructor
    · rintro (⟨j, hj, hx⟩ | ⟨j, hij, hj, hx⟩)
      · exact ⟨j, .inl hj, hx⟩
      · exact ⟨j, .inr ⟨hij, hj⟩, hx⟩
    · rintro ⟨j, hj | ⟨hij, hj⟩, hx⟩
      · exact .inl ⟨j, hj, hx⟩
      · exact .inr ⟨j, hij, hj, hx⟩

theorem insertAt_run {b : Block} {i n : Nat} (value : Nat → PoolM Value) (vals : Nat → Value)
    (h : PoolOk p l (b :: rest)) (hk : k * T.size ≤ b.size) (hik : i ≤ k)
    (hvals : ∀ j < n, (vals j).length = T.size ∧ ∀ q, (value j).run q = .ok (vals j) q)
    (hstate : ∀ j r v r', (value j).run r = .ok v r' → r' = r) :
    ∃ q, (insertAt T (stored b T.size k) (some (b.off + i * T.size)) i n value).run p
        = .ok (stored b T.size (k + n), some (b.off + i * T.size)) q ∧
      Wrote p q (b.off + i * T.size) ((k - i + n) * T.size) ∧
      (∀ t < n, q.memory.bytes (b.off + (i + t) * T.size) T.size = vals t) ∧
      (∀ j, j < i ∨ i + n ≤ j → q.memory.bytes (b.off + j * T.size) T.size
        = p.memory.bytes (b.off + moved i k (i + n) j * T.size) T.size) ∧
      Built T p q { x | ∃ j, (Target i k (i + n) j ∨ i ≤ j ∧ j < i + n) ∧ x = b.off + j * T.size } := by
  refine insertAt_fill value vals h hk hik (fun q1 _ _ => ?_) hstate
  obtain ⟨q, hloop, hw, hcells⟩ := constructLoop_run (T := T) (a := b.off + i * T.size) value vals n 0 q1
    fun j _ hj => by
      obtain ⟨hl, hr⟩ := hvals j (by omega)
      exact ⟨hl, fun r _ => hr r⟩
  rw [Nat.zero_mul, Nat.add_zero] at hw
  refine ⟨q, hloop, hw, fun t ht => ?_⟩
  have hcell := hcells t (Nat.zero_le t) (by omega)
  rwa [Nat.add_assoc, ← Nat.add_mul] at hcell

theorem PoolOk.of_insert {b : Block} {i n : Nat} {q : Pool} (h : PoolOk p l (b :: rest)) (hik : i ≤ k)
    (hroom : (k + n) * T.size ≤ b.size) (hw : Wrote p q (b.off + i * T.size) ((k - i + n) * T.size)) :
    PoolOk q l (b :: rest) := by
  have hmul : i * T.size + (k - i + n) * T.size = (k + n) * T.size := by
    rw [← Nat.add_mul]
    congr 1
    omega
  exact h.of_wrote hw List.mem_cons_self (by omega) (by omega)

/-- the vector in its block after the shared part, which started from the pool `p1` with the elements of
`d` in the block already, all of them constructed -/
theorem inserted_iff {b : Block} {i n : Nat} {vals : Nat → Value} {p1 q : Pool} (hik : i ≤ k)
    (hroom : (k + n) * T.size ≤ b.size) (hq : PoolOk q l (b :: rest))
    (hgap : ∀ t < n, q.memory.bytes (b.off + (i + t) * T.size) T.size = vals t)
    (hcells : ∀ j, j < i ∨ i + n ≤ j → q.memory.bytes (b.off + j * T.size) T.size
      = p1.memory.bytes (b.off + moved i k (i + n) j * T.size) T.size)
    (hbefore : cells p1.memory b.off T.size k = contents T p d) (hlen : (contents T p d).length = k)
    (hslots : ∀ j, (stored b T.size (k + n)).start = d.start ∧ j < k ∨
        (b.off + j * T.size, T.size) ∈ newElements p q ↔
      j < k ∨ Target i k (i + n) j ∨ i ≤ j ∧ j < i + n) :
    Inserted T p q d (stored b T.size (k + n)) (some (b.off + i * T.size)) i
        ((contents T p d).take i ++ (List.range n).map vals ++ (contents T p d).drop i) ↔ Shiftable i k n := by
  have hb : b.off + b.size ≤ q.size - headerSize := hq.stop_le List.mem_cons_self
  have hnew : ((contents T p d).take i ++ (List.range n).map vals ++ (contents T p d).drop i).length = k + n := by
    simp only [List.length_append, List.length_take, List.length_map, List.length_range, List.length_drop, hlen]
    omega
  constructor
  · intro hins
    by_contra hs
    have hpos : 0 < k + n := by
      unfold Shiftable at hs
      omega
    -- no element was constructed in the last slot
    have hlast := hins.constructed (k + n - 1) (by rw [hnew]; omega)
    rw [hlen] at hlast
    rcases (hslots (k + n - 1)).mp hlast with h | h | h
    · unfold Shiftable at hs
      omega
    · exact not_target_last hs h
    · unfold Shiftable at hs
      omega
  · intro hs
    refine ⟨?_, ?_, ?_, fun j hj => ?_⟩
    · rw [contents_stored, ← hbefore]
      refine map_slots_eq hik (fun t ht => ?_) (fun t ht => hgap t ht) fun t ht => ?_
      · rw [hcells t (.inl ht), moved_insert_front ht]
      · rw [hcells _ (.inr (Nat.le_add_right _ _)), moved_insert_behind hs (Nat.le_add_right _ _) (by omega)]
        congr 3
        omega
    · rw [hnew]
      exact size_run (o := [b]) (.some hroom) hq
    · exact (iteratorAt_stored (by omega) _ _).symm
    · rw [hnew] at hj
      rw [hlen]
      refine (hslots j).mpr ?_
      rcases Nat.lt_or_ge j k with hjk | hjk
      · exact .inl hjk
      · rcases Nat.lt_or_ge j (i + n) with hji | hji
        · exact .inr (.inr ⟨by omega, hji⟩)
        · exact .inr (.inl (target_insert hs hji hjk hj))

theorem inserted_kept_iff {b : Block} {i n : Nat} {vals : Nat → Value} {q : Pool} (hik : i ≤ k)
    (hk : k * T.size ≤ b.size) (hroom : (k + n) * T.size ≤ b.size) (hq : PoolOk q l (b :: rest))
    (hgap : ∀ t < n, q.memory.bytes (b.off + (i + t) * T.size) T.size = vals t)
    (hcells : ∀ j, j < i ∨ i + n ≤ j → q.memory.bytes (b.off + j * T.size) T.size
      = p.memory.bytes (b.off + moved i k (i + n) j * T.size) T.size)
    (hbuilt : Built T p q { x | ∃ j, (Target i k (i + n) j ∨ i ≤ j ∧ j < i + n) ∧ x = b.off + j * T.size }) :
    Inserted T p q (stored b T.size k) (stored b T.size (k + n)) (some (b.off + i * T.size)) i
        ((contents T p (stored b T.size k)).take i ++ (List.range n).map vals ++
          (contents T p (stored b T.size k)).drop i) ↔ Shiftable i k n := by
  refine inserted_iff hik hroom hq hgap hcells (contents_stored p b k).symm (Storage.some hk).length_contents
    fun j => ?_
  rw [hbuilt.mem_newElements]
  constructor
  · rintro (⟨-, hj⟩ | ⟨j', hj', hx⟩)
    · exact .inl hj
    · rw [(slot_eq_iff b.off j j').mp hx]
      exact .inr hj'
  · rintro (hj | hj)
    · exact .inl ⟨rfl, hj⟩
    · exact .inr ⟨j, hj, rfl⟩

theorem inserted_moved_iff {b : Block} {i n : Nat} {vals : Nat → Value} {p1 q : Pool} (hik : i ≤ k)
    (hroom : (k + n) * T.size ≤ b.size) (hq : PoolOk q l (b :: rest))
    (hgap : ∀ t < n, q.memory.bytes (b.off + (i + t) * T.size) T.size = vals t)
    (hcells : ∀ j, j < i ∨ i + n ≤ j → q.memory.bytes (b.off + j * T.size) T.size
      = p1.memory.bytes (b.off + moved i k (i + n) j * T.size) T.size)
    (hbefore : cells p1.memory b.off T.size k = contents T p d) (hlen : (contents T p d).length = k)
    (hbuilt1 : Built T p p1 { x | ∃ j < k, x = b.off + j * T.size })
    (hbuilt : Built T p1 q { x | ∃ j, (Target i k (i + n) j ∨ i ≤ j ∧ j < i + n) ∧ x = b.off + j * T.size }) :
    Inserted T p q d (stored b T.size (k + n)) (some (b.off + i * T.size)) i
        ((contents T p d).take i ++ (List.range n).map vals ++ (contents T p d).drop i) ↔ Shiftable i k n := by
  refine inserted_iff hik hroom hq hgap hcells hbefore hlen fun j => ?_
  rw [(hbuilt1.trans hbuilt).mem_newElements]
  constructor
  · rintro (⟨-, hj⟩ | ⟨j', hj', hx⟩ | ⟨j', hj', hx⟩)
    · exact .inl hj
    · rw [(slot_eq_iff b.off j j').mp hx]
      exact .inl hj'
    · rw [(slot_eq_iff b.off j j').mp hx]
      exact .inr hj'
  · rintro (hj | hj)
    · exact .inr (.inl ⟨j, hj, rfl⟩)
    · exact .inr (.inr ⟨j, hj, rfl⟩)

theorem not_inserted_of_large {b : Block} {i m : Nat} {q : Pool} {it : Option Nat} {xs : List Value}
    (hb : b.off ≤ q.size) (hq : q.size < 2^64) (hm : 2^64 ≤ m) :
    ¬ Inserted T p q d (stored b T.size m) it i xs := by
  intro hins
  have hle : m ≤ m * T.size := Nat.le_mul_of_pos_right _ T.pos
  have hfinish : q.offsetToPointer ((b.off + m * T.size : Nat) : Int) = none := by
    unfold Pool.offsetToPointer
    rw [if_pos (.inr (by rw [Int.toNat_natCast]; omega))]
  have hrun : (size T (stored b T.size m)).run q = .stuck := by
    refine (Prog.get_bind_run _ _).trans ?_
    show (pointerDiff T (q.offsetToPointer (b.off : Nat))
      (q.offsetToPointer (b.off + m * T.size : Nat))).run q = _
    rw [offsetToPointer_nat hb, hfinish]
    rfl
  have hsize := hins.size
  rw [hrun] at hsize
  cases hsize

/-! ## `insert(pos, count, value)` -/

theorem uninitializedReallocN_run (h : PoolOk p l (o ++ rest)) (hd : Storage T.size d o k)
    (hp : p.size < 2^64) (hwhole : Whole T d) {n : Nat} (hn : 0 < k + n) :
    (∃ b p1 l1, (uninitializedReallocN T d n).run p = .ok (stored b T.size k) p1 ∧
      PoolOk p1 l1 (b :: rest) ∧ p1.size = p.size ∧ (k + n) * T.size ≤ b.size ∧ k + n < 2^64 ∧
      cells p1.memory b.off T.size k = contents T p d ∧
      Built T p p1 { x | ∃ j < k, x = b.off + j * T.size }) ∨
    ∃ e, (uninitializedReallocN T d n).run p = .throw e p := by
  have hlength : (contents T p d).length = k := hd.length_contents
  rcases checkLength_run h hd hp n with ⟨len, hcheck, hroom, hlen⟩ | hcheck
  · rcases realloc_run h hd hwhole hlen (by omega : k + 0 ≤ len) T.zero_length with
      ⟨d1, p1, hrun, hafter, hcap, hbuilt⟩ | ⟨e, hrun⟩
    · obtain ⟨l1, hl1⟩ := hafter.ok
      obtain ⟨k1, hd1⟩ := hafter.stored
      have hcontents := hafter.contents
      rw [List.replicate_zero, List.append_nil] at hcontents
      have hk1 : k1 = k := by rw [← hlength, ← hcontents, hd1.length_contents]
      have hmul := Nat.mul_le_mul_right T.size hroom
      have hpos := Nat.mul_pos hn T.pos
      have hle : k + n ≤ (k + n) * T.size := Nat.le_mul_of_pos_right _ T.pos
      subst hk1
      generalize own d1 = o1 at hd1 hl1
      cases hd1 with
      | none =>
        exfalso
        have : ((len * T.size : Nat) : Int) ≤ 0 := hcap
        omega
      | @some b k1 hb =>
        have hcap' : ((len * T.size : Nat) : Int) ≤ ((b.off + b.size : Nat) : Int) - (b.off : Nat) := hcap
        refine .inl ⟨b, p1, l1, (Prog.bind_ok hcheck).trans hrun, hl1, hafter.size, by omega, by omega, ?_, hbuilt⟩
        rw [← contents_stored]
        exact hcontents
    · exact .inr ⟨e, (Prog.bind_ok hcheck).trans hrun⟩
  · exact .inr ⟨_, Prog.bind_throw hcheck⟩

section
variable {i n : Nat} {vals : Nat → Value} {value : Nat → PoolM Value}
  (hvals : ∀ j < n, (vals j).length = T.size ∧ ∀ q, (value j).run q = .ok (vals j) q)
  (hstate : ∀ j r v r', (value j).run r = .ok v r' → r' = r)
include hvals hstate

theorem insertAt_kept (h : PoolOk p l (o ++ rest)) (hd : Storage T.size d o k) (hik : i ≤ k)
    (hroom : ∀ b ∈ o, (k + n) * T.size ≤ b.size) (hnone : o = [] → n = 0) :
    ∃ d' it p', (insertAt T d (iteratorAt T p d i) i n value).run p = .ok (d', it) p' ∧
      (Inserted T p p' d d' it i
          ((contents T p d).take i ++ (List.range n).map vals ++ (contents T p d).drop i) ↔ Shiftable i k n) ∧
      Inside p p' d' := by
  cases hd with
  | none =>
    obtain rfl : n = 0 := hnone rfl
    obtain rfl : i = 0 := by omega
    have hnull : p.offsetToPointer (VecData.start {}) = none := offsetToPointer_invalid p
    have hiter : iteratorAt T p {} 0 = none := by
      unfold iteratorAt
      rw [hnull]
      rfl
    have hsize := size_run (T := T) .none h
    refine ⟨{}, none, p, ?_, ⟨fun _ => .inr (by omega), fun _ => ⟨?_, ?_, hiter.symm, ?_⟩⟩, ?_⟩
    · rw [hiter]
      refine (Prog.get_bind_run _ _).trans ?_
      rw [hnull]
      refine (Prog.bind_ok (show (advance T none (0 : Nat)).run p = .ok none p from rfl)).trans ?_
      refine (Prog.bind_ok hsize).trans ?_
      rw [Nat.zero_mul]
      rfl
    · rw [contents_none]
      rfl
    · rw [contents_none]
      exact hsize
    · rw [contents_none]
      exact fun j hj => absurd hj (Nat.not_lt_zero j)
    · unfold Inside newElements
      rw [Nat.sub_self, List.take_zero]
      exact fun e he => absurd he List.not_mem_nil
  | @some b k hk =>
    have hb := Storage.bounds h List.mem_cons_self
    have hroom := hroom b List.mem_cons_self
    obtain ⟨q, hrun, hw, hgap, hcells, hbuilt⟩ := insertAt_run value vals h hk hik hvals hstate
    have hq : PoolOk q l (b :: rest) := PoolOk.of_insert h hik hroom hw
    refine ⟨stored b T.size (k + n), some (b.off + i * T.size), q, ?_, ?_, ?_⟩
    · rw [iteratorAt_stored (by omega)]
      exact hrun
    · exact inserted_kept_iff hik hk hroom hq hgap hcells hbuilt
    · intro e he
      obtain ⟨es, hes, hin⟩ := hw.elements
      have hmem : e ∈ es := by
        unfold newElements at he
        rwa [hes, List.length_append, Nat.add_sub_cancel, List.take_left] at he
      have hmul : i * T.size + (k - i + n) * T.size = (k + n) * T.size := by
        rw [← Nat.add_mul]
        congr 1
        omega
      have := hin e hmem
      show ((b.off : Nat) : Int) ≤ e.1 ∧ (e.1 : Int) + e.2 ≤ (b.off + b.size : Nat)
      omega

theorem insertAt_moved {b : Block} {p1 : Pool} {l1 : List Chunk} (h1 : PoolOk p1 l1 (b :: rest))
    (hlen : (contents T p d).length = k) (hik : i ≤ k) (hroom : (k + n) * T.size ≤ b.size)
    (hbefore : cells p1.memory b.off T.size k = contents T p d)
    (hbuilt1 : Built T p p1 { x | ∃ j < k, x = b.off + j * T.size }) :
    ∃ d' it p', (insertAt T (stored b T.size k) (some (b.off + i * T.size)) i n value).run p1 = .ok (d', it) p' ∧
      (Inserted T p p' d d' it i
          ((contents T p d).take i ++ (List.range n).map vals ++ (contents T p d).drop i) ↔
        Shiftable i k n) := by
  have hk : k * T.size ≤ b.size := Nat.le_trans (Nat.mul_le_mul_right _ (Nat.le_add_right _ _)) hroom
  obtain ⟨q, hrun, hw, hgap, hcells, hbuilt⟩ := insertAt_run value vals h1 hk hik hvals hstate
  have hq : PoolOk q l1 (b :: rest) := PoolOk.of_insert h1 hik hroom hw
  refine ⟨stored b T.size (k + n), some (b.off + i * T.size), q, hrun, ?_⟩
  exact inserted_moved_iff hik hroom hq hgap hcells hbefore hlen hbuilt1 hbuilt

theorem insertAt_wrapped (h : PoolOk p l (o ++ rest)) (hd : Storage T.size d o k) (hp : p.size < 2^64)
    (hik : i ≤ k) (hwrap : 2^64 ≤ k + n) (hk : 0 < k) :
    ∃ d' it p', (insertAt T d (iteratorAt T p d i) i n value).run p = .ok (d', it) p' ∧
      ¬ Inserted T p p' d d' it i
        ((contents T p d).take i ++ (List.range n).map vals ++ (contents T p d).drop i) := by
  have hlen : (contents T p d).length = k := hd.length_contents
  cases hd with
  | none => omega
  | @some b k hstored =>
    have hb := Storage.bounds h List.mem_cons_self
    obtain ⟨q, hrun, hw, -⟩ := insertAt_run value vals h hstored hik hvals hstate
    refine ⟨stored b T.size (k + n), some (b.off + i * T.size), q, ?_,
      not_inserted_of_large (by rw [hw.size]; omega) (hw.size ▸ hp) hwrap⟩
    rw [iteratorAt_stored (by omega)]
    exact hrun

end

theorem insert_start (h : PoolOk p l (o ++ rest)) (hd : Storage T.size d o k) {i : Nat} (hik : i ≤ k) :
    (difference T (p.offsetToPointer d.start) (iteratorAt T p d i)).run p = .ok (i : Int) p := by
  unfold iteratorAt
  cases hd with
  | none =>
    obtain rfl : i = 0 := by omega
    rw [show p.offsetToPointer (VecData.start {}) = none from offsetToPointer_invalid p]
    rfl
  | @some b k hk =>
    have hb := Storage.bounds h List.mem_cons_self
    rw [show p.offsetToPointer (stored b T.size k).start = some b.off from offsetToPointer_nat (by omega)]
    exact difference_start_run b.off i p

theorem insertFill_whole (h : PoolOk p l (o ++ rest)) (hd : Storage T.size d o k) (hp : p.size < 2^64) {c : Nat}
    (hc : (capacity T d).run p = .ok c p) {i n : Nat} (hik : i ≤ k) (hn : n < 2^64) {v : Value}
    (hv : v.length = T.size) :
    (c < k + n ∧ ∃ e, (insertFill T d (iteratorAt T p d i) n v).run p = .throw e p) ∨
    ∃ d' it p', (insertFill T d (iteratorAt T p d i) n v).run p = .ok (d', it) p' ∧
      (Inserted T p p' d d' it i
          ((contents T p d).take i ++ List.replicate n v ++ (contents T p d).drop i) ↔
        k + n < 2^64 ∧ Shiftable i k n) := by
  have hlen : (contents T p d).length = k := hd.length_contents
  have hwhole := whole_of_capacity hd h hc
  obtain ⟨hblock, hnone, hc64⟩ := capacity_room h hd hp hc
  have hvals : ∀ j < n, v.length = T.size ∧ ∀ q : Pool, (pure v : PoolM Value).run q = .ok v q :=
    fun _ _ => ⟨hv, fun _ => rfl⟩
  have hstate : ∀ (j : Nat) (r : Pool) (w : Value) (r' : Pool), (pure v : PoolM Value).run r = .ok w r' → r' = r :=
    fun j r w r' hr => (Prog.Outcome.ok.inj hr).2.symm
  have hrep : (List.range n).map (fun _ => v) = List.replicate n v := by
    rw [List.map_const', List.length_range]
  have hrun : (insertFill T d (iteratorAt T p d i) n v).run p
      = (if c < (k + n) % 2^64 then do
          let d ← uninitializedReallocN T d n
          let q ← Prog.get
          let pos ← advance T (q.offsetToPointer d.start) i
          insertAt T d pos i n fun _ => pure v
        else insertAt T d (iteratorAt T p d i) i n fun _ => pure v : PoolM (VecData × Option Nat)).run p := by
    refine (Prog.get_bind_run _ _).trans ?_
    refine (Prog.bind_ok (insert_start h hd hik)).trans ?_
    exact (Prog.bind_ok hc).trans (Prog.bind_ok (size_run hd h))
  rw [hrun]
  have hmod := Nat.mod_le (k + n) (2^64)
  by_cases hgrow : c < (k + n) % 2^64
  · rw [if_pos hgrow]
    rcases uninitializedReallocN_run h hd hp hwhole (by omega : 0 < k + n) with
      ⟨b, p1, l1, hnew, hl1, hsize, hroom, h64, hbefore, hbuilt⟩ | ⟨e, hthrow⟩
    · obtain ⟨d', it, p', hins, hiff⟩ := insertAt_moved hvals hstate hl1 hlen hik hroom hbefore hbuilt
      have hb : b.off + b.size ≤ p1.size - headerSize := hl1.stop_le List.mem_cons_self
      have hpos : p1.offsetToPointer (stored b T.size k).start = some b.off := offsetToPointer_nat (by omega)
      rw [hrep] at hiff
      refine .inr ⟨d', it, p', ?_, hiff.trans (and_iff_right h64).symm⟩
      refine (Prog.bind_ok hnew).trans ?_
      refine (Prog.get_bind_run _ _).trans ?_
      rw [hpos]
      exact (Prog.bind_ok (advance_run b.off i p1)).trans hins
    · exact .inl ⟨by omega, e, Prog.bind_throw hthrow⟩
  · rw [if_neg hgrow]
    by_cases h64 : k + n < 2^64
    · rw [Nat.mod_eq_of_lt h64] at hgrow
      have hroom : ∀ b ∈ o, (k + n) * T.size ≤ b.size := fun b hb =>
        (hblock b hb) ▸ Nat.mul_le_mul_right _ (by omega)
      obtain ⟨d', it, p', hins, hiff, -⟩ := insertAt_kept hvals hstate h hd hik hroom fun ho => by
        have := hnone ho
        omega
      rw [hrep] at hiff
      exact .inr ⟨d', it, p', hins, hiff.trans (and_iff_right h64).symm⟩
    · -- the sum of the two sizes has wrapped
      obtain ⟨d', it, p', hins, hno⟩ := insertAt_wrapped hvals hstate h hd hp hik (by omega) (by omega)
      rw [hrep] at hno
      exact .inr ⟨d', it, p', hins, ⟨fun hi => absurd hi hno, fun hi => absurd hi.1 h64⟩⟩

/-- **What `insert(pos, count, value)` leaves** is right exactly if the block is a whole number of elements and
those behind `pos` can be shifted by `count`, also when the storage is replaced; and it throws only when it has
to replace the storage. -/
theorem insertFill_iff (h : PoolOk p l (o ++ rest)) (hd : Storage T.size d o k) (hp : p.size < 2^64) {i n : Nat}
    (hik : i ≤ k) (hn : n < 2^64) {v : Value} (hv : v.length = T.size) :
    (Whole T d → ∃ c, (capacity T d).run p = .ok c p ∧
      ((c < k + n ∧ ∃ e, (insertFill T d (iteratorAt T p d i) n v).run p = .throw e p) ∨
      ∃ d' it p', (insertFill T d (iteratorAt T p d i) n v).run p = .ok (d', it) p' ∧
        (Inserted T p p' d d' it i
            ((contents T p d).take i ++ List.replicate n v ++ (contents T p d).drop i) ↔
          k + n < 2^64 ∧ Shiftable i k n))) ∧
    (¬ Whole T d → (insertFill T d (iteratorAt T p d i) n v).run p = .stuck) := by
  constructor
  · intro hw
    obtain ⟨c, hc, -⟩ := capacity_run hd h hw
    exact ⟨c, hc, insertFill_whole h hd hp hc hik hn hv⟩
  · intro hw
    refine (Prog.get_bind_run _ _).trans ((Prog.bind_ok (insert_start h hd hik)).trans ?_)
    exact Prog.bind_stuck (capacity_stuck hd h hw)

/-- fifteen elements in front of the second of two: the block of 16 bytes has no room for them, and the vector
moves to a new one -/
theorem insertFill_iff_grows :
    ∃ d p d' it p', (newList octet (octets [1, 2])).run (Pool.new 512) = .ok d p ∧
      (insertFill octet d (iteratorAt octet p d 1) 15 [some 9]).run p = .ok (d', it) p' ∧
      Inserted octet p p' d d' it 1 (octets (1 :: List.replicate 15 9 ++ [2])) := by
  obtain ⟨d, p, l, hrun, hl, hd, hc, hsize, hcap⟩ := newOctets [1, 2] (by decide) (by decide +kernel)
  have hok : (((newList octet (octets [1, 2])).run (Pool.new 512)).toOption.map fun r =>
      ((insertFill octet r.1 (iteratorAt octet r.2 r.1 1) 15 [some 9]).run r.2).toOption.isSome) = some true := by
    decide +kernel
  obtain ⟨c, -, hinsert⟩ := (insertFill_iff (v := [some 9]) (i := 1) (n := 15) hl hd (hsize ▸ (by decide))
    (by decide) (by decide) rfl).1 (whole_of_capacity hd hl hcap)
  rcases hinsert with ⟨-, e, hthrow⟩ | ⟨d', it, p', hins, hiff⟩
  · rw [hrun, show (Prog.Outcome.ok d p).toOption = some (d, p) from rfl, Option.map_some, hthrow] at hok
    cases hok
  · rw [hc] at hiff
    exact ⟨d, p, d', it, p', hrun, hins, hiff.mpr (by decide)⟩

/-- `{1, 2}` after `insert(begin(), 4, 9)`: the elements before and after -/
def insertFour : PoolM (List Value × List Value) := do
  let d ← newList octet (octets [1, 2])
  let p ← Prog.get
  let (d', _) ← insertFill octet d (iteratorAt octet p d 0) 4 [some 9]
  let q ← Prog.get
  pure (contents octet p d, contents octet q d')

/-- the first element is lost, and nothing was ever written to the last slot -/
theorem insert_four_loses_first :
    (insertFour.run (Pool.new 512)).toOption.map Prod.fst
        = some (octets [1, 2], octets [9, 9, 9, 9, 2] ++ [[none]]) ∧
      octets [9, 9, 9, 9, 2] ++ [[none]] ≠
        (octets [1, 2]).take 0 ++ List.replicate 4 [some 9] ++ (octets [1, 2]).drop 0 :=
  ⟨by decide +kernel, by decide⟩

/-! ## `insert(pos, first, last)` -/

theorem insertRange_whole (h : PoolOk p l (o ++ rest)) (hd : Storage T.size d o k) (hp : p.size < 2^64) {c : Nat}
    (hc : (capacity T d).run p = .ok c p) {i : Nat} (hik : i ≤ k) {vs : List Value}
    (hvs : ∀ v ∈ vs, v.length = T.size) (hroom : k + vs.length ≤ c) :
    ∃ d' it p', (insertRange T d (iteratorAt T p d i) vs).run p = .ok (d', it) p' ∧
      (Inserted T p p' d d' it i ((contents T p d).take i ++ vs ++ (contents T p d).drop i) ∧
          Inside p p' d' ↔ Shiftable i k vs.length) := by
  obtain ⟨hblock, hnone, hc64⟩ := capacity_room h hd hp hc
  have hstate : ∀ (j : Nat) (r : Pool) (w : Value) (r' : Pool),
      (Prog.ofOption vs[j]? : PoolM Value).run r = .ok w r' → r' = r := by
    intro j r w r' hr
    cases hv : vs[j]? with
    | none =>
      rw [hv] at hr
      cases hr
    | some v =>
      rw [hv] at hr
      exact (Prog.Outcome.ok.inj hr).2.symm
  have hrun : (insertRange T d (iteratorAt T p d i) vs).run p
      = (insertAt T d (iteratorAt T p d i) i vs.length fun j => Prog.ofOption vs[j]?).run p := by
    refine (Prog.get_bind_run _ _).trans ?_
    refine (Prog.bind_ok (insert_start h hd hik)).trans ?_
    refine (Prog.bind_ok hc).trans ((Prog.bind_ok (size_run hd h)).trans ?_)
    rw [Nat.mod_eq_of_lt (by omega), if_neg (by omega)]
  obtain ⟨d', it, p', hins, hiff, hinside⟩ := insertAt_kept (list_vals hvs) hstate h hd hik
    (fun b hb => hblock b hb ▸ Nat.mul_le_mul_right _ hroom) fun ho => by
      have := hnone ho
      omega
  rw [range_map_getD] at hiff
  exact ⟨d', it, p', hrun.trans hins, (and_iff_left hinside).trans hiff⟩

/-- **What `insert(pos, first, last)` leaves while the storage has room** is right, and all of it inside of
the storage, exactly if the block is a whole number of elements and those behind `pos` can be shifted by the
length of the range. -/
theorem insertRange_iff (h : PoolOk p l (o ++ rest)) (hd : Storage T.size d o k) (hp : p.size < 2^64) {i : Nat}
    (hik : i ≤ k) {vs : List Value} (hvs : ∀ v ∈ vs, v.length = T.size) :
    (Whole T d → ∃ c, (capacity T d).run p = .ok c p ∧ (k + vs.length ≤ c →
      ∃ d' it p', (insertRange T d (iteratorAt T p d i) vs).run p = .ok (d', it) p' ∧
        (Inserted T p p' d d' it i ((contents T p d).take i ++ vs ++ (contents T p d).drop i) ∧
            Inside p p' d' ↔ Shiftable i k vs.length))) ∧
    (¬ Whole T d → (insertRange T d (iteratorAt T p d i) vs).run p = .stuck) := by
  constructor
  · intro hw
    obtain ⟨c, hc, -⟩ := capacity_run hd h hw
    exact ⟨c, hc, insertRange_whole h hd hp hc hik hvs⟩
  · intro hw
    refine (Prog.get_bind_run _ _).trans ((Prog.bind_ok (insert_start h hd hik)).trans ?_)
    exact Prog.bind_stuck (capacity_stuck hd h hw)

/-- two elements in front of the last two of three -/
theorem insertRange_iff_middle :
    ∃ d p d' it p', (newList octet (octets [1, 2, 3])).run (Pool.new 512) = .ok d p ∧
      (insertRange octet d (iteratorAt octet p d 1) (octets [7, 8])).run p = .ok (d', it) p' ∧
      Inserted octet p p' d d' it 1 (octets [1, 7, 8, 2, 3]) ∧ Inside p p' d' := by
  obtain ⟨d, p, l, hrun, hl, hd, hc, hsize, hcap⟩ := newOctets [1, 2, 3] (by decide) (by decide +kernel)
  obtain ⟨c, hcap', hinsert⟩ := (insertRange_iff (i := 1) hl hd (hsize ▸ (by decide)) (by decide)
    (show ∀ v ∈ octets [7, 8], v.length = octet.size by decide)).1 (whole_of_capacity hd hl hcap)
  obtain rfl := (Prog.Outcome.ok.inj (hcap.symm.trans hcap')).1
  obtain ⟨d', it, p', hins, hiff⟩ := hinsert (by decide)
  rw [hc] at hiff
  exact ⟨d, p, d', it, p', hrun, hins, hiff.mpr (by decide)⟩

/-- `{1, 2, 3}` with fourteen elements inserted in front of the second: the elements after it, the data of the
vector, and all that was constructed -/
def insertFourteen : PoolM (List Value × VecData × List (Nat × Nat)) := do
  let d ← newList octet (octets [1, 2, 3])
  let p ← Prog.get
  let (d', _) ← insertRange octet d (iteratorAt octet p d 1) (octets (List.replicate 14 9))
  let q ← Prog.get
  pure (contents octet q d', d', newElements p q)

/-- The vector moves from 32 to 80.  `pos` still points to 33, so everything from 33 up to the end of the
elements is copied 14 bytes up, over the node header at 48: the first element is lost. -/
theorem insert_fourteen_over_headers :
    ∃ xs d' es, (insertFourteen.run (Pool.new 512)).toOption.map Prod.fst = some (xs, d', es) ∧
      xs = [none] :: octets (List.replicate 14 9 ++ [2, 3]) ∧
      xs ≠ (octets [1, 2, 3]).take 1 ++ octets (List.replicate 14 9) ++ (octets [1, 2, 3]).drop 1 ∧
      d'.start = 80 ∧ (48, 1) ∈ es := by
  have hrun : (insertFourteen.run (Pool.new 512)).toOption.map (fun r =>
      (r.1.1, r.1.2.1.start, decide ((48, 1) ∈ r.1.2.2)))
      = some ([none] :: octets (List.replicate 14 9 ++ [2, 3]), 80, true) := by decide +kernel
  cases h : (insertFourteen.run (Pool.new 512)).toOption with
  | none =>
    rw [h] at hrun
    cases hrun
  | some r =>
    rw [h] at hrun
    obtain ⟨hxs, hrest⟩ := Prod.mk.inj (Option.some.inj hrun)
    obtain ⟨hstart, hes⟩ := Prod.mk.inj hrest
    refine ⟨r.1.1, r.1.2.1, r.1.2.2, rfl, hxs, ?_, hstart, of_decide_eq_true hes⟩
    rw [hxs]
    decide

end Stl
end Ipcpp
