import Ipcpp.Stl.PoolInvariant
import Ipcpp.Stl.VectorOps

/-!
# Moving elements inside of a vector

`_m_move_to(first, last, dst)` makes room for elements, or closes a gap, inside of the storage of a vector:
it copies the elements `[first, last)` to `dst`.  If the target begins in or right behind the source it
copies from the end backwards, as it has to; otherwise it copies forwards, but it advances `dst` and not the
iterator `dst_it` it writes through, so that every element is written to the same place.

`moved i k m j` is the slot whose element ends up in slot `j` when the slots `[i, k)` are moved to slot `m`
(`moveTo_run`).
-/

namespace Ipcpp
namespace Stl

section
variable (T : ElemType)

/-! ## iterators -/

/-- `ptr + n`; only zero can be added to a null pointer -/
def advance : Option Nat → Int → PoolM (Option Nat)
  | some a, n => pure (some ((a : Int) + n * T.size).toNat)
  | none, n => if n = 0 then pure none else Prog.ofOption none

/-- `b - a` in elements, which may be negative -/
def distance (a b : Nat) : PoolM Int :=
  if (T.size : Int) ∣ (b : Int) - a then pure (((b : Int) - a) / T.size) else Prog.ofOption none

/-- the difference of two iterators, which may both be null -/
def difference : Option Nat → Option Nat → PoolM Int
  | none, none => pure 0
  | some a, some b => distance T a b
  | _, _ => Prog.ofOption none

/-! ## `_m_move_to` -/

/-- the forward loop, with `n` elements from `first` on to go: `dst_it` stays where it is -/
def moveForward (dstIt : Nat) : Nat → Nat → PoolM Unit
  | _, 0 => pure ()
  | first, n + 1 => do
    let v ← readElement T (some first) 0
    constructAt T (some dstIt) 0 v
    moveForward dstIt (first + T.size) n

/-- the backward loop, from `offset = n - 1` down to `0` -/
def moveBackward (first dstIt : Nat) : Nat → PoolM Unit
  | 0 => pure ()
  | n + 1 => do
    let v ← readElement T (some first) n
    constructAt T (some dstIt) n v
    moveBackward first dstIt n

/-- `_m_move_to` -/
def moveTo (d : VecData) (first last dst : Option Nat) : PoolM Unit :=
  if dst = first then
    pure ()
  else do
    let first ← Prog.ofOption first
    let last ← Prog.ofOption last
    let dst ← Prog.ofOption dst
    -- `dst_it = begin() + (dst - cbegin())`
    let p ← Prog.get
    let start ← Prog.ofOption (p.offsetToPointer d.start)
    let off ← distance T start dst
    let dstIt := ((start : Int) + off * T.size).toNat
    if dst < first ∨ dst > last + T.size then
      moveForward T dstIt first ((last - first + (T.size - 1)) / T.size)
    else
      let n ← distance T first last
      moveBackward T first dstIt n.toNat

end

variable {T : ElemType} {p q : Pool}

/-! ## the two loops -/

/-- one round of either loop: the element at `a` is constructed at `b` again -/
theorem read_construct_run {β : Type} (p : Pool) (a b i j : Nat) (f : PoolM β) :
    (do
      let v ← readElement T (some a) i
      constructAt T (some b) j v
      f).run p
      = f.run (p.putElement (b + j * T.size) T.size fun t =>
          (p.memory.bytes (a + i * T.size) T.size)[t]?.join) := rfl

theorem putElement_bytes_self (p : Pool) (b : Nat) {v : Value} (hv : v.length = T.size) :
    (p.putElement b T.size fun t => v[t]?.join).memory.bytes b T.size = v := by
  have h := Memory.putBytes_bytes nodeSize p.memory b v
  rw [hv] at h
  exact h

theorem Wrote.bytes {a n b m : Nat} (h : Wrote p q a n) (hap : Apart b m a n) :
    q.memory.bytes b m = p.memory.bytes b m := by
  refine Memory.bytes_congr fun x h1 h2 => h.byte x ?_
  unfold Apart at hap
  omega

/-- **The forward loop** leaves the last element at the target, and nothing else. -/
theorem moveForward_run (dst n : Nat) : ∀ (first : Nat) (p : Pool),
    (dst + T.size ≤ first ∨ first + n * T.size ≤ dst) →
    ∃ q, (moveForward T dst first n).run p = .ok () q ∧ (n = 0 → q = p) ∧ Wrote p q dst T.size ∧
      (0 < n → q.memory.bytes dst T.size = p.memory.bytes (first + (n - 1) * T.size) T.size) ∧
      Built T p q { x | 0 < n ∧ x = dst } := by
  induction n with
  | zero =>
    intro first p _
    refine ⟨p, rfl, fun _ => rfl, Wrote.refl _ _ _, fun h => absurd h (Nat.lt_irrefl 0), ?_⟩
    exact Built.of_none rfl fun x hx => absurd hx.1 (Nat.lt_irrefl 0)
  | succ n ih =>
    intro first p hap
    rw [Nat.succ_mul] at hap
    have hw := wrote_putElement p dst T.size fun t => (p.memory.bytes first T.size)[t]?.join
    have hb := built_putElement (T := T) p dst fun t => (p.memory.bytes first T.size)[t]?.join
    have hself := putElement_bytes_self p dst (Memory.bytes_length p.memory first T.size)
    generalize hr : (p.putElement dst T.size fun t => (p.memory.bytes first T.size)[t]?.join) = r at hw hb hself
    obtain ⟨q, hrun, h0, hwq, hlast, hbq⟩ := ih (first + T.size) r (by omega)
    refine ⟨q, ?_, fun h => absurd h (Nat.succ_ne_zero n), hw.trans hwq, fun _ => ?_, ?_⟩
    · rw [← hrun, ← hr]
      exact read_construct_run p first dst 0 0 _ |>.trans (by rw [Nat.zero_mul, Nat.add_zero, Nat.add_zero])
    · rw [Nat.add_sub_cancel]
      cases n with
      | zero => rw [h0 rfl, hself, Nat.zero_mul, Nat.add_zero]
      | succ n =>
        -- what is read later was not touched by the write to `dst`
        rw [hlast (Nat.succ_pos n), Nat.add_sub_cancel]
        rw [Nat.succ_mul] at hap ⊢
        rw [hw.bytes (by unfold Apart; omega)]
        congr 1
        omega
    · refine (hb.trans hbq).congr fun x => ⟨?_, fun hx => .inl hx.2⟩
      rintro (hx | hx)
      · exact ⟨Nat.succ_pos n, hx⟩
      · exact ⟨Nat.succ_pos n, hx.2⟩

/-- **The backward loop** copies the elements, also when the target begins among them. -/
theorem moveBackward_run {first dst : Nat} (h : first ≤ dst) (n : Nat) : ∀ p : Pool,
    ∃ q, (moveBackward T first dst n).run p = .ok () q ∧ Wrote p q dst (n * T.size) ∧
      (∀ j < n, q.memory.bytes (dst + j * T.size) T.size = p.memory.bytes (first + j * T.size) T.size) ∧
      Built T p q { x | ∃ j < n, x = dst + j * T.size } := by
  induction n with
  | zero =>
    intro p
    refine ⟨p, rfl, Wrote.refl _ _ _, fun j hj => absurd hj (Nat.not_lt_zero j), ?_⟩
    exact Built.of_none rfl fun x ⟨j, hj, _⟩ => absurd hj (Nat.not_lt_zero j)
  | succ n ih =>
    intro p
    have hn : (n + 1) * T.size = n * T.size + T.size := Nat.succ_mul _ _
    have hw := wrote_putElement p (dst + n * T.size) T.size
      fun t => (p.memory.bytes (first + n * T.size) T.size)[t]?.join
    have hb := built_putElement (T := T) p (dst + n * T.size)
      fun t => (p.memory.bytes (first + n * T.size) T.size)[t]?.join
    have hself := putElement_bytes_self p (dst + n * T.size)
      (Memory.bytes_length p.memory (first + n * T.size) T.size)
    generalize hr : (p.putElement (dst + n * T.size) T.size
      fun t => (p.memory.bytes (first + n * T.size) T.size)[t]?.join) = r at hw hb hself
    obtain ⟨q, hrun, hwq, hcells, hbq⟩ := ih r
    refine ⟨q, ?_, (hw.mono (by omega) (by omega)).trans (hwq.mono (Nat.le_refl _) (by omega)), fun j hj => ?_, ?_⟩
    · rw [← hrun, ← hr]
      exact read_construct_run p first dst n n _
    · rcases Nat.lt_succ_iff_lt_or_eq.mp hj with hlt | rfl
      · -- the elements in front of this one are read when it is written already
        have hcell := cell_le T.size hlt
        rw [hcells j hlt, hw.bytes (by unfold Apart; omega)]
      · rw [hwq.bytes (by unfold Apart; omega), hself]
    · refine (hb.trans hbq).congr fun x => ⟨?_, ?_⟩
      · rintro (hx | ⟨j, hj, hx⟩)
        · exact ⟨n, Nat.lt_succ_self n, hx⟩
        · exact ⟨j, Nat.lt_succ_of_lt hj, hx⟩
      · rintro ⟨j, hj, hx⟩
        rcases Nat.lt_succ_iff_lt_or_eq.mp hj with hlt | rfl
        · exact .inr ⟨j, hlt, hx⟩
        · exact .inl hx

/-! ## slots -/

def Forward (i k m : Nat) : Prop := m < i ∨ m > k + 1

/-- slot `j` is written when the slots `[i, k)` are moved to slot `m` -/
def Target (i k m j : Nat) : Prop :=
  m ≠ i ∧ i < k ∧ ((Forward i k m ∧ j = m) ∨ (¬ Forward i k m ∧ m ≤ j ∧ j < m + (k - i)))

instance (i k m : Nat) : Decidable (Forward i k m) := inferInstanceAs (Decidable (_ ∨ _))

instance (i k m j : Nat) : Decidable (Target i k m j) :=
  inferInstanceAs (Decidable (_ ∧ _ ∧ (_ ∧ _ ∨ _ ∧ _ ∧ _)))

/-- the slot whose element is in slot `j` afterwards -/
def moved (i k m j : Nat) : Nat :=
  if Target i k m j then if Forward i k m then k - 1 else j - m + i else j

theorem moved_of_not_target {i k m j : Nat} (h : ¬ Target i k m j) : moved i k m j = j := if_neg h

theorem distance_run (a m : Nat) (p : Pool) : (distance T a (a + m * T.size)).run p = .ok (m : Int) p := by
  have hdiff : ((a + m * T.size : Nat) : Int) - a = m * T.size := by push_cast; omega
  have hpos : (T.size : Int) ≠ 0 := by have := T.pos; omega
  unfold distance
  rw [hdiff, if_pos (Int.dvd_mul_left ..), Int.mul_ediv_cancel _ hpos]
  rfl

/-- `begin() + i` -/
def iteratorAt (T : ElemType) (p : Pool) (d : VecData) (i : Nat) : Option Nat :=
  (p.offsetToPointer d.start).map fun a => a + i * T.size

theorem iteratorAt_stored {b : Block} (hb : b.off ≤ p.size) (m i : Nat) :
    iteratorAt T p (stored b T.size m) i = some (b.off + i * T.size) := by
  show (p.offsetToPointer (b.off : Nat)).map _ = _
  rw [offsetToPointer_nat hb]
  rfl

theorem advance_run (a m : Nat) (p : Pool) :
    (advance T (some a) (m : Int)).run p = .ok (some (a + m * T.size)) p := by
  have haddr : ((a : Int) + (m : Int) * T.size).toNat = a + m * T.size := by
    rw [show ((a : Int) + (m : Int) * T.size) = ((a + m * T.size : Nat) : Int) by push_cast; rfl]
    rfl
  show Prog.Outcome.ok (some ((a : Int) + (m : Int) * T.size).toNat) p = _
  rw [haddr]

theorem difference_run (a : Nat) {i j : Nat} (h : i ≤ j) (p : Pool) :
    (difference T (some (a + i * T.size)) (some (a + j * T.size))).run p = .ok ((j - i : Nat) : Int) p := by
  have hd := distance_run (T := T) (a + i * T.size) (j - i) p
  rw [Nat.add_assoc, ← Nat.add_mul, Nat.add_sub_cancel' h] at hd
  exact hd

theorem difference_start_run (a i : Nat) (p : Pool) :
    (difference T (some a) (some (a + i * T.size))).run p = .ok (i : Int) p := distance_run a i p

theorem slot_lt_iff (a i j : Nat) : a + i * T.size < a + j * T.size ↔ i < j := by
  rw [Nat.add_lt_add_iff_left]
  exact ⟨fun h => Nat.lt_of_mul_lt_mul_right h, fun h => Nat.mul_lt_mul_of_pos_right h T.pos⟩

theorem slot_eq_iff (a i j : Nat) : a + i * T.size = a + j * T.size ↔ i = j := by
  rw [Nat.add_left_cancel_iff]
  exact ⟨fun h => Nat.eq_of_mul_eq_mul_right T.pos h, fun h => by rw [h]⟩

theorem slot_apart (a : Nat) {i j : Nat} (h : i ≠ j) :
    Apart (a + i * T.size) T.size (a + j * T.size) T.size := by
  unfold Apart
  rcases Nat.lt_or_gt_of_ne h with hlt | hlt
  · have := cell_le T.size hlt
    omega
  · have := cell_le T.size hlt
    omega

theorem moveTo_unfold {d : VecData} {a i k m : Nat} (hstart : p.offsetToPointer d.start = some a)
    (hmi : m ≠ i) (hik : i ≤ k) :
    (moveTo T d (some (a + i * T.size)) (some (a + k * T.size)) (some (a + m * T.size))).run p
      = (if Forward i k m then moveForward T (a + m * T.size) (a + i * T.size) (k - i)
        else moveBackward T (a + i * T.size) (a + m * T.size) (k - i)).run p := by
  have hne : ¬ some (a + m * T.size) = some (a + i * T.size) := fun h =>
    hmi ((slot_eq_iff a m i).mp (Option.some.inj h))
  have hdst : ((a : Int) + (m : Int) * T.size).toNat = a + m * T.size := by
    have h := advance_run (T := T) a m p
    exact Option.some.inj (Prog.Outcome.ok.inj h).1
  have hlen : (a + k * T.size - (a + i * T.size) + (T.size - 1)) / T.size = k - i := by
    rw [Nat.add_sub_add_left, ← Nat.sub_mul, Nat.mul_comm, Nat.mul_add_div T.pos,
      Nat.div_eq_of_lt (Nat.sub_lt T.pos Nat.one_pos), Nat.add_zero]
  have hcond : (a + m * T.size < a + i * T.size ∨ a + m * T.size > a + k * T.size + T.size)
      ↔ Forward i k m := by
    rw [slot_lt_iff, Nat.add_assoc, ← Nat.succ_mul, gt_iff_lt, slot_lt_iff]
    exact Iff.rfl
  have hback : (distance T (a + i * T.size) (a + k * T.size)).run p = .ok ((k - i : Nat) : Int) p :=
    difference_run a hik p
  unfold moveTo
  rw [if_neg hne]
  show (Prog.ofOption (p.offsetToPointer d.start) >>= _).run p = _
  rw [hstart]
  refine (Prog.bind_ok (distance_run a m p)).trans ?_
  dsimp only
  rw [hdst, hlen]
  by_cases hf : Forward i k m
  · rw [if_pos hf, if_pos (hcond.mpr hf)]
  · rw [if_neg hf, if_neg fun h => hf (hcond.mp h)]
    exact Prog.bind_ok hback

/-- the slots that the forward loop reads and writes do not meet -/
theorem forward_apart {a i k m : Nat} (hik : i ≤ k) (hf : Forward i k m) :
    a + m * T.size + T.size ≤ a + i * T.size ∨ a + i * T.size + (k - i) * T.size ≤ a + m * T.size := by
  rcases hf with h | h
  · have := cell_le T.size h
    omega
  · refine .inr ?_
    rw [Nat.add_assoc, ← Nat.add_mul, Nat.add_sub_cancel' hik]
    exact Nat.le_of_lt ((slot_lt_iff a k m).mpr (by omega))

section
variable {d : VecData} {a i k m : Nat} (hstart : p.offsetToPointer d.start = some a) (hik : i ≤ k) (hmi : m ≠ i)
include hstart hik hmi

theorem moveTo_forward (hf : Forward i k m) :
    ∃ q, (moveTo T d (some (a + i * T.size)) (some (a + k * T.size)) (some (a + m * T.size))).run p = .ok () q ∧
      Wrote p q (a + m * T.size) ((k - i) * T.size) ∧
      (∀ j, q.memory.bytes (a + j * T.size) T.size
        = p.memory.bytes (a + moved i k m j * T.size) T.size) ∧
      Built T p q { x | ∃ j, Target i k m j ∧ x = a + j * T.size } := by
  obtain ⟨q, hrun, h0, hw, hlast, hb⟩ := moveForward_run (T := T) _ (k - i) _ p (forward_apart hik hf)
  refine ⟨q, ?_, ?_, fun j => ?_, hb.congr fun x => ?_⟩
  · rw [moveTo_unfold hstart hmi hik, if_pos hf]
    exact hrun
  · rcases Nat.eq_zero_or_pos (k - i) with hz | hpos
    · rw [h0 hz]
      exact Wrote.refl _ _ _
    · have := cell_le T.size hpos
      exact hw.mono (Nat.le_refl _) (by omega)
  · by_cases hj : Target i k m j
    · obtain ⟨-, hlt, ⟨-, rfl⟩ | ⟨hnf, -⟩⟩ := hj
      · have hlast' := hlast (Nat.sub_pos_of_lt hlt)
        have hslot : i * T.size + (k - i - 1) * T.size = (k - 1) * T.size := by
          rw [← Nat.add_mul]
          congr 1
          omega
        rw [Nat.add_assoc, hslot] at hlast'
        rw [moved, if_pos ⟨hmi, hlt, .inl ⟨hf, rfl⟩⟩, if_pos hf]
        exact hlast'
      · exact absurd hf hnf
    · rw [moved_of_not_target hj]
      by_cases hz : k - i = 0
      · rw [h0 hz]
      · have hne : j ≠ m := fun h => hj ⟨hmi, by omega, .inl ⟨hf, h⟩⟩
        exact hw.bytes (slot_apart a hne)
  · constructor
    · rintro ⟨hpos, rfl⟩
      exact ⟨m, ⟨hmi, by omega, .inl ⟨hf, rfl⟩⟩, rfl⟩
    · rintro ⟨j, ⟨-, hlt, ⟨-, rfl⟩ | ⟨hnf, -⟩⟩, rfl⟩
      · exact ⟨Nat.sub_pos_of_lt hlt, rfl⟩
      · exact absurd hf hnf

/-- `_m_move_to` by the backward loop: the slots `[m, m + (k - i))` are written -/
theorem moveTo_backward (hf : ¬ Forward i k m) :
    ∃ q, (moveTo T d (some (a + i * T.size)) (some (a + k * T.size)) (some (a + m * T.size))).run p = .ok () q ∧
      Wrote p q (a + m * T.size) ((k - i) * T.size) ∧
      (∀ j, q.memory.bytes (a + j * T.size) T.size
        = p.memory.bytes (a + moved i k m j * T.size) T.size) ∧
      Built T p q { x | ∃ j, Target i k m j ∧ x = a + j * T.size } := by
  have him : i < m := by
    unfold Forward at hf
    omega
  have hle := Nat.le_of_lt ((slot_lt_iff (T := T) a i m).mpr him)
  obtain ⟨q, hrun, hw, hcells, hb⟩ := moveBackward_run (T := T) hle (k - i) p
  refine ⟨q, ?_, hw, fun j => ?_, hb.shift.congr fun x => ?_⟩
  · rw [moveTo_unfold hstart hmi hik, if_neg hf]
    exact hrun
  · by_cases hj : Target i k m j
    · obtain ⟨-, hlt, ⟨hf', -⟩ | ⟨-, hmj, hjm⟩⟩ := hj
      · exact absurd hf' hf
      · have hcell := hcells (j - m) (by omega)
        rw [Nat.add_assoc, ← Nat.add_mul, Nat.add_sub_cancel' hmj, Nat.add_assoc, ← Nat.add_mul,
          Nat.add_comm i] at hcell
        rw [moved, if_pos ⟨hmi, hlt, .inr ⟨hf, hmj, hjm⟩⟩, if_neg hf]
        exact hcell
    · rw [moved_of_not_target hj]
      refine hw.bytes ?_
      have hout : j < m ∨ m + (k - i) ≤ j := by
        by_contra hin
        refine hj ⟨hmi, by omega, .inr ⟨hf, by omega, by omega⟩⟩
      unfold Apart
      rcases hout with h | h
      · have := cell_le T.size h
        omega
      · have := Nat.mul_le_mul_right T.size h
        rw [Nat.add_mul] at this
        omega
  · constructor
    · rintro ⟨j, hmj, hjm, hx⟩
      exact ⟨j, ⟨hmi, by omega, .inr ⟨hf, hmj, hjm⟩⟩, hx⟩
    · rintro ⟨j, ⟨-, hlt, ⟨hf', -⟩ | ⟨-, hmj, hjm⟩⟩, hx⟩
      · exact absurd hf' hf
      · exact ⟨j, hmj, hjm, hx⟩

end

/-- **`_m_move_to` inside of one block**: every slot holds the element that `moved` names, and the elements
that were constructed are the targets. -/
theorem moveTo_run {d : VecData} {a i k m : Nat} (hstart : p.offsetToPointer d.start = some a) (hik : i ≤ k) :
    ∃ q, (moveTo T d (some (a + i * T.size)) (some (a + k * T.size)) (some (a + m * T.size))).run p = .ok () q ∧
      Wrote p q (a + m * T.size) ((k - i) * T.size) ∧
      (∀ j, q.memory.bytes (a + j * T.size) T.size
        = p.memory.bytes (a + moved i k m j * T.size) T.size) ∧
      Built T p q { x | ∃ j, Target i k m j ∧ x = a + j * T.size } := by
  by_cases hmi : m = i
  · -- nothing to do
    subst hmi
    have hno : ∀ j, ¬ Target m k m j := fun j h => h.1 rfl
    refine ⟨p, ?_, Wrote.refl _ _ _, fun j => by rw [moved_of_not_target (hno j)], ?_⟩
    · unfold moveTo
      rw [if_pos rfl]
      rfl
    · exact Built.of_none rfl fun x ⟨j, hj, _⟩ => absurd hj (hno j)
  by_cases hf : Forward i k m
  · exact moveTo_forward hstart hik hmi hf
  · exact moveTo_backward hstart hik hmi hf

/-! ## capacity -/

theorem capacity_stored (b : Block) (m : Nat) {r : Pool} (hb : b.off + b.size ≤ r.size) :
    (capacity T (stored b T.size m)).run r
      = (if T.size ∣ b.size then pure (b.size / T.size) else Prog.ofOption none : PoolM Nat).run r := by
  have hdvd : (b.off ≤ b.off + b.size ∧ T.size ∣ b.off + b.size - b.off) ↔ T.size ∣ b.size := by
    rw [Nat.add_sub_cancel_left]
    exact and_iff_right (Nat.le_add_right _ _)
  refine (Prog.get_bind_run _ _).trans ?_
  show (pointerDiff T (r.offsetToPointer (b.off : Nat)) (r.offsetToPointer (b.off + b.size : Nat))).run r = _
  rw [offsetToPointer_nat (by omega), offsetToPointer_nat hb]
  show (if b.off ≤ b.off + b.size ∧ T.size ∣ b.off + b.size - b.off
    then pure ((b.off + b.size - b.off) / T.size) else Prog.ofOption none : PoolM Nat).run r = _
  rw [Nat.add_sub_cancel_left]
  rw [Nat.add_sub_cancel_left] at hdvd
  by_cases h : T.size ∣ b.size
  · rw [if_pos h, if_pos (hdvd.mpr h)]
  · rw [if_neg h, if_neg fun hno => h (hdvd.mp hno)]

theorem capacity_stored_ok {b : Block} {m c : Nat} {r : Pool} (hb : b.off + b.size ≤ r.size)
    (hc : (capacity T (stored b T.size m)).run r = .ok c r) : T.size ∣ b.size ∧ c = b.size / T.size := by
  rw [capacity_stored b m hb] at hc
  split at hc
  · rename_i h
    exact ⟨h, (Prog.Outcome.ok.inj hc).1.symm⟩
  · cases hc

section
variable {l : List Chunk} {rest : List Block} {d : VecData} {o : List Block} {k : Nat}

theorem whole_of_capacity (hd : Storage T.size d o k) (h : PoolOk p l (o ++ rest)) {c : Nat}
    (hc : (capacity T d).run p = .ok c p) : Whole T d := by
  refine hd.whole fun b hb => ?_
  have hstop := Storage.bounds h hb
  cases hd with
  | none => cases hb
  | some hk =>
    obtain rfl := List.mem_singleton.mp hb
    exact (capacity_stored_ok (by omega) hc).1

theorem capacity_stuck (hd : Storage T.size d o k) (h : PoolOk p l (o ++ rest)) (hw : ¬ Whole T d) :
    (capacity T d).run p = .stuck := by
  cases hd with
  | none => exact absurd ⟨0, rfl⟩ hw
  | @some b k hk =>
    have hdvd : ¬ T.size ∣ b.size := fun hdvd => hw ((Storage.some hk).whole fun c hc => by
      obtain rfl := List.mem_singleton.mp hc
      exact hdvd)
    have hstop := Storage.bounds h List.mem_cons_self
    rw [capacity_stored b k (by omega), if_neg hdvd]
    rfl

theorem capacity_room (h : PoolOk p l (o ++ rest)) (hd : Storage T.size d o k) (hp : p.size < 2^64) {c : Nat}
    (hc : (capacity T d).run p = .ok c p) :
    (∀ b ∈ o, c * T.size = b.size) ∧ (o = [] → c = 0) ∧ c < 2^64 := by
  obtain ⟨c', hc', hblock, hnone⟩ := capacity_run hd h (whole_of_capacity hd h hc)
  obtain rfl : c' = c := (Prog.Outcome.ok.inj (hc'.symm.trans hc)).1
  refine ⟨hblock, hnone, ?_⟩
  cases hd with
  | none =>
    rw [hnone rfl]
    decide
  | @some b k hk =>
    have hb := Storage.bounds h List.mem_cons_self
    have := hblock b List.mem_cons_self
    have : c' ≤ c' * T.size := Nat.le_mul_of_pos_right _ T.pos
    omega

end

/-! ## vectors of bytes -/

/-- `std::uint8_t` -/
def octet : ElemType := ⟨1, by decide, [some 0], by decide⟩

def octets (ns : List UInt8) : List Value := ns.map fun n => [some n]

/-- what of a run is evaluated: the block of the vector, and its capacity -/
def newBlock (ns : List UInt8) : Option (List Block × Option Nat) :=
  ((newList octet (octets ns)).run (Pool.new 512)).toOption.map fun r =>
    (own r.1, ((capacity octet r.1).run r.2).toOption.map Prod.fst)

/-- a vector of a few bytes in a pool of its own, made by the initializer list constructor: it has the first
block, of 16 bytes -/
theorem newOctets (ns : List UInt8) (hns : ns.length + 15 < 2^64) (hblock : newBlock ns = some ([⟨32, 16⟩], some 16)) :
    ∃ d p l, (newList octet (octets ns)).run (Pool.new 512) = .ok d p ∧ PoolOk p l ([⟨32, 16⟩] ++ []) ∧
      Storage octet.size d [⟨32, 16⟩] ns.length ∧ contents octet p d = octets ns ∧ p.size = 512 ∧
      (capacity octet d).run p = .ok 16 p := by
  obtain ⟨⟨d, p⟩, hdp, hfacts⟩ := Option.map_eq_some_iff.mp hblock
  obtain ⟨hown, h16⟩ := Prod.mk.inj hfacts
  have hrun := Prog.Outcome.of_toOption hdp
  have hlen : (octets ns).length = ns.length := List.length_map ..
  have hvals : ∀ v ∈ octets ns, v.length = octet.size := by
    intro v hv
    obtain ⟨n, -, rfl⟩ := List.mem_map.mp hv
    rfl
  have hspec : Spec octet (Pool.new 512) [] (newList octet (octets ns)) (octets ns) :=
    newList_spec (Pool.new_ok (by decide)) (by rw [hlen]; show ns.length * 1 + 15 < 2^64; omega) hvals
  rcases hspec with ⟨d', p', hrun', hafter⟩ | ⟨e, hrun'⟩
  · obtain ⟨rfl, rfl⟩ := Prog.Outcome.ok.inj (hrun.symm.trans hrun')
    obtain ⟨l, hl⟩ := hafter.ok
    obtain ⟨k, hk⟩ := hafter.stored
    have hk' : k = ns.length := by
      have hc := hk.length_contents (p := p)
      rw [hafter.contents, hlen] at hc
      exact hc.symm
    have hwhole : Whole octet d := ⟨_, (Int.one_mul _).symm⟩
    obtain ⟨c, hcap, -⟩ := capacity_run hk (show PoolOk _ l (own d ++ []) from hl) hwhole
    dsimp only at hown h16
    rw [hcap] at h16
    obtain rfl : c = 16 := Option.some.inj h16
    rw [hown] at hk hl
    exact ⟨d, p, l, hrun, hl, hk' ▸ hk, hafter.contents, hafter.size, hcap⟩
  · rw [hrun'] at hrun
    cases hrun

end Stl
end Ipcpp
