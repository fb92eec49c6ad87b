import Mathlib

/-!
# Slices of a sequence

`slice f a n` are the values `f a, …, f (a + n - 1)`.  Slices that follow each other are one slice
(`slice_append`); two slices are equal if the sequences agree there (`slice_eq_iff`), so what is left when a
slice is cut (`take_slice`, `drop_slice`) or put in the middle of another one is a matter of indices.
-/

namespace Slices

section
variable {α : Type*} (f g : ℕ → α) (a b m n : ℕ)

def slice : List α := (List.range n).map fun i => f (a + i)

@[simp] theorem length_slice : (slice f a n).length = n := by
  rw [slice, List.length_map, List.length_range]

@[simp] theorem slice_zero : slice f a 0 = [] := rfl

theorem slice_append : slice f a m ++ slice f (a + m) n = slice f a (m + n) := by
  unfold slice
  rw [List.range_add, List.map_append, List.map_map]
  refine congrArg _ (List.map_congr_left fun i _ => ?_)
  exact congrArg f (Nat.add_assoc a m i)

theorem slice_succ : slice f a (n + 1) = f a :: slice f (a + 1) n := by
  rw [Nat.add_comm n 1, ← slice_append]
  rfl

variable {f g a b m n}

theorem slice_eq_iff : slice f a n = slice g b n ↔ ∀ i < n, f (a + i) = g (b + i) := by
  unfold slice
  rw [List.map_inj_left]
  exact forall_congr' fun i => by rw [List.mem_range]

theorem slice_congr (h : ∀ i < n, f (a + i) = g (b + i)) : slice f a n = slice g b n := slice_eq_iff.mpr h

theorem take_slice (h : m ≤ n) : (slice f a n).take m = slice f a m := by
  obtain ⟨k, rfl⟩ := Nat.exists_eq_add_of_le h
  rw [← slice_append, List.take_left' (length_slice f a m)]

theorem drop_slice (h : m ≤ n) : (slice f a n).drop m = slice f (a + m) (n - m) := by
  obtain ⟨k, rfl⟩ := Nat.exists_eq_add_of_le h
  rw [← slice_append, List.drop_left' (length_slice f a m), Nat.add_sub_cancel_left]

theorem getElem?_slice {i : ℕ} (h : i < n) : (slice f a n)[i]? = some (f (a + i)) := by
  rw [slice, List.getElem?_map, List.getElem?_range h]
  rfl

theorem slice_const (c : α) : slice (fun _ => c) a n = List.replicate n c := by
  rw [slice, List.map_const', List.length_range]

end

/-- two lists are compared by their beginnings of one length first -/
theorem append_lt_append_iff {α : Type*} [LinearOrder α] {xs ys l l' : List α} (h : xs.length = ys.length) :
    xs ++ l < ys ++ l' ↔ xs < ys ∨ xs = ys ∧ l < l' := by
  induction xs generalizing ys with
  | nil =>
    obtain rfl := List.length_eq_zero_iff.mp h.symm
    exact ⟨fun hlt => .inr ⟨rfl, hlt⟩, fun hor => hor.elim (fun hlt => absurd hlt (lt_irrefl _)) (·.2)⟩
  | cons x xs ih =>
    obtain ⟨y, ys, rfl⟩ := List.exists_cons_of_length_eq_add_one h.symm
    have hlen : xs.length = ys.length := Nat.succ.inj h
    rw [List.cons_append, List.cons_append, List.cons_lt_cons_iff, List.cons_lt_cons_iff, ih hlen,
      List.cons_eq_cons]
    constructor
    · rintro (hlt | ⟨rfl, hlt | ⟨rfl, hlt⟩⟩)
      · exact .inl (.inl hlt)
      · exact .inl (.inr ⟨rfl, hlt⟩)
      · exact .inr ⟨⟨rfl, rfl⟩, hlt⟩
    · rintro ((hlt | ⟨rfl, hlt⟩) | ⟨⟨rfl, rfl⟩, hlt⟩)
      · exact .inl hlt
      · exact .inr ⟨rfl, .inl hlt⟩
      · exact .inr ⟨rfl, .inr ⟨rfl, hlt⟩⟩

end Slices
