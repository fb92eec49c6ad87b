import Mathlib

/-!
# Page tables

A table `t : ℕ → Option β` says what page `p` shows, if anything is mapped there.  `map` and `unmap` change a
range of pages, and `byte t c a` is what lies at the address `a`, for pages of `c` bytes: the page and the offset
in it.

`map_twice`: the same `n` pages mapped twice in a row repeat with period `n`.
-/

namespace Pages

section
variable {β : Type*} (t : ℕ → Option β)

def map (p n : ℕ) (f : ℕ → β) (q : ℕ) : Option β := if p ≤ q ∧ q < p + n then some (f (q - p)) else t q

def unmap (p n q : ℕ) : Option β := if p ≤ q ∧ q < p + n then none else t q

/-- the pages that `n` bytes take -/
def count (c n : ℕ) : ℕ := (n + (c - 1)) / c

def byte (c a : ℕ) : Option (β × ℕ) := (t (a / c)).map fun b => (b, a % c)

end

section
variable {β : Type*} {t : ℕ → Option β} {p n q c : ℕ} {f : ℕ → β}

theorem map_of_mem (h : p ≤ q ∧ q < p + n) : map t p n f q = some (f (q - p)) := if_pos h

theorem map_of_not_mem (h : ¬ (p ≤ q ∧ q < p + n)) : map t p n f q = t q := if_neg h

theorem unmap_of_mem (h : p ≤ q ∧ q < p + n) : unmap t p n q = none := if_pos h

theorem unmap_of_not_mem (h : ¬ (p ≤ q ∧ q < p + n)) : unmap t p n q = t q := if_neg h

theorem map_congr {g : ℕ → β} (h : ∀ i < n, f i = g i) : map t p n f = map t p n g := by
  funext q
  unfold map
  split
  · rw [h (q - p) (by omega)]
  · rfl

/-- a range that is mapped over -/
theorem map_map (t : ℕ → Option β) (p n : ℕ) (f g : ℕ → β) : map (map t p n f) p n g = map t p n g := by
  funext q
  unfold map
  split <;> rfl

theorem map_twice (t : ℕ → Option β) (p n : ℕ) (f : ℕ → β) :
    map (map t p n f) (p + n) n f = map t p (n + n) fun i => f (i % n) := by
  funext q
  unfold map
  by_cases h : p + n ≤ q ∧ q < p + n + n
  · have hmod : (q - p) % n = q - (p + n) := by
      rw [Nat.mod_eq_sub_mod (by omega), Nat.mod_eq_of_lt (by omega), Nat.sub_add_eq]
    rw [if_pos h, if_pos (by omega), ← hmod]
  · rw [if_neg h]
    by_cases h' : p ≤ q ∧ q < p + n
    · have hmod : (q - p) % n = q - p := Nat.mod_eq_of_lt (by omega)
      rw [if_pos h', if_pos (by omega)]
      exact congrArg (fun i => some (f i)) hmod.symm
    · rw [if_neg h', if_neg (by omega)]

theorem lt_count_iff (hc : 0 < c) (i n : ℕ) : i < count c n ↔ i * c < n := by
  rw [count, Nat.lt_div_iff_mul_lt hc]
  omega

theorem count_mul (hc : 0 < c) (k : ℕ) : count c (k * c) = k := by
  rw [count, Nat.add_comm, Nat.add_mul_div_right _ _ hc, Nat.div_eq_of_lt (by omega), Nat.zero_add]

theorem count_mono {m : ℕ} (h : m ≤ n) : count c m ≤ count c n := Nat.div_le_div_right (by omega)

/-- an address in page `p + x / c` -/
theorem byte_add (hc : 0 < c) (t : ℕ → Option β) (p x : ℕ) :
    byte t c (p * c + x) = (t (p + x / c)).map fun b => (b, x % c) := by
  rw [byte, Nat.add_comm, Nat.add_mul_div_right _ _ hc, Nat.add_mul_mod_self_right, Nat.add_comm]

end

end Pages
