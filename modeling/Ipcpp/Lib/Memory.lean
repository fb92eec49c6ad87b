import Mathlib

/-!
# A memory of bytes in which records of a fixed width stand

`Memory ρ` is what can be known of a memory by reading it: the bytes (`none` if nothing is known), and
the records of type `ρ` that were written as a whole and still stand.  `putRec w a r` writes a record of
width `w` at address `a`, `putBytes w a n f` writes `n` bytes; each of them destroys the records it
overlaps, and `putRec` the bytes.

The rules: what was written is read back, and everything apart from it (`Apart`) is untouched.

`extent a n` are the addresses of the `n` bytes from `a` on.
-/

/-- `[a, a + n)` and `[b, b + m)` do not meet -/
def Apart (a n b m : ℕ) : Prop := a + n ≤ b ∨ b + m ≤ a

instance (a n b m : ℕ) : Decidable (Apart a n b m) := inferInstanceAs (Decidable (_ ∨ _))

theorem Apart.symm {a n b m : ℕ} (h : Apart a n b m) : Apart b m a n := Or.symm h

structure Memory (ρ : Type) where
  record : ℕ → Option ρ
  byte : ℕ → Option UInt8

namespace Memory

section
variable {ρ : Type} (w : ℕ) (m : Memory ρ)

/-- nothing is known -/
def empty : Memory ρ := ⟨fun _ => none, fun _ => none⟩

def putRec (a : ℕ) (r : ρ) : Memory ρ where
  record b := if b = a then some r else if Apart b w a w then m.record b else none
  byte x := if a ≤ x ∧ x < a + w then none else m.byte x

def putBytes (a n : ℕ) (f : ℕ → Option UInt8) : Memory ρ where
  record b := if Apart b w a n then m.record b else none
  byte x := if a ≤ x ∧ x < a + n then f (x - a) else m.byte x

@[simp] theorem putRec_record_self (a : ℕ) (r : ρ) : (m.putRec w a r).record a = some r := by
  simp [putRec]

theorem putRec_record_of_apart {a b : ℕ} (r : ρ) (hne : b ≠ a) (h : Apart b w a w) :
    (m.putRec w a r).record b = m.record b := by
  simp [putRec, hne, h]

theorem putRec_byte {a x : ℕ} (r : ρ) (h : x < a ∨ a + w ≤ x) : (m.putRec w a r).byte x = m.byte x := by
  have hx : ¬ (a ≤ x ∧ x < a + w) := by omega
  simp [putRec, hx]

theorem putBytes_record {a n b : ℕ} (f : ℕ → Option UInt8) (h : Apart b w a n) :
    (m.putBytes w a n f).record b = m.record b := by
  simp [putBytes, h]

theorem putBytes_byte_of_mem {a n x : ℕ} (f : ℕ → Option UInt8) (h : a ≤ x) (h' : x < a + n) :
    (m.putBytes w a n f).byte x = f (x - a) := by
  simp [putBytes, h, h']

theorem putBytes_byte {a n x : ℕ} (f : ℕ → Option UInt8) (h : x < a ∨ a + n ≤ x) :
    (m.putBytes w a n f).byte x = m.byte x := by
  have hx : ¬ (a ≤ x ∧ x < a + n) := by omega
  simp [putBytes, hx]

/-- the bytes `[a, a + n)` -/
def bytes (a n : ℕ) : List (Option UInt8) := (List.range n).map fun i => m.byte (a + i)

@[simp] theorem bytes_length (a n : ℕ) : (m.bytes a n).length = n := by
  simp [bytes]

variable {m} in
theorem bytes_congr {m' : Memory ρ} {a n : ℕ}
    (h : ∀ x, a ≤ x → x < a + n → m'.byte x = m.byte x) : m'.bytes a n = m.bytes a n := by
  refine List.map_congr_left fun i hi => h (a + i) (Nat.le_add_right a i) ?_
  have := List.mem_range.mp hi
  omega

theorem putBytes_bytes (a : ℕ) (v : List (Option UInt8)) :
    (m.putBytes w a v.length fun i => v[i]?.join).bytes a v.length = v := by
  refine List.ext_getElem (by simp [bytes]) fun i _ hi => ?_
  simp only [bytes, List.getElem_map, List.getElem_range]
  rw [putBytes_byte_of_mem _ _ _ (Nat.le_add_right a i) (by omega), Nat.add_sub_cancel_left,
    List.getElem?_eq_getElem hi, Option.join_some]

end

end Memory

/-! ## extents -/

namespace Extents

def extent (a n : Nat) : Set Nat := Set.Ico a (a + n)

section
variable {a b n m : Nat}

theorem extent_zero (a : Nat) : extent a 0 = ∅ := Set.Ico_self a

theorem extent_subset (hstart : b ≤ a) (hend : a + n ≤ b + m) : extent a n ⊆ extent b m :=
  Set.Ico_subset_Ico hstart hend

/-- an extent that is not empty lies in another one exactly if its ends do -/
theorem extent_subset_iff (hn : 0 < n) : extent a n ⊆ extent b m ↔ b ≤ a ∧ a + n ≤ b + m :=
  Set.Ico_subset_Ico_iff (by omega)

theorem disjoint_of_le (h : a + n ≤ b) : Disjoint (extent a n) (extent b m) :=
  Set.disjoint_left.mpr fun _ hx hy => Nat.lt_irrefl _ (hx.2.trans_le (h.trans hy.1))

end

end Extents
