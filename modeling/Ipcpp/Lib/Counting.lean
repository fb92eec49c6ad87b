import Mathlib

/-!
# Counting the entries of a list that point somewhere

A list of objects, each of which points to at most one place (`f : β → Option Nat`).  `hits f l i` is
the number of entries of `l` that point to `i`.

* `hits_set`     replacing one entry moves one pointer;
* `hits_append`  adding entries;
* `exists_split` what is before and behind an entry, from which follow
* `countP_set`, `sum_map_set`  the same for a count and for a sum over the entries, `sum_map_le`
                 and `sum_map_add_le` bounds of such a sum;
* `two_le_hits`  two positions that point to the same place, `mem_set_cases` what is left after
                 replacing one position;
* `sum_hits_le`  the hits of distinct places add up to at most the number of entries that point
                 anywhere;
* `countP_le_one`  at most one entry is counted if only one position can be;
* `sum_countP_owner`  if every counted entry has an owner below `n`, the counts by owner add up to
                 the whole.
-/

namespace Counting
open Finset

section
variable {β : Type*}

/-- `1` if `a` points to `i` -/
def hit (a : Option Nat) (i : Nat) : Nat := if a = some i then 1 else 0

@[simp] theorem hit_none (i : Nat) : hit none i = 0 := rfl

theorem hit_some (j i : Nat) : hit (some j) i = if j = i then 1 else 0 := by
  unfold hit
  by_cases h : j = i
  · rw [if_pos h, if_pos (by rw [h])]
  · rw [if_neg h, if_neg (fun e => h (Option.some.inj e))]

/-- number of entries of `l` that point to `i` -/
def hits (f : β → Option Nat) (l : List β) (i : Nat) : Nat := l.countP fun x => decide (f x = some i)

@[simp] theorem hits_nil (f : β → Option Nat) (i : Nat) : hits f [] i = 0 := rfl

theorem hits_cons (f : β → Option Nat) (x : β) (l : List β) (i : Nat) :
    hits f (x :: l) i = hit (f x) i + hits f l i := by
  simp [hits, hit, List.countP_cons, Nat.add_comm]

theorem hits_append (f : β → Option Nat) (l l' : List β) (i : Nat) :
    hits f (l ++ l') i = hits f l i + hits f l' i := by
  simp [hits]

theorem hits_singleton (f : β → Option Nat) (x : β) (i : Nat) : hits f [x] i = hit (f x) i := by
  rw [hits_cons, hits_nil, Nat.add_zero]

theorem hits_replicate (f : β → Option Nat) (n : Nat) (x : β) (h : f x = none) (i : Nat) :
    hits f (List.replicate n x) i = 0 := by
  simp [hits, h]

theorem exists_split {l : List β} {k : Nat} {x : β} (hx : l[k]? = some x) (y : β) :
    ∃ L R, l = L ++ x :: R ∧ l.set k y = L ++ y :: R := by
  obtain ⟨hk, rfl⟩ := List.getElem?_eq_some_iff.mp hx
  obtain ⟨L, R, hl, -, hset⟩ := List.exists_of_set hk
  exact ⟨L, R, hl, hset⟩

theorem countP_set (p : β → Bool) {l : List β} {k : Nat} {x : β} (hx : l[k]? = some x) (y : β) :
    (l.set k y).countP p + (if p x then 1 else 0) = l.countP p + if p y then 1 else 0 := by
  obtain ⟨L, R, rfl, hset⟩ := exists_split hx y
  rw [hset, List.countP_append, List.countP_append, List.countP_cons, List.countP_cons]
  omega

theorem sum_map_set (f : β → Nat) {l : List β} {k : Nat} {x : β} (hx : l[k]? = some x) (y : β) :
    ((l.set k y).map f).sum + f x = (l.map f).sum + f y := by
  obtain ⟨L, R, rfl, hset⟩ := exists_split hx y
  rw [hset]
  simp only [List.map_append, List.map_cons, List.sum_append, List.sum_cons]
  omega

/-- a sum of entries that are at most `c` -/
theorem sum_map_le {f : β → Nat} {c : Nat} {l : List β} (hf : ∀ x ∈ l, f x ≤ c) :
    (l.map f).sum ≤ c * l.length := by
  induction l with
  | nil => simp
  | cons z l ih =>
    have hz := hf z List.mem_cons_self
    have h := ih fun y hy => hf y (List.mem_cons_of_mem _ hy)
    rw [List.map_cons, List.sum_cons, List.length_cons, Nat.mul_succ]
    omega

theorem sum_map_add_le {f : β → Nat} {c : Nat} {l : List β} (hf : ∀ x ∈ l, f x ≤ c) {k : Nat} {x : β}
    (hx : l[k]? = some x) : (l.map f).sum + c ≤ c * l.length + f x := by
  obtain ⟨L, R, rfl, -⟩ := exists_split hx x
  have hL := sum_map_le fun y hy => hf y (List.mem_append_left _ hy)
  have hR := sum_map_le fun y hy => hf y (List.mem_append_right _ (List.mem_cons_of_mem _ hy))
  simp only [List.map_append, List.map_cons, List.sum_append, List.sum_cons, List.length_append, List.length_cons,
    Nat.mul_add, Nat.mul_succ]
  omega

theorem hits_set (f : β → Option Nat) {l : List β} {k : Nat} {x : β} (hx : l[k]? = some x) (y : β)
    (i : Nat) : hits f (l.set k y) i + hit (f x) i = hits f l i + hit (f y) i := by
  simpa [hits, hit] using countP_set (fun z => decide (f z = some i)) hx y

theorem hit_le_hits (f : β → Option Nat) {l : List β} {k : Nat} {x : β} (hx : l[k]? = some x)
    (i : Nat) : hit (f x) i ≤ hits f l i := by
  obtain ⟨L, R, rfl, -⟩ := exists_split hx x
  rw [hits_append, hits_cons]
  omega

theorem hits_eq_zero_iff (f : β → Option Nat) (l : List β) (i : Nat) :
    hits f l i = 0 ↔ ∀ x ∈ l, f x ≠ some i := by
  induction l with
  | nil => simp
  | cons x l ih =>
    rw [hits_cons, Nat.add_eq_zero_iff, ih, List.forall_mem_cons, hit]
    by_cases h : f x = some i <;> simp [h]

theorem hits_pos (f : β → Option Nat) {l : List β} {x : β} (hx : x ∈ l) {i : Nat} (hi : f x = some i) :
    0 < hits f l i := by
  rw [Nat.pos_iff_ne_zero, ne_eq, hits_eq_zero_iff]
  exact fun h => h x hx hi

/-- two positions that point to the same place -/
theorem two_le_hits (f : β → Option Nat) {l : List β} {j k : Nat} {x y : β} (hne : j ≠ k)
    (hx : l[j]? = some x) (hy : l[k]? = some y) {i : Nat} (hxi : f x = some i) (hyi : f y = some i) :
    2 ≤ hits f l i := by
  induction l generalizing j k with
  | nil => simp at hx
  | cons z l ih =>
    rw [hits_cons]
    cases j with
    | zero =>
      obtain ⟨k, rfl⟩ : ∃ k', k = k' + 1 := ⟨k - 1, by omega⟩
      have hz : z = x := by simpa using hx
      have h := hits_pos f (List.mem_of_getElem? (i := k) (by simpa using hy)) hyi
      rw [hz, hxi, hit_some, if_pos rfl]
      omega
    | succ j =>
      cases k with
      | zero =>
        have hz : z = y := by simpa using hy
        have h := hits_pos f (List.mem_of_getElem? (i := j) (by simpa using hx)) hxi
        rw [hz, hyi, hit_some, if_pos rfl]
        omega
      | succ k =>
        have h := ih (j := j) (k := k) (by omega) (by simpa using hx) (by simpa using hy)
        omega

/-- what the entries point to, after one of them was replaced -/
theorem filterMap_set_perm {γ : Type*} (f : β → Option γ) {l : List β} {k : Nat} {x : β} (hx : l[k]? = some x) (y : β) :
    ((f x).toList ++ (l.set k y).filterMap f).Perm ((f y).toList ++ l.filterMap f) := by
  have hcons : ∀ (z : β) (l : List β), (z :: l).filterMap f = (f z).toList ++ l.filterMap f := fun z l => by
    rw [List.filterMap_cons]
    cases f z <;> rfl
  obtain ⟨L, R, rfl, hset⟩ := exists_split hx y
  rw [hset, List.filterMap_append, List.filterMap_append, hcons, hcons]
  -- the entry is moved to the front, where it is replaced, and back
  refine (List.Perm.append_left _ (List.perm_append_comm_assoc _ _ _)).trans ?_
  exact (List.perm_append_comm_assoc _ _ _).trans (List.Perm.append_left _ (List.perm_append_comm_assoc _ _ _))

/-- what is in a list one entry of which was replaced: the new entry, or an entry of another
position -/
theorem mem_set_cases {l : List β} {k : Nat} {x y : β} (h : x ∈ l.set k y) :
    x = y ∨ ∃ j, j ≠ k ∧ l[j]? = some x := by
  obtain ⟨j, hj⟩ := List.mem_iff_getElem?.mp h
  rw [List.getElem?_set] at hj
  split at hj
  · split at hj
    · exact .inl (Option.some.inj hj).symm
    · cases hj
  · rename_i hne
    exact .inr ⟨j, fun h => hne h.symm, hj⟩

/-- an entry that differs from the replaced one is still there -/
theorem mem_set_of_ne {l : List β} {k : Nat} {x y z : β} (hx : l[k]? = some x) (hz : z ∈ l)
    (hne : z ≠ x) : z ∈ l.set k y := by
  obtain ⟨j, hj⟩ := List.mem_iff_getElem?.mp hz
  refine List.mem_of_getElem? (i := j) ?_
  rw [List.getElem?_set_ne, hj]
  intro hkj
  rw [hkj, hj] at hx
  exact hne (Option.some.inj hx)

/-- the hits of the places `a, ..., a + n - 1` add up to at most the number of entries that point
to one of them -/
theorem sum_hits_le (f : β → Option Nat) (l : List β) (a n : Nat) :
    ∑ j ∈ range n, hits f l (a + j)
      ≤ l.countP fun x => decide (∃ i, f x = some i ∧ a ≤ i ∧ i < a + n) := by
  induction l with
  | nil => simp
  | cons x l ih =>
    have hone : ∑ j ∈ range n, hit (f x) (a + j)
        ≤ if decide (∃ i, f x = some i ∧ a ≤ i ∧ i < a + n) = true then 1 else 0 := by
      cases hf : f x with
      | none => simp
      | some i =>
        simp only [hit_some, Option.some.injEq, exists_eq_left', decide_eq_true_eq]
        by_cases hi : a ≤ i ∧ i < a + n
        · rw [if_pos hi]
          have he : ∀ j ∈ range n, (if i = a + j then 1 else 0) = if i - a = j then 1 else 0 := by
            intro j _
            have : (i = a + j) ↔ (i - a = j) := by omega
            simp only [this]
          rw [sum_congr rfl he, sum_ite_eq]
          split <;> omega
        · rw [if_neg hi]
          refine le_of_eq (sum_eq_zero fun j hj => if_neg ?_)
          have := mem_range.mp hj
          omega
    simp only [hits_cons, sum_add_distrib, List.countP_cons]
    omega

theorem countP_le_one (p : β → Bool) (l : List β) (e : Nat)
    (h : ∀ k x, l[k]? = some x → p x = true → k = e) : l.countP p ≤ 1 := by
  induction l generalizing e with
  | nil => simp
  | cons x l ih =>
    rw [List.countP_cons]
    by_cases hx : p x = true
    · have h0 : e = 0 := (h 0 x rfl hx).symm
      have hnone : l.countP p = 0 := by
        rw [List.countP_eq_zero]
        intro y hy hpy
        obtain ⟨k, hk⟩ := List.mem_iff_getElem?.mp hy
        have := h (k + 1) y hk hpy
        omega
      rw [if_pos hx, hnone]
    · rw [if_neg hx]
      refine ih (e - 1) fun k y hk hpy => ?_
      have := h (k + 1) y hk hpy
      omega

theorem sum_countP_owner (own : β → Option Nat) (q : β → Bool) (l : List β) (n : Nat)
    (h : ∀ x ∈ l, q x = true → ∃ k, own x = some k ∧ k < n) :
    l.countP q = ∑ k ∈ range n, l.countP fun x => q x && decide (own x = some k) := by
  induction l with
  | nil => simp
  | cons x l ih =>
    have ih' := ih fun y hy => h y (List.mem_cons_of_mem _ hy)
    have hone : (if q x = true then 1 else 0)
        = ∑ k ∈ range n, if (q x && decide (own x = some k)) = true then 1 else 0 := by
      cases hq : q x with
      | false => simp
      | true =>
        obtain ⟨k, hk, hkn⟩ := h x List.mem_cons_self hq
        simp [hk, hkn]
    simp only [List.countP_cons, sum_add_distrib]
    rw [ih', hone]

end

end Counting
