import Mathlib

/-!
# Lifetimes of objects

Objects are constructed and destroyed at addresses of an arbitrary type.  A log, the last event first,
tells at every address how often that happened.

* `Sound log`    nothing was constructed over a live object, and nothing destroyed without one;
* `Alive log S`  the log is sound, and at the addresses in `S`, and only there, an object is alive.

`Alive` has a rule for a construction, for a destruction, and for a row of each, at the addresses
`f i, …, f (i + n - 1)` of a function `f` that gives every number its own address.
-/

namespace Lifetimes

inductive Event (α : Type*) where
  | construct (a : α)
  | destroy (a : α)
deriving DecidableEq

section
variable {α : Type*} [DecidableEq α]

def constructions (log : List (Event α)) (a : α) : Nat := log.count (.construct a)

def destructions (log : List (Event α)) (a : α) : Nat := log.count (.destroy a)

/-- every object was constructed where none was alive, and destroyed where one was -/
def Sound : List (Event α) → Prop
  | [] => True
  | .construct a :: log => constructions log a = destructions log a ∧ Sound log
  | .destroy a :: log => destructions log a < constructions log a ∧ Sound log

structure Alive (log : List (Event α)) (S : Set α) : Prop where
  sound : Sound log
  inside : ∀ a ∈ S, constructions log a = destructions log a + 1
  outside : ∀ a ∉ S, constructions log a = destructions log a

variable {log : List (Event α)} {S : Set α} {a b : α}

theorem constructions_construct :
    constructions (.construct a :: log) b = constructions log b + if a = b then 1 else 0 := by
  unfold constructions
  rw [List.count_cons]
  simp

theorem constructions_destroy : constructions (.destroy a :: log) b = constructions log b := by
  unfold constructions
  rw [List.count_cons]
  simp

theorem destructions_construct : destructions (.construct a :: log) b = destructions log b := by
  unfold destructions
  rw [List.count_cons]
  simp

theorem destructions_destroy :
    destructions (.destroy a :: log) b = destructions log b + if a = b then 1 else 0 := by
  unfold destructions
  rw [List.count_cons]
  simp

theorem Alive.nil : Alive ([] : List (Event α)) ∅ :=
  ⟨trivial, fun _ h => h.elim, fun _ _ => rfl⟩

theorem Alive.construct (h : Alive log S) (ha : a ∉ S) : Alive (.construct a :: log) (S ∪ {a}) := by
  refine ⟨⟨h.outside a ha, h.sound⟩, fun b hb => ?_, fun b hb => ?_⟩
  · rw [constructions_construct, destructions_construct]
    rcases hb with hb | rfl
    · rw [if_neg fun hab : a = b => ha (hab ▸ hb), Nat.add_zero, h.inside b hb]
    · rw [if_pos rfl, h.outside b ha]
  · rw [constructions_construct, destructions_construct, if_neg fun hab => hb (.inr hab.symm), Nat.add_zero]
    exact h.outside b fun hS => hb (.inl hS)

theorem Alive.destroy (h : Alive log S) (ha : a ∈ S) : Alive (.destroy a :: log) (S \ {a}) := by
  refine ⟨⟨?_, h.sound⟩, fun b hb => ?_, fun b hb => ?_⟩
  · rw [h.inside a ha]
    exact Nat.lt_succ_self _
  · rw [constructions_destroy, destructions_destroy, if_neg fun hab => hb.2 hab.symm, Nat.add_zero]
    exact h.inside b hb.1
  · rw [constructions_destroy, destructions_destroy]
    by_cases hab : a = b
    · rw [if_pos hab]
      exact hab ▸ h.inside a ha
    · rw [if_neg hab, Nat.add_zero]
      exact h.outside b fun hS => hb ⟨hS, fun hba => hab hba.symm⟩

end

/-! ## rows of addresses -/

section
variable {α : Type*} {f : Nat → α} {i : Nat}

/-- the addresses `f i, …, f (j - 1)` -/
def span (f : Nat → α) (i j : Nat) : Set α := {a | ∃ m, i ≤ m ∧ m < j ∧ f m = a}

theorem span_self : span f i i = ∅ := by
  ext a
  exact ⟨fun ⟨m, him, hmi, _⟩ => absurd hmi (by omega), fun h => h.elim⟩

theorem span_append {j k : Nat} (hij : i ≤ j) (hjk : j ≤ k) : span f i j ∪ span f j k = span f i k := by
  ext a
  constructor
  · rintro (⟨m, him, hmj, rfl⟩ | ⟨m, hjm, hmk, rfl⟩)
    · exact ⟨m, him, by omega, rfl⟩
    · exact ⟨m, by omega, hmk, rfl⟩
  · rintro ⟨m, him, hmk, rfl⟩
    by_cases hmj : m < j
    · exact .inl ⟨m, him, hmj, rfl⟩
    · exact .inr ⟨m, by omega, hmk, rfl⟩

theorem span_one : span f i (i + 1) = {f i} := by
  ext a
  constructor
  · rintro ⟨m, him, hmi, rfl⟩
    obtain rfl : m = i := by omega
    rfl
  · rintro rfl
    exact ⟨i, Nat.le_refl i, Nat.lt_succ_self i, rfl⟩

end

end Lifetimes
