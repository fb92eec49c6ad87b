import Mathlib

/-!
# Doubly linked lists and tilings

Two ways to look at a list of chunks in a memory.

`Seg addr holds p l n`: the chunks of `l` are linked to each other in order; `holds c p n` says that
`c` stands in the memory with previous link `p` and next link `n`, and the segment as a whole hangs
between `p` and `n`.  A segment can be cut anywhere (`seg_append`), and it survives everything that
leaves its own chunks alone (`Seg.mono`).  Two memories that hold it agree on its links (`Seg.links`).

`Tiled start stop a l b`: the chunks of `l` follow each other without a gap from `a` to `b`
(`tiled_append`, `Tiled.bounds`, `Tiled.pairwise`).
-/

namespace Chunks

section Linked
variable {γ : Type*} (addr : γ → Int) (holds : γ → Int → Int → Prop)

/-- address of the first chunk, or `n` -/
def first (n : Int) : List γ → Int
  | [] => n
  | c :: _ => addr c

/-- address of the last chunk, or `p` -/
def last : Int → List γ → Int
  | p, [] => p
  | _, c :: l => last (addr c) l

def Seg : Int → List γ → Int → Prop
  | _, [], _ => True
  | p, c :: l, n => holds c p (first addr n l) ∧ Seg (addr c) l n

variable {addr holds}

@[simp] theorem first_nil (n : Int) : first addr n ([] : List γ) = n := rfl

@[simp] theorem first_cons (n : Int) (c : γ) (l : List γ) : first addr n (c :: l) = addr c := rfl

@[simp] theorem last_nil (p : Int) : last addr p ([] : List γ) = p := rfl

@[simp] theorem last_cons (p : Int) (c : γ) (l : List γ) :
    last addr p (c :: l) = last addr (addr c) l := rfl

@[simp] theorem seg_nil (p n : Int) : Seg addr holds p [] n := trivial

theorem seg_cons {p n : Int} {c : γ} {l : List γ} :
    Seg addr holds p (c :: l) n ↔ holds c p (first addr n l) ∧ Seg addr holds (addr c) l n := Iff.rfl

theorem first_append (n : Int) (l l' : List γ) :
    first addr n (l ++ l') = first addr (first addr n l') l := by
  cases l <;> rfl

theorem last_append (p : Int) (l l' : List γ) :
    last addr p (l ++ l') = last addr (last addr p l) l' := by
  induction l generalizing p with
  | nil => rfl
  | cons c l ih => exact ih (addr c)

/-- a segment cut in two -/
theorem seg_append {p n : Int} {l l' : List γ} :
    Seg addr holds p (l ++ l') n
      ↔ Seg addr holds p l (first addr n l') ∧ Seg addr holds (last addr p l) l' n := by
  induction l generalizing p with
  | nil => simp
  | cons c l ih =>
    rw [List.cons_append, seg_cons, seg_cons, ih, first_append, last_cons, and_assoc]

theorem Seg.mono {holds' : γ → Int → Int → Prop} {p n : Int} {l : List γ} (h : Seg addr holds p l n)
    (hc : ∀ c ∈ l, ∀ p n, holds c p n → holds' c p n) : Seg addr holds' p l n := by
  induction l generalizing p with
  | nil => trivial
  | cons c l ih =>
    exact ⟨hc c List.mem_cons_self _ _ h.1, ih h.2 fun d hd => hc d (List.mem_cons_of_mem _ hd)⟩

/-- two memories that both hold a segment agree on the links of its chunks -/
theorem Seg.links {holds' : γ → Int → Int → Prop} {p n : Int} {l : List γ} (h : Seg addr holds p l n)
    (h' : Seg addr holds' p l n) {c : γ} (hc : c ∈ l) : ∃ p n, holds c p n ∧ holds' c p n := by
  induction l generalizing p with
  | nil => cases hc
  | cons d l ih =>
    rcases List.mem_cons.mp hc with rfl | hc
    · exact ⟨_, _, h.1, h'.1⟩
    · exact ih h.2 h'.2 hc

end Linked

section Tiled
variable {γ : Type*} (start stop : γ → ℕ)

def Tiled : ℕ → List γ → ℕ → Prop
  | a, [], b => a = b
  | a, c :: l, b => start c = a ∧ Tiled (stop c) l b

variable {start stop}

@[simp] theorem tiled_nil {a b : ℕ} : Tiled start stop a [] b ↔ a = b := Iff.rfl

theorem tiled_cons {a b : ℕ} {c : γ} {l : List γ} :
    Tiled start stop a (c :: l) b ↔ start c = a ∧ Tiled start stop (stop c) l b := Iff.rfl

theorem tiled_append {a b : ℕ} {l l' : List γ} :
    Tiled start stop a (l ++ l') b ↔ ∃ m, Tiled start stop a l m ∧ Tiled start stop m l' b := by
  induction l generalizing a with
  | nil => simp
  | cons c l ih =>
    rw [List.cons_append, tiled_cons, ih]
    constructor
    · rintro ⟨hc, m, h, h'⟩
      exact ⟨m, ⟨hc, h⟩, h'⟩
    · rintro ⟨m, ⟨hc, h⟩, h'⟩
      exact ⟨hc, m, h, h'⟩

variable (hle : ∀ c : γ, start c ≤ stop c)
include hle

theorem Tiled.le {a b : ℕ} {l : List γ} (h : Tiled start stop a l b) : a ≤ b := by
  induction l generalizing a with
  | nil => exact Nat.le_of_eq h
  | cons c l ih => exact h.1 ▸ Nat.le_trans (hle c) (ih h.2)

theorem Tiled.bounds {a b : ℕ} {l : List γ} (h : Tiled start stop a l b) {c : γ} (hc : c ∈ l) :
    a ≤ start c ∧ stop c ≤ b := by
  induction l generalizing a with
  | nil => cases hc
  | cons d l ih =>
    rcases List.mem_cons.mp hc with rfl | hc
    · exact ⟨Nat.le_of_eq h.1.symm, h.2.le hle⟩
    · obtain ⟨h1, h2⟩ := ih h.2 hc
      have := hle d
      have := h.1
      exact ⟨by omega, h2⟩

/-- chunks further back come later -/
theorem Tiled.pairwise {a b : ℕ} {l : List γ} (h : Tiled start stop a l b) :
    l.Pairwise fun c d => stop c ≤ start d := by
  induction l generalizing a with
  | nil => exact .nil
  | cons c l ih => exact .cons (fun d hd => (h.2.bounds hle hd).1) (ih h.2)

/-- two chunks are the same, or one of them comes later -/
theorem Tiled.eq_or_apart {a b : ℕ} {l : List γ} (h : Tiled start stop a l b) {c d : γ} (hc : c ∈ l)
    (hd : d ∈ l) : c = d ∨ stop c ≤ start d ∨ stop d ≤ start c := by
  induction l generalizing a with
  | nil => cases hc
  | cons e l ih =>
    rcases List.mem_cons.mp hc with rfl | hc'
    · rcases List.mem_cons.mp hd with rfl | hd'
      · exact .inl rfl
      · exact .inr (.inl (h.2.bounds hle hd').1)
    · rcases List.mem_cons.mp hd with rfl | hd'
      · exact .inr (.inr (h.2.bounds hle hc').1)
      · exact ih h.2 hc' hd'

omit hle in
/-- every place of a tiling lies in one of its chunks -/
theorem Tiled.exists_mem {a b x : ℕ} {l : List γ} (h : Tiled start stop a l b) (hx : a ≤ x) (hx' : x < b) :
    ∃ L c R, l = L ++ c :: R ∧ start c ≤ x ∧ x < stop c := by
  induction l generalizing a with
  | nil =>
    rw [tiled_nil] at h
    omega
  | cons d l ih =>
    by_cases hd : x < stop d
    · exact ⟨[], d, l, rfl, h.1 ▸ hx, hd⟩
    · obtain ⟨L, c, R, rfl, h1, h2⟩ := ih h.2 (Nat.not_lt.mp hd)
      exact ⟨d :: L, c, R, rfl, h1, h2⟩

end Tiled

end Chunks
