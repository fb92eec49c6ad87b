import Mathlib

/-!
# Sections under a lock

Threads work on shared data in sections: each access maps the data and the local variables of its thread.  A
lock decides who is in a section; `writing i` and `reading i` say what it has given to thread `i`.  `Record`
keeps, next to the data, what every thread has done since it took the lock, and the list of the sections that
are over, in the order in which they ended.

`Serial d log e`: running the sections of the list one after the other, each as a whole, leads from `d` to `e`
and leaves every thread the local variables that it had at the end of its section.  `Inv`: this holds of what
was recorded, and what is going on looks as if it had the data to itself.  It is kept when a section begins
(`begin`), by each access (`write`, `read`) and when a section ends (`finish`), if a thread that writes is
alone.
-/

namespace Sections

variable {α β : Type*}

structure Section (α β : Type*) where
  thread : ℕ
  /-- the local variables at the beginning and at the end -/
  start : β
  result : β
  accesses : List (α × β → α × β)

def effect (accesses : List (α × β → α × β)) (p : α × β) : α × β := accesses.foldl (fun p f => f p) p

def Serial : α → List (Section α β) → α → Prop
  | d, [], e => d = e
  | d, x :: log, e => ∃ d', effect x.accesses (d, x.start) = (d', x.result) ∧ Serial d' log e

theorem effect_append (accesses : List (α × β → α × β)) (f : α × β → α × β) (p : α × β) :
    effect (accesses ++ [f]) p = f (effect accesses p) := by
  rw [effect, List.foldl_append]
  rfl

theorem Serial.append {log : List (Section α β)} {e e' : α} {x : Section α β}
    (hx : effect x.accesses (e, x.start) = (e', x.result)) :
    ∀ {d : α}, Serial d log e → Serial d (log ++ [x]) e' := by
  induction log with
  | nil =>
    intro d h
    obtain rfl : d = e := h
    exact ⟨e', hx, rfl⟩
  | cons y log ih =>
    intro d h
    obtain ⟨d', hy, h⟩ := h
    exact ⟨d', hy, ih h⟩

/-- the data, and what the threads do with it -/
structure Record (α β : Type*) where
  data : α
  locals : ℕ → β
  start : ℕ → β
  accesses : ℕ → List (α × β → α × β)
  log : List (Section α β)

namespace Record
variable (r : Record α β) (i : ℕ)

def init (d : α) (locals : ℕ → β) : Record α β := ⟨d, locals, locals, fun _ => [], []⟩

def begin : Record α β :=
  { r with start := Function.update r.start i (r.locals i), accesses := Function.update r.accesses i [] }

def access (f : α × β → α × β) : Record α β :=
  { r with
    data := (f (r.data, r.locals i)).1
    locals := Function.update r.locals i (f (r.data, r.locals i)).2
    accesses := Function.update r.accesses i (r.accesses i ++ [f]) }

def finish : Record α β := { r with log := r.log ++ [⟨i, r.start i, r.locals i, r.accesses i⟩] }

end Record

/-- an access that leaves the data alone -/
def reading (g : α → β → β) : α × β → α × β := fun p => (p.1, g p.1 p.2)

structure Inv (writing reading : ℕ → Prop) (d e : α) (r : Record α β) : Prop where
  serial : Serial d r.log e
  running : ∀ i, writing i ∨ reading i → effect (r.accesses i) (e, r.start i) = (r.data, r.locals i)
  settled : (∀ i, ¬ writing i) → r.data = e

section
variable {W R W' R' : ℕ → Prop} {d e : α} {r : Record α β} {i : ℕ}

theorem init_inv (hW : ∀ i, ¬ W i) (hR : ∀ i, ¬ R i) (d : α) (locals : ℕ → β) : Inv W R d d (.init d locals) where
  serial := rfl
  running i h := (h.elim (hW i) (hR i)).elim
  settled _ := rfl

/-- nobody has taken the lock, and no writer has given it back -/
theorem Inv.wait (h : Inv W R d e r) (hrunning : ∀ j, W' j ∨ R' j → W j ∨ R j) (hW : ∀ j, W j → W' j) :
    Inv W' R' d e r where
  serial := h.serial
  running j hj := h.running j (hrunning j hj)
  settled hnone := h.settled fun j hj => hnone j (hW j hj)

theorem Inv.begin (h : Inv W R d e r) (hnone : ∀ j, ¬ W j) (hothers : ∀ j, j ≠ i → W' j ∨ R' j → W j ∨ R j) :
    Inv W' R' d e (r.begin i) where
  serial := h.serial
  settled _ := h.settled hnone
  running j hj := by
    unfold Record.begin
    dsimp only
    by_cases hji : j = i
    · subst hji
      rw [Function.update_self, Function.update_self, ← h.settled hnone]
      rfl
    · rw [Function.update_of_ne hji, Function.update_of_ne hji]
      exact h.running j (hothers j hji hj)

theorem Inv.write (h : Inv W R d e r) (hi : W i) (halone : ∀ j, j ≠ i → ¬ (W j ∨ R j)) (f : α × β → α × β) :
    Inv W R d e (r.access i f) where
  serial := h.serial
  settled hnone := (hnone i hi).elim
  running j hj := by
    obtain rfl : j = i := by
      by_contra hji
      exact halone j hji hj
    unfold Record.access
    dsimp only
    rw [Function.update_self, Function.update_self, effect_append, h.running j (.inl hi)]

theorem Inv.read (h : Inv W R d e r) (hi : W i ∨ R i) (g : α → β → β) : Inv W R d e (r.access i (reading g)) where
  serial := h.serial
  settled := h.settled
  running j hj := by
    unfold Record.access
    dsimp only
    by_cases hji : j = i
    · subst hji
      rw [Function.update_self, Function.update_self, effect_append, h.running j hi]
    · rw [Function.update_of_ne hji, Function.update_of_ne hji]
      exact h.running j hj

/-- a writer is done: what it has made of the data is what the others find -/
theorem Inv.finish_write (h : Inv W R d e r) (hi : W i) (hnone : ∀ j, ¬ (W' j ∨ R' j)) :
    Inv W' R' d r.data (r.finish i) where
  serial := h.serial.append (h.running i (.inl hi))
  settled _ := rfl
  running j hj := (hnone j hj).elim

/-- a reader is done: it has seen the data that are still there -/
theorem Inv.finish_read (h : Inv W R d e r) (hi : R i) (hnone : ∀ j, ¬ W j)
    (hothers : ∀ j, W' j ∨ R' j → W j ∨ R j) :
    Inv W' R' d e (r.finish i) where
  serial := h.serial.append ((h.running i (.inr hi)).trans (by rw [h.settled hnone]))
  settled _ := h.settled hnone
  running j hj := h.running j (hothers j hj)

end

end Sections
