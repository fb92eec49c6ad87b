import Mathlib

/-!
# Programs that read and write a state, throw and get stuck

`Prog ε σ α` is a program on states `σ` that returns an `α`, throws an `ε`, or is STUCK: it has done
something its language gives no meaning to.  A throw keeps the state as it is at the throw: nothing is
rolled back.

The rules say how a program runs from a given state: `bind_ok`, `bind_throw` and `bind_stuck` for
sequences, the others for the primitive programs.  `Sat p s Q E` says what comes out of `p` from `s`: `Q` of what it
returns, `E` of the state at a throw, and nothing if it is stuck.  It has a rule for each way to build a
program.

`Renames f m m'`: from every state `m` does what `m'` does, and returns `f a` where `m'` returns `a`.  So one
compares two versions of a program that name what they work on differently, such as addresses and offsets.
-/

namespace Prog

/-- what comes out of a run -/
inductive Outcome (ε σ α : Type) where
  | ok (a : α) (s : σ)
  | throw (e : ε) (s : σ)
  | stuck

/-- what was returned, and the state after it -/
def Outcome.toOption {ε σ α : Type} : Outcome ε σ α → Option (α × σ)
  | .ok a s => some (a, s)
  | _ => none

theorem Outcome.of_toOption {ε σ α : Type} {o : Outcome ε σ α} {a : α} {s : σ}
    (h : o.toOption = some (a, s)) : o = .ok a s := by
  cases o with
  | ok b t =>
    obtain ⟨rfl, rfl⟩ := Prod.mk.inj (Option.some.inj h)
    rfl
  | throw e t => cases h
  | stuck => cases h

/-- what was thrown, and the state at the throw -/
def Outcome.thrown {ε σ α : Type} : Outcome ε σ α → Option (ε × σ)
  | .throw e s => some (e, s)
  | _ => none

theorem Outcome.of_thrown {ε σ α : Type} {o : Outcome ε σ α} {e : ε} {s : σ}
    (h : o.thrown = some (e, s)) : o = .throw e s := by
  cases o with
  | ok a t => cases h
  | throw e' t =>
    obtain ⟨rfl, rfl⟩ := Prod.mk.inj (Option.some.inj h)
    rfl
  | stuck => cases h

end Prog

structure Prog (ε σ α : Type) where
  run : σ → Prog.Outcome ε σ α

namespace Prog

section
variable {ε σ α β : Type}

instance : Monad (Prog ε σ) where
  pure a := ⟨fun s => .ok a s⟩
  bind p f := ⟨fun s =>
    match p.run s with
    | .ok a t => (f a).run t
    | .throw e t => .throw e t
    | .stuck => .stuck⟩

def get : Prog ε σ σ := ⟨fun s => .ok s s⟩

def modify (f : σ → σ) : Prog ε σ Unit := ⟨fun s => .ok () (f s)⟩

def throw (e : ε) : Prog ε σ α := ⟨fun s => .throw e s⟩

/-- the value, or stuck -/
def ofOption : Option α → Prog ε σ α
  | some a => pure a
  | none => ⟨fun _ => .stuck⟩

theorem bind_ok {p : Prog ε σ α} {f : α → Prog ε σ β} {s t : σ} {a : α} (h : p.run s = .ok a t) :
    (p >>= f).run s = (f a).run t := by
  show (match p.run s with
    | .ok a t => (f a).run t
    | .throw e t => .throw e t
    | .stuck => .stuck) = _
  rw [h]

theorem bind_throw {p : Prog ε σ α} {f : α → Prog ε σ β} {s t : σ} {e : ε}
    (h : p.run s = .throw e t) : (p >>= f).run s = .throw e t := by
  show (match p.run s with
    | .ok a t => (f a).run t
    | .throw e t => .throw e t
    | .stuck => .stuck) = _
  rw [h]

theorem bind_stuck {p : Prog ε σ α} {f : α → Prog ε σ β} {s : σ} (h : p.run s = .stuck) :
    (p >>= f).run s = .stuck := by
  show (match p.run s with
    | .ok a t => (f a).run t
    | .throw e t => .throw e t
    | .stuck => .stuck) = _
  rw [h]

theorem bind_assoc {γ : Type} (p : Prog ε σ α) (f : α → Prog ε σ β) (g : β → Prog ε σ γ) (s : σ) :
    ((p >>= f) >>= g).run s = (p >>= fun a => f a >>= g).run s := by
  cases hp : p.run s with
  | ok a t =>
    rw [bind_ok hp]
    cases hf : (f a).run t with
    | ok b u => rw [bind_ok ((bind_ok hp).trans hf), bind_ok hf]
    | throw e u => rw [bind_throw ((bind_ok hp).trans hf), bind_throw hf]
    | stuck => rw [bind_stuck ((bind_ok hp).trans hf), bind_stuck hf]
  | throw e t => rw [bind_throw (bind_throw hp), bind_throw hp]
  | stuck => rw [bind_stuck (bind_stuck hp), bind_stuck hp]

/-- a sequence returns only if both of its parts do -/
theorem of_bind_ok {p : Prog ε σ α} {f : α → Prog ε σ β} {s u : σ} {b : β}
    (h : (p >>= f).run s = .ok b u) : ∃ a t, p.run s = .ok a t ∧ (f a).run t = .ok b u := by
  cases hp : p.run s with
  | ok a t => exact ⟨a, t, rfl, (bind_ok hp).symm.trans h⟩
  | throw e t =>
    rw [bind_throw hp] at h
    cases h
  | stuck =>
    rw [bind_stuck hp] at h
    cases h

@[simp] theorem get_bind_run (f : σ → Prog ε σ β) (s : σ) :
    ((get : Prog ε σ σ) >>= f).run s = (f s).run s := rfl

@[simp] theorem modify_bind_run (f : σ → σ) (g : Unit → Prog ε σ β) (s : σ) :
    ((modify f : Prog ε σ Unit) >>= g).run s = (g ()).run (f s) := rfl

/-! ## what comes out of a program -/

/-- `Q` if `p` returns, `E` if it throws -/
def Sat (p : Prog ε σ α) (s : σ) (Q : α → σ → Prop) (E : σ → Prop) : Prop :=
  match p.run s with
  | .ok a t => Q a t
  | .throw _ t => E t
  | .stuck => True

variable {p : Prog ε σ α} {s : σ} {Q : α → σ → Prop} {E : σ → Prop}

theorem Sat.bind {f : α → Prog ε σ β} {R : β → σ → Prop} (h : Sat p s Q E)
    (hf : ∀ a t, Q a t → Sat (f a) t R E) : Sat (p >>= f) s R E := by
  unfold Sat at h
  cases hp : p.run s with
  | ok a t =>
    rw [hp] at h
    have hft : Sat (f a) t R E := hf a t h
    unfold Sat at hft ⊢
    rw [bind_ok hp]
    exact hft
  | throw e t =>
    rw [hp] at h
    unfold Sat
    rw [bind_throw hp]
    exact h
  | stuck =>
    unfold Sat
    rw [bind_stuck hp]
    exact trivial

theorem Sat.mono {Q' : α → σ → Prop} {E' : σ → Prop} (h : Sat p s Q E) (hQ : ∀ a t, Q a t → Q' a t)
    (hE : ∀ t, E t → E' t) : Sat p s Q' E' := by
  unfold Sat at h ⊢
  split
  · rename_i a t hp
    rw [hp] at h
    exact hQ a t h
  · rename_i e t hp
    rw [hp] at h
    exact hE t h
  · trivial

theorem Sat.pure {a : α} (h : Q a s) : Sat (pure a : Prog ε σ α) s Q E := h

theorem Sat.throw {e : ε} (h : E s) : Sat (throw e : Prog ε σ α) s Q E := h

theorem Sat.stuck : Sat (ofOption none : Prog ε σ α) s Q E := trivial

theorem Sat.get_bind {f : σ → Prog ε σ β} {R : β → σ → Prop} (h : Sat (f s) s R E) :
    Sat (get >>= f) s R E := h

theorem Sat.modify_bind {g : σ → σ} {f : Unit → Prog ε σ β} {R : β → σ → Prop} (h : Sat (f ()) (g s) R E) :
    Sat (Prog.modify g >>= f) s R E := h

theorem Sat.modify {g : σ → σ} {R : Unit → σ → Prop} (h : R () (g s)) :
    Sat (modify g : Prog ε σ Unit) s R E := h

end

/-! ## the same program under other names -/

def Outcome.map {ε σ α β : Type} (f : α → β) : Outcome ε σ α → Outcome ε σ β
  | .ok a s => .ok (f a) s
  | .throw e s => .throw e s
  | .stuck => .stuck

section
variable {ε σ α β γ δ : Type}

def Renames (f : α → β) (m : Prog ε σ β) (m' : Prog ε σ α) : Prop := ∀ s, m.run s = (m'.run s).map f

variable {f : α → β} {m : Prog ε σ β} {m' : Prog ε σ α}

theorem renames_self (m : Prog ε σ α) : Renames id m m := by
  intro s
  cases m.run s <;> rfl

/-- under the same names nothing is different -/
theorem Renames.run_eq {m m' : Prog ε σ α} (h : Renames id m m') (s : σ) : m.run s = m'.run s :=
  (h s).trans (renames_self m' s).symm

theorem renames_pure (f : α → β) (a : α) : Renames (ε := ε) (σ := σ) f (pure (f a)) (pure a) := fun _ => rfl

theorem renames_throw (f : α → β) (e : ε) : Renames (σ := σ) f (throw e) (throw e) := fun _ => rfl

theorem renames_stuck (f : α → β) : Renames (ε := ε) (σ := σ) f (ofOption none) (ofOption none) := fun _ => rfl

/-- what comes next is renamed, too -/
theorem Renames.bind {g : γ → δ} {k : β → Prog ε σ δ} {k' : α → Prog ε σ γ} (h : Renames f m m')
    (hk : ∀ a, Renames g (k (f a)) (k' a)) : Renames g (m >>= k) (m' >>= k') := by
  intro s
  have hs := h s
  cases hm : m'.run s with
  | ok a t =>
    rw [hm] at hs
    rw [bind_ok hs, bind_ok hm]
    exact hk a t
  | throw e t =>
    rw [hm] at hs
    rw [bind_throw hs, bind_throw hm]
    rfl
  | stuck =>
    rw [hm] at hs
    rw [bind_stuck hs, bind_stuck hm]
    rfl

theorem Renames.get_bind {k : σ → Prog ε σ β} {k' : σ → Prog ε σ α} (h : ∀ s, Renames f (k s) (k' s)) :
    Renames f (get >>= k) (get >>= k') := fun s => h s s

end

end Prog
