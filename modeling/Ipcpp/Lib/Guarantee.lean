import Ipcpp.Lib.Prog

/-!
# What a program leaves behind when it throws

`E` is a set of exceptions.

* `Looks p`      `p` changes nothing and does not throw;
* `Reads p`      `p` changes nothing, whether it returns or throws;
* `Never E p`    `p` throws no exception of `E`;
* `Strong E p`   the strong guarantee: if `p` throws an exception of `E`, it has changed nothing;
* `Keeps f p`    if `p` returns, the part `f` of the state is what it was.

A program may read as much as it likes before it does something with the strong guarantee
(`Reads.bind_strong`), and do what it likes behind it, as long as it does not throw from then on
(`Strong.bind_never`).  `withCleanup` runs a destructor behind a program, also when that one throws.  `zoom`
runs a program on a part of a larger state, with its exceptions renamed; what is said here carries over.
-/

namespace Prog

section
variable {ε σ α β : Type}

/-- a sequence throws only if one of its parts does -/
theorem of_bind_throw {p : Prog ε σ α} {f : α → Prog ε σ β} {s u : σ} {e : ε}
    (h : (p >>= f).run s = .throw e u) :
    p.run s = .throw e u ∨ ∃ a t, p.run s = .ok a t ∧ (f a).run t = .throw e u := by
  cases hp : p.run s with
  | ok a t => exact .inr ⟨a, t, rfl, (bind_ok hp).symm.trans h⟩
  | throw e' t =>
    rw [bind_throw hp] at h
    obtain ⟨rfl, rfl⟩ := Outcome.throw.inj h
    exact .inl rfl
  | stuck =>
    rw [bind_stuck hp] at h
    cases h

def Looks (p : Prog ε σ α) : Prop := ∀ s, p.run s = .stuck ∨ ∃ a, p.run s = .ok a s

structure Reads (p : Prog ε σ α) : Prop where
  ok : ∀ s a t, p.run s = .ok a t → t = s
  throw : ∀ s e t, p.run s = .throw e t → t = s

def Never (E : Set ε) (p : Prog ε σ α) : Prop := ∀ s e t, p.run s = .throw e t → e ∉ E

def Strong (E : Set ε) (p : Prog ε σ α) : Prop := ∀ s e t, e ∈ E → p.run s = .throw e t → t = s

/-! ## programs that change nothing -/

theorem looks_pure (a : α) : Looks (pure a : Prog ε σ α) := fun _ => .inr ⟨a, rfl⟩

theorem looks_get : Looks (get : Prog ε σ σ) := fun s => .inr ⟨s, rfl⟩

theorem looks_ofOption (x : Option α) : Looks (ofOption x : Prog ε σ α) := by
  cases x with
  | none => exact fun _ => .inl rfl
  | some a => exact looks_pure a

theorem Looks.bind {p : Prog ε σ α} {f : α → Prog ε σ β} (h : Looks p) (hf : ∀ a, Looks (f a)) :
    Looks (p >>= f) := by
  intro s
  rcases h s with hp | ⟨a, hp⟩
  · exact .inl (bind_stuck hp)
  · rw [bind_ok hp]
    exact hf a s

theorem Looks.reads {p : Prog ε σ α} (h : Looks p) : Reads p := by
  refine ⟨fun s a t hrun => ?_, fun s e t hrun => ?_⟩
  · rcases h s with hp | ⟨b, hp⟩
    · rw [hp] at hrun
      cases hrun
    · exact (Outcome.ok.inj (hp.symm.trans hrun)).2.symm
  · rcases h s with hp | ⟨b, hp⟩
    · rw [hp] at hrun
      cases hrun
    · rw [hp] at hrun
      cases hrun

theorem reads_throw (e : ε) : Reads (throw e : Prog ε σ α) := by
  refine ⟨fun s a t h => ?_, fun s e' t h => ?_⟩
  · cases h
  · exact (Outcome.throw.inj h).2.symm

theorem Reads.bind {p : Prog ε σ α} {f : α → Prog ε σ β} (h : Reads p) (hf : ∀ a, Reads (f a)) :
    Reads (p >>= f) := by
  refine ⟨fun s b u hrun => ?_, fun s e u hrun => ?_⟩
  · obtain ⟨a, t, hp, hrest⟩ := of_bind_ok hrun
    exact ((hf a).ok t b u hrest).trans (h.ok s a t hp)
  · rcases of_bind_throw hrun with hp | ⟨a, t, hp, hrest⟩
    · exact h.throw s e u hp
    · exact ((hf a).throw t e u hrest).trans (h.ok s a t hp)

/-! ## programs that do not throw -/

variable {E : Set ε}

theorem Looks.never {p : Prog ε σ α} (h : Looks p) : Never E p := by
  intro s e t hrun
  rcases h s with hp | ⟨a, hp⟩
  · rw [hp] at hrun
    cases hrun
  · rw [hp] at hrun
    cases hrun

theorem never_pure (a : α) : Never E (pure a : Prog ε σ α) := (looks_pure a).never

theorem never_modify (f : σ → σ) : Never E (modify f : Prog ε σ Unit) := by
  intro s e t h
  cases h

theorem never_throw {e : ε} (h : e ∉ E) : Never E (throw e : Prog ε σ α) := by
  intro s e' t hrun
  obtain rfl := (Outcome.throw.inj hrun).1
  exact h

theorem Never.bind {p : Prog ε σ α} {f : α → Prog ε σ β} (h : Never E p) (hf : ∀ a, Never E (f a)) :
    Never E (p >>= f) := by
  intro s e u hrun
  rcases of_bind_throw hrun with hp | ⟨a, t, -, hrest⟩
  · exact h s e u hp
  · exact hf a t e u hrest

/-! ## the strong guarantee -/

theorem Never.strong {p : Prog ε σ α} (h : Never E p) : Strong E p := by
  intro s e t he hrun
  exact absurd he (h s e t hrun)

theorem Reads.strong {p : Prog ε σ α} (h : Reads p) : Strong E p := fun s e t _ hrun => h.throw s e t hrun

theorem Reads.bind_strong {p : Prog ε σ α} {f : α → Prog ε σ β} (h : Reads p) (hf : ∀ a, Strong E (f a)) :
    Strong E (p >>= f) := by
  intro s e u he hrun
  rcases of_bind_throw hrun with hthrow | ⟨a, t, hok, hrest⟩
  · exact h.throw s e u hthrow
  · obtain rfl := h.ok s a t hok
    exact hf a t e u he hrest

theorem Strong.bind_never {p : Prog ε σ α} {f : α → Prog ε σ β} (h : Strong E p) (hf : ∀ a, Never E (f a)) :
    Strong E (p >>= f) := by
  intro s e u he hrun
  rcases of_bind_throw hrun with hthrow | ⟨a, t, -, hrest⟩
  · exact h s e u he hthrow
  · exact absurd he (hf a t e u hrest)

/-! ## a part of the state that stays -/

def Keeps {γ : Type} (f : σ → γ) (p : Prog ε σ α) : Prop := ∀ s a t, p.run s = .ok a t → f t = f s

section
variable {γ : Type} {f : σ → γ}

theorem Reads.keeps {p : Prog ε σ α} (h : Reads p) : Keeps f p := by
  intro s a t hrun
  rw [h.ok s a t hrun]

theorem keeps_modify {g : σ → σ} (h : ∀ s, f (g s) = f s) : Keeps f (modify g : Prog ε σ Unit) := by
  intro s a t hrun
  obtain rfl := (Outcome.ok.inj hrun).2
  exact h s

theorem Keeps.bind {p : Prog ε σ α} {g : α → Prog ε σ β} (h : Keeps f p) (hg : ∀ a, Keeps f (g a)) :
    Keeps f (p >>= g) := by
  intro s b u hrun
  obtain ⟨a, t, hp, hrest⟩ := of_bind_ok hrun
  exact (hg a t b u hrest).trans (h s a t hp)

end

end

/-! ## what is done on the way out -/

section
variable {ε σ α : Type}

/-- `cleanup` behind `p`, whether it returns or throws; `cleanup` itself must not throw -/
def withCleanup (p : Prog ε σ α) (cleanup : Prog ε σ Unit) : Prog ε σ α := ⟨fun s =>
  match p.run s with
  | .ok a t => match cleanup.run t with
    | .ok _ u => .ok a u
    | _ => .stuck
  | .throw e t => match cleanup.run t with
    | .ok _ u => .throw e u
    | _ => .stuck
  | .stuck => .stuck⟩

theorem of_withCleanup_throw {p : Prog ε σ α} {cleanup : Prog ε σ Unit} {s u : σ} {e : ε}
    (h : (p.withCleanup cleanup).run s = .throw e u) :
    ∃ t, p.run s = .throw e t ∧ cleanup.run t = .ok () u := by
  unfold withCleanup at h
  dsimp only at h
  split at h
  · split at h <;> cases h
  · rename_i e' t hp
    split at h
    · rename_i v hc
      obtain ⟨rfl, rfl⟩ := Outcome.throw.inj h
      exact ⟨t, hp, hc⟩
    · cases h
  · cases h

end

/-! ## programs on a part of the state -/

section
variable {ε ε' σ τ α : Type} (look : τ → σ) (put : σ → τ → τ) (err : ε → ε')

/-- `p` on the part of the state that `look` sees and `put` writes -/
def zoom (p : Prog ε σ α) : Prog ε' τ α := ⟨fun t =>
  match p.run (look t) with
  | .ok a s => .ok a (put s t)
  | .throw e s => .throw (err e) (put s t)
  | .stuck => .stuck⟩

variable {look put err} {p : Prog ε σ α}

theorem of_zoom_ok {t u : τ} {a : α} (h : (zoom look put err p).run t = .ok a u) :
    ∃ s, p.run (look t) = .ok a s ∧ put s t = u := by
  unfold zoom at h
  dsimp only at h
  split at h
  · rename_i b s hp
    obtain ⟨rfl, rfl⟩ := Outcome.ok.inj h
    exact ⟨s, hp, rfl⟩
  · cases h
  · cases h

theorem of_zoom_throw {t u : τ} {e' : ε'} (h : (zoom look put err p).run t = .throw e' u) :
    ∃ e s, p.run (look t) = .throw e s ∧ err e = e' ∧ put s t = u := by
  unfold zoom at h
  dsimp only at h
  split at h
  · cases h
  · rename_i e s hp
    obtain ⟨rfl, rfl⟩ := Outcome.throw.inj h
    exact ⟨e, s, hp, rfl, rfl⟩
  · cases h

theorem Looks.zoom (h : Looks p) (hput : ∀ t, put (look t) t = t) : Looks (zoom look put err p) := by
  intro t
  unfold Prog.zoom
  dsimp only
  rcases h (look t) with hp | ⟨a, hp⟩
  · rw [hp]
    exact .inl rfl
  · rw [hp]
    exact .inr ⟨a, congrArg _ (hput t)⟩

theorem Reads.zoom (h : Reads p) (hput : ∀ t, put (look t) t = t) : Reads (zoom look put err p) := by
  refine ⟨fun t a u hrun => ?_, fun t e' u hrun => ?_⟩
  · obtain ⟨s, hp, rfl⟩ := of_zoom_ok hrun
    rw [h.ok (look t) a s hp, hput]
  · obtain ⟨e, s, hp, -, rfl⟩ := of_zoom_throw hrun
    rw [h.throw (look t) e s hp, hput]

theorem Strong.zoom {E : Set ε'} (h : Strong (Set.preimage err E) p) (hput : ∀ t, put (look t) t = t) :
    Strong E (zoom look put err p) := by
  intro t e' u he hrun
  obtain ⟨e, s, hp, rfl, rfl⟩ := of_zoom_throw hrun
  rw [h (look t) e s he hp, hput]

theorem Never.zoom {E : Set ε'} (h : Never (Set.preimage err E) p) : Never E (zoom look put err p) := by
  intro t e' u hrun he
  obtain ⟨e, s, hp, rfl, rfl⟩ := of_zoom_throw hrun
  exact h (look t) e s hp he

end

end Prog
