import Mathlib

/-!
# Runs of a partial step function

A system is a step function `step : σ → α → Option σ`: the state after one action, or `none` if the
action is not enabled.  All nondeterminism (scheduling, the answers of the environment) sits in the
actions, so a run is a list of actions.

* `run step s as`       the state after the actions `as`, if each of them is enabled;
* `Every step C s as`   every step of the run meets `C` (a condition on the state BEFORE the step and
                        on its action);
* `Always step P s as`  every state of the run meets `P`, the first one included.

The rules: an invariant of one step is an invariant of the run (`run_inv`), an invariant of the steps
that meet `C` is one of the runs that do (`run_inv_of_every`), and if a step keeps
`P` exactly when it meets `C`, then a run stays in `P` exactly when all its steps meet `C`
(`always_iff_every`; `always_iff_every_of` if only a stronger `Q` is kept by the steps that meet `C`).
A condition on the steps may be replaced by another one that follows from it under an invariant
(`Every.of_inv`).  A measure that every step decreases bounds the length of a run (`length_le_of_decreasing`).

`run_rel` is the rule of a refinement: if related states allow the same actions and stay related, then so do
whole runs.  Where the relation is kept by some steps only, the two systems are run side by side (`both`), and
the rules of one run apply to the pair.
-/

namespace Runs

section
variable {σ α : Type*} (step : σ → α → Option σ)

/-- the state after the actions `as`, if every one of them is enabled -/
def run : σ → List α → Option σ
  | s, [] => some s
  | s, a :: as => (step s a).bind fun t => run t as

/-- every step of the run meets `C` -/
def Every (C : σ → α → Prop) : σ → List α → Prop
  | _, [] => True
  | s, a :: as => ∀ t, step s a = some t → C s a ∧ Every C t as

/-- every state of the run meets `P` -/
def Always (P : σ → Prop) : σ → List α → Prop
  | s, [] => P s
  | s, a :: as => P s ∧ ∀ t, step s a = some t → Always P t as

/-- a decidable condition can be checked along a run -/
instance Every.decidable (C : σ → α → Prop) [∀ s a, Decidable (C s a)] :
    (s : σ) → (as : List α) → Decidable (Every step C s as)
  | _, [] => isTrue trivial
  | s, a :: as =>
    match h : step s a with
    | none => isTrue fun t ht => by rw [h] at ht; cases ht
    | some u =>
      haveI := Every.decidable C u as
      decidable_of_iff (C s a ∧ Every step C u as)
        ⟨fun hC t ht => by rw [h] at ht; exact Option.some.inj ht ▸ hC, fun hE => hE u h⟩

/-- and so can a decidable property of the states -/
instance Always.decidable (P : σ → Prop) [DecidablePred P] :
    (s : σ) → (as : List α) → Decidable (Always step P s as)
  | s, [] => inferInstanceAs (Decidable (P s))
  | s, a :: as =>
    match h : step s a with
    | none => decidable_of_iff (P s) ⟨fun hP => ⟨hP, fun t ht => by rw [h] at ht; cases ht⟩, And.left⟩
    | some u =>
      haveI := Always.decidable P u as
      decidable_of_iff (P s ∧ Always step P u as)
        ⟨fun hA => ⟨hA.1, fun t ht => by rw [h] at ht; exact Option.some.inj ht ▸ hA.2⟩,
          fun hA => ⟨hA.1, hA.2 u h⟩⟩

end

section
variable {σ α : Type*} {step : σ → α → Option σ}

@[simp] theorem run_nil (s : σ) : run step s [] = some s := rfl

theorem run_cons {s u : σ} {a : α} {as : List α} :
    run step s (a :: as) = some u ↔ ∃ t, step s a = some t ∧ run step t as = some u := by
  show (step s a).bind (fun t => run step t as) = some u ↔ _
  rw [Option.bind_eq_some_iff]

theorem run_append (s : σ) (as bs : List α) :
    run step s (as ++ bs) = (run step s as).bind fun t => run step t bs := by
  induction as generalizing s with
  | nil => rfl
  | cons a as ih =>
    show (step s a).bind (fun t => run step t (as ++ bs)) =
      ((step s a).bind fun t => run step t as).bind fun t => run step t bs
    rw [Option.bind_assoc]
    exact congrArg _ (funext fun t => ih t)

theorem run_inv_of_every {C : σ → α → Prop} {I : σ → Prop}
    (hstep : ∀ s a t, I s → C s a → step s a = some t → I t) (as : List α) :
    ∀ {s u : σ}, I s → Every step C s as → run step s as = some u → I u := by
  induction as with
  | nil =>
    intro s u hs _ hr
    rw [run_nil] at hr
    exact Option.some.inj hr ▸ hs
  | cons a as ih =>
    intro s u hs hC hr
    obtain ⟨t, ht, hr'⟩ := run_cons.mp hr
    obtain ⟨hCa, hC'⟩ := hC t ht
    exact ih (hstep s a t hs hCa ht) hC' hr'

theorem length_le_of_decreasing {C : σ → α → Prop} {I : σ → Prop} (μ : σ → Nat)
    (hstep : ∀ s a t, I s → C s a → step s a = some t → I t)
    (hdec : ∀ s a t, I s → C s a → step s a = some t → μ t < μ s) (as : List α) :
    ∀ {s u : σ}, I s → Every step C s as → run step s as = some u → as.length ≤ μ s := by
  induction as with
  | nil => exact fun _ _ _ => Nat.zero_le _
  | cons a as ih =>
    intro s u hs hC hr
    obtain ⟨t, ht, hr'⟩ := run_cons.mp hr
    obtain ⟨hCa, hC'⟩ := hC t ht
    have hlen := ih (hstep s a t hs hCa ht) hC' hr'
    have hlt := hdec s a t hs hCa ht
    rw [List.length_cons]
    omega

theorem always_head {P : σ → Prop} {s : σ} {as : List α} (h : Always step P s as) : P s := by
  cases as with
  | nil => exact h
  | cons a as => exact h.1

theorem every_of_forall {C : σ → α → Prop} {as : List α} (h : ∀ a ∈ as, ∀ s, C s a) (s : σ) :
    Every step C s as := by
  induction as generalizing s with
  | nil => exact trivial
  | cons a as ih =>
    exact fun t _ => ⟨h a List.mem_cons_self s, ih (fun b hb => h b (List.mem_cons_of_mem _ hb)) t⟩

theorem Always.mono {P Q : σ → Prop} (hPQ : ∀ s, P s → Q s) (as : List α) :
    ∀ {s : σ}, Always step P s as → Always step Q s as := by
  induction as with
  | nil => exact fun h => hPQ _ h
  | cons a as ih => exact fun h => ⟨hPQ _ h.1, fun t ht => ih (h.2 t ht)⟩

theorem every_congr {C D : σ → α → Prop} (h : ∀ s a t, step s a = some t → (C s a ↔ D s a)) (as : List α) :
    ∀ {s : σ}, Every step C s as ↔ Every step D s as := by
  induction as with
  | nil => exact Iff.rfl
  | cons a as ih =>
    intro s
    refine forall_congr' fun t => forall_congr' fun ht => ?_
    rw [h s a t ht, ih]

/-- steps that meet `C` keep `I`, and under `I` a step that meets `C` meets `D` -/
theorem Every.of_inv {C D : σ → α → Prop} {I : σ → Prop}
    (hstep : ∀ s a t, I s → C s a → step s a = some t → I t) (hD : ∀ s a, I s → C s a → D s a)
    (as : List α) : ∀ {s : σ}, I s → Every step C s as → Every step D s as := by
  induction as with
  | nil => exact fun _ _ => trivial
  | cons a as ih =>
    intro s hs hC t ht
    obtain ⟨hCa, hC'⟩ := hC t ht
    exact ⟨hD s a hs hCa, ih (hstep s a t hs hCa ht) hC'⟩

/-- **An invariant of every step is an invariant of every run.** -/
theorem run_inv {I : σ → Prop} (hstep : ∀ s a t, I s → step s a = some t → I t)
    (as : List α) {s u : σ} (hs : I s) (hr : run step s as = some u) : I u :=
  run_inv_of_every (fun s a t hi _ ht => hstep s a t hi ht) as hs
    (every_of_forall (C := fun _ _ => True) (fun _ _ _ => trivial) s) hr

theorem always_of_inv {I P : σ → Prop} (hP : ∀ s, I s → P s) (hstep : ∀ s a t, I s → step s a = some t → I t)
    (as : List α) : ∀ {s : σ}, I s → Always step P s as := by
  induction as with
  | nil => exact fun hs => hP _ hs
  | cons a as ih => exact fun hs => ⟨hP _ hs, fun t ht => ih (hstep _ a t hs ht)⟩

/-- **A step that keeps `Q` under `C`, and leaves `P` without**: the run stays in `P` exactly when all its
steps meet `C`. -/
theorem always_iff_every_of {C : σ → α → Prop} {P Q : σ → Prop} (hQ : ∀ s, Q s → P s)
    (hkeep : ∀ s a t, Q s → C s a → step s a = some t → Q t)
    (hleave : ∀ s a t, Q s → P t → step s a = some t → C s a) (as : List α) :
    ∀ {s : σ}, Q s → (Always step P s as ↔ Every step C s as) := by
  induction as with
  | nil => exact fun hs => ⟨fun _ => trivial, fun _ => hQ _ hs⟩
  | cons a as ih =>
    intro s hs
    constructor
    · rintro ⟨_, hA⟩ t ht
      have hC : C s a := hleave s a t hs (always_head (hA t ht)) ht
      exact ⟨hC, (ih (hkeep s a t hs hC ht)).mp (hA t ht)⟩
    · intro hE
      refine ⟨hQ s hs, fun t ht => ?_⟩
      obtain ⟨hC, hE'⟩ := hE t ht
      exact (ih (hkeep s a t hs hC ht)).mpr hE'

/-- **A step that keeps `P` exactly under `C`**: the run stays in `P` exactly when all its steps
meet `C`.  `I` is what is known of every state. -/
theorem always_iff_every {C : σ → α → Prop} {P I : σ → Prop}
    (hinv : ∀ s a t, I s → step s a = some t → I t)
    (hstep : ∀ s a t, I s → P s → step s a = some t → (P t ↔ C s a)) (as : List α)
    {s : σ} (hi : I s) (hs : P s) : Always step P s as ↔ Every step C s as := by
  refine always_iff_every_of (Q := fun s => I s ∧ P s) (fun s h => h.2) ?_ ?_ as ⟨hi, hs⟩
  · exact fun s a t h hC ht => ⟨hinv s a t h.1 ht, (hstep s a t h.1 h.2 ht).mpr hC⟩
  · exact fun s a t h hP ht => (hstep s a t h.1 h.2 ht).mp hP

end

/-! ## two systems on the same actions -/

section
variable {σ τ α : Type*} {step : σ → α → Option σ} {step' : τ → α → Option τ}

/-- **Related states allow the same actions and stay related, so whole runs do.** -/
theorem run_rel {R : σ → τ → Prop} (hstep : ∀ s t a, R s t → Option.Rel R (step s a) (step' t a)) (as : List α) :
    ∀ {s : σ} {t : τ}, R s t → Option.Rel R (run step s as) (run step' t as) := by
  induction as with
  | nil => exact fun h => .some h
  | cons a as ih =>
    intro s t h
    have ha := hstep s t a h
    show Option.Rel R ((step s a).bind fun s => run step s as) ((step' t a).bind fun t => run step' t as)
    cases hs : step s a <;> cases ht : step' t a <;> rw [hs, ht] at ha
    · exact .none
    · cases ha
    · cases ha
    · cases ha with
      | some h' => exact ih h'

theorem rel_guard {R : σ → τ → Prop} {b c : Bool} {s : σ} {t : τ} (hbc : b = c) (h : c = false → R s t) :
    Option.Rel R (if b then none else some s) (if c then none else some t) := by
  subst hbc
  cases b with
  | true => exact .none
  | false => exact .some (h rfl)

def both (step : σ → α → Option σ) (step' : τ → α → Option τ) (p : σ × τ) (a : α) : Option (σ × τ) :=
  (step p.1 a).bind fun s => (step' p.2 a).map fun t => (s, t)

theorem both_eq_some {p q : σ × τ} {a : α} :
    both step step' p a = some q ↔ step p.1 a = some q.1 ∧ step' p.2 a = some q.2 := by
  unfold both
  constructor
  · intro h
    obtain ⟨s, hs, h⟩ := Option.bind_eq_some_iff.mp h
    obtain ⟨t, ht, rfl⟩ := Option.map_eq_some_iff.mp h
    exact ⟨hs, ht⟩
  · rintro ⟨hs, ht⟩
    rw [hs, ht]
    rfl

end

end Runs
