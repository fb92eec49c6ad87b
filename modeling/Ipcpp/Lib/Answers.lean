import Ipcpp.Lib.Runs

/-!
# Runs that answer

A system whose actions are calls: `call s a` is the state after the call `a` and what the call has answered,
or `none` if it does not return in `s`.  `answers call s as` is the state after the calls `as` and the list
of their answers.

`answers_rel` is the rule of a refinement under a precondition: if each call that meets `C` has the same answer
in related states and leaves related states, and does not return in both or in none, then a run whose calls all
meet `C` has the same answers.
-/

namespace Runs

section
variable {σ α β : Type*} (call : σ → α → Option (σ × β))

/-- the call as a step, its answer forgotten -/
def silent (s : σ) (a : α) : Option σ := (call s a).map Prod.fst

/-- every call of the run meets `C`, also one that does not return -/
def Obeys (C : σ → α → Prop) : σ → List α → Prop
  | _, [] => True
  | s, a :: as => C s a ∧ ∀ t, silent call s a = some t → Obeys C t as

instance Obeys.decidable (C : σ → α → Prop) [∀ s a, Decidable (C s a)] :
    (s : σ) → (as : List α) → Decidable (Obeys call C s as)
  | _, [] => isTrue trivial
  | s, a :: as =>
    match h : silent call s a with
    | none => decidable_of_iff (C s a) ⟨fun hC => ⟨hC, fun t ht => by rw [h] at ht; cases ht⟩, And.left⟩
    | some u =>
      haveI := Obeys.decidable C u as
      decidable_of_iff (C s a ∧ Obeys call C u as)
        ⟨fun hO => ⟨hO.1, fun t ht => by rw [h] at ht; exact Option.some.inj ht ▸ hO.2⟩,
          fun hO => ⟨hO.1, hO.2 u h⟩⟩

/-- the state after the calls `as`, and their answers -/
def answers : σ → List α → Option (σ × List β)
  | s, [] => some (s, [])
  | s, a :: as => (call s a).bind fun p => (answers p.1 as).map fun q => (q.1, p.2 :: q.2)

end

section
variable {σ τ α β : Type*} {call : σ → α → Option (σ × β)} {call' : τ → α → Option (τ × β)}

theorem silent_eq_some {s t : σ} {a : α} : silent call s a = some t ↔ ∃ b, call s a = some (t, b) := by
  unfold silent
  rw [Option.map_eq_some_iff]
  constructor
  · rintro ⟨⟨t, b⟩, h, rfl⟩
    exact ⟨b, h⟩
  · rintro ⟨b, h⟩
    exact ⟨(t, b), h, rfl⟩

theorem answers_cons {s u : σ} {a : α} {as : List α} {bs : List β} :
    answers call s (a :: as) = some (u, bs) ↔
      ∃ t b bs', call s a = some (t, b) ∧ answers call t as = some (u, bs') ∧ bs = b :: bs' := by
  show ((call s a).bind fun p => (answers call p.1 as).map fun q => (q.1, p.2 :: q.2)) = some (u, bs) ↔ _
  rw [Option.bind_eq_some_iff]
  constructor
  · rintro ⟨⟨t, b⟩, h, h'⟩
    obtain ⟨⟨u', bs'⟩, h'', he⟩ := Option.map_eq_some_iff.mp h'
    obtain ⟨rfl, rfl⟩ := Prod.mk.inj he
    exact ⟨t, b, bs', h, h'', rfl⟩
  · rintro ⟨t, b, bs', h, h', rfl⟩
    exact ⟨(t, b), h, by rw [h']; rfl⟩

theorem answers_append {s u : σ} {as as' : List α} {bs : List β} :
    answers call s (as ++ as') = some (u, bs) ↔
      ∃ t bs₁ bs₂, answers call s as = some (t, bs₁) ∧ answers call t as' = some (u, bs₂) ∧ bs = bs₁ ++ bs₂ := by
  induction as generalizing s bs with
  | nil =>
    constructor
    · exact fun h => ⟨s, [], bs, rfl, h, rfl⟩
    · rintro ⟨t, bs₁, bs₂, h, h', rfl⟩
      obtain ⟨rfl, rfl⟩ := Prod.mk.inj (Option.some.inj h)
      exact h'
  | cons a as ih =>
    rw [List.cons_append, answers_cons]
    constructor
    · rintro ⟨t, b, bs', h, h', rfl⟩
      obtain ⟨t', bs₁, bs₂, h₁, h₂, rfl⟩ := ih.mp h'
      exact ⟨t', b :: bs₁, bs₂, answers_cons.mpr ⟨t, b, bs₁, h, h₁, rfl⟩, h₂, rfl⟩
    · rintro ⟨t', bs₁, bs₂, h, h', rfl⟩
      obtain ⟨t, b, bs', h₁, h₂, rfl⟩ := answers_cons.mp h
      exact ⟨t, b, bs' ++ bs₂, h₁, ih.mpr ⟨t', bs', bs₂, h₂, h', rfl⟩, rfl⟩

theorem obeys_of_forall {C : σ → α → Prop} (h : ∀ s a, C s a) (s : σ) (as : List α) : Obeys call C s as := by
  induction as generalizing s with
  | nil => exact trivial
  | cons a as ih => exact ⟨h s a, fun t _ => ih t⟩

theorem obeys_append {C : σ → α → Prop} {s : σ} {as as' : List α} :
    Obeys call C s (as ++ as') ↔
      Obeys call C s as ∧ ∀ t bs, answers call s as = some (t, bs) → Obeys call C t as' := by
  induction as generalizing s with
  | nil =>
    constructor
    · refine fun h => ⟨trivial, fun t bs ht => ?_⟩
      exact (Prod.mk.inj (Option.some.inj ht)).1 ▸ h
    · exact fun h => h.2 s [] rfl
  | cons a as ih =>
    constructor
    · rintro ⟨hC, hobeys⟩
      refine ⟨⟨hC, fun t ht => (ih.mp (hobeys t ht)).1⟩, fun u bs hu => ?_⟩
      obtain ⟨t, b, bs', ht, h', -⟩ := answers_cons.mp hu
      exact (ih.mp (hobeys t (silent_eq_some.mpr ⟨b, ht⟩))).2 u bs' h'
    · rintro ⟨⟨hC, hobeys⟩, hrest⟩
      refine ⟨hC, fun t ht => ih.mpr ⟨hobeys t ht, fun u bs hu => ?_⟩⟩
      obtain ⟨b, hb⟩ := silent_eq_some.mp ht
      exact hrest u (b :: bs) (answers_cons.mpr ⟨t, b, bs, hb, hu, rfl⟩)

/-- the states are those of the run -/
theorem run_silent {s u : σ} {as : List α} {bs : List β} (h : answers call s as = some (u, bs)) :
    run (silent call) s as = some u := by
  induction as generalizing s bs with
  | nil => exact congrArg some (Prod.mk.inj (Option.some.inj h)).1
  | cons a as ih =>
    obtain ⟨t, b, bs', ht, h', -⟩ := answers_cons.mp h
    exact run_cons.mpr ⟨t, silent_eq_some.mpr ⟨b, ht⟩, ih h'⟩

/-- each call has one answer -/
theorem length_answers {s u : σ} {as : List α} {bs : List β} (h : answers call s as = some (u, bs)) :
    bs.length = as.length := by
  induction as generalizing s bs with
  | nil => exact congrArg List.length (Prod.mk.inj (Option.some.inj h)).2.symm
  | cons a as ih =>
    obtain ⟨t, b, bs', -, h', rfl⟩ := answers_cons.mp h
    rw [List.length_cons, List.length_cons, ih h']

def SameAnswer {γ : Type*} (R : σ → τ → Prop) (p : σ × γ) (q : τ × γ) : Prop := R p.1 q.1 ∧ p.2 = q.2

theorem SameAnswer.exists_of_rel {γ : Type*} {R : σ → τ → Prop} {s : σ} {b : γ} {y : Option (τ × γ)}
    (h : Option.Rel (SameAnswer R) (some (s, b)) y) : ∃ t, y = some (t, b) ∧ R s t := by
  cases h with
  | some hst =>
    rename_i q
    exact ⟨q.1, congrArg some (Prod.ext rfl hst.2.symm), hst.1⟩

theorem SameAnswer.map_snd {γ : Type*} {R : σ → τ → Prop} {x : Option (σ × γ)} {y : Option (τ × γ)}
    (h : Option.Rel (SameAnswer R) x y) : x.map Prod.snd = y.map Prod.snd := by
  cases h with
  | some hst => exact congrArg some hst.2
  | none => rfl

/-- **Calls that answer the same in related states, and leave related states, do so in whole runs.** -/
theorem answers_rel {R : σ → τ → Prop} {C : τ → α → Prop}
    (hstep : ∀ s t a, R s t → C t a → Option.Rel (SameAnswer R) (call s a) (call' t a)) (as : List α) :
    ∀ {s : σ} {t : τ}, R s t → Obeys call' C t as →
      Option.Rel (SameAnswer R) (answers call s as) (answers call' t as) := by
  induction as with
  | nil => exact fun h _ => .some ⟨h, rfl⟩
  | cons a as ih =>
    rintro s t h ⟨hC, hobeys⟩
    have ha := hstep s t a h hC
    show Option.Rel _ ((call s a).bind fun p => (answers call p.1 as).map fun q => (q.1, p.2 :: q.2))
      ((call' t a).bind fun p => (answers call' p.1 as).map fun q => (q.1, p.2 :: q.2))
    cases hs : call s a <;> cases ht : call' t a <;> rw [hs, ht] at ha
    · exact .none
    · cases ha
    · cases ha
    · rename_i p q
      cases ha with
      | some hpq =>
        have hrest := ih hpq.1 (hobeys q.1 (silent_eq_some.mpr ⟨q.2, ht⟩))
        show Option.Rel _ ((answers call p.1 as).map _) ((answers call' q.1 as).map _)
        cases hs' : answers call p.1 as <;> cases ht' : answers call' q.1 as <;> rw [hs', ht'] at hrest
        · exact .none
        · cases hrest
        · cases hrest
        · cases hrest with
          | some hr => exact .some ⟨hr.1, congrArg₂ List.cons hpq.2 hr.2⟩

end

end Runs
