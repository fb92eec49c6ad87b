import Mathlib

/-!
# Keys that are issued and finished

A registry issues keys: descriptors, names, handles.  A key may be issued again after it was finished, so
every issue has a number of its own; `table` says which issue a key stands for now, and `ended` how often an
issue was finished.  Keys may also be used by somebody else (`Entry.other`).

`Owned r ks`, for the list `ks` of the keys that have a holder: every issue was finished exactly once, or
exactly one holder has it, and no holder has a key that is finished.  `Inv` carries it through the operations
(`Inv.issue`, `Inv.finish`, `Inv.update`, `Inv.perm`), and three lemmas say how it is lost: a key that is
issued to nobody, a key that is finished while it has a holder, a key that is issued to a second holder.
-/

inductive Entry where
  | mine (i : Nat)
  | other
deriving DecidableEq

structure Registry (K : Type) where
  table : K → Option Entry
  issued : Nat
  ended : Nat → Nat

namespace Registry

section
variable {K : Type} (r : Registry K)

def empty : Registry K := ⟨fun _ => none, 0, fun _ => 0⟩

/-- how many of the keys stand for issue `i` -/
def holders (ks : List K) (i : Nat) : Nat := ks.countP fun k => r.table k = some (.mine i)

structure Owned (ks : List K) : Prop where
  once : ∀ i < r.issued, r.ended i + r.holders ks i = 1
  live : ∀ k ∈ ks, ∃ i, r.table k = some (.mine i)

structure Inv (ks : List K) : Prop extends Owned r ks where
  lt : ∀ k i, r.table k = some (.mine i) → i < r.issued
  running : ∀ k i, r.table k = some (.mine i) → r.ended i = 0
  inj : ∀ k k' i, r.table k = some (.mine i) → r.table k' = some (.mine i) → k = k'
  fresh : ∀ i, r.issued ≤ i → r.ended i = 0

variable {r} {ks : List K} {k : K}

theorem empty_inv : (empty : Registry K).Inv [] where
  once i hi := absurd hi (Nat.not_lt_zero i)
  live k hk := absurd hk List.not_mem_nil
  lt _ _ h := by cases h
  running _ _ h := by cases h
  inj _ _ _ h := by cases h
  fresh _ _ := rfl

theorem holders_congr {r' : Registry K} (h : ∀ k ∈ ks, r'.table k = r.table k) (i : Nat) :
    r'.holders ks i = r.holders ks i :=
  List.countP_congr fun k hk => by rw [h k hk]

theorem holders_cons (k : K) (ks : List K) (i : Nat) :
    r.holders (k :: ks) i = r.holders ks i + if r.table k = some (.mine i) then 1 else 0 := by
  simp [holders, List.countP_cons]

theorem holders_eq_zero {i : Nat} (h : ∀ k ∈ ks, r.table k ≠ some (.mine i)) : r.holders ks i = 0 :=
  List.countP_eq_zero.mpr fun k hk hd => h k hk (of_decide_eq_true hd)

theorem Owned.perm {ks' : List K} (h : r.Owned ks) (hp : ks.Perm ks') : r.Owned ks' where
  once i hi := by
    rw [holders, ← hp.countP_eq]
    exact h.once i hi
  live k hk := h.live k (hp.mem_iff.mpr hk)

theorem Inv.perm {ks' : List K} (h : r.Inv ks) (hp : ks.Perm ks') : r.Inv ks' where
  toOwned := h.toOwned.perm hp
  lt := h.lt
  running := h.running
  inj := h.inj
  fresh := h.fresh

/-- a key that stands for nothing, or for somebody else, has no holder -/
theorem Owned.not_mem (h : r.Owned ks) (hk : ∀ i, r.table k ≠ some (.mine i)) : k ∉ ks := fun hmem => by
  obtain ⟨i, hi⟩ := h.live k hmem
  exact hk i hi

/-- and a key that has no holder stands for nothing, or for somebody else -/
theorem Inv.not_mine (h : r.Inv ks) (hk : k ∉ ks) (i : Nat) : r.table k ≠ some (.mine i) := by
  intro hi
  have hzero : r.holders ks i = 0 := holders_eq_zero fun k' hk' he => hk (h.inj k k' i hi he ▸ hk')
  have hone := h.once i (h.lt k i hi)
  have hrun := h.running k i hi
  omega

theorem Inv.nodup (h : r.Inv ks) [DecidableEq K] : ks.Nodup := by
  refine List.nodup_iff_count_le_one.mpr fun k => ?_
  by_cases hk : k ∈ ks
  · obtain ⟨i, hi⟩ := h.live k hk
    have hle : ks.count k ≤ r.holders ks i := List.countP_mono_left fun k' _ he => by
      rw [beq_iff_eq.mp he]
      exact decide_eq_true hi
    have hone := h.once i (h.lt k i hi)
    omega
  · rw [List.count_eq_zero.mpr hk]
    exact Nat.zero_le 1

/-! ## the operations -/

variable [DecidableEq K]

variable (r) in
/-- the key `k` is issued -/
def issue (k : K) : Registry K :=
  { r with table := Function.update r.table k (some (.mine r.issued)), issued := r.issued + 1 }

variable (r) in
/-- somebody else takes the key, or gives it up -/
def update (k : K) (e : Option Entry) : Registry K := { r with table := Function.update r.table k e }

variable (r) in
/-- the key `k` is finished, whatever it stands for -/
def finish (k : K) : Registry K :=
  match r.table k with
  | some (.mine i) =>
    { r with table := Function.update r.table k none, ended := Function.update r.ended i (r.ended i + 1) }
  | _ => r.update k none

theorem issue_table_self : (r.issue k).table k = some (.mine r.issued) := Function.update_self _ _ _

theorem issue_table {k' : K} (h : k' ≠ k) : (r.issue k).table k' = r.table k' := Function.update_of_ne h _ _

theorem update_table_self {e : Option Entry} : (r.update k e).table k = e := Function.update_self _ _ _

theorem update_table {e : Option Entry} {k' : K} (h : k' ≠ k) : (r.update k e).table k' = r.table k' :=
  Function.update_of_ne h _ _

theorem finish_table_self : (r.finish k).table k = none := by
  unfold finish
  split
  · exact Function.update_self _ _ _
  · exact update_table_self

theorem Inv.issue (h : r.Inv ks) (hk : r.table k = none) : (r.issue k).Inv (k :: ks) := by
  have hkn : ∀ i, r.table k ≠ some (.mine i) := fun i hi => by
    rw [hk] at hi
    cases hi
  have hmem := h.not_mem hkn
  have hkeep : ∀ k' ∈ ks, (r.issue k).table k' = r.table k' := fun k' hk' => issue_table fun he => hmem (he ▸ hk')
  -- what stands for an old issue did so before
  have hold : ∀ k' i, (r.issue k).table k' = some (.mine i) →
      (k' = k ∧ i = r.issued) ∨ (r.table k' = some (.mine i) ∧ k' ≠ k) := by
    intro k' i hi
    by_cases he : k' = k
    · subst he
      rw [issue_table_self] at hi
      cases hi
      exact .inl ⟨rfl, rfl⟩
    · rw [issue_table he] at hi
      exact .inr ⟨hi, he⟩
  refine ⟨⟨fun i hi => ?_, fun k' hk' => ?_⟩, fun k' i hi => ?_, fun k' i hi => ?_, fun k1 k2 i h1 h2 => ?_, fun i hi => ?_⟩
  · show r.ended i + _ = 1
    rw [holders_cons, holders_congr hkeep, issue_table_self]
    rcases Nat.lt_or_eq_of_le (Nat.le_of_lt_succ hi) with hlt | heq
    · rw [if_neg fun he => by cases he; exact Nat.lt_irrefl _ hlt]
      exact h.once i hlt
    · have hzero : r.holders ks i = 0 := holders_eq_zero fun k' _ he => Nat.lt_irrefl i (heq ▸ h.lt k' i he)
      rw [hzero, heq, if_pos rfl, h.fresh _ (Nat.le_refl _)]
  · rcases List.mem_cons.mp hk' with rfl | hk'
    · exact ⟨_, issue_table_self⟩
    · rw [hkeep k' hk']
      exact h.live k' hk'
  · show i < r.issued + 1
    rcases hold k' i hi with ⟨-, rfl⟩ | ⟨hi, -⟩
    · exact Nat.lt_succ_self _
    · exact Nat.lt_succ_of_lt (h.lt k' i hi)
  · show r.ended i = 0
    rcases hold k' i hi with ⟨-, rfl⟩ | ⟨hi, -⟩
    · exact h.fresh _ (Nat.le_refl _)
    · exact h.running k' i hi
  · rcases hold k1 i h1 with ⟨rfl, rfl⟩ | ⟨h1, -⟩
    · rcases hold k2 _ h2 with ⟨rfl, -⟩ | ⟨h2, -⟩
      · rfl
      · exact absurd (h.lt k2 _ h2) (Nat.lt_irrefl _)
    · rcases hold k2 i h2 with ⟨-, rfl⟩ | ⟨h2, -⟩
      · exact absurd (h.lt k1 _ h1) (Nat.lt_irrefl _)
      · exact h.inj k1 k2 i h1 h2
  · show r.ended i = 0
    have hi' : r.issued + 1 ≤ i := hi
    exact h.fresh i (by omega)

/-- a key that has no holder changes hands elsewhere -/
theorem Inv.update {e : Option Entry} (h : r.Inv ks) (hk : k ∉ ks) (he : ∀ i, e ≠ some (.mine i)) :
    (r.update k e).Inv ks := by
  have hkeep : ∀ k' ∈ ks, (r.update k e).table k' = r.table k' := fun k' hk' =>
    update_table fun heq => hk (heq ▸ hk')
  have hold : ∀ k' i, (r.update k e).table k' = some (.mine i) → r.table k' = some (.mine i) := by
    intro k' i hi
    by_cases heq : k' = k
    · subst heq
      rw [update_table_self] at hi
      exact absurd hi (he i)
    · rwa [update_table heq] at hi
  refine ⟨⟨fun i hi => ?_, fun k' hk' => ?_⟩, fun k' i hi => h.lt k' i (hold k' i hi),
    fun k' i hi => h.running k' i (hold k' i hi), fun k1 k2 i h1 h2 => h.inj k1 k2 i (hold k1 i h1) (hold k2 i h2),
    h.fresh⟩
  · rw [holders_congr hkeep]
    exact h.once i hi
  · rw [hkeep k' hk']
    exact h.live k' hk'

/-- what stands for no issue may stand for something else afterwards -/
theorem Inv.elsewhere {e e' : Option Entry} (h : r.Inv ks) (hk : r.table k = e) (he : ∀ i, e ≠ some (.mine i))
    (he' : ∀ i, e' ≠ some (.mine i)) : (r.update k e').Inv ks :=
  h.update (h.not_mem (hk ▸ he)) he'

theorem Inv.finish_other (h : r.Inv ks) (hk : k ∉ ks) : (r.finish k).Inv ks := by
  have hne := h.not_mine hk
  unfold Registry.finish
  split
  · rename_i i hi
    exact absurd hi (hne i)
  · exact h.update hk fun i hi => by cases hi

theorem Inv.finish (h : r.Inv (k :: ks)) : (r.finish k).Inv ks := by
  obtain ⟨i, hi⟩ := h.live k List.mem_cons_self
  have hone := h.once i (h.lt k i hi)
  rw [holders_cons, if_pos hi, h.running k i hi] at hone
  have hzero : r.holders ks i = 0 := by omega
  have hmem : k ∉ ks := fun hk => by
    have hpos : 0 < r.holders ks i := List.countP_pos_iff.mpr ⟨k, hk, decide_eq_true hi⟩
    omega
  have hfin : r.finish k = { r with
      table := Function.update r.table k none, ended := Function.update r.ended i (r.ended i + 1) } := by
    unfold Registry.finish
    rw [hi]
  have hkeep : ∀ k', k' ≠ k → (r.finish k).table k' = r.table k' := fun k' hk' => by
    rw [hfin]
    exact Function.update_of_ne hk' _ _
  have hold : ∀ k' j, (r.finish k).table k' = some (.mine j) → r.table k' = some (.mine j) ∧ j ≠ i := by
    intro k' j hj
    have hne : k' ≠ k := fun he => by
      rw [he, finish_table_self] at hj
      cases hj
    rw [hkeep k' hne] at hj
    exact ⟨hj, fun he => hne (h.inj k' k i (he ▸ hj) hi)⟩
  have hended : ∀ j, j ≠ i → (r.finish k).ended j = r.ended j := fun j hj => by
    rw [hfin]
    exact Function.update_of_ne hj _ _
  have hissued : (r.finish k).issued = r.issued := by rw [hfin]
  refine ⟨⟨fun j hj => ?_, fun k' hk' => ?_⟩, fun k' j hj => ?_, fun k' j hj => ?_, fun k1 k2 j h1 h2 => ?_, fun j hj => ?_⟩
  · rw [hissued] at hj
    rw [holders_congr fun k' hk' => hkeep k' fun he => hmem (he ▸ hk')]
    by_cases hji : j = i
    · have hself : (r.finish k).ended i = r.ended i + 1 := by
        rw [hfin]
        exact Function.update_self _ _ _
      rw [hji, hself, hzero, h.running k i hi]
    · have hj' := h.once j hj
      rw [holders_cons, if_neg fun he => hji (by rw [hi] at he; cases he; rfl)] at hj'
      rw [hended j hji]
      exact hj'
  · rw [hkeep k' fun he => hmem (he ▸ hk')]
    exact h.live k' (List.mem_cons_of_mem _ hk')
  · rw [hissued]
    exact h.lt k' j (hold k' j hj).1
  · rw [hended j (hold k' j hj).2]
    exact h.running k' j (hold k' j hj).1
  · exact h.inj k1 k2 j (hold k1 j h1).1 (hold k2 j h2).1
  · rw [hissued] at hj
    have hji : j ≠ i := fun he => by
      have := h.lt k i hi
      omega
    rw [hended j hji]
    exact h.fresh j hj

/-! ## how it is lost -/

theorem Inv.not_owned_issue (h : r.Inv ks) (hk : r.table k = none) : ¬ (r.issue k).Owned ks := by
  intro ho
  have hmem : k ∉ ks := h.not_mem fun i hi => by
    rw [hk] at hi
    cases hi
  have hone := ho.once r.issued (Nat.lt_succ_self _)
  have hzero : (r.issue k).holders ks r.issued = 0 := by
    refine holders_eq_zero fun k' hk' he => ?_
    have hne : k' ≠ k := fun heq => hmem (heq ▸ hk')
    rw [issue_table hne] at he
    exact Nat.lt_irrefl _ (h.lt k' _ he)
  have hended : (r.issue k).ended r.issued = 0 := h.fresh _ (Nat.le_refl _)
  omega

/-- a key that was finished and has a holder -/
theorem not_owned_finish (hk : k ∈ ks) : ¬ (r.finish k).Owned ks := by
  intro ho
  obtain ⟨i, hi⟩ := ho.live k hk
  rw [finish_table_self] at hi
  cases hi

/-- a key that was issued to a second holder -/
theorem not_owned_issue_twice (hk : k ∈ ks) : ¬ (r.issue k).Owned (k :: ks) := by
  intro ho
  have hone := ho.once r.issued (Nat.lt_succ_self _)
  have hpos : 0 < (r.issue k).holders ks r.issued :=
    List.countP_pos_iff.mpr ⟨k, hk, decide_eq_true issue_table_self⟩
  rw [holders_cons, if_pos issue_table_self] at hone
  omega

end

end Registry
