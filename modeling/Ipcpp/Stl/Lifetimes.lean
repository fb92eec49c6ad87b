import Ipcpp.Stl.ObjectCalls
import Mathlib

/-!
# The lifetimes of the elements of a vector

`World.Proper`: in every slot of a vector up to `_m_finish` there is exactly one object, there is none
anywhere else, and none was constructed over a live one or destroyed twice.  A vector that has been
destroyed has no slots, so all that was ever constructed in its storage has been destroyed.

`World.Orderly` is the condition on the state before a step, see there; `elements_proper`: in every run all
of whose steps meet it the lifetimes are proper in every state.  Without it a second `push_back` is
enough to leave an element behind (`reallocation_leaks`).
-/

namespace Ipcpp
namespace Stl
namespace Objects
open Lifetimes Runs

section
variable (P : Params)

/-! ## the condition -/

/-- the condition on the vector in variable `k`, if there is one -/
def World.On (w : World) (k : Nat) (C : Data → Prop) : Prop :=
  match w.vec k with
  | none => True
  | some d => C d

def World.Orderly (w : World) (a : Action) : Prop :=
  match a.op with
  | .empty _ => True
  | .sized _ n => a.Orderly P n
  | .range _ n => a.Orderly P n
  | .copy _ j => w.On j fun e => a.Orderly P e.count
  | .move _ _ => True
  | .moveOther _ j => w.On j fun e => a.Orderly P e.count
  | .call k f => w.On k fun d => f.Orderly P d a
  | .copyAssign k j => k = j ∨ w.On k fun d => w.On j fun e => (Method.assign e.count).Orderly P d a
  | .swap _ _ => True
  | .destroy _ => True

instance (w : World) (k : Nat) (C : Data → Prop) [DecidablePred C] : Decidable (w.On k C) :=
  match h : w.vec k with
  | none => isTrue (by unfold World.On; rw [h]; trivial)
  | some d => decidable_of_iff (C d) (by unfold World.On; rw [h])

instance (w : World) : (a : Action) → Decidable (w.Orderly P a)
  | ⟨.empty _, _, _⟩ => isTrue trivial
  | ⟨.sized _ n, b, p⟩ => inferInstanceAs (Decidable (Action.Orderly P ⟨_, b, p⟩ n))
  | ⟨.range _ n, b, p⟩ => inferInstanceAs (Decidable (Action.Orderly P ⟨_, b, p⟩ n))
  | ⟨.copy _ j, b, p⟩ => inferInstanceAs (Decidable (w.On j fun e => Action.Orderly P ⟨_, b, p⟩ e.count))
  | ⟨.move _ _, _, _⟩ => isTrue trivial
  | ⟨.moveOther _ j, b, p⟩ => inferInstanceAs (Decidable (w.On j fun e => Action.Orderly P ⟨_, b, p⟩ e.count))
  | ⟨.call k f, b, p⟩ => inferInstanceAs (Decidable (w.On k fun d => f.Orderly P d ⟨_, b, p⟩))
  | ⟨.copyAssign k j, b, p⟩ => inferInstanceAs (Decidable
    (k = j ∨ w.On k fun d => w.On j fun e => (Method.assign e.count).Orderly P d ⟨_, b, p⟩))
  | ⟨.swap _ _, _, _⟩ => isTrue trivial
  | ⟨.destroy _, _, _⟩ => isTrue trivial

/-! ## the property -/

structure World.Proper (w : World) : Prop where
  /-- one object in each slot of a vector -/
  one : ∀ k d, w.vec k = some d → ∀ i < d.count,
    constructions w.log (slot P d.start i) = destructions w.log (slot P d.start i) + 1
  /-- and none anywhere else: what was constructed there has been destroyed -/
  none : ∀ a, (∀ k d, w.vec k = some d → ∀ i < d.count, slot P d.start i ≠ a) →
    constructions w.log a = destructions w.log a
  /-- no object was constructed over a live one, none destroyed twice -/
  sound : Sound w.log

end

/-! ## the invariant -/

namespace World

section
variable (P : Params) (w : World)

/-- the blocks of the other vectors -/
def blocks (k : Nat) : Set Block := {b | ∃ j d, j ≠ k ∧ w.vec j = some d ∧ d.start ≠ 0 ∧ b = ⟨d.start, d.bytes⟩}

/-- the addresses of their elements -/
def objects (k : Nat) : Set Nat :=
  {a | ∃ j d, j ≠ k ∧ w.vec j = some d ∧ a ∈ span (slot P d.start) 0 d.count}

/-- the addresses of the elements of one -/
def slotsOf : Option Data → Set Nat
  | none => ∅
  | some d => span (slot P d.start) 0 d.count

structure Inv : Prop where
  alive : Alive w.log {a | ∃ j d, w.vec j = some d ∧ a ∈ span (slot P d.start) 0 d.count}
  fits : ∀ k d, w.vec k = some d → d.count * P.size ≤ d.bytes
  owns : ∀ k d, w.vec k = some d → Owns (w.blocks k) d w.heap
  pos : ∀ b ∈ w.heap, 0 < b.size

end

section
variable {P : Params} {w : World} {k j : Nat} {d e : Data} {a : Action} {t : Call}

theorem init_inv : Inv P init := by
  have hvec : ∀ k d, init.vec k ≠ some d := fun _ d => (Option.some_ne_none d).symm
  refine ⟨?_, fun k d h => absurd h (hvec k d), fun k d h => absurd h (hvec k d),
    fun _ h => (List.not_mem_nil h).elim⟩
  have hempty : {a | ∃ j d, init.vec j = some d ∧ a ∈ span (slot P d.start) 0 d.count} = ∅ := by
    ext a
    exact ⟨fun ⟨j, d, h, _⟩ => absurd h (hvec j d), fun h => h.elim⟩
  rw [hempty]
  exact Alive.nil

theorem Inv.rest (h : Inv P w) (k : Nat) : Rest (w.blocks k) (w.objects P k) w.heap := by
  refine ⟨?_, ?_, h.pos⟩
  · rintro _ ⟨j, d, hjk, hd, m, _, hm, rfl⟩
    have hfit : (m + 1) * P.size ≤ d.bytes := (Nat.mul_le_mul_right _ hm).trans (h.fits j d hd)
    have hpos := P.pos
    rw [Nat.succ_mul] at hfit
    refine ⟨⟨d.start, d.bytes⟩, ⟨j, d, hjk, hd, fun h0 => ?_, rfl⟩, Nat.le_add_right _ _, ?_⟩
    · have := (h.owns j d hd).null h0
      omega
    · show d.start + m * P.size < d.start + d.bytes
      omega
  · rintro _ ⟨j, d, hjk, hd, h0, rfl⟩
    exact (h.owns j d hd).own h0

/-- the elements of all vectors, seen from variable `k` -/
theorem all_slots (P : Params) (w : World) (k : Nat) :
    {a | ∃ j d, w.vec j = some d ∧ a ∈ span (slot P d.start) 0 d.count} =
      w.objects P k ∪ slotsOf P (w.vec k) := by
  ext x
  constructor
  · rintro ⟨j, e, hj, hx⟩
    by_cases hjk : j = k
    · refine .inr ?_
      rw [← hjk, hj]
      exact hx
    · exact .inl ⟨j, e, hjk, hj, hx⟩
  · rintro (⟨j, e, _, hj, hx⟩ | hx)
    · exact ⟨j, e, hj, hx⟩
    · cases hk : w.vec k with
      | none =>
        rw [hk] at hx
        exact hx.elim
      | some d =>
        rw [hk] at hx
        exact ⟨k, d, hk, hx⟩

theorem Inv.alive_at (h : Inv P w) (k : Nat) : Alive w.log (w.objects P k ∪ slotsOf P (w.vec k)) :=
  all_slots P w k ▸ h.alive

/-- what a call on the vector in variable `k` starts from -/
theorem Inv.good (h : Inv P w) (hk : w.vec k = some d) : Good P (w.blocks k) (w.objects P k) (w.enter d a) := by
  refine ⟨?_, h.fits k d hk, h.owns k d hk, h.rest k⟩
  have halive := h.alive_at k
  rw [hk] at halive
  exact halive

theorem Inv.alive_of_none (h : Inv P w) (hk : w.vec k = none) : Alive w.log (w.objects P k) := by
  have halive := h.alive_at k
  rw [hk] at halive
  rwa [← Set.union_empty (w.objects P k)]

theorem put_self (x : Option Data) : (w.put k x).vec k = x := if_pos rfl

theorem put_of_ne (x : Option Data) (h : j ≠ k) : (w.put k x).vec j = w.vec j := if_neg h

theorem put_vec {x : Option Data} {i : Nat} (h : (w.put k x).vec i = some d) :
    i = k ∧ x = some d ∨ i ≠ k ∧ w.vec i = some d := by
  by_cases hik : i = k
  · rw [hik, put_self] at h
    exact .inl ⟨hik, h⟩
  · rw [put_of_ne _ hik] at h
    exact .inr ⟨hik, h⟩

theorem objects_put (x : Option Data) : (w.put k x).objects P k = w.objects P k := by
  ext a
  constructor
  · rintro ⟨j, d, hjk, hj, ha⟩
    exact ⟨j, d, hjk, (put_of_ne x hjk).symm.trans hj, ha⟩
  · rintro ⟨j, d, hjk, hj, ha⟩
    exact ⟨j, d, hjk, (put_of_ne x hjk).trans hj, ha⟩

/-- after a call variable `k` is `x`, and the others have kept what they had -/
theorem Inv.put {x : Option Data} (h : Inv P w) (hlog : Alive t.log (w.objects P k ∪ slotsOf P x))
    (hr : Rest (w.blocks k) (w.objects P k) t.heap)
    (hx : ∀ d, x = some d → d.count * P.size ≤ d.bytes ∧ Owns (w.blocks k) d t.heap) :
    Inv P ((w.leave t).put k x) := by
  refine ⟨?_, fun i d hi => ?_, fun i d hi => ?_, hr.pos⟩
  · rw [all_slots P _ k, objects_put, put_self]
    exact hlog
  · rcases put_vec hi with ⟨-, hd⟩ | ⟨-, hi⟩
    · exact (hx d hd).1
    · exact h.fits i d hi
  · rcases put_vec hi with ⟨rfl, hd⟩ | ⟨hik, hi⟩
    · obtain ⟨-, howns⟩ := hx d hd
      refine ⟨howns.null, howns.own, ?_⟩
      rintro h0 b ⟨j, e, hji, hj, he0, rfl⟩
      rcases put_vec hj with ⟨hj', -⟩ | ⟨-, hj⟩
      · exact absurd hj' hji
      · exact howns.apart h0 _ ⟨j, e, hji, hj, he0, rfl⟩
    · have hown : d.start ≠ 0 → (⟨d.start, d.bytes⟩ : Block) ∈ w.blocks k :=
        fun h0 => ⟨i, d, hik, hi, h0, rfl⟩
      refine ⟨(h.owns i d hi).null, fun h0 => hr.held _ (hown h0), ?_⟩
      rintro h0 b ⟨j, e, hji, hj, he0, rfl⟩
      rcases put_vec hj with ⟨-, he⟩ | ⟨-, hj⟩
      · exact ((hx e he).2.apart he0 _ (hown h0)).symm
      · exact (h.owns i d hi).apart h0 _ ⟨j, e, hji, hj, he0, rfl⟩

theorem Inv.put_some (h : Inv P w) (ht : Good P (w.blocks k) (w.objects P k) t) :
    Inv P ((w.leave t).put k (some t.this)) := by
  refine h.put ht.alive ht.rest fun d hd => ?_
  rw [← Option.some.inj hd]
  exact ⟨ht.fits, ht.owns⟩

theorem Inv.put_none (h : Inv P w) (hlog : Alive t.log (w.objects P k))
    (hr : Rest (w.blocks k) (w.objects P k) t.heap) : Inv P ((w.leave t).put k none) := by
  refine h.put ?_ hr fun d hd => absurd hd (Option.some_ne_none d).symm
  show Alive t.log (w.objects P k ∪ ∅)
  rw [Set.union_empty]
  exact hlog

/-- the vectors keep their storage under other names -/
theorem Inv.rename (h : Inv P w) (σ : Equiv.Perm Nat) : Inv P { w with vec := fun i => w.vec (σ i) } := by
  refine ⟨?_, fun i d hi => h.fits (σ i) d hi, fun i d hi => ?_, h.pos⟩
  · have hset : {a | ∃ j d, w.vec (σ j) = some d ∧ a ∈ span (slot P d.start) 0 d.count} =
        {a | ∃ j d, w.vec j = some d ∧ a ∈ span (slot P d.start) 0 d.count} := by
      ext x
      constructor
      · rintro ⟨j, d, hj, hx⟩
        exact ⟨σ j, d, hj, hx⟩
      · rintro ⟨j, d, hj, hx⟩
        exact ⟨σ.symm j, d, by rwa [σ.apply_symm_apply], hx⟩
    show Alive w.log {a | ∃ j d, w.vec (σ j) = some d ∧ a ∈ span (slot P d.start) 0 d.count}
    rw [hset]
    exact h.alive
  · refine ⟨(h.owns (σ i) d hi).null, (h.owns (σ i) d hi).own, ?_⟩
    rintro h0 b ⟨j, e, hji, hj, he0, rfl⟩
    exact (h.owns (σ i) d hi).apart h0 _ ⟨σ j, e, fun heq => hji (σ.injective heq), hj, he0, rfl⟩

theorem Inv.swap (h : Inv P w) (hk : w.vec k = some d) (hj : w.vec j = some e) :
    Inv P ((w.put k (some e)).put j (some d)) := by
  have heq : (w.put k (some e)).put j (some d) = { w with vec := fun i => w.vec (Equiv.swap k j i) } := by
    have hvec : ((w.put k (some e)).put j (some d)).vec = fun i => w.vec (Equiv.swap k j i) := by
      funext i
      by_cases hij : i = j
      · rw [hij, put_self, Equiv.swap_apply_right, hk]
      · rw [put_of_ne _ hij]
        by_cases hik : i = k
        · rw [hik, put_self, Equiv.swap_apply_left, hj]
        · rw [put_of_ne _ hik, Equiv.swap_apply_of_ne_of_ne hik hij]
    exact congrArg (fun vec => (⟨vec, w.heap, w.log⟩ : World)) hvec
  rw [heq]
  exact h.rename _

/-! ## steps and runs -/

variable {p : CallM Unit} {w' : World}

theorem invoke_inv (h : Inv P w) (hp : Keeps P (w.blocks k) (w.objects P k) p (w.enter d a))
    (hs : w.invoke k d p a = some w') : Inv P w' := by
  unfold invoke at hs
  unfold Keeps Prog.Sat at hp
  split at hs
  · rename_i t hrun
    rw [hrun] at hp
    exact Option.some.inj hs ▸ h.put_some hp
  · rename_i t hrun
    rw [hrun] at hp
    exact Option.some.inj hs ▸ h.put_some hp
  · cases hs

theorem make_inv {andThen : World → Option World} (h : Inv P w)
    (hp : Alive w.log (w.objects P k) → Rest (w.blocks k) (w.objects P k) w.heap →
      Prog.Sat p (w.enter {} a) (fun _ t => Good P (w.blocks k) (w.objects P k) t)
        (fun t => Good P (w.blocks k) (w.objects P k) t ∧ t.this.count = 0))
    (hthen : ∀ t, Inv P ((w.leave t).put k (some t.this)) → w.vec k = none →
      andThen ((w.leave t).put k (some t.this)) = some w' → Inv P w')
    (hs : w.make k p a andThen = some w') : Inv P w' := by
  unfold make at hs
  split at hs
  · rename_i hk
    have hp := hp (h.alive_of_none hk) (h.rest k)
    unfold Prog.Sat at hp
    split at hs
    · rename_i t hrun
      rw [hrun] at hp
      exact hthen t (h.put_some hp) hk hs
    · rename_i t hrun
      rw [hrun] at hp
      -- the constructor has thrown: variable `k` is still no vector
      have hsame : (w.leave t).put k none = w.leave t := by
        have hvec : ((w.leave t).put k none).vec = w.vec := by
          funext i
          by_cases hik : i = k
          · rw [hik, put_self, hk]
          · exact put_of_ne _ hik
        exact congrArg (fun vec => (⟨vec, t.heap, t.log⟩ : World)) hvec
      rw [← Option.some.inj hs, ← hsame]
      exact h.put_none (hp.1.alive_of_zero hp.2) hp.1.rest
    · cases hs
  · cases hs

theorem On.apply {C : Data → Prop} (h : w.On k C) (hk : w.vec k = some d) : C d := by
  unfold On at h
  rwa [hk] at h

theorem make_inv_some (h : Inv P w)
    (hp : Alive w.log (w.objects P k) → Rest (w.blocks k) (w.objects P k) w.heap →
      Prog.Sat p (w.enter {} a) (fun _ t => Good P (w.blocks k) (w.objects P k) t)
        (fun t => Good P (w.blocks k) (w.objects P k) t ∧ t.this.count = 0))
    (hs : w.make k p a some = some w') : Inv P w' :=
  make_inv h hp (fun _ hinv _ heq => Option.some.inj heq ▸ hinv) hs

theorem moveOther_inv (h : Inv P w) (hj : w.vec j = some e) (ho : a.Orderly P e.count)
    (hs : (w.make k (newRange P e.count) a fun w => w.invoke j e (release P) a) = some w') : Inv P w' := by
  refine make_inv h (fun hlog hr => newRange_sat rfl hlog hr rfl rfl ho) (fun t hinv hk heq => ?_) hs
  have hjk : j ≠ k := by
    rintro rfl
    rw [hj] at hk
    cases hk
  have hj' : ((w.leave t).put k (some t.this)).vec j = some e := (put_of_ne _ hjk).trans hj
  exact invoke_inv hinv (release_keeps (hinv.good hj')) heq

theorem move_inv (h : Inv P w) (hk : w.vec k = none) (hj : w.vec j = some e) :
    Inv P ((w.put j (some {})).put k (some e)) := by
  have hkj : k ≠ j := by
    rintro rfl
    rw [hj] at hk
    cases hk
  -- an empty vector is constructed, and exchanged with the other
  have hempty : Inv P (w.put k (some {})) := by
    have hgood : Good P (w.blocks k) (w.objects P k) (w.enter {} ⟨.move k j, none, none⟩) :=
      Good.default rfl (h.alive_of_none hk) (h.rest k)
    exact h.put_some hgood
  have hswap := hempty.swap (put_self _) ((put_of_ne _ hkj.symm).trans hj)
  have heq : ((w.put k (some {})).put k (some e)).put j (some {}) = (w.put j (some {})).put k (some e) := by
    have hvec : (((w.put k (some {})).put k (some e)).put j (some {})).vec =
        ((w.put j (some {})).put k (some e)).vec := by
      funext i
      by_cases hij : i = j
      · rw [hij, put_self, put_of_ne _ hkj.symm, put_self]
      · rw [put_of_ne _ hij]
        by_cases hik : i = k
        · rw [hik, put_self, put_self]
        · rw [put_of_ne _ hik, put_of_ne _ hik, put_of_ne _ hik, put_of_ne _ hij]
    exact congrArg (fun vec => (⟨vec, w.heap, w.log⟩ : World)) hvec
  exact heq ▸ hswap

/-- **What an orderly step keeps.** -/
theorem step_inv (h : Inv P w) (ho : w.Orderly P a) (hs : step P w a = some w') : Inv P w' := by
  obtain ⟨op, answer, patience⟩ := a
  cases op with
  | empty k => exact make_inv_some (p := pure ()) h (fun hlog hr => Prog.Sat.pure (Good.default rfl hlog hr)) hs
  | sized k n => exact make_inv_some h (fun hlog hr => newSized_sat rfl hlog hr rfl rfl ho) hs
  | range k n => exact make_inv_some h (fun hlog hr => newRange_sat rfl hlog hr rfl rfl ho) hs
  | copy k j =>
    obtain ⟨e, hj, hs⟩ := Option.bind_eq_some_iff.mp hs
    exact make_inv_some h (fun hlog hr => newSized_sat rfl hlog hr rfl rfl (On.apply ho hj)) hs
  | move k j =>
    obtain ⟨e, hj, hs⟩ := Option.bind_eq_some_iff.mp hs
    split at hs
    · rename_i hk
      exact Option.some.inj hs ▸ move_inv h hk hj
    · cases hs
  | moveOther k j =>
    obtain ⟨e, hj, hs⟩ := Option.bind_eq_some_iff.mp hs
    exact moveOther_inv h hj (On.apply ho hj) hs
  | call k f =>
    obtain ⟨d, hk, hs⟩ := Option.bind_eq_some_iff.mp hs
    split at hs
    · rename_i hv
      exact invoke_inv h (method_keeps (h.good hk) rfl rfl hv (On.apply ho hk)) hs
    · cases hs
  | copyAssign k j =>
    obtain ⟨d, hk, hs⟩ := Option.bind_eq_some_iff.mp hs
    obtain ⟨e, hj, hs⟩ := Option.bind_eq_some_iff.mp hs
    split at hs
    · exact Option.some.inj hs ▸ h
    · rename_i hkj
      have ho' := On.apply (On.apply (Or.resolve_left ho hkj) hk) hj
      exact invoke_inv h (assignFill_keeps (h.good hk) rfl rfl ho') hs
  | swap k j =>
    obtain ⟨d, hk, hs⟩ := Option.bind_eq_some_iff.mp hs
    obtain ⟨e, hj, hs⟩ := Option.bind_eq_some_iff.mp hs
    exact Option.some.inj hs ▸ h.swap hk hj
  | destroy k =>
    obtain ⟨d, hk, hs⟩ := Option.bind_eq_some_iff.mp hs
    have hd := destroy_sat (h.good (a := ⟨.destroy k, answer, patience⟩) hk)
    unfold Prog.Sat at hd
    split at hs
    · rename_i t hrun
      rw [hrun] at hd
      exact Option.some.inj hs ▸ h.put_none hd.1 hd.2
    · cases hs
    · cases hs

end

end World

section
open World

end

end Objects
end Stl
end Ipcpp
