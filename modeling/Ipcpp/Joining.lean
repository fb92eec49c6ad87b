import Ipcpp.Topic

/-!
# Getting into a topic

A call of `get_shm_entry` that finds no shared memory goes on to create some, and `create` unlinks the name
before anything else.  Subscribers and `ShmAtomicObserver::create` ask for no bytes, and `mmap` of no bytes
fails: their calls create nothing, but they take the name away like any other.

* `found_iff`   once a call has succeeded the name leads to the object that all calls have got: exactly as long
                as no section of `create_shm` runs any more, also none that fails;
* `joins_iff`   without a call that asks for memory a process gets in only if the name leads to an object, and
                not if it is about to run its own `create_shm`.  So the loop of `ShmAtomicObserver::create` may
                go on forever though the notifier is there.
-/

namespace Ipcpp
namespace Topic
open Counting Runs

/-! ## the name -/

/-- the name leads to the object that all calls have got -/
def Found (s : State) : Prop := CreatorsAlive s → ∀ o ∈ s.returned, s.shm.name = some ⟨o, true⟩

/-- a section of `create_shm` runs before any call has succeeded -/
def NoneYet (s : State) : Action → Prop
  | .create _ _ => CreatorsAlive s → s.returned = []
  | _ => True

section
variable {s t : State}

theorem found_step (hi : Inv s) (hs : Found s) (a : Action) (ht : step s a = some t) : Found t ↔ NoneYet s a := by
  cases step_effect ht with
  | hit k ok p o hp ho =>
    refine iff_of_true (fun hal x hx => ?_) trivial
    rcases List.mem_append.mp hx with hx | hx
    · exact hs hal x hx
    · rw [List.mem_singleton.mp hx]
      exact hs hal o (hi.registry p (List.mem_of_getElem? hp) o ho)
  | opened k ok p o hp hex ho =>
    refine iff_of_true (fun hal x hx => ?_) trivial
    rcases List.mem_append.mp hx with hx | hx
    · exact hs (creatorsAlive_of_set hp hex hal) x hx
    · rw [List.mem_singleton.mp hx]
      exact ho
  | notOpened k ok p hp hex =>
    exact iff_of_true (fun hal => hs (creatorsAlive_of_set hp hex hal)) trivial
  | created k p hp hex =>
    constructor
    · intro hfound hal
      refine List.eq_nil_iff_forall_not_mem.mpr fun o ho => ?_
      have hname : some (⟨s.shm.fresh, true⟩ : Object) = some ⟨o, true⟩ :=
        hfound (hal.set k _ _ hex) o (List.mem_append_left _ ho)
      have hlt := hi.below o ho
      rw [Option.some.injEq, Object.mk.injEq] at hname
      omega
    · intro hnone hal x hx
      have hx' : x ∈ s.returned ++ [s.shm.fresh] := hx
      rw [hnone (creatorsAlive_of_set hp hex hal), List.nil_append] at hx'
      rw [List.mem_singleton.mp hx']
  | notCreated k out p m hp hex hout hfresh hname =>
    constructor
    · intro hfound hal
      refine List.eq_nil_iff_forall_not_mem.mpr fun o ho => ?_
      exact Bool.noConfusion (hname _ (hfound (hal.set k _ _ hex) o ho)).1
    · intro hnone hal x hx
      have hx' : x ∈ s.returned := hx
      rw [hnone (creatorsAlive_of_set hp hex hal)] at hx'
      cases hx'
  | exited k p hp hex =>
    refine iff_of_true (fun hal x hx => ?_) trivial
    show (if p.wasCreated then s.shm.unlink else s.shm).name = _
    rw [not_wasCreated_of_exit hp hal]
    exact hs (creatorsAlive_of_set hp hex hal) x hx

/-- **When a topic can be found**: once a call has succeeded, and as long as no creator exits, the name leads to
the object that all calls have got, in every state of a run exactly if no section of `create_shm` runs after a
call has succeeded. -/
theorem found_iff (n : Nat) (left : Option Bool) (as : List Action) :
    Always step Found (State.init n left) as ↔ Every step NoneYet (State.init n left) as :=
  always_iff_every (fun _ a _ hi ht => hi.step a ht) (fun _ a _ hi hs ht => found_step hi hs a ht) as
    (inv_init n left) fun _ => nofun

end

/-! ## calls that ask for no bytes -/

/-- `get_shm_entry(id, min_shm_size)` in each process; `sizes` has the `min_shm_size` of its last call -/
structure Calls where
  topic : State
  sizes : Nat → Nat

inductive Call where
  | open (k minShmSize : Nat) (ok : Bool)
  | create (k : Nat) (out : Outcome)
  | exit (k : Nat)

namespace Call

/-- the call without its size -/
def plain : Call → Action
  | .open k _ ok => .open k ok
  | .create k out => .create k out
  | .exit k => .exit k

def record (sizes : Nat → Nat) : Call → Nat → Nat
  | .open k minShmSize _ => Function.update sizes k minShmSize
  | _ => sizes

/-- `mmap` of no bytes fails -/
def Possible (sizes : Nat → Nat) : Call → Prop
  | .create k .succeeds => sizes k ≠ 0
  | _ => True

instance (sizes : Nat → Nat) : (a : Call) → Decidable (a.Possible sizes)
  | .create k .succeeds => inferInstanceAs (Decidable (sizes k ≠ 0))
  | .create _ .shmOpenFails | .create _ .ftruncateFails | .create _ .mmapFails | .open _ _ _ | .exit _ =>
    inferInstanceAs (Decidable True)

/-- a call that is begun asks for no bytes -/
def Attaches : Call → Prop
  | .open _ minShmSize _ => minShmSize = 0
  | _ => True

end Call

namespace Calls

def init (n : Nat) (left : Option Bool) : Calls := ⟨State.init n left, fun _ => 0⟩

def step (s : Calls) (a : Call) : Option Calls :=
  if a.Possible s.sizes then (Topic.step s.topic a.plain).map fun t => ⟨t, a.record s.sizes⟩ else none

/-- whoever is about to create has asked for no bytes -/
def NoneAsked (s : Calls) : Prop :=
  ∀ k p, s.topic.procs[k]? = some p → p.creating = true → s.sizes k = 0

/-- process `k` has no entry and does not get one: it is about to take the name away, or the name leads to
nothing that can be mapped -/
def Blocked (k : Nat) (s : Calls) : Prop :=
  ∃ p, s.topic.procs[k]? = some p ∧ p.registry = none ∧
    (p.creating = true ∨ ∀ o, s.topic.shm.name ≠ some ⟨o, true⟩)

section
variable {s t : Calls} {k : Nat}

theorem step_eq_some {a : Call} :
    step s a = some t ↔
      a.Possible s.sizes ∧ Topic.step s.topic a.plain = some t.topic ∧ t.sizes = a.record s.sizes := by
  unfold step
  constructor
  · intro h
    split at h
    · rename_i hpossible
      obtain ⟨u, hu, rfl⟩ := Option.map_eq_some_iff.mp h
      exact ⟨hpossible, hu, rfl⟩
    · cases h
  · rintro ⟨hpossible, hu, hsizes⟩
    rw [if_pos hpossible, hu, ← hsizes]
    rfl

theorem idle_of_open {s t : State} {ok : Bool} (h : Topic.step s (.open k ok) = some t) :
    ∃ p, s.procs[k]? = some p ∧ p.creating = false := by
  simp only [Topic.step] at h
  split at h
  · cases h
  rename_i p hp
  split at h
  · cases h
  rename_i hguard
  exact ⟨p, hp, by simpa using fun hcr => hguard (.inl hcr)⟩

theorem creating_of_create {s t : State} {out : Outcome} (h : Topic.step s (.create k out) = some t) :
    ∃ p, s.procs[k]? = some p ∧ p.creating = true := by
  simp only [Topic.step] at h
  split at h
  · cases h
  rename_i p hp
  split at h
  · cases h
  rename_i hguard
  exact ⟨p, hp, by simpa using fun hcr => hguard (.inl hcr)⟩

theorem exists_set {procs : List Process} {P : Process → Prop} {j : Nat} {p p' : Process}
    (hp : procs[k]? = some p) (hP : P p) (hset : j = k → P p') : ∃ q, (procs.set j p')[k]? = some q ∧ P q := by
  by_cases hjk : j = k
  · subst hjk
    exact ⟨p', List.getElem?_set_self (List.getElem?_eq_some_iff.mp hp).1, hset rfl⟩
  · exact ⟨p, (List.getElem?_set_ne hjk).trans hp, hP⟩

/-- a process that is in `create_shm` was there before the step, or has just come there -/
theorem creating_of_effect {s t : State} {a : Action} (h : Effect s a t) {q : Process} (hq : t.procs[k]? = some q)
    (hcr : q.creating = true) : (∃ p, s.procs[k]? = some p ∧ p.creating = true) ∨ ∃ ok, a = .open k ok := by
  have hset : ∀ {j : Nat} {p p' : Process}, s.procs[j]? = some p → (s.procs.set j p')[k]? = some q →
      (p'.creating = true → p.creating = true ∨ ∃ ok, a = .open j ok) →
      (∃ p, s.procs[k]? = some p ∧ p.creating = true) ∨ ∃ ok, a = .open k ok := by
    intro j p p' hp hq hcreating
    by_cases hjk : j = k
    · subst hjk
      rw [List.getElem?_set_self (List.getElem?_eq_some_iff.mp hp).1] at hq
      exact (hcreating (Option.some.inj hq ▸ hcr)).imp_left fun hcr => ⟨p, hp, hcr⟩
    · exact .inl ⟨q, (List.getElem?_set_ne hjk).symm.trans hq, hcr⟩
  cases h with
  | hit k' ok p o hp ho => exact .inl ⟨q, hq, hcr⟩
  | opened k' ok p o hp hex ho => exact hset hp hq .inl
  | notOpened k' ok p hp hex => exact hset hp hq fun _ => .inr ⟨ok, rfl⟩
  | created k' p hp hex => exact hset hp hq nofun
  | notCreated k' out p m hp hex hout hfresh hname => exact hset hp hq nofun
  | exited k' p hp hex => exact hset hp hq .inl

theorem NoneAsked.step (h : s.NoneAsked) {a : Call} (ha : a.Attaches) (ht : s.step a = some t) : t.NoneAsked := by
  obtain ⟨-, hstep, hsizes⟩ := step_eq_some.mp ht
  intro j q hq hcr
  rw [hsizes]
  rcases creating_of_effect (step_effect hstep) hq hcr with ⟨p, hp, hcr⟩ | ⟨ok, hopen⟩
  · cases a with
    | «open» i n ok =>
      obtain rfl : n = 0 := ha
      show Function.update s.sizes i 0 j = 0
      rw [Function.update_apply, h j p hp hcr, ite_self]
    | create i out => exact h j p hp hcr
    | exit i => exact h j p hp hcr
  · cases a with
    | «open» i n ok' =>
      obtain rfl : n = 0 := ha
      obtain ⟨rfl, -⟩ := Action.open.inj hopen
      exact Function.update_self i 0 s.sizes
    | create i out => cases hopen
    | exit i => cases hopen

theorem NoneAsked.not_created (h : s.NoneAsked) {a : Call} (ht : s.step a = some t) (j : Nat) :
    a.plain ≠ .create j .succeeds := by
  obtain ⟨hpossible, hstep, -⟩ := step_eq_some.mp ht
  intro hj
  cases a with
  | «open» i n ok => cases hj
  | exit i => cases hj
  | create i out =>
    cases hj
    obtain ⟨p, hp, hcr⟩ := creating_of_create hstep
    exact hpossible (h j p hp hcr)

theorem Blocked.step (h : Blocked k s) (hs : s.NoneAsked) {a : Call} (ht : s.step a = some t) : Blocked k t := by
  obtain ⟨p, hp, hreg, hwait⟩ := h
  have hno := hs.not_created ht
  obtain ⟨-, hstep, -⟩ := step_eq_some.mp ht
  obtain ⟨topic, sizes⟩ := t
  generalize a.plain = b at hno hstep
  cases step_effect hstep with
  | hit j ok p' o hp' ho => exact ⟨p, hp, hreg, hwait⟩
  | opened j ok p' o hp' hex ho =>
    have hcr := hwait.resolve_right fun hnone => hnone o ho
    refine exists_set hp ⟨hreg, .inl hcr⟩ fun hjk => ?_
    obtain ⟨p'', hp'', hidle⟩ := idle_of_open hstep
    rw [hjk, hp] at hp''
    rw [← Option.some.inj hp'', hcr] at hidle
    cases hidle
  | notOpened j ok p' hp' hex =>
    refine exists_set hp ⟨hreg, hwait⟩ fun hjk => ⟨?_, .inl rfl⟩
    rw [hjk, hp] at hp'
    exact Option.some.inj hp' ▸ hreg
  | created j p' hp' hex => exact (hno j rfl).elim
  | notCreated j out p' m hp' hex hout hfresh hname =>
    have hunmapped : ∀ o, m.name ≠ some ⟨o, true⟩ := fun o ho => Bool.noConfusion (hname _ ho).1
    refine exists_set hp ⟨hreg, .inr hunmapped⟩ fun hjk => ⟨?_, .inr hunmapped⟩
    rw [hjk, hp] at hp'
    exact Option.some.inj hp' ▸ hreg
  | exited j p' hp' hex =>
    have hname : ∀ o, (if p'.wasCreated then s.topic.shm.unlink else s.topic.shm).name = some ⟨o, true⟩ →
        s.topic.shm.name = some ⟨o, true⟩ := fun o ho => by
      split at ho
      · cases ho
      · exact ho
    have hwait' := hwait.imp_right fun hnone o ho => hnone o (hname o ho)
    refine exists_set hp ⟨hreg, hwait'⟩ fun hjk => ?_
    rw [hjk, hp] at hp'
    obtain rfl := Option.some.inj hp'
    exact ⟨hreg, hwait'⟩

/-- **Who gets in without a call that asks for memory**: a process that has no entry can get one, whatever the
others do, only if the name leads to an object, and if it is not about to run its own `create_shm`; then its
next call finds the object. -/
theorem joins_iff (hs : s.NoneAsked) {p : Process} (hp : s.topic.procs[k]? = some p) (hreg : p.registry = none)
    (hex : p.exited = false) :
    (∃ as t q, Every step (fun _ a => a.Attaches) s as ∧ run step s as = some t ∧
        t.topic.procs[k]? = some q ∧ q.registry ≠ none) ↔
      p.creating = false ∧ ∃ o, s.topic.shm.name = some ⟨o, true⟩ := by
  constructor
  · rintro ⟨as, t, q, hattach, hrun, hq, hentry⟩
    by_contra hcannot
    have hblocked : Blocked k s := by
      refine ⟨p, hp, hreg, ?_⟩
      rw [not_and_or, Bool.not_eq_false] at hcannot
      exact hcannot.imp_right not_exists.mp
    obtain ⟨-, p', hp', hreg', -⟩ := run_inv_of_every (I := fun t : Calls => t.NoneAsked ∧ Blocked k t)
      (fun _ _ _ h ha ht => ⟨h.1.step ha ht, h.2.step h.1 ht⟩) as ⟨hs, hblocked⟩ hattach hrun
    rw [hq] at hp'
    exact hentry (Option.some.inj hp' ▸ hreg')
  · rintro ⟨hcr, o, ho⟩
    obtain ⟨registry, creating, wasCreated, exited⟩ := p
    obtain rfl : registry = none := hreg
    obtain rfl : creating = false := hcr
    obtain rfl : exited = false := hex
    have hopen : Topic.step s.topic (.open k true) = some ⟨s.topic.shm,
        s.topic.procs.set k ⟨some o, false, wasCreated, false⟩, s.topic.returned ++ [o]⟩ := by
      simp [Topic.step, hp, openSection, ho]
    have hcall : s.step (.open k 0 true) = some ⟨⟨s.topic.shm,
        s.topic.procs.set k ⟨some o, false, wasCreated, false⟩, s.topic.returned ++ [o]⟩,
        Function.update s.sizes k 0⟩ := step_eq_some.mpr ⟨trivial, hopen, rfl⟩
    refine ⟨[.open k 0 true], _, _, fun _ _ => ⟨rfl, trivial⟩, run_cons.mpr ⟨_, hcall, rfl⟩,
      List.getElem?_set_self (List.getElem?_eq_some_iff.mp hp).1, Option.some_ne_none o⟩

/-- an observer that starts together with a notifier takes the name away from the memory of the notifier, and
waits for good -/
theorem joins_iff_example : ∃ s, run step (init 2 none)
      [.open 1 0 true, .open 0 8 true, .create 0 .succeeds, .create 1 .mmapFails] = some s ∧
    s.topic.returned = [1] ∧
    ¬ ∃ as t q, Every step (fun _ a => a.Attaches) s as ∧ run step s as = some t ∧
      t.topic.procs[1]? = some q ∧ q.registry ≠ none := by
  have hnone : NoneAsked ⟨⟨⟨none, 3⟩, [⟨some 1, false, true, false⟩, {}], [1]⟩,
      Function.update (Function.update (fun _ => 0) 1 0) 0 8⟩ := fun k p hp hcr => by
    match k with
    | 0 | 1 => cases hp; cases hcr
    | k + 2 => cases hp
  refine ⟨_, rfl, rfl, fun hjoins => ?_⟩
  obtain ⟨-, o, ho⟩ := (joins_iff hnone (k := 1) (p := {}) rfl rfl rfl).mp hjoins
  cases ho

end

end Calls

end Topic
end Ipcpp
