import Ipcpp.Lib.Counting
import Ipcpp.Lib.Runs

/-!
# Which shared memory a topic id leads to

`ShmRegistry::get_shm_entry` for one id, called by any number of processes.  The "global" file lock is
taken twice in a call, around the `open` and around the `create`, so each of the two is one step and
other processes run in between.  `Shm` is what POSIX keeps under the name: a name maps to at most one
object, `shm_unlink` frees the name (mappings keep their object), `shm_open(O_CREAT)` makes a fresh
object if the name is free.  Whether a system call fails is up to the environment (`Outcome`).

`Agree s`: while no process that created an object has exited, all calls that succeeded returned the same
object.  `create` starts with `shm_unlink`, and that an `open` failed some time ago does not mean that
the name is free: two processes that start together end up on two objects (`two_objects`).
`agree_iff`: a run keeps the agreement exactly when every `create` that succeeds comes before any call
has succeeded.
-/

namespace Ipcpp
namespace Topic
open Counting

/-- a shared memory object; `sized` if its `ftruncate` went through.  An object of size zero cannot be
mapped. -/
structure Object where
  id : Nat
  sized : Bool

/-- the name of the topic and the number of the next object -/
structure Shm where
  name : Option Object
  fresh : Nat

namespace Shm

/-- `shm_unlink` -/
def unlink (m : Shm) : Shm := { m with name := none }

/-- `shm_open(O_RDWR | O_CREAT)` -/
def openCreate (m : Shm) : Shm × Nat :=
  match m.name with
  | some o => (m, o.id)
  | none => (⟨some ⟨m.fresh, false⟩, m.fresh + 1⟩, m.fresh)

/-- `ftruncate` of the object under the name -/
def truncate (m : Shm) : Shm := { m with name := m.name.map fun o => { o with sized := true } }

end Shm

/-- how the system calls of a `create` end -/
inductive Outcome where
  | shmOpenFails
  | ftruncateFails
  | mmapFails
  | succeeds

/-- the section of `open_shm` under the lock: `shm_open`, `fstat` and `mmap`; `ok` is false if one of
them fails although the object is there -/
def openSection (m : Shm) (ok : Bool) : Option Nat :=
  match m.name with
  | some o => if o.sized && ok then some o.id else none
  | none => none

/-- the section of `create_shm` under the lock: `shared_memory_file::create`, then the mapping -/
def createSection (m : Shm) (out : Outcome) : Shm × Option Nat :=
  let m := m.unlink
  match out with
  | .shmOpenFails => (m, none)
  -- `_was_created` is not set yet: the name stays
  | .ftruncateFails => (m.openCreate.1, none)
  -- the destructor of the `shared_memory_file` unlinks
  | .mmapFails => (m.openCreate.1.truncate.unlink, none)
  | .succeeds => (m.openCreate.1.truncate, some m.openCreate.2)

/-- one process: the entry of the id in its registry, whether its call goes on to `create_shm`, whether
it created its object, whether it has exited -/
structure Process where
  registry : Option Nat := none
  creating : Bool := false
  wasCreated : Bool := false
  exited : Bool := false

/-- `returned` lists the objects of all calls that succeeded -/
structure State where
  shm : Shm
  procs : List Process
  returned : List Nat

/-- `n` processes; an object of that name may be left from before -/
def State.init (n : Nat) (left : Option Bool) : State :=
  ⟨⟨left.map fun sized => ⟨0, sized⟩, 1⟩, List.replicate n {}, []⟩

inductive Action where
  | open (k : Nat) (ok : Bool)
  | create (k : Nat) (out : Outcome)
  | exit (k : Nat)

/-- `open` is the start of a call: `open_shm`, that is the registry or the section under the lock.
`create` is the rest of a call whose `open_shm` failed.  A process that exits destroys its registry, and
with it unlinks the name if it created the object. -/
def step (s : State) : Action → Option State
  | .open k ok =>
    match s.procs[k]? with
    | none => none
    | some p =>
      if p.creating ∨ p.exited then none
      else match p.registry with
        | some o => some { s with returned := s.returned ++ [o] }
        | none =>
          match openSection s.shm ok with
          | some o => some
            { s with
              procs := s.procs.set k { p with registry := some o }
              returned := s.returned ++ [o] }
          | none => some { s with procs := s.procs.set k { p with creating := true } }
  | .create k out =>
    match s.procs[k]? with
    | none => none
    | some p =>
      if p.creating = false ∨ p.exited then none
      else match createSection s.shm out with
        | (m, some o) => some
          { shm := m
            procs := s.procs.set k { p with registry := some o, creating := false, wasCreated := true }
            returned := s.returned ++ [o] }
        | (m, none) => some { s with shm := m, procs := s.procs.set k { p with creating := false } }
  | .exit k =>
    match s.procs[k]? with
    | none => none
    | some p =>
      if p.exited then none
      else some
        { s with
          shm := if p.wasCreated then s.shm.unlink else s.shm
          procs := s.procs.set k { p with exited := true } }

/-! ## agreement -/

def CreatorsAlive (s : State) : Prop := ∀ p ∈ s.procs, p.wasCreated = true → p.exited = false

/-- all calls that succeeded returned the same object -/
def Agree (s : State) : Prop := CreatorsAlive s → ∀ o ∈ s.returned, ∀ o' ∈ s.returned, o = o'

instance (s : State) : Decidable (CreatorsAlive s) := inferInstanceAs (Decidable (∀ p ∈ s.procs, _ → _))

instance (s : State) : Decidable (Agree s) := inferInstanceAs (Decidable (_ → _))

/-- a `create` succeeds only if no call has succeeded before -/
def CreatesFirst (s : State) : Action → Prop
  | .create _ .succeeds => CreatorsAlive s → s.returned = []
  | _ => True

theorem createSection_cases (m : Shm) (out : Outcome) :
    (out = .succeeds ∧ createSection m out = (⟨some ⟨m.fresh, true⟩, m.fresh + 1⟩, some m.fresh)) ∨
      (out ≠ .succeeds ∧ ∃ m', createSection m out = (m', none) ∧ m.fresh ≤ m'.fresh ∧
        ∀ o, m'.name = some o → o.sized = false ∧ o.id < m'.fresh) := by
  cases out with
  | shmOpenFails => exact .inr ⟨nofun, _, rfl, le_refl _, nofun⟩
  | ftruncateFails =>
    refine .inr ⟨nofun, _, rfl, Nat.le_succ _, fun o ho => ?_⟩
    cases ho
    exact ⟨rfl, Nat.lt_succ_self _⟩
  | mmapFails => exact .inr ⟨nofun, _, rfl, Nat.le_succ _, nofun⟩
  | succeeds => exact .inl ⟨rfl, rfl⟩

theorem openSection_some {m : Shm} {ok : Bool} {o : Nat} (h : openSection m ok = some o) :
    m.name = some ⟨o, true⟩ := by
  unfold openSection at h
  split at h
  · rename_i x hx
    simp only [Option.ite_none_right_eq_some, Bool.and_eq_true, Option.some.injEq] at h
    obtain ⟨⟨hs, -⟩, rfl⟩ := h
    rw [hx, ← hs]
  · cases h

inductive Effect (s : State) : Action → State → Prop
  | hit (k : Nat) (ok : Bool) (p : Process) (o : Nat) (hp : s.procs[k]? = some p)
    (ho : p.registry = some o) : Effect s (.open k ok) { s with returned := s.returned ++ [o] }
  | opened (k : Nat) (ok : Bool) (p : Process) (o : Nat) (hp : s.procs[k]? = some p)
    (hex : p.exited = false) (ho : s.shm.name = some ⟨o, true⟩) :
    Effect s (.open k ok)
      ⟨s.shm, s.procs.set k { p with registry := some o }, s.returned ++ [o]⟩
  | notOpened (k : Nat) (ok : Bool) (p : Process) (hp : s.procs[k]? = some p)
    (hex : p.exited = false) :
    Effect s (.open k ok) ⟨s.shm, s.procs.set k { p with creating := true }, s.returned⟩
  | created (k : Nat) (p : Process) (hp : s.procs[k]? = some p) (hex : p.exited = false) :
    Effect s (.create k .succeeds)
      ⟨⟨some ⟨s.shm.fresh, true⟩, s.shm.fresh + 1⟩,
        s.procs.set k { p with registry := some s.shm.fresh, creating := false, wasCreated := true },
        s.returned ++ [s.shm.fresh]⟩
  | notCreated (k : Nat) (out : Outcome) (p : Process) (m : Shm) (hp : s.procs[k]? = some p)
    (hex : p.exited = false) (hout : out ≠ .succeeds) (hfresh : s.shm.fresh ≤ m.fresh)
    (hname : ∀ o, m.name = some o → o.sized = false ∧ o.id < m.fresh) :
    Effect s (.create k out) ⟨m, s.procs.set k { p with creating := false }, s.returned⟩
  | exited (k : Nat) (p : Process) (hp : s.procs[k]? = some p) (hex : p.exited = false) :
    Effect s (.exit k)
      ⟨if p.wasCreated then s.shm.unlink else s.shm, s.procs.set k { p with exited := true }, s.returned⟩

theorem step_effect {s t : State} {a : Action} (h : step s a = some t) : Effect s a t := by
  cases a with
  | «open» k ok =>
    simp only [step] at h
    split at h
    · cases h
    rename_i p hp
    split at h
    · cases h
    rename_i hguard
    have hex : p.exited = false := by simpa using fun he => hguard (.inr he)
    split at h
    · rename_i o ho
      exact Option.some.inj h ▸ .hit k ok p o hp ho
    split at h
    · rename_i o ho
      exact Option.some.inj h ▸ .opened k ok p o hp hex (openSection_some ho)
    · exact Option.some.inj h ▸ .notOpened k ok p hp hex
  | create k out =>
    simp only [step] at h
    split at h
    · cases h
    rename_i p hp
    split at h
    · cases h
    rename_i hguard
    have hex : p.exited = false := by simpa using fun he => hguard (.inr he)
    rcases createSection_cases s.shm out with ⟨rfl, hc⟩ | ⟨hne, m, hc, hle, hname⟩
    · rw [hc] at h
      exact Option.some.inj h ▸ .created k p hp hex
    · rw [hc] at h
      exact Option.some.inj h ▸ .notCreated k out p m hp hex hne hle hname
  | exit k =>
    simp only [step] at h
    split at h
    · cases h
    rename_i p hp
    split at h
    · cases h
    rename_i hguard
    exact Option.some.inj h ▸ .exited k p hp (by simpa using hguard)

/-- the name leads to an object that was returned, if any was -/
structure Inv (s : State) : Prop where
  below : ∀ o ∈ s.returned, o < s.shm.fresh
  nameBelow : ∀ o, s.shm.name = some o → o.id < s.shm.fresh
  registry : ∀ p ∈ s.procs, ∀ o, p.registry = some o → o ∈ s.returned
  name : CreatorsAlive s → Agree s → s.returned ≠ [] →
    ∀ o, s.shm.name = some o → o.sized = true → o.id ∈ s.returned

theorem inv_init (n : Nat) (left : Option Bool) : Inv (State.init n left) := by
  refine ⟨nofun, ?_, ?_, fun _ _ h => absurd rfl h⟩
  · intro o ho
    simp only [State.init, Option.map_eq_some_iff] at ho
    obtain ⟨b, -, rfl⟩ := ho
    exact Nat.one_pos
  · intro p hp o ho
    rw [List.eq_of_mem_replicate hp] at ho
    cases ho

theorem creatorsAlive_of_set {s : State} {k : Nat} {p p' : Process} {m : Shm} {r : List Nat}
    (hp : s.procs[k]? = some p) (hex : p.exited = false)
    (h : CreatorsAlive ⟨m, s.procs.set k p', r⟩) : CreatorsAlive s := by
  intro q hq hcr
  by_cases hqp : q = p
  · rw [hqp]
    exact hex
  · exact h q (mem_set_of_ne hp hq hqp) hcr

theorem CreatorsAlive.set {s : State} (h : CreatorsAlive s) (k : Nat) {p' : Process} (m : Shm)
    (r : List Nat) (hex : p'.exited = false) : CreatorsAlive ⟨m, s.procs.set k p', r⟩ := by
  intro q hq hcr
  rcases mem_set_cases hq with rfl | ⟨j, -, hj⟩
  · exact hex
  · exact h q (List.mem_of_getElem? hj) hcr

theorem not_wasCreated_of_exit {s : State} {k : Nat} {p : Process} {m : Shm} {r : List Nat}
    (hp : s.procs[k]? = some p)
    (h : CreatorsAlive ⟨m, s.procs.set k { p with exited := true }, r⟩) : p.wasCreated = false := by
  by_contra hcr
  have := h _ (List.mem_set (List.getElem?_eq_some_iff.mp hp).1 _) (by simpa using hcr)
  cases this

theorem registry_set {s : State} {k : Nat} {p' : Process} {r : List Nat}
    (h : ∀ p ∈ s.procs, ∀ o, p.registry = some o → o ∈ s.returned)
    (hsub : ∀ o ∈ s.returned, o ∈ r) (hp' : ∀ o, p'.registry = some o → o ∈ r) :
    ∀ p ∈ s.procs.set k p', ∀ o, p.registry = some o → o ∈ r := by
  intro p hp o ho
  rcases mem_set_cases hp with rfl | ⟨j, -, hj⟩
  · exact hp' o ho
  · exact hsub o (h p (List.mem_of_getElem? hj) o ho)

theorem Inv.step {s t : State} (h : Inv s) (a : Action) (ht : step s a = some t) : Inv t := by
  have hleft : ∀ {r : List Nat}, ∀ o ∈ s.returned, o ∈ s.returned ++ r :=
    fun o ho => List.mem_append_left _ ho
  cases step_effect ht with
  | hit k ok p o hp ho =>
    have hmem := h.registry p (List.mem_of_getElem? hp) o ho
    refine ⟨?_, h.nameBelow, fun q hq x hx => hleft x (h.registry q hq x hx), ?_⟩
    · intro x hx
      rcases List.mem_append.mp hx with hx | hx
      · exact h.below x hx
      · exact List.mem_singleton.mp hx ▸ h.below o hmem
    · intro hal hag _ x hx hsz
      exact hleft _ (h.name hal (fun _ a ha b hb => hag hal a (hleft a ha) b (hleft b hb))
        (List.ne_nil_of_mem hmem) x hx hsz)
  | opened k ok p o hp hex ho =>
    refine ⟨?_, h.nameBelow, registry_set h.registry hleft fun x hx => ?_, ?_⟩
    · intro x hx
      rcases List.mem_append.mp hx with hx | hx
      · exact h.below x hx
      · exact List.mem_singleton.mp hx ▸ h.nameBelow ⟨o, true⟩ ho
    · cases hx
      exact List.mem_append_right _ (List.mem_singleton_self o)
    · intro _ _ _ x hx _
      rw [ho] at hx
      cases hx
      exact List.mem_append_right _ (List.mem_singleton_self o)
  | notOpened k ok p hp hex =>
    refine ⟨h.below, h.nameBelow, registry_set h.registry (fun _ => id) ?_, ?_⟩
    · exact fun x hx => h.registry p (List.mem_of_getElem? hp) x hx
    · intro hal hag
      exact h.name (creatorsAlive_of_set hp hex hal) fun _ => hag hal
  | created k p hp hex =>
    refine ⟨?_, ?_, registry_set h.registry hleft fun x hx => ?_, ?_⟩
    · intro x hx
      rcases List.mem_append.mp hx with hx | hx
      · exact Nat.lt_succ_of_lt (h.below x hx)
      · exact List.mem_singleton.mp hx ▸ Nat.lt_succ_self _
    · intro x hx
      cases hx
      exact Nat.lt_succ_self _
    · cases hx
      exact List.mem_append_right _ (List.mem_singleton_self _)
    · intro _ _ _ x hx _
      cases hx
      exact List.mem_append_right _ (List.mem_singleton_self _)
  | notCreated k out p m hp hex hout hfresh hname =>
    refine ⟨fun x hx => lt_of_lt_of_le (h.below x hx) hfresh, fun x hx => (hname x hx).2,
      registry_set h.registry (fun _ => id) ?_, ?_⟩
    · exact fun x hx => h.registry p (List.mem_of_getElem? hp) x hx
    · intro _ _ _ x hx hsz
      rw [(hname x hx).1] at hsz
      cases hsz
  | exited k p hp hex =>
    refine ⟨?_, ?_, registry_set h.registry (fun _ => id) ?_, ?_⟩
    · intro x hx
      have := h.below x hx
      split <;> exact this
    · intro x hx
      split at hx
      · cases hx
      · split <;> exact h.nameBelow x hx
    · exact fun x hx => h.registry p (List.mem_of_getElem? hp) x hx
    · intro hal hag hne x hx hsz
      rw [not_wasCreated_of_exit hp hal] at hx
      exact h.name (creatorsAlive_of_set hp hex hal) (fun _ => hag hal) hne x hx hsz

/-- a step keeps the agreement exactly when it is no late `create` -/
theorem agree_step {s t : State} (hi : Inv s) (hs : Agree s) (a : Action) (ht : step s a = some t) :
    Agree t ↔ CreatesFirst s a := by
  have happend : ∀ {o : Nat}, o ∈ s.returned ∨ s.returned = [] → CreatorsAlive s →
      ∀ x ∈ s.returned ++ [o], ∀ y ∈ s.returned ++ [o], x = y := by
    intro o ho hal
    have hall : ∀ x ∈ s.returned ++ [o], x = o := by
      intro x hx
      rcases List.mem_append.mp hx with hx | hx
      · rcases ho with ho | ho
        · exact hs hal x hx o ho
        · rw [ho] at hx
          cases hx
      · exact List.mem_singleton.mp hx
    exact fun x hx y hy => (hall x hx).trans (hall y hy).symm
  cases step_effect ht with
  | hit k ok p o hp ho =>
    refine iff_of_true (fun hal => happend (.inl ?_) hal) trivial
    exact hi.registry p (List.mem_of_getElem? hp) o ho
  | opened k ok p o hp hex ho =>
    refine iff_of_true (fun hal => ?_) trivial
    have hals := creatorsAlive_of_set hp hex hal
    refine happend ?_ hals
    by_cases hne : s.returned = []
    · exact .inr hne
    · exact .inl (hi.name hals hs hne ⟨o, true⟩ ho rfl)
  | notOpened k ok p hp hex =>
    refine iff_of_true (fun hal => ?_) trivial
    exact hs (creatorsAlive_of_set hp hex hal)
  | created k p hp hex =>
    constructor
    · intro hag hal
      by_contra hne
      obtain ⟨o, ho⟩ := List.exists_mem_of_ne_nil _ hne
      have heq := hag (hal.set k _ _ hex) o (List.mem_append_left _ ho) s.shm.fresh
        (List.mem_append_right _ (List.mem_singleton_self _))
      have hlt := hi.below o ho
      omega
    · intro hC hal
      have hals := creatorsAlive_of_set hp hex hal
      exact happend (.inr (hC hals)) hals
  | notCreated k out p m hp hex hout hfresh hname =>
    refine iff_of_true (fun hal => ?_) ?_
    · exact hs (creatorsAlive_of_set hp hex hal)
    · cases out with
      | succeeds => exact absurd rfl hout
      | _ => trivial
  | exited k p hp hex =>
    refine iff_of_true (fun hal => ?_) trivial
    exact hs (creatorsAlive_of_set hp hex hal)

/-- **When all calls get the same object**: for any number of processes and any interleaving, the calls
that succeed agree all along the run exactly when every `create` that succeeds does so before any
call has succeeded (or after a creator has exited). -/
theorem agree_iff (n : Nat) (left : Option Bool) (as : List Action) :
    Runs.Always step Agree (State.init n left) as ↔ Runs.Every step CreatesFirst (State.init n left) as :=
  Runs.always_iff_every (fun _ a _ hi ht => Inv.step hi a ht)
    (fun _ a _ hi hs ht => agree_step hi hs a ht) as (inv_init n left) fun _ => nofun

/-- both processes find no object, and both create one -/
theorem two_objects :
    ∃ s, Runs.run step (State.init 2 none)
        [.open 0 true, .open 1 true, .create 0 .succeeds, .create 1 .succeeds] = some s ∧
      s.returned = [1, 2] ∧ ¬ Agree s := by
  refine ⟨_, rfl, rfl, ?_⟩
  decide +kernel

end Topic
end Ipcpp
