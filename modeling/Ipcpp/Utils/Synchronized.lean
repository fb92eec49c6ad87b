import Ipcpp.Lib.Sections
import Ipcpp.Sync.SharedMutex

/-!
# `synchronized`

A value and a mutex.  `with_write_lock` and `with_read_lock` hold the lock while a function that the caller
passes works on the value; `wlock` and `rlock` return a `LockedPtrAccess`, which takes the lock in its
constructor and gives it back in its destructor.  What is done with the value in between is any number of
accesses, each of which may depend on what the thread has seen; a function that throws has made the accesses up
to there.

The mutex is `shared_mutex` or `shared_futex`, one atomic operation a step, and each access is a step.

`sections_atomic`: the sections that are over have the effects and the results that they have when they run one
after the other, in the order in which they end, and so has what the others have done so far.
-/

namespace Ipcpp
namespace Synchronized
open Sync Sync.SharedMutex Sections Runs Counting

inductive Call where
  | withWriteLock
  | withReadLock
  | wlock
  | rlock

def Call.op : Call → Op
  | .withWriteLock => .lock
  | .withReadLock => .lockShared
  | .wlock => .lock
  | .rlock => .lockShared

/-- `record`: `_data` and what the threads have done with it -/
structure State (α β : Type*) where
  mutex : SharedMutex.State
  record : Record α β

inductive Action (α β : Type*) where
  | call (i : Nat) (c : Call)
  /-- thread `i` goes on in `lock`, `lock_shared`, `unlock` or `unlock_shared` -/
  | next (i : Nat) (spurious : Bool)
  /-- an access of thread `i` that may change the value, or one that only reads -/
  | write (i : Nat) (f : α × β → α × β)
  | read (i : Nat) (g : α → β → β)
  /-- the function has returned, or the `LockedPtrAccess` is destroyed -/
  | release (i : Nat)

section
variable {α β : Type*} (I : Impl)

def init (n : Nat) (d : α) (locals : Nat → β) : State α β := ⟨SharedMutex.start n, .init d locals⟩

namespace State
variable (s : State α β)

def writing (i : Nat) : Prop := s.mutex.threads[i]? = some .exclusive

def reading (i : Nat) : Prop := s.mutex.threads[i]? = some .shared

instance (i : Nat) : Decidable (s.writing i) := inferInstanceAs (Decidable (_ = _))

instance (i : Nat) : Decidable (s.reading i) := inferInstanceAs (Decidable (_ = _))

def step : Action α β → Option (State α β)
  | .call i c => (SharedMutex.State.step I s.mutex (.call i c.op)).map fun m => { s with mutex := m }
  | .next i spurious => (SharedMutex.State.step I s.mutex (.next i spurious)).map fun m =>
    let t := { s with mutex := m }
    if t.writing i ∨ t.reading i then { t with record := s.record.begin i } else t
  | .write i f => if s.writing i then some { s with record := s.record.access i f } else none
  | .read i g =>
    if s.writing i ∨ s.reading i then some { s with record := s.record.access i (Sections.reading g) } else none
  | .release i => (SharedMutex.State.step I s.mutex (.release i)).map fun m => ⟨m, s.record.finish i⟩

end State

end

/-! ## what a step of the mutex does -/

section
variable {I : Impl} {m m' : SharedMutex.State} {n i j : Nat} {pc : Pc}

theorem exchange_eq (m : SharedMutex.State) (i : Nat) (spurious : Bool) (expected desired : Int) (won lost : Pc) :
    ∃ pc' flag, m.exchange i spurious expected desired won lost = m.goTo i pc' flag := by
  unfold SharedMutex.State.exchange
  split
  · exact ⟨_, _, rfl⟩
  · exact ⟨_, _, rfl⟩

theorem next_cases {spurious : Bool} (h : m.next I i spurious pc = some m') :
    pc ≠ .exclusive ∧ pc ≠ .shared ∧ ∃ pc' flag, m' = m.goTo i pc' flag := by
  cases pc with
  | exclusive | shared | idle | failed => cases h
  | lock | tryLock | lockSharedExchange | tryLockSharedExchange =>
    obtain ⟨pc', flag, heq⟩ := exchange_eq m i spurious _ _ _ _
    exact ⟨nofun, nofun, pc', flag, (Option.some.inj h).symm.trans heq⟩
  | _ => exact ⟨nofun, nofun, _, _, (Option.some.inj h).symm⟩

theorem release_cases (h : m.release i pc = some m') :
    (pc = .exclusive ∨ pc = .shared) ∧ ∃ pc' flag, m' = m.goTo i pc' flag ∧ pc' ≠ .exclusive ∧ pc' ≠ .shared := by
  cases pc with
  | exclusive =>
    refine ⟨.inl rfl, _, _, (Option.some.inj h).symm, ?_⟩
    split <;> exact ⟨nofun, nofun⟩
  | shared =>
    refine ⟨.inr rfl, _, _, (Option.some.inj h).symm, ?_⟩
    split <;> exact ⟨nofun, nofun⟩
  | _ => cases h

/-- a thread that holds the lock exclusively is alone -/
theorem alone (h : m.Inv n) (hi : m.threads[i]? = some .exclusive) (hj : m.threads[j]? = some pc) (hji : j ≠ i) :
    pc.isExclusive = false ∧ pc.isShared = false := by
  have hword := h.word
  have hpos : 0 < m.exclusiveHolders := List.countP_pos_iff.mpr ⟨_, List.mem_of_getElem? hi, rfl⟩
  constructor
  · have hset := countP_set Pc.isExclusive hi .idle
    have hzero : (m.threads.set i .idle).countP Pc.isExclusive = 0 := by
      unfold SharedMutex.State.exclusiveHolders at hword
      simp only [Pc.isExclusive, Bool.false_eq_true, ↓reduceIte] at hset
      omega
    have hj' : (m.threads.set i .idle)[j]? = some pc := (List.getElem?_set_ne hji.symm).trans hj
    have hmem := List.mem_of_getElem? hj'
    exact Bool.eq_false_iff.mpr (List.countP_eq_zero.mp hzero pc hmem)
  · have hzero : m.sharedHolders = 0 := by omega
    exact Bool.eq_false_iff.mpr (List.countP_eq_zero.mp hzero pc (List.mem_of_getElem? hj))

theorem goTo_self (hi : m.threads[i]? = some pc) (pc' : Pc) (flag : Int) :
    (m.goTo i pc' flag).threads[i]? = some pc' :=
  List.getElem?_set_self (List.getElem?_eq_some_iff.mp hi).1

theorem goTo_of_ne (h : j ≠ i) (pc' : Pc) (flag : Int) : (m.goTo i pc' flag).threads[j]? = m.threads[j]? :=
  List.getElem?_set_ne h.symm

end

/-! ## the invariant -/

section
variable {α β : Type*} {I : Impl} {n : Nat} {d : α}

structure Inv (n : Nat) (d : α) (s : State α β) : Prop where
  mutex : s.mutex.Inv n
  record : ∃ e, Sections.Inv s.writing s.reading d e s.record

theorem init_inv (n : Nat) (d : α) (locals : Nat → β) : Inv n d (init n d locals) where
  mutex := SharedMutex.State.start_inv n
  record := by
    have hidle : ∀ (i : Nat) (pc : Pc), (List.replicate n Pc.idle)[i]? = some pc → pc = .idle := fun i pc h =>
      List.eq_of_mem_replicate (List.mem_of_getElem? h)
    refine ⟨d, Sections.init_inv (fun i h => ?_) (fun i h => ?_) d locals⟩
    · cases hidle i _ h
    · cases hidle i _ h

variable {s t : State α β} {i : Nat}

/-- a step of the mutex in which nobody takes the lock and no holder gives it back -/
theorem Inv.wait (h : Inv n d s) {m : SharedMutex.State} (hm : m.Inv n) {pc pc' : Pc} {flag : Int}
    (hpc : s.mutex.threads[i]? = some pc) (heq : m = s.mutex.goTo i pc' flag) (hnot : pc ≠ .exclusive)
    (hnot' : pc' ≠ .exclusive ∧ pc' ≠ .shared) : Inv n d { s with mutex := m } := by
  obtain ⟨e, he⟩ := h.record
  refine ⟨hm, e, he.wait (fun j hj => ?_) fun j hj => ?_⟩
  · subst heq
    by_cases hji : j = i
    · subst hji
      have hself := goTo_self hpc pc' flag
      rcases hj with hj | hj
      · exact (hnot'.1 (Option.some.inj (hself.symm.trans hj))).elim
      · exact (hnot'.2 (Option.some.inj (hself.symm.trans hj))).elim
    · have hsame := @goTo_of_ne s.mutex _ _ hji pc' flag
      exact hj.imp (fun hj => hsame.symm.trans hj) fun hj => hsame.symm.trans hj
  · subst heq
    have hji : j ≠ i := fun hji => by
      subst hji
      exact hnot (Option.some.inj (hpc.symm.trans hj))
    exact (goTo_of_ne hji pc' flag).trans hj

theorem Inv.begin (h : Inv n d s) {m : SharedMutex.State} (hm : m.Inv n) {pc pc' : Pc} {flag : Int}
    (hpc : s.mutex.threads[i]? = some pc) (heq : m = s.mutex.goTo i pc' flag) (hnot : pc ≠ .exclusive)
    (hnot' : pc' = .exclusive ∨ pc' = .shared) : Inv n d ⟨m, s.record.begin i⟩ := by
  obtain ⟨e, he⟩ := h.record
  subst heq
  refine ⟨hm, e, he.begin (fun j hj => ?_) fun j hji hj => ?_⟩
  · have hji : j ≠ i := fun hji => by
      subst hji
      exact hnot (Option.some.inj (hpc.symm.trans hj))
    have hj' := (goTo_of_ne hji pc' flag).trans hj
    obtain ⟨hexclusive, hshared⟩ := alone hm hj' (goTo_self hpc pc' flag) hji.symm
    rcases hnot' with rfl | rfl
    · cases hexclusive
    · cases hshared
  · have hsame := @goTo_of_ne s.mutex _ _ hji pc' flag
    exact hj.imp (fun hj => hsame.symm.trans hj) fun hj => hsame.symm.trans hj

theorem Inv.alone (h : Inv n d s) (hi : s.writing i) {j : Nat} (hji : j ≠ i) : ¬ (s.writing j ∨ s.reading j) := by
  rintro (hj | hj)
  · cases (Synchronized.alone h.mutex hi hj hji).1
  · cases (Synchronized.alone h.mutex hi hj hji).2

theorem Inv.release (h : Inv n d s) {m : SharedMutex.State} (hm : m.Inv n) {pc pc' : Pc} {flag : Int}
    (hpc : s.mutex.threads[i]? = some pc) (heq : m = s.mutex.goTo i pc' flag) (hholds : pc = .exclusive ∨ pc = .shared)
    (hnot' : pc' ≠ .exclusive ∧ pc' ≠ .shared) : Inv n d ⟨m, s.record.finish i⟩ := by
  obtain ⟨e, he⟩ := h.record
  subst heq
  have hothers : ∀ j, State.writing ⟨s.mutex.goTo i pc' flag, s.record.finish i⟩ j ∨
      State.reading ⟨s.mutex.goTo i pc' flag, s.record.finish i⟩ j → j ≠ i ∧ (s.writing j ∨ s.reading j) := by
    intro j hj
    have hji : j ≠ i := fun hji => by
      subst hji
      have hself := goTo_self hpc pc' flag
      rcases hj with hj | hj
      · exact hnot'.1 (Option.some.inj (hself.symm.trans hj))
      · exact hnot'.2 (Option.some.inj (hself.symm.trans hj))
    exact ⟨hji, hj.imp (fun hj => (goTo_of_ne hji pc' flag).symm.trans hj)
      fun hj => (goTo_of_ne hji pc' flag).symm.trans hj⟩
  rcases hholds with rfl | rfl
  · exact ⟨hm, _, he.finish_write hpc fun j hj => h.alone hpc (hothers j hj).1 (hothers j hj).2⟩
  · refine ⟨hm, e, he.finish_read hpc (fun j hj => ?_) fun j hj => (hothers j hj).2⟩
    have hij : i ≠ j := fun hij => by
      subst hij
      cases Option.some.inj (hpc.symm.trans hj)
    exact h.alone hj hij (.inr hpc)

/-- **One step** of one thread keeps the invariant. -/
theorem Inv.step (h : Inv n d s) (hI : I.Sound) (hn : n < 2^31) {a : Action α β} (ht : s.step I a = some t) :
    Inv n d t := by
  cases a with
  | call i c =>
    obtain ⟨m, hm, rfl⟩ := Option.map_eq_some_iff.mp ht
    have hcall : (if s.mutex.threads[i]? = some .idle then some (s.mutex.goTo i c.op.enter s.mutex.flag) else none) =
      some m := hm
    split at hcall
    · rename_i hpc
      refine h.wait (h.mutex.step hI hn hm) hpc (Option.some.inj hcall).symm nofun ?_
      cases c <;> exact ⟨nofun, nofun⟩
    · cases hcall
  | next i spurious =>
    obtain ⟨m, hm, rfl⟩ := Option.map_eq_some_iff.mp ht
    have hinv := h.mutex.step hI hn hm
    obtain ⟨pc, hpc, hnext⟩ := Option.bind_eq_some_iff.mp hm
    obtain ⟨hexclusive, -, pc', flag, heq⟩ := next_cases hnext
    have hself : m.threads[i]? = some pc' := heq ▸ goTo_self hpc pc' flag
    dsimp only
    split
    · rename_i hholds
      refine h.begin hinv hpc heq hexclusive ?_
      exact hholds.imp (fun hj => Option.some.inj (hself.symm.trans hj))
        fun hj => Option.some.inj (hself.symm.trans hj)
    · rename_i hholds
      refine h.wait hinv hpc heq hexclusive ⟨fun hpc' => hholds (.inl ?_), fun hpc' => hholds (.inr ?_)⟩
      · exact hself.trans (congrArg some hpc')
      · exact hself.trans (congrArg some hpc')
  | write i f =>
    obtain ⟨e, he⟩ := h.record
    simp only [State.step] at ht
    split at ht
    · rename_i hi
      exact Option.some.inj ht ▸ ⟨h.mutex, e, he.write hi (fun j hji => h.alone hi hji) f⟩
    · cases ht
  | read i g =>
    obtain ⟨e, he⟩ := h.record
    simp only [State.step] at ht
    split at ht
    · rename_i hi
      exact Option.some.inj ht ▸ ⟨h.mutex, e, he.read hi g⟩
    · cases ht
  | release i =>
    obtain ⟨m, hm, rfl⟩ := Option.map_eq_some_iff.mp ht
    obtain ⟨pc, hpc, hrelease⟩ := Option.bind_eq_some_iff.mp hm
    obtain ⟨hholds, pc', flag, heq, hnot'⟩ := release_cases hrelease
    exact h.release (h.mutex.step hI hn hm) hpc heq hholds hnot'

end

/-- **Sections are atomic.**  Any number of threads below `2^31`, any interleaving of their steps: the sections that
are over have the effects and the results that they have one after the other (`Serial`), which lead to a value `e`;
what a holder has done so far it has done to `e` alone; and the value is `e` if nobody writes. -/
theorem sections_atomic {α β : Type*} (I : Impl) (hI : I = sharedMutex ∨ I = sharedFutex) (n : Nat) (hn : n < 2^31)
    (d : α) (locals : Nat → β) (as : List (Action α β)) (s : State α β)
    (hrun : run (State.step I) (init n d locals) as = some s) :
    ∃ e, Serial d s.record.log e ∧ ((∀ i, ¬ s.writing i) → s.record.data = e) ∧
      ∀ i, s.writing i ∨ s.reading i →
        effect (s.record.accesses i) (e, s.record.start i) = (s.record.data, s.record.locals i) := by
  have hsound : I.Sound := by
    rcases hI with rfl | rfl
    · exact sharedMutex_sound
    · exact sharedFutex_sound
  have h : Inv n d s :=
    run_inv (I := fun s : State α β => Inv n d s) (fun _ _ _ hI ht => hI.step hsound hn ht) as
      (init_inv n d locals) hrun
  obtain ⟨e, he⟩ := h.record
  exact ⟨e, he.serial, he.settled, he.running⟩

/-- a thread that adds one to the value, in two accesses -/
def increment (i : Nat) : List (Action Nat Nat) := [.write i fun p => (p.1, p.1), .write i fun p => (p.2 + 1, p.2)]

/-- two threads that do so, and a third one that reads in between: one has to wait for the other -/
def exampleSteps : List (Action Nat Nat) :=
  [.call 0 .withWriteLock, .call 1 .wlock, .next 0 false, .next 1 false, .write 0 fun p => (p.1, p.1), .next 1 false,
    .write 0 fun p => (p.2 + 1, p.2), .next 1 true, .release 0, .next 0 false, .call 2 .rlock, .next 2 false,
    .next 2 false, .read 2 fun d _ => d, .next 1 false, .next 1 false, .release 2, .next 2 false, .next 1 false,
    .next 1 false] ++ increment 1 ++ [.release 1]

theorem sections_atomic_example : ∃ s : State Nat Nat,
    run (State.step sharedMutex) (init 3 0 fun _ => 0) exampleSteps = some s ∧ Serial 0 s.record.log 2 := by
  obtain ⟨s, hrun, hs⟩ := Option.map_eq_some_iff.mp (show (run (State.step sharedMutex) (init 3 0 fun _ => 0)
    exampleSteps).map (fun s => (s.record.data, s.mutex.threads)) = some (2, [.idle, .unlocking, .idle])
    by decide +kernel)
  obtain ⟨e, hserial, hsettled, -⟩ := sections_atomic sharedMutex (.inl rfl) 3 (by decide) 0 (fun _ => 0) _ s hrun
  have hdata : s.record.data = 2 := congrArg Prod.fst hs
  have hthreads : s.mutex.threads = [.idle, .unlocking, .idle] := congrArg Prod.snd hs
  have hnone : ∀ i, ¬ s.writing i := fun i hi => by
    have hmem : Pc.exclusive ∈ s.mutex.threads := List.mem_of_getElem? hi
    rw [hthreads] at hmem
    exact absurd hmem (by decide)
  obtain rfl : 2 = e := hdata.symm.trans (hsettled hnone)
  exact ⟨s, hrun, hserial⟩

end Synchronized
end Ipcpp
