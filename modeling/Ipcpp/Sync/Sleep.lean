import Ipcpp.Sync.SharedMutex

/-!
# Sleeping in `shared_futex`

A thread that finds a `shared_futex` taken calls `FUTEX_WAIT` with the value that it has seen.  The kernel puts
it to sleep if the word still has that value, and otherwise the call returns at once.  `unlock` wakes everybody;
`unlock_shared` wakes one thread, and only if the word is zero when it is loaded again after the `fetch_sub`.

* `State.plain_step`   without the queue of the kernel this is the lock of the module before, so its invariant
                       holds;
* `drains`             nobody is left asleep: as long as no weak compare-exchange of `lock` fails while the lock
                       is free, the threads that are in the lock's functions can all leave them again, from any
                       state that is reached and without calls by others.

A compare-exchange that fails for no reason leaves zero in `expected`, and the thread sleeps until somebody else
has taken the lock and given it back.
-/

namespace Ipcpp
namespace Sync
open Counting Runs

namespace SharedFutex
open SharedMutex (sharedFutex)

inductive Pc where
  | idle
  /-- `lock`: at the compare-exchange, at `FUTEX_WAIT`, and asleep -/
  | lock
  | lockWait (expected : Int)
  | lockAsleep
  /-- `lock_shared`: at the load, at the compare-exchange, at `FUTEX_WAIT`, and asleep -/
  | lockShared
  | lockSharedExchange (expected : Int)
  | lockSharedWait (expected : Int)
  | lockSharedAsleep
  /-- holds the lock exclusively; behind the assertion of `unlock`; at `FUTEX_WAKE` for all -/
  | exclusive
  | unlocking
  | wakeAll
  /-- holds the lock shared; behind the assertion of `unlock_shared`; at its load; at `FUTEX_WAKE` for one -/
  | shared
  | unlockingShared
  | unlockedShared
  | wakeOne
  /-- an assertion has failed -/
  | failed
deriving DecidableEq

namespace Pc

def asleep : Pc → Bool
  | lockAsleep | lockSharedAsleep => true
  | _ => false

/-- `FUTEX_WAIT` returns -/
def awaken : Pc → Pc
  | lockAsleep => lock
  | lockSharedAsleep => lockShared
  | pc => pc

/-- in one of the functions, not asleep -/
def awake : Pc → Bool
  | lock | lockWait _ | lockShared | lockSharedExchange _ | lockSharedWait _ => true
  | wakeAll | unlockedShared | wakeOne => true
  | _ => false

/-- the value that `FUTEX_WAIT` is called with -/
def waitsFor : Pc → Option Int
  | lockWait expected => some expected
  | lockSharedWait expected => some expected
  | _ => none

/-- without the kernel -/
def plain : Pc → SharedMutex.Pc
  | idle => .idle
  | lock => .lock
  | lockWait _ | lockAsleep => .lockWait
  | lockShared => .lockShared
  | lockSharedExchange expected => .lockSharedExchange expected
  | lockSharedWait _ | lockSharedAsleep => .lockSharedWait
  | exclusive => .exclusive
  | unlocking => .unlocking
  | shared => .shared
  | unlockingShared => .unlockingShared
  | wakeAll | unlockedShared | wakeOne => .wake
  | failed => .failed

end Pc

inductive Op where
  | lock
  | lockShared

def Op.enter : Op → Pc
  | .lock => .lock
  | .lockShared => .lockShared

structure State where
  flag : Int
  threads : List Pc

def start (n : Nat) : State := ⟨0, List.replicate n .idle⟩

inductive Action where
  | call (i : Nat) (op : Op)
  /-- a holder calls the function that gives back what it holds, and evaluates its assertion -/
  | release (i : Nat)
  /-- thread `i` goes on; `spurious`: its weak compare-exchange fails whatever the word is -/
  | next (i : Nat) (spurious : Bool)
  /-- the `FUTEX_WAKE` of `unlock_shared` wakes thread `j`, if any thread is asleep -/
  | wakeOne (i : Nat) (j : Option Nat)
  /-- `FUTEX_WAIT` returns for another reason -/
  | interrupt (i : Nat)

namespace State
variable (s : State)

def goTo (i : Nat) (pc : Pc) (flag : Int) : State := ⟨flag, s.threads.set i pc⟩

/-- weak compare-exchange of `expected` by `desired` -/
def exchange (i : Nat) (spurious : Bool) (expected desired : Int) (won lost : Pc) : State :=
  if s.flag = expected ∧ spurious = false then s.goTo i won desired else s.goTo i lost s.flag

def next (i : Nat) (spurious : Bool) : Pc → Option State
  | .lock => some (s.exchange i spurious 0 (-1) .exclusive (.lockWait s.flag))
  | .lockWait expected => some (s.goTo i (if s.flag = expected then .lockAsleep else .lock) s.flag)
  | .lockShared => some (s.goTo i (if s.flag ≥ 0 then .lockSharedExchange s.flag else .lockSharedWait s.flag) s.flag)
  | .lockSharedExchange expected =>
    some (s.exchange i spurious expected (sharedFutex.wrap (expected + 1)) .shared .lockShared)
  | .lockSharedWait expected => some (s.goTo i (if s.flag = expected then .lockSharedAsleep else .lockShared) s.flag)
  | .unlocking => some (s.goTo i .wakeAll 0)
  | .unlockingShared => some (s.goTo i .unlockedShared (sharedFutex.wrap (s.flag - 1)))
  | .unlockedShared => some (s.goTo i (if s.flag = 0 then .wakeOne else .idle) s.flag)
  | .wakeAll => some ⟨s.flag, (s.threads.map Pc.awaken).set i .idle⟩
  | _ => none

/-- the assertions of `unlock` and `unlock_shared` -/
def release (i : Nat) : Pc → Option State
  | .exclusive => some (s.goTo i (if s.flag = -1 then .unlocking else .failed) s.flag)
  | .shared => some (s.goTo i (if s.flag > 0 then .unlockingShared else .failed) s.flag)
  | _ => none

def step (s : State) : Action → Option State
  | .call i op => if s.threads[i]? = some .idle then some (s.goTo i op.enter s.flag) else none
  | .release i => (s.threads[i]?).bind (s.release i)
  | .next i spurious => (s.threads[i]?).bind (s.next i spurious)
  | .wakeOne i none =>
    if s.threads[i]? = some .wakeOne ∧ s.threads.all (fun pc => !pc.asleep) then some (s.goTo i .idle s.flag) else none
  | .wakeOne i (some j) => (s.threads[j]?).bind fun pc =>
    if s.threads[i]? = some .wakeOne ∧ pc.asleep then some ((s.goTo i .idle s.flag).goTo j pc.awaken s.flag)
    else none
  | .interrupt i => (s.threads[i]?).bind fun pc => if pc.asleep then some (s.goTo i pc.awaken s.flag) else none

/-- no compare-exchange of `lock` fails while the lock is free -/
def Strong : Action → Prop
  | .next i spurious => s.threads[i]? = some .lock → s.flag = 0 → spurious = false
  | _ => True

instance : (a : Action) → Decidable (s.Strong a)
  | .next i spurious => inferInstanceAs (Decidable (s.threads[i]? = some .lock → s.flag = 0 → spurious = false))
  | .call _ _ | .release _ | .wakeOne _ _ | .interrupt _ => isTrue trivial

/-- without the kernel -/
def plain : SharedMutex.State := ⟨s.flag, s.threads.map Pc.plain⟩

end State

/-! ## without the kernel -/

/-- the steps of the lock without the kernel -/
abbrev plainStep : SharedMutex.State → SharedMutex.Action → Option SharedMutex.State :=
  SharedMutex.State.step sharedFutex

/-- some steps lead from one state to the other -/
def Reaches (p q : SharedMutex.State) : Prop := ∃ as, run plainStep p as = some q

theorem Reaches.refl (p : SharedMutex.State) : Reaches p p := ⟨[], rfl⟩

theorem Reaches.step {p q : SharedMutex.State} {a : SharedMutex.Action} (h : plainStep p a = some q) : Reaches p q :=
  ⟨[a], run_cons.mpr ⟨q, h, rfl⟩⟩

theorem Reaches.trans {p q r : SharedMutex.State} (h : Reaches p q) (h' : Reaches q r) : Reaches p r := by
  obtain ⟨as, has⟩ := h
  obtain ⟨bs, hbs⟩ := h'
  refine ⟨as ++ bs, ?_⟩
  rw [run_append, has]
  exact hbs

section
variable {s t : State} {i : Nat} {pc : Pc}

theorem plain_goTo (s : State) (i : Nat) (pc : Pc) (flag : Int) :
    (s.goTo i pc flag).plain = s.plain.goTo i pc.plain flag :=
  congrArg (SharedMutex.State.mk flag) List.map_set

theorem plain_getElem (hpc : s.threads[i]? = some pc) : s.plain.threads[i]? = some pc.plain := by
  show (s.threads.map Pc.plain)[i]? = _
  rw [List.getElem?_map, hpc]
  rfl

/-- nothing that can be seen without the kernel -/
theorem reaches_self (hpc : s.threads[i]? = some pc) {pc' : Pc} (h : pc'.plain = pc.plain) :
    Reaches s.plain (s.goTo i pc' s.flag).plain := by
  obtain ⟨hi, hget⟩ := List.getElem?_eq_some_iff.mp (plain_getElem hpc)
  have hset : s.plain.threads.set i pc.plain = s.plain.threads := by rw [← hget, List.set_getElem_self]
  rw [plain_goTo, h]
  exact ⟨[], congrArg some (congrArg (SharedMutex.State.mk s.flag) hset.symm)⟩

theorem plain_next (hpc : s.threads[i]? = some pc) (spurious : Bool) :
    plainStep s.plain (.next i spurious) = s.plain.next sharedFutex i spurious pc.plain := by
  show (s.plain.threads[i]?).bind _ = _
  rw [plain_getElem hpc]
  rfl

theorem plain_exchange (s : State) (i : Nat) (spurious : Bool) (expected desired : Int) (won lost : Pc) :
    (s.exchange i spurious expected desired won lost).plain =
      s.plain.exchange i spurious expected desired won.plain lost.plain := by
  unfold State.exchange SharedMutex.State.exchange
  show _ = if s.flag = expected ∧ spurious = false then _ else _
  split <;> exact plain_goTo ..

theorem reaches_goTo (hpc : s.threads[i]? = some pc) {pc' : Pc} {flag : Int} (spurious : Bool)
    (h : s.plain.next sharedFutex i spurious pc.plain = some (s.plain.goTo i pc'.plain flag)) :
    Reaches s.plain (s.goTo i pc' flag).plain := by
  rw [plain_goTo]
  exact .step ((plain_next hpc spurious).trans h)

theorem reaches_exchange (hpc : s.threads[i]? = some pc) {spurious : Bool} {expected desired : Int} {won lost : Pc}
    (h : s.plain.next sharedFutex i spurious pc.plain =
      some (s.plain.exchange i spurious expected desired won.plain lost.plain)) :
    Reaches s.plain (s.exchange i spurious expected desired won lost).plain := by
  rw [plain_exchange]
  exact .step ((plain_next hpc spurious).trans h)

/-- a thread that sleeps wakes up -/
theorem reaches_awaken (hpc : s.threads[i]? = some pc) : Reaches s.plain (s.goTo i pc.awaken s.flag).plain := by
  cases pc with
  | lockAsleep | lockSharedAsleep => exact reaches_goTo hpc false rfl
  | _ => exact reaches_self hpc rfl

/-- everybody wakes up, one after the other -/
theorem reaches_awaken_all (flag : Int) (l : List Pc) : ∀ front : List Pc,
    Reaches (State.mk flag (front ++ l)).plain (State.mk flag (front ++ l.map Pc.awaken)).plain := by
  induction l with
  | nil => exact fun _ => .refl _
  | cons pc l ih =>
    intro front
    have hpc : (State.mk flag (front ++ pc :: l)).threads[front.length]? = some pc := by
      show (front ++ pc :: l)[front.length]? = _
      rw [List.getElem?_append_right le_rfl, Nat.sub_self]
      rfl
    have hset : (front ++ pc :: l).set front.length pc.awaken = (front ++ [pc.awaken]) ++ l := by
      rw [List.set_append_right _ _ le_rfl, Nat.sub_self, List.append_assoc]
      rfl
    have hfirst := reaches_awaken hpc
    unfold State.goTo at hfirst
    rw [hset] at hfirst
    have hrest := ih (front ++ [pc.awaken])
    rw [List.append_assoc front [_] (l.map _)] at hrest
    exact hfirst.trans hrest

theorem State.next_plain (hpc : s.threads[i]? = some pc) {spurious : Bool} (ht : s.next i spurious pc = some t) :
    Reaches s.plain t.plain := by
  cases pc with
  | lock => exact Option.some.inj ht ▸ reaches_exchange hpc rfl
  | lockSharedExchange expected => exact Option.some.inj ht ▸ reaches_exchange hpc rfl
  | unlocking => exact Option.some.inj ht ▸ reaches_goTo hpc false rfl
  | unlockingShared => exact Option.some.inj ht ▸ reaches_goTo hpc false rfl
  | lockWait expected =>
    rw [← Option.some.inj ht]
    by_cases h : s.flag = expected
    · rw [if_pos h]
      exact reaches_self hpc rfl
    · rw [if_neg h]
      exact reaches_goTo hpc false rfl
  | lockSharedWait expected =>
    rw [← Option.some.inj ht]
    by_cases h : s.flag = expected
    · rw [if_pos h]
      exact reaches_self hpc rfl
    · rw [if_neg h]
      exact reaches_goTo hpc false rfl
  | lockShared =>
    rw [← Option.some.inj ht]
    refine reaches_goTo hpc false ?_
    by_cases h : s.flag ≥ 0
    · rw [if_pos h]
      show some (s.plain.goTo i (if decide (¬ s.flag ≥ 0) = true then _ else _) s.flag) = _
      rw [if_neg (by simp [h])]
      rfl
    · rw [if_neg h]
      show some (s.plain.goTo i (if decide (¬ s.flag ≥ 0) = true then _ else _) s.flag) = _
      rw [if_pos (by simp [h])]
      rfl
  | unlockedShared =>
    rw [← Option.some.inj ht]
    by_cases h : s.flag = 0
    · rw [if_pos h]
      exact reaches_self hpc rfl
    · rw [if_neg h]
      exact reaches_goTo hpc false rfl
  | wakeAll =>
    rw [← Option.some.inj ht]
    have hall := reaches_awaken_all s.flag s.threads []
    refine hall.trans ?_
    have hpc' : (State.mk s.flag (s.threads.map Pc.awaken)).threads[i]? = some .wakeAll := by
      show (s.threads.map Pc.awaken)[i]? = _
      rw [List.getElem?_map, hpc]
      rfl
    exact reaches_goTo hpc' false rfl
  | _ => cases ht

theorem reaches_call (hpc : s.threads[i]? = some .idle) (op : Op) :
    Reaches s.plain (s.goTo i op.enter s.flag).plain := by
  rw [plain_goTo]
  cases op with
  | lock => exact .step (a := .call i .lock) (if_pos (plain_getElem hpc))
  | lockShared => exact .step (a := .call i .lockShared) (if_pos (plain_getElem hpc))

theorem State.release_plain (hpc : s.threads[i]? = some pc) (ht : s.release i pc = some t) :
    Reaches s.plain t.plain := by
  have hrelease : plainStep s.plain (.release i) = s.plain.release i pc.plain := by
    show (s.plain.threads[i]?).bind _ = _
    rw [plain_getElem hpc]
    rfl
  refine .step (hrelease.trans ?_)
  cases pc with
  | exclusive =>
    rw [← Option.some.inj ht, plain_goTo, apply_ite Pc.plain]
    rfl
  | shared =>
    rw [← Option.some.inj ht, plain_goTo, apply_ite Pc.plain]
    rfl
  | _ => cases ht

/-- **A step is some steps of the lock without the kernel.** -/
theorem State.plain_step {a : Action} (ht : s.step a = some t) : Reaches s.plain t.plain := by
  cases a with
  | call i op =>
    have ht : (if s.threads[i]? = some .idle then some (s.goTo i op.enter s.flag) else none) = some t := ht
    split at ht
    · rename_i hpc
      rw [← Option.some.inj ht]
      exact reaches_call hpc op
    · cases ht
  | release i =>
    obtain ⟨pc, hpc, hr⟩ := Option.bind_eq_some_iff.mp ht
    exact release_plain hpc hr
  | next i spurious =>
    obtain ⟨pc, hpc, hnext⟩ := Option.bind_eq_some_iff.mp ht
    exact next_plain hpc hnext
  | wakeOne i j =>
    cases j with
    | none =>
      have ht : (if _ then _ else none) = some t := ht
      split at ht
      · rename_i h
        exact Option.some.inj ht ▸ reaches_goTo h.1 false rfl
      · cases ht
    | some j =>
      obtain ⟨pc, hpc, hj⟩ := Option.bind_eq_some_iff.mp ht
      split at hj
      · rename_i h
        have hne : i ≠ j := fun hij => by
          rw [hij, hpc] at h
          obtain rfl := Option.some.inj h.1
          cases h.2
        have hpc' : (s.goTo i .idle s.flag).threads[j]? = some pc := (List.getElem?_set_ne hne).trans hpc
        rw [← Option.some.inj hj]
        exact (reaches_goTo h.1 false rfl : Reaches _ (s.goTo i .idle s.flag).plain).trans (reaches_awaken hpc')
      · cases hj
  | interrupt i =>
    obtain ⟨pc, hpc, hi⟩ := Option.bind_eq_some_iff.mp ht
    split at hi
    · exact Option.some.inj hi ▸ reaches_awaken hpc
    · cases hi

/-! ## the invariant -/

/-- nobody waits for the word to be other than zero, and if somebody sleeps then the lock is taken or somebody else
is in one of the functions -/
structure Wakeful (s : State) : Prop where
  waits : ∀ pc ∈ s.threads, ∀ e ∈ pc.waitsFor, e ≠ 0
  sleep : ∀ pc ∈ s.threads, pc.asleep = true → s.flag ≠ 0 ∨ ∃ pc ∈ s.threads, pc.awake = true

structure Inv (n : Nat) (s : State) : Prop where
  plain : s.plain.Inv n
  wakeful : Wakeful s

theorem waits_set {l : List Pc} (h : ∀ pc ∈ l, ∀ e ∈ pc.waitsFor, e ≠ 0) {pc' : Pc}
    (hpc : ∀ e ∈ pc'.waitsFor, e ≠ 0) : ∀ pc ∈ l.set i pc', ∀ e ∈ pc.waitsFor, e ≠ 0 := fun q hq => by
  rcases List.mem_or_eq_of_mem_set hq with hq | rfl
  · exact h q hq
  · exact hpc

theorem goTo_getElem (hpc : s.threads[i]? = some pc) (pc' : Pc) (flag : Int) :
    (s.goTo i pc' flag).threads[i]? = some pc' :=
  List.getElem?_set_self (List.getElem?_eq_some_iff.mp hpc).1

theorem Wakeful.goTo (h : Wakeful s) (hpc : s.threads[i]? = some pc) {pc' : Pc} {flag : Int}
    (hwaits : ∀ e ∈ pc'.waitsFor, e ≠ 0) (hsleep : flag ≠ 0 ∨ pc'.awake = true) : Wakeful (s.goTo i pc' flag) where
  waits := waits_set h.waits hwaits
  sleep _ _ _ := hsleep.imp id fun hawake => ⟨pc', List.mem_of_getElem? (goTo_getElem hpc pc' flag), hawake⟩

/-- nobody is asleep any more -/
theorem Wakeful.of_awake (hwaits : ∀ pc ∈ s.threads, ∀ e ∈ pc.waitsFor, e ≠ 0)
    (h : ∀ pc ∈ s.threads, pc.asleep = false) : Wakeful s where
  waits := hwaits
  sleep pc hpc hasleep := by
    rw [h pc hpc] at hasleep
    cases hasleep

theorem awaken_awake (h : pc.asleep = true) : pc.awaken.awake = true := by
  cases pc with
  | lockAsleep | lockSharedAsleep => rfl
  | _ => cases h

theorem awaken_waitsFor (pc : Pc) : pc.awaken.waitsFor = pc.waitsFor := by cases pc <;> rfl

theorem awaken_asleep (pc : Pc) : pc.awaken.asleep = false := by cases pc <;> rfl

theorem waits_none {pc' : Pc} (h : pc'.waitsFor = none) : ∀ e ∈ pc'.waitsFor, e ≠ 0 := by
  rw [h]
  exact fun e he => nomatch he

variable {n : Nat}

theorem Inv.release (h : Inv n s) (hpc : s.threads[i]? = some pc) (ht : s.release i pc = some t) : Wakeful t := by
  have hplain := h.plain.word
  cases pc with
  | exclusive =>
    have hpos : 0 < s.plain.exclusiveHolders :=
      List.countP_pos_iff.mpr ⟨_, List.mem_of_getElem? (plain_getElem hpc), rfl⟩
    have hflag : s.flag = -1 := by
      show s.plain.flag = -1
      omega
    rw [← Option.some.inj ht, if_pos hflag]
    exact h.wakeful.goTo hpc (waits_none rfl) (.inl (by omega))
  | shared =>
    have hpos : 0 < s.plain.sharedHolders :=
      List.countP_pos_iff.mpr ⟨_, List.mem_of_getElem? (plain_getElem hpc), rfl⟩
    have hflag : s.flag > 0 := by
      show s.plain.flag > 0
      omega
    rw [← Option.some.inj ht, if_pos hflag]
    exact h.wakeful.goTo hpc (waits_none rfl) (.inl (by omega))
  | _ => cases ht

theorem Inv.next (h : Inv n s) (hn : n < 2^31) {spurious : Bool} (hstrong : s.Strong (.next i spurious))
    (hpc : s.threads[i]? = some pc) (ht : s.next i spurious pc = some t) : Wakeful t := by
  have hmem := List.mem_of_getElem? hpc
  cases pc with
  | lock =>
    rw [← Option.some.inj ht]
    unfold State.exchange
    split
    · exact h.wakeful.goTo hpc (waits_none rfl) (.inl (by decide))
    · rename_i hlost
      refine h.wakeful.goTo hpc (fun e he h0 => hlost ?_) (.inr rfl)
      have hflag : s.flag = 0 := (Option.some.inj he).trans h0
      exact ⟨hflag, hstrong hpc hflag⟩
  | lockSharedExchange expected =>
    rw [← Option.some.inj ht]
    unfold State.exchange
    split
    · have hrange := h.plain.loaded _ (List.mem_of_getElem? (plain_getElem hpc)) expected rfl
      refine h.wakeful.goTo hpc (waits_none rfl) (.inl ?_)
      rw [SharedMutex.sharedFutex_sound.wrap (expected + 1) (by omega) (by omega)]
      omega
    · exact h.wakeful.goTo hpc (waits_none rfl) (.inr rfl)
  | unlocking => exact Option.some.inj ht ▸ h.wakeful.goTo hpc (waits_none rfl) (.inr rfl)
  | unlockingShared => exact Option.some.inj ht ▸ h.wakeful.goTo hpc (waits_none rfl) (.inr rfl)
  | lockWait expected =>
    rw [← Option.some.inj ht]
    split
    · rename_i hflag
      exact h.wakeful.goTo hpc (waits_none rfl) (.inl (hflag ▸ h.wakeful.waits _ hmem expected rfl))
    · exact h.wakeful.goTo hpc (waits_none rfl) (.inr rfl)
  | lockSharedWait expected =>
    rw [← Option.some.inj ht]
    split
    · rename_i hflag
      exact h.wakeful.goTo hpc (waits_none rfl) (.inl (hflag ▸ h.wakeful.waits _ hmem expected rfl))
    · exact h.wakeful.goTo hpc (waits_none rfl) (.inr rfl)
  | lockShared =>
    rw [← Option.some.inj ht]
    split
    · exact h.wakeful.goTo hpc (waits_none rfl) (.inr rfl)
    · rename_i hflag
      refine h.wakeful.goTo hpc (fun e he h0 => hflag ?_) (.inr rfl)
      exact le_of_eq ((Option.some.inj he).trans h0).symm
  | unlockedShared =>
    rw [← Option.some.inj ht]
    split
    · exact h.wakeful.goTo hpc (waits_none rfl) (.inr rfl)
    · exact h.wakeful.goTo hpc (waits_none rfl) (.inl ‹_›)
  | wakeAll =>
    rw [← Option.some.inj ht]
    have hwaits : ∀ q ∈ s.threads.map Pc.awaken, ∀ e ∈ q.waitsFor, e ≠ 0 := fun q hq => by
      obtain ⟨q, hmem', rfl⟩ := List.mem_map.mp hq
      rw [awaken_waitsFor]
      exact h.wakeful.waits q hmem'
    refine .of_awake (waits_set hwaits (waits_none rfl)) fun q hq => ?_
    rcases List.mem_or_eq_of_mem_set hq with hq | rfl
    · obtain ⟨q, -, rfl⟩ := List.mem_map.mp hq
      exact awaken_asleep q
    · rfl
  | _ => cases ht

/-- **One step** of one thread keeps the invariant. -/
theorem Inv.step (h : Inv n s) (hn : n < 2^31) {a : Action} (hstrong : s.Strong a) (ht : s.step a = some t) :
    Inv n t := by
  refine ⟨?_, ?_⟩
  · obtain ⟨as, has⟩ := State.plain_step ht
    exact run_inv (I := fun p : SharedMutex.State => p.Inv n)
      (fun _ _ _ hI ht => hI.step SharedMutex.sharedFutex_sound hn ht) as h.plain has
  · cases a with
    | call i op =>
      have ht : (if s.threads[i]? = some .idle then some (s.goTo i op.enter s.flag) else none) = some t := ht
      split at ht
      · rename_i hpc
        rw [← Option.some.inj ht]
        cases op <;> exact h.wakeful.goTo hpc (waits_none rfl) (.inr rfl)
      · cases ht
    | release i =>
      obtain ⟨pc, hpc, hr⟩ := Option.bind_eq_some_iff.mp ht
      exact h.release hpc hr
    | next i spurious =>
      obtain ⟨pc, hpc, hnext⟩ := Option.bind_eq_some_iff.mp ht
      exact h.next hn hstrong hpc hnext
    | wakeOne i j =>
      cases j with
      | none =>
        have ht : (if _ then _ else none) = some t := ht
        split at ht
        · rename_i hall
          rw [← Option.some.inj ht]
          refine .of_awake (waits_set h.wakeful.waits (waits_none rfl)) fun q hq => ?_
          rcases List.mem_or_eq_of_mem_set hq with hq | rfl
          · exact Bool.not_eq_true' _ ▸ List.all_eq_true.mp hall.2 q hq
          · rfl
        · cases ht
      | some j =>
        obtain ⟨pc, hpc, hj⟩ := Option.bind_eq_some_iff.mp ht
        split at hj
        · rename_i hi
          rw [← Option.some.inj hj]
          have hlt : j < (s.goTo i .idle s.flag).threads.length := by
            show j < (s.threads.set i .idle).length
            rw [List.length_set]
            exact (List.getElem?_eq_some_iff.mp hpc).1
          refine ⟨waits_set (waits_set h.wakeful.waits (waits_none rfl)) ?_, fun _ _ _ => .inr ⟨pc.awaken, ?_, ?_⟩⟩
          · rw [awaken_waitsFor]
            exact h.wakeful.waits pc (List.mem_of_getElem? hpc)
          · exact List.mem_of_getElem? (List.getElem?_set_self hlt)
          · exact awaken_awake hi.2
        · cases hj
    | interrupt i =>
      obtain ⟨pc, hpc, hi⟩ := Option.bind_eq_some_iff.mp ht
      split at hi
      · rename_i hasleep
        rw [← Option.some.inj hi]
        refine h.wakeful.goTo hpc ?_ (.inr (awaken_awake hasleep))
        rw [awaken_waitsFor]
        exact h.wakeful.waits pc (List.mem_of_getElem? hpc)
      · cases hi

theorem start_inv (n : Nat) : Inv n (start n) := by
  have hidle : ∀ pc ∈ (start n).threads, pc = .idle := fun pc hpc => List.eq_of_mem_replicate hpc
  have hplain : (start n).plain = SharedMutex.start n :=
    congrArg (SharedMutex.State.mk 0) List.map_replicate
  refine ⟨hplain ▸ SharedMutex.State.start_inv n, .of_awake (fun pc hpc => ?_) fun pc hpc => ?_⟩
  · exact hidle pc hpc ▸ waits_none rfl
  · exact hidle pc hpc ▸ rfl

/-! ## everybody leaves -/

/-- a step that no new call makes, and no failure without a reason -/
def Quiet : Action → Bool
  | .release _ | .next _ false | .wakeOne _ _ => true
  | _ => false

theorem Quiet.strong {a : Action} (ha : Quiet a = true) (s : State) : s.Strong a := by
  cases a with
  | next i spurious =>
    cases spurious with
    | false => exact fun _ _ => rfl
    | true => cases ha
  | _ => trivial

/-- quiet steps lead from one state to the other -/
def Leads (s t : State) : Prop := ∃ as, (∀ a ∈ as, Quiet a = true) ∧ run State.step s as = some t

theorem Leads.trans {u : State} (h : Leads s t) (h' : Leads t u) : Leads s u := by
  obtain ⟨as, has, hrun⟩ := h
  obtain ⟨bs, hbs, hrun'⟩ := h'
  refine ⟨as ++ bs, fun a ha => (List.mem_append.mp ha).elim (has a) (hbs a), ?_⟩
  rw [run_append, hrun]
  exact hrun'

theorem Leads.step {a : Action} (ha : Quiet a = true) (ht : s.step a = some t) : Leads s t :=
  ⟨[a], fun _ hb => List.mem_singleton.mp hb ▸ ha, run_cons.mpr ⟨t, ht, rfl⟩⟩

theorem Inv.leads (h : Inv n s) (hn : n < 2^31) (hl : Leads s t) : Inv n t := by
  obtain ⟨as, has, hrun⟩ := hl
  refine run_inv_of_every (C := fun _ a => Quiet a = true) (fun s _ _ hI ha ht => hI.step hn (Quiet.strong ha s) ht)
    as h ?_ hrun
  exact every_of_forall (fun a ha _ => has a ha) s

/-- the threads that are in one of the functions, or have the lock -/
def busy (s : State) : Nat := s.threads.countP fun pc => decide (pc ≠ .idle)

/-- quiet steps take a thread out -/
def Drops (s : State) : Prop := ∃ t, Leads s t ∧ busy t < busy s

theorem busy_goTo (hpc : s.threads[i]? = some pc) (hne : pc ≠ .idle) (pc' : Pc) (flag : Int) :
    busy (s.goTo i pc' flag) + 1 = busy s + if pc' = .idle then 0 else 1 := by
  have hset := countP_set (fun pc => decide (pc ≠ Pc.idle)) hpc pc'
  rw [decide_eq_true hne, if_pos rfl] at hset
  refine hset.trans (congrArg _ ?_)
  by_cases h : pc' = .idle
  · rw [if_pos h, decide_eq_false (not_not.mpr h), if_neg Bool.false_ne_true]
  · rw [if_neg h, decide_eq_true h, if_pos rfl]

/-- thread `i` is out -/
theorem drops_idle {flag : Int} (hpc : s.threads[i]? = some pc) (hne : pc ≠ .idle) {a : Action} (ha : Quiet a = true)
    (ht : s.step a = some (s.goTo i .idle flag)) : Drops s := by
  refine ⟨_, .step ha ht, ?_⟩
  have hbusy := busy_goTo hpc hne .idle flag
  rw [if_pos rfl] at hbusy
  omega

/-- thread `i` goes on -/
theorem drops_goTo {pc' : Pc} {flag : Int} (hpc : s.threads[i]? = some pc) (hne : pc ≠ .idle) {a : Action}
    (ha : Quiet a = true) (ht : s.step a = some (s.goTo i pc' flag)) (h : Drops (s.goTo i pc' flag)) : Drops s := by
  obtain ⟨t, hl, hlt⟩ := h
  refine ⟨t, (Leads.step ha ht).trans hl, lt_of_lt_of_le hlt ?_⟩
  have hbusy := busy_goTo hpc hne pc' flag
  split at hbusy <;> omega

theorem step_next (hpc : s.threads[i]? = some pc) : s.step (.next i false) = s.next i false pc := by
  show (s.threads[i]?).bind _ = _
  rw [hpc]
  rfl

theorem step_release (hpc : s.threads[i]? = some pc) : s.step (.release i) = s.release i pc := by
  show (s.threads[i]?).bind _ = _
  rw [hpc]
  rfl

theorem drops_wakeAll (hpc : s.threads[i]? = some .wakeAll) : Drops s := by
  refine ⟨_, .step (a := .next i false) rfl (step_next hpc), ?_⟩
  have hpc' : (State.mk s.flag (s.threads.map Pc.awaken)).threads[i]? = some .wakeAll := by
    show (s.threads.map Pc.awaken)[i]? = _
    rw [List.getElem?_map, hpc]
    rfl
  have hbusy := busy_goTo hpc' (by decide) .idle s.flag
  -- who wakes up stays in the function
  have hmap : busy ⟨s.flag, s.threads.map Pc.awaken⟩ = busy s := by
    unfold busy
    rw [List.countP_map]
    refine List.countP_congr fun pc _ => ?_
    cases pc <;> simp [Pc.awaken]
  rw [if_pos rfl, hmap] at hbusy
  exact Nat.lt_of_succ_le (le_of_eq hbusy)

theorem drops_wakeOne (hpc : s.threads[i]? = some .wakeOne) : Drops s := by
  by_cases h : s.threads.all (fun pc => !pc.asleep) = true
  · exact drops_idle hpc nofun (a := .wakeOne i none) rfl (if_pos ⟨hpc, h⟩)
  · obtain ⟨q, hq, hasleep⟩ : ∃ q ∈ s.threads, q.asleep = true := by
      simpa using h
    obtain ⟨j, hj⟩ := List.mem_iff_getElem?.mp hq
    have hne : i ≠ j := fun hij => by
      rw [← hij, hpc] at hj
      obtain rfl := Option.some.inj hj
      cases hasleep
    have hstep : s.step (.wakeOne i (some j)) = some ((s.goTo i .idle s.flag).goTo j q.awaken s.flag) := by
      show (s.threads[j]?).bind _ = _
      rw [hj]
      exact if_pos ⟨hpc, hasleep⟩
    refine ⟨_, .step rfl hstep, ?_⟩
    have hj' : (s.goTo i .idle s.flag).threads[j]? = some q := (List.getElem?_set_ne hne).trans hj
    have hbusy := busy_goTo hpc (by decide) .idle s.flag
    have hbusy' := busy_goTo hj' (fun hidle => by rw [hidle] at hasleep; cases hasleep) q.awaken s.flag
    rw [if_pos rfl] at hbusy
    split at hbusy' <;> omega

theorem drops_unlockedShared (hpc : s.threads[i]? = some .unlockedShared) : Drops s := by
  by_cases h : s.flag = 0
  · refine drops_goTo hpc nofun (a := .next i false) rfl ((step_next hpc).trans ?_)
      (drops_wakeOne (goTo_getElem hpc .wakeOne s.flag))
    exact congrArg (fun pc => some (s.goTo i pc s.flag)) (if_pos h)
  · have hstep : s.step (.next i false) = some (s.goTo i .idle s.flag) :=
      (step_next hpc).trans (congrArg (fun pc => some (s.goTo i pc s.flag)) (if_neg h))
    exact drops_idle hpc nofun rfl hstep

theorem drops_unlocking (hpc : s.threads[i]? = some .unlocking) : Drops s :=
  drops_goTo hpc nofun rfl (step_next hpc) (drops_wakeAll (goTo_getElem hpc .wakeAll 0))

theorem drops_unlockingShared (hpc : s.threads[i]? = some .unlockingShared) : Drops s :=
  drops_goTo hpc nofun rfl (step_next hpc) (drops_unlockedShared (goTo_getElem hpc .unlockedShared _))

theorem drops_exclusive (hpc : s.threads[i]? = some .exclusive) (hflag : s.flag = -1) : Drops s := by
  refine drops_goTo hpc nofun (a := .release i) rfl ((step_release hpc).trans ?_)
    (drops_unlocking (goTo_getElem hpc .unlocking s.flag))
  exact congrArg (fun pc => some (s.goTo i pc s.flag)) (if_pos hflag)

theorem drops_shared (hpc : s.threads[i]? = some .shared) (hflag : s.flag > 0) : Drops s := by
  refine drops_goTo hpc nofun (a := .release i) rfl ((step_release hpc).trans ?_)
    (drops_unlockingShared (goTo_getElem hpc .unlockingShared s.flag))
  exact congrArg (fun pc => some (s.goTo i pc s.flag)) (if_pos hflag)

/-- the lock is free: a thread takes it and gives it back -/
theorem drops_lock (hpc : s.threads[i]? = some .lock) (hflag : s.flag = 0) : Drops s := by
  refine drops_goTo hpc nofun (a := .next i false) rfl ((step_next hpc).trans ?_)
    (drops_exclusive (goTo_getElem hpc .exclusive (-1)) rfl)
  exact congrArg some (if_pos ⟨hflag, rfl⟩)

theorem drops_lockWait {expected : Int} (hpc : s.threads[i]? = some (.lockWait expected)) (hflag : s.flag = 0)
    (he : expected ≠ 0) : Drops s := by
  refine drops_goTo hpc nofun (a := .next i false) rfl ((step_next hpc).trans ?_)
    (drops_lock (goTo_getElem hpc .lock s.flag) hflag)
  exact congrArg (fun pc => some (s.goTo i pc s.flag)) (if_neg fun h => he (h.symm.trans hflag))

/-- the compare-exchange of a reader that has loaded the word while the lock is free -/
theorem drops_exchange_zero (hpc : s.threads[i]? = some (.lockSharedExchange 0)) (hflag : s.flag = 0) : Drops s := by
  refine drops_goTo hpc nofun (a := .next i false) rfl ((step_next hpc).trans ?_)
    (drops_shared (goTo_getElem hpc .shared 1) (by show (1 : Int) > 0; decide))
  exact congrArg some (if_pos ⟨hflag, rfl⟩)

theorem drops_lockShared (hpc : s.threads[i]? = some .lockShared) (hflag : s.flag = 0) : Drops s := by
  have hstep : s.step (.next i false) = some (s.goTo i (.lockSharedExchange 0) s.flag) := by
    rw [step_next hpc]
    show some (s.goTo i (if s.flag ≥ 0 then .lockSharedExchange s.flag else .lockSharedWait s.flag) s.flag) = _
    rw [if_pos (le_of_eq hflag.symm), hflag]
  exact drops_goTo hpc nofun rfl hstep (drops_exchange_zero (goTo_getElem hpc _ s.flag) hflag)

theorem drops_exchange {expected : Int} (hpc : s.threads[i]? = some (.lockSharedExchange expected))
    (hflag : s.flag = 0) : Drops s := by
  by_cases he : expected = 0
  · subst he
    exact drops_exchange_zero hpc hflag
  · refine drops_goTo hpc nofun (a := .next i false) rfl ((step_next hpc).trans ?_)
      (drops_lockShared (goTo_getElem hpc .lockShared s.flag) hflag)
    exact congrArg some (if_neg fun h => he (h.1.symm.trans hflag))

theorem drops_lockSharedWait {expected : Int} (hpc : s.threads[i]? = some (.lockSharedWait expected))
    (hflag : s.flag = 0) (he : expected ≠ 0) : Drops s := by
  refine drops_goTo hpc nofun (a := .next i false) rfl ((step_next hpc).trans ?_)
    (drops_lockShared (goTo_getElem hpc .lockShared s.flag) hflag)
  exact congrArg (fun pc => some (s.goTo i pc s.flag)) (if_neg fun h => he (h.symm.trans hflag))

/-- a thread that is in one of the functions while the lock is free -/
theorem Inv.drops_awake (h : Inv n s) (hpc : s.threads[i]? = some pc) (hawake : pc.awake = true)
    (hflag : s.flag = 0) : Drops s := by
  have hwaits := h.wakeful.waits pc (List.mem_of_getElem? hpc)
  cases pc with
  | lock => exact drops_lock hpc hflag
  | lockWait expected => exact drops_lockWait hpc hflag (hwaits expected rfl)
  | lockShared => exact drops_lockShared hpc hflag
  | lockSharedExchange expected => exact drops_exchange hpc hflag
  | lockSharedWait expected => exact drops_lockSharedWait hpc hflag (hwaits expected rfl)
  | wakeAll => exact drops_wakeAll hpc
  | unlockedShared => exact drops_unlockedShared hpc
  | wakeOne => exact drops_wakeOne hpc
  | _ => cases hawake

/-- a thread that holds the lock -/
theorem Inv.drops_holder (h : Inv n s) (hflag : s.flag ≠ 0) : Drops s := by
  have hword := h.plain.word
  by_cases hexclusive : s.flag = -1
  · have hpos : 0 < s.plain.exclusiveHolders := by
      have hexclusive : s.plain.flag = -1 := hexclusive
      omega
    obtain ⟨q, hq, hholds⟩ := List.countP_pos_iff.mp hpos
    obtain ⟨pc, hpc, rfl⟩ := List.mem_map.mp hq
    obtain ⟨i, hi⟩ := List.mem_iff_getElem?.mp hpc
    cases pc with
    | exclusive => exact drops_exclusive hi hexclusive
    | unlocking => exact drops_unlocking hi
    | _ => cases hholds
  · have hflag : s.plain.flag ≠ 0 := hflag
    have hexclusive : s.plain.flag ≠ -1 := hexclusive
    have hpos : 0 < s.plain.sharedHolders ∧ s.plain.flag > 0 := by omega
    obtain ⟨q, hq, hholds⟩ := List.countP_pos_iff.mp hpos.1
    obtain ⟨pc, hpc, rfl⟩ := List.mem_map.mp hq
    obtain ⟨i, hi⟩ := List.mem_iff_getElem?.mp hpc
    cases pc with
    | shared => exact drops_shared hi hpos.2
    | unlockingShared => exact drops_unlockingShared hi
    | _ => cases hholds

theorem Inv.drops (h : Inv n s) (hbusy : 0 < busy s) : Drops s := by
  by_cases hflag : s.flag = 0
  · have hawake : ∃ pc ∈ s.threads, pc.awake = true := by
      obtain ⟨pc, hpc, hne⟩ := List.countP_pos_iff.mp hbusy
      by_cases hasleep : pc.asleep = true
      · exact (h.wakeful.sleep pc hpc hasleep).resolve_left (not_not.mpr hflag)
      · refine ⟨pc, hpc, ?_⟩
        have hholders : s.plain.exclusiveHolders = 0 ∧ s.plain.sharedHolders = 0 := by
          have hword := h.plain.word
          have hflag : s.plain.flag = 0 := hflag
          omega
        have hmem : pc.plain ∈ s.plain.threads := List.mem_map_of_mem hpc
        have hexclusive := List.countP_eq_zero.mp hholders.1 _ hmem
        have hshared := List.countP_eq_zero.mp hholders.2 _ hmem
        have hfailed := h.plain.asserts _ hmem
        cases pc with
        | idle => exact absurd rfl (of_decide_eq_true hne)
        | lockAsleep | lockSharedAsleep => exact absurd rfl hasleep
        | exclusive | unlocking => exact absurd rfl hexclusive
        | shared | unlockingShared => exact absurd rfl hshared
        | failed => exact absurd rfl hfailed
        | _ => rfl
    obtain ⟨pc, hpc, hawake⟩ := hawake
    obtain ⟨i, hi⟩ := List.mem_iff_getElem?.mp hpc
    exact h.drops_awake hi hawake hflag
  · exact h.drops_holder hflag

/-- everybody is out -/
theorem Inv.eq_start (h : Inv n s) (hbusy : busy s = 0) : s = start n := by
  have hidle : ∀ pc ∈ s.threads, pc = .idle := fun pc hpc => by
    by_contra hne
    exact List.countP_eq_zero.mp hbusy pc hpc (decide_eq_true hne)
  have hlength : s.threads.length = n := List.length_map (f := Pc.plain) ▸ h.plain.length
  have hzero : ∀ p : SharedMutex.Pc → Bool, p .idle = false → s.plain.threads.countP p = 0 := fun p hp => by
    refine List.countP_eq_zero.mpr fun q hq => ?_
    obtain ⟨pc, hpc, rfl⟩ := List.mem_map.mp hq
    rw [hidle pc hpc]
    exact Bool.eq_false_iff.mp hp
  have hexclusive : s.plain.exclusiveHolders = 0 := hzero _ rfl
  have hshared : s.plain.sharedHolders = 0 := hzero _ rfl
  have hflag : s.plain.flag = 0 := by
    have hword := h.plain.word
    omega
  obtain ⟨flag, threads⟩ := s
  exact congr (congrArg State.mk hflag) (List.eq_replicate_iff.mpr ⟨hlength, hidle⟩)

theorem Inv.leads_start (hn : n < 2^31) (b : Nat) : ∀ {s : State}, Inv n s → busy s ≤ b → Leads s (start n) := by
  induction b with
  | zero =>
    intro s h hb
    rw [h.eq_start (Nat.le_zero.mp hb)]
    exact ⟨[], nofun, rfl⟩
  | succ b ih =>
    intro s h hb
    rcases Nat.eq_zero_or_pos (busy s) with h0 | hpos
    · rw [h.eq_start h0]
      exact ⟨[], nofun, rfl⟩
    · obtain ⟨t, hl, hlt⟩ := h.drops hpos
      exact hl.trans (ih (h.leads hn hl) (by omega))

end

/-- **Nobody is left asleep.**  Fewer than `2^31` threads, any interleaving of their steps, in which no
compare-exchange of `lock` fails while the lock is free: then steps of the threads that are in one of the functions
or have the lock, without new calls, lead from the state that is reached to the one where everybody is out. -/
theorem drains (n : Nat) (hn : n < 2^31) (as : List Action) (s : State)
    (hstrong : Every State.step State.Strong (start n) as) (hrun : run State.step (start n) as = some s) :
    ∃ bs, (∀ b ∈ bs, Quiet b = true) ∧ run State.step s bs = some (start n) := by
  have h : Inv n s := run_inv_of_every (fun _ _ _ hI hC ht => hI.step hn hC ht) as (start_inv n) hstrong hrun
  exact h.leads_start hn (busy s) le_rfl

/-- a reader holds the lock, and two writers sleep -/
def twoWriters : List Action :=
  [.call 0 .lockShared, .next 0 false, .next 0 false, .call 1 .lock, .next 1 false, .call 2 .lock, .next 2 true,
    .next 1 false, .next 2 false]

theorem drains_example : ∃ s, run State.step (start 3) twoWriters = some s ∧
    s.threads = [.shared, .lockAsleep, .lockAsleep] ∧
    ∃ bs, (∀ b ∈ bs, Quiet b = true) ∧ run State.step s bs = some (start 3) :=
  ⟨_, rfl, rfl, drains 3 (by decide) twoWriters _ (by decide) rfl⟩

/-- a compare-exchange that fails for no reason: the thread sleeps though the lock is free -/
example : (run State.step (start 1) [.call 0 .lock, .next 0 true, .next 0 false]).map (fun s => (s.flag, s.threads)) =
    some (0, [.lockAsleep]) := by decide

end SharedFutex

end Sync
end Ipcpp
