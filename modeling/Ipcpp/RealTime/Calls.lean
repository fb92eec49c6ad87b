import Ipcpp.Lib.Runs
import Ipcpp.RealTime.Message

/-!
# Real-time publish/subscribe, one whole call after another

The state of one topic: the message buffer and the header in shared memory, the publishers (by entry
index, so two live publishers never share one), the subscribers with their acquire counters and all
`MessageWrapper` objects.  `step` is one whole call of

* `RealTimePublisher::publish` (`publish`; `none` if its slot search finds no free slot),
* `RealTimeSubscriber::fetch_message` (`fetchMessage`),
* the move constructor, the move assignment and the destructor of `MessageWrapper`,
* the constructors of publishers and subscribers and the destructor of a publisher.

A wrapper is named by its position in `State.wrappers` and keeps it after it was moved from; the entry
of a destroyed wrapper is `none`.  `_acquire_counter` points into a subscriber, so it is modelled by
the position of that subscriber, `nullptr` by `none`; an `Access` is the index of its slot.
-/

namespace Ipcpp
namespace RealTime
open Function

structure Publisher where
  prevPublishedMessage : Option Nat
  deriving DecidableEq

structure Subscriber where
  availableAcquires : Int
  nextMessageId : Nat
  deriving DecidableEq

structure MessageWrapper where
  acquireCounter : Option Nat
  access : Option Nat
  deriving DecidableEq

structure State (α : Type) where
  buffer : Nat → Message α
  nextMessageId : Nat
  latestPublishedIdx : Nat
  nextLocalMessageId : Nat → Nat
  publishers : List (Option Publisher)
  subscribers : List Subscriber
  wrappers : List (Option MessageWrapper)

/-- why `fetch_message` returned no wrapper (its `std::errc` values) -/
inductive FetchError where
  | invalidSeek
  | noMessageAvailable
  deriving DecidableEq

section
variable {α : Type}

/-- a freshly initialised topic with room for the publishers of `L` -/
def State.init (α : Type) (L : Layout) : State α where
  buffer := fun _ => {}
  nextMessageId := 2^64 - 1
  latestPublishedIdx := 2^64 - 1
  nextLocalMessageId := fun _ => 0
  publishers := List.replicate L.maxPublishers none
  subscribers := []
  wrappers := []

/-- `Access::release` -/
def releaseAccess (b : Nat → Message α) : Option Nat → Nat → Message α
  | none => b
  | some i => update b i (b i).release

/-! ## publishers -/

/-- the `while (true)` loop of `publish`, cut off after `fuel` rounds: the first slot from local id
`n` on whose id is `invalid_id_v`, and `next_local_message_id` afterwards -/
def findSlot (L : Layout) (b : Nat → Message α) (e : Nat) : Nat → Nat → Option (Nat × Nat)
  | 0, _ => none
  | fuel + 1, n =>
    if (b (L.slotIndex e n)).messageId = invalidId then some (L.slotIndex e n, (n + 1) % 2^32)
    else findSlot L b e fuel ((n + 1) % 2^32)

/-- the constructor of `RealTimePublisher` on the free entry `e` -/
def createPublisher (s : State α) (e : Nat) : Option (State α) :=
  match s.publishers[e]? with
  | some none =>
    some { s with
      nextLocalMessageId := update s.nextLocalMessageId e 0
      publishers := s.publishers.set e (some ⟨none⟩) }
  | _ => none

/-- `publish` of the publisher `p` on entry `e` once its search has chosen slot `g` -/
def publishAt (s : State α) (e : Nat) (p : Publisher) (g n : Nat) (v : α) : State α :=
  let b := update s.buffer g ((s.buffer g).emplace g v)
  let b := update b g (b g).acquireUnsafe
  { s with
    buffer := releaseAccess b p.prevPublishedMessage
    latestPublishedIdx := g
    nextMessageId := (s.nextMessageId + 1) % 2^64
    nextLocalMessageId := update s.nextLocalMessageId e n
    publishers := s.publishers.set e (some ⟨some g⟩) }

/-- `RealTimePublisher::publish` -/
def publish (L : Layout) (s : State α) (e : Nat) (v : α) : Option (State α) :=
  match s.publishers[e]? with
  | some (some p) =>
    (findSlot L s.buffer e L.perPublisherPoolSize (s.nextLocalMessageId e)).map fun gn =>
      publishAt s e p gn.1 gn.2 v
  | _ => none

/-- destructor of a publisher: `_prev_published_message` is released -/
def destroyPublisher (s : State α) (e : Nat) : Option (State α) :=
  match s.publishers[e]? with
  | some (some p) =>
    some { s with
      buffer := releaseAccess s.buffer p.prevPublishedMessage
      publishers := s.publishers.set e none }
  | _ => none

/-! ## subscribers -/

/-- `RealTimeSubscriber::create`, while one of the `max_subscribers` entries is free -/
def createSubscriber (L : Layout) (s : State α) : Option (State α) :=
  if s.subscribers.length < L.maxSubscribers then
    some { s with
      subscribers := s.subscribers ++ [⟨(L.maxConcurrentAcquires : Int), s.nextMessageId⟩] }
  else none

/-- `RealTimeSubscriber::fetch_message` of subscriber `k`: the new state, and the new wrapper or why
there is none.  `operator[]` of the buffer takes a `uint_half_t`. -/
def fetchMessage (s : State α) (k : Nat) (sub : Subscriber) : State α × Except FetchError Nat :=
  let i := s.latestPublishedIdx % 2^32
  let m := (s.buffer i).acquireUnsafe
  let b := update s.buffer i m
  if s.nextMessageId ≠ sub.nextMessageId then
    if m.optValue.isSome then
      if sub.availableAcquires ≤ 0 then
        -- the local access goes out of scope, the message counts as seen
        ({ s with
            buffer := releaseAccess b (some i)
            subscribers := s.subscribers.set k ⟨sub.availableAcquires, s.nextMessageId⟩ },
          .error .invalidSeek)
      else
        ({ s with
            buffer := b
            subscribers := s.subscribers.set k ⟨sub.availableAcquires - 1, s.nextMessageId⟩
            wrappers := s.wrappers ++ [some ⟨some k, some i⟩] },
          .ok s.wrappers.length)
    else
      ({ s with buffer := releaseAccess b (some i) }, .error .noMessageAvailable)
  else (s, .error .noMessageAvailable)

/-! ## wrappers -/

/-- `_acquire_counter->fetch_add(1)` -/
def giveBack (subs : List Subscriber) (k : Nat) : List Subscriber :=
  subs.modify k fun sub => { sub with availableAcquires := sub.availableAcquires + 1 }

/-- `MessageWrapper::cleanup` -/
def cleanup (s : State α) (w : MessageWrapper) : State α × MessageWrapper :=
  match w.acquireCounter with
  | none => (s, w)
  | some k =>
    ({ s with
        buffer := releaseAccess s.buffer w.access
        subscribers := giveBack s.subscribers k },
      { w with access := none })

/-- `MessageWrapper(MessageWrapper&&)` from wrapper `i` -/
def moveConstruct (s : State α) (i : Nat) : Option (State α) :=
  match s.wrappers[i]? with
  | some (some w) =>
    some { s with wrappers := s.wrappers.set i (some ⟨none, none⟩) ++ [some ⟨w.acquireCounter, w.access⟩] }
  | _ => none

/-- `operator=(MessageWrapper&&)` of wrapper `i` (holding `w`) from another wrapper `j` (holding `o`).
The two counter pointers are swapped, they are not handed over. -/
def assignFrom (s : State α) (i j : Nat) (w o : MessageWrapper) : State α :=
  let c := cleanup s w
  { c.1 with
    buffer := releaseAccess c.1.buffer c.2.access
    wrappers := (s.wrappers.set i (some ⟨o.acquireCounter, o.access⟩)).set j
      (some ⟨c.2.acquireCounter, none⟩) }

/-- `operator=(MessageWrapper&&)`: wrapper `i` becomes what wrapper `j` was -/
def moveAssign (s : State α) (i j : Nat) : Option (State α) :=
  match s.wrappers[i]?, s.wrappers[j]? with
  | some (some w), some (some o) => if i = j then some s else some (assignFrom s i j w o)
  | _, _ => none

/-- `~MessageWrapper` of wrapper `i` (holding `w`): `cleanup`, then the destructor of its access -/
def dropWrapper (s : State α) (i : Nat) (w : MessageWrapper) : State α :=
  let c := cleanup s w
  { c.1 with
    buffer := releaseAccess c.1.buffer c.2.access
    wrappers := s.wrappers.set i none }

def destroyWrapper (s : State α) (i : Nat) : Option (State α) :=
  match s.wrappers[i]? with
  | some (some w) => some (dropWrapper s i w)
  | _ => none

/-! ## one call -/

inductive Call (α : Type) where
  | createPublisher (e : Nat)
  | destroyPublisher (e : Nat)
  | publish (e : Nat) (v : α)
  | createSubscriber
  | fetchMessage (k : Nat)
  | moveConstruct (i : Nat)
  | moveAssign (i j : Nat)
  | destroyWrapper (i : Nat)

def step (L : Layout) (s : State α) : Call α → Option (State α)
  | .createPublisher e => createPublisher s e
  | .destroyPublisher e => destroyPublisher s e
  | .publish e v => publish L s e v
  | .createSubscriber => createSubscriber L s
  | .fetchMessage k => (s.subscribers[k]?).map fun sub => (fetchMessage s k sub).1
  | .moveConstruct i => moveConstruct s i
  | .moveAssign i j => moveAssign s i j
  | .destroyWrapper i => destroyWrapper s i

/-! ## what a call can do -/

theorem createPublisher_some {s t : State α} {e : Nat} (h : createPublisher s e = some t) :
    s.publishers[e]? = some none ∧
      t = { s with
        nextLocalMessageId := update s.nextLocalMessageId e 0
        publishers := s.publishers.set e (some ⟨none⟩) } := by
  unfold createPublisher at h
  split at h
  · exact ⟨‹_›, (Option.some.inj h).symm⟩
  · cases h

theorem destroyPublisher_some {s t : State α} {e : Nat} (h : destroyPublisher s e = some t) :
    ∃ p, s.publishers[e]? = some (some p) ∧
      t = { s with
        buffer := releaseAccess s.buffer p.prevPublishedMessage
        publishers := s.publishers.set e none } := by
  unfold destroyPublisher at h
  split at h
  · exact ⟨_, ‹_›, (Option.some.inj h).symm⟩
  · cases h

theorem publish_some {L : Layout} {s t : State α} {e : Nat} {v : α} (h : publish L s e v = some t) :
    ∃ p g n, s.publishers[e]? = some (some p) ∧
      findSlot L s.buffer e L.perPublisherPoolSize (s.nextLocalMessageId e) = some (g, n) ∧
      t = publishAt s e p g n v := by
  unfold publish at h
  split at h
  · obtain ⟨⟨g, n⟩, hg, ht⟩ := Option.map_eq_some_iff.mp h
    exact ⟨_, g, n, ‹_›, hg, ht.symm⟩
  · cases h

theorem createSubscriber_some {L : Layout} {s t : State α} (h : createSubscriber L s = some t) :
    s.subscribers.length < L.maxSubscribers ∧
      t = { s with
        subscribers := s.subscribers ++ [⟨(L.maxConcurrentAcquires : Int), s.nextMessageId⟩] } := by
  unfold createSubscriber at h
  split at h
  · exact ⟨‹_›, (Option.some.inj h).symm⟩
  · cases h

/-- the two slots a `fetch_message` can leave behind: as it was, or with one more reference -/
theorem fetchMessage_cases (s : State α) (k : Nat) (sub : Subscriber) :
    let i := s.latestPublishedIdx % 2^32
    let b := update s.buffer i (s.buffer i).acquireUnsafe
    (fetchMessage s k sub).1 = s ∨
    (fetchMessage s k sub).1 = { s with buffer := releaseAccess b (some i) } ∨
    (fetchMessage s k sub).1 = { s with
      buffer := releaseAccess b (some i)
      subscribers := s.subscribers.set k ⟨sub.availableAcquires, s.nextMessageId⟩ } ∨
    ((s.buffer i).optValue.isSome ∧ 0 < sub.availableAcquires ∧
      (fetchMessage s k sub).1 = { s with
        buffer := b
        subscribers := s.subscribers.set k ⟨sub.availableAcquires - 1, s.nextMessageId⟩
        wrappers := s.wrappers ++ [some ⟨some k, some i⟩] }) := by
  intro i b
  unfold fetchMessage
  by_cases h1 : s.nextMessageId ≠ sub.nextMessageId
  · simp only [if_pos h1]
    by_cases hv : (s.buffer i).acquireUnsafe.optValue.isSome
    · rw [if_pos hv]
      by_cases ha : sub.availableAcquires ≤ 0
      · rw [if_pos ha]
        exact .inr (.inr (.inl rfl))
      · rw [if_neg ha]
        exact .inr (.inr (.inr ⟨hv, by omega, rfl⟩))
    · rw [if_neg hv]
      exact .inr (.inl rfl)
  · exact .inl (congrArg Prod.fst (if_neg h1))

theorem moveConstruct_some {s t : State α} {i : Nat} (h : moveConstruct s i = some t) :
    ∃ w, s.wrappers[i]? = some (some w) ∧
      t = { s with
        wrappers := s.wrappers.set i (some ⟨none, none⟩) ++ [some ⟨w.acquireCounter, w.access⟩] } := by
  unfold moveConstruct at h
  split at h
  · exact ⟨_, ‹_›, (Option.some.inj h).symm⟩
  · cases h

theorem moveAssign_some {s t : State α} {i j : Nat} (h : moveAssign s i j = some t) :
    ∃ w o, s.wrappers[i]? = some (some w) ∧ s.wrappers[j]? = some (some o) ∧
      (i = j ∧ t = s ∨ i ≠ j ∧ t = assignFrom s i j w o) := by
  unfold moveAssign at h
  split at h
  · refine ⟨_, _, ‹_›, ‹_›, ?_⟩
    split at h
    · exact .inl ⟨‹_›, (Option.some.inj h).symm⟩
    · exact .inr ⟨‹_›, (Option.some.inj h).symm⟩
  · cases h

theorem destroyWrapper_some {s t : State α} {i : Nat} (h : destroyWrapper s i = some t) :
    ∃ w, s.wrappers[i]? = some (some w) ∧ t = dropWrapper s i w := by
  unfold destroyWrapper at h
  split at h
  · exact ⟨_, ‹_›, (Option.some.inj h).symm⟩
  · cases h

end

end RealTime
end Ipcpp
