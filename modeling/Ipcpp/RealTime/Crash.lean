import Ipcpp.RealTime.Search

/-!
# Publishers that crash

A publisher process may end between two calls without its destructors.  The kernel drops its entry lock,
so the entry can be taken by a new publisher; but the reference that `_prev_published_message` holds is
never given back, and the constructor of the next owner of the entry only resets the entry
(`next_local_message_id`), not the slots of its area.  Each such crash takes one slot of the area away for
good.

`crash_recovery`: as long as no publisher crashes while it keeps a message (that is, after its first
`publish`), a new publisher finds no more used slots in its area than there are wrappers on it, and the
slot search ends after any number of crashes.
-/

namespace Ipcpp
namespace RealTime
open Function Counting Finset Runs

structure CrashState (α : Type) where
  topic : State α
  /-- the entries without an owner whose last owner has crashed -/
  crashed : List Nat

namespace CrashState
variable {α : Type}

inductive Action (α : Type) where
  | call (c : Call α)
  /-- the process of the publisher on entry `e` ends without its destructors -/
  | crash (e : Nat)

def init (α : Type) (L : Layout) : CrashState α := ⟨State.init α L, []⟩

/-- the entry is free again, the shared memory stays as it is -/
def crash (s : CrashState α) (e : Nat) : Option (CrashState α) :=
  match s.topic.publishers[e]? with
  | some (some _) =>
    some ⟨{ s.topic with publishers := s.topic.publishers.set e none }, e :: s.crashed⟩
  | _ => none

/-- an entry with a new owner has not crashed -/
def crashedAfter (crashed : List Nat) : Call α → List Nat
  | .createPublisher e => crashed.filter fun f => f ≠ e
  | _ => crashed

def step (L : Layout) (s : CrashState α) : Action α → Option (CrashState α)
  | .call c =>
    if c.isPlain then (RealTime.step L s.topic c).map fun t => ⟨t, crashedAfter s.crashed c⟩ else none
  | .crash e => s.crash e

/-- a publisher that crashes keeps no message -/
def NothingKept (s : CrashState α) : Action α → Prop
  | .call _ => True
  | .crash e => publisherSlot (s.topic.publishers[e]?).join = none

instance (s : CrashState α) : (a : Action α) → Decidable (s.NothingKept a)
  | .call _ => isTrue trivial
  | .crash e => inferInstanceAs (Decidable (publisherSlot (s.topic.publishers[e]?).join = none))

end CrashState

section
variable {α : Type}

/-- the slots of the area of entry `e` whose id is not `invalid_id_v` -/
def usedSlots (L : Layout) (s : State α) (e : Nat) : Nat :=
  #{j ∈ range L.perPublisherPoolSize | (s.buffer (L.slotIndex e j)).messageId ≠ invalidId}

/-- the live wrappers on the area of entry `e` -/
def wrappersInArea (L : Layout) (s : State α) (e : Nat) : Nat :=
  ∑ j ∈ range L.perPublisherPoolSize, wrappersOn s (L.slotIndex e j)

theorem usedSlots_le_wrappers {L : Layout} {s : State α} (h : Accounted s) {e : Nat}
    (hno : ∀ j, publishersOn s (L.slotIndex e j) = 0) : usedSlots L s e ≤ wrappersInArea L s e := by
  have hused : ∀ j, (s.buffer (L.slotIndex e j)).messageId ≠ invalidId →
      1 ≤ wrappersOn s (L.slotIndex e j) := by
    intro j hj
    have hpos := (h.consistent (L.slotIndex e j)).id_iff.mp hj
    rw [h.counter, refs, hno j] at hpos
    exact hpos
  calc usedSlots L s e
      = ∑ j ∈ range L.perPublisherPoolSize with (s.buffer (L.slotIndex e j)).messageId ≠ invalidId, 1 :=
        card_eq_sum_ones _
    _ ≤ ∑ j ∈ range L.perPublisherPoolSize with (s.buffer (L.slotIndex e j)).messageId ≠ invalidId,
          wrappersOn s (L.slotIndex e j) := sum_le_sum fun j hj => hused j (mem_filter.mp hj).2
    _ ≤ wrappersInArea L s e := sum_le_sum_of_subset (filter_subset _ _)

theorem publishersOn_of_new {L : Layout} {s : State α} (h : PrevInArea L s) {e : Nat}
    (he : s.publishers[e]? = some (some ⟨none⟩)) (j : Nat) : publishersOn s (L.slotIndex e j) = 0 := by
  have hlt : e < L.maxPublishers := h.1 ▸ (List.getElem?_eq_some_iff.mp he).1
  refine (hits_eq_zero_iff _ _ _).mpr fun x hx hslot => ?_
  obtain ⟨p, rfl, hp⟩ := Option.bind_eq_some_iff.mp hslot
  obtain ⟨f, hf⟩ := List.mem_iff_getElem?.mp hx
  obtain ⟨n, hn⟩ := h.2 f p hf _ hp
  have hflt : f < L.maxPublishers := h.1 ▸ (List.getElem?_eq_some_iff.mp hf).1
  obtain rfl : e = f := L.slotIndex_inj hlt hflt hn
  rw [he] at hf
  obtain rfl : (⟨none⟩ : Publisher) = p := Option.some.inj (Option.some.inj hf)
  cases hp

theorem createPublisher_new {s t : State α} {e : Nat} (h : createPublisher s e = some t) :
    t.publishers[e]? = some (some ⟨none⟩) := by
  obtain ⟨he, rfl⟩ := createPublisher_some h
  exact List.getElem?_set_self (List.getElem?_eq_some_iff.mp he).1

end

namespace CrashState
variable {α : Type} {L : Layout} {s t : CrashState α}

theorem crash_some {e : Nat} (ht : s.crash e = some t) :
    ∃ p, s.topic.publishers[e]? = some (some p) ∧
      t.topic = { s.topic with publishers := s.topic.publishers.set e none } := by
  unfold crash at ht
  split at ht
  · rename_i p hp
    exact ⟨p, hp, by rw [← Option.some.inj ht]⟩
  · cases ht

theorem crash_eq_destroy {e : Nat} (hC : s.NothingKept (.crash e)) (ht : s.crash e = some t) :
    destroyPublisher s.topic e = some t.topic := by
  obtain ⟨p, hp, htopic⟩ := crash_some ht
  have hprev : publisherSlot (s.topic.publishers[e]?).join = none := hC
  rw [hp] at hprev
  have hprev' : p.prevPublishedMessage = none := hprev
  unfold destroyPublisher
  rw [hp, htopic]
  show some { s.topic with
      buffer := releaseAccess s.topic.buffer p.prevPublishedMessage
      publishers := s.topic.publishers.set e none } = _
  rw [hprev']
  rfl

/-- **One step** without a lost message keeps what is known of plain calls. -/
theorem bounded_step (h : Bounded L s.topic) {a : Action α} (hC : s.NothingKept a)
    (ht : s.step L a = some t) : Bounded L t.topic := by
  cases a with
  | call c =>
    have ht' : (if c.isPlain then (RealTime.step L s.topic c).map
        fun u => (⟨u, crashedAfter s.crashed c⟩ : CrashState α) else none) = some t := ht
    split at ht'
    · rename_i hc
      obtain ⟨u, hu, rfl⟩ := Option.map_eq_some_iff.mp ht'
      exact h.step hc hu
    · cases ht'
  | crash e => exact h.step (c := .destroyPublisher e) rfl (crash_eq_destroy hC ht)

theorem run_bounded {as : List (Action α)} (hC : Every (step L) NothingKept (init α L) as)
    (hr : run (step L) (init α L) as = some s) : Bounded L s.topic :=
  run_inv_of_every (I := fun s : CrashState α => Bounded L s.topic)
    (fun _ _ _ h hCa ht => bounded_step h hCa ht) as (bounded_init L) hC hr

/-- **Crash recovery.**  In every state of a run of whole calls and crashes in which no publisher crashes
while it keeps a message, a publisher that is constructed on an entry whose last owner has crashed finds
at most as many used slots in its area as there are live wrappers on the area; and for every entry the
slot search ends, whatever `next_local_message_id` is. -/
theorem crash_recovery (L : Layout)
    (hpool : L.maxSubscribers * L.maxConcurrentAcquires + 2 ≤ L.perPublisherPoolSize)
    (as : List (Action α)) (hC : Every (step L) NothingKept (init α L) as) (s : CrashState α)
    (hr : run (step L) (init α L) as = some s) :
    (∀ e t, e ∈ s.crashed → s.step L (.call (.createPublisher e)) = some t →
      usedSlots L t.topic e ≤ wrappersInArea L t.topic e) ∧
    (∀ e < L.maxPublishers, ∀ n, ∃ g n',
      findSlot L s.topic.buffer e L.perPublisherPoolSize n = some (g, n') ∧
        (s.topic.buffer g).messageId = invalidId) := by
  have hB := run_bounded hC hr
  refine ⟨fun e t _ ht => ?_, fun e he n => hB.findSlot hpool he n⟩
  have hBt : Bounded L t.topic := bounded_step (a := .call (.createPublisher e)) hB trivial ht
  obtain ⟨u, hu, rfl⟩ := Option.map_eq_some_iff.mp ht
  exact usedSlots_le_wrappers hBt.accounted (publishersOn_of_new hBt.area (createPublisher_new hu))

/-- a publisher that has not published yet crashes, its successor publishes, and a subscriber keeps
the message -/
def restartCalls : List (Action Nat) :=
  [.call (.createPublisher 0), .crash 0, .call (.createPublisher 0), .call .createSubscriber,
    .call (.publish 0 7), .call (.fetchMessage 0), .call (.destroyPublisher 0), .call (.createPublisher 0),
    .crash 0]

theorem crash_recovery_restart :
    ∃ s t, run (step exampleLayout) (init Nat exampleLayout) restartCalls = some s ∧
      s.step exampleLayout (.call (.createPublisher 0)) = some t ∧
      usedSlots exampleLayout t.topic 0 ≤ wrappersInArea exampleLayout t.topic 0 := by
  refine ⟨_, _, rfl, rfl, ?_⟩
  exact (crash_recovery exampleLayout (by decide) restartCalls (by decide) _ rfl).1 0 _ (by decide) rfl

/-- publish once and crash -/
def publishAndCrash : List (Action Nat) :=
  [.call (.createPublisher 0), .call (.publish 0 7), .crash 0]

/-- a crash after a `publish` leaves a used slot behind without a wrapper on it; after four of them in a
pool of four slots, the search finds no free slot any more -/
theorem crash_after_publish_leaks :
    (∃ s t, run (step exampleLayout) (init Nat exampleLayout) publishAndCrash = some s ∧ 0 ∈ s.crashed ∧
      s.step exampleLayout (.call (.createPublisher 0)) = some t ∧
      ¬ usedSlots exampleLayout t.topic 0 ≤ wrappersInArea exampleLayout t.topic 0) ∧
    (∃ s, run (step exampleLayout) (init Nat exampleLayout)
        (publishAndCrash ++ publishAndCrash ++ publishAndCrash ++ publishAndCrash) = some s ∧
      ∀ n < 4, (s.topic.buffer (exampleLayout.slotIndex 0 n)).messageId ≠ invalidId) := by
  refine ⟨⟨_, _, rfl, by decide, rfl, by decide⟩, ⟨_, rfl, by decide⟩⟩

end CrashState

end RealTime
end Ipcpp
