import Ipcpp.RealTime.Calls

/-!
# A fetch that runs into the acquire limit

`fetch_message` notices that the limit is reached after it has taken an access to the slot, stored the
new `_next_message_id` and counted the acquire.  The access and the counter are rolled back
(`failed_fetch_buffer`, `failed_fetch_acquires`), the id is not: the subscriber counts the message as
seen.  So the message is lost: until somebody publishes again, every fetch of this subscriber says that
there is no message, however many wrappers it releases (`failed_fetch_loses`).
-/

namespace Ipcpp
namespace RealTime
open Function

section
variable {α : Type}

def Unchanged (s t : State α) (k : Nat) : Prop :=
  t.subscribers[k]? = s.subscribers[k]? ∧ t.buffer = s.buffer

def NoPublish (_ : State α) : Call α → Prop
  | .publish _ _ => False
  | _ => True

instance (s : State α) : (c : Call α) → Decidable (NoPublish s c)
  | .publish _ _ => inferInstanceAs (Decidable False)
  | .createPublisher _ | .destroyPublisher _ | .createSubscriber | .fetchMessage _ | .moveConstruct _
  | .moveAssign _ _ | .destroyWrapper _ => inferInstanceAs (Decidable True)

/-- subscriber `k` has seen everything that was published -/
def Seen (k : Nat) (s : State α) : Prop :=
  ∀ sub, s.subscribers[k]? = some sub → sub.nextMessageId = s.nextMessageId

/-- as long as nobody publishes, no fetch of subscriber `k` returns a message -/
def Lost (L : Layout) (s : State α) (k : Nat) : Prop :=
  ∀ as u sub, Runs.Every (step L) NoPublish s as → Runs.run (step L) s as = some u →
    u.subscribers[k]? = some sub → (fetchMessage u k sub).2 = .error .noMessageAvailable

/-- the state a fetch leaves that runs into the limit -/
theorem fetchMessage_invalidSeek {s : State α} {k : Nat} {sub : Subscriber}
    (h : (fetchMessage s k sub).2 = .error .invalidSeek) :
    s.nextMessageId ≠ sub.nextMessageId ∧ (s.buffer (s.latestPublishedIdx % 2^32)).optValue.isSome ∧
      (fetchMessage s k sub).1 = { s with
        buffer := releaseAccess (update s.buffer (s.latestPublishedIdx % 2^32)
          (s.buffer (s.latestPublishedIdx % 2^32)).acquireUnsafe) (some (s.latestPublishedIdx % 2^32))
        subscribers := s.subscribers.set k ⟨sub.availableAcquires, s.nextMessageId⟩ } := by
  unfold fetchMessage at h ⊢
  dsimp only at h ⊢
  split at h
  · rename_i hid
    rw [if_pos hid]
    split at h
    · rename_i hv
      rw [if_pos hv]
      split at h
      · rename_i ha
        rw [if_pos ha]
        exact ⟨hid, hv, rfl⟩
      · cases h
    · cases h
  · cases h

/-- the access is given back: a consistent slot is as before -/
theorem failed_fetch_buffer {s : State α} {k : Nat} {sub : Subscriber}
    (hslot : (s.buffer (s.latestPublishedIdx % 2^32)).Consistent)
    (h : (fetchMessage s k sub).2 = .error .invalidSeek) : (fetchMessage s k sub).1.buffer = s.buffer := by
  obtain ⟨-, -, ht⟩ := fetchMessage_invalidSeek h
  rw [ht]
  show update (update s.buffer _ _) _ (Message.release _) = s.buffer
  rw [update_self, update_idem, hslot.release_acquireUnsafe, update_eq_self]

theorem failed_fetch_subscriber {s : State α} {k : Nat} {sub : Subscriber}
    (hk : s.subscribers[k]? = some sub) (h : (fetchMessage s k sub).2 = .error .invalidSeek) :
    (fetchMessage s k sub).1.subscribers[k]? = some ⟨sub.availableAcquires, s.nextMessageId⟩ := by
  obtain ⟨-, -, ht⟩ := fetchMessage_invalidSeek h
  obtain ⟨hlt, -⟩ := List.getElem?_eq_some_iff.mp hk
  rw [ht]
  exact List.getElem?_set_self hlt

theorem failed_fetch_acquires {s : State α} {k : Nat} {sub : Subscriber}
    (hk : s.subscribers[k]? = some sub) (h : (fetchMessage s k sub).2 = .error .invalidSeek) :
    ((fetchMessage s k sub).1.subscribers[k]?).map Subscriber.availableAcquires =
      some sub.availableAcquires := by
  rw [failed_fetch_subscriber hk h]
  rfl

/-! ## until the next publication -/

theorem Seen.set {k : Nat} {s : State α} (h : Seen k s) (j : Nat) (n : Int) :
    ∀ sub, (s.subscribers.set j ⟨n, s.nextMessageId⟩)[k]? = some sub → sub.nextMessageId = s.nextMessageId := by
  intro sub hsub
  rw [List.getElem?_set] at hsub
  split at hsub
  · obtain ⟨-, heq⟩ := Option.ite_none_right_eq_some.mp hsub
    rw [← Option.some.inj heq]
  · exact h sub hsub

theorem Seen.giveBack {k : Nat} {s : State α} (h : Seen k s) (j : Nat) :
    ∀ sub, (giveBack s.subscribers j)[k]? = some sub → sub.nextMessageId = s.nextMessageId := by
  intro sub hsub
  rw [RealTime.giveBack, List.getElem?_modify] at hsub
  obtain ⟨old, hold, rfl⟩ := Option.map_eq_some_iff.mp hsub
  have hid := h old hold
  split <;> exact hid

theorem Seen.cleanup {k : Nat} {s : State α} (h : Seen k s) (w : MessageWrapper) :
    ∀ sub, (RealTime.cleanup s w).1.subscribers[k]? = some sub → sub.nextMessageId = s.nextMessageId := by
  unfold RealTime.cleanup
  split
  · exact h
  · exact h.giveBack _

theorem cleanup_nextMessageId (s : State α) (w : MessageWrapper) :
    (cleanup s w).1.nextMessageId = s.nextMessageId := by
  unfold cleanup
  split <;> rfl

theorem Seen.step {k : Nat} {s t : State α} (h : Seen k s) {L : Layout} {c : Call α}
    (hc : NoPublish s c) (ht : step L s c = some t) : Seen k t := by
  cases c with
  | createPublisher e =>
    obtain ⟨-, rfl⟩ := createPublisher_some ht
    exact h
  | destroyPublisher e =>
    obtain ⟨p, -, rfl⟩ := destroyPublisher_some ht
    exact h
  | publish e v => exact hc.elim
  | createSubscriber =>
    obtain ⟨-, rfl⟩ := createSubscriber_some ht
    intro sub hsub
    rcases Nat.lt_or_ge k s.subscribers.length with hlt | hge
    · exact h sub ((List.getElem?_append_left hlt).symm.trans hsub)
    · rw [List.getElem?_append_right hge] at hsub
      rw [List.mem_singleton.mp (List.mem_of_getElem? hsub)]
  | fetchMessage j =>
    obtain ⟨sub, -, rfl⟩ := Option.map_eq_some_iff.mp ht
    rcases fetchMessage_cases s j sub with e | e | e | ⟨-, -, e⟩ <;> rw [e]
    · exact h
    · exact h
    · exact h.set j _
    · exact h.set j _
  | moveConstruct i =>
    obtain ⟨w, -, rfl⟩ := moveConstruct_some ht
    exact h
  | moveAssign i j =>
    obtain ⟨w, o, -, -, ⟨-, rfl⟩ | ⟨-, rfl⟩⟩ := moveAssign_some ht
    · exact h
    · intro sub hsub
      exact (h.cleanup w sub hsub).trans (cleanup_nextMessageId s w).symm
  | destroyWrapper i =>
    obtain ⟨w, -, rfl⟩ := destroyWrapper_some ht
    intro sub hsub
    exact (h.cleanup w sub hsub).trans (cleanup_nextMessageId s w).symm

theorem Seen.lost {k : Nat} {s : State α} (h : Seen k s) (L : Layout) : Lost L s k := by
  intro as u sub has hrun hsub
  have hseen : Seen k u := Runs.run_inv_of_every (fun _ _ _ hs hc ht => hs.step hc ht) as h has hrun
  unfold fetchMessage
  dsimp only
  rw [hseen sub hsub, if_neg (fun hne => hne rfl)]

/-- **A fetch that fails at the acquire limit changes the subscriber and loses the message**: in every
state, for every subscriber, and whatever calls other than `publish` follow. -/
theorem failed_fetch_loses (L : Layout) (s : State α) (k : Nat) (sub : Subscriber)
    (hk : s.subscribers[k]? = some sub) (h : (fetchMessage s k sub).2 = .error .invalidSeek) :
    ¬ Unchanged s (fetchMessage s k sub).1 k ∧ Lost L (fetchMessage s k sub).1 k := by
  have hsub := failed_fetch_subscriber hk h
  obtain ⟨hid, -, ht⟩ := fetchMessage_invalidSeek h
  constructor
  · rintro ⟨hsame, -⟩
    rw [hsub, hk] at hsame
    exact hid (congrArg Subscriber.nextMessageId (Option.some.inj hsame))
  · refine Seen.lost (fun sub' hsub' => ?_) L
    rw [hsub] at hsub'
    rw [← Option.some.inj hsub', ht]

/-- a subscriber with one acquire holds the first message when the second one is published -/
def limitReached : List (Call Nat) :=
  [.createPublisher 0, .createSubscriber, .publish 0 5, .fetchMessage 0, .publish 0 6]

theorem failed_fetch_loses_example :
    ∃ s sub, Runs.run (step exampleLayout) (State.init Nat exampleLayout) limitReached = some s ∧
      s.subscribers[0]? = some sub ∧ (fetchMessage s 0 sub).2 = .error .invalidSeek ∧
      ¬ Unchanged s (fetchMessage s 0 sub).1 0 ∧ Lost exampleLayout (fetchMessage s 0 sub).1 0 := by
  refine ⟨_, ⟨0, 0⟩, rfl, rfl, rfl, ?_⟩
  exact failed_fetch_loses exampleLayout _ 0 ⟨0, 0⟩ rfl rfl

/-- the second fetch fails, the first message is released, and the third fetch finds no message -/
theorem pending_message_lost :
    ∃ s sub, Runs.run (step exampleLayout) (State.init Nat exampleLayout) limitReached = some s ∧
      s.subscribers[0]? = some sub ∧ (fetchMessage s 0 sub).2 = .error .invalidSeek ∧
      ¬ Unchanged s (fetchMessage s 0 sub).1 0 ∧
      ∃ u sub', destroyWrapper (fetchMessage s 0 sub).1 0 = some u ∧ u.subscribers[0]? = some sub' ∧
        0 < sub'.availableAcquires ∧ (fetchMessage u 0 sub').2 = .error .noMessageAvailable := by
  refine ⟨_, ⟨0, 0⟩, rfl, rfl, rfl, ?_, _, ⟨1, 1⟩, rfl, rfl, by decide, rfl⟩
  rintro ⟨hsame, -⟩
  exact absurd hsame (by decide +kernel)

end

end RealTime
end Ipcpp
