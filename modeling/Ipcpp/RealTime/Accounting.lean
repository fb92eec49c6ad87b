import Ipcpp.Lib.Counting
import Ipcpp.RealTime.Calls

/-!
# Slot accounting of the real-time buffer, call by call

`refs s i` counts who refers to slot `i`: the live wrappers on it and the publishers that keep it as
their previous message.  `Accounted s`: in every slot the counter is that number and the value, the id
and the counter agree on whether the slot is free (`Message.Consistent`).

Every call keeps it (`Accounted.step`): a release gives back exactly one reference
(`releaseAccess_counter`), an access that is taken and dropped inside `fetch_message` changes nothing
(`Message.Consistent.release_acquireUnsafe`), and `publish` takes a slot whose id is `invalid_id_v`,
which nobody refers to (`findSlot_free`).
-/

namespace Ipcpp
namespace RealTime
open Function Counting

section
variable {α : Type}

def wrapperSlot (w : Option MessageWrapper) : Option Nat := w.bind MessageWrapper.access

/-- the slot a publisher keeps -/
def publisherSlot (p : Option Publisher) : Option Nat := p.bind Publisher.prevPublishedMessage

/-- live wrappers on slot `i` -/
def wrappersOn (s : State α) (i : Nat) : Nat := hits wrapperSlot s.wrappers i

/-- publishers whose `_prev_published_message` refers to slot `i` -/
def publishersOn (s : State α) (i : Nat) : Nat := hits publisherSlot s.publishers i

def refs (s : State α) (i : Nat) : Nat := wrappersOn s i + publishersOn s i

/-- every slot is accounted for -/
structure Accounted (s : State α) : Prop where
  counter : ∀ i, (s.buffer i).activeReferenceCounter = refs s i
  consistent : ∀ i, (s.buffer i).Consistent

/-! ## releases -/

theorem releaseAccess_counter (b : Nat → Message α) (a : Option Nat) (i : Nat) :
    (releaseAccess b a i).activeReferenceCounter = (b i).activeReferenceCounter - hit a i := by
  cases a with
  | none => rfl
  | some j =>
    rw [hit_some]
    by_cases h : j = i
    · subst h
      rw [if_pos rfl]
      show (update b j (b j).release j).activeReferenceCounter = _
      rw [update_self, Message.release_counter]
    · rw [if_neg h]
      show (update b j (b j).release i).activeReferenceCounter = _
      rw [update_of_ne (Ne.symm h)]
      omega

theorem releaseAccess_consistent {b : Nat → Message α} (h : ∀ i, (b i).Consistent) (a : Option Nat)
    (i : Nat) : (releaseAccess b a i).Consistent := by
  cases a with
  | none => exact h i
  | some j =>
    show (update b j (b j).release i).Consistent
    by_cases e : i = j
    · subst e
      rw [update_self]
      exact (h i).release
    · rw [update_of_ne e]
      exact h i

theorem releaseAccess_acquire {b : Nat → Message α} {i : Nat} (h : (b i).Consistent) :
    releaseAccess (update b i (b i).acquireUnsafe) (some i) = b := by
  show update (update b i (b i).acquireUnsafe) i (update b i (b i).acquireUnsafe i).release = b
  rw [update_self, update_idem, h.release_acquireUnsafe, update_eq_self]

/-! ## the slot search -/

theorem findSlot_free {L : Layout} {b : Nat → Message α} {e : Nat} (fuel : Nat) :
    ∀ {n g n'}, findSlot L b e fuel n = some (g, n') →
      (b g).messageId = invalidId ∧ ∃ m, g = L.slotIndex e m := by
  induction fuel with
  | zero => intro n g n' h; cases h
  | succ fuel ih =>
    intro n g n' h
    unfold findSlot at h
    by_cases hf : (b (L.slotIndex e n)).messageId = invalidId
    · rw [if_pos hf] at h
      obtain ⟨rfl, -⟩ := Prod.mk.inj (Option.some.inj h)
      exact ⟨hf, n, rfl⟩
    · rw [if_neg hf] at h
      exact ih h

theorem Accounted.refs_eq_zero {s : State α} (h : Accounted s) {i : Nat}
    (hi : (s.buffer i).messageId = invalidId) : refs s i = 0 := by
  have h1 := (h.consistent i).id_iff
  rw [← h.counter i]
  rcases Nat.eq_zero_or_pos (s.buffer i).activeReferenceCounter with h0 | h0
  · exact h0
  · exact absurd hi (h1.mpr h0)

/-! ## one call -/

theorem accounted_init (L : Layout) : Accounted (State.init α L) where
  counter i := by
    show 0 = hits _ [] i + hits _ (List.replicate _ none) i
    rw [hits_nil, hits_replicate _ _ _ rfl]
  consistent _ := Message.consistent_default

theorem Accounted.createPublisher {s t : State α} (h : Accounted s) {e : Nat}
    (ht : createPublisher s e = some t) : Accounted t := by
  obtain ⟨he, rfl⟩ := createPublisher_some ht
  refine ⟨fun i => ?_, h.consistent⟩
  have h1 := h.counter i
  have h2 := hits_set publisherSlot he (some ⟨none⟩) i
  simp only [refs, wrappersOn, publishersOn, publisherSlot, Option.bind_none, Option.bind_some,
    hit_none] at h1 h2 ⊢
  omega

theorem Accounted.destroyPublisher {s t : State α} (h : Accounted s) {e : Nat}
    (ht : destroyPublisher s e = some t) : Accounted t := by
  obtain ⟨p, he, rfl⟩ := destroyPublisher_some ht
  refine ⟨fun i => ?_, releaseAccess_consistent h.consistent _⟩
  have h1 := h.counter i
  have h2 := hits_set publisherSlot he none i
  simp only [releaseAccess_counter, refs, wrappersOn, publishersOn, publisherSlot, Option.bind_none,
    Option.bind_some, hit_none] at h1 h2 ⊢
  omega

/-- the buffer between the publisher's own `acquire_unsafe` and the release of its last message -/
theorem emplace_acquire_counter (b : Nat → Message α) (g id : Nat) (v : α) (i : Nat) :
    (update b g ((b g).emplace id v).acquireUnsafe i).activeReferenceCounter
      = (b i).activeReferenceCounter + hit (some g) i := by
  rw [hit_some]
  by_cases h : g = i
  · subst h
    rw [update_self, if_pos rfl]
    rfl
  · rw [update_of_ne (Ne.symm h), if_neg h]
    rfl

theorem Accounted.publish {L : Layout} {s t : State α} (h : Accounted s) {e : Nat} {v : α}
    (ht : publish L s e v = some t) : Accounted t := by
  obtain ⟨p, g, n, he, hg, rfl⟩ := publish_some ht
  obtain ⟨hfree, m, hm⟩ := findSlot_free _ hg
  have hne : g ≠ invalidId := hm ▸ L.slotIndex_ne_invalid e m
  have hb : (publishAt s e p g n v).buffer
      = releaseAccess (update s.buffer g ((s.buffer g).emplace g v).acquireUnsafe)
          p.prevPublishedMessage := by
    show releaseAccess (update (update _ _ _) g _) _ = _
    rw [update_idem, update_self]
  refine ⟨fun i => ?_, ?_⟩
  · have h1 := h.counter i
    have h2 := hits_set publisherSlot he (some ⟨some g⟩) i
    rw [hb, releaseAccess_counter, emplace_acquire_counter]
    simp only [refs, wrappersOn, publishersOn, publisherSlot, Option.bind_some, publishAt] at h1 h2 ⊢
    omega
  · rw [hb]
    refine releaseAccess_consistent (fun i => ?_) _
    by_cases hi : i = g
    · subst hi
      rw [update_self]
      exact Message.consistent_emplace_acquire _ _ hne v
    · rw [update_of_ne hi]
      exact h.consistent i

theorem Accounted.fetchMessage {s : State α} (h : Accounted s) (k : Nat) (sub : Subscriber) :
    Accounted (fetchMessage s k sub).1 := by
  have hback := releaseAccess_acquire (h.consistent (s.latestPublishedIdx % 2^32))
  rcases fetchMessage_cases s k sub with e | e | e | ⟨hv, -, e⟩
  · rw [e]
    exact h
  · rw [e, hback]
    exact h
  · rw [e, hback]
    exact ⟨h.counter, h.consistent⟩
  · rw [e]
    clear hback e
    generalize s.latestPublishedIdx % 2^32 = i at hv ⊢
    refine ⟨fun j => ?_, fun j => ?_⟩
    · have h1 := h.counter j
      show (update s.buffer i (s.buffer i).acquireUnsafe j).activeReferenceCounter
        = hits wrapperSlot (s.wrappers ++ [some ⟨some k, some i⟩]) j + publishersOn s j
      rw [hits_append, hits_singleton]
      show _ = wrappersOn s j + hit (some i) j + publishersOn s j
      rw [hit_some]
      unfold refs at h1
      by_cases hj : j = i
      · subst hj
        rw [update_self, if_pos rfl]
        show (s.buffer j).activeReferenceCounter + 1 = _
        omega
      · rw [update_of_ne hj, if_neg (Ne.symm hj)]
        omega
    · show (update s.buffer i (s.buffer i).acquireUnsafe j).Consistent
      by_cases hj : j = i
      · subst hj
        rw [update_self]
        exact (h.consistent j).acquireUnsafe hv
      · rw [update_of_ne hj]
        exact h.consistent j

theorem Accounted.moveConstruct {s t : State α} (h : Accounted s) {i : Nat}
    (ht : moveConstruct s i = some t) : Accounted t := by
  obtain ⟨w, hw, rfl⟩ := moveConstruct_some ht
  refine ⟨fun j => ?_, h.consistent⟩
  have h1 := h.counter j
  have h2 := hits_set wrapperSlot hw (some ⟨none, none⟩) j
  simp only [refs, wrappersOn, publishersOn, hits_append, hits_singleton, wrapperSlot,
    Option.bind_some, hit_none] at h1 h2 ⊢
  omega

/-- what `cleanup` and a release of whatever access is left after it do to the buffer: one release of
the wrapper's access -/
theorem cleanup_release (s : State α) (w : MessageWrapper) :
    releaseAccess (cleanup s w).1.buffer (cleanup s w).2.access = releaseAccess s.buffer w.access := by
  unfold cleanup
  cases w.acquireCounter <;> rfl

theorem cleanup_publishers (s : State α) (w : MessageWrapper) :
    (cleanup s w).1.publishers = s.publishers := by
  unfold cleanup
  cases w.acquireCounter <;> rfl

theorem Accounted.assignFrom {s : State α} (h : Accounted s) {i j : Nat} (hij : i ≠ j)
    {w o : MessageWrapper} (hw : s.wrappers[i]? = some (some w)) (ho : s.wrappers[j]? = some (some o)) :
    Accounted (assignFrom s i j w o) := by
  refine ⟨fun k => ?_, ?_⟩
  · have h1 := h.counter k
    have h2 := hits_set wrapperSlot hw (some ⟨o.acquireCounter, o.access⟩) k
    have ho' : (s.wrappers.set i (some ⟨o.acquireCounter, o.access⟩))[j]? = some (some o) := by
      rw [List.getElem?_set_ne hij]
      exact ho
    have h3 := hits_set wrapperSlot ho' (some ⟨(cleanup s w).2.acquireCounter, none⟩) k
    show (releaseAccess (cleanup s w).1.buffer (cleanup s w).2.access k).activeReferenceCounter
      = hits wrapperSlot ((s.wrappers.set i _).set j _) k + hits publisherSlot (cleanup s w).1.publishers k
    rw [cleanup_release, cleanup_publishers, releaseAccess_counter]
    simp only [refs, wrappersOn, publishersOn, wrapperSlot, Option.bind_some, hit_none] at h1 h2 h3 ⊢
    omega
  · show ∀ k, (releaseAccess (cleanup s w).1.buffer (cleanup s w).2.access k).Consistent
    rw [cleanup_release]
    exact releaseAccess_consistent h.consistent _

theorem Accounted.dropWrapper {s : State α} (h : Accounted s) {i : Nat} {w : MessageWrapper}
    (hw : s.wrappers[i]? = some (some w)) : Accounted (dropWrapper s i w) := by
  refine ⟨fun k => ?_, ?_⟩
  · have h1 := h.counter k
    have h2 := hits_set wrapperSlot hw none k
    show (releaseAccess (cleanup s w).1.buffer (cleanup s w).2.access k).activeReferenceCounter
      = hits wrapperSlot (s.wrappers.set i none) k + hits publisherSlot (cleanup s w).1.publishers k
    rw [cleanup_release, cleanup_publishers, releaseAccess_counter]
    simp only [refs, wrappersOn, publishersOn, wrapperSlot, Option.bind_some, Option.bind_none,
      hit_none] at h1 h2 ⊢
    omega
  · show ∀ k, (releaseAccess (cleanup s w).1.buffer (cleanup s w).2.access k).Consistent
    rw [cleanup_release]
    exact releaseAccess_consistent h.consistent _

/-- **Every call keeps the slots accounted for.** -/
theorem Accounted.step {L : Layout} {s t : State α} (h : Accounted s) (c : Call α)
    (ht : step L s c = some t) : Accounted t := by
  cases c with
  | createPublisher e => exact h.createPublisher ht
  | destroyPublisher e => exact h.destroyPublisher ht
  | publish e v => exact h.publish ht
  | createSubscriber =>
    obtain ⟨-, rfl⟩ := createSubscriber_some ht
    exact ⟨h.counter, h.consistent⟩
  | fetchMessage k =>
    obtain ⟨sub, -, rfl⟩ := Option.map_eq_some_iff.mp ht
    exact h.fetchMessage k sub
  | moveConstruct i => exact h.moveConstruct ht
  | moveAssign i j =>
    obtain ⟨w, o, hw, ho, ⟨-, rfl⟩ | ⟨hij, rfl⟩⟩ := moveAssign_some ht
    · exact h
    · exact h.assignFrom hij hw ho
  | destroyWrapper i =>
    obtain ⟨w, hw, rfl⟩ := destroyWrapper_some ht
    exact h.dropWrapper hw

theorem accounted_run {L : Layout} {cs : List (Call α)} {s : State α}
    (h : Runs.run (step L) (State.init α L) cs = some s) : Accounted s :=
  Runs.run_inv (fun _ c _ hs ht => hs.step c ht) cs (accounted_init L) h

/-- **Slot accounting at call granularity.**  After any sequence of whole calls, in every slot the
counter is the number of live wrappers on it plus the number of publishers that keep it, and it holds
a value iff its id is not `invalid_id_v` iff its counter is positive; and the slot the next `publish`
of any publisher chooses is one that no wrapper and no publisher refers to. -/
theorem slots_accounted (L : Layout) (cs : List (Call α)) (s : State α)
    (h : Runs.run (step L) (State.init α L) cs = some s) :
    (∀ i, (s.buffer i).activeReferenceCounter = wrappersOn s i + publishersOn s i ∧
      ((s.buffer i).optValue.isSome ↔ (s.buffer i).messageId ≠ invalidId) ∧
      ((s.buffer i).messageId ≠ invalidId ↔ 0 < (s.buffer i).activeReferenceCounter)) ∧
    (∀ e fuel n g n', findSlot L s.buffer e fuel n = some (g, n') →
      wrappersOn s g = 0 ∧ publishersOn s g = 0) := by
  have hA := accounted_run h
  refine ⟨fun i => ⟨hA.counter i, (hA.consistent i).value_iff, (hA.consistent i).id_iff⟩, ?_⟩
  intro e fuel n g n' hg
  have h0 := hA.refs_eq_zero (findSlot_free fuel hg).1
  unfold refs at h0
  omega

/-- both publishers publish, the subscriber fetches, moves its wrapper and is refused a second message -/
def exampleCalls : List (Call Nat) :=
  [.createPublisher 0, .createPublisher 1, .createSubscriber, .publish 0 7, .fetchMessage 0,
    .moveConstruct 0, .publish 1 8, .fetchMessage 0, .destroyWrapper 0, .publish 0 9]

theorem slots_accounted_example :
    ∃ s, Runs.run (step exampleLayout) (State.init Nat exampleLayout) exampleCalls = some s ∧
      (s.buffer 0).activeReferenceCounter = wrappersOn s 0 + publishersOn s 0 := by
  refine ⟨_, rfl, ?_⟩
  exact ((slots_accounted exampleLayout exampleCalls _ rfl).1 0).1

end

end RealTime
end Ipcpp
