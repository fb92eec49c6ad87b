import Ipcpp.Lib.Counting
import Ipcpp.RealTime.Calls

/-!
# The acquire limit of a subscriber

`LimitKept L s`: for every subscriber, what is left on its acquire counter plus the messages its
wrappers hold is the limit, so it never holds more than that.

A wrapper is HOLLOW if it has a counter pointer but no message.  Cleaning up a hollow wrapper gives
back an acquire that nobody took.  `limitKept_iff`: a run keeps the limit exactly when none of its
calls cleans up a hollow wrapper.  The move constructor never makes one; the move assignment does,
exactly when its target still has a counter pointer, because the two pointers are swapped
(`noHollow_step`).
-/

namespace Ipcpp
namespace RealTime
open Function Counting

section
variable {α : Type}

/-- the subscriber whose message a wrapper holds -/
def holder (w : Option MessageWrapper) : Option Nat :=
  w.bind fun w => if w.access.isSome then w.acquireCounter else none

/-- wrappers of subscriber `k` that hold a message -/
def held (s : State α) (k : Nat) : Nat := hits holder s.wrappers k

def LimitKept (L : Layout) (s : State α) : Prop :=
  ∀ k sub, s.subscribers[k]? = some sub →
    sub.availableAcquires + (held s k : Int) = L.maxConcurrentAcquires ∧
      held s k ≤ L.maxConcurrentAcquires

def Hollow (w : MessageWrapper) : Prop := w.acquireCounter.isSome ∧ w.access = none

def NoHollowCleanup (s : State α) : Call α → Prop
  | .destroyWrapper i => ∀ w, s.wrappers[i]? = some (some w) → ¬ Hollow w
  | .moveAssign i j => i ≠ j → ∀ w, s.wrappers[i]? = some (some w) → ¬ Hollow w
  | _ => True

/-! ## what holds in every state -/

/-- counters are not negative, counter pointers point to subscribers, a wrapper that holds a message
has a counter pointer -/
structure Owned (L : Layout) (s : State α) : Prop where
  nonneg : ∀ sub ∈ s.subscribers, 0 ≤ sub.availableAcquires
  inRange : ∀ w, some w ∈ s.wrappers → ∀ k, w.acquireCounter = some k → k < s.subscribers.length
  owner : ∀ w, some w ∈ s.wrappers → w.access.isSome → w.acquireCounter.isSome
  count : s.subscribers.length ≤ L.maxSubscribers

theorem owned_init (L : Layout) : Owned L (State.init α L) :=
  ⟨by simp [State.init], by simp [State.init], by simp [State.init], Nat.zero_le _⟩

theorem giveBack_length (subs : List Subscriber) (k : Nat) :
    (giveBack subs k).length = subs.length := by
  simp [giveBack]

theorem giveBack_nonneg {subs : List Subscriber} (h : ∀ sub ∈ subs, 0 ≤ sub.availableAcquires)
    (k : Nat) : ∀ sub ∈ giveBack subs k, 0 ≤ sub.availableAcquires := by
  intro sub hsub
  obtain ⟨i, hi⟩ := List.mem_iff_getElem?.mp hsub
  unfold giveBack at hi
  rw [List.getElem?_modify] at hi
  obtain ⟨x, hx, rfl⟩ := Option.map_eq_some_iff.mp hi
  have hx0 := h x (List.mem_of_getElem? hx)
  by_cases hk : k = i
  · rw [if_pos hk]
    show 0 ≤ x.availableAcquires + 1
    omega
  · rw [if_neg hk]
    exact hx0

/-- the subscribers after `cleanup` -/
theorem cleanup_subscribers (s : State α) (w : MessageWrapper) :
    (cleanup s w).1.subscribers = match w.acquireCounter with
      | none => s.subscribers
      | some k => giveBack s.subscribers k := by
  unfold cleanup
  cases w.acquireCounter <;> rfl

theorem cleanup_counter (s : State α) (w : MessageWrapper) :
    (cleanup s w).2.acquireCounter = w.acquireCounter := by
  unfold cleanup
  cases h : w.acquireCounter <;> simp [h]

theorem Owned.cleanup {L : Layout} {s : State α} (h : Owned L s) (w : MessageWrapper) :
    (∀ sub ∈ (cleanup s w).1.subscribers, 0 ≤ sub.availableAcquires) ∧
      (cleanup s w).1.subscribers.length = s.subscribers.length := by
  rw [cleanup_subscribers]
  cases w.acquireCounter with
  | none => exact ⟨h.nonneg, rfl⟩
  | some k => exact ⟨giveBack_nonneg h.nonneg k, giveBack_length _ _⟩

theorem Owned.fetchMessage {L : Layout} {s : State α} (h : Owned L s) {k : Nat} {sub : Subscriber}
    (hk : s.subscribers[k]? = some sub) : Owned L (fetchMessage s k sub).1 := by
  have hsub := h.nonneg sub (List.mem_of_getElem? hk)
  obtain ⟨hlt, -⟩ := List.getElem?_eq_some_iff.mp hk
  rcases fetchMessage_cases s k sub with e | e | e | ⟨-, ha, e⟩ <;> rw [e]
  · exact h
  · exact ⟨h.nonneg, h.inRange, h.owner, h.count⟩
  · refine ⟨fun x hx => ?_, ?_, h.owner, ?_⟩
    · rcases List.mem_or_eq_of_mem_set hx with hx | rfl
      · exact h.nonneg x hx
      · exact hsub
    · simpa using h.inRange
    · simpa using h.count
  · refine ⟨fun x hx => ?_, fun w hw k' hk' => ?_, fun w hw hv => ?_, ?_⟩
    · rcases List.mem_or_eq_of_mem_set hx with hx | rfl
      · exact h.nonneg x hx
      · show 0 ≤ sub.availableAcquires - 1
        omega
    · show k' < (s.subscribers.set k _).length
      rw [List.length_set]
      rcases List.mem_append.mp hw with hw | hw
      · exact h.inRange w hw k' hk'
      · obtain rfl := Option.some.inj (List.mem_singleton.mp hw)
        exact Option.some.inj hk' ▸ hlt
    · rcases List.mem_append.mp hw with hw | hw
      · exact h.owner w hw hv
      · obtain rfl := Option.some.inj (List.mem_singleton.mp hw)
        rfl
    · simpa using h.count

theorem Owned.step {L : Layout} {s t : State α} (h : Owned L s) (c : Call α)
    (ht : step L s c = some t) : Owned L t := by
  cases c with
  | createPublisher e =>
    obtain ⟨-, rfl⟩ := createPublisher_some ht
    exact ⟨h.nonneg, h.inRange, h.owner, h.count⟩
  | destroyPublisher e =>
    obtain ⟨p, -, rfl⟩ := destroyPublisher_some ht
    exact ⟨h.nonneg, h.inRange, h.owner, h.count⟩
  | publish e v =>
    obtain ⟨p, g, n, -, -, rfl⟩ := publish_some ht
    exact ⟨h.nonneg, h.inRange, h.owner, h.count⟩
  | createSubscriber =>
    obtain ⟨hlt, rfl⟩ := createSubscriber_some ht
    refine ⟨fun x hx => ?_, fun w hw k hk => ?_, h.owner, ?_⟩
    · rcases List.mem_append.mp hx with hx | hx
      · exact h.nonneg x hx
      · rw [List.mem_singleton.mp hx]
        exact Int.natCast_nonneg _
    · have := h.inRange w hw k hk
      rw [List.length_append]
      omega
    · rw [List.length_append]
      exact hlt
  | fetchMessage k =>
    obtain ⟨sub, hk, rfl⟩ := Option.map_eq_some_iff.mp ht
    exact h.fetchMessage hk
  | moveConstruct i =>
    obtain ⟨w, hw, rfl⟩ := moveConstruct_some ht
    have hmem := List.mem_of_getElem? hw
    refine ⟨h.nonneg, fun x hx k hk => ?_, fun x hx hv => ?_, h.count⟩
    · rcases List.mem_append.mp hx with hx | hx
      · rcases List.mem_or_eq_of_mem_set hx with hx | hx
        · exact h.inRange x hx k hk
        · cases hx
          cases hk
      · cases List.mem_singleton.mp hx
        exact h.inRange w hmem k hk
    · rcases List.mem_append.mp hx with hx | hx
      · rcases List.mem_or_eq_of_mem_set hx with hx | hx
        · exact h.owner x hx hv
        · cases hx
          cases hv
      · cases List.mem_singleton.mp hx
        exact h.owner w hmem hv
  | moveAssign i j =>
    obtain ⟨w, o, hw, ho, ⟨-, rfl⟩ | ⟨hij, rfl⟩⟩ := moveAssign_some ht
    · exact h
    · obtain ⟨hn, hlen⟩ := h.cleanup w
      refine ⟨hn, fun x hx k hk => ?_, fun x hx hv => ?_, hlen.trans_le h.count⟩
      · show k < (RealTime.cleanup s w).1.subscribers.length
        rw [hlen]
        rcases List.mem_or_eq_of_mem_set hx with hx | hx
        · rcases List.mem_or_eq_of_mem_set hx with hx | hx
          · exact h.inRange x hx k hk
          · cases hx
            exact h.inRange o (List.mem_of_getElem? ho) k hk
        · cases hx
          rw [cleanup_counter] at hk
          exact h.inRange w (List.mem_of_getElem? hw) k hk
      · rcases List.mem_or_eq_of_mem_set hx with hx | hx
        · rcases List.mem_or_eq_of_mem_set hx with hx | hx
          · exact h.owner x hx hv
          · cases hx
            exact h.owner o (List.mem_of_getElem? ho) hv
        · cases hx
          cases hv
  | destroyWrapper i =>
    obtain ⟨w, hw, rfl⟩ := destroyWrapper_some ht
    obtain ⟨hn, hlen⟩ := h.cleanup w
    refine ⟨hn, fun x hx k hk => ?_, fun x hx hv => ?_, hlen.trans_le h.count⟩
    · show k < (RealTime.cleanup s w).1.subscribers.length
      rw [hlen]
      rcases List.mem_or_eq_of_mem_set hx with hx | hx
      · exact h.inRange x hx k hk
      · cases hx
    · rcases List.mem_or_eq_of_mem_set hx with hx | hx
      · exact h.owner x hx hv
      · cases hx

/-! ## the balance of one subscriber -/

theorem limitKept_iff_eq {L : Layout} {s : State α} (h : Owned L s) :
    LimitKept L s ↔ ∀ k sub, s.subscribers[k]? = some sub →
      sub.availableAcquires + (held s k : Int) = L.maxConcurrentAcquires := by
  constructor
  · exact fun hs k sub hk => (hs k sub hk).1
  · intro hs k sub hk
    have h1 := hs k sub hk
    have h2 := h.nonneg sub (List.mem_of_getElem? hk)
    exact ⟨h1, by omega⟩

theorem LimitKept.congr {L : Layout} {s t : State α} (h : LimitKept L s)
    (hsubs : t.subscribers = s.subscribers) (hw : t.wrappers = s.wrappers) : LimitKept L t := by
  intro k sub hk
  have := h k sub (hsubs ▸ hk)
  unfold held at this ⊢
  rw [hw]
  exact this

theorem cleanup_getElem (s : State α) (w : MessageWrapper) (k : Nat) :
    (cleanup s w).1.subscribers[k]? = (s.subscribers[k]?).map fun sub =>
      { sub with availableAcquires := sub.availableAcquires + hit w.acquireCounter k } := by
  rw [cleanup_subscribers]
  cases w.acquireCounter with
  | none => simp [hit]
  | some j =>
    show (giveBack s.subscribers j)[k]? = _
    unfold giveBack
    rw [List.getElem?_modify, hit_some]
    by_cases hj : j = k
    · simp [hj]
    · simp [hj]

/-- only a hollow wrapper has a counter pointer that its message does not account for -/
theorem hit_holder {w : MessageWrapper} (h : ¬ Hollow w) (howner : w.access.isSome → w.acquireCounter.isSome)
    (k : Nat) : hit (holder (some w)) k = hit w.acquireCounter k := by
  obtain ⟨c, a⟩ := w
  cases c with
  | none => cases a <;> rfl
  | some j =>
    cases a with
    | none => exact absurd ⟨rfl, rfl⟩ h
    | some i => rfl

/-- **Cleaning up a wrapper keeps the limit exactly when the wrapper is not hollow.**  `t` is any state
with the subscribers of `cleanup` in which just this wrapper stopped holding its message. -/
theorem limitKept_cleanup {L : Layout} {s t : State α} (h : Owned L s) (ht : Owned L t)
    (hs : LimitKept L s) {w : MessageWrapper} (hw : some w ∈ s.wrappers)
    (hsubs : t.subscribers = (cleanup s w).1.subscribers)
    (hheld : ∀ k, held t k + hit (holder (some w)) k = held s k) :
    LimitKept L t ↔ ¬ Hollow w := by
  rw [limitKept_iff_eq ht]
  constructor
  · rintro hk ⟨hc, ha⟩
    obtain ⟨j, hj⟩ := Option.isSome_iff_exists.mp hc
    have hlt := h.inRange w hw j hj
    have h1 := (hs j _ (List.getElem?_eq_getElem hlt)).1
    have h2 := hk j { s.subscribers[j] with
      availableAcquires := (s.subscribers[j]).availableAcquires + 1 } (by
        rw [hsubs, cleanup_getElem, List.getElem?_eq_getElem hlt, hj, hit_some, if_pos rfl]
        rfl)
    have h3 := hheld j
    have h4 : hit (holder (some w)) j = 0 := by
      show hit (if w.access.isSome then w.acquireCounter else none) j = 0
      rw [ha]
      rfl
    simp only at h2
    omega
  · intro hne k sub hk
    rw [hsubs, cleanup_getElem] at hk
    obtain ⟨x, hx, rfl⟩ := Option.map_eq_some_iff.mp hk
    have h1 := (hs k x hx).1
    have h2 := hheld k
    rw [hit_holder hne (h.owner w hw)] at h2
    simp only
    omega

theorem held_assignFrom (s : State α) {i j : Nat} (hij : i ≠ j) {w o : MessageWrapper}
    (hw : s.wrappers[i]? = some (some w)) (ho : s.wrappers[j]? = some (some o)) (k : Nat) :
    held (assignFrom s i j w o) k + hit (holder (some w)) k = held s k := by
  have h2 := hits_set holder hw (some ⟨o.acquireCounter, o.access⟩) k
  have ho' : (s.wrappers.set i (some ⟨o.acquireCounter, o.access⟩))[j]? = some (some o) := by
    rw [List.getElem?_set_ne hij]
    exact ho
  have h3 := hits_set holder ho' (some ⟨(cleanup s w).2.acquireCounter, none⟩) k
  have h4 : hit (holder (some ⟨(cleanup s w).2.acquireCounter, none⟩)) k = 0 := rfl
  show hits holder ((s.wrappers.set i _).set j _) k + _ = hits holder s.wrappers k
  have h5 : hit (holder (some ⟨o.acquireCounter, o.access⟩)) k = hit (holder (some o)) k := rfl
  omega

theorem held_dropWrapper (s : State α) {i : Nat} {w : MessageWrapper}
    (hw : s.wrappers[i]? = some (some w)) (k : Nat) :
    held (dropWrapper s i w) k + hit (holder (some w)) k = held s k := by
  have h2 := hits_set holder hw none k
  have h3 : hit (holder none) k = 0 := rfl
  show hits holder (s.wrappers.set i none) k + _ = hits holder s.wrappers k
  omega

/-! ## one call -/

theorem LimitKept.createSubscriber {L : Layout} {s : State α} (h : Owned L s) (hs : LimitKept L s) :
    LimitKept L { s with
      subscribers := s.subscribers ++ [⟨(L.maxConcurrentAcquires : Int), s.nextMessageId⟩] } := by
  intro k sub hk
  rcases Nat.lt_or_ge k s.subscribers.length with hlt | hge
  · rw [List.getElem?_append_left hlt] at hk
    exact hs k sub hk
  · rw [List.getElem?_append_right hge] at hk
    have hmem := List.mem_singleton.mp (List.mem_of_getElem? hk)
    have h0 : hits holder s.wrappers k = 0 := by
      rw [hits_eq_zero_iff]
      intro x hx hc
      cases x with
      | none => cases hc
      | some w =>
        have hc' : (if w.access.isSome then w.acquireCounter else none) = some k := hc
        split at hc'
        · have := h.inRange w hx k hc'
          omega
        · cases hc'
    subst hmem
    show (L.maxConcurrentAcquires : Int) + (hits holder s.wrappers k : Int) = _ ∧
      hits holder s.wrappers k ≤ _
    rw [h0]
    exact ⟨by simp, Nat.zero_le _⟩

theorem LimitKept.fetchMessage {L : Layout} {s : State α} (h : Owned L s) (hs : LimitKept L s) {k : Nat}
    {sub : Subscriber} (hk : s.subscribers[k]? = some sub) : LimitKept L (fetchMessage s k sub).1 := by
  have hO := h.fetchMessage hk
  obtain ⟨hlt, -⟩ := List.getElem?_eq_some_iff.mp hk
  rcases fetchMessage_cases s k sub with e | e | e | ⟨-, -, e⟩ <;> rw [e] at hO ⊢
  · exact hs
  · exact hs.congr rfl rfl
  · intro j x hx
    by_cases hj : k = j
    · subst hj
      rw [List.getElem?_set_self hlt] at hx
      cases hx
      exact hs k sub hk
    · rw [List.getElem?_set_ne hj] at hx
      exact hs j x hx
  · rw [limitKept_iff_eq hO]
    intro j x hx
    have hheld : ∀ j, hits holder (s.wrappers ++ [some ⟨some k, some (s.latestPublishedIdx % 2^32)⟩]) j
        = held s j + hit (some k) j := by
      intro j
      rw [hits_append, hits_singleton]
      rfl
    show x.availableAcquires + (hits holder (s.wrappers ++ _) j : Int) = _
    rw [hheld, hit_some]
    by_cases hj : k = j
    · subst hj
      rw [List.getElem?_set_self hlt] at hx
      cases hx
      have h1 := (hs k sub hk).1
      rw [if_pos rfl]
      show sub.availableAcquires - 1 + ((held s k + 1 : Nat) : Int) = _
      omega
    · rw [List.getElem?_set_ne hj] at hx
      rw [if_neg hj]
      exact (hs j x hx).1

theorem LimitKept.moveConstruct {L : Layout} {s : State α} (hs : LimitKept L s) {i : Nat}
    {w : MessageWrapper} (hw : s.wrappers[i]? = some (some w)) :
    LimitKept L { s with
      wrappers := s.wrappers.set i (some ⟨none, none⟩) ++ [some ⟨w.acquireCounter, w.access⟩] } := by
  intro k sub hk
  have h1 := hs k sub hk
  have h2 := hits_set holder hw (some ⟨none, none⟩) k
  have h3 : hits holder (s.wrappers.set i (some ⟨none, none⟩) ++ [some ⟨w.acquireCounter, w.access⟩]) k
      = held s k := by
    rw [hits_append, hits_singleton]
    have h4 : hit (holder (some ⟨w.acquireCounter, w.access⟩)) k = hit (holder (some w)) k := rfl
    have h5 : hit (holder (some ⟨none, none⟩)) k = 0 := rfl
    unfold held
    omega
  show sub.availableAcquires + (hits holder _ k : Int) = _ ∧ hits holder _ k ≤ _
  rw [h3]
  exact h1

theorem limitKept_step {L : Layout} {s t : State α} (h : Owned L s) (hs : LimitKept L s) (c : Call α)
    (ht : step L s c = some t) : LimitKept L t ↔ NoHollowCleanup s c := by
  have hO := h.step c ht
  cases c with
  | createPublisher e =>
    obtain ⟨-, rfl⟩ := createPublisher_some ht
    exact ⟨fun _ => trivial, fun _ => hs.congr rfl rfl⟩
  | destroyPublisher e =>
    obtain ⟨p, -, rfl⟩ := destroyPublisher_some ht
    exact ⟨fun _ => trivial, fun _ => hs.congr rfl rfl⟩
  | publish e v =>
    obtain ⟨p, g, n, -, -, rfl⟩ := publish_some ht
    exact ⟨fun _ => trivial, fun _ => hs.congr rfl rfl⟩
  | createSubscriber =>
    obtain ⟨-, rfl⟩ := createSubscriber_some ht
    exact ⟨fun _ => trivial, fun _ => hs.createSubscriber h⟩
  | fetchMessage k =>
    obtain ⟨sub, hk, rfl⟩ := Option.map_eq_some_iff.mp ht
    exact ⟨fun _ => trivial, fun _ => hs.fetchMessage h hk⟩
  | moveConstruct i =>
    obtain ⟨w, hw, rfl⟩ := moveConstruct_some ht
    exact ⟨fun _ => trivial, fun _ => hs.moveConstruct hw⟩
  | moveAssign i j =>
    obtain ⟨w, o, hw, ho, ⟨hij, rfl⟩ | ⟨hij, rfl⟩⟩ := moveAssign_some ht
    · exact ⟨fun _ hne => absurd hij hne, fun _ => hs⟩
    · have hiff := limitKept_cleanup h hO hs (List.mem_of_getElem? hw) rfl (held_assignFrom s hij hw ho)
      refine hiff.trans ⟨fun hne _ x hx => ?_, fun hne => hne hij w hw⟩
      rw [hw] at hx
      cases hx
      exact hne
  | destroyWrapper i =>
    obtain ⟨w, hw, rfl⟩ := destroyWrapper_some ht
    have hiff := limitKept_cleanup h hO hs (List.mem_of_getElem? hw) rfl (held_dropWrapper s hw)
    refine hiff.trans ⟨fun hne x hx => ?_, fun hne => hne w hw⟩
    rw [hw] at hx
    cases hx
    exact hne

theorem limitKept_init (L : Layout) : LimitKept L (State.init α L) := by
  intro k sub hk
  cases hk

/-- **Acquire-limit conservation, exactly when it holds.**  For every limit and every sequence of
calls: in every state of the run the acquires left plus the messages held are the limit of every
subscriber, and none holds more, if and only if no call of the run cleans up a hollow wrapper. -/
theorem limitKept_iff (L : Layout) (cs : List (Call α)) :
    Runs.Always (step L) (LimitKept L) (State.init α L) cs
      ↔ Runs.Every (step L) NoHollowCleanup (State.init α L) cs :=
  Runs.always_iff_every (fun _ c _ hi ht => hi.step c ht)
    (fun _ c _ hi hs ht => limitKept_step hi hs c ht) cs (owned_init L) (limitKept_init L)

/-- one publisher with eight slots, one subscriber that may hold two messages -/
def limitLayout : Layout := ⟨1, 1, 2, 3, by decide, by decide⟩

/-- the subscriber fetches two messages, assigns the second wrapper to the first and drops the wrapper
it moved from -/
def limitCalls : List (Call Nat) :=
  [.createPublisher 0, .createSubscriber, .publish 0 7, .fetchMessage 0, .publish 0 8, .fetchMessage 0,
    .moveAssign 0 1, .destroyWrapper 1]

/-- one message is held and two acquires are left, with a limit of two -/
theorem limit_not_conserved :
    ∃ s, Runs.run (step limitLayout) (State.init Nat limitLayout) limitCalls = some s ∧
      ¬ LimitKept limitLayout s := by
  refine ⟨_, rfl, fun h => ?_⟩
  have h0 := (h 0 _ rfl).1
  revert h0
  decide

/-! ## where hollow wrappers come from -/

def NoHollow (s : State α) : Prop := ∀ w, some w ∈ s.wrappers → ¬ Hollow w

/-- a move assignment goes to the wrapper itself or to one without a counter pointer -/
def AssignsToMovedFrom (s : State α) : Call α → Prop
  | .moveAssign i j => i = j ∨ ∀ w, s.wrappers[i]? = some (some w) → w.acquireCounter = none
  | _ => True

theorem NoHollow.cleanup {s : State α} (h : NoHollow s) (c : Call α) : NoHollowCleanup s c := by
  cases c with
  | destroyWrapper i => exact fun w hw => h w (List.mem_of_getElem? hw)
  | moveAssign i j => exact fun _ w hw => h w (List.mem_of_getElem? hw)
  | _ => exact trivial

theorem noHollow_step {L : Layout} {s t : State α} (h : NoHollow s) (c : Call α)
    (hc : AssignsToMovedFrom s c) (ht : step L s c = some t) : NoHollow t := by
  cases c with
  | createPublisher e =>
    obtain ⟨-, rfl⟩ := createPublisher_some ht
    exact h
  | destroyPublisher e =>
    obtain ⟨p, -, rfl⟩ := destroyPublisher_some ht
    exact h
  | publish e v =>
    obtain ⟨p, g, n, -, -, rfl⟩ := publish_some ht
    exact h
  | createSubscriber =>
    obtain ⟨-, rfl⟩ := createSubscriber_some ht
    exact h
  | fetchMessage k =>
    obtain ⟨sub, -, rfl⟩ := Option.map_eq_some_iff.mp ht
    rcases fetchMessage_cases s k sub with e | e | e | ⟨-, -, e⟩ <;> rw [e]
    · exact h
    · exact h
    · exact h
    · intro w hw
      rcases List.mem_append.mp hw with hw | hw
      · exact h w hw
      · cases List.mem_singleton.mp hw
        exact fun hh => Option.some_ne_none _ hh.2
  | moveConstruct i =>
    obtain ⟨w, hw, rfl⟩ := moveConstruct_some ht
    intro x hx
    rcases List.mem_append.mp hx with hx | hx
    · rcases List.mem_or_eq_of_mem_set hx with hx | hx
      · exact h x hx
      · cases hx
        exact fun hh => absurd hh.1 (by simp)
    · cases List.mem_singleton.mp hx
      exact h w (List.mem_of_getElem? hw)
  | moveAssign i j =>
    obtain ⟨w, o, hw, ho, ⟨-, rfl⟩ | ⟨hij, rfl⟩⟩ := moveAssign_some ht
    · exact h
    · have hnone : w.acquireCounter = none := (hc.resolve_left hij) w hw
      intro x hx
      rcases List.mem_or_eq_of_mem_set hx with hx | hx
      · rcases List.mem_or_eq_of_mem_set hx with hx | hx
        · exact h x hx
        · cases hx
          exact h o (List.mem_of_getElem? ho)
      · cases hx
        intro hh
        have h1 := hh.1
        simp only [cleanup_counter, hnone, Option.isSome_none, Bool.false_eq_true] at h1
  | destroyWrapper i =>
    obtain ⟨w, hw, rfl⟩ := destroyWrapper_some ht
    intro x hx
    rcases List.mem_or_eq_of_mem_set hx with hx | hx
    · exact h x hx
    · cases hx

end

end RealTime
end Ipcpp
