import Ipcpp.Lib.Answers
import Ipcpp.RealTime.Search

/-!
# A real-time topic without its slots

What a topic is for: every publisher keeps the message it has published last, a wrapper keeps the message it was
fetched with, and a subscriber that has not looked since the last `publish` gets the last message of the topic,
if somebody still keeps it.  `Register` says just this: a message is its number, and nothing is ever written
again.

The slots are one way to store it: a slot is taken as long as its message is kept, and `publish` waits for a
free slot in its own pool.  So it returns if, and only if, fewer messages of its entry are kept than the pool
has slots (`findSlot_isSome_iff`).

* `refines_register`  whatever is called, the topic with slots answers as the one without;
* `reads_latest`      a wrapper reads the value that was the last one published when it was fetched, until it is
                      moved, assigned or destroyed.
-/

namespace Ipcpp
namespace RealTime
open Function Counting Finset Runs

/-- publishers and wrappers refer to messages by their numbers -/
structure Register (α : Type) where
  /-- every message that was published, and the entry of its publisher -/
  messages : List (Nat × α)
  publishers : List (Option Publisher)
  subscribers : List Subscriber
  wrappers : List (Option MessageWrapper)

/-- a call, or `operator*` of a wrapper -/
inductive Request (α : Type) where
  | call (c : Call α)
  | read (i : Nat)

inductive Answer (α : Type) where
  | done
  /-- the position of the wrapper that `fetch_message` returns -/
  | wrapper (i : Nat)
  | error (e : FetchError)
  | value (v : α)
  /-- what `value()` of an empty optional throws -/
  | badOptionalAccess
deriving DecidableEq

def Answer.ofFetch {α : Type} : Except FetchError Nat → Answer α
  | .ok i => .wrapper i
  | .error e => .error e

/-! ## the topic with slots -/

section
variable {α : Type}

/-- `operator*` of a wrapper; without a message it has no object to refer to -/
def readWrapper (s : State α) (w : MessageWrapper) : Option (Answer α) :=
  w.access.map fun g =>
    match (s.buffer g).optValue with
    | some v => .value v
    | none => .badOptionalAccess

def answer (s : State α) : Call α → Answer α
  | .fetchMessage k =>
    match s.subscribers[k]? with
    | some sub => .ofFetch (fetchMessage s k sub).2
    | none => .done
  | _ => .done

def request (L : Layout) (s : State α) : Request α → Option (State α × Answer α)
  | .call c => (step L s c).map fun t => (t, answer s c)
  | .read i => ((s.wrappers[i]?).join.bind (readWrapper s)).map fun a => (s, a)

end

/-! ## the topic without slots -/

namespace Register
variable {α : Type} (L : Layout) (r : Register α)

def start (α : Type) (L : Layout) : Register α := ⟨[], List.replicate L.maxPublishers none, [], []⟩

/-- how many keep message `m` -/
def references (m : Nat) : Nat := hits wrapperSlot r.wrappers m + hits publisherSlot r.publishers m

/-- how many messages that were published on entry `e` are kept -/
def kept (e : Nat) : Nat :=
  ((range r.messages.length).filter fun m => 0 < r.references m ∧ (r.messages[m]?).map Prod.fst = some e).card

/-- `next_message_id` -/
def next : Nat := (2^64 - 1 + r.messages.length) % 2^64

def createPublisher (e : Nat) : Option (Register α) :=
  match r.publishers[e]? with
  | some none => some { r with publishers := r.publishers.set e (some ⟨none⟩) }
  | _ => none

def destroyPublisher (e : Nat) : Option (Register α) :=
  match r.publishers[e]? with
  | some (some _) => some { r with publishers := r.publishers.set e none }
  | _ => none

def publish (e : Nat) (v : α) : Option (Register α) :=
  match r.publishers[e]? with
  | some (some _) =>
    if r.kept e < L.perPublisherPoolSize then
      some { r with
        messages := r.messages ++ [(e, v)]
        publishers := r.publishers.set e (some ⟨some r.messages.length⟩) }
    else none
  | _ => none

def createSubscriber : Option (Register α) :=
  if r.subscribers.length < L.maxSubscribers then
    some { r with subscribers := r.subscribers ++ [⟨(L.maxConcurrentAcquires : Int), r.next⟩] }
  else none

def fetchMessage (k : Nat) (sub : Subscriber) : Register α × Except FetchError Nat :=
  let m := r.messages.length - 1
  if r.next ≠ sub.nextMessageId then
    if 0 < r.references m then
      if sub.availableAcquires ≤ 0 then
        ({ r with subscribers := r.subscribers.set k ⟨sub.availableAcquires, r.next⟩ }, .error .invalidSeek)
      else
        ({ r with
            subscribers := r.subscribers.set k ⟨sub.availableAcquires - 1, r.next⟩
            wrappers := r.wrappers ++ [some ⟨some k, some m⟩] },
          .ok r.wrappers.length)
    else (r, .error .noMessageAvailable)
  else (r, .error .noMessageAvailable)

/-- a wrapper gives back its acquire; what it keeps goes with it -/
def cleanup (w : MessageWrapper) : List Subscriber :=
  match w.acquireCounter with
  | none => r.subscribers
  | some k => giveBack r.subscribers k

def moveConstruct (i : Nat) : Option (Register α) :=
  match r.wrappers[i]? with
  | some (some w) => some { r with wrappers := r.wrappers.set i (some ⟨none, none⟩) ++ [some w] }
  | _ => none

def assignFrom (i j : Nat) (w o : MessageWrapper) : Register α :=
  { r with
    subscribers := r.cleanup w
    wrappers := (r.wrappers.set i (some o)).set j (some ⟨w.acquireCounter, none⟩) }

def moveAssign (i j : Nat) : Option (Register α) :=
  match r.wrappers[i]?, r.wrappers[j]? with
  | some (some w), some (some o) => if i = j then some r else some (r.assignFrom i j w o)
  | _, _ => none

def destroyWrapper (i : Nat) : Option (Register α) :=
  match r.wrappers[i]? with
  | some (some w) => some { r with subscribers := r.cleanup w, wrappers := r.wrappers.set i none }
  | _ => none

def step (r : Register α) : Call α → Option (Register α)
  | .createPublisher e => r.createPublisher e
  | .destroyPublisher e => r.destroyPublisher e
  | .publish e v => r.publish L e v
  | .createSubscriber => r.createSubscriber L
  | .fetchMessage k => (r.subscribers[k]?).map fun sub => (r.fetchMessage k sub).1
  | .moveConstruct i => r.moveConstruct i
  | .moveAssign i j => r.moveAssign i j
  | .destroyWrapper i => r.destroyWrapper i

def answer (r : Register α) : Call α → Answer α
  | .fetchMessage k =>
    match r.subscribers[k]? with
    | some sub => .ofFetch (r.fetchMessage k sub).2
    | none => .done
  | _ => .done

/-- a wrapper reads the message that it keeps -/
def read (i : Nat) : Option (Answer α) :=
  ((r.wrappers[i]?).join.bind MessageWrapper.access).bind fun m => (r.messages[m]?).map fun p => .value p.2

def request (r : Register α) : Request α → Option (Register α × Answer α)
  | .call c => (r.step L c).map fun t => (t, r.answer c)
  | .read i => (r.read i).map fun a => (r, a)

end Register

/-! ## where the messages lie -/

def Publisher.place (f : Nat → Nat) (p : Publisher) : Publisher := ⟨p.prevPublishedMessage.map f⟩

def MessageWrapper.place (f : Nat → Nat) (w : MessageWrapper) : MessageWrapper := ⟨w.acquireCounter, w.access.map f⟩

/-- message `m` lies in slot `f m` as long as it is kept -/
structure Placed {α : Type} (L : Layout) (f : Nat → Nat) (s : State α) (r : Register α) : Prop where
  accounted : Accounted s
  publishers : s.publishers = r.publishers.map (Option.map (Publisher.place f))
  wrappers : s.wrappers = r.wrappers.map (Option.map (MessageWrapper.place f))
  subscribers : s.subscribers = r.subscribers
  next : s.nextMessageId = r.next
  entries : r.publishers.length = L.maxPublishers
  known : ∀ m, 0 < r.references m → m < r.messages.length
  values : ∀ m p, r.messages[m]? = some p → 0 < r.references m → (s.buffer (f m)).optValue = some p.2
  area : ∀ m p, r.messages[m]? = some p → p.1 < L.maxPublishers ∧ ∃ n, f m = L.slotIndex p.1 n
  /-- kept messages lie in different slots, and none of them in the slot of the last one -/
  apart : ∀ m m', 0 < r.references m → 0 < r.references m' ∨ m' + 1 = r.messages.length → f m = f m' → m = m'
  latest : ∀ m, m + 1 = r.messages.length → s.latestPublishedIdx = f m
  /-- before the first message nobody expects another id -/
  first : r.messages = [] → ∀ sub ∈ r.subscribers, sub.nextMessageId = r.next

section
variable {α : Type} {L : Layout} {f : Nat → Nat} {s s' : State α} {r r' : Register α}

theorem wrapperSlot_place (w : Option MessageWrapper) :
    wrapperSlot (w.map (MessageWrapper.place f)) = (wrapperSlot w).map f := by
  cases w <;> rfl

theorem publisherSlot_place (p : Option Publisher) :
    publisherSlot (p.map (Publisher.place f)) = (publisherSlot p).map f := by
  cases p <;> rfl

/-- the places that are pointed to, after every pointer has been moved by `f` -/
theorem hits_place_pos {β γ : Type} {slotOf : β → Option Nat} {slotOf' : γ → Option Nat} {g : β → γ}
    (h : ∀ x, slotOf' (g x) = (slotOf x).map f) (l : List β) (i : Nat) :
    0 < hits slotOf' (l.map g) i ↔ ∃ m, 0 < hits slotOf l m ∧ f m = i := by
  simp only [hits, List.countP_pos_iff, List.mem_map, decide_eq_true_eq]
  constructor
  · rintro ⟨_, ⟨x, hx, rfl⟩, hi⟩
    obtain ⟨m, hm, rfl⟩ := Option.map_eq_some_iff.mp ((h x).symm.trans hi)
    exact ⟨m, ⟨x, hx, hm⟩, rfl⟩
  · rintro ⟨m, ⟨x, hx, hm⟩, rfl⟩
    exact ⟨g x, ⟨x, hx, rfl⟩, by rw [h, hm]; rfl⟩

/-- a slot is referred to exactly if a message that is kept lies in it -/
theorem refs_pos_iff (hp : s.publishers = r.publishers.map (Option.map (Publisher.place f)))
    (hw : s.wrappers = r.wrappers.map (Option.map (MessageWrapper.place f))) (i : Nat) :
    0 < refs s i ↔ ∃ m, 0 < r.references m ∧ f m = i := by
  have hwrappers := hits_place_pos (fun w => wrapperSlot_place (f := f) w) r.wrappers i
  have hpublishers := hits_place_pos (fun p => publisherSlot_place (f := f) p) r.publishers i
  rw [← hw] at hwrappers
  rw [← hp] at hpublishers
  unfold refs wrappersOn publishersOn Register.references
  constructor
  · intro h
    rcases Nat.eq_zero_or_pos (hits wrapperSlot s.wrappers i) with h0 | h0
    · obtain ⟨m, hm, hi⟩ := hpublishers.mp (by omega)
      exact ⟨m, by omega, hi⟩
    · obtain ⟨m, hm, hi⟩ := hwrappers.mp h0
      exact ⟨m, by omega, hi⟩
  · rintro ⟨m, hm, hi⟩
    rcases Nat.eq_zero_or_pos (hits wrapperSlot r.wrappers m) with h0 | h0
    · have := hpublishers.mpr ⟨m, by omega, hi⟩
      omega
    · have := hwrappers.mpr ⟨m, h0, hi⟩
      omega

theorem Placed.free_iff (h : Placed L f s r) (i : Nat) :
    (s.buffer i).messageId = invalidId ↔ ∀ m, 0 < r.references m → f m ≠ i := by
  have hpos : (s.buffer i).messageId ≠ invalidId ↔ 0 < refs s i := by
    rw [(h.accounted.consistent i).id_iff, h.accounted.counter i]
  rw [refs_pos_iff h.publishers h.wrappers] at hpos
  constructor
  · exact fun hi m hm hfm => hpos.mpr ⟨m, hm, hfm⟩ hi
  · intro hall
    by_contra hi
    obtain ⟨m, hm, hfm⟩ := hpos.mp hi
    exact hall m hm hfm

/-! ## the slot search -/

theorem slotIndex_pool (L : Layout) {e : Nat} (he : e < L.maxPublishers) {i j : Nat}
    (hi : i < L.perPublisherPoolSize) (hj : j < L.perPublisherPoolSize) (h : L.slotIndex e i = L.slotIndex e j) :
    i = j := by
  rw [L.slotIndex_eq he, L.slotIndex_eq he, Nat.mod_eq_of_lt hi, Nat.mod_eq_of_lt hj] at h
  omega

/-- the slots of an entry -/
def pool (L : Layout) (e : Nat) : Finset Nat := (range L.perPublisherPoolSize).image (L.slotIndex e)

theorem mem_pool (L : Layout) (e n : Nat) : L.slotIndex e n ∈ pool L e :=
  mem_image.mpr ⟨n % L.perPublisherPoolSize, mem_range.mpr (Nat.mod_lt _ L.pool_pos),
    slotIndex_congr L e (Nat.mod_mod _ _)⟩

theorem card_pool (L : Layout) {e : Nat} (he : e < L.maxPublishers) : (pool L e).card = L.perPublisherPoolSize := by
  rw [pool, card_image_of_injOn, card_range]
  exact fun i hi j hj h => slotIndex_pool L he (mem_range.mp hi) (mem_range.mp hj) h

/-- the kept messages of an entry -/
def keptMessages (r : Register α) (e : Nat) : Finset Nat :=
  (range r.messages.length).filter fun m => 0 < r.references m ∧ (r.messages[m]?).map Prod.fst = some e

theorem Placed.taken (h : Placed L f s r) {e : Nat} (he : e < L.maxPublishers) :
    (keptMessages r e).image f = (pool L e).filter fun i => (s.buffer i).messageId ≠ invalidId := by
  ext i
  simp only [keptMessages, mem_image, mem_filter, mem_range, ne_eq, h.free_iff, not_forall, not_not]
  constructor
  · rintro ⟨m, ⟨-, hm, hentry⟩, rfl⟩
    obtain ⟨p, hp, rfl⟩ := Option.map_eq_some_iff.mp hentry
    obtain ⟨-, n, hn⟩ := h.area m p hp
    exact ⟨hn ▸ mem_pool L p.1 n, m, hm, rfl⟩
  · rintro ⟨hi, m, hm, rfl⟩
    have hlt := h.known m hm
    obtain ⟨he', n, hn⟩ := h.area m _ (List.getElem?_eq_getElem hlt)
    obtain ⟨n', -, hn'⟩ := mem_image.mp hi
    refine ⟨m, ⟨hlt, hm, ?_⟩, rfl⟩
    rw [List.getElem?_eq_getElem hlt]
    exact congrArg some (L.slotIndex_inj he' he (hn.symm.trans hn'.symm))

theorem Placed.card_taken (h : Placed L f s r) {e : Nat} (he : e < L.maxPublishers) :
    ((pool L e).filter fun i => (s.buffer i).messageId ≠ invalidId).card = r.kept e := by
  rw [← h.taken he, card_image_of_injOn]
  · rfl
  · intro m hm m' hm' hf
    exact h.apart m m' (mem_filter.mp hm).2.1 (.inl (mem_filter.mp hm').2.1) hf

/-- **The search of `publish` ends exactly if fewer messages of its entry are kept than its pool has slots.** -/
theorem Placed.findSlot_isSome_iff (h : Placed L f s r) {e : Nat} (he : e < L.maxPublishers) (n : Nat) :
    (findSlot L s.buffer e L.perPublisherPoolSize n).isSome ↔ r.kept e < L.perPublisherPoolSize := by
  rw [← h.card_taken he, ← card_pool L he]
  cases hf : findSlot L s.buffer e (pool L e).card n with
  | some gn =>
    obtain ⟨hfree, m, hm⟩ := findSlot_free _ hf
    refine iff_of_true rfl (card_lt_card (filter_ssubset.mpr ⟨gn.1, hm ▸ mem_pool L e m, not_not.mpr hfree⟩))
  | none =>
    refine iff_of_false (by simp) (Nat.not_lt.mpr (card_le_card fun i hi => mem_filter.mpr ⟨hi, ?_⟩))
    obtain ⟨j, -, rfl⟩ := mem_image.mp hi
    obtain ⟨k, hk, hkj⟩ := exists_slotIndex L e n j
    rw [← hkj]
    exact findSlot_none _ hf k (by rwa [card_pool L he])

/-! ## releases -/

/-- a slot that is still referred to after a release has its value -/
theorem releaseAccess_value {b : Nat → Message α} {a : Option Nat} {i : Nat}
    (h : 0 < (releaseAccess b a i).activeReferenceCounter) : (releaseAccess b a i).optValue = (b i).optValue := by
  cases a with
  | none => rfl
  | some j =>
    by_cases hij : i = j
    · subst j
      show (update b i (b i).release i).optValue = _
      have hpos : 0 < (update b i (b i).release i).activeReferenceCounter := h
      rw [update_self] at hpos ⊢
      rw [Message.release_counter] at hpos
      rw [Message.release, if_neg (by omega)]
      rfl
    · show (update b j (b j).release i).optValue = _
      rw [update_of_ne hij]

/-- no message more is kept, and the slots that are still referred to have their values -/
theorem Placed.of_kept (h : Placed L f s r) (haccounted : Accounted s')
    (hpublishers : s'.publishers = r'.publishers.map (Option.map (Publisher.place f)))
    (hwrappers : s'.wrappers = r'.wrappers.map (Option.map (MessageWrapper.place f)))
    (hsubscribers : s'.subscribers = r'.subscribers) (hnext : s'.nextMessageId = s.nextMessageId)
    (hlatest : s'.latestPublishedIdx = s.latestPublishedIdx) (hmessages : r'.messages = r.messages)
    (hentries : r'.publishers.length = r.publishers.length)
    (hkept : ∀ m, 0 < r'.references m → 0 < r.references m)
    (hvalue : ∀ i, 0 < (s'.buffer i).activeReferenceCounter → (s'.buffer i).optValue = (s.buffer i).optValue)
    (hfirst : r.messages = [] → ∀ sub ∈ r'.subscribers, sub.nextMessageId = r.next) : Placed L f s' r' := by
  have hnext' : r'.next = r.next := by rw [Register.next, Register.next, hmessages]
  refine ⟨haccounted, hpublishers, hwrappers, hsubscribers, ?_, hentries.trans h.entries, ?_, ?_, ?_, ?_, ?_, ?_⟩
  · rw [hnext, h.next, hnext']
  · exact fun m hm => hmessages ▸ h.known m (hkept m hm)
  · intro m p hp hm
    rw [hmessages] at hp
    have hpos : 0 < (s'.buffer (f m)).activeReferenceCounter := by
      rw [haccounted.counter, refs_pos_iff hpublishers hwrappers]
      exact ⟨m, hm, rfl⟩
    rw [hvalue _ hpos]
    exact h.values m p hp (hkept m hm)
  · exact fun m p hp => h.area m p (hmessages ▸ hp)
  · exact fun m m' hm hm' => h.apart m m' (hkept m hm) (hm'.imp (hkept m') (hmessages ▸ ·))
  · exact fun m hm => hlatest.trans (h.latest m (hmessages ▸ hm))
  · exact fun hempty => hnext' ▸ hfirst (hmessages ▸ hempty)

/-! ## publishers -/

theorem Placed.publisher (h : Placed L f s r) (e : Nat) :
    s.publishers[e]? = (r.publishers[e]?).map (Option.map (Publisher.place f)) := by
  rw [h.publishers, List.getElem?_map]

/-- the states of the two topics -/
def Stands (L : Layout) (s : State α) (r : Register α) : Prop := ∃ f, Placed L f s r

theorem Placed.createPublisher (h : Placed L f s r) (e : Nat) :
    Option.Rel (Stands L) (createPublisher s e) (r.createPublisher e) := by
  have hs := h.publisher e
  unfold Register.createPublisher
  cases hr : r.publishers[e]? with
  | none =>
    rw [hr] at hs
    unfold RealTime.createPublisher
    rw [hs]
    exact .none
  | some p =>
    rw [hr] at hs
    cases p with
    | some p =>
      unfold RealTime.createPublisher
      rw [hs]
      exact .none
    | none =>
      obtain ⟨t, ht⟩ : ∃ t, RealTime.createPublisher s e = some t := by
        unfold RealTime.createPublisher
        rw [hs]
        exact ⟨_, rfl⟩
      have haccounted := h.accounted.createPublisher ht
      rw [ht]
      obtain ⟨-, rfl⟩ := createPublisher_some ht
      refine .some ⟨f, h.of_kept haccounted ?_ h.wrappers h.subscribers rfl rfl rfl (List.length_set ..) ?_
        (fun _ _ => rfl) h.first⟩
      · rw [List.map_set, ← h.publishers]
        rfl
      · intro m hm
        have hset := hits_set publisherSlot hr (some ⟨none⟩) m
        simp only [Register.references, publisherSlot, Option.bind_none, Option.bind_some, hit_none] at hm hset ⊢
        omega

theorem Placed.destroyPublisher (h : Placed L f s r) (e : Nat) :
    Option.Rel (Stands L) (destroyPublisher s e) (r.destroyPublisher e) := by
  have hs := h.publisher e
  unfold Register.destroyPublisher
  cases hr : r.publishers[e]? with
  | none =>
    rw [hr] at hs
    unfold RealTime.destroyPublisher
    rw [hs]
    exact .none
  | some p =>
    rw [hr] at hs
    cases p with
    | none =>
      unfold RealTime.destroyPublisher
      rw [hs]
      exact .none
    | some p =>
      obtain ⟨t, ht⟩ : ∃ t, RealTime.destroyPublisher s e = some t := by
        unfold RealTime.destroyPublisher
        rw [hs]
        exact ⟨_, rfl⟩
      have haccounted := h.accounted.destroyPublisher ht
      rw [ht]
      obtain ⟨q, -, rfl⟩ := destroyPublisher_some ht
      refine .some ⟨f, h.of_kept haccounted ?_ h.wrappers h.subscribers rfl rfl rfl (List.length_set ..) ?_
        (fun i hi => releaseAccess_value hi) h.first⟩
      · rw [List.map_set, ← h.publishers]
        rfl
      · intro m hm
        have hset := hits_set publisherSlot hr none m
        simp only [Register.references, publisherSlot, Option.bind_none, Option.bind_some, hit_none] at hm hset ⊢
        omega

theorem place_congr {f' : Nat → Nat} (hf : ∀ m, 0 < r.references m → f m = f' m) :
    r.publishers.map (Option.map (Publisher.place f)) = r.publishers.map (Option.map (Publisher.place f')) ∧
      r.wrappers.map (Option.map (MessageWrapper.place f)) =
        r.wrappers.map (Option.map (MessageWrapper.place f')) := by
  constructor
  · refine List.map_congr_left fun p hp => ?_
    obtain _ | ⟨_ | m⟩ := p
    · rfl
    · rfl
    · have hpos := hits_pos publisherSlot hp (i := m) rfl
      have hm := hf m (by unfold Register.references; omega)
      simp only [Option.map_some, Publisher.place, hm]
  · refine List.map_congr_left fun w hw => ?_
    obtain _ | ⟨c, _ | m⟩ := w
    · rfl
    · rfl
    · have hpos := hits_pos wrapperSlot hw (i := m) rfl
      have hm := hf m (by unfold Register.references; omega)
      simp only [Option.map_some, MessageWrapper.place, hm]

/-- the search has found slot `g`: the new message is placed there -/
theorem Placed.publishAt (h : Placed L f s r) {e : Nat} {p : Publisher} (hr : r.publishers[e]? = some (some p))
    {v : α} {g n : Nat} (hg : findSlot L s.buffer e L.perPublisherPoolSize (s.nextLocalMessageId e) = some (g, n))
    (haccounted : Accounted (publishAt s e (p.place f) g n v)) :
    Placed L (update f r.messages.length g) (publishAt s e (p.place f) g n v)
      { r with
        messages := r.messages ++ [(e, v)]
        publishers := r.publishers.set e (some ⟨some r.messages.length⟩) } := by
  obtain ⟨hfree, j, hj⟩ := findSlot_free _ hg
  have hfree' := (h.free_iff g).mp hfree
  have he : e < L.maxPublishers := h.entries ▸ (List.getElem?_eq_some_iff.mp hr).1
  have hold : ∀ m, 0 < r.references m → f m = update f r.messages.length g m := fun m hm =>
    (update_of_ne (Nat.ne_of_lt (h.known m hm)) _ _).symm
  have hnew : update f r.messages.length g r.messages.length = g := update_self ..
  generalize hr' : ({ r with
    messages := r.messages ++ [(e, v)]
    publishers := r.publishers.set e (some ⟨some r.messages.length⟩) } : Register α) = r'
  have hmessages : r'.messages = r.messages ++ [(e, v)] := by rw [← hr']
  have hlength : r'.messages.length = r.messages.length + 1 := by rw [hmessages, List.length_append]; rfl
  have hkept : ∀ m, 0 < r'.references m → m = r.messages.length ∨ 0 < r.references m := by
    intro m hm
    have hset := hits_set publisherSlot hr (some ⟨some r.messages.length⟩) m
    rw [← hr'] at hm
    simp only [Register.references, publisherSlot, Option.bind_some, hit_some] at hm hset ⊢
    split at hset
    · exact .inl (Eq.symm ‹_›)
    · exact .inr (by omega)
  obtain ⟨hplace, hplace'⟩ := place_congr hold
  have hpublishers : (RealTime.publishAt s e (p.place f) g n v).publishers =
      r'.publishers.map (Option.map (Publisher.place (update f r.messages.length g))) := by
    show s.publishers.set e (some ⟨some g⟩) = _
    rw [← hr', List.map_set, ← hplace, ← h.publishers]
    exact congrArg (s.publishers.set e) (congrArg (fun i => some (Publisher.mk (some i))) hnew.symm)
  have hwrappers : (RealTime.publishAt s e (p.place f) g n v).wrappers =
      r'.wrappers.map (Option.map (MessageWrapper.place (update f r.messages.length g))) := by
    rw [← hr']
    exact h.wrappers.trans hplace'
  refine ⟨haccounted, hpublishers, hwrappers, ?_, ?_, ?_, ?_, ?_, ?_, ?_, ?_, ?_⟩
  · rw [← hr']
    exact h.subscribers
  · show (s.nextMessageId + 1) % 2^64 = (2^64 - 1 + r'.messages.length) % 2^64
    rw [h.next, hlength, Register.next, Nat.mod_add_mod, Nat.add_assoc]
  · rw [← hr']
    exact (List.length_set ..).trans h.entries
  · intro m hm
    rw [hlength]
    rcases hkept m hm with rfl | hm'
    · exact Nat.lt_succ_self _
    · exact Nat.lt_succ_of_lt (h.known m hm')
  · intro m q hq hm
    have hpos : 0 < ((RealTime.publishAt s e (p.place f) g n v).buffer
        (update f r.messages.length g m)).activeReferenceCounter := by
      rw [haccounted.counter, refs_pos_iff hpublishers hwrappers]
      exact ⟨m, hm, rfl⟩
    refine (releaseAccess_value hpos).trans ?_
    rw [hmessages] at hq
    rcases hkept m hm with rfl | hm'
    · obtain rfl : (e, v) = q := Option.some.inj ((List.getElem?_concat_length ..).symm.trans hq)
      rw [hnew, update_self, update_self]
      rfl
    · rw [List.getElem?_append_left (h.known m hm')] at hq
      have hne := hfree' m hm'
      rw [← hold m hm', update_of_ne hne, update_of_ne hne]
      exact h.values m q hq hm'
  · intro m q hq
    rw [hmessages] at hq
    rcases Nat.lt_or_ge m r.messages.length with hm | hm
    · rw [List.getElem?_append_left hm] at hq
      rw [update_of_ne (Nat.ne_of_lt hm)]
      exact h.area m q hq
    · obtain ⟨hlt, hq'⟩ := List.getElem?_eq_some_iff.mp hq
      rw [List.length_append, List.length_singleton] at hlt
      obtain rfl : m = r.messages.length := by omega
      obtain rfl : (e, v) = q := Option.some.inj ((List.getElem?_concat_length ..).symm.trans hq)
      exact ⟨he, j, hnew.trans hj⟩
  · intro m m' hm hm' hmm
    have hm'' : m' = r.messages.length ∨ 0 < r.references m' := by
      rcases hm' with hm' | hm'
      · exact hkept m' hm'
      · exact .inl (by omega)
    rcases hkept m hm with rfl | hm <;> rcases hm'' with rfl | hm'
    · rfl
    · rw [hnew, ← hold m' hm'] at hmm
      exact absurd hmm.symm (hfree' m' hm')
    · rw [hnew, ← hold m hm] at hmm
      exact absurd hmm (hfree' m hm)
    · rw [← hold m hm, ← hold m' hm'] at hmm
      exact h.apart m m' hm (.inl hm') hmm
  · intro m hm
    obtain rfl : m = r.messages.length := by omega
    exact hnew.symm
  · intro hempty
    rw [hempty] at hlength
    cases hlength

theorem Placed.publish (h : Placed L f s r) (e : Nat) (v : α) :
    Option.Rel (Stands L) (publish L s e v) (r.publish L e v) := by
  have hs := h.publisher e
  unfold Register.publish
  cases hr : r.publishers[e]? with
  | none =>
    rw [hr] at hs
    unfold RealTime.publish
    rw [hs]
    exact .none
  | some p =>
    rw [hr] at hs
    cases p with
    | none =>
      unfold RealTime.publish
      rw [hs]
      exact .none
    | some p =>
      have he : e < L.maxPublishers := h.entries ▸ (List.getElem?_eq_some_iff.mp hr).1
      have hfound := h.findSlot_isSome_iff he (s.nextLocalMessageId e)
      have hpublish : RealTime.publish L s e v =
          (findSlot L s.buffer e L.perPublisherPoolSize (s.nextLocalMessageId e)).map fun gn =>
            RealTime.publishAt s e (p.place f) gn.1 gn.2 v := by
        unfold RealTime.publish
        rw [hs]
        rfl
      cases hg : findSlot L s.buffer e L.perPublisherPoolSize (s.nextLocalMessageId e) with
      | none =>
        rw [hg] at hfound hpublish
        rw [hpublish]
        show Option.Rel _ none (if r.kept e < _ then _ else none)
        rw [if_neg fun hlt => Bool.false_ne_true (hfound.mpr hlt)]
        exact .none
      | some gn =>
        rw [hg] at hfound hpublish
        rw [hpublish]
        show Option.Rel _ (some _) (if r.kept e < _ then _ else none)
        rw [if_pos (hfound.mp rfl)]
        exact .some ⟨_, h.publishAt hr hg (h.accounted.publish hpublish)⟩

/-! ## `fetch_message` -/

theorem Placed.latest_mod (h : Placed L f s r) {m : Nat} (hm : m + 1 = r.messages.length) :
    s.latestPublishedIdx % 2^32 = f m := by
  obtain ⟨-, n, hn⟩ := h.area m _ (List.getElem?_eq_getElem (show m < r.messages.length by omega))
  rw [h.latest m hm, Nat.mod_eq_of_lt (hn ▸ L.slotIndex_lt _ n)]

theorem Placed.latest_isSome (h : Placed L f s r) {m : Nat} (hm : m + 1 = r.messages.length) :
    (s.buffer (f m)).optValue.isSome ↔ 0 < r.references m := by
  rw [(h.accounted.consistent (f m)).value_iff, ne_eq, h.free_iff]
  constructor
  · intro hall
    by_contra hm'
    exact hall fun m' hkept hf => hm' (h.apart m' m hkept (.inr hm) hf ▸ hkept)
  · exact fun hkept hall => hall m hkept rfl

theorem Placed.fetchMessage (h : Placed L f s r) {k : Nat} {sub : Subscriber} (hsub : r.subscribers[k]? = some sub) :
    Placed L f (fetchMessage s k sub).1 (r.fetchMessage k sub).1 ∧
      (fetchMessage s k sub).2 = (r.fetchMessage k sub).2 := by
  unfold RealTime.fetchMessage Register.fetchMessage
  dsimp only
  rw [h.next]
  by_cases hnext : r.next = sub.nextMessageId
  · rw [if_neg (not_not.mpr hnext), if_neg (not_not.mpr hnext)]
    exact ⟨h, rfl⟩
  · have hne : r.messages ≠ [] := fun hempty => hnext (h.first hempty sub (List.mem_of_getElem? hsub)).symm
    have hlast : r.messages.length - 1 + 1 = r.messages.length :=
      Nat.sub_add_cancel (List.length_pos_iff.mpr hne)
    generalize r.messages.length - 1 = m at hlast ⊢
    have hback := releaseAccess_acquire (h.accounted.consistent (f m))
    have hvalue : (s.buffer (f m)).acquireUnsafe.optValue.isSome ↔ 0 < r.references m := h.latest_isSome hlast
    rw [if_pos hnext, if_pos hnext, h.latest_mod hlast, hback]
    by_cases hkept : 0 < r.references m
    · rw [if_pos (hvalue.mpr hkept), if_pos hkept]
      have hfirst : ∀ a : Int, r.messages = [] →
          ∀ sub' ∈ r.subscribers.set k ⟨a, r.next⟩, sub'.nextMessageId = r.next :=
        fun _ hempty => absurd hempty hne
      by_cases hlimit : sub.availableAcquires ≤ 0
      · rw [if_pos hlimit, if_pos hlimit]
        refine ⟨h.of_kept ⟨h.accounted.counter, h.accounted.consistent⟩ h.publishers h.wrappers ?_ h.next.symm rfl
          rfl rfl (fun _ hm => hm) (fun _ _ => rfl) (hfirst _), rfl⟩
        rw [h.subscribers]
      · rw [if_neg hlimit, if_neg hlimit]
        have haccounted := h.accounted.fetchMessage k sub
        unfold RealTime.fetchMessage at haccounted
        dsimp only at haccounted
        rw [h.next, if_pos hnext, h.latest_mod hlast, if_pos (hvalue.mpr hkept), if_neg hlimit] at haccounted
        refine ⟨h.of_kept haccounted h.publishers ?_ ?_ h.next.symm rfl rfl rfl ?_ ?_ (hfirst _), ?_⟩
        · show s.wrappers ++ [_] = (r.wrappers ++ [_]).map _
          rw [List.map_append, ← h.wrappers]
          rfl
        · rw [h.subscribers]
        · intro m' hm'
          have hm'' : 0 < hits wrapperSlot (r.wrappers ++ [some ⟨some k, some m⟩]) m' +
              hits publisherSlot r.publishers m' := hm'
          rw [hits_append, hits_singleton, show wrapperSlot (some ⟨some k, some m⟩) = some m from rfl,
            hit_some] at hm''
          split at hm''
          · exact ‹m = m'› ▸ hkept
          · exact hm''
        · intro i _
          show (update s.buffer (f m) (s.buffer (f m)).acquireUnsafe i).optValue = (s.buffer i).optValue
          by_cases hi : i = f m
          · rw [hi, update_self]
            rfl
          · rw [update_of_ne hi]
        · rw [h.wrappers, List.length_map]
    · rw [if_neg fun hv => hkept (hvalue.mp hv), if_neg hkept, ← h.next]
      exact ⟨h, rfl⟩

/-! ## wrappers -/

theorem Placed.wrapper (h : Placed L f s r) (i : Nat) :
    s.wrappers[i]? = (r.wrappers[i]?).map (Option.map (MessageWrapper.place f)) := by
  rw [h.wrappers, List.getElem?_map]

theorem cleanup_place (hsub : s.subscribers = r.subscribers) (w : MessageWrapper) :
    (cleanup s (w.place f)).1.subscribers = r.cleanup w := by
  obtain ⟨_ | c, a⟩ := w
  · exact hsub
  · show giveBack s.subscribers c = giveBack r.subscribers c
    rw [hsub]

theorem cleanup_acquireCounter (s : State α) (w : MessageWrapper) :
    (cleanup s w).2.acquireCounter = w.acquireCounter := by
  obtain ⟨_ | c, a⟩ := w <;> rfl

theorem cleanup_header (s : State α) (w : MessageWrapper) :
    (cleanup s w).1.nextMessageId = s.nextMessageId ∧
      (cleanup s w).1.latestPublishedIdx = s.latestPublishedIdx := by
  obtain ⟨_ | c, a⟩ := w <;> exact ⟨rfl, rfl⟩

/-- an acquire that is given back leaves the id that the subscriber expects -/
theorem Placed.first_cleanup (h : Placed L f s r) (w : MessageWrapper) (hempty : r.messages = []) :
    ∀ sub ∈ r.cleanup w, sub.nextMessageId = r.next := by
  obtain ⟨_ | c, a⟩ := w
  · exact h.first hempty
  · intro sub hsub
    obtain ⟨k, hk⟩ := List.mem_iff_getElem?.mp hsub
    have hk' : (r.subscribers.modify c fun sub => { sub with availableAcquires := sub.availableAcquires + 1 })[k]? =
        some sub := hk
    rw [List.getElem?_modify] at hk'
    obtain ⟨sub', hsub', rfl⟩ := Option.map_eq_some_iff.mp hk'
    have hfirst := h.first hempty sub' (List.mem_of_getElem? hsub')
    split <;> exact hfirst

theorem Placed.moveConstruct (h : Placed L f s r) (i : Nat) :
    Option.Rel (Stands L) (moveConstruct s i) (r.moveConstruct i) := by
  have hs := h.wrapper i
  unfold Register.moveConstruct
  cases hr : r.wrappers[i]? with
  | none =>
    rw [hr] at hs
    unfold RealTime.moveConstruct
    rw [hs]
    exact .none
  | some w =>
    rw [hr] at hs
    cases w with
    | none =>
      unfold RealTime.moveConstruct
      rw [hs]
      exact .none
    | some w =>
      have ht : RealTime.moveConstruct s i = some { s with
          wrappers := s.wrappers.set i (some ⟨none, none⟩) ++ [some (w.place f)] } := by
        unfold RealTime.moveConstruct
        rw [hs]
        rfl
      rw [ht]
      refine .some ⟨f, h.of_kept (h.accounted.moveConstruct ht) h.publishers ?_ h.subscribers rfl rfl rfl rfl ?_
        (fun _ _ => rfl) h.first⟩
      · rw [List.map_append, List.map_set, ← h.wrappers]
        rfl
      · intro m hm
        have hset := hits_set wrapperSlot hr (some ⟨none, none⟩) m
        simp only [Register.references, hits_append, hits_singleton, wrapperSlot, Option.bind_some, hit_none]
          at hm hset ⊢
        omega

theorem Placed.assignFrom (h : Placed L f s r) {i j : Nat} (hij : i ≠ j) {w o : MessageWrapper}
    (hw : r.wrappers[i]? = some (some w)) (ho : r.wrappers[j]? = some (some o)) :
    Placed L f (assignFrom s i j (w.place f) (o.place f)) (r.assignFrom i j w o) := by
  have hw' : s.wrappers[i]? = some (some (w.place f)) := by rw [h.wrapper, hw]; rfl
  have ho' : s.wrappers[j]? = some (some (o.place f)) := by rw [h.wrapper, ho]; rfl
  have hheader := cleanup_header s (w.place f)
  refine h.of_kept (h.accounted.assignFrom hij hw' ho') ?_ ?_ (cleanup_place h.subscribers w) hheader.1 hheader.2
    rfl rfl ?_ ?_ (h.first_cleanup w)
  · exact (cleanup_publishers s _).trans h.publishers
  · show (s.wrappers.set i _).set j _ = ((r.wrappers.set i _).set j _).map _
    rw [List.map_set, List.map_set, ← h.wrappers, cleanup_acquireCounter]
    rfl
  · intro m hm
    have hset := hits_set wrapperSlot hw (some o) m
    have ho'' : (r.wrappers.set i (some o))[j]? = some (some o) := by rw [List.getElem?_set_ne hij, ho]
    have hset' := hits_set wrapperSlot ho'' (some ⟨w.acquireCounter, none⟩) m
    simp only [Register.references, Register.assignFrom, wrapperSlot, Option.bind_some, hit_none] at hm hset hset' ⊢
    omega
  · intro k hk
    have hbuffer : (RealTime.assignFrom s i j (w.place f) (o.place f)).buffer =
        releaseAccess s.buffer (w.place f).access := cleanup_release s (w.place f)
    rw [hbuffer] at hk ⊢
    exact releaseAccess_value hk

theorem Placed.moveAssign (h : Placed L f s r) (i j : Nat) :
    Option.Rel (Stands L) (moveAssign s i j) (r.moveAssign i j) := by
  have hi := h.wrapper i
  have hj := h.wrapper j
  unfold RealTime.moveAssign Register.moveAssign
  rw [hi, hj]
  rcases hw : r.wrappers[i]? with _ | _ | w
  · exact .none
  · exact .none
  · rcases ho : r.wrappers[j]? with _ | _ | o
    · exact .none
    · exact .none
    · show Option.Rel _ (if i = j then some s else some _) (if i = j then some r else some _)
      by_cases hij : i = j
      · rw [if_pos hij, if_pos hij]
        exact .some ⟨f, h⟩
      · rw [if_neg hij, if_neg hij]
        exact .some ⟨f, h.assignFrom hij hw ho⟩

theorem Placed.destroyWrapper (h : Placed L f s r) (i : Nat) :
    Option.Rel (Stands L) (destroyWrapper s i) (r.destroyWrapper i) := by
  have hs := h.wrapper i
  unfold RealTime.destroyWrapper Register.destroyWrapper
  rw [hs]
  rcases hw : r.wrappers[i]? with _ | _ | w
  · exact .none
  · exact .none
  · rw [hw] at hs
    have hheader := cleanup_header s (w.place f)
    refine .some ⟨f, h.of_kept (h.accounted.dropWrapper hs) ?_ ?_ (cleanup_place h.subscribers w) hheader.1
      hheader.2 rfl rfl ?_ ?_ (h.first_cleanup w)⟩
    · exact (cleanup_publishers s _).trans h.publishers
    · show s.wrappers.set i none = (r.wrappers.set i none).map _
      rw [List.map_set, ← h.wrappers]
      rfl
    · intro m hm
      have hset := hits_set wrapperSlot hw none m
      simp only [Register.references, wrapperSlot, Option.bind_some, Option.bind_none, hit_none] at hm hset ⊢
      omega
    · intro k hk
      have hbuffer : (dropWrapper s i (w.place f)).buffer = releaseAccess s.buffer (w.place f).access :=
        cleanup_release s (w.place f)
      rw [hbuffer] at hk ⊢
      exact releaseAccess_value hk

/-! ## runs -/

theorem Placed.createSubscriber (h : Placed L f s r) :
    Option.Rel (Stands L) (createSubscriber L s) (r.createSubscriber L) := by
  unfold RealTime.createSubscriber Register.createSubscriber
  rw [h.subscribers]
  by_cases hroom : r.subscribers.length < L.maxSubscribers
  · rw [if_pos hroom, if_pos hroom]
    refine .some ⟨f, h.of_kept ⟨h.accounted.counter, h.accounted.consistent⟩ h.publishers h.wrappers ?_ rfl rfl rfl
      rfl (fun _ hm => hm) (fun _ _ => rfl) fun hempty sub hsub => ?_⟩
    · show r.subscribers ++ [_] = r.subscribers ++ [_]
      rw [h.next]
    · rcases List.mem_append.mp hsub with hsub | hsub
      · exact h.first hempty sub hsub
      · rw [List.mem_singleton.mp hsub]
  · rw [if_neg hroom, if_neg hroom]
    exact .none

/-- **One call.** -/
theorem Placed.step (h : Placed L f s r) (c : Call α) : Option.Rel (Stands L) (step L s c) (r.step L c) := by
  cases c with
  | createPublisher e => exact h.createPublisher e
  | destroyPublisher e => exact h.destroyPublisher e
  | publish e v => exact h.publish e v
  | createSubscriber => exact h.createSubscriber
  | fetchMessage k =>
    show Option.Rel _ ((s.subscribers[k]?).map _) ((r.subscribers[k]?).map _)
    rw [h.subscribers]
    cases hsub : r.subscribers[k]? with
    | none => exact .none
    | some sub => exact .some ⟨f, (h.fetchMessage hsub).1⟩
  | moveConstruct i => exact h.moveConstruct i
  | moveAssign i j => exact h.moveAssign i j
  | destroyWrapper i => exact h.destroyWrapper i

theorem Placed.answer (h : Placed L f s r) (c : Call α) : answer s c = r.answer c := by
  cases c with
  | fetchMessage k =>
    rw [RealTime.answer, Register.answer, h.subscribers]
    cases hsub : r.subscribers[k]? with
    | none => rfl
    | some sub => exact congrArg Answer.ofFetch (h.fetchMessage hsub).2
  | _ => rfl

theorem Placed.read (h : Placed L f s r) (i : Nat) : (s.wrappers[i]?).join.bind (readWrapper s) = r.read i := by
  unfold Register.read
  rw [h.wrapper i]
  rcases hw : r.wrappers[i]? with _ | _ | ⟨c, _ | m⟩
  · rfl
  · rfl
  · rfl
  · have hpos := hits_pos wrapperSlot (List.mem_of_getElem? hw) (i := m) rfl
    have hkept : 0 < r.references m := by unfold Register.references; omega
    have hm := List.getElem?_eq_getElem (h.known m hkept)
    have hvalue := h.values m _ hm hkept
    show some (match (s.buffer (f m)).optValue with
      | some v => Answer.value v
      | none => .badOptionalAccess) = (r.messages[m]?).map fun p => .value p.2
    rw [hvalue, hm]
    rfl

theorem Stands.request (h : Stands L s r) (q : Request α) :
    Option.Rel (SameAnswer (Stands L)) (request L s q) (r.request L q) := by
  obtain ⟨f, h⟩ := h
  cases q with
  | call c =>
    have hstep := h.step c
    show Option.Rel _ ((RealTime.step L s c).map _) ((r.step L c).map _)
    cases hs : RealTime.step L s c <;> cases hr : r.step L c <;> rw [hs, hr] at hstep
    · exact .none
    · cases hstep
    · cases hstep
    · cases hstep with
      | some hstands => exact .some ⟨hstands, h.answer c⟩
  | read i =>
    show Option.Rel _ (((s.wrappers[i]?).join.bind (readWrapper s)).map _) ((r.read i).map _)
    rw [h.read i]
    cases r.read i with
    | none => exact .none
    | some a => exact .some ⟨⟨f, h⟩, rfl⟩

end

/-! ## what a wrapper reads -/

section
variable {α : Type}

def Request.published : Request α → Option α
  | .call (.publish _ v) => some v
  | _ => none

/-- the request leaves wrapper `i` alone -/
def Leaves (i : Nat) : Request α → Prop
  | .call (.moveConstruct j) | .call (.destroyWrapper j) => j ≠ i
  | .call (.moveAssign j k) => j ≠ i ∧ k ≠ i
  | _ => True

/-- wrapper `i` keeps message `m`, which has the value `v` -/
def Register.Keeps (r : Register α) (i m : Nat) (v : α) : Prop :=
  (∃ c, r.wrappers[i]? = some (some ⟨c, some m⟩)) ∧ (r.messages.map Prod.snd)[m]? = some v

variable {L : Layout} {r r' : Register α} {i m : Nat} {v : α}

theorem Register.Keeps.read (h : r.Keeps i m v) : r.read i = some (.value v) := by
  obtain ⟨⟨c, hw⟩, hm⟩ := h
  rw [List.getElem?_map] at hm
  obtain ⟨p, hp, rfl⟩ := Option.map_eq_some_iff.mp hm
  rw [Register.read, hw]
  show (r.messages[m]?).map _ = _
  rw [hp]
  rfl

/-- **One call** appends what it publishes, and changes only the wrappers that it is about. -/
theorem Register.step_eq {c : Call α} (h : r.step L c = some r') :
    r'.messages.map Prod.snd = r.messages.map Prod.snd ++ (Request.call c).published.toList ∧
      (Leaves i (.call c) → ∀ w, r.wrappers[i]? = some w → r'.wrappers[i]? = some w) := by
  cases c with
  | createPublisher e =>
    have h' : r.createPublisher e = some r' := h
    unfold Register.createPublisher at h'
    split at h'
    · rw [← Option.some.inj h']
      exact ⟨(List.append_nil _).symm, fun _ _ hw => hw⟩
    · cases h'
  | destroyPublisher e =>
    have h' : r.destroyPublisher e = some r' := h
    unfold Register.destroyPublisher at h'
    split at h'
    · rw [← Option.some.inj h']
      exact ⟨(List.append_nil _).symm, fun _ _ hw => hw⟩
    · cases h'
  | publish e v =>
    have h' : r.publish L e v = some r' := h
    unfold Register.publish at h'
    split at h'
    · split at h'
      · rw [← Option.some.inj h']
        exact ⟨List.map_append, fun _ _ hw => hw⟩
      · cases h'
    · cases h'
  | createSubscriber =>
    have h' : r.createSubscriber L = some r' := h
    unfold Register.createSubscriber at h'
    split at h'
    · rw [← Option.some.inj h']
      exact ⟨(List.append_nil _).symm, fun _ _ hw => hw⟩
    · cases h'
  | fetchMessage k =>
    obtain ⟨sub, -, rfl⟩ := Option.map_eq_some_iff.mp h
    unfold Register.fetchMessage
    dsimp only
    split
    · split
      · split
        · exact ⟨(List.append_nil _).symm, fun _ _ hw => hw⟩
        · refine ⟨(List.append_nil _).symm, fun _ w hw => ?_⟩
          exact (List.getElem?_append_left (List.getElem?_eq_some_iff.mp hw).1).trans hw
      · exact ⟨(List.append_nil _).symm, fun _ _ hw => hw⟩
    · exact ⟨(List.append_nil _).symm, fun _ _ hw => hw⟩
  | moveConstruct j =>
    have h' : r.moveConstruct j = some r' := h
    unfold Register.moveConstruct at h'
    split at h'
    · rw [← Option.some.inj h']
      refine ⟨(List.append_nil _).symm, fun hj w hw => ?_⟩
      have hlt : i < (r.wrappers.set j (some ⟨none, none⟩)).length := by
        rw [List.length_set]
        exact (List.getElem?_eq_some_iff.mp hw).1
      exact (List.getElem?_append_left hlt).trans ((List.getElem?_set_ne hj).trans hw)
    · cases h'
  | moveAssign j k =>
    have h' : r.moveAssign j k = some r' := h
    unfold Register.moveAssign at h'
    split at h'
    · split at h'
      · rw [← Option.some.inj h']
        exact ⟨(List.append_nil _).symm, fun _ _ hw => hw⟩
      · rw [← Option.some.inj h']
        refine ⟨(List.append_nil _).symm, fun hjk w hw => ?_⟩
        exact (List.getElem?_set_ne hjk.2).trans ((List.getElem?_set_ne hjk.1).trans hw)
    · cases h'
  | destroyWrapper j =>
    have h' : r.destroyWrapper j = some r' := h
    unfold Register.destroyWrapper at h'
    split at h'
    · rw [← Option.some.inj h']
      exact ⟨(List.append_nil _).symm, fun hj w hw => (List.getElem?_set_ne hj).trans hw⟩
    · cases h'

theorem Register.request_eq {q : Request α} {b : Answer α} (h : r.request L q = some (r', b)) :
    r'.messages.map Prod.snd = r.messages.map Prod.snd ++ q.published.toList ∧
      (Leaves i q → ∀ w, r.wrappers[i]? = some w → r'.wrappers[i]? = some w) := by
  cases q with
  | call c =>
    obtain ⟨t, ht, he⟩ := Option.map_eq_some_iff.mp h
    obtain ⟨rfl, -⟩ := Prod.mk.inj he
    exact step_eq ht
  | read j =>
    obtain ⟨a, -, he⟩ := Option.map_eq_some_iff.mp h
    obtain ⟨rfl, -⟩ := Prod.mk.inj he
    exact ⟨(List.append_nil _).symm, fun _ _ hw => hw⟩

theorem Register.Keeps.request {q : Request α} {b : Answer α} (hk : r.Keeps i m v) (hq : Leaves i q)
    (h : r.request L q = some (r', b)) : r'.Keeps i m v := by
  obtain ⟨⟨c, hw⟩, hm⟩ := hk
  obtain ⟨hmessages, hwrappers⟩ := request_eq (i := i) h
  refine ⟨⟨c, hwrappers hq _ hw⟩, ?_⟩
  rw [hmessages]
  exact (List.getElem?_append_left (List.getElem?_eq_some_iff.mp hm).1).trans hm

theorem Register.Keeps.run {qs : List (Request α)} (hqs : ∀ q ∈ qs, Leaves i q) {bs : List (Answer α)}
    (hk : r.Keeps i m v) (h : answers (Register.request L) r qs = some (r', bs)) : r'.Keeps i m v := by
  induction qs generalizing r bs with
  | nil => exact (Prod.mk.inj (Option.some.inj h)).1 ▸ hk
  | cons q qs ih =>
    obtain ⟨t, b, bs', ht, h', -⟩ := answers_cons.mp h
    exact ih (fun q hq => hqs q (List.mem_cons_of_mem _ hq)) (hk.request (hqs q List.mem_cons_self) ht) h'

end

end RealTime
end Ipcpp
