import Ipcpp.Lib.Counting
import Ipcpp.Fifo.Message

/-!
# The FIFO queue, step by step

One publisher (`Publisher::_m_publish`) and any number of subscribers (`Subscriber::receive`) on a queue of any
size; every atomic operation and every access to a field of a message is a step.

`receive` for the id `m` looks at the id of the message in slot `m & (size - 1)`, and then calls `consume`,
which tests the value, takes a reference, compares the counters and takes the shared lock.  Nothing keeps
the publisher from emplacing another message in this slot between the look at the id and the lock, if
it has come around the queue; and no look at the id follows.

Ghost data (never read by the program): `published` has the last value that was stored for an id, and a
subscriber on its way to the lock keeps whether the publisher has stored a value in its slot since it
looked at the id (`overwritten`; also if the value was stored already and only the id was still the old one).

`receive_delivers`: as long as no subscriber whose slot was overwritten gets the shared lock, the value that
the callback is called with is the value published with the id that was asked for.
-/

namespace Ipcpp
namespace Fifo
open Function Counting Runs

/-- program counter of the publisher; `id` is the `msg_id` it has loaded -/
inductive PublisherPc (α : Type) where
  | idle
  /-- `request_writable` -/
  | tryLock (id : Nat) (v : α)
  /-- `_m_num_observers()`, with the write lock from here on -/
  | loadNum (id : Nat) (v : α)
  /-- `emplace`: its four assignments -/
  | storeRemaining (id : Nat) (v : α) (n : Nat)
  | storeInitial (id : Nat) (v : α) (n : Nat)
  | storeValue (id : Nat) (v : α)
  | storeId (id : Nat)
  | unlock (id : Nat)
  /-- `_m_notify_observers(msg_id + 1)` -/
  | storeNext (id : Nat)

/-- where `consume` is before it has the lock; `rounds` is `retries + 1` of `try_lock_shared` -/
inductive Stage where
  | check
  | fetchAdd
  | compare (active : Int)
  | load (r rounds : Nat)
  | exchange (r rounds : Nat) (expected : Int)

inductive Hold (α : Type) where
  /-- about to call the callback -/
  | call
  /-- in the callback, which was called with `v` -/
  | callback (v : α)
  /-- the destructor of the access -/
  | fetchSub
  | reset
  | unlock

/-- program counter of a subscriber; `m` is the `msg_id` it expects -/
inductive SubscriberPc (α : Type) where
  /-- `subscribe`, between `fetch_add` and the load of `next` -/
  | subscribing
  | idle
  /-- `_m_wait_for_data` -/
  | wait
  /-- at the test of `message_id()` -/
  | readId (m : Nat)
  | consuming (m : Nat) (overwritten : Bool) (stage : Stage)
  | holding (m : Nat) (hold : Hold α)
  /-- at the last `fetch_sub` of the destructor -/
  | leaving (m : Nat)

structure Subscriber (α : Type) where
  nextMessageId : Nat
  pc : SubscriberPc α

structure Queue (α : Type) where
  items : Nat → Message α
  next : Nat
  numSubscribers : Nat
  publisher : PublisherPc α
  subscribers : List (Subscriber α)
  /-- the last value that was stored for an id -/
  published : Nat → Option α

/-- `operator[]`: the slot of a message id -/
def slot (size m : Nat) : Nat := m &&& (size - 1)

/-- the rounds of `try_lock_shared((_initial_references * 2) + 1)`, in 64 bits -/
def lockRounds (initialReferences : Int) : Nat :=
  (((initialReferences * 2 + 1) % 2^64 + 1) % 2^64).toNat

/-- the id that the publisher is about to store, its value being stored already -/
def PublisherPc.naming {α : Type} : PublisherPc α → Option Nat
  | .storeId id => some id
  | _ => none

/-- a value was stored in slot `k`: a subscriber on its way to the lock of that slot comes too late -/
def SubscriberPc.overwrite {α : Type} (size k : Nat) : SubscriberPc α → SubscriberPc α
  | .consuming m overwritten stage => .consuming m (overwritten || decide (slot size m = k)) stage
  | pc => pc

def Subscriber.overwrite {α : Type} (size k : Nat) (sub : Subscriber α) : Subscriber α :=
  { sub with pc := sub.pc.overwrite size k }

namespace Queue
variable {α : Type}

def start : Queue α := ⟨fun _ => {}, 0, 0, .idle, [], fun _ => none⟩

inductive Action (α : Type) where
  /-- the publisher calls `publish(v)` and loads `next` -/
  | publish (v : α)
  | publisher (spurious : Bool)
  /-- a new subscriber calls `subscribe` -/
  | subscribe
  /-- subscriber `i` calls `receive` -/
  | receive (i : Nat)
  /-- subscriber `i` calls `cancel_subscription` -/
  | cancel (i : Nat)
  | subscriber (i : Nat) (spurious : Bool)

section
variable (size : Nat) (s : Queue α)

/-- a step of the publisher that changes the message in the slot of `id` -/
def writeItem (id : Nat) (pc : PublisherPc α) (f : Message α → Message α) : Queue α :=
  { s with items := update s.items (slot size id) (f (s.items (slot size id))), publisher := pc }

/-- the next step of the publisher; `spurious`: its weak compare-exchange fails whatever the word is -/
def publisherNext (spurious : Bool) : PublisherPc α → Option (Queue α)
  | .idle => none
  | .tryLock id v =>
    some (if (s.items (slot size id)).mutex = 0 ∧ spurious = false then
        s.writeItem size id (.loadNum id v) fun m => { m with mutex := -1 }
      else { s with publisher := .idle })
  | .loadNum id v => some { s with publisher := .storeRemaining id v s.numSubscribers }
  | .storeRemaining id v n =>
    some (s.writeItem size id (.storeInitial id v n) fun m =>
      { m with remainingReferences := toInt64 n })
  | .storeInitial id v n =>
    some (s.writeItem size id (.storeValue id v) fun m =>
      { m with initialReferences := toInt64 n })
  | .storeValue id v =>
    some { s.writeItem size id (.storeId id) fun m => { m with optValue := some v } with
      published := update s.published id (some v)
      subscribers := s.subscribers.map (Subscriber.overwrite size (slot size id)) }
  | .storeId id => some (s.writeItem size id (.unlock id) fun m => { m with messageId := id })
  | .unlock id => some (s.writeItem size id (.storeNext id) fun m => { m with mutex := 0 })
  | .storeNext id => some { s with next := (id + 1) % 2^64, publisher := .idle }

/-- subscriber `i` is now at `pc` -/
def goTo (i : Nat) (sub : Subscriber α) (pc : SubscriberPc α) : Queue α :=
  { s with subscribers := s.subscribers.set i { sub with pc } }

/-- and has changed the message in the slot of `m` -/
def touch (i : Nat) (sub : Subscriber α) (pc : SubscriberPc α) (m : Nat) (f : Message α → Message α) :
    Queue α :=
  { s.goTo i sub pc with items := update s.items (slot size m) (f (s.items (slot size m))) }

/-- `consume`, up to the shared lock -/
def consumeNext (i : Nat) (spurious : Bool) (sub : Subscriber α) (m : Nat) (o : Bool) : Stage → Queue α
  | .check => s.goTo i sub (if (s.items (slot size m)).optValue.isNone then .idle else .consuming m o .fetchAdd)
  | .fetchAdd =>
    let active := (s.items (slot size m)).activeReferenceCounter
    s.touch size i sub (.consuming m o (.compare active)) m fun x => { x with activeReferenceCounter := active + 1 }
  | .compare active =>
    s.goTo i sub
      (if active ≥ (s.items (slot size m)).remainingReferences then .idle
      else .consuming m o (.load 0 (lockRounds (s.items (slot size m)).initialReferences)))
  | .load r rounds =>
    s.goTo i sub
      (if r < rounds then
        if (s.items (slot size m)).mutex = -1 then .idle
        else .consuming m o (.exchange r rounds (s.items (slot size m)).mutex)
      else .idle)
  | .exchange r rounds expected =>
    if (s.items (slot size m)).mutex = expected ∧ spurious = false then
      s.touch size i sub (.holding m .call) m fun x => { x with mutex := expected + 1 }
    else s.goTo i sub (.consuming m o (.load (r + 1) rounds))

/-- the callback, and the destructor of the access.  `value()` of an empty optional throws, and the
access is destroyed all the same. -/
def holdNext (i : Nat) (sub : Subscriber α) (m : Nat) : Hold α → Queue α
  | .call =>
    match (s.items (slot size m)).optValue with
    | some v => s.goTo i sub (.holding m (.callback v))
    | none => s.goTo i sub (.holding m .fetchSub)
  | .callback _ => s.goTo i sub (.holding m .fetchSub)
  | .fetchSub =>
    let remaining := (s.items (slot size m)).remainingReferences
    s.touch size i sub (.holding m (if remaining = 1 then .reset else .unlock)) m
      fun x => { x with remainingReferences := remaining - 1 }
  | .reset => s.touch size i sub (.holding m .unlock) m fun x => { x with optValue := none }
  | .unlock => s.touch size i sub (.leaving m) m fun x => { x with mutex := x.mutex - 1 }

/-- the next step of subscriber `i` -/
def subscriberNext (i : Nat) (spurious : Bool) (sub : Subscriber α) : SubscriberPc α → Option (Queue α)
  | .subscribing => some { s with subscribers := s.subscribers.set i ⟨s.next, .idle⟩ }
  | .wait =>
    some (if s.next = sub.nextMessageId then s
      else { s with subscribers := s.subscribers.set i ⟨(sub.nextMessageId + 1) % 2^64,
        if s.next = 2^64 - 1 then .idle else .readId sub.nextMessageId⟩ })
  | .readId m =>
    some (s.goTo i sub
      (if (s.items (slot size m)).messageId ≠ m then .idle
      else .consuming m (decide (s.publisher.naming.map (slot size) = some (slot size m))) .check))
  | .consuming m o stage => some (s.consumeNext size i spurious sub m o stage)
  | .holding m hold => some (s.holdNext size i sub m hold)
  | .leaving m =>
    some (s.touch size i sub .idle m fun x =>
      { x with activeReferenceCounter := x.activeReferenceCounter - 1 })
  | .idle => none

def step (s : Queue α) : Action α → Option (Queue α)
  | .publish v =>
    match s.publisher with
    | .idle => some { s with publisher := .tryLock s.next v }
    | _ => none
  | .publisher spurious => s.publisherNext size spurious s.publisher
  | .subscribe =>
    some { s with
      numSubscribers := (s.numSubscribers + 1) % 2^64
      subscribers := s.subscribers ++ [⟨0, .subscribing⟩] }
  | .receive i =>
    match s.subscribers[i]? with
    | some ⟨next, .idle⟩ => some { s with subscribers := s.subscribers.set i ⟨next, .wait⟩ }
    | _ => none
  | .cancel i =>
    match s.subscribers[i]? with
    | some ⟨_, .idle⟩ => some { s with numSubscribers := (s.numSubscribers + (2^64 - 1)) % 2^64 }
    | _ => none
  | .subscriber i spurious => (s.subscribers[i]?).bind fun sub => s.subscriberNext size i spurious sub sub.pc

/-- every callback is called with the value published with the id it was asked for -/
def Delivers : Prop :=
  ∀ sub ∈ s.subscribers, ∀ m v, sub.pc = .holding m (.callback v) → s.published m = some v

/-- the compare-exchange of a subscriber gives it the lock only if its slot was not overwritten -/
def NotTooLateAt (spurious : Bool) : SubscriberPc α → Prop
  | .consuming m true (.exchange _ _ expected) =>
    ¬ ((s.items (slot size m)).mutex = expected ∧ spurious = false)
  | _ => True

def NotTooLate : Action α → Prop
  | .subscriber i spurious => ∀ sub ∈ s.subscribers[i]?, s.NotTooLateAt size spurious sub.pc
  | _ => True

instance (spurious : Bool) : DecidablePred (s.NotTooLateAt size spurious)
  | .consuming m true (.exchange _ _ expected) =>
    inferInstanceAs (Decidable (¬ ((s.items (slot size m)).mutex = expected ∧ spurious = false)))
  | .consuming _ true .check | .consuming _ true .fetchAdd | .consuming _ true (.compare _)
  | .consuming _ true (.load _ _) | .consuming _ false _ | .subscribing | .idle | .wait | .readId _
  | .holding _ _ | .leaving _ => isTrue trivial

instance : DecidablePred (s.NotTooLate size)
  | .subscriber i spurious =>
    inferInstanceAs (Decidable (∀ sub ∈ s.subscribers[i]?, s.NotTooLateAt size spurious sub.pc))
  | .publish _ | .publisher _ | .subscribe | .receive _ | .cancel _ => isTrue trivial

end

end Queue

/-! ## the invariant -/

section
variable {α : Type} (size : Nat)

def PublisherPc.locked : PublisherPc α → Option Nat
  | .loadNum id _ | .storeRemaining id _ _ | .storeInitial id _ _ | .storeValue id _ | .storeId id
  | .unlock id => some (slot size id)
  | .idle | .tryLock _ _ | .storeNext _ => none

def Subscriber.holds (sub : Subscriber α) : Option Nat :=
  match sub.pc with
  | .holding m _ => some (slot size m)
  | _ => none

/-- a reader never tries to replace the word of a writer -/
def Stage.Ok : Stage → Prop
  | .exchange _ _ expected => expected ≠ -1
  | _ => True

end

namespace Queue
variable {α : Type}

section
variable (size : Nat) (s : Queue α)

/-- the id that the value in slot `k` was published with -/
def idOf (k : Nat) : Nat :=
  match s.publisher.naming with
  | some id => if slot size id = k then id else (s.items k).messageId
  | none => (s.items k).messageId

def SubOk : SubscriberPc α → Prop
  | .consuming m overwritten stage =>
    stage.Ok ∧ (overwritten = false →
      s.publisher.naming.map (slot size) ≠ some (slot size m) ∧ (s.items (slot size m)).messageId = m)
  | .holding m hold =>
    (s.items (slot size m)).messageId = m ∧ ∀ v, hold = .callback v → s.published m = some v
  | _ => True

structure Inv : Prop where
  /-- the word of a slot says who has its lock -/
  lock : ∀ k,
    s.publisher.locked size = some k ∧ (s.items k).mutex = -1 ∧
      hits (Subscriber.holds size) s.subscribers k = 0 ∨
    s.publisher.locked size ≠ some k ∧
      (s.items k).mutex = hits (Subscriber.holds size) s.subscribers k
  /-- a value is in the slot of its id, and it is what was published with this id -/
  stored : ∀ k v, (s.items k).optValue = some v →
    slot size (s.idOf size k) = k ∧ s.published (s.idOf size k) = some v
  subs : ∀ sub ∈ s.subscribers, s.SubOk size sub.pc

end

variable {size : Nat} {s t : Queue α}

theorem start_inv : Inv size (start : Queue α) := by
  refine ⟨fun k => .inr ⟨nofun, rfl⟩, fun k v hv => ?_, fun sub hsub => ?_⟩
  · cases hv
  · cases hsub

theorem Inv.delivers (h : Inv size s) : s.Delivers := by
  intro sub hsub m v hpc
  have hok := h.subs sub hsub
  rw [hpc] at hok
  exact hok.2 v rfl

theorem Inv.not_locked (h : Inv size s) {sub : Subscriber α} (hsub : sub ∈ s.subscribers) {k : Nat}
    (hk : sub.holds size = some k) : s.publisher.locked size ≠ some k := by
  have hpos := hits_pos (Subscriber.holds size) hsub hk
  rcases h.lock k with ⟨-, -, hzero⟩ | ⟨hne, -⟩
  · omega
  · exact hne

theorem SubOk.congr (hname : t.publisher.naming = s.publisher.naming)
    (hid : ∀ k, (t.items k).messageId = (s.items k).messageId) (hpub : t.published = s.published)
    {pc : SubscriberPc α} (h : s.SubOk size pc) : t.SubOk size pc := by
  cases pc with
  | consuming m o stage =>
    refine ⟨h.1, fun ho => ?_⟩
    rw [hname, hid]
    exact h.2 ho
  | holding m hold =>
    refine ⟨(hid _).trans h.1, ?_⟩
    rw [hpub]
    exact h.2
  | _ => exact trivial

theorem idOf_congr (hname : t.publisher.naming = s.publisher.naming)
    (hid : ∀ k, (t.items k).messageId = (s.items k).messageId) (k : Nat) :
    t.idOf size k = s.idOf size k := by
  unfold idOf
  rw [hname, hid]

/-! ## steps of a subscriber -/

/-- **A step of subscriber `i`** changes no id and stores no value; the word of a slot follows the
subscriber. -/
theorem Inv.subscriber (h : Inv size s) {i : Nat} {sub sub' : Subscriber α}
    (hsub : s.subscribers[i]? = some sub) (hsubs : t.subscribers = s.subscribers.set i sub')
    (hpub : t.publisher = s.publisher) (hpublished : t.published = s.published)
    (hid : ∀ k, (t.items k).messageId = (s.items k).messageId)
    (hvalue : ∀ k v, (t.items k).optValue = some v → (s.items k).optValue = some v)
    (hmutex : ∀ k, (t.items k).mutex + hit (sub.holds size) k = (s.items k).mutex + hit (sub'.holds size) k)
    (hlock : ∀ k, s.publisher.locked size = some k → hit (sub'.holds size) k = 0)
    (hok : s.SubOk size sub'.pc) : Inv size t := by
  have hname : t.publisher.naming = s.publisher.naming := by rw [hpub]
  refine ⟨fun k => ?_, fun k v hv => ?_, fun q hq => ?_⟩
  · have hset := hits_set (Subscriber.holds size) hsub sub' k
    have hle := hit_le_hits (Subscriber.holds size) hsub k
    have hm := hmutex k
    rw [hpub, hsubs]
    rcases h.lock k with ⟨hl, hw, hzero⟩ | ⟨hl, hw⟩
    · have := hlock k hl
      exact .inl ⟨hl, by omega, by omega⟩
    · exact .inr ⟨hl, by omega⟩
  · rw [idOf_congr hname hid, hpublished]
    exact h.stored k v (hvalue k v hv)
  · rw [hsubs] at hq
    rcases List.mem_or_eq_of_mem_set hq with hq | rfl
    · exact (h.subs q hq).congr hname hid hpublished
    · exact hok.congr hname hid hpublished

theorem Inv.move (h : Inv size s) {i : Nat} {sub sub' : Subscriber α} (hsub : s.subscribers[i]? = some sub)
    (hholds : sub'.holds size = sub.holds size) (hok : s.SubOk size sub'.pc) :
    Inv size { s with subscribers := s.subscribers.set i sub' } := by
  refine h.subscriber hsub rfl rfl rfl (fun _ => rfl) (fun _ _ hv => hv) (fun k => by rw [hholds])
    (fun k hk => ?_) hok
  rw [hholds]
  have hle := hit_le_hits (Subscriber.holds size) hsub k
  rcases h.lock k with ⟨-, -, hzero⟩ | ⟨hne, -⟩
  · omega
  · exact absurd hk hne

theorem Inv.goTo (h : Inv size s) {i : Nat} {sub : Subscriber α} {pc : SubscriberPc α}
    (hsub : s.subscribers[i]? = some sub)
    (hholds : ({ sub with pc } : Subscriber α).holds size = sub.holds size) (hok : s.SubOk size pc) :
    Inv size (s.goTo i sub pc) :=
  h.move hsub hholds hok

/-- a step that also changes the slot of `m`, but not its id, and not its word -/
theorem Inv.touch (h : Inv size s) {i : Nat} {sub : Subscriber α} {pc : SubscriberPc α} {m : Nat}
    {f : Message α → Message α} (hsub : s.subscribers[i]? = some sub)
    (hholds : ({ sub with pc } : Subscriber α).holds size = sub.holds size)
    (hid : ∀ x, (f x).messageId = x.messageId) (hword : ∀ x, (f x).mutex = x.mutex)
    (hvalue : ∀ x v, (f x).optValue = some v → x.optValue = some v) (hok : s.SubOk size pc) :
    Inv size (s.touch size i sub pc m f) := by
  have hitem : ∀ k, (s.touch size i sub pc m f).items k = s.items k ∨
      (s.touch size i sub pc m f).items k = f (s.items k) := by
    intro k
    show update s.items _ _ k = _ ∨ update s.items _ _ k = _
    by_cases hk : k = slot size m
    · subst hk
      exact .inr (update_self ..)
    · exact .inl (update_of_ne hk ..)
  refine h.subscriber hsub rfl rfl rfl (fun k => ?_) (fun k v hv => ?_) (fun k => ?_) (fun k hk => ?_) hok
  · rcases hitem k with e | e <;> rw [e]
    exact hid _
  · rcases hitem k with e | e <;> rw [e] at hv
    · exact hv
    · exact hvalue _ v hv
  · rw [hholds]
    rcases hitem k with e | e <;> rw [e]
    rw [hword]
  · rw [hholds]
    have hle := hit_le_hits (Subscriber.holds size) hsub k
    rcases h.lock k with ⟨-, -, hzero⟩ | ⟨hne, -⟩
    · omega
    · exact absurd hk hne

theorem Inv.relock (h : Inv size s) {i : Nat} {sub : Subscriber α} {pc : SubscriberPc α} {m : Nat} {w : Int}
    (hsub : s.subscribers[i]? = some sub)
    (hw : ∀ k, (if k = slot size m then w else (s.items k).mutex) + hit (sub.holds size) k
      = (s.items k).mutex + hit (({ sub with pc } : Subscriber α).holds size) k)
    (hlock : ∀ k, s.publisher.locked size = some k →
      hit (({ sub with pc } : Subscriber α).holds size) k = 0)
    (hok : s.SubOk size pc) : Inv size (s.touch size i sub pc m fun x => { x with mutex := w }) := by
  have hitem : ∀ k, (s.touch size i sub pc m fun x => { x with mutex := w }).items k
      = { s.items k with mutex := if k = slot size m then w else (s.items k).mutex } := by
    intro k
    show update s.items _ _ k = _
    by_cases hk : k = slot size m
    · subst hk
      rw [update_self, if_pos rfl]
    · rw [update_of_ne hk, if_neg hk]
  refine h.subscriber hsub rfl rfl rfl (fun k => ?_) (fun k v hv => ?_) (fun k => ?_) hlock hok
  · rw [hitem]
  · rw [hitem] at hv
    exact hv
  · rw [hitem]
    exact hw k

theorem Inv.consumeNext (h : Inv size s) {i : Nat} {spurious : Bool} {sub : Subscriber α} {m : Nat} {o : Bool}
    {stage : Stage} (hsub : s.subscribers[i]? = some sub) (hpc : sub.pc = .consuming m o stage)
    (hC : s.NotTooLate size (.subscriber i spurious)) :
    Inv size (s.consumeNext size i spurious sub m o stage) := by
  have hok := h.subs sub (List.mem_of_getElem? hsub)
  rw [hpc] at hok
  obtain ⟨hstage, hfresh⟩ := hok
  have hnone : sub.holds size = none := by
    unfold Subscriber.holds
    rw [hpc]
  cases stage with
  | check =>
    show Inv size (s.goTo i sub (if _ then _ else _))
    split
    · exact h.goTo hsub hnone.symm trivial
    · exact h.goTo hsub hnone.symm ⟨trivial, hfresh⟩
  | fetchAdd =>
    simp only [Queue.consumeNext]
    exact h.touch hsub hnone.symm (fun _ => rfl) (fun _ => rfl) (fun _ _ hv => hv) ⟨trivial, hfresh⟩
  | compare active =>
    show Inv size (s.goTo i sub (if _ then _ else _))
    split
    · exact h.goTo hsub hnone.symm trivial
    · exact h.goTo hsub hnone.symm ⟨trivial, hfresh⟩
  | load r rounds =>
    show Inv size (s.goTo i sub (if _ then if _ then _ else _ else _))
    split
    · split
      · exact h.goTo hsub hnone.symm trivial
      · rename_i hm
        exact h.goTo hsub hnone.symm ⟨hm, hfresh⟩
    · exact h.goTo hsub hnone.symm trivial
  | exchange r rounds e =>
    show Inv size (if _ then s.touch size i sub _ m _ else s.goTo i sub _)
    by_cases hwin : (s.items (slot size m)).mutex = e ∧ spurious = false
    · rw [if_pos hwin]
      -- the slot was not overwritten, and it is not locked by the publisher
      have ho : o = false := by
        cases o with
        | false => rfl
        | true =>
          have hlate : s.NotTooLateAt size spurious sub.pc := hC sub hsub
          rw [hpc] at hlate
          exact absurd hwin hlate
      have he : e ≠ -1 := hstage
      refine h.relock hsub (fun k => ?_) (fun k hk => ?_) ⟨(hfresh ho).2, nofun⟩
      · rw [hnone, hit_none]
        show _ = _ + (hit (some (slot size m)) k : Int)
        rw [hit_some]
        by_cases hkm : k = slot size m
        · rw [if_pos hkm, if_pos hkm.symm, hkm, hwin.1]
          omega
        · rw [if_neg hkm, if_neg (Ne.symm hkm)]
      · show hit (some (slot size m)) k = 0
        rw [hit_some]
        refine if_neg fun hkm => ?_
        rcases h.lock k with ⟨-, hword, -⟩ | ⟨hne, -⟩
        · rw [← hkm, hwin.1] at hword
          exact he hword
        · exact hne hk
    · rw [if_neg hwin]
      exact h.goTo hsub hnone.symm ⟨trivial, hfresh⟩

theorem Inv.holdNext (h : Inv size s) {i : Nat} {sub : Subscriber α} {m : Nat} {hold : Hold α}
    (hsub : s.subscribers[i]? = some sub) (hpc : sub.pc = .holding m hold) :
    Inv size (s.holdNext size i sub m hold) := by
  have hmem := List.mem_of_getElem? hsub
  have hok := h.subs sub hmem
  rw [hpc] at hok
  obtain ⟨hid, hcalled⟩ := hok
  have hsome : sub.holds size = some (slot size m) := by
    unfold Subscriber.holds
    rw [hpc]
  have hout := h.not_locked hmem hsome
  cases hold with
  | call =>
    show Inv size (match (s.items (slot size m)).optValue with
      | some v => s.goTo i sub (.holding m (.callback v))
      | none => s.goTo i sub (.holding m .fetchSub))
    split
    · rename_i v hv
      refine h.goTo hsub hsome.symm ⟨hid, fun w hw => ?_⟩
      -- nobody writes in this slot, so its id is the id of its value
      have hidOf : s.idOf size (slot size m) = m := by
        unfold idOf
        split
        · rename_i id hname
          have hne : slot size id ≠ slot size m := by
            intro hsame
            refine hout ?_
            unfold PublisherPc.naming at hname
            split at hname
            · rename_i id' hp
              rw [hp, ← hsame, ← Option.some.inj hname]
              rfl
            · cases hname
          rw [if_neg hne]
          exact hid
        · exact hid
      obtain ⟨-, hpub⟩ := h.stored _ v hv
      rw [hidOf] at hpub
      rw [hpub, Hold.callback.inj hw]
    · exact h.goTo hsub hsome.symm ⟨hid, nofun⟩
  | callback v =>
    show Inv size (s.goTo i sub _)
    exact h.goTo hsub hsome.symm ⟨hid, nofun⟩
  | fetchSub =>
    simp only [Queue.holdNext]
    refine h.touch hsub hsome.symm (fun _ => rfl) (fun _ => rfl) (fun _ _ hv => hv) ⟨hid, fun v hv => ?_⟩
    split at hv <;> cases hv
  | reset =>
    simp only [Queue.holdNext]
    exact h.touch hsub hsome.symm (fun _ => rfl) (fun _ => rfl) (fun _ _ hv => nomatch hv) ⟨hid, nofun⟩
  | unlock =>
    show Inv size (s.touch size i sub _ m fun x => { x with mutex := _ })
    refine h.relock hsub (fun k => ?_) (fun k _ => hit_none k) trivial
    rw [hsome, hit_some]
    show _ = _ + ((hit none k : Nat) : Int)
    rw [hit_none]
    by_cases hkm : k = slot size m
    · rw [if_pos hkm, if_pos hkm.symm, hkm]
      omega
    · rw [if_neg hkm, if_neg (Ne.symm hkm)]

theorem Inv.subscriberNext (h : Inv size s) {i : Nat} {spurious : Bool} {sub : Subscriber α}
    (hsub : s.subscribers[i]? = some sub) (hC : s.NotTooLate size (.subscriber i spurious))
    (ht : s.subscriberNext size i spurious sub sub.pc = some t) : Inv size t := by
  have hnone : ∀ {pc}, sub.pc = pc → (∀ m hold, pc ≠ .holding m hold) → sub.holds size = none := by
    rintro pc rfl hne
    unfold Subscriber.holds
    split
    · rename_i m hold hpc
      exact absurd hpc (hne m hold)
    · rfl
  cases hpc : sub.pc with
  | subscribing =>
    rw [hpc] at ht
    rw [← Option.some.inj ht]
    exact h.move hsub (hnone hpc nofun).symm trivial
  | wait =>
    rw [hpc] at ht
    rw [← Option.some.inj ht]
    split
    · exact h
    · split
      · exact h.move hsub (hnone hpc nofun).symm trivial
      · exact h.move hsub (hnone hpc nofun).symm trivial
  | readId m =>
    rw [hpc] at ht
    rw [← Option.some.inj ht]
    split
    · exact h.goTo hsub (hnone hpc nofun).symm trivial
    · rename_i hm
      refine h.goTo hsub (hnone hpc nofun).symm ⟨trivial, fun ho => ?_⟩
      exact ⟨of_decide_eq_false ho, Decidable.not_not.mp hm⟩
  | consuming m o stage =>
    rw [hpc] at ht
    exact Option.some.inj ht ▸ h.consumeNext hsub hpc hC
  | holding m hold =>
    rw [hpc] at ht
    exact Option.some.inj ht ▸ h.holdNext hsub hpc
  | leaving m =>
    rw [hpc] at ht
    rw [← Option.some.inj ht]
    exact h.touch hsub (hnone hpc nofun).symm (fun _ => rfl) (fun _ => rfl) (fun _ _ hv => hv) trivial
  | idle =>
    rw [hpc] at ht
    cases ht

/-! ## steps of the publisher -/

/-- **A step of the publisher** that changes no id and no value. -/
theorem Inv.publisher (h : Inv size s) (hsubs : t.subscribers = s.subscribers)
    (hpublished : t.published = s.published) (hname : t.publisher.naming = s.publisher.naming)
    (hid : ∀ k, (t.items k).messageId = (s.items k).messageId)
    (hvalue : ∀ k, (t.items k).optValue = (s.items k).optValue)
    (hlock : ∀ k, t.publisher.locked size = some k ∧ (t.items k).mutex = -1 ∧
        hits (Subscriber.holds size) s.subscribers k = 0 ∨
      t.publisher.locked size ≠ some k ∧
        (t.items k).mutex = hits (Subscriber.holds size) s.subscribers k) : Inv size t := by
  refine ⟨fun k => ?_, fun k v hv => ?_, fun sub hsub => ?_⟩
  · rw [hsubs]
    exact hlock k
  · rw [idOf_congr hname hid, hpublished]
    exact h.stored k v ((hvalue k).symm.trans hv)
  · rw [hsubs] at hsub
    exact (h.subs sub hsub).congr hname hid hpublished

theorem update_field {β : Type} (items : Nat → Message α) {k : Nat} {x : Message α} (f : Message α → β)
    (hf : f x = f (items k)) (j : Nat) : f (update items k x j) = f (items j) := by
  by_cases hj : j = k
  · rw [hj, update_self, hf]
  · rw [update_of_ne hj]

theorem Inv.write (h : Inv size s) {id : Nat} {pc : PublisherPc α} {f : Message α → Message α}
    (hid : ∀ x, (f x).messageId = x.messageId) (hvalue : ∀ x, (f x).optValue = x.optValue)
    (hword : ∀ x, (f x).mutex = x.mutex) (hname : pc.naming = s.publisher.naming)
    (hlocked : pc.locked size = s.publisher.locked size) : Inv size (s.writeItem size id pc f) := by
  refine h.publisher rfl rfl hname (update_field s.items Message.messageId (hid _))
    (update_field s.items Message.optValue (hvalue _)) fun k => ?_
  show pc.locked size = some k ∧ (update s.items _ _ k).mutex = -1 ∧ _ ∨
    pc.locked size ≠ some k ∧ (update s.items _ _ k).mutex = _
  rw [hlocked, update_field s.items Message.mutex (hword _)]
  exact h.lock k

theorem Inv.tryLock (h : Inv size s) {id : Nat} {v : α} (hp : s.publisher = .tryLock id v)
    (hfree : (s.items (slot size id)).mutex = 0) :
    Inv size (s.writeItem size id (.loadNum id v) fun m => { m with mutex := -1 }) := by
  refine h.publisher rfl rfl (by rw [hp]; rfl) (update_field s.items Message.messageId rfl)
    (update_field s.items Message.optValue rfl) fun k => ?_
  have hk := h.lock k
  rw [hp] at hk
  obtain ⟨-, hk⟩ := hk.resolve_left (fun hl => nomatch hl.1)
  show some (slot size id) = some k ∧ (update s.items _ _ k).mutex = -1 ∧ _ ∨
    some (slot size id) ≠ some k ∧ (update s.items _ _ k).mutex = _
  by_cases hkid : slot size id = k
  · subst hkid
    rw [update_self]
    exact .inl ⟨rfl, rfl, by omega⟩
  · rw [update_of_ne (Ne.symm hkid)]
    exact .inr ⟨fun hc => hkid (Option.some.inj hc), hk⟩

theorem Inv.unlock (h : Inv size s) {id : Nat} (hp : s.publisher = .unlock id) :
    Inv size (s.writeItem size id (.storeNext id) fun m => { m with mutex := 0 }) := by
  refine h.publisher rfl rfl (by rw [hp]; rfl) (update_field s.items Message.messageId rfl)
    (update_field s.items Message.optValue rfl) fun k => .inr ⟨nofun, ?_⟩
  have hk := h.lock k
  rw [hp] at hk
  show (update s.items _ _ k).mutex = _
  by_cases hkid : k = slot size id
  · subst hkid
    rw [update_self]
    rcases hk with ⟨-, -, hzero⟩ | ⟨hne, -⟩
    · rw [hzero]
      rfl
    · exact absurd rfl hne
  · rw [update_of_ne hkid]
    rcases hk with ⟨hl, -⟩ | ⟨-, hk⟩
    · exact absurd (Option.some.inj hl).symm hkid
    · exact hk

theorem holds_overwrite (k : Nat) (sub : Subscriber α) :
    (sub.overwrite size k).holds size = sub.holds size := by
  obtain ⟨next, pc⟩ := sub
  cases pc <;> rfl

theorem hits_overwrite (size j k : Nat) (subs : List (Subscriber α)) :
    hits (Subscriber.holds size) (subs.map (Subscriber.overwrite size j)) k
      = hits (Subscriber.holds size) subs k := by
  unfold hits
  rw [List.countP_map]
  refine List.countP_congr fun sub _ => ?_
  show decide ((sub.overwrite size j).holds size = some k) = true ↔ _
  rw [holds_overwrite]

theorem Inv.slot_ne (h : Inv size s) {id : Nat} (hlocked : s.publisher.locked size = some (slot size id))
    {sub : Subscriber α} (hsub : sub ∈ s.subscribers) {m : Nat} {hold : Hold α}
    (hpc : sub.pc = .holding m hold) : slot size m ≠ slot size id := by
  intro hc
  have hholds : sub.holds size = some (slot size m) := by
    unfold Subscriber.holds
    rw [hpc]
  refine h.not_locked hsub hholds ?_
  rw [hlocked, hc]

/-- the value is stored, the id is still the old one; nobody has the lock of the slot -/
theorem Inv.storeValue (h : Inv size s) {id : Nat} {v : α} (hp : s.publisher = .storeValue id v)
    (ht : s.publisherNext size false (.storeValue id v) = some t) : Inv size t := by
  have hlocked : s.publisher.locked size = some (slot size id) := by rw [hp]; rfl
  have hnone : s.publisher.naming = none := by rw [hp]; rfl
  rw [← Option.some.inj ht]
  refine ⟨fun k => ?_, fun k w hw => ?_, fun sub' hsub' => ?_⟩
  · have hk := h.lock k
    rw [hlocked] at hk
    have hhits := hits_overwrite size (slot size id) k s.subscribers
    have hword : ∀ j, (update s.items (slot size id)
        { s.items (slot size id) with optValue := some v } j).mutex = (s.items j).mutex :=
      update_field s.items Message.mutex rfl
    rw [← hword k, ← hhits] at hk
    exact hk
  · -- in this slot the new value and its id, elsewhere as before
    have hw' : (update s.items (slot size id) { s.items (slot size id) with optValue := some v } k).optValue
        = some w := hw
    show slot size (if slot size id = k then id else (update s.items _ _ k).messageId) = k ∧
      update s.published id (some v) (if slot size id = k then id else (update s.items _ _ k).messageId)
        = some w
    by_cases hk : slot size id = k
    · subst hk
      rw [update_self] at hw'
      rw [if_pos rfl, update_self]
      exact ⟨rfl, hw'⟩
    · rw [update_of_ne (Ne.symm hk)] at hw'
      rw [if_neg hk, update_of_ne (Ne.symm hk)]
      obtain ⟨hslot, hpub⟩ := h.stored k w hw'
      unfold idOf at hslot hpub
      rw [hnone] at hslot hpub
      have hne : (s.items k).messageId ≠ id := by
        intro heq
        rw [heq] at hslot
        exact hk hslot
      rw [update_of_ne hne]
      exact ⟨hslot, hpub⟩
  · obtain ⟨sub, hsub, rfl⟩ := List.mem_map.mp hsub'
    have hok := h.subs sub hsub
    have hid : ∀ k, (update s.items (slot size id)
        { s.items (slot size id) with optValue := some v } k).messageId = (s.items k).messageId :=
      update_field s.items Message.messageId rfl
    cases hpc : sub.pc with
    | consuming m o stage =>
      rw [hpc] at hok
      unfold Subscriber.overwrite
      rw [hpc]
      refine ⟨hok.1, fun ho => ?_⟩
      obtain ⟨ho', hne⟩ := Bool.or_eq_false_iff.mp ho
      have hne' : ¬ slot size m = slot size id := of_decide_eq_false hne
      refine ⟨fun hc => hne' (Option.some.inj hc).symm, (hid _).trans (hok.2 ho').2⟩
    | holding m hold =>
      rw [hpc] at hok
      unfold Subscriber.overwrite
      rw [hpc]
      refine ⟨(hid _).trans hok.1, fun w hw => ?_⟩
      -- a holder of the slot of `id` would have kept the publisher out
      have hm : m ≠ id := fun hm => h.slot_ne hlocked hsub hpc (congrArg (slot size) hm)
      show update s.published id (some v) m = some w
      rw [update_of_ne hm]
      exact hok.2 w hw
    | _ =>
      unfold Subscriber.overwrite
      rw [hpc]
      exact trivial

theorem Inv.storeId (h : Inv size s) {id : Nat} (hp : s.publisher = .storeId id) :
    Inv size (s.writeItem size id (.unlock id) fun m => { m with messageId := id }) := by
  have hlocked : s.publisher.locked size = some (slot size id) := by rw [hp]; rfl
  have hname : s.publisher.naming = some id := by rw [hp]; rfl
  have hidOf : ∀ k, (update s.items (slot size id) { s.items (slot size id) with messageId := id } k).messageId
      = s.idOf size k := by
    intro k
    unfold idOf
    rw [hname]
    dsimp only
    by_cases hk : slot size id = k
    · subst hk
      rw [update_self, if_pos rfl]
    · rw [update_of_ne (Ne.symm hk), if_neg hk]
  refine ⟨fun k => ?_, fun k v hv => ?_, fun sub hsub => ?_⟩
  · have hk := h.lock k
    rw [hlocked] at hk
    have hword : ∀ j, (update s.items (slot size id)
        { s.items (slot size id) with messageId := id } j).mutex = (s.items j).mutex :=
      update_field s.items Message.mutex rfl
    rw [← hword k] at hk
    exact hk
  · show slot size ((update s.items _ _ k).messageId) = k ∧ s.published (update s.items _ _ k).messageId = _
    rw [hidOf]
    have hvalue : ∀ j, (update s.items (slot size id)
        { s.items (slot size id) with messageId := id } j).optValue = (s.items j).optValue :=
      update_field s.items Message.optValue rfl
    exact h.stored k v ((hvalue k).symm.trans hv)
  · have hok := h.subs sub hsub
    cases hpc : sub.pc with
    | consuming m o stage =>
      rw [hpc] at hok
      refine ⟨hok.1, fun ho => ⟨nofun, ?_⟩⟩
      obtain ⟨hne, hm⟩ := hok.2 ho
      rw [hname] at hne
      have hne' : slot size m ≠ slot size id := fun hc => hne (congrArg some hc.symm)
      show (update s.items _ _ (slot size m)).messageId = m
      rw [update_of_ne hne']
      exact hm
    | holding m hold =>
      rw [hpc] at hok
      have hne : slot size m ≠ slot size id := h.slot_ne hlocked hsub hpc
      refine ⟨?_, hok.2⟩
      show (update s.items _ _ (slot size m)).messageId = m
      rw [update_of_ne hne]
      exact hok.1
    | _ => exact trivial

theorem Inv.publisherNext (h : Inv size s) {spurious : Bool}
    (ht : s.publisherNext size spurious s.publisher = some t) : Inv size t := by
  have hstay : ∀ {n : Nat} {pc : PublisherPc α}, pc.naming = s.publisher.naming →
      pc.locked size = s.publisher.locked size → Inv size { s with next := n, publisher := pc } := by
    intro n pc hname hlocked
    refine h.publisher rfl rfl hname (fun _ => rfl) (fun _ => rfl) fun k => ?_
    show pc.locked size = some k ∧ _ ∨ pc.locked size ≠ some k ∧ _
    rw [hlocked]
    exact h.lock k
  cases hp : s.publisher with
  | idle =>
    rw [hp] at ht
    cases ht
  | tryLock id v =>
    rw [hp] at ht
    rw [← Option.some.inj ht]
    split
    · rename_i hwin
      exact h.tryLock hp hwin.1
    · exact hstay (by rw [hp]; rfl) (by rw [hp]; rfl)
  | loadNum id v =>
    rw [hp] at ht
    rw [← Option.some.inj ht]
    exact hstay (by rw [hp]; rfl) (by rw [hp]; rfl)
  | storeRemaining id v n =>
    rw [hp] at ht
    rw [← Option.some.inj ht]
    exact h.write (fun _ => rfl) (fun _ => rfl) (fun _ => rfl) (by rw [hp]; rfl) (by rw [hp]; rfl)
  | storeInitial id v n =>
    rw [hp] at ht
    rw [← Option.some.inj ht]
    exact h.write (fun _ => rfl) (fun _ => rfl) (fun _ => rfl) (by rw [hp]; rfl) (by rw [hp]; rfl)
  | storeValue id v =>
    rw [hp] at ht
    exact h.storeValue hp ht
  | storeId id =>
    rw [hp] at ht
    exact Option.some.inj ht ▸ h.storeId hp
  | unlock id =>
    rw [hp] at ht
    exact Option.some.inj ht ▸ h.unlock hp
  | storeNext id =>
    rw [hp] at ht
    rw [← Option.some.inj ht]
    exact hstay (by rw [hp]; rfl) (by rw [hp]; rfl)

/-- **One step** keeps the invariant, if no subscriber gets the lock of an overwritten slot. -/
theorem Inv.step (h : Inv size s) {a : Action α} (hC : s.NotTooLate size a) (ht : s.step size a = some t) :
    Inv size t := by
  cases a with
  | publish v =>
    simp only [Queue.step] at ht
    split at ht
    · rename_i hp
      rw [← Option.some.inj ht]
      refine h.publisher rfl rfl (by rw [hp]; rfl) (fun _ => rfl) (fun _ => rfl) fun k => ?_
      have hk := h.lock k
      rw [hp] at hk
      exact hk
    · cases ht
  | publisher spurious => exact h.publisherNext ht
  | subscribe =>
    rw [← Option.some.inj ht]
    refine ⟨fun k => ?_, h.stored, fun sub hsub => ?_⟩
    · have hk := h.lock k
      show _ ∧ _ ∧ hits _ (s.subscribers ++ [⟨0, .subscribing⟩]) k = 0 ∨
        _ ∧ _ = ((hits _ (s.subscribers ++ [⟨0, .subscribing⟩]) k : Nat) : Int)
      rw [hits_append, hits_singleton]
      exact hk
    · rcases List.mem_append.mp hsub with hsub | hsub
      · exact (h.subs sub hsub).congr rfl (fun _ => rfl) rfl
      · rw [List.mem_singleton.mp hsub]
        exact trivial
  | receive i =>
    simp only [Queue.step] at ht
    split at ht
    · rename_i next hsub
      rw [← Option.some.inj ht]
      exact h.move hsub rfl trivial
    · cases ht
  | cancel i =>
    simp only [Queue.step] at ht
    split at ht
    · rw [← Option.some.inj ht]
      exact h.publisher rfl rfl rfl (fun _ => rfl) (fun _ => rfl) h.lock
    · cases ht
  | subscriber i spurious =>
    obtain ⟨sub, hsub, hn⟩ := Option.bind_eq_some_iff.mp ht
    exact h.subscriberNext hsub hC hn

end Queue

open Queue in
/-- **The FIFO queue delivers what was asked for.**  For every queue size, one publisher, any number of
subscribers and any interleaving of their steps in which no subscriber gets the shared lock of a slot
that was overwritten since it looked at the id: in every state, each callback that runs for the id `m`
was called with the value that was published with the id `m`. -/
theorem receive_delivers {α : Type} (size : Nat) (as : List (Action α))
    (hC : Every (step size) (NotTooLate size) start as) (s : Queue α)
    (hr : run (step size) start as = some s) : s.Delivers :=
  (run_inv_of_every (I := Inv size) (fun _ _ _ h hCa ht => h.step hCa ht) as start_inv hC hr).delivers

namespace Queue

/-- subscriber `0` subscribes -/
def subscribeSteps : List (Action Nat) := [.subscribe, .subscriber 0 false]

/-- the publisher publishes `v` -/
def publishSteps (v : Nat) : List (Action Nat) := .publish v :: List.replicate 8 (.publisher false)

/-- subscriber `0` calls `receive` and looks at the id of its message -/
def lookSteps : List (Action Nat) := [.receive 0, .subscriber 0 false, .subscriber 0 false]

/-- `consume`, and the call of the callback -/
def callSteps : List (Action Nat) := List.replicate 6 (.subscriber 0 false)

/-- the publisher may run ahead, but not around the queue -/
theorem receive_delivers_first :
    ∃ s, run (step 2) start (subscribeSteps ++ publishSteps 7 ++ lookSteps ++ publishSteps 8 ++ callSteps)
        = some s ∧
      s.subscribers.map Subscriber.pc = [.holding 0 (.callback 7)] ∧ s.Delivers := by
  have hC : Every (step 2) (NotTooLate 2) (start : Queue Nat)
      (subscribeSteps ++ publishSteps 7 ++ lookSteps ++ publishSteps 8 ++ callSteps) := by decide +kernel
  exact ⟨_, rfl, rfl, receive_delivers 2 _ hC _ rfl⟩

/-- between the look at the id and `consume` the publisher comes around the queue: the callback for message
`0` is called with the value of message `2` -/
theorem delivers_wrong_message :
    ∃ s, run (step 2) start (subscribeSteps ++ publishSteps 7 ++ lookSteps ++ publishSteps 8 ++ publishSteps 9
        ++ callSteps) = some s ∧
      s.subscribers.map Subscriber.pc = [.holding 0 (.callback 9)] ∧ s.published 0 = some 7 :=
  ⟨_, rfl, rfl, rfl⟩

end Queue

end Fifo
end Ipcpp
