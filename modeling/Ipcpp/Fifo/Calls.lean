import Ipcpp.Fifo.MessageQueue
import Ipcpp.Lib.Answers
import Ipcpp.Lib.Log

/-!
# The FIFO topic, call by call

One `Publisher` and any number of `Subscriber` objects on the memory that `init_at` has prepared; every call
runs to its end before the next one starts.  `receive` does not return while there is nothing new.

What the topic stands for is a log of the published values (`Log.call`): a subscriber that comes starts at its
end and reads on, one message after the other.  Two things are lost on the way: a message that `size` others
have followed, and every message that is asked for while `next` is `2^64 - 1`, which means that the publisher is
down.

* `refines_log`        the topic answers as the log does, if a subscriber receives only while it is
                       subscribed (once), and is never `2^64` messages behind;
* `receives_in_order`  the answer of each `receive`, read off the calls before it.
-/

namespace Ipcpp
namespace Fifo
namespace Calls
open Function Runs Logs MessageQueue

/-- a `Subscriber` object -/
structure Receiver where
  messageQueue : View
  nextMessageId : Nat := 0

structure State (α : Type) where
  memory : Mapping (Message α)
  /-- the `_message_queue` of the publisher -/
  publisher : View
  subscribers : List Receiver

inductive Call (α : Type) where
  | publish (v : α) (spurious : Bool)
  /-- `Subscriber::create`; the memory is mapped to `addr` -/
  | create (addr : Nat)
  | subscribe (i : Nat)
  | receive (i : Nat) (spurious : Bool)
  | cancelSubscription (i : Nat)

inductive Answer (α : Type) where
  | success
  /-- `publisher::error_t::unknown_error` -/
  | unknownError
  /-- `{code, std::system_category()}` -/
  | systemError (code : Nat)
  /-- what `value()` of an empty optional throws -/
  | badOptionalAccess
  /-- the callback is called with `v`, and its error code returned -/
  | callback (v : α)
deriving DecidableEq

/-! ## the calls -/

section
variable {α : Type} (s : State α)

/-- a call that changes message `k` -/
def State.setItem (k : Nat) (x : Message α) : State α :=
  { s with memory := { s.memory with items := update s.memory.items k x } }

/-- `_m_notify_observers` -/
def State.notifyObservers (index : Nat) : State α :=
  { s with memory := { s.memory with header := { s.memory.header with next := index } } }

/-- `_m_publish`, as `publish` returns it -/
def publish (v : α) (spurious : Bool) : State α × Answer α :=
  let msgId := s.memory.header.next
  let k := s.publisher.index msgId
  match (s.memory.items k).requestWritable spurious with
  | none => (s, .unknownError)
  | some x =>
    let x' := (x.emplace (toInt64 s.memory.header.numSubscribers) msgId v).releaseWrite
    ((s.setItem k x').notifyObservers ((msgId + 1) % 2^64), .success)

def create (addr : Nat) : State α × Answer α :=
  match readAt addr s.memory with
  | .error code => (s, .systemError code)
  | .ok q => ({ s with subscribers := s.subscribers ++ [{ messageQueue := q }] }, .success)

def setNumSubscribers (n : Nat) : State α :=
  { s with memory := { s.memory with header := { s.memory.header with numSubscribers := n } } }

def subscribe (i : Nat) (sub : Receiver) : State α :=
  { setNumSubscribers s ((s.memory.header.numSubscribers + 1) % 2^64) with
    subscribers := s.subscribers.set i { sub with nextMessageId := s.memory.header.next } }

def cancelSubscription : State α :=
  setNumSubscribers s ((s.memory.header.numSubscribers + (2^64 - 1)) % 2^64)

/-- the callback and the destructor of the access; `value()` of an empty optional throws, and the access is
destroyed all the same -/
def callback (k : Nat) (x : Message α) : State α × Answer α :=
  (s.setItem k x.releaseRead,
    match x.optValue with
    | some v => .callback v
    | none => .badOptionalAccess)

/-- `receive`, when `_m_wait_for_data` has returned `received` -/
def receive (i : Nat) (spurious : Bool) (sub : Receiver) (received : Nat) : State α × Answer α :=
  let msgId := sub.nextMessageId
  let s' := { s with subscribers := s.subscribers.set i { sub with nextMessageId := (msgId + 1) % 2^64 } }
  if received = 2^64 - 1 then (s', .systemError 1)
  else
    let k := sub.messageQueue.index msgId
    if (s.memory.items k).messageId ≠ msgId then (s', .systemError 2)
    else
      match (s.memory.items k).consume spurious with
      | (x, false) => (s'.setItem k x, .systemError 3)
      | (x, true) => callback s' k x

def call (s : State α) : Call α → Option (State α × Answer α)
  | .publish v spurious => some (publish s v spurious)
  | .create addr => some (create s addr)
  | .subscribe i => (s.subscribers[i]?).map fun sub => (subscribe s i sub, .success)
  | .receive i spurious => (s.subscribers[i]?).bind fun sub =>
      if s.memory.header.next = sub.nextMessageId then none
      else some (receive s i spurious sub s.memory.header.next)
  | .cancelSubscription i => (s.subscribers[i]?).map fun _ => (cancelSubscription s, .success)

end

/-! ## what the topic stands for -/

section
variable {α : Type} (size : Nat)

/-- the answer of a reader at `c`, where the value `v` is, when `n` values have been published -/
def expected (n c : Nat) (v : α) : Answer α :=
  if n % 2^64 = 2^64 - 1 then .systemError 1
  else if c + size < n then .systemError 2
  else .callback v

/-- the reader at `c` goes on; it has read the entry only if it was called back -/
def logReceive (l : Log α) (i c : Nat) (e : Entry α) : Log α × Answer α :=
  (if l.entries.length % 2^64 = 2^64 - 1 ∨ c + size < l.entries.length then l.skip i c else l.read i c,
    expected size l.entries.length c e.value)

/-- a log of the published values, the last `size` of which can be read -/
def logCall (l : Log α) : Call α → Option (Log α × Answer α)
  | .publish v spurious => some (if spurious then (l, .unknownError) else (l.append v, .success))
  | .create _ => some (l.enrol, .success)
  | .subscribe i => (l.positions[i]?).map fun _ => (l.attach i, .success)
  | .receive i _ => (l.positions[i]?).bind fun a => a.bind fun c =>
      (l.entries[c]?).map fun e => logReceive size l i c e
  | .cancelSubscription i => (l.positions[i]?).map fun _ => (l.detach i, .success)

/-- a subscriber that subscribes is not subscribed, and one that receives or cancels is.  It is less than `2^64`
messages behind, fewer than `2^62` are subscribed (`consume` computes `2 * n + 1` in 64 bits), and `consume`
does not fail for no reason. -/
def Proper (l : Log α) : Call α → Prop
  | .publish _ _ | .create _ => True
  | .subscribe i => (∀ a ∈ l.positions[i]?, a = none) ∧ l.attached + 1 < 2^62
  | .receive i spurious =>
    (∀ a ∈ l.positions[i]?, ∃ c ∈ a, l.entries.length < c + 2^64) ∧ spurious = false
  | .cancelSubscription i => ∀ a ∈ l.positions[i]?, a.isSome

instance (l : Log α) : DecidablePred (Proper l)
  | .publish _ _ | .create _ => isTrue trivial
  | .subscribe i => inferInstanceAs (Decidable ((∀ a ∈ l.positions[i]?, a = none) ∧ l.attached + 1 < 2^62))
  | .receive i spurious => inferInstanceAs (Decidable
      ((∀ a ∈ l.positions[i]?, ∃ c ∈ a, l.entries.length < c + 2^64) ∧ spurious = false))
  | .cancelSubscription i => inferInstanceAs (Decidable (∀ a ∈ l.positions[i]?, a.isSome))

/-- message `m` of the log lies in `x`: nobody is at it, it counts the reads that are missing, and it has its
value until the last of its readers has read it -/
structure Holds (x : Message α) (m : Nat) (e : Entry α) : Prop where
  mutex : x.mutex = 0
  active : x.activeReferenceCounter = 0
  id : x.messageId = m % 2^64
  remaining : x.remainingReferences = (e.readers : Int) - e.reads
  value : x.optValue = if e.readers ≠ 0 ∧ e.reads = e.readers then none else some e.value

structure Agree (s : State α) (l : Log α) : Prop where
  inv : l.Inv
  stored : s.memory.header.queueSize = size
  publisher : s.publisher.size = size
  next : s.memory.header.next = l.entries.length % 2^64
  numSubscribers : s.memory.header.numSubscribers = l.attached
  few : l.attached < 2^62
  views : ∀ sub ∈ s.subscribers, sub.messageQueue.size = size
  objects : s.subscribers.length = l.positions.length
  positions : ∀ (i : Nat) (sub : Receiver) (c : Nat),
    s.subscribers[i]? = some sub → l.positions[i]? = some (some c) → sub.nextMessageId = c % 2^64
  /-- the last `size` messages -/
  held : ∀ m e, l.entries[m]? = some e → l.entries.length ≤ m + size → Holds (s.memory.items (m % size)) m e
  unused : ∀ k < size, l.entries.length ≤ k → s.memory.items k = {}

end

/-! ## the slots of a window -/

/-- the last of the first `n` ids that lies in the slot of `c` -/
theorem exists_latest {size n c : Nat} (hpos : 0 < size) (hc : c < n) :
    ∃ m, m % size = c % size ∧ c ≤ m ∧ m < n ∧ n ≤ m + size := by
  have hdiv := Nat.div_add_mod (n - 1 - c) size
  have hmod := Nat.mod_lt (n - 1 - c) hpos
  refine ⟨c + size * ((n - 1 - c) / size), Nat.add_mul_mod_self_left _ _ _, Nat.le_add_right _ _, ?_, ?_⟩
  · omega
  · omega

theorem eq_of_mod_eq {size m m' : Nat} (h : m % size = m' % size) (hle : m ≤ m') (hlt : m' < m + size) : m' = m := by
  have hdvd : size ∣ m' - m := (Nat.modEq_iff_dvd' hle).mp h
  have := Nat.eq_zero_of_dvd_of_lt hdvd (by omega)
  omega

section
variable {α : Type} {size k : Nat} {s : State α} {l : Log α} {i : Nat}

theorem index_mod {q : View} (hk : k < 64) (hsize : size = 2^k) (hq : q.size = size) (m : Nat) :
    q.index (m % 2^64) = m % size := by
  have hdvd : size ∣ 2^64 := hsize ▸ Nat.pow_dvd_pow 2 hk.le
  rw [View.index_eq_mod hk (hq.trans hsize), hq, Nat.mod_mod_of_dvd _ hdvd]

/-! ## one call -/

theorem Agree.idle (h : Agree size s l) {j : Nat} (hj : j < size) :
    (s.memory.items j).mutex = 0 ∧ (s.memory.items j).activeReferenceCounter = 0 := by
  rcases Nat.lt_or_ge j l.entries.length with hlt | hge
  · obtain ⟨m, hm, -, hmn, hn⟩ := exists_latest (Nat.zero_lt_of_lt hj) hlt
    obtain ⟨e, he⟩ : ∃ e, l.entries[m]? = some e := ⟨_, List.getElem?_eq_getElem hmn⟩
    have hheld := h.held m e he hn
    rw [hm, Nat.mod_eq_of_lt hj] at hheld
    exact ⟨hheld.mutex, hheld.active⟩
  · rw [h.unused j hj hge]
    exact ⟨rfl, rfl⟩

theorem toInt64_of_lt {n : Nat} (hn : n < 2^62) : toInt64 n = n := by
  unfold toInt64
  refine Int.bmod_eq_of_le_mul_two ?_ ?_
  · push_cast
    omega
  · push_cast
    omega

/-- what `publish` leaves in a message that nobody is at -/
theorem holds_emplace {x : Message α} (hactive : x.activeReferenceCounter = 0) {n : Nat} (hn : n < 2^62) (m : Nat)
    (v : α) : Holds (x.emplace (toInt64 n) (m % 2^64) v).releaseWrite m ⟨v, n, 0⟩ where
  mutex := rfl
  active := hactive
  id := rfl
  remaining := by
    rw [Message.emplace, Message.releaseWrite, toInt64_of_lt hn, Nat.cast_zero, Int.sub_zero]
  value := (if_neg fun h => h.1 h.2.symm).symm

theorem Agree.publish (hk : k < 64) (hsize : size = 2^k) (h : Agree size s l) (v : α) (spurious : Bool) :
    SameAnswer (Agree size) (publish s v spurious)
      (if spurious then (l, .unknownError) else (l.append v, .success)) := by
  have hpos : 0 < size := hsize ▸ Nat.two_pow_pos k
  have hslot := Nat.mod_lt l.entries.length hpos
  obtain ⟨hmutex, hactive⟩ := h.idle hslot
  have hindex : s.publisher.index s.memory.header.next = l.entries.length % size := by
    rw [h.next, index_mod hk hsize h.publisher]
  unfold Calls.publish
  dsimp only
  rw [hindex]
  cases spurious with
  | true =>
    have hnone : (s.memory.items (l.entries.length % size)).requestWritable true = none := if_neg (by simp)
    rw [hnone]
    exact ⟨h, rfl⟩
  | false =>
    have hsome : (s.memory.items (l.entries.length % size)).requestWritable false = some _ := if_pos ⟨hmutex, rfl⟩
    rw [hsome]
    show SameAnswer (Agree size) _ (l.append v, Answer.success)
    refine ⟨{ h with
      inv := h.inv.append v
      next := ?_
      held := fun m e he hm => ?_
      unused := fun j hj hn => ?_ }, rfl⟩
    · show (s.memory.header.next + 1) % 2^64 = (l.entries ++ [_]).length % 2^64
      rw [h.next, List.length_append, Nat.mod_add_mod]
      rfl
    · rw [Log.length_append] at hm
      have he' : (l.entries ++ [⟨v, l.attached, 0⟩])[m]? = some e := he
      show Holds (update s.memory.items (l.entries.length % size) _ (m % size)) m e
      rcases Nat.lt_or_ge m l.entries.length with hlt | hge
      · rw [List.getElem?_append_left hlt] at he'
        rw [update_of_ne fun hmod => by have := eq_of_mod_eq hmod hlt.le (by omega); omega]
        exact h.held m e he' (by omega)
      · obtain ⟨hm0, rfl⟩ : m = l.entries.length ∧ ⟨v, l.attached, 0⟩ = e := by
          rw [List.getElem?_append_right hge] at he'
          obtain ⟨h0, rfl⟩ := List.getElem?_eq_some_iff.mp he'
          rw [List.length_singleton] at h0
          exact ⟨by omega, by simp⟩
        rw [hm0, update_self, h.next, h.numSubscribers]
        exact holds_emplace hactive h.few _ v
    · rw [Log.length_append] at hn
      have hne : j ≠ l.entries.length % size := fun hmod => by
        rw [Nat.mod_eq_of_lt (by omega)] at hmod
        omega
      show update s.memory.items (l.entries.length % size) _ j = {}
      rw [update_of_ne hne]
      exact h.unused j hj (by omega)

theorem Agree.getElem?_none (h : Agree size s l) : s.subscribers[i]? = none ↔ l.positions[i]? = none := by
  rw [List.getElem?_eq_none_iff, List.getElem?_eq_none_iff, h.objects]

theorem Agree.getElem?_some (h : Agree size s l) {sub : Receiver} (hs : s.subscribers[i]? = some sub) :
    ∃ a, l.positions[i]? = some a :=
  Option.ne_none_iff_exists'.mp fun hn => by rw [h.getElem?_none.mpr hn] at hs; cases hs

theorem Agree.create (hpos : 0 < size) (h : Agree size s l) (addr : Nat) :
    SameAnswer (Agree size) (create s addr) (l.enrol, .success) := by
  have hread : readAt addr s.memory = .ok ⟨addr, addr + headerSize, size⟩ := by
    rw [readAt, h.stored, if_neg hpos.ne']
  unfold Calls.create
  rw [hread]
  refine ⟨{ h with
    inv := h.inv.enrol
    numSubscribers := h.numSubscribers.trans l.attached_enrol.symm
    few := l.attached_enrol.symm ▸ h.few
    views := fun sub hsub => ?_
    objects := ?_
    positions := fun j sub c hsub hc => ?_ }, rfl⟩
  · rcases List.mem_append.mp hsub with hsub | hsub
    · exact h.views sub hsub
    · rw [List.mem_singleton.mp hsub]
  · show (s.subscribers ++ [_]).length = (l.positions ++ [none]).length
    rw [List.length_append, List.length_append, h.objects]
    rfl
  · have hsub' : (s.subscribers ++ [_])[j]? = some sub := hsub
    have hc' : (l.positions ++ [none])[j]? = some (some c) := hc
    rcases Nat.lt_or_ge j l.positions.length with hj | hj
    · rw [List.getElem?_append_left hj] at hc'
      rw [List.getElem?_append_left (h.objects.symm ▸ hj)] at hsub'
      exact h.positions j sub c hsub' hc'
    · rw [List.getElem?_append_right hj] at hc'
      cases List.mem_singleton.mp (List.mem_of_getElem? hc')

/-- one object has another id to go on with, and its reader another position -/
theorem Agree.views_set (h : Agree size s l) {sub : Receiver} (hs : s.subscribers[i]? = some sub) (n : Nat) :
    ∀ r ∈ s.subscribers.set i { sub with nextMessageId := n }, r.messageQueue.size = size := by
  intro r hr
  rcases List.mem_or_eq_of_mem_set hr with hr | rfl
  · exact h.views r hr
  · exact h.views sub (List.mem_of_getElem? hs)

theorem Agree.positions_set (h : Agree size s l) {sub : Receiver} {n : Nat} {b : Option Nat}
    (hn : ∀ c, b = some c → n = c % 2^64) (j : Nat) (r : Receiver) (c : Nat)
    (hr : (s.subscribers.set i { sub with nextMessageId := n })[j]? = some r)
    (hc : (l.positions.set i b)[j]? = some (some c)) : r.nextMessageId = c % 2^64 := by
  rw [List.getElem?_set] at hr hc
  split at hr
  · rename_i hij
    rw [if_pos hij] at hc
    split at hr
    · split at hc
      · rw [← Option.some.inj hr]
        exact hn c (Option.some.inj hc)
      · cases hc
    · cases hr
  · rename_i hij
    rw [if_neg hij] at hc
    exact h.positions j r c hr hc

theorem Agree.subscribe (h : Agree size s l) {sub : Receiver} (hs : s.subscribers[i]? = some sub)
    (hl : l.positions[i]? = some none) (hfew : l.attached + 1 < 2^62) :
    Agree size (subscribe s i sub) (l.attach i) := by
  have hattached : (l.attach i).attached = l.attached + 1 := Log.attached_set (b := some l.entries.length) hl
  refine { h with
    inv := h.inv.attach hl
    numSubscribers := ?_
    few := hattached.symm ▸ hfew
    views := h.views_set hs _
    objects := by
      show (s.subscribers.set i _).length = (l.positions.set i _).length
      rw [List.length_set, List.length_set, h.objects]
    positions := h.positions_set fun c hc => by rw [h.next, Option.some.inj hc] }
  show (s.memory.header.numSubscribers + 1) % 2^64 = (l.attach i).attached
  rw [h.numSubscribers, hattached, Nat.mod_eq_of_lt (by omega)]

theorem Agree.detach (h : Agree size s l) {a : Option Nat} (hl : l.positions[i]? = some a)
    (hfew : (l.detach i).attached < 2^62) :
    Agree size (setNumSubscribers s (l.detach i).attached) (l.detach i) := by
  refine { h with
    inv := h.inv.detach hl
    numSubscribers := rfl
    few := hfew
    objects := h.objects.trans (List.length_set ..).symm
    positions := fun j r d hr hd => ?_ }
  have hd' : (l.positions.set i none)[j]? = some (some d) := hd
  rw [List.getElem?_set] at hd'
  split at hd'
  · split at hd' <;> cases hd'
  · exact h.positions j r d hr hd'

theorem Agree.cancelSubscription (h : Agree size s l) {c : Nat} (hl : l.positions[i]? = some (some c)) :
    Agree size (cancelSubscription s) (l.detach i) := by
  have hattached : (l.detach i).attached + 1 = l.attached := Log.attached_set (b := none) hl
  have hfew := h.few
  have hn : (s.memory.header.numSubscribers + (2^64 - 1)) % 2^64 = (l.detach i).attached := by
    rw [h.numSubscribers]
    omega
  unfold Calls.cancelSubscription
  rw [hn]
  exact h.detach hl (by omega)

/-! ## `receive` -/

/-- the state in which `receive` has counted on -/
def State.advance (s : State α) (i : Nat) (sub : Receiver) : State α :=
  { s with subscribers := s.subscribers.set i { sub with nextMessageId := (sub.nextMessageId + 1) % 2^64 } }

theorem Agree.skip {c : Nat} (h : Agree size s l) {sub : Receiver} (hs : s.subscribers[i]? = some sub)
    (hl : l.positions[i]? = some (some c)) (hlt : c < l.entries.length) :
    Agree size (s.advance i sub) (l.skip i c) := by
  have hattached : (l.skip i c).attached = l.attached := by
    have hset := Log.attached_set (b := some (c + 1)) hl
    exact Nat.add_right_cancel hset
  exact { h with
    inv := h.inv.skip hl hlt
    numSubscribers := h.numSubscribers.trans hattached.symm
    few := hattached.symm ▸ h.few
    views := h.views_set hs _
    objects := by
      show (s.subscribers.set i _).length = (l.positions.set i _).length
      rw [List.length_set, List.length_set, h.objects]
    positions := h.positions_set fun d hd => by
      rw [h.positions i sub c hs hl, ← Option.some.inj hd, Nat.mod_add_mod] }

theorem Holds.release {x : Message α} {m : Nat} {e : Entry α} (h : Holds x m e) (hlt : e.reads < e.readers) :
    Holds ({ x with
        activeReferenceCounter := x.activeReferenceCounter + 1, mutex := x.mutex + 1 } : Message α).releaseRead m
      { e with reads := e.reads + 1 } := by
  have hvalue := h.value
  rw [if_neg fun hr => by omega] at hvalue
  refine ⟨?_, ?_, h.id, ?_, ?_⟩
  · show x.mutex + 1 - 1 = 0
    rw [h.mutex]
    rfl
  · show x.activeReferenceCounter + 1 - 1 = 0
    rw [h.active]
    rfl
  · show x.remainingReferences - 1 = (e.readers : Int) - (e.reads + 1 : Nat)
    rw [h.remaining]
    push_cast
    omega
  · show (if x.remainingReferences = 1 then none else x.optValue) =
      if e.readers ≠ 0 ∧ e.reads + 1 = e.readers then none else some e.value
    rw [hvalue, h.remaining]
    by_cases hlast : e.reads + 1 = e.readers
    · rw [if_pos (by omega), if_pos ⟨by omega, hlast⟩]
    · rw [if_neg (by omega), if_neg fun hr => hlast hr.2]

theorem Agree.read {c : Nat} {e : Entry α} (h : Agree size s l) {sub : Receiver}
    (hs : s.subscribers[i]? = some sub) (hl : l.positions[i]? = some (some c)) (he : l.entries[c]? = some e)
    (hwindow : l.entries.length ≤ c + size) {x : Message α}
    (hx : Holds x c { e with reads := e.reads + 1 }) :
    Agree size ((s.advance i sub).setItem (c % size) x) (l.read i c) := by
  have hlt : c < l.entries.length := (List.getElem?_eq_some_iff.mp he).1
  have hskip := h.skip hs hl hlt
  have hlength : (l.read i c).entries.length = l.entries.length := List.length_modify ..
  refine { hskip with
    inv := h.inv.read hl hlt
    next := hskip.next.trans (by rw [hlength]; rfl)
    held := fun m d hd hm => ?_
    unused := fun j hj hn => ?_ }
  · rw [hlength] at hm
    rw [Log.getElem?_read] at hd
    show Holds (update s.memory.items (c % size) x (m % size)) m d
    split at hd
    · subst c
      rw [he] at hd
      rw [update_self, ← Option.some.inj hd]
      exact hx
    · have hm' : m < l.entries.length := (List.getElem?_eq_some_iff.mp hd).1
      have hne : m % size ≠ c % size := fun hmod => by
        rcases Nat.le_total m c with hle | hle
        · exact absurd (eq_of_mod_eq hmod hle (by omega)) ‹_›
        · exact absurd (eq_of_mod_eq hmod.symm hle (by omega)).symm ‹_›
      rw [update_of_ne hne]
      exact h.held m d hd hm
  · rw [hlength] at hn
    have hne : j ≠ c % size := fun hmod => by
      rw [Nat.mod_eq_of_lt (by omega)] at hmod
      omega
    show update s.memory.items (c % size) x j = {}
    rw [update_of_ne hne]
    exact h.unused j hj hn

/-- a message that `size` others have followed: another one has its slot -/
theorem Agree.overwritten {c : Nat} (hpos : 0 < size) (h : Agree size s l) (hlost : c + size < l.entries.length)
    (hnear : l.entries.length < c + 2^64) : (s.memory.items (c % size)).messageId ≠ c % 2^64 := by
  obtain ⟨m, hm, -, hmn, hn⟩ := exists_latest hpos (show c < l.entries.length by omega)
  have hheld := h.held m _ (List.getElem?_eq_getElem hmn) hn
  rw [hm] at hheld
  rw [hheld.id]
  intro hmod
  have := eq_of_mod_eq hmod.symm (by omega) (by omega)
  omega

theorem Agree.receive {c : Nat} {e : Entry α} (hk : k < 64) (hsize : size = 2^k) (h : Agree size s l)
    {sub : Receiver} (hs : s.subscribers[i]? = some sub) (hl : l.positions[i]? = some (some c))
    (he : l.entries[c]? = some e) (hnear : l.entries.length < c + 2^64) :
    SameAnswer (Agree size) (receive s i false sub s.memory.header.next) (logReceive size l i c e) := by
  have hpos : 0 < size := hsize ▸ Nat.two_pow_pos k
  have hlt : c < l.entries.length := (List.getElem?_eq_some_iff.mp he).1
  have hid : sub.nextMessageId = c % 2^64 := h.positions i sub c hs hl
  have hindex : sub.messageQueue.index sub.nextMessageId = c % size := by
    rw [hid, index_mod hk hsize (h.views sub (List.mem_of_getElem? hs))]
  have hskip := h.skip hs hl hlt
  unfold Calls.receive logReceive expected
  dsimp only
  rw [hindex, h.next]
  by_cases hdown : l.entries.length % 2^64 = 2^64 - 1
  · rw [if_pos hdown, if_pos (.inl hdown), if_pos hdown]
    exact ⟨hskip, rfl⟩
  · rw [if_neg hdown, if_neg hdown]
    by_cases hlost : c + size < l.entries.length
    · rw [if_pos (hid ▸ h.overwritten hpos hlost hnear), if_pos (.inr hlost), if_pos hlost]
      exact ⟨hskip, rfl⟩
    · have hheld := h.held c e he (Nat.not_lt.mp hlost)
      have hreads := h.inv.reads_lt hl he
      have hvalue : (s.memory.items (c % size)).optValue = some e.value :=
        hheld.value.trans (if_neg fun hr => by omega)
      have hconsume := Message.consume_accepted (m := s.memory.items (c % size)) (hvalue ▸ rfl)
        (by rw [hheld.active, hheld.remaining]; omega) (by rw [hheld.mutex]; decide)
      rw [if_neg (not_not.mpr (hid.symm ▸ hheld.id)), if_neg (not_or.mpr ⟨hdown, hlost⟩), if_neg hlost, hconsume]
      refine ⟨h.read hs hl he (Nat.not_lt.mp hlost) (hheld.release hreads), ?_⟩
      show (match (s.memory.items (c % size)).optValue with
        | some v => Answer.callback v
        | none => .badOptionalAccess) = .callback e.value
      rw [hvalue]

/-! ## runs -/

/-- **One call** answers as the log does, and leaves the topic as it leaves the log. -/
theorem call_agrees (hk : k < 64) (hsize : size = 2^k) (h : Agree size s l) {c : Call α} (hC : Proper l c) :
    Option.Rel (SameAnswer (Agree size)) (call s c) (logCall size l c) := by
  cases c with
  | publish v spurious => exact .some (h.publish hk hsize v spurious)
  | create addr => exact .some (h.create (hsize ▸ Nat.two_pow_pos k) addr)
  | subscribe i =>
    rw [call, logCall]
    cases hs : s.subscribers[i]? with
    | none =>
      rw [h.getElem?_none.mp hs]
      exact .none
    | some sub =>
      obtain ⟨a, ha⟩ := h.getElem?_some hs
      obtain rfl : a = none := hC.1 a ha
      rw [ha]
      exact .some ⟨h.subscribe hs ha hC.2, rfl⟩
  | receive i spurious =>
    rw [call, logCall]
    cases hs : s.subscribers[i]? with
    | none =>
      rw [h.getElem?_none.mp hs]
      exact .none
    | some sub =>
      obtain ⟨a, ha⟩ := h.getElem?_some hs
      obtain ⟨c, rfl, hnear⟩ := hC.1 a ha
      obtain rfl : spurious = false := hC.2
      have hid := h.positions i sub c hs ha
      have hle : c ≤ l.entries.length := h.inv.inside c (List.mem_of_getElem? ha)
      rw [ha, Option.bind_some, Option.bind_some, Option.bind_some]
      cases he : l.entries[c]? with
      | none =>
        have hc : l.entries.length = c := Nat.le_antisymm (List.getElem?_eq_none_iff.mp he) hle
        rw [if_pos (by rw [h.next, hid, hc])]
        exact .none
      | some e =>
        have hlt : c < l.entries.length := (List.getElem?_eq_some_iff.mp he).1
        have hne : s.memory.header.next ≠ sub.nextMessageId := fun heq => by
          rw [h.next, hid] at heq
          have := eq_of_mod_eq heq.symm hle hnear
          omega
        rw [if_neg hne]
        exact .some (h.receive hk hsize hs ha he hnear)
  | cancelSubscription i =>
    rw [call, logCall]
    cases hs : s.subscribers[i]? with
    | none =>
      rw [h.getElem?_none.mp hs]
      exact .none
    | some sub =>
      obtain ⟨a, ha⟩ := h.getElem?_some hs
      obtain ⟨c, rfl⟩ := Option.isSome_iff_exists.mp (hC a ha)
      rw [ha]
      exact .some ⟨h.cancelSubscription ha, rfl⟩

theorem constructItems_eq (new : Message α) (items : Nat → Message α) (n i j : Nat) :
    constructItems new items i n j = if i ≤ j ∧ j < i + n then new else items j := by
  induction n generalizing items i with
  | zero => exact (if_neg (by omega)).symm
  | succ n ih =>
    rw [constructItems, ih]
    by_cases hj : j = i
    · subst j
      rw [if_neg (by omega), update_self, if_pos (by omega)]
    · rw [update_of_ne hj]
      exact if_congr (by omega) rfl rfl

/-- what `Publisher::create` and the topic have before the first call -/
theorem start_agrees {sz addr sizeBytes : Nat} {m m' : Mapping (Message α)} {q : View}
    (h : initAt sz {} addr sizeBytes m = .ok (m', q)) : Agree q.size ⟨m', q, []⟩ (Log.empty : Log α) := by
  obtain ⟨-, -, hstored⟩ := initAt_ok h
  have hm' : m' = ⟨{ queueSize := q.size }, constructItems {} m.items 0 q.size⟩ := by
    unfold initAt at h
    split at h
    · cases h
    · obtain ⟨rfl, rfl⟩ := Prod.mk.inj (Except.ok.inj h)
      rfl
  subst hm'
  refine ⟨Log.empty_inv, hstored, rfl, (Nat.zero_mod _).symm, rfl, Nat.two_pow_pos 62, nofun, rfl, nofun, nofun, ?_⟩
  intro j hj _
  show constructItems {} m.items 0 q.size j = {}
  rw [constructItems_eq, if_pos ⟨Nat.zero_le j, by omega⟩]

/-- calls that keep the conditions lead from states that agree to states that agree -/
theorem Agree.answers (hk : k < 64) (hsize : size = 2^k) (h : Agree size s l) (cs : List (Call α))
    (hC : Obeys (logCall size) Proper l cs) :
    Option.Rel (SameAnswer (Agree size)) (answers call s cs) (answers (logCall size) l cs) :=
  answers_rel (fun _ _ _ hR hP => call_agrees hk hsize hR hP) cs h hC

/-- **The topic answers as the log does.** -/
theorem refines_log {sz addr sizeBytes : Nat} {m m' : Mapping (Message α)} {q : View} (hsz : 0 < sz)
    (hbytes : sizeBytes < 2^64) (h : initAt sz {} addr sizeBytes m = .ok (m', q)) (cs : List (Call α))
    (hC : Obeys (logCall q.size) Proper Log.empty cs) :
    Option.Rel (SameAnswer (Agree q.size)) (answers call ⟨m', q, []⟩ cs)
      (answers (logCall q.size) Log.empty cs) := by
  obtain ⟨k, hk, hsize⟩ := initAt_size hsz hbytes h
  exact (start_agrees h).answers hk hsize cs hC

end

/-! ## what a subscriber receives -/

section
variable {α : Type}

def published : List (Call α) → List (Answer α) → List α
  | .publish v _ :: cs, .success :: bs => v :: published cs bs
  | _ :: cs, _ :: bs => published cs bs
  | _, _ => []

/-- how often subscriber `i` has called `receive` -/
def receives (i : Nat) : List (Call α) → Nat
  | .receive j _ :: cs => (if j = i then 1 else 0) + receives i cs
  | _ :: cs => receives i cs
  | [] => 0

/-- it neither subscribes nor cancels its subscription -/
def Stays (i : Nat) : Call α → Prop
  | .subscribe j | .cancelSubscription j => j ≠ i
  | _ => True

variable {size : Nat} {l l' : Log α} {i : Nat}

theorem values_read (l : Log α) (i c : Nat) : (l.read i c).entries.map Entry.value = l.entries.map Entry.value := by
  refine List.ext_getElem? fun m => ?_
  rw [List.getElem?_map, List.getElem?_map, Log.getElem?_read]
  split
  · rw [Option.map_map]
    rfl
  · rfl

theorem values_call {c : Call α} {b : Answer α} (h : logCall size l c = some (l', b)) :
    l'.entries.map Entry.value = l.entries.map Entry.value ++ published [c] [b] := by
  cases c with
  | publish v spurious =>
    rw [logCall] at h
    cases spurious with
    | true =>
      obtain ⟨rfl, rfl⟩ := Prod.mk.inj (Option.some.inj h)
      exact (List.append_nil _).symm
    | false =>
      obtain ⟨rfl, rfl⟩ := Prod.mk.inj (Option.some.inj h)
      exact List.map_append
  | create addr =>
    obtain ⟨rfl, rfl⟩ := Prod.mk.inj (Option.some.inj h)
    exact (List.append_nil _).symm
  | subscribe j =>
    obtain ⟨a, -, ha⟩ := Option.map_eq_some_iff.mp h
    obtain ⟨rfl, rfl⟩ := Prod.mk.inj ha
    exact (List.append_nil _).symm
  | receive j spurious =>
    obtain ⟨a, -, ha⟩ := Option.bind_eq_some_iff.mp h
    obtain ⟨c, -, hc⟩ := Option.bind_eq_some_iff.mp ha
    obtain ⟨e, -, he⟩ := Option.map_eq_some_iff.mp hc
    obtain ⟨rfl, rfl⟩ := Prod.mk.inj he
    refine Eq.trans ?_ (List.append_nil _).symm
    split
    · rfl
    · exact values_read l j c
  | cancelSubscription j =>
    obtain ⟨a, -, ha⟩ := Option.map_eq_some_iff.mp h
    obtain ⟨rfl, rfl⟩ := Prod.mk.inj ha
    exact (List.append_nil _).symm

theorem published_cons (c : Call α) (cs : List (Call α)) (b : Answer α) (bs : List (Answer α)) :
    published (c :: cs) (b :: bs) = published [c] [b] ++ published cs bs := by
  cases c <;> cases b <;> rfl

theorem published_append (cs cs' : List (Call α)) (bs bs' : List (Answer α)) (h : bs.length = cs.length) :
    published (cs ++ cs') (bs ++ bs') = published cs bs ++ published cs' bs' := by
  induction cs generalizing bs with
  | nil =>
    rw [List.length_eq_zero_iff.mp h]
    rfl
  | cons c cs ih =>
    cases bs with
    | nil => cases h
    | cons b bs =>
      rw [List.cons_append, List.cons_append, published_cons, published_cons c cs b bs,
        ih bs (Nat.succ.inj h), List.append_assoc]

theorem values_run (cs : List (Call α)) {l : Log α} {bs : List (Answer α)}
    (h : answers (logCall size) l cs = some (l', bs)) :
    l'.entries.map Entry.value = l.entries.map Entry.value ++ published cs bs := by
  induction cs generalizing l bs with
  | nil =>
    obtain ⟨rfl, rfl⟩ := Prod.mk.inj (Option.some.inj h)
    exact (List.append_nil _).symm
  | cons c cs ih =>
    obtain ⟨t, b, bs', ht, h', rfl⟩ := answers_cons.mp h
    rw [ih h', values_call ht, List.append_assoc, ← published_cons]

/-- one call takes a subscriber one message on if it is its own `receive`, and leaves it otherwise -/
theorem position_call {c : Call α} {b : Answer α} (h : logCall size l c = some (l', b)) (hc : Stays i c) {p : Nat}
    (hp : l.positions[i]? = some (some p)) : l'.positions[i]? = some (some (p + receives i [c])) := by
  have hi : i < l.positions.length := (List.getElem?_eq_some_iff.mp hp).1
  cases c with
  | publish v spurious =>
    rw [logCall] at h
    cases spurious <;> obtain ⟨rfl, rfl⟩ := Prod.mk.inj (Option.some.inj h) <;> exact hp
  | create addr =>
    obtain ⟨rfl, rfl⟩ := Prod.mk.inj (Option.some.inj h)
    exact (List.getElem?_append_left hi).trans hp
  | subscribe j =>
    obtain ⟨a, -, ha⟩ := Option.map_eq_some_iff.mp h
    obtain ⟨rfl, rfl⟩ := Prod.mk.inj ha
    exact (List.getElem?_set_ne hc).trans hp
  | receive j spurious =>
    obtain ⟨a, hpos, ha⟩ := Option.bind_eq_some_iff.mp h
    obtain ⟨c, rfl, hc⟩ := Option.bind_eq_some_iff.mp ha
    obtain ⟨e, -, he⟩ := Option.map_eq_some_iff.mp hc
    obtain ⟨rfl, rfl⟩ := Prod.mk.inj he
    have hset : (logReceive size l j c e).1.positions = l.positions.set j (some (c + 1)) := by
      unfold logReceive
      dsimp only
      split <;> rfl
    show (logReceive size l j c e).1.positions[i]? = some (some (p + (if j = i then 1 else 0)))
    rw [hset, List.getElem?_set]
    by_cases hij : j = i
    · subst j
      obtain rfl : c = p := Option.some.inj (Option.some.inj (hpos.symm.trans hp))
      rw [if_pos rfl, if_pos hi, if_pos rfl]
    · rw [if_neg hij, if_neg hij]
      exact hp
  | cancelSubscription j =>
    obtain ⟨a, -, ha⟩ := Option.map_eq_some_iff.mp h
    obtain ⟨rfl, rfl⟩ := Prod.mk.inj ha
    exact (List.getElem?_set_ne hc).trans hp

theorem receives_cons (c : Call α) (cs : List (Call α)) : receives i (c :: cs) = receives i [c] + receives i cs := by
  cases c <;> simp [receives]

theorem position_run (cs : List (Call α)) (hstays : ∀ c ∈ cs, Stays i c) {l : Log α} {bs : List (Answer α)}
    (h : answers (logCall size) l cs = some (l', bs)) {p : Nat} (hp : l.positions[i]? = some (some p)) :
    l'.positions[i]? = some (some (p + receives i cs)) := by
  induction cs generalizing l bs p with
  | nil =>
    obtain ⟨rfl, rfl⟩ := Prod.mk.inj (Option.some.inj h)
    exact hp
  | cons c cs ih =>
    obtain ⟨t, b, bs', ht, h', rfl⟩ := answers_cons.mp h
    have hpt := position_call ht (hstays c List.mem_cons_self) hp
    rw [receives_cons, ← Nat.add_assoc]
    exact ih (fun d hd => hstays d (List.mem_cons_of_mem _ hd)) h' hpt

/-- **A subscriber receives what is published from its `subscribe` on, in order, each message once.**  When `start`
messages were published before it subscribed, and it has called `receive` `k` times since, the next `receive`
is for message `start + k`: it waits for it, and it delivers it unless more than `size` messages have been published
from this one on, or their number looks like a publisher that is down. -/
theorem receives_in_order {sz addr sizeBytes : Nat} {m m' : Mapping (Message α)} {q : View} (hsz : 0 < sz)
    (hbytes : sizeBytes < 2^64) (h : initAt sz {} addr sizeBytes m = .ok (m', q)) (cs₁ cs₂ : List (Call α))
    (hstays : ∀ c ∈ cs₂, Stays i c)
    (hC : Obeys (logCall q.size) Proper Log.empty ((cs₁ ++ .subscribe i :: cs₂) ++ [.receive i false]))
    {s : State α} {bs : List (Answer α)}
    (hrun : answers call ⟨m', q, []⟩ (cs₁ ++ .subscribe i :: cs₂) = some (s, bs)) :
    (call s (.receive i false)).map Prod.snd =
      let values := published (cs₁ ++ .subscribe i :: cs₂) bs
      let next := (published cs₁ bs).length + receives i cs₂
      (values[next]?).map (expected q.size values.length next) := by
  obtain ⟨k, hk, hsize⟩ := initAt_size hsz hbytes h
  obtain ⟨hC₁, hC₂⟩ := obeys_append.mp hC
  -- the run of the log beside the run of the topic
  have hrel := (start_agrees h).answers hk hsize _ hC₁
  rw [hrun] at hrel
  obtain ⟨l, hl, hagree⟩ := SameAnswer.exists_of_rel hrel
  have hP : Proper l (.receive i false) := (hC₂ l bs hl).1
  rw [SameAnswer.map_snd (call_agrees hk hsize hagree hP)]
  -- what the log holds, and where the subscriber is
  have hvalues : l.entries.map Entry.value = published (cs₁ ++ .subscribe i :: cs₂) bs := values_run _ hl
  obtain ⟨l₁, bs₁, bs₂, hl₁, hl₂, rfl⟩ := answers_append.mp hl
  obtain ⟨t, b, bs, ht, hl', rfl⟩ := answers_cons.mp hl₂
  obtain ⟨a, ha, hat⟩ := Option.map_eq_some_iff.mp ht
  obtain ⟨rfl, -⟩ := Prod.mk.inj hat
  have hi : i < l₁.positions.length := (List.getElem?_eq_some_iff.mp ha).1
  have hposition := position_run cs₂ hstays hl'
    (show (l₁.positions.set i (some l₁.entries.length))[i]? = _ from List.getElem?_set_self hi)
  have hstart : published cs₁ (bs₁ ++ b :: bs) = l₁.entries.map Entry.value := by
    have happend := published_append cs₁ [] bs₁ (b :: bs) (length_answers hl₁)
    rw [List.append_nil] at happend
    rw [happend, values_run cs₁ hl₁]
    exact List.append_nil _
  rw [logCall, hposition, hstart, ← hvalues]
  dsimp only
  rw [Option.bind_some, Option.bind_some, List.length_map, List.length_map, List.getElem?_map, Option.map_map,
    Option.map_map]
  rfl

/-- a queue of one message: the first subscriber reads its first message in time and its second one too late -/
def twoReaders : List (Call Nat) :=
  [.create 4096, .create 8192, .subscribe 0, .publish 7 false, .subscribe 1, .receive 0 false, .publish 8 true,
    .publish 8 false, .receive 1 false, .publish 9 false, .receive 0 false, .receive 0 false]

theorem refines_log_example : ∃ m' q, initAt 64 ({} : Message Nat) 4096 320 ⟨{}, fun _ => {}⟩ = .ok (m', q) ∧
    (answers call ⟨m', q, []⟩ twoReaders).map Prod.snd = some [.success, .success, .success, .success, .success,
      .callback 7, .unknownError, .success, .callback 8, .success, .systemError 2, .callback 9] := by
  have h : initAt 64 ({} : Message Nat) 4096 320 ⟨{}, fun _ => {}⟩ = .ok _ := rfl
  refine ⟨_, _, h, ?_⟩
  rw [SameAnswer.map_snd (refines_log (by decide) (by decide) h twoReaders (by decide +kernel))]
  decide +kernel

theorem receives_in_order_example : ∃ m' q s, initAt 64 ({} : Message Nat) 4096 320 ⟨{}, fun _ => {}⟩ = .ok (m', q) ∧
    run (silent call) ⟨m', q, []⟩ (twoReaders.take 10) = some s ∧
    (call s (.receive 0 false)).map Prod.snd = some (.systemError 2) := by
  obtain ⟨m', q, h, hsize, hanswers⟩ : ∃ m' q,
      initAt 64 ({} : Message Nat) 4096 320 ⟨{}, fun _ => {}⟩ = .ok (m', q) ∧
      q.size = 1 ∧ (answers call ⟨m', q, []⟩ (twoReaders.take 2 ++ .subscribe 0 :: (twoReaders.take 10).drop 3)).map
        Prod.snd = some [.success, .success, .success, .success, .success, .callback 7, .unknownError, .success,
          .callback 8, .success] := ⟨_, _, rfl, by decide +kernel, by decide +kernel⟩
  obtain ⟨⟨s, bs⟩, hrun, rfl⟩ := Option.map_eq_some_iff.mp hanswers
  refine ⟨m', q, s, h, run_silent hrun, ?_⟩
  have hreceive := receives_in_order (i := 0) (by decide) (by decide) h _ _ (by simp [twoReaders, Stays])
    (by rw [hsize]; decide +kernel) hrun
  rw [hreceive, hsize]
  decide +kernel

end

end Calls
end Fifo
end Ipcpp
