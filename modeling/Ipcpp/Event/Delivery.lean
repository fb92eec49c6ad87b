import Ipcpp.Event.DomainSocket

/-!
# Notifications over domain sockets

`notify_observers` sends a notification, as its bytes, to every descriptor in `_observer_sockets`, one after the
other under the write lock of the set.  The same stream carries the reply to `subscribe`, one byte, which
`process_subscriptions` sends after it has given the lock back.  An observer reads with the sizes that it
expects: one byte for the reply, the size of a notification for each `receive`, and up to the size of an error in
`cancel_subscription`, which takes what it reads for the answer to its request.

`delivered_iff`: every observer reads its reply first and then the notifications that were sent to it, whole and
in order, as long as no notification is sent to an observer before its reply, and none is in the stream when
`cancel_subscription` reads; and not longer.

Connections are numbered as in the module on subscriptions.  A descriptor may be paused, resumed and closed at
any time at which the set is not locked; a stream has room for everything.
-/

namespace Ipcpp
namespace DomainSocket
open Runs

namespace Delivery

/-- `NotificationT`: the bytes of a notification, of which there is at least one; and those of a
`SubscriptionError` -/
structure Format (N : Type) where
  size : Nat
  encode : N → List UInt8
  pos : 0 < size
  length_encode : ∀ n, (encode n).length = size
  errorSize : Nat
  errorSize_pos : 0 < errorSize
  /-- whether `UNKNOWN` is `NO_ERROR` once these bytes have been read into it -/
  noError : List UInt8 → Bool

/-- one connection; `sent` (never read) are the notifications that `send` has taken for it -/
structure Connection (N : Type) where
  stream : List UInt8 := []
  /-- the observer has shut it down -/
  shut : Bool := false
  /-- what `subscribe` has read -/
  response : Option UInt8 := none
  /-- what `receive` has read, each time -/
  received : List (List UInt8) := []
  sent : List N := []

/-- `is_subscribed`: the reply was not `false` -/
def Connection.subscribed {N : Type} (x : Connection N) : Bool := x.response.any fun b => b ≠ 0

structure State (N : Type) where
  connection : Nat → Connection N
  /-- the number of the next connection -/
  fresh : Nat
  /-- connections that `accept` has not returned -/
  backlog : List Nat
  observerSockets : Finset Nat
  pausedObserverSockets : Finset Nat
  subscriptions : Subscriptions
  /-- the notification that is being sent, and the descriptors to come -/
  notifying : Option (N × List Nat)

inductive Action (N : Type) where
  /-- `subscribe` up to `recv` -/
  | subscribe
  /-- the `recv` of `subscribe` -/
  | reply (c : Nat)
  | receive (c : Nat)
  /-- the `recv` of `cancel_subscription` returns -/
  | cancelReply (c : Nat)
  /-- the observer shuts its socket down -/
  | hangUp (c : Nat)
  | processSubscriptions
  /-- `notify_observers` takes the lock; `order` is the one in which it goes through the set -/
  | notifyObservers (n : N) (order : List Nat)
  /-- it goes on -/
  | notify
  /-- `process_observer_requests` -/
  | pause (c : Nat)
  | resume (c : Nat)
  | close (c : Nat)

section
variable {N : Type} (F : Format N)

/-- `true`, as the one byte of a `bool` -/
def accepted : UInt8 := 1

def init : State N := ⟨fun _ => {}, 0, [], ∅, ∅, .accepting, none⟩

namespace State
variable (s : State N)

def setConnection (c : Nat) (x : Connection N) : State N :=
  { s with connection := Function.update s.connection c x }

def processSubscriptions : Option (State N) := match s.subscriptions with
  | .accepting => match s.backlog with
    | [] => some s
    | c :: rest => some { s with backlog := rest, subscriptions := .accepted c }
  | .accepted c =>
    if s.notifying.isSome then none
    else some { s with observerSockets := insert c s.observerSockets, subscriptions := .inserted c }
  | .inserted c =>
    let x := s.connection c
    let x := if x.shut then x else { x with stream := x.stream ++ [accepted] }
    some { s.setConnection c x with subscriptions := .accepting }

/-- one turn of the loop of `notify_observers` -/
def notify (n : N) (c : Nat) (todo : List Nat) : State N :=
  let x := s.connection c
  if x.shut then { s with observerSockets := s.observerSockets.erase c, notifying := some (n, todo) }
  else { s.setConnection c { x with stream := x.stream ++ F.encode n, sent := x.sent ++ [n] } with
    notifying := some (n, todo) }

def step : Action N → Option (State N)
  | .subscribe => some { s with fresh := s.fresh + 1, backlog := s.backlog ++ [s.fresh] }
  | .reply c =>
    let x := s.connection c
    match x.stream, x.response with
    | b :: rest, none => some (s.setConnection c { x with stream := rest, response := some b })
    | _, _ => none
  | .receive c =>
    let x := s.connection c
    if x.stream ≠ [] ∧ x.subscribed then
      some (s.setConnection c { x with
        stream := x.stream.drop F.size
        received := x.received ++ [x.stream.take F.size] })
    else none
  | .cancelReply c =>
    let x := s.connection c
    if x.subscribed ∧ x.shut = false then
      if x.stream = [] then some s
      else some (s.setConnection c { x with
        stream := x.stream.drop F.errorSize
        shut := F.noError (x.stream.take F.errorSize) })
    else none
  | .hangUp c => if c < s.fresh then some (s.setConnection c { s.connection c with shut := true }) else none
  | .processSubscriptions => s.processSubscriptions
  | .notifyObservers n order =>
    if s.notifying = none ∧ order.Nodup ∧ order.toFinset = s.observerSockets then
      some { s with notifying := some (n, order) }
    else none
  | .notify => match s.notifying with
    | some (n, c :: todo) => some (s.notify F n c todo)
    | some (_, []) => some { s with notifying := none }
    | none => none
  | .pause c =>
    if s.notifying = none ∧ c ∈ s.observerSockets then
      some { s with
        observerSockets := s.observerSockets.erase c
        pausedObserverSockets := insert c s.pausedObserverSockets }
    else none
  | .resume c =>
    if s.notifying = none ∧ c ∈ s.pausedObserverSockets then
      some { s with
        observerSockets := insert c s.observerSockets
        pausedObserverSockets := s.pausedObserverSockets.erase c }
    else none
  | .close c =>
    if s.notifying = none then
      some { s with
        observerSockets := s.observerSockets.erase c
        pausedObserverSockets := s.pausedObserverSockets.erase c }
    else none

/-- no notification is sent before the reply, and `cancel_subscription` finds none -/
def Undisturbed : Action N → Prop
  | .notify => ∀ n c todo, s.notifying = some (n, c :: todo) → (s.connection c).shut = false →
      ∀ c', s.subscriptions = .inserted c' → c ≠ c'
  | .cancelReply c => (s.connection c).stream = []
  | _ => True

end State

/-- the observer has read the beginning of what was sent to it, and the rest is in the stream -/
def Connection.Faithful (x : Connection N) : Prop :=
  match x.response with
  | none => x.received = [] ∧
      (x.stream = [] ∧ x.sent = [] ∨ x.stream = accepted :: (x.sent.map F.encode).flatten)
  | some b => b = accepted ∧ ∃ rest, x.sent.map F.encode = x.received ++ rest ∧ x.stream = rest.flatten

def State.Faithful (s : State N) : Prop := ∀ c, (s.connection c).Faithful F

/-! ## the invariant -/

/-- the connection that `process_subscriptions` is at -/
def State.current (s : State N) : Option Nat := match s.subscriptions with
  | .accepting => none
  | .accepted c | .inserted c => some c

/-- nothing was sent yet -/
structure Connection.Pristine (x : Connection N) : Prop where
  stream : x.stream = []
  sent : x.sent = []
  received : x.received = []
  response : x.response = none

/-- the reply was sent, or cannot be sent -/
def Connection.Ready (x : Connection N) : Prop := x.shut = true ∨ x.response ≠ none ∨ x.stream ≠ []

/-- the descriptors in the sets, and those that `notify_observers` has still to come to -/
def State.Member (s : State N) (c : Nat) : Prop :=
  c ∈ s.observerSockets ∨ c ∈ s.pausedObserverSockets ∨ ∃ n todo, s.notifying = some (n, todo) ∧ c ∈ todo

structure Inv (s : State N) : Prop where
  nodup : s.backlog.Nodup
  backlog : ∀ c ∈ s.backlog, c < s.fresh ∧ s.current ≠ some c
  current : ∀ c, s.current = some c → c < s.fresh
  pristine : ∀ c, s.fresh ≤ c ∨ c ∈ s.backlog ∨ s.current = some c → (s.connection c).Pristine
  member : ∀ c, s.Member c → s.subscriptions = .inserted c ∨ (s.connection c).Ready
  faithful : s.Faithful F

variable {F} {s t : State N} {c : Nat} {x : Connection N}

theorem init_inv : Inv F (init : State N) where
  nodup := .nil
  backlog := nofun
  current := nofun
  pristine _ _ := ⟨rfl, rfl, rfl, rfl⟩
  member c hc := by
    rcases hc with hc | hc | ⟨n, todo, h, -⟩
    · cases hc
    · cases hc
    · cases h
  faithful _ := ⟨rfl, .inl ⟨rfl, rfl⟩⟩

theorem Connection.Pristine.not_ready (h : x.Pristine) (hshut : x.shut = false) : ¬ x.Ready := by
  rintro (hr | hr | hr)
  · rw [hshut] at hr
    cases hr
  · exact hr h.response
  · exact hr h.stream

theorem Inv.of_sets {O P : Finset Nat} {notifying : Option (N × List Nat)} (h : Inv F s)
    (hmember : ∀ c,
      State.Member { s with observerSockets := O, pausedObserverSockets := P, notifying := notifying } c → s.Member c) :
    Inv F { s with observerSockets := O, pausedObserverSockets := P, notifying := notifying } where
  nodup := h.nodup
  backlog := h.backlog
  current := h.current
  pristine := h.pristine
  member c hc := h.member c (hmember c hc)
  faithful := h.faithful

/-- a step that changes one connection, to which the notifier has replied, or which stays as it is for the others -/
theorem Inv.setConnection (h : Inv F s) (hpristine : (s.connection c).Pristine → x.Pristine)
    (hready : (s.connection c).Ready → x.Ready) (hfaithful : x.Faithful F) : Inv F (s.setConnection c x) where
  nodup := h.nodup
  backlog := h.backlog
  current := h.current
  pristine c' hc' := by
    have hold := h.pristine c' hc'
    unfold State.setConnection
    dsimp only
    by_cases hcc : c' = c
    · subst hcc
      rw [Function.update_self]
      exact hpristine hold
    · rw [Function.update_of_ne hcc]
      exact hold
  member c' hc' := by
    have hold := h.member c' hc'
    unfold State.setConnection
    dsimp only
    by_cases hcc : c' = c
    · subst hcc
      rw [Function.update_self]
      exact hold.imp id hready
    · rw [Function.update_of_ne hcc]
      exact hold
  faithful c' := by
    unfold State.setConnection
    dsimp only
    by_cases hcc : c' = c
    · subst hcc
      rw [Function.update_self]
      exact hfaithful
    · rw [Function.update_of_ne hcc]
      exact h.faithful c'

/-! ## one step -/

theorem Inv.subscribe (h : Inv F s) : Inv F { s with fresh := s.fresh + 1, backlog := s.backlog ++ [s.fresh] } where
  nodup := by
    refine List.nodup_append.mpr ⟨h.nodup, List.nodup_singleton _, fun c hc c' hc' => ?_⟩
    rw [List.mem_singleton.mp hc']
    exact (h.backlog c hc).1.ne
  backlog c hc := by
    rcases List.mem_append.mp hc with hc | hc
    · exact ⟨Nat.lt_succ_of_lt (h.backlog c hc).1, (h.backlog c hc).2⟩
    · obtain rfl := List.mem_singleton.mp hc
      exact ⟨Nat.lt_succ_self _, fun hcurrent => lt_irrefl _ (h.current _ hcurrent)⟩
  current c hc := Nat.lt_succ_of_lt (h.current c hc)
  pristine c hc := by
    refine h.pristine c ?_
    rcases hc with hc | hc | hc
    · exact .inl (Nat.le_of_succ_le hc)
    · rcases List.mem_append.mp hc with hc | hc
      · exact .inr (.inl hc)
      · exact .inl (List.mem_singleton.mp hc).ge
    · exact .inr (.inr hc)
  member := h.member
  faithful := h.faithful

theorem Inv.reply (h : Inv F s) {b : UInt8} {rest : List UInt8} (hstream : (s.connection c).stream = b :: rest)
    (hresponse : (s.connection c).response = none) :
    Inv F (s.setConnection c { s.connection c with stream := rest, response := some b }) := by
  refine h.setConnection (fun hp => ?_) (fun _ => .inr (.inl nofun)) ?_
  · rw [hp.stream] at hstream
    cases hstream
  · have hfaithful := h.faithful c
    unfold Connection.Faithful at hfaithful
    rw [hresponse] at hfaithful
    obtain ⟨hreceived, ⟨hnil, -⟩ | hcons⟩ := hfaithful
    · rw [hstream] at hnil
      cases hnil
    · rw [hstream] at hcons
      obtain ⟨rfl, rfl⟩ := List.cons.inj hcons
      exact ⟨rfl, _, by rw [hreceived]; rfl, rfl⟩

theorem Connection.response_of_subscribed (h : x.subscribed = true) : x.response ≠ none := by
  intro hnone
  unfold Connection.subscribed at h
  rw [hnone] at h
  cases h

theorem Inv.receive (h : Inv F s) (hstream : (s.connection c).stream ≠ [])
    (hsubscribed : (s.connection c).subscribed = true) :
    Inv F (s.setConnection c { s.connection c with
      stream := (s.connection c).stream.drop F.size
      received := (s.connection c).received ++ [(s.connection c).stream.take F.size] }) := by
  obtain ⟨b, hresponse⟩ := Option.ne_none_iff_exists'.mp (Connection.response_of_subscribed hsubscribed)
  refine h.setConnection (fun hp => (hstream hp.stream).elim)
    (fun _ => .inr (.inl fun hnone => by rw [hresponse] at hnone; cases hnone)) ?_
  have hfaithful := h.faithful c
  unfold Connection.Faithful at hfaithful ⊢
  dsimp only
  rw [hresponse] at hfaithful ⊢
  obtain ⟨haccepted, rest, hsent, hrest⟩ := hfaithful
  cases rest with
  | nil => exact (hstream hrest).elim
  | cons e rest =>
    have hlength : e.length = F.size := by
      have hmem : e ∈ (s.connection c).sent.map F.encode := hsent ▸ List.mem_append_right _ List.mem_cons_self
      obtain ⟨n, -, rfl⟩ := List.mem_map.mp hmem
      exact F.length_encode n
    rw [hrest, List.flatten_cons, List.take_left' hlength, List.drop_left' hlength]
    exact ⟨haccepted, rest, by rw [hsent, List.append_assoc]; rfl, rfl⟩

theorem Inv.processSubscriptions (h : Inv F s) (ht : s.processSubscriptions = some t) : Inv F t := by
  unfold State.processSubscriptions at ht
  have hcurrent := h.current
  have hpristine := h.pristine
  have hbacklog := h.backlog
  unfold State.current at hcurrent hpristine hbacklog
  cases hsub : s.subscriptions with
  | accepting =>
    rw [hsub] at ht
    dsimp only at ht
    cases hb : s.backlog with
    | nil =>
      rw [hb] at ht
      exact Option.some.inj ht ▸ h
    | cons c rest =>
      rw [hb] at ht
      rw [← Option.some.inj ht]
      have hnodup := h.nodup
      rw [hb] at hnodup hbacklog hpristine
      refine ⟨(List.nodup_cons.mp hnodup).2, fun c' hc' => ?_, fun c' hc' => ?_, fun c' hc' => ?_, fun c' hc' => ?_,
        h.faithful⟩
      · refine ⟨(hbacklog c' (List.mem_cons_of_mem _ hc')).1, fun heq => ?_⟩
        exact (List.nodup_cons.mp hnodup).1 (Option.some.inj heq ▸ hc')
      · exact Option.some.inj hc' ▸ (hbacklog c List.mem_cons_self).1
      · rcases hc' with hc' | hc' | hc'
        · exact hpristine c' (.inl hc')
        · exact hpristine c' (.inr (.inl (List.mem_cons_of_mem _ hc')))
        · exact hpristine c' (.inr (.inl (Option.some.inj hc' ▸ List.mem_cons_self)))
      · rcases h.member c' hc' with hinserted | hready
        · rw [hsub] at hinserted
          cases hinserted
        · exact .inr hready
  | accepted c =>
    rw [hsub] at ht
    dsimp only at ht
    split at ht
    · cases ht
    · rw [← Option.some.inj ht]
      rw [hsub] at hcurrent hpristine hbacklog
      refine ⟨h.nodup, hbacklog, hcurrent, hpristine, fun c' hc' => ?_, h.faithful⟩
      by_cases hcc : c' = c
      · exact .inl (congrArg _ hcc.symm)
      · have hc' : s.Member c' := hc'.imp (fun hc' => (Finset.mem_insert.mp hc').resolve_left hcc) id
        rcases h.member c' hc' with hinserted | hready
        · rw [hsub] at hinserted
          cases hinserted
        · exact .inr hready
  | inserted c =>
    rw [hsub] at ht
    rw [← Option.some.inj ht]
    rw [hsub] at hcurrent hpristine hbacklog
    have hp := hpristine c (.inr (.inr rfl))
    have hx : ∀ c', c' ≠ c → (Function.update s.connection c (if (s.connection c).shut then s.connection c
        else { s.connection c with stream := (s.connection c).stream ++ [accepted] })) c' = s.connection c' :=
      fun c' hcc => Function.update_of_ne hcc _ _
    refine ⟨h.nodup, fun c' hc' => ⟨(hbacklog c' hc').1, nofun⟩, nofun, fun c' hc' => ?_, fun c' hc' => .inr ?_,
      fun c' => ?_⟩
    · have hcc : c' ≠ c := fun hcc => by
        subst hcc
        rcases hc' with hc' | hc' | hc'
        · exact absurd (hcurrent c' rfl) (not_lt.mpr hc')
        · exact (hbacklog c' hc').2 rfl
        · cases hc'
      show Connection.Pristine (Function.update s.connection c _ c')
      rw [hx c' hcc]
      refine hpristine c' ?_
      rcases hc' with hc' | hc' | hc'
      · exact .inl hc'
      · exact .inr (.inl hc')
      · cases hc'
    · show Connection.Ready (Function.update s.connection c _ c')
      by_cases hcc : c' = c
      · subst hcc
        rw [Function.update_self]
        split
        · exact .inl ‹_›
        · exact .inr (.inr (List.append_ne_nil_of_right_ne_nil _ (List.cons_ne_nil _ _)))
      · rw [hx c' hcc]
        rcases h.member c' hc' with hinserted | hready
        · rw [hsub] at hinserted
          exact (hcc (Subscriptions.inserted.inj hinserted).symm).elim
        · exact hready
    · show Connection.Faithful F (Function.update s.connection c _ c')
      by_cases hcc : c' = c
      · subst hcc
        rw [Function.update_self]
        split
        · exact h.faithful c'
        · unfold Connection.Faithful
          dsimp only
          rw [hp.response]
          exact ⟨hp.received, .inr (by rw [hp.stream, hp.sent]; rfl)⟩
      · rw [hx c' hcc]
        exact h.faithful c'

theorem Inv.notify (h : Inv F s) {n : N} {todo : List Nat} (hnotifying : s.notifying = some (n, c :: todo))
    (hreplied : (s.connection c).shut = false → s.subscriptions ≠ .inserted c) : Inv F (s.notify F n c todo) := by
  have hsets : ∀ {s : State N}, Inv F s → s.notifying = some (n, c :: todo) → ∀ O ⊆ s.observerSockets,
      Inv F { s with observerSockets := O, notifying := some (n, todo) } := fun {s} h hn O hO => by
    refine h.of_sets fun c' hc' => ?_
    rcases hc' with hc' | hc' | ⟨n', todo', hn', hc'⟩
    · exact .inl (hO hc')
    · exact .inr (.inl hc')
    · obtain ⟨rfl, rfl⟩ := Prod.mk.inj (Option.some.inj hn')
      exact .inr (.inr ⟨n, _, hn, List.mem_cons_of_mem _ hc'⟩)
  unfold State.notify
  dsimp only
  split
  · exact hsets h hnotifying _ (Finset.erase_subset _ _)
  · rename_i hshut
    have hshut := Bool.eq_false_iff.mpr hshut
    have hready : (s.connection c).Ready :=
      (h.member c (.inr (.inr ⟨n, _, hnotifying, List.mem_cons_self⟩))).resolve_left (hreplied hshut)
    refine hsets (h.setConnection (fun hp => (hp.not_ready hshut hready).elim) (fun _ => ?_) ?_) hnotifying _
      subset_rfl
    · exact hready.imp id fun hready => hready.imp id fun hne => List.append_ne_nil_of_left_ne_nil hne _
    · have hfaithful := h.faithful c
      unfold Connection.Faithful at hfaithful ⊢
      dsimp only
      rw [List.map_append, List.flatten_append]
      cases hresponse : (s.connection c).response with
      | none =>
        rw [hresponse] at hfaithful
        obtain ⟨hreceived, ⟨hnil, -⟩ | hcons⟩ := hfaithful
        · rcases hready with hr | hr | hr
          · rw [hshut] at hr
            cases hr
          · exact (hr hresponse).elim
          · exact (hr hnil).elim
        · refine ⟨hreceived, .inr ?_⟩
          rw [hcons, List.map_singleton, List.flatten_singleton]
          rfl
      | some b =>
        rw [hresponse] at hfaithful
        obtain ⟨haccepted, rest, hsent, hrest⟩ := hfaithful
        refine ⟨haccepted, rest ++ [F.encode n], ?_, ?_⟩
        · rw [hsent, List.append_assoc]
          rfl
        · rw [hrest, List.flatten_append, List.flatten_singleton]

/-- **One step** that sends nothing before the reply, and loses nothing, keeps the invariant. -/
theorem Inv.step {a : Action N} (h : Inv F s) (hC : s.Undisturbed a) (ht : s.step F a = some t) : Inv F t := by
  cases a with
  | subscribe => exact Option.some.inj ht ▸ h.subscribe
  | reply c =>
    simp only [State.step] at ht
    split at ht
    · rename_i hstream hresponse
      exact Option.some.inj ht ▸ h.reply hstream hresponse
    · cases ht
  | receive c =>
    simp only [State.step] at ht
    split at ht
    · rename_i hread
      exact Option.some.inj ht ▸ h.receive hread.1 hread.2
    · cases ht
  | cancelReply c =>
    have hstream : (s.connection c).stream = [] := hC
    simp only [State.step, if_pos hstream] at ht
    split at ht
    · exact Option.some.inj ht ▸ h
    · cases ht
  | hangUp c =>
    simp only [State.step] at ht
    split at ht
    · rw [← Option.some.inj ht]
      exact h.setConnection (fun hp => ⟨hp.stream, hp.sent, hp.received, hp.response⟩) (fun _ => .inl rfl)
        (h.faithful c)
    · cases ht
  | processSubscriptions => exact h.processSubscriptions ht
  | notifyObservers n order =>
    simp only [State.step] at ht
    split at ht
    · rename_i hstart
      rw [← Option.some.inj ht]
      refine h.of_sets fun c hc => ?_
      rcases hc with hc | hc | ⟨n', todo', hn', hc⟩
      · exact .inl hc
      · exact .inr (.inl hc)
      · obtain ⟨rfl, rfl⟩ := Prod.mk.inj (Option.some.inj hn')
        exact .inl (hstart.2.2 ▸ List.mem_toFinset.mpr hc)
    · cases ht
  | notify =>
    simp only [State.step] at ht
    split at ht
    · rename_i n c todo hnotifying
      exact Option.some.inj ht ▸ h.notify hnotifying fun hshut hinserted =>
        hC n c todo hnotifying hshut c hinserted rfl
    · rw [← Option.some.inj ht]
      refine h.of_sets fun c hc => hc.imp id fun hc => hc.imp id ?_
      rintro ⟨n', todo', hn', -⟩
      cases hn'
    · cases ht
  | pause c =>
    simp only [State.step] at ht
    split at ht
    · rename_i hmove
      rw [← Option.some.inj ht]
      refine h.of_sets fun c' hc' => ?_
      rcases hc' with hc' | hc' | hc'
      · exact .inl (Finset.mem_of_mem_erase hc')
      · rcases Finset.mem_insert.mp hc' with rfl | hc'
        · exact .inl hmove.2
        · exact .inr (.inl hc')
      · exact .inr (.inr hc')
    · cases ht
  | resume c =>
    simp only [State.step] at ht
    split at ht
    · rename_i hmove
      rw [← Option.some.inj ht]
      refine h.of_sets fun c' hc' => ?_
      rcases hc' with hc' | hc' | hc'
      · rcases Finset.mem_insert.mp hc' with rfl | hc'
        · exact .inr (.inl hmove.2)
        · exact .inl hc'
      · exact .inr (.inl (Finset.mem_of_mem_erase hc'))
      · exact .inr (.inr hc')
    · cases ht
  | close c =>
    simp only [State.step] at ht
    split at ht
    · rw [← Option.some.inj ht]
      refine h.of_sets fun c' hc' => ?_
      exact hc'.imp Finset.mem_of_mem_erase fun hc' => hc'.imp Finset.mem_of_mem_erase id
    · cases ht

theorem Connection.Faithful.not_drop (h : x.Faithful F) (hresponse : x.response ≠ none) (hstream : x.stream ≠ [])
    {k : Nat} (hk : 0 < k) {shut : Bool} :
    ¬ Connection.Faithful F { x with stream := x.stream.drop k, shut := shut } := by
  obtain ⟨b, hb⟩ := Option.ne_none_iff_exists'.mp hresponse
  intro h'
  unfold Connection.Faithful at h h'
  dsimp only at h'
  rw [hb] at h h'
  obtain ⟨-, rest, hsent, hrest⟩ := h
  obtain ⟨-, rest', hsent', hrest'⟩ := h'
  obtain rfl : rest = rest' := List.append_cancel_left (hsent.symm.trans hsent')
  have hlength : (x.stream.drop k).length = x.stream.length := congrArg List.length (hrest'.trans hrest.symm)
  have hpos := List.length_pos_iff.mpr hstream
  rw [List.length_drop] at hlength
  omega

/-- a notification that is sent before the reply is read in its place, and one that `cancel_subscription` reads is
lost -/
theorem Inv.undisturbed {a : Action N} (h : Inv F s) (hP : t.Faithful F) (ht : s.step F a = some t) :
    s.Undisturbed a := by
  cases a with
  | cancelReply c =>
    by_contra hstream
    have hstream : (s.connection c).stream ≠ [] := hstream
    simp only [State.step, if_neg hstream] at ht
    split at ht
    · rename_i hread
      have hfaithful := hP c
      rw [← Option.some.inj ht] at hfaithful
      unfold State.setConnection at hfaithful
      dsimp only at hfaithful
      rw [Function.update_self] at hfaithful
      exact (h.faithful c).not_drop (Connection.response_of_subscribed hread.1) hstream F.errorSize_pos hfaithful
    · cases ht
  | notify =>
    intro n c todo hnotifying hshut c' hinserted hcc
    subst hcc
    have ht : (match s.notifying with
      | some (n, c :: todo) => some (s.notify F n c todo)
      | some (_, []) => some { s with notifying := none }
      | none => none) = some t := ht
    rw [hnotifying] at ht
    have hp := h.pristine c (.inr (.inr (by unfold State.current; rw [hinserted])))
    have hfaithful := hP c
    rw [← Option.some.inj ht] at hfaithful
    unfold State.notify State.setConnection Connection.Faithful at hfaithful
    simp only [hshut, Bool.false_eq_true, if_false, Function.update_self] at hfaithful
    rw [hp.response, hp.sent, hp.stream] at hfaithful
    obtain ⟨-, ⟨-, hnil⟩ | hcons⟩ := hfaithful
    · cases hnil
    · have hlength := congrArg List.length hcons
      simp only [List.nil_append, List.map_cons, List.map_nil, List.flatten_cons, List.flatten_nil, List.append_nil,
        List.length_cons, F.length_encode] at hlength
      omega
  | _ => trivial


end

/-- **What observers read.**  In every state of a run each observer has read `true` first, if anything, and then
a beginning of the notifications that were sent to it, each as it was sent, and the others are in its stream:
exactly if no notification of the run is sent to an observer before the reply to `subscribe`, and none is in the
stream when `cancel_subscription` reads from it. -/
theorem delivered_iff {N : Type} (F : Format N) (as : List (Action N)) :
    Always (State.step F) (State.Faithful F) init as ↔ Every (State.step F) State.Undisturbed init as :=
  always_iff_every_of (Q := Inv F) (fun _ h => h.faithful) (fun _ _ _ h hC ht => h.step hC ht)
    (fun _ _ _ h hP ht => h.undisturbed hP ht) as init_inv

/-- notifications of two bytes -/
def twoBytes : Format (UInt8 × UInt8) :=
  ⟨2, fun n => [n.1, n.2], Nat.two_pos, fun _ => rfl, 1, Nat.one_pos, fun bytes => bytes == [0]⟩

/-- the notifier inserts the descriptor, and another thread sends a notification before the reply: `subscribe` reads
its first byte, and `receive` the second one and the reply -/
example : (run (State.step twoBytes) init [.subscribe, .processSubscriptions, .processSubscriptions,
    .notifyObservers (7, 8) [0], .notify, .processSubscriptions, .reply 0, .receive 0]).map
      (fun s => ((s.connection 0).response, (s.connection 0).received)) = some (some 7, [[8, 1]]) := by decide

/-- `cancel_subscription` reads a byte of the first notification, which is no `NO_ERROR`; the next `receive` gets the
other one and a byte of the second notification -/
example : (run (State.step twoBytes) init [.subscribe, .processSubscriptions, .processSubscriptions,
    .processSubscriptions, .reply 0, .notifyObservers (7, 8) [0], .notify, .notify, .notifyObservers (9, 9) [0],
    .notify, .cancelReply 0, .receive 0]).map (fun s => (s.connection 0).received) = some [[8, 9]] := by decide

end Delivery

end DomainSocket
end Ipcpp
