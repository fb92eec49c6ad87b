import Ipcpp.Lib.Runs

/-!
# Subscriptions over domain sockets

Any number of `DomainSocketObserver`s and one `DomainSocketNotifier`, each observer in a thread of its own, the
notifier with a thread for `process_subscriptions` and one for `process_observer_requests`.  A step is what one
thread does up to its next system call.

A connection is a pair of byte streams, which lose and reorder nothing; a request or a reply is one unit of it,
since each end reads with the size the other one writes with.  Connections are numbered as they are set up: the
number stands for the descriptors of both ends.  A socket that is not connected counts as none.

Notifications are not sent here, and a call of `recv` or `send` fails only if the other end is gone.
-/

namespace Ipcpp
namespace DomainSocket
open Runs

inductive ObserverRequest where
  | subscribe
  | cancelSubscription
  | pauseSubscription
  | resumeSubscription
deriving DecidableEq

inductive SubscriptionError where
  | noError
  | unknown
  | observerSetupFailed
  | notifierUnreachable
  | observerNotSubscribed
deriving DecidableEq

/-- what is on its way in a connection, and what its ends have done to it -/
structure Connection where
  toNotifier : List ObserverRequest := []
  toObserver : List Bool := []
  /-- the observer has shut it down -/
  shut : Bool := false
  /-- the notifier has closed it -/
  closed : Bool := false
  /-- the notifier has closed it because it was asked to -/
  cancelled : Bool := false

/-- the call that waits for the notifier in `recv` -/
inductive Call where
  | idle
  | subscribing
  | cancelling
deriving DecidableEq

/-- a `DomainSocketObserver`, and what its last call has returned -/
structure Observer where
  socket : Option Nat := none
  subscribed : Bool := false
  subscriptionPaused : Bool := false
  call : Call := .idle
  returned : Except SubscriptionError Unit := .ok ()

/-- where `process_subscriptions` is: before `accept`, before it inserts the descriptor, before it replies -/
inductive Subscriptions where
  | accepting
  | accepted (c : Nat)
  | inserted (c : Nat)

/-- where `process_observer_requests` is: asleep, or in one of the loops with the descriptors to come; the loop
over a set has its write lock -/
inductive Requests where
  | sleeping
  | observers (todo : List Nat)
  | paused (todo : List Nat)

def Requests.current : Requests → Option Nat
  | .sleeping => none
  | .observers todo => todo.head?
  | .paused todo => todo.head?

structure State where
  connection : Nat → Connection
  /-- the number of the next connection -/
  fresh : Nat
  observer : Nat → Observer
  /-- connections that `accept` has not returned -/
  backlog : List Nat
  observerSockets : Finset Nat
  pausedObserverSockets : Finset Nat
  subscriptions : Subscriptions
  requests : Requests
  /-- what `cancel_subscription` has returned where the notifier had closed the connection for it -/
  cancelResults : List (Except SubscriptionError Unit)

namespace State

def init : State := ⟨fun _ => {}, 0, fun _ => {}, [], ∅, ∅, .accepting, .sleeping, []⟩

section
variable (s : State)

def setConnection (c : Nat) (x : Connection) : State :=
  { s with connection := Function.update s.connection c x }

def setObserver (o : Nat) (x : Observer) : State := { s with observer := Function.update s.observer o x }

/-- the call of observer `o`, which it leaves as `x`, returns `r` -/
def finish (o : Nat) (x : Observer) (r : Except SubscriptionError Unit) : State :=
  s.setObserver o { x with call := .idle, returned := r }

/-! ## the observer -/

/-- `shutdown` and `close` of the observer's socket -/
def hangUp : Option Nat → State
  | none => s
  | some c => s.setConnection c { s.connection c with shut := true }

/-- `send`, if it does not fail -/
def send (r : ObserverRequest) : Option Nat → Option State
  | none => none
  | some c =>
    if (s.connection c).closed then none
    else some (s.setConnection c { s.connection c with toNotifier := (s.connection c).toNotifier ++ [r] })

/-- `subscribe()` up to `recv`; `connected` is whether `_m_setup_socket` succeeds -/
def subscribe (o : Nat) (connected : Bool) : State :=
  let x := s.observer o
  let s := if x.subscriptionPaused then s.hangUp x.socket else s
  if connected then
    { s.setObserver o { x with socket := some s.fresh, call := .subscribing } with
      fresh := s.fresh + 1
      backlog := s.backlog ++ [s.fresh] }
  else s.finish o { x with socket := none } (.error .observerSetupFailed)

/-- the rest of `subscribe()`; at the end of the stream `recv` reads nothing, and `response` is what it was -/
def subscribeReply (o c : Nat) (uninitialised : Bool) : State :=
  let x := s.observer o
  let y := s.connection c
  let s := s.setConnection c { y with toObserver := y.toObserver.tail }
  if y.toObserver.headD uninitialised then s.finish o { x with subscribed := true } (.ok ())
  else s.finish o x (.error .unknown)

/-- `cancel_subscription()` up to `recv` -/
def cancelSubscription (o : Nat) : State :=
  let x := s.observer o
  if x.subscribed = false then s.finish o x (.error .observerNotSubscribed)
  else if x.subscriptionPaused then (s.hangUp x.socket).finish o { x with socket := none } (.ok ())
  else match s.send .cancelSubscription x.socket with
    | none => s.finish o x (.error .notifierUnreachable)
    | some s => s.setObserver o { x with call := .cancelling }

/-- the rest of `cancel_subscription()`; `isNoError` is what the bytes of a reply would say, and at the end of
the stream the response stays `UNKNOWN` -/
def cancelReply (o c : Nat) (isNoError : Bool) : State :=
  let x := s.observer o
  let y := s.connection c
  let response : SubscriptionError := if y.toObserver ≠ [] ∧ isNoError then .noError else .unknown
  let result : Except SubscriptionError Unit := if response = .noError then .ok () else .error response
  let s := s.setConnection c { y with toObserver := [] }
  let s := if y.cancelled then { s with cancelResults := result :: s.cancelResults } else s
  if response = .noError then (s.hangUp (some c)).finish o { x with socket := none } result
  else s.finish o x result

/-- what `pause_subscription()` and `resume_subscription()` have in common -/
def request (r : ObserverRequest) (o : Nat) : State :=
  let x := s.observer o
  if x.subscribed = false then s.finish o x (.error .observerNotSubscribed)
  else if x.subscriptionPaused then s.finish o x (.ok ())
  else match s.send r x.socket with
    | none => s.finish o x (.error .notifierUnreachable)
    | some s => s.finish o x (.ok ())

def pauseSubscription (o : Nat) : State := s.request .pauseSubscription o

def resumeSubscription (o : Nat) : State := s.request .resumeSubscription o

/-- `recv` of the call that waits; it blocks while the stream is empty and open -/
def receive (o : Nat) (garbage : Bool) : Option State :=
  (s.observer o).socket.bind fun c =>
    if (s.connection c).toObserver = [] ∧ (s.connection c).closed = false then none
    else match (s.observer o).call with
      | .idle => none
      | .subscribing => some (s.subscribeReply o c garbage)
      | .cancelling => some (s.cancelReply o c garbage)

/-! ## the notifier -/

/-- whether the loop over `_observer_sockets` has its lock -/
def locked : Bool := match s.requests with
  | .observers _ => true
  | _ => false

def processSubscriptions : Option State := match s.subscriptions with
  | .accepting => match s.backlog with
    | [] => some s  -- `accept` times out
    | c :: rest => some { s with backlog := rest, subscriptions := .accepted c }
  | .accepted c =>
    if s.locked then none
    else some { s with observerSockets := insert c s.observerSockets, subscriptions := .inserted c }
  | .inserted c =>
    let y := s.connection c
    let y := if y.closed then y else { y with toObserver := y.toObserver ++ [true] }
    some { s.setConnection c y with subscriptions := .accepting }

/-- one turn of the loop over `_observer_sockets`, at descriptor `c` -/
def observerRequest (c : Nat) (todo : List Nat) : State :=
  let y := s.connection c
  match y.toNotifier with
  | .subscribe :: rest => s.setConnection c { y with toNotifier := rest }
  | .cancelSubscription :: rest =>
    { s.setConnection c { y with toNotifier := rest, closed := true, cancelled := true } with
      observerSockets := s.observerSockets.erase c
      requests := .observers todo }
  | .pauseSubscription :: rest =>
    { s.setConnection c { y with toNotifier := rest } with
      pausedObserverSockets := insert c s.pausedObserverSockets
      observerSockets := s.observerSockets.erase c
      requests := .observers todo }
  | .resumeSubscription :: rest => s.setConnection c { y with toNotifier := rest }
  | [] =>
    if y.shut then
      { s.setConnection c { y with closed := true } with
        observerSockets := s.observerSockets.erase c
        requests := .observers todo }
    else { s with requests := .observers todo }

/-- one turn of the loop over `_paused_observer_sockets`, at descriptor `c` -/
def pausedRequest (c : Nat) (todo : List Nat) : State :=
  let y := s.connection c
  match y.toNotifier with
  | .subscribe :: rest => s.setConnection c { y with toNotifier := rest }
  | .cancelSubscription :: rest =>
    { s.setConnection c { y with toNotifier := rest, closed := true, cancelled := true } with
      pausedObserverSockets := s.pausedObserverSockets.erase c
      requests := .paused todo }
  | .pauseSubscription :: rest => s.setConnection c { y with toNotifier := rest }
  | .resumeSubscription :: rest =>
    { s.setConnection c { y with toNotifier := rest } with
      observerSockets := insert c s.observerSockets
      pausedObserverSockets := s.pausedObserverSockets.erase c
      requests := .paused todo }
  | [] =>
    if y.shut then
      { s.setConnection c { y with closed := true } with
        pausedObserverSockets := s.pausedObserverSockets.erase c
        requests := .paused todo }
    else { s with requests := .paused todo }

def enumerates (order : List Nat) (sockets : Finset Nat) : Prop := order.Nodup ∧ order.toFinset = sockets

instance (order : List Nat) (sockets : Finset Nat) : Decidable (enumerates order sockets) :=
  inferInstanceAs (Decidable (_ ∧ _))

/-- `order` is the one in which a loop that starts goes through its set -/
def processObserverRequests (order : List Nat) : Option State := match s.requests with
  | .sleeping => if enumerates order s.observerSockets then some { s with requests := .observers order } else none
  | .observers (c :: todo) => some (s.observerRequest c todo)
  | .observers [] =>
    if enumerates order s.pausedObserverSockets then some { s with requests := .paused order } else none
  | .paused (c :: todo) => some (s.pausedRequest c todo)
  | .paused [] => some { s with requests := .sleeping }

end

end State

/-! ## the system -/

inductive Action where
  | subscribe (o : Nat) (connected : Bool)
  | cancelSubscription (o : Nat)
  | pauseSubscription (o : Nat)
  | resumeSubscription (o : Nat)
  | receive (o : Nat) (garbage : Bool)
  | processSubscriptions
  | processObserverRequests (order : List Nat)

namespace State
variable (s : State)

def whenIdle (o : Nat) (t : State) : Option State := if (s.observer o).call = .idle then some t else none

def step : Action → Option State
  | .subscribe o connected => s.whenIdle o (s.subscribe o connected)
  | .cancelSubscription o => s.whenIdle o (s.cancelSubscription o)
  | .pauseSubscription o => s.whenIdle o (s.pauseSubscription o)
  | .resumeSubscription o => s.whenIdle o (s.resumeSubscription o)
  | .receive o garbage => s.receive o garbage
  | .processSubscriptions => s.processSubscriptions
  | .processObserverRequests order => s.processObserverRequests order

/-- observer `o` makes no call, and nothing is on its way in its connection -/
def quiet (o : Nat) : Prop :=
  (s.observer o).call = .idle ∧ ∀ c, (s.observer o).socket = some c →
    (s.connection c).toNotifier = [] ∧ (s.connection c).toObserver = []

/-- the descriptor of observer `o` is one of these -/
def among (sockets : Finset Nat) (o : Nat) : Prop := ∃ c, (s.observer o).socket = some c ∧ c ∈ sockets

/-- what is meant to hold of the flags of the observers and the sets of the notifier -/
structure Agree : Prop where
  paused : ∀ o, s.quiet o → ((s.observer o).subscriptionPaused = true ↔ s.among s.pausedObserverSockets o)
  subscribed : ∀ o, s.quiet o →
    ((s.observer o).subscribed = true ∧ (s.observer o).subscriptionPaused = false ↔ s.among s.observerSockets o)
  cancelled : ∀ r ∈ s.cancelResults, r = .ok ()

/-- the condition on a step: a subscribed observer that subscribes again is connected, no call of
`cancel_subscription` that has sent its request comes to its end, and where the notifier reads the last request of
an observer that makes no call, this is not `PAUSE_SUBSCRIPTION` -/
def Keeps : Action → Prop
  | .subscribe o connected => connected = true ∨ (s.observer o).subscribed = false
  | .receive o _ => (s.observer o).call ≠ .cancelling
  | .processObserverRequests _ => ∀ c o, s.requests.current = some c → (s.observer o).socket = some c →
      (s.observer o).call = .idle → (s.connection c).toNotifier ≠ [.pauseSubscription]
  | _ => True

end State

end DomainSocket
end Ipcpp
