import Ipcpp.Event.DomainSocket
import Ipcpp.Lib.Registry

/-!
# The descriptors of the notifier (`DomainSocketNotifier`)

Two sets of descriptors, each with its lock: `_observer_sockets`, to which `notify_observers` sends, and
`_paused_observer_sockets`.  The thread of `process_subscriptions` inserts what `accept` returns; the one of
`process_observer_requests` goes through the sets in turn and moves a descriptor, or erases and closes it, as its
observer asks; and any thread may call `notify_observers`, which closes what cannot be sent to.

A section under a lock is one step.  What `recv` and `send` say in it comes with the action, one answer for
each call; `accept` may return any number that stands for no open descriptor, and the rest of the process opens
and closes descriptors of its own meanwhile.

`always_consistent`: a descriptor that was accepted is on its way, in one of the sets or closed, once.
-/

namespace Ipcpp
namespace SocketSets
open Runs
open DomainSocket (ObserverRequest Subscriptions)

/-- what `recv` with `MSG_DONTWAIT` says: a request, the end of the stream, or nothing so far -/
inductive Recv where
  | request (r : ObserverRequest)
  | closed
  | nothing
deriving DecidableEq

/-- what `send` says; `reset` is `ECONNRESET` or `EPIPE` -/
inductive Send where
  | sent
  | reset
  | failed
deriving DecidableEq

/-- the section that the thread of `process_observer_requests` comes to next -/
inductive Section where
  | observers
  | paused
deriving DecidableEq

structure State where
  /-- the open descriptors of the process; those of `accept` are issued -/
  descriptors : Registry Nat
  observerSockets : Finset Nat
  pausedObserverSockets : Finset Nat
  subscriptions : Subscriptions
  requests : Section
  /-- for every call of `close`, what its descriptor stood for -/
  closes : List (Option Entry)
  /-- for every notification, where it was sent and what the set was -/
  notifications : List (Nat × Finset Nat)

namespace State

def init : State := ⟨.empty, ∅, ∅, .accepting, .observers, [], []⟩

section
variable (s : State)

def close (c : Nat) : State :=
  { s with descriptors := s.descriptors.finish c, closes := s.descriptors.table c :: s.closes }

def eraseObserver (c : Nat) : State := { s with observerSockets := s.observerSockets.erase c }

def erasePaused (c : Nat) : State := { s with pausedObserverSockets := s.pausedObserverSockets.erase c }

/-- one turn of the loop over `_observer_sockets`, and whether the iterator goes on -/
def observerTurn (c : Nat) : Recv → State × Bool
  | .request .subscribe => (s, false)
  | .request .cancelSubscription => ((s.eraseObserver c).close c, true)
  | .request .pauseSubscription =>
    (eraseObserver { s with pausedObserverSockets := insert c s.pausedObserverSockets } c, true)
  | .request .resumeSubscription => (s, false)
  | .closed => ((s.eraseObserver c).close c, true)
  | .nothing => (s, true)

/-- one turn of the loop over `_paused_observer_sockets` -/
def pausedTurn (c : Nat) : Recv → State × Bool
  | .request .subscribe => (s, false)
  | .request .cancelSubscription => ((s.erasePaused c).close c, true)
  | .request .pauseSubscription => (s, false)
  | .request .resumeSubscription => (erasePaused { s with observerSockets := insert c s.observerSockets } c, true)
  | .closed => ((s.erasePaused c).close c, true)
  | .nothing => (s, true)

/-- one turn of the loop of `notify_observers` -/
def notifyTurn (c : Nat) (r : Send) : State × Bool :=
  let s := { s with notifications := (c, s.observerSockets) :: s.notifications }
  match r with
  | .reset => ((s.close c).eraseObserver c, true)
  | _ => (s, true)

/-- a loop over the descriptors `todo`; there is an answer for each call -/
def loop {ρ : Type} (turn : State → Nat → ρ → State × Bool) : State → List Nat → List ρ → Option State
  | s, [], [] => some s
  | s, c :: todo, r :: rs => loop turn (turn s c r).1 (if (turn s c r).2 then todo else c :: todo) rs
  | _, _, _ => none

end

end State

inductive Action where
  /-- `accept` returns `c` -/
  | accept (c : Nat)
  /-- the accepted descriptor is inserted -/
  | insert
  /-- the observer is sent its response -/
  | respond
  /-- the next section of `process_observer_requests` -/
  | processObserverRequests (answers : List Recv)
  | notifyObservers (answers : List Send)
  /-- the rest of the process opens a descriptor, or closes one of its own -/
  | openElsewhere (c : Nat)
  | closeElsewhere (c : Nat)

namespace State

section
variable (s : State)

def processSubscriptions : Action → Option State
  | .accept c => match s.subscriptions with
    | .accepting =>
      if s.descriptors.table c = none then
        some { s with descriptors := s.descriptors.issue c, subscriptions := .accepted c }
      else none
    | _ => none
  | .insert => match s.subscriptions with
    | .accepted c =>
      some { s with observerSockets := Insert.insert c s.observerSockets, subscriptions := .inserted c }
    | _ => none
  | .respond => match s.subscriptions with
    | .inserted _ => some { s with subscriptions := .accepting }
    | _ => none
  | _ => none

def processObserverRequests (answers : List Recv) : Option State := match s.requests with
  | .observers =>
    (loop observerTurn s s.observerSockets.sort answers).map fun t => { t with requests := .paused }
  | .paused =>
    (loop pausedTurn s s.pausedObserverSockets.sort answers).map fun t => { t with requests := .observers }

def notifyObservers (answers : List Send) : Option State := loop notifyTurn s s.observerSockets.sort answers

def step : Action → Option State
  | .processObserverRequests answers => s.processObserverRequests answers
  | .notifyObservers answers => s.notifyObservers answers
  | .openElsewhere c =>
    if s.descriptors.table c = none then some { s with descriptors := s.descriptors.update c (some .other) }
    else none
  | .closeElsewhere c =>
    if s.descriptors.table c = some .other then some { s with descriptors := s.descriptors.update c none }
    else none
  | a => s.processSubscriptions a

/-- the descriptor that was accepted and not inserted yet -/
def pending : Option Nat := match s.subscriptions with
  | .accepted c => some c
  | _ => none

/-- descriptor `c` is open, and is the one of the acceptance `i` -/
def StandsFor (c i : Nat) : Prop := s.descriptors.table c = some (.mine i)

/-- what is meant to hold of the two sets -/
structure Consistent : Prop where
  disjoint : Disjoint s.observerSockets s.pausedObserverSockets
  open_ : ∀ c ∈ s.observerSockets ∪ s.pausedObserverSockets, ∃ i, s.StandsFor c i
  /-- a descriptor in a set was not closed -/
  not_closed : ∀ c ∈ s.observerSockets ∪ s.pausedObserverSockets, ∀ i, s.StandsFor c i → s.descriptors.ended i = 0
  /-- one that was inserted and is in neither was closed once -/
  closed_once : ∀ i < s.descriptors.issued,
    (∀ c ∈ s.observerSockets ∪ s.pausedObserverSockets, ¬ s.StandsFor c i) →
    (∀ c, s.pending = some c → ¬ s.StandsFor c i) → s.descriptors.ended i = 1
  /-- and nothing else was closed -/
  closes_own : ∀ e ∈ s.closes, ∃ i, e = some (.mine i)
  notified : ∀ n ∈ s.notifications, n.1 ∈ n.2

end

/-! ## the holders of the descriptors -/

section
variable {S : Finset Nat} {c : Nat}

theorem sort_insert (hc : c ∉ S) : (insert c S).sort.Perm (c :: S.sort) :=
  (Finset.sort_perm_toList _ _).trans
    ((Finset.toList_insert hc).trans (((Finset.sort_perm_toList S _).symm).cons c))

theorem sort_erase (hc : c ∈ S) : S.sort.Perm (c :: (S.erase c).sort) := by
  have hins := sort_insert (Finset.notMem_erase c S)
  rwa [Finset.insert_erase hc] at hins

end

/-- the descriptors that are in a set, or on their way to one -/
def holders (s : State) : List Nat := s.observerSockets.sort ++ (s.pausedObserverSockets.sort ++ s.pending.toList)

structure Inv (s : State) : Prop where
  registry : s.descriptors.Inv s.holders
  closes_own : ∀ e ∈ s.closes, ∃ i, e = some (.mine i)
  notified : ∀ n ∈ s.notifications, n.1 ∈ n.2

variable {s t : State} {c : Nat}

theorem mem_holders :
    c ∈ s.holders ↔ c ∈ s.observerSockets ∨ c ∈ s.pausedObserverSockets ∨ s.pending = some c := by
  rw [holders, List.mem_append, List.mem_append, Finset.mem_sort, Finset.mem_sort, Option.mem_toList]

theorem init_inv : init.Inv where
  registry := by
    have hnone : init.holders = [] := by simp [holders, init, pending]
    rw [hnone]
    exact Registry.empty_inv
  closes_own _ h := absurd h List.not_mem_nil
  notified _ h := absurd h List.not_mem_nil

theorem Inv.disjoint (h : s.Inv) : Disjoint s.observerSockets s.pausedObserverSockets := by
  have happ := (List.nodup_append.mp h.registry.nodup).2.2
  refine Finset.disjoint_left.mpr fun c ho hp => ?_
  exact happ c ((Finset.mem_sort _).mpr ho) c (List.mem_append_left _ ((Finset.mem_sort _).mpr hp)) rfl

/-- **What is meant to hold follows.** -/
theorem Inv.consistent (h : s.Inv) : s.Consistent where
  disjoint := h.disjoint
  open_ c hc := h.registry.live c (mem_holders.mpr ((Finset.mem_union.mp hc).imp_right .inl))
  not_closed c _ i hi := h.registry.running c i hi
  closed_once i hi hsets hpending := by
    have hzero : s.descriptors.holders s.holders i = 0 := Registry.holders_eq_zero fun c hc hcontra => by
      rcases mem_holders.mp hc with ho | hp | hp
      · exact hsets c (Finset.mem_union_left _ ho) hcontra
      · exact hsets c (Finset.mem_union_right _ hp) hcontra
      · exact hpending c hp hcontra
    have hone := h.registry.once i hi
    omega
  closes_own := h.closes_own
  notified := h.notified

/-! ## one turn of a loop -/

theorem Inv.moved (h : s.Inv) (hperm : s.holders.Perm t.holders) (hd : t.descriptors = s.descriptors)
    (hcl : t.closes = s.closes) (hn : t.notifications = s.notifications) : t.Inv where
  registry := hd ▸ h.registry.perm hperm
  closes_own := hcl ▸ h.closes_own
  notified := hn ▸ h.notified

/-- a descriptor leaves its set and is closed -/
theorem Inv.closed (h : s.Inv) (hperm : s.holders.Perm (c :: t.holders))
    (hd : t.descriptors = s.descriptors.finish c) (hcl : t.closes = s.descriptors.table c :: s.closes) (hn : t.notifications = s.notifications) : t.Inv where
  registry := hd ▸ (h.registry.perm hperm).finish
  closes_own e he := by
    rw [hcl] at he
    rcases List.mem_cons.mp he with rfl | he
    · exact h.registry.live c (hperm.mem_iff.mpr List.mem_cons_self)
    · exact h.closes_own e he
  notified := hn ▸ h.notified

theorem holders_erase_observer (hc : c ∈ s.observerSockets) : s.holders.Perm (c :: (s.eraseObserver c).holders) :=
  (sort_erase hc).append_right _

theorem holders_erase_paused (hc : c ∈ s.pausedObserverSockets) : s.holders.Perm (c :: (s.erasePaused c).holders) :=
  (((sort_erase hc).append_right _).append_left _).trans List.perm_middle

/-- what a turn at descriptor `c` of the set `sockets` does: it keeps `Inv`, and takes no other descriptor away;
it takes `c` away only if the iterator goes on -/
def Turns (sockets : State → Finset Nat) (s t : State) (c : Nat) (goesOn : Bool) : Prop :=
  t.Inv ∧ (∀ d ∈ sockets s, d ≠ c → d ∈ sockets t) ∧ (goesOn = false → c ∈ sockets t)

theorem Inv.stays (h : s.Inv) (sockets : State → Finset Nat) (hc : c ∈ sockets s) (goesOn : Bool) :
    Turns sockets s s c goesOn := ⟨h, fun _ hd _ => hd, fun _ => hc⟩

theorem Inv.observerTurn (h : s.Inv) (hc : c ∈ s.observerSockets) (r : Recv) :
    Turns observerSockets s (s.observerTurn c r).1 c (s.observerTurn c r).2 := by
  have hother : ∀ d ∈ s.observerSockets, d ≠ c → d ∈ s.observerSockets.erase c := fun d hd hne =>
    Finset.mem_erase.mpr ⟨hne, hd⟩
  have hclose : Turns observerSockets s ((s.eraseObserver c).close c) c true :=
    ⟨h.closed (holders_erase_observer hc) rfl rfl rfl, hother, fun h => by cases h⟩
  cases r with
  | nothing => exact h.stays observerSockets hc _
  | closed => exact hclose
  | request r =>
    cases r with
    | subscribe => exact h.stays observerSockets hc _
    | resumeSubscription => exact h.stays observerSockets hc _
    | cancelSubscription => exact hclose
    | pauseSubscription =>
      have hnot : c ∉ s.pausedObserverSockets := Finset.disjoint_left.mp h.disjoint hc
      refine ⟨h.moved ?_ rfl rfl rfl, hother, fun h => by cases h⟩
      refine (holders_erase_observer hc).trans (List.perm_middle.symm.trans ?_)
      exact ((sort_insert hnot).symm.append_right _).append_left _

theorem Inv.pausedTurn (h : s.Inv) (hc : c ∈ s.pausedObserverSockets) (r : Recv) :
    Turns pausedObserverSockets s (s.pausedTurn c r).1 c (s.pausedTurn c r).2 := by
  have hother : ∀ d ∈ s.pausedObserverSockets, d ≠ c → d ∈ s.pausedObserverSockets.erase c := fun d hd hne =>
    Finset.mem_erase.mpr ⟨hne, hd⟩
  have hclose : Turns pausedObserverSockets s ((s.erasePaused c).close c) c true :=
    ⟨h.closed (holders_erase_paused hc) rfl rfl rfl, hother, fun h => by cases h⟩
  cases r with
  | nothing => exact h.stays pausedObserverSockets hc _
  | closed => exact hclose
  | request r =>
    cases r with
    | subscribe => exact h.stays pausedObserverSockets hc _
    | pauseSubscription => exact h.stays pausedObserverSockets hc _
    | cancelSubscription => exact hclose
    | resumeSubscription =>
      have hnot : c ∉ s.observerSockets := fun ho => Finset.disjoint_left.mp h.disjoint ho hc
      refine ⟨h.moved ?_ rfl rfl rfl, hother, fun h => by cases h⟩
      exact (holders_erase_paused hc).trans ((sort_insert hnot).symm.append_right _)

theorem Inv.notifyTurn (h : s.Inv) (hc : c ∈ s.observerSockets) (r : Send) :
    Turns observerSockets s (s.notifyTurn c r).1 c (s.notifyTurn c r).2 := by
  have hsent : Inv { s with notifications := (c, s.observerSockets) :: s.notifications } := by
    refine ⟨h.registry, h.closes_own, fun n hn => ?_⟩
    rcases List.mem_cons.mp hn with rfl | hn
    · exact hc
    · exact h.notified n hn
  cases r with
  | sent => exact hsent.stays observerSockets hc _
  | failed => exact hsent.stays observerSockets hc _
  | reset =>
    refine ⟨hsent.closed (holders_erase_observer hc) rfl rfl rfl, fun d hd hne => ?_, fun h => by cases h⟩
    exact Finset.mem_erase.mpr ⟨hne, hd⟩

/-- **A loop** over descriptors of its set -/
theorem Inv.loop {ρ : Type} {turn : State → Nat → ρ → State × Bool} {sockets : State → Finset Nat}
    (hturn : ∀ s : State, s.Inv → ∀ c ∈ sockets s, ∀ r, Turns sockets s (turn s c r).1 c (turn s c r).2)
    (rs : List ρ) : ∀ {s : State} {todo : List Nat}, s.Inv → todo.Nodup → (∀ c ∈ todo, c ∈ sockets s) →
      State.loop turn s todo rs = some t → t.Inv := by
  induction rs with
  | nil =>
    intro s todo h _ _ ht
    cases todo with
    | nil => exact Option.some.inj ht ▸ h
    | cons c todo => cases ht
  | cons r rs ih =>
    intro s todo h hnodup hmem ht
    cases todo with
    | nil => cases ht
    | cons c todo =>
      obtain ⟨hinv, hother, hsame⟩ := hturn s h c (hmem c List.mem_cons_self) r
      obtain ⟨hc, hrest⟩ := List.nodup_cons.mp hnodup
      have htodo : ∀ d ∈ todo, d ∈ sockets (turn s c r).1 := fun d hd =>
        hother d (hmem d (List.mem_cons_of_mem _ hd)) fun he => hc (he ▸ hd)
      rw [State.loop] at ht
      cases hgo : (turn s c r).2 with
      | true =>
        rw [hgo, if_pos rfl] at ht
        exact ih hinv hrest htodo ht
      | false =>
        rw [hgo, if_neg Bool.false_ne_true] at ht
        refine ih hinv hnodup (fun d hd => ?_) ht
        rcases List.mem_cons.mp hd with rfl | hd
        · exact hsame hgo
        · exact htodo d hd

theorem loop_ends {ρ : Type} (turn : State → Nat → ρ → State × Bool) (r : ρ) (hturn : ∀ s c, (turn s c r).2 = true)
    (todo : List Nat) : ∀ s : State, ∃ t, State.loop turn s todo (todo.map fun _ => r) = some t := by
  induction todo with
  | nil => exact fun s => ⟨s, rfl⟩
  | cons c todo ih =>
    intro s
    rw [List.map_cons, State.loop, hturn, if_pos rfl]
    exact ih _

/-! ## whole runs -/

/-- no state is stuck: each section can run to its end -/
theorem sections_enabled (s : State) :
    (∃ answers t, s.processObserverRequests answers = some t) ∧
      ∃ answers t, s.notifyObservers answers = some t := by
  constructor
  · unfold State.processObserverRequests
    cases s.requests with
    | observers =>
      obtain ⟨t, ht⟩ := loop_ends State.observerTurn Recv.nothing (fun _ _ => rfl) s.observerSockets.sort s
      exact ⟨_, _, Option.map_eq_some_iff.mpr ⟨t, ht, rfl⟩⟩
    | paused =>
      obtain ⟨t, ht⟩ := loop_ends State.pausedTurn Recv.nothing (fun _ _ => rfl)
        s.pausedObserverSockets.sort s
      exact ⟨_, _, Option.map_eq_some_iff.mpr ⟨t, ht, rfl⟩⟩
  · obtain ⟨t, ht⟩ := loop_ends State.notifyTurn Send.sent (fun _ _ => rfl) s.observerSockets.sort s
    exact ⟨_, t, ht⟩

theorem Inv.processObserverRequests (h : s.Inv) (answers : List Recv)
    (ht : s.processObserverRequests answers = some t) : t.Inv := by
  have hflag : ∀ {u : State} (x : Section), u.Inv → Inv { u with requests := x } :=
    fun x hu => hu.moved .rfl rfl rfl rfl
  unfold State.processObserverRequests at ht
  split at ht
  · obtain ⟨u, hu, rfl⟩ := Option.map_eq_some_iff.mp ht
    exact hflag _ (Inv.loop (fun _ h _ hc r => h.observerTurn hc r) answers h (Finset.sort_nodup _ _)
      (fun _ hc => (Finset.mem_sort _).mp hc) hu)
  · obtain ⟨u, hu, rfl⟩ := Option.map_eq_some_iff.mp ht
    exact hflag _ (Inv.loop (fun _ h _ hc r => h.pausedTurn hc r) answers h (Finset.sort_nodup _ _)
      (fun _ hc => (Finset.mem_sort _).mp hc) hu)

theorem Inv.notifyObservers (h : s.Inv) (answers : List Send) (ht : s.notifyObservers answers = some t) : t.Inv :=
  Inv.loop (fun _ h _ hc r => h.notifyTurn hc r) answers h (Finset.sort_nodup _ _)
    (fun _ hc => (Finset.mem_sort _).mp hc) ht

theorem Inv.accept (h : s.Inv) (hsub : s.subscriptions = .accepting) (hc : s.descriptors.table c = none) :
    Inv { s with descriptors := s.descriptors.issue c, subscriptions := .accepted c } := by
  refine ⟨(h.registry.issue hc).perm ?_, h.closes_own, h.notified⟩
  have hpending : s.pending = none := by rw [pending, hsub]
  show (c :: s.holders).Perm (s.observerSockets.sort ++ (s.pausedObserverSockets.sort ++ [c]))
  rw [holders, hpending]
  rw [Option.toList_none, List.append_nil, ← List.append_assoc]
  exact (List.perm_append_singleton c _).symm

theorem Inv.insert (h : s.Inv) (hsub : s.subscriptions = .accepted c) :
    Inv { s with observerSockets := Insert.insert c s.observerSockets, subscriptions := .inserted c } := by
  have hpending : s.pending = some c := by rw [pending, hsub]
  have hnodup := h.registry.nodup
  have hholders : s.holders = (s.observerSockets.sort ++ s.pausedObserverSockets.sort) ++ [c] := by
    rw [holders, hpending, List.append_assoc]
    rfl
  have hnot : c ∉ s.observerSockets := fun hc => by
    rw [hholders] at hnodup
    have hmem := List.mem_append_left s.pausedObserverSockets.sort ((Finset.mem_sort (· ≤ ·)).mpr hc)
    exact (List.nodup_append.mp hnodup).2.2 c hmem c (List.mem_singleton.mpr rfl) rfl
  refine h.moved ?_ rfl rfl rfl
  show s.holders.Perm ((Insert.insert c s.observerSockets).sort ++ (s.pausedObserverSockets.sort ++ []))
  rw [hholders, List.append_nil]
  exact (List.perm_append_singleton c _).trans ((sort_insert hnot).symm.append_right _)

/-- **One step** -/
theorem Inv.step (h : s.Inv) (a : Action) (ht : s.step a = some t) : t.Inv := by
  cases a with
  | accept c =>
    change s.processSubscriptions (.accept c) = some t at ht
    unfold processSubscriptions at ht
    cases hsub : s.subscriptions with
    | accepting =>
      simp only [hsub] at ht
      obtain ⟨hc, ht⟩ := Option.ite_none_right_eq_some.mp ht
      exact Option.some.inj ht ▸ h.accept hsub hc
    | accepted d => simp [hsub] at ht
    | inserted d => simp [hsub] at ht
  | insert =>
    change s.processSubscriptions .insert = some t at ht
    unfold processSubscriptions at ht
    cases hsub : s.subscriptions with
    | accepting => simp [hsub] at ht
    | accepted c =>
      simp only [hsub] at ht
      exact Option.some.inj ht ▸ h.insert hsub
    | inserted d => simp [hsub] at ht
  | respond =>
    change s.processSubscriptions .respond = some t at ht
    unfold processSubscriptions at ht
    cases hsub : s.subscriptions with
    | accepting => simp [hsub] at ht
    | accepted d => simp [hsub] at ht
    | inserted c =>
      simp only [hsub] at ht
      have hpending : s.pending = none := by rw [pending, hsub]
      refine Option.some.inj ht ▸ h.moved ?_ rfl rfl rfl
      rw [holders, hpending]
      exact .rfl
  | processObserverRequests answers => exact h.processObserverRequests answers ht
  | notifyObservers answers => exact h.notifyObservers answers ht
  | openElsewhere c =>
    obtain ⟨hc, ht⟩ := Option.ite_none_right_eq_some.mp ht
    exact Option.some.inj ht ▸ ⟨h.registry.elsewhere hc nofun nofun, h.closes_own, h.notified⟩
  | closeElsewhere c =>
    obtain ⟨hc, ht⟩ := Option.ite_none_right_eq_some.mp ht
    exact Option.some.inj ht ▸ ⟨h.registry.elsewhere hc nofun nofun, h.closes_own, h.notified⟩

/-- **Whatever happens in which order, the sets stay consistent.** -/
theorem always_consistent (as : List Action) : Always State.step Consistent init as :=
  always_of_inv (fun _ h => h.consistent) (fun _ a _ h ht => h.step a ht) as init_inv

end State

end SocketSets
end Ipcpp
