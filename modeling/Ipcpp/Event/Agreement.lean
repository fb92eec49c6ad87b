import Ipcpp.Event.DomainSocket

/-!
# Observers and notifier agree

What both ends know of one connection is its `View`.  A step of the notifier changes the view of one connection
(`Ends.notify`), a call of an observer that of its own (`Ends.call`), and `subscribe` sets up a new one
(`Ends.connect`).  `View.Sound` holds of every connection, `Fits` of every observer and its own.

`agreement_iff`: the flags and the sets agree, and no call of `cancel_subscription` that the notifier has taken
fails, as long as the steps are `Keeps`, and not longer.
-/

namespace Ipcpp
namespace DomainSocket
open Runs

/-- a connection, the sets it is in, and how far its setup is -/
@[ext]
structure View where
  connection : Connection := {}
  observed : Bool := false
  paused : Bool := false
  /-- in the backlog, or accepted -/
  connecting : Bool := false
  /-- inserted, and without a reply -/
  inserted : Bool := false

namespace View

structure Sound (v : View) : Prop where
  notShut : v.connection.shut = false
  closed : v.connection.closed = true → v.observed = false ∧ v.paused = false ∧ v.connection.cancelled = true
  apart : v.observed = true → v.paused = false
  connecting : v.connecting = true → v.connection = {} ∧ v.observed = false ∧ v.paused = false
  inserted : v.inserted = true → v.connection = {} ∧ v.observed = true

/-- its observer waits for the reply to `subscribe` -/
def Pending (v : View) : Prop :=
  v.connecting = true ∨ v.inserted = true ∨ (v.connection = { toObserver := [true] } ∧ v.observed = true)

/-- the connection is set up, and no reply is on its way -/
structure Ready (v : View) : Prop where
  notConnecting : v.connecting = false
  notInserted : v.inserted = false
  noReply : v.connection.toObserver = []

structure Settled (v : View) : Prop extends v.Ready where
  requests : ∀ r ∈ v.connection.toNotifier, r = .pauseSubscription ∨ r = .resumeSubscription
  place : v.observed = true ∨ v.paused = true
  last : v.connection.toNotifier = [] → v.observed = true

theorem Sound.not_closed {v : View} (h : v.Sound) (hv : v.observed = true ∨ v.paused = true) :
    v.connection.closed = false := by
  cases hc : v.connection.closed with
  | false => rfl
  | true =>
    obtain ⟨ho, hp, -⟩ := h.closed hc
    rw [ho, hp] at hv
    cases hv with
    | inl h => cases h
    | inr h => cases h

/-- a connection with anything on its way has been accepted, inserted, and replied to -/
theorem Sound.not_waiting {v : View} (h : v.Sound) (hv : v.connection ≠ {}) :
    v.connecting = false ∧ v.inserted = false :=
  ⟨eq_false_of_ne_true fun hc => hv (h.connecting hc).1, eq_false_of_ne_true fun hc => hv (h.inserted hc).1⟩

theorem Sound.of_request {v : View} {r : ObserverRequest} {rest : List ObserverRequest} (h : v.Sound)
    (hq : v.connection.toNotifier = r :: rest) : v.connecting = false ∧ v.inserted = false :=
  h.not_waiting fun hnil => by
    rw [hnil] at hq
    cases hq

theorem Settled.head {v : View} {r : ObserverRequest} {rest : List ObserverRequest} (h : v.Settled)
    (hq : v.connection.toNotifier = r :: rest) : r = .pauseSubscription ∨ r = .resumeSubscription :=
  h.requests r (hq ▸ List.mem_cons_self)

theorem Settled.tail {v : View} {r : ObserverRequest} {rest : List ObserverRequest} (h : v.Settled)
    (hq : v.connection.toNotifier = r :: rest) : ∀ q ∈ rest, q = .pauseSubscription ∨ q = .resumeSubscription :=
  fun q hmem => h.requests q (hq ▸ List.mem_cons_of_mem _ hmem)

theorem sound_new : Sound { connecting := true } where
  notShut := rfl
  closed h := by cases h
  apart h := by cases h
  connecting _ := ⟨rfl, rfl, rfl⟩
  inserted h := by cases h

theorem Sound.push {v : View} (h : v.Sound) (hv : v.Ready) (r : ObserverRequest) :
    Sound { v with connection := { v.connection with toNotifier := v.connection.toNotifier ++ [r] } } where
  notShut := h.notShut
  closed := h.closed
  apart := h.apart
  connecting hc := by rw [show v.connecting = false from hv.notConnecting] at hc; cases hc
  inserted hc := by rw [show v.inserted = false from hv.notInserted] at hc; cases hc

end View

/-- an observer, and the connection of its socket -/
def Fits (view : Nat → View) (x : Observer) : Prop :=
  x.subscriptionPaused = false ∧ match x.call, x.socket.map view with
    | .idle, none => x.subscribed = false
    | .idle, some v => x.subscribed = true ∧ v.Settled
    | .subscribing, some v => v.Pending
    | .cancelling, some v => v.Ready
    | _, none => False

section
variable {c : Nat} {x : Observer} {u w : Nat → View}

theorem fits_congr (hx : Fits u x) (huw : ∀ c, x.socket = some c → w c = u c) : Fits w x := by
  have hmap : x.socket.map w = x.socket.map u := Option.map_congr huw
  unfold Fits
  rw [hmap]
  exact hx

theorem fits_none (hp : x.subscriptionPaused = false) (hi : x.call = .idle)
    (hs : x.socket = none) (hx : x.subscribed = false) : Fits u x := by
  refine ⟨hp, ?_⟩
  rw [hi, hs]
  exact hx

theorem fits_settled (hp : x.subscriptionPaused = false) (hi : x.call = .idle)
    (hs : x.socket = some c) (hx : x.subscribed = true) (hv : (u c).Settled) : Fits u x := by
  refine ⟨hp, ?_⟩
  rw [hi, hs]
  exact ⟨hx, hv⟩

theorem fits_pending (hp : x.subscriptionPaused = false) (hi : x.call = .subscribing)
    (hs : x.socket = some c) (hv : (u c).Pending) : Fits u x := by
  refine ⟨hp, ?_⟩
  rw [hi, hs]
  exact hv

theorem fits_ready (hp : x.subscriptionPaused = false) (hi : x.call = .cancelling)
    (hs : x.socket = some c) (hv : (u c).Ready) : Fits u x := by
  refine ⟨hp, ?_⟩
  rw [hi, hs]
  exact hv

theorem Fits.settled (hx : Fits u x) (hi : x.call = .idle) (hs : x.socket = some c) :
    x.subscribed = true ∧ (u c).Settled := by
  have hfit := hx.2
  rw [hi, hs] at hfit
  exact hfit

theorem Fits.pending (hx : Fits u x) (hi : x.call = .subscribing) (hs : x.socket = some c) :
    (u c).Pending := by
  have hfit := hx.2
  rw [hi, hs] at hfit
  exact hfit

theorem Fits.ready (hx : Fits u x) (hi : x.call = .cancelling) (hs : x.socket = some c) :
    (u c).Ready := by
  have hfit := hx.2
  rw [hi, hs] at hfit
  exact hfit

theorem Fits.not_subscribed (hx : Fits u x) (hi : x.call = .idle) (hs : x.socket = none) :
    x.subscribed = false := by
  have hfit := hx.2
  rw [hi, hs] at hfit
  exact hfit

/-- a subscribed observer has a connection -/
theorem Fits.of_subscribed (hx : Fits u x) (hi : x.call = .idle) (hsub : x.subscribed = true) :
    ∃ c, x.socket = some c ∧ (u c).Settled := by
  cases hs : x.socket with
  | none =>
    rw [hx.not_subscribed hi hs] at hsub
    cases hsub
  | some c => exact ⟨c, rfl, (hx.settled hi hs).2⟩

end

/-- a loop has only descriptors of its set to come, each of them once -/
def Requests.Within (observers paused : Finset Nat) : Requests → Prop
  | .sleeping => True
  | .observers todo => todo.Nodup ∧ ∀ c ∈ todo, c ∈ observers
  | .paused todo => todo.Nodup ∧ ∀ c ∈ todo, c ∈ paused

namespace State

section
variable (s : State)

def view (c : Nat) : View where
  connection := s.connection c
  observed := decide (c ∈ s.observerSockets)
  paused := decide (c ∈ s.pausedObserverSockets)
  connecting := decide (c ∈ s.backlog) || match s.subscriptions with
    | .accepted d => decide (c = d)
    | _ => false
  inserted := match s.subscriptions with
    | .inserted d => decide (c = d)
    | _ => false

/-- what holds of the observers and the connections -/
structure Ends : Prop where
  fits : ∀ o, Fits s.view (s.observer o)
  inj : ∀ o o' c, (s.observer o).socket = some c → (s.observer o').socket = some c → o = o'
  below : ∀ o c, (s.observer o).socket = some c → c < s.fresh
  sound : ∀ c, (s.view c).Sound
  unused : ∀ c, s.fresh ≤ c → s.view c = {}

def waiting : List Nat := match s.subscriptions with
  | .accepting => s.backlog
  | .accepted c => c :: s.backlog
  | .inserted c => c :: s.backlog

/-- what holds of the threads of the notifier -/
structure Loops : Prop where
  waiting : s.waiting.Nodup
  todo : s.requests.Within s.observerSockets s.pausedObserverSockets

structure Inv : Prop where
  ends : s.Ends
  loops : s.Loops
  cancelResults : s.cancelResults = []

end

section
variable {s t : State} {c d o : Nat} {x : Observer}

/-! ## the ends -/

theorem view_frame (hc : t.connection d = s.connection d) (ho : d ∈ t.observerSockets ↔ d ∈ s.observerSockets)
    (hp : d ∈ t.pausedObserverSockets ↔ d ∈ s.pausedObserverSockets) (hb : t.backlog = s.backlog)
    (hs : t.subscriptions = s.subscriptions) : t.view d = s.view d := by
  unfold view
  rw [hc, decide_eq_decide.mpr ho, decide_eq_decide.mpr hp, hb, hs]

theorem view_setConnection_of_ne (hd : d ≠ c) (y : Connection) : (s.setConnection c y).view d = s.view d :=
  view_frame (Function.update_of_ne hd _ _) Iff.rfl Iff.rfl rfl rfl

theorem view_setConnection (y : Connection) :
    (s.setConnection c y).view c = { s.view c with connection := y } :=
  View.ext (Function.update_self _ _ _) rfl rfl rfl rfl

theorem Ends.lt_fresh (h : s.Ends) (hc : s.view c ≠ {}) : c < s.fresh := by
  by_contra hle
  exact hc (h.unused c (not_lt.mp hle))

/-- the observer of a connection whose setup is not over waits for the reply -/
theorem Ends.subscribing (h : s.Ends) (ho : (s.observer o).socket = some c)
    (hc : (s.view c).connecting = true ∨ (s.view c).inserted = true) : (s.observer o).call = .subscribing := by
  have hready : ¬ (s.view c).Ready := fun hr => by
    rw [hr.notConnecting, hr.notInserted] at hc
    rcases hc with hc | hc
    · cases hc
    · cases hc
  cases hcall : (s.observer o).call with
  | idle => exact absurd ((h.fits o).settled hcall ho).2.toReady hready
  | subscribing => rfl
  | cancelling => exact absurd ((h.fits o).ready hcall ho) hready

/-- the notifier changes the view of one connection -/
theorem Ends.notify (h : s.Ends) (hx : t.observer = s.observer) (hf : t.fresh = s.fresh)
    (hne : ∀ d, d ≠ c → t.view d = s.view d) (hc : c < s.fresh) (hsound : (t.view c).Sound)
    (hfit : ∀ o, (s.observer o).socket = some c → Fits t.view (s.observer o)) : t.Ends where
  fits o := by
    rw [hx]
    by_cases ho : (s.observer o).socket = some c
    · exact hfit o ho
    · exact fits_congr (h.fits o) fun d hd => hne d fun hdc => ho (hdc ▸ hd)
  inj := hx ▸ h.inj
  below := hx ▸ hf ▸ h.below
  sound d := by
    by_cases hd : d = c
    · exact hd ▸ hsound
    · exact hne d hd ▸ h.sound d
  unused d hd := by
    rw [hf] at hd
    rw [hne d (by omega)]
    exact h.unused d hd

/-- observer `o` changes the view of its connection, and keeps or drops its socket -/
theorem Ends.call (h : s.Ends) (hx : t.observer = Function.update s.observer o x) (hf : t.fresh = s.fresh)
    (hs : ∀ d, x.socket = some d → (s.observer o).socket = some d)
    (hne : ∀ d, (s.observer o).socket ≠ some d → t.view d = s.view d)
    (hsound : ∀ d, (s.observer o).socket = some d → (t.view d).Sound) (hfit : Fits t.view x) : t.Ends := by
  have hsock : ∀ p d, (t.observer p).socket = some d → (s.observer p).socket = some d := by
    intro p d hp
    rw [hx] at hp
    by_cases hpo : p = o
    · subst hpo
      rw [Function.update_self] at hp
      exact hs d hp
    · rwa [Function.update_of_ne hpo] at hp
  refine ⟨fun p => ?_, fun p q d hp hq => h.inj p q d (hsock p d hp) (hsock q d hq),
    fun p d hp => hf ▸ h.below p d (hsock p d hp), fun d => ?_, fun d hd => ?_⟩
  · rw [hx]
    by_cases hpo : p = o
    · subst hpo
      rw [Function.update_self]
      exact hfit
    · rw [Function.update_of_ne hpo]
      exact fits_congr (h.fits p) fun d hd => hne d fun ho => hpo (h.inj p o d hd ho)
  · by_cases hd : (s.observer o).socket = some d
    · exact hsound d hd
    · exact hne d hd ▸ h.sound d
  · rw [hf] at hd
    rw [hne d fun ho => absurd (h.below o d ho) (not_lt.mpr hd)]
    exact h.unused d hd

/-- `subscribe` sets up a new connection -/
theorem Ends.connect (h : s.Ends) (hx : t.observer = Function.update s.observer o x) (hf : t.fresh = s.fresh + 1)
    (hs : x.socket = some s.fresh) (hne : ∀ d, d ≠ s.fresh → t.view d = s.view d)
    (hsound : (t.view s.fresh).Sound) (hfit : Fits t.view x) : t.Ends := by
  have hold : ∀ p, p ≠ o → ∀ d, (t.observer p).socket = some d → (s.observer p).socket = some d := by
    intro p hpo d hp
    rwa [hx, Function.update_of_ne hpo] at hp
  have hnew : ∀ d, (t.observer o).socket = some d → d = s.fresh := by
    intro d hd
    rw [hx, Function.update_self, hs] at hd
    exact (Option.some.inj hd).symm
  have hfresh : ∀ p, p ≠ o → ∀ d, (t.observer p).socket = some d → d ≠ s.fresh :=
    fun p hpo d hp => (h.below p d (hold p hpo d hp)).ne
  refine ⟨fun p => ?_, fun p q d hp hq => ?_, fun p d hp => ?_, fun d => ?_, fun d hd => ?_⟩
  · by_cases hpo : p = o
    · subst hpo
      rw [hx, Function.update_self]
      exact hfit
    · have hp : t.observer p = s.observer p := by rw [hx, Function.update_of_ne hpo]
      rw [hp]
      exact fits_congr (h.fits p) fun d hd => hne d (h.below p d hd).ne
  · by_cases hpo : p = o
    · by_cases hqo : q = o
      · rw [hpo, hqo]
      · exact absurd (hnew d (hpo ▸ hp)) (hfresh q hqo d hq)
    · by_cases hqo : q = o
      · exact absurd (hnew d (hqo ▸ hq)) (hfresh p hpo d hp)
      · exact h.inj p q d (hold p hpo d hp) (hold q hqo d hq)
  · rw [hf]
    by_cases hpo : p = o
    · have hd := hnew d (hpo ▸ hp)
      omega
    · have hlt := h.below p d (hold p hpo d hp)
      omega
  · by_cases hd : d = s.fresh
    · exact hd ▸ hsound
    · exact hne d hd ▸ h.sound d
  · rw [hf] at hd
    rw [hne d (by omega)]
    exact h.unused d (by omega)

/-! ## the calls of an observer -/

theorem Inv.setObserver (h : s.Inv) (hs : ∀ d, x.socket = some d → (s.observer o).socket = some d)
    (hfit : Fits s.view x) : (s.setObserver o x).Inv where
  ends := h.ends.call rfl rfl hs (fun _ _ => rfl) (fun d _ => h.ends.sound d) hfit
  loops := ⟨h.loops.waiting, h.loops.todo⟩
  cancelResults := h.cancelResults

theorem Inv.finish (h : s.Inv) (hi : (s.observer o).call = .idle) (r : Except SubscriptionError Unit) :
    (s.finish o (s.observer o) r).Inv := by
  refine h.setObserver (fun _ hd => hd) ?_
  have hfit := h.ends.fits o
  unfold Fits at hfit ⊢
  rw [hi] at hfit
  exact hfit

theorem send_open {socket : Option Nat} (hs : socket = some c) (hc : (s.connection c).closed = false)
    (r : ObserverRequest) : s.send r socket
      = some (s.setConnection c { s.connection c with toNotifier := (s.connection c).toNotifier ++ [r] }) := by
  subst hs
  exact if_neg (by rw [hc]; exact Bool.false_ne_true)

/-- observer `o` has sent request `r` -/
theorem Inv.sent (h : s.Inv) (ho : (s.observer o).socket = some c) (hv : (s.view c).Ready) (r : ObserverRequest)
    (hs : x.socket = some c)
    (hfit : ∀ u : Nat → View, u c = { s.view c with
      connection := { s.connection c with toNotifier := (s.connection c).toNotifier ++ [r] } } → Fits u x) :
    ((s.setConnection c
      { s.connection c with toNotifier := (s.connection c).toNotifier ++ [r] }).setObserver o x).Inv where
  ends := by
    refine h.ends.call rfl rfl (fun d hd => ?_) (fun d hd => ?_) (fun d hd => ?_)
      (hfit _ (view_setConnection _))
    · rw [ho, ← hs, hd]
    · exact view_setConnection_of_ne (fun hdc => hd (by rw [hdc, ho])) _
    · rw [ho] at hd
      obtain rfl := Option.some.inj hd
      exact (view_setConnection (s := s) (c := c) _).symm ▸ (h.ends.sound c).push hv r
  loops := ⟨h.loops.waiting, h.loops.todo⟩
  cancelResults := h.cancelResults

theorem Inv.request (h : s.Inv) (hi : (s.observer o).call = .idle) {r : ObserverRequest}
    (hr : r = .pauseSubscription ∨ r = .resumeSubscription) : (s.request r o).Inv := by
  have hfit := h.ends.fits o
  unfold State.request
  by_cases hsub : (s.observer o).subscribed = false
  · rw [if_pos hsub]
    exact h.finish hi _
  obtain ⟨c, hc, hset⟩ := hfit.of_subscribed hi (eq_true_of_ne_false hsub)
  have hsend := send_open hc ((h.ends.sound c).not_closed hset.place) r
  rw [if_neg hsub, hfit.1, if_neg Bool.false_ne_true, hsend]
  refine h.sent hc hset.toReady r hc fun u hu => fits_settled hfit.1 rfl hc (eq_true_of_ne_false hsub) ?_
  rw [hu]
  refine ⟨⟨hset.notConnecting, hset.notInserted, hset.noReply⟩, fun q hq => ?_, hset.place, fun hnil => ?_⟩
  · rcases List.mem_append.mp hq with hq | hq
    · exact hset.requests q hq
    · rw [List.mem_singleton.mp hq]
      exact hr
  · exact absurd hnil (List.append_ne_nil_of_right_ne_nil _ (List.cons_ne_nil _ _))

theorem Inv.cancelSubscription (h : s.Inv) (hi : (s.observer o).call = .idle) :
    (s.cancelSubscription o).Inv := by
  have hfit := h.ends.fits o
  unfold State.cancelSubscription
  by_cases hsub : (s.observer o).subscribed = false
  · rw [if_pos hsub]
    exact h.finish hi _
  obtain ⟨c, hc, hset⟩ := hfit.of_subscribed hi (eq_true_of_ne_false hsub)
  have hsend := send_open hc ((h.ends.sound c).not_closed hset.place) .cancelSubscription
  rw [if_neg hsub, hfit.1, if_neg Bool.false_ne_true, hsend]
  refine h.sent hc hset.toReady _ hc fun u hu => fits_ready rfl rfl hc ?_
  rw [hu]
  exact ⟨hset.notConnecting, hset.notInserted, hset.noReply⟩

theorem mem_waiting (hd : d ∈ s.waiting) : (s.view d).connecting = true ∨ (s.view d).inserted = true := by
  unfold State.waiting at hd
  unfold view
  cases hs : s.subscriptions with
  | accepting =>
    rw [hs] at hd
    exact .inl (by simp [hd])
  | accepted c =>
    rw [hs] at hd
    exact .inl (by simpa [or_comm] using hd)
  | inserted c =>
    rw [hs] at hd
    simpa [or_comm] using hd

theorem waiting_append {l : List Nat} (hb : t.backlog = s.backlog ++ l)
    (hs : t.subscriptions = s.subscriptions) : t.waiting = s.waiting ++ l := by
  unfold State.waiting
  rw [hb, hs]
  cases s.subscriptions with
  | accepting => rfl
  | accepted c => rfl
  | inserted c => rfl

theorem subscribe_connected (hp : (s.observer o).subscriptionPaused = false) :
    s.subscribe o true
      = { s.setObserver o { s.observer o with socket := some s.fresh, call := .subscribing } with
          fresh := s.fresh + 1
          backlog := s.backlog ++ [s.fresh] } := by
  simp only [State.subscribe, hp, Bool.false_eq_true, if_false, if_true]

theorem subscribe_failed (hp : (s.observer o).subscriptionPaused = false) :
    s.subscribe o false
      = s.finish o { s.observer o with socket := none } (.error .observerSetupFailed) := by
  simp only [State.subscribe, hp, Bool.false_eq_true, if_false]

theorem Inv.subscribe (h : s.Inv) {connected : Bool}
    (hk : connected = true ∨ (s.observer o).subscribed = false) : (s.subscribe o connected).Inv := by
  have hfit := h.ends.fits o
  have hunused := h.ends.unused s.fresh le_rfl
  cases connected with
  | false =>
    have hsub := hk.resolve_left Bool.false_ne_true
    rw [subscribe_failed hfit.1]
    exact h.setObserver (fun d hd => by cases hd) (fits_none hfit.1 rfl rfl hsub)
  | true =>
    rw [subscribe_connected hfit.1]
    set t : State := { s.setObserver o { s.observer o with socket := some s.fresh, call := .subscribing } with
      fresh := s.fresh + 1
      backlog := s.backlog ++ [s.fresh] }
    have hview : ∀ d, t.view d = { s.view d with connecting := (s.view d).connecting || decide (d = s.fresh) } := by
      intro d
      have hback : decide (d ∈ s.backlog ++ [s.fresh]) = (decide (d ∈ s.backlog) || decide (d = s.fresh)) := by
        simp
      refine View.ext rfl rfl rfl ?_ rfl
      show (decide (d ∈ s.backlog ++ [s.fresh]) || _) = (_ || decide (d = s.fresh))
      rw [hback, Bool.or_right_comm]
      rfl
    have hnew : t.view s.fresh = { connecting := true } := by
      rw [hview, hunused]
      simp
    have hne : ∀ d, d ≠ s.fresh → t.view d = s.view d := by
      intro d hd
      rw [hview, decide_eq_false hd, Bool.or_false]
    have hfresh : s.fresh ∉ s.waiting := fun hmem => by
      have hwait := mem_waiting hmem
      rw [hunused] at hwait
      simp at hwait
    refine ⟨h.ends.connect rfl rfl rfl hne ?_ (fits_pending hfit.1 rfl rfl (.inl ?_)), ⟨?_, h.loops.todo⟩,
      h.cancelResults⟩
    · rw [hnew]
      exact View.sound_new
    · rw [hnew]
    · have hwait : t.waiting = s.waiting ++ [s.fresh] := waiting_append rfl rfl
      rw [hwait]
      exact List.nodup_append.mpr ⟨h.loops.waiting, List.nodup_singleton _, fun a ha b hb => by
        rw [List.mem_singleton.mp hb]
        exact fun hab => hfresh (hab ▸ ha)⟩

theorem Inv.receive (h : s.Inv) {garbage : Bool} (hk : (s.observer o).call ≠ .cancelling)
    (ht : s.receive o garbage = some t) : t.Inv := by
  have hfit := h.ends.fits o
  obtain ⟨c, hc, ht⟩ := Option.bind_eq_some_iff.mp ht
  have hsound := h.ends.sound c
  split at ht
  · cases ht
  rename_i hblock
  cases hcall : (s.observer o).call with
  | idle =>
    rw [hcall] at ht
    cases ht
  | cancelling => exact absurd hcall hk
  | subscribing =>
    rw [hcall] at ht
    obtain rfl := Option.some.inj ht
    have hreply : s.connection c = { toObserver := [true] } ∧ (s.view c).observed = true := by
      rcases hfit.pending hcall hc with hp | hp | hp
      · have hconn : s.connection c = {} := (hsound.connecting hp).1
        exact absurd (by rw [hconn]; exact ⟨rfl, rfl⟩) hblock
      · have hconn : s.connection c = {} := (hsound.inserted hp).1
        exact absurd (by rw [hconn]; exact ⟨rfl, rfl⟩) hblock
      · exact hp
    obtain ⟨hconn, hobs⟩ := hreply
    have hwait := hsound.not_waiting (by rw [show (s.view c).connection = _ from hconn]; simp)
    have hs : s.subscribeReply o c garbage
        = (s.setConnection c {}).finish o { s.observer o with subscribed := true } (.ok ()) := by
      unfold subscribeReply
      rw [hconn]
      rfl
    have hview : ((s.setConnection c {}).finish o { s.observer o with subscribed := true } (.ok ())).view c
        = { s.view c with connection := {} } := view_setConnection {}
    rw [hs]
    refine ⟨h.ends.call rfl rfl (fun d hd => hd) (fun d hd => ?_) (fun d hd => ?_)
      (fits_settled hfit.1 rfl hc rfl ?_), ⟨h.loops.waiting, h.loops.todo⟩, h.cancelResults⟩
    · exact view_setConnection_of_ne (fun hdc => hd (by rw [hdc, hc])) _
    · rw [hc] at hd
      obtain rfl := Option.some.inj hd
      rw [hview]
      exact ⟨rfl, fun hcl => Bool.noConfusion hcl, hsound.apart, fun hcon => ⟨rfl, (hsound.connecting hcon).2⟩,
        fun hins => ⟨rfl, hobs⟩⟩
    · rw [hview]
      exact ⟨⟨hwait.1, hwait.2, rfl⟩, fun r hr => absurd hr List.not_mem_nil, .inl hobs, fun _ => hobs⟩

/-! ## the thread that accepts -/

theorem Loops.first (h : s.Loops) (hw : s.waiting = c :: s.backlog) : c ∉ s.backlog ∧ s.backlog.Nodup :=
  List.nodup_cons.mp (hw ▸ h.waiting)

theorem Inv.accept (h : s.Inv) {rest : List Nat} (hs : s.subscriptions = .accepting) (hb : s.backlog = c :: rest) :
    Inv { s with backlog := rest, subscriptions := .accepted c } := by
  have hview : State.view { s with backlog := rest, subscriptions := .accepted c } = s.view := by
    funext d
    refine View.ext rfl rfl rfl ?_ ?_
    · show (decide (d ∈ rest) || decide (d = c)) = (decide (d ∈ s.backlog) || match s.subscriptions with
        | .accepted d' => decide (d = d')
        | _ => false)
      rw [hs, hb]
      simp [Bool.or_comm]
    · show false = match s.subscriptions with
        | .inserted d' => decide (d = d')
        | _ => false
      rw [hs]
  have hwait : State.waiting { s with backlog := rest, subscriptions := .accepted c } = s.waiting := by
    unfold State.waiting
    rw [hs, hb]
  exact ⟨⟨hview ▸ h.ends.fits, h.ends.inj, h.ends.below, hview ▸ h.ends.sound, hview ▸ h.ends.unused⟩,
    ⟨hwait ▸ h.loops.waiting, h.loops.todo⟩, h.cancelResults⟩

theorem Inv.insert (h : s.Inv) (hs : s.subscriptions = .accepted c) (hl : s.locked = false) :
    Inv { s with observerSockets := insert c s.observerSockets, subscriptions := .inserted c } := by
  set t : State := { s with observerSockets := Insert.insert c s.observerSockets, subscriptions := .inserted c }
  have hsound := h.ends.sound c
  have hcon : (s.view c).connecting = true := by simp [view, hs]
  obtain ⟨hconn, -, hpaused⟩ := hsound.connecting hcon
  have hwait : t.waiting = s.waiting := by
    unfold State.waiting
    rw [hs]
  obtain ⟨hc, hnodup⟩ := h.loops.first (c := c) (by unfold State.waiting; rw [hs])
  have hview : t.view c = { observed := true, inserted := true } :=
    View.ext hconn (decide_eq_true (Finset.mem_insert_self _ _)) hpaused
      (by show (decide (c ∈ s.backlog) || false) = false; simp [hc]) (decide_eq_true rfl)
  have hne : ∀ d, d ≠ c → t.view d = s.view d := by
    intro d hd
    have hobs : d ∈ Insert.insert c s.observerSockets ↔ d ∈ s.observerSockets :=
      ⟨fun hm => (Finset.mem_insert.mp hm).resolve_left hd, Finset.mem_insert_of_mem⟩
    refine View.ext rfl (decide_eq_decide.mpr hobs) rfl ?_ ?_
    · simp [view, t, hs, hd]
    · simp [view, t, hs, hd]
  refine ⟨h.ends.notify (c := c) rfl rfl hne (h.ends.lt_fresh fun hnil => ?_) ?_ fun o ho => ?_,
    ⟨hwait ▸ h.loops.waiting, ?_⟩, h.cancelResults⟩
  · rw [hnil] at hcon
    cases hcon
  · rw [hview]
    exact ⟨rfl, fun hcl => Bool.noConfusion hcl, fun _ => rfl, fun hcl => Bool.noConfusion hcl,
      fun _ => ⟨rfl, rfl⟩⟩
  · refine fits_pending (h.ends.fits o).1 (h.ends.subscribing ho (.inl hcon)) ho (.inr (.inl ?_))
    rw [hview]
  · have htodo := h.loops.todo
    show s.requests.Within (Insert.insert c s.observerSockets) s.pausedObserverSockets
    cases hr : s.requests with
    | sleeping => exact trivial
    | observers todo =>
      unfold State.locked at hl
      rw [hr] at hl
      cases hl
    | paused todo =>
      rw [hr] at htodo
      exact htodo

theorem Inv.reply (h : s.Inv) (hs : s.subscriptions = .inserted c) (hl : s.processSubscriptions = some t) :
    t.Inv := by
  have hsound := h.ends.sound c
  have hins : (s.view c).inserted = true := by simp [view, hs]
  obtain ⟨hconn, hobs⟩ := hsound.inserted hins
  have hconn : s.connection c = {} := hconn
  obtain ⟨hc, hnodup⟩ := h.loops.first (c := c) (by unfold State.waiting; rw [hs])
  have ht : s.processSubscriptions
      = some { s.setConnection c { toObserver := [true] } with subscriptions := .accepting } := by
    unfold State.processSubscriptions
    rw [hs]
    simp only [hconn]
    rfl
  rw [ht] at hl
  obtain rfl := Option.some.inj hl
  set t : State := { s.setConnection c { toObserver := [true] } with subscriptions := .accepting }
  have hview : t.view c = { connection := { toObserver := [true] }, observed := true } :=
    View.ext (Function.update_self _ _ _) hobs (hsound.apart hobs)
      (by show (decide (c ∈ s.backlog) || false) = false; simp [hc]) rfl
  have hne : ∀ d, d ≠ c → t.view d = s.view d := by
    intro d hd
    refine View.ext (Function.update_of_ne hd _ _) rfl rfl ?_ ?_
    · simp [view, t, hs, State.setConnection]
    · simp [view, t, hs, hd, State.setConnection]
  refine ⟨h.ends.notify (c := c) rfl rfl hne (h.ends.lt_fresh fun hnil => ?_) ?_ fun o ho => ?_,
    ⟨?_, h.loops.todo⟩, h.cancelResults⟩
  · rw [hnil] at hins
    cases hins
  · rw [hview]
    exact ⟨rfl, fun hcl => Bool.noConfusion hcl, fun _ => rfl, fun hcl => Bool.noConfusion hcl,
      fun hcl => Bool.noConfusion hcl⟩
  · refine fits_pending (h.ends.fits o).1 (h.ends.subscribing ho (.inr hins)) ho (.inr (.inr ?_))
    rw [hview]
    exact ⟨rfl, rfl⟩
  · exact hnodup

theorem Inv.processSubscriptions (h : s.Inv) (ht : s.processSubscriptions = some t) : t.Inv := by
  cases hs : s.subscriptions with
  | accepting =>
    unfold State.processSubscriptions at ht
    rw [hs] at ht
    cases hb : s.backlog with
    | nil =>
      simp only [hb] at ht
      exact Option.some.inj ht ▸ h
    | cons c rest =>
      simp only [hb] at ht
      exact Option.some.inj ht ▸ h.accept hs hb
  | accepted c =>
    unfold State.processSubscriptions at ht
    simp only [hs] at ht
    split at ht
    · cases ht
    · rename_i hl
      exact Option.some.inj ht ▸ h.insert hs (eq_false_of_ne_true hl)
  | inserted c => exact h.reply hs ht

/-! ## the thread that reads requests -/

theorem within_erase {todo : List Nat} {sockets : Finset Nat} (hn : (c :: todo).Nodup)
    (hm : ∀ d ∈ c :: todo, d ∈ sockets) : todo.Nodup ∧ ∀ d ∈ todo, d ∈ sockets.erase c := by
  obtain ⟨hc, hn⟩ := List.nodup_cons.mp hn
  exact ⟨hn, fun d hd => Finset.mem_erase.mpr ⟨fun hdc => hc (hdc ▸ hd), hm d (List.mem_cons_of_mem _ hd)⟩⟩

/-- a request on connection `c` is read; what it does to the connection is seen in `t` -/
theorem Inv.read (h : s.Inv) {r : ObserverRequest} {rest : List ObserverRequest}
    (hq : (s.connection c).toNotifier = r :: rest)
    (hx : t.observer = s.observer) (hf : t.fresh = s.fresh) (hw : t.waiting = s.waiting)
    (hr : t.cancelResults = s.cancelResults) (htodo : t.requests.Within t.observerSockets t.pausedObserverSockets)
    (hne : ∀ d, d ≠ c → t.view d = s.view d) (hsound : (t.view c).Sound)
    (hready : (s.view c).Ready → (t.view c).Ready)
    (hset : ∀ o, (s.observer o).socket = some c → (s.observer o).call = .idle → (s.view c).Settled →
      (t.view c).Settled) : t.Inv := by
  have hnil : s.view c ≠ {} := fun hnil => by
    rw [show s.connection c = {} from congrArg View.connection hnil] at hq
    cases hq
  refine ⟨h.ends.notify hx hf hne (h.ends.lt_fresh hnil) hsound fun o ho => ?_,
    ⟨hw ▸ h.loops.waiting, htodo⟩, hr ▸ h.cancelResults⟩
  have hfit := h.ends.fits o
  cases hcall : (s.observer o).call with
  | idle =>
    obtain ⟨hsub, hs⟩ := hfit.settled hcall ho
    exact fits_settled hfit.1 hcall ho hsub (hset o ho hcall hs)
  | subscribing =>
    have hwait := (h.ends.sound c).of_request hq
    rcases hfit.pending hcall ho with hp | hp | hp
    · rw [hwait.1] at hp
      cases hp
    · rw [hwait.2] at hp
      cases hp
    · rw [show s.connection c = _ from hp.1] at hq
      cases hq
  | cancelling => exact fits_ready hfit.1 hcall ho (hready (hfit.ready hcall ho))

/-- the request is taken, and nothing is done -/
theorem Inv.ignore (h : s.Inv) {r : ObserverRequest} {rest : List ObserverRequest}
    (hq : (s.connection c).toNotifier = r :: rest)
    (hlast : ∀ o, (s.observer o).socket = some c → (s.observer o).call = .idle → (s.view c).Settled →
      rest = [] → (s.view c).observed = true) :
    (s.setConnection c { s.connection c with toNotifier := rest }).Inv := by
  have hsound := h.ends.sound c
  have hview : (s.setConnection c { s.connection c with toNotifier := rest }).view c = _ := view_setConnection _
  have hwait := hsound.of_request hq
  refine h.read hq rfl rfl rfl rfl h.loops.todo (fun d hd => view_setConnection_of_ne hd _) ?_ (fun hr => ?_)
    fun o ho hi hset => ?_
  · rw [hview]
    exact ⟨hsound.notShut, hsound.closed, hsound.apart, fun hc => absurd hc (ne_true_of_eq_false hwait.1),
      fun hc => absurd hc (ne_true_of_eq_false hwait.2)⟩
  · rw [hview]
    exact ⟨hr.notConnecting, hr.notInserted, hr.noReply⟩
  · rw [hview]
    exact ⟨⟨hset.notConnecting, hset.notInserted, hset.noReply⟩,
      hset.tail hq, hset.place, hlast o ho hi hset⟩

/-- the connection is closed, since the request was `CANCEL_SUBSCRIPTION` -/
theorem Inv.taken (h : s.Inv) {rest : List ObserverRequest}
    (hq : (s.connection c).toNotifier = .cancelSubscription :: rest)
    (hx : t.observer = s.observer) (hf : t.fresh = s.fresh) (hw : t.waiting = s.waiting)
    (hr : t.cancelResults = s.cancelResults) (htodo : t.requests.Within t.observerSockets t.pausedObserverSockets)
    (hne : ∀ d, d ≠ c → t.view d = s.view d)
    (hview : t.view c
      = { connection := { s.connection c with toNotifier := rest, closed := true, cancelled := true } }) : t.Inv := by
  have hsound := h.ends.sound c
  refine h.read hq hx hf hw hr htodo hne ?_ (fun hr => ?_) fun o ho hi hset => ?_
  · rw [hview]
    exact ⟨hsound.notShut, fun _ => ⟨rfl, rfl, rfl⟩, fun hc => Bool.noConfusion hc, fun hc => Bool.noConfusion hc,
      fun hc => Bool.noConfusion hc⟩
  · rw [hview]
    exact ⟨rfl, rfl, hr.noReply⟩
  · rcases hset.head hq with hr | hr
    · cases hr
    · cases hr

/-- the connection goes from one set to the other -/
theorem Inv.moved (h : s.Inv) {r : ObserverRequest} {rest : List ObserverRequest} (observed : Bool)
    (hq : (s.connection c).toNotifier = r :: rest) (hset : (s.view c).observed = true ∨ (s.view c).paused = true)
    (hx : t.observer = s.observer) (hf : t.fresh = s.fresh) (hw : t.waiting = s.waiting)
    (hr : t.cancelResults = s.cancelResults) (htodo : t.requests.Within t.observerSockets t.pausedObserverSockets)
    (hne : ∀ d, d ≠ c → t.view d = s.view d)
    (hview : t.view c
      = { connection := { s.connection c with toNotifier := rest }, observed := observed, paused := !observed })
    (hlast : ∀ o, (s.observer o).socket = some c → (s.observer o).call = .idle → rest = [] → observed = true) :
    t.Inv := by
  have hsound := h.ends.sound c
  have hclosed : (s.connection c).closed = false := hsound.not_closed hset
  refine h.read hq hx hf hw hr htodo hne ?_ (fun hr => ?_) fun o ho hi hset => ?_
  · rw [hview]
    refine ⟨hsound.notShut, fun hc => absurd hc (ne_true_of_eq_false hclosed), fun ho => ?_,
      fun hc => Bool.noConfusion hc, fun hc => Bool.noConfusion hc⟩
    show (!observed) = false
    rw [show observed = true from ho]
    rfl
  · rw [hview]
    exact ⟨rfl, rfl, hr.noReply⟩
  · rw [hview]
    refine ⟨⟨rfl, rfl, hset.noReply⟩, hset.tail hq, ?_, hlast o ho hi⟩
    cases observed with
    | true => exact .inl rfl
    | false => exact .inr rfl

/-- the loop goes on, or another one begins -/
theorem Inv.turn (h : s.Inv) {r : Requests} (hr : r.Within s.observerSockets s.pausedObserverSockets) :
    Inv { s with requests := r } :=
  ⟨⟨h.ends.fits, h.ends.inj, h.ends.below, h.ends.sound, h.ends.unused⟩, ⟨h.loops.waiting, hr⟩,
    h.cancelResults⟩

theorem Inv.observerRequest (h : s.Inv) {todo : List Nat} (hs : s.requests = .observers (c :: todo))
    (hk : ∀ o, (s.observer o).socket = some c → (s.observer o).call = .idle →
      (s.connection c).toNotifier ≠ [.pauseSubscription]) : (s.observerRequest c todo).Inv := by
  have hsound := h.ends.sound c
  have hwithin := h.loops.todo
  rw [hs] at hwithin
  obtain ⟨hn, hm⟩ := hwithin
  have hc : c ∈ s.observerSockets := hm c List.mem_cons_self
  have hobs : (s.view c).observed = true := decide_eq_true hc
  have hpaused : c ∉ s.pausedObserverSockets := of_decide_eq_false (hsound.apart hobs)
  unfold State.observerRequest
  dsimp only
  cases hq : (s.connection c).toNotifier with
  | nil =>
    rw [show (s.connection c).shut = false from hsound.notShut, if_neg Bool.false_ne_true]
    exact h.turn ⟨(List.nodup_cons.mp hn).2, fun d hd => hm d (List.mem_cons_of_mem _ hd)⟩
  | cons r rest =>
    obtain ⟨hcon, hins⟩ := hsound.of_request hq
    cases r with
    | subscribe => exact h.ignore hq fun _ _ _ _ _ => hobs
    | resumeSubscription => exact h.ignore hq fun _ _ _ _ _ => hobs
    | cancelSubscription =>
      refine h.taken hq rfl rfl rfl rfl (within_erase hn hm) (fun d hd => ?_) ?_
      · exact view_frame (Function.update_of_ne hd _ _) (Finset.mem_erase.trans (and_iff_right hd)) Iff.rfl rfl rfl
      · exact View.ext (Function.update_self _ _ _) (decide_eq_false (Finset.notMem_erase _ _))
          (decide_eq_false hpaused) hcon hins
    | pauseSubscription =>
      refine h.moved false hq (.inl hobs) rfl rfl rfl rfl (within_erase hn hm) (fun d hd => ?_) ?_
        fun o ho hi hnil => absurd (by rw [hq, hnil]) (hk o ho hi)
      · exact view_frame (Function.update_of_ne hd _ _) (Finset.mem_erase.trans (and_iff_right hd))
          (Finset.mem_insert.trans (or_iff_right hd)) rfl rfl
      · exact View.ext (Function.update_self _ _ _) (decide_eq_false (Finset.notMem_erase _ _))
          (decide_eq_true (Finset.mem_insert_self _ _)) hcon hins

theorem Inv.pausedRequest (h : s.Inv) {todo : List Nat} (hs : s.requests = .paused (c :: todo))
    (hk : ∀ o, (s.observer o).socket = some c → (s.observer o).call = .idle →
      (s.connection c).toNotifier ≠ [.pauseSubscription]) : (s.pausedRequest c todo).Inv := by
  have hsound := h.ends.sound c
  have hwithin := h.loops.todo
  rw [hs] at hwithin
  obtain ⟨hn, hm⟩ := hwithin
  have hc : c ∈ s.pausedObserverSockets := hm c List.mem_cons_self
  have hpaused : (s.view c).paused = true := decide_eq_true hc
  have hobs : c ∉ s.observerSockets := fun hmem => by
    rw [hsound.apart (decide_eq_true hmem)] at hpaused
    cases hpaused
  unfold State.pausedRequest
  dsimp only
  cases hq : (s.connection c).toNotifier with
  | nil =>
    rw [show (s.connection c).shut = false from hsound.notShut, if_neg Bool.false_ne_true]
    exact h.turn ⟨(List.nodup_cons.mp hn).2, fun d hd => hm d (List.mem_cons_of_mem _ hd)⟩
  | cons r rest =>
    obtain ⟨hcon, hins⟩ := hsound.of_request hq
    cases r with
    | subscribe =>
      refine h.ignore hq fun _ _ _ hset _ => ?_
      rcases hset.head hq with hr | hr
      · cases hr
      · cases hr
    | pauseSubscription => exact h.ignore hq fun o ho hi _ hnil => absurd (by rw [hq, hnil]) (hk o ho hi)
    | cancelSubscription =>
      refine h.taken hq rfl rfl rfl rfl (within_erase hn hm) (fun d hd => ?_) ?_
      · exact view_frame (Function.update_of_ne hd _ _) Iff.rfl (Finset.mem_erase.trans (and_iff_right hd)) rfl rfl
      · exact View.ext (Function.update_self _ _ _) (decide_eq_false hobs)
          (decide_eq_false (Finset.notMem_erase _ _)) hcon hins
    | resumeSubscription =>
      refine h.moved true hq (.inr hpaused) rfl rfl rfl rfl (within_erase hn hm) (fun d hd => ?_) ?_
        fun _ _ _ _ => rfl
      · exact view_frame (Function.update_of_ne hd _ _) (Finset.mem_insert.trans (or_iff_right hd))
          (Finset.mem_erase.trans (and_iff_right hd)) rfl rfl
      · exact View.ext (Function.update_self _ _ _) (decide_eq_true (Finset.mem_insert_self _ _))
          (decide_eq_false (Finset.notMem_erase _ _)) hcon hins

theorem enumerates_within {order : List Nat} {sockets : Finset Nat} (h : enumerates order sockets) :
    order.Nodup ∧ ∀ c ∈ order, c ∈ sockets :=
  ⟨h.1, fun _ hc => h.2 ▸ List.mem_toFinset.mpr hc⟩

theorem Inv.processObserverRequests (h : s.Inv) {order : List Nat}
    (hk : s.Keeps (.processObserverRequests order)) (ht : s.processObserverRequests order = some t) : t.Inv := by
  unfold State.processObserverRequests at ht
  cases hs : s.requests with
  | sleeping =>
    simp only [hs] at ht
    split at ht
    · rename_i ho
      exact Option.some.inj ht ▸ h.turn (enumerates_within ho)
    · cases ht
  | observers todo =>
    cases todo with
    | nil =>
      simp only [hs] at ht
      split at ht
      · rename_i ho
        exact Option.some.inj ht ▸ h.turn (enumerates_within ho)
      · cases ht
    | cons c todo =>
      simp only [hs] at ht
      exact Option.some.inj ht ▸ h.observerRequest hs fun o => hk c o (by rw [hs]; rfl)
  | paused todo =>
    cases todo with
    | nil =>
      simp only [hs] at ht
      exact Option.some.inj ht ▸ h.turn trivial
    | cons c todo =>
      simp only [hs] at ht
      exact Option.some.inj ht ▸ h.pausedRequest hs fun o => hk c o (by rw [hs]; rfl)

/-! ## runs -/

theorem inv_init : init.Inv where
  ends := {
    fits := fun _ => ⟨rfl, rfl⟩
    inj := fun _ _ _ h => by cases h
    below := fun _ _ h => by cases h
    sound := fun _ => ⟨rfl, fun h => Bool.noConfusion h, fun h => Bool.noConfusion h, fun h => Bool.noConfusion h,
      fun h => Bool.noConfusion h⟩
    unused := fun _ _ => rfl }
  loops := ⟨List.nodup_nil, trivial⟩
  cancelResults := rfl

theorem whenIdle_eq_some {u : State} : s.whenIdle o t = some u ↔ (s.observer o).call = .idle ∧ t = u := by
  unfold whenIdle
  split
  · rename_i hi
    exact ⟨fun h => ⟨hi, Option.some.inj h⟩, fun h => congrArg some h.2⟩
  · rename_i hi
    exact ⟨fun h => (by cases h), fun h => absurd h.1 hi⟩

theorem Inv.step (h : s.Inv) {a : Action} (hk : s.Keeps a) (ht : s.step a = some t) : t.Inv := by
  cases a with
  | subscribe o connected =>
    obtain ⟨-, rfl⟩ := whenIdle_eq_some.mp ht
    exact h.subscribe hk
  | cancelSubscription o =>
    obtain ⟨hi, rfl⟩ := whenIdle_eq_some.mp ht
    exact h.cancelSubscription hi
  | pauseSubscription o =>
    obtain ⟨hi, rfl⟩ := whenIdle_eq_some.mp ht
    exact h.request hi (.inl rfl)
  | resumeSubscription o =>
    obtain ⟨hi, rfl⟩ := whenIdle_eq_some.mp ht
    exact h.request hi (.inr rfl)
  | receive o garbage => exact h.receive hk ht
  | processSubscriptions => exact h.processSubscriptions ht
  | processObserverRequests order => exact h.processObserverRequests hk ht

/-- under the invariant an observer with nothing on its way is not paused, and is observed if it is subscribed -/
theorem Inv.agree (h : s.Inv) : s.Agree where
  paused o hq := by
    have hfit := h.ends.fits o
    rw [hfit.1]
    refine ⟨fun hf => Bool.noConfusion hf, fun ⟨c, hc, hm⟩ => ?_⟩
    have hobs := (hfit.settled hq.1 hc).2.last (hq.2 c hc).1
    rw [← (h.ends.sound c).apart hobs]
    exact decide_eq_true hm
  subscribed o hq := by
    have hfit := h.ends.fits o
    refine ⟨fun ⟨hsub, _⟩ => ?_, fun ⟨c, hc, _⟩ => ⟨(hfit.settled hq.1 hc).1, hfit.1⟩⟩
    obtain ⟨c, hc, hset⟩ := hfit.of_subscribed hq.1 hsub
    exact ⟨c, hc, of_decide_eq_true (hset.last (hq.2 c hc).1)⟩
  cancelled r hr := by
    rw [h.cancelResults] at hr
    cases hr

/-- a paused descriptor of an observer with nothing on its way: the observer does not know -/
theorem Agree.not_paused (h : t.Agree) (hq : t.quiet o) (hp : (t.observer o).subscriptionPaused = false)
    (hc : (t.observer o).socket = some c) : c ∉ t.pausedObserverSockets := fun hm => by
  have hpaused := (h.paused o hq).mpr ⟨c, hc, hm⟩
  rw [hp] at hpaused
  cases hpaused

theorem Inv.keeps_subscribe (h : s.Inv) {connected : Bool} (ht : (s.subscribe o connected).Agree) :
    s.Keeps (.subscribe o connected) := by
  have hfit := h.ends.fits o
  cases connected with
  | true => exact .inl rfl
  | false =>
    refine .inr (eq_false_of_ne_true fun hsub => ?_)
    rw [subscribe_failed hfit.1] at ht
    set u := s.finish o { s.observer o with socket := none } (.error .observerSetupFailed)
    have hu : u.observer o = { s.observer o with
        socket := none
        call := .idle
        returned := .error .observerSetupFailed } := Function.update_self _ _ _
    have hq : u.quiet o := ⟨by rw [hu], fun c hc => by rw [hu] at hc; cases hc⟩
    obtain ⟨c, hc, -⟩ := (ht.subscribed o hq).mp ⟨by rw [hu]; exact hsub, by rw [hu]; exact hfit.1⟩
    rw [hu] at hc
    cases hc

theorem Inv.keeps_receive (h : s.Inv) {garbage : Bool} (hst : s.receive o garbage = some t) (ht : t.Agree) :
    s.Keeps (.receive o garbage) := by
  intro hcall
  obtain ⟨c, hc, hst⟩ := Option.bind_eq_some_iff.mp hst
  have hready := (h.ends.fits o).ready hcall hc
  have hempty : (s.connection c).toObserver = [] := hready.noReply
  split at hst
  · cases hst
  rename_i hblock
  have hclosed : (s.connection c).closed = true := eq_true_of_ne_false fun hf => hblock ⟨hempty, hf⟩
  obtain ⟨-, -, hcancelled⟩ := (h.ends.sound c).closed hclosed
  have hcancelled : (s.connection c).cancelled = true := hcancelled
  rw [hcall] at hst
  obtain rfl := Option.some.inj hst
  have hres : (s.cancelReply o c garbage).cancelResults = .error .unknown :: s.cancelResults := by
    unfold cancelReply
    simp [hempty, hcancelled, State.finish, State.setObserver, State.setConnection]
  have hok := ht.cancelled (.error .unknown) (by rw [hres]; exact List.mem_cons_self)
  cases hok

theorem Inv.keeps_requests (h : s.Inv) {order : List Nat} (hst : s.processObserverRequests order = some t)
    (ht : t.Agree) : s.Keeps (.processObserverRequests order) := by
  intro c o hcur hc hi hq
  have hfit := h.ends.fits o
  have hset := (hfit.settled hi hc).2
  have hwithin := h.loops.todo
  -- either loop takes the request, and leaves the descriptor in the paused set
  have hleft : t.observer = s.observer ∧ t.connection c = { s.connection c with toNotifier := [] } ∧
      c ∈ t.pausedObserverSockets := by
    unfold State.processObserverRequests at hst
    cases hs : s.requests with
    | sleeping =>
      rw [hs] at hcur
      cases hcur
    | observers todo =>
      rw [hs] at hcur
      cases todo with
      | nil => cases hcur
      | cons d todo =>
        obtain rfl := Option.some.inj hcur
        simp only [hs] at hst
        obtain rfl := Option.some.inj hst
        unfold State.observerRequest
        simp only [hq]
        exact ⟨rfl, Function.update_self _ _ _, Finset.mem_insert_self _ _⟩
    | paused todo =>
      rw [hs] at hcur hwithin
      cases todo with
      | nil => cases hcur
      | cons d todo =>
        obtain rfl := Option.some.inj hcur
        simp only [hs] at hst
        obtain rfl := Option.some.inj hst
        unfold State.pausedRequest
        simp only [hq]
        exact ⟨rfl, Function.update_self _ _ _, hwithin.2 d List.mem_cons_self⟩
  obtain ⟨hobs, hconn, hm⟩ := hleft
  have hquiet : t.quiet o := by
    refine ⟨hobs ▸ hi, fun d hd => ?_⟩
    rw [hobs, hc] at hd
    obtain rfl := Option.some.inj hd
    rw [hconn]
    exact ⟨rfl, hset.noReply⟩
  exact ht.not_paused hquiet (by rw [hobs]; exact hfit.1) (by rw [hobs]; exact hc) hm

theorem Inv.keeps (h : s.Inv) {a : Action} (ht : t.Agree) (hst : s.step a = some t) : s.Keeps a := by
  cases a with
  | subscribe o connected =>
    obtain ⟨-, rfl⟩ := whenIdle_eq_some.mp hst
    exact h.keeps_subscribe ht
  | cancelSubscription o => exact trivial
  | pauseSubscription o => exact trivial
  | resumeSubscription o => exact trivial
  | receive o garbage => exact h.keeps_receive hst ht
  | processSubscriptions => exact trivial
  | processObserverRequests order => exact h.keeps_requests hst ht

/-- **Agreement of observers and notifier**: the flags of the observers and the sets of the notifier agree in all
states of a run, and every `cancel_subscription` that the notifier has taken succeeds, exactly when all steps
of the run are `Keeps`. -/
theorem agreement_iff (as : List Action) : Always State.step Agree init as ↔ Every State.step Keeps init as :=
  always_iff_every_of (Q := State.Inv) (fun _ h => h.agree) (fun _ _ _ h hk ht => h.step hk ht)
    (fun _ _ _ h ht hst => h.keeps ht hst) as inv_init

end

/-- observer 0 pauses, and observer 1 cancels -/
def pauseAndCancel : List Action :=
  [.subscribe 0 true, .subscribe 1 true, .processSubscriptions, .processSubscriptions, .processSubscriptions,
    .processSubscriptions, .processSubscriptions, .processSubscriptions, .receive 0 false, .receive 1 false,
    .pauseSubscription 0, .cancelSubscription 1, .processObserverRequests [0, 1], .processObserverRequests [],
    .processObserverRequests [], .receive 1 false]

/-- what the ends of connections 0 and 1 are left with -/
theorem pauseAndCancel_ends : (run State.step init pauseAndCancel).map (fun u =>
      ((u.observer 0, u.connection 0), (u.observer 1, u.connection 1),
        u.observerSockets, u.pausedObserverSockets, u.cancelResults))
    = some (({ socket := some 0, subscribed := true }, {}),
        ({ socket := some 1, subscribed := true, returned := .error .unknown }, { closed := true, cancelled := true }),
        ∅, {0}, [.error .unknown]) := by
  rfl

/-- the notifier has paused observer 0, which takes itself for not paused, and has taken the cancellation of
observer 1, which fails and leaves it subscribed -/
theorem pause_and_cancel_unnoticed : ∃ u, run State.step init pauseAndCancel = some u ∧
    (u.quiet 0 ∧ (u.observer 0).subscriptionPaused = false ∧ u.among u.pausedObserverSockets 0) ∧
    (u.quiet 1 ∧ (u.observer 1).subscribed = true ∧ ¬ u.among u.observerSockets 1) ∧
    u.cancelResults = [.error .unknown] ∧ ¬ u.Agree := by
  obtain ⟨u, hu, hends⟩ := Option.map_eq_some_iff.mp pauseAndCancel_ends
  simp only [Prod.mk.injEq] at hends
  obtain ⟨⟨ho0, hc0⟩, ⟨ho1, hc1⟩, hobs, hpaused, hres⟩ := hends
  have hsock0 : (u.observer 0).socket = some 0 := by rw [ho0]
  have hsock1 : (u.observer 1).socket = some 1 := by rw [ho1]
  refine ⟨u, hu, ⟨⟨by rw [ho0], fun c hc => ?_⟩, by rw [ho0], 0, hsock0, by rw [hpaused]; decide⟩,
    ⟨⟨by rw [ho1], fun c hc => ?_⟩, by rw [ho1], ?_⟩, hres, fun h => ?_⟩
  · obtain rfl := Option.some.inj (hsock0.symm.trans hc)
    rw [hc0]
    exact ⟨rfl, rfl⟩
  · obtain rfl := Option.some.inj (hsock1.symm.trans hc)
    rw [hc1]
    exact ⟨rfl, rfl⟩
  · rintro ⟨c, -, hm⟩
    rw [hobs] at hm
    exact absurd hm (Finset.notMem_empty c)
  · have hok := h.cancelled (.error .unknown) (by rw [hres]; exact List.mem_cons_self)
    cases hok

end State

end DomainSocket
end Ipcpp
