import Ipcpp.Lib.Counting
import Ipcpp.Lib.Runs
import Ipcpp.RealTime.Message

/-!
# Real-time publish/subscribe, one atomic step at a time

The processes of one topic (`Proc`) are its publishers, its subscribers and every `MessageWrapper`: a
wrapper may be dropped by another thread than the one that fetches, so its release runs on its own.  A
step of a process reads the shared memory and has one `Effect` on it:

    emplace value and id          Effect.emplace       store latest_published_idx   Effect.storeIdx
    fetch_add next_message_id     Effect.bumpId        reset value and id           Effect.reset
    fetch_add reference counter   Effect.fetchAdd      fetch_sub reference counter  Effect.fetchSub

`Proc.next` is the program of a process: from its program counter and a `Choice` to the next program
counter, the effect, and the wrapper that `fetch_message` returns.  `step` lets one process take one
step, or creates a publisher or a subscriber.

Ghost data (never read by the program): every emplace gets a serial number (`Publication.serial`),
`Shared.log` lists the serial numbers in the order of the stores to `latest_published_idx`, a
subscriber keeps the serial numbers it was returned, a wrapper the publication `fetch_message` saw.
-/

namespace Ipcpp
namespace RealTime
namespace Steps
open Function Counting

/-- a published value and the number of its emplace -/
structure Publication (α : Type) where
  value : α
  serial : Nat

/-- program counter of a publisher; `g` is the slot it publishes in -/
inductive PublisherPc (α : Type) where
  | idle
  | readId (v : α)
  | emplace (g : Nat) (v : α)
  | storeIdx (g n : Nat)
  | bumpId (g : Nat)
  | acquire (g : Nat)
  | release (g : Nat)
  | reset (g old : Nat)
  | closing (old : Nat)
  | gone

/-- program counter of a subscriber; `id` is the `next_message_id` it loaded, `g` the slot -/
inductive SubscriberPc (α : Type) where
  | idle
  | loadIdx (id : Nat)
  | acquire (id g : Nat)
  | check (id g : Nat)
  | takeAcquire (g : Nat) (pub : Publication α)
  | giveAcquire (g : Nat)
  | release (g : Nat)
  | reset (g : Nat)

inductive WrapperPc where
  | held
  | reset
  | giveBack
  | gone

/-- `publisher`: entry, `_prev_published_message`, `next_local_message_id`.  `subscriber`:
`_next_message_id`, serial numbers returned.  `wrapper`: its subscriber, its slot, what was fetched. -/
inductive Proc (α : Type) where
  | publisher (e : Nat) (prev : Option Nat) (n : Nat) (pc : PublisherPc α)
  | subscriber (nextId : Nat) (returned : List Nat) (pc : SubscriberPc α)
  | wrapper (owner g : Nat) (pub : Publication α) (pc : WrapperPc)

/-- what the processes share; `available k` is the acquire counter of the subscriber at position `k` -/
structure Shared (α : Type) where
  buffer : Nat → Message (Publication α)
  nextMessageId : Nat
  latestPublishedIdx : Nat
  available : Nat → Int
  serial : Nat
  log : List Nat

inductive Effect (α : Type) where
  | nothing
  | emplace (g : Nat) (v : α)
  | storeIdx (g n : Nat)
  | bumpId
  | fetchAdd (g : Nat)
  | fetchSub (g : Nat)
  | reset (g : Nat)
  | addAvailable (k : Nat) (d : Int)

/-- what the caller asks an idle process for; `go` continues a call -/
inductive Choice (α : Type) where
  | publish (v : α)
  | close
  | fetch
  | drop
  | go

section
variable {α : Type}

def Shared.apply (m : Shared α) : Effect α → Shared α
  | .nothing => m
  | .emplace g v =>
    { m with
      buffer := update m.buffer g ((m.buffer g).emplace g ⟨v, m.serial⟩)
      serial := m.serial + 1 }
  | .storeIdx g n => { m with latestPublishedIdx := g, log := m.log ++ [n] }
  | .bumpId => { m with nextMessageId := (m.nextMessageId + 1) % 2^64 }
  | .fetchAdd g => { m with buffer := update m.buffer g (m.buffer g).acquireUnsafe }
  | .fetchSub g => { m with buffer := update m.buffer g (m.buffer g).fetchSub }
  | .reset g => { m with buffer := update m.buffer g (m.buffer g).reset }
  | .addAvailable k d => { m with available := update m.available k (m.available k + d) }

/-- the `fetch_sub` of `Access::release`: `last` if it took the counter from one to zero and has to
reset, else `rest` -/
def afterFetchSub (m : Shared α) (g : Nat) (last rest : Proc α) :
    Option (Proc α × Effect α × Option (Proc α)) :=
  some (if (m.buffer g).activeReferenceCounter = 1 then last else rest, .fetchSub g, none)

/-- `RealTimePublisher::publish` and the destructor -/
def nextPublisher (L : Layout) (m : Shared α) (e : Nat) (prev : Option Nat) (n : Nat) :
    PublisherPc α → Choice α → Option (Proc α × Effect α × Option (Proc α))
  | .idle, .publish v => some (.publisher e prev n (.readId v), .nothing, none)
  | .idle, .close =>
    match prev with
    | none => some (.publisher e none n .gone, .nothing, none)
    | some i => afterFetchSub m i (.publisher e none n (.closing i)) (.publisher e none n .gone)
  | .closing i, .go => some (.publisher e none n .gone, .reset i, none)
  | .readId v, .go =>
    let g := L.slotIndex e n
    if (m.buffer g).messageId = invalidId then
      some (.publisher e prev ((n + 1) % 2^32) (.emplace g v), .nothing, none)
    else some (.publisher e prev ((n + 1) % 2^32) (.readId v), .nothing, none)
  | .emplace g v, .go => some (.publisher e prev n (.storeIdx g m.serial), .emplace g v, none)
  | .storeIdx g k, .go => some (.publisher e prev n (.bumpId g), .storeIdx g k, none)
  | .bumpId g, .go => some (.publisher e prev n (.acquire g), .bumpId, none)
  | .acquire g, .go =>
    -- the move assignment to `_prev_published_message` first releases what is kept
    match prev with
    | none => some (.publisher e (some g) n .idle, .fetchAdd g, none)
    | some i => some (.publisher e (some i) n (.release g), .fetchAdd g, none)
  | .release g, .go =>
    match prev with
    | none => none
    | some i => afterFetchSub m i (.publisher e none n (.reset g i)) (.publisher e (some g) n .idle)
  | .reset g old, .go => some (.publisher e (some g) n .idle, .reset old, none)
  | _, _ => none

/-- `RealTimeSubscriber::fetch_message` of the subscriber at position `k` -/
def nextSubscriber (m : Shared α) (k nextId : Nat) (returned : List Nat) :
    SubscriberPc α → Choice α → Option (Proc α × Effect α × Option (Proc α))
  | .idle, .fetch =>
    if m.nextMessageId ≠ nextId then
      some (.subscriber nextId returned (.loadIdx m.nextMessageId), .nothing, none)
    else some (.subscriber nextId returned .idle, .nothing, none)
  | .loadIdx id, .go =>
    some (.subscriber nextId returned (.acquire id (m.latestPublishedIdx % 2^32)), .nothing, none)
  | .acquire id g, .go => some (.subscriber nextId returned (.check id g), .fetchAdd g, none)
  | .check id g, .go =>
    match (m.buffer g).optValue with
    | some pub => some (.subscriber id returned (.takeAcquire g pub), .nothing, none)
    | none => some (.subscriber nextId returned (.release g), .nothing, none)
  | .takeAcquire g pub, .go =>
    if m.available k ≤ 0 then
      some (.subscriber nextId returned (.giveAcquire g), .addAvailable k (-1), none)
    else
      some (.subscriber nextId (returned ++ [pub.serial]) .idle, .addAvailable k (-1),
        some (.wrapper k g pub .held))
  | .giveAcquire g, .go => some (.subscriber nextId returned (.release g), .addAvailable k 1, none)
  | .release g, .go =>
    afterFetchSub m g (.subscriber nextId returned (.reset g)) (.subscriber nextId returned .idle)
  | .reset g, .go => some (.subscriber nextId returned .idle, .reset g, none)
  | _, _ => none

/-- `MessageWrapper::cleanup` -/
def nextWrapper (m : Shared α) (owner g : Nat) (pub : Publication α) :
    WrapperPc → Choice α → Option (Proc α × Effect α × Option (Proc α))
  | .held, .drop => afterFetchSub m g (.wrapper owner g pub .reset) (.wrapper owner g pub .giveBack)
  | .reset, .go => some (.wrapper owner g pub .giveBack, .reset g, none)
  | .giveBack, .go => some (.wrapper owner g pub .gone, .addAvailable owner 1, none)
  | _, _ => none

def Proc.next (L : Layout) (m : Shared α) (k : Nat) :
    Proc α → Choice α → Option (Proc α × Effect α × Option (Proc α))
  | .publisher e prev n pc => nextPublisher L m e prev n pc
  | .subscriber nextId returned pc => nextSubscriber m k nextId returned pc
  | .wrapper owner g pub pc => nextWrapper m owner g pub pc

/-! ## the system -/

structure State (α : Type) where
  shared : Shared α
  procs : List (Proc α)

def State.init (α : Type) : State α where
  shared :=
    { buffer := fun _ => {}
      nextMessageId := 2^64 - 1
      latestPublishedIdx := 2^64 - 1
      available := fun _ => 0
      serial := 0
      log := [] }
  procs := []

def Proc.entry : Proc α → Option Nat
  | .publisher _ _ _ .gone => none
  | .publisher e _ _ _ => some e
  | _ => none

inductive Action (α : Type) where
  | createPublisher (e : Nat)
  | createSubscriber
  | proc (k : Nat) (c : Choice α)

def step (L : Layout) (s : State α) : Action α → Option (State α)
  | .createPublisher e =>
    if e < L.maxPublishers ∧ hits Proc.entry s.procs e = 0 then
      some { s with procs := s.procs ++ [.publisher e none 0 .idle] }
    else none
  | .createSubscriber =>
    some
      { shared :=
          { s.shared with
            available := update s.shared.available s.procs.length L.maxConcurrentAcquires }
        procs := s.procs ++ [.subscriber s.shared.nextMessageId [] .idle] }
  | .proc k c =>
    match s.procs[k]? with
    | none => none
    | some q =>
      (q.next L s.shared k c).map fun r =>
        { shared := s.shared.apply r.2.1
          procs := s.procs.set k r.1 ++ r.2.2.toList }

theorem step_createPublisher_some {L : Layout} {s t : State α} {e : Nat}
    (h : step L s (.createPublisher e) = some t) :
    (e < L.maxPublishers ∧ hits Proc.entry s.procs e = 0) ∧
      t = { s with procs := s.procs ++ [.publisher e none 0 .idle] } := by
  unfold step at h
  rw [Option.ite_none_right_eq_some] at h
  exact ⟨h.1, (Option.some.inj h.2).symm⟩

theorem step_proc_some {L : Layout} {s t : State α} {k : Nat} {c : Choice α}
    (h : step L s (.proc k c) = some t) :
    ∃ q q' eff sp, s.procs[k]? = some q ∧ q.next L s.shared k c = some (q', eff, sp) ∧
      t = { shared := s.shared.apply eff, procs := s.procs.set k q' ++ sp.toList } := by
  change (match s.procs[k]? with
    | none => none
    | some q => _) = some t at h
  split at h
  · cases h
  · rename_i q hq
    obtain ⟨⟨q', eff, sp⟩, hr, rfl⟩ := Option.map_eq_some_iff.mp h
    exact ⟨q, q', eff, sp, hq, hr, rfl⟩

/-! ## every publisher writes in its own pool -/

/-- the slot a publisher has chosen and not yet announced -/
@[simp] def Proc.chosen : Proc α → Option Nat
  | .publisher _ _ _ (.emplace g _) => some g
  | .publisher _ _ _ (.storeIdx g _) => some g
  | _ => none

/-- the slot a publisher has chosen and will emplace in -/
@[simp] def Proc.emplacing : Proc α → Option Nat
  | .publisher _ _ _ (.emplace g _) => some g
  | _ => none

theorem chosen_of_emplacing {p : Proc α} {g : Nat} (h : p.emplacing = some g) : p.chosen = some g := by
  unfold Proc.emplacing at h
  split at h <;> cases h
  rfl

/-- no two live publishers have the same entry, and each chooses slots of its own pool -/
structure Entries (L : Layout) (s : State α) : Prop where
  entry_le : ∀ e, hits Proc.entry s.procs e ≤ 1
  entry_lt : ∀ p ∈ s.procs, ∀ e, p.entry = some e → e < L.maxPublishers
  chosen : ∀ p ∈ s.procs, ∀ g, p.chosen = some g → ∃ e n, p.entry = some e ∧ g = L.slotIndex e n

/-- what a step does to the entry and the chosen slot of the process -/
structure NextEntry (L : Layout) (q q' : Proc α) (sp : Option (Proc α)) : Prop where
  entry : ∀ e, q'.entry = some e → q.entry = some e
  chosen : ∀ g, q'.chosen = some g →
    (∃ e n, q'.entry = some e ∧ g = L.slotIndex e n) ∨ q.chosen = some g ∧ q'.entry = q.entry
  spawn : ∀ p, sp = some p → p.entry = none ∧ p.chosen = none

theorem afterFetchSub_some {m : Shared α} {g : Nat} {last rest q' : Proc α} {eff : Effect α}
    {sp : Option (Proc α)} (h : afterFetchSub m g last rest = some (q', eff, sp)) :
    eff = .fetchSub g ∧ sp = none ∧
      ((m.buffer g).activeReferenceCounter = 1 ∧ q' = last ∨
        (m.buffer g).activeReferenceCounter ≠ 1 ∧ q' = rest) := by
  unfold afterFetchSub at h
  obtain ⟨h1, h2⟩ := Prod.mk.inj (Option.some.inj h)
  obtain ⟨rfl, rfl⟩ := Prod.mk.inj h2
  refine ⟨rfl, rfl, ?_⟩
  by_cases hc : (m.buffer g).activeReferenceCounter = 1
  · exact .inl ⟨hc, by rw [← h1, if_pos hc]⟩
  · exact .inr ⟨hc, by rw [← h1, if_neg hc]⟩

theorem nextPublisher_entry {L : Layout} {m : Shared α} {e : Nat} {prev : Option Nat} {n : Nat}
    {pc : PublisherPc α} {c : Choice α} {q' : Proc α} {eff : Effect α} {sp : Option (Proc α)}
    (h : nextPublisher L m e prev n pc c = some (q', eff, sp)) :
    NextEntry L (.publisher e prev n pc) q' sp := by
  unfold nextPublisher at h
  split at h
  case h_2 =>
    split at h
    · cases h
      constructor <;> simp [Proc.entry]
    · obtain ⟨rfl, rfl, ⟨-, rfl⟩ | ⟨-, rfl⟩⟩ := afterFetchSub_some h <;>
        constructor <;> simp [Proc.entry]
  case h_4 =>
    simp only at h
    split at h <;> cases h <;> constructor <;> simp [Proc.entry]
  case h_8 => split at h <;> cases h <;> constructor <;> simp [Proc.entry]
  case h_9 =>
    split at h
    · cases h
    · obtain ⟨rfl, rfl, ⟨-, rfl⟩ | ⟨-, rfl⟩⟩ := afterFetchSub_some h <;>
        constructor <;> simp [Proc.entry]
  all_goals
    cases h
    try constructor <;> simp [Proc.entry]

theorem nextSubscriber_entry {L : Layout} {m : Shared α} {k nextId : Nat} {returned : List Nat}
    {pc : SubscriberPc α} {c : Choice α} {q' : Proc α} {eff : Effect α} {sp : Option (Proc α)}
    (h : nextSubscriber m k nextId returned pc c = some (q', eff, sp)) :
    NextEntry L (.subscriber nextId returned pc) q' sp := by
  unfold nextSubscriber at h
  split at h
  case h_1 => split at h <;> cases h <;> constructor <;> simp [Proc.entry]
  case h_4 => split at h <;> cases h <;> constructor <;> simp [Proc.entry]
  case h_5 => split at h <;> cases h <;> constructor <;> simp [Proc.entry]
  case h_7 =>
    obtain ⟨rfl, rfl, ⟨-, rfl⟩ | ⟨-, rfl⟩⟩ := afterFetchSub_some h <;>
      constructor <;> simp [Proc.entry]
  all_goals
    cases h
    try constructor <;> simp [Proc.entry]

theorem nextWrapper_entry {L : Layout} {m : Shared α} {owner g : Nat} {pub : Publication α}
    {pc : WrapperPc} {c : Choice α} {q' : Proc α} {eff : Effect α} {sp : Option (Proc α)}
    (h : nextWrapper m owner g pub pc c = some (q', eff, sp)) :
    NextEntry L (.wrapper owner g pub pc) q' sp := by
  unfold nextWrapper at h
  split at h
  case h_1 =>
    obtain ⟨rfl, rfl, ⟨-, rfl⟩ | ⟨-, rfl⟩⟩ := afterFetchSub_some h <;>
      constructor <;> simp [Proc.entry]
  all_goals
    cases h
    try constructor <;> simp [Proc.entry]

theorem next_entry {L : Layout} {m : Shared α} {k : Nat} {q : Proc α} {c : Choice α} {q' : Proc α}
    {eff : Effect α} {sp : Option (Proc α)} (h : q.next L m k c = some (q', eff, sp)) :
    NextEntry L q q' sp := by
  cases q with
  | publisher e prev n pc => exact nextPublisher_entry h
  | subscriber nextId returned pc => exact nextSubscriber_entry h
  | wrapper owner g pub pc => exact nextWrapper_entry h

theorem entries_init (L : Layout) : Entries L (State.init α) :=
  ⟨fun _ => Nat.zero_le _, nofun, nofun⟩

/-- two publishers never choose the same slot -/
theorem Entries.unique {L : Layout} {s : State α} (h : Entries L s) {j k : Nat} {p q : Proc α}
    (hj : s.procs[j]? = some p) (hk : s.procs[k]? = some q) {g : Nat} (hp : p.chosen = some g)
    (hq : q.chosen = some g) : j = k := by
  obtain ⟨e, n, hpe, hge⟩ := h.chosen p (List.mem_of_getElem? hj) g hp
  obtain ⟨f, n', hqf, hgf⟩ := h.chosen q (List.mem_of_getElem? hk) g hq
  have hlt := h.entry_lt p (List.mem_of_getElem? hj) e hpe
  have hlt' := h.entry_lt q (List.mem_of_getElem? hk) f hqf
  have hef : e = f := L.slotIndex_inj hlt hlt' (hge.symm.trans hgf)
  by_contra hne
  have htwo := two_le_hits Proc.entry hne hj hk hpe (hef ▸ hqf)
  have hone := h.entry_le e
  omega

theorem Entries.spawn {L : Layout} {s : State α} (h : Entries L s) (m : Shared α) {p : Proc α}
    (hent : ∀ e, p.entry = some e → e < L.maxPublishers ∧ hits Proc.entry s.procs e = 0)
    (hchosen : p.chosen = none) : Entries L { shared := m, procs := s.procs ++ [p] } where
  entry_le e := by
    rw [hits_append, hits_singleton]
    by_cases he : p.entry = some e
    · rw [(hent e he).2, hit, if_pos he]
    · rw [hit, if_neg he]
      exact h.entry_le e
  entry_lt r hr e he := by
    rcases List.mem_append.mp hr with hr | hr
    · exact h.entry_lt r hr e he
    · rw [List.mem_singleton.mp hr] at he
      exact (hent e he).1
  chosen r hr g hg := by
    rcases List.mem_append.mp hr with hr | hr
    · exact h.chosen r hr g hg
    · rw [List.mem_singleton.mp hr, hchosen] at hg
      cases hg

theorem Entries.next {L : Layout} {s : State α} (h : Entries L s) (m : Shared α) {k : Nat}
    {q q' : Proc α} {sp : Option (Proc α)} (hq : s.procs[k]? = some q) (hn : NextEntry L q q' sp) :
    Entries L { shared := m, procs := s.procs.set k q' ++ sp.toList } where
  entry_le e := by
    have h1 := hits_set Proc.entry hq q' e
    have h2 := h.entry_le e
    have h3 : hit q'.entry e ≤ hit q.entry e := by
      unfold hit
      by_cases he : q'.entry = some e
      · rw [if_pos he, if_pos (hn.entry e he)]
      · rw [if_neg he]
        exact Nat.zero_le _
    have h4 : hits Proc.entry sp.toList e = 0 := by
      rw [hits_eq_zero_iff]
      intro p hp
      rw [(hn.spawn p (Option.mem_toList.mp hp)).1]
      exact fun hc => by cases hc
    rw [hits_append]
    omega
  entry_lt p hp e he := by
    rcases List.mem_append.mp hp with hp | hp
    · rcases mem_set_cases hp with rfl | ⟨j, -, hj⟩
      · exact h.entry_lt q (List.mem_of_getElem? hq) e (hn.entry e he)
      · exact h.entry_lt p (List.mem_of_getElem? hj) e he
    · rw [(hn.spawn p (Option.mem_toList.mp hp)).1] at he
      cases he
  chosen p hp g hg := by
    rcases List.mem_append.mp hp with hp | hp
    · rcases mem_set_cases hp with rfl | ⟨j, -, hj⟩
      · rcases hn.chosen g hg with hown | ⟨hqg, hsame⟩
        · exact hown
        · rw [hsame]
          exact h.chosen q (List.mem_of_getElem? hq) g hqg
      · exact h.chosen p (List.mem_of_getElem? hj) g hg
    · rw [(hn.spawn p (Option.mem_toList.mp hp)).2] at hg
      cases hg

theorem Entries.step {L : Layout} {s t : State α} (h : Entries L s) (a : Action α)
    (ht : step L s a = some t) : Entries L t := by
  cases a with
  | createPublisher e =>
    obtain ⟨⟨he, hfree⟩, rfl⟩ := step_createPublisher_some ht
    refine h.spawn _ (fun f hf => ?_) rfl
    cases hf
    exact ⟨he, hfree⟩
  | createSubscriber =>
    cases ht
    exact h.spawn _ nofun rfl
  | proc k c =>
    obtain ⟨q, q', eff, sp, hq, hnext, rfl⟩ := step_proc_some ht
    exact h.next _ hq (next_entry hnext)

/-- the steps of a `publish` that finds its first slot free, up to the assignment of the access -/
def publishSteps (k v : Nat) : List (Action Nat) :=
  [.proc k (.publish v), .proc k .go, .proc k .go, .proc k .go, .proc k .go, .proc k .go]

/-- the steps of a `fetch_message` that returns a message, after the load of `next_message_id` -/
def fetchSteps (k : Nat) : List (Action Nat) :=
  [.proc k .go, .proc k .go, .proc k .go, .proc k .go]

end

end Steps
end RealTime
end Ipcpp
