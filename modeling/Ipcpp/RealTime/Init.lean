import Ipcpp.Lib.Counting
import Ipcpp.Lib.Runs
import Ipcpp.Numeric

/-!
# Initialisation of a real-time buffer

Any number of `RealTimeMessageBuffer::init_at` calls on the same memory, one step at a time: the checks
of size and capacity, the construction of the header in place, the first compare-exchange, one step for
every entry and message that is constructed, and the second compare-exchange.  `compare_exchange_weak`
may fail for no reason.

The word `initialization_state` that should keep a second initialiser out is a field of the header, and
every call constructs the header BEFORE its compare-exchange: the state is back at `uninitialized` by
then, whatever it was.  So two calls after each other both return a buffer (`initialized_twice`).  In a
run in which nobody starts to initialise, or constructs the header, when the state is not
`uninitialized` any more (`OnlyUninitialized`), at most one call returns a buffer, and a call that comes
late returns an error and writes nothing (`single_initialization`).
-/

namespace Ipcpp
namespace RealTime
namespace Init
open Counting

/-- `Options<Mode::RealTime>`; the fields are `uint_half_t` -/
structure Options where
  maxPublishers : UInt32 := 1
  maxSubscribers : UInt32 := 1
  maxConcurrentAcquires : UInt32 := 1

namespace Options
variable (o : Options)

/-- `per_publisher_pool_size`, computed in `uint_half_t` -/
def perPublisherPoolSize : Nat :=
  Numeric.ceilToPowerOfTwo 32
    ((o.maxSubscribers.toNat * o.maxConcurrentAcquires.toNat + 2) % 2^32)

/-- `message_buffer_size`: the product of two `uint_half_t` -/
def messageBufferSize : Nat := o.perPublisherPoolSize * o.maxPublishers.toNat % 2^32

end Options

/-! ## the memory -/

inductive InitializationState where
  | uninitialized
  | inInitialization
  | initialized
deriving DecidableEq

/-- `RealTimeInstanceData` -/
structure Header where
  nextMessageId : Nat
  latestPublishedIdx : Nat
  initializationState : InitializationState
  nextPublisherId : Nat
  nextSubscriberId : Nat
  options : Options

/-- the constructor of `RealTimeInstanceData` -/
def Header.new (o : Options) : Header := ⟨2^64 - 1, 2^64 - 1, .uninitialized, 0, 0, o⟩

/-- what stands behind the header, each as its default constructor leaves it -/
inductive Object where
  | publisherEntry
  | subscriberEntry
  | message
deriving DecidableEq

/-- `sizeof(RealTimeInstanceData)`, with a `hardware_destructive_interference_size` of 64 -/
def headerSize : Nat := 320

/-- `sizeof` of an object; `messageSize` is `sizeof(T_p)` -/
def Object.size (messageSize : Nat) : Object → Nat
  | .publisherEntry => 128
  | .subscriberEntry => 64
  | .message => messageSize

/-- the shared memory; `object a` is the object that was constructed at address `a` and still stands -/
structure Memory where
  header : Header
  object : Nat → Option Object

def Memory.zero : Memory := ⟨⟨0, 0, .uninitialized, 0, 0, ⟨0, 0, 0⟩⟩, fun _ => none⟩

/-- `construct_at`; what the object overlaps does not stand any more -/
def Memory.constructAt (messageSize : Nat) (m : Memory) (a : Nat) (x : Object) : Memory :=
  { m with
    object := fun b =>
      if b = a then some x
      else (m.object b).filter fun y =>
        decide (b + y.size messageSize ≤ a ∨ a + x.size messageSize ≤ b) }

/-- `required_size_bytes` -/
def requiredSizeBytes (messageSize : Nat) (o : Options) : Nat :=
  (headerSize + Object.publisherEntry.size messageSize * o.maxPublishers.toNat
    + Object.subscriberEntry.size messageSize * o.maxSubscribers.toNat
    + messageSize * o.perPublisherPoolSize * o.maxPublishers.toNat) % 2^64

/-- the objects of the three loops of `init_at`, with their addresses, in order -/
def objects (messageSize : Nat) (o : Options) : List (Nat × Object) :=
  let publishers := headerSize
  let subscribers := publishers + 128 * o.maxPublishers.toNat
  let buffer := subscribers + 64 * o.maxSubscribers.toNat
  (List.range o.maxPublishers.toNat).map (fun i => (publishers + 128 * i, Object.publisherEntry)) ++
    (List.range o.maxSubscribers.toNat).map (fun i => (subscribers + 64 * i, .subscriberEntry)) ++
    (List.range o.messageBufferSize).map fun i => (buffer + messageSize * i, .message)

/-! ## calls of `init_at` -/

inductive Pc where
  | constructHeader
  | exchange
  | construct (todo : List (Nat × Object))
  | returned (buffer : Bool)

/-- one call: its options, and (never read by the program) the state it found when it started and how
many of its steps wrote to the memory -/
structure Call where
  options : Options
  startedIn : InitializationState
  writes : Nat
  pc : Pc

structure State where
  memory : Memory
  calls : List Call

def State.init : State := ⟨Memory.zero, []⟩

inductive Action where
  | start (sizeBytes : Nat) (o : Options)
  | go (k : Nat) (spurious : Bool)

def Accepts (messageSize sizeBytes : Nat) (o : Options) : Prop :=
  ¬ sizeBytes < requiredSizeBytes messageSize o ∧ ¬ o.messageBufferSize > 2^32 - 1

instance (messageSize sizeBytes : Nat) (o : Options) : Decidable (Accepts messageSize sizeBytes o) :=
  inferInstanceAs (Decidable (_ ∧ _))

/-- `compare_exchange_weak` on `initialization_state`: `none` if it fails -/
def exchange (m : Memory) (old new : InitializationState) (spurious : Bool) : Option Memory :=
  if m.header.initializationState = old ∧ spurious = false then
    some { m with header := { m.header with initializationState := new } }
  else none

def Call.next (messageSize : Nat) (m : Memory) (c : Call) (spurious : Bool) : Option (Memory × Call) :=
  match c.pc with
  | .constructHeader =>
    some ({ m with header := Header.new c.options }, { c with pc := .exchange, writes := c.writes + 1 })
  | .exchange =>
    match exchange m .uninitialized .inInitialization spurious with
    | some m' =>
      some (m', { c with pc := .construct (objects messageSize c.options), writes := c.writes + 1 })
    | none => some (m, { c with pc := .returned false })
  | .construct (x :: todo) =>
    some (m.constructAt messageSize x.1 x.2, { c with pc := .construct todo, writes := c.writes + 1 })
  | .construct [] =>
    match exchange m .inInitialization .initialized spurious with
    | some m' => some (m', { c with pc := .returned true, writes := c.writes + 1 })
    | none => some (m, { c with pc := .returned false })
  | .returned _ => none

def step (messageSize : Nat) (s : State) : Action → Option State
  | .start sizeBytes o =>
    let pc := if Accepts messageSize sizeBytes o then Pc.constructHeader else .returned false
    some { s with calls := s.calls ++ [⟨o, s.memory.header.initializationState, 0, pc⟩] }
  | .go k spurious =>
    match s.calls[k]? with
    | none => none
    | some c =>
      (c.next messageSize s.memory spurious).map fun r => ⟨r.1, s.calls.set k r.2⟩

theorem step_go_some {messageSize : Nat} {s t : State} {k : Nat} {spurious : Bool}
    (h : step messageSize s (.go k spurious) = some t) :
    ∃ c m c', s.calls[k]? = some c ∧ c.next messageSize s.memory spurious = some (m, c') ∧
      t = ⟨m, s.calls.set k c'⟩ := by
  change (match s.calls[k]? with
    | none => none
    | some c => _) = some t at h
  split at h
  · cases h
  · rename_i c hc
    obtain ⟨⟨m, c'⟩, hr, rfl⟩ := Option.map_eq_some_iff.mp h
    exact ⟨c, m, c', hc, hr, rfl⟩

/-! ## who initialises -/

/-- the call has won the first compare-exchange and not failed since -/
def Call.owns (c : Call) : Bool :=
  match c.pc with
  | .construct _ => true
  | .returned buffer => buffer
  | _ => false

def Call.returnedBuffer (c : Call) : Bool :=
  match c.pc with
  | .returned buffer => buffer
  | _ => false

/-- a call that starts when the buffer is in initialisation or initialised -/
def Call.late (c : Call) : Prop := c.startedIn ≠ .uninitialized

/-- nobody starts to initialise, or constructs the header, once the state has left `uninitialized` -/
def OnlyUninitialized (messageSize : Nat) (s : State) : Action → Prop
  | .start sizeBytes o => Accepts messageSize sizeBytes o →
    s.memory.header.initializationState = .uninitialized
  | .go k _ => ∀ c ∈ s.calls[k]?, c.pc matches .constructHeader →
    s.memory.header.initializationState = .uninitialized

instance (messageSize : Nat) (s : State) : (a : Action) → Decidable (OnlyUninitialized messageSize s a)
  | .start _ _ => inferInstanceAs (Decidable (_ → _))
  | .go k _ => inferInstanceAs (Decidable (∀ c ∈ s.calls[k]?, _ → _))

/-- at most one call returned a buffer, and late calls return an error and write nothing -/
def SingleInit (s : State) : Prop :=
  s.calls.countP Call.returnedBuffer ≤ 1 ∧
    ∀ c ∈ s.calls, c.late → c.pc = .returned false ∧ c.writes = 0

structure Inv (s : State) : Prop where
  one : s.calls.countP Call.owns ≤ 1
  none : s.memory.header.initializationState = .uninitialized → s.calls.countP Call.owns = 0
  late : ∀ c ∈ s.calls, c.late → c.pc = .returned false ∧ c.writes = 0

theorem inv_init : Inv State.init := ⟨Nat.zero_le _, fun _ => rfl, nofun⟩

theorem Inv.singleInit {s : State} (h : Inv s) : SingleInit s := by
  refine ⟨le_trans (List.countP_mono_left fun c _ hc => ?_) h.one, h.late⟩
  unfold Call.returnedBuffer at hc
  unfold Call.owns
  split at hc
  · rename_i hpc
    rw [hpc]
    exact hc
  · cases hc

/-- what a step does to the state word and to the ownership of the call -/
theorem next_owns {messageSize : Nat} {m m' : Memory} {c c' : Call} {spurious : Bool}
    (h : c.next messageSize m spurious = some (m', c'))
    (hC : c.pc matches .constructHeader → m.header.initializationState = .uninitialized) :
    (m'.header.initializationState = m.header.initializationState ∧ (c'.owns = true → c.owns = true)) ∨
      (m.header.initializationState = .uninitialized ∧ m'.header.initializationState ≠ .uninitialized ∧
        c.owns = false) ∨
      (m'.header.initializationState ≠ .uninitialized ∧ c.owns = true) := by
  obtain ⟨o, st, w, pc⟩ := c
  cases pc with
  | constructHeader =>
    cases h
    exact .inl ⟨(hC rfl).symm, nofun⟩
  | exchange =>
    simp only [Call.next, exchange] at h
    split at h
    · rename_i hex
      simp only [Option.ite_none_right_eq_some, Option.some.injEq] at hex
      obtain ⟨⟨hst, -⟩, rfl⟩ := hex
      cases h
      exact .inr (.inl ⟨hst, nofun, rfl⟩)
    · cases h
      exact .inl ⟨rfl, nofun⟩
  | construct todo =>
    cases todo with
    | cons x todo =>
      cases h
      exact .inl ⟨rfl, fun _ => rfl⟩
    | nil =>
      simp only [Call.next, exchange] at h
      split at h
      · rename_i hex
        simp only [Option.ite_none_right_eq_some, Option.some.injEq] at hex
        obtain ⟨-, rfl⟩ := hex
        cases h
        exact .inr (.inr ⟨nofun, rfl⟩)
      · cases h
        exact .inl ⟨rfl, nofun⟩
  | returned buffer => cases h

theorem next_startedIn {messageSize : Nat} {m m' : Memory} {c c' : Call} {spurious : Bool}
    (h : c.next messageSize m spurious = some (m', c')) :
    c'.startedIn = c.startedIn ∧ c.pc ≠ .returned false := by
  unfold Call.next at h
  split at h
  case h_5 => cases h
  all_goals
    rename_i hpc
    refine ⟨?_, by rw [hpc]; exact nofun⟩
    try split at h
    all_goals
      cases h
      rfl

theorem Inv.step {messageSize : Nat} {s t : State} (h : Inv s) (a : Action)
    (hC : OnlyUninitialized messageSize s a) (ht : step messageSize s a = some t) : Inv t := by
  cases a with
  | start sizeBytes o =>
    cases ht
    have hnew : ∀ b, Call.owns ⟨o, s.memory.header.initializationState, b,
        if Accepts messageSize sizeBytes o then Pc.constructHeader else .returned false⟩ = false := by
      intro b
      split <;> rfl
    refine ⟨?_, ?_, ?_⟩
    · simpa [List.countP_append, hnew] using h.one
    · intro hst
      simpa [List.countP_append, hnew] using h.none hst
    · intro c hc hlate
      rcases List.mem_append.mp hc with hc | hc
      · exact h.late c hc hlate
      · rw [List.mem_singleton.mp hc] at hlate ⊢
        have hno : ¬ Accepts messageSize sizeBytes o := fun hacc => hlate (hC hacc)
        exact ⟨if_neg hno, rfl⟩
  | go k spurious =>
    obtain ⟨c, m, c', hc, hnext, rfl⟩ := step_go_some ht
    have hcount := countP_set Call.owns hc c'
    have hone := h.one
    have howns := next_owns hnext (hC c hc)
    refine ⟨?_, ?_, ?_⟩
    · show (s.calls.set k c').countP Call.owns ≤ 1
      rcases howns with ⟨-, hkeep⟩ | ⟨hun, -, hno⟩ | ⟨-, hyes⟩
      · by_cases hc' : c'.owns = true
        · rw [if_pos hc', if_pos (hkeep hc')] at hcount
          omega
        · rw [if_neg hc'] at hcount
          omega
      · have hzero := h.none hun
        rw [if_neg (by rw [hno]; exact Bool.false_ne_true)] at hcount
        split at hcount <;> omega
      · rw [if_pos hyes] at hcount
        split at hcount <;> omega
    · intro hst
      show (s.calls.set k c').countP Call.owns = 0
      rcases howns with ⟨hsame, hkeep⟩ | ⟨-, hne, -⟩ | ⟨hne, -⟩
      · have hzero := h.none (hsame ▸ hst)
        by_cases hc' : c'.owns = true
        · rw [if_pos hc', if_pos (hkeep hc')] at hcount
          omega
        · rw [if_neg hc'] at hcount
          omega
      · exact absurd hst hne
      · exact absurd hst hne
    · intro d hd hlate
      rcases mem_set_cases hd with rfl | ⟨j, -, hj⟩
      · obtain ⟨hsame, hpc⟩ := next_startedIn hnext
        refine absurd (h.late c (List.mem_of_getElem? hc) ?_).1 hpc
        unfold Call.late
        rw [← hsame]
        exact hlate
      · exact h.late d (List.mem_of_getElem? hj) hlate

/-- **At most one call returns a buffer, and a call that comes late returns an error and writes nothing**,
for any number of calls with any options and any interleaving, if nobody starts to initialise or
constructs the header once the state has left `uninitialized`. -/
theorem single_initialization (messageSize : Nat) (as : List Action)
    (hC : Runs.Every (step messageSize) (OnlyUninitialized messageSize) State.init as) (s : State)
    (h : Runs.run (step messageSize) State.init as = some s) : SingleInit s := by
  have hinv : Inv s :=
    Runs.run_inv_of_every (fun _ a _ hs hCa ht => hs.step a hCa ht) as inv_init hC h
  exact hinv.singleInit

/-- a whole call with the default options: header, exchange, two entries, four messages, exchange -/
def initAt (k : Nat) : List Action :=
  .start 2000 {} :: List.replicate 9 (.go k false)

/-- both calls pass the checks and construct the header, one wins; then a call with too little memory -/
def raceActions : List Action :=
  [.start 2000 {}, .start 2000 {}, .go 0 false, .go 1 false, .go 0 false, .go 1 false] ++
    List.replicate 7 (.go 0 false) ++ [.start 100 {}]

theorem single_initialization_example :
    ∃ s, Runs.run (step 192) State.init raceActions = some s ∧
      s.calls.countP Call.returnedBuffer = 1 ∧ SingleInit s := by
  refine ⟨_, rfl, by decide +kernel, ?_⟩
  exact single_initialization 192 raceActions (by decide +kernel) _ rfl

/-- two calls one after the other -/
theorem initialized_twice :
    ∃ s, Runs.run (step 192) State.init (initAt 0 ++ initAt 1) = some s ∧
      s.calls.countP Call.returnedBuffer = 2 ∧ ¬ SingleInit s := by
  refine ⟨_, rfl, by decide +kernel, fun h => ?_⟩
  exact absurd h.1 (by decide +kernel)

end Init
end RealTime
end Ipcpp
