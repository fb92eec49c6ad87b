import Mathlib
import Ipcpp.Lib.Runs

/-!
# A message of the FIFO queue, call by call

`ps::Message` is one element of the queue: an optional value with its id, a reader-writer lock, and two
counters.  `emplace(n, id, v)` stores a value for `n` readers (`_remaining_references`); a reader that comes
increments `_active_reference_counter`, and is refused if that was not below `_remaining_references`.

`consume` increments the counter BEFORE it can still refuse, and neither refusal takes that back.
`reads_counted`: between whole calls the counter is the number of live read accesses, and exactly `n`
calls of `consume` succeed after each `emplace(n, ..)`, as long as no call of `consume` that finds a value is
refused; and not longer.

The counters are integers: a count of live objects does not come near `2^63`.
-/

namespace Ipcpp
namespace Fifo
open Runs

/-- a `std::size_t` as a `std::int64_t` -/
def toInt64 (n : Nat) : Int := Int.bmod n (2^64)

/-- `ps::Message`; `mutex` is the word of its `shared_mutex` -/
structure Message (α : Type) where
  mutex : Int := 0
  optValue : Option α := none
  messageId : Nat := 2^64 - 1
  remainingReferences : Int := 0
  initialReferences : Int := 0
  activeReferenceCounter : Int := 0

namespace Message
variable {α : Type} (m : Message α)

/-- `_mutex.try_lock_shared(retries)` as one step.  No other thread acts meanwhile, so the first round
decides, unless the weak compare-exchange fails for no reason in every round (`spurious`). -/
def tryLockShared (spurious : Bool) : Option (Message α) :=
  if m.mutex = -1 ∨ spurious then none else some { m with mutex := m.mutex + 1 }

/-- `consume`: the message afterwards, and whether it has returned an access -/
def consume (spurious : Bool) : Message α × Bool :=
  if m.optValue.isNone then
    (m, false)
  else
    let m' := { m with activeReferenceCounter := m.activeReferenceCounter + 1 }
    if m.activeReferenceCounter ≥ m.remainingReferences then
      (m', false)
    else
      match m'.tryLockShared spurious with
      | none => (m', false)
      | some m'' => (m'', true)

/-- `request_writable` -/
def requestWritable (spurious : Bool) : Option (Message α) :=
  if m.mutex = 0 ∧ spurious = false then some { m with mutex := -1 } else none

/-- `Access<WRITE>::emplace` -/
def emplace (remainingReferences : Int) (messageId : Nat) (v : α) : Message α :=
  { m with
    remainingReferences := remainingReferences
    initialReferences := remainingReferences
    optValue := some v
    messageId := messageId }

/-- the destructor of `Access<WRITE>` -/
def releaseWrite : Message α := { m with mutex := 0 }

/-- the destructor of `Access<READ>` -/
def releaseRead : Message α :=
  { m with
    remainingReferences := m.remainingReferences - 1
    optValue := if m.remainingReferences = 1 then none else m.optValue
    mutex := m.mutex - 1
    activeReferenceCounter := m.activeReferenceCounter - 1 }

end Message

/-! ## histories of one message -/

structure History (α : Type) where
  message : Message α
  /-- a live `Access<WRITE>` -/
  writing : Bool
  /-- live `Access<READ>` objects -/
  readers : Nat
  /-- the `n` of the last `emplace(n, ..)`, and how many calls of `consume` have succeeded since -/
  granted : Int
  admitted : Nat

namespace History
variable {α : Type}

def start : History α := ⟨{}, false, 0, 0, 0⟩

inductive Call (α : Type) where
  | requestWritable (spurious : Bool)
  | emplace (n : Int) (id : Nat) (v : α)
  | releaseWrite
  | consume (spurious : Bool)
  | releaseRead

variable (s : History α)

/-- `request_writable`: refused, it changes nothing -/
def requestWritable (spurious : Bool) : History α :=
  match s.message.requestWritable spurious with
  | some m => { s with message := m, writing := true }
  | none => s

def consume (spurious : Bool) : History α :=
  match s.message.consume spurious with
  | (m, true) => { s with message := m, readers := s.readers + 1, admitted := s.admitted + 1 }
  | (m, false) => { s with message := m }

def step (s : History α) : Call α → Option (History α)
  | .requestWritable spurious => some (s.requestWritable spurious)
  | .emplace n id v =>
    if s.writing then some { s with message := s.message.emplace n id v, granted := n, admitted := 0 }
    else none
  | .releaseWrite =>
    if s.writing then some { s with message := s.message.releaseWrite, writing := false } else none
  | .consume spurious => some (s.consume spurious)
  | .releaseRead =>
    if 0 < s.readers then some { s with message := s.message.releaseRead, readers := s.readers - 1 }
    else none

/-- the next call of `consume` succeeds -/
def Accepts : Prop := (s.message.consume false).2 = true

/-- the counter is the number of live read accesses, and while nobody writes, `consume` succeeds exactly
if fewer than `n` calls have succeeded since `emplace(n, ..)` -/
def Counted : Prop :=
  s.message.activeReferenceCounter = s.readers ∧
    (s.writing = false → (s.Accepts ↔ (s.admitted : Int) < s.granted))

/-- a call of `consume` finds no value, or fewer active than remaining references and a lock that it can
take -/
def NotRefused : Call α → Prop
  | .consume spurious => s.message.optValue.isNone ∨
      (s.message.activeReferenceCounter < s.message.remainingReferences ∧ s.message.mutex ≠ -1 ∧
        spurious = false)
  | _ => True

instance : DecidablePred (@Counted α) := fun s =>
  haveI : Decidable s.Accepts := inferInstanceAs (Decidable (_ = true))
  inferInstanceAs (Decidable (_ ∧ _))

structure Inv : Prop where
  active : s.message.activeReferenceCounter = s.readers
  mutex : s.writing = true ∧ s.message.mutex = -1 ∧ s.readers = 0 ∨
    s.writing = false ∧ s.message.mutex = s.readers
  /-- every read access that was given back took one remaining reference -/
  remaining : s.message.remainingReferences = s.granted - s.admitted + s.readers
  admitted : s.readers ≤ s.admitted
  /-- the value stays until the last of the granted accesses is given back -/
  value : (s.admitted : Int) < s.granted → s.message.optValue.isSome

end History

/-! ## `consume` -/

namespace Message
variable {α : Type} {m : Message α}

theorem consume_none (h : m.optValue.isNone) (spurious : Bool) : m.consume spurious = (m, false) :=
  if_pos h

theorem consume_accepted (hv : m.optValue.isSome)
    (hlt : m.activeReferenceCounter < m.remainingReferences) (hm : m.mutex ≠ -1) :
    m.consume false = ({ m with
      activeReferenceCounter := m.activeReferenceCounter + 1, mutex := m.mutex + 1 }, true) := by
  have hlock : ({ m with activeReferenceCounter := m.activeReferenceCounter + 1 } : Message α).tryLockShared
      false = some { m with
        activeReferenceCounter := m.activeReferenceCounter + 1, mutex := m.mutex + 1 } :=
    if_neg (by simpa using hm)
  unfold consume
  rw [if_neg (by simp [Option.isSome_iff_ne_none.mp hv])]
  dsimp only
  rw [if_neg (Int.not_le.mpr hlt), hlock]

/-- a refusal in spite of a value has incremented the counter all the same -/
theorem consume_refused (hv : m.optValue.isSome) {spurious : Bool}
    (h : m.remainingReferences ≤ m.activeReferenceCounter ∨ m.mutex = -1 ∨ spurious = true) :
    m.consume spurious = ({ m with activeReferenceCounter := m.activeReferenceCounter + 1 }, false) := by
  unfold consume
  rw [if_neg (by simp [Option.isSome_iff_ne_none.mp hv])]
  dsimp only
  by_cases hge : m.activeReferenceCounter ≥ m.remainingReferences
  · rw [if_pos hge]
  · have hlock : ({ m with activeReferenceCounter := m.activeReferenceCounter + 1 } : Message α).tryLockShared
        spurious = none := if_pos (h.resolve_left hge)
    rw [if_neg hge, hlock]

end Message

namespace History
variable {α : Type} {s t : History α}

theorem start_inv : (start : History α).Inv :=
  ⟨rfl, .inr ⟨rfl, rfl⟩, rfl, Nat.le_refl 0, fun h => absurd h (Int.lt_irrefl 0)⟩

theorem Inv.counted (h : s.Inv) : s.Counted := by
  refine ⟨h.active, fun hw => ?_⟩
  have hmutex : s.message.mutex = s.readers := by
    rcases h.mutex with ⟨hw', -⟩ | ⟨-, hm⟩
    · rw [hw] at hw'
      cases hw'
    · exact hm
  have hactive := h.active
  have hrem := h.remaining
  constructor
  · intro hacc
    by_contra hge
    by_cases hv : s.message.optValue.isSome
    · have hrefused : s.message.consume false = _ := Message.consume_refused hv (.inl (by omega))
      unfold Accepts at hacc
      rw [hrefused] at hacc
      cases hacc
    · have hnone := Message.consume_none (m := s.message) (by simpa using hv) false
      unfold Accepts at hacc
      rw [hnone] at hacc
      cases hacc
  · intro hlt
    unfold Accepts
    rw [Message.consume_accepted (h.value hlt) (by omega) (by omega)]

theorem Inv.requestWritable (h : s.Inv) (spurious : Bool) : (s.requestWritable spurious).Inv := by
  unfold History.requestWritable Message.requestWritable
  by_cases hfree : s.message.mutex = 0 ∧ spurious = false
  · rw [if_pos hfree]
    have hmutex := h.mutex
    have hzero : s.readers = 0 := by omega
    exact ⟨h.active, .inl ⟨rfl, rfl, hzero⟩, h.remaining, h.admitted, h.value⟩
  · rw [if_neg hfree]
    exact h

theorem Inv.consume (h : s.Inv) {spurious : Bool} (hC : s.NotRefused (.consume spurious)) :
    (s.consume spurious).Inv := by
  unfold History.consume
  by_cases hv : s.message.optValue.isNone
  · rw [Message.consume_none hv]
    exact h
  · obtain ⟨hlt, hm, rfl⟩ := hC.resolve_left hv
    have hsome : s.message.optValue.isSome := by simpa [Option.isSome_iff_ne_none] using hv
    rw [Message.consume_accepted hsome hlt hm]
    have hactive := h.active
    have hmutex := h.mutex
    have hrem := h.remaining
    have hadm := h.admitted
    refine ⟨?_, ?_, ?_, ?_, fun _ => hsome⟩
    · show s.message.activeReferenceCounter + 1 = ((s.readers + 1 : Nat) : Int)
      omega
    · refine .inr ⟨by simpa [hm] using hmutex.resolve_left (fun hw => hm hw.2.1) |>.1, ?_⟩
      show s.message.mutex + 1 = ((s.readers + 1 : Nat) : Int)
      omega
    · show s.message.remainingReferences = s.granted - (s.admitted + 1 : Nat) + (s.readers + 1 : Nat)
      omega
    · show s.readers + 1 ≤ s.admitted + 1
      omega

theorem Inv.releaseRead (h : s.Inv) (hpos : 0 < s.readers) :
    ({ s with message := s.message.releaseRead, readers := s.readers - 1 } : History α).Inv := by
  have hactive := h.active
  have hmutex := h.mutex
  have hrem := h.remaining
  have hadm := h.admitted
  refine ⟨?_, ?_, ?_, ?_, fun hlt => ?_⟩
  · show s.message.activeReferenceCounter - 1 = ((s.readers - 1 : Nat) : Int)
    omega
  · obtain ⟨hw, hm⟩ := hmutex.resolve_left (by omega)
    refine .inr ⟨hw, ?_⟩
    show s.message.mutex - 1 = ((s.readers - 1 : Nat) : Int)
    omega
  · show s.message.remainingReferences - 1 = s.granted - s.admitted + (s.readers - 1 : Nat)
    omega
  · show s.readers - 1 ≤ s.admitted
    omega
  · have hlt' : (s.admitted : Int) < s.granted := hlt
    show (if s.message.remainingReferences = 1 then none else s.message.optValue).isSome
    rw [if_neg (by omega)]
    exact h.value hlt'

theorem Inv.no_readers (h : s.Inv) (hw : s.writing = true) : s.readers = 0 := by
  rcases h.mutex with ⟨-, -, hr⟩ | ⟨hw', -⟩
  · exact hr
  · rw [hw'] at hw
    cases hw

/-- **One call** keeps the invariant, if `consume` does not refuse a value. -/
theorem Inv.step (h : s.Inv) {c : Call α} (hC : s.NotRefused c) (ht : s.step c = some t) : t.Inv := by
  cases c with
  | requestWritable spurious => exact Option.some.inj ht ▸ h.requestWritable spurious
  | consume spurious => exact Option.some.inj ht ▸ h.consume hC
  | emplace n id v =>
    have ht' : (if s.writing then some ({ s with
        message := s.message.emplace n id v, granted := n, admitted := 0 } : History α) else none)
        = some t := ht
    split at ht'
    · have hzero : s.readers = 0 := h.no_readers ‹_›
      rw [← Option.some.inj ht']
      refine ⟨h.active, h.mutex, ?_, Nat.le_of_eq hzero, fun _ => rfl⟩
      show n = n - (0 : Nat) + (s.readers : Nat)
      omega
    · cases ht'
  | releaseWrite =>
    have ht' : (if s.writing then some ({ s with
        message := s.message.releaseWrite, writing := false } : History α) else none) = some t := ht
    split at ht'
    · have hzero : s.readers = 0 := h.no_readers ‹_›
      rw [← Option.some.inj ht']
      refine ⟨h.active, .inr ⟨rfl, ?_⟩, h.remaining, h.admitted, h.value⟩
      show (0 : Int) = (s.readers : Nat)
      omega
    · cases ht'
  | releaseRead =>
    have ht' : (if 0 < s.readers then some ({ s with
        message := s.message.releaseRead, readers := s.readers - 1 } : History α) else none) = some t := ht
    split at ht'
    · exact Option.some.inj ht' ▸ h.releaseRead ‹_›
    · cases ht'

/-- **A refusal in spite of a value is counted as an access.** -/
theorem notRefused_of_counted (h : s.Inv) {c : Call α} (hP : t.Counted) (ht : s.step c = some t) :
    s.NotRefused c := by
  cases c with
  | consume spurious =>
    by_contra hC
    have hC' : ¬ (s.message.optValue.isNone ∨ (s.message.activeReferenceCounter
        < s.message.remainingReferences ∧ s.message.mutex ≠ -1 ∧ spurious = false)) := hC
    rw [not_or] at hC'
    have hsome : s.message.optValue.isSome := by simpa [Option.isSome_iff_ne_none] using hC'.1
    have hrefused : s.message.remainingReferences ≤ s.message.activeReferenceCounter ∨
        s.message.mutex = -1 ∨ spurious = true := by
      by_contra hno
      rw [not_or, not_or] at hno
      exact hC'.2 ⟨Int.not_le.mp hno.1, hno.2.1, by simpa using hno.2.2⟩
    obtain rfl : s.consume spurious = t := Option.some.inj ht
    unfold History.consume at hP
    rw [Message.consume_refused hsome hrefused] at hP
    have hactive : s.message.activeReferenceCounter + 1 = (s.readers : Int) := hP.1
    have := h.active
    omega
  | _ => exact trivial

/-- **Read counting.**  In every history of one message, between whole calls the counter is the number of
live read accesses and exactly `n` calls of `consume` succeed after each `emplace(n, ..)`, exactly when no
call of `consume` that finds a value is refused. -/
theorem reads_counted (cs : List (Call α)) :
    Always step Counted (start : History α) cs ↔ Every step NotRefused (start : History α) cs :=
  always_iff_every_of (Q := Inv) (fun _ h => h.counted) (fun _ _ _ h hC ht => h.step hC ht)
    (fun _ _ _ h hP ht => notRefused_of_counted h hP ht) cs start_inv

/-- one message for one reader; a second `consume` is refused, and after the next `emplace(1, ..)` the
reader it was meant for is refused too -/
def secondReader : List (Call Nat) :=
  [.requestWritable false, .emplace 1 0 7, .releaseWrite, .consume false, .consume false, .releaseRead,
    .requestWritable false, .emplace 1 1 8, .releaseWrite]

theorem refused_reader_is_counted :
    ¬ Always step Counted (start : History Nat) secondReader ∧
      ∃ s, run step (start : History Nat) secondReader = some s ∧ s.granted = 1 ∧ s.admitted = 0 ∧
        (s.message.consume false).2 = false := by
  refine ⟨by decide, _, rfl, rfl, rfl, rfl⟩

end History

end Fifo
end Ipcpp
