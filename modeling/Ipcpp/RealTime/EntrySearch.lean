import Mathlib

/-!
# The search for a free entry and its timeout

`get_new_publisher_entry` and `get_new_subscriber_entry_idx` scan the lock files of the entries again and
again until they lock one or the timeout is over.  The clock and the answers of `try_lock` are the
environment (`Env`): any readings that do not decrease, and any answer to every attempt.

The time that has passed is computed as `start - timestamp()`, the wrong way round, in `uint64_t`: as soon
as one nanosecond has passed the difference wraps and is larger than any timeout.  `honours_timeout_iff`:
the search honours its timeout exactly if no scan that finds nothing is followed by a reading strictly
between the start and the end of the timeout.
-/

namespace Ipcpp
namespace RealTime
namespace EntrySearch

/-- what an attempt to lock a file gives: the value of the error code and the flag `acquired` -/
structure TryLock where
  value : Int
  acquired : Bool
deriving DecidableEq

/-- `timestamp()` at the start and after each scan, and what happens to the lock file of a name in each
scan: `none` if the constructor of `InterProcessLock` throws (the file cannot be opened) -/
structure Env where
  start : Int
  reading : Nat → Int
  start_le : start ≤ reading 0
  mono : ∀ r, reading r ≤ reading (r + 1)
  tryLock : Nat → String → Option TryLock

/-- `std::chrono::milliseconds` that are a number of nanoseconds -/
structure Milliseconds where
  count : Int
  lower : -2^63 ≤ count * 1000000
  upper : count * 1000000 < 2^63

/-- `duration_cast<nanoseconds>(timeout).count()` -/
def Milliseconds.nanoseconds (t : Milliseconds) : Int := t.count * 1000000

inductive Outcome where
  | entry (idx : Nat)
  | timedOut
  | threw
deriving DecidableEq

/-- `try_lock(acquired).value() == 0 && acquired` -/
def TryLock.locked (t : TryLock) : Bool := t.value == 0 && t.acquired

/-- the `for` loop from `idx` on, with `n` entries to go -/
def scan (attempt : Nat → Option TryLock) : Nat → Nat → Option Outcome
  | 0, _ => none
  | n + 1, idx =>
    match attempt idx with
    | none => some .threw
    | some t => if t.locked then some (.entry idx) else scan attempt n (idx + 1)

/-- `start - timestamp() >= duration_cast<nanoseconds>(timeout).count()`: the operands are converted to
`uint64_t` -/
def timeoutTest (start now timeout : Int) : Bool := decide (timeout % 2^64 ≤ (start - now) % 2^64)

/-- the `while (true)` loop from scan `r` on, cut off after `fuel` scans: the scan in which the search
ends, and how -/
def search (env : Env) (name : Nat → String) (max : Nat) (timeout : Milliseconds) :
    Nat → Nat → Option (Nat × Outcome)
  | 0, _ => none
  | fuel + 1, r =>
    match scan (fun idx => env.tryLock r (name idx)) max 0 with
    | some o => some (r, o)
    | none =>
      if timeoutTest env.start (env.reading r) timeout.nanoseconds then some (r, .timedOut)
      else search env name max timeout fuel (r + 1)

def publisherEntryName (topicId : String) (idx : Nat) : String :=
  topicId ++ "_publisher_entry_" ++ toString idx

def subscriberEntryName (topicId : String) (idx : Nat) : String :=
  topicId ++ "_subscriber_entry_" ++ toString idx

/-- `get_new_publisher_entry` -/
def getNewPublisherEntry (env : Env) (topicId : String) (maxPublishers : UInt32) (timeout : Milliseconds)
    (fuel : Nat) : Option (Nat × Outcome) :=
  search env (publisherEntryName topicId) maxPublishers.toNat timeout fuel 0

/-- `get_new_subscriber_entry_idx` -/
def getNewSubscriberEntryIdx (env : Env) (topicId : String) (maxSubscribers : UInt32) (timeout : Milliseconds)
    (fuel : Nat) : Option (Nat × Outcome) :=
  search env (subscriberEntryName topicId) maxSubscribers.toNat timeout fuel 0

section
variable (env : Env) (name : Nat → String) (max : Nat) (timeout : Milliseconds)

/-- scan `r` finds no entry: every file can be opened and none can be locked -/
def Fails (r : Nat) : Prop := ∀ idx < max, ∃ t, env.tryLock r (name idx) = some t ∧ t.locked = false

/-- all scans before scan `r` have failed before the timeout was over -/
def StillSearching (r : Nat) : Prop :=
  ∀ q < r, Fails env name max q ∧ env.reading q - env.start < timeout.nanoseconds

/-- what the search is for, as a property of `f`, which runs it for a number of scans: it gives up only
when the timeout is over; until then it goes on with the next scan, and finds the first entry that can be
locked there; and it returns only an entry that it has locked in its last scan -/
structure Honours (f : Nat → Option (Nat × Outcome)) : Prop where
  timedOut : ∀ fuel r, f fuel = some (r, .timedOut) → timeout.nanoseconds ≤ env.reading r - env.start
  retries : ∀ r, StillSearching env name max timeout r → ∀ fuel q o, f fuel = some (q, o) → r ≤ q
  finds : ∀ r idx, StillSearching env name max timeout r → Fails env name idx r → idx < max →
    (∃ t, env.tryLock r (name idx) = some t ∧ t.locked = true) → f (r + 1) = some (r, .entry idx)
  acquired : ∀ fuel r idx, f fuel = some (r, .entry idx) →
    idx < max ∧ ∃ t, env.tryLock r (name idx) = some t ∧ t.locked = true

/-- no scan that fails, as all before it, ends after the start and before the timeout is over -/
def NoneInBetween : Prop :=
  ∀ r, (∀ q ≤ r, Fails env name max q) →
    ¬ (env.start < env.reading r ∧ env.reading r < env.start + timeout.nanoseconds)

end

/-! ## one scan -/

theorem scan_none_iff {attempt : Nat → Option TryLock} (n idx : Nat) :
    scan attempt n idx = none ↔ ∀ i, idx ≤ i → i < idx + n → ∃ t, attempt i = some t ∧ t.locked = false := by
  induction n generalizing idx with
  | zero => exact iff_of_true rfl fun i h1 h2 => absurd h2 (by omega)
  | succ n ih =>
    unfold scan
    constructor
    · intro h i h1 h2
      split at h
      · cases h
      · rename_i t ht
        split at h
        · cases h
        · rename_i hlocked
          rcases Nat.eq_or_lt_of_le h1 with rfl | hlt
          · exact ⟨t, ht, Bool.eq_false_iff.mpr hlocked⟩
          · exact (ih (idx + 1)).mp h i hlt (by omega)
    · intro h
      obtain ⟨t, ht, hlocked⟩ := h idx le_rfl (by omega)
      rw [ht]
      dsimp only
      rw [hlocked, if_neg Bool.false_ne_true]
      exact (ih (idx + 1)).mpr fun i h1 h2 => h i (by omega) (by omega)

theorem scan_entry {attempt : Nat → Option TryLock} {i : Nat} (n idx : Nat)
    (h : scan attempt n idx = some (.entry i)) : i < idx + n ∧ ∃ t, attempt i = some t ∧ t.locked = true := by
  induction n generalizing idx with
  | zero => cases h
  | succ n ih =>
    unfold scan at h
    split at h
    · cases h
    · rename_i t ht
      split at h
      · rename_i hlocked
        cases h
        exact ⟨by omega, t, ht, hlocked⟩
      · obtain ⟨hlt, hlock⟩ := ih (idx + 1) h
        exact ⟨by omega, hlock⟩

theorem scan_ne_timedOut {attempt : Nat → Option TryLock} (n idx : Nat) :
    scan attempt n idx ≠ some .timedOut := by
  induction n generalizing idx with
  | zero => exact nofun
  | succ n ih =>
    unfold scan
    split
    · exact nofun
    · split
      · exact nofun
      · exact ih (idx + 1)

theorem scan_first {attempt : Nat → Option TryLock} {i : Nat} {t : TryLock} (n idx : Nat)
    (hfail : ∀ j, idx ≤ j → j < i → ∃ t, attempt j = some t ∧ t.locked = false)
    (ht : attempt i = some t) (hlocked : t.locked = true) (h1 : idx ≤ i) (h2 : i < idx + n) :
    scan attempt n idx = some (.entry i) := by
  induction n generalizing idx with
  | zero => omega
  | succ n ih =>
    unfold scan
    rcases Nat.eq_or_lt_of_le h1 with rfl | hlt
    · rw [ht]
      exact if_pos hlocked
    · obtain ⟨u, hu, hno⟩ := hfail idx le_rfl hlt
      rw [hu]
      dsimp only
      rw [hno, if_neg Bool.false_ne_true]
      exact ih (idx + 1) (fun j hj => hfail j (by omega)) hlt (by omega)

/-! ## the search -/

section
variable {env : Env} {name : Nat → String} {max : Nat} {timeout : Milliseconds}

theorem fails_iff (r : Nat) :
    Fails env name max r ↔ scan (fun idx => env.tryLock r (name idx)) max 0 = none := by
  rw [scan_none_iff]
  exact ⟨fun h i _ h2 => h i (by omega), fun h i hi => h i (Nat.zero_le _) (by omega)⟩

/-- the scans before the last one fail and are no timeout; the last one finds something, or is one -/
theorem search_some {fuel r q : Nat} {o : Outcome} (h : search env name max timeout fuel r = some (q, o)) :
    r ≤ q ∧
    (∀ p, r ≤ p → p < q → Fails env name max p ∧
      timeoutTest env.start (env.reading p) timeout.nanoseconds = false) ∧
    (scan (fun idx => env.tryLock q (name idx)) max 0 = some o ∨
      Fails env name max q ∧ timeoutTest env.start (env.reading q) timeout.nanoseconds = true ∧
        o = .timedOut) := by
  induction fuel generalizing r with
  | zero => cases h
  | succ fuel ih =>
    unfold search at h
    split at h
    · rename_i hscan
      cases h
      exact ⟨le_rfl, fun p h1 h2 => by omega, .inl hscan⟩
    · rename_i hscan
      have hfail := (fails_iff r).mpr hscan
      split at h
      · rename_i htest
        cases h
        exact ⟨le_rfl, fun p h1 h2 => by omega, .inr ⟨hfail, htest, rfl⟩⟩
      · rename_i htest
        obtain ⟨hle, hbefore, hlast⟩ := ih h
        refine ⟨by omega, fun p h1 h2 => ?_, hlast⟩
        rcases Nat.eq_or_lt_of_le h1 with rfl | hlt
        · exact ⟨hfail, Bool.eq_false_iff.mpr htest⟩
        · exact hbefore p hlt h2

/-- as long as the scans fail and are no timeout the search comes to the next one -/
theorem search_reaches {fuel r n : Nat}
    (h : ∀ p, r ≤ p → p < r + n → Fails env name max p ∧
      timeoutTest env.start (env.reading p) timeout.nanoseconds = false) :
    search env name max timeout (n + fuel) r = search env name max timeout fuel (r + n) := by
  induction n generalizing r with
  | zero => rw [Nat.zero_add, Nat.add_zero]
  | succ n ih =>
    obtain ⟨hfail, htest⟩ := h r le_rfl (by omega)
    rw [Nat.add_right_comm, search, (fails_iff r).mp hfail]
    dsimp only
    rw [htest, if_neg Bool.false_ne_true, ih fun p h1 h2 => h p (by omega) (by omega), Nat.add_right_comm,
      Nat.add_assoc]

theorem reading_mono (env : Env) {q r : Nat} (h : q ≤ r) : env.reading q ≤ env.reading r :=
  monotone_nat_of_le_succ env.mono h

theorem start_le (env : Env) (r : Nat) : env.start ≤ env.reading r :=
  env.start_le.trans (reading_mono env (Nat.zero_le r))

/-! ## the test -/

theorem timeoutTest_start {start t : Int} (h1 : -2^63 ≤ t) (h2 : t < 2^63)
    (h : timeoutTest start start t = true) : t ≤ 0 := by
  have hle := of_decide_eq_true h
  rw [Int.sub_self, Int.zero_emod] at hle
  omega

theorem timeoutTest_start_false {start t : Int} (h1 : 0 < t) (h2 : t < 2^63) :
    timeoutTest start start t = false := by
  refine decide_eq_false ?_
  rw [Int.sub_self, Int.zero_emod]
  omega

/-- between the start and the end of the timeout the difference wraps, and the test succeeds -/
theorem timeoutTest_between {start now t : Int} (h1 : start < now) (h2 : now < start + t) (h3 : t < 2^63) :
    timeoutTest start now t = true := by
  refine decide_eq_true ?_
  omega

/-! ## when the timeout is honoured -/

theorem NoneInBetween.still {env : Env} (h : NoneInBetween env name max timeout) {r : Nat}
    (hr : StillSearching env name max timeout r) :
    ∀ q < r, timeoutTest env.start (env.reading q) timeout.nanoseconds = false := by
  intro q hq
  have hno := h q fun p hp => (hr p (by omega)).1
  have hlt := (hr q hq).2
  have hle := start_le env q
  have heq : env.reading q = env.start := by omega
  rw [heq]
  exact timeoutTest_start_false (by omega) timeout.upper

theorem NoneInBetween.honours (h : NoneInBetween env name max timeout) :
    Honours env name max timeout fun fuel => search env name max timeout fuel 0 := by
  refine ⟨?_, ?_, ?_, ?_⟩
  · intro fuel r hf
    obtain ⟨-, hbefore, hlast⟩ := search_some hf
    rcases hlast with hscan | ⟨hfail, htest, -⟩
    · exact absurd hscan (scan_ne_timedOut _ _)
    · have hno := h r fun q hq => by
        rcases Nat.eq_or_lt_of_le hq with rfl | hlt
        · exact hfail
        · exact (hbefore q (Nat.zero_le _) hlt).1
      have hle := start_le env r
      by_contra hlt
      have heq : env.reading r = env.start := by omega
      rw [heq] at htest
      have hle0 : timeout.nanoseconds ≤ 0 := timeoutTest_start timeout.lower timeout.upper htest
      omega
  · intro r hr fuel q o hf
    obtain ⟨-, hbefore, hlast⟩ := search_some hf
    by_contra hlt
    have hq : q < r := by omega
    rcases hlast with hscan | ⟨-, htest, -⟩
    · rw [(fails_iff q).mp (hr q hq).1] at hscan
      cases hscan
    · rw [h.still hr q hq] at htest
      cases htest
  · intro r idx hr hfail hidx hlock
    obtain ⟨t, ht, hlocked⟩ := hlock
    have hreach : search env name max timeout (r + 1) 0 = search env name max timeout 1 (0 + r) :=
      search_reaches fun p _ hp => ⟨(hr p (by omega)).1, h.still hr p (by omega)⟩
    rw [hreach, Nat.zero_add, search,
      scan_first (i := idx) max 0 (fun j _ hj => hfail j hj) ht hlocked (Nat.zero_le _) (by omega)]
  · intro fuel r idx hf
    obtain ⟨-, -, hlast⟩ := search_some hf
    rcases hlast with hscan | ⟨-, -, ho⟩
    · obtain ⟨hlt, hlock⟩ := scan_entry _ _ hscan
      exact ⟨by omega, hlock⟩
    · cases ho

theorem Honours.noneInBetween
    (h : Honours env name max timeout fun fuel => search env name max timeout fuel 0) :
    NoneInBetween env name max timeout := by
  intro r
  induction r using Nat.strong_induction_on with
  | _ r ih =>
    rintro hfail ⟨h1, h2⟩
    have hbefore : ∀ p, 0 ≤ p → p < 0 + r → Fails env name max p ∧
        timeoutTest env.start (env.reading p) timeout.nanoseconds = false := by
      intro p _ hp
      have hno := ih p (by omega) fun q hq => hfail q (by omega)
      have hle := start_le env p
      have hmono := reading_mono env (show p ≤ r by omega)
      have heq : env.reading p = env.start := by omega
      refine ⟨hfail p (by omega), ?_⟩
      rw [heq]
      exact timeoutTest_start_false (by omega) timeout.upper
    have hend : search env name max timeout (r + 1) 0 = some (r, .timedOut) := by
      rw [search_reaches hbefore, Nat.zero_add, search, (fails_iff r).mp (hfail r le_rfl)]
      exact if_pos (timeoutTest_between h1 h2 timeout.upper)
    have hover := h.timedOut (r + 1) r hend
    omega

end

/-- **The searches honour their timeout exactly if no scan that finds nothing ends between the start and
the end of the timeout**, for all readings of the clock and all answers of the locks. -/
theorem honours_timeout_iff (env : Env) (topicId : String) (max : UInt32) (timeout : Milliseconds) :
    (Honours env (publisherEntryName topicId) max.toNat timeout (getNewPublisherEntry env topicId max timeout) ↔
      NoneInBetween env (publisherEntryName topicId) max.toNat timeout) ∧
    (Honours env (subscriberEntryName topicId) max.toNat timeout
        (getNewSubscriberEntryIdx env topicId max timeout) ↔
      NoneInBetween env (subscriberEntryName topicId) max.toNat timeout) :=
  ⟨⟨fun h => h.noneInBetween, fun h => h.honours⟩, ⟨fun h => h.noneInBetween, fun h => h.honours⟩⟩

/-- one entry, which somebody else has locked, and a clock that has moved on by one nanosecond after the
first scan -/
def oneNanosecond : Env where
  start := 0
  reading := fun _ => 1
  start_le := by decide
  mono := fun _ => le_rfl
  tryLock := fun _ _ => some ⟨0, false⟩

/-- the search with a timeout of a second gives up -/
theorem times_out_at_once :
    getNewPublisherEntry oneNanosecond "topic" 1 ⟨1000, by decide, by decide⟩ 1 = some (0, .timedOut) ∧
      ¬ Honours oneNanosecond (publisherEntryName "topic") 1 ⟨1000, by decide, by decide⟩
        (getNewPublisherEntry oneNanosecond "topic" 1 ⟨1000, by decide, by decide⟩) := by
  have hend : getNewPublisherEntry oneNanosecond "topic" 1 ⟨1000, by decide, by decide⟩ 1 =
      some (0, .timedOut) := by decide +kernel
  refine ⟨hend, fun h => ?_⟩
  exact absurd (h.timedOut 1 0 hend) (by decide)

end EntrySearch
end RealTime
end Ipcpp
