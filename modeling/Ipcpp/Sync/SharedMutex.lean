import Mathlib
import Ipcpp.Lib.Counting
import Ipcpp.Lib.Runs

/-!
# `shared_mutex` and `shared_futex`

A reader-writer lock in one signed word: `-1` while it is held exclusively, otherwise the number of shared
holders.  A reader loads the word and then compare-exchanges `expected + 1` into it, in two steps; a writer
compare-exchanges `0` by `-1` and gives the lock back with a blind store of `0`.

The two classes differ in the width of the word (64 and 32 bits), in how a reader tests the loaded value,
and in whether releasing is followed by a futex wake-up (`Impl`).  `shared_futex` has no `try_` functions; it
does no harm to let its threads call them too.  A thread that finds the lock taken yields or waits in the
kernel, from which it may return at any time.

Each atomic operation is a step of its own, a weak compare-exchange may fail for no reason, and a thread
takes the lock only if it does not have it already.  `word_counts_holders`: with fewer than `2^31` threads,
in every reachable state the word says who holds the lock, and no assertion has failed.
-/

namespace Ipcpp
namespace Sync
open Counting Runs

namespace SharedMutex

/-- what the two classes do differently -/
structure Impl where
  /-- bits of the word -/
  width : Nat
  /-- the test of a reader: the loaded value says that the lock is held exclusively -/
  blocked : Int → Bool
  /-- a release is followed by `FUTEX_WAKE` -/
  wakes : Bool

def sharedMutex : Impl := ⟨64, fun expected => expected = -1, false⟩

def sharedFutex : Impl := ⟨32, fun expected => ¬ expected ≥ 0, true⟩

/-- arithmetic on the word -/
def Impl.wrap (I : Impl) (x : Int) : Int := x.bmod (2^I.width)

inductive Pc where
  | idle
  /-- `lock`: at the compare-exchange, and after it has failed -/
  | lock
  | lockWait
  | tryLock
  /-- `lock_shared`: at the load, at the compare-exchange, and after `-1` was loaded -/
  | lockShared
  | lockSharedExchange (expected : Int)
  | lockSharedWait
  /-- `try_lock_shared`: at the load of round `r` of at most `rounds`, and at its compare-exchange -/
  | tryLockShared (r rounds : Nat)
  | tryLockSharedExchange (r rounds : Nat) (expected : Int)
  /-- holds the lock exclusively; `unlocking` is between the assertion and the store of `unlock` -/
  | exclusive
  | unlocking
  /-- holds the lock shared; `unlockingShared` is between the assertion and the `fetch_sub` -/
  | shared
  | unlockingShared
  /-- at the wake-up that follows a release -/
  | wake
  /-- an assertion has failed -/
  | failed
deriving DecidableEq

namespace Pc

def isExclusive : Pc → Bool
  | exclusive => true
  | unlocking => true
  | _ => false

def isShared : Pc → Bool
  | shared => true
  | unlockingShared => true
  | _ => false

/-- the value a reader has loaded and is about to replace -/
def loaded : Pc → Option Int
  | lockSharedExchange expected => some expected
  | tryLockSharedExchange _ _ expected => some expected
  | _ => none

end Pc

inductive Op where
  | lock
  | tryLock
  | lockShared
  | tryLockShared
  | tryLockSharedRetries (retries : Nat)

/-- where a call starts; `retries + 1` is computed in 64 bits, and `try_lock_shared()` is one round -/
def Op.enter : Op → Pc
  | .lock => .lock
  | .tryLock => .tryLock
  | .lockShared => .lockShared
  | .tryLockShared => .tryLockShared 0 1
  | .tryLockSharedRetries retries => .tryLockShared 0 ((retries + 1) % 2^64)

structure State where
  flag : Int
  threads : List Pc

def start (n : Nat) : State := ⟨0, List.replicate n .idle⟩

inductive Action where
  /-- a thread without the lock calls a function that takes it -/
  | call (i : Nat) (op : Op)
  /-- a holder calls the function that gives back what it holds, and evaluates its assertion -/
  | release (i : Nat)
  /-- thread `i` goes on; `spurious`: its weak compare-exchange fails whatever the word is -/
  | next (i : Nat) (spurious : Bool)

namespace State
variable (I : Impl) (s : State)

/-- thread `i` is now at `pc`, and the word is `flag` -/
def goTo (i : Nat) (pc : Pc) (flag : Int) : State := ⟨flag, s.threads.set i pc⟩

/-- weak compare-exchange of `expected` by `desired`: to `won` or, the word unchanged, to `lost` -/
def exchange (i : Nat) (spurious : Bool) (expected desired : Int) (won lost : Pc) : State :=
  if s.flag = expected ∧ spurious = false then s.goTo i won desired else s.goTo i lost s.flag

/-- where a release leads -/
def released : Pc := if I.wakes then .wake else .idle

def next (i : Nat) (spurious : Bool) : Pc → Option State
  | .lock => some (s.exchange i spurious 0 (-1) .exclusive .lockWait)
  | .lockWait => some (s.goTo i .lock s.flag)
  | .tryLock => some (s.exchange i spurious 0 (-1) .exclusive .idle)
  | .lockShared =>
    some (s.goTo i (if I.blocked s.flag then .lockSharedWait else .lockSharedExchange s.flag) s.flag)
  | .lockSharedExchange expected =>
    some (s.exchange i spurious expected (I.wrap (expected + 1)) .shared .lockShared)
  | .lockSharedWait => some (s.goTo i .lockShared s.flag)
  | .tryLockShared r rounds =>
    some (s.goTo i
      (if r < rounds then
        if I.blocked s.flag then .idle else .tryLockSharedExchange r rounds s.flag
      else .idle) s.flag)
  | .tryLockSharedExchange r rounds expected =>
    some (s.exchange i spurious expected (I.wrap (expected + 1)) .shared (.tryLockShared (r + 1) rounds))
  | .unlocking => some (s.goTo i (released I) 0)
  | .unlockingShared => some (s.goTo i (released I) (I.wrap (s.flag - 1)))
  | .wake => some (s.goTo i .idle s.flag)
  | _ => none

/-- the assertions of `unlock` and `unlock_shared` -/
def release (i : Nat) : Pc → Option State
  | .exclusive => some (s.goTo i (if s.flag = -1 then .unlocking else .failed) s.flag)
  | .shared => some (s.goTo i (if s.flag > 0 then .unlockingShared else .failed) s.flag)
  | _ => none

def step (s : State) : Action → Option State
  | .call i op => if s.threads[i]? = some .idle then some (s.goTo i op.enter s.flag) else none
  | .release i => (s.threads[i]?).bind (s.release i)
  | .next i spurious => (s.threads[i]?).bind (s.next I i spurious)

def exclusiveHolders : Nat := s.threads.countP Pc.isExclusive

def sharedHolders : Nat := s.threads.countP Pc.isShared

/-- what the word says -/
structure Counts : Prop where
  exclusive_iff : s.flag = -1 ↔ s.exclusiveHolders = 1 ∧ s.sharedHolders = 0
  shared : s.flag ≠ -1 → s.exclusiveHolders = 0 ∧ s.flag = s.sharedHolders

/-- the inductive invariant, for `n` threads -/
structure Inv (n : Nat) : Prop where
  length : s.threads.length = n
  word : s.flag = -1 ∧ s.exclusiveHolders = 1 ∧ s.sharedHolders = 0 ∨
    s.exclusiveHolders = 0 ∧ s.flag = s.sharedHolders
  /-- no assertion has failed -/
  asserts : ∀ pc ∈ s.threads, pc ≠ .failed
  /-- a reader compare-exchanges a count of other threads -/
  loaded : ∀ pc ∈ s.threads, ∀ e ∈ pc.loaded, 0 ≤ e ∧ e < n

end State

/-- what the proof needs of an implementation: a reader goes on only with a count, and counts of threads
do not overflow -/
structure Impl.Sound (I : Impl) : Prop where
  blocked : ∀ e, -1 ≤ e → I.blocked e = false → 0 ≤ e
  wrap : ∀ x, 0 ≤ x → x < 2^31 → I.wrap x = x

theorem wrap_small {w : Nat} (hw : 32 ≤ w) {x : Int} (h0 : 0 ≤ x) (hx : x < 2^31) : x.bmod (2^w) = x := by
  have hpow : (2:Int)^32 ≤ 2^w := by exact_mod_cast Nat.pow_le_pow_right (by decide) hw
  rw [Int.bmod_eq_of_le]
  · push_cast
    omega
  · push_cast
    omega

theorem sharedMutex_sound : sharedMutex.Sound := by
  refine ⟨fun e he hb => ?_, fun x h0 hx => wrap_small (by decide) h0 hx⟩
  have hne : ¬ e = -1 := of_decide_eq_false hb
  omega

theorem sharedFutex_sound : sharedFutex.Sound := by
  refine ⟨fun e _ hb => ?_, fun x h0 hx => wrap_small (by decide) h0 hx⟩
  exact Decidable.not_not.mp (of_decide_eq_false hb)

namespace State
variable {I : Impl} {s : State} {n : Nat}

theorem start_inv (n : Nat) : (start n).Inv n := by
  have hidle : ∀ pc ∈ List.replicate n Pc.idle, pc = .idle := fun pc hpc => List.eq_of_mem_replicate hpc
  have hzero : ∀ p : Pc → Bool, p .idle = false → (List.replicate n Pc.idle).countP p = 0 := by
    intro p hp
    refine List.countP_eq_zero.mpr fun pc hpc => ?_
    rw [hidle pc hpc, hp]
    exact Bool.false_ne_true
  refine ⟨List.length_replicate, .inr ⟨hzero _ rfl, ?_⟩, fun pc hpc => ?_, fun pc hpc e he => ?_⟩
  · show (0 : Int) = ((List.replicate n Pc.idle).countP Pc.isShared : Nat)
    rw [hzero _ rfl]
    rfl
  · rw [hidle pc hpc]
    decide
  · rw [hidle pc hpc] at he
    cases he

theorem Inv.counts (h : s.Inv n) : s.Counts := by
  have := h.word
  constructor <;> omega

/-- **A step of thread `i`** that leaves the word in accordance with the holders. -/
theorem Inv.goTo (h : s.Inv n) {i : Nat} {pc pc' : Pc} {flag : Int} (hpc : s.threads[i]? = some pc)
    (hword : ∀ E S : Nat, E + (if pc.isExclusive then 1 else 0)
        = s.exclusiveHolders + (if pc'.isExclusive then 1 else 0) →
      S + (if pc.isShared then 1 else 0) = s.sharedHolders + (if pc'.isShared then 1 else 0) →
      flag = -1 ∧ E = 1 ∧ S = 0 ∨ E = 0 ∧ flag = S)
    (hfail : pc' ≠ .failed) (hload : ∀ e ∈ pc'.loaded, 0 ≤ e ∧ e < n) : (s.goTo i pc' flag).Inv n := by
  refine ⟨(List.length_set).trans h.length, ?_, fun q hq => ?_, fun q hq => ?_⟩
  · exact hword _ _ (countP_set Pc.isExclusive hpc pc') (countP_set Pc.isShared hpc pc')
  · rcases List.mem_or_eq_of_mem_set hq with hq | rfl
    · exact h.asserts q hq
    · exact hfail
  · rcases List.mem_or_eq_of_mem_set hq with hq | rfl
    · exact h.loaded q hq
    · exact hload

theorem Inv.move (h : s.Inv n) {i : Nat} {pc pc' : Pc} (hpc : s.threads[i]? = some pc)
    (hx : pc'.isExclusive = pc.isExclusive) (hs : pc'.isShared = pc.isShared) (hfail : pc' ≠ .failed)
    (hload : ∀ e ∈ pc'.loaded, 0 ≤ e ∧ e < n) : (s.goTo i pc' s.flag).Inv n := by
  refine h.goTo hpc (fun E S hE hS => ?_) hfail hload
  rw [hx] at hE
  rw [hs] at hS
  have := h.word
  omega

theorem Inv.load (h : s.Inv n) (hI : I.Sound) {i : Nat} {pc : Pc} (hpc : s.threads[i]? = some pc)
    (hout : pc.isShared = false) (hb : I.blocked s.flag = false) : 0 ≤ s.flag ∧ s.flag < n := by
  have hword := h.word
  have h0 : 0 ≤ s.flag := hI.blocked s.flag (by omega) hb
  have hcount := countP_set Pc.isShared hpc .shared
  have hle := List.countP_le_length (l := s.threads.set i .shared) (p := Pc.isShared)
  rw [List.length_set, h.length] at hle
  rw [hout] at hcount
  simp only [Bool.false_eq_true, ↓reduceIte, Pc.isShared] at hcount
  unfold sharedHolders at hword
  omega

theorem loads_none {pc : Pc} (hload : pc.loaded = none) : ∀ e ∈ pc.loaded, 0 ≤ e ∧ e < n := by
  rw [hload]
  exact fun e he => nomatch he

/-- a thread that holds nothing goes back, or on with the count that it loaded -/
theorem Inv.goOn (h : s.Inv n) (hI : I.Sound) {i : Nat} {pc back on : Pc} (hpc : s.threads[i]? = some pc)
    (hx : pc.isExclusive = false) (hs : pc.isShared = false) (hbx : back.isExclusive = false)
    (hbs : back.isShared = false) (hbfail : back ≠ .failed) (hbload : back.loaded = none)
    (hox : on.isExclusive = false) (hos : on.isShared = false) (hofail : on ≠ .failed)
    (hoload : on.loaded = some s.flag) :
    (s.goTo i (if I.blocked s.flag then back else on) s.flag).Inv n := by
  by_cases hb : I.blocked s.flag = true
  · rw [if_pos hb]
    exact h.move hpc (hbx.trans hx.symm) (hbs.trans hs.symm) hbfail (loads_none hbload)
  · rw [if_neg hb]
    refine h.move hpc (hox.trans hx.symm) (hos.trans hs.symm) hofail fun e he => ?_
    rw [hoload] at he
    exact Option.some.inj he ▸ h.load hI hpc hs (Bool.eq_false_iff.mpr hb)

/-- a compare-exchange of a thread that holds nothing; if it is won, the word is in accordance with the holders -/
theorem Inv.exchange (h : s.Inv n) {i : Nat} {pc won lost : Pc} {expected desired : Int}
    (hpc : s.threads[i]? = some pc) (hx : pc.isExclusive = false) (hs : pc.isShared = false)
    (hwon : won ≠ .failed) (hwload : won.loaded = none) (hx' : lost.isExclusive = false)
    (hs' : lost.isShared = false) (hfail : lost ≠ .failed) (hload : lost.loaded = none)
    (hword : s.flag = expected → ∀ E S : Nat, E = s.exclusiveHolders + (if won.isExclusive then 1 else 0) →
      S = s.sharedHolders + (if won.isShared then 1 else 0) →
      desired = -1 ∧ E = 1 ∧ S = 0 ∨ E = 0 ∧ desired = S) (spurious : Bool) :
    (s.exchange i spurious expected desired won lost).Inv n := by
  unfold State.exchange
  split
  · rename_i hwin
    refine h.goTo hpc (fun E S hE hS => ?_) hwon (loads_none hwload)
    rw [hx] at hE
    rw [hs] at hS
    exact hword hwin.1 E S hE hS
  · exact h.move hpc (hx'.trans hx.symm) (hs'.trans hs.symm) hfail (loads_none hload)

theorem Inv.exchange_exclusive (h : s.Inv n) {i : Nat} {pc lost : Pc} (hpc : s.threads[i]? = some pc)
    (hx : pc.isExclusive = false) (hs : pc.isShared = false) (hx' : lost.isExclusive = false)
    (hs' : lost.isShared = false) (hfail : lost ≠ .failed) (hload : lost.loaded = none) (spurious : Bool) :
    (s.exchange i spurious 0 (-1) .exclusive lost).Inv n := by
  have hword := h.word
  refine h.exchange hpc hx hs (by decide) rfl hx' hs' hfail hload (fun hflag E S hE hS => ?_) spurious
  simp only [Pc.isExclusive, Pc.isShared, Bool.false_eq_true, ↓reduceIte] at hE hS
  omega

/-- the loaded value is still the word: it is the number of shared holders -/
theorem Inv.exchange_shared (h : s.Inv n) (hI : I.Sound) (hn : n < 2^31) {i : Nat} {pc lost : Pc} {e : Int}
    (hpc : s.threads[i]? = some pc) (hx : pc.isExclusive = false) (hs : pc.isShared = false)
    (he : pc.loaded = some e) (hx' : lost.isExclusive = false) (hs' : lost.isShared = false)
    (hfail : lost ≠ .failed) (hload : lost.loaded = none) (spurious : Bool) :
    (s.exchange i spurious e (I.wrap (e + 1)) .shared lost).Inv n := by
  have hrange := h.loaded pc (List.mem_of_getElem? hpc) e he
  have hwrap : I.wrap (e + 1) = e + 1 := hI.wrap (e + 1) (by omega) (by omega)
  have hword := h.word
  refine h.exchange hpc hx hs (by decide) rfl hx' hs' hfail hload (fun hflag E S hE hS => ?_) spurious
  simp only [Pc.isExclusive, Pc.isShared, Bool.false_eq_true, ↓reduceIte] at hE hS
  omega

theorem Inv.release (h : s.Inv n) {i : Nat} {pc : Pc} (hpc : s.threads[i]? = some pc) {t : State}
    (ht : s.release i pc = some t) : t.Inv n := by
  have hword := h.word
  cases pc with
  | exclusive =>
    have hpos : 0 < s.exclusiveHolders :=
      List.countP_pos_iff.mpr ⟨_, List.mem_of_getElem? hpc, rfl⟩
    have hflag : s.flag = -1 := by omega
    rw [← Option.some.inj ht, if_pos hflag]
    exact h.move hpc rfl rfl (by decide) (fun e he => nomatch he)
  | shared =>
    have hpos : 0 < s.sharedHolders := List.countP_pos_iff.mpr ⟨_, List.mem_of_getElem? hpc, rfl⟩
    have hflag : s.flag > 0 := by omega
    rw [← Option.some.inj ht, if_pos hflag]
    exact h.move hpc rfl rfl (by decide) (fun e he => nomatch he)
  | _ => cases ht

theorem released_plain (I : Impl) : (released I).isExclusive = false ∧ (released I).isShared = false ∧
    released I ≠ .failed ∧ (released I).loaded = none := by
  unfold released
  split <;> decide

theorem Inv.next (h : s.Inv n) (hI : I.Sound) (hn : n < 2^31) {i : Nat} {spurious : Bool} {pc : Pc}
    (hpc : s.threads[i]? = some pc) {t : State} (ht : s.next I i spurious pc = some t) : t.Inv n := by
  cases pc with
  | lock =>
    rw [← Option.some.inj ht]
    exact h.exchange_exclusive hpc rfl rfl rfl rfl (by decide) rfl spurious
  | tryLock =>
    rw [← Option.some.inj ht]
    exact h.exchange_exclusive hpc rfl rfl rfl rfl (by decide) rfl spurious
  | lockShared =>
    rw [← Option.some.inj ht]
    exact h.goOn hI hpc rfl rfl rfl rfl (by decide) rfl rfl rfl (by simp) rfl
  | lockSharedExchange e =>
    rw [← Option.some.inj ht]
    exact h.exchange_shared hI hn hpc rfl rfl rfl rfl rfl (by decide) rfl spurious
  | tryLockShared r rounds =>
    rw [← Option.some.inj ht]
    by_cases hr : r < rounds
    · rw [if_pos hr]
      exact h.goOn hI hpc rfl rfl rfl rfl (by decide) rfl rfl rfl (by simp) rfl
    · rw [if_neg hr]
      exact h.move hpc rfl rfl (by decide) (fun e he => nomatch he)
  | tryLockSharedExchange r rounds e =>
    rw [← Option.some.inj ht]
    exact h.exchange_shared hI hn hpc rfl rfl rfl rfl rfl (by simp) rfl spurious
  | unlocking =>
    -- the blind store: this thread is the only holder
    rw [← Option.some.inj ht]
    obtain ⟨hx, hs, hfail, hload⟩ := released_plain I
    have hpos : 0 < s.exclusiveHolders := List.countP_pos_iff.mpr ⟨_, List.mem_of_getElem? hpc, rfl⟩
    refine h.goTo hpc (fun E S hE hS => ?_) hfail (loads_none hload)
    rw [hx] at hE
    rw [hs] at hS
    simp only [Pc.isExclusive, Pc.isShared, Bool.false_eq_true, ↓reduceIte] at hE hS
    have := h.word
    omega
  | unlockingShared =>
    rw [← Option.some.inj ht]
    obtain ⟨hx, hs, hfail, hload⟩ := released_plain I
    have hpos : 0 < s.sharedHolders := List.countP_pos_iff.mpr ⟨_, List.mem_of_getElem? hpc, rfl⟩
    have hle : s.sharedHolders ≤ n := h.length ▸ List.countP_le_length
    have hword := h.word
    have hwrap : I.wrap (s.flag - 1) = s.flag - 1 := hI.wrap (s.flag - 1) (by omega) (by omega)
    refine h.goTo hpc (fun E S hE hS => ?_) hfail (loads_none hload)
    rw [hx] at hE
    rw [hs] at hS
    simp only [Pc.isExclusive, Pc.isShared, Bool.false_eq_true, ↓reduceIte] at hE hS
    omega
  | lockWait =>
    rw [← Option.some.inj ht]
    exact h.move hpc rfl rfl (by decide) (fun e he => nomatch he)
  | lockSharedWait =>
    rw [← Option.some.inj ht]
    exact h.move hpc rfl rfl (by decide) (fun e he => nomatch he)
  | wake =>
    rw [← Option.some.inj ht]
    exact h.move hpc rfl rfl (by decide) (fun e he => nomatch he)
  | _ => cases ht

theorem enter_plain (op : Op) : op.enter.isExclusive = false ∧ op.enter.isShared = false ∧
    op.enter ≠ .failed ∧ op.enter.loaded = none := by
  cases op <;> simp [Op.enter, Pc.isExclusive, Pc.isShared, Pc.loaded]

/-- **One step** of one thread keeps the invariant. -/
theorem Inv.step (h : s.Inv n) (hI : I.Sound) (hn : n < 2^31) {a : Action} {t : State}
    (ht : s.step I a = some t) : t.Inv n := by
  cases a with
  | call i op =>
    have ht' : (if s.threads[i]? = some .idle then some (s.goTo i op.enter s.flag) else none) = some t := ht
    split at ht'
    · rename_i hpc
      obtain ⟨hx, hs, hfail, hload⟩ := enter_plain op
      rw [← Option.some.inj ht']
      exact h.move hpc hx hs hfail (loads_none hload)
    · cases ht'
  | release i =>
    obtain ⟨pc, hpc, hr⟩ := Option.bind_eq_some_iff.mp ht
    exact h.release hpc hr
  | next i spurious =>
    obtain ⟨pc, hpc, hnext⟩ := Option.bind_eq_some_iff.mp ht
    exact h.next hI hn hpc hnext

end State

/-- **The word counts the holders.**  For both classes, fewer than `2^31` threads and any interleaving of
their steps, in every reachable state the word is `-1` exactly when one thread holds the lock exclusively
and none shared, and otherwise it is the number of shared holders; and no assertion of `unlock` or
`unlock_shared` has failed. -/
theorem word_counts_holders (I : Impl) (hI : I = sharedMutex ∨ I = sharedFutex) (n : Nat) (hn : n < 2^31)
    (as : List Action) (s : State) (hr : run (State.step I) (start n) as = some s) :
    (s.flag = -1 ↔ s.exclusiveHolders = 1 ∧ s.sharedHolders = 0) ∧
    (s.flag ≠ -1 → s.exclusiveHolders = 0 ∧ s.flag = s.sharedHolders ∧ 0 ≤ s.flag) ∧
    (∀ pc ∈ s.threads, pc ≠ .failed) := by
  have hsound : I.Sound := by
    rcases hI with rfl | rfl
    · exact sharedMutex_sound
    · exact sharedFutex_sound
  have hinv : s.Inv n :=
    run_inv (I := fun s : State => s.Inv n) (fun _ _ _ h ht => h.step hsound hn ht) as
      (State.start_inv n) hr
  have hcounts := hinv.counts
  refine ⟨hcounts.exclusive_iff, fun hne => ?_, hinv.asserts⟩
  obtain ⟨hE, hS⟩ := hcounts.shared hne
  exact ⟨hE, hS, by omega⟩

/-- two readers, of which one loses its first compare-exchange to the other, and a writer that has to wait -/
def exampleSteps : List Action :=
  [.call 0 .lockShared, .call 1 (.tryLockSharedRetries 5), .call 2 .lock, .next 0 false, .next 1 false,
    .next 0 true, .next 0 false, .next 0 false, .next 1 false, .next 2 false, .next 1 false, .next 1 false,
    .release 0, .next 0 false]

theorem word_counts_holders_readers :
    ∃ s, run (State.step sharedMutex) (start 3) exampleSteps = some s ∧ s.flag = 1 ∧ s.sharedHolders = 1 ∧
      ∀ pc ∈ s.threads, pc ≠ .failed := by
  have hw := word_counts_holders sharedMutex (.inl rfl) 3 (by decide) exampleSteps _ rfl
  exact ⟨_, rfl, rfl, rfl, hw.2.2⟩

end SharedMutex

end Sync
end Ipcpp
