import Ipcpp.Lib.Counting
import Ipcpp.Lib.Runs

/-!
# `futex`

A lock word in shared memory, `UNLOCKED` or `LOCKED`.  `lock` tries one compare-exchange and otherwise
loops in `_m_wait_for_lock`: load, and if the word was `UNLOCKED`, compare-exchange with an `expected` that
is `LOCKED` at this point.  So this compare-exchange fails when the lock is free, and when another thread
has taken the lock since the load it replaces `LOCKED` by `LOCKED` and returns with the lock.

Each atomic operation is a step of its own; a thread that waits in `FUTEX_WAIT` may wake up at any time.
`mutual_exclusion`: at most one thread holds the lock as long as no thread makes its compare-exchange in
`_m_wait_for_lock` while the word is `LOCKED`, and not longer.
-/

namespace Ipcpp
namespace Sync
open Counting Runs

namespace Futex

def UNLOCKED : Nat := 0
def LOCKED : Nat := 1

/-- where a thread is; `expected` is the local variable of `_m_wait_for_lock` -/
inductive Pc where
  /-- in none of the functions, without the lock -/
  | out
  /-- at the load -/
  | load (expected : Nat)
  /-- at the compare-exchange, the load has returned `UNLOCKED` -/
  | exchange (expected : Nat)
  /-- at or in `FUTEX_WAIT` -/
  | wait
  /-- between a completed `lock` or successful `try_lock` and the store of `unlock` -/
  | holds
  /-- at the `FUTEX_WAKE` of `unlock` -/
  | wake
deriving DecidableEq

structure State where
  flag : Nat
  threads : List Pc

def start (n : Nat) : State := ⟨UNLOCKED, List.replicate n .out⟩

inductive Action where
  /-- thread `i` calls `lock` and makes its first compare-exchange -/
  | lock (i : Nat)
  /-- thread `i` calls `try_lock` -/
  | tryLock (i : Nat)
  /-- thread `i` calls `unlock` and makes its store -/
  | unlock (i : Nat)
  /-- thread `i` goes on in the function it is in -/
  | next (i : Nat)

namespace State
variable (s : State)

/-- thread `i` is now at `pc`, and the word is `flag` -/
def goTo (i : Nat) (pc : Pc) (flag : Nat) : State := ⟨flag, s.threads.set i pc⟩

/-- the step of a thread in `_m_wait_for_lock` or `unlock` -/
def next (i : Nat) : Pc → Option State
  | .load expected =>
    some (if s.flag = UNLOCKED then s.goTo i (.exchange expected) s.flag else s.goTo i .wait s.flag)
  | .exchange expected =>
    some (if s.flag = expected then s.goTo i .holds LOCKED else s.goTo i .wait s.flag)
  | .wait => some (s.goTo i (.load LOCKED) s.flag)
  | .wake => some (s.goTo i .out s.flag)
  | .out => none
  | .holds => none

def step (s : State) : Action → Option State
  | .lock i =>
    match s.threads[i]? with
    | some .out =>
      some (if s.flag = UNLOCKED then s.goTo i .holds LOCKED else s.goTo i (.load LOCKED) s.flag)
    | _ => none
  | .tryLock i =>
    match s.threads[i]? with
    | some .out => some (if s.flag = UNLOCKED then s.goTo i .holds LOCKED else s.goTo i .out s.flag)
    | _ => none
  | .unlock i =>
    match s.threads[i]? with
    | some .holds => some (s.goTo i .wake UNLOCKED)
    | _ => none
  | .next i => (s.threads[i]?).bind (s.next i)

/-- the threads between `lock` and `unlock` -/
def holders : Nat := s.threads.countP fun pc => decide (pc = .holds)

/-- at most one thread holds the lock -/
def Exclusive : Prop := s.holders ≤ 1

instance : DecidablePred Exclusive := fun s => inferInstanceAs (Decidable (s.holders ≤ 1))

/-- thread `i` is at the compare-exchange of `_m_wait_for_lock` -/
def AtExchange (i : Nat) : Prop := ∃ expected, s.threads[i]? = some (.exchange expected)

/-- no thread makes its compare-exchange in `_m_wait_for_lock` while the word is `LOCKED` -/
def FreeAtExchange : Action → Prop
  | .next i => s.AtExchange i → s.flag ≠ LOCKED
  | _ => True

/-- what holds while the lock was never taken twice -/
structure Inv : Prop where
  /-- the word says whether a thread holds the lock -/
  word : s.flag = s.holders
  one : s.holders ≤ 1
  /-- the `expected` of every waiting thread is `LOCKED` -/
  expected : ∀ pc ∈ s.threads, ∀ e, pc = .load e ∨ pc = .exchange e → e = LOCKED

variable {s}

theorem start_inv (n : Nat) : (start n).Inv := by
  have hout : ∀ pc ∈ List.replicate n Pc.out, pc = .out := fun pc hpc => List.eq_of_mem_replicate hpc
  have hzero : (start n).holders = 0 := by
    refine List.countP_eq_zero.mpr fun pc hpc => ?_
    rw [hout pc hpc]
    decide
  refine ⟨hzero.symm, by omega, fun pc hpc e he => ?_⟩
  rw [hout pc hpc] at he
  rcases he with he | he <;> cases he

theorem goTo_holders {i : Nat} {pc : Pc} (hpc : s.threads[i]? = some pc) (pc' : Pc) (flag : Nat) :
    (s.goTo i pc' flag).holders + (if pc = .holds then 1 else 0)
      = s.holders + if pc' = .holds then 1 else 0 := by
  have h := countP_set (fun pc => decide (pc = Pc.holds)) hpc pc'
  simp only [decide_eq_true_eq] at h
  exact h

theorem Inv.goTo (h : s.Inv) {i : Nat} {pc pc' : Pc} {flag : Nat} (hpc : s.threads[i]? = some pc)
    (hflag : flag + (if pc = .holds then 1 else 0) = s.flag + if pc' = .holds then 1 else 0)
    (hone : flag ≤ 1) (he : ∀ e, pc' = .load e ∨ pc' = .exchange e → e = LOCKED) :
    (s.goTo i pc' flag).Inv := by
  have hcount := goTo_holders hpc pc' flag
  have hword := h.word
  have hnew : flag = (s.goTo i pc' flag).holders := by omega
  refine ⟨hnew, hnew ▸ hone, fun q hq e hqe => ?_⟩
  rcases List.mem_or_eq_of_mem_set hq with hq | rfl
  · exact h.expected q hq e hqe
  · exact he e hqe

theorem Inv.take (h : s.Inv) {i : Nat} {pc : Pc} (hpc : s.threads[i]? = some pc) (hout : pc ≠ .holds)
    (hfree : s.flag = UNLOCKED) : (s.goTo i .holds LOCKED).Inv := by
  refine h.goTo hpc ?_ (Nat.le_refl 1) (fun e he => by rcases he with he | he <;> cases he)
  rw [if_neg hout, if_pos rfl, hfree]
  rfl

theorem Inv.move (h : s.Inv) {i : Nat} {pc pc' : Pc} (hpc : s.threads[i]? = some pc) (hout : pc ≠ .holds)
    (hout' : pc' ≠ .holds) (he : ∀ e, pc' = .load e ∨ pc' = .exchange e → e = LOCKED) :
    (s.goTo i pc' s.flag).Inv := by
  have hone := h.one
  refine h.goTo hpc ?_ (h.word ▸ hone) he
  rw [if_neg hout, if_neg hout']

theorem Inv.next (h : s.Inv) {i : Nat} {pc : Pc} (hpc : s.threads[i]? = some pc)
    (hC : s.AtExchange i → s.flag ≠ LOCKED) {t : State} (ht : s.next i pc = some t) : t.Inv := by
  have hexp := h.expected pc (List.mem_of_getElem? hpc)
  cases pc with
  | load e =>
    rw [← Option.some.inj ht]
    have he : e = LOCKED := hexp e (.inl rfl)
    split
    · refine h.move hpc (by simp) (by simp) fun e' he' => ?_
      rcases he' with he' | he'
      · cases he'
      · exact Pc.exchange.inj he' ▸ he
    · exact h.move hpc (by simp) (by decide) (by simp)
  | exchange e =>
    -- `expected` is `LOCKED` and the word is not: it fails
    rw [← Option.some.inj ht]
    have hne : s.flag ≠ e := hexp e (.inr rfl) ▸ hC ⟨e, hpc⟩
    rw [if_neg hne]
    exact h.move hpc (by simp) (by decide) (by simp)
  | wait =>
    rw [← Option.some.inj ht]
    refine h.move hpc (by decide) (by decide) fun e he => ?_
    rcases he with he | he
    · exact (Pc.load.inj he).symm
    · cases he
  | wake =>
    rw [← Option.some.inj ht]
    exact h.move hpc (by decide) (by decide) (by simp)
  | out => cases ht
  | holds => cases ht

/-- **One step** keeps the invariant, unless it is a compare-exchange on a locked word. -/
theorem Inv.step (h : s.Inv) {a : Action} (hC : s.FreeAtExchange a) {t : State}
    (ht : s.step a = some t) : t.Inv := by
  cases a with
  | lock i =>
    unfold State.step at ht
    dsimp only at ht
    split at ht
    · rename_i hpc
      rw [← Option.some.inj ht]
      split
      · exact h.take hpc (by decide) ‹_›
      · refine h.move hpc (by decide) (by decide) fun e he => ?_
        rcases he with he | he
        · exact (Pc.load.inj he).symm
        · cases he
    · cases ht
  | tryLock i =>
    unfold State.step at ht
    dsimp only at ht
    split at ht
    · rename_i hpc
      rw [← Option.some.inj ht]
      split
      · exact h.take hpc (by decide) ‹_›
      · exact h.move hpc (by decide) (by decide) (by simp)
    · cases ht
  | unlock i =>
    unfold State.step at ht
    dsimp only at ht
    split at ht
    · rename_i hpc
      rw [← Option.some.inj ht]
      -- the thread holds the lock, so the word is `LOCKED`
      have hcount := goTo_holders hpc .wake UNLOCKED
      have hword := h.word
      have hone := h.one
      refine h.goTo hpc ?_ (by decide) (by simp)
      simp only [reduceCtorEq, ↓reduceIte] at hcount ⊢
      show 0 + 1 = _
      omega
    · cases ht
  | next i =>
    obtain ⟨pc, hpc, hn⟩ := Option.bind_eq_some_iff.mp ht
    exact h.next hpc hC hn

/-- **The compare-exchange on a locked word gives the lock to a second thread.** -/
theorem free_of_exclusive (h : s.Inv) {a : Action} {t : State} (hP : t.Exclusive)
    (ht : s.step a = some t) : s.FreeAtExchange a := by
  cases a with
  | next i =>
    rintro ⟨e, hpc⟩ hflag
    obtain ⟨pc, hpc', hn⟩ := Option.bind_eq_some_iff.mp ht
    obtain rfl : Pc.exchange e = pc := Option.some.inj (hpc.symm.trans hpc')
    have he : e = LOCKED := h.expected _ (List.mem_of_getElem? hpc) e (.inr rfl)
    have heq : s.flag = e := hflag.trans he.symm
    rw [← Option.some.inj hn, if_pos heq] at hP
    have hcount := goTo_holders hpc .holds LOCKED
    have hword := h.word
    rw [if_neg (by simp), if_pos rfl, ← hword, hflag] at hcount
    have htwo : (s.goTo i .holds LOCKED).holders = 2 := hcount
    unfold Exclusive at hP
    omega
  | _ => exact trivial

end State

/-- **Mutual exclusion.**  For any number of threads and any interleaving of their steps, at most one
thread holds the lock in every state exactly when no thread makes the compare-exchange of
`_m_wait_for_lock` while the word is `LOCKED`. -/
theorem mutual_exclusion (n : Nat) (as : List Action) :
    Always State.step State.Exclusive (start n) as ↔ Every State.step State.FreeAtExchange (start n) as :=
  always_iff_every_of (Q := State.Inv) (fun _ h => h.one) (fun _ _ _ h hC ht => h.step hC ht)
    (fun _ _ _ h hP ht => State.free_of_exclusive h hP ht) as (State.start_inv n)

/-- thread `1` waits and loads `UNLOCKED` right after the first unlock; thread `2` takes the lock; the
compare-exchange of thread `1` succeeds -/
theorem two_threads_hold :
    ¬ Always State.step State.Exclusive (start 3)
      [.lock 0, .lock 1, .unlock 0, .next 1, .tryLock 2, .next 1] := by
  decide

end Futex

end Sync
end Ipcpp
