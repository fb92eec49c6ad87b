import Ipcpp.Lib.Counting
import Ipcpp.Lib.Runs

/-!
# Locks on files

`file_lock` and `InterProcessLock` lock a file with `fcntl`, and `unique_file_lock` and `shared_file_lock` are
guards of a `file_lock`.  The kernel keeps the locks by process: a process has one lock on a file, whichever of
its objects asked for it, a new one takes the place of the old one, and `unlock` takes it away, as does closing
any descriptor of the file.  Two objects of one process do not exclude each other.

An object has the lock, as its user sees it, from the last call that took it up to its `unlock`.

* `locks_agree_iff`   the kernel has for each process what its objects have, and an object that has a lock
                      exclusively is the only one that has it: exactly as long as no object takes, gives back or
                      closes what another one of its process has;
* `one_each`          so it is if a process never has two objects for one file.
-/

namespace Ipcpp
namespace FileLock
open Counting Runs

inductive Mode where
  | shared
  | exclusive
deriving DecidableEq

/-- what the kernel has for a process and a file -/
structure Lock where
  process : Nat
  file : String
  mode : Mode
deriving DecidableEq

/-- a lock object or a guard -/
structure Holder where
  process : Nat
  file : String
  held : Option Mode

structure State where
  locks : List Lock
  holders : List (Option Holder)

def init : State := ⟨[], []⟩

inductive Action where
  /-- a constructor -/
  | create (process : Nat) (file : String)
  /-- `lock` and `lock_shared`, which wait -/
  | lock (k : Nat) (mode : Mode)
  /-- `try_lock` and `try_lock_shared` -/
  | tryLock (k : Nat) (mode : Mode)
  /-- `unlock` and `unlock_shared` -/
  | unlock (k : Nat)
  /-- a destructor: `close` of the descriptor, or the `unlock` of a guard -/
  | destroy (k : Nat)
  /-- the end of a process, with or without its destructors -/
  | exit (process : Nat)

namespace State
variable (s : State)

def holder (k : Nat) : Option Holder := s.holders[k]?.join

/-- no other process has a lock on the file that is in the way -/
def free (process : Nat) (file : String) (mode : Mode) : Prop :=
  ∀ l ∈ s.locks, l.file = file → l.process ≠ process → mode = .shared ∧ l.mode = .shared

instance (process : Nat) (file : String) (mode : Mode) : Decidable (s.free process file mode) :=
  inferInstanceAs (Decidable (∀ l ∈ s.locks, _))

/-- the locks but the one that the process has on the file -/
def without (process : Nat) (file : String) : List Lock :=
  s.locks.filter fun l => !(l.process = process ∧ l.file = file)

def take (k : Nat) (h : Holder) (mode : Mode) : State :=
  ⟨s.without h.process h.file ++ [⟨h.process, h.file, mode⟩], s.holders.set k (some { h with held := some mode })⟩

def drop (k : Nat) (h : Holder) (rest : Option Holder) : State := ⟨s.without h.process h.file, s.holders.set k rest⟩

def step : Action → Option State
  | .create process file => some { s with holders := s.holders ++ [some ⟨process, file, none⟩] }
  | .lock k mode => (s.holder k).bind fun h => if s.free h.process h.file mode then some (s.take k h mode) else none
  | .tryLock k mode => (s.holder k).map fun h => if s.free h.process h.file mode then s.take k h mode else s
  | .unlock k => (s.holder k).map fun h => s.drop k h (some { h with held := none })
  | .destroy k => (s.holder k).map fun h => s.drop k h none
  | .exit process => some ⟨s.locks.filter fun l => l.process ≠ process,
      s.holders.map fun h => h.filter fun h => h.process ≠ process⟩

/-- the other objects of the process have nothing on the file that is in the way -/
def Others (k : Nat) (h : Holder) (ok : Mode → Prop) : Prop :=
  ∀ j h', j ≠ k → s.holder j = some h' → h'.process = h.process → h'.file = h.file → ∀ mode ∈ h'.held, ok mode

/-- the condition on a step -/
def Apart : Action → Prop
  | .lock k mode => ∀ h, s.holder k = some h → s.Others k h fun other => mode = .shared ∧ other = .shared
  | .tryLock k mode => ∀ h, s.holder k = some h → s.free h.process h.file mode →
      s.Others k h fun other => mode = .shared ∧ other = .shared
  | .unlock k => ∀ h, s.holder k = some h → s.Others k h fun _ => False
  | .destroy k => ∀ h, s.holder k = some h → s.Others k h fun _ => False
  | _ => True

/-- what is meant to hold -/
structure Agree : Prop where
  /-- the kernel has what the objects have -/
  held : ∀ k h mode, s.holder k = some h → h.held = some mode → ⟨h.process, h.file, mode⟩ ∈ s.locks
  /-- and nothing else -/
  known : ∀ l ∈ s.locks, ∃ k h, s.holder k = some h ∧ h.process = l.process ∧ h.file = l.file ∧ h.held = some l.mode
  exclusive : ∀ k j h h', k ≠ j → s.holder k = some h → s.holder j = some h' → h.file = h'.file →
    h.held = some .exclusive → h'.held = none

end State

/-! ## one step -/

section
variable {s t : State} {k : Nat} {h : Holder} {l : Lock} {mode : Mode}

theorem init_agree : init.Agree where
  held k h mode hk := by cases hk
  known := nofun
  exclusive k j h h' hne hk := by cases hk

theorem mem_without {process : Nat} {file : String} :
    l ∈ s.without process file ↔ l ∈ s.locks ∧ ¬ (l.process = process ∧ l.file = file) := by
  unfold State.without
  rw [List.mem_filter]
  refine and_congr_right fun _ => ?_
  rw [Bool.not_eq_true', decide_eq_false_iff_not]

theorem holder_eq_some : s.holder k = some h ↔ s.holders[k]? = some (some h) := Option.join_eq_some_iff

theorem holder_set {locks : List Lock} (hk : s.holder k = some h) (rest : Option Holder) (j : Nat) :
    State.holder ⟨locks, s.holders.set k rest⟩ j = if j = k then rest else s.holder j := by
  unfold State.holder
  dsimp only
  split
  · rename_i hjk
    rw [hjk, List.getElem?_set_self (List.getElem?_eq_some_iff.mp (holder_eq_some.mp hk)).1]
    rfl
  · rename_i hjk
    rw [List.getElem?_set_ne (Ne.symm hjk)]

theorem holder_drop (hk : s.holder k = some h) {rest : Option Holder}
    (hrest : ∀ h', rest = some h' → h'.process = h.process ∧ h'.file = h.file ∧ h'.held = none) {j : Nat}
    {h' : Holder} {mode : Mode} (hj : (s.drop k h rest).holder j = some h') (hheld : h'.held = some mode) :
    j ≠ k ∧ s.holder j = some h' := by
  rw [State.drop, holder_set hk] at hj
  split at hj
  · rw [(hrest h' hj).2.2] at hheld
    cases hheld
  · exact ⟨‹_›, hj⟩

/-- **An object gives back what its process has.** -/
theorem agree_drop (hs : s.Agree) (hk : s.holder k = some h) {rest : Option Holder}
    (hrest : ∀ h', rest = some h' → h'.process = h.process ∧ h'.file = h.file ∧ h'.held = none) :
    (s.drop k h rest).Agree ↔ s.Others k h fun _ => False := by
  constructor
  · intro ht j h' hjk hj hprocess hfile mode hheld
    have hj' : (s.drop k h rest).holder j = some h' := by
      rw [State.drop, holder_set hk, if_neg hjk]
      exact hj
    exact (mem_without.mp (ht.held j h' mode hj' hheld)).2 ⟨hprocess, hfile⟩
  · intro hothers
    refine ⟨fun j h' mode hj hheld => ?_, fun l hl => ?_, fun i j g g' hij hi hj hfile hheld => ?_⟩
    · obtain ⟨hjk, hj⟩ := holder_drop hk hrest hj hheld
      exact mem_without.mpr ⟨hs.held j h' mode hj hheld, fun heq => hothers j h' hjk hj heq.1 heq.2 mode hheld⟩
    · obtain ⟨hl, hne⟩ := mem_without.mp hl
      obtain ⟨j, h', hj, hprocess, hfile, hheld⟩ := hs.known l hl
      refine ⟨j, h', ?_, hprocess, hfile, hheld⟩
      have hjk : j ≠ k := fun hjk => by
        subst hjk
        obtain rfl := Option.some.inj (hk.symm.trans hj)
        exact hne ⟨hprocess.symm, hfile.symm⟩
      rw [State.drop, holder_set hk, if_neg hjk]
      exact hj
    · obtain ⟨-, hi⟩ := holder_drop hk hrest hi hheld
      by_contra hne
      obtain ⟨mode, hmode⟩ := Option.ne_none_iff_exists'.mp hne
      obtain ⟨-, hj⟩ := holder_drop hk hrest hj hmode
      rw [hs.exclusive i j g g' hij hi hj hfile hheld] at hmode
      cases hmode

theorem holder_take (hk : s.holder k = some h) (j : Nat) :
    (s.take k h mode).holder j = if j = k then some { h with held := some mode } else s.holder j := by
  rw [State.take, holder_set hk]

theorem compatible_of_free (hs : s.Agree) (hfree : s.free h.process h.file mode)
    (hothers : s.Others k h fun other => mode = .shared ∧ other = .shared) {j : Nat} {h' : Holder} (hjk : j ≠ k)
    (hj : s.holder j = some h') (hfile : h'.file = h.file) {mode' : Mode} (hheld : h'.held = some mode') :
    mode = .shared ∧ mode' = .shared := by
  by_cases hprocess : h'.process = h.process
  · exact hothers j h' hjk hj hprocess hfile mode' hheld
  · exact hfree _ (hs.held j h' mode' hj hheld) hfile hprocess

/-- **An object takes the lock for its process.** -/
theorem agree_take (hs : s.Agree) (hk : s.holder k = some h) (hfree : s.free h.process h.file mode) :
    (s.take k h mode).Agree ↔ s.Others k h fun other => mode = .shared ∧ other = .shared := by
  constructor
  · intro ht j h' hjk hj hprocess hfile mode' hheld
    have hk' : (s.take k h mode).holder k = some { h with held := some mode } := by
      rw [holder_take hk, if_pos rfl]
    have hj' : (s.take k h mode).holder j = some h' := by
      rw [holder_take hk, if_neg hjk]
      exact hj
    constructor
    · by_contra hne
      obtain rfl : mode = .exclusive := by cases mode <;> first | rfl | exact (hne rfl).elim
      have hnone := ht.exclusive k j _ h' (Ne.symm hjk) hk' hj' hfile.symm rfl
      rw [hheld] at hnone
      cases hnone
    · by_contra hne
      obtain rfl : mode' = .exclusive := by cases mode' <;> first | rfl | exact (hne rfl).elim
      cases ht.exclusive j k h' _ hjk hj' hk' hfile hheld
  · intro hothers
    have hcompatible : ∀ j h', j ≠ k → s.holder j = some h' → h'.file = h.file → ∀ mode', h'.held = some mode' →
        mode = .shared ∧ mode' = .shared := fun j h' hjk hj hfile mode' hheld =>
      compatible_of_free hs hfree hothers hjk hj hfile hheld
    refine ⟨fun j h' mode' hj hheld => ?_, fun l hl => ?_, fun i j g g' hij hi hj hfile hheld => ?_⟩
    · rw [holder_take hk] at hj
      split at hj
      · obtain rfl := Option.some.inj hj
        obtain rfl := Option.some.inj hheld
        exact List.mem_append_right _ (List.mem_singleton_self _)
      · rename_i hjk
        by_cases heq : h'.process = h.process ∧ h'.file = h.file
        · obtain ⟨rfl, rfl⟩ := hcompatible j h' hjk hj heq.2 mode' hheld
          rw [heq.1, heq.2]
          exact List.mem_append_right _ (List.mem_singleton_self _)
        · exact List.mem_append_left _ (mem_without.mpr ⟨hs.held j h' mode' hj hheld, heq⟩)
    · rcases List.mem_append.mp hl with hl | hl
      · obtain ⟨hl, hne⟩ := mem_without.mp hl
        obtain ⟨j, h', hj, hprocess, hfile, hheld⟩ := hs.known l hl
        refine ⟨j, h', ?_, hprocess, hfile, hheld⟩
        have hjk : j ≠ k := fun hjk => by
          subst hjk
          obtain rfl := Option.some.inj (hk.symm.trans hj)
          exact hne ⟨hprocess.symm, hfile.symm⟩
        rw [holder_take hk, if_neg hjk]
        exact hj
      · obtain rfl := List.mem_singleton.mp hl
        exact ⟨k, { h with held := some mode }, by rw [holder_take hk, if_pos rfl], rfl, rfl, rfl⟩
    · rw [holder_take hk] at hi hj
      split at hi
      · rename_i hik
        obtain rfl := Option.some.inj hi
        obtain rfl := Option.some.inj hheld
        have hjk : j ≠ k := fun hjk => hij (hik.trans hjk.symm)
        rw [if_neg hjk] at hj
        by_contra hne
        obtain ⟨mode', hmode'⟩ := Option.ne_none_iff_exists'.mp hne
        cases (hcompatible j g' hjk hj hfile.symm mode' hmode').1
      · rename_i hik
        split at hj
        · obtain rfl := Option.some.inj hj
          cases (hcompatible i g hik hi hfile _ hheld).2
        · exact hs.exclusive i j g g' hij hi hj hfile hheld

theorem holder_exit (locks : List Lock) (process k : Nat) (h : Holder) :
    State.holder ⟨locks, s.holders.map fun h => h.filter fun h => h.process ≠ process⟩ k = some h ↔
      s.holder k = some h ∧ h.process ≠ process := by
  rw [holder_eq_some, holder_eq_some, List.getElem?_map]
  cases s.holders[k]? with
  | none => exact iff_of_false nofun fun h => nomatch h.1
  | some o => simp only [Option.map_some, Option.some.injEq, Option.filter_eq_some_iff, decide_eq_true_eq]

theorem agree_exit (hs : s.Agree) (process : Nat) :
    State.Agree ⟨s.locks.filter fun l => l.process ≠ process,
      s.holders.map fun h => h.filter fun h => h.process ≠ process⟩ := by
  have hholder := @holder_exit s (s.locks.filter fun l => l.process ≠ process) process
  refine ⟨fun k h mode hk hheld => ?_, fun l hl => ?_, fun i j g g' hij hi hj hfile hheld => ?_⟩
  · obtain ⟨hk, hne⟩ := (hholder k h).mp hk
    exact List.mem_filter.mpr ⟨hs.held k h mode hk hheld, decide_eq_true hne⟩
  · obtain ⟨hl, hne⟩ := List.mem_filter.mp hl
    obtain ⟨k, h, hk, hprocess, hfile, hheld⟩ := hs.known l hl
    exact ⟨k, h, (hholder k h).mpr ⟨hk, hprocess ▸ of_decide_eq_true hne⟩, hprocess, hfile, hheld⟩
  · exact hs.exclusive i j g g' hij ((hholder i g).mp hi).1 ((hholder j g').mp hj).1 hfile hheld

theorem agree_create (hs : s.Agree) (process : Nat) (file : String) :
    State.Agree { s with holders := s.holders ++ [some ⟨process, file, none⟩] } := by
  have hholder : ∀ k h mode,
      State.holder { s with holders := s.holders ++ [some ⟨process, file, none⟩] } k = some h →
      h.held = some mode → s.holder k = some h := fun k h mode hk hheld => by
    rw [holder_eq_some] at hk
    rcases List.mem_append.mp (List.mem_of_getElem? hk) with - | hnew
    · rw [List.getElem?_append] at hk
      split at hk
      · exact holder_eq_some.mpr hk
      · obtain rfl := Option.some.inj (List.mem_singleton.mp (List.mem_of_getElem? hk))
        cases hheld
    · obtain rfl := Option.some.inj (List.mem_singleton.mp hnew)
      cases hheld
  refine ⟨fun k h mode hk hheld => hs.held k h mode (hholder k h mode hk hheld) hheld, fun l hl => ?_,
    fun i j g g' hij hi hj hfile hheld => ?_⟩
  · obtain ⟨k, h, hk, hrest⟩ := hs.known l hl
    refine ⟨k, h, holder_eq_some.mpr ?_, hrest⟩
    have hk := holder_eq_some.mp hk
    exact (List.getElem?_append_left (List.getElem?_eq_some_iff.mp hk).1).trans hk
  · by_contra hne
    obtain ⟨mode, hmode⟩ := Option.ne_none_iff_exists'.mp hne
    rw [hs.exclusive i j g g' hij (hholder i g _ hi hheld) (hholder j g' mode hj hmode) hfile hheld] at hmode
    cases hmode

/-- **A step keeps the agreement exactly under its condition.** -/
theorem agree_step {a : Action} (hs : s.Agree) (ht : s.step a = some t) : t.Agree ↔ s.Apart a := by
  cases a with
  | create process file => exact iff_of_true (Option.some.inj ht ▸ agree_create hs process file) trivial
  | lock k mode =>
    obtain ⟨h, hk, ht⟩ := Option.bind_eq_some_iff.mp ht
    split at ht
    · rename_i hfree
      rw [← Option.some.inj ht, agree_take hs hk hfree]
      exact ⟨fun h' g hg => Option.some.inj (hk.symm.trans hg) ▸ h', fun hC => hC h hk⟩
    · cases ht
  | tryLock k mode =>
    obtain ⟨h, hk, rfl⟩ := Option.map_eq_some_iff.mp ht
    split
    · rename_i hfree
      rw [agree_take hs hk hfree]
      exact ⟨fun h' g hg _ => Option.some.inj (hk.symm.trans hg) ▸ h', fun hC => hC h hk hfree⟩
    · rename_i hfree
      exact iff_of_true hs fun g hg hfree' => (hfree (Option.some.inj (hk.symm.trans hg) ▸ hfree')).elim
  | unlock k =>
    obtain ⟨h, hk, rfl⟩ := Option.map_eq_some_iff.mp ht
    have hdrop : (s.drop k h (some { h with held := none })).Agree ↔ _ :=
      agree_drop hs hk fun h' heq => Option.some.inj heq ▸ ⟨rfl, rfl, rfl⟩
    exact hdrop.trans ⟨fun h' g hg => Option.some.inj (hk.symm.trans hg) ▸ h', fun hC => hC h hk⟩
  | destroy k =>
    obtain ⟨h, hk, rfl⟩ := Option.map_eq_some_iff.mp ht
    have hdrop : (s.drop k h none).Agree ↔ _ := agree_drop hs hk fun h' heq => nomatch heq
    exact hdrop.trans ⟨fun h' g hg => Option.some.inj (hk.symm.trans hg) ▸ h', fun hC => hC h hk⟩
  | exit process => exact iff_of_true (Option.some.inj ht ▸ agree_exit hs process) trivial

/-! ## one object for each file -/

/-- a process has at most one object for a file -/
def State.Unique (s : State) : Prop := ∀ j k h h', s.holder j = some h → s.holder k = some h' →
  h.process = h'.process → h.file = h'.file → j = k

/-- no second object for the same file -/
def State.Single (s : State) : Action → Prop
  | .create process file => ∀ o ∈ s.holders, ∀ h ∈ o, ¬ (h.process = process ∧ h.file = file)
  | _ => True

instance (s : State) : (a : Action) → Decidable (s.Single a)
  | .create process file =>
    inferInstanceAs (Decidable (∀ o ∈ s.holders, ∀ h ∈ o, ¬ (h.process = process ∧ h.file = file)))
  | .lock _ _ | .tryLock _ _ | .unlock _ | .destroy _ | .exit _ => isTrue trivial

theorem State.Unique.apart (hu : s.Unique) (a : Action) : s.Apart a := by
  have hothers : ∀ k h ok, s.holder k = some h → s.Others k h ok := fun k h ok hk j h' hjk hj hprocess hfile =>
    (hjk (hu j k h' h hj hk hprocess hfile)).elim
  cases a with
  | lock k mode => exact fun h hk => hothers k h _ hk
  | tryLock k mode => exact fun h hk _ => hothers k h _ hk
  | unlock k => exact fun h hk => hothers k h _ hk
  | destroy k => exact fun h hk => hothers k h _ hk
  | _ => trivial

theorem State.Unique.of_same (hu : s.Unique) (hsame : ∀ j h, t.holder j = some h →
    ∃ g, s.holder j = some g ∧ g.process = h.process ∧ g.file = h.file) : t.Unique := by
  intro j k h h' hj hk hprocess hfile
  obtain ⟨g, hg, hgp, hgf⟩ := hsame j h hj
  obtain ⟨g', hg', hgp', hgf'⟩ := hsame k h' hk
  exact hu j k g g' hg hg' (hgp.trans (hprocess.trans hgp'.symm)) (hgf.trans (hfile.trans hgf'.symm))

theorem same_set {locks : List Lock} (hk : s.holder k = some h) {rest : Option Holder}
    (hrest : ∀ h', rest = some h' → h.process = h'.process ∧ h.file = h'.file) (j : Nat) (h' : Holder)
    (hj : State.holder ⟨locks, s.holders.set k rest⟩ j = some h') :
    ∃ g, s.holder j = some g ∧ g.process = h'.process ∧ g.file = h'.file := by
  rw [holder_set hk] at hj
  split at hj
  · rename_i hjk
    exact ⟨h, hjk ▸ hk, hrest h' hj⟩
  · exact ⟨h', hj, rfl, rfl⟩

theorem State.Unique.step {a : Action} (hu : s.Unique) (hC : s.Single a) (ht : s.step a = some t) : t.Unique := by
  cases a with
  | create process file =>
    rw [← Option.some.inj ht]
    -- the new object is the last one
    have hholder : ∀ j h, State.holder { s with holders := s.holders ++ [some ⟨process, file, none⟩] } j = some h →
        s.holder j = some h ∨ j = s.holders.length ∧ h.process = process ∧ h.file = file := fun j h hj => by
      rw [holder_eq_some] at hj
      rcases lt_or_ge j s.holders.length with hlt | hge
      · exact .inl (holder_eq_some.mpr ((List.getElem?_append_left hlt).symm.trans hj))
      · rw [List.getElem?_append_right hge] at hj
        have hzero : j - s.holders.length = 0 := Nat.lt_one_iff.mp (List.getElem?_eq_some_iff.mp hj).1
        rw [hzero] at hj
        obtain rfl := Option.some.inj (Option.some.inj hj)
        exact .inr ⟨by omega, rfl, rfl⟩
    have hnew : ∀ j h, s.holder j = some h → ¬ (h.process = process ∧ h.file = file) := fun j h hj =>
      hC _ (List.mem_of_getElem? (holder_eq_some.mp hj)) h rfl
    intro j k h h' hj hk hprocess hfile
    rcases hholder j h hj with hj | ⟨hj, hjp, hjf⟩ <;> rcases hholder k h' hk with hk | ⟨hk, hkp, hkf⟩
    · exact hu j k h h' hj hk hprocess hfile
    · exact (hnew j h hj ⟨hprocess.trans hkp, hfile.trans hkf⟩).elim
    · exact (hnew k h' hk ⟨hprocess.symm.trans hjp, hfile.symm.trans hjf⟩).elim
    · exact hj.trans hk.symm
  | lock k mode =>
    obtain ⟨h, hk, ht⟩ := Option.bind_eq_some_iff.mp ht
    split at ht
    · rw [← Option.some.inj ht]
      exact hu.of_same (same_set hk fun h' heq => Option.some.inj heq ▸ ⟨rfl, rfl⟩)
    · cases ht
  | tryLock k mode =>
    obtain ⟨h, hk, rfl⟩ := Option.map_eq_some_iff.mp ht
    split
    · exact hu.of_same (same_set hk fun h' heq => Option.some.inj heq ▸ ⟨rfl, rfl⟩)
    · exact hu
  | unlock k =>
    obtain ⟨h, hk, rfl⟩ := Option.map_eq_some_iff.mp ht
    exact hu.of_same (same_set hk fun h' heq => Option.some.inj heq ▸ ⟨rfl, rfl⟩)
  | destroy k =>
    obtain ⟨h, hk, rfl⟩ := Option.map_eq_some_iff.mp ht
    exact hu.of_same (same_set hk fun h' heq => nomatch heq)
  | exit process =>
    rw [← Option.some.inj ht]
    exact hu.of_same fun j h hj => ⟨h, (holder_exit _ process j h).mp hj |>.1, rfl, rfl⟩

end

/-- **Locks exclude each other** across processes, and objects have what the kernel has for them, in every state of a
run exactly if in no step an object takes, gives back or closes what another object of its process has. -/
theorem locks_agree_iff (as : List Action) :
    Always State.step State.Agree init as ↔ Every State.step State.Apart init as :=
  always_iff_every (I := fun _ => True) (fun _ _ _ _ _ => trivial) (fun _ _ _ _ hs ht => agree_step hs ht) as trivial
    init_agree

/-- a process that has one object for each file at a time, such as the registry of shared memory, whose calls have a
mutex, is shut out by the locks of others and by nothing else -/
theorem one_each {as : List Action} {s : State} (hsingle : Every State.step State.Single init as)
    (hrun : run State.step init as = some s) : s.Agree :=
  (run_inv_of_every (I := fun s => s.Agree ∧ s.Unique)
    (fun _ a _ h hC ht => ⟨(agree_step h.1 ht).mpr (h.2.apart a), h.2.step hC ht⟩) as
    ⟨init_agree, fun _ _ _ _ hj => nomatch hj⟩ hsingle hrun).1

/-- a second object for the same file is destroyed, and another process gets the lock that the first one has -/
example : (run State.step init [.create 0 "global", .create 0 "global", .lock 0 .exclusive, .destroy 1,
    .create 1 "global", .tryLock 2 .exclusive]).map (fun s => s.holders.map fun o => o.bind Holder.held) =
      some [some .exclusive, none, some .exclusive] := by decide

end FileLock
end Ipcpp
