import Ipcpp.Lib.Runs

/-!
# Values that are read a number of times (`reference_counted`)

A value and a counter of the accesses that remain.  The destructor of a `data_access` takes one off and resets
the value at the last one.  `consume` returns an optional that is made of a temporary `data_access`; as there is
no move constructor the access in the optional is a copy, and the destructor of the temporary takes one off as
well.  Nothing looks at the accesses that are alive.

`counts_iff`: the value is there as long as it is read, and gone with the last of `n` accesses, exactly as long
as every destructor leaves something to take off; each access takes two.
-/

namespace Ipcpp
namespace ReferenceCounted
open Runs

/-- a `reference_counted<T>` and the accesses that refer to it: those that `consume` returned since the value was
set, and older ones; `destroyed` counts those that it returned since and that were destroyed -/
structure State (T : Type) where
  data : Option T
  remaining : Nat
  live : Nat
  stale : Nat
  destroyed : Nat
  /-- the counter was taken below zero -/
  wrapped : Bool

inductive Action where
  | consume
  /-- an access is destroyed that was returned since the value was set -/
  | destroy
  /-- and one that was returned before -/
  | destroyStale
deriving DecidableEq

section
variable {T : Type}

/-- `reference_counted(data, max_num_accesses)` -/
def construct (n : Nat) (v : T) : State T := ⟨some v, n, 0, 0, 0, false⟩

namespace State
variable (s : State T)

/-- `emplace(remaining_accesses, args…)` -/
def emplace (n : Nat) (v : T) : State T :=
  { data := some v, remaining := n, live := 0, stale := s.live + s.stale, destroyed := 0, wrapped := false }

/-- `~data_access`: `fetch_sub(1)`, and the reset if it was the last -/
def release : State T :=
  { s with
    data := if s.remaining = 1 then none else s.data
    remaining := (s.remaining + (2^64 - 1)) % 2^64
    wrapped := s.wrapped || s.remaining = 0 }

/-- `consume`: the access is copied into the optional, then the temporary is destroyed -/
def consume : State T :=
  if s.data.isSome then release { s with live := s.live + 1 } else s

def step : Action → Option (State T)
  | .consume => some s.consume
  | .destroy =>
    if s.live = 0 then none else some (release { s with live := s.live - 1, destroyed := s.destroyed + 1 })
  | .destroyStale => if s.stale = 0 then none else some (release { s with stale := s.stale - 1 })

/-- `n` accesses to the value `v` -/
structure Counts (n : Nat) (v : T) : Prop where
  /-- the value is readable through every access -/
  readable : 0 < s.live + s.stale → s.data = some v
  /-- it is reset when the `n`-th access is destroyed -/
  reset_iff : s.data = none ↔ 1 ≤ n ∧ n ≤ s.destroyed
  no_wrap : s.wrapped = false

def LeavesOne (_ : Action) : Prop := 2 ≤ s.remaining

instance (a : Action) : Decidable (s.LeavesOne a) := inferInstanceAs (Decidable (_ ≤ _))

/-! ## one step -/

/-- the value is there, and the counter has gone down by two for each access that was destroyed -/
structure Holds (n : Nat) (v : T) : Prop where
  data_eq : s.data = some v
  lt : s.remaining < 2^64
  spent : s.remaining + s.live + 2 * s.destroyed ≤ n
  no_wrap : s.wrapped = false

variable {s} {t : State T} {n : Nat} {v : T}

theorem Holds.counts (h : s.Holds n v) : s.Counts n v where
  readable _ := h.data_eq
  reset_iff := by
    rw [h.data_eq]
    refine iff_of_false (fun hd => by cases hd) fun hn => ?_
    have hspent := h.spent
    omega
  no_wrap := h.no_wrap

theorem release_eq (h2 : 2 ≤ s.remaining) (hlt : s.remaining < 2^64) :
    s.release = { s with remaining := s.remaining - 1 } := by
  have hsub : (s.remaining + (2^64 - 1)) % 2^64 = s.remaining - 1 := by omega
  have hone : s.remaining ≠ 1 := by omega
  have hzero : s.remaining ≠ 0 := by omega
  rw [release, hsub, if_neg hone, decide_eq_false hzero, Bool.or_false]

theorem holds_release (hd : s.data = some v) (h2 : 2 ≤ s.remaining) (hlt : s.remaining < 2^64)
    (hw : s.wrapped = false) (hspent : s.remaining - 1 + s.live + 2 * s.destroyed ≤ n) : s.release.Holds n v := by
  rw [release_eq h2 hlt]
  exact ⟨hd, (Nat.sub_le _ 1).trans_lt hlt, hspent, hw⟩

theorem two_le_of_counts (h : s.release.Counts n v) (hn : s.remaining + s.destroyed ≤ n) : 2 ≤ s.remaining := by
  by_contra hlt
  rcases (by omega : s.remaining = 0 ∨ s.remaining = 1) with hzero | hone
  · have hwrapped := h.no_wrap
    rw [release, hzero, decide_eq_true rfl, Bool.or_true] at hwrapped
    cases hwrapped
  · have hnone : s.release.data = none := if_pos hone
    have hgone : n ≤ s.destroyed := (h.reset_iff.mp hnone).2
    omega

theorem Holds.consume_eq (h : s.Holds n v) : s.consume = release { s with live := s.live + 1 } := by
  rw [consume, h.data_eq]
  rfl

/-- **A step that leaves something** -/
theorem Holds.step (h : s.Holds n v) (a : Action) (hC : s.LeavesOne a) (ht : s.step a = some t) : t.Holds n v := by
  have hspent := h.spent
  have h2 : 2 ≤ s.remaining := hC
  cases a with
  | consume =>
    obtain rfl := Option.some.inj ht
    rw [h.consume_eq]
    exact holds_release h.data_eq h2 h.lt h.no_wrap
      (show s.remaining - 1 + (s.live + 1) + 2 * s.destroyed ≤ n by omega)
  | destroy =>
    obtain ⟨hlive, ht⟩ := Option.ite_none_left_eq_some.mp ht
    obtain rfl := Option.some.inj ht
    exact holds_release h.data_eq h2 h.lt h.no_wrap
      (show s.remaining - 1 + (s.live - 1) + 2 * (s.destroyed + 1) ≤ n by omega)
  | destroyStale =>
    obtain ⟨-, ht⟩ := Option.ite_none_left_eq_some.mp ht
    obtain rfl := Option.some.inj ht
    exact holds_release h.data_eq h2 h.lt h.no_wrap (show s.remaining - 1 + s.live + 2 * s.destroyed ≤ n by omega)

/-- **And one that does not** -/
theorem Holds.leavesOne (h : s.Holds n v) (a : Action) (hc : t.Counts n v) (ht : s.step a = some t) :
    s.LeavesOne a := by
  have hspent := h.spent
  cases a with
  | consume =>
    obtain rfl := Option.some.inj ht
    rw [h.consume_eq] at hc
    have h2 := two_le_of_counts hc (show s.remaining + s.destroyed ≤ n by omega)
    exact h2
  | destroy =>
    obtain ⟨hlive, ht⟩ := Option.ite_none_left_eq_some.mp ht
    obtain rfl := Option.some.inj ht
    have h2 := two_le_of_counts hc (show s.remaining + (s.destroyed + 1) ≤ n by omega)
    exact h2
  | destroyStale =>
    obtain ⟨-, ht⟩ := Option.ite_none_left_eq_some.mp ht
    obtain rfl := Option.some.inj ht
    have h2 := two_le_of_counts hc (show s.remaining + s.destroyed ≤ n by omega)
    exact h2

/-! ## whole runs -/

theorem Holds.always_counts_iff (h : s.Holds n v) (as : List Action) :
    Always State.step (Counts · n v) s as ↔ Every State.step State.LeavesOne s as :=
  always_iff_every_of (Q := (Holds · n v)) (fun _ h => h.counts) (fun _ a _ h hC ht => h.step a hC ht)
    (fun _ a _ h hc ht => h.leavesOne a hc ht) as h

theorem construct_holds (n : Nat) (v : T) (hn : n < 2^64) : (construct n v).Holds n v :=
  ⟨rfl, hn, Nat.le_refl n, rfl⟩

theorem emplace_holds (s : State T) (n : Nat) (v : T) (hn : n < 2^64) : (s.emplace n v).Holds n v :=
  ⟨rfl, hn, Nat.le_refl n, rfl⟩

end State

/-- **`n` accesses exactly as long as every destructor leaves something to take off** -/
theorem counts_iff (n : Nat) (v : T) (s : State T) (as : List Action) (hn : n < 2^64) :
    (Always State.step (State.Counts · n v) (construct n v) as
      ↔ Every State.step State.LeavesOne (construct n v) as)
    ∧ (Always State.step (State.Counts · n v) (s.emplace n v) as
      ↔ Every State.step State.LeavesOne (s.emplace n v) as) :=
  ⟨(State.construct_holds n v hn).always_counts_iff as, (s.emplace_holds n v hn).always_counts_iff as⟩

theorem counts_iff_two :
    (Always State.step (State.Counts · 2 7) (construct 2 7) [.consume]
      ↔ Every State.step State.LeavesOne (construct 2 7) [.consume])
    ∧ (Always State.step (State.Counts · 2 7) (State.emplace (construct 1 6) 2 7) [.consume]
      ↔ Every State.step State.LeavesOne (State.emplace (construct 1 6) 2 7) [.consume]) :=
  counts_iff 2 7 (construct 1 6) [.consume] (by decide)

/-- the only access is returned, and the value is gone -/
theorem gone_before_read : ¬ Always State.step (State.Counts · 1 7) (construct 1 7) [.consume] := by
  intro h
  have hread := (always_head (h.2 _ rfl)).readable (by decide)
  exact absurd hread (by decide)

end

end ReferenceCounted
end Ipcpp
