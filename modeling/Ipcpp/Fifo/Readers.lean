import Ipcpp.Lib.Counting
import Ipcpp.Fifo.Message

/-!
# The readers of one FIFO message, step by step

After `emplace(n, id, v)`, with no access alive and no writer acting, `n` readers each call `consume` once
and give the access back once; every atomic operation is a step.

A reader is admitted if the value of `_active_reference_counter` before its own `fetch_add` is below
`_remaining_references`.  A reader that gives its access back decrements `_remaining_references` first and
`_active_reference_counter` last; in between it still counts as active, but its reference is gone.  So a
reader is refused exactly if, when it compares, more readers have given back their reference than had not
entered or had already left when it entered (`admitted_iff`).

The shared lock is never refused: each of the `2n + 2` rounds that fails without reason of its own has
seen a change of the word, and the others change it at most twice each.

`readers_served`: as long as every reader compares in time (and no weak compare-exchange fails four times
without reason for one reader), no reader is refused, all of them see `v`, the value is reset once and by the
last one, and all of them come to the end.
-/

namespace Ipcpp
namespace Fifo
open Counting Runs

inductive Pc where
  /-- at the test of `_opt_value` -/
  | check
  | fetchAdd
  /-- at the comparison with `_remaining_references`.  `active` is what `fetch_add` has returned; `outside`
  (never read) counts the other readers that had not entered or had left at that moment -/
  | compare (active : Int) (outside : Nat)
  /-- at the load of round `r` of `try_lock_shared`; `lost` (never read) counts the rounds that have failed
  without reason -/
  | load (r lost : Nat)
  | exchange (r lost : Nat) (expected : Int)
  /-- holds the access; the next step is the `fetch_sub` of `_remaining_references` -/
  | reading
  | reset
  | unlockShared
  | fetchSub
  | finished
  | refused
deriving DecidableEq

namespace Pc

/-- counted in `_active_reference_counter`: between its `fetch_add` and its `fetch_sub` -/
def active : Pc → Nat
  | compare _ _ | load _ _ | exchange _ _ _ | reading | reset | unlockShared | fetchSub => 1
  | check | fetchAdd | finished | refused => 0

def outside : Pc → Nat
  | check | fetchAdd | finished => 1
  | _ => 0

def released : Pc → Nat
  | reset | unlockShared | fetchSub | finished => 1
  | _ => 0

def locked : Pc → Nat
  | reading | reset | unlockShared => 1
  | _ => 0

def changes : Pc → Nat
  | reading | reset | unlockShared => 1
  | fetchSub | finished => 2
  | _ => 0

def resetting : Pc → Nat
  | reset => 1
  | _ => 0

end Pc

structure Reading (α : Type) where
  message : Message α
  readers : List Pc
  /-- how often the value was reset -/
  resets : Nat

namespace Reading
variable {α : Type}

/-- `n` readers after `emplace(n, id, v)` -/
def start (n id : Nat) (v : α) : Reading α :=
  ⟨Message.emplace {} n id v, List.replicate n .check, 0⟩

section
variable (s : Reading α)

/-- how many readers are at a place of some kind -/
def total (f : Pc → Nat) : Nat := (s.readers.map f).sum

/-- `(_initial_references * 2) + 1` retries, so one round more -/
def rounds : Nat := (s.message.initialReferences * 2 + 1 + 1).toNat

/-- reader `i` is now at `pc` -/
def goTo (i : Nat) (pc : Pc) (m : Message α) : Reading α := ⟨m, s.readers.set i pc, s.resets⟩

/-- the next step of reader `i`; `spurious`: its weak compare-exchange fails whatever the word is -/
def next (i : Nat) (spurious : Bool) : Pc → Option (Reading α)
  | .check => some (s.goTo i (if s.message.optValue.isNone then .refused else .fetchAdd) s.message)
  | .fetchAdd =>
    let active := s.message.activeReferenceCounter
    some (s.goTo i (.compare active (s.total Pc.outside - 1))
      { s.message with activeReferenceCounter := active + 1 })
  | .compare active _ =>
    some (s.goTo i (if active ≥ s.message.remainingReferences then .refused else .load 0 0) s.message)
  | .load r lost =>
    some (s.goTo i
      (if r < s.rounds then
        if s.message.mutex = -1 then .refused else .exchange r lost s.message.mutex
      else .refused) s.message)
  | .exchange r lost expected =>
    some (if s.message.mutex = expected ∧ spurious = false then
        s.goTo i .reading { s.message with mutex := expected + 1 }
      else
        s.goTo i (.load (r + 1) (if s.message.mutex = expected then lost + 1 else lost)) s.message)
  | .reading =>
    let remaining := s.message.remainingReferences
    some (s.goTo i (if remaining = 1 then .reset else .unlockShared)
      { s.message with remainingReferences := remaining - 1 })
  | .reset =>
    some { s.goTo i .unlockShared { s.message with optValue := none } with resets := s.resets + 1 }
  | .unlockShared => some (s.goTo i .fetchSub { s.message with mutex := s.message.mutex - 1 })
  | .fetchSub =>
    some (s.goTo i .finished
      { s.message with activeReferenceCounter := s.message.activeReferenceCounter - 1 })
  | .finished => none
  | .refused => none

/-- reader `a.1` takes a step -/
def step (s : Reading α) (a : Nat × Bool) : Option (Reading α) := (s.readers[a.1]?).bind (s.next a.1 a.2)

/-- a reader that compares: no more readers have given back their reference than were outside when it
entered; a reader that loses a round without reason: it is at most the third one -/
def InTimeAt (spurious : Bool) : Pc → Prop
  | .compare _ outside => s.total Pc.released ≤ outside
  | .exchange _ lost expected => spurious = true → s.message.mutex = expected → lost < 3
  | _ => True

def InTime (a : Nat × Bool) : Prop := ∀ pc ∈ s.readers[a.1]?, s.InTimeAt a.2 pc

instance (spurious : Bool) : DecidablePred (s.InTimeAt spurious)
  | .compare _ outside => inferInstanceAs (Decidable (s.total Pc.released ≤ outside))
  | .exchange _ lost expected =>
    inferInstanceAs (Decidable (spurious = true → s.message.mutex = expected → lost < 3))
  | .check | .fetchAdd | .load _ _ | .reading | .reset | .unlockShared | .fetchSub | .finished
  | .refused => isTrue trivial

instance (a : Nat × Bool) : Decidable (s.InTime a) :=
  inferInstanceAs (Decidable (∀ pc ∈ s.readers[a.1]?, s.InTimeAt a.2 pc))

/-- all is well with `n` readers of the value `v` -/
structure Served (n : Nat) (v : α) : Prop where
  noneRefused : ∀ pc ∈ s.readers, pc ≠ .refused
  sees : .reading ∈ s.readers → s.message.optValue = some v
  /-- whoever resets the value is the last one: all the others have given back their reference -/
  last : .reset ∈ s.readers → s.total Pc.released = n
  once : s.resets ≤ 1
  reset : (∀ pc ∈ s.readers, pc = .finished) → 0 < n → s.resets = 1 ∧ s.message.optValue = none

/-- what is known of a reader at `pc` -/
def PcOk (n : Nat) : Pc → Prop
  | .compare active outside => active + outside + 1 = n
  | .load r lost => r ≤ s.total Pc.changes + lost ∧ lost ≤ 3
  | .exchange r lost expected => r ≤ s.total Pc.changes + lost ∧ lost ≤ 3 ∧
      (s.message.mutex = expected ∨ r + 1 ≤ s.total Pc.changes + lost)
  | _ => True

/-- the inductive invariant: the counters and the lock word are what the places of the readers say -/
structure Inv (n : Nat) (v : α) : Prop where
  length : s.readers.length = n
  noneRefused : ∀ pc ∈ s.readers, pc ≠ .refused
  initial : s.message.initialReferences = n
  active : s.message.activeReferenceCounter = s.total Pc.active
  remaining : s.message.remainingReferences = n - s.total Pc.released
  mutex : s.message.mutex = s.total Pc.locked
  value : s.message.optValue = if s.resets = 0 then some v else none
  /-- nobody resets before the last reader has given back its reference, and then one does -/
  notYet : s.total Pc.released < n → s.total Pc.resetting + s.resets = 0
  once : s.total Pc.resetting + s.resets ≤ 1
  done : s.total Pc.released = n → 0 < n → s.total Pc.resetting + s.resets = 1
  pcs : ∀ pc ∈ s.readers, s.PcOk n pc

end

/-! ## counting -/

section
variable {s t : Reading α} {n : Nat} {v : α}

theorem total_set {i : Nat} {pc pc' : Pc} (hpc : s.readers[i]? = some pc)
    (ht : t.readers = s.readers.set i pc') (f : Pc → Nat) : t.total f + f pc = s.total f + f pc' := by
  unfold total
  rw [ht]
  exact sum_map_set f hpc pc'

theorem le_total {i : Nat} {pc : Pc} (hpc : s.readers[i]? = some pc) (f : Pc → Nat) : f pc ≤ s.total f :=
  List.single_le_sum (fun _ _ => Nat.zero_le _) _ (List.mem_map_of_mem (List.mem_of_getElem? hpc))

theorem active_add_outside (h : ∀ pc ∈ s.readers, pc ≠ .refused) :
    s.total Pc.active + s.total Pc.outside = s.readers.length := by
  have hone : ∀ pc ∈ s.readers, pc.active + pc.outside = 1 := by
    intro pc hpc
    have := h pc hpc
    cases pc <;> first | rfl | contradiction
  unfold total
  rw [← List.sum_map_add, List.map_congr_left hone]
  simp

theorem released_le_one (pc : Pc) : pc.released ≤ 1 := by
  cases pc <;> simp [Pc.released]

theorem released_lt {i : Nat} {pc : Pc} (hpc : s.readers[i]? = some pc) (hp : pc.released = 0) :
    s.total Pc.released < s.readers.length := by
  have := sum_map_add_le (fun q _ => released_le_one q) hpc
  unfold total
  omega

theorem changes_le {i : Nat} {pc : Pc} (hpc : s.readers[i]? = some pc) (hp : pc.changes = 0) :
    s.total Pc.changes + 2 ≤ 2 * s.readers.length := by
  have hle : ∀ q ∈ s.readers, q.changes ≤ 2 := by
    intro q _
    cases q <;> simp [Pc.changes]
  have := sum_map_add_le hle hpc
  unfold total
  omega

theorem PcOk.mono (hchg : s.total Pc.changes ≤ t.total Pc.changes)
    (hm : t.message.mutex = s.message.mutex ∨ s.total Pc.changes + 1 ≤ t.total Pc.changes) {pc : Pc}
    (h : s.PcOk n pc) : t.PcOk n pc := by
  cases pc with
  | compare a o => exact h
  | load r lost =>
    obtain ⟨h1, h2⟩ := h
    exact ⟨by omega, h2⟩
  | exchange r lost e =>
    obtain ⟨h1, h2, h3⟩ := h
    refine ⟨by omega, h2, ?_⟩
    rcases h3 with h3 | h3
    · rcases hm with hm | hm
      · exact .inl (hm.trans h3)
      · exact .inr (by omega)
    · exact .inr (by omega)
  | _ => exact trivial

theorem start_inv (n id : Nat) (v : α) : (start n id v).Inv n v := by
  have hcheck : ∀ pc ∈ List.replicate n Pc.check, pc = .check := fun pc hpc => List.eq_of_mem_replicate hpc
  have hzero : ∀ f : Pc → Nat, f .check = 0 → (start n id v).total f = 0 := by
    intro f hf
    show ((List.replicate n Pc.check).map f).sum = 0
    rw [List.map_replicate, List.sum_replicate_nat, hf, Nat.mul_zero]
  refine ⟨List.length_replicate, ?_, rfl, ?_, ?_, ?_, rfl, ?_, ?_, ?_, ?_⟩
  · intro pc hpc
    rw [hcheck pc hpc]
    decide
  · rw [hzero _ rfl]
    rfl
  · rw [hzero _ rfl]
    exact (Int.sub_zero _).symm
  · rw [hzero _ rfl]
    rfl
  · exact fun _ => by rw [hzero _ rfl]; rfl
  · rw [hzero _ rfl]
    exact Nat.zero_le 1
  · intro hn hpos
    rw [hzero _ rfl] at hn
    omega
  · intro pc hpc
    rw [hcheck pc hpc]
    exact trivial

/-! ## one step -/

/-- a reader that has not had the lock yet makes fewer than `2n + 2` rounds -/
theorem Inv.round_lt (h : s.Inv n v) {i : Nat} {pc : Pc} (hpc : s.readers[i]? = some pc)
    (hp : pc.changes = 0) {r lost : Nat} (hr : r ≤ s.total Pc.changes + lost) (hlost : lost ≤ 3) :
    r < s.rounds := by
  have hchg := changes_le hpc hp
  have hlen := h.length
  have hinit := h.initial
  unfold rounds
  omega

/-- **Admission.**  A reader that compares is admitted exactly if no more readers have given back their
reference than were outside when it entered. -/
theorem admitted_iff (h : s.Inv n v) {active : Int} {outside : Nat}
    (hok : s.PcOk n (.compare active outside)) :
    ¬ active ≥ s.message.remainingReferences ↔ s.total Pc.released ≤ outside := by
  have hsum : active + outside + 1 = n := hok
  have hrem := h.remaining
  omega

theorem Inv.value_some (h : s.Inv n v) {i : Nat} {pc : Pc} (hpc : s.readers[i]? = some pc)
    (hp : pc.released = 0) : s.message.optValue = some v := by
  have hlt := released_lt hpc hp
  have hnone := h.notYet (h.length ▸ hlt)
  rw [h.value, if_pos (by omega)]

/-- **A step of reader `i`** from `pc` to `pc'`: what is left to show.  The counters and the word have to
follow the place of the reader. -/
theorem Inv.move (h : s.Inv n v) {i : Nat} {pc pc' : Pc} (hpc : s.readers[i]? = some pc)
    (ht : t.readers = s.readers.set i pc') (hnot : pc' ≠ .refused)
    (hinit : t.message.initialReferences = s.message.initialReferences)
    (hactive : t.message.activeReferenceCounter + pc.active
      = s.message.activeReferenceCounter + pc'.active)
    (hrem : t.message.remainingReferences + pc'.released = s.message.remainingReferences + pc.released)
    (hmutex : t.message.mutex + pc.locked = s.message.mutex + pc'.locked)
    (hvalue : t.message.optValue = if t.resets = 0 then some v else none)
    (hreset : t.total Pc.released + pc.released = s.total Pc.released + pc'.released →
      t.total Pc.resetting + pc.resetting = s.total Pc.resetting + pc'.resetting →
      (t.total Pc.released < n → t.total Pc.resetting + t.resets = 0) ∧
        t.total Pc.resetting + t.resets ≤ 1 ∧
        (t.total Pc.released = n → 0 < n → t.total Pc.resetting + t.resets = 1))
    (hchg : pc.changes ≤ pc'.changes) (hword : pc.locked = pc'.locked ∨ pc.changes + 1 ≤ pc'.changes)
    (hok : t.total Pc.changes + pc.changes = s.total Pc.changes + pc'.changes → t.PcOk n pc') :
    t.Inv n v := by
  have tset := fun f => total_set hpc ht f
  have ta := tset Pc.active
  have tr := tset Pc.released
  have tl := tset Pc.locked
  have tc := tset Pc.changes
  have ha := h.active
  have hr := h.remaining
  have hm := h.mutex
  obtain ⟨hnotYet, honce, hdone⟩ := hreset tr (tset Pc.resetting)
  refine ⟨by rw [ht, List.length_set]; exact h.length, ?_, hinit.trans h.initial, by omega, by omega,
    by omega, hvalue, hnotYet, honce, hdone, ?_⟩
  · intro q hq
    rw [ht] at hq
    rcases List.mem_or_eq_of_mem_set hq with hq | rfl
    · exact h.noneRefused q hq
    · exact hnot
  · intro q hq
    rw [ht] at hq
    rcases List.mem_or_eq_of_mem_set hq with hq | rfl
    · refine (h.pcs q hq).mono (by omega) ?_
      rcases hword with hw | hw
      · exact .inl (by omega)
      · exact .inr (by omega)
    · exact hok tc

theorem Inv.keep (h : s.Inv n v) {i : Nat} {pc pc' : Pc} (hpc : s.readers[i]? = some pc)
    (ht : t.readers = s.readers.set i pc') (hnot : pc' ≠ .refused)
    (hinit : t.message.initialReferences = s.message.initialReferences)
    (hactive : t.message.activeReferenceCounter + pc.active
      = s.message.activeReferenceCounter + pc'.active)
    (hrem : t.message.remainingReferences = s.message.remainingReferences)
    (hmutex : t.message.mutex + pc.locked = s.message.mutex + pc'.locked)
    (hvalue : t.message.optValue = if t.resets = 0 then some v else none)
    (hrel : pc'.released = pc.released) (hreset : t.resets + pc'.resetting = s.resets + pc.resetting)
    (hchg : pc.changes ≤ pc'.changes) (hword : pc.locked = pc'.locked ∨ pc.changes + 1 ≤ pc'.changes)
    (hok : t.total Pc.changes + pc.changes = s.total Pc.changes + pc'.changes → t.PcOk n pc') :
    t.Inv n v := by
  have h1 := h.notYet
  have h2 := h.once
  have h3 := h.done
  refine h.move hpc ht hnot hinit hactive (by rw [hrem, hrel]) hmutex hvalue (fun hr hz => ?_) hchg hword hok
  have hsame : t.total Pc.released = s.total Pc.released := by omega
  have hsum : t.total Pc.resetting + t.resets = s.total Pc.resetting + s.resets := by omega
  rw [hsame, hsum]
  exact ⟨h1, h2, h3⟩

theorem Inv.stay (h : s.Inv n v) {i : Nat} {pc pc' : Pc} (hpc : s.readers[i]? = some pc)
    (hnot : pc' ≠ .refused) (hactive : pc'.active = pc.active) (hrel : pc'.released = pc.released)
    (hlocked : pc'.locked = pc.locked) (hchg : pc'.changes = pc.changes)
    (hreset : pc'.resetting = pc.resetting)
    (hok : (s.goTo i pc' s.message).total Pc.changes = s.total Pc.changes →
      (s.goTo i pc' s.message).PcOk n pc') :
    (s.goTo i pc' s.message).Inv n v := by
  refine h.keep hpc rfl hnot rfl (by rw [hactive]; rfl) rfl (by rw [hlocked]; rfl) h.value hrel
    (by rw [hreset]; rfl) (Nat.le_of_eq hchg.symm) (.inl hlocked.symm) fun htot => hok ?_
  rw [hchg] at htot
  exact Nat.add_right_cancel htot

/-- the reader enters: every other one is inside and counted, or outside -/
theorem Inv.enter (h : s.Inv n v) {i : Nat} (hpc : s.readers[i]? = some .fetchAdd) :
    (s.goTo i (.compare s.message.activeReferenceCounter (s.total Pc.outside - 1))
      { s.message with activeReferenceCounter := s.message.activeReferenceCounter + 1 }).Inv n v := by
  refine h.keep hpc rfl (by simp) rfl (Int.add_assoc _ _ _) rfl rfl h.value rfl rfl (Nat.le_refl 0)
    (.inl rfl) fun _ => ?_
  show s.message.activeReferenceCounter + ((s.total Pc.outside - 1 : Nat) : Int) + 1 = n
  have hsum := active_add_outside h.noneRefused
  have hpos : 1 ≤ s.total Pc.outside := le_total hpc Pc.outside
  have hactive := h.active
  have hlen := h.length
  omega

theorem Inv.exchange (h : s.Inv n v) {i r lost : Nat} {e : Int} {spurious : Bool}
    (hpc : s.readers[i]? = some (.exchange r lost e))
    (hC : spurious = true → s.message.mutex = e → lost < 3) {t : Reading α}
    (ht : s.next i spurious (.exchange r lost e) = some t) : t.Inv n v := by
  obtain ⟨hr, hlost, hword⟩ : s.PcOk n (.exchange r lost e) := h.pcs _ (List.mem_of_getElem? hpc)
  rw [← Option.some.inj ht]
  by_cases hwin : s.message.mutex = e ∧ spurious = false
  · rw [if_pos hwin, ← hwin.1]
    refine h.keep hpc rfl (by decide) rfl rfl rfl ?_ h.value rfl rfl (Nat.zero_le 1)
      (.inr (Nat.le_refl 1)) fun _ => trivial
    exact Int.add_zero _
  · rw [if_neg hwin]
    refine h.stay hpc (by simp) rfl rfl rfl rfl rfl fun htot => ?_
    show r + 1 ≤ _ + _ ∧ _ ≤ 3
    rw [htot]
    by_cases he : s.message.mutex = e
    · -- the word was as expected: it has failed without reason
      have hspur : spurious = true := by simpa [he] using hwin
      have := hC hspur he
      rw [if_pos he]
      omega
    · have := hword.resolve_left he
      rw [if_neg he]
      omega

/-- the reader gives back its reference, and is to reset the value if it was the last one -/
theorem Inv.giveBack (h : s.Inv n v) {i : Nat} {spurious : Bool} (hpc : s.readers[i]? = some .reading)
    {t : Reading α} (ht : s.next i spurious .reading = some t) : t.Inv n v := by
  have hlt : s.total Pc.released < n := h.length ▸ released_lt hpc rfl
  have hnone := h.notYet hlt
  have hrem := h.remaining
  have hback : s.message.remainingReferences - 1 + (1 : Nat) = s.message.remainingReferences + (0 : Nat) := by
    omega
  rw [← Option.some.inj ht]
  by_cases hlast : s.message.remainingReferences = 1
  · rw [if_pos hlast]
    refine h.move hpc rfl (by decide) rfl rfl hback rfl h.value (fun hr hz => ?_) (Nat.le_refl 1) (.inl rfl)
      fun _ => trivial
    have hz' : _ + 0 = s.total Pc.resetting + 1 := hz
    have hr' : _ + 0 = s.total Pc.released + 1 := hr
    show (_ < n → _ + s.resets = 0) ∧ _ + s.resets ≤ 1 ∧ (_ = n → 0 < n → _ + s.resets = 1)
    omega
  · rw [if_neg hlast]
    refine h.move hpc rfl (by decide) rfl rfl hback rfl h.value (fun hr hz => ?_) (Nat.le_refl 1) (.inl rfl)
      fun _ => trivial
    have hz' : _ + 0 = s.total Pc.resetting + 0 := hz
    have hr' : _ + 0 = s.total Pc.released + 1 := hr
    show (_ < n → _ + s.resets = 0) ∧ _ + s.resets ≤ 1 ∧ (_ = n → 0 < n → _ + s.resets = 1)
    omega

/-- **One step** of one reader keeps the invariant, if it comes in time. -/
theorem Inv.next (h : s.Inv n v) {i : Nat} {spurious : Bool} {pc : Pc} (hpc : s.readers[i]? = some pc)
    (hC : s.InTimeAt spurious pc) {t : Reading α} (ht : s.next i spurious pc = some t) : t.Inv n v := by
  have hok := h.pcs pc (List.mem_of_getElem? hpc)
  cases pc with
  | check =>
    have hsome : s.message.optValue = some v := h.value_some hpc rfl
    rw [← Option.some.inj ht, hsome]
    show (s.goTo i .fetchAdd s.message).Inv n v
    exact h.stay hpc (by decide) rfl rfl rfl rfl rfl fun _ => trivial
  | fetchAdd => exact Option.some.inj ht ▸ h.enter hpc
  | compare active outside =>
    rw [← Option.some.inj ht, if_neg ((admitted_iff h hok).mpr hC)]
    refine h.stay hpc (by simp) rfl rfl rfl rfl rfl fun _ => ?_
    exact ⟨Nat.zero_le _, Nat.zero_le _⟩
  | load r lost =>
    obtain ⟨hr, hlost⟩ := hok
    have hround : r < s.rounds := h.round_lt hpc rfl hr hlost
    have hmutex : s.message.mutex ≠ -1 := by
      rw [h.mutex]
      omega
    rw [← Option.some.inj ht, if_pos hround, if_neg hmutex]
    refine h.stay hpc (by simp) rfl rfl rfl rfl rfl fun htot => ?_
    exact ⟨htot ▸ hr, hlost, .inl rfl⟩
  | exchange r lost e => exact h.exchange hpc hC ht
  | reading => exact h.giveBack hpc ht
  | reset =>
    rw [← Option.some.inj ht]
    exact h.keep hpc rfl (by decide) rfl rfl rfl rfl (if_neg (Nat.succ_ne_zero _)).symm rfl rfl
      (Nat.le_refl 1) (.inl rfl) fun _ => trivial
  | unlockShared =>
    rw [← Option.some.inj ht]
    refine h.keep hpc rfl (by decide) rfl rfl rfl ?_ h.value rfl rfl (by decide) (.inr (Nat.le_refl 2))
      fun _ => trivial
    show s.message.mutex - 1 + (1 : Nat) = s.message.mutex + (0 : Nat)
    omega
  | fetchSub =>
    rw [← Option.some.inj ht]
    refine h.keep hpc rfl (by decide) rfl ?_ rfl rfl h.value rfl rfl (Nat.le_refl 2) (.inl rfl)
      fun _ => trivial
    show s.message.activeReferenceCounter - 1 + (1 : Nat) = s.message.activeReferenceCounter + (0 : Nat)
    omega
  | finished => cases ht
  | refused => cases ht

theorem Inv.step (h : s.Inv n v) {a : Nat × Bool} (hC : s.InTime a) (ht : s.step a = some t) :
    t.Inv n v := by
  obtain ⟨pc, hpc, hn⟩ := Option.bind_eq_some_iff.mp ht
  exact h.next hpc (hC pc hpc) hn

theorem Inv.served (h : s.Inv n v) : s.Served n v := by
  refine ⟨h.noneRefused, fun hmem => ?_, fun hmem => ?_, ?_, fun hall hpos => ?_⟩
  · obtain ⟨i, hi⟩ := List.mem_iff_getElem?.mp hmem
    exact h.value_some hi rfl
  · -- somebody is to reset, so no reader still has its reference
    obtain ⟨i, hi⟩ := List.mem_iff_getElem?.mp hmem
    have hone : 1 ≤ s.total Pc.resetting := le_total hi Pc.resetting
    have hle : s.total Pc.released ≤ 1 * s.readers.length := sum_map_le fun q _ => released_le_one q
    rw [Nat.one_mul, h.length] at hle
    rcases Nat.lt_or_eq_of_le hle with hlt | heq
    · have := h.notYet hlt
      omega
    · exact heq
  · have := h.once
    omega
  · have hrep : s.readers = List.replicate n .finished :=
      List.eq_replicate_iff.mpr ⟨h.length, hall⟩
    have htotal : ∀ f : Pc → Nat, s.total f = n * f .finished := by
      intro f
      unfold total
      rw [hrep, List.map_replicate, List.sum_replicate_nat]
    have hdone := h.done ((htotal _).trans (Nat.mul_one n)) hpos
    rw [htotal] at hdone
    have hres : s.resets = 1 := by simpa [Pc.resetting] using hdone
    refine ⟨hres, ?_⟩
    rw [h.value, hres]
    rfl

/-! ## every reader comes to the end -/

/-- how many steps a reader has left at most, if `try_lock_shared` makes `N` rounds -/
def rank (N : Nat) : Pc → Nat
  | .check => 2 * N + 9
  | .fetchAdd => 2 * N + 8
  | .compare _ _ => 2 * N + 7
  | .load r _ => 2 * (N - r) + 6
  | .exchange r _ _ => 2 * (N - r) + 5
  | .reading => 4
  | .reset => 3
  | .unlockShared => 2
  | .fetchSub => 1
  | .finished => 0
  | .refused => 0

theorem Inv.rounds_eq (h : s.Inv n v) : s.rounds = 2 * n + 2 := by
  have hinit := h.initial
  unfold rounds
  omega

theorem Inv.rank_lt (h : s.Inv n v) {i : Nat} {spurious : Bool} {pc : Pc} (hpc : s.readers[i]? = some pc)
    (ht : s.next i spurious pc = some t) :
    ∃ pc', t.readers = s.readers.set i pc' ∧ rank s.rounds pc' < rank s.rounds pc := by
  cases pc with
  | check =>
    rw [← Option.some.inj ht]
    refine ⟨_, rfl, ?_⟩
    split
    · exact Nat.succ_pos _
    · exact Nat.lt_succ_self _
  | compare active outside =>
    rw [← Option.some.inj ht]
    refine ⟨_, rfl, ?_⟩
    split
    · exact Nat.succ_pos _
    · exact Nat.lt_succ_self _
  | load r lost =>
    rw [← Option.some.inj ht]
    refine ⟨_, rfl, ?_⟩
    split
    · split
      · exact Nat.succ_pos _
      · exact Nat.lt_succ_self _
    · exact Nat.succ_pos _
  | exchange r lost e =>
    obtain ⟨hr, hlost, -⟩ : s.PcOk n (.exchange r lost e) := h.pcs _ (List.mem_of_getElem? hpc)
    have hround : r < s.rounds := h.round_lt hpc rfl hr hlost
    rw [← Option.some.inj ht]
    split
    · refine ⟨_, rfl, ?_⟩
      show 4 < 2 * (s.rounds - r) + 5
      omega
    · refine ⟨_, rfl, ?_⟩
      show 2 * (s.rounds - (r + 1)) + 6 < 2 * (s.rounds - r) + 5
      omega
  | reading =>
    rw [← Option.some.inj ht]
    refine ⟨_, rfl, ?_⟩
    split
    · exact Nat.lt_succ_self 3
    · show 2 < 4
      decide
  | finished => cases ht
  | refused => cases ht
  | _ =>
    rw [← Option.some.inj ht]
    exact ⟨_, rfl, Nat.lt_succ_self _⟩

theorem Inv.total_rank_lt (h : s.Inv n v) {a : Nat × Bool} (ht : s.step a = some t) :
    t.total (rank (2 * n + 2)) < s.total (rank (2 * n + 2)) := by
  obtain ⟨pc, hpc, hn⟩ := Option.bind_eq_some_iff.mp ht
  obtain ⟨pc', hread, hlt⟩ := h.rank_lt hpc hn
  have hset := total_set hpc hread (rank (2 * n + 2))
  rw [h.rounds_eq] at hlt
  omega

theorem step_enabled {i : Nat} {pc : Pc} (hpc : s.readers[i]? = some pc) (href : pc ≠ .refused)
    (hfin : pc ≠ .finished) : (s.step (i, false)).isSome := by
  unfold Reading.step
  dsimp only
  rw [hpc, Option.bind_some]
  cases pc <;> first | rfl | contradiction

end

/-- **The counted readers of a message.**  After `emplace(n, id, v)`, with no access alive and no writer
acting, let `n` readers each consume and give back, in any interleaving of their steps in which every
reader compares in time.  Then in every state no reader is refused, every reader with an access sees `v`,
the value is reset at most once and only by the last reader that gives back its reference, and it is reset
when all have finished; a reader that has not finished can go on, and there are at most `n * (4n + 13)`
steps. -/
theorem readers_served (n id : Nat) (v : α) (as : List (Nat × Bool))
    (hC : Every step InTime (start n id v) as) (s : Reading α)
    (hr : run step (start n id v) as = some s) :
    s.Served n v ∧
    (∀ i pc, s.readers[i]? = some pc → pc ≠ .finished → (s.step (i, false)).isSome) ∧
    as.length ≤ n * (4 * n + 13) := by
  have hstep : ∀ (s : Reading α) (a : Nat × Bool) (t : Reading α), s.Inv n v → s.InTime a →
      s.step a = some t → t.Inv n v := fun s a t h hCa ht => h.step hCa ht
  have hinv : s.Inv n v := run_inv_of_every hstep as (start_inv n id v) hC hr
  refine ⟨hinv.served, fun i pc hpc hfin => ?_, ?_⟩
  · exact step_enabled hpc (hinv.noneRefused pc (List.mem_of_getElem? hpc)) hfin
  · have hlen := length_le_of_decreasing (fun s : Reading α => s.total (rank (2 * n + 2))) hstep
      (fun s a t h _ ht => h.total_rank_lt ht) as (start_inv n id v) hC hr
    have hstart : (start n id v).total (rank (2 * n + 2)) = n * (4 * n + 13) := by
      show ((List.replicate n Pc.check).map (rank (2 * n + 2))).sum = _
      rw [List.map_replicate, List.sum_replicate_nat]
      show n * (2 * (2 * n + 2) + 9) = _
      congr 1
      omega
    rw [hstart] at hlen
    exact hlen

/-- two readers come in turn up to their locks; the first compare-exchange of the second one fails because
the first one has changed the word -/
def twoReaders : List (Nat × Bool) :=
  [(0, false), (1, false), (0, false), (1, false), (0, false), (1, false), (0, false), (1, false), (0, true),
    (0, false), (0, false), (1, false), (1, false), (1, false), (0, false), (1, false), (0, false), (1, false),
    (0, false), (1, false), (1, false)]

theorem readers_served_two :
    ∃ s, run step (start 2 0 7) twoReaders = some s ∧ s.readers = [.finished, .finished] ∧ s.Served 2 7 := by
  have hC : Every step InTime (start 2 0 7) twoReaders := by decide +kernel
  have hs := readers_served 2 0 7 twoReaders hC _ rfl
  exact ⟨_, rfl, rfl, hs.1⟩

/-- the first of two readers has given back its reference but still counts as active: the second one is
refused -/
theorem second_reader_refused :
    ∃ s, run step (start 2 0 7) [(0, false), (0, false), (0, false), (0, false), (0, false), (0, false),
        (1, false), (1, false), (1, false)] = some s ∧ s.readers = [.unlockShared, .refused] :=
  ⟨_, rfl, rfl⟩

end Reading

end Fifo
end Ipcpp
