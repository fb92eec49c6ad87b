import Mathlib
import Ipcpp.Lib.Runs
import Ipcpp.RealTime.Message

/-!
# Publisher and subscriber entries

Every publisher and every subscriber of a topic has an entry index of its own, kept by a lock on the file
of that entry.  `get_new_publisher_entry` and `get_new_subscriber_entry_idx` try the indices from `0` on
and take the first file they can lock.

The locks are POSIX record locks: a lock belongs to a process, so `F_SETLK` fails only if ANOTHER process
has locked the file (`tryLock`), and closing any descriptor of the file drops the lock of the process
(`close`).  A process that tries a file it has locked itself therefore succeeds, and gets the entry of its
own publisher a second time.

The system: processes that create and destroy publishers and subscribers in any order, and that end.
`entries_exclusive`: all entries in use are different as long as every creation finds, below each
entry of that kind the process has already, an index that nobody has locked; and not longer.
-/

namespace Ipcpp
namespace RealTime
open Runs

inductive Kind where
  | publisher
  | subscriber
deriving DecidableEq

/-- an entry, and the file that is locked for it: `{topic}_publisher_entry_{idx}` or
`{topic}_subscriber_entry_{idx}` -/
structure Entry where
  kind : Kind
  idx : Nat
deriving DecidableEq

/-- a live `RealTimePublisher` or `RealTimeSubscriber` and the process it lives in -/
structure Participant where
  proc : Nat
  entry : Entry
deriving DecidableEq

/-! ## record locks -/

/-- the process that has locked the file of an entry -/
abbrev Locks := Entry → Option Nat

namespace Locks
variable (l : Locks)

/-- `F_SETLK` on a descriptor of process `p`: whether it has succeeded -/
def tryLock (p : Nat) (e : Entry) : Locks × Bool :=
  if l e = none ∨ l e = some p then (Function.update l e (some p), true) else (l, false)

/-- process `p` closes a descriptor of the file: its lock is gone, whichever descriptor took it -/
def close (p : Nat) (e : Entry) : Locks := if l e = some p then Function.update l e none else l

/-- the end of process `p`: all its descriptors are closed -/
def exit (p : Nat) : Locks := fun e => if l e = some p then none else l e

end Locks

/-- one pass over the indices from `idx` on, of which `n` are left: an entry that cannot be locked is
closed again.  A pass that finds nothing leaves the locks as they are (`getNewEntry_none`), so the
further passes until the timeout find nothing either. -/
def getNewEntry (kind : Kind) (p : Nat) : Nat → Nat → Locks → Locks × Option Nat
  | 0, _, l => (l, none)
  | n + 1, idx, l =>
    match l.tryLock p ⟨kind, idx⟩ with
    | (l', true) => (l', some idx)
    | (l', false) => getNewEntry kind p n (idx + 1) (l'.close p ⟨kind, idx⟩)

/-- `get_new_publisher_entry` -/
def getNewPublisherEntry (p maxPublishers : Nat) (l : Locks) : Locks × Option Nat :=
  getNewEntry .publisher p maxPublishers 0 l

/-- `get_new_subscriber_entry_idx` -/
def getNewSubscriberEntryIdx (p maxSubscribers : Nat) (l : Locks) : Locks × Option Nat :=
  getNewEntry .subscriber p maxSubscribers 0 l

/-! ## runs -/

structure Entries where
  locks : Locks
  live : List Participant

namespace Entries

def start : Entries := ⟨fun _ => none, []⟩

inductive Action where
  /-- process `p` calls `RealTimePublisher::create` or `RealTimeSubscriber::create` -/
  | create (p : Nat) (kind : Kind)
  /-- the destructor of a live publisher or subscriber -/
  | destroy (x : Participant)
  /-- process `p` ends, with or without its destructors -/
  | exit (p : Nat)

section
variable (L : Layout)

/-- the search of `create`, with the limit that the header of the topic has for this kind -/
def search (s : Entries) (p : Nat) : Kind → Locks × Option Nat
  | .publisher => getNewPublisherEntry p L.maxPublishers s.locks
  | .subscriber => getNewSubscriberEntryIdx p L.maxSubscribers s.locks

/-- `create`: with no entry it returns `timed_out` -/
def create (s : Entries) (p : Nat) (kind : Kind) : Entries :=
  match s.search L p kind with
  | (l, some idx) => ⟨l, ⟨p, kind, idx⟩ :: s.live⟩
  | (l, none) => ⟨l, s.live⟩

def step (s : Entries) : Action → Option Entries
  | .create p kind => some (s.create L p kind)
  | .destroy x => if x ∈ s.live then some ⟨s.locks.close x.proc x.entry, s.live.erase x⟩ else none
  | .exit p => some ⟨s.locks.exit p, s.live.filter fun x => x.proc ≠ p⟩

/-- two entries of one kind are different, and two publishers have no slot of the buffer in common -/
def Separate (e f : Entry) : Prop :=
  e.kind = f.kind →
    e.idx ≠ f.idx ∧ (e.kind = .publisher → ∀ n m, L.slotIndex e.idx n ≠ L.slotIndex f.idx m)

def Exclusive (s : Entries) : Prop := s.live.Pairwise fun x y => Separate L x.entry y.entry

end

/-- below each entry of this kind that the process has already, an index is not locked -/
def GapBelow (s : Entries) : Action → Prop
  | .create p kind => ∀ x ∈ s.live, x.proc = p → x.entry.kind = kind →
      ∃ idx < x.entry.idx, s.locks ⟨kind, idx⟩ = none
  | _ => True

def limit (L : Layout) : Kind → Nat
  | .publisher => L.maxPublishers
  | .subscriber => L.maxSubscribers

/-- what holds while no entry is used twice: a file is locked by the process that uses its entry -/
structure Inv (L : Layout) (s : Entries) : Prop where
  nodup : (s.live.map Participant.entry).Nodup
  owner : ∀ p e, s.locks e = some p ↔ ⟨p, e⟩ ∈ s.live
  bound : ∀ x ∈ s.live, x.entry.idx < limit L x.entry.kind

end Entries

/-! ## the search -/

section
variable {kind : Kind} {p : Nat} {l : Locks}

theorem getNewEntry_some {n idx r : Nat} {l' : Locks} (h : getNewEntry kind p n idx l = (l', some r)) :
    idx ≤ r ∧ r < idx + n ∧ l' = Function.update l ⟨kind, r⟩ (some p) ∧
      (l ⟨kind, r⟩ = none ∨ l ⟨kind, r⟩ = some p) ∧
      ∀ j, idx ≤ j → j < r → ∃ q, q ≠ p ∧ l ⟨kind, j⟩ = some q := by
  induction n generalizing idx with
  | zero => cases h
  | succ n ih =>
    unfold getNewEntry Locks.tryLock at h
    by_cases hfree : l ⟨kind, idx⟩ = none ∨ l ⟨kind, idx⟩ = some p
    · rw [if_pos hfree] at h
      obtain ⟨rfl, hr⟩ := Prod.mk.inj h
      obtain rfl : idx = r := Option.some.inj hr
      exact ⟨Nat.le_refl _, by omega, rfl, hfree, fun j h1 h2 => absurd h1 (Nat.not_le_of_lt h2)⟩
    · -- another process has it: closing the descriptor again changes nothing
      rw [if_neg hfree] at h
      rw [not_or] at hfree
      have hclose : l.close p ⟨kind, idx⟩ = l := if_neg hfree.2
      dsimp only at h
      rw [hclose] at h
      obtain ⟨hle, hlt, hl', hr, hbelow⟩ := ih h
      refine ⟨by omega, by omega, hl', hr, fun j h1 h2 => ?_⟩
      rcases Nat.eq_or_lt_of_le h1 with rfl | h1
      · obtain ⟨q, hq⟩ := Option.ne_none_iff_exists'.mp hfree.1
        exact ⟨q, fun hqp => hfree.2 (hqp ▸ hq), hq⟩
      · exact hbelow j h1 h2

theorem getNewEntry_none {n idx : Nat} {l' : Locks} (h : getNewEntry kind p n idx l = (l', none)) :
    l' = l ∧ ∀ j, idx ≤ j → j < idx + n → ∃ q, q ≠ p ∧ l ⟨kind, j⟩ = some q := by
  induction n generalizing idx with
  | zero => exact ⟨(Prod.mk.inj h).1.symm, fun j h1 h2 => absurd h1 (Nat.not_le_of_lt h2)⟩
  | succ n ih =>
    unfold getNewEntry Locks.tryLock at h
    by_cases hfree : l ⟨kind, idx⟩ = none ∨ l ⟨kind, idx⟩ = some p
    · rw [if_pos hfree] at h
      cases (Prod.mk.inj h).2
    · rw [if_neg hfree] at h
      rw [not_or] at hfree
      have hclose : l.close p ⟨kind, idx⟩ = l := if_neg hfree.2
      dsimp only at h
      rw [hclose] at h
      obtain ⟨hl', hall⟩ := ih h
      refine ⟨hl', fun j h1 h2 => ?_⟩
      rcases Nat.eq_or_lt_of_le h1 with rfl | h1
      · obtain ⟨q, hq⟩ := Option.ne_none_iff_exists'.mp hfree.1
        exact ⟨q, fun hqp => hfree.2 (hqp ▸ hq), hq⟩
      · exact hall j h1 (by omega)

end

namespace Entries
variable {L : Layout} {s t : Entries}

theorem search_eq (s : Entries) (p : Nat) (kind : Kind) :
    s.search L p kind = getNewEntry kind p (limit L kind) 0 s.locks := by
  cases kind <;> rfl

/-- what a creation can do: it takes the first entry that no other process has locked, or, if there is
none, it changes nothing -/
theorem create_cases (s : Entries) (p : Nat) (kind : Kind) :
    (∃ r < limit L kind, s.create L p kind
        = ⟨Function.update s.locks ⟨kind, r⟩ (some p), ⟨p, kind, r⟩ :: s.live⟩ ∧
      (s.locks ⟨kind, r⟩ = none ∨ s.locks ⟨kind, r⟩ = some p) ∧
      ∀ j < r, ∃ q, q ≠ p ∧ s.locks ⟨kind, j⟩ = some q) ∨
    (s.create L p kind = s ∧ ∀ j < limit L kind, ∃ q, q ≠ p ∧ s.locks ⟨kind, j⟩ = some q) := by
  unfold create
  rw [search_eq]
  rcases hn : getNewEntry kind p (limit L kind) 0 s.locks with ⟨l, r⟩
  cases r with
  | some r =>
    obtain ⟨-, hlt, rfl, hfree, hbelow⟩ := getNewEntry_some hn
    exact .inl ⟨r, by omega, rfl, hfree, fun j hj => hbelow j (Nat.zero_le j) hj⟩
  | none =>
    obtain ⟨rfl, hall⟩ := getNewEntry_none hn
    exact .inr ⟨rfl, fun j hj => hall j (Nat.zero_le j) (by omega)⟩

theorem start_inv : Inv L start := by
  refine ⟨.nil, fun p e => ?_, fun x hx => ?_⟩
  · show none = some p ↔ _ ∈ []
    simp
  · cases hx

theorem Inv.exclusive (h : Inv L s) : Exclusive L s := by
  have hpair : s.live.Pairwise fun x y => x.entry ≠ y.entry := List.pairwise_map.mp h.nodup
  refine hpair.imp_of_mem fun {x y} hx hy hne hkind => ?_
  have hidx : x.entry.idx ≠ y.entry.idx := by
    intro hidx
    refine hne ?_
    show (⟨x.entry.kind, x.entry.idx⟩ : Entry) = ⟨y.entry.kind, y.entry.idx⟩
    rw [hkind, hidx]
  refine ⟨hidx, fun hpub n m heq => hidx ?_⟩
  have hx' : x.entry.idx < limit L .publisher := hpub ▸ h.bound x hx
  have hy' : y.entry.idx < limit L .publisher := hpub ▸ hkind ▸ h.bound y hy
  exact L.slotIndex_inj hx' hy' heq

theorem Inv.eq_of_entry (h : Inv L s) {x y : Participant} (hx : x ∈ s.live) (hy : y ∈ s.live)
    (he : x.entry = y.entry) : x = y :=
  List.inj_on_of_nodup_map h.nodup hx hy he

/-- **A new participant on a file that nobody has locked.** -/
theorem Inv.add (h : Inv L s) {p r : Nat} {kind : Kind} (hr : r < limit L kind)
    (hfree : s.locks ⟨kind, r⟩ = none) :
    Inv L ⟨Function.update s.locks ⟨kind, r⟩ (some p), ⟨p, kind, r⟩ :: s.live⟩ := by
  have hnew : ∀ x ∈ s.live, x.entry ≠ ⟨kind, r⟩ := by
    intro x hx he
    have hlock := (h.owner x.proc x.entry).mpr hx
    rw [he, hfree] at hlock
    cases hlock
  refine ⟨List.nodup_cons.mpr ⟨?_, h.nodup⟩, fun q e => ?_, fun x hx => ?_⟩
  · intro hmem
    obtain ⟨x, hx, he⟩ := List.mem_map.mp hmem
    exact hnew x hx he
  · by_cases he : e = ⟨kind, r⟩
    · subst he
      have hnot : (⟨q, kind, r⟩ : Participant) ∉ s.live := fun hx => hnew _ hx rfl
      show Function.update s.locks _ (some p) _ = some q ↔ _ ∈ _ :: s.live
      rw [Function.update_self, List.mem_cons]
      simp [hnot, eq_comm]
    · show Function.update s.locks _ (some p) e = some q ↔ _ ∈ _ :: s.live
      rw [Function.update_of_ne he, h.owner, List.mem_cons]
      simp [he]
  · rcases List.mem_cons.mp hx with rfl | hx
    · exact hr
    · exact h.bound x hx

theorem Inv.erase (h : Inv L s) {x : Participant} (hx : x ∈ s.live) :
    Inv L ⟨s.locks.close x.proc x.entry, s.live.erase x⟩ := by
  have hnd : s.live.Nodup := h.nodup.of_map
  have hlock : s.locks x.entry = some x.proc := (h.owner x.proc x.entry).mpr hx
  have hclose : s.locks.close x.proc x.entry = Function.update s.locks x.entry none := if_pos hlock
  refine ⟨h.nodup.sublist (List.erase_sublist.map _), fun q e => ?_,
    fun y hy => h.bound y (List.mem_of_mem_erase hy)⟩
  show s.locks.close x.proc x.entry e = some q ↔ _ ∈ s.live.erase x
  rw [hclose, hnd.mem_erase_iff]
  by_cases he : e = x.entry
  · subst he
    rw [Function.update_self]
    refine ⟨fun hn => (nomatch hn), fun hy => absurd (h.eq_of_entry hy.2 hx rfl) hy.1⟩
  · rw [Function.update_of_ne he, h.owner]
    exact ⟨fun hy => ⟨fun hyx => he (congrArg Participant.entry hyx), hy⟩, And.right⟩

theorem Inv.exit (h : Inv L s) (p : Nat) :
    Inv L ⟨s.locks.exit p, s.live.filter fun x => x.proc ≠ p⟩ := by
  refine ⟨h.nodup.sublist (List.filter_sublist.map _), fun q e => ?_,
    fun y hy => h.bound y (List.mem_of_mem_filter hy)⟩
  show (if s.locks e = some p then none else s.locks e) = some q ↔ _
  rw [List.mem_filter]
  by_cases hp : s.locks e = some p
  · rw [if_pos hp]
    refine ⟨fun hn => (nomatch hn), fun hy => ?_⟩
    have hq := (h.owner q e).mpr hy.1
    have hqp : q = p := Option.some.inj (hq.symm.trans hp)
    simp [hqp] at hy
  · rw [if_neg hp, h.owner]
    refine ⟨fun hy => ⟨hy, ?_⟩, And.left⟩
    have hqp : q ≠ p := fun hqp => hp (hqp ▸ (h.owner q e).mpr hy)
    simp [hqp]

/-- **One step** keeps the invariant, if a creation finds a gap. -/
theorem Inv.step (h : Inv L s) {a : Action} (hC : s.GapBelow a) (ht : s.step L a = some t) : Inv L t := by
  cases a with
  | create p kind =>
    obtain rfl : s.create L p kind = t := Option.some.inj ht
    rcases create_cases (L := L) s p kind with ⟨r, hr, heq, hfree | hown, hbelow⟩ | ⟨heq, -⟩
    · rw [heq]
      exact h.add hr hfree
    · -- its own entry: but then there is an index below it that it would have taken
      obtain ⟨j, hj, hnone⟩ := hC ⟨p, kind, r⟩ ((h.owner p ⟨kind, r⟩).mp hown) rfl rfl
      obtain ⟨q, -, hq⟩ := hbelow j hj
      rw [hnone] at hq
      cases hq
    · rw [heq]
      exact h
  | destroy x =>
    have ht' : (if x ∈ s.live then some (⟨s.locks.close x.proc x.entry, s.live.erase x⟩ : Entries)
        else none) = some t := ht
    split at ht'
    · rename_i hx
      exact Option.some.inj ht' ▸ h.erase hx
    · cases ht'
  | exit p => exact Option.some.inj ht ▸ h.exit p

/-- **Without a gap an entry is used twice**: the search stops, at the latest, at an entry of the process
itself, and every file up to there is locked. -/
theorem gapBelow_of_exclusive (h : Inv L s) {a : Action} (hP : Exclusive L t) (ht : s.step L a = some t) :
    s.GapBelow a := by
  cases a with
  | create p kind =>
    intro x hx hp hkind
    by_contra hgap
    push Not at hgap
    obtain rfl : s.create L p kind = t := Option.some.inj ht
    have hxlock : s.locks ⟨kind, x.entry.idx⟩ = some p := by
      have hx' : (⟨p, kind, x.entry.idx⟩ : Participant) = x := by rw [← hp, ← hkind]
      exact (h.owner p _).mpr (hx'.symm ▸ hx)
    rcases create_cases (L := L) s p kind with ⟨r, hr, heq, hfree, hbelow⟩ | ⟨-, hall⟩
    · have hrx : r ≤ x.entry.idx := by
        by_contra hlt
        obtain ⟨q, hqp, hq⟩ := hbelow x.entry.idx (by omega)
        exact hqp (Option.some.inj (hq.symm.trans hxlock))
      have hsome : s.locks ⟨kind, r⟩ ≠ none := by
        rcases Nat.eq_or_lt_of_le hrx with rfl | hlt
        · rw [hxlock]
          exact Option.some_ne_none p
        · exact hgap r hlt
      have hown : s.locks ⟨kind, r⟩ = some p := hfree.resolve_left hsome
      rw [heq] at hP
      have hsep := (List.pairwise_cons.mp hP).1 ⟨p, kind, r⟩ ((h.owner p ⟨kind, r⟩).mp hown)
      exact (hsep rfl).1 rfl
    · obtain ⟨q, hqp, hq⟩ := hall x.entry.idx (hkind ▸ h.bound x hx)
      exact hqp (Option.some.inj (hq.symm.trans hxlock))
  | destroy x => exact trivial
  | exit p => exact trivial

/-- **Exclusive entries.**  In a run of any number of processes, no two publishers (and no two subscribers)
that are alive together have the same entry, and no two publishers share a slot of the buffer, exactly
when every creation finds, below each entry of the same kind that its process has, an index whose file
nobody has locked. -/
theorem entries_exclusive (L : Layout) (as : List Action) :
    Always (step L) (Exclusive L) start as ↔ Every (step L) GapBelow start as :=
  always_iff_every_of (Q := Inv L) (fun _ h => h.exclusive) (fun _ _ _ h hC ht => h.step hC ht)
    (fun _ _ _ h hP ht => gapBelow_of_exclusive h hP ht) as start_inv

/-- one process creates two publishers: both get entry `0` -/
theorem second_publisher_same_entry :
    ¬ Always (step exampleLayout) (Exclusive exampleLayout) start
      [.create 0 .publisher, .create 0 .publisher] := by
  intro h
  have hP := always_head ((h.2 _ rfl).2 _ rfl)
  have hsep := (List.pairwise_cons.mp hP).1 ⟨0, .publisher, 0⟩ List.mem_cons_self
  exact (hsep rfl).1 rfl

end Entries

end RealTime
end Ipcpp
