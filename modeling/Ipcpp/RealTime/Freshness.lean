import Ipcpp.RealTime.Steps

/-!
# The order in which a subscriber gets publications

`Fresh s`: what was returned to a subscriber is strictly increasing in the order of the stores to
`latest_published_idx` (`Shared.log`).

The sequence number and the index are two atomics, and the slot behind the index is a third thing, so
this holds only while a subscriber finds the three in step (`InStep`): when it loads the index, the
number it has loaded before is still current and no publisher is between its store and its increment,
nor has emplaced anew in the slot of the index; and until it has looked into the slot nobody emplaces
there.  Otherwise a subscriber pairs an old number with a newer index and gets the same publication
again (`returned_twice`).  In a run all of whose steps meet `InStep` every subscriber is served in order
(`fresh_delivery`).

The invariant `InvAt L s b` has the number `b` of increments of `next_message_id` as its clock: a
subscriber whose `_next_message_id` is the one after `r` increments has only got publications among
the first `r` (`UpTo`).
-/

namespace Ipcpp
namespace RealTime
namespace Steps
open Function Counting

section
variable {α : Type}

/-- `next_message_id` after `b` increments -/
def idOf (b : Nat) : Nat := (2^64 - 1 + b) % 2^64

/-- slot and serial number of what a publisher has emplaced and not yet announced -/
@[simp] def Proc.storing : Proc α → Option (Nat × Nat)
  | .publisher _ _ _ (.storeIdx g n) => some (g, n)
  | _ => none

@[simp] def Proc.unstored (p : Proc α) : Option Nat := p.storing.map Prod.snd

theorem unstored_none {p : Proc α} (h : p.storing = none) : p.unstored = none := by
  rw [Proc.unstored, h]
  rfl

/-- between the store of the index and the increment of the number -/
@[simp] def Proc.bumping : Proc α → Bool
  | .publisher _ _ _ (.bumpId _) => true
  | _ => false

/-- the slot a subscriber has loaded the index of and not yet looked into -/
@[simp] def Proc.reading : Proc α → Option Nat
  | .subscriber _ _ (.acquire _ g) => some g
  | .subscriber _ _ (.check _ g) => some g
  | _ => none

/-- the number a subscriber has loaded before it loads the index -/
@[simp] def Proc.loading : Proc α → Option Nat
  | .subscriber _ _ (.loadIdx id) => some id
  | _ => none

/-- the slot `latest_published_idx` refers to -/
def Shared.latest (m : Shared α) : Nat := m.latestPublishedIdx % 2^32

/-- what each subscriber was returned is in strictly increasing publication order -/
def Fresh (s : State α) : Prop :=
  ∀ nextId returned pc, Proc.subscriber nextId returned pc ∈ s.procs →
    (∀ n ∈ returned, n ∈ s.shared.log) ∧
      returned.Pairwise fun a b => s.shared.log.idxOf a < s.shared.log.idxOf b

/-- the number `id` is current, and the publication behind the index is announced in full -/
def Loadable (s : State α) (id : Nat) : Prop :=
  s.shared.nextMessageId = id ∧
    ∀ p ∈ s.procs, p.bumping = false ∧ p.storing.map Prod.fst ≠ some s.shared.latest

instance (s : State α) (id : Nat) : Decidable (Loadable s id) :=
  inferInstanceAs (Decidable (_ ∧ _))

/-- number, index and slot stay in step: the index is loaded while the number is current, and the
slot is not written before it is looked into -/
def InStep (s : State α) : Action α → Prop
  | .proc k _ => ∀ q ∈ s.procs[k]?,
    (∀ id ∈ q.loading, Loadable s id) ∧ ∀ g ∈ q.emplacing, ∀ p ∈ s.procs, p.reading ≠ some g
  | _ => True

instance (s : State α) : (a : Action α) → Decidable (InStep s a)
  | .proc k _ => inferInstanceAs (Decidable (∀ q ∈ s.procs[k]?, _ ∧ _))
  | .createPublisher _ => isTrue trivial
  | .createSubscriber => isTrue trivial

/-! ## what a subscriber may have been returned -/

/-- everything returned is among the first `r` publications, and `nextId` is the number after `r`
increments -/
def UpTo (m : Shared α) (b nextId : Nat) (returned : List Nat) : Prop :=
  ∃ r ≤ b, nextId = idOf r ∧ returned.Sublist (m.log.take r)

/-- `id` is the number after `r + 1` increments, what is returned lies among the first `r`
publications, and the slot holds publication `r` or nothing -/
def Reads (m : Shared α) (b : Nat) (returned : List Nat) (id : Nat) (val : Option (Publication α)) :
    Prop :=
  ∃ r < b, id = idOf (r + 1) ∧ returned.Sublist (m.log.take r) ∧
    ∀ pub, val = some pub → m.log[r]? = some pub.serial

def SubOk (m : Shared α) (b : Nat) : Proc α → Prop
  | .subscriber nextId returned (.loadIdx id) => id ≠ nextId ∧ UpTo m b nextId returned
  | .subscriber nextId returned (.acquire id g) =>
    UpTo m b nextId returned ∧ Reads m b returned id (m.buffer g).optValue
  | .subscriber nextId returned (.check id g) =>
    UpTo m b nextId returned ∧ Reads m b returned id (m.buffer g).optValue
  | .subscriber nextId returned (.takeAcquire _ pub) => Reads m b returned nextId (some pub)
  | .subscriber nextId returned _ => UpTo m b nextId returned
  | _ => True

/-- the log grows, `m'` is a later state of the memory -/
structure Later (m m' : Shared α) (b b' : Nat) : Prop where
  log : ∃ ext, m'.log = m.log ++ ext
  le : b ≤ b'
  len : b ≤ m.log.length

theorem Later.take {m m' : Shared α} {b b' r : Nat} (h : Later m m' b b') (hr : r ≤ b) :
    m'.log.take r = m.log.take r := by
  obtain ⟨ext, he⟩ := h.log
  have := h.len
  rw [he, List.take_append_of_le_length (by omega)]

theorem UpTo.later {m m' : Shared α} {b b' nextId : Nat} {returned : List Nat}
    (h : UpTo m b nextId returned) (hl : Later m m' b b') : UpTo m' b' nextId returned := by
  obtain ⟨r, hr, hid, hsub⟩ := h
  refine ⟨r, le_trans hr hl.le, hid, ?_⟩
  rw [hl.take hr]
  exact hsub

theorem Reads.later {m m' : Shared α} {b b' id : Nat} {returned : List Nat}
    {val val' : Option (Publication α)} (h : Reads m b returned id val) (hl : Later m m' b b')
    (hv : val' = val ∨ val' = none) : Reads m' b' returned id val' := by
  obtain ⟨r, hr, hid, hsub, hval⟩ := h
  refine ⟨r, lt_of_lt_of_le hr hl.le, hid, ?_, ?_⟩
  · rw [hl.take hr.le]
    exact hsub
  · intro pub hpub
    obtain ⟨ext, he⟩ := hl.log
    have hlen := hl.len
    rcases hv with hv | hv
    · rw [he, List.getElem?_append_left (by omega)]
      exact hval pub (hv ▸ hpub)
    · rw [hv] at hpub
      cases hpub

/-- a subscriber that somebody else leaves alone -/
theorem SubOk.later {m m' : Shared α} {b b' : Nat} {p : Proc α} (h : SubOk m b p)
    (hl : Later m m' b b') (hv : ∀ g, p.reading = some g →
      (m'.buffer g).optValue = (m.buffer g).optValue ∨ (m'.buffer g).optValue = none) :
    SubOk m' b' p := by
  cases p with
  | publisher => trivial
  | wrapper => trivial
  | subscriber nextId returned pc =>
    cases pc with
    | loadIdx id => exact ⟨h.1, h.2.later hl⟩
    | acquire id g => exact ⟨h.1.later hl, h.2.later hl (hv g rfl)⟩
    | check id g => exact ⟨h.1.later hl, h.2.later hl (hv g rfl)⟩
    | takeAcquire g pub => exact Reads.later h hl (.inl rfl)
    | _ => exact UpTo.later h hl

/-- what was returned before, in case nothing is returned now -/
theorem Reads.upTo {m : Shared α} {b id : Nat} {returned : List Nat} {val : Option (Publication α)}
    (h : Reads m b returned id val) : UpTo m b id returned := by
  obtain ⟨r, hr, hid, hsub, -⟩ := h
  exact ⟨r + 1, hr, hid, hsub.trans (List.take_sublist_take_left (by omega))⟩

theorem Reads.returns {m : Shared α} {b id : Nat} {returned : List Nat} {pub : Publication α}
    (h : Reads m b returned id (some pub)) : UpTo m b id (returned ++ [pub.serial]) := by
  obtain ⟨r, hr, hid, hsub, hval⟩ := h
  refine ⟨r + 1, hr, hid, ?_⟩
  rw [List.take_add_one, hval pub rfl]
  exact hsub.append (List.Sublist.refl _)

/-- the index is loaded in step with the number -/
theorem UpTo.load {m : Shared α} {b nextId : Nat} {returned : List Nat} (h : UpTo m b nextId returned)
    (hne : idOf b ≠ nextId) (hlen : m.log.length = b) {val : Option (Publication α)}
    (hval : ∀ pub, val = some pub → m.log.getLast? = some pub.serial) :
    Reads m b returned (idOf b) val := by
  obtain ⟨r, hr, hid, hsub⟩ := h
  have hrb : r < b := by
    rcases Nat.lt_or_ge r b with hlt | hge
    · exact hlt
    · exact absurd (by rw [hid, Nat.le_antisymm hr hge]) hne
  refine ⟨b - 1, by omega, ?_, hsub.trans (List.take_sublist_take_left (by omega)), ?_⟩
  · rw [Nat.sub_add_cancel (by omega)]
  · intro pub hpub
    rw [← hval pub hpub, List.getLast?_eq_getElem?, hlen]

/-! ## what a step does to number, index and slot -/

@[simp] def Effect.quiet : Effect α → Bool
  | .emplace _ _ => false
  | .storeIdx _ _ => false
  | .bumpId => false
  | _ => true

inductive Announce (m : Shared α) : Proc α → Proc α → Effect α → Prop
  | emplace (e : Nat) (prev : Option Nat) (n g : Nat) (v : α) :
    Announce m (.publisher e prev n (.emplace g v)) (.publisher e prev n (.storeIdx g m.serial))
      (.emplace g v)
  | storeIdx (e : Nat) (prev : Option Nat) (n g i : Nat) :
    Announce m (.publisher e prev n (.storeIdx g i)) (.publisher e prev n (.bumpId g)) (.storeIdx g i)
  | bumpId (e : Nat) (prev : Option Nat) (n g : Nat) :
    Announce m (.publisher e prev n (.bumpId g)) (.publisher e prev n (.acquire g)) .bumpId

structure Quiet (q q' : Proc α) (eff : Effect α) (sp : Option (Proc α)) : Prop where
  eff : eff.quiet = true
  before : q.storing = none ∧ q.bumping = false
  after : q'.storing = none ∧ q'.bumping = false
  spawn : ∀ p, sp = some p → ∃ owner g pub pc, p = .wrapper owner g pub pc

theorem nextPublisher_cases {L : Layout} {m : Shared α} {e : Nat} {prev : Option Nat} {n : Nat}
    {pc : PublisherPc α} {c : Choice α} {q' : Proc α} {eff : Effect α} {sp : Option (Proc α)}
    (h : nextPublisher L m e prev n pc c = some (q', eff, sp)) :
    Announce m (.publisher e prev n pc) q' eff ∧ sp = none ∨
      Quiet (.publisher e prev n pc) q' eff sp := by
  unfold nextPublisher at h
  split at h
  case h_5 =>
    cases h
    exact .inl ⟨.emplace .., rfl⟩
  case h_6 =>
    cases h
    exact .inl ⟨.storeIdx .., rfl⟩
  case h_7 =>
    cases h
    exact .inl ⟨.bumpId .., rfl⟩
  case h_2 =>
    right
    split at h
    · cases h
      constructor <;> simp
    · obtain ⟨rfl, rfl, ⟨-, rfl⟩ | ⟨-, rfl⟩⟩ := afterFetchSub_some h <;> constructor <;> simp
  case h_4 =>
    right
    simp only at h
    split at h <;> cases h <;> constructor <;> simp
  case h_8 =>
    right
    split at h <;> cases h <;> constructor <;> simp
  case h_9 =>
    right
    split at h
    · cases h
    · obtain ⟨rfl, rfl, ⟨-, rfl⟩ | ⟨-, rfl⟩⟩ := afterFetchSub_some h <;> constructor <;> simp
  all_goals
    right
    cases h
    try constructor <;> simp

theorem nextSubscriber_quiet {m : Shared α} {k nextId : Nat} {returned : List Nat}
    {pc : SubscriberPc α} {c : Choice α} {q' : Proc α} {eff : Effect α} {sp : Option (Proc α)}
    (h : nextSubscriber m k nextId returned pc c = some (q', eff, sp)) :
    Quiet (.subscriber nextId returned pc) q' eff sp := by
  unfold nextSubscriber at h
  split at h
  case h_1 => split at h <;> cases h <;> constructor <;> simp
  case h_4 => split at h <;> cases h <;> constructor <;> simp
  case h_5 => split at h <;> cases h <;> constructor <;> simp
  case h_7 =>
    obtain ⟨rfl, rfl, ⟨-, rfl⟩ | ⟨-, rfl⟩⟩ := afterFetchSub_some h <;> constructor <;> simp
  all_goals
    cases h
    try constructor <;> simp

theorem nextWrapper_quiet {m : Shared α} {owner g : Nat} {pub : Publication α}
    {pc : WrapperPc} {c : Choice α} {q' : Proc α} {eff : Effect α} {sp : Option (Proc α)}
    (h : nextWrapper m owner g pub pc c = some (q', eff, sp)) :
    Quiet (.wrapper owner g pub pc) q' eff sp := by
  unfold nextWrapper at h
  split at h
  case h_1 =>
    obtain ⟨rfl, rfl, ⟨-, rfl⟩ | ⟨-, rfl⟩⟩ := afterFetchSub_some h <;> constructor <;> simp
  all_goals
    cases h
    try constructor <;> simp

theorem next_cases {L : Layout} {m : Shared α} {k : Nat} {q : Proc α} {c : Choice α} {q' : Proc α}
    {eff : Effect α} {sp : Option (Proc α)} (h : q.next L m k c = some (q', eff, sp)) :
    Announce m q q' eff ∧ sp = none ∨ Quiet q q' eff sp := by
  cases q with
  | publisher e prev n pc => exact nextPublisher_cases h
  | subscriber nextId returned pc => exact .inr (nextSubscriber_quiet h)
  | wrapper owner g pub pc => exact .inr (nextWrapper_quiet h)

/-- a quiet step leaves number, index and log alone and can only empty a slot -/
theorem apply_quiet (m : Shared α) {eff : Effect α} (h : eff.quiet = true) :
    (m.apply eff).nextMessageId = m.nextMessageId ∧
      (m.apply eff).latestPublishedIdx = m.latestPublishedIdx ∧
      (m.apply eff).serial = m.serial ∧ (m.apply eff).log = m.log ∧
      ∀ i, ((m.apply eff).buffer i).optValue = (m.buffer i).optValue ∨
        ((m.apply eff).buffer i).optValue = none := by
  cases eff with
  | emplace => cases h
  | storeIdx => cases h
  | bumpId => cases h
  | fetchAdd g =>
    refine ⟨rfl, rfl, rfl, rfl, fun i => .inl ?_⟩
    by_cases hi : i = g <;> simp [Shared.apply, hi, Message.acquireUnsafe]
  | fetchSub g =>
    refine ⟨rfl, rfl, rfl, rfl, fun i => .inl ?_⟩
    by_cases hi : i = g <;> simp [Shared.apply, hi, Message.fetchSub]
  | reset g =>
    refine ⟨rfl, rfl, rfl, rfl, fun i => ?_⟩
    by_cases hi : i = g
    · exact .inr (by simp [Shared.apply, hi, Message.reset])
    · exact .inl (by simp [Shared.apply, hi])
  | _ => exact ⟨rfl, rfl, rfl, rfl, fun i => .inl rfl⟩

/-- number and index are in step with the log when a subscriber loads the index -/
structure Loads (m : Shared α) (b id : Nat) : Prop where
  id : id = idOf b
  len : m.log.length = b
  val : ∀ pub, (m.buffer m.latest).optValue = some pub → m.log.getLast? = some pub.serial

theorem nextSubscriber_subOk {m : Shared α} {b k nextId : Nat} {returned : List Nat}
    {pc : SubscriberPc α} {c : Choice α} {q' : Proc α} {eff : Effect α} {sp : Option (Proc α)}
    (h : nextSubscriber m k nextId returned pc c = some (q', eff, sp))
    (hq : SubOk m b (.subscriber nextId returned pc))
    (hload : ∀ id, pc = .loadIdx id → Loads m b id) : SubOk m b q' := by
  unfold nextSubscriber at h
  split at h
  case h_1 =>
    split at h
    · rename_i hne
      cases h
      exact ⟨hne, hq⟩
    · cases h
      exact hq
  case h_2 id =>
    cases h
    obtain ⟨rfl, hlen, hval⟩ := hload id rfl
    exact ⟨hq.2, hq.2.load hq.1 hlen hval⟩
  case h_3 =>
    cases h
    exact hq
  case h_4 id g =>
    split at h
    · rename_i pub hv
      cases h
      show Reads m b returned id (some pub)
      rw [← hv]
      exact hq.2
    · cases h
      exact hq.1
  case h_5 g pub =>
    split at h
    · cases h
      exact Reads.upTo hq
    · cases h
      exact Reads.returns hq
  case h_7 =>
    obtain ⟨rfl, rfl, ⟨-, rfl⟩ | ⟨-, rfl⟩⟩ := afterFetchSub_some h
    · exact hq
    · exact hq
  all_goals
    cases h
    try exact hq

/-- publishers and wrappers stay publishers and wrappers -/
theorem next_subOk {L : Layout} {m : Shared α} {b k : Nat} {q : Proc α} {c : Choice α} {q' : Proc α}
    {eff : Effect α} {sp : Option (Proc α)} (h : q.next L m k c = some (q', eff, sp))
    (hq : SubOk m b q) (hload : ∀ id ∈ q.loading, Loads m b id) : SubOk m b q' := by
  cases q with
  | publisher e prev n pc =>
    suffices hp : ∃ prev' n' pc', q' = .publisher e prev' n' pc' by
      obtain ⟨prev', n', pc', rfl⟩ := hp
      trivial
    change nextPublisher L m e prev n pc c = _ at h
    unfold nextPublisher afterFetchSub at h
    simp only at h
    split at h <;> (try split at h) <;> (try split at h) <;> cases h <;> exact ⟨_, _, _, rfl⟩
  | subscriber nextId returned pc =>
    exact nextSubscriber_subOk h hq fun id hid => hload id (by rw [hid]; rfl)
  | wrapper owner g pub pc =>
    suffices hp : ∃ pc', q' = .wrapper owner g pub pc' by
      obtain ⟨pc', rfl⟩ := hp
      trivial
    change nextWrapper m owner g pub pc c = _ at h
    unfold nextWrapper afterFetchSub at h
    split at h <;> (try split at h) <;> cases h <;> exact ⟨_, rfl⟩

/-! ## the invariant -/

structure InvAt (L : Layout) (s : State α) (b : Nat) : Prop where
  entries : Entries L s
  nextId : s.shared.nextMessageId = idOf b
  bumps : s.shared.log.length = b + s.procs.countP Proc.bumping
  once : ∀ n, hits Proc.unstored s.procs n + s.shared.log.count n ≤ 1
  below : ∀ n, 0 < hits Proc.unstored s.procs n + s.shared.log.count n → n < s.shared.serial
  emplaced : ∀ p ∈ s.procs, ∀ g n, p.storing = some (g, n) →
    ∀ pub, (s.shared.buffer g).optValue = some pub → pub.serial = n
  latest : s.shared.log ≠ [] → ∀ pub, (s.shared.buffer s.shared.latest).optValue = some pub →
    s.shared.log.getLast? = some pub.serial ∨
      ∃ p ∈ s.procs, p.storing.map Prod.fst = some s.shared.latest
  subs : ∀ p ∈ s.procs, SubOk s.shared b p

theorem invAt_init (L : Layout) : InvAt L (State.init α) 0 :=
  ⟨entries_init L, rfl, rfl, fun _ => Nat.zero_le _, fun _ h => absurd h (Nat.lt_irrefl 0), nofun,
    fun h => absurd rfl h, nofun⟩

theorem InvAt.log_nodup {L : Layout} {s : State α} {b : Nat} (h : InvAt L s b) :
    s.shared.log.Nodup := by
  rw [List.nodup_iff_count_le_one]
  intro n
  have := h.once n
  omega

theorem InvAt.fresh {L : Layout} {s : State α} {b : Nat} (h : InvAt L s b) : Fresh s := by
  intro nextId returned pc hmem
  have hup : UpTo s.shared b nextId returned := by
    have hok := h.subs _ hmem
    cases pc with
    | loadIdx id => exact hok.2
    | acquire id g => exact hok.1
    | check id g => exact hok.1
    | takeAcquire g pub => exact Reads.upTo hok
    | _ => exact hok
  obtain ⟨r, -, -, hsub⟩ := hup
  have hlog := hsub.trans (List.take_sublist r _)
  refine ⟨fun n hn => hlog.subset hn, List.Pairwise.sublist hlog ?_⟩
  rw [List.pairwise_iff_getElem]
  intro i j hi hj hij
  rw [h.log_nodup.idxOf_getElem i hi, h.log_nodup.idxOf_getElem j hj]
  exact hij

/-- a subscriber that may load the index finds number, index and slot in step -/
theorem InvAt.loads {L : Layout} {s : State α} {b : Nat} (h : InvAt L s b) {k : Nat} {q : Proc α}
    (hq : s.procs[k]? = some q) {id : Nat} (hid : q.loading = some id) (hC : Loadable s id) :
    Loads s.shared b id := by
  have hlen : s.shared.log.length = b := by
    have hnone : s.procs.countP Proc.bumping = 0 := by
      rw [List.countP_eq_zero]
      intro p hp
      rw [(hC.2 p hp).1]
      exact Bool.false_ne_true
    rw [h.bumps, hnone]
    rfl
  refine ⟨by rw [← hC.1, h.nextId], hlen, fun pub hpub => ?_⟩
  have hne : s.shared.log ≠ [] := by
    intro hnil
    -- no increment yet, so the subscriber has not seen a new number
    have hb : b = 0 := by rw [← hlen, hnil]; rfl
    have hok := h.subs q (List.mem_of_getElem? hq)
    cases q with
    | publisher => cases hid
    | wrapper => cases hid
    | subscriber nextId returned pc =>
      cases pc with
      | loadIdx i =>
        obtain ⟨hne, r, hr, hnext, -⟩ := hok
        cases hid
        refine hne ?_
        have hr0 : r = 0 := by omega
        rw [hnext, ← hC.1, h.nextId, hb, hr0]
      | _ => cases hid
  rcases h.latest hne pub hpub with hlast | ⟨p, hp, hst⟩
  · exact hlast
  · exact absurd hst (hC.2 p hp).2

section
variable {L : Layout} {s : State α} {b k : Nat} {q q' : Proc α} {eff : Effect α} {sp : Option (Proc α)}

/-- the subscribers after a step of the process at position `k` -/
theorem InvAt.subs_set (h : InvAt L s b) (k : Nat) (q' : Proc α) {m' : Shared α} {b' : Nat}
    (hl : Later s.shared m' b b')
    (hval : ∀ p ∈ s.procs, ∀ g, p.reading = some g →
      (m'.buffer g).optValue = (s.shared.buffer g).optValue ∨ (m'.buffer g).optValue = none)
    (hq' : SubOk m' b' q') : ∀ p ∈ s.procs.set k q', SubOk m' b' p := by
  intro p hp
  rcases mem_set_cases hp with rfl | ⟨j, -, hj⟩
  · exact hq'
  · exact (h.subs p (List.mem_of_getElem? hj)).later hl (hval p (List.mem_of_getElem? hj))

theorem InvAt.quiet (h : InvAt L s b) (hq : s.procs[k]? = some q) (hn : Quiet q q' eff sp)
    (hent : Entries L { shared := s.shared.apply eff, procs := s.procs.set k q' ++ sp.toList })
    (hsub : SubOk s.shared b q') :
    InvAt L { shared := s.shared.apply eff, procs := s.procs.set k q' ++ sp.toList } b := by
  obtain ⟨hid, hidx, hser, hlog, hval⟩ := apply_quiet s.shared hn.eff
  have hlen : b ≤ s.shared.log.length := by rw [h.bumps]; omega
  have hl : Later s.shared (s.shared.apply eff) b b := ⟨⟨[], by rw [hlog, List.append_nil]⟩, le_refl b, hlen⟩
  have hsp : ∀ p ∈ sp.toList, p.storing = none ∧ p.bumping = false := by
    intro p hp
    obtain ⟨owner, g, pub, pc, rfl⟩ := hn.spawn p (Option.mem_toList.mp hp)
    exact ⟨rfl, rfl⟩
  have hhits : ∀ n, hits Proc.unstored (s.procs.set k q' ++ sp.toList) n = hits Proc.unstored s.procs n := by
    intro n
    have h1 := hits_set Proc.unstored hq q' n
    have h2 : hits Proc.unstored sp.toList n = 0 := by
      rw [hits_eq_zero_iff]
      intro p hp
      rw [unstored_none (hsp p hp).1]
      exact nofun
    rw [unstored_none hn.before.1, unstored_none hn.after.1] at h1
    rw [hits_append, h2]
    exact h1
  have hstoring : ∀ p ∈ s.procs.set k q' ++ sp.toList, p.storing ≠ none → p ∈ s.procs := by
    intro p hp hne
    rcases List.mem_append.mp hp with hp | hp
    · rcases mem_set_cases hp with rfl | ⟨j, -, hj⟩
      · exact absurd hn.after.1 hne
      · exact List.mem_of_getElem? hj
    · exact absurd (hsp p hp).1 hne
  refine ⟨hent, hid.trans h.nextId, ?_, ?_, ?_, ?_, ?_, ?_⟩
  · have h1 := countP_set Proc.bumping hq q'
    have h2 : sp.toList.countP Proc.bumping = 0 := by
      rw [List.countP_eq_zero]
      intro p hp
      rw [(hsp p hp).2]
      exact Bool.false_ne_true
    rw [List.countP_append, h2, hlog, h.bumps]
    rw [hn.before.2, hn.after.2] at h1
    simpa using h1.symm
  · intro n
    rw [hhits n, hlog]
    exact h.once n
  · intro n
    rw [hhits n, hlog, hser]
    exact h.below n
  · intro p hp g n hst pub hpub
    have hp' := hstoring p hp (by rw [hst]; exact nofun)
    rcases hval g with hv | hv
    · exact h.emplaced p hp' g n hst pub (hv ▸ hpub)
    · rw [hv] at hpub
      cases hpub
  · intro hne pub hpub
    have hlat : (s.shared.apply eff).latest = s.shared.latest := by rw [Shared.latest, hidx]; rfl
    simp only [hlat, hlog] at hne hpub ⊢
    rcases hval s.shared.latest with hv | hv
    · rcases h.latest hne pub (hv ▸ hpub) with hlast | ⟨p, hp, hst⟩
      · exact .inl hlast
      · refine .inr ⟨p, List.mem_append_left _ (mem_set_of_ne hq hp ?_), hst⟩
        intro hpq
        rw [hpq, hn.before.1] at hst
        cases hst
    · rw [hv] at hpub
      cases hpub
  · intro p hp
    rcases List.mem_append.mp hp with hp | hp
    · exact h.subs_set k q' hl (fun p _ g _ => hval g) (hsub.later hl fun g _ => hval g) p hp
    · obtain ⟨owner, g, pub, pc, rfl⟩ := hn.spawn p (Option.mem_toList.mp hp)
      trivial

/-- the slot of a publisher that announces is its own: nobody else has emplaced there -/
theorem InvAt.other_slot (h : InvAt L s b) (hq : s.procs[k]? = some q) {g : Nat} (hg : q.chosen = some g)
    {j : Nat} (hjk : j ≠ k) {p : Proc α} (hj : s.procs[j]? = some p) {f n : Nat}
    (hst : p.storing = some (f, n)) : f ≠ g := by
  intro hfg
  have hp : p.chosen = some g := by
    unfold Proc.storing at hst
    split at hst
    · cases hst
      rw [← hfg]
      rfl
    · cases hst
  exact hjk (h.entries.unique hj hq hp hg)

theorem InvAt.emplace_step (h : InvAt L s b) {e n g : Nat} {prev : Option Nat} {v : α}
    (hq : s.procs[k]? = some (.publisher e prev n (.emplace g v)))
    (hC : ∀ p ∈ s.procs, p.reading ≠ some g)
    (hent : Entries L
      { shared := s.shared.apply (.emplace g v)
        procs := s.procs.set k (.publisher e prev n (.storeIdx g s.shared.serial)) }) :
    InvAt L
      { shared := s.shared.apply (.emplace g v)
        procs := s.procs.set k (.publisher e prev n (.storeIdx g s.shared.serial)) } b := by
  have hlen : b ≤ s.shared.log.length := by rw [h.bumps]; omega
  have hl : Later s.shared (s.shared.apply (.emplace g v)) b b := ⟨⟨[], by simp [Shared.apply]⟩, le_refl b, hlen⟩
  have hother : ∀ i, i ≠ g →
      ((s.shared.apply (.emplace g v)).buffer i).optValue = (s.shared.buffer i).optValue := by
    intro i hi
    simp [Shared.apply, hi]
  have hhits : ∀ i, hits Proc.unstored
      (s.procs.set k (.publisher e prev n (.storeIdx g s.shared.serial))) i
        = hits Proc.unstored s.procs i + hit (some s.shared.serial) i :=
    fun i => hits_set Proc.unstored hq (.publisher e prev n (.storeIdx g s.shared.serial)) i
  refine ⟨hent, h.nextId, ?_, ?_, ?_, ?_, ?_, ?_⟩
  · have h1 := countP_set Proc.bumping hq (.publisher e prev n (.storeIdx g s.shared.serial))
    exact h.bumps.trans (congrArg (b + ·) h1.symm)
  · intro i
    have h1 := h.once i
    have h2 := h.below i
    rw [hhits, hit_some]
    show _ + s.shared.log.count i ≤ 1
    split <;> omega
  · intro i
    have h2 := h.below i
    rw [hhits, hit_some]
    show 0 < _ + s.shared.log.count i → i < s.shared.serial + 1
    split <;> omega
  · intro p hp f i hst pub hpub
    rcases mem_set_cases hp with rfl | ⟨j, hjk, hj⟩
    · cases hst
      simp only [Shared.apply, update_self, Message.emplace, Option.some.injEq] at hpub
      rw [← hpub]
    · rw [hother f (h.other_slot hq rfl hjk hj hst)] at hpub
      exact h.emplaced p (List.mem_of_getElem? hj) f i hst pub hpub
  · intro hne pub hpub
    by_cases hg : s.shared.latest = g
    · exact .inr ⟨_, List.mem_set (List.getElem?_eq_some_iff.mp hq).1 _, congrArg some hg.symm⟩
    · rcases h.latest hne pub ((hother _ hg) ▸ hpub) with hlast | ⟨p, hp, hst⟩
      · exact .inl hlast
      · refine .inr ⟨p, mem_set_of_ne hq hp ?_, hst⟩
        rintro rfl
        cases hst
  · exact h.subs_set k _ hl (fun p hp f hf => .inl (hother f fun hfg => hC p hp (hfg ▸ hf))) trivial

theorem InvAt.storeIdx_step (h : InvAt L s b) {e n g i : Nat} {prev : Option Nat}
    (hq : s.procs[k]? = some (.publisher e prev n (.storeIdx g i)))
    (hent : Entries L
      { shared := s.shared.apply (.storeIdx g i)
        procs := s.procs.set k (.publisher e prev n (.bumpId g)) }) :
    InvAt L
      { shared := s.shared.apply (.storeIdx g i)
        procs := s.procs.set k (.publisher e prev n (.bumpId g)) } b := by
  have hlen : b ≤ s.shared.log.length := by rw [h.bumps]; omega
  have hl : Later s.shared (s.shared.apply (.storeIdx g i)) b b := ⟨⟨[i], rfl⟩, le_refl b, hlen⟩
  have hhits : ∀ j, hits Proc.unstored (s.procs.set k (.publisher e prev n (.bumpId g))) j
      + hit (some i) j = hits Proc.unstored s.procs j :=
    fun j => hits_set Proc.unstored hq (.publisher e prev n (.bumpId g)) j
  have hcount : ∀ j, (s.shared.log ++ [i]).count j = s.shared.log.count j + hit (some i) j := by
    intro j
    rw [List.count_append, List.count_singleton, hit_some]
    simp
  refine ⟨hent, h.nextId, ?_, ?_, ?_, ?_, ?_, ?_⟩
  · have h1 := countP_set Proc.bumping hq (.publisher e prev n (.bumpId g))
    simp only [Proc.bumping, Bool.false_eq_true, if_false, if_true] at h1
    show (s.shared.log ++ [i]).length
      = b + (s.procs.set k (.publisher e prev n (.bumpId g))).countP Proc.bumping
    rw [List.length_append, h.bumps, List.length_singleton]
    omega
  · intro j
    have h1 := h.once j
    have h2 := hhits j
    show hits Proc.unstored (s.procs.set k (.publisher e prev n (.bumpId g))) j
      + (s.shared.log ++ [i]).count j ≤ 1
    rw [hcount]
    omega
  · intro j
    have h1 := h.below j
    have h2 := hhits j
    show 0 < hits Proc.unstored (s.procs.set k (.publisher e prev n (.bumpId g))) j
      + (s.shared.log ++ [i]).count j → j < s.shared.serial
    rw [hcount]
    omega
  · intro p hp f j hst pub hpub
    rcases mem_set_cases hp with rfl | ⟨j', -, hj⟩
    · cases hst
    · exact h.emplaced p (List.mem_of_getElem? hj) f j hst pub hpub
  · intro _ pub hpub
    obtain ⟨e', n', -, hge⟩ := h.entries.chosen _ (List.mem_of_getElem? hq) g rfl
    have hg : g % 2^32 = g := Nat.mod_eq_of_lt (hge ▸ L.slotIndex_lt e' n')
    have hser := h.emplaced _ (List.mem_of_getElem? hq) g i rfl pub (by
      change (s.shared.buffer (g % 2^32)).optValue = some pub at hpub
      rw [hg] at hpub
      exact hpub)
    left
    show (s.shared.log ++ [i]).getLast? = some pub.serial
    rw [List.getLast?_append, hser]
    rfl
  · exact h.subs_set k _ hl (fun p _ f _ => .inl rfl) trivial

theorem idOf_succ (b : Nat) : (idOf b + 1) % 2^64 = idOf (b + 1) := by
  unfold idOf
  omega

theorem InvAt.bumpId_step (h : InvAt L s b) {e n g : Nat} {prev : Option Nat}
    (hq : s.procs[k]? = some (.publisher e prev n (.bumpId g)))
    (hent : Entries L
      { shared := s.shared.apply .bumpId
        procs := s.procs.set k (.publisher e prev n (.acquire g)) }) :
    InvAt L
      { shared := s.shared.apply .bumpId
        procs := s.procs.set k (.publisher e prev n (.acquire g)) } (b + 1) := by
  have hlen : b ≤ s.shared.log.length := by rw [h.bumps]; omega
  have hl : Later s.shared (s.shared.apply .bumpId) b (b + 1) :=
    ⟨⟨[], by simp [Shared.apply]⟩, Nat.le_succ b, hlen⟩
  have hhits : ∀ j, hits Proc.unstored (s.procs.set k (.publisher e prev n (.acquire g))) j
      = hits Proc.unstored s.procs j :=
    fun j => hits_set Proc.unstored hq (.publisher e prev n (.acquire g)) j
  refine ⟨hent, ?_, ?_, ?_, ?_, ?_, ?_, ?_⟩
  · show (s.shared.nextMessageId + 1) % 2^64 = idOf (b + 1)
    rw [h.nextId, idOf_succ]
  · have h1 := countP_set Proc.bumping hq (.publisher e prev n (.acquire g))
    simp only [Proc.bumping, Bool.false_eq_true, if_false, if_true] at h1
    show s.shared.log.length
      = b + 1 + (s.procs.set k (.publisher e prev n (.acquire g))).countP Proc.bumping
    rw [h.bumps]
    omega
  · intro j
    rw [hhits]
    exact h.once j
  · intro j
    rw [hhits]
    exact h.below j
  · intro p hp f j hst pub hpub
    rcases mem_set_cases hp with rfl | ⟨j', -, hj⟩
    · cases hst
    · exact h.emplaced p (List.mem_of_getElem? hj) f j hst pub hpub
  · intro hne pub hpub
    rcases h.latest hne pub hpub with hlast | ⟨p, hp, hst⟩
    · exact .inl hlast
    · refine .inr ⟨p, mem_set_of_ne hq hp ?_, hst⟩
      rintro rfl
      cases hst
  · exact h.subs_set k _ hl (fun p _ f _ => .inl rfl) trivial

theorem InvAt.spawn (h : InvAt L s b) {m : Shared α} {p : Proc α}
    (hbuf : m.buffer = s.shared.buffer) (hid : m.nextMessageId = s.shared.nextMessageId)
    (hidx : m.latestPublishedIdx = s.shared.latestPublishedIdx) (hser : m.serial = s.shared.serial)
    (hlog : m.log = s.shared.log) (hst : p.storing = none) (hbump : p.bumping = false)
    (hsub : SubOk s.shared b p) (hent : Entries L { shared := m, procs := s.procs ++ [p] }) :
    InvAt L { shared := m, procs := s.procs ++ [p] } b := by
  obtain ⟨buffer, nextMessageId, latestPublishedIdx, available, serial, log⟩ := m
  simp only at hbuf hid hidx hser hlog
  subst hbuf hid hidx hser hlog
  have hlen : b ≤ s.shared.log.length := by rw [h.bumps]; omega
  have hl : ∀ a, Later s.shared { s.shared with available := a } b b :=
    fun a => ⟨⟨[], by simp⟩, le_refl b, hlen⟩
  have hhits : ∀ j, hits Proc.unstored (s.procs ++ [p]) j = hits Proc.unstored s.procs j := by
    intro j
    rw [hits_append, hits_singleton, unstored_none hst, hit_none]
    rfl
  refine ⟨hent, h.nextId, ?_, ?_, ?_, ?_, ?_, ?_⟩
  · show s.shared.log.length = b + _
    rw [List.countP_append, h.bumps]
    simp only [List.countP_singleton, hbump, Bool.false_eq_true, if_false, Nat.add_zero]
  · intro j
    rw [hhits]
    exact h.once j
  · intro j
    rw [hhits]
    exact h.below j
  · intro r hr g n hrs pub hpub
    rcases List.mem_append.mp hr with hr | hr
    · exact h.emplaced r hr g n hrs pub hpub
    · rw [List.mem_singleton.mp hr, hst] at hrs
      cases hrs
  · intro hne pub hpub
    rcases h.latest hne pub hpub with hlast | ⟨r, hr, hrs⟩
    · exact .inl hlast
    · exact .inr ⟨r, List.mem_append_left _ hr, hrs⟩
  · intro r hr
    rcases List.mem_append.mp hr with hr | hr
    · exact (h.subs r hr).later (hl available) fun g _ => .inl rfl
    · rw [List.mem_singleton.mp hr]
      exact hsub.later (hl available) fun g _ => .inl rfl

end

theorem InvAt.step {L : Layout} {s t : State α} {b : Nat} (h : InvAt L s b) (a : Action α)
    (hC : InStep s a) (ht : step L s a = some t) : ∃ b', InvAt L t b' := by
  have hent := h.entries.step a ht
  cases a with
  | createPublisher e =>
    obtain ⟨-, rfl⟩ := step_createPublisher_some ht
    exact ⟨b, h.spawn rfl rfl rfl rfl rfl rfl rfl trivial hent⟩
  | createSubscriber =>
    cases ht
    refine ⟨b, h.spawn ?_ ?_ ?_ ?_ ?_ rfl rfl ?_ hent⟩
    case refine_6 => exact ⟨b, le_refl b, h.nextId, List.nil_sublist _⟩
    all_goals rfl
  | proc k c =>
    obtain ⟨q, q', eff, sp, hq, hnext, rfl⟩ := step_proc_some ht
    obtain ⟨hCload, hCemp⟩ := hC q hq
    rcases next_cases hnext with ⟨hann, rfl⟩ | hquiet
    · simp only [Option.toList_none, List.append_nil] at hent ⊢
      cases hann with
      | emplace e prev n g v => exact ⟨b, h.emplace_step hq (hCemp g rfl) hent⟩
      | storeIdx e prev n g i => exact ⟨b, h.storeIdx_step hq hent⟩
      | bumpId e prev n g => exact ⟨b + 1, h.bumpId_step hq hent⟩
    · refine ⟨b, h.quiet hq hquiet hent ?_⟩
      exact next_subOk hnext (h.subs q (List.mem_of_getElem? hq)) fun id hid =>
        h.loads hq hid (hCload id hid)

/-- **Every subscriber is served in publication order**, for any number of publishers and subscribers
and any interleaving in which number, index and slot stay in step. -/
theorem fresh_delivery (L : Layout) (as : List (Action α))
    (hC : Runs.Every (step L) InStep (State.init α) as) (s : State α)
    (h : Runs.run (step L) (State.init α) as = some s) : Fresh s := by
  obtain ⟨b, hinv⟩ := Runs.run_inv_of_every (I := fun s => ∃ b, InvAt L s b)
    (fun _ a _ ⟨_, hs⟩ hCa ht => hs.step a hCa ht) as ⟨0, invAt_init L⟩ hC h
  exact hinv.fresh

/-- two publications, each fetched before the next -/
def servedActions : List (Action Nat) :=
  [.createPublisher 0, .createSubscriber] ++ publishSteps 0 5 ++ [.proc 1 .fetch] ++ fetchSteps 1 ++
    [.proc 2 .drop, .proc 2 .go] ++ publishSteps 0 6 ++ [.proc 1 .fetch] ++ fetchSteps 1

theorem fresh_delivery_example :
    ∃ s nextId, Runs.run (step exampleLayout) (State.init Nat) servedActions = some s ∧
      Proc.subscriber nextId [0, 1] .idle ∈ s.procs ∧ Fresh s := by
  refine ⟨_, _, rfl, List.mem_of_getElem? (i := 1) rfl, ?_⟩
  exact fresh_delivery exampleLayout servedActions (by decide +kernel) _ rfl

/-- the subscriber has loaded the number of the first publication when the second is announced, loads
the index of the second, and gets the second once more when it fetches again -/
def pairedActions : List (Action Nat) :=
  [.createPublisher 0, .createSubscriber] ++ publishSteps 0 5 ++ [.proc 1 .fetch] ++
    publishSteps 0 6 ++ fetchSteps 1 ++ [.proc 2 .drop, .proc 2 .go] ++ [.proc 1 .fetch] ++ fetchSteps 1

theorem returned_twice :
    ∃ s nextId, Runs.run (step exampleLayout) (State.init Nat) pairedActions = some s ∧
      Proc.subscriber nextId [1, 1] .idle ∈ s.procs ∧ ¬ Fresh s := by
  refine ⟨_, _, rfl, List.mem_of_getElem? (i := 1) rfl, fun h => ?_⟩
  have hlt := (h _ [1, 1] .idle (List.mem_of_getElem? (i := 1) rfl)).2
  exact absurd hlt (by simp)

end

end Steps
end RealTime
end Ipcpp
