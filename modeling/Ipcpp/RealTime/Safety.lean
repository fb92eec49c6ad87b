import Ipcpp.RealTime.Steps

/-!
# A held message is neither reset nor overwritten, and when this fails

`HeldOk s`: every wrapper that was returned and not yet released still finds in its slot the very
publication `fetch_message` saw.

The program does not guarantee this: `Access::release` resets the slot some time AFTER its `fetch_sub`
took the counter to zero, and `acquire_unsafe` takes a reference without looking.  A reference that is
taken in between is not seen by the pending reset (`held_message_reset`).  That is the only way it goes
wrong: in a run in which no reference is taken on a slot with a pending reset (`NoPendingReset`), every
held message stays in place (`held_stays`).

The proof: the counter counts the references (`refs`), so while a slot is referred to nobody has taken
its counter to zero and no reset is pending (`Inv.pending`); a publisher emplaces only where it has
read `invalid_id_v`, and nobody else writes an id there in between, because the pools of different
publishers are disjoint (`Entries.unique`).
-/

namespace Ipcpp
namespace RealTime
namespace Steps
open Function Counting

section
variable {α : Type}

/-! ## what a process is doing -/

@[simp] def Proc.ref : Proc α → Option Nat
  | .publisher _ _ _ (.reset _ _) => none
  | .publisher _ _ _ (.closing _) => none
  | .publisher _ prev _ _ => prev
  | .subscriber _ _ (.check _ g) => some g
  | .subscriber _ _ (.takeAcquire g _) => some g
  | .subscriber _ _ (.giveAcquire g) => some g
  | .subscriber _ _ (.release g) => some g
  | .wrapper _ g _ .held => some g
  | _ => none

/-- the second reference of a publisher, between its `acquire_unsafe` and the end of the assignment -/
@[simp] def Proc.newRef : Proc α → Option Nat
  | .publisher _ _ _ (.release g) => some g
  | .publisher _ _ _ (.reset g _) => some g
  | _ => none

/-- the slot a process has taken to zero and will reset -/
@[simp] def Proc.pend : Proc α → Option Nat
  | .publisher _ _ _ (.reset _ old) => some old
  | .publisher _ _ _ (.closing old) => some old
  | .subscriber _ _ (.reset g) => some g
  | .wrapper _ g _ .reset => some g
  | _ => none

/-- the slot in which `fetch_message` saw a value, with that value -/
@[simp] def Proc.sees : Proc α → Option (Nat × Publication α)
  | .subscriber _ _ (.takeAcquire g pub) => some (g, pub)
  | .wrapper _ g pub .held => some (g, pub)
  | _ => none

/-- the slot whose counter a process increments next -/
@[simp] def Proc.acquiring : Proc α → Option Nat
  | .publisher _ _ _ (.acquire g) => some g
  | .subscriber _ _ (.acquire _ g) => some g
  | _ => none

@[simp] def Effect.adds : Effect α → Option Nat
  | .fetchAdd g => some g
  | _ => none

theorem Effect.eq_fetchAdd {eff : Effect α} {i : Nat} (h : eff.adds = some i) : eff = .fetchAdd i := by
  cases eff with
  | fetchAdd g => exact congrArg Effect.fetchAdd (Option.some.inj h)
  | _ => cases h

@[simp] def Effect.subs : Effect α → Option Nat
  | .fetchSub g => some g
  | _ => none

/-- references on slot `i` -/
def refs (procs : List (Proc α)) (i : Nat) : Nat := hits Proc.ref procs i + hits Proc.newRef procs i

/-- every wrapper that was returned and is not released finds its publication in its slot -/
def HeldOk (s : State α) : Prop :=
  ∀ owner g pub, Proc.wrapper owner g pub .held ∈ s.procs →
    (s.shared.buffer g).optValue = some pub

def takesReference (s : State α) : Action α → Option Nat
  | .proc k _ => s.procs[k]?.bind Proc.acquiring
  | _ => none

/-- no reference is taken on a slot that some process is about to reset -/
def NoPendingReset (s : State α) (a : Action α) : Prop :=
  ∀ g, takesReference s a = some g → ∀ p ∈ s.procs, p.pend ≠ some g

instance (s : State α) (a : Action α) : Decidable (NoPendingReset s a) :=
  inferInstanceAs (Decidable (∀ g ∈ takesReference s a, ∀ p ∈ s.procs, p.pend ≠ some g))

/-! ## what a step of a process can do -/

/-- everything the safety proof needs to know about one step of a process -/
structure NextSpec (m : Shared α) (q q' : Proc α) (eff : Effect α)
    (sp : Option (Proc α)) : Prop where
  refs : ∀ i, refs [q'] i + refs sp.toList i + hit eff.subs i = refs [q] i + hit eff.adds i
  pend : ∀ i, q'.pend = some i → eff = .fetchSub i ∧ (m.buffer i).activeReferenceCounter = 1
  reset : ∀ i, eff = .reset i → q.pend = some i
  acquiring : ∀ i, eff = .fetchAdd i → q.acquiring = some i
  sees : ∀ x, q'.sees = some x →
    q.sees = some x ∨ (m.buffer x.1).optValue = some x.2 ∧ m.apply eff = m
  emplacing : ∀ g, q'.emplacing = some g → (m.buffer g).messageId = invalidId ∧ m.apply eff = m
  emplace : ∀ g v, eff = .emplace g v → q.emplacing = some g
  spawn : ∀ p, sp = some p → p.sees = q.sees ∧ p.pend = none ∧ p.emplacing = none

theorem refs_nil (i : Nat) : refs ([] : List (Proc α)) i = 0 := rfl

theorem refs_single (p : Proc α) (i : Nat) : refs [p] i = hit p.ref i + hit p.newRef i := by
  unfold refs
  rw [hits_singleton, hits_singleton]

theorem nextPublisher_spec {L : Layout} {m : Shared α} {e : Nat} {prev : Option Nat} {n : Nat}
    {pc : PublisherPc α} {c : Choice α} {q' : Proc α} {eff : Effect α} {sp : Option (Proc α)}
    (h : nextPublisher L m e prev n pc c = some (q', eff, sp)) :
    NextSpec m (.publisher e prev n pc) q' eff sp := by
  unfold nextPublisher at h
  split at h
  case h_2 =>
    split at h
    · cases h
      constructor <;> simp [refs_single, refs_nil]
    · obtain ⟨rfl, rfl, ⟨hc, rfl⟩ | ⟨hc, rfl⟩⟩ := afterFetchSub_some h <;>
        constructor <;> simp [refs_single, refs_nil, hc]
  case h_4 =>
    simp only at h
    split at h
    · rename_i hid
      cases h
      constructor <;> simp [refs_single, refs_nil, hid, Shared.apply]
    · cases h
      constructor <;> simp [refs_single, refs_nil]
  case h_8 =>
    split at h <;> cases h <;>
      constructor <;> simp [refs_single, refs_nil]
  case h_9 =>
    split at h
    · cases h
    · obtain ⟨rfl, rfl, ⟨hc, rfl⟩ | ⟨hc, rfl⟩⟩ := afterFetchSub_some h <;>
        constructor <;> simp [refs_single, refs_nil, hc, Nat.add_comm]
  all_goals
    cases h
    try constructor <;> simp [refs_single, refs_nil]

theorem nextSubscriber_spec {m : Shared α} {k nextId : Nat} {returned : List Nat}
    {pc : SubscriberPc α} {c : Choice α} {q' : Proc α} {eff : Effect α} {sp : Option (Proc α)}
    (h : nextSubscriber m k nextId returned pc c = some (q', eff, sp)) :
    NextSpec m (.subscriber nextId returned pc) q' eff sp := by
  unfold nextSubscriber at h
  split at h
  case h_1 =>
    split at h <;> cases h <;> constructor <;> simp [refs_single, refs_nil]
  case h_4 =>
    split at h
    · rename_i pub hv
      cases h
      constructor <;> simp [refs_single, refs_nil, hv, Shared.apply]
    · cases h
      constructor <;> simp [refs_single, refs_nil]
  case h_5 =>
    split at h <;> cases h <;> constructor <;> simp [refs_single, refs_nil]
  case h_7 =>
    obtain ⟨rfl, rfl, ⟨hc, rfl⟩ | ⟨hc, rfl⟩⟩ := afterFetchSub_some h <;>
      constructor <;> simp [refs_single, refs_nil, hc]
  all_goals
    cases h
    try constructor <;> simp [refs_single, refs_nil]

theorem nextWrapper_spec {m : Shared α} {owner g : Nat} {pub : Publication α}
    {pc : WrapperPc} {c : Choice α} {q' : Proc α} {eff : Effect α} {sp : Option (Proc α)}
    (h : nextWrapper m owner g pub pc c = some (q', eff, sp)) :
    NextSpec m (.wrapper owner g pub pc) q' eff sp := by
  unfold nextWrapper at h
  split at h
  case h_1 =>
    obtain ⟨rfl, rfl, ⟨hc, rfl⟩ | ⟨hc, rfl⟩⟩ := afterFetchSub_some h <;>
      constructor <;> simp [refs_single, refs_nil, hc]
  all_goals
    cases h
    try constructor <;> simp [refs_single, refs_nil]

theorem next_spec {L : Layout} {m : Shared α} {k : Nat} {q : Proc α} {c : Choice α} {q' : Proc α}
    {eff : Effect α} {sp : Option (Proc α)} (h : q.next L m k c = some (q', eff, sp)) :
    NextSpec m q q' eff sp := by
  cases q with
  | publisher e prev n pc => exact nextPublisher_spec h
  | subscriber nextId returned pc => exact nextSubscriber_spec h
  | wrapper owner g pub pc => exact nextWrapper_spec h

theorem ref_of_sees {p : Proc α} {x : Nat × Publication α} (h : p.sees = some x) :
    p.ref = some x.1 := by
  unfold Proc.sees at h
  split at h <;> cases h <;> rfl

/-! ## what an effect does to a slot -/

theorem apply_counter (m : Shared α) (eff : Effect α) (i : Nat) :
    ((m.apply eff).buffer i).activeReferenceCounter
      = (m.buffer i).activeReferenceCounter + hit eff.adds i - hit eff.subs i := by
  cases eff with
  | emplace g v =>
    by_cases h : i = g <;> simp [Shared.apply, h, Message.emplace]
  | fetchAdd g =>
    by_cases h : i = g
    · simp [Shared.apply, h, Message.acquireUnsafe, hit_some]
    · simp [Shared.apply, h, hit_some, Ne.symm h]
  | fetchSub g =>
    by_cases h : i = g
    · simp [Shared.apply, h, Message.fetchSub, hit_some]
    · simp [Shared.apply, h, hit_some, Ne.symm h]
  | reset g =>
    by_cases h : i = g <;> simp [Shared.apply, h, Message.reset]
  | _ => rfl

/-- only an emplace and a reset touch value and id -/
theorem apply_slot (m : Shared α) {eff : Effect α} {i : Nat} (he : ∀ v, eff ≠ .emplace i v)
    (hr : eff ≠ .reset i) :
    ((m.apply eff).buffer i).optValue = (m.buffer i).optValue ∧
      ((m.apply eff).buffer i).messageId = (m.buffer i).messageId := by
  cases eff with
  | emplace g v =>
    have h : i ≠ g := fun h => he v (by rw [h])
    simp [Shared.apply, h]
  | fetchAdd g => by_cases h : i = g <;> simp [Shared.apply, h, Message.acquireUnsafe]
  | fetchSub g => by_cases h : i = g <;> simp [Shared.apply, h, Message.fetchSub]
  | reset g =>
    have h : i ≠ g := fun h => hr (by rw [h])
    simp [Shared.apply, h]
  | _ => exact ⟨rfl, rfl⟩

/-! ## the invariant -/

structure Inv (L : Layout) (s : State α) : Prop where
  counter : ∀ i, (s.shared.buffer i).activeReferenceCounter = refs s.procs i
  value : ∀ i, (s.shared.buffer i).messageId = invalidId → (s.shared.buffer i).optValue = none
  pending : ∀ p ∈ s.procs, ∀ i, p.pend = some i → (s.shared.buffer i).activeReferenceCounter = 0
  sees : ∀ p ∈ s.procs, ∀ x, p.sees = some x → (s.shared.buffer x.1).optValue = some x.2
  entries : Entries L s
  emplacing : ∀ p ∈ s.procs, ∀ g, p.emplacing = some g → (s.shared.buffer g).messageId = invalidId

theorem inv_init (L : Layout) : Inv L (State.init α) :=
  ⟨fun _ => rfl, fun _ _ => rfl, nofun, nofun, entries_init L, nofun⟩

theorem refs_append (l l' : List (Proc α)) (i : Nat) : refs (l ++ l') i = refs l i + refs l' i := by
  unfold refs
  rw [hits_append, hits_append]
  omega

theorem refs_set {l : List (Proc α)} {k : Nat} {q : Proc α} (hq : l[k]? = some q) (q' : Proc α)
    (i : Nat) : refs (l.set k q') i + refs [q] i = refs l i + refs [q'] i := by
  rw [refs_single, refs_single]
  have h1 := hits_set Proc.ref hq q' i
  have h2 := hits_set Proc.newRef hq q' i
  unfold refs
  omega

/-- while a slot is seen by someone nobody is about to reset it -/
theorem Inv.not_pending {L : Layout} {s : State α} (h : Inv L s) {p r : Proc α} (hp : p ∈ s.procs)
    (hr : r ∈ s.procs) {x : Nat × Publication α} (hx : p.sees = some x) : r.pend ≠ some x.1 := by
  intro hpend
  have h0 := h.pending r hr x.1 hpend
  have hpos := hits_pos Proc.ref hp (ref_of_sees hx)
  rw [h.counter] at h0
  unfold refs at h0
  omega

section
variable {L : Layout} {s : State α} {k : Nat} {q q' : Proc α} {eff : Effect α} {sp : Option (Proc α)}

theorem Inv.counter_step (h : Inv L s) (hq : s.procs[k]? = some q) (hn : NextSpec s.shared q q' eff sp)
    (i : Nat) : ((s.shared.apply eff).buffer i).activeReferenceCounter
      = refs (s.procs.set k q' ++ sp.toList) i := by
  have h1 := hn.refs i
  have h2 := refs_set hq q' i
  rw [apply_counter, h.counter, refs_append]
  omega

theorem Inv.value_step (h : Inv L s) (hq : s.procs[k]? = some q) (hn : NextSpec s.shared q q' eff sp)
    (i : Nat) (hid : ((s.shared.apply eff).buffer i).messageId = invalidId) :
    ((s.shared.apply eff).buffer i).optValue = none := by
  by_cases hr : eff = .reset i
  · subst hr
    simp [Shared.apply, Message.reset]
  · by_cases he : ∃ v, eff = .emplace i v
    · obtain ⟨v, rfl⟩ := he
      obtain ⟨e, n, -, hg⟩ :=
        h.entries.chosen q (List.mem_of_getElem? hq) i (chosen_of_emplacing (hn.emplace i v rfl))
      refine absurd hid ?_
      simp only [Shared.apply, update_self, Message.emplace]
      rw [hg]
      exact L.slotIndex_ne_invalid e n
    · obtain ⟨hv, hi⟩ := apply_slot s.shared (fun v hv => he ⟨v, hv⟩) hr
      rw [hv]
      rw [hi] at hid
      exact h.value i hid

/-- a value someone sees stays -/
theorem Inv.seen_step (h : Inv L s) (hq : s.procs[k]? = some q) (hn : NextSpec s.shared q q' eff sp)
    {p : Proc α} (hp : p ∈ s.procs) {x : Nat × Publication α} (hx : p.sees = some x) :
    ((s.shared.apply eff).buffer x.1).optValue = some x.2 := by
  have hmem := List.mem_of_getElem? hq
  have hval := h.sees p hp x hx
  have he : ∀ v, eff ≠ .emplace x.1 v := by
    intro v hv
    have hnone := h.value x.1 (h.emplacing q hmem x.1 (hn.emplace x.1 v hv))
    rw [hval] at hnone
    cases hnone
  have hr : eff ≠ .reset x.1 := fun hr => h.not_pending hp hmem hx (hn.reset x.1 hr)
  rw [(apply_slot s.shared he hr).1, hval]

theorem Inv.sees_step (h : Inv L s) (hq : s.procs[k]? = some q) (hn : NextSpec s.shared q q' eff sp) :
    ∀ p ∈ s.procs.set k q' ++ sp.toList, ∀ x, p.sees = some x →
      ((s.shared.apply eff).buffer x.1).optValue = some x.2 := by
  have hmem := List.mem_of_getElem? hq
  intro p hp x hx
  rcases List.mem_append.mp hp with hp | hp
  · rcases mem_set_cases hp with rfl | ⟨j, -, hj⟩
    · rcases hn.sees x hx with hs | ⟨hv, hsame⟩
      · exact h.seen_step hq hn hmem hs
      · rw [hsame]
        exact hv
    · exact h.seen_step hq hn (List.mem_of_getElem? hj) hx
  · obtain ⟨hs, -⟩ := hn.spawn p (Option.mem_toList.mp hp)
    rw [hs] at hx
    exact h.seen_step hq hn hmem hx

theorem Inv.pending_step (h : Inv L s) (hn : NextSpec s.shared q q' eff sp)
    (hC : ∀ g, q.acquiring = some g → ∀ p ∈ s.procs, p.pend ≠ some g) :
    ∀ p ∈ s.procs.set k q' ++ sp.toList, ∀ i, p.pend = some i →
      ((s.shared.apply eff).buffer i).activeReferenceCounter = 0 := by
  intro p hp i hi
  rw [apply_counter]
  rcases List.mem_append.mp hp with hp | hp
  · rcases mem_set_cases hp with rfl | ⟨j, -, hj⟩
    · obtain ⟨rfl, hone⟩ := hn.pend i hi
      rw [hone]
      simp [hit_some]
    · have hjm := List.mem_of_getElem? hj
      have hadd : hit eff.adds i = 0 := by
        unfold hit
        exact if_neg fun ha => hC i (hn.acquiring i (Effect.eq_fetchAdd ha)) p hjm hi
      rw [h.pending p hjm i hi, hadd]
      omega
  · obtain ⟨-, hnone, -⟩ := hn.spawn p (Option.mem_toList.mp hp)
    rw [hnone] at hi
    cases hi

/-- nobody but its publisher writes an id into a chosen slot -/
theorem Inv.chosen_step (h : Inv L s) (hq : s.procs[k]? = some q)
    (hn : NextSpec s.shared q q' eff sp) {j : Nat} (hjk : j ≠ k) {p : Proc α}
    (hj : s.procs[j]? = some p) {g : Nat} (hg : p.emplacing = some g) :
    ((s.shared.apply eff).buffer g).messageId = invalidId := by
  by_cases hr : eff = .reset g
  · subst hr
    simp [Shared.apply, Message.reset]
  · have he : ∀ v, eff ≠ .emplace g v := fun v hv => hjk (h.entries.unique hj hq
      (chosen_of_emplacing hg) (chosen_of_emplacing (hn.emplace g v hv)))
    rw [(apply_slot s.shared he hr).2, h.emplacing p (List.mem_of_getElem? hj) g hg]

theorem Inv.emplacing_step (h : Inv L s) (hq : s.procs[k]? = some q)
    (hn : NextSpec s.shared q q' eff sp) :
    ∀ p ∈ s.procs.set k q' ++ sp.toList, ∀ g, p.emplacing = some g →
      ((s.shared.apply eff).buffer g).messageId = invalidId := by
  intro p hp g hg
  rcases List.mem_append.mp hp with hp | hp
  · rcases mem_set_cases hp with rfl | ⟨j, hjk, hj⟩
    · obtain ⟨hid, hsame⟩ := hn.emplacing g hg
      rw [hsame]
      exact hid
    · exact h.chosen_step hq hn hjk hj hg
  · rw [(hn.spawn p (Option.mem_toList.mp hp)).2.2] at hg
    cases hg

end

/-- a process that starts does not touch what the invariant is about -/
theorem Inv.spawn {L : Layout} {s : State α} (h : Inv L s) {m : Shared α}
    (hm : m.buffer = s.shared.buffer) {p : Proc α} (href : p.ref = none) (hnew : p.newRef = none)
    (hpend : p.pend = none) (hsees : p.sees = none) (hemp : p.emplacing = none)
    (hent : Entries L { shared := m, procs := s.procs ++ [p] }) :
    Inv L { shared := m, procs := s.procs ++ [p] } where
  entries := hent
  counter i := by
    rw [refs_append, refs_single, href, hnew, hit_none]
    show (m.buffer i).activeReferenceCounter = _
    rw [hm]
    exact h.counter i
  value i hid := by
    simp only [hm] at hid ⊢
    exact h.value i hid
  pending r hr i hi := by
    simp only [hm]
    rcases List.mem_append.mp hr with hr | hr
    · exact h.pending r hr i hi
    · rw [List.mem_singleton.mp hr, hpend] at hi
      cases hi
  sees r hr x hx := by
    simp only [hm]
    rcases List.mem_append.mp hr with hr | hr
    · exact h.sees r hr x hx
    · rw [List.mem_singleton.mp hr, hsees] at hx
      cases hx
  emplacing r hr g hg := by
    simp only [hm]
    rcases List.mem_append.mp hr with hr | hr
    · exact h.emplacing r hr g hg
    · rw [List.mem_singleton.mp hr, hemp] at hg
      cases hg

theorem Inv.step {L : Layout} {s t : State α} (h : Inv L s) (a : Action α) (hC : NoPendingReset s a)
    (ht : step L s a = some t) : Inv L t := by
  have hent := h.entries.step a ht
  cases a with
  | createPublisher e =>
    obtain ⟨-, rfl⟩ := step_createPublisher_some ht
    exact h.spawn rfl rfl rfl rfl rfl rfl hent
  | createSubscriber =>
    cases ht
    refine h.spawn ?_ rfl rfl rfl rfl rfl hent
    rfl
  | proc k c =>
    obtain ⟨q, q', eff, sp, hq, hnext, rfl⟩ := step_proc_some ht
    have hn := next_spec hnext
    have hC' : ∀ g, q.acquiring = some g → ∀ p ∈ s.procs, p.pend ≠ some g := by
      intro g hg
      refine hC g ?_
      show s.procs[k]?.bind Proc.acquiring = some g
      rw [hq]
      exact hg
    exact ⟨h.counter_step hq hn, h.value_step hq hn, h.pending_step hn hC', h.sees_step hq hn, hent,
      h.emplacing_step hq hn⟩

/-- **A held message stays where it is**, for any number of publishers and subscribers and any
interleaving, if no step takes a reference on a slot with a pending reset. -/
theorem held_stays (L : Layout) (as : List (Action α))
    (hC : Runs.Every (step L) NoPendingReset (State.init α) as) (s : State α)
    (h : Runs.run (step L) (State.init α) as = some s) : HeldOk s := by
  have hinv : Inv L s :=
    Runs.run_inv_of_every (fun _ a _ hs hCa ht => hs.step a hCa ht) as (inv_init L) hC h
  intro owner g pub hmem
  exact hinv.sees _ hmem (g, pub) rfl

/-- one publisher, one subscriber; the subscriber fetches and holds the first message while the second
is published -/
def heldActions : List (Action Nat) :=
  [.createPublisher 0, .createSubscriber] ++ publishSteps 0 5 ++
    [.proc 1 .fetch] ++ fetchSteps 1 ++ publishSteps 0 6 ++ [.proc 0 .go]

/-- no process of `heldActions` is ever about to reset a slot -/
theorem held_stays_example :
    ∃ s, Runs.run (step exampleLayout) (State.init Nat) heldActions = some s ∧
      Proc.wrapper 1 0 ⟨5, 0⟩ .held ∈ s.procs ∧ HeldOk s := by
  refine ⟨_, rfl, List.mem_of_getElem? (i := 2) rfl, ?_⟩
  exact held_stays exampleLayout heldActions (by decide +kernel) _ rfl

/-- the subscriber has loaded the index of the first message when the publisher drops its own reference
to it: the subscriber takes the counter from zero to one, finds the value, returns a wrapper, and
then the publisher resets the slot -/
def overtakenActions : List (Action Nat) :=
  [.createPublisher 0, .createSubscriber] ++ publishSteps 0 5 ++ [.proc 1 .fetch, .proc 1 .go] ++
    publishSteps 0 6 ++ [.proc 0 .go] ++ [.proc 1 .go, .proc 1 .go, .proc 1 .go] ++ [.proc 0 .go]

theorem held_message_reset :
    ∃ s, Runs.run (step exampleLayout) (State.init Nat) overtakenActions = some s ∧ ¬ HeldOk s := by
  refine ⟨_, rfl, fun h => ?_⟩
  have hgone := h 1 0 ⟨5, 0⟩ (List.mem_of_getElem? (i := 2) rfl)
  cases hgone

end

end Steps
end RealTime
end Ipcpp
