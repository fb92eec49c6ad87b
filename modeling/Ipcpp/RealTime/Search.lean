import Mathlib
import Ipcpp.RealTime.Accounting
import Ipcpp.RealTime.Limit

/-!
# The slot search of `publish` ends

The loop has no other exit than a free slot.  If a pool of at least `S * A + 2` slots had none, every
slot of it would be referred to.  But the references into one pool are few:

* wrappers: at most `A` for each of at most `S` subscribers (`LimitKept`);
* publishers: only the owner of the pool keeps a message in it (`PrevInArea`), and it keeps one.

The search cycles through the whole pool whatever local id it starts from, also when the 32-bit id
wraps around on the way, because the pool size divides `2^32` (`findSlot_none`).
-/

namespace Ipcpp
namespace RealTime
open Function Counting Finset

section
variable {α : Type}

/-! ## the loop visits every slot of the pool -/

theorem slotIndex_mod (L : Layout) (e n : Nat) : L.slotIndex e (n % 2^32) = L.slotIndex e n := by
  unfold Layout.slotIndex
  rw [L.and_wrap, L.and_wrap, Nat.mod_mod_of_dvd n L.pool_dvd]

theorem slotIndex_congr (L : Layout) (e : Nat) {n m : Nat}
    (h : n % L.perPublisherPoolSize = m % L.perPublisherPoolSize) : L.slotIndex e n = L.slotIndex e m := by
  unfold Layout.slotIndex
  rw [L.and_wrap, L.and_wrap, h]

/-- a search that gives up has seen `fuel` consecutive local ids, all of them taken -/
theorem findSlot_none {L : Layout} {b : Nat → Message α} {e : Nat} (fuel : Nat) :
    ∀ {n}, findSlot L b e fuel n = none →
      ∀ i < fuel, (b (L.slotIndex e (n + i))).messageId ≠ invalidId := by
  induction fuel with
  | zero => exact fun _ i hi => absurd hi (Nat.not_lt_zero i)
  | succ fuel ih =>
    intro n h i hi
    unfold findSlot at h
    by_cases hf : (b (L.slotIndex e n)).messageId = invalidId
    · rw [if_pos hf] at h
      cases h
    · rw [if_neg hf] at h
      cases i with
      | zero => exact hf
      | succ i =>
        have h1 := ih h i (Nat.lt_of_succ_lt_succ hi)
        have e1 : L.slotIndex e ((n + 1) % 2^32 + i) = L.slotIndex e (n + (i + 1)) := by
          rw [← slotIndex_mod L e ((n + 1) % 2^32 + i), Nat.mod_add_mod, slotIndex_mod]
          congr 1
          omega
        rw [← e1]
        exact h1

/-- `pool` consecutive local ids select every slot of the pool -/
theorem exists_slotIndex (L : Layout) (e n j : Nat) :
    ∃ i < L.perPublisherPoolSize, L.slotIndex e (n + i) = L.slotIndex e j := by
  have hp := L.pool_pos
  have hn := Nat.mod_lt n hp
  refine ⟨(j + (L.perPublisherPoolSize - n % L.perPublisherPoolSize)) % L.perPublisherPoolSize,
    Nat.mod_lt _ hp, slotIndex_congr L e ?_⟩
  rw [Nat.add_mod_mod, Nat.add_mod, ← Nat.add_mod_mod]
  have h1 : n % L.perPublisherPoolSize + (j + (L.perPublisherPoolSize - n % L.perPublisherPoolSize))
      = j + L.perPublisherPoolSize := by omega
  rw [Nat.add_mod_mod, Nat.add_mod_mod, h1, Nat.add_mod_right]

/-! ## who can refer to a slot of the pool -/

/-- a publisher only keeps messages of its own pool -/
def PrevInArea (L : Layout) (s : State α) : Prop :=
  s.publishers.length = L.maxPublishers ∧
    ∀ (e : Nat) (p : Publisher), s.publishers[e]? = some (some p) → ∀ g, p.prevPublishedMessage = some g →
      ∃ n, g = L.slotIndex e n

theorem prevInArea_init (L : Layout) : PrevInArea L (State.init α L) := by
  refine ⟨List.length_replicate, fun e p he => ?_⟩
  have := List.mem_of_getElem? he
  simp [State.init] at this

theorem PrevInArea.set {L : Layout} {s t : State α} (h : PrevInArea L s) {e : Nat} (q : Option Publisher)
    (ht : t.publishers = s.publishers.set e q)
    (hq : ∀ p, q = some p → ∀ g, p.prevPublishedMessage = some g → ∃ n, g = L.slotIndex e n) :
    PrevInArea L t := by
  refine ⟨by rw [ht, List.length_set]; exact h.1, fun f p hf => ?_⟩
  rw [ht] at hf
  by_cases hfe : e = f
  · subst hfe
    rw [List.getElem?_set] at hf
    simp only [↓reduceIte] at hf
    split at hf
    · exact hq p (Option.some.inj hf)
    · cases hf
  · rw [List.getElem?_set_ne hfe] at hf
    exact h.2 f p hf

theorem PrevInArea.step {L : Layout} {s t : State α} (h : PrevInArea L s) (c : Call α)
    (ht : step L s c = some t) : PrevInArea L t := by
  cases c with
  | createPublisher e =>
    obtain ⟨-, rfl⟩ := createPublisher_some ht
    refine h.set _ rfl fun p hp g hg => ?_
    cases hp
    cases hg
  | destroyPublisher e =>
    obtain ⟨p, -, rfl⟩ := destroyPublisher_some ht
    exact h.set _ rfl fun p hp => nomatch hp
  | publish e v =>
    obtain ⟨p, g, n, -, hg, rfl⟩ := publish_some ht
    refine h.set _ rfl fun q hq g' hg' => ?_
    cases hq
    cases hg'
    exact (findSlot_free _ hg).2
  | createSubscriber =>
    obtain ⟨-, rfl⟩ := createSubscriber_some ht
    exact h
  | fetchMessage k =>
    obtain ⟨sub, -, rfl⟩ := Option.map_eq_some_iff.mp ht
    rcases fetchMessage_cases s k sub with e | e | e | ⟨-, -, e⟩ <;> rw [e] <;> exact h
  | moveConstruct i =>
    obtain ⟨w, -, rfl⟩ := moveConstruct_some ht
    exact h
  | moveAssign i j =>
    obtain ⟨w, o, -, -, ⟨-, rfl⟩ | ⟨-, rfl⟩⟩ := moveAssign_some ht
    · exact h
    · unfold PrevInArea at h ⊢
      rw [← cleanup_publishers s w] at h
      exact h
  | destroyWrapper i =>
    obtain ⟨w, -, rfl⟩ := destroyWrapper_some ht
    unfold PrevInArea at h ⊢
    rw [← cleanup_publishers s w] at h
    exact h

theorem publishers_in_pool {L : Layout} {s : State α} (h : PrevInArea L s) {e : Nat}
    (he : e < L.maxPublishers) :
    ∑ j ∈ range L.perPublisherPoolSize, publishersOn s (e * L.perPublisherPoolSize + j) ≤ 1 := by
  refine (sum_hits_le publisherSlot s.publishers _ _).trans (countP_le_one _ _ e ?_)
  intro f q hq hp
  obtain ⟨g, hg, hlo, hhi⟩ := of_decide_eq_true hp
  obtain ⟨p, hqp, hpg⟩ := Option.bind_eq_some_iff.mp hg
  subst hqp
  obtain ⟨n, hn⟩ := h.2 f p hq g hpg
  have hf : f < L.maxPublishers := h.1 ▸ (List.getElem?_eq_some_iff.mp hq).1
  refine L.slotIndex_inj hf he (n := n) (m := g - e * L.perPublisherPoolSize) ?_
  rw [← hn, L.slotIndex_eq he, Nat.mod_eq_of_lt (by omega)]
  omega

/-- the wrappers on a pool are at most the messages all subscribers may hold -/
theorem wrappers_in_pool {L : Layout} {s : State α} (hO : Owned L s) (hK : LimitKept L s) (a n : Nat) :
    ∑ j ∈ range n, wrappersOn s (a + j) ≤ L.maxSubscribers * L.maxConcurrentAcquires := by
  have h1 : ∑ j ∈ range n, wrappersOn s (a + j) ≤ _ := sum_hits_le wrapperSlot s.wrappers a n
  have h2 : (s.wrappers.countP fun x => decide (∃ i, wrapperSlot x = some i ∧ a ≤ i ∧ i < a + n))
      ≤ s.wrappers.countP fun x => (wrapperSlot x).isSome := by
    refine List.countP_mono_left fun x _ hx => ?_
    obtain ⟨i, hi, -⟩ := of_decide_eq_true hx
    rw [hi]
    rfl
  have h3 := sum_countP_owner holder (fun x => (wrapperSlot x).isSome) s.wrappers s.subscribers.length
    (by
      intro x hx hv
      cases x with
      | none => cases hv
      | some w =>
        have hv' : w.access.isSome := hv
        obtain ⟨k, hk⟩ := Option.isSome_iff_exists.mp (hO.owner w hx hv')
        refine ⟨k, ?_, hO.inRange w hx k hk⟩
        show (if w.access.isSome then w.acquireCounter else none) = some k
        rw [if_pos hv', hk])
  have h4 : ∀ k ∈ range s.subscribers.length,
      (s.wrappers.countP fun x => (wrapperSlot x).isSome && decide (holder x = some k))
        ≤ L.maxConcurrentAcquires := by
    intro k hk
    have hlt := mem_range.mp hk
    refine le_trans (List.countP_mono_left fun x _ hx => ?_)
      (hK k _ (List.getElem?_eq_getElem hlt)).2
    exact (Bool.and_eq_true _ _ ▸ hx).2
  have h5 := sum_le_card_nsmul _ _ _ h4
  rw [card_range, smul_eq_mul] at h5
  have h6 := Nat.mul_le_mul_right L.maxConcurrentAcquires hO.count
  omega

/-! ## the search -/

/-- calls other than a move assignment of wrappers -/
def Call.isPlain : Call α → Bool
  | .moveAssign _ _ => false
  | _ => true

theorem plain_assigns {c : Call α} (h : c.isPlain = true) (s : State α) : AssignsToMovedFrom s c := by
  cases c with
  | moveAssign i j => cases h
  | _ => exact trivial

/-- what holds after any plain calls -/
structure Bounded (L : Layout) (s : State α) : Prop where
  accounted : Accounted s
  owned : Owned L s
  limit : LimitKept L s
  noHollow : NoHollow s
  area : PrevInArea L s

theorem bounded_init (L : Layout) : Bounded L (State.init α L) :=
  ⟨accounted_init L, owned_init L, limitKept_init L, nofun, prevInArea_init L⟩

theorem Bounded.step {L : Layout} {s t : State α} (h : Bounded L s) {c : Call α} (hc : c.isPlain = true)
    (ht : step L s c = some t) : Bounded L t :=
  ⟨h.accounted.step c ht, h.owned.step c ht,
    (limitKept_step h.owned h.limit c ht).mpr (h.noHollow.cleanup c),
    noHollow_step h.noHollow c (plain_assigns hc s) ht, h.area.step c ht⟩

theorem bounded_run {L : Layout} {cs : List (Call α)} (hcs : ∀ c ∈ cs, c.isPlain = true) {s : State α}
    (h : Runs.run (step L) (State.init α L) cs = some s) : Bounded L s :=
  Runs.run_inv_of_every (C := fun _ c => c.isPlain = true) (fun _ _ _ hs hc ht => hs.step hc ht) cs
    (bounded_init L) (Runs.every_of_forall (fun c hc _ => hcs c hc) _) h

theorem exists_free_slot {L : Layout}
    (hpool : L.maxSubscribers * L.maxConcurrentAcquires + 2 ≤ L.perPublisherPoolSize) {s : State α}
    (h : Bounded L s) {e : Nat} (he : e < L.maxPublishers) :
    ∃ j < L.perPublisherPoolSize, (s.buffer (e * L.perPublisherPoolSize + j)).messageId = invalidId := by
  by_contra hno
  have hused : ∀ j ∈ range L.perPublisherPoolSize, 1 ≤ refs s (e * L.perPublisherPoolSize + j) := by
    intro j hj
    have hne : (s.buffer (e * L.perPublisherPoolSize + j)).messageId ≠ invalidId :=
      fun hc => hno ⟨j, mem_range.mp hj, hc⟩
    rw [← h.accounted.counter]
    exact (h.accounted.consistent _).id_iff.mp hne
  have h1 := card_nsmul_le_sum _ _ _ hused
  have h2 := publishers_in_pool h.area he
  have h3 := wrappers_in_pool h.owned h.limit (e * L.perPublisherPoolSize) L.perPublisherPoolSize
  have h4 : ∑ j ∈ range L.perPublisherPoolSize, refs s (e * L.perPublisherPoolSize + j)
      = ∑ j ∈ range L.perPublisherPoolSize, wrappersOn s (e * L.perPublisherPoolSize + j)
        + ∑ j ∈ range L.perPublisherPoolSize, publishersOn s (e * L.perPublisherPoolSize + j) :=
    sum_add_distrib
  rw [card_range, smul_eq_mul, Nat.mul_one, h4] at h1
  omega

theorem Bounded.findSlot {L : Layout}
    (hpool : L.maxSubscribers * L.maxConcurrentAcquires + 2 ≤ L.perPublisherPoolSize) {s : State α}
    (h : Bounded L s) {e : Nat} (he : e < L.maxPublishers) (n : Nat) :
    ∃ g n', findSlot L s.buffer e L.perPublisherPoolSize n = some (g, n') ∧
      (s.buffer g).messageId = invalidId := by
  cases hf : RealTime.findSlot L s.buffer e L.perPublisherPoolSize n with
  | some gn => exact ⟨gn.1, gn.2, rfl, (findSlot_free _ hf).1⟩
  | none =>
    obtain ⟨j, hj, hfree⟩ := exists_free_slot hpool h he
    obtain ⟨i, hi, hidx⟩ := exists_slotIndex L e n j
    have hne := findSlot_none _ hf i hi
    rw [hidx, L.slotIndex_eq he, Nat.mod_eq_of_lt hj] at hne
    exact absurd hfree hne

/-- **The slot search of `publish` ends.**  For a pool of at least `S * A + 2` slots, after any whole
calls of `publish`, `fetch_message` and destructors of wrappers (constructors and destructors of
publishers and move constructions of wrappers may come in between) with at most `S` subscribers, and
whatever `next_local_message_id` is, the loop finds a free slot in at most pool-size rounds. -/
theorem findSlot_terminates (L : Layout)
    (hpool : L.maxSubscribers * L.maxConcurrentAcquires + 2 ≤ L.perPublisherPoolSize)
    (cs : List (Call α)) (hcs : ∀ c ∈ cs, c.isPlain = true) (s : State α)
    (h : Runs.run (step L) (State.init α L) cs = some s) (e : Nat) (he : e < L.maxPublishers) (n : Nat) :
    ∃ g n', findSlot L s.buffer e L.perPublisherPoolSize n = some (g, n') ∧
      (s.buffer g).messageId = invalidId :=
  (bounded_run hcs h).findSlot hpool he n

/-- the search wraps around the end of `uint_half_t` -/
theorem findSlot_terminates_wrap :
    ∃ s, Runs.run (step exampleLayout) (State.init Nat exampleLayout) exampleCalls = some s ∧
      ∃ g n', findSlot exampleLayout s.buffer 1 4 (2^32 - 1) = some (g, n') ∧
        (s.buffer g).messageId = invalidId := by
  refine ⟨_, rfl, ?_⟩
  exact findSlot_terminates exampleLayout (by decide) exampleCalls (by decide) _ rfl 1 (by decide)
    (2^32 - 1)

end

end RealTime
end Ipcpp
