import Mathlib

/-!
# The slots of the real-time message buffer and where they lie

`rt::Message` is one slot: an optional value, the id used as the "free" flag and the reference
counter.  `Message.emplace`, `Message.acquireUnsafe`, `Message.fetchSub` and `Message.reset` are its
atomic steps, `Message.release` is `Access::release` on a non-null access.

`Layout` is the part of an initialised `RealTimeMessageBuffer` that publishers and subscribers use to
find a slot: the pool of publisher entry `e` starts at `Layout.publisherBufferOffset e` and the local
message id `n` selects the slot `Layout.slotIndex e n` of the buffer.

`uint_t` has 64 bits and `uint_half_t` 32.  Reference counters are natural numbers: a reference is a
live object, so a counter does not come near `2^64`, and `fetch_sub` is only run by the owner of a
reference.
-/

namespace Ipcpp
namespace RealTime

/-- `Message::invalid_id_v`, the largest `uint_t` -/
def invalidId : Nat := 2^64 - 1

/-- one slot (`rt::Message`) -/
structure Message (α : Type) where
  optValue : Option α := none
  messageId : Nat := invalidId
  activeReferenceCounter : Nat := 0

namespace Message
variable {α : Type}

/-- `Message::emplace`: the value and the id -/
def emplace (m : Message α) (id : Nat) (v : α) : Message α :=
  { m with optValue := some v, messageId := id }

/-- `Message::acquire_unsafe`: `fetch_add(1)`, no test of the slot -/
def acquireUnsafe (m : Message α) : Message α :=
  { m with activeReferenceCounter := m.activeReferenceCounter + 1 }

/-- the `fetch_sub(1)` of `Access::release` -/
def fetchSub (m : Message α) : Message α :=
  { m with activeReferenceCounter := m.activeReferenceCounter - 1 }

/-- `Access::reset` -/
def reset (m : Message α) : Message α :=
  { m with optValue := none, messageId := invalidId }

/-- `Access::release` on a non-null access: whoever takes the counter from one to zero resets -/
def release (m : Message α) : Message α :=
  if m.activeReferenceCounter = 1 then m.fetchSub.reset else m.fetchSub

structure Consistent (m : Message α) : Prop where
  value_iff : m.optValue.isSome ↔ m.messageId ≠ invalidId
  id_iff : m.messageId ≠ invalidId ↔ 0 < m.activeReferenceCounter

theorem consistent_default : ({} : Message α).Consistent :=
  ⟨by simp, by simp⟩

theorem release_counter (m : Message α) :
    m.release.activeReferenceCounter = m.activeReferenceCounter - 1 := by
  unfold release
  split <;> rfl

theorem Consistent.release {m : Message α} (h : m.Consistent) : m.release.Consistent := by
  by_cases h1 : m.activeReferenceCounter = 1
  · rw [Message.release, if_pos h1]
    refine ⟨by simp [reset], ?_⟩
    show invalidId ≠ invalidId ↔ 0 < m.activeReferenceCounter - 1
    rw [h1]
    simp
  · rw [Message.release, if_neg h1]
    refine ⟨h.value_iff, h.id_iff.trans ?_⟩
    show 0 < m.activeReferenceCounter ↔ 0 < m.activeReferenceCounter - 1
    omega

/-- an access that is taken and given back at once leaves a consistent slot as it was, also when the
slot was free and the release resets it again -/
theorem Consistent.release_acquireUnsafe {m : Message α} (h : m.Consistent) :
    m.acquireUnsafe.release = m := by
  obtain ⟨v, id, c⟩ := m
  unfold Message.release
  show (if c + 1 = 1 then _ else _) = _
  by_cases hc : c = 0
  · have hid : id = invalidId := by
      have := h.id_iff
      simp only [hc, Nat.lt_irrefl, iff_false, not_not] at this
      exact this
    have hv : v = none := by
      have := h.value_iff
      simp only [hid, ne_eq, not_true_eq_false, iff_false, Bool.not_eq_true, Option.isSome_eq_false_iff,
        Option.isNone_iff_eq_none] at this
      exact this
    rw [if_pos (by omega), hid, hv, hc]
    rfl
  · rw [if_neg (by omega)]
    rfl

/-- the slot a publisher leaves behind: value and id written, its own reference taken -/
theorem consistent_emplace_acquire (m : Message α) (id : Nat) (hid : id ≠ invalidId) (v : α) :
    (m.emplace id v).acquireUnsafe.Consistent :=
  ⟨by simpa [emplace, acquireUnsafe] using hid, by simpa [emplace, acquireUnsafe] using hid⟩

theorem Consistent.acquireUnsafe {m : Message α} (h : m.Consistent) (hv : m.optValue.isSome) :
    m.acquireUnsafe.Consistent :=
  ⟨h.value_iff, ⟨fun _ => Nat.succ_pos _, fun _ => h.value_iff.mp hv⟩⟩

end Message

/-! ## layout -/

/-- an initialised buffer: the options stored in its header and the per-publisher pool size, a power
of two.  `message_buffer_size` is computed in `uint_half_t`: where the product reaches 2^32 it wraps and
`init_at` constructs fewer slots than the pools need, so `fits` is strict. -/
structure Layout where
  maxPublishers : Nat
  maxSubscribers : Nat
  maxConcurrentAcquires : Nat
  poolBits : Nat
  poolBits_lt : poolBits < 32
  fits : maxPublishers * 2^poolBits < 2^32

namespace Layout
variable (L : Layout)

/-- `per_publisher_pool_size(header->options)` -/
def perPublisherPoolSize : Nat := 2^L.poolBits

/-- `_wrap_around_value` of a publisher -/
def wrapAroundValue : Nat := L.perPublisherPoolSize - 1

/-- `_publisher_buffer_offset`, computed in `uint_half_t` -/
def publisherBufferOffset (e : Nat) : Nat := e * L.perPublisherPoolSize % 2^32

/-- index in the message buffer of the slot that local message id `n` of entry `e` selects -/
def slotIndex (e n : Nat) : Nat := L.publisherBufferOffset e + (n &&& L.wrapAroundValue)

theorem pool_pos : 0 < L.perPublisherPoolSize := Nat.two_pow_pos _

theorem and_wrap (n : Nat) : n &&& L.wrapAroundValue = n % L.perPublisherPoolSize :=
  Nat.and_two_pow_sub_one_eq_mod n L.poolBits

theorem pool_dvd : L.perPublisherPoolSize ∣ 2^32 :=
  Nat.pow_dvd_pow 2 (Nat.le_of_lt L.poolBits_lt)

/-- the pool of an entry never runs over the end of `uint_half_t` -/
theorem slotIndex_lt (e n : Nat) : L.slotIndex e n < 2^32 := by
  obtain ⟨c, hc⟩ := L.pool_dvd
  have hp := L.pool_pos
  have hn := Nat.mod_lt n hp
  have hoff : L.publisherBufferOffset e = L.perPublisherPoolSize * (e % c) := by
    unfold publisherBufferOffset
    rw [hc, Nat.mul_comm e, Nat.mul_mod_mul_left]
  have hcpos : 0 < c := by
    rcases Nat.eq_zero_or_pos c with h | h
    · rw [h] at hc; simp at hc
    · exact h
  have hle := Nat.mul_le_mul_left L.perPublisherPoolSize (Nat.succ_le_of_lt (Nat.mod_lt e hcpos))
  rw [← hc, Nat.mul_succ] at hle
  unfold slotIndex
  rw [and_wrap, hoff]
  omega

theorem slotIndex_ne_invalid (e n : Nat) : L.slotIndex e n ≠ invalidId := by
  have h := L.slotIndex_lt e n
  unfold invalidId
  omega

theorem slotIndex_eq {e : Nat} (he : e < L.maxPublishers) (n : Nat) :
    L.slotIndex e n = e * L.perPublisherPoolSize + n % L.perPublisherPoolSize := by
  have h1 := Nat.mul_le_mul_right L.perPublisherPoolSize (Nat.succ_le_of_lt he)
  have h2 : L.maxPublishers * L.perPublisherPoolSize ≤ 2^32 := Nat.le_of_lt L.fits
  have hp := L.pool_pos
  rw [Nat.succ_mul] at h1
  unfold slotIndex publisherBufferOffset
  rw [and_wrap, Nat.mod_eq_of_lt (by omega)]

/-- slots of different publisher entries are different -/
theorem slotIndex_inj {e f : Nat} (he : e < L.maxPublishers) (hf : f < L.maxPublishers) {n m : Nat}
    (h : L.slotIndex e n = L.slotIndex f m) : e = f := by
  have hp := L.pool_pos
  have hd : ∀ {g} (_ : g < L.maxPublishers) (k : Nat), L.slotIndex g k / L.perPublisherPoolSize = g := by
    intro g hg k
    rw [L.slotIndex_eq hg, Nat.mul_comm, Nat.mul_add_div hp, Nat.div_eq_of_lt (Nat.mod_lt k hp)]
    rfl
  rw [← hd he n, h, hd hf m]

end Layout

/-- two publishers on a pool of four slots each, one subscriber that may hold one message -/
def exampleLayout : Layout := ⟨2, 1, 1, 2, by decide, by decide⟩

end RealTime
end Ipcpp
