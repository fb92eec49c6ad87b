import Ipcpp.Numeric
import Ipcpp.Fifo.Queue

/-!
# The memory of the FIFO queue (`shm_message_queue`)

A header and, behind it, the messages, of `sz = sizeof(T)` bytes each.  `Publisher::create` asks for the
bytes of `queue_capacity` messages, rounded up to a power of two; `init_at` divides the bytes it is given
by the size of a message and rounds down to a power of two.  Between the two roundings messages can be lost:
`capacity_iff` says for which mappings they are not.

The queue has a power of two of messages, so the mask of `operator[]` is a remainder (`masked_index`).
-/

namespace Ipcpp
namespace Fifo
namespace MessageQueue

/-- `sizeof(shm_message_queue::Header)` -/
def headerSize : Nat := 256

/-- `shm_message_queue::Header` -/
structure Header where
  numSubscribers : Nat := 0
  next : Nat := 0
  last : Nat := 0
  queueSize : Nat := 0
  historySize : Nat := 0

/-- what lies in a mapping; `items i` is the object at `sizeof(Header) + i * sizeof(T)` -/
structure Mapping (α : Type) where
  header : Header
  items : Nat → α

/-- `shm_message_queue`: the address of the header and the span of the messages -/
structure View where
  header : Nat
  queueItems : Nat
  size : Nat

/-- `std::error_code(1, std::system_category())` -/
def notPermitted : Nat := 1

section
variable {α : Type} (sz : Nat)

/-- `required_size_bytes` -/
def requiredSizeBytes (queueSize : Nat) : Nat := (headerSize + sz * queueSize % 2^64) % 2^64

/-- the bytes that `Publisher::create` asks for -/
def createSizeBytes (queueCapacity : Nat) : Nat :=
  Numeric.ceilToPowerOfTwo 64 (requiredSizeBytes sz queueCapacity)

/-- the loop of `init_at`, which constructs the messages `i, …, i + n - 1` -/
def constructItems (new : α) (items : Nat → α) : Nat → Nat → Nat → α
  | _, 0 => items
  | i, n + 1 => constructItems new (Function.update items i new) (i + 1) n

/-- `init_at(addr, size_bytes, args…)`; `new` is what the arguments construct -/
def initAt (new : α) (addr sizeBytes : Nat) (m : Mapping α) : Except Nat (Mapping α × View) :=
  if sizeBytes < headerSize + sz then .error notPermitted
  else
    let queueSize := Numeric.floorToPowerOfTwo 64 ((sizeBytes - headerSize) / sz)
    .ok (⟨{ queueSize := queueSize }, constructItems new m.items 0 queueSize⟩,
      ⟨addr, addr + headerSize, queueSize⟩)

/-- `read_at(addr)` -/
def readAt (addr : Nat) (m : Mapping α) : Except Nat View :=
  if m.header.queueSize = 0 then .error notPermitted
  else .ok ⟨addr, addr + headerSize, m.header.queueSize⟩

/-- the index that `operator[]` computes -/
def View.index (q : View) (messageId : Nat) : Nat := messageId &&& ((q.size + (2^64 - 1)) % 2^64)

/-- the address of message `i` of the span -/
def View.itemAddr (q : View) (i : Nat) : Nat := q.queueItems + i * sz

/-- the address of what `operator[]` refers to -/
def View.select (q : View) (messageId : Nat) : Nat := q.itemAddr sz (q.index messageId)

end

/-! ## what `init_at` returns -/

section
variable {α : Type} {sz : Nat} {new : α} {addr sizeBytes : Nat} {m m' : Mapping α} {q : View}

theorem initAt_ok (h : initAt sz new addr sizeBytes m = .ok (m', q)) :
    headerSize + sz ≤ sizeBytes ∧
      q = ⟨addr, addr + headerSize, Numeric.floorToPowerOfTwo 64 ((sizeBytes - headerSize) / sz)⟩ ∧
      m'.header.queueSize = q.size := by
  unfold initAt at h
  split at h
  · cases h
  · rename_i hroom
    obtain ⟨rfl, rfl⟩ := Prod.mk.inj (Except.ok.inj h)
    exact ⟨Nat.le_of_not_lt hroom, rfl, rfl⟩

theorem messages_pos (hsz : 0 < sz) (hroom : headerSize + sz ≤ sizeBytes) : 0 < (sizeBytes - headerSize) / sz :=
  Nat.div_pos (by omega) hsz

theorem messages_lt (hsize : sizeBytes < 2^64) : (sizeBytes - headerSize) / sz < 2^64 := by
  have := Nat.div_le_self (sizeBytes - headerSize) sz
  omega

theorem initAt_size (hsz : 0 < sz) (hsize : sizeBytes < 2^64)
    (h : initAt sz new addr sizeBytes m = .ok (m', q)) : ∃ k < 64, q.size = 2^k := by
  obtain ⟨hroom, rfl, -⟩ := initAt_ok h
  have hpos := messages_pos hsz hroom
  have hlt : (sizeBytes - headerSize) / sz < 2^64 := messages_lt hsize
  exact ⟨_, (Nat.log2_lt hpos.ne').mpr hlt, Numeric.floorToPowerOfTwo_eq hpos hlt⟩

theorem initAt_inside (hsz : 0 < sz) (hsize : sizeBytes < 2^64)
    (h : initAt sz new addr sizeBytes m = .ok (m', q)) {i : Nat} (hi : i < q.size) :
    addr + headerSize ≤ q.itemAddr sz i ∧ q.itemAddr sz i + sz ≤ addr + sizeBytes := by
  obtain ⟨hroom, rfl, -⟩ := initAt_ok h
  refine ⟨Nat.le_add_right _ _, ?_⟩
  have hpos := messages_pos hsz hroom
  have hi' : i + 1 ≤ (sizeBytes - headerSize) / sz := by
    refine le_trans hi ?_
    show Numeric.floorToPowerOfTwo 64 _ ≤ _
    rw [Numeric.floorToPowerOfTwo_eq hpos (messages_lt hsize)]
    exact Nat.log2_self_le hpos.ne'
  have hbytes : (i + 1) * sz ≤ sizeBytes - headerSize :=
    (Nat.mul_le_mul_right sz hi').trans (Nat.div_mul_le_self _ _)
  show addr + headerSize + i * sz + sz ≤ addr + sizeBytes
  rw [Nat.add_mul, Nat.one_mul] at hbytes
  omega

/-! ## capacity -/

/-- the queue in a mapping of `sizeBytes` bytes: it has at least `c` messages, a power of two of them, and
they lie in the mapping, behind the header -/
def HasCapacity (sz c sizeBytes : Nat) : Prop :=
  ∀ {α : Type} (new : α) (addr : Nat) (m : Mapping α), ∃ m' q,
    initAt sz new addr sizeBytes m = .ok (m', q) ∧ c ≤ q.size ∧ (∃ k, q.size = 2^k) ∧
    ∀ i < q.size, addr + headerSize ≤ q.itemAddr sz i ∧ q.itemAddr sz i + sz ≤ addr + sizeBytes

/-- **A queue has the capacity it was asked for exactly if the mapping has room for the next power of two of
messages.** -/
theorem capacity_iff {sz c sizeBytes : Nat} (hsz : 0 < sz) (hsize : sizeBytes < 2^64) :
    HasCapacity sz c sizeBytes ↔ headerSize + sz * 2^Nat.clog 2 c ≤ sizeBytes := by
  have hle : c ≤ 2^Nat.clog 2 c := Nat.le_pow_clog Nat.one_lt_two c
  have hfits : 2^Nat.clog 2 c ≤ (sizeBytes - headerSize) / sz ↔
      sz * 2^Nat.clog 2 c ≤ sizeBytes - headerSize := by
    rw [Nat.le_div_iff_mul_le hsz, Nat.mul_comm]
  constructor
  · intro h
    obtain ⟨m', q, hq, hcap, ⟨k, hk⟩, -⟩ := h (0 : Nat) 0 ⟨{}, fun _ => 0⟩
    obtain ⟨hroom, rfl, -⟩ := initAt_ok hq
    have hpow : 2^Nat.clog 2 c ≤ 2^k :=
      Nat.pow_le_pow_right Nat.two_pos (Nat.clog_le_of_le_pow (hk ▸ hcap))
    rw [← hk] at hpow
    rw [Numeric.two_pow_le_floorToPowerOfTwo_iff (messages_pos hsz hroom) (messages_lt hsize), hfits] at hpow
    omega
  · intro h α new addr m
    have hone : sz ≤ sz * 2^Nat.clog 2 c := Nat.le_mul_of_pos_right sz (Nat.two_pow_pos _)
    have hroom : headerSize + sz ≤ sizeBytes := by omega
    have hq : initAt sz new addr sizeBytes m = .ok _ := if_neg (Nat.not_lt.mpr hroom)
    obtain ⟨k, -, hk⟩ := initAt_size hsz hsize hq
    refine ⟨_, _, hq, hle.trans ?_, ⟨k, hk⟩, fun i hi => initAt_inside hsz hsize hq hi⟩
    refine (Numeric.two_pow_le_floorToPowerOfTwo_iff (messages_pos hsz hroom) (messages_lt hsize)).mpr ?_
    exact hfits.mpr (by omega)

/-- three messages of 1280 bytes, in the 4096 bytes that the publisher asks for and the system maps -/
theorem capacity_lost : createSizeBytes 1280 3 = 4096 ∧ ¬ HasCapacity 1280 3 4096 := by
  refine ⟨by decide +kernel, fun h => ?_⟩
  obtain ⟨m', q, hq, hcap, -⟩ := h (0 : Nat) 0 ⟨{}, fun _ => 0⟩
  obtain ⟨-, rfl, -⟩ := initAt_ok hq
  exact absurd hcap (by decide +kernel)

/-- three messages of 64 bytes have room for a fourth one in the 512 bytes that the publisher asks for -/
theorem capacity_example : createSizeBytes 64 3 = 512 ∧ HasCapacity 64 3 512 := by
  refine ⟨by decide +kernel, (capacity_iff (by decide) (by decide)).mpr ?_⟩
  have hclog : Nat.clog 2 3 = 2 := by decide +kernel
  rw [hclog]
  decide

/-! ## indices -/

theorem View.index_eq_mod {k : Nat} (hk : k < 64) (hq : q.size = 2^k) (messageId : Nat) :
    q.index messageId = messageId % q.size := by
  have hpos := Nat.two_pow_pos k
  have hlt : 2^k < 2^64 := Nat.pow_lt_pow_right Nat.one_lt_two hk
  have hwrap : (2^k + (2^64 - 1)) % 2^64 = 2^k - 1 := by
    rw [show 2^k + (2^64 - 1) = 2^k - 1 + 2^64 by omega, Nat.add_mod_right, Nat.mod_eq_of_lt (by omega)]
  rw [View.index, hq, hwrap, Nat.and_two_pow_sub_one_eq_mod]

theorem View.index_eq_slot {k : Nat} (hk : k < 64) (hq : q.size = 2^k) (messageId : Nat) :
    q.index messageId = slot q.size messageId := by
  rw [View.index_eq_mod hk hq, slot, hq, Nat.and_two_pow_sub_one_eq_mod]

theorem View.index_inj {k : Nat} (hk : k < 64) (hq : q.size = 2^k) {messageId i j : Nat} (hi : i < q.size)
    (hj : j < q.size) (h : q.index ((messageId + i) % 2^64) = q.index ((messageId + j) % 2^64)) : i = j := by
  have hdvd : q.size ∣ 2^64 := hq ▸ Nat.pow_dvd_pow 2 hk.le
  rw [View.index_eq_mod hk hq, View.index_eq_mod hk hq, Nat.mod_mod_of_dvd _ hdvd, Nat.mod_mod_of_dvd _ hdvd] at h
  have hij : i % q.size = j % q.size := Nat.ModEq.add_left_cancel' messageId h
  rwa [Nat.mod_eq_of_lt hi, Nat.mod_eq_of_lt hj] at hij

/-- **The mask is a remainder.**  The queue that `init_at` returns, and every queue that `read_at` returns
while `queue_size` is what `init_at` stored, select for each id the message with the index `id mod size()`;
the indices of `size()` ids in a row are different. -/
theorem masked_index {mem : Mapping α} (addr' : Nat) (hsz : 0 < sz) (hsize : sizeBytes < 2^64)
    (h : initAt sz new addr sizeBytes m = .ok (m', q))
    (hmem : mem.header.queueSize = m'.header.queueSize) :
    ∃ q', readAt addr' mem = .ok q' ∧ q'.size = q.size ∧
      (∀ messageId, q.index messageId = messageId % q.size ∧ q'.index messageId = messageId % q.size ∧
        messageId % q.size < q.size ∧
        q.select sz messageId = addr + (headerSize + messageId % q.size * sz) ∧
        q'.select sz messageId = addr' + (headerSize + messageId % q.size * sz)) ∧
      ∀ messageId, ∀ i < q.size, ∀ j < q.size,
        q.index ((messageId + i) % 2^64) = q.index ((messageId + j) % 2^64) → i = j := by
  obtain ⟨-, hq, hstored⟩ := initAt_ok h
  obtain ⟨k, hk, hpow⟩ := initAt_size hsz hsize h
  have hpos : 0 < q.size := hpow ▸ Nat.two_pow_pos k
  have hread : mem.header.queueSize = q.size := hmem.trans hstored
  have hitems : q.queueItems = addr + headerSize := congrArg View.queueItems hq
  refine ⟨⟨addr', addr' + headerSize, q.size⟩, ?_, rfl, fun messageId => ?_,
    fun messageId i hi j hj hij => View.index_inj hk hpow hi hj hij⟩
  · rw [readAt, if_neg (hread ▸ hpos.ne'), hread]
  · have hindex := View.index_eq_mod hk hpow messageId
    have hindex' := View.index_eq_mod (q := ⟨addr', addr' + headerSize, q.size⟩) hk hpow messageId
    refine ⟨hindex, hindex', Nat.mod_lt _ hpos, ?_, ?_⟩
    · rw [View.select, View.itemAddr, hindex, hitems, Nat.add_assoc]
    · rw [View.select, View.itemAddr, hindex', Nat.add_assoc]

/-- a queue of 4096 bytes with messages of 64 bytes: the ids around the wrap of the counter -/
theorem masked_index_example : ∃ m' q q', initAt 64 (0 : Nat) 4096 4096 ⟨{}, fun _ => 7⟩ = .ok (m', q) ∧
    readAt 8192 m' = .ok q' ∧ q.index (2^64 - 1) = 31 ∧ q'.index 0 = 0 := by
  have h : initAt 64 (0 : Nat) 4096 4096 ⟨{}, fun _ => 7⟩ = .ok _ := rfl
  obtain ⟨q', hread, hsize, hindex, -⟩ := masked_index 8192 (by decide) (by decide) h rfl
  refine ⟨_, _, q', h, hread, ?_, ?_⟩
  · exact (hindex (2^64 - 1)).1.trans (by decide +kernel)
  · exact (hindex 0).2.1.trans (Nat.zero_mod _)

end

end MessageQueue
end Fifo
end Ipcpp
