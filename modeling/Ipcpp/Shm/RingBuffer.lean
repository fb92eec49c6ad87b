import Ipcpp.Lib.Memory
import Ipcpp.Stl.Allocator

/-!
# The ring buffer in shared memory (`shm::ring_buffer`)

A header and, behind it, elements of `sz` bytes each.  The constructor makes the span of the elements from the
bytes it is given less those of the header; `size()`, by which every access is reduced and which an attached
buffer takes for its span, is `end - start` of the header, in bytes, over the size of an element.  `start` is
the size of the header and `end` is meant to be an offset too, but is written without the header: the header is
taken off twice.  So `size()` is never what the buffer was made for (`not_holdsItsSize`): it is smaller
(`size_lt`), or, if the elements have fewer bytes than the header, it wraps.
-/

namespace Ipcpp
namespace RingBuffer
open Extents Stl

/-- `sizeof(_s_header)` -/
def headerBytes : Nat := 24

/-- `_s_header`; the offsets are words of 64 bits -/
structure Header where
  start : Nat
  end_ : Nat
  nextIndex : Nat

/-- what lies in the memory; `items i` is the element at `sizeof(_s_header)`, aligned, `+ i * sizeof(T)` -/
structure Memory (T : Type) where
  header : Header
  items : Nat → T

/-- `ring_buffer`: the address of the header and the span of the elements -/
structure View where
  header : Nat
  data : Nat
  count : Nat
deriving DecidableEq

section
variable {T : Type} (sz : Nat)

/-- `required_bytes_for(num_elements)` -/
def requiredBytesFor (numElements : Nat) : Nat := (alignUp headerBytes + numElements * sz % 2^64) % 2^64

/-- `size - header_size` -/
def withoutHeader (size : Nat) : Nat := (size + (2^64 - alignUp headerBytes)) % 2^64

/-- `ring_buffer(start, size)`, on memory with these elements; `new` is what the default constructor makes -/
def construct (new : T) (start size : Nat) (items : Nat → T) : Memory T × View :=
  let count := withoutHeader size / sz
  (⟨⟨alignUp headerBytes, withoutHeader size, 0⟩, fun i => if i < count then new else items i⟩,
    ⟨start, start + alignUp headerBytes, count⟩)

variable (m : Memory T)

/-- `_m_num_bytes` -/
def numBytes : Nat := (m.header.end_ + (2^64 - m.header.start)) % 2^64

/-- `size` -/
def size : Nat := numBytes m / sz

/-- `ring_buffer(start)` -/
def attach (start : Nat) : View := ⟨start, start + alignUp headerBytes, size sz m⟩

/-- the slot that `operator[]` refers to; a remainder by zero is undefined -/
def slot (idx : Nat) : Option Nat := if size sz m = 0 then none else some (idx % size sz m)

/-- the slot that `emplace` writes to -/
def nextSlot : Nat := if size sz m ≤ m.header.nextIndex then 0 else m.header.nextIndex

/-- `emplace`, which returns the slot -/
def emplace (v : T) : Memory T × Nat :=
  (⟨{ m.header with nextIndex := (nextSlot sz m + 1) % 2^64 }, Function.update m.items (nextSlot sz m) v⟩,
    nextSlot sz m)

/-- `emplace_at`; `v` is what the index and the arguments construct -/
def emplaceAt (idx : Nat) (v : T) : Option (Memory T × Nat) :=
  (slot sz m idx).map fun i => (⟨m.header, Function.update m.items i v⟩, i)

/-- `get_index`, of the element at this address -/
def View.getIndex (view : View) (p : Nat) : Nat := (p - view.data) / sz

/-- the slots that successive calls of `emplace` write -/
def emplaceSlots : Memory T → List T → List Nat
  | _, [] => []
  | m, v :: vs => (emplace sz m v).2 :: emplaceSlots (emplace sz m v).1 vs

end

/-- a buffer on the bytes that `n` elements require holds `n` elements -/
structure HoldsItsSize {T : Type} (sz : Nat) (new : T) (start n : Nat) (items : Nat → T) : Prop where
  size_eq : size sz (construct sz new start (requiredBytesFor sz n) items).1 = n
  attached : attach sz (construct sz new start (requiredBytesFor sz n) items).1 start
    = (construct sz new start (requiredBytesFor sz n) items).2
  selects : ∀ idx, slot sz (construct sz new start (requiredBytesFor sz n) items).1 idx = some (idx % n)
    ∧ extent ((construct sz new start (requiredBytesFor sz n) items).2.data + idx % n * sz) sz
      ⊆ extent start (requiredBytesFor sz n)
  emplaced : ∀ vs : List T, vs.length = n →
    (emplaceSlots sz (construct sz new start (requiredBytesFor sz n) items).1 vs).Nodup

section
variable {T : Type} {sz n start : Nat} {new : T} {items : Nat → T} {m : Memory T}

/-! ## the size -/

theorem alignUp_header : alignUp headerBytes = 32 := rfl

theorem withoutHeader_required (sz n : Nat) : withoutHeader (requiredBytesFor sz n) = n * sz % 2^64 := by
  rw [withoutHeader, requiredBytesFor, alignUp_header]
  omega

theorem size_construct (sz n start : Nat) (new : T) (items : Nat → T) :
    size sz (construct sz new start (requiredBytesFor sz n) items).1 = withoutHeader (n * sz % 2^64) / sz := by
  rw [← withoutHeader_required]
  rfl

/-- elements that have as many bytes as the header: some are lost -/
theorem size_lt (hsz : 0 < sz) (hhead : 32 ≤ n * sz) (hw : n * sz < 2^64) :
    size sz (construct sz new start (requiredBytesFor sz n) items).1 < n := by
  have hbytes : withoutHeader (n * sz % 2^64) = n * sz - 32 := by
    rw [withoutHeader, alignUp_header]
    omega
  rw [size_construct, hbytes]
  exact (Nat.div_lt_iff_lt_mul hsz).mpr (by omega)

theorem lt_size (hsz : 0 < sz) (hn : 0 < n) (hhead : n * sz < 32) :
    n < size sz (construct sz new start (requiredBytesFor sz n) items).1 := by
  have hone : sz ≤ n * sz := Nat.le_mul_of_pos_left sz hn
  have hbytes : withoutHeader (n * sz % 2^64) = 2^64 + n * sz - 32 := by
    rw [withoutHeader, alignUp_header]
    omega
  rw [size_construct, hbytes, ← Nat.succ_le_iff, Nat.le_div_iff_mul_le hsz, Nat.succ_mul]
  omega

theorem size_ne_of_overflow (hsz : 0 < sz) (hw : 2^64 ≤ n * sz) :
    size sz (construct sz new start (requiredBytesFor sz n) items).1 ≠ n := by
  have hlt : withoutHeader (n * sz % 2^64) < n * sz := (Nat.mod_lt _ (by decide)).trans_le hw
  rw [size_construct]
  exact ((Nat.div_lt_iff_lt_mul hsz).mpr hlt).ne

theorem size_ne (hsz : 0 < sz) (hn : 0 < n) :
    size sz (construct sz new start (requiredBytesFor sz n) items).1 ≠ n := by
  rcases Nat.lt_or_ge (n * sz) (2^64) with hw | hw
  · rcases Nat.lt_or_ge (n * sz) 32 with hhead | hhead
    · exact (lt_size hsz hn hhead).ne'
    · exact (size_lt hsz hhead hw).ne
  · exact size_ne_of_overflow hsz hw

/-- **A ring buffer never holds what it was sized for.** -/
theorem not_holdsItsSize (sz n start : Nat) (new : T) (items : Nat → T) (hsz : 0 < sz) (hn : 0 < n) :
    ¬ HoldsItsSize sz new start n items := fun h => size_ne hsz hn h.size_eq

/-- ten elements of 16 bytes -/
theorem not_holdsItsSize_ten : ¬ HoldsItsSize 16 0 4096 10 (fun _ => 0) :=
  not_holdsItsSize 16 10 4096 0 _ (by decide) (by decide)

/-- four elements of 8 bytes: the size is zero, and no index selects a slot -/
theorem four_elements_lost : ¬ HoldsItsSize 8 0 4096 4 (fun _ => 0) := by
  intro h
  have hnone : slot 8 (construct 8 0 4096 (requiredBytesFor 8 4) fun _ => 0).1 0 = none := by decide
  rw [(h.selects 0).1] at hnone
  cases hnone

/-! ## the slots that are written -/

theorem size_lt_word (sz : Nat) (m : Memory T) : size sz m < 2^64 :=
  (Nat.div_le_self _ _).trans_lt (Nat.mod_lt _ (by decide))

theorem size_emplace (sz : Nat) (m : Memory T) (v : T) : size sz (emplace sz m v).1 = size sz m := rfl

theorem emplaceAt_items {idx i : Nat} {v : T} {m' : Memory T} (h : emplaceAt sz m idx v = some (m', i)) :
    slot sz m' idx = some i ∧ m'.items = Function.update m.items i v := by
  obtain ⟨i', hslot, heq⟩ := Option.map_eq_some_iff.mp h
  obtain ⟨rfl, rfl⟩ := Prod.mk.inj heq
  exact ⟨hslot, rfl⟩

theorem nextSlot_emplace {k : Nat} (hpos : 0 < size sz m) (hk : nextSlot sz m = k % size sz m) (v : T) :
    nextSlot sz (emplace sz m v).1 = (k + 1) % size sz m := by
  have hlt := Nat.mod_lt k hpos
  have hword := size_lt_word sz m
  have hindex : (emplace sz m v).1.header.nextIndex = k % size sz m + 1 := by
    show (nextSlot sz m + 1) % 2^64 = _
    rw [hk, Nat.mod_eq_of_lt (by omega)]
  rw [nextSlot, hindex, size_emplace, ← Nat.mod_add_mod]
  by_cases hend : size sz m ≤ k % size sz m + 1
  · rw [if_pos hend, show k % size sz m + 1 = size sz m by omega, Nat.mod_self]
  · rw [if_neg hend, Nat.mod_eq_of_lt (Nat.lt_of_not_le hend)]

theorem emplaceSlots_eq {k : Nat} (hpos : 0 < size sz m) (hk : nextSlot sz m = k % size sz m) (vs : List T) :
    emplaceSlots sz m vs = (List.range' k vs.length).map (· % size sz m) := by
  induction vs generalizing m k with
  | nil => rfl
  | cons v vs ih =>
    rw [emplaceSlots, ih (m := (emplace sz m v).1) hpos (nextSlot_emplace hpos hk v), size_emplace,
      List.length_cons, List.range'_succ, List.map_cons]
    exact congrArg (· :: _) hk

/-- successive calls of `emplace` write distinct slots as long as there are no more of them than the ring has -/
theorem emplaceSlots_nodup_iff (hpos : 0 < size sz m) (hstart : m.header.nextIndex = 0) (vs : List T) :
    (emplaceSlots sz m vs).Nodup ↔ vs.length ≤ size sz m := by
  have hzero : nextSlot sz m = 0 % size sz m := by
    rw [nextSlot, hstart, Nat.zero_mod, ite_self]
  rw [emplaceSlots_eq hpos hzero, ← List.range_eq_range']
  constructor
  · intro h
    by_contra hlt
    -- slot `0` is written first, and again after a round
    have hinj := List.inj_on_of_nodup_map h (List.mem_range.mpr (show 0 < vs.length by omega))
      (List.mem_range.mpr (Nat.lt_of_not_le hlt))
    rw [Nat.zero_mod, Nat.mod_self] at hinj
    exact hpos.ne (hinj rfl)
  · intro h
    refine List.Nodup.map_on (fun i hi j hj he => ?_) List.nodup_range
    rwa [Nat.mod_eq_of_lt ((List.mem_range.mp hi).trans_le h),
      Nat.mod_eq_of_lt ((List.mem_range.mp hj).trans_le h)] at he

theorem not_nodup_of_lost (hsz : 0 < sz) (hhead : 32 ≤ n * sz) (hw : n * sz < 2^64)
    (hpos : 0 < size sz (construct sz new start (requiredBytesFor sz n) items).1) (vs : List T)
    (hvs : vs.length = n) :
    ¬ (emplaceSlots sz (construct sz new start (requiredBytesFor sz n) items).1 vs).Nodup := by
  rw [emplaceSlots_nodup_iff hpos rfl, hvs]
  exact (size_lt hsz hhead hw).not_ge

end

end RingBuffer

/-! ## the memory of a notification buffer -/

namespace NotificationMemory
variable {T : Type}

/-- `shm_notification_memory_layout::required_bytes_for`, for a header of `hs` bytes -/
def requiredBytesFor (hs sz queueSize : Nat) : Nat :=
  (Stl.alignUp hs + RingBuffer.requiredBytesFor sz queueSize) % 2^64

/-- the ring buffer that the constructor makes behind the header -/
def construct (hs sz : Nat) (new : T) (addr size : Nat) (items : Nat → T) :
    RingBuffer.Memory T × RingBuffer.View :=
  RingBuffer.construct sz new (addr + Stl.alignUp hs) ((size + (2^64 - Stl.alignUp hs)) % 2^64) items

theorem construct_required (hs sz queueSize addr : Nat) (new : T) (items : Nat → T) :
    construct hs sz new addr (requiredBytesFor hs sz queueSize) items
      = RingBuffer.construct sz new (addr + Stl.alignUp hs) (RingBuffer.requiredBytesFor sz queueSize) items := by
  have hle : Stl.alignUp hs < 2^64 := Nat.and_lt_two_pow _ (by decide)
  have hreq : RingBuffer.requiredBytesFor sz queueSize < 2^64 := Nat.mod_lt _ (by decide)
  have hbytes : (requiredBytesFor hs sz queueSize + (2^64 - Stl.alignUp hs)) % 2^64
      = RingBuffer.requiredBytesFor sz queueSize := by
    rw [requiredBytesFor]
    omega
  rw [construct, hbytes]

theorem size_ne (hs sz queueSize addr : Nat) (new : T) (items : Nat → T) (hsz : 0 < sz) (hq : 0 < queueSize) :
    RingBuffer.size sz (construct hs sz new addr (requiredBytesFor hs sz queueSize) items).1 ≠ queueSize := by
  rw [construct_required]
  exact RingBuffer.size_ne hsz hq

end NotificationMemory
end Ipcpp
