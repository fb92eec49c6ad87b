import Ipcpp.Lib.Memory
import Ipcpp.Stl.FixedSizeStack

/-!
# The memory of the containers of fixed size

`create` is given a span and places the header at its start and the items behind it.  How much is asked of the
span and where the items are is computed apart: `required_memory_size` is `capacity * sizeof(Element) +
sizeof(Header)`, but the items start `sizeof(Header)` ELEMENTS behind the start of the span, not bytes
(`itemsStart`).  `FixedSizeStack::create` asks for the items alone.  `memory_iff` says which spans are
large enough all the same.

The sizes `hs = sizeof(Header)` and `es = sizeof(Element)` are parameters; sizes are computed in `2^64`.
-/

namespace Ipcpp
open Extents

/-- `std::span<uint8_t>` -/
structure MemorySpan where
  data : Nat
  size : Nat

/-- the address of the header, and the span of the items -/
structure ItemsView where
  header : Nat
  items : Nat
  count : Nat

/-- `reinterpret_cast<Element*>(data) + sizeof(Header)` -/
def itemsStart (hs es data : Nat) : Nat := data + hs * es

namespace FixedSizeQueue
variable {T : Type} (hs es : Nat)

/-- `required_memory_size` -/
def requiredMemorySize (capacity : Nat) : Nat := (capacity * es % 2^64 + hs) % 2^64

/-- `create(capacity, memory)`, on a span with these slots; the error is the number of bytes that are missing -/
def create (capacity : Nat) (memory : MemorySpan) (slots : Nat → Element T) :
    Except Nat (FixedSizeQueue T × ItemsView) :=
  if memory.size < requiredMemorySize hs es capacity then .error (requiredMemorySize hs es capacity - memory.size)
  else .ok (construct capacity slots, ⟨memory.data, itemsStart hs es memory.data, capacity⟩)

/-- `create(memory)`: a view onto the queue that is there -/
def createView (memory : MemorySpan) (q : FixedSizeQueue T) : ItemsView :=
  ⟨memory.data, itemsStart hs es memory.data, q.header.capacity⟩

end FixedSizeQueue

namespace FixedSizeStack
variable {T : Type} (hs es : Nat)

/-- `required_memory_size` -/
def requiredMemorySize (capacity : Nat) : Nat := (capacity * es % 2^64 + hs) % 2^64

/-- `create(capacity, full_policy, memory)`, on a span with these slots -/
def create (capacity : Nat) (memory : MemorySpan) (slots : Nat → Element T) :
    Except Int (FixedSizeStack T × ItemsView) :=
  if memory.size < capacity * es % 2^64 then .error (-1)
  else .ok (construct capacity slots, ⟨memory.data, itemsStart hs es memory.data, capacity⟩)

/-- `create(memory)`: a view onto the stack that is there -/
def createView (memory : MemorySpan) (s : FixedSizeStack T) : ItemsView :=
  ⟨memory.data, itemsStart hs es memory.data, s.header.capacity⟩

end FixedSizeStack

/-! ## what is meant to hold -/

/-- header and items lie in the span, apart from each other -/
structure Placed (hs es : Nat) (memory : MemorySpan) (v : ItemsView) : Prop where
  apart : Disjoint (extent v.header hs) (extent v.items (v.count * es))
  header_inside : extent v.header hs ⊆ extent memory.data memory.size
  items_inside : extent v.items (v.count * es) ⊆ extent memory.data memory.size

section
variable {T : Type} (hs es capacity : Nat) (memory : MemorySpan) (slots : Nat → Element T)

/-- a queue that is created lies in its span, a view finds its items, and the required size is enough -/
structure QueueFits : Prop where
  placed : ∀ q v, FixedSizeQueue.create hs es capacity memory slots = .ok (q, v) →
    Placed hs es memory v ∧ v.count = capacity ∧ FixedSizeQueue.createView hs es memory q = v
  accepted : ∀ data, ∃ r,
    FixedSizeQueue.create hs es capacity ⟨data, FixedSizeQueue.requiredMemorySize hs es capacity⟩ slots = .ok r

structure StackFits : Prop where
  placed : ∀ s v, FixedSizeStack.create hs es capacity memory slots = .ok (s, v) →
    Placed hs es memory v ∧ v.count = capacity ∧ FixedSizeStack.createView hs es memory s = v
  accepted : ∀ data, ∃ r,
    FixedSizeStack.create hs es capacity ⟨data, FixedSizeStack.requiredMemorySize hs es capacity⟩ slots = .ok r

end

/-- the span reaches to the end of the items, or there are none -/
def ReachesItems (hs es capacity size : Nat) : Prop := hs ≤ size ∧ (capacity = 0 ∨ (hs + capacity) * es ≤ size)

instance (hs es capacity size : Nat) : Decidable (ReachesItems hs es capacity size) :=
  inferInstanceAs (Decidable (_ ∧ _))

/-! ## which spans are large enough -/

variable {T : Type} {hs es capacity : Nat} {memory : MemorySpan} {slots : Nat → Element T}

theorem placed_iff (hhs : 0 < hs) (hes : 0 < es) :
    Placed hs es memory ⟨memory.data, itemsStart hs es memory.data, capacity⟩
      ↔ ReachesItems hs es capacity memory.size := by
  have hbehind : hs ≤ hs * es := Nat.le_mul_of_pos_right hs hes
  have hheader : extent memory.data hs ⊆ extent memory.data memory.size ↔ hs ≤ memory.size := by
    rw [extent_subset_iff hhs]
    omega
  have hitems : extent (itemsStart hs es memory.data) (capacity * es) ⊆ extent memory.data memory.size
      ↔ capacity = 0 ∨ (hs + capacity) * es ≤ memory.size := by
    rcases Nat.eq_zero_or_pos capacity with rfl | hc
    · rw [Nat.zero_mul, extent_zero]
      exact iff_of_true (Set.empty_subset _) (.inl rfl)
    · rw [extent_subset_iff (Nat.mul_pos hc hes), itemsStart, Nat.add_mul]
      omega
  constructor
  · exact fun h => ⟨hheader.mp h.header_inside, hitems.mp h.items_inside⟩
  · refine fun h => ⟨disjoint_of_le ?_, hheader.mpr h.1, hitems.mpr h.2⟩
    show memory.data + hs ≤ memory.data + hs * es
    omega

theorem queue_create_of_le {memory : MemorySpan}
    (h : FixedSizeQueue.requiredMemorySize hs es capacity ≤ memory.size) :
    FixedSizeQueue.create hs es capacity memory slots = .ok (FixedSizeQueue.construct capacity slots,
      ⟨memory.data, itemsStart hs es memory.data, capacity⟩) :=
  if_neg h.not_gt

theorem stack_create_of_le {memory : MemorySpan} (h : capacity * es % 2^64 ≤ memory.size) :
    FixedSizeStack.create hs es capacity memory slots = .ok (FixedSizeStack.construct capacity slots,
      ⟨memory.data, itemsStart hs es memory.data, capacity⟩) :=
  if_neg h.not_gt

theorem queueFits_iff (hhs : 0 < hs) (hes : 0 < es) :
    QueueFits hs es capacity memory slots
      ↔ (FixedSizeQueue.requiredMemorySize hs es capacity ≤ memory.size →
        ReachesItems hs es capacity memory.size) := by
  constructor
  · exact fun h hle => (placed_iff hhs hes).mp (h.placed _ _ (queue_create_of_le hle)).1
  · refine fun h => ⟨fun q v hq => ?_, fun data => ⟨_, queue_create_of_le (Nat.le_refl _)⟩⟩
    by_cases hle : FixedSizeQueue.requiredMemorySize hs es capacity ≤ memory.size
    · obtain ⟨rfl, rfl⟩ := Prod.mk.inj (Except.ok.inj ((queue_create_of_le hle).symm.trans hq))
      exact ⟨(placed_iff hhs hes).mpr (h hle), rfl, rfl⟩
    · rw [FixedSizeQueue.create, if_pos (Nat.lt_of_not_le hle)] at hq
      cases hq

theorem stack_required_iff (hhs : hs < 2^64) :
    capacity * es % 2^64 ≤ FixedSizeStack.requiredMemorySize hs es capacity ↔ capacity * es % 2^64 + hs < 2^64 := by
  unfold FixedSizeStack.requiredMemorySize
  omega

theorem stackFits_iff (hhs : 0 < hs) (hes : 0 < es) (hw : hs < 2^64) :
    StackFits hs es capacity memory slots
      ↔ (capacity * es % 2^64 ≤ memory.size → ReachesItems hs es capacity memory.size)
        ∧ capacity * es % 2^64 + hs < 2^64 := by
  rw [← stack_required_iff hw]
  constructor
  · refine fun h => ⟨fun hle => (placed_iff hhs hes).mp (h.placed _ _ (stack_create_of_le hle)).1, ?_⟩
    by_contra hlt
    obtain ⟨r, hr⟩ := h.accepted 0
    rw [FixedSizeStack.create, if_pos (Nat.lt_of_not_le hlt)] at hr
    cases hr
  · refine fun h => ⟨fun s v hs => ?_, fun data => ⟨_, stack_create_of_le h.2⟩⟩
    by_cases hle : capacity * es % 2^64 ≤ memory.size
    · obtain ⟨rfl, rfl⟩ := Prod.mk.inj (Except.ok.inj ((stack_create_of_le hle).symm.trans hs))
      exact ⟨(placed_iff hhs hes).mpr (h.1 hle), rfl, rfl⟩
    · rw [FixedSizeStack.create, if_pos (Nat.lt_of_not_le hle)] at hs
      cases hs

/-- **The containers fit exactly the spans that reach to the end of their items.** -/
theorem memory_iff (hs es capacity : Nat) (memory : MemorySpan) (slots : Nat → Element T) (hhs : 0 < hs)
    (hes : 0 < es) (hw : hs < 2^64) :
    (QueueFits hs es capacity memory slots
      ↔ (FixedSizeQueue.requiredMemorySize hs es capacity ≤ memory.size → ReachesItems hs es capacity memory.size))
    ∧ (StackFits hs es capacity memory slots
      ↔ (capacity * es % 2^64 ≤ memory.size → ReachesItems hs es capacity memory.size)
        ∧ capacity * es % 2^64 + hs < 2^64) :=
  ⟨queueFits_iff hhs hes, stackFits_iff hhs hes hw⟩

/-- four elements of 16 bytes behind a header of 64, in a span that is four times as large as is asked for -/
theorem memory_iff_four :
    (QueueFits 64 16 4 ⟨4096, 2048⟩ (fun _ => ⟨0, 0⟩)
      ↔ (FixedSizeQueue.requiredMemorySize 64 16 4 ≤ 2048 → ReachesItems 64 16 4 2048))
    ∧ (StackFits 64 16 4 ⟨4096, 2048⟩ (fun _ => ⟨0, 0⟩)
      ↔ (4 * 16 % 2^64 ≤ 2048 → ReachesItems 64 16 4 2048) ∧ 4 * 16 % 2^64 + 64 < 2^64) :=
  memory_iff 64 16 4 ⟨4096, 2048⟩ _ (by decide) (by decide) (by decide)

/-- the span of 128 bytes that is asked for: the items start at byte 1024 -/
theorem items_behind_span : ¬ QueueFits 64 16 4 ⟨4096, 128⟩ (fun _ => (⟨0, 0⟩ : Element Nat)) := by
  intro h
  have hplaced := (h.placed _ _ rfl).1
  have hfirst : (5120 : Nat) ∈ extent 4096 128 := hplaced.items_inside ⟨by decide, by decide⟩
  exact absurd hfirst.2 (by decide)

end Ipcpp
