import Ipcpp.Numeric
import Ipcpp.Lib.Memory

/-!
# The memory of the chunk allocator (`shm::ChunkAllocator`)

A header, the stack of indices and the chunks, of `sz` bytes each.  `required_memory_size(n)` rounds stack and
chunks up together; the constructor divides what it is given by the size of an index and a chunk, and rounds
the stack up alone, before the chunks.  What the second rounding takes is not counted by the first:
`fits_iff` says for which `n` and `sz` the last chunk ends in the memory all the same.
-/

namespace Ipcpp
namespace ChunkAllocator
open Extents

/-- `align_up(size)` with its default alignment, in 64 bits -/
def alignUp (size : Nat) : Nat := ((size + 16 - 1) % 2^64) &&& (2^64 - 1 - (16 - 1))

/-- `sizeof(StackHeader)` -/
def stackHeaderSize : Nat := 64

/-- `sizeof(std::size_t)` -/
def indexSize : Nat := 8

structure Layout where
  stackHeader : Nat
  stackSlots : Nat
  chunksStart : Nat
  capacity : Nat
deriving DecidableEq

section
variable (sz : Nat)

/-- `required_memory_size(num_chunks)` -/
def requiredMemorySize (numChunks : Nat) : Nat :=
  (alignUp stackHeaderSize + alignUp ((numChunks * indexSize % 2^64 + numChunks * sz % 2^64) % 2^64)) % 2^64

/-- the number of chunks that the constructor finds room for; `size - sizeof(StackHeader)` wraps -/
def numChunks (size : Nat) : Nat := (size + (2^64 - stackHeaderSize)) % 2^64 / ((indexSize + sz) % 2^64)

/-- the address-only constructor, where the header says `capacity` -/
def attach (addr capacity : Nat) : Layout where
  stackHeader := addr
  stackSlots := addr + alignUp stackHeaderSize
  chunksStart := addr + alignUp stackHeaderSize + alignUp (capacity * indexSize % 2^64)
  capacity := capacity

/-- `ChunkAllocator(addr, size, args…)`; the header gets the number of chunks as its capacity -/
def construct (addr size : Nat) : Layout where
  stackHeader := addr
  stackSlots := addr + alignUp stackHeaderSize
  chunksStart := addr + alignUp stackHeaderSize + alignUp (numChunks sz size * indexSize % 2^64)
  capacity := numChunks sz size

/-- header, stack and chunks are apart and end in the memory -/
structure Placed (addr size : Nat) (l : Layout) : Prop where
  header_stack : Disjoint (extent l.stackHeader stackHeaderSize) (extent l.stackSlots (l.capacity * indexSize))
  header_chunks : Disjoint (extent l.stackHeader stackHeaderSize) (extent l.chunksStart (l.capacity * sz))
  stack_chunks : Disjoint (extent l.stackSlots (l.capacity * indexSize)) (extent l.chunksStart (l.capacity * sz))
  header_inside : extent l.stackHeader stackHeaderSize ⊆ extent addr size
  stack_inside : extent l.stackSlots (l.capacity * indexSize) ⊆ extent addr size
  chunks_inside : extent l.chunksStart (l.capacity * sz) ⊆ extent addr size

/-- an allocator on the memory that `n` chunks require -/
structure Fits (addr n : Nat) : Prop where
  enough : n ≤ (construct sz addr (requiredMemorySize sz n)).capacity
  placed : Placed sz addr (requiredMemorySize sz n) (construct sz addr (requiredMemorySize sz n))
  attached : attach addr (construct sz addr (requiredMemorySize sz n)).capacity
    = construct sz addr (requiredMemorySize sz n)

/-- the bytes that `n` indices and chunks are short of a multiple of 16 -/
def gap (n : Nat) : Nat := (16 - n * (indexSize + sz) % 16) % 16

/-- nothing overflows, and the stack either ends at a multiple of 16 or the gap has room for what it is short -/
def RoundsWell (n : Nat) : Prop :=
  stackHeaderSize + (n * (indexSize + sz) + gap sz n) < 2^64
    ∧ ((n + gap sz n / (indexSize + sz)) % 2 = 0 ∨ 8 ≤ gap sz n % (indexSize + sz))

instance (n : Nat) : Decidable (RoundsWell sz n) := inferInstanceAs (Decidable (_ ∧ _))

end

variable {sz addr n : Nat}

theorem alignUp_eq (x : Nat) : alignUp x = (x + 15) % 2^64 / 16 * 16 :=
  Numeric.and_mask (k := 4) (by decide) (Nat.mod_lt _ (by decide))

theorem alignUp_header : alignUp stackHeaderSize = 64 := rfl

theorem attach_construct (sz addr size : Nat) :
    attach addr (construct sz addr size).capacity = construct sz addr size :=
  rfl

theorem placed_iff {size k : Nat} (hsz : 0 < sz) (hk : 0 < k) (hover : k * indexSize + 15 < 2^64) :
    Placed sz addr size (attach addr k) ↔ 64 + alignUp (k * indexSize) + k * sz ≤ size := by
  have hmod : k * indexSize % 2^64 = k * indexSize := Nat.mod_eq_of_lt (by omega)
  have hup := alignUp_eq (k * indexSize)
  have hle : k * indexSize ≤ alignUp (k * indexSize) := by
    rw [hup, Nat.mod_eq_of_lt hover]
    omega
  have hpos : 0 < k * sz := Nat.mul_pos hk hsz
  have hstart : (attach addr k).chunksStart = addr + 64 + alignUp (k * indexSize) := by
    rw [attach, hmod, alignUp_header]
  have hslots : (attach addr k).stackSlots = addr + 64 := rfl
  have hheader : (attach addr k).stackHeader = addr := rfl
  have hcap : (attach addr k).capacity = k := rfl
  constructor
  · intro h
    have hin := h.chunks_inside
    rw [hstart, hcap, extent_subset_iff hpos] at hin
    omega
  · intro h
    refine ⟨disjoint_of_le ?_, disjoint_of_le ?_, disjoint_of_le ?_, extent_subset ?_ ?_, extent_subset ?_ ?_,
      extent_subset ?_ ?_⟩ <;> simp only [hstart, hslots, hheader, hcap, stackHeaderSize] <;> omega

/-! ## the two roundings -/

theorem requiredMemorySize_eq (sz n : Nat) :
    requiredMemorySize sz n = (64 + alignUp (n * (indexSize + sz) % 2^64)) % 2^64 := by
  rw [requiredMemorySize, ← Nat.add_mod, ← Nat.mul_add, alignUp_header]

theorem alignUp_eq_add_gap (hover : n * (indexSize + sz) + 15 < 2^64) :
    alignUp (n * (indexSize + sz) % 2^64) = n * (indexSize + sz) + gap sz n := by
  rw [alignUp_eq, gap]
  omega

theorem alignUp_indices {k : Nat} (hover : k * indexSize + 15 < 2^64) :
    alignUp (k * indexSize) = k * indexSize + k % 2 * 8 := by
  rw [alignUp_eq, Nat.mod_eq_of_lt hover, indexSize]
  omega

theorem numChunks_eq (hw : indexSize + sz < 2^64) (hpos : 0 < indexSize + sz)
    (hover : stackHeaderSize + (n * (indexSize + sz) + gap sz n) < 2^64) :
    requiredMemorySize sz n = stackHeaderSize + (n * (indexSize + sz) + gap sz n)
      ∧ numChunks sz (requiredMemorySize sz n) = n + gap sz n / (indexSize + sz) := by
  have hgap : gap sz n < 16 := Nat.mod_lt _ (by decide)
  have hreq : requiredMemorySize sz n = stackHeaderSize + (n * (indexSize + sz) + gap sz n) := by
    rw [requiredMemorySize_eq, alignUp_eq_add_gap (by rw [stackHeaderSize] at hover; omega)]
    exact Nat.mod_eq_of_lt hover
  refine ⟨hreq, ?_⟩
  have hsub : (requiredMemorySize sz n + (2^64 - stackHeaderSize)) % 2^64 = n * (indexSize + sz) + gap sz n := by
    rw [hreq]
    unfold stackHeaderSize at hover ⊢
    omega
  rw [numChunks, hsub, Nat.mod_eq_of_lt hw, Nat.mul_comm, Nat.mul_add_div hpos]

/-- without overflow the chunks end in the memory exactly if the gap has room for the rounding of the stack -/
theorem fits_iff_of_lt (hn : 0 < n) (hsz : 0 < sz) (hw : indexSize + sz < 2^64)
    (hover : stackHeaderSize + (n * (indexSize + sz) + gap sz n) < 2^64) :
    Fits sz addr n ↔ (n + gap sz n / (indexSize + sz)) % 2 = 0 ∨ 8 ≤ gap sz n % (indexSize + sz) := by
  obtain ⟨hreq, hnum⟩ := numChunks_eq hw (by omega) hover
  set k := n + gap sz n / (indexSize + sz) with hk
  have hpos : 0 < k := hn.trans_le (Nat.le_add_right n _)
  -- the bytes of the indices and chunks, and what is left of the gap
  have hbytes : k * indexSize + k * sz + gap sz n % (indexSize + sz) = n * (indexSize + sz) + gap sz n := by
    have hdiv := Nat.div_add_mod' (gap sz n) (indexSize + sz)
    rw [← Nat.mul_add, hk, Nat.add_mul]
    omega
  have hlt : k * indexSize + 15 < 2^64 := by
    unfold stackHeaderSize at hover
    omega
  have hlayout : construct sz addr (requiredMemorySize sz n) = attach addr k := by
    rw [construct, hnum, attach]
  have hplaced : Fits sz addr n ↔ Placed sz addr (requiredMemorySize sz n) (attach addr k) := by
    constructor
    · exact fun h => hlayout ▸ h.placed
    · refine fun h => ⟨?_, hlayout ▸ h, attach_construct _ _ _⟩
      rw [hlayout]
      exact Nat.le_add_right n _
  rw [hplaced, placed_iff hsz hpos hlt, alignUp_indices hlt, hreq, ← hbytes, stackHeaderSize]
  omega

theorem not_fits_of_overflow (hn : 0 < n) (hw : indexSize + sz < 2^64)
    (hover : ¬ stackHeaderSize + (n * (indexSize + sz) + gap sz n) < 2^64) : ¬ Fits sz addr n := by
  intro h
  have henough : n ≤ numChunks sz (requiredMemorySize sz n) := h.enough
  set size := requiredMemorySize sz n with hsize
  -- the bytes that the constructor divides hold `n` indices and chunks
  have hbytes : n * (indexSize + sz) ≤ (size + (2^64 - stackHeaderSize)) % 2^64 := by
    rw [numChunks, Nat.mod_eq_of_lt hw] at henough
    exact (Nat.mul_le_mul_right _ henough).trans (Nat.div_mul_le_self _ _)
  have hlt : n * (indexSize + sz) < 2^64 := hbytes.trans_lt (Nat.mod_lt _ (by decide))
  rw [requiredMemorySize_eq, Nat.mod_eq_of_lt hlt, alignUp_eq] at hsize
  have hstack : extent (addr + 64) (numChunks sz size * indexSize) ⊆ extent addr size := h.placed.stack_inside
  rw [extent_subset_iff (Nat.mul_pos (by omega) (by decide))] at hstack
  unfold gap stackHeaderSize at *
  omega

/-- **The layout fits exactly if it rounds well.** -/
theorem fits_iff (sz addr n : Nat) (hn : 0 < n) (hsz : 0 < sz) (hw : indexSize + sz < 2^64) :
    Fits sz addr n ↔ RoundsWell sz n := by
  by_cases hover : stackHeaderSize + (n * (indexSize + sz) + gap sz n) < 2^64
  · rw [fits_iff_of_lt hn hsz hw hover]
    exact (and_iff_right hover).symm
  · exact iff_of_false (not_fits_of_overflow hn hw hover) fun h => hover h.1

/-- an even number of chunks of 8 bytes -/
theorem fits_iff_two : Fits 8 4096 2 ↔ RoundsWell 8 2 := fits_iff 8 4096 2 (by decide) (by decide) (by decide)

/-- a single chunk of 8 bytes ends 8 bytes behind the memory -/
theorem one_chunk_outside : ¬ Fits 8 4096 1 := by
  intro h
  have hlast : (4096 + 87 : Nat) ∈ extent 4096 80 := h.placed.chunks_inside ⟨by decide, by decide⟩
  exact absurd hlast.2 (by decide)

end ChunkAllocator
end Ipcpp
