import Ipcpp.Lib.Memory
import Ipcpp.Numeric
import Ipcpp.Utils.LinkedList

/-!
# The shared memory allocator

`SharedMemoryAllocator` cuts a region of shared memory into chunks.  A chunk begins with its header, the
struct `Chunk`; `size` counts the header too.  Which chunks there are is known from a list of nodes outside
of the region, one for each chunk in the order of their places.  Chunks and blocks are given by their offset
from `_addr`.

`allocate` takes the first free chunk that is large enough, and makes a new chunk of what it does not need;
`deallocate` marks the chunk free and merges it with its free neighbours.  Reading a header where none stands
and following a pointer to no node is stuck (`none`).  The loops over the nodes get their number as fuel.

`Layout m l`: the chunks of `m` are `l`.  For every function a theorem says what list it leaves
(`allocateFromList_run`, `absorb_run`, `coalesceForward_run`, `coalesceBackwards_run`).
-/

namespace Ipcpp
namespace SharedMemoryAllocator
open Chunks LinkedList

/-- `sizeof(Chunk)` -/
def headerSize : Nat := 16

def ALIGNMENT : Nat := 16

/-- `align_up(size, alignment)` in 64 bits -/
def alignUp (size alignment : Nat) : Nat :=
  ((size + alignment - 1) % 2^64) &&& (2^64 - 1 - (alignment - 1))

/-- `SharedMemoryAllocator::Chunk` -/
structure Header where
  size : Nat
  isFree : Bool

structure Allocator where
  size : Nat
  memory : Memory Header
  nodes : Nodes Nat
  chunkList : Int
  allocatedSize : Nat

namespace Allocator

def putHeader (m : Allocator) (a : Nat) (c : Header) : Allocator :=
  { m with memory := m.memory.putRec headerSize a c }

/-- the constructor, on a region of `size` bytes -/
def construct (size : Nat) : Allocator :=
  ⟨size, Memory.empty.putRec headerSize 0 ⟨size - headerSize, true⟩, (Nodes.empty.new 0).1, (Nodes.empty.new 0).2, 0⟩

/-- the loop of `allocate_from_list`; the answer is the chunk, or nothing -/
def allocateFromList (size : Nat) : Nat → Int → Allocator → Option (Allocator × Option Nat)
  | 0, _, _ => none
  | fuel + 1, node, m =>
    if node = null then some (m, none)
    else do
      let nd ← m.nodes.node node
      let chunk ← m.memory.record nd.element
      if chunk.isFree ∧ chunk.size = size then
        some (m.putHeader nd.element { chunk with isFree := false }, some nd.element)
      else if chunk.isFree ∧ chunk.size > size then
        let newChunk := nd.element + size
        let (nodes, _) ← m.nodes.insert node newChunk
        let m := { m with nodes := nodes }
        let m := m.putHeader newChunk ⟨chunk.size - size, true⟩
        some (m.putHeader nd.element ⟨size, false⟩, some nd.element)
      else
        allocateFromList size fuel nd.next m

/-- `allocate`; no block means `bad_alloc` -/
def allocate (m : Allocator) (size : Nat) : Option (Allocator × Option Nat) := do
  let size := alignUp ((size + headerSize) % 2^64) ALIGNMENT
  let (m, chunk) ← m.allocateFromList size (m.nodes.fresh + 1) m.chunkList
  match chunk with
  | none => some (m, none)
  | some chunk =>
    some ({ m with allocatedSize := (m.allocatedSize + size) % 2^64 }, some (chunk + headerSize))

/-- the loop of `coalesce` that looks for the node of a chunk -/
def findNode (m : Allocator) (chunk : Nat) : Nat → Int → Option (Option Int)
  | 0, _ => none
  | fuel + 1, node =>
    if node = null then some none
    else do
      let nd ← m.nodes.node node
      if nd.element = chunk then some (some node) else m.findNode chunk fuel nd.next

/-- what both loops do to a node and the one behind it: the latter is popped and deleted, its chunk becomes a
part of the former's -/
def absorb (m : Allocator) (node : Int) : Option Allocator := do
  let popped := (← m.nodes.node node).next
  let nodes ← m.nodes.pop popped
  let poppedChunk ← m.memory.record (← nodes.node popped).element
  let a := (← nodes.node node).element
  let chunk ← m.memory.record a
  let m := m.putHeader a { chunk with size := (chunk.size + poppedChunk.size) % 2^64 }
  some { m with nodes := nodes.delete popped }

def coalesceForward : Nat → Int → Allocator → Option Allocator
  | 0, _, _ => none
  | fuel + 1, node, m => do
    let nd ← m.nodes.node node
    if nd.next = null then some m
    else do
      let next ← m.nodes.node nd.next
      let chunk ← m.memory.record next.element
      if ¬ chunk.isFree then some m
      else (m.absorb node).bind fun m => m.coalesceForward fuel node

def coalesceBackwards : Nat → Int → Allocator → Option Allocator
  | 0, _, _ => none
  | fuel + 1, node, m => do
    let nd ← m.nodes.node node
    if nd.prev = null then some m
    else do
      let prev ← m.nodes.node nd.prev
      let chunk ← m.memory.record prev.element
      if ¬ chunk.isFree then some m
      else (m.absorb nd.prev).bind fun m => m.coalesceBackwards fuel nd.prev

def coalesce (m : Allocator) (chunk : Nat) : Option Allocator := do
  match ← m.findNode chunk (m.nodes.fresh + 1) m.chunkList with
  | none => some m
  | some node =>
    let m ← m.coalesceForward (m.nodes.fresh + 1) node
    m.coalesceBackwards (m.nodes.fresh + 1) node

/-- `deallocate`, of a block that is not null -/
def deallocate (m : Allocator) (data : Nat) : Option Allocator := do
  let a := data - headerSize
  let chunk ← m.memory.record a
  let m := m.putHeader a { chunk with isFree := true }
  let m := { m with allocatedSize := (m.allocatedSize + 2^64 - chunk.size) % 2^64 }
  m.coalesce a

end Allocator

/-! ## the chunks of an allocator -/

structure Chunk where
  node : Int
  off : Nat
  size : Nat
  free : Bool

namespace Chunk

def stop (c : Chunk) : Nat := c.off + c.size

/-- what the node of a chunk says -/
def link (c : Chunk) : Int × Nat := (c.node, c.off)

theorem off_le_stop (c : Chunk) : c.off ≤ c.stop := Nat.le_add_right _ _

end Chunk

structure Layout (m : Allocator) (l : List Chunk) : Prop where
  chain : Chain Prod.fst Prod.snd m.nodes (l.map Chunk.link)
  head : m.chunkList = first Prod.fst null (l.map Chunk.link)
  headers : ∀ c ∈ l, m.memory.record c.off = some ⟨c.size, c.free⟩
  tiled : Tiled Chunk.off Chunk.stop 0 l (m.size - headerSize)
  aligned : ∀ c ∈ l, 16 ∣ c.off
  pos : ∀ c ∈ l, 0 < c.size
  size_lt : m.size < 2^64

/-- what the functions on the list leave alone -/
structure Same (m m' : Allocator) : Prop where
  size : m'.size = m.size
  allocatedSize : m'.allocatedSize = m.allocatedSize

theorem Same.refl (m : Allocator) : Same m m := ⟨rfl, rfl⟩

theorem Same.trans {m m' m'' : Allocator} (h : Same m m') (h' : Same m' m'') : Same m m'' :=
  ⟨h'.size.trans h.size, h'.allocatedSize.trans h.allocatedSize⟩

section
variable {m : Allocator} {L R : List Chunk} {c : Chunk}

theorem mem_cut {d : Chunk} : d ∈ L ++ c :: R ↔ d = c ∨ d ∈ L ∨ d ∈ R := by
  rw [List.mem_append, List.mem_cons]
  tauto

namespace Layout

theorem mem (_ : Layout m (L ++ c :: R)) : c ∈ L ++ c :: R := mem_cut.mpr (.inl rfl)

/-- where the chunks before and behind a chunk are -/
theorem cut (h : Layout m (L ++ c :: R)) :
    Tiled Chunk.off Chunk.stop 0 L c.off ∧ Tiled Chunk.off Chunk.stop c.stop R (m.size - headerSize) := by
  obtain ⟨a, hL, hc, hR⟩ := tiled_append.mp h.tiled
  exact ⟨hc ▸ hL, hR⟩

theorem left_le (h : Layout m (L ++ c :: R)) {d : Chunk} (hd : d ∈ L) : d.off + headerSize ≤ c.off := by
  have hstop := (h.cut.1.bounds Chunk.off_le_stop hd).2
  have hpos := h.pos d (mem_cut.mpr (.inr (.inl hd)))
  obtain ⟨i, hi⟩ := h.aligned d (mem_cut.mpr (.inr (.inl hd)))
  obtain ⟨j, hj⟩ := h.aligned c h.mem
  unfold Chunk.stop at hstop
  unfold headerSize
  omega

theorem right_le (h : Layout m (L ++ c :: R)) {d : Chunk} (hd : d ∈ R) : c.off + c.size ≤ d.off :=
  (h.cut.2.bounds Chunk.off_le_stop hd).1

theorem right_header (h : Layout m (L ++ c :: R)) {d : Chunk} (hd : d ∈ R) : c.off + headerSize ≤ d.off := by
  have hle := h.right_le hd
  have hpos := h.pos c h.mem
  obtain ⟨i, hi⟩ := h.aligned c h.mem
  obtain ⟨j, hj⟩ := h.aligned d (mem_cut.mpr (.inr (.inr hd)))
  unfold headerSize
  omega

theorem stop_le (h : Layout m (L ++ c :: R)) : c.off + c.size + headerSize ≤ m.size := by
  have hle : c.off + c.size ≤ m.size - headerSize := h.cut.2.le Chunk.off_le_stop
  have hpos := h.pos c h.mem
  omega

/-- the headers of the other chunks after a header was written at `c` -/
theorem record_putHeader (h : Layout m (L ++ c :: R)) {d : Chunk} (hd : d ∈ L ∨ d ∈ R) (k : Header) :
    (m.putHeader c.off k).memory.record d.off = m.memory.record d.off := by
  have hlt : 0 < headerSize := by decide
  rcases hd with hd | hd
  · have := h.left_le hd
    exact Memory.putRec_record_of_apart _ _ _ (by omega) (.inl this)
  · have := h.right_header hd
    exact Memory.putRec_record_of_apart _ _ _ (by omega) (.inr this)

/-- the chunks `C` are replaced by the chunks `X` in the same place -/
theorem replace {m' : Allocator} {C X : List Chunk} (h : Layout m (L ++ (C ++ R))) (hsize : m'.size = m.size)
    (hchain : Chain Prod.fst Prod.snd m'.nodes ((L ++ (X ++ R)).map Chunk.link))
    (hhead : m'.chunkList = first Prod.fst null ((L ++ (X ++ R)).map Chunk.link))
    (hkeep : ∀ d, d ∈ L ∨ d ∈ R → m'.memory.record d.off = m.memory.record d.off)
    (hX : ∀ d ∈ X, m'.memory.record d.off = some ⟨d.size, d.free⟩ ∧ 16 ∣ d.off ∧ 0 < d.size)
    (htiled : ∀ a b, Tiled Chunk.off Chunk.stop a C b → Tiled Chunk.off Chunk.stop a X b) :
    Layout m' (L ++ (X ++ R)) := by
  have hcases : ∀ d ∈ L ++ (X ++ R), d ∈ X ∨ d ∈ L ∨ d ∈ R := fun d hd => by
    simp only [List.mem_append] at hd
    tauto
  have hold : ∀ d, d ∈ L ∨ d ∈ R → d ∈ L ++ (C ++ R) := fun d hd => by
    simp only [List.mem_append]
    tauto
  obtain ⟨a, hL, hCR⟩ := tiled_append.mp h.tiled
  obtain ⟨b, hC, hR⟩ := tiled_append.mp hCR
  refine ⟨hchain, hhead, fun d hd => ?_, ?_, fun d hd => ?_, fun d hd => ?_, hsize ▸ h.size_lt⟩
  · rcases hcases d hd with hd | hd
    · exact (hX d hd).1
    · exact (hkeep d hd).trans (h.headers d (hold d hd))
  · rw [hsize]
    exact tiled_append.mpr ⟨a, hL, tiled_append.mpr ⟨b, htiled a b hC, hR⟩⟩
  · rcases hcases d hd with hd | hd
    · exact (hX d hd).2.1
    · exact h.aligned d (hold d hd)
  · rcases hcases d hd with hd | hd
    · exact (hX d hd).2.2
    · exact h.pos d (hold d hd)

theorem setFree (h : Layout m (L ++ c :: R)) (b : Bool) :
    Layout (m.putHeader c.off ⟨c.size, b⟩) (L ++ { c with free := b } :: R) := by
  have hmap : (L ++ { c with free := b } :: R).map Chunk.link = (L ++ c :: R).map Chunk.link := by
    rw [List.map_append, List.map_append]
    rfl
  refine replace (C := [c]) (X := [{ c with free := b }]) h rfl ?_ ?_ (fun d hd => h.record_putHeader hd _)
    (fun d hd => ?_) fun _ _ ht => ht
  · exact hmap ▸ h.chain
  · exact hmap ▸ h.head
  · rw [List.mem_singleton.mp hd]
    exact ⟨Memory.putRec_record_self _ _ _ _, h.aligned c h.mem, h.pos c h.mem⟩

theorem node (h : Layout m (L ++ c :: R)) :
    m.nodes.node c.node
      = some ⟨c.off, last Prod.fst null (L.map Chunk.link), first Prod.fst null (R.map Chunk.link)⟩ := by
  have hchain := h.chain
  rw [List.map_append, List.map_cons] at hchain
  exact hchain.cut.2.1

theorem node_ne_null (h : Layout m (L ++ c :: R)) : c.node ≠ null :=
  h.chain.ne_null (x := c.link) (List.mem_map_of_mem h.mem)

theorem first_ne_null (h : Layout m (L ++ c :: R)) : first Prod.fst null ((c :: R).map Chunk.link) ≠ null :=
  h.node_ne_null

theorem record (h : Layout m (L ++ c :: R)) : m.memory.record c.off = some ⟨c.size, c.free⟩ :=
  h.headers c h.mem

/-- there are no more chunks than nodes were ever made -/
theorem length_le (h : Layout m L) : L.length ≤ m.nodes.fresh := by
  have hsub : L.map Chunk.node ⊆ (List.range m.nodes.fresh).map fun i : Nat => (i : Int) := by
    intro a ha
    obtain ⟨d, hd, rfl⟩ := List.mem_map.mp ha
    have h0 : 0 ≤ d.node := h.chain.nonneg d.link (List.mem_map_of_mem hd)
    have hlt : d.node < m.nodes.fresh := h.chain.lt d.link (List.mem_map_of_mem hd)
    exact List.mem_map.mpr ⟨d.node.toNat, List.mem_range.mpr (by omega), Int.toNat_of_nonneg h0⟩
  have hnd : (L.map Chunk.node).Nodup := by
    have := h.chain.nodup
    rw [List.map_map] at this
    exact this
  have hlen := (hnd.subperm hsub).length_le
  rwa [List.length_map, List.length_map, List.length_range] at hlen

end Layout

/-! ## allocation -/

def Chunk.Fits (c : Chunk) (n : Nat) : Prop := c.free = true ∧ n ≤ c.size

/-- what becomes of a chunk of which `n` bytes are used; `node` is a new node -/
def Chunk.taken (c : Chunk) (n : Nat) (node : Int) : List Chunk :=
  if c.size = n then [{ c with free := false }]
  else [{ c with size := n, free := false }, ⟨node, c.off + n, c.size - n, true⟩]

/-- a chunk is split: the front part is used, a node for the rest is inserted -/
theorem split_run {n : Nat} (h : Layout m (L ++ c :: R)) (h16 : 16 ∣ n) (hn : 0 < n) (hlt : n < c.size) :
    ∃ nodes, m.nodes.insert c.node (c.off + n) = some (nodes, (m.nodes.fresh : Int)) ∧
      Layout ((({ m with nodes := nodes } : Allocator).putHeader (c.off + n) ⟨c.size - n, true⟩).putHeader c.off
          ⟨n, false⟩)
        (L ++ ([{ c with size := n, free := false }, ⟨m.nodes.fresh, c.off + n, c.size - n, true⟩] ++ R)) := by
  have hchain := h.chain
  rw [List.map_append, List.map_cons] at hchain
  obtain ⟨nodes, hrun, -, hnodes⟩ := insert_run (y := ((m.nodes.fresh : Int), c.off + n)) hchain rfl
  have hlt' : 0 < headerSize := by decide
  have hn16 : headerSize ≤ n := Nat.le_of_dvd hn h16
  refine ⟨nodes, hrun, h.replace (C := [c]) rfl ?_ ?_ (fun d hd => ?_) (fun d hd => ?_) fun a b ht => ?_⟩
  · rw [List.map_append, List.map_append]
    exact hnodes
  · have hhead := h.head
    rw [List.map_append] at hhead ⊢
    rw [first_append] at hhead ⊢
    exact hhead
  · -- the other headers are in front of the chunk, or behind it
    have hc16 := h.aligned c h.mem
    have hne : d.off ≠ c.off + n ∧ Apart d.off headerSize (c.off + n) headerSize ∧
        d.off ≠ c.off ∧ Apart d.off headerSize c.off headerSize := by
      unfold Apart
      rcases hd with hd | hd
      · have := h.left_le hd
        omega
      · have hle := h.right_le hd
        obtain ⟨i, hi⟩ := h.aligned d (mem_cut.mpr (.inr (.inr hd)))
        have hhead : c.off + n + headerSize ≤ d.off := by
          unfold headerSize at *
          omega
        omega
    exact (Memory.putRec_record_of_apart _ _ _ hne.2.2.1 hne.2.2.2).trans
      (Memory.putRec_record_of_apart _ _ _ hne.1 hne.2.1)
  · have hc16 := h.aligned c h.mem
    rcases List.mem_pair.mp hd with rfl | rfl
    · exact ⟨Memory.putRec_record_self _ _ _ _, hc16, hn⟩
    · refine ⟨?_, Nat.dvd_add hc16 h16, Nat.sub_pos_of_lt hlt⟩
      have hne : c.off + n ≠ c.off := by omega
      have hapart : Apart (c.off + n) headerSize c.off headerSize := .inr (by omega)
      exact (Memory.putRec_record_of_apart _ _ _ hne hapart).trans (Memory.putRec_record_self _ _ _ _)
  · obtain ⟨ha, hb⟩ := ht
    refine ⟨ha, rfl, ?_⟩
    show c.off + n + (c.size - n) = b
    have hb' : c.off + c.size = b := hb
    omega

theorem allocateFromList_fits {n : Nat} (h : Layout m (L ++ c :: R)) (h16 : 16 ∣ n) (hn : 0 < n) (hfits : c.Fits n)
    (fuel : Nat) :
    ∃ m', m.allocateFromList n (fuel + 1) c.node = some (m', some c.off) ∧ Same m m' ∧
      Layout m' (L ++ (c.taken n m.nodes.fresh ++ R)) := by
  obtain ⟨hfree, hle⟩ := hfits
  by_cases heq : c.size = n
  · rw [Chunk.taken, if_pos heq]
    refine ⟨m.putHeader c.off ⟨c.size, false⟩, ?_, ⟨rfl, rfl⟩, h.setFree false⟩
    rw [Allocator.allocateFromList, if_neg h.node_ne_null]
    refine Option.bind_eq_some_iff.mpr ⟨_, h.node, Option.bind_eq_some_iff.mpr ⟨_, h.record, ?_⟩⟩
    exact if_pos ⟨hfree, heq⟩
  · rw [Chunk.taken, if_neg heq]
    obtain ⟨nodes, hrun, hlayout⟩ := split_run h h16 hn (Nat.lt_of_le_of_ne hle (Ne.symm heq))
    refine ⟨(({ m with nodes := nodes } : Allocator).putHeader (c.off + n) ⟨c.size - n, true⟩).putHeader c.off
      ⟨n, false⟩, ?_, ⟨rfl, rfl⟩, hlayout⟩
    rw [Allocator.allocateFromList, if_neg h.node_ne_null]
    refine Option.bind_eq_some_iff.mpr ⟨_, h.node, Option.bind_eq_some_iff.mpr ⟨_, h.record, ?_⟩⟩
    rw [if_neg (show ¬ (c.free = true ∧ c.size = n) from fun hc => heq hc.2),
      if_pos (show c.free = true ∧ c.size > n from ⟨hfree, Nat.lt_of_le_of_ne hle (Ne.symm heq)⟩)]
    exact Option.bind_eq_some_iff.mpr ⟨_, hrun, rfl⟩

/-- **The search**, from the chunks `S` on which it has passed: a chunk is taken, or none fits. -/
theorem allocateFromList_run {n : Nat} (h16 : 16 ∣ n) (hn : 0 < n) (R : List Chunk) :
    ∀ (S : List Chunk) (fuel : Nat), Layout m (S ++ R) → R.length < fuel →
      (∃ L c R' m', S ++ R = L ++ c :: R' ∧ c.Fits n ∧
        m.allocateFromList n fuel (first Prod.fst null (R.map Chunk.link)) = some (m', some c.off) ∧ Same m m' ∧
        Layout m' (L ++ (c.taken n m.nodes.fresh ++ R'))) ∨
      (m.allocateFromList n fuel (first Prod.fst null (R.map Chunk.link)) = some (m, none) ∧ ∀ c ∈ R, ¬ c.Fits n) := by
  induction R with
  | nil =>
    intro S fuel _ hfuel
    obtain ⟨fuel, rfl⟩ : ∃ f, fuel = f + 1 := ⟨fuel - 1, by simp at hfuel; omega⟩
    exact .inr ⟨if_pos rfl, by simp⟩
  | cons c R ih =>
    intro S fuel h hfuel
    obtain ⟨fuel, rfl⟩ : ∃ f, fuel = f + 1 := ⟨fuel - 1, by omega⟩
    by_cases hfits : c.Fits n
    · obtain ⟨m', hrun, hsame, hlayout⟩ := allocateFromList_fits h h16 hn hfits fuel
      exact .inl ⟨S, c, R, m', rfl, hfits, hrun, hsame, hlayout⟩
    · have hnext : m.allocateFromList n (fuel + 1) (first Prod.fst null ((c :: R).map Chunk.link))
          = m.allocateFromList n fuel (first Prod.fst null (R.map Chunk.link)) := by
        rw [Allocator.allocateFromList, if_neg h.first_ne_null]
        show ((m.nodes.node c.node).bind fun nd => _) = _
        rw [h.node, Option.bind_some, h.record]
        show (if c.free = true ∧ c.size = n then _ else if c.free = true ∧ c.size > n then _ else _) = _
        rw [if_neg fun hc => hfits ⟨hc.1, Nat.le_of_eq hc.2.symm⟩,
          if_neg fun hc => hfits ⟨hc.1, Nat.le_of_lt hc.2⟩]
      have happ : S ++ c :: R = (S ++ [c]) ++ R := by simp
      rw [hnext]
      rcases ih (S ++ [c]) fuel (happ ▸ h) (by simpa using hfuel) with ⟨L, d, R', m', heq, hrest⟩ | ⟨hnone, hall⟩
      · exact .inl ⟨L, d, R', m', happ.trans heq, hrest⟩
      · refine .inr ⟨hnone, fun d hd => ?_⟩
        rcases List.mem_cons.mp hd with rfl | hd
        · exact hfits
        · exact hall d hd

/-! ## merging -/

/-- `x` and the chunk behind it as one -/
def Chunk.absorb (x y : Chunk) : Chunk := { x with size := x.size + y.size }

/-- **A node absorbs the one behind it.** -/
theorem absorb_run {x y : Chunk} (h : Layout m (L ++ x :: y :: R)) :
    ∃ m', m.absorb x.node = some m' ∧ Same m m' ∧ m'.nodes.fresh = m.nodes.fresh ∧
      Layout m' (L ++ x.absorb y :: R) := by
  have happ : L ++ x :: y :: R = (L ++ [x]) ++ y :: R := by simp
  have hy : Layout m ((L ++ [x]) ++ y :: R) := happ ▸ h
  have hchain := h.chain
  rw [List.map_append, List.map_cons, List.map_cons] at hchain
  obtain ⟨nodes, hrun, hfresh, hpopped, hnodes⟩ := pop_run hchain
  -- the size of the two together
  have hstop := hy.stop_le
  have hright := h.right_le (d := y) List.mem_cons_self
  have hlt := h.size_lt
  have hsum : (x.size + y.size) % 2^64 = x.size + y.size := Nat.mod_eq_of_lt (by omega)
  have hyx : y.node ≠ x.node := hchain.addr_ne.2.1 y.link List.mem_cons_self
  have hyL : ∀ c ∈ L.map Chunk.link ++ x.link :: R.map Chunk.link, c.1 ≠ y.node := by
    have happ' : L.map Chunk.link ++ x.link :: y.link :: R.map Chunk.link
        = (L.map Chunk.link ++ [x.link]) ++ y.link :: R.map Chunk.link := by simp
    obtain ⟨h1, h2, -⟩ := (happ' ▸ hchain).addr_ne
    intro c hc
    simp only [List.mem_append, List.mem_cons] at hc
    rcases hc with hc | rfl | hc
    · exact h1 c (List.mem_append_left _ hc)
    · exact hyx.symm
    · exact h2 c hc
  refine ⟨{ m.putHeader x.off ⟨x.size + y.size, x.free⟩ with nodes := nodes.delete y.node }, ?_, ⟨rfl, rfl⟩, hfresh,
    h.replace (C := [x, y]) (X := [x.absorb y]) rfl ?_ ?_ (fun d hd => ?_) (fun d hd => ?_) fun a b ht => ?_⟩
  · refine Option.bind_eq_some_iff.mpr ⟨_, h.node, ?_⟩
    refine Option.bind_eq_some_iff.mpr ⟨nodes, hrun, ?_⟩
    refine Option.bind_eq_some_iff.mpr ⟨_, hpopped.trans hy.node, ?_⟩
    refine Option.bind_eq_some_iff.mpr ⟨_, hy.record, ?_⟩
    refine Option.bind_eq_some_iff.mpr ⟨_, hnodes.cut.2.1, ?_⟩
    refine Option.bind_eq_some_iff.mpr ⟨_, h.record, ?_⟩
    exact congrArg (fun n => some { m.putHeader x.off ⟨n, x.free⟩ with nodes := nodes.delete y.node }) hsum
  · rw [List.map_append, List.map_append]
    exact hnodes.delete hyL
  · have hhead := h.head
    rw [List.map_append] at hhead ⊢
    rw [first_append] at hhead ⊢
    exact hhead
  · exact h.record_putHeader (hd.imp_right (List.mem_cons_of_mem y)) _
  · rw [List.mem_singleton.mp hd]
    refine ⟨Memory.putRec_record_self _ _ _ _, h.aligned x h.mem, ?_⟩
    show 0 < x.size + y.size
    have := h.pos x h.mem
    omega
  · obtain ⟨hx, hy, hb⟩ := ht
    refine ⟨hx, ?_⟩
    show x.off + (x.size + y.size) = b
    have hb' : y.off + y.size = b := hb
    have hy' : y.off = x.off + x.size := hy
    omega

/-- what the loop of `coalesce_forward` makes of `x` and the chunks behind it -/
def mergeForward (x : Chunk) : List Chunk → Chunk × List Chunk
  | [] => (x, [])
  | y :: R => if y.free then mergeForward (x.absorb y) R else (x, y :: R)

/-- what the loop of `coalesce_backwards` makes of the chunks in front of `x`, the nearest first, and `x` -/
def mergeBackwards : List Chunk → Chunk → List Chunk × Chunk
  | [], x => ([], x)
  | y :: B, x => if y.free then mergeBackwards B (y.absorb x) else (y :: B, x)

theorem coalesceForward_run (R : List Chunk) :
    ∀ (m : Allocator) (x : Chunk) (fuel : Nat), Layout m (L ++ x :: R) → R.length < fuel →
      ∃ m', m.coalesceForward fuel x.node = some m' ∧ Same m m' ∧ m'.nodes.fresh = m.nodes.fresh ∧
        Layout m' (L ++ (mergeForward x R).1 :: (mergeForward x R).2) := by
  induction R with
  | nil =>
    intro m x fuel h hfuel
    obtain ⟨fuel, rfl⟩ : ∃ f, fuel = f + 1 := ⟨fuel - 1, by simp at hfuel; omega⟩
    refine ⟨m, ?_, Same.refl m, rfl, h⟩
    exact Option.bind_eq_some_iff.mpr ⟨_, h.node, if_pos rfl⟩
  | cons y R ih =>
    intro m x fuel h hfuel
    obtain ⟨fuel, rfl⟩ : ∃ f, fuel = f + 1 := ⟨fuel - 1, by omega⟩
    have happ : L ++ x :: y :: R = (L ++ [x]) ++ y :: R := by simp
    have hy : Layout m ((L ++ [x]) ++ y :: R) := happ ▸ h
    -- the loop reads the chunk behind
    have hread : m.coalesceForward (fuel + 1) x.node
        = if ¬ y.free = true then some m else (m.absorb x.node).bind fun m => m.coalesceForward fuel x.node := by
      show ((m.nodes.node x.node).bind fun nd => _) = _
      rw [h.node, Option.bind_some]
      refine (if_neg hy.node_ne_null).trans ?_
      show ((m.nodes.node y.node).bind fun nd => _) = _
      rw [hy.node, Option.bind_some]
      show ((m.memory.record y.off).bind fun chunk => _) = _
      rw [hy.record, Option.bind_some]
    rw [hread, mergeForward]
    by_cases hfree : y.free = true
    · obtain ⟨m1, hrun1, hsame1, hfresh1, h1⟩ := absorb_run h
      obtain ⟨m2, hrun2, hsame2, hfresh2, h2⟩ := ih m1 (x.absorb y) fuel h1 (by simpa using hfuel)
      rw [if_neg (not_not.mpr hfree), if_pos hfree]
      exact ⟨m2, Option.bind_eq_some_iff.mpr ⟨m1, hrun1, hrun2⟩, hsame1.trans hsame2, hfresh2.trans hfresh1, h2⟩
    · rw [if_pos hfree, if_neg hfree]
      exact ⟨m, rfl, Same.refl m, rfl, h⟩

theorem coalesceBackwards_run (B : List Chunk) :
    ∀ (m : Allocator) (x : Chunk) (fuel : Nat), Layout m (B.reverse ++ x :: R) → B.length < fuel →
      ∃ m', m.coalesceBackwards fuel x.node = some m' ∧ Same m m' ∧
        Layout m' ((mergeBackwards B x).1.reverse ++ (mergeBackwards B x).2 :: R) := by
  induction B with
  | nil =>
    intro m x fuel h hfuel
    obtain ⟨fuel, rfl⟩ : ∃ f, fuel = f + 1 := ⟨fuel - 1, by simp at hfuel; omega⟩
    refine ⟨m, ?_, Same.refl m, h⟩
    exact Option.bind_eq_some_iff.mpr ⟨_, h.node, if_pos rfl⟩
  | cons y B ih =>
    intro m x fuel h hfuel
    obtain ⟨fuel, rfl⟩ : ∃ f, fuel = f + 1 := ⟨fuel - 1, by omega⟩
    have happ : (y :: B).reverse ++ x :: R = B.reverse ++ y :: x :: R := by simp
    have hy : Layout m (B.reverse ++ y :: x :: R) := happ ▸ h
    have hprev : last Prod.fst null ((y :: B).reverse.map Chunk.link) = y.node := by
      rw [List.reverse_cons, List.map_append, last_append]
      rfl
    -- the loop reads the chunk in front
    have hread : m.coalesceBackwards (fuel + 1) x.node
        = if ¬ y.free = true then some m else (m.absorb y.node).bind fun m => m.coalesceBackwards fuel y.node := by
      show ((m.nodes.node x.node).bind fun nd => _) = _
      rw [h.node, Option.bind_some, hprev]
      refine (if_neg hy.node_ne_null).trans ?_
      show ((m.nodes.node y.node).bind fun nd => _) = _
      rw [hy.node, Option.bind_some]
      show ((m.memory.record y.off).bind fun chunk => _) = _
      rw [hy.record, Option.bind_some]
    rw [hread, mergeBackwards]
    by_cases hfree : y.free = true
    · obtain ⟨m1, hrun1, hsame1, -, h1⟩ := absorb_run hy
      obtain ⟨m2, hrun2, hsame2, h2⟩ := ih m1 (y.absorb x) fuel h1 (by simpa using hfuel)
      rw [if_neg (not_not.mpr hfree), if_pos hfree]
      exact ⟨m2, Option.bind_eq_some_iff.mpr ⟨m1, hrun1, hrun2⟩, hsame1.trans hsame2, h2⟩
    · rw [if_pos hfree, if_neg hfree]
      exact ⟨m, rfl, Same.refl m, h⟩

theorem findNode_run (S : List Chunk) :
    ∀ (T : List Chunk) (fuel : Nat), Layout m (T ++ (S ++ c :: R)) → S.length < fuel →
      m.findNode c.off fuel (first Prod.fst null ((S ++ c :: R).map Chunk.link)) = some (some c.node) := by
  induction S with
  | nil =>
    intro T fuel h hfuel
    obtain ⟨fuel, rfl⟩ : ∃ f, fuel = f + 1 := ⟨fuel - 1, by simp at hfuel; omega⟩
    refine (if_neg h.first_ne_null).trans ?_
    exact Option.bind_eq_some_iff.mpr ⟨_, h.node, if_pos rfl⟩
  | cons d S ih =>
    intro T fuel h hfuel
    obtain ⟨fuel, rfl⟩ : ∃ f, fuel = f + 1 := ⟨fuel - 1, by omega⟩
    have hne : d.off ≠ c.off := by
      have := h.right_header (d := c) (List.mem_append_right _ List.mem_cons_self)
      unfold headerSize at this
      omega
    have happ : T ++ (d :: S ++ c :: R) = (T ++ [d]) ++ (S ++ c :: R) := by simp
    refine (if_neg h.first_ne_null).trans ?_
    refine Option.bind_eq_some_iff.mpr ⟨_, h.node, (if_neg hne).trans ?_⟩
    exact ih (T ++ [d]) fuel (happ ▸ h) (by simpa using hfuel)

end

end SharedMemoryAllocator
end Ipcpp
