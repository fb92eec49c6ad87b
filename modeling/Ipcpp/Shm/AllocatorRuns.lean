import Ipcpp.Lib.Runs
import Ipcpp.Shm.Allocator

/-!
# Runs of the shared memory allocator

Any number of calls of `allocate` and of `deallocate` of live blocks, and writes to the blocks in between.
`sound_run`: after every step of a run the chunks tile the region, two neighbours are never both free, the
headers are outside of the blocks, the blocks do not meet, and `_allocated_size` is the sum of the sizes of
the chunks that are in use.

A call keeps this because the search takes one free chunk (`used_taken`), and because the two loops of
`coalesce` merge free chunks only and stop in front of one that is not free (`mergeForward_spec`,
`mergeBackwards_spec`).
-/

namespace Ipcpp
namespace SharedMemoryAllocator
open Chunks LinkedList

/-! ## lists of chunks -/

def used (l : List Chunk) : Nat := (l.map fun c => if c.free then 0 else c.size).sum

@[simp] theorem used_nil : used [] = 0 := rfl

theorem used_cons (c : Chunk) (l : List Chunk) : used (c :: l) = (if c.free then 0 else c.size) + used l := by
  simp [used]

theorem used_append (l l' : List Chunk) : used (l ++ l') = used l + used l' := by
  simp [used]

theorem used_free {c : Chunk} (hc : c.free = true) (L R : List Chunk) : used (L ++ c :: R) = used L + used R := by
  rw [used_append, used_cons, if_pos hc, Nat.zero_add]

theorem used_reverse (l : List Chunk) : used l.reverse = used l := by
  unfold used
  rw [List.map_reverse, List.sum_reverse]

/-- the chunks in use are a part of what the chunks tile -/
theorem used_le {a b : Nat} {l : List Chunk} (h : Tiled Chunk.off Chunk.stop a l b) : a + used l ≤ b := by
  induction l generalizing a with
  | nil => exact Nat.le_of_eq h
  | cons c l ih =>
    have hle := ih h.2
    have hoff := h.1
    rw [used_cons]
    unfold Chunk.stop at hle
    split <;> omega

def Separate (c d : Chunk) : Prop := ¬ (c.free = true ∧ d.free = true)

/-- the chunks next to `x` are in use -/
def UsedEnds (L R : List Chunk) : Prop := (∀ c ∈ L.getLast?, c.free = false) ∧ ∀ d ∈ R.head?, d.free = false

theorem separate_of_left {c d : Chunk} (h : c.free = false) : Separate c d := fun hcd => by
  rw [h] at hcd
  cases hcd.1

theorem separate_of_right {c d : Chunk} (h : d.free = false) : Separate c d := fun hcd => by
  rw [h] at hcd
  cases hcd.2

theorem usedEnds_of_free {L R : List Chunk} {c : Chunk} (h : (L ++ c :: R).IsChain Separate) (hc : c.free = true) :
    UsedEnds L R := by
  obtain ⟨-, hcR, hL⟩ := List.isChain_append.mp h
  obtain ⟨hR, -⟩ := List.isChain_cons.mp hcR
  refine ⟨fun d hd => ?_, fun d hd => ?_⟩
  · exact Bool.eq_false_iff.mpr fun hfree => hL d hd c rfl ⟨hfree, hc⟩
  · exact Bool.eq_false_iff.mpr fun hfree => hR d hd ⟨hc, hfree⟩

theorem isChain_between {L X R : List Chunk} (hL : L.IsChain Separate) (hX : X.IsChain Separate)
    (hR : R.IsChain Separate) (hends : UsedEnds L R) : (L ++ (X ++ R)).IsChain Separate := by
  refine hL.append (hX.append hR fun _ _ d hd => separate_of_right (hends.2 d hd)) fun c hc d hd => ?_
  exact separate_of_left (hends.1 c hc)

theorem used_taken (c : Chunk) (n : Nat) (node : Int) : used (c.taken n node) = n := by
  unfold Chunk.taken
  split
  · rename_i heq
    rw [used_cons, if_neg (by simp)]
    exact heq
  · rw [used_cons, used_cons, if_neg (by simp), if_pos rfl]
    rfl

theorem taken_isChain (c : Chunk) (n : Nat) (node : Int) : (c.taken n node).IsChain Separate := by
  unfold Chunk.taken
  split
  · exact List.IsChain.singleton _
  · exact List.isChain_cons_cons.mpr ⟨separate_of_left rfl, List.IsChain.singleton _⟩

theorem taken_front (c : Chunk) (n : Nat) (node : Int) :
    ∃ d ∈ c.taken n node, d.free = false ∧ d.off = c.off ∧ d.size = n := by
  unfold Chunk.taken
  split
  · rename_i heq
    exact ⟨_, List.mem_singleton_self _, rfl, rfl, heq⟩
  · exact ⟨_, List.mem_cons_self, rfl, rfl, rfl⟩

/-- what a loop of `coalesce` makes of the chunks `S` on one side: the chunks `S'` are left -/
structure Merges (S S' : List Chunk) : Prop where
  used : used S' = used S
  keep : ∀ d ∈ S, d.free = false → d ∈ S'
  suffix : S' <:+ S
  head : ∀ d ∈ S'.head?, d.free = false

theorem Merges.stop {y : Chunk} (S : List Chunk) (hy : ¬ y.free = true) : Merges (y :: S) (y :: S) :=
  ⟨rfl, fun _ hd _ => hd, List.suffix_refl _, fun _ hd => Option.some.inj hd ▸ Bool.eq_false_iff.mpr hy⟩

theorem Merges.nil : Merges [] [] := ⟨rfl, fun _ hd _ => hd, List.suffix_refl _, fun _ hd => by cases hd⟩

theorem Merges.cons {y : Chunk} {S S' : List Chunk} (h : Merges S S') (hy : y.free = true) : Merges (y :: S) S' := by
  refine ⟨?_, fun d hd hfree => ?_, h.suffix.trans (List.suffix_cons y S), h.head⟩
  · rw [used_cons, if_pos hy, Nat.zero_add]
    exact h.used
  · rcases List.mem_cons.mp hd with rfl | hd
    · rw [hy] at hfree
      cases hfree
    · exact h.keep d hd hfree

theorem mergeForward_spec (R : List Chunk) :
    ∀ x : Chunk, (mergeForward x R).1.node = x.node ∧ (mergeForward x R).1.free = x.free ∧
      Merges R (mergeForward x R).2 := by
  induction R with
  | nil => exact fun x => ⟨rfl, rfl, .nil⟩
  | cons y R ih =>
    intro x
    unfold mergeForward
    by_cases hy : y.free = true
    · rw [if_pos hy]
      obtain ⟨hnode, hfree, hmerges⟩ := ih (x.absorb y)
      exact ⟨hnode, hfree, hmerges.cons hy⟩
    · rw [if_neg hy]
      exact ⟨rfl, rfl, .stop R hy⟩

theorem mergeBackwards_spec (B : List Chunk) :
    ∀ x : Chunk, x.free = true → (mergeBackwards B x).2.free = true ∧ Merges B (mergeBackwards B x).1 := by
  induction B with
  | nil => exact fun x hx => ⟨hx, .nil⟩
  | cons y B ih =>
    intro x hx
    unfold mergeBackwards
    by_cases hy : y.free = true
    · rw [if_pos hy]
      obtain ⟨hfree, hmerges⟩ := ih (y.absorb x) hy
      exact ⟨hfree, hmerges.cons hy⟩
    · rw [if_neg hy]
      exact ⟨hx, .stop B hy⟩

/-! ## the system -/

/-- a block that was handed out, with the size that was asked for -/
structure Block where
  data : Nat
  requested : Nat

/-- `stuck`: a function has read a header where none stands, or followed a pointer to no node -/
structure State where
  alloc : Allocator
  live : List Block
  stuck : Bool

inductive Action where
  | allocate (size : Nat)
  | deallocate (data : Nat)
  /-- a byte of a live block is written -/
  | write (x : Nat) (v : UInt8)

namespace State

def init (size : Nat) : State := ⟨.construct size, [], false⟩

/-- the bytes of a block, as its header says -/
def payload (s : State) (b : Block) : Nat :=
  match s.alloc.memory.record (b.data - headerSize) with
  | some c => c.size - headerSize
  | none => 0

def step (s : State) (a : Action) : Option State :=
  if s.stuck then none
  else match a with
    | .allocate size =>
      if size + headerSize + 15 < 2^64 then
        match s.alloc.allocate size with
        | none => some { s with stuck := true }
        | some (m, none) => some { s with alloc := m }
        | some (m, some data) => some { s with alloc := m, live := ⟨data, size⟩ :: s.live }
      else none
    | .deallocate data =>
      if ∃ b ∈ s.live, b.data = data then
        match s.alloc.deallocate data with
        | none => some { s with stuck := true }
        | some m => some { s with alloc := m, live := s.live.filter fun b => b.data ≠ data }
      else none
    | .write x v =>
      if ∃ b ∈ s.live, b.data ≤ x ∧ x < b.data + s.payload b then
        some { s with alloc := { s.alloc with
          memory := s.alloc.memory.putBytes headerSize x 1 fun _ => some v } }
      else none

/-- what is meant to hold, for the list `l` of chunks -/
structure Sound (s : State) (l : List Chunk) : Prop where
  notStuck : s.stuck = false
  /-- the headers and the nodes say `l`, and `l` tiles the region but for the size of a header -/
  layout : Layout s.alloc l
  coalesced : l.IsChain Separate
  inside : ∀ c ∈ l, c.off + headerSize ≤ s.alloc.size
  outside : ∀ c ∈ l, ∀ b ∈ s.live, Apart c.off headerSize b.data (s.payload b)
  disjoint : s.live.Pairwise fun b b' => Apart b.data (s.payload b) b'.data (s.payload b')
  large : ∀ b ∈ s.live, b.requested ≤ s.payload b
  allocated : s.alloc.allocatedSize = (l.map fun c => if c.free then 0 else c.size).sum

/-- what carries it: every live block is one of the chunks in use -/
structure Inv (s : State) (l : List Chunk) : Prop where
  notStuck : s.stuck = false
  layout : Layout s.alloc l
  coalesced : l.IsChain Separate
  allocated : s.alloc.allocatedSize = used l
  block : ∀ b ∈ s.live, ∃ c ∈ l, c.free = false ∧ c.off + headerSize = b.data ∧ headerSize + b.requested ≤ c.size
  once : (s.live.map Block.data).Nodup

section
variable {s t : State} {l : List Chunk}

/-- the payload of a live block is the rest of its chunk -/
theorem payload_eq (h : Layout s.alloc l) {b : Block} {c : Chunk} (hc : c ∈ l) (hb : c.off + headerSize = b.data) :
    s.payload b = c.size - headerSize := by
  unfold payload
  rw [← hb, Nat.add_sub_cancel, h.headers c hc]


/-- two chunks are the same, or one is behind the other and its header -/
theorem apart_of_mem {m : Allocator} (h : Layout m l) {c d : Chunk} (hc : c ∈ l) (hd : d ∈ l) :
    d = c ∨ (d.off + headerSize ≤ c.off ∧ d.off + d.size ≤ c.off) ∨
      (c.off + headerSize ≤ d.off ∧ c.off + c.size ≤ d.off) := by
  obtain ⟨L, R, rfl⟩ := List.append_of_mem hc
  rcases mem_cut.mp hd with heq | hL | hR
  · exact .inl heq
  · exact .inr (.inl ⟨h.left_le hL, (h.cut.1.bounds Chunk.off_le_stop hL).2⟩)
  · exact .inr (.inr ⟨h.right_header hR, h.right_le hR⟩)

theorem Inv.sound (h : s.Inv l) : s.Sound l := by
  have hblock : ∀ b ∈ s.live, ∃ c ∈ l, c.off + headerSize = b.data ∧ b.data + s.payload b = c.off + c.size ∧
      b.requested ≤ s.payload b := by
    intro b hb
    obtain ⟨c, hc, -, hdata, hsize⟩ := h.block b hb
    rw [payload_eq h.layout hc hdata]
    exact ⟨c, hc, hdata, by omega, by omega⟩
  refine ⟨h.notStuck, h.layout, h.coalesced, fun c hc => ?_, fun c hc b hb => ?_, ?_, fun b hb => ?_, h.allocated⟩
  · obtain ⟨L, R, rfl⟩ := List.append_of_mem hc
    have := h.layout.stop_le
    omega
  · obtain ⟨d, hd, hdata, hend, -⟩ := hblock b hb
    unfold Apart
    rcases apart_of_mem h.layout hc hd with rfl | hdc | hcd <;> omega
  · refine (List.pairwise_map.mp h.once).imp_of_mem fun {b b'} hb hb' hne => ?_
    obtain ⟨c, hc, hdata, hend, -⟩ := hblock b hb
    obtain ⟨d, hd, hdata', hend', -⟩ := hblock b' hb'
    unfold Apart
    rcases apart_of_mem h.layout hc hd with rfl | hdc | hcd <;> omega
  · obtain ⟨c, hc, hdata, hend, hreq⟩ := hblock b hb
    exact hreq

/-! ## the calls -/

theorem alignUp_eq (n : Nat) : alignUp n ALIGNMENT = (n + 15) % 2^64 / 16 * 16 :=
  Numeric.and_mask (k := 4) (by decide) (Nat.mod_lt _ (by decide))

/-- a layout does not say what is allocated -/
theorem layout_allocatedSize {m : Allocator} (h : Layout m l) (n : Nat) : Layout { m with allocatedSize := n } l :=
  ⟨h.chain, h.head, h.headers, h.tiled, h.aligned, h.pos, h.size_lt⟩

theorem used_lt {m : Allocator} (h : Layout m l) : used l < 2^64 := by
  have hle := used_le h.tiled
  have hlt := h.size_lt
  omega

/-- **`allocate`** hands out a part of a free chunk, or changes nothing. -/
theorem Inv.allocate (h : s.Inv l) {size : Nat} (hsize : size + headerSize + 15 < 2^64) :
    s.alloc.allocate size = some (s.alloc, none) ∨
    ∃ m data l', s.alloc.allocate size = some (m, some data) ∧
      Inv { s with alloc := m, live := ⟨data, size⟩ :: s.live } l' := by
  generalize hn : alignUp ((size + headerSize) % 2^64) ALIGNMENT = n
  have hn' : n = (size + headerSize + 15) / 16 * 16 := by
    rw [← hn, alignUp_eq, Nat.mod_eq_of_lt (show size + headerSize < 2^64 by omega), Nat.mod_eq_of_lt hsize]
  have h16 : 16 ∣ n := hn' ▸ Nat.dvd_mul_left _ _
  have hle : size + headerSize ≤ n := by omega
  have hpos : 0 < n := Nat.lt_of_lt_of_le (show 0 < size + headerSize by unfold headerSize; omega) hle
  have hfuel : l.length < s.alloc.nodes.fresh + 1 := Nat.lt_succ_of_le h.layout.length_le
  have hhead := h.layout.head
  rcases allocateFromList_run h16 hpos l [] _ h.layout hfuel with
    ⟨L, c, R, m, heq, ⟨hfree, hfit⟩, hrun, hsame, hlayout⟩ | ⟨hrun, -⟩
  · rw [← hhead] at hrun
    rw [List.nil_append] at heq
    subst heq
    refine .inr ⟨{ m with allocatedSize := (m.allocatedSize + n) % 2^64 }, c.off + headerSize,
      L ++ (c.taken n s.alloc.nodes.fresh ++ R), ?_, h.notStuck, layout_allocatedSize hlayout _, ?_, ?_, ?_, ?_⟩
    · unfold Allocator.allocate
      rw [hn]
      exact Option.bind_eq_some_iff.mpr ⟨_, hrun, rfl⟩
    · exact isChain_between h.coalesced.left_of_append (taken_isChain _ _ _)
        (List.isChain_cons.mp h.coalesced.right_of_append).2 (usedEnds_of_free h.coalesced hfree)
    · show (m.allocatedSize + n) % 2^64 = _
      have hused : used (L ++ (c.taken n s.alloc.nodes.fresh ++ R)) = m.allocatedSize + n := by
        rw [hsame.allocatedSize, h.allocated, used_free hfree, used_append, used_append, used_taken]
        omega
      rw [← hused]
      exact Nat.mod_eq_of_lt (used_lt hlayout)
    · intro b hb
      rcases List.mem_cons.mp hb with rfl | hb
      · obtain ⟨d, hd, hdfree, hdoff, hdsize⟩ := taken_front c n s.alloc.nodes.fresh
        refine ⟨d, List.mem_append_right _ (List.mem_append_left _ hd), hdfree, ?_, ?_⟩
        · rw [hdoff]
        · rw [hdsize]
          show headerSize + size ≤ n
          omega
      · obtain ⟨d, hd, hdfree, hrest⟩ := h.block b hb
        refine ⟨d, ?_, hdfree, hrest⟩
        rcases mem_cut.mp hd with rfl | hL | hR
        · rw [hfree] at hdfree
          cases hdfree
        · exact List.mem_append_left _ hL
        · exact List.mem_append_right _ (List.mem_append_right _ hR)
    · refine List.nodup_cons.mpr ⟨fun hin => ?_, h.once⟩
      obtain ⟨b, hb, hdata⟩ := List.mem_map.mp hin
      obtain ⟨d, hd, hdfree, hoff, -⟩ := h.block b hb
      -- a live block is no free chunk
      have hdata' : b.data = c.off + headerSize := hdata
      rcases apart_of_mem h.layout h.layout.mem hd with rfl | hdc | hcd
      · rw [hfree] at hdfree
        cases hdfree
      · unfold headerSize at *
        omega
      · unfold headerSize at *
        omega
  · refine .inl ?_
    rw [← hhead] at hrun
    unfold Allocator.allocate
    rw [hn]
    exact Option.bind_eq_some_iff.mpr ⟨_, hrun, rfl⟩

/-- **`coalesce`** merges a free chunk with its free neighbours. -/
theorem coalesce_run {m : Allocator} {L R : List Chunk} {c : Chunk} (h : Layout m (L ++ c :: R)) (hc : c.free = true)
    (hL : L.IsChain Separate) (hR : R.IsChain Separate) :
    ∃ m' L' x R', m.coalesce c.off = some m' ∧ Same m m' ∧ Layout m' (L' ++ x :: R') ∧ x.free = true ∧
      used L' = used L ∧ used R' = used R ∧ (∀ d ∈ L, d.free = false → d ∈ L') ∧
      (∀ d ∈ R, d.free = false → d ∈ R') ∧ (L' ++ x :: R').IsChain Separate := by
  have hlen : ∀ {m : Allocator} {L R : List Chunk} {c : Chunk}, Layout m (L ++ c :: R) →
      L.length < m.nodes.fresh + 1 ∧ R.length < m.nodes.fresh + 1 := by
    intro m L R c h
    have := h.length_le
    rw [List.length_append, List.length_cons] at this
    omega
  have hfind := findNode_run (R := R) (c := c) L [] (m.nodes.fresh + 1) h (hlen h).1
  obtain ⟨m1, hrun1, hsame1, -, h1⟩ := coalesceForward_run R m c _ h (hlen h).2
  obtain ⟨hnode1, hfree1, hmerges1⟩ := mergeForward_spec R c
  have hlen1 := (hlen h1).1
  have hrev : L = L.reverse.reverse := (List.reverse_reverse L).symm
  rw [hrev] at h1
  obtain ⟨m2, hrun2, hsame2, h2⟩ := coalesceBackwards_run L.reverse m1 (mergeForward c R).1 (m1.nodes.fresh + 1) h1
    (by rwa [List.length_reverse])
  rw [hnode1] at hrun2
  obtain ⟨hfree2, hmerges2⟩ := mergeBackwards_spec L.reverse (mergeForward c R).1 (hfree1.trans hc)
  refine ⟨m2, _, _, _, ?_, hsame1.trans hsame2, h2, hfree2, ?_, hmerges1.used, fun d hd hfree => ?_, hmerges1.keep, ?_⟩
  · unfold Allocator.coalesce
    rw [h.head]
    refine Option.bind_eq_some_iff.mpr ⟨_, hfind, ?_⟩
    exact Option.bind_eq_some_iff.mpr ⟨_, hrun1, hrun2⟩
  · rw [used_reverse, hmerges2.used, used_reverse]
  · exact List.mem_reverse.mpr (hmerges2.keep d (List.mem_reverse.mpr hd) hfree)
  · have hprefix : (mergeBackwards L.reverse (mergeForward c R).1).1.reverse <+: L := by
      rw [← List.reverse_suffix, List.reverse_reverse]
      exact hmerges2.suffix
    have hleft := hL.prefix hprefix
    refine isChain_between hleft (List.IsChain.singleton _) (hR.suffix hmerges1.suffix)
      ⟨fun d hd => ?_, hmerges1.head⟩
    rw [List.getLast?_reverse] at hd
    exact hmerges2.head d hd

/-- **`deallocate`** of a live block. -/
theorem Inv.deallocate (h : s.Inv l) {b : Block} (hb : b ∈ s.live) :
    ∃ m l', s.alloc.deallocate b.data = some m ∧
      Inv { s with alloc := m, live := s.live.filter fun b' => b'.data ≠ b.data } l' := by
  obtain ⟨c, hc, hfree, hdata, hsize⟩ := h.block b hb
  obtain ⟨L, R, rfl⟩ := List.append_of_mem hc
  -- the chunk is marked free
  let m1 : Allocator := { s.alloc.putHeader c.off ⟨c.size, true⟩ with
    allocatedSize := (s.alloc.allocatedSize + 2^64 - c.size) % 2^64 }
  have h1 : Layout m1 (L ++ { c with free := true } :: R) := layout_allocatedSize (h.layout.setFree true) _
  obtain ⟨m2, L', x, R', hrun, hsame, h2, hx, hL', hR', hkeepL, hkeepR, hchain⟩ :=
    coalesce_run h1 rfl h.coalesced.left_of_append (List.isChain_cons.mp h.coalesced.right_of_append).2
  refine ⟨m2, L' ++ x :: R', ?_, h.notStuck, h2, hchain, ?_, fun b' hb' => ?_, ?_⟩
  · unfold Allocator.deallocate
    rw [← hdata, Nat.add_sub_cancel]
    exact Option.bind_eq_some_iff.mpr ⟨_, h.layout.record, hrun⟩
  · rw [used_free hx, hL', hR']
    refine hsame.allocatedSize.trans ?_
    have hused : used (L ++ c :: R) = used L + (c.size + used R) := by
      rw [used_append, used_cons, hfree]
      rfl
    have hlt := used_lt h.layout
    show (s.alloc.allocatedSize + 2^64 - c.size) % 2^64 = used L + used R
    rw [h.allocated, hused, show used L + (c.size + used R) + 2^64 - c.size = used L + used R + 2^64 by omega,
      Nat.add_mod_right]
    exact Nat.mod_eq_of_lt (by omega)
  · obtain ⟨hlive, hne⟩ := List.mem_filter.mp hb'
    have hne' : b'.data ≠ b.data := of_decide_eq_true hne
    obtain ⟨d, hd, hdfree, hoff, hrest⟩ := h.block b' hlive
    refine ⟨d, ?_, hdfree, hoff, hrest⟩
    rcases mem_cut.mp hd with rfl | hL | hR
    · exact absurd (hoff.symm.trans hdata) hne'
    · exact List.mem_append_left _ (hkeepL d hL hdfree)
    · exact List.mem_append_right _ (List.mem_cons_of_mem _ (hkeepR d hR hdfree))
  · exact h.once.sublist ((List.filter_sublist).map Block.data)

/-- a write to a live block does not touch a header -/
theorem Inv.write (h : s.Inv l) {b : Block} (hb : b ∈ s.live) {x : Nat} (hx : b.data ≤ x)
    (hx' : x < b.data + s.payload b) (v : UInt8) :
    Inv { s with alloc := { s.alloc with memory := s.alloc.memory.putBytes headerSize x 1 fun _ => some v } } l := by
  have hrecord : ∀ c ∈ l, (s.alloc.memory.putBytes headerSize x 1 fun _ => some v).record c.off
      = s.alloc.memory.record c.off := by
    intro c hc
    have hout := h.sound.outside c hc b hb
    refine Memory.putBytes_record _ _ _ ?_
    unfold Apart at *
    omega
  have hl := h.layout
  exact ⟨h.notStuck, ⟨hl.chain, hl.head, fun c hc => (hrecord c hc).trans (hl.headers c hc), hl.tiled, hl.aligned,
    hl.pos, hl.size_lt⟩, h.coalesced, h.allocated, h.block, h.once⟩

theorem Inv.step (h : s.Inv l) {a : Action} (ht : s.step a = some t) : ∃ l', t.Inv l' := by
  unfold State.step at ht
  rw [if_neg (h.notStuck ▸ Bool.false_ne_true)] at ht
  cases a with
  | allocate size =>
    obtain ⟨hsize, ht⟩ := Option.ite_none_right_eq_some.mp ht
    rcases h.allocate hsize with hrun | ⟨m, data, l', hrun, hinv⟩
    · rw [hrun] at ht
      exact ⟨l, Option.some.inj ht ▸ h⟩
    · rw [hrun] at ht
      exact ⟨l', Option.some.inj ht ▸ hinv⟩
  | deallocate data =>
    obtain ⟨⟨b, hb, rfl⟩, ht⟩ := Option.ite_none_right_eq_some.mp ht
    obtain ⟨m, l', hrun, hinv⟩ := h.deallocate hb
    rw [hrun] at ht
    exact ⟨l', Option.some.inj ht ▸ hinv⟩
  | write x v =>
    obtain ⟨⟨b, hb, hx, hx'⟩, ht⟩ := Option.ite_none_right_eq_some.mp ht
    exact ⟨l, Option.some.inj ht ▸ h.write hb hx hx' v⟩

theorem init_inv {size : Nat} (h : headerSize < size) (hlt : size < 2^64) :
    (init size).Inv [⟨0, 0, size - headerSize, true⟩] := by
  have hpos : 0 < size - headerSize := Nat.sub_pos_of_lt h
  have hone : ∀ {P : Chunk → Prop}, P ⟨0, 0, size - headerSize, true⟩ →
      ∀ c ∈ [(⟨0, 0, size - headerSize, true⟩ : Chunk)], P c := fun hP c hc => List.mem_singleton.mp hc ▸ hP
  refine ⟨rfl, ⟨⟨?_, ?_, ?_, ?_⟩, rfl, hone (Memory.putRec_record_self _ _ _ _), ?_, hone (Nat.dvd_zero _), hone hpos,
    hlt⟩, List.IsChain.singleton _, rfl, fun b hb => (List.not_mem_nil hb).elim, List.nodup_nil⟩
  · exact ⟨rfl, trivial⟩
  · exact List.nodup_singleton _
  · intro c hc
    rw [List.mem_singleton.mp hc]
    exact Int.le_refl 0
  · intro c hc
    rw [List.mem_singleton.mp hc]
    exact Int.zero_lt_one
  · exact ⟨rfl, Nat.zero_add _⟩

end

/-! ## whole runs -/

/-- **The allocator**: after every step of a run from a region that has room for more than a header, there is a
list of chunks that meets all that is meant to hold. -/
theorem sound_run {size : Nat} (h : headerSize < size) (hlt : size < 2^64) (as : List Action) :
    Runs.Always step (fun s => ∃ l, s.Sound l) (init size) as := by
  refine Runs.always_of_inv (I := fun s => ∃ l, s.Inv l) ?_ ?_ as ⟨_, init_inv h hlt⟩
  · rintro s ⟨l, hl⟩
    exact ⟨l, hl.sound⟩
  · rintro s a t ⟨l, hl⟩ ht
    exact hl.step ht

/-- a run in a region of 100 bytes; the second split leaves a free chunk of four -/
def small : List Action := [.allocate 20, .allocate 1, .write 16 7, .deallocate 16, .allocate 40, .deallocate 64]

theorem small_sound : Runs.Always step (fun s => ∃ l, s.Sound l) (init 100) small :=
  sound_run (by decide) (by decide) small

example : (Runs.run step (init 100) small).map (fun s => s.live.map Block.data) = some [] := by decide +kernel

end State

end SharedMemoryAllocator
end Ipcpp
