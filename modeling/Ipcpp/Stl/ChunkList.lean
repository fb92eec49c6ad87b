import Ipcpp.Lib.Chunks
import Ipcpp.Stl.Allocator

/-!
# The node list of the pool

A `Chunk` is a node with its payload.  `Chunked p l`: the nodes of the pool `p` are the chunks `l`, in
order; they are linked to each other both ways from the list head on and tile the whole pool.  Nothing
is said about which of them are free: `takeNode`, `mergeForward` and `mergeBackward` are correct on every
such list.  `WellLinked p l` leaves out where the list head and the nodes are; a `Cut` and a `Zipper` say
the same about one chunk of the list and the two parts around it.

Every function is described by the list it leaves (`takeNode_run`, `allocateNode_run`,
`mergeForward_run`, `mergeBackward_run`, `deallocate_run`) and by a `Frame`: the node headers it wrote,
outside of which no byte has changed.
-/

namespace Ipcpp
namespace Stl
open Chunks

structure Chunk where
  off : Nat
  size : Nat
  free : Bool

namespace Chunk

def stop (c : Chunk) : Nat := c.off + nodeSize + c.size

def addr (c : Chunk) : Int := c.off

/-- the node of `c` stands in `m`, between `prev` and `next` -/
def Holds (m : Memory AllocatorListNode) (c : Chunk) (prev next : Int) : Prop :=
  m.record c.off = some ⟨c.size, next, prev, c.free⟩

theorem off_le_stop (c : Chunk) : c.off ≤ c.stop := by
  unfold stop
  omega

end Chunk

/-- the chunks of `l` are linked to each other, between `prev` and `next` -/
def Linked (m : Memory AllocatorListNode) (prev : Int) (l : List Chunk) (next : Int) : Prop :=
  Seg Chunk.addr (Chunk.Holds m) prev l next

structure Chunked (p : Pool) (l : List Chunk) : Prop where
  head : p.listHeadOffset = 0
  tiled : Tiled Chunk.off Chunk.stop 0 l (p.size - headerSize)
  linked : Linked p.memory invalidOffset l invalidOffset
  aligned : ∀ c ∈ l, 16 ∣ c.off

/-- what a function may have changed: the node headers at `hs` -/
structure Frame (p p' : Pool) (hs : List Nat) : Prop where
  size : p'.size = p.size
  head : p'.listHeadOffset = p.listHeadOffset
  headers : p'.headers = hs ++ p.headers
  elements : p'.elements = p.elements
  byte : ∀ x, (∀ a ∈ hs, x < a ∨ a + nodeSize ≤ x) → p'.memory.byte x = p.memory.byte x

theorem Frame.refl (p : Pool) : Frame p p [] := ⟨rfl, rfl, rfl, rfl, fun _ _ => rfl⟩

theorem frame_putNode (p : Pool) (a : Nat) (nd : AllocatorListNode) : Frame p (p.putNode a nd) [a] :=
  ⟨rfl, rfl, rfl, rfl, fun _ h => Memory.putRec_byte _ _ _ (h a List.mem_cons_self)⟩

theorem Frame.trans {p q r : Pool} {hs hs' : List Nat} (h : Frame p q hs) (h' : Frame q r hs') :
    Frame p r (hs' ++ hs) where
  size := h'.size.trans h.size
  head := h'.head.trans h.head
  headers := by rw [h'.headers, h.headers, List.append_assoc]
  elements := h'.elements.trans h.elements
  byte x hx := by
    rw [h'.byte x fun a ha => hx a (List.mem_append_left _ ha),
      h.byte x fun a ha => hx a (List.mem_append_right _ ha)]

/-! ## pointers and nodes -/

theorem offsetToPointer_nat {p : Pool} {a : Nat} (h : a ≤ p.size) :
    p.offsetToPointer (a : Int) = some a := by
  unfold Pool.offsetToPointer
  rw [if_neg (by omega), Int.toNat_natCast]

theorem offsetToPointer_invalid (p : Pool) : p.offsetToPointer invalidOffset = none := by
  simp [Pool.offsetToPointer, invalidOffset]

theorem pointerToOffset_nat {p : Pool} {a : Nat} (h : a ≤ p.size) :
    p.pointerToOffset (some a) = (a : Int) := by
  show (if a > p.size then invalidOffset else (a : Int)) = a
  rw [if_neg (by omega)]

theorem nat_ne_invalid (a : Nat) : (a : Int) ≠ invalidOffset := by
  unfold invalidOffset
  omega

theorem putNode_record_self (p : Pool) (a : Nat) (nd : AllocatorListNode) :
    (p.putNode a nd).memory.record a = some nd := Memory.putRec_record_self _ _ _ _

theorem putNode_record {p : Pool} {a b : Nat} (nd : AllocatorListNode)
    (h : b + nodeSize ≤ a ∨ a + nodeSize ≤ b) :
    (p.putNode a nd).memory.record b = p.memory.record b := by
  refine Memory.putRec_record_of_apart _ _ _ ?_ h
  unfold nodeSize at h
  omega

@[simp] theorem putNode_size (p : Pool) (a : Nat) (nd : AllocatorListNode) :
    (p.putNode a nd).size = p.size := rfl

@[simp] theorem putNode_head (p : Pool) (a : Nat) (nd : AllocatorListNode) :
    (p.putNode a nd).listHeadOffset = p.listHeadOffset := rfl

theorem readNode_run {p : Pool} {a : Nat} {n : AllocatorListNode} (h : p.memory.record a = some n) :
    (readNode a).run p = .ok n p := by
  unfold readNode
  rw [Prog.get_bind_run, h]
  rfl

theorem modifyNode_run {p : Pool} {a : Nat} {n : AllocatorListNode}
    (f : AllocatorListNode → AllocatorListNode) (h : p.memory.record a = some n) :
    (modifyNode a f).run p = .ok () (p.putNode a (f n)) := by
  unfold modifyNode
  rw [Prog.bind_ok (readNode_run h)]
  rfl

theorem deref_run {p : Pool} {off : Int} {a : Nat} (h : p.offsetToPointer off = some a) :
    (deref off).run p = .ok a p := by
  unfold deref
  rw [Prog.get_bind_run, h]
  rfl

theorem deref_nat {p : Pool} {a n : Nat} (h : a ≤ n) (hn : n = p.size := by rfl) :
    (deref (a : Int)).run p = .ok a p :=
  deref_run (offsetToPointer_nat (hn ▸ h))

theorem offsetOf_nat {p : Pool} {a n : Nat} (h : a ≤ n) (hn : n = p.size := by rfl) :
    (offsetOf (some a)).run p = .ok (a : Int) p := by
  unfold offsetOf
  rw [Prog.get_bind_run, pointerToOffset_nat (hn ▸ h)]
  rfl

theorem offsetOf_run (p : Pool) (a : Option Nat) : (offsetOf a).run p = .ok (p.pointerToOffset a) p := rfl

/-! ## cutting a list at one of its chunks -/

theorem Linked.mono {m m' : Memory AllocatorListNode} {prev next : Int} {l : List Chunk}
    (h : Linked m prev l next) (hm : ∀ c ∈ l, m'.record c.off = m.record c.off) :
    Linked m' prev l next :=
  Seg.mono h fun c hc _ _ hh => (hm c hc).trans hh

/-- the nodes of the pool are the chunks `l`: linked both ways and without a gap, wherever they are -/
structure WellLinked (p : Pool) (l : List Chunk) : Prop where
  tiled : Tiled Chunk.off Chunk.stop 0 l (p.size - headerSize)
  linked : Linked p.memory invalidOffset l invalidOffset

theorem Chunked.wellLinked {p : Pool} {l : List Chunk} (h : Chunked p l) : WellLinked p l := ⟨h.tiled, h.linked⟩

/-- a well linked list cut at one of its chunks -/
structure Cut (p : Pool) (L : List Chunk) (c : Chunk) (R : List Chunk) : Prop where
  left : Linked p.memory invalidOffset L c.off
  node : p.memory.record c.off
    = some ⟨c.size, first Chunk.addr invalidOffset R, last Chunk.addr invalidOffset L, c.free⟩
  right : Linked p.memory c.off R invalidOffset
  tiledLeft : Tiled Chunk.off Chunk.stop 0 L c.off
  tiledRight : Tiled Chunk.off Chunk.stop c.stop R (p.size - headerSize)

theorem wellLinked_iff_cut {p : Pool} {L : List Chunk} {c : Chunk} {R : List Chunk} :
    WellLinked p (L ++ c :: R) ↔ Cut p L c R := by
  constructor
  · rintro ⟨ht, hl⟩
    obtain ⟨hL, hc, hR⟩ := seg_append.mp hl
    obtain ⟨m, htL, htc, htR⟩ := tiled_append.mp ht
    rw [← htc] at htL
    exact ⟨hL, hc, hR, htL, htR⟩
  · intro h
    exact ⟨tiled_append.mpr ⟨c.off, h.tiledLeft, rfl, h.tiledRight⟩,
      seg_append.mpr ⟨h.left, h.node, h.right⟩⟩

/-- what a list says about one of its chunks and about the two parts around it -/
structure Zipper (p : Pool) (L : List Chunk) (c : Chunk) (R : List Chunk) : Prop where
  head : p.listHeadOffset = 0
  left : Linked p.memory invalidOffset L c.off
  node : p.memory.record c.off
    = some ⟨c.size, first Chunk.addr invalidOffset R, last Chunk.addr invalidOffset L, c.free⟩
  right : Linked p.memory c.off R invalidOffset
  tiledLeft : Tiled Chunk.off Chunk.stop 0 L c.off
  tiledRight : Tiled Chunk.off Chunk.stop c.stop R (p.size - headerSize)
  alignedLeft : ∀ d ∈ L, 16 ∣ d.off
  aligned : 16 ∣ c.off
  alignedRight : ∀ d ∈ R, 16 ∣ d.off

theorem Zipper.cut {p : Pool} {L : List Chunk} {c : Chunk} {R : List Chunk} (h : Zipper p L c R) : Cut p L c R :=
  ⟨h.left, h.node, h.right, h.tiledLeft, h.tiledRight⟩

theorem chunked_iff_zipper {p : Pool} {L : List Chunk} {c : Chunk} {R : List Chunk} :
    Chunked p (L ++ c :: R) ↔ Zipper p L c R := by
  constructor
  · intro h
    obtain ⟨hL, hc, hR, htL, htR⟩ := wellLinked_iff_cut.mp h.wellLinked
    have hmid : ∀ d, d ∈ L ∨ d = c ∨ d ∈ R → 16 ∣ d.off := by
      intro d hd
      refine h.aligned d ?_
      simpa using hd
    exact ⟨h.head, hL, hc, hR, htL, htR, fun d hd => hmid d (.inl hd), hmid c (.inr (.inl rfl)),
      fun d hd => hmid d (.inr (.inr hd))⟩
  · intro h
    obtain ⟨ht, hl⟩ := wellLinked_iff_cut.mpr h.cut
    refine ⟨h.head, ht, hl, ?_⟩
    intro d hd
    rcases List.mem_append.mp hd with hd | hd
    · exact h.alignedLeft d hd
    · rcases List.mem_cons.mp hd with rfl | hd
      · exact h.aligned
      · exact h.alignedRight d hd

section
variable {p : Pool} {L : List Chunk} {c : Chunk} {R : List Chunk}

section
variable (h : Cut p L c R)
include h

theorem Cut.left_stop {d : Chunk} (hd : d ∈ L) : d.off + nodeSize + d.size ≤ c.off :=
  (h.tiledLeft.bounds Chunk.off_le_stop hd).2

theorem Cut.right_start {d : Chunk} (hd : d ∈ R) : c.off + nodeSize + c.size ≤ d.off :=
  (h.tiledRight.bounds Chunk.off_le_stop hd).1

theorem Cut.stop_le : c.off + nodeSize + c.size ≤ p.size - headerSize :=
  h.tiledRight.le Chunk.off_le_stop

theorem Cut.right_le {d : Chunk} (hd : d ∈ R) : d.off + nodeSize + d.size ≤ p.size - headerSize :=
  (h.tiledRight.bounds Chunk.off_le_stop hd).2

theorem Cut.off_le : c.off ≤ p.size := by
  have := h.stop_le
  omega

end

section
variable (h : Zipper p L c R)
include h

theorem Zipper.left_stop {d : Chunk} (hd : d ∈ L) : d.off + nodeSize + d.size ≤ c.off := h.cut.left_stop hd

theorem Zipper.right_start {d : Chunk} (hd : d ∈ R) : c.off + nodeSize + c.size ≤ d.off := h.cut.right_start hd

theorem Zipper.stop_le : c.off + nodeSize + c.size ≤ p.size - headerSize := h.cut.stop_le

theorem Zipper.right_le {d : Chunk} (hd : d ∈ R) : d.off + nodeSize + d.size ≤ p.size - headerSize :=
  h.cut.right_le hd

theorem Zipper.off_le : c.off ≤ p.size := h.cut.off_le

end

end

/-! ## the first node behind a chunk gets a new predecessor -/

/-- `p` with the previous link of the first chunk of `R` set to `x` -/
def fixPrev (p : Pool) (x : Int) : List Chunk → Pool
  | [] => p
  | d :: R => p.putNode d.off ⟨d.size, first Chunk.addr invalidOffset R, x, d.free⟩

theorem fixPrev_frame (p : Pool) (x : Int) (R : List Chunk) :
    Frame p (fixPrev p x R) (R.head?.map Chunk.off).toList := by
  cases R with
  | nil => exact Frame.refl p
  | cons d R => exact frame_putNode p _ _

/-- only the first node of `R` is written -/
theorem fixPrev_record_head {p : Pool} {b : Nat} (x : Int) {R : List Chunk}
    (h : ∀ d ∈ R.head?, b + nodeSize ≤ d.off ∨ d.off + nodeSize ≤ b) :
    (fixPrev p x R).memory.record b = p.memory.record b := by
  cases R with
  | nil => rfl
  | cons d R => exact putNode_record _ (h d rfl)

theorem fixPrev_record {p : Pool} {b : Nat} (x : Int) {R : List Chunk}
    (h : ∀ d ∈ R, b + nodeSize ≤ d.off ∨ d.off + nodeSize ≤ b) :
    (fixPrev p x R).memory.record b = p.memory.record b :=
  fixPrev_record_head x fun d hd => h d (List.mem_of_mem_head? hd)

theorem fixPrev_linked {p : Pool} {a b : Nat} {prev : Int} (x : Int) {R : List Chunk}
    (h : Linked p.memory prev R invalidOffset) (ht : Tiled Chunk.off Chunk.stop a R b) :
    Linked (fixPrev p x R).memory x R invalidOffset := by
  cases R with
  | nil => trivial
  | cons d R =>
    refine ⟨putNode_record_self _ _ _, Linked.mono h.2 fun e he => putNode_record _ (.inr ?_)⟩
    have := (ht.2.bounds Chunk.off_le_stop he).1
    unfold Chunk.stop at this
    omega

/-- setting the previous link of the node that `nextOffset` leads to -/
theorem modifyNext_run {p : Pool} {prev : Int} (x : Int) {R : List Chunk}
    (h : Linked p.memory prev R invalidOffset) (hle : ∀ d ∈ R, d.off ≤ p.size) :
    (if first Chunk.addr invalidOffset R ≠ invalidOffset then (do
        let nextNode ← deref (first Chunk.addr invalidOffset R)
        modifyNode nextNode fun nd => { nd with prevOffset := x })
      else pure () : PoolM Unit).run p = .ok () (fixPrev p x R) := by
  cases R with
  | nil => rfl
  | cons d R =>
    have hd : first Chunk.addr invalidOffset (d :: R) = (d.off : Int) := rfl
    rw [hd, if_pos (nat_ne_invalid d.off),
      Prog.bind_ok (deref_run (offsetToPointer_nat (hle d List.mem_cons_self))),
      modifyNode_run _ h.1]
    rfl

/-! ## using a node -/

theorem insertNode_run {p : Pool} {node new newSize : Nat} {nd : AllocatorListNode} {R : List Chunk}
    (hnode : p.memory.record node = some nd) (hnext : nd.nextOffset = first Chunk.addr invalidOffset R)
    (hR : Linked p.memory node R invalidOffset) (hle : ∀ d ∈ R, d.off ≤ p.size) (hnode' : node ≤ p.size)
    (hnew : new ≤ p.size) (hnn : node + nodeSize ≤ new) (hnR : ∀ d ∈ R, new + nodeSize ≤ d.off) :
    (insertNode node new newSize).run p = .ok ()
      (fixPrev ((p.putNode node { nd with nextOffset := new }).putNode new
        ⟨newSize, first Chunk.addr invalidOffset R, node, true⟩) new R) := by
  refine (Prog.bind_ok (readNode_run hnode)).trans ?_
  refine (Prog.bind_ok (modifyNode_run _ hnode)).trans ?_
  refine (Prog.bind_ok (deref_nat hnew)).trans ?_
  refine (Prog.bind_ok (offsetOf_nat hnode')).trans ?_
  refine (Prog.modify_bind_run _ _ _).trans ?_
  rw [hnext]
  refine modifyNext_run new (hR.mono fun d hd => ?_) hle
  have := hnR d hd
  rw [putNode_record _ (.inr (by omega)), putNode_record _ (.inr (by omega))]

/-- what becomes of a chunk that is used for `bytes` bytes -/
def Chunk.taken (c : Chunk) (bytes : Nat) : List Chunk :=
  if c.size - bytes > nodeSize then
    [⟨c.off, bytes, false⟩, ⟨c.off + nodeSize + bytes, c.size - bytes - nodeSize, true⟩]
  else [⟨c.off, c.size, false⟩]

/-- the size of the block that is handed out -/
def Chunk.takenSize (c : Chunk) (bytes : Nat) : Nat :=
  if c.size - bytes > nodeSize then bytes else c.size

def splitPool (p : Pool) (L : List Chunk) (c : Chunk) (R : List Chunk) (bytes : Nat) : Pool :=
  let new := c.off + nodeSize + bytes
  let next := first Chunk.addr invalidOffset R
  let prev := last Chunk.addr invalidOffset L
  (fixPrev (((p.putNode c.off ⟨c.size, next, prev, false⟩).putNode c.off ⟨c.size, new, prev, false⟩).putNode
    new ⟨c.size - bytes - nodeSize, next, c.off, true⟩) new R).putNode c.off ⟨bytes, new, prev, false⟩

section
variable {p : Pool} {L : List Chunk} {c : Chunk} {R : List Chunk} {bytes : Nat}

theorem takeNode_split (h : Zipper p L c R) (hsplit : c.size - bytes > nodeSize) :
    (takeNode c.off bytes).run p = .ok bytes (splitPool p L c R bytes) := by
  have hstop := h.stop_le
  have hR : ∀ d ∈ R, c.off + nodeSize + bytes + nodeSize ≤ d.off := by
    intro d hd
    have := h.right_start hd
    omega
  refine (Prog.bind_ok (modifyNode_run _ h.node)).trans ?_
  refine (Prog.bind_ok (readNode_run (putNode_record_self _ _ _))).trans ?_
  rw [if_pos hsplit]
  refine (Prog.bind_ok (offsetOf_nat h.off_le)).trans ?_
  have hcast : (c.off : Int) + nodeSize + bytes = ((c.off + nodeSize + bytes : Nat) : Int) := by
    push_cast
    rfl
  rw [hcast]
  refine (Prog.bind_ok (insertNode_run (putNode_record_self _ _ _) rfl
    (h.right.mono fun d hd => putNode_record _ (.inr ?_)) (fun d hd => ?_) h.off_le ?_ ?_ hR)).trans ?_
  · have := hR d hd
    omega
  · have := h.right_le hd
    show d.off ≤ p.size
    omega
  · show c.off + nodeSize + bytes ≤ p.size
    omega
  · omega
  refine (Prog.bind_ok (modifyNode_run
    (n := ⟨c.size, ((c.off + nodeSize + bytes : Nat) : Int), last Chunk.addr invalidOffset L, false⟩)
    _ ?_)).trans ?_
  · rw [fixPrev_record, putNode_record _ (.inl (by omega)), putNode_record_self]
    intro d hd
    have := hR d hd
    omega
  · refine (Prog.bind_ok (readNode_run (putNode_record_self _ _ _))).trans ?_
    rfl

theorem splitPool_frame (p : Pool) (L : List Chunk) (c : Chunk) (R : List Chunk) (bytes : Nat) :
    Frame p (splitPool p L c R bytes)
      ([c.off] ++ ((R.head?.map Chunk.off).toList ++ ([c.off + nodeSize + bytes] ++ ([c.off] ++ [c.off])))) :=
  ((((frame_putNode _ _ _).trans (frame_putNode _ _ _)).trans (frame_putNode _ _ _)).trans
    (fixPrev_frame _ _ _)).trans (frame_putNode _ _ _)

/-- a split writes the node of `c`, the new node and the first node of `R` -/
theorem splitPool_record {b : Nat} (h1 : b + nodeSize ≤ c.off ∨ c.off + nodeSize ≤ b)
    (h2 : b + nodeSize ≤ c.off + nodeSize + bytes ∨ c.off + nodeSize + bytes + nodeSize ≤ b)
    (h3 : ∀ d ∈ R.head?, b + nodeSize ≤ d.off ∨ d.off + nodeSize ≤ b) :
    (splitPool p L c R bytes).memory.record b = p.memory.record b := by
  rw [splitPool, putNode_record _ h1, fixPrev_record_head _ h3, putNode_record _ h2, putNode_record _ h1,
    putNode_record _ h1]

theorem splitPool_chunked (h : Zipper p L c R) (hb : bytes ≤ c.size) (h16 : 16 ∣ bytes)
    (hsplit : c.size - bytes > nodeSize) :
    Chunked (splitPool p L c R bytes)
      (L ++ ⟨c.off, bytes, false⟩ ::
        ⟨c.off + nodeSize + bytes, c.size - bytes - nodeSize, true⟩ :: R) := by
  have hstop := h.stop_le
  have hR : ∀ d ∈ R, c.off + nodeSize + bytes + nodeSize ≤ d.off := by
    intro d hd
    have := h.right_start hd
    omega
  have hframe := splitPool_frame p L c R bytes
  refine chunked_iff_zipper.mpr ⟨hframe.head.trans h.head, ?_, ?_, ⟨?_, ?_⟩, h.tiledLeft, ⟨rfl, ?_⟩,
    h.alignedLeft, h.aligned, ?_⟩
  · refine h.left.mono fun d hd => splitPool_record ?_ ?_ fun e he => ?_
    · have := h.left_stop hd
      omega
    · have := h.left_stop hd
      omega
    · have := h.left_stop hd
      have := hR e (List.mem_of_mem_head? he)
      omega
  · exact putNode_record_self _ _ _
  · show (splitPool p L c R bytes).memory.record (c.off + nodeSize + bytes) = _
    rw [splitPool, putNode_record _ (.inr (by omega)), fixPrev_record _ fun d hd => .inl (hR d hd),
      putNode_record_self]
  · refine Linked.mono ?_ fun d hd => putNode_record _ (.inr ?_)
    · refine fixPrev_linked _ (h.right.mono fun d hd => ?_) h.tiledRight
      have := hR d hd
      rw [putNode_record _ (.inr (by omega)), putNode_record _ (.inr (by omega)),
        putNode_record _ (.inr (by omega))]
    · have := hR d hd
      omega
  · have hstop' : c.off + nodeSize + bytes + nodeSize + (c.size - bytes - nodeSize) = c.stop := by
      unfold Chunk.stop
      omega
    show Tiled _ _ (c.off + nodeSize + bytes + nodeSize + (c.size - bytes - nodeSize)) R _
    rw [hstop', hframe.size]
    exact h.tiledRight
  · intro d hd
    rcases List.mem_cons.mp hd with rfl | hd
    · exact Nat.dvd_add (Nat.dvd_add h.aligned (by decide)) h16
    · exact h.alignedRight d hd

theorem takeNode_whole (h : Zipper p L c R) (hsplit : ¬ c.size - bytes > nodeSize) :
    (takeNode c.off bytes).run p = .ok c.size
      (p.putNode c.off
        ⟨c.size, first Chunk.addr invalidOffset R, last Chunk.addr invalidOffset L, false⟩) := by
  refine (Prog.bind_ok (modifyNode_run _ h.node)).trans ?_
  refine (Prog.bind_ok (readNode_run (putNode_record_self _ _ _))).trans ?_
  rw [if_neg hsplit]
  refine (Prog.bind_ok (readNode_run (putNode_record_self _ _ _))).trans ?_
  rfl

/-- writing the node of `c` anew, with other size and state but in the same place -/
theorem Zipper.putNode (h : Zipper p L c R) {d : Chunk} (hoff : d.off = c.off) (hstop : d.stop = c.stop) :
    Chunked (p.putNode c.off
      ⟨d.size, first Chunk.addr invalidOffset R, last Chunk.addr invalidOffset L, d.free⟩)
      (L ++ d :: R) := by
  have hrec : ∀ e, e ∈ L ∨ e ∈ R → (p.putNode c.off
      ⟨d.size, first Chunk.addr invalidOffset R, last Chunk.addr invalidOffset L, d.free⟩).memory.record
        e.off = p.memory.record e.off := by
    rintro e (he | he)
    · have := h.left_stop he
      exact putNode_record _ (.inl (by omega))
    · have := h.right_start he
      exact putNode_record _ (.inr (by omega))
  refine chunked_iff_zipper.mpr ⟨h.head, ?_, ?_, ?_, ?_, ?_, h.alignedLeft, hoff ▸ h.aligned,
    h.alignedRight⟩
  · rw [hoff]
    exact h.left.mono fun e he => hrec e (.inl he)
  · rw [hoff]
    exact putNode_record_self _ _ _
  · rw [hoff]
    exact h.right.mono fun e he => hrec e (.inr he)
  · rw [hoff]
    exact h.tiledLeft
  · rw [hstop]
    exact h.tiledRight

theorem takeNode_run (h : Zipper p L c R) (hb : bytes ≤ c.size) (h16 : 16 ∣ bytes) :
    ∃ p' hs, (takeNode c.off bytes).run p = .ok (c.takenSize bytes) p' ∧ Frame p p' hs ∧
      (∀ a ∈ hs, ∃ d ∈ L ++ (c.taken bytes ++ R), d.off = a) ∧
      Chunked p' (L ++ (c.taken bytes ++ R)) := by
  by_cases hsplit : c.size - bytes > nodeSize
  · have htaken : c.taken bytes = [⟨c.off, bytes, false⟩,
        ⟨c.off + nodeSize + bytes, c.size - bytes - nodeSize, true⟩] := if_pos hsplit
    rw [htaken, Chunk.takenSize, if_pos hsplit]
    refine ⟨_, _, takeNode_split h hsplit, splitPool_frame p L c R bytes, ?_,
      splitPool_chunked h hb h16 hsplit⟩
    intro a ha
    simp only [List.mem_append, List.mem_singleton, Option.mem_toList,
      Option.map_eq_some_iff] at ha
    rcases ha with rfl | ⟨d, hd, rfl⟩ | rfl | rfl | rfl
    · exact ⟨⟨c.off, bytes, false⟩, by simp, rfl⟩
    · exact ⟨d, by simp [List.mem_of_mem_head? hd], rfl⟩
    · exact ⟨⟨c.off + nodeSize + bytes, c.size - bytes - nodeSize, true⟩, by simp, rfl⟩
    · exact ⟨⟨c.off, bytes, false⟩, by simp, rfl⟩
    · exact ⟨⟨c.off, bytes, false⟩, by simp, rfl⟩
  · have htaken : c.taken bytes = [⟨c.off, c.size, false⟩] := if_neg hsplit
    rw [htaken, Chunk.takenSize, if_neg hsplit]
    refine ⟨_, _, takeNode_whole h hsplit, frame_putNode _ _ _, ?_,
      h.putNode (d := ⟨c.off, c.size, false⟩) rfl rfl⟩
    intro a ha
    exact ⟨⟨c.off, c.size, false⟩, by simp, (List.mem_singleton.mp ha).symm⟩

end

/-! ## the search for a node -/

def Chunk.Fits (c : Chunk) (bytes : Nat) : Prop := c.free = true ∧ bytes ≤ c.size

/-- the chunks `l` after an allocation of `bytes` bytes from `L ++ c :: R`, the first that fits is `c` -/
structure FirstFit (l : List Chunk) (bytes : Nat) (L : List Chunk) (c : Chunk) (R : List Chunk) : Prop where
  eq : l = L ++ c :: R
  fits : c.Fits bytes
  first : ∀ d ∈ L, ¬ d.Fits bytes

/-- what an allocation does to the pool -/
structure Allocates (p : Pool) (l : List Chunk) (bytes : Nat) (L : List Chunk) (c : Chunk)
    (R : List Chunk) (p' : Pool) (hs : List Nat) : Prop where
  fit : FirstFit l bytes L c R
  frame : Frame p p' hs
  written : ∀ a ∈ hs, ∃ d ∈ L ++ (c.taken bytes ++ R), d.off = a
  chunked : Chunked p' (L ++ (c.taken bytes ++ R))

theorem not_fits_append {S : List Chunk} {c : Chunk} {bytes : Nat} (hS : ∀ d ∈ S, ¬ d.Fits bytes)
    (hc : ¬ c.Fits bytes) : ∀ d ∈ S ++ [c], ¬ d.Fits bytes := by
  intro d hd
  rcases List.mem_append.mp hd with hd | hd
  · exact hS d hd
  · exact List.mem_singleton.mp hd ▸ hc

/-- the loop at a node that fits -/
theorem allocateLoop_fits {p : Pool} {S : List Chunk} {c : Chunk} {R : List Chunk} {bytes : Nat}
    (h : Zipper p S c R) (h16 : 16 ∣ bytes) (hS : ∀ d ∈ S, ¬ d.Fits bytes) (hc : c.Fits bytes)
    (fuel : Nat) :
    ∃ p' hs, (allocateLoop bytes (fuel + 1) c.off).run p = .ok (c.off, c.takenSize bytes) p' ∧
      Allocates p (S ++ c :: R) bytes S c R p' hs := by
  obtain ⟨p', hs, hrun, hframe, hwritten, hchunked⟩ := takeNode_run h hc.2 h16
  refine ⟨p', hs, ?_, ⟨rfl, hc, hS⟩, hframe, hwritten, hchunked⟩
  refine (Prog.bind_ok (readNode_run h.node)).trans ?_
  rw [if_pos (show c.free = true ∧ c.size ≥ bytes from hc)]
  exact (Prog.bind_ok hrun).trans rfl

/-- the loop, from a node with the chunks `S` before it and `c :: R` from it on -/
theorem allocateLoop_run {p : Pool} {bytes : Nat} (h16 : 16 ∣ bytes) (R : List Chunk) :
    ∀ (S : List Chunk) (c : Chunk) (fuel : Nat), Chunked p (S ++ c :: R) → R.length ≤ fuel →
      (∀ d ∈ S, ¬ d.Fits bytes) →
      (∃ L d R' p' hs, (allocateLoop bytes (fuel + 1) c.off).run p = .ok (d.off, d.takenSize bytes) p' ∧
        Allocates p (S ++ c :: R) bytes L d R' p' hs) ∨
      ((allocateLoop bytes (fuel + 1) c.off).run p = .throw .badAlloc p ∧
        ∀ d ∈ S ++ c :: R, ¬ d.Fits bytes) := by
  induction R with
  | nil =>
    intro S c fuel h _ hS
    have hz := chunked_iff_zipper.mp h
    by_cases hc : c.Fits bytes
    · obtain ⟨p', hs, hrun, hall⟩ := allocateLoop_fits hz h16 hS hc fuel
      exact .inl ⟨S, c, [], p', hs, hrun, hall⟩
    · refine .inr ⟨?_, not_fits_append hS hc⟩
      refine (Prog.bind_ok (readNode_run hz.node)).trans ?_
      rw [if_neg (show ¬ (c.free = true ∧ c.size ≥ bytes) from hc),
        if_pos (show first Chunk.addr invalidOffset ([] : List Chunk) = invalidOffset from rfl)]
      rfl
  | cons e R ih =>
    intro S c fuel h hfuel hS
    have hz := chunked_iff_zipper.mp h
    by_cases hc : c.Fits bytes
    · obtain ⟨p', hs, hrun, hall⟩ := allocateLoop_fits hz h16 hS hc fuel
      exact .inl ⟨S, c, e :: R, p', hs, hrun, hall⟩
    · obtain ⟨f, rfl⟩ : ∃ f, fuel = f + 1 := ⟨fuel - 1, by simp at hfuel; omega⟩
      have hnext : (allocateLoop bytes (f + 1 + 1) c.off).run p
          = (allocateLoop bytes (f + 1) e.off).run p := by
        refine (Prog.bind_ok (readNode_run hz.node)).trans ?_
        rw [if_neg (show ¬ (c.free = true ∧ c.size ≥ bytes) from hc),
          if_neg (show (first Chunk.addr invalidOffset (e :: R) ≠ invalidOffset) from nat_ne_invalid e.off)]
        refine (Prog.bind_ok (deref_nat (a := e.off) ?_)).trans rfl
        have := hz.right_le (List.mem_cons_self (a := e) (l := R))
        omega
      rw [hnext]
      have hlist : S ++ c :: e :: R = (S ++ [c]) ++ e :: R := by simp
      rw [hlist]
      exact ih (S ++ [c]) e f (hlist ▸ h) (by simp at hfuel; omega) (not_fits_append hS hc)

/-- a pool cannot have more chunks than bytes -/
theorem WellLinked.length_lt {p : Pool} {l : List Chunk} (h : WellLinked p l) (hp : headerSize ≤ p.size) :
    l.length < p.size := by
  have hlen : ∀ (l : List Chunk) (a b : Nat), Tiled Chunk.off Chunk.stop a l b → a + l.length ≤ b := by
    intro l
    induction l with
    | nil => exact fun a b ht => Nat.le_of_eq ht
    | cons c l ih =>
      intro a b ht
      have h1 := ih _ _ ht.2
      have h2 := ht.1
      unfold Chunk.stop nodeSize at h1
      rw [List.length_cons]
      omega
  have h1 := hlen l _ _ h.tiled
  unfold headerSize at h1 hp
  omega

theorem Chunked.length_lt {p : Pool} {l : List Chunk} (h : Chunked p l) (hp : headerSize ≤ p.size) :
    l.length < p.size := h.wellLinked.length_lt hp

/-- the first chunk of a pool is at its start -/
theorem Chunked.exists_first {p : Pool} {l : List Chunk} (h : Chunked p l) (hp : headerSize + nodeSize ≤ p.size) :
    ∃ c R, l = c :: R ∧ c.off = 0 := by
  cases l with
  | nil =>
    have hend := h.tiled
    unfold headerSize nodeSize at *
    simp only [tiled_nil] at hend
    omega
  | cons c R => exact ⟨c, R, rfl, h.tiled.1⟩

/-- **Allocation is first fit**: it uses the first chunk that is free and large enough, or throws
without having touched anything if there is none. -/
theorem allocateNode_run {p : Pool} {l : List Chunk} {bytes : Nat} (h : Chunked p l)
    (hp : headerSize + nodeSize ≤ p.size) (h16 : 16 ∣ bytes) :
    (∃ L c R p' hs, (allocateNode bytes).run p = .ok (c.off, c.takenSize bytes) p' ∧
      Allocates p l bytes L c R p' hs) ∨
    ((allocateNode bytes).run p = .throw .badAlloc p ∧ ∀ d ∈ l, ¬ d.Fits bytes) := by
  have hlen := h.length_lt (by omega)
  obtain ⟨c, R, rfl, h0⟩ := h.exists_first hp
  have hstart : (allocateNode bytes).run p = (allocateLoop bytes p.size c.off).run p := by
    unfold allocateNode
    rw [Prog.get_bind_run, h.head, h0]
    exact Prog.bind_ok (deref_nat (a := 0) (Nat.zero_le _))
  obtain ⟨f, hf⟩ : ∃ f, p.size = f + 1 := ⟨p.size - 1, by omega⟩
  rw [hstart, hf]
  exact allocateLoop_run h16 R [] c f h (by rw [List.length_cons] at hlen; omega) (by simp)

end Stl
end Ipcpp
