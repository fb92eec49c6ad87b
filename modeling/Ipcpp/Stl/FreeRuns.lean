import Mathlib
import Ipcpp.Stl.Blocks

/-!
# Runs of free chunks

A block is given back to a pool with any well linked node list: neighbours may both be free already, and
nothing is said about how the nodes are aligned.  `merges_run`: the longest run of free chunks around the
block becomes the one free chunk that `Joins` it, and of the rest only the previous link of the next node
changes (`KeepsOutside`).
-/

namespace Ipcpp
namespace Stl
open Chunks

/-- `run` is the longest run of free chunks around `c`, once `c` is free -/
structure RunAround (l L run R : List Chunk) (c : Chunk) : Prop where
  eq : l = L ++ run ++ R
  mem : c ∈ run
  free : ∀ d ∈ run, d = c ∨ d.free = true
  left : ∀ d ∈ L.getLast?, d.free = false
  right : ∀ d ∈ R.head?, d.free = false

/-- `d` is free, begins where `run` begins, and has the payloads of `run` and all its headers but one -/
structure Joins (run : List Chunk) (d : Chunk) : Prop where
  free : d.free = true
  off_mem : ∃ e ∈ run, e.off = d.off
  off_le : ∀ e ∈ run, d.off ≤ e.off
  size_eq : d.size = (run.map Chunk.size).sum + nodeSize * (run.length - 1)

/-- around `d`, `p'` differs from `p` in the previous link of the first chunk of `R` only -/
structure KeepsOutside (p p' : Pool) (L : List Chunk) (d : Chunk) (R : List Chunk) : Prop where
  size : p'.size = p.size
  head : p'.listHeadOffset = p.listHeadOffset
  left : ∀ e ∈ L, p'.memory.record e.off = p.memory.record e.off
  next : ∀ e ∈ R.head?, p'.memory.record e.off
    = (p.memory.record e.off).map fun nd => { nd with prevOffset := d.off }
  right : ∀ e ∈ R.tail, p'.memory.record e.off = p.memory.record e.off
  byte : ∀ x, x < d.off ∨ d.stop ≤ x → (∀ e ∈ R.head?, x < e.off ∨ e.off + nodeSize ≤ x) →
    p'.memory.byte x = p.memory.byte x

theorem total_eq (l : List Chunk) : total l = (l.map Chunk.size).sum + nodeSize * l.length := by
  induction l with
  | nil => rfl
  | cons c l ih =>
    rw [total_cons, ih, List.map_cons, List.sum_cons, List.length_cons, Nat.mul_succ]
    omega

theorem joins_of_tiled {a b : Nat} {y : Chunk} {T : List Chunk} (h : Tiled Chunk.off Chunk.stop a (y :: T) b) :
    Joins (y :: T) ⟨y.off, y.size + total T, true⟩ where
  free := rfl
  off_mem := ⟨y, List.mem_cons_self, rfl⟩
  off_le e he := by
    have hy : y.off = a := h.1
    have he := (h.bounds Chunk.off_le_stop he).1
    show y.off ≤ e.off
    omega
  size_eq := by
    show y.size + total T = _
    rw [total_eq, List.map_cons, List.sum_cons, List.length_cons, Nat.add_sub_cancel]
    omega

theorem Linked.record_eq {m m' : Memory AllocatorListNode} {prev next : Int} {l : List Chunk}
    (h : Linked m prev l next) (h' : Linked m' prev l next) {e : Chunk} (he : e ∈ l) :
    m'.record e.off = m.record e.off := by
  obtain ⟨_, _, hm, hm'⟩ := Seg.links h h' he
  exact hm'.trans hm.symm

/-- what both lists say about the chunks around `y :: T`, and the frame of the step, leave no more -/
theorem keepsOutside {p p' : Pool} {hs : List Nat} {L : List Chunk} {y : Chunk} {T R : List Chunk} {d : Chunk}
    (h : Cut p L y (T ++ R)) (h' : Cut p' L d R) (hframe : Frame p p' hs) (hoff : d.off = y.off)
    (hT : Tiled Chunk.off Chunk.stop y.off (y :: T) d.stop)
    (hwritten : ∀ a ∈ hs, (∃ e ∈ y :: T, e.off = a) ∨ ∃ e ∈ R.head?, e.off = a) : KeepsOutside p p' L d R where
  size := hframe.size
  head := hframe.head
  left e he := h.left.record_eq (hoff ▸ h'.left) he
  next e he := by
    obtain ⟨-, hR⟩ := seg_append.mp h.right
    cases R with
    | nil => cases he
    | cons e' R =>
      obtain rfl := Option.some.inj he
      rw [h'.right.1, hR.1]
      rfl
  right e he := by
    obtain ⟨-, hR⟩ := seg_append.mp h.right
    cases R with
    | nil => cases he
    | cons e' R => exact Linked.record_eq hR.2 h'.right.2 he
  byte x hx hnext := by
    refine hframe.byte x fun a ha => ?_
    rcases hwritten a ha with ⟨e, he, rfl⟩ | ⟨e, he, rfl⟩
    · obtain ⟨h1, h2⟩ := hT.bounds Chunk.off_le_stop he
      unfold Chunk.stop at h2 hx
      omega
    · exact hnext e he

/-- **Giving a block back merges the longest run of free chunks around it**, in every well linked pool and
for runs of any length on both sides. -/
theorem merges_run {p : Pool} {l : List Chunk} {c : Chunk} (h : WellLinked p l) (hc : c ∈ l) :
    ∃ L run R d p', RunAround l L run R c ∧ Joins run d ∧ (deallocate (c.off + nodeSize)).run p = .ok () p' ∧
      WellLinked p' (L ++ d :: R) ∧ KeepsOutside p p' L d R := by
  obtain ⟨X, Y, rfl⟩ := List.append_of_mem hc
  obtain ⟨L, B, rfl, hB, hL⟩ := split_left X
  obtain ⟨F, R, rfl, hF, hR⟩ := split_right Y
  obtain ⟨y, T, hy⟩ : ∃ y T, B ++ c :: F = y :: T := List.exists_cons_of_ne_nil (by simp)
  obtain ⟨p', hs, hrun, hframe, hwritten, hlinked⟩ := (wellLinked_iff_cut.mp h).deallocate hB hF hL hR hy
  have hlist : (L ++ B) ++ c :: (F ++ R) = L ++ y :: (T ++ R) := by
    rw [← List.cons_append, ← List.cons_append, ← hy]
    simp only [List.append_assoc]
  have hcut : Cut p L y (T ++ R) := wellLinked_iff_cut.mp (hlist ▸ h)
  obtain ⟨m, hT, -⟩ := tiled_append.mp hcut.tiledRight
  have hstop := stop_of_tiled true hT
  have hrunTiled : Tiled Chunk.off Chunk.stop y.off (y :: T) m := ⟨rfl, hT⟩
  refine ⟨L, y :: T, R, _, p', ⟨?_, ?_, ?_, hL, hR⟩, joins_of_tiled hrunTiled, hrun, hlinked,
    keepsOutside hcut (wellLinked_iff_cut.mp hlinked) hframe rfl (hstop.symm ▸ hrunTiled) (hy ▸ hwritten)⟩
  · rw [hlist, List.append_assoc, List.cons_append]
  · exact hy ▸ List.mem_append_right _ List.mem_cons_self
  · intro d hd
    rcases List.mem_append.mp (hy.symm ▸ hd) with hd | hd
    · exact .inr (hB d hd)
    · exact (List.mem_cons.mp hd).imp_right (hF d)

/-- a pool of five nodes, the free ones next to each other -/
def fragmented : Pool :=
  let p : Pool := ⟨headerSize + 5 * nodeSize + 60, 0, Memory.empty, [], []⟩
  ((((p.putNode 0 ⟨4, 4 + nodeSize, invalidOffset, true⟩).putNode (4 + nodeSize)
    ⟨8, 12 + 2 * nodeSize, 0, true⟩).putNode (12 + 2 * nodeSize)
    ⟨12, 24 + 3 * nodeSize, 4 + nodeSize, false⟩).putNode (24 + 3 * nodeSize)
    ⟨16, 40 + 4 * nodeSize, 12 + 2 * nodeSize, true⟩).putNode (40 + 4 * nodeSize)
    ⟨20, invalidOffset, 24 + 3 * nodeSize, false⟩

def fragments : List Chunk :=
  [⟨0, 4, true⟩, ⟨4 + nodeSize, 8, true⟩, ⟨12 + 2 * nodeSize, 12, false⟩, ⟨24 + 3 * nodeSize, 16, true⟩,
    ⟨40 + 4 * nodeSize, 20, false⟩]

theorem merges_run_fragmented :
    ∃ L run R d p', RunAround fragments L run R ⟨12 + 2 * nodeSize, 12, false⟩ ∧ Joins run d ∧
      (deallocate (12 + 2 * nodeSize + nodeSize)).run fragmented = .ok () p' ∧ WellLinked p' (L ++ d :: R) ∧
      KeepsOutside fragmented p' L d R :=
  merges_run (p := fragmented) (l := fragments) (c := ⟨12 + 2 * nodeSize, 12, false⟩)
    ⟨⟨rfl, rfl, rfl, rfl, rfl, rfl⟩, ⟨rfl, rfl, rfl, rfl, rfl, trivial⟩⟩ (by simp [fragments])

end Stl
end Ipcpp
