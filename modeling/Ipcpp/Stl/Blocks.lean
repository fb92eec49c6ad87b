import Mathlib
import Ipcpp.Numeric
import Ipcpp.Stl.Merge

/-!
# Live blocks

A `Block` is a payload that was handed out.  `PoolOk p l live`: the nodes of the pool are the chunks `l`,
no two neighbours are free, and the chunks in use are exactly the blocks `live`.

* `alloc_spec`     an allocation adds a new block of at least the size asked for, or throws and leaves the
                   pool as it is; it writes node headers only where the new list has nodes;
* `dealloc_spec`   giving back a live block takes it out; node headers are written only where the old
                   list has nodes.

In both cases the bytes of all the other blocks stay (`PoolOk.byte_eq`): a node header never stands
in a live block (`PoolOk.header_apart`).
-/

namespace Ipcpp
namespace Stl
open Chunks

structure Block where
  off : Nat
  size : Nat
deriving DecidableEq

/-- the payload of a chunk -/
def Chunk.block (c : Chunk) : Block := ⟨c.off + nodeSize, c.size⟩

/-- the payloads of the chunks in use -/
def used (l : List Chunk) : List Block := (l.filter fun c => !c.free).map Chunk.block

theorem used_append (l l' : List Chunk) : used (l ++ l') = used l ++ used l' := by
  simp [used]

theorem used_cons_free {c : Chunk} (h : c.free = true) (l : List Chunk) : used (c :: l) = used l := by
  simp [used, h]

theorem used_cons {c : Chunk} (h : c.free = false) (l : List Chunk) :
    used (c :: l) = c.block :: used l := by
  simp [used, h]

theorem used_free {l : List Chunk} (h : ∀ c ∈ l, c.free = true) : used l = [] := by
  simp only [used, List.map_eq_nil_iff, List.filter_eq_nil_iff]
  intro c hc
  rw [h c hc]
  exact Bool.false_ne_true

theorem mem_used {l : List Chunk} {b : Block} : b ∈ used l ↔ ∃ c ∈ l, c.free = false ∧ c.block = b := by
  simp [used, and_assoc]

/-- not both of two neighbours are free -/
def NotBothFree (c d : Chunk) : Prop := ¬ (c.free = true ∧ d.free = true)

structure PoolOk (p : Pool) (l : List Chunk) (live : List Block) : Prop where
  room : headerSize + nodeSize ≤ p.size
  chunked : Chunked p l
  coalesced : l.IsChain NotBothFree
  live : (used l).Perm live

section
variable {p : Pool} {l : List Chunk} {live : List Block} (h : PoolOk p l live)
include h

theorem PoolOk.mem {b : Block} (hb : b ∈ live) : ∃ c ∈ l, c.free = false ∧ c.block = b :=
  mem_used.mp (h.live.mem_iff.mpr hb)

theorem PoolOk.stop_le {b : Block} (hb : b ∈ live) : b.off + b.size ≤ p.size - headerSize := by
  obtain ⟨c, hc, -, rfl⟩ := h.mem hb
  exact (h.chunked.tiled.bounds Chunk.off_le_stop hc).2

theorem PoolOk.header_apart {c : Chunk} (hc : c ∈ l) {b : Block} (hb : b ∈ live) :
    Apart c.off nodeSize b.off b.size := by
  obtain ⟨d, hd, -, rfl⟩ := h.mem hb
  show c.off + nodeSize ≤ d.off + nodeSize ∨ d.off + nodeSize + d.size ≤ c.off
  rcases h.chunked.tiled.eq_or_apart Chunk.off_le_stop hc hd with rfl | hcd | hcd
  · exact .inl (Nat.le_refl _)
  · have := c.off_le_stop
    exact .inl (by omega)
  · exact .inr hcd

theorem PoolOk.pairwise : live.Pairwise fun b b' => Apart b.off b.size b'.off b'.size := by
  refine (h.live.pairwise_iff fun hab => Apart.symm hab).mp ?_
  have hpair := h.chunked.tiled.pairwise Chunk.off_le_stop
  refine ((hpair.filter _).map Chunk.block fun c d hcd => .inl ?_)
  show c.off + nodeSize + c.size ≤ d.off + nodeSize
  unfold Chunk.stop at hcd
  omega

end

/-- **A byte of a live block stays** when only node headers of the list were written. -/
theorem Frame.byte_eq {p p' : Pool} {hs : List Nat} (hf : Frame p p' hs) {q : Pool} {l : List Chunk}
    {live : List Block} (h : PoolOk q l live) (hw : ∀ a ∈ hs, ∃ d ∈ l, d.off = a) {b : Block}
    (hb : b ∈ live) {x : Nat} (hx : b.off ≤ x) (hx' : x < b.off + b.size) :
    p'.memory.byte x = p.memory.byte x := by
  refine hf.byte x fun a ha => ?_
  obtain ⟨d, hd, rfl⟩ := hw a ha
  rcases h.header_apart hd hb with hap | hap <;> omega

/-! ## the size asked for -/

theorem alignUp_eq (n : Nat) : alignUp n = (n + 15) % 2^64 / 16 * 16 :=
  Numeric.and_mask (k := 4) (by decide) (Nat.mod_lt _ (by decide))

theorem dvd_alignUp (n : Nat) : 16 ∣ alignUp n := by
  rw [alignUp_eq]
  exact Nat.dvd_mul_left _ _

theorem le_alignUp {n : Nat} (h : n + 15 < 2^64) : n ≤ alignUp n := by
  rw [alignUp_eq, Nat.mod_eq_of_lt h]
  omega

/-! ## allocation -/

theorem Chunk.le_takenSize {c : Chunk} {bytes : Nat} (h : bytes ≤ c.size) : bytes ≤ c.takenSize bytes := by
  unfold takenSize
  split
  · exact Nat.le_refl _
  · exact h

theorem used_taken (c : Chunk) (bytes : Nat) :
    used (c.taken bytes) = [⟨c.off + nodeSize, c.takenSize bytes⟩] := by
  unfold Chunk.taken Chunk.takenSize
  split <;> rfl

/-- the part split off is in front of a chunk in use, or of none -/
theorem coalesced_taken {L R : List Chunk} {c : Chunk} (bytes : Nat) (hc : c.free = true)
    (h : (L ++ c :: R).IsChain NotBothFree) : (L ++ (c.taken bytes ++ R)).IsChain NotBothFree := by
  obtain ⟨hL, hcR, -⟩ := List.isChain_append.mp h
  obtain ⟨hhead, hR⟩ := List.isChain_cons.mp hcR
  have hnot : ∀ (s : Nat) d, NotBothFree ⟨c.off, s, false⟩ d := fun _ _ hb => Bool.false_ne_true hb.1
  have hnot' : ∀ (s : Nat) d, NotBothFree d ⟨c.off, s, false⟩ := fun _ _ hb => Bool.false_ne_true hb.2
  unfold Chunk.taken
  split
  · refine hL.append (.cons (.cons hR fun d hd hb => ?_) fun d _ => hnot _ d) fun x _ y hy => ?_
    · exact hhead d hd ⟨hc, hb.2⟩
    · exact Option.some.inj hy ▸ hnot' _ x
  · refine hL.append (.cons hR fun d _ => hnot _ d) fun x _ y hy => ?_
    exact Option.some.inj hy ▸ hnot' _ x

/-- the pool after an allocation, with the new block -/
theorem PoolOk.allocates {p p' : Pool} {l L R : List Chunk} {c : Chunk} {live : List Block} {bytes : Nat}
    {hs : List Nat} (h : PoolOk p l live) (hall : Allocates p l bytes L c R p' hs) :
    PoolOk p' (L ++ (c.taken bytes ++ R)) (⟨c.off + nodeSize, c.takenSize bytes⟩ :: live) := by
  obtain ⟨rfl, ⟨hfree, hle⟩, -⟩ := hall.fit
  refine ⟨?_, hall.chunked, coalesced_taken bytes hfree h.coalesced, ?_⟩
  · rw [hall.frame.size]
    exact h.room
  · rw [used_append, used_append, used_taken]
    have hperm := h.live
    rw [used_append, used_cons_free hfree] at hperm
    exact List.perm_middle.trans (hperm.cons _)

/-- **An allocation** adds a block, or throws and changes nothing. -/
theorem alloc_spec {p : Pool} {l : List Chunk} {live : List Block} {bytes : Nat} (h : PoolOk p l live)
    (h16 : 16 ∣ bytes) :
    (∃ a size p' l' hs, (allocateNode bytes).run p = .ok (a, size) p' ∧ bytes ≤ size ∧ Frame p p' hs ∧
      (∀ x ∈ hs, ∃ d ∈ l', d.off = x) ∧ PoolOk p' l' (⟨a + nodeSize, size⟩ :: live)) ∨
    (allocateNode bytes).run p = .throw .badAlloc p := by
  rcases allocateNode_run h.chunked h.room h16 with ⟨L, c, R, p', hs, hrun, hall⟩ | ⟨hrun, -⟩
  · exact .inl ⟨c.off, c.takenSize bytes, p', _, hs, hrun, Chunk.le_takenSize hall.fit.fits.2, hall.frame,
      hall.written, h.allocates hall⟩
  · exact .inr hrun

/-- the offset that `_m_allocate_from_list` returns -/
theorem allocateFromList_ok {p p' : Pool} {l : List Chunk} {live : List Block} {bytes a n : Nat}
    (hrun : (allocateNode bytes).run p = .ok (a, n) p') (h : PoolOk p' l (⟨a + nodeSize, n⟩ :: live)) :
    (allocateFromList bytes).run p = .ok ((a : Int) + nodeSize, n) p' := by
  have hle : a + nodeSize + n ≤ p'.size - headerSize := h.stop_le List.mem_cons_self
  refine (Prog.bind_ok hrun).trans ?_
  exact (Prog.bind_ok (offsetOf_nat (show a ≤ p'.size by omega))).trans rfl

/-! ## giving a block back -/

theorem split_left (X : List Chunk) :
    ∃ L B, X = L ++ B ∧ (∀ d ∈ B, d.free = true) ∧ ∀ d ∈ L.getLast?, d.free = false := by
  induction X using List.reverseRecOn with
  | nil => exact ⟨[], [], rfl, by simp, by simp⟩
  | append_singleton X e ih =>
    by_cases he : e.free = true
    · obtain ⟨L, B, rfl, hB, hL⟩ := ih
      refine ⟨L, B ++ [e], by simp, fun d hd => ?_, hL⟩
      rcases List.mem_append.mp hd with hd | hd
      · exact hB d hd
      · exact List.mem_singleton.mp hd ▸ he
    · refine ⟨X ++ [e], [], by simp, by simp, fun d hd => ?_⟩
      rw [List.getLast?_concat] at hd
      exact Option.some.inj hd ▸ Bool.eq_false_iff.mpr he

theorem split_right (Y : List Chunk) :
    ∃ F R, Y = F ++ R ∧ (∀ d ∈ F, d.free = true) ∧ ∀ d ∈ R.head?, d.free = false := by
  induction Y with
  | nil => exact ⟨[], [], rfl, by simp, by simp⟩
  | cons e Y ih =>
    by_cases he : e.free = true
    · obtain ⟨F, R, rfl, hF, hR⟩ := ih
      refine ⟨e :: F, R, rfl, fun d hd => ?_, hR⟩
      rcases List.mem_cons.mp hd with rfl | hd
      · exact he
      · exact hF d hd
    · refine ⟨[], e :: Y, rfl, by simp, fun d hd => ?_⟩
      exact Option.some.inj hd ▸ Bool.eq_false_iff.mpr he

theorem coalesced_merged {L R : List Chunk} {d : Chunk} (hL : L.IsChain NotBothFree)
    (hR : R.IsChain NotBothFree) (hLd : ∀ e ∈ L.getLast?, e.free = false)
    (hRd : ∀ e ∈ R.head?, e.free = false) : (L ++ d :: R).IsChain NotBothFree := by
  refine hL.append (.cons hR fun e he hb => ?_) fun e he y hy hb => ?_
  · exact Bool.false_ne_true ((hRd e he).symm.trans hb.2)
  · exact Bool.false_ne_true ((hLd e he).symm.trans hb.1)

/-- **Giving back a live block** takes it out of the live ones. -/
theorem dealloc_spec {p : Pool} {l : List Chunk} {live : List Block} (h : PoolOk p l live) {b : Block}
    (hb : b ∈ live) :
    ∃ p' l' hs, (deallocate b.off).run p = .ok () p' ∧ Frame p p' hs ∧
      (∀ x ∈ hs, ∃ d ∈ l, d.off = x) ∧ PoolOk p' l' (live.erase b) := by
  obtain ⟨c, hc, hused, rfl⟩ := h.mem hb
  obtain ⟨X, Y, rfl⟩ := List.append_of_mem hc
  obtain ⟨L, B, rfl, hB, hL⟩ := split_left X
  obtain ⟨F, R, rfl, hF, hR⟩ := split_right Y
  obtain ⟨d, p', hs, hrun, hframe, hwritten, hfree, hchunked⟩ :=
    deallocate_run (chunked_iff_zipper.mp h.chunked) hB hF hL hR
  refine ⟨p', L ++ d :: R, hs, hrun, hframe, hwritten, ?_, hchunked, ?_, ?_⟩
  · rw [hframe.size]
    exact h.room
  · obtain ⟨hLB, hcFR, -⟩ := List.isChain_append.mp h.coalesced
    exact coalesced_merged hLB.left_of_append (List.isChain_cons.mp hcFR).2.right_of_append hL hR
  · have hperm := h.live
    rw [used_append, used_append, used_free hB, List.append_nil, used_cons hused, used_append,
      used_free hF, List.nil_append] at hperm
    rw [used_append, used_cons_free hfree]
    exact (List.cons_perm_iff_perm_erase.mp (List.perm_middle.symm.trans hperm)).2

end Stl
end Ipcpp
