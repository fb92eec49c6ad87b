import Mathlib
import Ipcpp.Stl.ChunkList

/-!
# Giving a block back

`deallocate` marks the node free, merges it with the free nodes behind it (`mergeForward`) and then with
the free nodes in front of it (`mergeBackward`).  Both merges replace a run `y :: T` of neighbouring
chunks by the one chunk `y.merged T` that covers it; `Cut.merge` is that replacement in memory, the
two loops find the run.

`Cut.deallocate`: from `L ++ B ++ c :: F ++ R`, where `B` and `F` are all the free chunks right in front
of and right behind `c`, to `L ++ d :: R` with one free chunk `d`.
-/

namespace Ipcpp
namespace Stl
open Chunks

/-- bytes of the chunks `l`, headers included -/
def total (l : List Chunk) : Nat := (l.map fun c => c.size + nodeSize).sum

@[simp] theorem total_nil : total [] = 0 := rfl

@[simp] theorem total_cons (c : Chunk) (l : List Chunk) : total (c :: l) = c.size + nodeSize + total l := by
  simp [total]

theorem total_append (l l' : List Chunk) : total (l ++ l') = total l + total l' := by
  simp [total]

theorem tiled_total {a b : Nat} {l : List Chunk} (h : Tiled Chunk.off Chunk.stop a l b) :
    b = a + total l := by
  induction l generalizing a with
  | nil => exact h.symm
  | cons c l ih =>
    have h1 := ih h.2
    have h2 := h.1
    rw [total_cons]
    unfold Chunk.stop at h1
    omega

/-- the chunk that covers `y` and the chunks `T` behind it -/
def Chunk.merged (y : Chunk) (T : List Chunk) : Chunk := ⟨y.off, y.size + total T, y.free⟩

theorem stop_of_tiled {y : Chunk} {T : List Chunk} {m : Nat} (b : Bool)
    (h : Tiled Chunk.off Chunk.stop y.stop T m) : (⟨y.off, y.size + total T, b⟩ : Chunk).stop = m := by
  rw [tiled_total h]
  show y.off + nodeSize + (y.size + total T) = y.off + nodeSize + y.size + total T
  omega

theorem head_pointer {p : Pool} {l : List Chunk} (h : ∀ d ∈ l, d.off ≤ p.size) :
    p.offsetToPointer (first Chunk.addr invalidOffset l) = l.head?.map Chunk.off := by
  cases l with
  | nil => exact offsetToPointer_invalid p
  | cons d l => exact offsetToPointer_nat (h d List.mem_cons_self)

theorem head_offset {p : Pool} {l : List Chunk} (h : ∀ d ∈ l, d.off ≤ p.size) :
    p.pointerToOffset (l.head?.map Chunk.off) = first Chunk.addr invalidOffset l := by
  cases l with
  | nil => rfl
  | cons d l => exact pointerToOffset_nat (h d List.mem_cons_self)

/-- one node for the chunks `y :: T`, marked `b` -/
theorem Cut.merge {p q : Pool} {L : List Chunk} {y : Chunk} {T R : List Chunk} (b : Bool)
    (h : Cut p L y (T ++ R)) (hsize : q.size = p.size)
    (hL : ∀ d ∈ L, q.memory.record d.off = p.memory.record d.off)
    (hR : Linked q.memory y.off R invalidOffset) :
    WellLinked (q.putNode y.off ⟨y.size + total T, first Chunk.addr invalidOffset R,
      last Chunk.addr invalidOffset L, b⟩) (L ++ ⟨y.off, y.size + total T, b⟩ :: R) := by
  obtain ⟨m, hT, hRt⟩ := tiled_append.mp h.tiledRight
  refine wellLinked_iff_cut.mpr ⟨?_, ?_, ?_, h.tiledLeft, ?_⟩
  · refine (h.left.mono hL).mono fun d hd => putNode_record _ (.inl ?_)
    have := h.left_stop hd
    omega
  · exact putNode_record_self _ _ _
  · refine hR.mono fun d hd => putNode_record _ (.inr ?_)
    have := h.right_start (List.mem_append_right _ hd)
    omega
  · rw [stop_of_tiled b hT]
    show Tiled _ _ m R (q.size - headerSize)
    rw [hsize]
    exact hRt

/-! ## forward -/

/-- the pool after the loop of `_m_merge_forward` -/
def forwardEnd (p : Pool) (node : Nat) (nd : AllocatorListNode) : List Chunk → Pool
  | [] => p.putNode node { nd with nextOffset := -1 }
  | d :: R => fixPrev p node (d :: R)

def forwardHeaders (node : Nat) : List Chunk → List Nat
  | [] => [node]
  | d :: _ => [d.off]

theorem forwardEnd_frame (p : Pool) (node : Nat) (nd : AllocatorListNode) (R : List Chunk) :
    Frame p (forwardEnd p node nd R) (forwardHeaders node R) := by
  cases R with
  | nil => exact frame_putNode _ _ _
  | cons d R => exact frame_putNode _ _ _

theorem forwardHeaders_mem {node a : Nat} {R : List Chunk} (ha : a ∈ forwardHeaders node R) :
    a = node ∨ ∃ d ∈ R.head?, d.off = a := by
  cases R with
  | nil => exact .inl (List.mem_singleton.mp ha)
  | cons d R => exact .inr ⟨d, rfl, (List.mem_singleton.mp ha).symm⟩

theorem forwardEnd_node {p : Pool} {node : Nat} {nd : AllocatorListNode}
    (hnode : p.memory.record node = some nd) {R : List Chunk} (hR : ∀ d ∈ R, node + nodeSize ≤ d.off) :
    ∃ next, (forwardEnd p node nd R).memory.record node = some { nd with nextOffset := next } := by
  cases R with
  | nil => exact ⟨-1, putNode_record_self _ _ _⟩
  | cons d R =>
    exact ⟨nd.nextOffset, (putNode_record _ (.inl (hR d List.mem_cons_self))).trans hnode⟩

theorem forwardEnd_record {p : Pool} {node : Nat} {nd : AllocatorListNode} {R : List Chunk} {b : Nat}
    (hb : b + nodeSize ≤ node) (hR : ∀ d ∈ R, node + nodeSize ≤ d.off) :
    (forwardEnd p node nd R).memory.record b = p.memory.record b := by
  cases R with
  | nil => exact putNode_record _ (.inl hb)
  | cons d R =>
    have := hR d List.mem_cons_self
    exact putNode_record _ (.inl (by omega))

theorem forwardEnd_linked {p : Pool} {node : Nat} {nd : AllocatorListNode} {prev : Int} {a b : Nat}
    {R : List Chunk} (h : Linked p.memory prev R invalidOffset) (ht : Tiled Chunk.off Chunk.stop a R b) :
    Linked (forwardEnd p node nd R).memory node R invalidOffset := by
  cases R with
  | nil => trivial
  | cons d R => exact fixPrev_linked node h ht

theorem mergeForwardLoop_run {p : Pool} {node : Nat} {nd : AllocatorListNode}
    (hnode : p.memory.record node = some nd) (hle : node ≤ p.size) {R : List Chunk}
    (hR : ∀ d ∈ R.head?, d.free = false) (F : List Chunk) :
    ∀ (prev : Int) (fuel mergedSize : Nat), Linked p.memory prev (F ++ R) invalidOffset →
      (∀ d ∈ F ++ R, d.off ≤ p.size) → (∀ d ∈ F, d.free = true) → F.length < fuel →
      (mergeForwardLoop node fuel mergedSize ((F ++ R).head?.map Chunk.off)).run p
        = .ok (mergedSize + total F, R.head?.map Chunk.off) (forwardEnd p node nd R) := by
  induction F with
  | nil =>
    intro prev fuel mergedSize h hbound _ hfuel
    obtain ⟨f, rfl⟩ : ∃ f, fuel = f + 1 := ⟨fuel - 1, by simp at hfuel; omega⟩
    cases R with
    | nil =>
      refine (Prog.bind_ok (modifyNode_run _ hnode)).trans ?_
      rfl
    | cons d R =>
      have hd : d.free = false := hR d rfl
      refine (Prog.bind_ok (readNode_run h.1)).trans ?_
      rw [if_neg (show ¬ d.free = true by rw [hd]; exact Bool.false_ne_true)]
      refine (Prog.bind_ok (offsetOf_nat hle)).trans ?_
      refine (Prog.bind_ok (modifyNode_run _ h.1)).trans ?_
      rfl
  | cons e F ih =>
    intro prev fuel mergedSize h hbound hfree hfuel
    obtain ⟨f, rfl⟩ : ∃ f, fuel = f + 1 := ⟨fuel - 1, by simp at hfuel; omega⟩
    refine (Prog.bind_ok (readNode_run h.1)).trans ?_
    rw [if_pos (show e.free = true from hfree e List.mem_cons_self)]
    refine (Prog.get_bind_run _ _).trans ?_
    rw [head_pointer fun d hd => hbound d (List.mem_cons_of_mem _ hd)]
    refine (ih e.off f _ h.2 (fun d hd => hbound d (List.mem_cons_of_mem _ hd))
      (fun d hd => hfree d (List.mem_cons_of_mem _ hd)) (by simp at hfuel; omega)).trans ?_
    show Prog.Outcome.ok (mergedSize + (e.size + nodeSize) + total F, _) _ = _
    rw [total_cons, Nat.add_assoc mergedSize]

/-- **`_m_merge_forward`** replaces the node and all the free nodes right behind it by one node. -/
theorem mergeForward_run {p : Pool} {L : List Chunk} {x : Chunk} {F R : List Chunk}
    (h : Cut p L x (F ++ R)) (hfuel : F.length < p.size) (hF : ∀ d ∈ F, d.free = true)
    (hR : ∀ d ∈ R.head?, d.free = false) :
    ∃ p' hs, (mergeForward x.off).run p = .ok () p' ∧ Frame p p' hs ∧
      (∀ a ∈ hs, a = x.off ∨ ∃ d ∈ R.head?, d.off = a) ∧ WellLinked p' (L ++ x.merged F :: R) := by
  have hle : ∀ d ∈ F ++ R, d.off ≤ p.size := by
    intro d hd
    have := h.right_le hd
    omega
  have hleR : ∀ d ∈ R, d.off ≤ p.size := fun d hd => hle d (List.mem_append_right _ hd)
  have hxR : ∀ d ∈ R, x.off + nodeSize ≤ d.off := by
    intro d hd
    have := h.right_start (List.mem_append_right _ hd)
    omega
  by_cases hnil : F ++ R = []
  · obtain ⟨rfl, rfl⟩ := List.append_eq_nil_iff.mp hnil
    refine ⟨p, [], ?_, Frame.refl p, by simp, wellLinked_iff_cut.mpr h⟩
    exact Prog.bind_ok (readNode_run h.node)
  have hne : first Chunk.addr invalidOffset (F ++ R) ≠ invalidOffset := by
    obtain ⟨d, l, hd⟩ := List.exists_cons_of_ne_nil hnil
    rw [hd]
    exact nat_ne_invalid d.off
  have hloop := mergeForwardLoop_run h.node h.off_le hR F x.off p.size x.size h.right hle hF hfuel
  have hframe := forwardEnd_frame p x.off
    ⟨x.size, first Chunk.addr invalidOffset (F ++ R), last Chunk.addr invalidOffset L, x.free⟩ R
  obtain ⟨next, hq⟩ := forwardEnd_node h.node hxR
  obtain ⟨m, hTF, hTR⟩ := tiled_append.mp h.tiledRight
  have hlinked : Linked (forwardEnd p x.off ⟨x.size, first Chunk.addr invalidOffset (F ++ R),
      last Chunk.addr invalidOffset L, x.free⟩ R).memory x.off R invalidOffset :=
    forwardEnd_linked (seg_append.mp h.right).2 hTR
  refine ⟨_, _, ?_, hframe.trans (frame_putNode _ x.off ⟨x.size + total F,
    first Chunk.addr invalidOffset R, last Chunk.addr invalidOffset L, x.free⟩), ?_,
    h.merge x.free hframe.size ?_ hlinked⟩
  · refine (Prog.bind_ok (readNode_run h.node)).trans ?_
    rw [if_neg hne]
    refine (Prog.get_bind_run _ _).trans ?_
    rw [head_pointer hle]
    refine (Prog.bind_ok hloop).trans ?_
    refine (Prog.bind_ok (offsetOf_run _ _)).trans ?_
    rw [head_offset fun d hd => hframe.size ▸ hleR d hd]
    exact modifyNode_run _ hq
  · intro a ha
    rcases List.mem_append.mp ha with ha | ha
    · exact .inl (List.mem_singleton.mp ha)
    · exact forwardHeaders_mem ha
  · intro d hd
    have := h.left_stop hd
    exact forwardEnd_record (by omega) hxR

/-! ## backward -/

theorem last_pointer {p : Pool} {l : List Chunk} (h : ∀ d ∈ l, d.off ≤ p.size) :
    p.offsetToPointer (last Chunk.addr invalidOffset l) = l.getLast?.map Chunk.off := by
  rcases List.eq_nil_or_concat l with rfl | ⟨l', d, rfl⟩
  · exact offsetToPointer_invalid p
  · rw [List.concat_eq_append, last_append, List.getLast?_concat]
    exact offsetToPointer_nat (h d (by simp))

theorem mergeBackwardLoop_run {p : Pool} {L : List Chunk} (hL : ∀ d ∈ L.getLast?, d.free = false)
    (B : List Chunk) :
    ∀ (next : Int) (fuel mergedSize node : Nat), Linked p.memory invalidOffset (L ++ B) next →
      (∀ d ∈ L ++ B, d.off ≤ p.size) → (∀ d ∈ B, d.free = true) → B.length < fuel →
      (mergeBackwardLoop fuel mergedSize node ((L ++ B).getLast?.map Chunk.off)).run p
        = .ok (mergedSize + total B, (B.head?.map Chunk.off).getD node) p := by
  induction B using List.reverseRecOn with
  | nil =>
    intro next fuel mergedSize node h hbound _ hfuel
    obtain ⟨f, rfl⟩ : ∃ f, fuel = f + 1 := ⟨fuel - 1, by simp at hfuel; omega⟩
    rw [List.append_nil] at h hbound ⊢
    rcases List.eq_nil_or_concat L with rfl | ⟨L', d, rfl⟩
    · rfl
    · rw [List.concat_eq_append] at h hL ⊢
      have hd : d.free = false := hL d (by simp)
      obtain ⟨-, hnode, -⟩ := seg_append.mp h
      rw [List.getLast?_concat]
      refine (Prog.bind_ok (readNode_run hnode)).trans ?_
      rw [if_neg (show ¬ d.free = true by rw [hd]; exact Bool.false_ne_true)]
      rfl
  | append_singleton B e ih =>
    intro next fuel mergedSize node h hbound hfree hfuel
    obtain ⟨f, rfl⟩ : ∃ f, fuel = f + 1 := ⟨fuel - 1, by simp at hfuel; omega⟩
    rw [← List.append_assoc] at h hbound ⊢
    obtain ⟨hleft, hnode, -⟩ := seg_append.mp h
    have hbound' : ∀ d ∈ L ++ B, d.off ≤ p.size := fun d hd => hbound d (List.mem_append_left _ hd)
    rw [List.getLast?_concat]
    refine (Prog.bind_ok (readNode_run hnode)).trans ?_
    rw [if_pos (show e.free = true from hfree e (by simp))]
    refine (Prog.get_bind_run _ _).trans ?_
    rw [last_pointer hbound']
    refine (ih _ f _ _ hleft hbound' (fun d hd => hfree d (by simp [hd])) (by simp at hfuel; omega)).trans ?_
    show Prog.Outcome.ok (mergedSize + (e.size + nodeSize) + total B, (B.head?.map Chunk.off).getD e.off) p = _
    rw [total_append, total_cons, total_nil]
    cases B with
    | nil => simp
    | cons b B =>
      show Prog.Outcome.ok (_, b.off) p = Prog.Outcome.ok (_, b.off) p
      congr 2
      omega

theorem front_off {B T : List Chunk} {x y : Chunk} (h : B ++ [x] = y :: T) :
    (B.head?.map Chunk.off).getD x.off = y.off := by
  cases B with
  | nil => rw [(List.cons.inj h).1]; rfl
  | cons b B => rw [(List.cons.inj h).1]; rfl

theorem merged_size {B T : List Chunk} {x y : Chunk} (h : B ++ [x] = y :: T) :
    x.size + total B = y.size + total T := by
  have hsum := congrArg total h
  rw [total_append, total_cons, total_cons, total_nil] at hsum
  omega

theorem setPrev_run {p : Pool} {prev : Int} (node : Nat) {R : List Chunk}
    (h : Linked p.memory prev R invalidOffset) (hle : node ≤ p.size) :
    (setPrev node (R.head?.map Chunk.off)).run p = .ok () (fixPrev p node R) := by
  cases R with
  | nil => rfl
  | cons d R =>
    refine (Prog.bind_ok (offsetOf_nat hle)).trans ?_
    exact modifyNode_run _ h.1

theorem last_ne_invalid {l : List Chunk} (hl : l ≠ []) : last Chunk.addr invalidOffset l ≠ invalidOffset := by
  rcases List.eq_nil_or_concat l with hc | ⟨l', d, hc⟩
  · exact absurd hc hl
  · rw [hc, List.concat_eq_append, last_append]
    exact nat_ne_invalid d.off

/-- the first of the nodes that are merged is the node itself, or in front of it -/
theorem Cut.front_cases {p : Pool} {L B T R : List Chunk} {x y : Chunk} (h : Cut p (L ++ B) x R)
    (hy : B ++ [x] = y :: T) : x.off = y.off ∧ T = [] ∨ y.off + nodeSize ≤ x.off := by
  cases B with
  | nil =>
    obtain ⟨rfl, rfl⟩ := List.cons.inj hy
    exact .inl ⟨rfl, rfl⟩
  | cons b B =>
    have hb := h.left_stop (d := b) (by simp)
    rw [(List.cons.inj hy).1] at hb
    exact .inr (by omega)

/-- **`_m_merge_backward`** replaces the node and all the free nodes right in front of it by one node. -/
theorem mergeBackward_run {p : Pool} {L B : List Chunk} {x y : Chunk} {T R : List Chunk}
    (h : Cut p (L ++ B) x R) (hfuel : B.length < p.size) (hB : ∀ d ∈ B, d.free = true)
    (hL : ∀ d ∈ L.getLast?, d.free = false) (hy : B ++ [x] = y :: T) :
    ∃ p' hs, (mergeBackward x.off).run p = .ok () p' ∧ Frame p p' hs ∧
      (∀ a ∈ hs, a = y.off ∨ ∃ d ∈ R.head?, d.off = a) ∧ WellLinked p' (L ++ y.merged T :: R) := by
  have hlist : (L ++ B) ++ x :: R = L ++ y :: (T ++ R) := by
    calc (L ++ B) ++ x :: R = L ++ ((B ++ [x]) ++ R) := by simp
      _ = L ++ y :: (T ++ R) := by rw [hy]; rfl
  have hz : Cut p L y (T ++ R) := wellLinked_iff_cut.mp (hlist ▸ wellLinked_iff_cut.mpr h)
  have hle : ∀ d ∈ L ++ B, d.off ≤ p.size := by
    intro d hd
    have := h.left_stop hd
    have := h.off_le
    omega
  by_cases hnil : L ++ B = []
  · obtain ⟨rfl, rfl⟩ := List.append_eq_nil_iff.mp hnil
    obtain ⟨rfl, rfl⟩ := List.cons.inj hy
    refine ⟨p, [], ?_, Frame.refl p, by simp, wellLinked_iff_cut.mpr h⟩
    exact Prog.bind_ok (readNode_run h.node)
  have hne : last Chunk.addr invalidOffset (L ++ B) ≠ invalidOffset := last_ne_invalid hnil
  have hloop := mergeBackwardLoop_run hL B x.off p.size x.size x.off h.left hle hB hfuel
  rw [front_off hy, merged_size hy] at hloop
  -- the node `x` still leads to `R` after the size of `y` was set, and after the link of `R` was
  have hsplit : x.off = y.off ∧ T = [] ∨ y.off + nodeSize ≤ x.off := h.front_cases hy
  have hxR : ∀ d ∈ R, x.off + nodeSize ≤ d.off := by
    intro d hd
    have := h.right_start hd
    omega
  have hyx : y.off ≤ x.off := by
    rcases hsplit with ⟨hs, -⟩ | hs <;> omega
  let p1 := p.putNode y.off ⟨y.size + total T, first Chunk.addr invalidOffset (T ++ R),
    last Chunk.addr invalidOffset L, y.free⟩
  have hx1 : ∃ nd, p1.memory.record x.off = some nd ∧ nd.nextOffset = first Chunk.addr invalidOffset R := by
    rcases hsplit with ⟨hs, rfl⟩ | hs
    · rw [hs]
      exact ⟨_, putNode_record_self _ _ _, rfl⟩
    · exact ⟨_, (putNode_record _ (.inr hs)).trans h.node, rfl⟩
  obtain ⟨nx, hnx, hnext⟩ := hx1
  have hR1 : Linked p1.memory x.off R invalidOffset := by
    refine h.right.mono fun d hd => putNode_record _ (.inr ?_)
    have := hxR d hd
    omega
  have hrec2 : ∀ b, b + nodeSize ≤ x.off ∨ b = x.off →
      (fixPrev p1 y.off R).memory.record b = p1.memory.record b := by
    intro b hb
    refine fixPrev_record _ fun d hd => .inl ?_
    have := hxR d hd
    omega
  have hframe2 := (frame_putNode p y.off ⟨y.size + total T, first Chunk.addr invalidOffset (T ++ R),
    last Chunk.addr invalidOffset L, y.free⟩).trans (fixPrev_frame p1 y.off R)
  have hy2 : (fixPrev p1 y.off R).memory.record y.off = some ⟨y.size + total T,
      first Chunk.addr invalidOffset (T ++ R), last Chunk.addr invalidOffset L, y.free⟩ := by
    rw [hrec2 y.off (by omega)]
    exact putNode_record_self _ _ _
  refine ⟨_, _, ?_, hframe2.trans (frame_putNode _ y.off ⟨y.size + total T,
    first Chunk.addr invalidOffset R, last Chunk.addr invalidOffset L, y.free⟩), ?_,
    hz.merge y.free hframe2.size ?_ (fixPrev_linked _ hR1 h.tiledRight)⟩
  · refine (Prog.bind_ok (readNode_run h.node)).trans ?_
    rw [if_neg hne]
    refine (Prog.get_bind_run _ _).trans ?_
    rw [last_pointer hle]
    refine (Prog.bind_ok hloop).trans ?_
    refine (Prog.bind_ok (modifyNode_run _ hz.node)).trans ?_
    refine (Prog.bind_ok (readNode_run hnx)).trans ?_
    show (setPrev y.off (p.offsetToPointer nx.nextOffset) >>= _).run p1 = _
    rw [hnext, head_pointer fun d hd => by have := h.right_le hd; omega]
    refine (Prog.bind_ok (setPrev_run y.off hR1 hz.off_le)).trans ?_
    refine (Prog.bind_ok (readNode_run ((hrec2 x.off (.inr rfl)).trans hnx))).trans ?_
    rw [hnext]
    exact modifyNode_run _ hy2
  · intro a ha
    simp only [List.mem_append, List.mem_singleton, Option.mem_toList, Option.map_eq_some_iff] at ha
    rcases ha with rfl | ⟨d, hd, rfl⟩ | rfl
    · exact .inl rfl
    · exact .inr ⟨d, hd, rfl⟩
    · exact .inl rfl
  · intro d hd
    have hd1 := hz.left_stop hd
    rw [hrec2 d.off (by omega)]
    exact putNode_record _ (.inl (by omega))

/-! ## giving a block back -/

/-- a pool with a chunk has room for its header -/
theorem Cut.header_le {p : Pool} {L : List Chunk} {c : Chunk} {R : List Chunk} (h : Cut p L c R) :
    headerSize ≤ p.size := by
  have hstop := h.stop_le
  unfold nodeSize at hstop
  omega

theorem lt_of_parts {p : Pool} {L B F R : List Chunk} {c : Chunk} (h : Cut p (L ++ B) c (F ++ R)) :
    F.length < p.size ∧ B.length < p.size := by
  have hlen := (wellLinked_iff_cut.mpr h).length_lt h.header_le
  simp only [List.length_append, List.length_cons] at hlen
  omega

/-- the chunk that is left covers the block and what was merged with it from both sides -/
theorem merged_run {B F T T' : List Chunk} {c y y' : Chunk} (hB : ∀ d ∈ B, d.free = true)
    (hy : B ++ c :: F = y :: T) (hy' : B ++ [Chunk.merged ⟨c.off, c.size, true⟩ F] = y' :: T') :
    y'.merged T' = ⟨y.off, y.size + total T, true⟩ := by
  cases B with
  | nil =>
    obtain ⟨rfl, rfl⟩ := List.cons.inj hy
    obtain ⟨rfl, rfl⟩ := List.cons.inj hy'
    rfl
  | cons b B =>
    rw [List.cons_append] at hy hy'
    obtain ⟨rfl, rfl⟩ := List.cons.inj hy
    obtain ⟨rfl, rfl⟩ := List.cons.inj hy'
    have htotal : total (B ++ [Chunk.merged ⟨c.off, c.size, true⟩ F]) = total (B ++ c :: F) := by
      rw [total_append, total_append, total_cons, total_cons, total_nil]
      show total B + (c.size + total F + nodeSize + 0) = _
      omega
    rw [Chunk.merged, htotal, hB b List.mem_cons_self]

/-- **`deallocate`** replaces the block and all the free chunks around it by one free chunk. -/
theorem Cut.deallocate {p : Pool} {L B : List Chunk} {c : Chunk} {F R : List Chunk}
    (h : Cut p (L ++ B) c (F ++ R)) (hB : ∀ d ∈ B, d.free = true) (hF : ∀ d ∈ F, d.free = true)
    (hL : ∀ d ∈ L.getLast?, d.free = false) (hR : ∀ d ∈ R.head?, d.free = false) {y : Chunk} {T : List Chunk}
    (hy : B ++ c :: F = y :: T) :
    ∃ p' hs, (Stl.deallocate (c.off + nodeSize)).run p = .ok () p' ∧ Frame p p' hs ∧
      (∀ a ∈ hs, (∃ e ∈ B ++ c :: F, e.off = a) ∨ ∃ e ∈ R.head?, e.off = a) ∧
      WellLinked p' (L ++ ⟨y.off, y.size + total T, true⟩ :: R) := by
  obtain ⟨hlenF, hlenB⟩ := lt_of_parts h
  let x : Chunk := ⟨c.off, c.size, true⟩
  have hmark : Cut (p.putNode c.off ⟨c.size, first Chunk.addr invalidOffset (F ++ R),
      last Chunk.addr invalidOffset (L ++ B), true⟩) (L ++ B) x (F ++ R) :=
    wellLinked_iff_cut.mp (Cut.merge (T := []) true h rfl (fun _ _ => rfl) h.right)
  obtain ⟨p1, hs1, hrun1, hframe1, hwritten1, hlinked1⟩ := mergeForward_run hmark hlenF hF hR
  have hsize1 : p1.size = p.size := hframe1.size
  obtain ⟨y', T', hy'⟩ : ∃ y' T', B ++ [x.merged F] = y' :: T' := List.exists_cons_of_ne_nil (by simp)
  obtain ⟨p2, hs2, hrun2, hframe2, hwritten2, hlinked2⟩ :=
    mergeBackward_run (wellLinked_iff_cut.mp hlinked1) (hsize1 ▸ hlenB) hB hL hy'
  have hmerged : y'.merged T' = ⟨y.off, y.size + total T, true⟩ := merged_run hB hy hy'
  have hoff : y'.off = y.off := by
    have hfield : (y'.merged T').off = _ := congrArg Chunk.off hmerged
    exact hfield
  have hcmem : c ∈ B ++ c :: F := List.mem_append_right _ List.mem_cons_self
  have hymem : y ∈ B ++ c :: F := hy ▸ List.mem_cons_self
  refine ⟨p2, _, ?_, ((frame_putNode p c.off _).trans hframe1).trans hframe2, ?_, hmerged ▸ hlinked2⟩
  · unfold Stl.deallocate
    rw [Nat.add_sub_cancel]
    refine (Prog.bind_ok (modifyNode_run _ h.node)).trans ?_
    exact (Prog.bind_ok hrun1).trans hrun2
  · intro a ha
    rcases List.mem_append.mp ha with ha | ha
    · exact (hwritten2 a ha).imp_left fun he => ⟨y, hymem, hoff.symm.trans he.symm⟩
    · rcases List.mem_append.mp ha with ha | ha
      · exact (hwritten1 a ha).imp_left fun he => ⟨c, hcmem, he.symm⟩
      · exact .inl ⟨c, hcmem, (List.mem_singleton.mp ha).symm⟩

/-- in a pool whose nodes are aligned they stay so -/
theorem deallocate_run {p : Pool} {L B : List Chunk} {c : Chunk} {F R : List Chunk}
    (h : Zipper p (L ++ B) c (F ++ R)) (hB : ∀ d ∈ B, d.free = true)
    (hF : ∀ d ∈ F, d.free = true) (hL : ∀ d ∈ L.getLast?, d.free = false)
    (hR : ∀ d ∈ R.head?, d.free = false) :
    ∃ d p' hs, (deallocate (c.off + nodeSize)).run p = .ok () p' ∧ Frame p p' hs ∧
      (∀ a ∈ hs, ∃ e ∈ (L ++ B) ++ c :: (F ++ R), e.off = a) ∧ d.free = true ∧ Chunked p' (L ++ d :: R) := by
  obtain ⟨y, T, hy⟩ : ∃ y T, B ++ c :: F = y :: T := List.exists_cons_of_ne_nil (by simp)
  obtain ⟨p', hs, hrun, hframe, hwritten, hlinked⟩ := h.cut.deallocate hB hF hL hR hy
  have hlist : (L ++ B) ++ c :: (F ++ R) = L ++ ((B ++ c :: F) ++ R) := by simp
  have haligned := (chunked_iff_zipper.mpr h).aligned
  rw [hlist] at haligned ⊢
  refine ⟨_, p', hs, hrun, hframe, fun a ha => ?_, rfl, hframe.head.trans h.head, hlinked.tiled, hlinked.linked,
    fun d hd => ?_⟩
  · rcases hwritten a ha with ⟨e, he, rfl⟩ | ⟨e, he, rfl⟩
    · exact ⟨e, List.mem_append_right _ (List.mem_append_left _ he), rfl⟩
    · exact ⟨e, List.mem_append_right _ (List.mem_append_right _ (List.mem_of_mem_head? he)), rfl⟩
  · rcases List.mem_append.mp hd with hd | hd
    · exact haligned d (List.mem_append_left _ hd)
    · rcases List.mem_cons.mp hd with rfl | hd
      · refine haligned y (List.mem_append_right _ (List.mem_append_left _ ?_))
        rw [hy]
        exact List.mem_cons_self
      · exact haligned d (List.mem_append_right _ (List.mem_append_right _ hd))

end Stl
end Ipcpp
