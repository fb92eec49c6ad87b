import Mathlib
import Ipcpp.Stl.PoolInvariant

/-!
# The list of nodes is determined by the live blocks

A tiling without two free neighbours has no choice: what is in use is given, and every gap is one free
chunk (`coalesced_unique`).  So two pools of one size with the same live blocks have the same nodes,
whatever was done to them before (`canonical`).
-/

namespace Ipcpp
namespace Stl
open Chunks Runs PoolState

/-- where the chunk in front of the blocks `bs` ends, if the tiling ends at `b` -/
def gapEnd (b : Nat) : List Block → Nat
  | [] => b
  | x :: _ => x.off - nodeSize

theorem used_off_ge {a b : Nat} {l : List Chunk} (h : Tiled Chunk.off Chunk.stop a l b) {x : Block}
    (hx : x ∈ used l) : a + nodeSize ≤ x.off := by
  obtain ⟨c, hc, -, rfl⟩ := mem_used.mp hx
  have := (h.bounds Chunk.off_le_stop hc).1
  show a + nodeSize ≤ c.off + nodeSize
  omega

/-- a free chunk goes up to the next one in use -/
theorem free_stop {a b : Nat} {c : Chunk} {l : List Chunk} (h : Tiled Chunk.off Chunk.stop a (c :: l) b)
    (hc : (c :: l).IsChain NotBothFree) (hf : c.free = true) : c.stop = gapEnd b (used l) := by
  cases l with
  | nil => exact h.2
  | cons d l =>
    have hd : d.free = false := by
      by_contra hn
      exact (List.isChain_cons.mp hc).1 d rfl ⟨hf, (Bool.not_eq_false _).mp hn⟩
    rw [used_cons hd]
    show c.stop = d.off + nodeSize - nodeSize
    rw [Nat.add_sub_cancel]
    exact h.2.1.symm

/-- **Coalesced tilings with the same chunks in use are the same.** -/
theorem coalesced_unique {b : Nat} (l : List Chunk) :
    ∀ (a : Nat) (l' : List Chunk), Tiled Chunk.off Chunk.stop a l b → Tiled Chunk.off Chunk.stop a l' b →
      l.IsChain NotBothFree → l'.IsChain NotBothFree → used l = used l' → l = l' := by
  -- a chunk has at least a node header: the tiling of nothing is empty
  have hpos : ∀ c : Chunk, ¬ c.stop ≤ c.off := by
    intro c
    unfold Chunk.stop nodeSize
    omega
  have hne : ∀ {a : Nat} {c : Chunk} {r : List Chunk}, Tiled Chunk.off Chunk.stop a (c :: r) b → a ≠ b := by
    intro a c r h hab
    have hle := h.2.le Chunk.off_le_stop
    have hoff := h.1
    exact hpos c (by omega)
  induction l with
  | nil =>
    intro a l' h h' _ _ _
    cases l' with
    | nil => rfl
    | cons c' l' => exact absurd h (hne h')
  | cons c l ih =>
    intro a l' h h' hc hc' hu
    cases l' with
    | nil => exact absurd h' (hne h)
    | cons c' l' =>
      have hoff : c.off = c'.off := h.1.trans h'.1.symm
      -- the blocks behind a free chunk start later than the block of a chunk in use at the same place
      have hclash : ∀ {x y : Chunk} {r s : List Chunk}, Tiled Chunk.off Chunk.stop a (x :: r) b →
          Tiled Chunk.off Chunk.stop a (y :: s) b → x.free = true → y.free = false →
          used (x :: r) ≠ used (y :: s) := by
        intro x y r s hx hy hxf hyf heq
        rw [used_cons_free hxf, used_cons hyf] at heq
        have hmem : y.block ∈ used r := heq ▸ List.mem_cons_self
        have hge : x.stop + nodeSize ≤ y.off + nodeSize := used_off_ge hx.2 hmem
        have hxo := hx.1
        have hyo := hy.1
        exact hpos x (by omega)
      have hsame : c = c' ∧ used l = used l' := by
        cases hf : c.free with
        | true =>
          cases hf' : c'.free with
          | true =>
            rw [used_cons_free hf, used_cons_free hf'] at hu
            have hstop : c.stop = c'.stop := by rw [free_stop h hc hf, free_stop h' hc' hf', hu]
            have hsize : c.size = c'.size := by
              unfold Chunk.stop at hstop
              omega
            exact ⟨by cases c; cases c'; simp_all, hu⟩
          | false => exact absurd hu (hclash h h' hf hf')
        | false =>
          cases hf' : c'.free with
          | true => exact absurd hu.symm (hclash h' h hf' hf)
          | false =>
            rw [used_cons hf, used_cons hf'] at hu
            have hsize : c.size = c'.size := congrArg Block.size (List.cons.inj hu).1
            exact ⟨by cases c; cases c'; simp_all, (List.cons.inj hu).2⟩
      obtain ⟨rfl, hrest⟩ := hsame
      rw [ih c.stop l' h.2 h'.2 (List.isChain_cons.mp hc).2 (List.isChain_cons.mp hc').2 hrest]

theorem used_sorted {p : Pool} {l : List Chunk} (h : Chunked p l) :
    (used l).Pairwise fun x y => x.off < y.off := by
  have hpair := h.tiled.pairwise Chunk.off_le_stop
  refine (hpair.filter _).map Chunk.block fun c d hcd => ?_
  show c.off + nodeSize < d.off + nodeSize
  unfold Chunk.stop nodeSize at *
  omega

theorem PoolOk.unique {p q : Pool} {l l' : List Chunk} {live live' : List Block} (h : PoolOk p l live)
    (h' : PoolOk q l' live') (hsize : p.size = q.size) (hlive : live.Perm live') : l = l' := by
  have hused : used l = used l' := by
    refine List.Perm.eq_of_pairwise (fun x y _ _ hxy hyx => ?_) (used_sorted h.chunked)
      (used_sorted h'.chunked) (h.live.trans (hlive.trans h'.live.symm))
    exact absurd (Nat.lt_trans hxy hyx) (Nat.lt_irrefl _)
  have htiled := h.chunked.tiled
  rw [hsize] at htiled
  exact coalesced_unique l 0 l' htiled h'.chunked.tiled h.coalesced h'.coalesced hused

theorem PoolState.Inv.walk_eq {size : Nat} {s t : PoolState} (hs : Inv s size) (ht : Inv t size)
    (hlive : s.live.Perm t.live) : walk s.pool = walk t.pool := by
  obtain ⟨l, hl⟩ := hs.ok
  obtain ⟨l', hl'⟩ := ht.ok
  rw [hl.chunked.walk_eq hl.room, hl'.chunked.walk_eq hl'.room,
    hl.unique hl' (hs.size.trans ht.size.symm) hlive]

/-! ## runs -/

section
variable {size : Nat} {s t : PoolState}

theorem deallocate_live (hs : Inv s size) {b : Block} (hb : b ∈ s.live) :
    ∃ t, s.step (.deallocate b) = some t ∧ Inv t size ∧ t.live = s.live.erase b := by
  obtain ⟨l, hl⟩ := hs.ok
  obtain ⟨p', l', hh, hrun, -⟩ := dealloc_spec (Pool.fresh_ok hl) hb
  obtain ⟨t, ht, hinv⟩ := step_inv hs (a := .deallocate b) hb
  refine ⟨t, ht, hinv, ?_⟩
  have hstep : s.step (.deallocate b) = some ⟨p', s.live.erase b, s.live⟩ := by
    show (if b ∈ s.live then s.takeBack b ((deallocate b.off).run s.pool.fresh) else none) = _
    rw [if_pos hb, hrun]
    rfl
  rw [← Option.some.inj (hstep.symm.trans ht)]

theorem deallocate_all (bs : List Block) :
    ∀ {s : PoolState}, Inv s size → bs.Subperm s.live →
      ∃ t, run PoolState.step s (bs.map .deallocate) = some t ∧ Inv t size ∧ t.live = s.live.diff bs := by
  induction bs with
  | nil => exact fun hs _ => ⟨_, rfl, hs, rfl⟩
  | cons b bs ih =>
    intro s hs hsub
    have hb : b ∈ s.live := hsub.subset List.mem_cons_self
    obtain ⟨t, ht, hinv, hlive⟩ := deallocate_live hs hb
    have hsub' : bs.Subperm t.live := by
      rw [hlive]
      have herase := hsub.erase b
      rwa [List.erase_cons_head] at herase
    obtain ⟨u, hu, huinv, hulive⟩ := ih hinv hsub'
    refine ⟨u, run_cons.mpr ⟨t, ht, hu⟩, huinv, ?_⟩
    rw [hulive, hlive, List.diff_cons]

end

/-- **The state of a pool is canonical.**  Two runs that end with the same live blocks end with the same
list of nodes; so live blocks can be given back in any order, giving back what was just allocated restores
the list, and a pool with no live block has its one initial node. -/
theorem canonical {size : Nat} (hsize : headerSize + nodeSize ≤ size) {as : List Call} {s : PoolState}
    (hr : run PoolState.step (init size) as = some s) :
    (∀ bs t, run PoolState.step (init size) bs = some t → s.live.Perm t.live → walk s.pool = walk t.pool) ∧
    (∀ bs bs' : List Block, bs.Subperm s.live → bs.Perm bs' →
      ∃ t t', run PoolState.step s (bs.map .deallocate) = some t ∧
        run PoolState.step s (bs'.map .deallocate) = some t' ∧ walk t.pool = walk t'.pool) ∧
    (∀ a b t, s.step a = some t → t.live = b :: s.live →
      ∃ u, t.step (.deallocate b) = some u ∧ walk u.pool = walk s.pool) ∧
    (s.live = [] → walk s.pool
      = [⟨0, ⟨size - headerSize - nodeSize, invalidOffset, invalidOffset, true⟩⟩]) := by
  have hs := run_inv_pool hsize hr
  refine ⟨fun bs t ht hlive => hs.walk_eq (run_inv_pool hsize ht) hlive, ?_, ?_, ?_⟩
  · intro bs bs' hsub hperm
    obtain ⟨t, ht, htinv, htlive⟩ := deallocate_all bs hs hsub
    obtain ⟨t', ht', htinv', htlive'⟩ := deallocate_all bs' hs (hperm.symm.subperm.trans hsub)
    refine ⟨t, t', ht, ht', htinv.walk_eq htinv' ?_⟩
    rw [htlive, htlive', hperm.diff_left]
  · intro a b t ht hlive
    have hrun : run step s [a] = some t := run_cons.mpr ⟨t, ht, rfl⟩
    have htinv : Inv t size := run_inv_from hs hrun
    obtain ⟨u, hu, huinv, hulive⟩ := deallocate_live htinv (b := b) (hlive ▸ List.mem_cons_self)
    refine ⟨u, hu, huinv.walk_eq hs ?_⟩
    rw [hulive, hlive, List.erase_cons_head]
  · intro hempty
    obtain ⟨l, hl⟩ := hs.ok
    have hnew := Pool.new_ok hsize
    have hlist := hl.unique hnew (q := Pool.new size) hs.size (by rw [hempty])
    rw [hl.chunked.walk_eq hl.room, hlist]
    rfl

/-- the blocks of `exampleCalls` made in another order -/
def reorderedCalls : List Call :=
  [.allocateOffset 2 24, .allocateAtLeastOffset 4 1, .allocateOffset 10 11]

theorem canonical_example :
    ∃ s t, run PoolState.step (init 1024) exampleCalls = some s ∧
      run PoolState.step (init 1024) reorderedCalls = some t ∧ walk s.pool = walk t.pool := by
  have hs : (run PoolState.step (init 1024) exampleCalls).isSome = true := by decide +kernel
  have ht : (run PoolState.step (init 1024) reorderedCalls).isSome = true := by decide +kernel
  obtain ⟨s, hs⟩ := Option.isSome_iff_exists.mp hs
  obtain ⟨t, ht⟩ := Option.isSome_iff_exists.mp ht
  have hlives : (run PoolState.step (init 1024) exampleCalls).map PoolState.live
      = some [⟨32, 48⟩, ⟨160, 112⟩, ⟨112, 16⟩] := by decide +kernel
  have hlivet : (run PoolState.step (init 1024) reorderedCalls).map PoolState.live
      = some [⟨160, 112⟩, ⟨112, 16⟩, ⟨32, 48⟩] := by decide +kernel
  rw [hs] at hlives
  rw [ht] at hlivet
  refine ⟨s, t, hs, ht, (canonical (by decide) hs).1 _ t ht ?_⟩
  rw [Option.some.inj hlives, Option.some.inj hlivet]
  decide

end Stl
end Ipcpp
