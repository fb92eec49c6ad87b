import Ipcpp.Stl.Merge
import Ipcpp.Stl.PoolInvariant

/-!
# What a pool says about its sizes

`allocated_size` and `allocated_data_size` go through the whole list and add up the nodes that are in use, with
their headers and without.  `sizes_exact`: in every state that calls can lead to, they return what the blocks that
were handed out and are not given back take up, and with the free nodes that is the whole pool.
-/

namespace Ipcpp
namespace Stl
open Chunks Runs

/-- the loop of the two functions; a node that is in use counts for `overhead` bytes more than its size -/
def sizeLoop (overhead : Nat) : Nat → Option Nat → Nat → PoolM Nat
  | 0, _, _ => Prog.ofOption none
  | _ + 1, none, size => pure size
  | fuel + 1, some node, size => do
    let nd ← readNode node
    let p ← Prog.get
    let next := p.offsetToPointer nd.nextOffset
    if nd.isFree then
      sizeLoop overhead fuel next size
    else
      sizeLoop overhead fuel next ((size + (nd.size + overhead)) % 2^64)

def allocatedSize : PoolM Nat := do
  let p ← Prog.get
  sizeLoop nodeSize p.size (p.offsetToPointer p.listHeadOffset) 0

def allocatedDataSize : PoolM Nat := do
  let p ← Prog.get
  sizeLoop 0 p.size (p.offsetToPointer p.listHeadOffset) 0

/-- the bytes of blocks, with `overhead` bytes for each of them -/
def bytesOf (overhead : Nat) (bs : List Block) : Nat := (bs.map fun b => b.size + overhead).sum

/-- the bytes of the free nodes, with their headers -/
def freeBytes (p : Pool) : Nat :=
  (((walk p).filter fun x => x.node.isFree).map fun x => x.node.size + nodeSize).sum

theorem bytesOf_le {k k' : Nat} (h : k ≤ k') (bs : List Block) : bytesOf k bs ≤ bytesOf k' bs :=
  List.sum_le_sum fun _ _ => Nat.add_le_add_left h _

theorem bytesOf_used_cons {c : Chunk} {l : List Chunk} (k : Nat) (hc : c.free = false) :
    bytesOf k (used (c :: l)) = c.size + k + bytesOf k (used l) := by
  rw [used_cons hc]
  rfl

/-- the bytes of all chunks are those of the ones in use and of the free ones -/
theorem total_split (l : List Chunk) :
    total l = bytesOf nodeSize (used l) + total (l.filter Chunk.free) := by
  induction l with
  | nil => rfl
  | cons c l ih =>
    rw [total_cons, ih]
    cases hc : c.free with
    | true =>
      rw [used_cons_free hc, List.filter_cons_of_pos hc, total_cons]
      omega
    | false =>
      rw [bytesOf_used_cons nodeSize hc, List.filter_cons_of_neg (by rw [hc]; exact Bool.false_ne_true)]
      omega

theorem placed_free (prev : Int) (l : List Chunk) :
    (((placed prev l).filter fun x => x.node.isFree).map fun x => x.node.size + nodeSize).sum =
      total (l.filter Chunk.free) := by
  induction l generalizing prev with
  | nil => rfl
  | cons c l ih =>
    simp only [placed, List.filter_cons]
    split
    · rw [List.map_cons, List.sum_cons, total_cons, ih c.addr]
    · exact ih c.addr

theorem sizeLoop_run {k : Nat} {p : Pool} (l : List Chunk) : ∀ (prev : Int) (fuel size : Nat),
    Linked p.memory prev l invalidOffset → (∀ c ∈ l, c.off ≤ p.size) → l.length < fuel →
      size + bytesOf k (used l) < 2^64 →
      (sizeLoop k fuel (l.head?.map Chunk.off) size).run p = .ok (size + bytesOf k (used l)) p := by
  induction l with
  | nil =>
    intro prev fuel size _ _ hfuel _
    cases fuel with
    | zero => omega
    | succ fuel => rfl
  | cons c l ih =>
    intro prev fuel size h hle hfuel hlt
    obtain ⟨fuel, rfl⟩ : ∃ f, fuel = f + 1 := ⟨fuel - 1, by omega⟩
    have hnode : p.memory.record c.off = some ⟨c.size, first Chunk.addr invalidOffset l, prev, c.free⟩ := h.1
    have hnext := head_pointer (p := p) fun d hd => hle d (List.mem_cons_of_mem _ hd)
    have hrest := fun size => ih c.addr fuel size h.2 (fun d hd => hle d (List.mem_cons_of_mem _ hd))
      (Nat.lt_of_succ_lt_succ hfuel)
    refine (Prog.bind_ok (readNode_run hnode)).trans ?_
    rw [Prog.get_bind_run]
    dsimp only
    rw [hnext]
    cases hc : c.free with
    | true =>
      rw [used_cons_free hc] at hlt ⊢
      exact hrest size hlt
    | false =>
      rw [bytesOf_used_cons k hc] at hlt ⊢
      have hsize : size + (c.size + k) < 2^64 := by omega
      rw [if_neg Bool.false_ne_true, Nat.mod_eq_of_lt hsize, ← Nat.add_assoc size (c.size + k)]
      exact hrest (size + (c.size + k)) (by omega)

section
variable {p : Pool} {l : List Chunk} {live : List Block} (h : PoolOk p l live)
include h

theorem PoolOk.bytesOf_eq (k : Nat) : bytesOf k (used l) = bytesOf k live := (h.live.map _).sum_eq

theorem PoolOk.total_eq_size : total l = p.size - headerSize := by
  have htotal := tiled_total h.chunked.tiled
  omega

theorem PoolOk.sizeLoop_run {k : Nat} (hk : k ≤ nodeSize) (hsize : p.size < 2^64) :
    (sizeLoop k p.size (p.offsetToPointer p.listHeadOffset) 0).run p = .ok (bytesOf k live) p := by
  have hroom := h.room
  have hle : ∀ c ∈ l, c.off ≤ p.size := fun c hc => by
    have hstop := (h.chunked.tiled.bounds Chunk.off_le_stop hc).2
    have := c.off_le_stop
    omega
  have hhead : p.offsetToPointer p.listHeadOffset = l.head?.map Chunk.off := by
    obtain ⟨c, R, rfl, h0⟩ := h.chunked.exists_first hroom
    rw [h.chunked.head, List.head?_cons, Option.map_some, h0]
    exact offsetToPointer_nat (a := 0) (Nat.zero_le _)
  have hbound : bytesOf k (used l) < 2^64 := by
    have htotal := total_split l
    have := bytesOf_le hk (used l)
    rw [h.total_eq_size] at htotal
    omega
  rw [hhead, Stl.sizeLoop_run l invalidOffset p.size 0 h.chunked.linked hle (h.chunked.length_lt (by omega))
    (by omega), Nat.zero_add, h.bytesOf_eq]

theorem PoolOk.freeBytes_eq : freeBytes p = total (l.filter Chunk.free) := by
  unfold freeBytes
  rw [h.chunked.walk_eq h.room]
  exact placed_free invalidOffset l

end

/-- **The sizes are exact.**  In every state that calls can lead to, `allocated_size` and `allocated_data_size` return
the sum over the live blocks, and what they leave out is free. -/
theorem sizes_exact {size : Nat} (hsize : headerSize + nodeSize ≤ size) (hlt : size < 2^64) {as : List Call}
    {s : PoolState} (hr : run PoolState.step (PoolState.init size) as = some s) :
    allocatedSize.run s.pool = .ok (bytesOf nodeSize s.live) s.pool ∧
      allocatedDataSize.run s.pool = .ok (bytesOf 0 s.live) s.pool ∧
      headerSize + bytesOf nodeSize s.live + freeBytes s.pool = size := by
  have hinv := PoolState.run_inv_pool hsize hr
  obtain ⟨l, hl⟩ := hinv.ok
  have hp : s.pool.size < 2^64 := by rwa [hinv.size]
  refine ⟨hl.sizeLoop_run (Nat.le_refl _) hp, hl.sizeLoop_run (Nat.zero_le _) hp, ?_⟩
  have htotal := total_split l
  rw [hl.total_eq_size, hl.bytesOf_eq, ← hl.freeBytes_eq, hinv.size] at htotal
  omega

/-- three blocks of 48, 16 and 112 bytes, of which the first was given back and is used again for one of 48 -/
theorem sizes_exact_example : ∃ s, run PoolState.step (PoolState.init 1024) exampleCalls = some s ∧
    allocatedSize.run s.pool = .ok 272 s.pool ∧ allocatedDataSize.run s.pool = .ok 176 s.pool ∧
      freeBytes s.pool = 624 := by
  obtain ⟨s, hs, hlive⟩ := Option.map_eq_some_iff.mp (show (run PoolState.step (PoolState.init 1024)
    exampleCalls).map PoolState.live = some [⟨32, 48⟩, ⟨160, 112⟩, ⟨112, 16⟩] by decide +kernel)
  obtain ⟨hsize, hdata, hfree⟩ := sizes_exact (by decide) (by decide) hs
  rw [hlive] at hsize hdata hfree
  exact ⟨s, hs, hsize, hdata, Nat.add_left_cancel hfree⟩

end Stl
end Ipcpp
