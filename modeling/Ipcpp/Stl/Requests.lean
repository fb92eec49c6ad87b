import Ipcpp.Stl.PoolInvariant

/-!
# How much is asked for, and how much is handed out

The allocation functions take a number of elements and compute `align_up(n * sizeof(value_type))` in 64
bits.  Product and sum may wrap: then a large request becomes a small one and succeeds
(`never_smaller_iff`).  `max_size()` subtracts one node header from the size of the pool, where the
constructor has also subtracted the pool header (`maxSize_exact_iff`).
-/

namespace Ipcpp
namespace Stl
open Chunks Runs PoolState

/-! ## the nodes and the chunks -/

def Placed.chunk (x : Placed) : Chunk := ⟨x.off, x.node.size, x.node.isFree⟩

theorem placed_chunk (prev : Int) (l : List Chunk) : (placed prev l).map Placed.chunk = l := by
  induction l generalizing prev with
  | nil => rfl
  | cons c l ih =>
    rw [placed, List.map_cons, ih]
    rfl

/-- no node of the list is free and has room for `bytes` bytes -/
def NoRoom (p : Pool) (bytes : Nat) : Prop := ∀ x ∈ walk p, x.node.isFree = true → x.node.size < bytes

section
variable {p : Pool} {l : List Chunk} {live : List Block} {bytes : Nat} {α : Type}
  {block : Pool → α → Option Block} {m : PoolM α}

theorem PoolOk.noRoom_iff (h : PoolOk p l live) (bytes : Nat) :
    NoRoom p bytes ↔ ∀ c ∈ l, ¬ c.Fits bytes := by
  have hl := placed_chunk invalidOffset l
  rw [← h.chunked.walk_eq h.room] at hl
  constructor
  · rintro hno c hc ⟨hfree, hle⟩
    rw [← hl] at hc
    obtain ⟨x, hx, rfl⟩ := List.mem_map.mp hc
    exact Nat.not_lt.mpr hle (hno x hx hfree)
  · intro hno x hx hfree
    have hc : x.chunk ∈ l := by
      rw [← hl]
      exact List.mem_map_of_mem hx
    exact Nat.not_le.mp fun hle => hno x.chunk hc ⟨hfree, hle⟩

theorem PoolOk.size_le (h : PoolOk p l live) {c : Chunk} (hc : c ∈ l) :
    c.size + nodeSize + headerSize ≤ p.size := by
  have hstop := (h.chunked.tiled.bounds Chunk.off_le_stop hc).2
  have hroom := h.room
  unfold Chunk.stop at hstop
  omega

theorem Chunk.takenSize_le (c : Chunk) (bytes : Nat) : c.takenSize bytes ≤ c.size := by
  unfold takenSize
  split <;> omega

/-! ## the outcome of a request -/

/-- the outcome of an allocation is `bad_alloc`, or a block of at least `k` bytes -/
def GivesAtLeast (k : Nat) (block : Pool → α → Option Block) : Prog.Outcome Error Pool α → Prop
  | .ok r p => ∃ b, block p r = some b ∧ k ≤ b.size
  | .throw e _ => e = .badAlloc
  | .stuck => False

/-- a request for `bytes` bytes that finds room gets a block of a size between `bytes` and that of the
pool; else it throws -/
theorem EntryPoint.outcome (hm : EntryPoint bytes block m) (h : PoolOk p l live) (h16 : 16 ∣ bytes) :
    (∃ r p' b, m.run p = .ok r p' ∧ block p' r = some b ∧ bytes ≤ b.size ∧
      b.size + nodeSize + headerSize ≤ p.size ∧ ¬ NoRoom p bytes) ∨
    (m.run p = .throw .badAlloc p ∧ NoRoom p bytes) := by
  rcases allocateNode_run h.chunked h.room h16 with ⟨L, c, R, p', hs, hrun, hall⟩ | ⟨hrun, hno⟩
  · obtain ⟨r, hm, hb⟩ := hm.ok hrun (h.allocates hall)
    have hc : c ∈ l := by
      rw [hall.fit.eq]
      simp
    have hle := h.size_le hc
    have htaken := c.takenSize_le bytes
    refine .inl ⟨r, p', _, hm, hb, Chunk.le_takenSize hall.fit.fits.2, ?_, fun hno => ?_⟩
    · show c.takenSize bytes + nodeSize + headerSize ≤ p.size
      omega
    · exact (h.noRoom_iff bytes).mp hno c hc hall.fit.fits
  · exact .inr ⟨hm.throw hrun, (h.noRoom_iff bytes).mpr hno⟩

/-- a request for `n` elements is served as it should be, if the byte count does not wrap or is not
served at all -/
theorem EntryPoint.givesAtLeast_iff {sz n : Nat} (hm : EntryPoint (alignUp (n * sz % 2^64)) block m)
    (h : PoolOk p l live) (hsize : p.size < 2^64) :
    GivesAtLeast (n * sz) block (m.run p) ↔ n * sz + 15 < 2^64 ∨ NoRoom p (alignUp (n * sz % 2^64)) := by
  rcases hm.outcome h (dvd_alignUp _) with ⟨r, p', b, hrun, hb, hle, hsmall, hroom⟩ | ⟨hrun, hno⟩
  · rw [hrun]
    constructor
    · rintro ⟨b', hb', hk⟩
      rw [hb] at hb'
      obtain rfl := Option.some.inj hb'
      unfold headerSize nodeSize at hsmall
      exact .inl (by omega)
    · rintro (hfit | hno)
      · rw [Nat.mod_eq_of_lt (by omega)] at hle
        exact ⟨b, hb, (le_alignUp hfit).trans hle⟩
      · exact absurd hno hroom
  · rw [hrun]
    exact iff_of_true rfl (.inr hno)

end

/-- **No block is smaller than what was asked for, exactly if `n * sizeof(value_type) + 15` does not wrap,
or no free node has room for what is left of it**, in every state that calls can lead to. -/
theorem never_smaller_iff {size : Nat} (hroom : headerSize + nodeSize ≤ size) (hsize : size < 2^64)
    {as : List Call} {s : PoolState} (hr : run PoolState.step (init size) as = some s) (sz n : Nat) :
    (GivesAtLeast (n * sz) payloadAt ((allocateOffset sz n).run s.pool) ↔
      n * sz + 15 < 2^64 ∨ NoRoom s.pool (alignUp (n * sz % 2^64))) ∧
    (GivesAtLeast (n * sz) (fun _ r => some ⟨r.1, r.2⟩) ((allocateAtLeast sz n).run s.pool) ↔
      n * sz + 15 < 2^64 ∨ NoRoom s.pool (alignUp (n * sz % 2^64))) ∧
    (GivesAtLeast (n * sz) (fun _ r => some ⟨r.1.toNat, r.2⟩) ((allocateAtLeastOffset sz n).run s.pool) ↔
      n * sz + 15 < 2^64 ∨ NoRoom s.pool (alignUp (n * sz % 2^64))) := by
  have hinv := run_inv_pool hroom hr
  obtain ⟨l, hl⟩ := hinv.ok
  have hlt : s.pool.size < 2^64 := hinv.size ▸ hsize
  exact ⟨(entry_allocateOffset sz n).givesAtLeast_iff hl hlt,
    (entry_allocateAtLeast sz n).givesAtLeast_iff hl hlt,
    (entry_allocateAtLeastOffset sz n).givesAtLeast_iff hl hlt⟩

/-- in a pool of 1024 bytes that is almost full: 100 integers of 8 bytes -/
theorem never_smaller_almost_full :
    ∃ s, run PoolState.step (init 1024) [.allocateOffset 8 100] = some s ∧
      GivesAtLeast (100 * 8) payloadAt ((allocateOffset 8 100).run s.pool) := by
  have hsome : (run PoolState.step (init 1024) [.allocateOffset 8 100]).isSome = true := by decide +kernel
  obtain ⟨s, hs⟩ := Option.isSome_iff_exists.mp hsome
  refine ⟨s, hs, ?_⟩
  exact (never_smaller_iff (by decide) (by decide) hs 8 100).1.mpr (.inl (by decide))

/-- 2^61 integers of 8 bytes: the product is zero, and the request gets a block of no bytes -/
theorem request_wraps :
    ∃ p, (allocateAtLeastOffset 8 (2^61)).run (Pool.new 1024) = .ok (32, 0) p ∧
      ¬ GivesAtLeast (2^61 * 8) (fun _ r => some ⟨r.1.toNat, r.2⟩)
        ((allocateAtLeastOffset 8 (2^61)).run (Pool.new 1024)) := by
  have hres : ((allocateAtLeastOffset 8 (2^61)).run (Pool.new 1024)).toOption.map Prod.fst
      = some (32, 0) := by decide +kernel
  obtain ⟨⟨r, p⟩, hrun, rfl⟩ := Option.map_eq_some_iff.mp hres
  refine ⟨p, Prog.Outcome.of_toOption hrun, fun h => ?_⟩
  rw [Prog.Outcome.of_toOption hrun] at h
  obtain ⟨b, hb, hle⟩ := h
  rw [← Option.some.inj hb] at hle
  exact absurd hle (by decide)

/-! ## `max_size` -/

/-- `max_size()` is the largest number of elements that can ever be allocated: a new pool has room for
it, and no state has room for more -/
structure MaxSizeExact (size sz : Nat) : Prop where
  enough : ∀ n ≤ maxSize (Pool.new size) sz,
    ∃ r p, (allocateAtLeastOffset sz n).run (Pool.new size) = .ok r p
  limit : ∀ as s, run PoolState.step (init size) as = some s →
    ∀ n, maxSize s.pool sz < n → n * sz < 2^64 →
      ∃ p, (allocateAtLeastOffset sz n).run s.pool = .throw .badAlloc p

theorem alignUp_le_iff {n k : Nat} (h : n + 15 < 2^64) (h16 : 16 ∣ k) : alignUp n ≤ k ↔ n ≤ k := by
  rw [alignUp_eq, Nat.mod_eq_of_lt h]
  omega

theorem alignUp_wraps {n : Nat} (h : n < 2^64) (hwrap : 2^64 ≤ n + 15) : alignUp n = 0 := by
  rw [alignUp_eq]
  omega

theorem noRoom_new {size bytes : Nat} (hroom : headerSize + nodeSize ≤ size) :
    NoRoom (Pool.new size) bytes ↔ size - headerSize - nodeSize < bytes := by
  rw [(Pool.new_ok hroom).noRoom_iff]
  constructor
  · intro h
    exact Nat.not_le.mp fun hle => h _ List.mem_cons_self ⟨rfl, hle⟩
  · rintro h c hc ⟨-, hle⟩
    rw [List.mem_singleton.mp hc] at hle
    exact Nat.not_lt.mpr hle h

section
variable {size sz : Nat} (hroom : headerSize + nodeSize ≤ size) (h16 : 16 ∣ size) (hsize : size < 2^64)
include hroom

theorem new_allocates_iff (n : Nat) :
    (∃ r p, (allocateAtLeastOffset sz n).run (Pool.new size) = .ok r p) ↔
      alignUp (n * sz % 2^64) ≤ size - headerSize - nodeSize := by
  have hentry := entry_allocateAtLeastOffset sz n
  rcases hentry.outcome (Pool.new_ok hroom) (dvd_alignUp _) with ⟨r, p, b, hrun, -, -, -, hno⟩ | ⟨hrun, hno⟩
  · rw [noRoom_new hroom] at hno
    exact iff_of_true ⟨r, p, hrun⟩ (Nat.not_lt.mp hno)
  · rw [noRoom_new hroom] at hno
    refine iff_of_false (fun ⟨r, p, hok⟩ => ?_) (Nat.not_le.mpr hno)
    rw [hrun] at hok
    cases hok

include h16 hsize

theorem enough_iff :
    (∀ n ≤ maxSize (Pool.new size) sz, ∃ r p, (allocateAtLeastOffset sz n).run (Pool.new size) = .ok r p) ↔
      headerSize ≤ (size - nodeSize) % sz := by
  have hmax : maxSize (Pool.new size) sz = (size - nodeSize) / sz := rfl
  have hdiv : (size - nodeSize) / sz * sz + (size - nodeSize) % sz = size - nodeSize := by
    rw [Nat.mul_comm]
    exact Nat.div_add_mod _ _
  have hfit : ∀ n ≤ (size - nodeSize) / sz, alignUp (n * sz % 2^64) ≤ size - headerSize - nodeSize ↔
      n * sz ≤ size - headerSize - nodeSize := by
    intro n hn
    have hle := Nat.mul_le_mul_right sz hn
    unfold headerSize nodeSize at *
    rw [Nat.mod_eq_of_lt (by omega)]
    exact alignUp_le_iff (by omega) (by omega)
  rw [hmax]
  constructor
  · intro h
    have hlast := (hfit _ le_rfl).mp ((new_allocates_iff hroom _).mp (h _ le_rfl))
    omega
  · intro h n hn
    refine (new_allocates_iff hroom n).mpr ((hfit n hn).mpr ?_)
    have hle := Nat.mul_le_mul_right sz hn
    omega

theorem limit_iff (hsz : 0 < sz) :
    (∀ as s, run PoolState.step (init size) as = some s → ∀ n, maxSize s.pool sz < n → n * sz < 2^64 →
      ∃ p, (allocateAtLeastOffset sz n).run s.pool = .throw .badAlloc p) ↔ 15 ≤ (2^64 - 1) % sz := by
  have hlarge : ∀ n, (size - nodeSize) / sz < n → size - nodeSize < n * sz := fun n hn =>
    (Nat.div_lt_iff_lt_mul hsz).mp hn
  constructor
  · intro h
    by_contra hlt
    -- the largest multiple of the element size that 64 bits can hold is rounded up to zero
    have hdiv : (2^64 - 1) / sz * sz + (2^64 - 1) % sz = 2^64 - 1 := by
      rw [Nat.mul_comm]
      exact Nat.div_add_mod _ _
    have hn : maxSize (Pool.new size) sz < (2^64 - 1) / sz := by
      show (size - nodeSize) / sz < _
      refine (Nat.div_lt_iff_lt_mul hsz).mpr ?_
      unfold nodeSize
      omega
    obtain ⟨p, hthrow⟩ := h [] (init size) rfl _ hn (by omega)
    have hfits : alignUp ((2^64 - 1) / sz * sz % 2^64) ≤ size - headerSize - nodeSize := by
      rw [Nat.mod_eq_of_lt (by omega), alignUp_wraps (by omega) (by omega)]
      exact Nat.zero_le _
    obtain ⟨r, q, hok⟩ := (new_allocates_iff hroom ((2^64 - 1) / sz)).mpr hfits
    exact absurd (hthrow.symm.trans hok) nofun
  · intro h as s hr n hn hlt
    have hinv := run_inv_pool hroom hr
    obtain ⟨l, hl⟩ := hinv.ok
    have hn : size - nodeSize < n * sz := by
      refine hlarge n ?_
      rw [← hinv.size]
      exact hn
    have hmod : n * sz + 15 < 2^64 := by
      by_contra hge
      have hle : n ≤ (2^64 - 1) / sz := (Nat.le_div_iff_mul_le hsz).mpr (by omega)
      have hdiv : (2^64 - 1) / sz * sz + (2^64 - 1) % sz = 2^64 - 1 := by
        rw [Nat.mul_comm]
        exact Nat.div_add_mod _ _
      have hmul := Nat.mul_le_mul_right sz hle
      omega
    rcases (entry_allocateAtLeastOffset sz n).outcome hl (dvd_alignUp _) with
      ⟨r, p, b, -, -, hle, hsmall, -⟩ | ⟨hrun, -⟩
    · rw [Nat.mod_eq_of_lt hlt] at hle
      have hup := le_alignUp hmod
      have hpool := hinv.size
      omega
    · exact ⟨_, hrun⟩

end

/-- **`max_size` is exact only if the last element it counts does not lie in the pool header, and if no
byte count is rounded up over the end of 64 bits.** -/
theorem maxSize_exact_iff {size sz : Nat} (hroom : headerSize + nodeSize ≤ size) (h16 : 16 ∣ size)
    (hsize : size < 2^64) (hsz : 0 < sz) :
    MaxSizeExact size sz ↔ headerSize ≤ (size - nodeSize) % sz ∧ 15 ≤ (2^64 - 1) % sz := by
  constructor
  · intro h
    exact ⟨(enough_iff hroom h16 hsize).mp h.enough, (limit_iff hroom h16 hsize hsz).mp h.limit⟩
  · rintro ⟨h1, h2⟩
    exact ⟨(enough_iff hroom h16 hsize).mpr h1, (limit_iff hroom h16 hsize hsz).mpr h2⟩

/-- elements of 144 bytes: six of them fill a pool of 1024 bytes -/
theorem maxSize_exact_example : maxSize (Pool.new 1024) 144 = 6 ∧ MaxSizeExact 1024 144 :=
  ⟨by decide, (maxSize_exact_iff (by decide) (by decide) (by decide) (by decide)).mpr (by decide)⟩

/-- a pool of 1024 bytes has room for 864, and `max_size` says 992 -/
theorem maxSize_too_large :
    maxSize (Pool.new 1024) 1 = 992 ∧
      (∃ p, (allocateAtLeastOffset 1 992).run (Pool.new 1024) = .throw .badAlloc p) ∧
      ¬ MaxSizeExact 1024 1 := by
  have hnone : ¬ ∃ r p, (allocateAtLeastOffset 1 992).run (Pool.new 1024) = .ok r p := by
    rw [new_allocates_iff (by decide)]
    decide
  refine ⟨by decide, ?_, fun h => hnone (h.enough 992 (by decide))⟩
  have hentry := entry_allocateAtLeastOffset 1 992
  have hnew := Pool.new_ok (show headerSize + nodeSize ≤ 1024 by decide)
  rcases hentry.outcome hnew (dvd_alignUp _) with
    ⟨r, p, b, hrun, -⟩ | ⟨hrun, -⟩
  · exact absurd ⟨r, p, hrun⟩ hnone
  · exact ⟨_, hrun⟩

end Stl
end Ipcpp
