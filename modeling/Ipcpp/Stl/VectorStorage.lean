import Ipcpp.Stl.VectorRuns

/-!
# The storage of a vector

`StorageOk`: the three offsets of every vector are in order, there is a whole number of elements between
the first two, and everything the last action constructed is inside of the block of its vector.

The end of the storage is a number of BYTES, rounded up to 16 or more, and `push_back` compares it with
the end of the elements for equality.  With an element size that does not divide the size of the block the
two are never equal, and the element is constructed over the end of the block (`pushed_over_the_end`).
`storage_invariant`: `StorageOk` holds in every run whose actions are `Safe`.
-/

namespace Ipcpp
namespace Stl
open Runs World

structure StorageOk (w : World) : Prop where
  order : ∀ v, some v ∈ w.vecs → v.data.start ≤ v.data.finish ∧ v.data.finish ≤ v.data.endOfStorage
  whole : ∀ v, some v ∈ w.vecs → (v.ty.size : Int) ∣ v.data.finish - v.data.start
  inside : ∀ e ∈ w.pool.elements, ∃ v, w.vec w.last = some v ∧
    ∃ b ∈ inUse w.pool, (b.off : Int) = v.data.start ∧ b.off ≤ e.1 ∧ e.1 + e.2 ≤ b.off + b.size

theorem Storage.order {sz k : Nat} {d : VecData} {o : List Block} (h : Storage sz d o k) :
    d.start ≤ d.finish ∧ d.finish ≤ d.endOfStorage ∧ (sz : Int) ∣ d.finish - d.start := by
  cases h with
  | none => exact ⟨Int.le_refl _, Int.le_refl _, ⟨0, rfl⟩⟩
  | @some b k hk =>
    refine ⟨?_, ?_, ⟨k, ?_⟩⟩
    · show ((b.off : Nat) : Int) ≤ (b.off + k * sz : Nat)
      omega
    · show ((b.off + k * sz : Nat) : Int) ≤ (b.off + b.size : Nat)
      omega
    · show ((b.off + k * sz : Nat) : Int) - (b.off : Nat) = sz * k
      push_cast
      rw [Int.mul_comm]
      omega

theorem own_start {d : VecData} {b : Block} (hb : b ∈ own d) : (b.off : Int) = d.start := by
  unfold own at hb
  split at hb
  · cases hb
  · rw [List.mem_singleton.mp hb]
    show (d.start.toNat : Int) = d.start
    omega

theorem World.Inv.storageOk {size : Nat} {w : World} (h : Inv size w) : StorageOk w := by
  obtain ⟨l, hl⟩ := h.ok
  refine ⟨fun v hv => ?_, fun v hv => ?_, fun e he => ?_⟩
  · obtain ⟨k, hk⟩ := h.stored v hv
    exact ⟨hk.order.1, hk.order.2.1⟩
  · obtain ⟨k, hk⟩ := h.stored v hv
    exact hk.order.2.2
  · obtain ⟨v, hv, b, hb, hin⟩ := h.written e he
    have hlive : b ∈ owned w.vecs ++ w.others :=
      List.mem_append_left _ (own_subset_owned (List.mem_of_getElem? (getElem_of_vec hv)) hb)
    exact ⟨v, hv, b, hl.represents.blocks.mem_iff.mpr hlive, own_start hb, hin⟩

/-- **The storage invariant**: in every run of safe actions it holds in every state, and every further safe
action is defined. -/
theorem storage_invariant {size : Nat} (hsize : headerSize + nodeSize ≤ size) (hp : size < 2^64)
    {as : List Action} {w : World} (hs : Every step World.Safe (init size) as)
    (hr : run step (init size) as = some w) :
    StorageOk w ∧ ∀ a, w.Allowed a → w.Safe a → (w.step a).isSome := by
  have hinv : Inv size w := by
    refine run_inv_of_every (I := Inv size) ?_ as (init_inv hsize) hs hr
    exact fun s a t hi hc ht => (stepped_of_step hi hp ht hc).inv
  refine ⟨hinv.storageOk, fun a ha hsa => ?_⟩
  obtain ⟨w', hw', -⟩ := step_spec hinv hp ha hsa
  rw [hw']
  rfl

instance World.On.decidable (w : World) (k : Nat) (P : Vec → Prop) [DecidablePred P] :
    Decidable (w.On k P) :=
  match h : w.vec k with
  | none => isTrue fun v hv => by rw [h] at hv; cases hv
  | some u => decidable_of_iff (P u) ⟨fun hu v hv => by rw [h] at hv; exact Option.some.inj hv ▸ hu,
      fun hall => hall u h⟩

instance World.Safe.decidable (w : World) : (a : Action) → Decidable (w.Safe a)
  | .construct T c => inferInstanceAs (Decidable (c.Safe T))
  | .call k f => inferInstanceAs (Decidable (w.On k fun v => f.Safe v.ty v.data))
  | .destroy k => inferInstanceAs (Decidable (w.On k fun v => Whole v.ty v.data))
  | .copy _ => isTrue trivial
  | .move _ => isTrue trivial
  | .swap _ _ => isTrue trivial
  | .moveAssign _ _ => isTrue trivial
  | .allocate _ _ => isTrue trivial
  | .deallocate _ => isTrue trivial

/-- three 32-bit integers -/
def triple : ElemType := ⟨12, by decide, List.replicate 12 (some 0), by decide⟩

def tripleValue : Value := List.replicate 12 (some 7)

/-- four triples fill their block, the fifth needs a new one, where two more fit; then the storage is cut
down to 64 bytes for five triples -/
def tripleActions : List Action :=
  [.construct triple (.sized 4), .call 0 (.pushBack tripleValue), .call 0 (.pushBack tripleValue),
    .call 0 .popBack, .call 0 .shrinkToFit, .allocate 8 2, .call 0 .popBack, .call 0 (.pushBack tripleValue)]

theorem storage_invariant_triples :
    ∃ w, run step (init 1024) tripleActions = some w ∧ w.vecs.length = 1 ∧ StorageOk w := by
  have hsome : (run step (init 1024) tripleActions).isSome = true := by decide +kernel
  obtain ⟨w, hw⟩ := Option.isSome_iff_exists.mp hsome
  have hlen : (run step (init 1024) tripleActions).map (fun w => w.vecs.length) = some 1 := by decide +kernel
  rw [hw] at hlen
  exact ⟨w, hw, Option.some.inj hlen, (storage_invariant (by decide) (by decide) (by decide +kernel) hw).1⟩

/-- A vector of one triple has a block of 16 bytes, at 32; the second one is constructed at 44, over the
end of the block and over the node header that stands at 48. -/
theorem pushed_over_the_end :
    ∃ w, run step (init 1024)
        [.construct triple (.list [tripleValue]), .call 0 (.pushBack tripleValue)] = some w ∧
      w.pool.elements = [(44, 12)] ∧ w.pool.memory.record 48 = none ∧ ¬ StorageOk w := by
  have hsome : (run step (init 1024)
      [.construct triple (.list [tripleValue]), .call 0 (.pushBack tripleValue)]).isSome = true := by
    decide +kernel
  obtain ⟨w, hw⟩ := Option.isSome_iff_exists.mp hsome
  have hstate : (run step (init 1024)
      [.construct triple (.list [tripleValue]), .call 0 (.pushBack tripleValue)]).map (fun w =>
        (w.pool.elements, w.pool.memory.record 48, w.vecs.map (Option.map Vec.data)))
      = some ([(44, 12)], none, [some ⟨32, 56, 48⟩]) := by decide +kernel
  rw [hw] at hstate
  have hw' := Option.some.inj hstate
  refine ⟨w, hw, congrArg Prod.fst hw', congrArg (fun x => x.2.1) hw', fun hok => ?_⟩
  have hvecs : w.vecs.map (Option.map Vec.data) = [some ⟨32, 56, 48⟩] := congrArg (fun x => x.2.2) hw'
  have hdata : some (VecData.mk 32 56 48) ∈ w.vecs.map (Option.map Vec.data) := by
    rw [hvecs]
    exact List.mem_cons_self
  obtain ⟨x, hx, hxd⟩ := List.mem_map.mp hdata
  obtain ⟨v, rfl, hv⟩ := Option.map_eq_some_iff.mp hxd
  have hle := (hok.order v hx).2
  rw [hv] at hle
  exact absurd hle (by decide)

end Stl
end Ipcpp
