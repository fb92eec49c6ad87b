import Ipcpp.Lib.Guarantee
import Ipcpp.Stl.Elements

/-!
# What the functions of a vector do

A vector has no storage, or one block of the pool with `k` elements at its front (`Storage`).  Everything
else that is live in the pool is the `rest`.

Each function is described by a `Spec`: it throws and leaves the pool as it is, or the vector ends up with
the given elements, in its old block or in a new one; all the elements it has constructed are in that
block, and the rest is untouched (`After`).  The conditions of the lemmas are those under which the
code stays inside its block: `pushBack_spec` has to know that one more element fits unless the storage is
used up to the last byte, and whatever computes the capacity that it is a number of elements.
-/

namespace Ipcpp
namespace Stl

/-- the data of a vector with `k` elements in the block `b` -/
def stored (b : Block) (sz k : Nat) : VecData :=
  ⟨(b.off : Nat), (b.off + k * sz : Nat), (b.off + b.size : Nat)⟩

/-- `d` has the blocks `o` (none or one) with `k` elements -/
inductive Storage (sz : Nat) : VecData → List Block → Nat → Prop
  | none : Storage sz {} [] 0
  | some {b : Block} {k : Nat} (h : k * sz ≤ b.size) : Storage sz (stored b sz k) [b] k

def own (d : VecData) : List Block :=
  if d.start < 0 then [] else [⟨d.start.toNat, (d.endOfStorage - d.start).toNat⟩]

def contents (T : ElemType) (p : Pool) (d : VecData) : List Value :=
  cells p.memory d.start.toNat T.size ((d.finish - d.start).toNat / T.size)

structure After (T : ElemType) (p : Pool) (rest : List Block) (p' : Pool) (d : VecData)
    (xs : List Value) : Prop where
  size : p'.size = p.size
  stored : ∃ k, Storage T.size d (own d) k
  ok : ∃ l, PoolOk p' l (own d ++ rest)
  contents : contents T p' d = xs
  kept : Kept p p' rest
  written : ∃ es, p'.elements = es ++ p.elements ∧
    ∀ e ∈ es, ∃ b ∈ own d, b.off ≤ e.1 ∧ e.1 + e.2 ≤ b.off + b.size

/-- `m` throws and changes nothing, or a vector ends up with the elements `xs` -/
def Spec (T : ElemType) (p : Pool) (rest : List Block) (m : PoolM VecData) (xs : List Value) : Prop :=
  (∃ d p', m.run p = .ok d p' ∧ After T p rest p' d xs) ∨ ∃ e, m.run p = .throw e p

variable {T : ElemType} {p : Pool} {l : List Chunk} {rest : List Block} {d : VecData} {o : List Block}
  {k : Nat}

theorem own_stored (b : Block) (sz k : Nat) : own (stored b sz k) = [b] := by
  have h0 : ¬ ((b.off : Nat) : Int) < 0 := by omega
  have hsize : (((b.off + b.size : Nat) : Int) - (b.off : Nat)).toNat = b.size := by omega
  unfold own stored
  rw [if_neg h0, hsize, Int.toNat_natCast]

theorem Storage.own_eq {sz : Nat} (h : Storage sz d o k) : own d = o := by
  cases h with
  | none => rfl
  | some h => exact own_stored _ _ _

theorem contents_stored (p : Pool) (b : Block) (k : Nat) :
    contents T p (stored b T.size k) = cells p.memory b.off T.size k := by
  have hk : (((b.off + k * T.size : Nat) : Int) - (b.off : Nat)).toNat / T.size = k := by
    have h1 : (((b.off + k * T.size : Nat) : Int) - (b.off : Nat)).toNat = k * T.size := by omega
    rw [h1, Nat.mul_div_cancel _ T.pos]
  unfold contents stored
  rw [hk, Int.toNat_natCast]

theorem contents_none (p : Pool) : contents T p {} = [] := by
  unfold contents
  simp

theorem Storage.length_contents (h : Storage T.size d o k) : (contents T p d).length = k := by
  cases h with
  | none => rw [contents_none]; rfl
  | some h => rw [contents_stored]; simp [cells]

/-! ## pointers and sizes -/

theorem Storage.bounds (h : PoolOk p l (o ++ rest)) {b : Block} (hb : b ∈ o) :
    b.off + b.size ≤ p.size - headerSize :=
  h.stop_le (List.mem_append_left _ hb)

theorem Storage.start_pointer (hd : Storage T.size d o k) (h : PoolOk p l (o ++ rest)) :
    p.offsetToPointer d.start = o.head?.map Block.off := by
  cases hd with
  | none => exact offsetToPointer_invalid p
  | some hk =>
    have := Storage.bounds h List.mem_cons_self
    exact offsetToPointer_nat (by omega)

theorem pointerDiff_run (hd : Storage T.size d o k) (h : PoolOk p l (o ++ rest)) (q : Pool) :
    (pointerDiff T (p.offsetToPointer d.start) (p.offsetToPointer d.finish)).run q = .ok k q := by
  rw [hd.start_pointer h]
  cases hd with
  | none =>
    rw [show p.offsetToPointer (VecData.finish {}) = none from offsetToPointer_invalid p]
    rfl
  | @some b k hk =>
    have := Storage.bounds h List.mem_cons_self
    have hptr : p.offsetToPointer (stored b T.size k).finish = some (b.off + k * T.size) :=
      offsetToPointer_nat (by omega)
    rw [hptr]
    show (if b.off ≤ b.off + k * T.size ∧ T.size ∣ b.off + k * T.size - b.off
      then pure ((b.off + k * T.size - b.off) / T.size) else Prog.ofOption none : PoolM Nat).run q = _
    rw [Nat.add_sub_cancel_left, if_pos ⟨Nat.le_add_right _ _, Nat.dvd_mul_left _ _⟩,
      Nat.mul_div_cancel _ T.pos]
    rfl

theorem size_run (hd : Storage T.size d o k) (h : PoolOk p l (o ++ rest)) : (size T d).run p = .ok k p :=
  (Prog.get_bind_run _ _).trans (pointerDiff_run hd h p)

/-- the capacity is a number of elements -/
def Whole (T : ElemType) (d : VecData) : Prop := (T.size : Int) ∣ d.endOfStorage - d.start

/-- there is room for one more element, or the storage is used up to the last byte -/
def Fits (T : ElemType) (d : VecData) : Prop :=
  d.finish = d.endOfStorage ∨ d.finish + T.size ≤ d.endOfStorage

theorem Whole.dvd (h : Whole T d) (hd : Storage T.size d o k) {b : Block} (hb : b ∈ o) : T.size ∣ b.size := by
  cases hd with
  | none => cases hb
  | @some b' k hk =>
    obtain rfl := List.mem_singleton.mp hb
    have hz : ((b.off + b.size : Nat) : Int) - (b.off : Nat) = (b.size : Nat) := by omega
    have h' : (T.size : Int) ∣ ((b.off + b.size : Nat) : Int) - (b.off : Nat) := h
    rw [hz] at h'
    exact Int.natCast_dvd_natCast.mp h'

theorem Storage.whole (hd : Storage T.size d o k) (hb : ∀ b ∈ o, T.size ∣ b.size) : Whole T d := by
  cases hd with
  | none => exact ⟨0, rfl⟩
  | @some b k hk =>
    have hz : ((b.off + b.size : Nat) : Int) - (b.off : Nat) = (b.size : Nat) := by omega
    show (T.size : Int) ∣ ((b.off + b.size : Nat) : Int) - (b.off : Nat)
    rw [hz]
    exact Int.natCast_dvd_natCast.mpr (hb b List.mem_cons_self)

/-- where the block is a whole number of elements, there is room for one more, or for none -/
theorem Storage.fits (hd : Storage T.size d o k) (hb : ∀ b ∈ o, T.size ∣ b.size) : Fits T d := by
  cases hd with
  | none => exact .inl rfl
  | @some b k hk =>
    obtain ⟨q, hq⟩ := hb b List.mem_cons_self
    rw [Nat.mul_comm] at hq
    show ((b.off + k * T.size : Nat) : Int) = (b.off + b.size : Nat) ∨
      ((b.off + k * T.size : Nat) : Int) + T.size ≤ (b.off + b.size : Nat)
    have hkq : k ≤ q := Nat.le_of_mul_le_mul_right (hq ▸ hk) T.pos
    rcases Nat.eq_or_lt_of_le hkq with rfl | hlt
    · exact .inl (by rw [hq])
    · have := cell_le T.size hlt
      exact .inr (by omega)

theorem capacity_run (hd : Storage T.size d o k) (h : PoolOk p l (o ++ rest)) (hw : Whole T d) :
    ∃ c, (capacity T d).run p = .ok c p ∧ (∀ b ∈ o, c * T.size = b.size) ∧ (o = [] → c = 0) := by
  have hdvd := fun b (hb : b ∈ o) => hw.dvd hd hb
  have hstart := hd.start_pointer h
  cases hd with
  | none =>
    refine ⟨0, ?_, by simp, fun _ => rfl⟩
    refine (Prog.get_bind_run _ _).trans ?_
    rw [hstart]
    rfl
  | @some b k hk =>
    have hb := hdvd b List.mem_cons_self
    have := Storage.bounds h List.mem_cons_self
    have hptr : p.offsetToPointer (stored b T.size k).endOfStorage = some (b.off + b.size) :=
      offsetToPointer_nat (by omega)
    refine ⟨b.size / T.size, ?_, ?_, by simp⟩
    · refine (Prog.get_bind_run _ _).trans ?_
      rw [hstart, hptr]
      show (if b.off ≤ b.off + b.size ∧ T.size ∣ b.off + b.size - b.off
        then pure ((b.off + b.size - b.off) / T.size) else Prog.ofOption none : PoolM Nat).run p = _
      rw [Nat.add_sub_cancel_left, if_pos ⟨Nat.le_add_right _ _, hb⟩]
      rfl
    · intro b' hb'
      rw [List.mem_singleton.mp hb', Nat.div_mul_cancel hb]

/-- a vector never has more elements than the pool could hold -/
theorem Storage.le_maxSize (hd : Storage T.size d o k) (h : PoolOk p l (o ++ rest)) :
    k ≤ maxSize p T.size := by
  refine (Nat.le_div_iff_mul_le T.pos).mpr ?_
  cases hd with
  | none => rw [Nat.zero_mul]; exact Nat.zero_le _
  | @some b k hk =>
    have := Storage.bounds h List.mem_cons_self
    unfold headerSize at this
    unfold nodeSize
    omega

theorem maxSize_mul_le (p : Pool) {n : Nat} (hn : n ≤ maxSize p T.size) : n * T.size ≤ p.size - nodeSize :=
  (Nat.le_div_iff_mul_le T.pos).mp hn

/-! ## storage -/

theorem After.intro {p' : Pool} {xs : List Value} (hd : Storage T.size d o k) (hsize : p'.size = p.size)
    (h : PoolOk p' l (o ++ rest)) (hc : Stl.contents T p' d = xs) (hkept : Kept p p' rest)
    (hw : ∃ es, p'.elements = es ++ p.elements ∧
      ∀ e ∈ es, ∃ b ∈ o, b.off ≤ e.1 ∧ e.1 + e.2 ≤ b.off + b.size) :
    After T p rest p' d xs := by
  have ho := hd.own_eq
  subst ho
  exact ⟨hsize, ⟨k, hd⟩, ⟨l, h⟩, hc, hkept, hw⟩

theorem Spec.perm {m : PoolM VecData} {xs : List Value} (h : Spec T p rest m xs) {rest' : List Block}
    (hp : rest.Perm rest') : Spec T p rest' m xs := by
  rcases h with ⟨d, p', hrun, ha⟩ | hthrow
  · obtain ⟨l, hl⟩ := ha.ok
    exact .inl ⟨d, p', hrun, ha.size, ha.stored, ⟨l, hl.perm (hp.append_left _)⟩, ha.contents,
      ha.kept.mono fun b hb => hp.mem_iff.mpr hb, ha.written⟩
  · exact .inr hthrow

theorem written_nil {p' : Pool} (o : List Block) (h : p'.elements = p.elements) :
    ∃ es, p'.elements = es ++ p.elements ∧
      ∀ e ∈ es, ∃ b ∈ o, b.off ≤ e.1 ∧ e.1 + e.2 ≤ b.off + b.size :=
  ⟨[], h, by simp⟩

/-- everything was constructed in the block `b` -/
theorem Wrote.written {p' : Pool} {b : Block} {a n : Nat} (h : Wrote p p' a n) (ha : b.off ≤ a)
    (hn : a + n ≤ b.off + b.size) : ∃ es, p'.elements = es ++ p.elements ∧
      ∀ e ∈ es, ∃ c ∈ [b], c.off ≤ e.1 ∧ e.1 + e.2 ≤ c.off + c.size := by
  obtain ⟨es, hes, hin⟩ := h.elements
  refine ⟨es, hes, fun e he => ⟨b, List.mem_cons_self, ?_⟩⟩
  have := hin e he
  omega

theorem allocate_spec {live : List Block} {n : Nat} (h : PoolOk p l live) (hn : n * T.size + 15 < 2^64) :
    (n = 0 ∧ (allocate T n).run p = .ok (-1, 0) p) ∨
    (∃ b p' l', (allocate T n).run p = .ok ((b.off : Nat), b.size) p' ∧ n * T.size ≤ b.size ∧
      PoolOk p' l' (b :: live) ∧ Kept p p' live ∧ p'.size = p.size ∧ p'.elements = p.elements) ∨
    (allocate T n).run p = .throw .badAlloc p := by
  unfold allocate
  by_cases h0 : n = 0
  · rw [if_pos h0]
    exact .inl ⟨h0, rfl⟩
  rw [if_neg h0]
  have hbytes : n * T.size ≤ alignUp (n * T.size % 2^64) := by
    rw [Nat.mod_eq_of_lt (by omega)]
    exact le_alignUp hn
  rcases alloc_spec h (dvd_alignUp (n * T.size % 2^64)) with
    ⟨a, size, p', l', hs, hrun, hle, hframe, hw, hl'⟩ | hrun
  · refine .inr (.inl ⟨⟨a + nodeSize, size⟩, p', l', allocateFromList_ok hrun hl', Nat.le_trans hbytes hle, hl', ?_,
      hframe.size, hframe.elements⟩)
    exact (hframe.kept hl' hw).mono fun b hb => List.mem_cons_of_mem _ hb
  · exact .inr (.inr (Prog.bind_throw hrun))

/-- giving the storage back, whose bytes stay for the time being -/
theorem deallocatePtr_run (h : PoolOk p l (o ++ rest)) (hd : Storage T.size d o k) :
    ∃ p' l', (deallocatePtr (o.head?.map Block.off)).run p = .ok () p' ∧ PoolOk p' l' rest ∧
      Kept p p' (o ++ rest) ∧ p'.size = p.size ∧ p'.elements = p.elements := by
  cases hd with
  | none => exact ⟨p, l, rfl, h, Kept.refl _ _, rfl, rfl⟩
  | @some b k hk =>
    obtain ⟨p', l', hs, hrun, hframe, hw, hl'⟩ := dealloc_spec h List.mem_cons_self
    refine ⟨p', l', hrun, ?_, hframe.kept h hw, hframe.size, hframe.elements⟩
    rw [List.singleton_append, List.erase_cons_head] at hl'
    exact hl'

/-- **New storage with `n` elements**, the one at `j` from `value j`. -/
theorem createWith_spec (value : Nat → PoolM Value) (vals : Nat → Value) {n : Nat} (h : PoolOk p l rest)
    (hn : n * T.size + 15 < 2^64)
    (hvals : ∀ j, j < n → (vals j).length = T.size ∧
      ∀ q, q.size = p.size → Kept p q rest → (value j).run q = .ok (vals j) q) :
    Spec T p rest (createWith T n value) ((List.range n).map vals) := by
  have hmod : n * T.size % 2^64 = n * T.size := Nat.mod_eq_of_lt (by omega)
  rcases allocate_spec h hn with ⟨rfl, hrun⟩ | ⟨b, p1, l1, hrun, hle, h1, hkept, hsize, helems⟩ | hrun
  · refine .inl ⟨{}, p, ?_, After.intro .none rfl h (contents_none p) (Kept.refl _ _) (written_nil _ rfl)⟩
    refine (Prog.bind_ok ((Prog.bind_ok hrun).trans rfl)).trans ?_
    rw [Nat.zero_mul]
    rfl
  · have hb : b.off + b.size ≤ p1.size - headerSize := h1.stop_le List.mem_cons_self
    obtain ⟨q, hq, hw, hok, hkq, hcells⟩ := fill_run (T := T) (k := 0) (a := b.off) (i := 0) value vals h1
      (by rw [Nat.zero_add]; exact hle) rfl fun j _ hj => by
        obtain ⟨hl, hr⟩ := hvals j (by omega)
        exact ⟨hl, fun q hs hk => hr q (hs.trans hsize) (hkept.trans hk)⟩
    rw [Nat.zero_mul, Nat.add_zero] at hw
    rw [Nat.zero_add, cells_zero, List.nil_append] at hcells
    refine .inl ⟨stored b T.size n, q, ?_, After.intro (.some hle) (hw.size.trans hsize) hok ?_
      (hkept.trans hkq) ?_⟩
    · refine (Prog.bind_ok ((Prog.bind_ok hrun).trans rfl)).trans ?_
      refine (Prog.get_bind_run _ _).trans ?_
      show (constructLoop T (p1.offsetToPointer (b.off : Nat)) value 0 n >>= _).run p1 = _
      rw [offsetToPointer_nat (by omega)]
      refine (Prog.bind_ok hq).trans ?_
      rw [hmod]
      rfl
    · rw [contents_stored, hcells]
      simp
    · obtain ⟨es, hes, hin⟩ := hw.written (b := b) (Nat.le_refl _) (by omega)
      exact ⟨es, hes.trans (by rw [helems]), hin⟩
  · exact .inr ⟨_, Prog.bind_throw (Prog.bind_throw hrun)⟩

/-- an element of a vector, read from any pool that has kept its block -/
theorem readElement_run (hd : Storage T.size d o k) {q : Pool} (hkept : Kept p q o) {j : Nat} (hj : j < k) :
    (readElement T (o.head?.map Block.off) j).run q
      = .ok (p.memory.bytes (d.start.toNat + j * T.size) T.size) q := by
  cases hd with
  | none => omega
  | @some b k hk =>
    show Prog.Outcome.ok (q.memory.bytes (b.off + j * T.size) T.size) q = _
    have hcell := cell_le T.size hj
    have hbytes : q.memory.bytes (b.off + j * T.size) T.size = p.memory.bytes (b.off + j * T.size) T.size :=
      Memory.bytes_congr fun x hx hx' => hkept b List.mem_cons_self x (by omega) (by omega)
    rw [hbytes]
    rfl

theorem looks_readElement (ptr : Option Nat) (i : Nat) : Prog.Looks (readElement T ptr i) :=
  (Prog.looks_ofOption ptr).bind fun _ => Prog.looks_get.bind fun _ => Prog.looks_pure _

theorem readElement_state {ptr : Option Nat} {j : Nat} {r r' : Pool} {v : Value}
    (h : (readElement T ptr j).run r = .ok v r') : r' = r := (looks_readElement ptr j).reads.ok r v r' h

theorem Storage.contents_eq (hd : Storage T.size d o k) :
    contents T p d = (List.range k).map fun j => p.memory.bytes (d.start.toNat + j * T.size) T.size := by
  cases hd with
  | none => exact contents_none p
  | some hk => exact contents_stored _ _ _

/-- moving the elements to the front of another block -/
theorem uninitializedMove_run (hd : Storage T.size d o k) (h : PoolOk p l (o ++ rest)) {p1 : Pool}
    {l1 : List Chunk} {b : Block} (h1 : PoolOk p1 l1 (b :: (o ++ rest))) (hkept : Kept p p1 (o ++ rest))
    (hroom : k * T.size ≤ b.size) :
    ∃ q, (uninitializedMove T (p.offsetToPointer d.start) (p.offsetToPointer d.finish) (some b.off)).run p1
        = .ok (some (b.off + k * T.size)) q ∧ Wrote p1 q b.off (k * T.size) ∧
      PoolOk q l1 (b :: (o ++ rest)) ∧ Kept p1 q (o ++ rest) ∧
      cells q.memory b.off T.size k = contents T p d ∧
      Built T p1 q { x | ∃ j < k, x = b.off + j * T.size } := by
  obtain ⟨q, hq, hw, hok, hkq, hcells⟩ := fill_run (T := T) (k := 0) (n := k) (a := b.off) (i := 0)
    (readElement T (p.offsetToPointer d.start))
    (fun j => p.memory.bytes (d.start.toNat + j * T.size) T.size) h1
    (by rw [Nat.zero_add]; exact hroom) rfl fun j _ hj => by
      refine ⟨Memory.bytes_length _ _ _, fun q _ hk => ?_⟩
      rw [hd.start_pointer h]
      exact readElement_run hd ((hkept.trans hk).mono fun c hc => List.mem_append_left _ hc) (by omega)
  rw [Nat.zero_mul, Nat.add_zero] at hw
  rw [Nat.zero_add, cells_zero, List.nil_append] at hcells
  refine ⟨q, ?_, hw, hok, hkq, ?_, ?_⟩
  · refine (Prog.bind_ok (pointerDiff_run hd h p1)).trans ?_
    exact (Prog.bind_ok hq).trans rfl
  · rw [hcells, hd.contents_eq]
    simp
  · exact constructLoop_built_all (fun j r v r' => readElement_state) hq

/-- **Reallocation**: the elements move to new storage for `len` of them, and `extra` new ones come behind
them; these are the elements that are constructed. -/
theorem realloc_run (h : PoolOk p l (o ++ rest)) (hd : Storage T.size d o k) (hwhole : Whole T d)
    {len extra : Nat} (hlen : len * T.size + 15 < 2^64) (hk : k + extra ≤ len) {v : Value}
    (hv : v.length = T.size) :
    (∃ d' p', (realloc T d len extra v).run p = .ok d' p' ∧
      After T p rest p' d' (contents T p d ++ List.replicate extra v) ∧
      (len * T.size : Nat) ≤ d'.endOfStorage - d'.start ∧
      Built T p p' { x | ∃ j < k + extra, x = d'.start.toNat + j * T.size }) ∨
    ∃ e, (realloc T d len extra v).run p = .throw e p := by
  have hstart := hd.start_pointer h
  have hsub : ∀ c ∈ rest, c ∈ o ++ rest := fun c hc => List.mem_append_right _ hc
  rcases allocate_spec h hlen with ⟨rfl, hrun⟩ | ⟨b, p1, l1, hrun, hle, h1, hkept, hsize, helems⟩ | hrun
  · -- no storage is asked for: there are no elements
    obtain ⟨rfl, rfl⟩ : k = 0 ∧ extra = 0 := by omega
    obtain ⟨c, hcap, -, -⟩ := capacity_run hd h hwhole
    obtain ⟨p', l', hfree, hl', hkept, hsize, helems⟩ := deallocatePtr_run h hd
    have hempty : contents T p d = [] := by
      rw [hd.contents_eq]
      rfl
    rw [hempty]
    refine .inl ⟨{}, p', ?_,
      After.intro .none hsize hl' (contents_none _) (hkept.mono hsub) (written_nil _ helems), ?_,
      Built.of_none helems fun x ⟨j, hj, _⟩ => absurd hj (Nat.not_lt_zero j)⟩
    · refine (Prog.get_bind_run _ _).trans ?_
      refine (Prog.bind_ok hrun).trans ?_
      refine (Prog.bind_ok ((Prog.bind_ok (pointerDiff_run hd h p)).trans rfl)).trans ?_
      refine (Prog.bind_ok hcap).trans ?_
      rw [hstart]
      exact (Prog.bind_ok hfree).trans rfl
    · rw [Nat.zero_mul]
      exact Int.le_refl 0
  · have hroom : (k + extra) * T.size ≤ b.size := Nat.le_trans (Nat.mul_le_mul_right _ hk) hle
    have hroom' := hroom
    rw [Nat.add_mul] at hroom'
    have hb : b.off + b.size ≤ p1.size - headerSize := h1.stop_le List.mem_cons_self
    obtain ⟨p2, hmove, hw2, h2, hkept2, hcells2, hbuilt2⟩ := uninitializedMove_run hd h h1 hkept (by omega)
    obtain ⟨p3, hfill, hw3, h3, hkept3, hcells3⟩ := fill_run (T := T) (k := k) (n := extra)
      (a := b.off + k * T.size) (i := 0) (fun _ => pure v) (fun _ => v) h2 hroom
      (by rw [Nat.zero_mul]; rfl) fun j _ _ => ⟨hv, fun q _ _ => rfl⟩
    have h3' : PoolOk p3 l1 (o ++ b :: rest) := h3.perm List.perm_middle.symm
    obtain ⟨c, hcap, -, -⟩ := capacity_run hd h3' hwhole
    obtain ⟨p4, l4, hfree, h4, hkept4, hsize4, helems4⟩ := deallocatePtr_run h3' hd
    have hsize13 : p4.size = p1.size := hsize4.trans (hw3.size.trans hw2.size)
    have hin := (hw2.mono (Nat.le_refl _) (by omega : _ ≤ b.off + b.size)).trans
      (hw3.mono (Nat.le_add_right _ _) (by omega))
    refine .inl ⟨stored b T.size (k + extra), p4, ?_, After.intro (.some hroom) (hsize13.trans hsize) h4 ?_
      ?_ ?_, ?_, ?_⟩
    · refine (Prog.get_bind_run _ _).trans ?_
      refine (Prog.bind_ok hrun).trans ?_
      show (uninitializedMove T _ _ (p.offsetToPointer (b.off : Nat)) >>= _).run p1 = _
      rw [offsetToPointer_nat (by omega)]
      refine (Prog.bind_ok hmove).trans ?_
      refine (Prog.bind_ok hfill).trans ?_
      refine (Prog.bind_ok hcap).trans ?_
      rw [hstart]
      refine (Prog.bind_ok hfree).trans ?_
      refine (Prog.bind_ok (offsetOf_nat (a := b.off + k * T.size + extra * T.size) (n := p4.size)
        (by omega))).trans ?_
      rw [stored, Nat.add_mul, ← Nat.add_assoc]
      rfl
    · rw [contents_stored, hkept4.cells (List.mem_append_right _ List.mem_cons_self) hroom, hcells3, hcells2]
      simp
    · exact (((hkept.trans hkept2).trans hkept3).mono hsub).trans
        (hkept4.mono fun c hc => List.mem_append_right _ (List.mem_cons_of_mem _ hc))
    · obtain ⟨es, hes, hes'⟩ := hin.written (b := b) (Nat.le_refl _) (Nat.le_refl _)
      exact ⟨es, by rw [helems4, hes, helems], hes'⟩
    · show ((len * T.size : Nat) : Int) ≤ ((b.off + b.size : Nat) : Int) - (b.off : Nat)
      omega
    · have hbuilt3 := constructLoop_built_all (fun j r w r' hr => (Prog.Outcome.ok.inj hr).2.symm) hfill
      exact (hbuilt2.append hbuilt3).between helems helems4
  · exact .inr ⟨_, (Prog.get_bind_run _ _).trans (Prog.bind_throw hrun)⟩

theorem realloc_spec (h : PoolOk p l (o ++ rest)) (hd : Storage T.size d o k) (hwhole : Whole T d)
    {len extra : Nat} (hlen : len * T.size + 15 < 2^64) (hk : k + extra ≤ len) {v : Value}
    (hv : v.length = T.size) :
    Spec T p rest (realloc T d len extra v) (contents T p d ++ List.replicate extra v) := by
  rcases realloc_run h hd hwhole hlen hk hv with ⟨d', p', hrun, hafter, -⟩ | hthrow
  · exact .inl ⟨d', p', hrun, hafter⟩
  · exact .inr hthrow

end Stl
end Ipcpp
