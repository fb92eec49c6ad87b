import Ipcpp.Stl.VectorShift

/-!
# Erasing elements of a vector

Both overloads of `erase` close the gap with `_m_move_to`, whose forward loop writes every element to the
first slot of the gap.  So what is left behind the elements in front of the gap is the LAST element of the
vector, followed by what has been there all the time.

`erase_iff`: that is what `erase` should leave exactly if nothing is erased, if at most one element follows
the erased range, or if the elements happen to be equal (`Agrees`).
-/

namespace Ipcpp
namespace Stl

section
variable (T : ElemType)

/-- `erase(first, last)` -/
def eraseRange (d : VecData) (first last : Option Nat) : PoolM (VecData × Option Nat) := do
  let p ← Prog.get
  let start := p.offsetToPointer d.start
  let offset ← difference T start first
  let len ← difference T first last
  if len ≤ 0 then
    let off ← difference T start last
    let it ← advance T start off
    pure (d, it)
  else
    let size ← size T d
    let cend ← advance T start size
    moveTo T d last cend first
    let it ← advance T start offset
    pure ({ d with finish := d.finish - len * T.size }, it)

/-- `erase(pos)` -/
def erase (d : VecData) (pos : Option Nat) : PoolM (VecData × Option Nat) := do
  let p ← Prog.get
  let start := p.offsetToPointer d.start
  let size ← size T d
  let cend ← advance T start size
  let next ← advance T pos 1
  if next = cend then
    let d := { d with finish := d.finish - T.size }
    let size ← Stl.size T d
    let it ← advance T start size
    pure (d, it)
  else
    let offset ← difference T start pos
    moveTo T d next cend pos
    let it ← advance T start offset
    pure ({ d with finish := d.finish - T.size }, it)

end

/-- nothing is erased from `[i, j)`, or at most one element follows it, or these elements are equal: the
first that follows to the last of all, and each of the others to the one `j - i` places in front of it -/
def Agrees (xs : List Value) (i j : Nat) : Prop :=
  i = j ∨ xs.length ≤ j + 1 ∨
    xs[xs.length - 1]? = xs[j]? ∧ ∀ t < xs.length - j, 0 < t → xs[i + t]? = xs[j + t]?

instance (xs : List Value) (i j : Nat) : Decidable (Agrees xs i j) :=
  inferInstanceAs (Decidable (_ ∨ _ ∨ _ ∧ ∀ t < xs.length - j, _ → _))

variable {T : ElemType} {p : Pool} {l : List Chunk} {rest : List Block} {d : VecData} {o : List Block}
  {k : Nat}

/-- `erase` has left `xs` and returned the iterator at index `i`, and the capacity is what it was -/
structure Erased (T : ElemType) (p p' : Pool) (d d' : VecData) (it : Option Nat) (i : Nat)
    (xs : List Value) : Prop where
  contents : contents T p' d' = xs
  size : (size T d').run p' = .ok xs.length p'
  iterator : it = iteratorAt T p' d' i
  capacity : ∀ c, (capacity T d).run p = .ok c p → (capacity T d').run p' = .ok c p'

/-! ## lists -/

theorem moved_erase {i j k t : Nat} (hij : i < j) : moved j k i t = if j < k ∧ t = i then k - 1 else t := by
  have hf : Forward j k i := .inl hij
  have hiff : Target j k i t ↔ j < k ∧ t = i := by
    constructor
    · rintro ⟨-, hlt, ⟨-, ht⟩ | ⟨hnf, -⟩⟩
      · exact ⟨hlt, ht⟩
      · exact absurd hf hnf
    · rintro ⟨hlt, ht⟩
      exact ⟨Nat.ne_of_lt hij, hlt, .inl ⟨hf, ht⟩⟩
  unfold moved
  rw [if_pos hf]
  exact if_congr hiff rfl rfl

theorem map_moved_eq_iff {f : Nat → Value} {i j k : Nat} (hij : i < j) (hjk : j ≤ k) :
    ((List.range (k - (j - i))).map fun t => f (moved j k i t))
        = ((List.range k).map f).take i ++ ((List.range k).map f).drop j ↔
      Agrees ((List.range k).map f) i j := by
  have hget : ∀ t, t < k → ((List.range k).map f)[t]? = some (f t) := fun t ht => by simp [ht]
  have hlen : ((List.range k).map f).length = k := by simp
  -- both sides have `k - (j - i)` elements, and agree up to `i`
  have hext : ((List.range (k - (j - i))).map fun t => f (moved j k i t))
        = ((List.range k).map f).take i ++ ((List.range k).map f).drop j ↔
      ∀ t < k - j, f (moved j k i (i + t)) = f (j + t) := by
    constructor
    · intro h t ht
      have hget' := congrArg (fun xs => xs[i + t]?) h
      simp only [List.getElem?_map] at hget'
      rw [List.getElem?_append_right (by simp), List.getElem?_drop] at hget'
      simp only [List.length_take, List.length_map, List.length_range] at hget'
      rw [List.getElem?_range (by omega), show j + (i + t - min i k) = j + t by omega, hget _ (by omega)] at hget'
      exact Option.some.inj hget'
    · intro h
      refine List.ext_getElem? fun s => ?_
      rcases Nat.lt_or_ge s i with hs | hs
      · rw [List.getElem?_append_left (by simp; omega), List.getElem?_take_of_lt hs, hget s (by omega),
          List.getElem?_map, List.getElem?_range (by omega), Option.map_some, moved_erase hij,
          if_neg (by omega)]
      · obtain ⟨t, rfl⟩ := Nat.exists_eq_add_of_le hs
        rw [List.getElem?_append_right (by simp), List.getElem?_drop]
        simp only [List.length_take, List.length_map, List.length_range]
        rw [show j + (i + t - min i k) = j + t by omega]
        rcases Nat.lt_or_ge t (k - j) with ht | ht
        · rw [List.getElem?_map, List.getElem?_range (by omega), Option.map_some, h t ht, hget _ (by omega)]
        · rw [List.getElem?_eq_none (by simp; omega), List.getElem?_eq_none (by simp; omega)]
  rw [hext]
  unfold Agrees
  rw [hlen]
  constructor
  · intro h
    rcases Nat.lt_or_ge (j + 1) k with hlt | hle
    · refine .inr (.inr ⟨?_, fun t ht hpos => ?_⟩)
      · have h0 := h 0 (by omega)
        rw [moved_erase hij, if_pos ⟨by omega, rfl⟩] at h0
        rw [hget _ (by omega), hget _ (by omega)]
        exact congrArg some h0
      · have hst := h t ht
        rw [moved_erase hij, if_neg (by omega)] at hst
        rw [hget _ (by omega), hget _ (by omega), hst]
    · exact .inr (.inl hle)
  · rintro (h | h | ⟨h0, h⟩) t ht
    · omega
    · obtain rfl : t = 0 := by omega
      rw [moved_erase hij, if_pos ⟨by omega, rfl⟩, show k - 1 = j + 0 by omega]
    · rcases Nat.eq_zero_or_pos t with rfl | hpos
      · rw [moved_erase hij, if_pos ⟨by omega, rfl⟩]
        rw [hget _ (by omega), hget _ (by omega)] at h0
        exact Option.some.inj h0
      · rw [moved_erase hij, if_neg (by omega)]
        have hst := h t ht hpos
        rw [hget _ (by omega), hget _ (by omega)] at hst
        exact Option.some.inj hst

/-! ## the two overloads -/

theorem erased_iff {b : Block} {i j : Nat} (hk : k * T.size ≤ b.size)
    (hij : i < j) (hjk : j ≤ k) {q : Pool} (hq : PoolOk q l (b :: rest)) (hsize : q.size = p.size)
    (hcells : ∀ t, q.memory.bytes (b.off + t * T.size) T.size
      = p.memory.bytes (b.off + moved j k i t * T.size) T.size) :
    Erased T p q (stored b T.size k) (stored b T.size (k - (j - i))) (some (b.off + i * T.size)) i
        ((contents T p (stored b T.size k)).take i ++ (contents T p (stored b T.size k)).drop j) ↔
      Agrees (contents T p (stored b T.size k)) i j := by
  have hb : b.off + b.size ≤ q.size - headerSize := hq.stop_le List.mem_cons_self
  have hle : (k - (j - i)) * T.size ≤ b.size := Nat.le_trans (Nat.mul_le_mul_right _ (by omega)) hk
  have hnew : contents T q (stored b T.size (k - (j - i)))
      = (List.range (k - (j - i))).map fun t => p.memory.bytes (b.off + moved j k i t * T.size) T.size := by
    rw [contents_stored]
    exact List.map_congr_left fun t _ => hcells t
  have hold : contents T p (stored b T.size k)
      = (List.range k).map fun t => p.memory.bytes (b.off + t * T.size) T.size := contents_stored p b k
  rw [hold, ← map_moved_eq_iff (f := fun t => p.memory.bytes (b.off + t * T.size) T.size) hij hjk]
  refine ⟨fun he => hnew ▸ he.contents, fun hxs => ⟨hnew.trans hxs, ?_, ?_, fun c hc => ?_⟩⟩
  · rw [← hxs, List.length_map, List.length_range]
    exact size_run (o := [b]) (.some hle) hq
  · exact (iteratorAt_stored (by omega) _ _).symm
  · -- neither end of the storage has moved
    obtain ⟨hdvd, rfl⟩ := capacity_stored_ok (by omega) hc
    rw [capacity_stored b _ (by omega), if_pos hdvd]
    rfl

/-- what the two overloads share once they know that there is something to move -/
theorem moveTo_erase {b : Block} {i j : Nat} (h : PoolOk p l (b :: rest)) (hk : k * T.size ≤ b.size)
    (hij : i < j) (hjk : j ≤ k) :
    ∃ q, (moveTo T (stored b T.size k) (some (b.off + j * T.size)) (some (b.off + k * T.size))
        (some (b.off + i * T.size))).run p = .ok () q ∧ q.size = p.size ∧ PoolOk q l (b :: rest) ∧
      ∀ t, q.memory.bytes (b.off + t * T.size) T.size
        = p.memory.bytes (b.off + moved j k i t * T.size) T.size := by
  have hb : b.off + b.size ≤ p.size - headerSize := h.stop_le List.mem_cons_self
  have hstart : p.offsetToPointer (stored b T.size k).start = some b.off := offsetToPointer_nat (by omega)
  obtain ⟨q, hrun, hw, hcells, -⟩ := moveTo_run (T := T) (m := i) hstart hjk
  refine ⟨q, hrun, hw.size, h.of_wrote hw List.mem_cons_self (Nat.le_add_right _ _) ?_, hcells⟩
  have hle : (i + (k - j)) * T.size ≤ k * T.size := Nat.mul_le_mul_right _ (by omega)
  rw [Nat.add_mul] at hle
  omega

theorem stored_sub (b : Block) (sz : Nat) {k n : Nat} (h : n ≤ k) :
    ({ stored b sz k with finish := (stored b sz k).finish - n * sz } : VecData) = stored b sz (k - n) := by
  have hfinish : ((b.off + k * sz : Nat) : Int) - (n : Int) * sz = (b.off + (k - n) * sz : Nat) := by
    have hle : n * sz ≤ k * sz := Nat.mul_le_mul_right _ h
    rw [Nat.sub_mul]
    push_cast [hle]
    omega
  unfold stored
  rw [hfinish]

theorem eraseRange_spec (h : PoolOk p l (o ++ rest)) (hd : Storage T.size d o k) {i j : Nat} (hij : i ≤ j)
    (hjk : j ≤ k) :
    ∃ d' it p', (eraseRange T d (iteratorAt T p d i) (iteratorAt T p d j)).run p = .ok (d', it) p' ∧
      (Erased T p p' d d' it i ((contents T p d).take i ++ (contents T p d).drop j) ↔
        Agrees (contents T p d) i j) := by
  have hsize := size_run hd h
  have hcap : ∀ c, (capacity T d).run p = .ok c p → (capacity T d).run p = .ok c p := fun _ hc => hc
  have hlen : (contents T p d).length = k := hd.length_contents
  rcases Nat.eq_or_lt_of_le hij with rfl | hlt
  · -- nothing to erase
    refine ⟨d, iteratorAt T p d i, p, ?_, ?_⟩
    · cases hd with
      | none =>
        obtain rfl : i = 0 := by omega
        have hnull : iteratorAt T p {} 0 = none := by
          unfold iteratorAt
          rw [show p.offsetToPointer (VecData.start {}) = none from offsetToPointer_invalid p]
          rfl
        rw [hnull]
        refine (Prog.get_bind_run _ _).trans ?_
        rw [show p.offsetToPointer (VecData.start {}) = none from offsetToPointer_invalid p]
        rfl
      | @some b k hk =>
        have hb := Storage.bounds h List.mem_cons_self
        have hstart : p.offsetToPointer (stored b T.size k).start = some b.off := offsetToPointer_nat (by omega)
        unfold iteratorAt
        rw [hstart]
        refine (Prog.get_bind_run _ _).trans ?_
        rw [hstart]
        refine (Prog.bind_ok (difference_start_run b.off i p)).trans ?_
        refine (Prog.bind_ok (difference_run (T := T) b.off (Nat.le_refl i) p)).trans ?_
        rw [Nat.sub_self, if_pos (by omega)]
        refine (Prog.bind_ok (difference_start_run b.off i p)).trans ?_
        exact (Prog.bind_ok (advance_run b.off i p)).trans rfl
    · refine ⟨fun _ => .inl rfl, fun _ => ⟨(List.take_append_drop _ _).symm, ?_, rfl, hcap⟩⟩
      rw [List.take_append_drop, hlen]
      exact hsize
  · cases hd with
    | none => omega
    | @some b k hk =>
      have hb := Storage.bounds h List.mem_cons_self
      have hstart : p.offsetToPointer (stored b T.size k).start = some b.off := offsetToPointer_nat (by omega)
      obtain ⟨q, hmove, hqsize, hq, hcells⟩ := moveTo_erase h hk hlt hjk
      refine ⟨stored b T.size (k - (j - i)), some (b.off + i * T.size), q, ?_,
        erased_iff hk hlt hjk hq hqsize hcells⟩
      unfold iteratorAt
      rw [hstart]
      refine (Prog.get_bind_run _ _).trans ?_
      rw [hstart]
      refine (Prog.bind_ok (difference_start_run b.off i p)).trans ?_
      refine (Prog.bind_ok (difference_run (T := T) b.off hij p)).trans ?_
      rw [if_neg (by omega)]
      refine (Prog.bind_ok hsize).trans ?_
      refine (Prog.bind_ok (advance_run b.off k p)).trans ?_
      refine (Prog.bind_ok hmove).trans ?_
      refine (Prog.bind_ok (advance_run b.off i q)).trans ?_
      rw [stored_sub b _ (by omega : j - i ≤ k)]
      rfl

theorem erase_spec (h : PoolOk p l (o ++ rest)) (hd : Storage T.size d o k) {i : Nat} (hik : i < k) :
    ∃ d' it p', (erase T d (iteratorAt T p d i)).run p = .ok (d', it) p' ∧
      (Erased T p p' d d' it i ((contents T p d).take i ++ (contents T p d).drop (i + 1)) ↔
        Agrees (contents T p d) i (i + 1)) := by
  have hsize := size_run hd h
  cases hd with
  | none => omega
  | @some b k hk =>
    have hb := Storage.bounds h List.mem_cons_self
    have hstart : p.offsetToPointer (stored b T.size k).start = some b.off := offsetToPointer_nat (by omega)
    have hone := stored_sub b T.size (by omega : 1 ≤ k)
    have hnext : (advance T (some (b.off + i * T.size)) 1).run p = .ok (some (b.off + (i + 1) * T.size)) p := by
      have hadv := advance_run (T := T) (b.off + i * T.size) 1 p
      rwa [Nat.add_assoc, ← Nat.add_mul] at hadv
    rw [Nat.cast_one, Int.one_mul] at hone
    unfold iteratorAt
    rw [hstart]
    by_cases hlast : i + 1 = k
    · -- the last element: only the end moves
      have hle : (k - 1) * T.size ≤ b.size := Nat.le_trans (Nat.mul_le_mul_right _ (Nat.sub_le _ _)) hk
      have hcells : ∀ t, p.memory.bytes (b.off + t * T.size) T.size
          = p.memory.bytes (b.off + moved (i + 1) k i t * T.size) T.size := by
        intro t
        rw [moved_erase (Nat.lt_add_one i), if_neg (by omega)]
      refine ⟨stored b T.size (k - 1), some (b.off + i * T.size), p, ?_, ?_⟩
      · refine (Prog.get_bind_run _ _).trans ?_
        rw [hstart]
        refine (Prog.bind_ok hsize).trans ?_
        refine (Prog.bind_ok (advance_run b.off k p)).trans ?_
        refine (Prog.bind_ok hnext).trans ?_
        rw [if_pos (by rw [hlast]), hone]
        refine (Prog.bind_ok (size_run (o := [b]) (.some hle) h)).trans ?_
        refine (Prog.bind_ok (advance_run b.off (k - 1) p)).trans ?_
        rw [show i = k - 1 by omega]
        rfl
      · have hiff := erased_iff hk (Nat.lt_add_one i) (by omega) h rfl hcells
        rwa [Nat.add_sub_cancel_left] at hiff
    · obtain ⟨q, hmove, hqsize, hq, hcells⟩ := moveTo_erase h hk (Nat.lt_add_one i) (by omega : i + 1 ≤ k)
      refine ⟨stored b T.size (k - 1), some (b.off + i * T.size), q, ?_, ?_⟩
      · refine (Prog.get_bind_run _ _).trans ?_
        rw [hstart]
        refine (Prog.bind_ok hsize).trans ?_
        refine (Prog.bind_ok (advance_run b.off k p)).trans ?_
        refine (Prog.bind_ok hnext).trans ?_
        rw [if_neg fun he => hlast ((slot_eq_iff b.off (i + 1) k).mp (Option.some.inj he))]
        refine (Prog.bind_ok (difference_start_run b.off i p)).trans ?_
        refine (Prog.bind_ok hmove).trans ?_
        refine (Prog.bind_ok (advance_run b.off i q)).trans ?_
        rw [hone]
        rfl
      · have hiff := erased_iff hk (Nat.lt_add_one i) (by omega) hq hqsize hcells
        rwa [Nat.add_sub_cancel_left] at hiff

/-- **What `erase` leaves**: the elements in front of the erased range and those behind it, exactly if they
agree.  The capacity stays as it is, and the iterator that is returned is at the index of the first erased
element. -/
theorem erase_iff (h : PoolOk p l (o ++ rest)) (hd : Storage T.size d o k) :
    (∀ i j, i ≤ j → j ≤ k →
      ∃ d' it p', (eraseRange T d (iteratorAt T p d i) (iteratorAt T p d j)).run p = .ok (d', it) p' ∧
        (Erased T p p' d d' it i ((contents T p d).take i ++ (contents T p d).drop j) ↔
          Agrees (contents T p d) i j)) ∧
    ∀ i, i < k →
      ∃ d' it p', (erase T d (iteratorAt T p d i)).run p = .ok (d', it) p' ∧
        (Erased T p p' d d' it i ((contents T p d).take i ++ (contents T p d).drop (i + 1)) ↔
          Agrees (contents T p d) i (i + 1)) :=
  ⟨fun _ _ hij hjk => eraseRange_spec h hd hij hjk, fun _ hik => erase_spec h hd hik⟩

/-- the second of three elements: one element follows it -/
theorem erase_iff_second :
    ∃ d p d' it p', (newList octet (octets [1, 2, 3])).run (Pool.new 512) = .ok d p ∧
      (erase octet d (iteratorAt octet p d 1)).run p = .ok (d', it) p' ∧
      Erased octet p p' d d' it 1 (octets [1, 3]) := by
  obtain ⟨d, p, l, hrun, hl, hd, hc, -⟩ := newOctets [1, 2, 3] (by decide) (by decide +kernel)
  obtain ⟨d', it, p', he, hiff⟩ := (erase_iff hl hd).2 1 (by decide)
  rw [hc] at hiff
  exact ⟨d, p, d', it, p', hrun, he, hiff.mpr (by decide)⟩

/-- `{1, 2, 3}` after `erase(begin())`: the elements before and after -/
def eraseFirst : PoolM (List Value × List Value) := do
  let d ← newList octet (octets [1, 2, 3])
  let p ← Prog.get
  let (d', _) ← erase octet d (iteratorAt octet p d 0)
  let q ← Prog.get
  pure (contents octet p d, contents octet q d')

theorem erase_first_leaves_last :
    (eraseFirst.run (Pool.new 512)).toOption.map Prod.fst = some (octets [1, 2, 3], octets [3, 2]) ∧
      octets [3, 2] ≠ (octets [1, 2, 3]).take 0 ++ (octets [1, 2, 3]).drop 1 :=
  ⟨by decide +kernel, by decide⟩

end Stl
end Ipcpp
