import Ipcpp.Stl.TrivialElements

/-!
# Length and capacity

`resize` leaves `_m_realloc_append_n` to make room.  That one passes the new number of elements to
`_m_check_length`, which takes the number of elements to ADD: a count up to `max_size()` is refused if the
vector has as many elements already that the sum is larger (`resize_iff`).

`shrink_to_fit` asks for a block of the size of the elements and takes over what it gets.  The allocator uses
the first free node that is large enough, and does not split it if what is left is no more than a node header;
so the new block may be larger than the old one (`shrinkToFit_iff`).
-/

namespace Ipcpp
namespace Stl
open Prog

section
variable (T : ElemType)

/-- `resize(count, v)` throws `length_error` exactly for a count above `max_size()`; if it returns, the vector
has the old elements, truncated or padded to `count` -/
structure Resizes (p : Pool) (d : VecData) (count : Nat) (v : Value) : Prop where
  throws : (∃ q, (resize T d count v).run p = .throw .lengthError q) ↔ maxSize p T.size < count
  returns : (∃ e q, (resize T d count v).run p = .throw e q) ∨
    ∃ d' q, (resize T d count v).run p = .ok d' q ∧ (size T d').run q = .ok count q ∧
      contents T q d' = (contents T p d).take count ++ List.replicate (count - (contents T p d).length) v

/-- `shrink_to_fit()` of a vector with the capacity `c` leaves the elements as they are and the capacity no
larger; if it throws, it has changed nothing -/
def ShrinksToFit (p : Pool) (d : VecData) (c : Nat) : Prop :=
  match (shrinkToFit T d).run p with
  | .ok d' q => contents T q d' = contents T p d ∧ ∃ c' ≤ c, (capacity T d').run q = .ok c' q
  | .throw _ q => q = p
  | .stuck => False

end

/-! ## what the storage helpers throw -/

theorem never_allocateLoop (bytes fuel a : Nat) : Never {Error.badAlloc}ᶜ (allocateLoop bytes fuel a) := by
  induction fuel generalizing a with
  | zero => exact (looks_ofOption none).never
  | succ fuel ih =>
    refine (looks_readNode a).never.bind fun nd => ?_
    split
    · exact (never_takeNode a bytes).bind fun _ => never_pure _
    · split
      · exact never_throw (Set.notMem_compl_iff.mpr rfl)
      · exact (looks_deref _).never.bind fun next => ih next

variable {T : ElemType} {p : Pool} {l : List Chunk} {rest : List Block} {d : VecData} {o : List Block}
  {k c : Nat}

theorem allocate_pos {n : Nat} (hn : 0 < n) :
    allocate T n = allocateFromList (alignUp (n * T.size % 2^64)) := if_neg (Nat.pos_iff_ne_zero.mp hn)

theorem never_allocate (n : Nat) : Never {Error.badAlloc}ᶜ (Stl.allocate T n) := by
  unfold Stl.allocate
  split
  · exact never_pure _
  · have hnode : Never {Error.badAlloc}ᶜ (allocateNode (alignUp (n * T.size % 2^64))) :=
      looks_get.never.bind fun p => (looks_deref _).never.bind fun node => never_allocateLoop _ _ node
    exact hnode.bind fun _ => (looks_offsetOf _).never.bind fun _ => never_pure _

theorem of_realloc_throw {len extra : Nat} {v : Value} {e : Error} {q : Pool}
    (hrun : (realloc T d len extra v).run p = .throw e q) : (Stl.allocate T len).run p = .throw e q := by
  rcases of_bind_throw ((get_bind_run _ _).symm.trans hrun) with hthrow | ⟨r, p1, -, hrest⟩
  · exact hthrow
  · refine absurd (Set.mem_univ e) ((?_ : Never Set.univ _) p1 e q hrest)
    have hmoves : ∀ srcStart srcEnd dst, Never Set.univ (uninitializedMove T srcStart srcEnd dst) := by
      intro srcStart srcEnd dst
      refine (looks_pointerDiff T _ _).never.bind fun n => Never.bind ?_ fun _ => never_pure _
      exact VectorState.never_stlConstructLoop (looks_readElement srcStart) dst 0 n
    refine (hmoves _ _ _).bind fun fin => ?_
    refine (VectorState.never_stlConstructLoop (fun _ => looks_pure v) _ 0 extra).bind fun _ => ?_
    refine (looks_capacity T d).never.bind fun _ => (never_deallocatePtr _).bind fun _ => ?_
    exact (looks_offsetOf _).never.bind fun _ => never_pure _

/-! ## `resize` -/

theorem Storage.le_capacity (h : PoolOk p l (o ++ rest)) (hd : Storage T.size d o k) (hp : p.size < 2^64)
    (hc : (capacity T d).run p = .ok c p) : k ≤ c ∧ c ≤ maxSize p T.size := by
  obtain ⟨hblock, hnone, -⟩ := capacity_room h hd hp hc
  cases hd with
  | none => exact ⟨Nat.zero_le _, hnone rfl ▸ Nat.zero_le _⟩
  | @some b k hk =>
    have hsize := hblock b List.mem_cons_self
    have hb := Storage.bounds h List.mem_cons_self
    refine ⟨Nat.le_of_mul_le_mul_right (hsize ▸ hk) T.pos, (Nat.le_div_iff_mul_le T.pos).mpr ?_⟩
    unfold headerSize at hb
    unfold nodeSize
    omega

section
variable (h : PoolOk p l (o ++ rest)) (hd : Storage T.size d o k) (hp : p.size < 2^64)
include h hd hp

theorem resize_returns {count : Nat} (hwhole : k < count → Whole T d) {v : Value} (hv : v.length = T.size) :
    (∃ e q, (resize T d count v).run p = .throw e q) ∨
    ∃ d' q, (resize T d count v).run p = .ok d' q ∧ (size T d').run q = .ok count q ∧
      contents T q d' = (contents T p d).take count ++ List.replicate (count - (contents T p d).length) v := by
  have hlen : (contents T p d).length = k := hd.length_contents
  rw [hlen]
  rcases resize_spec h hd hp hwhole hv with ⟨d', q, hrun, hafter⟩ | ⟨e, hrun⟩
  · obtain ⟨l', hl'⟩ := hafter.ok
    obtain ⟨k', hd'⟩ := hafter.stored
    refine .inr ⟨d', q, hrun, ?_, hafter.contents⟩
    -- the size is the number of the elements
    have hk' : k' = count := by
      rw [← hd'.length_contents (p := q), hafter.contents]
      simp only [List.length_append, List.length_take, List.length_replicate, hlen]
      omega
    rw [← hk']
    exact size_run hd' hl'
  · exact .inl ⟨e, p, hrun⟩

theorem resize_within {count : Nat} (hle : count ≤ k) {v : Value} (hv : v.length = T.size) :
    Resizes T p d count v := by
  refine ⟨?_, resize_returns h hd hp (fun hlt => absurd hlt (by omega)) hv⟩
  have hmax := hd.le_maxSize h
  have hrun : (resize T d count v).run p = _ := Prog.bind_ok (size_run hd h)
  rw [hrun]
  refine iff_of_false (fun ⟨q, hq⟩ => ?_) (by omega)
  rcases Nat.eq_or_lt_of_le hle with heq | hlt
  · rw [if_pos heq] at hq
    cases hq
  · rw [if_neg (by omega), if_pos hlt] at hq
    cases hq

variable (hc : (capacity T d).run p = .ok c p)
include hc

/-- `resize` throws `length_error` exactly if the storage has to be replaced, and there is no room for `count`
elements beside the ones the vector has -/
theorem resize_throws_iff (count : Nat) {v : Value} (hv : v.length = T.size) :
    (∃ q, (resize T d count v).run p = .throw .lengthError q) ↔ c < count ∧ maxSize p T.size - k < count := by
  obtain ⟨hkc, hcm⟩ := hd.le_capacity h hp hc
  by_cases hle : count ≤ k
  · rw [(resize_within h hd hp hle hv).throws]
    omega
  have hrun : (resize T d count v).run p = _ := Prog.bind_ok (size_run hd h)
  rw [hrun, if_neg (by omega), if_neg (by omega), Prog.bind_ok hc]
  by_cases hroom : count ≤ c
  · rw [if_pos hroom]
    refine iff_of_false (fun ⟨q, hq⟩ => ?_) (by omega)
    have hnever : Never Set.univ (Prog.get >>= fun p => constructLoop T (p.offsetToPointer d.start)
        (fun _ => pure v) k (count - k) >>= fun _ =>
          (pure { d with finish := d.start + (count * T.size : Nat) } : PoolM VecData)) :=
      looks_get.never.bind fun p =>
        (VectorState.never_stlConstructLoop (fun _ => looks_pure v) _ _ _).bind fun _ => never_pure _
    exact hnever p _ q hq (Set.mem_univ _)
  rw [if_neg hroom]
  have hnone := grownLength_none_iff (n := count) (hd.le_maxSize h) (maxSize_lt (T := T) hp)
  constructor
  · rintro ⟨q, hq⟩
    refine ⟨Nat.not_le.mp hroom, hnone.mp ?_⟩
    by_contra hsome
    obtain ⟨len, hlen⟩ := Option.ne_none_iff_exists'.mp hsome
    have hcheck : (checkLength T d count).run p = .ok len p := by
      rw [checkLength_eq h hd, hlen]
      rfl
    have hrealloc : (reallocAppendN T d count v).run p = (realloc T d len (count - k) v).run p :=
      (Prog.bind_ok hcheck).trans (Prog.bind_ok (size_run hd h))
    have halloc := of_realloc_throw (hrealloc.symm.trans hq)
    exact never_allocate len p _ q halloc (by simp)
  · rintro ⟨-, hlong⟩
    refine ⟨p, Prog.bind_throw ?_⟩
    rw [checkLength_eq h hd, hnone.mpr hlong]
    rfl

theorem resizes_iff {count : Nat} {v : Value} (hv : v.length = T.size) :
    Resizes T p d count v ↔ ¬ (c < count ∧ count ≤ maxSize p T.size ∧ maxSize p T.size < k + count) := by
  obtain ⟨hkc, hcm⟩ := hd.le_capacity h hp hc
  constructor
  · rintro hr ⟨hgrow, hle, hsum⟩
    have hthrow := (resize_throws_iff h hd hp hc count hv).mpr ⟨hgrow, by omega⟩
    exact Nat.not_lt.mpr hle (hr.throws.mp hthrow)
  · intro hno
    refine ⟨(resize_throws_iff h hd hp hc count hv).trans ⟨fun hlong => ?_, fun hlarge => ?_⟩,
      resize_returns h hd hp (fun _ => whole_of_capacity hd h hc) hv⟩
    · by_contra hle
      exact hno ⟨hlong.1, by omega, by omega⟩
    · exact ⟨by omega, by omega⟩

end

theorem resize_stuck (h : PoolOk p l (o ++ rest)) (hd : Storage T.size d o k) {count : Nat} (hlt : k < count)
    (hw : ¬ Whole T d) (v : Value) : (resize T d count v).run p = .stuck := by
  have hrun : (resize T d count v).run p = _ := Prog.bind_ok (size_run hd h)
  rw [hrun, if_neg (by omega), if_neg (by omega)]
  exact Prog.bind_stuck (capacity_stuck hd h hw)

/-- **Both overloads of `resize` report `length_error` as they should**, and leave the elements they should,
if no element is added; otherwise the block has to be a whole number of elements, and the count must not be above
the capacity, not above `max_size()`, and above it together with the size. -/
theorem resize_iff (h : PoolOk p l (o ++ rest)) (hd : Storage T.size d o k) (hp : p.size < 2^64) {count : Nat}
    {v : Value} (hv : v.length = T.size) :
    (Resizes T p d count T.zero ∧ Resizes T p d count v) ↔
      count ≤ k ∨ ∃ c, (capacity T d).run p = .ok c p ∧
        ¬ (c < count ∧ count ≤ maxSize p T.size ∧ maxSize p T.size < k + count) := by
  by_cases hle : count ≤ k
  · exact iff_of_true ⟨resize_within h hd hp hle T.zero_length, resize_within h hd hp hle hv⟩ (.inl hle)
  by_cases hw : Whole T d
  · obtain ⟨c, hc, -⟩ := capacity_run hd h hw
    rw [resizes_iff h hd hp hc T.zero_length, resizes_iff h hd hp hc hv, and_self_iff, or_iff_right hle]
    constructor
    · exact fun hno => ⟨c, hc, hno⟩
    · rintro ⟨c', hc', hno⟩
      obtain rfl := (Outcome.ok.inj (hc.symm.trans hc')).1
      exact hno
  · refine iff_of_false (fun hr => ?_) ?_
    · have hstuck := resize_stuck h hd (Nat.not_le.mp hle) hw v
      rcases hr.2.returns with ⟨e, q, hq⟩ | ⟨d', q, hq, -⟩ <;> rw [hstuck] at hq <;> cases hq
    · rintro (hle' | ⟨c, hc, -⟩)
      · exact hle hle'
      · exact hw (whole_of_capacity hd h hc)

/-- twenty elements for two: the block of 16 bytes is replaced -/
theorem resize_iff_grows :
    ∃ d p, (newList octet (octets [1, 2])).run (Pool.new 512) = .ok d p ∧
      Resizes octet p d 20 octet.zero ∧ Resizes octet p d 20 [some 9] := by
  obtain ⟨d, p, l, hrun, hl, hd, hc, hsize, hcap⟩ := newOctets [1, 2] (by decide) (by decide +kernel)
  refine ⟨d, p, hrun, (resize_iff hl hd (hsize ▸ (by decide)) rfl).mpr (.inr ⟨_, hcap, ?_⟩)⟩
  rintro ⟨-, -, hlong⟩
  have hmax : maxSize p octet.size = 480 := by
    unfold maxSize
    rw [hsize]
    rfl
  rw [hmax] at hlong
  exact absurd hlong (by decide)

/-- 100 elements in a pool of 512 bytes, where `max_size()` is 480: `resize(400)` is refused, because there is
no room for 400 MORE -/
theorem resize_four_hundred_refused :
    ∃ d p q, (newSized octet 100).run (Pool.new 512) = .ok d p ∧ maxSize p octet.size = 480 ∧
      (resize octet d 400 octet.zero).run p = .throw .lengthError q ∧ ¬ Resizes octet p d 400 octet.zero := by
  have hfacts : (((newSized octet 100).run (Pool.new 512)).toOption.map fun r =>
      (maxSize r.2 octet.size, ((resize octet r.1 400 octet.zero).run r.2).thrown.map Prod.fst))
      = some (480, some .lengthError) := by decide +kernel
  obtain ⟨⟨d, p⟩, hdp, hfacts⟩ := Option.map_eq_some_iff.mp hfacts
  obtain ⟨hmax, hthrown⟩ := Prod.mk.inj hfacts
  obtain ⟨⟨e, q⟩, hq, rfl⟩ := Option.map_eq_some_iff.mp hthrown
  have hthrow := Outcome.of_thrown hq
  refine ⟨d, p, q, Outcome.of_toOption hdp, hmax, hthrow, fun hr => ?_⟩
  have hlarge : maxSize p octet.size < 400 := hr.throws.mp ⟨q, hthrow⟩
  rw [show maxSize p octet.size = 480 from hmax] at hlarge
  exact absurd hlarge (by decide)

/-! ## `shrink_to_fit` -/

theorem realloc_storage {len extra : Nat} {v : Value} {d' : VecData} {p' : Pool}
    (hrun : (realloc T d len extra v).run p = .ok d' p') :
    ∃ n p1, (allocate T len).run p = .ok (d'.start, n) p1 ∧ d'.endOfStorage = d'.start + (n : Nat) := by
  obtain ⟨⟨start, n⟩, p1, halloc, hrun⟩ := Prog.of_bind_ok ((Prog.get_bind_run _ _).symm.trans hrun)
  obtain ⟨fin, p2, -, hrun⟩ := Prog.of_bind_ok hrun
  obtain ⟨-, p3, -, hrun⟩ := Prog.of_bind_ok hrun
  obtain ⟨-, p4, -, hrun⟩ := Prog.of_bind_ok hrun
  obtain ⟨-, p5, -, hrun⟩ := Prog.of_bind_ok hrun
  obtain ⟨off, p6, -, hrun⟩ := Prog.of_bind_ok hrun
  obtain ⟨rfl, -⟩ := Outcome.ok.inj hrun
  exact ⟨n, p1, halloc, rfl⟩

theorem capacity_le_iff (h : PoolOk p l (o ++ rest)) (hd : Storage T.size d o k) {n : Nat}
    (hn : d.endOfStorage = d.start + (n : Nat)) :
    (∃ c' ≤ c, (capacity T d).run p = .ok c' p) ↔ T.size ∣ n ∧ n ≤ c * T.size := by
  cases hd with
  | none =>
    obtain rfl : n = 0 := by
      have : (-1 : Int) = -1 + (n : Nat) := hn
      omega
    refine iff_of_true ⟨0, Nat.zero_le c, ?_⟩ ⟨Nat.dvd_zero _, Nat.zero_le _⟩
    obtain ⟨c', hc', -, hnone⟩ := capacity_run .none (show PoolOk p l ([] ++ rest) from h) ⟨0, rfl⟩
    rw [hnone rfl] at hc'
    exact hc'
  | @some b k hk =>
    have hb := Storage.bounds h List.mem_cons_self
    obtain rfl : n = b.size := by
      have : ((b.off + b.size : Nat) : Int) = (b.off : Nat) + (n : Nat) := hn
      omega
    constructor
    · rintro ⟨c', hle, hc'⟩
      obtain ⟨hdvd, rfl⟩ := capacity_stored_ok (by omega) hc'
      exact ⟨hdvd, (Nat.div_le_iff_le_mul_of_dvd T.pos.ne' hdvd).mp hle⟩
    · rintro ⟨hdvd, hle⟩
      refine ⟨b.size / T.size, (Nat.div_le_iff_le_mul_of_dvd T.pos.ne' hdvd).mpr hle, ?_⟩
      rw [capacity_stored b k (by omega), if_pos hdvd]
      rfl

section
variable (h : PoolOk p l (o ++ rest)) (hd : Storage T.size d o k) (hp : p.size < 2^64)
  (hc : (capacity T d).run p = .ok c p)
include h hd hp hc

omit hp in
theorem shrinkToFit_run (hne : c ≠ k) : (shrinkToFit T d).run p = (realloc T d k 0 T.zero).run p := by
  have hrun : (shrinkToFit T d).run p = (reallocCopy T d k).run p := by
    refine (Prog.bind_ok hc).trans ((Prog.bind_ok (size_run hd h)).trans ?_)
    rw [if_neg hne]
  refine hrun.trans ((Prog.get_bind_run _ _).trans ?_)
  rw [if_neg (Nat.not_lt.mpr (hd.le_maxSize h))]

omit hp in
theorem shrinksToFit_full (heq : c = k) : ShrinksToFit T p d c := by
  have hrun : (shrinkToFit T d).run p = .ok d p := by
    refine (Prog.bind_ok hc).trans ((Prog.bind_ok (size_run hd h)).trans ?_)
    rw [if_pos heq]
    rfl
  unfold ShrinksToFit
  rw [hrun]
  exact ⟨rfl, c, le_rfl, hc⟩

/-- **`shrink_to_fit` keeps the elements and does not grow the storage**, exactly if it has nothing to do, or
nothing to keep, or the lowest free run with room for the elements gives a whole number of them and no more than
the capacity was. -/
theorem shrinkToFit_iff : ShrinksToFit T p d c ↔ c = k ∨ k = 0 ∨
    ∀ a e, LowestRun p.size (o ++ rest) (alignUp (k * T.size)) a e →
      T.size ∣ takenBytes (e - a) (alignUp (k * T.size)) ∧
        takenBytes (e - a) (alignUp (k * T.size)) ≤ c * T.size := by
  have hlowest := h.forall_lowest_iff (dvd_alignUp (k * T.size)) fun n => T.size ∣ n ∧ n ≤ c * T.size
  refine Iff.trans ?_ (or_congr_right (or_congr_right hlowest.symm))
  by_cases heq : c = k
  · exact iff_of_true (shrinksToFit_full h hd hc heq) (.inl heq)
  have hrun := shrinkToFit_run h hd hc heq
  have hbytes := maxSize_mul_le p (hd.le_maxSize h)
  have hroom := h.room
  have hlen : k * T.size + 15 < 2^64 := by
    unfold headerSize nodeSize at *
    omega
  have halloc : 0 < k → allocate T k = allocateFromList (alignUp (k * T.size)) := fun hk => by
    rw [allocate_pos hk, Nat.mod_eq_of_lt (by omega)]
  rcases realloc_run h hd (whole_of_capacity hd h hc) hlen (show k + 0 ≤ k from Nat.le_refl k)
      T.zero_length with
    ⟨d', q, hok, hafter, -⟩ | ⟨err, hthrow⟩
  · obtain ⟨l', hl'⟩ := hafter.ok
    obtain ⟨k', hd'⟩ := hafter.stored
    have hcontents := hafter.contents
    rw [List.replicate_zero, List.append_nil] at hcontents
    obtain ⟨n, p1, hnew, hend⟩ := realloc_storage hok
    have hiff : ShrinksToFit T p d c ↔ T.size ∣ n ∧ n ≤ c * T.size := by
      unfold ShrinksToFit
      rw [hrun, hok]
      exact (and_iff_right hcontents).trans (capacity_le_iff hl' hd' hend)
    rw [hiff, or_iff_right heq]
    rcases Nat.eq_zero_or_pos k with rfl | hk
    · -- no storage is asked for
      obtain ⟨hpair, -⟩ := Outcome.ok.inj (show Outcome.ok (-1, 0) p = .ok (d'.start, n) p1 from hnew)
      obtain rfl := (Prod.mk.inj hpair).2
      exact iff_of_true ⟨Nat.dvd_zero _, Nat.zero_le _⟩ (.inl rfl)
    · rw [halloc hk] at hnew
      constructor
      · intro hfit
        refine .inr fun off n' q' hgot => ?_
        obtain ⟨hpair, -⟩ := Outcome.ok.inj (hnew.symm.trans hgot)
        obtain rfl := (Prod.mk.inj hpair).2
        exact hfit
      · exact fun hfit => hfit.resolve_left (Nat.ne_of_gt hk) _ n p1 hnew
  · refine iff_of_true ?_ (.inr ?_)
    · unfold ShrinksToFit
      rw [hrun, hthrow]
    · rcases Nat.eq_zero_or_pos k with rfl | hk
      · exact .inl rfl
      · have hnone := of_realloc_throw hthrow
        rw [halloc hk] at hnone
        refine .inr fun off n q' hgot => ?_
        rw [hnone] at hgot
        cases hgot

end

/-- two bytes in a block of 16, with all the room behind it: the new block has 16 bytes too -/
theorem shrinkToFit_iff_same :
    ∃ d p, (newList octet (octets [1, 2])).run (Pool.new 512) = .ok d p ∧
      (capacity octet d).run p = .ok 16 p ∧ ShrinksToFit octet p d 16 := by
  obtain ⟨d, p, l, hrun, hl, hd, hc, hsize, hcap⟩ := newOctets [1, 2] (by decide) (by decide +kernel)
  refine ⟨d, p, hrun, hcap, (shrinkToFit_iff hl hd (hsize ▸ (by decide)) hcap).mpr (.inr (.inr ?_))⟩
  intro a e hlow
  have hbusy : ∀ x, Busy ([⟨32, 16⟩] ++ []) x ↔ x < 48 := by
    intro x
    simp [Busy, nodeSize]
  have hne := hlow.run.nonempty
  have hfree := hlow.run.free a le_rfl hne
  have hleft := hlow.run.left
  have hright := hlow.run.right
  rw [hbusy] at hfree hleft
  rw [hbusy, hsize] at hright
  -- the run goes from the end of the block to the end of the pool
  obtain rfl : e = 384 := by
    unfold headerSize at hright
    omega
  obtain rfl : a = 48 := by omega
  decide

/-- the vector `{1, 2}` behind a block of 48 bytes that is given back -/
def behindGap : PoolM VecData := do
  let (a, _) ← allocateAtLeast 1 48
  let d ← newList octet (octets [1, 2])
  deallocate a
  pure d

/-- the node of 48 bytes is not split for 16: the capacity grows from 16 to 48 -/
theorem shrink_to_fit_grows :
    ∃ d p d' q, behindGap.run (Pool.new 512) = .ok d p ∧ (capacity octet d).run p = .ok 16 p ∧
      (shrinkToFit octet d).run p = .ok d' q ∧ (capacity octet d').run q = .ok 48 q ∧
      ¬ ShrinksToFit octet p d 16 := by
  have hfacts : (behindGap.run (Pool.new 512)).toOption.map (fun r =>
      (((capacity octet r.1).run r.2).toOption.map Prod.fst,
        ((shrinkToFit octet r.1).run r.2).toOption.map fun r' =>
          ((capacity octet r'.1).run r'.2).toOption.map Prod.fst)) = some (some 16, some (some 48)) := by
    decide +kernel
  obtain ⟨⟨d, p⟩, hdp, hfacts⟩ := Option.map_eq_some_iff.mp hfacts
  obtain ⟨h16, hshrunk⟩ := Prod.mk.inj hfacts
  obtain ⟨⟨d', q⟩, hdq, h48⟩ := Option.map_eq_some_iff.mp hshrunk
  obtain ⟨⟨c, p'⟩, hc, rfl⟩ := Option.map_eq_some_iff.mp h16
  obtain ⟨⟨c', q'⟩, hc', hlarge⟩ := Option.map_eq_some_iff.mp h48
  have hcap := Outcome.of_toOption hc
  have hcap' := Outcome.of_toOption hc'
  have hshrink := Outcome.of_toOption hdq
  obtain rfl := (looks_capacity octet d).reads.ok _ _ _ hcap
  obtain rfl := (looks_capacity octet d').reads.ok _ _ _ hcap'
  obtain rfl : c' = 48 := hlarge
  refine ⟨d, p', d', q', Outcome.of_toOption hdp, hcap, hshrink, hcap', fun hs => ?_⟩
  unfold ShrinksToFit at hs
  rw [hshrink] at hs
  obtain ⟨-, c, hle, hc48⟩ := hs
  obtain rfl := (Outcome.ok.inj (hcap'.symm.trans hc48)).1
  exact absurd hle (by decide)

end Stl
end Ipcpp
