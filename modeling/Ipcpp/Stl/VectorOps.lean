import Ipcpp.Stl.VectorSpec

/-!
# The public functions of a vector

One `Spec` for each of them, in terms of the elements before and after.
-/

namespace Ipcpp
namespace Stl

variable {T : ElemType} {p : Pool} {l : List Chunk} {rest : List Block} {d : VecData} {o : List Block}
  {k : Nat}

theorem Spec.congr {m m' : PoolM VecData} {xs : List Value} (hm : m.run p = m'.run p)
    (h : Spec T p rest m' xs) : Spec T p rest m xs := by
  unfold Spec
  rw [hm]
  exact h

/-- only the data of the vector changes -/
theorem Spec.pure {d' : VecData} {k' : Nat} {xs : List Value} (h : PoolOk p l (o ++ rest))
    (hd : Storage T.size d' o k') (hc : contents T p d' = xs) : Spec T p rest (Pure.pure d') xs :=
  .inl ⟨d', p, rfl, After.intro hd rfl h hc (Kept.refl _ _) (written_nil _ rfl)⟩

/-! ## growing -/

theorem grownLength_some {most size n len : Nat} (hsize : size ≤ most) (hmost : most < 2^64)
    (h : grownLength most size n = some len) : size + n ≤ len ∧ len ≤ most := by
  unfold grownLength at h
  split at h
  · cases h
  · rename_i hn
    obtain rfl := Option.some.inj h
    have hroom : size + n ≤ most := by omega
    split <;> omega

/-- it is for `n` MORE elements that there has to be room -/
theorem grownLength_none_iff {most size n : Nat} (hsize : size ≤ most) (hmost : most < 2^64) :
    grownLength most size n = none ↔ most - size < n := by
  have hmod : (2^64 + most - size) % 2^64 = most - size := by omega
  unfold grownLength
  rw [hmod]
  split <;> simp_all

theorem maxSize_lt (hp : p.size < 2^64) : maxSize p T.size < 2^64 :=
  Nat.lt_of_le_of_lt (Nat.le_trans (Nat.div_le_self _ _) (Nat.sub_le _ _)) hp

theorem checkLength_eq (h : PoolOk p l (o ++ rest)) (hd : Storage T.size d o k) (n : Nat) :
    (checkLength T d n).run p = (lengthOrThrow (grownLength (maxSize p T.size) k n)).run p := by
  refine (Prog.get_bind_run _ _).trans ?_
  exact Prog.bind_ok (size_run hd h)

/-- the new capacity has room for `n` more elements, and its bytes can be counted in 64 bits -/
theorem checkLength_run (h : PoolOk p l (o ++ rest)) (hd : Storage T.size d o k) (hp : p.size < 2^64)
    (n : Nat) :
    (∃ len, (checkLength T d n).run p = .ok len p ∧ k + n ≤ len ∧ len * T.size + 15 < 2^64) ∨
    (checkLength T d n).run p = .throw .lengthError p := by
  rw [checkLength_eq h hd]
  rcases hlen : grownLength (maxSize p T.size) k n with _ | len
  · exact .inr rfl
  · obtain ⟨hroom, hle⟩ := grownLength_some (hd.le_maxSize h) (maxSize_lt hp) hlen
    refine .inl ⟨len, rfl, hroom, ?_⟩
    have := maxSize_mul_le p hle
    have := h.room
    unfold headerSize nodeSize at *
    omega

section
variable (h : PoolOk p l (o ++ rest)) (hd : Storage T.size d o k) (hp : p.size < 2^64)
include h hd hp

theorem reallocAppendN_spec (hwhole : Whole T d) {n : Nat} {v : Value} (hv : v.length = T.size) :
    Spec T p rest (reallocAppendN T d n v) (contents T p d ++ List.replicate (n - k) v) := by
  rcases checkLength_run h hd hp n with ⟨len, hrun, hroom, hlen⟩ | hrun
  · refine Spec.congr ?_ (realloc_spec h hd hwhole hlen (show k + (n - k) ≤ len by omega) hv)
    exact (Prog.bind_ok hrun).trans (Prog.bind_ok (size_run hd h))
  · exact .inr ⟨_, Prog.bind_throw hrun⟩

theorem reallocAppend_spec (hwhole : Whole T d) {v : Value} (hv : v.length = T.size) :
    Spec T p rest (reallocAppend T d v) (contents T p d ++ [v]) := by
  rcases checkLength_run h hd hp 1 with ⟨len, hrun, hroom, hlen⟩ | hrun
  · exact Spec.congr (Prog.bind_ok hrun) (realloc_spec h hd hwhole hlen hroom hv)
  · exact .inr ⟨_, Prog.bind_throw hrun⟩

theorem reallocCopy_spec (hwhole : Whole T d) {n : Nat} (hn : k ≤ n) :
    Spec T p rest (reallocCopy T d n) (contents T p d) := by
  have hget : (reallocCopy T d n).run p = (if maxSize p T.size < n then Prog.throw .lengthError
      else realloc T d n 0 T.zero : PoolM VecData).run p := Prog.get_bind_run _ _
  by_cases hmax : maxSize p T.size < n
  · refine .inr ⟨.lengthError, ?_⟩
    rw [hget, if_pos hmax]
    rfl
  · rw [if_neg hmax] at hget
    have hbytes := maxSize_mul_le p (Nat.le_of_not_lt hmax)
    have hspec : Spec T p rest (realloc T d n 0 T.zero) (contents T p d ++ List.replicate 0 T.zero) :=
      realloc_spec h hd hwhole (by have := h.room; unfold headerSize nodeSize at *; omega) hn T.zero_length
    rw [List.replicate_zero, List.append_nil] at hspec
    exact Spec.congr hget hspec

theorem reserve_spec (hwhole : Whole T d) (n : Nat) : Spec T p rest (reserve T d n) (contents T p d) := by
  obtain ⟨c, hcap, hc, hc0⟩ := capacity_run hd h hwhole
  refine Spec.congr (Prog.bind_ok hcap) ?_
  split
  · exact Spec.pure h hd rfl
  · -- the capacity is not less than the size
    have hkc : k ≤ c := by
      cases hd with
      | none => exact Nat.zero_le _
      | @some b k hk =>
        have := hc b List.mem_cons_self
        exact Nat.le_of_mul_le_mul_right (by omega) T.pos
    exact reallocCopy_spec h hd hp hwhole (by omega)

theorem shrinkToFit_spec (hwhole : Whole T d) : Spec T p rest (shrinkToFit T d) (contents T p d) := by
  obtain ⟨c, hcap, -, -⟩ := capacity_run hd h hwhole
  refine Spec.congr ((Prog.bind_ok hcap).trans (Prog.bind_ok (size_run hd h))) ?_
  split
  · exact Spec.pure h hd rfl
  · exact reallocCopy_spec h hd hp hwhole (Nat.le_refl _)

theorem pushBack_spec (hfits : Fits T d) {v : Value} (hv : v.length = T.size) :
    Spec T p rest (pushBack T d v) (contents T p d ++ [v]) := by
  by_cases hfull : d.finish = d.endOfStorage
  · -- full: the capacity is the size
    have hwhole : Whole T d := by
      unfold Whole
      rw [← hfull]
      cases hd with
      | none => exact ⟨0, rfl⟩
      | @some b k hk =>
        refine ⟨k, ?_⟩
        show ((b.off + k * T.size : Nat) : Int) - (b.off : Nat) = T.size * k
        push_cast
        rw [Int.mul_comm]
        omega
    refine Spec.congr ?_ (reallocAppend_spec h hd hp hwhole hv)
    unfold pushBack
    rw [if_neg (not_not.mpr hfull)]
  · have hroom := hfits.resolve_left hfull
    cases hd with
    | none => exact absurd rfl hfull
    | @some b k hk =>
      have hroom' : (k + 1) * T.size ≤ b.size := by
        have : ((b.off + k * T.size : Nat) : Int) + T.size ≤ (b.off + b.size : Nat) := hroom
        rw [Nat.succ_mul]
        omega
      have hb := Storage.bounds h List.mem_cons_self
      obtain ⟨q, hq, hw, hok, hkept, hcells⟩ := fill_run (T := T) (k := k) (n := 1)
        (a := b.off + k * T.size) (i := 0) (fun _ => Pure.pure v) (fun _ => v) h hroom'
        (by rw [Nat.zero_mul]; rfl) fun j _ _ => ⟨hv, fun q _ _ => rfl⟩
      refine .inl ⟨stored b T.size (k + 1), q, ?_, After.intro (.some hroom') hw.size hok ?_ hkept ?_⟩
      · unfold pushBack
        rw [if_pos hfull]
        refine (Prog.get_bind_run _ _).trans ?_
        show (constructAt T (p.offsetToPointer (b.off + k * T.size : Nat)) 0 v >>= _).run p = _
        rw [offsetToPointer_nat (by omega)]
        refine (Prog.bind_ok (show _ = Prog.Outcome.ok () q from hq)).trans ?_
        have hfinish : ((b.off + (k + 1) * T.size : Nat) : Int) = (b.off + k * T.size : Nat) + T.size := by
          rw [Nat.succ_mul]
          push_cast
          omega
        unfold stored
        rw [hfinish]
        rfl
      · rw [contents_stored, contents_stored, hcells]
        simp
      · exact hw.written (Nat.le_add_right _ _) (by rw [Nat.succ_mul] at hroom'; omega)

theorem emplaceBack_spec (hfits : Fits T d) {v : Value} (hv : v.length = T.size) :
    Spec T p rest (emplaceBack T d v) (contents T p d ++ [v]) := by
  rcases pushBack_spec h hd hp hfits hv with ⟨d', p', hrun, hafter⟩ | ⟨e, hrun⟩
  · obtain ⟨k', hd'⟩ := hafter.stored
    obtain ⟨l', hl'⟩ := hafter.ok
    refine .inl ⟨d', p', ?_, hafter⟩
    refine (Prog.bind_ok hrun).trans ?_
    exact (Prog.bind_ok (size_run hd' hl')).trans rfl
  · exact .inr ⟨e, Prog.bind_throw hrun⟩

theorem resize_spec {count : Nat} (hwhole : k < count → Whole T d) {v : Value} (hv : v.length = T.size) :
    Spec T p rest (resize T d count v)
      ((contents T p d).take count ++ List.replicate (count - k) v) := by
  have hlen : (contents T p d).length = k := hd.length_contents
  refine Spec.congr (Prog.bind_ok (size_run hd h)) ?_
  by_cases heq : count = k
  · rw [if_pos heq]
    refine Spec.pure h hd ?_
    rw [heq, Nat.sub_self, List.replicate_zero, List.append_nil, List.take_of_length_le (Nat.le_of_eq hlen)]
  rw [if_neg heq]
  by_cases hlt : count < k
  · -- the elements at the end are dropped
    rw [if_pos hlt, Nat.sub_eq_zero_of_le (Nat.le_of_lt hlt), List.replicate_zero, List.append_nil]
    cases hd with
    | none => omega
    | @some b k hk =>
      have hroom : count * T.size ≤ b.size := Nat.le_trans (Nat.mul_le_mul_right _ (Nat.le_of_lt hlt)) hk
      have hshrunk : ({ stored b T.size k with finish := (stored b T.size k).start + (count * T.size : Nat) } :
          VecData) = stored b T.size count := by
        unfold stored
        push_cast
        rfl
      rw [hshrunk]
      refine Spec.pure h (.some hroom) ?_
      rw [contents_stored, contents_stored, cells_take _ _ _ (Nat.le_of_lt hlt)]
  rw [if_neg hlt, List.take_of_length_le (by omega)]
  have hwhole' := hwhole (by omega)
  obtain ⟨c, hcap, hc, hc0⟩ := capacity_run hd h hwhole'
  refine Spec.congr (Prog.bind_ok hcap) ?_
  by_cases hle : count ≤ c
  · -- there is room in the storage
    rw [if_pos hle]
    cases hd with
    | none =>
      have := hc0 rfl
      omega
    | @some b k hk =>
      have hb := Storage.bounds h List.mem_cons_self
      have hroom : (k + (count - k)) * T.size ≤ b.size := by
        rw [Nat.add_sub_cancel' (by omega), ← hc b List.mem_cons_self]
        exact Nat.mul_le_mul_right _ hle
      obtain ⟨q, hq, hw, hok, hkept, hcells⟩ := fill_run (T := T) (k := k) (n := count - k) (a := b.off)
        (i := k) (fun _ => Pure.pure v) (fun _ => v) h hroom rfl
        fun j _ _ => ⟨hv, fun q _ _ => rfl⟩
      refine .inl ⟨stored b T.size count, q, ?_, After.intro (.some ?_) hw.size hok ?_ hkept ?_⟩
      · refine (Prog.get_bind_run _ _).trans ?_
        show (constructLoop T (p.offsetToPointer (b.off : Nat)) _ k (count - k) >>= _).run p = _
        rw [offsetToPointer_nat (by omega)]
        refine (Prog.bind_ok hq).trans ?_
        unfold stored
        push_cast
        rfl
      · rw [Nat.add_sub_cancel' (by omega)] at hroom
        exact hroom
      · rw [Nat.add_sub_cancel' (by omega)] at hcells
        rw [contents_stored, contents_stored, hcells]
        simp
      · refine hw.written (Nat.le_add_right _ _) ?_
        rw [Nat.add_mul] at hroom
        omega
  · rw [if_neg hle]
    exact reallocAppendN_spec h hd hp hwhole' hv

end

/-! ## shrinking -/

theorem popBack_spec (h : PoolOk p l (o ++ rest)) (hd : Storage T.size d o k) (hne : d.start < d.finish) :
    Spec T p rest (popBack T d) (contents T p d).dropLast := by
  cases hd with
  | none => exact absurd hne (by decide)
  | @some b k hk =>
    obtain ⟨r, rfl⟩ : ∃ r, k = r + 1 := by
      cases k with
      | zero =>
        have : ((b.off : Nat) : Int) < (b.off + 0 * T.size : Nat) := hne
        omega
      | succ r => exact ⟨r, rfl⟩
    have hpopped : ({ stored b T.size (r + 1) with finish := (stored b T.size (r + 1)).finish - T.size } :
        VecData) = stored b T.size r := by
      have hfinish : ((b.off + (r + 1) * T.size : Nat) : Int) - T.size = (b.off + r * T.size : Nat) := by
        rw [Nat.succ_mul]
        push_cast
        omega
      unfold stored
      rw [hfinish]
    have hroom : r * T.size ≤ b.size := by
      rw [Nat.succ_mul] at hk
      omega
    unfold popBack
    rw [hpopped]
    refine Spec.pure h (.some hroom) ?_
    rw [contents_stored, contents_stored, cells_append]
    simp

theorem clear_spec (h : PoolOk p l (o ++ rest)) (hd : Storage T.size d o k) :
    Spec T p rest (clear d) [] := by
  cases hd with
  | none => exact Spec.pure h .none (contents_none p)
  | @some b k hk =>
    have hcleared : ({ stored b T.size k with finish := (stored b T.size k).start } : VecData)
        = stored b T.size 0 := by
      unfold stored
      rw [Nat.zero_mul, Nat.add_zero]
    unfold clear
    rw [hcleared]
    refine Spec.pure h (.some (by rw [Nat.zero_mul]; exact Nat.zero_le _)) ?_
    rw [contents_stored]
    rfl

/-! ## constructors and destructor -/

/-- the values of a list, as the functions read them -/
theorem list_vals {vs : List Value} (hvs : ∀ v ∈ vs, v.length = T.size) (j : Nat) (hj : j < vs.length) :
    (vs[j]?.getD []).length = T.size ∧
      ∀ q : Pool, (Prog.ofOption vs[j]? : PoolM Value).run q = .ok (vs[j]?.getD []) q := by
  rw [List.getElem?_eq_getElem hj]
  exact ⟨hvs _ (List.getElem_mem hj), fun q => rfl⟩

theorem range_map_getD (vs : List Value) : (List.range vs.length).map (fun j => vs[j]?.getD []) = vs := by
  refine List.ext_getElem (by simp) fun j hj hj' => ?_
  simp [List.getElem?_eq_getElem hj']

theorem newFill_spec (h : PoolOk p l rest) {n : Nat} (hn : n * T.size + 15 < 2^64) {v : Value}
    (hv : v.length = T.size) : Spec T p rest (newFill T n v) (List.replicate n v) := by
  have hspec := createWith_spec (fun _ => Pure.pure v) (fun _ => v) h hn
    fun j _ => ⟨hv, fun q _ _ => rfl⟩
  rw [List.map_const', List.length_range] at hspec
  exact hspec

theorem newSized_spec (h : PoolOk p l rest) {n : Nat} (hn : n * T.size + 15 < 2^64) :
    Spec T p rest (newSized T n) (List.replicate n T.zero) :=
  newFill_spec h hn T.zero_length

theorem newList_spec (h : PoolOk p l rest) {vs : List Value} (hn : vs.length * T.size + 15 < 2^64)
    (hv : ∀ v ∈ vs, v.length = T.size) : Spec T p rest (newList T vs) vs := by
  have hspec := createWith_spec (fun i => Prog.ofOption vs[i]?) (fun i => vs[i]?.getD []) h hn
    fun j hj => ⟨(list_vals hv j hj).1, fun q _ _ => (list_vals hv j hj).2 q⟩
  rw [range_map_getD] at hspec
  exact hspec

theorem newCopy_spec (h : PoolOk p l (o ++ rest)) (hd : Storage T.size d o k) (hp : p.size < 2^64) :
    Spec T p (o ++ rest) (newCopy T d) (contents T p d) := by
  have hbytes := maxSize_mul_le p (hd.le_maxSize h)
  have hroom := h.room
  unfold headerSize nodeSize at *
  refine Spec.congr ((Prog.bind_ok (size_run hd h)).trans (Prog.get_bind_run _ _)) ?_
  rw [hd.start_pointer h, hd.contents_eq]
  refine createWith_spec _ _ h (by omega) fun j hj => ⟨Memory.bytes_length _ _ _, fun q _ hk => ?_⟩
  exact readElement_run hd (hk.mono fun c hc => List.mem_append_left _ hc) hj

theorem destroy_run (h : PoolOk p l (o ++ rest)) (hd : Storage T.size d o k) (hwhole : Whole T d) :
    ∃ p' l', (destroy T d).run p = .ok () p' ∧ PoolOk p' l' rest ∧ Kept p p' rest ∧ p'.size = p.size ∧
      p'.elements = p.elements := by
  obtain ⟨c, hcap, -, -⟩ := capacity_run hd h hwhole
  obtain ⟨p', l', hfree, hl', hkept, hrest⟩ := deallocatePtr_run h hd
  refine ⟨p', l', ?_, hl', hkept.mono fun c hc => List.mem_append_right _ hc, hrest⟩
  refine (Prog.get_bind_run _ _).trans ?_
  refine (Prog.bind_ok hcap).trans ?_
  rw [hd.start_pointer h]
  exact hfree

end Stl
end Ipcpp
