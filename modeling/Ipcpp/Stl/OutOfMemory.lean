import Ipcpp.Stl.VectorAssign
import Ipcpp.Stl.VectorCapacity

/-!
# Assignments that run out of memory

An assignment that has to replace the storage gives the old block back before it asks for the new one.  If the
allocator throws, `vector_data` still names the old block, which is free now, and may be somebody else's soon.

`assign_out_of_memory_iff`: a `bad_alloc` leaves a vector that can be used (`Usable`), exactly if it had no
storage, or the assignment does not throw: its capacity suffices, or the other blocks leave a run that is long
enough.
-/

namespace Ipcpp
namespace Stl
open Prog

/-- a call leaves the blocks of others alone: they stay live, and keep their bytes -/
def Spares {α : Type} (p : Pool) (rest : List Block) (m : PoolM α) : Prop :=
  match m.run p with
  | .ok _ q => Kept p q rest ∧ ∃ l o, PoolOk q l (o ++ rest)
  | .throw _ q => Kept p q rest ∧ ∃ l o, PoolOk q l (o ++ rest)
  | .stuck => False

/-- a vector in a pool with the live blocks `rest` of others: it has no storage or a live block that is nobody
else's, and what it is used for next leaves the others alone.  An assignment is of elements whose bytes can be
counted in 64 bits. -/
structure Usable (T : ElemType) (p : Pool) (rest : List Block) (d : VecData) : Prop where
  owned : ∃ l, PoolOk p l (own d ++ rest)
  destroy : Spares p rest (destroy T d)
  pushBack : ∀ v, v.length = T.size → Spares p rest (pushBack T d v)
  assign : ∀ a : Assignment, a.Separate T rest → (a.source T p).length * T.size + 15 < 2^64 →
    Spares p rest (a.run T d)

/-- a `bad_alloc` leaves a vector that can be used -/
def SurvivesBadAlloc (T : ElemType) (p : Pool) (rest : List Block) (d : VecData) (a : Assignment) : Prop :=
  ∀ q, (a.run T d).run p = .throw .badAlloc q → Usable T q rest d

variable {T : ElemType} {p : Pool} {l : List Chunk} {rest : List Block} {d : VecData} {o : List Block}
  {k c : Nat}

/-! ## a vector with a live block can be used -/

theorem Spares.of_run {α : Type} {m m' : PoolM α} (hrun : m.run p = m'.run p) (h : Spares p rest m') :
    Spares p rest m := by
  unfold Spares
  rw [hrun]
  exact h

theorem Spec.spares {m m' : PoolM VecData} {xs : List Value} {p1 : Pool} {l1 : List Chunk} {o1 : List Block}
    (h : Spec T p1 rest m' xs) (hrun : m.run p = m'.run p1) (hkept : Kept p p1 rest)
    (h1 : PoolOk p1 l1 (o1 ++ rest)) : Spares p rest m := by
  unfold Spares
  rw [hrun]
  rcases h with ⟨d', q, hok, hafter⟩ | ⟨e, hthrow⟩
  · rw [hok]
    obtain ⟨l', hl'⟩ := hafter.ok
    exact ⟨hkept.trans hafter.kept, l', _, hl'⟩
  · rw [hthrow]
    exact ⟨hkept, l1, o1, h1⟩

section
variable (h : PoolOk p l (o ++ rest)) (hd : Storage T.size d o k) (hp : p.size < 2^64)
include h hd hp

theorem Assignment.spares (hc : (capacity T d).run p = .ok c p) (a : Assignment) (ha : a.Separate T rest)
    (hbytes : (a.source T p).length * T.size + 15 < 2^64) : Spares p rest (a.run T d) := by
  obtain ⟨value, vals, hrun, -, -, hvals, -⟩ := a.run_eq h hp d ha
  obtain ⟨hblock, hnone, -⟩ := capacity_room h hd hp hc
  refine Spares.of_run (hrun.trans (Prog.bind_ok hc)) ?_
  split
  · obtain ⟨p1, l1, h1, hkept, hsize, heq⟩ := assignReplaced_eq (a.source T p).length value h hd
    refine (createWith_spec value vals h1 hbytes fun j hj => ?_).spares heq hkept
      (show PoolOk p1 l1 ([] ++ rest) from h1)
    exact ⟨(hvals j hj).1, fun q hs hk => (hvals j hj).2 q (hs.trans hsize) (hkept.trans hk)⟩
  · obtain ⟨d', q, hok, hq, hkept, -⟩ := assignKept_run a.resets h hd hp
      (fun b hb => hblock b hb ▸ Nat.mul_le_mul_right _ (by omega)) (fun ho => by have := hnone ho; omega) hvals
    unfold Spares
    rw [hok]
    exact ⟨hkept, l, o, hq⟩

theorem Storage.usable (hw : Whole T d) : Usable T p rest d := by
  obtain ⟨c, hc, -⟩ := capacity_run hd h hw
  refine ⟨⟨l, hd.own_eq.symm ▸ h⟩, ?_, fun v hv => ?_, fun a => a.spares h hd hp hc⟩
  · obtain ⟨q, l', hrun, hq, hkept, -⟩ := destroy_run h hd hw
    unfold Spares
    rw [hrun]
    exact ⟨hkept, l', [], hq⟩
  · exact (pushBack_spec h hd hp (hd.fits fun b hb => hw.dvd hd hb) hv).spares rfl (Kept.refl _ _) h

end

/-! ## an assignment that throws -/

theorem of_createWith_throw {n : Nat} {value : Nat → PoolM Value} (hlooks : ∀ j, Looks (value j)) {e : Error}
    {q : Pool} (hrun : (createWith T n value).run p = .throw e q) : (allocate T n).run p = .throw e q := by
  rcases of_bind_throw hrun with hcreate | ⟨d', p1, -, hrest⟩
  · rcases of_bind_throw hcreate with halloc | ⟨r, p1, -, hpure⟩
    · exact halloc
    · cases hpure
  · refine absurd (Set.mem_univ e) ((?_ : Never Set.univ _) p1 e q hrest)
    refine looks_get.never.bind fun p => Never.bind ?_ fun _ => never_pure _
    exact VectorState.never_stlConstructLoop hlooks _ 0 n

theorem createWith_throws_iff {n : Nat} {value : Nat → PoolM Value} (hlooks : ∀ j, Looks (value j))
    (h : PoolOk p l rest) (hn : 0 < n) (q : Pool) :
    (createWith T n value).run p = .throw .badAlloc q ↔
      q = p ∧ ∀ s e, FreeRun p.size rest s e → e - s < nodeSize + alignUp (n * T.size % 2^64) := by
  have hfit := (h.completeFirstFit (dvd_alignUp (n * T.size % 2^64))).throws_iff
  rw [← allocate_pos hn] at hfit
  constructor
  · intro hrun
    have halloc := of_createWith_throw hlooks hrun
    obtain rfl := strong_allocate T n p _ q (Set.mem_univ _) halloc
    exact ⟨rfl, hfit.mp halloc⟩
  · rintro ⟨rfl, hshort⟩
    exact Prog.bind_throw (Prog.bind_throw (hfit.mpr hshort))

theorem never_assignKept {n : Nat} {value : Nat → PoolM Value} (hlooks : ∀ j, Looks (value j)) (reset : Bool)
    (d : VecData) : Never Set.univ (assignKept T reset d n value) := by
  refine looks_get.never.bind fun p => Never.bind ?_ fun _ => never_pure _
  exact VectorState.never_stlConstructLoop hlooks _ 0 n

theorem PoolOk.own_eq_nil {l' : List Chunk} (h : PoolOk p l rest) (h' : PoolOk p l' (own d ++ rest)) :
    own d = [] := by
  have hlen := (h'.represents.blocks.symm.trans h.represents.blocks).length_eq
  rw [List.length_append] at hlen
  exact List.length_eq_zero_iff.mp (by omega)

/-- **A `bad_alloc` leaves a vector that can be used**, whichever of the five assignments throws it, exactly if
the vector had no storage, or nothing is thrown: the capacity suffices, or the blocks of others leave a run of
free bytes that is long enough. -/
theorem assign_out_of_memory_iff (h : PoolOk p l (o ++ rest)) (hd : Storage T.size d o k) (hp : p.size < 2^64)
    (hc : (capacity T d).run p = .ok c p) (a : Assignment) (ha : a.Separate T rest) :
    SurvivesBadAlloc T p rest d a ↔ o = [] ∨ (a.source T p).length ≤ c ∨
      ∃ s e, FreeRun p.size rest s e ∧
        nodeSize + alignUp ((a.source T p).length * T.size % 2^64) ≤ e - s := by
  obtain ⟨value, vals, hrun, hlooks, -⟩ := a.run_eq h hp d ha
  replace hrun := hrun.trans (Prog.bind_ok hc)
  by_cases hgrow : (a.source T p).length > c
  · obtain ⟨p1, l1, h1, -, hsize, heq⟩ := assignReplaced_eq (a.source T p).length value h hd
    rw [if_pos hgrow, heq] at hrun
    have hthrows := createWith_throws_iff (T := T) hlooks h1 (by omega : 0 < (a.source T p).length)
    rw [hsize] at hthrows
    have hgrow' : ¬ (a.source T p).length ≤ c := Nat.not_le.mpr hgrow
    by_cases hroom : ∃ s e, FreeRun p.size rest s e ∧
        nodeSize + alignUp ((a.source T p).length * T.size % 2^64) ≤ e - s
    · -- it does not throw
      refine iff_of_true (fun q hq => ?_) (.inr (.inr hroom))
      obtain ⟨s, e, hfree, hlong⟩ := hroom
      have hshort := ((hthrows q).mp (hrun.symm.trans hq)).2 s e hfree
      omega
    · -- it throws when the storage has been given back
      have hthrow := hrun.trans ((hthrows p1).mpr ⟨rfl, fun s e hfree => by
        by_contra hlong
        exact hroom ⟨s, e, hfree, Nat.not_lt.mp hlong⟩⟩)
      rw [or_iff_left (not_or.mpr ⟨hgrow', hroom⟩)]
      constructor
      · intro hs
        obtain ⟨l2, h2⟩ := (hs p1 hthrow).owned
        exact hd.own_eq.symm.trans (h1.own_eq_nil h2)
      · rintro rfl q hq
        obtain ⟨rfl, -⟩ := (hthrows q).mp (hrun.symm.trans hq)
        exact hd.usable (show PoolOk q l1 ([] ++ rest) from h1) (hsize ▸ hp) (whole_of_capacity hd h hc)
  · refine iff_of_true (fun q hq => ?_) (.inr (.inl (Nat.not_lt.mp hgrow)))
    rw [if_neg hgrow] at hrun
    exact absurd (Set.mem_univ _) (never_assignKept hlooks a.resets d p _ q (hrun.symm.trans hq))

/-- 1000 elements for a vector without storage, in a pool of 512 bytes -/
theorem assign_out_of_memory_empty :
    (∃ q, ((Assignment.fill 1000 [some 9]).run octet {}).run (Pool.new 512) = .throw .badAlloc q) ∧
      SurvivesBadAlloc octet (Pool.new 512) [] {} (.fill 1000 [some 9]) := by
  have hthrow : (((Assignment.fill 1000 [some 9]).run octet {}).run (Pool.new 512)).thrown.map Prod.fst
      = some .badAlloc := by decide +kernel
  obtain ⟨⟨e, q⟩, hq, rfl⟩ := Option.map_eq_some_iff.mp hthrow
  have hnew : PoolOk (Pool.new 512) _ ([] ++ []) := Pool.new_ok (by decide)
  obtain ⟨c, hc, -⟩ := capacity_run (T := octet) .none hnew ⟨0, rfl⟩
  exact ⟨⟨q, Outcome.of_thrown hq⟩,
    (assign_out_of_memory_iff hnew .none (by decide) hc (.fill 1000 [some 9]) rfl).mpr (.inl rfl)⟩

/-- 1000 elements for the vector `{1, 2}`: `bad_alloc`.  The next vector, `{5, 6, 7}`, gets the block that the
first one still refers to, and a `push_back` on the first one overwrites its last element. -/
theorem assign_too_many_dangles :
    ∃ d p q e r d' s, (newList octet (octets [1, 2])).run (Pool.new 512) = .ok d p ∧
      ((Assignment.fill 1000 [some 9]).run octet d).run p = .throw .badAlloc q ∧
      (newList octet (octets [5, 6, 7])).run q = .ok e r ∧ contents octet r e = octets [5, 6, 7] ∧
      (pushBack octet d [some 9]).run r = .ok d' s ∧ contents octet s e = octets [5, 6, 9] ∧
      ¬ SurvivesBadAlloc octet p [] d (.fill 1000 [some 9]) := by
  have hfacts : ((newList octet (octets [1, 2])).run (Pool.new 512)).toOption.bind (fun v =>
      (((Assignment.fill 1000 [some 9]).run octet v.1).run v.2).thrown.bind fun t =>
        ((newList octet (octets [5, 6, 7])).run t.2).toOption.bind fun u =>
          ((pushBack octet v.1 [some 9]).run u.2).toOption.map fun w =>
            ((own v.1, t.1, inUse t.2), [contents octet u.2 u.1, contents octet w.2 u.1]))
      = some (([⟨32, 16⟩], .badAlloc, []), [octets [5, 6, 7], octets [5, 6, 9]]) := by decide +kernel
  obtain ⟨⟨d, p⟩, hdp, hfacts⟩ := Option.bind_eq_some_iff.mp hfacts
  obtain ⟨⟨err, q⟩, hq, hfacts⟩ := Option.bind_eq_some_iff.mp hfacts
  obtain ⟨⟨e, r⟩, her, hfacts⟩ := Option.bind_eq_some_iff.mp hfacts
  obtain ⟨⟨d', s⟩, hds, hfacts⟩ := Option.map_eq_some_iff.mp hfacts
  obtain ⟨⟨hown, rfl, hfree⟩, hbefore, hafter⟩ :
      (own d = [⟨32, 16⟩] ∧ err = .badAlloc ∧ inUse q = []) ∧
        contents octet r e = octets [5, 6, 7] ∧ contents octet s e = octets [5, 6, 9] := by
    simpa only [Prod.mk.injEq, List.cons.injEq, and_true] using hfacts
  have hthrow := Outcome.of_thrown hq
  refine ⟨d, p, q, e, r, d', s, Outcome.of_toOption hdp, hthrow, Outcome.of_toOption her, hbefore,
    Outcome.of_toOption hds, hafter, fun hs => ?_⟩
  -- no block is in use, and `d` has one
  obtain ⟨l, hl⟩ := (hs q hthrow).owned
  have hlen := hl.represents.blocks.length_eq
  rw [hfree, hown] at hlen
  cases hlen

end Stl
end Ipcpp
