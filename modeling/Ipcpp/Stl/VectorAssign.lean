import Ipcpp.Stl.VectorShift

/-!
# Assignment to a vector

Copy assignment, assignment from an initializer list and the three overloads of `assign` keep the storage if
its capacity suffices, and replace it otherwise.  Then they construct the new elements from the start of the
storage on, and advance the end of the elements by as many.  New storage has its end at its start; of the
others only the assignment from an initializer list sets it back to the start of the old storage, so that
with the rest the old elements are counted once more.

`assign_iff`: after an assignment the vector has the elements of the source exactly if it was empty before, if
the storage was replaced (by one whose bytes can be counted), or if the source is an initializer list.
-/

namespace Ipcpp
namespace Stl

section
variable (T : ElemType)

def assignReplaced (d : VecData) (n : Nat) (value : Nat → PoolM Value) : PoolM VecData := do
  let p ← Prog.get
  let _ ← size T d
  deallocatePtr (p.offsetToPointer d.start)
  createWith T n value

/-- the branch that keeps it.  `reset`: the end of the elements is set back to the start. -/
def assignKept (reset : Bool) (d : VecData) (n : Nat) (value : Nat → PoolM Value) : PoolM VecData := do
  let d := if reset then { d with finish := d.start } else d
  let p ← Prog.get
  constructLoop T (p.offsetToPointer d.start) value 0 n
  pure { d with finish := d.finish + (n * T.size % 2^64 : Nat) }

/-- what the five functions share: storage for `n` elements, which are then constructed, the one at `j` from
`value j` -/
def assignWith (reset : Bool) (d : VecData) (n : Nat) (value : Nat → PoolM Value) : PoolM VecData := do
  let cap ← capacity T d
  if n > cap then assignReplaced T d n value else assignKept T reset d n value

/-- `operator=(const vector&)`, of another vector -/
def copyAssign (d other : VecData) : PoolM VecData := do
  let n ← size T other
  let p ← Prog.get
  assignWith T false d n (readElement T (p.offsetToPointer other.start))

/-- `operator=(std::initializer_list)` -/
def listAssign (d : VecData) (vs : List Value) : PoolM VecData :=
  assignWith T true d vs.length fun i => Prog.ofOption vs[i]?

/-- `assign(count, value)` -/
def assignFill (d : VecData) (count : Nat) (v : Value) : PoolM VecData :=
  assignWith T false d count fun _ => pure v

/-- `assign(first, last)`, with the values of the range -/
def assignRange (d : VecData) (vs : List Value) : PoolM VecData :=
  assignWith T false d vs.length fun i => Prog.ofOption vs[i]?

/-- `assign(std::initializer_list)` -/
def assignList (d : VecData) (vs : List Value) : PoolM VecData :=
  assignWith T false d vs.length fun i => Prog.ofOption vs[i]?

end

inductive Assignment where
  | copy (other : VecData)
  | ilist (vs : List Value)
  | fill (count : Nat) (v : Value)
  | range (vs : List Value)
  | list (vs : List Value)

namespace Assignment

def run (T : ElemType) (d : VecData) : Assignment → PoolM VecData
  | copy other => copyAssign T d other
  | ilist vs => listAssign T d vs
  | fill count v => assignFill T d count v
  | range vs => assignRange T d vs
  | list vs => assignList T d vs

def source (T : ElemType) (p : Pool) : Assignment → List Value
  | copy other => contents T p other
  | ilist vs => vs
  | fill count v => List.replicate count v
  | range vs => vs
  | list vs => vs

/-- the source is made of values of the type, and does not lie in the vector: another vector has its block
among the `rest` -/
def Separate (T : ElemType) (rest : List Block) : Assignment → Prop
  | copy other => ∃ o k, Storage T.size other o k ∧ ∀ b ∈ o, b ∈ rest
  | ilist vs => ∀ v ∈ vs, v.length = T.size
  | fill _ v => v.length = T.size
  | range vs => ∀ v ∈ vs, v.length = T.size
  | list vs => ∀ v ∈ vs, v.length = T.size

/-- the end of the elements is set back in storage that is kept -/
def resets : Assignment → Bool
  | ilist _ => true
  | _ => false

/-- of a vector with `k` elements and capacity `c`, to which `n` elements are assigned: it is empty if its
storage is kept, and the bytes of new storage can be counted in 64 bits -/
def Good (T : ElemType) (k c n : Nat) (a : Assignment) : Prop :=
  (n ≤ c → a.resets = true ∨ k = 0) ∧ (c < n → n * T.size + 15 < 2^64)

instance (T : ElemType) (k c n : Nat) (a : Assignment) : Decidable (a.Good T k c n) :=
  inferInstanceAs (Decidable ((_ → _ ∨ _) ∧ (_ → _)))

end Assignment

/-- the vector has exactly the elements `xs`, and its storage room for them -/
structure Assigned (T : ElemType) (p' : Pool) (d' : VecData) (xs : List Value) : Prop where
  contents : contents T p' d' = xs
  size : (size T d').run p' = .ok xs.length p'
  room : (xs.length * T.size : Nat) ≤ d'.endOfStorage - d'.start
  capacity : ∀ c, (capacity T d').run p' = .ok c p' → xs.length ≤ c

variable {T : ElemType} {p : Pool} {l : List Chunk} {rest : List Block} {d : VecData} {o : List Block}
  {k : Nat}

theorem Assigned.of_storage {l' : List Chunk} {p' : Pool} {d' : VecData} {o' : List Block} {n : Nat}
    {xs : List Value} (h : PoolOk p' l' (o' ++ rest)) (hd : Storage T.size d' o' n)
    (hc : Stl.contents T p' d' = xs) : Assigned T p' d' xs := by
  have hlen : xs.length = n := by rw [← hc, hd.length_contents]
  refine ⟨hc, ?_, ?_, fun c hcap => ?_⟩
  · rw [hlen]
    exact size_run hd h
  · rw [hlen]
    cases hd with
    | none => rw [Nat.zero_mul]; exact Int.le_refl 0
    | @some b n hn =>
      show ((n * T.size : Nat) : Int) ≤ ((b.off + b.size : Nat) : Int) - (b.off : Nat)
      omega
  · rw [hlen]
    cases hd with
    | none => exact Nat.zero_le c
    | @some b n hn =>
      have hb := Storage.bounds h List.mem_cons_self
      obtain ⟨hdvd, rfl⟩ := capacity_stored_ok (by omega) hcap
      exact (Nat.le_div_iff_mul_le T.pos).mpr hn

/-! ## the two branches -/

section
variable {n : Nat} {value : Nat → PoolM Value} {vals : Nat → Value}

theorem assignKept_run (reset : Bool) (h : PoolOk p l (o ++ rest)) (hd : Storage T.size d o k)
    (hp : p.size < 2^64) (hroom : ∀ b ∈ o, n * T.size ≤ b.size) (hnone : o = [] → n = 0)
    (hvals : ∀ j < n, (vals j).length = T.size ∧
      ∀ q, q.size = p.size → Kept p q rest → (value j).run q = .ok (vals j) q) :
    ∃ d' p', (assignKept T reset d n value).run p = .ok d' p' ∧ PoolOk p' l (o ++ rest) ∧ Kept p p' rest ∧
      (Assigned T p' d' ((List.range n).map vals) ↔ reset = true ∨ k = 0) := by
  cases hd with
  | none =>
    obtain rfl : n = 0 := hnone rfl
    refine ⟨{}, p, ?_, h, Kept.refl _ _,
      ⟨fun _ => .inr rfl, fun _ => Assigned.of_storage h .none (contents_none p)⟩⟩
    unfold assignKept
    rw [Nat.zero_mul]
    cases reset <;> rfl
  | @some b k hk =>
    have hb := Storage.bounds h List.mem_cons_self
    have hroom := hroom b List.mem_cons_self
    have hmod : n * T.size % 2^64 = n * T.size := Nat.mod_eq_of_lt (by omega)
    have hstart : p.offsetToPointer ((b.off : Nat) : Int) = some b.off := offsetToPointer_nat (by omega)
    obtain ⟨q, hfill, hw, hq, hkept, hcells⟩ := fill_run (T := T) (k := 0) (a := b.off) (i := 0) value vals h
      (by rw [Nat.zero_add]; exact hroom) rfl fun j _ hj => hvals j (by omega)
    rw [Nat.zero_add, cells_zero, List.nil_append] at hcells
    have hnew : cells q.memory b.off T.size n = (List.range n).map vals := by
      rw [hcells]
      simp
    -- the number of elements from which the end is advanced
    obtain ⟨r, hr, hd', hrk⟩ : ∃ r, (if reset then { stored b T.size k with finish := (stored b T.size k).start }
        else stored b T.size k : VecData) = stored b T.size r ∧ r ≤ k ∧ (r = 0 ↔ reset = true ∨ k = 0) := by
      cases reset with
      | false => exact ⟨k, rfl, Nat.le_refl _, ⟨.inr, fun h => h.resolve_left Bool.false_ne_true⟩⟩
      | true =>
        refine ⟨0, ?_, Nat.zero_le _, ⟨fun _ => .inl rfl, fun _ => rfl⟩⟩
        unfold stored
        rw [Nat.zero_mul, Nat.add_zero]
        rfl
    refine ⟨stored b T.size (r + n), q, ?_, hq, hkept, ?_⟩
    · unfold assignKept
      dsimp only
      rw [hr]
      refine (Prog.get_bind_run _ _).trans ?_
      show (constructLoop T (p.offsetToPointer (b.off : Nat)) value 0 n >>= _).run p = _
      rw [hstart]
      refine (Prog.bind_ok hfill).trans ?_
      rw [hmod]
      unfold stored
      rw [Nat.add_mul, ← Nat.add_assoc]
      push_cast
      rfl
    · rw [← hrk]
      constructor
      · -- the old elements are still counted
        intro ha
        have hlen := congrArg List.length ha.contents
        rw [contents_stored] at hlen
        simp only [cells, List.length_map, List.length_range] at hlen
        omega
      · rintro rfl
        rw [Nat.zero_add]
        refine Assigned.of_storage (show PoolOk q _ ([b] ++ rest) from hq) (.some hroom) ?_
        rw [contents_stored, hnew]

theorem assignReplaced_eq (n : Nat) (value : Nat → PoolM Value) (h : PoolOk p l (o ++ rest)) (hd : Storage T.size d o k) :
    ∃ p1 l1, PoolOk p1 l1 rest ∧ Kept p p1 rest ∧ p1.size = p.size ∧
      (assignReplaced T d n value).run p = (createWith T n value).run p1 := by
  obtain ⟨p1, l1, hfree, h1, hkept1, hsize1, -⟩ := deallocatePtr_run h hd
  refine ⟨p1, l1, h1, hkept1.mono fun c hc => List.mem_append_right _ hc, hsize1,
    (Prog.get_bind_run _ _).trans ?_⟩
  refine (Prog.bind_ok (size_run hd h)).trans ?_
  rw [hd.start_pointer h]
  exact Prog.bind_ok hfree

theorem assignReplaced_run (h : PoolOk p l (o ++ rest)) (hd : Storage T.size d o k) (hp : p.size < 2^64)
    (hn : 0 < n)
    (hvals : ∀ j < n, (vals j).length = T.size ∧
      ∀ q, q.size = p.size → Kept p q rest → (value j).run q = .ok (vals j) q)
    (htotal : 2^64 ≤ n * T.size + 15 → ∀ j < n, ∀ q, (value j).run q = .ok (vals j) q) :
    (∃ e p', (assignReplaced T d n value).run p = .throw e p') ∨
    ∃ d' p', (assignReplaced T d n value).run p = .ok d' p' ∧
      (Assigned T p' d' ((List.range n).map vals) ↔ n * T.size + 15 < 2^64) := by
  obtain ⟨p1, l1, h1, hkept1, hsize1, hrun⟩ := assignReplaced_eq n value h hd
  rw [hrun]
  by_cases hbytes : n * T.size + 15 < 2^64
  · have hspec := createWith_spec value vals h1 hbytes fun j hj => by
      obtain ⟨hl, hr⟩ := hvals j hj
      exact ⟨hl, fun q hs hk => hr q (hs.trans hsize1) (hkept1.trans hk)⟩
    rcases hspec with ⟨d', p', hok, hafter⟩ | ⟨e, hthrow⟩
    · obtain ⟨l', hl'⟩ := hafter.ok
      obtain ⟨k', hk'⟩ := hafter.stored
      exact .inr ⟨d', p', hok, ⟨fun _ => hbytes, fun _ => Assigned.of_storage hl' hk' hafter.contents⟩⟩
    · exact .inl ⟨e, p1, hthrow⟩
  · -- the size of the block has wrapped
    have hne : n ≠ 0 := Nat.pos_iff_ne_zero.mp hn
    rcases alloc_spec h1 (dvd_alignUp (n * T.size % 2^64)) with
      ⟨a, size, p2, l2, hs, halloc, hle, hframe, hw, hl2⟩ | hthrow
    · have hroom : a + nodeSize + size ≤ p2.size - headerSize := hl2.stop_le List.mem_cons_self
      have hallocate : (allocate T n).run p1 = .ok (((a + nodeSize : Nat) : Int), size) p2 := by
        unfold allocate
        rw [if_neg hne]
        exact allocateFromList_ok halloc hl2
      obtain ⟨q, hfill, -, -⟩ := constructLoop_run (T := T) (a := a + nodeSize) value vals n 0 p2
        fun j _ hj => ⟨(hvals j (by omega)).1, fun q _ => htotal (by omega) j (by omega) q⟩
      refine .inr ⟨⟨(a + nodeSize : Nat), (a + nodeSize : Nat) + (n * T.size % 2^64 : Nat),
        (a + nodeSize : Nat) + (size : Nat)⟩, q, ?_, ⟨fun ha => ?_, fun hno => absurd hno hbytes⟩⟩
      · refine (Prog.bind_ok ((Prog.bind_ok hallocate).trans rfl)).trans ?_
        refine (Prog.get_bind_run _ _).trans ?_
        show (constructLoop T (p2.offsetToPointer (a + nodeSize : Nat)) value 0 n >>= _).run p2 = _
        rw [offsetToPointer_nat (by omega)]
        exact (Prog.bind_ok hfill).trans rfl
      · have hroom' := ha.room
        rw [List.length_map, List.length_range] at hroom'
        have hsize2 : p2.size = p.size := hframe.size.trans hsize1
        have : ((n * T.size : Nat) : Int) ≤ ((a + nodeSize : Nat) : Int) + (size : Nat) - (a + nodeSize : Nat) :=
          hroom'
        unfold headerSize at hroom
        omega
    · refine .inl ⟨.badAlloc, p1, ?_⟩
      have hallocate : (allocate T n).run p1 = .throw .badAlloc p1 := by
        unfold allocate
        rw [if_neg hne]
        exact Prog.bind_throw hthrow
      exact Prog.bind_throw (Prog.bind_throw hallocate)

variable (n value vals) in
theorem assignWith_spec (reset : Bool) (h : PoolOk p l (o ++ rest)) (hd : Storage T.size d o k)
    (hp : p.size < 2^64) {c : Nat} (hc : (capacity T d).run p = .ok c p)
    (hvals : ∀ j < n, (vals j).length = T.size ∧
      ∀ q, q.size = p.size → Kept p q rest → (value j).run q = .ok (vals j) q)
    (htotal : 2^64 ≤ n * T.size + 15 → ∀ j < n, ∀ q, (value j).run q = .ok (vals j) q) :
    (c < n ∧ ∃ e p', (assignWith T reset d n value).run p = .throw e p') ∨
    ∃ d' p', (assignWith T reset d n value).run p = .ok d' p' ∧
      (Assigned T p' d' ((List.range n).map vals) ↔
        (n ≤ c → reset = true ∨ k = 0) ∧ (c < n → n * T.size + 15 < 2^64)) := by
  obtain ⟨hblock, hnone, -⟩ := capacity_room h hd hp hc
  have hrun : (assignWith T reset d n value).run p
      = (if n > c then assignReplaced T d n value else assignKept T reset d n value).run p := Prog.bind_ok hc
  rw [hrun]
  by_cases hgrow : n > c
  · rw [if_pos hgrow]
    rcases assignReplaced_run h hd hp (by omega) hvals htotal with hthrow | ⟨d', p', hok, hiff⟩
    · exact .inl ⟨hgrow, hthrow⟩
    · refine .inr ⟨d', p', hok, hiff.trans ⟨fun hb => ⟨fun hle => ?_, fun _ => hb⟩, fun hb => hb.2 hgrow⟩⟩
      omega
  · rw [if_neg hgrow]
    obtain ⟨d', p', hok, -, -, hiff⟩ := assignKept_run reset h hd hp
      (fun b hb => hblock b hb ▸ Nat.mul_le_mul_right _ (by omega)) (fun ho => by have := hnone ho; omega) hvals
    refine .inr ⟨d', p', hok, hiff.trans ⟨fun hr => ⟨fun _ => hr, fun hlt => ?_⟩, fun hr => hr.1 (by omega)⟩⟩
    omega

end

/-! ## the five functions -/

/-- what the five functions have in common: they come to `assignWith` with the values of the source, which they
only look at -/
theorem Assignment.run_eq (h : PoolOk p l (o ++ rest)) (hp : p.size < 2^64) (d : VecData) (a : Assignment)
    (ha : a.Separate T rest) :
    ∃ (value : Nat → PoolM Value) (vals : Nat → Value),
      (a.run T d).run p = (assignWith T a.resets d (a.source T p).length value).run p ∧
      (∀ j, Prog.Looks (value j)) ∧ (List.range (a.source T p).length).map vals = a.source T p ∧
      (∀ j < (a.source T p).length, (vals j).length = T.size ∧
        ∀ q, q.size = p.size → Kept p q rest → (value j).run q = .ok (vals j) q) ∧
      (2^64 ≤ (a.source T p).length * T.size + 15 → ∀ j < (a.source T p).length, ∀ q,
        (value j).run q = .ok (vals j) q) := by
  have hlist : ∀ vs : List Value, (∀ v ∈ vs, v.length = T.size) → ∀ n, n = vs.length →
      (∀ j : Nat, Prog.Looks (Prog.ofOption vs[j]? : PoolM Value)) ∧
      (List.range n).map (fun j : Nat => vs[j]?.getD []) = vs ∧
      (∀ j < n, (vs[j]?.getD []).length = T.size ∧ ∀ q : Pool, q.size = p.size → Kept p q rest →
        (Prog.ofOption vs[j]? : PoolM Value).run q = .ok (vs[j]?.getD []) q) ∧
      (2^64 ≤ n * T.size + 15 → ∀ j < n, ∀ q : Pool,
        (Prog.ofOption vs[j]? : PoolM Value).run q = .ok (vs[j]?.getD []) q) := by
    rintro vs hvs n rfl
    exact ⟨fun j => Prog.looks_ofOption _, range_map_getD vs,
      fun j hj => ⟨(list_vals hvs j hj).1, fun q _ _ => (list_vals hvs j hj).2 q⟩,
      fun _ j hj q => (list_vals hvs j hj).2 q⟩
  cases a with
  | copy other =>
    obtain ⟨o', k', hother, hin⟩ := ha
    -- the other vector among all that is live
    obtain ⟨rest', h'⟩ : ∃ r, PoolOk p l (o' ++ r) := by
      cases hother with
      | none => exact ⟨_, h⟩
      | @some b k' hk' =>
        have hb : b ∈ o ++ rest := List.mem_append_right _ (hin b List.mem_cons_self)
        exact ⟨(o ++ rest).erase b, h.perm (List.perm_cons_erase hb)⟩
    have hlen : ((Assignment.copy other).source T p).length = k' := hother.length_contents
    have hbytes := maxSize_mul_le p (hother.le_maxSize h')
    have hroom := h.room
    rw [hlen]
    refine ⟨readElement T (o'.head?.map Block.off), fun j => p.memory.bytes (other.start.toNat + j * T.size) T.size,
      ?_, fun j => looks_readElement _ j, hother.contents_eq.symm,
      fun j hj => ⟨Memory.bytes_length _ _ _, fun q _ hkept => readElement_run hother (hkept.mono hin) hj⟩,
      fun hwrap => ?_⟩
    · refine (Prog.bind_ok (size_run hother h')).trans ?_
      refine (Prog.get_bind_run _ _).trans ?_
      rw [hother.start_pointer h']
      rfl
    · unfold headerSize nodeSize at *
      omega
  | ilist vs => exact ⟨_, _, rfl, hlist vs ha _ rfl⟩
  | fill count v =>
    have hlen : ((Assignment.fill count v).source T p).length = count := List.length_replicate
    rw [hlen]
    refine ⟨fun _ => pure v, fun _ => v, rfl, fun _ => Prog.looks_pure v, ?_,
      fun j _ => ⟨ha, fun q _ _ => rfl⟩, fun _ j _ q => rfl⟩
    rw [List.map_const', List.length_range]
    rfl
  | range vs => exact ⟨_, _, rfl, hlist vs ha _ rfl⟩
  | list vs => exact ⟨_, _, rfl, hlist vs ha _ rfl⟩

/-- **The elements after an assignment** are those of the source, exactly if the block is a whole number of
elements and the assignment is `Good`; and an assignment throws only when it has to replace the storage. -/
theorem assign_iff (h : PoolOk p l (o ++ rest)) (hd : Storage T.size d o k) (hp : p.size < 2^64)
    (a : Assignment) (ha : a.Separate T rest) :
    (Whole T d → ∃ c, (capacity T d).run p = .ok c p ∧
      ((c < (a.source T p).length ∧ ∃ e p', (a.run T d).run p = .throw e p') ∨
      ∃ d' p', (a.run T d).run p = .ok d' p' ∧
        (Assigned T p' d' (a.source T p) ↔ a.Good T k c (a.source T p).length))) ∧
    (¬ Whole T d → (a.run T d).run p = .stuck) := by
  obtain ⟨value, vals, hrun, -, hsource, hvals, htotal⟩ := a.run_eq h hp d ha
  constructor
  · intro hw
    obtain ⟨c, hc, -⟩ := capacity_run hd h hw
    have hspec := assignWith_spec _ value vals a.resets h hd hp hc hvals htotal
    rw [hsource] at hspec
    rw [hrun]
    exact ⟨c, hc, hspec⟩
  · intro hw
    rw [hrun]
    exact Prog.bind_stuck (capacity_stuck hd h hw)

/-- seventeen elements, for which the block of 16 bytes is replaced -/
theorem assign_iff_replaced :
    ∃ d p d' p', (newList octet (octets [1, 2])).run (Pool.new 512) = .ok d p ∧
      ((Assignment.fill 17 [some 9]).run octet d).run p = .ok d' p' ∧
      Assigned octet p' d' (octets (List.replicate 17 9)) := by
  obtain ⟨d, p, l, hrun, hl, hd, hc, hsize, hcap⟩ := newOctets [1, 2] (by decide) (by decide +kernel)
  have hok : (((newList octet (octets [1, 2])).run (Pool.new 512)).toOption.map fun r =>
      (((Assignment.fill 17 [some 9]).run octet r.1).run r.2).toOption.isSome) = some true := by
    decide +kernel
  rw [hrun, show (Prog.Outcome.ok d p).toOption = some (d, p) from rfl, Option.map_some] at hok
  obtain ⟨c, hcap', hassign⟩ := (assign_iff hl hd (hsize ▸ (by decide)) (.fill 17 [some 9]) rfl).1
    (whole_of_capacity hd hl hcap)
  obtain rfl := (Prog.Outcome.ok.inj (hcap.symm.trans hcap')).1
  rcases hassign with ⟨-, e, p', hthrow⟩ | ⟨d', p', hassign, hiff⟩
  · rw [hthrow] at hok
    cases hok
  · refine ⟨d, p, d', p', hrun, hassign, hiff.mpr ⟨fun h => ?_, fun _ => ?_⟩⟩
    · exact absurd (show 17 ≤ 16 from h) (by decide)
    · show 17 * 1 + 15 < 2^64
      decide

/-- `{1, 2}` after `assign(1, 9)`: the elements before and after -/
def assignOne : PoolM (List Value × List Value) := do
  let d ← newList octet (octets [1, 2])
  let p ← Prog.get
  let d' ← assignFill octet d 1 [some 9]
  let q ← Prog.get
  pure (contents octet p d, contents octet q d')

/-- three elements instead of one -/
theorem assign_one_keeps_old :
    (assignOne.run (Pool.new 512)).toOption.map Prod.fst
        = some (octets [1, 2], octets [9, 2] ++ [[none]]) ∧
      octets [9, 2] ++ [[none]] ≠ List.replicate 1 [some 9] :=
  ⟨by decide +kernel, by decide⟩

end Stl
end Ipcpp
