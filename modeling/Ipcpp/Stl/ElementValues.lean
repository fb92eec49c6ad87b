import Ipcpp.Stl.Objects
import Ipcpp.Stl.VectorInsert

/-!
# The values of the elements

`push_back` and `insert` of `ipcpp::vector` for elements of any type, seen from what the elements are worth:
`value` is the value at an address.  A move leaves another value where it takes one from, and so may a copy that
constructs an element from itself (`new (p) T(*p)`); this is up to the type (`Elements`).  A block that is given
back keeps its values, as far as nothing is written there by an element that asks for storage of its own.

`vector_data` and the blocks are those of `Objects`.  Constructing an element outside of the blocks is stuck.
-/

namespace Ipcpp
namespace Stl
namespace Values
open Objects (Params Data slot)

structure Elements (V : Type) where
  /-- what a move leaves of a value -/
  leave : V → V
  /-- an element that is copy constructed from itself -/
  again : V → V
  /-- what the copies from storage that was given back find there, in place of the value that was left -/
  found : Nat → V → V

structure Call (V : Type) where
  this : Data
  heap : List Block
  value : Nat → V
  /-- where an element was constructed in this call (never read) -/
  made : List Nat
  /-- the copies from storage that was given back, so far -/
  lost : Nat
  /-- what the allocator returns for a number of elements, `none` if it throws -/
  answer : Nat → Option Block

abbrev CallM (V : Type) := Prog Error (Call V)

section
variable {V : Type} (P : Params) (E : Elements V)

/-- the element at `a` is in one of the blocks -/
def Call.Owns (s : Call V) (a : Nat) : Prop := ∃ b ∈ s.heap, b.off ≤ a ∧ a + P.size ≤ b.off + b.size

instance (s : Call V) (a : Nat) : Decidable (s.Owns P a) := inferInstanceAs (Decidable (∃ b ∈ s.heap, _))

def Call.set (s : Call V) (a : Nat) (v : V) : Call V :=
  { s with value := Function.update s.value a v, made := a :: s.made }

def construct (a : Nat) (v : V) : CallM V Unit := do
  let s ← Prog.get
  if s.Owns P a then Prog.modify fun s => s.set a v else Prog.ofOption none

/-- `_m_construct_at(dst, *src)` -/
def copyAt (src dst : Nat) : CallM V Unit := do
  let s ← Prog.get
  if src = dst then
    construct P dst (E.again (s.value src))
  else if s.Owns P src then
    construct P dst (s.value src)
  else
    Prog.modify fun s => { s with lost := s.lost + 1 }
    construct P dst (E.found s.lost (s.value src))

/-- `_m_construct_at(dst, value_type(std::move(*src)))` -/
def moveAt (src dst : Nat) : CallM V Unit := do
  let s ← Prog.get
  Prog.modify fun s => { s with value := Function.update s.value src (E.leave (s.value src)) }
  construct P dst (s.value src)

/-! ## storage -/

/-- `_m_allocate` -/
def allocate (n : Nat) : CallM V Block :=
  if n = 0 then
    pure ⟨0, 0⟩
  else do
    let s ← Prog.get
    match s.answer n with
    | none => Prog.throw .badAlloc
    | some b =>
      Prog.modify fun s => { s with heap := b :: s.heap }
      pure b

/-- `_m_deallocate` -/
def deallocate (a : Nat) : CallM V Unit :=
  if a = 0 then pure () else Prog.modify fun s => { s with heap := s.heap.filter fun c => c.off ≠ a }

def capacity : CallM V Nat := do
  let s ← Prog.get
  if P.size ∣ s.this.bytes then pure (s.this.bytes / P.size) else Prog.ofOption none

/-- `_m_check_length` -/
def checkLength (n : Nat) : CallM V Nat := do
  let s ← Prog.get
  match grownLength P.maxSize s.this.count n with
  | none => Prog.throw .lengthError
  | some len => pure len

/-- `_m_uninitialized_move`, from the element `i` on -/
def uninitializedMove (src dst : Nat) : Nat → Nat → CallM V Unit
  | _, 0 => pure ()
  | i, n + 1 => do
    moveAt P E (slot P src i) (slot P dst i)
    uninitializedMove src dst (i + 1) n

/-- new storage for `len` elements, to which the elements are moved -/
def relocate (len : Nat) : CallM V Block := do
  let s ← Prog.get
  let b ← allocate len
  uninitializedMove P E s.this.start b.off 0 s.this.count
  pure b

def replaceStorage (b : Block) (count : Nat) : CallM V Unit := do
  let s ← Prog.get
  let _ ← capacity P
  deallocate s.this.start
  Prog.modify fun s => { s with this := ⟨b.off, count, b.size⟩ }

/-- `_m_realloc_append(*src)` -/
def reallocAppend (src : Nat) : CallM V Unit := do
  let len ← checkLength P 1
  let s ← Prog.get
  let b ← relocate P E len
  copyAt P E src (slot P b.off s.this.count)
  replaceStorage P b (s.this.count + 1)

/-- `_m_uninitialized_realloc_n` -/
def uninitializedReallocN (n : Nat) : CallM V Unit := do
  let len ← checkLength P n
  let s ← Prog.get
  let b ← relocate P E len
  replaceStorage P b s.this.count

/-! ## `_m_move_to` -/

/-- the forward loop: `dst_it` stays where it is -/
def moveForward (dstIt : Nat) : Nat → Nat → CallM V Unit
  | _, 0 => pure ()
  | first, n + 1 => do
    copyAt P E first dstIt
    moveForward dstIt (first + P.size) n

def moveBackward (first dstIt : Nat) : Nat → CallM V Unit
  | 0 => pure ()
  | n + 1 => do
    copyAt P E (slot P first n) (slot P dstIt n)
    moveBackward first dstIt n

def moveTo (first last dst : Nat) : CallM V Unit :=
  if dst = first then
    pure ()
  else if dst < first ∨ last + P.size < dst then
    moveForward P E dst first ((last - first + P.size - 1) / P.size)
  else if P.size ∣ last - first then
    moveBackward P E first dst ((last - first) / P.size)
  else
    Prog.ofOption none

/-! ## the member functions -/

/-- `push_back(*src)` -/
def pushBack (src : Nat) : CallM V Unit := do
  let s ← Prog.get
  if s.this.count * P.size ≠ s.this.bytes then
    copyAt P E src (slot P s.this.start s.this.count)
    Prog.modify fun s => { s with this := { s.this with count := s.this.count + 1 } }
  else
    reallocAppend P E src

/-- the loop of `insert` -/
def constructEach (src : Nat) : Nat → Nat → CallM V Unit
  | _, 0 => pure ()
  | i, n + 1 => do
    let s ← Prog.get
    copyAt P E src (slot P s.this.start i)
    Prog.modify fun s => { s with this := { s.this with count := s.this.count + 1 } }
    constructEach src (i + 1) n

/-- what `insert` does when there is room -/
def insertAt (pos count src : Nat) : CallM V Nat := do
  let s ← Prog.get
  let p := slot P s.this.start pos
  moveTo P E p (slot P s.this.start s.this.count) (p + count * P.size)
  constructEach P E src pos count
  pure p

/-- `insert(cbegin() + pos, count, *src)` -/
def insert (pos count src : Nat) : CallM V Nat := do
  let cap ← capacity P
  let s ← Prog.get
  if cap < (s.this.count + count) % 2^64 then
    uninitializedReallocN P E count
  insertAt P E pos count src

end

/-- the vector has the elements `l` -/
structure Holds {V : Type} (P : Params) (s : Call V) (l : List V) : Prop where
  block : ∃ b ∈ s.heap, s.this = ⟨b.off, l.length, b.size⟩
  room : l.length * P.size ≤ s.this.bytes
  value : ∀ j < l.length, l[j]? = some (s.value (slot P s.this.start j))

/-- what a call needs: the blocks do not meet, and neither does one that the allocator returns, which has the
room that it was asked for -/
structure Good {V : Type} (P : Params) (s : Call V) (l : List V) : Prop extends Holds P s l where
  bytes_lt : s.this.bytes < 2^64
  length_le : l.length ≤ P.maxSize
  maxSize_lt : P.maxSize < 2^64
  apart : s.heap.Pairwise fun b c => Apart b.off b.size c.off c.size
  start_pos : 0 < s.this.start
  answer : ∀ n b, s.answer n = some b →
    n * P.size ≤ b.size ∧ ∀ c ∈ s.heap, Apart b.off b.size c.off c.size
  made : s.made = []
  lost : s.lost = 0

/-- the call returns, and the vector has the elements `xs`, all of which were constructed, in this call or before
-/
def Yields {V α : Type} (P : Params) (m : CallM V α) (s : Call V) (xs : List V) : Prop :=
  ∃ a t, m.run s = .ok a t ∧ Holds P t xs ∧ ∀ j < xs.length,
    (t.this.start = s.this.start ∧ j < s.this.count) ∨ slot P t.this.start j ∈ t.made

/-! ## slots -/

section
variable {V : Type} {P : Params} {E : Elements V} {s t u : Call V} {l : List V} {a i j k n : Nat} {b c : Block}

theorem slot_inj : slot P a i = slot P a j ↔ i = j := by
  unfold slot
  rw [Nat.add_left_cancel_iff]
  exact ⟨fun h => Nat.eq_of_mul_eq_mul_right P.pos h, fun h => by rw [h]⟩

theorem slot_slot : slot P (slot P a i) j = slot P a (i + j) := by
  unfold slot
  rw [Nat.add_assoc, ← Nat.add_mul]

theorem slot_lt_iff' : slot P a i < slot P a j ↔ i < j := by
  unfold slot
  rw [Nat.add_lt_add_iff_left]
  exact ⟨fun h => Nat.lt_of_mul_lt_mul_right h, fun h => Nat.mul_lt_mul_of_pos_right h P.pos⟩

theorem owns_slot (hb : b ∈ s.heap) (hk : k * P.size ≤ b.size) (hi : i < k) : s.Owns P (slot P b.off i) := by
  have hcell := cell_le P.size hi
  exact ⟨b, hb, Nat.le_add_right _ _, by unfold slot; omega⟩

/-- slots of two blocks are different -/
theorem slot_ne (hap : Apart b.off b.size c.off c.size) (hb : k * P.size ≤ b.size) (hc : n * P.size ≤ c.size)
    (hi : i < k) (hj : j < n) : slot P b.off i ≠ slot P c.off j := by
  have hi' := cell_le P.size hi
  have hj' := cell_le P.size hj
  have hpos := P.pos
  unfold slot
  unfold Apart at hap
  omega

theorem Call.Owns.congr (hheap : t.heap = s.heap) (h : s.Owns P a) : t.Owns P a := by
  unfold Call.Owns
  rw [hheap]
  exact h

/-! ## one element -/

/-- elements were constructed at the addresses in `A`, and nothing else was done to the blocks and values -/
structure Changed (s t : Call V) (A : Set Nat) : Prop where
  heap : t.heap = s.heap
  answer : t.answer = s.answer
  value : ∀ a ∉ A, t.value a = s.value a
  made : ∀ a, a ∈ t.made ↔ a ∈ A ∨ a ∈ s.made

theorem Changed.refl (s : Call V) : Changed s s ∅ := ⟨rfl, rfl, fun _ _ => rfl, fun a => by simp⟩

theorem Changed.trans {A B : Set Nat} (h : Changed s t A) (h' : Changed t u B) : Changed s u (A ∪ B) := by
  refine ⟨h'.heap.trans h.heap, h'.answer.trans h.answer, fun a ha => ?_, fun a => ?_⟩
  · exact (h'.value a fun hB => ha (.inr hB)).trans (h.value a fun hA => ha (.inl hA))
  · rw [h'.made, h.made, Set.mem_union, or_left_comm, or_assoc]

theorem Changed.congr {A B : Set Nat} (h : Changed s t A) (hAB : ∀ a, a ∈ A ↔ a ∈ B) : Changed s t B :=
  Set.ext hAB ▸ h

theorem changed_set (s : Call V) (a : Nat) (v : V) : Changed s (s.set a v) {a} :=
  ⟨rfl, rfl, fun _ hb => Function.update_of_ne hb _ _, fun _ => List.mem_cons⟩

theorem construct_run (h : s.Owns P a) (v : V) : (construct P a v).run s = .ok () (s.set a v) := by
  show (if s.Owns P a then Prog.modify fun s => s.set a v else Prog.ofOption none : CallM V Unit).run s = _
  rw [if_pos h]
  rfl

theorem copyAt_run {src dst : Nat} (hne : src ≠ dst) (hsrc : s.Owns P src) (hdst : s.Owns P dst) :
    (copyAt P E src dst).run s = .ok () (s.set dst (s.value src)) := by
  refine (Prog.get_bind_run _ _).trans ?_
  rw [if_neg hne, if_pos hsrc]
  exact construct_run hdst _

/-- **The forward loop** leaves the last element at the target. -/
theorem moveForward_run {dst : Nat} (n : Nat) : ∀ (first : Nat) (s : Call V), s.Owns P dst →
    (∀ x < n, s.Owns P (slot P first x) ∧ slot P first x ≠ dst) →
    ∃ t, (moveForward P E dst first n).run s = .ok () t ∧ t.this = s.this ∧ t.lost = s.lost ∧
      Changed s t { a | 0 < n ∧ a = dst } ∧ (0 < n → t.value dst = s.value (slot P first (n - 1))) := by
  induction n with
  | zero =>
    intro first s _ _
    exact ⟨s, rfl, rfl, rfl, (Changed.refl s).congr fun a => by simp, fun h => absurd h (Nat.lt_irrefl 0)⟩
  | succ n ih =>
    intro first s hdst hsrc
    have hslot : ∀ x, slot P (first + P.size) x = slot P first (x + 1) := fun x => by
      unfold slot
      rw [Nat.succ_mul]
      omega
    have hfirst : slot P first 0 = first := by rw [slot, Nat.zero_mul, Nat.add_zero]
    obtain ⟨howns, hne⟩ := hsrc 0 (Nat.succ_pos n)
    rw [hfirst] at howns hne
    have hset := changed_set s dst (s.value first)
    obtain ⟨t, hrun, hthis, hlost, hch, hlast⟩ := ih (first + P.size) (s.set dst (s.value first)) hdst
      fun x hx => by
        rw [hslot]
        exact hsrc (x + 1) (Nat.succ_lt_succ hx)
    refine ⟨t, (Prog.bind_ok (copyAt_run hne howns hdst)).trans hrun, hthis, hlost,
      (hset.trans hch).congr fun a => ?_, fun _ => ?_⟩
    · simp
    · rcases Nat.eq_zero_or_pos n with rfl | hn
      · rw [hch.value dst fun h => absurd h.1 (Nat.lt_irrefl 0), hfirst]
        exact Function.update_self _ _ _
      · rw [hlast hn, hslot, Nat.sub_add_cancel hn, Nat.add_sub_cancel]
        exact hset.value _ (hsrc n (Nat.lt_succ_self n)).2

/-- **The backward loop** copies the elements, also when the target begins among them. -/
theorem moveBackward_run {m : Nat} (him : i < m) (n : Nat) : ∀ s : Call V,
    (∀ x < n, s.Owns P (slot P a (i + x)) ∧ s.Owns P (slot P a (m + x))) →
    ∃ t, (moveBackward P E (slot P a i) (slot P a m) n).run s = .ok () t ∧ t.this = s.this ∧ t.lost = s.lost ∧
      Changed s t { y | ∃ x < n, y = slot P a (m + x) } ∧
      ∀ x < n, t.value (slot P a (m + x)) = s.value (slot P a (i + x)) := by
  induction n with
  | zero =>
    intro s _
    exact ⟨s, rfl, rfl, rfl, (Changed.refl s).congr fun a => by simp, fun x hx => absurd hx (Nat.not_lt_zero x)⟩
  | succ n ih =>
    intro s howns
    obtain ⟨hsrc, hdst⟩ := howns n (Nat.lt_succ_self n)
    have hne : slot P a (i + n) ≠ slot P a (m + n) := fun heq => by
      have := slot_inj.mp heq
      omega
    have hset := changed_set s (slot P a (m + n)) (s.value (slot P a (i + n)))
    obtain ⟨t, hrun, hthis, hlost, hch, hvalue⟩ :=
      ih (s.set (slot P a (m + n)) (s.value (slot P a (i + n)))) fun x hx => howns x (Nat.lt_succ_of_lt hx)
    refine ⟨t, ?_, hthis, hlost, (hset.trans hch).congr fun y => ?_, fun x hx => ?_⟩
    · have hcopy : (copyAt P E (slot P (slot P a i) n) (slot P (slot P a m) n)).run s
          = .ok () (s.set (slot P a (m + n)) (s.value (slot P a (i + n)))) := by
        rw [slot_slot, slot_slot]
        exact copyAt_run hne hsrc hdst
      exact (Prog.bind_ok hcopy).trans hrun
    · constructor
      · rintro (rfl | ⟨x, hx, rfl⟩)
        · exact ⟨n, Nat.lt_succ_self n, rfl⟩
        · exact ⟨x, Nat.lt_succ_of_lt hx, rfl⟩
      · rintro ⟨x, hx, rfl⟩
        rcases Nat.lt_succ_iff_lt_or_eq.mp hx with hlt | rfl
        · exact .inr ⟨x, hlt, rfl⟩
        · exact .inl rfl
    · rcases Nat.lt_succ_iff_lt_or_eq.mp hx with hlt | rfl
      · -- what is in front of this element is read when it is written already
        rw [hvalue x hlt]
        refine hset.value _ fun heq => ?_
        have := slot_inj.mp heq
        omega
      · rw [hch.value _ fun ⟨y, hy, heq⟩ => absurd (slot_inj.mp heq) (by omega)]
        exact Function.update_self _ _ _

/-- **`_m_move_to`**, of the slots `[i, k)` to slot `m`. -/
theorem moveTo_run {m : Nat} (hik : i ≤ k) (him : i ≤ m) (howns : ∀ x < m + (k - i), s.Owns P (slot P a x)) :
    ∃ t, (moveTo P E (slot P a i) (slot P a k) (slot P a m)).run s = .ok () t ∧ t.this = s.this ∧
      t.lost = s.lost ∧ Changed s t { y | ∃ j, Target i k m j ∧ y = slot P a j } ∧
      ∀ j, t.value (slot P a j) = s.value (slot P a (moved i k m j)) := by
  -- the slots that are not written
  have hrest : ∀ {t : Call V} {j : Nat}, Changed s t { y | ∃ j, Target i k m j ∧ y = slot P a j } →
      ¬ Target i k m j → t.value (slot P a j) = s.value (slot P a (moved i k m j)) := by
    intro t j hch hj
    rw [moved_of_not_target hj]
    refine hch.value _ fun ⟨j', hj', heq⟩ => hj ?_
    exact slot_inj.mp heq ▸ hj'
  unfold moveTo
  rcases Nat.eq_or_lt_of_le him with rfl | hlt
  · rw [if_pos rfl]
    have hch : Changed s s { y | ∃ j, Target i k i j ∧ y = slot P a j } :=
      (Changed.refl s).congr fun y => ⟨fun h => absurd h (Set.notMem_empty y), fun ⟨_, h, _⟩ => absurd rfl h.1⟩
    exact ⟨s, rfl, rfl, rfl, hch, fun j => hrest hch fun h => h.1 rfl⟩
  have hlast : slot P a k + P.size = slot P a (k + 1) := by
    unfold slot
    rw [Nat.succ_mul, Nat.add_assoc]
  have hdiff : slot P a k - slot P a i = (k - i) * P.size := by
    unfold slot
    rw [Nat.sub_mul]
    omega
  have hfwd : (slot P a m < slot P a i ∨ slot P a k + P.size < slot P a m) ↔ Forward i k m := by
    rw [hlast, slot_lt_iff', slot_lt_iff']
    exact Iff.rfl
  rw [if_neg fun heq => Nat.ne_of_gt hlt (slot_inj.mp heq)]
  by_cases hf : Forward i k m
  · have hkm : k < m := by
      unfold Forward at hf
      omega
    have hlen : ((k - i) * P.size + P.size - 1) / P.size = k - i := by
      rw [Nat.add_sub_assoc P.pos, Nat.mul_comm, Nat.mul_add_div P.pos,
        Nat.div_eq_of_lt (Nat.sub_lt P.pos Nat.one_pos), Nat.add_zero]
    rw [if_pos (hfwd.mpr hf), hdiff, hlen]
    rcases Nat.eq_or_lt_of_le hik with rfl | hik
    · rw [Nat.sub_self]
      have hch : Changed s s { y | ∃ j, Target i i m j ∧ y = slot P a j } :=
        (Changed.refl s).congr fun y =>
          ⟨fun h => absurd h (Set.notMem_empty y), fun ⟨_, h, _⟩ => absurd h.2.1 (Nat.lt_irrefl i)⟩
      exact ⟨s, rfl, rfl, rfl, hch, fun j => hrest hch fun h => Nat.lt_irrefl i h.2.1⟩
    obtain ⟨t, hrun, hthis, hlost, hch, hval⟩ := moveForward_run (E := E) (k - i) (slot P a i) s
      (howns m (by omega)) fun x hx => by
        rw [slot_slot]
        exact ⟨howns _ (by omega), fun heq => absurd (slot_inj.mp heq) (by omega)⟩
    have hch' : Changed s t { y | ∃ j, Target i k m j ∧ y = slot P a j } := hch.congr fun y => by
      constructor
      · rintro ⟨-, rfl⟩
        exact ⟨m, ⟨by omega, hik, .inl ⟨hf, rfl⟩⟩, rfl⟩
      · rintro ⟨j, ⟨-, -, ⟨-, rfl⟩ | ⟨hnf, -⟩⟩, rfl⟩
        · exact ⟨by omega, rfl⟩
        · exact absurd hf hnf
    refine ⟨t, hrun, hthis, hlost, hch', fun j => ?_⟩
    by_cases hj : Target i k m j
    · obtain ⟨-, -, ⟨-, rfl⟩ | ⟨hnf, -⟩⟩ := id hj
      · rw [moved, if_pos hj, if_pos hf, hval (by omega), slot_slot]
        congr 2
        omega
      · exact absurd hf hnf
    · exact hrest hch' hj
  · have hlen : (k - i) * P.size / P.size = k - i := Nat.mul_div_cancel _ P.pos
    rw [if_neg fun h => hf (hfwd.mp h), hdiff, if_pos (Nat.dvd_mul_left _ _), hlen]
    obtain ⟨t, hrun, hthis, hlost, hch, hval⟩ := moveBackward_run (E := E) (a := a) hlt (k - i) s
      fun x hx => ⟨howns _ (by omega), howns _ (by omega)⟩
    have hch' : Changed s t { y | ∃ j, Target i k m j ∧ y = slot P a j } := hch.congr fun y => by
      constructor
      · rintro ⟨x, hx, rfl⟩
        exact ⟨m + x, ⟨by omega, by omega, .inr ⟨hf, by omega, by omega⟩⟩, rfl⟩
      · rintro ⟨j, ⟨-, -, ⟨hf', -⟩ | ⟨-, hmj, hj⟩⟩, rfl⟩
        · exact absurd hf' hf
        · exact ⟨j - m, by omega, by rw [Nat.add_sub_cancel' hmj]⟩
    refine ⟨t, hrun, hthis, hlost, hch', fun j => ?_⟩
    by_cases hj : Target i k m j
    · obtain ⟨-, -, ⟨hf', -⟩ | ⟨-, hmj, hjm⟩⟩ := id hj
      · exact absurd hf' hf
      · have hjval := hval (j - m) (by omega)
        rw [Nat.add_sub_cancel' hmj] at hjval
        rw [moved, if_pos hj, if_neg hf, hjval, Nat.add_comm]
    · exact hrest hch' hj

/-! ## the new elements -/

/-- the slots `i, …, k - 1` of `a` were moved to `b` -/
theorem uninitializedMove_run (hne : ∀ x < k, ∀ y < k, slot P b.off x ≠ slot P a y) (n : Nat) :
    ∀ (i : Nat) (s : Call V), i + n = k → (∀ x < k, s.Owns P (slot P b.off x)) →
    ∃ t, (uninitializedMove P E a b.off i n).run s = .ok () t ∧ t.this = s.this ∧ t.lost = s.lost ∧
      t.heap = s.heap ∧ (∀ y, y ∈ t.made ↔ (∃ x, i ≤ x ∧ x < k ∧ y = slot P b.off x) ∨ y ∈ s.made) ∧
      (∀ x < k, t.value (slot P b.off x) = if i ≤ x then s.value (slot P a x) else s.value (slot P b.off x)) ∧
      ∀ x < k, t.value (slot P a x) = if i ≤ x then E.leave (s.value (slot P a x)) else s.value (slot P a x) := by
  induction n with
  | zero =>
    rintro i s rfl _
    refine ⟨s, rfl, rfl, rfl, rfl, fun y => ?_, fun x hx => ?_, fun x hx => ?_⟩
    · refine (or_iff_right ?_).symm
      rintro ⟨x, h1, h2, -⟩
      omega
    · rw [if_neg (by omega)]
    · rw [if_neg (by omega)]
  | succ n ih =>
    intro i s hk howns
    have hi : i < k := by omega
    obtain ⟨s1, hs1⟩ : ∃ s1 : Call V, s1
        = ({ s with value := Function.update s.value (slot P a i) (E.leave (s.value (slot P a i))) } : Call V).set
          (slot P b.off i) (s.value (slot P a i)) := ⟨_, rfl⟩
    have howns' : ({ s with value := Function.update s.value (slot P a i) (E.leave (s.value (slot P a i))) } :
        Call V).Owns P (slot P b.off i) := howns i hi
    have hmove : (moveAt P E (slot P a i) (slot P b.off i)).run s = .ok () s1 :=
      hs1 ▸ construct_run howns' _
    have hheap : s1.heap = s.heap := hs1 ▸ rfl
    have hnew : ∀ x < k, s1.value (slot P b.off x)
        = if x = i then s.value (slot P a i) else s.value (slot P b.off x) := by
      intro x hx
      have hother : slot P b.off x ≠ slot P a i := hne x hx i hi
      rw [hs1]
      by_cases hxi : x = i
      · rw [if_pos hxi, hxi]
        exact Function.update_self _ _ _
      · rw [if_neg hxi]
        refine (Function.update_of_ne (fun heq => hxi (slot_inj.mp heq)) _ _).trans ?_
        exact Function.update_of_ne hother _ _
    have hold : ∀ x < k, s1.value (slot P a x)
        = if x = i then E.leave (s.value (slot P a i)) else s.value (slot P a x) := by
      intro x hx
      have hother : slot P a x ≠ slot P b.off i := (hne i hi x hx).symm
      rw [hs1]
      refine (Function.update_of_ne hother _ _).trans ?_
      by_cases hxi : x = i
      · rw [if_pos hxi, hxi]
        exact Function.update_self _ _ _
      · rw [if_neg hxi]
        exact Function.update_of_ne (fun heq => hxi (slot_inj.mp heq)) _ _
    obtain ⟨t, hrun, hthis, hlost, hheap', hmade, hnew', hold'⟩ := ih (i + 1) s1 (by omega) fun x hx =>
      (howns x hx).congr hheap
    refine ⟨t, (Prog.bind_ok hmove).trans hrun, hthis.trans (hs1 ▸ rfl), hlost.trans (hs1 ▸ rfl),
      hheap'.trans hheap, fun y => ?_, fun x hx => ?_, fun x hx => ?_⟩
    · rw [hmade, show y ∈ s1.made ↔ y = slot P b.off i ∨ y ∈ s.made from hs1 ▸ List.mem_cons]
      constructor
      · rintro (⟨x, h1, h2, rfl⟩ | rfl | hy)
        · exact .inl ⟨x, by omega, h2, rfl⟩
        · exact .inl ⟨i, le_rfl, hi, rfl⟩
        · exact .inr hy
      · rintro (⟨x, h1, h2, rfl⟩ | hy)
        · rcases Nat.eq_or_lt_of_le h1 with rfl | hlt
          · exact .inr (.inl rfl)
          · exact .inl ⟨x, hlt, h2, rfl⟩
        · exact .inr (.inr hy)
    · rw [hnew' x hx, hold x hx, hnew x hx]
      by_cases hxi : x = i
      · simp [hxi]
      · simp [hxi, show i + 1 ≤ x ↔ i ≤ x by omega]
    · rw [hold' x hx, hold x hx]
      by_cases hxi : x = i
      · simp [hxi]
      · simp [hxi, show i + 1 ≤ x ↔ i ≤ x by omega]

end

end Values
end Stl
end Ipcpp
