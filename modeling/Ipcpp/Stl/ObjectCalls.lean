import Ipcpp.Stl.Objects

/-!
# What a call does to the objects

`Good O S s`: the vector that a call is about has exactly one object in each of its slots, the other vectors,
whose blocks are `O`, have theirs at the addresses `S`, and there are no others.  The code keeps that as long
as no elements are moved: a reallocation does not destroy the elements it moves away from, `insert` and
`erase` construct over elements, and most assignments do not reset `_m_finish`.

`Method.Orderly` and `Action.Orderly` are the conditions on the state before a call, for a method and for a
constructor; `method_keeps`, `newSized_sat`, `newRange_sat` and `destroy_sat` say what it keeps then.
-/

namespace Ipcpp
namespace Stl
namespace Objects
open Lifetimes

section
variable (P : Params)

/-! ## the condition -/

/-- if the constructor of an element throws, it is the first one that is called -/
def Prompt (p : Option Nat) : Prop := p = none ∨ p = some 0

/-- the storage that the allocator returns has room for `n` elements -/
def Room (n : Nat) : Option Block → Prop
  | none => True
  | some b => n * P.size ≤ b.size

instance (p : Option Nat) : Decidable (Prompt p) := inferInstanceAs (Decidable (_ ∨ _))

instance (n : Nat) : (b : Option Block) → Decidable (Room P n b)
  | none => isTrue trivial
  | some b => inferInstanceAs (Decidable (n * P.size ≤ b.size))

/-- a constructor that constructs `n` elements -/
def Action.Orderly (a : Action) (n : Nat) : Prop :=
  a.answer = none ∨ Prompt a.patience ∧ Room P n a.answer

/-- new storage for an assignment of `n` elements: the old one is gone if there is none -/
def Action.Replaces (a : Action) (n : Nat) (d : Data) : Prop :=
  (a.answer = none → d.start = 0) ∧ Room P n a.answer

/-- a reallocation for `n` more elements throws before it has new storage -/
def Action.Refuses (a : Action) (n : Nat) (d : Data) : Prop :=
  a.answer = none ∨ grownLength P.maxSize d.count n = none

/-- no elements are moved, and no constructor throws that would leave elements behind -/
def Method.Orderly (d : Data) (a : Action) : Method → Prop
  | pushBack =>
    (d.count * P.size ≠ d.bytes → (d.count + 1) * P.size ≤ d.bytes) ∧
      (d.count * P.size = d.bytes → a.Refuses P 1 d ∨ d.count = 0 ∧ Room P 1 a.answer)
  | popBack => True
  | reserve n => n * P.size ≤ d.bytes ∨ P.maxSize < n ∨ a.answer = none ∨ d.count = 0
  | shrinkToFit => d.count * P.size = d.bytes ∨ P.maxSize < d.count ∨ a.answer = none ∨ d.count = 0
  | clear => True
  | resize n =>
    n ≤ d.count ∨ d.bytes < n * P.size ∧ a.Refuses P n d ∨
      Prompt a.patience ∧ (n * P.size ≤ d.bytes ∨ d.count = 0 ∧ Room P n a.answer)
  | insert pos n =>
    n = 0 ∨ pos = d.count ∧ (d.count + n) * P.size ≤ d.bytes ∨
      d.bytes < (d.count + n) % 2^64 * P.size ∧
        (a.Refuses P n d ∨ pos = d.count ∧ d.count = 0 ∧ Room P n a.answer)
  | insertRange pos n =>
    n = 0 ∨ pos = d.count ∧ (d.count + n) * P.size ≤ d.bytes ∨
      d.bytes < (d.count + n) % 2^64 * P.size ∧ a.Refuses P n d
  | erase pos => pos + 1 = d.count
  | eraseRange first last => last ≤ first
  | assign n =>
    (n * P.size ≤ d.bytes → d.count = 0 ∧ Prompt a.patience) ∧
      (d.bytes < n * P.size → a.Replaces P n d ∧ (a.answer ≠ none → Prompt a.patience))
  | assignRange n =>
    (n * P.size ≤ d.bytes → d.count = 0) ∧ (d.bytes < n * P.size → a.Replaces P n d)
  | assignList n => d.bytes < n * P.size → a.Replaces P n d

instance (a : Action) (n : Nat) : Decidable (a.Orderly P n) := inferInstanceAs (Decidable (_ ∨ _))

instance (a : Action) (n : Nat) (d : Data) : Decidable (a.Replaces P n d) :=
  inferInstanceAs (Decidable ((_ → _) ∧ _))

instance (a : Action) (n : Nat) (d : Data) : Decidable (a.Refuses P n d) :=
  inferInstanceAs (Decidable (_ ∨ _))

instance (d : Data) (a : Action) : (f : Method) → Decidable (f.Orderly P d a)
  | .pushBack => inferInstanceAs (Decidable ((_ → _) ∧ (_ → _)))
  | .popBack => isTrue trivial
  | .reserve _ => inferInstanceAs (Decidable (_ ∨ _))
  | .shrinkToFit => inferInstanceAs (Decidable (_ ∨ _))
  | .clear => isTrue trivial
  | .resize _ => inferInstanceAs (Decidable (_ ∨ _))
  | .insert _ _ => inferInstanceAs (Decidable (_ ∨ _))
  | .insertRange _ _ => inferInstanceAs (Decidable (_ ∨ _))
  | .erase pos => inferInstanceAs (Decidable (pos + 1 = d.count))
  | .eraseRange first last => inferInstanceAs (Decidable (last ≤ first))
  | .assign _ => inferInstanceAs (Decidable ((_ → _) ∧ (_ → _)))
  | .assignRange _ => inferInstanceAs (Decidable ((_ → _) ∧ (_ → _)))
  | .assignList n => inferInstanceAs (Decidable (d.bytes < n * P.size → a.Replaces P n d))

end

/-! ## rows of slots -/

section
variable {P : Params} {start i j n : Nat} {s : Call} {R : Set Nat}

theorem slot_inj (h : slot P start i = slot P start j) : i = j :=
  Nat.eq_of_mul_eq_mul_right P.pos (Nat.add_left_cancel h)

/-- only the log, and what the constructors do next, has changed -/
structure Same (s t : Call) : Prop where
  this : t.this = s.this
  heap : t.heap = s.heap
  answer : t.answer = s.answer

theorem Same.trans {s t u : Call} (h : Same s t) (h' : Same t u) : Same s u :=
  ⟨h'.this.trans h.this, h'.heap.trans h.heap, h'.answer.trans h.answer⟩

/-- after a constructor that has succeeded one less is to succeed -/
theorem patience_succ {p : Option Nat} {m : Nat} (h : p.map (· - 1) = some m) (hne : p ≠ some 0) :
    p = some (m + 1) := by
  obtain ⟨k, rfl, hk⟩ := Option.map_eq_some_iff.mp h
  have hk0 : k ≠ 0 := fun h0 => hne (congrArg some h0)
  exact congrArg some (by omega)

theorem constructAt_sat {a : Nat} (h : Alive s.log R) (ha : a ∉ R) :
    Prog.Sat (constructAt a) s
      (fun _ t => Same s t ∧ Alive t.log (R ∪ {a}) ∧ s.patience ≠ some 0 ∧
        t.patience = s.patience.map (· - 1))
      (fun t => t = s ∧ s.patience = some 0) := by
  refine Prog.Sat.get_bind ?_
  split
  · rename_i hp
    exact Prog.Sat.throw ⟨rfl, hp⟩
  · rename_i hp
    exact Prog.Sat.modify ⟨⟨rfl, rfl, rfl⟩, h.construct ha, hp, rfl⟩

/-- a loop of constructions; `m` of them have been made when it throws -/
theorem constructLoop_sat (h : Alive s.log R) (hR : ∀ m, i ≤ m → m < i + n → slot P start m ∉ R) :
    Prog.Sat (constructLoop P start i n) s
      (fun _ t => Same s t ∧ Alive t.log (R ∪ span (slot P start) i (i + n)))
      (fun t => ∃ m, m < n ∧ s.patience = some m ∧ Same s t ∧
        Alive t.log (R ∪ span (slot P start) i (i + m))) := by
  induction n generalizing i s R with
  | zero =>
    refine Prog.Sat.pure ⟨⟨rfl, rfl, rfl⟩, ?_⟩
    rw [Nat.add_zero, span_self, Set.union_empty]
    exact h
  | succ n ih =>
    have hi : slot P start i ∉ R := hR i (Nat.le_refl i) (by omega)
    -- one step of the row moves from `R` to the addresses behind it
    have hrow : ∀ m, R ∪ {slot P start i} ∪ span (slot P start) (i + 1) (i + 1 + m) =
        R ∪ span (slot P start) i (i + (m + 1)) := by
      intro m
      rw [← span_append (Nat.le_succ i) (by omega : i + 1 ≤ i + (m + 1)), span_one, ← Set.union_assoc,
        show i + 1 + m = i + (m + 1) by omega]
    refine Prog.Sat.bind (Q := fun _ t => Same s t ∧ Alive t.log (R ∪ {slot P start i}) ∧
      s.patience ≠ some 0 ∧ t.patience = s.patience.map (· - 1)) ?_ ?_
    · refine (constructAt_sat h hi).mono (fun _ _ ht => ht) fun t ht => ?_
      obtain ⟨rfl, hp⟩ := ht
      refine ⟨0, Nat.succ_pos n, hp, ⟨rfl, rfl, rfl⟩, ?_⟩
      rw [Nat.add_zero, span_self, Set.union_empty]
      exact h
    · rintro _ t ⟨hsame, hlog, hne, hp⟩
      have hfresh : ∀ m, i + 1 ≤ m → m < i + 1 + n → slot P start m ∉ R ∪ {slot P start i} := by
        rintro m him hmn (hm | hm)
        · exact hR m (by omega) (by omega) hm
        · have := slot_inj hm
          omega
      refine (ih hlog hfresh).mono (fun _ u hu => ⟨hsame.trans hu.1, hrow n ▸ hu.2⟩) fun u hu => ?_
      obtain ⟨m, hmn, hpm, hsame', hlog'⟩ := hu
      rw [hp] at hpm
      exact ⟨m + 1, by omega, patience_succ hpm hne, hsame.trans hsame', hrow m ▸ hlog'⟩

theorem destroyLoop_sat (h : Alive s.log (R ∪ span (slot P start) i (i + n)))
    (hR : ∀ m, i ≤ m → m < i + n → slot P start m ∉ R) :
    Prog.Sat (destroyLoop P start i n) s
      (fun _ t => Same s t ∧ t.patience = s.patience ∧ Alive t.log R) (fun _ => False) := by
  induction n generalizing i s with
  | zero =>
    rw [Nat.add_zero, span_self, Set.union_empty] at h
    exact Prog.Sat.pure ⟨⟨rfl, rfl, rfl⟩, rfl, h⟩
  | succ n ih =>
    have hi : slot P start i ∈ R ∪ span (slot P start) i (i + (n + 1)) :=
      .inr ⟨i, Nat.le_refl i, by omega, rfl⟩
    have hrow : (R ∪ span (slot P start) i (i + (n + 1))) \ {slot P start i} =
        R ∪ span (slot P start) (i + 1) (i + 1 + n) := by
      ext a
      constructor
      · rintro ⟨ha | ⟨m, him, hmn, rfl⟩, hne⟩
        · exact .inl ha
        · have : m ≠ i := fun hmi => hne (hmi ▸ rfl)
          exact .inr ⟨m, by omega, by omega, rfl⟩
      · rintro (ha | ⟨m, him, hmn, rfl⟩)
        · refine ⟨.inl ha, ?_⟩
          rintro rfl
          exact hR i (Nat.le_refl i) (by omega) ha
        · refine ⟨.inr ⟨m, by omega, by omega, rfl⟩, fun hm => ?_⟩
          have := slot_inj hm
          omega
    have hlog : Alive (.destroy (slot P start i) :: s.log) (R ∪ span (slot P start) (i + 1) (i + 1 + n)) :=
      hrow ▸ h.destroy hi
    refine Prog.Sat.modify_bind ?_
    exact (ih hlog fun m him hmn => hR m (by omega) (by omega)).mono
      (fun _ u hu => ⟨⟨hu.1.this, hu.1.heap, hu.1.answer⟩, hu.2⟩) fun _ hu => hu

end

/-! ## what a call relies on -/

section
variable (P : Params) (O : Set Block) (S : Set Nat)

/-- the other vectors have their blocks `O`, in which objects are alive at the addresses `S` -/
structure Rest (heap : List Block) : Prop where
  inside : ∀ a ∈ S, ∃ b ∈ O, b.off ≤ a ∧ a < b.off + b.size
  held : ∀ b ∈ O, b ∈ heap
  pos : ∀ b ∈ heap, 0 < b.size

/-- the storage of the vector is a block of its own -/
structure Owns (d : Data) (heap : List Block) : Prop where
  null : d.start = 0 → d.bytes = 0
  own : d.start ≠ 0 → ⟨d.start, d.bytes⟩ ∈ heap
  apart : d.start ≠ 0 → ∀ b ∈ O, Apart d.start d.bytes b.off b.size

/-- the vector has one object in each of its slots, and nothing else has changed -/
structure Good (s : Call) : Prop where
  alive : Alive s.log (S ∪ span (slot P s.this.start) 0 s.this.count)
  fits : s.this.count * P.size ≤ s.this.bytes
  owns : Owns O s.this s.heap
  rest : Rest O S s.heap

end

section
variable {P : Params} {O : Set Block} {S : Set Nat} {s t : Call} {start bytes m : Nat}

/-- the slots of a block that is apart from those of the others -/
theorem Rest.not_mem {heap : List Block} (h : Rest O S heap)
    (hb : ∀ b ∈ O, Apart start bytes b.off b.size) (hm : (m + 1) * P.size ≤ bytes) :
    slot P start m ∉ S := by
  intro hS
  obtain ⟨b, hbO, hle, hlt⟩ := h.inside _ hS
  have hapart : start + bytes ≤ b.off ∨ b.off + b.size ≤ start := hb b hbO
  have hpos := P.pos
  rw [Nat.succ_mul] at hm
  unfold slot at hle hlt
  omega

theorem Rest.cons {heap : List Block} {b : Block} (h : Rest O S heap) (hb : 0 < b.size) :
    Rest O S (b :: heap) := by
  refine ⟨h.inside, fun c hc => List.mem_cons_of_mem b (h.held c hc), fun c hc => ?_⟩
  rcases List.mem_cons.mp hc with rfl | hc
  · exact hb
  · exact h.pos c hc

theorem Owns.cons {d : Data} {heap : List Block} (h : Owns O d heap) (b : Block) : Owns O d (b :: heap) :=
  ⟨h.null, fun h0 => List.mem_cons_of_mem b (h.own h0), h.apart⟩

theorem Owns.empty (heap : List Block) : Owns O ⟨0, 0, 0⟩ heap :=
  ⟨fun _ => rfl, fun h => absurd rfl h, fun h => absurd rfl h⟩

/-- a block that is apart from those of the others -/
theorem Owns.block {heap : List Block} {b : Block} (hoff : 0 < b.off) (hb : b ∈ heap)
    (hap : ∀ c ∈ O, Apart b.off b.size c.off c.size) (n : Nat) : Owns O ⟨b.off, n, b.size⟩ heap :=
  ⟨fun h0 => absurd h0 (Nat.ne_of_gt hoff), fun _ => hb, fun _ => hap⟩

theorem Owns.count {d : Data} {heap : List Block} (h : Owns O d heap) (n : Nat) :
    Owns O { d with count := n } heap := ⟨h.null, h.own, h.apart⟩

theorem Owns.apart_of_room {d : Data} {heap : List Block} (h : Owns O d heap)
    (hm : (m + 1) * P.size ≤ d.bytes) : ∀ b ∈ O, Apart d.start d.bytes b.off b.size := by
  refine h.apart fun h0 => ?_
  have := h.null h0
  have := P.pos
  rw [Nat.succ_mul] at hm
  omega

/-- the vector gives its block back, the others keep theirs -/
theorem Rest.filter {d : Data} {heap : List Block} (h : Rest O S heap) (ho : Owns O d heap)
    (h0 : d.start ≠ 0) : Rest O S (heap.filter fun c => c.off ≠ d.start) := by
  refine ⟨h.inside, fun b hb => ?_, fun b hb => h.pos b (List.mem_filter.mp hb).1⟩
  have hpos : 0 < d.bytes := h.pos _ (ho.own h0)
  have hpos' : 0 < b.size := h.pos b (h.held b hb)
  have hapart : d.start + d.bytes ≤ b.off ∨ b.off + b.size ≤ d.start := ho.apart h0 b hb
  exact List.mem_filter.mpr ⟨h.held b hb, decide_eq_true (by omega)⟩

namespace Good

theorem fresh (h : Good P O S s) (hm : s.this.count ≤ m) (hb : (m + 1) * P.size ≤ s.this.bytes) :
    slot P s.this.start m ∉ S ∪ span (slot P s.this.start) 0 s.this.count := by
  rintro (hS | ⟨i, _, hi, heq⟩)
  · exact h.rest.not_mem (h.owns.apart_of_room hb) hb hS
  · have := slot_inj heq
    omega

theorem not_mem (h : Good P O S s) (hm : m < s.this.count) : slot P s.this.start m ∉ S := by
  have hb : (m + 1) * P.size ≤ s.this.bytes := (Nat.mul_le_mul_right _ hm).trans h.fits
  exact h.rest.not_mem (h.owns.apart_of_room hb) hb

/-- `_m_finish` is set to where the objects end -/
theorem recount (h : Good P O S s) (ht : Same s t) {n : Nat}
    (hlog : Alive t.log (S ∪ span (slot P s.this.start) 0 n)) (hn : n * P.size ≤ s.this.bytes) :
    Good P O S { t with this := { t.this with count := n } } := by
  obtain ⟨hthis, hheap, -⟩ := ht
  refine ⟨?_, ?_, ?_, ?_⟩
  · show Alive t.log (S ∪ span (slot P t.this.start) 0 n)
    rw [hthis]
    exact hlog
  · show n * P.size ≤ t.this.bytes
    rw [hthis]
    exact hn
  · show Owns O { t.this with count := n } t.heap
    rw [hthis, hheap]
    exact h.owns.count n
  · show Rest O S t.heap
    rw [hheap]
    exact h.rest

/-- one more element behind the others -/
theorem push (h : Good P O S s) (ht : Same s t)
    (hlog : Alive t.log
      (S ∪ span (slot P s.this.start) 0 s.this.count ∪ {slot P s.this.start s.this.count}))
    (hroom : (s.this.count + 1) * P.size ≤ s.this.bytes) :
    Good P O S { t with this := { t.this with count := s.this.count + 1 } } := by
  rw [Set.union_assoc, ← span_one, span_append (Nat.zero_le _) (Nat.le_succ _)] at hlog
  exact h.recount ht hlog hroom

theorem alive_of_zero (h : Good P O S s) (h0 : s.this.count = 0) : Alive s.log S := by
  have := h.alive
  rwa [h0, span_self, Set.union_empty] at this

theorem of_zero (hlog : Alive s.log S) (h0 : s.this.count = 0) (ho : Owns O s.this s.heap)
    (hr : Rest O S s.heap) : Good P O S s := by
  refine ⟨?_, ?_, ho, hr⟩
  · rw [h0, span_self, Set.union_empty]
    exact hlog
  · rw [h0, Nat.zero_mul]
    exact Nat.zero_le _

end Good

/-! ## the parts of a call -/

/-- the call keeps the objects in order, whether it returns or throws -/
def Keeps (P : Params) (O : Set Block) (S : Set Nat) (p : CallM Unit) (s : Call) : Prop :=
  Prog.Sat p s (fun _ t => Good P O S t) (Good P O S)

variable {α : Type} {Q : α → Call → Prop} {E : Call → Prop} {n : Nat}

theorem capacity_bind {f : Nat → CallM α}
    (h : ∀ cap, s.this.bytes = cap * P.size → Prog.Sat (f cap) s Q E) :
    Prog.Sat (capacity P >>= f) s Q E := by
  refine Prog.Sat.bind (Q := fun cap t => t = s ∧ s.this.bytes = cap * P.size) ?_ ?_
  · refine Prog.Sat.get_bind ?_
    split
    · rename_i hdvd
      exact Prog.Sat.pure ⟨rfl, (Nat.div_mul_cancel hdvd).symm⟩
    · exact Prog.Sat.stuck
  · rintro cap t ⟨rfl, hcap⟩
    exact h cap hcap

theorem mul_le_iff {bytes cap k : Nat} (hcap : bytes = cap * P.size) : k * P.size ≤ bytes ↔ k ≤ cap := by
  rw [hcap]
  exact Nat.mul_le_mul_right_iff P.pos

theorem checkLength_bind {f : Nat → CallM α} (hthrow : E s)
    (h : ∀ len, grownLength P.maxSize s.this.count n = some len → Prog.Sat (f len) s Q E) :
    Prog.Sat (checkLength P n >>= f) s Q E := by
  refine Prog.Sat.bind (Q := fun len t => t = s ∧ grownLength P.maxSize s.this.count n = some len) ?_ ?_
  · refine Prog.Sat.get_bind ?_
    split
    · exact Prog.Sat.throw hthrow
    · rename_i len hlen
      exact Prog.Sat.pure ⟨rfl, hlen⟩
  · rintro len t ⟨rfl, hlen⟩
    exact h len hlen

theorem allocate_bind {f : Block → CallM α} (hthrow : n ≠ 0 → s.answer = none → E s)
    (hzero : n = 0 → Prog.Sat (f ⟨0, 0⟩) s Q E)
    (h : ∀ b, n ≠ 0 → s.answer = some b → 0 < b.off → 0 < b.size →
      (∀ c ∈ s.heap, Apart b.off b.size c.off c.size) →
      Prog.Sat (f b) { s with heap := b :: s.heap } Q E) :
    Prog.Sat (allocate n >>= f) s Q E := by
  unfold allocate
  split
  · rename_i hn
    exact hzero hn
  · rename_i hn
    refine Prog.Sat.bind (Q := fun b t => s.answer = some b ∧ 0 < b.off ∧ 0 < b.size ∧
      (∀ c ∈ s.heap, Apart b.off b.size c.off c.size) ∧ t = { s with heap := b :: s.heap }) ?_ ?_
    · refine Prog.Sat.get_bind ?_
      split
      · rename_i ha
        exact Prog.Sat.throw (hthrow hn ha)
      · rename_i b hb
        split
        · rename_i hok
          exact Prog.Sat.modify_bind (Prog.Sat.pure ⟨hb, hok.1, hok.2.1, hok.2.2, rfl⟩)
        · exact Prog.Sat.stuck
    · rintro b t ⟨hb, hoff, hsize, hap, rfl⟩
      exact h b hn hb hoff hsize hap

/-- the heap without the block at `a` -/
def freed (a : Nat) (heap : List Block) : List Block :=
  if a = 0 then heap else heap.filter fun c => c.off ≠ a

theorem deallocate_sat {a : Nat} {Q : Unit → Call → Prop} (h : Q () { s with heap := freed a s.heap }) :
    Prog.Sat (deallocate a) s Q E := by
  unfold deallocate freed at *
  split
  · rename_i ha
    rwa [if_pos ha] at h
  · rename_i ha
    rwa [if_neg ha] at h

theorem deallocate_bind {a : Nat} {f : Unit → CallM α}
    (h : Prog.Sat (f ()) { s with heap := freed a s.heap } Q E) :
    Prog.Sat (deallocate a >>= f) s Q E := by
  refine Prog.Sat.bind (Q := fun _ t => t = { s with heap := freed a s.heap }) (deallocate_sat rfl) ?_
  rintro _ _ rfl
  exact h

theorem Rest.freed {d : Data} {heap : List Block} (h : Rest O S heap) (ho : Owns O d heap) :
    Rest O S (freed d.start heap) := by
  unfold Objects.freed
  split
  · exact h
  · rename_i h0
    exact h.filter ho h0

theorem room_zero (b : Option Block) : Room P 0 b := by
  cases b with
  | none => exact trivial
  | some b =>
    show 0 * P.size ≤ b.size
    rw [Nat.zero_mul]
    exact Nat.zero_le _

/-- of `n` constructors none throws but the first -/
def Early (p : Option Nat) (n : Nat) : Prop := ∀ m < n, p = some m → m = 0

theorem Prompt.early {p : Option Nat} (h : Prompt p) (n : Nat) : Early p n := by
  rintro m _ rfl
  rcases h with h | h
  · cases h
  · exact Option.some.inj h

theorem createStorage_sat (hlog : Alive s.log S) (hr : Rest O S s.heap) :
    Prog.Sat (createStorage n) s
      (fun _ t => Good P O S t ∧ t.this.count = 0 ∧ t.patience = s.patience ∧
        (n = 0 ∨ s.answer ≠ none) ∧ (Room P n s.answer → n * P.size ≤ t.this.bytes))
      (fun t => t = s ∧ s.answer = none) := by
  refine allocate_bind (fun _ ha => ⟨rfl, ha⟩) (fun hn => ?_) fun b hn hb hoff hsize hap => ?_
  · refine Prog.Sat.modify ⟨Good.of_zero hlog rfl (Owns.empty _) hr, rfl, rfl, .inl hn, fun _ => ?_⟩
    rw [hn, Nat.zero_mul]
  · have howns : Owns O ⟨b.off, 0, b.size⟩ (b :: s.heap) :=
      Owns.block hoff List.mem_cons_self (fun c hc => hap c (hr.held c hc)) 0
    have hne : s.answer ≠ none := by
      rw [hb]
      exact Option.some_ne_none b
    refine Prog.Sat.modify ⟨Good.of_zero hlog rfl howns (hr.cons hsize), rfl, rfl, .inr hne, fun hroom => ?_⟩
    rw [hb] at hroom
    exact hroom

theorem fillInitialize_sat (h : Good P O S s) (h0 : s.this.count = 0) (hn : n * P.size ≤ s.this.bytes)
    (hp : Early s.patience n) :
    Prog.Sat (fillInitialize P n) s (fun _ t => Good P O S t) (fun t => Good P O S t ∧ t.this.count = 0) := by
  have hfresh : ∀ m, 0 ≤ m → m < 0 + n → slot P s.this.start m ∉ S := by
    intro m _ hm
    have hb : (m + 1) * P.size ≤ s.this.bytes := (Nat.mul_le_mul_right _ (by omega)).trans hn
    exact h.rest.not_mem (h.owns.apart_of_room hb) hb
  refine Prog.Sat.get_bind ?_
  refine Prog.Sat.bind (Q := fun _ t => Same s t ∧ Alive t.log (S ∪ span (slot P s.this.start) 0 n)) ?_ ?_
  · refine (constructLoop_sat (h.alive_of_zero h0) hfresh).mono (fun _ t ht => ?_) fun t ht => ?_
    · rwa [Nat.zero_add] at ht
    · obtain ⟨m, hmn, hpm, hsame, hlog⟩ := ht
      obtain rfl := hp m hmn hpm
      rw [Nat.add_zero, span_self, Set.union_empty] at hlog
      have h0' : t.this.count = 0 := by rw [hsame.this, h0]
      exact ⟨Good.of_zero hlog h0' (hsame.this ▸ hsame.heap ▸ h.owns) (hsame.heap ▸ h.rest), h0'⟩
  · rintro _ t ⟨hsame, hlog⟩
    refine Prog.Sat.modify ?_
    rw [h0, Nat.zero_add]
    exact h.recount hsame hlog hn

theorem constructEach_sat (h : Good P O S s) (hn : (s.this.count + n) * P.size ≤ s.this.bytes) :
    Prog.Sat (constructEach P s.this.count n) s (fun _ t => Good P O S t)
      (fun t => Good P O S t ∧ ∃ m < n, s.patience = some m ∧ t.this.count = s.this.count + m) := by
  induction n generalizing s with
  | zero => exact Prog.Sat.pure h
  | succ n ih =>
    have hone : (s.this.count + 1) * P.size ≤ s.this.bytes :=
      (Nat.mul_le_mul_right _ (by omega)).trans hn
    refine Prog.Sat.get_bind ?_
    refine Prog.Sat.bind
      ((constructAt_sat h.alive (h.fresh (Nat.le_refl _) hone)).mono (fun _ _ ht => ht) ?_) ?_
    · rintro t ⟨rfl, hp⟩
      exact ⟨h, 0, Nat.succ_pos n, hp, rfl⟩
    · rintro _ t ⟨hsame, hlog, hne, hp⟩
      have hgood := h.push hsame hlog hone
      have hcount : (s.this.count + 1 + n) * P.size ≤ t.this.bytes := by
        rw [hsame.this, Nat.add_assoc, Nat.add_comm 1 n]
        exact hn
      refine Prog.Sat.modify_bind ((ih hgood hcount).mono (fun _ _ hu => hu) ?_)
      rintro u ⟨hu, m, hmn, hpm, hcu⟩
      have hpm' : t.patience = some m := hpm
      rw [hp] at hpm'
      have hcu' : u.this.count = s.this.count + 1 + m := hcu
      exact ⟨hu, m + 1, by omega, patience_succ hpm' hne, by omega⟩

theorem copyInitialize_sat (h : Good P O S s) (h0 : s.this.count = 0) (hn : n * P.size ≤ s.this.bytes) :
    Prog.Sat (copyInitialize P n) s (fun _ t => Good P O S t)
      (fun t => Good P O S t ∧ ∃ m < n, s.patience = some m ∧ t.this.count = m) := by
  have := constructEach_sat (n := n) h (by rwa [h0, Nat.zero_add])
  rw [h0] at this
  refine this.mono (fun _ _ ht => ht) ?_
  rintro t ⟨ht, m, hm, hp, hc⟩
  exact ⟨ht, m, hm, hp, by rw [hc, Nat.zero_add]⟩

theorem realloc_sat {len extra : Nat} (h : Good P O S s) (h0 : s.this.count = 0) (hlen : len = 0 → extra = 0)
    (hroom : Room P extra s.answer) (hp : Early s.patience extra) :
    Prog.Sat (realloc P len extra) s
      (fun _ t => Good P O S t ∧ t.this.count = extra ∧
        (len ≠ 0 → s.answer = some ⟨t.this.start, t.this.bytes⟩)) (Good P O S) := by
  refine Prog.Sat.get_bind ?_
  refine allocate_bind (fun _ _ => h) (fun hz => ?_) fun b _ hb hoff hsize hap => ?_
  · rw [h0, hlen hz]
    refine Prog.Sat.bind (Q := fun _ t => t = s) (Prog.Sat.pure rfl) ?_
    rintro _ t rfl
    refine Prog.Sat.bind (Q := fun _ u => u = t) (Prog.Sat.pure rfl) ?_
    rintro _ t rfl
    refine capacity_bind fun cap _ => deallocate_bind (Prog.Sat.modify ⟨?_, rfl, fun hne => absurd hz hne⟩)
    exact Good.of_zero (h.alive_of_zero h0) rfl (Owns.empty _) (h.rest.freed h.owns)
  · rw [hb] at hroom
    have hfresh : ∀ m, 0 ≤ m → m < 0 + extra → slot P b.off m ∉ S := by
      intro m _ hm
      have hin : (m + 1) * P.size ≤ b.size := (Nat.mul_le_mul_right _ (by omega)).trans hroom
      exact h.rest.not_mem (fun c hc => hap c (h.rest.held c hc)) hin
    rw [h0]
    refine Prog.Sat.bind (Q := fun _ t => t = { s with heap := b :: s.heap }) (Prog.Sat.pure rfl) ?_
    rintro _ _ rfl
    have hlog0 : Alive ({ s with heap := b :: s.heap } : Call).log S := h.alive_of_zero h0
    refine Prog.Sat.bind (Q := fun _ t => Same { s with heap := b :: s.heap } t ∧
      Alive t.log (S ∪ span (slot P b.off) 0 extra)) ?_ ?_
    · refine (constructLoop_sat (s := { s with heap := b :: s.heap }) hlog0 hfresh).mono
        (fun _ t ht => ?_) fun t ht => ?_
      · rwa [Nat.zero_add] at ht
      · obtain ⟨m, hmn, hpm, hsame, hlog⟩ := ht
        obtain rfl := hp m hmn hpm
        rw [Nat.add_zero, span_self, Set.union_empty] at hlog
        refine Good.of_zero hlog (by rw [hsame.this]; exact h0) ?_ ?_
        · rw [hsame.this, hsame.heap]
          exact h.owns.cons b
        · rw [hsame.heap]
          exact h.rest.cons hsize
    · rintro _ t ⟨hsame, hlog⟩
      refine capacity_bind fun cap _ => deallocate_bind (Prog.Sat.modify ⟨?_, Nat.zero_add extra, fun _ => hb⟩)
      have hrest : Rest O S (freed s.this.start t.heap) := by
        rw [hsame.heap]
        exact (h.rest.cons hsize).freed (h.owns.cons b)
      -- the new block is not the one that was given back
      have hmem : b ∈ freed s.this.start t.heap := by
        rw [hsame.heap]
        unfold freed
        split
        · exact List.mem_cons_self
        · rename_i hne
          have hpos : 0 < s.this.bytes := h.rest.pos _ (h.owns.own hne)
          have hapart : b.off + b.size ≤ s.this.start ∨ s.this.start + s.this.bytes ≤ b.off :=
            hap _ (h.owns.own hne)
          exact List.mem_filter.mpr ⟨List.mem_cons_self, decide_eq_true (by omega)⟩
      refine ⟨by rw [Nat.zero_add]; exact hlog, by rw [Nat.zero_add]; exact hroom, ?_, hrest⟩
      exact Owns.block hoff hmem (fun c hc => hap c (h.rest.held c hc)) _

/-! ## the methods -/

/-- the length that is asked for when there are no elements -/
theorem grownLength_zero {maxSize len : Nat} (h : grownLength maxSize 0 n = some len) : len = n := by
  unfold grownLength at h
  split at h
  · cases h
  · have := Option.some.inj h
    split at this <;> omega

theorem grownLength_pos {maxSize size len : Nat} (h : grownLength maxSize size n = some len)
    (hmax : 0 < maxSize) (hn : 0 < n) : len ≠ 0 := by
  by_cases h0 : size = 0
  · rw [h0] at h
    rw [grownLength_zero h]
    omega
  · unfold grownLength at h
    split at h
    · cases h
    · have := Option.some.inj h
      split at this <;> omega

theorem Action.Refuses.answer {a : Action} {d : Data} {len : Nat} (h : a.Refuses P n d)
    (hlen : grownLength P.maxSize d.count n = some len) : a.answer = none := by
  rcases h with hnone | hnone
  · exact hnone
  · rw [hlen] at hnone
    cases hnone

/-- the allocator throws before anything has happened -/
theorem realloc_refused {len extra : Nat} {Q : Unit → Call → Prop} (h : Good P O S s) (hlen : len ≠ 0)
    (ha : s.answer = none) : Prog.Sat (realloc P len extra) s Q (Good P O S) := by
  refine Prog.Sat.get_bind (allocate_bind (fun _ _ => h) (fun hz => absurd hz hlen) fun b _ hb => ?_)
  rw [ha] at hb
  cases hb

/-- destroy the elements from number `i` on -/
theorem destroyFrom_sat (h : Good P O S s) {i : Nat} (hi : i ≤ s.this.count) :
    Prog.Sat (destroyLoop P s.this.start i (s.this.count - i)) s
      (fun _ t => Same s t ∧ t.patience = s.patience ∧ Alive t.log (S ∪ span (slot P s.this.start) 0 i))
      (fun _ => False) := by
  refine destroyLoop_sat ?_ fun m him hm => ?_
  · rw [show i + (s.this.count - i) = s.this.count by omega, Set.union_assoc, span_append (Nat.zero_le i) hi]
    exact h.alive
  · rintro (hS | ⟨j, _, hj, heq⟩)
    · exact h.not_mem (by omega) hS
    · have := slot_inj heq
      omega

theorem destroyAll_sat (h : Good P O S s) :
    Prog.Sat (destroyLoop P s.this.start 0 s.this.count) s
      (fun _ t => Same s t ∧ t.patience = s.patience ∧ Alive t.log S) (fun _ => False) := by
  have := destroyFrom_sat h (Nat.zero_le s.this.count)
  rwa [Nat.sub_zero, span_self, Set.union_empty] at this

theorem destroyTail_keeps (h : Good P O S s) {i : Nat} (hi : i ≤ s.this.count) :
    Keeps P O S (destroyLoop P s.this.start i (s.this.count - i) >>= fun _ => setCount i) s := by
  refine Prog.Sat.bind ((destroyFrom_sat h hi).mono (fun _ _ ht => ht) fun _ => False.elim) ?_
  rintro _ t ⟨hsame, -, hlog⟩
  exact Prog.Sat.modify (h.recount hsame hlog ((Nat.mul_le_mul_right _ hi).trans h.fits))

theorem clear_sat (h : Good P O S s) :
    Prog.Sat (clear P) s (fun _ t => Good P O S t ∧ t.this.count = 0 ∧ t.answer = s.answer) (Good P O S) := by
  refine Prog.Sat.get_bind (Prog.Sat.bind ((destroyAll_sat h).mono (fun _ _ ht => ht) fun _ => False.elim) ?_)
  rintro _ t ⟨hsame, -, hlog⟩
  have howns : Owns O { t.this with count := 0 } t.heap := by
    rw [hsame.this, hsame.heap]
    exact h.owns.count 0
  exact Prog.Sat.modify ⟨Good.of_zero hlog rfl howns (hsame.heap ▸ h.rest), rfl, hsame.answer⟩

/-- `pop_back`, and `erase` of the last element -/
theorem popBack_keeps (h : Good P O S s) (h0 : 0 < s.this.count) : Keeps P O S (popBack P) s := by
  have := destroyTail_keeps h (Nat.sub_le s.this.count 1)
  rwa [show s.this.count - (s.this.count - 1) = 1 by omega] at this

/-- a reallocation after `_m_check_length(n)`: there are no elements to move, or no storage to move them
to -/
theorem grown_keeps {len extra : Nat} (h : Good P O S s)
    (hlen : grownLength P.maxSize s.this.count n = some len) (hn : 0 < n)
    {a : Action} (ha : s.answer = a.answer)
    (ho : a.Refuses P n s.this ∨ s.this.count = 0 ∧ Room P extra a.answer) (hp : Early s.patience extra) :
    Keeps P O S (realloc P len extra) s := by
  have hlen0 : len ≠ 0 := grownLength_pos hlen P.maxSize_pos hn
  rcases ho with href | ⟨h0, hroom⟩
  · exact realloc_refused h hlen0 (ha.trans (href.answer hlen))
  · exact (realloc_sat h h0 (fun hz => absurd hz hlen0) (ha ▸ hroom) hp).mono (fun _ _ ht => ht.1) fun _ ht => ht

theorem reallocCopy_keeps (h : Good P O S s)
    (ho : P.maxSize < n ∨ n ≠ 0 ∧ s.answer = none ∨ s.this.count = 0) : Keeps P O S (reallocCopy P n) s := by
  unfold reallocCopy
  split
  · exact Prog.Sat.throw h
  · rename_i hle
    rcases ho with hlt | ⟨hn, hnone⟩ | h0
    · exact absurd hlt hle
    · exact realloc_refused h hn hnone
    · exact (realloc_sat h h0 (fun _ => rfl) (room_zero _) fun m hm => by omega).mono
        (fun _ _ ht => ht.1) fun _ ht => ht

theorem pushBack_keeps {a : Action} (h : Good P O S s) (ha : s.answer = a.answer)
    (ho : Method.pushBack.Orderly P s.this a) : Keeps P O S (pushBack P) s := by
  obtain ⟨hroom, hfull⟩ := ho
  refine Prog.Sat.get_bind ?_
  split
  · rename_i hne
    refine Prog.Sat.bind
      ((constructAt_sat h.alive (h.fresh (Nat.le_refl _) (hroom hne))).mono (fun _ _ ht => ht) ?_) ?_
    · rintro t ⟨rfl, -⟩
      exact h
    · rintro _ t ⟨hsame, hlog, -, -⟩
      exact Prog.Sat.modify (h.push hsame hlog (hroom hne))
  · rename_i heq
    exact checkLength_bind h fun len hlen =>
      grown_keeps h hlen Nat.one_pos ha (hfull (not_not.mp heq)) fun m hm _ => by omega

theorem reserve_keeps {a : Action} (h : Good P O S s) (ha : s.answer = a.answer)
    (ho : (Method.reserve n).Orderly P s.this a) : Keeps P O S (reserve P n) s := by
  refine capacity_bind fun cap hcap => ?_
  split
  · exact Prog.Sat.pure h
  · rename_i hn
    refine reallocCopy_keeps h ?_
    rcases ho with hroom | hlt | hnone | h0
    · exact absurd ((mul_le_iff hcap).mp hroom) hn
    · exact .inl hlt
    · exact .inr (.inl ⟨by omega, ha.trans hnone⟩)
    · exact .inr (.inr h0)

theorem shrinkToFit_keeps {a : Action} (h : Good P O S s) (ha : s.answer = a.answer)
    (ho : Method.shrinkToFit.Orderly P s.this a) : Keeps P O S (shrinkToFit P) s := by
  refine capacity_bind fun cap hcap => Prog.Sat.get_bind ?_
  split
  · exact Prog.Sat.pure h
  · rename_i hne
    refine reallocCopy_keeps h ?_
    rcases ho with hfull | hlt | hnone | h0
    · rw [hcap] at hfull
      exact absurd (Nat.eq_of_mul_eq_mul_right P.pos hfull).symm hne
    · exact .inl hlt
    · by_cases h0 : s.this.count = 0
      · exact .inr (.inr h0)
      · exact .inr (.inl ⟨h0, ha.trans hnone⟩)
    · exact .inr (.inr h0)

theorem resize_keeps {a : Action} (h : Good P O S s) (ha : s.answer = a.answer)
    (hp : s.patience = a.patience) (ho : (Method.resize n).Orderly P s.this a) :
    Keeps P O S (resize P n) s := by
  refine Prog.Sat.get_bind ?_
  split
  · exact Prog.Sat.pure h
  split
  · rename_i hlt
    exact destroyTail_keeps h (Nat.le_of_lt hlt)
  · rename_i hne hge
    refine capacity_bind fun cap hcap => ?_
    have hmul : n * P.size ≤ s.this.bytes ↔ n ≤ cap := mul_le_iff hcap
    split
    · rename_i hle
      have hprompt : Prompt s.patience := by
        rw [hp]
        rcases ho with hle' | ⟨hlt, -⟩ | ⟨hprompt, -⟩
        · omega
        · have := hmul.mpr hle
          omega
        · exact hprompt
      refine Prog.Sat.bind (Q := fun _ t => Same s t ∧ Alive t.log (S ∪ span (slot P s.this.start) 0 n)) ?_ ?_
      · have hfresh : ∀ m, s.this.count ≤ m → m < s.this.count + (n - s.this.count) →
            slot P s.this.start m ∉ S ∪ span (slot P s.this.start) 0 s.this.count := by
          intro m hm hmn
          exact h.fresh hm ((Nat.mul_le_mul_right _ (by omega)).trans (hmul.mpr hle))
        refine (constructLoop_sat h.alive hfresh).mono (fun _ t ht => ⟨ht.1, ?_⟩) fun t ht => ?_
        · have hlog := ht.2
          rwa [Set.union_assoc, span_append (Nat.zero_le _) (Nat.le_add_right _ _),
            show s.this.count + (n - s.this.count) = n by omega] at hlog
        · obtain ⟨m, hm, hpm, hsame, hlog⟩ := ht
          obtain rfl := hprompt.early _ m hm hpm
          rw [Nat.add_zero, span_self, Set.union_empty] at hlog
          have hgood := h.recount hsame hlog h.fits
          rwa [← hsame.this] at hgood
      · rintro _ t ⟨hsame, hlog⟩
        exact Prog.Sat.modify (h.recount hsame hlog (hmul.mpr hle))
    · rename_i hgt
      refine checkLength_bind h fun len hlen => Prog.Sat.get_bind ?_
      rcases ho with hle' | ⟨-, href⟩ | ⟨hprompt, hroom | ⟨h0, hroom⟩⟩
      · omega
      · exact realloc_refused h (grownLength_pos hlen P.maxSize_pos (by omega)) (ha.trans (href.answer hlen))
      · exact absurd (hmul.mp hroom) hgt
      · refine grown_keeps h hlen (by omega) ha (.inr ⟨h0, ?_⟩) (hp ▸ hprompt.early _)
        rw [h0]
        exact hroom

/-- a shift at the end of the elements moves nothing -/
theorem moveTo_end {first : Nat} {Q : Unit → Call → Prop} (h : Q () s) (k : Nat) :
    Prog.Sat (moveTo P first first (first + k)) s Q E := by
  unfold moveTo
  split
  · exact Prog.Sat.pure h
  split
  · rw [Nat.sub_self, Nat.zero_add, Nat.div_eq_of_lt (Nat.sub_lt P.pos Nat.one_pos)]
    exact Prog.Sat.pure h
  split
  · rw [Nat.sub_self, Nat.zero_div]
    exact Prog.Sat.pure h
  · exact Prog.Sat.stuck

/-- the second half of `insert`, at the end -/
theorem insertEnd_keeps (h : Good P O S s) (hn : (s.this.count + n) * P.size ≤ s.this.bytes) :
    Keeps P O S (do
      moveTo P (slot P s.this.start s.this.count) (slot P s.this.start s.this.count)
        (slot P s.this.start s.this.count + n * P.size)
      constructEach P s.this.count n) s := by
  refine Prog.Sat.bind (Q := fun _ t => t = s) (moveTo_end rfl _) ?_
  rintro _ _ rfl
  exact (constructEach_sat h hn).mono (fun _ _ ht => ht) fun _ ht => ht.1

theorem insertNone_keeps (h : Good P O S s) (first last pos : Nat) :
    Keeps P O S (do
      moveTo P first last (first + 0 * P.size)
      constructEach P pos 0) s := by
  refine Prog.Sat.bind (Q := fun _ t => t = s) ?_ ?_
  · unfold moveTo
    rw [Nat.zero_mul, Nat.add_zero, if_pos rfl]
    exact Prog.Sat.pure rfl
  · rintro _ _ rfl
    exact Prog.Sat.pure h

theorem uninitializedReallocN_refused {a : Action} {Q : Unit → Call → Prop} (h : Good P O S s) (hn : 0 < n)
    (ha : s.answer = a.answer) (ho : a.Refuses P n s.this) :
    Prog.Sat (uninitializedReallocN P n) s Q (Good P O S) :=
  checkLength_bind h fun _ hlen =>
    realloc_refused h (grownLength_pos hlen P.maxSize_pos hn) (ha.trans (ho.answer hlen))

theorem uninitializedReallocN_sat (h : Good P O S s) (h0 : s.this.count = 0) (hn : 0 < n)
    (hroom : Room P n s.answer) :
    Prog.Sat (uninitializedReallocN P n) s
      (fun _ t => Good P O S t ∧ t.this.count = 0 ∧ n * P.size ≤ t.this.bytes) (Good P O S) := by
  refine checkLength_bind h fun len hlen => ?_
  refine (realloc_sat h h0 (fun _ => rfl) (room_zero _) fun m hm => by omega).mono ?_ fun _ ht => ht
  rintro _ t ⟨ht, hc, hans⟩
  rw [hans (grownLength_pos hlen P.maxSize_pos hn)] at hroom
  exact ⟨ht, hc, hroom⟩

/-- where `insert` does not reallocate the sum of sizes, which may have wrapped, is within the capacity -/
theorem insertStays_keeps {pos : Nat} (h : Good P O S s)
    (hge : ¬ s.this.bytes < (s.this.count + n) % 2^64 * P.size) {C : Prop}
    (ho : n = 0 ∨ pos = s.this.count ∧ (s.this.count + n) * P.size ≤ s.this.bytes ∨
      s.this.bytes < (s.this.count + n) % 2^64 * P.size ∧ C) :
    Keeps P O S (do
      moveTo P (slot P s.this.start pos) (slot P s.this.start s.this.count)
        (slot P s.this.start pos + n * P.size)
      constructEach P pos n) s := by
  rcases ho with rfl | ⟨rfl, hroom⟩ | ⟨hlt, -⟩
  · exact insertNone_keeps h _ _ _
  · exact insertEnd_keeps h hroom
  · exact absurd hlt hge

theorem insert_keeps {a : Action} {pos : Nat} (h : Good P O S s) (ha : s.answer = a.answer)
    (ho : (Method.insert pos n).Orderly P s.this a) : Keeps P O S (insert P pos n) s := by
  refine capacity_bind fun cap hcap => Prog.Sat.get_bind ?_
  have hmul := mul_le_iff (P := P) (k := (s.this.count + n) % 2^64) hcap
  have hfits : s.this.count ≤ cap := (mul_le_iff hcap).mp h.fits
  split
  · rename_i hlt
    have hwrap : (s.this.count + n) % 2^64 ≤ s.this.count + n := Nat.mod_le _ _
    have hn : 0 < n := by omega
    rcases ho with rfl | ⟨-, hroom⟩ | ⟨-, href | ⟨hpos, h0, hroom⟩⟩
    · omega
    · have := (mul_le_iff hcap).mp hroom
      omega
    · exact Prog.Sat.bind (uninitializedReallocN_refused h hn ha href) fun _ _ => False.elim
    · refine Prog.Sat.bind (uninitializedReallocN_sat h h0 hn (ha ▸ hroom)) ?_
      rintro _ t ⟨ht, hc, hb⟩
      refine Prog.Sat.get_bind ?_
      rw [hpos, h0, ← hc]
      exact insertEnd_keeps ht (by rwa [hc, Nat.zero_add])
  · rename_i hge
    exact Prog.Sat.get_bind (insertStays_keeps h (by omega) ho)

theorem insertRange_keeps {a : Action} {pos : Nat} (h : Good P O S s) (ha : s.answer = a.answer)
    (ho : (Method.insertRange pos n).Orderly P s.this a) : Keeps P O S (insertRange P pos n) s := by
  refine capacity_bind fun cap hcap => Prog.Sat.get_bind ?_
  have hmul := mul_le_iff (P := P) (k := (s.this.count + n) % 2^64) hcap
  have hfits : s.this.count ≤ cap := (mul_le_iff hcap).mp h.fits
  show Prog.Sat (if cap < (s.this.count + n) % 2^64 then _ else _) s _ _
  split
  · rename_i hlt
    have hwrap : (s.this.count + n) % 2^64 ≤ s.this.count + n := Nat.mod_le _ _
    rcases ho with rfl | ⟨-, hroom⟩ | ⟨-, href⟩
    · omega
    · have := (mul_le_iff hcap).mp hroom
      omega
    · exact Prog.Sat.bind (uninitializedReallocN_refused h (by omega) ha href) fun _ _ => False.elim
  · rename_i hge
    exact Prog.Sat.get_bind (insertStays_keeps h (by omega) ho)

theorem erase_keeps {a : Action} {pos : Nat} (h : Good P O S s)
    (ho : (Method.erase pos).Orderly P s.this a) : Keeps P O S (erase P pos) s := by
  have hlast : pos + 1 = s.this.count := ho
  have hpop := popBack_keeps h (by omega)
  refine Prog.Sat.get_bind ?_
  rw [if_pos hlast, show pos = s.this.count - 1 by omega]
  exact hpop

theorem eraseRange_keeps {a : Action} {first last : Nat} (h : Good P O S s)
    (ho : (Method.eraseRange first last).Orderly P s.this a) : Keeps P O S (eraseRange P first last) s := by
  have hle : last ≤ first := ho
  refine Prog.Sat.get_bind ?_
  rw [if_pos hle]
  exact Prog.Sat.pure h

/-- the assignments: `other` leaves no elements if the storage suffices, and `init` constructs `n` in a vector
without elements -/
theorem assignWith_keeps {a : Action} {other init : CallM Unit} (h : Good P O S s) (ha : s.answer = a.answer)
    (hother : n * P.size ≤ s.this.bytes → ∀ t, Same s t → t.patience = s.patience → Alive t.log S →
      Prog.Sat other t (fun _ u => Good P O S u ∧ u.this.count = 0 ∧ u.patience = s.patience ∧
        n * P.size ≤ u.this.bytes) (Good P O S))
    (hreplace : s.this.bytes < n * P.size → a.Replaces P n s.this)
    (hinit : ∀ t, Good P O S t → t.this.count = 0 → t.patience = s.patience → n * P.size ≤ t.this.bytes →
      n * P.size ≤ s.this.bytes ∨ a.answer ≠ none → Keeps P O S init t) :
    Keeps P O S (assignWith P other init n) s := by
  refine Prog.Sat.get_bind ?_
  refine Prog.Sat.bind ((destroyAll_sat h).mono (fun _ _ ht => ht) fun _ => False.elim) ?_
  rintro _ t ⟨hsame, hpat, hlog⟩
  refine capacity_bind fun cap hcap => ?_
  have hmul : n * P.size ≤ s.this.bytes ↔ n ≤ cap := mul_le_iff (hsame.this ▸ hcap)
  show Prog.Sat (if cap < n then _ else _) t _ _
  split
  · rename_i hlt
    have hgt : s.this.bytes < n * P.size := Nat.lt_of_not_le fun hle => absurd (hmul.mp hle) (by omega)
    obtain ⟨hkeep, hroom⟩ := hreplace hgt
    refine deallocate_bind ?_
    have hrest : Rest O S (freed s.this.start t.heap) := by
      rw [hsame.heap]
      exact h.rest.freed h.owns
    refine Prog.Sat.bind ((createStorage_sat (P := P)
      (s := { t with heap := freed s.this.start t.heap }) hlog hrest).mono (fun _ _ hu => hu) ?_) ?_
    · -- without storage the vector is as it was, and it had none before
      rintro u ⟨rfl, hnone⟩
      have hstart : s.this.start = 0 := hkeep (ha ▸ hsame.answer ▸ hnone)
      have hzero : s.this.count = 0 := by
        have := h.fits
        rw [h.owns.null hstart] at this
        exact (Nat.mul_eq_zero.mp (Nat.le_zero.mp this)).resolve_right (Nat.ne_of_gt P.pos)
      refine Good.of_zero hlog (hsame.this ▸ hzero) ?_ hrest
      show Owns O t.this (freed s.this.start t.heap)
      rw [hsame.this, hsame.heap]
      unfold freed
      rw [if_pos hstart]
      exact h.owns
    · rintro _ u ⟨hu, hzero, hpat', hans, hbytes⟩
      have hans' : t.answer = a.answer := hsame.answer.trans ha
      refine hinit u hu hzero (hpat'.trans hpat) (hbytes (hans' ▸ hroom)) (.inr fun hnone => ?_)
      rcases hans with hz | hne
      · omega
      · exact hne (hans'.trans hnone)
  · rename_i hge
    have hle : n * P.size ≤ s.this.bytes := hmul.mpr (by omega)
    refine Prog.Sat.bind (hother hle t hsame hpat hlog) ?_
    rintro _ u ⟨hu, hzero, hpat', hbytes⟩
    exact hinit u hu hzero hpat' hbytes (.inl hle)

/-- with nothing to be done to a vector that has no elements -/
theorem Good.unchanged (h : Good P O S s) (h0 : s.this.count = 0) (hle : n * P.size ≤ s.this.bytes)
    (ht : Same s t) (hp : t.patience = s.patience) (hlog : Alive t.log S) :
    Prog.Sat (pure () : CallM Unit) t (fun _ u => Good P O S u ∧ u.this.count = 0 ∧
      u.patience = s.patience ∧ n * P.size ≤ u.this.bytes) (Good P O S) := by
  refine Prog.Sat.pure ⟨Good.of_zero hlog (ht.this ▸ h0) ?_ (ht.heap ▸ h.rest), ht.this ▸ h0, hp, ht.this ▸ hle⟩
  rw [ht.this, ht.heap]
  exact h.owns

theorem assignFill_keeps {a : Action} (h : Good P O S s) (ha : s.answer = a.answer)
    (hp : s.patience = a.patience) (ho : (Method.assign n).Orderly P s.this a) :
    Keeps P O S (assignFill P n) s := by
  obtain ⟨hroom, hfull⟩ := ho
  refine assignWith_keeps h ha (fun hle _ ht hpt hlog => h.unchanged (hroom hle).1 hle ht hpt hlog)
    (fun hgt => (hfull hgt).1) fun t ht h0 hpt hb hcase => ?_
  have hprompt : Prompt a.patience := by
    by_cases hle : n * P.size ≤ s.this.bytes
    · exact (hroom hle).2
    · exact (hfull (Nat.lt_of_not_le hle)).2 (hcase.resolve_left hle)
  refine (fillInitialize_sat ht h0 hb ?_).mono (fun _ _ hu => hu) fun _ hu => hu.1
  rw [hpt, hp]
  exact hprompt.early n

theorem assignRange_keeps {a : Action} (h : Good P O S s) (ha : s.answer = a.answer)
    (ho : (Method.assignRange n).Orderly P s.this a) : Keeps P O S (assignRange P n) s := by
  obtain ⟨hroom, hfull⟩ := ho
  refine assignWith_keeps h ha (fun hle _ ht hpt hlog => h.unchanged (hroom hle) hle ht hpt hlog) hfull
    fun t ht h0 _ hb _ => ?_
  exact (copyInitialize_sat ht h0 hb).mono (fun _ _ hu => hu) fun _ hu => hu.1

theorem assignList_keeps {a : Action} (h : Good P O S s) (ha : s.answer = a.answer)
    (ho : (Method.assignList n).Orderly P s.this a) : Keeps P O S (assignList P n) s := by
  refine assignWith_keeps h ha (fun hle t ht hpt hlog => ?_) ho fun t ht h0 _ hb _ => ?_
  · -- `_m_finish` is set back
    have hlog' : Alive t.log (S ∪ span (slot P s.this.start) 0 0) := by
      rw [span_self, Set.union_empty]
      exact hlog
    have hzero : 0 * P.size ≤ s.this.bytes := by
      rw [Nat.zero_mul]
      exact Nat.zero_le _
    exact Prog.Sat.modify ⟨h.recount ht hlog' hzero, rfl, hpt, ht.this ▸ hle⟩
  · exact (copyInitialize_sat ht h0 hb).mono (fun _ _ hu => hu) fun _ hu => hu.1

/-- **What an orderly call of a method keeps.** -/
theorem method_keeps {a : Action} {f : Method} (h : Good P O S s) (ha : s.answer = a.answer)
    (hp : s.patience = a.patience) (hv : f.Valid s.this) (ho : f.Orderly P s.this a) :
    Keeps P O S (f.run P) s := by
  cases f with
  | pushBack => exact pushBack_keeps h ha ho
  | popBack => exact popBack_keeps h hv
  | reserve n => exact reserve_keeps h ha ho
  | shrinkToFit => exact shrinkToFit_keeps h ha ho
  | clear => exact (clear_sat h).mono (fun _ _ ht => ht.1) fun _ ht => ht
  | resize n => exact resize_keeps h ha hp ho
  | insert pos n => exact insert_keeps h ha ho
  | insertRange pos n => exact insertRange_keeps h ha ho
  | erase pos => exact erase_keeps h ho
  | eraseRange first last => exact eraseRange_keeps h ho
  | assign n => exact assignFill_keeps h ha hp ho
  | assignRange n => exact assignRange_keeps h ha ho
  | assignList n => exact assignList_keeps h ha ho

/-! ## constructors and the destructor -/

theorem Good.default (hthis : s.this = {}) (hlog : Alive s.log S) (hr : Rest O S s.heap) : Good P O S s := by
  refine Good.of_zero hlog (by rw [hthis]) ?_ hr
  rw [hthis]
  exact Owns.empty _

/-- a constructor makes storage for `n` elements, in which `init` constructs them -/
theorem construct_sat {a : Action} {init : CallM Unit} (hthis : s.this = {}) (hlog : Alive s.log S)
    (hr : Rest O S s.heap) (ha : s.answer = a.answer) (hp : s.patience = a.patience) (ho : a.Orderly P n)
    (hinit : ∀ t, Good P O S t → t.this.count = 0 → n * P.size ≤ t.this.bytes → Early t.patience n →
      Prog.Sat init t (fun _ u => Good P O S u) (fun u => Good P O S u ∧ u.this.count = 0)) :
    Prog.Sat (createStorage n >>= fun _ => init) s (fun _ t => Good P O S t)
      (fun t => Good P O S t ∧ t.this.count = 0) := by
  refine Prog.Sat.bind ((createStorage_sat (P := P) hlog hr).mono (fun _ _ ht => ht) ?_) ?_
  · rintro t ⟨rfl, -⟩
    exact ⟨Good.default hthis hlog hr, by rw [hthis]⟩
  · rintro _ t ⟨ht, h0, hpt, hans, hbytes⟩
    rcases hans with rfl | hne
    · exact hinit t ht h0 (hbytes (room_zero _)) fun m hm => by omega
    · obtain ⟨hprompt, hroom⟩ := ho.resolve_left (ha ▸ hne)
      refine hinit t ht h0 (hbytes (ha ▸ hroom)) ?_
      rw [hpt, hp]
      exact hprompt.early n

theorem newSized_sat {a : Action} (hthis : s.this = {}) (hlog : Alive s.log S) (hr : Rest O S s.heap)
    (ha : s.answer = a.answer) (hp : s.patience = a.patience) (ho : a.Orderly P n) :
    Prog.Sat (newSized P n) s (fun _ t => Good P O S t) (fun t => Good P O S t ∧ t.this.count = 0) :=
  construct_sat hthis hlog hr ha hp ho fun _ ht h0 hb he => fillInitialize_sat ht h0 hb he

theorem newRange_sat {a : Action} (hthis : s.this = {}) (hlog : Alive s.log S) (hr : Rest O S s.heap)
    (ha : s.answer = a.answer) (hp : s.patience = a.patience) (ho : a.Orderly P n) :
    Prog.Sat (newRange P n) s (fun _ t => Good P O S t) (fun t => Good P O S t ∧ t.this.count = 0) := by
  refine construct_sat hthis hlog hr ha hp ho fun t ht h0 hb he => ?_
  refine (copyInitialize_sat ht h0 hb).mono (fun _ _ hu => hu) ?_
  rintro u ⟨hu, m, hm, hpm, hc⟩
  exact ⟨hu, hc.trans (he m hm hpm)⟩

theorem destroy_sat (h : Good P O S s) :
    Prog.Sat (destroy P) s (fun _ t => Alive t.log S ∧ Rest O S t.heap) (fun _ => False) := by
  refine Prog.Sat.get_bind (Prog.Sat.bind (destroyAll_sat h) ?_)
  rintro _ t ⟨hsame, -, hlog⟩
  refine capacity_bind fun cap _ => ?_
  have hrest : Rest O S (freed s.this.start t.heap) := by
    rw [hsame.heap]
    exact h.rest.freed h.owns
  exact deallocate_sat ⟨hlog, hrest⟩

theorem release_keeps (h : Good P O S s) : Keeps P O S (World.release P) s := by
  refine Prog.Sat.bind (clear_sat h) ?_
  rintro _ t ⟨ht, h0, -⟩
  exact shrinkToFit_keeps (a := ⟨.empty 0, t.answer, none⟩) ht rfl (.inr (.inr (.inr h0)))

end

end Objects
end Stl
end Ipcpp
