import Ipcpp.Stl.VectorStorage

/-!
# Vectors are lists

With an element size that divides 16, in a pool whose size is a multiple of 16, every block is a whole
number of elements (`PoolOk.dvd_size`), so that every action is safe that constructs no more elements than
`max_size()` and removes one only from a vector that has one (`safe_of_within`).

`jointStep` runs the vectors and, beside them, a list for each of them that is changed by the same actions,
except for those that throw.  `vectors_are_lists`: the elements of the vectors are these lists, after every
run.
-/

namespace Ipcpp
namespace Stl
open Runs World Chunks

/-- the payloads of a pool of whole 16 bytes are multiples of 16 -/
theorem PoolOk.dvd_size {p : Pool} {l : List Chunk} {live : List Block} (h : PoolOk p l live)
    (h16 : 16 ∣ p.size) {b : Block} (hb : b ∈ live) : 16 ∣ b.size := by
  obtain ⟨c, hc, -, rfl⟩ := h.mem hb
  obtain ⟨X, Y, rfl⟩ := List.append_of_mem hc
  have hz := chunked_iff_zipper.mp h.chunked
  have hstop : 16 ∣ c.stop := by
    have hroom := h.room
    have ht := hz.tiledRight
    cases Y with
    | nil =>
      rw [tiled_nil.mp ht]
      unfold headerSize nodeSize at *
      omega
    | cons e Y => exact ht.1 ▸ hz.alignedRight e List.mem_cons_self
  have hoff := hz.aligned
  show 16 ∣ c.size
  unfold Chunk.stop nodeSize at hstop
  omega

/-! ## the actions -/

/-- the counts are within `max_size()` -/
def Ctor.Counted (p : Pool) (T : ElemType) : Ctor → Prop
  | sized n => n ≤ maxSize p T.size
  | fill n _ => n ≤ maxSize p T.size
  | _ => True

def Method.NotEmpty (d : VecData) : Method → Prop
  | popBack => d.start < d.finish
  | _ => True

/-- element sizes that divide 16, counts within `max_size()`, `pop_back` on a vector that has elements -/
def World.Within (w : World) : Action → Prop
  | .construct T c => T.size ∣ 16 ∧ c.Counted w.pool T
  | .call k f => w.On k fun v => f.NotEmpty v.data
  | _ => True

def Action.slots : Action → List Nat
  | .move j => [j]
  | .call k _ => [k]
  | .swap k j => [k, j]
  | .moveAssign k j => [k, j]
  | .destroy k => [k]
  | _ => []

/-- the element sizes of the lists divide 16 -/
def SmallTypes (m : Lists) : Prop := ∀ x, some x ∈ m → x.1.size ∣ 16

theorem SmallTypes.get {m : Lists} (h : SmallTypes m) {k : Nat} {x : ElemType × List Value}
    (hx : m[k]?.join = some x) : x.1.size ∣ 16 := by
  rcases hm : m[k]? with _ | y
  · rw [hm] at hx
    cases hx
  · rw [hm] at hx
    have hy : y = some x := hx
    exact h x (List.mem_of_getElem? (hy ▸ hm))

theorem SmallTypes.set {m : Lists} (h : SmallTypes m) (k : Nat) {x : Option (ElemType × List Value)}
    (hx : ∀ y, x = some y → y.1.size ∣ 16) : SmallTypes (m.set k x) := by
  intro y hy
  rcases List.mem_or_eq_of_mem_set hy with hy | hy
  · exact h y hy
  · exact hx y hy.symm

theorem SmallTypes.append {m : Lists} (h : SmallTypes m) {x : Option (ElemType × List Value)}
    (hx : ∀ y, x = some y → y.1.size ∣ 16) : SmallTypes (m ++ [x]) := by
  intro y hy
  rcases List.mem_append.mp hy with hy | hy
  · exact h y hy
  · exact hx y (List.mem_singleton.mp hy).symm

theorem SmallTypes.map {m : Lists} (h : SmallTypes m) (k : Nat) (g : ElemType × List Value → List Value) :
    SmallTypes (m.set k (m[k]?.join.map fun x => (x.1, g x))) := by
  refine h.set k fun y hy => ?_
  obtain ⟨x, hx, rfl⟩ := Option.map_eq_some_iff.mp hy
  have hsmall : x.1.size ∣ 16 := h.get hx
  exact hsmall

theorem SmallTypes.listStep {m : Lists} (h : SmallTypes m) {w : World} {a : Action} (ha : w.Within a) :
    SmallTypes (Stl.listStep m a) := by
  cases a with
  | construct T c => exact h.append fun y hy => Option.some.inj hy ▸ ha.1
  | copy j => exact h.append fun y hy => h.get hy
  | move j => exact (h.map j fun _ => []).append fun y hy => h.get hy
  | call k f => exact h.map k fun x => f.elements x.1 x.2
  | swap k j => exact (h.set k fun y hy => h.get hy).set j fun y hy => h.get hy
  | moveAssign k j => exact (h.set k fun y hy => h.get hy).set j fun y hy => h.get hy
  | destroy k => exact h.set k fun y hy => by cases hy
  | allocate sz n => exact h
  | deallocate b => exact h

/-- the other lists stay as they are -/
theorem listStep_other (m : Lists) {a : Action} {k : Nat} (hk : k < m.length) (ha : k ∉ a.slots) :
    (listStep m a)[k]? = m[k]? := by
  cases a with
  | construct T c => exact List.getElem?_append_left hk
  | copy j => exact List.getElem?_append_left hk
  | move j =>
    have hne : j ≠ k := fun hj => ha (hj ▸ List.mem_cons_self)
    refine (List.getElem?_append_left ?_).trans (List.getElem?_set_ne hne)
    rw [List.length_set]
    exact hk
  | call j f =>
    have hne : j ≠ k := fun hj => ha (hj ▸ List.mem_cons_self)
    exact List.getElem?_set_ne hne
  | swap i j =>
    refine (List.getElem?_set_ne fun hj => ha ?_).trans (List.getElem?_set_ne fun hi => ha ?_)
    · simp [Action.slots, hj]
    · simp [Action.slots, hi]
  | moveAssign i j =>
    refine (List.getElem?_set_ne fun hj => ha ?_).trans (List.getElem?_set_ne fun hi => ha ?_)
    · simp [Action.slots, hj]
    · simp [Action.slots, hi]
  | destroy j =>
    have hne : j ≠ k := fun hj => ha (hj ▸ List.mem_cons_self)
    exact List.getElem?_set_ne hne
  | allocate sz n => rfl
  | deallocate b => rfl

/-! ## every action is safe -/

section
variable {size : Nat} {w : World} (h : Inv size w) (h16 : 16 ∣ size) (hp : size < 2^64)
  (ht : SmallTypes (view w.pool w.vecs))
include h h16 ht

theorem block_whole {k : Nat} {v : Vec} (hv : w.vec k = some v) {b : Block} (hb : b ∈ own v.data) :
    v.ty.size ∣ b.size := by
  obtain ⟨l, hl⟩ := h.ok
  have hlive : b ∈ owned w.vecs ++ w.others :=
    List.mem_append_left _ (own_subset_owned (List.mem_of_getElem? (getElem_of_vec hv)) hb)
  exact Nat.dvd_trans (ht.get (view_vec hv)) (hl.dvd_size (h.size ▸ h16) hlive)

include hp

theorem safe_of_within {a : Action} (ha : w.Within a) : w.Safe a := by
  have hcount : ∀ {T : ElemType} {n : Nat}, n ≤ maxSize w.pool T.size → n * T.size + 15 < 2^64 := by
    intro T n hn
    obtain ⟨l, hl⟩ := h.ok
    have hroom := hl.room
    have hsize := h.size
    have := maxSize_mul_le w.pool hn
    unfold headerSize nodeSize at *
    omega
  cases a with
  | construct T c =>
    cases c with
    | empty => trivial
    | sized n => exact hcount ha.2
    | fill n v => exact hcount ha.2
    | list vs => trivial
  | call k f =>
    intro v hv
    obtain ⟨n, hd⟩ := h.vec_stored hv
    have hb := fun b (hb : b ∈ own v.data) => block_whole h h16 ht hv hb
    cases f with
    | pushBack x => exact hd.fits hb
    | emplaceBack x => exact hd.fits hb
    | popBack => exact ha v hv
    | reserve n => exact hd.whole hb
    | shrinkToFit => exact hd.whole hb
    | resize n => exact fun _ => hd.whole hb
    | resizeFill n x => exact fun _ => hd.whole hb
    | clear => trivial
  | destroy k =>
    intro v hv
    obtain ⟨n, hd⟩ := h.vec_stored hv
    exact hd.whole fun b hb => block_whole h h16 ht hv hb
  | _ => trivial

end

/-! ## vectors and lists -/

/-- the vectors, and the lists beside them -/
def jointStep (s : World × Lists) (a : Action) : Option (World × Lists) :=
  (s.1.step a).map fun w => (w, if w.thrown = none then listStep s.2 a else s.2)

structure Joint (size : Nat) (s : World × Lists) : Prop where
  inv : Inv size s.1
  same : view s.1.pool s.1.vecs = s.2
  types : SmallTypes s.2

section
variable {size : Nat} (h16 : 16 ∣ size) (hp : size < 2^64)
include h16 hp

theorem Joint.step {s t : World × Lists} {a : Action} (h : Joint size s) (ha : s.1.Within a)
    (ht : jointStep s a = some t) : Joint size t := by
  obtain ⟨w, hw, rfl⟩ := Option.map_eq_some_iff.mp ht
  have hsafe := safe_of_within h.inv h16 hp (h.same ▸ h.types) ha
  have hstepped := stepped_of_step h.inv hp hw hsafe
  by_cases hthrown : w.thrown = none
  · refine ⟨hstepped.inv, ?_, ?_⟩
    · show view w.pool w.vecs = if w.thrown = none then listStep s.2 a else s.2
      rw [if_pos hthrown, hstepped.returned hthrown, h.same]
    · show SmallTypes (if w.thrown = none then listStep s.2 a else s.2)
      rw [if_pos hthrown]
      exact h.types.listStep ha
  · refine ⟨hstepped.inv, ?_, ?_⟩
    · show view w.pool w.vecs = if w.thrown = none then listStep s.2 a else s.2
      rw [if_neg hthrown, hstepped.failed hthrown, h.same]
    · show SmallTypes (if w.thrown = none then listStep s.2 a else s.2)
      rw [if_neg hthrown]
      exact h.types

/-- **Vectors that share a pool are independent lists.**  After every run their elements are the lists that
the same actions make; an action leaves the elements of all the vectors alone that it is not about; and
every action that is allowed is defined: it returns or throws. -/
theorem vectors_are_lists (hsize : headerSize + nodeSize ≤ size) {as : List Action} {s : World × Lists}
    (hin : Every jointStep (fun s a => s.1.Within a) (World.init size, []) as)
    (hr : run jointStep (World.init size, []) as = some s) :
    view s.1.pool s.1.vecs = s.2 ∧
    (∀ a w, s.1.Within a → s.1.step a = some w → ∀ k < s.1.vecs.length, k ∉ a.slots →
      (view w.pool w.vecs)[k]? = (view s.1.pool s.1.vecs)[k]?) ∧
    ∀ a, s.1.Allowed a → s.1.Within a → (s.1.step a).isSome := by
  have hinit : Joint size (World.init size, []) := ⟨init_inv hsize, rfl, fun x hx => by cases hx⟩
  have hjoint : Joint size s := run_inv_of_every (I := Joint size)
    (fun s a t hi hc ht => Joint.step h16 hp hi hc ht) as hinit hin hr
  have hsafe : ∀ a, s.1.Within a → s.1.Safe a :=
    fun a ha => safe_of_within hjoint.inv h16 hp (hjoint.same ▸ hjoint.types) ha
  refine ⟨hjoint.same, fun a w ha hw k hk hslots => ?_, fun a hall ha => ?_⟩
  · have hstepped := stepped_of_step hjoint.inv hp hw (hsafe a ha)
    by_cases hthrown : w.thrown = none
    · rw [hstepped.returned hthrown]
      exact listStep_other _ (by simpa [view] using hk) hslots
    · rw [hstepped.failed hthrown]
  · obtain ⟨w, hw, -⟩ := step_spec hjoint.inv hp hall (hsafe a ha)
    rw [hw]
    rfl

end

instance (p : Pool) (T : ElemType) : (c : Ctor) → Decidable (c.Counted p T)
  | .sized n => inferInstanceAs (Decidable (n ≤ maxSize p T.size))
  | .fill n _ => inferInstanceAs (Decidable (n ≤ maxSize p T.size))
  | .empty => isTrue trivial
  | .list _ => isTrue trivial

instance (d : VecData) : (f : Method) → Decidable (f.NotEmpty d)
  | .popBack => inferInstanceAs (Decidable (d.start < d.finish))
  | .pushBack _ => isTrue trivial
  | .emplaceBack _ => isTrue trivial
  | .reserve _ => isTrue trivial
  | .shrinkToFit => isTrue trivial
  | .resize _ => isTrue trivial
  | .resizeFill _ _ => isTrue trivial
  | .clear => isTrue trivial

instance World.Within.decidable (w : World) : (a : Action) → Decidable (w.Within a)
  | .construct T c => inferInstanceAs (Decidable (T.size ∣ 16 ∧ c.Counted w.pool T))
  | .call k f => inferInstanceAs (Decidable (w.On k fun v => f.NotEmpty v.data))
  | .copy _ => isTrue trivial
  | .move _ => isTrue trivial
  | .swap _ _ => isTrue trivial
  | .moveAssign _ _ => isTrue trivial
  | .destroy _ => isTrue trivial
  | .allocate _ _ => isTrue trivial
  | .deallocate _ => isTrue trivial

def word : ElemType := ⟨2, by decide, [some 0, some 0], by decide⟩

/-- the word `n` -/
def wordOf (n : UInt8) : Value := [some n, some 0]

/-- two vectors grow in turn, one of them is copied and the copy changed; a third one asks for more than there
is, and throws -/
def wordActions : List Action :=
  [.construct word (.list [wordOf 1, wordOf 2]), .construct word .empty, .call 1 (.pushBack (wordOf 3)),
    .call 0 (.resizeFill 12 (wordOf 4)), .call 1 (.emplaceBack (wordOf 5)), .call 0 (.resize 1), .copy 0,
    .call 2 (.pushBack (wordOf 6)), .swap 0 1, .construct word (.sized 200), .call 0 .popBack,
    .call 1 .shrinkToFit, .move 2, .destroy 2]

theorem vectors_are_lists_words :
    ∃ s, run jointStep (World.init 512, []) wordActions = some s ∧ view s.1.pool s.1.vecs = s.2 ∧
      s.2.map (Option.map Prod.snd)
        = [some [wordOf 3], some [wordOf 1], none, some [wordOf 1, wordOf 6]] := by
  have hsome : (run jointStep (World.init 512, []) wordActions).isSome = true := by decide +kernel
  obtain ⟨s, hs⟩ := Option.isSome_iff_exists.mp hsome
  have hlists : (run jointStep (World.init 512, []) wordActions).map (fun s => s.2.map (Option.map Prod.snd))
      = some [some [wordOf 3], some [wordOf 1], none, some [wordOf 1, wordOf 6]] := by decide +kernel
  rw [hs] at hlists
  have hrefined := vectors_are_lists (by decide) (by decide) (by decide) (by decide +kernel) hs
  exact ⟨s, hs, hrefined.1, Option.some.inj hlists⟩

end Stl
end Ipcpp
