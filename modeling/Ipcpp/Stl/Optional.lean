import Ipcpp.Lib.Lifetimes
import Ipcpp.Lib.Runs

/-!
# The optional (`ipcpp::optional`)

A flag and storage for one element.  What `reset` does is decided by whether the elements are trivially
destructible: if they are it does nothing, and an element stays although it was reset.  The copy and the move
constructor take over the flag before there is an element and then go to `emplace`, which resets first: an
element is destroyed where none is, or, if the source is empty, is made of raw storage.  From an optional that is
not const, direct initialisation selects `optional(T_Args&&...)`, which constructs an element from the optional
itself: an `int` from its `operator bool`.  `emplace()` without arguments sets the flag only, where the elements are
trivially default constructible.

`run_agrees_iff`: a run agrees with the options it stands for exactly as long as it takes none of these paths.

The events of the elements are logged at the number of their optional.  An element with a trivial destructor
ends without a call when its storage is used again or given back; this is logged as its destruction.
-/

namespace Ipcpp
open Runs Lifetimes

structure ElementTraits where
  triviallyDestructible : Bool
  triviallyDefaultConstructible : Bool

/-- `ipcpp::optional`; `storage` is the element in it, if one is alive -/
structure Optional (T : Type) where
  hasValue : Bool := false
  storage : Option T := none

namespace Optional

section
variable {T : Type} (tr : ElementTraits) (k : Nat)

abbrev Logged (T : Type) := Optional T × List (Event Nat)

/-- the element of a trivially destructible type ends where its storage is taken -/
def endTrivially (o : Logged T) : List (Event Nat) :=
  if tr.triviallyDestructible && o.1.storage.isSome then .destroy k :: o.2 else o.2

/-- `std::construct_at(_m_ptr(), …)` -/
def constructAt (v : T) (o : Logged T) : Logged T :=
  ({ o.1 with storage := some v }, .construct k :: endTrivially tr k o)

/-- `std::destroy_at(_m_ptr())` -/
def destroyAt (o : Logged T) : Logged T := ({ o.1 with storage := none }, .destroy k :: o.2)

/-- `_has_value = b` -/
def setHasValue (b : Bool) (o : Logged T) : Logged T := ({ o.1 with hasValue := b }, o.2)

/-- `reset` -/
def reset (o : Logged T) : Logged T :=
  if tr.triviallyDestructible then o
  else if o.1.hasValue then setHasValue false (destroyAt k o) else o

/-- `emplace(args…)`; `v` is what the arguments construct -/
def emplace (v : T) (o : Logged T) : Logged T := setHasValue true (constructAt tr k v (reset tr k o))

/-- `emplace()`; `v` is what the default constructor makes -/
def emplaceDefault (v : T) (o : Logged T) : Logged T :=
  if tr.triviallyDefaultConstructible then setHasValue true (reset tr k o) else emplace tr k v o

/-- `optional(args…)` -/
def construct (v : T) (log : List (Event Nat)) : Logged T := constructAt tr k v ({ hasValue := true }, log)

/-- `optional(const optional&)`, and `optional(optional&&)`: `v` is what the reference to `other.value()` gives -/
def constructFrom (other : Optional T) (v : T) (log : List (Event Nat)) : Logged T :=
  emplace tr k v ({ hasValue := other.hasValue }, log)

/-- `~optional`, at the end of which the storage is given back -/
def destruct (o : Logged T) : List (Event Nat) := endTrivially tr k (reset tr k o)

end

/-! ## optionals next to options -/

/-- the optionals there are, the log of their elements, and whether raw storage was read as an element -/
structure World (T : Type) where
  optionals : Nat → Option (Optional T)
  log : List (Event Nat)
  rawRead : Bool

/-- the options there should be, and how many elements there were in each of them -/
structure Options (T : Type) where
  holds : Nat → Option (Option T)
  made : Nat → Nat

inductive Action (T : Type) where
  /-- `optional()`, `optional(std::nullopt)` -/
  | default (k : Nat)
  | value (k : Nat) (v : T)
  /-- optional `k` is made of optional `j`; `raw` is what raw storage would be read as -/
  | copy (j k : Nat) (raw : T)
  | move (j k : Nat) (raw : T)
  /-- optional `k` is direct-initialised from optional `j`, an lvalue that is not const -/
  | forward (j k : Nat)
  | emplace (k : Nat) (v : T)
  | emplaceDefault (k : Nat)
  | reset (k : Nat)
  | destroy (k : Nat)

/-- `init` is the value of an element that is made without arguments, `moved v` what a move leaves of `v`, and
`fromOptional` what an element is that is constructed from an optional, if that compiles -/
structure Elements (T : Type) extends ElementTraits where
  init : T
  moved : T → T
  fromOptional : Option (Optional T → T)

section
variable {T : Type} (E : Elements T)

namespace World
variable (w : World T)

/-- optional `k` is made -/
def make (k : Nat) (o : Logged T) : Option (World T) :=
  match w.optionals k with
  | none => some { w with optionals := Function.update w.optionals k (some o.1), log := o.2 }
  | some _ => none

/-- a function of optional `k` -/
def call (k : Nat) (f : Logged T → Logged T) : Option (World T) :=
  (w.optionals k).map fun o =>
    { w with optionals := Function.update w.optionals k (some (f (o, w.log)).1), log := (f (o, w.log)).2 }

/-- optional `k` is made of what `other.value()` refers to -/
def makeFrom (k : Nat) (other : Optional T) (raw : T) : Option (World T) :=
  make { w with rawRead := w.rawRead || other.storage.isNone } k
    (constructFrom E.toElementTraits k other (other.storage.getD raw) w.log)

def step : Action T → Option (World T)
  | .default k => w.make k ({}, w.log)
  | .value k v => w.make k (Optional.construct E.toElementTraits k v w.log)
  | .copy j k raw => (w.optionals j).bind fun other => w.makeFrom E k other raw
  | .move j k raw => (w.optionals j).bind fun other =>
      makeFrom E { w with
        optionals := Function.update w.optionals j (some { other with storage := other.storage.map E.moved }) }
        k other raw
  | .forward j k => (w.optionals j).bind fun other => E.fromOptional.bind fun f =>
      w.make k (Optional.construct E.toElementTraits k (f other) w.log)
  | .emplace k v => w.call k (Optional.emplace E.toElementTraits k v)
  | .emplaceDefault k => w.call k (Optional.emplaceDefault E.toElementTraits k E.init)
  | .reset k => w.call k (Optional.reset E.toElementTraits k)
  | .destroy k => (w.optionals k).map fun o =>
      { w with optionals := Function.update w.optionals k none, log := destruct E.toElementTraits k (o, w.log) }

end World

namespace Options
variable (m : Options T)

/-- option `k` is `x` now, with a new element or none -/
def put (k : Nat) (x : Option T) : Options T where
  holds := Function.update m.holds k (some x)
  made := Function.update m.made k (m.made k + if x.isSome then 1 else 0)

/-- option `k` comes to be -/
def make (k : Nat) (x : Option T) : Option (Options T) :=
  match m.holds k with
  | none => some (m.put k x)
  | some _ => none

def step : Action T → Option (Options T)
  | .default k => m.make k none
  | .value k v => m.make k (some v)
  | .copy j k _ => (m.holds j).bind fun x => m.make k x
  | .move j k _ => (m.holds j).bind fun x =>
      make { m with holds := Function.update m.holds j (some (x.map E.moved)) } k x
  | .forward j k => (m.holds j).bind fun x => m.make k x
  | .emplace k v => (m.holds k).map fun _ => m.put k (some v)
  | .emplaceDefault k => (m.holds k).map fun _ => m.put k (some E.init)
  | .reset k => (m.holds k).map fun _ => m.put k none
  | .destroy k => (m.holds k).map fun _ => { m with holds := Function.update m.holds k none }

end Options

def engaged (holds : Nat → Option (Option T)) : Set Nat := {k | ∃ v, holds k = some (some v)}

/-- **The optionals agree with the options.** -/
structure Agrees (p : World T × Options T) : Prop where
  exists_iff : ∀ k, (p.1.optionals k).isSome = (p.2.holds k).isSome
  hasValue_eq : ∀ k o x, p.1.optionals k = some o → p.2.holds k = some x → o.hasValue = x.isSome
  value_eq : ∀ k o v, p.1.optionals k = some o → p.2.holds k = some (some v) → o.storage = some v
  /-- an element is alive where an option holds one, each constructed where none was and destroyed where one was -/
  alive : Alive p.1.log (engaged p.2.holds)
  /-- and one was constructed for each that the option held -/
  made : ∀ k, constructions p.1.log k = p.2.made k
  never_raw : p.1.rawRead = false

/-- the source of a copy or a move is engaged and its elements have a trivial destructor; an optional that is not
const is engaged and has the value that an element constructed from it has; what is reset is empty or its elements
have none, and what is emplaced without arguments is default constructed -/
def TakesNone (p : World T × Options T) : Action T → Prop
  | .copy j _ _ => E.triviallyDestructible = true ∧ ∀ o, p.1.optionals j = some o → o.hasValue = true
  | .move j _ _ => E.triviallyDestructible = true ∧ ∀ o, p.1.optionals j = some o → o.hasValue = true
  | .forward j _ => ∀ o f, p.1.optionals j = some o → E.fromOptional = some f →
      o.hasValue = true ∧ o.storage = some (f o)
  | .reset k => E.triviallyDestructible = true → ∀ o, p.1.optionals k = some o → o.hasValue = false
  | .emplaceDefault _ => E.triviallyDefaultConstructible = false
  | _ => True

end

/-! ## the functions, where flag and storage say the same -/

section
variable {T : Type} {tr : ElementTraits} {k : Nat} {log : List (Event Nat)}

def ofOption (x : Option T) : Optional T := ⟨x.isSome, x⟩

/-- the log after the element of `x`, if there is one, has come to its end -/
def ended (k : Nat) (x : Option T) (log : List (Event Nat)) : List (Event Nat) :=
  if x.isSome then .destroy k :: log else log

theorem destruct_eq (x : Option T) : destruct tr k (ofOption x, log) = ended k x log := by
  obtain ⟨triv, _⟩ := tr
  cases triv <;> cases x <;> rfl

theorem emplace_eq (x : Option T) (v : T) :
    emplace tr k v (ofOption x, log) = (ofOption (some v), .construct k :: ended k x log) := by
  obtain ⟨triv, _⟩ := tr
  cases triv <;> cases x <;> rfl

theorem construct_eq (v : T) : construct tr k v log = (ofOption (some v), .construct k :: log) := by
  obtain ⟨triv, _⟩ := tr
  cases triv <;> rfl

theorem reset_eq (x : Option T) (hx : tr.triviallyDestructible = true → x = none) :
    reset tr k (ofOption x, log) = (ofOption none, ended k x log) := by
  obtain ⟨triv, _⟩ := tr
  cases triv with
  | false => cases x <;> rfl
  | true =>
    obtain rfl := hx rfl
    rfl

/-- a flag that was taken over does no harm if `reset` does nothing -/
theorem constructFrom_eq (v : T) (ht : tr.triviallyDestructible = true) :
    constructFrom tr k (ofOption (some v)) v log = (ofOption (some v), .construct k :: log) := by
  obtain ⟨triv, _⟩ := tr
  cases triv with
  | false => cases ht
  | true => rfl

end

/-! ## the log -/

section
variable {T : Type} {m : Options T} {log : List (Event Nat)} {k : Nat}

theorem engaged_update {holds : Nat → Option (Option T)} {y : Option (Option T)} (hy : ∀ v, y ≠ some (some v)) :
    engaged (Function.update holds k y) = engaged holds \ {k} := by
  ext j
  show (∃ v, Function.update holds k y j = some (some v)) ↔ (∃ v, holds j = some (some v)) ∧ j ≠ k
  by_cases hj : j = k
  · subst hj
    simp [hy]
  · simp [hj]

theorem engaged_put_none (m : Options T) (k : Nat) : engaged (m.put k none).holds = engaged m.holds \ {k} :=
  engaged_update fun v hv => by cases hv

theorem engaged_put_some (m : Options T) (k : Nat) (v : T) :
    engaged (m.put k (some v)).holds = engaged m.holds ∪ {k} := by
  ext j
  show (∃ u, Function.update m.holds k (some (some v)) j = some (some u)) ↔ (∃ u, m.holds j = some (some u)) ∨ j = k
  by_cases hj : j = k
  · subst hj
    simp
  · simp [hj]

/-- the log tells of the elements that the options hold, and held -/
structure Tells (log : List (Event Nat)) (m : Options T) : Prop where
  alive : Alive log (engaged m.holds)
  made : ∀ k, constructions log k = m.made k

theorem Tells.construct (h : Tells log m) (hk : k ∉ engaged m.holds) (v : T) :
    Tells (.construct k :: log) (m.put k (some v)) := by
  refine ⟨?_, fun j => ?_⟩
  · rw [engaged_put_some]
    exact h.alive.construct hk
  · rw [constructions_construct, h.made j]
    show _ = Function.update m.made k (m.made k + 1) j
    by_cases hj : j = k
    · subst hj
      rw [if_pos rfl, Function.update_self]
    · rw [if_neg (Ne.symm hj), Function.update_of_ne hj]
      rfl

theorem Tells.put_none (h : Tells log m) (hk : k ∉ engaged m.holds) : Tells log (m.put k none) := by
  refine ⟨?_, fun j => ?_⟩
  · rw [engaged_put_none, Set.sdiff_singleton_eq_self hk]
    exact h.alive
  · rw [show (m.put k none).made = m.made from Function.update_eq_self k m.made]
    exact h.made j

theorem Tells.ended (h : Tells log m) {x : Option T} (hk : m.holds k = some x) :
    Tells (Optional.ended k x log) (m.put k none) := by
  cases x with
  | none =>
    refine h.put_none fun ⟨v, hv⟩ => ?_
    rw [hk] at hv
    cases hv
  | some v =>
    refine ⟨?_, fun j => ?_⟩
    · rw [engaged_put_none]
      exact h.alive.destroy ⟨v, hk⟩
    · rw [show (m.put k none).made = m.made from Function.update_eq_self k m.made]
      exact constructions_destroy.trans (h.made j)

theorem not_engaged_put_none (m : Options T) (k : Nat) : k ∉ engaged (m.put k none).holds := by
  rw [engaged_put_none]
  exact fun h => h.2 rfl

theorem put_put (m : Options T) (k : Nat) (v : T) : (m.put k none).put k (some v) = m.put k (some v) := by
  unfold Options.put
  simp

end

/-! ## one step -/

section
variable {T : Type} (E : Elements T)

/-- the optionals are those that the options stand for -/
structure Same (p : World T × Options T) : Prop where
  same : ∀ k, p.1.optionals k = (p.2.holds k).map ofOption
  tells : Tells p.1.log p.2
  never_raw : p.1.rawRead = false

variable {E} {w : World T} {m : Options T} {k : Nat} {p q : World T × Options T}

theorem Same.agrees (h : Same p) : Agrees p where
  exists_iff k := by
    rw [h.same k]
    exact Option.isSome_map
  hasValue_eq k o x ho hx := by
    rw [h.same k, hx] at ho
    cases ho
    rfl
  value_eq k o v ho hv := by
    rw [h.same k, hv] at ho
    cases ho
    rfl
  alive := h.tells.alive
  made := h.tells.made
  never_raw := h.never_raw

/-- optional `k` and option `k` change together -/
theorem Same.update (h : Same (w, m)) (y : Option (Option T)) {log : List (Event Nat)} {made : Nat → Nat}
    (ht : Tells log ⟨Function.update m.holds k y, made⟩) :
    Same ({ w with optionals := Function.update w.optionals k (y.map ofOption), log := log },
      ⟨Function.update m.holds k y, made⟩) := by
  refine ⟨fun j => ?_, ht, h.never_raw⟩
  show Function.update w.optionals k (y.map ofOption) j = (Function.update m.holds k y j).map ofOption
  by_cases hj : j = k
  · subst hj
    rw [Function.update_self, Function.update_self]
  · rw [Function.update_of_ne hj, Function.update_of_ne hj]
    exact h.same j

theorem Same.not_engaged (h : Same (w, m)) (hk : w.optionals k = none) : k ∉ engaged m.holds := fun ⟨v, hv⟩ => by
  have hsame : w.optionals k = (m.holds k).map ofOption := h.same k
  rw [hk, hv] at hsame
  cases hsame

theorem Same.option (h : Same (w, m)) {o : Optional T} (ho : w.optionals k = some o) :
    ∃ x, m.holds k = some x ∧ o = ofOption x := by
  have hsame : w.optionals k = (m.holds k).map ofOption := h.same k
  rw [ho] at hsame
  obtain ⟨x, hx, he⟩ := Option.map_eq_some_iff.mp hsame.symm
  exact ⟨x, hx, he.symm⟩

theorem Same.replace (h : Same (w, m)) {x : Option T} (hx : m.holds k = some x) (v : T) :
    Same ({ w with
        optionals := Function.update w.optionals k (some (ofOption (some v)))
        log := .construct k :: ended k x w.log }, m.put k (some v)) := by
  refine h.update (some (some v)) ?_
  show Tells _ (m.put k (some v))
  rw [← put_put]
  exact (h.tells.ended hx).construct (not_engaged_put_none m k) v

theorem World.make_eq_some {w' : World T} {o : Logged T} :
    w.make k o = some w' ↔ w.optionals k = none
      ∧ w' = { w with optionals := Function.update w.optionals k (some o.1), log := o.2 } := by
  unfold World.make
  cases w.optionals k <;> simp [eq_comm]

theorem Options.make_eq_some {m' : Options T} {x : Option T} :
    m.make k x = some m' ↔ m.holds k = none ∧ m' = m.put k x := by
  unfold Options.make
  cases m.holds k <;> simp [eq_comm]

/-- **A new element** in a new optional -/
theorem Same.make (h : Same (w, m)) {w' : World T} {m' : Options T} {v : T}
    (hw : w.make k (ofOption (some v), .construct k :: w.log) = some w') (hm : m.make k (some v) = some m') :
    Same (w', m') := by
  obtain ⟨hk, rfl⟩ := World.make_eq_some.mp hw
  obtain ⟨-, rfl⟩ := Options.make_eq_some.mp hm
  exact h.update (some (some v)) (h.tells.construct (h.not_engaged hk) v)

theorem Same.moved (h : Same (w, m)) {j : Nat} {x : Option T} (hx : m.holds j = some x) (f : T → T) :
    Same ({ w with optionals := Function.update w.optionals j (some (ofOption (x.map f))) },
      { m with holds := Function.update m.holds j (some (x.map f)) }) := by
  have hengaged : engaged (Function.update m.holds j (some (x.map f))) = engaged m.holds := by
    ext i
    show (∃ v, Function.update m.holds j (some (x.map f)) i = some (some v)) ↔ ∃ v, m.holds i = some (some v)
    by_cases hi : i = j
    · subst hi
      rw [Function.update_self, hx]
      cases x <;> simp
    · rw [Function.update_of_ne hi]
  refine h.update (some (x.map f)) ⟨?_, h.tells.made⟩
  rw [hengaged]
  exact h.tells.alive

theorem Same.source (h : Same (w, m)) {j : Nat} {o : Optional T} (ho : w.optionals j = some o)
    (hvalue : o.hasValue = true) : ∃ v, m.holds j = some (some v) ∧ o = ofOption (some v) := by
  obtain ⟨x, hx, rfl⟩ := h.option ho
  obtain ⟨v, rfl⟩ := Option.isSome_iff_exists.mp hvalue
  exact ⟨v, hx, rfl⟩

/-- a new optional of an engaged one, where elements have a trivial destructor -/
theorem makeFrom_eq (ht : E.triviallyDestructible = true) (w : World T) (k : Nat) (v raw : T) :
    w.makeFrom E k (ofOption (some v)) raw = w.make k (ofOption (some v), .construct k :: w.log) := by
  unfold World.makeFrom
  rw [show (ofOption (some v)).storage.getD raw = v from rfl, constructFrom_eq v ht,
    show (ofOption (some v)).storage.isNone = false from rfl, Bool.or_false]

/-- **A step that takes none of the paths** keeps optionals and options the same. -/
theorem Same.step (h : Same p) (a : Action T) (hC : TakesNone E p a)
    (ht : both (World.step E) (Options.step E) p a = some q) : Same q := by
  obtain ⟨w, m⟩ := p
  obtain ⟨w', m'⟩ := q
  obtain ⟨hw, hm⟩ := both_eq_some.mp ht
  cases a with
  | default k =>
    obtain ⟨hk, rfl⟩ := World.make_eq_some.mp hw
    obtain ⟨-, rfl⟩ := Options.make_eq_some.mp hm
    exact h.update (some none) (h.tells.put_none (h.not_engaged hk))
  | value k v =>
    change w.make k (construct E.toElementTraits k v w.log) = some w' at hw
    rw [construct_eq] at hw
    exact h.make hw hm
  | copy j k raw =>
    obtain ⟨o, ho, hw⟩ := Option.bind_eq_some_iff.mp hw
    obtain ⟨x, hx, hm⟩ := Option.bind_eq_some_iff.mp hm
    obtain ⟨v, hv, rfl⟩ := h.source ho (hC.2 o ho)
    obtain rfl : some v = x := Option.some.inj (hv.symm.trans hx)
    rw [makeFrom_eq hC.1] at hw
    exact h.make hw hm
  | move j k raw =>
    obtain ⟨o, ho, hw⟩ := Option.bind_eq_some_iff.mp hw
    obtain ⟨x, hx, hm⟩ := Option.bind_eq_some_iff.mp hm
    obtain ⟨v, hv, rfl⟩ := h.source ho (hC.2 o ho)
    obtain rfl : some v = x := Option.some.inj (hv.symm.trans hx)
    change (World.makeFrom E _ k (ofOption (some v)) raw) = some w' at hw
    rw [makeFrom_eq hC.1] at hw
    exact (h.moved hv E.moved).make hw hm
  | forward j k =>
    obtain ⟨o, ho, hw⟩ := Option.bind_eq_some_iff.mp hw
    obtain ⟨f, hf, hw⟩ := Option.bind_eq_some_iff.mp hw
    obtain ⟨x, hx, hm⟩ := Option.bind_eq_some_iff.mp hm
    obtain ⟨hvalue, hstorage⟩ := hC o f ho hf
    obtain ⟨v, hv, rfl⟩ := h.source ho hvalue
    obtain rfl : some v = x := Option.some.inj (hv.symm.trans hx)
    rw [construct_eq] at hw
    rw [show v = f (ofOption (some v)) from Option.some.inj hstorage] at hm
    exact h.make hw hm
  | emplace k v =>
    obtain ⟨o, ho, rfl⟩ := Option.map_eq_some_iff.mp hw
    obtain ⟨_, -, rfl⟩ := Option.map_eq_some_iff.mp hm
    obtain ⟨x, hx, rfl⟩ := h.option ho
    rw [emplace_eq]
    exact h.replace hx v
  | emplaceDefault k =>
    obtain ⟨o, ho, rfl⟩ := Option.map_eq_some_iff.mp hw
    obtain ⟨_, -, rfl⟩ := Option.map_eq_some_iff.mp hm
    obtain ⟨x, hx, rfl⟩ := h.option ho
    have hC : E.triviallyDefaultConstructible = false := hC
    rw [emplaceDefault, hC, if_neg Bool.false_ne_true, emplace_eq]
    exact h.replace hx E.init
  | reset k =>
    obtain ⟨o, ho, rfl⟩ := Option.map_eq_some_iff.mp hw
    obtain ⟨_, -, rfl⟩ := Option.map_eq_some_iff.mp hm
    obtain ⟨x, hx, rfl⟩ := h.option ho
    rw [reset_eq x fun ht => Option.isNone_iff_eq_none.mp (Option.isSome_eq_false_iff.mp (hC ht _ ho))]
    exact h.update (some none) (h.tells.ended hx)
  | destroy k =>
    obtain ⟨o, ho, rfl⟩ := Option.map_eq_some_iff.mp hw
    obtain ⟨_, -, rfl⟩ := Option.map_eq_some_iff.mp hm
    obtain ⟨x, hx, rfl⟩ := h.option ho
    rw [destruct_eq]
    refine h.update none ⟨?_, fun j => ?_⟩
    · have hengaged : engaged (Function.update m.holds k none) = engaged (m.put k none).holds := by
        rw [engaged_put_none]
        exact engaged_update fun v hv => by cases hv
      rw [hengaged]
      exact (h.tells.ended hx).alive
    · rw [(h.tells.ended hx).made j]
      exact congrFun (Function.update_eq_self k m.made) j

/-! ## the paths -/

/-- a copy or a move that leaves optionals and options in agreement -/
theorem Same.engaged_of_agrees (h : Same (w, m)) {x : Option T} {raw : T} {w' : World T} {m' : Options T}
    (hw : w.makeFrom E k (ofOption x) raw = some w') (hm : m.make k x = some m') (hA : Agrees (w', m')) :
    E.triviallyDestructible = true ∧ x.isSome = true := by
  obtain ⟨hk, rfl⟩ := World.make_eq_some.mp hw
  obtain ⟨-, rfl⟩ := Options.make_eq_some.mp hm
  have hx : true = x.isSome := hA.hasValue_eq k _ x (Function.update_self _ _ _) (Function.update_self _ _ _)
  refine ⟨?_, hx.symm⟩
  cases ht : E.triviallyDestructible with
  | true => rfl
  | false =>
    -- the flag says that there is an element, and `reset` destroys it
    obtain ⟨v, rfl⟩ := Option.isSome_iff_exists.mp hx.symm
    have hlog : (constructFrom E.toElementTraits k (ofOption (some v)) v w.log).2
        = .construct k :: .destroy k :: w.log := by
      simp [constructFrom, emplace, reset, constructAt, destroyAt, setHasValue, endTrivially, ofOption, ht]
    have hsound : Sound (.construct k :: .destroy k :: w.log) := hlog ▸ hA.alive.sound
    exact absurd hsound.2.1 (h.tells.alive.outside k (h.not_engaged hk)).le.not_gt

theorem constructions_reset (tr : ElementTraits) (o : Logged T) (j : Nat) :
    constructions (reset tr k o).2 j = constructions o.2 j := by
  unfold reset
  split
  · rfl
  · split
    · exact constructions_destroy
    · rfl

/-- **And a step that takes one** ends the agreement. -/
theorem Same.takesNone (h : Same p) (a : Action T) (hA : Agrees q)
    (ht : both (World.step E) (Options.step E) p a = some q) : TakesNone E p a := by
  obtain ⟨w, m⟩ := p
  obtain ⟨w', m'⟩ := q
  obtain ⟨hw, hm⟩ := both_eq_some.mp ht
  cases a with
  | copy j k raw =>
    obtain ⟨o, ho, hw⟩ := Option.bind_eq_some_iff.mp hw
    obtain ⟨y, hy, hm⟩ := Option.bind_eq_some_iff.mp hm
    obtain ⟨x, hx, rfl⟩ := h.option ho
    obtain rfl : x = y := Option.some.inj (hx.symm.trans hy)
    obtain ⟨htriv, hvalue⟩ := h.engaged_of_agrees hw hm hA
    refine ⟨htriv, fun o' ho' => ?_⟩
    obtain rfl : ofOption x = o' := Option.some.inj (ho.symm.trans ho')
    exact hvalue
  | move j k raw =>
    obtain ⟨o, ho, hw⟩ := Option.bind_eq_some_iff.mp hw
    obtain ⟨y, hy, hm⟩ := Option.bind_eq_some_iff.mp hm
    obtain ⟨x, hx, rfl⟩ := h.option ho
    obtain rfl : x = y := Option.some.inj (hx.symm.trans hy)
    have hflag : (⟨(ofOption x).hasValue, (ofOption x).storage.map E.moved⟩ : Optional T)
        = ofOption (x.map E.moved) := by
      cases x <;> rfl
    rw [hflag] at hw
    obtain ⟨htriv, hvalue⟩ := (h.moved hx E.moved).engaged_of_agrees hw hm hA
    refine ⟨htriv, fun o' ho' => ?_⟩
    obtain rfl : ofOption x = o' := Option.some.inj (ho.symm.trans ho')
    exact hvalue
  | forward j k =>
    intro o f ho hf
    obtain ⟨o', ho', hw⟩ := Option.bind_eq_some_iff.mp hw
    obtain ⟨f', hf', hw⟩ := Option.bind_eq_some_iff.mp hw
    obtain ⟨x, hx, hm⟩ := Option.bind_eq_some_iff.mp hm
    obtain rfl : o' = o := Option.some.inj (ho'.symm.trans ho)
    obtain rfl : f' = f := Option.some.inj (hf'.symm.trans hf)
    obtain ⟨x', hx', rfl⟩ := h.option ho
    obtain rfl : x' = x := Option.some.inj (hx'.symm.trans hx)
    rw [construct_eq] at hw
    obtain ⟨-, rfl⟩ := World.make_eq_some.mp hw
    obtain ⟨-, rfl⟩ := Options.make_eq_some.mp hm
    -- the new one has a value, so the option has, and it is the same
    have hvalue := hA.hasValue_eq k _ x' (Function.update_self _ _ _) (Function.update_self _ _ _)
    obtain ⟨v, rfl⟩ := Option.isSome_iff_exists.mp hvalue.symm
    exact ⟨rfl, (hA.value_eq k _ v (Function.update_self _ _ _) (Function.update_self _ _ _)).symm⟩
  | emplaceDefault k =>
    obtain ⟨o, ho, rfl⟩ := Option.map_eq_some_iff.mp hw
    obtain ⟨_, -, rfl⟩ := Option.map_eq_some_iff.mp hm
    refine Bool.eq_false_iff.mpr fun hdefault => ?_
    have hmade : constructions (emplaceDefault E.toElementTraits k E.init (o, w.log)).2 k
        = Function.update m.made k (m.made k + 1) k := hA.made k
    rw [emplaceDefault, if_pos hdefault, Function.update_self] at hmade
    have hsame : constructions (reset E.toElementTraits k (o, w.log)).2 k = m.made k :=
      (constructions_reset _ _ _).trans (h.tells.made k)
    exact absurd (hsame.symm.trans hmade) (Nat.lt_succ_self _).ne
  | reset k =>
    intro htriv o ho
    obtain ⟨o', ho', rfl⟩ := Option.map_eq_some_iff.mp hw
    obtain ⟨_, -, rfl⟩ := Option.map_eq_some_iff.mp hm
    obtain rfl : o' = o := Option.some.inj (ho'.symm.trans ho)
    have hkept : reset E.toElementTraits k (o', w.log) = (o', w.log) := if_pos htriv
    have hvalue := hA.hasValue_eq k _ none (Function.update_self _ _ _) (Function.update_self _ _ _)
    rw [hkept] at hvalue
    exact hvalue
  | _ => exact trivial

def start : World T × Options T := (⟨fun _ => none, [], false⟩, ⟨fun _ => none, fun _ => 0⟩)

theorem start_same : Same (start : World T × Options T) := by
  refine ⟨fun _ => rfl, ⟨?_, fun _ => rfl⟩, rfl⟩
  have hnone : engaged (fun _ => none : Nat → Option (Option T)) = ∅ := by
    refine Set.eq_empty_of_forall_notMem fun k hk => ?_
    obtain ⟨v, hv⟩ := hk
    cases hv
  show Alive [] (engaged fun _ => none)
  rw [hnone]
  exact Alive.nil

/-- **A run agrees with the options exactly as long as it takes none of the paths.** -/
theorem run_agrees_iff (E : Elements T) (as : List (Action T)) :
    Always (both (World.step E) (Options.step E)) Agrees start as
      ↔ Every (both (World.step E) (Options.step E)) (TakesNone E) start as :=
  always_iff_every_of (fun _ h => h.agrees) (fun _ a _ h hC ht => h.step a hC ht)
    (fun _ a _ h hA ht => h.takesNone a hA ht) as start_same

/-- integers, to which an optional converts as a `bool` -/
def integers : Elements Int := ⟨⟨true, true⟩, 0, id, some fun o => if o.hasValue then 1 else 0⟩

/-- an optional that holds 7, and one that is made of it: direct initialisation from a non-const lvalue gives 1 -/
example : (run (World.step integers) ⟨fun _ => none, [], false⟩ [.value 0 7, .forward 0 1]).map
    (fun w => (w.optionals 1).map Optional.storage) = some (some (some 1)) := by decide

/-- a copy of an empty optional has a value -/
theorem copy_of_empty :
    ¬ Always (both (World.step integers) (Options.step integers)) Agrees start [.default 0, .copy 0 1 7] := by
  intro h
  have hA := always_head ((h.2 _ rfl).2 _ rfl)
  exact absurd (hA.hasValue_eq 1 _ none rfl rfl) (by decide)

end

end Optional
end Ipcpp
