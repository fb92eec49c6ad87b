import Ipcpp.Lib.Prog
import Ipcpp.Lib.Runs

/-!
# Strings of a fixed capacity

`fixed_size::basic_string<N>`: a size and an array of `N + 1` characters.  It is meant to hold that the size
is at most `N` and that the character behind the last one is the terminator (`Str.Ok`).

The functions are programs on one string.  A write to an index beyond `N` is outside of the array: the
program is stuck there.  What is read through a pointer is given by a function of the index, which may be
looked at anywhere.  `traits_type::copy` has no meaning where its two ranges overlap; such copies are counted, and
write what `traits_type::move` would.  The sums `_size + count` are computed in 64 bits.

Of the functions that take a view only those are there whose body compiles: for a view of const characters
`assign(sv)` and `assign(sv, pos, count)` do not, and `append(sv)` and everything with an initializer list
never does.

A run constructs, changes and destroys any number of strings, of any capacities.  `strings_ok_iff`: all of
them are `Ok`, and nothing was written outside of an array, after every step of a run, exactly if every step
meets `Strings.Safe`.
-/

namespace Ipcpp
namespace FixedString

inductive StringError where
  | outOfRange
deriving DecidableEq

/-- `basic_string<cap>`; the array is `data 0, …, data cap`, and behind it is other memory -/
structure Str (α : Type) where
  cap : Nat
  cap_pos : 1 ≤ cap
  cap_lt : cap < 2^63
  size : Nat
  data : Nat → α
  /-- how many copies there were of a range to one that overlaps with it (never read) -/
  overlaps : Nat

abbrev StrM (α : Type) := Prog StringError (Str α)

inductive Pointer (α : Type) where
  /-- in other memory -/
  | other (f : Nat → α)
  /-- `data() + a`: the characters of the string itself, which change -/
  | own (a : Nat)

section
variable {α : Type}

def Pointer.read : Pointer α → Str α → Nat → α
  | other f, _, i => f i
  | own a, s, i => s.data (a + i)

/-- `p + n` -/
def Pointer.add : Pointer α → Nat → Pointer α
  | other f, n => other fun i => f (n + i)
  | own a, n => own (a + n)

/-- the `n` characters behind the pointer, and the `n` from `data() + a` on -/
def Pointer.Overlaps (a n : Nat) : Pointer α → Prop
  | other _ => False
  | own b => 0 < n ∧ a < b + n ∧ b < a + n

instance (a n : Nat) : (p : Pointer α) → Decidable (p.Overlaps a n)
  | .other _ => isFalse id
  | .own b => inferInstanceAs (Decidable (0 < n ∧ a < b + n ∧ b < a + n))

/-- the string, in which a copy from `p` to `data() + a` is counted if the ranges overlap -/
def Str.note (s : Str α) (p : Pointer α) (a n : Nat) : Str α :=
  { s with overlaps := s.overlaps + if p.Overlaps a n then 1 else 0 }

/-! ## `char_traits` -/

/-- write the characters `f 0, …, f (n - 1)` from `data() + a` on -/
def write (a n : Nat) (f : Nat → α) : StrM α Unit :=
  ⟨fun s =>
    if n = 0 ∨ a + n ≤ s.cap + 1 then
      .ok () { s with data := fun i => if a ≤ i ∧ i < a + n then f (i - a) else s.data i }
    else .stuck⟩

/-- `traits_type::move(data() + a, src, n)`: everything is read before it is written -/
def moveChars (a : Nat) (src : Pointer α) (n : Nat) : StrM α Unit := do
  let s ← Prog.get
  write a n (src.read s)

/-- `traits_type::copy(data() + a, src, n)` -/
def copyFrom (a : Nat) (src : Pointer α) (n : Nat) : StrM α Unit := do
  let s ← Prog.get
  Prog.modify fun t => t.note src a n
  write a n (src.read s)

/-- `traits_type::assign(data() + a, n, c)` -/
def fillWith (a n : Nat) (c : α) : StrM α Unit := write a n fun _ => c

def setSize (n : Nat) : StrM α Unit := Prog.modify fun s => { s with size := n }

variable (nul : α)

/-- `_size = n; _data[_size] = '\0'` -/
def finishAt (n : Nat) : StrM α Unit := do
  setSize n
  write n 1 fun _ => nul

/-- the functions that check the number of characters first -/
def checked (n : Nat) (m : StrM α Unit) : StrM α Unit := do
  let s ← Prog.get
  if n > s.cap then Prog.throw .outOfRange else m

/-! ## assignment -/

/-- `assign(count, t)` -/
def assignFill (count : Nat) (t : α) : StrM α Unit :=
  checked count do
    fillWith 0 count t
    finishAt nul count

/-- `operator=(sv)`, `assign(t, count)` and `assign(t)`, with the number of characters -/
def assignChars (src : Pointer α) (count : Nat) : StrM α Unit :=
  checked count do
    copyFrom 0 src count
    finishAt nul count

/-- `operator=(const value_type*)`: the length is not checked -/
def assignCString (src : Pointer α) (length : Nat) : StrM α Unit := do
  copyFrom 0 src length
  finishAt nul length

/-- `operator=(value_type)` -/
def assignChar (t : α) : StrM α Unit := do
  write 0 1 fun _ => t
  write 1 1 fun _ => nul
  setSize 1

/-- `operator=(str)` and `assign(str)`: the terminator is copied too -/
def assignStr (src : Pointer α) (size : Nat) : StrM α Unit := do
  copyFrom 0 src (size + 1)
  setSize size

/-- `assign(str, pos, count)`, where `str` has `size` characters -/
def assignSub (src : Pointer α) (size pos count : Nat) : StrM α Unit :=
  if pos > size then Prog.throw .outOfRange
  else if count > size - pos then Prog.throw .outOfRange
  else do
    copyFrom 0 (src.add pos) (count + 1)
    setSize size

/-- the loop of `assign(first, last)` advances `first` and compares `current`, so it writes the first
character of the range to one place after the other -/
def rangeLoop (c : α) : Nat → Nat → StrM α Unit
  | _, 0 => pure ()
  | i, n + 1 => do
    write i 1 fun _ => c
    rangeLoop c (i + 1) n

/-- `assign(first, last)`.  The loop does not end if there is a first character; it is followed until it has
left the array. -/
def assignRange (vs : List α) : StrM α Unit :=
  checked vs.length do
    match vs with
    | [] => pure ()
    | c :: _ =>
      let s ← Prog.get
      rangeLoop c 0 (s.cap + 2)
    finishAt nul vs.length

/-! ## modifiers -/

def clear : StrM α Unit := finishAt nul 0

/-- the check of `insert` and `append` -/
def fitting (count : Nat) (m : StrM α Unit) : StrM α Unit := do
  let s ← Prog.get
  if (s.size + count) % 2^64 > s.cap then Prog.throw .outOfRange else m

/-- the tail of the string, with its terminator, goes `count` places up; then `m` writes to the gap -/
def insertGap (index count : Nat) (m : StrM α Unit) : StrM α Unit :=
  fitting count do
    let s ← Prog.get
    moveChars (index + count) (.own index) (s.size - index + 1)
    m
    setSize ((s.size + count) % 2^64)

/-- `insert(index, count, t)` -/
def insertFill (index count : Nat) (t : α) : StrM α Unit := insertGap index count (fillWith index count t)

/-- `insert(index, s, count)` -/
def insertChars (index : Nat) (src : Pointer α) (count : Nat) : StrM α Unit :=
  insertGap index count (copyFrom index src count)

def pushBack (v : α) : StrM α Unit := do
  let s ← Prog.get
  write s.size 1 fun _ => v
  setSize (s.size + 1)
  write (s.size + 1) 1 fun _ => nul

def popBack : StrM α Unit := do
  let s ← Prog.get
  finishAt nul (s.size - 1)

/-- `m` writes `count` characters behind the last one -/
def appendWith (count : Nat) (m : Nat → StrM α Unit) : StrM α Unit :=
  fitting count do
    let s ← Prog.get
    m s.size
    finishAt nul ((s.size + count) % 2^64)

/-- `append(count, v)` -/
def appendFill (count : Nat) (v : α) : StrM α Unit := appendWith nul count fun a => fillWith a count v

/-- `append(s, count)` -/
def appendChars (src : Pointer α) (count : Nat) : StrM α Unit :=
  appendWith nul count fun a => copyFrom a src count

/-! ## constructors -/

/-- a string of zeros, as its members are initialised -/
def Str.zero (cap : Nat) (h1 : 1 ≤ cap) (h2 : cap < 2^63) : Str α := ⟨cap, h1, h2, 0, fun _ => nul, 0⟩

/-- `basic_string(init_value)` -/
def newFill (t : α) : StrM α Unit := do
  let s ← Prog.get
  fillWith 0 s.cap t
  finishAt nul s.cap

/-- `basic_string(sv)` and `basic_string(str, count)` -/
def newChars (src : Pointer α) (count : Nat) : StrM α Unit := assignChars nul src count

/-- `basic_string(const basic_string&)` -/
def newCopy (src : Pointer α) (size : Nat) : StrM α Unit := do
  copyFrom 0 src (size + 1)
  finishAt nul size

/-- `basic_string(other, pos)`: there is no call of `copy`, so the characters stay zero -/
def newRest (size : Nat) : StrM α Unit := finishAt nul size

/-- `basic_string(other, pos, count)` -/
def newPart (src : Pointer α) (pos count : Nat) : StrM α Unit := do
  copyFrom 0 (src.add pos) (count + 1)
  finishAt nul count

/-- the part of `basic_string(basic_string&&)` and of `operator=(basic_string&&)` that concerns the target;
the sizes of the two are swapped, nothing is written to the characters of the source -/
def moveFrom (src : Pointer α) (size : Nat) : StrM α Unit := do
  moveChars 0 src (size + 1)
  setSize size

end

/-! ## what is meant to hold -/

section
variable {α : Type} (nul : α)

structure Str.Ok (s : Str α) : Prop where
  size : s.size ≤ s.cap
  terminated : s.data s.size = nul

/-- a function that returns or throws leaves the string `Ok`, and none writes outside of the array -/
def Good : Prog.Outcome StringError (Str α) Unit → Prop
  | .ok _ s => s.Ok nul
  | .throw _ s => s.Ok nul
  | .stuck => False

/-- the string with the characters `f 0, …, f (n - 1)` from `a` on -/
def Str.put (s : Str α) (a n : Nat) (f : Nat → α) : Str α :=
  { s with data := fun i => if a ≤ i ∧ i < a + n then f (i - a) else s.data i }

@[simp] theorem Str.put_cap (s : Str α) (a n : Nat) (f : Nat → α) : (s.put a n f).cap = s.cap := rfl
@[simp] theorem Str.put_size (s : Str α) (a n : Nat) (f : Nat → α) : (s.put a n f).size = s.size := rfl

theorem Str.put_inside (s : Str α) {a n i : Nat} (f : Nat → α) (h1 : a ≤ i) (h2 : i < a + n) :
    (s.put a n f).data i = f (i - a) := if_pos ⟨h1, h2⟩

theorem Str.put_outside (s : Str α) {a n i : Nat} (f : Nat → α) (h : i < a ∨ a + n ≤ i) :
    (s.put a n f).data i = s.data i := if_neg fun hi => by omega

theorem Pointer.read_add (p : Pointer α) (n : Nat) (s : Str α) (i : Nat) : (p.add n).read s i = p.read s (n + i) := by
  cases p with
  | other f => rfl
  | own a => exact congrArg s.data (Nat.add_assoc a n i)

/-! ## rules for programs -/

variable {nul} {s : Str α}

theorem good_write_bind {a n : Nat} {f : Nat → α} {g : Unit → StrM α Unit} :
    Good nul ((write a n f >>= g).run s) ↔
      (n = 0 ∨ a + n ≤ s.cap + 1) ∧ Good nul ((g ()).run (s.put a n f)) := by
  by_cases h : n = 0 ∨ a + n ≤ s.cap + 1
  · have hrun : (write a n f).run s = .ok () (s.put a n f) := if_pos h
    rw [Prog.bind_ok hrun]
    exact (and_iff_right h).symm
  · have hrun : (write a n f).run s = .stuck := if_neg h
    rw [Prog.bind_stuck hrun]
    exact ⟨fun hf => hf.elim, fun hf => absurd hf.1 h⟩

theorem good_write {a n : Nat} {f : Nat → α} :
    Good nul ((write a n f).run s) ↔ (n = 0 ∨ a + n ≤ s.cap + 1) ∧ (s.put a n f).Ok nul := by
  by_cases h : n = 0 ∨ a + n ≤ s.cap + 1
  · rw [show (write a n f).run s = .ok () (s.put a n f) from if_pos h]
    exact (and_iff_right h).symm
  · rw [show (write a n f).run s = .stuck from if_neg h]
    exact ⟨fun hf => hf.elim, fun hf => absurd hf.1 h⟩

theorem good_setSize_bind {n : Nat} {g : Unit → StrM α Unit} :
    Good nul ((setSize n >>= g).run s) ↔ Good nul ((g ()).run { s with size := n }) := Iff.rfl

/-- the size and the terminator are written last: nothing else is asked of the string -/
theorem good_finishAt {n : Nat} : Good nul ((finishAt nul n).run s) ↔ n ≤ s.cap := by
  unfold finishAt
  rw [good_setSize_bind, good_write]
  constructor
  · rintro ⟨h | h, -⟩
    · cases h
    · exact Nat.le_of_succ_le_succ h
  · intro h
    refine ⟨.inr (Nat.succ_le_succ h), h, ?_⟩
    exact Str.put_inside _ _ (Nat.le_refl n) (Nat.lt_succ_self n)

theorem good_checked {n : Nat} {m : StrM α Unit} (hs : s.Ok nul) :
    Good nul ((checked n m).run s) ↔ s.cap < n ∨ Good nul (m.run s) := by
  have hrun : (checked n m).run s = (if n > s.cap then Prog.throw .outOfRange else m : StrM α Unit).run s :=
    Prog.get_bind_run _ _
  rw [hrun]
  by_cases h : n > s.cap
  · rw [if_pos h]
    exact ⟨fun _ => .inl h, fun _ => hs⟩
  · rw [if_neg h]
    exact ⟨.inr, fun hg => hg.resolve_left h⟩

theorem good_fitting {n : Nat} {m : StrM α Unit} (hs : s.Ok nul) :
    Good nul ((fitting n m).run s) ↔ s.cap < (s.size + n) % 2^64 ∨ Good nul (m.run s) := by
  have hrun : (fitting n m).run s
      = (if (s.size + n) % 2^64 > s.cap then Prog.throw .outOfRange else m : StrM α Unit).run s :=
    Prog.get_bind_run _ _
  rw [hrun]
  by_cases h : (s.size + n) % 2^64 > s.cap
  · rw [if_pos h]
    exact ⟨fun _ => .inl h, fun _ => hs⟩
  · rw [if_neg h]
    exact ⟨.inr, fun hg => hg.resolve_left h⟩

/-! ## the functions -/

theorem assignFill_good (hs : s.Ok nul) (count : Nat) (t : α) : Good nul ((assignFill nul count t).run s) := by
  rw [assignFill, good_checked hs, fillWith, good_write_bind, good_finishAt]
  show _ ∨ (_ ∨ _) ∧ count ≤ s.cap
  omega

theorem assignChars_good (hs : s.Ok nul) (src : Pointer α) (count : Nat) :
    Good nul ((assignChars nul src count).run s) := by
  rw [assignChars, good_checked hs]
  show _ ∨ Good nul ((write 0 count (src.read s) >>= fun _ => finishAt nul count).run (s.note src 0 count))
  rw [good_write_bind, good_finishAt]
  show _ ∨ (_ ∨ _ ≤ s.cap + 1) ∧ count ≤ s.cap
  omega

theorem assignCString_good (src : Pointer α) (length : Nat) :
    Good nul ((assignCString nul src length).run s) ↔ length ≤ s.cap := by
  show Good nul ((write 0 length (src.read s) >>= fun _ => finishAt nul length).run (s.note src 0 length)) ↔ _
  rw [good_write_bind, good_finishAt]
  show (_ ∨ _ ≤ s.cap + 1) ∧ length ≤ s.cap ↔ _
  omega

theorem assignChar_good (t : α) : Good nul ((assignChar nul t).run s) := by
  have hcap := s.cap_pos
  rw [assignChar, good_write_bind, good_write_bind]
  refine ⟨.inr (by omega), .inr (Nat.succ_le_succ hcap), hcap, ?_⟩
  show ((s.put 0 1 fun _ => t).put 1 1 fun _ => nul).data 1 = nul
  exact Str.put_inside _ _ (Nat.le_refl 1) (by omega)

/-- the characters and the terminator of a string -/
theorem wholeStr_good {f : Nat → α} {size : Nat} (hsize : size ≤ s.cap) (hnul : f size = nul) :
    Good nul ((write 0 (size + 1) f >>= fun _ => setSize size).run s) := by
  rw [good_write_bind]
  refine ⟨.inr (by omega), hsize, ?_⟩
  exact (Str.put_inside _ _ (Nat.zero_le size) (show size < 0 + (size + 1) by omega)).trans hnul

theorem assignStr_good (src : Pointer α) {size : Nat} (hsize : size ≤ s.cap) (hnul : src.read s size = nul) :
    Good nul ((assignStr src size).run s) :=
  wholeStr_good (s := s.note src 0 (size + 1)) hsize hnul

/-- the size is taken from the whole source, the characters only from a part of it -/
theorem assignSub_good (hs : s.Ok nul) (src : Pointer α) {size : Nat} (hsize : size ≤ s.cap)
    (hnul : src.read s size = nul) (pos count : Nat) :
    Good nul ((assignSub src size pos count).run s) ↔
      size < pos ∨ size - pos < count ∨ size = count ∨ s.data size = nul := by
  unfold assignSub
  by_cases hpos : pos > size
  · rw [if_pos hpos]
    exact ⟨fun _ => .inl hpos, fun _ => hs⟩
  rw [if_neg hpos]
  by_cases hcount : count > size - pos
  · rw [if_pos hcount]
    exact ⟨fun _ => .inr (.inl hcount), fun _ => hs⟩
  rw [if_neg hcount]
  show Good nul ((write 0 (count + 1) ((src.add pos).read s) >>= fun _ => setSize size).run
    (s.note (src.add pos) 0 (count + 1))) ↔ _
  rw [good_write_bind]
  have hroom : count + 1 = 0 ∨ 0 + (count + 1) ≤ s.cap + 1 := .inr (by omega)
  show (count + 1 = 0 ∨ 0 + (count + 1) ≤ s.cap + 1) ∧ Str.Ok nul
    { (s.note (src.add pos) 0 (count + 1)).put 0 (count + 1) ((src.add pos).read s) with size := size } ↔ _
  by_cases heq : size = count
  · -- the whole source, its terminator included
    obtain rfl : pos = 0 := by omega
    refine ⟨fun _ => .inr (.inr (.inl heq)), fun _ => ⟨hroom, hsize, ?_⟩⟩
    show ((s.note (src.add 0) 0 (count + 1)).put 0 (count + 1) ((src.add 0).read s)).data size = nul
    rw [Str.put_inside _ _ (Nat.zero_le _) (by omega), Pointer.read_add, Nat.sub_zero, Nat.zero_add]
    exact hnul
  · have hout := Str.put_outside (s.note (src.add pos) 0 (count + 1)) (i := size) ((src.add pos).read s) (a := 0)
      (n := count + 1) (.inr (by omega))
    constructor
    · rintro ⟨-, -, hterm⟩
      exact .inr (.inr (.inr (hout.symm.trans hterm)))
    · rintro (h | h | h | h)
      · exact absurd h hpos
      · exact absurd h hcount
      · exact absurd h heq
      · exact ⟨hroom, hsize, hout.trans h⟩

/-- the loop that does not end leaves the array -/
theorem rangeLoop_stuck (c : α) (n : Nat) : ∀ (i : Nat) (s : Str α), i + n = s.cap + 2 → 0 < n →
    (rangeLoop c i n).run s = .stuck := by
  induction n with
  | zero => exact fun i s _ h => absurd h (Nat.lt_irrefl 0)
  | succ n ih =>
    intro i s hi _
    by_cases hin : i + 1 ≤ s.cap + 1
    · have hrun : (write i 1 fun _ => c).run s = .ok () (s.put i 1 fun _ => c) := if_pos (.inr hin)
      show ((write i 1 fun _ => c) >>= fun _ => rangeLoop c (i + 1) n).run s = _
      rw [Prog.bind_ok hrun]
      refine ih (i + 1) _ ?_ (by omega)
      show i + 1 + n = s.cap + 2
      omega
    · have hrun : (write i 1 fun _ => c).run s = .stuck := if_neg fun h => hin (h.resolve_left (by omega))
      show ((write i 1 fun _ => c) >>= fun _ => rangeLoop c (i + 1) n).run s = _
      exact Prog.bind_stuck hrun

theorem assignRange_good (hs : s.Ok nul) (vs : List α) :
    Good nul ((assignRange nul vs).run s) ↔ s.cap < vs.length ∨ vs = [] := by
  rw [assignRange, good_checked hs]
  refine or_congr_right ?_
  cases vs with
  | nil =>
    refine ⟨fun _ => rfl, fun _ => ?_⟩
    show Good nul ((finishAt nul 0).run s)
    exact good_finishAt.mpr (Nat.zero_le _)
  | cons c vs =>
    refine ⟨fun h => ?_, fun h => absurd h (List.cons_ne_nil c vs)⟩
    have hloop : (rangeLoop c 0 (s.cap + 2)).run s = .stuck := rangeLoop_stuck c _ 0 s (by omega) (by omega)
    have hstuck : (do
        let s ← Prog.get
        rangeLoop c 0 (s.cap + 2)
        finishAt nul (c :: vs).length : StrM α Unit).run s = .stuck := by
      refine (Prog.get_bind_run _ _).trans ?_
      exact Prog.bind_stuck hloop
    have hfalse : Good nul (.stuck : Prog.Outcome StringError (Str α) Unit) := hstuck ▸ h
    exact hfalse.elim

theorem clear_good : Good nul ((clear nul).run s) := good_finishAt.mpr (Nat.zero_le _)

theorem popBack_good (hs : s.Ok nul) : Good nul ((popBack nul).run s) := by
  show Good nul ((finishAt nul (s.size - 1)).run s)
  have := hs.size
  exact good_finishAt.mpr (by omega)

theorem pushBack_good (hs : s.Ok nul) (v : α) : Good nul ((pushBack nul v).run s) ↔ s.size < s.cap := by
  show Good nul ((write s.size 1 (fun _ => v) >>= fun _ => finishAt nul (s.size + 1)).run s) ↔ _
  rw [good_write_bind, good_finishAt]
  have := hs.size
  show (_ ∨ _) ∧ s.size + 1 ≤ s.cap ↔ _
  omega

/-- the sum of the sizes does not wrap, or is rejected nevertheless -/
def Str.Fits (s : Str α) (count : Nat) : Prop := s.size + count < 2^64 ∨ s.cap < (s.size + count) % 2^64

instance (s : Str α) (count : Nat) : Decidable (s.Fits count) := inferInstanceAs (Decidable (_ ∨ _))

theorem insertGap_good (hs : s.Ok nul) {index count : Nat} (hindex : index ≤ s.size) (f : Pointer α) :
    Good nul ((insertGap index count (copyFrom index f count)).run s) ↔ s.Fits count := by
  have hsize := hs.size
  have hcap := s.cap_lt
  rw [insertGap, good_fitting hs]
  show _ ∨ Good nul ((write (index + count) (s.size - index + 1) ((Pointer.own index).read s) >>= fun _ =>
    copyFrom index f count >>= fun _ => setSize ((s.size + count) % 2^64)).run s) ↔ _
  rw [good_write_bind]
  generalize hr : s.put (index + count) (s.size - index + 1) ((Pointer.own index).read s) = r
  have hrcap : r.cap = s.cap := hr ▸ rfl
  show _ ∨ _ ∧ Good nul ((write index count (f.read r) >>= fun _ => setSize ((s.size + count) % 2^64)).run
    (r.note f index count)) ↔ _
  rw [good_write_bind]
  have hncap : (r.note f index count).cap = s.cap := hrcap
  constructor
  · rintro (h | ⟨h, -⟩)
    · exact .inr h
    · exact .inl (by omega)
  · intro h
    by_cases hthrow : s.cap < (s.size + count) % 2^64
    · exact .inl hthrow
    · have hlt := h.resolve_right hthrow
      rw [Nat.mod_eq_of_lt hlt] at hthrow ⊢
      refine .inr ⟨.inr (by omega), .inr (by omega), ?_, ?_⟩
      · show s.size + count ≤ r.cap
        omega
      · -- the terminator has come along with the tail
        show ((r.note f index count).put index count (f.read r)).data (s.size + count) = nul
        rw [Str.put_outside _ _ (.inr (by omega))]
        show r.data (s.size + count) = nul
        rw [← hr, Str.put_inside _ _ (by omega) (by omega)]
        show s.data (index + (s.size + count - (index + count))) = nul
        rw [show index + (s.size + count - (index + count)) = s.size by omega]
        exact hs.terminated

theorem insertFill_good (hs : s.Ok nul) {index count : Nat} (hindex : index ≤ s.size) (t : α) :
    Good nul ((insertFill index count t).run s) ↔ s.Fits count :=
  insertGap_good hs hindex (.other fun _ => t)

theorem insertChars_good (hs : s.Ok nul) {index count : Nat} (hindex : index ≤ s.size) (src : Pointer α) :
    Good nul ((insertChars index src count).run s) ↔ s.Fits count :=
  insertGap_good hs hindex src

theorem appendWith_good (hs : s.Ok nul) {count : Nat} (f : Pointer α) :
    Good nul ((appendWith nul count fun a => copyFrom a f count).run s) ↔ s.Fits count := by
  have hsize := hs.size
  have hcap := s.cap_lt
  rw [appendWith, good_fitting hs]
  show _ ∨ Good nul ((write s.size count (f.read s) >>= fun _ => finishAt nul ((s.size + count) % 2^64)).run
    (s.note f s.size count)) ↔ _
  rw [good_write_bind, good_finishAt]
  show _ ∨ (_ ∨ _ ≤ s.cap + 1) ∧ (s.size + count) % 2^64 ≤ s.cap ↔ _
  unfold Str.Fits
  omega

theorem appendFill_good (hs : s.Ok nul) (count : Nat) (v : α) :
    Good nul ((appendFill nul count v).run s) ↔ s.Fits count :=
  appendWith_good hs (.other fun _ => v)

theorem appendChars_good (hs : s.Ok nul) (src : Pointer α) (count : Nat) :
    Good nul ((appendChars nul src count).run s) ↔ s.Fits count :=
  appendWith_good hs src

theorem newFill_good (t : α) : Good nul ((newFill nul t).run s) := by
  show Good nul ((write 0 s.cap (fun _ => t) >>= fun _ => finishAt nul s.cap).run s)
  rw [good_write_bind, good_finishAt]
  exact ⟨.inr (by omega), Nat.le_refl _⟩

theorem newCopy_good (src : Pointer α) {size : Nat} (hsize : size ≤ s.cap) :
    Good nul ((newCopy nul src size).run s) := by
  show Good nul ((write 0 (size + 1) (src.read s) >>= fun _ => finishAt nul size).run (s.note src 0 (size + 1)))
  rw [good_write_bind, good_finishAt]
  exact ⟨.inr (show 0 + (size + 1) ≤ s.cap + 1 by omega), hsize⟩

theorem newPart_good (src : Pointer α) (pos count : Nat) :
    Good nul ((newPart nul src pos count).run s) ↔ count ≤ s.cap := by
  show Good nul ((write 0 (count + 1) ((src.add pos).read s) >>= fun _ => finishAt nul count).run
    (s.note (src.add pos) 0 (count + 1))) ↔ _
  rw [good_write_bind, good_finishAt]
  show (_ ∨ _ ≤ s.cap + 1) ∧ count ≤ s.cap ↔ _
  omega

theorem moveFrom_good (src : Pointer α) {size : Nat} (hsize : size ≤ s.cap) (hnul : src.read s size = nul) :
    Good nul ((moveFrom src size).run s) :=
  wholeStr_good hsize hnul

end

/-! ## the system -/

inductive Ctor (α : Type) where
  | empty
  | fill (t : α)
  | chars (src : Nat → α) (count : Nat)

/-- the characters that `insert` and `append` take: a C string or an array with a count, a part of a view, a
string, and a part of a string.  `none` stands for `npos`. -/
inductive Source (α : Type) where
  | chars (src : Nat → α) (count : Nat)
  | view (src : Nat → α) (size pos : Nat) (count : Option Nat)
  | str (j : Nat)
  | sub (j pos : Nat) (count : Option Nat)

inductive Method (α : Type) where
  | assignFill (count : Nat) (t : α)
  | assignChars (src : Nat → α) (count : Nat)
  | assignCString (src : Nat → α) (length : Nat)
  | assignChar (t : α)
  | assignStr (j : Nat)
  | assignSub (j pos count : Nat)
  | assignRange (vs : List α)
  | clear
  | insertFill (index count : Nat) (t : α)
  | insert (index : Nat) (src : Source α)
  | pushBack (v : α)
  | popBack
  | appendFill (count : Nat) (v : α)
  | append (src : Source α)

inductive Action (α : Type) where
  | construct (cap : Nat) (c : Ctor α)
  | copy (j : Nat)
  | part (j pos : Nat) (count : Option Nat)
  | move (j : Nat)
  | copyAssign (k j : Nat)
  | moveAssign (k j : Nat)
  | call (k : Nat) (f : Method α)
  | destroy (k : Nat)

/-- the strings, by number; `outside`: something was written outside of an array -/
structure Strings (α : Type) where
  strs : List (Option (Str α))
  outside : Bool

namespace Strings
variable {α : Type}

def init : Strings α := ⟨[], false⟩

def str (w : Strings α) (k : Nat) : Option (Str α) := w.strs[k]?.join

/-- a pointer to the characters of string `j`, as string `k` sees it -/
def pointer (k j : Nat) (x : Str α) : Pointer α := if k = j then .own 0 else .other x.data

/-- the pointer and the count that `insert` passes on; a part of a string begins at its start all the same -/
def insertSource (w : Strings α) (k : Nat) : Source α → Option (Pointer α × Nat)
  | .chars src count => some (.other src, count)
  | .view src size pos count => some ((Pointer.other src).add pos, count.getD ((2^64 + size - pos) % 2^64))
  | .str j => (w.str j).map fun x => (pointer k j x, x.size)
  | .sub j _ count => (w.str j).map fun x => (pointer k j x, count.getD x.size)

/-- the pointer and the count that `append` passes on -/
def appendSource (w : Strings α) (k : Nat) : Source α → Option (Pointer α × Nat)
  | .chars src count => some (.other src, count)
  | .view src size pos count => some ((Pointer.other src).add pos, count.getD ((2^64 + size - pos) % 2^64))
  | .str j => (w.str j).map fun x => (pointer k j x, x.size)
  | .sub j pos count => (w.str j).map fun x =>
      ((pointer k j x).add pos, count.getD ((2^64 + x.size - pos) % 2^64))

variable (nul : α)

def Ctor.run : Ctor α → StrM α Unit
  | .empty => pure ()
  | .fill t => newFill nul t
  | .chars src count => newChars nul (.other src) count

/-- the program of a call on string `k`, if it may be called: the strings it takes exist (and are of the same
type where the function asks for it), an index is not behind the end, and there is a character to remove -/
def program (w : Strings α) (k : Nat) (x : Str α) : Method α → Option (StrM α Unit)
  | .assignFill count t => some (assignFill nul count t)
  | .assignChars src count => some (assignChars nul (.other src) count)
  | .assignCString src length => some (assignCString nul (.other src) length)
  | .assignChar t => some (assignChar nul t)
  | .assignStr j => (w.str j).bind fun y =>
      if y.cap = x.cap then some (assignStr (pointer k j y) y.size) else none
  | .assignSub j pos count => (w.str j).bind fun y =>
      if y.cap = x.cap then some (assignSub (pointer k j y) y.size pos count) else none
  | .assignRange vs => some (assignRange nul vs)
  | .clear => some (clear nul)
  | .insertFill index count t => if index ≤ x.size then some (insertFill index count t) else none
  | .insert index src => if index ≤ x.size then
      (w.insertSource k src).map fun c => insertChars index c.1 c.2 else none
  | .pushBack v => some (pushBack nul v)
  | .popBack => if 0 < x.size then some (popBack nul) else none
  | .appendFill count v => some (appendFill nul count v)
  | .append src => (w.appendSource k src).map fun c => appendChars nul c.1 c.2

/-- the strings after a program that ends with string `x` -/
def after (w : Strings α) (f : Str α → Strings α) : Prog.Outcome StringError (Str α) Unit → Strings α
  | .ok _ x => f x
  | .throw _ x => f x
  | .stuck => { w with outside := true }

def set (w : Strings α) (k : Nat) (x : Str α) : Strings α := { w with strs := w.strs.set k (some x) }

def append (w : Strings α) (x : Str α) : Strings α := { w with strs := w.strs ++ [some x] }

def step (w : Strings α) (a : Action α) : Option (Strings α) :=
  if w.outside then none
  else match a with
    | .construct cap c =>
      if h : 1 ≤ cap ∧ cap < 2^63 then
        match (Ctor.run nul c).run (Str.zero nul cap h.1 h.2) with
        | .throw _ _ => some w
        | out => some (w.after w.append out)
      else none
    | .copy j => (w.str j).bind fun y =>
        some (w.after w.append ((newCopy nul (.other y.data) y.size).run
          (Str.zero nul y.cap y.cap_pos y.cap_lt)))
    | .part j pos count => (w.str j).bind fun y =>
        some (w.after w.append ((count.elim (newRest nul y.size) (newPart nul (.other y.data) pos)).run
          (Str.zero nul y.cap y.cap_pos y.cap_lt)))
    | .move j => (w.str j).bind fun y =>
        -- the new string has had size zero
        some (w.after (fun x => (w.set j { y with size := 0 }).append x)
          ((moveFrom (.other y.data) y.size).run (Str.zero nul y.cap y.cap_pos y.cap_lt)))
    | .copyAssign k j => (w.str k).bind fun x => (w.str j).bind fun y =>
        if y.cap ≠ x.cap then none
        else if k = j then some w
        else some (w.after (w.set k) ((assignStr (.other y.data) y.size).run x))
    | .moveAssign k j => (w.str k).bind fun x => (w.str j).bind fun y =>
        if y.cap ≠ x.cap then none
        else if k = j then some w
        else some (w.after (fun z => (w.set j { y with size := x.size }).set k z)
          ((moveFrom (.other y.data) y.size).run x))
    | .call k f => (w.str k).bind fun x => (w.program nul k x f).map fun m => w.after (w.set k) (m.run x)
    | .destroy k => (w.str k).map fun _ => { w with strs := w.strs.set k none }

/-- all strings are `Ok`, also those that were moved from, and nothing was written outside of an array -/
structure Ok (w : Strings α) : Prop where
  inside : w.outside = false
  strs : ∀ k x, w.str k = some x → x.Ok nul

/-- the count that a source has for `insert` or `append` -/
def countFits (x : Str α) (c : Option (Pointer α × Nat)) : Prop := ∀ r, c = some r → x.Fits r.2

/-- the condition on a call on string `k` -/
def CallSafe (w : Strings α) (k : Nat) (x : Str α) : Method α → Prop
  | .assignCString _ length => length ≤ x.cap
  | .assignSub j pos count => ∀ y, w.str j = some y →
      y.size < pos ∨ y.size - pos < count ∨ y.size = count ∨ x.data y.size = nul
  | .assignRange vs => x.cap < vs.length ∨ vs = []
  | .insertFill _ count _ => x.Fits count
  | .insert _ src => countFits x (w.insertSource k src)
  | .pushBack _ => x.size < x.cap
  | .appendFill count _ => x.Fits count
  | .append src => countFits x (w.appendSource k src)
  | _ => True

/-- the source of a move has a terminator where its new size says; a string that gets characters one by one,
or without a check, has room for them; a part of a string is not assigned; a range is empty; and sums of
sizes do not wrap -/
def Safe (w : Strings α) : Action α → Prop
  | .part j _ count => ∀ y, w.str j = some y → ∀ n, count = some n → n ≤ y.cap
  | .move j => ∀ y, w.str j = some y → y.data 0 = nul
  | .moveAssign k j => ∀ x y, w.str k = some x → w.str j = some y → k = j ∨ y.data x.size = nul
  | .call k f => ∀ x, w.str k = some x → w.CallSafe nul k x f
  | _ => True

/-! ## one step -/

variable {nul} {w : Strings α} {k : Nat} {x : Str α}

theorem lt_of_str (h : w.str k = some x) : k < w.strs.length := by
  by_contra hk
  unfold str at h
  rw [List.getElem?_eq_none (Nat.le_of_not_lt hk)] at h
  cases h

theorem str_set_self (hk : k < w.strs.length) (x : Str α) : (w.set k x).str k = some x := by
  show (w.strs.set k (some x))[k]?.join = _
  rw [List.getElem?_set_self hk]
  rfl

theorem str_set_ne {i : Nat} (hi : i ≠ k) (x : Str α) : (w.set k x).str i = w.str i := by
  show (w.strs.set k (some x))[i]?.join = _
  rw [List.getElem?_set_ne (Ne.symm hi)]
  rfl

theorem str_append_self (x : Str α) : (w.append x).str w.strs.length = some x := by
  show (w.strs ++ [some x])[w.strs.length]?.join = _
  rw [List.getElem?_append_right (Nat.le_refl _), Nat.sub_self]
  rfl

theorem str_append_ne {i : Nat} (hi : i ≠ w.strs.length) (x : Str α) : (w.append x).str i = w.str i := by
  show (w.strs ++ [some x])[i]?.join = w.strs[i]?.join
  rcases Nat.lt_or_gt_of_ne hi with h | h
  · rw [List.getElem?_append_left h]
  · rw [List.getElem?_append_right (Nat.le_of_lt h), List.getElem?_eq_none (by simp; omega),
      List.getElem?_eq_none (Nat.le_of_lt h)]

/-- one string is replaced -/
theorem Ok.set_iff (h : w.Ok nul) (hk : k < w.strs.length) (x : Str α) : (w.set k x).Ok nul ↔ x.Ok nul := by
  refine ⟨fun hw => hw.strs k x (str_set_self hk x), fun hx => ⟨h.inside, fun i y hy => ?_⟩⟩
  by_cases hi : i = k
  · subst hi
    rw [str_set_self hk] at hy
    exact Option.some.inj hy ▸ hx
  · rw [str_set_ne hi] at hy
    exact h.strs i y hy

theorem Ok.append_iff (h : w.Ok nul) (x : Str α) : (w.append x).Ok nul ↔ x.Ok nul := by
  refine ⟨fun hw => hw.strs _ x (str_append_self x), fun hx => ⟨h.inside, fun i y hy => ?_⟩⟩
  by_cases hi : i = w.strs.length
  · subst hi
    rw [str_append_self] at hy
    exact Option.some.inj hy ▸ hx
  · rw [str_append_ne hi] at hy
    exact h.strs i y hy

theorem not_ok_outside : ¬ Ok nul { w with outside := true } := fun h => by cases h.inside

theorem after_iff {f : Str α → Strings α} {P : Prop} (hf : ∀ y, (f y).Ok nul ↔ y.Ok nul ∧ P)
    (out : Prog.Outcome StringError (Str α) Unit) :
    (w.after f out).Ok nul ↔ Good nul out ∧ P := by
  cases out with
  | ok u y => exact hf y
  | throw e y => exact hf y
  | stuck => exact ⟨fun h => absurd h not_ok_outside, fun h => h.1.elim⟩

theorem after_set_iff (h : w.Ok nul) (hk : w.str k = some x) (out : Prog.Outcome StringError (Str α) Unit) :
    (w.after (w.set k) out).Ok nul ↔ Good nul out := by
  have hiff := after_iff (w := w) (P := True) (fun y => (h.set_iff (lt_of_str hk) y).trans (and_iff_left trivial).symm) out
  exact hiff.trans (and_iff_left trivial)

theorem after_append_iff (h : w.Ok nul) (out : Prog.Outcome StringError (Str α) Unit) :
    (w.after w.append out).Ok nul ↔ Good nul out := by
  have hiff := after_iff (w := w) (P := True) (fun y => (h.append_iff y).trans (and_iff_left trivial).symm) out
  exact hiff.trans (and_iff_left trivial)

theorem pointer_terminator (h : w.Ok nul) (hk : w.str k = some x) {j : Nat} {y : Str α} (hj : w.str j = some y) :
    (pointer k j y).read x y.size = nul := by
  unfold pointer
  split
  · rename_i hkj
    subst hkj
    rw [hk] at hj
    obtain rfl := Option.some.inj hj
    show x.data (0 + x.size) = nul
    rw [Nat.zero_add]
    exact (h.strs k x hk).terminated
  · exact (h.strs j y hj).terminated

/-- **A call** leaves its string `Ok`, and writes inside of the array, exactly under its condition. -/
theorem program_good (h : w.Ok nul) (hk : w.str k = some x) {f : Method α} {m : StrM α Unit}
    (hm : w.program nul k x f = some m) : Good nul (m.run x) ↔ w.CallSafe nul k x f := by
  have hx := h.strs k x hk
  cases f with
  | assignFill count t =>
    obtain rfl := Option.some.inj hm
    exact iff_of_true (assignFill_good hx count t) trivial
  | assignChars src count =>
    obtain rfl := Option.some.inj hm
    exact iff_of_true (assignChars_good hx _ count) trivial
  | assignCString src length =>
    obtain rfl := Option.some.inj hm
    exact assignCString_good _ length
  | assignChar t =>
    obtain rfl := Option.some.inj hm
    exact iff_of_true (assignChar_good t) trivial
  | assignStr j =>
    obtain ⟨y, hy, hm⟩ := Option.bind_eq_some_iff.mp hm
    obtain ⟨hcap, hm⟩ := Option.ite_none_right_eq_some.mp hm
    obtain rfl := Option.some.inj hm
    refine iff_of_true (assignStr_good _ (hcap ▸ (h.strs j y hy).size) (pointer_terminator h hk hy)) trivial
  | assignSub j pos count =>
    obtain ⟨y, hy, hm⟩ := Option.bind_eq_some_iff.mp hm
    obtain ⟨hcap, hm⟩ := Option.ite_none_right_eq_some.mp hm
    obtain rfl := Option.some.inj hm
    rw [assignSub_good hx _ (hcap ▸ (h.strs j y hy).size) (pointer_terminator h hk hy)]
    refine ⟨fun hs z hz => ?_, fun hs => hs y hy⟩
    rw [hy] at hz
    exact Option.some.inj hz ▸ hs
  | assignRange vs =>
    obtain rfl := Option.some.inj hm
    exact assignRange_good hx vs
  | clear =>
    obtain rfl := Option.some.inj hm
    exact iff_of_true clear_good trivial
  | insertFill index count t =>
    obtain ⟨hindex, hm⟩ := Option.ite_none_right_eq_some.mp hm
    obtain rfl := Option.some.inj hm
    exact insertFill_good hx hindex t
  | insert index src =>
    obtain ⟨hindex, hm⟩ := Option.ite_none_right_eq_some.mp hm
    obtain ⟨c, hc, rfl⟩ := Option.map_eq_some_iff.mp hm
    rw [insertChars_good hx hindex]
    refine ⟨fun hs r hr => ?_, fun hs => hs c hc⟩
    rw [hc] at hr
    exact Option.some.inj hr ▸ hs
  | pushBack v =>
    obtain rfl := Option.some.inj hm
    exact pushBack_good hx v
  | popBack =>
    obtain ⟨-, hm⟩ := Option.ite_none_right_eq_some.mp hm
    obtain rfl := Option.some.inj hm
    exact iff_of_true (popBack_good hx) trivial
  | appendFill count v =>
    obtain rfl := Option.some.inj hm
    exact appendFill_good hx count v
  | append src =>
    obtain ⟨c, hc, rfl⟩ := Option.map_eq_some_iff.mp hm
    rw [appendChars_good hx]
    refine ⟨fun hs r hr => ?_, fun hs => hs c hc⟩
    rw [hc] at hr
    exact Option.some.inj hr ▸ hs

theorem ctor_good (c : Ctor α) (hs : Str.Ok nul x) : Good nul ((Ctor.run nul c).run x) := by
  cases c with
  | empty => exact hs
  | fill t => exact newFill_good t
  | chars src count => exact assignChars_good hs _ count

theorem zero_ok {cap : Nat} (h1 : 1 ≤ cap) (h2 : cap < 2^63) : (Str.zero nul cap h1 h2).Ok nul :=
  ⟨Nat.zero_le _, rfl⟩

/-- string `j` gets another size, then a string is appended -/
theorem Ok.move_iff (h : w.Ok nul) (hk : w.str k = some x) (y : Str α) :
    ((w.set k { x with size := 0 }).append y).Ok nul ↔ y.Ok nul ∧ x.data 0 = nul := by
  have hlt := lt_of_str hk
  have hset : (w.set k { x with size := 0 }).Ok nul ↔ x.data 0 = nul :=
    (h.set_iff hlt _).trans ⟨fun hx => hx.terminated, fun hx => ⟨Nat.zero_le _, hx⟩⟩
  constructor
  · intro hw
    have hne : k ≠ (w.set k { x with size := 0 }).strs.length := by
      show k ≠ (w.strs.set k _).length
      rw [List.length_set]
      exact Nat.ne_of_lt hlt
    have hx := hw.strs k { x with size := 0 } ((str_append_ne hne y).trans (str_set_self hlt _))
    exact ⟨hw.strs _ y (str_append_self y), hx.terminated⟩
  · rintro ⟨hy, hx⟩
    exact ((hset.mpr hx).append_iff y).mpr hy

/-- string `j` gets another size, then string `k` is replaced -/
theorem Ok.moveAssign_iff (h : w.Ok nul) (hk : w.str k = some x) {j : Nat} {y : Str α} (hj : w.str j = some y)
    (hkj : k ≠ j) (hcap : y.cap = x.cap) (z : Str α) :
    ((w.set j { y with size := x.size }).set k z).Ok nul ↔ z.Ok nul ∧ y.data x.size = nul := by
  have hlt := lt_of_str hj
  have hsize : x.size ≤ y.cap := le_of_le_of_eq (h.strs k x hk).size hcap.symm
  have hset : (w.set j { y with size := x.size }).Ok nul ↔ y.data x.size = nul :=
    (h.set_iff hlt _).trans ⟨fun hy => hy.terminated, fun hy => ⟨hsize, hy⟩⟩
  have hlt' : k < (w.set j { y with size := x.size }).strs.length := by
    show k < (w.strs.set j _).length
    rw [List.length_set]
    exact lt_of_str hk
  constructor
  · intro hw
    have hy := hw.strs j { y with size := x.size } ((str_set_ne hkj.symm z).trans (str_set_self hlt _))
    exact ⟨hw.strs k z (str_set_self hlt' z), hy.terminated⟩
  · rintro ⟨hz, hy⟩
    exact ((hset.mpr hy).set_iff hlt' z).mpr hz

theorem Ok.destroy (h : w.Ok nul) (k : Nat) : Ok nul { w with strs := w.strs.set k none } := by
  refine ⟨h.inside, fun i y hy => ?_⟩
  by_cases hi : k = i
  · subst hi
    have hnone : ((w.strs.set k none)[k]?).join = none := by
      rw [List.getElem?_set_self']
      cases w.strs[k]? <;> rfl
    have hsome : ((w.strs.set k none)[k]?).join = some y := hy
    rw [hnone] at hsome
    cases hsome
  · refine h.strs i y ?_
    have hsome : ((w.strs.set k none)[i]?).join = some y := hy
    rwa [List.getElem?_set_ne hi] at hsome

/-- **One step** keeps `Ok` exactly under its condition. -/
theorem step_ok_iff {a : Action α} {t : Strings α} (h : w.Ok nul) (hstep : step nul w a = some t) :
    t.Ok nul ↔ w.Safe nul a := by
  unfold step at hstep
  rw [if_neg (h.inside ▸ Bool.false_ne_true)] at hstep
  cases a with
  | construct cap c =>
    refine iff_of_true ?_ trivial
    by_cases hcap : 1 ≤ cap ∧ cap < 2^63
    · have hzero : (Str.zero nul cap hcap.1 hcap.2).Ok nul := zero_ok hcap.1 hcap.2
      have hgood := ctor_good c hzero
      simp only [dif_pos hcap] at hstep
      -- an exception of the constructor leaves no string
      cases hout : (Ctor.run nul c).run (Str.zero nul cap hcap.1 hcap.2) with
      | ok u y =>
        rw [hout] at hstep hgood
        obtain rfl := Option.some.inj hstep
        exact (h.append_iff y).mpr hgood
      | throw e y =>
        rw [hout] at hstep
        exact Option.some.inj hstep ▸ h
      | stuck =>
        rw [hout] at hgood
        exact hgood.elim
    · simp only [dif_neg hcap] at hstep
      cases hstep
  | copy j =>
    obtain ⟨y, hy, ht⟩ := Option.bind_eq_some_iff.mp hstep
    obtain rfl := Option.some.inj ht
    rw [after_append_iff h]
    exact iff_of_true (newCopy_good _ (h.strs j y hy).size) trivial
  | part j pos count =>
    obtain ⟨y, hy, ht⟩ := Option.bind_eq_some_iff.mp hstep
    obtain rfl := Option.some.inj ht
    rw [after_append_iff h]
    cases count with
    | none =>
      refine iff_of_true (good_finishAt.mpr (h.strs j y hy).size) fun _ _ n hn => ?_
      cases hn
    | some n =>
      refine (newPart_good _ pos n).trans ⟨fun hn z hz m hm => ?_, fun hs => hs y hy n rfl⟩
      rw [hy] at hz
      exact Option.some.inj hz ▸ Option.some.inj hm ▸ hn
  | move j =>
    obtain ⟨y, hy, ht⟩ := Option.bind_eq_some_iff.mp hstep
    obtain rfl := Option.some.inj ht
    have hy' := h.strs j y hy
    rw [after_iff (h.move_iff hy)]
    constructor
    · rintro ⟨-, hnul⟩ z hz
      rw [hy] at hz
      exact Option.some.inj hz ▸ hnul
    · exact fun hs => ⟨moveFrom_good _ hy'.size hy'.terminated, hs y hy⟩
  | copyAssign k j =>
    obtain ⟨x, hx, ht⟩ := Option.bind_eq_some_iff.mp hstep
    obtain ⟨y, hy, ht⟩ := Option.bind_eq_some_iff.mp ht
    obtain ⟨hcap, ht⟩ := Option.ite_none_left_eq_some.mp ht
    refine iff_of_true ?_ trivial
    by_cases hkj : k = j
    · rw [if_pos hkj] at ht
      exact Option.some.inj ht ▸ h
    · rw [if_neg hkj] at ht
      obtain rfl := Option.some.inj ht
      have hy' := h.strs j y hy
      rw [after_set_iff h hx]
      exact assignStr_good _ (not_not.mp hcap ▸ hy'.size) hy'.terminated
  | moveAssign k j =>
    obtain ⟨x, hx, ht⟩ := Option.bind_eq_some_iff.mp hstep
    obtain ⟨y, hy, ht⟩ := Option.bind_eq_some_iff.mp ht
    obtain ⟨hcap, ht⟩ := Option.ite_none_left_eq_some.mp ht
    by_cases hkj : k = j
    · rw [if_pos hkj] at ht
      exact iff_of_true (Option.some.inj ht ▸ h) fun _ _ _ _ => .inl hkj
    · rw [if_neg hkj] at ht
      obtain rfl := Option.some.inj ht
      have hy' := h.strs j y hy
      have hcap' : y.cap = x.cap := not_not.mp hcap
      rw [after_iff (h.moveAssign_iff hx hy hkj hcap')]
      constructor
      · rintro ⟨-, hnul⟩ x' y' hx' hy''
        rw [hx] at hx'
        rw [hy] at hy''
        exact .inr (Option.some.inj hx' ▸ Option.some.inj hy'' ▸ hnul)
      · intro hs
        exact ⟨moveFrom_good _ (hcap' ▸ hy'.size) hy'.terminated, (hs x y hx hy).resolve_left hkj⟩
  | call k f =>
    obtain ⟨x, hx, ht⟩ := Option.bind_eq_some_iff.mp hstep
    obtain ⟨m, hm, rfl⟩ := Option.map_eq_some_iff.mp ht
    rw [after_set_iff h hx, program_good h hx hm]
    refine ⟨fun hs z hz => ?_, fun hs => hs x hx⟩
    rw [hx] at hz
    exact Option.some.inj hz ▸ hs
  | destroy k =>
    obtain ⟨x, hx, rfl⟩ := Option.map_eq_some_iff.mp hstep
    exact iff_of_true (h.destroy k) trivial

theorem init_ok : (init : Strings α).Ok nul :=
  ⟨rfl, fun k x hx => by
    have hnone : (init : Strings α).str k = none := rfl
    rw [hnone] at hx
    cases hx⟩

/-! ## whole runs -/

/-- **The invariant of the strings**: after every step all strings have at most `cap` characters and a
terminator, and nothing was written outside of an array, exactly if every step is `Safe`. -/
theorem strings_ok_iff (nul : α) (as : List (Action α)) :
    Runs.Always (step nul) (Ok nul) init as ↔ Runs.Every (step nul) (Safe nul) init as :=
  Runs.always_iff_every (I := fun _ => True) (fun _ _ _ _ _ => trivial)
    (fun _ _ _ _ h ht => step_ok_iff h ht) as trivial init_ok

/-- the string "a", and a string that takes it over -/
def moved : List (Action Char) := [.construct 4 (.chars (fun _ => 'a') 1), .move 0]

/-- the string that was moved from says that it is empty, and still begins with 'a' -/
theorem moved_from_keeps_character :
    ¬ Runs.Always (step (Char.ofNat 0)) (Ok (Char.ofNat 0)) init moved := by
  intro h
  have hOk := (h.2 _ rfl).2 _ rfl
  have hterm := (hOk.strs 0 _ rfl).terminated
  exact absurd hterm (by decide)

end Strings

end FixedString
end Ipcpp
