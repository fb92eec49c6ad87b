import Ipcpp.Stl.FixedStringEdits

/-!
# `find` and `compare` of fixed-size strings

The functions work through `traits_type::find` and `traits_type::compare` (`CharTraits`).  A range they are
given is read as a whole, and must lie inside of its array: else the result is `none`.

`find` searches for the first character and compares from there.  `find_first`: it returns the first
occurrence, and reads nothing else than the characters of the two strings.

`compare` compares as many characters as this string has.  Where the other one is shorter, these are its
terminator and what is left behind it of older contents (`compare_iff`).
-/

namespace Ipcpp
namespace FixedString
open Slices

/-- the sign of `r` says how `x` and `y` are ordered -/
structure Orders {β : Type} [LT β] (r : Int) (x y : β) : Prop where
  neg : r < 0 ↔ x < y
  zero : r = 0 ↔ x = y
  pos : 0 < r ↔ y < x

section
variable {β : Type} [LinearOrder β] {r : Int} {x y : β}

theorem orders_lt (hr : r < 0) (h : x < y) : Orders r x y :=
  ⟨iff_of_true hr h, iff_of_false hr.ne h.ne, iff_of_false hr.not_gt h.not_gt⟩

theorem orders_eq (hr : r = 0) (h : x = y) : Orders r x y :=
  ⟨iff_of_false hr.not_lt h.not_lt, iff_of_true hr h, iff_of_false hr.not_gt h.not_gt⟩

theorem orders_gt (hr : 0 < r) (h : y < x) : Orders r x y :=
  ⟨iff_of_false hr.not_gt h.not_gt, iff_of_false hr.ne' h.ne', iff_of_true hr h⟩

theorem Orders.swap {r' : Int} (h : Orders r x y) (h' : Orders r' y x) : r.sign = - r'.sign := by
  rcases lt_trichotomy x y with hlt | rfl | hgt
  · rw [Int.sign_eq_neg_one_of_neg (h.neg.mpr hlt), Int.sign_eq_one_of_pos (h'.pos.mpr hlt)]
  · rw [h.zero.mpr rfl, h'.zero.mpr rfl]
    rfl
  · rw [Int.sign_eq_one_of_pos (h.pos.mpr hgt), Int.sign_eq_neg_one_of_neg (h'.neg.mpr hgt)]
    rfl

end

/-- `traits_type`: `find` is a search for the first occurrence, and `compare` looks at one character after the
other -/
structure CharTraits (α : Type) [LinearOrder α] where
  find : List α → α → Option Nat
  compare : List α → List α → Int
  find_none : ∀ {l c}, find l c = none → c ∉ l
  find_some : ∀ {l c i}, find l c = some i → l[i]? = some c ∧ ∀ j < i, l[j]? ≠ some c
  compare_orders : ∀ {xs ys}, xs.length = ys.length → Orders (compare xs ys) xs ys

/-- the traits that compare with `<` -/
def CharTraits.standard {α : Type} [LinearOrder α] : CharTraits α where
  find l c := l.findIdx? fun x => decide (x = c)
  compare xs ys := if xs < ys then -1 else if ys < xs then 1 else 0
  find_none := by
    intro l c h hc
    have hne := List.findIdx?_eq_none_iff.mp h c hc
    exact of_decide_eq_false hne rfl
  find_some := by
    intro l c i h
    obtain ⟨hi, hat, hnot⟩ := List.findIdx?_eq_some_iff_getElem.mp h
    refine ⟨?_, fun j hj hjc => ?_⟩
    · rw [List.getElem?_eq_getElem hi, of_decide_eq_true hat]
    · obtain ⟨hlt, hget⟩ := List.getElem?_eq_some_iff.mp hjc
      exact hnot j hj (decide_eq_true hget)
  compare_orders := by
    intro xs ys _
    rcases lt_trichotomy xs ys with h | h | h
    · rw [if_pos h]
      exact orders_lt (by decide) h
    · rw [if_neg h.not_lt, if_neg h.symm.not_lt]
      exact orders_eq rfl h
    · rw [if_neg h.not_gt, if_pos h]
      exact orders_gt (by decide) h

/-- `static_cast<size_type>(-1)` -/
def npos : Nat := 2^64 - 1

section
variable {α : Type}

/-- the characters `f a, …, f (a + n - 1)` of an array of `size` characters -/
def readRange (f : Nat → α) (size a n : Nat) : Option (List α) :=
  if a + n ≤ size then some (slice f a n) else none

theorem readRange_eq {f : Nat → α} {size a n : Nat} (h : a + n ≤ size) :
    readRange f size a n = some (slice f a n) := if_pos h

variable [LinearOrder α] (tr : CharTraits α)

/-! ## `find` -/

/-- the loop of `find`, which may read the `size()` characters of the string and the `count` of `s` -/
def findLoop (h : Str α) (s : Nat → α) (count : Nat) (elem0 : α) : Nat → Nat → Nat → Option Nat
  | 0, _, _ => none
  | fuel + 1, first, len =>
    if len ≥ count then do
      let text ← readRange h.data h.size first (len - count + 1)
      match tr.find text elem0 with
      | none => some npos
      | some d =>
        let found := first + d
        let xs ← readRange h.data h.size found count
        let ys ← readRange s count 0 count
        if tr.compare xs ys = 0 then some found
        else findLoop h s count elem0 fuel (found + 1) (h.size - (found + 1))
    else some npos

/-- `find(s, pos, count)` -/
def find (h : Str α) (s : Nat → α) (pos count : Nat) : Option Nat :=
  if count = 0 then some (if pos ≤ h.size then pos else npos)
  else if pos ≥ h.size then some npos
  else do
    let front ← readRange s count 0 1
    let elem0 ← front.head?
    findLoop tr h s count elem0 (h.size + 1) pos (h.size - pos)

/-- `s` stands in the string at `i` -/
def Occurs (h : Str α) (s : Nat → α) (count i : Nat) : Prop :=
  i + count ≤ h.size ∧ slice h.data i count = slice s 0 count

/-- the first occurrence from `pos` on, or `npos` -/
def FirstOccurrence (h : Str α) (s : Nat → α) (pos count r : Nat) : Prop :=
  r = npos ∧ (∀ i ≥ pos, ¬ Occurs h s count i) ∨
    pos ≤ r ∧ Occurs h s count r ∧ ∀ i ≥ pos, i < r → ¬ Occurs h s count i

variable {tr} {h : Str α} {s : Nat → α} {pos count : Nat}

omit [LinearOrder α] in
theorem Occurs.first (hcount : 0 < count) {i : Nat} (hi : Occurs h s count i) : h.data i = s 0 :=
  slice_eq_iff.mp hi.2 0 hcount

/-! ### one round of the loop -/

variable {fuel first : Nat}

theorem findLoop_end (hlen : h.size - first < count) :
    findLoop tr h s count (s 0) (fuel + 1) first (h.size - first) = some npos :=
  if_neg (Nat.not_le.mpr hlen)

omit [LinearOrder α] in
theorem findLoop_text (hcount : 0 < count) (hfirst : first ≤ h.size) (hlen : count ≤ h.size - first) :
    readRange h.data h.size first (h.size - first - count + 1) =
      some (slice h.data first (h.size - first - count + 1)) :=
  readRange_eq (by omega)

theorem findLoop_none (hcount : 0 < count) (hfirst : first ≤ h.size) (hlen : count ≤ h.size - first)
    (hfind : tr.find (slice h.data first (h.size - first - count + 1)) (s 0) = none) :
    findLoop tr h s count (s 0) (fuel + 1) first (h.size - first) = some npos := by
  simp only [findLoop, if_pos hlen, findLoop_text hcount hfirst hlen, Option.bind_eq_bind, Option.bind_some, hfind]

theorem findLoop_some (hcount : 0 < count) (hfirst : first ≤ h.size) (hlen : count ≤ h.size - first) {d : Nat}
    (hfind : tr.find (slice h.data first (h.size - first - count + 1)) (s 0) = some d)
    (hd : first + d + count ≤ h.size) :
    findLoop tr h s count (s 0) (fuel + 1) first (h.size - first) =
      if slice h.data (first + d) count = slice s 0 count then some (first + d)
      else findLoop tr h s count (s 0) fuel (first + d + 1) (h.size - (first + d + 1)) := by
  have hlength : (slice h.data (first + d) count).length = (slice s 0 count).length := by
    rw [length_slice, length_slice]
  have horders := tr.compare_orders hlength
  simp only [findLoop, if_pos hlen, findLoop_text hcount hfirst hlen, Option.bind_eq_bind, Option.bind_some, hfind,
    readRange_eq hd, readRange_eq (Nat.zero_add count).le, horders.zero]

theorem findLoop_first (hcount : 0 < count) : ∀ (fuel first : Nat), first ≤ h.size → h.size - first < fuel →
    pos ≤ first → (∀ i ≥ pos, i < first → ¬ Occurs h s count i) →
    ∃ r, findLoop tr h s count (s 0) fuel first (h.size - first) = some r ∧
      FirstOccurrence h s pos count r := by
  intro fuel
  induction fuel with
  | zero => exact fun first _ hfuel => absurd hfuel (Nat.not_lt_zero _)
  | succ fuel ih =>
    intro first hfirst hfuel hpos hbefore
    by_cases hlen : h.size - first < count
    · refine ⟨npos, findLoop_end hlen, .inl ⟨rfl, fun i hi hocc => ?_⟩⟩
      by_cases hlt : i < first
      · exact hbefore i hi hlt hocc
      · have := hocc.1
        omega
    have hlen : count ≤ h.size - first := Nat.le_of_not_lt hlen
    cases hfind : tr.find (slice h.data first (h.size - first - count + 1)) (s 0) with
    | none =>
      refine ⟨npos, findLoop_none hcount hfirst hlen hfind, .inl ⟨rfl, fun i hi hocc => ?_⟩⟩
      by_cases hlt : i < first
      · exact hbefore i hi hlt hocc
      · -- the first character of the occurrence would have been found
        have hin : i - first < h.size - first - count + 1 := by
          have := hocc.1
          omega
        have hget := getElem?_slice (f := h.data) (a := first) hin
        rw [show first + (i - first) = i by omega, hocc.first hcount] at hget
        exact tr.find_none hfind (List.mem_of_getElem? hget)
    | some d =>
      obtain ⟨hat, hnot⟩ := tr.find_some hfind
      have hd : d < h.size - first - count + 1 := by
        have hlt := (List.getElem?_eq_some_iff.mp hat).1
        rwa [length_slice] at hlt
      have hbefore' : ∀ i ≥ pos, i < first + d → ¬ Occurs h s count i := by
        intro i hi hlt hocc
        by_cases hltf : i < first
        · exact hbefore i hi hltf hocc
        · refine hnot (i - first) (by omega) ?_
          rw [getElem?_slice (by omega), show first + (i - first) = i by omega, hocc.first hcount]
      rw [findLoop_some hcount hfirst hlen hfind (by omega)]
      by_cases heq : slice h.data (first + d) count = slice s 0 count
      · rw [if_pos heq]
        exact ⟨first + d, rfl, .inr ⟨by omega, ⟨by omega, heq⟩, hbefore'⟩⟩
      · rw [if_neg heq]
        refine ih (first + d + 1) (by omega) (by omega) (by omega) fun i hi hlt hocc => ?_
        by_cases hlt' : i < first + d
        · exact hbefore' i hi hlt' hocc
        · obtain rfl : i = first + d := by omega
          exact heq hocc.2

/-- **`find` is correct**: for every string, every needle and every position it returns the first occurrence
or `npos`; it ends, and reads no character outside of the two strings. -/
theorem find_first (tr : CharTraits α) (h : Str α) (s : Nat → α) (pos count : Nat) :
    ∃ r, find tr h s pos count = some r ∧ FirstOccurrence h s pos count r := by
  unfold find
  by_cases hcount : count = 0
  · rw [if_pos hcount]
    subst hcount
    refine ⟨_, rfl, ?_⟩
    by_cases hpos : pos ≤ h.size
    · rw [if_pos hpos]
      exact .inr ⟨Nat.le_refl pos, ⟨hpos, rfl⟩, fun i hi hlt => absurd hlt (Nat.not_lt.mpr hi)⟩
    · rw [if_neg hpos]
      exact .inl ⟨rfl, fun i hi hocc => hpos (hi.trans hocc.1)⟩
  rw [if_neg hcount]
  by_cases hpos : pos ≥ h.size
  · rw [if_pos hpos]
    refine ⟨npos, rfl, .inl ⟨rfl, fun i hi hocc => ?_⟩⟩
    have := hocc.1
    omega
  rw [if_neg hpos, readRange_eq (show 0 + 1 ≤ count by omega)]
  exact findLoop_first (Nat.pos_of_ne_zero hcount) (h.size + 1) pos (by omega) (by omega) (Nat.le_refl pos)
    fun i hi hlt => absurd hlt (Nat.not_lt.mpr hi)

/-! ## `compare` -/

/-- `S_compare`; the difference is a `ptrdiff_t` -/
def sCompare (n1 n2 : Nat) : Int :=
  let d := Int.bmod ((n1 : Int) - n2) (2^64)
  if d > 2^31 - 1 then 2^31 - 1
  else if d < -2^31 then -2^31
  else d

variable (tr) in
/-- `a.compare(b)` -/
def compare (a b : Str α) : Option Int := do
  let xs ← readRange a.data (a.cap + 1) 0 a.size
  let ys ← readRange b.data (b.cap + 1) 0 a.size
  let r := tr.compare xs ys
  some (if r = 0 then sCompare a.size b.size else r)

/-- the result has the sign of the lexicographic comparison of the characters -/
def ComparesLex (tr : CharTraits α) (a b : Str α) : Prop :=
  ∃ r, compare tr a b = some r ∧ Orders r a.chars b.chars

/-- `b` is a proper beginning of `a`, and what lies behind the characters of `b` is greater than the rest of
`a` -/
def StaleAbove (a b : Str α) : Prop :=
  b.size < a.size ∧ slice a.data 0 b.size = b.chars ∧
    slice a.data b.size (a.size - b.size) < slice b.data b.size (a.size - b.size)

theorem orders_sCompare {n1 n2 : Nat} (h1 : n1 < 2^63) (h2 : n2 < 2^63) : Orders (sCompare n1 n2) n1 n2 := by
  have hd : Int.bmod ((n1 : Int) - n2) (2^64) = (n1 : Int) - n2 :=
    Int.bmod_eq_of_le (by omega) (by omega)
  rcases lt_trichotomy n1 n2 with hlt | heq | hgt
  · refine orders_lt ?_ hlt
    unfold sCompare
    rw [hd]
    dsimp only
    split_ifs <;> omega
  · refine orders_eq ?_ heq
    unfold sCompare
    rw [hd]
    dsimp only
    split_ifs <;> omega
  · refine orders_gt ?_ hgt
    unfold sCompare
    rw [hd]
    dsimp only
    split_ifs <;> omega

variable {a b : Str α}

variable (tr) in
theorem compare_eq (ha : a.size ≤ a.cap) (hcap : a.cap = b.cap) :
    ∃ r, compare tr a b = some (if r = 0 then sCompare a.size b.size else r) ∧
      Orders r (slice a.data 0 a.size) (slice b.data 0 a.size) := by
  refine ⟨tr.compare (slice a.data 0 a.size) (slice b.data 0 a.size), ?_,
    tr.compare_orders (by rw [length_slice, length_slice])⟩
  rw [compare, readRange_eq (show 0 + a.size ≤ a.cap + 1 by omega),
    readRange_eq (show 0 + a.size ≤ b.cap + 1 by omega)]
  rfl

theorem comparesLex_of {r : Int} (hrun : compare tr a b = some (if r = 0 then sCompare a.size b.size else r))
    (hlt : r < 0 → a.chars < b.chars) (hgt : 0 < r → b.chars < a.chars)
    (heq : r = 0 → Orders (sCompare a.size b.size) a.chars b.chars) : ComparesLex tr a b := by
  refine ⟨_, hrun, ?_⟩
  rcases lt_trichotomy r 0 with h | h | h
  · rw [if_neg h.ne]
    exact orders_lt h (hlt h)
  · rw [if_pos h]
    exact heq h
  · rw [if_neg h.ne']
    exact orders_gt h (hgt h)

/-- the other string is not shorter: nothing behind its end is looked at -/
theorem comparesLex_of_le (ha : a.size ≤ a.cap) (hb : b.size ≤ b.cap) (hcap : a.cap = b.cap)
    (h : a.size ≤ b.size) : ComparesLex tr a b := by
  obtain ⟨r, hrun, hr⟩ := compare_eq tr ha hcap
  have hlen : (slice a.data 0 a.size).length = (slice b.data 0 a.size).length := by
    rw [length_slice, length_slice]
  have hachars : a.chars = slice a.data 0 a.size ++ [] := (List.append_nil _).symm
  have hbchars : b.chars = slice b.data 0 a.size ++ slice b.data (0 + a.size) (b.size - a.size) := by
    rw [slice_append, Nat.add_sub_cancel' h]
    rfl
  refine comparesLex_of hrun (fun hlt => ?_) (fun hgt => ?_) fun heq => ?_
  · rw [hachars, hbchars, append_lt_append_iff hlen]
    exact .inl (hr.neg.mp hlt)
  · rw [hachars, hbchars, append_lt_append_iff hlen.symm]
    exact .inl (hr.pos.mp hgt)
  · have hsize : Orders (sCompare a.size b.size) a.size b.size := orders_sCompare (by have := a.cap_lt; omega)
      (by have := b.cap_lt; omega)
    have hsame := hr.zero.mp heq
    rcases Nat.eq_or_lt_of_le h with h | h
    · refine orders_eq (hsize.zero.mpr h) ?_
      rw [hachars, hbchars, hsame, ← h, Nat.sub_self]
      rfl
    · refine orders_lt (hsize.neg.mpr h) ?_
      rw [hachars, hbchars, append_lt_append_iff hlen]
      refine .inr ⟨hsame, ?_⟩
      rw [← Nat.succ_pred_eq_of_pos (Nat.sub_pos_of_lt h), Nat.succ_eq_add_one, slice_succ]
      exact List.nil_lt_cons _ _

/-- the other string is shorter: behind its end the comparison goes on, with what is left there -/
theorem comparesLex_of_gt (ha : a.size ≤ a.cap) (hcap : a.cap = b.cap)
    (h : b.size < a.size) : ComparesLex tr a b ↔ ¬ StaleAbove a b := by
  obtain ⟨r, hrun, hr⟩ := compare_eq tr ha hcap
  have hlen : (slice a.data 0 b.size).length = b.chars.length := by rw [length_slice, Str.length_chars]
  have hcut : ∀ f : Nat → α, slice f 0 a.size = slice f 0 b.size ++ slice f b.size (a.size - b.size) := by
    intro f
    have happend := slice_append f 0 b.size (a.size - b.size)
    rw [Nat.zero_add, Nat.add_sub_cancel' h.le] at happend
    exact happend.symm
  have hachars : a.chars = slice a.data 0 b.size ++ slice a.data b.size (a.size - b.size) := hcut a.data
  have hbchars : b.chars = b.chars ++ [] := (List.append_nil _).symm
  have hsize : Orders (sCompare a.size b.size) a.size b.size := orders_sCompare (by have := a.cap_lt; omega)
    (by have := b.cap_lt; omega)
  have hrest : [] < slice a.data b.size (a.size - b.size) := by
    rw [← Nat.succ_pred_eq_of_pos (Nat.sub_pos_of_lt h), Nat.succ_eq_add_one, slice_succ]
    exact List.nil_lt_cons _ _
  rw [hcut a.data, hcut b.data] at hr
  by_cases hbegin : slice a.data 0 b.size = b.chars
  · -- the characters of `b` are a beginning of `a`: the result is right if it is positive
    have hgreater : b.chars < a.chars := by
      rw [hachars, hbegin]
      nth_rewrite 1 [hbchars]
      exact (append_lt_append_iff rfl).mpr (.inr ⟨rfl, hrest⟩)
    constructor
    · rintro ⟨r', hr', horders⟩ ⟨-, -, hstale⟩
      obtain rfl := Option.some.inj (hrun.symm.trans hr')
      have hneg : r < 0 := hr.neg.mpr ((append_lt_append_iff hlen).mpr (.inr ⟨hbegin, hstale⟩))
      have hpos := horders.pos.mpr hgreater
      rw [if_neg hneg.ne] at hpos
      omega
    · intro hstale
      refine comparesLex_of hrun (fun hlt => ?_) (fun _ => hgreater) fun _ => orders_gt (hsize.pos.mpr h) hgreater
      rcases (append_lt_append_iff hlen).mp (hr.neg.mp hlt) with hlow | ⟨-, hlow⟩
      · exact absurd hlow (hbegin ▸ lt_irrefl _)
      · exact absurd ⟨h, hbegin, hlow⟩ hstale
  · refine iff_of_true (comparesLex_of hrun (fun hlt => ?_) (fun hgt => ?_) fun heq => ?_) fun hs => hbegin hs.2.1
    · rw [hachars, hbchars, append_lt_append_iff hlen]
      rcases (append_lt_append_iff hlen).mp (hr.neg.mp hlt) with hlow | ⟨heq, -⟩
      · exact .inl hlow
      · exact absurd heq hbegin
    · rw [hachars, hbchars, append_lt_append_iff hlen.symm]
      rcases (append_lt_append_iff hlen.symm).mp (hr.pos.mp hgt) with hlow | ⟨heq, -⟩
      · exact .inl hlow
      · exact absurd heq.symm hbegin
    · have hparts := hr.zero.mp heq
      exact absurd (List.append_inj_left hparts hlen) hbegin

/-- **`compare` is the lexicographic comparison exactly if what is left behind the end of a shorter string
does not get in the way.** -/
theorem compare_iff (tr : CharTraits α) (a b : Str α) (ha : a.size ≤ a.cap) (hb : b.size ≤ b.cap)
    (hcap : a.cap = b.cap) : ComparesLex tr a b ↔ ¬ StaleAbove a b := by
  by_cases h : a.size ≤ b.size
  · exact iff_of_true (comparesLex_of_le ha hb hcap h) fun hs => absurd hs.1 (Nat.not_lt.mpr h)
  · exact comparesLex_of_gt ha hcap (Nat.lt_of_not_le h)

theorem compare_example : ComparesLex .standard single abc ∧ ComparesLex .standard abc single := by
  constructor
  · exact (compare_iff _ single abc (by decide) (by decide) rfl).mpr fun h => absurd h.1 (by decide)
  · refine (compare_iff _ abc single (by decide) (by decide) rfl).mpr fun h => ?_
    exact absurd h.2.2 (by decide +kernel)

/-- where it is the lexicographic comparison it is antisymmetric -/
theorem ComparesLex.swap (hab : ComparesLex tr a b) (hba : ComparesLex tr b a) :
    ∃ r r', compare tr a b = some r ∧ compare tr b a = some r' ∧ r.sign = - r'.sign := by
  obtain ⟨r, hr, horders⟩ := hab
  obtain ⟨r', hr', horders'⟩ := hba
  exact ⟨r, r', hr, hr', horders.swap horders'⟩

theorem ComparesLex.trans {c : Str α} (hab : ComparesLex tr a b) (hbc : ComparesLex tr b c)
    (hac : ComparesLex tr a c) : ∃ r₁ r₂ r, compare tr a b = some r₁ ∧ compare tr b c = some r₂ ∧
      compare tr a c = some r ∧ (r₁ < 0 → r₂ < 0 → r < 0) := by
  obtain ⟨r₁, h₁, horders₁⟩ := hab
  obtain ⟨r₂, h₂, horders₂⟩ := hbc
  obtain ⟨r, h, horders⟩ := hac
  refine ⟨r₁, r₂, r, h₁, h₂, h, fun hlt₁ hlt₂ => ?_⟩
  exact horders.neg.mpr ((horders₁.neg.mp hlt₁).trans (horders₂.neg.mp hlt₂))

end

/-- the first string was `x\0z` before it became `x`; the second one is `x\0y` -/
def leftovers : List (Action Char) :=
  [.construct 4 (.chars (fun i => if i = 0 then 'x' else if i = 1 then Char.ofNat 0 else 'z') 3),
    .call 0 (.assignChars (fun _ => 'x') 1),
    .construct 4 (.chars (fun i => if i = 0 then 'x' else if i = 1 then Char.ofNat 0 else 'y') 3)]

/-- each of the two strings is less than the other one -/
theorem each_is_less : ∃ w a b, Runs.run (Strings.step (Char.ofNat 0)) Strings.init leftovers = some w ∧
    w.str 1 = some a ∧ w.str 0 = some b ∧ compare .standard a b = some (-1) ∧
    compare .standard b a = some (-2) ∧ ¬ ComparesLex .standard a b := by
  refine ⟨_, _, _, rfl, rfl, rfl, by decide +kernel, by decide +kernel, ?_⟩
  rintro ⟨r, hr, horders⟩
  have hneg : r = -1 := Option.some.inj (hr.symm.trans (by decide +kernel))
  exact absurd (horders.neg.mp (hneg ▸ by decide)) (by decide +kernel)

end FixedString
end Ipcpp
