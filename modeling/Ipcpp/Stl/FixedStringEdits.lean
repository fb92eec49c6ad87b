import Ipcpp.Lib.Slices
import Ipcpp.Stl.FixedString

/-!
# What `insert`, `append`, `assign` and `copy` of a fixed-size string do

`Str.chars` are the characters of a string.  The checks compare `_size + count` and `count + pos` in 64 bits:
a sum that wraps gets past them (`bounds_iff`).

`insert` moves the tail of the string before it reads the characters to insert.  `Str.opened` is the string in
between: a pointer into the string itself may find other characters there.  And where the characters that are read
overlap with those that are written, `traits_type::copy` has no meaning: no function does what it should then.
-/

namespace Ipcpp
namespace FixedString
open Slices

section
variable {α : Type}

def Str.chars (s : Str α) : List α := slice s.data 0 s.size

@[simp] theorem Str.length_chars (s : Str α) : s.chars.length = s.size := length_slice _ _ _

/-- the string with a gap of `count` characters at `index`, its tail and what follows it moved up -/
def Str.opened (s : Str α) (index count : Nat) : Str α :=
  s.put (index + count) (s.size - index + 1) ((Pointer.own index).read s)

/-- the characters behind `src` are the same after the tail was moved -/
def Steady (s : Str α) (index count : Nat) (src : Pointer α) (a b : Nat) : Prop :=
  ∀ j < count, src.read (s.opened index count) (a + j) = src.read s (b + j)

/-- `copy(dest, count, pos)`: the characters written to `dest`, and the number that is returned -/
def copyOut (count pos : Nat) : StrM α (List α × Nat) := do
  let s ← Prog.get
  let n := if (count + pos) % 2^64 > s.size then (2^64 + s.size - pos) % 2^64 else count
  if pos + n ≤ s.cap + 1 then pure (slice s.data pos n, n) else Prog.ofOption none

/-! ## runs -/

variable {s : Str α}

theorem write_run {a n : Nat} {f : Nat → α} (h : n = 0 ∨ a + n ≤ s.cap + 1) :
    (write a n f).run s = .ok () (s.put a n f) := if_pos h

theorem write_stuck {a n : Nat} {f : Nat → α} (h : ¬ (n = 0 ∨ a + n ≤ s.cap + 1)) :
    (write a n f).run s = .stuck := if_neg h

theorem copyFrom_run {a n : Nat} {src : Pointer α} (h : n = 0 ∨ a + n ≤ s.cap + 1) :
    (copyFrom a src n).run s = .ok () ((s.note src a n).put a n (src.read s)) := if_pos h

theorem checked_run {n : Nat} {m : StrM α Unit} (h : n ≤ s.cap) : (checked n m).run s = m.run s := by
  show (if n > s.cap then Prog.throw .outOfRange else m : StrM α Unit).run s = _
  rw [if_neg (Nat.not_lt.mpr h)]

theorem fitting_throw {n : Nat} {m : StrM α Unit} (h : s.cap < (s.size + n) % 2^64) :
    (fitting n m).run s = .throw .outOfRange s := by
  show (if (s.size + n) % 2^64 > s.cap then Prog.throw .outOfRange else m : StrM α Unit).run s = _
  rw [if_pos h]
  rfl

theorem fitting_run {n : Nat} {m : StrM α Unit} (h : (s.size + n) % 2^64 ≤ s.cap) :
    (fitting n m).run s = m.run s := by
  show (if (s.size + n) % 2^64 > s.cap then Prog.throw .outOfRange else m : StrM α Unit).run s = _
  rw [if_neg (Nat.not_lt.mpr h)]

/-- the string after `insert` of the characters behind `src` -/
def Str.inserted (s : Str α) (index count : Nat) (src : Pointer α) : Str α :=
  { ((s.opened index count).note src index count).put index count (src.read (s.opened index count)) with
    size := s.size + count }

theorem fits_mod {count : Nat} (hfit : s.size + count ≤ s.cap) : (s.size + count) % 2^64 = s.size + count := by
  have := s.cap_lt
  exact Nat.mod_eq_of_lt (by omega)

theorem insertChars_run {index count : Nat} (src : Pointer α) (hindex : index ≤ s.size)
    (hfit : s.size + count ≤ s.cap) :
    (insertChars index src count).run s = .ok () (s.inserted index count src) := by
  have hmod := fits_mod hfit
  rw [insertChars, insertGap, fitting_run (hmod.le.trans hfit)]
  show (write (index + count) (s.size - index + 1) ((Pointer.own index).read s) >>= fun _ =>
    copyFrom index src count >>= fun _ => setSize ((s.size + count) % 2^64)).run s = _
  rw [Prog.bind_ok (write_run (.inr (by omega)))]
  show (write index count (src.read (s.opened index count)) >>= fun _ =>
    setSize ((s.size + count) % 2^64)).run ((s.opened index count).note src index count) = _
  have hroom : count = 0 ∨ index + count ≤ ((s.opened index count).note src index count).cap + 1 := by
    refine .inr (le_trans ?_ (Nat.succ_le_succ hfit))
    omega
  rw [Prog.bind_ok (write_run hroom), hmod]
  rfl

variable (nul : α)

/-- the string after `assign` of the characters behind `src` -/
def Str.assigned (s : Str α) (n : Nat) (src : Pointer α) : Str α :=
  { ((s.note src 0 n).put 0 n (src.read s)) with size := n }.put n 1 fun _ => nul

/-- the string after `append` of the characters behind `src` -/
def Str.appended (s : Str α) (count : Nat) (src : Pointer α) : Str α :=
  { ((s.note src s.size count).put s.size count (src.read s)) with size := s.size + count }.put (s.size + count) 1
    fun _ => nul

variable {nul}

theorem appendChars_run {count : Nat} (src : Pointer α) (hfit : s.size + count ≤ s.cap) :
    (appendChars nul src count).run s = .ok () (s.appended nul count src) := by
  have hmod := fits_mod hfit
  rw [appendChars, appendWith, fitting_run (hmod.le.trans hfit)]
  show (write s.size count (src.read s) >>= fun _ => finishAt nul ((s.size + count) % 2^64)).run
    (s.note src s.size count) = _
  rw [Prog.bind_ok (write_run (s := s.note src s.size count) (.inr (show s.size + count ≤ s.cap + 1 by omega))), hmod]
  exact if_pos (.inr (Nat.succ_le_succ hfit))

theorem assignChars_run {n : Nat} (src : Pointer α) (hfit : n ≤ s.cap) :
    (assignChars nul src n).run s = .ok () (s.assigned nul n src) := by
  rw [assignChars, checked_run hfit]
  show (write 0 n (src.read s) >>= fun _ => finishAt nul n).run (s.note src 0 n) = _
  rw [Prog.bind_ok (write_run (s := s.note src 0 n) (.inr (show 0 + n ≤ s.cap + 1 by omega)))]
  exact if_pos (.inr (Nat.succ_le_succ hfit))

/-- a sum that wraps gets past the check, and the tail is moved out of the array -/
theorem insertChars_stuck {index count : Nat} (src : Pointer α) (hindex : index ≤ s.size)
    (h : ¬ s.Fits count) : (insertChars index src count).run s = .stuck := by
  have hcap := s.cap_lt
  obtain ⟨hwrap, hpass⟩ := not_or.mp h
  rw [insertChars, insertGap, fitting_run (Nat.le_of_not_lt hpass)]
  show (write (index + count) (s.size - index + 1) ((Pointer.own index).read s) >>= fun _ =>
    copyFrom index src count >>= fun _ => setSize ((s.size + count) % 2^64)).run s = _
  exact Prog.bind_stuck (write_stuck (by omega))

theorem appendChars_stuck {count : Nat} (src : Pointer α) (hsize : s.size ≤ s.cap) (h : ¬ s.Fits count) :
    (appendChars nul src count).run s = .stuck := by
  have hcap := s.cap_lt
  obtain ⟨hwrap, hpass⟩ := not_or.mp h
  rw [appendChars, appendWith, fitting_run (Nat.le_of_not_lt hpass)]
  show (write s.size count (src.read s) >>= fun _ => finishAt nul ((s.size + count) % 2^64)).run
    (s.note src s.size count) = _
  exact Prog.bind_stuck (write_stuck (show ¬ (_ ∨ s.size + count ≤ s.cap + 1) by omega))

/-! ## the characters afterwards -/

theorem chars_take {index : Nat} (h : index ≤ s.size) : s.chars.take index = slice s.data 0 index := take_slice h

theorem chars_drop {index : Nat} (h : index ≤ s.size) :
    s.chars.drop index = slice s.data index (s.size - index) := by
  rw [Str.chars, drop_slice h, Nat.zero_add]

theorem chars_inserted {index count : Nat} (src : Pointer α) (hindex : index ≤ s.size) :
    (s.inserted index count src).chars =
      s.chars.take index ++ slice (src.read (s.opened index count)) 0 count ++ s.chars.drop index := by
  have hlow : slice (s.inserted index count src).data 0 index = slice s.data 0 index := by
    refine slice_congr fun i hi => ?_
    refine (Str.put_outside _ _ (.inl (by omega))).trans ?_
    exact Str.put_outside _ _ (.inl (by omega))
  have hmid : slice (s.inserted index count src).data index count =
      slice (src.read (s.opened index count)) 0 count := by
    refine slice_congr fun i hi => ?_
    refine (Str.put_inside _ _ (Nat.le_add_right _ _) (Nat.add_lt_add_left hi _)).trans ?_
    rw [Nat.add_sub_cancel_left, Nat.zero_add]
  have hhigh : slice (s.inserted index count src).data (index + count) (s.size - index) =
      slice s.data index (s.size - index) := by
    refine slice_congr fun i hi => ?_
    refine (Str.put_outside _ _ (.inr (by omega))).trans ?_
    refine (Str.put_inside s _ (by omega) (by omega)).trans ?_
    show s.data (index + (index + count + i - (index + count))) = s.data (index + i)
    rw [Nat.add_sub_cancel_left]
  rw [chars_take hindex, chars_drop hindex, ← hlow, ← hmid, ← hhigh]
  have hsize : s.size + count = index + count + (s.size - index) := by omega
  show slice _ 0 (s.size + count) = _
  rw [hsize, ← slice_append _ _ (index + count), ← slice_append _ _ index, Nat.zero_add, Nat.zero_add]

theorem chars_appended {count : Nat} (src : Pointer α) :
    (s.appended nul count src).chars = s.chars ++ slice (src.read s) 0 count := by
  have hlow : slice (s.appended nul count src).data 0 s.size = slice s.data 0 s.size := by
    refine slice_congr fun i hi => ?_
    refine (Str.put_outside _ _ (.inl (by show 0 + i < s.size + count; omega))).trans ?_
    exact Str.put_outside _ _ (.inl (by omega))
  have hhigh : slice (s.appended nul count src).data s.size count = slice (src.read s) 0 count := by
    refine slice_congr fun i hi => ?_
    refine (Str.put_outside _ _ (.inl (by show s.size + i < s.size + count; omega))).trans ?_
    refine (Str.put_inside _ _ (Nat.le_add_right _ _) (Nat.add_lt_add_left hi _)).trans ?_
    rw [Nat.add_sub_cancel_left, Nat.zero_add]
  show slice _ 0 (s.size + count) = _
  rw [← slice_append, hlow, Nat.zero_add, hhigh]
  rfl

theorem chars_assigned {n : Nat} (src : Pointer α) : (Str.assigned nul s n src).chars = slice (src.read s) 0 n := by
  refine slice_congr fun i hi => ?_
  have hi : i < n := hi
  refine (Str.put_outside _ _ (.inl (by omega))).trans ?_
  exact Str.put_inside _ _ (Nat.zero_le _) (by omega)

/-! ## copies that overlap -/

theorem note_overlaps_iff {src : Pointer α} {a n : Nat} : (s.note src a n).overlaps = s.overlaps ↔ ¬ src.Overlaps a n := by
  show s.overlaps + (if src.Overlaps a n then 1 else 0) = s.overlaps ↔ _
  split <;> simp_all

/-! ## the bounds checks -/

/-- what inserting `ins` at `index` should do: throw exactly if the characters do not fit, and then leave the
string as it is -/
structure InsertsAt (s : Str α) (index : Nat) (ins : List α) (out : Prog.Outcome StringError (Str α) Unit) :
    Prop where
  throws : s.cap < s.size + ins.length → out = .throw .outOfRange s
  inserts : s.size + ins.length ≤ s.cap →
    ∃ t, out = .ok () t ∧ t.overlaps = s.overlaps ∧ t.chars = s.chars.take index ++ ins ++ s.chars.drop index

/-- a program that throws if the wrapped sum is too large, and is stuck if the sum wraps to a small one -/
theorem insertsAt_iff {index count : Nat} {ins : List α} {out : Prog.Outcome StringError (Str α) Unit} {t : Str α}
    (hins : ins.length = count) (hthrow : s.cap < (s.size + count) % 2^64 → out = .throw .outOfRange s)
    (hok : s.size + count ≤ s.cap → out = .ok () t) (hstuck : ¬ s.Fits count → out = .stuck) :
    InsertsAt s index ins out ↔ s.Fits count ∧
      (s.size + count ≤ s.cap →
        t.overlaps = s.overlaps ∧ t.chars = s.chars.take index ++ ins ++ s.chars.drop index) := by
  subst hins
  constructor
  · intro h
    constructor
    · by_contra hfits
      have hover : s.cap < s.size + ins.length := by
        have := s.cap_lt
        obtain ⟨hwrap, -⟩ := not_or.mp hfits
        omega
      have hboth := (hstuck hfits).symm.trans (h.throws hover)
      cases hboth
    · intro hfit
      obtain ⟨u, hu, hchars⟩ := h.inserts hfit
      obtain rfl := (Prog.Outcome.ok.inj ((hok hfit).symm.trans hu)).2
      exact hchars
  · rintro ⟨hfits, hchars⟩
    refine ⟨fun hover => hthrow ?_, fun hfit => ⟨t, hok hfit, hchars hfit⟩⟩
    rcases hfits with hlt | hthrow
    · rwa [Nat.mod_eq_of_lt hlt]
    · exact hthrow

theorem insertChars_insertsAt {index : Nat} (hindex : index ≤ s.size) (src : Pointer α) (count : Nat) :
    InsertsAt s index (slice (src.read s) 0 count) ((insertChars index src count).run s) ↔
      s.Fits count ∧ (s.size + count ≤ s.cap → ¬ src.Overlaps index count ∧ Steady s index count src 0 0) := by
  refine (insertsAt_iff (length_slice _ _ _) fitting_throw (insertChars_run src hindex)
    (insertChars_stuck src hindex)).trans ?_
  rw [chars_inserted src hindex, List.append_left_inj, List.append_right_inj, slice_eq_iff]
  exact and_congr_right fun _ => imp_congr_right fun _ => and_congr_left fun _ => note_overlaps_iff

theorem insertFill_insertsAt {index : Nat} (hindex : index ≤ s.size) (count : Nat) (t : α) :
    InsertsAt s index (List.replicate count t) ((insertFill index count t).run s) ↔ s.Fits count := by
  rw [← slice_const (a := 0)]
  refine (insertChars_insertsAt hindex (.other fun _ => t) count).trans (and_iff_left ?_)
  exact fun _ => ⟨id, fun _ _ => rfl⟩

theorem appendChars_insertsAt (hsize : s.size ≤ s.cap) (src : Pointer α) (count : Nat) :
    InsertsAt s s.size (slice (src.read s) 0 count) ((appendChars nul src count).run s) ↔
      s.Fits count ∧ (s.size + count ≤ s.cap → ¬ src.Overlaps s.size count) := by
  refine (insertsAt_iff (length_slice _ _ _) fitting_throw (appendChars_run src)
    (appendChars_stuck src hsize)).trans ?_
  rw [chars_appended, List.take_of_length_le s.length_chars.le, List.drop_of_length_le s.length_chars.le,
    List.append_nil]
  exact and_congr_right fun _ => imp_congr_right fun _ => (and_iff_left rfl).trans note_overlaps_iff

theorem appendFill_insertsAt (hsize : s.size ≤ s.cap) (count : Nat) (t : α) :
    InsertsAt s s.size (List.replicate count t) ((appendFill nul count t).run s) ↔ s.Fits count := by
  rw [← slice_const (a := 0)]
  refine (appendChars_insertsAt hsize (.other fun _ => t) count).trans (and_iff_left ?_)
  exact fun _ => id

/-- what `copy` should do -/
def CopiesOut (s : Str α) (count pos : Nat) (out : Prog.Outcome StringError (Str α) (List α × Nat)) : Prop :=
  out = .ok ((s.chars.drop pos).take (min count (s.size - pos)), min count (s.size - pos)) s

theorem copyOut_iff {count pos : Nat} (hsize : s.size ≤ s.cap) (hpos : pos ≤ s.size) (hcount : count < 2^64) :
    CopiesOut s count pos ((copyOut count pos).run s) ↔
      count + pos < 2^64 ∨ s.size < (count + pos) % 2^64 := by
  have hcap := s.cap_lt
  have hrest : (2^64 + s.size - pos) % 2^64 = s.size - pos := by omega
  have hdrop : (s.chars.drop pos).take (min count (s.size - pos)) =
      slice s.data pos (min count (s.size - pos)) := by
    rw [chars_drop hpos, take_slice (Nat.min_le_right _ _)]
  unfold CopiesOut
  rw [hdrop]
  have hrun : (copyOut count pos).run s =
      (let n := if (count + pos) % 2^64 > s.size then (2^64 + s.size - pos) % 2^64 else count
       if pos + n ≤ s.cap + 1 then pure (slice s.data pos n, n) else Prog.ofOption none :
        StrM α (List α × Nat)).run s := rfl
  rw [hrun, hrest]
  by_cases hgt : (count + pos) % 2^64 > s.size
  · have hmin : min count (s.size - pos) = s.size - pos := by omega
    refine iff_of_true ?_ (.inr hgt)
    simp only [if_pos hgt, hmin]
    rw [if_pos (by omega)]
    rfl
  · simp only [if_neg hgt]
    by_cases hlt : count + pos < 2^64
    · rw [Nat.mod_eq_of_lt hlt] at hgt
      have hmin : min count (s.size - pos) = count := by omega
      refine iff_of_true ?_ (.inl hlt)
      rw [hmin, if_pos (by omega)]
      rfl
    · refine iff_of_false (fun h => ?_) (not_or.mpr ⟨hlt, hgt⟩)
      rw [if_neg (by omega)] at h
      cases h

variable (nul) in
/-- **The bounds checks hold exactly if the sums do not get past them by wrapping**, for all arguments of 64
bits.  `insert(index, p, count)` also needs the characters at `p` to be apart from those it writes, and the same after
the tail was moved; and `append(p, count)` the characters at `p` to be apart from those behind the last one. -/
theorem bounds_iff (hsize : s.size ≤ s.cap) {index pos count : Nat} (hindex : index ≤ s.size)
    (hpos : pos ≤ s.size) (hcount : count < 2^64) (c : α) (src : Pointer α) :
    (InsertsAt s index (List.replicate count c) ((insertFill index count c).run s) ↔ s.Fits count) ∧
    (InsertsAt s index (slice (src.read s) 0 count) ((insertChars index src count).run s) ↔
      s.Fits count ∧ (s.size + count ≤ s.cap → ¬ src.Overlaps index count ∧ Steady s index count src 0 0)) ∧
    (InsertsAt s s.size (List.replicate count c) ((appendFill nul count c).run s) ↔ s.Fits count) ∧
    (InsertsAt s s.size (slice (src.read s) 0 count) ((appendChars nul src count).run s) ↔
      s.Fits count ∧ (s.size + count ≤ s.cap → ¬ src.Overlaps s.size count)) ∧
    (CopiesOut s count pos ((copyOut count pos).run s) ↔
      count + pos < 2^64 ∨ s.size < (count + pos) % 2^64) :=
  ⟨insertFill_insertsAt hindex count c, insertChars_insertsAt hindex src count,
    appendFill_insertsAt hsize count c, appendChars_insertsAt hsize src count, copyOut_iff hsize hpos hcount⟩

def single : Str Char := ⟨4, by decide, by decide, 1, fun i => if i = 0 then 'a' else Char.ofNat 0, 0⟩

theorem bounds_example : InsertsAt single 1 ['b', 'b'] ((insertFill 1 2 'b').run single) ∧
    CopiesOut single 7 0 ((copyOut 7 0).run single) := by
  have hsize : single.size ≤ single.cap := by decide
  have hlast : 1 ≤ single.size := by decide
  have hfront : 0 ≤ single.size := by decide
  obtain ⟨hfill, -⟩ := bounds_iff (Char.ofNat 0) hsize hlast hfront (show 2 < 2^64 by decide) 'b' (.own 0)
  obtain ⟨-, -, -, -, hcopy⟩ := bounds_iff (Char.ofNat 0) hsize hlast hfront (show 7 < 2^64 by decide) 'b' (.own 0)
  exact ⟨hfill.mpr (by decide), hcopy.mpr (by decide)⟩

/-- `append(npos, 'b')` does not throw: it writes beyond the array -/
theorem append_npos_not_refused :
    (appendFill (Char.ofNat 0) (2^64 - 1) 'b').run single = .stuck ∧
      ¬ InsertsAt single single.size (List.replicate (2^64 - 1) 'b')
        ((appendFill (Char.ofNat 0) (2^64 - 1) 'b').run single) := by
  have hwraps : ¬ single.Fits (2^64 - 1) := by decide
  refine ⟨appendChars_stuck (.other fun _ => 'b') (by decide) hwraps, fun h => hwraps ?_⟩
  exact (appendFill_insertsAt (by decide) (2^64 - 1) 'b').mp h

/-! ## parts of strings and of views -/

section
variable (nul : α)

/-- `assign(sv, pos, count)`, for a view whose `data()` is not const; `none` stands for `npos` -/
def assignView (src : Pointer α) (size pos : Nat) (count : Option Nat) : StrM α Unit :=
  let rest := (2^64 + size - pos) % 2^64
  if count.getD rest > rest then Prog.throw .outOfRange
  else assignChars nul (src.add pos) (count.getD rest)

/-- `insert(index, str, s_index, count)`, where `str` has `size` characters: `s_index` is not used -/
def insertStrPart (index : Nat) (src : Pointer α) (size _sIndex : Nat) (count : Option Nat) : StrM α Unit :=
  insertChars index src (count.getD size)

/-- `insert(index, sv, sv_index, count)` -/
def insertViewPart (index : Nat) (src : Pointer α) (size svIndex : Nat) (count : Option Nat) : StrM α Unit :=
  insertChars index (src.add svIndex) (count.getD ((2^64 + size - svIndex) % 2^64))

/-- `append(str, pos, count)` and `append(sv, pos, count)` -/
def appendPart (src : Pointer α) (size pos : Nat) (count : Option Nat) : StrM α Unit :=
  appendChars nul (src.add pos) (count.getD ((2^64 + size - pos) % 2^64))

end

/-- both return, with as many copies that overlapped, the same size, the same characters and the same character
behind them -/
def Agree (out out' : Prog.Outcome StringError (Str α) Unit) : Prop :=
  ∃ t u, out = .ok () t ∧ out' = .ok () u ∧
    t.overlaps = u.overlaps ∧ t.size = u.size ∧ t.chars = u.chars ∧ t.data t.size = u.data u.size

theorem agree_ok {t u : Str α} : Agree (.ok () t) (.ok () u) ↔
    t.overlaps = u.overlaps ∧ t.size = u.size ∧ t.chars = u.chars ∧ t.data t.size = u.data u.size := by
  constructor
  · rintro ⟨t', u', ht, hu, h⟩
    obtain rfl := (Prog.Outcome.ok.inj ht).2
    obtain rfl := (Prog.Outcome.ok.inj hu).2
    exact h
  · exact fun h => ⟨t, u, rfl, rfl, h⟩

theorem not_agree_throw {e : StringError} {t : Str α} {out : Prog.Outcome StringError (Str α) Unit} :
    ¬ Agree (.throw e t) out := by
  rintro ⟨t', u, ht, -⟩
  cases ht

/-- two insertions of `n` characters agree if they find the same characters after the tail was moved, and none that
are being written -/
theorem agree_insert_iff {index n : Nat} (src : Pointer α) (f : Nat → α) (hindex : index ≤ s.size)
    (hfit : s.size + n ≤ s.cap) :
    Agree ((insertChars index src n).run s) ((insertChars index (.other f) n).run s) ↔
      ¬ src.Overlaps index n ∧ ∀ j < n, src.read (s.opened index n) j = f j := by
  have hlast : ∀ p : Pointer α,
      (s.inserted index n p).data (s.size + n) = (s.opened index n).data (s.size + n) :=
    fun p => Str.put_outside _ _ (.inr (by omega))
  rw [insertChars_run src hindex hfit, insertChars_run (.other f) hindex hfit, agree_ok, chars_inserted src hindex,
    chars_inserted (.other f) hindex, List.append_left_inj, List.append_right_inj, slice_eq_iff]
  simp only [Nat.zero_add]
  refine and_congr note_overlaps_iff ?_
  exact ⟨fun h => h.2.1, fun h => ⟨rfl, h, (hlast src).trans (hlast (.other f)).symm⟩⟩

theorem agree_assign_iff {n : Nat} {src : Pointer α} {f : Nat → α} (hread : ∀ i, src.read s i = f i)
    (hfit : n ≤ s.cap) :
    Agree ((assignChars nul src n).run s) ((assignChars nul (.other f) n).run s) ↔ ¬ src.Overlaps 0 n := by
  rw [assignChars_run src hfit, assignChars_run (.other f) hfit, agree_ok, chars_assigned, chars_assigned]
  refine (and_iff_left ⟨rfl, slice_congr fun i _ => hread _, ?_⟩).trans note_overlaps_iff
  have hterm : ∀ p : Pointer α, (s.assigned nul n p).data n = nul :=
    fun p => Str.put_inside _ _ (Nat.le_refl n) (Nat.lt_succ_self n)
  exact (hterm src).trans (hterm (.other f)).symm

theorem agree_append_iff {n : Nat} {src : Pointer α} {f : Nat → α} (hread : ∀ i, src.read s i = f i)
    (hfit : s.size + n ≤ s.cap) :
    Agree ((appendChars nul src n).run s) ((appendChars nul (.other f) n).run s) ↔ ¬ src.Overlaps s.size n := by
  rw [appendChars_run src hfit, appendChars_run (.other f) hfit, agree_ok, chars_appended, chars_appended,
    List.append_right_inj]
  refine (and_iff_left ⟨rfl, slice_congr fun i _ => hread _, ?_⟩).trans note_overlaps_iff
  have hterm : ∀ p : Pointer α, (s.appended nul n p).data (s.size + n) = nul :=
    fun p => Str.put_inside _ _ (Nat.le_refl _) (Nat.lt_succ_self _)
  exact (hterm src).trans (hterm (.other f)).symm

/-- one of them inserts another number of characters -/
theorem not_agree_insert {index m n : Nat} (src src' : Pointer α) (hindex : index ≤ s.size) (hm : m < 2^63)
    (hfit : s.size + n ≤ s.cap) (hmn : m ≠ n) :
    ¬ Agree ((insertChars index src m).run s) ((insertChars index src' n).run s) := by
  have hcap := s.cap_lt
  have hlt : s.size + m < 2^64 := by omega
  rw [insertChars_run src' hindex hfit]
  by_cases hm' : s.size + m ≤ s.cap
  · rw [insertChars_run src hindex hm', agree_ok]
    rintro ⟨-, hsize, -⟩
    exact hmn (Nat.add_left_cancel hsize)
  · have hthrow : (insertChars index src m).run s = .throw .outOfRange s := by
      refine fitting_throw ?_
      rw [Nat.mod_eq_of_lt hlt]
      exact Nat.lt_of_not_le hm'
    rw [hthrow]
    exact not_agree_throw

/-- `assign(str, pos, count)` takes over the size of the whole string -/
theorem assignSub_agree_iff {size pos n : Nat} {count : Option Nat} (src : Pointer α) (hpos : pos ≤ size)
    (hsize : size < 2^63) (hn : n = count.getD (size - pos)) (hle : n ≤ size - pos) (hfit : n ≤ s.cap) :
    Agree ((assignSub src size pos (count.getD (2^64 - 1))).run s)
        ((assignChars nul (.other fun i => src.read s (pos + i)) n).run s) ↔
      (count = some size ∧ src.read s size = nul) ∧ ¬ (src.add pos).Overlaps 0 (n + 1) := by
  unfold assignSub
  rw [if_neg (Nat.not_lt.mpr hpos)]
  cases count with
  | none =>
    have hmany : (none : Option Nat).getD (2^64 - 1) > size - pos := by
      show 2^64 - 1 > size - pos
      omega
    rw [if_pos hmany]
    exact iff_of_false not_agree_throw fun h => by cases h.1.1
  | some count =>
    obtain rfl : n = count := hn
    have hfew : ¬ (some n).getD (2^64 - 1) > size - pos := Nat.not_lt.mpr hle
    rw [if_neg hfew, assignChars_run _ hfit]
    have hrun : (do copyFrom 0 (src.add pos) (n + 1); setSize size : StrM α Unit).run s = .ok ()
        { (s.note (src.add pos) 0 (n + 1)).put 0 (n + 1) ((src.add pos).read s) with size := size } :=
      Prog.bind_ok (copyFrom_run (.inr (by omega)))
    show Agree ((do copyFrom 0 (src.add pos) (n + 1); setSize size : StrM α Unit).run s) _ ↔ _
    rw [hrun, agree_ok, Option.some_inj, and_comm, note_overlaps_iff.symm]
    refine and_congr_left fun _ => ?_
    have hread : ∀ i < n + 1,
        ((s.note (src.add pos) 0 (n + 1)).put 0 (n + 1) ((src.add pos).read s)).data i = src.read s (pos + i) :=
      fun i hi => (Str.put_inside _ _ (Nat.zero_le i) (by omega)).trans (Pointer.read_add src pos s i)
    have hterm : (s.assigned nul n (.other fun i => src.read s (pos + i))).data n = nul :=
      Str.put_inside _ _ (Nat.le_refl n) (Nat.lt_succ_self n)
    constructor
    · rintro ⟨heq, -, hlast⟩
      obtain rfl : size = n := heq
      obtain rfl : pos = 0 := by omega
      refine ⟨rfl, ?_⟩
      have hlast' := (hread size (Nat.lt_succ_self size)).symm.trans (hlast.trans hterm)
      rwa [Nat.zero_add] at hlast'
    · rintro ⟨rfl, hnul⟩
      obtain rfl : pos = 0 := by omega
      refine ⟨rfl, ?_, ?_⟩
      · rw [chars_assigned]
        refine slice_congr fun i hi => ?_
        rw [Nat.zero_add]
        exact hread i (Nat.lt_succ_of_lt hi)
      · refine (hread n (Nat.lt_succ_self n)).trans ?_
        rw [Nat.zero_add, hnul]
        exact hterm.symm

theorem rest_eq {size pos : Nat} (hpos : pos ≤ size) (hsize : size < 2^64) :
    (2^64 + size - pos) % 2^64 = size - pos := by
  omega

theorem assignView_agree_iff {size pos n : Nat} {count : Option Nat} (src : Pointer α) (hpos : pos ≤ size)
    (hsize : size < 2^64) (hn : n = count.getD (size - pos)) (hle : n ≤ size - pos) (hfit : n ≤ s.cap) :
    Agree ((assignView nul src size pos count).run s)
      ((assignChars nul (.other fun i => src.read s (pos + i)) n).run s) ↔ ¬ (src.add pos).Overlaps 0 n := by
  have hview : assignView nul src size pos count = assignChars nul (src.add pos) n := by
    unfold assignView
    rw [rest_eq hpos hsize]
    dsimp only
    rw [← hn]
    exact if_neg (Nat.not_lt.mpr hle)
  rw [hview]
  exact agree_assign_iff (src.read_add pos s) hfit

theorem appendPart_agree_iff {size pos n : Nat} {count : Option Nat} (src : Pointer α) (hpos : pos ≤ size)
    (hsize : size < 2^64) (hn : n = count.getD (size - pos)) (hfit : s.size + n ≤ s.cap) :
    Agree ((appendPart nul src size pos count).run s)
      ((appendChars nul (.other fun i => src.read s (pos + i)) n).run s) ↔ ¬ (src.add pos).Overlaps s.size n := by
  rw [appendPart, rest_eq hpos hsize, ← hn]
  exact agree_append_iff (src.read_add pos s) hfit

theorem insertStrPart_agree_iff {index size pos n : Nat} {count : Option Nat} (src : Pointer α)
    (hindex : index ≤ s.size) (hpos : pos ≤ size) (hsize : size < 2^63) (hn : n = count.getD (size - pos))
    (hle : n ≤ size - pos) (hfit : s.size + n ≤ s.cap) :
    Agree ((insertStrPart index src size pos count).run s)
        ((insertChars index (.other fun i => src.read s (pos + i)) n).run s) ↔
      ((count = none → pos = 0) ∧ Steady s index n src 0 pos) ∧ ¬ src.Overlaps index n := by
  have hlt : count.getD size < 2^63 := by
    cases count with
    | none => exact hsize
    | some m =>
      obtain rfl : n = m := hn
      show n < 2^63
      omega
  have hcount : count.getD size = n ↔ (count = none → pos = 0) := by
    cases count with
    | none =>
      have hrest : n = size - pos := hn
      show size = n ↔ (none = none → pos = 0)
      constructor
      · intro h _
        omega
      · intro h
        have := h rfl
        omega
    | some m => exact iff_of_true hn.symm fun h => by cases h
  rw [insertStrPart, ← hcount]
  by_cases hm : count.getD size = n
  · rw [hm]
    rw [agree_insert_iff _ _ hindex hfit, and_comm]
    refine and_congr_left fun _ => ⟨fun h => ⟨rfl, fun j hj => ?_⟩, fun h j hj => ?_⟩
    · rw [Nat.zero_add]
      exact h j hj
    · have hj' := h.2 j hj
      rwa [Nat.zero_add] at hj'
  · exact iff_of_false (not_agree_insert _ _ hindex hlt hfit hm) fun h => hm h.1.1

theorem insertViewPart_agree_iff {index size pos n : Nat} {count : Option Nat} (src : Pointer α)
    (hindex : index ≤ s.size) (hpos : pos ≤ size) (hsize : size < 2^64) (hn : n = count.getD (size - pos))
    (hfit : s.size + n ≤ s.cap) :
    Agree ((insertViewPart index src size pos count).run s)
        ((insertChars index (.other fun i => src.read s (pos + i)) n).run s) ↔
      Steady s index n src pos pos ∧ ¬ (src.add pos).Overlaps index n := by
  rw [insertViewPart, rest_eq hpos hsize, ← hn, agree_insert_iff _ _ hindex hfit, and_comm]
  refine and_congr_left fun _ => forall_congr' fun j => ?_
  rw [Pointer.read_add]

variable (nul) in
/-- **The overloads that take a part of a string or of a view** do what the plain ones do with its
characters, as long as those that are read are apart from those that are written.  For `assign` of a string the part
also has to be the whole string; for `insert` of a string its beginning has to have the characters of the part; and
for both `insert`s the tail must not be moved over the characters. -/
theorem substring_iff {index size pos n : Nat} {count : Option Nat} (src : Pointer α) (hindex : index ≤ s.size)
    (hpos : pos ≤ size) (hsize : size < 2^63) (hn : n = count.getD (size - pos)) (hle : n ≤ size - pos) :
    (n ≤ s.cap →
      (Agree ((assignSub src size pos (count.getD (2^64 - 1))).run s)
          ((assignChars nul (.other fun i => src.read s (pos + i)) n).run s) ↔
        (count = some size ∧ src.read s size = nul) ∧ ¬ (src.add pos).Overlaps 0 (n + 1)) ∧
      (Agree ((assignView nul src size pos count).run s)
          ((assignChars nul (.other fun i => src.read s (pos + i)) n).run s) ↔ ¬ (src.add pos).Overlaps 0 n)) ∧
    (s.size + n ≤ s.cap →
      (Agree ((insertStrPart index src size pos count).run s)
          ((insertChars index (.other fun i => src.read s (pos + i)) n).run s) ↔
        ((count = none → pos = 0) ∧ Steady s index n src 0 pos) ∧ ¬ src.Overlaps index n) ∧
      (Agree ((insertViewPart index src size pos count).run s)
          ((insertChars index (.other fun i => src.read s (pos + i)) n).run s) ↔
        Steady s index n src pos pos ∧ ¬ (src.add pos).Overlaps index n) ∧
      (Agree ((appendPart nul src size pos count).run s)
          ((appendChars nul (.other fun i => src.read s (pos + i)) n).run s) ↔
        ¬ (src.add pos).Overlaps s.size n)) := by
  have hlt : size < 2^64 := by omega
  constructor
  · intro hcap
    exact ⟨assignSub_agree_iff src hpos hsize hn hle hcap, assignView_agree_iff src hpos hlt hn hle hcap⟩
  · intro hfit
    exact ⟨insertStrPart_agree_iff src hindex hpos hsize hn hle hfit,
      insertViewPart_agree_iff src hindex hpos hlt hn hfit, appendPart_agree_iff src hpos hlt hn hfit⟩

/-- the string "abc", with room for four characters -/
def abc : Str Char :=
  ⟨4, by decide, by decide, 3, fun i => if i < 3 then Char.ofNat (97 + i) else Char.ofNat 0, 0⟩

theorem substring_example :
    Agree ((assignSub (.other abc.data) 3 0 3).run single)
        ((assignChars (Char.ofNat 0) (.other fun i => abc.data (0 + i)) 3).run single) ∧
      Agree ((appendPart (Char.ofNat 0) (.own 0) 1 0 none).run single)
        ((appendChars (Char.ofNat 0) (.other fun i => single.data (0 + (0 + i))) 1).run single) := by
  have hfront : 0 ≤ single.size := by decide
  have hwhole : 3 = (some 3).getD (3 - 0) := rfl
  have hrest : 1 = (none : Option Nat).getD (1 - 0) := rfl
  obtain ⟨hassign, -⟩ := substring_iff (Char.ofNat 0) (.other abc.data) hfront (by decide) (by decide) hwhole
    (by decide)
  obtain ⟨-, happend⟩ := substring_iff (Char.ofNat 0) (.own 0) hfront (by decide) (by decide) hrest (by decide)
  exact ⟨(hassign (by decide)).1.mpr ⟨⟨rfl, rfl⟩, id⟩, (happend (by decide)).2.2.mpr (by decide)⟩

/-- the part "b" of "abc": `insert` takes "a", and `assign` a string of three characters -/
theorem part_is_beginning :
    ¬ Agree ((insertStrPart 0 (.other abc.data) 3 1 (some 1)).run single)
        ((insertChars 0 (.other fun i => abc.data (1 + i)) 1).run single) ∧
      ¬ Agree ((assignSub (.other abc.data) 3 1 1).run single)
        ((assignChars (Char.ofNat 0) (.other fun i => abc.data (1 + i)) 1).run single) := by
  have hpart : 1 = (some 1).getD (3 - 1) := rfl
  constructor
  · intro h
    obtain ⟨⟨-, hsteady⟩, -⟩ := (insertStrPart_agree_iff (.other abc.data) (by decide) (by decide) (by decide) hpart
      (by decide) (by decide)).mp h
    exact absurd (hsteady 0 Nat.zero_lt_one) (by decide)
  · intro h
    obtain ⟨⟨hcount, -⟩, -⟩ := (assignSub_agree_iff (.other abc.data) (by decide) (by decide) hpart (by decide)
      (by decide)).mp h
    exact absurd hcount (by decide)

end

end FixedString
end Ipcpp
