import Mathlib
import Ipcpp.Numeric

/-!
# Rounding to powers of two, as compiled

`Ipcpp.Numeric` has the rounding functions of a type of `w` bits, over the portable `count_leading_zero`.
Here they are shown to be the greatest power of two below a value and the least one above it, and are
compared with what a `Target` compiles: which of the three bodies of `count_leading_zero` it has, and
which case of it a type comes to.

* `portableCountLeadingZero_run`  the `while` loop of the portable body terminates with the number of
                                  leading zero bits;
* `Target.Sound.floorToPowerOfTwo_eq`, `Target.Sound.ceilToPowerOfTwo_eq`  a target that counts a type in
                                  its own width computes the functions of `Ipcpp.Numeric`;
* `Target.rounds_iff`             and any other one rounds the powers of two only.
-/

namespace Ipcpp
namespace Numeric

/-! ## what rounding is -/

theorem floorToPowerOfTwo_greatest {w v : Nat} (h0 : 0 < v) (hv : v < 2^w) :
    IsGreatest {x : Nat | x.isPowerOfTwo ∧ x ≤ v} (floorToPowerOfTwo w v) := by
  rw [floorToPowerOfTwo_eq h0 hv]
  refine ⟨⟨⟨_, rfl⟩, Nat.log2_self_le h0.ne'⟩, ?_⟩
  rintro _ ⟨⟨k, rfl⟩, hk⟩
  exact Nat.pow_le_pow_right Nat.two_pos ((Nat.le_log2 h0.ne').mpr hk)

theorem not_shiftsByWidth {w v : Nat} (hv : v < 2^w) (hle : v ≤ 2^(w - 1)) : ¬ ShiftsByWidth w v :=
  fun h => absurd ((shiftsByWidth_iff hv).mp h) (Nat.not_lt.mpr hle)

theorem ceilToPowerOfTwo_least {w v : Nat} (h0 : 0 < v) (hv : v < 2^w) (hle : v ≤ 2^(w - 1)) :
    IsLeast {x : Nat | x.isPowerOfTwo ∧ v ≤ x} (ceilToPowerOfTwo w v) := by
  rw [ceilToPowerOfTwo_eq h0 hv (not_shiftsByWidth hv hle)]
  refine ⟨⟨⟨_, rfl⟩, Nat.le_pow_clog Nat.one_lt_two v⟩, ?_⟩
  rintro _ ⟨⟨k, rfl⟩, hk⟩
  exact Nat.pow_le_pow_right Nat.two_pos (Nat.clog_le_of_le_pow hk)

/-! ## leading zeros -/

/-- of the `w` bits of `v`, the first `n` are zero and the next one is not -/
structure LeadingZeros (w v n : Nat) : Prop where
  lt : n < w
  zero : ∀ i < n, v.testBit (w - 1 - i) = false
  one : v.testBit (w - 1 - n) = true

theorem LeadingZeros.not_lt {w v n m : Nat} (h : LeadingZeros w v n) (h' : LeadingZeros w v m) : ¬ n < m := by
  intro hlt
  have hzero := h'.zero n hlt
  rw [h.one] at hzero
  cases hzero

theorem LeadingZeros.unique {w v n m : Nat} (h : LeadingZeros w v n) (h' : LeadingZeros w v m) : n = m :=
  Nat.le_antisymm (Nat.not_lt.mp (h'.not_lt h)) (Nat.not_lt.mp (h.not_lt h'))

theorem leadingZeros_log2 {w v : Nat} (h0 : 0 < v) (hv : v < 2^w) : LeadingZeros w v (w - 1 - v.log2) := by
  have hlog : v.log2 < w := (Nat.log2_lt h0.ne').mpr hv
  refine ⟨by omega, fun i hi => ?_, ?_⟩
  · refine Nat.testBit_lt_two_pow (Nat.lt_of_lt_of_le Nat.lt_log2_self ?_)
    exact Nat.pow_le_pow_right Nat.two_pos (by omega)
  · have hbit : w - 1 - (w - 1 - v.log2) = v.log2 := by omega
    rw [hbit]
    exact Nat.testBit_log2 h0.ne'

theorem countLeadingZero_eq {w v : Nat} (h0 : 0 < v) (hv : v < 2^w) :
    countLeadingZero w v = w - 1 - v.log2 := by
  have hclz := countLeadingZero_add h0 hv
  omega

theorem isGreatest_log2 {v : Nat} (h0 : 0 < v) : IsGreatest {i | v.testBit i = true} v.log2 :=
  ⟨Nat.testBit_log2 h0.ne', fun _ hi => (Nat.le_log2 h0.ne').mpr (Nat.ge_two_pow_of_testBit hi)⟩

/-- the `while` loop of `count_leading_zero`, for at most `fuel` tests of a bit -/
def clzWhile (v : Nat) : Nat → Nat → Nat → Option Nat
  | 0, _, _ => none
  | fuel + 1, count, mask => if v &&& mask = 0 then clzWhile v fuel (count + 1) (mask >>> 1) else some count

/-- `count_leading_zero` without compiler intrinsics -/
def portableCountLeadingZero (fuel w v : Nat) : Option Nat :=
  if v = 0 then some w else clzWhile v fuel 0 (2^(w - 1))

/-- the mask has come to bit `k`, above which all bits of `v` are zero -/
theorem clzWhile_run {v : Nat} (h0 : 0 < v) (k : Nat) : ∀ count fuel, v < 2^(k + 1) → k < fuel →
    clzWhile v fuel count (2^k) = some (count + clzLoop v (k + 1)) := by
  induction k with
  | zero =>
    intro count fuel hv hfuel
    obtain ⟨f, rfl⟩ : ∃ f, fuel = f + 1 := ⟨fuel - 1, by omega⟩
    obtain rfl : v = 1 := by omega
    rfl
  | succ k ih =>
    intro count fuel hv hfuel
    obtain ⟨f, rfl⟩ : ∃ f, fuel = f + 1 := ⟨fuel - 1, by omega⟩
    rw [clzWhile, clzLoop]
    split
    · rename_i hbit
      have htest : v.testBit (k + 1) = false := by
        rw [Nat.and_two_pow] at hbit
        have hpos := Nat.two_pow_pos (k + 1)
        cases h : v.testBit (k + 1) with
        | false => rfl
        | true =>
          rw [h, Bool.toNat_true, Nat.one_mul] at hbit
          omega
      have hlt : v < 2^(k + 1) := by
        by_contra hge
        have hlog : v.log2 = k + 1 := (Nat.log2_eq_iff h0.ne').mpr ⟨by omega, hv⟩
        rw [← hlog, Nat.testBit_log2 h0.ne'] at htest
        cases htest
      have hmask : 2^(k + 1) >>> 1 = 2^k := by
        rw [Nat.shiftRight_one, Nat.pow_succ, Nat.mul_div_cancel _ Nat.two_pos]
      rw [hmask, ih (count + 1) f hlt (by omega), Nat.add_right_comm, Nat.add_assoc]
    · rfl

theorem portableCountLeadingZero_run {fuel w v : Nat} (h0 : 0 < v) (hv : v < 2^w) (hfuel : w ≤ fuel) :
    portableCountLeadingZero fuel w v = some (countLeadingZero w v) := by
  have hclz := countLeadingZero_add h0 hv
  have hw : w - 1 + 1 = w := by omega
  rw [portableCountLeadingZero, if_neg h0.ne', clzWhile_run h0 (w - 1) 0 fuel (hw.symm ▸ hv) (by omega), hw,
    Nat.zero_add, countLeadingZero, if_neg h0.ne']

/-! ## what is compiled -/

/-- which body of `count_leading_zero` is left: the first if `__GNUC__` or `__clang__` is defined, else the
second if `_MSC_VER` is, else the portable one -/
inductive Compiler
  | gnu
  | msvc
  | other
deriving DecidableEq

/-- an unsigned integral type.  The three that `count_leading_zero` names, and any other one (`unsigned
char`, `unsigned short`, `char32_t`, ..) of so many bits. -/
inductive UnsignedType
  | unsignedInt
  | unsignedLong
  | unsignedLongLong
  | other (digits : Nat)

/-- a compiler with the widths of its types and its intrinsics -/
structure Target where
  compiler : Compiler
  intDigits : Nat
  longDigits : Nat
  longLongDigits : Nat
  builtinClz : Nat → Nat
  builtinClzl : Nat → Nat
  builtinClzll : Nat → Nat
  bitScanReverse : Nat → Nat
  bitScanReverse64 : Nat → Nat

namespace Target
variable (t : Target) (T : UnsignedType)

/-- `std::numeric_limits<T_p>::digits` -/
def digits : UnsignedType → Nat
  | .unsignedInt => t.intDigits
  | .unsignedLong => t.longDigits
  | .unsignedLongLong => t.longLongDigits
  | .other digits => digits

/-- the intrinsic that the first body has for a type -/
def builtin : UnsignedType → Option (Nat → Nat)
  | .unsignedInt => some t.builtinClz
  | .unsignedLong => some t.builtinClzl
  | .unsignedLongLong => some t.builtinClzll
  | .other _ => none

/-- `count_leading_zero`, `none` where it comes to its end without a `return`; `sizeof` orders the types by
their width -/
def countLeadingZero (v : Nat) : Option Nat :=
  match t.compiler with
  | .gnu => (t.builtin T).map fun clz => clz v
  | .msvc =>
    if t.digits T ≤ t.intDigits then some (t.intDigits - 1 - t.bitScanReverse (v % 2^t.intDigits))
    else if t.digits T ≤ t.longDigits then some (t.longDigits - 1 - t.bitScanReverse (v % 2^t.longDigits))
    else if t.digits T ≤ t.longLongDigits then
      some (t.longLongDigits - 1 - t.bitScanReverse64 (v % 2^t.longLongDigits))
    else none
  | .other => portableCountLeadingZero (t.digits T) (t.digits T) v

/-- `T_p(1) << n`, undefined unless `0 <= n` and `n` is less than the width of the one, which is an `int` if
`T_p` is narrower -/
def shiftOne (n : Int) : Option Nat :=
  if 0 ≤ n ∧ n < max (t.digits T) t.intDigits then some (2^n.toNat % 2^t.digits T) else none

/-- `floor_to_power_of_two` -/
def floorToPowerOfTwo (v : Nat) : Option Nat :=
  if isPowerOfTwo (t.digits T) v then some v
  else do
    let n ← t.countLeadingZero T v
    t.shiftOne T (t.digits T - n - 1)

/-- `ceil_to_power_of_two` -/
def ceilToPowerOfTwo (v : Nat) : Option Nat :=
  if isPowerOfTwo (t.digits T) v then some v
  else do
    let n ← t.countLeadingZero T v
    t.shiftOne T (t.digits T - n)

/-- the widths are ordered as the language asks, and the intrinsics do what they are documented to do -/
structure Sound : Prop where
  int_le_long : t.intDigits ≤ t.longDigits
  long_le_longLong : t.longDigits ≤ t.longLongDigits
  builtin : ∀ T, ∀ clz ∈ t.builtin T, ∀ v, 0 < v → v < 2^t.digits T → LeadingZeros (t.digits T) v (clz v)
  bitScanReverse : ∀ v, 0 < v → v < 2^t.longDigits → IsGreatest {i | v.testBit i = true} (t.bitScanReverse v)
  bitScanReverse64 : ∀ v, 0 < v → v < 2^t.longLongDigits →
    IsGreatest {i | v.testBit i = true} (t.bitScanReverse64 v)

/-- the body that is compiled has a case for the type, and one that counts in the width of the type -/
def CountsOwnWidth : Prop :=
  (t.compiler = .gnu → (t.builtin T).isSome = true) ∧
  (t.compiler = .msvc → t.digits T = t.intDigits ∨ t.digits T = t.longDigits ∨ t.digits T = t.longLongDigits)

instance : Decidable (t.CountsOwnWidth T) := inferInstanceAs (Decidable ((_ → _) ∧ (_ → _)))

/-- what the functions are documented to return for `v`, and what the portable loop counts -/
structure Rounds (v : Nat) : Prop where
  floor : ∃ x, t.floorToPowerOfTwo T v = some x ∧ IsGreatest {y : Nat | y.isPowerOfTwo ∧ y ≤ v} x
  ceil : v ≤ 2^(t.digits T - 1) →
    ∃ x, t.ceilToPowerOfTwo T v = some x ∧ IsLeast {y : Nat | y.isPowerOfTwo ∧ v ≤ y} x
  loop : ∃ n, LeadingZeros (t.digits T) v n ∧
    (∀ fuel, t.digits T ≤ fuel → portableCountLeadingZero fuel (t.digits T) v = some n) ∧
    (∀ clz ∈ t.builtin T, clz v = n) ∧ (t.CountsOwnWidth T → t.countLeadingZero T v = some n)

section
variable {t : Target} {T : UnsignedType} {v : Nat}

theorem countsOwnWidth_msvc (hc : t.compiler = .msvc) : t.CountsOwnWidth T ↔
    t.digits T = t.intDigits ∨ t.digits T = t.longDigits ∨ t.digits T = t.longLongDigits := by
  simp [CountsOwnWidth, hc]

/-- the second body counts in the width of the first of its three types that is wide enough -/
theorem Sound.scan (hs : t.Sound) (hc : t.compiler = .msvc) (h0 : 0 < v) (hv : v < 2^t.digits T) :
    (t.countLeadingZero T v = none ∧ ¬ t.CountsOwnWidth T) ∨
    ∃ d, t.countLeadingZero T v = some (d - 1 - v.log2) ∧ t.digits T ≤ d ∧
      (t.CountsOwnWidth T ↔ t.digits T = d) := by
  have h1 := hs.int_le_long
  have h2 := hs.long_le_longLong
  have hfits : ∀ {d}, t.digits T ≤ d → v < 2^d := fun hd =>
    Nat.lt_of_lt_of_le hv (Nat.pow_le_pow_right Nat.two_pos hd)
  have hscan : ∀ {d}, t.digits T ≤ d → d ≤ t.longDigits → t.bitScanReverse (v % 2^d) = v.log2 := by
    intro d hd hle
    rw [Nat.mod_eq_of_lt (hfits hd)]
    exact (hs.bitScanReverse v h0 (hfits (hd.trans hle))).unique (isGreatest_log2 h0)
  rw [countsOwnWidth_msvc hc]
  unfold countLeadingZero
  simp only [hc]
  split
  · rename_i hd
    exact .inr ⟨t.intDigits, by rw [hscan hd h1], hd, by omega⟩
  · split
    · rename_i hd
      exact .inr ⟨t.longDigits, by rw [hscan hd (Nat.le_refl _)], hd, by omega⟩
    · split
      · rename_i hd
        have hscan64 : t.bitScanReverse64 (v % 2^t.longLongDigits) = v.log2 := by
          rw [Nat.mod_eq_of_lt (hfits hd)]
          exact (hs.bitScanReverse64 v h0 (hfits hd)).unique (isGreatest_log2 h0)
        exact .inr ⟨t.longLongDigits, by rw [hscan64], hd, by omega⟩
      · exact .inl ⟨rfl, by omega⟩

/-- a target that has a case for the type counts as the portable body does -/
theorem Sound.countLeadingZero_eq (hs : t.Sound) (h0 : 0 < v) (hv : v < 2^t.digits T)
    (hown : t.CountsOwnWidth T) : t.countLeadingZero T v = some (Numeric.countLeadingZero (t.digits T) v) := by
  cases hc : t.compiler with
  | gnu =>
    obtain ⟨clz, hclz⟩ := Option.isSome_iff_exists.mp (hown.1 hc)
    have hcount : clz v = t.digits T - 1 - v.log2 :=
      (hs.builtin T clz hclz v h0 hv).unique (leadingZeros_log2 h0 hv)
    unfold countLeadingZero
    rw [hc, hclz, Numeric.countLeadingZero_eq h0 hv, ← hcount]
    rfl
  | msvc =>
    rcases hs.scan hc h0 hv with ⟨-, hno⟩ | ⟨d, hcount, -, hiff⟩
    · exact absurd hown hno
    · rw [hcount, Numeric.countLeadingZero_eq h0 hv, hiff.mp hown]
  | other =>
    unfold countLeadingZero
    rw [hc]
    exact portableCountLeadingZero_run h0 hv (Nat.le_refl _)

theorem shiftOne_eq {n : Nat} (hn : n < t.digits T) : t.shiftOne T n = some (2^n) := by
  unfold shiftOne
  rw [if_pos ⟨by omega, by omega⟩, Int.toNat_natCast, Nat.mod_eq_of_lt (Nat.pow_lt_pow_right Nat.one_lt_two hn)]

theorem shiftOne_le {n : Int} {x : Nat} (h : t.shiftOne T n = some x) : 0 ≤ n ∧ x ≤ 2^n.toNat := by
  unfold shiftOne at h
  split at h
  · rename_i hn
    obtain rfl := Option.some.inj h
    exact ⟨hn.1, Nat.mod_le _ _⟩
  · cases h

theorem Sound.shift_count (hs : t.Sound) (h0 : 0 < v) (hv : v < 2^t.digits T) (hown : t.CountsOwnWidth T)
    {f : Nat → Int} {n : Nat} (hf : f (Numeric.countLeadingZero (t.digits T) v) = n) (hn : n < t.digits T) :
    ((t.countLeadingZero T v).bind fun m => t.shiftOne T (f m)) = some (2^n % 2^t.digits T) := by
  rw [hs.countLeadingZero_eq h0 hv hown, Option.bind_some, hf, shiftOne_eq hn,
    Nat.mod_eq_of_lt (Nat.pow_lt_pow_right Nat.one_lt_two hn)]

/-- where nothing is counted, or in the width of the type, `floor_to_power_of_two` is the function on widths -/
theorem Sound.floorToPowerOfTwo_eq (hs : t.Sound) (h0 : 0 < v) (hv : v < 2^t.digits T)
    (h : t.CountsOwnWidth T ∨ isPowerOfTwo (t.digits T) v = true) :
    t.floorToPowerOfTwo T v = some (Numeric.floorToPowerOfTwo (t.digits T) v) := by
  unfold floorToPowerOfTwo Numeric.floorToPowerOfTwo
  split
  · rfl
  · rename_i hp
    have hclz := countLeadingZero_add h0 hv
    exact hs.shift_count h0 hv (h.resolve_right hp) (by omega) (by omega)

theorem Sound.ceilToPowerOfTwo_eq (hs : t.Sound) (h0 : 0 < v) (hv : v < 2^t.digits T)
    (hle : v ≤ 2^(t.digits T - 1)) (h : t.CountsOwnWidth T ∨ isPowerOfTwo (t.digits T) v = true) :
    t.ceilToPowerOfTwo T v = some (Numeric.ceilToPowerOfTwo (t.digits T) v) := by
  unfold ceilToPowerOfTwo Numeric.ceilToPowerOfTwo
  split
  · rfl
  · rename_i hp
    have hclz := countLeadingZero_add h0 hv
    have hpos : Numeric.countLeadingZero (t.digits T) v ≠ 0 := fun hzero =>
      not_shiftsByWidth hv hle ⟨Bool.eq_false_iff.mpr hp, hzero⟩
    exact hs.shift_count h0 hv (h.resolve_right hp) (by omega) (by omega)

theorem Sound.floorToPowerOfTwo_lt (hs : t.Sound) (h0 : 0 < v) (hv : v < 2^t.digits T)
    (hown : ¬ t.CountsOwnWidth T) (hp : isPowerOfTwo (t.digits T) v = false) {x : Nat}
    (hx : t.floorToPowerOfTwo T v = some x) : x < 2^v.log2 := by
  unfold floorToPowerOfTwo at hx
  rw [if_neg (Bool.eq_false_iff.mp hp), Option.bind_eq_bind] at hx
  obtain ⟨n, hn, hx⟩ := Option.bind_eq_some_iff.mp hx
  cases hc : t.compiler with
  | gnu =>
    unfold countLeadingZero at hn
    rw [hc] at hn
    obtain ⟨clz, hclz, -⟩ := Option.map_eq_some_iff.mp hn
    exact absurd ⟨fun _ => Option.isSome_iff_exists.mpr ⟨clz, hclz⟩, fun h => by simp [hc] at h⟩ hown
  | msvc =>
    rcases hs.scan hc h0 hv with ⟨hnone, -⟩ | ⟨d, hcount, hd, hiff⟩
    · rw [hnone] at hn
      cases hn
    · have hne : t.digits T ≠ d := fun h => hown (hiff.mpr h)
      have hlog : v.log2 < t.digits T := (Nat.log2_lt h0.ne').mpr hv
      obtain rfl := Option.some.inj (hcount.symm.trans hn)
      obtain ⟨hpos, hle⟩ := shiftOne_le hx
      exact Nat.lt_of_le_of_lt hle (Nat.pow_lt_pow_right Nat.one_lt_two (by omega))
  | other => exact absurd ⟨fun h => by simp [hc] at h, fun h => by simp [hc] at h⟩ hown

/-- **The functions round `v` exactly where `count_leading_zero` counts the type in its own width**, and where
they do not count since `v` is a power of two.  The portable loop counts right in every width. -/
theorem rounds_iff (hs : t.Sound) (h0 : 0 < v) (hv : v < 2^t.digits T) :
    t.Rounds T v ↔ t.CountsOwnWidth T ∨ isPowerOfTwo (t.digits T) v = true := by
  constructor
  · intro h
    by_contra hno
    obtain ⟨hown, hp⟩ := not_or.mp hno
    obtain ⟨x, hx, hgreatest⟩ := h.floor
    have hlt := hs.floorToPowerOfTwo_lt h0 hv hown (Bool.eq_false_iff.mpr hp) hx
    have hle : 2^v.log2 ≤ x := hgreatest.2 ⟨⟨_, rfl⟩, Nat.log2_self_le h0.ne'⟩
    omega
  · intro h
    have hzeros : LeadingZeros (t.digits T) v (Numeric.countLeadingZero (t.digits T) v) :=
      Numeric.countLeadingZero_eq h0 hv ▸ leadingZeros_log2 h0 hv
    exact
      { floor := ⟨_, hs.floorToPowerOfTwo_eq h0 hv h, floorToPowerOfTwo_greatest h0 hv⟩
        ceil := fun hle => ⟨_, hs.ceilToPowerOfTwo_eq h0 hv hle h, ceilToPowerOfTwo_least h0 hv hle⟩
        loop := ⟨_, hzeros, fun fuel hfuel => portableCountLeadingZero_run h0 hv hfuel,
          fun clz hclz => (hs.builtin T clz hclz v h0 hv).unique hzeros, hs.countLeadingZero_eq h0 hv⟩ }

end

/-- GCC or Clang where `unsigned long` has 64 bits -/
def gnuLp64 : Target where
  compiler := .gnu
  intDigits := 32
  longDigits := 64
  longLongDigits := 64
  builtinClz v := 31 - v.log2
  builtinClzl v := 63 - v.log2
  builtinClzll v := 63 - v.log2
  bitScanReverse := Nat.log2
  bitScanReverse64 := Nat.log2

theorem gnuLp64_sound : gnuLp64.Sound where
  int_le_long := by decide
  long_le_longLong := by decide
  builtin T clz hclz v h0 hv := by
    cases T with
    | other digits => cases hclz
    | _ =>
      obtain rfl := Option.some.inj hclz
      exact leadingZeros_log2 h0 hv
  bitScanReverse v h0 _ := isGreatest_log2 h0
  bitScanReverse64 v h0 _ := isGreatest_log2 h0

theorem rounds_iff_unsignedInt : gnuLp64.Rounds .unsignedInt 5 :=
  (rounds_iff gnuLp64_sound (by decide) (by decide)).mpr (.inl (by decide))

/-- an `unsigned char` has no case in the first body -/
theorem unsignedChar_not_rounds :
    gnuLp64.Sound ∧ 0 < 5 ∧ 5 < 2^gnuLp64.digits (.other 8) ∧ gnuLp64.countLeadingZero (.other 8) 5 = none ∧
      gnuLp64.floorToPowerOfTwo (.other 8) 5 = none ∧ ¬ gnuLp64.Rounds (.other 8) 5 := by
  have hnone : gnuLp64.floorToPowerOfTwo (.other 8) 5 = none := by decide
  refine ⟨gnuLp64_sound, by decide, by decide, rfl, hnone, fun h => ?_⟩
  obtain ⟨x, hx, -⟩ := h.floor
  rw [hnone] at hx
  cases hx

end Target

end Numeric
end Ipcpp
