import Mathlib

/-!
# Powers of two in a fixed width (`ipcpp::numeric`)

The functions take the width `w` of the unsigned type as an argument; a value of the type is a natural
number below `2^w`.
-/

namespace Ipcpp
namespace Numeric

/-- the loop of the portable `count_leading_zero`: `k + 1` is the number of bits from the mask down -/
def clzLoop (v : Nat) : Nat → Nat
  | 0 => 0
  | k + 1 => if v &&& 2^k = 0 then clzLoop v k + 1 else 0

/-- `count_leading_zero` -/
def countLeadingZero (w v : Nat) : Nat := if v = 0 then w else clzLoop v w

/-- `is_power_of_two`; `v - 1` wraps at zero -/
def isPowerOfTwo (w v : Nat) : Bool := v &&& ((v + (2^w - 1)) % 2^w) = 0

/-- `ceil_to_power_of_two`.  For `v > 2^(w-1)` the source shifts by the full width, which C++ leaves
undefined; here the bit falls out. -/
def ceilToPowerOfTwo (w v : Nat) : Nat :=
  if isPowerOfTwo w v then v else 2^(w - countLeadingZero w v) % 2^w

/-- `floor_to_power_of_two` -/
def floorToPowerOfTwo (w v : Nat) : Nat :=
  if isPowerOfTwo w v then v else 2^(w - countLeadingZero w v - 1) % 2^w

/-- the test of `is_power_of_two` lets zero through, and nothing else that is not a power of two -/
theorem eq_two_pow_of_and_sub_one {v : Nat} (hv : 0 < v) (h : v &&& (v - 1) = 0) : ∃ k, v = 2^k := by
  refine ⟨v.log2, ?_⟩
  by_contra hne
  -- else `v - 1` has the same highest bit as `v`
  have hle : 2^v.log2 ≤ v := Nat.log2_self_le hv.ne'
  have hlt : v < 2^(v.log2 + 1) := Nat.lt_log2_self
  have hv' : v - 1 ≠ 0 := by
    have := Nat.two_pow_pos v.log2
    omega
  have hlog : (v - 1).log2 = v.log2 := (Nat.log2_eq_iff hv').mpr ⟨by omega, by omega⟩
  have hbit : (v &&& (v - 1)).testBit v.log2 = true := by
    rw [Nat.testBit_and, Nat.testBit_log2 hv.ne', Bool.true_and]
    exact hlog ▸ Nat.testBit_log2 hv'
  rw [h, Nat.zero_testBit] at hbit
  cases hbit

theorem clzLoop_add {v k : Nat} (h0 : 0 < v) (hv : v < 2^k) : clzLoop v k + (v.log2 + 1) = k := by
  induction k with
  | zero => exact absurd hv (by omega)
  | succ k ih =>
    rw [clzLoop, Nat.and_two_pow]
    by_cases hlt : v < 2^k
    · rw [Nat.testBit_lt_two_pow hlt, Bool.toNat_false, Nat.zero_mul, if_pos rfl]
      have := ih hlt
      omega
    · have hlog : v.log2 = k := (Nat.log2_eq_iff h0.ne').mpr ⟨by omega, hv⟩
      have htop : v.testBit k = true := hlog ▸ Nat.testBit_log2 h0.ne'
      have hpos := Nat.two_pow_pos k
      rw [htop, Bool.toNat_true, Nat.one_mul, if_neg hpos.ne', hlog, Nat.zero_add]

theorem countLeadingZero_add {w v : Nat} (h0 : 0 < v) (hv : v < 2^w) :
    countLeadingZero w v + (v.log2 + 1) = w := by
  rw [countLeadingZero, if_neg h0.ne']
  exact clzLoop_add h0 hv

theorem isPowerOfTwo_two_pow {w k : Nat} (hk : k < w) : isPowerOfTwo w (2^k) = true := by
  have hpos := Nat.two_pow_pos k
  have hlt : 2^k < 2^w := Nat.pow_lt_pow_right Nat.one_lt_two hk
  have hwrap : (2^k + (2^w - 1)) % 2^w = 2^k - 1 := by
    rw [show 2^k + (2^w - 1) = (2^k - 1) + 2^w by omega, Nat.add_mod_right, Nat.mod_eq_of_lt (by omega)]
  refine decide_eq_true ?_
  rw [hwrap, Nat.and_two_pow_sub_one_eq_mod, Nat.mod_self]

theorem isPowerOfTwo_iff {w v : Nat} (h0 : 0 < v) (hv : v < 2^w) :
    isPowerOfTwo w v = true ↔ ∃ k < w, v = 2^k := by
  constructor
  · intro hp
    have hwrap : (v + (2^w - 1)) % 2^w = v - 1 := by
      rw [show v + (2^w - 1) = (v - 1) + 2^w by omega, Nat.add_mod_right, Nat.mod_eq_of_lt (by omega)]
    have hand := of_decide_eq_true hp
    rw [hwrap] at hand
    obtain ⟨k, rfl⟩ := eq_two_pow_of_and_sub_one h0 hand
    exact ⟨k, (Nat.pow_lt_pow_iff_right Nat.one_lt_two).mp hv, rfl⟩
  · rintro ⟨k, hk, rfl⟩
    exact isPowerOfTwo_two_pow hk

/-- the shift of `ceil_to_power_of_two` is one by the full width -/
def ShiftsByWidth (w v : Nat) : Prop := isPowerOfTwo w v = false ∧ countLeadingZero w v = 0

instance (w v : Nat) : Decidable (ShiftsByWidth w v) := inferInstanceAs (Decidable (_ ∧ _))

theorem isPowerOfTwo_zero (w : Nat) : isPowerOfTwo w 0 = true := by
  refine decide_eq_true ?_
  rw [Nat.zero_and]

/-- it is one by the full width exactly above the largest power of two of the type -/
theorem shiftsByWidth_iff {w v : Nat} (hv : v < 2^w) : ShiftsByWidth w v ↔ 2^(w - 1) < v := by
  rcases Nat.eq_zero_or_pos v with rfl | h0
  · refine iff_of_false (fun h => ?_) (Nat.not_lt_zero _)
    rw [ShiftsByWidth, isPowerOfTwo_zero] at h
    cases h.1
  · have hclz := countLeadingZero_add h0 hv
    have hself : 2^v.log2 ≤ v := Nat.log2_self_le h0.ne'
    constructor
    · rintro ⟨hpow, hzero⟩
      have hlog : v.log2 = w - 1 := by omega
      refine lt_of_le_of_ne (hlog ▸ hself) fun heq => ?_
      rw [← heq, isPowerOfTwo_two_pow (by omega)] at hpow
      cases hpow
    · intro hlt
      constructor
      · refine Bool.eq_false_iff.mpr fun hp => ?_
        obtain ⟨k, hk, rfl⟩ := (isPowerOfTwo_iff h0 hv).mp hp
        have : w - 1 < k := (Nat.pow_lt_pow_iff_right Nat.one_lt_two).mp hlt
        omega
      · have hle : w - 1 ≤ v.log2 := (Nat.le_log2 h0.ne').mpr hlt.le
        omega

/-- what `ceil_to_power_of_two` returns: a power of two below `2^w`, or zero -/
theorem ceilToPowerOfTwo_cases {w v : Nat} (hv : v < 2^w) :
    ceilToPowerOfTwo w v = 0 ∨ ∃ k < w, ceilToPowerOfTwo w v = 2^k := by
  unfold ceilToPowerOfTwo
  split
  · rename_i hp
    rcases Nat.eq_zero_or_pos v with h0 | h0
    · exact .inl h0
    · exact .inr ((isPowerOfTwo_iff h0 hv).mp hp)
  · rcases Nat.eq_zero_or_pos (countLeadingZero w v) with h0 | h0
    · rw [h0, Nat.sub_zero, Nat.mod_self]
      exact .inl rfl
    · rcases Nat.eq_zero_or_pos w with hw | hw
      · rw [hw, Nat.zero_sub, Nat.pow_zero, Nat.mod_one]
        exact .inl rfl
      · have hk : w - countLeadingZero w v < w := Nat.sub_lt hw h0
        exact .inr ⟨_, hk, Nat.mod_eq_of_lt (Nat.pow_lt_pow_right Nat.one_lt_two hk)⟩

/-- where the shift is defined, `ceil_to_power_of_two` rounds up to a power of two -/
theorem ceilToPowerOfTwo_eq {w v : Nat} (h0 : 0 < v) (hv : v < 2^w) (hshift : ¬ ShiftsByWidth w v) :
    ceilToPowerOfTwo w v = 2^Nat.clog 2 v := by
  unfold ceilToPowerOfTwo
  split
  · rename_i hp
    obtain ⟨k, -, rfl⟩ := (isPowerOfTwo_iff h0 hv).mp hp
    rw [Nat.clog_pow 2 k Nat.one_lt_two]
  · rename_i hp
    have hp : isPowerOfTwo w v = false := Bool.eq_false_iff.mpr hp
    have hclz := countLeadingZero_add h0 hv
    have hpos : countLeadingZero w v ≠ 0 := fun h => hshift ⟨hp, h⟩
    have hexp : w - countLeadingZero w v = v.log2 + 1 := by omega
    have hne : v ≠ 2^v.log2 := by
      intro heq
      rw [heq, isPowerOfTwo_two_pow (by omega)] at hp
      cases hp
    have hlow : v.log2 < Nat.clog 2 v :=
      (Nat.lt_clog_iff_pow_lt Nat.one_lt_two).mpr (lt_of_le_of_ne (Nat.log2_self_le h0.ne') hne.symm)
    have hup : Nat.clog 2 v ≤ v.log2 + 1 := Nat.clog_le_of_le_pow Nat.lt_log2_self.le
    have hclog : Nat.clog 2 v = v.log2 + 1 := by omega
    rw [hexp, hclog, Nat.mod_eq_of_lt (Nat.pow_lt_pow_right Nat.one_lt_two (by omega))]

theorem floorToPowerOfTwo_eq {w v : Nat} (h0 : 0 < v) (hv : v < 2^w) : floorToPowerOfTwo w v = 2^v.log2 := by
  unfold floorToPowerOfTwo
  split
  · rename_i hp
    obtain ⟨k, -, rfl⟩ := (isPowerOfTwo_iff h0 hv).mp hp
    rw [Nat.log2_two_pow]
  · have hclz := countLeadingZero_add h0 hv
    have hexp : w - countLeadingZero w v - 1 = v.log2 := by omega
    rw [hexp, Nat.mod_eq_of_lt (Nat.pow_lt_pow_right Nat.one_lt_two (by omega))]

theorem two_pow_le_floorToPowerOfTwo_iff {w v k : Nat} (h0 : 0 < v) (hv : v < 2^w) :
    2^k ≤ floorToPowerOfTwo w v ↔ 2^k ≤ v := by
  rw [floorToPowerOfTwo_eq h0 hv, Nat.pow_le_pow_iff_right Nat.one_lt_two]
  exact Nat.le_log2 h0.ne'

theorem and_mask {k x : Nat} (hk : k ≤ 64) (hx : x < 2^64) : x &&& (2^64 - 2^k) = x / 2^k * 2^k := by
  have hmask : (2^64 - 2^k : Nat) = (2^(64 - k) - 1) <<< k := by
    rw [Nat.shiftLeft_eq, Nat.sub_mul, Nat.one_mul, ← Nat.pow_add, Nat.sub_add_cancel hk]
  have hdiv : x / 2^k * 2^k = (x >>> k) <<< k := by
    rw [Nat.shiftRight_eq_div_pow, Nat.shiftLeft_eq]
  rw [hmask, hdiv]
  apply Nat.eq_of_testBit_eq
  intro i
  rw [Nat.testBit_and, Nat.testBit_shiftLeft, Nat.testBit_shiftLeft, Nat.testBit_shiftRight,
    Nat.testBit_two_pow_sub_one]
  by_cases hki : i ≥ k
  · have hi : k + (i - k) = i := by omega
    rw [hi]
    by_cases h64 : i < 64
    · have hlt : i - k < 64 - k := by omega
      simp [hki, hlt]
    · have hbit : x.testBit i = false :=
        Nat.testBit_lt_two_pow (Nat.lt_of_lt_of_le hx (Nat.pow_le_pow_right (by decide) (by omega)))
      simp [hbit]
  · simp [hki]

end Numeric
end Ipcpp
