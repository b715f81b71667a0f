import CompactDisc.Rounding
import Mathlib.Algebra.Order.Floor.Semifield
import Mathlib.Data.Rat.Floor
import Mathlib.Tactic.FieldSimp
import Mathlib.Tactic.Linarith
import Mathlib.Tactic.Positivity
import Mathlib.Tactic.Ring

/-!
# CompactDisc.Proofs.Pcm.Rounding

**How far a rounded value is from the exact one.** A `Fraction` stands for a rational number
(`Fraction.value`), and its whole part and its nearest whole number are those of that number. Rounding to
a number of significant bits moves a value by a share of it (`Fraction.abs_nearest_sub_le`), and never
below a whole number that it has reached (`Fraction.le_nearest`). The second is not a case of the first:
a value that is barely above a whole number stays above it.

Proof shape: all of it is read off the integer significand, which has at least so many bits
(`Fraction.exists_scaled`).
-/

namespace CompactDisc

/-! ### Quotients -/

theorem div_le_divHalfEven (n d : Nat) : n / d ≤ divHalfEven n d := by
  unfold divHalfEven
  dsimp only
  split <;> omega

/-- The nearest whole number is at most a half away. -/
theorem abs_divHalfEven_sub_le (n : Nat) {d : Nat} (hd : 0 < d) :
    |(divHalfEven n d : ℚ) - n / d| ≤ 1 / 2 := by
  have hpos : (0 : ℚ) < d := by exact_mod_cast hd
  have hn : n = d * (n / d) + n % d := (Nat.div_add_mod n d).symm
  have hlt := Nat.mod_lt n hd
  have hbounds : 2 * n ≤ 2 * (divHalfEven n d * d) + d ∧ 2 * (divHalfEven n d * d) ≤ 2 * n + d := by
    unfold divHalfEven
    dsimp only
    split
    · rw [Nat.add_mul, Nat.mul_comm (n / d)]
      omega
    · rw [Nat.mul_comm (n / d)]
      omega
  have hlow : (2 * n : ℚ) ≤ 2 * (divHalfEven n d * d) + d := by exact_mod_cast hbounds.1
  have hhigh : (2 * (divHalfEven n d * d) : ℚ) ≤ 2 * n + d := by exact_mod_cast hbounds.2
  rw [abs_le]
  constructor
  · rw [neg_le_sub_iff_le_add, div_le_iff₀ hpos]
    linarith
  · rw [sub_le_iff_le_add, ← sub_le_iff_le_add', le_div_iff₀ hpos]
    linarith

namespace Fraction

/-- The number that a fraction stands for. -/
def value (x : Fraction) : ℚ := x.num / x.den

@[simp] theorem value_ofNat (n : Nat) : (ofNat n).value = n := by
  simp [value, ofNat]

@[simp] theorem value_mul (x y : Fraction) : (x.mul y).value = x.value * y.value := by
  simp [value, mul, mul_div_mul_comm]

@[simp] theorem value_div (x y : Fraction) : (x.div y).value = x.value / y.value := by
  simp [value, div, div_div_div_eq]

theorem value_nonneg (x : Fraction) : 0 ≤ x.value := by
  unfold value
  positivity

theorem floor_eq (x : Fraction) : x.floor = ⌊x.value⌋₊ := (Nat.floor_div_eq_div _ _).symm

theorem round_eq {x : Fraction} (hden : 0 < x.den) : x.round = ⌊x.value + 1 / 2⌋₊ := by
  have hpos : (0 : ℚ) < x.den := by exact_mod_cast hden
  have hvalue : x.value + 1 / 2 = ((2 * x.num + x.den : Nat) : ℚ) / (2 * x.den : Nat) := by
    unfold value
    push_cast
    field_simp
  rw [hvalue, Nat.floor_div_eq_div]
  rfl

theorem value_fract {x : Fraction} (hden : 0 < x.den) : x.fract.value = x.value - x.floor := by
  have hpos : (0 : ℚ) < x.den := by exact_mod_cast hden
  have hnum : (x.num : ℚ) = x.den * (x.num / x.den : Nat) + (x.num % x.den : Nat) := by
    exact_mod_cast (Nat.div_add_mod x.num x.den).symm
  unfold value fract floor
  rw [hnum]
  field_simp
  ring

/-! ### Significant bits -/

theorem two_pow_eq {bits : Nat} (hbits : 0 < bits) : 2 ^ bits = 2 * 2 ^ (bits - 1) := by
  rw [← Nat.pow_succ', Nat.succ_eq_add_one, Nat.sub_add_cancel hbits]

/-- A power of two is what lies above the fraction bar over what lies below it. -/
theorem two_zpow_eq (e : Int) : (2 : ℚ) ^ e = 2 ^ e.toNat / 2 ^ (-e).toNat := by
  rw [eq_div_iff (by positivity), ← zpow_natCast, ← zpow_natCast, ← zpow_add₀ (by norm_num)]
  congr 1
  omega

theorem value_nearest (bits : Nat) (x : Fraction) :
    (nearest bits x).value = (x.scaled bits).1 * 2 ^ (x.scaled bits).2 := by
  rw [two_zpow_eq]
  simp only [value, nearest, Nat.shiftLeft_eq]
  push_cast
  ring

theorem den_nearest_pos (bits : Nat) (x : Fraction) : 0 < (nearest bits x).den := by
  simp only [nearest, Nat.shiftLeft_eq, Nat.one_mul]
  positivity

/-- The significand is the nearest whole number to the value on the scale of the exponent, and on that
scale the value has the bits asked for. -/
theorem exists_scaled {bits : Nat} {x : Fraction} (hbits : 0 < bits) (hnum : 0 < x.num)
    (hden : 0 < x.den) :
    ∃ n d : Nat, 0 < d ∧ (x.scaled bits).1 = divHalfEven n d ∧
      x.value = n / d * 2 ^ (x.scaled bits).2 ∧ 2 ^ (bits - 1) * d ≤ n := by
  have hpos : (0 : ℚ) < x.den := by exact_mod_cast hden
  have hvalue : ∀ a b : Nat, x.value =
      (x.num * 2 ^ a : Nat) / (x.den * 2 ^ b : Nat) * 2 ^ ((b : Int) - a) := by
    intro a b
    rw [zpow_sub₀ (by norm_num), zpow_natCast, zpow_natCast]
    push_cast
    unfold value
    field_simp
  have hscaled : 0 < x.den * 2 ^ (x.num.log2 + 1) := by positivity
  unfold scaled
  simp only [Nat.shiftLeft_eq]
  split
  · -- one more bit is taken, and the value is at least half the power that it stays below
    refine ⟨_, _, hscaled, rfl, ?_, ?_⟩
    · rw [Nat.mul_left_comm, ← Nat.pow_succ', hvalue (bits + x.den.log2).succ (x.num.log2 + 1)]
      push_cast
      rfl
    · have hlow : 2 ^ x.num.log2 ≤ x.num := Nat.log2_self_le (Nat.ne_of_gt hnum)
      have hhigh : x.den ≤ 2 ^ (x.den.log2 + 1) := Nat.le_of_lt Nat.lt_log2_self
      calc 2 ^ (bits - 1) * (x.den * 2 ^ (x.num.log2 + 1))
          = x.den * (2 ^ bits * 2 ^ x.num.log2) := by
            rw [two_pow_eq hbits]
            ring
        _ ≤ 2 ^ (x.den.log2 + 1) * (2 ^ bits * x.num) :=
            Nat.mul_le_mul hhigh (Nat.mul_le_mul_left _ hlow)
        _ = 2 * (x.num * 2 ^ (bits + x.den.log2)) := by ring
  · rename_i hreached
    refine ⟨_, _, hscaled, rfl, ?_, ?_⟩
    · rw [hvalue (bits + x.den.log2) (x.num.log2 + 1), Nat.cast_add, Nat.cast_add]
    · rw [Nat.mul_comm]
      exact Nat.not_lt.mp hreached

/-- Nothing is rounded to nothing. -/
theorem value_nearest_of_zero {bits : Nat} {x : Fraction} (hnum : x.num = 0) :
    (nearest bits x).value = 0 := by
  obtain ⟨num, den⟩ := x
  obtain rfl : num = 0 := hnum
  simp [value]

/-- **A rounded value** is away from the exact one by at most a share of it. -/
theorem abs_nearest_sub_le {bits : Nat} {x : Fraction} (hbits : 0 < bits) (hden : 0 < x.den) :
    |(nearest bits x).value - x.value| ≤ x.value / 2 ^ bits := by
  rcases Nat.eq_zero_or_pos x.num with hnum | hnum
  · rw [value_nearest_of_zero hnum]
    simp [value, hnum]
  · obtain ⟨n, d, hd, hsignificand, hvalue, hbound⟩ := exists_scaled hbits hnum hden
    have herror := abs_divHalfEven_sub_le n hd
    have hd' : (0 : ℚ) < d := by exact_mod_cast hd
    have hscale : (0 : ℚ) < 2 ^ (x.scaled bits).2 := zpow_pos (by norm_num) _
    have hbound' : (2 : ℚ) ^ bits * d ≤ 2 * n := by
      have h : 2 ^ bits * d ≤ 2 * n := by
        rw [two_pow_eq hbits, Nat.mul_assoc]
        exact Nat.mul_le_mul_left 2 hbound
      exact_mod_cast h
    rw [value_nearest, hsignificand, hvalue, ← sub_mul, abs_mul, abs_of_pos hscale, mul_div_right_comm]
    refine mul_le_mul_of_nonneg_right (le_trans herror ?_) (le_of_lt hscale)
    rw [div_div, div_le_div_iff₀ (by norm_num) (by positivity)]
    linarith

/-- A value that has reached a whole number does not fall below it. -/
theorem le_nearest {bits m : Nat} {x : Fraction} (hbits : 0 < bits) (hden : 0 < x.den)
    (hm : m ≤ 2 ^ bits) (h : (m : ℚ) ≤ x.value) : (m : ℚ) ≤ (nearest bits x).value := by
  rcases Nat.eq_zero_or_pos x.num with hnum | hnum
  · rw [value_nearest_of_zero hnum]
    simpa [value, hnum] using h
  · obtain ⟨n, d, hd, hsignificand, hvalue, hbound⟩ := exists_scaled hbits hnum hden
    have hd' : (0 : ℚ) < d := by exact_mod_cast hd
    have hquotient := div_le_divHalfEven n d
    rw [value_nearest, hsignificand]
    rw [hvalue] at h
    generalize (x.scaled bits).2 = e at h
    rcases le_or_gt e 0 with he | he
    · -- the whole number is one on the scale too
      obtain ⟨k, rfl⟩ : ∃ k : Nat, e = -k := ⟨(-e).toNat, by omega⟩
      have hk : (0 : ℚ) < 2 ^ k := by positivity
      rw [zpow_neg, zpow_natCast, ← div_eq_mul_inv, le_div_iff₀ hk] at h ⊢
      rw [le_div_iff₀ hd'] at h
      have hwhole : m * 2 ^ k ≤ n / d := by
        rw [Nat.le_div_iff_mul_le hd]
        exact_mod_cast h
      exact_mod_cast Nat.le_trans hwhole hquotient
    · -- the value is above all the numbers in question
      obtain ⟨k, rfl⟩ : ∃ k : Nat, e = k := ⟨e.toNat, by omega⟩
      have hbits' : 2 ^ (bits - 1) ≤ n / d := (Nat.le_div_iff_mul_le hd).mpr hbound
      have htwo : 2 ≤ 2 ^ k := Nat.le_self_pow (by omega) 2
      rw [zpow_natCast]
      have hall : m ≤ divHalfEven n d * 2 ^ k := by
        calc m ≤ 2 ^ (bits - 1) * 2 := by
              rw [Nat.mul_comm, ← two_pow_eq hbits]
              exact hm
          _ ≤ divHalfEven n d * 2 ^ k := Nat.mul_le_mul (Nat.le_trans hbits' hquotient) htwo
      exact_mod_cast hall

/-! ### Whole numbers -/

/-- The whole part stays, where the share that the value may be moved by does not reach further. -/
theorem floor_nearest {bits m : Nat} {x : Fraction} (hbits : 0 < bits) (hden : 0 < x.den)
    (hm : m ≤ 2 ^ bits) (hlow : (m : ℚ) ≤ x.value)
    (hhigh : x.value + x.value / 2 ^ bits < m + 1) : (nearest bits x).floor = m := by
  rw [floor_eq, Nat.floor_eq_iff (value_nonneg _)]
  have herror := (abs_le.mp (abs_nearest_sub_le hbits hden)).2
  exact ⟨le_nearest hbits hden hm hlow, by linarith⟩

/-- The nearest whole number stays, where the share that the value may be moved by does not reach a
half. -/
theorem round_nearest {bits m : Nat} {x : Fraction} (hbits : 0 < bits) (hden : 0 < x.den)
    (hnear : |x.value - m| + x.value / 2 ^ bits < 1 / 2) : (nearest bits x).round = m := by
  have hnonneg := value_nonneg (nearest bits x)
  rw [round_eq (den_nearest_pos bits x), Nat.floor_eq_iff (by linarith)]
  have herror := abs_le.mp (abs_nearest_sub_le hbits hden)
  have hm := abs_le.mp (le_refl |x.value - m|)
  constructor
  · linarith [herror.1, hm.1]
  · linarith [herror.2, hm.2]

end Fraction

end CompactDisc
