/-!
# CompactDisc.Rounding

**Nearest values with a fixed number of significant bits**, in exact integer arithmetic.

Lengths and positions of sampled sound are converted between frames, milliseconds and bytes through
binary fractions of 53 significant bits, and volumes are handed on with 24. Both are the same rule:
take the two neighbours on the grid of that many bits, choose the nearer, and of two equally near
ones the even.

Design points:

* A value is a `Fraction` of two naturals, so that nothing is lost between two roundings and every
  result can be computed by the kernel.
* `Fraction.scaled` gives the integer significand and the power of two; `Fraction.nearest` is the
  same value as a fraction again.
-/

namespace CompactDisc

/-- A non-negative fraction. The denominators built here are positive. -/
structure Fraction where
  num : Nat
  den : Nat
  deriving DecidableEq, Repr

/-- The integer nearest to `n / d`; of two equally near ones the even. -/
def divHalfEven (n d : Nat) : Nat :=
  let q := n / d
  let r := n % d
  if d < 2 * r ∨ (2 * r = d ∧ q % 2 = 1) then q + 1 else q

/-- An exact quotient is its own nearest integer. -/
@[simp] theorem divHalfEven_mul_left (q d : Nat) (hd : 0 < d) : divHalfEven (d * q) d = q := by
  have h : d * q % d = 0 := Nat.mul_mod_right d q
  simp only [divHalfEven, Nat.mul_div_cancel_left q hd, h]
  rw [if_neg (by omega)]

namespace Fraction

/-- The whole number `n`. -/
def ofNat (n : Nat) : Fraction := ⟨n, 1⟩

/-- The product, not reduced. -/
def mul (x y : Fraction) : Fraction := ⟨x.num * y.num, x.den * y.den⟩

/-- The quotient, not reduced. -/
def div (x y : Fraction) : Fraction := ⟨x.num * y.den, x.den * y.num⟩

/-- The greatest whole number below or at the value. -/
def floor (x : Fraction) : Nat := x.num / x.den

/-- What is left of the value without its whole part. -/
def fract (x : Fraction) : Fraction := ⟨x.num % x.den, x.den⟩

/-- The nearest whole number; a half goes up. -/
def round (x : Fraction) : Nat := (2 * x.num + x.den) / (2 * x.den)

@[simp] theorem floor_ofNat (n : Nat) : (ofNat n).floor = n := by simp [floor, ofNat]

@[simp] theorem round_ofNat (n : Nat) : (ofNat n).round = n := by
  simp only [round, ofNat]
  omega

/-- The significand and exponent of the nearest value with `bits` significant bits: the value is
`q * 2 ^ e`, and for a positive `x` the significand `q` lies between `2 ^ (bits - 1)` and
`2 ^ bits`. -/
def scaled (bits : Nat) (x : Fraction) : Nat × Int :=
  let up := bits + x.den.log2
  let down := x.num.log2 + 1
  let n := x.num <<< up
  let d := x.den <<< down
  if n < d <<< (bits - 1) then
    (divHalfEven (2 * n) d, (down : Int) - (up + 1))
  else
    (divHalfEven n d, (down : Int) - up)

/-- The nearest value with `bits` significant bits. -/
def nearest (bits : Nat) (x : Fraction) : Fraction :=
  let s := x.scaled bits
  ⟨s.1 <<< s.2.toNat, 1 <<< (-s.2).toNat⟩

@[simp] theorem nearest_zero (bits d : Nat) : (nearest bits ⟨0, d⟩).num = 0 := by
  simp only [nearest, scaled, Nat.zero_shiftLeft, Nat.mul_zero]
  split <;> simp [divHalfEven]

end Fraction

end CompactDisc
