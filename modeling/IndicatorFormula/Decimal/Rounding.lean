import IndicatorFormula.Decimal.Exact

/-!
# Rounding to decimal places

A fraction is rounded to a whole number, a tie going to the even neighbour, and a positive
fraction to a given count of significant digits.
-/

namespace IndicatorFormula.Decimal

/-- The whole number nearest to a fraction; a tie goes to the even neighbour. -/
def roundDiv (numerator denominator : Nat) : Nat :=
  let quotient := numerator / denominator
  let remainder := numerator % denominator
  if 2 * remainder < denominator then quotient
  else if denominator < 2 * remainder then quotient + 1
  else quotient + quotient % 2

/-- The count of decimal digits of a number; zero has none. -/
def digitCount (n : Nat) : Nat :=
  if n = 0 then 0 else digitCount (n / 10) + 1
termination_by n

/-- The decimal digits of a number, as characters. -/
def decimalDigits (n : Nat) : List Char := Nat.toDigits 10 n

/-- The decimal exponent of a positive fraction: that of its leading digit. -/
def leadingExponent (m : Magnitude) : Int :=
  if m.denominator ≤ m.numerator then digitCount (m.numerator / m.denominator) - 1
  else -digitCount ((m.denominator + m.numerator - 1) / m.numerator - 1)

/-- A fraction times a power of ten. -/
def Magnitude.shift (m : Magnitude) (places : Int) : Magnitude :=
  if places < 0 then ⟨m.numerator, m.denominator * Nat.pow 10 (-places).toNat⟩
  else ⟨m.numerator * Nat.pow 10 places.toNat, m.denominator⟩

/-- A decimal number: digits, the first of them before the point, and an exponent. -/
structure Significand where
  /-- The digits, the leading one first. -/
  digits : List Char
  /-- The power of ten that the leading digit counts. -/
  exponent : Int
  deriving DecidableEq, Repr

/-- A positive fraction rounded to a count of significant digits. -/
def Significand.round (count : Nat) (m : Magnitude) : Significand :=
  let exponent := leadingExponent m
  let scaled := m.shift (count - 1 - exponent)
  let rounded := roundDiv scaled.numerator scaled.denominator
  if Nat.pow 10 count ≤ rounded then ⟨decimalDigits (rounded / 10), exponent + 1⟩
  else ⟨decimalDigits rounded, exponent⟩

end IndicatorFormula.Decimal
