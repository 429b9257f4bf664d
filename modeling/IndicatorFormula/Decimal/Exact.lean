/-!
# Exact values of doubles

A finite double is a whole number times a power of two. Every text form of a number is
computed from that exact value, never from rounded arithmetic.
-/

namespace IndicatorFormula.Decimal

/-- What a double stands for. -/
inductive Exact where
  /-- No number. -/
  | nan
  /-- One of the two infinities. -/
  | infinite (negative : Bool)
  /-- The number whose magnitude is the mantissa times two to the exponent. -/
  | finite (negative : Bool) (mantissa : Nat) (exponent : Int)
  deriving DecidableEq, Repr

/-- The magnitude of a finite double as a fraction with a positive denominator. -/
structure Magnitude where
  /-- The upper part. -/
  numerator : Nat
  /-- The lower part. -/
  denominator : Nat
  deriving DecidableEq, Repr

namespace Exact

/-- Read the three fields of a double: sign, exponent, and fraction. -/
def ofFloat (x : Float) : Exact :=
  let bits := x.toBits.toNat
  let negative := bits / Nat.pow 2 63 == 1
  let exponent : Nat := bits / Nat.pow 2 52 % Nat.pow 2 11
  let fraction := bits % Nat.pow 2 52
  if exponent = 2047 then
    if fraction = 0 then infinite negative else nan
  else if exponent = 0 then finite negative fraction (-1074)
  else finite negative (Nat.pow 2 52 + fraction) (exponent - 1075)

end Exact

/-- A mantissa times a power of two, as a fraction. -/
def Magnitude.ofBinary (mantissa : Nat) (exponent : Int) : Magnitude :=
  if exponent < 0 then ⟨mantissa, Nat.pow 2 (-exponent).toNat⟩
  else ⟨mantissa * Nat.pow 2 exponent.toNat, 1⟩

/-- The whole number that a double stands for, when it stands for one. -/
def wholeNumber? (x : Float) : Option Int :=
  match Exact.ofFloat x with
  | .finite negative mantissa exponent =>
    let m := Magnitude.ofBinary mantissa exponent
    if m.numerator % m.denominator = 0 then
      let n : Int := (m.numerator / m.denominator : Nat)
      some (if negative then -n else n)
    else none
  | _ => none

/-- The fraction of a binary number has a positive denominator. -/
theorem Magnitude.denominator_pos (mantissa : Nat) (exponent : Int) :
    0 < (Magnitude.ofBinary mantissa exponent).denominator := by
  unfold Magnitude.ofBinary
  split
  · exact Nat.two_pow_pos _
  · exact Nat.one_pos

end IndicatorFormula.Decimal
