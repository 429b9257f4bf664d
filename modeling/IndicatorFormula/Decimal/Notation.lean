import IndicatorFormula.Decimal.Rounding

/-!
# Number notations with a fixed precision

Two ways to write a double with a given count of significant digits: scientific notation,
which keeps every digit and shows the exponent, and general notation, which drops trailing
zeros and shows an exponent only for very small and very large numbers.
-/

namespace IndicatorFormula.Decimal

/-- An exponent with its sign and at least two digits. -/
def exponentText (e : Int) : List Char :=
  let digits := decimalDigits e.natAbs
  (if e < 0 then '-' else '+') :: (List.replicate (2 - digits.length) '0' ++ digits)

/-- Digits with a point behind the first one; a single digit has no point. -/
def pointed : List Char → List Char
  | [] => []
  | [c] => [c]
  | c :: rest => c :: '.' :: rest

/-- The digits without trailing zeros. -/
def dropTrailingZeros (cs : List Char) : List Char := (cs.reverse.dropWhile (· = '0')).reverse

/-- The text of a value that is no number. -/
def nanText : String := "nan"

/-- The text of an infinity, with its sign. -/
def infiniteText (negative : Bool) : String := if negative then "-inf" else "inf"

/-- A minus sign where one is due. -/
def signText (negative : Bool) : List Char := if negative then ['-'] else []

/-- Scientific notation with a count of digits behind the point; a zero has no sign. -/
def scientific (places : Nat) (x : Float) : String :=
  match Exact.ofFloat x with
  | .nan => nanText
  | .infinite negative => infiniteText negative
  | .finite negative mantissa exponent =>
    if mantissa = 0 then
      String.ofList (pointed (List.replicate (places + 1) '0') ++ 'e' :: exponentText 0)
    else
      let s := Significand.round (places + 1) (Magnitude.ofBinary mantissa exponent)
      String.ofList (signText negative ++ pointed s.digits ++ 'e' :: exponentText s.exponent)

/-- Digits in positional notation, the first of them counting the given power of ten. -/
def positional (digits : List Char) (exponent : Int) : List Char :=
  if exponent < 0 then
    '0' :: '.' :: (List.replicate (-exponent - 1).toNat '0' ++ digits)
  else
    let whole := exponent.toNat + 1
    if digits.length ≤ whole then digits ++ List.replicate (whole - digits.length) '0'
    else digits.take whole ++ '.' :: digits.drop whole

/-- General notation with a count of significant digits: positional from a ten-thousandth
up to that many digits before the point, and scientific beyond. -/
def general (precision : Nat) (x : Float) : String :=
  match Exact.ofFloat x with
  | .nan => nanText
  | .infinite negative => infiniteText negative
  | .finite negative mantissa exponent =>
    if mantissa = 0 then String.ofList (signText negative ++ ['0'])
    else
      let s := Significand.round precision (Magnitude.ofBinary mantissa exponent)
      let digits := dropTrailingZeros s.digits
      String.ofList (signText negative ++
        if -4 ≤ s.exponent ∧ s.exponent < precision then positional digits s.exponent
        else pointed digits ++ 'e' :: exponentText s.exponent)

end IndicatorFormula.Decimal
