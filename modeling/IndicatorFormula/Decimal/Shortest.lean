import IndicatorFormula.Decimal.Notation

/-!
# Shortest decimals

The shortest decimal that reads back to a given double, written in positional notation. A
decimal reads back when it lies in the interval of numbers that round to the double; the
coarsest decimal grid with a point in that interval gives the digits, and of two such
points the nearer one is taken.
-/

namespace IndicatorFormula.Decimal

/-- The numbers that round to one double, as multiples of a common positive fraction. -/
structure RoundingInterval where
  /-- The unit in which the three numbers count. -/
  unit : Magnitude
  /-- The lower end. -/
  low : Nat
  /-- The double itself. -/
  middle : Nat
  /-- The upper end. -/
  high : Nat
  /-- Whether the two ends round to the double as well. -/
  closed : Bool
  deriving DecidableEq, Repr

namespace RoundingInterval

/-- The interval of a finite double. Below a power of two the neighbour is only half as far
away, except where the numbers are spaced evenly already. -/
def ofBinary (mantissa : Nat) (exponent : Int) : RoundingInterval where
  unit := Magnitude.ofBinary 1 (exponent - 2)
  low := if mantissa = Nat.pow 2 52 ∧ -1074 < exponent then 4 * mantissa - 1 else 4 * mantissa - 2
  middle := 4 * mantissa
  high := 4 * mantissa + 2
  closed := mantissa % 2 = 0

/-- Whether a fraction lies in the interval. -/
def contains (i : RoundingInterval) (m : Magnitude) : Bool :=
  let low := i.low * i.unit.numerator * m.denominator
  let high := i.high * i.unit.numerator * m.denominator
  let point := m.numerator * i.unit.denominator
  if i.closed then low ≤ point && point ≤ high else low < point && point < high

/-- The fraction in the middle of the interval. -/
def center (i : RoundingInterval) : Magnitude :=
  ⟨i.middle * i.unit.numerator, i.unit.denominator⟩

end RoundingInterval

/-- A point of a decimal grid: a count of grid steps, a step being a power of ten. -/
structure GridPoint where
  /-- How many steps. -/
  count : Nat
  /-- The power of ten of a step. -/
  step : Int
  deriving DecidableEq, Repr

/-- A grid point as a fraction. -/
def GridPoint.magnitude (p : GridPoint) : Magnitude := Magnitude.shift ⟨p.count, 1⟩ p.step

/-- The point of the grid that reads back to the double, the nearer one of the two
neighbours if both do, the even one on a tie. -/
def gridPoint? (i : RoundingInterval) (step : Int) : Option GridPoint :=
  let scaled := i.center.shift (-step)
  let below : GridPoint := ⟨scaled.numerator / scaled.denominator, step⟩
  let above : GridPoint := ⟨below.count + 1, step⟩
  let nearest : GridPoint := ⟨roundDiv scaled.numerator scaled.denominator, step⟩
  match i.contains below.magnitude, i.contains above.magnitude with
  | true, true => some nearest
  | true, false => some below
  | false, true => some above
  | false, false => none

/-- The most digits that a double can need. -/
def longestSignificand : Nat := 17

/-- The first grid, from coarse to fine, with a point that reads back. -/
def shortestPoint? (i : RoundingInterval) (leading : Int) : Option GridPoint :=
  (List.range longestSignificand).findSome? fun (digits : Nat) =>
    gridPoint? i (leading - digits)

/-- A grid point in positional notation, without zeros that carry nothing. -/
def GridPoint.text (p : GridPoint) : List Char :=
  let digits := decimalDigits p.count
  positional (dropTrailingZeros digits) (p.step + digits.length - 1)

/-- The shortest decimal that reads back to the double, never with an exponent; a negative
zero keeps its sign. -/
def shortest (x : Float) : String :=
  match Exact.ofFloat x with
  | .nan => nanText
  | .infinite negative => infiniteText negative
  | .finite negative mantissa exponent =>
    if mantissa = 0 then String.ofList (signText negative ++ ['0'])
    else
      let interval := RoundingInterval.ofBinary mantissa exponent
      match shortestPoint? interval (leadingExponent interval.center) with
      | some p => String.ofList (signText negative ++ p.text)
      | none => scientific (longestSignificand - 1) x

end IndicatorFormula.Decimal
