/-!
# Arithmetic of observations

The calculations on series are written once for every kind of number that offers the four
operations, a square root and tests. They run on doubles; on exact fractions, where no
value is undefined or infinite, the same definitions can be reasoned about as mathematics.
-/

namespace IndicatorFormula

/-- Numbers that a series can hold. -/
class Arith (α : Type) extends Add α, Sub α, Mul α, Div α where
  /-- A whole number. -/
  ofNat : Nat → α
  /-- The square root. -/
  sqrt : α → α
  /-- Whether the first number is less than the second. -/
  lt : α → α → Bool
  /-- Whether two numbers are equal; an undefined one is not equal to itself. -/
  eq : α → α → Bool
  /-- Whether the value is no number. -/
  isNaN : α → Bool
  /-- Whether the value is a number and not infinite. -/
  isFinite : α → Bool

instance : Arith Float where
  ofNat n := n.toFloat
  sqrt := Float.sqrt
  lt := Float.lt
  eq := Float.beq
  isNaN := Float.isNaN
  isFinite := Float.isFinite

namespace Arith

variable {α : Type} [Arith α]

/-- Zero. -/
def zero : α := ofNat 0

/-- One. -/
def one : α := ofNat 1

/-- One half. -/
def half : α := one / ofNat 2

/-- A hundred, the scale of percentages. -/
def hundred : α := ofNat 100

/-- Whether a number is zero. -/
def isZero (x : α) : Bool := eq x zero

/-- The number without its sign. -/
def abs (x : α) : α := if lt x zero then zero - x else x

/-- The number held between two bounds. -/
def clamp (low high x : α) : α := if lt x low then low else if lt high x then high else x

/-- The larger of two numbers, the first if they are equal or cannot be compared. -/
def larger (x y : α) : α := if lt x y then y else x

/-- The smaller of two numbers, the first if they are equal or cannot be compared. -/
def smaller (x y : α) : α := if lt y x then y else x

/-- The largest of some numbers. -/
def maximum? : List α → Option α
  | [] => none
  | x :: xs => some (xs.foldl larger x)

/-- The smallest of some numbers. -/
def minimum? : List α → Option α
  | [] => none
  | x :: xs => some (xs.foldl smaller x)

/-- The sum from left to right. -/
def runningSum (xs : List α) : α := xs.foldl (· + ·) zero

/-- Eight running totals, combined in pairs. -/
def combineLanes : List α → α
  | [a, b, c, d, e, f, g, h] => ((a + b) + (c + d)) + ((e + f) + (g + h))
  | xs => runningSum xs

/-- Add numbers to eight running totals in turn; those left over are added at the end. -/
def laneSum (lanes xs : List α) : α :=
  if 8 ≤ xs.length then laneSum (List.zipWith (· + ·) lanes (xs.take 8)) (xs.drop 8)
  else xs.foldl (· + ·) (combineLanes lanes)
termination_by xs.length
decreasing_by simp only [List.length_drop]; omega

/-- The sum of some numbers: short rows from left to right, longer ones in eight lanes, and
rows beyond a block as the sum of two halves, which keeps the rounding error small. -/
def sum (xs : List α) : α :=
  if xs.length < 8 then runningSum xs
  else if xs.length ≤ 128 then laneSum (xs.take 8) (xs.drop 8)
  else
    let middle := xs.length / 2 - xs.length / 2 % 8
    sum (xs.take middle) + sum (xs.drop middle)
termination_by xs.length
decreasing_by
  · simp only [List.length_take]; omega
  · simp only [List.length_drop]; omega

/-- The arithmetic mean. -/
def mean (xs : List α) : α := sum xs / ofNat xs.length

/-- The sum of products of paired numbers. -/
def dot (xs ys : List α) : α := sum (List.zipWith (· * ·) xs ys)

/-- The distances of some numbers from their mean. -/
def deviations (xs : List α) : List α :=
  let center := mean xs
  xs.map (· - center)

/-- The numbers among some values, leaving out what is undefined. -/
def numbers (xs : List α) : List α := xs.filter fun x => !isNaN x

end Arith

end IndicatorFormula
