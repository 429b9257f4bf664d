import IndicatorFormula.Series.Basic
import IndicatorFormula.Series.DataError

/-!
# The fitted line

The straight line that fits the values best by least squares, the places 0, 1, 2 and so on
being the other axis, and the share of the variance that it explains.
-/

namespace IndicatorFormula.Series

variable {α : Type}

/-- Refuse a series with too few points. -/
def require (minimum : Nat) (s : Series α) : Except DataError Unit :=
  if s.length < minimum then .error (.needsPoints minimum s.length) else .ok ()

theorem require_of_le {minimum : Nat} {s : Series α} (h : minimum ≤ s.length) :
    require minimum s = .ok () := if_neg (by omega)

/-- A straight line. -/
structure Line (α : Type) where
  /-- The rise from one place to the next. -/
  slope : α
  /-- The value at place 0. -/
  intercept : α
  deriving Repr

variable [Arith α]

/-- The places of a count of values. -/
def places (n : Nat) : List α := (List.range n).map Arith.ofNat

/-- The line through some values that is best by least squares. -/
def fittedLine (ys : List α) : Line α :=
  let xs : List α := places ys.length
  let dx := Arith.deviations xs
  let slope := Arith.dot dx (Arith.deviations ys) / Arith.dot dx dx
  ⟨slope, Arith.mean ys - slope * Arith.mean xs⟩

/-- The sum of squares. -/
def sumOfSquares (xs : List α) : α := Arith.sum (xs.map fun x => x * x)

/-- The distances of some values from a line. -/
def residuals (line : Line α) (ys : List α) : List α :=
  List.zipWith (fun x y => y - (line.intercept + line.slope * x)) (places ys.length) ys

/-- The slope of the fitted line. -/
def fittedSlope (s : Series α) : Except DataError α := do
  require 2 s
  return (fittedLine s.values).slope

/-- The share of the variance that the fitted line explains. -/
def explainedShare (s : Series α) : Except DataError α := do
  require 2 s
  let ys := s.values
  let total := sumOfSquares (Arith.deviations ys)
  if Arith.isZero total then .error .zeroVariance
  else .ok (Arith.one - sumOfSquares (residuals (fittedLine ys) ys) / total)

/-- The slope of two points or more is that of the fitted line. -/
theorem fittedSlope_eq {s : Series α} (h : 2 ≤ s.length) :
    s.fittedSlope = .ok (fittedLine s.values).slope := by
  rw [fittedSlope, require_of_le h]
  rfl

/-- A share is refused just when the sum of squares is zero. -/
theorem explainedShare_eq {s : Series α} (h : 2 ≤ s.length) :
    s.explainedShare = if Arith.isZero (sumOfSquares (Arith.deviations s.values)) then
        .error .zeroVariance
      else .ok (Arith.one - sumOfSquares (residuals (fittedLine s.values) s.values) /
        sumOfSquares (Arith.deviations s.values)) := by
  rw [explainedShare, require_of_le h]
  rfl

end IndicatorFormula.Series
