import IndicatorFormula.Series.Regression
import IndicatorFormula.Series.Window

/-!
# Returns and their ratios

The return of a point is its change relative to the point before; points with a base of
zero are left out. The two ratios compare the mean return above a risk-free rate with the
spread of the returns, one counting the whole spread and one only the shortfalls.
-/

namespace IndicatorFormula.Series

variable {α : Type} [Arith α]

/-- The changes from point to point relative to the earlier one. -/
def pointReturns (s : Series α) : Series α := relativeChanges 1 s

/-- The returns, of which there has to be at least one. -/
def returns (s : Series α) : Except DataError (List α) := do
  require 2 s
  match (pointReturns s).values with
  | [] => .error .noReturns
  | rs => .ok rs

/-- The square root of the mean square. -/
def rootMeanSquare (xs : List α) : α := Arith.sqrt (sumOfSquares xs / Arith.ofNat xs.length)

/-- The mean return above the risk-free rate in units of the deviation of the returns. -/
def sharpeRatio (s : Series α) (rate : α) : Except DataError α := do
  let rs ← returns s
  let deviation := rootMeanSquare (Arith.deviations rs)
  if Arith.isZero deviation then .error .zeroDeviation
  else .ok ((Arith.mean rs - rate) / deviation)

/-- The returns below the rate, less the rate. -/
def shortfalls (rate : α) (rs : List α) : List α :=
  (rs.map (· - rate)).filter fun x => Arith.lt x Arith.zero

/-- The mean return above the risk-free rate in units of the downside deviation. -/
def sortinoRatio (s : Series α) (rate : α) : Except DataError α := do
  let rs ← returns s
  match shortfalls rate rs with
  | [] => .error .noShortfall
  | below =>
    let deviation := rootMeanSquare below
    if Arith.isZero deviation then .error .vanishingShortfall
    else .ok ((Arith.mean rs - rate) / deviation)

end IndicatorFormula.Series
