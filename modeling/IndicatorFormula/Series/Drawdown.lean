import IndicatorFormula.Series.Regression

/-!
# Drawdown

The largest fall of a series below the highest value it had reached, in percent of that
value. Peaks of zero are left out, since a fall from zero has no percentage.
-/

namespace IndicatorFormula.Series

variable {α : Type} [Arith α]

/-- The fall from a peak in percent of its size. -/
def fallFrom (peak x : α) : α := (peak - x) / Arith.abs peak * Arith.hundred

/-- The falls of successive values below the running peak, given the peak so far. An
undefined value stands for its own fall and leaves the peak as it was. -/
def falls (peak : Option α) : List α → List α
  | [] => []
  | x :: rest =>
    if Arith.isNaN x then x :: falls peak rest
    else
      let top := match peak with
        | none => x
        | some p => Arith.larger p x
      if Arith.isZero top then falls (some top) rest
      else fallFrom top x :: falls (some top) rest

/-- The largest of some falls and zero; undefined only if all falls are. -/
def largestFall : List α → α
  | [] => Arith.zero
  | fall :: rest =>
    match Arith.maximum? (Arith.numbers (fall :: rest)) with
    | none => fall
    | some largest => Arith.larger largest Arith.zero

/-- The largest fall from a running peak. -/
def deepestFall (s : Series α) : Except DataError α := do
  require 1 s
  return largestFall (falls none s.values)

end IndicatorFormula.Series
