import IndicatorFormula.Function.Value
import IndicatorFormula.Text.Case

/-!
# The functions

The functions that a formula can call, each with what its places take and the shape of
its result. There are no others: a formula cannot define a function.
-/

namespace IndicatorFormula

/-- A function of the library. -/
inductive Function where
  /-- The mean of a series. -/
  | avg
  /-- Where a series meets a condition. -/
  | booleanSignal
  /-- The count of points. -/
  | count
  /-- The slope of the fitted line. -/
  | linearRegressionSlope
  /-- The largest value. -/
  | max
  /-- The largest fall from a peak. -/
  | maxDrawdown
  /-- The smallest value. -/
  | min
  /-- The difference to an earlier value. -/
  | momentum
  /-- The share of the variance that the fitted line explains. -/
  | rSquared
  /-- The change in percent of an earlier value. -/
  | roc
  /-- The correlation of two series over trailing windows. -/
  | rollingCorrelation
  /-- A series without its season. -/
  | seasonalAdjustment
  /-- The mean excess return over the deviation of returns. -/
  | sharpeRatio
  /-- The mean excess return over the downside deviation. -/
  | sortinoRatio
  /-- The place of each value in the range of its trailing window. -/
  | stochasticOscillator
  /-- The sum of a series. -/
  | sum
  /-- The weighted mean of several series. -/
  | weightedIndex
  deriving DecidableEq, Repr

namespace Function

/-- All functions in the order of their names. -/
def all : List Function := [
  avg, booleanSignal, count, linearRegressionSlope, max, maxDrawdown, min, momentum, roc,
  rollingCorrelation, rSquared, seasonalAdjustment, sharpeRatio, sortinoRatio,
  stochasticOscillator, sum, weightedIndex]

/-- The name of a function, in capitals. -/
def name : Function → String
  | avg => "AVG"
  | booleanSignal => "BOOLEAN_SIGNAL"
  | count => "COUNT"
  | linearRegressionSlope => "LINEAR_REGRESSION_SLOPE"
  | max => "MAX"
  | maxDrawdown => "MAX_DRAWDOWN"
  | min => "MIN"
  | momentum => "MOMENTUM"
  | rSquared => "R_SQUARED"
  | roc => "ROC"
  | rollingCorrelation => "ROLLING_CORRELATION"
  | seasonalAdjustment => "SEASONAL_ADJUSTMENT"
  | sharpeRatio => "SHARPE_RATIO"
  | sortinoRatio => "SORTINO_RATIO"
  | stochasticOscillator => "STOCHASTIC_OSCILLATOR"
  | sum => "SUM"
  | weightedIndex => "WEIGHTED_INDEX"

/-- What the places for arguments take. -/
def slots : Function → List Slot
  | avg | count | max | min | sum => [.series]
  | linearRegressionSlope | rSquared | maxDrawdown | seasonalAdjustment => [.series]
  | momentum | roc | stochasticOscillator => [.series, .scalar]
  | sharpeRatio | sortinoRatio => [.series, .scalar]
  | rollingCorrelation => [.series, .series, .scalar]
  | booleanSignal | weightedIndex => [.text]

/-- The shape of the result. -/
def returns : Function → Shape
  | avg | count | max | min | sum => .scalar
  | linearRegressionSlope | rSquared | maxDrawdown | sharpeRatio | sortinoRatio => .scalar
  | momentum | roc | stochasticOscillator | rollingCorrelation => .series
  | seasonalAdjustment | booleanSignal | weightedIndex => .series

/-- What the arguments are called. -/
def parameters : Function → List String
  | momentum | roc | stochasticOscillator => ["indicator", "periods"]
  | sharpeRatio | sortinoRatio => ["indicator", "risk_free_rate"]
  | rollingCorrelation => ["indicator1", "indicator2", "window"]
  | booleanSignal => ["condition_string"]
  | weightedIndex => ["weights_string"]
  | _ => ["indicator"]

/-- The count of arguments. -/
def arity (f : Function) : Nat := f.slots.length

/-- How a call of the function is written. -/
def signature (f : Function) : String :=
  f.name ++ "(" ++ String.intercalate ", " f.parameters ++ ")"

/-- The function of a name, in whatever case the name is written. -/
def ofName? (name : String) : Option Function :=
  (Text.asciiCapitals? name).bind fun capitals => all.find? fun f => f.name = capitals

end Function

end IndicatorFormula
