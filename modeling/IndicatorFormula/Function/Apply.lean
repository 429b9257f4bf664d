import IndicatorFormula.Decimal.Exact
import IndicatorFormula.Error
import IndicatorFormula.Formula.ConditionReader
import IndicatorFormula.Series.Correlation
import IndicatorFormula.Series.Drawdown
import IndicatorFormula.Series.Returns
import IndicatorFormula.Series.SeasonalAdjustment

/-!
# Applying functions

Each function takes arguments that fit its places and gives a result of its shape; the types see to
that. A series that a function gives holds finite numbers only.
-/

namespace IndicatorFormula

namespace Series

variable {α : Type} [Arith α]

/-- The points with a finite value. -/
def cleaned (s : Series (Option α)) : Series α := (present s).finite

end Series

/-- What a function may see besides its arguments. -/
structure CallSite where
  /-- The name by which the function is called. -/
  name : String
  /-- The series of an indicator that is named at some place of the formula. -/
  find : String → Nat → Except Fault (Series Float)

namespace Function

open Decimal

/-- A count of points, which has to be a whole number and large enough. -/
def wholeArgument (name : String) (index minimum : Nat) (x : Placed Float) : Except Fault Nat :=
  let refusal : Fault := .reported {
    cause := .notWhole name index minimum x.value
    position := some x.position
    argumentIndex := some index
    function := some name }
  match wholeNumber? x.value with
  | some n => if (minimum : Int) ≤ n then .ok n.toNat else .error refusal
  | none => .error refusal

/-- Reduce a series to a number; only a call by the exact name can be. -/
def reduce (f : Function) (site : CallSite) (reduction : List Float → Float) (s : Series Float) :
    Except Fault Float :=
  if s.isEmpty then .error (.ofData (.emptyInput site.name))
  else if site.name ≠ f.name then .error (.misspelled site.name)
  else .ok (reduction s.values)

/-- The outcome of a calculation on series as the outcome of a call. -/
def ofData {β : Type} (r : Except DataError β) : Except Fault β := r.mapError Fault.ofData

/-- The series of points that are finite, from a calculation that may leave points open. -/
def ofPoints (r : Except DataError (Series (Option Float))) : Except Fault (Series Float) :=
  (ofData r).map Series.cleaned

/-- The weighted mean of the series named in a text. -/
def applyWeights (site : CallSite) (text : Placed String) : Except Fault (Series Float) := do
  let terms ← (Constituent.readAll text.value text.position).mapError fun e =>
    Fault.reported (.ofRead e)
  let fault (e : DataError) : Fault :=
    .reported { cause := .data e, position := some text.position }
  let s ← Constituent.index fault (fun slug => site.find slug text.position) terms
  return s.finite

/-- The signal of the condition in a text. -/
def applyCondition (site : CallSite) (text : Placed String) : Except Fault (Series Float) := do
  let condition ← (Condition.read text.value text.position).mapError fun e =>
    Fault.reported (.ofRead e)
  let s ← site.find condition.slug text.position
  return (condition.comparison.signal condition.threshold s).finite

/-- The value of a function. -/
def apply (site : CallSite) : (f : Function) → Arguments f.slots → Except Fault f.returns.Carrier
  | sum, (s, _) => reduce sum site Arith.sum s.value
  | avg, (s, _) => reduce avg site Arith.mean s.value
  | min, (s, _) => reduce min site (fun xs => (Arith.minimum? xs).getD Arith.zero) s.value
  | max, (s, _) => reduce max site (fun xs => (Arith.maximum? xs).getD Arith.zero) s.value
  | count, (s, _) => reduce count site (fun xs => Arith.ofNat xs.length) s.value
  | roc, (s, n, _) => do
    let periods ← wholeArgument site.name 1 1 n
    (ofData (s.value.percentChange periods)).map Series.finite
  | momentum, (s, n, _) => do
    let periods ← wholeArgument site.name 1 1 n
    (ofData (s.value.momentum periods)).map Series.finite
  | stochasticOscillator, (s, n, _) => do
    let window ← wholeArgument site.name 1 1 n
    ofPoints (s.value.stochastic window)
  | rollingCorrelation, (left, right, n, _) => do
    let window ← wholeArgument site.name 2 2 n
    (ofData (Series.correlateWith window left.value right.value)).map Series.finite
  | linearRegressionSlope, (s, _) => ofData s.value.fittedSlope
  | rSquared, (s, _) => ofData s.value.explainedShare
  | sharpeRatio, (s, rate, _) => ofData (s.value.sharpeRatio rate.value)
  | sortinoRatio, (s, rate, _) => ofData (s.value.sortinoRatio rate.value)
  | maxDrawdown, (s, _) => ofData s.value.deepestFall
  | weightedIndex, (text, _) => applyWeights site text
  | booleanSignal, (text, _) => applyCondition site text
  | seasonalAdjustment, (s, _) => ofPoints s.value.deseasonalized

end Function

end IndicatorFormula
