import IndicatorFormula.Decimal.Rounding

/-!
# Why a calculation has no result

A calculation on series can fail for want of points or because a denominator vanishes.
Each cause says what was missing; the wording is in one place.
-/

namespace IndicatorFormula

open Decimal

/-- Why a calculation on series has no result. -/
inductive DataError where
  /-- A change over some periods needs more points than periods. -/
  | needsMore (periods got : Nat)
  /-- A window is longer than the series. -/
  | needsWindow (window got : Nat)
  /-- A window is longer than the row of dates on which both series have a value. -/
  | needsJointWindow (window got : Nat)
  /-- A statistic needs more points than there are. -/
  | needsPoints (minimum got : Nat)
  /-- One point alone has no spacing. -/
  | needsSpacing (got : Nat)
  /-- The series is shorter than its seasonal cycle. -/
  | needsCycle (cycle got : Nat)
  /-- The points lie too far apart for a cycle within the year; the typical distance is
  counted in half days. -/
  | noCycle (halfDays : Int)
  /-- No point has a base other than zero to be compared with. -/
  | zeroBases
  /-- No return can be computed, since each base is zero. -/
  | noReturns
  /-- There is no series to align. -/
  | nothingToAlign
  /-- The series of an index have no date in common. -/
  | noCommonDate
  /-- A series without points cannot be reduced. -/
  | emptyInput (name : String)
  /-- A series without points has no latest value. -/
  | emptyOutput
  /-- The weights of an index sum to zero. -/
  | zeroWeights
  /-- All values are equal, so that there is no variance to explain. -/
  | zeroVariance
  /-- All returns are equal. -/
  | zeroDeviation
  /-- No return falls short of the risk-free rate. -/
  | noShortfall
  /-- A window without points has neither a smallest nor a largest value. -/
  | emptyWindow
  /-- The squares of the shortfalls are too small to differ from zero. -/
  | vanishingShortfall
  deriving DecidableEq, Repr

namespace DataError

/-- The cause in words. -/
def message : DataError → String
  | needsMore periods got => s!"Need more than {periods} points, got {got}"
  | needsWindow window got => s!"Need at least {window} points, got {got}"
  | needsJointWindow window got =>
    s!"Need at least {window} jointly present points, got {got}"
  | needsPoints minimum got => s!"Need at least {minimum} point(s), got {got}"
  | needsSpacing got => s!"Need at least 2 points to infer a frequency, got {got}"
  | needsCycle cycle got => s!"Need at least one full cycle of {cycle} points, got {got}"
  | noCycle halfDays =>
    s!"Observations are {roundDiv halfDays.toNat 2} days apart; " ++
      "no within-year seasonal cycle to adjust"
  | zeroBases => "Every base value is zero"
  | noReturns => "No computable returns: every base value is zero"
  | nothingToAlign => "Nothing to align"
  | noCommonDate => "No date is present in every weighted series"
  | emptyInput name => s!"{name} of an empty series"
  | emptyOutput => "Formula produced an empty series; no latest value for a single output"
  | zeroWeights => "Weights sum to zero"
  | zeroVariance => "Series has zero variance; R-squared is undefined"
  | zeroDeviation => "Returns have zero standard deviation"
  | noShortfall => "No returns below the risk-free rate; downside deviation is zero"
  | emptyWindow => "A window needs at least one point"
  | vanishingShortfall => "The downside deviation is too small to be told from zero"

/-- What kind of failure it is. -/
inductive Category where
  /-- Points are missing. -/
  | insufficient
  /-- A denominator is known to vanish. -/
  | division
  /-- The arithmetic itself breaks down, which no rule of the calculation foresees. -/
  | breakdown
  deriving DecidableEq, Repr

/-- The category of a cause. -/
def category : DataError → Category
  | zeroWeights | zeroVariance | zeroDeviation | noShortfall => .division
  | emptyWindow | vanishingShortfall => .breakdown
  | _ => .insufficient

end DataError

end IndicatorFormula
