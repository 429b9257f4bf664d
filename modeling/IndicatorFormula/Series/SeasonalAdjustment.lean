import IndicatorFormula.Series.Season
import IndicatorFormula.Series.Window

/-!
# Seasonal adjustment

A series is taken as trend plus season. The trend is a moving average over one cycle,
centred on each point, and the season of a period is the mean distance of its points from
the trend. Periods that the average does not reach are measured against the mean of the
series instead. The seasons are shifted so that their mean is zero and then taken away.
-/

namespace IndicatorFormula.Series

variable {α : Type} [Arith α]

/-- The weights of a centred average over a period: equal ones for an odd period, and for
an even one half a weight at either end. -/
def averageWeights (period : Nat) : List α :=
  if period % 2 = 1 then List.replicate period (Arith.one / Arith.ofNat period)
  else
    let ends : List α := [Arith.half / Arith.ofNat period]
    ends ++ List.replicate (period - 1) (Arith.one / Arith.ofNat period) ++ ends

/-- The average centred on each value, undefined where it would reach past an end. -/
def centeredAverage (period : Nat) (xs : List α) : Except DataError (List (Option α)) :=
  if period = 0 then .error .emptyWindow
  else
    let weights : List α := averageWeights period
    if xs.length < weights.length then .ok (xs.map fun _ => none)
    else
      let edge := List.replicate (weights.length / 2) none
      .ok (edge ++ (windows weights.length xs).map (fun w => some (Arith.dot w weights)) ++ edge)

/-- The mean of those values of a period that are defined. -/
def periodMean? (periods : List Nat) (xs : List (Option α)) (p : Nat) : Option α :=
  let own := (periods.zip xs).filterMap fun q => if q.1 = p then q.2 else none
  match Arith.numbers own with
  | [] => none
  | ys => some (Arith.mean ys)

/-- The value, unless it is no number. -/
def number? (x : α) : Option α := if Arith.isNaN x then none else some x

/-- The seasonal component of a period before it is normalised. -/
def rawComponent? (periods : List Nat) (xs : List α) (trend : List (Option α)) (p : Nat) :
    Option α :=
  let detrended := List.zipWith (fun x t => t.map (x - ·)) xs trend
  ((periodMean? periods detrended p).bind number?).or
    ((periodMean? periods ((Arith.deviations xs).map some) p).bind number?)

/-- The periods that occur, in increasing order. -/
def periodsPresent (periods : List Nat) : List Nat := periods.eraseDups.mergeSort

/-- Seasonal components by period, shifted so that their mean is zero. -/
def normalized (components : List (Nat × Option α)) : List (Nat × Option α) :=
  let center := Arith.mean (components.filterMap Prod.snd)
  components.map fun c => (c.1, c.2.map (· - center))

/-- The seasonal component of each period that occurs. -/
def components (periods : List Nat) (xs : List α) (trend : List (Option α)) :
    List (Nat × Option α) :=
  normalized ((periodsPresent periods).map fun p => (p, rawComponent? periods xs trend p))

/-- The series without its seasonal component. -/
def deseasonalized (s : Series α) : Except DataError (Series (Option α)) := do
  let season ← Season.infer s.dates
  if s.length < season.length then throw (.needsCycle season.length s.length)
  let periods := s.dates.map season.period
  let trend ← centeredAverage season.length s.values
  let byPeriod := components periods s.values trend
  return s.map fun p => (p.1, ((byPeriod.lookup (season.period p.1)).join).map (p.2 - ·))

end IndicatorFormula.Series
