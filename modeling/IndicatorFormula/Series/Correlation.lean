import IndicatorFormula.Series.Alignment
import IndicatorFormula.Series.Window

/-!
# Rolling correlation

The correlation of two series over trailing windows of the dates that they share. A window
in which either side does not vary has the correlation zero.
-/

namespace IndicatorFormula.Series

variable {α : Type}

/-- Dated pairs of values. -/
abbrev Paired (α : Type) := List (Date × α × α)

/-- The rows of two columns as dated pairs. -/
def pairedRows (f : Frame α) : Paired α :=
  f.rows.filterMap fun r => match r.2 with
    | [x, y] => some (r.1, x, y)
    | _ => none

variable [Arith α]

/-- Whether values do not vary. -/
def isFlat (xs : List α) : Bool :=
  !xs.any Arith.isNaN && match Arith.maximum? xs, Arith.minimum? xs with
    | some high, some low => Arith.isZero (high - low)
    | _, _ => false

/-- The correlation of paired values, from minus one to one. -/
def correlation (xs ys : List α) : α :=
  if isFlat xs || isFlat ys then Arith.zero
  else
    let dx := Arith.deviations xs
    let dy := Arith.deviations ys
    Arith.clamp (Arith.zero - Arith.one) Arith.one
      (Arith.dot dx dy / Arith.sqrt (Arith.dot dx dx * Arith.dot dy dy))

/-- The correlation over each window, dated by the last point of the window. -/
def trailingCorrelation (window : Nat) (pairs : Paired α) : Except DataError (Series α) :=
  if pairs.length < window then .error (.needsJointWindow window pairs.length)
  else if window = 0 then .error .emptyWindow
  else .ok (((pairs.drop (window - 1)).zip (windows window (pairs.map Prod.snd))).map
    fun p => (p.1.1, correlation (p.2.map Prod.fst) (p.2.map Prod.snd)))

/-- The correlation of two series over windows of the dates on which both have a value. -/
def correlateWith (window : Nat) (left right : Series α) : Except DataError (Series α) := do
  let frame ← Family.align [("left", left), ("right", right)]
  trailingCorrelation window (pairedRows frame.joint)

end IndicatorFormula.Series
