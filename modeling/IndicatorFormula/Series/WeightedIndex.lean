import IndicatorFormula.Series.Alignment

/-!
# Weighted index

The weighted mean of several series on the dates that they have in common.
-/

namespace IndicatorFormula

/-- A series by name with its weight. -/
structure Constituent (α : Type) where
  /-- The name of the series. -/
  slug : String
  /-- Its weight. -/
  weight : α
  deriving Repr

namespace Constituent

variable {α : Type} [Arith α]

/-- The sum of the weights. -/
def total (terms : List (Constituent α)) : α := Arith.runningSum (terms.map weight)

/-- The weighted sum of the cells of a row; undefined products are left out. -/
def rowSum (terms : List (Constituent α)) (cells : List α) : α :=
  Arith.sum (Arith.numbers (List.zipWith (fun x t => x * t.weight) cells terms))

/-- The weighted mean of the series that the terms name. The weights are looked at before
any series is looked up. -/
def index {ε : Type} (fault : DataError → ε) (find : String → Except ε (Series α))
    (terms : List (Constituent α)) : Except ε (Series α) := do
  if Arith.isZero (total terms) then throw (fault .zeroWeights)
  let family ← terms.mapM fun t => return (t.slug, ← find t.slug)
  let frame ← (Family.align family).mapError fault
  if frame.joint.rows.isEmpty then throw (fault .noCommonDate)
  return frame.joint.rows.map fun r => (r.1, rowSum terms r.2 / total terms)

end Constituent

end IndicatorFormula
