import IndicatorFormula.Series.Basic
import IndicatorFormula.Series.DataError

/-!
# Alignment

Named series are laid side by side on the dates that occur in any of them. A series
without a value at a date leaves its cell open: nothing is filled in. The joint rows are
those without an open cell.
-/

namespace IndicatorFormula

/-- Rows of cells under named columns, one row for each date. -/
structure Frame (γ : Type) where
  /-- The names of the columns. -/
  columns : List String
  /-- The dates with their cells, one for each column. -/
  rows : List (Date × List γ)
  deriving Repr

/-- Series with their names. -/
abbrev Family (α : Type) := List (String × Series α)

namespace Family

variable {α : Type}

/-- The dates on which any of the series has a point, in increasing order. -/
def allDates (family : Family α) : List Date :=
  Series.sortedDates (family.flatMap fun f => f.2.dates)

/-- The values of all series at a date. -/
def cells (family : Family α) (d : Date) : List (Option α) :=
  family.map fun f => f.2.lookup d

/-- The series side by side. -/
def align (family : Family α) : Except DataError (Frame (Option α)) :=
  if family.isEmpty then .error .nothingToAlign
  else .ok ⟨family.map Prod.fst, family.allDates.map fun d => (d, family.cells d)⟩

end Family

/-- The rows in which every cell is filled. -/
def Frame.joint {α : Type} (f : Frame (Option α)) : Frame α :=
  ⟨f.columns, f.rows.filterMap fun r => (r.2.mapM id).map (r.1, ·)⟩

end IndicatorFormula
