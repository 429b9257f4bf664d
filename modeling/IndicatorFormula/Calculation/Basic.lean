import IndicatorFormula.Calendar.Stamp
import IndicatorFormula.Document.Basic
import IndicatorFormula.Formula.Slugs
import IndicatorFormula.Validation

/-!
# Calculations

A calculation is a formula with a name and with the type of output that it declares. The
indicators it depends on, when it last ran and what came out are derived from a run.
-/

namespace IndicatorFormula

/-- What a calculation puts out. -/
inductive OutputForm where
  /-- A single value. -/
  | single
  /-- A series. -/
  | series
  deriving DecidableEq, Repr

namespace OutputForm

/-- The name of the type. -/
def name : OutputForm → String
  | single => "single"
  | series => "series"

/-- The type of a name. -/
def ofName? (s : String) : Option OutputForm := [single, series].find? fun t => t.name = s

/-- The type of a name that is given in a field. -/
def ofField (s : String) : Except (List FieldFault) OutputForm :=
  match ofName? s with
  | some t => .ok t
  | none => .error [⟨"output_type", .notListed⟩]

end OutputForm

/-- A named formula with its latest result. -/
structure Calculation where
  /-- The number under which it is kept, if it is kept. -/
  id : Option Int
  /-- Its name. -/
  name : String
  /-- The short form of its name. -/
  slug : String
  /-- Its formula as it was written. -/
  formula : String
  /-- What it puts out. -/
  outputForm : OutputForm
  /-- A description for its users. -/
  description : String
  /-- The set of indicators on which it depends. -/
  dependencies : List String
  /-- When it last succeeded. -/
  lastRun : Option Stamp
  /-- What it put out then. -/
  lastResult : Document
  deriving Repr

end IndicatorFormula
