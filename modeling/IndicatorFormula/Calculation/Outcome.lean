import IndicatorFormula.Calculation.Payload

/-!
# Outcomes of runs

A run passes through stages and ends with a value or with an error. The value is brought
into line with what the calculation declares: a series may be reduced to its latest value,
but a single value is never made into a series.
-/

namespace IndicatorFormula

/-- How far a run has come. -/
inductive Stage where
  /-- The formula is being read. -/
  | reading
  /-- The indicators are being looked up. -/
  | surveying
  /-- The data are being fetched. -/
  | fetching
  /-- The formula is being evaluated. -/
  | evaluating
  /-- The run gave a value. -/
  | succeeded
  /-- The run gave an error. -/
  | failed
  deriving DecidableEq, Repr

namespace Stage

/-- The name of the state. -/
def name : Stage → String
  | reading => "parsed"
  | surveying => "dependencies_resolved"
  | fetching => "data_fetched"
  | evaluating => "evaluated"
  | succeeded => "succeeded"
  | failed => "failed"

/-- The state of a name. -/
def ofName? (s : String) : Option Stage :=
  [reading, surveying, fetching, evaluating, succeeded, failed].find? fun t =>
    t.name = s

end Stage

/-- Bring a value into line with the declared type of output. The date is that of the point
to which a series was reduced. -/
def conform (type : OutputForm) (v : Value) : Except CalcError (Value × Option Date) :=
  match type, v with
  | .series, .series _ => .ok (v, none)
  | .series, .scalar _ => .error { cause := .outputNotSeries }
  | .single, .scalar _ => .ok (v, none)
  | .single, .series s =>
    match s.last? with
    | some (d, x) => .ok (.scalar x, some d)
    | none => .error { cause := .data .emptyOutput }

/-- The outcome of a run. -/
structure Outcome where
  /-- The calculation after the run. -/
  calculation : Calculation
  /-- How the run ended. -/
  state : Stage
  /-- The value, if there is one. -/
  value : Option Value := none
  /-- The date of a value to which a series was reduced. -/
  asOf : Option Date := none
  /-- The error, if there is one. -/
  error : Option CalcError := none
  /-- The stage in which the run failed. -/
  failedStage : Option Stage := none
  deriving Repr

/-- The words for a result that has nothing to show. -/
def nothingToShow : String := "Execution result has neither a value nor an error"

namespace Outcome

/-- Whether the run gave a value. -/
def isSuccess (r : Outcome) : Bool := r.state = .succeeded

/-- What a caller is given, or why it cannot be rendered: an error goes before a value. -/
def payload (r : Outcome) (context : Context) : Except String Document :=
  match r.error, r.value with
  | some e, _ => .ok (ErrorReport.ofError e).payload
  | none, some v => Payload.ofValue r.calculation.outputForm context r.asOf v
  | none, none => .error nothingToShow

end Outcome

end IndicatorFormula
