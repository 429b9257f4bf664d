import IndicatorFormula.Calculation.Basic
import IndicatorFormula.Context
import IndicatorFormula.Error

/-!
# Payloads

What a caller is given: the output of a calculation with its dates written as the context says,
or an error with the details that are known. A date that cannot be written leaves no output.
-/

namespace IndicatorFormula

namespace Payload

/-- A field that is left out when there is nothing to say. -/
def optional {β : Type} (name : String) (f : β → Document) : Option β → List (String × Document)
  | some x => [(name, f x)]
  | none => []

/-- A point with its date written. -/
def ofPoint (context : Context) (p : Date × Float) : Except String Document := do
  let date ← context.write p.1
  return .record [("date", .text date), ("value", .number p.2)]

/-- An output; the date of a single value is told if it is known. -/
def ofValue (type : OutputForm) (context : Context) (asOf : Option Date) :
    Value → Except String Document
  | .scalar x => do
    let date ← asOf.mapM context.write
    return .record ([("output_type", .text type.name), ("value", .number x)] ++
      optional "as_of" .text date)
  | .series s => do
    let points ← s.mapM (ofPoint context)
    return .record [("output_type", .text type.name), ("value", .list points)]

end Payload

/-- An error as a caller is told. -/
structure ErrorReport where
  /-- The code of the error. -/
  code : ErrorCode
  /-- The error in words. -/
  message : String
  /-- Where in the formula it arose. -/
  position : Option Int
  /-- Which argument is at fault. -/
  argumentIndex : Option Int
  /-- The function that failed. -/
  function : Option String
  deriving Repr

namespace ErrorReport

/-- The report of an error. -/
def ofError (e : CalcError) : ErrorReport :=
  ⟨e.code, e.message, e.position.map Int.ofNat, e.argumentIndex.map Int.ofNat, e.function⟩

/-- The words of an error of a code: an error of reading tells its place as well. -/
def stated (code : ErrorCode) (reason : String) (position : Option Int) : String :=
  match code, position with
  | .parse, some p => placedMessage reason p
  | _, _ => reason

/-- A number that must not be negative. -/
def checkField (location : String) : Option Int → List FieldFault
  | some n => if n < 0 then [⟨location, .tooSmall⟩] else []
  | none => []

/-- The faults of a report, in the order of their places. -/
def faults (r : ErrorReport) : List FieldFault :=
  checkField "argument_index" r.argumentIndex ++ checkField "position" r.position

/-- The report as a payload. -/
def payload (r : ErrorReport) : Document :=
  .record [("error", .record (
    [("kind", .text r.code.name), ("message", .text r.message)] ++
    Payload.optional "position" Document.whole r.position ++
    Payload.optional "argument_index" Document.whole r.argumentIndex ++
    Payload.optional "function" Document.text r.function))]

/-- The payload of a report that has no faults. -/
def payload? (r : ErrorReport) : Except (List FieldFault) Document :=
  if r.faults.isEmpty then .ok r.payload else .error r.faults

/-- The report of an error of the library has no faults. -/
theorem faults_ofError (e : CalcError) : (ofError e).faults = [] := by
  have h (location : String) (n : Option Nat) : checkField location (n.map Int.ofNat) = [] := by
    cases n with
    | none => rfl
    | some n => simp [checkField]
  simp [faults, ofError, h]

end ErrorReport

end IndicatorFormula
