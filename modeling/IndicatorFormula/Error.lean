import IndicatorFormula.Decimal.Notation
import IndicatorFormula.Formula.ReadError
import IndicatorFormula.Function.Basic
import IndicatorFormula.Series.DataError
import IndicatorFormula.Series.Observation

/-!
# Errors of a calculation

An error says what is the cause and, as far as known, where in the formula it arose, in
which argument, and of which function. What is told to a user is an error; a fault beyond
that is a defect of what was handed in and is no outcome of a formula that was read.
-/

namespace IndicatorFormula

/-- The code by which an error is known. -/
inductive ErrorCode where
  /-- The formula cannot be read. -/
  | parse
  /-- A function does not exist. -/
  | unknownFunction
  /-- A call has the wrong count of arguments. -/
  | arity
  /-- An argument or the result is of the wrong shape. -/
  | type
  /-- An indicator does not exist or is not active. -/
  | unknownIndicator
  /-- There are too few points. -/
  | insufficientData
  /-- A denominator vanishes. -/
  | divisionByZero
  /-- A store does not deliver. -/
  | sourceUnavailable
  /-- Anything else. -/
  | internal
  deriving DecidableEq, Repr

namespace ErrorCode

/-- All codes. -/
def all : List ErrorCode := [
  parse, unknownFunction, arity, type, unknownIndicator, insufficientData, divisionByZero,
  sourceUnavailable, internal]

/-- The name of the code. -/
def name : ErrorCode → String
  | parse => "ParseError"
  | unknownFunction => "UnknownFunction"
  | arity => "ArityError"
  | type => "TypeError"
  | unknownIndicator => "UnknownIndicator"
  | insufficientData => "InsufficientData"
  | divisionByZero => "DivisionByZero"
  | sourceUnavailable => "SourceUnavailable"
  | internal => "InternalError"

/-- The code of a name. -/
def ofName? (s : String) : Option ErrorCode := all.find? fun k => k.name = s

end ErrorCode

/-- Why a calculation has no result. -/
inductive Cause where
  /-- The text cannot be read. -/
  | unreadable (e : ReadError)
  /-- There is no function of that name. -/
  | unknownFunction (name : String)
  /-- A function is called with the wrong count of arguments. -/
  | wrongCount (f : Function) (got : Nat)
  /-- An argument has to be a quoted text and is not. -/
  | notText (f : Function) (index : Nat)
  /-- An argument must not be a quoted text and is one. -/
  | textArgument (f : Function) (index : Nat) (expected : Slot)
  /-- An argument is a number instead of a series or the reverse. -/
  | wrongShape (f : Function) (index : Nat) (expected : Slot) (got : Shape)
  /-- A count of points is no whole number or too small. -/
  | notWhole (name : String) (index minimum : Nat) (got : Float)
  /-- A quoted text stands where no function takes one. -/
  | strayText
  /-- A series is asked for and the formula gives a number. -/
  | outputNotSeries
  /-- Indicators do not exist or are not active. -/
  | unknownIndicators (slugs : List String)
  /-- The data do not allow the calculation. -/
  | data (e : DataError)
  /-- Another party states the error in its own words. -/
  | stated (code : ErrorCode) (message : String)
  deriving Repr

namespace Cause

/-- The code of a cause. -/
def code : Cause → ErrorCode
  | unreadable _ => .parse
  | unknownFunction _ => .unknownFunction
  | wrongCount _ _ => .arity
  | notText _ _ | textArgument _ _ _ | wrongShape _ _ _ _ => .type
  | notWhole _ _ _ _ | strayText | outputNotSeries => .type
  | unknownIndicators _ => .unknownIndicator
  | data e => match e.category with
    | .insufficient => .insufficientData
    | .division => .divisionByZero
    | .breakdown => .internal
  | stated code _ => code

/-- What an argument must be, together with how the call is written. -/
def argumentMessage (f : Function) (index : Nat) (detail : String) : String :=
  s!"{f.name} argument {index} must be {detail}; usage: {f.signature}"

/-- The cause in words. -/
def message : Cause → String
  | unreadable e => e.message
  | unknownFunction name => s!"Unknown function: {name}"
  | wrongCount f got =>
    s!"{f.name} expects {f.arity} argument(s), got {got}; usage: {f.signature}"
  | notText f index => argumentMessage f index "a string literal"
  | textArgument f index expected =>
    argumentMessage f index s!"a {expected.name}, not a string literal"
  | wrongShape f index expected got =>
    argumentMessage f index s!"a {expected.name}, got a {got.name}"
  | notWhole name index minimum got =>
    s!"{name} argument {index} must be a whole number >= {minimum}, " ++
      s!"got {Decimal.general 6 got}"
  | strayText =>
    "A string literal is only valid as the argument of WEIGHTED_INDEX or BOOLEAN_SIGNAL"
  | outputNotSeries =>
    "Calculation output type is 'series' but the formula produces a single value"
  | unknownIndicators slugs =>
    "Unknown or inactive indicator(s): " ++ String.intercalate ", " slugs
  | data e => e.message
  | stated _ message => message

end Cause

/-- An error of a calculation. -/
structure CalcError where
  /-- Why there is no result. -/
  cause : Cause
  /-- Where in the formula it arose. -/
  position : Option Nat := none
  /-- Which argument is at fault, counted from zero. -/
  argumentIndex : Option Nat := none
  /-- The function that failed. -/
  function : Option String := none
  deriving Repr

namespace CalcError

/-- The code of the error. -/
def code (e : CalcError) : ErrorCode := e.cause.code

/-- The error in words. -/
def message (e : CalcError) : String := e.cause.message

/-- An error of reading, placed where it was found. -/
def ofRead (e : ReadError) : CalcError := { cause := .unreadable e, position := some e.position }

/-- The error told of a call, unless it tells of a function or a place already. -/
def within (f : Function) (position : Nat) (e : CalcError) : CalcError :=
  { e with function := e.function.or (some f.name), position := e.position.or (some position) }

end CalcError

/-- How an evaluation can go wrong. -/
inductive Fault where
  /-- The formula or its data are at fault, which is told to the user. -/
  | reported (e : CalcError)
  /-- A part of the formula is still open. -/
  | openPlace
  /-- An argument that has to be a text is still open. -/
  | openText
  /-- A reduction is called by a name that is not in capitals. -/
  | misspelled (name : String)
  /-- The arithmetic breaks down. -/
  | breakdown (e : DataError)
  /-- Observations make no series. -/
  | observation (f : ObservationFault)
  deriving Repr

/-- A failure of a calculation on series. -/
def Fault.ofData (e : DataError) : Fault :=
  match e.category with
  | .breakdown => .breakdown e
  | _ => .reported { cause := .data e }

end IndicatorFormula
