import IndicatorFormula.Formula.WeightsReader
import IndicatorFormula.Series.Signal

/-!
# Reading conditions

A condition compares the values of an indicator with a number.
-/

namespace IndicatorFormula

open Text

/-- A comparison of an indicator with a threshold. -/
structure Condition where
  /-- The indicator. -/
  slug : String
  /-- How its values are compared. -/
  comparison : Comparison
  /-- With what they are compared. -/
  threshold : Float
  deriving Repr

namespace Condition

/-- The comparison sign at the front of a text; of two that fit the longer one is taken. -/
def splitComparison? : List Char → Option (Comparison × List Char)
  | '>' :: '=' :: rest => some (.atLeast, rest)
  | '<' :: '=' :: rest => some (.atMost, rest)
  | '=' :: '=' :: rest => some (.equal, rest)
  | '>' :: rest => some (.greater, rest)
  | '<' :: rest => some (.less, rest)
  | _ => none

/-- Read a condition from its characters. -/
def readChars? (cs : List Char) : Option Condition :=
  let (slug, rest) := splitWord (dropBlanks cs)
  if slug = [] then none
  else match splitComparison? (dropBlanks rest) with
    | some (comparison, number) =>
      (Constituent.lastNumber? number).map fun x => ⟨String.ofList slug, comparison, x⟩
    | none => none

/-- Read the condition in a text that begins at a given place. -/
def read (text : String) (position : Nat) : Except ReadError Condition :=
  match readChars? text.toList with
  | some condition => .ok condition
  | none => .error ⟨.malformedCondition text, position⟩

end Condition

end IndicatorFormula
