/-!
# Field validation

What can be wrong with the fields of structured input. Faults are listed by the place of
the field.
-/

namespace IndicatorFormula

/-- What is wrong with a field. -/
inductive FieldProblem where
  /-- A truth value is asked for and this is neither one nor can it be read as one. -/
  | notBool
  /-- A text or number does not spell a truth value. -/
  | unreadableBool
  /-- A whole number is asked for and this is neither one nor can it be read as one. -/
  | notWhole
  /-- A text does not spell a whole number. -/
  | unreadableWhole
  /-- A number has a fraction where a whole one is asked for. -/
  | fractional
  /-- A number is not finite where a whole one is asked for. -/
  | notFinite
  /-- A text is asked for. -/
  | notText
  /-- A list is asked for. -/
  | notList
  /-- A number is below its least value. -/
  | tooSmall
  /-- A name is none of those that are allowed. -/
  | notListed
  deriving DecidableEq, Repr

/-- The name of the problem. -/
def FieldProblem.name : FieldProblem → String
  | notBool => "bool_type"
  | unreadableBool => "bool_parsing"
  | notWhole => "int_type"
  | unreadableWhole => "int_parsing"
  | fractional => "int_from_float"
  | notFinite => "finite_number"
  | notText => "string_type"
  | notList => "list_type"
  | tooSmall => "greater_than_equal"
  | notListed => "enum"

/-- A field with what is wrong with it. -/
structure FieldFault where
  /-- The place of the field. -/
  location : String
  /-- What is wrong with it. -/
  problem : FieldProblem
  deriving DecidableEq, Repr

end IndicatorFormula
