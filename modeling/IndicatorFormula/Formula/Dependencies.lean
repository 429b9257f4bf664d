import IndicatorFormula.Formula.Basic
import IndicatorFormula.Formula.ConditionReader
import IndicatorFormula.Formula.Slugs

/-!
# Dependencies

The indicators on which a formula depends: those that it names and those named in the text
arguments of the two functions that read such a text. A text that cannot be read names none.
-/

namespace IndicatorFormula.Formula

/-- The slugs named in a text argument of a function. -/
def textSlugs (function content : String) (position : Nat) : List String :=
  if function = "WEIGHTED_INDEX" then
    match Constituent.readAll content position with
    | .ok terms => terms.map (·.slug)
    | .error _ => []
  else if function = "BOOLEAN_SIGNAL" then
    match Condition.read content position with
    | .ok condition => [condition.slug]
    | .error _ => []
  else []

mutual

/-- The slugs named in a formula, as often as they occur. -/
def slugs : Formula → List String
  | indicator slug _ => [slug]
  | call name args _ => argSlugs name args
  | _ => []

/-- The slugs named in the arguments of a function. -/
def argSlugs (name : String) : List Formula → List String
  | [] => []
  | literal content position :: rest => textSlugs name content position ++ argSlugs name rest
  | f :: rest => slugs f ++ argSlugs name rest

end

/-- The set of indicators on which a formula depends. -/
def dependencies (f : Formula) : List String := Slugs.ofList (slugs f)

end IndicatorFormula.Formula
