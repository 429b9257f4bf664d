import IndicatorFormula.Decimal.Shortest
import IndicatorFormula.Formula.Basic
import IndicatorFormula.Text.Quoted

/-!
# The canonical form of a formula

A formula is written with the shortest decimals, with double quotes unless the quoted text
holds one, and with a comma and a space between arguments.
-/

namespace IndicatorFormula.Formula

open Text

/-- The quote to put around a text: single quotes only if the text holds a double one. -/
def quoteAround (cs : List Char) : Char :=
  if doubleQuote ∈ cs then singleQuote else doubleQuote

/-- A text between quotes. -/
def quotedChars (cs : List Char) : List Char := quoteAround cs :: cs ++ [quoteAround cs]

mutual

/-- The characters of the canonical form. -/
def chars : Formula → List Char
  | number x _ => (Decimal.shortest x).toList
  | literal s _ => quotedChars s.toList
  | indicator s _ => s.toList
  | call f args _ => f.toList ++ '(' :: argChars args ++ [')']
  | hole => []

/-- Formulas one after another, a comma and a space between them. -/
def argChars : List Formula → List Char
  | [] => []
  | [f] => chars f
  | f :: g :: rest => chars f ++ ',' :: ' ' :: argChars (g :: rest)

end

/-- The canonical form of a formula. -/
def toText (f : Formula) : String := String.ofList (chars f)

/-- The canonical form, unless some part is still open. -/
def canonical? (f : Formula) : Option String := if f.isComplete then some f.toText else none

end IndicatorFormula.Formula
