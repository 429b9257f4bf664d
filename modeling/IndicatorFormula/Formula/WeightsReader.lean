import IndicatorFormula.Decimal.Numeral
import IndicatorFormula.Formula.ReadError
import IndicatorFormula.Formula.Word
import IndicatorFormula.Series.WeightedIndex

/-!
# Reading weights

Weights are written as pairs of slug and number with a colon between them and commas
between pairs. No slug may have two weights. An error is placed at the beginning of the
pair that is wrong.
-/

namespace IndicatorFormula.Constituent

open Text Decimal

/-- A text cut at each comma. -/
def pieces : List Char → List (List Char)
  | [] => [[]]
  | c :: rest =>
    if c = ',' then [] :: pieces rest
    else match pieces rest with
      | [] => [[c]]
      | piece :: more => (c :: piece) :: more

/-- Read the numeral with which a text ends, blanks around it aside. -/
def lastNumber? (cs : List Char) : Option Float :=
  match Numeral.scan? (dropBlanks cs) with
  | some (n, rest) => if dropBlanks rest = [] then some n.value else none
  | none => none

/-- Read one pair. -/
def readPair? (cs : List Char) : Option (Constituent Float) :=
  let (slug, rest) := splitWord (dropBlanks cs)
  if slug = [] then none
  else match dropBlanks rest with
    | ':' :: number => (lastNumber? number).map fun x => ⟨String.ofList slug, x⟩
    | _ => none

/-- Read pairs one after another; the slugs seen already may not come again. -/
def readPairs (seen : List String) (position : Nat) :
    List (List Char) → Except ReadError (List (Constituent Float))
  | [] => .ok []
  | piece :: more =>
    match readPair? piece with
    | none => .error ⟨.malformedWeight (String.ofList piece), position⟩
    | some term =>
      if term.slug ∈ seen then .error ⟨.duplicateWeight term.slug, position⟩
      else (readPairs (term.slug :: seen) (position + piece.length + 1) more).map (term :: ·)

/-- Read the weights in a text that begins at a given place. -/
def readAll (text : String) (position : Nat) : Except ReadError (List (Constituent Float)) :=
  readPairs [] position (pieces text.toList)

end IndicatorFormula.Constituent
