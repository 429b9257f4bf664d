import IndicatorFormula.Text.Blank

/-!
# Words

Slugs and function names are runs of ASCII letters, digits, underscores and hyphens.
-/

namespace IndicatorFormula

/-- A character of a word. -/
def isWordChar (c : Char) : Bool := c.isAlphanum || c = '_' || c = '-'

/-- The word at the front of a text, which may be empty, and what follows it. -/
def splitWord (cs : List Char) : List Char × List Char :=
  (cs.takeWhile isWordChar, cs.dropWhile isWordChar)

/-- Whether a word can name a function: it has no hyphen and does not begin with a digit. -/
def isFunctionName : List Char → Bool
  | [] => false
  | c :: rest => (c.isAlpha || c = '_') && rest.all fun d => d.isAlphanum || d = '_'

/-- A word in capitals. -/
def capitals (cs : List Char) : String := String.ofList (cs.map Char.toUpper)

/-- A quote of either sort. -/
def isQuote (c : Char) : Bool := c = '\x27' || c = '\x22'

/-- Word and remainder are the text again. -/
theorem splitWord_append (cs : List Char) : (splitWord cs).1 ++ (splitWord cs).2 = cs :=
  List.takeWhile_append_dropWhile

end IndicatorFormula
