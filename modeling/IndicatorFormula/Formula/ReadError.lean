import IndicatorFormula.Text.Blank
import IndicatorFormula.Text.Quoted

/-!
# Why a text is no formula

The reader stops at the first place that no formula can have. The error says what is wrong
there and where it is, counted in characters from the beginning.
-/

namespace IndicatorFormula

open Text

/-- What is wrong with a text. -/
inductive Problem where
  /-- There is nothing but blanks. -/
  | emptyFormula
  /-- A parenthesis is closed that was never opened. -/
  | unbalancedClose
  /-- Something follows a formula that is complete. -/
  | trailingInput (c : Char)
  /-- The text ends where a formula should begin. -/
  | unexpectedEnd
  /-- A parenthesis is opened behind a word that cannot name a function. -/
  | invalidName (token : String)
  /-- A number is too large. -/
  | outOfRange
  /-- No formula begins with this character. -/
  | unexpectedCharacter (c : Char)
  /-- A call has no arguments. -/
  | emptyArguments (name : String)
  /-- The parenthesis of a call is never closed. -/
  | neverClosed (name : String)
  /-- The last argument is followed by a comma. -/
  | trailingComma (name : String)
  /-- An argument is followed by neither a comma nor a closing parenthesis. -/
  | expectedSeparator (name : String)
  /-- An argument that is taken as it stands holds a quote. -/
  | quoteInRawText (name : String)
  /-- A quote is never closed. -/
  | unterminatedText
  /-- A piece of a list of weights is no slug with a weight. -/
  | malformedWeight (piece : String)
  /-- A slug has two weights. -/
  | duplicateWeight (slug : String)
  /-- A text is no comparison of a slug with a number. -/
  | malformedCondition (text : String)
  /-- The calls are nested more deeply than the text is long, which no text is. -/
  | tooDeep
  deriving DecidableEq, Repr

/-- The problem in words. -/
def Problem.reason : Problem → String
  | emptyFormula => "Empty formula"
  | unbalancedClose => "Unbalanced parentheses: unexpected ')'"
  | trailingInput c => s!"Unexpected trailing input {quoted (String.singleton c)}"
  | unexpectedEnd => "Unexpected end of formula"
  | invalidName token => s!"Invalid function name {quoted token}"
  | outOfRange => "Number out of range"
  | unexpectedCharacter c => s!"Unexpected character {quoted (String.singleton c)}"
  | emptyArguments name => s!"Empty argument list for {name}"
  | neverClosed name => s!"Unbalanced parentheses: '(' of {name} is never closed"
  | trailingComma name => s!"Trailing comma in arguments of {name}"
  | expectedSeparator name => s!"Expected ',' or ')' in arguments of {name}"
  | quoteInRawText name => s!"Quote character in unquoted argument of {name}"
  | unterminatedText => "Unterminated string literal"
  | malformedWeight piece =>
    s!"Malformed weight pair {quoted (trimmed piece)}, expected 'slug:weight'"
  | duplicateWeight slug => s!"Duplicate indicator {quoted slug} in weights"
  | malformedCondition text =>
    s!"Malformed condition {quoted text}, " ++
      "expected 'slug <op> number' with op one of > < >= <= =="
  | tooDeep => "Formula is nested too deeply"

/-- A problem at a place of the text. -/
structure ReadError where
  /-- What is wrong. -/
  problem : Problem
  /-- The character at which it is wrong. -/
  position : Nat
  deriving DecidableEq, Repr

/-- The wording of a problem with its place. -/
def placedMessage (reason : String) (position : Int) : String :=
  s!"{reason} at position {position}"

/-- The error in words. -/
def ReadError.message (e : ReadError) : String := placedMessage e.problem.reason e.position

end IndicatorFormula
