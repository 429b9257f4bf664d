import IndicatorFormula.Decimal.Numeral
import IndicatorFormula.Formula.Basic
import IndicatorFormula.Formula.ReadError
import IndicatorFormula.Formula.Word

/-!
# Reading formulas

A formula is read from left to right. Every function here takes what is left of the text
and gives what it read together with what is left then, so that a place in the text is the
length of the whole less the length of the rest. The recursion is bounded by a count of
steps that exceeds the length of the text and so is never used up.

Two functions take their argument as it stands when it is not quoted: everything up to the
parenthesis that closes the call is their text.
-/

namespace IndicatorFormula.Formula

open Text Decimal

/-- The functions whose argument may be written without quotes. -/
def takesRawText (name : String) : Bool := name = "WEIGHTED_INDEX" || name = "BOOLEAN_SIGNAL"

/-- The place in a text of a given length at which the rest of it begins. -/
def place (size : Nat) (rest : List Char) : Nat := size - rest.length

/-- What a step of the reader gives: something read and the rest of the text. -/
abbrev Step (β : Type) := Except ReadError (β × List Char)

/-- Whether a text begins with a given kind of character. -/
def startsWith (p : Char → Bool) : List Char → Bool
  | [] => false
  | c :: _ => p c

/-- Read a quoted text up to the next quote of the same sort. -/
def readQuoted (size : Nat) (quote : Char) (rest : List Char) : Step Formula :=
  match rest.dropWhile (· ≠ quote) with
  | [] => .error ⟨.unterminatedText, place size (quote :: rest)⟩
  | _ :: after =>
    .ok (literal (String.ofList (rest.takeWhile (· ≠ quote))) (place size rest), after)

/-- The numeral at the front of a text, unless it runs into a word. -/
def wholeNumeral? (cs : List Char) : Option (Numeral × List Char) :=
  (Numeral.scan? cs).filter fun r => !startsWith isWordChar r.2

/-- Read a number of which the numeral is known. -/
def readNumber (start : Nat) (n : Numeral) (after : List Char) : Step Formula :=
  if startsWith (· = '(') (dropBlanks after) then
    .error ⟨.invalidName (String.ofList n.text), start⟩
  else if n.value.isFinite then .ok (number n.value start, after)
  else .error ⟨.outOfRange, start⟩

/-- The text up to a quote or to the parenthesis that closes it, given how many inner
parentheses are open, and what is left then. -/
def rawSpan (depth : Nat) : List Char → List Char × List Char
  | [] => ([], [])
  | c :: rest =>
    if isQuote c || (c = ')' && depth = 0) then ([], c :: rest)
    else
      let inner := if c = '(' then depth + 1 else if c = ')' then depth - 1 else depth
      let span := rawSpan inner rest
      (c :: span.1, span.2)

/-- Read an argument that is taken as it stands. -/
def readRaw (size : Nat) (name : String) (start opening : Nat) (cs : List Char) :
    Step Formula :=
  let (raw, rest) := rawSpan 0 cs
  match rest with
  | [] => .error ⟨.neverClosed name, opening⟩
  | c :: after =>
    if isQuote c then .error ⟨.quoteInRawText name, place size rest⟩
    else if strip raw = [] then .error ⟨.emptyArguments name, place size cs⟩
    else .ok (call name [literal (String.ofList (strip raw)) (place size cs)] start, after)

/-- Read a call behind its parenthesis, given how to read a row of arguments. -/
def readCall (size : Nat) (name : String) (start opening : Nat)
    (args : List Char → Step (List Formula)) (body : List Char) : Step Formula :=
  if takesRawText name && !startsWith isQuote body then readRaw size name start opening body
  else if startsWith (· = ')') body then .error ⟨.emptyArguments name, place size body⟩
  else (args body).map fun r => (call name r.1 start, r.2)

/-- What follows an argument, given how to read the arguments behind a comma. -/
def readRest (size : Nat) (name : String) (opening : Nat)
    (args : List Char → Step (List Formula)) (first : Formula) (after : List Char) :
    Step (List Formula) :=
  match dropBlanks after with
  | [] => .error ⟨.neverClosed name, opening⟩
  | c :: more =>
    if c = ',' then
      if startsWith (· = ')') (dropBlanks more) then
        .error ⟨.trailingComma name, place size (dropBlanks more) - 1⟩
      else (args more).map fun r => (first :: r.1, r.2)
    else if c = ')' then .ok ([first], more)
    else .error ⟨.expectedSeparator name, place size (c :: more)⟩

mutual

/-- Read one formula. -/
def readOne (size : Nat) : Nat → List Char → Step Formula
  | 0, cs => .error ⟨.tooDeep, place size cs⟩
  | steps + 1, cs =>
    match dropBlanks cs with
    | [] => .error ⟨.unexpectedEnd, size⟩
    | c :: rest =>
      let start := place size (c :: rest)
      if isQuote c then readQuoted size c rest
      else match wholeNumeral? (c :: rest) with
        | some (n, after) => readNumber start n after
        | none =>
          let (token, after) := splitWord (c :: rest)
          if token = [] then .error ⟨.unexpectedCharacter c, start⟩
          else match dropBlanks after with
            | '(' :: inside =>
              if isFunctionName token then
                let opening := place size ('(' :: inside)
                readCall size (capitals token) start opening
                  (readArgs size (capitals token) opening steps) (dropBlanks inside)
              else .error ⟨.invalidName (String.ofList token), start⟩
            | _ => .ok (indicator (String.ofList token) start, after)

/-- Read one argument or more, up to the closing parenthesis. -/
def readArgs (size : Nat) (name : String) (opening : Nat) : Nat → List Char → Step (List Formula)
  | 0, cs => .error ⟨.tooDeep, place size cs⟩
  | steps + 1, cs =>
    match readOne size steps cs with
    | .error e => .error e
    | .ok (first, after) =>
      readRest size name opening (readArgs size name opening steps) first after

end

/-- Nothing but blanks may follow a formula. -/
def finish (size : Nat) (f : Formula) (rest : List Char) : Except ReadError Formula :=
  match dropBlanks rest with
  | [] => .ok f
  | c :: more =>
    if c = ')' then .error ⟨.unbalancedClose, place size (c :: more)⟩
    else .error ⟨.trailingInput c, place size (c :: more)⟩

/-- Read a formula from its characters. -/
def readChars (cs : List Char) : Except ReadError Formula :=
  if dropBlanks cs = [] then .error ⟨.emptyFormula, 0⟩
  else do
    let (f, rest) ← readOne cs.length (cs.length + 1) cs
    finish cs.length f rest

/-- Read a formula. -/
def read (text : String) : Except ReadError Formula := readChars text.toList

end IndicatorFormula.Formula
