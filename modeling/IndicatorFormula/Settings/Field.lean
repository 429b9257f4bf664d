import IndicatorFormula.Decimal.Exact
import IndicatorFormula.Document.Basic
import IndicatorFormula.Text.Blank
import IndicatorFormula.Validation

/-!
# Reading the fields of settings

A field takes what it asks for and whatever spells it: words for truth values, and numerals
for whole numbers with a sign, blanks around them, underscores between digits and zeros
behind a point.
-/

namespace IndicatorFormula.Field

open Text Decimal

/-- The words for truth values, in any case. -/
def boolWords : List (String × Bool) := [
  ("0", false), ("off", false), ("f", false), ("false", false), ("n", false), ("no", false),
  ("1", true), ("on", true), ("t", true), ("true", true), ("y", true), ("yes", true)]

/-- A text with its ASCII letters in small letters. -/
def smallLetters (s : String) : String := String.ofList (s.toList.map Char.toLower)

/-- Read a truth value. -/
def bool : Document → Except FieldProblem Bool
  | .bool b => .ok b
  | .text s => match boolWords.lookup (smallLetters s) with
    | some b => .ok b
    | none => .error .unreadableBool
  | .whole n => if n = 0 then .ok false else if n = 1 then .ok true else .error .unreadableBool
  | .number x => match wholeNumber? x with
    | some n => if n = 0 then .ok false else if n = 1 then .ok true else .error .unreadableBool
    | none => .error .notBool
  | _ => .error .notBool

/-- A character that may stand around a numeral. -/
def isMargin (c : Char) : Bool := isBlank c && !(0x1C ≤ c.toNat && c.toNat ≤ 0x1F)

/-- A text without the blanks around it. -/
def withoutMargins (cs : List Char) : List Char :=
  ((cs.dropWhile isMargin).reverse.dropWhile isMargin).reverse

/-- The rest of a numeral that began with a zero, from its first digit that counts or from
the last character before its point. -/
def dropLeadingZeros (previous : Char) : List Char → Option (List Char)
  | [] => some [previous]
  | c :: rest =>
    if c = '0' || c = '_' then dropLeadingZeros c rest
    else if c = '.' then some (previous :: '.' :: rest)
    else if c.isDigit then some (c :: rest)
    else none

/-- A numeral from its first digit that counts; one that begins with a minus is left alone. -/
def significant : List Char → Option (List Char)
  | [] => none
  | c :: rest =>
    if c = '0' then dropLeadingZeros c rest
    else if c.isDigit || c = '-' then some (c :: rest)
    else none

/-- A numeral without a point that is followed by nothing but zeros. -/
def dropZeroFraction (cs : List Char) : List Char :=
  if ((cs.dropWhile (· ≠ '.')).drop 1).all (· = '0') then cs.takeWhile (· ≠ '.') else cs

/-- Whether two underscores stand side by side. -/
def hasDoubleUnderscore : List Char → Bool
  | '_' :: '_' :: _ => true
  | _ :: rest => hasDoubleUnderscore rest
  | [] => false

/-- A numeral without underscores, none of which may stand at an end or beside another. -/
def dropUnderscores (cs : List Char) : Option (List Char) :=
  if cs.head? = some '_' || cs.getLast? = some '_' || hasDoubleUnderscore cs then none
  else some (cs.filter (· ≠ '_'))

/-- The number of a row of ASCII digits. -/
def digits? (cs : List Char) : Option Nat :=
  if cs.all Char.isDigit && !cs.isEmpty then
    some (cs.foldl (fun total c => 10 * total + (c.toNat - '0'.toNat)) 0)
  else none

/-- The number of a row of ASCII digits with a minus sign in front or none. -/
def signed? : List Char → Option Int
  | '-' :: rest => (digits? rest).map fun n => -(n : Int)
  | cs => (digits? cs).map Int.ofNat

/-- A numeral without a plus sign in front; a minus may not follow it. -/
def dropPlus : List Char → Option (List Char)
  | '+' :: rest => if rest.head? = some '-' then none else some rest
  | cs => some cs

/-- The whole number that a text spells. -/
def wholeText? (s : String) : Option Int := do
  let cs ← dropPlus (withoutMargins s.toList)
  let cs ← significant cs
  let cs ← dropUnderscores (dropZeroFraction cs)
  signed? cs

/-- Read a whole number. -/
def whole : Document → Except FieldProblem Int
  | .whole n => .ok n
  | .bool b => .ok (if b then 1 else 0)
  | .number x =>
    if x.isFinite then match wholeNumber? x with
      | some n => .ok n
      | none => .error .fractional
    else .error .notFinite
  | .text s => match wholeText? s with
    | some n => .ok n
    | none => .error .unreadableWhole
  | _ => .error .notWhole

/-- Read a text. -/
def text : Document → Except FieldProblem String
  | .text s => .ok s
  | _ => .error .notText

/-- Read texts, each with its place in the list; the faults of all of them are told. -/
def textItems (location : String) : Nat → List Document → Except (List FieldFault) (List String)
  | _, [] => .ok []
  | index, d :: rest =>
    match text d, textItems location (index + 1) rest with
    | .ok s, .ok more => .ok (s :: more)
    | .ok _, .error faults => .error faults
    | .error problem, .ok _ => .error [⟨s!"{location}.{index}", problem⟩]
    | .error problem, .error faults => .error (⟨s!"{location}.{index}", problem⟩ :: faults)

/-- Read a list of texts. -/
def texts (location : String) : Document → Except (List FieldFault) (List String)
  | .list items => textItems location 0 items
  | _ => .error [⟨location, .notList⟩]

end IndicatorFormula.Field
