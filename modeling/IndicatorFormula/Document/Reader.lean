import IndicatorFormula.Document.Basic

/-!
# Reading documents

Documents are read from JSON text. Besides the numbers of the standard the words for the
undefined and the infinite numbers are read as well.
-/

namespace IndicatorFormula.Document

/-- White space between the parts of a document. -/
def isGap (c : Char) : Bool := c = ' ' || c = '\t' || c = '\n' || c = '\r'

/-- The text without white space in front. -/
def dropGaps (cs : List Char) : List Char := cs.dropWhile isGap

/-- The value of a hexadecimal digit. -/
def hexValue? (c : Char) : Option Nat :=
  if c.isDigit then some (c.toNat - '0'.toNat)
  else if 'a' ≤ c ∧ c ≤ 'f' then some (c.toNat - 'a'.toNat + 10)
  else if 'A' ≤ c ∧ c ≤ 'F' then some (c.toNat - 'A'.toNat + 10)
  else none

/-- The number of four hexadecimal digits. -/
def hexCode? (a b c d : Char) : Option Nat := do
  return ((← hexValue? a) * 16 + (← hexValue? b)) * 256 + (← hexValue? c) * 16 + (← hexValue? d)

/-- The character behind a backslash that stands for one character. -/
def simpleEscape? : Char → Option Char
  | '\x22' => some '\x22'
  | '\x5C' => some '\x5C'
  | '/' => some '/'
  | 'b' => some '\x08'
  | 'f' => some '\x0C'
  | 'n' => some '\n'
  | 'r' => some '\r'
  | 't' => some '\t'
  | _ => none

/-- The character of two code units, of which the first is known to open a pair. -/
def pairCode (high low : Nat) : Char :=
  Char.ofNat (0x10000 + (high - 0xD800) * 0x400 + (low - 0xDC00))

/-- The second half of a pair of code units at the front of a text. -/
def lowUnit? : List Char → Option (Nat × List Char)
  | '\x5C' :: 'u' :: a :: b :: c :: d :: rest =>
    (hexCode? a b c d).bind fun n =>
      if 0xDC00 ≤ n ∧ n ≤ 0xDFFF then some (n, rest) else none
  | _ => none

/-- Read a text behind its opening quote. -/
def readText : Nat → List Char → Option (List Char × List Char)
  | 0, _ => none
  | steps + 1, cs =>
    match cs with
    | [] => none
    | '\x22' :: rest => some ([], rest)
    | '\x5C' :: 'u' :: a :: b :: c :: d :: rest => do
      let n ← hexCode? a b c d
      let (character, rest) :=
        if 0xD800 ≤ n ∧ n ≤ 0xDBFF then
          match lowUnit? rest with
          | some (low, rest) => (pairCode n low, rest)
          | none => (Char.ofNat 0xFFFD, rest)
        else if 0xDC00 ≤ n ∧ n ≤ 0xDFFF then (Char.ofNat 0xFFFD, rest)
        else (Char.ofNat n, rest)
      let (more, last) ← readText steps rest
      return (character :: more, last)
    | '\x5C' :: e :: rest => do
      let character ← simpleEscape? e
      let (more, last) ← readText steps rest
      return (character :: more, last)
    | c :: rest =>
      if c.toNat < 0x20 then none
      else do
        let (more, last) ← readText steps rest
        return (c :: more, last)

/-- The digits at the front of a text, and what follows them. -/
def splitDigits (cs : List Char) : List Char × List Char :=
  (cs.takeWhile Char.isDigit, cs.dropWhile Char.isDigit)

/-- The number that a row of digits spells. -/
def digitsNumber (cs : List Char) : Nat :=
  cs.foldl (fun total c => 10 * total + (c.toNat - '0'.toNat)) 0

/-- The fraction at the front of a text; a point counts only with a digit behind it. -/
def splitFraction : List Char → List Char × List Char
  | '.' :: rest => if (splitDigits rest).1 = [] then ([], '.' :: rest) else splitDigits rest
  | cs => ([], cs)

/-- The exponent behind its letter, if digits follow. -/
def splitExponent? : List Char → Option (Int × List Char)
  | [] => none
  | sign :: rest =>
    let (digits, last) := splitDigits (if sign = '+' || sign = '-' then rest else sign :: rest)
    if digits = [] then none
    else
      let e : Int := digitsNumber digits
      some (if sign = '-' then -e else e, last)

/-- The exponent at the front of a text, if there is one. -/
def exponent? : List Char → Option (Int × List Char)
  | c :: rest => if c = 'e' || c = 'E' then splitExponent? rest else none
  | [] => none

/-- A decimal number times a power of ten as the nearest double. -/
def scaled (digits : Nat) (exponent : Int) : Float :=
  if exponent < 0 then Float.ofScientific digits true exponent.natAbs
  else Float.ofScientific digits false exponent.natAbs

/-- The digits before the point: a leading zero stands alone. -/
def splitWhole (cs : List Char) : List Char × List Char :=
  match cs with
  | '0' :: rest => (['0'], rest)
  | _ => splitDigits cs

/-- Read a number behind its sign. -/
def readUnsigned (negative : Bool) (cs : List Char) : Option (Document × List Char) :=
  let (digits, rest) := splitWhole cs
  if digits = [] then none
  else
    let (fraction, rest) := splitFraction rest
    match fraction, exponent? rest with
    | [], none =>
      let n : Int := digitsNumber digits
      some (whole (if negative then -n else n), rest)
    | _, found =>
      let (e, rest) := found.getD (0, rest)
      let magnitude := scaled (digitsNumber (digits ++ fraction)) (e - fraction.length)
      some (number (if negative then -magnitude else magnitude), rest)

/-- The words that stand for values. -/
def words : List (String × Document) := [
  ("null", null), ("true", bool true), ("false", bool false), ("NaN", number (0.0 / 0.0)),
  ("Infinity", number (1.0 / 0.0)), ("-Infinity", number (-1.0 / 0.0))]

/-- Read a word that stands for a value. -/
def readWord (cs : List Char) : Option (Document × List Char) :=
  words.findSome? fun w =>
    if w.1.toList.isPrefixOf cs then some (w.2, cs.drop w.1.length) else none

/-- Read a number or a word. -/
def readPlain (cs : List Char) : Option (Document × List Char) :=
  match readWord cs with
  | some r => some r
  | none => match cs with
    | '-' :: rest => readUnsigned true rest
    | _ => readUnsigned false cs

mutual

/-- Read one document. -/
def readOne : Nat → List Char → Option (Document × List Char)
  | 0, _ => none
  | steps + 1, cs =>
    match dropGaps cs with
    | '\x22' :: rest =>
      (readText (rest.length + 1) rest).map fun r => (text (String.ofList r.1), r.2)
    | '[' :: rest =>
      match dropGaps rest with
      | ']' :: last => some (list [], last)
      | inside => (readItems steps inside).map fun r => (list r.1, r.2)
    | '\x7b' :: rest =>
      match dropGaps rest with
      | '\x7d' :: last => some (record [], last)
      | inside => (readFields steps inside).map fun r => (record r.1, r.2)
    | plain => readPlain plain

/-- Read the items of a list up to its end. -/
def readItems : Nat → List Char → Option (List Document × List Char)
  | 0, _ => none
  | steps + 1, cs =>
    match readOne steps cs with
    | none => none
    | some (first, rest) =>
      match dropGaps rest with
      | ',' :: more => (readItems steps more).map fun r => (first :: r.1, r.2)
      | ']' :: last => some ([first], last)
      | _ => none

/-- Read the fields of a record up to its end. -/
def readFields : Nat → List Char → Option (List (String × Document) × List Char)
  | 0, _ => none
  | steps + 1, cs =>
    match dropGaps cs with
    | '\x22' :: rest =>
      match readText (rest.length + 1) rest with
      | none => none
      | some (name, after) =>
        match dropGaps after with
        | ':' :: body =>
          match readOne steps body with
          | none => none
          | some (value, rest) =>
            match dropGaps rest with
            | ',' :: more =>
              (readFields steps more).map fun r => ((String.ofList name, value) :: r.1, r.2)
            | '\x7d' :: last => some ([(String.ofList name, value)], last)
            | _ => none
        | _ => none
    | _ => none

end

/-- Read a document; nothing may follow it. -/
def read? (s : String) : Option Document :=
  match readOne (s.length + 1) s.toList with
  | some (d, rest) => if dropGaps rest = [] then some d else none
  | none => none

end IndicatorFormula.Document
