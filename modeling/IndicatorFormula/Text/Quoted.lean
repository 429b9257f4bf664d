import IndicatorFormula.Text.Printable

/-!
# Quoted text

How a message shows a piece of a formula: between quotes, with every character that
could not be seen written as an escape.
-/

namespace IndicatorFormula.Text

/-- The character that opens an escape. -/
def backslash : Char := '\x5C'

/-- The single quote. -/
def singleQuote : Char := '\x27'

/-- The double quote. -/
def doubleQuote : Char := '\x22'

/-- The lower-case hexadecimal digits of a number, filled with zeros to a width. -/
def hexDigits (width n : Nat) : List Char :=
  let digits := Nat.toDigits 16 n
  List.replicate (width - digits.length) '0' ++ digits

/-- The escape of an unprintable character: two, four or eight hexadecimal digits. -/
def escapedCode (n : Nat) : List Char :=
  if n ≤ 0xFF then backslash :: 'x' :: hexDigits 2 n
  else if n ≤ 0xFFFF then backslash :: 'u' :: hexDigits 4 n
  else backslash :: 'U' :: hexDigits 8 n

/-- One character inside quotes. -/
def escaped (quote c : Char) : List Char :=
  if c = quote ∨ c = backslash then [backslash, c]
  else if c = '\n' then [backslash, 'n']
  else if c = '\r' then [backslash, 'r']
  else if c = '\t' then [backslash, 't']
  else if isPrintable c then [c]
  else escapedCode c.toNat

/-- Single quotes are preferred; double quotes serve a text that holds single quotes only. -/
def quoteFor (cs : List Char) : Char :=
  if singleQuote ∈ cs ∧ doubleQuote ∉ cs then doubleQuote else singleQuote

/-- The text between quotes, as a message shows it. -/
def quoted (s : String) : String :=
  let quote := quoteFor s.toList
  String.ofList (quote :: s.toList.flatMap (escaped quote) ++ [quote])

end IndicatorFormula.Text
