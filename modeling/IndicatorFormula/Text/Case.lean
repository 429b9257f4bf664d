/-!
# Letter case

Names of functions and levels are compared without regard to case, and slugs are spelled
in small letters. Both need the full case mappings only where these end in ASCII, and the
few foreign characters for which they do are listed here.
-/

namespace IndicatorFormula.Text

/-- The capital form of a character, when it is ASCII. -/
def asciiUpper? (c : Char) : Option (List Char) :=
  if c.toNat < 0x80 then some [c.toUpper]
  else match c with
    | 'ß' => some ['S', 'S']
    | 'ı' => some ['I']
    | 'ſ' => some ['S']
    | 'ﬀ' => some ['F', 'F']
    | 'ﬁ' => some ['F', 'I']
    | 'ﬂ' => some ['F', 'L']
    | 'ﬃ' => some ['F', 'F', 'I']
    | 'ﬄ' => some ['F', 'F', 'L']
    | 'ﬅ' => some ['S', 'T']
    | 'ﬆ' => some ['S', 'T']
    | _ => none

/-- The capital form of a text, when it is ASCII throughout. -/
def asciiCapitals? (s : String) : Option String :=
  (s.toList.mapM asciiUpper?).map fun parts => String.ofList parts.flatten

/-- The ASCII part of the small form of a character. -/
def asciiLower (c : Char) : List Char :=
  if c.toNat < 0x80 then [c.toLower]
  else match c with
    | 'İ' => ['i']
    | '\u212A' => ['k']
    | _ => []

end IndicatorFormula.Text
