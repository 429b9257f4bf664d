/-!
# Blank characters

The characters that separate words: the white space of Unicode together with the
four information separators and the next-line control. The zero-width characters
are not blank.
-/

namespace IndicatorFormula.Text

/-- A blank separates words and carries no meaning of its own. -/
def isBlank (c : Char) : Bool :=
  let n := c.toNat
  (0x09 ≤ n && n ≤ 0x0D) || (0x1C ≤ n && n ≤ 0x20) || n == 0x85 || n == 0xA0 || n == 0x1680 ||
    (0x2000 ≤ n && n ≤ 0x200A) || n == 0x2028 || n == 0x2029 || n == 0x202F || n == 0x205F ||
    n == 0x3000

/-- The text without its leading blanks. -/
def dropBlanks (cs : List Char) : List Char := cs.dropWhile isBlank

/-- The text without its leading and trailing blanks. -/
def strip (cs : List Char) : List Char :=
  (dropBlanks (dropBlanks cs).reverse).reverse

/-- The string without its leading and trailing blanks. -/
def trimmed (s : String) : String := String.ofList (strip s.toList)

/-- What is left begins with no blank. -/
theorem dropBlanks_dropBlanks (cs : List Char) : dropBlanks (dropBlanks cs) = dropBlanks cs := by
  induction cs with
  | nil => rfl
  | cons c cs ih =>
    by_cases h : isBlank c = true
    · simpa only [dropBlanks, List.dropWhile_cons, h, if_true] using ih
    · simp only [dropBlanks, List.dropWhile_cons, h, if_false, Bool.false_eq_true]

end IndicatorFormula.Text
