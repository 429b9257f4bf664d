import IndicatorFormula.Text.Blank
import IndicatorFormula.Text.Case

/-!
# Slugs of names

The slug of a name is its short form: in small letters, with one underscore for each run of
blanks and without any other character than letters, digits, underscores and hyphens.
-/

namespace IndicatorFormula

open Text

/-- A character that may stand in a slug. -/
def isSlugChar (c : Char) : Bool := c.isLower || c.isDigit || c = '_' || c = '-'

/-- The characters of a slug, given whether a blank came just before. -/
def slugChars (afterBlank : Bool) : List Char → List Char
  | [] => []
  | c :: rest =>
    if isBlank c then
      if afterBlank then slugChars true rest else '_' :: slugChars true rest
    else (asciiLower c).filter isSlugChar ++ slugChars false rest

/-- The slug of a name. -/
def slugOf (name : String) : String := String.ofList (slugChars false (strip name.toList))

/-- A slug holds nothing but slug characters. -/
theorem isSlugChar_of_mem {c : Char} {afterBlank : Bool} {cs : List Char}
    (h : c ∈ slugChars afterBlank cs) : isSlugChar c = true := by
  induction cs generalizing afterBlank with
  | nil => simp [slugChars] at h
  | cons d rest ih =>
    unfold slugChars at h
    split at h
    · split at h
      · exact ih h
      · rcases List.mem_cons.mp h with rfl | h
        · decide
        · exact ih h
    · rcases List.mem_append.mp h with h | h
      · exact (List.mem_filter.mp h).2
      · exact ih h

end IndicatorFormula
