import IndicatorFormula.Text.Digit

/-!
# Decimal numerals

A numeral is an optional minus sign, digits of any script, and perhaps a point with more
digits. Scanning takes the longest numeral at the front of a text; its value is the double
nearest to the written decimal.
-/

namespace IndicatorFormula.Decimal

open Text

/-- A written decimal number, digit by digit. -/
structure Numeral where
  /-- Whether a minus sign stands in front. -/
  negative : Bool
  /-- The digits before the point, at least one. -/
  whole : List Char
  /-- The digits behind the point, empty when there is no point. -/
  fraction : List Char
  deriving DecidableEq, Repr

namespace Numeral

/-- The numeral as it was written. -/
def text (n : Numeral) : List Char :=
  (if n.negative then ['-'] else []) ++ n.whole ++
    (if n.fraction = [] then [] else '.' :: n.fraction)

/-- The number that a row of digits spells. -/
def digitsValue (cs : List Char) : Nat :=
  cs.foldl (fun total c => 10 * total + digitValue c) 0

/-- The double nearest to the written number; a numeral beyond the range is infinite. -/
def value (n : Numeral) : Float :=
  let magnitude := Float.ofScientific (digitsValue (n.whole ++ n.fraction)) true n.fraction.length
  if n.negative then -magnitude else magnitude

/-- The digits at the front of a text, and what follows them. -/
def digits (cs : List Char) : List Char × List Char := (cs.takeWhile isDigit, cs.dropWhile isDigit)

/-- The fraction at the front of a text: a point counts only with a digit behind it. -/
def scanFraction : List Char → List Char × List Char
  | '.' :: rest => if (digits rest).1 = [] then ([], '.' :: rest) else digits rest
  | cs => ([], cs)

/-- An unsigned numeral at the front of a text. -/
def scanUnsigned? (negative : Bool) (cs : List Char) : Option (Numeral × List Char) :=
  if (digits cs).1 = [] then none
  else
    let fraction := scanFraction (digits cs).2
    some (⟨negative, (digits cs).1, fraction.1⟩, fraction.2)

/-- The longest numeral at the front of a text, and what follows it. -/
def scan? : List Char → Option (Numeral × List Char)
  | '-' :: rest => scanUnsigned? true rest
  | cs => scanUnsigned? false cs

/-- Digits and remainder are the text again. -/
theorem digits_append (cs : List Char) : (digits cs).1 ++ (digits cs).2 = cs :=
  List.takeWhile_append_dropWhile

/-- The fraction with its point and the remainder are the text again. -/
theorem scanFraction_append (cs : List Char) :
    (if (scanFraction cs).1 = [] then [] else '.' :: (scanFraction cs).1) ++ (scanFraction cs).2 =
      cs := by
  unfold scanFraction
  split
  · rename_i rest
    by_cases he : (digits rest).1 = []
    · simp [he]
    · simpa [he] using digits_append rest
  · rfl

/-- An unsigned numeral and its remainder are the text again. -/
theorem scanUnsigned?_eq_some {negative : Bool} {cs rest : List Char} {n : Numeral}
    (h : scanUnsigned? negative cs = some (n, rest)) :
    n.negative = negative ∧ n.whole ≠ [] ∧
      n.whole ++ (if n.fraction = [] then [] else '.' :: n.fraction) ++ rest = cs := by
  unfold scanUnsigned? at h
  split at h
  · exact absurd h (by simp)
  · rename_i hne
    simp only [Option.some.injEq, Prod.mk.injEq] at h
    obtain ⟨rfl, rfl⟩ := h
    refine ⟨rfl, hne, ?_⟩
    rw [List.append_assoc, scanFraction_append]
    exact digits_append cs

/-- What is scanned is a prefix of the text, and the remainder follows it. -/
theorem scan?_eq_some {cs rest : List Char} {n : Numeral} (h : scan? cs = some (n, rest)) :
    n.text ++ rest = cs := by
  unfold scan? at h
  split at h
  · obtain ⟨hn, _, hs⟩ := scanUnsigned?_eq_some h
    simp only [text, hn, if_true, List.cons_append, List.nil_append, List.append_assoc]
    rw [← hs, List.append_assoc]
  · obtain ⟨hn, _, hs⟩ := scanUnsigned?_eq_some h
    simp only [text, hn, List.nil_append, Bool.false_eq_true, if_false]
    exact hs

/-- A numeral has at least one character. -/
theorem text_ne_nil_of_scan? {cs rest : List Char} {n : Numeral}
    (h : scan? cs = some (n, rest)) : n.text ≠ [] := by
  have hw : n.whole ≠ [] := by
    unfold scan? at h
    split at h <;> exact (scanUnsigned?_eq_some h).2.1
  intro he
  simp only [text, List.append_eq_nil_iff] at he
  exact hw he.1.2

/-- Scanning a numeral makes the text shorter. -/
theorem length_lt_of_scan? {cs rest : List Char} {n : Numeral}
    (h : scan? cs = some (n, rest)) : rest.length < cs.length := by
  have hs := congrArg List.length (scan?_eq_some h)
  have hn := List.length_pos_iff.mpr (text_ne_nil_of_scan? h)
  simp only [List.length_append] at hs
  omega

/-- A numeral has digits only, and some before the point. -/
structure WellFormed (n : Numeral) : Prop where
  /-- There is a digit before the point. -/
  ne_nil : n.whole ≠ []
  /-- Before the point stand digits. -/
  whole : ∀ c ∈ n.whole, isDigit c = true
  /-- Behind the point stand digits. -/
  fraction : ∀ c ∈ n.fraction, isDigit c = true

end Numeral

end IndicatorFormula.Decimal
