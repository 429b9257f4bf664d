import IndicatorFormula.Decimal.Numeral
import IndicatorFormula.Proofs.Formula.Words

/-!
# Numerals and words

A numeral and a word can begin alike. Which of the two stands at the front of a text is
settled by what follows the longest numeral: a word character makes it a word. A word of
digits only is therefore read as a word only in front of a point or of a digit that no word
can hold, and nothing that belongs to a formula begins so.
-/

namespace IndicatorFormula.Formula

open Text Decimal

/-- Whether a word has digits only. -/
def isDigits (cs : List Char) : Bool := cs ≠ [] && cs.all Char.isDigit

/-- Whether a word has the form of a whole number: digits, perhaps behind a minus sign. -/
def isWholeNumeral : List Char → Bool
  | '-' :: rest => isDigits rest
  | cs => isDigits cs

private theorem isWordChar_table {c : Char} (h : isWordChar c = true) :
    isDigit c = c.isDigit ∧ c ≠ '.' ∧ c ≠ '(' :=
  isWordChar_forall (P := fun c => isDigit c = c.isDigit ∧ c ≠ '.' ∧ c ≠ '(') (by decide) h

/-- Of the word characters the ASCII digits are digits. -/
theorem isDigit_of_isWordChar {c : Char} (h : isWordChar c = true) : isDigit c = c.isDigit :=
  (isWordChar_table h).1

theorem isWordChar_of_isDigit {c : Char} (h : c.isDigit = true) : isWordChar c = true := by
  simp [isWordChar, Char.isAlphanum, h]

/-- The ASCII digits are digits. -/
theorem isDigit_of_ascii {c : Char} (h : c.isDigit = true) : isDigit c = true := by
  rw [isDigit_of_isWordChar (isWordChar_of_isDigit h), h]

/-- The code points of the blanks. -/
private def blankCodes : List Nat :=
  [0x09, 0x0A, 0x0B, 0x0C, 0x0D, 0x1C, 0x1D, 0x1E, 0x1F, 0x20, 0x85, 0xA0, 0x1680, 0x2000,
    0x2001, 0x2002, 0x2003, 0x2004, 0x2005, 0x2006, 0x2007, 0x2008, 0x2009, 0x200A, 0x2028,
    0x2029, 0x202F, 0x205F, 0x3000]

/-- A blank is one of the listed characters. -/
private theorem mem_blankCodes {c : Char} (h : isBlank c = true) : c.toNat ∈ blankCodes := by
  simp only [isBlank, Bool.or_eq_true, Bool.and_eq_true, decide_eq_true_eq, beq_iff_eq] at h
  simp only [blankCodes, List.mem_cons, List.not_mem_nil, or_false]
  omega

/-- No digit of any script is a blank. -/
theorem isDigit_of_isBlank {c : Char} (h : isBlank c = true) : isDigit c = false := by
  have hcodes : ∀ n ∈ blankCodes,
      (digitZeros.find? fun z => z ≤ n && n < z + 10) = none := by decide
  simp [isDigit, digitValue?, hcodes c.toNat (mem_blankCodes h)]

/-- A run of digits is scanned to its end. -/
theorem digits_append_run {ds rest : List Char} (hds : ∀ c ∈ ds, isDigit c = true)
    (hrest : startsWith isDigit rest = false) : Numeral.digits (ds ++ rest) = (ds, rest) := by
  obtain ⟨ht, hd⟩ := takeWhile_append_run hds hrest
  simp only [Numeral.digits, ht, hd]

/-- Without a point there is no fraction. -/
theorem scanFraction_of_startsWith {cs : List Char} (h : startsWith (· = '.') cs = false) :
    Numeral.scanFraction cs = ([], cs) := by
  cases cs with
  | nil => rfl
  | cons c cs =>
    have hc : c ≠ '.' := by simpa [startsWith] using h
    unfold Numeral.scanFraction
    split
    · rename_i he
      exact absurd (List.cons.inj he).1 hc
    · rfl

theorem scanFraction_append_run {ds rest : List Char} (hne : ds ≠ [])
    (hds : ∀ c ∈ ds, isDigit c = true) (hrest : startsWith isDigit rest = false) :
    Numeral.scanFraction ('.' :: (ds ++ rest)) = (ds, rest) := by
  simp only [Numeral.scanFraction, digits_append_run hds hrest, hne, if_false]

/-- Digits that no digit follows are the whole part of the numeral in front of a text. -/
theorem scanUnsigned?_append_run (negative : Bool) {ds rest : List Char} (hne : ds ≠ [])
    (hds : ∀ c ∈ ds, isDigit c = true) (hrest : startsWith isDigit rest = false) :
    Numeral.scanUnsigned? negative (ds ++ rest) =
      some (⟨negative, ds, (Numeral.scanFraction rest).1⟩, (Numeral.scanFraction rest).2) := by
  simp only [Numeral.scanUnsigned?, digits_append_run hds hrest, hne, if_false]

/-- Without a digit there is no number. -/
theorem scanUnsigned?_eq_none {negative : Bool} {cs : List Char}
    (h : startsWith isDigit cs = false) : Numeral.scanUnsigned? negative cs = none := by
  have hnil : ∀ c ∈ ([] : List Char), isDigit c = true := by simp
  have hd : Numeral.digits cs = ([], cs) := digits_append_run hnil h
  simp only [Numeral.scanUnsigned?, hd, if_true]

/-- Without a minus the sign is not negative. -/
theorem scan?_of_ne_minus {c : Char} {cs : List Char} (h : c ≠ '-') :
    Numeral.scan? (c :: cs) = Numeral.scanUnsigned? false (c :: cs) := by
  unfold Numeral.scan?
  split
  · rename_i he
    exact absurd (List.cons.inj he).1 h
  · rfl

/-- A numeral is scanned as it was written when no more of it can follow. -/
theorem scan?_text {n : Numeral} (hn : n.WellFormed) {rest : List Char}
    (hdigit : startsWith isDigit rest = false)
    (hpoint : n.fraction = [] → startsWith (· = '.') rest = false) :
    Numeral.scan? (n.text ++ rest) = some (n, rest) := by
  have htail : Numeral.scanFraction
      ((if n.fraction = [] then [] else '.' :: n.fraction) ++ rest) = (n.fraction, rest) := by
    split
    · rename_i he
      rw [he, List.nil_append, scanFraction_of_startsWith (hpoint he)]
    · rename_i hne
      exact scanFraction_append_run hne hn.fraction hdigit
  have hstop : startsWith isDigit
      ((if n.fraction = [] then [] else '.' :: n.fraction) ++ rest) = false := by
    split
    · simpa using hdigit
    · simp only [List.cons_append, startsWith]
      decide
  have hscan (negative : Bool) := scanUnsigned?_append_run negative
    hn.ne_nil hn.whole hstop
  rw [htail] at hscan
  unfold Numeral.text
  cases hneg : n.negative with
  | true =>
    simp only [if_true, List.cons_append, List.nil_append, List.append_assoc]
    rw [Numeral.scan?, hscan true, ← hneg]
  | false =>
    simp only [Bool.false_eq_true, if_false, List.nil_append, List.append_assoc]
    cases hw : n.whole with
    | nil => exact absurd hw hn.ne_nil
    | cons c ds =>
      have hc : c ≠ '-' := by
        rintro rfl
        have := hn.whole '-' (hw ▸ List.mem_cons_self ..)
        revert this
        decide
      rw [List.cons_append, scan?_of_ne_minus hc, ← List.cons_append, ← hw, hscan false, ← hneg]

/-- A word is scanned for a numeral behind its minus sign, if it has one. -/
private theorem scan?_word {token : List Char} (hne : token ≠ []) :
    ∃ negative body, (∀ c ∈ body, c ∈ token) ∧ isWholeNumeral token = isDigits body ∧
      ∀ rest, Numeral.scan? (token ++ rest) = Numeral.scanUnsigned? negative (body ++ rest) := by
  cases token with
  | nil => exact absurd rfl hne
  | cons c body =>
    by_cases hc : c = '-'
    · subst hc
      exact ⟨true, body, fun _ h => List.mem_cons_of_mem _ h, rfl, fun rest => rfl⟩
    · refine ⟨false, c :: body, fun _ h => h, ?_, fun rest => scan?_of_ne_minus hc⟩
      unfold isWholeNumeral
      split
      · rename_i he
        exact absurd (List.cons.inj he).1 hc
      · rfl

/-- A word that is not all digits is no number. -/
private theorem scanUnsigned?_word {negative : Bool} {body rest : List Char}
    (hword : ∀ c ∈ body, isWordChar c = true) (hdigits : isDigits body = false)
    (hrest : startsWith isDigit rest = false) :
    (Numeral.scanUnsigned? negative (body ++ rest)).filter
      (fun r => !startsWith isWordChar r.2) = none := by
  have hsplit : body.takeWhile Char.isDigit ++ body.dropWhile Char.isDigit = body :=
    List.takeWhile_append_dropWhile
  have hds : ∀ c ∈ body.takeWhile Char.isDigit, isDigit c = true :=
    fun c hc => isDigit_of_ascii (List.mem_takeWhile_imp hc)
  have htail := startsWith_dropWhile Char.isDigit body
  generalize body.takeWhile Char.isDigit = ds at hsplit hds
  generalize body.dropWhile Char.isDigit = tail at hsplit htail
  subst hsplit
  cases tail with
  | nil =>
    -- The word has digits only, so it has none at all.
    have hnil : ds = [] := by
      by_contra hne
      have hall : ds.all Char.isDigit = true := List.all_eq_true.mpr fun c hc => by
        rw [← isDigit_of_isWordChar (hword c (by simpa using hc))]
        exact hds c hc
      simp [isDigits, hne, hall] at hdigits
    simp [hnil, scanUnsigned?_eq_none hrest]
  | cons c tail =>
    have hc : isWordChar c = true := hword c (by simp)
    have hnd : isDigit c = false := by
      rw [isDigit_of_isWordChar hc]
      simpa [startsWith] using htail
    by_cases hne : ds = []
    · rw [hne, List.nil_append, List.cons_append, scanUnsigned?_eq_none
        (by simpa [startsWith] using hnd)]
      rfl
    · rw [List.append_assoc, scanUnsigned?_append_run _ hne hds (by simpa [startsWith] using hnd),
        List.cons_append, scanFraction_of_startsWith
          (by simpa [startsWith] using (isWordChar_table hc).2.1)]
      simp [startsWith, hc]

/-- A word that is no whole number is read as no numeral. -/
theorem wholeNumeral?_word {token rest : List Char} (hword : IsWord token rest)
    (hnum : isWholeNumeral token = false) (hrest : startsWith isDigit rest = false) :
    wholeNumeral? (token ++ rest) = none := by
  obtain ⟨negative, body, hsub, hbody, hscan⟩ := scan?_word hword.ne_nil
  rw [wholeNumeral?, hscan]
  exact scanUnsigned?_word (fun c hc => hword.chars c (hsub c hc)) (hbody ▸ hnum) hrest

/-- A whole number is read as a word only in front of a point or of another digit. -/
theorem startsWith_of_wholeNumeral?_eq_none {token rest : List Char} (hword : IsWord token rest)
    (hnum : isWholeNumeral token = true) (hnone : wholeNumeral? (token ++ rest) = none) :
    startsWith (fun c => c = '.' || isDigit c) rest = true := by
  obtain ⟨negative, body, hsub, hbody, hscan⟩ := scan?_word hword.ne_nil
  rw [hbody] at hnum
  simp only [isDigits, Bool.and_eq_true, decide_eq_true_eq, List.all_eq_true] at hnum
  by_contra hrest
  have hpoint : startsWith (· = '.') rest = false := by
    cases rest with
    | nil => rfl
    | cons c rest => simp_all [startsWith]
  have hdigit : startsWith isDigit rest = false := by
    cases rest with
    | nil => rfl
    | cons c rest => simp_all [startsWith]
  rw [wholeNumeral?, hscan, scanUnsigned?_append_run _ hnum.1
    (fun c hc => isDigit_of_ascii (hnum.2 c hc)) hdigit, scanFraction_of_startsWith hpoint] at hnone
  simp [hword.stops] at hnone

/-- What begins neither with a minus nor with a digit is no number. -/
theorem wholeNumeral?_cons {c : Char} {cs : List Char} (hminus : c ≠ '-')
    (hdigit : isDigit c = false) : wholeNumeral? (c :: cs) = none := by
  rw [wholeNumeral?, scan?_of_ne_minus hminus,
    scanUnsigned?_eq_none (by simpa [startsWith] using hdigit)]
  rfl

/-- A function name begins with no digit and no minus sign, so no numeral does with it. -/
theorem wholeNumeral?_of_isFunctionName {token : List Char}
    (h : isFunctionName token = true) (rest : List Char) :
    wholeNumeral? (token ++ rest) = none := by
  cases token with
  | nil => simp [isFunctionName] at h
  | cons c token =>
    simp only [isFunctionName, Bool.and_eq_true, Bool.or_eq_true, decide_eq_true_eq] at h
    have hword : isWordChar c = true := by
      rcases h.1 with hc | hc <;> simp [isWordChar, Char.isAlphanum, hc]
    have hfirst : c ≠ '-' ∧ isDigit c = false := by
      have htable := isWordChar_forall (P := fun c => (c.isAlpha || c = '_') = true →
        c ≠ '-' ∧ isDigit c = false) (by decide) hword
      exact htable (by simpa using h.1)
    exact wholeNumeral?_cons hfirst.1 hfirst.2

/-- A numeral does not begin with a quote. -/
theorem wholeNumeral?_of_isQuote {c : Char} {cs : List Char} (h : isQuote c = true) :
    wholeNumeral? (c :: cs) = none := by
  simp only [isQuote, Bool.or_eq_true, decide_eq_true_eq] at h
  rcases h with rfl | rfl <;> exact wholeNumeral?_cons (by decide) (by decide)

end IndicatorFormula.Formula
