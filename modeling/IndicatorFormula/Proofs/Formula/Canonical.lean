import IndicatorFormula.Formula.Printer
import IndicatorFormula.Proofs.Formula.Reading

/-!
# Formulas that a text can have

Not every formula can be written: a number has to be finite, a slug must not look like a
whole number, a text can be put between quotes only if one sort of quote is missing from it,
and a call has a name in capitals and at least one argument. What a text is read as always
has this form.
-/

namespace IndicatorFormula.Formula

open Text Decimal

/-- Whether a word can be the name of a call: capitals, digits and underscores, the first
of them no digit. -/
def isCapitalName : List Char → Bool
  | [] => false
  | c :: rest => (c.isUpper || c = '_') && rest.all fun d => d.isUpper || d.isDigit || d = '_'

/-- Whether a word can be a slug: it is not empty and looks like no whole number. -/
def isSlugWord (cs : List Char) : Bool := cs ≠ [] && cs.all isWordChar && !isWholeNumeral cs

/-- Whether a text can be put between quotes: it does not hold quotes of both sorts. -/
def isQuotable (cs : List Char) : Bool := !(singleQuote ∈ cs && doubleQuote ∈ cs)

/-- Whether a row of arguments begins with a quoted text. -/
def beginsWithText : List Formula → Bool
  | literal _ _ :: _ => true
  | _ => false

mutual

/-- Whether a formula can be written. -/
def isCanonical : Formula → Bool
  | number x _ => x.isFinite
  | literal s _ => isQuotable s.toList
  | indicator slug _ => isSlugWord slug.toList
  | call name args _ =>
    isCapitalName name.toList && (args ≠ [] && (!takesRawText name || beginsWithText args)) &&
      areCanonical args
  | hole => false

/-- Whether every formula of a row can be written. -/
def areCanonical : List Formula → Bool
  | [] => true
  | f :: rest => isCanonical f && areCanonical rest

end

/-- Arguments are canonical together just when each of them is. -/
theorem areCanonical_iff {args : List Formula} :
    areCanonical args = true ↔ ∀ f ∈ args, f.isCanonical = true := by
  induction args with
  | nil => simp [areCanonical]
  | cons f rest ih => simp [areCanonical, ih]

/-- A call is canonical just when its name and its arguments are. -/
theorem isCanonical_call_iff {name : String} {args : List Formula} {p : Nat} :
    (call name args p).isCanonical = true ↔ isCapitalName name.toList = true ∧ args ≠ [] ∧
      (takesRawText name = true → beginsWithText args = true) ∧
      ∀ f ∈ args, f.isCanonical = true := by
  simp only [isCanonical, Bool.and_eq_true, Bool.or_eq_true, Bool.not_eq_true',
    decide_eq_true_eq, areCanonical_iff]
  cases takesRawText name <;> simp [and_assoc]

/-- Which of the word characters are capitals, digits or underscores, character by character. -/
private theorem isCapital_table {c : Char} (h : isWordChar c = true) :
    ((c.isUpper || c = '_') = true → (c.isAlpha || c = '_') = true) ∧
      ((c.isUpper || c.isDigit || c = '_') = true →
        (c.isAlphanum || c = '_') = true ∧ c.toUpper = c) :=
  isWordChar_forall (P := fun c => ((c.isUpper || c = '_') = true → (c.isAlpha || c = '_') = true) ∧
      ((c.isUpper || c.isDigit || c = '_') = true →
        (c.isAlphanum || c = '_') = true ∧ c.toUpper = c)) (by decide) h

/-- The name of a call is a function name that is in capitals already. -/
theorem isCapitalName_spec {name : List Char} (h : isCapitalName name = true) :
    isFunctionName name = true ∧ capitals name = String.ofList name ∧
      ∀ c ∈ name, isWordChar c = true := by
  cases name with
  | nil => simp [isCapitalName] at h
  | cons c name =>
    simp only [isCapitalName, Bool.and_eq_true, List.all_eq_true] at h
    have hall : ∀ d ∈ c :: name, (d.isUpper || d.isDigit || d = '_') = true := by
      refine List.forall_mem_cons.mpr ⟨?_, h.2⟩
      have hc := h.1
      simp only [Bool.or_eq_true] at hc ⊢
      exact hc.imp_left .inl
    have hword : ∀ d ∈ c :: name, isWordChar d = true := by
      intro d hd
      have hcap := hall d hd
      simp only [Bool.or_eq_true, decide_eq_true_eq] at hcap
      rcases hcap with (hu | hu) | hu <;>
        simp [isWordChar, Char.isAlphanum, Char.isAlpha, hu]
    have htable (d : Char) (hd : d ∈ c :: name) := (isCapital_table (hword d hd)).2 (hall d hd)
    have hc := List.mem_cons_self (a := c) (l := name)
    refine ⟨?_, ?_, hword⟩
    · simp only [isFunctionName, Bool.and_eq_true, List.all_eq_true]
      exact ⟨(isCapital_table (hword c hc)).1 h.1,
        fun d hd => (htable d (List.mem_cons_of_mem _ hd)).1⟩
    · rw [capitals, List.map_congr_left fun d hd => (htable d hd).2, List.map_id']

/-- The capital of a word character is a word character of the same kind. -/
private theorem isUpper_table {c : Char} (h : isWordChar c = true) :
    ((c.isAlpha || c = '_') = true → (c.toUpper.isUpper || c.toUpper = '_') = true) ∧
      ((c.isAlphanum || c = '_') = true →
        (c.toUpper.isUpper || c.toUpper.isDigit || c.toUpper = '_') = true) :=
  isWordChar_forall (P := fun c =>
    ((c.isAlpha || c = '_') = true → (c.toUpper.isUpper || c.toUpper = '_') = true) ∧
      ((c.isAlphanum || c = '_') = true →
        (c.toUpper.isUpper || c.toUpper.isDigit || c.toUpper = '_') = true)) (by decide) h

/-- A function name in capitals is the name of a call. -/
theorem isCapitalName_capitals {token : List Char} (h : isFunctionName token = true) :
    isCapitalName (capitals token).toList = true := by
  cases token with
  | nil => simp [isFunctionName] at h
  | cons c token =>
    simp only [isFunctionName, Bool.and_eq_true, List.all_eq_true] at h
    have hword {d : Char} (hd : (d.isAlphanum || d = '_') = true) : isWordChar d = true := by
      simp only [isWordChar, hd, Bool.true_or]
    have hfirst : (c.isAlphanum || c = '_') = true := by
      have hc := h.1
      simp only [Bool.or_eq_true] at hc ⊢
      exact hc.imp_left fun hc => by simp [Char.isAlphanum, hc]
    simp only [capitals, String.toList_ofList, List.map_cons, isCapitalName, Bool.and_eq_true,
      List.all_eq_true, List.mem_map]
    refine ⟨(isUpper_table (hword hfirst)).1 h.1, ?_⟩
    rintro _ ⟨d, hd, rfl⟩
    exact (isUpper_table (hword (h.2 d hd))).2 (h.2 d hd)

/-- Stripping adds no character. -/
theorem mem_of_mem_strip {c : Char} {cs : List Char} (h : c ∈ strip cs) : c ∈ cs := by
  have hdrop {xs : List Char} (hx : c ∈ dropBlanks xs) : c ∈ xs :=
    (List.dropWhile_sublist isBlank).subset hx
  exact hdrop (List.mem_reverse.mp (hdrop (List.mem_reverse.mp h)))

/-- A text without one of the quotes can be put between two of them. -/
private theorem isQuotable_of_not_mem {quote : Char} {cs : List Char}
    (hquote : isQuote quote = true) (h : quote ∉ cs) : isQuotable cs = true := by
  simp only [isQuote, Bool.or_eq_true, decide_eq_true_eq] at hquote
  rcases hquote with rfl | rfl
  · simp [isQuotable, singleQuote, h]
  · simp [isQuotable, doubleQuote, h]

/-- What begins with a quote is a quoted text. -/
theorem Reads.isLiteral {size : Nat} {cs rest : List Char} {f : Formula}
    (h : Reads size cs f rest) (hquote : startsWith isQuote (dropBlanks cs) = true) :
    ∃ s p, f = .literal s p := by
  have hno {token behind : List Char} (text : dropBlanks cs = token ++ behind)
      (word : IsWord token behind) : False := by
    obtain ⟨c, tail, hc, hq⟩ := startsWith_iff.mp hquote
    obtain ⟨d, tail', hd, hw⟩ := startsWith_iff.mp word.startsWith_append
    rw [← text, hc] at hd
    rw [(List.cons.inj hd).1, isQuote_of_isWordChar hw] at hq
    exact Bool.false_ne_true hq
  cases h with
  | quoted text isQuote free => exact ⟨_, _, rfl⟩
  | number numeral noCall finite =>
    obtain ⟨c, tail, hc, hq⟩ := startsWith_iff.mp hquote
    rw [hc, wholeNumeral?_of_isQuote hq] at numeral
    simp at numeral
  | indicator text word noNumeral noCall => exact (hno text word).elim
  | raw text word opening name takesRaw unquoted span filled => exact (hno text word).elim
  | call text word opening name quotedText filled row => exact (hno text word).elim

/-- What follows a formula does not belong to it: a text that begins with a point or with a
digit is nothing that can stand behind a formula. -/
private theorem startsWith_point_or_digit {rest : List Char}
    (h : startsWith (fun c => c = '.' || isDigit c) rest = true) :
    ∃ c more, dropBlanks rest = c :: more ∧ c ≠ ',' ∧ c ≠ ')' := by
  obtain ⟨c, more, rfl, hc⟩ := startsWith_iff.mp h
  have hblank : isBlank c = false := by
    by_contra hb
    have hd := isDigit_of_isBlank (by simpa using hb)
    have hpoint : c = '.' := by simpa [hd] using hc
    rw [hpoint] at hb
    exact hb (by decide)
  refine ⟨c, more, dropBlanks_of_startsWith (by simpa [startsWith] using hblank), ?_, ?_⟩
  · rintro rfl
    revert hc
    decide
  · rintro rfl
    revert hc
    decide

mutual

/-- A formula that is read can be written, unless what follows shows that the whole text is
no formula: a word that looks like a whole number is read only in front of a point or of a
digit. -/
theorem Reads.isCanonical {size : Nat} {cs rest : List Char} {f : Formula} :
    Reads size cs f rest → f.isCanonical = true ∨
      startsWith (fun c => c = '.' || isDigit c) rest = true
  | .quoted text hquote free => .inl (by
    simpa [Formula.isCanonical] using isQuotable_of_not_mem hquote free)
  | .number numeral noCall finite => .inl finite
  | .indicator text word noNumeral noCall => by
    rename_i token
    cases hnum : isWholeNumeral token with
    | true => exact .inr (startsWith_of_wholeNumeral?_eq_none word hnum noNumeral)
    | false =>
      refine .inl ?_
      simp only [Formula.isCanonical, isSlugWord, String.toList_ofList, hnum, Bool.and_eq_true,
        List.all_eq_true, decide_eq_true_eq, Bool.not_false, and_true]
      exact ⟨word.ne_nil, word.chars⟩
  | .raw text word opening name takesRaw unquoted span filled => .inl (by
    rename_i content
    refine isCanonical_call_iff.mpr ⟨isCapitalName_capitals name, by simp, fun _ => rfl, ?_⟩
    intro f hf
    rw [List.mem_singleton.mp hf]
    have hfree : singleQuote ∉ strip content := fun hm => by
      have hq := isQuote_of_mem_rawSpan 0 (by rw [span]; exact mem_of_mem_strip hm)
      revert hq
      decide
    simpa [Formula.isCanonical] using isQuotable_of_not_mem (by decide) hfree)
  | .call text word opening name quotedText filled row => .inl (by
    have hargs := row.areCanonical
    refine isCanonical_call_iff.mpr ⟨isCapitalName_capitals name, ?_, ?_, hargs⟩
    · cases row <;> simp
    · intro hraw
      have hquote := quotedText hraw
      rw [← dropBlanks_dropBlanks] at hquote
      cases row with
      | last first closing =>
        obtain ⟨s, p, rfl⟩ := first.isLiteral hquote
        rfl
      | more first comma filled row =>
        obtain ⟨s, p, rfl⟩ := first.isLiteral hquote
        rfl)

/-- Every argument of a call that is read can be written. -/
theorem ReadsRow.areCanonical {size : Nat} {cs rest : List Char} {args : List Formula} :
    ReadsRow size cs args rest → ∀ f ∈ args, f.isCanonical = true
  | .last first closing => by
    have hfirst := first.isCanonical.resolve_right fun h => by
      obtain ⟨c, more, hc, hcomma, hclose⟩ := startsWith_point_or_digit h
      rw [closing] at hc
      exact hclose (List.cons.inj hc).1.symm
    simpa using hfirst
  | .more first comma _ row => by
    have hfirst := first.isCanonical.resolve_right fun h => by
      obtain ⟨c, more, hc, hcomma, hclose⟩ := startsWith_point_or_digit h
      rw [comma] at hc
      exact hcomma (List.cons.inj hc).1.symm
    exact List.forall_mem_cons.mpr ⟨hfirst, row.areCanonical⟩

end

/-- A text is read only as a formula that can be written. -/
theorem isCanonical_of_read {text : String} {f : Formula} (h : read text = .ok f) :
    f.isCanonical = true := by
  obtain ⟨rest, hreads, hrest⟩ := readChars_ok_iff.mp h
  refine hreads.isCanonical.resolve_right fun hd => ?_
  obtain ⟨c, more, hc, -, -⟩ := startsWith_point_or_digit hd
  rw [hrest] at hc
  simp at hc

end IndicatorFormula.Formula
