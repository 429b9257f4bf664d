import IndicatorFormula.Proofs.Decimal.Overflow
import IndicatorFormula.Proofs.Formula.Expected
import IndicatorFormula.Proofs.Formula.Phrases

/-!
# The range of numbers

A number of a formula is finite: where a formula is expected, a decimal that is too large for a
double is refused. A weight and a threshold have the value of the decimal that is written, which
is finite just when that decimal is not too large.
-/

namespace IndicatorFormula

open Text Decimal Formula

namespace Formula

variable {before rest : List Char} {n : Numeral}

/-- Every number of a formula that was read is finite. -/
theorem isFinite_of_read {text : String} {f : Formula} (h : read text = .ok f) {x : Float}
    {p : Nat} (hmem : number x p ∈ f.parts) : x.isFinite = true :=
  isCanonical_of_mem_parts (isCanonical_of_read h) hmem

/-- A numeral that is too large is refused, with what is wrong when a parenthesis is opened behind
it, since no numeral is a name. -/
theorem readNumber_of_tooLarge (start : Nat) (rest : List Char) (hlarge : tooLarge ≤ n.magnitude) :
    ∃ problem, readNumber start n rest = .error ⟨problem, start⟩ ∧
      (¬Opens rest ∧ problem = .outOfRange ∨
        Opens rest ∧ problem = .invalidName (String.ofList n.text)) := by
  rw [readNumber, n.isFinite_value_of_tooLarge hlarge]
  split
  · rename_i hopens
    exact ⟨_, rfl, .inr ⟨firstIs_iff.mpr hopens, rfl⟩⟩
  · rename_i hopens
    exact ⟨_, rfl, .inl ⟨fun h => hopens (firstIs_iff.mp h), rfl⟩⟩

/-- Where a formula is expected a numeral that is too large is what the whole text is refused
for. -/
theorem readChars_of_tooLarge (hbefore : ExpectsFormula before) (longest : n.IsLongest rest)
    (noWord : startsWith isWordChar rest = false) (hlarge : tooLarge ≤ n.magnitude) :
    ∃ problem, readChars (before ++ (n.text ++ rest)) = .error ⟨problem, before.length⟩ ∧
      (¬Opens rest ∧ problem = .outOfRange ∨
        Opens rest ∧ problem = .invalidName (String.ofList n.text)) := by
  have hdrop := ((beginsFormula_numeral longest.wellFormed).append rest).dropBlanks_eq
  obtain ⟨problem, hread, hproblem⟩ :=
    readNumber_of_tooLarge before.length rest hlarge
  refine ⟨problem, hbefore.refuses (fun steps hsteps => ?_) ?_, hproblem⟩
  · obtain ⟨steps, rfl⟩ : ∃ k, steps = k + 1 := ⟨steps - 1, by omega⟩
    have hnumeral : wholeNumeral? (dropBlanks (n.text ++ rest)) = some (n, rest) := by
      rw [hdrop]
      exact wholeNumeral?_eq_some_iff.mpr ⟨rfl, longest, noWord⟩
    rw [readOne_number _ steps hnumeral, hdrop, place_append rfl, hread]
  · rw [hdrop]
    exact (beginsFormula_numeral longest.wellFormed).append rest

end Formula

/-- A phrase ends in a decimal of the text, which has the value of the phrase and is finite just
when it is not too large. -/
theorem IsPhrase.exists_numeral {sign cs : List Char} {slug : String} {x : Float}
    (h : IsPhrase sign cs slug x) :
    ∃ (m : Margins) (n : Numeral), n.WellFormed ∧ cs = m.phrase slug.toList sign n.text ∧
      x = n.value ∧ (x.isFinite = true ↔ n.magnitude < tooLarge) := by
  obtain ⟨m, decimal, -, ⟨n, hn, rfl, rfl⟩, hcs⟩ := h
  exact ⟨m, n, hn, hcs, rfl, n.isFinite_value_iff⟩

/-- Every weight that was read has its phrase in the text. -/
theorem Constituent.exists_isSpelling {text : String} {position : Nat}
    {terms : List (Constituent Float)} (h : readAll text position = .ok terms)
    {term : Constituent Float} (hterm : term ∈ terms) :
    ∃ piece, piece <:+: text.toList ∧ IsSpelling piece term := by
  have hphrases := (areRead_nil_iff.mp (readAll_eq_ok_iff.mp h)).phrases
  obtain ⟨i, hi, rfl⟩ := List.mem_iff_getElem.mp hterm
  have hi' : i < (pieces text.toList).length := hphrases.length_eq ▸ hi
  have hsplit : pieces text.toList = (pieces text.toList).take i ++
      (pieces text.toList)[i] :: (pieces text.toList).drop (i + 1) := by
    rw [← List.drop_eq_getElem_cons hi', List.take_append_drop]
  obtain ⟨rest, hrest⟩ := exists_of_pieces hsplit
  refine ⟨(pieces text.toList)[i], ⟨closed ((pieces text.toList).take i), rest, ?_⟩,
    (List.forall₂_iff_get.mp hphrases).2 i hi' hi⟩
  rw [List.append_assoc]
  exact hrest.symm

/-- Numbers are in range. Every number of a formula that was read is finite. Where a formula is
expected, a decimal that is too large for a double is refused at its place. Every weight and every
threshold is the value of a decimal of the text, which is finite just when that decimal is not too
large. -/
theorem numbers_inRange (text : String) (position : Nat) :
    (∀ f : Formula, Formula.read text = .ok f → ∀ x p, .number x p ∈ f.parts →
      x.isFinite = true) ∧
    (∀ (before rest : List Char) (n : Numeral), ExpectsFormula before → n.IsLongest rest →
      startsWith isWordChar rest = false → text.toList = before ++ (n.text ++ rest) →
      tooLarge ≤ n.magnitude →
        ∃ problem, Formula.read text = .error ⟨problem, before.length⟩ ∧
          (¬Opens rest ∧ problem = .outOfRange ∨
            Opens rest ∧ problem = .invalidName (String.ofList n.text))) ∧
    (∀ terms : List (Constituent Float), Constituent.readAll text position = .ok terms →
      ∀ term ∈ terms, ∃ (m : Margins) (n : Numeral), n.WellFormed ∧
        m.phrase term.slug.toList [':'] n.text <:+: text.toList ∧ term.weight = n.value ∧
        (term.weight.isFinite = true ↔ n.magnitude < tooLarge)) ∧
    ∀ c : Condition, Condition.read text position = .ok c →
      ∃ (m : Margins) (n : Numeral), n.WellFormed ∧
        text.toList = m.phrase c.slug.toList c.comparison.symbol.toList n.text ∧
        c.threshold = n.value ∧ (c.threshold.isFinite = true ↔ n.magnitude < tooLarge) := by
  refine ⟨fun f hread x p => isFinite_of_read hread, ?_, ?_, ?_⟩
  · intro before rest n hbefore longest noWord htext hlarge
    rw [Formula.read, htext]
    exact readChars_of_tooLarge hbefore longest noWord hlarge
  · intro terms hread term hterm
    obtain ⟨piece, hpiece, hspelling⟩ := Constituent.exists_isSpelling hread hterm
    obtain ⟨m, n, hn, rfl, hvalue⟩ := IsPhrase.exists_numeral hspelling
    exact ⟨m, n, hn, hpiece, hvalue⟩
  · intro c hread
    exact (Condition.read_eq_ok_iff.mp hread).exists_numeral

/-- A power of ten, written with its zeros. -/
def powerOfTen (k : ℕ) : Numeral := ⟨false, '1' :: List.replicate k '0', []⟩

/-- A one followed by zeros is well formed. -/
theorem wellFormed_powerOfTen (k : ℕ) : (powerOfTen k).WellFormed := by
  refine ⟨nofun, ?_, nofun⟩
  intro c hc
  rcases List.mem_cons.mp hc with rfl | hc
  · decide
  · exact isDigit_of_mem_replicate hc

/-- A one followed by k zeros is the k-th power of ten. -/
theorem magnitude_powerOfTen (k : ℕ) : (powerOfTen k).magnitude = 10 ^ k := by
  have happend := digitsValue_append ['1'] (List.replicate k '0')
  have hone : Numeral.digitsValue ['1'] = 1 := by decide
  rw [digitsValue_replicate_zero, List.length_replicate, hone, one_mul, add_zero] at happend
  have hdigits : Numeral.digitsValue ((powerOfTen k).whole ++ (powerOfTen k).fraction) =
      10 ^ k := by
    rw [← happend, powerOfTen, List.append_nil]
    rfl
  have hlength : (powerOfTen k).fraction.length = 0 := rfl
  rw [Numeral.magnitude, hdigits, hlength, pow_zero, div_one, Nat.cast_pow]
  rfl

/-- A one followed by 400 zeros is too large for a double. -/
theorem tooLarge_le_powerOfTen : tooLarge ≤ (powerOfTen 400).magnitude := by
  have hpower : (2 : ℚ) ^ 1024 ≤ 10 ^ 400 :=
    calc (2 : ℚ) ^ 1024 ≤ 2 ^ (13 * 100) := pow_le_pow_right₀ one_le_two (by norm_num)
      _ = (2 ^ 13) ^ 100 := pow_mul ..
      _ ≤ (10 ^ 4) ^ 100 := by gcongr; norm_num
      _ = 10 ^ (4 * 100) := (pow_mul ..).symm
  rw [magnitude_powerOfTen]
  exact (sub_le_self _ (by positivity)).trans hpower

/-- No blanks at all. -/
def noMargins : Margins :=
  ⟨[], [], [], [], areBlanks_nil, areBlanks_nil, areBlanks_nil, areBlanks_nil⟩

/-- The second argument of a call is a place that expects a formula. -/
theorem expectsFormula_secondArgument : ExpectsFormula "sma(x, ".toList := by
  have first : Spells ['x'] (.indicator "x" 0) [','] :=
    .indicator ⟨by decide, List.all_eq_true.mp (by rfl), rfl⟩
      (wholeNumeral?_eq_none_iff.mp (by decide)) (not_firstIs_iff.mpr (by decide))
  have opened := @ExpectsArgument.opening _ "sma".toList [] (.start areBlanks_nil) (by decide)
    areBlanks_nil
  exact @ExpectsFormula.argument _ [' ']
    (.comma opened areBlanks_nil first nofun areBlanks_nil)
    (by simp [AreBlanks, isBlank])

/-- Whatever decimal is written as a weight or as a threshold is read as its value. -/
theorem phrases_read {n : Numeral} (hn : n.WellFormed) :
    Constituent.readAll (String.ofList ('x' :: ':' :: n.text)) 0 = .ok [⟨"x", n.value⟩] ∧
      Condition.read (String.ofList ('x' :: '>' :: n.text)) 0 = .ok ⟨"x", .greater, n.value⟩ := by
  have hdecimal : IsDecimal n.text n.value := ⟨n, hn, rfl, rfl⟩
  have hword : IsWord "x".toList [] := ⟨by decide, List.all_eq_true.mp (by rfl), rfl⟩
  constructor
  · refine Constituent.readAll_eq_ok_iff_isList.mpr
      ⟨by simp, [noMargins.phrase "x".toList [':'] n.text], ?_, ?_, by simp⟩
    · simp [noMargins, Margins.phrase]
    · exact .cons ⟨noMargins, n.text, hword, hdecimal, rfl⟩ .nil
  · refine Condition.read_eq_ok_iff.mpr ⟨noMargins, n.text, hword, hdecimal, ?_⟩
    simp [noMargins, Margins.phrase, Comparison.symbol]

/-- A one that is in range as a formula, as a weight and as a threshold, and a period of four
hundred zeros that is not. -/
theorem numbers_inRange_period :
    (∃ f x p, Formula.read (String.ofList (powerOfTen 0).text) = .ok f ∧ .number x p ∈ f.parts ∧
      x.isFinite = true) ∧
    (∃ problem, Formula.read
        (String.ofList ("sma(x, ".toList ++ ((powerOfTen 400).text ++ [')']))) =
      .error ⟨problem, 7⟩ ∧ problem = .outOfRange) ∧
    (∃ n : Numeral, (powerOfTen 0).value = n.value ∧
      ((powerOfTen 0).value.isFinite = true ↔ n.magnitude < tooLarge)) ∧
    ∃ n : Numeral, (powerOfTen 0).value = n.value ∧
      ((powerOfTen 0).value.isFinite = true ↔ n.magnitude < tooLarge) := by
  obtain ⟨hlist, hcondition⟩ := phrases_read (wellFormed_powerOfTen 0)
  refine ⟨?_, ?_, ?_, ?_⟩
  · have hfinite : (powerOfTen 0).value.isFinite = true := by
      rw [Numeral.isFinite_value_iff, magnitude_powerOfTen, pow_zero]
      exact one_lt_tooLarge
    have hscan : Numeral.scan? ((powerOfTen 0).text ++ []) = some (powerOfTen 0, []) :=
      scan?_text (wellFormed_powerOfTen 0) rfl fun _ => rfl
    obtain ⟨-, hlongest⟩ := Numeral.scan?_eq_some_iff.mp hscan
    have hspells := Spells.number hlongest rfl (not_firstIs_iff.mpr (by decide)) hfinite
    have hspelling : IsSpelling (String.ofList (powerOfTen 0).text).toList
        (.number (powerOfTen 0).value 0) :=
      ⟨[], (powerOfTen 0).text, [], by simp, areBlanks_nil, areBlanks_nil, hspells⟩
    obtain ⟨f, hread, hf⟩ := exists_read_of_isSpelling hspelling
    cases f <;> cases hf
    exact ⟨_, _, _, hread, List.mem_singleton_self _,
      (numbers_inRange _ 0).1 _ hread _ _ (List.mem_singleton_self _)⟩
  · have hscan : Numeral.scan? ((powerOfTen 400).text ++ [')']) = some (powerOfTen 400, [')']) :=
      scan?_text (wellFormed_powerOfTen 400) rfl fun _ => rfl
    obtain ⟨-, hlongest⟩ := Numeral.scan?_eq_some_iff.mp hscan
    obtain ⟨problem, hread, hproblem⟩ := (numbers_inRange _ 0).2.1 _ [')'] _
      expectsFormula_secondArgument hlongest rfl String.toList_ofList tooLarge_le_powerOfTen
    refine ⟨problem, hread, ?_⟩
    rcases hproblem with ⟨-, hproblem⟩ | ⟨hopens, -⟩
    · exact hproblem
    · exact absurd hopens (not_firstIs_iff.mpr (by decide))
  · obtain ⟨m, n, -, -, hvalue⟩ := (numbers_inRange _ 0).2.2.1 _ hlist _ (List.mem_singleton_self _)
    exact ⟨n, hvalue⟩
  · obtain ⟨m, n, -, -, hvalue⟩ := (numbers_inRange _ 0).2.2.2 _ hcondition
    exact ⟨n, hvalue⟩

/-- A decimal that is too large is read as an infinite weight and as an infinite threshold. -/
theorem phrases_read_of_tooLarge {n : Numeral} (hn : n.WellFormed)
    (hlarge : tooLarge ≤ n.magnitude) :
    (∃ terms, Constituent.readAll (String.ofList ('x' :: ':' :: n.text)) 0 = .ok terms ∧
      ∃ term ∈ terms, term.weight.isFinite = false) ∧
    ∃ c, Condition.read (String.ofList ('x' :: '>' :: n.text)) 0 = .ok c ∧
      c.threshold.isFinite = false := by
  obtain ⟨hlist, hcondition⟩ := phrases_read hn
  have hinfinite := n.isFinite_value_of_tooLarge hlarge
  exact ⟨⟨_, hlist, _, List.mem_singleton_self _, hinfinite⟩, _, hcondition, hinfinite⟩

/-- Four hundred zeros are too many: neither the weight nor the threshold is refused, and neither
is finite. -/
theorem not_phrases_inRange :
    (∃ terms, Constituent.readAll (String.ofList ('x' :: ':' :: (powerOfTen 400).text)) 0 =
      .ok terms ∧ ∃ term ∈ terms, term.weight.isFinite = false) ∧
    ∃ c, Condition.read (String.ofList ('x' :: '>' :: (powerOfTen 400).text)) 0 = .ok c ∧
      c.threshold.isFinite = false :=
  phrases_read_of_tooLarge (wellFormed_powerOfTen 400) tooLarge_le_powerOfTen

end IndicatorFormula
