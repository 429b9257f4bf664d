import IndicatorFormula.Proofs.Formula.Places
import IndicatorFormula.Proofs.Formula.Tokens

/-!
# The grammar of formulas

The grammar says which text spells which formula, with one rule for each form of a formula and
no mention of how a text is gone through. What follows a formula matters to it, since a numeral
and a word go on as long as they can and a word in front of a parenthesis is no indicator. The
reader accepts exactly the texts of the grammar and reads each as the formula that it spells.
-/

namespace IndicatorFormula.Formula

open Text Decimal

/-- A parenthesis is opened behind a text, blanks aside. -/
def Opens (rest : List Char) : Prop := FirstIs (· = '(') rest

mutual

/-- A text spells a formula, which has no places, in front of a rest. -/
inductive Spells : List Char → Formula → List Char → Prop where
  /-- Between two quotes of one sort stands a text without that quote. -/
  | quoted {quote : Char} {body rest : List Char} (isQuote : isQuote quote = true)
      (free : quote ∉ body) :
      Spells (quote :: (body ++ [quote])) (literal (String.ofList body) 0) rest
  /-- The longest numeral is a number unless it runs into a word or a parenthesis is opened. -/
  | number {n : Numeral} {rest : List Char} (longest : n.IsLongest rest)
      (noWord : startsWith isWordChar rest = false) (noCall : ¬Opens rest)
      (finite : n.value.isFinite = true) : Spells n.text (number n.value 0) rest
  /-- A whole word that begins with no number is an indicator unless a parenthesis is opened. -/
  | indicator {token rest : List Char} (word : IsWord token rest)
      (noNumber : NoNumber (token ++ rest)) (noCall : ¬Opens rest) :
      Spells token (indicator (String.ofList token) 0) rest
  /-- A call is the name of a function with a row of arguments between parentheses. -/
  | call {token ws row rest : List Char} {args : List Formula}
      (name : isFunctionName token = true) (blanks : AreBlanks ws)
      (quotedText : takesRawText (capitals token) = true →
        FirstIs IndicatorFormula.isQuote (row ++ ')' :: rest))
      (arguments : SpellsRow row args (')' :: rest)) :
      Spells (token ++ (ws ++ '(' :: (row ++ [')']))) (call (capitals token) args 0) rest
  /-- Two functions take what stands between their parentheses as it is, without the blanks
  around it. -/
  | raw {token ws content rest : List Char}
      (name : isFunctionName token = true) (blanks : AreBlanks ws)
      (takesRaw : takesRawText (capitals token) = true) (enclosed : IsEnclosed 0 content)
      (filled : ¬AreBlanks content) :
      Spells (token ++ (ws ++ '(' :: (content ++ [')'])))
        (call (capitals token) [literal (String.ofList (strip content)) 0] 0) rest

/-- A text spells a row of formulas with commas between them in front of a rest. -/
inductive SpellsRow : List Char → List Formula → List Char → Prop where
  /-- The last formula with blanks around it. -/
  | last {ws text ws' rest : List Char} {f : Formula} (blanks : AreBlanks ws)
      (blanks' : AreBlanks ws') (first : Spells text f (ws' ++ rest)) :
      SpellsRow (ws ++ (text ++ ws')) [f] rest
  /-- Any other formula with blanks around it stands before a comma. -/
  | more {ws text ws' others rest : List Char} {f : Formula} {args : List Formula}
      (blanks : AreBlanks ws) (blanks' : AreBlanks ws')
      (first : Spells text f (ws' ++ ',' :: (others ++ rest)))
      (row : SpellsRow others args rest) :
      SpellsRow (ws ++ (text ++ (ws' ++ ',' :: others))) (f :: args) rest

end

/-- A whole text spells a formula: blanks may stand around it. -/
def IsSpelling (cs : List Char) (f : Formula) : Prop :=
  ∃ ws text ws', cs = ws ++ (text ++ ws') ∧ AreBlanks ws ∧ AreBlanks ws' ∧ Spells text f ws'

/-- Blanks may stand in front of a row. -/
theorem SpellsRow.append_blanks {ws row rest : List Char} {args : List Formula}
    (h : SpellsRow row args rest) (hws : AreBlanks ws) : SpellsRow (ws ++ row) args rest := by
  have hboth {ws' : List Char} (hws' : AreBlanks ws') : AreBlanks (ws ++ ws') :=
    List.forall_mem_append.mpr ⟨hws, hws'⟩
  cases h with
  | last blanks blanks' first =>
    rw [← List.append_assoc]
    exact .last (hboth blanks) blanks' first
  | more blanks blanks' first row =>
    rw [← List.append_assoc]
    exact .more (hboth blanks) blanks' first row

mutual

/-- What is read of a text is spelt by what was taken from it. -/
theorem Reads.spells {size : Nat} {cs rest : List Char} {f : Formula} :
    Reads size cs f rest →
      ∃ text, dropBlanks cs = text ++ rest ∧ Spells text f.unplaced rest
  | @Reads.quoted _ _ body _ quote text isQuote free =>
    ⟨quote :: (body ++ [quote]), by simp [text], .quoted isQuote free⟩
  | .number (n := n) numeral noCall finite => by
    obtain ⟨htext, hlongest, hword⟩ := wholeNumeral?_eq_some_iff.mp numeral
    exact ⟨n.text, htext, .number hlongest hword (not_firstIs_iff.mpr noCall) finite⟩
  | @Reads.indicator _ _ token _ text word noNumeral noCall =>
    ⟨token, text, .indicator word (wholeNumeral?_eq_none_iff.mp noNumeral)
      (not_firstIs_iff.mpr noCall)⟩
  | @Reads.raw _ _ token behind _ _ _ text word opening name takesRaw unquoted span filled => by
    obtain ⟨ws, hws, hbehind⟩ := exists_blanks_dropBlanks behind
    obtain ⟨content, hspan, rfl⟩ := exists_rawSpan_of_dropBlanks span
    obtain ⟨hinside, henclosed⟩ := rawSpan_eq_iff.mp hspan
    rw [strip_dropBlanks] at filled ⊢
    rw [opening, hinside] at hbehind
    refine ⟨token ++ (ws ++ '(' :: (content ++ [')'])), by simp [text, hbehind], ?_⟩
    exact .raw name hws takesRaw henclosed fun h => filled (strip_eq_nil_iff.mpr h)
  | @Reads.call _ _ token behind inside _ _ text word opening name quotedText filled row => by
    obtain ⟨ws, hws, hbehind⟩ := exists_blanks_dropBlanks behind
    obtain ⟨ws', hws', hinside⟩ := exists_blanks_dropBlanks inside
    obtain ⟨row', hrow', hspells⟩ := row.spellsRow
    rw [hrow'] at hinside
    rw [opening, hinside] at hbehind
    refine ⟨token ++ (ws ++ '(' :: ((ws' ++ row') ++ [')'])), by simp [text, hbehind], ?_⟩
    rw [unplaced, allUnplaced_eq_map]
    refine .call name hws (fun hraw => ?_) (hspells.append_blanks hws')
    rw [List.append_assoc, ← hinside]
    exact firstIs_iff.mpr (quotedText hraw)

/-- What is read as a row of arguments is spelt by what was taken from the text. -/
theorem ReadsRow.spellsRow {size : Nat} {cs rest : List Char} {args : List Formula} :
    ReadsRow size cs args rest →
      ∃ row, cs = row ++ ')' :: rest ∧ SpellsRow row (args.map unplaced) (')' :: rest)
  | @ReadsRow.last _ _ after _ _ first closing => by
    obtain ⟨ws, hws, hcs⟩ := exists_blanks_dropBlanks cs
    obtain ⟨ws', hws', hafter⟩ := exists_blanks_dropBlanks after
    obtain ⟨text, htext, hspells⟩ := first.spells
    rw [closing] at hafter
    rw [hafter] at hspells htext
    rw [htext] at hcs
    exact ⟨ws ++ (text ++ ws'), by simp [hcs], .last hws hws' hspells⟩
  | @ReadsRow.more _ _ after _ _ _ _ first comma filled row => by
    obtain ⟨ws, hws, hcs⟩ := exists_blanks_dropBlanks cs
    obtain ⟨ws', hws', hafter⟩ := exists_blanks_dropBlanks after
    obtain ⟨text, htext, hspells⟩ := first.spells
    obtain ⟨others, hothers, hrow⟩ := row.spellsRow
    rw [comma, hothers] at hafter
    rw [hafter] at hspells htext
    rw [htext] at hcs
    exact ⟨ws ++ (text ++ (ws' ++ ',' :: others)), by simp [hcs], .more hws hws' hspells hrow⟩

end

theorem startsWith_isWordChar_opening {ws : List Char} (h : AreBlanks ws) (rest : List Char) :
    startsWith isWordChar (ws ++ '(' :: rest) = false :=
  startsWith_blanks_append (fun _ => isWordChar_of_isBlank) h rfl

/-- What spells a formula begins like a formula. -/
theorem Spells.begins {text rest : List Char} {f : Formula} (h : Spells text f rest) :
    BeginsFormula text := by
  have hcall {token ws body : List Char} (name : isFunctionName token = true)
      (blanks : AreBlanks ws) : BeginsFormula (token ++ (ws ++ '(' :: body)) :=
    (beginsFormula_word (isWord_of_isFunctionName name
      (startsWith_isWordChar_opening blanks body))).append _
  cases h with
  | quoted isQuote free =>
    simp only [IndicatorFormula.isQuote, Bool.or_eq_true, decide_eq_true_eq] at isQuote
    rcases isQuote with rfl | rfl <;> rfl
  | number longest noWord noCall finite => exact beginsFormula_numeral longest.wellFormed
  | indicator word noNumber noCall => exact beginsFormula_word word
  | call name blanks quotedText arguments => exact hcall name blanks
  | raw name blanks takesRaw enclosed filled => exact hcall name blanks

theorem Spells.dropBlanks_eq {ws text rest : List Char} {f : Formula} (h : Spells text f rest)
    (hws : AreBlanks ws) (behind : List Char) :
    dropBlanks (ws ++ (text ++ behind)) = text ++ behind := by
  rw [dropBlanks_append hws, (h.begins.append behind).dropBlanks_eq]

/-- No row of formulas begins with the parenthesis that closes it. -/
theorem SpellsRow.noClose {row rest : List Char} {args : List Formula}
    (h : SpellsRow row args rest) (behind : List Char) :
    startsWith (· = ')') (dropBlanks (row ++ behind)) = false := by
  cases h with
  | last blanks blanks' first =>
    rw [List.append_assoc, List.append_assoc, first.dropBlanks_eq blanks]
    exact (first.begins.append _).noClose
  | more blanks blanks' first row =>
    rw [List.append_assoc, List.append_assoc, first.dropBlanks_eq blanks]
    exact (first.begins.append _).noClose

/-- An enclosed text does not begin with a quote. -/
theorem IsEnclosed.unquoted {content : List Char} (h : IsEnclosed 0 content)
    (rest : List Char) : startsWith isQuote (dropBlanks (content ++ ')' :: rest)) = false := by
  by_contra hquote
  obtain ⟨c, more, hc, hisQuote⟩ := startsWith_iff.mp (by simpa using hquote)
  have hspan := rawSpan_dropBlanks 0 (content ++ ')' :: rest)
  rw [hc, rawSpan_cons_of_stop more (.inl hisQuote), rawSpan_of_isEnclosed h] at hspan
  obtain ⟨rfl, -⟩ := List.cons.inj (Prod.ext_iff.mp hspan).2
  revert hisQuote
  decide

mutual

/-- What is spelt is read, whatever blanks stand in front of it. -/
theorem Spells.reads {text rest : List Char} {f : Formula} (size : Nat) :
    Spells text f rest → ∀ cs, dropBlanks cs = text ++ rest →
      ∃ g, Reads size cs g rest ∧ g.unplaced = f
  | .quoted isQuote free, cs, hcs =>
    ⟨_, .quoted (by simpa using hcs) isQuote free, rfl⟩
  | .number longest noWord noCall finite, cs, hcs =>
    ⟨_, .number (wholeNumeral?_eq_some_iff.mpr ⟨hcs, longest, noWord⟩)
      (not_firstIs_iff.mp noCall) finite, rfl⟩
  | .indicator word noNumber noCall, cs, hcs =>
    ⟨_, .indicator hcs word (wholeNumeral?_eq_none_iff.mpr noNumber)
      (not_firstIs_iff.mp noCall), rfl⟩
  | @Spells.call _ ws row _ _ name blanks quotedText arguments, cs, hcs => by
    have hword := isWord_of_isFunctionName name
      (startsWith_isWordChar_opening blanks (row ++ ')' :: rest))
    obtain ⟨args', hargs', rfl⟩ := arguments.readsRow size (dropBlanks (row ++ ')' :: rest)) rest
      rfl (dropBlanks_dropBlanks _)
    refine ⟨_, .call (by simpa using hcs) hword (dropBlanks_opening blanks rfl _) name
      (fun hraw => firstIs_iff.mp (quotedText hraw)) (arguments.noClose _) hargs', ?_⟩
    rw [unplaced, allUnplaced_eq_map]
  | @Spells.raw _ ws content _ name blanks takesRaw enclosed filled, cs, hcs => by
    have hword := isWord_of_isFunctionName name
      (startsWith_isWordChar_opening blanks (content ++ ')' :: rest))
    have hspan : rawSpan 0 (dropBlanks (content ++ ')' :: rest)) =
        (dropBlanks content, ')' :: rest) := by
      rw [rawSpan_dropBlanks, rawSpan_of_isEnclosed enclosed]
    have hfilled : strip (dropBlanks content) ≠ [] := by
      rw [strip_dropBlanks]
      exact fun h => filled (strip_eq_nil_iff.mp h)
    refine ⟨_, .raw (by simpa using hcs) hword (dropBlanks_opening blanks rfl _) name takesRaw
      (enclosed.unquoted rest) hspan hfilled, ?_⟩
    rw [strip_dropBlanks]
    rfl

/-- What is spelt as a row is read as a row, up to the parenthesis behind it. -/
theorem SpellsRow.readsRow {row behind : List Char} {args : List Formula} (size : Nat) :
    SpellsRow row args behind → ∀ cs rest, behind = ')' :: rest →
      dropBlanks cs = dropBlanks (row ++ behind) →
      ∃ args', ReadsRow size cs args' rest ∧ args'.map unplaced = args
  | .last blanks blanks' first, cs, rest, hbehind, hcs => by
    subst hbehind
    rw [List.append_assoc, List.append_assoc, first.dropBlanks_eq blanks] at hcs
    obtain ⟨g, hg, rfl⟩ := first.reads size cs hcs
    exact ⟨[g], .last hg (dropBlanks_opening blanks' rfl rest), rfl⟩
  | @SpellsRow.more _ _ _ others _ _ _ blanks blanks' first row, cs, rest, hbehind, hcs => by
    subst hbehind
    rw [List.append_assoc, List.append_assoc, first.dropBlanks_eq blanks] at hcs
    obtain ⟨g, hg, rfl⟩ := first.reads size cs (by simpa using hcs)
    obtain ⟨args', hargs', rfl⟩ := row.readsRow size (others ++ ')' :: rest) rest rfl rfl
    exact ⟨g :: args', .more hg (dropBlanks_opening blanks' rfl _) (row.noClose _) hargs', rfl⟩

end

/-- A text that is read is a spelling of what it is read as. -/
theorem isSpelling_of_read {text : String} {f : Formula} (h : read text = .ok f) :
    IsSpelling text.toList f.unplaced := by
  obtain ⟨rest, hreads, hrest⟩ := readChars_ok_iff.mp h
  obtain ⟨ws, hws, hcs⟩ := exists_blanks_dropBlanks text.toList
  obtain ⟨spelling, hspelling, hspells⟩ := hreads.spells
  rw [hspelling] at hcs
  exact ⟨ws, spelling, rest, hcs, hws, dropBlanks_eq_nil_iff.mp hrest, hspells⟩

/-- A spelling of a formula is read as that formula. -/
theorem exists_read_of_isSpelling {text : String} {f : Formula} (h : IsSpelling text.toList f) :
    ∃ g, read text = .ok g ∧ g.unplaced = f := by
  obtain ⟨ws, spelling, ws', hcs, hws, hws', hspells⟩ := h
  obtain ⟨g, hg, hf⟩ := hspells.reads text.toList.length text.toList
    (by rw [hcs, hspells.dropBlanks_eq hws])
  exact ⟨g, readChars_ok_iff.mpr ⟨ws', hg, dropBlanks_eq_nil_iff.mpr hws'⟩, hf⟩

/-- The reader accepts exactly the grammar. A text is read as a formula, places aside, just when
it spells that formula; and a text that spells none is refused for what stands in it, never
because the reader gave up. -/
theorem read_accepts_grammar (text : String) :
    (∀ f : Formula, (∃ g, read text = .ok g ∧ g.unplaced = f.unplaced) ↔
      IsSpelling text.toList f.unplaced) ∧
    ((∀ f, ¬IsSpelling text.toList f) ↔
      ∃ e, read text = .error e ∧ e.problem ≠ .tooDeep) := by
  constructor
  · intro f
    constructor
    · rintro ⟨g, hg, hf⟩
      rw [← hf]
      exact isSpelling_of_read hg
    · exact exists_read_of_isSpelling
  · constructor
    · intro h
      cases hread : read text with
      | ok g => exact absurd (isSpelling_of_read hread) (h g.unplaced)
      | error e => exact ⟨e, rfl, readChars_ne_tooDeep hread⟩
    · rintro ⟨e, he, -⟩ f hf
      obtain ⟨g, hg, -⟩ := exists_read_of_isSpelling hf
      rw [he] at hg
      cases hg

end IndicatorFormula.Formula
