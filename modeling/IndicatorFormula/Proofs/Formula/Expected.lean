import IndicatorFormula.Proofs.Formula.Grammar
import IndicatorFormula.Proofs.Formula.Spans

/-!
# Where a formula is expected

Whether a formula may stand at a place of a text is decided by what stands in front of it: nothing
but blanks, or the name and the arguments of calls that are not closed yet. Every call of a formula
that was read stands at such a place. What spells a formula spells it whatever follows, if only
what follows does not go on with it. What is refused at such a place is what the whole text is
refused for.
-/

namespace IndicatorFormula.Formula

open Text Decimal

/-- Nothing of what follows a formula belongs to it. -/
structure EndsFormula (rest : List Char) : Prop where
  /-- No word goes on and no numeral. -/
  stops : startsWith (fun c => isWordChar c || c = '.' || isDigit c) rest = false
  /-- No parenthesis is opened. -/
  noCall : ¬Opens rest

section Ends

variable {rest rest' ws text row : List Char} {f : Formula} {args : List Formula}

/-- Behind a formula stands nothing that would belong to its last token. -/
theorem EndsFormula.startsWith_eq {p : Char → Bool} (h : EndsFormula rest)
    (hp : ∀ c, p c = true → (isWordChar c || c = '.' || isDigit c) = true) :
    startsWith p rest = false := by
  by_contra hstart
  obtain ⟨c, more, rfl, hc⟩ := startsWith_iff.mp (by simpa using hstart)
  have hstops := h.stops
  simp only [startsWith, hp c hc, Bool.true_eq_false] at hstops

/-- A comma and a closing parenthesis end a formula, perhaps behind blanks. -/
theorem endsFormula_separator (hws : AreBlanks ws) {c : Char} (hc : c = ',' ∨ c = ')') :
    EndsFormula (ws ++ c :: rest) := by
  have hblank : isBlank c = false := by rcases hc with rfl | rfl <;> decide
  constructor
  · refine startsWith_blanks_append (fun d hd => ?_) hws ?_
    · have hpoint : d ≠ '.' := ne_of_isBlank hd (by decide)
      simp [isWordChar_of_isBlank hd, isDigit_of_isBlank hd, hpoint]
    · rw [startsWith]
      rcases hc with rfl | rfl <;> decide
  · rw [Opens, firstIs_iff, dropBlanks_opening hws hblank, startsWith]
    rcases hc with rfl | rfl <;> decide

/-- A text begins with a kind of character whatever stands behind a character of another. -/
theorem startsWith_dropBlanks_append {p : Char → Bool} {c : Char} (hc : p c = false)
    (hblank : isBlank c = false) (cs rest : List Char) :
    startsWith p (dropBlanks (cs ++ c :: rest)) = startsWith p (dropBlanks cs) := by
  obtain ⟨ws, hws, hcs⟩ := exists_blanks_dropBlanks cs
  rw [hcs, List.append_assoc, dropBlanks_append hws, dropBlanks_append hws, dropBlanks_dropBlanks]
  cases hrest : dropBlanks cs with
  | nil =>
    rw [List.nil_append, @dropBlanks_of_startsWith (c :: rest) hblank]
    exact hc
  | cons d more =>
    have hstart : startsWith isBlank (d :: (more ++ c :: rest)) = false := by
      have hdrop := startsWith_dropWhile isBlank cs
      rwa [← dropBlanks, hrest] at hdrop
    rw [List.cons_append, dropBlanks_of_startsWith hstart]
    rfl

mutual

/-- What spells a formula in front of one end spells it in front of any other. -/
theorem Spells.of_endsFormula {text rest rest' : List Char} {f : Formula}
    (hrest : EndsFormula rest) (hrest' : EndsFormula rest') :
    Spells text f rest → Spells text f rest'
  | .quoted isQuote free => .quoted isQuote free
  | .number longest noWord noCall finite => by
    have hdigit := hrest'.startsWith_eq (p := isDigit) (by simp +contextual)
    have hpoint := hrest'.startsWith_eq (p := (· = '.')) (by simp +contextual)
    have hword := hrest'.startsWith_eq (p := isWordChar) (by simp +contextual)
    have hscan := scan?_text longest.wellFormed hdigit fun _ => hpoint
    exact .number (Numeral.scan?_eq_some_iff.mp hscan).2 hword hrest'.noCall finite
  | .indicator word noNumber noCall => by
    have hstops := hrest'.startsWith_eq (p := isWordChar) (by simp +contextual)
    have hdigit := hrest'.startsWith_eq (p := isDigit) (by simp +contextual)
    have hnumeral : isWholeNumeral text = false := by
      by_contra hwhole
      have hrun := startsWith_of_wholeNumeral?_eq_none word (by simpa using hwhole)
        (wholeNumeral?_eq_none_iff.mpr noNumber)
      rw [hrest.startsWith_eq (by simp +contextual)] at hrun
      cases hrun
    have hword : IsWord text rest' := ⟨word.ne_nil, word.chars, hstops⟩
    exact .indicator hword (wholeNumeral?_eq_none_iff.mp (wholeNumeral?_word hword hnumeral hdigit))
      hrest'.noCall
  | .call name blanks quotedText arguments => by
    refine .call name blanks (fun hraw => ?_) (arguments.of_endsFormula rest')
    have hquote := quotedText hraw
    rw [firstIs_iff, startsWith_dropBlanks_append (by decide) (by decide)] at hquote ⊢
    exact hquote
  | .raw name blanks takesRaw enclosed filled => .raw name blanks takesRaw enclosed filled

/-- What spells a row of formulas spells it whatever stands behind the parenthesis. -/
theorem SpellsRow.of_endsFormula {row rest : List Char} {args : List Formula}
    (rest' : List Char) :
    SpellsRow row args (')' :: rest) → SpellsRow row args (')' :: rest')
  | .last blanks blanks' first =>
    .last blanks blanks' (first.of_endsFormula (endsFormula_separator blanks' (.inr rfl))
      (endsFormula_separator blanks' (.inr rfl)))
  | .more blanks blanks' first row =>
    .more blanks blanks' (first.of_endsFormula (endsFormula_separator blanks' (.inl rfl))
      (endsFormula_separator blanks' (.inl rfl))) (row.of_endsFormula rest')

end

end Ends

mutual

/-- A formula is expected behind a text: at the beginning of a text, or as an argument. -/
inductive ExpectsFormula : List Char → Prop where
  /-- At the beginning, perhaps behind blanks. -/
  | start {ws : List Char} (blanks : AreBlanks ws) : ExpectsFormula ws
  /-- Where any argument may stand, perhaps behind blanks. -/
  | argument {front ws : List Char} (row : ExpectsArgument false front) (blanks : AreBlanks ws) :
      ExpectsFormula (front ++ ws)

/-- An argument is expected behind a text that ends in an opening parenthesis or in a comma. It is
known whether the argument has to be quoted there so that it is not taken as it stands. -/
inductive ExpectsArgument : Bool → List Char → Prop where
  /-- Behind the name of a function and the parenthesis of its call. -/
  | opening {front token ws : List Char} (outer : ExpectsFormula front)
      (name : isFunctionName token = true) (blanks : AreBlanks ws) :
      ExpectsArgument (takesRawText (capitals token)) (front ++ (token ++ (ws ++ ['('])))
  /-- Behind an argument and a comma. -/
  | comma {quoted : Bool} {front ws text ws' : List Char} {f : Formula}
      (row : ExpectsArgument quoted front) (blanks : AreBlanks ws)
      (first : Spells text f (ws' ++ [',']))
      (quote : quoted = true → startsWith isQuote text = true) (blanks' : AreBlanks ws') :
      ExpectsArgument false (front ++ (ws ++ (text ++ (ws' ++ [',']))))

end

section Places

variable {t : List Char} {name : String} {args : List Formula} {p : Nat}

/-- No call stands in an argument that has to be quoted. -/
theorem Reads.eq_false_of_mem_parts {size : Nat} {cs rest : List Char} {f : Formula}
    {quoted : Bool} (h : Reads size cs f rest)
    (hquoted : quoted = true → startsWith isQuote (dropBlanks cs) = true)
    (hmem : Formula.call name args p ∈ f.parts) : quoted = false := by
  by_contra hne
  obtain ⟨content, q, rfl⟩ := h.isLiteral (hquoted (by simpa using hne))
  cases List.mem_singleton.mp hmem

mutual

/-- Every call in what is read where a formula is expected stands where one is expected. -/
theorem Reads.expectsFormula {cs rest : List Char} {f : Formula} :
    Reads t.length cs f rest → call name args p ∈ f.parts →
      ∀ front, t = front ++ dropBlanks cs → ExpectsFormula front → ExpectsFormula (t.take p)
  | .quoted .., hmem => by cases List.mem_singleton.mp hmem
  | .number .., hmem => by cases List.mem_singleton.mp hmem
  | .indicator .., hmem => by cases List.mem_singleton.mp hmem
  | .raw text word opening isName takesRaw unquoted span filled, hmem => by
    intro front ht hfront
    rcases mem_parts_call.mp hmem with heq | ⟨arg, harg, hmem⟩
    · obtain ⟨-, -, rfl⟩ := Formula.call.inj heq
      rw [← text, place_append ht, ht, List.take_left]
      exact hfront
    · rw [List.mem_singleton.mp harg] at hmem
      cases List.mem_singleton.mp hmem
  | @Reads.call _ _ token behind inside _ _ text word opening isName quotedText filled row,
      hmem => by
    intro front ht hfront
    obtain ⟨ws, hws, hbehind⟩ := exists_blanks_dropBlanks behind
    rw [text] at ht
    rcases mem_parts_call.mp hmem with heq | ⟨arg, harg, hmem⟩
    · obtain ⟨-, -, rfl⟩ := Formula.call.inj heq
      rw [place_append ht, ht, List.take_left]
      exact hfront
    · rw [opening] at hbehind
      refine row.expectsFormula harg hmem _ _ inside ?_ (dropBlanks_dropBlanks _).symm
        (.opening hfront isName hws) (by rwa [dropBlanks_dropBlanks])
      rw [ht, hbehind]
      simp

/-- Every call in a row that is read where arguments are expected stands where a formula is
expected. -/
theorem ReadsRow.expectsFormula {cs rest : List Char} {others : List Formula} {arg : Formula} :
    ReadsRow t.length cs others rest → arg ∈ others → call name args p ∈ arg.parts →
      ∀ quoted front cs', t = front ++ cs' → dropBlanks cs' = dropBlanks cs →
        ExpectsArgument quoted front →
        (quoted = true → startsWith isQuote (dropBlanks cs) = true) → ExpectsFormula (t.take p)
  | .last first closing, harg, hmem => by
    intro quoted front cs' ht hcs' hfront hquoted
    obtain ⟨ws, hws, hcs⟩ := exists_blanks_dropBlanks cs'
    rw [hcs'] at hcs
    rw [List.mem_singleton.mp harg] at hmem
    obtain rfl := first.eq_false_of_mem_parts hquoted hmem
    exact first.expectsFormula hmem _ (by rw [ht, List.append_assoc, ← hcs]) (.argument hfront hws)
  | @ReadsRow.more _ _ after behind _ _ _ first comma filled row, harg, hmem => by
    intro quoted front cs' ht hcs' hfront hquoted
    obtain ⟨ws, hws, hcs⟩ := exists_blanks_dropBlanks cs'
    rw [hcs'] at hcs
    rcases List.mem_cons.mp harg with heq | harg
    · rw [heq] at hmem
      obtain rfl := first.eq_false_of_mem_parts hquoted hmem
      exact first.expectsFormula hmem _ (by rw [ht, List.append_assoc, ← hcs])
        (.argument hfront hws)
    · obtain ⟨ws', hws', hafter⟩ := exists_blanks_dropBlanks after
      obtain ⟨text, htext, hspells⟩ := first.spells
      rw [comma] at hafter
      rw [hafter] at hspells htext
      have hfirst := hspells.of_endsFormula (endsFormula_separator hws' (.inl rfl))
        (endsFormula_separator hws' (.inl rfl) : EndsFormula (ws' ++ [',']))
      refine row.expectsFormula harg hmem _ _ behind ?_ rfl
        (.comma hfront hws hfirst (fun h => ?_) hws') (by simp)
      · rw [ht, hcs, htext]
        simp
      · have hquote := hquoted h
        rw [htext] at hquote
        obtain ⟨c, more, rfl, -⟩ := startsWith_iff.mp hspells.begins
        exact hquote

end

/-- Every call of a formula that was read stands where a formula is expected. -/
theorem expectsFormula_of_read {text : String} {f : Formula} (h : read text = .ok f)
    (hmem : call name args p ∈ f.parts) : ExpectsFormula (text.toList.take p) := by
  obtain ⟨rest, hreads, -⟩ := readChars_ok_iff.mp h
  obtain ⟨ws, hws, htext⟩ := exists_blanks_dropBlanks text.toList
  exact hreads.expectsFormula hmem ws htext (.start hws)

end Places

section Reading

variable {cs ws ws' token text : List Char} {f : Formula}

/-- Blanks in front of a formula do not matter. -/
theorem readOne_append_blanks (size steps : Nat) (hws : AreBlanks ws) (cs : List Char) :
    readOne size (steps + 1) (ws ++ cs) = readOne size (steps + 1) cs := by
  unfold readOne
  rw [dropBlanks_append hws]

/-- Blanks in front of a row of arguments do not matter. -/
theorem readArgs_dropBlanks (size : Nat) (name : String) (opening steps : Nat) (cs : List Char) :
    readArgs size name opening (steps + 2) (dropBlanks cs) =
      readArgs size name opening (steps + 2) cs := by
  unfold readArgs readOne
  rw [dropBlanks_dropBlanks]

/-- A function name with its parenthesis begins a formula. -/
theorem beginsFormula_call (name : isFunctionName token = true) (hws : AreBlanks ws) :
    BeginsFormula (token ++ (ws ++ ['('])) :=
  (beginsFormula_word (isWord_of_isFunctionName name (startsWith_isWordChar_opening hws []))).append
    _

/-- A call whose arguments are read is read when they are. -/
theorem readOne_of_arguments (size steps : Nat) (name : isFunctionName token = true)
    (hws : AreBlanks ws) (hbegins : BeginsFormula (dropBlanks cs))
    (hquote : takesRawText (capitals token) = true → startsWith isQuote (dropBlanks cs) = true) :
    readOne size (steps + 3) (token ++ (ws ++ '(' :: cs)) =
      (readArgs size (capitals token) (place size ('(' :: cs)) (steps + 2) cs).map fun r =>
        (call (capitals token) r.1 (place size (token ++ (ws ++ '(' :: cs))), r.2) := by
  have hword := isWord_of_isFunctionName name (startsWith_isWordChar_opening hws cs)
  have htext := ((beginsFormula_word hword).append (ws ++ '(' :: cs)).dropBlanks_eq
  have hraw : (takesRawText (capitals token) && !startsWith isQuote (dropBlanks cs)) = false := by
    cases htakes : takesRawText (capitals token) with
    | false => rfl
    | true => rw [hquote htakes, Bool.not_true, Bool.and_false]
  rw [readOne_call size (steps + 2) htext hword (dropBlanks_opening hws (by decide) cs) name,
    readCall, hraw, hbegins.noClose, readArgs_dropBlanks]
  rfl

/-- A row whose first argument is spelt is read when what stands behind the comma is. -/
theorem Spells.readArgs_comma (first : Spells text f (ws' ++ [','])) (size : Nat)
    (hws : AreBlanks ws) (hws' : AreBlanks ws') (hbegins : BeginsFormula (dropBlanks cs))
    (steps : Nat) (hsteps : (ws ++ (text ++ (ws' ++ ',' :: cs))).length < steps) :
    ∃ g, g.unplaced = f ∧ ∀ name opening,
      readArgs size name opening (steps + 1) (ws ++ (text ++ (ws' ++ ',' :: cs))) =
        (readArgs size name opening steps cs).map fun r => (g :: r.1, r.2) := by
  have hspells : Spells text f (ws' ++ ',' :: cs) :=
    first.of_endsFormula (endsFormula_separator hws' (.inl rfl))
      (endsFormula_separator hws' (.inl rfl))
  obtain ⟨g, hg, hf⟩ := hspells.reads size _ (hspells.dropBlanks_eq hws _)
  refine ⟨g, hf, fun name opening => ?_⟩
  rw [readArgs, hg.readOne_eq hsteps]
  simp only [readRest, dropBlanks_opening hws' (by decide : isBlank ',' = false) cs, if_true,
    hbegins.noClose, Bool.false_eq_true, if_false]

end Reading

section Refusals

variable {cs ws : List Char} {size : Nat} {e : ReadError}

/-- No formula is read at the front of a text, which is refused with an error. -/
def RefusesFormula (size : Nat) (cs : List Char) (e : ReadError) : Prop :=
  ∀ steps, cs.length < steps → readOne size steps cs = .error e

/-- No arguments are read at the front of a text, which is refused with an error. -/
def RefusesArguments (size : Nat) (cs : List Char) (e : ReadError) : Prop :=
  ∀ steps name opening, cs.length + 1 < steps → readArgs size name opening steps cs = .error e

/-- A formula is refused with blanks in front as without. -/
theorem RefusesFormula.append_blanks (h : RefusesFormula size cs e) (hws : AreBlanks ws) :
    RefusesFormula size (ws ++ cs) e := by
  intro steps hsteps
  rw [List.length_append] at hsteps
  obtain ⟨steps, rfl⟩ : ∃ n, steps = n + 1 := ⟨steps - 1, by omega⟩
  rw [readOne_append_blanks _ _ hws]
  exact h _ (by omega)

/-- Where a formula is refused a row of arguments is refused. -/
theorem RefusesFormula.arguments (h : RefusesFormula size cs e) : RefusesArguments size cs e := by
  intro steps name opening hsteps
  obtain ⟨steps, rfl⟩ : ∃ n, steps = n + 1 := ⟨steps - 1, by omega⟩
  rw [readArgs, h steps (by omega)]

mutual

/-- What is refused where a formula is expected is what the whole text is refused for. -/
theorem ExpectsFormula.refuses {front cs : List Char} :
    ExpectsFormula front → RefusesFormula (front ++ cs).length cs e →
      BeginsFormula (dropBlanks cs) → readChars (front ++ cs) = .error e
  | @ExpectsFormula.start ws blanks, h, hbegins => by
    have hne : dropBlanks (ws ++ cs) ≠ [] := by
      rw [dropBlanks_append blanks]
      intro hnil
      rw [hnil] at hbegins
      cases hbegins
    rw [readChars, if_neg hne, h.append_blanks blanks _ (Nat.lt_succ_self _)]
    rfl
  | @ExpectsFormula.argument front ws row blanks, h, hbegins => by
    rw [List.append_assoc] at h ⊢
    rw [← dropBlanks_append blanks] at hbegins
    exact row.refuses (h.append_blanks blanks).arguments hbegins nofun

/-- What is refused where an argument is expected is what the whole text is refused for. -/
theorem ExpectsArgument.refuses {front cs : List Char} {quoted : Bool} :
    ExpectsArgument quoted front → RefusesArguments (front ++ cs).length cs e →
      BeginsFormula (dropBlanks cs) →
      (quoted = true → startsWith isQuote (dropBlanks cs) = true) →
      readChars (front ++ cs) = .error e
  | @ExpectsArgument.opening front token ws outer name blanks, h, hbegins, hquoted => by
    simp only [List.append_assoc, List.cons_append, List.nil_append] at h ⊢
    refine outer.refuses (fun steps hsteps => ?_) ?_
    · have htoken := length_pos_of_isFunctionName name
      simp only [List.length_append, List.length_cons] at hsteps
      obtain ⟨steps, rfl⟩ : ∃ n, steps = n + 3 := ⟨steps - 3, by omega⟩
      rw [readOne_of_arguments _ _ name blanks hbegins hquoted, h _ _ _ (by omega)]
      rfl
    · have hcall := (beginsFormula_call name blanks).append cs
      simp only [List.append_assoc, List.cons_append, List.nil_append] at hcall
      rwa [hcall.dropBlanks_eq]
  | @ExpectsArgument.comma quoted front ws text ws' f row blanks first quote blanks', h, hbegins,
      _ => by
    have hdrop := first.dropBlanks_eq blanks (ws' ++ ',' :: cs)
    simp only [List.append_assoc, List.cons_append, List.nil_append] at h ⊢
    refine row.refuses (fun steps name opening hsteps => ?_) ?_ fun hquoted => ?_
    · simp only [List.length_append, List.length_cons] at hsteps
      obtain ⟨steps, rfl⟩ : ∃ n, steps = n + 1 := ⟨steps - 1, by omega⟩
      obtain ⟨g, -, hrow⟩ := first.readArgs_comma
        (front ++ (ws ++ (text ++ (ws' ++ ',' :: cs)))).length
        blanks blanks' hbegins steps (by simp; omega)
      rw [hrow, h _ _ _ (by omega)]
      rfl
    · rw [hdrop]
      exact first.begins.append _
    · rw [hdrop]
      obtain ⟨c, more, rfl, hc⟩ := startsWith_iff.mp (quote hquoted)
      exact hc

end

end Refusals

end IndicatorFormula.Formula
