import IndicatorFormula.Proofs.Evaluation.Places
import IndicatorFormula.Proofs.Formula.Exchange

/-!
# Quoting a text

Two functions take a text as it stands. Quotes around that text change nothing: wherever a call
may stand, one with quotes and one without are read as the same call and leave the same behind
them. So both texts are read as the same formula, checked with the same verdict and evaluated to
the same outcome, or refused for the same problem. Whether a call may stand at a place is decided
by what stands in front of it, and every call of a formula that was read stands at such a place.
-/

namespace IndicatorFormula.Formula

open Text IndicatorFormula.Except

section Margins

variable {ws ws' content : List Char} {depth : Nat}

/-- Blanks around a text are stripped from it. -/
theorem strip_margins (content : List Char) (hws : AreBlanks ws) (hws' : AreBlanks ws') :
    strip (ws ++ (content ++ ws')) = strip content := by
  have hreverse : AreBlanks ws'.reverse := fun c hc => hws' c (List.mem_reverse.mp hc)
  rw [strip, dropBlanks_append hws, strip]
  by_cases hcontent : AreBlanks content
  · rw [dropBlanks_append hcontent, dropBlanks_eq_nil_iff.mpr hws',
      dropBlanks_eq_nil_iff.mpr hcontent]
  · have hdrop : dropBlanks (content ++ ws') = dropBlanks content ++ ws' := by
      rw [dropBlanks, List.dropWhile_append, if_neg]
      · rfl
      · rw [List.isEmpty_iff]
        exact fun h => hcontent (dropBlanks_eq_nil_iff.mp h)
    rw [hdrop, List.reverse_append, dropBlanks_append hreverse]

/-- Blanks in front change nothing about what is enclosed. -/
theorem isEnclosed_blanks_append (hws : AreBlanks ws) :
    IsEnclosed depth (ws ++ content) ↔ IsEnclosed depth content := by
  induction ws with
  | nil => rfl
  | cons c ws ih =>
    obtain ⟨hc, hws⟩ := List.forall_mem_cons.mp hws
    have hopen : c ≠ '(' := ne_of_isBlank hc (by decide)
    have hclose : c ≠ ')' := ne_of_isBlank hc (by decide)
    have hquote : isQuote c = false := by
      simp [isQuote, ne_of_isBlank hc (d := '\x27') (by decide),
        ne_of_isBlank hc (d := '\x22') (by decide)]
    rw [List.cons_append, isEnclosed_cons, depthBehind, if_neg hopen, if_neg hclose, ih hws]
    simp [hquote, hclose]

/-- Blanks behind change nothing about what is enclosed. -/
theorem IsEnclosed.append_blanks (h : IsEnclosed depth content) (hws : AreBlanks ws) :
    IsEnclosed depth (content ++ ws) := by
  induction content generalizing depth with
  | nil =>
    rw [List.nil_append, ← List.append_nil ws]
    exact (isEnclosed_blanks_append hws).mpr h
  | cons c content ih =>
    obtain ⟨hquote, hclose, hcontent⟩ := isEnclosed_cons.mp h
    exact isEnclosed_cons.mpr ⟨hquote, hclose, ih hcontent⟩

end Margins

/-- A character that is a capital or an underscore in capitals is a letter or an underscore. -/
theorem isAlpha_of_toUpper {c : Char} (h : (c.toUpper.isUpper || c.toUpper = '_') = true) :
    (c.isAlpha || c = '_') = true := by
  by_cases hlower : c.isLower = true
  · simp only [Char.isAlpha, hlower, Bool.or_true, Bool.true_or]
  · have hsame : c.toUpper = c := by
      unfold Char.toUpper
      rw [dif_neg (by simpa [Char.isLower] using hlower)]
    rw [hsame] at h
    simp only [Bool.or_eq_true, Char.isAlpha] at h ⊢
    exact h.imp_left .inl

/-- However its letters are written, the name of a function that takes its text as it stands is
the name of a function. -/
theorem isFunctionName_of_takesRawText {token : List Char}
    (h : takesRawText (capitals token) = true) : isFunctionName token = true := by
  have hletters : ∀ c ∈ token, (c.isAlpha || c = '_') = true := by
    have hcapitals : (token.map Char.toUpper).all fun c => c.isUpper || c = '_' := by
      simp only [takesRawText, capitals, Bool.or_eq_true] at h
      rw [← @String.toList_ofList (token.map Char.toUpper)]
      rcases h with h | h <;> rw [of_decide_eq_true h] <;> rfl
    intro c hc
    exact isAlpha_of_toUpper (List.all_eq_true.mp hcapitals _ (List.mem_map_of_mem hc))
  cases token with
  | nil =>
    revert h
    decide
  | cons c token =>
    obtain ⟨hc, htoken⟩ := List.forall_mem_cons.mp hletters
    simp only [isFunctionName, hc, Bool.true_and, List.all_eq_true]
    intro d hd
    have hletter := htoken d hd
    simp only [Bool.or_eq_true, Char.isAlphanum] at hletter ⊢
    exact hletter.imp_left .inl

/-- The ways in which a text can be quoted. -/
inductive Quotation where
  /-- Not at all. -/
  | bare
  /-- Between single quotes. -/
  | single
  /-- Between double quotes. -/
  | double

/-- A text with its quotes. -/
def Quotation.around (content : List Char) : Quotation → List Char
  | bare => content
  | single => '\x27' :: (content ++ ['\x27'])
  | double => '\x22' :: (content ++ ['\x22'])

/-- A call of a function that takes its text as it stands, with a text that needs no quotes. -/
structure TextCall where
  /-- The name of the function, in any letters. -/
  name : List Char
  /-- The blanks behind the name. -/
  gap : List Char
  /-- The blanks in front of the text. -/
  front : List Char
  /-- The text. -/
  content : List Char
  /-- The blanks behind the text. -/
  back : List Char
  /-- The function takes its text as it stands. -/
  takesRaw : takesRawText (capitals name) = true
  /-- Only blanks stand behind the name. -/
  blanks_gap : AreBlanks gap
  /-- Only blanks stand in front of the text. -/
  blanks_front : AreBlanks front
  /-- Only blanks stand behind the text. -/
  blanks_back : AreBlanks back
  /-- The text has a character that is no blank. -/
  filled : ¬AreBlanks content
  /-- It begins and ends with no blank. -/
  stripped : strip content = content
  /-- It has no quotes and paired parentheses. -/
  enclosed : IsEnclosed 0 content

namespace TextCall

/-- The call as it is written. -/
def text (c : TextCall) (q : Quotation) : List Char :=
  c.name ++ (c.gap ++ '(' :: (c.front ++ (q.around c.content ++ c.back) ++ [')']))

/-- The call without places. -/
def formula (c : TextCall) : Formula :=
  call (capitals c.name) [literal (String.ofList c.content) 0] 0

/-- However its text is quoted, the same call is spelt. -/
theorem spells (c : TextCall) (q : Quotation) (rest : List Char) :
    Spells (c.text q) c.formula rest := by
  have hname := isFunctionName_of_takesRawText c.takesRaw
  have hquoted {quote : Char} (isQuote : isQuote quote = true) :
      Spells (c.name ++ (c.gap ++ '(' :: (c.front ++ (quote :: (c.content ++ [quote]) ++ c.back) ++
        [')']))) c.formula rest := by
    have hfree : quote ∉ c.content := by
      intro hmem
      rw [c.enclosed.free quote hmem] at isQuote
      cases isQuote
    have hliteral : Spells (quote :: (c.content ++ [quote])) (literal (String.ofList c.content) 0)
        (c.back ++ ')' :: rest) := .quoted isQuote hfree
    refine .call hname c.blanks_gap (fun _ => ?_) (.last c.blanks_front c.blanks_back hliteral)
    rw [firstIs_iff, List.append_assoc, List.append_assoc, hliteral.dropBlanks_eq c.blanks_front]
    exact isQuote
  cases q with
  | single => exact hquoted rfl
  | double => exact hquoted rfl
  | bare =>
    have henclosed : IsEnclosed 0 (c.front ++ (c.content ++ c.back)) :=
      (isEnclosed_blanks_append c.blanks_front).mpr (c.enclosed.append_blanks c.blanks_back)
    have hstrip := strip_margins c.content c.blanks_front c.blanks_back
    rw [c.stripped] at hstrip
    have hfilled : ¬AreBlanks (c.front ++ (c.content ++ c.back)) := fun h =>
      c.filled fun d hd => h d (by simp [hd])
    rw [formula, ← hstrip]
    exact .raw hname c.blanks_gap c.takesRaw henclosed hfilled

end TextCall

/-- Two formulas are the same without places, and so is all that is made of them. -/
structure MeansSame (f g : Formula) : Prop where
  /-- They are the same without places. -/
  same : f.unplaced = g.unplaced
  /-- They depend on the same indicators. -/
  dependencies : f.dependencies = g.dependencies
  /-- They are evaluated to the same, whatever the data are. -/
  evaluate : ∀ fetched context,
    Parallel Fault.TellsSame Eq (f.evaluate fetched context) (g.evaluate fetched context)

theorem MeansSame.of_unplaced_eq {f g : Formula} (h : f.unplaced = g.unplaced) :
    f.MeansSame g :=
  ⟨h, dependencies_congr h, evaluate_parallel h⟩

/-- Texts that are read alike are checked with the same calls and the same verdict. -/
theorem run_parallel_of_read {text text' : String} {errors : ReadError → ReadError → Prop}
    (h : Parallel errors (fun f g => f.unplaced = g.unplaced) (read text) (read text'))
    (herrors : ∀ e e', errors e e' → e.problem = e'.problem) (store : Option SeriesStore) :
    (Verdict.run store text).1 = (Verdict.run store text').1 ∧
      Parallel Eq Verdict.TellsSame (Verdict.run store text).2 (Verdict.run store text').2 := by
  cases hf : read text with
  | ok f =>
    cases hg : read text' with
    | ok g =>
      rw [hf, hg] at h
      cases h with
      | ok fit => exact Verdict.run_parallel hf hg fit store
    | error e' =>
      rw [hf, hg] at h
      cases h
  | error e =>
    cases hg : read text' with
    | ok g =>
      rw [hf, hg] at h
      cases h
    | error e' =>
      rw [hf, hg] at h
      cases h with
      | error fit =>
        have hunplaced : (CalcError.ofRead e).unplaced = (CalcError.ofRead e').unplaced := by
          simp only [CalcError.ofRead, CalcError.unplaced, Cause.unplaced, herrors _ _ fit,
            Option.map_some]
        simp only [Verdict.run, Verdict.examine, hf, hg, true_and]
        exact .ok ⟨rfl, rfl, rfl, .some (CalcError.tellsSame_of_unplaced_eq hunplaced)⟩

/-- A text means the same with quotes and without. Where a call may stand, however the text of
the call is quoted, the same call is read and the same is left behind it; the two whole texts are
refused for the same problem, or read as formulas that mean the same; and they are checked with
the same verdict. A call may stand wherever one stands in a formula that was read. -/
theorem quotations_meanSame :
    (∀ (c : TextCall) (q q' : Quotation) (before after : List Char), ExpectsFormula before →
      (∀ size steps, (c.text q ++ after).length < steps → ∃ f,
        readOne size steps (c.text q ++ after) = .ok (f, after) ∧ f.unplaced = c.formula) ∧
      ∀ text text' : String, text.toList = before ++ (c.text q ++ after) →
        text'.toList = before ++ (c.text q' ++ after) →
        Parallel (overlap before (c.text q) (c.text q') after).SameError MeansSame
          (read text) (read text') ∧
        ∀ store, (Verdict.run store text).1 = (Verdict.run store text').1 ∧
          Parallel Eq Verdict.TellsSame (Verdict.run store text).2 (Verdict.run store text').2) ∧
    ∀ (text : String) (f : Formula) (name : String) (args : List Formula) (p : Nat),
      read text = .ok f → call name args p ∈ f.parts → ExpectsFormula (text.toList.take p) := by
  refine ⟨?_, fun text f name args p => expectsFormula_of_read⟩
  intro c q q' before after hbefore
  have hspells := c.spells q after
  constructor
  · intro size steps hsteps
    obtain ⟨f, hf, hformula⟩ := hspells.reads size _ (hspells.begins.append after).dropBlanks_eq
    exact ⟨f, hf.readOne_eq hsteps, hformula⟩
  · intro text text' htext htext'
    have hread := hbefore.exchange hspells (c.spells q' after)
    rw [← htext, ← htext'] at hread
    exact ⟨hread.mono (fun _ _ => id) fun _ _ => .of_unplaced_eq,
      run_parallel_of_read hread fun _ _ => Overlap.SameError.problem⟩

/-- A text with a comma and parentheses of its own, in an argument of another call. -/
theorem quotations_meanSame_nested :
    let before := "yoy( ".toList
    let after := ")".toList
    let text := "yoy( boolean_Signal (\n(a),b ))"
    let text' := "yoy( boolean_Signal (\n\x22(a),b\x22 ))"
    ∃ c : TextCall, text.toList = before ++ (c.text .bare ++ after) ∧
      text'.toList = before ++ (c.text .double ++ after) ∧ ExpectsFormula before ∧
      (∃ f, readOne 31 30 (c.text .bare ++ after) = .ok (f, after) ∧ f.unplaced = c.formula) ∧
      Parallel (overlap before (c.text .bare) (c.text .double) after).SameError MeansSame
        (read text) (read text') ∧
      (Verdict.run none text).1 = (Verdict.run none text').1 ∧
      ∃ f, read text = .ok f ∧
        call "BOOLEAN_SIGNAL" [literal "(a),b" 22] 5 ∈ f.parts ∧
        ExpectsFormula (text.toList.take 5) := by
  intro before after text text'
  let c : TextCall := {
    name := "boolean_Signal".toList, gap := [' '], front := ['\n']
    content := "(a),b".toList, back := [' ']
    takesRaw := by decide
    blanks_gap := by simp [AreBlanks, isBlank]
    blanks_front := by simp [AreBlanks, isBlank]
    blanks_back := by simp [AreBlanks, isBlank]
    filled := by simp [AreBlanks, isBlank]
    stripped := by cbv
    enclosed := isEnclosed_of_rawSpan
      (show rawSpan 0 "(a),b)".toList = ("(a),b".toList, [')']) by decide) }
  have hbefore : ExpectsFormula before :=
    @ExpectsFormula.argument _ [' ']
      (@ExpectsArgument.opening _ "yoy".toList [] (.start areBlanks_nil) (by decide) areBlanks_nil)
      (by simp [AreBlanks, isBlank])
  have htext : text.toList = before ++ (c.text .bare ++ after) := by decide
  have htext' : text'.toList = before ++ (c.text .double ++ after) := by decide
  obtain ⟨hone, htexts⟩ := quotations_meanSame.1 c .bare .double before after hbefore
  obtain ⟨hread, hverdict⟩ := htexts text text' htext htext'
  have hf : read text = .ok (call "YOY" [call "BOOLEAN_SIGNAL" [literal "(a),b" 22] 5] 0) := by
    cbv
  have hmem : call "BOOLEAN_SIGNAL" [literal "(a),b" 22] 5 ∈
      (call "YOY" [call "BOOLEAN_SIGNAL" [literal "(a),b" 22] 5] 0).parts := by
    simp [parts, allParts]
  exact ⟨c, htext, htext', hbefore, hone 31 30 (by decide), hread, (hverdict none).1, _, hf, hmem,
    quotations_meanSame.2 text _ _ _ _ hf hmem⟩

end IndicatorFormula.Formula
