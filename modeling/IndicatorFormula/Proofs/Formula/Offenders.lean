import IndicatorFormula.Proofs.Formula.Grammar

/-!
# Where a text goes wrong

An error of the reader names a place of the text. What stands at the place fits what is said to
be wrong there: a character that is complained of stands at it, an unclosed parenthesis is that
of the call that is named, and a token that is refused begins at it. One place is off. The error
of a comma behind the last argument names the place in front of the closing parenthesis, where
the comma stands only when no blank comes between the two.
-/

namespace IndicatorFormula

open Text Decimal Formula

/-- No word goes on into what stands behind a text. -/
def EndsNoWord (front : List Char) : Prop := ∀ c ∈ front.getLast?, isWordChar c = false

/-- The parenthesis at a place opens a call: a whole word that names the function stands in front
of it, blanks aside. -/
def OpensCall (t : List Char) (p : Nat) (name : String) : Prop :=
  ∃ front token ws inside, t = front ++ (token ++ (ws ++ '(' :: inside)) ∧
    p = (front ++ (token ++ ws)).length ∧ EndsNoWord front ∧ isFunctionName token = true ∧
    capitals token = name ∧ AreBlanks ws

/-- What stands at the place of an error is what is wrong there. -/
def ReadError.Shows (t : List Char) (e : ReadError) : Prop :=
  match e.problem with
  | .emptyFormula => AreBlanks t ∧ e.position = 0
  | .unexpectedEnd => e.position = t.length
  | .unbalancedClose => t[e.position]? = some ')'
  | .trailingInput c => t[e.position]? = some c ∧ c ≠ ')'
  | .unexpectedCharacter c => t[e.position]? = some c ∧ isQuote c = false ∧ isWordChar c = false
  | .emptyArguments _ => t[e.position]? = some ')'
  | .expectedSeparator _ => ∃ c, t[e.position]? = some c ∧ c ≠ ',' ∧ c ≠ ')'
  | .quoteInRawText _ => ∃ c, t[e.position]? = some c ∧ isQuote c = true
  | .unterminatedText => ∃ front quote rest, t = front ++ quote :: rest ∧
      e.position = front.length ∧ isQuote quote = true ∧ quote ∉ rest
  | .invalidName token => ∃ front rest, t = front ++ (token.toList ++ rest) ∧
      e.position = front.length ∧ isFunctionName token.toList = false ∧ FirstIs (· = '(') rest
  | .outOfRange => ∃ front rest, ∃ n : Numeral, t = front ++ (n.text ++ rest) ∧
      e.position = front.length ∧ n.IsLongest rest ∧ n.value.isFinite = false
  | .neverClosed name => OpensCall t e.position name
  -- The comma comes first, then blanks if there are any, then the parenthesis.
  | .trailingComma _ => ∃ front ws rest, t = front ++ ',' :: (ws ++ ')' :: rest) ∧
      e.position = front.length + ws.length ∧ AreBlanks ws
  | _ => False

section Fresh

variable {t front cs ws : List Char} {c : Char}

/-- Blanks behind end no word. -/
theorem EndsNoWord.append_blanks (h : EndsNoWord front) (hws : AreBlanks ws) :
    EndsNoWord (front ++ ws) := by
  intro c hc
  rw [List.getLast?_append, Option.mem_def, Option.or_eq_some_iff] at hc
  rcases hc with hc | ⟨-, hc⟩
  · exact isWordChar_of_isBlank (hws c (List.mem_of_getLast? hc))
  · exact h c hc

/-- A character that belongs to no word ends none. -/
theorem EndsNoWord.append_char (front : List Char) (hc : isWordChar c = false) :
    EndsNoWord (front ++ [c]) := by
  intro d hd
  rw [List.getLast?_concat, Option.mem_def, Option.some.injEq] at hd
  exact hd ▸ hc

/-- What is left of a text begins where a word may begin. -/
def IsFresh (t cs : List Char) : Prop := ∃ front, t = front ++ cs ∧ EndsNoWord front

/-- Blanks in front do not matter for a fresh position. -/
theorem IsFresh.dropBlanks (h : IsFresh t cs) : IsFresh t (dropBlanks cs) := by
  obtain ⟨front, ht, hfront⟩ := h
  obtain ⟨ws, hws, hcs⟩ := exists_blanks_dropBlanks cs
  refine ⟨front ++ ws, ?_, hfront.append_blanks hws⟩
  rw [List.append_assoc, ← hcs, ht]

end Fresh

namespace Formula

variable {t front cs : List Char} {e : ReadError} {name : String} {start opening : Nat}

/-- A quoted text that is refused is shown by its reason. -/
theorem readQuoted_shows {quote : Char} (ht : t = front ++ quote :: cs)
    (hquote : isQuote quote = true) (h : readQuoted t.length quote cs = .error e) : e.Shows t := by
  unfold readQuoted at h
  split at h
  · rename_i hdrop
    cases h
    refine ⟨front, quote, cs, ht, place_append ht, hquote, fun hmem => ?_⟩
    simpa using List.dropWhile_eq_nil_iff.mp hdrop quote hmem
  · cases h

/-- A number that is refused is shown by its reason. -/
theorem readNumber_shows {n : Numeral} (ht : t = front ++ (n.text ++ cs))
    (hn : wholeNumeral? (n.text ++ cs) = some (n, cs))
    (h : readNumber front.length n cs = .error e) : e.Shows t := by
  unfold readNumber at h
  split at h
  · rename_i hcall
    cases h
    refine ⟨front, cs, by rwa [String.toList_ofList], rfl, ?_, firstIs_iff.mpr hcall⟩
    by_contra hname
    rw [String.toList_ofList] at hname
    rw [wholeNumeral?_of_isFunctionName (by simpa using hname)] at hn
    cases hn
  · split at h
    · cases h
    · rename_i hfinite
      cases h
      exact ⟨front, cs, n, ht, rfl, (wholeNumeral?_eq_some_iff.mp hn).2.1, by simpa using hfinite⟩

/-- A raw text that is refused is shown by its reason. -/
theorem readRaw_shows (ht : t = front ++ cs) (hcs : startsWith isBlank cs = false)
    (hopen : OpensCall t opening name) (h : readRaw t.length name start opening cs = .error e) :
    e.Shows t := by
  have hspan := rawSpan_append 0 cs
  unfold readRaw at h
  simp only at h
  split at h
  · cases h
    exact hopen
  · rename_i c after hrest
    rw [hrest] at hspan
    split at h
    · rename_i hquote
      cases h
      refine ⟨c, ?_, hquote⟩
      rw [hrest]
      have htext : t = (front ++ (rawSpan 0 cs).1) ++ c :: after := by
        rw [List.append_assoc, hspan, ht]
      exact getElem?_place ⟨_, htext.symm⟩
    · rename_i hquote
      split at h
      · rename_i hempty
        cases h
        -- The span begins with no blank, so that it has nothing but blanks only if it is empty.
        have hnil : (rawSpan 0 cs).1 = [] := by
          cases hraw : (rawSpan 0 cs).1 with
          | nil => rfl
          | cons d raw =>
            rw [hraw] at hspan hempty
            have hblank := strip_eq_nil_iff.mp hempty d (List.mem_cons_self ..)
            rw [← hspan] at hcs
            simp [startsWith, hblank] at hcs
        have hc : c = ')' := (rawSpan_stop hrest).resolve_left hquote
        rw [hnil, hc, List.nil_append] at hspan
        rw [← hspan] at ht ⊢
        exact getElem?_place ⟨_, ht.symm⟩
      · cases h

/-- An error is told at its place, unless it is that the steps are used up. -/
def Told (t : List Char) (e : ReadError) : Prop := e.problem = .tooDeep ∨ e.Shows t

/-- A call that is refused tells its reason, if the arguments do. -/
theorem readCall_told {args : List Char → Step (List Formula)} (ht : t = front ++ cs)
    (hcs : startsWith isBlank cs = false) (hopen : OpensCall t opening name)
    (hargs : ∀ e, args cs = .error e → Told t e)
    (h : readCall t.length name start opening args cs = .error e) : Told t e := by
  unfold readCall at h
  split at h
  · exact .inr (readRaw_shows ht hcs hopen h)
  · split at h
    · rename_i hclose
      obtain ⟨c, rest, rfl, hc⟩ := startsWith_iff.mp hclose
      cases h
      rw [of_decide_eq_true hc] at ht ⊢
      exact .inr (getElem?_place ⟨_, ht.symm⟩)
    · cases hrow : args cs with
      | ok r => simp [hrow, Except.map] at h
      | error e' =>
        rw [hrow] at h
        cases h
        exact hargs e hrow

/-- A row that is refused behind its first argument tells its reason. -/
theorem readRest_told {args : List Char → Step (List Formula)} {first : Formula}
    (ht : t = front ++ cs) (hopen : OpensCall t opening name)
    (hargs : ∀ more e, IsFresh t more → args more = .error e → Told t e)
    (h : readRest t.length name opening args first cs = .error e) : Told t e := by
  obtain ⟨ws, hws, hcs⟩ := exists_blanks_dropBlanks cs
  unfold readRest at h
  split at h
  · cases h
    exact .inr hopen
  · rename_i c more hdrop
    rw [hdrop] at hcs
    have htext : t = (front ++ ws) ++ c :: more := by rw [ht, hcs, List.append_assoc]
    split at h
    · rename_i hcomma
      subst hcomma
      split at h
      · rename_i hclose
        cases h
        obtain ⟨d, rest, hrest, hd⟩ := startsWith_iff.mp hclose
        obtain ⟨ws', hws', hmore⟩ := exists_blanks_dropBlanks more
        rw [hrest, of_decide_eq_true hd] at hmore ⊢
        refine .inr ⟨front ++ ws, ws', rest, by rw [htext, hmore], ?_, hws'⟩
        have hplace : place t.length (')' :: rest) = ((front ++ ws) ++ (',' :: ws')).length :=
          place_append (by rw [htext, hmore]; simp)
        rw [hplace, List.length_append, List.length_cons]
        exact Nat.add_succ_sub_one _ _
      · have hfresh : IsFresh t more :=
          ⟨front ++ ws ++ [','], by simp [htext], .append_char _ (by decide)⟩
        cases hothers : args more with
        | ok r => simp [hothers, Except.map] at h
        | error e' =>
          rw [hothers] at h
          cases h
          exact hargs more e hfresh hothers
    · rename_i hcomma
      split at h
      · cases h
      · rename_i hclose
        cases h
        exact .inr ⟨c, getElem?_place ⟨_, htext.symm⟩, hcomma, hclose⟩

/-- A word in front of a parenthesis opens the call that it names. -/
theorem opensCall_of_word {token behind inside : List Char} (ht : t = front ++ (token ++ behind))
    (hfront : EndsNoWord front) (hname : isFunctionName token = true)
    (hbehind : dropBlanks behind = '(' :: inside) :
    OpensCall t (place t.length ('(' :: inside)) (capitals token) ∧ IsFresh t inside := by
  obtain ⟨ws, hws, hbehind'⟩ := exists_blanks_dropBlanks behind
  rw [hbehind] at hbehind'
  have htext : t = (front ++ (token ++ ws)) ++ '(' :: inside := by simp [ht, hbehind']
  exact ⟨⟨front, token, ws, inside, by rw [ht, hbehind'], place_append htext, hfront, hname, rfl,
    hws⟩, front ++ (token ++ ws) ++ ['('], by simp [htext], .append_char _ (by decide)⟩

/-- An error of reading one formula is told when those of its arguments are. -/
theorem told_of_step {steps : Nat} (hfresh : IsFresh t cs)
    (hargs : ∀ name opening body e, OpensCall t opening name → IsFresh t body →
      readArgs t.length name opening steps body = .error e → Told t e)
    (h : readOne t.length (steps + 1) cs = .error e) : Told t e := by
  obtain ⟨front, ht, hfront⟩ := hfresh.dropBlanks
  unfold readOne at h
  cases hcs : dropBlanks cs with
  | nil =>
    rw [hcs] at h
    cases h
    exact .inr rfl
  | cons c tail =>
    have hblank : startsWith isBlank (c :: tail) = false := by
      rw [← hcs]
      exact startsWith_dropWhile isBlank cs
    rw [hcs] at h ht
    simp only at h
    split at h
    · rename_i hquote
      exact .inr (readQuoted_shows ht hquote h)
    · rename_i hquote
      split at h
      · rename_i n after hnumeral
        have htext := (wholeNumeral?_eq_some_iff.mp hnumeral).1
        rw [place_append ht] at h
        rw [htext] at ht hnumeral
        exact .inr (readNumber_shows ht hnumeral h)
      · split at h
        · rename_i htoken
          cases h
          refine .inr ⟨getElem?_place ⟨_, ht.symm⟩, by simpa using hquote, ?_⟩
          by_contra hword
          simp [splitWord, List.takeWhile_cons, hword] at htoken
        · rename_i hnone htoken
          have hword := isWord_splitWord htoken
          have htext := splitWord_append (c :: tail)
          have hstart := place_append ht
          generalize (splitWord (c :: tail)).1 = token at *
          generalize (splitWord (c :: tail)).2 = behind at *
          rw [← htext] at ht
          split at h
          · rename_i inside hopening
            split at h
            · rename_i hname
              obtain ⟨hopen, hinside⟩ := opensCall_of_word ht hfront hname hopening
              obtain ⟨front', ht', hfront'⟩ := hinside.dropBlanks
              exact readCall_told ht' (startsWith_dropWhile isBlank inside) hopen
                (fun e he => hargs _ _ _ e hopen hinside.dropBlanks he) h
            · rename_i hname
              cases h
              refine .inr ⟨front, behind, by rwa [String.toList_ofList], hstart, ?_, ?_⟩
              · rw [String.toList_ofList]
                simpa using hname
              · rw [firstIs_iff, hopening]
                rfl
          · cases h

/-- Every error of the reader is told at its place. -/
theorem told_of_readOne (t : List Char) (steps : Nat) :
    (∀ cs e, IsFresh t cs → readOne t.length steps cs = .error e → Told t e) ∧
    (∀ name opening cs e, OpensCall t opening name → IsFresh t cs →
      readArgs t.length name opening steps cs = .error e → Told t e) := by
  induction steps with
  | zero =>
    refine ⟨fun cs e _ h => ?_, fun name opening cs e _ _ h => ?_⟩
    · cases h
      exact .inl rfl
    · cases h
      exact .inl rfl
  | succ steps ih =>
    refine ⟨fun cs e hfresh h => told_of_step hfresh ih.2 h, ?_⟩
    intro name opening cs e hopen hfresh h
    unfold readArgs at h
    cases hfirst : readOne t.length steps cs with
    | error e' =>
      rw [hfirst] at h
      cases h
      exact ih.1 cs e hfresh hfirst
    | ok r =>
      obtain ⟨first, after⟩ := r
      rw [hfirst] at h
      obtain ⟨front, ht, -⟩ := hfresh.dropBlanks
      obtain ⟨text, htext, -⟩ := ((reads_of_readOne steps).1 cs first after hfirst).spells
      rw [htext, ← List.append_assoc] at ht
      exact readRest_told ht hopen (fun more e => ih.2 name opening more e hopen) h

/-- A text that is refused shows at the place of the error what is wrong there. -/
theorem shows_of_readChars (h : readChars t = .error e) : e.Shows t := by
  have hsteps := readChars_ne_tooDeep h
  have hfresh : IsFresh t t := ⟨[], rfl, nofun⟩
  unfold readChars at h
  split at h
  · rename_i hblank
    cases h
    exact ⟨dropBlanks_eq_nil_iff.mp hblank, rfl⟩
  · cases hone : readOne t.length (t.length + 1) t with
    | error e' =>
      rw [hone] at h
      cases h
      exact ((told_of_readOne t _).1 t e hfresh hone).resolve_left hsteps
    | ok r =>
      obtain ⟨f, rest⟩ := r
      simp only [hone, bind, Except.bind] at h
      obtain ⟨front, ht, -⟩ := hfresh.dropBlanks
      obtain ⟨text, htext, -⟩ := ((reads_of_readOne _).1 t f rest hone).spells
      obtain ⟨ws, -, hrest⟩ := exists_blanks_dropBlanks rest
      unfold finish at h
      split at h
      · cases h
      · rename_i c more hmore
        rw [htext, hrest, hmore] at ht
        have hplace : t = (front ++ (text ++ ws)) ++ c :: more := by simpa using ht
        split at h
        · rename_i hclose
          cases h
          rw [hclose] at hplace ⊢
          exact getElem?_place ⟨_, hplace.symm⟩
        · rename_i hclose
          cases h
          exact ⟨getElem?_place ⟨_, hplace.symm⟩, hclose⟩

end Formula

/-- What stands at the place of an error lies in the text or right behind it. -/
theorem ReadError.Shows.position_le {t : List Char} {e : ReadError} (h : e.Shows t) :
    e.position ≤ t.length := by
  obtain ⟨problem, p⟩ := e
  have hlt {c : Char} (h : t[p]? = some c) : p ≤ t.length :=
    Nat.le_of_lt (List.getElem?_eq_some_iff.mp h).1
  cases problem with
  | emptyFormula => exact h.2 ▸ Nat.zero_le _
  | unbalancedClose => exact hlt h
  | trailingInput c => exact hlt h.1
  | unexpectedEnd => exact Nat.le_of_eq h
  | invalidName token =>
    obtain ⟨front, rest, rfl, rfl, -⟩ := h
    simp
  | outOfRange =>
    obtain ⟨front, rest, n, rfl, rfl, -⟩ := h
    simp
  | unexpectedCharacter c => exact hlt h.1
  | emptyArguments name => exact hlt h
  | neverClosed name =>
    obtain ⟨front, token, ws, inside, rfl, rfl, -⟩ := h
    simp
  | trailingComma name =>
    obtain ⟨front, ws, rest, rfl, rfl, -⟩ := h
    simp
    omega
  | expectedSeparator name =>
    obtain ⟨c, hc, -⟩ := h
    exact hlt hc
  | quoteInRawText name =>
    obtain ⟨c, hc, -⟩ := h
    exact hlt hc
  | unterminatedText =>
    obtain ⟨front, quote, rest, rfl, rfl, -⟩ := h
    simp
  | malformedWeight piece => cases h
  | duplicateWeight slug => cases h
  | malformedCondition text => cases h
  | tooDeep => cases h

namespace Formula

/-- An error of the reader shows what is wrong: at its place stands the character or begins the
token that it complains of, or the parenthesis of the call that it names, or the text ends there.
Only of a comma behind the last argument this is not the place. There the error names the
character in front of the closing parenthesis, which is a blank if one follows the comma. -/
theorem read_error_shows {text : String} {e : ReadError} (h : read text = .error e) :
    e.Shows text.toList :=
  shows_of_readChars h

/-- A call that is never closed, its parenthesis behind a blank. -/
theorem read_error_shows_unclosed :
    read " sum (x" = .error ⟨.neverClosed "SUM", 5⟩ ∧
      ReadError.Shows " sum (x".toList ⟨.neverClosed "SUM", 5⟩ := by
  have hread : read " sum (x" = .error ⟨.neverClosed "SUM", 5⟩ := by cbv
  exact ⟨hread, read_error_shows hread⟩

/-- The error of a comma behind the last argument does not always name the place of the comma. -/
theorem not_trailingComma_shows :
    ¬∀ (text name : String) (p : Nat), read text = .error ⟨.trailingComma name, p⟩ →
      text.toList[p]? = some ',' := by
  intro h
  have hread : read "ROC(cpi, )" = .error ⟨.trailingComma "ROC", 8⟩ := by cbv
  have hblank : "ROC(cpi, )".toList[8]? = some ' ' := by decide
  rw [h _ _ _ hread] at hblank
  revert hblank
  decide

end Formula

end IndicatorFormula
