import IndicatorFormula.Proofs.Formula.Numerals

/-!
# What the reader reads

The reader counts its steps so that it ends. Here is what it reads without the count: a
relation between the text before a formula, the formula and the text behind it, with one
rule for each form that a formula can take. A reading of the reader is one of the relation,
and one step more than the text has characters is enough to find it.
-/

namespace IndicatorFormula.Formula

open Text Decimal

mutual

/-- A formula at the front of a text of a given length, and what is left then. -/
inductive Reads (size : Nat) : List Char → Formula → List Char → Prop where
  /-- Between two quotes of one sort stands a text without that quote. -/
  | quoted {cs body rest : List Char} {quote : Char}
      (text : dropBlanks cs = quote :: (body ++ quote :: rest))
      (isQuote : isQuote quote = true) (free : quote ∉ body) :
      Reads size cs (literal (String.ofList body) (place size (body ++ quote :: rest))) rest
  /-- A numeral is a number unless it runs into a word or stands before a parenthesis. -/
  | number {cs rest : List Char} {n : Numeral}
      (numeral : wholeNumeral? (dropBlanks cs) = some (n, rest))
      (noCall : startsWith (· = '(') (dropBlanks rest) = false)
      (finite : n.value.isFinite = true) :
      Reads size cs (number n.value (place size (dropBlanks cs))) rest
  /-- A word that is no numeral is an indicator unless it stands before a parenthesis. -/
  | indicator {cs token rest : List Char}
      (text : dropBlanks cs = token ++ rest) (word : IsWord token rest)
      (noNumeral : wholeNumeral? (token ++ rest) = none)
      (noCall : startsWith (· = '(') (dropBlanks rest) = false) :
      Reads size cs (indicator (String.ofList token) (place size (token ++ rest))) rest
  /-- Two functions take what stands between the parentheses as it is. -/
  | raw {cs token behind inside content rest : List Char}
      (text : dropBlanks cs = token ++ behind) (word : IsWord token behind)
      (opening : dropBlanks behind = '(' :: inside) (name : isFunctionName token = true)
      (takesRaw : takesRawText (capitals token) = true)
      (unquoted : startsWith isQuote (dropBlanks inside) = false)
      (span : rawSpan 0 (dropBlanks inside) = (content, ')' :: rest))
      (filled : strip content ≠ []) :
      Reads size cs (call (capitals token)
        [literal (String.ofList (strip content)) (place size (dropBlanks inside))]
        (place size (token ++ behind))) rest
  /-- A call has a row of arguments between its parentheses. -/
  | call {cs token behind inside rest : List Char} {args : List Formula}
      (text : dropBlanks cs = token ++ behind) (word : IsWord token behind)
      (opening : dropBlanks behind = '(' :: inside) (name : isFunctionName token = true)
      (quotedText : takesRawText (capitals token) = true →
        startsWith isQuote (dropBlanks inside) = true)
      (filled : startsWith (· = ')') (dropBlanks inside) = false)
      (row : ReadsRow size (dropBlanks inside) args rest) :
      Reads size cs (call (capitals token) args (place size (token ++ behind))) rest

/-- A row of arguments up to the parenthesis that closes the call, and what is left then. -/
inductive ReadsRow (size : Nat) : List Char → List Formula → List Char → Prop where
  /-- The last argument stands before the parenthesis. -/
  | last {cs after rest : List Char} {f : Formula} (first : Reads size cs f after)
      (closing : dropBlanks after = ')' :: rest) : ReadsRow size cs [f] rest
  /-- Any other argument stands before a comma, which no parenthesis follows. -/
  | more {cs after others rest : List Char} {f : Formula} {args : List Formula}
      (first : Reads size cs f after) (comma : dropBlanks after = ',' :: others)
      (filled : startsWith (· = ')') (dropBlanks others) = false)
      (row : ReadsRow size others args rest) : ReadsRow size cs (f :: args) rest

end

/-- A quoted text ends at the first quote like its own. -/
theorem readQuoted_ok {size : Nat} {quote : Char} {cs rest : List Char} {f : Formula}
    (h : readQuoted size quote cs = .ok (f, rest)) :
    ∃ body, cs = body ++ quote :: rest ∧ quote ∉ body ∧
      f = literal (String.ofList body) (place size cs) := by
  unfold readQuoted at h
  split at h
  · simp at h
  · rename_i c after hdrop
    simp only [Except.ok.injEq, Prod.mk.injEq] at h
    obtain ⟨rfl, rfl⟩ := h
    have hc : c = quote := by
      have hs := startsWith_dropWhile (· ≠ quote) cs
      rw [hdrop] at hs
      simpa [startsWith] using hs
    refine ⟨cs.takeWhile (· ≠ quote), ?_, ?_, rfl⟩
    · rw [← hc, ← hdrop, hc]
      exact List.takeWhile_append_dropWhile.symm
    · intro hq
      simpa using List.mem_takeWhile_imp hq

/-- A text without its quote is read between two of them. -/
theorem readQuoted_eq {size : Nat} {quote : Char} {body rest : List Char}
    (h : quote ∉ body) : readQuoted size quote (body ++ quote :: rest) =
      .ok (literal (String.ofList body) (place size (body ++ quote :: rest)), rest) := by
  have hbody : ∀ c ∈ body, decide (c ≠ quote) = true := by
    intro c hc
    simpa using fun he : c = quote => h (he ▸ hc)
  have hstop : startsWith (fun c => decide (c ≠ quote)) (quote :: rest) = false := by
    simp [startsWith]
  obtain ⟨ht, hd⟩ := takeWhile_append_run hbody hstop
  simp only [readQuoted, hd, ht]

/-- The span of a text that is taken as it stands loses nothing and ends before a quote or a
closing parenthesis, if it ends before the text does. -/
theorem rawSpan_append (depth : Nat) (cs : List Char) :
    (rawSpan depth cs).1 ++ (rawSpan depth cs).2 = cs := by
  induction cs generalizing depth with
  | nil => rfl
  | cons c rest ih =>
    unfold rawSpan
    split
    · rfl
    · simp only [List.cons_append, ih]

/-- Raw text stops at a quote or at a closing parenthesis. -/
theorem rawSpan_stop {depth : Nat} {cs rest : List Char} {c : Char}
    (h : (rawSpan depth cs).2 = c :: rest) : isQuote c = true ∨ c = ')' := by
  induction cs generalizing depth with
  | nil => simp [rawSpan] at h
  | cons d cs ih =>
    unfold rawSpan at h
    split at h
    · rename_i hd
      obtain ⟨rfl, rfl⟩ := List.cons.inj h
      simp only [Bool.or_eq_true, Bool.and_eq_true, decide_eq_true_eq] at hd
      exact hd.imp_right And.left
    · exact ih h

/-- A text that is taken as it stands holds no quote. -/
theorem isQuote_of_mem_rawSpan (depth : Nat) {cs : List Char} {c : Char}
    (h : c ∈ (rawSpan depth cs).1) : isQuote c = false := by
  induction cs generalizing depth with
  | nil => simp [rawSpan] at h
  | cons d cs ih =>
    unfold rawSpan at h
    split at h
    · simp at h
    · rename_i hd
      simp only [Bool.or_eq_true, not_or] at hd
      rcases List.mem_cons.mp h with rfl | h
      · simpa using hd.1
      · exact ih _ h

/-- Raw text is read up to the closing parenthesis and stripped. -/
theorem readRaw_ok {size start opening : Nat} {name : String} {cs rest : List Char}
    {f : Formula} (h : readRaw size name start opening cs = .ok (f, rest)) :
    ∃ content, rawSpan 0 cs = (content, ')' :: rest) ∧ strip content ≠ [] ∧
      f = .call name [literal (String.ofList (strip content)) (place size cs)] start := by
  unfold readRaw at h
  simp only at h
  split at h
  · simp at h
  · rename_i c after hspan
    split at h
    · simp at h
    · rename_i hquote
      split at h
      · simp at h
      · rename_i hfilled
        simp only [Except.ok.injEq, Prod.mk.injEq] at h
        obtain ⟨rfl, rfl⟩ := h
        have hc : c = ')' := (rawSpan_stop hspan).resolve_left (by simpa using hquote)
        exact ⟨(rawSpan 0 cs).1, Prod.ext rfl (by rw [hspan, hc]), hfilled, rfl⟩

/-- Raw text that is not blank is read. -/
theorem readRaw_eq {size start opening : Nat} {name : String} {cs content rest : List Char}
    (hspan : rawSpan 0 cs = (content, ')' :: rest)) (hfilled : strip content ≠ []) :
    readRaw size name start opening cs =
      .ok (.call name [literal (String.ofList (strip content)) (place size cs)] start, rest) := by
  have hq : isQuote ')' = false := by decide
  simp [readRaw, hspan, hq, hfilled]

/-- A call is read either with raw text or with a row of arguments. -/
theorem readCall_ok {size start opening : Nat} {name : String}
    {args : List Char → Step (List Formula)} {body rest : List Char} {f : Formula}
    (h : readCall size name start opening args body = .ok (f, rest)) :
    (takesRawText name = true ∧ startsWith isQuote body = false ∧
      readRaw size name start opening body = .ok (f, rest)) ∨
    ((takesRawText name = true → startsWith isQuote body = true) ∧
      startsWith (· = ')') body = false ∧
      ∃ row, args body = .ok (row, rest) ∧ f = .call name row start) := by
  unfold readCall at h
  split at h
  · rename_i hraw
    simp only [Bool.and_eq_true, Bool.not_eq_true'] at hraw
    exact .inl ⟨hraw.1, hraw.2, h⟩
  · rename_i hraw
    split at h
    · simp at h
    · rename_i hclose
      cases hargs : args body with
      | error e => simp [hargs, Except.map] at h
      | ok r =>
        obtain ⟨row, after⟩ := r
        simp only [hargs, Except.map, Except.ok.injEq, Prod.mk.injEq] at h
        obtain ⟨rfl, rfl⟩ := h
        refine .inr ⟨fun ht => ?_, by simpa using hclose, row, rfl, rfl⟩
        simpa [ht] using hraw

/-- Behind the first argument stands the end of the row or a comma and more. -/
theorem readRest_ok {size opening : Nat} {name : String}
    {args : List Char → Step (List Formula)} {first : Formula} {after rest : List Char}
    {row : List Formula} (h : readRest size name opening args first after = .ok (row, rest)) :
    (dropBlanks after = ')' :: rest ∧ row = [first]) ∨
    ∃ others more, dropBlanks after = ',' :: others ∧
      startsWith (· = ')') (dropBlanks others) = false ∧
      args others = .ok (more, rest) ∧ row = first :: more := by
  unfold readRest at h
  split at h
  · simp at h
  · rename_i c others hdrop
    split at h
    · rename_i hc
      subst hc
      split at h
      · simp at h
      · rename_i hclose
        cases hargs : args others with
        | error e => simp [hargs, Except.map] at h
        | ok r =>
          obtain ⟨more, left⟩ := r
          simp only [hargs, Except.map, Except.ok.injEq, Prod.mk.injEq] at h
          obtain ⟨rfl, rfl⟩ := h
          exact .inr ⟨others, more, hdrop, by simpa using hclose, hargs, rfl⟩
    · split at h
      · rename_i hc
        subst hc
        simp only [Except.ok.injEq, Prod.mk.injEq] at h
        obtain ⟨rfl, rfl⟩ := h
        exact .inl ⟨hdrop, rfl⟩
      · simp at h

/-- A number is read if it is finite and is not called. -/
private theorem readNumber_ok {start : Nat} {n : Numeral} {after rest : List Char} {f : Formula}
    (h : readNumber start n after = .ok (f, rest)) :
    after = rest ∧ startsWith (· = '(') (dropBlanks rest) = false ∧ n.value.isFinite = true ∧
      f = .number n.value start := by
  unfold readNumber at h
  split at h
  · simp at h
  · rename_i hcall
    split at h
    · rename_i hfinite
      simp only [Except.ok.injEq, Prod.mk.injEq] at h
      obtain ⟨rfl, rfl⟩ := h
      exact ⟨rfl, by simpa using hcall, hfinite, rfl⟩
    · simp at h

/-- A step of the reader is a step of the relation when its recursive calls are. -/
private theorem reads_of_step {size steps : Nat} {cs rest : List Char} {f : Formula}
    (hrow : ∀ name opening body row after,
      readArgs size name opening steps body = .ok (row, after) → ReadsRow size body row after)
    (h : readOne size (steps + 1) cs = .ok (f, rest)) : Reads size cs f rest := by
  unfold readOne at h
  cases hcs : dropBlanks cs with
  | nil => simp [hcs] at h
  | cons c tail =>
    simp only [hcs] at h
    split at h
    · rename_i hquote
      obtain ⟨body, rfl, hfree, rfl⟩ := readQuoted_ok h
      exact .quoted hcs hquote hfree
    · split at h
      · rename_i n after hnumeral
        obtain ⟨rfl, hcall, hfinite, rfl⟩ := readNumber_ok h
        rw [← hcs] at hnumeral ⊢
        exact .number hnumeral hcall hfinite
      · rename_i hnone
        split at h
        · simp at h
        · rename_i htoken
          have hword := isWord_splitWord htoken
          have htext := splitWord_append (c :: tail)
          generalize (splitWord (c :: tail)).1 = token at *
          generalize (splitWord (c :: tail)).2 = behind at *
          rw [← htext] at h hnone hcs
          split at h
          · rename_i inside hopening
            split at h
            · rename_i hname
              rcases readCall_ok h with ⟨hraw, hquote, hread⟩ | ⟨hquote, hclose, row, hargs, rfl⟩
              · obtain ⟨content, hspan, hfilled, rfl⟩ := readRaw_ok hread
                exact .raw hcs hword hopening hname hraw hquote hspan hfilled
              · exact .call hcs hword hopening hname hquote hclose (hrow _ _ _ _ _ hargs)
            · simp at h
          · rename_i hopening
            simp only [Except.ok.injEq, Prod.mk.injEq] at h
            obtain ⟨rfl, rfl⟩ := h
            refine .indicator hcs hword hnone ?_
            by_contra hcall
            obtain ⟨d, inside, hd, hp⟩ := startsWith_iff.mp (by simpa using hcall)
            simp only [decide_eq_true_eq] at hp
            exact hopening inside (hp ▸ hd)

/-- What the reader reads is a reading. -/
theorem reads_of_readOne {size : Nat} (steps : Nat) :
    (∀ cs f rest, readOne size steps cs = .ok (f, rest) → Reads size cs f rest) ∧
    (∀ name opening cs row rest, readArgs size name opening steps cs = .ok (row, rest) →
      ReadsRow size cs row rest) := by
  induction steps with
  | zero => simp [readOne, readArgs]
  | succ steps ih =>
    refine ⟨fun cs f rest h => reads_of_step ih.2 h, ?_⟩
    intro name opening cs row rest h
    unfold readArgs at h
    cases hfirst : readOne size steps cs with
    | error e => simp [hfirst] at h
    | ok r =>
      obtain ⟨first, after⟩ := r
      simp only [hfirst] at h
      have hone := ih.1 cs first after hfirst
      rcases readRest_ok h with ⟨hclose, rfl⟩ | ⟨others, more, hcomma, hfilled, hargs, rfl⟩
      · exact .last hone hclose
      · exact .more hone hcomma hfilled (ih.2 name opening others more rest hargs)

/-- Behind the first character after blanks less is left. -/
private theorem length_lt_of_dropBlanks {cs rest : List Char} {c : Char}
    (h : dropBlanks cs = c :: rest) : rest.length < cs.length := by
  have hcs := length_dropBlanks_le cs
  simp only [h, List.length_cons] at hcs
  omega

/-- Between the parentheses of a call stands less than the call by two characters at least. -/
private theorem length_body_le {cs token behind inside : List Char}
    (text : dropBlanks cs = token ++ behind) (word : IsWord token behind)
    (opening : dropBlanks behind = '(' :: inside) :
    (dropBlanks inside).length + 2 ≤ (dropBlanks cs).length := by
  have htext := congrArg List.length text
  have htoken := List.length_pos_iff.mpr word.ne_nil
  have hbehind := length_lt_of_dropBlanks opening
  have hinside := length_dropBlanks_le inside
  simp only [List.length_append] at htext
  omega

/-- Behind raw text less is left. -/
private theorem length_lt_of_rawSpan {depth : Nat} {cs content rest : List Char} {c : Char}
    (h : rawSpan depth cs = (content, c :: rest)) : rest.length < cs.length := by
  have hspan := congrArg List.length (rawSpan_append depth cs)
  simp only [h, List.length_append, List.length_cons] at hspan
  omega

mutual

/-- Reading a formula makes the text shorter, blanks aside. -/
theorem Reads.length_lt {size : Nat} {cs rest : List Char} {f : Formula} :
    Reads size cs f rest → rest.length < (dropBlanks cs).length
  | .quoted text _ _ => by
    have h := congrArg List.length text
    simp only [List.length_append, List.length_cons] at h
    omega
  | .number numeral _ _ => Numeral.length_lt_of_scan? (Option.filter_eq_some_iff.mp numeral).1
  | .indicator text word _ _ => by
    have h := congrArg List.length text
    have htoken := List.length_pos_iff.mpr word.ne_nil
    simp only [List.length_append] at h
    omega
  | .raw text word opening _ _ _ span _ => by
    have hbody := length_body_le text word opening
    have hspan := length_lt_of_rawSpan span
    omega
  | .call text word opening _ _ _ row => by
    have hbody := length_body_le text word opening
    have hrow := row.length_lt
    omega

/-- Reading a row of arguments makes the text shorter. -/
theorem ReadsRow.length_lt {size : Nat} {cs rest : List Char} {args : List Formula} :
    ReadsRow size cs args rest → rest.length < cs.length
  | .last first closing => by
    have hcs := length_dropBlanks_le cs
    have hfirst := first.length_lt
    have hclosing := length_lt_of_dropBlanks closing
    omega
  | .more first comma _ row => by
    have hcs := length_dropBlanks_le cs
    have hfirst := first.length_lt
    have hcomma := length_lt_of_dropBlanks comma
    have hrow := row.length_lt
    omega

end

/-- A call with a row of arguments is read if the row is. -/
private theorem readCall_eq {size start opening : Nat} {name : String}
    {args : List Char → Step (List Formula)} {body rest : List Char} {row : List Formula}
    (quotedText : takesRawText name = true → startsWith isQuote body = true)
    (filled : startsWith (· = ')') body = false) (h : args body = .ok (row, rest)) :
    readCall size name start opening args body = .ok (.call name row start, rest) := by
  have hraw : (takesRawText name && !startsWith isQuote body) = false := by
    cases ht : takesRawText name with
    | false => rfl
    | true => simp [quotedText ht]
  simp [readCall, hraw, filled, h, Except.map]

/-- A word in front of a parenthesis is read as a call. -/
theorem readOne_call (size steps : Nat) {cs token behind inside : List Char}
    (text : dropBlanks cs = token ++ behind) (word : IsWord token behind)
    (opening : dropBlanks behind = '(' :: inside) (name : isFunctionName token = true) :
    readOne size (steps + 1) cs =
      readCall size (capitals token) (place size (token ++ behind)) (place size ('(' :: inside))
        (readArgs size (capitals token) (place size ('(' :: inside)) steps)
        (dropBlanks inside) := by
  obtain ⟨c, tail, hc, hword⟩ := startsWith_iff.mp word.startsWith_append
  have hquote := isQuote_of_isWordChar hword
  have hnone := wholeNumeral?_of_isFunctionName name behind
  have hsplit := word.splitWord_eq
  unfold readOne
  rw [text]
  rw [hc] at hnone hsplit ⊢
  simp only [hquote, hnone, hsplit, word.ne_nil, opening, name, if_true, if_false,
    Bool.false_eq_true]

/-- A numeral that does not run into a word is read as a number. -/
theorem readOne_number (size steps : Nat) {cs rest : List Char} {n : Numeral}
    (numeral : wholeNumeral? (dropBlanks cs) = some (n, rest)) :
    readOne size (steps + 1) cs = readNumber (place size (dropBlanks cs)) n rest := by
  cases hcs : dropBlanks cs with
  | nil => simp [hcs, wholeNumeral?, Numeral.scan?, Numeral.scanUnsigned?, Numeral.digits]
      at numeral
  | cons c tail =>
    rw [hcs] at numeral
    have hquote : isQuote c = false := by
      by_contra hq
      simp [wholeNumeral?_of_isQuote (by simpa using hq)] at numeral
    simp [readOne, hcs, hquote, numeral]

mutual

/-- A reading is found in one step more than the text has characters. -/
theorem Reads.readOne_eq {size steps : Nat} {cs rest : List Char} {f : Formula}
    (h : Reads size cs f rest) (hsteps : cs.length < steps) :
    readOne size steps cs = .ok (f, rest) := by
  obtain ⟨steps, rfl⟩ : ∃ n, steps = n + 1 := ⟨steps - 1, by omega⟩
  cases h with
  | quoted text isQuote free =>
    simp only [readOne, text, isQuote, if_true]
    exact readQuoted_eq free
  | number numeral noCall finite =>
    rw [readOne_number size steps numeral]
    simp [readNumber, noCall, finite]
  | indicator text word noNumeral noCall =>
    obtain ⟨c, tail, hc, hword⟩ := startsWith_iff.mp word.startsWith_append
    have hquote := isQuote_of_isWordChar hword
    have hsplit := word.splitWord_eq
    unfold readOne
    rw [text]
    rw [hc] at noNumeral hsplit ⊢
    simp only [hquote, noNumeral, hsplit, word.ne_nil, if_false, Bool.false_eq_true]
    split
    · rename_i inside hopening
      simp [hopening, startsWith] at noCall
    · rfl
  | raw text word opening name takesRaw unquoted span filled =>
    rw [readOne_call size steps text word opening name]
    simp only [readCall, takesRaw, unquoted, Bool.not_false, Bool.and_self, if_true]
    exact readRaw_eq span filled
  | call text word opening name quotedText filled row =>
    rw [readOne_call size steps text word opening name]
    have hbody := length_body_le text word opening
    have hcs := length_dropBlanks_le cs
    exact readCall_eq quotedText filled (row.readArgs_eq (by omega) _ _)

/-- A row of arguments is found in two steps more than the text has characters. -/
theorem ReadsRow.readArgs_eq {size steps : Nat} {cs rest : List Char} {args : List Formula}
    (h : ReadsRow size cs args rest) (hsteps : cs.length + 1 < steps) (name : String)
    (opening : Nat) :
    readArgs size name opening steps cs = .ok (args, rest) := by
  obtain ⟨steps, rfl⟩ : ∃ n, steps = n + 1 := ⟨steps - 1, by omega⟩
  cases h with
  | last first closing =>
    simp [readArgs, first.readOne_eq (by omega : cs.length < steps), readRest, closing]
  | more first comma filled row =>
    have hcs := length_dropBlanks_le cs
    have hfirst := first.length_lt
    have hcomma := length_lt_of_dropBlanks comma
    simp [readArgs, first.readOne_eq (by omega : cs.length < steps), readRest, comma, filled,
      row.readArgs_eq (by omega : _ < steps) name opening, Except.map]

end

/-- A text is read to its end just when only blanks are left. -/
private theorem finish_ok_iff {size : Nat} {f g : Formula} {rest : List Char} :
    finish size f rest = .ok g ↔ dropBlanks rest = [] ∧ g = f := by
  unfold finish
  split
  · rename_i hnil
    simp [hnil, eq_comm]
  · rename_i c more hcons
    split <;> simp [hcons]

/-- A text is a formula just when a reading leaves nothing but blanks. -/
theorem readChars_ok_iff {cs : List Char} {f : Formula} :
    readChars cs = .ok f ↔ ∃ rest, Reads cs.length cs f rest ∧ dropBlanks rest = [] := by
  constructor
  · intro h
    unfold readChars at h
    split at h
    · simp at h
    · cases hone : readOne cs.length (cs.length + 1) cs with
      | error e => simp [hone, bind, Except.bind] at h
      | ok r =>
        obtain ⟨g, rest⟩ := r
        simp only [hone, bind, Except.bind] at h
        obtain ⟨hrest, rfl⟩ := finish_ok_iff.mp h
        exact ⟨rest, (reads_of_readOne _).1 _ _ _ hone, hrest⟩
  · rintro ⟨rest, hreads, hrest⟩
    have hne : dropBlanks cs ≠ [] := by
      intro hnil
      have hlength := hreads.length_lt
      simp [hnil] at hlength
    simp only [readChars, hne, if_false, hreads.readOne_eq (Nat.lt_succ_self _), bind, Except.bind]
    exact finish_ok_iff.mpr ⟨hrest, rfl⟩

/-- A quoted text does not go too deep. -/
theorem readQuoted_ne_tooDeep {size : Nat} {quote : Char} {cs : List Char} {e : ReadError}
    (h : readQuoted size quote cs = .error e) : e.problem ≠ .tooDeep := by
  unfold readQuoted at h
  split at h <;> cases h
  simp

/-- A number does not go too deep. -/
theorem readNumber_ne_tooDeep {start : Nat} {n : Numeral} {after : List Char} {e : ReadError}
    (h : readNumber start n after = .error e) : e.problem ≠ .tooDeep := by
  unfold readNumber at h
  split at h
  · cases h
    simp
  · split at h <;> cases h
    simp

/-- Raw text does not go too deep. -/
theorem readRaw_ne_tooDeep {size start opening : Nat} {name : String} {cs : List Char}
    {e : ReadError} (h : readRaw size name start opening cs = .error e) :
    e.problem ≠ .tooDeep := by
  unfold readRaw at h
  simp only at h
  split at h
  · cases h
    simp
  · split at h
    · cases h
      simp
    · split at h <;> cases h
      simp

/-- A call goes too deep only in its arguments. -/
theorem readCall_ne_tooDeep {size start opening : Nat} {name : String}
    {args : List Char → Step (List Formula)} {body : List Char} {e : ReadError}
    (hargs : ∀ e, args body = .error e → e.problem ≠ .tooDeep)
    (h : readCall size name start opening args body = .error e) : e.problem ≠ .tooDeep := by
  unfold readCall at h
  split at h
  · exact readRaw_ne_tooDeep h
  · split at h
    · cases h
      simp
    · cases hbody : args body with
      | ok r => simp [hbody, Except.map] at h
      | error e' =>
        rw [hbody] at h
        cases h
        exact hargs e hbody

/-- A row goes too deep only in its arguments. -/
theorem readRest_ne_tooDeep {size opening : Nat} {name : String}
    {args : List Char → Step (List Formula)} {first : Formula} {after : List Char} {e : ReadError}
    (hargs : ∀ more e, more.length < after.length → args more = .error e → e.problem ≠ .tooDeep)
    (h : readRest size name opening args first after = .error e) : e.problem ≠ .tooDeep := by
  unfold readRest at h
  split at h
  · cases h
    simp
  · rename_i c more hmore
    split at h
    · split at h
      · cases h
        simp
      · cases hothers : args more with
        | ok r => simp [hothers, Except.map] at h
        | error e' =>
          rw [hothers] at h
          cases h
          exact hargs more e (length_lt_of_dropBlanks hmore) hothers
    · split at h <;> cases h
      simp

/-- A text is left before the steps are, so that the count of steps refuses nothing. -/
theorem ne_tooDeep_of_readOne {size : Nat} (steps : Nat) :
    (∀ cs e, cs.length < steps → readOne size steps cs = .error e → e.problem ≠ .tooDeep) ∧
    (∀ name opening cs e, cs.length + 1 < steps →
      readArgs size name opening steps cs = .error e → e.problem ≠ .tooDeep) := by
  induction steps with
  | zero => simp
  | succ steps ih =>
    obtain ⟨hone, hargs⟩ := ih
    constructor
    · intro cs e hsteps h
      unfold readOne at h
      cases hcs : dropBlanks cs with
      | nil =>
        rw [hcs] at h
        cases h
        simp
      | cons c tail =>
        have hlength := length_dropBlanks_le cs
        rw [hcs] at h hlength
        simp only at h
        split at h
        · exact readQuoted_ne_tooDeep h
        · split at h
          · exact readNumber_ne_tooDeep h
          · split at h
            · cases h
              simp
            · rename_i htoken
              have htext := congrArg List.length (splitWord_append (c :: tail))
              have htoken := List.length_pos_iff.mpr htoken
              rw [List.length_append] at htext
              split at h
              · rename_i inside hopening
                split at h
                · refine readCall_ne_tooDeep (fun e' => hargs _ _ _ e' ?_) h
                  have hbehind := length_lt_of_dropBlanks hopening
                  have hinside := length_dropBlanks_le inside
                  omega
                · cases h
                  simp
              · cases h
    · intro name opening cs e hsteps h
      unfold readArgs at h
      cases hfirst : readOne size steps cs with
      | error e' =>
        rw [hfirst] at h
        cases h
        exact hone cs e (by omega) hfirst
      | ok r =>
        obtain ⟨first, after⟩ := r
        rw [hfirst] at h
        refine readRest_ne_tooDeep (fun more e' hmore => hargs _ _ more e' ?_) h
        have hafter := ((reads_of_readOne steps).1 cs first after hfirst).length_lt
        have hcs := length_dropBlanks_le cs
        omega

/-- A text that is no formula is refused for what stands in it. -/
theorem readChars_ne_tooDeep {cs : List Char} {e : ReadError} (h : readChars cs = .error e) :
    e.problem ≠ .tooDeep := by
  unfold readChars at h
  split at h
  · cases h
    simp
  · cases hone : readOne cs.length (cs.length + 1) cs with
    | error e' =>
      rw [hone] at h
      cases h
      exact (ne_tooDeep_of_readOne _).1 cs e (Nat.lt_succ_self _) hone
    | ok r =>
      simp only [hone, bind, Except.bind, finish] at h
      split at h
      · cases h
      · split at h <;> cases h <;> simp

end IndicatorFormula.Formula
