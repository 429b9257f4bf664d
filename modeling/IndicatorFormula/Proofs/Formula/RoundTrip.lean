import IndicatorFormula.Proofs.Decimal.ReadBack
import IndicatorFormula.Proofs.Formula.Canonical
import IndicatorFormula.Proofs.Formula.Places
import IndicatorFormula.Proofs.Formula.Tokens

/-!
# Reading the canonical form

A formula that can be written is read back from its canonical form, places aside. Together
with the form of whatever is read this makes the canonical form a normal form: writing what
was read and reading it again changes nothing.
-/

namespace IndicatorFormula.Formula

open Text Decimal

/-- A text behind a formula: nothing, or the comma or parenthesis behind an argument. -/
def Closes (rest : List Char) : Prop :=
  rest = [] ∨ startsWith (fun c => c = ',' || c = ')') rest = true

/-- What closes an argument continues no token. -/
private theorem Closes.startsWith {rest : List Char} (h : Closes rest) {p : Char → Bool}
    (hcomma : p ',' = false) (hclose : p ')' = false) : startsWith p rest = false := by
  rcases h with rfl | h
  · rfl
  · obtain ⟨c, more, rfl, hc⟩ := startsWith_iff.mp h
    simp only [Bool.or_eq_true, decide_eq_true_eq] at hc
    rcases hc with rfl | rfl
    · exact hcomma
    · exact hclose

/-- What closes an argument opens no call. -/
private theorem Closes.noCall {rest : List Char} (h : Closes rest) :
    Formula.startsWith (· = '(') (dropBlanks rest) = false := by
  rw [dropBlanks_of_startsWith (h.startsWith (by decide) (by decide))]
  exact h.startsWith (by decide) (by decide)

/-- A reading does not depend on the blanks in front. -/
theorem Reads.of_dropBlanks {size : Nat} {cs cs' rest : List Char} {f : Formula}
    (h : Reads size cs f rest) (heq : dropBlanks cs' = dropBlanks cs) :
    Reads size cs' f rest := by
  cases h with
  | quoted text isQuote free => exact .quoted (heq.trans text) isQuote free
  | number numeral noCall finite =>
    rw [← heq] at numeral ⊢
    exact .number numeral noCall finite
  | indicator text word noNumeral noCall => exact .indicator (heq.trans text) word noNumeral noCall
  | raw text word opening name takesRaw unquoted span filled =>
    exact .raw (heq.trans text) word opening name takesRaw unquoted span filled
  | call text word opening name quotedText filled row =>
    exact .call (heq.trans text) word opening name quotedText filled row

/-- A row is read the same after blanks. -/
theorem ReadsRow.of_dropBlanks {size : Nat} {cs cs' rest : List Char} {args : List Formula}
    (h : ReadsRow size cs args rest) (heq : dropBlanks cs' = dropBlanks cs) :
    ReadsRow size cs' args rest := by
  cases h with
  | last first closing => exact .last (first.of_dropBlanks heq) closing
  | more first comma filled row => exact .more (first.of_dropBlanks heq) comma filled row

/-- A quoted text begins a formula. -/
private theorem beginsFormula_quoted (cs : List Char) : BeginsFormula (quotedChars cs) := by
  simp only [BeginsFormula, quotedChars, quoteAround, List.cons_append, startsWith]
  split <;> decide

/-- A text that can be quoted is read back. -/
private theorem reads_literal {size p : Nat} {s : String} {rest : List Char}
    (h : isQuotable s.toList = true) :
    ∃ g, Reads size (quotedChars s.toList ++ rest) g rest ∧
      g.unplaced = (literal s p).unplaced := by
  have hquote : isQuote (quoteAround s.toList) = true := by
    unfold quoteAround
    split <;> decide
  have hfree : quoteAround s.toList ∉ s.toList := by
    unfold quoteAround
    split
    · rename_i hd
      simpa [isQuotable, hd] using h
    · rename_i hd
      exact hd
  have htext : dropBlanks (quotedChars s.toList ++ rest) =
      quoteAround s.toList :: (s.toList ++ quoteAround s.toList :: rest) := by
    rw [((beginsFormula_quoted _).append rest).dropBlanks_eq]
    simp [quotedChars]
  exact ⟨_, .quoted htext hquote hfree, by simp [unplaced]⟩

/-- A finite number is read back from its shortest form. -/
private theorem reads_number {size p : Nat} {x : Float} {rest : List Char}
    (hx : x.isFinite = true) (hrest : Closes rest) :
    ∃ g, Reads size ((shortest x).toList ++ rest) g rest ∧
      g.unplaced = (number x p).unplaced := by
  obtain ⟨n, hn, htext, rfl⟩ := exists_numeral_shortest hx
  have hscan := scan?_text hn (hrest.startsWith (p := isDigit) (by decide) (by decide))
    fun _ => hrest.startsWith (by decide) (by decide)
  have hword := hrest.startsWith (p := isWordChar) (by decide) (by decide)
  have hblank := ((beginsFormula_numeral hn).append rest).dropBlanks_eq
  have hnumeral : wholeNumeral? (dropBlanks (n.text ++ rest)) = some (n, rest) := by
    simp [hblank, wholeNumeral?, hscan, hword]
  rw [htext]
  exact ⟨_, .number hnumeral hrest.noCall hx, rfl⟩

/-- A slug is read back. -/
private theorem reads_indicator {size p : Nat} {slug : String} {rest : List Char}
    (h : isSlugWord slug.toList = true) (hrest : Closes rest) :
    ∃ g, Reads size (slug.toList ++ rest) g rest ∧
      g.unplaced = (indicator slug p).unplaced := by
  simp only [isSlugWord, Bool.and_eq_true, decide_eq_true_eq, List.all_eq_true,
    Bool.not_eq_true'] at h
  have hword : IsWord slug.toList rest :=
    ⟨h.1.1, h.1.2, hrest.startsWith (by decide) (by decide)⟩
  have hblank := ((beginsFormula_word hword).append rest).dropBlanks_eq
  have hnone := wholeNumeral?_word hword h.2 (hrest.startsWith (by decide) (by decide))
  exact ⟨_, .indicator hblank hword hnone hrest.noCall, by simp [unplaced]⟩

/-- The canonical form of a formula begins like a formula. -/
private theorem beginsFormula_chars {f : Formula} (h : f.isCanonical = true) :
    BeginsFormula (chars f) := by
  cases f with
  | number x p =>
    obtain ⟨n, hn, htext, -⟩ := exists_numeral_shortest h
    rw [chars, htext]
    exact beginsFormula_numeral hn
  | literal s p => exact beginsFormula_quoted _
  | indicator slug p =>
    simp only [Formula.isCanonical, isSlugWord, Bool.and_eq_true, decide_eq_true_eq,
      List.all_eq_true] at h
    have hword : IsWord slug.toList [] := ⟨h.1.1, h.1.2, rfl⟩
    exact beginsFormula_word hword
  | call name args p =>
    have hname := (isCanonical_call_iff.mp h).1
    have hne : name.toList ≠ [] := by
      intro hnil
      simp [hnil, isCapitalName] at hname
    have hword : IsWord name.toList [] := ⟨hne, (isCapitalName_spec hname).2.2, rfl⟩
    rw [chars, List.append_assoc]
    exact (beginsFormula_word hword).append _
  | hole => simp [Formula.isCanonical] at h

/-- The printed arguments begin with a formula. -/
private theorem beginsFormula_argChars {f : Formula} {args : List Formula}
    (h : f.isCanonical = true) : BeginsFormula (argChars (f :: args)) := by
  cases args with
  | nil => exact beginsFormula_chars h
  | cons g args =>
    rw [argChars]
    exact (beginsFormula_chars h).append _

/-- Formulas with a comma and a blank between them are read as a row. -/
private theorem readsRow_argChars (size : Nat) {args : List Formula} (hne : args ≠ [])
    (hcanonical : ∀ f ∈ args, f.isCanonical = true)
    (hreads : ∀ f ∈ args, ∀ rest, Closes rest →
      ∃ g, Reads size (chars f ++ rest) g rest ∧ g.unplaced = f.unplaced) (rest : List Char) :
    ∃ row, ReadsRow size (argChars args ++ ')' :: rest) row rest ∧
      row.map unplaced = args.map unplaced := by
  induction args with
  | nil => exact absurd rfl hne
  | cons f args ih =>
    obtain ⟨hf, hargs⟩ := List.forall_mem_cons.mp hreads
    cases args with
    | nil =>
      obtain ⟨g, hg, he⟩ := hf (')' :: rest) (.inr rfl)
      exact ⟨[g], .last hg rfl, by simp [he]⟩
    | cons f' args =>
      have hcanonical' := (List.forall_mem_cons.mp hcanonical).2
      have hargChars : BeginsFormula (argChars (f' :: args)) :=
        beginsFormula_argChars (List.forall_mem_cons.mp hcanonical').1
      have hbegins := hargChars.append (')' :: rest)
      obtain ⟨row, hrow, he⟩ := ih (by simp) hcanonical' hargs
      obtain ⟨g, hg, he'⟩ :=
        hf (',' :: ' ' :: (argChars (f' :: args) ++ ')' :: rest)) (.inr rfl)
      have hblank : dropBlanks (' ' :: (argChars (f' :: args) ++ ')' :: rest)) =
          dropBlanks (argChars (f' :: args) ++ ')' :: rest) := rfl
      refine ⟨g :: row, ?_, by simp only [List.map_cons, he', ← he]⟩
      rw [argChars, List.append_assoc]
      refine .more hg rfl ?_ (hrow.of_dropBlanks hblank)
      rw [hblank, hbegins.dropBlanks_eq]
      exact hbegins.noClose

/-- If the first argument is a text, the printed arguments begin with a quote. -/
private theorem startsWith_isQuote_argChars {args : List Formula} (h : beginsWithText args = true)
    (rest : List Char) : startsWith isQuote (argChars args ++ rest) = true := by
  have hquoted (cs more : List Char) : startsWith isQuote (quotedChars cs ++ more) = true := by
    simp only [quotedChars, quoteAround, List.cons_append, startsWith]
    split <;> decide
  cases args with
  | nil => simp [beginsWithText] at h
  | cons f args =>
    cases f with
    | literal s p =>
      cases args with
      | nil => exact hquoted _ _
      | cons g args =>
        rw [argChars, List.append_assoc]
        exact hquoted _ _
    | number x p => simp [beginsWithText] at h
    | indicator slug p => simp [beginsWithText] at h
    | call name args p => simp [beginsWithText] at h
    | hole => simp [beginsWithText] at h

/-- A call is read back if its arguments are. -/
private theorem reads_call {size p : Nat} {name : String} {args row : List Formula}
    {rest : List Char} (h : (call name args p).isCanonical = true)
    (hrow : ReadsRow size (argChars args ++ ')' :: rest) row rest)
    (heq : row.map unplaced = args.map unplaced) :
    ∃ g, Reads size (chars (call name args p) ++ rest) g rest ∧
      g.unplaced = (call name args p).unplaced := by
  obtain ⟨hname, hne, htext, hargs⟩ := isCanonical_call_iff.mp h
  obtain ⟨hfunction, hcapitals, hword⟩ := isCapitalName_spec hname
  rw [String.ofList_toList] at hcapitals
  obtain ⟨f, args, rfl⟩ := List.exists_cons_of_ne_nil hne
  have hargChars : BeginsFormula (argChars (f :: args)) :=
    beginsFormula_argChars (List.forall_mem_cons.mp hargs).1
  have hbegins := hargChars.append (')' :: rest)
  have hisWord : IsWord name.toList ('(' :: (argChars (f :: args) ++ ')' :: rest)) :=
    ⟨fun hnil => by simp [hnil, isFunctionName] at hfunction, hword, rfl⟩
  have hchars : chars (call name (f :: args) p) ++ rest =
      name.toList ++ '(' :: (argChars (f :: args) ++ ')' :: rest) := by
    simp [chars]
  have hquoted : takesRawText (capitals name.toList) = true →
      startsWith isQuote (dropBlanks (argChars (f :: args) ++ ')' :: rest)) = true := by
    rw [hbegins.dropBlanks_eq, hcapitals]
    exact fun hraw => startsWith_isQuote_argChars (htext hraw) _
  have hfilled : startsWith (· = ')') (dropBlanks (argChars (f :: args) ++ ')' :: rest)) =
      false := by
    rw [hbegins.dropBlanks_eq]
    exact hbegins.noClose
  have hcall := Reads.call ((beginsFormula_word hisWord).append _).dropBlanks_eq hisWord rfl
    hfunction hquoted hfilled (hbegins.dropBlanks_eq.symm ▸ hrow)
  rw [← hchars] at hcall
  refine ⟨_, hcall, ?_⟩
  simp only [unplaced, hcapitals, allUnplaced_eq_map, heq]

/-- A formula that can be written is read back from its canonical form. -/
theorem reads_chars {f : Formula} (h : f.isCanonical = true) {size : Nat} {rest : List Char}
    (hrest : Closes rest) :
    ∃ g, Reads size (chars f ++ rest) g rest ∧ g.unplaced = f.unplaced := by
  induction f using Formula.induction generalizing rest with
  | number x p => exact reads_number h hrest
  | literal s p => exact reads_literal h
  | indicator slug p => exact reads_indicator h hrest
  | call name args p ih =>
    obtain ⟨-, hne, -, hargs⟩ := isCanonical_call_iff.mp h
    obtain ⟨row, hrow, he⟩ := readsRow_argChars size hne hargs
      (fun f hf rest hrest => ih f hf (hargs f hf) hrest) rest
    exact reads_call h hrow he
  | hole => simp [Formula.isCanonical] at h

/-- The canonical form of a formula that can be written is read as that formula. -/
theorem exists_read_toText {f : Formula} (h : f.isCanonical = true) :
    ∃ g, read f.toText = .ok g ∧ g.unplaced = f.unplaced := by
  obtain ⟨g, hg, he⟩ : ∃ g, Reads (chars f).length (chars f ++ []) g [] ∧
      g.unplaced = f.unplaced := reads_chars h (.inl rfl)
  rw [List.append_nil] at hg
  refine ⟨g, ?_, he⟩
  rw [read, toText, String.toList_ofList]
  exact readChars_ok_iff.mpr ⟨[], hg, rfl⟩

/-- No part of a formula that can be written is open. -/
theorem isComplete_of_isCanonical {f : Formula} (h : f.isCanonical = true) :
    f.isComplete = true := by
  have hrow {args : List Formula} (hargs : ∀ f ∈ args, f.isComplete = true) :
      areComplete args = true := by
    induction args with
    | nil => rfl
    | cons f args ih =>
      obtain ⟨hf, hothers⟩ := List.forall_mem_cons.mp hargs
      rw [areComplete, hf, ih hothers]
      rfl
  induction f using Formula.induction with
  | number x p => rfl
  | literal s p => rfl
  | indicator s p => rfl
  | call name args p ih =>
    obtain ⟨-, -, -, hargs⟩ := isCanonical_call_iff.mp h
    exact hrow fun f hf => ih f hf (hargs f hf)
  | hole => simp [Formula.isCanonical] at h

theorem canonical?_of_isCanonical {f : Formula} (h : f.isCanonical = true) :
    f.canonical? = some f.toText := by
  rw [canonical?, if_pos (isComplete_of_isCanonical h)]

/-- Arguments that differ in places only are alike. -/
private theorem allAlike_of_map_eq {xs ys : List Formula}
    (h : ∀ f ∈ ys, ∀ g : Formula, g.unplaced = f.unplaced → g.alike f = true)
    (heq : xs.map unplaced = ys.map unplaced) : allAlike xs ys = true := by
  induction ys generalizing xs with
  | nil =>
    rw [List.map_nil, List.map_eq_nil_iff] at heq
    rw [heq]
    rfl
  | cons f ys ih =>
    cases xs with
    | nil => simp at heq
    | cons g xs =>
      obtain ⟨hf, hothers⟩ := List.forall_mem_cons.mp h
      obtain ⟨hfirst, hrest⟩ := List.cons.inj heq
      rw [allAlike, hf g hfirst, ih hothers hrest]
      rfl

/-- A formula that can be written is alike to every formula that it equals without places. -/
theorem alike_of_unplaced_eq {f g : Formula} (h : f.isCanonical = true)
    (heq : g.unplaced = f.unplaced) : g.alike f = true := by
  induction f using Formula.induction generalizing g with
  | number x p =>
    cases g <;> simp only [unplaced, reduceCtorEq, Formula.number.injEq, and_true] at heq
    rw [heq, alike]
    exact beq_self_of_isFinite h
  | literal s p =>
    cases g <;> simp only [unplaced, reduceCtorEq, Formula.literal.injEq, and_true] at heq
    rw [heq, alike, beq_self_eq_true]
  | indicator s p =>
    cases g <;> simp only [unplaced, reduceCtorEq, Formula.indicator.injEq, and_true] at heq
    rw [heq, alike, beq_self_eq_true]
  | call name args p ih =>
    obtain ⟨-, -, -, hargs⟩ := isCanonical_call_iff.mp h
    cases g <;> simp only [unplaced, reduceCtorEq, Formula.call.injEq, and_true] at heq
    obtain ⟨rfl, hrow⟩ := heq
    rw [allUnplaced_eq_map, allUnplaced_eq_map] at hrow
    have halike := allAlike_of_map_eq (fun f hf g hg => ih f hf (hargs f hf) hg) hrow
    rw [alike, halike, beq_self_eq_true]
    rfl
  | hole => simp [Formula.isCanonical] at h

/-- A formula is read back from its canonical form: the form exists, reading it succeeds, and
what is read is the formula, places aside, with the same canonical form again. -/
def IsReadBack (f : Formula) : Prop :=
  ∃ text g, f.canonical? = some text ∧ read text = .ok g ∧ g.unplaced = f.unplaced ∧
    g.alike f = true ∧ g.canonical? = some text

/-- A canonical formula is read back from its text. -/
theorem isReadBack_of_isCanonical {f : Formula} (h : f.isCanonical = true) : f.IsReadBack := by
  obtain ⟨g, hg, heq⟩ := exists_read_toText h
  have hform : g.canonical? = some f.toText := by
    rw [canonical?_of_isCanonical (isCanonical_of_read hg), toText_congr heq]
  exact ⟨f.toText, g, canonical?_of_isCanonical h, hg, heq, alike_of_unplaced_eq h heq, hform⟩

/-- The canonical form is a normal form of what can be written: every formula of the form that
texts can have is read back from it, and whatever a text is read as has that form. -/
theorem canonical_readBack :
    (∀ f : Formula, f.isCanonical = true → f.IsReadBack) ∧
      ∀ (text : String) (f : Formula), read text = .ok f →
        f.isCanonical = true ∧ f.IsReadBack := by
  constructor
  · intro f h
    exact isReadBack_of_isCanonical h
  · intro text f h
    have hf := isCanonical_of_read h
    exact ⟨hf, isReadBack_of_isCanonical hf⟩

/-- A call with one argument of each sort, and a text with blanks and small letters. -/
theorem canonical_readBack_mean :
    let f := call "MEAN" [indicator "ipca-15" 0, number 1.5 0, literal "a\"b" 0] 0
    let g := call "MEAN" [indicator "ipca" 6, literal "x" 14] 0
    f.isCanonical = true ∧ f.IsReadBack ∧ read "mean( ipca , 'x' )" = .ok g ∧ g.IsReadBack := by
  intro f g
  have hform : f.isCanonical = true := by decide +kernel
  have hread : read "mean( ipca , 'x' )" = .ok g := by cbv
  exact ⟨hform, canonical_readBack.1 f hform, hread, (canonical_readBack.2 _ g hread).2⟩

end IndicatorFormula.Formula
