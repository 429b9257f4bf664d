import IndicatorFormula.Formula.ConditionReader
import IndicatorFormula.Proofs.Decimal.ReadBack
import IndicatorFormula.Proofs.Formula.Tokens
import IndicatorFormula.Proofs.Formula.Weights

/-!
# Weights and conditions as they are written

A weight and a condition are written alike: a slug, a sign and a decimal, with blanks around the
slug and around the decimal. Such phrases are said here without saying how one is gone through,
and the readers of weights and of conditions find exactly these. A phrase holds no comma, so that
a text of weights is cut into the phrases that were joined.
-/

namespace IndicatorFormula

open Text Decimal Formula

/-- The blanks in a phrase. -/
structure Margins where
  /-- Before the slug. -/
  front : List Char
  /-- Between the slug and the sign. -/
  beforeSign : List Char
  /-- Between the sign and the decimal. -/
  behindSign : List Char
  /-- Behind the decimal. -/
  back : List Char
  /-- They are blanks. -/
  blanks_front : AreBlanks front
  /-- They are blanks. -/
  blanks_beforeSign : AreBlanks beforeSign
  /-- They are blanks. -/
  blanks_behindSign : AreBlanks behindSign
  /-- They are blanks. -/
  blanks_back : AreBlanks back

/-- A slug, a sign and a decimal with blanks around them. -/
def Margins.phrase (m : Margins) (slug sign decimal : List Char) : List Char :=
  m.front ++ (slug ++ (m.beforeSign ++ (sign ++ (m.behindSign ++ (decimal ++ m.back)))))

/-- A text is a decimal with the value of a double. -/
def IsDecimal (cs : List Char) (x : Float) : Prop :=
  ∃ n : Numeral, n.WellFormed ∧ cs = n.text ∧ n.value = x

/-- A decimal number consists of digits, a minus and a point. -/
theorem IsDecimal.not_mem {decimal : List Char} {x : Float} (h : IsDecimal decimal x) {c : Char}
    (hminus : c ≠ '-') (hpoint : c ≠ '.') (hdigit : isDigit c = false) : c ∉ decimal := by
  obtain ⟨n, hn, rfl, -⟩ := h
  exact hn.not_mem_text hminus hpoint hdigit

/-- A decimal number is not empty. -/
theorem IsDecimal.ne_nil {decimal : List Char} {x : Float} (h : IsDecimal decimal x) :
    decimal ≠ [] := by
  obtain ⟨n, hn, rfl, -⟩ := h
  exact hn.text_ne_nil

/-- A text is a phrase of some slug and some double around a sign. -/
def IsPhrase (sign cs : List Char) (slug : String) (x : Float) : Prop :=
  ∃ (m : Margins) (decimal : List Char),
    IsWord slug.toList [] ∧ IsDecimal decimal x ∧ cs = m.phrase slug.toList sign decimal

/-- The shortest decimal of a finite double is a decimal with its value. -/
theorem isDecimal_shortest {x : Float} (hx : x.isFinite = true) :
    IsDecimal (shortest x).toList x := by
  obtain ⟨n, hn, htext, hvalue⟩ := exists_numeral_shortest hx
  exact ⟨n, hn, htext, hvalue⟩

/-- A sign ends the slug in front of it. -/
def IsSign (sign : List Char) : Prop :=
  startsWith (fun c => !isBlank c && !isWordChar c) sign = true

theorem isSign_colon : IsSign [':'] := rfl

theorem isSign_symbol (comparison : Comparison) : IsSign comparison.symbol.toList := by
  cases comparison <;> rfl

/-- The reader of a phrase finds the slug and comes to the sign behind it. -/
theorem splitWord_phrase (m : Margins) {slug sign : List Char} (hslug : IsWord slug [])
    (hsign : IsSign sign) (decimal : List Char) :
    ∃ rest, splitWord (dropBlanks (m.phrase slug sign decimal)) = (slug, rest) ∧
      dropBlanks rest = sign ++ (m.behindSign ++ (decimal ++ m.back)) := by
  obtain ⟨c, rest, rfl, hc⟩ := startsWith_iff.mp hsign
  simp only [Bool.and_eq_true, Bool.not_eq_true'] at hc
  have hstops : startsWith isWordChar
      (m.beforeSign ++ (c :: rest ++ (m.behindSign ++ (decimal ++ m.back)))) = false :=
    startsWith_blanks_append (fun _ => isWordChar_of_isBlank) m.blanks_beforeSign hc.2
  have hword : IsWord slug _ := ⟨hslug.ne_nil, hslug.chars, hstops⟩
  rw [Margins.phrase, dropBlanks_append m.blanks_front,
    ((beginsFormula_word hword).append _).dropBlanks_eq, hword.splitWord_eq]
  exact ⟨_, rfl, dropBlanks_opening m.blanks_beforeSign hc.1 _⟩

namespace Constituent

/-- What is read as a number is a decimal with blanks around it. -/
theorem lastNumber?_eq_some_iff {cs : List Char} {x : Float} : lastNumber? cs = some x ↔
    ∃ ws decimal ws', AreBlanks ws ∧ AreBlanks ws' ∧ IsDecimal decimal x ∧
      cs = ws ++ (decimal ++ ws') := by
  constructor
  · intro h
    obtain ⟨ws, hws, hcs⟩ := exists_blanks_dropBlanks cs
    unfold lastNumber? at h
    split at h
    · rename_i n rest hscan
      split at h
      · rename_i hrest
        rw [← Numeral.scan?_eq_some hscan] at hcs
        exact ⟨ws, n.text, rest, hws, dropBlanks_eq_nil_iff.mp hrest,
          ⟨n, Numeral.wellFormed_of_scan? hscan, rfl, Option.some.inj h⟩, hcs⟩
      · cases h
    · cases h
  · rintro ⟨ws, decimal, ws', hws, hws', ⟨n, hn, rfl, rfl⟩, rfl⟩
    have hstops {p : Char → Bool} (hp : ∀ c, isBlank c = true → p c = false) :
        startsWith p ws' = false := by
      simpa using @startsWith_blanks_append p hp ws' hws' [] rfl
    have hscan : Numeral.scan? (n.text ++ ws') = some (n, ws') := by
      refine scan?_text hn (hstops fun c => isDigit_of_isBlank) fun _ => hstops fun c hc => ?_
      exact decide_eq_false (ne_of_isBlank hc (by decide))
    rw [lastNumber?, dropBlanks_append hws, ((beginsFormula_numeral hn).append ws').dropBlanks_eq,
      hscan]
    simp [dropBlanks_eq_nil_iff.mpr hws']

/-- A number is read with margins around it. -/
theorem lastNumber?_margins (m : Margins) {decimal : List Char} {x : Float}
    (h : IsDecimal decimal x) : lastNumber? (m.behindSign ++ (decimal ++ m.back)) = some x :=
  lastNumber?_eq_some_iff.mpr
    ⟨_, decimal, _, m.blanks_behindSign, m.blanks_back, h, rfl⟩

end Constituent

/-- A slug, a sign and a number that were read one behind the other are a phrase. -/
theorem isPhrase_of_splitWord {cs slug rest sign number : List Char} {x : Float}
    (hsplit : splitWord (dropBlanks cs) = (slug, rest)) (hslug : slug ≠ [])
    (hsign : dropBlanks rest = sign ++ number)
    (hnumber : Constituent.lastNumber? number = some x) :
    IsPhrase sign cs (String.ofList slug) x := by
  obtain ⟨front, hfront, hcs⟩ := exists_blanks_dropBlanks cs
  obtain ⟨before, hbefore, hrest⟩ := exists_blanks_dropBlanks rest
  obtain ⟨behind, decimal, back, hbehind, hback, hdecimal, rfl⟩ :=
    Constituent.lastNumber?_eq_some_iff.mp hnumber
  have hword : IsWord slug rest := by
    simpa only [hsplit] using @isWord_splitWord (dropBlanks cs) (by rwa [hsplit])
  have htext : slug ++ rest = dropBlanks cs := by
    simpa only [hsplit] using splitWord_append (dropBlanks cs)
  refine ⟨⟨front, before, behind, back, hfront, hbefore, hbehind, hback⟩, decimal, ?_, hdecimal, ?_⟩
  · rw [String.toList_ofList]
    exact ⟨hword.ne_nil, hword.chars, rfl⟩
  · rw [String.toList_ofList, Margins.phrase, ← hsign, ← hrest, htext, ← hcs]

namespace Constituent

/-- A text is the phrase of a slug with its weight. -/
def IsSpelling (cs : List Char) (term : Constituent Float) : Prop :=
  IsPhrase [':'] cs term.slug term.weight

/-- A pair is read just when it is spelled. -/
theorem readPair?_eq_some_iff {cs : List Char} {term : Constituent Float} :
    readPair? cs = some term ↔ IsSpelling cs term := by
  constructor
  · intro h
    rw [readPair?] at h
    split at h
    rename_i hsplit
    split at h
    · cases h
    · rename_i hslug
      split at h
      · rename_i number hcolon
        obtain ⟨x, hx, rfl⟩ := Option.map_eq_some_iff.mp h
        exact isPhrase_of_splitWord hsplit hslug hcolon hx
      · cases h
  · rintro ⟨m, decimal, hslug, hdecimal, rfl⟩
    obtain ⟨rest, hsplit, hcolon⟩ := splitWord_phrase m hslug isSign_colon decimal
    simp only [readPair?, hsplit, hslug.ne_nil, if_false, hcolon, List.cons_append, List.nil_append,
      lastNumber?_margins m hdecimal, Option.map_some, String.ofList_toList]

end Constituent

namespace Condition

/-- A text is the phrase of a condition. -/
def IsSpelling (cs : List Char) (c : Condition) : Prop :=
  IsPhrase c.comparison.symbol.toList cs c.slug c.threshold

/-- A comparison that is split off stood in front. -/
theorem eq_of_splitComparison? {cs rest : List Char} {comparison : Comparison}
    (h : splitComparison? cs = some (comparison, rest)) :
    cs = comparison.symbol.toList ++ rest := by
  unfold splitComparison? at h
  split at h <;> cases h <;> rfl

/-- A sign of comparison is found as it stands unless a further character belongs to it. -/
theorem splitComparison?_symbol (comparison : Comparison) {rest : List Char}
    (h : startsWith (· = '=') rest = false) :
    splitComparison? (comparison.symbol.toList ++ rest) = some (comparison, rest) := by
  have hshort (more : List Char) (heq : rest = '=' :: more) : False := by
    rw [heq] at h
    cases h
  cases comparison with
  | greater => exact splitComparison?.eq_4 rest hshort
  | less => exact splitComparison?.eq_5 rest hshort
  | atLeast => rfl
  | atMost => rfl
  | equal => rfl

/-- What stands behind the sign does not make it a longer one. -/
theorem startsWith_margins (m : Margins) {decimal : List Char} {x : Float}
    (h : IsDecimal decimal x) :
    startsWith (· = '=') (m.behindSign ++ (decimal ++ m.back)) = false := by
  refine startsWith_blanks_append (fun c hc => ?_) m.blanks_behindSign ?_
  · exact decide_eq_false (ne_of_isBlank hc (by decide))
  · obtain ⟨c, rest, rfl⟩ := List.exists_cons_of_ne_nil h.ne_nil
    have hfirst := h.not_mem (c := '=') (by decide) (by decide) (by decide)
    rw [List.mem_cons, not_or] at hfirst
    exact decide_eq_false (Ne.symm hfirst.1)

/-- A condition is read just when it is spelled. -/
theorem readChars?_eq_some_iff {cs : List Char} {c : Condition} :
    readChars? cs = some c ↔ IsSpelling cs c := by
  constructor
  · intro h
    rw [readChars?] at h
    split at h
    rename_i hsplit
    split at h
    · cases h
    · rename_i hslug
      split at h
      · rename_i comparison number hsign
        obtain ⟨x, hx, rfl⟩ := Option.map_eq_some_iff.mp h
        exact isPhrase_of_splitWord hsplit hslug (eq_of_splitComparison? hsign) hx
      · cases h
  · rintro ⟨m, decimal, hslug, hdecimal, rfl⟩
    obtain ⟨rest, hsplit, hsign⟩ := splitWord_phrase m hslug (isSign_symbol c.comparison) decimal
    simp only [readChars?, hsplit, hslug.ne_nil, if_false, hsign,
      splitComparison?_symbol _ (startsWith_margins m hdecimal),
      Constituent.lastNumber?_margins m hdecimal, Option.map_some, String.ofList_toList]

/-- Reading a condition succeeds just on its spellings. -/
theorem read_eq_ok_iff {text : String} {position : Nat} {c : Condition} :
    read text position = .ok c ↔ IsSpelling text.toList c := by
  rw [← readChars?_eq_some_iff, read]
  cases readChars? text.toList with
  | none => simp
  | some condition => simp

/-- Reading a condition fails just on what spells none, and quotes the whole text. -/
theorem read_eq_error_iff {text : String} {position : Nat} {e : ReadError} :
    read text position = .error e ↔
      (∀ c, ¬IsSpelling text.toList c) ∧ e = ⟨.malformedCondition text, position⟩ := by
  simp only [← readChars?_eq_some_iff, ← Option.eq_none_iff_forall_ne_some, read]
  cases readChars? text.toList with
  | none => simp [eq_comm]
  | some condition => simp

end Condition

namespace Constituent

/-- No phrase of a weight holds the comma that ends it. -/
theorem IsSpelling.not_mem {cs : List Char} {term : Constituent Float}
    (h : IsSpelling cs term) : ',' ∉ cs := by
  obtain ⟨m, decimal, hslug, hdecimal, rfl⟩ := h
  have hblanks {ws : List Char} (hws : AreBlanks ws) : ',' ∉ ws :=
    fun hc => ne_of_isBlank (hws _ hc) (by decide) rfl
  have hword : ',' ∉ term.slug.toList := fun hc =>
    absurd (hslug.chars ',' hc) (by decide)
  have hnumber := hdecimal.not_mem (c := ',') (by decide) (by decide) (by decide)
  simp [Margins.phrase, hblanks m.blanks_front, hblanks m.blanks_beforeSign,
    hblanks m.blanks_behindSign, hblanks m.blanks_back, hword, hnumber]

/-- Pieces are the phrases of weights whose slugs differ. -/
structure AreSpelling (pieces : List (List Char)) (terms : List (Constituent Float)) : Prop where
  /-- They are phrases, one for each weight. -/
  phrases : List.Forall₂ IsSpelling pieces terms
  /-- No two of the slugs are the same. -/
  distinct : (terms.map (·.slug)).Nodup

/-- Pairs are read after none just when they are spelled. -/
theorem areRead_nil_iff {pairs : List (List Char)} {terms : List (Constituent Float)} :
    AreRead [] pairs terms ↔ AreSpelling pairs terms := by
  simp only [areRead_iff, readPair?_eq_some_iff, List.not_mem_nil, not_false_eq_true,
    implies_true, and_true]
  exact ⟨fun h => ⟨h.1, h.2⟩, fun h => ⟨h.phrases, h.distinct⟩⟩

/-- A text is at least one weight, with commas between their phrases. -/
def IsList (cs : List Char) (terms : List (Constituent Float)) : Prop :=
  terms ≠ [] ∧ ∃ pieces, cs = [','].intercalate pieces ∧ AreSpelling pieces terms

/-- At a place of a text begins the first of the pieces between its commas with which something
is wrong: those before it are weights of distinct slugs. -/
inductive FailsAt (cs : List Char) : Nat → Problem → Prop where
  /-- The piece is no phrase of a weight. -/
  | malformed {before after : List (List Char)} {piece : List Char}
      {earlier : List (Constituent Float)} (cut : cs.splitOn ',' = before ++ piece :: after)
      (spelling : AreSpelling before earlier) (unspelt : ∀ term, ¬IsSpelling piece term) :
      FailsAt cs (closed before).length (.malformedWeight (String.ofList piece))
  /-- The piece is a phrase of a weight whose slug has come before. -/
  | duplicate {before after : List (List Char)} {piece : List Char}
      {earlier : List (Constituent Float)} {term : Constituent Float}
      (cut : cs.splitOn ',' = before ++ piece :: after) (spelling : AreSpelling before earlier)
      (spelt : IsSpelling piece term) (again : term.slug ∈ earlier.map (·.slug)) :
      FailsAt cs (closed before).length (.duplicateWeight term.slug)

/-- Reading all pairs succeeds just on a list of them. -/
theorem readAll_eq_ok_iff_isList {text : String} {position : Nat}
    {terms : List (Constituent Float)} :
    readAll text position = .ok terms ↔ IsList text.toList terms := by
  rw [readAll_eq_ok_iff, areRead_nil_iff, pieces_eq_splitOn]
  constructor
  · intro h
    refine ⟨?_, text.toList.splitOn ',', (List.intercalate_splitOn ',').symm, h⟩
    rintro rfl
    exact List.splitOn_ne_nil ',' text.toList (List.forall₂_nil_right_iff.mp h.phrases)
  · rintro ⟨hne, pieces, hcs, h⟩
    have hpieces : pieces ≠ [] := by
      rintro rfl
      exact hne (List.forall₂_nil_left_iff.mp h.phrases)
    have hfree : ∀ piece ∈ pieces, ',' ∉ piece :=
      ((List.forall₂_and_left ..).mp
        (h.phrases.imp fun _ _ hspelling => ⟨hspelling.not_mem, hspelling⟩)).1
    rwa [hcs, List.splitOn_intercalate ',' hfree hpieces]

/-- Reading fails at the leftmost piece that is wrong. -/
theorem failsAt_iff {cs : List Char} {start : Nat} {problem : Problem} :
    FailsAt cs start problem ↔ ∃ before piece after earlier,
      pieces cs = before ++ piece :: after ∧ AreRead [] before earlier ∧
        start = (closed before).length ∧
        IsWrongPair (earlier.map (·.slug)) piece problem := by
  simp only [areRead_nil_iff, pieces_eq_splitOn]
  constructor
  · intro h
    cases h with
    | malformed cut spelling unspelt =>
      refine ⟨_, _, _, _, cut, spelling, rfl, .malformed ?_⟩
      exact Option.eq_none_iff_forall_ne_some.mpr fun term hterm =>
        unspelt term (readPair?_eq_some_iff.mp hterm)
    | duplicate cut spelling spelt again =>
      exact ⟨_, _, _, _, cut, spelling, rfl,
        .duplicate (readPair?_eq_some_iff.mpr spelt) again⟩
  · rintro ⟨before, piece, after, earlier, cut, spelling, rfl, hwrong⟩
    cases hwrong with
    | malformed unread =>
      refine .malformed cut spelling fun term hterm => ?_
      rw [readPair?_eq_some_iff.mpr hterm] at unread
      cases unread
    | duplicate read again => exact .duplicate cut spelling (readPair?_eq_some_iff.mp read) again

/-- Reading all pairs fails just at the place of the leftmost wrong piece. -/
theorem readAll_eq_error_iff_failsAt {text : String} {position : Nat} {e : ReadError} :
    readAll text position = .error e ↔
      ∃ start, FailsAt text.toList start e.problem ∧ e.position = position + start := by
  rw [readAll_eq_error_iff]
  constructor
  · rintro ⟨before, piece, after, earlier, cut, read, hposition, hwrong⟩
    exact ⟨_, failsAt_iff.mpr ⟨before, piece, after, earlier, cut, read, rfl, hwrong⟩, hposition⟩
  · rintro ⟨start, hfails, hposition⟩
    obtain ⟨before, piece, after, earlier, cut, read, rfl, hwrong⟩ := failsAt_iff.mp hfails
    exact ⟨before, piece, after, earlier, cut, read, hposition, hwrong⟩

/-- A weight with the blanks and the decimal with which it is written. -/
structure Entry where
  /-- The blanks. -/
  margins : Margins
  /-- The decimal. -/
  decimal : List Char
  /-- The weight. -/
  term : Constituent Float

/-- An entry has a word for its slug and a decimal of its weight. -/
structure Entry.IsWritten (entry : Entry) : Prop where
  /-- The slug is a word. -/
  slug : IsWord entry.term.slug.toList []
  /-- The decimal has the value of the weight. -/
  decimal : IsDecimal entry.decimal entry.term.weight

/-- The text of an entry. -/
def Entry.text (entry : Entry) : List Char :=
  entry.margins.phrase entry.term.slug.toList [':'] entry.decimal

/-- Entries with commas between them. -/
def listed (entries : List Entry) : String :=
  String.ofList ([','].intercalate (entries.map Entry.text))

theorem Entry.IsWritten.isSpelling {entry : Entry} (h : entry.IsWritten) :
    IsSpelling entry.text entry.term :=
  ⟨entry.margins, entry.decimal, h.slug, h.decimal, rfl⟩

/-- Entries that are listed are read back. -/
theorem readAll_listed {entries : List Entry} (hne : entries ≠ [])
    (hwritten : ∀ entry ∈ entries, entry.IsWritten)
    (hdistinct : (entries.map (·.term.slug)).Nodup) (position : Nat) :
    readAll (listed entries) position = .ok (entries.map (·.term)) := by
  refine readAll_eq_ok_iff_isList.mpr ⟨by simpa using hne, entries.map Entry.text, ?_, ?_, ?_⟩
  · rw [listed, String.toList_ofList]
  · rw [List.forall₂_map_left_iff, List.forall₂_map_right_iff, List.forall₂_same]
    exact fun entry hentry => (hwritten entry hentry).isSpelling
  · rwa [List.map_map]

end Constituent

/-- Weights and conditions are read exactly as they are written. A text is read as weights just
when it is the phrases of these with commas between them and no slug comes twice; otherwise the
error stands at the first piece that is no phrase or repeats a slug. A text is read as a condition
just when it is its phrase, and otherwise the error stands where the text begins. So whatever is
written, with any blanks and any decimals, is what is read, and every finite double has a
decimal. -/
theorem phrases_read_exactly (text : String) (position : Nat) :
    (∀ terms, Constituent.readAll text position = .ok terms ↔
      Constituent.IsList text.toList terms) ∧
    (∀ e, Constituent.readAll text position = .error e ↔
      ∃ start, Constituent.FailsAt text.toList start e.problem ∧ e.position = position + start) ∧
    (∀ c, Condition.read text position = .ok c ↔ Condition.IsSpelling text.toList c) ∧
    (∀ e, Condition.read text position = .error e ↔
      (∀ c, ¬Condition.IsSpelling text.toList c) ∧
        e = ⟨.malformedCondition text, position⟩) ∧
    (∀ entries : List Constituent.Entry, entries ≠ [] →
      (∀ entry ∈ entries, entry.IsWritten) → (entries.map (·.term.slug)).Nodup →
        Constituent.readAll (Constituent.listed entries) position =
          .ok (entries.map (·.term))) ∧
    (∀ (m : Margins) (decimal : List Char) (c : Condition), IsWord c.slug.toList [] →
      IsDecimal decimal c.threshold →
        Condition.read (String.ofList
          (m.phrase c.slug.toList c.comparison.symbol.toList decimal)) position = .ok c) ∧
    ∀ x : Float, x.isFinite = true → IsDecimal (shortest x).toList x := by
  refine ⟨fun _ => Constituent.readAll_eq_ok_iff_isList,
    fun _ => Constituent.readAll_eq_error_iff_failsAt, fun _ => Condition.read_eq_ok_iff,
    fun _ => Condition.read_eq_error_iff, ?_, ?_, fun _ => isDecimal_shortest⟩
  · intro entries hne hwritten hdistinct
    exact Constituent.readAll_listed hne hwritten hdistinct position
  · intro m decimal c hslug hdecimal
    refine Condition.read_eq_ok_iff.mpr ⟨m, decimal, hslug, hdecimal, ?_⟩
    rw [String.toList_ofList]

/-- A blank before the slug and a tabulator behind it. -/
def spaced : Margins where
  front := [' ']
  beforeSign := ['\t']
  behindSign := []
  back := []
  blanks_front := by simp [AreBlanks, isBlank]
  blanks_beforeSign := by simp [AreBlanks, isBlank]
  blanks_behindSign := by simp [AreBlanks]
  blanks_back := by simp [AreBlanks]

/-- Two weights with a blank before each slug, and a text in which the third piece repeats the
slug of the first. -/
theorem phrases_read_exactly_spaced :
    Constituent.readAll " cpi\t:1.5, gdp\t:-2" 0 = .ok [⟨"cpi", 1.5⟩, ⟨"gdp", -2⟩] ∧
      Constituent.FailsAt "cpi:1, gdp:2,cpi:3".toList 13 (.duplicateWeight "cpi") := by
  have hdecimal {x : Float} (hx : x.isFinite = true) :=
    (phrases_read_exactly "" 0).2.2.2.2.2.2 x hx
  have hcpi : Constituent.Entry.IsWritten ⟨spaced, (shortest 1.5).toList, ⟨"cpi", 1.5⟩⟩ :=
    ⟨⟨by decide, List.all_eq_true.mp (by rfl), rfl⟩, hdecimal (by decide +kernel)⟩
  have hgdp : Constituent.Entry.IsWritten ⟨spaced, (shortest (-2)).toList, ⟨"gdp", -2⟩⟩ :=
    ⟨⟨by decide, List.all_eq_true.mp (by rfl), rfl⟩, hdecimal (by decide +kernel)⟩
  have hread := (phrases_read_exactly "" 0).2.2.2.2.1 [_, _] (by simp)
    (List.forall_mem_cons.mpr ⟨hcpi, List.forall_mem_singleton.mpr hgdp⟩) (by decide)
  have htext : Constituent.listed [⟨spaced, (shortest 1.5).toList, ⟨"cpi", 1.5⟩⟩,
      ⟨spaced, (shortest (-2)).toList, ⟨"gdp", -2⟩⟩] = " cpi\t:1.5, gdp\t:-2" := by
    decide +kernel
  have hagain : Constituent.readAll "cpi:1, gdp:2,cpi:3" 10 =
      .error ⟨.duplicateWeight "cpi", 23⟩ := by rfl
  obtain ⟨start, hfails, hstart⟩ := ((phrases_read_exactly _ 10).2.1 _).mp hagain
  change 23 = 10 + start at hstart
  obtain rfl : start = 13 := by omega
  exact ⟨htext ▸ hread, hfails⟩

end IndicatorFormula
