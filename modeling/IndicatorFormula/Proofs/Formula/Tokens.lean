import IndicatorFormula.Proofs.Formula.Reading

/-!
# The tokens of a formula

What can stand at a place of a text is said here without saying how it is found: blanks, the
longest numeral, and a text whose parentheses are paired. The scanners of the reader find
exactly these.
-/

namespace IndicatorFormula

open Text

namespace Text

/-- A text of blanks only. -/
def AreBlanks (cs : List Char) : Prop := ∀ c ∈ cs, isBlank c = true

theorem areBlanks_nil : AreBlanks [] := List.forall_mem_nil _

theorem dropBlanks_append {ws : List Char} (h : AreBlanks ws) (cs : List Char) :
    dropBlanks (ws ++ cs) = dropBlanks cs :=
  List.dropWhile_append_of_pos h

/-- Behind blanks stands a character that is none. -/
theorem dropBlanks_opening {ws : List Char} (h : AreBlanks ws) {c : Char}
    (hc : isBlank c = false) (rest : List Char) :
    dropBlanks (ws ++ c :: rest) = c :: rest := by
  rw [dropBlanks_append h, @Formula.dropBlanks_of_startsWith (c :: rest) hc]

/-- Blanks in front of a text do not make it begin with a kind of character that no blank is. -/
theorem startsWith_blanks_append {p : Char → Bool} (hp : ∀ c, isBlank c = true → p c = false)
    {ws : List Char} (hws : AreBlanks ws) {cs : List Char}
    (hcs : Formula.startsWith p cs = false) : Formula.startsWith p (ws ++ cs) = false := by
  cases ws with
  | nil => exact hcs
  | cons c ws => exact hp c (hws c (List.mem_cons_self ..))

/-- A blank is no word character. -/
theorem isWordChar_of_isBlank {c : Char} (h : isBlank c = true) : isWordChar c = false := by
  by_contra hword
  rw [Formula.isBlank_of_isWordChar (by simpa using hword)] at h
  cases h

/-- Every text is some blanks and what is left without them. -/
theorem exists_blanks_dropBlanks (cs : List Char) : ∃ ws, AreBlanks ws ∧ cs = ws ++ dropBlanks cs :=
  ⟨cs.takeWhile isBlank, fun _ hc => List.mem_takeWhile_imp hc,
    List.takeWhile_append_dropWhile.symm⟩

theorem dropBlanks_eq_nil_iff {cs : List Char} : dropBlanks cs = [] ↔ AreBlanks cs :=
  List.dropWhile_eq_nil_iff

/-- What is left of a text without its blanks in front is stripped to the same. -/
theorem strip_dropBlanks (cs : List Char) : strip (dropBlanks cs) = strip cs := by
  rw [strip, dropBlanks_dropBlanks, ← strip]

/-- A text has a first character that is no blank, and it is of a given kind. -/
def FirstIs (p : Char → Bool) (cs : List Char) : Prop :=
  ∃ ws c rest, AreBlanks ws ∧ isBlank c = false ∧ p c = true ∧ cs = ws ++ c :: rest

/-- The first character after blanks, told by the reader's own test. -/
theorem firstIs_iff {p : Char → Bool} {cs : List Char} :
    FirstIs p cs ↔ Formula.startsWith p (dropBlanks cs) = true := by
  constructor
  · rintro ⟨ws, c, rest, hws, hblank, hc, rfl⟩
    rw [dropBlanks_opening hws hblank]
    exact hc
  · intro h
    obtain ⟨ws, hws, hcs⟩ := exists_blanks_dropBlanks cs
    obtain ⟨c, rest, hrest, hc⟩ := Formula.startsWith_iff.mp h
    have hblank : isBlank c = false := by
      have hstop := Formula.startsWith_dropWhile isBlank cs
      rwa [show cs.dropWhile isBlank = c :: rest from hrest] at hstop
    exact ⟨ws, c, rest, hws, hblank, hc, by rwa [hrest] at hcs⟩

/-- Stripping leaves nothing just when there are only blanks. -/
theorem strip_eq_nil_iff {cs : List Char} : strip cs = [] ↔ AreBlanks cs := by
  rw [strip, List.reverse_eq_nil_iff, dropBlanks_eq_nil_iff]
  constructor
  · intro h
    obtain ⟨ws, hws, hcs⟩ := exists_blanks_dropBlanks cs
    rw [hcs]
    exact List.forall_mem_append.mpr ⟨hws, fun c hc => h c (List.mem_reverse.mpr hc)⟩
  · intro h c hc
    rw [dropBlanks_eq_nil_iff.mpr h] at hc
    cases hc

theorem not_firstIs_iff {p : Char → Bool} {cs : List Char} :
    ¬FirstIs p cs ↔ Formula.startsWith p (dropBlanks cs) = false := by
  rw [firstIs_iff, Bool.not_eq_true]

end Text

namespace Decimal.Numeral

/-- A numeral in front of a text is the longest that stands there. -/
structure IsLongest (n : Numeral) (rest : List Char) : Prop where
  /-- It is a numeral. -/
  wellFormed : n.WellFormed
  /-- No longer one stands at its place. -/
  longest : ∀ m : Numeral, m.WellFormed → m.text <+: n.text ++ rest →
    m.text.length ≤ n.text.length

/-- A number scanned without its sign is well formed. -/
theorem wellFormed_of_scanUnsigned? {negative : Bool} {cs rest : List Char} {n : Numeral}
    (h : scanUnsigned? negative cs = some (n, rest)) : n.WellFormed := by
  have hfraction (cs : List Char) : ∀ c ∈ (scanFraction cs).1, isDigit c = true := by
    unfold scanFraction
    split
    · split
      · simp
      · exact fun c hc => List.mem_takeWhile_imp hc
    · simp
  unfold scanUnsigned? at h
  split at h
  · cases h
  · rename_i hne
    cases h
    exact ⟨hne, fun c hc => List.mem_takeWhile_imp hc, hfraction _⟩

/-- A number scanned is well formed. -/
theorem wellFormed_of_scan? {cs rest : List Char} {n : Numeral}
    (h : scan? cs = some (n, rest)) : n.WellFormed := by
  unfold scan? at h
  split at h <;> exact wellFormed_of_scanUnsigned? h

/-- A numeral has a minus sign, digits and a point, and nothing else. -/
theorem WellFormed.of_mem_text {n : Numeral} (hn : n.WellFormed) {c : Char} (hc : c ∈ n.text) :
    c = '-' ∨ c = '.' ∨ isDigit c = true := by
  rw [text, List.mem_append, List.mem_append] at hc
  rcases hc with (hc | hc) | hc
  · split at hc
    · exact .inl (List.mem_singleton.mp hc)
    · cases hc
  · exact .inr (.inr (hn.whole c hc))
  · split at hc
    · cases hc
    · rcases List.mem_cons.mp hc with hc | hc
      · exact .inr (.inl hc)
      · exact .inr (.inr (hn.fraction c hc))

/-- A numeral consists of digits, a minus and a point. -/
theorem WellFormed.not_mem_text {n : Numeral} (hn : n.WellFormed) {c : Char}
    (hminus : c ≠ '-') (hpoint : c ≠ '.') (hdigit : isDigit c = false) : c ∉ n.text := by
  intro hc
  rcases hn.of_mem_text hc with rfl | rfl | hc
  · exact hminus rfl
  · exact hpoint rfl
  · rw [hdigit] at hc
    cases hc

theorem WellFormed.text_ne_nil {n : Numeral} (hn : n.WellFormed) : n.text ≠ [] := by
  simp [text, hn.ne_nil]

/-- The length of a numeral is that of its sign, its digits and its point. -/
theorem length_text (n : Numeral) : n.text.length =
    (if n.negative then 1 else 0) + n.whole.length +
      (if n.fraction = [] then 0 else n.fraction.length + 1) := by
  unfold text
  cases n.negative <;> by_cases hf : n.fraction = [] <;> simp [hf] <;> omega

theorem digits_append_digits {ds : List Char} (h : ∀ c ∈ ds, isDigit c = true)
    (cs : List Char) : digits (ds ++ cs) = (ds ++ (digits cs).1, (digits cs).2) := by
  rw [digits, List.takeWhile_append_of_pos h, List.dropWhile_append_of_pos h, digits]

/-- Where an unsigned numeral stands one is found that is at least as long. -/
theorem scanUnsigned?_of_wellFormed {m : Numeral} (hm : m.WellFormed) (more : List Char) :
    ∃ n rest, scanUnsigned? m.negative
        (m.whole ++ ((if m.fraction = [] then [] else '.' :: m.fraction) ++ more)) =
          some (n, rest) ∧ m.text.length ≤ n.text.length := by
  rw [scanUnsigned?, digits_append_digits hm.whole]
  have hne (ds : List Char) : m.whole ++ ds ≠ [] := by simp [hm.ne_nil]
  rw [if_neg (hne _)]
  refine ⟨_, _, rfl, ?_⟩
  simp only [length_text]
  by_cases hfraction : m.fraction = []
  · simp only [hfraction, if_true, List.length_append]
    omega
  · -- The point ends the digits, and the digits behind it are all taken.
    have hpoint : digits ('.' :: (m.fraction ++ more)) = ([], '.' :: (m.fraction ++ more)) :=
      @Formula.digits_append_run [] _ (by simp) rfl
    have htaken : (scanFraction ('.' :: (m.fraction ++ more))).1 =
        m.fraction ++ (digits more).1 := by
      rw [scanFraction, digits_append_digits hm.fraction,
        if_neg (List.append_ne_nil_of_left_ne_nil hfraction _)]
    simp only [List.cons_append, hpoint, htaken, List.append_nil,
      List.append_eq_nil_iff, hfraction, false_and, if_false, List.length_append]
    omega

/-- Where a numeral stands one is found that is at least as long. -/
theorem scan?_of_wellFormed {m : Numeral} (hm : m.WellFormed) (more : List Char) :
    ∃ n rest, scan? (m.text ++ more) = some (n, rest) ∧ m.text.length ≤ n.text.length := by
  obtain ⟨n, rest, hn, hlength⟩ := scanUnsigned?_of_wellFormed hm more
  refine ⟨n, rest, ?_, hlength⟩
  rw [← hn]
  cases hneg : m.negative with
  | true => simp [text, hneg, scan?]
  | false =>
    obtain ⟨c, ds, hw⟩ := List.exists_cons_of_ne_nil hm.ne_nil
    have hc : c ≠ '-' := by
      rintro rfl
      have hdigit := hm.whole '-' (hw ▸ List.mem_cons_self ..)
      revert hdigit
      decide
    simp [text, hneg, hw, Formula.scan?_of_ne_minus hc]

/-- The scanner finds the longest numeral. -/
theorem scan?_eq_some_iff {cs rest : List Char} {n : Numeral} :
    scan? cs = some (n, rest) ↔ cs = n.text ++ rest ∧ n.IsLongest rest := by
  have hlongest {n : Numeral} {cs rest : List Char} (h : scan? cs = some (n, rest)) (m : Numeral)
      (hm : m.WellFormed) (hmatch : m.text <+: cs) : m.text.length ≤ n.text.length := by
    obtain ⟨more, rfl⟩ := hmatch
    obtain ⟨n', rest', hn', hlength⟩ := scan?_of_wellFormed hm more
    rw [h] at hn'
    cases hn'
    exact hlength
  constructor
  · intro h
    refine ⟨(scan?_eq_some h).symm, wellFormed_of_scan? h, ?_⟩
    rw [scan?_eq_some h]
    exact hlongest h
  · rintro ⟨rfl, hn⟩
    obtain ⟨n', rest', hn', -⟩ := scan?_of_wellFormed hn.wellFormed rest
    -- The two numerals are as long as each other, so that they are one text.
    have htext := scan?_eq_some hn'
    have hle := hlongest hn' n hn.wellFormed (List.prefix_append _ _)
    have hge := hn.longest n' (wellFormed_of_scan? hn') ⟨rest', htext⟩
    obtain ⟨hsame, rfl⟩ := List.append_inj htext (Nat.le_antisymm hge hle)
    have hself {m : Numeral} (hm : m.WellFormed) : scan? m.text = some (m, []) := by
      simpa using @Formula.scan?_text _ hm [] rfl fun _ => rfl
    have heq := hself (wellFormed_of_scan? hn')
    rw [hsame, hself hn.wellFormed] at heq
    cases heq
    exact hn'

end Decimal.Numeral

namespace Formula

open Decimal

/-- A number is read whole just when it is the longest numeral there and no word goes on. -/
theorem wholeNumeral?_eq_some_iff {cs rest : List Char} {n : Numeral} :
    wholeNumeral? cs = some (n, rest) ↔
      cs = n.text ++ rest ∧ n.IsLongest rest ∧ startsWith isWordChar rest = false := by
  rw [wholeNumeral?, Option.filter_eq_some_iff, Numeral.scan?_eq_some_iff, and_assoc,
    Bool.not_eq_true']

/-- A text begins with no numeral, or the longest one runs into a word. -/
def NoNumber (cs : List Char) : Prop :=
  ∀ (n : Numeral) (rest : List Char), cs = n.text ++ rest → n.IsLongest rest →
    startsWith isWordChar rest = true

/-- No number is read whole just when none stands there. -/
theorem wholeNumeral?_eq_none_iff {cs : List Char} :
    wholeNumeral? cs = none ↔ NoNumber cs := by
  rw [Option.eq_none_iff_forall_ne_some]
  constructor
  · intro h n rest hcs hn
    by_contra hword
    exact h (n, rest) (wholeNumeral?_eq_some_iff.mpr ⟨hcs, hn, by simpa using hword⟩)
  · rintro h ⟨n, rest⟩ hsome
    obtain ⟨hcs, hn, hword⟩ := wholeNumeral?_eq_some_iff.mp hsome
    rw [h n rest hcs hn] at hword
    cases hword

section Places

variable {t cs xs : List Char} {c : Char}

theorem place_nil (size : Nat) : place size [] = size := rfl

theorem place_le (size : Nat) (cs : List Char) : place size cs ≤ size := Nat.sub_le ..

/-- The less is left, the later is its place. -/
theorem place_mono (size : Nat) {ds cs : List Char} (h : ds <:+ cs) :
    place size cs ≤ place size ds :=
  Nat.sub_le_sub_left h.length_le size

theorem place_append (h : t = xs ++ cs) : place t.length cs = xs.length := by
  rw [place, h, List.length_append, Nat.add_sub_cancel]

/-- A run of characters moves the place by its length. -/
theorem place_append_run (h : xs ++ cs <:+ t) :
    place t.length cs = place t.length (xs ++ cs) + xs.length := by
  obtain ⟨front, rfl⟩ := h
  rw [place_append rfl, ← List.length_append]
  exact place_append (List.append_assoc ..).symm

theorem place_cons (h : c :: cs <:+ t) : place t.length cs = place t.length (c :: cs) + 1 :=
  @place_append_run t cs [c] h

theorem drop_place (h : cs <:+ t) : t.drop (place t.length cs) = cs :=
  (List.suffix_iff_eq_drop.mp h).symm

theorem getElem?_place (h : c :: cs <:+ t) : t[place t.length (c :: cs)]? = some c := by
  rw [← List.head?_drop, drop_place h, List.head?_cons]

/-- Between two places stands the run of characters between them. -/
theorem extract_place (h : xs ++ cs <:+ t) :
    t.extract (place t.length (xs ++ cs)) (place t.length cs) = xs := by
  rw [List.extract_eq_take_drop, drop_place h, place_append_run h, Nat.add_sub_cancel_left,
    List.take_left]

theorem dropBlanks_suffix (cs : List Char) : dropBlanks cs <:+ cs := List.dropWhile_suffix _

end Places

/-- A text without quotes in which parentheses are paired, but for some that close what was
opened before it. -/
structure IsEnclosed (depth : Nat) (content : List Char) : Prop where
  /-- There is no quote. -/
  free : ∀ c ∈ content, isQuote c = false
  /-- No beginning of it closes more than is open. -/
  ordered : ∀ front, front <+: content → front.count ')' ≤ front.count '(' + depth
  /-- In the end nothing is open. -/
  closed : content.count ')' = content.count '(' + depth

theorem isEnclosed_nil {depth : Nat} : IsEnclosed depth [] ↔ depth = 0 := by
  constructor
  · intro h
    simpa using h.closed.symm
  · rintro rfl
    refine ⟨by simp, ?_, rfl⟩
    intro front hfront
    rw [List.prefix_nil.mp hfront]
    simp

/-- How many parentheses are open behind a character. -/
def depthBehind (depth : Nat) (c : Char) : Nat :=
  if c = '(' then depth + 1 else if c = ')' then depth - 1 else depth

/-- One character changes the excess of closing parentheses as it changes the depth. -/
theorem count_cons_depth {depth : Nat} {c : Char} (hc : ¬(c = ')' ∧ depth = 0))
    (cs : List Char) :
    ((c :: cs).count ')' : Int) - (c :: cs).count '(' - depth =
      (cs.count ')' : Int) - cs.count '(' - depthBehind depth c := by
  unfold depthBehind
  by_cases hopen : c = '('
  · subst hopen
    simp
    omega
  · by_cases hclose : c = ')'
    · subst hclose
      have hdepth : depth ≠ 0 := fun h => hc ⟨rfl, h⟩
      simp
      omega
    · simp [hopen, hclose]

/-- What is enclosed from a character on is enclosed from behind it at its depth. -/
theorem isEnclosed_cons {depth : Nat} {c : Char} {content : List Char} :
    IsEnclosed depth (c :: content) ↔ isQuote c = false ∧ ¬(c = ')' ∧ depth = 0) ∧
      IsEnclosed (depthBehind depth c) content := by
  constructor
  · intro h
    obtain ⟨hquote, hfree⟩ := List.forall_mem_cons.mp h.free
    have hc : ¬(c = ')' ∧ depth = 0) := by
      rintro ⟨rfl, rfl⟩
      simpa using h.ordered [')'] ⟨content, rfl⟩
    refine ⟨hquote, hc, hfree, ?_, ?_⟩
    · intro front hfront
      have hcount := count_cons_depth hc front
      have hordered := h.ordered (c :: front) (List.prefix_cons_inj c |>.mpr hfront)
      omega
    · have hcount := count_cons_depth hc content
      have hclosed := h.closed
      omega
  · rintro ⟨hquote, hc, h⟩
    refine ⟨List.forall_mem_cons.mpr ⟨hquote, h.free⟩, ?_, ?_⟩
    · intro front hfront
      rcases List.prefix_cons_iff.mp hfront with rfl | ⟨tail, rfl, htail⟩
      · simp
      · have hcount := count_cons_depth hc tail
        have hordered := h.ordered tail htail
        omega
    · have hcount := count_cons_depth hc content
      have hclosed := h.closed
      omega

theorem rawSpan_cons_of_stop {depth : Nat} {c : Char} (cs : List Char)
    (h : isQuote c = true ∨ c = ')' ∧ depth = 0) : rawSpan depth (c :: cs) = ([], c :: cs) := by
  rw [rawSpan, if_pos (by simpa using h)]

theorem rawSpan_cons_of_go {depth : Nat} {c : Char} (cs : List Char) (hquote : isQuote c = false)
    (hclose : ¬(c = ')' ∧ depth = 0)) : rawSpan depth (c :: cs) =
      (c :: (rawSpan (depthBehind depth c) cs).1, (rawSpan (depthBehind depth c) cs).2) := by
  rw [rawSpan, if_neg (by simpa [hquote] using hclose), depthBehind]

/-- Raw text goes to the parenthesis that closes it. -/
theorem rawSpan_of_isEnclosed {depth : Nat} {content : List Char} (h : IsEnclosed depth content)
    (rest : List Char) : rawSpan depth (content ++ ')' :: rest) = (content, ')' :: rest) := by
  induction content generalizing depth with
  | nil => exact rawSpan_cons_of_stop rest (.inr ⟨rfl, isEnclosed_nil.mp h⟩)
  | cons c content ih =>
    obtain ⟨hquote, hclose, hcontent⟩ := isEnclosed_cons.mp h
    rw [List.cons_append, rawSpan_cons_of_go _ hquote hclose, ih hcontent]

/-- What raw text covers is enclosed. -/
theorem isEnclosed_of_rawSpan {depth : Nat} {cs content rest : List Char}
    (h : rawSpan depth cs = (content, ')' :: rest)) : IsEnclosed depth content := by
  induction cs generalizing depth content with
  | nil => cases h
  | cons c cs ih =>
    by_cases hstop : isQuote c = true ∨ c = ')' ∧ depth = 0
    · rw [rawSpan_cons_of_stop cs hstop] at h
      cases h
      exact isEnclosed_nil.mpr (hstop.resolve_left (by decide)).2
    · obtain ⟨hquote, hclose⟩ := not_or.mp hstop
      rw [rawSpan_cons_of_go cs (by simpa using hquote) hclose] at h
      obtain ⟨rfl, hrest⟩ := Prod.ext_iff.mp h
      exact isEnclosed_cons.mpr ⟨by simpa using hquote, hclose, ih (Prod.ext rfl hrest)⟩

/-- The span of a text that is taken as it stands is what the parenthesis behind it closes. -/
theorem rawSpan_eq_iff {depth : Nat} {cs content rest : List Char} :
    rawSpan depth cs = (content, ')' :: rest) ↔
      cs = content ++ ')' :: rest ∧ IsEnclosed depth content := by
  constructor
  · intro h
    have hcs := rawSpan_append depth cs
    rw [h] at hcs
    exact ⟨hcs.symm, isEnclosed_of_rawSpan h⟩
  · rintro ⟨rfl, h⟩
    exact rawSpan_of_isEnclosed h rest

/-- A blank is no character that is not blank. -/
theorem ne_of_isBlank {c d : Char} (hc : isBlank c = true) (hd : isBlank d = false) : c ≠ d := by
  rintro rfl
  rw [hc] at hd
  cases hd

/-- A blank is no quote. -/
theorem isQuote_of_isBlank {c : Char} (h : isBlank c = true) : isQuote c = false := by
  have hsingle : c ≠ '\x27' := ne_of_isBlank h (by decide)
  have hdouble : c ≠ '\x22' := ne_of_isBlank h (by decide)
  simp [isQuote, hsingle, hdouble]

/-- Blanks in front of a text belong to its span. -/
theorem rawSpan_dropBlanks (depth : Nat) (cs : List Char) :
    rawSpan depth (dropBlanks cs) =
      (dropBlanks (rawSpan depth cs).1, (rawSpan depth cs).2) := by
  induction cs with
  | nil => rfl
  | cons c cs ih =>
    by_cases hblank : isBlank c = true
    · have hquote := isQuote_of_isBlank hblank
      have hopen : c ≠ '(' := ne_of_isBlank hblank (by decide)
      have hclose : c ≠ ')' := ne_of_isBlank hblank (by decide)
      have hdepth : depthBehind depth c = depth := by rw [depthBehind, if_neg hopen, if_neg hclose]
      rw [rawSpan_cons_of_go cs hquote fun h => hclose h.1, hdepth]
      simpa only [dropBlanks, List.dropWhile_cons_of_pos hblank] using ih
    · have hkeep (ds : List Char) : dropBlanks (c :: ds) = c :: ds :=
        List.dropWhile_cons_of_neg hblank
      by_cases hstop : isQuote c = true ∨ c = ')' ∧ depth = 0
      · rw [hkeep, rawSpan_cons_of_stop cs hstop]
        rfl
      · obtain ⟨hquote, hclose⟩ := not_or.mp hstop
        rw [hkeep, rawSpan_cons_of_go cs (by simpa using hquote) hclose, hkeep]

/-- A text that is taken as it stands may be taken with the blanks in front of it. -/
theorem exists_rawSpan_of_dropBlanks {depth : Nat} {cs content rest : List Char}
    (h : rawSpan depth (dropBlanks cs) = (content, rest)) :
    ∃ whole, rawSpan depth cs = (whole, rest) ∧ dropBlanks whole = content := by
  rw [rawSpan_dropBlanks] at h
  obtain ⟨hcontent, hrest⟩ := Prod.ext_iff.mp h
  exact ⟨(rawSpan depth cs).1, Prod.ext rfl hrest, hcontent⟩

/-- A formula begins with a character that is neither a blank nor a closing parenthesis. -/
def BeginsFormula (cs : List Char) : Prop :=
  startsWith (fun c => !isBlank c && c ≠ ')') cs = true

/-- What begins a formula begins it with more behind. -/
theorem BeginsFormula.append {cs : List Char} (h : BeginsFormula cs) (rest : List Char) :
    BeginsFormula (cs ++ rest) := by
  obtain ⟨c, tail, rfl, hc⟩ := startsWith_iff.mp h
  exact hc

/-- What begins a formula does not begin with a blank. -/
theorem BeginsFormula.dropBlanks_eq {cs : List Char} (h : BeginsFormula cs) :
    dropBlanks cs = cs := by
  obtain ⟨c, tail, rfl, hc⟩ := startsWith_iff.mp h
  simp only [Bool.and_eq_true, Bool.not_eq_true'] at hc
  exact dropBlanks_of_startsWith hc.1

/-- What begins a formula does not begin with a closing parenthesis. -/
theorem BeginsFormula.noClose {cs : List Char} (h : BeginsFormula cs) :
    startsWith (· = ')') cs = false := by
  obtain ⟨c, tail, rfl, hc⟩ := startsWith_iff.mp h
  simp only [Bool.and_eq_true, decide_eq_true_eq] at hc
  simpa [startsWith] using hc.2

/-- A numeral begins a formula. -/
theorem beginsFormula_numeral {n : Numeral} (hn : n.WellFormed) :
    BeginsFormula n.text := by
  obtain ⟨c, rest, htext⟩ := List.exists_cons_of_ne_nil hn.text_ne_nil
  have hblank : isBlank c = false := by
    rcases hn.of_mem_text (htext ▸ List.mem_cons_self ..) with rfl | rfl | hdigit
    · decide
    · decide
    · by_contra hb
      simp [isDigit_of_isBlank (by simpa using hb)] at hdigit
  have hclose : ')' ∉ n.text := hn.not_mem_text (by decide) (by decide) (by decide)
  rw [htext, List.mem_cons, not_or] at hclose
  simp [BeginsFormula, startsWith, htext, hblank, Ne.symm hclose.1]

/-- A word begins a formula. -/
theorem beginsFormula_word {token rest : List Char} (h : IsWord token rest) :
    BeginsFormula token := by
  cases token with
  | nil => exact absurd rfl h.ne_nil
  | cons c token =>
    have hc := h.chars c (List.mem_cons_self ..)
    have hclose : c ≠ ')' := by
      rintro rfl
      revert hc
      decide
    simp [BeginsFormula, startsWith, isBlank_of_isWordChar hc, hclose]

/-- The name of a function is a whole word in front of anything but a word. -/
theorem length_pos_of_isFunctionName {token : List Char} (h : isFunctionName token = true) :
    0 < token.length := by
  cases token with
  | nil => cases h
  | cons c token => exact Nat.succ_pos _

/-- A function name is a word if no word goes on behind it. -/
theorem isWord_of_isFunctionName {token rest : List Char} (h : isFunctionName token = true)
    (hrest : startsWith isWordChar rest = false) : IsWord token rest := by
  cases token with
  | nil => cases h
  | cons c token =>
    simp only [isFunctionName, Bool.and_eq_true, List.all_eq_true] at h
    refine ⟨List.cons_ne_nil c token, List.forall_mem_cons.mpr ⟨?_, ?_⟩, hrest⟩
    · have hc := h.1
      simp only [Bool.or_eq_true] at hc
      rcases hc with hc | hc <;> simp [isWordChar, Char.isAlphanum, hc]
    · intro d hd
      rw [isWordChar, h.2 d hd, Bool.true_or]

end Formula

end IndicatorFormula
