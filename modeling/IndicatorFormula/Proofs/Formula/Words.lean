import Mathlib
import IndicatorFormula.Formula.Reader

/-!
# Scanning words, digits and blanks

A scan takes the longest run of one kind of character. It takes exactly a given run when
what follows does not begin with a character of that kind, which is how every text that is
written piece by piece gets read piece by piece.
-/

namespace IndicatorFormula.Formula

open Text Decimal

/-- A text begins with a kind of character just when it has a first one, of that kind. -/
theorem startsWith_iff {p : Char → Bool} {cs : List Char} :
    startsWith p cs = true ↔ ∃ c rest, cs = c :: rest ∧ p c = true := by
  cases cs with
  | nil => simp [startsWith]
  | cons c rest => simp [startsWith]

/-- The longest run is the given one when what follows is of another kind. -/
theorem takeWhile_append_run {p : Char → Bool} {xs rest : List Char}
    (hxs : ∀ c ∈ xs, p c = true) (hrest : startsWith p rest = false) :
    (xs ++ rest).takeWhile p = xs ∧ (xs ++ rest).dropWhile p = rest := by
  rw [List.takeWhile_append_of_pos hxs, List.dropWhile_append_of_pos hxs]
  cases rest with
  | nil => simp
  | cons c rest =>
    have hc : ¬p c = true := by simpa [startsWith] using hrest
    simp [hc]

/-- What is left behind the longest run begins with another kind of character. -/
theorem startsWith_dropWhile (p : Char → Bool) (cs : List Char) :
    startsWith p (cs.dropWhile p) = false := by
  induction cs with
  | nil => rfl
  | cons c rest ih =>
    by_cases hc : p c = true
    · simpa only [List.dropWhile_cons_of_pos hc] using ih
    · simpa [List.dropWhile_cons_of_neg hc, startsWith] using hc

/-- Blanks are dropped only where there are some. -/
theorem dropBlanks_of_startsWith {cs : List Char} (h : startsWith isBlank cs = false) :
    dropBlanks cs = cs := by
  have hnil : ∀ c ∈ ([] : List Char), isBlank c = true := by simp
  simpa [dropBlanks] using (takeWhile_append_run hnil h).2

/-- What is left behind the blanks begins with none. -/
theorem length_dropBlanks_le (cs : List Char) : (dropBlanks cs).length ≤ cs.length :=
  List.length_dropWhile_le isBlank cs

/-- What a text does not begin with, no beginning of it begins with. -/
theorem startsWith_of_isPrefix {p : Char → Bool} {xs ys : List Char} (h : xs <+: ys)
    (hys : startsWith p ys = false) : startsWith p xs = false := by
  obtain ⟨rest, rfl⟩ := h
  cases xs with
  | nil => rfl
  | cons c xs => exact hys

/-- A text without blanks around it stays as it is. -/
theorem strip_strip (cs : List Char) : strip (strip cs) = strip cs := by
  -- Dropping the blanks at the end leaves a beginning of what was there, so that none come
  -- back to the front.
  have hstrip : ∀ ds, strip ds = (dropBlanks ds).rdropWhile isBlank := fun ds => rfl
  have hfront : dropBlanks (strip cs) = strip cs := by
    apply dropBlanks_of_startsWith
    exact startsWith_of_isPrefix (List.rdropWhile_prefix ..) (startsWith_dropWhile isBlank cs)
  rw [hstrip (strip cs), hfront, hstrip cs, List.rdropWhile_idempotent]

/-- A word stands at the front of a text: it is not empty and goes on as long as it can. -/
structure IsWord (token rest : List Char) : Prop where
  /-- The word has a character. -/
  ne_nil : token ≠ []
  /-- It has word characters only. -/
  chars : ∀ c ∈ token, isWordChar c = true
  /-- No further word character follows. -/
  stops : startsWith isWordChar rest = false

/-- A word is split off whole. -/
theorem IsWord.splitWord_eq {token rest : List Char} (h : IsWord token rest) :
    splitWord (token ++ rest) = (token, rest) := by
  obtain ⟨ht, hr⟩ := takeWhile_append_run h.chars h.stops
  simp only [splitWord, ht, hr]

/-- What the word scanner takes is a word, unless it takes nothing. -/
theorem isWord_splitWord {cs : List Char} (h : (splitWord cs).1 ≠ []) :
    IsWord (splitWord cs).1 (splitWord cs).2 where
  ne_nil := h
  chars _ hc := List.mem_takeWhile_imp hc
  stops := startsWith_dropWhile isWordChar cs

/-- A word begins with a word character. -/
theorem IsWord.startsWith_append {token rest : List Char} (h : IsWord token rest) :
    startsWith isWordChar (token ++ rest) = true := by
  cases token with
  | nil => exact absurd rfl h.ne_nil
  | cons c token => exact h.chars c (List.mem_cons_self ..)

/-- Every word character is an ASCII character. -/
theorem toNat_lt_of_isWordChar {c : Char} (h : isWordChar c = true) : c.toNat < 128 := by
  simp only [isWordChar, Char.isAlphanum, Char.isAlpha, Char.isUpper, Char.isLower,
    Char.isDigit, Bool.or_eq_true, Bool.and_eq_true, decide_eq_true_eq, ge_iff_le,
    UInt32.le_iff_toNat_le] at h
  change c.val.toNat < 128
  rcases h with (((h | h) | h) | rfl) | rfl
  · exact Nat.lt_of_le_of_lt h.2 (by decide)
  · exact Nat.lt_of_le_of_lt h.2 (by decide)
  · exact Nat.lt_of_le_of_lt h.2 (by decide)
  · decide
  · decide

/-- A fact about word characters can be checked on the ASCII characters one by one. -/
theorem isWordChar_forall {P : Char → Prop}
    (h : ∀ n < 128, isWordChar (Char.ofNat n) = true → P (Char.ofNat n)) {c : Char}
    (hc : isWordChar c = true) : P c := by
  have he : Char.ofNat c.toNat = c := Char.ofNat_toNat c
  have hp := h c.toNat (toNat_lt_of_isWordChar hc)
  rw [he] at hp
  exact hp hc

theorem isQuote_of_isWordChar {c : Char} (h : isWordChar c = true) : isQuote c = false :=
  isWordChar_forall (P := fun c => isQuote c = false) (by decide) h

theorem isBlank_of_isWordChar {c : Char} (h : isWordChar c = true) : isBlank c = false :=
  isWordChar_forall (P := fun c => isBlank c = false) (by decide) h

end IndicatorFormula.Formula
