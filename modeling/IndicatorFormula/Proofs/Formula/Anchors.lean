import IndicatorFormula.Proofs.Formula.Cursor
import IndicatorFormula.Proofs.Formula.Offenders
import IndicatorFormula.Proofs.Formula.Parts

/-!
# Where the parts of a formula stand

Every part of a formula that is read knows its place in the text, and there it stands as it was
written: a number as its longest numeral, a slug and a text letter by letter, the name of a call
in letters of either case. The parts stand one behind the other in the order in which a call
comes before its arguments.
-/

namespace IndicatorFormula.Formula

open Text Decimal

/-- What is left of a text at a place. -/
def LeftAt (t : List Char) (p : Nat) (cs : List Char) : Prop :=
  ∃ front, t = front ++ cs ∧ front.length = p

/-- A part of a formula stands in the text where it says that it does. -/
def IsAnchored (t : List Char) : Formula → Prop
  | number x p => ∃ (n : Numeral) (rest : List Char), LeftAt t p (n.text ++ rest) ∧
      n.IsLongest rest ∧ startsWith isWordChar rest = false ∧ n.value = x
  | literal s p => ∃ rest, LeftAt t p (s.toList ++ rest)
  | indicator slug p => ∃ rest, LeftAt t p (slug.toList ++ rest)
  | call name _ p => ∃ token rest, LeftAt t p (token ++ rest) ∧ capitals token = name
  | hole => False

/-- The places of the parts of a formula, each call before its arguments. -/
def places (parts : List Formula) : List Nat := parts.filterMap position?

/-- Parts of formulas stand in a text one behind the other, all between two places. -/
structure AreAnchored (t : List Char) (first last : Nat) (parts : List Formula) : Prop where
  /-- Each stands where it says. -/
  anchored : ∀ g ∈ parts, g.IsAnchored t
  /-- Each stands behind the one before it. -/
  ordered : (places parts).Pairwise (· < ·)
  /-- None stands before the first place, and all stand before the last. -/
  within : ∀ p ∈ places parts, first ≤ p ∧ p < last

section Rows

variable {t : List Char} {first middle last p : Nat} {f : Formula} {parts others : List Formula}

/-- Parts anchored within some bounds are anchored within wider ones. -/
theorem AreAnchored.mono {first' last' : Nat} (h : AreAnchored t first last parts)
    (hfirst : first' ≤ first) (hlast : last ≤ last') : AreAnchored t first' last' parts :=
  ⟨h.anchored, h.ordered, fun p hp =>
    ⟨Nat.le_trans hfirst (h.within p hp).1, Nat.lt_of_lt_of_le (h.within p hp).2 hlast⟩⟩

/-- Parts stand one behind the other when the second ones begin where the first ones end. -/
theorem AreAnchored.append (h : AreAnchored t first middle parts)
    (h' : AreAnchored t middle last others) (hle : first ≤ middle) (hle' : middle ≤ last) :
    AreAnchored t first last (parts ++ others) where
  anchored := List.forall_mem_append.mpr ⟨h.anchored, h'.anchored⟩
  ordered := by
    rw [places, List.filterMap_append]
    exact List.pairwise_append.mpr ⟨h.ordered, h'.ordered, fun p hp q hq =>
      Nat.lt_of_lt_of_le (h.within p hp).2 (h'.within q hq).1⟩
  within := by
    rw [places, List.filterMap_append]
    exact List.forall_mem_append.mpr ⟨(h.mono (Nat.le_refl _) hle').within,
      (h'.mono hle (Nat.le_refl _)).within⟩

/-- One part alone. -/
theorem areAnchored_singleton (hf : f.IsAnchored t) (hp : f.position? = some p) (hlt : p < last) :
    AreAnchored t p last [f] := by
  refine ⟨by simpa using hf, ?_, ?_⟩ <;> simp [places, hp, hlt]

end Rows

section Reading

variable {t cs rest token behind inside : List Char} {f : Formula} {args : List Formula}

/-- At the place of a suffix, that suffix is what is left. -/
theorem leftAt_place (h : cs <:+ t) : LeftAt t (place t.length cs) cs := by
  obtain ⟨front, rfl⟩ := h
  exact ⟨front, rfl, (place_append rfl).symm⟩

/-- What is left later has a later place. -/
theorem place_lt_place (h : token ++ rest <:+ t) (hne : token ≠ []) :
    place t.length (token ++ rest) < place t.length rest := by
  have htoken := List.length_pos_iff.mpr hne
  rw [place_append_run h]
  omega

/-- What reading leaves is a suffix of what was there. -/
theorem Reads.suffix {size : Nat} (h : Reads size cs f rest) : rest <:+ dropBlanks cs := by
  obtain ⟨text, htext, -⟩ := h.spells
  exact htext ▸ List.suffix_append text rest

theorem suffix_of_dropBlanks {c : Char} (h : dropBlanks behind = c :: rest) : rest <:+ behind :=
  (List.suffix_cons c rest).trans (h ▸ dropBlanks_suffix behind)

/-- What reading a row leaves is a suffix of what was there. -/
theorem ReadsRow.suffix {size : Nat} (h : ReadsRow size cs args rest) : rest <:+ cs := by
  obtain ⟨row, hrow, -⟩ := h.spellsRow
  exact hrow ▸ (List.suffix_cons ')' rest).trans (List.suffix_append row _)

theorem inside_suffix (opening : dropBlanks behind = '(' :: inside) :
    dropBlanks inside <:+ behind :=
  (dropBlanks_suffix inside).trans (suffix_of_dropBlanks opening)

/-- A call stands where its name does, in front of its arguments. -/
theorem areAnchored_call (h : token ++ behind <:+ t) (hne : token ≠ [])
    (opening : dropBlanks behind = '(' :: inside) (hrest : rest <:+ dropBlanks inside)
    (hargs : AreAnchored t (place t.length (dropBlanks inside)) (place t.length rest)
      (allParts args)) :
    AreAnchored t (place t.length (token ++ behind)) (place t.length rest)
      (call (capitals token) args (place t.length (token ++ behind))).parts := by
  have hlt : place t.length (token ++ behind) < place t.length (dropBlanks inside) :=
    Nat.lt_of_lt_of_le (place_lt_place h hne) (place_mono _ (inside_suffix opening))
  have hcall : AreAnchored t (place t.length (token ++ behind)) (place t.length (dropBlanks inside))
      [call (capitals token) args (place t.length (token ++ behind))] :=
    areAnchored_singleton ⟨token, behind, leftAt_place h, rfl⟩ rfl hlt
  exact hcall.append hargs (Nat.le_of_lt hlt) (place_mono _ hrest)

/-- A text without the blanks around it stands in front, if no blank does. -/
theorem strip_prefix {content : List Char} (h : startsWith isBlank content = false) :
    strip content <+: content := by
  rw [strip, dropBlanks_of_startsWith h]
  exact List.rdropWhile_prefix ..

mutual

/-- What is read stands between the blanks in front of it and what is left. -/
theorem Reads.anchored {cs rest : List Char} {f : Formula} :
    Reads t.length cs f rest → dropBlanks cs <:+ t →
      AreAnchored t (place t.length (dropBlanks cs)) (place t.length rest) f.parts
  | @Reads.quoted _ _ body rest quote text isQuote free, h => by
    rw [text] at h ⊢
    have hbody := (List.suffix_cons quote _).trans h
    have hlt := @place_lt_place t rest (body ++ [quote]) (by simpa using hbody) (by simp)
    have hliteral : IsAnchored t (literal (String.ofList body)
        (place t.length (body ++ quote :: rest))) :=
      ⟨quote :: rest, by simpa using leftAt_place hbody⟩
    exact (areAnchored_singleton hliteral rfl (by simpa using hlt)).mono
      (place_mono _ (List.suffix_cons quote _)) (Nat.le_refl _)
  | @Reads.number _ _ rest n numeral noCall finite, h => by
    obtain ⟨htext, hlongest, hword⟩ := wholeNumeral?_eq_some_iff.mp numeral
    have hne := Numeral.text_ne_nil_of_scan? (Option.filter_eq_some_iff.mp numeral).1
    rw [htext] at h ⊢
    exact areAnchored_singleton ⟨n, rest, leftAt_place h, hlongest, hword, rfl⟩ rfl
      (place_lt_place h hne)
  | @Reads.indicator _ _ token rest text word noNumeral noCall, h => by
    rw [text] at h ⊢
    exact areAnchored_singleton ⟨rest, by simpa using leftAt_place h⟩ rfl
      (place_lt_place h word.ne_nil)
  | @Reads.raw _ _ token behind inside content rest text word opening name takesRaw unquoted span
      filled, h => by
    rw [text] at h ⊢
    have hbody := ((inside_suffix opening).trans (List.suffix_append token behind)).trans h
    have hblank := startsWith_dropWhile isBlank inside
    obtain ⟨htext, -⟩ := rawSpan_eq_iff.mp span
    rw [← dropBlanks, htext] at hblank
    rw [htext] at hbody
    obtain ⟨more, hmore⟩ := strip_prefix (startsWith_of_isPrefix (List.prefix_append ..) hblank)
    have hlt := @place_lt_place t rest (content ++ [')']) (by simpa using hbody) (by simp)
    refine areAnchored_call h word.ne_nil opening ?_ (areAnchored_singleton ?_ rfl ?_)
    · exact htext ▸ (List.suffix_cons ')' rest).trans (List.suffix_append content _)
    · refine ⟨more ++ ')' :: rest, ?_⟩
      rw [String.toList_ofList, ← List.append_assoc, hmore, htext]
      exact leftAt_place hbody
    · simpa [htext] using hlt
  | @Reads.call _ _ token behind inside rest args text word opening name quotedText filled row,
      h => by
    rw [text] at h ⊢
    have hbody := ((inside_suffix opening).trans (List.suffix_append token behind)).trans h
    have hrow := row.anchored (by rwa [dropBlanks_dropBlanks])
    rw [dropBlanks_dropBlanks] at hrow
    exact areAnchored_call h word.ne_nil opening row.suffix hrow

/-- The arguments that are read stand one behind the other in front of what is left. -/
theorem ReadsRow.anchored {cs rest : List Char} {args : List Formula} :
    ReadsRow t.length cs args rest → dropBlanks cs <:+ t →
      AreAnchored t (place t.length (dropBlanks cs)) (place t.length rest) (allParts args)
  | .last first closing, h => by
    rw [allParts, allParts, List.append_nil]
    exact (first.anchored h).mono (Nat.le_refl _) (place_mono _ (suffix_of_dropBlanks closing))
  | @ReadsRow.more _ _ after others _ _ _ first comma filled row, h => by
    -- The comma stands between the first argument and the others.
    have hothers := suffix_of_dropBlanks comma
    have hfront := hothers.trans first.suffix
    have hfirst := (first.anchored h).mono (Nat.le_refl _) (place_mono t.length hothers)
    have hrow := (row.anchored ((dropBlanks_suffix others).trans (hfront.trans h))).mono
      (place_mono t.length (dropBlanks_suffix others)) (Nat.le_refl _)
    exact hfirst.append hrow (place_mono _ hfront) (place_mono _ row.suffix)

end

end Reading

/-- All parts of what is read are anchored in the text. -/
theorem areAnchored_of_read {text : String} {f : Formula} (h : read text = .ok f) :
    ∃ first last, AreAnchored text.toList first last f.parts := by
  obtain ⟨rest, hreads, -⟩ := readChars_ok_iff.mp h
  exact ⟨_, _, hreads.anchored (dropBlanks_suffix _)⟩

/-- Reading always ends, safely, and tells true places. The reading with the cursor comes to an
end on every text, with the formula or the error that the text is read as: the cursor never goes
back, never looks where no character stands, and what it takes for a number is one. The place of
an error lies in the text or right behind it. Of a formula every part stands where it says that
it does, one behind the other, each call in front of its arguments. -/
theorem read_safe_and_anchored (text : String) :
    (Cursor.whole text.toList).run' 0 = (read text).mapError Halt.ofError ∧
    (∀ e, read text = .error e → e.problem ≠ .tooDeep ∧ e.position ≤ text.toList.length) ∧
    (∀ f, read text = .ok f →
      (∀ g ∈ f.parts, g.IsAnchored text.toList) ∧ (places f.parts).Pairwise (· < ·)) := by
  refine ⟨Cursor.run_whole text.toList, fun e he => ?_, fun f hf => ?_⟩
  · exact ⟨readChars_ne_tooDeep he, (shows_of_readChars he).position_le⟩
  · obtain ⟨first, last, h⟩ := areAnchored_of_read hf
    exact ⟨h.anchored, h.ordered⟩

/-- A call whose name is in small letters, behind a blank. -/
theorem read_safe_and_anchored_call :
    read " roc(x, \x22y\x22)" = .ok (.call "ROC" [.indicator "x" 5, .literal "y" 9] 1) ∧
      (Formula.call "ROC" [.indicator "x" 5, .literal "y" 9] 1).IsAnchored
        " roc(x, \x22y\x22)".toList := by
  have hread : read " roc(x, \x22y\x22)" =
      .ok (.call "ROC" [.indicator "x" 5, .literal "y" 9] 1) := by cbv
  exact ⟨hread, ((read_safe_and_anchored _).2.2 _ hread).1 _ (mem_parts_self _)⟩

end IndicatorFormula.Formula
