import IndicatorFormula.Formula.WeightsReader
import IndicatorFormula.Proofs.Except

/-!
# Which pair of weights is wrong

A text of weights is cut at its commas, and the pairs between them are read in turn. Pairs that
are read leave the reader at the next one with their slugs seen. What cannot be read is the first
pair that is no slug with a weight or whose slug has a weight already, and the error tells the
place at which it begins: that of the text, or right behind the comma before it.
-/

namespace IndicatorFormula

open IndicatorFormula.Except

/-- Whether it is a pair of weights that is wrong. -/
def Problem.IsOfPair : Problem → Prop
  | malformedWeight _ | duplicateWeight _ => True
  | _ => False

namespace Constituent

/-- The pieces of a list are what splitting at commas gives. -/
theorem pieces_eq_splitOn (cs : List Char) : pieces cs = cs.splitOn ',' := by
  induction cs with
  | nil => rfl
  | cons c cs ih =>
    obtain ⟨piece, more, hmore⟩ := List.exists_cons_of_ne_nil (List.splitOn_ne_nil ',' cs)
    rw [pieces, ih, hmore]
    simp only [List.splitOn] at hmore ⊢
    rw [List.splitOnP_cons_eq_if_modifyHead, hmore]
    simp

/-- Pieces with a comma behind each. -/
def closed (before : List (List Char)) : List Char := before.flatMap (· ++ [','])

/-- Pieces joined by commas have the earlier ones closed before each. -/
theorem intercalate_append_cons (before : List (List Char)) (piece : List Char)
    (after : List (List Char)) : [','].intercalate (before ++ piece :: after) =
      closed before ++ [','].intercalate (piece :: after) := by
  induction before with
  | nil => rfl
  | cons first before ih =>
    have hne : before ++ piece :: after ≠ [] := by simp
    rw [List.cons_append, List.intercalate_cons_of_ne_nil hne, ih]
    simp [closed]

/-- A piece of a text stands behind those before it with their commas. -/
theorem exists_of_pieces {cs piece : List Char} {before after : List (List Char)}
    (h : pieces cs = before ++ piece :: after) : ∃ rest, cs = closed before ++ (piece ++ rest) := by
  have hjoined : [','].intercalate (cs.splitOn ',') = cs := List.intercalate_splitOn ','
  rw [← pieces_eq_splitOn, h, intercalate_append_cons] at hjoined
  cases after with
  | nil => exact ⟨[], by rw [← hjoined, List.intercalate_singleton, List.append_nil]⟩
  | cons next after =>
    refine ⟨[','] ++ [','].intercalate (next :: after), ?_⟩
    rw [← hjoined, List.intercalate_cons_cons, List.append_assoc]

/-- Behind some pieces with their commas stands a comma. -/
theorem getLast?_closed {before : List (List Char)} (h : before ≠ []) :
    (closed before).getLast? = some ',' := by
  rw [← List.dropLast_append_getLast h, closed, List.flatMap_append]
  simp

/-- The slugs of pairs. -/
def slugs (pairs : List (List Char)) : List String := (pairs.filterMap readPair?).map (·.slug)

/-- What is wrong with a pair behind pairs of some slugs. -/
inductive IsWrongPair (seen : List String) (pair : List Char) : Problem → Prop
  /-- It is no slug with a weight. -/
  | malformed (unread : readPair? pair = none) :
    IsWrongPair seen pair (.malformedWeight (String.ofList pair))
  /-- Its slug has come before. -/
  | duplicate {term : Constituent Float} (read : readPair? pair = some term)
    (again : term.slug ∈ seen) : IsWrongPair seen pair (.duplicateWeight term.slug)

/-- A pair that is wrong after some slugs is wrong after more. -/
theorem IsWrongPair.congr {seen seen' : List String} {pair : List Char} {problem : Problem}
    (h : IsWrongPair seen pair problem) (hseen : ∀ slug ∈ seen, slug ∈ seen') :
    IsWrongPair seen' pair problem := by
  cases h with
  | malformed unread => exact .malformed unread
  | duplicate read again => exact .duplicate read (hseen _ again)

/-- Pairs are read as terms whose slugs are new: none has been seen, and no two are the same. -/
inductive AreRead : List String → List (List Char) → List (Constituent Float) → Prop where
  /-- There is no pair. -/
  | nil {seen : List String} : AreRead seen [] []
  /-- The slug of the first pair has been seen by those behind it. -/
  | cons {seen : List String} {pair : List Char} {more : List (List Char)}
      {term : Constituent Float} {terms : List (Constituent Float)}
      (read : readPair? pair = some term) (fresh : term.slug ∉ seen)
      (rest : AreRead (term.slug :: seen) more terms) : AreRead seen (pair :: more) (term :: terms)

variable {seen : List String} {before pairs : List (List Char)} {pair : List Char}
  {terms : List (Constituent Float)}

/-- Pairs are read just when each is, with slugs that are new and distinct. -/
theorem areRead_iff : AreRead seen pairs terms ↔
    List.Forall₂ (fun pair term => readPair? pair = some term) pairs terms ∧
      (terms.map (·.slug)).Nodup ∧ ∀ term ∈ terms, term.slug ∉ seen := by
  constructor
  · intro h
    induction h with
    | nil => exact ⟨.nil, List.nodup_nil, by simp⟩
    | @cons seen pair more term terms read fresh rest ih =>
      obtain ⟨hread, hdistinct, hfresh⟩ := ih
      refine ⟨.cons read hread, List.nodup_cons.mpr ⟨?_, hdistinct⟩,
        List.forall_mem_cons.mpr ⟨fresh, fun t ht hseen => hfresh t ht (.tail _ hseen)⟩⟩
      intro hagain
      obtain ⟨t, ht, hslug⟩ := List.mem_map.mp hagain
      exact hfresh t ht (hslug ▸ List.mem_cons_self ..)
  · rintro ⟨hread, hdistinct, hfresh⟩
    induction hread generalizing seen with
    | nil => exact .nil
    | cons read hread ih =>
      obtain ⟨hfirst, hdistinct⟩ := List.nodup_cons.mp hdistinct
      obtain ⟨fresh, hfresh⟩ := List.forall_mem_cons.mp hfresh
      refine .cons read fresh (ih hdistinct fun t ht => ?_)
      rw [List.mem_cons, not_or]
      exact ⟨fun hslug => hfirst (List.mem_map.mpr ⟨t, ht, hslug⟩), hfresh t ht⟩

/-- The reader comes to what stands behind pairs that are read. -/
theorem readPairs_append (h : AreRead seen before terms) (position : Nat)
    (rest : List (List Char)) : readPairs seen position (before ++ rest) =
      (readPairs ((terms.map (·.slug)).reverse ++ seen) (position + (closed before).length)
        rest).map (terms ++ ·) := by
  induction h generalizing position with
  | @nil seen =>
    change readPairs seen position rest = (readPairs seen position rest).map id
    cases readPairs seen position rest with
    | error e => rfl
    | ok others => rfl
  | @cons seen pair more term terms read fresh _ ih =>
    have hposition : position + pair.length + 1 + (closed more).length =
        position + (closed (pair :: more)).length := by
      rw [closed, closed, List.flatMap_cons]
      simp only [List.length_append, List.length_singleton]
      omega
    simp only [List.cons_append, readPairs, read, fresh, if_false]
    rw [ih, hposition, List.map_cons, List.reverse_cons, List.append_assoc, List.singleton_append]
    cases readPairs _ _ rest with
    | error e => rfl
    | ok others => rfl

/-- The reader stops at a pair that is wrong. -/
theorem readPairs_of_isWrongPair {problem : Problem} (h : IsWrongPair seen pair problem)
    (position : Nat) (after : List (List Char)) :
    readPairs seen position (pair :: after) = .error ⟨problem, position⟩ := by
  cases h with
  | malformed unread => rw [readPairs, unread]
  | duplicate read again => simp only [readPairs, read, again, if_true]

/-- Either all pairs are read or there is a first one that is wrong. -/
theorem areRead_or_exists_isWrongPair (seen : List String) (pairs : List (List Char)) :
    (∃ terms, AreRead seen pairs terms) ∨
      ∃ before pair after terms problem, pairs = before ++ pair :: after ∧
        AreRead seen before terms ∧
        IsWrongPair ((terms.map (·.slug)).reverse ++ seen) pair problem := by
  induction pairs generalizing seen with
  | nil => exact .inl ⟨[], .nil⟩
  | cons pair more ih =>
    cases hpair : readPair? pair with
    | none => exact .inr ⟨[], pair, more, [], _, rfl, .nil, .malformed hpair⟩
    | some term =>
      by_cases hseen : term.slug ∈ seen
      · exact .inr ⟨[], pair, more, [], _, rfl, .nil, .duplicate hpair hseen⟩
      · rcases ih (term.slug :: seen) with
          ⟨terms, hterms⟩ | ⟨before, wrong, after, terms, problem, rfl, hterms, hwrong⟩
        · exact .inl ⟨term :: terms, .cons hpair hseen hterms⟩
        · refine .inr ⟨pair :: before, wrong, after, term :: terms, problem, rfl,
            .cons hpair hseen hterms, ?_⟩
          simpa using hwrong

/-- A text is read as weights when all its pairs are. -/
theorem readAll_eq_ok_iff {text : String} {position : Nat} :
    readAll text position = .ok terms ↔ AreRead [] (pieces text.toList) terms := by
  have hall {terms : List (Constituent Float)} (h : AreRead [] (pieces text.toList) terms) :
      readAll text position = .ok terms := by
    have hread := readPairs_append h position []
    rw [List.append_nil] at hread
    rw [readAll, hread, readPairs, Except.map, List.append_nil]
  constructor
  · intro h
    rcases areRead_or_exists_isWrongPair [] (pieces text.toList) with
      ⟨terms', hterms'⟩ | ⟨before, pair, after, terms', problem, hpairs, hterms', hwrong⟩
    · rw [hall hterms'] at h
      cases h
      exact hterms'
    · rw [readAll, hpairs, readPairs_append hterms', readPairs_of_isWrongPair hwrong] at h
      cases h
  · exact hall

/-- The error of a text of weights is about the first of its pairs that is wrong, and tells
where that begins. -/
theorem readAll_eq_error_iff {text : String} {position : Nat} {e : ReadError} :
    readAll text position = .error e ↔
      ∃ before pair after terms, pieces text.toList = before ++ pair :: after ∧
        AreRead [] before terms ∧ e.position = position + (closed before).length ∧
        IsWrongPair (terms.map (·.slug)) pair e.problem := by
  constructor
  · intro h
    rcases areRead_or_exists_isWrongPair [] (pieces text.toList) with
      ⟨terms, hterms⟩ | ⟨before, pair, after, terms, problem, hpairs, hterms, hwrong⟩
    · rw [readAll_eq_ok_iff.mpr hterms] at h
      cases h
    · rw [readAll, hpairs, readPairs_append hterms, readPairs_of_isWrongPair hwrong] at h
      cases h
      exact ⟨before, pair, after, terms, hpairs, hterms, rfl, hwrong.congr (by simp)⟩
  · rintro ⟨before, pair, after, terms, hpairs, hterms, hposition, hwrong⟩
    have hseen : IsWrongPair ((terms.map (·.slug)).reverse ++ []) pair e.problem :=
      hwrong.congr (by simp)
    rw [readAll, hpairs, readPairs_append hterms, readPairs_of_isWrongPair hseen, ← hposition]
    rfl

/-- The slugs of pairs that are read are those of the terms. -/
theorem slugs_of_areRead (h : AreRead seen pairs terms) : slugs pairs = terms.map (·.slug) := by
  induction h with
  | nil => rfl
  | cons read fresh rest ih =>
    rw [List.map_cons, ← ih, slugs, slugs, List.filterMap_cons, read, List.map_cons]

/-- The error of a text of weights is about one of its pairs, and tells where that begins. -/
theorem exists_of_readAll {text : String} {position : Nat} {e : ReadError}
    (h : readAll text position = .error e) :
    ∃ before pair after, pieces text.toList = before ++ pair :: after ∧
      e.position = position + (closed before).length ∧
      IsWrongPair (slugs before) pair e.problem := by
  obtain ⟨before, pair, after, terms, hpairs, hterms, hposition, hwrong⟩ :=
    readAll_eq_error_iff.mp h
  exact ⟨before, pair, after, hpairs, hposition, slugs_of_areRead hterms ▸ hwrong⟩

end Constituent

end IndicatorFormula
