/-!
# Sets of slugs

A set of slugs is kept as the list of its members in the order of their characters, each
once. Two sets are equal just when their lists are.
-/

namespace IndicatorFormula.Slugs

/-- Put a slug in its place, unless it is there already. -/
def insert (slug : String) : List String → List String
  | [] => [slug]
  | s :: rest =>
    if slug < s then slug :: s :: rest
    else if slug = s then s :: rest
    else s :: insert slug rest

/-- The set of some slugs. -/
def ofList (slugs : List String) : List String := slugs.foldr insert []

/-- The members of a longer set are those of the shorter one and the new slug. -/
theorem mem_insert {x slug : String} {slugs : List String} :
    x ∈ insert slug slugs ↔ x = slug ∨ x ∈ slugs := by
  induction slugs with
  | nil => simp [insert]
  | cons s rest ih =>
    unfold insert
    split
    · simp
    · split
      · rename_i h
        subst h
        simp
      · simp only [List.mem_cons, ih]
        grind

/-- The set has the members of the list. -/
theorem mem_ofList {x : String} {slugs : List String} : x ∈ ofList slugs ↔ x ∈ slugs := by
  induction slugs with
  | nil => simp [ofList]
  | cons s rest ih =>
    change x ∈ insert s (ofList rest) ↔ _
    simp [mem_insert, ih]

/-- Of two different slugs one comes first. -/
theorem lt_of_not_lt {a b : String} (h : ¬a < b) (hne : a ≠ b) : b < a := by
  rcases Decidable.em (b < a) with h' | h'
  · exact h'
  · exact absurd (String.le_antisymm (String.not_lt.mp h') (String.not_lt.mp h)) hne

/-- Putting a slug in its place keeps the slugs in strict order. -/
theorem insert_increasing {slug : String} {slugs : List String} (h : slugs.Pairwise (· < ·)) :
    (insert slug slugs).Pairwise (· < ·) := by
  induction slugs with
  | nil => simp [insert]
  | cons s rest ih =>
    obtain ⟨hs, hrest⟩ := List.pairwise_cons.mp h
    unfold insert
    split
    · rename_i hlt
      refine List.pairwise_cons.mpr ⟨?_, h⟩
      intro x hx
      rcases List.mem_cons.mp hx with rfl | hx
      · exact hlt
      · exact String.lt_trans hlt (hs x hx)
    · split
      · exact h
      · rename_i hlt hne
        refine List.pairwise_cons.mpr ⟨?_, ih hrest⟩
        intro x hx
        rcases mem_insert.mp hx with rfl | hx
        · exact lt_of_not_lt hlt hne
        · exact hs x hx

/-- The slugs of a set are in strict order. -/
theorem ofList_increasing (slugs : List String) : (ofList slugs).Pairwise (· < ·) := by
  induction slugs with
  | nil => exact List.Pairwise.nil
  | cons s rest ih => exact insert_increasing ih

end IndicatorFormula.Slugs
