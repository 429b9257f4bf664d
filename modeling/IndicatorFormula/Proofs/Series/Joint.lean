import IndicatorFormula.Proofs.Series.Continuation
import IndicatorFormula.Proofs.Series.Latest
import IndicatorFormula.Series.Correlation
import IndicatorFormula.Series.WeightedIndex

/-!
# Series side by side that go on

The dates of several series are collected and put in order, and a row of cells stands at each.
If all the series go on after a date then so do the rows: up to that date nothing is added to
the dates and no cell changes. So what is computed row by row, or over trailing windows of rows,
goes on as well.
-/

namespace IndicatorFormula

open IndicatorFormula.Except

namespace Series

variable {α : Type} {s : Series α} {D : Date}

/-- Points that are collected go on if those up to the date are what was there. -/
theorem extended_latest {points points' : List (Date × α)}
    (h : points'.filter (fun q => q.1 ≤ D) = points) :
    Extended D (latest points) (latest points') := by
  rw [← h, ← filter_latest fun d => decide (d ≤ D)]
  exact .of_increasing (latest_increasing points')

/-- Dates added behind a day continue the sorted ones. -/
theorem continued_sortedDates {ds ds' : List Date} (h : ds'.filter (fun d => d ≤ D) = ds) :
    Continued id D (sortedDates ds) (sortedDates ds') := by
  have hpoints : (ds'.map fun d => (d, ())).filter (fun q => q.1 ≤ D) = ds.map (·, ()) := by
    rw [List.filter_map, ← h]
    rfl
  exact (extended_latest hpoints).map (fun _ _ => rfl) fun _ => rfl

/-- What is found at a date up to which a series is known stays. -/
theorem Extended.lookup_eq {s' : Series α} (h : Extended D s s') {d : Date} (hd : d ≤ D) :
    s'.lookup d = s.lookup d := by
  obtain ⟨more, rfl, -, hnew⟩ := h
  have hnone : more.lookup d = none := by
    apply List.lookup_eq_none_iff.mpr
    intro p hp
    have hne : d ≠ p.1 := by
      rintro rfl
      exact Date.not_le.mpr (hnew p hp) hd
    simpa using hne
  rw [List.lookup_append, hnone, Option.or_none]

end Series

namespace Family

variable {α : Type} {D : Date} {family family' : Family α}

/-- Every series of a family goes on under its name. -/
abbrev Extended (D : Date) (family family' : Family α) : Prop :=
  List.Forall₂ (fun f f' => f.1 = f'.1 ∧ Series.Extended D f.2 f'.2) family family'

/-- An extended family has the same names. -/
theorem Extended.names_eq (h : Extended D family family') :
    family'.map Prod.fst = family.map Prod.fst := by
  induction h with
  | nil => rfl
  | cons hfirst hrest ih => rw [List.map_cons, List.map_cons, hfirst.1, ih]

/-- The dates of an extended family continue the dates. -/
theorem Extended.allDates (h : Extended D family family') :
    Continued id D family.allDates family'.allDates := by
  apply Series.continued_sortedDates
  induction h with
  | nil => rfl
  | @cons f f' _ _ hfirst hrest ih =>
    have hdates : Continued id D f.2.dates f'.2.dates :=
      hfirst.2.map (fun _ _ => rfl) fun _ => rfl
    rw [List.flatMap_cons, List.flatMap_cons, List.filter_append, ih]
    exact congrArg (· ++ _) hdates.filter_le

/-- Up to the day the cells of an extended family are the same. -/
theorem Extended.cells_eq (h : Extended D family family') {d : Date} (hd : d ≤ D) :
    family'.cells d = family.cells d := by
  induction h with
  | nil => rfl
  | cons hfirst hrest ih =>
    simp only [cells, List.map_cons, List.cons.injEq] at ih ⊢
    exact ⟨hfirst.2.lookup_eq hd, ih⟩

end Family

/-- The rows of a frame go on under the same columns. -/
structure Frame.Extended {γ : Type} (D : Date) (f f' : Frame γ) : Prop where
  /-- The columns have the same names. -/
  columns_eq : f'.columns = f.columns
  /-- What is new lies after the date. -/
  rows : Continued Prod.fst D f.rows f'.rows

/-- The joint rows of an extended frame extend the joint rows. -/
theorem Frame.Extended.joint {α : Type} {D : Date} {f f' : Frame (Option α)}
    (h : f.Extended D f') : f.joint.Extended D f'.joint where
  columns_eq := h.columns_eq
  rows := by
    apply h.rows.filterMap
    intro r q hq
    obtain ⟨cells, -, rfl⟩ := Option.map_eq_some_iff.mp hq
    rfl

/-- The frame of an extended family extends the frame. -/
theorem Family.align_follows {α : Type} {D : Date} {family family' : Family α}
    (h : family.Extended D family') :
    Follows (Frame.Extended D) family.align family'.align := by
  cases family with
  | nil => exact follows_error
  | cons f rest =>
    cases family' with
    | nil => cases h
    | cons f' rest' =>
      apply follows_ok
      refine ⟨h.names_eq, ?_⟩
      apply h.allDates.map
      · intro d hd
        exact congrArg (d, ·) (h.cells_eq hd)
      · intro d
        rfl

namespace Series

variable {α : Type} {D : Date}

/-- The pairs of an extended frame continue the pairs. -/
theorem continued_pairedRows {f f' : Frame α} (h : f.Extended D f') :
    Continued Prod.fst D (pairedRows f) (pairedRows f') := by
  apply h.rows.filterMap
  intro r q hq
  split at hq
  · cases hq
    rfl
  · cases hq

variable [Arith α]

/-- The correlation of continued pairs extends the correlation. -/
theorem trailingCorrelation_follows {pairs pairs' : Paired α}
    (h : Continued Prod.fst D pairs pairs') (n : Nat) :
    Follows (Extended D) (trailingCorrelation n pairs) (trailingCorrelation n pairs') := by
  have hlength := h.length_le
  unfold trailingCorrelation
  by_cases hshort : pairs.length < n
  · rw [if_pos hshort]
    exact follows_error
  · have hshort' : ¬pairs'.length < n := by omega
    rw [if_neg hshort, if_neg hshort']
    by_cases hn : n = 0
    · rw [if_pos hn]
      exact follows_error
    · rw [if_neg hn, if_neg hn]
      apply follows_ok
      exact (continued_zip_windows h Prod.snd (by omega)).map (fun _ _ => rfl) fun _ => rfl

/-- The correlation of extended series extends the correlation. -/
theorem correlateWith_follows {left left' right right' : Series α} (hleft : Extended D left left')
    (hright : Extended D right right') (n : Nat) :
    Follows (Extended D) (correlateWith n left right) (correlateWith n left' right') := by
  have hfamily : Family.Extended D [("left", left), ("right", right)]
      [("left", left'), ("right", right')] := .cons ⟨rfl, hleft⟩ (.cons ⟨rfl, hright⟩ .nil)
  refine (Family.align_follows hfamily).bind fun frame frame' hframe => ?_
  exact trailingCorrelation_follows (continued_pairedRows hframe.joint) n

end Series

namespace Constituent

variable {α ε : Type} [Arith α] {D : Date}

/-- The index of extended series extends the index. -/
theorem index_follows {fault : DataError → ε} {find find' : String → Except ε (Series α)}
    (hfind : ∀ slug, Follows (Series.Extended D) (find slug) (find' slug))
    (terms : List (Constituent α)) :
    Follows (Series.Extended D) (index fault find terms) (index fault find' terms) := by
  unfold index
  by_cases hzero : Arith.isZero (total terms)
  · simp only [hzero, if_true]
    exact follows_error
  · simp only [hzero]
    have hfamily : Follows (Family.Extended D)
        (terms.mapM fun t => return (t.slug, ← find t.slug))
        (terms.mapM fun t => return (t.slug, ← find' t.slug)) := by
      apply follows_mapM
      intro t _
      exact (hfind t.slug).bind fun s s' hs => follows_ok ⟨rfl, hs⟩
    refine hfamily.bind fun family family' hfamily => ?_
    refine (Family.align_follows hfamily).mapError.bind fun frame frame' hframe => ?_
    have hrows := hframe.joint.rows
    by_cases hempty : frame.joint.rows.isEmpty
    · simp only [hempty, if_true]
      exact follows_error
    · -- A row that all series share is still there when they go on.
      have hfull : ¬frame'.joint.rows.isEmpty := by
        have hlength := hrows.length_le
        rw [List.isEmpty_iff_length_eq_zero] at hempty ⊢
        omega
      simp only [hempty, hfull]
      exact follows_ok (hrows.map (fun _ _ => rfl) fun _ => rfl)

end Constituent

end IndicatorFormula
