import IndicatorFormula.Proofs.Except
import IndicatorFormula.Proofs.Series.Latest
import IndicatorFormula.Series.Correlation
import IndicatorFormula.Series.SeasonalAdjustment
import IndicatorFormula.Series.Signal
import IndicatorFormula.Series.WeightedIndex

/-!
# Where the dates of a series come from

No calculation makes up a date. What is computed of one series stands at dates of that series
and in their order; what is computed of several series stands at dates that all of them have.
-/

namespace IndicatorFormula

open IndicatorFormula.Except

section Rows

variable {β γ : Type} {date : β → Date} {date' : γ → Date}

/-- What is picked out of a row keeps its dates in their order. -/
theorem map_filterMap_sublist {f : β → Option γ} (h : ∀ x z, f x = some z → date' z = date x)
    (xs : List β) : ((xs.filterMap f).map date').Sublist (xs.map date) := by
  induction xs with
  | nil => exact .slnil
  | cons x xs ih =>
    cases hx : f x with
    | none =>
      rw [List.filterMap_cons_none hx]
      exact ih.cons _
    | some z =>
      rw [List.filterMap_cons_some hx, List.map_cons, List.map_cons, h x z hx]
      exact ih.cons_cons _

/-- Elements that have a partner keep their dates in their order. -/
theorem map_zip_sublist (date : β → Date) (xs : List β) (ys : List γ) :
    ((xs.zip ys).map fun p => date p.1).Sublist (xs.map date) := by
  induction xs generalizing ys with
  | nil => exact .slnil
  | cons x xs ih =>
    cases ys with
    | nil => exact List.nil_sublist _
    | cons y ys => exact (ih ys).cons_cons _

end Rows

namespace Series

variable {α : Type} {s t : Series α}

theorem mem_present {s : Series (Option α)} {d : Date} {x : α} :
    (d, x) ∈ s.present ↔ (d, some x) ∈ s := by
  simp [present]

/-- The present points have dates of the series, in order. -/
theorem dates_present_sublist (s : Series (Option α)) : (present s).dates.Sublist s.dates := by
  apply map_filterMap_sublist
  intro p q hq
  obtain ⟨x, -, rfl⟩ := Option.map_eq_some_iff.mp hq
  rfl

/-- Mapping values keeps the dates. -/
theorem dates_map {β : Type} (f : Date × α → β) (s : Series α) :
    dates (s.map fun p => (p.1, f p)) = s.dates := by
  rw [dates, List.map_map]
  rfl

theorem dates_drop_sublist (n : Nat) (s : Series α) : (dates (s.drop n)).Sublist s.dates :=
  (List.drop_sublist n s).map Prod.fst

theorem dates_withBase_sublist (n : Nat) (s : Series α) :
    ((withBase n s).map fun p => p.1.1).Sublist s.dates :=
  (map_zip_sublist Prod.fst (s.drop n) s.values).trans (dates_drop_sublist n s)

variable [Arith α]

theorem dates_finite_sublist (s : Series α) : s.finite.dates.Sublist s.dates :=
  List.filter_sublist.map Prod.fst

theorem dates_cleaned_sublist (s : Series (Option α)) :
    (present s).finite.dates.Sublist s.dates :=
  (dates_finite_sublist _).trans (dates_present_sublist s)

theorem dates_signal (comparison : Comparison) (threshold : α) (s : Series α) :
    (comparison.signal threshold s).dates = s.dates := dates_map _ s

/-- The momentum has dates of the series, in order. -/
theorem dates_momentum_sublist {n : Nat} (h : momentum n s = .ok t) :
    t.dates.Sublist s.dates := by
  unfold momentum at h
  split at h
  · cases h
  · cases h
    rw [dates, List.map_map]
    exact dates_withBase_sublist n s

/-- The changes have dates of the series, in order. -/
theorem dates_relativeChanges_sublist (n : Nat) (s : Series α) :
    (relativeChanges n s).dates.Sublist s.dates := by
  rw [relativeChanges, dates, List.map_map]
  exact (List.filter_sublist.map _).trans (dates_withBase_sublist n s)

/-- The percentage change has dates of the series, in order. -/
theorem dates_percentChange_sublist {n : Nat} (h : percentChange n s = .ok t) :
    t.dates.Sublist s.dates := by
  unfold percentChange at h
  split at h
  · cases h
  · split at h
    · cases h
    · cases h
      rw [dates_map]
      exact dates_relativeChanges_sublist n s

/-- The oscillator has dates of the series, in order. -/
theorem dates_stochastic_sublist {n : Nat} {t : Series (Option α)}
    (h : stochastic n s = .ok t) : t.dates.Sublist s.dates := by
  unfold stochastic at h
  split at h
  · cases h
  · cases h
    rw [dates, List.map_map]
    exact (map_zip_sublist Prod.fst _ _).trans (dates_drop_sublist _ s)

/-- Deseasonalizing keeps the dates. -/
theorem dates_deseasonalized {t : Series (Option α)} (h : deseasonalized s = .ok t) :
    t.dates = s.dates := by
  obtain ⟨season, -, h⟩ := bind_eq_ok.mp h
  split at h
  · cases h
  · obtain ⟨trend, -, h⟩ := bind_eq_ok.mp h
    cases h
    exact dates_map _ s

end Series

/-- A row is filled just when none of its cells is open. -/
theorem mapM_id_eq_some {α : Type} {cells : List (Option α)} {xs : List α} :
    cells.mapM id = some xs ↔ cells = xs.map some := by
  induction cells generalizing xs with
  | nil => cases xs <;> simp
  | cons cell cells ih =>
    cases xs <;> simp [List.mapM_cons, Option.bind_eq_some_iff, ih, and_comm]

section Family

variable {α : Type} {family : Family α} {frame : Frame (Option α)}

/-- The joint rows of aligned series are in the order of their dates. -/
theorem Family.joint_increasing (h : family.align = .ok frame) :
    (frame.joint.rows.map Prod.fst).Pairwise (· < ·) := by
  have hjoint : (frame.joint.rows.map Prod.fst).Sublist (frame.rows.map Prod.fst) := by
    apply map_filterMap_sublist
    intro r q hq
    obtain ⟨cells, -, rfl⟩ := Option.map_eq_some_iff.mp hq
    rfl
  have hrows : frame.rows.map Prod.fst = family.allDates := by
    unfold Family.align at h
    split at h
    · cases h
    · cases h
      simp [Function.comp_def]
  rw [hrows] at hjoint
  exact (Series.sortedDates_increasing _).sublist hjoint

/-- A joint row stands at a date that every series has. -/
theorem Family.mem_dates_of_joint (h : family.align = .ok frame) {r : Date × List α}
    (hr : r ∈ frame.joint.rows) {f : String × Series α} (hf : f ∈ family) :
    r.1 ∈ f.2.dates := by
  obtain ⟨row, hrow, hjoint⟩ := List.mem_filterMap.mp hr
  obtain ⟨cells, hcells, rfl⟩ := Option.map_eq_some_iff.mp hjoint
  unfold Family.align at h
  split at h
  · cases h
  · cases h
    obtain ⟨d, -, rfl⟩ := List.mem_map.mp hrow
    have hfilled : family.cells d = cells.map some := mapM_id_eq_some.mp hcells
    have hcell : f.2.lookup d ∈ family.cells d := List.mem_map_of_mem hf
    rw [hfilled] at hcell
    obtain ⟨x, -, hx⟩ := List.mem_map.mp hcell
    exact Series.mem_dates_of_lookup hx.symm

end Family

section

variable {α : Type} [Arith α] {t : Series α}

/-- A rolling correlation has dates of the pairs, in order. -/
theorem Series.dates_trailingCorrelation_sublist {n : Nat} {pairs : Paired α}
    (h : trailingCorrelation n pairs = .ok t) : t.dates.Sublist (pairs.map Prod.fst) := by
  unfold trailingCorrelation at h
  split at h
  · cases h
  · split at h
    · cases h
    · cases h
      rw [dates, List.map_map]
      exact (map_zip_sublist Prod.fst _ _).trans ((List.drop_sublist _ pairs).map Prod.fst)

omit [Arith α] in
/-- The rows of two columns stand in the order of the frame. -/
theorem Series.dates_pairedRows_sublist (f : Frame α) :
    ((pairedRows f).map Prod.fst).Sublist (f.rows.map Prod.fst) := by
  apply map_filterMap_sublist
  intro r q hq
  split at hq
  · cases hq
    rfl
  · cases hq

/-- A rolling correlation stands in order at dates that both series have. -/
theorem Series.dates_correlateWith {n : Nat} {left right : Series α}
    (h : correlateWith n left right = .ok t) :
    t.dates.Pairwise (· < ·) ∧ ∀ d ∈ t.dates, d ∈ left.dates ∧ d ∈ right.dates := by
  obtain ⟨frame, hframe, h⟩ := bind_eq_ok.mp h
  have hdates :=
    (dates_trailingCorrelation_sublist h).trans (dates_pairedRows_sublist frame.joint)
  refine ⟨(Family.joint_increasing hframe).sublist hdates, ?_⟩
  intro d hd
  obtain ⟨r, hr, rfl⟩ := List.mem_map.mp (hdates.subset hd)
  exact ⟨Family.mem_dates_of_joint hframe hr (f := ("left", left)) (by simp),
    Family.mem_dates_of_joint hframe hr (f := ("right", right)) (by simp)⟩

/-- A weighted index stands in order at dates that all its series have, and has at least one
series. -/
theorem Constituent.dates_index {ε : Type} {fault : DataError → ε}
    {find : String → Except ε (Series α)} {terms : List (Constituent α)}
    (h : index fault find terms = .ok t) :
    t.dates.Pairwise (· < ·) ∧ terms ≠ [] ∧
      ∀ term ∈ terms, ∃ s, find term.slug = .ok s ∧ ∀ d ∈ t.dates, d ∈ s.dates := by
  unfold index at h
  split at h
  · cases h
  · obtain ⟨family, hfamily, h⟩ := bind_eq_ok.mp h
    obtain ⟨frame, hframe, h⟩ := bind_eq_ok.mp h
    have hframe := mapError_eq_ok.mp hframe
    split at h
    · cases h
    · cases h
      rw [Series.dates_map]
      refine ⟨Family.joint_increasing hframe, ?_, ?_⟩
      · rintro rfl
        cases hfamily
        cases hframe
      · intro term hterm
        obtain ⟨entry, hentry, hfind⟩ := mem_of_mapM_eq_ok hfamily term hterm
        obtain ⟨s, hs, hpair⟩ := bind_eq_ok.mp hfind
        cases hpair
        refine ⟨s, hs, ?_⟩
        intro d hd
        obtain ⟨r, hr, rfl⟩ := List.mem_map.mp hd
        exact Family.mem_dates_of_joint hframe hr hentry

end

end IndicatorFormula
