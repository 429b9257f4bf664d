import IndicatorFormula.Proofs.Series.Dates

/-!
# Series side by side

The frame of a family has one row for each date of any of its series, and the cell of a series
is open just where the series has no point. So no point is lost, made up or moved: each column
gives back its series, and the rows without an open cell are those of the dates that all of the
series share. The order of the family is the order of the columns and touches nothing else.
-/

namespace IndicatorFormula

open Series

/-- The members at some places, in the order of the places. -/
def picked {β : Type} (places : List Nat) (xs : List β) : List β := places.filterMap (xs[·]?)

section picked

variable {β γ : Type} {places : List Nat} {xs : List β}

theorem map_picked (f : β → γ) (places : List Nat) (xs : List β) :
    (picked places xs).map f = picked places (xs.map f) := by
  simp [picked, List.map_filterMap]

/-- Picking all places in order changes nothing. -/
theorem picked_range (xs : List β) : picked (List.range xs.length) xs = xs := by
  induction xs with
  | nil => rfl
  | cons x xs ih =>
    rw [picked, List.length_cons, List.range_succ_eq_map, List.filterMap_cons, List.filterMap_map]
    exact congrArg (x :: ·) ih

/-- To pick every place once is to put the members in another order. -/
theorem picked_perm (h : places.Perm (List.range xs.length)) : (picked places xs).Perm xs := by
  have hperm := h.filterMap (xs[·]?)
  rwa [← picked, ← picked, picked_range] at hperm

/-- Cells that are all filled are the cells of some values. -/
theorem exists_filled {cells : List (Option β)} (h : ∀ cell ∈ cells, ∃ x, cell = some x) :
    ∃ xs : List β, cells = xs.map some := by
  induction cells with
  | nil => exact ⟨[], rfl⟩
  | cons cell cells ih =>
    obtain ⟨⟨x, rfl⟩, hcells⟩ := List.forall_mem_cons.mp h
    obtain ⟨xs, rfl⟩ := ih hcells
    exact ⟨x :: xs, rfl⟩

/-- The cells of a row are filled in whatever order they stand. -/
theorem mapM_id_picked {cells : List (Option β)}
    (h : places.Perm (List.range cells.length)) :
    (picked places cells).mapM id = (cells.mapM id).map (picked places) := by
  cases hfilled : cells.mapM id with
  | some xs =>
    rw [mapM_id_eq_some.mp hfilled, ← map_picked]
    exact mapM_id_eq_some.mpr rfl
  | none =>
    refine Option.eq_none_iff_forall_ne_some.mpr fun xs hxs => ?_
    -- What is picked is filled, and so is the row, of which nothing is left out.
    obtain ⟨ys, hys⟩ : ∃ ys : List β, cells = ys.map some := by
      refine exists_filled fun cell hcell => ?_
      rw [← (picked_perm h).mem_iff, mapM_id_eq_some.mp hxs] at hcell
      obtain ⟨x, -, rfl⟩ := List.mem_map.mp hcell
      exact ⟨x, rfl⟩
    rw [mapM_id_eq_some.mpr hys] at hfilled
    cases hfilled

end picked

namespace Frame

section

variable {γ : Type}

/-- The dates of the rows. -/
def dates (f : Frame γ) : List Date := f.rows.map Prod.fst

/-- The cells of one column with their dates. -/
def column (i : Nat) (f : Frame γ) : Series γ := f.rows.filterMap fun r => r.2[i]?.map (r.1, ·)

/-- The frame of the columns at some places, in the order of the places. -/
def pick (places : List Nat) (f : Frame γ) : Frame γ :=
  ⟨picked places f.columns, f.rows.map fun r => (r.1, picked places r.2)⟩

theorem mem_column {i : Nat} {f : Frame γ} {d : Date} {cell : γ} :
    (d, cell) ∈ f.column i ↔ ∃ cells, (d, cells) ∈ f.rows ∧ cells[i]? = some cell := by
  simp [column]

/-- A column has dates of the frame, in order. -/
theorem dates_column_sublist (i : Nat) (f : Frame γ) :
    (f.column i).dates.Sublist f.dates := by
  apply map_filterMap_sublist
  intro r q hq
  obtain ⟨cell, -, rfl⟩ := Option.map_eq_some_iff.mp hq
  rfl

end

variable {α : Type} {family : Family α} {frame : Frame (Option α)}

/-- A joint row is a row with all cells filled. -/
theorem mem_rows_joint {d : Date} {xs : List α} :
    (d, xs) ∈ frame.joint.rows ↔ (d, xs.map some) ∈ frame.rows := by
  simp only [joint, List.mem_filterMap, Option.map_eq_some_iff, mapM_id_eq_some, Prod.mk.injEq]
  constructor
  · rintro ⟨⟨d, cells⟩, hr, ys, rfl, rfl, rfl⟩
    exact hr
  · intro hr
    exact ⟨(d, xs.map some), hr, xs, rfl, rfl, rfl⟩

/-- The joint rows have dates of the frame, in order. -/
theorem dates_joint_sublist (frame : Frame (Option α)) :
    frame.joint.dates.Sublist frame.dates := by
  apply map_filterMap_sublist
  intro r q hq
  obtain ⟨cells, -, rfl⟩ := Option.map_eq_some_iff.mp hq
  rfl

/-- A frame shows all of a family: no point is lost, made up or moved. -/
structure LaysOut (family : Family α) (frame : Frame (Option α)) : Prop where
  /-- The columns stand in the order of the family. -/
  columns : frame.columns = family.map Prod.fst
  /-- There is one row for each date, in the order of the dates. -/
  increasing : frame.dates.Pairwise (· < ·)
  /-- The dates are those of any of the series. -/
  mem_dates : ∀ d, d ∈ frame.dates ↔ ∃ entry ∈ family, d ∈ entry.2.dates
  /-- A cell holds what its series has at the date, and is open if it has nothing there. -/
  cells : ∀ r ∈ frame.rows,
    List.Forall₂ (fun entry cell => ∀ x, cell = some x ↔ (r.1, x) ∈ entry.2) family r.2

/-- A frame shows of a family what all its series have a point for. -/
structure Joins (family : Family α) (frame : Frame α) : Prop where
  /-- The columns stand in the order of the family. -/
  columns : frame.columns = family.map Prod.fst
  /-- There is one row for each date, in the order of the dates. -/
  increasing : frame.dates.Pairwise (· < ·)
  /-- The dates are those of all of the series. -/
  mem_dates : ∀ d, d ∈ frame.dates ↔ ∀ entry ∈ family, d ∈ entry.2.dates
  /-- A cell holds what its series has at the date. -/
  cells : ∀ r ∈ frame.rows, List.Forall₂ (fun entry x => (r.1, x) ∈ entry.2) family r.2

/-- A column without its open cells is its series. -/
theorem LaysOut.present_column (h : frame.LaysOut family) {i : Nat} (hi : i < family.length)
    (hs : family[i].2.Pairwise fun p q => p.1 < q.1) :
    (frame.column i).present = family[i].2 := by
  have hincreasing : (frame.column i).present.dates.Pairwise (· < ·) :=
    h.increasing.sublist ((dates_present_sublist _).trans (dates_column_sublist i frame))
  refine eq_of_increasing (List.pairwise_map.mp hincreasing) hs fun p => ?_
  obtain ⟨d, x⟩ := p
  rw [mem_present, mem_column]
  constructor
  · rintro ⟨cells, hr, hcell⟩
    obtain ⟨hlength, hcell⟩ := List.getElem?_eq_some_iff.mp hcell
    exact ((h.cells _ hr).get hi hlength x).mp hcell
  · intro hx
    have hd : d ∈ frame.dates :=
      (h.mem_dates d).mpr ⟨family[i], List.getElem_mem hi, Series.mem_dates.mpr ⟨x, hx⟩⟩
    obtain ⟨⟨d, cells⟩, hr, rfl⟩ := List.mem_map.mp hd
    have hlength : i < cells.length := (h.cells _ hr).length_eq ▸ hi
    have hcell : cells[i] = some x := ((h.cells _ hr).get hi hlength x).mpr hx
    exact ⟨cells, hr, hcell ▸ List.getElem?_eq_getElem hlength⟩

/-- A row shows a value of every series just when all of them have its date. -/
theorem LaysOut.filled_iff (h : frame.LaysOut family) {d : Date} {cells : List (Option α)}
    (hr : (d, cells) ∈ frame.rows) :
    (∃ xs : List α, cells = xs.map some) ↔ ∀ entry ∈ family, d ∈ entry.2.dates := by
  have hcells := h.cells _ hr
  constructor
  · rintro ⟨xs, rfl⟩ entry hentry
    obtain ⟨i, hi, rfl⟩ := List.getElem_of_mem hentry
    have hx := List.forall₂_map_right_iff.mp hcells
    have hix : i < xs.length := hx.length_eq ▸ hi
    exact Series.mem_dates.mpr ⟨xs[i], (hx.get hi hix xs[i]).mp rfl⟩
  · intro hall
    refine exists_filled fun cell hcell => ?_
    obtain ⟨i, hi, rfl⟩ := List.getElem_of_mem hcell
    have hif : i < family.length := hcells.length_eq ▸ hi
    obtain ⟨x, hx⟩ := Series.mem_dates.mp (hall family[i] (List.getElem_mem hif))
    exact ⟨x, (hcells.get hif hi x).mpr hx⟩

/-- The filled rows of series side by side are those of their common dates. -/
theorem LaysOut.joint (h : frame.LaysOut family) (hne : family ≠ []) :
    frame.joint.Joins family where
  columns := h.columns
  increasing := h.increasing.sublist frame.dates_joint_sublist
  mem_dates d := by
    constructor
    · intro hd
      obtain ⟨⟨d, xs⟩, hr, rfl⟩ := List.mem_map.mp hd
      exact (h.filled_iff (mem_rows_joint.mp hr)).mp ⟨xs, rfl⟩
    · intro hall
      obtain ⟨entry, hentry⟩ := List.exists_mem_of_ne_nil family hne
      obtain ⟨⟨d, cells⟩, hr, rfl⟩ :=
        List.mem_map.mp ((h.mem_dates d).mpr ⟨entry, hentry, hall entry hentry⟩)
      obtain ⟨xs, rfl⟩ := (h.filled_iff hr).mpr hall
      exact List.mem_map_of_mem (mem_rows_joint.mpr hr)
  cells r hr := by
    have hcells := List.forall₂_map_right_iff.mp (h.cells _ (mem_rows_joint.mp hr))
    exact hcells.imp fun entry x hx => (hx x).mp rfl

/-- To put the columns in another order and to leave out rows are independent. -/
theorem joint_pick {places : List Nat} (h : frame.LaysOut family)
    (hplaces : places.Perm (List.range family.length)) :
    (frame.pick places).joint = frame.joint.pick places := by
  have hrow : ∀ r ∈ frame.rows,
      (picked places r.2).mapM id = (r.2.mapM id).map (picked places) := by
    intro r hr
    exact mapM_id_picked ((h.cells r hr).length_eq ▸ hplaces)
  simp only [joint, pick, List.filterMap_map, List.map_filterMap, Frame.mk.injEq, true_and]
  refine List.filterMap_congr fun r hr => ?_
  simp [hrow r hr, Function.comp_def]

end Frame

namespace Family

variable {α : Type} {family : Family α} {frame : Frame (Option α)}

theorem align_eq (hne : family ≠ []) :
    family.align = .ok ⟨family.map Prod.fst, family.allDates.map fun d => (d, family.cells d)⟩ :=
  if_neg (by simpa using hne)

theorem mem_allDates {d : Date} : d ∈ family.allDates ↔ ∃ entry ∈ family, d ∈ entry.2.dates := by
  rw [allDates, mem_sortedDates, List.mem_flatMap]

/-- The frame of a family shows every series in its column. -/
theorem laysOut (hinc : ∀ entry ∈ family, entry.2.Pairwise fun p q => p.1 < q.1) :
    Frame.LaysOut family
      ⟨family.map Prod.fst, family.allDates.map fun d => (d, family.cells d)⟩ := by
  have hdates : (family.allDates.map fun d => (d, family.cells d)).map Prod.fst =
      family.allDates := by
    simp [Function.comp_def]
  refine ⟨rfl, ?_, fun d => ?_, fun r hr => ?_⟩
  · rw [Frame.dates, hdates]
    exact sortedDates_increasing _
  · rw [Frame.dates, hdates]
    exact mem_allDates
  · obtain ⟨d, -, rfl⟩ := List.mem_map.mp hr
    refine List.forall₂_map_right_iff.mpr (List.forall₂_same.mpr fun entry hentry x => ?_)
    exact lookup_eq_some_iff_mem (hinc entry hentry)

/-- A family in another order has the same dates. -/
theorem allDates_congr {family' : Family α} (h : family'.Perm family) :
    family'.allDates = family.allDates :=
  sortedDates_congr fun d => by simp only [List.mem_flatMap, h.mem_iff]

/-- Picking series before aligning is picking columns behind it. -/
theorem align_picked {places : List Nat} (h : family.align = .ok frame)
    (hplaces : places.Perm (List.range family.length)) :
    Family.align (picked places family) = .ok (frame.pick places) := by
  have hperm := picked_perm hplaces
  have hne : family ≠ [] := by
    rintro rfl
    cases h
  rw [align_eq hne] at h
  cases h
  rw [align_eq fun hnil => hne (List.perm_nil.mp (hnil ▸ hperm.symm)), allDates_congr hperm]
  simp [Frame.pick, cells, map_picked, Function.comp_def]

/-- Series side by side lose no point, make none up and move none. Each column gives back its
series, the filled rows are those of the common dates, and the order of the series is that of
the columns in both. -/
theorem align_faithful (hne : family ≠ [])
    (hinc : ∀ entry ∈ family, entry.2.Pairwise fun p q => p.1 < q.1) :
    ∃ frame, family.align = .ok frame ∧ frame.LaysOut family ∧ frame.joint.Joins family ∧
      (∀ i (hi : i < family.length), (frame.column i).present = family[i].2) ∧
      ∀ places : List Nat, places.Perm (List.range family.length) →
        Family.align (picked places family) = .ok (frame.pick places) ∧
          (frame.pick places).joint = frame.joint.pick places := by
  have hlays := laysOut hinc
  refine ⟨_, align_eq hne, hlays, hlays.joint hne, fun i hi => ?_, fun places hplaces => ?_⟩
  · exact hlays.present_column hi (hinc _ (List.getElem_mem hi))
  · exact ⟨align_picked (align_eq hne) hplaces, Frame.joint_pick hlays hplaces⟩

/-- Three series whose dates lie between each other, with one date in common. -/
def interleaved : Family Float :=
  [("a", [(⟨1⟩, 1.0), (⟨3⟩, 2.0), (⟨6⟩, 3.0)]), ("b", [(⟨2⟩, 10.0), (⟨3⟩, 20.0)]),
    ("c", [(⟨3⟩, 5.0), (⟨4⟩, 6.0)])]

/-- Three interleaved series: their frame, its joint row, and the same in another order. -/
theorem align_faithful_interleaved :
    ∃ frame, interleaved.align = .ok frame ∧ frame.LaysOut interleaved ∧
      frame.joint.Joins interleaved ∧ frame.joint.dates = [⟨3⟩] ∧
      (∀ i (hi : i < interleaved.length), (frame.column i).present = interleaved[i].2) ∧
      Family.align (picked [2, 0, 1] interleaved) = .ok (frame.pick [2, 0, 1]) ∧
      (frame.pick [2, 0, 1]).joint = frame.joint.pick [2, 0, 1] := by
  have hne : interleaved ≠ [] := List.cons_ne_nil _ _
  have hinc : ∀ entry ∈ interleaved, entry.2.Pairwise fun p q => p.1 < q.1 := by decide
  obtain ⟨frame, halign, hlays, hjoins, hcolumns, hpicked⟩ := align_faithful hne hinc
  have hjoint : frame.joint.dates = [⟨3⟩] := by
    cases halign
    rfl
  exact ⟨frame, halign, hlays, hjoins, hjoint, hcolumns, hpicked [2, 0, 1] (by decide)⟩

end Family

end IndicatorFormula
