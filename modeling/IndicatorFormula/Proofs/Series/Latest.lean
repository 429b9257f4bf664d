import IndicatorFormula.Series.Basic

/-!
# The last point of each date

Points are collected by date and of each date the last one is kept. What is collected has one
point for each date, in order, so that it is settled by its members, and a point is found under
its date just when it is one of them.
-/

namespace IndicatorFormula.Series

variable {α : Type} {p : Date × α} {s t points : Series α} {d : Date} {x : α}

/-- A series in order has no point twice. -/
private theorem nodup_of_increasing (h : s.Pairwise fun p q => p.1 < q.1) : s.Nodup := by
  refine h.imp fun {p q} hlt heq => ?_
  rw [heq] at hlt
  exact Int.lt_irrefl _ hlt

/-- Rows with strictly increasing dates are equal when they have the same members. -/
theorem eq_of_increasing (hs : s.Pairwise fun p q => p.1 < q.1)
    (ht : t.Pairwise fun p q => p.1 < q.1) (h : ∀ p, p ∈ s ↔ p ∈ t) : s = t := by
  have hperm : s.Perm t :=
    (List.perm_ext_iff_of_nodup (nodup_of_increasing hs) (nodup_of_increasing ht)).mpr h
  refine hperm.eq_of_pairwise (fun p q _ _ hpq hqp => ?_) hs ht
  exact absurd (Int.lt_trans hpq hqp) (Int.lt_irrefl _)

theorem mem_dates : d ∈ s.dates ↔ ∃ x, (d, x) ∈ s := by
  simp [dates]

/-- What is found under a date stands there. -/
theorem mem_of_lookup (h : s.lookup d = some x) : (d, x) ∈ s := by
  obtain ⟨before, after, rfl, -⟩ := List.lookup_eq_some_iff.mp h
  exact List.mem_append_right before (List.mem_cons_self ..)

theorem mem_dates_of_lookup (h : s.lookup d = some x) : d ∈ s.dates :=
  mem_dates.mpr ⟨x, mem_of_lookup h⟩

/-- Of points with one for each date, every one is found under its date. -/
theorem lookup_eq_some_iff_mem (h : s.Pairwise fun p q => p.1 < q.1) :
    s.lookup d = some x ↔ (d, x) ∈ s := by
  refine ⟨mem_of_lookup, fun hmem => ?_⟩
  induction s with
  | nil => cases hmem
  | cons q rest ih =>
    obtain ⟨hq, hrest⟩ := List.pairwise_cons.mp h
    rcases List.mem_cons.mp hmem with rfl | hmem
    · simp
    · have hne : d ≠ q.1 := by
        rintro rfl
        exact Int.lt_irrefl _ (hq (q.1, x) hmem)
      rw [List.lookup_cons, beq_false_of_ne hne]
      exact ih hrest hmem

/-- A point before all others is put in front. -/
theorem insertAbsent_of_lt (h : ∀ q ∈ s, p.1 < q.1) : insertAbsent p s = p :: s := by
  cases s with
  | nil => rfl
  | cons q rest => rw [insertAbsent, if_pos (h q (List.mem_cons_self ..))]

/-- To put a point in its place and then to leave out some dates is to leave them out first. -/
theorem filter_insertAbsent (h : s.Pairwise fun a b => a.1 < b.1) (keep : Date → Bool) :
    (insertAbsent p s).filter (fun q => keep q.1) =
      if keep p.1 then insertAbsent p (s.filter fun q => keep q.1)
      else s.filter fun q => keep q.1 := by
  induction s with
  | nil => by_cases hp : keep p.1 <;> simp [insertAbsent, hp]
  | cons q rest ih =>
    obtain ⟨hq, hrest⟩ := List.pairwise_cons.mp h
    rcases Date.lt_trichotomy p.1 q.1 with hlt | heq | hgt
    · have hall : ∀ x ∈ q :: rest, p.1 < x.1 := by
        intro x hx
        rcases List.mem_cons.mp hx with rfl | hx
        · exact hlt
        · exact Int.lt_trans hlt (hq x hx)
      have hkept : ∀ x ∈ (q :: rest).filter fun q => keep q.1, p.1 < x.1 := by
        intro x hx
        exact hall x (List.mem_filter.mp hx).1
      rw [insertAbsent_of_lt hall, insertAbsent_of_lt hkept, List.filter_cons]
    · have hirrefl : ¬q.1 < q.1 := Int.lt_irrefl q.1.ordinal
      have hpresent (others : Series α) : insertAbsent p (q :: others) = q :: others := by
        rw [insertAbsent, heq, if_neg hirrefl, if_pos rfl]
      by_cases hkeep : keep q.1 <;> simp [hpresent, heq, hkeep]
    · have hnlt : ¬p.1 < q.1 := Int.lt_asymm hgt
      have hne : p.1 ≠ q.1 := fun heq => hnlt (heq ▸ hgt)
      have hbehind (others : Series α) :
          insertAbsent p (q :: others) = q :: insertAbsent p others := by
        rw [insertAbsent, if_neg hnlt, if_neg hne]
      by_cases hkeep : keep q.1
      · simp only [hbehind, List.filter_cons, hkeep, if_true, ih hrest]
        by_cases hp : keep p.1 <;> simp [hp]
      · simp only [hbehind, List.filter_cons, hkeep, ih hrest]
        rfl

/-- Points that are in the order of dates are collected as they are. -/
theorem latest_of_increasing (h : s.Pairwise fun p q => p.1 < q.1) : latest s = s := by
  induction s with
  | nil => rfl
  | cons p rest ih =>
    obtain ⟨hp, hrest⟩ := List.pairwise_cons.mp h
    change insertAbsent p (latest rest) = _
    rw [ih hrest, insertAbsent_of_lt hp]

/-- To collect points and then to leave out some dates is to leave them out first. -/
theorem filter_latest (keep : Date → Bool) (points : Series α) :
    (latest points).filter (fun q => keep q.1) = latest (points.filter fun q => keep q.1) := by
  induction points with
  | nil => rfl
  | cons p rest ih =>
    have hinsert := filter_insertAbsent (p := p) (latest_increasing rest) keep
    rw [ih] at hinsert
    by_cases hp : keep p.1
    · simpa [List.filter_cons, hp] using! hinsert
    · simpa [List.filter_cons, hp] using! hinsert

/-- Of points of one date the last is kept. -/
theorem latest_of_one_date (h : ∀ p ∈ points, p.1 = d) :
    latest points = points.getLast?.toList := by
  induction points with
  | nil => rfl
  | cons p rest ih =>
    obtain ⟨hp, hrest⟩ := List.forall_mem_cons.mp h
    change insertAbsent p (latest rest) = _
    rw [ih hrest, List.getLast?_cons]
    cases hlast : rest.getLast? with
    | none => rfl
    | some q =>
      have hq : p.1 = q.1 := hp.trans (hrest q (List.mem_of_getLast? hlast)).symm
      have hirrefl : ¬q.1 < q.1 := Int.lt_irrefl q.1.ordinal
      simp [insertAbsent, hq, hirrefl]

/-- A point is kept just when it is the last of the points given for its date. -/
theorem mem_latest_iff :
    p ∈ latest points ↔ (points.filter fun q => q.1 = p.1).getLast? = some p := by
  have hkept : (latest points).filter (fun q => decide (q.1 = p.1)) =
      (points.filter fun q => q.1 = p.1).getLast?.toList := by
    rw [filter_latest fun d => decide (d = p.1)]
    exact latest_of_one_date fun q hq => of_decide_eq_true (List.mem_filter.mp hq).2
  have hmem : p ∈ latest points ↔ p ∈ (latest points).filter fun q => decide (q.1 = p.1) := by
    simp
  rw [hmem, hkept, Option.mem_toList]

/-- The dates of what is collected are those of the points. -/
theorem mem_dates_latest : d ∈ (latest points).dates ↔ d ∈ points.dates := by
  constructor
  · intro hd
    obtain ⟨x, hx⟩ := mem_dates.mp hd
    exact mem_dates.mpr ⟨x, (List.mem_filter.mp (List.mem_of_getLast? (mem_latest_iff.mp hx))).1⟩
  · intro hd
    obtain ⟨x, hx⟩ := mem_dates.mp hd
    have hof : (d, x) ∈ points.filter fun q => q.1 = d := List.mem_filter.mpr ⟨hx, by simp⟩
    obtain ⟨q, hq⟩ := Option.ne_none_iff_exists'.mp
      (mt List.getLast?_eq_none_iff.mp (List.ne_nil_of_mem hof))
    have hdate : q.1 = d :=
      of_decide_eq_true (List.mem_filter.mp (List.mem_of_getLast? hq)).2
    subst hdate
    exact mem_dates.mpr ⟨q.2, mem_latest_iff.mpr hq⟩

/-- No point has a date on which there is none. -/
private theorem filter_date_eq_nil {d : Date} (h : d ∉ points.dates) :
    points.filter (fun q => q.1 = d) = [] := by
  refine List.filter_eq_nil_iff.mpr fun q hq => ?_
  simpa using fun heq : q.1 = d => h (heq ▸ List.mem_map_of_mem hq)

/-- What is not replaced stands in the order in which it was given. -/
theorem withoutReplaced_sublist (points : Series α) : points.withoutReplaced.Sublist points := by
  induction points with
  | nil => exact .slnil
  | cons p rest ih =>
    unfold withoutReplaced
    split
    · exact ih.cons p
    · exact ih.cons_cons p

/-- After replacing, no date stands twice. -/
theorem nodup_dates_withoutReplaced (points : Series α) :
    points.withoutReplaced.dates.Nodup := by
  induction points with
  | nil => exact .nil
  | cons p rest ih =>
    unfold withoutReplaced
    split
    · exact ih
    · rename_i hfresh
      exact List.nodup_cons.mpr
        ⟨fun hp => hfresh (((withoutReplaced_sublist rest).map Prod.fst).subset hp), ih⟩

/-- A point is not replaced just when it is the last of the points given for its date. -/
theorem mem_withoutReplaced_iff :
    p ∈ points.withoutReplaced ↔ (points.filter fun q => q.1 = p.1).getLast? = some p := by
  induction points with
  | nil => simp [withoutReplaced]
  | cons q rest ih =>
    unfold withoutReplaced
    by_cases hdate : q.1 = p.1
    · by_cases hlater : q.1 ∈ dates rest
      · -- A later point of the date replaces the first one, and whatever is last stays last.
        obtain ⟨r, hr, heq⟩ := List.mem_map.mp hlater
        have hne : rest.filter (fun q => q.1 = p.1) ≠ [] :=
          List.ne_nil_of_mem (List.mem_filter.mpr ⟨hr, by simpa using heq.trans hdate⟩)
        rw [if_pos hlater, ih, List.filter_cons_of_pos (by simpa using hdate)]
        rw [List.getLast?_cons, List.getLast?_eq_some_getLast hne, Option.getD_some]
      · have hfresh : p ∉ withoutReplaced rest := fun hp =>
          hlater (hdate ▸ List.mem_map_of_mem ((withoutReplaced_sublist rest).subset hp))
        rw [if_neg hlater, List.filter_cons_of_pos (by simpa using hdate),
          filter_date_eq_nil (hdate ▸ hlater), List.mem_cons, or_iff_left hfresh]
        simp [eq_comm]
    · have hne : p ≠ q := fun heq => hdate (congrArg Prod.fst heq).symm
      rw [List.filter_cons_of_neg (by simpa using hdate), ← ih]
      split
      · rfl
      · rw [List.mem_cons, or_iff_right hne]

/-- The dates of what is not replaced are those of the points. -/
theorem mem_dates_withoutReplaced : d ∈ points.withoutReplaced.dates ↔ d ∈ points.dates := by
  induction points with
  | nil => rfl
  | cons p rest ih =>
    unfold withoutReplaced
    split
    · next hlater =>
      rw [ih]
      change _ ↔ d ∈ p.1 :: dates rest
      rw [List.mem_cons]
      exact ⟨.inr, fun hd => hd.elim (fun heq => heq ▸ hlater) id⟩
    · simpa [dates] using or_congr_right ih

theorem sortedDates_increasing (ds : List Date) : (sortedDates ds).Pairwise (· < ·) :=
  List.pairwise_map.mpr (latest_increasing _)

/-- Sorting keeps the dates. -/
theorem mem_sortedDates {ds : List Date} : d ∈ sortedDates ds ↔ d ∈ ds := by
  rw [sortedDates, mem_dates_latest]
  simp [dates]

/-- Dates in order do not depend on how often and in which order they were given. -/
theorem sortedDates_congr {ds ds' : List Date} (h : ∀ d, d ∈ ds ↔ d ∈ ds') :
    sortedDates ds = sortedDates ds' := by
  refine congrArg dates (eq_of_increasing (latest_increasing _) (latest_increasing _) fun p => ?_)
  have hmem (ds : List Date) : p ∈ latest (ds.map (·, ())) ↔ p.1 ∈ ds := by
    rw [← mem_sortedDates, sortedDates, mem_dates]
    exact ⟨fun hp => ⟨(), hp⟩, fun ⟨_, hp⟩ => hp⟩
  rw [hmem, hmem, h]

end IndicatorFormula.Series
