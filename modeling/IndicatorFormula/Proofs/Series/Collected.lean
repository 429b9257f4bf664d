import Mathlib
import IndicatorFormula.Proofs.Series.Latest
import IndicatorFormula.Series.QuickSort

/-!
# Points in an index

An index puts points in the order of their dates, and of each date the point is kept that comes
to stand last. That need not be the point that was given last. It is where the index keeps the
order of the points of one date: where they stand in date order or where there are few of them.
Where points of one date are the same their order does not matter.
-/

namespace IndicatorFormula

variable {α : Type} {index : DateIndex} {points points' : Series α} {p : Date × α} {d : Date}

namespace DateIndex

/-- The points at all places are all points. -/
private theorem filterMap_range_getElem? (points : Series α) :
    (List.range points.length).filterMap (points[·]?) = points := by
  induction points with
  | nil => rfl
  | cons p rest ih =>
    have hfirst : (p :: rest)[0]? = some p := rfl
    rw [List.length_cons, List.range_succ_eq_map, List.filterMap_cons_some hfirst,
      List.filterMap_map]
    exact congrArg (p :: ·) ih

/-- An index rearranges points and loses none. -/
theorem arranged_perm (index : DateIndex) (points : Series α) :
    (index.arranged points).Perm points := by
  have hperm := (index.order_perm points.dates).filterMap (points[·]?)
  rwa [Series.dates, List.length_map, filterMap_range_getElem?] at hperm

/-- Points come to stand in the order of their dates. -/
theorem arranged_ascends (index : DateIndex) (points : Series α) :
    (index.arranged points).Pairwise fun p q => p.1 ≤ q.1 := by
  refine List.pairwise_filterMap.mpr ((index.order_ascends points.dates).imp ?_)
  intro i j hle p hp q hq
  refine hle p.1 q.1 ?_ ?_
  · rw [Series.dates, List.getElem?_map, hp, Option.map_some]
  · rw [Series.dates, List.getElem?_map, hq, Option.map_some]

/-- An index keeps the order in which points with the given dates stand among those of their
date. -/
def KeepsOrder (index : DateIndex) (ds : List Date) : Prop :=
  (index.order ds).Pairwise fun i j => ds[i]? = ds[j]? → i < j

/-- Points that stand in date order keep their order. -/
theorem keepsOrder_of_sorted {ds : List Date} (h : ds.Pairwise (· ≤ ·)) : index.KeepsOrder ds := by
  rw [KeepsOrder, index.order_of_sorted ds h]
  refine List.pairwise_lt_range.imp ?_
  exact fun hlt _ => hlt

/-- The points of one date that stand at some places. -/
private theorem filter_filterMap_getElem? (places : List Nat) (points : Series α) (d : Date) :
    (places.filterMap (points[·]?)).filter (fun p => p.1 = d) =
      (places.filter fun i => points.dates[i]? = some d).filterMap (points[·]?) := by
  rw [List.filter_filterMap, List.filterMap_filter]
  refine List.filterMap_congr fun i _ => ?_
  rw [Series.dates, List.getElem?_map]
  cases points[i]? with
  | none => rfl
  | some p => by_cases h : p.1 = d <;> simp [h]

/-- Where an index keeps the order the points of each date stand as they were given. -/
theorem filter_arranged (h : index.KeepsOrder points.dates) (d : Date) :
    (index.arranged points).filter (fun p => p.1 = d) = points.filter fun p => p.1 = d := by
  have hplaces : (index.order points.dates).filter (fun i => points.dates[i]? = some d) =
      (List.range points.length).filter fun i => points.dates[i]? = some d := by
    have hperm := (index.order_perm points.dates).filter fun i => points.dates[i]? = some d
    rw [Series.dates, List.length_map] at hperm
    refine hperm.eq_of_pairwise (fun i j _ _ hij hji => absurd hij (Nat.lt_asymm hji)) ?_
      (List.pairwise_lt_range.sublist List.filter_sublist)
    refine (h.sublist List.filter_sublist).imp_of_mem fun {i j} hi hj hlt => hlt ?_
    have hi := of_decide_eq_true (List.mem_filter.mp hi).2
    have hj := of_decide_eq_true (List.mem_filter.mp hj).2
    exact hi.trans hj.symm
  rw [arranged, filter_filterMap_getElem?, hplaces, ← filter_filterMap_getElem?,
    filterMap_range_getElem?]

end DateIndex

namespace Series

/-- The dates of what is collected strictly increase. -/
theorem collected_increasing (index : DateIndex) (points : Series α) :
    (collected index points).Pairwise fun p q => p.1 < q.1 := by
  have hle := (index.arranged_ascends points).sublist (withoutReplaced_sublist _)
  have hne := List.pairwise_map.mp (nodup_dates_withoutReplaced (index.arranged points))
  refine (hle.and hne).imp fun {p q} hpq => ?_
  exact Int.lt_iff_le_and_ne.mpr ⟨hpq.1, fun heq => hpq.2 (Date.ext_ordinal heq)⟩

/-- A point is collected just when it comes to stand last of its date. -/
theorem mem_collected_iff :
    p ∈ collected index points ↔
      ((index.arranged points).filter fun q => q.1 = p.1).getLast? = some p :=
  mem_withoutReplaced_iff

/-- What is collected was given. -/
theorem mem_of_mem_collected (h : p ∈ collected index points) : p ∈ points :=
  (index.arranged_perm points).mem_iff.mp ((withoutReplaced_sublist _).subset h)

/-- The dates of what is collected are those of the points. -/
theorem mem_dates_collected : d ∈ (collected index points).dates ↔ d ∈ points.dates := by
  rw [collected, mem_dates_withoutReplaced]
  exact ((index.arranged_perm points).map Prod.fst).mem_iff

/-- An index that keeps the order of points collects the last that was given of each date. -/
theorem collected_of_keepsOrder (h : index.KeepsOrder points.dates) :
    collected index points = latest points := by
  refine eq_of_increasing (collected_increasing index points) (latest_increasing points) fun p => ?_
  rw [mem_collected_iff, DateIndex.filter_arranged h, mem_latest_iff]

/-- What any index collects of points does not depend on how it orders those of one date: they
stand in date order, there are few of them, or those of one date are the same. -/
def IsSettled (points : Series α) : Prop :=
  points.Pairwise (fun p q => p.1 ≤ q.1) ∨ points.length ≤ 16 ∨
    ∀ p ∈ points, ∀ q ∈ points, p.1 = q.1 → p = q

/-- Fewer points are settled as well. -/
theorem IsSettled.sublist (h : IsSettled points) (hsublist : points'.Sublist points) :
    IsSettled points' := by
  rcases h with hsorted | hshort | hsame
  · exact .inl (hsorted.sublist hsublist)
  · exact .inr (.inl (Nat.le_trans hsublist.length_le hshort))
  · exact .inr (.inr fun p hp q hq =>
      hsame p (hsublist.subset hp) q (hsublist.subset hq))

/-- Of points of which those of one date are the same every one is the last of its date. -/
private theorem getLast?_filter_date (h : ∀ p ∈ points, ∀ q ∈ points, p.1 = q.1 → p = q) :
    (points.filter fun q => q.1 = p.1).getLast? = some p ↔ p ∈ points := by
  refine ⟨fun hlast => (List.mem_filter.mp (List.mem_of_getLast? hlast)).1, fun hp => ?_⟩
  have hmem : p ∈ points.filter fun q => q.1 = p.1 := List.mem_filter.mpr ⟨hp, by simp⟩
  obtain ⟨q, hq⟩ := Option.ne_none_iff_exists'.mp
    (mt List.getLast?_eq_none_iff.mp (List.ne_nil_of_mem hmem))
  obtain ⟨hq', hdate⟩ := List.mem_filter.mp (List.mem_of_getLast? hq)
  rw [hq, h q hq' p hp (of_decide_eq_true hdate)]

/-- Of settled points every index collects the last that was given of each date. -/
theorem collected_of_isSettled (index : DateIndex) (h : IsSettled points) :
    collected index points = latest points := by
  rcases h with hsorted | hshort | hsame
  · exact collected_of_keepsOrder (DateIndex.keepsOrder_of_sorted (List.pairwise_map.mpr hsorted))
  · refine collected_of_keepsOrder (index.order_of_short points.dates ?_)
    rwa [dates, List.length_map]
  · have hperm := index.arranged_perm points
    refine eq_of_increasing (collected_increasing index points) (latest_increasing points)
      fun p => ?_
    rw [mem_collected_iff, mem_latest_iff, getLast?_filter_date hsame,
      getLast?_filter_date fun p hp q hq => hsame p (hperm.mem_iff.mp hp) q (hperm.mem_iff.mp hq)]
    exact hperm.mem_iff

/-- Sixteen points of the first day, behind one of the second. -/
def crowd : Series Float :=
  (⟨2⟩, 0.0) :: [1.0, 2.0, 3.0, 4.0, 5.0, 6.0, 7.0, 8.0, 9.0, 10.0, 11.0, 12.0, 13.0, 14.0, 15.0,
    16.0].map (⟨1⟩, ·)

/-- The last point of the first day is kept. -/
theorem collected_crowd : collected .quick crowd = [(⟨1⟩, 16.0), (⟨2⟩, 0.0)] := by
  have horder : DateIndex.quick.order crowd.dates =
      [1, 2, 3, 4, 5, 6, 7, 8, 9, 10, 11, 12, 13, 14, 15, 16, 0] := by
    change QuickSort.order (⟨2⟩ :: List.replicate 16 ⟨1⟩) = _
    cbv
  rw [collected, DateIndex.arranged, horder]
  rfl

/-- The points with one of the third day. -/
def crowdAndLater : Series Float := crowd ++ [(⟨3⟩, 17.0)]

set_option maxRecDepth 4096 in
/-- The point of the third day makes the index divide the points, and then another point of the
first day is kept. -/
theorem collected_crowdAndLater :
    collected .quick crowdAndLater = [(⟨1⟩, 15.0), (⟨2⟩, 0.0), (⟨3⟩, 17.0)] := by
  have horder : DateIndex.quick.order crowdAndLater.dates =
      [8, 1, 2, 3, 4, 5, 6, 7, 16, 9, 10, 11, 12, 13, 14, 15, 0, 17] := by
    change QuickSort.order (⟨2⟩ :: List.replicate 16 ⟨1⟩ ++ [⟨3⟩]) = _
    cbv
  rw [collected, DateIndex.arranged, horder]
  rfl

/-- Points with strictly increasing dates are collected as they are. -/
theorem collected_of_increasing (h : points.Pairwise fun p q => p.1 < q.1) :
    collected index points = points := by
  have hsorted : points.Pairwise fun p q => p.1 ≤ q.1 := h.imp Date.le_of_lt
  rw [collected_of_isSettled index (.inl hsorted), latest_of_increasing h]

end Series

end IndicatorFormula
