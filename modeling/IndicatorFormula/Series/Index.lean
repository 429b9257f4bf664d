import IndicatorFormula.Series.Basic

/-!
# Indexes of dates

Points are put into the order of their dates by an index. Of its order only so much is promised:
dates do not decrease, points that stand in date order stay as they are, and among few points
those of one date keep the order in which they were given. Among many points they need not.
-/

namespace IndicatorFormula

/-- An index of dates: the dates that it can hold, and the order in which it puts points. -/
structure DateIndex where
  /-- Whether the index can hold a date. -/
  holds : Date → Bool
  /-- The places of points with the given dates, in the order in which the points come to
  stand. -/
  order : List Date → List Nat
  /-- Every place occurs once. -/
  order_perm (ds : List Date) : (order ds).Perm (List.range ds.length)
  /-- Dates do not decrease. -/
  order_ascends (ds : List Date) :
    (order ds).Pairwise fun i j => ∀ d e, ds[i]? = some d → ds[j]? = some e → d ≤ e
  /-- Points that stand in date order stay as they are. -/
  order_of_sorted (ds : List Date) (sorted : ds.Pairwise (· ≤ ·)) :
    order ds = List.range ds.length
  /-- Up to sixteen points keep the given order where they have one date. -/
  order_of_short (ds : List Date) (short : ds.length ≤ 16) :
    (order ds).Pairwise fun i j => ds[i]? = ds[j]? → i < j

variable {α : Type}

/-- Points in the order in which an index puts them. -/
def DateIndex.arranged (index : DateIndex) (points : Series α) : Series α :=
  (index.order points.dates).filterMap (points[·]?)

/-- Points in date order, one for each date: the one that an index puts last. -/
def Series.collected (index : DateIndex) (points : Series α) : Series α :=
  (index.arranged points).withoutReplaced

end IndicatorFormula
