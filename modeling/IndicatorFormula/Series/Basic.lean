import IndicatorFormula.Arith
import IndicatorFormula.Calendar.Date

/-!
# Series

A series is a row of dated values. The calculations keep the dates in increasing order,
but nothing here depends on it: values are used in the order in which they stand.
-/

namespace IndicatorFormula

/-- Dated values. -/
abbrev Series (α : Type) := List (Date × α)

namespace Series

variable {α : Type}

/-- The values without their dates. -/
def values (s : Series α) : List α := s.map Prod.snd

/-- The dates without their values. -/
def dates (s : Series α) : List Date := s.map Prod.fst

/-- The most recent observation. -/
def last? (s : Series α) : Option (Date × α) := s.getLast?

/-- The observations from one date to another, both included; a missing bound is open. -/
def between (first last : Option Date) (s : Series α) : Series α :=
  s.filter fun p => first.all (· ≤ p.1) && last.all (p.1 ≤ ·)

/-- The points whose value is defined. -/
def present (s : Series (Option α)) : Series α := s.filterMap fun p => p.2.map (p.1, ·)

/-- The points whose value is a finite number. -/
def finite [Arith α] (s : Series α) : Series α := s.filter fun p => Arith.isFinite p.2

/-- The points whose date no later point has. -/
def withoutReplaced : Series α → Series α
  | [] => []
  | p :: rest => if p.1 ∈ dates rest then withoutReplaced rest else p :: withoutReplaced rest

/-- Put a point in its place by date, unless its date is there already. -/
def insertAbsent (p : Date × α) : Series α → Series α
  | [] => [p]
  | q :: rest =>
    if p.1 < q.1 then p :: q :: rest
    else if p.1 = q.1 then q :: rest
    else q :: insertAbsent p rest

/-- Points in date order, one for each date: the last one given. -/
def latest (points : List (Date × α)) : Series α := points.foldr insertAbsent []

/-- The dates that occur, in increasing order. -/
def sortedDates (ds : List Date) : List Date := (latest (ds.map (·, ()))).dates

/-- Every date of a longer series comes from the series or is that of the new point. -/
theorem mem_insertAbsent {p x : Date × α} {s : Series α} (h : x ∈ insertAbsent p s) :
    x = p ∨ x ∈ s := by
  induction s with
  | nil => simpa [insertAbsent] using h
  | cons q rest ih =>
    unfold insertAbsent at h
    split at h
    · simpa using h
    · split at h
      · exact .inr h
      · rcases List.mem_cons.mp h with rfl | h
        · exact .inr (List.mem_cons_self ..)
        · exact (ih h).imp_right (List.mem_cons_of_mem q)

/-- Putting a point in its place keeps the dates strictly increasing. -/
theorem insertAbsent_increasing {p : Date × α} {s : Series α}
    (h : s.Pairwise fun a b => a.1 < b.1) : (insertAbsent p s).Pairwise fun a b => a.1 < b.1 := by
  induction s with
  | nil => simp [insertAbsent]
  | cons q rest ih =>
    obtain ⟨hq, hrest⟩ := List.pairwise_cons.mp h
    unfold insertAbsent
    split
    · rename_i hlt
      refine List.pairwise_cons.mpr ⟨?_, h⟩
      intro x hx
      rcases List.mem_cons.mp hx with rfl | hx
      · exact hlt
      · exact Int.lt_trans hlt (hq x hx)
    · split
      · exact h
      · rename_i hlt hne
        refine List.pairwise_cons.mpr ⟨?_, ih hrest⟩
        intro x hx
        rcases mem_insertAbsent hx with rfl | hx
        · rcases Date.lt_trichotomy x.1 q.1 with h1 | h1 | h1
          · exact absurd h1 hlt
          · exact absurd h1 hne
          · exact h1
        · exact hq x hx

/-- The dates of collected points strictly increase. -/
theorem latest_increasing (points : List (Date × α)) :
    (latest points).Pairwise fun a b => a.1 < b.1 := by
  induction points with
  | nil => exact List.Pairwise.nil
  | cons p rest ih => exact insertAbsent_increasing ih

end Series

end IndicatorFormula
