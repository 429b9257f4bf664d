import IndicatorFormula.Series.Basic
import IndicatorFormula.Series.DataError

/-!
# Trailing windows

Calculations that look at a fixed count of points up to and including each point: changes
over some periods, the range of a window and the place of a value within it. Nothing here
looks at a later point.
-/

namespace IndicatorFormula.Series

variable {α : Type}

/-- Values moved to places further on, or further back if the count is negative. -/
def shifted (periods : Int) (xs : List α) : List (Option α) :=
  let missing := List.replicate (min periods.natAbs xs.length) none
  if 0 ≤ periods then missing ++ (xs.take (xs.length - periods.natAbs)).map some
  else (xs.drop periods.natAbs).map some ++ missing

/-- At each date the value that stands some points earlier. -/
def lag (periods : Int) (s : Series α) : Series (Option α) :=
  s.dates.zip (shifted periods s.values)

/-- Each point together with the value that stands some points earlier. -/
def withBase (periods : Nat) (s : Series α) : List ((Date × α) × α) :=
  (s.drop periods).zip s.values

/-- All runs of a given length, from the first to the last. -/
def windows (n : Nat) (xs : List α) : List (List α) :=
  (List.range (xs.length + 1 - n)).map fun i => (xs.drop i).take n

@[simp] theorem length_windows (n : Nat) (xs : List α) :
    (windows n xs).length = xs.length + 1 - n := by simp [windows]

/-- Every window has the length that was asked for. -/
theorem length_of_mem_windows {n : Nat} {xs w : List α} (hn : n ≤ xs.length)
    (h : w ∈ windows n xs) : w.length = n := by
  simp only [windows, List.mem_map, List.mem_range] at h
  obtain ⟨i, hi, rfl⟩ := h
  simp
  omega

theorem windows_map {β : Type} (f : α → β) (n : Nat) (xs : List α) :
    windows n (xs.map f) = (windows n xs).map (List.map f) := by
  simp [windows, List.map_drop, List.map_take]

/-- Each point behind those that fill the first window ends one. -/
theorem length_drop_eq_length_windows {β : Type} (f : α → β) {n : Nat} (hn : 0 < n)
    (xs : List α) : (xs.drop (n - 1)).length = (windows n (xs.map f)).length := by
  rw [List.length_drop, length_windows, List.length_map]
  omega

variable [Arith α]

/-- The difference to the value some points earlier. -/
def momentum (periods : Nat) (s : Series α) : Except DataError (Series α) :=
  if s.length ≤ periods then .error (.needsMore periods s.length)
  else .ok ((withBase periods s).map fun p => (p.1.1, p.1.2 - p.2))

/-- A change relative to its base. -/
def relativeChange (current base : α) : α := (current - base) / base

/-- The points with a base other than zero, each with its relative change. -/
def relativeChanges (periods : Nat) (s : Series α) : Series α :=
  ((withBase periods s).filter fun p => !Arith.isZero p.2).map fun p =>
    (p.1.1, relativeChange p.1.2 p.2)

/-- The change in percent of the value some points earlier. -/
def percentChange (periods : Nat) (s : Series α) : Except DataError (Series α) :=
  if s.length ≤ periods then .error (.needsMore periods s.length)
  else match relativeChanges periods s with
    | [] => .error .zeroBases
    | changes => .ok (changes.map fun p => (p.1, p.2 * Arith.hundred))

/-- The smallest value of a window, unless some value is not finite. -/
def lowest? (window : List α) : Option α :=
  if window.all Arith.isFinite then Arith.minimum? window else none

/-- The largest value of a window, unless some value is not finite. -/
def highest? (window : List α) : Option α :=
  if window.all Arith.isFinite then Arith.maximum? window else none

/-- At each date what is found in the window that ends there, undefined until the first
window is full. -/
def trailing {β : Type} (find : List α → Option β) (n : Nat) (s : Series α) :
    Series (Option β) :=
  s.dates.zip
    (List.replicate (min (n - 1) s.length) none ++ (windows n s.values).map find)

/-- The smallest value of each trailing window. -/
def windowMinimum (n : Nat) (s : Series α) : Series (Option α) := trailing lowest? n s

/-- The largest value of each trailing window. -/
def windowMaximum (n : Nat) (s : Series α) : Series (Option α) := trailing highest? n s

/-- The place of a value between the smallest and the largest of its window, from 0 to 100;
in a window without a range it is the middle. -/
def placeWithin (window : List α) (x : α) : Option α := do
  let low ← lowest? window
  let high ← highest? window
  if Arith.isZero (high - low) then some (Arith.ofNat 50)
  else some ((x - low) / (high - low) * Arith.hundred)

/-- The points that end a window; if windows have no points, the last point alone. -/
def windowEnds (n : Nat) (s : Series α) : Series α :=
  s.drop (if n = 0 then s.length - 1 else n - 1)

/-- The place of each value within the trailing window that ends with it. -/
def stochastic (n : Nat) (s : Series α) : Except DataError (Series (Option α)) :=
  if s.length < n then .error (.needsWindow n s.length)
  else .ok (((windowEnds n s).zip (windows n s.values)).map fun p =>
    (p.1.1, placeWithin p.2 p.1.2))

end IndicatorFormula.Series
