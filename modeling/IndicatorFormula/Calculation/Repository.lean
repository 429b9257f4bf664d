import IndicatorFormula.Calculation.Basic
import IndicatorFormula.Table

/-!
# The repository

Calculations are kept under numbers that are given out in turn and never given out again.
Saving under a number that is known replaces what was there, in its place.
-/

namespace IndicatorFormula

/-- The calculations that are kept. -/
structure Repository where
  /-- The calculations by number, in the order in which they came. -/
  entries : Table Int Calculation := []
  /-- The next number to be given out. -/
  nextId : Int := 1
  deriving Repr

/-- The words for a calculation that cannot be saved. -/
def saveNeedsId : String := "Cannot save a calculation without an id"

namespace Repository

/-- Keep a new calculation under the next number. -/
def add (r : Repository) (c : Calculation) : Calculation × Repository :=
  let stored := { c with id := some r.nextId }
  (stored, ⟨r.entries.put r.nextId stored, r.nextId + 1⟩)

/-- Replace the calculation with the same number; one without a number cannot be saved. -/
def save? (r : Repository) (c : Calculation) : Option Repository :=
  c.id.map fun id => { r with entries := r.entries.put id c }

/-- The calculation of a number. -/
def get? (r : Repository) (id : Int) : Option Calculation := r.entries.find? id

/-- The first calculation with a slug. -/
def bySlug? (r : Repository) (slug : String) : Option Calculation :=
  (r.entries.map Prod.snd).find? fun c => c.slug = slug

/-- The repository without the calculation of a number. -/
def delete (r : Repository) (id : Int) : Repository := { r with entries := r.entries.erase id }

/-- The calculations in the order of their names; those of one name as they came. -/
def sorted (r : Repository) : List Calculation :=
  (r.entries.map Prod.snd).mergeSort fun a b => a.name ≤ b.name

/-- A deleted number has no calculation, and nothing else changes. -/
theorem get?_delete (r : Repository) (id k : Int) :
    (r.delete id).get? k = if k = id then none else r.get? k :=
  Table.find?_erase id k r.entries

end Repository

end IndicatorFormula
