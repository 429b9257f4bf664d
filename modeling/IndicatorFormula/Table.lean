/-!
# Tables

A table holds one value for each of its keys and remembers in which order the keys came.
Putting a value under a key that is there already leaves the key in its place.
-/

namespace IndicatorFormula

/-- Keys with their values, in the order in which the keys came. -/
abbrev Table (κ β : Type) := List (κ × β)

namespace Table

variable {κ β : Type} [DecidableEq κ]

/-- The value of a key. -/
def find? (k : κ) : Table κ β → Option β
  | [] => none
  | (key, value) :: rest => if key = k then some value else find? k rest

/-- Give a key its value, in its place if it has one and at the end if not. -/
def put (k : κ) (v : β) : Table κ β → Table κ β
  | [] => [(k, v)]
  | (key, value) :: rest => if key = k then (k, v) :: rest else (key, value) :: put k v rest

/-- The table without a key. -/
def erase (k : κ) (t : Table κ β) : Table κ β := t.filter fun e => e.1 ≠ k

/-- The table of some entries; of two values for one key the later counts. -/
def ofEntries (entries : List (κ × β)) : Table κ β := entries.foldl (fun t e => put e.1 e.2 t) []

/-- The key that was put has its new value, and every other key what it had. -/
theorem find?_put (k k' : κ) (v : β) (t : Table κ β) :
    (put k v t).find? k' = if k' = k then some v else t.find? k' := by
  induction t with
  | nil => grind [put, find?]
  | cons e rest ih => grind [put, find?]

/-- An erased key has no value, and every other key what it had. -/
theorem find?_erase (k k' : κ) (t : Table κ β) :
    (erase k t).find? k' = if k' = k then none else t.find? k' := by
  induction t with
  | nil => simp [erase, find?]
  | cons e rest ih =>
    unfold erase at ih ⊢
    grind [find?]

end Table

end IndicatorFormula
