import IndicatorFormula.Calculation.Repository
import IndicatorFormula.Calculation.Slug
import IndicatorFormula.Formula.Dependencies
import IndicatorFormula.Formula.Reader
import IndicatorFormula.Text.Quoted

/-!
# The catalog

Calculations are defined, changed and removed here. A definition is accepted only if its
name, formula and type of output are in order and no other calculation has its slug; an
operation that is refused changes nothing.
-/

namespace IndicatorFormula

open Text

/-- Why an operation on the catalog is refused. -/
inductive CatalogError where
  /-- There is no name. -/
  | nameRequired
  /-- There is no formula. -/
  | formulaRequired
  /-- The type of output does not exist. -/
  | unknownOutputForm (name : String)
  /-- Nothing of the name is left in its slug. -/
  | emptySlug (name : String)
  /-- Another calculation has the slug. -/
  | takenSlug (slug : String)
  /-- There is no calculation of that number. -/
  | notFound (id : Int)
  /-- The formula cannot be read. -/
  | unreadable (e : ReadError)
  deriving DecidableEq, Repr

/-- The error in words. -/
def CatalogError.message : CatalogError → String
  | nameRequired => "Calculation name is required"
  | formulaRequired => "Calculation formula is required"
  | unknownOutputForm name => s!"Unknown output type: {name}"
  | emptySlug name => s!"Calculation name {quoted name} yields an empty slug"
  | takenSlug slug => s!"A calculation with slug {quoted slug} already exists"
  | notFound id => s!"Calculation not found: {id}"
  | unreadable e => e.message

namespace Catalog

/-- The parts of a definition that have been found in order. -/
structure Definition where
  /-- The name without blanks around it. -/
  name : String
  /-- The slug of the name. -/
  slug : String
  /-- The formula without blanks around it. -/
  formula : String
  /-- The formula as it was read. -/
  tree : Formula
  /-- The type of output. -/
  outputForm : OutputForm

/-- The formula of a text. -/
def readFormula (formula : String) : Except CatalogError Formula :=
  match Formula.read formula with
  | .ok tree => .ok tree
  | .error e => .error (.unreadable e)

/-- A type of output by its name. -/
def readOutputForm (name : String) : Except CatalogError OutputForm :=
  match OutputForm.ofName? name with
  | some t => .ok t
  | none => .error (.unknownOutputForm name)

/-- The slug of a name, which no calculation but that of the given number may have. -/
def uniqueSlug (r : Repository) (name : String) (own : Option Int) : Except CatalogError String :=
  let slug := slugOf name
  if slug = "" then .error (.emptySlug name)
  else match r.bySlug? slug with
    | some c => if c.id = own then .ok slug else .error (.takenSlug slug)
    | none => .ok slug

/-- Look over a definition. -/
def define (r : Repository) (own : Option Int) (name formula outputForm : String) :
    Except CatalogError Definition := do
  let name := trimmed name
  let formula := trimmed formula
  if name = "" then throw .nameRequired
  if formula = "" then throw .formulaRequired
  let outputForm ← readOutputForm outputForm
  let tree ← readFormula formula
  let slug ← uniqueSlug r name own
  return ⟨name, slug, formula, tree, outputForm⟩

/-- Define a new calculation. -/
def create (r : Repository) (name formula outputForm description : String) :
    Except CatalogError (Calculation × Repository) := do
  let d ← define r none name formula outputForm
  return r.add {
    id := none
    name := d.name
    slug := d.slug
    formula := d.formula
    outputForm := d.outputForm
    description := trimmed description
    dependencies := d.tree.dependencies
    lastRun := none
    lastResult := .null }

/-- The calculation of a number. -/
def get (r : Repository) (id : Int) : Except CatalogError Calculation :=
  match r.get? id with
  | some c => .ok c
  | none => .error (.notFound id)

/-- The parts of a calculation that are to change; what is not given stays. -/
structure Changes where
  /-- The new name. -/
  name : Option String := none
  /-- The new formula. -/
  formula : Option String := none
  /-- The new type of output. -/
  outputForm : Option String := none
  /-- The new description. -/
  description : Option String := none
  deriving DecidableEq, Repr

/-- Change the definition of a calculation; its latest result is kept. -/
def update (r : Repository) (id : Int) (changes : Changes) :
    Except CatalogError (Calculation × Repository) := do
  let current ← get r id
  let d ← define r (some id) (changes.name.getD current.name)
    (changes.formula.getD current.formula) (changes.outputForm.getD current.outputForm.name)
  let updated : Calculation := {
    current with
    name := d.name
    slug := d.slug
    formula := d.formula
    outputForm := d.outputForm
    description := (changes.description.map trimmed).getD current.description
    dependencies := d.tree.dependencies }
  return (updated, (r.save? updated).getD r)

/-- Remove a calculation. -/
def delete (r : Repository) (id : Int) : Except CatalogError Repository :=
  match r.get? id with
  | some _ => .ok (r.delete id)
  | none => .error (.notFound id)

end Catalog

end IndicatorFormula
