import IndicatorFormula.Proofs.Calculation.Catalog
import IndicatorFormula.Proofs.Effect

/-!
# The operations of the catalog step by step

An operation looks a definition over, partly with the help of the repository, and writes. Step by
step it may be interrupted anywhere, and what it has written by then stays written. It is refused
only before its first write, or, when a calculation is removed, because there is nothing to be
removed. So it comes down to what the catalog gives in one go.
-/

namespace IndicatorFormula

open Text

namespace Catalog

/-- Why an operation halts. -/
inductive Halt where
  /-- It is refused. -/
  | refused (e : CatalogError)
  /-- A calculation without a number is to be saved. -/
  | unsaved
  deriving DecidableEq, Repr

/-- An operation on a repository, in steps. -/
abbrev Operation (α : Type) := Effect Repository Halt α

/-- The calculation of a number, if there is one. -/
def finding (id : Int) : Operation (Option Calculation) := do
  let r ← getThe Repository
  return r.get? id

/-- The first calculation with a slug, if there is one. -/
def findingSlug (slug : String) : Operation (Option Calculation) := do
  let r ← getThe Repository
  return r.bySlug? slug

/-- Keep a new calculation. -/
def adding (c : Calculation) : Operation Calculation := do
  let r ← getThe Repository
  set (r.add c).2
  return (r.add c).1

/-- Replace the calculation with the same number. -/
def saving (c : Calculation) : Operation Unit := do
  let r ← getThe Repository
  match r.save? c with
  | some r' => set r'
  | none => throw .unsaved

/-- Take the calculation of a number out, and tell whether there was one. -/
def removing (id : Int) : Operation Bool := do
  let r ← getThe Repository
  set (r.delete id)
  return (r.get? id).isSome

/-- A step that only looks at what it is given. -/
def checking {α : Type} : Except CatalogError α → Operation α
  | .ok a => return a
  | .error e => throw (.refused e)

/-- The calculation of a number. -/
def getting (id : Int) : Operation Calculation := do
  match ← finding id with
  | some c => return c
  | none => throw (.refused (.notFound id))

/-- Look over the slug of a name. -/
def claiming (own : Option Int) (name : String) : Operation String := do
  let slug := slugOf name
  if slug = "" then throw (.refused (.emptySlug name))
  match ← findingSlug slug with
  | some c => if c.id = own then return slug else throw (.refused (.takenSlug slug))
  | none => return slug

/-- Look over a definition. The formula is read twice: to see whether it can be read, and for the
indicators on which it depends. -/
def examining (own : Option Int) (name formula outputForm : String) : Operation Definition := do
  let name := trimmed name
  let formula := trimmed formula
  if name = "" then throw (.refused .nameRequired)
  if formula = "" then throw (.refused .formulaRequired)
  let outputForm ← checking (readOutputForm outputForm)
  let _ ← checking (readFormula formula)
  let slug ← claiming own name
  let tree ← checking (readFormula formula)
  return ⟨name, slug, formula, tree, outputForm⟩

/-- A calculation with an accepted definition that has not run. -/
def Definition.unrun (d : Definition) (description : String) : Calculation where
  id := none
  name := d.name
  slug := d.slug
  formula := d.formula
  outputForm := d.outputForm
  description := trimmed description
  dependencies := d.tree.dependencies
  lastRun := none
  lastResult := .null

/-- A calculation with another definition. What came of its latest run stays. -/
def Definition.inPlaceOf (d : Definition) (current : Calculation) (changes : Changes) :
    Calculation :=
  { current with
    name := d.name
    slug := d.slug
    formula := d.formula
    outputForm := d.outputForm
    description := (changes.description.map trimmed).getD current.description
    dependencies := d.tree.dependencies }

/-- Define a new calculation. -/
def creating (name formula outputForm description : String) : Operation Calculation := do
  let d ← examining none name formula outputForm
  adding (d.unrun description)

/-- Change the definition of a calculation. -/
def updating (id : Int) (changes : Changes) : Operation Calculation := do
  let current ← getting id
  let d ← examining (some id) (changes.name.getD current.name)
    (changes.formula.getD current.formula) (changes.outputForm.getD current.outputForm.name)
  saving (d.inPlaceOf current changes)
  return d.inPlaceOf current changes

/-- Remove a calculation. It is taken out before anything is said about it. -/
def deleting (id : Int) : Operation Unit := do
  let found ← removing id
  if found then return () else throw (.refused (.notFound id))

section Steps

open Effect

variable {r : Repository} {α β : Type}

@[simp]
theorem on_finding (id : Int) : on (finding id) r = (.ok (r.get? id), r) := rfl

@[simp]
theorem on_findingSlug (slug : String) : on (findingSlug slug) r = (.ok (r.bySlug? slug), r) := rfl

@[simp]
theorem on_adding (c : Calculation) : on (adding c) r = (.ok (r.add c).1, (r.add c).2) := rfl

@[simp]
theorem on_removing (id : Int) : on (removing id) r = (.ok (r.get? id).isSome, r.delete id) := rfl

/-- Saving puts a calculation in the place of its number. -/
theorem on_saving {c : Calculation} {id : Int} (hid : c.id = some id) :
    on (saving c) r = (.ok (), r.replaced id c) := by
  have hsave : r.save? c = some (r.replaced id c) := by
    rw [Repository.save?, hid]
    rfl
  simp [saving, getThe, hsave]

/-- In steps, an operation comes to the answer of a look at the repository and writes nothing. -/
def Tells (op : Operation α) (r : Repository) (x : Except CatalogError α) : Prop :=
  on op r = (x.mapError .refused, r)

theorem tells_pure (a : α) : Tells (pure a) r (pure a) := rfl

theorem tells_throw (e : CatalogError) : Tells (throw (.refused e) : Operation α) r (throw e) := rfl

theorem tells_checking (x : Except CatalogError α) : Tells (checking x) r x := by
  cases x <;> rfl

/-- What follows an operation that succeeds goes on with what it found. -/
theorem Tells.on_bind_ok {op : Operation α} {a : α} (h : Tells op r (.ok a))
    (f : α → Operation β) : on (op >>= f) r = on (f a) r := by
  rw [Effect.on_bind, h]
  rfl

/-- What follows an operation that fails is not done. -/
theorem Tells.on_bind_error {op : Operation α} {e : CatalogError} (h : Tells op r (.error e))
    (f : α → Operation β) : on (op >>= f) r = (.error (.refused e), r) := by
  rw [Effect.on_bind, h]
  rfl

/-- What follows looks on with the answer; after a refusal nothing follows. -/
theorem Tells.bind {op : Operation α} {x : Except CatalogError α} (h : Tells op r x)
    {f : α → Operation β} {g : α → Except CatalogError β}
    (hnext : ∀ a, x = .ok a → Tells (f a) r (g a)) : Tells (op >>= f) r (x >>= g) := by
  cases x with
  | error e => exact h.on_bind_error f
  | ok a => exact (h.on_bind_ok f).trans (hnext a rfl)

/-- Getting tells whether there is a calculation. -/
theorem tells_getting (id : Int) : Tells (getting id) r (get r id) := by
  unfold Tells
  cases hc : r.get? id <;> simp [getting, Catalog.get, hc, Except.mapError]

/-- Claiming tells whether a slug is free. -/
theorem tells_claiming (own : Option Int) (name : String) :
    Tells (claiming own name) r (uniqueSlug r name own) := by
  unfold Tells
  by_cases hempty : slugOf name = ""
  · simp [claiming, uniqueSlug, hempty, Except.mapError]
  · cases hfound : r.bySlug? (slugOf name) with
    | none => simp [claiming, uniqueSlug, hempty, hfound, Except.mapError]
    | some c =>
      by_cases hown : c.id = own <;>
        simp [claiming, uniqueSlug, hempty, hfound, hown, Except.mapError]

/-- A definition is looked over without a write. That the formula is read again makes no
difference, for it is the same formula. -/
theorem tells_examining (own : Option Int) (name formula form : String) :
    Tells (examining own name formula form) r (define r own name formula form) := by
  unfold examining define
  by_cases hname : trimmed name = ""
  · simp only [if_pos hname]
    exact (tells_throw _).bind nofun
  · by_cases hformula : trimmed formula = ""
    · simp only [if_neg hname, if_pos hformula]
      exact (tells_throw _).bind nofun
    · simp only [if_neg hname, if_neg hformula]
      refine (tells_checking _).bind fun outputForm _ => ?_
      refine (tells_checking _).bind fun tree htree => ?_
      refine (tells_claiming own _).bind fun slug _ => ?_
      rw [htree]
      exact tells_pure _

end Steps

section Operations

open Effect

variable {r : Repository}

/-- What an operation in one go amounts to: its answer with the repository that it leaves, or a
refusal with the repository as it was. -/
def outcome {α : Type} (r : Repository) :
    Except CatalogError (α × Repository) → Except Halt α × Repository
  | .ok (a, r') => (.ok a, r')
  | .error e => (.error (.refused e), r)

/-- In steps a calculation is defined as it is in one go. -/
theorem on_creating (name formula form description : String) :
    on (creating name formula form description) r =
      outcome r (create r name formula form description) := by
  have hexamining := tells_examining (r := r) none name formula form
  unfold creating create
  cases hd : define r none name formula form with
  | error e =>
    rw [hd] at hexamining
    exact hexamining.on_bind_error _
  | ok d =>
    rw [hd] at hexamining
    exact hexamining.on_bind_ok _

/-- An update whose definition is accepted is kept in the place of what was kept. -/
theorem update_of_define {id : Int} {current : Calculation} {d : Definition} (changes : Changes)
    (hcurrent : get r id = .ok current) (hid : current.id = some id)
    (hd : define r (some id) (changes.name.getD current.name)
      (changes.formula.getD current.formula) (changes.outputForm.getD current.outputForm.name) =
        .ok d) :
    update r id changes =
      .ok (d.inPlaceOf current changes, r.replaced id (d.inPlaceOf current changes)) := by
  have hid' : (d.inPlaceOf current changes).id = some id := hid
  unfold update
  rw [hcurrent, ← Repository.getD_save? hid']
  simp only [bind, Except.bind, hd]
  rfl

/-- In steps a calculation is changed as it is in one go, if it is kept under its own number. -/
theorem on_updating (id : Int) (hown : ∀ c, r.get? id = some c → c.id = some id)
    (changes : Changes) :
    on (updating id changes) r = outcome r (update r id changes) := by
  have hgetting := tells_getting (r := r) id
  unfold updating
  cases hcurrent : get r id with
  | error e =>
    rw [hcurrent] at hgetting
    rw [hgetting.on_bind_error, update, hcurrent]
    rfl
  | ok current =>
    rw [hcurrent] at hgetting
    rw [hgetting.on_bind_ok]
    have hid : current.id = some id := hown current (get_eq_ok_iff.mp hcurrent)
    have hexamining := tells_examining (r := r) (some id) (changes.name.getD current.name)
      (changes.formula.getD current.formula) (changes.outputForm.getD current.outputForm.name)
    cases hd : define r (some id) (changes.name.getD current.name)
      (changes.formula.getD current.formula) (changes.outputForm.getD current.outputForm.name) with
    | error e =>
      rw [hd] at hexamining
      rw [hexamining.on_bind_error, update, hcurrent]
      simp only [bind, Except.bind, hd, outcome]
    | ok d =>
      have hid' : (d.inPlaceOf current changes).id = some id := hid
      rw [hd] at hexamining
      rw [hexamining.on_bind_ok, Effect.on_bind, on_saving hid',
        update_of_define changes hcurrent hid hd]
      rfl

/-- In steps a calculation is removed as it is in one go: when nothing is found, nothing has been
taken out. -/
theorem on_deleting (id : Int) :
    on (deleting id) r = outcome r ((delete r id).map fun r' => ((), r')) := by
  cases hc : r.get? id with
  | some c => simp [deleting, delete, hc, outcome, Except.map]
  | none => 
    have hnothing : r.delete id = r := by
      rw [Repository.delete, Table.erase_of_find?_eq_none hc]
    simp [deleting, delete, hc, outcome, Except.map, hnothing]

end Operations

end Catalog

end IndicatorFormula
