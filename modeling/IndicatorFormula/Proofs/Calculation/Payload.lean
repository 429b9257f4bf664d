import IndicatorFormula.Proofs.Calculation.Execution
import IndicatorFormula.Proofs.Calculation.Ending
import IndicatorFormula.Proofs.Evaluation.Undefined

/-!
# The numbers that a run gives out

The numbers of a payload are those of the value, in every context, and so are those of the
result that is kept. A series holds no undefined value, and neither does its latest point; so a
number that is given out is undefined only if the formula is a call of a function that adds or
divides, and is the single value of that call.
-/

namespace IndicatorFormula

open IndicatorFormula.Except

/-- The numbers of a value. -/
def Value.numbers : Value → List Float
  | .scalar x => [x]
  | .series s => s.values

namespace Document

mutual

/-- The numbers with a fraction that stand anywhere in a document. -/
def numbers : Document → List Float
  | null | bool _ | whole _ | text _ => []
  | number x => [x]
  | list items => itemNumbers items
  | record fields => fieldNumbers fields

/-- The numbers in the items of a list. -/
def itemNumbers : List Document → List Float
  | [] => []
  | item :: items => item.numbers ++ itemNumbers items

/-- The numbers in the fields of a record. -/
def fieldNumbers : List (String × Document) → List Float
  | [] => []
  | (_, content) :: fields => content.numbers ++ fieldNumbers fields

end

end Document

namespace Payload

open Document

/-- Rendered points have the numbers of the points. -/
theorem itemNumbers_of_points {context : Context} {s : Series Float} {points : List Document}
    (h : s.mapM (ofPoint context) = .ok points) : itemNumbers points = s.values := by
  induction s generalizing points with
  | nil =>
    cases h
    rfl
  | cons p s ih =>
    rw [List.mapM_cons] at h
    obtain ⟨point, hpoint, h⟩ := bind_eq_ok.mp h
    obtain ⟨rest, hrest, h⟩ := bind_eq_ok.mp h
    obtain ⟨date, -, hdate⟩ := bind_eq_ok.mp hpoint
    cases h
    cases hdate
    rw [itemNumbers, ih hrest]
    rfl

/-- A payload has the numbers of its value, however its dates are written. -/
theorem numbers_of_ofValue {type : OutputForm} {context : Context} {asOf : Option Date} {v : Value}
    {payload : Document} (h : ofValue type context asOf v = .ok payload) :
    payload.numbers = v.numbers := by
  cases v with
  | scalar x =>
    obtain ⟨date, -, hdate⟩ := bind_eq_ok.mp h
    cases hdate
    cases date <;> rfl
  | series s =>
    obtain ⟨points, hpoints, hrendered⟩ := bind_eq_ok.mp h
    cases hrendered
    simp only [numbers, fieldNumbers, itemNumbers_of_points hpoints, List.nil_append,
      List.append_nil, Value.numbers]

end Payload

/-- A number that is put out is the single number of the formula or stands in its series. -/
theorem eq_or_mem_of_conform {type : OutputForm} {w v : Value} {asOf : Option Date}
    (h : conform type w = .ok (v, asOf)) {x : Float} (hx : x ∈ v.numbers) :
    (type = .single ∧ w = .scalar x ∧ v = .scalar x) ∨ ∃ s, w = .series s ∧ x ∈ s.values := by
  cases w with
  | scalar y =>
    cases type with
    | single =>
      cases h
      obtain rfl := List.mem_singleton.mp hx
      exact .inl ⟨rfl, rfl, rfl⟩
    | series => cases h
  | series s =>
    refine .inr ⟨s, rfl, ?_⟩
    cases type with
    | single =>
      simp only [conform] at h
      split at h
      · next d y hlast =>
        cases h
        obtain rfl := List.mem_singleton.mp hx
        exact List.mem_map_of_mem (f := Prod.snd) (List.mem_of_getLast? hlast)
      · cases h
    | series =>
      cases h
      exact hx

namespace Calculation

variable {store : SeriesStore} {now : Stamp} {repository : Repository} {keep : Bool}
  {context : Context} {c : Calculation} {r : Outcome}

/-- A run that succeeds has the value of its formula over what the store delivered, and the
rendered value is what is kept. -/
theorem evaluate_of_success (hstore : store.IsSound)
    (h : (c.execute store now repository keep context).result = .ok r)
    (hr : r.state = .succeeded) :
    ∃ tree w v asOf lastResult, Formula.read c.formula = .ok tree ∧
      tree.evaluate (store.delivered context tree) context = .ok w ∧
      conform c.outputForm w = .ok (v, asOf) ∧
      Payload.ofValue c.outputForm context asOf v = .ok lastResult ∧
      r = .ofSuccess (c.updated now tree.dependencies lastResult) v asOf ∧
      (c.execute store now repository keep context).repository =
        repository.keeping keep r.calculation := by
  cases hread : Formula.read c.formula with
  | error e =>
    rw [(execute_of_read_error hread).2] at h
    cases h
    cases hr
  | ok tree =>
    have hends := Run.ofFormula_ends hstore c.outputForm context hread
    simp only [execute] at h ⊢
    generalize (Run.ofFormula store c.outputForm context c.formula).ending = ending at h hends ⊢
    cases hends with
    | @succeeded w v asOf evaluated conformed =>
      dsimp only at h ⊢
      cases hrendered : Payload.ofValue c.outputForm context asOf v with
      | error message =>
        rw [hrendered] at h
        cases h
      | ok lastResult =>
        rw [hrendered] at h
        cases h
        exact ⟨tree, w, v, asOf, lastResult, rfl, evaluated, conformed, hrendered, rfl, rfl⟩
    | failed stage e =>
      cases h
      cases hr
    | escaped evaluated untold => cases h

/-- The numbers that a run over a store in memory gives out are those of its value: in every
payload, whatever the context, and in the result of the calculation, which is the payload in the
context of the run and what is kept. One of them is undefined only if the formula is a call of a
function that adds or divides, and then it is the single value of that call. -/
theorem execute_numbers {store : MemoryStore}
    (h : (c.execute store.toStore now repository keep context).result = .ok r)
    (hr : r.state = .succeeded) :
    ∃ tree v, Formula.read c.formula = .ok tree ∧ r.value = some v ∧
      (∀ context' payload, r.payload context' = .ok payload → payload.numbers = v.numbers) ∧
      r.payload context = .ok r.calculation.lastResult ∧
      r.calculation.lastResult.numbers = v.numbers ∧
      (∀ id, keep = true → c.id = some id →
        (c.execute store.toStore now repository keep context).repository.get? id =
          some r.calculation) ∧
      ∀ x ∈ v.numbers, x.isNaN = true →
        v = .scalar x ∧ c.outputForm = .single ∧
          ∃ (g : Function) (args : List Formula) (p : Nat),
            tree = .call g.name args p ∧ g.isComputed = true := by
  obtain ⟨tree, w, v, asOf, lastResult, hread, hevaluate, hconform, hrendered, rfl, hrepository⟩ :=
    evaluate_of_success store.toStore_isSound h hr
  refine ⟨tree, v, hread, rfl, ?_, hrendered, Payload.numbers_of_ofValue hrendered, ?_, ?_⟩
  · intro context' payload hpayload
    exact Payload.numbers_of_ofValue hpayload
  · rintro id rfl hid
    rw [hrepository]
    have hframe := repository.keeping_frame true (c.updated now tree.dependencies lastResult)
    have hid' : (c.updated now tree.dependencies lastResult).id = some id := hid
    simp only [hid'] at hframe
    exact hframe.1
  · intro x hx hnan
    obtain ⟨observed, hobserved, hvalue⟩ := bind_eq_ok.mp hevaluate
    have hnumbers := Formula.isNaN_of_find?_observe hobserved
    rcases eq_or_mem_of_conform hconform hx with ⟨htype, rfl, rfl⟩ | ⟨s, rfl, hmem⟩
    · exact ⟨rfl, htype,
        Formula.isComputed_of_value (Formula.isCanonical_of_read hread) hnumbers hvalue hnan⟩
    · have hdefined := Formula.isNaN_value hnumbers hvalue x hmem
      rw [hdefined] at hnan
      cases hnan

end Calculation

namespace Boundless

open Formula

/-- An indicator with one value, which is infinite. -/
def store : MemoryStore where
  indicators := [("x", { slug := "x" })]
  points := [("x", [(⟨1⟩, 1.0 / 0.0)])]

/-- The deepest fall of the indicator. -/
def fall : Calculation :=
  { id := none, name := "Fall", slug := "fall", formula := "MAX_DRAWDOWN(x)",
    outputForm := .single, description := "", dependencies := [], lastRun := none,
    lastResult := .null }

/-- The formula of the fall. -/
def tree : Formula := call "MAX_DRAWDOWN" [indicator "x" 13] 0

/-- The fall from infinity to itself. -/
def depth : Float := Series.fallFrom (1.0 / 0.0) (1.0 / 0.0)

theorem read_fall : Formula.read fall.formula = .ok tree := by cbv

theorem isNaN_depth : depth.isNaN = true := by decide +kernel

/-- What is rendered of the fall. -/
def rendered : Document := .record [("output_type", .text "single"), ("value", .number depth)]

/-- What is observed of the indicator. -/
theorem observe_delivered :
    observe {} (store.toStore.delivered {} tree) = .ok [("x", [(⟨1⟩, 1.0 / 0.0)])] := by
  have hnumber : Arith.isNaN (1.0 / 0.0 : Float) = false := by decide +kernel
  have hx : Series.ofObservations {} (MemoryStore.observationsOf [(⟨1⟩, 1.0 / 0.0)]) =
      .ok [(⟨1⟩, 1.0 / 0.0)] := by
    rw [Series.ofObservations_of_increasing (List.pairwise_singleton _ _)
      (List.forall_mem_singleton.mpr (by decide))]
    simp [hnumber]
  exact observe_cons_eq_ok.mpr ⟨_, _, hx, rfl, rfl⟩

/-- The run of the fall succeeds. -/
theorem execute_fall :
    (fall.execute store.toStore ⟨⟨0⟩, 0, 0, none⟩ {} false {}).result =
      .ok (.ofSuccess (fall.updated ⟨⟨0⟩, 0, 0, none⟩ ["x"] rendered) (.scalar depth) none) := by
  have hevaluate : tree.evaluate (store.toStore.delivered {} tree) {} = .ok (.scalar depth) := by
    have hvalue : tree.evaluate (store.toStore.delivered {} tree) {} =
        tree.value [("x", [(⟨1⟩, 1.0 / 0.0)])] := evaluate_eq_value observe_delivered
    rw [hvalue]
    rfl
  have hdependencies : tree.dependencies = ["x"] := by rfl
  have hsurvey : (store.toStore.survey ["x"]).outcome = .ok [] := by rfl
  have hharvest : (store.toStore.harvest none none ["x"]).failure = none := by rfl
  have hconclude : Run.conclude tree .single {} (store.toStore.harvest none none ["x"]).series =
      .ok (.scalar depth, none) := by
    rw [SeriesStore.delivered, hdependencies] at hevaluate
    rw [Run.conclude, hevaluate]
    rfl
  have hending : (Run.ofFormula store.toStore fall.outputForm {} fall.formula).ending =
      .succeeded (.scalar depth) none ["x"] := by
    rw [Run.ofFormula, read_fall]
    simp only [Run.ofTree, hdependencies, hsurvey, Run.finish, hharvest]
    rw [show fall.outputForm = .single from rfl, hconclude]
  rw [Calculation.execute, hending]
  rfl

end Boundless

namespace Calculation

/-- The run of the fall succeeds, and the number that it gives out is undefined. -/
theorem execute_numbers_boundless :
    ∃ r, (Boundless.fall.execute Boundless.store.toStore ⟨⟨0⟩, 0, 0, none⟩ {} false {}).result =
        .ok r ∧ r.state = .succeeded ∧
      r.calculation.lastResult.numbers = [Boundless.depth] ∧ Boundless.depth.isNaN = true ∧
      ∃ (g : Function) (args : List Formula) (p : Nat),
        Boundless.tree = .call g.name args p ∧ g.isComputed = true := by
  obtain ⟨tree, v, hread, hvalue, -, -, hresult, -, hundefined⟩ :=
    execute_numbers Boundless.execute_fall rfl
  obtain rfl : tree = Boundless.tree := Except.ok.inj (hread.symm.trans Boundless.read_fall)
  obtain rfl : .scalar Boundless.depth = v := Option.some.inj hvalue
  obtain ⟨-, -, hcall⟩ :=
    hundefined Boundless.depth (List.mem_singleton.mpr rfl) Boundless.isNaN_depth
  exact ⟨_, Boundless.execute_fall, rfl, hresult, Boundless.isNaN_depth, hcall⟩

/-- Not every number that a run gives out is defined. -/
theorem not_execute_numbers_defined :
    ¬∀ (store : MemoryStore) (now : Stamp) (repository : Repository) (keep : Bool)
      (context : Context) (c : Calculation) (r : Outcome),
        (c.execute store.toStore now repository keep context).result = .ok r →
          r.state = .succeeded →
            (∀ payload, r.payload context = .ok payload →
              ∀ x ∈ payload.numbers, x.isNaN = false) ∧
            ∀ x ∈ r.calculation.lastResult.numbers, x.isNaN = false := by
  intro h
  have hdefined := (h _ _ _ _ _ _ _ Boundless.execute_fall rfl).2 Boundless.depth
    (List.mem_singleton.mpr rfl)
  rw [Boundless.isNaN_depth] at hdefined
  cases hdefined

end Calculation

end IndicatorFormula
