import IndicatorFormula.Proofs.Function.Call

/-!
# What the error of a function names

A function that fails names no function but itself and no place but that of an argument. The one
exception is a text that it cannot read, of which the error tells where it goes wrong. What such
an error leaves open is filled in when it is told of the call.
-/

namespace IndicatorFormula

open IndicatorFormula.Except

/-- Where the arguments in a row stand. -/
def Arguments.places : (ks : List Slot) → Arguments ks → List Nat
  | [], _ => []
  | _ :: ks, values => values.1.position :: places ks values.2

/-- An error is not of reading, and names at most one function and some places. -/
structure CalcError.IsConfined (name : String) (places : List Nat) (e : CalcError) : Prop where
  /-- It is no error of reading. -/
  beyond : e.code ≠ .parse
  /-- It names no other function. -/
  function : ∀ other, e.function = some other → other = name
  /-- It names no other place. -/
  position : ∀ p, e.position = some p → p ∈ places

namespace Function

/-- The ways in which a function can fail, as to what the error names. -/
inductive Blames (site : CallSite) (f : Function) (values : Arguments f.slots) : Fault → Prop
  /-- The function itself and an argument, at most. -/
  | confined {e : CalcError} (confined : e.IsConfined site.name (Arguments.places f.slots values)) :
    Blames site f values (.reported e)
  /-- The text that the function cannot read. -/
  | text {r : ReadError} (misread : f.Misreads values r) :
    Blames site f values (.reported (.ofRead r))
  /-- Nothing, as the fault is not told to the user. -/
  | untold {fault : Fault} (untold : ∀ e, fault ≠ .reported e) : Blames site f values fault

variable {site : CallSite} {f : Function} {values : Arguments f.slots}

/-- A failure of the data blames a part of the call. -/
theorem blames_ofData (e : DataError) : Blames site f values (.ofData e) := by
  unfold Fault.ofData
  split
  · exact .untold fun _ h => nomatch h
  · exact .confined ⟨Cause.code_data_ne e, nofun, nofun⟩

theorem ofData_blames {β : Type} {r : Except DataError β} :
    FailsWith (Blames site f values) (ofData r) :=
  FailsWith.mapError (fun _ he => he) fun e _ => blames_ofData e

/-- What names the function and one of its arguments is confined to them. -/
theorem Blames.of_argument {e : CalcError} {p : Nat} (hcode : e.code ≠ .parse)
    (hfunction : e.function = some site.name) (hposition : e.position = some p)
    (hp : p ∈ Arguments.places f.slots values) : Blames site f values (.reported e) := by
  refine .confined ⟨hcode, fun other h => ?_, fun q h => ?_⟩
  · exact Option.some.inj (h.symm.trans hfunction)
  · exact Option.some.inj (h.symm.trans hposition) ▸ hp

/-- An argument that is not whole is blamed at its own place. -/
theorem wholeArgument_blames {index minimum : Nat} {x : Placed Float}
    (hx : x.position ∈ Arguments.places f.slots values) :
    FailsWith (Blames site f values) (wholeArgument site.name index minimum x) := by
  unfold wholeArgument
  dsimp only
  split
  · exact failsWith_ite failsWith_ok (failsWith_error (.of_argument nofun rfl rfl hx))
  · exact failsWith_error (.of_argument nofun rfl rfl hx)

/-- A reduction blames a part of the call. -/
theorem reduce_blames {reduction : List Float → Float} {s : Series Float} :
    FailsWith (Blames site f values) (reduce f site reduction s) := by
  unfold reduce
  refine failsWith_ite (failsWith_error (blames_ofData _)) ?_
  exact failsWith_ite (failsWith_error (.untold fun _ h => nomatch h)) failsWith_ok

/-- A weighted index blames a part of the call, if its lookups do. -/
theorem applyWeights_blames {values : Arguments weightedIndex.slots}
    (hfind : ∀ slug, ∀ p ∈ Arguments.places weightedIndex.slots values,
      FailsWith (Blames site weightedIndex values) (site.find slug p)) :
    FailsWith (Blames site weightedIndex values) (applyWeights site values.1) := by
  have hplace : values.1.position ∈ Arguments.places weightedIndex.slots values :=
    List.mem_cons_self ..
  refine FailsWith.bind (FailsWith.mapError (fun r hr => hr) fun r hr => .text hr)
    fun terms _ => ?_
  have hindex : FailsWith (Blames site weightedIndex values) (Constituent.index
      (fun e => .reported { cause := .data e, position := some values.1.position })
      (site.find · values.1.position) terms) := by
    refine Constituent.index_failsWith (fun e => .confined ⟨?_, nofun, ?_⟩)
      fun term _ => hfind term.slug values.1.position hplace
    · exact Cause.code_data_ne e
    · exact fun p hp => Option.some.inj hp ▸ hplace
  exact hindex.bind fun _ _ => failsWith_ok

/-- A signal blames a part of the call, if its lookup does. -/
theorem applyCondition_blames {values : Arguments booleanSignal.slots}
    (hfind : ∀ slug, ∀ p ∈ Arguments.places booleanSignal.slots values,
      FailsWith (Blames site booleanSignal values) (site.find slug p)) :
    FailsWith (Blames site booleanSignal values) (applyCondition site values.1) := by
  refine FailsWith.bind (FailsWith.mapError (fun r hr => hr) fun r hr => .text hr)
    fun condition _ => ?_
  have hfound := hfind condition.slug values.1.position (List.mem_cons_self ..)
  exact hfound.bind fun _ _ => failsWith_ok

/-- A function names in an error itself and its arguments at most, if the look-up of indicators
does, unless it is about the text that it cannot read. -/
theorem apply_blames (hfind : ∀ slug, ∀ p ∈ Arguments.places f.slots values,
      FailsWith (Blames site f values) (site.find slug p)) :
    FailsWith (Blames site f values) (f.apply site values) := by
  cases f with
  | sum | avg | min | max | count =>
    simp only [apply]
    exact reduce_blames
  | roc | momentum | stochasticOscillator =>
    exact (wholeArgument_blames (List.mem_cons_of_mem _ (List.mem_cons_self ..))).bind
      fun _ _ => ofData_blames.map
  | rollingCorrelation =>
    have hthird : values.2.2.1.position ∈ Arguments.places rollingCorrelation.slots values :=
      List.mem_cons_of_mem _ (List.mem_cons_of_mem _ (List.mem_cons_self ..))
    exact (wholeArgument_blames hthird).bind fun _ _ => ofData_blames.map
  | seasonalAdjustment => exact ofData_blames.map
  | linearRegressionSlope | rSquared | sharpeRatio | sortinoRatio | maxDrawdown =>
    exact ofData_blames
  | weightedIndex => exact applyWeights_blames hfind
  | booleanSignal => exact applyCondition_blames hfind

end Function

end IndicatorFormula
