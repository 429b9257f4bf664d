import IndicatorFormula.Formula.Dependencies
import IndicatorFormula.Function.Apply
import IndicatorFormula.Proofs.Series.Failure

/-!
# What a function can do

The arguments of a function have been checked before it is applied. What is left to go
wrong lies in the data, in a text that it reads for itself and in the counts of points that
it is given; and the only indicators that it looks up are those that its text names. All the
ways in which it can fail are told once, and what holds of every failure follows from that.
-/

namespace IndicatorFormula

open IndicatorFormula.Except

/-- Whether only an evaluation can find a cause, given the indicators that are missing. -/
def Cause.IsLate (missing : String → Prop) : Cause → Prop
  | unreadable _ | notWhole _ _ _ _ | data _ => True
  | unknownIndicators slugs => ∃ slug, slugs = [slug] ∧ missing slug
  | _ => False

/-- Whether only an evaluation can find a fault, given the indicators that are missing. -/
def Fault.IsLate (missing : String → Prop) : Fault → Prop
  | reported e => e.cause.IsLate missing
  | breakdown _ => True
  | _ => False

/-- Whether a cause is that a function does not exist, that it is called with the wrong count
of arguments, or that a part of the formula is of the wrong kind. A count of points that is
not whole is none of these. -/
def Cause.isMiscall : Cause → Bool
  | notWhole _ _ _ _ => false
  | c => c.code = .unknownFunction || c.code = .arity || c.code = .type

/-- The causes that are miscalls are those of three codes, but for a number that is not whole. -/
theorem Cause.isMiscall_iff {c : Cause} :
    c.isMiscall = true ↔ (c.code = .unknownFunction ∨ c.code = .arity ∨ c.code = .type) ∧
      ∀ name index minimum got, c ≠ notWhole name index minimum got := by
  cases c with
  | notWhole name index minimum got => simp [isMiscall]
  | _ => simp [isMiscall, or_assoc]

/-- What is no wrong call and yet of the wrong kind is a count of points. -/
theorem Cause.notWhole_of_isMiscall_eq_false {c : Cause} (h : c.isMiscall = false) :
    c.code ≠ .unknownFunction ∧ c.code ≠ .arity ∧
      (c.code = .type → ∃ name index minimum got, c = notWhole name index minimum got) := by
  cases c with
  | notWhole name index minimum got => exact ⟨nofun, nofun, fun _ => ⟨_, _, _, _, rfl⟩⟩
  | _ => simpa [isMiscall, and_assoc] using h

/-- A late cause is no miscall. -/
theorem Cause.IsLate.isMiscall {missing : String → Prop} {c : Cause} (h : c.IsLate missing) :
    c.isMiscall = false := by
  cases c with
  | data e => cases hcategory : e.category <;> simp [Cause.isMiscall, code, hcategory]
  | unreadable e => rfl
  | notWhole name index minimum got => rfl
  | unknownIndicators slugs => rfl
  | _ => exact h.elim

/-- If nothing is missing no late cause tells of an unknown indicator. -/
theorem Cause.IsLate.code_ne {missing : String → Prop} {c : Cause} (h : c.IsLate missing)
    (hnone : ∀ slug, ¬missing slug) : c.code ≠ .unknownIndicator := by
  cases c with
  | data e => cases hcategory : e.category <;> simp [code, hcategory]
  | unreadable e => simp [code]
  | notWhole name index minimum got => simp [code]
  | unknownIndicators slugs =>
    obtain ⟨slug, -, hmissing⟩ := h
    exact absurd hmissing (hnone slug)
  | _ => exact h.elim

theorem Cause.code_data_ne (e : DataError) : (data e).code ≠ .parse := by
  cases hcategory : e.category <;> simp [code, hcategory]

/-- Whether a check can find a fault: a call is wrong or a part is still open. -/
def Fault.IsEarly : Fault → Prop
  | reported e => e.cause.isMiscall = true
  | openPlace | openText => True
  | _ => False

/-- A miscall tells of no unknown indicator. -/
theorem Cause.code_ne_of_isMiscall {c : Cause} (h : c.isMiscall = true) :
    c.code ≠ .unknownIndicator := by
  intro hcode
  simp [isMiscall_iff, hcode] at h

/-- What is late stays late if more is missing. -/
theorem Fault.IsLate.mono {missing missing' : String → Prop} {fault : Fault}
    (h : fault.IsLate missing) (hsub : ∀ slug, missing slug → missing' slug) :
    fault.IsLate missing' := by
  cases fault with
  | reported e =>
    simp only [Fault.IsLate] at h ⊢
    cases hcause : e.cause <;> rw [hcause] at h
    case unknownIndicators slugs =>
      obtain ⟨slug, hslugs, hmissing⟩ := h
      exact ⟨slug, hslugs, hsub slug hmissing⟩
    all_goals exact h
  | breakdown e => trivial
  | openPlace => exact h
  | openText => exact h
  | misspelled name => exact h
  | observation f => exact h

namespace Function

open Formula

/-- The slugs that a function looks up. -/
def named : (f : Function) → Arguments f.slots → List String
  | weightedIndex, (text, _) => textSlugs "WEIGHTED_INDEX" text.value text.position
  | booleanSignal, (text, _) => textSlugs "BOOLEAN_SIGNAL" text.value text.position
  | _, _ => []

/-- The function divides by a deviation that vanishes. -/
def Breaks : (f : Function) → Arguments f.slots → Prop
  | sortinoRatio, (s, rate, _) => s.value.HasVanishingShortfall rate.value
  | _, _ => False

/-- The function cannot read the text that it is given. -/
def Misreads : (f : Function) → Arguments f.slots → ReadError → Prop
  | weightedIndex, (text, _), r => Constituent.readAll text.value text.position = .error r
  | booleanSignal, (text, _), r => Condition.read text.value text.position = .error r
  | _, _, _ => False

variable {site : CallSite} {text : Placed String}

theorem textSlugs_weights {terms : List (Constituent Float)}
    (h : Constituent.readAll text.value text.position = .ok terms) :
    textSlugs "WEIGHTED_INDEX" text.value text.position = terms.map (·.slug) := by
  simp [textSlugs, h]

theorem textSlugs_condition {condition : Condition}
    (h : Condition.read text.value text.position = .ok condition) :
    textSlugs "BOOLEAN_SIGNAL" text.value text.position = [condition.slug] := by
  simp [textSlugs, h]

/-- The ways in which a function that is applied can fail. -/
inductive Fails (site : CallSite) (f : Function) (values : Arguments f.slots) : Fault → Prop
  /-- A count of points is rejected. -/
  | count {e : CalcError} {name : String} {index minimum : Nat} {got : Float}
    (cause : e.cause = .notWhole name index minimum got) : Fails site f values (.reported e)
  /-- The data do not allow the calculation. -/
  | data {e : CalcError} {d : DataError} (cause : e.cause = .data d) :
    Fails site f values (.reported e)
  /-- A deviation vanishes. -/
  | vanishing (breaks : f.Breaks values) :
    Fails site f values (.breakdown .vanishingShortfall)
  /-- A reduction is called by another name. -/
  | misspelled (other : site.name ≠ f.name) : Fails site f values (.misspelled site.name)
  /-- The text cannot be read. -/
  | text {r : ReadError} (misread : f.Misreads values r) :
    Fails site f values (.reported (.ofRead r))
  /-- An indicator that the text names cannot be looked up. -/
  | lookUp {slug : String} {position : Nat} {fault : Fault} (named : slug ∈ f.named values)
    (found : site.find slug position = .error fault) : Fails site f values fault

variable {f : Function} {values : Arguments f.slots}

/-- A foreseen failure of the data is a failure of the call. -/
theorem Fails.of_isForeseen {e : DataError} (h : e.IsForeseen) :
    Fails site f values (.ofData e) := by
  unfold Fault.ofData
  split
  · rename_i hcategory
    exact absurd hcategory h
  · exact .data rfl

/-- The check for a whole number fails as a call may. -/
theorem wholeArgument_fails {name : String} {index minimum : Nat} {x : Placed Float} :
    FailsWith (Fails site f values) (wholeArgument name index minimum x) := by
  unfold wholeArgument
  dsimp only
  split
  · exact failsWith_ite failsWith_ok (failsWith_error (.count rfl))
  · exact failsWith_error (.count rfl)

/-- A whole number that passes is at least the least one. -/
theorem minimum_le_of_wholeArgument {name : String} {index minimum n : Nat} {x : Placed Float}
    (h : wholeArgument name index minimum x = .ok n) : minimum ≤ n := by
  unfold wholeArgument at h
  split at h
  · split at h
    · cases h
      omega
    · cases h
  · cases h

/-- A reduction fails as a call may. -/
theorem reduce_fails {reduction : List Float → Float} {s : Series Float} :
    FailsWith (Fails site f values) (reduce f site reduction s) := by
  unfold reduce
  refine failsWith_ite (failsWith_error (.of_isForeseen nofun)) ?_
  split
  · rename_i hother
    exact failsWith_error (.misspelled hother)
  · exact failsWith_ok

theorem ofData_fails {β : Type} {r : Except DataError β} (h : FailsWith DataError.IsForeseen r) :
    FailsWith (Fails site f values) (ofData r) :=
  h.mapError fun _ he => .of_isForeseen he

/-- A weighted index fails as a call may. -/
theorem applyWeights_fails {values : Arguments weightedIndex.slots} :
    FailsWith (Fails site weightedIndex values) (applyWeights site values.1) := by
  refine FailsWith.bind (FailsWith.mapError (fun r hr => hr) fun r hr => .text hr)
    fun terms hterms => ?_
  have hnamed : weightedIndex.named values = terms.map (·.slug) :=
    textSlugs_weights (mapError_eq_ok.mp hterms)
  have hindex : FailsWith (Fails site weightedIndex values) (Constituent.index
      (fun e => .reported { cause := .data e, position := some values.1.position })
      (site.find · values.1.position) terms) := by
    refine Constituent.index_failsWith (fun e => .data rfl) fun term hterm fault hfault => ?_
    exact .lookUp (hnamed ▸ List.mem_map_of_mem hterm) hfault
  exact hindex.bind fun _ _ => failsWith_ok

/-- A signal fails as a call may. -/
theorem applyCondition_fails {values : Arguments booleanSignal.slots} :
    FailsWith (Fails site booleanSignal values) (applyCondition site values.1) := by
  refine FailsWith.bind (FailsWith.mapError (fun r hr => hr) fun r hr => .text hr)
    fun condition hcondition => ?_
  have hnamed : booleanSignal.named values = [condition.slug] :=
    textSlugs_condition (mapError_eq_ok.mp hcondition)
  refine FailsWith.bind (fun fault hfault => ?_) fun _ _ => failsWith_ok
  exact .lookUp (hnamed ▸ List.mem_singleton_self _) hfault

/-- A function fails in the ways that are listed. -/
theorem apply_fails : FailsWith (Fails site f values) (f.apply site values) := by
  cases f with
  | sum | avg | min | max | count =>
    simp only [apply]
    exact reduce_fails
  | roc =>
    exact wholeArgument_fails.bind
      fun n _ => (ofData_fails (Series.percentChange_failsWith n _)).map
  | momentum =>
    exact wholeArgument_fails.bind fun n _ => (ofData_fails (Series.momentum_failsWith n _)).map
  | stochasticOscillator =>
    exact wholeArgument_fails.bind
      fun n _ => (ofData_fails (Series.stochastic_failsWith n _)).map
  | rollingCorrelation =>
    refine wholeArgument_fails.bind fun n hn => ?_
    have hwindow := minimum_le_of_wholeArgument hn
    exact (ofData_fails (Series.correlateWith_failsWith (by omega) _ _)).map
  | linearRegressionSlope => exact ofData_fails (Series.fittedSlope_failsWith (α := Float) _)
  | rSquared => exact ofData_fails (Series.explainedShare_failsWith (α := Float) _)
  | sharpeRatio => exact ofData_fails (Series.sharpeRatio_failsWith (α := Float) _ _)
  | maxDrawdown => exact ofData_fails (Series.deepestFall_failsWith (α := Float) _)
  | seasonalAdjustment => exact (ofData_fails (Series.deseasonalized_failsWith _)).map
  | sortinoRatio =>
    refine (Series.sortinoRatio_failsWith (α := Float) _ _).mapError fun e he => ?_
    rcases he with he | ⟨rfl, hvanishing⟩
    · exact .of_isForeseen he
    · exact .vanishing hvanishing
  | weightedIndex => exact applyWeights_fails
  | booleanSignal => exact applyCondition_fails

/-- A function that cannot read its text fails. -/
theorem apply_of_misreads {r : ReadError} (h : f.Misreads values r) :
    f.apply site values = .error (.reported (.ofRead r)) := by
  cases f with
  | weightedIndex | booleanSignal =>
    exact bind_eq_error.mpr (.inl (mapError_eq_error.mpr ⟨r, h, rfl⟩))
  | _ => exact h.elim

/-- A function that is called by its own name fails only in ways that are late. -/
theorem isLate_of_apply {missing : String → Prop} {fault : Fault} (hname : site.name = f.name)
    (hfind : ∀ slug ∈ f.named values, ∀ position fault,
      site.find slug position = .error fault → fault.IsLate missing)
    (h : f.apply site values = .error fault) : fault.IsLate missing := by
  cases apply_fails fault h with
  | count cause | data cause =>
    simp only [Fault.IsLate, cause]
    trivial
  | vanishing breaks => trivial
  | misspelled other => exact absurd hname other
  | text misread => trivial
  | lookUp named found => exact hfind _ named _ _ found

/-- An index depends on the lookup of its own slugs only. -/
theorem index_congr (fault : DataError → Fault)
    (find find' : String → Except Fault (Series Float)) {terms : List (Constituent Float)}
    (h : ∀ t ∈ terms, find t.slug = find' t.slug) :
    Constituent.index fault find terms = Constituent.index fault find' terms := by
  unfold Constituent.index
  rw [Except.mapM_congr (g := fun t => do return (t.slug, ← find' t.slug))
    fun t ht => by rw [h t ht]]

/-- A function sees no other indicators than those that it looks up. -/
theorem apply_congr {f : Function} {args : Arguments f.slots} {name : String}
    {find find' : String → Nat → Except Fault (Series Float)}
    (h : ∀ slug ∈ f.named args, find slug = find' slug) :
    f.apply ⟨name, find⟩ args = f.apply ⟨name, find'⟩ args := by
  cases f with
  | weightedIndex =>
    obtain ⟨text, rest⟩ := args
    simp only [apply, applyWeights]
    cases hterms : Constituent.readAll text.value text.position with
    | error e => rfl
    | ok terms =>
      simp only [named, textSlugs_weights hterms, List.forall_mem_map] at h
      exact congrArg (fun r => r >>= fun s => return s.finite)
        (index_congr _ (find · text.position) (find' · text.position)
          fun t ht => congrFun (h t ht) text.position)
  | booleanSignal =>
    obtain ⟨text, rest⟩ := args
    simp only [apply, applyCondition]
    cases hcondition : Condition.read text.value text.position with
    | error e => rfl
    | ok condition =>
      have hslug := h condition.slug (by simp [named, textSlugs_condition hcondition])
      exact congrArg (fun r => r text.position >>= fun s =>
        return (condition.comparison.signal condition.threshold s).finite) hslug
  | _ => rfl

/-- A function that gives a value has found everything that it looks up. -/
theorem exists_find_of_apply_eq_ok {f : Function} {args : Arguments f.slots}
    {x : f.returns.Carrier} (h : f.apply site args = .ok x) :
    ∀ slug ∈ f.named args, ∃ position s, site.find slug position = .ok s := by
  cases f with
  | weightedIndex =>
    obtain ⟨text, rest⟩ := args
    obtain ⟨terms, hterms, h⟩ := Except.bind_eq_ok.mp h
    obtain ⟨index, h, -⟩ := Except.bind_eq_ok.mp h
    simp only [named, textSlugs_weights (Except.mapError_eq_ok.mp hterms), List.forall_mem_map]
    intro t ht
    unfold Constituent.index at h
    split at h
    · cases h
    · obtain ⟨family, hfamily, -⟩ := Except.bind_eq_ok.mp h
      obtain ⟨entry, hentry⟩ := Except.ok_of_mapM_eq_ok hfamily t ht
      obtain ⟨s, hs, -⟩ := Except.bind_eq_ok.mp hentry
      exact ⟨text.position, s, hs⟩
  | booleanSignal =>
    obtain ⟨text, rest⟩ := args
    obtain ⟨condition, hcondition, h⟩ := Except.bind_eq_ok.mp h
    obtain ⟨s, hs, -⟩ := Except.bind_eq_ok.mp h
    simp only [named, textSlugs_condition (Except.mapError_eq_ok.mp hcondition),
      List.forall_mem_singleton]
    exact ⟨text.position, s, hs⟩
  | _ =>
    intro slug hslug
    simp [named] at hslug

end Function

end IndicatorFormula
