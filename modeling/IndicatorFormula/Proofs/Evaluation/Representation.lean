import IndicatorFormula.Proofs.Decimal.Bits
import IndicatorFormula.Proofs.Evaluation.Agreement
import IndicatorFormula.Proofs.Evaluation.Arguments
import IndicatorFormula.Proofs.Formula.Parts
import IndicatorFormula.Proofs.Series.Dates
import IndicatorFormula.Proofs.Series.Observation
import IndicatorFormula.Proofs.Table

/-!
# The series that an evaluation makes

Every series that a formula or one of its parts has is in the order of its dates, has no date
twice and holds numbers only, and none of its dates is made up: something was observed on that
date for an indicator on which the part depends. The induction is over the formula. What it
carries is where the dates come from; that values are numbers is seen to wherever a series is
made, of observations or by a call.
-/

namespace IndicatorFormula

open IndicatorFormula.Except

namespace Series

variable {α : Type} {allowed allowed' : Date → Prop} {s t : Series α}

/-- The dates of a series are in order, and each of them is allowed. -/
structure StandsAt (allowed : Date → Prop) (s : Series α) : Prop where
  /-- The dates are in strict order. -/
  increasing : s.dates.Pairwise (· < ·)
  /-- Each date is allowed. -/
  allowed : ∀ d ∈ s.dates, allowed d

theorem StandsAt.sublist (h : s.StandsAt allowed) (hdates : t.dates.Sublist s.dates) :
    t.StandsAt allowed where
  increasing := h.increasing.sublist hdates
  allowed d hd := h.allowed d (hdates.subset hd)

theorem StandsAt.mono (h : s.StandsAt allowed) (hallowed : ∀ d, allowed d → allowed' d) :
    s.StandsAt allowed' where
  increasing := h.increasing
  allowed d hd := hallowed d (h.allowed d hd)

theorem StandsAt.finite [Arith α] (h : s.StandsAt allowed) : s.finite.StandsAt allowed :=
  h.sublist (dates_finite_sublist s)

/-- Among the finite values every value is finite. -/
theorem isFinite_of_mem_finite {s : Series Float} {x : Float} (h : x ∈ s.finite.values) :
    x.isFinite = true := by
  obtain ⟨p, hp, rfl⟩ := List.mem_map.mp h
  exact (List.mem_filter.mp hp).2

variable {context : Context} {os : List (Observation α)}

/-- The series of some observations stands in order at dates of these observations. -/
theorem standsAt_ofObservations [Arith α] (h : ofObservations context os = .ok s) :
    s.StandsAt fun d => ∃ o ∈ os, localDate context o.stamp = .ok d := by
  obtain ⟨-, -, -, rfl⟩ := ofObservations_eq_ok_iff.mp h
  have hcollected : (collected context.index (os.filterMap (point? context))).StandsAt
      fun d => ∃ o ∈ os, localDate context o.stamp = .ok d := by
    refine ⟨List.pairwise_map.mpr (collected_increasing _ _), ?_⟩
    intro d hd
    obtain ⟨p, hp, rfl⟩ := List.mem_map.mp hd
    obtain ⟨o, ho, hpoint⟩ := List.mem_filterMap.mp (mem_of_mem_collected hp)
    exact ⟨o, ho, (point?_eq_some_iff.mp hpoint).1⟩
  exact hcollected.sublist (List.filter_sublist.map Prod.fst)

/-- The series of some observations holds no undefined value. -/
theorem isNaN_of_mem_ofObservations [Arith α] (h : ofObservations context os = .ok s) :
    ∀ x ∈ s.values, Arith.isNaN x = false := by
  obtain ⟨-, -, -, rfl⟩ := ofObservations_eq_ok_iff.mp h
  intro x hx
  obtain ⟨p, hp, rfl⟩ := List.mem_map.mp hx
  simpa using (List.mem_filter.mp hp).2

end Series

namespace Function

variable {allowed : Date → Prop} {site : CallSite} {s : Series Float}

/-- A result that drops undefined points stands where its argument does. -/
private theorem standsAt_of_ofPoints {r : Except DataError (Series (Option Float))}
    (hr : ∀ t, r = .ok t → t.dates.Sublist s.dates) (hs : s.StandsAt allowed)
    {t : Series Float} (h : ofPoints r = .ok t) : t.StandsAt allowed := by
  obtain ⟨points, hpoints, rfl⟩ := map_eq_ok.mp h
  have hdates := hr points (mapError_eq_ok.mp hpoints)
  exact hs.sublist ((Series.dates_cleaned_sublist points).trans hdates)

/-- A result that drops values which are not finite stands where its argument does. -/
private theorem standsAt_of_finite {r : Except DataError (Series Float)}
    (hr : ∀ t, r = .ok t → t.StandsAt allowed) {t : Series Float}
    (h : (ofData r).map Series.finite = .ok t) : t.StandsAt allowed := by
  obtain ⟨points, hpoints, rfl⟩ := map_eq_ok.mp h
  exact (hr points (mapError_eq_ok.mp hpoints)).finite

/-- A weighted index stands in order at dates that all series of its text have; there is at
least one. -/
theorem dates_applyWeights {text : Placed String} {t : Series Float}
    (h : applyWeights site text = .ok t) :
    ∃ terms, Constituent.readAll text.value text.position = .ok terms ∧ terms ≠ [] ∧
      t.dates.Pairwise (· < ·) ∧
      ∀ term ∈ terms, ∃ s, site.find term.slug text.position = .ok s ∧
        ∀ d ∈ t.dates, d ∈ s.dates := by
  obtain ⟨terms, hterms, h⟩ := bind_eq_ok.mp h
  obtain ⟨index, hindex, h⟩ := bind_eq_ok.mp h
  cases h
  obtain ⟨hincreasing, hne, hfound⟩ := Constituent.dates_index hindex
  have hdates := Series.dates_finite_sublist index
  refine ⟨terms, mapError_eq_ok.mp hterms, hne, hincreasing.sublist hdates, ?_⟩
  intro term hterm
  obtain ⟨s, hs, hsub⟩ := hfound term hterm
  exact ⟨s, hs, fun d hd => hsub d (hdates.subset hd)⟩

/-- A rolling correlation stands at dates that both series have. -/
theorem dates_apply_rollingCorrelation {values : Arguments rollingCorrelation.slots}
    {t : Series Float} (h : rollingCorrelation.apply site values = .ok t) :
    ∀ s ∈ Arguments.series _ values, ∀ d ∈ t.dates, d ∈ s.dates := by
  obtain ⟨left, right, n, _⟩ := values
  obtain ⟨window, -, h⟩ := bind_eq_ok.mp h
  obtain ⟨points, hpoints, rfl⟩ := map_eq_ok.mp h
  obtain ⟨-, hboth⟩ := Series.dates_correlateWith (mapError_eq_ok.mp hpoints)
  have hdates := (Series.dates_finite_sublist points).subset
  intro s hs d hd
  obtain ⟨hleft, hright⟩ := hboth d (hdates hd)
  rcases List.mem_cons.mp hs with rfl | hs
  · exact hleft
  · obtain rfl := List.mem_singleton.mp hs
    exact hright

/-- The series that a function gives stands at dates of the series that it was given or has
looked up. -/
theorem standsAt_apply {f : Function} {values : Arguments f.slots} {x : f.returns.Carrier}
    (hvalues : ∀ s ∈ Arguments.series f.slots values, s.StandsAt allowed)
    (hfind : ∀ slug ∈ f.named values, ∀ position s,
      site.find slug position = .ok s → s.StandsAt allowed)
    (h : f.apply site values = .ok x) {t : Series Float} (hx : Value.of f.returns x = .series t) :
    t.StandsAt allowed := by
  cases f with
  | roc =>
    cases hx
    obtain ⟨s, n, _⟩ := values
    obtain ⟨periods, -, h⟩ := bind_eq_ok.mp h
    have hs := hvalues s.value (List.mem_singleton.mpr rfl)
    exact standsAt_of_finite (fun t ht => hs.sublist (Series.dates_percentChange_sublist ht)) h
  | momentum =>
    cases hx
    obtain ⟨s, n, _⟩ := values
    obtain ⟨periods, -, h⟩ := bind_eq_ok.mp h
    have hs := hvalues s.value (List.mem_singleton.mpr rfl)
    exact standsAt_of_finite (fun t ht => hs.sublist (Series.dates_momentum_sublist ht)) h
  | stochasticOscillator =>
    cases hx
    obtain ⟨s, n, _⟩ := values
    obtain ⟨window, -, h⟩ := bind_eq_ok.mp h
    have hs := hvalues s.value (List.mem_singleton.mpr rfl)
    exact standsAt_of_ofPoints (fun t ht => Series.dates_stochastic_sublist ht) hs h
  | seasonalAdjustment =>
    cases hx
    obtain ⟨s, _⟩ := values
    have hs := hvalues s.value (List.mem_singleton.mpr rfl)
    exact standsAt_of_ofPoints
      (fun t ht => by rw [Series.dates_deseasonalized ht]) hs h
  | rollingCorrelation =>
    cases hx
    have hdates := dates_apply_rollingCorrelation h
    obtain ⟨left, right, n, _⟩ := values
    obtain ⟨window, -, h⟩ := bind_eq_ok.mp h
    obtain ⟨points, hpoints, rfl⟩ := map_eq_ok.mp h
    obtain ⟨hincreasing, -⟩ := Series.dates_correlateWith (mapError_eq_ok.mp hpoints)
    have hleft : left.value ∈ Arguments.series rollingCorrelation.slots (left, right, n, ()) :=
      List.mem_cons_self ..
    refine ⟨hincreasing.sublist (Series.dates_finite_sublist points), ?_⟩
    intro d hd
    exact (hvalues _ hleft).allowed d (hdates _ hleft d hd)
  | weightedIndex =>
    cases hx
    obtain ⟨text, _⟩ := values
    obtain ⟨terms, hterms, hne, hincreasing, hfound⟩ := dates_applyWeights h
    obtain ⟨term, hterm⟩ := List.exists_mem_of_ne_nil terms hne
    obtain ⟨s, hs, hsub⟩ := hfound term hterm
    have hslug : term.slug ∈ weightedIndex.named (text, ()) := by
      rw [named, textSlugs_weights hterms]
      exact List.mem_map_of_mem hterm
    exact ⟨hincreasing, fun d hd => (hfind _ hslug _ s hs).allowed d (hsub d hd)⟩
  | booleanSignal =>
    cases hx
    obtain ⟨text, _⟩ := values
    obtain ⟨condition, hcondition, h⟩ := bind_eq_ok.mp h
    obtain ⟨s, hs, h⟩ := bind_eq_ok.mp h
    cases h
    have hslug : condition.slug ∈ booleanSignal.named (text, ()) := by
      rw [named, textSlugs_condition (mapError_eq_ok.mp hcondition)]
      exact List.mem_singleton.mpr rfl
    refine ((hfind _ hslug _ s hs).sublist ?_).finite
    rw [Series.dates_signal]
  | _ => cases hx

/-- The series that a function gives holds finite numbers only. -/
theorem isFinite_apply {f : Function} {values : Arguments f.slots} {x : f.returns.Carrier}
    (h : f.apply site values = .ok x) {t : Series Float} (hx : Value.of f.returns x = .series t) :
    ∀ y ∈ t.values, y.isFinite = true := by
  suffices hfinite : ∃ s : Series Float, t = s.finite by
    obtain ⟨s, rfl⟩ := hfinite
    exact fun y hy => Series.isFinite_of_mem_finite hy
  cases f with
  | roc | momentum | rollingCorrelation =>
    cases hx
    obtain ⟨n, -, h⟩ := bind_eq_ok.mp h
    obtain ⟨s, -, rfl⟩ := map_eq_ok.mp h
    exact ⟨s, rfl⟩
  | stochasticOscillator =>
    cases hx
    obtain ⟨n, -, h⟩ := bind_eq_ok.mp h
    obtain ⟨s, -, rfl⟩ := map_eq_ok.mp h
    exact ⟨s.present, rfl⟩
  | seasonalAdjustment =>
    cases hx
    obtain ⟨s, -, rfl⟩ := map_eq_ok.mp h
    exact ⟨s.present, rfl⟩
  | weightedIndex | booleanSignal =>
    cases hx
    obtain ⟨read, -, h⟩ := bind_eq_ok.mp h
    obtain ⟨s, -, h⟩ := bind_eq_ok.mp h
    cases h
    exact ⟨_, rfl⟩
  | _ => cases hx

end Function

namespace Formula

/-- The functions that read a text are called by their own names, as in all that is read.
Under another spelling such a call still has a value, but no slugs are collected for it. -/
def NamesTexts (f : Formula) : Prop :=
  ∀ name args position h, call name args position ∈ f.parts → Function.ofName? name = some h →
    .text ∈ h.slots → name = h.name

/-- If a call gives texts to functions by their own names only, so does every argument. -/
theorem NamesTexts.of_call {name : String} {args : List Formula} {position : Nat}
    (h : (call name args position).NamesTexts) {arg : Formula} (harg : arg ∈ args) :
    arg.NamesTexts := by
  intro name' args' position' f hpart
  exact h name' args' position' f (mem_parts_call.mpr (.inr ⟨arg, harg, hpart⟩))

/-- A canonical formula gives texts to functions by their own names only. -/
theorem namesTexts_of_isCanonical {f : Formula} (h : f.isCanonical = true) : f.NamesTexts := by
  intro name args position function hpart hfunction _
  obtain ⟨hname, -⟩ := isCanonical_call_iff.mp (isCanonical_of_mem_parts h hpart)
  exact name_eq_of_ofName? hname hfunction

variable {observed : Observed}

/-- A date at which an indicator has a point, and the formula depends on the indicator. -/
def HasDate (observed : Observed) (f : Formula) (d : Date) : Prop :=
  ∃ slug s, observed.find? slug = some s ∧ d ∈ s.dates ∧ (f.NamesTexts → slug ∈ f.slugs)

/-- A date of an argument is a date of the call. -/
theorem HasDate.of_arg {name : String} {args : List Formula} {position : Nat} {arg : Formula}
    {d : Date} (harg : arg ∈ args) (h : HasDate observed arg d) :
    HasDate observed (call name args position) d := by
  obtain ⟨slug, s, hs, hd, hslug⟩ := h
  exact ⟨slug, s, hs, hd, fun hnames => mem_argSlugs harg (hslug (hnames.of_call harg))⟩

/-- A slug that resolves is among what was observed. -/
theorem find?_of_resolve {slug : String} {position : Nat} {s : Series Float}
    (h : resolve observed slug position = .ok s) : observed.find? slug = some s := by
  unfold resolve at h
  split at h
  · next hs =>
    cases h
    exact hs
  · cases h

/-- What a function looks up is collected if the function is called by its own name. -/
theorem mem_argSlugs_of_named {name slug : String} {f : Function} {args : List Formula}
    {position : Nat} {values : Arguments f.slots} (hfunction : Function.ofName? name = some f)
    (hlength : args.length = f.arity)
    (hvalues : arguments observed f position 0 f.slots args = .ok values)
    (hslug : slug ∈ f.named values) (hnames : (call name args position).NamesTexts) :
    slug ∈ argSlugs name args := by
  have htext : Slot.text ∈ f.slots := by
    cases f with
    | weightedIndex | booleanSignal => exact List.mem_singleton.mpr rfl
    | _ => cases hslug
  obtain rfl := hnames name args position f (mem_parts_self _) hfunction htext
  rw [argSlugs_eq hlength hvalues]
  exact List.mem_append_left _ hslug

/-- A series that a formula has stands in order at dates of its indicators. -/
theorem standsAt_value
    (hobserved : ∀ slug s, observed.find? slug = some s → s.dates.Pairwise (· < ·))
    {f : Formula} {s : Series Float} (h : f.value observed = .ok (.series s)) :
    s.StandsAt (HasDate observed f) := by
  induction f using Formula.induction generalizing s with
  | number x p => cases h
  | literal content p => cases h
  | indicator slug p =>
    obtain ⟨t, ht, hs⟩ := map_eq_ok.mp h
    cases hs
    have hfound := find?_of_resolve ht
    exact ⟨hobserved slug s hfound,
      fun d hd => ⟨slug, s, hfound, hd, fun _ => List.mem_singleton.mpr rfl⟩⟩
  | call name args p ih =>
    obtain ⟨f, values, x, hfunction, hlength, hvalues, hgive, hx, hs⟩ := value_call_inv h
    refine Function.standsAt_apply ?_ ?_ hx hs.symm
    · intro t ht
      obtain ⟨arg, harg, hvalue⟩ := hgive.mem_series.mp ht
      exact (ih arg harg hvalue).mono fun d hd => hd.of_arg harg
    · intro slug hslug position t ht
      have hfound := find?_of_resolve ht
      exact ⟨hobserved slug t hfound, fun d hd => ⟨slug, t, hfound, hd,
        mem_argSlugs_of_named hfunction hlength hvalues hslug⟩⟩
  | hole => cases h

/-- What a call gives is finite. -/
theorem isFinite_value {name : String} {args : List Formula} {position : Nat} {s : Series Float}
    (h : (call name args position).value observed = .ok (.series s)) :
    ∀ x ∈ s.values, x.isFinite = true := by
  obtain ⟨f, values, x, -, -, -, -, hx, hs⟩ := value_call_inv h
  exact Function.isFinite_apply hx hs.symm

/-- What a formula gives holds numbers if what was observed does. -/
theorem isNaN_value
    (hobserved : ∀ slug s, observed.find? slug = some s → ∀ x ∈ s.values, x.isNaN = false)
    {f : Formula} {s : Series Float} (h : f.value observed = .ok (.series s)) :
    ∀ x ∈ s.values, x.isNaN = false := by
  cases f with
  | indicator slug p =>
    obtain ⟨t, ht, hs⟩ := map_eq_ok.mp h
    cases hs
    exact hobserved slug s (find?_of_resolve ht)
  | call name args p =>
    exact fun x hx => Decimal.isNaN_eq_false_of_isFinite (isFinite_value h x hx)
  | _ => cases h

variable {context : Context} {fetched : Table String (List (Observation Float))}

/-- What was observed of a slug is the series of what was fetched. -/
theorem exists_of_find?_observe (h : observe context fetched = .ok observed) {slug : String}
    {s : Series Float} (hs : observed.find? slug = some s) :
    ∃ os, fetched.find? slug = some os ∧ Series.ofObservations context os = .ok s := by
  rw [find?_observe h] at hs
  obtain ⟨os, hos, hs⟩ := Option.bind_eq_some_iff.mp hs
  cases hseries : Series.ofObservations context os with
  | error e => simp [hseries, Except.toOption] at hs
  | ok t => exact ⟨os, hos, by simpa [hseries, Except.toOption] using hs⟩

/-- The series of an indicator holds numbers. -/
theorem isNaN_of_find?_observe (h : observe context fetched = .ok observed) (slug : String)
    (s : Series Float) (hs : observed.find? slug = some s) : ∀ x ∈ s.values, x.isNaN = false := by
  obtain ⟨os, -, hseries⟩ := exists_of_find?_observe h hs
  exact Series.isNaN_of_mem_ofObservations hseries

/-- The dates of a rolling correlation are dates of both arguments. -/
theorem dates_rollingCorrelation {name : String} {args : List Formula} {p : Nat}
    {s : Series Float} (hfunction : Function.ofName? name = some .rollingCorrelation)
    (h : (call name args p).value observed = .ok (.series s)) :
    ∀ arg ∈ args, ∀ t, arg.value observed = .ok (.series t) → ∀ d ∈ s.dates, d ∈ t.dates := by
  obtain ⟨f, values, x, hf, -, -, hgive, hx, hs⟩ := value_call_inv h
  obtain rfl : f = .rollingCorrelation := Option.some.inj (hf.symm.trans hfunction)
  cases hs
  intro arg harg t ht
  exact Function.dates_apply_rollingCorrelation hx t (hgive.mem_series.mpr ⟨arg, harg, ht⟩)

/-- The dates of a weighted index are dates of every constituent. -/
theorem dates_weightedIndex {name : String} {args : List Formula} {p : Nat} {s : Series Float}
    (hfunction : Function.ofName? name = some .weightedIndex)
    (h : (call name args p).value observed = .ok (.series s)) :
    ∃ content position terms, args = [literal content position] ∧
      Constituent.readAll content position = .ok terms ∧
      ∀ term ∈ terms, ∃ t, observed.find? term.slug = some t ∧ ∀ d ∈ s.dates, d ∈ t.dates := by
  obtain ⟨f, values, x, hf, hlength, -, hgive, hx, hs⟩ := value_call_inv h
  obtain rfl : f = .weightedIndex := Option.some.inj (hf.symm.trans hfunction)
  cases hs
  obtain ⟨text, _⟩ := values
  obtain ⟨arg, rfl⟩ := List.length_eq_one_iff.mp hlength
  obtain ⟨rfl, -⟩ := hgive
  obtain ⟨terms, hterms, -, -, hfound⟩ := Function.dates_applyWeights hx
  refine ⟨text.value, text.position, terms, rfl, hterms, ?_⟩
  intro term hterm
  obtain ⟨t, ht, hdates⟩ := hfound term hterm
  exact ⟨t, find?_of_resolve ht, hdates⟩

/-- A series that a formula has over fetched observations is well made. -/
structure IsWellMade (context : Context) (fetched : Table String (List (Observation Float)))
    (observed : Observed) (f : Formula) (s : Series Float) : Prop where
  /-- The dates are in strict order. -/
  increasing : s.dates.Pairwise (· < ·)
  /-- The values are numbers. -/
  defined : ∀ x ∈ s.values, x.isNaN = false
  /-- On each date something was observed for an indicator on which the formula depends. -/
  dated : ∀ d ∈ s.dates, ∃ slug os, fetched.find? slug = some os ∧
    (∃ o ∈ os, Series.localDate context o.stamp = .ok d) ∧ (f.NamesTexts → slug ∈ f.dependencies)
  /-- What a call gives is finite. -/
  finite : ∀ name args p, f = call name args p → ∀ x ∈ s.values, x.isFinite = true
  /-- A rolling correlation has dates of both series only. -/
  correlated : ∀ name args p, f = call name args p →
    Function.ofName? name = some .rollingCorrelation →
      ∀ arg ∈ args, ∀ t, arg.value observed = .ok (.series t) → ∀ d ∈ s.dates, d ∈ t.dates
  /-- A weighted index has dates of all its series only. -/
  weighted : ∀ name args p, f = call name args p →
    Function.ofName? name = some .weightedIndex →
      ∃ content position terms, args = [literal content position] ∧
        Constituent.readAll content position = .ok terms ∧
        ∀ term ∈ terms, ∃ t, observed.find? term.slug = some t ∧ ∀ d ∈ s.dates, d ∈ t.dates

/-- Every series that a formula gives is well made. -/
theorem isWellMade_of_value (hobserved : observe context fetched = .ok observed) {f : Formula}
    {s : Series Float} (h : f.value observed = .ok (.series s)) :
    IsWellMade context fetched observed f s := by
  have hstands : s.StandsAt (HasDate observed f) := by
    refine standsAt_value ?_ h
    intro slug t ht
    obtain ⟨os, -, hseries⟩ := exists_of_find?_observe hobserved ht
    exact (Series.standsAt_ofObservations hseries).increasing
  constructor
  case increasing => exact hstands.increasing
  case defined => exact isNaN_value (isNaN_of_find?_observe hobserved) h
  case dated =>
    intro d hd
    obtain ⟨slug, t, ht, hmem, hslug⟩ := hstands.allowed d hd
    obtain ⟨os, hos, hseries⟩ := exists_of_find?_observe hobserved ht
    exact ⟨slug, os, hos, (Series.standsAt_ofObservations hseries).allowed d hmem,
      fun hnames => Slugs.mem_ofList.mpr (hslug hnames)⟩
  case finite =>
    rintro name args p rfl
    exact isFinite_value h
  case correlated =>
    rintro name args p rfl hfunction
    exact dates_rollingCorrelation hfunction h
  case weighted =>
    rintro name args p rfl hfunction
    exact dates_weightedIndex hfunction h

/-- Whatever series a formula has, and whatever series a part of it has on the way, is well
made. Every part of what was read names its texts. -/
theorem evaluate_isWellMade {f : Formula} {context : Context}
    (hobserved : observe context fetched = .ok observed) :
    f.evaluate fetched context = f.value observed ∧
      (∀ g ∈ f.parts, ∀ s, g.value observed = .ok (.series s) →
        IsWellMade context fetched observed g s) ∧
      ∀ text, read text = .ok f → ∀ g ∈ f.parts, g.NamesTexts := by
  refine ⟨evaluate_eq_value hobserved, fun _ _ _ h => isWellMade_of_value hobserved h, ?_⟩
  intro text hread g hg
  exact namesTexts_of_isCanonical (isCanonical_of_mem_parts (isCanonical_of_read hread) hg)

/-- An indicator with observations out of order, of which one is an instant, two share a date,
one is undefined and one infinite, and the changes of the indicator. -/
theorem evaluate_isWellMade_momentum :
    let series : Formula := indicator "a" 9
    let formula : Formula := call "MOMENTUM" [series, number 1.0 12] 0
    let fetched : Table String (List (Observation Float)) := [
      ("a", [⟨.ofDate ⟨4⟩, some 8.0⟩, ⟨⟨⟨1⟩, 72000, 0, some 0⟩, some 4.0⟩, ⟨.ofDate ⟨4⟩, some 12.0⟩,
        ⟨.ofDate ⟨5⟩, some (1.0 / 0.0)⟩, ⟨.ofDate ⟨1⟩, some (0.0 / 0.0)⟩])]
    let tokyo : Context := { timezone := "Asia/Tokyo" }
    ∃ observed, observe tokyo fetched = .ok observed ∧ formula.NamesTexts ∧
      series.value observed = .ok (.series [(⟨2⟩, 4.0), (⟨4⟩, 12.0), (⟨5⟩, 1.0 / 0.0)]) ∧
      IsWellMade tokyo fetched observed series
        [(⟨2⟩, 4.0), (⟨4⟩, 12.0), (⟨5⟩, 1.0 / 0.0)] ∧
      formula.value observed = .ok (.series [(⟨4⟩, 8.0)]) ∧
      IsWellMade tokyo fetched observed formula [(⟨4⟩, 8.0)] := by
  intro series formula fetched tokyo
  have hobserved : observe tokyo fetched =
      .ok [("a", [(⟨2⟩, 4.0), (⟨4⟩, 12.0), (⟨5⟩, 1.0 / 0.0)])] := by
    refine observe_cons_eq_ok.mpr ⟨_, _, ?_, rfl, rfl⟩
    have hdated : Series.dated tokyo [⟨.ofDate ⟨4⟩, some 8.0⟩, ⟨⟨⟨1⟩, 72000, 0, some 0⟩, some 4.0⟩,
        ⟨.ofDate ⟨4⟩, some 12.0⟩, ⟨.ofDate ⟨5⟩, some (1.0 / 0.0)⟩,
        ⟨.ofDate ⟨1⟩, some (0.0 / 0.0)⟩] =
        .ok [(⟨4⟩, 8.0), (⟨2⟩, 4.0), (⟨4⟩, 12.0), (⟨5⟩, 1.0 / 0.0), (⟨1⟩, 0.0 / 0.0)] := by rfl
    exact Series.ofObservations_of_isSettled hdated (by decide) (.inr (.inl (by decide)))
  have hparts := (@evaluate_isWellMade _ fetched formula tokyo hobserved).2.1
  have hseries : series ∈ formula.parts :=
    mem_parts_call.mpr (.inr ⟨series, List.mem_cons_self .., mem_parts_self _⟩)
  exact ⟨_, hobserved, namesTexts_of_isCanonical (by rfl), by rfl, hparts series hseries _ (by rfl),
    by rfl, hparts formula (mem_parts_self _) _ (by rfl)⟩

/-- Whether an outcome is a series with a point on a date. -/
def isDated (d : Date) : Except Fault Value → Bool
  | .ok (.series s) => s.dates.contains d
  | _ => false

/-- A result that has a date is a series. -/
theorem exists_of_isDated {d : Date} {r : Except Fault Value} (h : isDated d r = true) :
    ∃ s, r = .ok (.series s) ∧ d ∈ s.dates := by
  unfold isDated at h
  split at h
  · exact ⟨_, rfl, List.contains_iff_mem.mp h⟩
  · cases h

/-- A date need not be that of an indicator on which the formula depends: a call whose name is
not in capitals is evaluated, but the indicator in its text is not collected. -/
theorem not_evaluate_dates_collected :
    ¬∀ (f : Formula) (fetched : Table String (List (Observation Float))) (context : Context)
      (observed : Observed), observe context fetched = .ok observed →
        ∀ s, f.value observed = .ok (.series s) → ∀ d ∈ s.dates, ∃ slug os,
          fetched.find? slug = some os ∧
            (∃ o ∈ os, Series.localDate context o.stamp = .ok d) ∧
            slug ∈ f.dependencies := by
  intro h
  let formula : Formula := call "boolean_signal" [literal "a > 1" 15] 0
  have hdated : isDated ⟨1⟩ (formula.value [("a", [(⟨1⟩, 4.0)])]) = true := by decide +kernel
  obtain ⟨s, hs, hd⟩ := exists_of_isDated hdated
  obtain ⟨slug, -, -, -, hslug⟩ :=
    h formula [("a", [⟨.ofDate ⟨1⟩, some 4.0⟩])] {} _ (by rfl) s hs ⟨1⟩ hd
  rw [show formula.dependencies = [] by rfl] at hslug
  cases hslug

end Formula

end IndicatorFormula
