import IndicatorFormula.Proofs.Evaluation.Basic
import IndicatorFormula.Proofs.Series.Observation
import IndicatorFormula.Proofs.Table
import IndicatorFormula.Store.Memory

/-!
# Formulas that do not look ahead

Some functions make each point of their result of points up to its date. A formula over these
functions does so as well, however deep its calls are nested: if observations come in that lie
after a date then its series goes on after that date. The induction is over the formula, and
what it carries for each part is that there still is a value and that the value goes on.
-/

namespace IndicatorFormula

open IndicatorFormula.Except

variable {D : Date}

/-- A value goes on: a number stays and a series goes on after the date. -/
inductive Value.Extended (D : Date) : Value → Value → Prop
  /-- A number. -/
  | scalar (x : Float) : Extended D (.scalar x) (.scalar x)
  /-- A series. -/
  | series {s s' : Series Float} (extended : s.Extended D s') : Extended D (.series s) (.series s')

/-- An argument goes on: a number or a text stays. -/
def Slot.Extended (D : Date) : (k : Slot) → k.Carrier → k.Carrier → Prop
  | .series, s, s' => Series.Extended D s s'
  | .scalar, x, x' => x' = x
  | .text, content, content' => content' = content

/-- An argument goes on in its place. -/
structure Placed.Extended (D : Date) {k : Slot} (a a' : Placed k.Carrier) : Prop where
  /-- The argument goes on. -/
  value : k.Extended D a.value a'.value
  /-- Its formula begins where it began. -/
  position_eq : a'.position = a.position

/-- Every argument of a row goes on. -/
def Arguments.Extended (D : Date) : (ks : List Slot) → Arguments ks → Arguments ks → Prop
  | [], _, _ => True
  | _ :: ks, as, as' => as.1.Extended D as'.1 ∧ Arguments.Extended D ks as.2 as'.2

/-- Only a series can change. -/
theorem Placed.Extended.eq_of_ne_series {k : Slot} {a a' : Placed k.Carrier}
    (h : a.Extended D a') (hk : k ≠ .series) : a' = a := by
  obtain ⟨value, position⟩ := a
  obtain ⟨value', position'⟩ := a'
  obtain ⟨hvalue, hposition⟩ := h
  cases hposition
  cases k with
  | series => exact absurd rfl hk
  | scalar | text =>
    cases hvalue
    rfl

namespace Function

/-- The function makes each point of its result of points up to its date. -/
def isTrailing : Function → Bool
  | roc | momentum | stochasticOscillator | rollingCorrelation => true
  | weightedIndex | booleanSignal => true
  | _ => false

/-- What is computed with a count goes on if it does so for every count that is allowed. -/
theorem wholeArgument_follows {β : Type} {fits : β → β → Prop} {name : String}
    {index minimum : Nat} {x x' : Placed Float} {f g : Nat → Except Fault β}
    (h : Placed.Extended D (k := .scalar) x x')
    (hnext : ∀ n, minimum ≤ n → Follows fits (f n) (g n)) :
    Follows fits (wholeArgument name index minimum x >>= f)
      (wholeArgument name index minimum x' >>= g) := by
  obtain rfl := h.eq_of_ne_series (by decide)
  intro b hb
  obtain ⟨n, hn, hb⟩ := bind_eq_ok.mp hb
  obtain ⟨c, hc, hfits⟩ := hnext n (minimum_le_of_wholeArgument hn) b hb
  exact ⟨c, bind_eq_ok.mpr ⟨n, hn, hc⟩, hfits⟩

variable {site site' : CallSite}

/-- The series that a call can look up go on. -/
def SitesExtended (D : Date) (site site' : CallSite) : Prop :=
  site'.name = site.name ∧
    ∀ slug p, Follows (Series.Extended D) (site.find slug p) (site'.find slug p)

/-- An index goes on where its series do. -/
theorem applyWeights_follows (h : SitesExtended D site site') (text : Placed String) :
    Follows (Series.Extended D) (applyWeights site text) (applyWeights site' text) := by
  unfold applyWeights
  refine (follows_self _).bind ?_
  rintro _ terms rfl
  have hfind (slug : String) := h.2 slug text.position
  refine (Constituent.index_follows hfind terms).bind fun s s' hs => ?_
  exact follows_ok hs.finite

/-- A signal goes on where its series does. -/
theorem applyCondition_follows (h : SitesExtended D site site') (text : Placed String) :
    Follows (Series.Extended D) (applyCondition site text) (applyCondition site' text) := by
  unfold applyCondition
  refine (follows_self _).bind ?_
  rintro _ condition rfl
  refine (h.2 condition.slug text.position).bind fun s s' hs => ?_
  exact follows_ok (hs.signal condition.comparison condition.threshold).finite

/-- The result of a function that does not look ahead goes on if its arguments do. -/
theorem apply_follows {f : Function} (hf : f.isTrailing = true)
    (hsite : SitesExtended D site site') :
    ∀ {values values' : Arguments f.slots}, Arguments.Extended D f.slots values values' →
      Follows (fun x x' => Value.Extended D (.of f.returns x) (.of f.returns x'))
        (f.apply site values) (f.apply site' values') := by
  cases f with
  | roc =>
    rintro ⟨s, n, _⟩ ⟨s', n', _⟩ ⟨hs, hn, _⟩
    simp only [apply, hsite.1]
    apply wholeArgument_follows hn
    intro periods _
    exact (Series.percentChange_follows hs.value periods).mapError.map
      fun s s' hs => .series hs.finite
  | momentum =>
    rintro ⟨s, n, _⟩ ⟨s', n', _⟩ ⟨hs, hn, _⟩
    simp only [apply, hsite.1]
    apply wholeArgument_follows hn
    intro periods _
    exact (Series.momentum_follows hs.value periods).mapError.map fun s s' hs => .series hs.finite
  | stochasticOscillator =>
    rintro ⟨s, n, _⟩ ⟨s', n', _⟩ ⟨hs, hn, _⟩
    simp only [apply, hsite.1]
    apply wholeArgument_follows hn
    intro window hwindow
    exact (Series.stochastic_follows hs.value (by omega)).mapError.map
      fun s s' hs => .series hs.present.finite
  | rollingCorrelation =>
    rintro ⟨left, right, n, _⟩ ⟨left', right', n', _⟩ ⟨hleft, hright, hn, _⟩
    simp only [apply, hsite.1]
    apply wholeArgument_follows hn
    intro window _
    exact (Series.correlateWith_follows hleft.value hright.value window).mapError.map
      fun s s' hs => .series hs.finite
  | weightedIndex =>
    rintro ⟨text, _⟩ ⟨text', _⟩ ⟨htext, _⟩
    obtain rfl := htext.eq_of_ne_series (by decide)
    exact (applyWeights_follows hsite text').mono fun s s' hs => .series hs
  | booleanSignal =>
    rintro ⟨text, _⟩ ⟨text', _⟩ ⟨htext, _⟩
    obtain rfl := htext.eq_of_ne_series (by decide)
    exact (applyCondition_follows hsite text').mono fun s s' hs => .series hs
  | _ => cases hf

end Function

namespace Formula

/-- A formula of indicators, numbers and texts under functions that do not look ahead. -/
inductive IsTrailing : Formula → Prop
  /-- A number. -/
  | number (x : Float) (position : Nat) : IsTrailing (number x position)
  /-- A text. -/
  | literal (content : String) (position : Nat) : IsTrailing (literal content position)
  /-- An indicator. -/
  | indicator (slug : String) (position : Nat) : IsTrailing (indicator slug position)
  /-- A call. -/
  | call {name : String} {f : Function} {args : List Formula} {position : Nat}
    (function : Function.ofName? name = some f) (trailing : f.isTrailing = true)
    (parts : ∀ arg ∈ args, IsTrailing arg) : IsTrailing (call name args position)

variable {observed observed' : Observed} {f : Function}

/-- The series of every indicator goes on. -/
def ObservedExtended (D : Date) (observed observed' : Observed) : Prop :=
  ∀ slug s, observed.find? slug = some s →
    ∃ s', observed'.find? slug = some s' ∧ Series.Extended D s s'

/-- A look-up goes on where what was observed does. -/
theorem resolve_follows (h : ObservedExtended D observed observed') (slug : String)
    (position : Nat) :
    Follows (Series.Extended D) (resolve observed slug position)
      (resolve observed' slug position) := by
  intro s hs
  unfold resolve at hs
  split at hs
  · next s₀ hs₀ =>
    cases hs
    obtain ⟨s', hs', hextended⟩ := h slug s hs₀
    exact ⟨s', by rw [resolve, hs'], hextended⟩
  · cases hs

/-- An argument goes on where its value does. -/
theorem valueArgument_follows {index position : Nat} {slot : Slot} {v v' : Value}
    (h : v.Extended D v') :
    Follows (Placed.Extended D) (valueArgument f index position slot v)
      (valueArgument f index position slot v') := by
  cases h with
  | scalar x =>
    cases slot with
    | scalar => exact follows_ok ⟨rfl, rfl⟩
    | series | text => exact follows_error
  | series extended =>
    cases slot with
    | series => exact follows_ok ⟨extended, rfl⟩
    | scalar | text => exact follows_error

/-- An argument goes on where its outcome does. -/
theorem argument_follows {index : Nat} {slot : Slot} {arg : Formula}
    {outcome outcome' : Except Fault Value} (h : Follows (Value.Extended D) outcome outcome') :
    Follows (Placed.Extended D) (argument f index slot arg outcome)
      (argument f index slot arg outcome') := by
  by_cases hslot : slot = .text
  · subst hslot
    intro text htext
    exact ⟨text, htext, rfl, rfl⟩
  · by_cases harg : ∀ content p, arg ≠ literal content p
    · rw [argument_eq hslot harg, argument_eq hslot harg]
      exact h.bind fun v v' hv => valueArgument_follows hv
    · simp only [ne_eq, not_forall, not_not] at harg
      obtain ⟨content, p, rfl⟩ := harg
      cases slot with
      | text => exact absurd rfl hslot
      | series | scalar => exact follows_error

/-- Arguments go on where their values do. -/
theorem arguments_follow {position index : Nat} {slots : List Slot} {args : List Formula}
    (h : ∀ arg ∈ args, Follows (Value.Extended D) (arg.value observed) (arg.value observed')) :
    Follows (Arguments.Extended D slots) (arguments observed f position index slots args)
      (arguments observed' f position index slots args) := by
  induction slots generalizing index args with
  | nil =>
    rw [arguments, arguments]
    intro values _
    exact ⟨(), rfl, trivial⟩
  | cons slot slots ih =>
    cases args with
    | nil => exact follows_error
    | cons arg args =>
      obtain ⟨harg, hargs⟩ := List.forall_mem_cons.mp h
      rw [arguments_cons, arguments_cons]
      refine (argument_follows harg).bind fun first first' hfirst => ?_
      exact (ih hargs).map fun rest rest' hrest => ⟨hfirst, hrest⟩

/-- The value of a formula that does not look ahead goes on if the series of its indicators
do. -/
theorem IsTrailing.value_follows {formula : Formula} (hformula : formula.IsTrailing)
    (h : ObservedExtended D observed observed') :
    Follows (Value.Extended D) (formula.value observed) (formula.value observed') := by
  induction hformula with
  | number x position => exact follows_ok (.scalar x)
  | literal content position => exact follows_error
  | indicator slug position =>
    exact (resolve_follows h slug position).map fun s s' hs => .series hs
  | @call name f args position function trailing parts ih =>
    by_cases hlength : args.length = f.arity
    · rw [value_call function hlength, value_call function hlength]
      refine (arguments_follow ih).bind fun values values' hvalues => ?_
      have hsites : Function.SitesExtended D ⟨name, resolve observed⟩ ⟨name, resolve observed'⟩ :=
        ⟨rfl, resolve_follows h⟩
      have happly := Function.apply_follows trailing hsites hvalues
      have htold : Follows (fun x x' => Value.Extended D (.of f.returns x) (.of f.returns x'))
          (told f position (f.apply ⟨name, resolve observed⟩ values))
          (told f position (f.apply ⟨name, resolve observed'⟩ values')) := by
        intro x hx
        obtain ⟨x', hx', hextended⟩ := happly x (told_eq_ok.mp hx)
        exact ⟨x', told_eq_ok.mpr hx', hextended⟩
      exact htold.map fun x x' hx => hx
    · simp only [value, function, ne_eq, hlength, not_false_eq_true, if_true]
      exact follows_error

variable {context : Context} {fetched fetched' : Table String (List (Observation Float))}

/-- The same indicators were fetched a second time, with more observations that lie after the
date and with those that were there, none of which does. -/
structure Refetched (context : Context) (D : Date)
    (fetched fetched' : Table String (List (Observation Float))) : Prop where
  /-- Every indicator was fetched again. -/
  again : ∀ slug os, fetched.find? slug = some os → ∃ os', fetched'.find? slug = some os'
  /-- There are more observations. -/
  joined : ∀ e ∈ fetched', ∃ os, fetched.find? e.1 = some os ∧ Series.Joined context D os e.2

/-- What was fetched for an indicator makes a series if everything that was fetched does. -/
theorem ofObservations_of_observe (h : observe context fetched = .ok observed) {slug : String}
    {os : List (Observation Float)} (hos : fetched.find? slug = some os) :
    ∃ s, Series.ofObservations context os = .ok s := by
  obtain ⟨entry, hentry⟩ := ok_of_mapM_eq_ok h (slug, os) (Table.mem_of_find? hos)
  obtain ⟨s, hs, -⟩ := map_eq_ok.mp hentry
  exact ⟨s, mapError_eq_ok.mp hs⟩

/-- The series of all indicators go on if the observations of each are settled. -/
theorem Refetched.observe_follows (h : Refetched context D fetched fetched')
    (hsettled : ∀ e ∈ fetched', Series.AreSettled context e.2) :
    Follows (ObservedExtended D) (observe context fetched) (observe context fetched') := by
  intro observed hobserved
  have hseries (slug : String) (os' : List (Observation Float)) (hmem : (slug, os') ∈ fetched') :
      ∃ os s s', fetched.find? slug = some os ∧ Series.ofObservations context os = .ok s ∧
        Series.ofObservations context os' = .ok s' ∧ Series.Extended D s s' := by
    obtain ⟨os, hos, hjoined⟩ := h.joined (slug, os') hmem
    obtain ⟨s, hs⟩ := ofObservations_of_observe hobserved hos
    obtain ⟨s', hs', hextended⟩ := hjoined.ofObservations_follows (hsettled _ hmem) s hs
    exact ⟨os, s, s', hos, hs, hs', hextended⟩
  have hentries : ∀ e ∈ fetched', ∃ entry,
      ((Series.ofObservations context e.2).mapError Fault.observation).map (e.1, ·) =
        .ok entry := by
    rintro ⟨slug, os'⟩ hmem
    obtain ⟨-, -, s', -, -, hs', -⟩ := hseries slug os' hmem
    exact ⟨(slug, s'), map_eq_ok.mpr ⟨s', mapError_eq_ok.mpr hs', rfl⟩⟩
  obtain ⟨observed', hobserved'⟩ := exists_mapM_eq_ok hentries
  refine ⟨observed', hobserved', ?_⟩
  intro slug s hs
  rw [find?_observe hobserved] at hs
  obtain ⟨os, hos, hs⟩ := Option.bind_eq_some_iff.mp hs
  obtain ⟨os', hos'⟩ := h.again slug os hos
  obtain ⟨os₀, s₀, s', hos₀, hs₀, hs', hextended⟩ := hseries slug os' (Table.mem_of_find? hos')
  obtain rfl : os = os₀ := Option.some.inj (hos.symm.trans hos₀)
  obtain rfl : s₀ = s := by simpa [hs₀, Except.toOption] using hs
  refine ⟨s', ?_, hextended⟩
  rw [find?_observe hobserved', hos', Option.bind_some, hs', Except.toOption]

/-- A formula over functions that do not look ahead has a series, and then more observations are
fetched, all of which lie after a date up to which the first ones reach at most. If the
observations of each indicator are settled then the formula still has a series, and up to that
date it is the series that it had. -/
theorem evaluate_no_look_ahead {formula : Formula} (hformula : formula.IsTrailing)
    (hfetched : Refetched context D fetched fetched')
    (hsettled : ∀ e ∈ fetched', Series.AreSettled context e.2)
    {s : Series Float} (h : formula.evaluate fetched context = .ok (.series s)) :
    ∃ s', formula.evaluate fetched' context = .ok (.series s') ∧
      s'.between none (some D) = s := by
  have hfollows : Follows (Value.Extended D) (formula.evaluate fetched context)
      (formula.evaluate fetched' context) :=
    (hfetched.observe_follows hsettled).bind fun observed observed' hobserved =>
      hformula.value_follows hobserved
  obtain ⟨v, hv, hextended⟩ := hfollows _ h
  cases hextended with
  | series extended => exact ⟨_, hv, extended.between_eq⟩

/-- Two months of an indicator. -/
def twoMonths : List (Observation Float) :=
  [⟨.ofDate ⟨1⟩, some 1.0⟩, ⟨.ofDate ⟨32⟩, some 3.0⟩]

/-- The months with a third one, which was fetched before them. -/
def threeMonths : List (Observation Float) := ⟨.ofDate ⟨60⟩, some 7.0⟩ :: twoMonths

/-- What was fetched for one indicator alone was fetched again for it. -/
private theorem refetched_single {slug : String} {os os' : List (Observation Float)}
    (h : Series.Joined context D os os') : Refetched context D [(slug, os)] [(slug, os')] := by
  refine ⟨fun slug' _ hos => ?_, by simpa [Table.find?] using h⟩
  by_cases hslug : slug = slug'
  · exact ⟨os', if_pos hslug⟩
  · simp [Table.find?, hslug] at hos

/-- The change in the second month stays when the third month comes in. -/
theorem evaluate_no_look_ahead_momentum :
    let formula : Formula := call "MOMENTUM" [indicator "a" 9, number 1.0 12] 0
    Refetched {} ⟨32⟩ [("a", twoMonths)] [("a", threeMonths)] ∧
      formula.evaluate [("a", twoMonths)] {} = .ok (.series [(⟨32⟩, 2.0)]) ∧
      ∃ s', formula.evaluate [("a", threeMonths)] {} = .ok (.series s') ∧
        s'.between none (some ⟨32⟩) = [(⟨32⟩, 2.0)] := by
  intro formula
  have hformula : formula.IsTrailing := by
    refine .call (f := .momentum) (by cbv) rfl ?_
    simp [IsTrailing.indicator, IsTrailing.number]
  have hjoined : Series.Joined {} ⟨32⟩ twoMonths threeMonths := by
    refine .new (d := ⟨60⟩) rfl (by decide) (by decide) rfl (.old ?_ (.old ?_ .nil))
    · rintro d ⟨⟩
      decide
    · rintro d ⟨⟩
      decide
  have hfetched : Refetched {} ⟨32⟩ [("a", twoMonths)] [("a", threeMonths)] :=
    refetched_single hjoined
  have hsettled : ∀ e ∈ [("a", threeMonths)], Series.AreSettled {} e.2 := by
    refine List.forall_mem_singleton.mpr (.inr (.inl ?_))
    exact Nat.le_trans (List.length_filterMap_le _ _) (by decide)
  have hvalue : formula.evaluate [("a", twoMonths)] {} = .ok (.series [(⟨32⟩, 2.0)]) := by rfl
  exact ⟨hfetched, hvalue, evaluate_no_look_ahead hformula hfetched hsettled hvalue⟩

/-- Points up to a date are joined by later ones behind them. -/
private theorem joined_append {s more : Series Float} (hold : ∀ p ∈ s, p.1 ≤ D)
    (hmore : Series.Joined context D [] (MemoryStore.observationsOf more)) :
    Series.Joined context D (MemoryStore.observationsOf s)
      (MemoryStore.observationsOf (s ++ more)) := by
  induction s with
  | nil => exact hmore
  | cons p s ih =>
    obtain ⟨hp, hs⟩ := List.forall_mem_cons.mp hold
    refine .old (fun d hd => ?_) (ih hs)
    cases hd
    exact hp

/-- An observation of a later day can change a value of an earlier one, where there are many
observations that are not in order. -/
theorem not_evaluate_no_look_ahead :
    ¬∀ (formula : Formula) (context : Context) (D : Date)
      (fetched fetched' : Table String (List (Observation Float))) (s : Series Float),
      formula.IsTrailing → Refetched context D fetched fetched' →
      formula.evaluate fetched context = .ok (.series s) →
      ∃ s', formula.evaluate fetched' context = .ok (.series s') ∧
        s'.between none (some D) = s := by
  intro h
  have hjoined : Series.Joined {} ⟨2⟩ (MemoryStore.observationsOf Series.crowd)
      (MemoryStore.observationsOf Series.crowdAndLater) := by
    refine joined_append (by decide) ?_
    exact .new (d := ⟨3⟩) rfl (by decide) (by decide) rfl .nil
  have hbefore := @evaluate_indicator {} "x" 0 _ _ Series.ofObservations_crowd
  have hafter := @evaluate_indicator {} "x" 0 _ _ Series.ofObservations_crowdAndLater
  obtain ⟨s', hs', hsame⟩ := h (.indicator "x" 0) {} ⟨2⟩ _ _ _ (.indicator "x" 0)
    (refetched_single hjoined) hbefore
  cases hs'.symm.trans hafter
  have hfirst := congrArg (fun s : Series Float => s.map fun p => p.2.toBits) hsame
  revert hfirst
  decide

end Formula

end IndicatorFormula
