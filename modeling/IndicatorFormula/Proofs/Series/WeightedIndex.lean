import IndicatorFormula.Proofs.Arith
import IndicatorFormula.Proofs.Series.Alignment
import IndicatorFormula.Series.WeightedIndex

/-!
# Weighted means over common dates

A weighted index has a value at each date that all of its series share, which is the weighted mean
of the values at that date. This settles the index, so that neither the order of the terms nor a
common factor of the weights has a part in it. Whether there is one depends on the weights and the
dates alone: the weights must not add up to zero, which is seen before a series is looked up, and
the series must have a date in common.
-/

namespace IndicatorFormula.Constituent

open IndicatorFormula.Except Arith

attribute [local instance (50)] Arith.toAdd Arith.toSub Arith.toMul Arith.toDiv

section Mean

variable {K : Type} [Field K] {terms terms' : List (Constituent K)} {c : K}
  {value : String → K}

/-- The sum of the weights. -/
def weightSum (terms : List (Constituent K)) : K := (terms.map weight).sum

/-- The mean of the values of slugs with the weights of the terms. -/
def weightedMean (terms : List (Constituent K)) (value : String → K) : K :=
  (terms.map fun t => t.weight * value t.slug).sum / weightSum terms

/-- The terms with all weights multiplied by one number. -/
def scaled (c : K) (terms : List (Constituent K)) : List (Constituent K) :=
  terms.map fun t => ⟨t.slug, c * t.weight⟩

/-- The sum of weights is homogeneous. -/
theorem weightSum_scaled (c : K) (terms : List (Constituent K)) :
    weightSum (scaled c terms) = c * weightSum terms := by
  rw [weightSum, weightSum, scaled, List.map_map, ← List.sum_map_mul_left]
  rfl

/-- A common factor of the weights does not change the weighted mean. -/
theorem weightedMean_scaled (hc : c ≠ 0) (terms : List (Constituent K)) (value : String → K) :
    weightedMean (scaled c terms) value = weightedMean terms value := by
  have hsum : ((scaled c terms).map fun t => t.weight * value t.slug).sum =
      c * (terms.map fun t => t.weight * value t.slug).sum := by
    rw [← List.sum_map_mul_left, scaled, List.map_map]
    exact congrArg List.sum (List.map_congr_left fun t _ => mul_assoc _ _ _)
  rw [weightedMean, weightedMean, hsum, weightSum_scaled, mul_div_mul_left _ _ hc]

theorem weightSum_perm (h : terms'.Perm terms) : weightSum terms' = weightSum terms :=
  (h.map _).sum_eq

theorem weightedMean_perm (h : terms'.Perm terms) (value : String → K) :
    weightedMean terms' value = weightedMean terms value := by
  rw [weightedMean, weightedMean, weightSum_perm h, (h.map _).sum_eq]

/-- The weighted mean of one term is its value. -/
theorem weightedMean_singleton {t : Constituent K} (h : weightSum [t] ≠ 0) (value : String → K) :
    weightedMean [t] value = value t.slug := by
  simp only [weightSum, List.map_singleton, List.sum_singleton] at h
  simp only [weightedMean, weightSum, List.map_singleton, List.sum_singleton]
  exact mul_div_cancel_left₀ _ h

variable [LinearOrder K] [IsStrictOrderedRing K]

/-- Of two rows with the same weighted sum neither is larger throughout. -/
theorem exists_le_of_sum_eq (hweights : ∀ t ∈ terms, 0 ≤ t.weight) (hsum : weightSum terms ≠ 0)
    {f g : Constituent K → K} (h : (terms.map fun t => t.weight * f t).sum =
      (terms.map fun t => t.weight * g t).sum) : ∃ t ∈ terms, f t ≤ g t := by
  by_contra! hlarger
  obtain ⟨_, hmem, hne⟩ := List.exists_mem_ne_zero_of_sum_ne_zero hsum
  obtain ⟨t, ht, rfl⟩ := List.mem_map.mp hmem
  have hpos : 0 < t.weight := (hweights t ht).lt_of_ne' hne
  have hlt : (terms.map fun t => t.weight * g t).sum < (terms.map fun t => t.weight * f t).sum := by
    apply List.sum_lt_sum
    · intro u hu
      exact mul_le_mul_of_nonneg_left (hlarger u hu).le (hweights u hu)
    · exact ⟨t, ht, mul_lt_mul_of_pos_left (hlarger t ht) hpos⟩
  exact hlt.ne' h

/-- A mean with weights that are not negative lies between the values. -/
theorem weightedMean_between (hweights : ∀ t ∈ terms, 0 ≤ t.weight) (hsum : weightSum terms ≠ 0)
    (value : String → K) : (∃ t ∈ terms, value t.slug ≤ weightedMean terms value) ∧
      ∃ t ∈ terms, weightedMean terms value ≤ value t.slug := by
  have hmean : (terms.map fun t => t.weight * value t.slug).sum =
      (terms.map fun t => t.weight * weightedMean terms value).sum := by
    rw [List.sum_map_mul_right]
    exact (mul_div_cancel₀ _ hsum).symm
  exact ⟨exists_le_of_sum_eq hweights hsum hmean, exists_le_of_sum_eq hweights hsum hmean.symm⟩

end Mean

section Index

variable {K : Type} {found : String → Series K} {terms terms' : List (Constituent K)}
  {t t' : Series K} {value : String → K} {d : Date}

/-- The series of all terms have a point at a date. -/
def IsCommonDate (found : String → Series K) (terms : List (Constituent K)) (d : Date) : Prop :=
  ∀ term ∈ terms, d ∈ (found term.slug).dates

/-- The series of the terms have certain values at a date. -/
def HasValues (found : String → Series K) (terms : List (Constituent K)) (d : Date)
    (value : String → K) : Prop :=
  ∀ term ∈ terms, (d, value term.slug) ∈ found term.slug

/-- The series of the terms have their points in the order of dates. -/
def AreIncreasing (found : String → Series K) (terms : List (Constituent K)) : Prop :=
  ∀ term ∈ terms, (found term.slug).Pairwise fun p q => p.1 < q.1

theorem isCommonDate_perm (h : terms'.Perm terms) :
    IsCommonDate found terms' d ↔ IsCommonDate found terms d := by
  simp only [IsCommonDate, h.mem_iff]

theorem isCommonDate_scaled [Field K] (c : K) :
    IsCommonDate found (scaled c terms) d ↔ IsCommonDate found terms d :=
  List.forall_mem_map

/-- On a common date every constituent has a value. -/
theorem exists_hasValues [Field K] (hinc : AreIncreasing found terms)
    (h : IsCommonDate found terms d) : ∃ value, HasValues found terms d value := by
  refine ⟨fun slug => ((found slug).lookup d).getD 0, fun term hterm => ?_⟩
  obtain ⟨x, hx⟩ := Series.mem_dates.mp (h term hterm)
  have hlookup := (Series.lookup_eq_some_iff_mem (hinc term hterm)).mpr hx
  simpa only [hlookup, Option.getD_some] using hx

/-- A constituent has one value on a date. -/
theorem HasValues.unique (hinc : AreIncreasing found terms) {x : K} {term : Constituent K}
    (h : HasValues found terms d value) (hterm : term ∈ terms) (hx : (d, x) ∈ found term.slug) :
    x = value term.slug := by
  have hvalue := h term hterm
  rw [← Series.lookup_eq_some_iff_mem (hinc term hterm)] at hx hvalue
  exact Option.some.inj (hx.symm.trans hvalue)

variable [Field K]

/-- What a weighted index is. -/
structure IsIndex (found : String → Series K) (terms : List (Constituent K)) (t : Series K) :
    Prop where
  /-- The points stand in the order of their dates. -/
  increasing : t.Pairwise fun p q => p.1 < q.1
  /-- There is a point at each date that all series share. -/
  mem_dates : ∀ d, d ∈ t.dates ↔ IsCommonDate found terms d
  /-- A point is the weighted mean of what the series have at its date. -/
  mean : ∀ p ∈ t, ∀ value, HasValues found terms p.1 value → p.2 = weightedMean terms value

/-- Two indices of one family have the same points. -/
private theorem IsIndex.mem_of_mem (hinc : AreIncreasing found terms)
    (h : IsIndex found terms t) (h' : IsIndex found terms t') {p : Date × K} (hp : p ∈ t) :
    p ∈ t' := by
  have hcommon := (h.mem_dates p.1).mp (Series.mem_dates.mpr ⟨p.2, hp⟩)
  obtain ⟨value, hvalue⟩ := exists_hasValues hinc hcommon
  obtain ⟨x, hx⟩ := Series.mem_dates.mp ((h'.mem_dates p.1).mpr hcommon)
  have hsame : p.2 = x := (h.mean p hp value hvalue).trans (h'.mean _ hx value hvalue).symm
  rw [← hsame] at hx
  exact hx

/-- The terms have one index at most. -/
theorem IsIndex.unique (hinc : AreIncreasing found terms) (h : IsIndex found terms t)
    (h' : IsIndex found terms t') : t = t' :=
  Series.eq_of_increasing h.increasing h'.increasing fun _ =>
    ⟨h.mem_of_mem hinc h', h'.mem_of_mem hinc h⟩

/-- An index is one for the terms in any order. -/
theorem IsIndex.perm (h : IsIndex found terms t) (hperm : terms'.Perm terms) :
    IsIndex found terms' t where
  increasing := h.increasing
  mem_dates d := (h.mem_dates d).trans (isCommonDate_perm hperm).symm
  mean p hp value hvalue := by
    rw [weightedMean_perm hperm]
    exact h.mean p hp value fun term hterm => hvalue term (hperm.mem_iff.mpr hterm)

/-- An index is one for weights with a common factor. -/
theorem IsIndex.scaled {c : K} (h : IsIndex found terms t) (hc : c ≠ 0) :
    IsIndex found (Constituent.scaled c terms) t where
  increasing := h.increasing
  mem_dates d := (h.mem_dates d).trans (isCommonDate_scaled c).symm
  mean p hp value hvalue := by
    rw [weightedMean_scaled hc]
    exact h.mean p hp value (List.forall_mem_map.mp hvalue)

/-- A series is the index of itself alone. -/
theorem isIndex_singleton {term : Constituent K} (hinc : AreIncreasing found [term])
    (hsum : weightSum [term] ≠ 0) : IsIndex found [term] (found term.slug) where
  increasing := hinc term (List.mem_singleton_self _)
  mem_dates d := by simp [IsCommonDate]
  mean p hp value hvalue := by
    rw [weightedMean_singleton hsum]
    exact hvalue.unique hinc (List.mem_singleton_self _) hp

end Index

section Find

variable {K ε : Type} {fault : DataError → ε} {find : String → Except ε (Series K)}
  {found : String → Series K} {terms terms' : List (Constituent K)}

/-- The series of the terms by name. -/
def family (found : String → Series K) (terms : List (Constituent K)) : Family K :=
  terms.map fun t => (t.slug, found t.slug)

/-- Each series of the terms can be looked up. -/
def AreFound (find : String → Except ε (Series K)) (found : String → Series K)
    (terms : List (Constituent K)) : Prop :=
  ∀ term ∈ terms, find term.slug = .ok (found term.slug)

/-- If all slugs are found, the family is what is found. -/
theorem mapM_find (h : AreFound find found terms) :
    (terms.mapM fun t => return (t.slug, ← find t.slug)) = .ok (family found terms) := by
  have hfound : ∀ t ∈ terms, (do return (t.slug, ← find t.slug) : Except ε _) =
      pure (t.slug, found t.slug) := by
    intro t ht
    rw [h t ht]
    rfl
  rw [mapM_congr hfound, List.mapM_pure]
  rfl

/-- The joint rows of the series. -/
def jointRows (found : String → Series K) (terms : List (Constituent K)) : List (Date × List K) :=
  Frame.rows (Frame.joint ⟨(family found terms).map Prod.fst,
    (family found terms).allDates.map fun d => (d, (family found terms).cells d)⟩)

/-- The joint rows show each date that all series share, with what they have there. -/
theorem joins_jointRows (hne : terms ≠ []) (hinc : AreIncreasing found terms) :
    Frame.Joins (family found terms)
      ⟨(family found terms).map Prod.fst, jointRows found terms⟩ := by
  have hentries : ∀ entry ∈ family found terms, entry.2.Pairwise fun p q => p.1 < q.1 :=
    List.forall_mem_map.mpr hinc
  exact (Family.laysOut hentries).joint (by simpa [family] using hne)

theorem mem_dates_jointRows (hne : terms ≠ []) (hinc : AreIncreasing found terms) (d : Date) :
    d ∈ (jointRows found terms).map Prod.fst ↔ IsCommonDate found terms d :=
  ((joins_jointRows hne hinc).mem_dates d).trans List.forall_mem_map

/-- The cells of a row are the values of the terms in their order. -/
theorem cells_eq {d : Date} {value : String → K} (hinc : AreIncreasing found terms)
    (hvalue : HasValues found terms d value) {cells : List K}
    (h : List.Forall₂ (fun term x => (d, x) ∈ found term.slug) terms cells) :
    cells = terms.map fun t => value t.slug := by
  refine List.ext_getElem (by rw [List.length_map, h.length_eq]) fun i hi hi' => ?_
  rw [List.length_map] at hi'
  rw [List.getElem_map]
  exact hvalue.unique hinc (List.getElem_mem hi') (h.get hi' hi)

variable [Field K] [LinearOrder K] [HasRoot K]

theorem total_eq (terms : List (Constituent K)) : total terms = weightSum terms := runningSum_eq _

/-- Weights that add up to zero are refused. -/
theorem index_eq_zeroWeights (hsum : weightSum terms = 0)
    (find : String → Except ε (Series K)) :
    index fault find terms = .error (fault .zeroWeights) := by
  rw [index, total_eq, if_pos (isZero_iff.mpr hsum)]
  rfl

/-- Other weights give the weighted rows, or tell that no date is common. -/
theorem index_eq (hne : terms ≠ []) (hsum : weightSum terms ≠ 0)
    (hfind : AreFound find found terms) :
    index fault find terms = if jointRows found terms = [] then .error (fault .noCommonDate)
      else .ok ((jointRows found terms).map fun r => (r.1, rowSum terms r.2 / total terms)) := by
  have hfamily : family found terms ≠ [] := by simpa [family] using hne
  have halign := Family.align_eq hfamily
  rw [index, if_neg (by rwa [total_eq, isZero_iff])]
  simp only [mapM_find hfind]
  change ((Family.align (family found terms)).mapError fault >>= fun frame => _) = _
  rw [halign]
  change (if (jointRows found terms).isEmpty = true then _ else _) = _
  simp only [List.isEmpty_iff]
  rfl

/-- The sum of a row is the sum of weighted values. -/
theorem rowSum_eq (terms : List (Constituent K)) (value : String → K) :
    rowSum terms (terms.map fun t => value t.slug) =
      (terms.map fun t => t.weight * value t.slug).sum := by
  rw [rowSum, numbers_eq, sum_eq, List.zipWith_map_left, List.zipWith_self]
  exact congrArg List.sum (List.map_congr_left fun t _ => mul_comm _ _)

/-- The rows of the series, each reduced to the weighted mean of its cells, are the index. -/
theorem isIndex_jointRows (hne : terms ≠ []) (hinc : AreIncreasing found terms) :
    IsIndex found terms
      ((jointRows found terms).map fun r => (r.1, rowSum terms r.2 / total terms)) := by
  have hjoins := joins_jointRows hne hinc
  have hdates : ((jointRows found terms).map fun r =>
      (r.1, rowSum terms r.2 / total terms)).map Prod.fst =
      (jointRows found terms).map Prod.fst := by
    rw [List.map_map]
    rfl
  constructor
  · refine List.pairwise_map.mp ?_
    rw [hdates]
    exact hjoins.increasing
  · intro d
    rw [Series.dates, hdates, mem_dates_jointRows hne hinc]
  · intro p hp value hvalue
    obtain ⟨r, hr, rfl⟩ := List.mem_map.mp hp
    have hcells := cells_eq hinc hvalue (List.forall₂_map_left_iff.mp (hjoins.cells r hr))
    rw [hcells, rowSum_eq, total_eq, weightedMean]

/-- Without a common date there is no index. -/
theorem index_eq_noCommonDate (hne : terms ≠ []) (hsum : weightSum terms ≠ 0)
    (hfind : AreFound find found terms) (hinc : AreIncreasing found terms)
    (h : ∀ d, ¬IsCommonDate found terms d) :
    index fault find terms = .error (fault .noCommonDate) := by
  have hempty : (jointRows found terms).map Prod.fst = [] := by
    refine List.eq_nil_iff_forall_not_mem.mpr fun d hd => ?_
    exact h d ((mem_dates_jointRows hne hinc d).mp hd)
  rw [index_eq hne hsum hfind, if_pos (List.map_eq_nil_iff.mp hempty)]

/-- With a common date there is an index. -/
theorem exists_index_eq (hne : terms ≠ []) (hsum : weightSum terms ≠ 0)
    (hfind : AreFound find found terms) (hinc : AreIncreasing found terms)
    (h : ∃ d, IsCommonDate found terms d) :
    ∃ t, index fault find terms = .ok t ∧ IsIndex found terms t := by
  obtain ⟨d, hd⟩ := h
  have hrow : (jointRows found terms).map Prod.fst ≠ [] :=
    List.ne_nil_of_mem ((mem_dates_jointRows hne hinc d).mpr hd)
  refine ⟨_, ?_, isIndex_jointRows hne hinc⟩
  rw [index_eq hne hsum hfind, if_neg fun hnil => hrow (List.map_eq_nil_iff.mpr hnil)]

/-- Terms have the same index if their weights vanish in total together, they share the same dates
and each index of the ones is that of the others. -/
theorem index_congr (hne : terms ≠ []) (hne' : terms' ≠ [])
    (hsum : weightSum terms' = 0 ↔ weightSum terms = 0)
    (hfind : AreFound find found terms) (hfind' : AreFound find found terms')
    (hinc : AreIncreasing found terms) (hinc' : AreIncreasing found terms')
    (hdates : ∀ d, IsCommonDate found terms' d ↔ IsCommonDate found terms d)
    (hindex : ∀ t, IsIndex found terms t → IsIndex found terms' t) :
    index fault find terms' = index fault find terms := by
  by_cases hzero : weightSum terms = 0
  · rw [index_eq_zeroWeights hzero, index_eq_zeroWeights (hsum.mpr hzero)]
  · have hzero' : weightSum terms' ≠ 0 := mt hsum.mp hzero
    by_cases hcommon : ∃ d, IsCommonDate found terms d
    · have hcommon' : ∃ d, IsCommonDate found terms' d := by simpa only [hdates] using hcommon
      obtain ⟨t, ht, hisIndex⟩ : ∃ t, index fault find terms = .ok t ∧ IsIndex found terms t :=
        exists_index_eq hne hzero hfind hinc hcommon
      obtain ⟨t', ht', hisIndex'⟩ :
          ∃ t', index fault find terms' = .ok t' ∧ IsIndex found terms' t' :=
        exists_index_eq hne' hzero' hfind' hinc' hcommon'
      rw [ht, ht', hisIndex'.unique hinc' (hindex t hisIndex)]
    · have hnone : ∀ d, ¬IsCommonDate found terms d := not_exists.mp hcommon
      have hnone' : ∀ d, ¬IsCommonDate found terms' d := by simpa only [hdates] using hnone
      rw [index_eq_noCommonDate hne hzero hfind hinc hnone,
        index_eq_noCommonDate hne' hzero' hfind' hinc' hnone']

end Find

/-- A weighted index is the weighted mean of its series on the dates that they share. It is refused
before any look-up if the weights add up to zero, and if the series share no date. The order of the
terms and a common factor of the weights make no difference, weights that are not negative give
values between those of the series, and one series alone is its own index. -/
theorem index_isMean {ε : Type} (fault : DataError → ε) {find : String → Except ε (Series ℚ)}
    {found : String → Series ℚ} {terms : List (Constituent ℚ)} (hne : terms ≠ [])
    (hfind : AreFound find found terms) (hinc : AreIncreasing found terms) :
    (weightSum terms = 0 → ∃ e : DataError, e.category = .division ∧
      ∀ find', index fault find' terms = .error (fault e)) ∧
    (weightSum terms ≠ 0 → (∀ d, ¬IsCommonDate found terms d) →
      ∃ e : DataError, e.category = .insufficient ∧
        index fault find terms = .error (fault e)) ∧
    (weightSum terms ≠ 0 → (∃ d, IsCommonDate found terms d) →
      ∃ t, index fault find terms = .ok t ∧ IsIndex found terms t ∧
        ((∀ term ∈ terms, 0 ≤ term.weight) → ∀ p ∈ t, ∃ value,
          HasValues found terms p.1 value ∧ (∃ term ∈ terms, value term.slug ≤ p.2) ∧
            ∃ term ∈ terms, p.2 ≤ value term.slug) ∧
        ∀ term, terms = [term] → t = found term.slug) ∧
    (∀ terms', terms'.Perm terms → index fault find terms' = index fault find terms) ∧
    ∀ c, c ≠ 0 → index fault find (scaled c terms) = index fault find terms := by
  refine ⟨fun hzero => ⟨.zeroWeights, rfl, index_eq_zeroWeights hzero⟩,
    fun hsum hnone => ⟨.noCommonDate, rfl, index_eq_noCommonDate hne hsum hfind hinc hnone⟩,
    fun hsum hcommon => ?_, fun terms' hperm => ?_, fun c hc => ?_⟩
  · obtain ⟨t, ht, hindex⟩ : ∃ t, index fault find terms = .ok t ∧ IsIndex found terms t :=
      exists_index_eq hne hsum hfind hinc hcommon
    refine ⟨t, ht, hindex, fun hweights p hp => ?_, ?_⟩
    · have hdate := (hindex.mem_dates p.1).mp (Series.mem_dates.mpr ⟨p.2, hp⟩)
      obtain ⟨value, hvalue⟩ := exists_hasValues hinc hdate
      rw [hindex.mean p hp value hvalue]
      exact ⟨value, hvalue, weightedMean_between hweights hsum value⟩
    · rintro term rfl
      exact hindex.unique hinc (isIndex_singleton hinc hsum)
  · refine index_congr hne (fun hnil => hne (List.perm_nil.mp (hnil ▸ hperm.symm))) ?_ hfind
      (fun term hterm => hfind term (hperm.mem_iff.mp hterm)) hinc
      (fun term hterm => hinc term (hperm.mem_iff.mp hterm))
      (fun d => isCommonDate_perm hperm) fun t ht => ht.perm hperm
    rw [weightSum_perm hperm]
  · refine index_congr hne (by simpa [scaled] using hne) ?_ hfind
      (List.forall_mem_map.mpr hfind) hinc (List.forall_mem_map.mpr hinc)
      (fun d => isCommonDate_scaled c) fun t ht => ht.scaled hc
    rw [weightSum_scaled, mul_eq_zero, or_iff_right hc]

/-- Two series that share two of their dates. -/
def overlapping (slug : String) : Series ℚ :=
  if slug = "a" then [(⟨1⟩, 1), (⟨3⟩, 2), (⟨4⟩, 6)] else [(⟨2⟩, 10), (⟨3⟩, 20), (⟨4⟩, 2)]

/-- The look-up of the two series. -/
def findOverlapping (slug : String) : Except DataError (Series ℚ) := .ok (overlapping slug)

/-- The second series counts three times as much as the first. -/
def oneToThree : List (Constituent ℚ) := [⟨"a", 1⟩, ⟨"b", 3⟩]

/-- Two overlapping series: the index, other orders and factors of its weights, and one term. -/
theorem index_isMean_overlapping :
    oneToThree ≠ [] ∧ AreFound findOverlapping overlapping oneToThree ∧
      AreIncreasing overlapping oneToThree ∧ weightSum oneToThree ≠ 0 ∧
      index id findOverlapping oneToThree = .ok [(⟨3⟩, 31 / 2), (⟨4⟩, 3)] ∧
      IsIndex overlapping oneToThree [(⟨3⟩, 31 / 2), (⟨4⟩, 3)] ∧
      index id findOverlapping [⟨"b", 3⟩, ⟨"a", 1⟩] = .ok [(⟨3⟩, 31 / 2), (⟨4⟩, 3)] ∧
      index id findOverlapping (scaled (-2) oneToThree) = .ok [(⟨3⟩, 31 / 2), (⟨4⟩, 3)] := by
  have hne : oneToThree ≠ [] := List.cons_ne_nil _ _
  have hfind : AreFound findOverlapping overlapping oneToThree := fun _ _ => rfl
  have hinc : AreIncreasing overlapping oneToThree := by
    unfold AreIncreasing
    decide +kernel
  have hsum : weightSum oneToThree ≠ 0 := by decide +kernel
  have hcommon : IsCommonDate overlapping oneToThree ⟨4⟩ := by
    unfold IsCommonDate
    decide +kernel
  have hvalue : index id findOverlapping oneToThree = .ok [(⟨3⟩, 31 / 2), (⟨4⟩, 3)] := by
    decide +kernel
  obtain ⟨-, -, hmean, hperm, hscaled⟩ := index_isMean id hne hfind hinc
  obtain ⟨t, ht, hindex, -⟩ := hmean hsum ⟨_, hcommon⟩
  obtain rfl : t = [(⟨3⟩, 31 / 2), (⟨4⟩, 3)] := Except.ok.inj (ht.symm.trans hvalue)
  exact ⟨hne, hfind, hinc, hsum, ht, hindex, (hperm _ (List.Perm.swap _ _ _)).trans ht,
    (hscaled (-2) (by norm_num)).trans ht⟩

end IndicatorFormula.Constituent
