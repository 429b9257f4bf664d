import IndicatorFormula.Proofs.Store.Memory
import IndicatorFormula.Store.Files

/-!
# Two stores with one content

A store of files and a store in memory put observations in order by different ways. The one
leaves out of its rows what is no observation, then what a later row replaces, and sorts what is
left; the other collects what it is handed by date. Both deliver the last value of each date, and
a row of values with one for each date in order is settled by its members, so that the two stores
deliver the same.
-/

namespace IndicatorFormula

namespace Series

variable {α : Type} {s t points : Series α} {p : Date × α}

theorem mem_byDate : p ∈ s.byDate ↔ p ∈ s := List.mem_mergeSort

/-- Sorting points of different dates gives them strictly increasing dates. -/
theorem byDate_increasing (h : s.dates.Nodup) : s.byDate.Pairwise fun p q => p.1 < q.1 := by
  have hle : s.byDate.Pairwise fun p q => p.1 ≤ q.1 := by
    refine (List.pairwise_mergeSort (fun p q r hpq hqr => ?_) (fun p q => ?_) s).imp
      fun {p q} hpq => of_decide_eq_true hpq
    · exact decide_eq_true (Int.le_trans (of_decide_eq_true hpq) (of_decide_eq_true hqr))
    · simp only [Bool.or_eq_true, decide_eq_true_eq]
      exact Int.le_total p.1.ordinal q.1.ordinal
  have hdates : s.byDate.dates.Nodup := ((List.mergeSort_perm s _).map Prod.fst).nodup_iff.mpr h
  have hne : s.byDate.Pairwise fun p q => p.1 ≠ q.1 := List.pairwise_map.mp hdates
  refine (hle.and hne).imp fun {p q} hpq => ?_
  exact Int.lt_iff_le_and_ne.mpr ⟨hpq.1, fun heq => hpq.2 (Date.ext_ordinal heq)⟩

/-- To leave out what is replaced and to sort the rest is to collect the points by date. -/
theorem byDate_withoutReplaced (points : Series α) :
    points.withoutReplaced.byDate = latest points :=
  eq_of_increasing (byDate_increasing (nodup_dates_withoutReplaced points))
    (latest_increasing points) fun _ => by rw [mem_byDate, mem_withoutReplaced_iff, mem_latest_iff]

theorem between_between (first last : Option Date) (s : Series α) :
    (s.between first none).between none last = s.between first last := by
  simp [between, List.filter_filter, Bool.and_comm]

end Series

namespace FileRow

/-- Whether a row observes an indicator: it has a stamp, and a value that is a number. -/
def observes (slug : String) (row : FileRow) : Bool :=
  row.code = some slug && row.stamp.isSome && row.value.any fun x => !x.isNaN

/-- The row as it is handed to a store in memory. -/
def handedIn (row : FileRow) : MemoryStore.Row := ⟨row.stamp, row.value⟩

/-- Whether a row was stamped on a date, at whatever time. -/
def isOf (d : Date) (row : FileRow) : Bool := row.stamp.any fun stamp => stamp.date = d

variable {slug : String} {row : FileRow}

/-- A row that observes an indicator has a point, of its date and its value. -/
theorem point?_of_observes (h : row.observes slug = true) :
    ∃ p, row.point? = some p ∧ row.handedIn.point = .ok p ∧ row.value = some p.2 ∧
      ∀ d, row.isOf d = true ↔ p.1 = d := by
  obtain ⟨stamp, value, code⟩ := row
  simp only [observes, Bool.and_eq_true, Option.isSome_iff_exists, Option.any_eq_true] at h
  obtain ⟨⟨-, stamp, rfl⟩, x, rfl, hx⟩ := h
  have hpoint : point? ⟨some stamp, some x, code⟩ = some (stamp.date, x) :=
    if_neg (by simpa using hx)
  exact ⟨(stamp.date, x), hpoint, rfl, rfl, fun d => by simp [isOf]⟩

/-- A row of an indicator that does not observe it has no point. -/
theorem point?_eq_none (hcode : row.code = some slug) (h : row.observes slug = false) :
    row.point? = none := by
  obtain ⟨stamp, value, code⟩ := row
  cases stamp with
  | none => rfl
  | some stamp =>
    cases value with
    | none => rfl
    | some x =>
      have hcode : code = some slug := hcode
      exact if_pos (by simpa [observes, hcode] using h)

end FileRow

namespace FileStore

open MemoryStore (givenPoints)

variable {slug : String} {rows : List FileRow}

/-- The points of the rows of an indicator are those of the rows that observe it. -/
theorem filterMap_scan (slug : String) (rows : List FileRow) :
    (scan slug rows).filterMap FileRow.point? =
      (rows.filter (FileRow.observes slug)).filterMap FileRow.point? := by
  induction rows with
  | nil => rfl
  | cons row rows ih =>
    unfold scan at ih ⊢
    by_cases hcode : row.code = some slug
    · rw [List.filter_cons_of_pos (by simpa using hcode), List.filterMap_cons, List.filter_cons]
      cases hrow : row.observes slug with
      | true => rw [if_pos rfl, List.filterMap_cons, ih]
      | false => simp [FileRow.point?_eq_none hcode hrow, ih]
    · have hrow : row.observes slug = false := by simp [FileRow.observes, hcode]
      rw [List.filter_cons_of_neg (by simpa using hcode), List.filter_cons_of_neg (by simp [hrow]),
        ih]

/-- The rows of one slug are handed in as their points. -/
theorem givenPoints_handedIn (h : ∀ row ∈ rows, row.observes slug = true) :
    givenPoints (rows.map FileRow.handedIn) = .ok (rows.filterMap FileRow.point?) := by
  induction rows with
  | nil => rfl
  | cons row rows ih =>
    obtain ⟨hrow, hrows⟩ := List.forall_mem_cons.mp h
    obtain ⟨p, hp, hgiven, -⟩ := FileRow.point?_of_observes hrow
    rw [givenPoints] at ih ⊢
    rw [List.map_cons, List.mapM_cons, hgiven, ih hrows, List.filterMap_cons, hp]
    rfl

/-- The last point of a date is that of the last row of the date. -/
theorem getLast?_filter_point? (h : ∀ row ∈ rows, row.observes slug = true) (p : Date × Float) :
    ((rows.filterMap FileRow.point?).filter fun q => q.1 = p.1).getLast? = some p ↔
      ∃ row, (rows.filter (FileRow.isOf p.1)).getLast? = some row ∧ row.value = some p.2 := by
  induction rows using List.reverseRecOn with
  | nil => simp
  | append_singleton rows row ih =>
    obtain ⟨hrows, hrow⟩ := List.forall_mem_append.mp h
    obtain ⟨q, hq, -, hvalue, hdate⟩ :=
      FileRow.point?_of_observes (hrow row (List.mem_singleton.mpr rfl))
    have hpoints : [row].filterMap FileRow.point? = [q] := by simp [hq]
    rw [List.filterMap_append, hpoints, List.filter_append, List.filter_append]
    by_cases hof : row.isOf p.1 = true
    · have heq := (hdate p.1).mp hof
      rw [List.filter_cons_of_pos (by simpa using heq), List.filter_nil, List.getLast?_concat,
        List.filter_cons_of_pos hof, List.filter_nil, List.getLast?_concat]
      simp [hvalue, Prod.ext_iff, heq]
    · have hne : q.1 ≠ p.1 := fun heq => hof ((hdate p.1).mpr heq)
      rw [List.filter_cons_of_neg (by simpa using hne), List.filter_cons_of_neg hof]
      simpa only [List.filter_nil, List.append_nil] using ih hrows

/-- The points of rows are the last of each date between the bounds. -/
theorem points_eq (slug : String) (first last : Option Date) (rows : List FileRow) :
    points slug first last rows =
      (Series.latest ((rows.filter (FileRow.observes slug)).filterMap FileRow.point?)).between
        first last := by
  rw [points, Series.between_between, Series.byDate_withoutReplaced, filterMap_scan]

/-- A store of files whose openings do not fail delivers what its rows hold. -/
theorem outcome_fetch {s : FileStore} {rows : List FileRow} (opened : s.failures = [])
    (scanned : s.directory.rows s.root = .ok rows) (slug : String) (first last : Option Date) :
    (s.fetch slug first last).outcome = .ok (points slug first last rows) := by
  have hopen : (s.directory.openAfter s.root 0 (s.attempts - 1).toNat []).outcome = .ok rows := by
    cases (s.attempts - 1).toNat <;> simp [Directory.openAfter, Directory.attempt, scanned]
  simp only [fetch, openFiles, opened, hopen, Except.map, Except.mapError]

end FileStore

/-- A store of files and a store in memory refine one specification. What a store delivers from
the rows of its files, one file after another, is what a store in memory delivers once it was
handed the rows that observe the indicator: of each date between the bounds, both included, the
value of the last such row, and the dates strictly increase. That the files are opened and give
their rows is taken for granted here. -/
theorem FileStore.fetch_refines_memory (s : FileStore) (files : List (List FileRow))
    (opened : s.failures = []) (scanned : s.directory.rows s.root = .ok files.flatten)
    (store : MemoryStore) (info : Indicator) (first last : Option Date) :
    let observed := files.flatten.filter (FileRow.observes info.slug)
    let entered := store.enter info (observed.map FileRow.handedIn)
    ∃ points : Series Float,
      (s.fetch info.slug first last).outcome = .ok points ∧
      entered.1 = .ok () ∧ entered.2.fetch info.slug first last = .ok points ∧
      points.Pairwise (fun p q => p.1 < q.1) ∧
      ∀ p, p ∈ points ↔ ((∀ d ∈ first, d ≤ p.1) ∧ ∀ d ∈ last, p.1 ≤ d) ∧
        ∃ row, (observed.filter (FileRow.isOf p.1)).getLast? = some row ∧
          row.value = some p.2 := by
  intro observed entered
  have hobserves : ∀ row ∈ observed, row.observes info.slug = true :=
    fun row hrow => (List.mem_filter.mp hrow).2
  have hgiven := givenPoints_handedIn hobserves
  have hstored : entered.2.points.find? info.slug =
      some (Series.latest (observed.filterMap FileRow.point?)) := by
    rw [MemoryStore.points_enter, if_pos rfl, hgiven]
    rfl
  refine ⟨_, outcome_fetch opened scanned info.slug first last, ?_, ?_, ?_, fun p => ?_⟩
  · simp only [entered, MemoryStore.enter, hgiven]
  · simp only [MemoryStore.fetch, hstored, points_eq, observed]
  · rw [points_eq]
    exact Series.between_increasing (Series.latest_increasing _) first last
  · rw [points_eq, Series.mem_between_iff, Series.mem_latest_iff,
      getLast?_filter_point? hobserves, and_comm]

/-- Of a row in the evening of a date, one at its beginning in the next file and one without a
value, both stores deliver the second. -/
theorem FileStore.fetch_refines_memory_evening :
    let d : Date := ⟨738000⟩
    let evening : FileRow := ⟨some ⟨d, 82800, 0, none⟩, some 3.0, some "x"⟩
    let morning : FileRow := ⟨some (.ofDate d), some 3.5, some "x"⟩
    let missing : FileRow := ⟨some (.ofDate d), none, some "x"⟩
    let s : FileStore := { root := "data", directory := .holding [evening, morning, missing] }
    ∃ points : Series Float, (s.fetch "x" (some d) (some d)).outcome = .ok points ∧
      (MemoryStore.enter {} { slug := "x" } [evening.handedIn, morning.handedIn]).2.fetch "x"
        (some d) (some d) = .ok points ∧ (d, 3.5) ∈ points := by
  intro d evening morning missing s
  have hobserved : [evening, morning, missing].filter (FileRow.observes "x") =
      [evening, morning] := by rfl
  have hscanned : s.directory.rows s.root = .ok [[evening], [morning, missing]].flatten := by
    simp only [s, Directory.rows, List.flatten_cons, List.flatten_nil, List.cons_append,
      List.nil_append]
  have hrefines := fetch_refines_memory s [[evening], [morning, missing]] rfl hscanned {}
    { slug := "x" } (some d) (some d)
  simp only [List.flatten_cons, List.flatten_nil, List.cons_append, List.nil_append,
    hobserved] at hrefines
  obtain ⟨points, hfetch, -, hmemory, -, hmem⟩ := hrefines
  refine ⟨points, hfetch, hmemory, (hmem (d, 3.5)).mpr ⟨⟨?_, ?_⟩, morning, rfl, rfl⟩⟩
  · rintro _ ⟨⟩
    exact Int.le_refl _
  · rintro _ ⟨⟩
    exact Int.le_refl _

end IndicatorFormula
