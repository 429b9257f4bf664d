import IndicatorFormula.Proofs.Calculation.Operations

/-!
# What an operation leaves alone

An operation on a catalog that came about by operations and runs touches at most one entry. One
that is refused touches none, in whichever step it is refused. A change without new values leaves
the calculation as it is.
-/

namespace IndicatorFormula

open Text

namespace Catalog

/-- A repository that has gained a calculation under a fresh number. -/
structure Gains (r r' : Repository) (c : Calculation) : Prop where
  /-- The calculation has the next number. -/
  own : c.id = some r.nextId
  /-- Nothing was kept under it. -/
  fresh : r.get? r.nextId = none
  /-- Nothing else has changed. -/
  entries_eq : r'.entries = r.entries ++ [(r.nextId, c)]
  /-- The number is used up. -/
  nextId_eq : r'.nextId = r.nextId + 1

/-- A repository that has changed at most under one number. -/
structure AgreesBut (id : Int) (r r' : Repository) : Prop where
  /-- Every other calculation is what it was. -/
  others : ∀ k, k ≠ id → r'.get? k = r.get? k
  /-- No number is used up. -/
  nextId_eq : r'.nextId = r.nextId

/-- A calculation that differs from an earlier one as it was told to. -/
structure Revises (changes : Changes) (current c : Calculation) : Prop where
  /-- It has its number still. -/
  id_eq : c.id = current.id
  /-- It is known still when it last succeeded. -/
  lastRun_eq : c.lastRun = current.lastRun
  /-- It is known still what it put out then. -/
  lastResult_eq : c.lastResult = current.lastResult
  /-- The name is the new one without blanks around it, or the old one. -/
  name_eq : c.name = (changes.name.map trimmed).getD current.name
  /-- The formula is the new one without blanks around it, or the old one. -/
  formula_eq : c.formula = (changes.formula.map trimmed).getD current.formula
  /-- The type of output is the one that was named, or the old one. -/
  outputForm_eq :
    changes.outputForm.elim (some current.outputForm) OutputForm.ofName? = some c.outputForm
  /-- The description is the new one without blanks around it, or the old one. -/
  description_eq : c.description = (changes.description.map trimmed).getD current.description

variable {r r' : Repository} {c : Calculation} {id : Int}

theorem ofName?_name (form : OutputForm) : OutputForm.ofName? form.name = some form := by
  cases form <;> decide

/-- A field that is not given keeps what was trimmed before. -/
theorem getD_trimmed {given : Option String} {old : String} (h : trimmed old = old) :
    trimmed (given.getD old) = (given.map trimmed).getD old := by
  cases given with
  | none => exact h
  | some new => rfl

/-- The next number stands for no calculation. -/
theorem get?_nextId (hr : r.IsCatalog) : r.get? r.nextId = none := by
  refine Option.eq_none_iff_forall_ne_some.mpr fun c hc => ?_
  exact lt_irrefl _ (hr.get?_eq hc).2.1

/-- A calculation that is created is a gain, and nothing else changes. -/
theorem gains_of_create (hr : r.IsCatalog) {name formula form description : String}
    (h : create r name formula form description = .ok (c, r')) : Gains r r' c := by
  obtain ⟨body, hadd, -, -⟩ := create_eq_ok h
  have hfresh := get?_nextId hr
  obtain ⟨rfl, rfl⟩ := Prod.mk.inj hadd
  exact ⟨rfl, hfresh, Table.put_of_find?_eq_none hfresh, rfl⟩

/-- A calculation can be defined just when its definition is accepted. -/
theorem exists_create_iff {name formula form description : String} :
    (∃ c r', create r name formula form description = .ok (c, r')) ↔
      ∃ d, IsAccepted r none name formula form d := by
  constructor
  · rintro ⟨c, r', h⟩
    obtain ⟨d, hd, -⟩ := Except.bind_eq_ok.mp h
    exact ⟨d, define_eq_ok_iff.mp hd⟩
  · rintro ⟨d, hd⟩
    exact ⟨_, _, Except.bind_eq_ok.mpr ⟨d, define_eq_ok_iff.mpr hd, rfl⟩⟩

/-- Over any history numbers to come only grow. -/
theorem nextId_le_replay (hr : r.IsCatalog) (commands : List Command) :
    r.nextId ≤ (replay r commands).nextId := by
  induction commands generalizing r with
  | nil => exact Int.le_refl _
  | cons command rest ih =>
    have hchange := change_apply hr command
    exact Int.le_trans hchange.nextId_le (ih (hchange.isCatalog hr))

/-- The next number was never given out. -/
theorem lt_nextId_of_mem_numbers (hr : r.IsCatalog) {commands : List Command} {n : Int}
    (h : n ∈ numbers r commands) : n < (replay r commands).nextId := by
  induction commands generalizing r with
  | nil => cases h
  | cons command rest ih =>
    have hcatalog := (change_apply hr command).isCatalog hr
    rcases List.mem_append.mp h with h | h
    · have hissued : command.issued? r = some n := by simpa using h
      have hnext := (issued?_eq_some hissued).2
      have hle := nextId_le_replay hcatalog rest
      change n < (replay (command.apply r) rest).nextId
      omega
    · exact ih hcatalog h

/-- An update keeps what was accepted in the place of what was kept. -/
theorem exists_of_update {changes : Changes} (h : update r id changes = .ok (c, r')) :
    ∃ current d, r.get? id = some current ∧
      IsAccepted r (some id) (changes.name.getD current.name)
        (changes.formula.getD current.formula)
        (changes.outputForm.getD current.outputForm.name) d ∧
      c = d.inPlaceOf current changes := by
  obtain ⟨current, hcurrent, h⟩ := Except.bind_eq_ok.mp h
  obtain ⟨d, hd, h⟩ := Except.bind_eq_ok.mp h
  refine ⟨current, d, get_eq_ok_iff.mp hcurrent, define_eq_ok_iff.mp hd, ?_⟩
  exact (Prod.mk.inj (Except.ok.inj h)).1.symm

/-- A calculation can be changed just when it is kept and its new definition is accepted. -/
theorem exists_update_iff {changes : Changes} :
    (∃ c r', update r id changes = .ok (c, r')) ↔
      ∃ current d, get r id = .ok current ∧
        IsAccepted r (some id) (changes.name.getD current.name)
          (changes.formula.getD current.formula)
          (changes.outputForm.getD current.outputForm.name) d := by
  constructor
  · rintro ⟨c, r', h⟩
    obtain ⟨current, d, hcurrent, hd, -⟩ := exists_of_update h
    exact ⟨current, d, get_eq_ok_iff.mpr hcurrent, hd⟩
  · rintro ⟨current, d, hcurrent, hd⟩
    exact ⟨_, _, Except.bind_eq_ok.mpr ⟨current, hcurrent,
      Except.bind_eq_ok.mpr ⟨d, define_eq_ok_iff.mpr hd, rfl⟩⟩⟩

/-- A change keeps what it is given no new value for. -/
theorem IsAccepted.revises {changes : Changes} {current : Calculation} {d : Definition}
    (hcurrent : current.IsDefined)
    (h : IsAccepted r (some id) (changes.name.getD current.name)
      (changes.formula.getD current.formula)
      (changes.outputForm.getD current.outputForm.name) d) :
    Revises changes current (d.inPlaceOf current changes) where
  id_eq := rfl
  lastRun_eq := rfl
  lastResult_eq := rfl
  name_eq := h.name_eq.trans (getD_trimmed hcurrent.name_trimmed)
  formula_eq := h.formula_eq.trans (getD_trimmed hcurrent.formula_trimmed)
  outputForm_eq := by
    have hform := h.outputForm_eq
    cases hgiven : changes.outputForm with
    | none =>
      rw [hgiven, Option.getD_none, ofName?_name] at hform
      exact hform
    | some given =>
      rw [hgiven] at hform
      exact hform
  description_eq := rfl

theorem agreesBut_replaced : AgreesBut id r (r.replaced id c) where
  others k hk := by rw [Repository.get?_replaced, if_neg hk]
  nextId_eq := rfl

/-- The definition of a calculation that is kept is accepted in its own place. -/
theorem IsCatalog.accepts (hr : r.IsCatalog) (hc : r.get? id = some c) :
    ∃ d, IsAccepted r (some id) c.name c.formula c.outputForm.name d ∧ d.inPlaceOf c {} = c := by
  obtain ⟨-, -, hdefined⟩ := hr.get?_eq hc
  obtain ⟨tree, hread, hdependencies⟩ := hdefined.read
  refine ⟨⟨c.name, c.slug, c.formula, tree, c.outputForm⟩, ?_, ?_⟩
  · refine ⟨hdefined.name_trimmed.symm, hdefined.name_ne, hdefined.formula_trimmed.symm,
      hdefined.formula_ne, ofName?_name _, hread, hdefined.slug_eq, hdefined.slug_ne, ?_⟩
    -- The first calculation with the slug is the calculation itself, for slugs are distinct.
    intro c' hc'
    obtain ⟨e, he, rfl⟩ := List.mem_map.mp (List.mem_of_find?_eq_some hc')
    have hslug : e.2.slug = c.slug := by simpa using List.find?_some hc'
    rw [hr.own e he, hr.slugs e he (id, c) (Table.mem_of_find? hc) hslug]
  · rw [Definition.inPlaceOf, ← hdependencies]
    rfl

/-- An update with no changes changes nothing. -/
theorem update_nothing (hr : r.IsCatalog) (hc : r.get? id = some c) :
    update r id {} = .ok (c, r) := by
  obtain ⟨d, haccepted, hsame⟩ := IsCatalog.accepts hr hc
  rw [update_of_define {} (get_eq_ok_iff.mpr hc) (hr.get?_eq hc).1
    (define_eq_ok_iff.mpr haccepted), hsame, Repository.replaced,
    Table.put_of_find?_eq_some hc]

theorem agreesBut_delete : AgreesBut id r (r.delete id) where
  others k hk := by rw [Repository.get?_delete, if_neg hk]
  nextId_eq := rfl

/-- Operations are atomic and touch one entry. Over any history of an empty catalog an operation
that is refused has written nothing. One that succeeds adds one calculation under a number that
was never given out; or changes one, in its place, keeps what came of its latest run and whatever
there is no new value for, and gives what is kept then; or removes one. Definitions that are
accepted are not refused, nor is the removal of what is kept; and a change without new values
succeeds and changes nothing. -/
theorem operations_touch_one (commands : List Command) :
    let r := replay {} commands
    (∀ name formula form description,
      (∀ e, create r name formula form description = .error e →
        (creating name formula form description).on r = (.error (.refused e), r)) ∧
      (∀ c r', create r name formula form description = .ok (c, r') →
        (creating name formula form description).on r = (.ok c, r') ∧ Gains r r' c ∧
          ∀ n ∈ numbers {} commands, n < r.nextId) ∧
      ((∃ c r', create r name formula form description = .ok (c, r')) ↔
        ∃ d, IsAccepted r none name formula form d)) ∧
    (∀ id changes,
      (∀ e, update r id changes = .error e →
        (updating id changes).on r = (.error (.refused e), r)) ∧
      (∀ c r', update r id changes = .ok (c, r') →
        (updating id changes).on r = (.ok c, r') ∧ AgreesBut id r r' ∧
          r'.entries.keys = r.entries.keys ∧ get r' id = .ok c ∧
          ∃ current, get r id = .ok current ∧ Revises changes current c) ∧
      ((∃ c r', update r id changes = .ok (c, r')) ↔
        ∃ current d, get r id = .ok current ∧
          IsAccepted r (some id) (changes.name.getD current.name)
            (changes.formula.getD current.formula)
            (changes.outputForm.getD current.outputForm.name) d)) ∧
    (∀ id,
      (∀ e, delete r id = .error e → (deleting id).on r = (.error (.refused e), r)) ∧
      (∀ r', delete r id = .ok r' →
        (deleting id).on r = (.ok (), r') ∧ AgreesBut id r r' ∧ r'.get? id = none) ∧
      ((∃ r', delete r id = .ok r') ↔ ∃ c, get r id = .ok c)) ∧
    ∀ id c, get r id = .ok c → update r id {} = .ok (c, r) := by
  intro r
  have hr : r.IsCatalog := isCatalog_replay Repository.isCatalog_empty commands
  refine ⟨?_, ?_, ?_, ?_⟩
  · intro name formula form description
    have hsteps := on_creating (r := r) name formula form description
    refine ⟨fun e he => by rw [hsteps, he]; rfl, fun c r' hok => ?_, exists_create_iff⟩
    refine ⟨by rw [hsteps, hok]; rfl, gains_of_create hr hok, fun n hn => ?_⟩
    exact lt_nextId_of_mem_numbers Repository.isCatalog_empty hn
  · intro id changes
    have hsteps := on_updating (r := r) id (fun c hc => (hr.get?_eq hc).1) changes
    refine ⟨fun e he => by rw [hsteps, he]; rfl, fun c r' hok => ?_, exists_update_iff⟩
    obtain ⟨current, d, hcurrent, haccepted, hc⟩ := exists_of_update hok
    have hreplaced := (update_eq_ok hr hok).1
    refine ⟨by rw [hsteps, hok]; rfl, hreplaced ▸ agreesBut_replaced, ?_, ?_, current,
      get_eq_ok_iff.mpr hcurrent, hc ▸ haccepted.revises (hr.get?_eq hcurrent).2.2⟩
    · rw [hreplaced]
      exact Table.keys_put_of_find? hcurrent
    · rw [get_eq_ok_iff, hreplaced, Repository.get?_replaced, if_pos rfl]
  · intro id
    have hsteps := on_deleting (r := r) id
    refine ⟨fun e he => by rw [hsteps, he]; rfl, fun r' hok => ?_, ?_⟩
    · obtain ⟨rfl, -⟩ := delete_eq_ok_iff.mp hok
      refine ⟨by rw [hsteps, hok]; rfl, agreesBut_delete, ?_⟩
      rw [Repository.get?_delete, if_pos rfl]
    · simp only [delete_eq_ok_iff, get_eq_ok_iff, exists_eq_left]
  · intro id c hc
    exact update_nothing hr (get_eq_ok_iff.mp hc)

/-- Two calculations: a third with the slug of the second is refused, and another is kept; the
first takes another name; there is no third to be removed; and the second can be left as it is. -/
theorem operations_touch_one_pair :
    let r := replay {} [.create "A" "x" "series" "", .create "B" "y" "single" ""]
    (creating " b" "z" "series" "").on r = (.error (.refused (.takenSlug "b")), r) ∧
      (∃ c r', create r "C" "z" "single" "" = .ok (c, r') ∧ Gains r r' c) ∧
      (∃ c r', update r 1 { name := some "D" } = .ok (c, r') ∧ AgreesBut 1 r r' ∧
        get r' 1 = .ok c) ∧
      (deleting 3).on r = (.error (.refused (.notFound 3)), r) ∧
      ∃ c, get r 2 = .ok c ∧ update r 2 {} = .ok (c, r) := by
  intro r
  obtain ⟨hcreate, hupdate, hdelete, hnothing⟩ :=
    operations_touch_one [.create "A" "x" "series" "", .create "B" "y" "single" ""]
  refine ⟨(hcreate " b" "z" "series" "").1 _ rfl, ?_, ?_, (hdelete 3).1 _ rfl, ?_⟩
  · obtain ⟨-, hgains, -⟩ := (hcreate "C" "z" "single" "").2.1 _ _ rfl
    exact ⟨_, _, rfl, hgains⟩
  · obtain ⟨-, hagrees, -, hget, -⟩ := (hupdate 1 { name := some "D" }).2.1 _ _ rfl
    exact ⟨_, _, rfl, hagrees, hget⟩
  · exact ⟨_, rfl, hnothing 2 _ rfl⟩

end Catalog

end IndicatorFormula
