import IndicatorFormula.Calculation.Catalog
import IndicatorFormula.Proofs.Calculation.Execution
import IndicatorFormula.Proofs.Formula.Words

/-!
# The catalog over any history

A history is a row of commands: calculations are defined, changed and removed, and run as they
are kept. What a command can do to the repository is one of four things, and each of them keeps
the catalog in order: every calculation stands under its own number, which was never given to
another; its slug is that of its name and of no other calculation; and its formula can be read.
-/

namespace IndicatorFormula

open Text

theorem trimmed_trimmed (s : String) : trimmed (trimmed s) = trimmed s := by
  simp only [trimmed, String.toList_ofList, Formula.strip_strip]

/-- A slug is made of small letters, digits and hyphens. -/
theorem isSlugChar_of_mem_slugOf {name : String} {ch : Char} (h : ch ∈ (slugOf name).toList) :
    isSlugChar ch = true := by
  rw [slugOf, String.toList_ofList] at h
  exact isSlugChar_of_mem h

/-- A calculation whose definition is in order. -/
structure Calculation.IsDefined (c : Calculation) : Prop where
  /-- It has a name. -/
  name_ne : c.name ≠ ""
  /-- There are no blanks around its name. -/
  name_trimmed : trimmed c.name = c.name
  /-- It has a formula. -/
  formula_ne : c.formula ≠ ""
  /-- There are no blanks around its formula. -/
  formula_trimmed : trimmed c.formula = c.formula
  /-- Its slug is that of its name. -/
  slug_eq : c.slug = slugOf c.name
  /-- Something of its name is left in its slug. -/
  slug_ne : c.slug ≠ ""
  /-- Its formula can be read and depends on the indicators that are noted. -/
  read : ∃ tree, Formula.read c.formula = .ok tree ∧ c.dependencies = tree.dependencies

/-- What a run finds out does not touch the definition. -/
theorem Calculation.IsDefined.updated {c : Calculation} (h : c.IsDefined) {now : Stamp}
    {lastResult : Document} {tree : Formula} (hread : Formula.read c.formula = .ok tree) :
    (c.updated now tree.dependencies lastResult).IsDefined where
  name_ne := h.name_ne
  name_trimmed := h.name_trimmed
  formula_ne := h.formula_ne
  formula_trimmed := h.formula_trimmed
  slug_eq := h.slug_eq
  slug_ne := h.slug_ne
  read := ⟨tree, hread, rfl⟩

/-- The slugs of the calculations, as they came. -/
def Repository.slugs (r : Repository) : List String := r.entries.map fun e => e.2.slug

/-- A repository that is in order. -/
structure Repository.IsCatalog (r : Repository) : Prop where
  /-- No number stands for two calculations. -/
  keys : r.entries.keys.Nodup
  /-- Every calculation stands under its own number. -/
  own : ∀ e ∈ r.entries, e.2.id = some e.1
  /-- The numbers that are still to come are larger. -/
  below : ∀ e ∈ r.entries, e.1 < r.nextId
  /-- Calculations with one slug have one number. -/
  slugs : ∀ e ∈ r.entries, ∀ e' ∈ r.entries, e.2.slug = e'.2.slug → e.1 = e'.1
  /-- Every definition is in order. -/
  defined : ∀ e ∈ r.entries, e.2.IsDefined

namespace Repository

variable {r : Repository} {c : Calculation} {id : Int} {slug : String}

theorem isCatalog_empty : IsCatalog {} := by
  constructor <;> simp [Table.keys]

/-- Slugs differ in a repository that is in order. -/
theorem IsCatalog.nodup_slugs (h : r.IsCatalog) : r.slugs.Nodup := by
  have hentries : r.entries.Nodup := List.Nodup.of_map Prod.fst h.keys
  apply hentries.map_on
  intro e he e' he' hslug
  exact Table.eq_of_key_eq h.keys he he' (h.slugs e he e' he' hslug)

/-- A calculation in a repository that is in order has its own number and is defined. -/
theorem IsCatalog.get?_eq (h : r.IsCatalog) (hc : r.get? id = some c) :
    c.id = some id ∧ id < r.nextId ∧ c.IsDefined := by
  have hmem := Table.mem_of_find? hc
  exact ⟨h.own _ hmem, h.below _ hmem, h.defined _ hmem⟩

/-- Every calculation that is listed is kept, once, and names come in their order. -/
theorem sorted_spec (r : Repository) :
    r.sorted.Perm (r.entries.map Prod.snd) ∧ r.sorted.Pairwise fun a b => a.name ≤ b.name := by
  refine ⟨List.mergeSort_perm .., ?_⟩
  have hsorted : r.sorted.Pairwise fun a b => decide (a.name ≤ b.name) = true := by
    apply List.pairwise_mergeSort
    · intro a b c hab hbc
      simp only [decide_eq_true_eq] at hab hbc ⊢
      exact String.le_trans hab hbc
    · intro a b
      simp only [Bool.or_eq_true, decide_eq_true_eq]
      exact String.le_total a.name b.name
  simpa only [decide_eq_true_eq] using hsorted

/-- If the first calculation with a slug has a number then none with another number has it. -/
theorem IsCatalog.key_eq_of_slug_eq (h : r.IsCatalog) {own : Option Int}
    (hfirst : ∀ c, r.bySlug? slug = some c → c.id = own) :
    ∀ e ∈ r.entries, e.2.slug = slug → some e.1 = own := by
  intro e he hslug
  cases hfound : r.bySlug? slug with
  | none =>
    have hnone := List.find?_eq_none.mp hfound e.2 (List.mem_map_of_mem he)
    simp [hslug] at hnone
  | some c =>
    obtain ⟨e', he', rfl⟩ := List.mem_map.mp (List.mem_of_find?_eq_some hfound)
    have hslug' : e'.2.slug = slug := by simpa using List.find?_some hfound
    rw [h.slugs e he e' he' (hslug.trans hslug'.symm), ← h.own e' he']
    exact hfirst e'.2 hfound

/-- A catalog stays in order if a calculation comes under its own number and with a slug that
no other has. -/
theorem IsCatalog.put (h : r.IsCatalog) {next : Int} (hnext : r.nextId ≤ next)
    (hid : c.id = some id) (hbelow : id < next) (hdefined : c.IsDefined)
    (hfree : ∀ e ∈ r.entries, e.2.slug = c.slug → e.1 = id) :
    IsCatalog ⟨r.entries.put id c, next⟩ where
  keys := Table.nodup_keys_put h.keys
  own := by
    intro e he
    rcases (Table.mem_put h.keys).mp he with rfl | ⟨he, -⟩
    · exact hid
    · exact h.own e he
  below := by
    intro e he
    rcases (Table.mem_put h.keys).mp he with rfl | ⟨he, -⟩
    · exact hbelow
    · exact Int.lt_of_lt_of_le (h.below e he) hnext
  slugs := by
    intro e he e' he' hslug
    rcases (Table.mem_put h.keys).mp he with rfl | ⟨he, -⟩
    · rcases (Table.mem_put h.keys).mp he' with rfl | ⟨he', -⟩
      · rfl
      · exact (hfree e' he' hslug.symm).symm
    · rcases (Table.mem_put h.keys).mp he' with rfl | ⟨he', -⟩
      · exact hfree e he hslug
      · exact h.slugs e he e' he' hslug
  defined := by
    intro e he
    rcases (Table.mem_put h.keys).mp he with rfl | ⟨he, -⟩
    · exact hdefined
    · exact h.defined e he

/-- A repository in order stays so when a calculation is deleted. -/
theorem IsCatalog.deleted (h : r.IsCatalog) (id : Int) : (r.delete id).IsCatalog where
  keys := Table.nodup_keys_erase h.keys
  own e he := h.own e (Table.mem_erase.mp he).1
  below e he := h.below e (Table.mem_erase.mp he).1
  slugs e he e' he' := h.slugs e (Table.mem_erase.mp he).1 e' (Table.mem_erase.mp he').1
  defined e he := h.defined e (Table.mem_erase.mp he).1

end Repository

namespace Catalog

variable {r r' : Repository} {c : Calculation} {id : Int}

/-- A formula is accepted just when it can be read. -/
theorem readFormula_eq_ok_iff {formula : String} {tree : Formula} :
    readFormula formula = .ok tree ↔ Formula.read formula = .ok tree := by
  unfold readFormula
  split
  · next tree' hread => rw [hread, Except.ok.injEq, Except.ok.injEq]
  · next e hread => simp [hread]

/-- A type of output is accepted just when it is listed. -/
theorem readOutputForm_eq_ok_iff {name : String} {form : OutputForm} :
    readOutputForm name = .ok form ↔ OutputForm.ofName? name = some form := by
  unfold readOutputForm
  split
  · next form' hform => rw [hform, Except.ok.injEq, Option.some.injEq]
  · next hform => simp [hform]

/-- A slug is accepted just when it is that of the name and no other calculation has it. -/
theorem uniqueSlug_eq_ok_iff {name slug : String} {own : Option Int} :
    uniqueSlug r name own = .ok slug ↔
      slug = slugOf name ∧ slug ≠ "" ∧ ∀ c, r.bySlug? slug = some c → c.id = own := by
  unfold uniqueSlug
  by_cases hempty : slugOf name = ""
  · rw [if_pos hempty]
    exact iff_of_false nofun fun ⟨hslug, hne, _⟩ => hne (hslug.trans hempty)
  · rw [if_neg hempty]
    cases hfound : r.bySlug? (slugOf name) with
    | none =>
      constructor
      · rintro ⟨⟩
        exact ⟨rfl, hempty, by simp [hfound]⟩
      · rintro ⟨rfl, -, -⟩
        rfl
    | some c =>
      by_cases hown : c.id = own
      · simp only [if_pos hown]
        constructor
        · rintro ⟨⟩
          exact ⟨rfl, hempty, by simp [hfound, hown]⟩
        · rintro ⟨rfl, -, -⟩
          rfl
      · simp only [if_neg hown]
        refine iff_of_false nofun ?_
        rintro ⟨rfl, -, hfree⟩
        exact hown (hfree c hfound)

/-- A definition that is accepted for the given texts. -/
structure IsAccepted (r : Repository) (own : Option Int) (name formula outputForm : String)
    (d : Definition) : Prop where
  /-- The name has no blanks around it. -/
  name_eq : d.name = trimmed name
  /-- There is a name. -/
  name_ne : d.name ≠ ""
  /-- The formula has no blanks around it. -/
  formula_eq : d.formula = trimmed formula
  /-- There is a formula. -/
  formula_ne : d.formula ≠ ""
  /-- The type of output exists. -/
  outputForm_eq : OutputForm.ofName? outputForm = some d.outputForm
  /-- The formula can be read. -/
  read_eq : Formula.read d.formula = .ok d.tree
  /-- The slug is that of the name. -/
  slug_eq : d.slug = slugOf d.name
  /-- Something of the name is left in the slug. -/
  slug_ne : d.slug ≠ ""
  /-- No other calculation has the slug. -/
  free : ∀ c, r.bySlug? d.slug = some c → c.id = own

/-- What is accepted is looked over without a complaint, and the other way round. -/
theorem define_eq_ok_iff {own : Option Int} {name formula form : String} {d : Definition} :
    define r own name formula form = .ok d ↔ IsAccepted r own name formula form d := by
  constructor
  · intro h
    simp only [define] at h
    split at h
    · cases h
    · next hname =>
      split at h
      · cases h
      · next hformula =>
        obtain ⟨outputForm, hform, h⟩ := Except.bind_eq_ok.mp h
        obtain ⟨tree, htree, h⟩ := Except.bind_eq_ok.mp h
        obtain ⟨slug, hslug, h⟩ := Except.bind_eq_ok.mp h
        obtain ⟨hslug, hne, hfree⟩ := uniqueSlug_eq_ok_iff.mp hslug
        cases h
        exact ⟨rfl, hname, rfl, hformula, readOutputForm_eq_ok_iff.mp hform,
          readFormula_eq_ok_iff.mp htree, hslug, hne, hfree⟩
  · rintro ⟨hname, hname_ne, hformula, hformula_ne, hform, hread, hslug, hslug_ne, hfree⟩
    have hform' := readOutputForm_eq_ok_iff.mpr hform
    have hread' := readFormula_eq_ok_iff.mpr hread
    have hslug' := uniqueSlug_eq_ok_iff.mpr ⟨hslug, hslug_ne, hfree⟩
    rw [hname] at hname_ne hslug'
    rw [hformula] at hformula_ne hread'
    simp only [define, if_neg hname_ne, if_neg hformula_ne, hform', hread', hslug']
    obtain ⟨name', slug', formula', tree', form'⟩ := d
    obtain rfl : name' = trimmed name := hname
    obtain rfl : formula' = trimmed formula := hformula
    rfl

/-- A calculation whose definition was accepted is in order. -/
theorem IsAccepted.isDefined {own : Option Int} {name formula form : String} {d : Definition}
    (h : IsAccepted r own name formula form d) (id : Option Int) (description : String)
    (lastRun : Option Stamp) (lastResult : Document) :
    Calculation.IsDefined ⟨id, d.name, d.slug, d.formula, d.outputForm, description,
      d.tree.dependencies, lastRun, lastResult⟩ where
  name_ne := h.name_ne
  name_trimmed := by rw [h.name_eq, trimmed_trimmed]
  formula_ne := h.formula_ne
  formula_trimmed := by rw [h.formula_eq, trimmed_trimmed]
  slug_eq := h.slug_eq
  slug_ne := h.slug_ne
  read := ⟨d.tree, h.read_eq, rfl⟩

/-- A calculation is given just when it is kept. -/
theorem get_eq_ok_iff : get r id = .ok c ↔ r.get? id = some c := by
  unfold Catalog.get
  cases r.get? id <;> simp

/-- What is defined is a calculation in order with a free slug, added under the next number. -/
theorem create_eq_ok {name formula form description : String}
    (h : create r name formula form description = .ok (c, r')) :
    ∃ body, (c, r') = r.add body ∧ body.IsDefined ∧
      ∀ c, r.bySlug? body.slug = some c → c.id = none := by
  obtain ⟨d, hd, h⟩ := Except.bind_eq_ok.mp h
  have haccepted := define_eq_ok_iff.mp hd
  cases h
  exact ⟨_, rfl, haccepted.isDefined .., haccepted.free⟩

/-- What is changed is a calculation that is kept, and it is in order with a free slug then. -/
theorem update_eq_ok (hr : r.IsCatalog) {changes : Changes}
    (h : update r id changes = .ok (c, r')) :
    r' = r.replaced id c ∧ c.id = some id ∧ id < r.nextId ∧ c.IsDefined ∧
      ∀ c', r.bySlug? c.slug = some c' → c'.id = some id := by
  obtain ⟨current, hcurrent, h⟩ := Except.bind_eq_ok.mp h
  obtain ⟨d, hd, h⟩ := Except.bind_eq_ok.mp h
  have haccepted := define_eq_ok_iff.mp hd
  obtain ⟨hid, hbelow, -⟩ := hr.get?_eq (get_eq_ok_iff.mp hcurrent)
  cases h
  exact ⟨Repository.getD_save? hid, hid, hbelow, haccepted.isDefined .., haccepted.free⟩

/-- A calculation is deleted just when it is kept. -/
theorem delete_eq_ok_iff :
    delete r id = .ok r' ↔ r' = r.delete id ∧ ∃ c, r.get? id = some c := by
  unfold Catalog.delete
  cases r.get? id with
  | none => simp
  | some c => simp [eq_comm]

/-- What a catalog is told to do. -/
inductive Command where
  /-- Define a calculation. -/
  | create (name formula outputForm description : String)
  /-- Change the definition of a calculation. -/
  | update (id : Int) (changes : Changes)
  /-- Remove a calculation. -/
  | delete (id : Int)
  /-- Run a calculation as it is kept. -/
  | run (id : Int) (store : SeriesStore) (now : Stamp) (context : Context)

/-- The repository that an operation leaves; one that is refused changes nothing. -/
def settled (r : Repository) : Except CatalogError (Calculation × Repository) → Repository
  | .ok (_, r') => r'
  | .error _ => r

namespace Command

/-- The repository after a command. -/
def apply (r : Repository) : Command → Repository
  | create name formula outputForm description =>
    settled r (Catalog.create r name formula outputForm description)
  | update id changes => settled r (Catalog.update r id changes)
  | delete id => match Catalog.delete r id with
    | .ok r' => r'
    | .error _ => r
  | run id store now context => match get r id with
    | .ok c => (c.execute store now r true context).repository
    | .error _ => r

/-- The number of the calculation that a command defines. -/
def issued? (r : Repository) : Command → Option Int
  | create name formula outputForm description =>
    match Catalog.create r name formula outputForm description with
    | .ok (c, _) => c.id
    | .error _ => none
  | _ => none

end Command

/-- The repository after a history. -/
def replay (r : Repository) (commands : List Command) : Repository := commands.foldl Command.apply r

/-- The numbers that are given out over a history, in order. -/
def numbers (r : Repository) : List Command → List Int
  | [] => []
  | command :: rest => (command.issued? r).toList ++ numbers (command.apply r) rest

/-- What a command can do to a repository. -/
inductive Change (r : Repository) : Repository → Prop
  /-- Nothing. -/
  | kept : Change r r
  /-- A calculation is added. -/
  | added {c : Calculation} (defined : c.IsDefined)
    (free : ∀ e ∈ r.entries, e.2.slug ≠ c.slug) : Change r (r.add c).2
  /-- A calculation takes the place of the one with its number. -/
  | replaced {id : Int} {c : Calculation} (own : c.id = some id) (below : id < r.nextId)
    (defined : c.IsDefined) (free : ∀ e ∈ r.entries, e.2.slug = c.slug → e.1 = id) :
    Change r (r.replaced id c)
  /-- A calculation is removed. -/
  | deleted (id : Int) : Change r (r.delete id)

/-- Whatever is done to a catalog keeps it in order. -/
theorem Change.isCatalog (h : Change r r') (hr : r.IsCatalog) : r'.IsCatalog := by
  cases h with
  | kept => exact hr
  | @added c defined free =>
    have hstored : Calculation.IsDefined { c with id := some r.nextId } :=
      ⟨defined.name_ne, defined.name_trimmed, defined.formula_ne, defined.formula_trimmed,
        defined.slug_eq, defined.slug_ne, defined.read⟩
    apply hr.put (Int.le_of_lt (Int.lt_succ r.nextId)) rfl (Int.lt_succ r.nextId) hstored
    intro e he hslug
    exact absurd hslug (free e he)
  | replaced own below defined free => exact hr.put (Int.le_refl _) own below defined free
  | deleted id => exact hr.deleted id

/-- Numbers to come only grow. -/
theorem Change.nextId_le (h : Change r r') : r.nextId ≤ r'.nextId := by
  cases h with
  | added defined free => exact Int.le_of_lt (Int.lt_succ r.nextId)
  | kept => exact Int.le_refl _
  | replaced own below defined free => exact Int.le_refl _
  | deleted id => exact Int.le_refl _

/-- A command does to a catalog one of the things that can be done. -/
theorem change_apply (hr : r.IsCatalog) (command : Command) : Change r (command.apply r) := by
  cases command with
  | create name formula outputForm description =>
    simp only [Command.apply]
    cases hok : create r name formula outputForm description with
    | error e => exact .kept
    | ok result =>
      obtain ⟨body, hadd, hdefined, hfirst⟩ := create_eq_ok hok
      have hr' : result.2 = (r.add body).2 := congrArg Prod.snd hadd
      simp only [settled, hr']
      apply Change.added hdefined
      intro e he hslug
      exact absurd (hr.key_eq_of_slug_eq hfirst e he hslug) (Option.some_ne_none e.1)
  | update id changes =>
    simp only [Command.apply]
    cases hok : update r id changes with
    | error e => exact .kept
    | ok result =>
      obtain ⟨hr', hid, hbelow, hdefined, hfirst⟩ := update_eq_ok hr hok
      simp only [settled, hr']
      apply Change.replaced hid hbelow hdefined
      intro e he hslug
      exact Option.some.inj (hr.key_eq_of_slug_eq hfirst e he hslug)
  | delete id =>
    simp only [Command.apply]
    cases hok : Catalog.delete r id with
    | error e => exact .kept
    | ok r' =>
      simp only [(delete_eq_ok_iff.mp hok).1]
      exact .deleted id
  | run id store now context =>
    simp only [Command.apply]
    cases hok : get r id with
    | error e => exact .kept
    | ok c =>
      have hc := get_eq_ok_iff.mp hok
      obtain ⟨hid, hbelow, hdefined⟩ := hr.get?_eq hc
      have hends := Calculation.execute_ends store now r true context c
      rcases hends.kept_or_replaced hid with hkept | ⟨tree, lastResult, hread, hreplaced⟩
      · simp only [hkept]
        exact .kept
      · simp only [hreplaced]
        have hupdated : (c.updated now tree.dependencies lastResult).id = some id := hid
        apply Change.replaced hupdated hbelow (hdefined.updated hread)
        -- The slug of the calculation is what it was, and there is no other with it.
        intro e he hslug
        exact hr.slugs e he (id, c) (Table.mem_of_find? hc) hslug

/-- A repository in order stays so over any history. -/
theorem isCatalog_replay (hr : r.IsCatalog) (commands : List Command) :
    (replay r commands).IsCatalog := by
  induction commands generalizing r with
  | nil => exact hr
  | cons command rest ih => exact ih ((change_apply hr command).isCatalog hr)

/-- A number that is given out is the next one. -/
theorem issued?_eq_some {n : Int} {command : Command} (h : command.issued? r = some n) :
    n = r.nextId ∧ (command.apply r).nextId = n + 1 := by
  cases command with
  | create name formula outputForm description =>
    simp only [Command.issued?] at h
    simp only [Command.apply]
    cases hok : create r name formula outputForm description with
    | error e => simp [hok] at h
    | ok result =>
      obtain ⟨body, hadd, -, -⟩ := create_eq_ok hok
      obtain rfl : result = r.add body := hadd
      simp only [hok, Repository.add, Option.some.injEq] at h
      subst h
      exact ⟨rfl, rfl⟩
  | _ => cases h

/-- Numbers that are given out later are not below the next one. -/
theorem nextId_le_of_mem_numbers (hr : r.IsCatalog) {commands : List Command} {n : Int}
    (h : n ∈ numbers r commands) : r.nextId ≤ n := by
  induction commands generalizing r with
  | nil => cases h
  | cons command rest ih =>
    rcases List.mem_append.mp h with h | h
    · have hissued : command.issued? r = some n := by simpa using h
      exact Int.le_of_eq (issued?_eq_some hissued).1.symm
    · have hchange := change_apply hr command
      exact Int.le_trans hchange.nextId_le (ih (hchange.isCatalog hr) h)

/-- The numbers that are given out increase. -/
theorem numbers_increasing (hr : r.IsCatalog) (commands : List Command) :
    (numbers r commands).Pairwise (· < ·) := by
  induction commands generalizing r with
  | nil => exact List.Pairwise.nil
  | cons command rest ih =>
    have hcatalog := (change_apply hr command).isCatalog hr
    cases hissued : command.issued? r with
    | none =>
      simp only [numbers, hissued, Option.toList_none, List.nil_append]
      exact ih hcatalog
    | some n =>
      have hnext := (issued?_eq_some hissued).2
      simp only [numbers, hissued, Option.toList_some, List.singleton_append]
      refine List.pairwise_cons.mpr ⟨?_, ih hcatalog⟩
      intro m hm
      have hm' := nextId_le_of_mem_numbers hcatalog hm
      omega

/-- Over any history of an empty catalog the numbers that are given out increase, so none is
given twice, and at its end the catalog is in order: every calculation stands under its own
number, below those to come; slugs differ; names, formulas, slugs and dependencies are as they
are noted, and no run of what is kept fails because its formula cannot be read. The list of
calculations has each of them once and goes by their names. -/
theorem replay_keeps_catalog (commands : List Command) :
    let r := replay {} commands
    (numbers {} commands).Pairwise (· < ·) ∧
      r.IsCatalog ∧
      r.slugs.Nodup ∧
      (∀ e ∈ r.entries, (∀ ch ∈ e.2.slug.toList, isSlugChar ch = true) ∧
        ∀ (store : SeriesStore) (now : Stamp) (keep : Bool) (context : Context) (o : Outcome),
          (e.2.execute store now r keep context).result = .ok o →
            o.failedStage ≠ some .reading) ∧
      r.sorted.Perm (r.entries.map Prod.snd) ∧
      r.sorted.Pairwise fun a b => a.name ≤ b.name := by
  intro r
  have hr : r.IsCatalog := isCatalog_replay Repository.isCatalog_empty commands
  refine ⟨numbers_increasing Repository.isCatalog_empty commands, hr, hr.nodup_slugs, ?_,
    r.sorted_spec⟩
  intro e he
  have hdefined := hr.defined e he
  constructor
  · intro ch hch
    rw [hdefined.slug_eq] at hch
    exact isSlugChar_of_mem_slugOf hch
  · intro store now keep context o ho hstage
    obtain ⟨tree, hread, -⟩ := hdefined.read
    have hends := Calculation.execute_ends store now r keep context e.2
    rw [ho] at hends
    obtain ⟨e', he'⟩ := hends.unread_of_reading hstage
    rw [hread] at he'
    cases he'

end Catalog

end IndicatorFormula
