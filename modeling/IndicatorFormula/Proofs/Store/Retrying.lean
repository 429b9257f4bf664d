import Mathlib
import IndicatorFormula.Store.Files

/-!
# Openings of files and what is remembered of them

A request to a store of files opens the files again and again while the system fails and an
attempt is left, and waits a little longer before each new attempt. How often that is depends on
two things, on how many attempts there are and on when something else than a failure of the
system is met. Only a listing of the indicators that succeeds is remembered, and from then on
nobody who asks for an indicator opens the files.
-/

namespace IndicatorFormula

/-- What the openings of the files meet, one after another: the failures that are planned, and
then what stands there. -/
def Directory.meets (root : String) (directory : Directory) (failures : List StoreFault)
    (i : Nat) : Except StoreFault (List FileRow) :=
  match failures[i]? with
  | some fault => .error fault
  | none => directory.rows root

/-- The seconds that pass before each new attempt. -/
def backoff : Nat → Nat
  | 0 => 2
  | 1 => 2
  | 2 => 4
  | 3 => 8
  | _ => 10

/-- The count of openings when each failure of the system is followed by another attempt while
one is left. -/
structure IsRetried (attempts : Nat) (meets : Nat → Except StoreFault (List FileRow)) (n : Nat) :
    Prop where
  /-- The files are opened at least once. -/
  pos : 0 < n
  /-- There is no further attempt when all are used up. -/
  le : n ≤ attempts
  /-- All but the last opening meet a failure of the system. -/
  again : ∀ i, i + 1 < n → ∃ message, meets i = .error (.outage message)
  /-- The last one meets something else, or there is no attempt left. -/
  enough : n = attempts ∨ ∀ message, meets (n - 1) ≠ .error (.outage message)

namespace IsRetried

variable {attempts n : Nat} {meets : Nat → Except StoreFault (List FileRow)}

/-- What is no failure of the system is met once. -/
theorem once (h : ∀ message, meets 0 ≠ .error (.outage message)) :
    IsRetried (attempts + 1) meets 1 where
  pos := Nat.one_pos
  le := Nat.le_add_left 1 attempts
  again _ hi := absurd hi (by omega)
  enough := .inr h

/-- A failure of the system is followed by the openings of one attempt less. -/
theorem next {message : String} (h : meets 0 = .error (.outage message))
    (hn : IsRetried attempts (fun i => meets (i + 1)) n) :
    IsRetried (attempts + 1) meets (n + 1) where
  pos := Nat.succ_pos n
  le := Nat.succ_le_succ hn.le
  again i hi := by
    cases i with
    | zero => exact ⟨message, h⟩
    | succ i => exact hn.again i (by omega)
  enough := by
    have hlast : n - 1 + 1 = n := Nat.sub_add_cancel hn.pos
    refine hn.enough.imp (congrArg (· + 1)) fun hne => ?_
    rwa [hlast] at hne

end IsRetried

namespace Directory

variable {root : String} {directory : Directory} {failures : List StoreFault}

theorem attempt_eq : attempt root directory failures =
    (meets root directory failures 0, failures.drop 1) := by
  cases failures <;> rfl

/-- Each attempt uses up one failure. -/
theorem meets_drop : meets root directory (failures.drop 1) =
    fun i => meets root directory failures (i + 1) := by
  funext i
  rw [meets, meets, List.getElem?_drop, Nat.add_comm]

/-- Rows that are met are those that stand there. -/
theorem rows_of_meets {i : Nat} {rows : List FileRow}
    (h : meets root directory failures i = .ok rows) : directory.rows root = .ok rows := by
  unfold meets at h
  split at h
  · cases h
  · exact h

theorem waitAfter_succ (failed : Nat) : waitAfter (failed + 1) = backoff failed := by
  match failed with
  | 0 | 1 | 2 | 3 => rfl
  | failed + 4 =>
    have hpow : 16 ≤ Nat.pow 2 (failed + 4) :=
      Nat.pow_le_pow_right (by decide : 0 < 2) (Nat.le_add_left 4 failed)
    simp only [waitAfter, backoff, Nat.add_sub_cancel]
    omega

/-- Opening the files follows the rule of retrying. It ends as the last opening does, takes one
planned failure off for each opening and waits before all openings but the first. -/
theorem openAfter_isRetried (failed again : Nat) (failures : List StoreFault) :
    ∃ n, IsRetried (again + 1) (meets root directory failures) n ∧
      directory.openAfter root failed again failures =
        ⟨meets root directory failures (n - 1),
          (List.range (n - 1)).map fun i => backoff (failed + i), failures.drop n⟩ := by
  induction again generalizing failed failures with
  | zero =>
    refine ⟨1, ⟨Nat.one_pos, Nat.le_refl 1, nofun, .inl rfl⟩, ?_⟩
    rw [openAfter, attempt_eq]
    rfl
  | succ again ih =>
    rw [openAfter, attempt_eq]
    split
    · rename_i message rest heq
      obtain ⟨hmeets, rfl⟩ := Prod.mk.inj heq
      obtain ⟨n, hn, hopen⟩ := ih (failed + 1) (failures.drop 1)
      have hlast : n - 1 + 1 = n := Nat.sub_add_cancel hn.pos
      rw [meets_drop] at hn hopen
      refine ⟨n + 1, hn.next hmeets, ?_⟩
      have hwaits : (List.range n).map (fun i => backoff (failed + i)) =
          backoff failed :: (List.range (n - 1)).map fun i => backoff (failed + 1 + i) := by
        rw [← hlast, List.range_succ_eq_map, List.map_cons, List.map_map]
        simp [Function.comp_def, Nat.add_assoc, Nat.add_comm 1]
      simp only [hopen, hlast, waitAfter_succ, List.drop_drop, Nat.add_sub_cancel, hwaits,
        Nat.add_comm 1 n]
    · rename_i outcome rest hne heq
      obtain ⟨rfl, rfl⟩ := Prod.mk.inj heq
      exact ⟨1, .once hne, rfl⟩

end Directory

/-- The text of a failure of the system or of something that cannot be taken. The other failures
have none. -/
def StoreFault.text? : StoreFault → Option String
  | outage message => some message
  | invalid message => some message
  | noSeries slug => some (seriesNotFound slug)
  | _ => none

/-- A failure to read the files is told in the words of the store if it has a text, and passed on
as it is if it has none. -/
theorem StoreFault.ofReading_eq (root : String) (fault : StoreFault) :
    fault.ofReading root = match fault.text? with
      | some message =>
        .stated (unavailable s!"Failed to read parquet series from {root}: {message}")
      | none => fault := by
  cases fault <;> rfl

/-- A request to a store of files. -/
inductive FileRequest where
  /-- Whether an indicator has rows and is in use. -/
  | isActive (slug : String)
  /-- The series of an indicator between two dates. -/
  | fetch (slug : String) (first last : Option Date)

/-- What a store of files replies. -/
inductive FileReply where
  /-- Whether the indicator has rows and is in use. -/
  | active (b : Bool)
  /-- The series. -/
  | series (s : Series Float)

/-- The reply that the rows of the files give, whatever is in use. -/
def FileRequest.replyFrom (rows : List FileRow) : FileRequest → FileReply
  | isActive slug => .active (rows.any fun row => row.code = some slug)
  | fetch slug first last => .series (FileStore.points slug first last rows)

/-- The answer with another outcome. -/
def FileAnswer.map {β γ : Type} (f : β → γ) (a : FileAnswer β) : FileAnswer γ :=
  ⟨a.outcome.map f, a.waits, a.store⟩

namespace FileStore

/-- The answer to a request. -/
def serve (s : FileStore) : FileRequest → FileAnswer FileReply
  | .isActive slug => (s.isActive slug).map .active
  | .fetch slug first last => (s.fetch slug first last).map .series

/-- The store after requests. -/
def after (s : FileStore) (requests : List FileRequest) : FileStore :=
  requests.foldl (fun s r => (s.serve r).store) s

/-- A request lists the indicators and succeeds. -/
def Lists (s : FileStore) (r : FileRequest) : Prop :=
  ∃ slug reply, r = .isActive slug ∧ slug ∉ s.inactive ∧ (s.serve r).outcome = .ok reply

/-- One of the requests to a store lists the indicators and succeeds. -/
def HasListed (s : FileStore) (requests : List FileRequest) : Prop :=
  ∃ earlier r, earlier ++ [r] <+: requests ∧ (s.after earlier).Lists r

/-- A request is answered by opening the files a number of times. -/
structure IsOpened (s : FileStore) (r : FileRequest) (n : Nat) : Prop where
  /-- The files are opened as the rule of retrying says. -/
  retried : IsRetried (max s.attempts 1).toNat (s.directory.meets s.root s.failures) n
  /-- Each opening takes one planned failure off. -/
  failures : (s.serve r).store.failures = s.failures.drop n
  /-- Some time passes before each new attempt, and never otherwise. -/
  waits : (s.serve r).waits = (List.range (n - 1)).map backoff
  /-- The reply is taken from the rows that the last opening gives. -/
  answered : ∀ rows, s.directory.meets s.root s.failures (n - 1) = .ok rows →
    (s.serve r).outcome = .ok (r.replyFrom rows)
  /-- A failure of the system, or something that cannot be taken, makes the store unavailable. -/
  refused : ∀ fault message, s.directory.meets s.root s.failures (n - 1) = .error fault →
    fault.text? = some message → (s.serve r).outcome =
      .error (.stated (unavailable s!"Failed to read parquet series from {s.root}: {message}"))
  /-- Any other failure is passed on as it is. -/
  passed : ∀ fault, s.directory.meets s.root s.failures (n - 1) = .error fault →
    fault.text? = none → (s.serve r).outcome = .error fault

variable {s : FileStore} {r : FileRequest}

/-- Opening the files is retried as often as the store may. -/
theorem openFiles_isRetried (s : FileStore) :
    ∃ n, IsRetried (max s.attempts 1).toNat (s.directory.meets s.root s.failures) n ∧
      s.openFiles = ⟨(s.directory.meets s.root s.failures (n - 1)).mapError
        (StoreFault.ofReading s.root), (List.range (n - 1)).map backoff,
        { s with failures := s.failures.drop n }⟩ := by
  have hattempts : (max s.attempts 1).toNat = (s.attempts - 1).toNat + 1 := by omega
  obtain ⟨n, hn, hopen⟩ :=
    @Directory.openAfter_isRetried s.root s.directory 0 (s.attempts - 1).toNat s.failures
  refine ⟨n, hattempts ▸ hn, ?_⟩
  simp only [openFiles, hopen, Nat.zero_add]

/-- Whether a request to a store opens the files. -/
def Opens (s : FileStore) : FileRequest → Prop
  | .isActive slug => slug ∉ s.inactive ∧ s.known = none
  | .fetch .. => True

theorem serve_of_inactive {slug : String} (h : slug ∈ s.inactive) :
    s.serve (.isActive slug) = ⟨.ok (.active false), [], s⟩ := by
  simp [serve, isActive, h, FileAnswer.map, Except.map]

theorem serve_of_known {slug : String} {codes : List (Option String)} (h : slug ∉ s.inactive)
    (hknown : s.known = some codes) :
    s.serve (.isActive slug) = ⟨.ok (.active (decide (some slug ∈ codes))), [], s⟩ := by
  simp [serve, isActive, h, hknown, FileAnswer.map, Except.map]

/-- The indicators that are remembered after a request that opens the files. -/
def knownAfter (s : FileStore) : FileRequest → Except StoreFault (List FileRow) →
    Option (List (Option String))
  | .isActive _, .ok rows => some (rows.map (·.code))
  | _, _ => s.known

/-- A request that opens the files answers what the last attempt met. -/
theorem serve_of_opens (h : s.Opens r) :
    ∃ n, IsRetried (max s.attempts 1).toNat (s.directory.meets s.root s.failures) n ∧
      s.serve r = ⟨((s.directory.meets s.root s.failures (n - 1)).mapError
          (StoreFault.ofReading s.root)).map r.replyFrom, (List.range (n - 1)).map backoff,
        { s with failures := s.failures.drop n
                 known := s.knownAfter r (s.directory.meets s.root s.failures (n - 1)) }⟩ := by
  obtain ⟨n, hn, hopen⟩ := s.openFiles_isRetried
  refine ⟨n, hn, ?_⟩
  cases r with
  | fetch slug first last =>
    simp only [serve, fetch, hopen, FileAnswer.map, knownAfter]
    cases s.directory.meets s.root s.failures (n - 1) <;> rfl
  | isActive slug =>
    obtain ⟨hactive, hknown⟩ := h
    simp only [serve, isActive, hactive, hknown, hopen, FileAnswer.map, knownAfter, if_false]
    cases s.directory.meets s.root s.failures (n - 1) with
    | error fault => rfl
    | ok rows => simp [Except.mapError, Except.map, FileRequest.replyFrom, List.any_eq]

/-- A request that opens the files has a number of attempts. -/
theorem isOpened_of_opens (h : s.Opens r) : ∃ n, s.IsOpened r n := by
  obtain ⟨n, hn, hserve⟩ := serve_of_opens h
  refine ⟨n, hn, by rw [hserve], by rw [hserve], ?_, ?_, ?_⟩
  · intro rows hrows
    rw [hserve, hrows]
    rfl
  · intro fault message hfault htext
    rw [hserve, hfault]
    simp only [Except.mapError, Except.map, StoreFault.ofReading_eq, htext]
  · intro fault hfault htext
    rw [hserve, hfault]
    simp only [Except.mapError, Except.map, StoreFault.ofReading_eq, htext]

/-- A request that does not open the files is answered and changes nothing. -/
theorem serve_of_not_opens (h : ¬s.Opens r) : ∃ b, s.serve r = ⟨.ok (.active b), [], s⟩ := by
  cases r with
  | fetch slug first last => exact absurd trivial h
  | isActive slug =>
    by_cases hactive : slug ∈ s.inactive
    · exact ⟨_, serve_of_inactive hactive⟩
    · cases hknown : s.known with
      | none => exact absurd ⟨hactive, hknown⟩ h
      | some codes => exact ⟨_, serve_of_known hactive hknown⟩

/-- Of a store a request changes only what is remembered and which failures are planned. -/
theorem serve_keeps (s : FileStore) (r : FileRequest) :
    ∃ known failures, (s.serve r).store = { s with known := known, failures := failures } := by
  by_cases hopens : s.Opens r
  · obtain ⟨n, -, hserve⟩ := serve_of_opens hopens
    exact ⟨_, _, by rw [hserve]⟩
  · obtain ⟨b, hserve⟩ := serve_of_not_opens hopens
    exact ⟨s.known, s.failures, by rw [hserve]⟩

/-- Something is remembered after a request just when it was before or is listed now. -/
theorem known_serve : (s.serve r).store.known ≠ none ↔ s.known ≠ none ∨ s.Lists r := by
  by_cases hopens : s.Opens r
  · obtain ⟨n, -, hserve⟩ := serve_of_opens hopens
    rw [Lists, hserve]
    cases r with
    | fetch slug first last => simp [knownAfter]
    | isActive slug =>
      cases s.directory.meets s.root s.failures (n - 1) <;>
        simp [knownAfter, hopens.1, Except.mapError, Except.map]
  · obtain ⟨b, hserve⟩ := serve_of_not_opens hopens
    rw [hserve, or_iff_left_of_imp]
    rintro ⟨slug, reply, rfl, hactive, -⟩ hnone
    exact hopens ⟨hactive, hnone⟩

/-- What is remembered are the indicators of the rows. -/
def Remembers (s : FileStore) : Prop :=
  ∀ codes, s.known = some codes → ∃ rows, s.directory.rows s.root = .ok rows ∧
    codes = rows.map (·.code)

/-- What the store remembers stays true. -/
theorem Remembers.serve (h : s.Remembers) (r : FileRequest) : (s.serve r).store.Remembers := by
  by_cases hopens : s.Opens r
  · obtain ⟨n, -, hserve⟩ := serve_of_opens hopens
    rw [hserve]
    intro codes hcodes
    cases r with
    | fetch slug first last => exact h codes hcodes
    | isActive slug =>
      cases hmeets : s.directory.meets s.root s.failures (n - 1) with
      | error fault =>
        rw [hmeets] at hcodes
        exact h codes hcodes
      | ok rows =>
        rw [hmeets] at hcodes
        exact ⟨rows, Directory.rows_of_meets hmeets, (Option.some.inj hcodes).symm⟩
  · obtain ⟨b, hserve⟩ := serve_of_not_opens hopens
    rw [hserve]
    exact h

theorem after_concat (s : FileStore) (requests : List FileRequest) (r : FileRequest) :
    s.after (requests ++ [r]) = ((s.after requests).serve r).store := by
  rw [after, List.foldl_concat, after]

/-- Of a store requests change only what is remembered and which failures are planned. -/
theorem after_keeps (s : FileStore) (requests : List FileRequest) :
    ∃ known failures, s.after requests = { s with known := known, failures := failures } := by
  induction requests using List.reverseRecOn with
  | nil => exact ⟨s.known, s.failures, rfl⟩
  | append_singleton requests r ih =>
    obtain ⟨known, failures, hafter⟩ := ih
    obtain ⟨known', failures', hserve⟩ := serve_keeps (s.after requests) r
    rw [after_concat, hserve, hafter]
    exact ⟨known', failures', rfl⟩

/-- Requests do not change which slugs are inactive. -/
theorem inactive_after (s : FileStore) (requests : List FileRequest) :
    (s.after requests).inactive = s.inactive := by
  obtain ⟨known, failures, hafter⟩ := s.after_keeps requests
  rw [hafter]

/-- The slugs are listed after a request if they were before or it lists them. -/
theorem hasListed_concat {requests : List FileRequest} :
    s.HasListed (requests ++ [r]) ↔ s.HasListed requests ∨ (s.after requests).Lists r := by
  constructor
  · rintro ⟨earlier, r', hprefix, hlists⟩
    rcases List.prefix_concat_iff.mp hprefix with heq | hprefix
    · obtain ⟨rfl, hlast⟩ := List.append_inj' heq rfl
      obtain rfl := List.singleton_inj.mp hlast
      exact .inr hlists
    · exact .inl ⟨earlier, r', hprefix, hlists⟩
  · rintro (⟨earlier, r', hprefix, hlists⟩ | hlists)
    · exact ⟨earlier, r', hprefix.trans (List.prefix_append _ _), hlists⟩
    · exact ⟨requests, r, List.prefix_rfl, hlists⟩

/-- Something is remembered just when one of the requests listed the indicators. -/
theorem known_after (fresh : s.known = none) (requests : List FileRequest) :
    (s.after requests).known ≠ none ↔ s.HasListed requests := by
  induction requests using List.reverseRecOn with
  | nil => simp [after, fresh, HasListed]
  | append_singleton requests r ih =>
    rw [after_concat, known_serve, ih, hasListed_concat]

/-- From a fresh start the store remembers only what it has listed. -/
theorem remembers_after (fresh : s.known = none) (requests : List FileRequest) :
    (s.after requests).Remembers := by
  induction requests using List.reverseRecOn with
  | nil =>
    intro codes hcodes
    rw [after, List.foldl_nil, fresh] at hcodes
    cases hcodes
  | append_singleton requests r ih =>
    rw [after_concat]
    exact ih.serve r

/-- What a store does at a request after others that it has served. -/
structure IsDisciplined (s : FileStore) (earlier : List FileRequest) (r : FileRequest) : Prop where
  /-- The requests before leave everything else as it was. -/
  kept : ∃ known failures,
    s.after earlier = { s with known := known, failures := failures }
  /-- That an indicator is not in use is known without opening the files. -/
  unused : ∀ slug, r = .isActive slug → slug ∈ s.inactive →
    (s.after earlier).serve r = ⟨.ok (.active false), [], s.after earlier⟩
  /-- Once the indicators have been listed nobody who asks for one opens the files again, and the
  reply is taken from their rows. -/
  listed : ∀ slug, r = .isActive slug → slug ∉ s.inactive → s.HasListed earlier →
    ∃ rows, s.directory.rows s.root = .ok rows ∧
      (s.after earlier).serve r = ⟨.ok (r.replyFrom rows), [], s.after earlier⟩
  /-- Any other request opens the files. -/
  opened : (∀ slug, r = .isActive slug → slug ∉ s.inactive ∧ ¬s.HasListed earlier) →
    ∃ n, (s.after earlier).IsOpened r n

/-- In every run of requests to a new store the files are opened just when they have to be, and
as often as the rule of retrying says; a listing of the indicators is remembered when it succeeds
and only then. -/
theorem serve_isDisciplined (fresh : s.known = none) (earlier : List FileRequest)
    (r : FileRequest) : s.IsDisciplined earlier r := by
  have hinactive := s.inactive_after earlier
  refine ⟨s.after_keeps earlier, ?_, ?_, ?_⟩
  · rintro slug rfl hslug
    exact serve_of_inactive (hinactive.symm ▸ hslug)
  · rintro slug rfl hslug hlisted
    have hknown := (known_after fresh earlier).mpr hlisted
    obtain ⟨codes, hcodes⟩ := Option.ne_none_iff_exists'.mp hknown
    obtain ⟨rows, hrows, rfl⟩ := remembers_after fresh earlier codes hcodes
    obtain ⟨known, failures, hkept⟩ := s.after_keeps earlier
    refine ⟨rows, by rwa [hkept] at hrows, ?_⟩
    rw [serve_of_known (hinactive.symm ▸ hslug) hcodes]
    simp [FileRequest.replyFrom, List.any_eq]
  · intro h
    apply isOpened_of_opens
    cases r with
    | fetch slug first last => trivial
    | isActive slug =>
      obtain ⟨hslug, hlisted⟩ := h slug rfl
      refine ⟨hinactive.symm ▸ hslug, ?_⟩
      by_contra hknown
      exact hlisted ((known_after fresh earlier).mp hknown)

/-- An indicator is asked for three times. The first time the files are opened twice and cannot
be taken, the second time they are listed, and the third time they are not opened. -/
theorem serve_isDisciplined_thrice :
    let row : FileRow := ⟨none, none, some "x"⟩
    let s : FileStore := { root := "data", directory := .holding [row],
                           failures := [.outage "timeout", .invalid "schema"] }
    let r := FileRequest.isActive "x"
    s.known = none ∧ (∃ n, s.IsOpened r n) ∧ (∃ n, (s.after [r]).IsOpened r n) ∧
      (s.serve r).waits = [2] ∧ s.HasListed [r, r] ∧
      (s.after [r, r]).serve r = ⟨.ok (.active true), [], s.after [r, r]⟩ := by
  intro row s r
  have hnone : ¬s.HasListed [] := by
    rintro ⟨earlier, r', hprefix, -⟩
    simp at hprefix
  have hfailed : ¬s.HasListed [r] := by
    rintro hlisted
    rcases (@hasListed_concat s r []).mp hlisted with hlisted | ⟨slug, reply, -, -, hreply⟩
    · exact hnone hlisted
    · cases hreply
  have hlisted : s.HasListed [r, r] :=
    ⟨[r], r, List.prefix_rfl, "x", .active true, rfl, by decide, rfl⟩
  have hopened := (serve_isDisciplined (s := s) rfl [] r).opened
  have hreopened := (serve_isDisciplined (s := s) rfl [r] r).opened
  obtain ⟨rows, hrows, hreply⟩ :=
    (serve_isDisciplined (s := s) rfl [r, r] r).listed "x" rfl (by decide) hlisted
  cases hrows
  exact ⟨rfl, hopened fun _ _ => ⟨List.not_mem_nil, hnone⟩,
    hreopened fun _ _ => ⟨List.not_mem_nil, hfailed⟩, rfl, hlisted, hreply⟩

end FileStore

end IndicatorFormula
