import IndicatorFormula.Store.Basic

/-!
# A store of files

A store that reads rows of observations from files in a directory. Opening the files can
fail; a failure of the system below is tried again after a wait that grows from two to ten
seconds, any other failure is not. The list of indicators is read once and then remembered.
-/

namespace IndicatorFormula

/-- A row of a file. -/
structure FileRow where
  /-- When something was observed. -/
  stamp : Option Stamp
  /-- What was observed. -/
  value : Option Float
  /-- The indicator that was observed. -/
  code : Option String
  deriving Repr

/-- The point of a row. It has the date of the stamp, whatever the time of day; a row without a
stamp or a number has none. -/
def FileRow.point? (row : FileRow) : Option (Date × Float) :=
  match row.stamp, row.value with
  | some stamp, some x => if x.isNaN then none else some (stamp.date, x)
  | _, _ => none

namespace Series

variable {α : Type}

/-- The points in the order of their dates. -/
def byDate (s : Series α) : Series α := s.mergeSort fun p q => p.1 ≤ q.1

end Series

/-- What stands in the place of the files. -/
inductive Directory where
  /-- There is no directory. -/
  | absent
  /-- The directory holds no file. -/
  | empty
  /-- The directory holds files with rows, all of them in order. -/
  | holding (rows : List FileRow)
  deriving Repr

/-- A store of files. -/
structure FileStore where
  /-- The name of the directory. -/
  root : String
  /-- What stands there. -/
  directory : Directory
  /-- The indicators that are not in use. -/
  inactive : List String := []
  /-- How often opening is tried. -/
  attempts : Int := 3
  /-- The indicators with rows, once they have been read. -/
  known : Option (List (Option String)) := none
  /-- The failures that the next openings meet. -/
  failures : List StoreFault := []
  deriving Repr

/-- What came of opening the files. -/
structure Opening where
  /-- The rows, or the last failure. -/
  outcome : Except StoreFault (List FileRow)
  /-- The seconds waited before each new attempt. -/
  waits : List Nat
  /-- The failures that later openings meet. -/
  failures : List StoreFault

/-- The seconds to wait after a count of failed attempts. -/
def waitAfter (failed : Nat) : Nat := min 10 (max 2 (Nat.pow 2 (failed - 1)))

namespace Directory

/-- The rows that are read when nothing fails but what is missing. -/
def rows (root : String) : Directory → Except StoreFault (List FileRow)
  | absent => .error (.outage root)
  | empty => .error (.invalid "No files with the columns of a series")
  | holding rows => .ok rows

/-- One attempt to open the files; a planned failure comes before everything else. -/
def attempt (root : String) (directory : Directory) (failures : List StoreFault) :
    Except StoreFault (List FileRow) × List StoreFault :=
  match failures with
  | fault :: rest => (.error fault, rest)
  | [] => (directory.rows root, [])

/-- Open the files, trying again a given number of times after failures of the system. -/
def openAfter (root : String) (directory : Directory) (failed : Nat) :
    Nat → List StoreFault → Opening
  | 0, failures =>
    let (outcome, rest) := attempt root directory failures
    ⟨outcome, [], rest⟩
  | again + 1, failures =>
    match attempt root directory failures with
    | (.error (.outage _), rest) =>
      let later := openAfter root directory (failed + 1) again rest
      ⟨later.outcome, waitAfter (failed + 1) :: later.waits, later.failures⟩
    | (outcome, rest) => ⟨outcome, [], rest⟩

end Directory

/-- A failure to read the files as the store states it: failures of the system and files
that cannot be taken become an error of the store, anything else is passed on. -/
def StoreFault.ofReading (root : String) : StoreFault → StoreFault
  | outage message => stated (unavailable s!"Failed to read parquet series from {root}: {message}")
  | invalid message => stated (unavailable s!"Failed to read parquet series from {root}: {message}")
  | noSeries slug =>
    stated (unavailable s!"Failed to read parquet series from {root}: {seriesNotFound slug}")
  | other => other

/-- An answer of a store of files. -/
structure FileAnswer (β : Type) where
  /-- The answer, or why there is none. -/
  outcome : Except StoreFault β
  /-- The seconds waited before each new attempt. -/
  waits : List Nat
  /-- The store afterwards. -/
  store : FileStore

namespace FileStore

/-- Open the files, which is tried at least once. -/
def openFiles (s : FileStore) : FileAnswer (List FileRow) :=
  let opening := s.directory.openAfter s.root 0 (s.attempts - 1).toNat s.failures
  ⟨opening.outcome.mapError (StoreFault.ofReading s.root), opening.waits,
    { s with failures := opening.failures }⟩

/-- Whether an indicator has rows and is in use. -/
def isActive (s : FileStore) (slug : String) : FileAnswer Bool :=
  if slug ∈ s.inactive then ⟨.ok false, [], s⟩
  else match s.known with
    | some codes => ⟨.ok (decide (some slug ∈ codes)), [], s⟩
    | none =>
      let opened := s.openFiles
      match opened.outcome with
      | .error fault => ⟨.error fault, opened.waits, opened.store⟩
      | .ok rows =>
        let codes := rows.map (·.code)
        ⟨.ok (decide (some slug ∈ codes)), opened.waits, { opened.store with known := some codes }⟩

/-- The rows of an indicator. -/
def scan (slug : String) (rows : List FileRow) : List FileRow :=
  rows.filter fun row => row.code = some slug

/-- The points of an indicator between two dates: rows with a date and a number, of each date
the last of them, in the order of dates. -/
def points (slug : String) (first last : Option Date) (rows : List FileRow) : Series Float :=
  let given : Series Float := (scan slug rows).filterMap FileRow.point?
  (given.withoutReplaced.byDate.between first none).between none last

/-- The series of an indicator between two dates. -/
def fetch (s : FileStore) (slug : String) (first last : Option Date) :
    FileAnswer (Series Float) :=
  let opened := s.openFiles
  ⟨opened.outcome.map (points slug first last), opened.waits, opened.store⟩

end FileStore

end IndicatorFormula
