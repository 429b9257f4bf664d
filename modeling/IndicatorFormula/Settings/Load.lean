import IndicatorFormula.Document.Reader
import IndicatorFormula.Settings.Basic
import IndicatorFormula.Settings.Field

/-!
# Loading settings

Settings are given as arguments or by variables of the environment, whose names begin with
that of the application and may be written in any case. An argument goes before a variable.
All faulty fields are told at once, in the order of their places.
-/

namespace IndicatorFormula.Settings

/-- Why settings cannot be loaded. -/
inductive LoadError where
  /-- A variable does not hold a document that can be read. -/
  | unreadable (name : String)
  /-- Fields are faulty. -/
  | invalid (faults : List FieldFault)
  deriving DecidableEq, Repr

/-- Where settings come from. -/
structure Sources where
  /-- The name of the application, in small letters. -/
  application : String
  /-- The variables of the environment. -/
  environment : List (String × String)
  /-- The arguments. -/
  arguments : List (String × Document)
  deriving Repr

/-- The field for which a list is given as a document. -/
def listField : String := "parquet_inactive_slugs"

namespace Sources

/-- The name of the variable for a field, in small letters. -/
def variableName (s : Sources) (name : String) : String := s.application ++ "_" ++ name

/-- The value that the environment gives to a field; of two spellings the later counts. -/
def fromEnvironment? (s : Sources) (name : String) : Option String :=
  (s.environment.reverse.find? fun v => Field.smallLetters v.1 = s.variableName name).map
    Prod.snd

/-- What is given for a field, an argument going before a variable. -/
def given? (s : Sources) (name : String) : Option Document :=
  (s.arguments.lookup name).or ((s.fromEnvironment? name).map .text)

/-- The list that the environment gives; the word for nothing leaves the field as it is. -/
def listFromEnvironment (s : Sources) : Except LoadError (Option Document) :=
  match s.fromEnvironment? listField with
  | none => .ok none
  | some text => match Document.read? text with
    | none => .error (.unreadable listField)
    | some .null => .ok none
    | some d => .ok (some d)

end Sources

/-- Read a field that may have been given. -/
def field {β : Type} (location : String) (fallback : β) (read : Document → Except FieldProblem β)
    (d : Option Document) : Except (List FieldFault) β :=
  match d with
  | none => .ok fallback
  | some d => (read d).mapError fun problem => [⟨location, problem⟩]

/-- The faults of a field. -/
def faultsOf {β : Type} : Except (List FieldFault) β → List FieldFault
  | .ok _ => []
  | .error faults => faults

/-- Load the settings. -/
def load (s : Sources) : Except LoadError Settings := do
  let listed ← s.listFromEnvironment
  let standard : Settings := {}
  let get := s.given?
  let dateFormat := field "date_format" standard.dateFormat Field.text (get "date_format")
  let attempts := field "fetch_retry_attempts" standard.retryAttempts Field.whole
    (get "fetch_retry_attempts")
  let structuredLog := field "log_json" standard.structuredLog Field.bool (get "log_json")
  let logLevel := field "log_level" standard.logLevel Field.text (get "log_level")
  let inactive := match (s.arguments.lookup listField).or listed with
    | none => Except.ok standard.inactiveSlugs
    | some d => Field.texts listField d
  let root := field "parquet_root" standard.seriesRoot Field.text (get "parquet_root")
  let timezone := field "timezone" standard.timezone Field.text (get "timezone")
  match dateFormat, attempts, structuredLog, logLevel, inactive, root, timezone with
  | .ok dateFormat, .ok retryAttempts, .ok structuredLog, .ok logLevel, .ok inactiveSlugs,
      .ok seriesRoot, .ok timezone =>
    .ok { dateFormat, timezone, logLevel, structuredLog, seriesRoot, inactiveSlugs, retryAttempts }
  | _, _, _, _, _, _, _ =>
    let faults := faultsOf dateFormat ++ faultsOf attempts ++ faultsOf structuredLog ++
      faultsOf logLevel ++ faultsOf inactive ++ faultsOf root ++ faultsOf timezone
    .error (.invalid (faults.mergeSort fun a b => a.location ≤ b.location))

end IndicatorFormula.Settings
