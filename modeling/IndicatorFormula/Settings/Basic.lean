import IndicatorFormula.Context
import IndicatorFormula.Formula.Slugs
import IndicatorFormula.Log.Level
import IndicatorFormula.Store.Files

/-!
# Settings

How the program is set up: how dates are written, what is logged and where the series are.
-/

namespace IndicatorFormula

/-- The settings of the program. -/
structure Settings where
  /-- The pattern by which dates are written. -/
  dateFormat : String := "%Y-%m-%d"
  /-- The zone in which an instant has its date. -/
  timezone : String := "UTC"
  /-- The least grave level that is logged. -/
  logLevel : String := "INFO"
  /-- Whether the log is structured. -/
  structuredLog : Bool := true
  /-- The directory of the series. -/
  seriesRoot : String := "data/indicators"
  /-- The indicators that are not in use. -/
  inactiveSlugs : List String := []
  /-- How often reading the files is tried. -/
  retryAttempts : Int := 3
  deriving DecidableEq, Repr

namespace Settings

/-- The context of an evaluation under the settings. -/
def context (s : Settings) : Context := { dateFormat := s.dateFormat, timezone := s.timezone }

/-- The levels whose events are logged under the settings. -/
def loggedLevels (s : Settings) : List LogLevel := LogLevel.taken s.logLevel

/-- The store of files under the settings, given what stands in the directory. -/
def fileStore (s : Settings) (directory : Directory) : FileStore where
  root := s.seriesRoot
  directory
  inactive := Slugs.ofList s.inactiveSlugs
  attempts := s.retryAttempts

end Settings

end IndicatorFormula
