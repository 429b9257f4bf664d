import IndicatorFormula.Text.Case

/-!
# Levels of a log

How grave an event is, and which events a log takes. A threshold is given by name in any
case; a name that is not known stands for the level of information.
-/

namespace IndicatorFormula

/-- How grave an event is. -/
inductive LogLevel where
  /-- Of use in finding faults. -/
  | debug
  /-- Worth knowing. -/
  | info
  /-- Worth looking into. -/
  | warning
  /-- Something went wrong. -/
  | error
  /-- The program cannot go on. -/
  | critical
  deriving DecidableEq, Repr

namespace LogLevel

/-- All levels, from the least grave on. -/
def all : List LogLevel := [debug, info, warning, error, critical]

/-- The name of the level. -/
def name : LogLevel → String
  | debug => "debug"
  | info => "info"
  | warning => "warning"
  | error => "error"
  | critical => "critical"

/-- The rank of the level. -/
def rank : LogLevel → Nat
  | debug => 10
  | info => 20
  | warning => 30
  | error => 40
  | critical => 50

/-- The ranks of the names that a threshold can have. -/
def thresholds : List (String × Nat) := [
  ("NOTSET", 0), ("DEBUG", 10), ("INFO", 20), ("WARN", 30), ("WARNING", 30), ("ERROR", 40),
  ("FATAL", 50), ("CRITICAL", 50)]

/-- The rank of a threshold. -/
def threshold (name : String) : Nat :=
  ((Text.asciiCapitals? name).bind fun n => thresholds.lookup n).getD info.rank

/-- The levels of the events that a log with a threshold takes. -/
def taken (name : String) : List LogLevel := all.filter fun l => threshold name ≤ l.rank

end LogLevel

end IndicatorFormula
