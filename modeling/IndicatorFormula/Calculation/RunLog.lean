import IndicatorFormula.Calculation.Run
import IndicatorFormula.Log.Level

/-!
# The log of a run

Each event of a run is logged with a level and with named fields. All events but that of a
fetched series name the calculation as well.
-/

namespace IndicatorFormula

/-- A line of a log. -/
structure LogEntry where
  /-- What happened. -/
  event : String
  /-- How grave it is. -/
  level : LogLevel
  /-- The circumstances. -/
  fields : List (String × Document)
  deriving Repr

/-- A value, or nothing. -/
def Document.ofOption {β : Type} (f : β → Document) : Option β → Document
  | some x => f x
  | none => .null

namespace RunEvent

/-- The event as a line of a log. -/
def entry (bound : List (String × Document)) : RunEvent → LogEntry
  | started formula => ⟨"calculation_started", .info, bound ++ [("formula", .text formula)]⟩
  | resolved dependencies =>
    ⟨"dependencies_resolved", .info,
      bound ++ [("dependencies", .list (dependencies.map .text))]⟩
  | fetched slug points =>
    ⟨"series_fetched", .debug, [("slug", .text slug), ("point_count", .whole points)]⟩
  | failed stage e =>
    ⟨"calculation_failed", .warning, bound ++ [
      ("failed_state", .text stage.name), ("error_kind", .text e.code.name),
      ("error_message", .text e.message),
      ("position", .ofOption (fun n : Nat => .whole n) e.position),
      ("argument_index", .ofOption (fun n : Nat => .whole n) e.argumentIndex),
      ("function", .ofOption .text e.function)]⟩
  | succeeded shape => ⟨"calculation_succeeded", .info, bound ++ [("value_kind", .text shape.name)]⟩

end RunEvent

/-- The log of a run of a calculation. -/
def Run.log (run : Run) (c : Calculation) : List LogEntry :=
  run.events.map (RunEvent.entry [
    ("calculation_id", .ofOption .whole c.id), ("calculation_slug", .text c.slug)])

end IndicatorFormula
