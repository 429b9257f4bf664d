import IndicatorFormula.Calendar.Pattern
import IndicatorFormula.Calendar.Zone
import IndicatorFormula.Series.QuickSort

/-!
# The context of an evaluation

What an evaluation depends on besides the formula and the data: its options, and the platform. From
that it takes the zones that are known by name, the index that puts dates in order, and how a date
is written by a pattern. Nothing is said of these but what a field says. A small platform is given
for running.
-/

namespace IndicatorFormula

/-- The system that an evaluation runs on. -/
structure Platform where
  /-- The zone of a name. -/
  zone? : String → Option Zone
  /-- The index of dates. -/
  index : DateIndex
  /-- Write a date by a pattern, or say why it cannot be written. -/
  write : String → Date → Except String String

/-- The platform that is used where nothing else is said. -/
def Platform.small : Platform where
  zone? name := Zone.named.lookup name
  index := .quick
  write := Date.write

/-- The options of an evaluation, and the platform that it runs on. -/
structure Context where
  /-- The pattern by which dates are written. -/
  dateFormat : String := "%Y-%m-%d"
  /-- The zone in which an instant has its date. -/
  timezone : String := "UTC"
  /-- The first date to be fetched. -/
  startDate : Option Date := none
  /-- The last date to be fetched. -/
  endDate : Option Date := none
  /-- The platform. -/
  platform : Platform := .small

namespace Context

/-- The zone in which an instant has its date, if it is known. -/
def zone? (c : Context) : Option Zone := c.platform.zone? c.timezone

/-- The index of dates. -/
def index (c : Context) : DateIndex := c.platform.index

/-- Write a date. -/
def write (c : Context) (d : Date) : Except String String := c.platform.write c.dateFormat d

end Context

end IndicatorFormula
