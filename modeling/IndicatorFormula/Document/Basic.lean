/-!
# Documents

Structured data as it is exchanged with other programs. Whole numbers are kept apart from
numbers with a fraction.
-/

namespace IndicatorFormula

/-- A piece of structured data. -/
inductive Document where
  /-- Nothing. -/
  | null
  /-- A truth value. -/
  | bool (b : Bool)
  /-- A whole number. -/
  | whole (n : Int)
  /-- A number with a fraction or an exponent. -/
  | number (x : Float)
  /-- A text. -/
  | text (s : String)
  /-- A list. -/
  | list (items : List Document)
  /-- Named fields in order. -/
  | record (fields : List (String × Document))
  deriving Inhabited, Repr

namespace Document

/-- The double nearest to a whole number. -/
def floatOfInt (n : Int) : Float :=
  let magnitude := Float.ofScientific n.natAbs false 0
  if n < 0 then -magnitude else magnitude

/-- The field of a record; of two with one name the later counts. -/
def field? (name : String) : Document → Option Document
  | record fields => (fields.reverse.find? fun f => f.1 = name).map Prod.snd
  | _ => none

end Document

end IndicatorFormula
