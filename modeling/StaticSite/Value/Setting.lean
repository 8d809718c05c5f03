import StaticSite.Number.Reading
import StaticSite.Value.Text

/-!
# Values as settings

How a value from a configuration or a site file is taken where a truth value, an integer, a
timestamp or a date is wanted.
-/

namespace StaticSite.Value

def trueWords : List String := ["1", "true", "yes", "y", "on"]

/-- A truth value: numbers other than zero and the usual words are true. -/
def asBool : Value → Bool
  | .bool b => b
  | .int n => n != 0
  | .float x => !x.isZero
  | .str s => Text.lowerString (Text.trimString s) ∈ trueWords
  | _ => false

/-- An integer, also one that the value's text denotes; a double denotes none. -/
def asInt? (heap : Heap) : Value → Option Int
  | .null => none
  | .bool b => some (if b then 1 else 0)
  | .int n => some n
  | value => Number.readInt? (Text.trimString (value.text heap))

/-- The text unless it is empty. -/
def nonEmpty? (s : String) : Option String := if s = "" then none else some s

/-- A timestamp as text; a moment on an unknown clock is one of universal time. -/
def timestamp? (heap : Heap) : Value → Option String
  | .null => none
  | .datetime t => some { t with offset := some (t.offset.getD 0) }.text
  | .date d => some d.text
  | value => nonEmpty? (Text.trimString (value.text heap))

/-- The day that a value names by its first ten characters; without a value, the day of `now`. -/
def dayText (heap : Heap) (value : Value) (now : DateTime) : String :=
  if heap.isTruthy value then String.ofList ((value.text heap).toList.take 10)
  else now.date.textShortYear

end StaticSite.Value
