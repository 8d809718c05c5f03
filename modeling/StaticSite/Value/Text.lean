import StaticSite.Number.Shortest
import StaticSite.Text.Quoted
import StaticSite.Text.Search
import StaticSite.Value

/-!
# The text of a value

Strings stand for themselves at the top and are quoted inside a container. A container that is met
again while it is being written is shown by its brackets around three dots, so the text of a cyclic
value is finite.
-/

namespace StaticSite.Value

def commaJoin (pieces : List (List Char)) : List Char := Text.join [',', ' '] pieces

/-- A tuple of one item keeps a comma after it. -/
def tupleText : List (List Char) → List Char
  | [piece] => '(' :: (piece ++ [',', ')'])
  | pieces => '(' :: (commaJoin pieces ++ [')'])

def callText (name : String) (arguments : List String) : List Char :=
  name.toList ++ '(' :: (commaJoin (arguments.map String.toList) ++ [')'])

/-- Hour, minute and, unless they and all after them are zero, second and microsecond. -/
def timeArguments (t : TimeOfDay) : List String :=
  let second := if t.second = 0 ∧ t.microsecond = 0 then [] else [toString t.second]
  let microsecond := if t.microsecond = 0 then [] else [toString t.microsecond]
  [toString t.hour, toString t.minute] ++ second ++ microsecond

def dateArguments (d : Date) : List String :=
  [toString d.year, toString d.month, toString d.day]

/-- The clock of a moment: universal time, or a distance in days and seconds. -/
def zoneArgument (offset : Int) : String :=
  if offset = 0 then "tzinfo=datetime.timezone.utc"
  else
    let days := offset.fdiv 86400
    let seconds := offset.fmod 86400
    let parts := (if days = 0 then [] else ["days=" ++ toString days]) ++
      (if seconds = 0 then [] else ["seconds=" ++ toString seconds])
    "tzinfo=datetime.timezone(datetime.timedelta(" ++ ", ".intercalate parts ++ "))"

def dateTimeArguments (t : DateTime) : List String :=
  dateArguments t.date ++ timeArguments t.time ++ (t.offset.map zoneArgument).toList

/-- Identities of the containers and labels of the tuples that are being written. -/
structure Open where
  containers : List Nat
  tuples : List Nat

mutual

/-- The inner text of a value; `enter` writes the container with an identity. -/
def innerText (enter : Open → Nat → List Char) (opened : Open) : Value → List Char
  | .null => "None".toList
  | .bool b => (if b then "True" else "False").toList
  | .int n => (toString n).toList
  | .float x => x.text.toList
  | .str s => Text.quoted s.toList
  | .date d => callText "datetime.date" (dateArguments d)
  | .datetime t => callText "datetime.datetime" (dateTimeArguments t)
  | .time t => callText "datetime.time" (timeArguments t)
  | .unknown => "set()".toList
  | .tuple label items =>
    if label ∈ opened.tuples then "(...)".toList
    else tupleText (innerTexts enter { opened with tuples := label :: opened.tuples } items)
  | .ref id => enter opened id

def innerTexts (enter : Open → Nat → List Char) (opened : Open) : List Value → List (List Char)
  | [] => []
  | item :: items => innerText enter opened item :: innerTexts enter opened items

end

/--
The text of a container. Each level of depth opens one more container of the heap, so as many
levels as the heap has containers, and one more for the dots, are enough.
-/
def containerText (heap : Heap) : Nat → Open → Nat → List Char
  | 0, _, _ => []
  | fuel + 1, opened, id =>
    let inside := { opened with containers := id :: opened.containers }
    let inner := innerText (containerText heap fuel) inside
    match heap.container? id with
    | none => []
    | some (.dict entries) =>
      if id ∈ opened.containers then ['\x7b', '.', '.', '.', '\x7d']
      else
        let pieces := entries.map fun (key, value) => inner key ++ ':' :: ' ' :: inner value
        '\x7b' :: (commaJoin pieces ++ ['\x7d'])
    | some (.list items) =>
      if id ∈ opened.containers then "[...]".toList
      else '[' :: (commaJoin (items.map inner) ++ [']'])

/-- The form of a value that shows its kind: strings quoted, dates by their parts. -/
def display (heap : Heap) (value : Value) : String :=
  String.ofList (innerText (containerText heap (heap.objects.size + 1)) ⟨[], []⟩ value)

/-- The text of a value as it is inserted into a page. -/
def text (heap : Heap) : Value → String
  | .str s => s
  | .date d => d.text
  | .datetime t => t.textWith " "
  | .time t => t.text
  | value => value.display heap

end StaticSite.Value
