import StaticSite.Fault
import StaticSite.Toml.Lexeme
import StaticSite.Toml.Table

/-!
# Values from TOML

A document is a sequence of lines: keys with values, headers that open a table, and headers that add
one to an array of tables.
-/

namespace StaticSite.Toml

def orMalformed {α : Type} (found : Option α) : Except Fault α :=
  match found with
  | some value => .ok value
  | none => .error .malformedToml

def constants : List (String × Value) := [("true", .bool true), ("false", .bool false)]

def numberValue : Number → Except Fault Value
  | .decimal negative digits =>
    if StaticSite.Number.digitLimit < digits.length then
      .error (.json (.digitLimit digits.length))
    else .ok (.int (StaticSite.Number.signed negative (valueOf 10 digits)))
  | .integer n => .ok (.int n)
  | .float x => .ok (.float x)

/-- A date that exists, with its time if it has one. -/
def dateValue (date : Date) (time : Option (TimeOfDay × Option Int)) : Except Fault Value :=
  if date.isValid then
    match time with
    | some (time, offset) => .ok (.datetime ⟨date, time, offset⟩)
    | none => .ok (.date date)
  else .error .malformedToml

/-- A value without parts that is no string. -/
def scalar (s : List Char) : Except Fault (Value × List Char) :=
  match constants.findSome? fun (name, value) => (Text.dropMark? name.toList s).map (value, ·) with
  | some found => .ok found
  | none =>
    match date? s, time? s, number? s, namedFloat? s with
    | some ((date, time), rest), _, _, _ => (dateValue date time).map (·, rest)
    | none, some (time, rest), _, _ => .ok (.time time, rest)
    | none, none, some (number, rest), _ => (numberValue number).map (·, rest)
    | none, none, none, some (x, rest) => .ok (.float x, rest)
    | none, none, none, none => .error .malformedToml

mutual

/-- A value. Each nested value starts later in the text, which bounds the steps. -/
def readValue : Nat → List Char → Except Fault (Item × List Char)
  | 0, _ => .error .malformedToml
  | fuel + 1, s =>
    match s with
    | [] => .error .malformedToml
    | c :: rest =>
      if c = '"' ∨ c = singleQuote then do
        let (text, rest) ← orMalformed (string? s)
        return (.scalar (.str (String.ofList text)), rest)
      else if c = '[' then do
        let rest ← orMalformed (skipBetween? rest.length rest)
        let (items, rest) ← readItems fuel rest
        return (.array items, rest)
      else if c = '\x7b' then do
        match skipSpace rest with
        | '\x7d' :: rest => return (.inlineTable [], rest)
        | rest =>
          let (entries, rest) ← readMembers fuel [] rest
          return (.inlineTable entries, rest)
      else do
        let (value, rest) ← scalar s
        return (.scalar value, rest)

/-- The items of an array up to its closing bracket; a comma may come before that. -/
def readItems : Nat → List Char → Except Fault (List Item × List Char)
  | 0, _ => .error .malformedToml
  | fuel + 1, s =>
    match s with
    | ']' :: rest => .ok ([], rest)
    | s => do
      let (item, rest) ← readValue fuel s
      match ← orMalformed (skipBetween? rest.length rest) with
      | ']' :: rest => return ([item], rest)
      | ',' :: rest =>
        let rest ← orMalformed (skipBetween? rest.length rest)
        let (items, rest) ← readItems fuel rest
        return (item :: items, rest)
      | _ => throw .malformedToml

/-- A key, the equals sign and the value. -/
def readPair : Nat → List Char → Except Fault ((List String × Item) × List Char)
  | 0, _ => .error .malformedToml
  | fuel + 1, s => do
    let (key, rest) ← orMalformed (key? (s.length + 1) s)
    match rest with
    | '=' :: rest =>
      let (item, rest) ← readValue fuel (skipSpace rest)
      return ((key, item), rest)
    | _ => throw .malformedToml

/-- The pairs of a table in braces, added to those read before; no comma comes before the brace. -/
def readMembers : Nat → Entries → List Char → Except Fault (Entries × List Char)
  | 0, _, _ => .error .malformedToml
  | fuel + 1, entries, s => do
    let ((key, item), rest) ← readPair fuel s
    let entries ← orMalformed (assign? key item entries)
    match skipSpace rest with
    | '\x7d' :: rest => return (entries, rest)
    | ',' :: rest => readMembers fuel entries (skipSpace rest)
    | _ => throw .malformedToml

end

/-- What has been read: the tables, the open header, and the tables that dotted keys have made. -/
structure State where
  entries : Entries := []
  header : List String := []
  dotted : List (List String) := []

/-- The paths of the tables on the way to a dotted key. -/
def dottedPaths (header key : List String) : List (List String) :=
  (List.range (key.length - 1)).map fun n => header ++ key.take (n + 1)

def State.assign? (state : State) (key : List String) (item : Item) : Option State := do
  let paths := dottedPaths state.header key
  if paths.any fun path => isOpened path state.entries then none
  let entries ← Toml.assign? (state.header ++ key) item state.entries
  some { state with entries, dotted := state.dotted ++ paths }

/-- A header line after its bracket; `array` tells whether it adds to an array of tables. -/
def State.openHeader? (state : State) (array : Bool) (s : List Char) :
    Option (State × List Char) := do
  let (key, rest) ← key? (s.length + 1) (skipSpace s)
  let entries := close state.dotted state.entries
  let entries ← if array then appendTable? key entries else openTable? key entries
  let rest ← Text.dropMark? (if array then [']', ']'] else [']']) rest
  some ({ entries, header := key, dotted := [] }, rest)

/-- Reads one statement that starts with `c`. -/
def State.statement (state : State) (c : Char) (rest : List Char) :
    Except Fault (State × List Char) :=
  if isBareKeyChar c ∨ c = '"' ∨ c = singleQuote then do
    let s := c :: rest
    let ((key, item), rest) ← readPair (2 * s.length + 2) s
    let state ← orMalformed (state.assign? key item)
    return (state, rest)
  else if c = '[' then
    match rest with
    | '[' :: rest => orMalformed (state.openHeader? true rest)
    | rest => orMalformed (state.openHeader? false rest)
  else if c = '#' then .ok (state, c :: rest)
  else .error .malformedToml

/-- Reads statements to the end of the text; each takes a character or more. -/
def run : Nat → State → List Char → Except Fault State
  | 0, state, _ => .ok state
  | fuel + 1, state, s =>
    match skipSpace s with
    | [] => .ok state
    | '\n' :: rest => run fuel state rest
    | c :: rest => do
      let (state, rest) ← state.statement c rest
      match ← orMalformed (skipComment? (skipSpace rest)) with
      | [] => return state
      | '\n' :: rest => run fuel state rest
      | _ => throw .malformedToml

/-- The value that a text denotes. -/
def read (heap : Heap) (text : String) : Except Fault (Value × Heap) := do
  let s := Text.replace ['\r', '\n'] ['\n'] text.toList
  let state ← run (s.length + 1) {} s
  return tableValue heap state.entries

end StaticSite.Toml
