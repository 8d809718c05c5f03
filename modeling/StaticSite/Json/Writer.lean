import StaticSite.Json
import StaticSite.Number.Shortest
import StaticSite.Text.Digit

/-!
# Writing JSON

The compact form puts a comma and a colon, each with a space after it, between the parts; the
indented form gives each item a line of its own. Both are ASCII: every other character is written
as one escape of four digits, or as two for a character beyond the basic plane.
-/

namespace StaticSite.Json

def unicodeEscape (n : Nat) : List Char := '\\' :: 'u' :: Text.padLeft '0' 4 (Text.hex n)

/-- One character of a string. -/
def writeChar (c : Char) : List Char :=
  if c = '"' then ['\\', '"']
  else if c = '\\' then ['\\', '\\']
  else if c = '\n' then ['\\', 'n']
  else if c = '\r' then ['\\', 'r']
  else if c = '\t' then ['\\', 't']
  else if c = '\x08' then ['\\', 'b']
  else if c = '\x0c' then ['\\', 'f']
  else if 32 ≤ c.toNat && c.toNat ≤ 126 then [c]
  else if c.toNat < 0x10000 then unicodeEscape c.toNat
  else
    let n := c.toNat - 0x10000
    unicodeEscape (0xD800 + n / 0x400) ++ unicodeEscape (0xDC00 + n % 0x400)

def writeString (s : String) : List Char := '"' :: (s.toList.flatMap writeChar ++ ['"'])

/-- The text of a double; the values that are not finite go by their names. -/
def writeFloat : Binary64 → List Char
  | .nan => "NaN".toList
  | .infinity negative => (if negative then "-Infinity" else "Infinity").toList
  | x => x.text.toList

def newLine (depth : Nat) : List Char := '\n' :: List.replicate (2 * depth) ' '

mutual

/-- The indented form, two blanks for each level of depth. -/
def writeIndented (depth : Nat) : Json → List Char
  | .null => "null".toList
  | .bool b => (if b then "true" else "false").toList
  | .int n => (toString n).toList
  | .float x => writeFloat x
  | .str s => writeString s
  | .arr [] => ['[', ']']
  | .arr (item :: items) =>
    '[' :: (newLine (depth + 1) ++ writeIndented (depth + 1) item ++
      writeItems (depth + 1) items ++ newLine depth ++ [']'])
  | .obj [] => ['\x7b', '\x7d']
  | .obj ((name, value) :: members) =>
    '\x7b' :: (newLine (depth + 1) ++ writeString name ++ ':' :: ' ' ::
      (writeIndented (depth + 1) value ++ writeMembers (depth + 1) members ++ newLine depth ++
        ['\x7d']))

/-- The items after the first, each after a comma and on its own line. -/
def writeItems (depth : Nat) : List Json → List Char
  | [] => []
  | item :: items => ',' :: (newLine depth ++ writeIndented depth item ++ writeItems depth items)

def writeMembers (depth : Nat) : List (String × Json) → List Char
  | [] => []
  | (name, value) :: members =>
    ',' :: (newLine depth ++ writeString name ++ ':' :: ' ' ::
      (writeIndented depth value ++ writeMembers depth members))

end

mutual

/-- The form on one line. -/
def writeCompact : Json → List Char
  | .null => "null".toList
  | .bool b => (if b then "true" else "false").toList
  | .int n => (toString n).toList
  | .float x => writeFloat x
  | .str s => writeString s
  | .arr [] => ['[', ']']
  | .arr (item :: items) => '[' :: (writeCompact item ++ writeCompactItems items ++ [']'])
  | .obj [] => ['\x7b', '\x7d']
  | .obj ((name, value) :: members) =>
    '\x7b' :: (writeString name ++ ':' :: ' ' ::
      (writeCompact value ++ writeCompactMembers members ++ ['\x7d']))

def writeCompactItems : List Json → List Char
  | [] => []
  | item :: items => ',' :: ' ' :: (writeCompact item ++ writeCompactItems items)

def writeCompactMembers : List (String × Json) → List Char
  | [] => []
  | (name, value) :: members =>
    ',' :: ' ' :: (writeString name ++ ':' :: ' ' ::
      (writeCompact value ++ writeCompactMembers members))

end

def indented (json : Json) : String := String.ofList (writeIndented 0 json)

def compact (json : Json) : String := String.ofList (writeCompact json)

end StaticSite.Json
