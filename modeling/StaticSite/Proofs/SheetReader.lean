import StaticSite.Proofs.Machine
import StaticSite.Proofs.Trimming
import StaticSite.Text.Blank

/-!
# A reader of style sheets

The reader skips comments and takes quoted strings and escaped characters as they are. What is left
it splits at braces into rules, and the declarations of a rule at semicolons. An at-rule that holds
other rules is a condition on them. A text that cannot be split in this way is refused.
-/

namespace StaticSite.Style

/-! ## Characters that stand for themselves -/

/-- What a reader of style sheets is in the middle of. -/
inductive Mode where
  | code
  /-- behind a slash, which may open a comment -/
  | slash
  | comment
  /-- behind a star in a comment, which may close it -/
  | star
  | quoted (quote : Char)
  /-- behind a backslash in a string -/
  | quotedEscape (quote : Char)
  /-- behind a backslash outside strings -/
  | escape
deriving DecidableEq, Repr

/-- A character outside comments; one in a string or behind a backslash has no meaning of its own. -/
inductive Glyph where
  | bare (c : Char)
  | held (c : Char)
deriving DecidableEq, Repr

def Glyph.char : Glyph → Char
  | .bare c => c
  | .held c => c

def isNewline (c : Char) : Bool := c = '\n' || c = '\r' || c = '\x0c'

def codeStep (c : Char) : Mode × List Glyph :=
  if c = '/' then (.slash, [])
  else if c = '"' || c = '\'' then (.quoted c, [.held c])
  else if c = '\\' then (.escape, [.held c])
  else (.code, [.bare c])

def Mode.step : Mode → Char → Mode × List Glyph
  | .code, c => codeStep c
  | .slash, c => if c = '*' then (.comment, []) else ((codeStep c).1, .bare '/' :: (codeStep c).2)
  | .comment, c => (if c = '*' then .star else .comment, [])
  | .star, c => (if c = '/' then .code else if c = '*' then .star else .comment, [])
  | .quoted quote, c =>
    -- a string that is not closed ends with its line
    if isNewline c then (.code, [.bare c])
    else if c = quote then (.code, [.held c])
    else if c = '\\' then (.quotedEscape quote, [.held c])
    else (.quoted quote, [.held c])
  | .quotedEscape quote, c => (.quoted quote, [.held c])
  | .escape, c => (.code, [.held c])

/-- What a sheet consists of when its comments are gone. -/
def lexer : Machine Mode Char Glyph := ⟨Mode.step⟩

/-! ## Rules -/

/-- A rule as a sheet shows it: the conditions it stands under, its selector, its declarations. -/
structure Block where
  conditions : List String := []
  selector : String
  declarations : List (String × String)
deriving DecidableEq, Repr

/-- The text of these characters without the blanks around it. -/
def plainText (glyphs : List Glyph) : String := String.ofList (Text.trim (glyphs.map Glyph.char))

/-- The property and the value on the two sides of the first colon. -/
def declaration? (glyphs : List Glyph) : Option (String × String) :=
  match glyphs.dropWhile (· ≠ .bare ':') with
  | [] => none
  | _ :: value => some (plainText (glyphs.takeWhile (· ≠ .bare ':')), plainText value)

/--
The rules read so far, the conditions and the rule that are still open, and the text read since the
last brace or semicolon.
-/
structure Reader where
  conditions : List String := []
  opened : Option (String × List (String × String)) := none
  text : List Glyph := []
  blocks : List Block := []
deriving DecidableEq, Repr

namespace Reader

/-- What an opening brace opens; a rule holds no other rules. -/
def enter (reader : Reader) : Option Reader :=
  match reader.opened with
  | some _ => none
  | none =>
    if (plainText reader.text).toList.head? = some '@' then
      some { reader with conditions := reader.conditions ++ [plainText reader.text], text := [] }
    else some { reader with opened := some (plainText reader.text, []), text := [] }

/-- What a closing brace closes; nothing may be left of the text in front of it. -/
def leave (reader : Reader) : Option Reader :=
  if plainText reader.text ≠ "" then none
  else
    match reader.opened with
    | some (selector, declarations) =>
      let block := { conditions := reader.conditions, selector, declarations }
      some { reader with opened := none, text := [], blocks := reader.blocks ++ [block] }
    | none =>
      if reader.conditions = [] then none
      else some { reader with conditions := reader.conditions.dropLast, text := [] }

/-- What a semicolon ends; a declaration stands in a rule. -/
def declare (reader : Reader) : Option Reader :=
  match reader.opened with
  | some (selector, declarations) =>
    (declaration? reader.text).map fun declaration =>
      { reader with opened := some (selector, declarations ++ [declaration]), text := [] }
  | none => none

def step (reader : Reader) (glyph : Glyph) : Option Reader :=
  if glyph = .bare '\x7b' then reader.enter
  else if glyph = .bare '\x7d' then reader.leave
  else if glyph = .bare ';' then reader.declare
  else some { reader with text := reader.text ++ [glyph] }

def feed (reader : Reader) (glyphs : List Glyph) : Option Reader := glyphs.foldlM step reader

/-- The rules of a text that has been read to its end. -/
def result? (reader : Reader) : Option (List Block) :=
  if reader.conditions = [] ∧ reader.opened = none ∧ plainText reader.text = "" then
    some reader.blocks
  else none

end Reader

/-- The rules of a sheet; none if it cannot be read. -/
def read? (sheet : String) : Option (List Block) :=
  match lexer.run .code sheet.toList with
  | (.code, glyphs) => (Reader.feed {} glyphs).bind Reader.result?
  | _ => none

example : read? "@media print \x7b a, b \x7b x: \";\" /* ; */; \x7d \x7d" =
    some [⟨["@media print"], "a, b", [("x", "\";\"")]⟩] := by
  decide +kernel

end StaticSite.Style
