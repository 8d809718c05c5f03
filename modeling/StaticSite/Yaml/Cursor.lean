import StaticSite.Text.Search
import StaticSite.Text.Word

/-!
# A place in a YAML text

The rest of the text with its line and column. A carriage return and a line feed are one line end.
-/

namespace StaticSite.Yaml

structure Cursor where
  rest : List Char
  index : Nat
  line : Nat
  column : Nat
deriving DecidableEq, Repr

def isBreak (c : Char) : Bool :=
  c = '\n' || c = '\r' || c.toNat = 0x85 || c.toNat = 0x2028 || c.toNat = 0x2029

def isGap (c : Char) : Bool := c = ' ' || c = '\t'

/-- Whether a token may end before this text. -/
def endsToken (s : List Char) : Bool :=
  match s with
  | [] => true
  | c :: _ => isGap c || isBreak c

/-- Whether a line, or a word in it, ends before this text. -/
def endsWord (s : List Char) : Bool :=
  match s with
  | [] => true
  | c :: _ => c = ' ' || isBreak c

def endsLine (s : List Char) : Bool :=
  match s with
  | [] => true
  | c :: _ => isBreak c

/-- Whether a line that parts documents starts here. -/
def startsSeparator (s : List Char) : Bool :=
  match s with
  | a :: b :: c :: rest => (a = '-' || a = '.') && b = a && c = a && endsToken rest
  | _ => false

namespace Cursor

def ofText (text : List Char) : Cursor := ⟨text, 0, 0, 0⟩

def peek? (cursor : Cursor) : Option Char := cursor.rest.head?

def next (cursor : Cursor) : Cursor :=
  match cursor.rest with
  | [] => cursor
  | c :: rest =>
    if isBreak c && !(c = '\r' && rest.head? = some '\n') then
      ⟨rest, cursor.index + 1, cursor.line + 1, 0⟩
    else if c.toNat = 0xFEFF then { cursor with rest, index := cursor.index + 1 }
    else ⟨rest, cursor.index + 1, cursor.line, cursor.column + 1⟩

def skip : Nat → Cursor → Cursor
  | 0, cursor => cursor
  | n + 1, cursor => skip n cursor.next

/-- The longest run of characters that satisfy `p`, and the place after it. -/
def takeWhile (p : Char → Bool) (cursor : Cursor) : List Char × Cursor :=
  let found := cursor.rest.takeWhile p
  (found, cursor.skip found.length)

def dropWhile (p : Char → Bool) (cursor : Cursor) : Cursor := (cursor.takeWhile p).2

/-- The line end at this place as text, if there is one, and the place after it. -/
def lineBreak (cursor : Cursor) : List Char × Cursor :=
  match cursor.rest with
  | '\r' :: '\n' :: _ => (['\n'], cursor.skip 2)
  | c :: _ =>
    if isBreak c then
      (if c.toNat = 0x2028 || c.toNat = 0x2029 then [c] else ['\n'], cursor.next)
    else ([], cursor)
  | [] => ([], cursor)

/-- The place after a comment and the line end after it; nothing else may stand on the line. -/
def endOfLine? (cursor : Cursor) : Option Cursor :=
  let cursor := cursor.dropWhile (· = ' ')
  let cursor := if cursor.peek? = some '#' then cursor.dropWhile (!isBreak ·) else cursor
  if endsLine cursor.rest then some cursor.lineBreak.2 else none

end Cursor

end StaticSite.Yaml
