import StaticSite.Text.Blank
import StaticSite.Text.Digit
import StaticSite.Text.Search
import StaticSite.Text.Word

/-!
# Inline Markdown

The text of a block is a list of pieces: characters that still may be marks, and what has been found
already. Each kind of mark is looked for in a pass of its own, and a pass never looks into what an
earlier one has found.
-/

namespace StaticSite.Markdown

/-- A piece of a block's text. -/
inductive Inline where
  | char (c : Char)
  | literal (c : Char)
  | raw (markup : List Char)
  | code (text : List Char)
  | lineBreak
  | link (href : List Char) (title : Option (List Char)) (content : List Inline)
  | image (source : List Char) (title : Option (List Char)) (alt : List Char)
  | emphasis (content : List Inline)
  | strong (content : List Inline)
deriving Repr, Inhabited

namespace Inline

/-- The character that a pass may still take for a mark. -/
def open? : Inline → Option Char
  | .char c => some c
  | _ => none

def isMark (mark : Char) (piece : Inline) : Bool := piece.open? = some mark

def isWord : Inline → Bool
  | .char c => Text.isWord c
  | _ => false

def isBlank : Inline → Bool
  | .char c => Text.isBlank c
  | _ => false

mutual

/-- The text of a piece without its marks. -/
def plain : Inline → List Char
  | .char c => [c]
  | .literal c => [c]
  | .raw markup => markup
  | .code text => text
  | .lineBreak => []
  | .link _ _ content => plainAll content
  | .image .. => []
  | .emphasis content => plainAll content
  | .strong content => plainAll content

def plainAll : List Inline → List Char
  | [] => []
  | piece :: pieces => plain piece ++ plainAll pieces

end

/-- The pieces of a text before any pass. -/
def ofChars (s : List Char) : List Inline := s.map .char

/-- The rest after the characters of `mark`, if the pieces start with them. -/
def dropMark? : List Char → List Inline → Option (List Inline)
  | [], s => some s
  | m :: mark, .char c :: s => if m = c then dropMark? mark s else none
  | _ :: _, _ => none

def startsWith (mark : List Char) (s : List Inline) : Bool := (dropMark? mark s).isSome

/--
The pieces before the first place where `close` succeeds, at least `least` of them and all of them
`allowed`, with what `close` finds there. `close` is given the piece before it.
-/
def before? {α : Type} (allowed : Inline → Bool)
    (close : Option Inline → List Inline → Option α) (least : Nat) (previous : Option Inline) :
    List Inline → Option (List Inline × α)
  | [] => if least = 0 then (close previous []).map ([], ·) else none
  | p :: s =>
    match if least = 0 then close previous (p :: s) else none with
    | some found => some ([], found)
    | none =>
      if allowed p then
        (before? allowed close (least - 1) (some p) s).map fun (content, found) =>
          (p :: content, found)
      else none

/--
A pass: `find` is asked at each piece, given the piece before it; what it finds replaces the pieces
up to the rest that it gives. What is found takes at least one piece, so as many steps as there are
pieces, and one more, are enough.
-/
def sweep (find : Option Inline → List Inline → Option (List Inline × List Inline)) :
    Nat → Option Inline → List Inline → List Inline
  | 0, _, s => s
  | _ + 1, _, [] => []
  | fuel + 1, previous, p :: s =>
    match find previous (p :: s) with
    | some (found, rest) => found ++ sweep find fuel (found.getLast?.or previous) rest
    | none => p :: sweep find fuel (some p) s

/-- A pass over a whole text. -/
def pass (find : Option Inline → List Inline → Option (List Inline × List Inline))
    (s : List Inline) : List Inline :=
  sweep find (s.length + 1) none s

end Inline

end StaticSite.Markdown
