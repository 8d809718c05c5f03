import StaticSite.Text.Blank
import StaticSite.Text.Search

/-!
# Reduced style sheets

Comments go, blanks become one space, spaces around punctuation go, and so does a semicolon before a
closing brace. A comment that is not closed stays.
-/

namespace StaticSite

namespace Text

/-- Each run of blanks becomes one space. -/
def collapse : List Char → List Char
  | [] => []
  | c :: s =>
    if isBlank c then
      match s with
      | [] => [' ']
      | d :: _ => if isBlank d then collapse s else ' ' :: collapse s
    else c :: collapse s

end Text

namespace Style

/-- Removes comments, skipping the characters of one that has been found. -/
def dropCommentsFrom : Nat → List Char → List Char
  | _, [] => []
  | skip + 1, _ :: s => dropCommentsFrom skip s
  | 0, c :: s =>
    match Text.dropMark? ['/', '*'] (c :: s) with
    | none => c :: dropCommentsFrom 0 s
    | some body =>
      match Text.splitAtMark? ['*', '/'] body with
      | none => c :: dropCommentsFrom 0 s
      | some (inside, _) => dropCommentsFrom (inside.length + 3) s

def dropComments (s : List Char) : List Char := dropCommentsFrom 0 s

def isPunctuation (c : Char) : Bool :=
  c = '\x7b' || c = '\x7d' || c = ';' || c = ':' || c = ',' || c = '>' || c = '~'

/-- Drops each space after or before punctuation; `after` tells what stands before the text. -/
def tighten (after : Bool) : List Char → List Char
  | [] => []
  | c :: s =>
    if c = ' ' then
      if after || (s.head?.map isPunctuation).getD false then tighten after s
      else ' ' :: tighten false s
    else c :: tighten (isPunctuation c) s

def minifyChars (s : List Char) : List Char :=
  let tight := tighten false (Text.collapse (dropComments s))
  Text.trim (Text.replace [';', '\x7d'] ['\x7d'] tight)

def minify (sheet : String) : String := String.ofList (minifyChars sheet.toList)

end Style

end StaticSite
