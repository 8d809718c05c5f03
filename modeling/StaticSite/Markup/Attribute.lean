import StaticSite.Markup.Node
import StaticSite.Text.Blank
import StaticSite.Text.Word

/-!
# Tags in finished markup

Adding an attribute to the first opening tag, and removing all tags.
-/

namespace StaticSite.Markup

def isTagChar (c : Char) : Bool := Text.isAsciiAlphanumeric c || c = '-'

/-- Whether a tag name may end before this text. -/
def endsName : List Char → Bool
  | [] => false
  | '/' :: '>' :: _ => true
  | c :: _ => c = '>' || Text.isBlank c

/-- The name of an opening tag and what follows the name; `s` starts after the bracket. -/
def tagName? (s : List Char) : Option (List Char × List Char) :=
  match s with
  | [] => none
  | c :: _ =>
    if Text.isAsciiLetter c then
      let (name, rest) := s.span isTagChar
      if endsName rest then some (name, rest) else none
    else none

/-- Puts `added` after the name of the first opening tag. -/
def insertInFirstTag (added : List Char) : List Char → List Char
  | [] => []
  | c :: s =>
    if c = '<' then
      match tagName? s with
      | some (name, rest) => '<' :: (name ++ added ++ rest)
      | none => c :: insertInFirstTag added s
    else c :: insertInFirstTag added s

/-- Adds an attribute to the first opening tag. -/
def addRootAttribute (markup name value : String) : String :=
  let added := " " ++ name ++ "=\"" ++ escape value ++ "\""
  String.ofList (insertInFirstTag added.toList markup.toList)

/-- Removes tags, skipping the characters of one that has been found. -/
def stripTagsFrom : Nat → List Char → List Char
  | _, [] => []
  | skip + 1, _ :: s => stripTagsFrom skip s
  | 0, c :: s =>
    if c = '<' then
      match s.span (· != '>') with
      | ([], _) => c :: stripTagsFrom 0 s
      | (_, []) => c :: stripTagsFrom 0 s
      | (inside, _ :: _) => stripTagsFrom (inside.length + 1) s
    else c :: stripTagsFrom 0 s

/-- The text without its tags; a tag is a bracket, something, and a closing bracket. -/
def stripTags (markup : String) : String := String.ofList (stripTagsFrom 0 markup.toList)

end StaticSite.Markup
