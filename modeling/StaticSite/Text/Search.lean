/-!
# Finding, splitting and replacing text

Functions on character lists that recur in every format: the text before and after a mark, pieces
between separators, and replacement from left to right without overlap.
-/

namespace StaticSite.Text

/-- The rest of `s` after `mark`, if `s` starts with it. -/
def dropMark? : List Char → List Char → Option (List Char)
  | [], s => some s
  | _ :: _, [] => none
  | m :: mark, c :: s => if m = c then dropMark? mark s else none

def startsWith (mark s : List Char) : Bool := (dropMark? mark s).isSome

/-- The text before the first `mark` and the text after it. -/
def splitAtMark? (mark : List Char) : List Char → Option (List Char × List Char)
  | [] => (dropMark? mark []).map (([], ·))
  | c :: s =>
    match dropMark? mark (c :: s) with
    | some rest => some ([], rest)
    | none => (splitAtMark? mark s).map fun (before, rest) => (c :: before, rest)

def contains (mark s : List Char) : Bool := (splitAtMark? mark s).isSome

/-- The pieces between the occurrences of one character; there is always at least one. -/
def splitOnChar (mark : Char) : List Char → List (List Char)
  | [] => [[]]
  | c :: s =>
    if c = mark then [] :: splitOnChar mark s
    else
      match splitOnChar mark s with
      | [] => [[c]]
      | piece :: pieces => (c :: piece) :: pieces

/-- Replaces `mark`, skipping the characters of an occurrence that has been replaced. -/
def replaceFrom (mark new : List Char) : Nat → List Char → List Char
  | _, [] => []
  | skip + 1, _ :: s => replaceFrom mark new skip s
  | 0, c :: s =>
    if startsWith mark (c :: s) then new ++ replaceFrom mark new (mark.length - 1) s
    else c :: replaceFrom mark new 0 s

/-- Replaces every occurrence of a non-empty `mark`, from left to right and without overlap. -/
def replace (mark new s : List Char) : List Char := replaceFrom mark new 0 s

/-- Joins the pieces with `separator` between neighbours. -/
def join (separator : List Char) : List (List Char) → List Char
  | [] => []
  | [piece] => piece
  | piece :: pieces => piece ++ separator ++ join separator pieces

end StaticSite.Text
