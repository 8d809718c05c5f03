import StaticSite.Style.Minify
import StaticSite.Text.Word

/-!
# Reduced markup

Comments go, blanks between tags go, other blanks become one space. The elements whose text must
stay as it is are taken out of the text as pieces of their own before anything else happens, so no
later step can look into them.
-/

namespace StaticSite.Markup

/-- A character, or an element that is kept as it is. -/
inductive Piece where
  | char (c : Char)
  | raw (block : List Char)
deriving DecidableEq, Repr

/-- The elements whose content is kept. -/
def rawTags : List String := ["pre", "textarea", "script", "style"]

/-- A letter without its case; the capital dotted i belongs to the i. -/
def foldLetter (c : Char) : Char := if c.toNat = 0x130 then 'i' else Text.lowerAscii c

/-- Whether a character counts as a letter of a tag: the long s and the dotless i do, too. -/
def isLetterOf (letter c : Char) : Bool :=
  foldLetter c = letter || (letter = 's' && c.toNat = 0x17F) || (letter = 'i' && c.toNat = 0x131)

/-- The characters that spell `tag` at the start of the text, and the rest. -/
def takeSpelling? : List Char → List Char → Option (List Char × List Char)
  | [], s => some ([], s)
  | _ :: _, [] => none
  | letter :: tag, c :: s =>
    if isLetterOf letter c then (takeSpelling? tag s).map fun (name, rest) => (c :: name, rest)
    else none

/-- The rest after `name`, whose letters may differ in case. -/
def dropName? : List Char → List Char → Option (List Char)
  | [], s => some s
  | _ :: _, [] => none
  | n :: name, c :: s => if foldLetter n = foldLetter c then dropName? name s else none

/-- The name of an element to keep, when the text starts with it as a whole word. -/
def rawName? (s : List Char) : Option (List Char) :=
  rawTags.findSome? fun tag =>
    match takeSpelling? tag.toList s with
    | some (name, []) => some name
    | some (name, c :: _) => if Text.isWord c then none else some name
    | none => none

/-- The length of the closing tag for `name` at the start of the text. -/
def closingLength? (name s : List Char) : Option Nat := do
  let rest ← Text.dropMark? ['<', '/'] s
  let rest ← dropName? name rest
  let after := rest.dropWhile Text.isBlank
  if after.head? = some '>' then some (s.length - after.length + 1) else none

/-- The length of the text up to the end of the first closing tag for `name`. -/
def lengthToClosing? (name : List Char) : List Char → Option Nat
  | [] => none
  | c :: s =>
    match closingLength? name (c :: s) with
    | some length => some length
    | none => (lengthToClosing? name s).map (· + 1)

/-- The length of the element to keep that starts with the text. -/
def rawLength? (s : List Char) : Option Nat :=
  match s with
  | '<' :: rest => do
    let name ← rawName? rest
    let length ← lengthToClosing? name (rest.drop name.length)
    some (1 + name.length + length)
  | _ => none

/-- Cuts the text into pieces, skipping the characters of an element that has been found. -/
def piecesFrom : Nat → List Char → List Piece
  | _, [] => []
  | skip + 1, _ :: s => piecesFrom skip s
  | 0, c :: s =>
    match rawLength? (c :: s) with
    | some length => .raw ((c :: s).take length) :: piecesFrom (length - 1) s
    | none => .char c :: piecesFrom 0 s

def pieces (s : List Char) : List Piece := piecesFrom 0 s

/-- The rest after the characters of `mark`, if the pieces start with them. -/
def dropMark? : List Char → List Piece → Option (List Piece)
  | [], s => some s
  | m :: mark, .char c :: s => if m = c then dropMark? mark s else none
  | _ :: _, _ => none

/-- The number of pieces up to the end of the first `mark`. -/
def lengthToMark? (mark : List Char) : List Piece → Option Nat
  | [] => none
  | p :: s =>
    match dropMark? mark (p :: s) with
    | some _ => some mark.length
    | none => (lengthToMark? mark s).map (· + 1)

/-- The number of pieces of the comment that starts here; conditional comments are kept. -/
def commentLength? (s : List Piece) : Option Nat :=
  match dropMark? "<!--".toList s with
  | none => none
  | some body =>
    if (dropMark? "[if".toList body).isSome then none
    else (lengthToMark? "-->".toList body).map (· + 4)

/-- Removes comments, skipping the pieces of one that has been found. -/
def dropCommentsFrom : Nat → List Piece → List Piece
  | _, [] => []
  | skip + 1, _ :: s => dropCommentsFrom skip s
  | 0, p :: s =>
    match commentLength? (p :: s) with
    | some length => dropCommentsFrom (length - 1) s
    | none => p :: dropCommentsFrom 0 s

def Piece.isBlank : Piece → Bool
  | .char c => Text.isBlank c
  | .raw _ => false

/-- Whether a tag or a kept element ends with the piece. -/
def Piece.endsTag : Piece → Bool
  | .char c => c = '>'
  | .raw _ => true

/-- Whether a tag or a kept element starts with the piece. -/
def Piece.startsTag : Piece → Bool
  | .char c => c = '<'
  | .raw _ => true

/-- Whether the first piece that is not blank starts a tag. -/
def tagFollows : List Piece → Bool
  | [] => false
  | p :: s => if p.isBlank then tagFollows s else p.startsTag

/--
Drops blanks between tags and writes other runs of blanks as one space. `before` is the last piece
that was not blank; `blank` tells whether blanks stand between it and the text.
-/
def tighten (before : Option Piece) (blank : Bool) : List Piece → List Piece
  | [] => if blank then [.char ' '] else []
  | p :: s =>
    if p.isBlank then tighten before true s
    else
      let between := (before.map Piece.endsTag).getD false && p.startsTag
      if blank && !between then .char ' ' :: p :: tighten (some p) false s
      else p :: tighten (some p) false s

/-- Drops blanks from both ends. -/
def trimPieces (s : List Piece) : List Piece :=
  ((s.dropWhile Piece.isBlank).reverse.dropWhile Piece.isBlank).reverse

def Piece.text : Piece → List Char
  | .char c => [c]
  | .raw block => block

/-- The reduced form of a text; characters of code zero are dropped first. -/
def minifyChars (s : List Char) : List Char :=
  let reduced := tighten none false (dropCommentsFrom 0 (pieces (s.filter (·.toNat ≠ 0))))
  (trimPieces reduced).flatMap Piece.text

def minify (markup : String) : String := String.ofList (minifyChars markup.toList)

end StaticSite.Markup
