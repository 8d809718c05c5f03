import StaticSite.Markdown.Inline

/-!
# Emphasis

One mark around a text is emphasis, two are strong emphasis, and three are both. Asterisks may
stand inside words, underscores not. Which of the readings counts is settled by their order.
-/

namespace StaticSite.Markdown.Emphasis

/-- The ways in which marks can be read, in the order in which they are tried. -/
inductive Shape where
  | strongAroundEm | emAroundStrong | strongThenEm | strong | em
deriving DecidableEq, Repr

def shapes : List Shape := [.strongAroundEm, .emAroundStrong, .strongThenEm, .strong, .em]

/-- The shapes that are tried inside a shape: those after it. -/
def Shape.inner (shape : Shape) : List Shape :=
  ((shapes.dropWhile (· ≠ shape))).drop 1

/-- What stands between the marks of a shape and after them. -/
structure Found where
  first : List Inline
  second : List Inline
  rest : List Inline

def anything (_ : Inline) : Bool := true

def marks (mark : Char) (count : Nat) : List Char := List.replicate count mark

/-- Whether the pieces start with a word character. -/
def startsWord (s : List Inline) : Bool := (s.head?.map Inline.isWord).getD false

def followsWord (previous : Option Inline) : Bool := (previous.map Inline.isWord).getD false

/-- Exactly `count` marks and not one more. -/
def dropExactly? (mark : Char) (count : Nat) (s : List Inline) : Option (List Inline) :=
  match Inline.dropMark? (marks mark count) s with
  | some rest => if Inline.startsWith [mark] rest then none else some rest
  | none => none

/-- Closing marks for underscores: after no mark, and before no word. -/
def closesWord? (mark : Char) (count : Nat) (previous : Option Inline) (s : List Inline) :
    Option (List Inline) :=
  if (previous.map (Inline.isMark mark)).getD false then none
  else
    match Inline.dropMark? (marks mark count) s with
    | some rest => if startsWord rest then none else some rest
    | none => none

def closes? (mark : Char) (count : Nat) (_ : Option Inline) (s : List Inline) :
    Option (List Inline) :=
  Inline.dropMark? (marks mark count) s

/-- Three marks, a text, `inner` marks, a second text and the marks that are left. -/
def nested? (mark : Char) (inner : Nat) (s : List Inline) : Option Found := do
  let body ← Inline.dropMark? (marks mark 3) s
  let (first, second, rest) ← Inline.before? anything
    (fun previous s => do
      let s ← closes? mark inner previous s
      Inline.before? anything (closes? mark (3 - inner)) 0 none s)
    1 none body
  some { first, second, rest }

/-- Two asterisks, a text, one asterisk, a second text and three asterisks. -/
def starTail? (s : List Inline) : Option Found := do
  let body ← dropExactly? '*' 2 s
  let (first, second, rest) ← Inline.before? (fun p => !p.isMark '*')
    (fun _ s => do
      let s ← dropExactly? '*' 1 s
      Inline.before? anything (closes? '*' 3) 1 none s)
    1 none body
  some { first, second, rest }

/-- The same for underscores, which must stand at the bounds of words. -/
def lineTail? (s : List Inline) : Option Found := do
  let body ← dropExactly? '_' 2 s
  let (first, second, rest) ← Inline.before? anything
    (fun previous s =>
      if followsWord previous then none
      else do
        let s ← dropExactly? '_' 1 s
        Inline.before? anything
          (fun _ s => do
            let rest ← Inline.dropMark? (marks '_' 3) s
            if startsWord rest then none else some rest)
          1 none s)
    1 none body
  some { first, second, rest }

/-- A text between asterisks; one asterisk encloses no asterisk. -/
def starred? (count : Nat) (s : List Inline) : Option Found := do
  let body ← Inline.dropMark? (marks '*' count) s
  let allowed (p : Inline) : Bool := count ≠ 1 || !p.isMark '*'
  let (first, rest) ← Inline.before? allowed (closes? '*' count) 1 none body
  some { first, second := [], rest }

/-- A text between underscores. -/
def lined? (count : Nat) (s : List Inline) : Option Found := do
  let body ← dropExactly? '_' count s
  let (first, rest) ← Inline.before? anything (closesWord? '_' count) 1 none body
  some { first, second := [], rest }

def star? : Shape → List Inline → Option Found
  | .strongAroundEm, s => nested? '*' 1 s
  | .emAroundStrong, s => nested? '*' 2 s
  | .strongThenEm, s => starTail? s
  | .strong, s => starred? 2 s
  | .em, s => starred? 1 s

def line? (shape : Shape) (previous : Option Inline) (s : List Inline) : Option Found :=
  match shape with
  | .strongAroundEm => nested? '_' 1 s
  | .emAroundStrong => nested? '_' 2 s
  | .strongThenEm => if followsWord previous then none else lineTail? s
  | .strong => if followsWord previous then none else lined? 2 s
  | .em => if followsWord previous then none else lined? 1 s

/-- The piece that a shape makes of its two texts. -/
def Shape.build (shape : Shape) (first second : List Inline) : Inline :=
  match shape with
  | .strongAroundEm => .strong (.emphasis first :: second)
  | .emAroundStrong => .emphasis (.strong first :: second)
  | .strongThenEm => .strong (first ++ [.emphasis second])
  | .strong => .strong first
  | .em => .emphasis first

/-- The shape that is found at a place, among those that are tried. -/
def shapeAt? (mark : Char) (tried : List Shape) (previous : Option Inline) (s : List Inline) :
    Option (Shape × Found) :=
  if Inline.startsWith [mark] s then
    tried.findSome? fun shape =>
      (if mark = '*' then star? shape s else line? shape previous s).map (shape, ·)
  else none

/-- Applies `f` to the stretches between pieces of emphasis. -/
def betweenEmphasis (f : List Inline → List Inline) (reversed : List Inline) :
    List Inline → List Inline
  | [] => f reversed.reverse
  | .emphasis content :: s => f reversed.reverse ++ .emphasis content :: betweenEmphasis f [] s
  | .strong content :: s => f reversed.reverse ++ .strong content :: betweenEmphasis f [] s
  | p :: s => betweenEmphasis f (p :: reversed) s

/-- Reads the marks of one kind; `after` reads the texts between them for later kinds. -/
def read (mark : Char) (after : List Inline → List Inline) :
    Nat → List Shape → List Inline → List Inline
  | 0, _, s => s
  | fuel + 1, tried, s =>
    Inline.pass
      (fun previous s =>
        (shapeAt? mark tried previous s).map fun (shape, found) =>
          let inner (content : List Inline) : List Inline :=
            betweenEmphasis after [] (read mark after fuel shape.inner content)
          ([shape.build (inner found.first) (inner found.second)], found.rest))
      s

def underscores (s : List Inline) : List Inline := read '_' id shapes.length shapes s

def asterisks (s : List Inline) : List Inline :=
  underscores (read '*' underscores shapes.length shapes s)

end StaticSite.Markdown.Emphasis
