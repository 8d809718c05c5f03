import StaticSite.Text.Search

/-!
# Paths

A path is what is spelled between slashes. An empty name and a single point say nothing and are
dropped. Two points lead up and stay: where they lead is known only to a file tree.
-/

namespace StaticSite

structure Path where
  /-- The slashes at the start; a path without any starts at the working directory. -/
  slashes : Nat
  names : List String
deriving DecidableEq, Repr

namespace Path

def isAbsolute (path : Path) : Bool := path.slashes != 0

/-- Two slashes at the start are kept; more than two count as one. -/
def leadingSlashes (s : List Char) : Nat :=
  let count := (s.takeWhile (· = '/')).length
  if count = 2 then 2 else min count 1

def isName (piece : List Char) : Bool := !piece.isEmpty && piece != ['.']

def ofText (s : String) : Path :=
  { slashes := leadingSlashes s.toList
    names := ((Text.splitOnChar '/' s.toList).filter isName).map String.ofList }

/-- The spelling; a path that leads nowhere else is a point. -/
def text (path : Path) : String :=
  if path.slashes = 0 ∧ path.names = [] then "."
  else String.ofList (List.replicate path.slashes '/') ++ "/".intercalate path.names

/-- The path to what stands under a name in the directory that `path` leads to. -/
def child (path : Path) (name : String) : Path := { path with names := path.names ++ [name] }

/-- `other` as seen from the directory that `path` leads to. -/
def join (path other : Path) : Path :=
  if other.isAbsolute then other else { path with names := path.names ++ other.names }

/-- The path without its last name. -/
def parent (path : Path) : Path := { path with names := path.names.dropLast }

/-- No file name holds a NUL. -/
def hasNul (path : Path) : Bool := path.names.any fun name => name.toList.any (·.toNat = 0)

end Path

end StaticSite
