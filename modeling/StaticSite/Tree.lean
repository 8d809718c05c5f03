import StaticSite.Fault
import StaticSite.Path

/-!
# File trees

A tree holds files and directories by their place, which is the list of names that lead to it from
the root. Following a path needs a directory at every step; resolving one only counts names.
-/

namespace StaticSite

/-- The names that lead from the root to a file or a directory. -/
abbrev Place := List String

inductive Stored where
  | file (bytes : Bytes)
  | directory
deriving DecidableEq, Repr

structure Tree where
  /-- The working directory. -/
  home : Place
  stored : List (Place × Stored)
deriving DecidableEq, Repr

namespace Tree

/-- Whether a place is `base` or lies beneath it. -/
def isWithin (base place : Place) : Bool := base.isPrefixOf place

/-- Whether a place lies beneath `base`. -/
def isBeneath (base place : Place) : Bool := base.isPrefixOf place && place != base

/-- What stands at a place; the root is a directory. -/
def find? (tree : Tree) (place : Place) : Option Stored :=
  if place = [] then some .directory else tree.stored.lookup place

def put (tree : Tree) (place : Place) (what : Stored) : Tree :=
  { tree with stored := tree.stored.filter (fun entry => entry.1 != place) ++ [(place, what)] }

/-- Takes away what lies beneath a place. -/
def clear (tree : Tree) (place : Place) : Tree :=
  { tree with stored := tree.stored.filter fun entry => !isBeneath place entry.1 }

/-- Takes away a place and what lies beneath it. -/
def remove (tree : Tree) (place : Place) : Tree :=
  { tree with stored := tree.stored.filter fun entry => !isWithin place entry.1 }

/-- The entries beneath a place, each with the names that lead to it from there. -/
def beneath (tree : Tree) (place : Place) : List (Place × Stored) :=
  (tree.stored.filter fun entry => isBeneath place entry.1).map fun entry =>
    (entry.1.drop place.length, entry.2)

/-- The names in the directory at a place. -/
def namesIn (tree : Tree) (place : Place) : List String :=
  (tree.beneath place).filterMap fun entry =>
    match entry.1 with
    | [name] => some name
    | _ => none

/-- Puts a directory at a place, unless something stands there. -/
def keepDirectory (tree : Tree) (place : Place) : Tree :=
  if (tree.find? place).isSome then tree else tree.put place .directory

/-- Puts something at a place, with the directories above it. -/
def plant (tree : Tree) (place : Place) (what : Stored) : Tree :=
  let above := (List.range place.length).map fun n => place.take n
  (above.foldl keepDirectory tree).put place what

/-- The tree of the given files and directories, with the directories above them. -/
def ofList (home : Place) (stored : List (Place × Stored)) : Tree :=
  stored.foldl (fun tree entry => tree.plant entry.1 entry.2)
    ((⟨home, []⟩ : Tree).plant home .directory)

def longestName : Nat := 255

/--
Follows names one after the other. All steps but the last must lead to directories; the last may
lead to a place where nothing stands.
-/
def follow (tree : Tree) : List String → Place → Except FileCause Place
  | [], place => .ok place
  | name :: names, place =>
    match tree.find? place with
    | none => .error .notFound
    | some (.file _) => .error .notDirectory
    | some .directory =>
      if name = ".." then tree.follow names place.dropLast
      else if longestName < Utf8.size name then .error .nameTooLong
      else tree.follow names (place ++ [name])

/-- Where a path starts. -/
def start (tree : Tree) (path : Path) : Place := if path.isAbsolute then [] else tree.home

/-- The place that a path leads to. -/
def reach (tree : Tree) (path : Path) : Except Fault Place :=
  if path.hasNul then .error .nulInPath
  else (tree.follow path.names (tree.start path)).mapError (.file · path.text)

/-- What stands where a path leads to; a path that leads nowhere finds nothing. -/
def status? (tree : Tree) (path : Path) : Except Fault (Option Stored) :=
  match tree.reach path with
  | .ok place => .ok (tree.find? place)
  | .error (.file .nameTooLong text) => .error (.file .nameTooLong text)
  | .error _ => .ok none

def holds (tree : Tree) (path : Path) : Except Fault Bool :=
  (tree.status? path).map Option.isSome

def isDirectory (tree : Tree) (path : Path) : Except Fault Bool :=
  (tree.status? path).map (· = some .directory)

/-- The bytes of the file at a place, if one stands there. -/
def bytesAt? (tree : Tree) (place : Place) : Option Bytes :=
  match tree.find? place with
  | some (.file bytes) => some bytes
  | _ => none

def readBytes (tree : Tree) (path : Path) : Except Fault Bytes := do
  let place ← tree.reach path
  match tree.find? place with
  | some (.file bytes) => return bytes
  | some .directory => throw (.file .isDirectory path.text)
  | none => throw (.file .notFound path.text)

/-- The text of a file, with unified line ends. -/
def readText (tree : Tree) (path : Path) : Except Fault String := do
  let bytes ← tree.readBytes path
  (Utf8.readText bytes).mapError Fault.utf8

/-- The place that names spell, whatever stands there; two points drop the name before them. -/
def normalize (place : Place) (names : List String) : Place :=
  names.foldl (fun place name => if name = ".." then place.dropLast else place ++ [name]) place

/-- The place that a path spells. -/
def resolve (tree : Tree) (path : Path) : Except Fault Place :=
  if path.hasNul then .error .nulInPath else .ok (normalize (tree.start path) path.names)

/-- The absolute path of a place. -/
def pathOf (place : Place) : Path := ⟨1, place⟩

end Tree

/-!
## Changes of a file tree

The steps that turn one tree into another. What is gone is taken away first, the last entry of the
old tree before the first; then what is new is made in the order of the new tree. Both trees hold a
directory before what lies in it, so that a directory is empty when it is taken away, and there when
something is put into it.
-/

inductive Change where
  | removeFile (place : Place)
  | removeDirectory (place : Place)
  | makeDirectory (place : Place)
  | write (place : Place) (bytes : Bytes)
deriving DecidableEq, Repr

namespace Change

def removal (place : Place) : Stored → Change
  | .file _ => .removeFile place
  | .directory => .removeDirectory place

def creation (place : Place) : Stored → Change
  | .file bytes => .write place bytes
  | .directory => .makeDirectory place

/-- Whether an entry is to be taken away; a file that stays one is written over instead. -/
def isGone (after : Tree) (place : Place) (what : Stored) : Bool :=
  match what, after.find? place with
  | .directory, some .directory => false
  | .file _, some (.file _) => false
  | _, _ => true

/-- The steps from one tree to another. -/
def between (before after : Tree) : List Change :=
  ((before.stored.filter fun (place, what) => isGone after place what).reverse.map
    fun (place, what) => removal place what) ++
  ((after.stored.filter fun (place, what) => before.find? place != some what).map
    fun (place, what) => creation place what)

end Change

end StaticSite
