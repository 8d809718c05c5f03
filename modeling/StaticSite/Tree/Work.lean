import StaticSite.Tree

/-!
# Changing a file tree

Each operation either succeeds or is refused. A refused one can have changed the tree before it came
to what it was refused for, and those changes stay.
-/

namespace StaticSite

/-- Work on a file tree. -/
abbrev Work (α : Type) := EStateM Fault Tree α

namespace Work

def ofExcept {α : Type} : Except Fault α → Work α
  | .ok value => pure value
  | .error fault => throw fault

def refuse {α : Type} (cause : FileCause) (path : Path) : Work α := throw (.file cause path.text)

/-- The place that a path leads to, and what stands there. -/
def reach (path : Path) : Work (Place × Option Stored) := do
  let tree ← get
  let place ← ofExcept (tree.reach path)
  return (place, tree.find? place)

/-- Makes a directory where nothing stands. -/
def makeDirectory (path : Path) : Work Unit := do
  let (place, found) ← reach path
  match found with
  | some _ => refuse .exists path
  | none => modify (·.put place .directory)

/-- Makes a directory; one that is there already will do. -/
def haveDirectory (path : Path) : Work Unit := do
  match (makeDirectory path).run (← get) with
  | .ok _ tree => set tree
  | .error fault tree =>
    if ← ofExcept (tree.isDirectory path) then pure () else throw fault

/-- Makes the directory at the reversed names, and those above it that are missing. -/
def haveDirectoriesAt (slashes : Nat) : List String → Work Unit
  | [] => haveDirectory ⟨slashes, []⟩
  | name :: above => do
    let path : Path := ⟨slashes, (name :: above).reverse⟩
    match (makeDirectory path).run (← get) with
    | .error (.file .notFound _) _ => do
      haveDirectoriesAt slashes above
      haveDirectory path
    | _ => haveDirectory path

/-- Makes a directory and those above it that are missing. -/
def haveDirectories (path : Path) : Work Unit := haveDirectoriesAt path.slashes path.names.reverse

/-- Writes a file into a directory that is there; a file in its place is replaced. -/
def writeBytes (path : Path) (bytes : Bytes) : Work Unit := do
  let (place, found) ← reach path
  match found with
  | some .directory => refuse .isDirectory path
  | _ => modify (·.put place (.file bytes))

/-- Writes a text file, with the directories above it. -/
def writeText (path : Path) (text : String) : Work Unit := do
  haveDirectories path.parent
  writeBytes path (Utf8.encode text)

/--
Removes a directory with all that it holds. The path is followed once more for the directory itself,
so a path that leads through what it holds leaves the directory behind, empty. So does a path
without names, because a directory is removed under its name.
-/
def removeDirectory (path : Path) : Work Unit := do
  let (place, found) ← reach path
  match found with
  | none => refuse .notFound path
  | some (.file _) => refuse .notDirectory path
  | some .directory => do
    modify (·.clear place)
    if path.names.isEmpty then refuse .nameless path
    let (place, _) ← reach path
    modify (·.remove place)

/-- Copies a file to where no directory stands. -/
def copyBytes (source target : Path) : Work Unit := do
  let (sourcePlace, _) ← reach source
  let bytes ← ofExcept ((← get).readBytes source)
  let (place, found) ← reach target
  if found.isSome && place = sourcePlace then refuse .sameFile target
  else writeBytes target bytes

/-- Copies a file; a directory in its place takes it in under its name. -/
def copyFile (source target : Path) : Work Unit := do
  if ← ofExcept ((← get).isDirectory target) then
    copyBytes source (target.child (source.names.getLast?.getD ""))
  else copyBytes source target

/-- Copies a directory, as it is at the start, to where nothing stands. -/
def copyDirectory (source target : Path) : Work Unit := do
  let (sourcePlace, found) ← reach source
  if found ≠ some .directory then refuse .notFound source
  let entries := (← get).beneath sourcePlace
  let (place, found) ← reach target
  if found.isSome then refuse .exists target
  modify (·.put place .directory)
  entries.forM fun entry => modify (·.put (place ++ entry.1) entry.2)

end Work

end StaticSite
