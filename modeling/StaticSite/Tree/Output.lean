import StaticSite.Tree.Work

/-!
# The output directory

What happens to the output directory after a build: it is cleaned, takes in the static files and
then the built ones. A directory that is the project's root, or lies outside it, is never cleaned.
-/

namespace StaticSite.Output

/-- Why a directory is not cleaned. -/
inductive Refusal where
  | root | outside
deriving DecidableEq, Repr

def Refusal.message : Refusal → String
  | .root => "Refusing to clean project root."
  | .outside => "Refusing to clean output directory outside project root."

/-- Why the directory at a place is not cleaned, if it is not. -/
def refusal? (root place : Place) : Option Refusal :=
  if place = root then some .root
  else if Tree.isWithin root place then none
  else some .outside

/-- Removes the output directory, if it is there and may be cleaned. -/
def clean (output root : Path) : Work (Option Refusal) := do
  let tree ← get
  if ← Work.ofExcept (tree.holds output) then
    let place ← Work.ofExcept (tree.resolve output)
    let root ← Work.ofExcept (tree.resolve root)
    match refusal? root place with
    | some refusal => return some refusal
    | none =>
      Work.removeDirectory output
      return none
  else return none

/-- Copies what stands under a name; a directory takes the place of what stood there. -/
def copyEntry (source output : Path) (name : String) : Work Unit := do
  let origin := source.child name
  let target := output.child name
  if ← Work.ofExcept ((← get).isDirectory origin) then
    if ← Work.ofExcept ((← get).holds target) then Work.removeDirectory target
    Work.copyDirectory origin target
  else Work.copyFile origin target

/-- Copies what a directory of static files holds. -/
def copyStatic (source output : Path) : Work Unit := do
  Work.haveDirectories output
  let (place, found) ← Work.reach source
  match found with
  | none => Work.refuse .notFound source
  | some (.file _) => Work.refuse .notDirectory source
  | some .directory => ((← get).namesIn place).forM (copyEntry source output)

/-- Writes texts to their paths beneath the output directory. -/
def writeTexts (output : Path) (texts : List (String × String)) : Work Unit :=
  texts.forM fun (path, text) => Work.writeText (output.join (Path.ofText path)) text

end StaticSite.Output
