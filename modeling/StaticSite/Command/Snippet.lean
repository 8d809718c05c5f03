import StaticSite.Tree

/-!
# Snippets

A snippet for the head or the end of every page is given as markup or as a file. Markup wins. A file
is looked for beside the configuration file; one that is missing leaves an empty snippet.
-/

namespace StaticSite.Command

/-- Where a snippet comes from. -/
structure Snippet where
  html : String
  file : String
deriving DecidableEq, Repr

/-- The text of a snippet, and what there is to complain of. -/
structure Snippet.Found where
  text : String
  complaints : List String
deriving DecidableEq, Repr

namespace Snippet

/-- The path of a snippet's file as seen from the configuration file. -/
def path (tree : Tree) (config : String) (file : String) : Except Fault Path := do
  let path := Path.ofText file
  if path.isAbsolute then return path
  let place ← tree.resolve (Path.ofText config)
  return (Tree.pathOf place).parent.join path

def find (tree : Tree) (config : String) (snippet : Snippet) : Except Fault Found := do
  let html := Text.trimString snippet.html
  let file := Text.trimString snippet.file
  if html ≠ "" then return ⟨html, []⟩
  if file = "" then return ⟨"", []⟩
  let path ← path tree config file
  if ← tree.holds path then
    let text ← tree.readText path
    return ⟨text, []⟩
  else return ⟨"", ["Snippet file not found: " ++ path.text]⟩

end Snippet

end StaticSite.Command
