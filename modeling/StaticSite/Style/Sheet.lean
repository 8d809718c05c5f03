import StaticSite.Style.Minify
import StaticSite.Style.Rule

/-!
# The style sheet of a page

The rules that every page has, then the rules of each component. With annotations, a comment before
a component's rules tells which one they belong to.
-/

namespace StaticSite.Style

/-- The rules that every page starts with. -/
def baseSheet : String :=
  "/* Generated page styles */\n" ++
  "*,\n*::before,\n*::after \x7b\n  box-sizing: border-box;\n\x7d\n\n" ++
  "body \x7b\n  margin: 0;\n  font-family: system-ui, -apple-system, sans-serif;\n" ++
  "  line-height: 1.5;\n\x7d\n\n" ++
  "img,\nvideo \x7b\n  max-width: 100%;\n  height: auto;\n\x7d\n\n" ++
  "a \x7b\n  color: inherit;\n  text-decoration: none;\n\x7d\n\n" ++
  "button \x7b\n  font: inherit;\n  cursor: pointer;\n\x7d"

/-- The characters that could end a comment or the style element. -/
def isUnsafeInComment (c : Char) : Bool := c = '<' || c = '>' || c = '*'

/-- The comment that names a component. -/
def annotation (component : Component) : String :=
  let label := component.id ++ " (" ++ component.type ++ ")"
  "/* " ++ String.ofList (label.toList.filter (!isUnsafeInComment ·)) ++ " */\n"

/-- The rules of a component as text; empty when it has none. -/
def componentText (heap : Heap) (options : Options) (component : Component) :
    Except Fault String := do
  let rules ← componentRules heap options component
  if rules.isEmpty then return ""
  let text := "\n".intercalate (rules.map Rule.text)
  return if options.annotate then annotation component ++ text else text

/-- The rules of an entry; what has no props or no id has no rules to write. -/
def entryText (heap : Heap) (options : Options) : Entry → Except Fault String
  | .component c => componentText heap options c
  | .nameless .. => .error (.notIterable .null)
  | .stray value => .error (.missingOperation (heap.kind value) "props")

def pageSheet (heap : Heap) (options : Options) (entries : List Entry) : Except Fault String := do
  let blocks ← entries.mapM (entryText heap options)
  let sheet := "\n\n".intercalate (baseSheet :: blocks.filter (· ≠ "")) ++ "\n"
  return if options.minify then minify sheet else sheet

/-- The rules for the first paint: nothing tells which rules it needs, so it gets all of them. -/
def critical (sheet : String) : String := sheet

end StaticSite.Style
