import StaticSite.Component
import StaticSite.Style.Declaration
import StaticSite.Style.Text

/-!
# Rules of a component

A component has a base rule, a rule for each state, and a rule for each breakpoint, which holds from
a least width of the window on. Breakpoints come in the order of their widths, so that a wider one
overrides a narrower one.
-/

namespace StaticSite.Style

structure Options where
  minify : Bool := false
  includeResponsive : Bool := true
  includeStates : Bool := true
  annotate : Bool := false
  classStart : String := "dc"
  breakpoints : Ordered Int := [("tablet", 768), ("desktop", 1024)]
deriving Repr

structure Rule where
  selector : String
  declarations : Declarations
  minWidth : Option Int := none
deriving DecidableEq, Repr

/-- The states of a component and the pseudo-classes that stand for them. -/
def stateClasses : List (String × String) :=
  [("hover", ":hover"), ("active", ":active"), ("focus", ":focus")]

namespace Rule

/-- A rule as lines that start with `indent`. -/
def block (rule : Rule) (indent : String) : String :=
  let lines := rule.declarations.map fun (property, value) =>
    indent ++ "  " ++ property ++ ": " ++ value ++ ";"
  "\n".intercalate ([indent ++ rule.selector ++ " \x7b"] ++ lines ++ [indent ++ "\x7d"])

/-- The text of a rule; a breakpoint's rule stands inside its media condition. -/
def text (rule : Rule) : String :=
  match rule.minWidth with
  | none => rule.block ""
  | some width =>
    "@media (min-width: " ++ toString width ++ "px) \x7b\n" ++ rule.block "  " ++ "\n\x7d"

end Rule

/-- Rules without declarations are left out. -/
def rule? (selector : String) (declarations : Declarations) (minWidth : Option Int) :
    Option Rule :=
  if declarations.isEmpty then none else some { selector, declarations, minWidth }

/-- The base rule's declarations; the transition comes last. -/
def baseDeclarations (heap : Heap) (props : Entries) : Except Fault Declarations := do
  let found ← declarations heap props none
  return match transition heap (props.get "transition") with
    | some value => Ordered.put found "transition" value
    | none => found

/-- The rule of one state, if the props override anything in it. -/
def stateRule (heap : Heap) (selector : String) (states : Entries) (state : String × String) :
    Except Fault (Option Rule) :=
  match heap.dict? (states.get state.1) with
  | none => .ok none
  | some overrides => do
    let found ← stateDeclarations overrides
    return rule? (selector ++ state.2) found none

def stateRules (heap : Heap) (options : Options) (selector : String) (props : Entries) :
    Except Fault (List Rule) :=
  match options.includeStates, heap.dict? (props.get "states") with
  | true, some states => do
    let found ← stateClasses.mapM (stateRule heap selector states)
    return found.filterMap id
  | _, _ => .ok []

/-- The breakpoints from narrow to wide; those of equal width keep their order. -/
def sortedBreakpoints (breakpoints : Ordered Int) : Ordered Int :=
  breakpoints.mergeSort fun a b => a.2 ≤ b.2

def breakpointRule (heap : Heap) (selector : String) (props : Entries)
    (breakpoint : String × Int) : Except Fault (Option Rule) := do
  let found ← declarations heap props (some breakpoint.1)
  return rule? selector found (some breakpoint.2)

def breakpointRules (heap : Heap) (options : Options) (selector : String) (props : Entries) :
    Except Fault (List Rule) :=
  if options.includeResponsive then do
    let found ← (sortedBreakpoints options.breakpoints).mapM (breakpointRule heap selector props)
    return found.filterMap id
  else .ok []

/-- All rules of a component in the order in which they are written. -/
def componentRules (heap : Heap) (options : Options) (component : Component) :
    Except Fault (List Rule) := do
  let props := component.entries heap
  let selector := "." ++ className component.id options.classStart
  let base ← baseDeclarations heap props
  let states ← stateRules heap options selector props
  let breakpoints ← breakpointRules heap options selector props
  return (rule? selector base none).toList ++ states ++ breakpoints

end StaticSite.Style
