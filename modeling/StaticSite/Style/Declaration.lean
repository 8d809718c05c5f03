import StaticSite.Ordered
import StaticSite.Style.Amount

/-!
# Declarations of a component

The props of a component give its declarations: those of the base rule, those of each breakpoint,
and those of the states it can be in. A responsive value is a mapping from breakpoints to values;
where a breakpoint has several names, the first one present counts.
-/

namespace StaticSite.Style

abbrev Declarations := Ordered String

/-- The props that style a component and the properties they set, in the order of declaration. -/
def properties : List (String × String) :=
  [("width", "width"), ("height", "height"), ("minWidth", "min-width"), ("maxWidth", "max-width"),
   ("minHeight", "min-height"), ("maxHeight", "max-height"), ("padding", "padding"),
   ("paddingTop", "padding-top"), ("paddingRight", "padding-right"),
   ("paddingBottom", "padding-bottom"), ("paddingLeft", "padding-left"), ("margin", "margin"),
   ("marginTop", "margin-top"), ("marginRight", "margin-right"),
   ("marginBottom", "margin-bottom"), ("marginLeft", "margin-left"), ("gap", "gap"),
   ("backgroundColor", "background-color"), ("color", "color"), ("borderColor", "border-color"),
   ("fontSize", "font-size"), ("fontWeight", "font-weight"), ("lineHeight", "line-height"),
   ("letterSpacing", "letter-spacing"), ("textAlign", "text-align"),
   ("textDecoration", "text-decoration"), ("textTransform", "text-transform"),
   ("borderWidth", "border-width"), ("borderStyle", "border-style"),
   ("borderRadius", "border-radius"), ("opacity", "opacity"), ("boxShadow", "box-shadow"),
   ("textShadow", "text-shadow"), ("transform", "transform"), ("cursor", "cursor"),
   ("display", "display"), ("flexDirection", "flex-direction"), ("alignItems", "align-items"),
   ("justifyContent", "justify-content"), ("flexWrap", "flex-wrap"),
   ("outlineColor", "outline-color"), ("outlineWidth", "outline-width"),
   ("outlineStyle", "outline-style"), ("outlineOffset", "outline-offset"), ("zIndex", "z-index")]

/-- The props that a state can override. -/
def stateProps : List String :=
  ["backgroundColor", "color", "borderColor", "outlineColor", "opacity", "boxShadow",
   "textShadow", "borderWidth", "borderStyle", "outlineWidth", "outlineStyle", "outlineOffset"]

/-- The props of a state that are parts of its transform, with the units of their numbers. -/
def transformUnits : List (String × String) :=
  [("scale", ""), ("scaleX", ""), ("scaleY", ""), ("rotate", "deg"), ("translateX", "px"),
   ("translateY", "px"), ("skewX", "deg"), ("skewY", "deg")]

/-- The names under which a responsive value keeps the value of a breakpoint. -/
def breakpointNames : List (String × List String) :=
  [("mobile", ["mobile", "base"]), ("tablet", ["tablet", "sm", "md"]),
   ("desktop", ["desktop", "lg", "xl", "xxl"])]

def responsiveKeys : List String := breakpointNames.flatMap (·.2)

/-- Short names for groups of properties in a transition. -/
def transitionGroups : List (String × String) :=
  [("colors", "background-color, color, border-color"), ("shadow", "box-shadow, text-shadow")]

/-- The entries of a mapping that has a breakpoint among its keys. -/
def responsive? (heap : Heap) (value : Value) : Option Entries :=
  match heap.dict? value with
  | some entries =>
    if responsiveKeys.any fun key => (entries.get? key).isSome then some entries else none
  | none => none

/-- The value for a breakpoint under the first of its names that is present. -/
def atBreakpoint (entries : Entries) (breakpoint : String) : Value :=
  let names := (breakpointNames.lookup breakpoint).getD [breakpoint]
  (names.findSome? fun name => entries.get? name).getD .null

/-- The smallest breakpoint; it belongs to the base rule and to a breakpoint without a name. -/
def smallest : String := "mobile"

/--
What a prop gives at a breakpoint, or in the base rule. A plain value belongs to the base rule
alone; the base rule takes the smallest breakpoint of a responsive value.
-/
def valueAt (heap : Heap) (breakpoint : Option String) (raw : Value) : Value :=
  match responsive? heap raw, breakpoint with
  | some entries, some "" => atBreakpoint entries smallest
  | some entries, some breakpoint => atBreakpoint entries breakpoint
  | some entries, none => atBreakpoint entries smallest
  | none, some _ => .null
  | none, none => raw

/-- The declaration of one property, if the props give it a usable value. -/
def declare (heap : Heap) (props : Entries) (breakpoint : Option String)
    (property : String × String) : Except Fault (Option (String × String)) :=
  match props.get? property.1 with
  | none => .ok none
  | some raw => do
    let text ← amount property.1 (valueAt heap breakpoint raw)
    return text.map (property.2, ·)

/-- The declarations of the props at a breakpoint, or of the base rule. -/
def declarations (heap : Heap) (props : Entries) (breakpoint : Option String) :
    Except Fault Declarations := do
  let found ← properties.mapM (declare heap props breakpoint)
  return found.filterMap id

/-- One function of a transform. -/
def transformPart (function unit : String) : Value → Option String
  | .int n => some (function ++ "(" ++ toString n ++ unit ++ ")")
  | .float x => some (function ++ "(" ++ floatText x ++ unit ++ ")")
  | .str s => (safeText s).map fun text => function ++ "(" ++ text ++ ")"
  | _ => none

/-- The functions of a state's transform, in the order of its props. -/
def transforms (overrides : Entries) : List String :=
  overrides.filterMap fun (key, value) =>
    match key with
    | .str prop => (transformUnits.lookup prop).bind fun unit => transformPart prop unit value
    | _ => none

/-- The plain declaration of one override of a state. -/
def override (entry : Value × Value) : Except Fault (Option (String × String)) :=
  match entry.1 with
  | .str prop =>
    if stateProps.contains prop then do
      let text ← amount prop entry.2
      return text.bind fun text => (properties.lookup prop).map (·, text)
    else .ok none
  | _ => .ok none

/-- The declarations of a state; its transform comes last. -/
def stateDeclarations (overrides : Entries) : Except Fault Declarations := do
  let found ← overrides.mapM override
  let plain := found.filterMap id
  let parts := transforms overrides
  return if parts.isEmpty then plain
    else Ordered.put plain "transform" (" ".intercalate parts)

/-- The value of the transition property; none unless it names what changes. -/
def transition (heap : Heap) (value : Value) : Option String := do
  let entries ← heap.dict? value
  let .str prop := (entries.get? "property").getD (.str "all") | none
  if prop = "" || prop = "none" then none
  else
    let prop := (transitionGroups.lookup prop).getD prop
    let duration := ((entries.get? "duration").getD (.int 200)).text heap
    let easing := ((entries.get? "easing").getD (.str "ease")).text heap
    let delay := entries.get "delay"
    let base := prop ++ " " ++ duration ++ "ms " ++ easing
    safeText (if heap.isTruthy delay then base ++ " " ++ delay.text heap ++ "ms" else base)

end StaticSite.Style
