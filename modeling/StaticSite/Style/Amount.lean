import StaticSite.Fault
import StaticSite.Value.Text

/-!
# Values of style properties

A number becomes a length in pixels unless its property has no unit; opacities above one are
percentages. Text is passed on when it cannot end the declaration it stands in.
-/

namespace StaticSite.Style

/-- The props whose numbers have no unit. -/
def unitless : List String :=
  ["opacity", "fontWeight", "lineHeight", "zIndex", "flexGrow", "flexShrink"]

/-- The characters that could end a declaration, a rule or the style element. -/
def isUnsafe (c : Char) : Bool := c = '<' || c = '>' || c = '\x7b' || c = '\x7d' || c = ';'

/-- The text without blanks around it, unless it is empty or unsafe. -/
def safeText (s : String) : Option String :=
  let trimmed := Text.trim s.toList
  if trimmed.isEmpty || trimmed.any isUnsafe then none else some (String.ofList trimmed)

/-- A double without a fraction is written as an integer. -/
def floatText (x : Binary64) : String :=
  if x.isInteger then
    match x.truncate? with
    | some n => toString n
    | none => x.text
  else x.text

/-- An opacity; above one it is a percentage. -/
def opacityOfInt (n : Int) : Except Fault String :=
  if n ≤ 1 then .ok (toString n)
  else
    match Binary64.ofIntRatio n 100 with
    | .infinity _ => .error .quotientTooLarge
    | x => .ok (floatText x)

def opacityOfFloat (x : Binary64) : String :=
  floatText (if x.gtInt 1 then x.divNat 100 else x)

/-- The text of a property's value; none for what is no number and no safe text. -/
def amount (prop : String) : Value → Except Fault (Option String)
  | .int n =>
    if prop = "opacity" then (opacityOfInt n).map some
    else if unitless.contains prop then .ok (some (toString n))
    else .ok (some (toString n ++ "px"))
  | .float x =>
    if prop = "opacity" then .ok (some (opacityOfFloat x))
    else if unitless.contains prop then .ok (some (floatText x))
    else .ok (some (floatText x ++ "px"))
  | .str s => .ok (safeText s)
  | _ => .ok none

end StaticSite.Style
