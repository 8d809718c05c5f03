import StaticSite.Text.Digit

/-!
# Text in a style

The classes of components and the addresses of resources, as a style writes them.
-/

namespace StaticSite.Style

/-!
## Class names

Every component has a class of its own, made from its id. Letters, digits and hyphens of ASCII stand
for themselves; every other character becomes its code point in hexadecimal digits between two
underscores, so different ids have different classes.
-/

def isClassChar (c : Char) : Bool := Text.isAsciiAlphanumeric c || c = '-'

def classChar (c : Char) : List Char :=
  if isClassChar c then [c] else '_' :: (Text.hex c.toNat ++ ['_'])

/-- The class of a component id. -/
def className (id start : String) : String :=
  start ++ "-" ++ String.ofList (id.toList.flatMap classChar)

/-!
## Addresses

An address stands in a style between double quotes; the quote and the backslash are escaped by a
backslash.
-/

def urlChar (c : Char) : List Char := if c = '\\' || c = '"' then ['\\', c] else [c]

def urlText (url : String) : String := String.ofList (url.toList.flatMap urlChar)

end StaticSite.Style
