/-!
# Markup trees

Renderers build trees of elements, text and ready markup; one function writes them. Text and the
values of attributes are escaped there and nowhere else.
-/

namespace StaticSite.Markup

/-!
## Escaped text

The five characters with a meaning in markup are written as references, so that text stands in
content and in quoted attributes alike.
-/

def escapeChar (c : Char) : List Char :=
  if c = '&' then "&amp;".toList
  else if c = '<' then "&lt;".toList
  else if c = '>' then "&gt;".toList
  else if c = '"' then "&quot;".toList
  else if c.toNat = 39 then "&#x27;".toList
  else [c]

def escapeChars (s : List Char) : List Char := s.flatMap escapeChar

def escape (s : String) : String := String.ofList (escapeChars s.toList)

/-! ## Trees -/

inductive Attribute where
  | value (name text : String)
  | flag (name : String)
deriving DecidableEq, Repr

inductive Node where
  | text (s : String)
  | ready (markup : String)
  | void (tag : String) (attributes : List Attribute)
  | element (tag : String) (attributes : List Attribute) (content : List Node)
deriving Repr

def Attribute.write : Attribute → String
  | .value name text => " " ++ name ++ "=\"" ++ escape text ++ "\""
  | .flag name => " " ++ name

def openTag (tag : String) (attributes : List Attribute) : String :=
  "<" ++ tag ++ String.join (attributes.map Attribute.write) ++ ">"

mutual

def Node.write : Node → String
  | .text s => escape s
  | .ready markup => markup
  | .void tag attributes => openTag tag attributes
  | .element tag attributes content =>
    openTag tag attributes ++ writeAll content ++ "</" ++ tag ++ ">"

def writeAll : List Node → String
  | [] => ""
  | node :: nodes => node.write ++ writeAll nodes

end

/-- A line end between nodes. -/
def line : Node := .ready "\n"

end StaticSite.Markup
