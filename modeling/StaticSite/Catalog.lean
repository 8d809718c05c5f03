import StaticSite.Ordered

/-!
# Field catalogs

A catalog tells, for each component type, the kind of each declared prop. A prop of one of the URL
kinds holds an address, at any depth inside the props.
-/

namespace StaticSite

/-- The declared kind of each prop. -/
abbrev Fields := Ordered String

structure Catalog where
  schemas : Ordered Fields := []
deriving DecidableEq, Repr

namespace Catalog

def urlKinds : List String := ["image", "video", "link", "file", "font", "url"]

/-- Adds fields to what is declared for a type; a later kind replaces an earlier one. -/
def declare (catalog : Catalog) (type : String) (fields : Fields) : Catalog :=
  let declared := (Ordered.get? catalog.schemas type).getD []
  ⟨Ordered.put catalog.schemas type (Ordered.putAll declared fields)⟩

def hasSchema (catalog : Catalog) (type : String) : Bool := Ordered.contains catalog.schemas type

/-- The declared fields of a type that hold addresses. -/
def urlFields (catalog : Catalog) (type : String) : Fields :=
  ((Ordered.get? catalog.schemas type).getD []).filter fun (_, kind) => urlKinds.contains kind

/-- Both catalogs together; where both declare a field, the other one decides. -/
def merged (catalog other : Catalog) : Catalog :=
  other.schemas.foldl (fun catalog (type, fields) => catalog.declare type fields) catalog

/-- The URL fields of a type that has a schema; without a catalog no type has one. -/
def urlFields? (catalog : Option Catalog) (type : String) : Option Fields :=
  match catalog with
  | some catalog => if catalog.hasSchema type then some (catalog.urlFields type) else none
  | none => none

end Catalog

end StaticSite
