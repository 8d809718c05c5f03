import StaticSite.Json.Reader
import StaticSite.Renderer.Code
import StaticSite.Site
import StaticSite.Toml
import StaticSite.Yaml

/-!
# Site files and configurations

Which format a file has follows from its name. A site file is YAML or JSON; a configuration can be
TOML, too, and must hold a mapping.
-/

namespace StaticSite

inductive Format where
  | json | yaml | toml
deriving DecidableEq, Repr

/-- The format that a suffix stands for; any other suffix stands for JSON. -/
def Format.ofSuffix (suffix : String) : Format :=
  let suffix := Text.lowerString suffix
  if suffix = ".toml" then .toml
  else if suffix = ".yml" ∨ suffix = ".yaml" then .yaml
  else .json

/-- The suffix of a file's name with its point. -/
def suffixOf (path : String) : String :=
  match Listing.nameExtension (Listing.fileName path.toList) with
  | [] => ""
  | ext => String.ofList ('.' :: ext)

def readJson (heap : Heap) (text : String) : Except Fault (Value × Heap) :=
  match Json.read text with
  | .ok json => .ok (json.toValue heap)
  | .error error => .error (.json error)

/-- The site that a file of the given name holds; an empty one holds no pages. -/
def Site.read (heap : Heap) (name text : String) : Except Fault (Site × Heap) := do
  let (value, heap) ←
    if Format.ofSuffix (suffixOf name) = .yaml then Yaml.read heap text else readJson heap text
  if heap.isTruthy value then Site.ofValue heap value else return ({}, heap)

namespace Config

/-- What is said of a text that is no configuration; other faults stay as they are. -/
def fault : Fault → Fault
  | .malformedYaml => .invalidConfig none
  | .malformedToml => .invalidConfig none
  | .json (.malformed cause place) => .invalidConfig (some (Json.Error.malformed cause place))
  | fault => fault

/-- The settings that a text of a format holds. -/
def read (heap : Heap) (text suffix : String) : Except Fault (Entries × Heap) := do
  let found :=
    match Format.ofSuffix suffix with
    | .toml => Toml.read heap text
    | .yaml => Yaml.read heap text
    | .json => readJson heap text
  let (value, heap) ← found.mapError fault
  match value, heap.dict? value with
  | .null, _ => return ([], heap)
  | _, some entries => return (entries, heap)
  | _, none => throw .configNotMapping

end Config

end StaticSite
