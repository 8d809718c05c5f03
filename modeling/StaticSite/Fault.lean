import StaticSite.Bytes.Utf8
import StaticSite.Json.Reader
import StaticSite.Url
import StaticSite.Value.Text

/-!
# Faults

Everything that can go wrong with page data, site files, configurations and the file tree, as
causes. What a cause says is written in one place.
-/

namespace StaticSite

/-- What an operation on the file tree was refused for. -/
inductive FileCause where
  | notFound | exists | isDirectory | notDirectory | nameTooLong | nameless | sameFile
deriving DecidableEq, Repr

inductive Fault where
  -- values of the wrong kind
  | missingOperation (kind : Kind) (operation : String)
  | notIterable (kind : Kind)
  | notHashable (kind : Kind)
  | notNumeric (kind : Kind)
  | notInteger (kind : Kind)
  | noCharacter
  | missingKey (key : String)
  -- numbers
  | infiniteInteger
  | quotientTooLarge
  | integerTooLarge
  | codePointTooLarge
  | notANumber (text : String)
  | dateOutOfRange
  -- addresses and paths
  | url (error : Url.Error)
  | nulInPath
  | file (cause : FileCause) (path : String)
  -- text
  | json (error : Json.Error)
  | utf8 (fault : Utf8.Fault)
  | malformedYaml
  | malformedToml
  | yamlValue (message : String)
  -- site files
  | componentNotMapping (kind : Kind)
  | componentWithoutId
  | componentWithoutType (id : String)
  | propsNotMapping (id : String)
  | componentsNotListed
  | pageNotMapping
  | pageWithoutId
  | siteNotMapping
  | invalidConfig (error : Option Json.Error)
  | configNotMapping
  -- rendering and building
  | unknownType (id type : String)
  | cyclicContainment (id : String)
  | unknownMode (mode : String)
deriving DecidableEq, Repr

/-- The modes of a build; only production builds reduce and optimise. -/
def buildModes : List String := ["production", "development", "preview"]

def FileCause.text : FileCause → String
  | .notFound => "[Errno 2] No such file or directory: "
  | .exists => "[Errno 17] File exists: "
  | .isDirectory => "[Errno 21] Is a directory: "
  | .notDirectory => "[Errno 20] Not a directory: "
  | .nameTooLong => "[Errno 36] File name too long: "
  | .nameless => "[Errno 22] Invalid argument: "
  | .sameFile => "Same file: "

namespace Fault

def message : Fault → String
  | .missingOperation kind operation =>
    Text.quotedString kind.fullName ++ " object has no attribute " ++ Text.quotedString operation
  | .notIterable kind => Text.quotedString kind.fullName ++ " object is not iterable"
  | .notHashable kind => "unhashable type: " ++ Text.quotedString kind.name
  | .notNumeric kind =>
    "float() argument must be a string or a real number, not " ++ Text.quotedString kind.fullName
  | .notInteger kind =>
    Text.quotedString kind.fullName ++ " object cannot be interpreted as an integer"
  | .noCharacter => "string index out of range"
  | .missingKey key => Text.quotedString key
  | .infiniteInteger => "cannot convert float infinity to integer"
  | .quotientTooLarge => "integer division result too large for a float"
  | .integerTooLarge => "int too large to convert to float"
  | .codePointTooLarge => "Python int too large to convert to C int"
  | .notANumber text => "could not convert string to float: " ++ Text.quotedString text
  | .dateOutOfRange => "date value out of range"
  | .url error => error.message
  | .nulInPath => "embedded null byte"
  | .file cause path => cause.text ++ Text.quotedString path
  | .json error => error.message
  | .utf8 fault => fault.message
  | .malformedYaml => "malformed YAML"
  | .malformedToml => "malformed TOML"
  | .yamlValue message => message
  | .componentNotMapping kind => "Component entry must be a mapping, got " ++ kind.name
  | .componentWithoutId => "Component entry is missing an id"
  | .componentWithoutType id => "Component " ++ id ++ " is missing a type"
  | .propsNotMapping id => "Component " ++ id ++ " props must be a mapping"
  | .componentsNotListed => "Page components must be a list or a mapping keyed by id"
  | .pageNotMapping => "Page entry must be a mapping"
  | .pageWithoutId => "Page entry is missing an id"
  | .siteNotMapping => "Site file must contain a mapping or a list of pages"
  | .invalidConfig error =>
    "Invalid config: " ++ (error.map Json.Error.message).getD "malformed text"
  | .configNotMapping => "Config must be a mapping"
  | .unknownType id type =>
    "Unknown component type " ++ Text.quotedString type ++ " for component " ++ id
  | .cyclicContainment id => "Cyclic containment detected at component " ++ id
  | .unknownMode mode =>
    "Unknown build mode: " ++ Text.quotedString mode ++ " (expected one of " ++
      ", ".intercalate buildModes ++ ")"

/-- What is told of a fault. Only a refused value can come without a message; its kind is named. -/
def report (fault : Fault) : String :=
  if fault.message = "" then "ValueError" else fault.message

end Fault

end StaticSite
