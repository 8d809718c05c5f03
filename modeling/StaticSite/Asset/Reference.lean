import StaticSite.Catalog
import StaticSite.Media
import StaticSite.Url

/-!
# Which strings are asset references, and to what

A declared field decides for its component type. Without a schema, the name of the prop or the form
of the string decides. The type of an asset follows its extension; the declared kind of the field
is asked only when the extension tells nothing.
-/

namespace StaticSite.Asset

/-- The names, in small letters, of props that hold addresses by convention. -/
def urlKeys : List String :=
  ["src", "href", "url", "image", "imageurl", "backgroundimage", "backgroundvideo", "poster",
   "logo", "avatar", "thumbnail", "video", "videourl", "icon", "favicon", "file", "download"]

/-- Beginnings of addresses that lead to no file. -/
def excludedStarts : List String := ["data:", "javascript:", "mailto:", "tel:", "#"]

def remoteStarts : List String := ["http://", "https://"]

/-- Asset type and media type by extension. -/
def extensionTypes : List (String × String × String) :=
  [("jpg", "image", "image/jpeg"), ("jpeg", "image", "image/jpeg"), ("png", "image", "image/png"),
   ("gif", "image", "image/gif"), ("webp", "image", "image/webp"), ("avif", "image", "image/avif"),
   ("svg", "image", "image/svg+xml"), ("bmp", "image", "image/bmp"),
   ("ico", "image", "image/x-icon"), ("mp4", "video", "video/mp4"),
   ("webm", "video", "video/webm"), ("ogg", "video", "video/ogg"), ("ogv", "video", "video/ogg"),
   ("mov", "video", "video/quicktime"), ("woff", "font", "font/woff"),
   ("woff2", "font", "font/woff2"), ("ttf", "font", "font/ttf"), ("otf", "font", "font/otf"),
   ("eot", "font", "application/vnd.ms-fontobject"), ("js", "script", "text/javascript"),
   ("mjs", "script", "text/javascript"), ("css", "style", "text/css")]

/-- The kinds of fields that are also types of assets. -/
def declaredKinds : List String := ["image", "video", "font"]

def defaultMime : String := "application/octet-stream"

/-- The asset type of a media type. -/
def typeOfMime (mime : String) : String :=
  let major := mime.toList.takeWhile (· != '/')
  if declaredKinds.contains (String.ofList major) then String.ofList major
  else if mime = "text/css" then "style"
  else if Text.contains "javascript".toList mime.toList then "script"
  else "other"

/-- The media type of a URL's path, if it has an extension that is known. -/
def guessMime? (url : List Char) : Option String :=
  match Url.split url with
  | .ok parts => Media.guess? parts.path
  | .error _ => none

/-- Asset type and media type of a URL in a field of the declared kind. -/
def classify (url : String) (kind : Option String) : String × String :=
  let ext := Url.extension url.toList
  match extensionTypes.lookup (String.ofList ext) with
  | some found => found
  | none =>
    match if ext.isEmpty then none else guessMime? url.toList with
    | some mime => (typeOfMime mime, mime)
    | none =>
      match kind with
      | some kind => (if declaredKinds.contains kind then kind else "other", defaultMime)
      | none => ("other", defaultMime)

def startsWithAny (starts : List String) (s : List Char) : Bool :=
  starts.any fun start => Text.startsWith start.toList s

/-- Whether a string looks like an address whatever the prop's name. -/
def looksLikeUrl (candidate : List Char) : Bool :=
  if candidate.any Text.isBlank then false
  else startsWithAny remoteStarts candidate || candidate.head? = some '/' ||
    (extensionTypes.lookup (String.ofList (Url.extension candidate))).isSome

/-- Whether the string under a key refers to an asset. -/
def isReference (key : Option String) (value : String) (fields : Option Fields) : Bool :=
  let candidate := Text.trim value.toList
  if candidate.isEmpty || startsWithAny excludedStarts (candidate.map Text.lower) then false
  else
    match fields, key with
    | some fields, some key => Ordered.contains fields key
    | some _, none => false
    | none, some key => urlKeys.contains (Text.lowerString key) || looksLikeUrl candidate
    | none, none => looksLikeUrl candidate

end StaticSite.Asset
