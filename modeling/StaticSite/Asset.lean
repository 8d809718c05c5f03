import StaticSite.Bytes.Base64
import StaticSite.Bytes.Sha256
import StaticSite.Json
import StaticSite.Number.Binary64

/-!
# Assets

An asset is the record of one referenced resource. It is known by a hash of its URL.
-/

namespace StaticSite

structure AlternateFormat where
  format : String
  url : String
  size : Option Int := none
  quality : Option Int := none
deriving DecidableEq, Repr

structure Asset where
  id : String
  url : String
  optimizedUrl : String
  type : String
  mimeType : String
  size : Option Int := none
  optimizedSize : Option Int := none
  width : Option Int := none
  height : Option Int := none
  alternateFormats : List AlternateFormat := []
  inlined : Bool := false
  dataUri : Option String := none
  usedBy : List String := []
deriving DecidableEq, Repr

structure AssetOptions where
  optimizeImages : Bool := true
  maxImageWidth : Int := 1920
  imageQuality : Int := 80
  generateWebp : Bool := true
  generateAvif : Bool := false
  inlineSmallAssets : Bool := true
  inlineThreshold : Int := 4096
  timeout : Binary64 := .ofInt 5
deriving DecidableEq, Repr

/-- The formats that images are offered in besides their own. -/
def AssetOptions.targetFormats (options : AssetOptions) : List String :=
  (if options.generateWebp then ["webp"] else []) ++ (if options.generateAvif then ["avif"] else [])

namespace Asset

/-- The first sixteen hexadecimal digits of the hash of a URL. -/
def idOf (url : String) : String :=
  String.ofList ((Sha256.hexDigest (Utf8.encode url)).take 16)

def types : List String := ["image", "video", "font", "script", "style", "other"]

/-- A member for a value that is known. -/
def known (name : String) (value : Option Json) : List (String × Json) :=
  match value with
  | some value => [(name, value)]
  | none => []

end Asset

def AlternateFormat.toJson (alternate : AlternateFormat) : Json :=
  .obj ([("format", .str alternate.format), ("url", .str alternate.url)] ++
    Asset.known "size" (alternate.size.map .int) ++
    Asset.known "quality" (alternate.quality.map .int))

/-- The record as it is published; what is not known is left out. -/
def Asset.toJson (asset : Asset) : Json :=
  .obj ([("id", .str asset.id), ("originalUrl", .str asset.url),
      ("optimizedUrl", .str asset.optimizedUrl), ("type", .str asset.type),
      ("mimeType", .str asset.mimeType)] ++
    known "originalSize" (asset.size.map .int) ++
    known "optimizedSize" (asset.optimizedSize.map .int) ++
    known "width" (asset.width.map .int) ++
    known "height" (asset.height.map .int) ++
    known "dataUri" (asset.dataUri.map .str) ++
    [("alternateFormats", .arr (asset.alternateFormats.map AlternateFormat.toJson)),
     ("inlined", .bool asset.inlined), ("usedBy", .arr (asset.usedBy.map .str))])

/-!
## Embedded assets

An asset that is marked for embedding and whose bytes are at hand carries them in a data URI.
-/

namespace Asset

/-- The bytes of files by asset id; a later file with the same id replaces an earlier one. -/
abbrev Payloads := Ordered Bytes

def dataUriOf (mimeType : String) (bytes : Bytes) : String :=
  "data:" ++ mimeType ++ ";base64," ++ String.ofList (Base64.encode bytes)

def embedOne (payloads : Payloads) (asset : Asset) : Asset :=
  match asset.inlined, Ordered.get? payloads asset.id, asset.dataUri with
  | true, some bytes, none => { asset with dataUri := some (dataUriOf asset.mimeType bytes) }
  | _, _, _ => asset

def embed (payloads : Payloads) (assets : List Asset) : List Asset :=
  assets.map (embedOne payloads)

end Asset

end StaticSite
