import StaticSite.Asset
import StaticSite.Fault
import StaticSite.Url

/-!
# Optimised assets

Images are limited to a greatest width and offered in other formats; small files are marked for
embedding. No pixel is touched: an alternate URL names a file that a converter puts beside
the image.
-/

namespace StaticSite

/-- The quotient of two integers as a double; the divisor is positive. -/
def quotient (num : Int) (den : Nat) : Except Fault Binary64 :=
  match Binary64.ofIntRatio num den with
  | .infinity _ => .error .quotientTooLarge
  | x => .ok x

namespace Asset

/-- The height that belongs to the greatest width, rounded to whole pixels. -/
def scaledHeight (height width maxWidth : Int) : Except Fault Int := do
  let ratio ← quotient (height * maxWidth) width.toNat
  return (ratio.round?).getD 0

/-- Reduces an image that is wider than `maxWidth`; no limit holds when that is not positive. -/
def limitWidth (asset : Asset) (maxWidth : Int) : Except Fault Asset :=
  match asset.width with
  | none => .ok asset
  | some width =>
    if width = 0 ∨ maxWidth ≤ 0 ∨ width ≤ maxWidth then .ok asset
    else
      match asset.height with
      | none => .ok { asset with width := some maxWidth }
      | some height =>
        if height = 0 then .ok { asset with width := some maxWidth }
        else do
          let height ← scaledHeight height width maxWidth
          return { asset with width := some maxWidth, height := some height }

/-- Adds the target formats that are neither the image's own nor offered already. -/
def offer (own : String) (quality : Int) (urlFor : String → String)
    (alternates : List AlternateFormat) : List String → List AlternateFormat
  | [] => alternates
  | target :: targets =>
    if target = own ∨ target ∈ alternates.map (·.format) then
      offer own quality urlFor alternates targets
    else
      let alternate : AlternateFormat :=
        { format := target, url := urlFor target, quality := some quality }
      offer own quality urlFor (alternates ++ [alternate]) targets

/-- The alternate formats of an image; its URL must have an extension to replace. -/
def alternates (asset : Asset) (options : AssetOptions) : Except Fault (List AlternateFormat) := do
  let parts ← (Url.split asset.optimizedUrl.toList).mapError Fault.url
  match Url.splitExtension? parts.path with
  | none => return asset.alternateFormats
  | some (stem, ext) =>
    let urlFor (target : String) : String :=
      String.ofList (Url.join { parts with path := stem ++ '.' :: target.toList })
    return offer (String.ofList (ext.map Text.lowerAscii)) options.imageQuality urlFor
      asset.alternateFormats options.targetFormats

def optimizeImage (asset : Asset) (options : AssetOptions) : Except Fault Asset := do
  let asset ← asset.limitWidth options.maxImageWidth
  let alternateFormats ← asset.alternates options
  return { asset with alternateFormats }

/-- Whether a file is small enough to be embedded. -/
def isSmall (asset : Asset) (options : AssetOptions) : Bool :=
  options.inlineSmallAssets &&
    match asset.size with
    | some size => size < options.inlineThreshold
    | none => false

def optimizeOne (options : AssetOptions) (asset : Asset) : Except Fault Asset := do
  let asset ←
    if asset.type = "image" ∧ options.optimizeImages then asset.optimizeImage options
    else pure asset
  return if asset.isSmall options then { asset with inlined := true } else asset

def optimize (options : AssetOptions) (assets : List Asset) : Except Fault (List Asset) :=
  assets.mapM (optimizeOne options)

end Asset

end StaticSite
