import StaticSite.Asset
import StaticSite.Fault
import StaticSite.Value.Setting

/-!
# Settings of a run

What a run is told by its configuration file and its arguments. A configuration gives the defaults;
a setting that it does not name, or names with null, has the default written here.
-/

namespace StaticSite.Command

structure Settings where
  config : String := "site.toml"
  site : String := "site.json"
  staticDirectory : String := "static"
  output : String := "dist"
  baseUrl : String := ""
  mode : String := "production"
  minify : Bool := true
  optimizeAssets : Bool := true
  inlineCriticalCss : Bool := true
  sourceMaps : Bool := false
  sitemap : Bool := true
  robots : Bool := true
  assets : AssetOptions := {}
  manifestVersion : String := "1.0.0"
  headHtml : String := ""
  headFile : String := ""
  scriptsHtml : String := ""
  scriptsFile : String := ""
  clean : Bool := true
  verbose : Bool := false
deriving DecidableEq, Repr

namespace Settings

/-- The text of a setting, whatever its kind. -/
def textOr (heap : Heap) (config : Entries) (key default : String) : String :=
  match config.get key with
  | .null => default
  | value => value.text heap

def boolOr (config : Entries) (key : String) (default : Bool) : Bool :=
  match config.get key with
  | .null => default
  | value => value.asBool

/-- An integer setting; what denotes no integer leaves the default. -/
def intOr (heap : Heap) (config : Entries) (key : String) (default : Int) : Int :=
  ((config.get key).asInt? heap).getD default

/-- A value as a number of seconds. -/
def number (heap : Heap) : Value → Except Fault Binary64
  | .bool b => .ok (.ofInt (if b then 1 else 0))
  | .int n =>
    match Binary64.ofInt n with
    | .infinity _ => .error .integerTooLarge
    | x => .ok x
  | .float x => .ok x
  | .str s =>
    match Number.readFloat? s with
    | some x => .ok x
    | none => .error (.notANumber s)
  | value => .error (.notNumeric (heap.kind value))

/-- The time to read a file; zero and what is empty leave the default. -/
def timeoutOr (heap : Heap) (config : Entries) (default : Binary64) : Except Fault Binary64 :=
  if heap.isTruthy (config.get "asset_timeout") then number heap (config.get "asset_timeout")
  else .ok default

/-- The settings of assets in a configuration. -/
def assetsOf (heap : Heap) (config : Entries) : Except Fault AssetOptions := do
  let default : AssetOptions := {}
  let timeout ← timeoutOr heap config default.timeout
  return { optimizeImages := boolOr config "optimize_images" default.optimizeImages
           maxImageWidth := intOr heap config "max_image_width" default.maxImageWidth
           imageQuality := intOr heap config "image_quality" default.imageQuality
           generateWebp := boolOr config "generate_webp" default.generateWebp
           generateAvif := boolOr config "generate_avif" default.generateAvif
           inlineSmallAssets := boolOr config "inline_small_assets" default.inlineSmallAssets
           inlineThreshold := intOr heap config "inline_threshold" default.inlineThreshold
           timeout }

/-- The settings of a configuration that was read from the file of a name. -/
def ofConfig (heap : Heap) (config : Entries) (name : String) : Except Fault Settings := do
  let default : Settings := {}
  let text := textOr heap config
  let assets ← assetsOf heap config
  return { config := name
           site := text "site" default.site
           staticDirectory := text "static" default.staticDirectory
           output := text "output" default.output
           baseUrl := text "base_url" default.baseUrl
           mode := text "mode" default.mode
           minify := boolOr config "minify" default.minify
           optimizeAssets := boolOr config "optimize_assets" default.optimizeAssets
           inlineCriticalCss := boolOr config "inline_critical_css" default.inlineCriticalCss
           sourceMaps := boolOr config "source_maps" default.sourceMaps
           sitemap := boolOr config "generate_sitemap" default.sitemap
           robots := boolOr config "generate_robots" default.robots
           assets
           manifestVersion := text "manifest_version" default.manifestVersion
           headHtml := text "head_html" default.headHtml
           headFile := text "head_file" default.headFile
           scriptsHtml := text "scripts_html" default.scriptsHtml
           scriptsFile := text "scripts_file" default.scriptsFile
           clean := boolOr config "clean" default.clean
           verbose := false }

end Settings

end StaticSite.Command
