import StaticSite.Asset.Manifest
import StaticSite.Log

/-!
# Builds

What a build is asked for, and what it gives: files with their texts, counts and sizes, and the
cause of a failure.
-/

namespace StaticSite.Build

inductive Mode where
  | production | development | preview
deriving DecidableEq, Repr

def Mode.name : Mode → String
  | .production => "production"
  | .development => "development"
  | .preview => "preview"

/-- The mode of a name. -/
def Mode.ofName (name : String) : Except Fault Mode :=
  if name = "production" then .ok .production
  else if name = "development" then .ok .development
  else if name = "preview" then .ok .preview
  else .error (.unknownMode name)

/-- The modes that can be named are those that a message lists. -/
theorem map_name_buildModes :
    [Mode.production, .development, .preview].map Mode.name = buildModes :=
  rfl

structure Options where
  minify : Bool := true
  optimizeAssets : Bool := true
  inlineCriticalCss : Bool := true
  sourceMaps : Bool := false
  baseUrl : Value := .str ""
  generateSitemap : Bool := true
  generateRobots : Bool := true
  headContent : String := ""
  bodyScripts : String := ""
  mode : Mode := .production
  manifestVersion : String := "1.0.0"
  assets : AssetOptions := {}
deriving Repr

namespace Options

def isProduction (options : Options) : Bool := options.mode = .production

/-- Only production builds are reduced. -/
def shouldMinify (options : Options) : Bool := options.minify && options.isProduction

end Options

/-- A built file; `minified` tells, where it makes a difference, whether the text is reduced. -/
structure File where
  path : String
  type : String
  content : String
  minified : Option Bool := none
deriving DecidableEq, Repr

/-- The number of bytes of a file. -/
def File.size (file : File) : Nat := Utf8.size file.content

structure Stats where
  pages : Int := 0
  components : Int := 0
  assets : Int := 0
  totalSize : Int := 0
  rawSize : Int := 0
  savingsPercent : Int := 0
deriving DecidableEq, Repr

namespace Stats

/-- The sums of both; the savings are left to be computed. -/
def plus (stats other : Stats) : Stats :=
  { pages := stats.pages + other.pages
    components := stats.components + other.components
    assets := stats.assets + other.assets
    totalSize := stats.totalSize + other.totalSize
    rawSize := stats.rawSize + other.rawSize }

/-- The counts and sizes as they are published. -/
def toJson (stats : Stats) : Json :=
  .obj [("pagesBuilt", .int stats.pages), ("componentsRendered", .int stats.components),
    ("assetsProcessed", .int stats.assets), ("totalSize", .int stats.totalSize),
    ("originalSize", .int stats.rawSize), ("savingsPercent", .int stats.savingsPercent)]

/-- The sums over several builds, with the savings of the summed sizes. -/
def merge (all : List Stats) : Except Fault Stats := do
  let total := all.foldl plus {}
  let savingsPercent ← percentSaved total.rawSize total.totalSize
  return { total with savingsPercent }

end Stats

/-- What a build gives; a failed one keeps the files that were finished before. -/
structure Result where
  failure : Option String := none
  files : List File := []
  stats : Stats := {}
  manifest : Option Manifest := none
deriving Repr

def Result.succeeded (result : Result) : Bool := result.failure.isNone

end StaticSite.Build
