import StaticSite.Command.Settings

/-!
# Flags

The flags of the command line, in the order in which messages list them, and what each one sets.
-/

namespace StaticSite.Command

/-- What a flag does; all but switches, marks and help take an argument. -/
inductive Action where
  | text (set : String → Settings → Settings)
  | choice (choices : List String) (set : String → Settings → Settings)
  | integer (set : Int → Settings → Settings)
  | number (set : Binary64 → Settings → Settings)
  | switch (set : Bool → Settings → Settings)
  | mark (set : Settings → Settings)
  | help

structure Flag where
  names : List String
  action : Action

namespace Flag

def takesArgument (flag : Flag) : Bool :=
  match flag.action with
  | .switch _ => false
  | .mark _ => false
  | .help => false
  | _ => true

def text (name : String) (set : String → Settings → Settings) : Flag := ⟨["--" ++ name], .text set⟩

def integer (name : String) (set : Int → Settings → Settings) : Flag :=
  ⟨["--" ++ name], .integer set⟩

/-- A switch has a second name that turns it off. -/
def switch (name : String) (set : Bool → Settings → Settings) : Flag :=
  ⟨["--" ++ name, "--no-" ++ name], .switch set⟩

/-- The flag that names the configuration file. -/
def config : Flag := text "config" fun value settings => { settings with config := value }

def mode : Flag :=
  ⟨["--mode"], .choice buildModes fun value settings => { settings with mode := value }⟩

/-- Changes the settings of assets. -/
def onAssets {α : Type} (set : α → AssetOptions → AssetOptions) (value : α) (settings : Settings) :
    Settings :=
  { settings with assets := set value settings.assets }

def all : List Flag :=
  [⟨["-h", "--help"], .help⟩,
   config,
   text "site" fun value settings => { settings with site := value },
   text "static" fun value settings => { settings with staticDirectory := value },
   text "output" fun value settings => { settings with output := value },
   text "base-url" fun value settings => { settings with baseUrl := value },
   mode,
   switch "minify" fun value settings => { settings with minify := value },
   switch "optimize-assets" fun value settings => { settings with optimizeAssets := value },
   switch "inline-critical-css" fun value settings => { settings with inlineCriticalCss := value },
   switch "source-maps" fun value settings => { settings with sourceMaps := value },
   switch "sitemap" fun value settings => { settings with sitemap := value },
   switch "robots" fun value settings => { settings with robots := value },
   switch "optimize-images" (onAssets fun value assets => { assets with optimizeImages := value }),
   integer "max-image-width" (onAssets fun value assets => { assets with maxImageWidth := value }),
   integer "image-quality" (onAssets fun value assets => { assets with imageQuality := value }),
   switch "webp" (onAssets fun value assets => { assets with generateWebp := value }),
   switch "avif" (onAssets fun value assets => { assets with generateAvif := value }),
   switch "inline-small-assets"
     (onAssets fun value assets => { assets with inlineSmallAssets := value }),
   integer "inline-threshold"
     (onAssets fun value assets => { assets with inlineThreshold := value }),
   ⟨["--asset-timeout"], .number (onAssets fun value assets => { assets with timeout := value })⟩,
   text "manifest-version" fun value settings => { settings with manifestVersion := value },
   text "head-html" fun value settings => { settings with headHtml := value },
   text "head-file" fun value settings => { settings with headFile := value },
   text "scripts-html" fun value settings => { settings with scriptsHtml := value },
   text "scripts-file" fun value settings => { settings with scriptsFile := value },
   switch "clean" fun value settings => { settings with clean := value },
   ⟨["-v", "--verbose"], .mark fun settings => { settings with verbose := true }⟩]

/-- What help shows: the names of all flags, those of one flag on one line. -/
def overview : String :=
  String.join (all.map fun flag => "  " ++ ", ".intercalate flag.names ++ "\n")

end Flag

end StaticSite.Command
