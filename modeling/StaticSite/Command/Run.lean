import StaticSite.Build.Site
import StaticSite.Command.Line
import StaticSite.Command.Snippet
import StaticSite.Log
import StaticSite.Renderer.Core
import StaticSite.Site.File
import StaticSite.Tree.Output

/-!
# A run

A run reads its settings and the site file, builds the site and then, only if that succeeded, writes
the output directory. It says on the way what it does, and ends with an exit code or with a fault
that nobody expected.
-/

namespace StaticSite.Command

/-!
## What a run says

A run prints its outcome, and complains and keeps its log on the other channel. Each thing said
takes lines of its own.
-/

/-- Something that is said during a run. -/
inductive Speech where
  | printed (text : String)
  | completed
  | complaint (text : String)
  | usage (usage : Usage)
  | log (event : Log.Event)
deriving DecidableEq, Repr

namespace Speech

/-- What is printed; a completed build tells its duration. -/
def printout (duration : String) : Speech → String
  | .printed text => text ++ "\n"
  | .completed => "Build completed in " ++ duration ++ "s.\n"
  | .usage .help => Flag.overview
  | _ => ""

/-- What is complained of or logged, under the name of the program and after the time of day. -/
def report (program time : String) : Speech → String
  | .complaint text => text ++ "\n"
  | .usage .help => ""
  | .usage reason => program ++ ": error: " ++ reason.message ++ "\n"
  | .log event => time ++ "[" ++ event.level.name ++ "] " ++ event.message ++ "\n"
  | _ => ""

end Speech

/-! ## Running -/

inductive Ending where
  | exit (code : Nat)
  | fault (fault : Fault)
deriving DecidableEq, Repr

structure Report where
  speech : List Speech
  ending : Ending
  tree : Tree
deriving Repr

/-- Why a run ends before the build. -/
inductive Stop where
  | usage (usage : Usage)
  | complaint (text : String)
  | fault (fault : Fault)
deriving DecidableEq, Repr

def Stop.speech : Stop → List Speech
  | .usage reason => [.usage reason]
  | .complaint text => [.complaint text]
  | .fault _ => []

def Stop.ending : Stop → Ending
  | .usage .help => .exit 0
  | .usage _ => .exit 2
  | .complaint _ => .exit 1
  | .fault cause => .fault cause

def Report.stopped (tree : Tree) (stop : Stop) : Report := ⟨stop.speech, stop.ending, tree⟩

/-- What is said of a configuration file instead of reading it. -/
def configStop (path : Path) : Fault → Stop
  | .invalidConfig error =>
    .complaint ((Fault.invalidConfig error).message ++ " (" ++ path.text ++ ")")
  | .configNotMapping => .complaint (Fault.configNotMapping.message ++ " (" ++ path.text ++ ")")
  | fault => .fault fault

/-- The configuration in a file; a missing file is an empty configuration. -/
def loadConfig (tree : Tree) (path : Path) : Except Stop (Entries × Heap) := do
  if ← (tree.holds path).mapError .fault then
    let text ← (tree.readText path).mapError .fault
    (Config.read {} text (suffixOf path.text)).mapError (configStop path)
  else return ([], {})

/--
The settings of a run. The configuration file is found first, by the one flag that names it; what it
holds is the default for all flags.
-/
def readSettings (tree : Tree) (arguments : List String) : Except Stop Settings := do
  let line ← (Line.read [Flag.config] {} arguments).mapError .usage
  let name := line.settings.config
  let (config, heap) ← loadConfig tree (Path.ofText name)
  let settings ← (Settings.ofConfig heap config name).mapError .fault
  (Line.readAll Flag.all settings arguments).mapError .usage

/-- Whether a fault is one that a malformed file can be blamed for. -/
def isFileFault : Fault → Bool
  | .missingOperation .. => false
  | .notIterable _ => false
  | .notHashable _ => false
  | .notNumeric _ => false
  | .notInteger _ => false
  | .noCharacter => false
  | .missingKey _ => false
  | .infiniteInteger => false
  | .quotientTooLarge => false
  | .integerTooLarge => false
  | .codePointTooLarge => false
  | .dateOutOfRange => false
  | .unknownType .. => false
  | .cyclicContainment _ => false
  | _ => true

def siteStop (path : Path) (fault : Fault) : Stop :=
  if isFileFault fault then
    .complaint ("Invalid site file " ++ path.text ++ ": " ++ fault.message)
  else .fault fault

/-- The site in a file. -/
def loadSite (tree : Tree) (path : Path) : Except Stop (Site × Heap) := do
  if ← (tree.holds path).mapError .fault then
    (tree.readText path >>= Site.read {} path.text).mapError (siteStop path)
  else throw (.complaint ("Site file not found: " ++ path.text))

/-- What a build is asked for, and where its local assets lie. -/
structure Order where
  options : Build.Options
  assetRoot : Option Path

def baseOf (settings : Settings) : String :=
  String.ofList (Text.dropTail (· = '/') (Text.trim settings.baseUrl.toList))

/-- The order that settings make, with the texts of the snippets. -/
def orderOf (tree : Tree) (settings : Settings) (headContent bodyScripts : String) :
    Except Fault Order := do
  let root := Path.ofText settings.staticDirectory
  let isDirectory ← tree.isDirectory root
  let mode ← Build.Mode.ofName settings.mode
  return { assetRoot := if isDirectory then some root else none
           options :=
             { minify := settings.minify, optimizeAssets := settings.optimizeAssets
               inlineCriticalCss := settings.inlineCriticalCss, sourceMaps := settings.sourceMaps
               baseUrl := .str (baseOf settings), generateSitemap := settings.sitemap
               generateRobots := settings.robots, headContent, bodyScripts, mode
               manifestVersion := settings.manifestVersion, assets := settings.assets } }

/-- Finds the snippets and makes the order; complaints are heard whether it can be made or not. -/
def prepare (tree : Tree) (settings : Settings) : List String × Except Fault Order :=
  match Snippet.find tree settings.config ⟨settings.headHtml, settings.headFile⟩ with
  | .error fault => ([], .error fault)
  | .ok head =>
    match Snippet.find tree settings.config ⟨settings.scriptsHtml, settings.scriptsFile⟩ with
    | .error fault => (head.complaints, .error fault)
    | .ok scripts =>
      (head.complaints ++ scripts.complaints, orderOf tree settings head.text scripts.text)

/-- Writes the output directory: cleans it if asked to, then static files, then built ones. -/
def writeOutput (settings : Settings) (files : List Build.File) : Work (Option Output.Refusal) := do
  let output := Path.ofText settings.output
  let root := Path.ofText settings.staticDirectory
  let refusal ←
    if settings.clean then Output.clean output (Tree.pathOf (← get).home) else pure none
  match refusal with
  | some refusal => return some refusal
  | none =>
    if ← Work.ofExcept ((← get).isDirectory root) then Output.copyStatic root output
    Output.writeTexts output (files.map fun file => (file.path, file.content))
    return none

def writtenEvent (result : Build.Result) : Log.Event :=
  .written result.files.length result.stats.totalSize result.stats.savingsPercent
    result.stats.components.toNat result.stats.assets.toNat

/-- The end of a run whose build has succeeded. -/
def finishRun (tree : Tree) (settings : Settings) (result : Build.Result) (said : List Speech) :
    Report :=
  match (writeOutput settings result.files).run tree with
  | .error fault tree => ⟨said, .fault fault, tree⟩
  | .ok (some refusal) tree => ⟨said ++ [.complaint refusal.message], .exit 1, tree⟩
  | .ok none tree =>
    ⟨said ++ [.log (writtenEvent result), .completed,
      .printed ("Site generated in: " ++ settings.output)], .exit 0, tree⟩

/-- Builds the site of a run and, if that succeeded, writes the output directory. -/
def buildAndWrite (tree : Tree) (now : DateTime) (settings : Settings) (site : Site) (heap : Heap)
    (order : Order) (said : List Speech) : Report :=
  let setting : Build.Setting :=
    { heap, catalog := Catalog.core.merged site.schemas, registry := Renderer.core, tree
      assetRoot := order.assetRoot, now, options := order.options }
  let drafts := site.pages.map fun page => ⟨page.page, page.components.map .component⟩
  let said := said ++ [.log (.started site.pages.length order.options.mode.name)]
  match Build.buildSite setting drafts with
  | .error fault => ⟨said, .fault fault, tree⟩
  | .ok (result, events) =>
    let said := said ++ events.map Speech.log
    match result.failure with
    | some cause =>
      ⟨said ++ [.complaint ("Build failed: " ++ cause), .completed], .exit 1, tree⟩
    | none => finishRun tree settings result said

def runWith (tree : Tree) (now : DateTime) (settings : Settings) : Report :=
  match loadSite tree (Path.ofText settings.site) with
  | .error stop => .stopped tree stop
  | .ok (site, heap) =>
    let (complaints, order) := prepare tree settings
    let said := complaints.map Speech.complaint
    match order with
    | .error fault => ⟨said, .fault fault, tree⟩
    | .ok order => buildAndWrite tree now settings site heap order said

/-- What is heard of a run: without the verbose flag, nothing that only helps to find errors. -/
def isHeard (verbose : Bool) : Speech → Bool
  | .log event => verbose || event.level ≠ .debug
  | _ => true

/-- Runs the command. -/
def run (tree : Tree) (now : DateTime) (arguments : List String) : Report :=
  match readSettings tree arguments with
  | .error stop => .stopped tree stop
  | .ok settings =>
    let report := runWith tree now settings
    { report with speech := report.speech.filter (isHeard settings.verbose) }

/-!
## What a run can meet

The paths that the settings of a run name, and the places that each of them passes through. A tree
that agrees with the disk on these places, and on what lies beneath the last one of each path, is
all that a run can see of the disk.
-/

/-- The places on the way that a path takes, from where it starts to where it ends. -/
def placesOf (tree : Tree) (path : Path) : List Place :=
  (List.range (path.names.length + 1)).map fun n =>
    Tree.normalize (tree.start path) (path.names.take n)

/-- The path of the configuration file; a command line that is refused reads none. -/
def configPath? (arguments : List String) : Option Path :=
  match Line.read [Flag.config] {} arguments with
  | .ok line => some (Path.ofText line.settings.config)
  | .error _ => none

/-- The paths that settings name beside the configuration file. -/
def Settings.paths (tree : Tree) (settings : Settings) : List Path :=
  [settings.site, settings.staticDirectory, settings.output].map Path.ofText ++
    ([settings.headFile, settings.scriptsFile].filterMap fun file =>
      (Snippet.path tree settings.config (Text.trimString file)).toOption)

/-- The paths that the settings of a run name, as far as `tree` holds the configuration. -/
def pathsNamed (tree : Tree) (arguments : List String) : List Path :=
  match readSettings tree arguments with
  | .ok settings => settings.paths tree
  | .error _ => []

end StaticSite.Command
