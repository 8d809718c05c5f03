import StaticSite.Asset.Local
import StaticSite.Build
import StaticSite.Json.Writer
import StaticSite.Page.Document
import StaticSite.Rendering
import StaticSite.Relink
import StaticSite.Style.Sheet

/-!
# Building a page

A page is built in two stages. The first finds the assets, gives the components their final
addresses and writes the style sheet; the second renders the components, writes the document around
them and the manifest. A fault ends the build and leaves the files that were finished before it.
-/

namespace StaticSite.Build

/-- What stays the same for all pages of a build. -/
structure Setting where
  heap : Heap
  catalog : Catalog
  registry : Registry
  tree : Tree
  assetRoot : Option Path
  now : DateTime
  options : Options

/-- The page and the entries of its list of components. -/
structure Draft where
  page : Page
  entries : List Entry

/-- What the first stage leaves for the second. -/
structure Styled where
  heap : Heap
  entries : List Entry
  assets : List Asset
  rawSheet : String
  sheet : String

namespace Setting

def found (setting : Setting) (draft : Draft) : List Asset :=
  Asset.extract setting.heap (some setting.catalog) draft.entries

/-- The assets with what their files tell; without an asset root no file is looked for. -/
def load (setting : Setting) (assets : List Asset) : Except Fault Asset.Loaded :=
  match setting.assetRoot with
  | some root => Asset.loadLocal setting.tree root setting.options.assets.timeout assets
  | none => .ok ⟨assets, []⟩

def notices (setting : Setting) (assets : List Asset) : Asset.Notices :=
  match setting.assetRoot with
  | some root => Asset.notices setting.tree root setting.options.assets.timeout assets
  | none => ⟨[], []⟩

/-- Only production builds optimise assets. -/
def optimize (setting : Setting) (loaded : Asset.Loaded) : Except Fault (List Asset) :=
  if setting.options.optimizeAssets && setting.options.isProduction then do
    let assets ← Asset.optimize setting.options.assets loaded.assets
    return Asset.embed loaded.payloads assets
  else .ok loaded.assets

/-- A text, reduced if the build reduces its files. -/
def reduced (setting : Setting) (minify : String → String) (text : String) : String :=
  if setting.options.shouldMinify then minify text else text

/-- The first stage. -/
def style (setting : Setting) (draft : Draft) : Except Fault Styled := do
  let options := setting.options
  let loaded ← setting.load (setting.found draft)
  let assets ← setting.optimize loaded
  let (heap, entries) ← Relink.relink setting.heap (some setting.catalog) assets draft.entries
  let rawSheet ← Style.pageSheet heap
    { annotate := options.sourceMaps && !options.shouldMinify } entries
  return { heap, entries, assets, rawSheet, sheet := setting.reduced Style.minify rawSheet }

def sheetFile (setting : Setting) (page : Page) (styled : Styled) : File :=
  { path := page.pathSegment ++ "/" ++ Page.stylesheetName, type := "css", content := styled.sheet
    minified := some setting.options.shouldMinify }

/-- The rules that the document itself carries. -/
def criticalSheet (setting : Setting) (styled : Styled) : String :=
  if setting.options.inlineCriticalCss then Style.critical styled.sheet else ""

/-- Renders the components; what the pass has done is known also when it fails. -/
def render (setting : Setting) (page : Page) (styled : Styled) :
    Except Fault String × Rendering.State :=
  let minify := setting.options.shouldMinify
  match Rendering.Scene.ofEntries styled.heap styled.entries setting.registry
      { minify, annotate := !minify } with
  | .error fault => (.error fault, {})
  | .ok scene => Rendering.renderIds scene page.roots {}

/-- The document before it is reduced. -/
def document (setting : Setting) (page : Page) (styled : Styled) (body : String) :
    Except Fault String :=
  let options := setting.options
  let styles := Page.styleTags (setting.criticalSheet styled) options.inlineCriticalCss
    Page.stylesheetName
  page.document setting.heap body styles
    { baseUrl := options.baseUrl, headContent := options.headContent
      bodyScripts := options.bodyScripts }

def manifest (setting : Setting) (assets : List Asset) : Except Fault Manifest :=
  match setting.now.stamp? with
  | some stamp => Manifest.ofAssets assets setting.options.manifestVersion stamp
  | none => .error .dateOutOfRange

/-- The counts and sizes of a page; the raw size is that before texts were reduced. -/
def stats (rendered assets : Nat) (files : List File) (rawSize : Nat) : Except Fault Stats := do
  let totalSize : Nat := (files.map File.size).foldr (· + ·) 0
  let savingsPercent ← percentSaved rawSize totalSize
  return { pages := 1, components := rendered, assets, totalSize, rawSize, savingsPercent }

/-- The files that are finished while a step is taken go with the fault that it ends with. -/
def leaving {α : Type} (files : List File) (step : Except Fault α) :
    Except (Fault × List File) α :=
  step.mapError fun fault => (fault, files)

def documentFile (setting : Setting) (page : Page) (rawDocument : String) : File :=
  { path := page.pathSegment ++ "/index.html", type := "html"
    content := setting.reduced Markup.minify rawDocument
    minified := some setting.options.shouldMinify }

def manifestFile (page : Page) (manifest : Manifest) : File :=
  { path := page.pathSegment ++ "/asset-manifest.json", type := "json"
    content := manifest.toJson.indented }

/-- The second stage, from the rendered body on. -/
def finish (setting : Setting) (page : Page) (styled : Styled) (body : String) (rendered : Nat) :
    Except (Fault × List File) Result := do
  let sheetFile := setting.sheetFile page styled
  let rawDocument ← leaving [sheetFile] (setting.document page styled body)
  let documentFile := setting.documentFile page rawDocument
  let manifest ← leaving [sheetFile, documentFile] (setting.manifest styled.assets)
  let manifestFile := manifestFile page manifest
  let files := [sheetFile, documentFile, manifestFile]
  let rawSize :=
    Utf8.size styled.rawSheet + Utf8.size rawDocument + Utf8.size manifestFile.content
  let stats ← leaving files (stats rendered styled.assets.length files rawSize)
  return { files, stats, manifest := some manifest }

end Setting

/-- A failed page: it keeps the finished files, and counts nothing. -/
def Result.failed (fault : Fault) (files : List File) : Result :=
  { failure := some fault.report, files }

def failureEvent (page : Page) (fault : Fault) : Log.Event := .pageFailed page.id fault.message

def builtEvent (page : Page) (stats : Stats) : Log.Event :=
  .builtPage page.id stats.components.toNat stats.assets.toNat

/-- Builds a page and tells what there is to report. -/
def buildPage (setting : Setting) (draft : Draft) : Result × List Log.Event :=
  let page := draft.page
  let assets := setting.found draft
  let notices := setting.notices assets
  let opening := .extracted assets.length :: notices.atOnce
  match setting.load assets with
  | .error fault =>
    (.failed fault [], opening ++ [failureEvent page fault] ++ notices.later)
  | .ok _ =>
    let opening := opening ++ notices.later
    match setting.style draft with
    | .error fault => (.failed fault [], opening ++ [failureEvent page fault])
    | .ok styled =>
      let (body, state) := setting.render page styled
      let opening := opening ++ state.events
      match (Setting.leaving [setting.sheetFile page styled] body).bind fun body =>
          setting.finish page styled body state.rendered with
      | .error (fault, files) => (.failed fault files, opening ++ [failureEvent page fault])
      | .ok result => (result, opening ++ [builtEvent page result.stats])

end StaticSite.Build
