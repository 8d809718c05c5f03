import StaticSite.Build.Page
import StaticSite.Page.Sitemap

/-!
# Building a site

The pages are built in their order, up to the first that fails. After all of them come the files for
crawlers.
-/

namespace StaticSite.Build

/-- The pages that were built, and the failure that ended the build. -/
structure Progress where
  built : List (Page × Result) := []
  failure : Option String := none
  events : List Log.Event := []

/-- Builds pages one after the other until one fails. -/
def buildPages (setting : Setting) : List Draft → Progress
  | [] => {}
  | draft :: drafts =>
    match buildPage setting draft with
    | ({ failure := some cause, .. }, events) =>
      { failure := some ("Failed to build page " ++ draft.page.id ++ ": " ++ cause), events }
    | (result, events) =>
      let rest := buildPages setting drafts
      { rest with built := (draft.page, result) :: rest.built, events := events ++ rest.events }

/-- The map of the built pages; without pages it needs no base. -/
def sitemapFile (setting : Setting) (pages : List Page) : Except Fault File := do
  let base ← if pages.isEmpty then pure "" else baseText setting.heap setting.options.baseUrl
  return { path := "sitemap.xml", type := "other", content := Page.sitemap pages base setting.now }

def robotsFile (setting : Setting) : Except Fault File := do
  let base ← baseText setting.heap setting.options.baseUrl
  return { path := "robots.txt", type := "other", content := Page.robots base }

/-- The files up to the first that cannot be written, and the fault that stands for it. -/
def filesUntilFault : List (Except Fault File) → List File × Option Fault
  | [] => ([], none)
  | .error fault :: _ => ([], some fault)
  | .ok file :: rest => (file :: (filesUntilFault rest).1, (filesUntilFault rest).2)

/-- The files that a build adds for crawlers. -/
def crawlerFiles (setting : Setting) (pages : List Page) : List File × Option Fault :=
  filesUntilFault <|
    (if setting.options.generateSitemap then [sitemapFile setting pages] else []) ++
      (if setting.options.generateRobots then [robotsFile setting] else [])

/-- Builds a site and tells what there is to report. -/
def buildSite (setting : Setting) (drafts : List Draft) :
    Except Fault (Result × List Log.Event) := do
  let progress := buildPages setting drafts
  let pageFiles := progress.built.flatMap (·.2.files)
  let stats ← Stats.merge (progress.built.map (·.2.stats))
  match progress.failure with
  | some cause =>
    return ({ failure := some cause, files := pageFiles, stats }, progress.events)
  | none =>
    let (added, fault) := crawlerFiles setting (progress.built.map (·.1))
    let files := pageFiles ++ added
    match fault with
    | some fault =>
      return ({ failure := some fault.report, files, stats },
        progress.events ++ [.siteAborted fault.message])
    | none =>
      return ({ files, stats }, progress.events ++ [.builtSite progress.built.length files.length])

end StaticSite.Build
