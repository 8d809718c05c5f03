import StaticSite.Build.Site
import StaticSite.Proofs.Outcome
import StaticSite.Proofs.Splitting

/-!
# The paths of built files

A build that succeeds gives three files for every page, side by side in the directory that the
page's slug or id spells, and at most two files for crawlers.
-/

namespace StaticSite

/-! ## Spelling -/

namespace Path

theorem leadingSlashes_append (s : List Char) {t : List Char} (solid : t.head? ≠ some '/') :
    leadingSlashes (s ++ '/' :: t) = leadingSlashes (s ++ ['/']) := by
  have run : (s ++ '/' :: t).takeWhile (· = '/') = (s ++ ['/']).takeWhile (· = '/') := by
    induction s with
    | nil => cases t <;> simp_all
    | cons c s ih => simp only [List.cons_append, List.takeWhile_cons, ih]
  simp only [leadingSlashes, run]

/-- A name behind a slash is a name in the directory that is spelled in front of the slash. -/
theorem ofText_append_name (segment : String) {name : String} (whole : '/' ∉ name.toList)
    (isName : isName name.toList) :
    ofText (segment ++ "/" ++ name) = (ofText (segment ++ "/")).child name := by
  have solid : name.toList.head? ≠ some '/' := fun head => whole (List.mem_of_mem_head? head)
  have slash : ("/" : String).toList = ['/'] := rfl
  have empty : Path.isName [] = false := rfl
  simp only [ofText, child, String.toList_append, slash, List.append_assoc, List.singleton_append,
    leadingSlashes_append _ solid, Text.splitOnChar_append_cons,
    Text.splitOnChar_of_not_mem whole, List.filter_append, List.map_append, List.filter_cons,
    isName, Text.splitOnChar, empty, List.filter_nil]
  simp

theorem join_child (path other : Path) (name : String) :
    path.join (other.child name) = (path.join other).child name := by
  have absolute : (other.child name).isAbsolute = other.isAbsolute := rfl
  simp only [join, absolute]
  split
  · rfl
  · simp [child, List.append_assoc]

end Path

/-! ## Pages -/

namespace Page

/-- The directory of a page's files, as seen from the output directory. -/
def directory (page : Page) : Path := Path.ofText (page.pathSegment ++ "/")

def fileNames : List String := ["styles.css", "index.html", "asset-manifest.json"]

def filePaths (page : Page) : List String :=
  fileNames.map fun name => page.pathSegment ++ "/" ++ name

theorem fileNames_spelled :
    ∀ name ∈ fileNames, '/' ∉ name.toList ∧ Path.isName name.toList ∧ name ≠ ".." := by
  decide +kernel

theorem ofText_filePath (page : Page) {name : String} (member : name ∈ fileNames) :
    Path.ofText (page.pathSegment ++ "/" ++ name) = page.directory.child name :=
  have ⟨whole, isName, _⟩ := fileNames_spelled name member
  Path.ofText_append_name page.pathSegment whole isName

end Page

namespace Build

/-- What the first stage has done when it has not failed. -/
theorem Setting.style_ok {setting : Setting} {draft : Draft} {styled : Styled}
    (done : setting.style draft = .ok styled) :
    ∃ loaded, setting.load (setting.found draft) = .ok loaded ∧
      setting.optimize loaded = .ok styled.assets ∧
      Relink.relink setting.heap (some setting.catalog) styled.assets draft.entries =
        .ok (styled.heap, styled.entries) ∧
      Style.pageSheet styled.heap
        { annotate := setting.options.sourceMaps && !setting.options.shouldMinify }
        styled.entries = .ok styled.rawSheet ∧
      styled.sheet = setting.reduced Style.minify styled.rawSheet := by
  obtain ⟨loaded, isLoaded, done⟩ := exists_of_bind_eq_ok done
  obtain ⟨assets, optimized, done⟩ := exists_of_bind_eq_ok done
  obtain ⟨⟨heap, entries⟩, relinked, done⟩ := exists_of_bind_eq_ok done
  obtain ⟨rawSheet, isSheet, done⟩ := exists_of_bind_eq_ok done
  cases done
  exact ⟨loaded, isLoaded, optimized, relinked, isSheet, rfl⟩

section

variable {setting : Setting} {result : Result}

theorem leaving_eq_ok {α : Type} {files : List File} {step : Except Fault α} {value : α} :
    Setting.leaving files step = .ok value ↔ step = .ok value := by
  cases step <;> simp [Setting.leaving, Except.mapError]

theorem finish_ok {page : Page} {styled : Styled} {body : String} {rendered : Nat}
    (finished : setting.finish page styled body rendered = .ok result) :
    ∃ document manifest, setting.document page styled body = .ok document ∧
      result.files = [setting.sheetFile page styled,
        { path := page.pathSegment ++ "/index.html", type := "html"
          content := setting.reduced Markup.minify document
          minified := some setting.options.shouldMinify },
        { path := page.pathSegment ++ "/asset-manifest.json", type := "json"
          content := manifest }] := by
  obtain ⟨document, written, finished⟩ := exists_of_bind_eq_ok finished
  obtain ⟨manifest, -, finished⟩ := exists_of_bind_eq_ok finished
  obtain ⟨stats, -, finished⟩ := exists_of_bind_eq_ok finished
  cases finished
  exact ⟨document, _, leaving_eq_ok.mp written, rfl⟩

theorem finish_paths {page : Page} {styled : Styled} {body : String} {rendered : Nat}
    (finished : setting.finish page styled body rendered = .ok result) :
    result.files.map (·.path) = page.filePaths := by
  have joined (name : String) :
      page.pathSegment ++ "/" ++ name = page.pathSegment ++ ("/" ++ name) := String.append_assoc
  obtain ⟨document, manifest, -, files⟩ := finish_ok finished
  simp [files, Setting.sheetFile, Page.filePaths, Page.fileNames, Page.stylesheetName, joined]

/-- A page that is built has gone through both stages. -/
theorem buildPage_ok {draft : Draft} {events : List Log.Event}
    (built : buildPage setting draft = (result, events)) (succeeded : result.failure = none) :
    ∃ styled body state, setting.style draft = .ok styled ∧
      setting.render draft.page styled = (.ok body, state) ∧
      setting.finish draft.page styled body state.rendered = .ok result := by
  unfold buildPage at built
  dsimp only at built
  split at built
  · cases built
    cases succeeded
  · split at built
    · cases built
      cases succeeded
    next styled isStyled =>
      split at built
      · cases built
        cases succeeded
      next result' finished =>
        cases built
        cases rendered : setting.render draft.page styled with
        | mk body state =>
          rw [rendered] at finished
          obtain ⟨text, isText, finished⟩ := exists_of_bind_eq_ok finished
          cases leaving_eq_ok.mp isText
          exact ⟨styled, text, state, isStyled, rendered, finished⟩

theorem buildPage_paths {draft : Draft} {events : List Log.Event}
    (built : buildPage setting draft = (result, events)) (succeeded : result.failure = none) :
    result.files.map (·.path) = draft.page.filePaths := by
  obtain ⟨styled, body, state, -, -, finished⟩ := buildPage_ok built succeeded
  exact finish_paths finished

theorem buildPages_cons_failed {draft : Draft} {error : String}
    (failed : (buildPage setting draft).1.failure = some error) (drafts : List Draft) :
    buildPages setting (draft :: drafts) =
      { failure := some ("Failed to build page " ++ draft.page.id ++ ": " ++ error)
        events := (buildPage setting draft).2 } := by
  rw [buildPages]
  rcases built : buildPage setting draft with ⟨⟨failure, files, stats, manifest⟩, events⟩
  rw [built] at failed
  cases failed
  rfl

theorem buildPages_cons_succeeded {draft : Draft}
    (succeeded : (buildPage setting draft).1.failure = none) (drafts : List Draft) :
    buildPages setting (draft :: drafts) =
      { built := (draft.page, (buildPage setting draft).1) :: (buildPages setting drafts).built
        failure := (buildPages setting drafts).failure
        events := (buildPage setting draft).2 ++ (buildPages setting drafts).events } := by
  rw [buildPages]
  rcases built : buildPage setting draft with ⟨⟨failure, files, stats, manifest⟩, events⟩
  rw [built] at succeeded
  cases succeeded
  rfl

end

theorem buildPages_paths {setting : Setting} {drafts : List Draft}
    (succeeded : (buildPages setting drafts).failure = none) :
    ((buildPages setting drafts).built.flatMap (·.2.files)).map (·.path) =
      drafts.flatMap (·.page.filePaths) := by
  induction drafts with
  | nil => rfl
  | cons draft drafts ih =>
    cases ended : (buildPage setting draft).1.failure with
    | some error =>
      rw [buildPages_cons_failed ended] at succeeded
      cases succeeded
    | none =>
      rw [buildPages_cons_succeeded ended] at succeeded ⊢
      rw [List.flatMap_cons, List.map_append, buildPage_paths (Prod.eta _).symm ended,
        ih succeeded, List.flatMap_cons]

theorem filesUntilFault_none {files : List (Except Fault File)}
    (faultless : (filesUntilFault files).2 = none) :
    files = (filesUntilFault files).1.map .ok := by
  induction files with
  | nil => rfl
  | cons first files ih =>
    cases first with
    | error fault => cases faultless
    | ok file => exact congrArg (Except.ok file :: ·) (ih faultless)

theorem sitemapFile_path {setting : Setting} {pages : List Page} {file : File}
    (made : sitemapFile setting pages = .ok file) : file.path = "sitemap.xml" := by
  unfold sitemapFile at made
  split at made
  all_goals
    obtain ⟨base, _, made⟩ := exists_of_bind_eq_ok made
    cases made
    rfl

theorem robotsFile_path {setting : Setting} {file : File}
    (made : robotsFile setting = .ok file) : file.path = "robots.txt" := by
  obtain ⟨base, _, made⟩ := exists_of_bind_eq_ok made
  cases made
  rfl

def crawlerPaths : List String := ["sitemap.xml", "robots.txt"]

/-- The crawler files that a build is asked for. -/
def Options.crawlerNames (options : Options) : List String :=
  (if options.generateSitemap then ["sitemap.xml"] else []) ++
    (if options.generateRobots then ["robots.txt"] else [])

theorem crawlerNames_subset (options : Options) :
    ∀ name ∈ options.crawlerNames, name ∈ crawlerPaths := by
  intro name member
  simp only [Options.crawlerNames, List.mem_append, List.mem_ite_nil_right, List.mem_singleton]
    at member
  rcases member with ⟨_, rfl⟩ | ⟨_, rfl⟩ <;> simp [crawlerPaths]

theorem crawlerFiles_paths {setting : Setting} {pages : List Page}
    (faultless : (crawlerFiles setting pages).2 = none) :
    (crawlerFiles setting pages).1.map (·.path) = setting.options.crawlerNames := by
  have asked {wanted : Bool} {step : Except Fault File} {files : List File} {name : String}
      (made : files.map Except.ok = if wanted then [step] else [])
      (named : ∀ file, step = .ok file → file.path = name) :
      files.map (·.path) = if wanted then [name] else [] := by
    cases wanted with
    | false => rw [List.map_eq_nil_iff.mp made]; rfl
    | true =>
      obtain ⟨file, rfl, isFile⟩ := List.map_eq_singleton_iff.mp made
      exact congrArg ([·]) (named file isFile.symm)
  obtain ⟨first, second, files, isFirst, isSecond⟩ :=
    List.append_eq_map_iff.mp (filesUntilFault_none faultless)
  rw [crawlerFiles, files, List.map_append, Options.crawlerNames,
    asked isFirst fun _ => sitemapFile_path, asked isSecond fun _ => robotsFile_path]

/-- The files of a site that was built are those of its pages and those for crawlers. -/
theorem buildSite_files {setting : Setting} {drafts : List Draft} {result : Result}
    {events : List Log.Event} (built : buildSite setting drafts = .ok (result, events))
    (succeeded : result.failure = none) :
    result.files.map (·.path) =
      drafts.flatMap (·.page.filePaths) ++ setting.options.crawlerNames := by
  obtain ⟨stats, _, built⟩ := exists_of_bind_eq_ok built
  split at built
  · cases built
    cases succeeded
  next completed =>
    dsimp only at built
    split at built
    · cases built
      cases succeeded
    next faultless =>
      cases built
      rw [List.map_append, buildPages_paths completed, crawlerFiles_paths faultless]

theorem buildSite_paths {setting : Setting} {drafts : List Draft} {result : Result}
    {events : List Log.Event} (built : buildSite setting drafts = .ok (result, events))
    (succeeded : result.failure = none) :
    ∃ added, (∀ path ∈ added, path ∈ crawlerPaths) ∧
      result.files.map (·.path) = drafts.flatMap (·.page.filePaths) ++ added :=
  ⟨_, crawlerNames_subset setting.options, buildSite_files built succeeded⟩

end Build

end StaticSite
