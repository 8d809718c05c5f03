import StaticSite.Proofs.Confinement
import StaticSite.Proofs.PageFiles

/-!
# Where a run writes

A page names the directory of its files, and no one asks whether that is in the output directory. A
run that succeeds stays in the output directory exactly when all of its pages' directories are
there and are reached without making a directory outside.
-/

namespace StaticSite.Command

open Build (crawlerPaths)
open Output (Kept IsContained IsFiled)
open Work (IsWritten)

/-- The pages of the site that settings name; there are none when it cannot be read. -/
def pagesOf (tree : Tree) (settings : Settings) : List Page :=
  match loadSite tree (Path.ofText settings.site) with
  | .ok (site, _) => site.pages.map (·.page)
  | .error _ => []

namespace Settings

variable (settings : Settings)

def outputPath : Path := Path.ofText settings.output

/-- The path of a built file. -/
def builtPath (path : String) : Path := settings.outputPath.join (Path.ofText path)

/-- The directory of a page's files is contained in the output directory. -/
def HasContained (tree : Tree) (page : Page) : Prop :=
  IsContained settings.outputPath tree (settings.outputPath.join page.directory)

end Settings

/-- The built files lie beneath the output directory, and what lies outside has been kept. -/
structure IsConfined (settings : Settings) (before after : Tree) : Prop where
  beneath : ∀ page ∈ pagesOf before settings, ∀ path ∈ page.filePaths,
    Tree.isBeneath (before.spelled settings.outputPath)
      (before.spelled (settings.builtPath path)) = true
  kept : Kept settings.outputPath before after

section

variable {settings : Settings} {tree : Tree} {now : DateTime}

theorem builtPath_page (settings : Settings) {page : Page} {path : String}
    (member : path ∈ page.filePaths) :
    ∃ name, name ≠ ".." ∧
      settings.builtPath path = (settings.outputPath.join page.directory).child name := by
  obtain ⟨name, inNames, rfl⟩ := List.mem_map.mp member
  refine ⟨name, (Page.fileNames_spelled name inNames).2.2, ?_⟩
  rw [Settings.builtPath, Page.ofText_filePath page inNames, Path.join_child]

theorem builtPath_crawler (settings : Settings) {path : String} (member : path ∈ crawlerPaths) :
    path ≠ ".." ∧ settings.builtPath path = settings.outputPath.child path := by
  have plain : ∀ path ∈ crawlerPaths, path ≠ ".." ∧ Path.ofText path = ⟨0, [path]⟩ := by
    decide +kernel
  obtain ⟨forward, spelled⟩ := plain path member
  exact ⟨forward, by rw [Settings.builtPath, spelled]; rfl⟩

theorem isFiled_built {files : List Build.File} {pages : List Page} {added : List String}
    (contained : ∀ page ∈ pages, settings.HasContained tree page)
    (crawlers : ∀ path ∈ added, path ∈ crawlerPaths)
    (paths : files.map (·.path) = pages.flatMap Page.filePaths ++ added) :
    ∀ file ∈ files, IsFiled settings.outputPath tree file.path := by
  intro file member
  have listed : file.path ∈ files.map (·.path) := List.mem_map_of_mem member
  rw [paths, List.mem_append, List.mem_flatMap] at listed
  rcases listed with ⟨page, inPages, ofPage⟩ | ofCrawlers
  · obtain ⟨name, forward, spelled⟩ := builtPath_page settings ofPage
    exact ⟨_, name, forward, spelled, contained page inPages⟩
  · obtain ⟨forward, spelled⟩ := builtPath_crawler settings
      (crawlers file.path ofCrawlers)
    exact ⟨_, file.path, forward, spelled, Output.isContained_self⟩

/-- A run with settings changes nothing, or else it writes the files of the pages and crawlers. -/
theorem runWith_cases (tree : Tree) (now : DateTime) (settings : Settings) :
    ((runWith tree now settings).tree = tree ∧
        (pagesOf tree settings ≠ [] → (runWith tree now settings).ending ≠ .exit 0)) ∨
      ∃ result said added, runWith tree now settings = finishRun tree settings result said ∧
        (∀ path ∈ added, path ∈ crawlerPaths) ∧
        result.files.map (·.path) = (pagesOf tree settings).flatMap Page.filePaths ++ added := by
  unfold runWith pagesOf
  cases loadSite tree (Path.ofText settings.site) with
  | error stop => exact .inl ⟨rfl, fun pages => absurd rfl pages⟩
  | ok loaded =>
    obtain ⟨site, heap⟩ := loaded
    dsimp only
    cases (prepare tree settings).2 with
    | error fault => exact .inl ⟨rfl, fun _ ended => nomatch ended⟩
    | ok order =>
      dsimp only
      unfold buildAndWrite
      dsimp only
      split
      · exact .inl ⟨rfl, fun _ ended => nomatch ended⟩
      next result events built =>
        cases failure : result.failure with
        | some cause => exact .inl ⟨rfl, fun _ ended => nomatch ended⟩
        | none =>
          obtain ⟨added, crawlers, paths⟩ := Build.buildSite_paths built failure
          refine .inr ⟨result, _, added, rfl, crawlers, ?_⟩
          rw [paths, List.flatMap_map, List.flatMap_map]

theorem finishRun_kept {result : Build.Result} {said : List Speech} (plain : tree.Plain)
    (filed : ∀ file ∈ result.files, IsFiled settings.outputPath tree file.path) :
    Kept settings.outputPath tree (finishRun tree settings result said).tree := by
  have kept := keeps_writeOutput plain filed tree (Kept.refl plain)
  unfold finishRun
  split
  next ended => rw [ended] at kept; exact kept
  next ended => rw [ended] at kept; exact kept.1
  next ended => rw [ended] at kept; exact kept.1

theorem writeOutput_of_exit {result : Build.Result} {said : List Speech}
    (ended : (finishRun tree settings result said).ending = .exit 0) :
    (writeOutput settings result.files).run tree =
      .ok none (finishRun tree settings result said).tree := by
  unfold finishRun at ended ⊢
  split at ended
  · cases ended
  · cases ended
  next after written =>
    rw [written]

theorem finishRun_written {result : Build.Result} {said : List Speech} {file : Build.File}
    (ended : (finishRun tree settings result said).ending = .exit 0)
    (member : file ∈ result.files) :
    IsWritten (settings.builtPath file.path) (finishRun tree settings result said).tree :=
  leaves_writeOutput member tree none _ (writeOutput_of_exit ended) rfl

/--
A run of which all pages' directories are contained is confined, however it ends. A run that
succeeds writes the files of every page where their paths lead, and is confined only then.
-/
theorem run_isConfined_iff (plain : tree.Plain) (now : DateTime) (arguments : List String) :
    match readSettings tree arguments with
    | .error _ => (run tree now arguments).tree = tree
    | .ok settings =>
      let report := run tree now arguments
      let pages := pagesOf tree settings
      ((∀ page ∈ pages, settings.HasContained tree page) →
          IsConfined settings tree report.tree) ∧
        (report.ending = .exit 0 →
          (∀ page ∈ pages, ∀ path ∈ page.filePaths,
            IsWritten (settings.builtPath path) report.tree) ∧
          (IsConfined settings tree report.tree ↔
            ∀ page ∈ pages, settings.HasContained tree page)) := by
  unfold run
  cases readSettings tree arguments with
  | error stop => rfl
  | ok settings =>
    dsimp only
    have beneath (contained : ∀ page ∈ pagesOf tree settings, settings.HasContained tree page) :
        ∀ page ∈ pagesOf tree settings, ∀ path ∈ page.filePaths,
          Tree.isBeneath (tree.spelled settings.outputPath)
            (tree.spelled (settings.builtPath path)) = true := by
      intro page inPages path ofPage
      obtain ⟨name, forward, spelled⟩ := builtPath_page settings ofPage
      rw [spelled, Output.spelled_child _ forward]
      exact (Tree.isBeneath_child_iff name).mpr (contained page inPages).within
    rcases runWith_cases tree now settings with
      ⟨same, ended⟩ | ⟨result, said, added, finished, crawlers, paths⟩
    · have confined (contained : ∀ page ∈ pagesOf tree settings, settings.HasContained tree page) :
          IsConfined settings tree (runWith tree now settings).tree :=
        ⟨beneath contained, by rw [same]; exact Kept.refl plain⟩
      refine ⟨confined, fun exit => ?_⟩
      have none : pagesOf tree settings = [] := by
        by_contra some
        exact ended some exit
      have contained : ∀ page ∈ pagesOf tree settings, settings.HasContained tree page := by
        simp [none]
      exact ⟨by simp [none], fun _ => contained, fun _ => confined contained⟩
    · rw [finished]
      have confined (contained : ∀ page ∈ pagesOf tree settings, settings.HasContained tree page) :
          IsConfined settings tree (finishRun tree settings result said).tree :=
        ⟨beneath contained, finishRun_kept plain (isFiled_built contained crawlers paths)⟩
      refine ⟨confined, fun exit => ?_⟩
      have written : ∀ page ∈ pagesOf tree settings, ∀ path ∈ page.filePaths,
          IsWritten (settings.builtPath path) (finishRun tree settings result said).tree := by
        intro page inPages path ofPage
        have listed : path ∈ result.files.map (·.path) := by
          rw [paths]
          exact List.mem_append_left _ (List.mem_flatMap.mpr ⟨page, inPages, ofPage⟩)
        obtain ⟨file, inFiles, rfl⟩ := List.mem_map.mp listed
        exact finishRun_written exit inFiles
      refine ⟨written, fun confined page inPages => ?_, confined⟩
      have first : page.pathSegment ++ "/" ++ "styles.css" ∈ page.filePaths :=
        List.mem_map_of_mem (List.mem_cons_self ..)
      obtain ⟨name, forward, spelled⟩ := builtPath_page settings first
      have ready := (written page inPages _ first).ready
      have inside := confined.beneath page inPages _ first
      rw [spelled, Output.parent_child] at ready
      rw [spelled, Output.spelled_child _ forward] at inside
      exact Output.isContained_of_kept confined.kept ready
        ((Tree.isBeneath_child_iff name).mp inside)

/-- A project with a site of one page. -/
def projectOf (slug : String) : Tree :=
  Tree.ofList ["project"]
    [(["project", "site.json"], .file (Utf8.encode
      ("\x7b\"pages\": [\x7b\"id\": \"p\", \"title\": \"P\", \"slug\": \"" ++ slug ++ "\"\x7d]\x7d"))),
     (["project", "index.html"], .file (Utf8.encode "mine"))]

theorem segments_projectOf :
    (pagesOf (projectOf "about") {}).map Page.pathSegment = ["about"] ∧
      (pagesOf (projectOf "..") {}).map Page.pathSegment = [".."] := by
  constructor <;> decide +kernel

def noon : DateTime := ⟨⟨2024, 1, 1⟩, ⟨12, 0, 0, 0⟩, none⟩

theorem run_about_isConfined :
    (projectOf "about").Plain ∧
      readSettings (projectOf "about") [] = .ok {} ∧
      IsConfined {} (projectOf "about") (run (projectOf "about") noon []).tree := by
  have plain : (projectOf "about").Plain := ⟨by decide +kernel, by decide +kernel⟩
  have settings : readSettings (projectOf "about") [] = .ok {} := by decide +kernel
  refine ⟨plain, settings, ?_⟩
  have confined := run_isConfined_iff plain noon []
  rw [settings] at confined
  refine confined.1 fun page member => ?_
  have about : page.pathSegment = "about" := by
    have listed := List.mem_map_of_mem (f := Page.pathSegment) member
    rw [segments_projectOf.1, List.mem_singleton] at listed
    exact listed
  unfold Settings.HasContained Page.directory
  rw [about]
  exact ⟨by decide +kernel, by unfold Output.IsClear; decide +kernel⟩

/-- The slug leads up to the project, so that the page takes the place of a file there. -/
theorem run_up_not_isConfined :
    readSettings (projectOf "..") [] = .ok {} ∧
      ¬ IsConfined {} (projectOf "..") (run (projectOf "..") noon []).tree := by
  refine ⟨by decide +kernel, fun confined => ?_⟩
  have pages : pagesOf (projectOf "..") {} ≠ [] := by
    intro none
    have segments := segments_projectOf.2
    rw [none] at segments
    cases segments
  obtain ⟨page, rest, listed⟩ := List.exists_cons_of_ne_nil pages
  have up : page.pathSegment = ".." := by
    have segments := segments_projectOf.2
    rw [listed] at segments
    exact (List.cons.inj segments).1
  have file : "../index.html" ∈ page.filePaths := by
    rw [Page.filePaths, up]
    decide +kernel
  have beneath := confined.beneath page (by simp [listed]) "../index.html" file
  exact absurd beneath (by decide +kernel)

end

end StaticSite.Command
