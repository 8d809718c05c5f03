import StaticSite.Proofs.PageOutcome

/-!
# How the build of a site ends

A site is built page after page. The first page that fails ends the build: what was built before it
is kept, nothing of it is, and the pages after it are not looked at. After the last page come the
files for crawlers.
-/

namespace StaticSite.Build

/-! ## Counts of several pages -/

namespace Stats

theorem IsSound.plus {stats other : Stats} (sound : stats.IsSound) (otherSound : other.IsSound) :
    (stats.plus other).IsSound where
  nonneg := Int.add_nonneg sound.nonneg otherSound.nonneg
  reduced := Int.add_le_add sound.reduced otherSound.reduced

theorem IsSound.foldl_plus {all : List Stats} (each : ∀ stats ∈ all, stats.IsSound) {start : Stats}
    (sound : start.IsSound) : (all.foldl Stats.plus start).IsSound := by
  induction all generalizing start with
  | nil => exact sound
  | cons stats all ih =>
    have ⟨here, later⟩ := List.forall_mem_cons.mp each
    exact ih later (sound.plus here)

theorem isSound_nothing : ({} : Stats).IsSound := ⟨Int.le_refl 0, Int.le_refl 0⟩

/-- Sizes that have not grown have not grown in sum, so their savings can be computed. -/
theorem exists_merge {all : List Stats} (each : ∀ stats ∈ all, stats.IsSound) :
    ∃ stats, merge all = .ok stats := by
  have sound := IsSound.foldl_plus each isSound_nothing
  obtain ⟨percent, isPercent, -⟩ := exists_percentSaved sound.nonneg sound.reduced
  rw [merge, isPercent]
  exact ⟨_, rfl⟩

end Stats

section

variable {setting : Setting} {draft : Draft}

theorem isSound_buildPage (clock : setting.now.IsUniversal) (draft : Draft) :
    (buildPage setting draft).1.stats.IsSound := by
  have ends := buildPage_ends clock draft
  generalize (buildPage setting draft).1 = result at ends
  cases ends with
  | built done rendered written sound => exact sound
  | _ => exact Stats.isSound_nothing

theorem exists_merge_pages (clock : setting.now.IsUniversal) (drafts : List Draft) :
    ∃ stats, Stats.merge (drafts.map fun draft => (buildPage setting draft).1.stats) =
      .ok stats := by
  refine Stats.exists_merge fun stats member => ?_
  obtain ⟨draft, -, rfl⟩ := List.mem_map.mp member
  exact isSound_buildPage clock draft

/-- A page whose document can be written is built. -/
theorem failure_buildPage_of_written (clock : setting.now.IsUniversal) {styled : Styled}
    {body document : String} (done : setting.style draft = .ok styled)
    (rendered : (setting.render draft.page styled).1 = .ok body)
    (written : setting.document draft.page styled body = .ok document) :
    (buildPage setting draft).1.failure = none := by
  have ends := buildPage_ends clock draft
  generalize (buildPage setting draft).1 = result at ends
  cases ends with
  | unstyled failed => cases done.symm.trans failed
  | unrendered isStyled failed =>
    cases done.symm.trans isStyled
    cases rendered.symm.trans failed
  | unwritten isStyled isBody failed =>
    cases done.symm.trans isStyled
    cases rendered.symm.trans isBody
    cases written.symm.trans failed
  | built => rfl

/-! ## Page after page -/

/-- Pages that can be built are built, and the build goes on with those after them. -/
theorem buildPages_append {before : List Draft}
    (succeeded : ∀ draft ∈ before, (buildPage setting draft).1.failure = none)
    (drafts : List Draft) :
    buildPages setting (before ++ drafts) =
      { built := (before.map fun draft => (draft.page, (buildPage setting draft).1)) ++
          (buildPages setting drafts).built
        failure := (buildPages setting drafts).failure
        events := (before.flatMap fun draft => (buildPage setting draft).2) ++
          (buildPages setting drafts).events } := by
  induction before with
  | nil => rfl
  | cons draft before ih =>
    have ⟨here, later⟩ := List.forall_mem_cons.mp succeeded
    rw [List.cons_append, buildPages_cons_succeeded here, ih later, List.flatMap_cons,
      List.append_assoc]
    rfl

theorem buildPages_failed {before : List Draft} {error : String}
    (succeeded : ∀ draft ∈ before, (buildPage setting draft).1.failure = none)
    (failed : (buildPage setting draft).1.failure = some error) (after : List Draft) :
    buildPages setting (before ++ draft :: after) =
      { built := before.map fun draft => (draft.page, (buildPage setting draft).1)
        failure := some ("Failed to build page " ++ draft.page.id ++ ": " ++ error)
        events := (before ++ [draft]).flatMap fun draft => (buildPage setting draft).2 } := by
  rw [buildPages_append succeeded, buildPages_cons_failed failed, List.append_nil,
    List.flatMap_append, List.flatMap_singleton]

theorem buildPages_succeeded {drafts : List Draft}
    (succeeded : ∀ draft ∈ drafts, (buildPage setting draft).1.failure = none) :
    buildPages setting drafts =
      { built := drafts.map fun draft => (draft.page, (buildPage setting draft).1)
        events := drafts.flatMap fun draft => (buildPage setting draft).2 } := by
  have whole := buildPages_append succeeded []
  rwa [List.append_nil, buildPages, List.append_nil, List.append_nil] at whole

/-! ## Files for crawlers -/

theorem baseText_eq_ok {heap : Heap} {value : Value} {base : String} :
    baseText heap value = .ok base ↔ value = .str base := by
  constructor
  · intro isText
    cases value <;> cases isText
    rfl
  · rintro rfl
    rfl

/-- A page is only built below a base that is a text. -/
theorem exists_base_of_buildPage (succeeded : (buildPage setting draft).1.failure = none) :
    ∃ base, setting.options.baseUrl = .str base := by
  obtain ⟨styled, body, state, -, -, finished⟩ := buildPage_ok rfl succeeded
  obtain ⟨document, manifest, written, -⟩ := finish_ok finished
  obtain ⟨description, -, written⟩ := exists_of_bind_eq_ok written
  obtain ⟨base, isText, -⟩ := exists_of_bind_eq_ok written
  exact ⟨base, baseText_eq_ok.mp isText⟩

/-- Below a base that is a text the files for crawlers can be written. -/
theorem crawlerFiles_of_base {base : String} (isText : setting.options.baseUrl = .str base)
    (pages : List Page) :
    crawlerFiles setting pages =
      ((if setting.options.generateSitemap then
          [{ path := "sitemap.xml", type := "other"
             content := Page.sitemap pages base setting.now }]
        else []) ++
        (if setting.options.generateRobots then
          [{ path := "robots.txt", type := "other", content := Page.robots base }]
        else []), none) := by
  have map : sitemapFile setting pages =
      .ok { path := "sitemap.xml", type := "other"
            content := Page.sitemap pages base setting.now } := by
    rw [sitemapFile, isText]
    cases pages with
    | nil =>
      simp only [List.isEmpty_nil, if_true, Page.sitemap, List.flatMap_nil]
      rfl
    | cons page pages => rfl
  have rules : robotsFile setting =
      .ok { path := "robots.txt", type := "other", content := Page.robots base } := by
    rw [robotsFile, isText]
    rfl
  rw [crawlerFiles, map, rules]
  cases setting.options.generateSitemap <;> cases setting.options.generateRobots <;> rfl

/-! ## Sites -/

/-- A page without components. -/
def emptyDraft : Draft :=
  { page := { id := "empty", slug := none, title := none }, entries := [] }

end

end StaticSite.Build
