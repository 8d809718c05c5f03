import Mathlib.Data.List.TakeWhile
import StaticSite.Proofs.FailFast

/-!
# Counts and sizes of builds

A page counts what its files take up and what they would have taken up unreduced; a site counts what
its completed pages count. Reducing makes no file larger, so whatever is counted, the share that has
been saved lies between none and all.
-/

namespace StaticSite

/-- A share in percent. -/
def IsShare (percent : Int) : Prop := 0 ≤ percent ∧ percent ≤ 100

theorem isShare_zero : IsShare 0 := by
  unfold IsShare
  decide

/-- The saved share of sizes that have not grown lies between none and all. -/
theorem isShare_of_percentSaved {before after percent : Int} (nonneg : 0 ≤ after)
    (le : after ≤ before) (isPercent : percentSaved before after = .ok percent) :
    IsShare percent := by
  obtain ⟨share, isShare, bounds⟩ := exists_percentSaved nonneg le
  rw [isShare, Except.ok.injEq] at isPercent
  exact isPercent ▸ bounds

/-- The share of a manifest whose assets have only the sizes they were found with. -/
theorem Manifest.isShare_ofAssets {assets : List Asset} {version stamp : String}
    {manifest : Manifest} (unoptimized : ∀ asset ∈ assets, asset.optimizedSize = none)
    (made : ofAssets assets version stamp = .ok manifest) : IsShare manifest.savingsPercent := by
  have same : assets.map sizeAfter = assets.map sizeBefore :=
    List.map_congr_left fun asset member => by rw [sizeAfter, unoptimized asset member]; rfl
  obtain ⟨percent, isPercent, made⟩ := exists_of_bind_eq_ok made
  cases made
  rw [same] at isPercent
  dsimp only
  by_cases nothing : (assets.map sizeBefore).foldr (· + ·) 0 ≤ 0
  · rw [percentSaved, if_pos nothing, Except.ok.injEq] at isPercent
    exact isPercent ▸ isShare_zero
  · exact isShare_of_percentSaved (by omega) (Int.le_refl _) isPercent

namespace Build

/-! ## Pages -/

/-- What the files of a page take up, and what the texts took up that they were made from. -/
structure Result.HasSizes (setting : Setting) (result : Result) : Prop where
  total : result.stats.totalSize = ((result.files.map File.size).sum : Nat)
  raw : ∃ sheet document manifest,
    result.files.map (·.content) =
      [setting.reduced Style.minify sheet, setting.reduced Markup.minify document, manifest] ∧
    result.stats.rawSize = (Utf8.size sheet + Utf8.size document + Utf8.size manifest : Nat)
  reduced : result.stats.totalSize ≤ result.stats.rawSize
  unreduced : setting.options.shouldMinify = false →
    result.stats.totalSize = result.stats.rawSize

section

variable {setting : Setting} {draft : Draft} {result : Result}

theorem reduced_of_not_minify (unreduced : setting.options.shouldMinify = false)
    (minify : String → String) (text : String) : setting.reduced minify text = text := by
  rw [Setting.reduced, unreduced]
  rfl

/-- A page is built, or it fails and counts nothing. -/
theorem buildPage_cases (setting : Setting) (draft : Draft) :
    (∃ fault files, (buildPage setting draft).1 = .failed fault files) ∨
      ∃ styled body rendered, setting.style draft = .ok styled ∧
        setting.finish draft.page styled body rendered = .ok (buildPage setting draft).1 := by
  unfold buildPage
  dsimp only
  split
  · exact .inl ⟨_, _, rfl⟩
  · split
    · exact .inl ⟨_, _, rfl⟩
    next styled done =>
      split
      · exact .inl ⟨_, _, rfl⟩
      next result finished =>
        obtain ⟨body, -, finished⟩ := exists_of_bind_eq_ok finished
        exact .inr ⟨styled, body, _, done, finished⟩

/-- What is counted at the end of the second stage. -/
theorem finish_counts {page : Page} {styled : Styled} {body : String} {rendered : Nat}
    (finished : setting.finish page styled body rendered = .ok result) :
    ∃ document manifest, setting.manifest styled.assets = .ok manifest ∧
      result.manifest = some manifest ∧ result.failure = none ∧
      result.files = [setting.sheetFile page styled, setting.documentFile page document,
        Setting.manifestFile page manifest] ∧
      result.stats.pages = 1 ∧
      result.stats.totalSize = ((result.files.map File.size).sum : Nat) ∧
      result.stats.rawSize = (Utf8.size styled.rawSheet + Utf8.size document +
        Utf8.size (Setting.manifestFile page manifest).content : Nat) ∧
      percentSaved result.stats.rawSize result.stats.totalSize =
        .ok result.stats.savingsPercent := by
  obtain ⟨document, -, finished⟩ := exists_of_bind_eq_ok finished
  obtain ⟨manifest, isManifest, finished⟩ := exists_of_bind_eq_ok finished
  obtain ⟨stats, isStats, finished⟩ := exists_of_bind_eq_ok finished
  obtain ⟨percent, isPercent, counted⟩ := exists_of_bind_eq_ok (leaving_eq_ok.mp isStats)
  cases finished
  cases counted
  exact ⟨document, manifest, leaving_eq_ok.mp isManifest, rfl, rfl, rfl, rfl, rfl, rfl, isPercent⟩

theorem hasSizes_finish {styled : Styled} {body : String} {rendered : Nat}
    (done : setting.style draft = .ok styled)
    (finished : setting.finish draft.page styled body rendered = .ok result) :
    result.HasSizes setting := by
  obtain ⟨document, manifest, -, -, -, files, -, total, raw, -⟩ := finish_counts finished
  obtain ⟨-, -, -, -, -, isSheet⟩ := Setting.style_ok done
  have smaller := Setting.size_files_le done draft.page document manifest
  refine ⟨total, ⟨styled.rawSheet, document, _, ?_, raw⟩, ?_, fun unreduced => ?_⟩
  · rw [files, ← isSheet]
    rfl
  · rw [total, raw, files]
    exact Int.ofNat_le.mpr smaller
  · rw [total, raw, files]
    simp only [List.map_cons, List.map_nil, List.sum_cons, List.sum_nil, File.size,
      Setting.sheetFile, Setting.documentFile, isSheet, reduced_of_not_minify unreduced,
      Nat.add_zero, Nat.add_assoc]

theorem hasSizes_buildPage (succeeded : (buildPage setting draft).1.failure = none) :
    (buildPage setting draft).1.HasSizes setting := by
  rcases buildPage_cases setting draft with ⟨fault, files, failed⟩ | ⟨styled, body, _, done, ended⟩
  · rw [failed] at succeeded
    cases succeeded
  · exact hasSizes_finish done ended

theorem pages_buildPage (succeeded : (buildPage setting draft).1.failure = none) :
    (buildPage setting draft).1.stats.pages = 1 := by
  rcases buildPage_cases setting draft with ⟨fault, files, failed⟩ | ⟨_, _, _, -, ended⟩
  · rw [failed] at succeeded
    cases succeeded
  · obtain ⟨_, _, -, -, -, -, one, -⟩ := finish_counts ended
    exact one

/-- The clock does not matter: a page that fails for it counts nothing. -/
theorem isSound_stats_buildPage (setting : Setting) (draft : Draft) :
    (buildPage setting draft).1.stats.IsSound := by
  rcases buildPage_cases setting draft with ⟨fault, files, failed⟩ | ⟨styled, body, _, done, ended⟩
  · rw [failed]
    exact Stats.isSound_nothing
  · have sizes := hasSizes_finish done ended
    exact ⟨sizes.total ▸ Int.natCast_nonneg _, sizes.reduced⟩

theorem isShare_buildPage (setting : Setting) (draft : Draft) :
    IsShare (buildPage setting draft).1.stats.savingsPercent ∧
      ∀ manifest, (buildPage setting draft).1.manifest = some manifest →
        IsShare manifest.savingsPercent := by
  have sound := isSound_stats_buildPage setting draft
  rcases buildPage_cases setting draft with ⟨fault, files, failed⟩ | ⟨styled, body, _, done, ended⟩
  · rw [failed]
    exact ⟨isShare_zero, nofun⟩
  · obtain ⟨document, manifest, made, isManifest, -, -, -, -, -, percent⟩ := finish_counts ended
    refine ⟨isShare_of_percentSaved sound.nonneg sound.reduced percent, fun other isOther => ?_⟩
    rw [isManifest, Option.some.injEq] at isOther
    subst isOther
    unfold Setting.manifest at made
    split at made
    · exact Manifest.isShare_ofAssets (Setting.optimizedSize_of_style done) made
    · cases made

end

/-! ## Sites -/

namespace Stats

/-- A count that is added up is the sum of the counts. -/
theorem foldl_plus_eq_sum (count : Stats → Int)
    (adds : ∀ stats other : Stats, count (stats.plus other) = count stats + count other)
    (all : List Stats) (start : Stats) :
    count (all.foldl plus start) = count start + (all.map count).sum := by
  induction all generalizing start with
  | nil => simp
  | cons stats all ih => rw [List.foldl_cons, ih, adds, List.map_cons, List.sum_cons, Int.add_assoc]

/-- The counts of a site are those of its pages together; the share is that of the summed sizes. -/
structure AreSumsOf (stats : Stats) (results : List Result) : Prop where
  pages : stats.pages = results.length
  components : stats.components = (results.map (·.stats.components)).sum
  assets : stats.assets = (results.map (·.stats.assets)).sum
  totalSize : stats.totalSize = (results.map (·.stats.totalSize)).sum
  files : stats.totalSize = (((results.flatMap (·.files)).map File.size).sum : Nat)
  rawSize : stats.rawSize = (results.map (·.stats.rawSize)).sum
  savings : percentSaved stats.rawSize stats.totalSize = .ok stats.savingsPercent
  share : IsShare stats.savingsPercent

end Stats

/-- The results of the pages up to the first that fails. -/
def completed (setting : Setting) (drafts : List Draft) : List Result :=
  (drafts.map fun draft => (buildPage setting draft).1).takeWhile Result.succeeded

theorem buildPages_built (setting : Setting) (drafts : List Draft) :
    (buildPages setting drafts).built.map (·.2) = completed setting drafts := by
  induction drafts with
  | nil => rfl
  | cons draft drafts ih =>
    rw [completed, List.map_cons, List.takeWhile_cons, Result.succeeded]
    cases ended : (buildPage setting draft).1.failure with
    | some error =>
      rw [buildPages_cons_failed ended]
      rfl
    | none =>
      rw [buildPages_cons_succeeded ended]
      exact congrArg (_ :: ·) ih

theorem exists_of_mem_completed {setting : Setting} {drafts : List Draft} {result : Result}
    (member : result ∈ completed setting drafts) :
    ∃ draft, (buildPage setting draft).1 = result ∧ result.failure = none := by
  obtain ⟨draft, -, isResult⟩ := List.mem_map.mp ((List.takeWhile_prefix _).subset member)
  have succeeded : result.succeeded = true := List.mem_takeWhile_imp member
  exact ⟨draft, isResult, Option.isNone_iff_eq_none.mp succeeded⟩

theorem sum_sizes_flatMap (results : List Result) :
    (((results.flatMap (·.files)).map File.size).sum : Nat) =
      (results.map fun result => (((result.files.map File.size).sum : Nat) : Int)).sum := by
  induction results with
  | nil => rfl
  | cons result results ih =>
    rw [List.flatMap_cons, List.map_append, List.sum_append, Int.natCast_add, ih, List.map_cons,
      List.sum_cons]

theorem areSumsOf_merge (setting : Setting) {results : List Result} {stats : Stats}
    (counted : ∀ result ∈ results, result.stats.pages = 1)
    (sized : ∀ result ∈ results, result.HasSizes setting)
    (merged : Stats.merge (results.map (·.stats)) = .ok stats) : stats.AreSumsOf results := by
  obtain ⟨percent, isPercent, merged⟩ := exists_of_bind_eq_ok merged
  have sums (count : Stats → Int)
      (adds : ∀ stats other : Stats, count (stats.plus other) = count stats + count other)
      (none : count {} = 0) :
      count ((results.map (·.stats)).foldl Stats.plus {}) = (results.map (count ·.stats)).sum := by
    rw [Stats.foldl_plus_eq_sum count adds, none, Int.zero_add, List.map_map]
    rfl
  have sound : ((results.map (·.stats)).foldl Stats.plus {}).IsSound :=
    Stats.IsSound.foldl_plus (List.forall_mem_map.mpr fun result member =>
      ⟨(sized result member).total ▸ Int.natCast_nonneg _, (sized result member).reduced⟩)
      Stats.isSound_nothing
  have ones : results.map (·.stats.pages) = results.map fun _ => 1 := List.map_congr_left counted
  have sizes : results.map (·.stats.totalSize) =
      results.map fun result => (((result.files.map File.size).sum : Nat) : Int) :=
    List.map_congr_left fun result member => (sized result member).total
  have pages := sums Stats.pages (fun _ _ => rfl) rfl
  have total := sums Stats.totalSize (fun _ _ => rfl) rfl
  cases merged
  exact {
    pages := by
      rw [ones] at pages
      simpa using pages
    components := sums Stats.components (fun _ _ => rfl) rfl
    assets := sums Stats.assets (fun _ _ => rfl) rfl
    totalSize := total
    files := by
      rw [sum_sizes_flatMap, ← sizes]
      exact total
    rawSize := sums Stats.rawSize (fun _ _ => rfl) rfl
    savings := isPercent
    share := isShare_of_percentSaved sound.nonneg sound.reduced isPercent }

theorem mem_filesUntilFault {files : List (Except Fault File)} {file : File}
    (member : file ∈ (filesUntilFault files).1) : .ok file ∈ files := by
  induction files with
  | nil => cases member
  | cons first files ih =>
    cases first with
    | error fault => cases member
    | ok other =>
      rcases List.mem_cons.mp member with rfl | later
      · exact List.mem_cons_self
      · exact List.mem_cons_of_mem _ (ih later)

theorem path_crawlerFiles (setting : Setting) (pages : List Page) :
    ∀ file ∈ (crawlerFiles setting pages).1, file.path ∈ crawlerPaths := by
  intro file member
  have made := mem_filesUntilFault member
  simp only [List.mem_append, List.mem_ite_nil_right, List.mem_singleton] at made
  rcases made with ⟨-, isMap⟩ | ⟨-, isRobots⟩
  · rw [sitemapFile_path isMap.symm]
    decide
  · rw [robotsFile_path isRobots.symm]
    decide

/--
A page that is built counts the bytes of its files, and those of the texts before they were reduced:
no fewer, and as many where nothing is reduced. A site counts what the pages count that were
completed, and not the files for crawlers. All shares that are told lie between none and all.
-/
theorem buildSite_counts (setting : Setting) :
    (∀ draft,
      IsShare (buildPage setting draft).1.stats.savingsPercent ∧
      (∀ manifest, (buildPage setting draft).1.manifest = some manifest →
        IsShare manifest.savingsPercent) ∧
      ((buildPage setting draft).1.failure = none →
        (buildPage setting draft).1.HasSizes setting)) ∧
    ∀ drafts, ∃ result events, buildSite setting drafts = .ok (result, events) ∧
      result.stats.AreSumsOf (completed setting drafts) ∧
      ∃ crawlers, result.files = (completed setting drafts).flatMap (·.files) ++ crawlers ∧
        ∀ file ∈ crawlers, file.path ∈ crawlerPaths := by
  refine ⟨fun draft => ?_, fun drafts => ?_⟩
  · obtain ⟨share, manifests⟩ := isShare_buildPage setting draft
    exact ⟨share, manifests, hasSizes_buildPage⟩
  · have built := buildPages_built setting drafts
    have results : (buildPages setting drafts).built.map (·.2.stats) =
        (completed setting drafts).map (·.stats) := by
      rw [← built, List.map_map]
      rfl
    have files : (buildPages setting drafts).built.flatMap (·.2.files) =
        (completed setting drafts).flatMap (·.files) := by
      rw [← built, List.flatMap_map]
    obtain ⟨stats, merged⟩ : ∃ stats,
        Stats.merge ((completed setting drafts).map (·.stats)) = .ok stats := by
      refine Stats.exists_merge (List.forall_mem_map.mpr fun result member => ?_)
      obtain ⟨draft, rfl, -⟩ := exists_of_mem_completed member
      exact isSound_stats_buildPage setting draft
    have sums : stats.AreSumsOf (completed setting drafts) := by
      refine areSumsOf_merge setting (fun result member => ?_) (fun result member => ?_) merged
      · obtain ⟨draft, rfl, succeeded⟩ := exists_of_mem_completed member
        exact pages_buildPage succeeded
      · obtain ⟨draft, rfl, succeeded⟩ := exists_of_mem_completed member
        exact hasSizes_buildPage succeeded
    have crawlers := path_crawlerFiles setting ((buildPages setting drafts).built.map (·.1))
    simp only [buildSite, results, merged, files, bind, Except.bind]
    split
    · exact ⟨_, _, rfl, sums, [], (List.append_nil _).symm,
        fun _ member => absurd member List.not_mem_nil⟩
    · split
      · exact ⟨_, _, rfl, sums, _, rfl, crawlers⟩
      · exact ⟨_, _, rfl, sums, _, rfl, crawlers⟩

/-- The second page fails, so the site counts the first alone; in development nothing is reduced. -/
theorem buildSite_counts_echo :
    (buildPage bareSetting emptyDraft).1.failure = none ∧
      (buildPage bareSetting emptyDraft).1.stats.totalSize =
        (buildPage bareSetting emptyDraft).1.stats.rawSize ∧
      (buildPage bareSetting echoDraft).1.failure = some (Fault.cyclicContainment "a").report ∧
      ∃ result events, buildSite bareSetting [emptyDraft, echoDraft] = .ok (result, events) ∧
        result.stats.AreSumsOf [(buildPage bareSetting emptyDraft).1] := by
  have clock : bareSetting.now.IsUniversal := DateTime.isUniversal_ofEpoch 0
  have built : (buildPage bareSetting emptyDraft).1.failure = none :=
    failure_buildPage_of_written clock rfl rfl rfl
  have failed : (buildPage bareSetting echoDraft).1.failure =
      some (Fault.cyclicContainment "a").report := rfl
  obtain ⟨pages, sites⟩ := buildSite_counts bareSetting
  have sizes := (pages emptyDraft).2.2 built
  obtain ⟨result, events, ended, sums, -⟩ := sites [emptyDraft, echoDraft]
  have first : completed bareSetting [emptyDraft, echoDraft] =
      [(buildPage bareSetting emptyDraft).1] := by
    simp [completed, Result.succeeded, built, failed]
  exact ⟨built, sizes.unreduced rfl, failed, result, events, ended, first ▸ sums⟩

end Build

end StaticSite
