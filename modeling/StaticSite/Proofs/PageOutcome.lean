import StaticSite.Calendar
import StaticSite.Proofs.Optimization
import StaticSite.Proofs.OptimizedAsset
import StaticSite.Proofs.PageFiles
import StaticSite.Proofs.Savings
import StaticSite.Proofs.Shrinking

/-!
# How the build of a page ends

The stages up to the document can fail, each with what was finished before it. From the document on
nothing fails: the manifest and the counts only sum up sizes that have not grown. So a failed page
leaves its style sheet or nothing.
-/

namespace StaticSite

/-! ## The clock -/

namespace DateTime

/-- Whether a moment is told in universal time. -/
def IsUniversal (t : DateTime) : Prop := t.offset = some 0 ∧ t.time.isValid = true

/-- The clock that counts from 1970 tells universal time. -/
theorem isUniversal_ofEpoch (microseconds : Nat) : (ofEpoch microseconds).IsUniversal := by
  have hour : microseconds / 1000000 % 86400 / 3600 < 24 := by omega
  have minute : microseconds / 1000000 % 86400 / 60 % 60 < 60 := by omega
  have second : microseconds / 1000000 % 86400 % 60 < 60 := by omega
  have microsecond : microseconds % 1000000 < 1000000 := by omega
  refine ⟨rfl, ?_⟩
  simp only [ofEpoch, TimeOfDay.ofSeconds, TimeOfDay.isValid, Bool.and_eq_true]
  exact ⟨⟨⟨decide_eq_true hour, decide_eq_true minute⟩, decide_eq_true second⟩,
    decide_eq_true microsecond⟩

theorem IsUniversal.exists_stamp {t : DateTime} (isUniversal : t.IsUniversal) :
    ∃ stamp, t.stamp? = some stamp := by
  obtain ⟨offset, valid⟩ := isUniversal
  simp only [TimeOfDay.isValid, Bool.and_eq_true, decide_eq_true_eq] at valid
  have seconds : t.time.seconds < 86400 := by
    unfold TimeOfDay.seconds
    omega
  have early : ¬ (t.time.seconds : Int) - 0 < 0 := by omega
  have late : ¬ (86400 : Int) ≤ (t.time.seconds : Int) - 0 := by omega
  simp only [stamp?, toUniversal?, offset, Option.getD_some, if_neg early, if_neg late,
    Option.map_some]
  exact ⟨_, rfl⟩

end DateTime

/-! ## Sizes of assets -/

namespace Asset

/-- Optimising gives no asset another size. -/
theorem optimizedSize_of_optimizeOne {options : AssetOptions} {asset other : Asset}
    (optimized : optimizeOne options asset = .ok other) :
    other.optimizedSize = asset.optimizedSize := by
  obtain ⟨width, height, inlined, alternateFormats, rfl⟩ := frame_of_optimizeOne optimized
  rfl

theorem optimizedSize_embedOne (payloads : Payloads) (asset : Asset) :
    (embedOne payloads asset).optimizedSize = asset.optimizedSize := by
  unfold embedOne
  split <;> rfl

theorem optimizedSize_measured (asset : Asset) (found : Local) :
    (asset.measured found).optimizedSize = asset.optimizedSize := by
  cases found <;> rfl

end Asset

/-- Of assets that have only the sizes they were found with a manifest can be made. -/
theorem Manifest.exists_ofAssets {assets : List Asset}
    (unoptimized : ∀ asset ∈ assets, asset.optimizedSize = none) (version generatedAt : String) :
    ∃ manifest, ofAssets assets version generatedAt = .ok manifest := by
  have same : assets.map sizeAfter = assets.map sizeBefore :=
    List.map_congr_left fun asset member => by rw [sizeAfter, unoptimized asset member]; rfl
  have saved (size : Int) : ∃ percent, percentSaved size size = .ok percent := by
    by_cases nothing : size ≤ 0
    · exact ⟨0, by rw [percentSaved, if_pos nothing]⟩
    · obtain ⟨percent, isPercent, -⟩ := exists_percentSaved (by omega) (Int.le_refl size)
      exact ⟨percent, isPercent⟩
  unfold ofAssets
  obtain ⟨percent, isPercent⟩ := saved ((assets.map sizeBefore).foldr (· + ·) 0)
  simp only [same, isPercent]
  exact ⟨_, rfl⟩

/-- Every fault is told with some text. -/
theorem Fault.report_ne_empty (fault : Fault) : fault.report ≠ "" := by
  unfold report
  split
  · decide
  next spoken => exact spoken

namespace Build

/-- Sizes that have not grown. -/
structure Stats.IsSound (stats : Stats) : Prop where
  nonneg : 0 ≤ stats.totalSize
  reduced : stats.totalSize ≤ stats.rawSize

namespace Setting

section

variable {setting : Setting} {draft : Draft} {styled : Styled}

/-- The assets of a page have only the sizes with which their files were found. -/
theorem optimizedSize_of_style (done : setting.style draft = .ok styled) :
    ∀ asset ∈ styled.assets, asset.optimizedSize = none := by
  obtain ⟨loaded, isLoaded, optimized, -⟩ := style_ok done
  have found : ∀ asset ∈ setting.found draft, asset.optimizedSize = none := by
    intro asset member
    obtain ⟨use, -, users, rfl⟩ := (Asset.tabulates_extract ..).exists_first member
    rfl
  have measured : ∀ asset ∈ loaded.assets, asset.optimizedSize = none := by
    unfold load at isLoaded
    split at isLoaded
    · obtain ⟨pairs, looked, done⟩ := exists_of_bind_eq_ok isLoaded
      cases done
      intro asset member
      obtain ⟨⟨first, file⟩, isPair, rfl⟩ := List.mem_map.mp member
      obtain ⟨original, inFound, paired⟩ := exists_of_mem_mapM looked isPair
      obtain ⟨file', -, paired⟩ := exists_of_bind_eq_ok paired
      cases paired
      rw [Asset.optimizedSize_measured]
      exact found _ inFound
    · cases isLoaded
      exact found
  unfold optimize at optimized
  split at optimized
  · obtain ⟨others, each, embedded⟩ := exists_of_bind_eq_ok optimized
    rw [← Except.ok.inj embedded]
    intro asset member
    obtain ⟨other, isOther, rfl⟩ := List.mem_map.mp member
    obtain ⟨original, inLoaded, one⟩ := exists_of_mem_mapM each isOther
    rw [Asset.optimizedSize_embedOne, Asset.optimizedSize_of_optimizeOne one]
    exact measured _ inLoaded
  · rw [← Except.ok.inj optimized]
    exact measured

theorem exists_manifest (clock : setting.now.IsUniversal)
    (done : setting.style draft = .ok styled) :
    ∃ manifest, setting.manifest styled.assets = .ok manifest := by
  obtain ⟨stamp, isStamp⟩ := clock.exists_stamp
  rw [manifest, isStamp]
  exact Manifest.exists_ofAssets (optimizedSize_of_style done) _ stamp

theorem size_reduced_le {minify : String → String}
    (smaller : ∀ text, Utf8.size (minify text) ≤ Utf8.size text) (text : String) :
    Utf8.size (setting.reduced minify text) ≤ Utf8.size text := by
  unfold reduced
  split
  · exact smaller text
  · exact Nat.le_refl _

theorem exists_stats {files : List File} {rawSize : Nat}
    (smaller : (files.map File.size).foldr (· + ·) 0 ≤ rawSize) (rendered assets : Nat) :
    ∃ sums, stats rendered assets files rawSize = .ok sums ∧ sums.IsSound := by
  obtain ⟨percent, isPercent, -⟩ :=
    exists_percentSaved (Int.natCast_nonneg _) (Int.ofNat_le.mpr smaller)
  unfold stats
  simp only [isPercent]
  exact ⟨_, rfl, Int.natCast_nonneg _, Int.ofNat_le.mpr smaller⟩

/-- No file of a page is larger than the text that it was reduced from. -/
theorem size_files_le (done : setting.style draft = .ok styled) (page : Page) (document : String)
    (manifest : Manifest) :
    ([setting.sheetFile page styled, setting.documentFile page document,
        manifestFile page manifest].map File.size).foldr (· + ·) 0 ≤
      Utf8.size styled.rawSheet + Utf8.size document +
        Utf8.size (manifestFile page manifest).content := by
  obtain ⟨-, -, -, -, -, isSheet⟩ := style_ok done
  have sheet : (setting.sheetFile page styled).size ≤ Utf8.size styled.rawSheet := by
    rw [File.size, sheetFile, isSheet]
    exact size_reduced_le Style.size_minify_le _
  have whole : (setting.documentFile page document).size ≤ Utf8.size document :=
    size_reduced_le Markup.size_minify_le document
  have same : (manifestFile page manifest).size = Utf8.size (manifestFile page manifest).content :=
    rfl
  simp only [List.map_cons, List.map_nil, List.foldr_cons, List.foldr_nil]
  omega

/-- Once the document has been written, the page is built. -/
theorem exists_finish (clock : setting.now.IsUniversal) (done : setting.style draft = .ok styled)
    {page : Page} {body document : String}
    (written : setting.document page styled body = .ok document) (rendered : Nat) :
    ∃ manifest stats, setting.finish page styled body rendered = .ok
        { files := [setting.sheetFile page styled, setting.documentFile page document,
            manifestFile page manifest]
          stats, manifest := some manifest } ∧ stats.IsSound := by
  obtain ⟨manifest, isManifest⟩ := exists_manifest clock done
  have smaller := size_files_le done page document manifest
  obtain ⟨sums, isStats, sound⟩ := exists_stats smaller rendered styled.assets.length
  refine ⟨manifest, sums, ?_, sound⟩
  simp only [finish, written, isManifest, isStats, leaving, Except.mapError, bind, Except.bind]
  rfl

end

end Setting

section

variable {setting : Setting} {draft : Draft}

/-- How the build of a page ends: with the files that were finished before a fault, or with all. -/
inductive Ends (setting : Setting) (draft : Draft) : Result → Prop where
  | unstyled {fault : Fault} (failed : setting.style draft = .error fault) :
      Ends setting draft (.failed fault [])
  | unrendered {styled : Styled} {fault : Fault} (done : setting.style draft = .ok styled)
      (failed : (setting.render draft.page styled).1 = .error fault) :
      Ends setting draft (.failed fault [setting.sheetFile draft.page styled])
  | unwritten {styled : Styled} {body : String} {fault : Fault}
      (done : setting.style draft = .ok styled)
      (rendered : (setting.render draft.page styled).1 = .ok body)
      (failed : setting.document draft.page styled body = .error fault) :
      Ends setting draft (.failed fault [setting.sheetFile draft.page styled])
  | built {styled : Styled} {body document : String} {manifest : Manifest} {stats : Stats}
      (done : setting.style draft = .ok styled)
      (rendered : (setting.render draft.page styled).1 = .ok body)
      (written : setting.document draft.page styled body = .ok document) (sound : stats.IsSound) :
      Ends setting draft
        { files := [setting.sheetFile draft.page styled, setting.documentFile draft.page document,
            Setting.manifestFile draft.page manifest]
          stats, manifest := some manifest }

theorem buildPage_ends (clock : setting.now.IsUniversal) (draft : Draft) :
    Ends setting draft (buildPage setting draft).1 := by
  unfold buildPage
  dsimp only
  split
  next fault failed =>
    refine .unstyled ?_
    rw [Setting.style, failed]
    rfl
  · split
    next fault failed => exact .unstyled failed
    next styled done =>
      rcases rendered : setting.render draft.page styled with ⟨fault | body, state⟩
      · exact .unrendered done (congrArg Prod.fst rendered)
      · have isBody : (setting.render draft.page styled).1 = .ok body := congrArg Prod.fst rendered
        cases written : setting.document draft.page styled body with
        | error fault =>
          have failed : setting.finish draft.page styled body state.rendered =
              .error (fault, [setting.sheetFile draft.page styled]) := by
            rw [Setting.finish, written]
            rfl
          simp only [Setting.leaving, Except.mapError, Except.bind, failed]
          exact .unwritten done isBody written
        | ok document =>
          obtain ⟨manifest, stats, finished, sound⟩ :=
            Setting.exists_finish clock done written state.rendered
          simp only [Setting.leaving, Except.mapError, Except.bind, finished]
          exact .built done isBody written sound

/-- A build without components, its clock at the start of 1970. -/
def bareSetting : Setting :=
  { heap := {}, catalog := {}, registry := [], tree := ⟨[], []⟩, assetRoot := none
    now := .ofEpoch 0, options := { mode := .development } }

/-- A page that names one component twice. -/
def echoDraft : Draft :=
  { page := { id := "echo", slug := none, title := none, roots := ["a", "a"] }, entries := [] }

end

end Build

end StaticSite
