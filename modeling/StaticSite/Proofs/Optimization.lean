import StaticSite.Asset.Optimize
import StaticSite.Proofs.Deduplication
import StaticSite.Proofs.Outcome

/-!
# Optimising what has been extracted

An address that cannot be split has no extension, so only the kind declared for its field can make it
an image; then its alternate formats are asked for and the address is split once more. This is the
one way in which optimising extracted assets fails.
-/

namespace StaticSite

namespace Asset

/-! ## Single assets -/

section

variable {url : String} {error : Url.Error}

theorem extension_of_split_error {url : List Char} (fails : Url.split url = .error error) :
    Url.extension url = [] := by
  rw [Url.extension, fails]

/-- Of an address that cannot be split, only the declared kind tells anything. -/
theorem classify_image_iff_of_split_error (fails : Url.split url.toList = .error error)
    (kind : Option String) : (classify url kind).1 = "image" ↔ kind = some "image" := by
  have unknown : extensionTypes.lookup (String.ofList []) = none := by decide +kernel
  have other : ("other" : String) ≠ "image" := by decide
  unfold classify
  rw [extension_of_split_error fails]
  simp only [unknown, List.isEmpty_nil, if_true]
  cases kind with
  | none => simp
  | some kind =>
    simp only [Option.some.injEq]
    split
    · rfl
    next undeclared =>
      refine iff_of_false other fun isImage => undeclared ?_
      rw [isImage]
      decide

theorem alternates_ok {asset : Asset} {parts : Url.Parts}
    (splits : Url.split asset.optimizedUrl.toList = .ok parts) (options : AssetOptions) :
    ∃ alternateFormats, asset.alternates options = .ok alternateFormats := by
  rw [alternates, splits]
  cases ext : Url.splitExtension? parts.path with
  | none => exact ⟨_, by simp [bind, Except.bind, Except.mapError, ext]; rfl⟩
  | some found => exact ⟨_, by simp [bind, Except.bind, Except.mapError, ext]; rfl⟩

/-- An asset of unknown size and width can only be given alternate formats. -/
theorem optimizeOne_cases (options : AssetOptions) {asset : Asset} (noWidth : asset.width = none)
    (noSize : asset.size = none) :
    (∃ alternateFormats, optimizeOne options asset = .ok { asset with alternateFormats }) ∧
        (options.optimizeImages = true → asset.type = "image" →
          ∃ parts, Url.split asset.optimizedUrl.toList = .ok parts) ∨
      options.optimizeImages = true ∧ asset.type = "image" ∧ ∃ error,
        Url.split asset.optimizedUrl.toList = .error error ∧
          optimizeOne options asset = .error (.url error) := by
  have large : asset.isSmall options = false := by simp [isSmall, noSize]
  unfold optimizeOne
  by_cases isImage : asset.type = "image" ∧ options.optimizeImages = true
  · rw [if_pos isImage]
    have unlimited : asset.limitWidth options.maxImageWidth = .ok asset := by
      rw [limitWidth, noWidth]
    cases splits : Url.split asset.optimizedUrl.toList with
    | error error =>
      right
      refine ⟨isImage.2, isImage.1, error, rfl, ?_⟩
      simp [optimizeImage, unlimited, alternates, splits, bind, Except.bind, Except.mapError]
    | ok parts =>
      left
      obtain ⟨alternateFormats, found⟩ := alternates_ok splits options
      refine ⟨⟨alternateFormats, ?_⟩, fun _ _ => ⟨parts, rfl⟩⟩
      have stillLarge : isSmall { asset with alternateFormats } options = false := large
      simp [optimizeImage, unlimited, found, stillLarge, bind, Except.bind, pure, Except.pure]
  · left
    rw [if_neg isImage]
    refine ⟨⟨asset.alternateFormats, ?_⟩, fun optimizes image => absurd ⟨image, optimizes⟩ isImage⟩
    simp [large, bind, Except.bind, pure, Except.pure]

end

/-! ## Extracted assets -/

/-- Whether a use is the one that gives the record of its address. -/
def Use.IsFirst (uses : List Use) (use : Use) : Prop :=
  uses.find? (fun other => idOf other.url = idOf use.url) = some use

/-- Whether some address cannot be split and is first met in a field declared as an image. -/
def HasBrokenImage (uses : List Use) (error : Url.Error) : Prop :=
  ∃ use : Use, use.IsFirst uses ∧ use.kind = some "image" ∧
    Url.split use.url.toList = .error error

theorem type_recordOf (use : Use) (users : List String) :
    (recordOf use users).type = (classify use.url use.kind).1 := by
  rw [recordOf]

theorem optimizedUrl_recordOf (use : Use) (users : List String) :
    (recordOf use users).optimizedUrl = use.url := rfl

theorem Tabulates.exists_first {uses : List Use} {assets : List Asset}
    (tabulates : Tabulates uses assets) {asset : Asset} (member : asset ∈ assets) :
    ∃ first, Use.IsFirst uses first ∧ ∃ users, asset = recordOf first users := by
  obtain ⟨first, isFirst, isAsset⟩ := tabulates.each asset member
  have isId : asset.id = idOf first.url := by rw [isAsset]; rfl
  refine ⟨first, ?_, _, isAsset⟩
  rwa [isId] at isFirst

theorem Tabulates.exists_record {uses : List Use} {assets : List Asset}
    (tabulates : Tabulates uses assets) {use : Use} (isFirst : use.IsFirst uses) :
    ∃ asset ∈ assets, ∃ users, asset = recordOf use users := by
  have known : idOf use.url ∈ assets.map (·.id) := by
    rw [tabulates.ids, List.mem_eraseDups]
    exact List.mem_map_of_mem (List.mem_of_find?_eq_some isFirst)
  obtain ⟨asset, member, isId⟩ := List.mem_map.mp known
  obtain ⟨first, found, isAsset⟩ := tabulates.each asset member
  rw [isId] at found
  rw [Use.IsFirst, found, Option.some.injEq] at isFirst
  subst isFirst
  exact ⟨asset, member, _, isAsset⟩

section

variable {uses : List Use} {assets : List Asset} (tabulates : Tabulates uses assets)

include tabulates

/-- A record is given alternate formats, or its address cannot be split and was to be an image. -/
theorem Tabulates.optimizeOne_cases {asset : Asset} (member : asset ∈ assets)
    (options : AssetOptions) :
    (∃ alternateFormats, optimizeOne options asset = .ok { asset with alternateFormats }) ∨
      ∃ error, options.optimizeImages = true ∧ HasBrokenImage uses error ∧
        optimizeOne options asset = .error (.url error) := by
  obtain ⟨first, isFirst, users, rfl⟩ := tabulates.exists_first member
  have noWidth : (recordOf first users).width = none := rfl
  rcases Asset.optimizeOne_cases options noWidth rfl with
    ⟨done, -⟩ | ⟨optimizes, isImage, error, fails, stopped⟩
  · exact .inl done
  · rw [optimizedUrl_recordOf] at fails
    rw [type_recordOf, classify_image_iff_of_split_error fails] at isImage
    exact .inr ⟨error, optimizes, ⟨first, isFirst, isImage, fails⟩, stopped⟩

/-- An address that cannot be split and was to be an image has a record that fails. -/
theorem Tabulates.exists_fault {options : AssetOptions} {error : Url.Error}
    (optimizes : options.optimizeImages = true) (broken : HasBrokenImage uses error) :
    ∃ asset ∈ assets, optimizeOne options asset = .error (.url error) := by
  obtain ⟨use, isFirst, isImage, fails⟩ := broken
  obtain ⟨asset, member, users, rfl⟩ := tabulates.exists_record isFirst
  refine ⟨_, member, ?_⟩
  have noWidth : (recordOf use users).width = none := rfl
  rcases Asset.optimizeOne_cases options noWidth rfl with
    ⟨-, splits⟩ | ⟨-, -, other, fails', stopped⟩
  · have typed : (recordOf use users).type = "image" := by
      rw [type_recordOf, classify_image_iff_of_split_error fails]
      exact isImage
    obtain ⟨parts, split⟩ := splits optimizes typed
    rw [optimizedUrl_recordOf, fails] at split
    cases split
  · rw [optimizedUrl_recordOf, fails, Except.error.injEq] at fails'
    rw [fails', stopped]

end

/--
Extracted assets are optimised, one record for each and in their order, exactly if images are not
optimised or no address that cannot be split is first met in a field declared as an image. If it
fails, then for such an address.
-/
theorem optimize_extract_iff (heap : Heap) (catalog : Option Catalog) (entries : List Entry)
    (options : AssetOptions) :
    ((∃ optimized, optimize options (extract heap catalog entries) = .ok optimized ∧
        List.Forall₂
          (fun asset result => ∃ alternateFormats, result = { asset with alternateFormats })
          (extract heap catalog entries) optimized) ↔
      (options.optimizeImages = true →
        ∀ error, ¬ HasBrokenImage (foundUses heap catalog entries) error)) ∧
    ∀ fault, optimize options (extract heap catalog entries) = .error fault →
      ∃ error, fault = .url error ∧ HasBrokenImage (foundUses heap catalog entries) error := by
  have tabulates := tabulates_extract heap catalog entries
  generalize foundUses heap catalog entries = uses at tabulates
  generalize extract heap catalog entries = assets at tabulates
  rcases mapM_ok_or_error (optimizeOne options) assets with
    ⟨optimized, done, each, every⟩ | ⟨asset, member, fault, failed, stopped⟩
  · have changes : List.Forall₂
        (fun asset result => ∃ alternateFormats, result = { asset with alternateFormats })
        assets optimized := by
      refine each.imp fun asset result ⟨member, isResult⟩ => ?_
      rcases tabulates.optimizeOne_cases member options with
        ⟨alternateFormats, changed⟩ | ⟨error, -, -, stopped⟩
      · rw [changed, Except.ok.injEq] at isResult
        exact ⟨alternateFormats, isResult.symm⟩
      · rw [stopped] at isResult
        cases isResult
    refine ⟨iff_of_true ⟨optimized, done, changes⟩ fun optimizes error broken => ?_, ?_⟩
    · obtain ⟨asset, member, failed⟩ := tabulates.exists_fault optimizes broken
      obtain ⟨result, isResult⟩ := every asset member
      rw [failed] at isResult
      cases isResult
    · intro fault stopped
      rw [optimize, done] at stopped
      cases stopped
  · rcases tabulates.optimizeOne_cases member options with
      ⟨alternateFormats, done⟩ | ⟨error, optimizes, broken, failed'⟩
    · rw [done] at failed
      cases failed
    · refine ⟨iff_of_false ?_ fun intact => intact optimizes error broken, ?_⟩
      · rintro ⟨optimized, done, -⟩
        rw [optimize, stopped] at done
        cases done
      · intro other stopped'
        rw [optimize, stopped, Except.error.injEq] at stopped'
        rw [failed', Except.error.injEq] at failed
        exact ⟨error, by rw [← stopped', failed], broken⟩

/-- An image field that holds an address with a bracket that has no partner. -/
def brokenPhoto : Heap := ⟨#[.dict [(.str "photo", .str "http://[bad")]]⟩

/-- Such an address is taken for an image, and then it cannot be optimised. -/
theorem optimize_brokenPhoto_fails :
    optimize {} (extract brokenPhoto (some ⟨[("Card", [("photo", "image")])]⟩)
      [.component ⟨"c", "Card", .ref 0, []⟩]) = .error (.url .unbalancedBracket) := by
  decide +kernel

end Asset

end StaticSite
