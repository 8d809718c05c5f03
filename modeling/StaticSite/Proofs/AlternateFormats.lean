import StaticSite.Proofs.OptimizedAsset
import StaticSite.Proofs.Rejoining

/-!
# Formats that images are offered in

Optimising an image fits its width, adds the target formats that it lacks, and marks it when it is
small. Each of the three recognises its own result, so optimising again changes nothing. The address
of an added format is the image's address with another extension, as far as the address can be put
together from its parts again.
-/

namespace StaticSite

namespace Asset

variable {asset : Asset} {options : AssetOptions}

/-! ## Added formats -/

/-- The target formats that are neither the image's own nor offered already. -/
def lacking (own : String) (offered : List AlternateFormat) (targets : List String) : List String :=
  targets.filter fun target => target ≠ own ∧ target ∉ offered.map (·.format)

theorem mem_lacking_iff {own target : String} {offered : List AlternateFormat}
    {targets : List String} : target ∈ lacking own offered targets ↔
      target ∈ targets ∧ target ≠ own ∧ target ∉ offered.map (·.format) := by
  simp [lacking]

/-- Distinct targets are added in their order, each that is lacking once. -/
theorem offer_eq (own : String) (quality : Int) (urlFor : String → String) {targets : List String}
    (distinct : targets.Nodup) (offered : List AlternateFormat) :
    offer own quality urlFor offered targets =
      offered ++ (lacking own offered targets).map fun target =>
        { format := target, url := urlFor target, quality := some quality } := by
  induction targets generalizing offered with
  | nil => simp [offer, lacking]
  | cons target targets ih =>
    obtain ⟨once, distinct⟩ := List.nodup_cons.mp distinct
    rw [offer]
    by_cases known : target = own ∨ target ∈ offered.map (·.format)
    · have skipped : lacking own offered (target :: targets) = lacking own offered targets :=
        List.filter_cons_of_neg (by simpa [not_and_or, or_iff_not_imp_left] using known)
      rw [if_pos known, ih distinct, skipped]
    · have taken : lacking own offered (target :: targets) =
          target :: lacking own offered targets :=
        List.filter_cons_of_pos (by simpa using known)
      -- the target that has been added is none of the later ones
      have later (alternate : AlternateFormat) (isTarget : alternate.format = target) :
          lacking own (offered ++ [alternate]) targets = lacking own offered targets := by
        refine List.filter_congr fun other member => ?_
        have different : other ≠ target := fun same => once (same ▸ member)
        simp [isTarget, different]
      rw [if_neg known, ih distinct, later _ rfl, taken]
      simp

theorem lacking_append (own : String) (offered : List AlternateFormat)
    {added : List AlternateFormat} {targets : List String}
    (complete : added.map (·.format) = lacking own offered targets) :
    lacking own (offered ++ added) targets = [] := by
  refine List.eq_nil_iff_forall_not_mem.mpr fun target member => ?_
  obtain ⟨isTarget, notOwn, absent⟩ := mem_lacking_iff.mp member
  rw [List.map_append, List.mem_append, not_or, complete, mem_lacking_iff] at absent
  exact absent.2 ⟨isTarget, notOwn, absent.1⟩

theorem nodup_targetFormats (options : AssetOptions) : options.targetFormats.Nodup := by
  unfold AssetOptions.targetFormats
  cases options.generateWebp <;> cases options.generateAvif <;> decide

/-- The extension of the address that an image is offered under, in small letters. -/
def ownFormat (asset : Asset) : String := String.ofList (Url.extension asset.optimizedUrl.toList)

/-- The formats that an image is to be given: none if its address has no extension to replace. -/
def missingFormats (asset : Asset) (options : AssetOptions) : List String :=
  if asset.ownFormat = "" then []
  else lacking asset.ownFormat asset.alternateFormats options.targetFormats

/-- The alternate format at the address that has the format for its extension. -/
def alternateAt (parts : Url.Parts) (quality : Int) (target : String) : AlternateFormat :=
  { format := target, url := String.ofList (Url.join (parts.withExtension target.toList)),
    quality := some quality }

theorem alternates_eq {parts : Url.Parts}
    (splits : Url.split asset.optimizedUrl.toList = .ok parts) (options : AssetOptions) :
    asset.alternates options = .ok (asset.alternateFormats ++
      (asset.missingFormats options).map (alternateAt parts options.imageQuality)) := by
  rw [alternates, splits]
  simp only [bind, Except.bind, Except.mapError]
  cases found : Url.splitExtension? parts.path with
  | none =>
    have own : Url.extension asset.optimizedUrl.toList = [] := by
      simp only [Url.extension, splits, found]
    have nothing : asset.missingFormats options = [] := by
      rw [missingFormats, ownFormat, own, if_pos rfl]
    rw [nothing, List.map_nil, List.append_nil]
    rfl
  | some both =>
    obtain ⟨stem, ext⟩ := both
    obtain ⟨-, filled, -⟩ := Url.splitExtension?_eq_some found
    have own : Url.extension asset.optimizedUrl.toList = ext.map Text.lowerAscii := by
      simp only [Url.extension, splits, found]
    have isOwn : asset.ownFormat = String.ofList (ext.map Text.lowerAscii) := by rw [ownFormat, own]
    have named : asset.ownFormat ≠ "" := by
      rw [isOwn]
      simpa using filled
    rw [missingFormats, if_neg named, isOwn]
    dsimp only
    rw [offer_eq _ _ _ (nodup_targetFormats options)]
    have placed : alternateAt parts options.imageQuality = fun target =>
        { format := target,
          url := String.ofList (Url.join { parts with path := stem ++ '.' :: target.toList }),
          quality := some options.imageQuality } := by
      funext target
      rw [alternateAt, Url.Parts.withExtension, found]
    rw [placed]
    rfl

theorem map_format_alternateAt (parts : Url.Parts) (quality : Int) (formats : List String) :
    (formats.map (alternateAt parts quality)).map (·.format) = formats := by
  rw [List.map_map]
  exact List.map_id formats

/-- Nothing is missing from an image that has been given what it lacked. -/
theorem missingFormats_of_added {result : Asset} {added : List AlternateFormat}
    (sameAddress : result.optimizedUrl = asset.optimizedUrl)
    (isResult : result.alternateFormats = asset.alternateFormats ++ added)
    (complete : added.map (·.format) = asset.missingFormats options) :
    result.missingFormats options = [] := by
  have sameOwn : result.ownFormat = asset.ownFormat := by rw [ownFormat, ownFormat, sameAddress]
  unfold missingFormats at complete ⊢
  rw [sameOwn, isResult]
  split
  · rfl
  next named =>
    rw [if_neg named] at complete
    exact lacking_append _ _ complete

/-! ## Single assets -/

/-- The formats that optimising adds. -/
def addedFormats (asset : Asset) (options : AssetOptions) : List String :=
  if asset.IsOptimizedImage options then asset.missingFormats options else []

/-- What optimising makes of one asset. -/
structure OptimizesTo (options : AssetOptions) (asset result : Asset) : Prop where
  frame : ∃ width height inlined alternateFormats,
    result = { asset with width, height, inlined, alternateFormats }
  fits : asset.IsOptimizedImage options → result.FitsWidth options.maxImageWidth
  marked : asset.isSmall options = true → result.inlined = true
  splits : asset.IsOptimizedImage options → ∃ parts, Url.split asset.optimizedUrl.toList = .ok parts
  added : ∀ parts, Url.split asset.optimizedUrl.toList = .ok parts →
    result.alternateFormats = asset.alternateFormats ++
      (asset.addedFormats options).map (alternateAt parts options.imageQuality)
  kept : ¬ asset.IsOptimizedImage options → result.alternateFormats = asset.alternateFormats

theorem exists_split_of_alternates {formats : List AlternateFormat}
    (done : asset.alternates options = .ok formats) :
    ∃ parts, Url.split asset.optimizedUrl.toList = .ok parts := by
  cases splits : Url.split asset.optimizedUrl.toList with
  | ok parts => exact ⟨parts, rfl⟩
  | error error =>
    rw [alternates, splits] at done
    cases done

theorem optimizeOne_spec {result : Asset} (done : optimizeOne options asset = .ok result) :
    OptimizesTo options asset result := by
  have frame := frame_of_optimizeOne done
  rcases mark_of_optimizeOne done with
    ⟨isImage, limited, formats, isLimited, isFormats, rfl⟩ | ⟨isOther, rfl⟩
  · obtain ⟨⟨width, height, isLimited⟩, fits⟩ := limitWidth_spec isLimited
    have sameAddress : limited.optimizedUrl = asset.optimizedUrl := by rw [isLimited]
    have sameFormats : limited.alternateFormats = asset.alternateFormats := by rw [isLimited]
    have sameMissing : limited.missingFormats options = asset.missingFormats options := by
      rw [isLimited]
      rfl
    have sameSmall : limited.isSmall options = asset.isSmall options := by
      rw [isLimited]
      rfl
    obtain ⟨parts, splits⟩ := exists_split_of_alternates isFormats
    rw [sameAddress] at splits
    refine
      { frame
        fits := fun _ => fits
        marked := fun small => inlined_mark (sameSmall.trans small)
        splits := fun _ => ⟨parts, splits⟩
        added := fun parts' splits' => ?_
        kept := fun other => absurd isImage other }
    rw [← sameAddress] at splits'
    rw [alternates_eq splits', Except.ok.injEq, sameFormats, sameMissing] at isFormats
    rw [addedFormats, if_pos isImage, isFormats]
    rfl
  · refine
      { frame
        fits := fun image => absurd image isOther
        marked := inlined_mark
        splits := fun image => absurd image isOther
        added := fun parts _ => ?_
        kept := fun _ => rfl }
    rw [addedFormats, if_neg isOther, List.map_nil, List.append_nil]
    rfl

/-- An asset about which nothing is to be done stays as it is. -/
theorem optimizeOne_eq_self
    (fits : asset.IsOptimizedImage options → asset.FitsWidth options.maxImageWidth)
    (marked : asset.isSmall options = true → asset.inlined = true)
    (splits : asset.IsOptimizedImage options →
      ∃ parts, Url.split asset.optimizedUrl.toList = .ok parts)
    (complete : asset.IsOptimizedImage options → asset.missingFormats options = []) :
    optimizeOne options asset = .ok asset := by
  have same : mark options asset = asset := by
    have inlined : (asset.inlined || asset.isSmall options) = asset.inlined := by
      cases small : asset.isSmall options with
      | true => rw [marked small, Bool.true_or]
      | false => rw [Bool.or_false]
    rw [mark, inlined]
  rw [optimizeOne_eq_mark]
  split
  next isImage =>
    obtain ⟨parts, splits⟩ := splits isImage
    have shaped : asset.optimizeImage options = .ok asset := by
      have formats := alternates_eq splits options
      rw [complete isImage, List.map_nil, List.append_nil] at formats
      rw [optimizeImage, limitWidth_of_fitsWidth (fits isImage)]
      simp only [bind, Except.bind, formats]
      rfl
    rw [shaped, Except.map, same]
  · rw [same]

/-- What optimising has made of an asset it leaves as it is. -/
theorem OptimizesTo.optimizeOne_eq {result : Asset} (isResult : OptimizesTo options asset result) :
    optimizeOne options result = .ok result := by
  obtain ⟨width, height, inlined, alternateFormats, frame⟩ := isResult.frame
  have sameAddress : result.optimizedUrl = asset.optimizedUrl := by rw [frame]
  have sameImage : result.IsOptimizedImage options ↔ asset.IsOptimizedImage options := by
    rw [frame]
    rfl
  refine optimizeOne_eq_self (fun image => isResult.fits (sameImage.mp image)) ?_ ?_ fun image => ?_
  · have sameSmall : result.isSmall options = asset.isSmall options := by rw [frame]; rfl
    rw [sameSmall]
    exact isResult.marked
  · rw [sameImage, sameAddress]
    exact isResult.splits
  · obtain ⟨parts, splits⟩ := isResult.splits (sameImage.mp image)
    refine missingFormats_of_added sameAddress (isResult.added parts splits) ?_
    rw [map_format_alternateAt, addedFormats, if_pos (sameImage.mp image)]

/-! ## All assets -/

theorem mem_addedFormats {target : String} (member : target ∈ asset.addedFormats options) :
    asset.ownFormat ≠ "" ∧ target ∈ options.targetFormats ∧
      target ∉ asset.alternateFormats.map (·.format) ∧ target ≠ asset.ownFormat := by
  unfold addedFormats missingFormats at member
  split at member
  · split at member
    · cases member
    next named =>
      obtain ⟨isTarget, notOwn, absent⟩ := mem_lacking_iff.mp member
      exact ⟨named, isTarget, absent, notOwn⟩
  · cases member

theorem nodup_addedFormats (asset : Asset) (options : AssetOptions) :
    (asset.addedFormats options).Nodup := by
  unfold addedFormats missingFormats
  split
  · split
    · exact List.nodup_nil
    · exact (nodup_targetFormats options).filter _
  · exact List.nodup_nil

theorem OptimizesTo.exists_added {result : Asset} (isResult : OptimizesTo options asset result) :
    ∃ added, result.alternateFormats = asset.alternateFormats ++ added ∧
      added.map (·.format) = asset.addedFormats options := by
  by_cases isImage : asset.IsOptimizedImage options
  · obtain ⟨parts, splits⟩ := isResult.splits isImage
    exact ⟨_, isResult.added parts splits, map_format_alternateAt ..⟩
  · refine ⟨[], by rw [isResult.kept isImage, List.append_nil], ?_⟩
    rw [addedFormats, if_neg isImage]
    rfl

theorem forall₂_optimizesTo {assets optimized : List Asset}
    (done : optimize options assets = .ok optimized) :
    List.Forall₂ (OptimizesTo options) assets optimized :=
  (forall₂_of_mapM_eq_ok done).imp fun _ _ given => optimizeOne_spec given.2

/-- Assets about which nothing is to be done stay as they are. -/
theorem optimize_eq_self {assets : List Asset}
    (settled : ∀ asset ∈ assets, optimizeOne options asset = .ok asset) :
    optimize options assets = .ok assets := by
  unfold optimize
  induction assets with
  | nil => rfl
  | cons asset assets ih =>
    obtain ⟨here, later⟩ := List.forall_mem_cons.mp settled
    rw [List.mapM_cons, here, ih later]
    rfl

/--
Optimising keeps the order of assets and everything but an image's dimensions, its alternate formats
and the mark of a small asset. The formats that were there keep their places; behind them comes each
target format that is neither the one of the address nor offered already, once. Optimising again
changes nothing.
-/
theorem optimize_idempotent {assets optimized : List Asset}
    (done : optimize options assets = .ok optimized) :
    optimize options optimized = .ok optimized ∧
      List.Forall₂ (fun asset result =>
        (∃ width height inlined alternateFormats,
          result = { asset with width, height, inlined, alternateFormats }) ∧
        ∃ added, result.alternateFormats = asset.alternateFormats ++ added ∧
          added.map (·.format) = asset.addedFormats options ∧
          (added.map (·.format)).Nodup ∧
          ∀ alternate ∈ added, alternate.format ∈ options.targetFormats ∧
            alternate.format ∉ asset.alternateFormats.map (·.format) ∧
            alternate.format ≠ String.ofList (Url.extension asset.optimizedUrl.toList))
        assets optimized := by
  have each := forall₂_optimizesTo done
  constructor
  · refine optimize_eq_self fun result member => ?_
    obtain ⟨asset, -, isResult⟩ := exists_of_mem_right each member
    exact isResult.optimizeOne_eq
  · refine each.imp fun asset result isResult => ⟨isResult.frame, ?_⟩
    obtain ⟨added, formats, complete⟩ := isResult.exists_added
    refine ⟨added, formats, complete, complete ▸ nodup_addedFormats asset options, ?_⟩
    intro alternate member
    have isAdded : alternate.format ∈ asset.addedFormats options :=
      complete ▸ List.mem_map_of_mem member
    exact (mem_addedFormats isAdded).2

/-- A wide picture that is offered as AVIF already, and a small script. -/
def album : List Asset :=
  [{ id := "p", url := "/p.JPG", optimizedUrl := "/p.JPG", type := "image",
     mimeType := "image/jpeg", width := some 4000, height := some 3001, usedBy := ["c"],
     alternateFormats := [{ format := "avif", url := "/other.avif" }] },
   { id := "s", url := "/s.js", optimizedUrl := "/s.js", type := "script",
     mimeType := "text/javascript", size := some 10 }]

theorem optimize_idempotent_album : ∃ optimized,
    optimize { generateAvif := true } album = .ok optimized ∧ optimized ≠ album ∧
      optimized.map (fun asset => asset.alternateFormats.map (·.url)) =
        [["/other.avif", "/p.webp"], []] ∧
      optimize { generateAvif := true } optimized = .ok optimized := by
  have done : optimize { generateAvif := true } album = .ok
      [{ id := "p", url := "/p.JPG", optimizedUrl := "/p.JPG", type := "image",
         mimeType := "image/jpeg", width := some 1920, height := some 1440, usedBy := ["c"],
         alternateFormats := [{ format := "avif", url := "/other.avif" },
           { format := "webp", url := "/p.webp", quality := some 80 }] },
       { id := "s", url := "/s.js", optimizedUrl := "/s.js", type := "script",
         mimeType := "text/javascript", size := some 10, inlined := true }] := by
    decide +kernel
  exact ⟨_, done, by decide, by decide, (optimize_idempotent done).1⟩

/-! ## Addresses of added formats -/

theorem isAsciiAlphanumeric_targetFormats {target : String}
    (isTarget : target ∈ options.targetFormats) :
    ∀ c ∈ target.toList, Text.isAsciiAlphanumeric c = true := by
  have known : target ∈ ["webp", "avif"] := by
    unfold AssetOptions.targetFormats at isTarget
    revert isTarget
    cases options.generateWebp <;> cases options.generateAvif <;> simp +contextual
  have each : ∀ format ∈ ["webp", "avif"], ∀ c ∈ format.toList,
      Text.isAsciiAlphanumeric c = true := by decide
  exact each target known

theorem exists_extension {parts : Url.Parts}
    (splits : Url.split asset.optimizedUrl.toList = .ok parts) (named : asset.ownFormat ≠ "") :
    ∃ stem ext, Url.splitExtension? parts.path = some (stem, ext) := by
  cases found : Url.splitExtension? parts.path with
  | some both => exact ⟨both.1, both.2, rfl⟩
  | none =>
    refine absurd ?_ named
    rw [ownFormat, Url.extension, splits]
    dsimp only
    rw [found]

/--
Each format that optimising adds is offered at an address that is split into the parts of the
image's address with the format in place of the extension, exactly if the image's address can be put
together from its parts again.
-/
theorem optimize_alternates_iff {assets optimized : List Asset}
    (done : optimize options assets = .ok optimized) :
    List.Forall₂ (fun asset result => ∀ parts, Url.split asset.optimizedUrl.toList = .ok parts →
      ∃ added, result.alternateFormats = asset.alternateFormats ++ added ∧
        ∀ alternate ∈ added, ∃ stem ext, parts.path = stem ++ '.' :: ext ∧ ext ≠ [] ∧
          (∀ c ∈ ext, Text.isAsciiAlphanumeric c = true) ∧
          (Url.split alternate.url.toList =
              .ok { parts with path := stem ++ '.' :: alternate.format.toList } ↔ parts.Rejoins))
      assets optimized := by
  refine (forall₂_optimizesTo done).imp fun asset result isResult parts splits =>
    ⟨_, isResult.added parts splits, fun alternate member => ?_⟩
  obtain ⟨target, isAdded, rfl⟩ := List.mem_map.mp member
  obtain ⟨named, isTarget, -, -⟩ := mem_addedFormats isAdded
  obtain ⟨stem, ext, found⟩ := exists_extension splits named
  obtain ⟨isPath, filled, plain⟩ := Url.splitExtension?_eq_some found
  refine ⟨stem, ext, isPath, filled, plain, ?_⟩
  have replaced := (Url.isSplit_of_split splits).replaceExtension isPath
    (isAsciiAlphanumeric_targetFormats isTarget)
  rw [← Url.Parts.rejoins_replaceExtension_iff isPath target.toList, ← replaced.split_join_iff]
  have text : (alternateAt parts options.imageQuality target).url.toList =
      Url.join { parts with path := stem ++ '.' :: target.toList } := by
    rw [alternateAt, Url.Parts.withExtension, found]
    exact String.toList_ofList
  rw [text]
  rfl

/-- A picture of another host, with a query and a fragment. -/
def remotePicture : Asset :=
  { id := "r", url := "https://cdn/x.png?v=2#t", optimizedUrl := "https://cdn/x.png?v=2#t",
    type := "image", mimeType := "image/png" }

/-- The parts of its address. -/
def remoteParts : Url.Parts :=
  ⟨"https".toList, "cdn".toList, "/x.png".toList, "v=2".toList, "t".toList⟩

theorem optimize_alternates_iff_remotePicture :
    (∃ optimized, optimize {} [remotePicture] = .ok [optimized] ∧
      optimized.alternateFormats.map (·.url) = ["https://cdn/x.webp?v=2#t"]) ∧
    Url.split remotePicture.optimizedUrl.toList = .ok remoteParts ∧ remoteParts.Rejoins ∧
    ∃ stem ext, remoteParts.path = stem ++ '.' :: ext ∧
      Url.split "https://cdn/x.webp?v=2#t".toList =
        .ok { remoteParts with path := stem ++ ".webp".toList } := by
  have done : optimize {} [remotePicture] = .ok [{ remotePicture with alternateFormats :=
      [{ format := "webp", url := "https://cdn/x.webp?v=2#t", quality := some 80 }] }] := by
    decide +kernel
  have splits : Url.split remotePicture.optimizedUrl.toList = .ok remoteParts := by decide
  have rejoins : remoteParts.Rejoins := .inl (by decide)
  refine ⟨⟨_, done, rfl⟩, splits, rejoins, ?_⟩
  obtain ⟨added, formats, each⟩ :=
    (List.forall₂_cons.mp (optimize_alternates_iff done)).1 remoteParts splits
  obtain rfl : [_] = added := formats
  obtain ⟨stem, ext, isPath, -, -, kept⟩ := each _ (List.mem_singleton_self _)
  exact ⟨stem, ext, isPath, kept.mpr rejoins⟩

/-- A picture whose address has an empty authority, and a path that starts with two slashes. -/
def slashedPicture : Asset :=
  { id := "p", url := "////host/a.png", optimizedUrl := "////host/a.png", type := "image",
    mimeType := "image/png" }

/-- The format that is added to it is offered by another host. -/
theorem optimize_slashedPicture_elsewhere : ∃ optimized,
    optimize {} [slashedPicture] = .ok [optimized] ∧
      Url.split slashedPicture.optimizedUrl.toList = .ok ⟨[], [], "//host/a.png".toList, [], []⟩ ∧
      optimized.alternateFormats.map (fun alternate => Url.split alternate.url.toList) =
        [.ok ⟨[], "host".toList, "/a.webp".toList, [], []⟩] := by
  have done : optimize {} [slashedPicture] = .ok [{ slashedPicture with alternateFormats :=
      [{ format := "webp", url := "//host/a.webp", quality := some 80 }] }] := by
    decide +kernel
  exact ⟨_, done, by decide, by decide⟩

end Asset

end StaticSite
