import StaticSite.Asset.Optimize
import StaticSite.Proofs.Outcome

/-!
# An optimised asset

Optimising touches the dimensions of an image, the formats it is offered in, and the mark for
embedding. Everything else of an asset stays.
-/

namespace StaticSite

namespace Asset

variable {asset other : Asset} {options : AssetOptions}

/-! ## Greatest width -/

/-- Whether nothing is to be done about the width of an image. -/
def FitsWidth (asset : Asset) (maxWidth : Int) : Prop :=
  ∀ width, asset.width = some width → width = 0 ∨ maxWidth ≤ 0 ∨ width ≤ maxWidth

theorem limitWidth_of_fitsWidth {maxWidth : Int} (fits : asset.FitsWidth maxWidth) :
    asset.limitWidth maxWidth = .ok asset := by
  unfold limitWidth
  split
  · rfl
  next width known => exact if_pos (fits width known)

/-- Only the dimensions are changed, and then the width fits. -/
theorem limitWidth_spec {maxWidth : Int} (limited : asset.limitWidth maxWidth = .ok other) :
    (∃ width height, other = { asset with width, height }) ∧ other.FitsWidth maxWidth := by
  have fits {height : Option Int} :
      FitsWidth { asset with width := some maxWidth, height } maxWidth := by
    intro width known
    obtain rfl : maxWidth = width := Option.some.inj known
    exact .inr (.inr (Int.le_refl _))
  unfold limitWidth at limited
  split at limited
  next unknown =>
    cases limited
    exact ⟨⟨_, _, rfl⟩, fun width known => by rw [unknown] at known; cases known⟩
  next width known =>
    split at limited
    next small =>
      cases limited
      refine ⟨⟨_, _, rfl⟩, fun width' known' => ?_⟩
      obtain rfl : width = width' := Option.some.inj (known.symm.trans known')
      exact small
    · split at limited
      · cases limited
        exact ⟨⟨_, _, rfl⟩, fits⟩
      · split at limited
        · cases limited
          exact ⟨⟨_, _, rfl⟩, fits⟩
        · obtain ⟨height, -, limited⟩ := exists_of_bind_eq_ok limited
          cases limited
          exact ⟨⟨_, _, rfl⟩, fits⟩

/-! ## Single assets -/

/-- Whether formats are added to an asset and its width is limited. -/
def IsOptimizedImage (asset : Asset) (options : AssetOptions) : Prop :=
  asset.type = "image" ∧ options.optimizeImages = true

instance (asset : Asset) (options : AssetOptions) : Decidable (asset.IsOptimizedImage options) :=
  inferInstanceAs (Decidable (_ ∧ _))

/-- Marking an asset for embedding when it is small. -/
def mark (options : AssetOptions) (asset : Asset) : Asset :=
  { asset with inlined := asset.inlined || asset.isSmall options }

theorem inlined_mark (small : asset.isSmall options = true) :
    (mark options asset).inlined = true := by
  rw [mark, small, Bool.or_true]

theorem optimizeOne_eq_mark (options : AssetOptions) (asset : Asset) :
    optimizeOne options asset =
      if asset.IsOptimizedImage options then (asset.optimizeImage options).map (mark options)
      else .ok (mark options asset) := by
  have marked (asset : Asset) :
      (if asset.isSmall options = true then { asset with inlined := true } else asset) =
        mark options asset := by
    unfold mark
    cases asset.isSmall options <;> simp
  unfold optimizeOne
  simp only [marked]
  by_cases isImage : asset.type = "image" ∧ options.optimizeImages = true
  · rw [if_pos isImage, if_pos (show asset.IsOptimizedImage options from isImage)]
    cases asset.optimizeImage options <;> rfl
  · rw [if_neg isImage, if_neg (show ¬ asset.IsOptimizedImage options from isImage)]
    rfl

/-- An image is limited in width and given formats; then it is marked, as any other asset is. -/
theorem mark_of_optimizeOne (done : optimizeOne options asset = .ok other) :
    (asset.IsOptimizedImage options ∧ ∃ limited alternateFormats,
        asset.limitWidth options.maxImageWidth = .ok limited ∧
        limited.alternates options = .ok alternateFormats ∧
        other = mark options { limited with alternateFormats }) ∨
      (¬ asset.IsOptimizedImage options ∧ other = mark options asset) := by
  rw [optimizeOne_eq_mark] at done
  split at done
  next isImage =>
    obtain ⟨image, isShaped, rfl⟩ := exists_of_map_eq_ok done
    obtain ⟨limited, isLimited, isShaped⟩ := exists_of_bind_eq_ok isShaped
    obtain ⟨formats, isFormats, isShaped⟩ := exists_of_bind_eq_ok isShaped
    obtain rfl := Except.ok.inj isShaped
    exact .inl ⟨isImage, limited, formats, isLimited, isFormats, rfl⟩
  next isOther => exact .inr ⟨isOther, (Except.ok.inj done).symm⟩

/-- Optimising keeps all of an asset but four of its fields. -/
theorem frame_of_optimizeOne (done : optimizeOne options asset = .ok other) :
    ∃ width height inlined alternateFormats,
      other = { asset with width, height, inlined, alternateFormats } := by
  rcases mark_of_optimizeOne done with ⟨-, limited, formats, isLimited, -, rfl⟩ | ⟨-, rfl⟩
  · obtain ⟨⟨width, height, rfl⟩, -⟩ := limitWidth_spec isLimited
    exact ⟨width, height, _, formats, rfl⟩
  · exact ⟨asset.width, asset.height, _, asset.alternateFormats, rfl⟩

end Asset

end StaticSite
