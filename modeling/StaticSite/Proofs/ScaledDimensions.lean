import StaticSite.Proofs.AlternateFormats
import StaticSite.Proofs.RoundedShare
import StaticSite.Proofs.Savings

/-!
# Scaled dimensions

The height that belongs to a limited width is a quotient that is rounded twice, to a double and then
to a whole number of pixels. The first rounding does no harm as long as the numerator is below 2^52:
a quotient that is no half integer is farther from the nearest one than a double is off, and a half
integer is a double itself. So the height is the quotient rounded once, and a height of less than
half a pixel is none.
-/

namespace StaticSite

namespace Binary64

variable {num den : Nat}

/-! ## Nearest integers -/

theorem roundQuotient_of_near {k : Nat} (positive : 0 < den)
    (near : |(num : ℚ) / den - k| < 1 / 2) : roundQuotient num den = k := by
  have rounded := roundQuotient_near num positive
  have close : |(roundQuotient num den : ℚ) - k| < 1 := by
    have triangle := abs_sub_le (roundQuotient num den : ℚ) (num / den) k
    linarith
  have whole : |(roundQuotient num den : Int) - k| < 1 := by exact_mod_cast close
  rw [Int.abs_lt_one_iff] at whole
  omega

theorem roundQuotient_eq (num den : Nat) :
    roundQuotient num den =
      if 2 * (num % den) < den ∨ 2 * (num % den) = den ∧ num / den % 2 = 0 then num / den
      else num / den + 1 := by
  simp [roundQuotient]

/-- Only a quotient of more than one half is rounded to a positive integer. -/
theorem roundQuotient_pos_iff (positive : 0 < den) : 0 < roundQuotient num den ↔ den < 2 * num := by
  rw [roundQuotient_eq]
  rcases Nat.lt_or_ge num den with below | above
  · rw [Nat.div_eq_of_lt below, Nat.mod_eq_of_lt below]
    split <;> omega
  · have quotient : 0 < num / den := Nat.div_pos above positive
    apply iff_of_true
    · split <;> omega
    · omega

/-- A number that is nearest to an integer is rounded to it. -/
theorem round?_of_near {x : Binary64} {v : ℚ} {k : Nat} (isValue : x.value? = some v)
    (near : |v - k| < 1 / 2) : x.round? = some (k : Int) := by
  obtain ⟨num, den, isRatio, positive, rfl⟩ := ratio?_spec isValue
  have dens : (0 : ℚ) < den := by exact_mod_cast positive
  rw [round?, isRatio, Option.map_some, Option.some_inj]
  dsimp only
  by_cases negative : num < 0
  · have below : (num : ℚ) / den < 0 := div_neg_of_neg_of_pos (by exact_mod_cast negative) dens
    have magnitude : ((num.natAbs : ℕ) : ℚ) / den = -(num / den) := by
      rw [Nat.cast_natAbs, abs_of_neg negative, Int.cast_neg, neg_div]
    rw [abs_lt] at near
    obtain rfl : k = 0 := by
      by_contra nonzero
      have one_le : (1 : ℚ) ≤ k := by exact_mod_cast Nat.one_le_iff_ne_zero.mpr nonzero
      linarith
    rw [Nat.cast_zero, sub_zero] at near
    have rounded : roundQuotient num.natAbs den = 0 := by
      apply roundQuotient_of_near positive
      rw [magnitude, Nat.cast_zero, sub_zero, abs_lt]
      constructor <;> linarith
    rw [if_pos negative, rounded]
    rfl
  · have magnitude : ((num.natAbs : ℕ) : ℚ) / den = num / den := by
      rw [Nat.cast_natAbs, abs_of_nonneg (not_lt.mp negative)]
    rw [if_neg negative, roundQuotient_of_near positive (by rwa [magnitude])]

theorem round?_of_value? {x : Binary64} (positive : 0 < den)
    (isValue : x.value? = some ((num : ℚ) / den)) :
    x.round? = some (roundQuotient num den : Int) := by
  obtain ⟨num', den', isRatio, positive', same⟩ := ratio?_spec isValue
  have nonneg : 0 ≤ num' := by
    have quotient : (0 : ℚ) ≤ num' / den' := same ▸ (by positivity)
    have dens' : (0 : ℚ) < den' := by exact_mod_cast positive'
    rw [le_div_iff₀ dens', zero_mul] at quotient
    exact_mod_cast quotient
  obtain ⟨n, rfl⟩ := Int.eq_ofNat_of_zero_le nonneg
  rw [div_eq_div_iff (by exact_mod_cast positive.ne') (by exact_mod_cast positive'.ne')] at same
  have products : n * den = num * den' := by exact_mod_cast same.symm
  rw [round?, isRatio, Option.map_some, Option.some_inj]
  dsimp only
  rw [if_neg (by omega), Int.natAbs_natCast, roundQuotient_congr positive' positive products]

/-! ## Quotients that are rounded twice -/

/-- A ratio that has no digits below its exponent is its own double. -/
theorem value?_ofRatio_of_whole {m : Nat} (nonzero : num ≠ 0) (positive : 0 < den)
    (whole : (num : ℚ) / den / 2 ^ ratioExponent num den = m)
    (low : ratioExponent num den < highestExponent) :
    (ofRatio false num den).value? = some ((num : ℚ) / den) := by
  obtain ⟨denPositive, scaled⟩ := scaleRatio_spec num positive (ratioExponent num den)
  have rounded : roundQuotient (scaleRatio num den (ratioExponent num den)).1
      (scaleRatio num den (ratioExponent num den)).2 = m := by
    apply roundQuotient_of_near denPositive
    rw [scaled, whole, sub_self]
    norm_num
  rw [ofRatio, if_neg nonzero]
  dsimp only
  rw [rounded, if_neg (by split <;> omega), value?, value_carried, ← whole,
    div_mul_cancel₀ _ (zpow_ne_zero _ (by norm_num))]
  simp

/-- Half integers of up to 52 binary digits are doubles. -/
theorem value?_ofRatio_of_half {j : Nat} (nonzero : num ≠ 0) (positive : 0 < den)
    (half : (num : ℚ) / den = j / 2) (small : num < 2 ^ 52) :
    (ofRatio false num den).value? = some ((num : ℚ) / den) := by
  have dens : (1 : ℚ) ≤ den := by exact_mod_cast positive
  have grid := hasExponent_ratioExponent nonzero positive
  have fraction : ratioExponent num den ≤ -1 := by
    rcases grid.2.2 with lowest | large
    · rw [lowest]
      decide
    · have below : (num : ℚ) / den < 2 ^ (52 : Int) := by
        calc (num : ℚ) / den
          _ ≤ num := div_le_self (Nat.cast_nonneg _) dens
          _ < 2 ^ (52 : Int) := by exact_mod_cast small
      have powers := (zpow_lt_zpow_iff_right₀ (by norm_num : (1 : ℚ) < 2)).mp (large.trans_lt below)
      omega
  obtain ⟨places, isPlaces⟩ : ∃ places : Nat, ratioExponent num den = -(places : Int) - 1 :=
    ⟨(-ratioExponent num den - 1).toNat, by omega⟩
  apply value?_ofRatio_of_whole (m := j * 2 ^ places) nonzero positive
  · rw [half, isPlaces, zpow_sub_one₀ (by norm_num), zpow_neg, zpow_natCast]
    push_cast
    field_simp
  · unfold highestExponent
    omega

/-- A small quotient is a number, off by at most half of its last place. -/
theorem exists_value?_near (positive : 0 < den) (small : num < 2 ^ 52) :
    ∃ v, (ofRatio false num den).value? = some v ∧
      |v - num / den| ≤ num / den / 2 ^ 53 + 2 ^ (-1075 : Int) := by
  have nonneg : (0 : ℚ) ≤ num / den := by positivity
  have rounds := isRounding_ofRatio false num positive
  simp only [Bool.false_eq_true, if_false, one_mul] at rounds
  rw [IsRounding, abs_of_nonneg nonneg] at rounds
  rcases rounds with near | ⟨-, high⟩
  · exact near
  · have quotient : (num : ℚ) / den ≤ num :=
      div_le_self (Nat.cast_nonneg _) (by exact_mod_cast positive)
    have bound : (num : ℚ) < 2 ^ 52 := by exact_mod_cast small
    have grown : (2 : ℚ) ^ 52 ≤ 2 ^ 1023 := pow_le_pow_right₀ (by norm_num) (by norm_num)
    generalize (2 : ℚ) ^ 1023 = bound' at high grown
    linarith

/-- A ratio that is no half integer is away from one by at least half a unit of its denominator. -/
theorem gap_of_not_half {k : Nat} (positive : 0 < den) (nearest : |(num : ℚ) / den - k| < 1 / 2) :
    |(num : ℚ) / den - k| ≤ 1 / 2 - 1 / (2 * den) := by
  have dens : (0 : ℚ) < den := by exact_mod_cast positive
  obtain ⟨gap, isGap⟩ : ∃ gap : Int, gap = 2 * num - 2 * k * den := ⟨_, rfl⟩
  have scaled : |(num : ℚ) / den - k| = |(gap : ℚ)| / (2 * den) := by
    have quotient : (num : ℚ) / den - k = (2 * num - 2 * k * den) / (2 * den) := by
      field_simp
    rw [quotient, abs_div, abs_of_pos (by positivity : (0 : ℚ) < 2 * den), isGap]
    push_cast
    ring_nf
  rw [scaled] at nearest ⊢
  have casted : |(gap : ℚ)| < den := by
    rw [div_lt_iff₀ (by positivity)] at nearest
    linarith
  have whole : |gap| < den := by exact_mod_cast casted
  have step : |(gap : ℚ)| ≤ den - 1 := by
    have below : |gap| ≤ den - 1 := by omega
    exact_mod_cast below
  calc |(gap : ℚ)| / (2 * den)
    _ ≤ (den - 1) / (2 * den) := by gcongr
    _ = 1 / 2 - 1 / (2 * den) := by field_simp

/-- The error of a small quotient is below half a unit of its denominator. -/
theorem error_lt_half_unit (positive : 0 < den) (small : num < 2 ^ 52) (bounded : den ≤ 2 ^ 1000) :
    (num : ℚ) / den / 2 ^ 53 + 2 ^ (-1075 : Int) < 1 / (2 * den) := by
  have dens : (0 : ℚ) < den := by exact_mod_cast positive
  have lowest : (2 : ℚ) ^ (-1075 : Int) < 1 / (2 ^ 53 * den) := by
    have product : (2 : ℚ) ^ 53 * den < 2 ^ 1075 := by
      calc (2 : ℚ) ^ 53 * den
        _ ≤ 2 ^ 53 * 2 ^ 1000 := by
          gcongr
          exact_mod_cast bounded
        _ = 2 ^ 1053 := (pow_add _ _ _).symm
        _ < 2 ^ 1075 := pow_lt_pow_right₀ (by norm_num) (by norm_num)
    rw [zpow_neg, ← one_div]
    apply one_div_lt_one_div_of_lt (by positivity)
    exact_mod_cast product
  have nums : (num : ℚ) ≤ 2 ^ 52 - 1 := by
    have below : num + 1 ≤ 2 ^ 52 := small
    have casted : (num : ℚ) + 1 ≤ 2 ^ 52 := by exact_mod_cast below
    linarith
  calc (num : ℚ) / den / 2 ^ 53 + 2 ^ (-1075 : Int)
    _ < (2 ^ 52 - 1) / den / 2 ^ 53 + 1 / (2 ^ 53 * den) := by
      apply add_lt_add_of_le_of_lt _ lowest
      gcongr
    _ = 1 / (2 * den) := by
      field_simp
      norm_num

/-- A small quotient that is no half integer is farther from one than its double is off. -/
theorem near_of_not_half {k : Nat} (positive : 0 < den) (small : num < 2 ^ 52)
    (nearest : |(num : ℚ) / den - k| < 1 / 2) {v : ℚ}
    (near : |v - num / den| ≤ num / den / 2 ^ 53 + 2 ^ (-1075 : Int)) : |v - k| < 1 / 2 := by
  have triangle := abs_sub_le v (num / den) k
  rcases Nat.lt_or_ge (2 ^ 1000) den with huge | bounded
  · -- the quotient is next to nothing, and so is its double
    have tiny : (num : ℚ) / den < 1 / 4 := by
      rw [div_lt_iff₀ (by exact_mod_cast positive)]
      have grown : 2 ^ 54 ≤ den := (Nat.pow_le_pow_right (by norm_num) (by norm_num)).trans huge.le
      have casted : (2 : ℚ) ^ 54 ≤ den := by exact_mod_cast grown
      have nums : (num : ℚ) < 2 ^ 52 := by exact_mod_cast small
      linarith
    have lowest : (2 : ℚ) ^ (-1075 : Int) ≤ 1 / 8 := by
      calc (2 : ℚ) ^ (-1075 : Int)
        _ ≤ 2 ^ (-3 : Int) := zpow_le_zpow_right₀ (by norm_num) (by norm_num)
        _ = 1 / 8 := by norm_num
    have nonneg : (0 : ℚ) ≤ num / den := by positivity
    obtain rfl : k = 0 := by
      by_contra nonzero
      have one_le : (1 : ℚ) ≤ k := by exact_mod_cast Nat.one_le_iff_ne_zero.mpr nonzero
      rw [abs_lt] at nearest
      linarith
    rw [Nat.cast_zero, sub_zero, sub_zero, abs_of_nonneg nonneg] at triangle
    rw [Nat.cast_zero, sub_zero]
    generalize (2 : ℚ) ^ (-1075 : Int) = least at near lowest
    linarith
  · have gap := gap_of_not_half positive nearest
    have error := error_lt_half_unit positive small bounded
    generalize (2 : ℚ) ^ (-1075 : Int) = least at near error
    linarith

/-- Rounding a quotient to a double first does not change the integer it is rounded to. -/
theorem round?_ofRatio (positive : 0 < den) (small : num < 2 ^ 52) :
    (ofRatio false num den).round? = some (roundQuotient num den : Int) := by
  by_cases zero : num = 0
  · apply round?_of_value? positive
    rw [ofRatio, if_pos zero, zero, Binary64.zero, value?]
    simp
  rcases (roundQuotient_near num positive).lt_or_eq with nearest | tie
  · obtain ⟨v, isValue, near⟩ := exists_value?_near positive small
    rw [abs_sub_comm] at nearest
    exact round?_of_near isValue (near_of_not_half positive small nearest near)
  · apply round?_of_value? positive
    rcases eq_or_eq_neg_of_abs_eq tie with above | below
    · obtain ⟨k, isRounded⟩ : ∃ k, roundQuotient num den = k + 1 := by
        apply Nat.exists_eq_succ_of_ne_zero
        intro none
        have nonneg : (0 : ℚ) ≤ num / den := by positivity
        rw [none, Nat.cast_zero] at above
        linarith
      rw [isRounded] at above
      apply value?_ofRatio_of_half (j := 2 * k + 1) zero positive _ small
      push_cast at above ⊢
      linarith
    · apply value?_ofRatio_of_half (j := 2 * roundQuotient num den + 1) zero positive _ small
      push_cast
      linarith

end Binary64

namespace Asset

variable {asset : Asset} {options : AssetOptions} {height width cap : Int}

/-! ## The height that belongs to a limited width -/

/-- The height of a wide image at the greatest width, rounded once. -/
def heightAt (height width cap : Int) : Nat :=
  Binary64.roundQuotient (height * cap).toNat width.toNat

theorem scaledHeight_eq (tall : 0 < height) (wide : 0 < width) (capped : 0 < cap)
    (small : height * cap < 2 ^ 52) :
    scaledHeight height width cap = .ok (heightAt height width cap) := by
  have dens : 0 < width.toNat := by omega
  obtain ⟨num, isNum⟩ := Int.eq_ofNat_of_zero_le (Int.mul_pos tall capped).le
  have nums : num < 2 ^ 52 := by omega
  have nonneg : Binary64.ofIntRatio (height * cap) width.toNat =
      Binary64.ofRatio false num width.toNat := by
    rw [isNum, Binary64.ofIntRatio, Int.natAbs_natCast, decide_eq_false (by omega)]
  obtain ⟨v, isValue, -⟩ := Binary64.exists_value?_near dens nums
  rw [scaledHeight, quotient_of_value? (nonneg ▸ isValue), nonneg, heightAt, isNum]
  simp only [bind, Except.bind, Binary64.round?_ofRatio dens nums]
  rfl

theorem heightAt_near (tall : 0 < height) (wide : 0 < width) (capped : 0 < cap) :
    |(heightAt height width cap : ℚ) - height * cap / width| ≤ 1 / 2 := by
  obtain ⟨num, isNum⟩ := Int.eq_ofNat_of_zero_le (Int.mul_pos tall capped).le
  obtain ⟨den, rfl⟩ := Int.eq_ofNat_of_zero_le wide.le
  have near := Binary64.roundQuotient_near num (by omega : 0 < den)
  have product : (height : ℚ) * cap = num := by exact_mod_cast isNum
  rw [heightAt, isNum, product]
  exact near

/-- The height vanishes if half a pixel or less is left of it. -/
theorem heightAt_pos_iff (tall : 0 < height) (wide : 0 < width) (capped : 0 < cap) :
    0 < heightAt height width cap ↔ width < 2 * (height * cap) := by
  have product := Int.mul_pos tall capped
  rw [heightAt, Binary64.roundQuotient_pos_iff (by omega)]
  omega

theorem heightAt_le (tall : 0 < height) (capped : 0 < cap) (wider : cap < width) :
    (heightAt height width cap : Int) ≤ height := by
  have near := heightAt_near tall (capped.trans wider) capped
  have wide : (0 : ℚ) < width := by exact_mod_cast capped.trans wider
  have shrunk : (height : ℚ) * cap / width < height := by
    rw [div_lt_iff₀ wide]
    apply mul_lt_mul_of_pos_left
    · exact_mod_cast wider
    · exact_mod_cast tall
  have below : (heightAt height width cap : ℚ) < height + 1 := by
    rw [abs_le] at near
    linarith
  have whole : (heightAt height width cap : Int) < height + 1 := by exact_mod_cast below
  omega

/-! ## Measured images -/

/-- An image of known size whose height times the greatest width stays exact as a double. -/
structure IsSized (asset : Asset) (cap width height : Int) : Prop where
  image : asset.type = "image"
  width_eq : asset.width = some width
  height_eq : asset.height = some height
  wide : 0 < width
  tall : 0 < height
  small : height * cap < 2 ^ 52

/-- The height of a sized image after its width has been limited. -/
def limitedHeight (cap width height : Int) : Int :=
  if width ≤ cap then height else heightAt height width cap

/-- A sized image with its width limited. -/
def limited (asset : Asset) (cap width height : Int) : Asset :=
  { asset with width := some (min width cap), height := some (limitedHeight cap width height) }

theorem IsSized.limitWidth_eq (sized : asset.IsSized cap width height) (capped : 0 < cap) :
    asset.limitWidth cap = .ok (asset.limited cap width height) := by
  have wide := sized.wide
  have tall := sized.tall
  rw [limitWidth, sized.width_eq, limited, limitedHeight]
  dsimp only
  by_cases fits : width ≤ cap
  · rw [if_pos (by omega), if_pos fits, min_eq_left fits, ← sized.width_eq, ← sized.height_eq]
  · rw [if_neg (by omega), if_neg fits, sized.height_eq, min_eq_right (by omega)]
    dsimp only
    rw [if_neg (by omega), scaledHeight_eq tall wide capped sized.small]
    rfl

theorem IsSized.optimizeOne_eq (sized : asset.IsSized options.maxImageWidth width height)
    (on : options.optimizeImages = true) (capped : 0 < options.maxImageWidth) :
    optimizeOne options asset =
      (((asset.limited options.maxImageWidth width height).alternates options).map fun formats =>
        mark options
          { asset.limited options.maxImageWidth width height with alternateFormats := formats }) := by
  have isImage : asset.IsOptimizedImage options := ⟨sized.image, on⟩
  rw [optimizeOne_eq_mark, if_pos isImage, optimizeImage, sized.limitWidth_eq capped]
  dsimp only [bind, Except.bind]
  cases (asset.limited options.maxImageWidth width height).alternates options <;> rfl

/-- The dimensions of a sized image after optimisation. -/
structure ScalesTo (cap width height : Int) (result : Asset) : Prop where
  width_eq : result.width = some (min width cap)
  height_eq : ∃ scaled, result.height = some scaled ∧ 0 ≤ scaled ∧ scaled ≤ height ∧
    (0 < scaled ↔ width < 2 * (height * cap)) ∧
    (width ≤ cap → scaled = height) ∧
    (cap < width → |(scaled : ℚ) - height * cap / width| ≤ 1 / 2)

theorem scalesTo_of_limitedHeight (tall : 0 < height) (wide : 0 < width) (capped : 0 < cap)
    {result : Asset} (width_eq : result.width = some (min width cap))
    (height_eq : result.height = some (limitedHeight cap width height)) :
    ScalesTo cap width height result := by
  refine ⟨width_eq, limitedHeight cap width height, height_eq, ?_⟩
  unfold limitedHeight
  by_cases fits : width ≤ cap
  · rw [if_pos fits]
    have grown : width ≤ height * cap := by
      calc width
        _ ≤ cap := fits
        _ ≤ height * cap := le_mul_of_one_le_left capped.le tall
    refine ⟨tall.le, le_refl _, ?_, fun _ => rfl, fun wider => absurd fits (by omega)⟩
    constructor <;> omega
  · rw [if_neg fits]
    have wider : cap < width := by omega
    refine ⟨Int.natCast_nonneg _, heightAt_le tall capped wider, ?_, fun small => absurd small fits,
      fun _ => ?_⟩
    · rw [← heightAt_pos_iff tall wide capped]
      exact Int.natCast_pos
    · exact_mod_cast heightAt_near tall wide capped

/-- A sized image is optimised as far as its address can be split. -/
theorem IsSized.exists_optimizeOne_iff
    (sized : asset.IsSized options.maxImageWidth width height)
    (on : options.optimizeImages = true) (capped : 0 < options.maxImageWidth) :
    (∃ result, optimizeOne options asset = .ok result) ↔
      ∃ parts, Url.split asset.optimizedUrl.toList = .ok parts := by
  rw [sized.optimizeOne_eq on capped]
  constructor
  · rintro ⟨result, done⟩
    obtain ⟨formats, isFormats, -⟩ := exists_of_map_eq_ok done
    exact exists_split_of_alternates isFormats
  · rintro ⟨parts, splits⟩
    have limitedSplits : Url.split
        (asset.limited options.maxImageWidth width height).optimizedUrl.toList = .ok parts := splits
    rw [alternates_eq limitedSplits]
    exact ⟨_, rfl⟩

theorem IsSized.scalesTo {result : Asset}
    (sized : asset.IsSized options.maxImageWidth width height)
    (on : options.optimizeImages = true) (capped : 0 < options.maxImageWidth)
    (done : optimizeOne options asset = .ok result) :
    ScalesTo options.maxImageWidth width height result := by
  rw [sized.optimizeOne_eq on capped] at done
  obtain ⟨formats, -, rfl⟩ := exists_of_map_eq_ok done
  exact scalesTo_of_limitedHeight sized.tall sized.wide capped rfl rfl

/-- What is no image passes optimisation. -/
theorem exists_optimizeOne_of_other (other : asset.type ≠ "image") :
    ∃ result, optimizeOne options asset = .ok result := by
  rw [optimizeOne_eq_mark, if_neg fun isImage => other isImage.1]
  exact ⟨_, rfl⟩

/-! ## All assets -/

theorem exists_optimize_iff (options : AssetOptions) (assets : List Asset) :
    (∃ optimized, optimize options assets = .ok optimized) ↔
      ∀ asset ∈ assets, ∃ result, optimizeOne options asset = .ok result := by
  rw [optimize]
  rcases mapM_ok_or_error (optimizeOne options) assets with
    ⟨results, all, -, every⟩ | ⟨asset, member, fault, failed, stopped⟩
  · rw [all]
    exact iff_of_true ⟨results, rfl⟩ every
  · rw [stopped]
    apply iff_of_false
    · rintro ⟨optimized, done⟩
      cases done
    · intro every
      obtain ⟨result, done⟩ := every asset member
      rw [failed] at done
      cases done

/--
Images of known size are scaled to the greatest width: none is enlarged, the width is the smaller of
width and limit, and the height is the proportional one, rounded to whole pixels. It stays positive
as long as more than half a pixel is left of it. Only an image whose address cannot be split stands
in the way of optimising.
-/
theorem optimize_scales (on : options.optimizeImages = true) (capped : 0 < options.maxImageWidth)
    (assets : List Asset) :
    ((∀ asset ∈ assets, asset.type = "image" →
        ∃ width height, asset.IsSized options.maxImageWidth width height) →
      ((∃ optimized, optimize options assets = .ok optimized) ↔
        ∀ asset ∈ assets, asset.type = "image" →
          ∃ parts, Url.split asset.optimizedUrl.toList = .ok parts)) ∧
    ∀ optimized, optimize options assets = .ok optimized →
      List.Forall₂ (fun asset result => ∀ width height,
        asset.IsSized options.maxImageWidth width height →
          ScalesTo options.maxImageWidth width height result) assets optimized := by
  constructor
  · intro known
    rw [exists_optimize_iff]
    apply forall₂_congr
    intro asset member
    by_cases isImage : asset.type = "image"
    · obtain ⟨width, height, sized⟩ := known asset member isImage
      rw [sized.exists_optimizeOne_iff on capped]
      exact ⟨fun splits _ => splits, fun splits => splits isImage⟩
    · exact iff_of_true (exists_optimizeOne_of_other isImage) fun image => absurd image isImage
  · intro optimized done
    apply (forall₂_of_mapM_eq_ok done).imp
    intro asset result ⟨_, given⟩ width height sized
    exact sized.scalesTo on capped given

/-- A picture, and a panorama of which a fifth of a pixel is left. -/
def landscapes : List Asset :=
  [{ id := "p", url := "/p.png", optimizedUrl := "/p.png", type := "image",
     mimeType := "image/png", width := some 4000, height := some 3001 },
   { id := "w", url := "/w.png", optimizedUrl := "/w.png", type := "image",
     mimeType := "image/png", width := some 19200, height := some 2 }]

theorem optimize_scales_landscapes : ∃ picture panorama,
    optimize {} landscapes = .ok [picture, panorama] ∧
      ScalesTo 1920 4000 3001 picture ∧ picture.height = some 1440 ∧
      ScalesTo 1920 19200 2 panorama ∧ panorama.height = some 0 := by
  have general := @optimize_scales {} rfl (by decide) landscapes
  have sized : ∀ asset ∈ landscapes, asset.type = "image" →
      ∃ width height, asset.IsSized 1920 width height := by
    intro asset member _
    rcases List.mem_pair.mp member with rfl | rfl
    · exact ⟨4000, 3001, by constructor <;> decide⟩
    · exact ⟨19200, 2, by constructor <;> decide⟩
  have splits : ∀ asset ∈ landscapes, asset.type = "image" →
      ∃ parts, Url.split asset.optimizedUrl.toList = .ok parts := by
    intro asset member _
    rcases List.mem_pair.mp member with rfl | rfl <;> exact ⟨_, rfl⟩
  obtain ⟨optimized, done⟩ := (general.1 sized).mpr splits
  have heights : (optimize {} landscapes).toOption.map (·.map (·.height)) =
      some [some 1440, some 0] := by
    decide +kernel
  have each := general.2 optimized done
  rcases each with _ | ⟨picture, rest⟩
  rcases rest with _ | ⟨panorama, rest⟩
  cases rest
  rw [done] at heights
  simp only [Except.toOption, Option.map_some, List.map_cons, List.map_nil, Option.some_inj,
    List.cons.injEq, and_true] at heights
  exact ⟨_, _, done, picture 4000 3001 (by constructor <;> decide), heights.1,
    panorama 19200 2 (by constructor <;> decide), heights.2⟩

/-- Half a pixel is rounded to none: an image of positive size can lose its height. -/
theorem optimize_half_pixel : ∃ strip result : Asset,
    strip.IsSized 1 2 1 ∧ optimize { maxImageWidth := 1 } [strip] = .ok [result] ∧
      result.width = some 1 ∧ result.height = some 0 := by
  refine ⟨{ id := "s", url := "/s.png", optimizedUrl := "/s.png", type := "image",
            mimeType := "image/png", width := some 2, height := some 1 },
    { id := "s", url := "/s.png", optimizedUrl := "/s.png", type := "image",
      mimeType := "image/png", width := some 1, height := some 0, alternateFormats :=
        [{ format := "webp", url := "/s.webp", quality := some 80 }] }, ?_, ?_, rfl, rfl⟩
  · constructor <;> decide
  · decide +kernel

end Asset

end StaticSite
