import StaticSite.Asset.Manifest
import StaticSite.Proofs.Outcome
import StaticSite.Proofs.RoundedRatio

/-!
# Saved shares are rounded

A share in percent is divided, multiplied and moved by a half in doubles before its fraction is cut
off. The three roundings matter only next to a half percent. For a part of a whole of ordinary size
that leaves the halves themselves, a hundred numbers: four of them are rounded down and not up.
-/

namespace StaticSite

variable {before after : Int}

/-! ## Three roundings -/

/-- The saved share in percent as an exact number. -/
def savedPercent (before after : Int) : ℚ := (before - after) / before * 100

/-- How far a computed share can be from the exact one. -/
def slack (percent : ℚ) : ℚ := (|percent| + 1) / 2 ^ 51

/-- The error of one rounding. -/
def IsOff (v q : ℚ) : Prop := |v - q| ≤ |q| / 2 ^ 53 + 1 / 2 ^ 100

theorem abs_le_of_isOff {v q : ℚ} (off : IsOff v q) : |v| ≤ |q| + |q| / 2 ^ 53 + 1 / 2 ^ 100 := by
  have triangle : |v| ≤ |v - q| + |q| := by simpa using abs_add_le (v - q) q
  unfold IsOff at off
  linarith

theorem exists_isOff {x : Binary64} {q : ℚ} (rounds : x.IsRounding q) :
    (∃ v, x.value? = some v ∧ IsOff v q) ∨
      (∃ negative, x = .infinity negative) ∧ 2 ^ 1023 ≤ |q| := by
  have least : (2 : ℚ) ^ (-1075 : Int) ≤ 1 / 2 ^ 100 := by
    rw [one_div, ← zpow_natCast, ← zpow_neg]
    exact zpow_le_zpow_right₀ (by norm_num) (by norm_num)
  rcases rounds with ⟨v, isValue, near⟩ | past
  · exact .inl ⟨v, isValue, near.trans (by linarith)⟩
  · exact .inr past

/-- The errors of three roundings in a row stay within the slack. -/
theorem slack_of_steps {q ratio product sum : ℚ} (first : IsOff ratio q)
    (second : IsOff product (ratio * 100)) (third : IsOff sum (product + 1 / 2)) :
    |sum - (q * 100 + 1 / 2)| ≤ slack (q * 100) := by
  have ratioBound := abs_le_of_isOff first
  have productBound := abs_le_of_isOff second
  have hundred (v : ℚ) : |v * 100| = |v| * 100 := by rw [abs_mul]; norm_num
  have half : |product + 1 / 2| ≤ |product| + 1 / 2 := by
    simpa [abs_of_pos] using abs_add_le product (1 / 2)
  unfold IsOff at first second third
  unfold slack
  rw [hundred] at second productBound ⊢
  have split : sum - (q * 100 + 1 / 2) =
      (sum - (product + 1 / 2)) + (product - ratio * 100) + (ratio - q) * 100 := by ring
  have total : |sum - (q * 100 + 1 / 2)| ≤
      |sum - (product + 1 / 2)| + |product - ratio * 100| + |ratio - q| * 100 := by
    rw [split, ← hundred (ratio - q)]
    exact (abs_add_le _ _).trans (by gcongr; exact abs_add_le _ _)
  norm_num at first second third ratioBound productBound ⊢
  linarith [abs_nonneg q]

/-- A share that passes all doubles on the way is past nearly all of them itself. -/
theorem large_of_steps {q ratio product : ℚ} (first : IsOff ratio q)
    (second : IsOff product (ratio * 100)) (high : 2 ^ 1023 ≤ |product| + 1 / 2) :
    2 ^ 1014 ≤ |q| := by
  have ratioBound := abs_le_of_isOff first
  have productBound := abs_le_of_isOff second
  have hundred : |ratio * 100| = |ratio| * 100 := by rw [abs_mul]; norm_num
  have one_le : (1 : ℚ) ≤ 2 ^ 1014 := one_le_pow₀ (by norm_num)
  have room : (2 : ℚ) ^ 1023 = 2 ^ 1014 * 2 ^ 9 := pow_add 2 1014 9
  rw [hundred] at productBound
  rw [room] at high
  generalize (2 : ℚ) ^ 1014 = bound at one_le high ⊢
  norm_num at ratioBound productBound high ⊢
  linarith [abs_nonneg q]

theorem value?_hundred : (Binary64.ofInt 100).value? = some 100 := by
  rw [show Binary64.ofInt 100 = .finite false (100 * 2 ^ 46) (-46) from rfl, Binary64.value?]
  norm_num

theorem value?_half : (Binary64.ofRatio false 1 2).value? = some (1 / 2) := by
  rw [show Binary64.ofRatio false 1 2 = .finite false (2 ^ 52) (-53) from rfl, Binary64.value?]
  norm_num

theorem quotient_of_value? {num : Int} {den : Nat} {v : ℚ}
    (isValue : (Binary64.ofIntRatio num den).value? = some v) :
    quotient num den = .ok (Binary64.ofIntRatio num den) := by
  obtain ⟨negative, significand, exponent, isFinite, -⟩ := Binary64.exists_finite isValue
  rw [quotient, isFinite]

theorem percentSaved_of_pos (positive : 0 < before) :
    percentSaved before after = quotient (before - after) before.toNat >>= fun ratio =>
      match ((ratio.mul (.ofInt 100)).add (.ofRatio false 1 2)).floor? with
      | some percent => .ok percent
      | none => .error .infiniteInteger := by
  rw [percentSaved, if_neg (not_le.mpr positive)]
  rfl

/-- The quotient is the first rounding, or past nearly all doubles. -/
theorem quotient_near (positive : 0 < before) :
    (∃ x ratio, quotient (before - after) before.toNat = .ok x ∧ x.value? = some ratio ∧
        IsOff ratio ((before - after) / before)) ∨
      quotient (before - after) before.toNat = .error .quotientTooLarge ∧
        2 ^ 1023 ≤ |((before : ℚ) - after) / before| := by
  have dens : 0 < before.toNat := by omega
  have share : ((before - after : Int) : ℚ) / (before.toNat : ℚ) = (before - after) / before := by
    rw [← Int.cast_natCast before.toNat, Int.toNat_of_nonneg positive.le, Int.cast_sub]
  have rounds := exists_isOff (Binary64.isRounding_ofIntRatio (before - after) dens)
  rw [share] at rounds
  rcases rounds with ⟨ratio, isRatio, off⟩ | ⟨⟨negative, past⟩, high⟩
  · exact .inl ⟨_, ratio, quotient_of_value? isRatio, isRatio, off⟩
  · exact .inr ⟨by rw [quotient, past], high⟩

/-- A share is computed within the slack, or the size has grown beyond all measure. -/
theorem percentSaved_near (positive : 0 < before) :
    (∃ (percent : Int) (v : ℚ), percentSaved before after = .ok percent ∧ percent = ⌊v⌋ ∧
        |v - (savedPercent before after + 1 / 2)| ≤ slack (savedPercent before after)) ∨
      (∃ fault, percentSaved before after = .error fault) ∧
        2 ^ 1014 ≤ |((before : ℚ) - after) / before| := by
  rw [percentSaved_of_pos positive]
  rcases quotient_near positive with ⟨x, ratio, isQuotient, isRatio, first⟩ | ⟨failed, high⟩
  · rw [isQuotient]
    simp only [bind, Except.bind]
    rcases exists_isOff (Binary64.isRounding_mul isRatio value?_hundred) with
      ⟨product, isProduct, second⟩ | ⟨⟨negative, past⟩, high⟩
    · rcases exists_isOff (Binary64.isRounding_add isProduct value?_half) with
        ⟨sum, isSum, third⟩ | ⟨⟨negative, past⟩, high⟩
      · left
        exact ⟨⌊sum⌋, sum, by rw [Binary64.floor?_of_value? isSum], rfl,
          slack_of_steps first second third⟩
      · right
        refine ⟨⟨.infiniteInteger, by rw [past]; rfl⟩, ?_⟩
        have half : |product + 1 / 2| ≤ |product| + 1 / 2 := by
          simpa [abs_of_pos] using abs_add_le product (1 / 2)
        exact large_of_steps first second (high.trans half)
    · right
      refine ⟨⟨.infiniteInteger, by rw [past]; rfl⟩, ?_⟩
      have exact : IsOff (ratio * 100) (ratio * 100) := by
        rw [IsOff, sub_self, abs_zero]
        positivity
      exact large_of_steps first exact (high.trans (le_add_of_nonneg_right (by norm_num)))
  · right
    refine ⟨⟨.quotientTooLarge, by rw [failed]; rfl⟩, le_trans ?_ high⟩
    exact pow_le_pow_right₀ (by norm_num) (by norm_num)

/-! ## Halves -/

/-- A number near a fraction that is no integer has the same integer below it. -/
theorem floor_eq_of_near {num den : Int} (positive : 0 < den) (notWhole : ¬ den ∣ num) {v : ℚ}
    (near : |v - num / den| < 1 / den) : ⌊v⌋ = num / den := by
  have dens : (0 : ℚ) < den := by exact_mod_cast positive
  have left : 1 ≤ num % den := by
    have nonneg := Int.emod_nonneg num positive.ne'
    have nonzero : num % den ≠ 0 := fun zero => notWhole (Int.dvd_of_emod_eq_zero zero)
    omega
  have right : num % den + 1 ≤ den := Int.emod_lt_of_pos num positive
  have split : (num : ℚ) = den * (num / den : Int) + (num % den : Int) := by
    exact_mod_cast (Int.mul_ediv_add_emod num den).symm
  have exact : (num : ℚ) / den = (num / den : Int) + (num % den : Int) / den := by
    rw [div_eq_iff dens.ne', add_mul, div_mul_cancel₀ _ dens.ne', mul_comm]
    exact split
  have least : 1 / (den : ℚ) ≤ (num % den : Int) / den := by
    gcongr
    exact_mod_cast left
  have greatest : ((num % den : Int) : ℚ) / den ≤ 1 - 1 / den := by
    rw [div_le_iff₀ dens, sub_mul, div_mul_cancel₀ _ dens.ne', one_mul]
    have cast : ((num % den : Int) : ℚ) + 1 ≤ den := by exact_mod_cast right
    linarith
  rw [exact, abs_lt] at near
  rw [Int.floor_eq_iff]
  constructor <;> linarith [near.1, near.2]

/-- Equal shares are rounded alike. -/
theorem percentSaved_congr {before' after' : Int} (positive : 0 < before) (positive' : 0 < before')
    (same : (before - after) * before' = (before' - after') * before) :
    percentSaved before after = percentSaved before' after' := by
  have ratio : Binary64.ofIntRatio (before - after) before.toNat =
      Binary64.ofIntRatio (before' - after') before'.toNat := by
    refine Binary64.ofIntRatio_congr (by omega) (by omega) ?_
    rwa [Int.toNat_of_nonneg positive'.le, Int.toNat_of_nonneg positive.le]
  rw [percentSaved_of_pos positive, percentSaved_of_pos positive', quotient, quotient, ratio]

/-- The share in percent with its halves rounded up. -/
def halfUpPercent (before after : Int) : Int := (200 * (before - after) + before) / (2 * before)

/-- The share is halfway between two whole percents. -/
def IsHalf (before after : Int) : Prop := 2 * before ∣ 200 * (before - after) + before

/-- The halves that are rounded down, in half percents: 14.5, 28.5, 56.5 and 57.5 percent. -/
def missedHalves : List Int := [29, 57, 113, 115]

def missesHalf (before after : Int) : Bool :=
  missedHalves.any fun odd => 200 * (before - after) == odd * before

theorem missesHalf_iff {k : Int} (positive : 0 < before)
    (half : 200 * (before - after) = (2 * k - 1) * before) :
    missesHalf before after ↔ 2 * k - 1 ∈ missedHalves := by
  have same (odd : Int) : 200 * (before - after) = odd * before ↔ odd = 2 * k - 1 := by
    rw [half, Int.mul_eq_mul_right_iff positive.ne', eq_comm]
  simp [missesHalf, same]

/-- The shares of two hundred that are halves of a percent. -/
theorem percentSaved_half : ∀ k < 101, 1 ≤ k → percentSaved 200 (201 - 2 * (k : Nat)) =
    .ok (if (2 * k - 1 : Int) ∈ missedHalves then (k : Int) - 1 else k) := by
  decide +kernel

theorem percentSaved_of_isHalf (positive : 0 < before) (nonneg : 0 ≤ after) (part : after ≤ before)
    (half : IsHalf before after) : percentSaved before after =
      .ok (halfUpPercent before after - if missesHalf before after then 1 else 0) := by
  obtain ⟨k, whole⟩ := half
  have odd : 200 * (before - after) = (2 * k - 1) * before := by linarith
  have least : 1 ≤ k := by
    by_contra less
    nlinarith
  have greatest : k ≤ 100 := by
    by_contra more
    nlinarith
  have exact : halfUpPercent before after = k := by
    rw [halfUpPercent, whole]
    exact Int.mul_ediv_cancel_left k (by omega)
  obtain ⟨n, rfl⟩ := Int.eq_ofNat_of_zero_le (show 0 ≤ k by omega)
  have same : percentSaved before after = percentSaved 200 (201 - 2 * n) :=
    percentSaved_congr positive (by norm_num) (by linarith)
  rw [same, percentSaved_half n (by omega) (by omega), exact]
  by_cases missed : (2 * n - 1 : Int) ∈ missedHalves
  · rw [if_pos missed, if_pos ((missesHalf_iff positive odd).mpr missed)]
  · rw [if_neg missed, if_neg (mt (missesHalf_iff positive odd).mp missed), sub_zero]

/-! ## Between the halves -/

theorem savedPercent_add_half (positive : 0 < before) : savedPercent before after + 1 / 2 =
    (200 * (before - after) + before : Int) / (2 * before : Int) := by
  have whole : (before : ℚ) ≠ 0 := by exact_mod_cast positive.ne'
  rw [savedPercent]
  push_cast
  field_simp
  ring

/-- Between sizes of ordinary magnitude the slack is less than the step between two shares. -/
theorem slack_lt (positive : 0 < before)
    (ordinary : 200 * |before - after| + 2 * before < 2 ^ 51) :
    slack (savedPercent before after) < 1 / (2 * before : Int) := by
  have whole : (0 : ℚ) < before := by exact_mod_cast positive
  have percent : |savedPercent before after| = (100 * |before - after| : Int) / before := by
    rw [savedPercent, abs_mul, abs_div, abs_of_pos whole]
    push_cast
    norm_num
    ring
  have sizes : ((200 * |before - after| + 2 * before : Int) : ℚ) < 2 ^ 51 := by
    exact_mod_cast ordinary
  rw [slack, percent, div_lt_div_iff₀ (by norm_num) (by exact_mod_cast (by omega : 0 < 2 * before))]
  calc ((100 * |before - after| : Int) / before + 1) * ((2 * before : Int) : ℚ)
    _ = (200 * |before - after| + 2 * before : Int) := by
      push_cast
      field_simp
      ring
    _ < 1 * 2 ^ 51 := by rwa [one_mul]

theorem percentSaved_of_not_isHalf (positive : 0 < before)
    (ordinary : 200 * |before - after| + 2 * before < 2 ^ 51) (notHalf : ¬ IsHalf before after) :
    percentSaved before after = .ok (halfUpPercent before after) := by
  rcases percentSaved_near positive with ⟨percent, v, isPercent, rfl, near⟩ | ⟨-, large⟩
  · rw [savedPercent_add_half positive] at near
    rw [isPercent, halfUpPercent, floor_eq_of_near (by omega) notHalf
      (near.trans_lt (slack_lt positive ordinary))]
  · -- a share past all doubles needs sizes that are past them
    have whole : (1 : ℚ) ≤ before := by exact_mod_cast positive
    have sizes : (|before - after| : Int) ≤ (2 : ℚ) ^ 51 := by
      exact_mod_cast (by omega : |before - after| ≤ 2 ^ 51)
    have room : (2 : ℚ) ^ 51 < 2 ^ 1014 := pow_lt_pow_right₀ (by norm_num) (by norm_num)
    rw [← Int.cast_sub, abs_div, abs_of_pos (by linarith : (0 : ℚ) < before),
      ← Int.cast_abs] at large
    exact absurd (large.trans ((div_le_self (by positivity) whole).trans sizes)) (not_le.mpr room)

/-! ## The rounded share -/

/-- A share past all doubles is that of a size that has grown. -/
theorem grown_of_large (positive : 0 < before) (nonneg : 0 ≤ after)
    (large : 2 ^ 1014 ≤ |((before : ℚ) - after) / before|) :
    (2 : ℚ) ^ 1014 * before ≤ after := by
  have whole : (0 : ℚ) < before := by exact_mod_cast positive
  have left : (0 : ℚ) ≤ after := by exact_mod_cast nonneg
  have one_lt : (1 : ℚ) < 2 ^ 1014 := one_lt_pow₀ (by norm_num) (by norm_num)
  rw [abs_div, abs_of_pos whole, le_div_iff₀ whole] at large
  generalize (2 : ℚ) ^ 1014 = bound at large one_lt ⊢
  rcases abs_cases ((before : ℚ) - after) with ⟨same, -⟩ | ⟨same, -⟩ <;> rw [same] at large
  · nlinarith
  · linarith

/-- Shares are rounded to the nearest percent within the slack, unless the size has grown past all
doubles. Between sizes of ordinary magnitude every share but the halves is rounded to the nearest
percent; of the halves of a percent that a part can save, all are rounded up but four. -/
theorem percentSaved_rounds (before after : Int) (nonneg : 0 ≤ after) :
    (before ≤ 0 → percentSaved before after = .ok 0) ∧
      (0 < before →
        (∃ percent, percentSaved before after = .ok percent ∧
          ⌊savedPercent before after + 1 / 2 - slack (savedPercent before after)⌋ ≤ percent ∧
          percent ≤ ⌊savedPercent before after + 1 / 2 + slack (savedPercent before after)⌋) ∨
        (2 : ℚ) ^ 1014 * before ≤ after ∧ ∃ fault, percentSaved before after = .error fault) ∧
      (0 < before → 200 * |before - after| + 2 * before < 2 ^ 51 → ¬ IsHalf before after →
        percentSaved before after = .ok (halfUpPercent before after)) ∧
      (0 < before → after ≤ before → IsHalf before after → percentSaved before after =
        .ok (halfUpPercent before after - if missesHalf before after then 1 else 0)) := by
  refine ⟨fun none => if_pos none, fun positive => ?_,
    fun positive => percentSaved_of_not_isHalf positive,
    fun positive => percentSaved_of_isHalf positive nonneg⟩
  rcases percentSaved_near positive with ⟨percent, v, isPercent, rfl, near⟩ | ⟨failed, large⟩
  · left
    rw [abs_le] at near
    exact ⟨⌊v⌋, isPercent, Int.floor_le_floor (by linarith [near.1]),
      Int.floor_le_floor (by linarith [near.2])⟩
  · exact .inr ⟨grown_of_large positive nonneg large, failed⟩

/-- Twenty-nine of two hundred bytes, 14.5 percent, are one of the four halves. -/
theorem percentSaved_rounds_sheet : (0 : Int) ≤ 171 ∧ IsHalf 200 171 ∧
    percentSaved 200 171 = .ok 14 := by
  have half : IsHalf 200 171 := ⟨15, by norm_num⟩
  refine ⟨by norm_num, half, ?_⟩
  rw [(percentSaved_rounds 200 171 (by norm_num)).2.2.2 (by norm_num) (by norm_num) half]
  rfl

theorem percentSaved_ne_halfUpPercent :
    ¬ ∀ before after : Int, 0 < before → 0 ≤ after →
      percentSaved before after = .ok (halfUpPercent before after) := by
  intro up
  have missed : percentSaved 200 171 = .ok 14 := by decide +kernel
  have half := up 200 171 (by norm_num) (by norm_num)
  rw [missed] at half
  exact absurd half (by decide)

end StaticSite
