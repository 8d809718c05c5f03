import Mathlib
import StaticSite.Number.Binary64

/-!
# How far a double is from the number it stands for

A ratio is rounded on the grid of one power of two, which only its value decides. So the result
depends on the value alone and is off by at most one part in 2^53, or by half of the smallest
double. The operations that round an exact result inherit this.
-/

namespace StaticSite.Binary64

/-! ## Rounding to an integer -/

theorem roundQuotient_near (num : Nat) {den : Nat} (positive : 0 < den) :
    |(roundQuotient num den : ℚ) - num / den| ≤ 1 / 2 := by
  have split : (num : ℚ) = den * (num / den : Nat) + (num % den : Nat) := by
    exact_mod_cast (Nat.div_add_mod num den).symm
  have dens : (0 : ℚ) < den := by exact_mod_cast positive
  have exact : (num : ℚ) / den = (num / den : Nat) + (num % den : Nat) / den := by
    rw [eq_comm, eq_div_iff dens.ne', add_mul, div_mul_cancel₀ _ dens.ne', mul_comm]
    exact split.symm
  have below : ((num % den : Nat) : ℚ) / den < 1 := by
    rw [div_lt_one dens]
    exact_mod_cast Nat.mod_lt num positive
  have above : 0 ≤ ((num % den : Nat) : ℚ) / den := by positivity
  rw [exact, abs_le]
  unfold roundQuotient
  dsimp only
  split
  next down =>
    have half : ((num % den : Nat) : ℚ) / den ≤ 1 / 2 := by
      have twice : 2 * (num % den) ≤ den := by
        simp only [Bool.or_eq_true, decide_eq_true_eq, Bool.and_eq_true, beq_iff_eq] at down
        omega
      rw [div_le_iff₀ dens]
      have cast : (2 : ℚ) * (num % den : Nat) ≤ den := by exact_mod_cast twice
      linarith
    constructor <;> linarith
  next up =>
    have half : 1 / 2 ≤ ((num % den : Nat) : ℚ) / den := by
      have twice : den ≤ 2 * (num % den) := by
        simp only [Bool.or_eq_true, decide_eq_true_eq, not_or, not_lt] at up
        exact up.1
      rw [le_div_iff₀ dens]
      have cast : (den : ℚ) ≤ 2 * (num % den : Nat) := by exact_mod_cast twice
      linarith
    push_cast
    constructor <;> linarith

/-- The nearest integer depends on the ratio only. -/
theorem roundQuotient_congr {num den num' den' : Nat} (positive : 0 < den) (positive' : 0 < den')
    (same : num * den' = num' * den) : roundQuotient num den = roundQuotient num' den' := by
  have scaled (factor num den : Nat) (positive : 0 < factor) :
      roundQuotient (factor * num) (factor * den) = roundQuotient num den := by
    have twice : 2 * (factor * num % (factor * den)) = factor * (2 * (num % den)) := by
      rw [Nat.mul_mod_mul_left, Nat.mul_left_comm]
    simp only [roundQuotient, Nat.mul_div_mul_left num den positive, twice,
      Nat.mul_lt_mul_left positive, Nat.mul_left_cancel_iff positive, beq_eq_decide]
  rw [← scaled den' num den positive', ← scaled den num' den' positive, Nat.mul_comm den' num, same,
    Nat.mul_comm den den', Nat.mul_comm num' den]

/-! ## The power of two -/

theorem scaleRatio_spec (num : Nat) {den : Nat} (positive : 0 < den) (exponent : Int) :
    0 < (scaleRatio num den exponent).2 ∧
      ((scaleRatio num den exponent).1 : ℚ) / (scaleRatio num den exponent).2 =
        num / den / 2 ^ exponent := by
  have power (n : Nat) : ((Nat.pow 2 n : Nat) : ℚ) = 2 ^ n := by
    rw [Nat.pow_eq]
    push_cast
    rfl
  unfold scaleRatio
  split
  next nonneg =>
    obtain ⟨n, rfl⟩ := Int.eq_ofNat_of_zero_le nonneg
    refine ⟨Nat.mul_pos positive (Nat.two_pow_pos _), ?_⟩
    simp only [Int.toNat_natCast, Nat.cast_mul, power, zpow_natCast]
    rw [div_div]
  next negative =>
    obtain ⟨n, isNegative⟩ := Int.eq_ofNat_of_zero_le (show 0 ≤ -exponent by omega)
    obtain rfl : exponent = -(n : Int) := by omega
    refine ⟨positive, ?_⟩
    simp only [neg_neg, Int.toNat_natCast, Nat.cast_mul, power, zpow_neg, zpow_natCast]
    rw [div_inv_eq_mul, div_mul_eq_mul_div]

/-- There are at most 53 binary digits before the point, and 53 unless the exponent is lowest. -/
def HasExponent (q : ℚ) (exponent : Int) : Prop :=
  lowestExponent ≤ exponent ∧ q < 2 ^ (53 + exponent) ∧
    (exponent = lowestExponent ∨ 2 ^ (52 + exponent) ≤ q)

theorem HasExponent.unique {q : ℚ} {e f : Int} (first : HasExponent q e)
    (second : HasExponent q f) : e = f := by
  have ordered {e f : Int} (first : HasExponent q e) (second : HasExponent q f) : f ≤ e := by
    by_contra less
    rcases second.2.2 with lowest | large
    · have bound := first.1
      omega
    · have grid : (2 : ℚ) ^ (53 + e) ≤ 2 ^ (52 + f) := zpow_le_zpow_right₀ (by norm_num) (by omega)
      linarith [first.2.1]
  exact le_antisymm (ordered second first) (ordered first second)

/-- A ratio lies between the powers of two that the binary digits of its terms tell. -/
theorem ratio_bracket {num den : Nat} (nonzero : num ≠ 0) (positive : 0 < den) :
    (2 : ℚ) ^ ((num.log2 : Int) - den.log2 - 1) < num / den ∧
      (num : ℚ) / den < 2 ^ ((num.log2 : Int) - den.log2 + 1) := by
  have low (n : Nat) (nonzero : n ≠ 0) : (2 : ℚ) ^ (n.log2 : Int) ≤ n := by
    rw [zpow_natCast]
    exact_mod_cast Nat.log2_self_le nonzero
  have high (n : Nat) : (n : ℚ) < 2 ^ ((n.log2 : Int) + 1) := by
    rw [← Nat.cast_succ, zpow_natCast]
    exact_mod_cast Nat.lt_log2_self
  have dens : (0 : ℚ) < den := by exact_mod_cast positive
  constructor
  · rw [lt_div_iff₀ dens]
    calc (2 : ℚ) ^ ((num.log2 : Int) - den.log2 - 1) * den
      _ < 2 ^ ((num.log2 : Int) - den.log2 - 1) * 2 ^ ((den.log2 : Int) + 1) := by
        gcongr
        exact high den
      _ = 2 ^ (num.log2 : Int) := by
        rw [← zpow_add₀ (by norm_num)]
        congr 1
        omega
      _ ≤ num := low num nonzero
  · rw [div_lt_iff₀ dens]
    calc (num : ℚ)
      _ < 2 ^ ((num.log2 : Int) + 1) := high num
      _ = 2 ^ ((num.log2 : Int) - den.log2 + 1) * 2 ^ (den.log2 : Int) := by
        rw [← zpow_add₀ (by norm_num)]
        congr 1
        omega
      _ ≤ 2 ^ ((num.log2 : Int) - den.log2 + 1) * den := by
        gcongr
        exact low den positive.ne'

theorem hasExponent_ratioExponent {num den : Nat} (nonzero : num ≠ 0) (positive : 0 < den) :
    HasExponent (num / den) (ratioExponent num den) := by
  obtain ⟨low, high⟩ := ratio_bracket nonzero positive
  have grow {e f : Int} (le : e ≤ f) : (2 : ℚ) ^ e ≤ 2 ^ f := zpow_le_zpow_right₀ (by norm_num) le
  -- the guess or its successor gives 53 digits before the lowest exponent is looked at
  have found : ∃ e, ratioExponent num den = max e lowestExponent ∧
      (num : ℚ) / den < 2 ^ (53 + e) ∧ 2 ^ (52 + e) ≤ (num : ℚ) / den := by
    unfold ratioExponent
    dsimp only
    generalize isGuess : (num.log2 : Int) - den.log2 - 53 = guess
    obtain ⟨denPositive, scaled⟩ := scaleRatio_spec num positive guess
    have fits : (scaleRatio num den guess).1 / (scaleRatio num den guess).2 < Nat.pow 2 53 ↔
        (num : ℚ) / den < 2 ^ (53 + guess) := by
      have power : (0 : ℚ) < 2 ^ guess := zpow_pos (by norm_num) _
      have dens : (0 : ℚ) < (scaleRatio num den guess).2 := by exact_mod_cast denPositive
      rw [Nat.div_lt_iff_lt_mul denPositive, zpow_add₀ (by norm_num), ← div_lt_iff₀ power, ← scaled,
        div_lt_iff₀ dens]
      norm_cast
    split
    next few =>
      refine ⟨guess, rfl, fits.mp few, ?_⟩
      rw [show 52 + guess = (num.log2 : Int) - den.log2 - 1 by omega]
      exact low.le
    next many =>
      refine ⟨guess + 1, rfl, high.trans_le (grow (by omega)), ?_⟩
      rw [show 52 + (guess + 1) = 53 + guess by omega]
      exact not_lt.mp (fits.not.mp many)
  obtain ⟨e, isMax, below, above⟩ := found
  rw [isMax]
  refine ⟨le_max_right .., below.trans_le (grow (by omega)), ?_⟩
  rcases le_total e lowestExponent with small | large
  · exact .inl (max_eq_right small)
  · rw [max_eq_left large]
    exact .inr above

/-! ## Rounded ratios -/

/-- The value of a finite double. -/
def value? : Binary64 → Option ℚ
  | .finite negative significand exponent =>
    some ((if negative then -1 else 1) * (significand * 2 ^ exponent))
  | _ => none

/-- A double that a number has been rounded to; only a number past all doubles gives an infinity. -/
def IsRounding (x : Binary64) (q : ℚ) : Prop :=
  (∃ v, x.value? = some v ∧ |v - q| ≤ |q| / 2 ^ 53 + 2 ^ (-1075 : Int)) ∨
    (∃ negative, x = .infinity negative) ∧ 2 ^ 1023 ≤ |q|

/-- The exponents of equal ratios are equal, and so are their roundings. -/
theorem ofRatio_congr (negative : Bool) {num den num' den' : Nat} (positive : 0 < den)
    (positive' : 0 < den') (same : num * den' = num' * den) :
    ofRatio negative num den = ofRatio negative num' den' := by
  by_cases zero : num = 0
  · have zero' : num' = 0 := by
      rw [zero, Nat.zero_mul, eq_comm, Nat.mul_eq_zero] at same
      omega
    rw [ofRatio, ofRatio, if_pos zero, if_pos zero']
  have nonzero' : num' ≠ 0 := by
    rintro rfl
    rw [Nat.zero_mul, Nat.mul_eq_zero] at same
    omega
  have ratio : (num : ℚ) / den = num' / den' := by
    rw [div_eq_div_iff (by exact_mod_cast positive.ne') (by exact_mod_cast positive'.ne')]
    exact_mod_cast same
  have exponent : ratioExponent num den = ratioExponent num' den' := by
    have first := hasExponent_ratioExponent zero positive
    rw [ratio] at first
    exact first.unique (hasExponent_ratioExponent nonzero' positive')
  have rounded (e : Int) : roundQuotient (scaleRatio num den e).1 (scaleRatio num den e).2 =
      roundQuotient (scaleRatio num' den' e).1 (scaleRatio num' den' e).2 := by
    obtain ⟨first, scaled⟩ := scaleRatio_spec num positive e
    obtain ⟨second, scaled'⟩ := scaleRatio_spec num' positive' e
    refine roundQuotient_congr first second ?_
    rw [← ratio, ← scaled, div_eq_div_iff (by exact_mod_cast second.ne')
      (by exact_mod_cast first.ne')] at scaled'
    exact_mod_cast scaled'.symm
  rw [ofRatio, ofRatio, if_neg zero, if_neg nonzero', exponent]
  dsimp only
  rw [rounded]

theorem ofIntRatio_congr {num num' : Int} {den den' : Nat} (positive : 0 < den)
    (positive' : 0 < den') (same : num * den' = num' * den) :
    ofIntRatio num den = ofIntRatio num' den' := by
  have dens : (0 : Int) < den := by exact_mod_cast positive
  have dens' : (0 : Int) < den' := by exact_mod_cast positive'
  have sign : num < 0 ↔ num' < 0 := by
    rw [← not_le, ← not_le, ← mul_nonneg_iff_of_pos_right dens', same,
      mul_nonneg_iff_of_pos_right dens]
  have magnitudes : num.natAbs * den' = num'.natAbs * den := by
    simpa [Int.natAbs_mul] using congrArg Int.natAbs same
  rw [ofIntRatio, ofIntRatio, decide_eq_decide.mpr sign]
  exact ofRatio_congr _ positive positive' magnitudes

/-- On the grid of its exponent a ratio is off by at most half a step. -/
theorem HasExponent.near {q m : ℚ} {e : Int} (grid : HasExponent q e) (nonneg : 0 ≤ q)
    (nearest : |m - q / 2 ^ e| ≤ 1 / 2) : |m * 2 ^ e - q| ≤ q / 2 ^ 53 + 2 ^ (-1075 : Int) := by
  have power : (0 : ℚ) < 2 ^ e := zpow_pos (by norm_num) _
  have step : |m * 2 ^ e - q| ≤ 2 ^ e / 2 := by
    have same : m * 2 ^ e - q = (m - q / 2 ^ e) * 2 ^ e := by
      rw [sub_mul, div_mul_cancel₀ _ power.ne']
    rw [same, abs_mul, abs_of_pos power]
    linarith [mul_le_mul_of_nonneg_right nearest power.le]
  refine step.trans ?_
  rcases grid.2.2 with lowest | large
  · have least : (2 : ℚ) ^ e / 2 = 2 ^ (-1075 : Int) := by
      rw [lowest, lowestExponent, show (-1075 : Int) = -1074 - 1 from rfl,
        zpow_sub_one₀ (by norm_num), div_eq_mul_inv]
    rw [least]
    linarith [show 0 ≤ q / 2 ^ 53 by positivity]
  · have share : (2 : ℚ) ^ e / 2 ≤ q / 2 ^ 53 := by
      rw [zpow_add₀ (by norm_num)] at large
      have digits : (2 : ℚ) ^ (52 : Int) = 2 ^ 53 / 2 := by norm_num
      rw [digits] at large
      rw [le_div_iff₀ (by positivity)]
      linarith
    linarith [show (0 : ℚ) ≤ 2 ^ (-1075 : Int) by positivity]

/-- A number whose last digits are past the highest ones is past nearly all doubles. -/
theorem HasExponent.high {q : ℚ} {e : Int} (grid : HasExponent q e) (high : highestExponent ≤ e) :
    2 ^ 1023 ≤ q := by
  unfold highestExponent at high
  rcases grid.2.2 with lowest | large
  · unfold lowestExponent at lowest
    omega
  · refine le_trans ?_ large
    rw [← zpow_natCast]
    exact zpow_le_zpow_right₀ (by norm_num) (by push_cast; omega)

/-- A carried digit changes the form of a double but not its value. -/
theorem value_carried (m : Nat) (e : Int) :
    ((if m = Nat.pow 2 53 then Nat.pow 2 52 else m : Nat) : ℚ) *
      2 ^ (if m = Nat.pow 2 53 then e + 1 else e) = m * 2 ^ e := by
  by_cases carried : m = Nat.pow 2 53
  · rw [if_pos carried, if_pos carried, carried, zpow_add₀ (by norm_num)]
    norm_num
    ring
  · rw [if_neg carried, if_neg carried]

theorem isRounding_ofRatio (negative : Bool) (num : Nat) {den : Nat} (positive : 0 < den) :
    (ofRatio negative num den).IsRounding ((if negative then -1 else 1) * (num / den)) := by
  have sign (q : ℚ) : |(if negative then -1 else 1) * q| = |q| := by
    cases negative <;> simp
  by_cases zero : num = 0
  · refine .inl ⟨0, ?_, ?_⟩
    · rw [ofRatio, if_pos zero]
      simp [Binary64.zero, value?]
    · rw [zero]
      simp only [CharP.cast_eq_zero, zero_div, mul_zero, sub_zero, abs_zero, zero_add]
      positivity
  have nonneg : (0 : ℚ) ≤ num / den := by positivity
  have grid := hasExponent_ratioExponent zero positive
  rw [ofRatio, if_neg zero]
  dsimp only
  generalize ratioExponent num den = e at grid
  obtain ⟨denPositive, scaled⟩ := scaleRatio_spec num positive e
  have nearest := roundQuotient_near (scaleRatio num den e).1 denPositive
  rw [scaled] at nearest
  generalize roundQuotient (scaleRatio num den e).1 (scaleRatio num den e).2 = m at nearest
  by_cases past : highestExponent < if m = Nat.pow 2 53 then e + 1 else e
  · have high : highestExponent ≤ e := by split at past <;> omega
    right
    rw [if_pos past, sign, abs_of_nonneg nonneg]
    exact ⟨⟨negative, rfl⟩, grid.high high⟩
  · left
    rw [if_neg past]
    refine ⟨_, rfl, ?_⟩
    rw [value_carried, ← mul_sub, sign, sign, abs_of_nonneg nonneg]
    exact grid.near nonneg nearest

theorem isRounding_ofIntRatio (num : Int) {den : Nat} (positive : 0 < den) :
    (ofIntRatio num den).IsRounding (num / den) := by
  have rounds := isRounding_ofRatio (num < 0) num.natAbs positive
  have signed : (if decide (num < 0) = true then (-1 : ℚ) else 1) * (num.natAbs / den) =
      num / den := by
    rw [Nat.cast_natAbs]
    by_cases negative : num < 0
    · rw [if_pos (decide_eq_true negative), abs_of_neg negative]
      push_cast
      ring
    · rw [if_neg (by simpa using negative), abs_of_nonneg (not_lt.mp negative), one_mul]
  rwa [signed] at rounds

/-! ## Operations -/

theorem magnitude_spec (significand : Nat) (exponent : Int) :
    0 < (magnitude significand exponent).2 ∧
      ((magnitude significand exponent).1 : ℚ) / (magnitude significand exponent).2 =
        significand * 2 ^ exponent := by
  unfold magnitude
  split
  next nonneg =>
    obtain ⟨n, rfl⟩ := Int.eq_ofNat_of_zero_le nonneg
    exact ⟨Nat.one_pos, by simp⟩
  next negative =>
    obtain ⟨n, isNegative⟩ := Int.eq_ofNat_of_zero_le (show 0 ≤ -exponent by omega)
    obtain rfl : exponent = -(n : Int) := by omega
    exact ⟨Nat.two_pow_pos _, by simp [div_eq_mul_inv]⟩

theorem exists_finite {x : Binary64} {v : ℚ} (isValue : x.value? = some v) :
    ∃ negative significand exponent, x = .finite negative significand exponent ∧
      v = (if negative then -1 else 1) * (significand * 2 ^ exponent) := by
  cases x with
  | finite negative significand exponent =>
    exact ⟨negative, significand, exponent, rfl, (Option.some.inj isValue).symm⟩
  | infinity negative => cases isValue
  | nan => cases isValue

theorem ratio?_spec {x : Binary64} {v : ℚ} (isValue : x.value? = some v) :
    ∃ num den, x.ratio? = some (num, den) ∧ 0 < den ∧ v = num / den := by
  obtain ⟨negative, significand, exponent, rfl, rfl⟩ := exists_finite isValue
  obtain ⟨positive, same⟩ := magnitude_spec significand exponent
  refine ⟨if negative then -((magnitude significand exponent).1 : Int)
    else (magnitude significand exponent).1, (magnitude significand exponent).2, rfl, positive, ?_⟩
  rw [← same]
  cases negative <;> simp [neg_div]

theorem floor?_of_value? {x : Binary64} {v : ℚ} (isValue : x.value? = some v) :
    x.floor? = some ⌊v⌋ := by
  obtain ⟨num, den, isRatio, positive, rfl⟩ := ratio?_spec isValue
  have quotient : num.fdiv den = ⌊(num : ℚ) / den⌋ := by
    rw [Rat.floor_intCast_div_natCast, Int.fdiv_eq_ediv_of_nonneg _ (Int.natCast_nonneg _)]
  rw [floor?, isRatio, ← quotient]
  rfl

theorem isRounding_mul {x y : Binary64} {v w : ℚ} (isX : x.value? = some v)
    (isY : y.value? = some w) : (x.mul y).IsRounding (v * w) := by
  obtain ⟨s, m, e, rfl, rfl⟩ := exists_finite isX
  obtain ⟨t, n, f, rfl, rfl⟩ := exists_finite isY
  obtain ⟨positiveX, sameX⟩ := magnitude_spec m e
  obtain ⟨positiveY, sameY⟩ := magnitude_spec n f
  have rounds := isRounding_ofRatio (s != t) ((magnitude m e).1 * (magnitude n f).1)
    (Nat.mul_pos positiveX positiveY)
  have product : (if (s != t) = true then (-1 : ℚ) else 1) *
        (((magnitude m e).1 * (magnitude n f).1 : Nat) /
          ((magnitude m e).2 * (magnitude n f).2 : Nat)) =
      (if s = true then -1 else 1) * (m * 2 ^ e) *
        ((if t = true then -1 else 1) * (n * 2 ^ f)) := by
    rw [← sameX, ← sameY, Nat.cast_mul, Nat.cast_mul, ← div_mul_div_comm]
    cases s <;> cases t <;> simp
  rw [product] at rounds
  exact rounds

theorem isRounding_add {x y : Binary64} {v w : ℚ} (isX : x.value? = some v)
    (isY : y.value? = some w) : (x.add y).IsRounding (v + w) := by
  obtain ⟨s, m, e, rfl, -⟩ := exists_finite isX
  obtain ⟨t, n, f, rfl, -⟩ := exists_finite isY
  obtain ⟨a, b, ratioX, positiveX, rfl⟩ := ratio?_spec isX
  obtain ⟨c, d, ratioY, positiveY, rfl⟩ := ratio?_spec isY
  have bs : (b : ℚ) ≠ 0 := by exact_mod_cast positiveX.ne'
  have ds : (d : ℚ) ≠ 0 := by exact_mod_cast positiveY.ne'
  have sum : ((a * d + c * b : Int) : ℚ) / (b * d : Nat) = a / b + c / d := by
    rw [div_add_div _ _ bs ds]
    push_cast
    ring
  rw [add]
  simp only [ratioX, ratioY]
  split
  next none =>
    refine .inl ⟨0, by simp [Binary64.zero, value?], ?_⟩
    rw [← sum, none]
    simp only [Int.cast_zero, zero_div, sub_zero, abs_zero, zero_add]
    positivity
  · rw [← sum]
    exact isRounding_ofIntRatio _ (Nat.mul_pos positiveX positiveY)

end StaticSite.Binary64
