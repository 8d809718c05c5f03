import Mathlib.Algebra.Order.Ring.Nat
import Mathlib.Tactic.Ring
import StaticSite.Asset.Manifest

/-!
# Saved shares

A share of a size that has not grown can always be computed, though it is computed in doubles: a
rounded quotient does not pass a bound that is a double itself, and no bound on the way is a large
one.
-/

namespace StaticSite

namespace Binary64

/-- A double that is not negative and at most `p / q`. -/
def AtMost (x : Binary64) (p q : Nat) : Prop :=
  ∃ significand fraction : Nat, x = .finite false significand (-(fraction : Int)) ∧ 0 < fraction ∧
    significand * q ≤ p * 2 ^ fraction

/-- Rounding a quotient does not pass an integer. -/
theorem roundQuotient_le {num den bound : Nat} (positive : 0 < den) (le : num ≤ bound * den) :
    roundQuotient num den ≤ bound := by
  have quotient : num / den ≤ bound := Nat.div_le_of_le_mul (by rwa [Nat.mul_comm])
  have split := Nat.div_add_mod num den
  unfold roundQuotient
  dsimp only
  split
  · exact quotient
  next up =>
    -- at the bound itself nothing remains to round up
    rcases Nat.lt_or_ge (num / den) bound with less | atBound
    · exact less
    · have atBound : num / den = bound := Nat.le_antisymm quotient atBound
      have nothing : num % den = 0 := by
        rw [atBound, Nat.mul_comm] at split
        omega
      rw [nothing] at up
      simp [positive] at up

theorem ratioExponent_le {num den k : Nat} (nonzero : num ≠ 0) (le : num ≤ den * 2 ^ k)
    (small : k ≤ 50) : ratioExponent num den ≤ (k : Int) - 52 := by
  have upper : num < 2 ^ (den.log2 + 1 + k) :=
    calc num
      _ ≤ den * 2 ^ k := le
      _ < 2 ^ (den.log2 + 1) * 2 ^ k :=
        Nat.mul_lt_mul_of_pos_right Nat.lt_log2_self (Nat.two_pow_pos k)
      _ = 2 ^ (den.log2 + 1 + k) := (Nat.pow_add 2 _ _).symm
  have logs : num.log2 < den.log2 + 1 + k := (Nat.log2_lt nonzero).mpr upper
  unfold ratioExponent lowestExponent
  dsimp only
  split <;> omega

/-- A rounded ratio does not pass a bound of few binary places. -/
theorem ofRatio_atMost {num den p j k : Nat} (positive : 0 < den) (le : num ≤ den * 2 ^ k)
    (small : k + j ≤ 50) (bounded : num * 2 ^ j ≤ p * den) :
    (ofRatio false num den).AtMost p (2 ^ j) := by
  by_cases nonzero : num = 0
  · refine ⟨0, 1074, ?_, by decide, (Nat.zero_mul _).trans_le (Nat.zero_le _)⟩
    rw [ofRatio, if_pos nonzero]
    rfl
  have exponent := ratioExponent_le nonzero le (Nat.le_trans (Nat.le_add_right k j) small)
  obtain ⟨fraction, isFraction⟩ : ∃ fraction : Nat, ratioExponent num den = -(fraction : Int) :=
    ⟨(-ratioExponent num den).toNat, by omega⟩
  have scaled : scaleRatio num den (-(fraction : Int)) = (num * 2 ^ fraction, den) := by
    have negative : ¬ (0 : Int) ≤ -(fraction : Int) := by omega
    rw [scaleRatio, if_neg negative, Int.neg_neg, Int.toNat_natCast]
    rfl
  have room : fraction = (fraction - j) + j := by omega
  have rounded : roundQuotient (num * 2 ^ fraction) den ≤ p * 2 ^ (fraction - j) := by
    refine roundQuotient_le positive ?_
    calc num * 2 ^ fraction
      _ = num * 2 ^ j * 2 ^ (fraction - j) := by
        rw [Nat.mul_assoc, ← Nat.pow_add, Nat.add_comm j, ← room]
      _ ≤ p * den * 2 ^ (fraction - j) := Nat.mul_le_mul_right _ bounded
      _ = p * 2 ^ (fraction - j) * den := by ring
  have significand : roundQuotient (num * 2 ^ fraction) den * 2 ^ j ≤ p * 2 ^ fraction :=
    calc roundQuotient (num * 2 ^ fraction) den * 2 ^ j
      _ ≤ p * 2 ^ (fraction - j) * 2 ^ j := Nat.mul_le_mul_right _ rounded
      _ = p * 2 ^ fraction := by rw [Nat.mul_assoc, ← Nat.pow_add, ← room]
  have high (e : Int) (negative : e ≤ 0) : ¬ highestExponent < e := by
    unfold highestExponent
    omega
  rw [ofRatio, if_neg nonzero, isFraction]
  dsimp only
  rw [scaled]
  dsimp only
  by_cases carried : roundQuotient (num * 2 ^ fraction) den = Nat.pow 2 53
  · rw [if_pos carried, if_pos carried, if_neg (high _ (by omega))]
    refine ⟨2 ^ 52, fraction - 1, by congr 1; omega, by omega, ?_⟩
    have half : 2 ^ fraction = 2 * 2 ^ (fraction - 1) := by
      rw [← Nat.pow_succ', show (fraction - 1).succ = fraction by omega]
    rw [carried, half] at significand
    have full : (Nat.pow 2 53) * 2 ^ j = 2 * (2 ^ 52 * 2 ^ j) := by
      rw [show Nat.pow 2 53 = 2 * 2 ^ 52 from rfl, Nat.mul_assoc]
    have twice : p * (2 * 2 ^ (fraction - 1)) = 2 * (p * 2 ^ (fraction - 1)) := by ring
    omega
  · rw [if_neg carried, if_neg carried, if_neg (high _ (by omega))]
    exact ⟨_, fraction, rfl, by omega, significand⟩

theorem magnitude_of_neg {significand fraction : Nat} (positive : 0 < fraction) :
    magnitude significand (-(fraction : Int)) = (significand, 2 ^ fraction) := by
  have negative : ¬ (0 : Int) ≤ -(fraction : Int) := by omega
  rw [magnitude, if_neg negative, Int.neg_neg, Int.toNat_natCast]
  rfl

theorem ratio?_of_neg {significand fraction : Nat} (positive : 0 < fraction) :
    ratio? (.finite false significand (-(fraction : Int))) =
      some ((significand : Int), 2 ^ fraction) := by
  rw [ratio?, magnitude_of_neg positive]
  rfl

theorem two_pow_mul_pos (e f : Nat) : 0 < 2 ^ e * 2 ^ f :=
  Nat.mul_pos (Nat.two_pow_pos e) (Nat.two_pow_pos f)

theorem AtMost.mul {x y : Binary64} {p q : Nat} (boundX : x.AtMost p 1) (boundY : y.AtMost q 1)
    (small : p * q ≤ 2 ^ 50) : (x.mul y).AtMost (p * q) 1 := by
  obtain ⟨m, e, rfl, positiveX, leX⟩ := boundX
  obtain ⟨n, f, rfl, positiveY, leY⟩ := boundY
  have product : m * n ≤ p * q * (2 ^ e * 2 ^ f) :=
    calc m * n
      _ ≤ (p * 2 ^ e) * (q * 2 ^ f) := Nat.mul_le_mul (by simpa using leX) (by simpa using leY)
      _ = p * q * (2 ^ e * 2 ^ f) := by ring
  rw [Binary64.mul]
  simp only [isNegative, bne_self_eq_false, magnitude_of_neg positiveX, magnitude_of_neg positiveY]
  have below : m * n ≤ 2 ^ e * 2 ^ f * 2 ^ 50 := by
    rw [Nat.mul_comm _ (2 ^ 50)]
    exact product.trans (Nat.mul_le_mul_right _ small)
  exact ofRatio_atMost (j := 0) (two_pow_mul_pos e f) below (by decide) (by simpa using product)

theorem AtMost.expand {x : Binary64} {p q : Nat} (bound : x.AtMost p q) (factor : Nat) :
    x.AtMost (p * factor) (q * factor) := by
  obtain ⟨m, e, isFinite, positive, le⟩ := bound
  refine ⟨m, e, isFinite, positive, ?_⟩
  calc m * (q * factor)
    _ = m * q * factor := (Nat.mul_assoc ..).symm
    _ ≤ p * 2 ^ e * factor := Nat.mul_le_mul_right _ le
    _ = p * factor * 2 ^ e := Nat.mul_right_comm ..

theorem AtMost.add {x y : Binary64} {p q : Nat} (boundX : x.AtMost p 2) (boundY : y.AtMost q 2)
    (small : p + q ≤ 2 ^ 49) : (x.add y).AtMost (p + q) 2 := by
  obtain ⟨m, e, rfl, positiveX, leX⟩ := boundX
  obtain ⟨n, f, rfl, positiveY, leY⟩ := boundY
  let total := m * 2 ^ f + n * 2 ^ e
  have twice : total * 2 ≤ (p + q) * (2 ^ e * 2 ^ f) :=
    calc (m * 2 ^ f + n * 2 ^ e) * 2
      _ = m * 2 * 2 ^ f + n * 2 * 2 ^ e := by ring
      _ ≤ p * 2 ^ e * 2 ^ f + q * 2 ^ f * 2 ^ e :=
        Nat.add_le_add (Nat.mul_le_mul_right _ leX) (Nat.mul_le_mul_right _ leY)
      _ = (p + q) * (2 ^ e * 2 ^ f) := by ring
  have cast : (m : Int) * (2 ^ f : Nat) + n * (2 ^ e : Nat) = (total : Int) := by
    push_cast [total]
    ring
  rw [Binary64.add]
  simp only [ratio?_of_neg positiveX, ratio?_of_neg positiveY, cast]
  split
  · exact ⟨0, 1074, rfl, by decide, (Nat.zero_mul _).trans_le (Nat.zero_le _)⟩
  · have below : total ≤ 2 ^ e * 2 ^ f * 2 ^ 49 := by
      have scaled := Nat.mul_le_mul_right (2 ^ e * 2 ^ f) small
      rw [Nat.mul_comm _ (2 ^ 49)]
      omega
    rw [ofIntRatio, decide_eq_false (Int.not_lt.mpr (Int.natCast_nonneg total)),
      Int.natAbs_natCast]
    exact ofRatio_atMost (j := 1) (two_pow_mul_pos e f) below (by decide) (by simpa using twice)

theorem AtMost.floor? {x : Binary64} {p q : Nat} (bound : x.AtMost p q) (positive : 0 < q) :
    ∃ floor : Int, x.floor? = some floor ∧ 0 ≤ floor ∧ floor ≤ p / q := by
  obtain ⟨m, e, rfl, fraction, le⟩ := bound
  refine ⟨(m / 2 ^ e : Nat), ?_, Int.natCast_nonneg _, ?_⟩
  · rw [Binary64.floor?, ratio?_of_neg fraction, Option.map_some]
    exact congrArg some (Int.fdiv_eq_ediv_of_nonneg _ (Int.natCast_nonneg _))
  · have quotient : m / 2 ^ e ≤ p / q := by
      rw [Nat.le_div_iff_mul_le positive]
      refine Nat.le_of_mul_le_mul_right ?_ (Nat.two_pow_pos e)
      calc m / 2 ^ e * q * 2 ^ e
        _ = m / 2 ^ e * 2 ^ e * q := by ring
        _ ≤ m * q := Nat.mul_le_mul_right _ (Nat.div_mul_le_self m _)
        _ ≤ p * 2 ^ e := le
    exact_mod_cast quotient

end Binary64

/-- A share of a whole is computed without overflow. -/
theorem exists_quotient {part whole : Int} (nonneg : 0 ≤ part) (le : part ≤ whole)
    (positive : 0 < whole) :
    ∃ ratio, quotient part whole.toNat = .ok ratio ∧ ratio.AtMost 1 1 := by
  have below : part.natAbs ≤ whole.toNat := by omega
  have share : (Binary64.ofIntRatio part whole.toNat).AtMost 1 1 := by
    rw [Binary64.ofIntRatio, decide_eq_false (Int.not_lt.mpr nonneg)]
    exact Binary64.ofRatio_atMost (k := 0) (j := 0) (by omega) (by simpa using below) (by decide)
      (by simpa using below)
  refine ⟨_, ?_, share⟩
  obtain ⟨significand, fraction, isFinite, -, -⟩ := share
  rw [quotient, isFinite]

/-- A size that has not grown has saved between none and all of itself. -/
theorem exists_percentSaved {before after : Int} (nonneg : 0 ≤ after) (le : after ≤ before) :
    ∃ percent, percentSaved before after = .ok percent ∧ 0 ≤ percent ∧ percent ≤ 100 := by
  by_cases nothing : before ≤ 0
  · exact ⟨0, by rw [percentSaved, if_pos nothing], by decide, by decide⟩
  obtain ⟨ratio, isRatio, share⟩ := exists_quotient
    (show 0 ≤ before - after by omega) (show before - after ≤ before by omega) (by omega)
  have hundred : (Binary64.ofInt 100).AtMost 100 1 := ⟨100 * 2 ^ 46, 46, rfl, by decide, by decide⟩
  have half : (Binary64.ofRatio false 1 2).AtMost 1 2 := ⟨2 ^ 52, 53, rfl, by decide, by decide⟩
  have percent : (ratio.mul (.ofInt 100)).AtMost (1 * 100) 1 := share.mul hundred (by decide)
  obtain ⟨floor, isFloor, notNegative, atMost⟩ :=
    ((percent.expand 2).add half (by decide)).floor? (by decide)
  refine ⟨floor, ?_, notNegative, atMost.trans (by decide)⟩
  rw [percentSaved, if_neg nothing, isRatio]
  simp only [bind, Except.bind]
  rw [isFloor]
  rfl

end StaticSite
