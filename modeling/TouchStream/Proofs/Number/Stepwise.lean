import TouchStream.Number.Stepwise
import TouchStream.Proofs.Number.Numeral
import TouchStream.Proofs.Number.Value

/-!
# How far reading in steps goes

A numeral whose digits a 64-bit integer holds is read with two roundings, that of a power of ten and that of the
product or quotient. The result misses the number by little more than its `2 ^ -52` (`Double.inSteps_error`), and
only the last rounding remains where the power of ten is held exactly (`Double.inSteps_exact`).
-/

namespace TouchStream

/-! ## Digits that fit -/

theorem digitsValue_cons (c : Char) (cs : List Char) :
    digitsValue (c :: cs) = digitValue c * 10 ^ cs.length + digitsValue cs := by
  have h := digitsValue_append [c] cs
  rw [List.singleton_append] at h
  rw [h]
  simp [digitsValue]

theorem appendDigits_fits {n : ℕ} {ds : List Char} (h : n * 10 ^ ds.length + digitsValue ds ≤ wordLimit) :
    appendDigits n ds = (n * 10 ^ ds.length + digitsValue ds, []) := by
  induction ds generalizing n with
  | nil => simp [appendDigits, digitsValue]
  | cons c cs ih =>
    have hvalue : n * 10 ^ (c :: cs).length + digitsValue (c :: cs)
        = (10 * n + digitValue c) * 10 ^ cs.length + digitsValue cs := by
      rw [digitsValue_cons, List.length_cons, pow_succ]
      ring
    rw [hvalue] at h ⊢
    have hnext : 10 * n + digitValue c ≤ wordLimit := by
      have := Nat.le_mul_of_pos_right (10 * n + digitValue c) (Nat.pow_pos (n := cs.length) (by norm_num : 0 < 10))
      omega
    rw [appendDigits, if_pos hnext, ih h]

/-- Nothing is left out of digits that fit. -/
theorem Numeral.shortened_eq {n : Numeral} (h : n.decimal.digits ≤ wordLimit) : n.shortened = n.decimal := by
  have hvalue : digitsValue n.whole * 10 ^ n.fraction.length + digitsValue n.fraction ≤ wordLimit := by
    rwa [← digitsValue_append]
  have hwhole : 0 * 10 ^ n.whole.length + digitsValue n.whole ≤ wordLimit := by
    have := Nat.le_mul_of_pos_right (digitsValue n.whole)
      (Nat.pow_pos (n := n.fraction.length) (by norm_num : 0 < 10))
    omega
  rw [shortened, appendDigits_fits hwhole]
  dsimp only
  rw [zero_mul, zero_add, appendDigits_fits hvalue, decimal, digitsValue_append]
  simp

namespace Double

open BinaryFormat

/-! ## Scaling -/

/-- The 64-bit value nearest to a power of ten. -/
def roundedPower (k : ℕ) : ℚ := double.value (double.tenPower k)

theorem tenPower_eq (k : ℕ) : double.tenPower k = double.rankOf ((10 : ℚ) ^ k) := by
  rw [tenPower, nearestRank_eq_rankOf double _ one_pos, Nat.pow_eq]
  push_cast
  rw [div_one]

theorem product_eq (f : BinaryFormat) (m n : ℕ) : f.product m n = f.rankOf (f.value m * f.value n) := by
  rw [product, nearestRank_eq_rankOf f _ (Nat.mul_pos (f.ratio_den_pos m) (f.ratio_den_pos n)),
    ← ratio_eq_value, ← ratio_eq_value]
  push_cast
  rw [div_mul_div_comm]

theorem quotient_eq (f : BinaryFormat) (m : ℕ) {n : ℕ} (hn : 0 < n) :
    f.quotient m n = f.rankOf (f.value m / f.value n) := by
  have hnum : 0 < (f.ratio n).1 := by
    have h := value_pos (f := f) hn
    rw [← ratio_eq_value] at h
    by_contra h0
    rw [Nat.eq_zero_of_not_pos h0, Nat.cast_zero, zero_div] at h
    exact lt_irrefl _ h
  rw [quotient, nearestRank_eq_rankOf f _ (Nat.mul_pos (f.ratio_den_pos m) hnum), ← ratio_eq_value,
    ← ratio_eq_value]
  push_cast
  rw [div_div_div_eq]

variable {a : ℕ} {k : ℤ}

theorem roundedPower_error {k : ℕ} (hk : k ≤ 300) :
    0 < double.tenPower k ∧
      |(10 : ℚ) ^ k - roundedPower k| ≤ (10 : ℚ) ^ k * (2 : ℚ) ^ (-53 : ℤ) := by
  have hlow : (2 : ℚ) ^ (-1000 : ℤ) ≤ 10 ^ k := by
    calc (2 : ℚ) ^ (-1000 : ℤ) ≤ 1 := zpow_le_one_of_nonpos₀ (by norm_num) (by norm_num)
      _ ≤ 10 ^ k := one_le_pow₀ (by norm_num)
  have hhigh : (10 : ℚ) ^ k < 2 ^ (1000 : ℤ) := by
    calc (10 : ℚ) ^ k ≤ 10 ^ (3 * 100) := pow_le_pow_right₀ (by norm_num) hk
      _ = (10 ^ 3) ^ 100 := pow_mul _ _ _
      _ < (2 ^ 10) ^ 100 := pow_lt_pow_left₀ (by norm_num) (by norm_num) (by norm_num)
      _ = 2 ^ (1000 : ℤ) := by rw [← pow_mul, ← zpow_natCast]; rfl
  obtain ⟨-, herror⟩ := rankOf_double_error hlow hhigh
  rw [roundedPower, tenPower_eq]
  refine ⟨?_, herror⟩
  by_contra h0
  rw [Nat.eq_zero_of_not_pos h0, value_zero, sub_zero, abs_of_pos (by positivity)] at herror
  have hpos : (0 : ℚ) < 10 ^ k := by positivity
  have : (2 : ℚ) ^ (-53 : ℤ) < 1 := by norm_num
  nlinarith

theorem roundedPower_exact {k : ℕ} (hk : k ≤ 22) : roundedPower k = (10 : ℚ) ^ k := by
  have hpow : (10 : ℚ) ^ k = (5 ^ k : ℕ) * 2 ^ (k : ℤ) := by
    rw [zpow_natCast, Nat.cast_pow, ← mul_pow]
    norm_num
  have hfits : 5 ^ k < 2 ^ 53 := by
    calc 5 ^ k ≤ 5 ^ 22 := Nat.pow_le_pow_right (by norm_num) hk
      _ < 2 ^ 53 := by norm_num
  rw [roundedPower, tenPower_eq, hpow]
  exact (rankOf_double_exact hfits (by omega) (by omega)).2

/-- A number scaled by a rounded power of ten. -/
def scaled (a : ℕ) (k : ℤ) : ℚ :=
  if 0 ≤ k then a * roundedPower k.natAbs else a / roundedPower k.natAbs

/-- Scaling by a power of ten that is not too large is one rounded product or quotient. -/
theorem scaleRank_eq (ha : 0 < a) (ha' : a < 2 ^ 53) (hk : k.natAbs ≤ 300) :
    scaleRank (double.nearestRank a 1) k = double.rankOf (scaled a k) := by
  have hvalue : double.value (double.nearestRank a 1) = a := by
    have h := (rankOf_double_exact (j := 0) ha' (by norm_num) (by norm_num)).2
    rw [zpow_zero, mul_one] at h
    rw [nearestRank_eq_rankOf double a one_pos, Nat.cast_one, div_one, h]
  have hne : double.nearestRank a 1 ≠ 0 := by
    intro h
    rw [h, value_zero] at hvalue
    exact ha.ne (by exact_mod_cast hvalue)
  rw [scaleRank, if_neg hne, scaled]
  split
  · rename_i hpos
    rw [if_neg (by rw [topPower]; omega), product_eq, hvalue, roundedPower,
      show k.toNat = k.natAbs by omega]
  · rename_i hneg
    have htimes : ((-k).toNat - 1) / topPower = 0 := Nat.div_eq_of_lt (by rw [topPower]; omega)
    dsimp only
    rw [htimes, lowerRank, Nat.zero_mul, Nat.sub_zero, show (-k).toNat = k.natAbs by omega,
      quotient_eq double _ (roundedPower_error hk).1, hvalue, roundedPower]

theorem scaled_pos (ha : 0 < a) (hk : k.natAbs ≤ 300) : 0 < scaled a k := by
  have hpower : 0 < roundedPower k.natAbs := value_pos (roundedPower_error hk).1
  have haq : (0 : ℚ) < a := by exact_mod_cast ha
  rw [scaled]
  split <;> positivity

/-- The rounding of the power of ten alone. -/
theorem scaled_error (hk : k.natAbs ≤ 300) :
    |a * (10 : ℚ) ^ k - scaled a k| ≤ a * (10 : ℚ) ^ k * ((2 : ℚ) ^ (-53 : ℤ) * (1 + 2 * 2 ^ (-53 : ℤ))) := by
  obtain ⟨hpos, herror⟩ := roundedPower_error hk
  have hpower : 0 < roundedPower k.natAbs := value_pos hpos
  have hten : (0 : ℚ) < 10 ^ k.natAbs := by positivity
  have hu : (0 : ℚ) < 2 ^ (-53 : ℤ) := by positivity
  have hu' : (2 : ℚ) ^ (-53 : ℤ) ≤ 1 / 2 := by norm_num
  generalize (2 : ℚ) ^ (-53 : ℤ) = u at *
  have haq : (0 : ℚ) ≤ a := Nat.cast_nonneg a
  rw [scaled]
  split
  · rename_i hk
    have hexp : (10 : ℚ) ^ k = 10 ^ k.natAbs := by
      rw [← zpow_natCast, Int.natAbs_of_nonneg hk]
    rw [hexp, ← mul_sub, abs_mul, abs_of_nonneg haq, mul_assoc]
    refine mul_le_mul_of_nonneg_left (herror.trans ?_) haq
    exact mul_le_mul_of_nonneg_left (by nlinarith) hten.le
  · rename_i hk
    have hexp : (10 : ℚ) ^ k = 1 / 10 ^ k.natAbs := by
      rw [one_div, ← zpow_natCast, ← zpow_neg, show -((k.natAbs : ℕ) : ℤ) = k by omega]
    -- the two quotients differ by the error of the divisor, relative to a divisor hardly smaller
    have hdiff : a * (1 / (10 : ℚ) ^ k.natAbs) - a / roundedPower k.natAbs
        = a * (1 / (10 : ℚ) ^ k.natAbs) * ((roundedPower k.natAbs - 10 ^ k.natAbs) / roundedPower k.natAbs) := by
      field_simp
    have hnonneg : (0 : ℚ) ≤ a * (1 / (10 : ℚ) ^ k.natAbs) := by positivity
    rw [hexp, hdiff, abs_mul, abs_of_nonneg hnonneg]
    refine mul_le_mul_of_nonneg_left ?_ hnonneg
    rw [abs_div, abs_of_pos hpower, div_le_iff₀ hpower, abs_sub_comm]
    have hlow : (10 : ℚ) ^ k.natAbs * (1 - u) ≤ roundedPower k.natAbs := by
      have := (abs_le.mp herror).2
      linarith
    calc |(10 : ℚ) ^ k.natAbs - roundedPower k.natAbs| ≤ 10 ^ k.natAbs * u := herror
      _ ≤ 10 ^ k.natAbs * u * ((1 + 2 * u) * (1 - u)) :=
        le_mul_of_one_le_right (by positivity) (by nlinarith)
      _ = u * (1 + 2 * u) * (10 ^ k.natAbs * (1 - u)) := by ring
      _ ≤ u * (1 + 2 * u) * roundedPower k.natAbs := by gcongr

/-! ## Reading in steps -/

/-- Errors of two steps in turn. -/
theorem error_add {d s y c u : ℚ} (hu : 0 ≤ u) (hs : |d - s| ≤ d * c) (hy : |s - y| ≤ s * u) :
    |d - y| ≤ d * (c + (1 + c) * u) := by
  have hs' : s ≤ d * (1 + c) := by
    have := (abs_le.mp hs).1
    linarith
  calc |d - y| ≤ |d - s| + |s - y| := abs_sub_le d s y
    _ ≤ d * c + d * (1 + c) * u := add_le_add hs (hy.trans (mul_le_mul_of_nonneg_right hs' hu))
    _ = d * (c + (1 + c) * u) := by ring

/-- The error of reading in steps, relative to the number. -/
def stepError : ℚ := 4097 / 2 ^ 64

theorem inSteps_rank {n : Numeral} (hpos : 0 < n.decimal.digits) (hfits : n.decimal.digits < 2 ^ 53)
    (hexp : n.decimal.exponent.natAbs ≤ 300) :
    inSteps n = ⟨n.negative, double.rankOf (scaled n.decimal.digits n.decimal.exponent)⟩ := by
  have hword : n.decimal.digits ≤ wordLimit := hfits.le.trans (by decide)
  rw [inSteps, Numeral.shortened_eq hword, scaleRank_eq hpos hfits hexp]
  rfl

theorem zpow_bounds (hk : k.natAbs ≤ 100) : (2 : ℚ) ^ (-400 : ℤ) ≤ 10 ^ k ∧ (10 : ℚ) ^ k ≤ 2 ^ (400 : ℤ) := by
  have hten : (10 : ℚ) ^ (100 : ℤ) ≤ 2 ^ (400 : ℤ) := by
    calc (10 : ℚ) ^ (100 : ℤ) ≤ (2 ^ (4 : ℤ)) ^ (100 : ℤ) :=
          zpow_le_zpow_left₀ (by norm_num) (by norm_num) (by norm_num)
      _ = 2 ^ (400 : ℤ) := by rw [← zpow_mul]; rfl
  constructor
  · calc (2 : ℚ) ^ (-400 : ℤ) = (2 ^ (400 : ℤ))⁻¹ := zpow_neg _ _
      _ ≤ (10 ^ (100 : ℤ))⁻¹ := inv_anti₀ (by positivity) hten
      _ = 10 ^ (-100 : ℤ) := (zpow_neg _ _).symm
      _ ≤ 10 ^ k := zpow_le_zpow_right₀ (by norm_num) (by omega)
  · exact (zpow_le_zpow_right₀ (by norm_num) (by omega)).trans hten

theorem inSteps_error {n : Numeral} (hpos : 0 < n.decimal.digits) (hfits : n.decimal.digits < 2 ^ 53)
    (hexp : n.decimal.exponent.natAbs ≤ 100) :
    (inSteps n).rank < double.infinityRank ∧
      |n.decimal.magnitude - double.value (inSteps n).rank| ≤ n.decimal.magnitude * stepError := by
  have hscaled := scaled_error (a := n.decimal.digits) (k := n.decimal.exponent) (by omega)
  have hspos := scaled_pos hpos (k := n.decimal.exponent) (by omega)
  obtain ⟨hlow, hhigh⟩ := zpow_bounds hexp
  have hone : (1 : ℚ) ≤ n.decimal.digits := by exact_mod_cast hpos
  have hlarge : (n.decimal.digits : ℚ) ≤ 2 ^ (53 : ℤ) := by
    rw [show (53 : ℤ) = ((53 : ℕ) : ℤ) from rfl, zpow_natCast]
    exact_mod_cast hfits.le
  have hmlow : (2 : ℚ) ^ (-400 : ℤ) ≤ n.decimal.magnitude :=
    hlow.trans (le_mul_of_one_le_left (by positivity) hone)
  have hmhigh : n.decimal.magnitude ≤ 2 ^ (453 : ℤ) := by
    calc n.decimal.magnitude ≤ 2 ^ (53 : ℤ) * 2 ^ (400 : ℤ) := mul_le_mul hlarge hhigh (by positivity) (by positivity)
      _ = 2 ^ (453 : ℤ) := by rw [← zpow_add₀ (by norm_num)]; rfl
  have hmpos : 0 < n.decimal.magnitude := lt_of_lt_of_le (by positivity) hmlow
  rw [inSteps_rank hpos hfits (by omega)]
  rw [← Decimal.magnitude] at hscaled
  generalize scaled n.decimal.digits n.decimal.exponent = s at *
  generalize n.decimal.magnitude = d at *
  have hsum : (2 : ℚ) ^ (-53 : ℤ) * (1 + 2 * 2 ^ (-53 : ℤ)) +
      (1 + (2 : ℚ) ^ (-53 : ℤ) * (1 + 2 * 2 ^ (-53 : ℤ))) * 2 ^ (-53 : ℤ) ≤ stepError := by
    norm_num [stepError]
  have hc : (2 : ℚ) ^ (-53 : ℤ) * (1 + 2 * 2 ^ (-53 : ℤ)) ≤ 1 / 2 := by norm_num
  -- the scaled number is far from the ends of the format
  have hs : d / 2 ≤ s ∧ s ≤ d * 2 := by
    have h := abs_le.mp (hscaled.trans (mul_le_mul_of_nonneg_left hc hmpos.le))
    constructor <;> linarith
  have hslow : (2 : ℚ) ^ (-1000 : ℤ) ≤ s := by
    calc (2 : ℚ) ^ (-1000 : ℤ) ≤ 2 ^ (-400 - 1 : ℤ) := zpow_le_zpow_right₀ (by norm_num) (by norm_num)
      _ = 2 ^ (-400 : ℤ) / 2 := by rw [zpow_sub_one₀ (by norm_num), div_eq_mul_inv]
      _ ≤ d / 2 := by gcongr
      _ ≤ s := hs.1
  have hshigh : s < (2 : ℚ) ^ (1000 : ℤ) := by
    calc s ≤ d * 2 := hs.2
      _ ≤ 2 ^ (453 : ℤ) * 2 := by gcongr
      _ = 2 ^ (453 + 1 : ℤ) := by rw [zpow_add_one₀ (by norm_num)]
      _ < 2 ^ (1000 : ℤ) := zpow_lt_zpow_right₀ (by norm_num) (by norm_num)
  obtain ⟨hfinite, herror⟩ := rankOf_double_error hslow hshigh
  exact ⟨hfinite, (error_add (by positivity) hscaled herror).trans
    (mul_le_mul_of_nonneg_left hsum hmpos.le)⟩

theorem inSteps_exact {n : Numeral} (hpos : 0 < n.decimal.digits) (hfits : n.decimal.digits < 2 ^ 53)
    (hexp : n.decimal.exponent.natAbs ≤ 22) :
    (inSteps n).rank = double.rankOf n.decimal.magnitude := by
  rw [inSteps_rank hpos hfits (by omega), scaled, roundedPower_exact hexp, Decimal.magnitude]
  split
  · rename_i hk
    rw [← zpow_natCast, Int.natAbs_of_nonneg hk]
  · rename_i hk
    have hexponent : -((n.decimal.exponent.natAbs : ℕ) : ℤ) = n.decimal.exponent := by omega
    rw [div_eq_mul_inv, ← zpow_natCast, ← zpow_neg, hexponent]

end Double

end TouchStream
