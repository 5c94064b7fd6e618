import TouchStream.Proofs.Number.Rounding

/-!
# The values of a binary format

* `BinaryFormat.rankOf_value`: a value is its own nearest value.
* `BinaryFormat.rankOf_of_near`, `BinaryFormat.near_of_rankOf`: inside a grid the numbers that are rounded to
  a value are those within half a step of it, the two ends left open.
* `BinaryFormat.rankOf_double_error`, `BinaryFormat.rankOf_double_exact`: how far 64-bit rounding goes.
* `Decimal.rank_double`: the rank of a decimal number is that of the number it stands for.
* `BinaryFormat.convert_single_double`, `BinaryFormat.convert_double_single`: 32-bit values are held in 64 bits.
-/

namespace TouchStream

namespace BinaryFormat

variable {f : BinaryFormat} {q : ℚ} {k m : ℕ}

/-! ## Values -/

/-- The value of rank `n`. -/
def value (f : BinaryFormat) (n : ℕ) : ℚ := f.significand n * (2 : ℚ) ^ f.exponent n

theorem ratio_den_pos (f : BinaryFormat) (n : ℕ) : 0 < (f.ratio n).2 := Nat.two_pow_pos _

theorem ratio_eq_value (f : BinaryFormat) (n : ℕ) : ((f.ratio n).1 : ℚ) / (f.ratio n).2 = f.value n := by
  have h := zpow_eq_div 2 (f.exponent n)
  rw [Nat.cast_ofNat] at h
  rw [value, h, ratio, Nat.cast_mul, mul_div_assoc]

theorem nearestRank_ratio (f g : BinaryFormat) (n : ℕ) :
    g.nearestRank (f.ratio n).1 (f.ratio n).2 = g.rankOf (f.value n) := by
  rw [nearestRank_eq_rankOf g _ (f.ratio_den_pos n), ratio_eq_value]

/-- The rank of so many steps on a grid. -/
theorem value_place (hk : k = 0 ∨ f.block ≤ m) (hm : m ≤ 2 * f.block) :
    f.value (k * f.block + m) = m * (2 : ℚ) ^ (f.minExponent + k) := by
  have hblock := f.block_pos
  rcases hm.eq_or_lt with rfl | hm
  · -- the end of a grid is the beginning of the next one
    have hrank : k * f.block + 2 * f.block = (k + 2) * f.block := by ring
    have hge : ¬ (k + 2) * f.block < f.block := by
      rw [not_lt]
      exact Nat.le_mul_of_pos_left _ (by omega)
    rw [hrank, value, significand, if_neg hge, exponent, Nat.mul_mod_left,
      Nat.mul_div_cancel _ hblock, show k + 2 - 1 = k + 1 by omega]
    push_cast
    rw [← add_assoc, zpow_add_one₀ (by norm_num)]
    ring
  · rcases hk with rfl | hk
    · rcases lt_or_ge m f.block with hlt | hge
      · rw [zero_mul, zero_add, value, significand, if_pos hlt, exponent, Nat.div_eq_of_lt hlt]
      · have hdiv : m / f.block = 1 := Nat.div_eq_of_lt_le (by omega) (by omega)
        have hmod : f.block + m % f.block = m := by
          have := Nat.div_add_mod m f.block
          rw [hdiv] at this
          omega
        rw [zero_mul, zero_add, value, significand, if_neg (by omega), exponent, hdiv, hmod]
    · have hdiv : m / f.block = 1 := Nat.div_eq_of_lt_le (by omega) (by omega)
      have hmod : f.block + m % f.block = m := by
        have := Nat.div_add_mod m f.block
        rw [hdiv] at this
        omega
      have hdiv' : (k * f.block + m) / f.block = k + 1 := by
        rw [add_comm, Nat.add_mul_div_right _ _ hblock, hdiv, add_comm]
      rw [value, significand, if_neg (by omega), exponent, Nat.mul_add_mod_self_right, hdiv', hmod,
        Nat.add_sub_cancel]

theorem value_zero (f : BinaryFormat) : f.value 0 = 0 := by
  rw [value, significand, if_pos f.block_pos, Nat.cast_zero, zero_mul]

/-- Every rank is a number of steps on the grid of its exponent. -/
theorem rank_place (f : BinaryFormat) (n : ℕ) :
    (n / f.block - 1) * f.block + f.significand n = n ∧
      (n / f.block - 1 = 0 ∨ f.block ≤ f.significand n) ∧ f.significand n < 2 * f.block := by
  have hblock := f.block_pos
  rw [significand]
  split
  · rename_i hlt
    rw [Nat.div_eq_of_lt hlt]
    omega
  · rename_i hge
    have hmod := Nat.mod_lt n hblock
    have hdiv : 1 ≤ n / f.block := (Nat.one_le_div_iff hblock).mpr (by omega)
    refine ⟨?_, by omega, by omega⟩
    have h := Nat.div_add_mod n f.block
    rw [Nat.sub_mul, one_mul]
    have : f.block ≤ n / f.block * f.block := Nat.le_mul_of_pos_left _ (by omega)
    rw [mul_comm] at h
    omega

theorem significand_pos {n : ℕ} (hn : 0 < n) : 0 < f.significand n := by
  obtain ⟨hrank, hk, -⟩ := f.rank_place n
  have hblock := f.block_pos
  rcases hk with hk | hk
  · rw [hk, zero_mul, zero_add] at hrank
    omega
  · omega

theorem value_pos {n : ℕ} (hn : 0 < n) : 0 < f.value n := by
  have : (0 : ℚ) < f.significand n := by exact_mod_cast significand_pos hn
  rw [value]
  positivity

theorem placed_of_near (hlow : k = 0 ∨ f.block * (2 : ℚ) ^ (f.minExponent + k) ≤ q)
    (hhigh : q < 2 * f.block * (2 : ℚ) ^ (f.minExponent + k))
    (hnear : |q - m * (2 : ℚ) ^ (f.minExponent + k)| < (2 : ℚ) ^ (f.minExponent + k) / 2) :
    f.IsPlaced q k m := by
  refine ⟨hlow, hhigh, IsNearest.of_near ?_⟩
  have hpos : (0 : ℚ) < (2 : ℚ) ^ (f.minExponent + k) := by positivity
  rw [show q / (2 : ℚ) ^ (f.minExponent + k) - m
      = (q - m * (2 : ℚ) ^ (f.minExponent + k)) / (2 : ℚ) ^ (f.minExponent + k) by field_simp,
    abs_div, abs_of_pos hpos, div_lt_iff₀ hpos]
  linarith

theorem IsPlaced.bounds (h : f.IsPlaced q k m) : (k = 0 ∨ f.block ≤ m) ∧ m ≤ 2 * f.block := by
  have hpos : (0 : ℚ) < (2 : ℚ) ^ (f.minExponent + k) := by positivity
  have hnear := abs_le.mp h.nearest.near
  constructor
  · refine h.low.imp_right fun hlow => ?_
    have hq : (f.block : ℚ) ≤ q / (2 : ℚ) ^ (f.minExponent + k) := (le_div_iff₀ hpos).mpr hlow
    have : (f.block : ℚ) < (m + 1 : ℕ) := by
      push_cast
      linarith
    have : f.block < m + 1 := by exact_mod_cast this
    omega
  · have hq : q / (2 : ℚ) ^ (f.minExponent + k) < 2 * f.block := (div_lt_iff₀ hpos).mpr h.high
    have : (m : ℚ) < (2 * f.block + 1 : ℕ) := by
      push_cast
      linarith
    have : m < 2 * f.block + 1 := by exact_mod_cast this
    omega

/-- A rounded value misses the number by at most half a step. -/
theorem IsPlaced.error (h : f.IsPlaced q k m) :
    |q - f.value (k * f.block + m)| ≤ (2 : ℚ) ^ (f.minExponent + k) / 2 := by
  have hpos : (0 : ℚ) < (2 : ℚ) ^ (f.minExponent + k) := by positivity
  have hnear := h.nearest.near
  rw [value_place h.bounds.1 h.bounds.2]
  rw [show q / (2 : ℚ) ^ (f.minExponent + k) - m
      = (q - m * (2 : ℚ) ^ (f.minExponent + k)) / (2 : ℚ) ^ (f.minExponent + k) by field_simp,
    abs_div, abs_of_pos hpos, div_le_iff₀ hpos] at hnear
  linarith

theorem placed_value {n : ℕ} (f : BinaryFormat) :
    f.IsPlaced (f.value n) (n / f.block - 1) (f.significand n) := by
  obtain ⟨-, hk, hm⟩ := f.rank_place n
  have hpos : (0 : ℚ) < (2 : ℚ) ^ f.exponent n := by positivity
  refine placed_of_near (hk.imp_right fun hk => ?_) ?_ ?_
  · have : (f.block : ℚ) ≤ f.significand n := by exact_mod_cast hk
    exact mul_le_mul_of_nonneg_right this hpos.le
  · have : (f.significand n : ℚ) < 2 * f.block := by exact_mod_cast hm
    exact mul_lt_mul_of_pos_right this hpos
  · rw [value, exponent, sub_self, abs_zero]
    exact half_pos hpos

/-- The value of a finite rank is its own nearest value. -/
theorem rankOf_value {n : ℕ} (hn : n < f.infinityRank) : f.rankOf (f.value n) = n := by
  rcases n.eq_zero_or_pos with rfl | hpos
  · rw [value_zero, rankOf_zero]
  · rw [rankOf_eq (value_pos hpos) f.placed_value, (f.rank_place n).1]
    omega

/-! ## Values inside a grid -/

/-- The values next to that of rank `n` are equally far from it on both sides. -/
def IsInner (f : BinaryFormat) (n : ℕ) : Prop := 0 < n ∧ (n % f.block ≠ 0 ∨ n ≤ f.block)

/-- Only on the lowest grid is the first value an inner one. -/
theorem IsInner.inside {n : ℕ} (h : f.IsInner n) : n / f.block - 1 = 0 ∨ f.block < f.significand n := by
  obtain ⟨hrank, hk, -⟩ := f.rank_place n
  by_cases h0 : n / f.block - 1 = 0
  · exact Or.inl h0
  · refine Or.inr (lt_of_le_of_ne (hk.resolve_left h0) fun heq => h0 ?_)
    have hmul : n = (n / f.block - 1 + 1) * f.block := by
      rw [← heq] at hrank
      linarith
    have hmod : n % f.block = 0 := by
      rw [hmul]
      exact Nat.mul_mod_left _ _
    have hle := h.2.resolve_left (fun hne => hne hmod)
    have : n / f.block ≤ 1 := by
      calc n / f.block ≤ f.block / f.block := Nat.div_le_div_right hle
        _ = 1 := Nat.div_self f.block_pos
    omega

theorem rankOf_of_near {n : ℕ} (hinner : f.IsInner n) (hn : n < f.infinityRank)
    (hnear : |q - f.value n| < (2 : ℚ) ^ f.exponent n / 2) : f.rankOf q = n := by
  obtain ⟨hrank, -, hm⟩ := f.rank_place n
  have hpos : (0 : ℚ) < (2 : ℚ) ^ f.exponent n := by positivity
  have hnear' := abs_lt.mp hnear
  rw [value] at hnear'
  have hq : 0 < q := by
    have hone : (1 : ℚ) ≤ f.significand n := by exact_mod_cast significand_pos hinner.1
    have := mul_le_mul_of_nonneg_right hone hpos.le
    linarith
  have hplaced : f.IsPlaced q (n / f.block - 1) (f.significand n) := by
    refine placed_of_near (hinner.inside.imp_right fun hlt => ?_) ?_ (by rwa [value] at hnear)
    · have hstep : ((f.block + 1 : ℕ) : ℚ) ≤ f.significand n := by exact_mod_cast hlt
      have := mul_le_mul_of_nonneg_right hstep hpos.le
      push_cast at this
      change _ * (2 : ℚ) ^ f.exponent n ≤ q
      linarith
    · have hstep : (f.significand n : ℚ) + 1 ≤ 2 * f.block := by exact_mod_cast hm
      have := mul_le_mul_of_nonneg_right hstep hpos.le
      change q < _ * (2 : ℚ) ^ f.exponent n
      linarith
  rw [rankOf_eq hq hplaced, hrank]
  omega

theorem near_of_rankOf {n : ℕ} (hinner : f.IsInner n) (hn : n < f.infinityRank) (hq : 0 < q)
    (h : f.rankOf q = n) : |q - f.value n| ≤ (2 : ℚ) ^ f.exponent n / 2 := by
  obtain ⟨k, m, hplaced⟩ := f.exists_isPlaced hq
  have hblock := f.block_pos
  obtain ⟨hk, hm⟩ := hplaced.bounds
  have hrank : k * f.block + m = n := by
    rw [rankOf_eq hq hplaced] at h
    omega
  have hlt : m < 2 * f.block := by
    refine lt_of_le_of_ne hm fun heq => ?_
    have hmul : n = (k + 2) * f.block := by
      rw [← hrank, heq]
      ring
    have hmod : n % f.block = 0 := by
      rw [hmul]
      exact Nat.mul_mod_left _ _
    have hle := hinner.2.resolve_left (fun h => h hmod)
    have : 2 * f.block ≤ (k + 2) * f.block := Nat.mul_le_mul_right _ (by omega)
    omega
  have hexp : f.exponent n = f.minExponent + k := by
    have hdiv : n / f.block - 1 = k := by
      rw [← hrank, Nat.add_comm, Nat.add_mul_div_right _ _ hblock]
      rcases lt_or_ge m f.block with h | h
      · rw [Nat.div_eq_of_lt h]
        omega
      · rw [Nat.div_eq_of_lt_le (k := 1) (by omega) (by omega)]
        omega
    rw [exponent, hdiv]
  rw [hexp, ← hrank]
  exact hplaced.error

/-! ## Numbers that a format holds -/

theorem placed_exact {a : ℕ} {j : ℤ} (ha : 0 < a) (ha' : a < 2 * f.block) (hj : f.minExponent ≤ j) :
    ∃ k m, f.IsPlaced (a * (2 : ℚ) ^ j) k m ∧ f.value (k * f.block + m) = a * (2 : ℚ) ^ j := by
  have hapos : (0 : ℚ) < a := by exact_mod_cast ha
  have hq : (0 : ℚ) < a * (2 : ℚ) ^ j := by positivity
  obtain ⟨k, m, h⟩ := f.exists_isPlaced hq
  refine ⟨k, m, h, ?_⟩
  -- the number is a whole number of steps
  have hle : f.minExponent + k ≤ j := by
    rcases h.low with rfl | hlow
    · simpa using hj
    · have : (f.block : ℚ) * (2 : ℚ) ^ (f.minExponent + k) < f.block * (2 : ℚ) ^ (j + 1) := by
        refine hlow.trans_lt ?_
        rw [zpow_add_one₀ (by norm_num), ← mul_assoc, mul_right_comm]
        have : (a : ℚ) < f.block * 2 := by
          rw [mul_comm]
          exact_mod_cast ha'
        exact mul_lt_mul_of_pos_right this (by positivity)
      have hblock : (0 : ℚ) < f.block := by exact_mod_cast f.block_pos
      have := (zpow_lt_zpow_iff_right₀ (by norm_num : (1 : ℚ) < 2)).mp (lt_of_mul_lt_mul_left this hblock.le)
      omega
  have hsteps : a * (2 : ℚ) ^ j / (2 : ℚ) ^ (f.minExponent + k)
      = ((a * 2 ^ (j - (f.minExponent + k)).toNat : ℕ) : ℚ) := by
    push_cast
    rw [mul_div_assoc, ← zpow_sub₀ (by norm_num), ← zpow_natCast, Int.toNat_of_nonneg (by omega)]
  have hm : m = a * 2 ^ (j - (f.minExponent + k)).toNat := by
    refine IsNearest.unique h.nearest (IsNearest.of_near ?_)
    rw [hsteps, sub_self, abs_zero]
    norm_num
  rw [value_place h.bounds.1 h.bounds.2, hm, ← hsteps]
  field_simp

/-! ## Rounding to 64 bits -/

theorem block_double : (double.block : ℚ) = 2 ^ (52 : ℤ) := by norm_num [block, double]

theorem IsPlaced.lt_infinityRank_double (h : double.IsPlaced q k m) (hq : q < (2 : ℚ) ^ (1000 : ℤ)) :
    k * double.block + m < double.infinityRank := by
  have hk : k ≤ 2038 := by
    rcases h.low with rfl | hlow
    · omega
    · have hlt := hlow.trans_lt hq
      rw [block_double, ← zpow_add₀ (by norm_num), zpow_lt_zpow_iff_right₀ (by norm_num),
        show double.minExponent = -1074 from rfl] at hlt
      omega
  have hm := h.bounds.2
  have hblock := double.block_pos
  have hle : (k + 2) * double.block ≤ 2040 * double.block := Nat.mul_le_mul_right _ (by omega)
  have hinf : double.infinityRank = 2047 * double.block := rfl
  have : (k + 2) * double.block = k * double.block + 2 * double.block := by ring
  omega

/-- Rounding misses a number that is neither very small nor very large by at most its `2 ^ -53`. -/
theorem rankOf_double_error (hlow : (2 : ℚ) ^ (-1000 : ℤ) ≤ q) (hhigh : q < (2 : ℚ) ^ (1000 : ℤ)) :
    double.rankOf q < double.infinityRank ∧
      |q - double.value (double.rankOf q)| ≤ q * (2 : ℚ) ^ (-53 : ℤ) := by
  have hq : 0 < q := lt_of_lt_of_le (by positivity) hlow
  obtain ⟨k, m, h⟩ := double.exists_isPlaced hq
  have hk : double.block * (2 : ℚ) ^ (double.minExponent + k) ≤ q := by
    refine h.low.resolve_left fun hk => ?_
    have hhigh := h.high
    rw [hk, show double.minExponent = -1074 from rfl, block_double, ← zpow_one_add₀ (by norm_num),
      ← zpow_add₀ (by norm_num)] at hhigh
    have := (zpow_lt_zpow_iff_right₀ (by norm_num : (1 : ℚ) < 2)).mp (hlow.trans_lt hhigh)
    norm_num at this
  have hrank := h.lt_infinityRank_double hhigh
  rw [rankOf_eq hq h, min_eq_right hrank.le]
  refine ⟨hrank, h.error.trans ?_⟩
  rw [block_double, mul_comm] at hk
  have hstep : (2 : ℚ) ^ (52 : ℤ) * 2 ^ (-53 : ℤ) = 1 / 2 := by norm_num
  calc (2 : ℚ) ^ (double.minExponent + k) / 2
      = (2 : ℚ) ^ (double.minExponent + k) * 2 ^ (52 : ℤ) * 2 ^ (-53 : ℤ) := by
        rw [mul_assoc, hstep]
        ring
    _ ≤ q * 2 ^ (-53 : ℤ) := by gcongr

/-- A number with a significand of at most 53 bits is held exactly. -/
theorem rankOf_double_exact {a : ℕ} {j : ℤ} (ha : a < 2 ^ 53) (hj : -1074 ≤ j) (hj' : j ≤ 900) :
    double.rankOf (a * (2 : ℚ) ^ j) < double.infinityRank ∧
      double.value (double.rankOf (a * (2 : ℚ) ^ j)) = a * (2 : ℚ) ^ j := by
  rcases a.eq_zero_or_pos with rfl | hpos
  · rw [Nat.cast_zero, zero_mul, rankOf_zero, value_zero]
    exact ⟨by decide, rfl⟩
  · have hq : (0 : ℚ) < a * (2 : ℚ) ^ j := by
      have : (0 : ℚ) < a := by exact_mod_cast hpos
      positivity
    have hlt : a * (2 : ℚ) ^ j < (2 : ℚ) ^ (1000 : ℤ) := by
      have : (a : ℚ) < 2 ^ (53 : ℤ) := by
        rw [show (53 : ℤ) = ((53 : ℕ) : ℤ) from rfl, zpow_natCast]
        exact_mod_cast ha
      calc a * (2 : ℚ) ^ j < 2 ^ (53 : ℤ) * 2 ^ j := by gcongr
        _ = 2 ^ (53 + j) := by rw [← zpow_add₀ (by norm_num)]
        _ ≤ 2 ^ (1000 : ℤ) := zpow_le_zpow_right₀ (by norm_num) (by omega)
    obtain ⟨k, m, h, hvalue⟩ := placed_exact (f := double) hpos (ha.trans_le (by decide)) hj
    have hrank := h.lt_infinityRank_double hlt
    rw [rankOf_eq hq h, min_eq_right hrank.le]
    exact ⟨hrank, hvalue⟩

theorem rankOf_double_top (hq : (2 : ℚ) ^ (1100 : ℤ) ≤ q) : double.rankOf q = double.infinityRank := by
  have hpos : 0 < q := lt_of_lt_of_le (by positivity) hq
  obtain ⟨k, m, h⟩ := double.exists_isPlaced hpos
  have hlt := hq.trans_lt h.high
  rw [block_double, ← zpow_one_add₀ (by norm_num), ← zpow_add₀ (by norm_num),
    zpow_lt_zpow_iff_right₀ (by norm_num), show double.minExponent = -1074 from rfl] at hlt
  have hle : 2047 * double.block ≤ k * double.block := Nat.mul_le_mul_right _ (by omega)
  have hinf : double.infinityRank = 2047 * double.block := rfl
  rw [rankOf_eq hpos h]
  omega

theorem rankOf_double_bottom (hpos : 0 < q) (hq : q < (2 : ℚ) ^ (-1075 : ℤ)) : double.rankOf q = 0 := by
  have hmin : double.minExponent + ((0 : ℕ) : ℤ) = -1074 := rfl
  have hstep : (2 : ℚ) ^ (-1074 : ℤ) = 2 ^ (-1075 : ℤ) * 2 := by
    rw [← zpow_add_one₀ (by norm_num)]
    norm_num
  have hsmall : (0 : ℚ) < 2 ^ (-1075 : ℤ) := by positivity
  have hblock : (1 : ℚ) ≤ double.block := by exact_mod_cast double.block_pos
  have h : double.IsPlaced q 0 0 := by
    refine placed_of_near (Or.inl rfl) ?_ ?_ <;> rw [hmin, hstep]
    · nlinarith
    · rw [Nat.cast_zero, zero_mul, sub_zero, abs_of_pos hpos]
      linarith
  rw [rankOf_eq hpos h]
  omega

/-! ## Between 32 and 64 bits -/

theorem convert_of_lt {f g : BinaryFormat} {n : ℕ} (hn : n < f.infinityRank) :
    f.convert g n = g.rankOf (f.value n) := by
  rw [convert, if_pos hn, nearestRank_ratio]

/-- A 32-bit value is held exactly in 64 bits. -/
theorem convert_single_double {n : ℕ} (hn : n < single.infinityRank) :
    single.convert double n < double.infinityRank ∧
      double.value (single.convert double n) = single.value n := by
  obtain ⟨hrank, -, hm⟩ := single.rank_place n
  have hk : n / single.block < 255 := (Nat.div_lt_iff_lt_mul single.block_pos).mpr hn
  have hexp : single.exponent n = -149 + ((n / single.block - 1 : ℕ) : ℤ) := rfl
  rw [convert_of_lt hn, value]
  exact rankOf_double_exact (hm.trans_le (by decide)) (by omega) (by omega)

/-- Going to 64 bits and back leaves every rank as it is, those above the finite ones too. -/
theorem convert_double_single (n : ℕ) : double.convert single (single.convert double n) = n := by
  by_cases hn : n < single.infinityRank
  · obtain ⟨hlt, hvalue⟩ := convert_single_double hn
    rw [convert_of_lt hlt, hvalue, rankOf_value hn]
  · have hinf : single.convert double n = double.infinityRank + (n - single.infinityRank) := by
      rw [convert, if_neg hn]
    rw [hinf, convert, if_neg (by omega)]
    omega

/-! ## Decimal numbers -/

theorem nearestRank_decimal (f : BinaryFormat) (digits : ℕ) (place : ℤ) :
    f.nearestRank (digits * Nat.pow 10 place.toNat) (Nat.pow 10 (-place).toNat) =
      f.rankOf (digits * (10 : ℚ) ^ place) := by
  have h := zpow_eq_div 10 place
  have hpos : 0 < Nat.pow 10 (-place).toNat := Nat.pow_pos (by norm_num)
  rw [Nat.cast_ofNat] at h
  rw [nearestRank_eq_rankOf f _ hpos, Nat.cast_mul, h, mul_div_assoc]

end BinaryFormat

/-- The number that a decimal number stands for, without its sign. -/
def Decimal.magnitude (d : Decimal) : ℚ := d.digits * (10 : ℚ) ^ d.exponent

open BinaryFormat in
/-- The guards of reading a decimal number only spare work. -/
theorem Decimal.rank_double (d : Decimal) : d.rank .double = double.rankOf d.magnitude := by
  rw [rank, magnitude]
  split
  · rename_i h
    rw [h, Nat.cast_zero, zero_mul, rankOf_zero]
  · rename_i hdigits
    have hpos : 0 < d.digits := Nat.pos_of_ne_zero hdigits
    have hone : (1 : ℚ) ≤ d.digits := by exact_mod_cast hpos
    split
    · rename_i hlarge
      have hexp : (1100 : ℤ) ≤ d.exponent := by
        have : ((Nat.pow 2 double.exponentBits : ℕ) : ℤ) = 2048 := rfl
        omega
      refine (rankOf_double_top ?_).symm
      calc (2 : ℚ) ^ (1100 : ℤ) ≤ 10 ^ (1100 : ℤ) := zpow_le_zpow_left₀ (by norm_num) (by norm_num) (by norm_num)
        _ ≤ 10 ^ d.exponent := zpow_le_zpow_right₀ (by norm_num) hexp
        _ ≤ d.digits * 10 ^ d.exponent := le_mul_of_one_le_left (by positivity) hone
    · split
      · rename_i hsmall
        have hexp : d.exponent + d.digits.log2 + 1 ≤ -1075 ∧ d.exponent ≤ 0 := by
          have : ((Nat.pow 2 double.exponentBits : ℕ) : ℤ) = 2048 := rfl
          omega
        have hten : (10 : ℚ) ^ d.exponent ≤ 2 ^ d.exponent := by
          obtain ⟨k, hk⟩ : ∃ k : ℕ, d.exponent = -(k : ℤ) := ⟨(-d.exponent).toNat, by omega⟩
          rw [hk, zpow_neg, zpow_neg, zpow_natCast, zpow_natCast]
          exact inv_anti₀ (by positivity) (pow_le_pow_left₀ (by norm_num) (by norm_num) k)
        refine (rankOf_double_bottom (by positivity) ?_).symm
        calc d.digits * (10 : ℚ) ^ d.exponent
            < (2 : ℚ) ^ ((d.digits.log2 : ℤ) + 1) * 10 ^ d.exponent := by
              have := (log2_bounds hpos).2
              gcongr
          _ ≤ 2 ^ ((d.digits.log2 : ℤ) + 1) * 2 ^ d.exponent := by gcongr
          _ = 2 ^ ((d.digits.log2 : ℤ) + 1 + d.exponent) := by rw [← zpow_add₀ (by norm_num)]
          _ ≤ 2 ^ (-1075 : ℤ) := zpow_le_zpow_right₀ (by norm_num) (by omega)
      · exact nearestRank_decimal double d.digits d.exponent

end TouchStream
