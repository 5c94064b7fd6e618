import TouchStream.Number.Decimal
import Mathlib.Data.Int.Log
import Mathlib.Tactic

/-!
# Rounding to a binary format

The rank of the nearest value is computed from a numerator and a denominator. Here it is described by the
number alone: a positive number lies on the grid of one exponent, and its nearest grid point is unique
(`BinaryFormat.IsPlaced`).

* `BinaryFormat.isNearest_roundHalfEven`, `BinaryFormat.log2Ratio_eq`: the two steps of rounding.
* `BinaryFormat.rankOf`: the rank of the value nearest to a rational number, and
  `BinaryFormat.nearestRank_eq_rankOf`: the nearest rank depends on the ratio only.
-/

namespace TouchStream

/-- A power as the ratio in which it is computed. -/
theorem zpow_eq_div (b : ℕ) (e : ℤ) :
    (b : ℚ) ^ e = (Nat.pow b e.toNat : ℕ) / (Nat.pow b (-e).toNat : ℕ) := by
  rw [Nat.pow_eq, Nat.pow_eq, Nat.cast_pow, Nat.cast_pow]
  rcases le_total 0 e with he | he
  · rw [show (-e).toNat = 0 by omega, pow_zero, div_one, ← zpow_natCast, Int.toNat_of_nonneg he]
  · rw [show e.toNat = 0 by omega, pow_zero, one_div, ← zpow_natCast, Int.toNat_of_nonneg (by omega),
      zpow_neg, inv_inv]

/-! ## Rounding to whole numbers -/

/-- The whole number nearest to `q`, the even one where two are. -/
structure IsNearest (q : ℚ) (m : ℕ) : Prop where
  near : |q - m| ≤ 1 / 2
  even : |q - m| = 1 / 2 → m % 2 = 0

theorem IsNearest.of_near {q : ℚ} {m : ℕ} (h : |q - m| < 1 / 2) : IsNearest q m :=
  ⟨h.le, fun heq => absurd heq h.ne⟩

theorem IsNearest.unique {q : ℚ} {m n : ℕ} (hm : IsNearest q m) (hn : IsNearest q n) : m = n := by
  have hm' := abs_le.mp hm.near
  have hn' := abs_le.mp hn.near
  have hle : (m : ℚ) ≤ n + 1 := by linarith
  have hge : (n : ℚ) ≤ m + 1 := by linarith
  have hle' : m ≤ n + 1 := by exact_mod_cast hle
  have hge' : n ≤ m + 1 := by exact_mod_cast hge
  by_contra hne
  -- two nearest numbers stand on both sides at distance one half, and only one of them is even
  obtain rfl | rfl : m = n + 1 ∨ n = m + 1 := by omega
  · push_cast at hm hm'
    have hq : q = n + 1 / 2 := by linarith
    have h1 := hm.even (by rw [hq]; push_cast; rw [abs_eq (by norm_num)]; right; ring)
    have h2 := hn.even (by rw [hq, abs_eq (by norm_num)]; left; ring)
    omega
  · push_cast at hn hn'
    have hq : q = m + 1 / 2 := by linarith
    have h1 := hn.even (by rw [hq]; push_cast; rw [abs_eq (by norm_num)]; right; ring)
    have h2 := hm.even (by rw [hq, abs_eq (by norm_num)]; left; ring)
    omega

section Ratios

variable {rest den : ℕ}

theorem div_eq_quotient_add (num : ℕ) (hden : 0 < den) :
    (num : ℚ) / den = (num / den : ℕ) + ((num % den : ℕ) : ℚ) / den := by
  have hpos : (0 : ℚ) < den := by exact_mod_cast hden
  have h : (den : ℚ) * (num / den : ℕ) + (num % den : ℕ) = num := by
    exact_mod_cast Nat.div_add_mod num den
  field_simp
  linarith

theorem div_lt_half_iff (hden : 0 < den) : (rest : ℚ) / den < 1 / 2 ↔ 2 * rest < den := by
  have hpos : (0 : ℚ) < den := by exact_mod_cast hden
  rw [div_lt_div_iff₀ hpos (by norm_num), one_mul, mul_comm]
  exact_mod_cast Iff.rfl

theorem half_lt_div_iff (hden : 0 < den) : (1 : ℚ) / 2 < rest / den ↔ den < 2 * rest := by
  have hpos : (0 : ℚ) < den := by exact_mod_cast hden
  rw [div_lt_div_iff₀ (by norm_num) hpos, one_mul, mul_comm]
  exact_mod_cast Iff.rfl

end Ratios

namespace BinaryFormat

theorem isNearest_roundHalfEven (num : ℕ) {den : ℕ} (hden : 0 < den) :
    IsNearest ((num : ℚ) / den) (roundHalfEven num den) := by
  have hpos : (0 : ℚ) < den := by exact_mod_cast hden
  have hrest : ((num % den : ℕ) : ℚ) / den < 1 := by
    rw [div_lt_one hpos]
    exact_mod_cast Nat.mod_lt num hden
  have hnonneg : (0 : ℚ) ≤ (num % den : ℕ) / den := by positivity
  rw [div_eq_quotient_add num hden, roundHalfEven]
  split
  · rename_i hlt
    have hlt' := (div_lt_half_iff hden).mpr hlt
    apply IsNearest.of_near
    rw [abs_lt]
    constructor <;> linarith
  · rename_i hnot
    split
    · rename_i hlt
      have hlt' := (half_lt_div_iff hden).mpr hlt
      apply IsNearest.of_near
      rw [abs_lt]
      push_cast
      constructor <;> linarith
    · rename_i hnot'
      have hhalf : ((num % den : ℕ) : ℚ) / den = 1 / 2 := by
        apply le_antisymm
        · exact not_lt.mp (mt (half_lt_div_iff hden).mp hnot')
        · exact not_lt.mp (mt (div_lt_half_iff hden).mp hnot)
      -- of the two nearest numbers the even one is taken
      rw [hhalf]
      rcases Nat.mod_two_eq_zero_or_one (num / den) with h | h <;> rw [h]
      · refine ⟨?_, fun _ => by omega⟩
        rw [abs_le]
        push_cast
        constructor <;> linarith
      · refine ⟨?_, fun _ => by omega⟩
        rw [abs_le]
        push_cast
        constructor <;> linarith

/-! ## The binary logarithm -/

theorem log_eq {q : ℚ} {e : ℤ} (hlow : (2 : ℚ) ^ e ≤ q) (hhigh : q < (2 : ℚ) ^ (e + 1)) :
    Int.log 2 q = e := by
  have hq : 0 < q := lt_of_lt_of_le (by positivity) hlow
  have h1 := (Int.zpow_le_iff_le_log (b := 2) (by norm_num) hq).mp (by exact_mod_cast hlow)
  have h2 := (Int.lt_zpow_iff_log_lt (b := 2) (by norm_num) hq).mp (by exact_mod_cast hhigh)
  omega

theorem log2_bounds {n : ℕ} (h : 0 < n) :
    (2 : ℚ) ^ (n.log2 : ℤ) ≤ n ∧ (n : ℚ) < (2 : ℚ) ^ ((n.log2 : ℤ) + 1) := by
  constructor
  · rw [zpow_natCast]
    exact_mod_cast Nat.log2_self_le h.ne'
  · rw [show ((n.log2 : ℤ) + 1) = ((n.log2 + 1 : ℕ) : ℤ) by push_cast; rfl, zpow_natCast]
    exact_mod_cast Nat.lt_log2_self

theorem log2Ratio_eq {num den : ℕ} (hnum : 0 < num) (hden : 0 < den) :
    log2Ratio num den = Int.log 2 ((num : ℚ) / den) := by
  have hpos : (0 : ℚ) < den := by exact_mod_cast hden
  obtain ⟨hnum1, hnum2⟩ := log2_bounds hnum
  obtain ⟨hden1, hden2⟩ := log2_bounds hden
  set gap : ℤ := num.log2 - den.log2 with hgap
  have hhigh : (num : ℚ) / den < 2 ^ (gap + 1) := by
    rw [div_lt_iff₀ hpos]
    calc (num : ℚ) < 2 ^ ((num.log2 : ℤ) + 1) := hnum2
      _ = 2 ^ (gap + 1) * 2 ^ (den.log2 : ℤ) := by rw [← zpow_add₀ (by norm_num)]; congr 1; omega
      _ ≤ 2 ^ (gap + 1) * den := by gcongr
  have hlow : (2 : ℚ) ^ (gap - 1) ≤ num / den := by
    rw [le_div_iff₀ hpos]
    calc (2 : ℚ) ^ (gap - 1) * den ≤ 2 ^ (gap - 1) * 2 ^ ((den.log2 : ℤ) + 1) := by gcongr
      _ = 2 ^ (num.log2 : ℤ) := by rw [← zpow_add₀ (by norm_num)]; congr 1; omega
      _ ≤ num := hnum1
  have hiff : den * Nat.pow 2 gap.toNat ≤ num * Nat.pow 2 (-gap).toNat ↔ (2 : ℚ) ^ gap ≤ num / den := by
    have h := zpow_eq_div 2 gap
    rw [Nat.cast_ofNat] at h
    have hp : (0 : ℚ) < (Nat.pow 2 (-gap).toNat : ℕ) := by exact_mod_cast Nat.two_pow_pos _
    rw [h, div_le_div_iff₀ hp hpos]
    constructor
    · intro hle
      have : ((den * Nat.pow 2 gap.toNat : ℕ) : ℚ) ≤ ((num * Nat.pow 2 (-gap).toNat : ℕ) : ℚ) := by
        exact_mod_cast hle
      push_cast at this ⊢
      linarith
    · intro hle
      have : ((den * Nat.pow 2 gap.toNat : ℕ) : ℚ) ≤ ((num * Nat.pow 2 (-gap).toNat : ℕ) : ℚ) := by
        push_cast at hle ⊢
        linarith
      exact_mod_cast this
  rw [log2Ratio]
  split
  · rename_i h
    exact (log_eq (hiff.mp h) hhigh).symm
  · rename_i h
    refine (log_eq hlow ?_).symm
    rw [sub_add_cancel]
    exact not_le.mp fun hle => h (hiff.mpr hle)

/-! ## Places on the grid -/

variable {f : BinaryFormat} {q : ℚ} {k m : ℕ}

theorem block_pos (f : BinaryFormat) : 0 < f.block := Nat.two_pow_pos _

theorem block_eq_zpow (f : BinaryFormat) : (f.block : ℚ) = 2 ^ ((f.precision - 1 : ℕ) : ℤ) := by
  rw [zpow_natCast, block, Nat.pow_eq]
  push_cast
  rfl

/-- The grid of values around a positive number, by its exponent above the least one, and the number
of grid steps nearest to it. -/
structure IsPlaced (f : BinaryFormat) (q : ℚ) (k m : ℕ) : Prop where
  low : k = 0 ∨ f.block * (2 : ℚ) ^ (f.minExponent + k) ≤ q
  high : q < 2 * f.block * (2 : ℚ) ^ (f.minExponent + k)
  nearest : IsNearest (q / (2 : ℚ) ^ (f.minExponent + k)) m

theorem IsPlaced.unique {k' m' : ℕ} (h : f.IsPlaced q k m) (h' : f.IsPlaced q k' m') :
    k = k' ∧ m = m' := by
  have hblock : (0 : ℚ) < f.block := by exact_mod_cast f.block_pos
  -- a higher grid would begin where the lower one ends
  have hno : ∀ {k k' m m'}, f.IsPlaced q k m → f.IsPlaced q k' m' → ¬ k < k' := by
    intro k k' m m' h h' hlt
    have hlow := h'.low.resolve_left (by omega)
    have hhigh := h.high
    have hpow : (2 : ℚ) * 2 ^ (f.minExponent + k) ≤ 2 ^ (f.minExponent + k') := by
      rw [← zpow_one_add₀ (by norm_num)]
      exact zpow_le_zpow_right₀ (by norm_num) (by omega)
    have := mul_le_mul_of_nonneg_left hpow hblock.le
    linarith
  obtain rfl : k = k' := by
    have h1 := hno h h'
    have h2 := hno h' h
    omega
  exact ⟨rfl, h.nearest.unique h'.nearest⟩

theorem placed_gridExponent {num den : ℕ} (hnum : 0 < num) (hden : 0 < den) :
    f.IsPlaced ((num : ℚ) / den) (f.gridExponent num den - f.minExponent).toNat
      (roundHalfEven (num * Nat.pow 2 (-f.gridExponent num den).toNat)
        (den * Nat.pow 2 (f.gridExponent num den).toNat)) := by
  have hpos : (0 : ℚ) < den := by exact_mod_cast hden
  have hq : (0 : ℚ) < num / den := by positivity
  have hlow := Int.zpow_log_le_self (b := 2) (by norm_num) hq
  have hhigh := Int.lt_zpow_succ_log_self (b := 2) (by norm_num) ((num : ℚ) / den)
  rw [← log2Ratio_eq hnum hden, Nat.cast_ofNat] at hlow hhigh
  have hmin : f.minExponent ≤ f.gridExponent num den := le_max_right _ _
  have hlog : log2Ratio num den ≤ f.gridExponent num den + (f.precision - 1 : ℕ) := by
    have := le_max_left (log2Ratio num den - (f.precision - 1 : ℕ)) f.minExponent
    rw [gridExponent]
    omega
  have hexp : f.minExponent + ((f.gridExponent num den - f.minExponent).toNat : ℕ)
      = f.gridExponent num den := by omega
  refine ⟨?_, ?_, ?_⟩
  · rw [hexp, block_eq_zpow, ← zpow_add₀ (by norm_num)]
    rcases max_choice (log2Ratio num den - (f.precision - 1 : ℕ)) f.minExponent with h | h
    · right
      rw [gridExponent, h, show ((f.precision - 1 : ℕ) : ℤ) + (log2Ratio num den - (f.precision - 1 : ℕ))
        = log2Ratio num den by ring]
      exact hlow
    · left
      rw [gridExponent, h]
      omega
  · rw [hexp, block_eq_zpow, ← zpow_one_add₀ (by norm_num), ← zpow_add₀ (by norm_num)]
    refine hhigh.trans_le (zpow_le_zpow_right₀ (by norm_num) ?_)
    omega
  · rw [hexp]
    have hscale := zpow_eq_div 2 (f.gridExponent num den)
    have h2 : ∀ i : ℕ, 0 < Nat.pow 2 i := fun i => Nat.two_pow_pos i
    have := isNearest_roundHalfEven (num * Nat.pow 2 (-f.gridExponent num den).toNat)
      (Nat.mul_pos hden (h2 (f.gridExponent num den).toNat))
    convert this using 1
    rw [Nat.cast_ofNat] at hscale
    rw [hscale, div_div_div_eq]
    push_cast
    rfl

theorem nearestRank_eq {num den : ℕ} (hnum : 0 < num) (hden : 0 < den)
    (h : f.IsPlaced ((num : ℚ) / den) k m) :
    f.nearestRank num den = min f.infinityRank (k * f.block + m) := by
  obtain ⟨rfl, rfl⟩ := h.unique (placed_gridExponent hnum hden)
  rw [nearestRank, if_neg hnum.ne']

theorem exists_isPlaced (f : BinaryFormat) (hq : 0 < q) : ∃ k m, f.IsPlaced q k m := by
  have hnum : 0 < q.num.toNat := by
    have := Rat.num_pos.mpr hq
    omega
  have h := placed_gridExponent (f := f) hnum q.den_pos
  rw [show ((q.num.toNat : ℕ) : ℚ) / q.den = q by
    rw [show ((q.num.toNat : ℕ) : ℚ) = ((q.num.toNat : ℤ) : ℚ) by push_cast; rfl,
      Int.toNat_of_nonneg (Rat.num_pos.mpr hq).le, Rat.num_div_den]] at h
  exact ⟨_, _, h⟩

/-! ## The rank of a number -/

/-- The rank of the value nearest to a number that is not negative. -/
def rankOf (f : BinaryFormat) (q : ℚ) : ℕ := f.nearestRank q.num.toNat q.den

theorem rankOf_zero (f : BinaryFormat) : f.rankOf 0 = 0 := rfl

theorem rankOf_eq (hq : 0 < q) (h : f.IsPlaced q k m) :
    f.rankOf q = min f.infinityRank (k * f.block + m) := by
  have hnum := Rat.num_pos.mpr hq
  refine nearestRank_eq (by omega) q.den_pos ?_
  rwa [show ((q.num.toNat : ℕ) : ℚ) / q.den = q by
    rw [show ((q.num.toNat : ℕ) : ℚ) = ((q.num.toNat : ℤ) : ℚ) by push_cast; rfl,
      Int.toNat_of_nonneg hnum.le, Rat.num_div_den]]

/-- The nearest rank depends on the ratio only. -/
theorem nearestRank_eq_rankOf (f : BinaryFormat) (num : ℕ) {den : ℕ} (hden : 0 < den) :
    f.nearestRank num den = f.rankOf ((num : ℚ) / den) := by
  rcases num.eq_zero_or_pos with rfl | hnum
  · rw [Nat.cast_zero, zero_div, rankOf_zero, nearestRank, if_pos rfl]
  · have hq : (0 : ℚ) < num / den := by positivity
    obtain ⟨k, m, h⟩ := f.exists_isPlaced hq
    rw [nearestRank_eq hnum hden h, rankOf_eq hq h]

end BinaryFormat

end TouchStream
