import TouchStream.Proofs.Number.Residues
import TouchStream.Proofs.Number.Shortest
import TouchStream.Proofs.Number.Stepwise

/-!
# Shortest digits read in steps

The shortest digits of a 32-bit value are read with two roundings to 64 bits and one to 32 bits. Nevertheless the
value comes back (`SingleGrid.reread_inner`). At the finest place where digits can end the nearer neighbour is
taken, which leaves room for the error (`SingleGrid.rankOf_fine`). At a coarser place the number is a multiple of a
power of ten, and only a multiple very near the middle of two values could go wrong. For each exponent it is
computed that there is none (`SingleGrid.all_sound`), with two exceptions: for small integers nothing is lost in
64 bits, and one multiple near a midpoint belongs to a value that is read back all the same.
-/

namespace TouchStream

open BinaryFormat

namespace SingleGrid

/-! ## Decimal places beside a binary grid -/

/-- The least place whose unit is not below `2 ^ e`. -/
def coarsePlace (e : ℤ) : ℤ := -(-e * 30103 / 100000)

/-- The unit of that place in steps of `2 ^ e`, as a ratio. -/
def coarseNum (e : ℤ) : ℕ := Nat.pow 10 (coarsePlace e).toNat * Nat.pow 2 (-e).toNat

def coarseDen (e : ℤ) : ℕ := Nat.pow 10 (-coarsePlace e).toNat * Nat.pow 2 e.toNat

/-- How near to a midpoint a number may not be, in `2 * coarseDen e`-ths of a step. -/
def reach (e : ℤ) : ℕ := 2 * coarseDen e * 4097 / 2 ^ 40

/-- Whether no multiple of the unit, from the `start`-th to before the `stop`-th, is near the middle of two
neighbours on the binary grid. -/
def midpointsClear (e : ℤ) (start stop : ℕ) : Bool :=
  Residues.staysOut (2 * coarseNum e % (2 * coarseDen e)) (2 * coarseDen e) (coarseDen e - reach e)
    (coarseDen e + reach e) start stop

/-- Whether the unit is near enough to a step, and the midpoints are clear for all values with the exponent `e`.
The one multiple that is near a midpoint is left out. -/
def isSound (e : ℤ) : Bool :=
  let start := if e = -149 then 0 else 2 ^ 23 * coarseDen e / coarseNum e
  let stop := 2 ^ 24 * coarseDen e / coarseNum e + 1
  coarseDen e ≤ coarseNum e && coarseNum e * 2 ^ 26 ≤ 10 * coarseDen e * (2 ^ 26 - 1)
    && if 1 ≤ e ∧ e ≤ 33 then 0 < coarsePlace e && e ≤ 29 + coarsePlace e
      else if e = -107 then midpointsClear e start 7038531 && midpointsClear e 7038532 stop
      else midpointsClear e start stop

theorem all_sound : (List.range 254).all (fun i => isSound (i - 149)) = true := by decide +kernel

theorem sound {e : ℤ} (hlow : -149 ≤ e) (hhigh : e ≤ 104) : isSound e = true := by
  have h := List.all_eq_true.mp all_sound (e + 149).toNat (List.mem_range.mpr (by omega))
  rwa [show (((e + 149).toNat : ℕ) : ℤ) - 149 = e by omega] at h

theorem coarseDen_pos (e : ℤ) : 0 < coarseDen e :=
  Nat.mul_pos (Nat.pow_pos (by norm_num)) (Nat.two_pow_pos _)

theorem coarseNum_pos (e : ℤ) : 0 < coarseNum e :=
  Nat.mul_pos (Nat.pow_pos (by norm_num)) (Nat.two_pow_pos _)

theorem coarse_ratio (e : ℤ) :
    (10 : ℚ) ^ coarsePlace e = (coarseNum e : ℚ) / coarseDen e * 2 ^ e := by
  have h10 := zpow_eq_div 10 (coarsePlace e)
  have h2 := zpow_eq_div 2 e
  rw [Nat.cast_ofNat] at h10 h2
  have hpos : ∀ b i : ℕ, 0 < b → (0 : ℚ) < (Nat.pow b i : ℕ) := fun b i hb => by
    exact_mod_cast Nat.pow_pos hb
  have h1 := hpos 10 (-coarsePlace e).toNat (by norm_num)
  have h3 := hpos 2 (-e).toNat (by norm_num)
  have h4 := hpos 2 e.toNat (by norm_num)
  rw [h10, h2, coarseNum, coarseDen]
  push_cast
  field_simp

/-- No multiple of the coarse unit is near the middle of two neighbours. -/
theorem midpoint_far {e : ℤ} {start stop d : ℕ} (h : midpointsClear e start stop = true) (hstart : start ≤ d)
    (hstop : d < stop) (j : ℕ) :
    4097 / 2 ^ 40 * (2 : ℚ) ^ e < |d * (10 : ℚ) ^ coarsePlace e - (j + 1 / 2) * (2 : ℚ) ^ e| := by
  have hden := coarseDen_pos e
  have hstep : (0 : ℚ) < 2 ^ e := by positivity
  have hdenq : (0 : ℚ) < coarseDen e := by exact_mod_cast hden
  have hreach : reach e < coarseDen e := by
    rw [reach]
    omega
  by_contra hle
  rw [not_lt, coarse_ratio, ← mul_assoc, ← sub_mul, abs_mul, abs_of_pos hstep] at hle
  have hle := le_of_mul_le_mul_right hle hstep
  -- the distance in whole parts of a step
  have hscale : d * ((coarseNum e : ℚ) / coarseDen e) - (j + 1 / 2)
      = ((2 * coarseNum e * d : ℕ) - (2 * coarseDen e * j + coarseDen e : ℕ)) / (2 * coarseDen e) := by
    push_cast
    field_simp
  rw [hscale, abs_div, abs_of_pos (by positivity : (0 : ℚ) < 2 * coarseDen e), div_le_iff₀ (by positivity)] at hle
  have hnear : |((2 * coarseNum e * d : ℕ) : ℤ) - (2 * coarseDen e * j + coarseDen e : ℕ)| ≤ reach e := by
    have hint : |((2 * coarseNum e * d : ℕ) : ℤ) - (2 * coarseDen e * j + coarseDen e : ℕ)| * 2 ^ 40
        ≤ 2 * coarseDen e * 4097 := by
      have hq : |((2 * coarseNum e * d : ℕ) : ℚ) - (2 * coarseDen e * j + coarseDen e : ℕ)| * 2 ^ 40
          ≤ 2 * coarseDen e * 4097 := by linarith
      exact_mod_cast hq
    have : ((reach e : ℕ) : ℤ) = 2 * coarseDen e * 4097 / 2 ^ 40 := by
      rw [reach]
      push_cast
      rfl
    rw [this]
    omega
  obtain ⟨hlow, hhigh⟩ := abs_le.mp hnear
  obtain ⟨r, hr⟩ : ∃ r, 2 * coarseNum e * d = 2 * coarseDen e * j + r :=
    ⟨2 * coarseNum e * d - 2 * coarseDen e * j, by omega⟩
  have hmod : 2 * coarseNum e % (2 * coarseDen e) * d % (2 * coarseDen e) = r := by
    rw [Nat.mod_mul_mod, hr, Nat.mul_add_mod, Nat.mod_eq_of_lt (by omega)]
  refine Residues.staysOut_spec (Nat.mod_lt _ (by omega)) (by omega) h hstart hstop ?_
  rw [hmod]
  omega

/-! ## The digits of a value inside its grid -/

theorem exponent_bounds {n : ℕ} (hn : n < single.infinityRank) :
    -149 ≤ single.exponent n ∧ single.exponent n ≤ 104 := by
  have hk : n / single.block < 255 := (Nat.div_lt_iff_lt_mul single.block_pos).mpr hn
  have hexp : single.exponent n = -149 + ((n / single.block - 1 : ℕ) : ℤ) := rfl
  omega

/-- A step is not above the coarse unit, and clearly above the next finer one. -/
theorem coarse_bounds {e : ℤ} (hlow : -149 ≤ e) (hhigh : e ≤ 104) :
    (2 : ℚ) ^ e ≤ 10 ^ coarsePlace e ∧ (10 : ℚ) ^ (coarsePlace e - 1) * 2 ^ 26 ≤ 2 ^ e * (2 ^ 26 - 1) := by
  have h := sound hlow hhigh
  simp only [isSound, Bool.and_eq_true, decide_eq_true_eq] at h
  obtain ⟨⟨hge, hle⟩, -⟩ := h
  have hdenq : (0 : ℚ) < coarseDen e := by exact_mod_cast coarseDen_pos e
  have hstep : (0 : ℚ) < 2 ^ e := by positivity
  have hgeq : (coarseDen e : ℚ) ≤ coarseNum e := by exact_mod_cast hge
  have hleq : (coarseNum e : ℚ) * 2 ^ 26 ≤ 10 * coarseDen e * (2 ^ 26 - 1) := by
    have : ((coarseNum e * 2 ^ 26 : ℕ) : ℚ) ≤ (10 * coarseDen e * (2 ^ 26 - 1) : ℕ) := Nat.cast_le.mpr hle
    push_cast at this
    norm_num at this ⊢
    exact this
  constructor
  · rw [coarse_ratio]
    exact le_mul_of_one_le_left hstep.le ((one_le_div₀ hdenq).mpr hgeq)
  · rw [zpow_sub_one₀ (by norm_num), coarse_ratio]
    have hratio : (coarseNum e : ℚ) / coarseDen e * 2 ^ 26 ≤ 10 * (2 ^ 26 - 1) := by
      rw [div_mul_eq_mul_div, div_le_iff₀ hdenq]
      linarith
    have := mul_le_mul_of_nonneg_left hratio hstep.le
    linarith

variable {n : ℕ}

theorem value_bounds (hinner : single.IsInner n) :
    (2 : ℚ) ^ single.exponent n ≤ single.value n ∧
      single.value n + 2 ^ single.exponent n ≤ 2 ^ 24 * 2 ^ single.exponent n := by
  obtain ⟨hrank, hk, hm⟩ := single.rank_place n
  have hstep : (0 : ℚ) < 2 ^ single.exponent n := by positivity
  rw [value]
  have hsig : (1 : ℚ) ≤ single.significand n := by exact_mod_cast significand_pos hinner.1
  have hsig' : (single.significand n : ℚ) + 1 ≤ 2 ^ 24 := by
    have : single.significand n + 1 ≤ 2 ^ 24 := hm
    exact_mod_cast this
  constructor
  · exact le_mul_of_one_le_left hstep.le hsig
  · have := mul_le_mul_of_nonneg_right hsig' hstep.le
    linarith

/-- The place below the coarse one is among those that are searched. -/
theorem leadingPlace_inner (hinner : single.IsInner n) (hn : n < single.infinityRank) :
    let lead := leadingPlace (single.ratio n).1 (single.ratio n).2
    lead - single.enoughDigits < coarsePlace (single.exponent n) - 1 ∧
      coarsePlace (single.exponent n) - 1 ≤ lead := by
  obtain ⟨hlow, hhigh⟩ := exponent_bounds hn
  obtain ⟨hcoarse, hfine⟩ := coarse_bounds hlow hhigh
  obtain ⟨hvlow, hvhigh⟩ := value_bounds hinner
  have hstep : (0 : ℚ) < 2 ^ single.exponent n := by positivity
  have hnum : 0 < (single.ratio n).1 := Nat.mul_pos (significand_pos hinner.1) (Nat.two_pow_pos _)
  obtain ⟨hlead, hlead'⟩ := leadingPlace_bounds hnum (single.ratio_den_pos n)
  rw [single.ratio_eq_value] at hlead hlead'
  intro lead
  constructor
  · have h : (10 : ℚ) ^ lead < 10 ^ (coarsePlace (single.exponent n) + 8) := by
      calc (10 : ℚ) ^ lead ≤ single.value n := hlead
        _ < 2 ^ 24 * 2 ^ single.exponent n := by linarith
        _ ≤ 2 ^ 24 * 10 ^ coarsePlace (single.exponent n) := by gcongr
        _ ≤ 10 ^ coarsePlace (single.exponent n) * 10 ^ (8 : ℤ) := by
          rw [mul_comm]
          exact mul_le_mul_of_nonneg_left (by norm_num) (by positivity)
        _ = 10 ^ (coarsePlace (single.exponent n) + 8) := by rw [← zpow_add₀ (by norm_num)]
    rw [zpow_lt_zpow_iff_right₀ (by norm_num)] at h
    have : single.enoughDigits = 9 := rfl
    omega
  · have hunit : (10 : ℚ) ^ (coarsePlace (single.exponent n) - 1) < 2 ^ single.exponent n := by linarith
    have h := hunit.trans (hvlow.trans_lt hlead')
    rw [zpow_lt_zpow_iff_right₀ (by norm_num)] at h
    exact Int.lt_add_one_iff.mp h

/-- The search ends no later than at the place below the coarse one, and there with the nearer neighbour. -/
theorem search_inner (hinner : single.IsInner n) (hn : n < single.infinityRank) :
    ∃ p digits, single.search .toEven n single.enoughDigits (leadingPlace (single.ratio n).1 (single.ratio n).2)
        = (digits, p) ∧ coarsePlace (single.exponent n) - 1 ≤ p ∧
      (p = coarsePlace (single.exponent n) - 1 →
        |digits * (10 : ℚ) ^ p - single.value n| ≤ (10 : ℚ) ^ p / 2) := by
  obtain ⟨hlow, hhigh⟩ := exponent_bounds hn
  have hfine := (coarse_bounds hlow hhigh).2
  have hstep : (0 : ℚ) < 2 ^ single.exponent n := by positivity
  have hunit : (10 : ℚ) ^ (coarsePlace (single.exponent n) - 1) < 2 ^ single.exponent n := by linarith
  obtain ⟨habove, hbelow⟩ := leadingPlace_inner hinner hn
  obtain ⟨digits, hsome, hnear⟩ : ∃ digits,
      single.neighbourAt .toEven n (coarsePlace (single.exponent n) - 1) = some digits ∧ _ :=
    neighbourAt_near fun q hq => rankOf_of_near hinner hn (lt_of_le_of_lt hq (by linarith))
  rcases single.search_cases .toEven n single.enoughDigits
      (leadingPlace (single.ratio n).1 (single.ratio n).2) with ⟨p, d, hp, hnone, hd, heq⟩ | ⟨hnone, -⟩
  · refine ⟨p, d, heq, ?_, ?_⟩
    · by_contra hlt
      rw [hnone _ (by omega) hbelow] at hsome
      cases hsome
    · rintro rfl
      rw [hd] at hsome
      obtain rfl := Option.some.inj hsome
      exact hnear
  · rw [hnone _ habove hbelow] at hsome
    cases hsome

/-- What is known of the number that is written for a value inside its grid: it reads back, and its last digit is
not far below the step of the grid. -/
structure IsWrittenFor (n d : ℕ) (place p : ℤ) (d₀ : ℕ) : Prop where
  pos : 0 < d
  reads : single.rankOf (d * (10 : ℚ) ^ place) = n
  same : d * (10 : ℚ) ^ place = d₀ * (10 : ℚ) ^ p
  fine : coarsePlace (single.exponent n) - 1 ≤ p
  le_place : p ≤ place
  near : p = coarsePlace (single.exponent n) - 1 → |d₀ * (10 : ℚ) ^ p - single.value n| ≤ (10 : ℚ) ^ p / 2

theorem shortest_inner (hinner : single.IsInner n) (hn : n < single.infinityRank) :
    ∃ p d₀, IsWrittenFor n (single.shortest .toEven n).1 (single.shortest .toEven n).2 p d₀ := by
  obtain ⟨p, d₀, hsearch, hfine, hnear⟩ := search_inner hinner hn
  have hshort : single.shortest .toEven n = dropZeros d₀ p := by
    rw [shortest, if_neg hinner.1.ne', hsearch]
  refine ⟨p, d₀, Nat.pos_of_ne_zero (shortest_ne_zero hn hinner.1), rankOf_shortest single .toEven hn, ?_,
    hfine, ?_, hnear⟩
  · rw [hshort, dropZeros_value]
  · rw [hshort]
    exact place_le_dropZeros d₀ p

namespace IsWrittenFor

variable {d d₀ : ℕ} {place p : ℤ}

theorem magnitude_pos (h : IsWrittenFor n d place p d₀) : 0 < d * (10 : ℚ) ^ place := by
  have : (0 : ℚ) < d := by exact_mod_cast h.pos
  positivity

theorem near_value (h : IsWrittenFor n d place p d₀) (hinner : single.IsInner n) (hn : n < single.infinityRank) :
    |d * (10 : ℚ) ^ place - single.value n| ≤ 2 ^ single.exponent n / 2 :=
  near_of_rankOf hinner hn h.magnitude_pos h.reads

theorem magnitude_lt (h : IsWrittenFor n d place p d₀) (hinner : single.IsInner n)
    (hn : n < single.infinityRank) : d * (10 : ℚ) ^ place < 2 ^ 24 * 2 ^ single.exponent n := by
  have hstep : (0 : ℚ) < 2 ^ single.exponent n := by positivity
  have hnear := (abs_le.mp (h.near_value hinner hn)).2
  have hvalue := (value_bounds hinner).2
  linarith

/-- The digits fit into 53 bits. -/
theorem digits_lt (h : IsWrittenFor n d place p d₀) (hinner : single.IsInner n)
    (hn : n < single.infinityRank) : d < 2 ^ 53 := by
  obtain ⟨hlow, hhigh⟩ := exponent_bounds hn
  have hlt : d * (10 : ℚ) ^ place < 2 ^ 24 * 10 * 10 ^ place := by
    calc d * (10 : ℚ) ^ place < 2 ^ 24 * 2 ^ single.exponent n := h.magnitude_lt hinner hn
      _ ≤ 2 ^ 24 * 10 ^ (coarsePlace (single.exponent n) - 1 + 1) := by
        rw [sub_add_cancel]
        have := (coarse_bounds hlow hhigh).1
        gcongr
      _ = 2 ^ 24 * 10 * 10 ^ (coarsePlace (single.exponent n) - 1) := by
        rw [zpow_add_one₀ (by norm_num)]
        ring
      _ ≤ 2 ^ 24 * 10 * 10 ^ place := by
        have := zpow_le_zpow_right₀ (a := (10 : ℚ)) (by norm_num) (h.fine.trans h.le_place)
        gcongr
  have hd := lt_of_mul_lt_mul_right hlt (by positivity)
  have : d < 2 ^ 24 * 10 := by
    norm_num at hd ⊢
    exact_mod_cast hd
  omega

/-- A number below a power of ten has no digit at its place. -/
theorem place_lt (h : IsWrittenFor n d place p d₀) {k : ℤ} (hk : d * (10 : ℚ) ^ place < 10 ^ k) : place < k := by
  have hone : (1 : ℚ) ≤ d := by exact_mod_cast h.pos
  have hle : (10 : ℚ) ^ place ≤ d * 10 ^ place := le_mul_of_one_le_left (by positivity) hone
  exact (zpow_lt_zpow_iff_right₀ (by norm_num)).mp (hle.trans_lt hk)

theorem place_bounds (h : IsWrittenFor n d place p d₀) (hinner : single.IsInner n)
    (hn : n < single.infinityRank) : place.natAbs ≤ 100 := by
  obtain ⟨hlow, hhigh⟩ := exponent_bounds hn
  have hlt : place < 39 := by
    refine h.place_lt ((h.magnitude_lt hinner hn).trans_le ?_)
    calc (2 : ℚ) ^ 24 * 2 ^ single.exponent n ≤ 2 ^ 24 * 2 ^ (104 : ℤ) := by
          have := zpow_le_zpow_right₀ (a := (2 : ℚ)) (by norm_num) hhigh
          gcongr
      _ ≤ 10 ^ (39 : ℤ) := by norm_num
  have hfine := h.fine
  have hle := h.le_place
  rw [coarsePlace] at hfine
  omega

/-- At a coarse place the number is a multiple of the coarse unit. -/
theorem multiple (h : IsWrittenFor n d place p d₀) (hcoarse : coarsePlace (single.exponent n) ≤ p) :
    d * (10 : ℚ) ^ place = (d₀ * 10 ^ (p - coarsePlace (single.exponent n)).toNat : ℕ) *
      10 ^ coarsePlace (single.exponent n) := by
  rw [h.same]
  push_cast
  rw [mul_assoc, ← zpow_natCast, ← zpow_add₀ (by norm_num), Int.toNat_of_nonneg (by omega), sub_add_cancel]

end IsWrittenFor

/-! ## Reading back inside a grid -/

/-- How far reading in steps goes, in steps of the grid. -/
theorem step_error {D y U : ℚ} (hD : D < 2 ^ 24 * U) (h : |D - y| ≤ D * Double.stepError) :
    |D - y| < 4097 / 2 ^ 40 * U := by
  have hpos : 0 < Double.stepError := by norm_num [Double.stepError]
  calc |D - y| ≤ D * Double.stepError := h
    _ < 2 ^ 24 * U * Double.stepError := by gcongr
    _ = 4097 / 2 ^ 40 * U := by
      rw [Double.stepError]
      ring

variable {d d₀ : ℕ} {place p : ℤ} {y : ℚ}

/-- At the finest place the nearer neighbour leaves room for the error. -/
theorem rankOf_fine (h : IsWrittenFor n d place p d₀) (hinner : single.IsInner n) (hn : n < single.infinityRank)
    (hp : p = coarsePlace (single.exponent n) - 1)
    (hy : |d * (10 : ℚ) ^ place - y| ≤ d * (10 : ℚ) ^ place * Double.stepError) : single.rankOf y = n := by
  obtain ⟨hlow, hhigh⟩ := exponent_bounds hn
  have hfine := (coarse_bounds hlow hhigh).2
  have hnear := h.near hp
  have hstep : (0 : ℚ) < 2 ^ single.exponent n := by positivity
  have herror := step_error (h.magnitude_lt hinner hn) hy
  rw [← h.same] at hnear
  rw [hp] at hnear
  refine rankOf_of_near hinner hn ?_
  rw [abs_sub_comm] at herror
  have htri := abs_sub_le y (d * (10 : ℚ) ^ place) (single.value n)
  generalize (2 : ℚ) ^ single.exponent n = U at *
  norm_num at herror hfine
  linarith

/-- In a small range the number is held exactly in 64 bits. -/
theorem exact_small (h : IsWrittenFor n d place p d₀) (hinner : single.IsInner n) (hn : n < single.infinityRank)
    (hcoarse : coarsePlace (single.exponent n) ≤ p) (hlow : 1 ≤ single.exponent n) (hhigh : single.exponent n ≤ 33) :
    place.natAbs ≤ 22 ∧
      double.rankOf (d * (10 : ℚ) ^ place) < double.infinityRank ∧
      double.value (double.rankOf (d * (10 : ℚ) ^ place)) = d * (10 : ℚ) ^ place := by
  have hsound := sound (e := single.exponent n) (by omega) (by omega)
  simp only [isSound, Bool.and_eq_true, decide_eq_true_eq, if_pos (And.intro hlow hhigh)] at hsound
  obtain ⟨-, hpos, hroom⟩ := hsound
  have hlt := h.magnitude_lt hinner hn
  constructor
  · have hplace : place < 18 := by
      refine h.place_lt (hlt.trans_le ?_)
      calc (2 : ℚ) ^ 24 * 2 ^ single.exponent n ≤ 2 ^ 24 * 2 ^ (33 : ℤ) := by
            have := zpow_le_zpow_right₀ (a := (2 : ℚ)) (by norm_num) hhigh
            gcongr
        _ ≤ 10 ^ (18 : ℤ) := by norm_num
    have := h.le_place
    omega
  · -- the number is a multiple of a power of two
    have hmul := h.multiple hcoarse
    set d' := d₀ * 10 ^ (p - coarsePlace (single.exponent n)).toNat
    have hsplit : (10 : ℚ) ^ coarsePlace (single.exponent n)
        = (5 ^ (coarsePlace (single.exponent n)).toNat : ℕ) * 2 ^ coarsePlace (single.exponent n) := by
      obtain ⟨k, hk⟩ := Int.eq_ofNat_of_zero_le hpos.le
      rw [hk, Int.toNat_natCast, zpow_natCast, zpow_natCast, Nat.cast_pow, ← mul_pow]
      norm_num
    rw [hsplit, ← mul_assoc, ← Nat.cast_mul] at hmul
    rw [hmul] at hlt ⊢
    refine rankOf_double_exact ?_ (by omega) (by rw [coarsePlace]; omega)
    have hq : ((d' * 5 ^ (coarsePlace (single.exponent n)).toNat : ℕ) : ℚ) < 2 ^ (53 : ℤ) := by
      have hscale : (2 : ℚ) ^ 24 * 2 ^ single.exponent n ≤ 2 ^ (53 : ℤ) * 2 ^ coarsePlace (single.exponent n) := by
        rw [show ((2 : ℚ) ^ 24) = 2 ^ (24 : ℤ) from rfl, ← zpow_add₀ (by norm_num), ← zpow_add₀ (by norm_num)]
        exact zpow_le_zpow_right₀ (by norm_num) (by omega)
      exact lt_of_mul_lt_mul_right (hlt.trans_le hscale) (by positivity)
    rw [show (53 : ℤ) = ((53 : ℕ) : ℤ) from rfl, zpow_natCast] at hq
    exact_mod_cast hq

/-- The multiple that a coarse number is, in the range that is searched. -/
theorem coarse_range {e : ℤ} {c m : ℕ} (hm : e = -149 ∨ 2 ^ 23 < m) (hm' : m < 2 ^ 24)
    (hnear : |c * (10 : ℚ) ^ coarsePlace e - m * 2 ^ e| ≤ 2 ^ e / 2) :
    (if e = -149 then 0 else 2 ^ 23 * coarseDen e / coarseNum e) ≤ c ∧
      c < 2 ^ 24 * coarseDen e / coarseNum e + 1 := by
  have hden : (0 : ℚ) < coarseDen e := by exact_mod_cast coarseDen_pos e
  have hstep : (0 : ℚ) < 2 ^ e := by positivity
  have hhalf : (2 : ℚ) ^ e / 2 = 1 / 2 * 2 ^ e := by ring
  rw [coarse_ratio, ← mul_assoc, ← sub_mul, abs_mul, abs_of_pos hstep, hhalf] at hnear
  obtain ⟨hlow, hhigh⟩ := abs_le.mp (le_of_mul_le_mul_right hnear hstep)
  rw [← mul_div_assoc] at hlow hhigh
  constructor
  · split
    · exact Nat.zero_le c
    · rename_i he
      have hmq : ((2 ^ 23 + 1 : ℕ) : ℚ) ≤ m := by exact_mod_cast hm.resolve_left he
      have h : (2 ^ 23 : ℚ) ≤ c * coarseNum e / coarseDen e := by
        push_cast at hmq
        linarith
      rw [le_div_iff₀ hden] at h
      exact Nat.div_le_of_le_mul (by rw [mul_comm (coarseNum e)]; exact_mod_cast h)
  · have hmq : ((m + 1 : ℕ) : ℚ) ≤ (2 ^ 24 : ℕ) := by exact_mod_cast hm'
    have h : c * coarseNum e / coarseDen e ≤ (2 ^ 24 : ℚ) := by
      push_cast at hmq
      linarith
    rw [div_le_iff₀ hden] at h
    exact Nat.lt_succ_of_le ((Nat.le_div_iff_mul_le (coarseNum_pos e)).mpr (by exact_mod_cast h))

/-- The multiple that a coarse number is keeps away from the midpoints. -/
theorem multiple_far {c : ℕ} (hgrid : n % single.block ≠ 0) (hn : n < single.infinityRank)
    (hrange : ¬ (1 ≤ single.exponent n ∧ single.exponent n ≤ 33)) (hodd : n ≠ 0x15ae43fd)
    (hread : single.rankOf (c * (10 : ℚ) ^ coarsePlace (single.exponent n)) = n)
    (hnear : |c * (10 : ℚ) ^ coarsePlace (single.exponent n) - single.value n| ≤ 2 ^ single.exponent n / 2) (j : ℕ) :
    4097 / 2 ^ 40 * (2 : ℚ) ^ single.exponent n <
      |c * (10 : ℚ) ^ coarsePlace (single.exponent n) - (j + 1 / 2) * 2 ^ single.exponent n| := by
  obtain ⟨hlow, hhigh⟩ := exponent_bounds hn
  have hsound := sound hlow hhigh
  simp only [isSound, Bool.and_eq_true, decide_eq_true_eq, if_neg hrange] at hsound
  obtain ⟨-, hclear⟩ := hsound
  have hpos : 0 < n := Nat.pos_of_ne_zero fun h0 => hgrid (by rw [h0, Nat.zero_mod])
  have hinside : single.exponent n = -149 ∨ 2 ^ 23 < single.significand n := by
    refine (IsInner.inside ⟨hpos, Or.inl hgrid⟩).imp_left fun hk => ?_
    rw [exponent, hk]
    rfl
  obtain ⟨hstart, hstop⟩ := coarse_range hinside (single.rank_place n).2.2 hnear
  by_cases he : single.exponent n = -107
  · rw [if_pos he, Bool.and_eq_true] at hclear
    rcases lt_trichotomy c 7038531 with hc | hc | hc
    · exact midpoint_far hclear.1 hstart hc j
    · -- the one number that is near a midpoint belongs to one value
      rw [hc, he, show coarsePlace (-107) = -32 from rfl, ← nearestRank_decimal] at hread
      exact absurd (hread.symm.trans (by decide +kernel)) hodd
    · exact midpoint_far hclear.2 hc hstop j
  · rw [if_neg he] at hclear
    exact midpoint_far hclear hstart hstop j

/-- What keeps away from the midpoints stays on its side of them. -/
theorem stays_near {D y U ε : ℚ} {m : ℕ} (hm : 0 < m) (hnear : |D - m * U| ≤ U / 2) (herror : |D - y| < ε)
    (hfar : ∀ j : ℕ, ε < |D - (j + 1 / 2) * U|) : |y - m * U| < U / 2 := by
  have hright := hfar m
  have hleft := hfar (m - 1)
  rw [Nat.cast_sub hm, Nat.cast_one] at hleft
  obtain ⟨hnear₁, hnear₂⟩ := abs_le.mp hnear
  obtain ⟨herror₁, herror₂⟩ := abs_lt.mp herror
  rw [abs_of_nonpos (by linarith)] at hright
  rw [abs_of_nonneg (by linarith)] at hleft
  rw [abs_lt]
  constructor <;> linarith

/-- At a coarse place the number keeps away from the midpoints. -/
theorem rankOf_coarse (h : IsWrittenFor n d place p d₀) (hinner : single.IsInner n) (hn : n < single.infinityRank)
    (hgrid : n % single.block ≠ 0) (hcoarse : coarsePlace (single.exponent n) ≤ p)
    (hrange : ¬ (1 ≤ single.exponent n ∧ single.exponent n ≤ 33)) (hodd : n ≠ 0x15ae43fd)
    (hy : |d * (10 : ℚ) ^ place - y| ≤ d * (10 : ℚ) ^ place * Double.stepError) : single.rankOf y = n := by
  have hnear := h.near_value hinner hn
  have hread := h.reads
  have herror := step_error (h.magnitude_lt hinner hn) hy
  rw [h.multiple hcoarse] at hnear hread herror
  have hfar := multiple_far hgrid hn hrange hodd hread hnear
  rw [value] at hnear
  apply rankOf_of_near hinner hn
  rw [value]
  exact stays_near (significand_pos hinner.1) hnear herror hfar

/-- **A number that is written for a value inside its grid is read back to it in steps.** -/
theorem reread_inner {m : Numeral} (h : IsWrittenFor n d place p d₀) (hinner : single.IsInner n)
    (hn : n < single.infinityRank) (hgrid : n % single.block ≠ 0) (hodd : n ≠ 0x15ae43fd)
    (hm : m.decimal = ⟨m.negative, d, place⟩) :
    (Double.inSteps m).rank < double.infinityRank ∧ double.convert single (Double.inSteps m).rank = n := by
  have hmag : m.decimal.magnitude = d * (10 : ℚ) ^ place := by rw [hm, Decimal.magnitude]
  have hpos : 0 < m.decimal.digits := by rw [hm]; exact h.pos
  have hfits : m.decimal.digits < 2 ^ 53 := by rw [hm]; exact h.digits_lt hinner hn
  have hexp : m.decimal.exponent.natAbs ≤ 100 := by rw [hm]; exact h.place_bounds hinner hn
  obtain ⟨hfinite, herror⟩ := Double.inSteps_error hpos hfits hexp
  refine ⟨hfinite, ?_⟩
  rw [hmag] at herror
  rw [convert_of_lt hfinite]
  rcases h.fine.eq_or_lt with hp | hp
  · exact rankOf_fine h hinner hn hp.symm herror
  · have hcoarse : coarsePlace (single.exponent n) ≤ p := by omega
    by_cases hrange : 1 ≤ single.exponent n ∧ single.exponent n ≤ 33
    · obtain ⟨hplace, -, hvalue⟩ := exact_small h hinner hn hcoarse hrange.1 hrange.2
      rw [Double.inSteps_exact hpos hfits (by rw [hm]; exact hplace), hmag, hvalue]
      exact h.reads
    · exact rankOf_coarse h hinner hn hgrid hcoarse hrange hodd herror

end SingleGrid

end TouchStream
