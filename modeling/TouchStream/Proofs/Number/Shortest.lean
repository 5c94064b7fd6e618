import TouchStream.Number.Shortest
import TouchStream.Proofs.Number.Numeral
import TouchStream.Proofs.Number.Value

/-!
# Shortest digits read back

Whatever digits are chosen for a finite value, the number they stand for is rounded to that value
(`BinaryFormat.rankOf_shortest`): a neighbour is taken only if it reads back, and all digits of the value stand
for the value itself. The numeral that a style writes stands for the same number and is well written
(`FloatStyle.numeral_magnitude`, `FloatStyle.isWritten_numeral`).
-/

namespace TouchStream

namespace BinaryFormat

variable {f : BinaryFormat} {tie : Tie} {n digits : ℕ} {place : ℤ}

theorem readsBack_iff : f.readsBack n digits place = true ↔ f.rankOf (digits * (10 : ℚ) ^ place) = n := by
  rw [readsBack, nearestRank_decimal, beq_iff_eq]

/-! ## The two neighbours -/

/-- What is taken of two neighbours: one that reads back, and where both do, not the farther one. -/
inductive Picks (low rest den : ℕ) : (lowReads highReads : Bool) → Option ℕ → Prop where
  | neither : Picks low rest den false false none
  | lower {highReads : Bool} (h : highReads = true → 2 * rest ≤ den) : Picks low rest den true highReads (some low)
  | upper {lowReads : Bool} (h : lowReads = true → den ≤ 2 * rest) : Picks low rest den lowReads true (some (low + 1))

theorem picks_nearer (tie : Tie) (low rest den : ℕ) :
    Picks low rest den true true
      (if 2 * rest < den then some low
      else if den < 2 * rest then some (low + 1)
      else match tie with
        | .toEven => some (low + low % 2)
        | .upward => some (low + 1)) := by
  split
  · rename_i h
    exact .lower fun _ => h.le
  · rename_i hge
    split
    · rename_i h
      exact .upper fun _ => h.le
    · rename_i hle
      cases tie with
      | upward => exact .upper fun _ => not_lt.mp hge
      | toEven =>
        dsimp only
        rcases Nat.mod_two_eq_zero_or_one low with hmod | hmod <;> rw [hmod]
        · exact .lower fun _ => not_lt.mp hle
        · exact .upper fun _ => not_lt.mp hge

/-- The value of rank `n` lies between two neighbours, and one of them is taken. -/
theorem neighbourAt_picks (f : BinaryFormat) (tie : Tie) (n : ℕ) (place : ℤ) :
    ∃ low rest den : ℕ, 0 < den ∧ rest < den ∧
      f.value n = (low + (rest : ℚ) / den) * (10 : ℚ) ^ place ∧
      Picks low rest den (f.readsBack n low place) (f.readsBack n (low + 1) place) (f.neighbourAt tie n place) := by
  have h10 := zpow_eq_div 10 place
  rw [Nat.cast_ofNat] at h10
  have hpow : ∀ i, 0 < Nat.pow 10 i := fun i => Nat.pow_pos (by norm_num)
  obtain ⟨num, hnum⟩ : ∃ num, num = (f.ratio n).1 * Nat.pow 10 (-place).toNat := ⟨_, rfl⟩
  obtain ⟨den, hden⟩ : ∃ den, den = (f.ratio n).2 * Nat.pow 10 place.toNat := ⟨_, rfl⟩
  have hpos : 0 < den := by
    rw [hden]
    exact Nat.mul_pos (f.ratio_den_pos n) (hpow _)
  refine ⟨num / den, num % den, den, hpos, Nat.mod_lt _ hpos, ?_, ?_⟩
  · have hdown : ((Nat.pow 10 (-place).toNat : ℕ) : ℚ) ≠ 0 := by exact_mod_cast (hpow _).ne'
    have hup : ((Nat.pow 10 place.toNat : ℕ) : ℚ) ≠ 0 := by exact_mod_cast (hpow _).ne'
    have hratio : ((f.ratio n).2 : ℚ) ≠ 0 := by exact_mod_cast (f.ratio_den_pos n).ne'
    rw [← div_eq_quotient_add num hpos, ← ratio_eq_value, h10, hnum, hden, Nat.cast_mul, Nat.cast_mul]
    field_simp
  · unfold neighbourAt
    dsimp only
    rw [← hnum, ← hden]
    split
    · rename_i hlow hhigh
      rw [hlow, hhigh]
      exact .neither
    · rename_i hlow hhigh
      rw [hlow, hhigh]
      exact .lower fun h => by cases h
    · rename_i hlow hhigh
      rw [hlow, hhigh]
      exact .upper fun h => by cases h
    · rename_i hlow hhigh
      rw [hlow, hhigh]
      exact picks_nearer tie _ _ _

theorem rankOf_neighbourAt (h : f.neighbourAt tie n place = some digits) :
    f.rankOf (digits * (10 : ℚ) ^ place) = n := by
  obtain ⟨low, rest, den, -, -, -, hpicks⟩ := f.neighbourAt_picks tie n place
  rw [h] at hpicks
  rw [← readsBack_iff]
  generalize hlow : f.readsBack n low place = lowReads at hpicks
  generalize hhigh : f.readsBack n (low + 1) place = highReads at hpicks
  cases hpicks with
  | lower => exact hlow
  | upper => exact hhigh

/-- Where all numbers within half a unit of a place read back, the nearer neighbour is taken. -/
theorem neighbourAt_near
    (hnear : ∀ q, |q - f.value n| ≤ (10 : ℚ) ^ place / 2 → f.rankOf q = n) :
    ∃ digits, f.neighbourAt tie n place = some digits ∧
      |digits * (10 : ℚ) ^ place - f.value n| ≤ (10 : ℚ) ^ place / 2 := by
  obtain ⟨low, rest, den, hden, hrest, hvalue, hpicks⟩ := f.neighbourAt_picks tie n place
  have hunit : (0 : ℚ) < (10 : ℚ) ^ place := by positivity
  have hlow : 2 * rest ≤ den → |low * (10 : ℚ) ^ place - f.value n| ≤ (10 : ℚ) ^ place / 2 := by
    intro h
    have hhalf : (rest : ℚ) / den ≤ 1 / 2 := not_lt.mp (mt (half_lt_div_iff hden).mp (not_lt.mpr h))
    have hbelow : (0 : ℚ) ≤ rest / den := by positivity
    have hdistance : low * (10 : ℚ) ^ place - f.value n = -((rest : ℚ) / den * 10 ^ place) := by
      rw [hvalue]
      ring
    rw [hdistance, abs_neg, abs_of_nonneg (by positivity)]
    nlinarith
  have hhigh : den ≤ 2 * rest → |(low + 1 : ℕ) * (10 : ℚ) ^ place - f.value n| ≤ (10 : ℚ) ^ place / 2 := by
    intro h
    have hhalf : (1 : ℚ) / 2 ≤ rest / den := not_lt.mp (mt (div_lt_half_iff hden).mp (not_lt.mpr h))
    have habove : (rest : ℚ) / den < 1 := (div_lt_one (by exact_mod_cast hden)).mpr (by exact_mod_cast hrest)
    have hdistance : (low + 1 : ℕ) * (10 : ℚ) ^ place - f.value n = (1 - (rest : ℚ) / den) * 10 ^ place := by
      rw [hvalue]
      push_cast
      ring
    rw [hdistance, abs_of_nonneg (mul_nonneg (by linarith) hunit.le)]
    nlinarith
  have hlowReads : 2 * rest ≤ den → f.readsBack n low place = true := fun h => readsBack_iff.mpr (hnear _ (hlow h))
  have hhighReads : den ≤ 2 * rest → f.readsBack n (low + 1) place = true := fun h =>
    readsBack_iff.mpr (hnear _ (hhigh h))
  generalize f.readsBack n low place = lowReads at hpicks hlowReads
  generalize f.readsBack n (low + 1) place = highReads at hpicks hhighReads
  generalize f.neighbourAt tie n place = picked at hpicks ⊢
  cases hpicks with
  | neither =>
    rcases le_total (2 * rest) den with h | h
    · cases hlowReads h
    · cases hhighReads h
  | lower hfarther =>
    refine ⟨low, rfl, hlow ?_⟩
    rcases le_total (2 * rest) den with h | h
    · exact h
    · exact hfarther (hhighReads h)
  | upper hfarther =>
    refine ⟨low + 1, rfl, hhigh ?_⟩
    rcases le_total (2 * rest) den with h | h
    · exact hfarther (hlowReads h)
    · exact h

/-! ## The search -/

theorem allDigits_value (f : BinaryFormat) (n : ℕ) :
    ((f.allDigits n).1 : ℚ) * (10 : ℚ) ^ (f.allDigits n).2 = f.value n := by
  have hpow : (10 : ℚ) ^ (-f.exponent n).toNat = 2 ^ (-f.exponent n).toNat * 5 ^ (-f.exponent n).toNat := by
    rw [← mul_pow]
    norm_num
  rw [allDigits, ← ratio_eq_value, ratio]
  dsimp only
  rw [Nat.pow_eq, Nat.pow_eq, Nat.pow_eq, zpow_neg, zpow_natCast, hpow]
  push_cast
  field_simp

/-- The digits that a search finds: the neighbour at the first place that has one, or all digits. -/
theorem search_cases (f : BinaryFormat) (tie : Tie) (n rounds : ℕ) (place : ℤ) :
    (∃ p digits, p ≤ place ∧ (∀ p', p < p' → p' ≤ place → f.neighbourAt tie n p' = none) ∧
        f.neighbourAt tie n p = some digits ∧ f.search tie n rounds place = (digits, p)) ∨
      ((∀ p, place - rounds < p → p ≤ place → f.neighbourAt tie n p = none) ∧
        f.search tie n rounds place = f.allDigits n) := by
  induction rounds generalizing place with
  | zero =>
    right
    exact ⟨fun p hp hp' => by omega, rfl⟩
  | succ rounds ih =>
    rw [search]
    cases h : f.neighbourAt tie n place with
    | some digits => exact Or.inl ⟨place, digits, le_rfl, fun p' _ _ => by omega, h, rfl⟩
    | none =>
      have hplace : ∀ p' : ℤ, p' ≤ place → p' = place ∨ p' ≤ place - 1 := fun p' _ => by omega
      rcases ih (place - 1) with ⟨p, digits, hp, hnone, hsome, heq⟩ | ⟨hnone, heq⟩
      · refine Or.inl ⟨p, digits, by omega, fun p' hlt hle => ?_, hsome, heq⟩
        rcases hplace p' hle with rfl | hle
        · exact h
        · exact hnone p' hlt hle
      · refine Or.inr ⟨fun p' hlt hle => ?_, heq⟩
        rcases hplace p' hle with rfl | hle
        · exact h
        · exact hnone p' (by omega) hle

theorem dropZeros_value (digits : ℕ) (place : ℤ) :
    ((dropZeros digits place).1 : ℚ) * (10 : ℚ) ^ (dropZeros digits place).2 = digits * (10 : ℚ) ^ place := by
  fun_induction dropZeros digits place with
  | case1 digits place h ih =>
    have hten : digits = 10 * (digits / 10) := by omega
    rw [ih, zpow_add_one₀ (by norm_num)]
    conv_rhs => rw [hten]
    push_cast
    ring
  | case2 => rfl

theorem place_le_dropZeros (digits : ℕ) (place : ℤ) : place ≤ (dropZeros digits place).2 := by
  fun_induction dropZeros digits place with
  | case1 digits place h ih => omega
  | case2 => exact le_rfl

/-- The place of the leading digit is the decimal logarithm. -/
theorem leadingPlace_bounds {num den : ℕ} (hnum : 0 < num) (hden : 0 < den) :
    (10 : ℚ) ^ leadingPlace num den ≤ num / den ∧ (num : ℚ) / den < 10 ^ (leadingPlace num den + 1) := by
  have hdenq : (0 : ℚ) < den := by exact_mod_cast hden
  rw [le_div_iff₀ hdenq, div_lt_iff₀ hdenq, leadingPlace]
  split
  · rename_i hle
    have hq : 0 < num / den := Nat.div_pos hle hden
    have hlow := pow_length_digitsOf_le hq
    have hhigh := lt_pow_length_digitsOf (num / den)
    have hlength := List.length_pos_of_ne_nil (digitsOf_ne_nil (num / den))
    generalize (digitsOf (num / den)).length = len at *
    have hcast : ((len : ℤ) - 1) = ((len - 1 : ℕ) : ℤ) := by omega
    rw [sub_add_cancel, hcast, zpow_natCast, zpow_natCast]
    constructor
    · exact_mod_cast (Nat.le_div_iff_mul_le hden).mp hlow
    · exact_mod_cast (Nat.div_lt_iff_lt_mul hden).mp hhigh
  · rename_i hlt
    -- the digits of the greatest number that is less than the inverse ratio
    set t := (den + num - 1) / num - 1 with ht
    have hceil : 2 ≤ (den + num - 1) / num := (Nat.le_div_iff_mul_le hnum).mpr (by omega)
    have hbelow : t * num < den := by
      have h : (t + 1) * num ≤ den + num - 1 := (Nat.le_div_iff_mul_le hnum).mp (by omega)
      rw [Nat.add_mul, Nat.one_mul] at h
      omega
    have habove : den ≤ (t + 1) * num := by
      have h : den + num - 1 < (t + 2) * num := (Nat.div_lt_iff_lt_mul hnum).mp (by omega)
      have : (t + 2) * num = (t + 1) * num + num := by ring
      omega
    have hlow := pow_length_digitsOf_le (show 0 < t by omega)
    have hhigh : t + 1 ≤ 10 ^ (digitsOf t).length := lt_pow_length_digitsOf t
    have hlength := List.length_pos_of_ne_nil (digitsOf_ne_nil t)
    generalize (digitsOf t).length = len at *
    have hcast : (-(len : ℤ) + 1) = -((len - 1 : ℕ) : ℤ) := by omega
    rw [hcast, zpow_neg, zpow_neg, zpow_natCast, zpow_natCast, inv_mul_le_iff₀ (by positivity),
      lt_inv_mul_iff₀ (by positivity)]
    constructor
    · have h : den ≤ 10 ^ len * num := habove.trans (Nat.mul_le_mul_right num hhigh)
      exact_mod_cast h
    · have h : 10 ^ (len - 1) * num < den := (Nat.mul_le_mul_right num hlow).trans_lt hbelow
      exact_mod_cast h

/-- **The shortest digits are rounded back to the value.** -/
theorem rankOf_shortest (f : BinaryFormat) (tie : Tie) (hn : n < f.infinityRank) :
    f.rankOf ((f.shortest tie n).1 * (10 : ℚ) ^ (f.shortest tie n).2) = n := by
  rw [shortest]
  split
  · rename_i h
    rw [Nat.cast_zero, zero_mul, rankOf_zero, h]
  · dsimp only
    rw [dropZeros_value]
    rcases f.search_cases tie n f.enoughDigits (leadingPlace (f.ratio n).1 (f.ratio n).2) with
      ⟨p, digits, -, -, hsome, heq⟩ | ⟨-, heq⟩
    · rw [heq]
      exact rankOf_neighbourAt hsome
    · rw [heq, allDigits_value, rankOf_value hn]

theorem shortest_zero (f : BinaryFormat) (tie : Tie) : f.shortest tie 0 = (0, 0) := rfl

theorem shortest_ne_zero (hn : n < f.infinityRank) (hpos : 0 < n) : (f.shortest tie n).1 ≠ 0 := by
  intro h
  have hback := f.rankOf_shortest tie hn
  rw [h, Nat.cast_zero, zero_mul, rankOf_zero] at hback
  omega

end BinaryFormat

/-! ## Written digits -/

namespace FloatStyle

open Numeral (IsWritten)

variable {digits : ℕ} {place : ℤ}

theorem positionalNumeral_cases (negative : Bool) (digits : List Char) (place : ℤ) :
    (0 ≤ place ∧ positionalNumeral negative digits place =
        ⟨negative, digits ++ List.replicate place.toNat '0', ['0'], none⟩) ∨
      (place < 0 ∧ (-place).toNat < digits.length ∧ positionalNumeral negative digits place =
        ⟨negative, digits.take (digits.length - (-place).toNat),
          digits.drop (digits.length - (-place).toNat), none⟩) ∨
      (place < 0 ∧ digits.length ≤ (-place).toNat ∧ positionalNumeral negative digits place =
        ⟨negative, ['0'], List.replicate ((-place).toNat - digits.length) '0' ++ digits, none⟩) := by
  rw [positionalNumeral]
  split
  · exact Or.inl ⟨‹_›, rfl⟩
  · right
    dsimp only
    split
    · exact Or.inl ⟨by omega, ‹_›, rfl⟩
    · exact Or.inr ⟨by omega, by omega, rfl⟩

theorem isWritten_positional (negative : Bool) (hzero : digits = 0 → place ≤ 0) :
    (positionalNumeral negative (digitsOf digits) place).IsWritten := by
  have hdigits : ∀ c ∈ digitsOf digits, c.isDigit = true := fun _ => isDigit_of_mem_digitsOf
  have hzeros : ∀ k, ∀ c ∈ List.replicate k '0', c.isDigit = true := by
    intro k c hc
    rw [List.eq_of_mem_replicate hc]
    rfl
  obtain ⟨d, ds, hds⟩ := List.exists_cons_of_ne_nil (digitsOf_ne_nil digits)
  have hhead : d = '0' → digits = 0 := by
    intro hd
    by_contra h
    exact head_digitsOf h (by rw [hds, hd]; rfl)
  rcases positionalNumeral_cases negative (digitsOf digits) place with
    ⟨hplace, heq⟩ | ⟨hneg, hlt, heq⟩ | ⟨-, -, heq⟩ <;> rw [heq]
  · refine ⟨by simp [hds], ?_, ?_, by simp⟩
    · intro c hc
      rcases List.mem_append.mp hc with hc | hc
      · exact hdigits c hc
      · exact hzeros _ c hc
    · intro h
      have h0 : digits = 0 := hhead (by simpa [hds] using h)
      have hp := hzero h0
      rw [show place.toNat = 0 by omega, h0]
      rfl
  · obtain ⟨k, hk⟩ : ∃ k, (digitsOf digits).length - (-place).toNat = k + 1 :=
      ⟨(digitsOf digits).length - (-place).toNat - 1, by omega⟩
    have htake : (digitsOf digits).take ((digitsOf digits).length - (-place).toNat) = d :: ds.take k := by
      rw [hk, hds, List.take_succ_cons]
    refine ⟨by simp [htake], fun c hc => hdigits c (List.mem_of_mem_take hc), ?_,
      fun c hc => hdigits c (List.mem_of_mem_drop hc)⟩
    intro h
    -- the digits of zero are a single one
    have h0 : digits = 0 := hhead (by simpa [htake] using h)
    rw [h0, digitsOf_zero, List.length_singleton] at hlt
    omega
  · refine ⟨by simp, by simp, fun _ => rfl, ?_⟩
    intro c hc
    rcases List.mem_append.mp hc with hc | hc
    · exact hzeros _ c hc
    · exact hdigits c hc

theorem decimal_positional (negative : Bool) (digits : ℕ) (place : ℤ) :
    (positionalNumeral negative (digitsOf digits) place).decimal =
      if 0 ≤ place then ⟨negative, digits * 10 ^ place.toNat * 10, -1⟩ else ⟨negative, digits, place⟩ := by
  rcases positionalNumeral_cases negative (digitsOf digits) place with
    ⟨hplace, heq⟩ | ⟨hneg, hlt, heq⟩ | ⟨hneg, hle, heq⟩ <;> rw [heq, Numeral.decimal] <;> dsimp only
  · rw [if_pos hplace, digitsValue_append, digitsValue_append, digitsValue_zeros, digitsValue_digitsOf,
      List.length_replicate]
    rfl
  · rw [if_neg (not_le.mpr hneg), List.take_append_drop, digitsValue_digitsOf, List.length_drop]
    congr 1
    rw [Option.getD_none]
    omega
  · rw [if_neg (not_le.mpr hneg), digitsValue_append, digitsValue_append, digitsValue_zeros,
      digitsValue_digitsOf, List.length_append, List.length_replicate,
      show digitsValue ['0'] = 0 from rfl, zero_mul, zero_mul, zero_add, zero_add]
    congr 1
    rw [Option.getD_none]
    omega

theorem magnitude_positional (negative : Bool) (digits : ℕ) (place : ℤ) :
    (positionalNumeral negative (digitsOf digits) place).decimal.magnitude =
      digits * (10 : ℚ) ^ place := by
  rw [decimal_positional, Decimal.magnitude]
  split
  · rename_i hplace
    have hpow : (10 : ℚ) ^ place = 10 ^ place.toNat := by
      rw [← zpow_natCast, Int.toNat_of_nonneg hplace]
    dsimp only
    rw [hpow, zpow_neg_one]
    push_cast
    field_simp
  · rfl

theorem fraction_positional (negative : Bool) (digits : ℕ) (place : ℤ) :
    (positionalNumeral negative (digitsOf digits) place).fraction ≠ [] := by
  have hne := digitsOf_ne_nil digits
  rcases positionalNumeral_cases negative (digitsOf digits) place with
    ⟨-, heq⟩ | ⟨hneg, hlt, heq⟩ | ⟨-, -, heq⟩ <;> rw [heq]
  · exact List.cons_ne_nil _ _
  · rw [ne_eq, List.drop_eq_nil_iff]
    omega
  · exact List.append_ne_nil_of_right_ne_nil _ hne

theorem isWritten_scientific (negative : Bool) (digits : ℕ) (place : ℤ) :
    (scientificNumeral negative (digitsOf digits) place).IsWritten := by
  have hdigits : ∀ c ∈ digitsOf digits, c.isDigit = true := fun _ => isDigit_of_mem_digitsOf
  obtain ⟨d, ds, hds⟩ := List.exists_cons_of_ne_nil (digitsOf_ne_nil digits)
  rw [scientificNumeral]
  refine ⟨by simp [hds], fun c hc => hdigits c (List.mem_of_mem_take hc), ?_,
    fun c hc => hdigits c (List.mem_of_mem_drop hc)⟩
  rw [hds]
  intro h
  rw [List.take_succ_cons, List.take_zero] at h ⊢
  rw [Option.some.inj h]

theorem decimal_scientific (negative : Bool) (digits : ℕ) (place : ℤ) :
    (scientificNumeral negative (digitsOf digits) place).decimal = ⟨negative, digits, place⟩ := by
  have hlength := List.length_pos_of_ne_nil (digitsOf_ne_nil digits)
  rw [scientificNumeral, Numeral.decimal]
  dsimp only
  rw [List.take_append_drop, digitsValue_digitsOf, List.length_drop, Option.getD_some]
  congr 1
  omega

/-! ## The numeral of a value -/

variable {style : FloatStyle} {f : BinaryFormat} {n : ℕ}

/-- The sign is written in front of what is written without it. -/
theorem numeral_eq (style : FloatStyle) (f : BinaryFormat) (negative : Bool) (n : ℕ) :
    style.numeral f negative n = { style.numeral f false n with negative := negative } := by
  simp only [numeral, positionalNumeral, scientificNumeral]
  repeat' split
  all_goals rfl

theorem negative_numeral (style : FloatStyle) (f : BinaryFormat) (negative : Bool) (n : ℕ) :
    (style.numeral f negative n).negative = negative := by
  rw [numeral_eq]

/-- A numeral has the shortest digits, or a zero after the point. -/
theorem decimal_numeral (style : FloatStyle) (f : BinaryFormat) (negative : Bool) (n : ℕ) :
    (style.numeral f negative n).decimal = ⟨negative, (f.shortest style.tie n).1, (f.shortest style.tie n).2⟩ ∨
      (0 ≤ (f.shortest style.tie n).2 ∧
        style.positional ((f.shortest style.tie n).2 + (digitsOf (f.shortest style.tie n).1).length - 1) = true ∧
        (style.numeral f negative n).decimal =
          ⟨negative, (f.shortest style.tie n).1 * 10 ^ (f.shortest style.tie n).2.toNat * 10, -1⟩) := by
  rw [numeral]
  dsimp only
  split
  · rename_i hpos
    rw [decimal_positional]
    split
    · exact Or.inr ⟨‹_›, hpos, rfl⟩
    · exact Or.inl rfl
  · exact Or.inl (decimal_scientific negative _ _)

theorem isWritten_numeral (style : FloatStyle) (negative : Bool) (hn : n < f.infinityRank) :
    (style.numeral f negative n).IsWritten := by
  rw [numeral]
  dsimp only
  split
  · refine isWritten_positional negative fun h => ?_
    rcases n.eq_zero_or_pos with rfl | hpos
    · rw [BinaryFormat.shortest_zero]
    · exact absurd h (BinaryFormat.shortest_ne_zero hn hpos)
  · exact isWritten_scientific negative _ _

/-- The numeral of a finite value is no integer literal. -/
theorem isInteger_numeral (style : FloatStyle) (f : BinaryFormat) (negative : Bool) (n : ℕ) :
    (style.numeral f negative n).isInteger = false := by
  rw [numeral]
  dsimp only
  split
  · rw [Numeral.isInteger, List.isEmpty_eq_false_iff.mpr (fraction_positional negative _ _),
      Bool.false_and]
  · rw [scientificNumeral, Numeral.isInteger, Option.isNone_some, Bool.and_false]

theorem magnitude_numeral (style : FloatStyle) (f : BinaryFormat) (negative : Bool) (n : ℕ) :
    (style.numeral f negative n).decimal.magnitude =
      (f.shortest style.tie n).1 * (10 : ℚ) ^ (f.shortest style.tie n).2 := by
  rw [numeral]
  dsimp only
  split
  · exact magnitude_positional negative _ _
  · rw [decimal_scientific]
    rfl

/-- **The numeral of a finite value stands for a number that is rounded back to it.** -/
theorem rankOf_numeral (style : FloatStyle) (negative : Bool) (hn : n < f.infinityRank) :
    f.rankOf (style.numeral f negative n).decimal.magnitude = n := by
  rw [magnitude_numeral, BinaryFormat.rankOf_shortest f style.tie hn]

end FloatStyle

end TouchStream
