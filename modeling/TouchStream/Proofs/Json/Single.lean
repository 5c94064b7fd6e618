import TouchStream.Json.Data
import TouchStream.Proofs.Json.Text
import TouchStream.Proofs.Number.Single
import TouchStream.Proofs.Number.SingleGrid

/-!
# Single precision values in JSON texts

Every finite 32-bit value is read back from the numeral that JSON texts have for it (`Json.reread_single`). One that
is not finite is written as null, which is no floating value (`Json.single_ofSingle`).
-/

namespace TouchStream

open BinaryFormat

namespace Json

variable {n : ℕ}

/-! ## Ranks that are checked one by one -/

/-- Whether the numeral of the value of rank `n` is read back. -/
def rereads (n : ℕ) : Bool :=
  let y := Double.inSteps (floatStyle.numeral .single false n)
  y.isFinite && double.convert single y.rank == n

/-- The first value of each exponent, whose lower neighbour is nearer than the upper one. -/
theorem rereads_first : (List.range 255).all (fun k => rereads (k * single.block)) = true := by decide +kernel

theorem rereads_near_midpoint : rereads 0x15ae43fd = true := by decide +kernel

/-! ## All finite values -/

theorem inSteps_numeral (negative : Bool) (n : ℕ) :
    Double.inSteps (floatStyle.numeral .single negative n) =
      { Double.inSteps (floatStyle.numeral .single false n) with negative := negative } := by
  rw [FloatStyle.numeral_eq]
  rfl

theorem rereads_iff : rereads n = true ↔
    (Double.inSteps (floatStyle.numeral .single false n)).rank < double.infinityRank ∧
      double.convert single (Double.inSteps (floatStyle.numeral .single false n)).rank = n := by
  simp [rereads, Double.isFinite]

/-- A whole number with its point in place is not large. -/
theorem whole_lt {d k : ℕ} (hsmall : floatStyle.positional (k + (digitsOf d).length - 1) = true) :
    d * 10 ^ k < 10 ^ 13 := by
  have hle : (digitsOf d).length + k ≤ 13 := by
    simp only [floatStyle, Bool.and_eq_true, decide_eq_true_eq] at hsmall
    omega
  calc d * 10 ^ k < 10 ^ (digitsOf d).length * 10 ^ k :=
        Nat.mul_lt_mul_of_pos_right (lt_pow_length_digitsOf d) (by positivity)
    _ = 10 ^ ((digitsOf d).length + k) := (pow_add _ _ _).symm
    _ ≤ 10 ^ 13 := Nat.pow_le_pow_right (by norm_num) hle

/-- Such a number is held exactly. -/
theorem rereads_whole (hn : n < single.infinityRank) (hpos : 0 < n)
    (hplace : 0 ≤ (single.shortest .toEven n).2)
    (hsmall : floatStyle.positional
      ((single.shortest .toEven n).2 + (digitsOf (single.shortest .toEven n).1).length - 1) = true)
    (hdec : (floatStyle.numeral .single false n).decimal =
      ⟨false, (single.shortest .toEven n).1 * 10 ^ (single.shortest .toEven n).2.toNat * 10, -1⟩) :
    rereads n = true := by
  have hdigits : (single.shortest .toEven n).1 ≠ 0 := shortest_ne_zero hn hpos
  have hreads := rankOf_shortest single .toEven hn
  have hmag := FloatStyle.magnitude_numeral floatStyle single false n
  rw [show floatStyle.tie = Tie.toEven from rfl] at hmag
  generalize single.shortest .toEven n = chosen at *
  obtain ⟨d, place⟩ := chosen
  obtain ⟨k, rfl⟩ := Int.eq_ofNat_of_zero_le hplace
  dsimp only at hdigits hreads hmag hsmall hdec
  rw [Int.toNat_natCast] at hdec
  have hfits := whole_lt hsmall
  have hrank : (Double.inSteps (floatStyle.numeral .single false n)).rank =
      double.rankOf (d * (10 : ℚ) ^ (k : ℤ)) := by
    rw [← hmag]
    apply Double.inSteps_exact
    · rw [hdec]
      positivity
    · rw [hdec]
      show d * 10 ^ k * 10 < 2 ^ 53
      omega
    · rw [hdec]
      show (-1 : ℤ).natAbs ≤ 22
      decide
  have hexact : (d : ℚ) * 10 ^ (k : ℤ) = (d * 10 ^ k : ℕ) * 2 ^ (0 : ℤ) := by
    rw [zpow_zero, mul_one, zpow_natCast]
    push_cast
    rfl
  obtain ⟨hlt, hvalue⟩ := rankOf_double_exact (a := d * 10 ^ k) (j := 0) (by omega) (by norm_num) (by norm_num)
  rw [← hexact] at hlt hvalue
  rw [rereads_iff, hrank, convert_of_lt hlt, hvalue]
  exact ⟨hlt, hreads⟩

theorem rereads_finite (hn : n < single.infinityRank) : rereads n = true := by
  by_cases hgrid : n % single.block = 0
  · have h := List.all_eq_true.mp rereads_first (n / single.block)
      (List.mem_range.mpr ((Nat.div_lt_iff_lt_mul single.block_pos).mpr hn))
    rwa [Nat.div_mul_cancel (Nat.dvd_of_mod_eq_zero hgrid)] at h
  by_cases hodd : n = 0x15ae43fd
  · rw [hodd]
    exact rereads_near_midpoint
  have hpos : 0 < n := by
    by_contra h0
    rw [Nat.eq_zero_of_not_pos h0, Nat.zero_mod] at hgrid
    exact hgrid rfl
  rcases FloatStyle.decimal_numeral floatStyle single false n with hdec | ⟨hplace, hsmall, hdec⟩
  · have hinner : single.IsInner n := ⟨hpos, Or.inl hgrid⟩
    obtain ⟨p, d₀, h⟩ := SingleGrid.shortest_inner hinner hn
    rw [rereads_iff]
    refine SingleGrid.reread_inner h hinner hn hgrid hodd ?_
    rw [hdec, FloatStyle.negative_numeral]
    rfl
  · exact rereads_whole hn hpos hplace hsmall hdec

/-- **The numeral of a finite value is read back to the same value.** -/
theorem reread_single {x : Float32} (hx : Single.isFinite x = true) :
    (Double.inSteps (floatStyle.numeral .single (Single.negative x) (Single.rank x))).isFinite = true ∧
      Single.ofDouble (Double.inSteps (floatStyle.numeral .single (Single.negative x) (Single.rank x))) = x := by
  obtain ⟨hfinite, hback⟩ := rereads_iff.mp (rereads_finite (of_decide_eq_true hx))
  rw [inSteps_numeral]
  refine ⟨decide_eq_true hfinite, ?_⟩
  rw [Single.ofDouble, hback, Single.ofRank_rank]

/-! ## The JSON value -/

theorem isWritten_ofSingle (x : Float32) : (ofSingle x).IsWritten := by
  rw [ofSingle]
  split
  · exact FloatStyle.isWritten_numeral floatStyle _ (of_decide_eq_true ‹_›)
  · trivial

theorem fitsInteger_numeral (negative : Bool) (n : ℕ) :
    (floatStyle.numeral .single negative n).fitsInteger = false := by
  rw [Numeral.fitsInteger, FloatStyle.isInteger_numeral, Bool.false_and]

/-- What is read for a floating value: nothing, where it is not finite. -/
theorem single_ofSingle (x : Float32) :
    (ofSingle x).datum.single? = if Single.isFinite x then some x else none := by
  rw [ofSingle]
  split
  · rename_i hx
    obtain ⟨hfinite, hback⟩ := reread_single hx
    simp only [datum, numberDatum, fitsInteger_numeral, hfinite, Bool.false_eq_true, if_false, if_true,
      Datum.single?, hback]
  · simp only [datum, Datum.single?]

theorem isPlain_ofSingle (x : Float32) : (ofSingle x).isPlain = true := by
  rw [ofSingle]
  split
  · rename_i hx
    rw [isPlain, (reread_single hx).1, Bool.or_true]
  · rw [isPlain]

theorem depth_ofSingle (x : Float32) : (ofSingle x).depth = 0 := by
  rw [ofSingle]
  split <;> simp only [depth]

end Json

end TouchStream
