import TouchStream.Number.Single
import Mathlib

/-!
# Bit patterns of single precision values

A 32-bit value is packed from its sign, exponent and mantissa, and unpacking it and packing it again gives
the same pattern (`Single.pack_unpack`), since there is only one pattern for what is no number. So a value is
determined by its sign and its rank (`Single.ofRank_rank`), and what is no number is one value
(`Single.eq_of_lt_rank`).
-/

namespace TouchStream.Single

open Float.Model (Format UnpackedFloat)
open Float.Model.UnpackedFloat

theorem sign_toBitVec (b : BitVec 1) : (Sign.ofBitVec b).toBitVec = b := by
  obtain rfl | rfl := BitVec.eq_zero_or_eq_one b <;> rfl

theorem packComponents_unpack (b : BitVec 32) :
    packComponents Format.binary32 (Sign.ofBitVec (@unpackSign Format.binary32 b))
      (@unpackExponent Format.binary32 b) (@unpackMantissa Format.binary32 b) = b := by
  rw [packComponents, sign_toBitVec]
  ext i hi
  simp [unpackSign, unpackExponent, unpackMantissa]
  grind

theorem pack_subnormal (s : Sign) (m : BitVec 23) (hm : 0 < m.toNat) :
    pack Format.binary32 (.finite s m.toNat (-149) hm) = packComponents Format.binary32 s 0#8 m := by
  have hlog : m.toNat.log2 < 23 := (Nat.log2_lt (by omega)).mpr m.isLt
  have hbias : Format.binary32.exponentBias = 127 := rfl
  have hbits : Format.binary32.mantissaBits = 24 := rfl
  rw [pack]
  simp only [hbias, hbits]
  rw [if_neg (by decide), if_neg (by omega), BitVec.ofNat_toNat, BitVec.setWidth_eq]

theorem pack_normal (s : Sign) (e : BitVec 8) (m : BitVec 23) (htop : e ≠ -1#8)
    (hm : 0 < (1#1 ++ m).toNat) :
    pack Format.binary32 (.finite s (1#1 ++ m).toNat ((e.toNat : Int) - 150) hm) =
      packComponents Format.binary32 s e m := by
  have hlt := m.isLt
  have hvalue : (1#1 ++ m).toNat = 2 ^ 23 + m.toNat := by
    rw [BitVec.toNat_append, ← Nat.shiftLeft_add_eq_or_of_lt m.isLt]
    rfl
  have hlog : (1#1 ++ m).toNat.log2 = 23 := by
    rw [hvalue, Nat.log2_eq_iff (by omega)]
    omega
  have he : e.toNat ≠ 255 := fun h => htop (BitVec.eq_of_toNat_eq h)
  have hlt' := e.isLt
  have hbias : Format.binary32.exponentBias = 127 := rfl
  have hbits : Format.binary32.mantissaBits = 24 := rfl
  have hbiased : (((e.toNat : Int) - 150) + 127 + 23).toNat = e.toNat := by omega
  rw [pack]
  simp only [hbias, hbits]
  rw [Nat.cast_ofNat, Nat.cast_ofNat, hbiased, if_neg (by omega), if_pos (by omega), hvalue]
  congr 1
  · simp
  · apply BitVec.eq_of_toNat_eq
    rw [BitVec.toNat_ofNat]
    omega

/-- Only a pattern for what is no number could be changed, and there is only one. -/
theorem pack_unpack {b : BitVec 32} (h : Format.binary32.Valid b) :
    pack Format.binary32 (unpack Format.binary32 b) = b := by
  have hb := packComponents_unpack b
  have hbias : Format.binary32.exponentBias = 127 := rfl
  simp only [unpack]
  split
  · rename_i htop
    rw [htop] at hb
    split
    · rename_i hzero
      rw [hzero] at hb
      exact hb
    · rename_i hne
      exact (h.eq_packedNaN htop hne).symm
  · rename_i htop
    split
    · rename_i hsub
      rw [hsub] at hb
      split
      · rename_i hzero
        rw [hzero] at hb
        exact hb
      · rw [hsub, hbias]
        exact (pack_subnormal _ _ _).trans hb
    · rw [hbias]
      exact (pack_normal _ _ _ htop _).trans hb

theorem ofBits_toBits (x : Float32) : Float32.ofBits x.toBits = x := by
  obtain ⟨⟨b, hb⟩⟩ := x
  simp [Float32.ofBits, Float32.toBits, Float32.Model.ofBits, Float32.Model.pack,
    pack_unpack hb]

/-- A value is determined by its sign and its rank. -/
theorem ofRank_rank (x : Float32) : ofRank (negative x) (rank x) = x := by
  have hlt := x.toBits.toNat_lt
  have hbits : rank x + (if negative x = true then 0x80000000 else 0) = x.toBits.toNat := by
    simp only [rank, negative, decide_eq_true_eq]
    split <;> omega
  rw [ofRank, hbits, UInt32.ofNat_toNat, ofBits_toBits]

/-- There is one pattern for what is no number. -/
theorem toBits_of_lt_rank {x : Float32} (hx : BinaryFormat.single.infinityRank < rank x) : x.toBits = 0x7fc00000 := by
  obtain ⟨⟨b, hb⟩⟩ := x
  replace hx : BinaryFormat.single.infinityRank < b.toNat % 0x80000000 := hx
  rw [show BinaryFormat.single.infinityRank = 0x7f800000 by decide] at hx
  have htop : @unpackExponent Format.binary32 b.toBitVec = -1 := by
    apply BitVec.eq_of_toNat_eq
    rw [unpackExponent, BitVec.toNat_cast, BitVec.extractLsb_toNat, Nat.shiftRight_eq_div_pow]
    show b.toNat / 2 ^ 23 % 2 ^ 8 = 255
    omega
  have hne : @unpackMantissa Format.binary32 b.toBitVec ≠ 0 := by
    intro h
    replace h := congrArg BitVec.toNat h
    rw [unpackMantissa, BitVec.toNat_cast, BitVec.extractLsb_toNat, Nat.shiftRight_eq_div_pow] at h
    replace h : b.toNat / 2 ^ 0 % 2 ^ 23 = 0 := h
    omega
  exact UInt32.toBitVec_inj.mp (hb.eq_packedNaN htop hne)

theorem eq_of_lt_rank {x y : Float32} (hx : BinaryFormat.single.infinityRank < rank x)
    (hy : BinaryFormat.single.infinityRank < rank y) : x = y := by
  rw [← ofBits_toBits x, ← ofBits_toBits y, toBits_of_lt_rank hx, toBits_of_lt_rank hy]

end TouchStream.Single
