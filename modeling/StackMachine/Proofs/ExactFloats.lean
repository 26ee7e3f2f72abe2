import StackMachine.Proofs.NearestFloat

/-! Magnitudes that floats hold. A float that is made of a magnitude with a short enough mantissa
reads as a magnitude of the same value. -/
namespace StackMachine.Decimal
open Float.Model Float.Model.UnpackedFloat

/-- A pattern with the exponent of a finite float is the pattern of its float. -/
theorem toBits_ofBits {bits : UInt64} (h : bits.toNat / 2 ^ 52 % 2 ^ 11 ≠ 2047) :
    (Float.ofBits bits).toBits = bits := by
  have hvalid : Format.binary64.Valid bits.toBitVec := by
    refine ⟨fun hones _ => absurd ?_ h⟩
    have htop := congrArg BitVec.toNat hones
    rw [toNat_unpackExponent] at htop
    exact htop
  show UInt64.ofBitVec (pack .binary64 (unpack .binary64 bits.toBitVec)) = bits
  rw [pack_unpack hvalid]

/-- The pattern of a magnitude stays below the sign, which leaves the other two fields alone. -/
theorem fields_add_sign {bits : Nat} (h : bits < infinityBits) (negative : Bool) :
    let signed := bits + if negative then signBit else 0
    signed < 2 ^ 64 ∧ decide (signed / signBit % 2 = 1) = negative ∧
      signed / 2 ^ 52 % 2 ^ 11 = bits / 2 ^ 52 ∧ signed % 2 ^ 52 = bits % 2 ^ 52 ∧
      bits / 2 ^ 52 < 2047 := by
  have hinfinity : infinityBits = 2047 * 2 ^ 52 := rfl
  rw [hinfinity] at h
  rw [signBit_eq]
  cases negative with
  | false =>
    simp only [Bool.false_eq_true, if_false, Nat.add_zero]
    exact ⟨by omega, decide_eq_false (by omega), by omega, trivial, by omega⟩
  | true =>
    simp only [if_true]
    exact ⟨by omega, decide_eq_true (by omega), by omega, by omega, by omega⟩

namespace Binary
variable {b : Binary}

/-- The fields of the pattern of a canonical magnitude give the magnitude back. -/
theorem IsCanonical.ofBits_toBits (hc : b.IsCanonical) (negative : Bool) :
    Reading.ofBits (b.toBits + if negative then signBit else 0) = .finite negative b := by
  obtain ⟨-, hsign, hbiased, hfraction, htop⟩ := fields_add_sign hc.toBits_lt negative
  obtain ⟨hlt, hleast, -, hnormal⟩ := hc
  rw [leadingBit_eq] at hlt hnormal
  unfold Reading.ofBits
  rw [leadingBit_eq, show topExponent + 1 = 2 ^ 11 from rfl]
  simp only [hsign, hbiased, hfraction]
  rw [if_neg (show ¬b.toBits / 2 ^ 52 = topExponent from htop.ne)]
  by_cases hm : b.mantissa < 2 ^ 52
  · have hbits : b.toBits = b.mantissa := if_pos hm
    have hexponent : b.exponent = leastExponent := hnormal.resolve_right (by omega)
    rw [hbits, if_pos (by omega), Nat.mod_eq_of_lt hm, ← hexponent]
  · have hbits : b.toBits =
        (b.exponent - leastExponent + 1).toNat * 2 ^ 52 + (b.mantissa - 2 ^ 52) := if_neg hm
    have hquotient : b.toBits / 2 ^ 52 = (b.exponent - leastExponent + 1).toNat := by omega
    have hmantissa : 2 ^ 52 + b.toBits % 2 ^ 52 = b.mantissa := by omega
    have hexponent : leastExponent + ((b.toBits / 2 ^ 52 - 1 : Nat) : Int) = b.exponent := by omega
    rw [if_neg (by omega), hmantissa, hexponent]

theorem IsCanonical.ofFloat_floatOfBits (hc : b.IsCanonical) (negative : Bool) :
    Reading.ofFloat (floatOfBits negative b.toBits) = .finite negative b := by
  obtain ⟨hlt, -, hbiased, -, htop⟩ := fields_add_sign hc.toBits_lt negative
  have hbits := UInt64.toNat_ofNat_of_lt' hlt
  unfold Reading.ofFloat floatOfBits
  rw [toBits_ofBits, hbits, hc.ofBits_toBits]
  rw [hbits, hbiased]
  exact htop.ne

theorem value_normalize (b : Binary) : b.normalize.value = b.value := by
  unfold normalize value
  generalize min (storedBits - b.mantissa.log2) (b.exponent - leastExponent).toNat = shift
  dsimp only
  have hpow : Nat.pow 2 shift = 2 ^ shift := rfl
  rw [hpow, Nat.cast_mul, Nat.cast_pow, Nat.cast_ofNat, mul_assoc, ← zpow_natCast,
    ← zpow_add₀ (by norm_num), add_sub_cancel]

/-- A mantissa that fits is moved up until it fills the float or the exponent is the least one. -/
theorem isCanonical_normalize (hpos : b.mantissa ≠ 0) (hm : b.mantissa < 2 ^ 53)
    (hleast : leastExponent ≤ b.exponent) (hgreatest : b.exponent ≤ 971) :
    b.normalize.IsCanonical := by
  have hlog : b.mantissa.log2 ≤ 52 := Nat.le_of_lt_succ ((Nat.log2_lt hpos).mpr hm)
  have hlow : 2 ^ b.mantissa.log2 ≤ b.mantissa := Nat.log2_self_le hpos
  have hhigh : b.mantissa < 2 ^ (b.mantissa.log2 + 1) := Nat.lt_log2_self
  unfold normalize storedBits
  set room := 52 - b.mantissa.log2 with hroom
  set shift := min room (b.exponent - leastExponent).toNat with hshift
  refine ⟨?_, ?_, ?_, ?_⟩
  · calc b.mantissa * 2 ^ shift
      _ ≤ b.mantissa * 2 ^ room := by gcongr <;> omega
      _ < 2 ^ (b.mantissa.log2 + 1) * 2 ^ room := by gcongr
      _ = 2 * leadingBit := by
        rw [← pow_add, leadingBit_eq, ← pow_succ']
        congr 1
        omega
  · dsimp only
    omega
  · dsimp only
    omega
  · by_cases hfull : shift = room
    · right
      calc leadingBit
        _ = 2 ^ b.mantissa.log2 * 2 ^ shift := by
          rw [← pow_add, leadingBit_eq]
          congr 1
          omega
        _ ≤ b.mantissa * 2 ^ shift := by gcongr
    · -- A shift that stops short has used up the distance to the least exponent.
      left
      dsimp only
      omega

/-- A float that is made of a magnitude that fits has the value of the magnitude. -/
theorem exists_ofFloat_toFloat (hm : b.mantissa < 2 ^ 53) (hleast : leastExponent ≤ b.exponent)
    (hgreatest : b.exponent ≤ 971) (negative : Bool) :
    ∃ c : Binary, Reading.ofFloat (b.toFloat negative) = .finite negative c ∧
      c.value = b.value := by
  unfold toFloat
  by_cases hzero : b.mantissa = 0
  · have hc : IsCanonical ⟨0, leastExponent⟩ := ⟨by decide, Int.le_refl _, by decide, .inl rfl⟩
    refine ⟨⟨0, leastExponent⟩, ?_, ?_⟩
    · rw [if_pos hzero]
      exact hc.ofFloat_floatOfBits negative
    · simp [value, hzero]
  · have hc := isCanonical_normalize hzero hm hleast hgreatest
    refine ⟨b.normalize, ?_, b.value_normalize⟩
    rw [if_neg hzero]
    exact hc.ofFloat_floatOfBits negative

end Binary
end StackMachine.Decimal
