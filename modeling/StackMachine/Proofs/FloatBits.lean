import Mathlib
import StackMachine.Json.Codec

/-! Floats and their bit patterns. The reading of a float is what its model unpacks to, the bit
pattern of a finite reading gives the float back, and the name of a float that is no finite number
stands for that float. -/
namespace StackMachine
namespace Decimal
open Float.Model Float.Model.UnpackedFloat

section Fields
variable (b : BitVec Format.binary64.numBits)

theorem toNat_unpackMantissa : (unpackMantissa b).toNat = b.toNat % 2 ^ 52 := by
  simp [unpackMantissa, Format.binary64]

theorem toNat_unpackExponent : (unpackExponent b).toNat = b.toNat / 2 ^ 52 % 2 ^ 11 := by
  simp [unpackExponent, Format.binary64, Nat.shiftRight_eq_div_pow]

theorem toNat_unpackSign : (unpackSign b).toNat = b.toNat / 2 ^ 63 % 2 := by
  simp [unpackSign, Format.binary64, Nat.shiftRight_eq_div_pow]

theorem toNat_append_of_one (m : BitVec 52) : (1#1 ++ m).toNat = 2 ^ 52 + m.toNat := by
  rw [BitVec.toNat_append, ← Nat.shiftLeft_add_eq_or_of_lt m.isLt]
  rfl

/-- The three fields of a pattern make up the pattern. -/
theorem packComponents_unpack :
    packComponents .binary64 (Sign.ofBitVec (unpackSign b)) (unpackExponent b)
      (unpackMantissa b) = b := by
  have hsign (v : BitVec 1) : (Sign.ofBitVec v).toBitVec = v := by
    revert v
    decide
  have hlt := b.isLt
  apply BitVec.eq_of_toNat_eq
  simp only [packComponents, BitVec.toNat_append, hsign]
  rw [← Nat.shiftLeft_add_eq_or_of_lt (unpackMantissa b).isLt,
    ← Nat.shiftLeft_add_eq_or_of_lt (unpackExponent b).isLt,
    toNat_unpackMantissa, toNat_unpackExponent, toNat_unpackSign, Nat.shiftLeft_eq, Nat.shiftLeft_eq]
  simp only [Format.binary64, Format.numBits] at hlt ⊢
  omega

end Fields

theorem pack_subnormal {s : Sign} {m : Nat} (hm : 0 < m) (hlt : m < 2 ^ 52) :
    UnpackedFloat.pack .binary64 (.finite s m (-1074) hm) =
      packComponents .binary64 s 0#11 (BitVec.ofNat 52 m) := by
  have hlog : m.log2 < 52 := (Nat.log2_lt (Nat.ne_of_gt hm)).mpr hlt
  have hbits : ¬m.log2 + 1 = Format.binary64.mantissaBits := by
    have h53 : Format.binary64.mantissaBits = 53 := by decide
    omega
  have hsmall : ¬2 ^ Format.binary64.exponentBits ≤
      ((-1074 : Int) + Format.binary64.exponentBias +
        Format.binary64.mantissaBitsWithoutImplicit).toNat + 1 := by decide
  simp only [UnpackedFloat.pack, if_neg hsmall, if_neg hbits]

theorem pack_normal {s : Sign} {m biased : Nat} (hm : 0 < m) (hge : 2 ^ 52 ≤ m)
    (hlt : m < 2 ^ 53) (hb : biased < 2047) :
    UnpackedFloat.pack .binary64 (.finite s m (biased - 1075) hm) =
      packComponents .binary64 s (BitVec.ofNat 11 biased) (BitVec.ofNat 52 m) := by
  have hlog : m.log2 < 53 := (Nat.log2_lt (Nat.ne_of_gt hm)).mpr hlt
  have hlog' : 52 ≤ m.log2 := (Nat.le_log2 (Nat.ne_of_gt hm)).mpr hge
  have hbits : m.log2 + 1 = Format.binary64.mantissaBits := by
    have h53 : Format.binary64.mantissaBits = 53 := by decide
    omega
  have hbiased : ((biased : Int) - 1075 + Format.binary64.exponentBias +
      Format.binary64.mantissaBitsWithoutImplicit).toNat = biased := by
    change ((biased : Int) - 1075 + (1023 : Nat) + (52 : Nat)).toNat = biased
    omega
  have hsmall : ¬2 ^ Format.binary64.exponentBits ≤ biased + 1 := by
    change ¬2 ^ 11 ≤ biased + 1
    omega
  simp only [UnpackedFloat.pack, hbiased, if_neg hsmall, if_pos hbits]

/-- What an unpacked pattern is: its fields decide between the five sorts of floats. -/
inductive Fields (b : BitVec Format.binary64.numBits) : UnpackedFloat → Prop
  | nan (he : b.toNat / 2 ^ 52 % 2 ^ 11 = 2047) (hm : b.toNat % 2 ^ 52 ≠ 0) : Fields b .notANumber
  | infinity (he : b.toNat / 2 ^ 52 % 2 ^ 11 = 2047) (hm : b.toNat % 2 ^ 52 = 0) :
    Fields b (.infinity (Sign.ofBitVec (unpackSign b)))
  | zero (he : b.toNat / 2 ^ 52 % 2 ^ 11 = 0) (hm : b.toNat % 2 ^ 52 = 0) :
    Fields b (.zero (Sign.ofBitVec (unpackSign b)))
  | subnormal (he : b.toNat / 2 ^ 52 % 2 ^ 11 = 0) (hm : 0 < b.toNat % 2 ^ 52) :
    Fields b (.finite (Sign.ofBitVec (unpackSign b)) (b.toNat % 2 ^ 52) (-1074) hm)
  | normal (he : b.toNat / 2 ^ 52 % 2 ^ 11 ≠ 0) (he' : b.toNat / 2 ^ 52 % 2 ^ 11 < 2047)
      (hm : 0 < 2 ^ 52 + b.toNat % 2 ^ 52) :
    Fields b (.finite (Sign.ofBitVec (unpackSign b)) (2 ^ 52 + b.toNat % 2 ^ 52)
      ((b.toNat / 2 ^ 52 % 2 ^ 11 : Nat) - 1075) hm)

theorem fields_unpack (b : BitVec Format.binary64.numBits) : Fields b (unpack .binary64 b) := by
  have hlt := (unpackExponent b).isLt
  have hones : unpackExponent b = -1#_ ↔ b.toNat / 2 ^ 52 % 2 ^ 11 = 2047 := by
    rw [← toNat_unpackExponent, ← BitVec.toNat_inj]
    rfl
  have hzero : unpackExponent b = 0#_ ↔ b.toNat / 2 ^ 52 % 2 ^ 11 = 0 := by
    rw [← toNat_unpackExponent, ← BitVec.toNat_inj]
    rfl
  have hmantissa : unpackMantissa b = 0#_ ↔ b.toNat % 2 ^ 52 = 0 := by
    rw [← toNat_unpackMantissa, ← BitVec.toNat_inj]
    rfl
  have hbias : Format.binary64.exponentBias = 1023 := by decide
  rw [toNat_unpackExponent] at hlt
  unfold UnpackedFloat.unpack
  simp only [hones, hzero, hmantissa, toNat_unpackExponent, toNat_unpackMantissa,
    toNat_append_of_one, hbias]
  split
  · rename_i he
    split
    · rename_i hm
      exact .infinity he hm
    · rename_i hm
      exact .nan he hm
  · rename_i hne
    split
    · rename_i he
      split
      · rename_i hm
        exact .zero he hm
      · rename_i hm
        rw [he]
        exact .subnormal he (Nat.pos_of_ne_zero hm)
    · rename_i he
      have hlt' : b.toNat / 2 ^ 52 % 2 ^ 11 < 2047 := by
        simp only [Format.binary64] at hlt
        omega
      exact .normal he hlt' (by omega)

/-- Packing takes the one pattern of a NaN and the pattern of any other float back. -/
theorem pack_unpack {b : BitVec Format.binary64.numBits} (hv : Format.binary64.Valid b) :
    UnpackedFloat.pack .binary64 (UnpackedFloat.unpack .binary64 b) = b := by
  have hfields := fields_unpack b
  have hexponent (n : Nat) (h : b.toNat / 2 ^ 52 % 2 ^ 11 = n) :
      unpackExponent b = BitVec.ofNat 11 n := by
    apply BitVec.eq_of_toNat_eq
    rw [toNat_unpackExponent, ← h, BitVec.toNat_ofNat, Nat.mod_mod]
  have hmantissa (n : Nat) (h : b.toNat % 2 ^ 52 = n % 2 ^ 52) :
      unpackMantissa b = BitVec.ofNat 52 n := by
    apply BitVec.eq_of_toNat_eq
    rw [toNat_unpackMantissa, h, BitVec.toNat_ofNat]
  have hself := packComponents_unpack b
  generalize UnpackedFloat.unpack .binary64 b = u at hfields
  cases hfields with
  | nan he hm =>
    have hne : unpackMantissa b ≠ 0#_ := by
      intro h
      rw [← toNat_unpackMantissa, h] at hm
      exact hm rfl
    exact (hv.eq_packedNaN (hexponent _ he) hne).symm
  | infinity he hm =>
    rw [hexponent _ he, hmantissa 0 hm] at hself
    exact hself
  | zero he hm =>
    rw [hexponent _ he, hmantissa 0 hm] at hself
    exact hself
  | subnormal he hm =>
    rw [hexponent _ he, hmantissa _ (Nat.mod_mod _ _).symm] at hself
    rw [pack_subnormal hm (Nat.mod_lt _ (by decide))]
    exact hself
  | normal he he' hm =>
    rw [hexponent _ rfl, hmantissa (2 ^ 52 + b.toNat % 2 ^ 52) (by omega)] at hself
    rw [pack_normal hm (by omega) (by omega) he']
    exact hself

theorem ofBits_toBits (x : Float) : Float.ofBits x.toBits = x := by
  obtain ⟨bits, hv⟩ := x
  simp only [Float.ofBits, Float.toBits, Float.Model.ofBits, Float.Model.pack, pack_unpack hv]

/-- The reading of an unpacked float. -/
def Reading.ofUnpacked : UnpackedFloat → Reading
  | .notANumber => .nan
  | .infinity s => .infinite (s == .negative)
  | .zero s => .finite (s == .negative) ⟨0, leastExponent⟩
  | .finite s m e _ => .finite (s == .negative) ⟨m, e⟩

theorem isNegative_ofBitVec (b : BitVec Format.binary64.numBits) :
    (Sign.ofBitVec (unpackSign b) == .negative) = decide (b.toNat / signBit % 2 = 1) := by
  have hsign (v : BitVec 1) : (Sign.ofBitVec v == .negative) = decide (v.toNat = 1) := by
    revert v
    decide
  rw [hsign, toNat_unpackSign]
  rfl

theorem Reading.ofFloat_eq (x : Float) : Reading.ofFloat x = .ofUnpacked x.toModel.unpack := by
  change Reading.ofBits x.toModel.toBits.toBitVec.toNat =
    .ofUnpacked (UnpackedFloat.unpack .binary64 x.toModel.toBits.toBitVec)
  generalize x.toModel.toBits.toBitVec = b
  have hfields := fields_unpack b
  have hfraction : b.toNat % leadingBit = b.toNat % 2 ^ 52 := rfl
  have hbiased : b.toNat / leadingBit % (topExponent + 1) = b.toNat / 2 ^ 52 % 2 ^ 11 := rfl
  generalize UnpackedFloat.unpack .binary64 b = u at hfields
  unfold Reading.ofBits
  rw [hfraction, hbiased]
  cases hfields with
  | nan he hm =>
    rw [if_pos (show _ = topExponent from he), if_neg hm]
    rfl
  | infinity he hm =>
    rw [if_pos (show _ = topExponent from he), if_pos hm, Reading.ofUnpacked, isNegative_ofBitVec]
  | zero he hm =>
    have htop : ¬b.toNat / 2 ^ 52 % 2 ^ 11 = topExponent := he ▸ by decide
    rw [if_neg htop, if_pos he, hm, Reading.ofUnpacked, isNegative_ofBitVec]
  | subnormal he hm =>
    have htop : ¬b.toNat / 2 ^ 52 % 2 ^ 11 = topExponent := he ▸ by decide
    rw [if_neg htop, if_pos he, Reading.ofUnpacked, isNegative_ofBitVec]
    rfl
  | normal he he' hm =>
    have hexponent : leastExponent + ((b.toNat / 2 ^ 52 % 2 ^ 11 - 1 : Nat) : Int) =
        (b.toNat / 2 ^ 52 % 2 ^ 11 : Nat) - 1075 := by
      unfold leastExponent
      omega
    have hmantissa : leadingBit + b.toNat % 2 ^ 52 = 2 ^ 52 + b.toNat % 2 ^ 52 := rfl
    have htop : ¬b.toNat / 2 ^ 52 % 2 ^ 11 = topExponent := Nat.ne_of_lt he'
    rw [if_neg htop, if_neg he, hexponent, hmantissa, Reading.ofUnpacked, isNegative_ofBitVec]

/-- The magnitudes that floats hold, each with one mantissa and exponent. -/
structure Binary.IsCanonical (b : Binary) : Prop where
  mantissa_lt : b.mantissa < 2 * leadingBit
  least_le : leastExponent ≤ b.exponent
  le_greatest : b.exponent ≤ 971
  least_or_le : b.exponent = leastExponent ∨ leadingBit ≤ b.mantissa

theorem leadingBit_eq : leadingBit = 2 ^ 52 := rfl

theorem signBit_eq : signBit = 2 ^ 63 := rfl

theorem Binary.IsCanonical.toBits_lt {b : Binary} (h : b.IsCanonical) : b.toBits < infinityBits := by
  obtain ⟨hlt, hleast, hgreatest, -⟩ := h
  unfold Binary.toBits infinityBits topExponent
  unfold leastExponent at *
  rw [leadingBit_eq] at *
  split
  · omega
  · omega

theorem Reading.ofBits_eq_finite {bits : Nat} {negative : Bool} {b : Binary} (hlt : bits < 2 ^ 64)
    (h : Reading.ofBits bits = .finite negative b) :
    b.IsCanonical ∧ b.toBits + (if negative then signBit else 0) = bits := by
  have hsign : (if decide (bits / signBit % 2 = 1) = true then signBit else 0) =
      bits / 2 ^ 63 * 2 ^ 63 := by
    rw [signBit_eq]
    split
    · rename_i hs
      have := of_decide_eq_true hs
      omega
    · rename_i hs
      have := of_decide_eq_false (Bool.not_eq_true _ ▸ hs)
      omega
  unfold Reading.ofBits at h
  simp only at h
  split at h
  · split at h
    · cases h
    · cases h
  · rename_i htop
    split at h
    · rename_i hzero
      obtain ⟨rfl, rfl⟩ := Reading.finite.inj h
      rw [hsign, Binary.toBits]
      rw [leadingBit_eq, topExponent] at *
      have hgreatest : leastExponent ≤ 971 := by decide
      refine ⟨⟨?_, Int.le_refl _, hgreatest, .inl rfl⟩, ?_⟩
      · rw [leadingBit_eq]
        dsimp only
        omega
      · rw [if_pos (Nat.mod_lt _ (by decide))]
        dsimp only
        omega
    · rename_i hzero
      obtain ⟨rfl, rfl⟩ := Reading.finite.inj h
      rw [hsign, Binary.toBits]
      rw [leadingBit_eq, topExponent] at *
      have hexponent : (leastExponent + ((bits / 2 ^ 52 % (2047 + 1) - 1 : Nat) : Int) -
          leastExponent + 1).toNat = bits / 2 ^ 52 % (2047 + 1) := by omega
      refine ⟨⟨?_, ?_, ?_, .inr ?_⟩, ?_⟩
      · rw [leadingBit_eq]
        dsimp only
        omega
      · dsimp only
        omega
      · unfold leastExponent
        dsimp only
        omega
      · exact Nat.le_add_right _ _
      · dsimp only
        rw [if_neg (by omega), hexponent]
        omega

/-- A finite float is determined by its reading. -/
theorem Reading.ofFloat_eq_finite {x : Float} {negative : Bool} {b : Binary}
    (h : Reading.ofFloat x = .finite negative b) :
    b.IsCanonical ∧ floatOfBits negative b.toBits = x := by
  obtain ⟨hcanonical, hbits⟩ := Reading.ofBits_eq_finite x.toBits.toNat_lt h
  refine ⟨hcanonical, ?_⟩
  unfold floatOfBits
  rw [hbits, UInt64.ofNat_toNat, ofBits_toBits]

theorem isFinite_iff {x : Float} :
    x.isFinite = true ↔ ∃ negative b, Reading.ofFloat x = .finite negative b := by
  rw [Reading.ofFloat_eq]
  change x.toModel.unpack.isFinite = true ↔ _
  cases x.toModel.unpack with
  | notANumber => simp [UnpackedFloat.isFinite, Reading.ofUnpacked]
  | infinity s => simp [UnpackedFloat.isFinite, Reading.ofUnpacked]
  | zero s => simp [UnpackedFloat.isFinite, Reading.ofUnpacked]
  | finite s m e hm => simp [UnpackedFloat.isFinite, Reading.ofUnpacked]

theorem isInf_of_isFinite {x : Float} (h : x.isFinite = true) : x.isInf = false := by
  change x.toModel.unpack.isFinite = true at h
  change x.toModel.unpack.isInf = false
  cases hu : x.toModel.unpack with
  | infinity s =>
    rw [hu] at h
    cases h
  | notANumber | zero s | finite s m e hm => rfl

/-- There are three floats that are no finite numbers. -/
theorem cases_of_not_isFinite {x : Float} (h : x.isFinite = false) :
    x = 0.0 / 0.0 ∨ x = 1.0 / 0.0 ∨ x = -(1.0 / 0.0) := by
  have hx : x = .ofModel (.pack x.toModel.unpack) := by
    obtain ⟨bits, hv⟩ := x
    simp only [Float.Model.unpack, Float.Model.pack, pack_unpack hv]
  change x.toModel.unpack.isFinite = false at h
  rw [hx]
  generalize x.toModel.unpack = u at h
  cases u with
  | notANumber => decide
  | infinity s =>
    cases s with
    | positive => decide
    | negative => decide
  | zero s => cases h
  | finite s m e hm => cases h

end Decimal

/-- Each float that is no finite number has a name of its own. -/
theorem Element.nonFinite?_nonFiniteName {x : Float} (h : x.isFinite = false) :
    nonFinite? (nonFiniteName x) = some x := by
  rcases Decimal.cases_of_not_isFinite h with rfl | rfl | rfl <;> decide

end StackMachine
