import StackMachine.Proofs.FloatBits

/-! The decimals that round to a float. A magnitude attracts the rationals that are nearer to it
than to the floats beside it, ends included if its mantissa is even, and whatever it attracts is
rounded to its bit pattern. -/
namespace StackMachine.Decimal

theorem zpow_eq_div (a : ℚ) (e : ℤ) : a ^ e = a ^ e.toNat / a ^ (-e).toNat := by
  rcases le_total 0 e with he | he
  · have hneg : (-e).toNat = 0 := by omega
    rw [hneg, pow_zero, div_one, ← zpow_natCast, Int.toNat_of_nonneg he]
  · have hpos : e.toNat = 0 := by omega
    rw [hpos, pow_zero, one_div, ← zpow_natCast, Int.toNat_of_nonneg (by omega), ← zpow_neg,
      neg_neg]

/-- The value of a magnitude. -/
def Binary.value (b : Binary) : ℚ := b.mantissa * 2 ^ b.exponent

/-- Whether the gap below a magnitude is half the gap above it. -/
def Binary.IsNarrow (b : Binary) : Prop :=
  b.mantissa = leadingBit ∧ b.exponent ≠ leastExponent

instance (b : Binary) : Decidable b.IsNarrow := inferInstanceAs (Decidable (_ ∧ _))

/-- The point halfway to the next lower float. -/
def Binary.low (b : Binary) : ℚ :=
  (4 * b.mantissa - if b.IsNarrow then 1 else 2) / 4 * 2 ^ b.exponent

/-- The point halfway to the next higher float. -/
def Binary.high (b : Binary) : ℚ := (4 * b.mantissa + 2) / 4 * 2 ^ b.exponent

/-- The rationals that round to a magnitude, ties going to the even mantissa. -/
def Binary.Attracts (b : Binary) (q : ℚ) : Prop :=
  if b.mantissa % 2 = 0 then b.low ≤ q ∧ q ≤ b.high else b.low < q ∧ q < b.high

theorem Binary.Attracts.low_le {b : Binary} {q : ℚ} (h : b.Attracts q) : b.low ≤ q := by
  unfold Binary.Attracts at h
  split at h
  · exact h.1
  · exact h.1.le

theorem Binary.Attracts.le_high {b : Binary} {q : ℚ} (h : b.Attracts q) : q ≤ b.high := by
  unfold Binary.Attracts at h
  split at h
  · exact h.2
  · exact h.2.le

section Quotients

theorem quotientLog_spec {num den : ℕ} (hn : 0 < num) (hd : 0 < den) :
    (2 : ℚ) ^ quotientLog num den ≤ num / den ∧
      (num / den : ℚ) < 2 ^ (quotientLog num den + 1) := by
  have hd' : (0 : ℚ) < den := by exact_mod_cast hd
  have hn' : (0 : ℚ) < num := by exact_mod_cast hn
  unfold quotientLog
  split
  · rename_i hle
    have hquot : num / den ≠ 0 := (Nat.div_pos hle hd).ne'
    have hlow : 2 ^ (num / den).log2 * den ≤ num :=
      (Nat.le_div_iff_mul_le hd).mp (Nat.log2_self_le hquot)
    have hhigh : num < 2 ^ ((num / den).log2 + 1) * den :=
      (Nat.div_lt_iff_lt_mul hd).mp Nat.lt_log2_self
    rw [le_div_iff₀ hd', div_lt_iff₀ hd', zpow_natCast]
    refine ⟨by exact_mod_cast hlow, ?_⟩
    rw [← Nat.cast_one (R := ℤ), ← Nat.cast_add, zpow_natCast]
    exact_mod_cast hhigh
  · rename_i hlt
    have hquot : (den - 1) / num ≠ 0 := (Nat.div_pos (by omega) hn).ne'
    have hlow : 2 ^ ((den - 1) / num).log2 * num ≤ den - 1 :=
      (Nat.le_div_iff_mul_le hn).mp (Nat.log2_self_le hquot)
    have hhigh : den - 1 < 2 ^ (((den - 1) / num).log2 + 1) * num :=
      (Nat.div_lt_iff_lt_mul hn).mp Nat.lt_log2_self
    generalize ((den - 1) / num).log2 = k at *
    have hnext : (-((k + 1 : ℕ) : ℤ) + 1) = -(k : ℤ) := by
      push_cast
      ring
    have hlow' : (2 : ℚ) ^ k * num < den := by
      have hnat : 2 ^ k * num < den := by omega
      exact_mod_cast hnat
    have hhigh' : (den : ℚ) ≤ 2 ^ (k + 1) * num := by
      have hnat : den ≤ 2 ^ (k + 1) * num := by omega
      exact_mod_cast hnat
    rw [hnext, zpow_neg, zpow_neg, zpow_natCast, zpow_natCast]
    constructor
    · rw [inv_le_iff_one_le_mul₀ (by positivity), div_mul_eq_mul_div, le_div_iff₀ hd']
      linarith
    · rw [← one_div, div_lt_div_iff₀ hd' (by positivity)]
      linarith

/-- Half a unit or less on either side of a natural number rounds to it, a half only to an even
one. -/
theorem roundDiv_even_eq {num den n : ℕ} (hd : 0 < den)
    (hlow : 2 * (n * den) ≤ 2 * num + den) (hhigh : 2 * num ≤ 2 * (n * den) + den)
    (htie : n % 2 = 0 ∨ 2 * (n * den) < 2 * num + den ∧ 2 * num < 2 * (n * den) + den) :
    roundDiv .even num den = n := by
  have hdiv := Nat.div_add_mod num den
  have hmod := Nat.mod_lt num hd
  have hbelow : num / den = n ∨ num / den + 1 = n := by
    have hle : num / den ≤ n := by
      have hlt : num / den < n + 1 := by
        rw [Nat.div_lt_iff_lt_mul hd, Nat.add_mul, Nat.one_mul]
        omega
      exact Nat.le_of_lt_succ hlt
    have hge : n ≤ num / den + 1 := by
      by_contra hc
      have hmul : (num / den + 2) * den ≤ n * den := Nat.mul_le_mul_right den (by omega)
      rw [Nat.add_mul, Nat.mul_comm (num / den)] at hmul
      omega
    omega
  unfold roundDiv
  rw [Nat.mul_comm] at hdiv
  rcases hbelow with hb | hb
  · rw [hb] at hdiv ⊢
    simp only
    split
    · rfl
    · split
      · omega
      · omega
  · rw [← hb, Nat.add_mul, Nat.one_mul] at hlow hhigh htie
    simp only
    split
    · omega
    · split
      · exact hb
      · omega

theorem roundDiv_error (tie : Tie) {num den : ℕ} (hd : 0 < den) :
    2 * num ≤ 2 * (roundDiv tie num den * den) + den ∧
      2 * (roundDiv tie num den * den) ≤ 2 * num + den := by
  have hdiv := Nat.div_add_mod num den
  have hmod := Nat.mod_lt num hd
  rw [Nat.mul_comm] at hdiv
  unfold roundDiv
  simp only
  split
  · omega
  · split
    · rw [Nat.add_mul, Nat.one_mul]
      omega
    · cases tie with
      | up =>
        simp only [Nat.add_mul, Nat.one_mul]
        omega
      | even =>
        simp only
        rcases Nat.mod_two_eq_zero_or_one (num / den) with h | h
        · rw [h, Nat.add_zero]
          omega
        · rw [h, Nat.add_mul, Nat.one_mul]
          omega

theorem order_of_sub_eq {x y d : ℚ} {a c : ℕ} (hd : 0 < d) (h : y - x = (a - c) / d) :
    (x ≤ y ↔ c ≤ a) ∧ (x < y ↔ c < a) := by
  constructor
  · rw [← sub_nonneg, h, le_div_iff₀ hd, zero_mul, sub_nonneg, Nat.cast_le]
  · rw [← sub_pos, h, lt_div_iff₀ hd, zero_mul, sub_pos, Nat.cast_lt]

/-- Rounding to the multiples of a power of two, with the quotient as a rational. -/
theorem roundDiv_scaled {num den n : ℕ} {e : ℤ} (hd : 0 < den)
    (hlow : (n - 1 / 2) * (2 : ℚ) ^ e ≤ num / den) (hhigh : (num / den : ℚ) ≤ (n + 1 / 2) * 2 ^ e)
    (htie : n % 2 = 0 ∨
      (n - 1 / 2) * (2 : ℚ) ^ e < num / den ∧ (num / den : ℚ) < (n + 1 / 2) * 2 ^ e) :
    roundDiv .even (num * 2 ^ (-e).toNat) (den * 2 ^ e.toNat) = n := by
  have hd' : (0 : ℚ) < den := by exact_mod_cast hd
  have hbelow : num / den - (n - 1 / 2) * (2 : ℚ) ^ e =
      ((2 * (num * 2 ^ (-e).toNat) + den * 2 ^ e.toNat : ℕ) - (2 * (n * (den * 2 ^ e.toNat)) : ℕ)) /
        (2 * den * 2 ^ (-e).toNat) := by
    rw [zpow_eq_div]
    push_cast
    field_simp
    ring
  have habove : (n + 1 / 2) * (2 : ℚ) ^ e - num / den =
      ((2 * (n * (den * 2 ^ e.toNat)) + den * 2 ^ e.toNat : ℕ) - (2 * (num * 2 ^ (-e).toNat) : ℕ)) /
        (2 * den * 2 ^ (-e).toNat) := by
    rw [zpow_eq_div]
    push_cast
    field_simp
  have hpos : (0 : ℚ) < 2 * den * 2 ^ (-e).toNat := by positivity
  rw [(order_of_sub_eq hpos hbelow).1] at hlow
  rw [(order_of_sub_eq hpos habove).1] at hhigh
  rw [(order_of_sub_eq hpos hbelow).2, (order_of_sub_eq hpos habove).2] at htie
  exact roundDiv_even_eq (Nat.mul_pos hd (Nat.two_pow_pos _)) hlow hhigh htie

end Quotients

section Attraction
variable {b : Binary} {num den : ℕ}

theorem leadingBit_cast : (leadingBit : ℚ) = 2 ^ 52 := by
  rw [leadingBit_eq]
  norm_cast

/-- A quotient in the binade of a magnitude that attracts it is rounded to the magnitude. -/
theorem Binary.ofQuotient_of_binade (hd : 0 < den) (h : b.Attracts (num / den))
    (he : max leastExponent (quotientLog num den - storedBits) = b.exponent)
    (hwide : b.IsNarrow → b.value ≤ num / den) : Binary.ofQuotient num den = b := by
  have hp : (0 : ℚ) < 2 ^ b.exponent := by positivity
  have hlow : (b.mantissa - 1 / 2) * (2 : ℚ) ^ b.exponent ≤ num / den := by
    by_cases hn : b.IsNarrow
    · refine le_trans ?_ (hwide hn)
      exact mul_le_mul_of_nonneg_right (by linarith) hp.le
    · refine le_trans (le_of_eq ?_) h.low_le
      rw [Binary.low, if_neg hn]
      ring
  have hhigh : (num / den : ℚ) ≤ (b.mantissa + 1 / 2) * 2 ^ b.exponent := by
    refine le_trans h.le_high (le_of_eq ?_)
    rw [Binary.high]
    ring
  have htie : b.mantissa % 2 = 0 ∨ (b.mantissa - 1 / 2) * (2 : ℚ) ^ b.exponent < num / den ∧
      (num / den : ℚ) < (b.mantissa + 1 / 2) * 2 ^ b.exponent := by
    by_cases hm : b.mantissa % 2 = 0
    · exact .inl hm
    · have hn : ¬b.IsNarrow := by
        rintro ⟨hlead, -⟩
        rw [hlead] at hm
        exact hm rfl
      rw [Binary.Attracts, if_neg hm, Binary.low, Binary.high, if_neg hn] at h
      refine .inr ⟨lt_of_eq_of_lt ?_ h.1, lt_of_lt_of_eq h.2 ?_⟩
      · ring
      · ring
  unfold Binary.ofQuotient
  simp only [he, Nat.pow_eq]
  rw [roundDiv_scaled hd hlow hhigh htie]

/-- Below a power of two the floats are twice as dense, and a quotient that the power of two
attracts is rounded up to it. -/
theorem Binary.ofQuotient_of_narrow (hd : 0 < den) (h : b.Attracts (num / den)) (hn : b.IsNarrow)
    (he : max leastExponent (quotientLog num den - storedBits) = b.exponent - 1)
    (hlt : (num / den : ℚ) < b.value) :
    Binary.ofQuotient num den = ⟨2 * leadingBit, b.exponent - 1⟩ := by
  have hhalf : (2 : ℚ) ^ b.exponent = 2 * 2 ^ (b.exponent - 1) := by
    rw [← zpow_one_add₀ (by norm_num)]
    congr 1
    ring
  have hp : (0 : ℚ) < 2 ^ (b.exponent - 1) := by positivity
  have hlow : ((2 * leadingBit : ℕ) - 1 / 2) * (2 : ℚ) ^ (b.exponent - 1) ≤ num / den := by
    refine le_trans (le_of_eq ?_) h.low_le
    rw [Binary.low, if_pos hn, hn.1, hhalf]
    push_cast
    ring
  have hhigh : (num / den : ℚ) ≤ ((2 * leadingBit : ℕ) + 1 / 2) * 2 ^ (b.exponent - 1) := by
    refine le_trans hlt.le ?_
    rw [Binary.value, hn.1, hhalf]
    push_cast
    linarith
  unfold Binary.ofQuotient
  simp only [he, Nat.pow_eq]
  rw [roundDiv_scaled hd hlow hhigh (.inl rfl)]

theorem Binary.low_pos (hm : b.mantissa ≠ 0) : 0 < b.low := by
  have hone : (1 : ℚ) ≤ b.mantissa := by exact_mod_cast Nat.pos_of_ne_zero hm
  have hp : (0 : ℚ) < 2 ^ b.exponent := by positivity
  unfold Binary.low
  refine mul_pos (div_pos ?_ (by norm_num)) hp
  split
  · linarith
  · linarith

theorem Binary.IsCanonical.high_lt (hc : b.IsCanonical) : b.high < 2 ^ (b.exponent + 53) := by
  have hlt : (b.mantissa : ℚ) + 1 ≤ 2 ^ 53 := by
    have hnat : b.mantissa + 1 ≤ 2 ^ 53 := hc.mantissa_lt
    exact_mod_cast hnat
  have hp : (0 : ℚ) < 2 ^ b.exponent := by positivity
  have hpow : (2 : ℚ) ^ (b.exponent + 53) = 2 ^ 53 * 2 ^ b.exponent := by
    rw [zpow_add₀ (by norm_num), mul_comm]
    norm_cast
  rw [hpow, Binary.high]
  exact mul_lt_mul_of_pos_right (by linarith) hp

/-- Only a power of two attracts a quotient of the binade below its own. -/
theorem Binary.isNarrow_of_lt (hc : b.IsCanonical) (hne : b.exponent ≠ leastExponent) {q : ℚ}
    (h : b.Attracts q) (hlt : q < 2 ^ 52 * 2 ^ b.exponent) : b.IsNarrow := by
  have hp : (0 : ℚ) < 2 ^ b.exponent := by positivity
  by_contra hn
  have hmore : leadingBit + 1 ≤ b.mantissa := by
    have hlead := hc.least_or_le.resolve_left hne
    have hother : b.mantissa ≠ leadingBit := fun heq => hn ⟨heq, hne⟩
    omega
  have hmore' : (2 : ℚ) ^ 52 + 1 ≤ b.mantissa := by
    rw [← leadingBit_cast]
    exact_mod_cast hmore
  have hlow : 2 ^ 52 * 2 ^ b.exponent ≤ b.low := by
    rw [Binary.low, if_neg hn]
    exact mul_le_mul_of_nonneg_right (by linarith) hp.le
  linarith [h.low_le]

/-- A quotient is rounded to the bit pattern of the magnitude that attracts it. -/
theorem nearestBits_eq (hc : b.IsCanonical) (hm : b.mantissa ≠ 0) (hd : 0 < den)
    (h : b.Attracts (num / den)) : nearestBits num den = b.toBits := by
  have hn : 0 < num := by
    have hq : (0 : ℚ) < num / den := lt_of_lt_of_le (Binary.low_pos hm) h.low_le
    by_contra hzero
    rw [Nat.eq_zero_of_not_pos hzero] at hq
    simp at hq
  obtain ⟨hlog, hlog'⟩ := quotientLog_spec hn hd
  have hbelow : quotientLog num den < b.exponent + 53 := by
    rw [← zpow_lt_zpow_iff_right₀ (one_lt_two : (1 : ℚ) < 2)]
    linarith [h.le_high, hc.high_lt]
  have hlog_of_le {k : ℤ} (hk : (2 : ℚ) ^ k ≤ num / den) : k ≤ quotientLog num den := by
    have hlt := (zpow_lt_zpow_iff_right₀ (one_lt_two : (1 : ℚ) < 2)).mp (lt_of_le_of_lt hk hlog')
    omega
  have hstored : (storedBits : ℤ) = 52 := rfl
  have hpow (k : ℕ) : (2 : ℚ) ^ (b.exponent + k) = 2 ^ k * 2 ^ b.exponent := by
    rw [zpow_add₀ (by norm_num), mul_comm, zpow_natCast]
  have hbits : (Binary.ofQuotient num den).toBits = b.toBits := by
    by_cases hleast : b.exponent = leastExponent
    · rw [Binary.ofQuotient_of_binade hd h (by omega) (fun hnarrow => absurd hleast hnarrow.2)]
    have hgt : leastExponent < b.exponent := lt_of_le_of_ne hc.least_le (Ne.symm hleast)
    by_cases hq : 2 ^ 52 * (2 : ℚ) ^ b.exponent ≤ num / den
    · have hge : b.exponent + (52 : ℕ) ≤ quotientLog num den := hlog_of_le (by rwa [hpow])
      rw [Binary.ofQuotient_of_binade hd h (by omega)]
      intro hnarrow
      rwa [Binary.value, hnarrow.1, leadingBit_cast]
    · have hnarrow := Binary.isNarrow_of_lt hc hleast h (not_le.mp hq)
      have hvalue : b.value = 2 ^ (b.exponent + (52 : ℕ)) := by
        rw [Binary.value, hnarrow.1, leadingBit_cast, hpow]
      have hlt : (num / den : ℚ) < b.value := by
        rw [hvalue, hpow]
        exact not_le.mp hq
      have hge : b.exponent + (51 : ℕ) ≤ quotientLog num den := by
        refine hlog_of_le (le_trans ?_ h.low_le)
        rw [hpow, Binary.low, if_pos hnarrow, hnarrow.1, leadingBit_cast]
        exact mul_le_mul_of_nonneg_right (by norm_num) (by positivity)
      have hlt' : quotientLog num den < b.exponent + (52 : ℕ) := by
        rw [← zpow_lt_zpow_iff_right₀ (one_lt_two : (1 : ℚ) < 2), ← hvalue]
        exact lt_of_le_of_lt hlog hlt
      rw [Binary.ofQuotient_of_narrow hd h hnarrow (by omega) hlt]
      unfold Binary.toBits
      dsimp only
      rw [hnarrow.1, leadingBit_eq, if_neg (by decide), if_neg (by decide)]
      omega
  unfold nearestBits
  rw [hbits]
  exact Nat.min_eq_left hc.toBits_lt.le

end Attraction

/-- The number that a numeral without its sign stands for. -/
def Numeral.magnitude (n : Numeral) : ℚ := n.digits * 10 ^ n.scale

theorem two_pow_le_ten_pow (k : ℕ) : (2 : ℚ) ^ (3 * k) ≤ 10 ^ k := by
  rw [pow_mul]
  exact pow_le_pow_left₀ (by norm_num) (by norm_num) k

theorem Binary.IsCanonical.le_low {b : Binary} (hc : b.IsCanonical) (hm : b.mantissa ≠ 0) :
    (2 : ℚ) ^ (-1075 : ℤ) ≤ b.low := by
  have hone : (1 : ℚ) ≤ b.mantissa := by exact_mod_cast Nat.pos_of_ne_zero hm
  have hleast : (2 : ℚ) ^ (-1074 : ℤ) ≤ 2 ^ b.exponent :=
    zpow_le_zpow_right₀ (by norm_num) hc.least_le
  have hhalf : (2 : ℚ) ^ (-1075 : ℤ) = 1 / 2 * 2 ^ (-1074 : ℤ) := by
    rw [one_div, ← zpow_neg_one, ← zpow_add₀ (by norm_num)]
    rfl
  rw [hhalf, Binary.low]
  refine mul_le_mul ?_ hleast (by positivity) ?_
  · split
    · linarith
    · linarith
  · split
    · linarith
    · linarith

/-- A numeral is read as the float whose magnitude attracts it. -/
theorem Numeral.magnitudeBits_eq {b : Binary} {n : Numeral} (hc : b.IsCanonical)
    (hm : b.mantissa ≠ 0) (h : b.Attracts n.magnitude) : n.magnitudeBits = b.toBits := by
  have hpos : 0 < n.magnitude := lt_of_lt_of_le (Binary.low_pos hm) h.low_le
  have hdigits : n.digits ≠ 0 := by
    intro hzero
    rw [Numeral.magnitude, hzero] at hpos
    simp at hpos
  have hone : (1 : ℚ) ≤ n.digits := by exact_mod_cast Nat.pos_of_ne_zero hdigits
  have hhigh : ¬(scaleLimit : ℤ) < n.scale := by
    intro hlt
    have hgreatest := hc.le_greatest
    refine absurd h.le_high (not_le.mpr ?_)
    calc b.high < 2 ^ (b.exponent + 53) := hc.high_lt
      _ ≤ (2 : ℚ) ^ ((3 * 401 : ℕ) : ℤ) :=
        zpow_le_zpow_right₀ (by norm_num) (by omega)
      _ ≤ 10 ^ ((401 : ℕ) : ℤ) := by
        rw [zpow_natCast, zpow_natCast]
        exact two_pow_le_ten_pow 401
      _ ≤ 10 ^ n.scale := zpow_le_zpow_right₀ (by norm_num) hlt
      _ ≤ n.magnitude := le_mul_of_one_le_left (by positivity) hone
  have hlow : ¬n.scale < -((scaleLimit + n.digits.log2 : ℕ) : ℤ) := by
    intro hlt
    generalize hk : n.digits.log2 = k at hlt
    have hbound : (n.digits : ℚ) < 2 ^ ((k + 1 : ℕ) : ℤ) := by
      rw [zpow_natCast, ← hk]
      exact_mod_cast Nat.lt_log2_self
    refine absurd h.low_le (not_le.mpr (lt_of_lt_of_le ?_ (hc.le_low hm)))
    calc n.magnitude < 2 ^ ((k + 1 : ℕ) : ℤ) * 10 ^ n.scale :=
        mul_lt_mul_of_pos_right hbound (by positivity)
      _ ≤ 2 ^ ((k + 1 : ℕ) : ℤ) * 10 ^ (-((401 + k : ℕ) : ℤ)) := by
        refine mul_le_mul_of_nonneg_left ?_ (by positivity)
        refine zpow_le_zpow_right₀ (by norm_num) ?_
        unfold scaleLimit at hlt
        omega
      _ ≤ 2 ^ ((k + 1 : ℕ) : ℤ) * 2 ^ (-((3 * (401 + k) : ℕ) : ℤ)) := by
        refine mul_le_mul_of_nonneg_left ?_ (by positivity)
        rw [zpow_neg, zpow_neg, zpow_natCast, zpow_natCast]
        exact inv_anti₀ (by positivity) (two_pow_le_ten_pow _)
      _ ≤ (2 : ℚ) ^ (-1075 : ℤ) := by
        rw [← zpow_add₀ (by norm_num)]
        exact zpow_le_zpow_right₀ (by norm_num) (by omega)
  unfold Numeral.magnitudeBits
  rw [if_neg hdigits, if_neg hhigh, if_neg hlow]
  refine nearestBits_eq hc hm (Nat.pow_pos (by decide)) ?_
  convert h using 1
  rw [Numeral.magnitude, zpow_eq_div]
  simp only [Nat.pow_eq]
  push_cast
  ring

end StackMachine.Decimal
