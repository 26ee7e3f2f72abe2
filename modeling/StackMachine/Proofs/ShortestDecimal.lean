import StackMachine.Decimal.Layout
import StackMachine.Proofs.NearestFloat

/-! The shortest decimal of a float rounds to the float. The search over the decimal grids stops at
a point that the float attracts, and on the finest grid, of seventeen digits, the nearest point is
such a point. -/
namespace StackMachine.Decimal

section Windows
variable {b : Binary}

/-- The unit of a window over the grid of multiples of `10 ^ grid`. -/
def Binary.unit (b : Binary) (grid : ℤ) : ℚ :=
  1 / (4 * 2 ^ (-b.exponent).toNat * 10 ^ (-grid).toNat)

theorem Binary.unit_pos (grid : ℤ) : 0 < b.unit grid := by
  unfold Binary.unit
  positivity

theorem Binary.window_step (grid : ℤ) : ((b.window grid).step : ℚ) * b.unit grid = 10 ^ grid := by
  rw [zpow_eq_div]
  simp only [Binary.window, Binary.unit, Nat.pow_eq]
  push_cast
  field_simp

theorem Binary.window_value (grid : ℤ) : ((b.window grid).value : ℚ) * b.unit grid = b.value := by
  rw [Binary.value, zpow_eq_div]
  simp only [Binary.window, Binary.unit, Nat.pow_eq]
  push_cast
  field_simp

theorem Binary.window_high (grid : ℤ) : ((b.window grid).high : ℚ) * b.unit grid = b.high := by
  rw [Binary.high, zpow_eq_div]
  simp only [Binary.window, Binary.unit, Nat.pow_eq]
  push_cast
  field_simp

theorem Binary.window_low (hm : b.mantissa ≠ 0) (grid : ℤ) :
    ((b.window grid).low : ℚ) * b.unit grid = b.low := by
  have hnarrow : (b.mantissa = leadingBit && b.exponent ≠ leastExponent) = true ↔ b.IsNarrow := by
    simp [Binary.IsNarrow]
  have hle : (if b.IsNarrow then 1 else 2) ≤ 4 * b.mantissa := by
    split
    · omega
    · omega
  rw [Binary.low, zpow_eq_div]
  simp only [Binary.window, Binary.unit, Nat.pow_eq, hnarrow]
  rw [Nat.cast_mul, Nat.cast_sub hle]
  push_cast
  field_simp

theorem Binary.window_contains_iff (hm : b.mantissa ≠ 0) {grid : ℤ} {n : ℕ} :
    (b.window grid).contains n = true ↔ b.Attracts (n * 10 ^ grid) := by
  have hpos := Binary.unit_pos (b := b) grid
  have hpoint : (n * (b.window grid).step : ℕ) * b.unit grid = n * 10 ^ grid := by
    rw [Nat.cast_mul, mul_assoc, Binary.window_step]
  have hclosed : (b.window grid).closed = decide (b.mantissa % 2 = 0) := rfl
  unfold Window.contains Binary.Attracts
  rw [← hpoint, ← Binary.window_low hm grid, ← Binary.window_high grid,
    mul_le_mul_iff_left₀ hpos, mul_le_mul_iff_left₀ hpos, mul_lt_mul_iff_left₀ hpos,
    mul_lt_mul_iff_left₀ hpos, Nat.cast_le, Nat.cast_le, Nat.cast_lt, Nat.cast_lt, hclosed]
  simp only [decide_eq_true_eq]
  split
  · simp
  · simp

theorem Window.nearest_eq_or (w : Window) (tie : Tie) :
    w.nearest tie = w.value / w.step ∨ w.nearest tie = w.value / w.step + 1 := by
  unfold Window.nearest roundDiv
  simp only
  split
  · exact .inl rfl
  · split
    · exact .inr rfl
    · cases tie with
      | up => exact .inr rfl
      | even =>
        simp only
        omega

theorem Window.contains_of_pick? {w : Window} {tie : Tie} {n : ℕ} (h : w.pick? tie = some n) :
    w.contains n = true := by
  unfold Window.pick? at h
  simp only at h
  split at h
  · rename_i hbelow habove
    cases h
    rcases w.nearest_eq_or tie with he | he
    · rw [he]
      exact hbelow
    · rw [he]
      exact habove
  · rename_i hbelow _
    cases h
    exact hbelow
  · rename_i _ habove
    cases h
    exact habove
  · cases h

end Windows

section Digits

theorem lt_pow_digitCount (n : ℕ) : n < 10 ^ digitCount n :=
  (Nat.length_toDigits_le_iff (by decide) Nat.length_toDigits_pos).mp (Nat.le_refl _)

theorem pow_digitCount_le {n : ℕ} (hn : n ≠ 0) : 10 ^ (digitCount n - 1) ≤ n := by
  by_contra hlt
  rcases Nat.eq_zero_or_pos (digitCount n - 1) with hz | hz
  · rw [hz] at hlt
    omega
  · have hle := (Nat.length_toDigits_le_iff (by decide) hz).mpr (not_le.mp hlt)
    unfold digitCount at hle hz
    omega

theorem Binary.quotient_eq (b : Binary) : (b.quotient.1 / b.quotient.2 : ℚ) = b.value := by
  rw [Binary.value, zpow_eq_div]
  simp only [Binary.quotient, Nat.pow_eq]
  push_cast
  ring

theorem Binary.pow_decimalExponent_le {b : Binary} (hm : b.mantissa ≠ 0) :
    (10 : ℚ) ^ b.decimalExponent ≤ b.value := by
  have hd : 0 < b.quotient.2 := Nat.pow_pos (by decide)
  have hn : 0 < b.quotient.1 := Nat.mul_pos (Nat.pos_of_ne_zero hm) (Nat.pow_pos (by decide))
  rw [← Binary.quotient_eq]
  unfold Binary.decimalExponent
  generalize b.quotient = q at hd hn
  obtain ⟨num, den⟩ := q
  dsimp only at hd hn ⊢
  have hd' : (0 : ℚ) < den := by exact_mod_cast hd
  split
  · have hlt : den - 1 < 10 ^ digitCount ((den - 1) / num) * num :=
      (Nat.div_lt_iff_lt_mul hn).mp (lt_pow_digitCount _)
    have hle : (den : ℚ) ≤ 10 ^ digitCount ((den - 1) / num) * num := by
      have hnat : den ≤ 10 ^ digitCount ((den - 1) / num) * num := by omega
      exact_mod_cast hnat
    rw [zpow_neg, zpow_natCast, inv_le_iff_one_le_mul₀ (by positivity), div_mul_eq_mul_div,
      le_div_iff₀ hd']
    linarith
  · rename_i hge
    have hquot : num / den ≠ 0 := (Nat.div_pos (by omega) hd).ne'
    have hle : 10 ^ (digitCount (num / den) - 1) * den ≤ num :=
      (Nat.le_div_iff_mul_le hd).mp (pow_digitCount_le hquot)
    have hcount : ((digitCount (num / den) : ℕ) : ℤ) - 1 = ((digitCount (num / den) - 1 : ℕ) : ℤ) := by
      have hpos : 0 < digitCount (num / den) := Nat.length_toDigits_pos
      omega
    rw [hcount, zpow_natCast, le_div_iff₀ hd']
    exact_mod_cast hle

end Digits

theorem Binary.Attracts.of_lt {b : Binary} {q : ℚ} (hlow : b.low < q) (hhigh : q < b.high) :
    b.Attracts q := by
  unfold Binary.Attracts
  split
  · exact ⟨hlow.le, hhigh.le⟩
  · exact ⟨hlow, hhigh⟩

/-- The nearest point of a grid is half a step away at most. -/
theorem Binary.nearest_error (b : Binary) (grid : ℤ) (tie : Tie) :
    2 * b.value ≤ 2 * ((b.window grid).nearest tie * 10 ^ grid) + 10 ^ grid ∧
      2 * ((b.window grid).nearest tie * 10 ^ grid) ≤ 2 * b.value + 10 ^ grid := by
  have hstep : 0 < (b.window grid).step := by
    unfold Binary.window
    exact Nat.mul_pos (Nat.mul_pos (by decide) (Nat.pow_pos (by decide))) (Nat.pow_pos (by decide))
  obtain ⟨habove, hbelow⟩ := @roundDiv_error tie (b.window grid).value _ hstep
  have hunit := (Binary.unit_pos (b := b) grid).le
  have habove' := mul_le_mul_of_nonneg_right (Nat.cast_le (α := ℚ) |>.mpr habove) hunit
  have hbelow' := mul_le_mul_of_nonneg_right (Nat.cast_le (α := ℚ) |>.mpr hbelow) hunit
  push_cast at habove' hbelow'
  unfold Window.nearest
  rw [← Binary.window_step (b := b), ← Binary.window_value (b := b) grid]
  constructor
  · linarith
  · linarith

/-- On the grid of seventeen digits the nearest point is nearer than the floats beside. -/
theorem Binary.attracts_nearest {b : Binary} (hc : b.IsCanonical) (tie : Tie) {top : ℤ}
    (htop : (10 : ℚ) ^ top ≤ b.value) :
    b.Attracts ((b.window (top - 16)).nearest tie * 10 ^ (top - 16)) := by
  obtain ⟨habove, hbelow⟩ := b.nearest_error (top - 16) tie
  have hp : (0 : ℚ) < 2 ^ b.exponent := by positivity
  have hgrid : (10 : ℚ) ^ (top - 16) * 10 ^ 16 ≤ b.value := by
    refine le_trans (le_of_eq ?_) htop
    rw [← zpow_natCast, ← zpow_add₀ (by norm_num)]
    congr 1
    omega
  generalize (10 : ℚ) ^ (top - 16) = step at *
  have hlow : b.value - (if b.IsNarrow then 1 else 2) / 4 * 2 ^ b.exponent = b.low := by
    rw [Binary.low, Binary.value]
    ring
  have hhigh : b.value + 2 / 4 * 2 ^ b.exponent = b.high := by
    rw [Binary.high, Binary.value]
    ring
  have hcoarse : step < (if b.IsNarrow then 1 else 2) / 2 * 2 ^ b.exponent := by
    split
    · rename_i hn
      rw [Binary.value, hn.1, leadingBit_cast] at hgrid
      linarith
    · have hlt : (b.mantissa : ℚ) ≤ 2 ^ 53 := by
        have hnat : b.mantissa ≤ 2 ^ 53 := hc.mantissa_lt.le
        exact_mod_cast hnat
      have hmul := mul_le_mul_of_nonneg_right hlt hp.le
      rw [Binary.value] at hgrid
      linarith
  have hcoarse' : step < 2 ^ b.exponent := by
    refine lt_of_lt_of_le hcoarse ?_
    split
    · linarith
    · linarith
  refine .of_lt ?_ ?_
  · rw [← hlow]
    linarith
  · rw [← hhigh]
    linarith

theorem Binary.attracts_search {b : Binary} (hc : b.IsCanonical) (hm : b.mantissa ≠ 0) (tie : Tie)
    {top : ℤ} (htop : (10 : ℚ) ^ top ≤ b.value) {count left : ℕ} (h : count + left = maxDigits) :
    b.Attracts ((b.search tie top count left).1 * 10 ^ (b.search tie top count left).2) := by
  induction left generalizing count with
  | zero =>
    have hgrid : top - (count : ℤ) + 1 = top - 16 := by
      unfold maxDigits at h
      omega
    simp only [Binary.search, hgrid]
    exact Binary.attracts_nearest hc tie htop
  | succ left ih =>
    unfold Binary.search
    simp only
    split
    · rename_i n hpick
      exact (Binary.window_contains_iff hm).mp (Window.contains_of_pick? hpick)
    · exact ih (by omega)

end StackMachine.Decimal
